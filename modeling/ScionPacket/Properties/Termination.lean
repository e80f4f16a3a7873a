import ScionPacket.Scion.Packet

/-!
# Properties — termination of the extension walk

The walk reads a record's two-byte prefix `(next_hdr_type, hdr_len)` and moves `offset` by
`hdr_len`.  A record whose length byte is `0` and whose next-type byte is not leaves `offset`
where it is and makes the next iteration read the same record again, so the loop never ends
(`ExtWalk.Stuck`).  Every other iteration ends the walk, raises, or moves `offset` forward:

* `ExtWalk.run_eq_outOfFuel_iff`: every fuel runs out exactly when the walk reaches a stuck
  record (`ExtWalk.Stalls`);
* `ExtWalk.run_ne_outOfFuel`: otherwise `len(raw) − offset + 1` iterations end it, and more fuel
  changes nothing (`ExtWalk.run_add`);
* `ExtWalk.run_records`: a walk that ends has appended `N` records with `N = 0` or
  `offset + N + 1 ≤ len(raw)`.

`parse_terminates_iff` lifts these to `SCIONHeader.parse` and `SCIONPacket.parse`;
`parse_diverges_on_zero_length_record` is a sixteen-byte buffer on which both run forever.
-/

namespace ScionPacket

namespace ExtWalk

variable (W : Wire) (raw : Bytes)

/-- The loop is running and the record at `offset` has length byte `0` and a non-zero next
type. -/
def Stuck (s : ExtWalk) : Prop :=
  s.curHdrType ≠ 0 ∧
    ∃ t, t ≠ 0 ∧ unpackUints .big [1, 1] (raw.slice s.offset (s.offset + 2)) = some [t, 0]

/-- The states the loop passes through from `s`: `s`, then the state after each iteration that
neither ends the loop nor raises. -/
inductive Reaches : ExtWalk → ExtWalk → Prop
  | refl (s : ExtWalk) : Reaches s s
  | step {s s' t : ExtWalk} : s.curHdrType ≠ 0 → s.step W raw = some s' → Reaches s' t →
      Reaches s t

/-- The walk from `s` reaches a stuck record. -/
def Stalls (s : ExtWalk) : Prop := ∃ t, Reaches W raw s t ∧ Stuck raw t

/-! ### Divergence -/

/-- From a stuck record the loop reads the same record forever. -/
theorem run_of_stuck {s : ExtWalk} (h : Stuck raw s) (fuel : Nat) :
    run W raw fuel s = .outOfFuel := by
  induction fuel generalizing s with
  | zero => simp [run, h.1]
  | succ fuel ih =>
      obtain ⟨hc, t, ht, hr⟩ := h
      rw [run, if_neg hc, step_of_read W raw hr]
      exact ih ⟨ht, t, ht, by simpa using hr⟩

theorem run_of_stalls {s : ExtWalk} (h : Stalls W raw s) (fuel : Nat) :
    run W raw fuel s = .outOfFuel := by
  obtain ⟨t, hreach, hs⟩ := h
  induction hreach generalizing fuel with
  | refl => exact run_of_stuck W raw hs fuel
  | step hc hst _ ih =>
      cases fuel with
      | zero => simp [run, hc]
      | succ fuel => rw [run, if_neg hc, hst]; exact ih fuel hs

/-! ### Termination -/

/-- Without a stuck record ahead, `len(raw) − offset + 1` iterations end the walk. -/
theorem run_ne_outOfFuel {s : ExtWalk} (h : ¬ Stalls W raw s) {fuel : Nat}
    (hf : raw.length - s.offset < fuel) : run W raw fuel s ≠ .outOfFuel := by
  induction fuel generalizing s with
  | zero => omega
  | succ fuel ih =>
      rw [run]
      split
      · simp
      · rename_i hc
        cases hst : s.step W raw with
        | none => simp
        | some s' =>
            obtain ⟨next, len, hr, hle, rfl⟩ := step_eq_some W raw hst
            by_cases hl : len = 0
            · subst hl
              by_cases hn : next = 0
              · subst hn; simp [run_of_done W raw fuel]
              · exact absurd ⟨s, .refl s, hc, next, hn, hr⟩ h
            · exact ih (fun ⟨t, ht, hs⟩ => h ⟨t, .step hc hst ht, hs⟩) (by dsimp only; omega)

/-- More fuel does not change a walk that ended. -/
theorem run_add {s : ExtWalk} {fuel : Nat} (h : run W raw fuel s ≠ .outOfFuel) (k : Nat) :
    run W raw (fuel + k) s = run W raw fuel s := by
  induction fuel generalizing s with
  | zero =>
      by_cases hc : s.curHdrType = 0
      · rw [run_of_done W raw _ hc, run_of_done W raw _ hc]
      · simp [run, hc] at h
  | succ fuel ih =>
      rw [Nat.add_right_comm]
      by_cases hc : s.curHdrType = 0
      · rw [run_of_done W raw _ hc, run_of_done W raw _ hc]
      · cases hst : s.step W raw with
        | none => simp [run, hc, hst]
        | some s' =>
            simp only [run, hc, hst, if_false] at h ⊢
            exact ih h

/-- Every fuel runs out exactly when the walk reaches a stuck record. -/
theorem run_eq_outOfFuel_iff (s : ExtWalk) :
    (∀ fuel, run W raw fuel s = .outOfFuel) ↔ Stalls W raw s :=
  ⟨fun h => Classical.byContradiction fun hs =>
      run_ne_outOfFuel W raw hs (Nat.lt_succ_self _) (h _),
    fun h => run_of_stalls W raw h⟩

/-- A walk that ends has appended `N` records, with `N = 0` or `offset + N + 1 ≤ len(raw)`:
each record but a last empty one moves `offset` forward, and each is read from two bytes
inside `raw`. -/
theorem run_records {s t : ExtWalk} {fuel : Nat} (h : run W raw fuel s = .parsed t) :
    ∃ new, t.extensionHdrs = s.extensionHdrs ++ new ∧
      (new = [] ∨ s.offset + new.length + 1 ≤ raw.length) := by
  by_cases hc : s.curHdrType = 0
  · rw [run_of_done W raw fuel hc] at h
    cases h
    exact ⟨[], by simp, .inl rfl⟩
  induction fuel generalizing s with
  | zero => simp [run, hc] at h
  | succ fuel ih =>
      rw [run, if_neg hc] at h
      split at h
      · cases h
      · rename_i s' hst
        obtain ⟨next, len, hr, hle, rfl⟩ := step_eq_some W raw hst
        by_cases hn : next = 0
        · rw [run_of_done W raw fuel hn] at h
          cases h
          exact ⟨[_], rfl, .inr (by simp; omega)⟩
        by_cases hl : len = 0
        · subst hl
          rw [run_of_stuck W raw ⟨hn, next, hn, by simpa using hr⟩] at h
          cases h
        obtain ⟨new, hnew, hb⟩ := ih h hn
        refine ⟨extHdrOf W s.curHdrType (raw.slice s.offset (s.offset + len)) :: new,
          by simp [hnew], .inr ?_⟩
        rcases hb with rfl | hb <;> simp only [List.length_cons, List.length_nil] at * <;> omega

end ExtWalk

/-! ### The parsers -/

/-- The walk `SCIONHeader.parse` starts on `raw` reaches a stuck record. -/
def SCIONHeader.WalkStalls (W : Wire) (raw : Bytes) : Prop :=
  SCIONHeader.minLen ≤ raw.length ∧ ∃ ch,
    SCIONCommonHdr.parse (raw.slice 0 SCIONCommonHdr.len) = some ch ∧
      ExtWalk.Stalls W raw ⟨ch.hdrLen, ch.nextHdr, []⟩


namespace SCIONHeader

variable {W : Wire} {raw : Bytes}

/-- `parse` runs out of fuel only in the walk. -/
theorem parse_eq_outOfFuel {fuel : Nat} :
    parse W fuel raw = .outOfFuel ↔ minLen ≤ raw.length ∧ ∃ ch,
      SCIONCommonHdr.parse (raw.slice 0 SCIONCommonHdr.len) = some ch ∧
        ExtWalk.run W raw fuel ⟨ch.hdrLen, ch.nextHdr, []⟩ = .outOfFuel := by
  unfold parse
  split
  · simp only [reduceCtorEq, false_iff, not_and]; omega
  · split <;> simp_all

/-- More fuel does not change a parse that returned. -/
theorem parse_add {fuel : Nat} (h : parse W fuel raw ≠ .outOfFuel) (k : Nat) :
    parse W (fuel + k) raw = parse W fuel raw := by
  unfold parse at h ⊢
  split
  · rfl
  · split
    · rfl
    · rename_i hsplit _ ch hc
      rw [if_neg hsplit, hc, Ne, Parsed.map_eq_outOfFuel] at h
      rw [ExtWalk.run_add W raw h]

theorem parse_ne_outOfFuel (h : ¬ WalkStalls W raw) {fuel : Nat} (hf : raw.length < fuel) :
    parse W fuel raw ≠ .outOfFuel := fun ho => by
  obtain ⟨hl, ch, hc, hr⟩ := parse_eq_outOfFuel.mp ho
  exact ExtWalk.run_ne_outOfFuel W raw (fun hs => h ⟨hl, ch, hc, hs⟩) (by dsimp only; omega) hr

theorem forall_parse_eq_outOfFuel_iff :
    (∀ fuel, parse W fuel raw = .outOfFuel) ↔ WalkStalls W raw := by
  refine ⟨fun h => Classical.byContradiction fun hs =>
    parse_ne_outOfFuel hs (Nat.lt_succ_self _) (h _), ?_⟩
  rintro ⟨hl, ch, hc, hs⟩ fuel
  exact parse_eq_outOfFuel.mpr ⟨hl, ch, hc, ExtWalk.run_of_stalls W raw hs fuel⟩

/-- A parsed header has `N` extension records with `N = 0` or `hdr_len + N + 1 ≤ len(raw)`. -/
theorem parse_records {fuel : Nat} {h : SCIONHeader} (hp : parse W fuel raw = .parsed h) :
    h.extensionHdrs = [] ∨ h.commonHdr.hdrLen + h.extensionHdrs.length + 1 ≤ raw.length := by
  obtain ⟨-, ch, s, -, hr, rfl⟩ := (parse_eq_parsed W).mp hp
  obtain ⟨new, hnew, hb⟩ := ExtWalk.run_records W raw hr
  simp only [List.nil_append] at hnew
  simpa [ofParse, hnew] using hb

end SCIONHeader

/-- `SCIONPacket.parse` runs out of fuel exactly when the header parse does. -/
theorem SCIONPacket.parse_eq_outOfFuel {W : Wire} {fuel : Nat} {raw : Bytes} :
    parse W fuel raw = .outOfFuel ↔ SCIONHeader.parse W fuel raw = .outOfFuel := by
  unfold parse
  split
  · rename_i hl
    simp only [reduceCtorEq, false_iff, SCIONHeader.parse_eq_outOfFuel, not_and]
    simp only [minLen, SCIONHeader.minLen] at hl ⊢
    omega
  · split <;> simp_all

/-- **When parsing terminates.**  `SCIONHeader.parse`, and with it `SCIONPacket.parse`, runs
forever exactly on the buffers whose extension walk reaches a stuck record.  On every other
buffer `len(raw) + 1` iterations settle the result, and a header marked parsed has `N`
extension records with `N = 0` or `hdr_len + N + 1 ≤ len(raw)`. -/
theorem parse_terminates_iff (W : Wire) (raw : Bytes) :
    ((∀ fuel, SCIONHeader.parse W fuel raw = .outOfFuel) ↔ SCIONHeader.WalkStalls W raw) ∧
      ((∀ fuel, SCIONPacket.parse W fuel raw = .outOfFuel) ↔ SCIONHeader.WalkStalls W raw) ∧
      (¬ SCIONHeader.WalkStalls W raw → ∀ fuel, raw.length < fuel →
        SCIONPacket.parse W fuel raw = SCIONPacket.parse W (raw.length + 1) raw ∧
          SCIONPacket.parse W (raw.length + 1) raw ≠ .outOfFuel) ∧
      ∀ fuel h, SCIONHeader.parse W fuel raw = .parsed h →
        h.extensionHdrs = [] ∨ h.commonHdr.hdrLen + h.extensionHdrs.length + 1 ≤ raw.length := by
  refine ⟨SCIONHeader.forall_parse_eq_outOfFuel_iff, ?_, fun hs fuel hf => ?_,
    fun _ _ => SCIONHeader.parse_records⟩
  · simp only [SCIONPacket.parse_eq_outOfFuel, SCIONHeader.forall_parse_eq_outOfFuel_iff]
  · have hne := SCIONHeader.parse_ne_outOfFuel hs (Nat.lt_succ_self raw.length)
    obtain ⟨k, rfl⟩ : ∃ k, fuel = raw.length + 1 + k := ⟨fuel - (raw.length + 1), by omega⟩
    refine ⟨?_, fun ho => hne (SCIONPacket.parse_eq_outOfFuel.mp ho)⟩
    simp only [SCIONPacket.parse, SCIONHeader.parse_add hne k]

/-- A buffer whose walk reads one two-byte record, `(0, 2)` at offset `hdr_len = 8`, and stops. -/
theorem parse_terminates_iff_sample :
    let raw : Bytes := [0, 0, 0, 16, 0, 0, 1, 8, 0, 2, 0, 0, 0, 0, 0, 0]
    ((∀ fuel, SCIONHeader.parse Wire.sample fuel raw = .outOfFuel) ↔
        SCIONHeader.WalkStalls Wire.sample raw) ∧
      ((∀ fuel, SCIONPacket.parse Wire.sample fuel raw = .outOfFuel) ↔
        SCIONHeader.WalkStalls Wire.sample raw) ∧
      (¬ SCIONHeader.WalkStalls Wire.sample raw → ∀ fuel, raw.length < fuel →
        SCIONPacket.parse Wire.sample fuel raw = SCIONPacket.parse Wire.sample (raw.length + 1) raw ∧
          SCIONPacket.parse Wire.sample (raw.length + 1) raw ≠ .outOfFuel) ∧
      ∀ fuel h, SCIONHeader.parse Wire.sample fuel raw = .parsed h →
        h.extensionHdrs = [] ∨ h.commonHdr.hdrLen + h.extensionHdrs.length + 1 ≤ raw.length :=
  parse_terminates_iff Wire.sample [0, 0, 0, 16, 0, 0, 1, 8, 0, 2, 0, 0, 0, 0, 0, 0]

/-- A record of length `0` naming a next type: the common header gives `next_hdr = 1` and
`hdr_len = 8`, and the record at offset 8 is `(1, 0)`, so the walk reads it forever. -/
theorem parse_diverges_on_zero_length_record (W : Wire) (fuel : Nat) :
    SCIONHeader.parse W fuel [0, 0, 0, 18, 0, 0, 1, 8, 1, 0, 0, 0, 0, 0, 0, 0] = .outOfFuel ∧
      SCIONPacket.parse W fuel [0, 0, 0, 18, 0, 0, 1, 8, 1, 0, 0, 0, 0, 0, 0, 0] = .outOfFuel := by
  have hc : SCIONCommonHdr.parse
      (Bytes.slice [0, 0, 0, 18, 0, 0, 1, 8, 1, 0, 0, 0, 0, 0, 0, 0] 0 SCIONCommonHdr.len) =
      some ⟨0, 0, 0, 18, 0, 0, 1, 8⟩ := by decide
  have hs : ExtWalk.Stuck [0, 0, 0, 18, 0, 0, 1, 8, 1, 0, 0, 0, 0, 0, 0, 0] ⟨8, 1, []⟩ :=
    ⟨by decide, 1, by decide, by decide⟩
  have hh : SCIONHeader.parse W fuel [0, 0, 0, 18, 0, 0, 1, 8, 1, 0, 0, 0, 0, 0, 0, 0] =
      .outOfFuel := by
    rw [SCIONHeader.parse_eq W (by decide) hc, ExtWalk.run_of_stuck W _ hs]
    rfl
  exact ⟨hh, SCIONPacket.parse_eq_outOfFuel.mpr hh⟩

end ScionPacket