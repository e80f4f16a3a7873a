import ScionPacket.Properties.Termination

/-!
# Properties — the buffers parsing raises on

`SCIONPacket.parse` leaves a buffer shorter than `SCIONPacket.MIN_LEN` not parsed.  Past that it
calls `SCIONHeader(raw)`, which returns without parsing on fewer than `SCIONHeader.MIN_LEN`
bytes; `len(self.hdr)` then reads `hdr_len` from a common header that was never set, and raises.
In a header long enough, the extension walk raises when the two-byte prefix of the record it is
about to read runs past the end of `raw` (`ExtWalk.Truncated`).

* `ExtWalk.run_eq_raised_iff`: given enough iterations, the walk raises exactly when it reaches
  a truncated prefix (`ExtWalk.Truncates`).  A walk that does cannot also reach a stuck record
  (`ExtWalk.not_stalls_of_truncates`).
* `parse_outcomes`: what `SCIONPacket.parse` does with every buffer.  It is not parsed below
  `SCIONPacket.MIN_LEN` bytes; it raises from there up to `SCIONHeader.MIN_LEN`, and whenever the
  walk reaches a truncated prefix; it runs forever exactly when the walk reaches a stuck record;
  and it is marked parsed otherwise.
* `parse_raises_on_short_or_cut_buffer`: an eight-byte buffer, and a sixteen-byte buffer whose
  chain starts at its very end.
-/

namespace ScionPacket

namespace ExtWalk

variable (W : Wire) (raw : Bytes)

/-- The loop is running and the two-byte prefix at `offset` runs past the end of `raw`. -/
def Truncated (s : ExtWalk) : Prop := s.curHdrType ≠ 0 ∧ raw.length < s.offset + 2

/-- The walk from `s` reaches a truncated prefix. -/
def Truncates (s : ExtWalk) : Prop := ∃ t, Reaches W raw s t ∧ Truncated raw t

/-- An iteration raises exactly when the prefix at `offset` runs past the end of `raw`. -/
theorem step_eq_none_iff {s : ExtWalk} : s.step W raw = none ↔ raw.length < s.offset + 2 := by
  constructor
  · intro h
    by_contra hle
    obtain ⟨a, b, hab⟩ := List.length_eq_two.mp
      (show (raw.slice s.offset (s.offset + 2)).length = 2 by simp; omega)
    simp [step, hab, unpackUints] at h
  · intro h
    cases hs : s.step W raw with
    | none => rfl
    | some s' =>
        obtain ⟨-, -, -, hle, -⟩ := step_eq_some W raw hs
        omega

/-- The walk never leaves anything unparsed: it ends, raises, or runs out of fuel. -/
theorem run_ne_unparsed (s : ExtWalk) (fuel : Nat) : run W raw fuel s ≠ .unparsed := by
  induction fuel generalizing s with
  | zero =>
      simp only [run]
      split <;> simp
  | succ fuel ih =>
      rw [run]
      split
      · simp
      · split
        · simp
        · exact ih _

/-- A stuck record stays stuck: its iteration reads the same two bytes again. -/
theorem Stuck.step {s s' : ExtWalk} (h : Stuck raw s) (hs : s.step W raw = some s') :
    Stuck raw s' := by
  obtain ⟨-, t, ht, hr⟩ := h
  rw [step_of_read W raw hr, Option.some.injEq] at hs
  subst hs
  exact ⟨ht, t, ht, by simpa using hr⟩

/-- The loop is deterministic, and a stuck record never moves on: a walk that reaches a
truncated prefix does not reach a stuck record. -/
theorem not_stalls_of_truncates {s : ExtWalk} (h : Truncates W raw s) : ¬ Stalls W raw s := by
  obtain ⟨t, hst, htr⟩ := h
  rintro ⟨u, hsu, hu⟩
  induction hst generalizing u with
  | refl s =>
      cases hsu with
      | refl =>
          obtain ⟨-, _, -, hr⟩ := hu
          have := unpackUints_sum_le hr
          simp only [List.sum_cons, List.sum_nil, Bytes.length_slice] at this
          have := htr.2
          omega
      | step _ hs _ => rw [(step_eq_none_iff W raw).mpr htr.2] at hs; cases hs
  | step _ hs _ ih =>
      cases hsu with
      | refl => exact ih htr _ (.refl _) (hu.step W raw hs)
      | step _ hs' hsu => rw [hs] at hs'; cases hs'; exact ih htr u hsu hu

/-- A walk that raises has reached a truncated prefix. -/
theorem truncates_of_run_eq_raised {s : ExtWalk} {fuel : Nat} (h : run W raw fuel s = .raised) :
    Truncates W raw s := by
  induction fuel generalizing s with
  | zero =>
      simp only [run] at h
      split at h <;> cases h
  | succ fuel ih =>
      rw [run] at h
      split at h
      · cases h
      · rename_i hc
        cases hs : s.step W raw with
        | none => exact ⟨s, .refl s, hc, (step_eq_none_iff W raw).mp hs⟩
        | some s' =>
            rw [hs] at h
            obtain ⟨t, ht, htr⟩ := ih h
            exact ⟨t, .step hc hs ht, htr⟩

/-- A walk that reaches a truncated prefix raises once it has the iterations to get there. -/
theorem run_of_truncates {s : ExtWalk} (h : Truncates W raw s) :
    ∃ fuel, run W raw fuel s = .raised := by
  obtain ⟨t, hst, htr⟩ := h
  induction hst with
  | refl s => exact ⟨1, by simp [run, htr.1, (step_eq_none_iff W raw).mpr htr.2]⟩
  | step hc hs _ ih =>
      obtain ⟨fuel, hf⟩ := ih htr
      exact ⟨fuel + 1, by rw [run, if_neg hc, hs]; exact hf⟩

/-- **When the walk raises.**  Given `len(raw) − offset + 1` iterations, the walk raises exactly
when it reaches a record prefix that runs past the end of `raw`. -/
theorem run_eq_raised_iff {s : ExtWalk} {fuel : Nat} (hf : raw.length - s.offset < fuel) :
    run W raw fuel s = .raised ↔ Truncates W raw s := by
  refine ⟨truncates_of_run_eq_raised W raw, fun h => ?_⟩
  obtain ⟨f₀, h₀⟩ := run_of_truncates W raw h
  have hne := run_ne_outOfFuel W raw (not_stalls_of_truncates W raw h) hf
  rcases le_total f₀ fuel with hle | hle
  · obtain ⟨k, rfl⟩ := Nat.exists_eq_add_of_le hle
    rw [run_add W raw (by simp [h₀]) k, h₀]
  · obtain ⟨k, rfl⟩ := Nat.exists_eq_add_of_le hle
    rw [← run_add W raw hne k, h₀]

end ExtWalk

/-- A result is `parsed` exactly when it is none of the other three. -/
theorem Parsed.exists_parsed_iff {α : Type} {x : Parsed α} :
    (∃ a, x = .parsed a) ↔ x ≠ .unparsed ∧ x ≠ .raised ∧ x ≠ .outOfFuel := by
  cases x <;> simp

/-! ### The parsers -/

/-- The walk `SCIONHeader.parse` starts on `raw` reaches a truncated prefix. -/
def SCIONHeader.WalkTruncates (W : Wire) (raw : Bytes) : Prop :=
  SCIONHeader.minLen ≤ raw.length ∧ ∃ ch,
    SCIONCommonHdr.parse (raw.slice 0 SCIONCommonHdr.len) = some ch ∧
      ExtWalk.Truncates W raw ⟨ch.hdrLen, ch.nextHdr, []⟩

namespace SCIONHeader

variable (W : Wire) (fuel : Nat) (raw : Bytes)

/-- `SCIONHeader(raw)` leaves the header unparsed exactly on a buffer shorter than `MIN_LEN`. -/
theorem parse_eq_unparsed : parse W fuel raw = .unparsed ↔ raw.length < minLen := by
  unfold parse
  split
  · simp only [*]
  · rename_i hl
    simp only [hl, iff_false]
    split
    · simp
    · simpa only [Parsed.map_eq_unparsed] using ExtWalk.run_ne_unparsed W raw _ fuel

/-- Given `len(raw) + 1` iterations, `SCIONHeader(raw)` raises exactly when its walk reaches a
truncated prefix: on `MIN_LEN` bytes or more the common header is always read. -/
theorem parse_eq_raised_iff (hf : raw.length < fuel) :
    parse W fuel raw = .raised ↔ WalkTruncates W raw := by
  by_cases hl : minLen ≤ raw.length
  · obtain ⟨ch, hc⟩ : ∃ ch, SCIONCommonHdr.parse (raw.slice 0 SCIONCommonHdr.len) = some ch :=
      ⟨_, SCIONCommonHdr.parse_of_length (by simp [SCIONCommonHdr.len, minLen] at hl ⊢; omega)⟩
    rw [parse_eq W hl hc, Parsed.map_eq_raised,
      ExtWalk.run_eq_raised_iff W raw (s := ⟨ch.hdrLen, ch.nextHdr, []⟩) (by dsimp only; omega)]
    refine ⟨fun h => ⟨hl, ch, hc, h⟩, fun ⟨_, ch', hc', h⟩ => ?_⟩
    rw [hc, Option.some.injEq] at hc'
    exact hc' ▸ h
  · rw [parse, if_pos (by omega)]
    simp only [reduceCtorEq, false_iff]
    exact fun h => hl h.1

/-- Given `len(raw) + 1` iterations, `SCIONHeader(raw)` runs out of fuel exactly when its walk
reaches a stuck record. -/
theorem parse_eq_outOfFuel_iff (hf : raw.length < fuel) :
    parse W fuel raw = .outOfFuel ↔ WalkStalls W raw :=
  ⟨fun h => by_contra fun hs => parse_ne_outOfFuel hs hf h,
    fun hs => forall_parse_eq_outOfFuel_iff.mpr hs fuel⟩

end SCIONHeader

namespace SCIONPacket

variable (W : Wire) (fuel : Nat) (raw : Bytes)

/-- `SCIONPacket(raw)` leaves the packet unparsed exactly below `SCIONPacket.MIN_LEN`. -/
theorem parse_eq_unparsed : parse W fuel raw = .unparsed ↔ raw.length < minLen := by
  unfold parse
  split
  · simp only [*]
  · rename_i hl
    simp only [hl, iff_false]
    split <;> simp

/-- On `SCIONPacket.MIN_LEN` bytes or more, `SCIONPacket(raw)` raises exactly when the header
parser leaves the header unparsed (`len(self.hdr)` then fails) or raises. -/
theorem parse_eq_raised : parse W fuel raw = .raised ↔ minLen ≤ raw.length ∧
    (SCIONHeader.parse W fuel raw = .unparsed ∨ SCIONHeader.parse W fuel raw = .raised) := by
  unfold parse
  split
  · rename_i hl
    simp only [reduceCtorEq, false_iff, not_and]
    omega
  · rename_i hl
    simp only [not_lt.mp hl, true_and]
    split <;> simp_all

end SCIONPacket

/-- **What parsing does with a buffer.**  Given `len(raw) + 1` iterations for the extension
walk, `SCIONPacket(raw)` leaves a buffer shorter than `SCIONPacket.MIN_LEN` not parsed; raises on
a buffer from `SCIONPacket.MIN_LEN` up to `SCIONHeader.MIN_LEN` bytes, and on one whose walk
reaches a record prefix cut off by the end of the buffer; runs forever exactly when the walk
reaches a stuck record; and marks every other buffer parsed. -/
theorem parse_outcomes (W : Wire) (raw : Bytes) (fuel : Nat) (hfuel : raw.length < fuel) :
    (SCIONPacket.parse W fuel raw = .unparsed ↔ raw.length < SCIONPacket.minLen) ∧
      (SCIONPacket.parse W fuel raw = .raised ↔
        SCIONPacket.minLen ≤ raw.length ∧ raw.length < SCIONHeader.minLen ∨
          SCIONHeader.WalkTruncates W raw) ∧
      (SCIONPacket.parse W fuel raw = .outOfFuel ↔ SCIONHeader.WalkStalls W raw) ∧
      ((∃ p, SCIONPacket.parse W fuel raw = .parsed p) ↔ SCIONHeader.minLen ≤ raw.length ∧
        ¬ SCIONHeader.WalkTruncates W raw ∧ ¬ SCIONHeader.WalkStalls W raw) := by
  have hmin : SCIONPacket.minLen ≤ SCIONHeader.minLen := by decide
  have hr : SCIONPacket.parse W fuel raw = .raised ↔
      SCIONPacket.minLen ≤ raw.length ∧ raw.length < SCIONHeader.minLen ∨
        SCIONHeader.WalkTruncates W raw := by
    rw [SCIONPacket.parse_eq_raised, SCIONHeader.parse_eq_unparsed,
      SCIONHeader.parse_eq_raised_iff W fuel raw hfuel, and_or_left,
      and_iff_right_of_imp fun h : SCIONHeader.WalkTruncates W raw => hmin.trans h.1]
  have ho : SCIONPacket.parse W fuel raw = .outOfFuel ↔ SCIONHeader.WalkStalls W raw :=
    SCIONPacket.parse_eq_outOfFuel.trans (SCIONHeader.parse_eq_outOfFuel_iff W fuel raw hfuel)
  have hlen : ¬ raw.length < SCIONPacket.minLen ∧
      ¬ (SCIONPacket.minLen ≤ raw.length ∧ raw.length < SCIONHeader.minLen) ↔
        SCIONHeader.minLen ≤ raw.length := by
    simp only [SCIONPacket.minLen, SCIONHeader.minLen]
    omega
  refine ⟨SCIONPacket.parse_eq_unparsed W fuel raw, hr, ho, ?_⟩
  rw [Parsed.exists_parsed_iff, Ne, Ne, Ne, SCIONPacket.parse_eq_unparsed, hr, ho, not_or,
    and_assoc]
  exact and_assoc.symm.trans (and_congr_left' hlen)

theorem parse_outcomes_eight_bytes :
    let raw : Bytes := List.replicate 8 0
    raw.length < 9 ∧
      (SCIONPacket.parse Wire.sample 9 raw = .unparsed ↔ raw.length < SCIONPacket.minLen) ∧
      (SCIONPacket.parse Wire.sample 9 raw = .raised ↔
        SCIONPacket.minLen ≤ raw.length ∧ raw.length < SCIONHeader.minLen ∨
          SCIONHeader.WalkTruncates Wire.sample raw) ∧
      (SCIONPacket.parse Wire.sample 9 raw = .outOfFuel ↔
        SCIONHeader.WalkStalls Wire.sample raw) ∧
      ((∃ p, SCIONPacket.parse Wire.sample 9 raw = .parsed p) ↔
        SCIONHeader.minLen ≤ raw.length ∧ ¬ SCIONHeader.WalkTruncates Wire.sample raw ∧
          ¬ SCIONHeader.WalkStalls Wire.sample raw) :=
  ⟨by decide, parse_outcomes Wire.sample (List.replicate 8 0) 9 (by decide)⟩

/-- Two buffers `SCIONPacket(raw)` raises on.  Eight zero bytes: `SCIONHeader(raw)` returns
without parsing, and `len(self.hdr)` reads a common header that was never set.  Sixteen bytes
whose common header names an extension (`next_hdr = 1`) at `hdr_len = 16`, the end of the
buffer: the walk's first prefix read finds no bytes. -/
theorem parse_raises_on_short_or_cut_buffer (W : Wire) (fuel : Nat) :
    SCIONPacket.parse W fuel (List.replicate 8 0) = .raised ∧
      SCIONPacket.parse W (fuel + 1) ([0, 0, 0, 16, 0, 0, 1, 16] ++ List.replicate 8 0) =
        .raised := by
  have hc : SCIONCommonHdr.parse (Bytes.slice ([0, 0, 0, 16, 0, 0, 1, 16] ++ List.replicate 8 0)
      0 SCIONCommonHdr.len) = some ⟨0, 0, 0, 16, 0, 0, 1, 16⟩ := by decide
  have hh : SCIONHeader.parse W (fuel + 1) ([0, 0, 0, 16, 0, 0, 1, 16] ++ List.replicate 8 0) =
      .raised := by
    rw [SCIONHeader.parse_eq W (by decide) hc]
    rfl
  refine ⟨rfl, ?_⟩
  rw [SCIONPacket.parse, if_neg (by decide), hh]

end ScionPacket
