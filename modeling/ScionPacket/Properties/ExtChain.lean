import ScionPacket.Scion.Parse

/-!
# Properties — the extension chain

From `hdr_len` on, `SCIONHeader.parse` reads one extension record per iteration: the record's
first byte names the next record's type and its second byte its own length, and the loop stops
at type `0`.

* `Chain`: a well-formed chain, each record the variant the walk builds for its type.
  `ExtWalk.run_chain` reads it back record for record, and `SCIONHeader.parse_of_chain` lifts
  that to the header parser.
* `RecordChain`: the same chain as a sender lays it out, byte strings with their types;
  `RecordChain.chain` turns it into a `Chain`.
* `parse_decodes_chain`: on a buffer of `MIN_LEN` bytes or more the header gets exactly the
  chain's records, in order, each built from its own bytes, and `len(hdr)` ends where the chain
  ends.  A shorter buffer is never walked (`parse_skips_chain_of_short_buffer`).
-/

namespace ScionPacket

/-! ### Well-formed chains -/

/-- A well-formed extension chain whose first record has type `t`: each record is the variant
the walk builds for its type, is at least two bytes long, and starts with the next record's
type and its own length; after the last comes type `0`. -/
inductive Chain (W : Wire) : Nat → List ExtHdr → Prop
  | nil : Chain W 0 []
  | cons {t next : Nat} {e : ExtHdr} {es : List ExtHdr} : t ≠ 0 → extHdrOf W t e.raw = e →
      2 ≤ e.len → unpackUints .big [1, 1] e.raw = some [next, e.len] → Chain W next es →
      Chain W t (e :: es)

/-- The walk reads a well-formed chain back, record for record, in as many iterations as it
has records. -/
theorem ExtWalk.run_chain {W : Wire} {t : Nat} {es : List ExtHdr} (hc : Chain W t es) :
    ∀ (pre rest : Bytes) (exts : List ExtHdr) {fuel : Nat}, es.length ≤ fuel →
      ExtWalk.run W (pre ++ (es.map ExtHdr.pack).flatten ++ rest) fuel ⟨pre.length, t, exts⟩ =
        .parsed ⟨pre.length + (es.map ExtHdr.len).sum, 0, exts ++ es⟩ := by
  induction hc with
  | nil => intro pre rest exts fuel _; simpa using ExtWalk.run_of_done W _ fuel rfl
  | @cons t next e es ht he hl hr _ ih =>
      intro pre rest exts fuel hf
      obtain ⟨fuel, rfl⟩ : ∃ f, fuel = f + 1 := ⟨fuel - 1, by simp at hf; omega⟩
      have hraw : pre ++ ((e :: es).map ExtHdr.pack).flatten ++ rest =
          pre ++ (e.raw ++ ((es.map ExtHdr.pack).flatten ++ rest)) := by simp [ExtHdr.pack]
      have hread : unpackUints .big [1, 1] ((pre ++ (e.raw ++ ((es.map ExtHdr.pack).flatten ++
          rest))).slice pre.length (pre.length + 2)) = some [next, e.len] := by
        rw [Bytes.slice_append_right, List.take_append_of_le_length hl,
          unpackUints_take e.raw (show ([1, 1] : List Nat).sum ≤ 2 by decide), hr]
      have hslice : (pre ++ (e.raw ++ ((es.map ExtHdr.pack).flatten ++ rest))).slice pre.length
          (pre.length + e.len) = e.raw := by
        rw [Bytes.slice_append_right, show e.len = e.raw.length from rfl, List.take_left]
      have := ih (pre ++ e.raw) rest (exts ++ [e]) (show es.length ≤ fuel by simp at hf; omega)
      rw [hraw, ExtWalk.run, if_neg ht, ExtWalk.step_of_read W _ hread, hslice, he]
      simpa [ExtHdr.len, Nat.add_assoc] using this

/-- Each record of a chain is at least two bytes long. -/
theorem Chain.two_mul_length_le {W : Wire} {t : Nat} {es : List ExtHdr} (hc : Chain W t es) :
    2 * es.length ≤ (es.map ExtHdr.len).sum := by
  induction hc with
  | nil => simp
  | cons _ _ hl _ _ ih => simp only [List.length_cons, List.map_cons, List.sum_cons]; omega

/-- `SCIONHeader(raw)` on a buffer whose bytes from `hdr_len` on are a well-formed chain and then
anything: the walk reads the chain's records and stops where the chain ends. -/
theorem SCIONHeader.parse_of_chain (W : Wire) {raw : Bytes} {ch : SCIONCommonHdr}
    {es : List ExtHdr} {rest : Bytes} (h16 : SCIONHeader.minLen ≤ raw.length)
    (hc : SCIONCommonHdr.parse (raw.slice 0 SCIONCommonHdr.len) = some ch)
    (hhl : ch.hdrLen ≤ raw.length) (hchain : Chain W ch.nextHdr es)
    (hrest : raw.drop ch.hdrLen = (es.map ExtHdr.pack).flatten ++ rest)
    {fuel : Nat} (hfuel : es.length ≤ fuel) :
    SCIONHeader.parse W fuel raw = .parsed (SCIONHeader.ofParse W raw ch es) := by
  have hrun := ExtWalk.run_chain hchain (raw.take ch.hdrLen) rest [] hfuel
  rw [List.append_assoc, ← hrest, List.take_append_drop, List.length_take,
    Nat.min_eq_left hhl] at hrun
  rw [SCIONHeader.parse_eq W h16 hc, hrun]
  rfl

/-! ### Chains as a sender lays them out -/

/-- Records `r₁ … r_N` of types `t₁ … t_N`, laid out as a chain that starts with type `t`: every
type is non-zero, and each record's first byte is the next record's type (`0` after the last)
and its second byte its own length, at least two. -/
inductive RecordChain : Nat → List (Nat × Bytes) → Prop
  | nil : RecordChain 0 []
  | cons {t next : Nat} {r : Bytes} {rs : List (Nat × Bytes)} : t ≠ 0 →
      (r.take 2).map UInt8.toNat = [next, r.length] → 2 ≤ r.length → RecordChain next rs →
      RecordChain t ((t, r) :: rs)

/-- A record whose first two bytes are `a` and `b` has the prefix `(a, b)` the walk reads. -/
theorem unpackUints_prefix {r : Bytes} {a b : Nat} (h : (r.take 2).map UInt8.toNat = [a, b]) :
    unpackUints .big [1, 1] r = some [a, b] := by
  match r, h with
  | x :: y :: l, h =>
      simp only [List.take_succ_cons, List.take_zero, List.map_cons, List.map_nil,
        List.cons.injEq, and_true] at h
      simp [unpackUints, uintVal, beVal, h]

/-- The walk's view of a laid-out chain: each record becomes the variant its type names. -/
theorem RecordChain.chain (W : Wire) {t : Nat} {recs : List (Nat × Bytes)}
    (h : RecordChain t recs) : Chain W t (recs.map fun r => extHdrOf W r.1 r.2) := by
  induction h with
  | nil => exact .nil
  | cons ht hp hl _ ih =>
      exact .cons ht (by simp) (by simpa [ExtHdr.len] using hl)
        (by simpa [ExtHdr.len] using unpackUints_prefix hp) ih

/-- **The walk decodes exactly the chain.**  Lay records `r₁ … r_N` of types `t₁ … t_N` out as a
chain at offset `hdr_len` of a buffer of `MIN_LEN` bytes or more whose common header names `t₁`
(`0` when `N = 0`) as `next_hdr`, with any bytes after the chain.  `SCIONHeader(raw)` marks the
header parsed with one record per `rᵢ`, in order, each built from exactly the bytes `rᵢ`: an
`ICNExtHdr` when `tᵢ` is `ICNExtHdr.TYPE`, an `ExtensionHeader` otherwise.  And `len(hdr)` is
`hdr_len + l₁ + … + l_N`. -/
theorem parse_decodes_chain (W : Wire) (head rest : Bytes) (t : Nat) (recs : List (Nat × Bytes))
    (hrecs : RecordChain t recs) (ch : SCIONCommonHdr)
    (hc : SCIONCommonHdr.parse ((head ++ (recs.map Prod.snd).flatten ++ rest).slice 0
      SCIONCommonHdr.len) = some ch)
    (hhl : head.length = ch.hdrLen) (hnh : ch.nextHdr = t)
    (h16 : SCIONHeader.minLen ≤ (head ++ (recs.map Prod.snd).flatten ++ rest).length)
    (fuel : Nat) (hfuel : recs.length ≤ fuel) :
    ∃ h, SCIONHeader.parse W fuel (head ++ (recs.map Prod.snd).flatten ++ rest) = .parsed h ∧
      h.extensionHdrs = recs.map (fun r => if r.1 = W.icnType then .icn r.2 else .generic r.2) ∧
      h.len = ch.hdrLen + (recs.map fun r => r.2.length).sum := by
  have hflat : ((recs.map fun r => extHdrOf W r.1 r.2).map ExtHdr.pack).flatten =
      (recs.map Prod.snd).flatten := by
    simp [Function.comp_def, ExtHdr.pack]
  have hrest : (head ++ (recs.map Prod.snd).flatten ++ rest).drop ch.hdrLen =
      ((recs.map fun r => extHdrOf W r.1 r.2).map ExtHdr.pack).flatten ++ rest := by
    rw [hflat, List.append_assoc, ← hhl, List.drop_left]
  refine ⟨_, SCIONHeader.parse_of_chain W h16 hc (by simp [← hhl])
    (by rw [hnh]; exact hrecs.chain W) hrest (by simpa using hfuel), rfl, ?_⟩
  simp [SCIONHeader.len, SCIONHeader.ofParse, Function.comp_def, ExtHdr.len]

/-- An ICN record (`ICNExtHdr.TYPE` is `220` here) that names a generic record of type `1`, and
one byte after the chain. -/
theorem parse_decodes_chain_two_records :
    let head : Bytes := [0, 0, 0, 22, 0, 0, 220, 16, 0, 0, 0, 0, 0, 0, 0, 0]
    let recs : List (Nat × Bytes) := [(220, [1, 3, 7]), (1, [0, 2])]
    let ch : SCIONCommonHdr := ⟨0, 0, 0, 22, 0, 0, 220, 16⟩
    RecordChain 220 recs ∧
      SCIONCommonHdr.parse ((head ++ (recs.map Prod.snd).flatten ++ [0xEE]).slice 0
        SCIONCommonHdr.len) = some ch ∧
      head.length = ch.hdrLen ∧ ch.nextHdr = 220 ∧
      SCIONHeader.minLen ≤ (head ++ (recs.map Prod.snd).flatten ++ [0xEE]).length ∧
      recs.length ≤ 2 ∧
      ∃ h, SCIONHeader.parse Wire.sample 2 (head ++ (recs.map Prod.snd).flatten ++ [0xEE]) =
          .parsed h ∧
        h.extensionHdrs = recs.map (fun r =>
          if r.1 = Wire.sample.icnType then .icn r.2 else .generic r.2) ∧
        h.len = ch.hdrLen + (recs.map fun r => r.2.length).sum :=
  have hrecs : RecordChain 220 [(220, [1, 3, 7]), (1, [0, 2])] :=
    .cons (by decide) (by decide) (by decide) (.cons (by decide) (by decide) (by decide) .nil)
  ⟨hrecs, by decide, rfl, rfl, by decide, by decide,
    parse_decodes_chain Wire.sample [0, 0, 0, 22, 0, 0, 220, 16, 0, 0, 0, 0, 0, 0, 0, 0] [0xEE] 220
      [(220, [1, 3, 7]), (1, [0, 2])] hrecs ⟨0, 0, 0, 22, 0, 0, 220, 16⟩ (by decide) rfl rfl
      (by decide) 2 (by decide)⟩

/-- A ten-byte buffer: a common header with `next_hdr = 1` and `hdr_len = 8`, then one two-byte
record ending the chain.  It is shorter than `SCIONHeader.MIN_LEN`, so `SCIONHeader(raw)`
returns before the walk and the header keeps no record. -/
theorem parse_skips_chain_of_short_buffer :
    RecordChain 1 [(1, [0, 2])] ∧
      SCIONCommonHdr.parse (Bytes.slice [0, 0, 0, 10, 0, 0, 1, 8, 0, 2] 0 SCIONCommonHdr.len) =
        some ⟨0, 0, 0, 10, 0, 0, 1, 8⟩ ∧
      SCIONHeader.parse Wire.sample 1 [0, 0, 0, 10, 0, 0, 1, 8, 0, 2] = .unparsed :=
  ⟨.cons (by decide) (by decide) (by decide) .nil, by decide, rfl⟩

end ScionPacket
