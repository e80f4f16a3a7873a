import ScionPacket.Scion.Header

/-!
# SCION — parsing a header

`SCIONHeader.parse`: the common header, the two addresses, the path dispatched on the
discriminant of its first opaque field, and the extension-header walk.

The walk is the source's `while cur_hdr_type != 0` loop.  One iteration (`ExtWalk.step`) reads
the two-byte prefix `(next_hdr_type, hdr_len)` at `offset`, appends a record built from
`raw[offset:offset + hdr_len]`, and moves `offset` by `hdr_len`; reading a prefix past the end
of `raw` raises.  Nothing bounds the loop, so `ExtWalk.run` takes fuel and reports
`outOfFuel` when it is spent; `Properties.Termination` shows exactly which buffers exhaust
every fuel.
-/

namespace ScionPacket

/-- `InfoOpaqueField.LEN`. -/
def InfoOpaqueField.len : Nat := 8

/-- What a `Parsed` result becomes under `f` when it is `parsed`. -/
def Parsed.map {α β : Type} (f : α → β) : Parsed α → Parsed β
  | .parsed a => .parsed (f a)
  | .unparsed => .unparsed
  | .raised => .raised
  | .outOfFuel => .outOfFuel

@[simp] theorem Parsed.map_eq_parsed {α β : Type} {f : α → β} {x : Parsed α} {b : β} :
    x.map f = .parsed b ↔ ∃ a, x = .parsed a ∧ f a = b := by
  cases x <;> simp [Parsed.map]

@[simp] theorem Parsed.map_eq_outOfFuel {α β : Type} {f : α → β} {x : Parsed α} :
    x.map f = .outOfFuel ↔ x = .outOfFuel := by
  cases x <;> simp [Parsed.map]

@[simp] theorem Parsed.map_eq_raised {α β : Type} {f : α → β} {x : Parsed α} :
    x.map f = .raised ↔ x = .raised := by
  cases x <;> simp [Parsed.map]

@[simp] theorem Parsed.map_eq_unparsed {α β : Type} {f : α → β} {x : Parsed α} :
    x.map f = .unparsed ↔ x = .unparsed := by
  cases x <;> simp [Parsed.map]

section
variable (W : Wire)

/-- The path `parse` builds for `raw[offset:hdr_len]`.  `InfoOpaqueField()`, built when no path
bytes remain, reads as `PathType.EMPTY` (modelled from the spec: then "the path is the Empty
variant"); an unknown discriminant leaves the path unset. -/
def parsePath (raw : Bytes) (offset hdrLen : Nat) : Option PathBase :=
  let info :=
    if offset = hdrLen then W.emptyType
    else W.info (raw.slice offset (offset + InfoOpaqueField.len))
  if info = W.coreType then some (.of .core (raw.slice offset hdrLen))
  else if info = W.crossOverType then some (.of .crossOver (raw.slice offset hdrLen))
  else if info = W.peerLinkType then some (.of .peer (raw.slice offset hdrLen))
  else if info = W.emptyType then some .empty
  else none

/-- The variables of the extension-header loop. -/
structure ExtWalk where
  offset : Nat
  curHdrType : Nat
  extensionHdrs : List ExtHdr
  deriving DecidableEq, Repr

/-- The record the loop builds for `cur_hdr_type`: `ICNExtHdr` for its type, `ExtensionHeader`
otherwise. -/
def extHdrOf (curHdrType : Nat) (raw : Bytes) : ExtHdr :=
  if curHdrType = W.icnType then .icn raw else .generic raw

@[simp] theorem extHdrOf_raw (curHdrType : Nat) (raw : Bytes) :
    (extHdrOf W curHdrType raw).raw = raw := by
  unfold extHdrOf
  split <;> rfl

/-- One iteration of the loop body; `none` is the `ReadError` of a prefix cut off by the end of
`raw`. -/
def ExtWalk.step (raw : Bytes) (s : ExtWalk) : Option ExtWalk :=
  match unpackUints .big [1, 1] (raw.slice s.offset (s.offset + 2)) with
  | some [nextHdrType, hdrLen] =>
      some { offset := s.offset + hdrLen, curHdrType := nextHdrType,
             extensionHdrs := s.extensionHdrs ++ [extHdrOf W s.curHdrType
               (raw.slice s.offset (s.offset + hdrLen))] }
  | _ => none

/-- With no path bytes, `InfoOpaqueField()` gives the Empty variant. -/
theorem parsePath_self (raw : Bytes) (offset : Nat) :
    parsePath W raw offset offset = some .empty := by
  have hn := W.pathTypes_nodup
  simp only [List.nodup_cons, List.mem_cons, List.mem_singleton, List.not_mem_nil, or_false,
    not_or] at hn
  simp [parsePath, Ne.symm hn.1.2.2, Ne.symm hn.2.1.2, Ne.symm hn.2.2.1]

/-- A path whose first opaque field carries the type of variant `k` is read as that variant. -/
theorem parsePath_of_info {raw : Bytes} {offset hdrLen : Nat} {k : PathKind}
    (hne : offset ≠ hdrLen)
    (hi : W.info (raw.slice offset (offset + InfoOpaqueField.len)) = W.typeOf k) :
    parsePath W raw offset hdrLen = some (.of k (raw.slice offset hdrLen)) := by
  have hn := W.pathTypes_nodup
  simp only [List.nodup_cons, List.mem_cons, List.mem_singleton, List.not_mem_nil, or_false,
    not_or] at hn
  cases k <;> simp [parsePath, hne, hi, Wire.typeOf, Ne.symm hn.1.1, Ne.symm hn.1.2.1,
    Ne.symm hn.2.1.1]

/-- `while cur_hdr_type != 0: …`, for at most `fuel` iterations. -/
def ExtWalk.run (raw : Bytes) : Nat → ExtWalk → Parsed ExtWalk
  | 0, s => if s.curHdrType = 0 then .parsed s else .outOfFuel
  | fuel + 1, s =>
      if s.curHdrType = 0 then .parsed s
      else match s.step W raw with
        | none => .raised
        | some s' => ExtWalk.run raw fuel s'

theorem ExtWalk.step_of_read (raw : Bytes) {s : ExtWalk} {next len : Nat}
    (h : unpackUints .big [1, 1] (raw.slice s.offset (s.offset + 2)) = some [next, len]) :
    s.step W raw = some ⟨s.offset + len, next, s.extensionHdrs ++
      [extHdrOf W s.curHdrType (raw.slice s.offset (s.offset + len))]⟩ := by
  simp [ExtWalk.step, h]

/-- An iteration that does not raise has read a prefix `(next, len)` from two bytes at
`offset`, and moved `offset` by `len`. -/
theorem ExtWalk.step_eq_some (raw : Bytes) {s s' : ExtWalk} (h : s.step W raw = some s') :
    ∃ next len, unpackUints .big [1, 1] (raw.slice s.offset (s.offset + 2)) = some [next, len] ∧
      s.offset + 2 ≤ raw.length ∧
      s' = ⟨s.offset + len, next, s.extensionHdrs ++
        [extHdrOf W s.curHdrType (raw.slice s.offset (s.offset + len))]⟩ := by
  unfold ExtWalk.step at h
  split at h
  · rename_i next len hr
    have hl := unpackUints_sum_le hr
    simp only [List.sum_cons, List.sum_nil, Bytes.length_slice] at hl
    exact ⟨next, len, hr, by omega, (Option.some.inj h).symm⟩
  · cases h

/-- The loop is not entered when `cur_hdr_type` is `0`. -/
theorem ExtWalk.run_of_done (raw : Bytes) (fuel : Nat) {s : ExtWalk} (h : s.curHdrType = 0) :
    ExtWalk.run W raw fuel s = .parsed s := by
  cases fuel <;> simp [ExtWalk.run, h]

/-- The header `parse` fills in from the common header `ch` and the records the walk built:
each address is sliced at the lengths `ch` gives. -/
def SCIONHeader.ofParse (raw : Bytes) (ch : SCIONCommonHdr) (exts : List ExtHdr) : SCIONHeader :=
  let srcStart := SCIONCommonHdr.len
  let dstStart := srcStart + ch.srcAddrLen
  let pathStart := dstStart + ch.dstAddrLen
  { commonHdr := ch,
    srcAddr := ⟨raw.slice srcStart dstStart⟩,
    dstAddr := ⟨raw.slice dstStart pathStart⟩,
    path := parsePath W raw pathStart ch.hdrLen,
    extensionHdrs := exts }

/-- `SCIONHeader(raw)`, with `fuel` iterations allowed to the extension walk. -/
def SCIONHeader.parse (fuel : Nat) (raw : Bytes) : Parsed SCIONHeader :=
  if raw.length < SCIONHeader.minLen then .unparsed
  else match SCIONCommonHdr.parse (raw.slice 0 SCIONCommonHdr.len) with
    | none => .raised
    | some ch =>
        (ExtWalk.run W raw fuel ⟨ch.hdrLen, ch.nextHdr, []⟩).map fun s =>
          SCIONHeader.ofParse W raw ch s.extensionHdrs

/-- A buffer of `MIN_LEN` bytes or more is parsed by the extension walk from `hdr_len`. -/
theorem SCIONHeader.parse_eq {fuel : Nat} {raw : Bytes} {ch : SCIONCommonHdr}
    (hl : SCIONHeader.minLen ≤ raw.length)
    (hc : SCIONCommonHdr.parse (raw.slice 0 SCIONCommonHdr.len) = some ch) :
    SCIONHeader.parse W fuel raw = (ExtWalk.run W raw fuel ⟨ch.hdrLen, ch.nextHdr, []⟩).map
      fun s => SCIONHeader.ofParse W raw ch s.extensionHdrs := by
  rw [SCIONHeader.parse, if_neg (by omega), hc]

/-- A header marked parsed comes from a buffer of `MIN_LEN` bytes or more, its common header, and
a walk that ended. -/
theorem SCIONHeader.parse_eq_parsed {fuel : Nat} {raw : Bytes} {h : SCIONHeader} :
    SCIONHeader.parse W fuel raw = .parsed h ↔ SCIONHeader.minLen ≤ raw.length ∧
      ∃ ch s, SCIONCommonHdr.parse (raw.slice 0 SCIONCommonHdr.len) = some ch ∧
        ExtWalk.run W raw fuel ⟨ch.hdrLen, ch.nextHdr, []⟩ = .parsed s ∧
        SCIONHeader.ofParse W raw ch s.extensionHdrs = h := by
  unfold SCIONHeader.parse
  split
  · simp only [reduceCtorEq, false_iff, not_and]; omega
  · split <;> simp_all
end

end ScionPacket
