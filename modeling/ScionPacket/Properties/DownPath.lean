import ScionPacket.Scion.Header

/-!
# Properties — `set_downpath` rewrites one opaque field

`set_downpath()` takes the object `get_current_iof()` returns and sets its `up_flag` to
`False`.  That object is an element of the path, so the assignment rewrites the path in place:
the bytes of one opaque field, at the slot `curr_iof_p` names, and nothing else.

`set_downpath_rewrites_current_iof` says so through the accessors: afterwards `get_of(i)`
returns, for every index `i`, the old field when `i` names another slot and the old current info
field with its flag cleared when `i` names the same slot; and `is_on_up_path()` reads the flag
of the cleared field.  A header without a current info field is left as it is, and
`is_on_up_path()` returns `None` for it, not `True`: the method's `else` branch evaluates `True`
and falls off its end.
-/

namespace ScionPacket

namespace PathBase
variable (W : Wire)

theorem slotOf_lt {p : PathBase} {i : Int} {k : Nat} (h : p.slotOf i = some k) : k < p.count := by
  simp only [slotOf] at h
  split_ifs at h <;> cases h <;> omega

@[simp] theorem count_clearUpFlagAt (p : PathBase) (i : Int) :
    (p.clearUpFlagAt W i).count = p.count := by
  simp [count]

@[simp] theorem slotOf_clearUpFlagAt (p : PathBase) (i j : Int) :
    (p.clearUpFlagAt W i).slotOf j = p.slotOf j := by
  simp [slotOf]

/-- Clearing the flag of the field index `i` selects rewrites that field and no other. -/
theorem getOf_clearUpFlagAt (p : PathBase) (i j : Int) :
    (p.clearUpFlagAt W i).getOf j =
      if p.slotOf j = p.slotOf i then (p.getOf i).map W.clearUpFlag else p.getOf j := by
  cases hi : p.slotOf i with
  | none =>
      have hc : p.clearUpFlagAt W i = p := by simp [clearUpFlagAt, hi]
      split_ifs with hj <;> simp [hc, getOf, hj, hi]
  | some k =>
      have hk := slotOf_lt hi
      cases hj : p.slotOf j with
      | none => simp [getOf, hj]
      | some m =>
          cases p with
          | empty => simp [count, pack] at hk
          | of kind raw =>
              simp only [count, pack, OpaqueField.len] at hk
              rw [getOf, slotOf_clearUpFlagAt, hj]
              simp only [clearUpFlagAt, hi, mapRaw, getOf, hj, Option.map_some', Option.some.injEq,
                pack, OpaqueField.len]
              rw [Bytes.slice_replace (by rw [W.clearUpFlag_length]; simp; omega) (by omega)]
              split_ifs <;> rfl

end PathBase

namespace SCIONHeader
variable (W : Wire) (h : SCIONHeader)

/-- `set_downpath` clears the flag at the slot `curr_iof_p` names; without a current info field
that slot does not exist and clearing it changes nothing. -/
theorem setDownpath_path :
    (h.setDownpath W).path = h.path.map (·.clearUpFlagAt W (h.ofIndex h.commonHdr.currIofP)) := by
  unfold setDownpath
  split
  · rename_i hn
    cases hp : h.path with
    | none => rfl
    | some p =>
        simp only [getCurrentIof, hp, Option.some_bind, PathBase.getOf, Option.map_eq_none'] at hn
        simp [PathBase.clearUpFlagAt, hn]
  · rfl

@[simp] theorem setDownpath_commonHdr : (h.setDownpath W).commonHdr = h.commonHdr := by
  unfold setDownpath
  split <;> rfl

end SCIONHeader

/-- **`set_downpath` rewrites the current info field and nothing else.**  For every header:
only the path changes, and it keeps its length; `get_of(i)` returns, for every index `i`, the
current info field with its flag cleared when `i` names the current info field's slot, and the
old field otherwise; and `is_on_up_path()` returns the flag of the cleared current info field,
`None` when there is none. -/
theorem set_downpath_rewrites_current_iof (W : Wire) (h : SCIONHeader) :
    (∃ path, h.setDownpath W = { h with path } ∧
      path.map (·.pack.length) = h.path.map (·.pack.length)) ∧
    (∀ i : Int, (h.setDownpath W).path.bind (·.getOf i) =
      if h.path.bind (·.slotOf i) = h.path.bind (·.slotOf (h.ofIndex h.commonHdr.currIofP))
      then h.getCurrentIof.map W.clearUpFlag else h.path.bind (·.getOf i)) ∧
    (h.setDownpath W).isOnUpPath W = h.getCurrentIof.map (W.upFlag ∘ W.clearUpFlag) := by
  refine ⟨h.setDownpath_eq W, fun i => ?_, ?_⟩
  · rw [SCIONHeader.setDownpath_path]
    cases hp : h.path <;> simp [hp, PathBase.getOf_clearUpFlagAt, SCIONHeader.getCurrentIof]
  · simp only [SCIONHeader.isOnUpPath, SCIONHeader.getCurrentIof,
      SCIONHeader.setDownpath_commonHdr, SCIONHeader.setDownpath_path, SCIONHeader.ofIndex]
    cases hp : h.path <;> simp [hp, PathBase.getOf_clearUpFlagAt]

end ScionPacket
