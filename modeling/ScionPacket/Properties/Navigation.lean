import ScionPacket.Scion.Parse

/-!
# Properties — navigating the path

A forwarding hop moves through the path with `increase_of` and turns the packet round with
`reverse`.  `NavStep` names those two moves with a non-negative advance; `NavStep.follow`
records the path and the opaque-field count they lead to.

* `navigation_agrees_with_path`: from `from_values` with a path of `k ≥ 1` opaque fields, after
  any moves the accessors read the path `follow` names at the slot it counts, and
  `is_last_path_of` holds exactly at slot `k - 1`.
* `PtrsAligned`: both pointers sit a whole, non-negative number of opaque fields past the path
  start.  `from_values` and every `reverse` establish it, and every move keeps it
  (`ptrsAligned_of_navigation`).  `parse` checks neither pointer, so a parsed header has it
  exactly when its pointer bytes are aligned (`parse_misaligned_pointer`).
* `Consistent`: the two address-length fields and `hdr_len` agree with the bytes.  `reverse`
  swaps the addresses and not the fields, and without a path it raises after the swap
  (`reverse_breaks_consistent`).
-/

namespace ScionPacket

/-- A move of a forwarding hop: `increase_of(n)` with `n ≥ 0`, or `reverse()`. -/
inductive NavStep
  | advance (n : Nat)
  | reverse
  deriving DecidableEq, Repr

namespace NavStep

/-- The header method a move calls. -/
def toOp : NavStep → HdrOp
  | advance n => .increaseOf n
  | reverse => .reverse

/-- The path and the opaque fields advanced since the last `reverse()`, after the moves. -/
def follow (W : Wire) : List NavStep → PathBase × Nat → PathBase × Nat
  | [], s => s
  | advance n :: ss, (q, m) => follow W ss (q, m + n)
  | reverse :: ss, (q, _) => follow W ss (q.reverse W, 0)

end NavStep

namespace SCIONHeader

/-- `src_addr_len + dst_addr_len`, where the path starts. -/
def pathStart (h : SCIONHeader) : Int := h.commonHdr.srcAddrLen + h.commonHdr.dstAddrLen

theorem ofIndex_eq (h : SCIONHeader) (p : Int) :
    h.ofIndex p = (p - h.pathStart) / OpaqueField.len := rfl

@[simp] theorem pathStart_increaseOf (h : SCIONHeader) (n : Int) :
    (h.increaseOf n).pathStart = h.pathStart := rfl

@[simp] theorem ofIndex_increaseOf (h : SCIONHeader) (n p : Int) :
    (h.increaseOf n).ofIndex p = h.ofIndex p := rfl

/-! ### Moving along a path -/

/-- The header reads path `q` at slot `m`, with its info field at slot `0`, and `hdr_len` ends
`k` opaque fields after the path start. -/
def Nav (h : SCIONHeader) (q : PathBase) (m k : Nat) : Prop :=
  h.path = some q ∧ q.pack.length = OpaqueField.len * k ∧
    h.commonHdr.currIofP = h.pathStart ∧
    h.commonHdr.currOfP = h.pathStart + OpaqueField.len * m ∧
    h.commonHdr.hdrLen = SCIONCommonHdr.len + h.pathStart + OpaqueField.len * k

theorem nav_fromValues (src dst : SCIONAddr) (t : Nat) {p : PathBase} (exts : List ExtHdr)
    (nh : Nat) {k : Nat} (hp : p.pack.length = OpaqueField.len * k) :
    (fromValues src dst t (some p) exts nh).Nav p 0 k := by
  refine ⟨rfl, hp, ?_, ?_, ?_⟩ <;>
    simp only [pathStart, fromValues_commonHdr, Option.map_some', Option.getD_some, hp] <;>
    omega

theorem nav_increaseOf {h : SCIONHeader} {q : PathBase} {m k : Nat} (hn : h.Nav q m k)
    (n : Nat) : (h.increaseOf n).Nav q (m + n) k := by
  obtain ⟨hq, hl, hi, ho, hh⟩ := hn
  refine ⟨hq, hl, hi, ?_, hh⟩
  simp only [increaseOf_commonHdr, pathStart_increaseOf, ho, OpaqueField.len]
  push_cast
  omega

theorem nav_reverse (W : Wire) {h : SCIONHeader} {q : PathBase} {m k : Nat} (hn : h.Nav q m k) :
    ∃ h', h.reverse W = .ok h' ∧ h'.Nav (q.reverse W) 0 k := by
  obtain ⟨hq, hl, -, -, hh⟩ := hn
  refine ⟨_, reverse_of_path W h hq, rfl, by simpa using hl, rfl, by simp [pathStart], hh⟩

/-- Following the moves from a header on a path gives a header on the path `follow` names. -/
theorem nav_follow (W : Wire) {k : Nat} :
    ∀ (steps : List NavStep) {h : SCIONHeader} {q : PathBase} {m : Nat}, h.Nav q m k →
      ∃ h', HdrOp.runAll W (steps.map NavStep.toOp) h = .ok h' ∧
        h'.Nav (NavStep.follow W steps (q, m)).1 (NavStep.follow W steps (q, m)).2 k
  | [], _, _, _, hn => ⟨_, rfl, hn⟩
  | .advance n :: steps, h, _, _, hn => by
      obtain ⟨h', hr, hn'⟩ := nav_follow W steps (nav_increaseOf hn n)
      exact ⟨h', hr, hn'⟩
  | .reverse :: steps, h, _, _, hn => by
      obtain ⟨h₁, hr₁, hn₁⟩ := nav_reverse W hn
      obtain ⟨h', hr, hn'⟩ := nav_follow W steps hn₁
      exact ⟨h', by simpa [HdrOp.runAll, Ran.runAll, NavStep.toOp, HdrOp.run, hr₁] using hr, hn'⟩

/-- On a header at slot `m` of `q`, each accessor reads the slot it names. -/
theorem accessors_of_nav {h : SCIONHeader} {q : PathBase} {m k : Nat} (hn : h.Nav q m k) :
    h.getCurrentOf = q.getOf m ∧ h.getNextOf = q.getOf (m + 1) ∧
      (∀ n : Int, h.getRelativeOf n = q.getOf (m + n)) ∧ h.getCurrentIof = q.getOf 0 ∧
      (h.isLastPathOf = true ↔ m + 1 = k) := by
  obtain ⟨hq, -, hi, ho, hh⟩ := hn
  have hm : h.ofIndex h.commonHdr.currOfP = m := by
    rw [ofIndex_eq, ho, OpaqueField.len]; omega
  have h0 : h.ofIndex h.commonHdr.currIofP = 0 := by
    rw [ofIndex_eq, hi, OpaqueField.len]; omega
  refine ⟨by simp [getCurrentOf, hq, hm], by simp [getNextOf, hq, hm],
    fun n => by simp [getRelativeOf, hq, hm], by simp [getCurrentIof, hq, h0], ?_⟩
  simp only [isLastPathOf, decide_eq_true_eq, ho, hh, OpaqueField.len, SCIONCommonHdr.len]
  omega

/-! ### Aligned pointers -/

/-- Both pointers sit a whole, non-negative number of opaque fields past the path start, so the
accessors pass `get_of` a non-negative index naming exactly that slot. -/
def PtrsAligned (h : SCIONHeader) : Prop :=
  0 ≤ h.ofIndex h.commonHdr.currOfP ∧
    OpaqueField.len * h.ofIndex h.commonHdr.currOfP = h.commonHdr.currOfP - h.pathStart ∧
  0 ≤ h.ofIndex h.commonHdr.currIofP ∧
    OpaqueField.len * h.ofIndex h.commonHdr.currIofP = h.commonHdr.currIofP - h.pathStart

theorem ptrsAligned_iff (h : SCIONHeader) : h.PtrsAligned ↔
    (∃ i : Nat, h.commonHdr.currOfP = h.pathStart + OpaqueField.len * i) ∧
      ∃ j : Nat, h.commonHdr.currIofP = h.pathStart + OpaqueField.len * j := by
  simp only [PtrsAligned, ofIndex_eq, OpaqueField.len]
  constructor
  · rintro ⟨h₁, h₂, h₃, h₄⟩
    exact ⟨⟨((h.commonHdr.currOfP - h.pathStart) / 8).toNat, by omega⟩,
      ⟨((h.commonHdr.currIofP - h.pathStart) / 8).toNat, by omega⟩⟩
  · rintro ⟨⟨i, hi⟩, ⟨j, hj⟩⟩
    omega

theorem ptrsAligned_fromValues (src dst : SCIONAddr) (t : Nat) (path : Option PathBase)
    (exts : List ExtHdr) (nh : Nat) : (fromValues src dst t path exts nh).PtrsAligned :=
  (ptrsAligned_iff _).mpr ⟨⟨0, by simp [pathStart, fromValues_commonHdr]⟩,
    ⟨0, by simp [pathStart, fromValues_commonHdr]⟩⟩

theorem ptrsAligned_reverse (W : Wire) {h h' : SCIONHeader} (hr : h.reverse W = .ok h') :
    h'.PtrsAligned := by
  cases hp : h.path with
  | none => rw [reverse_of_no_path W h hp] at hr; cases hr
  | some p =>
      rw [reverse_of_path W h hp] at hr
      cases hr
      exact (ptrsAligned_iff _).mpr ⟨⟨0, by simp [pathStart]⟩, ⟨0, by simp [pathStart]⟩⟩

theorem ptrsAligned_run (W : Wire) {h h' : SCIONHeader} (st : NavStep)
    (hr : st.toOp.run W h = .ok h') (ha : h.PtrsAligned) : h'.PtrsAligned := by
  cases st with
  | advance n =>
      cases hr
      obtain ⟨⟨i, hi⟩, hj⟩ := (ptrsAligned_iff h).mp ha
      refine (ptrsAligned_iff _).mpr ⟨⟨i + n, ?_⟩, hj⟩
      simp only [increaseOf_commonHdr, pathStart_increaseOf, hi, OpaqueField.len]
      push_cast
      omega
  | reverse => exact ptrsAligned_reverse W hr

/-! ### Consistent lengths -/

/-- The address-length fields give the addresses' lengths, and `hdr_len` covers the common
header, the two addresses and the path. -/
def Consistent (h : SCIONHeader) : Prop :=
  h.commonHdr.srcAddrLen = h.srcAddr.pack.length ∧
    h.commonHdr.dstAddrLen = h.dstAddr.pack.length ∧
    h.commonHdr.hdrLen =
      SCIONCommonHdr.len + h.commonHdr.srcAddrLen + h.commonHdr.dstAddrLen + h.pathLen

instance (h : SCIONHeader) : Decidable h.Consistent := by unfold Consistent; infer_instance

end SCIONHeader

/-- `parse` takes the pointer bytes as they come: here `curr_of_p` is `3` with both addresses
empty, three bytes into the first opaque field. -/
theorem parse_misaligned_pointer :
    ∃ h, SCIONHeader.parse Wire.sample 0 [0, 0, 0, 16, 0, 3, 0, 8, 0, 0, 0, 0, 0, 0, 0, 0] = .parsed h ∧
      ¬ h.PtrsAligned := by
  have hc : SCIONCommonHdr.parse
      (Bytes.slice [0, 0, 0, 16, 0, 3, 0, 8, 0, 0, 0, 0, 0, 0, 0, 0] 0 SCIONCommonHdr.len) =
      some ⟨0, 0, 0, 16, 0, 3, 0, 8⟩ := by decide
  refine ⟨_, by rw [SCIONHeader.parse_eq Wire.sample (by decide) hc,
    ExtWalk.run_of_done Wire.sample _ _ rfl]; rfl, ?_⟩
  rintro ⟨-, e, -⟩
  simp [SCIONHeader.ofIndex, SCIONHeader.pathStart, SCIONHeader.ofParse, OpaqueField.len] at e

/-- `reverse()` swaps the two addresses but not their length fields, and without a path it
raises only after the swap: a header built with a one-byte source, a two-byte destination and a
one-field path is `Consistent`, its reverse is not, and the reverse of the same header without
a path raises with the addresses already exchanged. -/
theorem reverse_breaks_consistent (W : Wire) :
    let h := SCIONHeader.fromValues ⟨[0]⟩ ⟨[0, 0]⟩ 0 (some (.of .core [0, 0, 0, 0, 0, 0, 0, 0])) [] 0
    let h₀ := SCIONHeader.fromValues ⟨[0]⟩ ⟨[0, 0]⟩ 0 none [] 0
    h.Consistent ∧ (∃ h', h.reverse W = .ok h' ∧ ¬ h'.Consistent) ∧
      ∃ h', h₀.reverse W = .raised h' ∧ h' ≠ h₀ := by
  refine ⟨by decide, ⟨_, SCIONHeader.reverse_of_path W _ rfl, fun hc => ?_⟩,
    ⟨_, SCIONHeader.reverse_of_no_path W _ rfl, by decide⟩⟩
  have e : (1 : Nat) = 2 := hc.1
  exact absurd e (by decide)

/-- **Pointers stay on the opaque-field grid.**  Start from a header whose pointers are on the
grid: every header `from_values` builds (`ptrsAligned_fromValues`), every header a `reverse()`
returns (`ptrsAligned_reverse`), and every parsed header whose pointer bytes happen to be
aligned.  Move it by `increase_of(n ≥ 0)` and `reverse()`: every header reached has both
pointers a whole, non-negative number of opaque fields past the path start, and the accessors
pass `get_of` exactly that slot. -/
theorem ptrsAligned_of_navigation (W : Wire) (h₀ : SCIONHeader) (h₀a : h₀.PtrsAligned)
    (steps : List NavStep) (h : SCIONHeader)
    (hr : HdrOp.runAll W (steps.map NavStep.toOp) h₀ = .ok h) : h.PtrsAligned := by
  refine Ran.runAll_invariant (A := fun op => ∃ st : NavStep, op = st.toOp) ?_ ?_ h₀a hr
  · rintro op h₁ h₂ ⟨st, rfl⟩ ha hs
    exact SCIONHeader.ptrsAligned_run W st hs ha
  · simp

/-- A parsed header in the middle of its path: `curr_of_p` is `8`, the second opaque field of
a three-field path with both addresses empty, and `increase_of(1)` moves it on to the third. -/
theorem ptrsAligned_of_navigation_parsed :
    ∃ h₀, SCIONHeader.parse Wire.sample 0
        ([0, 0, 0, 32, 0, 8, 0, 32] ++ List.replicate 24 0) = .parsed h₀ ∧ h₀.PtrsAligned ∧
      ∃ h, HdrOp.runAll Wire.sample ([NavStep.advance 1].map NavStep.toOp) h₀ = .ok h ∧
        h.PtrsAligned := by
  have hc : SCIONCommonHdr.parse (Bytes.slice ([0, 0, 0, 32, 0, 8, 0, 32] ++ List.replicate 24 0)
      0 SCIONCommonHdr.len) = some ⟨0, 0, 0, 32, 0, 8, 0, 32⟩ := by decide
  have ha : (SCIONHeader.ofParse Wire.sample ([0, 0, 0, 32, 0, 8, 0, 32] ++ List.replicate 24 0)
      ⟨0, 0, 0, 32, 0, 8, 0, 32⟩ []).PtrsAligned :=
    (SCIONHeader.ptrsAligned_iff _).mpr ⟨⟨1, rfl⟩, ⟨0, rfl⟩⟩
  exact ⟨_, by rw [SCIONHeader.parse_eq Wire.sample (by decide) hc,
    ExtWalk.run_of_done Wire.sample _ _ rfl]; rfl, ha, _, rfl,
    ptrsAligned_of_navigation Wire.sample _ ha [NavStep.advance 1] _ rfl⟩

/-- **Pointer navigation agrees with the path.**  Build a header by `from_values` with a path
of `k ≥ 1` opaque fields and any address lengths, and move it by any `increase_of(n ≥ 0)` and
`reverse()`.  Every move returns; the accessors read the current path (`p` reversed once per
`reverse()`) at `m`, the opaque fields advanced since the last `reverse()`; the info field is
slot `0`; and `is_last_path_of()` holds exactly when `m = k - 1`. -/
theorem navigation_agrees_with_path (W : Wire) (src dst : SCIONAddr) (t : Nat) (p : PathBase)
    (exts : List ExtHdr) (nh k : Nat) (hk : 1 ≤ k) (hp : p.pack.length = OpaqueField.len * k)
    (steps : List NavStep) :
    ∃ h, HdrOp.runAll W (steps.map NavStep.toOp) (SCIONHeader.fromValues src dst t (some p) exts nh)
        = .ok h ∧
      let q := (NavStep.follow W steps (p, 0)).1
      let m := (NavStep.follow W steps (p, 0)).2
      h.getCurrentOf = q.getOf m ∧ h.getNextOf = q.getOf (m + 1) ∧
        (∀ n : Int, h.getRelativeOf n = q.getOf (m + n)) ∧ h.getCurrentIof = q.getOf 0 ∧
        (h.isLastPathOf = true ↔ m = k - 1) := by
  obtain ⟨h, hr, hn⟩ :=
    SCIONHeader.nav_follow W steps (SCIONHeader.nav_fromValues src dst t exts nh hp)
  obtain ⟨h₁, h₂, h₃, h₄, h₅⟩ := SCIONHeader.accessors_of_nav hn
  exact ⟨h, hr, h₁, h₂, h₃, h₄, h₅.trans (by omega)⟩

theorem navigation_agrees_with_path_one_field :
    1 ≤ 1 ∧ (PathBase.of .core [0x80, 0, 0, 0, 0, 0, 0, 0]).pack.length = OpaqueField.len * 1 ∧
    ∃ h, HdrOp.runAll Wire.sample ([NavStep.advance 0, NavStep.reverse].map NavStep.toOp)
        (SCIONHeader.fromValues ⟨[]⟩ ⟨[]⟩ 0 (some (.of .core [0x80, 0, 0, 0, 0, 0, 0, 0])) [] 0)
        = .ok h ∧
      let q := (NavStep.follow Wire.sample [NavStep.advance 0, NavStep.reverse]
        (.of .core [0x80, 0, 0, 0, 0, 0, 0, 0], 0)).1
      let m := (NavStep.follow Wire.sample [NavStep.advance 0, NavStep.reverse]
        (.of .core [0x80, 0, 0, 0, 0, 0, 0, 0], 0)).2
      h.getCurrentOf = q.getOf m ∧ h.getNextOf = q.getOf (m + 1) ∧
        (∀ n : Int, h.getRelativeOf n = q.getOf (m + n)) ∧ h.getCurrentIof = q.getOf 0 ∧
        (h.isLastPathOf = true ↔ m = 1 - 1) :=
  ⟨by decide, rfl, navigation_agrees_with_path Wire.sample ⟨[]⟩ ⟨[]⟩ 0
    (.of .core [0x80, 0, 0, 0, 0, 0, 0, 0]) [] 0 1 (by decide) rfl
    [NavStep.advance 0, NavStep.reverse]⟩

end ScionPacket
