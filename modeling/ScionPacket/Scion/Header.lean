import ScionPacket.Scion.CommonHdr

/-!
# SCION — the packet header

`SCIONHeader` as `from_values` builds it: the common header, the two addresses, an optional
path and the extension records; its `pack`, its `__len__`, and the methods a forwarding hop
calls on it.  The pointer accessors read the path slot `(curr_*_p − (src_addr_len +
dst_addr_len)) // OpaqueField.LEN` (`ofIndex`).  `increase_of`, `set_downpath` and `reverse` are
the header's mutating methods; `reverse` swaps the two addresses before it calls the path's
`reverse()`, so on a header without a path it raises after the swap (`Ran.raised`).

`HdrOp` names the three methods, `HdrOp.run` calls one and `HdrOp.runAll` a sequence.
-/

namespace ScionPacket

/-- `SCIONHeader` once populated, by `from_values` or by a `parse` that marks it parsed. -/
structure SCIONHeader where
  commonHdr : SCIONCommonHdr
  srcAddr : SCIONAddr
  dstAddr : SCIONAddr
  path : Option PathBase
  extensionHdrs : List ExtHdr
  deriving DecidableEq, Repr

namespace SCIONHeader

/-- `SCIONHeader.MIN_LEN`. -/
def minLen : Nat := 16

/-- The common header of `from_values` with a path's bytes added to `hdr_len` and `total_len`. -/
def addPath (ch : SCIONCommonHdr) (pathLen : Nat) : SCIONCommonHdr :=
  { ch with hdrLen := ch.hdrLen + pathLen, totalLen := ch.totalLen + pathLen }

/-- `for ext_hdr in ext_hdrs: total_len += len(ext_hdr)`. -/
def addExts (ch : SCIONCommonHdr) (extHdrs : List ExtHdr) : SCIONCommonHdr :=
  extHdrs.foldl (fun ch e => { ch with totalLen := ch.totalLen + e.len }) ch

theorem addExts_eq (ch : SCIONCommonHdr) (extHdrs : List ExtHdr) :
    addExts ch extHdrs = { ch with totalLen := ch.totalLen + (extHdrs.map ExtHdr.len).sum } := by
  induction extHdrs generalizing ch with
  | nil => simp [addExts]
  | cons e es ih =>
      simp only [addExts, List.foldl_cons] at ih ⊢
      rw [ih]
      simp only [List.map_cons, List.sum_cons, Int.ofNat_add]
      congr 1
      omega

/-- `from_values(src, dst, pkt_type, path, ext_hdrs, next_hdr)`; `ext_hdrs=None` is `[]`. -/
def fromValues (src dst : SCIONAddr) (pktType : Nat) (path : Option PathBase)
    (extHdrs : List ExtHdr) (nextHdr : Nat) : SCIONHeader :=
  let ch := SCIONCommonHdr.fromValues pktType src.addrLen dst.addrLen nextHdr
  let ch := match path with
    | some p => addPath ch p.pack.length
    | none => ch
  { commonHdr := addExts ch extHdrs, srcAddr := src, dstAddr := dst, path, extensionHdrs := extHdrs }

/-- The common header `from_values` builds, field by field. -/
theorem fromValues_commonHdr (src dst : SCIONAddr) (pktType : Nat) (path : Option PathBase)
    (extHdrs : List ExtHdr) (nextHdr : Nat) :
    (fromValues src dst pktType path extHdrs nextHdr).commonHdr =
      { type := pktType, srcAddrLen := src.addrLen, dstAddrLen := dst.addrLen,
        totalLen := SCIONCommonHdr.len + src.addrLen + dst.addrLen +
          (path.map fun p => p.pack.length).getD 0 + (extHdrs.map ExtHdr.len).sum,
        currIofP := src.addrLen + dst.addrLen, currOfP := src.addrLen + dst.addrLen,
        nextHdr, hdrLen := SCIONCommonHdr.len + src.addrLen + dst.addrLen +
          (path.map fun p => p.pack.length).getD 0 } := by
  cases path <;> simp [fromValues, addExts_eq, addPath, SCIONCommonHdr.fromValues]

@[simp] theorem fromValues_srcAddr (src dst : SCIONAddr) (pktType : Nat) (path : Option PathBase)
    (extHdrs : List ExtHdr) (nextHdr : Nat) :
    (fromValues src dst pktType path extHdrs nextHdr).srcAddr = src := rfl

@[simp] theorem fromValues_dstAddr (src dst : SCIONAddr) (pktType : Nat) (path : Option PathBase)
    (extHdrs : List ExtHdr) (nextHdr : Nat) :
    (fromValues src dst pktType path extHdrs nextHdr).dstAddr = dst := rfl

@[simp] theorem fromValues_path (src dst : SCIONAddr) (pktType : Nat) (path : Option PathBase)
    (extHdrs : List ExtHdr) (nextHdr : Nat) :
    (fromValues src dst pktType path extHdrs nextHdr).path = path := rfl

@[simp] theorem fromValues_extensionHdrs (src dst : SCIONAddr) (pktType : Nat)
    (path : Option PathBase) (extHdrs : List ExtHdr) (nextHdr : Nat) :
    (fromValues src dst pktType path extHdrs nextHdr).extensionHdrs = extHdrs := rfl

/-- `pack()`: `none` when the common header does not fit its widths. -/
def pack (h : SCIONHeader) : Option Bytes :=
  h.commonHdr.pack.map fun c =>
    c ++ h.srcAddr.pack ++ h.dstAddr.pack ++ (h.path.map PathBase.pack).getD [] ++
      (h.extensionHdrs.map ExtHdr.pack).flatten

/-- `__len__`: `hdr_len` and the extension records. -/
def len (h : SCIONHeader) : Nat := h.commonHdr.hdrLen + (h.extensionHdrs.map ExtHdr.len).sum

/-! ### Pointers -/

/-- The path slot a pointer names: `(p − (src_addr_len + dst_addr_len)) // OpaqueField.LEN`. -/
def ofIndex (h : SCIONHeader) (p : Int) : Int :=
  (p - (h.commonHdr.srcAddrLen + h.commonHdr.dstAddrLen)) / OpaqueField.len

/-- `get_current_of()`. -/
def getCurrentOf (h : SCIONHeader) : Option Bytes :=
  h.path.bind fun p => p.getOf (h.ofIndex h.commonHdr.currOfP)

/-- `get_current_iof()`. -/
def getCurrentIof (h : SCIONHeader) : Option Bytes :=
  h.path.bind fun p => p.getOf (h.ofIndex h.commonHdr.currIofP)

/-- `get_relative_of(n)`. -/
def getRelativeOf (h : SCIONHeader) (n : Int) : Option Bytes :=
  h.path.bind fun p => p.getOf (h.ofIndex h.commonHdr.currOfP + n)

/-- `get_next_of()`. -/
def getNextOf (h : SCIONHeader) : Option Bytes :=
  h.path.bind fun p => p.getOf (h.ofIndex h.commonHdr.currOfP + 1)

/-- `is_last_path_of()`: `curr_of_p + (SCIONCommonHdr.LEN + OpaqueField.LEN) == hdr_len`. -/
def isLastPathOf (h : SCIONHeader) : Bool :=
  h.commonHdr.currOfP + (SCIONCommonHdr.len + OpaqueField.len) = h.commonHdr.hdrLen

/-! ### Mutating methods -/

section Methods

variable (W : Wire)

/-- `increase_of(number)`. -/
def increaseOf (h : SCIONHeader) (number : Int) : SCIONHeader :=
  { h with commonHdr := { h.commonHdr with
      currOfP := h.commonHdr.currOfP + number * OpaqueField.len } }

/-- `set_downpath()`: clears `up_flag` of the current info field, if there is one. -/
def setDownpath (h : SCIONHeader) : SCIONHeader :=
  match h.getCurrentIof with
  | none => h
  | some _ => { h with path := h.path.map (·.clearUpFlagAt W (h.ofIndex h.commonHdr.currIofP)) }

/-- `is_on_up_path()`: the current info field's `up_flag`; without one the method falls off its
end and returns `None`. -/
def isOnUpPath (h : SCIONHeader) : Option Bool := h.getCurrentIof.map W.upFlag

/-- `reverse()`: the addresses are swapped first; `self.path.reverse()` then raises when there
is no path, and otherwise both pointers go back to the path start. -/
def reverse (h : SCIONHeader) : Ran SCIONHeader :=
  let swapped := { h with srcAddr := h.dstAddr, dstAddr := h.srcAddr }
  match h.path with
  | none => .raised swapped
  | some p =>
      let start : Int := h.commonHdr.srcAddrLen + h.commonHdr.dstAddrLen
      .ok { swapped with
        path := some (p.reverse W),
        commonHdr := { h.commonHdr with currOfP := start, currIofP := start } }

end Methods

/-! ### What each method changes -/

/-- The byte length of the path, `0` without one. -/
def pathLen (h : SCIONHeader) : Nat := (h.path.map fun p => p.pack.length).getD 0

/-- The bytes `pack()` writes for the path are `pathLen` long. -/
theorem length_packedPath (h : SCIONHeader) :
    ((h.path.map PathBase.pack).getD []).length = h.pathLen := by
  unfold pathLen
  cases h.path <;> rfl

section Frames

variable (W : Wire) (h : SCIONHeader)

@[simp] theorem increaseOf_srcAddr (n : Int) : (h.increaseOf n).srcAddr = h.srcAddr := rfl
@[simp] theorem increaseOf_dstAddr (n : Int) : (h.increaseOf n).dstAddr = h.dstAddr := rfl
@[simp] theorem increaseOf_path (n : Int) : (h.increaseOf n).path = h.path := rfl
@[simp] theorem increaseOf_extensionHdrs (n : Int) :
    (h.increaseOf n).extensionHdrs = h.extensionHdrs := rfl
@[simp] theorem increaseOf_commonHdr (n : Int) : (h.increaseOf n).commonHdr =
    { h.commonHdr with currOfP := h.commonHdr.currOfP + n * OpaqueField.len } := rfl

/-- `set_downpath` rewrites the path in place at most, keeping its length. -/
theorem setDownpath_eq : ∃ path, h.setDownpath W = { h with path } ∧
    (path.map fun p => p.pack.length) = h.path.map fun p => p.pack.length := by
  unfold setDownpath
  split
  · exact ⟨h.path, rfl, rfl⟩
  · refine ⟨_, rfl, ?_⟩
    cases h.path <;> simp

theorem reverse_of_path {p : PathBase} (hp : h.path = some p) :
    h.reverse W = .ok { h with
      srcAddr := h.dstAddr, dstAddr := h.srcAddr, path := some (p.reverse W),
      commonHdr := { h.commonHdr with
        currOfP := h.commonHdr.srcAddrLen + h.commonHdr.dstAddrLen,
        currIofP := h.commonHdr.srcAddrLen + h.commonHdr.dstAddrLen } } := by
  simp [reverse, hp]

theorem reverse_of_no_path (hp : h.path = none) :
    h.reverse W = .raised { h with srcAddr := h.dstAddr, dstAddr := h.srcAddr } := by
  simp [reverse, hp]

end Frames

end SCIONHeader

/-- The header methods a forwarding hop calls. -/
inductive HdrOp
  | increaseOf (number : Int)
  | setDownpath
  | reverse
  deriving DecidableEq, Repr

/-- Calls one method on a header. -/
def HdrOp.run (W : Wire) : HdrOp → SCIONHeader → Ran SCIONHeader
  | increaseOf n, h => .ok (h.increaseOf n)
  | setDownpath, h => .ok (h.setDownpath W)
  | reverse, h => h.reverse W

/-- Calls methods in order, up to the first that raises. -/
def HdrOp.runAll (W : Wire) : List HdrOp → SCIONHeader → Ran SCIONHeader :=
  Ran.runAll (HdrOp.run W)

end ScionPacket
