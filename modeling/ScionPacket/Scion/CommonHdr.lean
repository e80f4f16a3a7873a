import ScionPacket.Support.Collaborators

/-!
# SCION — the common header

`PacketType` and `SCIONCommonHdr`: the fixed 8-byte header, its constructor `from_values`, and
its codec.  `pack` writes the first 16-bit word as `(type << 12) | (dst_addr_len << 6) |
src_addr_len`; `parse` reads `src_addr_len` from bits 11–6 and `dst_addr_len` from bits 5–0.
So the two 6-bit fields trade places on every round trip: `parse_pack` says that decoding an
encoded header gives it back with the two lengths swapped, and `pack_parse` that re-encoding a
decoded 8-byte string gives it back with the two 6-bit fields swapped.
-/

namespace ScionPacket

/-! ### `PacketType` -/

namespace PacketType
def data : Nat := 0
def aidReq : Nat := 1
def aidRep : Nat := 2
def certChainReqLocal : Nat := 3
def certChainReq : Nat := 4
def certChainRep : Nat := 5
def trcReqLocal : Nat := 6
def trcReq : Nat := 7
def trcRep : Nat := 8
def toLocalAddr : Nat := 100
def beacon : Nat := 101
def pathMgmt : Nat := 108
def ofgKeyReq : Nat := 114
def ofgKeyRep : Nat := 115
def ifidReq : Nat := 116
def ifidRep : Nat := 117
end PacketType

/-- `SCIONCommonHdr`.  Python integers: the fields `scion.py` only ever sets from lengths and
types are naturals; the two pointers move by `increase_of(number)` for any integer `number`,
and `total_len` is decreased by `set_payload`, so those three are integers. -/
structure SCIONCommonHdr where
  type : Nat
  srcAddrLen : Nat
  dstAddrLen : Nat
  totalLen : Int
  currIofP : Int
  currOfP : Int
  nextHdr : Nat
  hdrLen : Nat
  deriving DecidableEq, Repr

namespace SCIONCommonHdr

/-- `SCIONCommonHdr.LEN`. -/
def len : Nat := 8

/-- `from_values(pkt_type, src_addr_len, dst_addr_len, next_hdr)`. -/
def fromValues (pktType srcAddrLen dstAddrLen nextHdr : Nat) : SCIONCommonHdr where
  type := pktType
  srcAddrLen := srcAddrLen
  dstAddrLen := dstAddrLen
  nextHdr := nextHdr
  currOfP := srcAddrLen + dstAddrLen
  currIofP := srcAddrLen + dstAddrLen
  hdrLen := len + srcAddrLen + dstAddrLen
  totalLen := len + srcAddrLen + dstAddrLen

/-- The first 16-bit word, as `pack` writes it. -/
def types (h : SCIONCommonHdr) : Nat := h.type <<< 12 ||| h.dstAddrLen <<< 6 ||| h.srcAddrLen

/-- The format `pack` writes: `uintbe:16, uintbe:16, uintbe:8, uintbe:8, uintbe:8, uintbe:8`. -/
def fields (h : SCIONCommonHdr) : List (Nat × Int) :=
  [(2, h.types), (2, h.totalLen), (1, h.currIofP), (1, h.currOfP), (1, h.nextHdr), (1, h.hdrLen)]

/-- `pack()`: `none` when a field does not fit its width and `bitstring` raises. -/
def pack (h : SCIONCommonHdr) : Option Bytes := packUints .big h.fields

/-- The fields `parse` sets from the six values it unpacks. -/
def ofWords (types totalLen currIofP currOfP nextHdr hdrLen : Nat) : SCIONCommonHdr where
  type := (types &&& 0xf000) >>> 12
  srcAddrLen := (types &&& 0x0fc0) >>> 6
  dstAddrLen := types &&& 0x003f
  totalLen := totalLen
  currIofP := currIofP
  currOfP := currOfP
  nextHdr := nextHdr
  hdrLen := hdrLen

/-- `SCIONCommonHdr(raw)`: the parsed header, or `none` when `raw` is too short and the header
is left unparsed. -/
def parse (raw : Bytes) : Option SCIONCommonHdr :=
  if raw.length < len then none
  else match unpackUints .big [2, 2, 1, 1, 1, 1] raw with
    | some [types, totalLen, currIofP, currOfP, nextHdr, hdrLen] =>
        some (ofWords types totalLen currIofP currOfP nextHdr hdrLen)
    | _ => none

/-- Every field fits its wire width. -/
def Fits (h : SCIONCommonHdr) : Prop :=
  h.type < 16 ∧ h.srcAddrLen < 64 ∧ h.dstAddrLen < 64 ∧ FitsUint 2 h.totalLen ∧
    FitsUint 1 h.currIofP ∧ FitsUint 1 h.currOfP ∧ h.nextHdr < 256 ∧ h.hdrLen < 256

instance (h : SCIONCommonHdr) : Decidable h.Fits := by unfold Fits; infer_instance

/-- The header with its two address lengths exchanged. -/
def swapLens (h : SCIONCommonHdr) : SCIONCommonHdr :=
  { h with srcAddrLen := h.dstAddrLen, dstAddrLen := h.srcAddrLen }

/-! ### The first word -/

theorem shiftLeft_or_eq_add {a b k : Nat} (hb : b < 2 ^ k) : a <<< k ||| b = a * 2 ^ k + b := by
  rw [Nat.shiftLeft_eq, Nat.mul_comm, Nat.mul_add_lt_is_or hb]

theorem shiftLeft_or_shiftLeft (a b k : Nat) : a <<< k ||| b <<< k = (a ||| b) <<< k := by
  apply Nat.eq_of_testBit_eq
  intro i
  simp only [Nat.testBit_or, Nat.testBit_shiftLeft]
  cases decide (i ≥ k) <;> simp

theorem and_shiftLeft_shiftRight (x m k : Nat) : (x &&& m <<< k) >>> k = x >>> k &&& m := by
  apply Nat.eq_of_testBit_eq
  intro i
  simp [Nat.testBit_and, Nat.testBit_shiftLeft, Nat.testBit_shiftRight]

/-- The word `pack` writes, as a number. -/
theorem types_eq {h : SCIONCommonHdr} (hd : h.dstAddrLen < 64) (hs : h.srcAddrLen < 64) :
    h.types = h.type * 4096 + h.dstAddrLen * 64 + h.srcAddrLen := by
  have h12 : h.type <<< 12 = (h.type <<< 6) <<< 6 := Nat.shiftLeft_add _ 6 6
  rw [types, h12, shiftLeft_or_shiftLeft, shiftLeft_or_eq_add hd, shiftLeft_or_eq_add hs]
  show (h.type * 64 + h.dstAddrLen) * 64 + h.srcAddrLen = _
  omega

/-- The three fields `parse` reads from the first word. -/
theorem decode_types (x : Nat) :
    (x &&& 0xf000) >>> 12 = x / 4096 % 16 ∧ (x &&& 0x0fc0) >>> 6 = x / 64 % 64 ∧
      x &&& 0x003f = x % 64 := by
  refine ⟨?_, ?_, Nat.and_pow_two_sub_one_eq_mod x 6⟩
  · rw [show (0xf000 : Nat) = 15 <<< 12 from rfl, and_shiftLeft_shiftRight,
      show (15 : Nat) = 2 ^ 4 - 1 from rfl, Nat.and_pow_two_sub_one_eq_mod,
      Nat.shiftRight_eq_div_pow]
  · rw [show (0x0fc0 : Nat) = 63 <<< 6 from rfl, and_shiftLeft_shiftRight,
      show (63 : Nat) = 2 ^ 6 - 1 from rfl, Nat.and_pow_two_sub_one_eq_mod,
      Nat.shiftRight_eq_div_pow]

/-! ### The codec -/

/-- The eight bytes `pack` writes when every field fits. -/
def encode (h : SCIONCommonHdr) : Bytes := encodeUints .big h.fields

@[simp] theorem length_encode (h : SCIONCommonHdr) : h.encode.length = len := rfl

theorem fields_fit {h : SCIONCommonHdr} (hf : h.Fits) : ∀ f ∈ h.fields, FitsUint f.1 f.2 := by
  obtain ⟨ht, hs, hd, htl, hi, ho, hn, hh⟩ := hf
  have hw : h.types < 65536 := by rw [types_eq hd hs]; omega
  simp only [fields, List.mem_cons, List.mem_singleton, List.not_mem_nil, or_false]
  rintro f (rfl | rfl | rfl | rfl | rfl | rfl) <;>
    first | assumption | exact ⟨by omega, by simpa using by omega⟩

theorem pack_eq_encode {h : SCIONCommonHdr} (hf : h.Fits) : h.pack = some h.encode :=
  packUints_eq_some_iff.mpr ⟨fields_fit hf, rfl⟩

/-- Decoding what `pack` wrote reads back its six words. -/
theorem parse_encode_eq_ofWords {h : SCIONCommonHdr} (hf : ∀ f ∈ h.fields, FitsUint f.1 f.2)
    (rest : Bytes) :
    parse (h.encode ++ rest) = some (ofWords h.types h.totalLen.toNat h.currIofP.toNat
      h.currOfP.toNat h.nextHdr h.hdrLen) := by
  have hu : unpackUints .big [2, 2, 1, 1, 1, 1] (h.encode ++ rest) =
      some [h.types, h.totalLen.toNat, h.currIofP.toNat, h.currOfP.toNat, h.nextHdr, h.hdrLen] :=
    unpackUints_encodeUints .big h.fields rest hf
  rw [parse, if_neg (by simp), hu]

/-- The six words of a header whose fields fit decode to it with its two address lengths
swapped. -/
theorem ofWords_eq_swapLens {h : SCIONCommonHdr} (hf : h.Fits) :
    ofWords h.types h.totalLen.toNat h.currIofP.toNat h.currOfP.toNat h.nextHdr h.hdrLen =
      h.swapLens := by
  obtain ⟨ht, hs, hd, ⟨htl, -⟩, ⟨hi, -⟩, ⟨ho, -⟩, -, -⟩ := hf
  obtain ⟨e₁, e₂, e₃⟩ := decode_types h.types
  have hw := types_eq hd hs
  simp only [ofWords, e₁, e₂, e₃, Int.toNat_of_nonneg htl, Int.toNat_of_nonneg hi,
    Int.toNat_of_nonneg ho, swapLens, SCIONCommonHdr.mk.injEq]
  have q₁ : h.types / 4096 = h.type := by omega
  have q₂ : h.types / 64 = h.type * 64 + h.dstAddrLen := by omega
  simp only [q₁, q₂, and_true]
  omega

/-- Decoding what `pack` wrote gives the header back with its two address lengths swapped. -/
theorem parse_encode {h : SCIONCommonHdr} (hf : h.Fits) (rest : Bytes) :
    parse (h.encode ++ rest) = some h.swapLens := by
  rw [parse_encode_eq_ofWords (fields_fit hf), ofWords_eq_swapLens hf]

theorem swapLens_swapLens (h : SCIONCommonHdr) : h.swapLens.swapLens = h := rfl

theorem swapLens_eq_self {h : SCIONCommonHdr} (he : h.srcAddrLen = h.dstAddrLen) :
    h.swapLens = h := by
  cases h
  simp only [swapLens] at he ⊢
  rw [he]

/-- Re-encoding a decoded header with its two address lengths swapped back gives the eight bytes
it was decoded from. -/
theorem pack_swapLens_parse {raw : Bytes} {h : SCIONCommonHdr} (hp : parse raw = some h) :
    h.swapLens.pack = some (raw.take len) := by
  unfold parse at hp
  split at hp
  · cases hp
  · split at hp
    · rename_i x tl i o nx hl hu
      cases hp
      have hb := packUints_of_unpackUints hu
      obtain ⟨hf, -⟩ := packUints_eq_some_iff.mp hb
      have hx : x < 65536 := by simpa [FitsUint] using (hf (2, x) (by simp)).2
      have hw : (ofWords x tl i o nx hl).swapLens.types = x := by
        obtain ⟨e₁, e₂, e₃⟩ := decode_types x
        rw [types_eq] <;> simp only [swapLens, ofWords, e₁, e₂, e₃] <;> omega
      simpa [pack, fields, hw] using hb
    · cases hp

/-- The two 6-bit fields trade places: the header with `src_addr_len = 1` and
`dst_addr_len = 2` packs to `00 81 …`, which decodes with the lengths exchanged and re-packs as
`00 42 …`. -/
theorem codec_swaps_addr_lens :
    (⟨0, 1, 2, 0, 0, 0, 0, 0⟩ : SCIONCommonHdr).pack = some [0x00, 0x81, 0, 0, 0, 0, 0, 0] ∧
      parse [0x00, 0x81, 0, 0, 0, 0, 0, 0] = some ⟨0, 2, 1, 0, 0, 0, 0, 0⟩ ∧
      (parse [0x00, 0x81, 0, 0, 0, 0, 0, 0]).bind pack = some [0x00, 0x42, 0, 0, 0, 0, 0, 0] := by
  decide

/-- Eight bytes always decode: the six words are read at fixed offsets. -/
theorem parse_of_length {raw : Bytes} (hl : len ≤ raw.length) :
    parse raw = some (ofWords (beVal (raw.slice 0 2)) (beVal (raw.slice 2 4))
      (beVal (raw.slice 4 5)) (beVal (raw.slice 5 6)) (beVal (raw.slice 6 7))
      (beVal (raw.slice 7 8))) := by
  simp only [len] at hl
  simp only [parse, len, show ¬ raw.length < 8 by omega, if_false, unpackUints, List.length_drop,
    List.drop_drop, uintVal, Bytes.slice]
  rw [if_pos (by omega), if_pos (by omega), if_pos (by omega), if_pos (by omega), if_pos (by omega),
    if_pos (by omega)]
  rfl

/-- A decoded header fits its widths: every field was read from the bits that hold it. -/
theorem fits_of_parse {raw : Bytes} {h : SCIONCommonHdr} (hp : parse raw = some h) : h.Fits := by
  have hl : len ≤ raw.length := by
    by_contra hn
    simp [parse, show raw.length < len by omega] at hp
  rw [parse_of_length hl, Option.some.injEq] at hp
  subst hp
  have k : ∀ a b, beVal (raw.slice a b) < 256 ^ (b - a) := fun a b =>
    lt_of_lt_of_le (beVal_lt _) (Nat.pow_le_pow_right (by decide)
      (by simp only [Bytes.length_slice]; exact Nat.min_le_left _ _))
  obtain ⟨e₁, e₂, e₃⟩ := decode_types (beVal (raw.slice 0 2))
  simp only [Fits, ofWords, e₁, e₂, e₃, FitsUint, Int.toNat_ofNat, Int.ofNat_nonneg, true_and]
  exact ⟨Nat.mod_lt _ (by decide), Nat.mod_lt _ (by decide), Nat.mod_lt _ (by decide),
    by simpa using k 2 4, by simpa using k 4 5, by simpa using k 5 6, by simpa using k 6 7,
    by simpa using k 7 8⟩

/-- Bytes 2–3 of the encoding carry `total_len`. -/
theorem slice_encode_totalLen (h : SCIONCommonHdr) :
    h.encode.slice 2 4 = uintBytes .big 2 h.totalLen.toNat := rfl

end SCIONCommonHdr

end ScionPacket
