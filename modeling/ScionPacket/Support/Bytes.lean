import Mathlib

/-!
# Support — Bytes

Python `bytes` as lists of `UInt8`, the slices `scion.py` takes of them, and the fixed-width
unsigned fields it writes with `bitstring.pack("uintbe:…")` and `struct.pack("H…")` and reads
back with `BitArray.unpack` and `struct.unpack`.

A field of `w` bytes holds `v` when `0 ≤ v < 256 ^ w` (`FitsUint`); packing a value that does
not fit raises, and the model returns `none`.  Writing a fitting value and reading it back gives
the value (`uintVal_uintBytes`); reading a field and writing it back gives the bytes again
(`uintBytes_uintVal`).  `unpackUints_encodeUints` and `packUints_of_unpackUints` lift the two
laws to a whole format.
-/

namespace ScionPacket

/-- Python `bytes`. -/
abbrev Bytes := List UInt8

/-- `raw[a:b]` for non-negative bounds. -/
def Bytes.slice (raw : Bytes) (a b : Nat) : Bytes := (raw.drop a).take (b - a)

@[simp] theorem Bytes.length_slice (raw : Bytes) (a b : Nat) :
    (raw.slice a b).length = min (b - a) (raw.length - a) := by
  simp [Bytes.slice]

/-- Slicing inside the left part of a concatenation. -/
theorem Bytes.slice_append_left {l r : Bytes} {a b : Nat} (h : b ≤ l.length) :
    (l ++ r).slice a b = l.slice a b := by
  simp only [Bytes.slice, List.drop_append_eq_append_drop, List.take_append_eq_append_take,
    List.length_drop, show b - a - (l.length - a) = 0 by omega, List.take_zero, List.append_nil]

/-- Slicing from the end of a prefix. -/
theorem Bytes.slice_append_right (pre l : Bytes) (n : Nat) :
    (pre ++ l).slice pre.length (pre.length + n) = l.take n := by
  simp [Bytes.slice]

/-- Slicing past a prefix. -/
theorem Bytes.slice_append_shift (pre l : Bytes) (a b : Nat) :
    (pre ++ l).slice (pre.length + a) (pre.length + b) = l.slice a b := by
  simp only [Bytes.slice, List.drop_append_eq_append_drop, List.drop_eq_nil_of_le
    (show pre.length ≤ pre.length + a by omega), List.nil_append, Nat.add_sub_cancel_left,
    show pre.length + a - pre.length = a by omega, Nat.add_sub_add_left]

/-- Slicing inside a prefix. -/
theorem Bytes.slice_take (raw : Bytes) {n a b : Nat} (hb : b ≤ n) :
    Bytes.slice (raw.take n) a b = raw.slice a b := by
  simp only [Bytes.slice, List.drop_take, List.take_take]
  congr 1
  omega

/-- Slicing past a dropped prefix. -/
theorem Bytes.slice_drop (raw : Bytes) (n a b : Nat) :
    Bytes.slice (raw.drop n) a b = raw.slice (n + a) (n + b) := by
  simp only [Bytes.slice, List.drop_drop, Nat.add_sub_add_left]

/-- Field `m` of a buffer of 8-byte fields whose field `k` was replaced by `c`. -/
theorem Bytes.slice_replace {raw c : Bytes} {k m : Nat} (hc : c.length = 8)
    (hk : 8 * (k + 1) ≤ raw.length) :
    Bytes.slice (raw.take (8 * k) ++ c ++ raw.drop (8 * (k + 1))) (8 * m) (8 * (m + 1)) =
      if m = k then c else raw.slice (8 * m) (8 * (m + 1)) := by
  have hA : (raw.take (8 * k)).length = 8 * k := by simp; omega
  rcases Nat.lt_trichotomy m k with hlt | rfl | hgt
  · rw [if_neg (by omega), List.append_assoc, Bytes.slice_append_left (by omega),
      Bytes.slice_take _ (by omega)]
  · have e := Bytes.slice_append_right (raw.take (8 * m)) (c ++ raw.drop (8 * (m + 1))) 8
    rw [hA, List.take_left' hc] at e
    rw [if_pos rfl, List.append_assoc]
    exact e
  · have hAc : (raw.take (8 * k) ++ c).length = 8 * (k + 1) := by simp [hc]; omega
    rw [if_neg (by omega),
      show 8 * m = (raw.take (8 * k) ++ c).length + (8 * m - 8 * (k + 1)) by omega,
      show 8 * (m + 1) = (raw.take (8 * k) ++ c).length + (8 * (m + 1) - 8 * (k + 1)) by omega,
      Bytes.slice_append_shift, Bytes.slice_drop, hAc]

/-- A slice and everything after it. -/
theorem Bytes.slice_append_drop (raw : Bytes) {a b : Nat} (hab : a ≤ b) :
    raw.slice a b ++ raw.drop b = raw.drop a := by
  simp only [Bytes.slice]
  rw [show raw.drop b = (raw.drop a).drop (b - a) by rw [List.drop_drop]; congr 1; omega,
    List.take_append_drop]

theorem UInt8.toNat_ofNat' (n : Nat) : (UInt8.ofNat n).toNat = n % 256 := by
  simp [UInt8.toNat, UInt8.ofNat]

/-! ### Big-endian numbers -/

/-- The `w`-byte big-endian image of `n % 256 ^ w`. -/
def beBytes : Nat → Nat → Bytes
  | 0, _ => []
  | w + 1, n => UInt8.ofNat (n / 256 ^ w) :: beBytes w n

/-- The unsigned value of big-endian bytes. -/
def beVal : Bytes → Nat
  | [] => 0
  | b :: l => b.toNat * 256 ^ l.length + beVal l

@[simp] theorem beBytes_length (w n : Nat) : (beBytes w n).length = w := by
  induction w <;> simp [beBytes, *]

theorem beVal_lt (l : Bytes) : beVal l < 256 ^ l.length := by
  induction l with
  | nil => simp [beVal]
  | cons b l ih =>
      have : b.toNat * 256 ^ l.length + 256 ^ l.length ≤ 256 ^ (l.length + 1) := by
        rw [Nat.pow_succ, ← Nat.succ_mul, Nat.mul_comm]
        exact Nat.mul_le_mul_left _ (UInt8.toNat_lt_size b)
      simp only [beVal, List.length_cons]
      omega

theorem beVal_beBytes (w n : Nat) : beVal (beBytes w n) = n % 256 ^ w := by
  induction w with
  | zero => simp [beBytes, beVal, Nat.mod_one]
  | succ w ih =>
      simp only [beBytes, beVal, beBytes_length, ih, UInt8.toNat_ofNat', Nat.mod_pow_succ]
      rw [Nat.mul_comm, Nat.add_comm]

/-- The leading digit and the rest are read back from `b * p + v` with `v < p`. -/
theorem digit_eq {b c v u p : Nat} (hv : v < p) (hu : u < p) (h : b * p + v = c * p + u) :
    b = c ∧ v = u := by
  have hp : 0 < p := by omega
  have hd := congrArg (· / p) h
  have hm := congrArg (· % p) h
  simp only [Nat.add_comm (b * p), Nat.add_comm (c * p), Nat.add_mul_div_right _ _ hp,
    Nat.div_eq_of_lt hv, Nat.div_eq_of_lt hu, Nat.add_mul_mod_self_right, Nat.mod_eq_of_lt hv,
    Nat.mod_eq_of_lt hu] at hd hm
  omega

theorem beVal_injective {l₁ l₂ : Bytes} (hl : l₁.length = l₂.length)
    (h : beVal l₁ = beVal l₂) : l₁ = l₂ := by
  induction l₁ generalizing l₂ with
  | nil => cases l₂ <;> simp_all
  | cons b l ih =>
      cases l₂ with
      | nil => simp at hl
      | cons c m =>
          simp only [List.length_cons, Nat.add_right_cancel_iff] at hl
          simp only [beVal, hl] at h
          obtain ⟨hb, hv⟩ := digit_eq (hl ▸ beVal_lt l) (beVal_lt m) h
          rw [UInt8.toNat.inj hb, ih hl hv]

theorem beBytes_beVal (l : Bytes) : beBytes l.length (beVal l) = l :=
  beVal_injective (by simp) (by rw [beVal_beBytes, Nat.mod_eq_of_lt (beVal_lt l)])

/-! ### Fields in either byte order -/

/-- The byte order of a field: `uintbe` is big-endian, `struct` without a prefix uses the
platform's. -/
inductive ByteOrder
  | big
  | little
  deriving DecidableEq, Repr

/-- The `w`-byte image of `n % 256 ^ w` in byte order `o`. -/
def uintBytes : ByteOrder → Nat → Nat → Bytes
  | .big, w, n => beBytes w n
  | .little, w, n => (beBytes w n).reverse

/-- The unsigned value of a field in byte order `o`. -/
def uintVal : ByteOrder → Bytes → Nat
  | .big, l => beVal l
  | .little, l => beVal l.reverse

@[simp] theorem uintBytes_length (o : ByteOrder) (w n : Nat) :
    (uintBytes o w n).length = w := by
  cases o <;> simp [uintBytes]

theorem uintVal_lt (o : ByteOrder) (l : Bytes) : uintVal o l < 256 ^ l.length := by
  cases o
  · exact beVal_lt l
  · simpa using beVal_lt l.reverse

@[simp] theorem uintVal_uintBytes (o : ByteOrder) (w n : Nat) :
    uintVal o (uintBytes o w n) = n % 256 ^ w := by
  cases o <;> simp [uintBytes, uintVal, beVal_beBytes]

@[simp] theorem uintBytes_uintVal (o : ByteOrder) (l : Bytes) :
    uintBytes o l.length (uintVal o l) = l := by
  cases o
  · exact beBytes_beVal l
  · simpa [uintBytes, uintVal] using congrArg List.reverse (beBytes_beVal l.reverse)

/-! ### Formats -/

/-- `v` is representable in an unsigned field of `w` bytes. -/
def FitsUint (w : Nat) (v : Int) : Prop := 0 ≤ v ∧ v.toNat < 256 ^ w

instance (w : Nat) (v : Int) : Decidable (FitsUint w v) := inferInstanceAs (Decidable (_ ∧ _))

/-- One field of `bitstring.pack` or `struct.pack`; `none` is the error either raises for a
value out of range. -/
def packUint (o : ByteOrder) (w : Nat) (v : Int) : Option Bytes :=
  if FitsUint w v then some (uintBytes o w v.toNat) else none

/-- `bitstring.pack(fmt, *values)`: the fields of widths and values `fs`, one after another. -/
def packUints (o : ByteOrder) : List (Nat × Int) → Option Bytes
  | [] => some []
  | (w, v) :: fs => (packUint o w v).bind fun b => (packUints o fs).map (b ++ ·)

/-- `BitArray.unpack(fmt)`: fields of widths `ws` read from the front, what follows ignored;
`none` is the `ReadError` of a buffer too short. -/
def unpackUints (o : ByteOrder) : List Nat → Bytes → Option (List Nat)
  | [], _ => some []
  | w :: ws, raw =>
      if w ≤ raw.length then (unpackUints o ws (raw.drop w)).map (uintVal o (raw.take w) :: ·)
      else none

/-- A successful read consumed the widths it was given. -/
theorem unpackUints_sum_le {o : ByteOrder} {ws : List Nat} {raw : Bytes} {vs : List Nat}
    (h : unpackUints o ws raw = some vs) : ws.sum ≤ raw.length := by
  induction ws generalizing raw vs with
  | nil => simp
  | cons w ws ih =>
      simp only [unpackUints] at h
      split at h
      · obtain ⟨vs', hvs', rfl⟩ := Option.map_eq_some'.mp h
        have := ih hvs'
        simp only [List.length_drop, List.sum_cons] at this ⊢
        omega
      · cases h

/-- A read depends only on the bytes it consumes. -/
theorem unpackUints_take {o : ByteOrder} {ws : List Nat} {n : Nat} (l : Bytes) (h : ws.sum ≤ n) :
    unpackUints o ws (l.take n) = unpackUints o ws l := by
  induction ws generalizing l n with
  | nil => rfl
  | cons w ws ih =>
      simp only [List.sum_cons] at h
      have hw : w ≤ (l.take n).length ↔ w ≤ l.length := by simp; omega
      simp only [unpackUints, hw, List.take_take, Nat.min_eq_left (show w ≤ n by omega),
        List.drop_take, ih (l.drop w) (show ws.sum ≤ n - w by omega)]

/-- The bytes `packUints` writes when every field fits. -/
def encodeUints (o : ByteOrder) (fs : List (Nat × Int)) : Bytes :=
  fs.flatMap fun f => uintBytes o f.1 f.2.toNat

theorem packUints_eq_some_iff {o : ByteOrder} {fs : List (Nat × Int)} {bs : Bytes} :
    packUints o fs = some bs ↔ (∀ f ∈ fs, FitsUint f.1 f.2) ∧ bs = encodeUints o fs := by
  induction fs generalizing bs with
  | nil => simp [packUints, encodeUints, eq_comm]
  | cons f fs ih =>
      obtain ⟨w, v⟩ := f
      by_cases hf : FitsUint w v
      · simp only [packUints, packUint, hf, ih, encodeUints]
        aesop
      · simp [packUints, packUint, hf]

@[simp] theorem encodeUints_length (o : ByteOrder) (fs : List (Nat × Int)) :
    (encodeUints o fs).length = (fs.map Prod.fst).sum := by
  induction fs <;> simp_all [encodeUints]

/-- `packUints` writes the sum of the widths. -/
theorem packUints_length {o : ByteOrder} {fs : List (Nat × Int)} {bs : Bytes}
    (h : packUints o fs = some bs) : bs.length = (fs.map Prod.fst).sum := by
  rw [(packUints_eq_some_iff.mp h).2, encodeUints_length]

/-- Decoding a packed format gives the values back, whatever follows it. -/
theorem unpackUints_encodeUints (o : ByteOrder) (fs : List (Nat × Int)) (rest : Bytes)
    (h : ∀ f ∈ fs, FitsUint f.1 f.2) :
    unpackUints o (fs.map Prod.fst) (encodeUints o fs ++ rest) = some (fs.map (·.2.toNat)) := by
  induction fs with
  | nil => rfl
  | cons f fs ih =>
      have hf := (h f (List.mem_cons_self _ _)).2
      simp only [encodeUints, List.flatMap_cons, List.map_cons, unpackUints] at ih ⊢
      simp [ih (fun g hg => h g (List.mem_cons_of_mem _ hg)), Nat.mod_eq_of_lt hf]

/-- Re-packing decoded values gives the bytes they were read from. -/
theorem packUints_of_unpackUints {o : ByteOrder} {ws : List Nat} {raw : Bytes} {vs : List Nat}
    (h : unpackUints o ws raw = some vs) :
    packUints o (ws.zip (vs.map (↑))) = some (raw.take ws.sum) := by
  induction ws generalizing raw vs with
  | nil => cases h; rfl
  | cons w ws ih =>
      simp only [unpackUints] at h
      split at h
      · obtain ⟨vs', hvs', rfl⟩ := Option.map_eq_some'.mp h
        have hlen : (raw.take w).length = w := by simp; omega
        have hfit : FitsUint w (uintVal o (raw.take w) : Nat) :=
          ⟨Int.ofNat_nonneg _, by simpa [hlen] using uintVal_lt o (raw.take w)⟩
        have hb : uintBytes o w (uintVal o (raw.take w)) = raw.take w := by
          simpa [hlen] using uintBytes_uintVal o (raw.take w)
        rw [List.map_cons, List.zip_cons_cons, List.sum_cons, List.take_add]
        simp only [packUints, packUint, if_pos hfit, Option.some_bind, ih hvs', Option.map_some',
          Int.toNat_ofNat, hb]
      · cases h

end ScionPacket
