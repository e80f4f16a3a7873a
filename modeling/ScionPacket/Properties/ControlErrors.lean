import ScionPacket.Properties.Errors
import ScionPacket.Scion.Control

/-!
# Properties — what the control constructors do with a buffer

`C(raw)`, for each of the six control packets, runs `SCIONPacket.parse` on a non-empty `raw` and
then decodes the payload: `struct.unpack("HH", …)` takes exactly four bytes, `BitArray.unpack` at
least the width of its format and ignores the rest.  Decoding reads `self.payload` whatever
`parse` did, so a control constructor raises where `SCIONPacket(raw)` leaves a short buffer
unparsed; only the empty buffer, which `if raw:` never parses, leaves its fields unset.

* `parseControl_eq_of_ne_nil`: a constructor on a non-empty buffer in terms of `SCIONHeader(raw)`
  alone.
* `ControlOutcomes`: the four outcomes of a constructor in terms of the buffer: its length, the
  records its walk reaches (`WalkTruncates`, `WalkStalls`) and the length of the bytes after the
  header.  `control_constructor_outcomes` gives them for each of the six classes.
-/

namespace ScionPacket

/-- The outcomes of a control constructor on `raw`, for a payload decoder that accepts the
payloads whose length satisfies `ok`.  Its fields stay unset exactly on the empty buffer; it runs
forever exactly when the header's walk reaches a stuck record; it is marked parsed exactly on a
buffer of `SCIONHeader.MIN_LEN` bytes or more whose walk reaches neither a truncated prefix nor
a stuck record and whose `len(raw) - len(hdr)` bytes after the header have an accepted length;
and it raises on every other buffer. -/
def ControlOutcomes {α : Type} (W : Wire) (fuel : Nat) (raw : Bytes) (ok : Nat → Prop)
    (x : Parsed α) : Prop :=
  (x = .unparsed ↔ raw = []) ∧
    (x = .outOfFuel ↔ SCIONHeader.WalkStalls W raw) ∧
    ((∃ a, x = .parsed a) ↔ SCIONHeader.minLen ≤ raw.length ∧
      ¬ SCIONHeader.WalkTruncates W raw ∧ ¬ SCIONHeader.WalkStalls W raw ∧
      ∀ hdr, SCIONHeader.parse W fuel raw = .parsed hdr → ok (raw.length - hdr.len)) ∧
    (x = .raised ↔ raw ≠ [] ∧ (raw.length < SCIONHeader.minLen ∨
      SCIONHeader.WalkTruncates W raw ∨
      ∃ hdr, SCIONHeader.parse W fuel raw = .parsed hdr ∧ ¬ ok (raw.length - hdr.len)))

section
variable (W : Wire) (fuel : Nat) (raw : Bytes) {α : Type} (decode : SCIONPacket → Bytes → Option α)

/-- A control constructor on a non-empty buffer: the decoder reads the bytes after a parsed
header; a header left unparsed (`len(self.hdr)` or the decoder of a `None` payload fails) or
raised makes it raise; and a walk that runs forever leaves it without a result. -/
theorem parseControl_eq_of_ne_nil (hne : raw ≠ []) : parseControl W fuel decode raw =
    match SCIONHeader.parse W fuel raw with
    | .parsed hdr =>
        match decode (SCIONPacket.setPayload ⟨hdr, none, raw.length - hdr.len⟩
          (.bytes (raw.drop hdr.len))) (raw.drop hdr.len) with
        | some a => .parsed a
        | none => .raised
    | .outOfFuel => .outOfFuel
    | _ => .raised := by
  unfold parseControl SCIONPacket.parse
  rw [if_neg hne]
  split_ifs with hl
  · rw [(SCIONHeader.parse_eq_unparsed W fuel raw).mpr
      (by simp only [SCIONPacket.minLen, SCIONHeader.minLen] at hl ⊢; omega)]
  · cases SCIONHeader.parse W fuel raw <;> rfl

/-- The outcomes of a control constructor whose decoder accepts exactly the payloads whose length
satisfies `ok`, given `len(raw) + 1` iterations for the walk. -/
theorem parseControl_outcomes (hfuel : raw.length < fuel) {ok : Nat → Prop}
    (hdec : ∀ p b, (∃ a, decode p b = some a) ↔ ok b.length) :
    ControlOutcomes W fuel raw ok (parseControl W fuel decode raw) := by
  -- every condition on the buffer is an outcome of `SCIONHeader(raw)`: split on that outcome
  rw [ControlOutcomes, ← not_lt, ← SCIONHeader.parse_eq_unparsed W fuel raw,
    ← SCIONHeader.parse_eq_raised_iff W fuel raw hfuel,
    ← SCIONHeader.parse_eq_outOfFuel_iff W fuel raw hfuel]
  by_cases hne : raw = []
  · subst hne
    have hu : SCIONHeader.parse W fuel [] = .unparsed :=
      (SCIONHeader.parse_eq_unparsed W fuel []).mpr (by decide)
    simp [parseControl, hu]
  rw [parseControl_eq_of_ne_nil W fuel raw decode hne]
  cases hh : SCIONHeader.parse W fuel raw with
  | parsed hdr =>
      dsimp only
      generalize SCIONPacket.setPayload _ _ = p
      have hok := hdec p (raw.drop hdr.len)
      rw [List.length_drop] at hok
      cases hd : decode p (raw.drop hdr.len) <;> simp_all
  | unparsed | raised | outOfFuel => simp [hne]

end

/-- **What the control constructors do with a buffer.**  Given `len(raw) + 1` iterations for the
extension walk, each of the six control constructors leaves its fields unset exactly on the
empty buffer, and runs forever exactly when the header's walk reaches a stuck record.  It is
marked parsed exactly on a buffer of `SCIONHeader.MIN_LEN` bytes or more whose walk reaches
neither a truncated prefix nor a stuck record and whose bytes after the header number 4
(`IFIDRequest`, `IFIDReply`), or at least 26 (`CertChainRequest`), 14 (`CertChainReply`), 18
(`TRCRequest`) or 6 (`TRCReply`).  It raises on every other buffer: on every non-empty buffer
shorter than `SCIONHeader.MIN_LEN` among them, those below `SCIONPacket.MIN_LEN` included,
which `SCIONPacket(raw)` leaves unparsed. -/
theorem control_constructor_outcomes (W : Wire) (raw : Bytes) (fuel : Nat)
    (hfuel : raw.length < fuel) :
    ControlOutcomes W fuel raw (· = 4) (IFIDRequest.parse W fuel raw) ∧
      ControlOutcomes W fuel raw (· = 4) (IFIDReply.parse W fuel raw) ∧
      ControlOutcomes W fuel raw (26 ≤ ·) (CertChainRequest.parse W fuel raw) ∧
      ControlOutcomes W fuel raw (14 ≤ ·) (CertChainReply.parse W fuel raw) ∧
      ControlOutcomes W fuel raw (18 ≤ ·) (TRCRequest.parse W fuel raw) ∧
      ControlOutcomes W fuel raw (6 ≤ ·) (TRCReply.parse W fuel raw) := by
  refine ⟨?_, ?_, ?_, ?_, ?_, ?_⟩ <;> refine parseControl_outcomes W fuel raw _ hfuel fun p b => ?_
  all_goals
    simp only [structUnpack, unpackUints, List.length_drop, List.sum_cons, List.sum_nil]
    split_ifs <;> simp <;> omega

/-- Four bytes: `SCIONPacket(raw)` leaves them unparsed, and every control constructor raises. -/
theorem control_constructor_outcomes_four_bytes :
    let raw : Bytes := [0, 0, 0, 4]
    raw.length < 5 ∧
      ControlOutcomes Wire.sample 5 raw (· = 4) (IFIDRequest.parse Wire.sample 5 raw) ∧
      ControlOutcomes Wire.sample 5 raw (· = 4) (IFIDReply.parse Wire.sample 5 raw) ∧
      ControlOutcomes Wire.sample 5 raw (26 ≤ ·) (CertChainRequest.parse Wire.sample 5 raw) ∧
      ControlOutcomes Wire.sample 5 raw (14 ≤ ·) (CertChainReply.parse Wire.sample 5 raw) ∧
      ControlOutcomes Wire.sample 5 raw (18 ≤ ·) (TRCRequest.parse Wire.sample 5 raw) ∧
      ControlOutcomes Wire.sample 5 raw (6 ≤ ·) (TRCReply.parse Wire.sample 5 raw) :=
  ⟨by decide, control_constructor_outcomes Wire.sample [0, 0, 0, 4] 5 (by decide)⟩

example : SCIONPacket.parse Wire.sample 5 [0, 0, 0, 4] = .unparsed ∧
    IFIDRequest.parse Wire.sample 5 [0, 0, 0, 4] = .raised := ⟨rfl, rfl⟩

end ScionPacket
