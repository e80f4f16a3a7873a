import ScionPacket.Scion.Parse

/-!
# SCION — the packet envelope

`SCIONPacket`: a header, a payload and `payload_len`.  Assigning `.payload` goes through
`set_payload` (the `payload` property of `PacketBase`, modelled from the spec: "the only
sanctioned path for payload mutation"), which moves `total_len` by the change in payload
length.  So `from_values` and `parse` both end in `set_payload`: after `parse`, `payload_len` is
`len(raw[len(hdr):])` whatever `dlen - hdr_len` was, and `total_len` keeps its wire value only
when the header does not overrun the buffer.

`PktOp` adds `set_payload` to the header methods; `PktOp.run` calls one and `PktOp.runAll` a
sequence.
-/

namespace ScionPacket

/-- The bytes a payload contributes to `pack()`. -/
def Payload.packed : Payload → Bytes
  | .bytes b | .packet b => b

@[simp] theorem Payload.length_packed (pl : Payload) : pl.packed.length = pl.len := by
  cases pl <;> rfl

/-- `SCIONPacket` once its header is set.  `payload` is `None` until one is assigned. -/
structure SCIONPacket where
  hdr : SCIONHeader
  payload : Option Payload
  payloadLen : Int
  deriving DecidableEq, Repr

namespace SCIONPacket

/-- `SCIONPacket.MIN_LEN`. -/
def minLen : Nat := 8

/-- `SCIONPacket()` given a header: no payload, `payload_len = 0`. -/
def ofHdr (hdr : SCIONHeader) : SCIONPacket := ⟨hdr, none, 0⟩

/-- `set_payload(payload)`. -/
def setPayload (p : SCIONPacket) (payload : Payload) : SCIONPacket :=
  let ch := p.hdr.commonHdr
  let totalLen := ch.totalLen - p.payloadLen
  let payloadLen : Int := payload.len
  { hdr := { p.hdr with commonHdr := { ch with totalLen := totalLen + payloadLen } },
    payload := some payload, payloadLen }

/-- `from_values(src, dst, payload, path, ext_hdrs, next_hdr, pkt_type)`. -/
def fromValues (src dst : SCIONAddr) (payload : Payload) (path : Option PathBase)
    (extHdrs : List ExtHdr) (nextHdr pktType : Nat) : SCIONPacket :=
  (ofHdr (SCIONHeader.fromValues src dst pktType path extHdrs nextHdr)).setPayload payload

/-- `parse(raw)`: a header left unparsed makes `len(self.hdr)` raise. -/
def parse (W : Wire) (fuel : Nat) (raw : Bytes) : Parsed SCIONPacket :=
  if raw.length < minLen then .unparsed
  else match SCIONHeader.parse W fuel raw with
    | .parsed hdr =>
        .parsed (setPayload ⟨hdr, none, raw.length - hdr.len⟩ (.bytes (raw.drop hdr.len)))
    | .unparsed => .raised
    | .raised => .raised
    | .outOfFuel => .outOfFuel

/-- `pack()`: joining a payload that was never set raises. -/
def pack (p : SCIONPacket) : Option Bytes :=
  match p.payload with
  | none => none
  | some pl => p.hdr.pack.map (· ++ pl.packed)

/-- What `pack()` returns: the common header, when its fields fit, then the addresses, the path,
the extension records and the payload. -/
theorem pack_eq_some {p : SCIONPacket} {bs : Bytes} :
    p.pack = some bs ↔ ∃ pl, p.payload = some pl ∧
      (∀ f ∈ p.hdr.commonHdr.fields, FitsUint f.1 f.2) ∧
      bs = p.hdr.commonHdr.encode ++ p.hdr.srcAddr.pack ++ p.hdr.dstAddr.pack ++
        (p.hdr.path.map PathBase.pack).getD [] ++ (p.hdr.extensionHdrs.map ExtHdr.pack).flatten ++
        pl.packed := by
  unfold pack
  split
  · simp_all
  · rename_i pl' hpl'
    simp only [SCIONHeader.pack, SCIONCommonHdr.pack, Option.map_map, Option.map_eq_some',
      packUints_eq_some_iff, Function.comp_def]
    constructor
    · rintro ⟨c, ⟨hf, rfl⟩, rfl⟩
      exact ⟨_, hpl', hf, rfl⟩
    · rintro ⟨pl, hpl, hf, rfl⟩
      obtain rfl : pl' = pl := Option.some.inj (hpl'.symm.trans hpl)
      exact ⟨_, ⟨hf, rfl⟩, rfl⟩

@[simp] theorem setPayload_payload (p : SCIONPacket) (pl : Payload) :
    (p.setPayload pl).payload = some pl := rfl

@[simp] theorem setPayload_payloadLen (p : SCIONPacket) (pl : Payload) :
    (p.setPayload pl).payloadLen = pl.len := rfl

@[simp] theorem setPayload_totalLen (p : SCIONPacket) (pl : Payload) :
    (p.setPayload pl).hdr.commonHdr.totalLen =
      p.hdr.commonHdr.totalLen - p.payloadLen + pl.len := rfl

/-- A packet marked parsed holds the header parsed from `raw` and the bytes after it, stored
through `set_payload` over `payload_len = dlen - len(hdr)`. -/
theorem parse_eq_parsed {W : Wire} {fuel : Nat} {raw : Bytes} {p : SCIONPacket} :
    parse W fuel raw = .parsed p ↔ minLen ≤ raw.length ∧ ∃ hdr,
      SCIONHeader.parse W fuel raw = .parsed hdr ∧
      setPayload ⟨hdr, none, raw.length - hdr.len⟩ (.bytes (raw.drop hdr.len)) = p := by
  unfold parse
  split
  · simp only [reduceCtorEq, false_iff, not_and]; omega
  · split <;> simp_all

@[simp] theorem setPayload_hdr_len (p : SCIONPacket) (pl : Payload) :
    (p.setPayload pl).hdr.len = p.hdr.len := rfl

/-- `set_payload` leaves the header alone except for `total_len`. -/
theorem setPayload_hdr (p : SCIONPacket) (pl : Payload) :
    (p.setPayload pl).hdr = { p.hdr with commonHdr := { p.hdr.commonHdr with
      totalLen := p.hdr.commonHdr.totalLen - p.payloadLen + pl.len } } := rfl

/-- A buffer whose common header names no extension: the walk ends at once, and the payload is
everything after `hdr_len`. -/
theorem parse_of_nextHdr_zero (W : Wire) (fuel : Nat) {raw : Bytes} {ch : SCIONCommonHdr}
    (hl : SCIONHeader.minLen ≤ raw.length)
    (hc : SCIONCommonHdr.parse (raw.slice 0 SCIONCommonHdr.len) = some ch) (hn : ch.nextHdr = 0) :
    parse W fuel raw = .parsed (setPayload ⟨SCIONHeader.ofParse W raw ch [], none,
      raw.length - ch.hdrLen⟩ (.bytes (raw.drop ch.hdrLen))) := by
  rw [parse, if_neg (by simp only [minLen, SCIONHeader.minLen] at hl ⊢; omega),
    SCIONHeader.parse_eq W hl hc, ExtWalk.run_of_done W raw fuel hn]
  simp [Parsed.map, SCIONHeader.len, SCIONHeader.ofParse]

end SCIONPacket

/-- The mutating calls on a packet: `set_payload` and the header methods. -/
inductive PktOp
  | setPayload (payload : Payload)
  | hdr (op : HdrOp)
  deriving DecidableEq, Repr

/-- Calls one method on a packet. -/
def PktOp.run (W : Wire) : PktOp → SCIONPacket → Ran SCIONPacket
  | setPayload pl, p => .ok (p.setPayload pl)
  | hdr op, p =>
      match op.run W p.hdr with
      | .ok h => .ok { p with hdr := h }
      | .raised h => .raised { p with hdr := h }

/-- Calls methods in order, up to the first that raises. -/
def PktOp.runAll (W : Wire) : List PktOp → SCIONPacket → Ran SCIONPacket :=
  Ran.runAll (PktOp.run W)

end ScionPacket
