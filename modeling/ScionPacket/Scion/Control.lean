import ScionPacket.Scion.Packet

/-!
# SCION — control packets and the type registry

`TYPES_SRC` and `TYPES_DST` map control-packet types to reserved host numbers;
`get_addr_from_type` builds the pseudo-address of a type and `get_type` reads a packet's type
back from its addresses.

The six control packets share one shape (`controlPacket`): a registry address on the side the
packet travels to (a request's destination, a reply's source), a header with no path and no
extensions, and a payload of fixed-width fields, stored through `set_payload`.  Their parsers
share `parseControl`: `if raw: self.parse(raw)`, where `parse` is `SCIONPacket.parse` followed
by decoding the payload.  `IFIDRequest` and `IFIDReply` use `struct` in the platform's byte
order and re-store their payload in `pack()`; `IFIDReply.from_values` stores none.
-/

namespace ScionPacket

/-! ### The registry -/

/-- `TYPES_SRC`. -/
def typesSrc : List (Nat × Nat) :=
  [(PacketType.certChainRep, 33611786), (PacketType.pathMgmt, 67166218),
   (PacketType.trcRep, 134275082), (PacketType.beacon, 16834570),
   (PacketType.ofgKeyRep, 117497866), (PacketType.ifidRep, 167829514)]

/-- `TYPES_SRC_INV`. -/
def typesSrcInv : List (Nat × Nat) := typesSrc.map Prod.swap

/-- `TYPES_DST`. -/
def typesDst : List (Nat × Nat) :=
  [(PacketType.certChainReqLocal, 151052298), (PacketType.certChainReq, 33611786),
   (PacketType.pathMgmt, 67166218), (PacketType.trcReqLocal, 100720650),
   (PacketType.trcReq, 134275082), (PacketType.ofgKeyReq, 117497866),
   (PacketType.ifidReq, 167829514)]

/-- `TYPES_DST_INV`. -/
def typesDstInv : List (Nat × Nat) := typesDst.map Prod.swap

section
variable (W : Wire)

/-- `get_addr_from_type(ptype)`; `none` is the `KeyError` of a type in neither table. -/
def getAddrFromType (ptype : Nat) : Option SCIONAddr :=
  match List.lookup ptype typesSrc with
  | some n => some (W.hostAddr n)
  | none => (List.lookup ptype typesDst).map W.hostAddr

/-- `get_type(pkt)`: the source address is looked up first, then the destination. -/
def getType (pkt : SCIONPacket) : Nat :=
  match List.lookup (W.hostInt pkt.hdr.srcAddr) typesSrcInv with
  | some t => t
  | none => (List.lookup (W.hostInt pkt.hdr.dstAddr) typesDstInv).getD PacketType.data

/-! ### The shared shape -/

/-- `struct.unpack(fmt, b)`: the buffer must be exactly as long as the format. -/
def structUnpack (o : ByteOrder) (ws : List Nat) (b : Bytes) : Option (List Nat) :=
  if b.length = ws.sum then unpackUints o ws b else none

/-- What the six `from_values` share: the registry address of `regType` as the destination of
a request or the source of a reply, a header of type `hdrType` with no path or extensions, and
the payload, if one is given, stored through `set_payload`. -/
def controlPacket (isReply : Bool) (addr : SCIONAddr) (regType hdrType : Nat)
    (payload : Option Bytes) : Option SCIONPacket :=
  (getAddrFromType W regType).map fun reg =>
    let hdr :=
      if isReply then SCIONHeader.fromValues reg addr hdrType none [] 0
      else SCIONHeader.fromValues addr reg hdrType none [] 0
    match payload with
    | some b => (SCIONPacket.ofHdr hdr).setPayload (.bytes b)
    | none => SCIONPacket.ofHdr hdr

/-- The constructor `C(raw)` of a control packet: `if raw: self.parse(raw)`, where `parse` runs
`SCIONPacket.parse` and then `decode` on the payload; decoding the `None` payload of a packet
left unparsed raises. -/
def parseControl {α : Type} (fuel : Nat) (decode : SCIONPacket → Bytes → Option α)
    (raw : Bytes) : Parsed α :=
  if raw = [] then .unparsed
  else match SCIONPacket.parse W fuel raw with
    | .parsed p =>
        match p.payload with
        | some pl => match decode p pl.packed with
          | some a => .parsed a
          | none => .raised
        | none => .raised
    | .unparsed => .raised
    | .raised => .raised
    | .outOfFuel => .outOfFuel

end

/-! ### `IFIDRequest` -/

/-- `IFIDRequest`. -/
structure IFIDRequest where
  pkt : SCIONPacket
  requestId : Nat
  deriving DecidableEq, Repr

namespace IFIDRequest
variable (W : Wire)

/-- `struct.pack("HH", 0, request_id)`. -/
def payloadOf (requestId : Nat) : Option Bytes := packUints W.native [(2, 0), (2, requestId)]

/-- `from_values(src, request_id)`: the header is of type `DATA`. -/
def fromValues (src : SCIONAddr) (requestId : Nat) : Option IFIDRequest := do
  let payload ← payloadOf W requestId
  let pkt ← controlPacket W false src PacketType.ifidReq PacketType.data (some payload)
  pure ⟨pkt, requestId⟩

/-- The first line of `pack()`: `self.payload = struct.pack("HH", 0, self.request_id)`. -/
def storePayload (r : IFIDRequest) : Option IFIDRequest :=
  (payloadOf W r.requestId).map fun b => { r with pkt := r.pkt.setPayload (.bytes b) }

/-- `pack()`. -/
def pack (r : IFIDRequest) : Option Bytes := (r.storePayload W).bind (·.pkt.pack)

/-- `IFIDRequest(raw)`: `_, self.request_id = struct.unpack("HH", self.payload)`. -/
def parse (fuel : Nat) (raw : Bytes) : Parsed IFIDRequest :=
  parseControl W fuel (fun p b => match structUnpack W.native [2, 2] b with
    | some [_, requestId] => some ⟨p, requestId⟩
    | _ => none) raw

end IFIDRequest

/-! ### `IFIDReply` -/

/-- `IFIDReply`. -/
structure IFIDReply where
  pkt : SCIONPacket
  replyId : Nat
  requestId : Nat
  deriving DecidableEq, Repr

namespace IFIDReply
variable (W : Wire)

/-- `struct.pack("HH", reply_id, request_id)`. -/
def payloadOf (replyId requestId : Nat) : Option Bytes :=
  packUints W.native [(2, replyId), (2, requestId)]

/-- `from_values(dst, reply_id, request_id)`: the header is of type `DATA`, and no payload is
stored. -/
def fromValues (dst : SCIONAddr) (replyId requestId : Nat) : Option IFIDReply :=
  (controlPacket W true dst PacketType.ifidRep PacketType.data none).map (⟨·, replyId, requestId⟩)

/-- The first line of `pack()`: `self.payload = struct.pack("HH", …)`. -/
def storePayload (r : IFIDReply) : Option IFIDReply :=
  (payloadOf W r.replyId r.requestId).map fun b => { r with pkt := r.pkt.setPayload (.bytes b) }

/-- `pack()`. -/
def pack (r : IFIDReply) : Option Bytes := (r.storePayload W).bind (·.pkt.pack)

/-- `IFIDReply(raw)`: `self.reply_id, self.request_id = struct.unpack("HH", self.payload)`. -/
def parse (fuel : Nat) (raw : Bytes) : Parsed IFIDReply :=
  parseControl W fuel (fun p b => match structUnpack W.native [2, 2] b with
    | some [replyId, requestId] => some ⟨p, replyId, requestId⟩
    | _ => none) raw

end IFIDReply

/-! ### `CertChainRequest` -/

/-- `CertChainRequest`. -/
structure CertChainRequest where
  pkt : SCIONPacket
  ingressIf : Nat
  srcIsd : Nat
  srcAd : Nat
  isdId : Nat
  adId : Nat
  version : Nat
  deriving DecidableEq, Repr

namespace CertChainRequest
variable (W : Wire)

/-- `from_values(req_type, src, ingress_if, src_isd, src_ad, isd_id, ad_id, version)`. -/
def fromValues (reqType : Nat) (src : SCIONAddr) (ingressIf srcIsd srcAd isdId adId version : Nat) :
    Option CertChainRequest := do
  let payload ← packUints .big
    [(2, ingressIf), (2, srcIsd), (8, srcAd), (2, isdId), (8, adId), (4, version)]
  let pkt ← controlPacket W false src reqType reqType (some payload)
  pure ⟨pkt, ingressIf, srcIsd, srcAd, isdId, adId, version⟩

/-- `pack()`, inherited. -/
def pack (r : CertChainRequest) : Option Bytes := r.pkt.pack

/-- `CertChainRequest(raw)`. -/
def parse (fuel : Nat) (raw : Bytes) : Parsed CertChainRequest :=
  parseControl W fuel (fun p b => match unpackUints .big [2, 2, 8, 2, 8, 4] b with
    | some [ingressIf, srcIsd, srcAd, isdId, adId, version] =>
        some ⟨p, ingressIf, srcIsd, srcAd, isdId, adId, version⟩
    | _ => none) raw

end CertChainRequest

/-! ### `CertChainReply` -/

/-- `CertChainReply`. -/
structure CertChainReply where
  pkt : SCIONPacket
  isdId : Nat
  adId : Nat
  version : Nat
  certChain : Bytes
  deriving DecidableEq, Repr

namespace CertChainReply
variable (W : Wire)

/-- `CertChainReply.MIN_LEN`. -/
def minLen : Nat := 14

/-- `from_values(dst, isd_id, ad_id, version, cert_chain)`. -/
def fromValues (dst : SCIONAddr) (isdId adId version : Nat) (certChain : Bytes) :
    Option CertChainReply := do
  let fixed ← packUints .big [(2, isdId), (8, adId), (4, version)]
  let pkt ← controlPacket W true dst PacketType.certChainRep PacketType.certChainRep
    (some (fixed ++ certChain))
  pure ⟨pkt, isdId, adId, version, certChain⟩

/-- `pack()`, inherited. -/
def pack (r : CertChainReply) : Option Bytes := r.pkt.pack

/-- `CertChainReply(raw)`: `cert_chain = self.payload[CertChainReply.MIN_LEN:]`. -/
def parse (fuel : Nat) (raw : Bytes) : Parsed CertChainReply :=
  parseControl W fuel (fun p b => match unpackUints .big [2, 8, 4] b with
    | some [isdId, adId, version] => some ⟨p, isdId, adId, version, b.drop minLen⟩
    | _ => none) raw

end CertChainReply

/-! ### `TRCRequest` -/

/-- `TRCRequest`. -/
structure TRCRequest where
  pkt : SCIONPacket
  ingressIf : Nat
  srcIsd : Nat
  srcAd : Nat
  isdId : Nat
  version : Nat
  deriving DecidableEq, Repr

namespace TRCRequest
variable (W : Wire)

/-- `from_values(req_type, src, ingress_if, src_isd, src_ad, isd_id, version)`. -/
def fromValues (reqType : Nat) (src : SCIONAddr) (ingressIf srcIsd srcAd isdId version : Nat) :
    Option TRCRequest := do
  let payload ← packUints .big [(2, ingressIf), (2, srcIsd), (8, srcAd), (2, isdId), (4, version)]
  let pkt ← controlPacket W false src reqType reqType (some payload)
  pure ⟨pkt, ingressIf, srcIsd, srcAd, isdId, version⟩

/-- `pack()`, inherited. -/
def pack (r : TRCRequest) : Option Bytes := r.pkt.pack

/-- `TRCRequest(raw)`. -/
def parse (fuel : Nat) (raw : Bytes) : Parsed TRCRequest :=
  parseControl W fuel (fun p b => match unpackUints .big [2, 2, 8, 2, 4] b with
    | some [ingressIf, srcIsd, srcAd, isdId, version] =>
        some ⟨p, ingressIf, srcIsd, srcAd, isdId, version⟩
    | _ => none) raw

end TRCRequest

/-! ### `TRCReply` -/

/-- `TRCReply`. -/
structure TRCReply where
  pkt : SCIONPacket
  isdId : Nat
  version : Nat
  trc : Bytes
  deriving DecidableEq, Repr

namespace TRCReply
variable (W : Wire)

/-- `TRCReply.MIN_LEN`. -/
def minLen : Nat := 6

/-- `from_values(dst, isd_id, version, trc)`. -/
def fromValues (dst : SCIONAddr) (isdId version : Nat) (trc : Bytes) : Option TRCReply := do
  let fixed ← packUints .big [(2, isdId), (4, version)]
  let pkt ← controlPacket W true dst PacketType.trcRep PacketType.trcRep (some (fixed ++ trc))
  pure ⟨pkt, isdId, version, trc⟩

/-- `pack()`, inherited. -/
def pack (r : TRCReply) : Option Bytes := r.pkt.pack

/-- `TRCReply(raw)`: `trc = self.payload[TRCReply.MIN_LEN:]`. -/
def parse (fuel : Nat) (raw : Bytes) : Parsed TRCReply :=
  parseControl W fuel (fun p b => match unpackUints .big [2, 4] b with
    | some [isdId, version] => some ⟨p, isdId, version, b.drop minLen⟩
    | _ => none) raw

end TRCReply

end ScionPacket
