import ScionPacket.Scion.Control

/-!
# Properties — dispatching control packets on the registry

`get_addr_from_type` addresses a control packet to the registry number of its type: a request
to the `TYPES_DST` number, a reply from the `TYPES_SRC` number.  `get_type` reads the type back
from the two addresses, the source through `TYPES_SRC_INV` first, then the destination through
`TYPES_DST_INV`.

The two tables are read back exactly (`typesSrc_lookup_inv`, `typesDst_lookup_inv`): no number
is given to two types of one table, and the one type in both tables, `PATH_MGMT`, has one
number in both.  So, provided the host builder and `to_int` agree on the registry numbers,

* a reply dispatches to the type it was built for;
* a request dispatches to its type unless its own source address is a `TYPES_SRC` number: then
  the reply type of that number wins, since the source is looked up first
  (`dispatch_control_packets`).

The two tables share numbers (`TYPES_SRC[CERT_CHAIN_REP]` is `TYPES_DST[CERT_CHAIN_REQ]`), so
the exception is met by a server that sends a request from its registry address.
-/

namespace ScionPacket

/-! ### The tables -/

theorem typesSrc_lookup_inv : ∀ e ∈ typesSrc, typesSrcInv.lookup e.2 = some e.1 := by decide

theorem typesDst_lookup_inv : ∀ e ∈ typesDst, typesDstInv.lookup e.2 = some e.1 := by decide

theorem typesSrc_lookup : ∀ e ∈ typesSrc, typesSrc.lookup e.1 = some e.2 := by decide

/-- A `TYPES_DST` type is either in `TYPES_SRC` with the same number, or only in `TYPES_DST`. -/
theorem typesDst_lookup : ∀ e ∈ typesDst,
    typesSrc.lookup e.1 = some e.2 ∨
      typesSrc.lookup e.1 = none ∧ typesDst.lookup e.1 = some e.2 := by decide

section
variable (W : Wire)

theorem getAddrFromType_of_src {e : Nat × Nat} (he : e ∈ typesSrc) :
    getAddrFromType W e.1 = some (W.hostAddr e.2) := by
  simp [getAddrFromType, typesSrc_lookup e he]

theorem getAddrFromType_of_dst {e : Nat × Nat} (he : e ∈ typesDst) :
    getAddrFromType W e.1 = some (W.hostAddr e.2) := by
  rcases typesDst_lookup e he with h | ⟨h, hd⟩
  · simp [getAddrFromType, h]
  · simp [getAddrFromType, h, hd]

/-! ### Reading the type back -/

/-- A packet sent from the registry address of a `TYPES_SRC` entry dispatches to its type. -/
theorem getType_of_src {p : SCIONPacket} {e : Nat × Nat} (he : e ∈ typesSrc)
    (hW : W.hostInt (W.hostAddr e.2) = e.2) (hs : p.hdr.srcAddr = W.hostAddr e.2) :
    getType W p = e.1 := by
  simp [getType, hs, hW, typesSrc_lookup_inv e he]

/-- A packet sent to the registry address of a `TYPES_DST` entry dispatches to its type unless
its source is a `TYPES_SRC` number. -/
theorem getType_of_dst {p : SCIONPacket} {e : Nat × Nat} (he : e ∈ typesDst)
    (hW : W.hostInt (W.hostAddr e.2) = e.2) (hd : p.hdr.dstAddr = W.hostAddr e.2) :
    getType W p = (typesSrcInv.lookup (W.hostInt p.hdr.srcAddr)).getD e.1 := by
  cases hs : typesSrcInv.lookup (W.hostInt p.hdr.srcAddr) <;>
    simp [getType, hs, hd, hW, typesDst_lookup_inv e he]

/-- The addresses of a control packet: the registry address on the side it travels to. -/
theorem controlPacket_addrs {isReply : Bool} {addr : SCIONAddr} {regType hdrType : Nat}
    {payload : Option Bytes} {p : SCIONPacket}
    (hp : controlPacket W isReply addr regType hdrType payload = some p) :
    ∃ reg, getAddrFromType W regType = some reg ∧
      p.hdr.srcAddr = (if isReply then reg else addr) ∧
      p.hdr.dstAddr = (if isReply then addr else reg) := by
  obtain ⟨reg, hreg, rfl⟩ := Option.map_eq_some'.mp hp
  refine ⟨reg, hreg, ?_⟩
  cases isReply <;> cases payload <;> simp [SCIONPacket.ofHdr, SCIONPacket.setPayload_hdr]

/-- The type `get_type` reads from a control packet built for a registry type: the type itself
for a reply, and for a request the type unless the request's source is a `TYPES_SRC` number. -/
theorem getType_controlPacket
    (hW : ∀ e ∈ typesSrc ++ typesDst, W.hostInt (W.hostAddr e.2) = e.2)
    {isReply : Bool} {addr : SCIONAddr} {regType hdrType : Nat} {payload : Option Bytes}
    {p : SCIONPacket} (hreg : regType ∈ (if isReply then typesSrc else typesDst).map Prod.fst)
    (hp : controlPacket W isReply addr regType hdrType payload = some p) :
    getType W p =
      if isReply then regType else (typesSrcInv.lookup (W.hostInt addr)).getD regType := by
  obtain ⟨reg, hr, hs, hd⟩ := controlPacket_addrs W hp
  cases isReply with
  | true =>
      obtain ⟨e, he, rfl⟩ := List.mem_map.mp hreg
      obtain rfl := Option.some.inj ((getAddrFromType_of_src W he).symm.trans hr)
      exact getType_of_src W he (hW e (List.mem_append_left _ he)) hs
  | false =>
      obtain ⟨e, he, rfl⟩ := List.mem_map.mp hreg
      obtain rfl := Option.some.inj ((getAddrFromType_of_dst W he).symm.trans hr)
      simpa [hs] using getType_of_dst W he (hW e (List.mem_append_right _ he)) hd

end

/-- **Control packets dispatch to their type.**  Let the registry's host builder and `to_int`
agree on the registry numbers.  Then `get_type` returns `IFID_REP`, `CERT_CHAIN_REP` and
`TRC_REP` for every reply the three reply classes build, whatever the destination; and for
every request (`IFIDRequest`, and `CertChainRequest` or `TRCRequest` of any `TYPES_DST` type)
it returns the request's type, unless the source address is a `TYPES_SRC` number, when it
returns that number's reply type. -/
theorem dispatch_control_packets (W : Wire)
    (hW : ∀ e ∈ typesSrc ++ typesDst, W.hostInt (W.hostAddr e.2) = e.2) :
    (∀ src requestId r, IFIDRequest.fromValues W src requestId = some r →
      getType W r.pkt = (typesSrcInv.lookup (W.hostInt src)).getD PacketType.ifidReq) ∧
    (∀ dst replyId requestId r, IFIDReply.fromValues W dst replyId requestId = some r →
      getType W r.pkt = PacketType.ifidRep) ∧
    (∀ reqType src ingressIf srcIsd srcAd isdId adId version r,
      reqType ∈ typesDst.map Prod.fst →
      CertChainRequest.fromValues W reqType src ingressIf srcIsd srcAd isdId adId version =
        some r → getType W r.pkt = (typesSrcInv.lookup (W.hostInt src)).getD reqType) ∧
    (∀ dst isdId adId version certChain r,
      CertChainReply.fromValues W dst isdId adId version certChain = some r →
      getType W r.pkt = PacketType.certChainRep) ∧
    (∀ reqType src ingressIf srcIsd srcAd isdId version r, reqType ∈ typesDst.map Prod.fst →
      TRCRequest.fromValues W reqType src ingressIf srcIsd srcAd isdId version = some r →
      getType W r.pkt = (typesSrcInv.lookup (W.hostInt src)).getD reqType) ∧
    (∀ dst isdId version trc r, TRCReply.fromValues W dst isdId version trc = some r →
      getType W r.pkt = PacketType.trcRep) := by
  refine ⟨fun _ _ r h => ?_, fun _ _ _ r h => ?_, fun _ _ _ _ _ _ _ _ r hreg h => ?_,
    fun _ _ _ _ _ r h => ?_, fun _ _ _ _ _ _ _ r hreg h => ?_, fun _ _ _ _ r h => ?_⟩
  all_goals
    simp only [IFIDRequest.fromValues, IFIDReply.fromValues, CertChainRequest.fromValues,
      CertChainReply.fromValues, TRCRequest.fromValues, TRCReply.fromValues,
      Option.bind_eq_bind, Option.bind_eq_some, Option.map_eq_some', Option.pure_def,
      Option.some.injEq] at h
  all_goals first
    | obtain ⟨_, -, _, hc, rfl⟩ := h
      exact getType_controlPacket W hW (by first | assumption | decide) hc
    | obtain ⟨_, hc, rfl⟩ := h
      exact getType_controlPacket W hW (by decide) hc

/-- With host numbers as four big-endian bytes, every `IFIDReply` dispatches to `IFID_REP`. -/
theorem dispatch_control_packets_ifid_reply :
    (∀ e ∈ typesSrc ++ typesDst, Wire.sample.hostInt (Wire.sample.hostAddr e.2) = e.2) ∧
    ∀ dst replyId requestId r, IFIDReply.fromValues Wire.sample dst replyId requestId = some r →
      getType Wire.sample r.pkt = PacketType.ifidRep := by
  have hW : ∀ e ∈ typesSrc ++ typesDst, Wire.sample.hostInt (Wire.sample.hostAddr e.2) = e.2 := by
    decide
  exact ⟨hW, (dispatch_control_packets Wire.sample hW).2.1⟩

/-- An `IFIDRequest` sent from the certificate server's registry address dispatches as
`CERT_CHAIN_REP`. -/
example : ∃ r, IFIDRequest.fromValues Wire.sample (Wire.sample.hostAddr 33611786) 1 = some r ∧
    getType Wire.sample r.pkt = PacketType.certChainRep := ⟨_, rfl, by decide⟩

/-- Dispatch reads the addresses `parse` cuts, so it is only as good as the codec: an
`IFIDReply` to a two-byte address dispatches to `IFID_REP`, but its bytes, parsed, to `DATA`,
since `parse` takes the first two bytes of the four-byte registry address as the source. -/
example : ∃ r bs q, IFIDReply.fromValues Wire.sample ⟨[1, 2]⟩ 3 4 = some r ∧
    IFIDReply.pack Wire.sample r = some bs ∧ SCIONPacket.parse Wire.sample 0 bs = .parsed q ∧
    getType Wire.sample r.pkt = PacketType.ifidRep ∧ getType Wire.sample q = PacketType.data :=
  ⟨_, _, _, rfl, rfl, rfl, by decide, by decide⟩

end ScionPacket
