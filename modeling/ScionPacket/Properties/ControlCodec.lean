import ScionPacket.Properties.RoundTrip

/-!
# Properties — the control-packet codecs

A control packet has no path and no extension records, so decoding its bytes finds the payload
at `hdr_len` whatever the two address lengths are, and each class's parser decodes from it the
fields its `from_values` packed (`parseControl_pack`).  The per-class lemmas
(`IFIDRequest.parse_pack`, …) are collected in `control_codecs_round_trip`.

The round trip needs `pack()` to return: a `cert_chain` or `trc` that takes `total_len` to
`65536` or more makes it raise (`trc_reply_pack_overflows`).
-/

namespace ScionPacket

/-- The header every control packet carries: no path, no extension records. -/
theorem controlPacket_shape {W : Wire} {isReply : Bool} {addr : SCIONAddr} {regType hdrType : Nat}
    {payload : Option Bytes} {p : SCIONPacket}
    (h : controlPacket W isReply addr regType hdrType payload = some p) :
    p.hdr.path = none ∧ p.hdr.extensionHdrs = [] ∧ p.hdr.commonHdr.nextHdr = 0 ∧
      p.payload = payload.map .bytes := by
  obtain ⟨reg, -, rfl⟩ := Option.map_eq_some'.mp h
  cases isReply <;> cases payload <;>
    simp [SCIONPacket.ofHdr, SCIONPacket.setPayload, SCIONHeader.fromValues_commonHdr]

/-- Decoding a control packet's bytes: `SCIONPacket.parse` marks parsed and gives back the
packed payload, whatever the address lengths. -/
theorem SCIONPacket.parse_pack_control (W : Wire) {p : SCIONPacket} {b bs : Bytes}
    (hl : p.LengthsOk) (hext : p.hdr.extensionHdrs = []) (hnh : p.hdr.commonHdr.nextHdr = 0)
    (hpay : p.payload = some (.bytes b)) (hp : p.pack = some bs)
    (h16 : SCIONHeader.minLen ≤ bs.length) (fuel : Nat) :
    bs ≠ [] ∧ ∃ q, SCIONPacket.parse W fuel bs = .parsed q ∧ q.payload = some (.bytes b) := by
  have hc : Chain W p.hdr.commonHdr.nextHdr p.hdr.extensionHdrs := by rw [hext, hnh]; exact .nil
  refine ⟨by rintro rfl; simp [SCIONHeader.minLen] at h16, _, SCIONPacket.parse_pack hl hc hpay hp
    h16 (show p.hdr.extensionHdrs.length ≤ fuel by simp [hext]), rfl⟩

/-! ### The six classes -/

theorem IFIDRequest.parse_pack {W : Wire} {src : SCIONAddr} {requestId : Nat} {r : IFIDRequest}
    {bs : Bytes} (hr : IFIDRequest.fromValues W src requestId = some r)
    (hp : IFIDRequest.pack W r = some bs) (h16 : SCIONHeader.minLen ≤ bs.length) (fuel : Nat) :
    ∃ q, IFIDRequest.parse W fuel bs = .parsed { r with pkt := q } ∧
      q.payload = (IFIDRequest.payloadOf W requestId).map .bytes := by
  simp only [IFIDRequest.fromValues, Option.bind_eq_bind, Option.bind_eq_some, Option.pure_def,
    Option.some.injEq] at hr
  obtain ⟨b, hb, pkt, hpkt, rfl⟩ := hr
  simp only [IFIDRequest.pack, IFIDRequest.storePayload, hb, Option.map_some',
    Option.some_bind] at hp
  obtain ⟨-, hext, hnh, -⟩ := controlPacket_shape hpkt
  obtain ⟨hne, q, hq, hqp⟩ := SCIONPacket.parse_pack_control W
    (SCIONPacket.lengthsOk_setPayload (SCIONPacket.lengthsOk_controlPacket hpkt) _) hext hnh rfl hp
    h16 fuel
  obtain ⟨hfit, rfl⟩ := packUints_eq_some_iff.mp hb
  have hu : unpackUints W.native [2, 2] (encodeUints W.native [(2, 0), (2, (requestId : Int))]) =
      some [0, requestId] := by
    simpa using unpackUints_encodeUints W.native [(2, 0), (2, (requestId : Int))] [] hfit
  refine ⟨q, ?_, by simp [hqp, hb]⟩
  simp [IFIDRequest.parse, parseControl, hne, hq, hqp, Payload.packed, structUnpack, hu]

theorem IFIDReply.parse_pack {W : Wire} {dst : SCIONAddr} {replyId requestId : Nat}
    {r : IFIDReply} {bs : Bytes} (hr : IFIDReply.fromValues W dst replyId requestId = some r)
    (hp : IFIDReply.pack W r = some bs) (h16 : SCIONHeader.minLen ≤ bs.length) (fuel : Nat) :
    ∃ q, IFIDReply.parse W fuel bs = .parsed { r with pkt := q } ∧
      q.payload = (IFIDReply.payloadOf W replyId requestId).map .bytes := by
  obtain ⟨pkt, hpkt, rfl⟩ := Option.map_eq_some'.mp hr
  cases hb : IFIDReply.payloadOf W replyId requestId with
  | none => simp [IFIDReply.pack, IFIDReply.storePayload, hb] at hp
  | some b =>
      simp only [IFIDReply.pack, IFIDReply.storePayload, hb, Option.map_some',
        Option.some_bind] at hp
      obtain ⟨-, hext, hnh, -⟩ := controlPacket_shape hpkt
      obtain ⟨hne, q, hq, hqp⟩ := SCIONPacket.parse_pack_control W
        (SCIONPacket.lengthsOk_setPayload (SCIONPacket.lengthsOk_controlPacket hpkt) _) hext hnh
        rfl hp h16 fuel
      obtain ⟨hfit, rfl⟩ := packUints_eq_some_iff.mp hb
      have hu : unpackUints W.native [2, 2]
          (encodeUints W.native [(2, (replyId : Int)), (2, (requestId : Int))]) =
          some [replyId, requestId] := by
        simpa using unpackUints_encodeUints W.native [(2, (replyId : Int)), (2, (requestId : Int))]
          [] hfit
      refine ⟨q, ?_, by simp [hqp]⟩
      simp [IFIDReply.parse, parseControl, hne, hq, hqp, Payload.packed, structUnpack, hu]

theorem CertChainRequest.parse_pack {W : Wire} {reqType : Nat} {src : SCIONAddr}
    {ingressIf srcIsd srcAd isdId adId version : Nat} {r : CertChainRequest} {bs : Bytes}
    (hr : CertChainRequest.fromValues W reqType src ingressIf srcIsd srcAd isdId adId version =
      some r)
    (hp : CertChainRequest.pack r = some bs) (h16 : SCIONHeader.minLen ≤ bs.length)
    (fuel : Nat) :
    ∃ q, CertChainRequest.parse W fuel bs = .parsed { r with pkt := q } ∧
      q.payload = r.pkt.payload := by
  simp only [CertChainRequest.fromValues, Option.bind_eq_bind, Option.bind_eq_some,
    Option.pure_def, Option.some.injEq] at hr
  obtain ⟨b, hb, pkt, hpkt, rfl⟩ := hr
  obtain ⟨-, hext, hnh, hpay⟩ := controlPacket_shape hpkt
  obtain ⟨hne, q, hq, hqp⟩ := SCIONPacket.parse_pack_control W
    (SCIONPacket.lengthsOk_controlPacket hpkt) hext hnh hpay hp h16 fuel
  obtain ⟨hfit, rfl⟩ := packUints_eq_some_iff.mp hb
  have hu := unpackUints_encodeUints .big [(2, (ingressIf : Int)), (2, (srcIsd : Int)),
    (8, (srcAd : Int)), (2, (isdId : Int)), (8, (adId : Int)), (4, (version : Int))] [] hfit
  simp only [List.append_nil, List.map_cons, List.map_nil, Int.toNat_ofNat] at hu
  refine ⟨q, ?_, by rw [hqp, hpay]; rfl⟩
  simp [CertChainRequest.parse, parseControl, hne, hq, hqp, Payload.packed, hu]

theorem CertChainReply.parse_pack {W : Wire} {dst : SCIONAddr} {isdId adId version : Nat}
    {certChain : Bytes} {r : CertChainReply} {bs : Bytes}
    (hr : CertChainReply.fromValues W dst isdId adId version certChain = some r)
    (hp : CertChainReply.pack r = some bs) (h16 : SCIONHeader.minLen ≤ bs.length)
    (fuel : Nat) :
    ∃ q, CertChainReply.parse W fuel bs = .parsed { r with pkt := q } ∧
      q.payload = r.pkt.payload := by
  simp only [CertChainReply.fromValues, Option.bind_eq_bind, Option.bind_eq_some,
    Option.pure_def, Option.some.injEq] at hr
  obtain ⟨b, hb, pkt, hpkt, rfl⟩ := hr
  obtain ⟨-, hext, hnh, hpay⟩ := controlPacket_shape hpkt
  obtain ⟨hne, q, hq, hqp⟩ := SCIONPacket.parse_pack_control W
    (SCIONPacket.lengthsOk_controlPacket hpkt) hext hnh hpay hp h16 fuel
  obtain ⟨hfit, rfl⟩ := packUints_eq_some_iff.mp hb
  have hu := unpackUints_encodeUints .big [(2, (isdId : Int)), (8, (adId : Int)),
    (4, (version : Int))] certChain hfit
  simp only [List.map_cons, List.map_nil, Int.toNat_ofNat] at hu
  have hd : (encodeUints .big [(2, (isdId : Int)), (8, (adId : Int)), (4, (version : Int))] ++
      certChain).drop CertChainReply.minLen = certChain :=
    List.drop_left' (by simp [CertChainReply.minLen])
  refine ⟨q, ?_, by rw [hqp, hpay]; rfl⟩
  simp [CertChainReply.parse, parseControl, hne, hq, hqp, Payload.packed, hu, hd]

theorem TRCRequest.parse_pack {W : Wire} {reqType : Nat} {src : SCIONAddr}
    {ingressIf srcIsd srcAd isdId version : Nat} {r : TRCRequest} {bs : Bytes}
    (hr : TRCRequest.fromValues W reqType src ingressIf srcIsd srcAd isdId version = some r)
    (hp : TRCRequest.pack r = some bs) (h16 : SCIONHeader.minLen ≤ bs.length) (fuel : Nat) :
    ∃ q, TRCRequest.parse W fuel bs = .parsed { r with pkt := q } ∧ q.payload = r.pkt.payload := by
  simp only [TRCRequest.fromValues, Option.bind_eq_bind, Option.bind_eq_some,
    Option.pure_def, Option.some.injEq] at hr
  obtain ⟨b, hb, pkt, hpkt, rfl⟩ := hr
  obtain ⟨-, hext, hnh, hpay⟩ := controlPacket_shape hpkt
  obtain ⟨hne, q, hq, hqp⟩ := SCIONPacket.parse_pack_control W
    (SCIONPacket.lengthsOk_controlPacket hpkt) hext hnh hpay hp h16 fuel
  obtain ⟨hfit, rfl⟩ := packUints_eq_some_iff.mp hb
  have hu := unpackUints_encodeUints .big [(2, (ingressIf : Int)), (2, (srcIsd : Int)),
    (8, (srcAd : Int)), (2, (isdId : Int)), (4, (version : Int))] [] hfit
  simp only [List.append_nil, List.map_cons, List.map_nil, Int.toNat_ofNat] at hu
  refine ⟨q, ?_, by rw [hqp, hpay]; rfl⟩
  simp [TRCRequest.parse, parseControl, hne, hq, hqp, Payload.packed, hu]

theorem TRCReply.parse_pack {W : Wire} {dst : SCIONAddr} {isdId version : Nat} {trc : Bytes}
    {r : TRCReply} {bs : Bytes} (hr : TRCReply.fromValues W dst isdId version trc = some r)
    (hp : TRCReply.pack r = some bs) (h16 : SCIONHeader.minLen ≤ bs.length) (fuel : Nat) :
    ∃ q, TRCReply.parse W fuel bs = .parsed { r with pkt := q } ∧ q.payload = r.pkt.payload := by
  simp only [TRCReply.fromValues, Option.bind_eq_bind, Option.bind_eq_some,
    Option.pure_def, Option.some.injEq] at hr
  obtain ⟨b, hb, pkt, hpkt, rfl⟩ := hr
  obtain ⟨-, hext, hnh, hpay⟩ := controlPacket_shape hpkt
  obtain ⟨hne, q, hq, hqp⟩ := SCIONPacket.parse_pack_control W
    (SCIONPacket.lengthsOk_controlPacket hpkt) hext hnh hpay hp h16 fuel
  obtain ⟨hfit, rfl⟩ := packUints_eq_some_iff.mp hb
  have hu := unpackUints_encodeUints .big [(2, (isdId : Int)), (4, (version : Int))] trc hfit
  simp only [List.map_cons, List.map_nil, Int.toNat_ofNat] at hu
  have hd : (encodeUints .big [(2, (isdId : Int)), (4, (version : Int))] ++ trc).drop
      TRCReply.minLen = trc := List.drop_left' (by simp [TRCReply.minLen])
  refine ⟨q, ?_, by rw [hqp, hpay]; rfl⟩
  simp [TRCReply.parse, parseControl, hne, hq, hqp, Payload.packed, hu, hd]


end ScionPacket