import ScionPacket.Scion.Control

/-!
# Properties — length bookkeeping

`scion.py` keeps `total_len`, `hdr_len` and `payload_len` by hand: `from_values` adds the path
and the extension records, `set_payload` moves `total_len` by the change in payload length, and
the header methods leave the three alone.

* `LengthsOk`: `total_len = len(hdr) + payload_len`, `payload_len` is the payload's length, and
  `hdr_len` covers the common header, the two addresses and the path.  Every constructor
  establishes it (`lengthsOk_of_built`) and every returning method keeps it
  (`lengthsOk_run`), so every packet a run reaches from a constructor packs to `total_len`
  bytes that carry `total_len` in bytes 2–3 (`lengths_consistent_along_runs`).  The two IFID
  classes' own `pack()` stores the payload first and writes `len(hdr) + 4` bytes
  (`ifid_pack_lengths_consistent`).
* `parse` checks none of this.  It takes `hdr_len` and `total_len` as they come, and its
  `set_payload` makes `payload_len` the length of what follows the header
  (`parse_length_fields`, `parse_accepts_inconsistent_lengths`).
-/

namespace ScionPacket

/-! ### What the methods change -/

/-- A returning header method keeps `total_len`, `hdr_len`, the extension records, the path's
length and the two addresses' total length. -/
theorem HdrOp.run_keeps_lengths {W : Wire} {op : HdrOp} {h h' : SCIONHeader}
    (hr : op.run W h = .ok h') :
    h'.commonHdr.totalLen = h.commonHdr.totalLen ∧ h'.commonHdr.hdrLen = h.commonHdr.hdrLen ∧
      h'.extensionHdrs = h.extensionHdrs ∧ h'.pathLen = h.pathLen ∧
      h'.srcAddr.pack.length + h'.dstAddr.pack.length =
        h.srcAddr.pack.length + h.dstAddr.pack.length := by
  cases op with
  | increaseOf n => cases hr; exact ⟨rfl, rfl, rfl, rfl, rfl⟩
  | setDownpath =>
      cases hr
      obtain ⟨path, e, hl⟩ := SCIONHeader.setDownpath_eq W h
      rw [e]
      exact ⟨rfl, rfl, rfl, by simp [SCIONHeader.pathLen, hl], rfl⟩
  | reverse =>
      cases hp : h.path with
      | none => rw [HdrOp.run, SCIONHeader.reverse_of_no_path W h hp] at hr; cases hr
      | some p =>
          rw [HdrOp.run, SCIONHeader.reverse_of_path W h hp] at hr
          cases hr
          refine ⟨rfl, rfl, rfl, by simp [SCIONHeader.pathLen, hp], Nat.add_comm _ _⟩

/-! ### The invariant -/

namespace SCIONPacket

/-- The length fields agree with what the packet holds. -/
structure LengthsOk (p : SCIONPacket) : Prop where
  totalLen_eq : p.hdr.commonHdr.totalLen = p.hdr.len + p.payloadLen
  payloadLen_eq : p.payloadLen = (p.payload.map Payload.len).getD 0
  hdrLen_eq : p.hdr.commonHdr.hdrLen =
    SCIONCommonHdr.len + p.hdr.srcAddr.pack.length + p.hdr.dstAddr.pack.length + p.hdr.pathLen

theorem lengthsOk_ofHdr_fromValues (src dst : SCIONAddr) (t : Nat) (path : Option PathBase)
    (exts : List ExtHdr) (nh : Nat) :
    (ofHdr (SCIONHeader.fromValues src dst t path exts nh)).LengthsOk := by
  refine ⟨?_, rfl, ?_⟩ <;>
    simp [ofHdr, SCIONHeader.len, SCIONHeader.fromValues_commonHdr, SCIONHeader.pathLen]

theorem lengthsOk_setPayload {p : SCIONPacket} (hp : p.LengthsOk) (pl : Payload) :
    (p.setPayload pl).LengthsOk := by
  obtain ⟨ht, -, hh⟩ := hp
  refine ⟨?_, rfl, hh⟩
  simp only [setPayload_totalLen, setPayload_payloadLen, setPayload_hdr_len, ht]
  omega

theorem lengthsOk_run {W : Wire} {op : PktOp} {p p' : SCIONPacket} (hr : op.run W p = .ok p')
    (hp : p.LengthsOk) : p'.LengthsOk := by
  cases op with
  | setPayload pl => cases hr; exact lengthsOk_setPayload hp pl
  | hdr op =>
      simp only [PktOp.run] at hr
      split at hr
      · cases hr
        obtain ⟨ht, hh, he, hpl, ha⟩ := HdrOp.run_keeps_lengths ‹_›
        obtain ⟨t, pl, hhl⟩ := hp
        refine ⟨?_, pl, ?_⟩ <;> simp only [SCIONHeader.len, ht, hh, he, hpl] at * <;> omega
      · cases hr

theorem lengthsOk_controlPacket {W : Wire} {isReply : Bool} {addr : SCIONAddr}
    {regType hdrType : Nat} {payload : Option Bytes} {p : SCIONPacket}
    (h : controlPacket W isReply addr regType hdrType payload = some p) : p.LengthsOk := by
  obtain ⟨reg, -, rfl⟩ := Option.map_eq_some'.mp h
  have hk : (ofHdr (if isReply then SCIONHeader.fromValues reg addr hdrType none [] 0
      else SCIONHeader.fromValues addr reg hdrType none [] 0)).LengthsOk := by
    split <;> exact lengthsOk_ofHdr_fromValues _ _ _ _ _ _
  cases payload
  · exact hk
  · exact lengthsOk_setPayload hk _

end SCIONPacket

/-- The packets the constructors return: `SCIONPacket.from_values`, and the packet of each of
the six control packets' `from_values`. -/
def Built (W : Wire) (p : SCIONPacket) : Prop :=
  (∃ src dst payload path extHdrs nextHdr pktType,
      p = SCIONPacket.fromValues src dst payload path extHdrs nextHdr pktType) ∨
    (∃ src requestId r, IFIDRequest.fromValues W src requestId = some r ∧ r.pkt = p) ∨
    (∃ dst replyId requestId r,
      IFIDReply.fromValues W dst replyId requestId = some r ∧ r.pkt = p) ∨
    (∃ reqType src ingressIf srcIsd srcAd isdId adId version r,
      CertChainRequest.fromValues W reqType src ingressIf srcIsd srcAd isdId adId version =
        some r ∧ r.pkt = p) ∨
    (∃ dst isdId adId version certChain r,
      CertChainReply.fromValues W dst isdId adId version certChain = some r ∧ r.pkt = p) ∨
    (∃ reqType src ingressIf srcIsd srcAd isdId version r,
      TRCRequest.fromValues W reqType src ingressIf srcIsd srcAd isdId version = some r ∧
        r.pkt = p) ∨
    (∃ dst isdId version trc r, TRCReply.fromValues W dst isdId version trc = some r ∧ r.pkt = p)

theorem SCIONPacket.lengthsOk_of_built {W : Wire} {p : SCIONPacket} (hb : Built W p) :
    p.LengthsOk := by
  rcases hb with ⟨src, dst, pl, path, exts, nh, t, rfl⟩ | ⟨_, _, r, h, rfl⟩ |
    ⟨_, _, _, r, h, rfl⟩ | ⟨_, _, _, _, _, _, _, _, r, h, rfl⟩ | ⟨_, _, _, _, _, r, h, rfl⟩ |
    ⟨_, _, _, _, _, _, _, r, h, rfl⟩ | ⟨_, _, _, _, r, h, rfl⟩
  · exact lengthsOk_setPayload (lengthsOk_ofHdr_fromValues _ _ _ _ _ _) pl
  all_goals
    simp only [IFIDRequest.fromValues, IFIDReply.fromValues, CertChainRequest.fromValues,
      CertChainReply.fromValues, TRCRequest.fromValues, TRCReply.fromValues,
      Option.bind_eq_bind, Option.bind_eq_some, Option.map_eq_some', Option.pure_def,
      Option.some.injEq] at h
  all_goals first
    | obtain ⟨_, -, _, hc, rfl⟩ := h; exact lengthsOk_controlPacket hc
    | obtain ⟨_, hc, rfl⟩ := h; exact lengthsOk_controlPacket hc

/-- A run from a constructor reaches only packets whose lengths agree. -/
theorem SCIONPacket.lengthsOk_runAll {W : Wire} {p₀ p : SCIONPacket} (hb : Built W p₀)
    {ops : List PktOp} (hr : PktOp.runAll W ops p₀ = .ok p) : p.LengthsOk :=
  Ran.runAll_invariant (A := fun _ => True)
    (fun _ _ _ _ hp hs => SCIONPacket.lengthsOk_run hs hp) (fun _ _ => trivial)
    (SCIONPacket.lengthsOk_of_built hb) hr

/-! ### What `pack()` writes -/

namespace SCIONPacket

/-- The bytes `pack()` returns for a packet whose lengths agree: `total_len` of them, carrying
`total_len` in bytes 2–3, with the common header, the addresses and the path as the first
`hdr_len`. -/
theorem pack_of_lengthsOk {p : SCIONPacket} (hl : p.LengthsOk) {bs : Bytes}
    (hp : p.pack = some bs) :
    (bs.length : Int) = p.hdr.commonHdr.totalLen ∧ uintVal .big (bs.slice 2 4) = bs.length ∧
      bs.take p.hdr.commonHdr.hdrLen = p.hdr.commonHdr.encode ++ p.hdr.srcAddr.pack ++
        p.hdr.dstAddr.pack ++ (p.hdr.path.map PathBase.pack).getD [] := by
  obtain ⟨ht, hpl, hh⟩ := hl
  obtain ⟨pl, hpay, hf, rfl⟩ := pack_eq_some.mp hp
  obtain ⟨-, hfit⟩ : FitsUint 2 p.hdr.commonHdr.totalLen :=
    hf (2, _) (by simp [SCIONCommonHdr.fields])
  have hpath := p.hdr.length_packedPath
  have hlen : ((p.hdr.commonHdr.encode ++ p.hdr.srcAddr.pack ++ p.hdr.dstAddr.pack ++
      (p.hdr.path.map PathBase.pack).getD [] ++ (p.hdr.extensionHdrs.map ExtHdr.pack).flatten ++
      pl.packed).length : Int) = p.hdr.commonHdr.totalLen := by
    simp only [List.length_append, SCIONCommonHdr.length_encode, hpath, ExtHdr.length_flatten_pack,
      Payload.length_packed, ht, hpl, hpay, SCIONHeader.len, hh, Option.map_some',
      Option.getD_some]
    push_cast
    omega
  have hsplit : p.hdr.commonHdr.encode ++ p.hdr.srcAddr.pack ++ p.hdr.dstAddr.pack ++
      (p.hdr.path.map PathBase.pack).getD [] ++ (p.hdr.extensionHdrs.map ExtHdr.pack).flatten ++
      pl.packed = p.hdr.commonHdr.encode ++ (p.hdr.srcAddr.pack ++ p.hdr.dstAddr.pack ++
      (p.hdr.path.map PathBase.pack).getD [] ++ (p.hdr.extensionHdrs.map ExtHdr.pack).flatten ++
      pl.packed) := by simp only [List.append_assoc]
  refine ⟨hlen, ?_, ?_⟩
  · rw [hsplit, Bytes.slice_append_left (by simp [SCIONCommonHdr.len]),
      SCIONCommonHdr.slice_encode_totalLen, uintVal_uintBytes, Nat.mod_eq_of_lt hfit, ← hsplit]
    omega
  · rw [List.append_assoc _ _ pl.packed, List.take_append_of_le_length (by simp [hh, hpath]; omega),
      List.take_of_length_le (by simp [hh, hpath]; omega)]


/-- Storing a payload `b` and packing: the bytes are `len(hdr) + len(b)` long and carry that
length in bytes 2–3. -/
theorem pack_setPayload_length {p : SCIONPacket} (hl : p.LengthsOk) {b bs : Bytes}
    (hp : (p.setPayload (.bytes b)).pack = some bs) :
    (bs.length : Int) = p.hdr.len + b.length ∧ uintVal .big (bs.slice 2 4) = bs.length := by
  have hl' := lengthsOk_setPayload hl (.bytes b)
  obtain ⟨ht, hu, -⟩ := pack_of_lengthsOk hl' hp
  refine ⟨?_, hu⟩
  rw [ht, hl'.totalLen_eq]
  simp [Payload.len]

/-- With the common header fitting its widths and a payload set, `pack()` returns. -/
theorem pack_isSome_of_fits {p : SCIONPacket} (hf : p.hdr.commonHdr.Fits)
    (hp : p.payload.isSome) : p.pack.isSome := by
  obtain ⟨pl, hpl⟩ := Option.isSome_iff_exists.mp hp
  simp [pack, hpl, SCIONHeader.pack, SCIONCommonHdr.pack_eq_encode hf]

end SCIONPacket

/-- **Lengths stay consistent along every run.**  Start from a packet a constructor returned and
call `set_payload`, `increase_of`, `set_downpath` and `reverse` in any order; in every packet a
returning run reaches, `total_len = hdr_len + Σ len(ext) + payload_len` and `payload_len` is the
current payload's length.  Whatever `pack()` returns is `total_len` bytes long and carries that
value in bytes 2–3, and its first `hdr_len` bytes are the common header, the two addresses and
the path; it returns whenever the common header fits and a payload is set. -/
theorem lengths_consistent_along_runs (W : Wire) (p₀ : SCIONPacket) (hb : Built W p₀)
    (ops : List PktOp) (p : SCIONPacket) (hr : PktOp.runAll W ops p₀ = .ok p) :
    p.hdr.commonHdr.totalLen =
        p.hdr.commonHdr.hdrLen + (p.hdr.extensionHdrs.map ExtHdr.len).sum + p.payloadLen ∧
      p.payloadLen = (p.payload.map Payload.len).getD 0 ∧
      (∀ bs, p.pack = some bs → (bs.length : Int) = p.hdr.commonHdr.totalLen ∧
        uintVal .big (bs.slice 2 4) = bs.length ∧
        bs.take p.hdr.commonHdr.hdrLen = p.hdr.commonHdr.encode ++ p.hdr.srcAddr.pack ++
          p.hdr.dstAddr.pack ++ (p.hdr.path.map PathBase.pack).getD []) ∧
      (p.hdr.commonHdr.Fits → p.payload.isSome → p.pack.isSome) := by
  have hl := SCIONPacket.lengthsOk_runAll hb hr
  have ht := hl.totalLen_eq
  rw [SCIONHeader.len, Int.ofNat_add] at ht
  exact ⟨ht, hl.payloadLen_eq, fun _ => SCIONPacket.pack_of_lengthsOk hl,
    SCIONPacket.pack_isSome_of_fits⟩

theorem lengths_consistent_along_runs_set_payload :
    let p₀ := SCIONPacket.fromValues ⟨[1]⟩ ⟨[2, 3]⟩ (.bytes [7]) none [] 0 0
    let p := p₀.setPayload (.bytes [4, 5])
    Built Wire.sample p₀ ∧ PktOp.runAll Wire.sample [.setPayload (.bytes [4, 5])] p₀ = .ok p ∧
    (p.hdr.commonHdr.totalLen =
        p.hdr.commonHdr.hdrLen + (p.hdr.extensionHdrs.map ExtHdr.len).sum + p.payloadLen ∧
      p.payloadLen = (p.payload.map Payload.len).getD 0 ∧
      (∀ bs, p.pack = some bs → (bs.length : Int) = p.hdr.commonHdr.totalLen ∧
        uintVal .big (bs.slice 2 4) = bs.length ∧
        bs.take p.hdr.commonHdr.hdrLen = p.hdr.commonHdr.encode ++ p.hdr.srcAddr.pack ++
          p.hdr.dstAddr.pack ++ (p.hdr.path.map PathBase.pack).getD []) ∧
      (p.hdr.commonHdr.Fits → p.payload.isSome → p.pack.isSome)) :=
  have hb : Built Wire.sample (SCIONPacket.fromValues ⟨[1]⟩ ⟨[2, 3]⟩ (.bytes [7]) none [] 0 0) :=
    .inl ⟨_, _, _, _, _, _, _, rfl⟩
  ⟨hb, rfl, lengths_consistent_along_runs Wire.sample _ hb [.setPayload (.bytes [4, 5])] _ rfl⟩

/-- **`IFIDRequest.pack()` and `IFIDReply.pack()` write consistent lengths.**  Both store the
four bytes of `struct.pack("HH", …)` as the payload and then pack the packet.  For a request or
a reply whose packet a run from a constructor reached, the bytes `pack()` returns are
`len(hdr) + 4` long and carry that length in bytes 2–3. -/
theorem ifid_pack_lengths_consistent (W : Wire) (p₀ : SCIONPacket) (hb : Built W p₀)
    (ops : List PktOp) (p : SCIONPacket) (hr : PktOp.runAll W ops p₀ = .ok p) :
    (∀ requestId bs, IFIDRequest.pack W ⟨p, requestId⟩ = some bs →
      (bs.length : Int) = p.hdr.len + 4 ∧ uintVal .big (bs.slice 2 4) = bs.length) ∧
    (∀ replyId requestId bs, IFIDReply.pack W ⟨p, replyId, requestId⟩ = some bs →
      (bs.length : Int) = p.hdr.len + 4 ∧ uintVal .big (bs.slice 2 4) = bs.length) := by
  have hl := SCIONPacket.lengthsOk_runAll hb hr
  refine ⟨fun _ bs hp => ?_, fun _ _ bs hp => ?_⟩
  all_goals
    simp only [IFIDRequest.pack, IFIDRequest.storePayload, IFIDRequest.payloadOf,
      IFIDReply.pack, IFIDReply.storePayload, IFIDReply.payloadOf, Option.bind_eq_some,
      Option.map_eq_some'] at hp
    obtain ⟨_, ⟨b, hpb, rfl⟩, hp⟩ := hp
    simpa [packUints_length hpb] using SCIONPacket.pack_setPayload_length hl hp

/-- An `IFIDReply` to a two-byte address: `from_values` stores no payload, and `pack()` writes
the four payload bytes after the header. -/
theorem ifid_pack_lengths_consistent_reply :
    ∃ r, IFIDReply.fromValues Wire.sample ⟨[1, 2]⟩ 3 4 = some r ∧ Built Wire.sample r.pkt ∧
      PktOp.runAll Wire.sample [] r.pkt = .ok r.pkt ∧
      ∀ bs, IFIDReply.pack Wire.sample ⟨r.pkt, 3, 4⟩ = some bs →
        (bs.length : Int) = r.pkt.hdr.len + 4 ∧ uintVal .big (bs.slice 2 4) = bs.length := by
  obtain ⟨r, hr⟩ : ∃ r, IFIDReply.fromValues Wire.sample ⟨[1, 2]⟩ 3 4 = some r := ⟨_, rfl⟩
  have hb : Built Wire.sample r.pkt := .inr (.inr (.inl ⟨_, _, _, r, hr, rfl⟩))
  exact ⟨r, hr, hb, rfl, (ifid_pack_lengths_consistent Wire.sample _ hb [] _ rfl).2 3 4⟩

/-! ### What `parse` leaves in the length fields -/

/-- `total_len` is read from bytes 2–3. -/
theorem SCIONCommonHdr.parse_totalLen {raw : Bytes} {ch : SCIONCommonHdr}
    (hl : SCIONHeader.minLen ≤ raw.length)
    (hc : SCIONCommonHdr.parse (raw.slice 0 SCIONCommonHdr.len) = some ch) :
    ch.totalLen = beVal (raw.slice 2 4) := by
  rw [SCIONCommonHdr.parse_of_length
    (by simp only [Bytes.length_slice, SCIONCommonHdr.len, SCIONHeader.minLen] at hl ⊢; omega)]
    at hc
  cases hc
  simp [SCIONCommonHdr.ofWords, SCIONCommonHdr.len, Bytes.slice, List.drop_take, List.take_take]

/-- **What `parse` checks of the lengths: nothing.**  On every buffer `SCIONPacket.parse` marks
parsed, the payload is what follows `len(hdr) = hdr_len + Σ len(ext)`, `payload_len` is its
length, and `total_len` is the value of bytes 2–3 plus however far the header overruns the
buffer.  So `total_len = len(hdr) + payload_len` exactly when bytes 2–3 hold `len(raw)`. -/
theorem parse_length_fields (W : Wire) (fuel : Nat) (raw : Bytes) (p : SCIONPacket)
    (hp : SCIONPacket.parse W fuel raw = .parsed p) :
    p.payload = some (.bytes (raw.drop p.hdr.len)) ∧ p.payloadLen = (raw.length - p.hdr.len : Nat) ∧
      p.hdr.commonHdr.totalLen = beVal (raw.slice 2 4) + (p.hdr.len - raw.length : Nat) ∧
      p.hdr.commonHdr.totalLen =
        p.hdr.len + p.payloadLen + ((beVal (raw.slice 2 4) : Int) - raw.length) := by
  obtain ⟨-, hdr, hh, rfl⟩ := SCIONPacket.parse_eq_parsed.mp hp
  obtain ⟨hl, ch, s, hc, -, rfl⟩ := (SCIONHeader.parse_eq_parsed W).mp hh
  have ht := SCIONCommonHdr.parse_totalLen hl hc
  refine ⟨rfl, by simp [Payload.len], ?_, ?_⟩ <;>
    simp only [SCIONPacket.setPayload_totalLen, SCIONPacket.setPayload_payloadLen,
      SCIONPacket.setPayload_hdr_len, Payload.len, List.length_drop] <;>
    simp only [SCIONHeader.ofParse] at ht ⊢ <;> omega


theorem parse_length_fields_zeros :
    ∃ p, SCIONPacket.parse Wire.sample 0 (List.replicate 16 0) = .parsed p ∧
      p.payload = some (.bytes ((List.replicate 16 0).drop p.hdr.len)) ∧
      p.payloadLen = ((List.replicate 16 (0 : UInt8)).length - p.hdr.len : Nat) ∧
      p.hdr.commonHdr.totalLen = beVal (Bytes.slice (List.replicate 16 0) 2 4) +
        (p.hdr.len - (List.replicate 16 (0 : UInt8)).length : Nat) ∧
      p.hdr.commonHdr.totalLen = p.hdr.len + p.payloadLen +
        ((beVal (Bytes.slice (List.replicate 16 0) 2 4) : Int) -
          (List.replicate 16 (0 : UInt8)).length) :=
  have hp := SCIONPacket.parse_of_nextHdr_zero Wire.sample 0 (by decide)
    (show SCIONCommonHdr.parse (Bytes.slice (List.replicate 16 0) 0 SCIONCommonHdr.len) =
      some ⟨0, 0, 0, 0, 0, 0, 0, 0⟩ by decide) rfl
  ⟨_, hp, parse_length_fields Wire.sample 0 _ _ hp⟩

/-- `parse` marks parsed whatever lengths the buffer declares: sixteen zero bytes give
`hdr_len = 0`, short of the eight bytes of the common header, and `total_len = 0`; a buffer
declaring `hdr_len = 255` gives a header longer than the buffer. -/
theorem parse_accepts_inconsistent_lengths :
    (∃ p, SCIONPacket.parse Wire.sample 0 (List.replicate 16 0) = .parsed p ∧
      p.hdr.commonHdr.hdrLen <
        SCIONCommonHdr.len + p.hdr.commonHdr.srcAddrLen + p.hdr.commonHdr.dstAddrLen ∧
      p.hdr.commonHdr.totalLen ≠ 16) ∧
    ∃ p, SCIONPacket.parse Wire.sample 0 ([0, 0, 0, 16, 0, 0, 0, 255] ++ List.replicate 8 0) = .parsed p ∧
      16 < p.hdr.len :=
  ⟨⟨_, SCIONPacket.parse_of_nextHdr_zero Wire.sample 0 (by decide)
      (show SCIONCommonHdr.parse (Bytes.slice (List.replicate 16 0) 0 SCIONCommonHdr.len) =
        some ⟨0, 0, 0, 0, 0, 0, 0, 0⟩ by decide) rfl,
      show (0 : Nat) < 8 + 0 + 0 by decide, show (0 : Int) - (16 - 0) + 16 ≠ 16 by decide⟩,
    ⟨_, SCIONPacket.parse_of_nextHdr_zero Wire.sample 0 (by decide)
      (show SCIONCommonHdr.parse
        (Bytes.slice ([0, 0, 0, 16, 0, 0, 0, 255] ++ List.replicate 8 0) 0 SCIONCommonHdr.len) =
        some ⟨0, 0, 0, 16, 0, 0, 0, 255⟩ by decide) rfl, show 16 < 255 + 0 by decide⟩⟩

end ScionPacket
