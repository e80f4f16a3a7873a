import ScionPacket.Properties.RoundTrip
import ScionPacket.Properties.Navigation

/-!
# Properties — a reversed packet on the wire

A host answers a packet by reversing it and sending it back.  `reverse()` exchanges the two
addresses but not `src_addr_len` and `dst_addr_len`, so a reversed header whose addresses differ
in length no longer describes itself (`Properties.Navigation`).  `pack()`, for its part, writes
the two length fields where `parse` reads them the other way round.  The two slips cancel on the
wire: `reverse()` makes a well-formed packet `Crosswise`, its length fields giving each other's
address (`crosswise_reverse`), and the bytes of a crosswise packet parse to the packet with its
length fields exchanged (`SCIONPacket.parse_pack_of_crosswise`), which are then its addresses'
lengths (`reversed_packet_decodes_consistent`).

The cut of the address bytes is stated once for any length fields (`ofParse_cut`): `parse`
takes the source as the first `src_addr_len` bytes after the common header.
-/

namespace ScionPacket

/-- `parse` cuts the address bytes `pack()` wrote at the `src_addr_len` it reads, and reads a
typed path back, a missing one as the Empty variant. -/
theorem ofParse_cut (W : Wire) {enc src dst rest : Bytes} {path : Option PathBase}
    {ch : SCIONCommonHdr} (henc : enc.length = SCIONCommonHdr.len)
    (hs : ch.srcAddrLen = src.length) (hd : ch.dstAddrLen = dst.length)
    (hl : ch.hdrLen = SCIONCommonHdr.len + src.length + dst.length +
      ((path.map PathBase.pack).getD []).length)
    (hp : PathTyped W path) (exts : List ExtHdr) :
    SCIONHeader.ofParse W (enc ++ src ++ dst ++ (path.map PathBase.pack).getD [] ++ rest) ch exts =
      ⟨ch, ⟨src⟩, ⟨dst⟩, some (path.getD .empty), exts⟩ := by
  have hpath := parsePath_pack hp (enc ++ src ++ dst) rest
  simp only [List.length_append, henc] at hpath
  have hsrc : SCIONCommonHdr.len + src.length = (enc ++ src).length := by simp [henc]
  simp only [SCIONHeader.ofParse, SCIONHeader.mk.injEq, SCIONAddr.mk.injEq, true_and, and_true]
  refine ⟨?_, ?_, ?_⟩
  · rw [hs, ← henc, List.append_assoc, List.append_assoc, List.append_assoc,
      Bytes.slice_append_right, List.take_left' rfl]
  · rw [hs, hd, hsrc, show enc ++ src ++ dst ++ (path.map PathBase.pack).getD [] ++ rest =
      (enc ++ src) ++ (dst ++ ((path.map PathBase.pack).getD [] ++ rest)) by simp,
      Bytes.slice_append_right, List.take_left' rfl]
  · rw [hs, hd, hl, ← hpath]

/-- The pointers `reverse()` resets fit their byte. -/
theorem SCIONHeader.fits_reverse (W : Wire) {h h' : SCIONHeader} (hr : h.reverse W = .ok h')
    (hf : h.commonHdr.Fits) : h'.commonHdr.Fits := by
  cases hp : h.path with
  | none => rw [SCIONHeader.reverse_of_no_path W h hp] at hr; cases hr
  | some q =>
      rw [SCIONHeader.reverse_of_path W h hp] at hr
      cases hr
      obtain ⟨ht, hs, hd, htl, -, -, hn, hh⟩ := hf
      refine ⟨ht, hs, hd, htl, ?_, ?_, hn, hh⟩ <;> constructor <;> simp <;> omega

/-- A packet whose address-length fields give each other's address: what `reverse()` makes of a
`WellFormed` one. -/
structure Crosswise (W : Wire) (p : SCIONPacket) : Prop where
  lengthsOk : p.LengthsOk
  srcAddrLen_eq : p.hdr.commonHdr.srcAddrLen = p.hdr.dstAddr.pack.length
  dstAddrLen_eq : p.hdr.commonHdr.dstAddrLen = p.hdr.srcAddr.pack.length
  pathTyped : PathTyped W p.hdr.path
  chain : Chain W p.hdr.commonHdr.nextHdr p.hdr.extensionHdrs
  payload_bytes : ∃ b, p.payload = some (.bytes b)

/-- `reverse()` turns a well-formed packet whose reversed path is typed into a crosswise one with
a path, keeping the header's length, its extension records and the fit of its common header. -/
theorem crosswise_reverse {W : Wire} {p : SCIONPacket} (hw : WellFormed W p) {q : PathBase}
    (hq : p.hdr.path = some q) (hrev : PathTyped W (some (q.reverse W))) :
    ∃ p', (PktOp.hdr .reverse).run W p = .ok p' ∧ Crosswise W p' ∧
      p'.hdr.path = some (q.reverse W) ∧ p'.hdr.len = p.hdr.len ∧
      p'.hdr.extensionHdrs = p.hdr.extensionHdrs ∧
      (p.hdr.commonHdr.Fits → p'.hdr.commonHdr.Fits) := by
  obtain ⟨h', hr, hsa, hda, hsl, hdl, hpa, hlen, hex, hnh⟩ : ∃ h', p.hdr.reverse W = .ok h' ∧
      h'.srcAddr = p.hdr.dstAddr ∧ h'.dstAddr = p.hdr.srcAddr ∧
      h'.commonHdr.srcAddrLen = p.hdr.commonHdr.srcAddrLen ∧
      h'.commonHdr.dstAddrLen = p.hdr.commonHdr.dstAddrLen ∧ h'.path = some (q.reverse W) ∧
      h'.len = p.hdr.len ∧ h'.extensionHdrs = p.hdr.extensionHdrs ∧
      h'.commonHdr.nextHdr = p.hdr.commonHdr.nextHdr :=
    ⟨_, SCIONHeader.reverse_of_path W p.hdr hq, rfl, rfl, rfl, rfl, rfl, rfl, rfl, rfl⟩
  have hrun : (PktOp.hdr .reverse).run W p = .ok { p with hdr := h' } := by
    simp only [PktOp.run, HdrOp.run, hr]
  refine ⟨_, hrun, ⟨SCIONPacket.lengthsOk_run hrun hw.lengthsOk, ?_, ?_, ?_, ?_,
    hw.payload_bytes⟩, hpa, hlen, hex, SCIONHeader.fits_reverse W hr⟩
  · rw [hsl, hda]; exact hw.srcAddrLen_eq
  · rw [hdl, hsa]; exact hw.dstAddrLen_eq
  · rw [hpa]; exact hrev
  · rw [hex, hnh]; exact hw.chain

/-- Decoding a crosswise packet's bytes gives the packet back with its two length fields
exchanged. -/
theorem SCIONPacket.parse_pack_of_crosswise {W : Wire} {p : SCIONPacket} (hc : Crosswise W p)
    {q : PathBase} (hq : p.hdr.path = some q) (hf : p.hdr.commonHdr.Fits)
    (h16 : SCIONHeader.minLen ≤ p.hdr.len) {fuel : Nat} (hfuel : p.hdr.extensionHdrs.length ≤ fuel) :
    ∃ bs, p.pack = some bs ∧ SCIONPacket.parse W fuel bs =
      .parsed { p with hdr := { p.hdr with commonHdr := p.hdr.commonHdr.swapLens } } := by
  obtain ⟨b, hb⟩ := hc.payload_bytes
  obtain ⟨bs, hp⟩ := Option.isSome_iff_exists.mp (SCIONPacket.pack_isSome_of_fits hf (by simp [hb]))
  have hlen := (SCIONPacket.pack_of_lengthsOk hc.lengthsOk hp).1
  have htot := hc.lengthsOk.totalLen_eq
  have hpl : p.payloadLen = b.length := by
    simpa [hb, Payload.len] using hc.lengthsOk.payloadLen_eq
  refine ⟨bs, hp, ?_⟩
  rw [SCIONPacket.parse_pack hc.lengthsOk hc.chain hb hp (by omega) hfuel,
    SCIONCommonHdr.ofWords_eq_swapLens hf]
  obtain ⟨pl, hpl', -, rfl⟩ := SCIONPacket.pack_eq_some.mp hp
  obtain rfl : Payload.bytes b = pl := Option.some.inj (hb.symm.trans hpl')
  rw [List.append_assoc _ _ (Payload.packed _), ofParse_cut W (SCIONCommonHdr.length_encode _)
    hc.dstAddrLen_eq hc.srcAddrLen_eq
    (by rw [SCIONHeader.length_packedPath]; exact hc.lengthsOk.hdrLen_eq) hc.pathTyped, ← hb, ← hpl]
  simp only [hq, Option.getD_some]
  rfl

/-- The header a crosswise packet decodes to describes itself. -/
theorem Crosswise.consistent {W : Wire} {p : SCIONPacket} (hc : Crosswise W p) :
    SCIONHeader.Consistent { p.hdr with commonHdr := p.hdr.commonHdr.swapLens } :=
  ⟨hc.dstAddrLen_eq, hc.srcAddrLen_eq, by
    show p.hdr.commonHdr.hdrLen = SCIONCommonHdr.len + p.hdr.commonHdr.dstAddrLen +
      p.hdr.commonHdr.srcAddrLen + p.hdr.pathLen
    have := hc.lengthsOk.hdrLen_eq
    have := hc.srcAddrLen_eq
    have := hc.dstAddrLen_eq
    omega⟩

/-- **A reversed packet decodes to a consistent header.**  Take a packet whose lengths agree and
whose address-length fields are its addresses' lengths (every packet `from_values` builds, after
any `set_payload` with bytes and `increase_of`), with a path that reads back as itself before
and after its `reverse()`.  If its common header fits and its header is `MIN_LEN` bytes or more,
`reverse()` returns, `pack()` returns, and decoding the bytes gives the reversed packet with its
two address-length fields exchanged, a header whose length fields are its addresses' lengths,
whatever those lengths are. -/
theorem reversed_packet_decodes_consistent (W : Wire) {p : SCIONPacket} (hw : WellFormed W p)
    {q : PathBase} (hq : p.hdr.path = some q) (hrev : PathTyped W (some (q.reverse W)))
    (hf : p.hdr.commonHdr.Fits) (h16 : SCIONHeader.minLen ≤ p.hdr.len) {fuel : Nat}
    (hfuel : p.hdr.extensionHdrs.length ≤ fuel) :
    ∃ p' bs, (PktOp.hdr .reverse).run W p = .ok p' ∧ p'.pack = some bs ∧
      SCIONPacket.parse W fuel bs =
        .parsed { p' with hdr := { p'.hdr with commonHdr := p'.hdr.commonHdr.swapLens } } ∧
      SCIONHeader.Consistent { p'.hdr with commonHdr := p'.hdr.commonHdr.swapLens } := by
  obtain ⟨p', hrun, hc, hq', hlen, hex, hfit⟩ := crosswise_reverse hw hq hrev
  obtain ⟨bs, hp, hparse⟩ := SCIONPacket.parse_pack_of_crosswise hc hq' (hfit hf) (hlen ▸ h16)
    (hex ▸ hfuel)
  exact ⟨p', bs, hrun, hp, hparse, hc.consistent⟩

theorem reversed_packet_decodes_consistent_unequal :
    let p := SCIONPacket.fromValues ⟨[1]⟩ ⟨[2, 3]⟩ (.bytes [4])
      (some (.of .core [0x80, 0, 0, 0, 0, 0, 0, 0])) [] 0 0
    WellFormed Wire.sample p ∧ p.hdr.path = some (.of .core [0x80, 0, 0, 0, 0, 0, 0, 0]) ∧
      PathTyped Wire.sample (some ((PathBase.of .core [0x80, 0, 0, 0, 0, 0, 0, 0]).reverse Wire.sample)) ∧
      p.hdr.commonHdr.Fits ∧ SCIONHeader.minLen ≤ p.hdr.len ∧ p.hdr.extensionHdrs.length ≤ 0 ∧
      ∃ p' bs, (PktOp.hdr .reverse).run Wire.sample p = .ok p' ∧ p'.pack = some bs ∧
        SCIONPacket.parse Wire.sample 0 bs =
          .parsed { p' with hdr := { p'.hdr with commonHdr := p'.hdr.commonHdr.swapLens } } ∧
        SCIONHeader.Consistent { p'.hdr with commonHdr := p'.hdr.commonHdr.swapLens } :=
  have hw : WellFormed Wire.sample (SCIONPacket.fromValues ⟨[1]⟩ ⟨[2, 3]⟩ (.bytes [4])
      (some (.of .core [0x80, 0, 0, 0, 0, 0, 0, 0])) [] 0 0) :=
    wellFormed_fromValues (W := Wire.sample) (by exact ⟨by decide, rfl⟩) .nil _ _ _ _
  ⟨hw, rfl, ⟨by decide, rfl⟩, by decide, by decide, le_rfl,
    reversed_packet_decodes_consistent Wire.sample hw rfl ⟨by decide, rfl⟩ (by decide) (by decide)
      le_rfl⟩

end ScionPacket
