import ScionPacket.Properties.Lengths
import ScionPacket.Properties.ExtChain

/-!
# Properties — the packet codec round trip

`pack` writes the common header, the two addresses, the path, the extension records and the
payload one after another; `parse` reads the common header back and cuts the rest at the
lengths it holds.  The walk reads a well-formed extension chain back record for record
(`Properties.ExtChain`), so that `parse` on a buffer of a common header, a chain and a payload
is known whole (`SCIONPacket.parse_of_chain`); `ofParse_pack` says how it cuts the addresses and
the path that `pack()` wrote.  Both round trips are assembled from these two lemmas: `parse`
after `pack()` swaps the address lengths, and `pack()` after `parse` swaps them back into the
first word.
-/

namespace ScionPacket

/-- `parse` on a buffer whose bytes from `hdr_len` on are a well-formed chain and then a payload:
the header keeps the common header it read and the chain's records, and the payload is what
follows the chain. -/
theorem SCIONPacket.parse_of_chain (W : Wire) {raw : Bytes} {ch : SCIONCommonHdr}
    {es : List ExtHdr} {payload : Bytes} (h16 : SCIONHeader.minLen ≤ raw.length)
    (hc : SCIONCommonHdr.parse (raw.slice 0 SCIONCommonHdr.len) = some ch)
    (hhl : ch.hdrLen ≤ raw.length) (hchain : Chain W ch.nextHdr es)
    (hrest : raw.drop ch.hdrLen = (es.map ExtHdr.pack).flatten ++ payload)
    {fuel : Nat} (hfuel : es.length ≤ fuel) :
    SCIONPacket.parse W fuel raw =
      .parsed ⟨SCIONHeader.ofParse W raw ch es, some (.bytes payload), payload.length⟩ := by
  have hlen := congrArg List.length hrest
  simp only [List.length_drop, List.length_append, ExtHdr.length_flatten_pack] at hlen
  have hpay : raw.drop (ch.hdrLen + (es.map ExtHdr.len).sum) = payload := by
    rw [← List.drop_drop, hrest, List.drop_left' (ExtHdr.length_flatten_pack es)]
  have h8 : ¬ raw.length < SCIONPacket.minLen := by
    simp only [SCIONPacket.minLen, SCIONHeader.minLen] at h16 ⊢; omega
  rw [SCIONPacket.parse, if_neg h8, SCIONHeader.parse_of_chain W h16 hc hhl hchain hrest hfuel]
  have htot : ch.totalLen - ((raw.length : Int) - ↑(ch.hdrLen + (es.map ExtHdr.len).sum)) +
      payload.length = ch.totalLen := by omega
  simp only [SCIONPacket.setPayload, SCIONHeader.len, SCIONHeader.ofParse, hpay, Payload.len,
    htot]

/-! ### Decoding what `pack()` wrote -/

/-- The bytes `pack()` writes before the extension records: `hdr_len` of them. -/
theorem SCIONPacket.length_headBytes {p : SCIONPacket} (hl : p.LengthsOk) :
    (p.hdr.commonHdr.encode ++ p.hdr.srcAddr.pack ++ p.hdr.dstAddr.pack ++
      (p.hdr.path.map PathBase.pack).getD []).length = p.hdr.commonHdr.hdrLen := by
  simp only [List.length_append, SCIONCommonHdr.length_encode, SCIONHeader.length_packedPath,
    hl.hdrLen_eq]

/-- **Decoding what `pack()` wrote.**  For a packet whose lengths agree, whose extension records
form a well-formed chain from `next_hdr` and whose payload is bytes, whatever `pack()` returns,
if it is `MIN_LEN` bytes or more, `parse` marks parsed: the common header's six words are read
back, the addresses and the path are cut at the lengths they give, the extension records come
back as they were and the payload is the bytes packed. -/
theorem SCIONPacket.parse_pack {W : Wire} {p : SCIONPacket} {b bs : Bytes} (hl : p.LengthsOk)
    (hc : Chain W p.hdr.commonHdr.nextHdr p.hdr.extensionHdrs)
    (hpay : p.payload = some (.bytes b)) (hp : p.pack = some bs)
    (h16 : SCIONHeader.minLen ≤ bs.length) {fuel : Nat}
    (hf : p.hdr.extensionHdrs.length ≤ fuel) :
    SCIONPacket.parse W fuel bs = .parsed
      ⟨SCIONHeader.ofParse W bs (SCIONCommonHdr.ofWords p.hdr.commonHdr.types
        p.hdr.commonHdr.totalLen.toNat p.hdr.commonHdr.currIofP.toNat p.hdr.commonHdr.currOfP.toNat
        p.hdr.commonHdr.nextHdr p.hdr.commonHdr.hdrLen) p.hdr.extensionHdrs, some (.bytes b),
        b.length⟩ := by
  obtain ⟨pl, hpl, hfit, rfl⟩ := SCIONPacket.pack_eq_some.mp hp
  obtain rfl : Payload.bytes b = pl := Option.some.inj (hpay.symm.trans hpl)
  simp only [Payload.packed] at h16 ⊢
  have hH := SCIONPacket.length_headBytes hl
  have hc8 : SCIONCommonHdr.parse ((p.hdr.commonHdr.encode ++ p.hdr.srcAddr.pack ++
      p.hdr.dstAddr.pack ++ (p.hdr.path.map PathBase.pack).getD [] ++
      (p.hdr.extensionHdrs.map ExtHdr.pack).flatten ++ b).slice 0 SCIONCommonHdr.len) =
      some (SCIONCommonHdr.ofWords p.hdr.commonHdr.types p.hdr.commonHdr.totalLen.toNat
        p.hdr.commonHdr.currIofP.toNat p.hdr.commonHdr.currOfP.toNat p.hdr.commonHdr.nextHdr
        p.hdr.commonHdr.hdrLen) := by
    simp only [List.append_assoc]
    rw [Bytes.slice_append_left (by simp), Bytes.slice, List.drop_zero,
      List.take_of_length_le (by simp), ← SCIONCommonHdr.parse_encode_eq_ofWords hfit [],
      List.append_nil]
  refine SCIONPacket.parse_of_chain W h16 hc8 ?_ hc ?_ hf
  · show p.hdr.commonHdr.hdrLen ≤ _
    simp only [List.length_append] at hH ⊢
    omega
  · show List.drop p.hdr.commonHdr.hdrLen _ = _
    rw [List.append_assoc _ _ b, List.drop_left' hH]

/-! ### Paths and addresses read back -/

/-- A path `parse` reads back as itself: none, the Empty variant, or a variant whose first opaque
field is whole and carries the variant's type. -/
def PathTyped (W : Wire) : Option PathBase → Prop
  | some (.of k raw) =>
      InfoOpaqueField.len ≤ raw.length ∧ W.info (raw.take InfoOpaqueField.len) = W.typeOf k
  | _ => True

/-- `parse` reads a typed path back from the bytes `pack()` wrote for it; a missing one comes
back as the Empty variant. -/
theorem parsePath_pack {W : Wire} {path : Option PathBase} (hp : PathTyped W path)
    (pre rest : Bytes) :
    parsePath W (pre ++ (path.map PathBase.pack).getD [] ++ rest) pre.length
      (pre.length + ((path.map PathBase.pack).getD []).length) = some (path.getD .empty) := by
  match path, hp with
  | none, _ => simpa using parsePath_self W _ pre.length
  | some .empty, _ => simpa [PathBase.pack] using parsePath_self W _ pre.length
  | some (.of k raw), ⟨hl, hi⟩ =>
      simp only [Option.map_some', Option.getD_some, PathBase.pack, List.append_assoc]
      rw [parsePath_of_info W (by simp [InfoOpaqueField.len] at hl; omega)
        (by rw [Bytes.slice_append_right, List.take_append_of_le_length hl, hi]),
        Bytes.slice_append_right, List.take_left]

/-- `parse` cuts the bytes `pack()` wrote at the lengths it read: with the two length fields
swapped, it takes the first `len(dst)` bytes of the two addresses as the source and the rest as
the destination, and it reads a typed path back, a missing one as the Empty variant. -/
theorem ofParse_pack (W : Wire) {enc src dst rest : Bytes} {path : Option PathBase}
    {ch : SCIONCommonHdr} (henc : enc.length = SCIONCommonHdr.len)
    (hs : ch.srcAddrLen = dst.length) (hd : ch.dstAddrLen = src.length)
    (hl : ch.hdrLen = SCIONCommonHdr.len + src.length + dst.length +
      ((path.map PathBase.pack).getD []).length)
    (hp : PathTyped W path) (exts : List ExtHdr) :
    SCIONHeader.ofParse W (enc ++ src ++ dst ++ (path.map PathBase.pack).getD [] ++ rest) ch exts =
      ⟨ch, ⟨(src ++ dst).take dst.length⟩, ⟨(src ++ dst).drop dst.length⟩, some (path.getD .empty),
        exts⟩ := by
  have hpath := parsePath_pack hp (enc ++ src ++ dst) rest
  simp only [List.length_append, henc] at hpath
  have hX : enc ++ src ++ dst ++ (path.map PathBase.pack).getD [] ++ rest =
      enc ++ ((src ++ dst) ++ ((path.map PathBase.pack).getD [] ++ rest)) := by simp
  simp only [SCIONHeader.ofParse, SCIONHeader.mk.injEq, SCIONAddr.mk.injEq, true_and, and_true]
  refine ⟨?_, ?_, ?_⟩
  · rw [hX, hs, ← henc, Bytes.slice_append_right, List.take_append_of_le_length (by simp)]
  · rw [hX, hs, hd, ← henc, Nat.add_assoc, Bytes.slice_append_shift, Bytes.slice,
      List.drop_append_of_le_length (by simp), Nat.add_sub_cancel_left,
      List.take_append_of_le_length (by simp), List.take_of_length_le (by simp)]
  · rw [hs, hd, hl, ← hpath]
    congr 1
    omega

/-! ### Packets built by `from_values` -/

/-- A packet whose bytes `parse` reads back up to the address-length swap: its lengths agree, its
address-length fields are its addresses' lengths, its path is typed, its extension records
form a chain from `next_hdr`, and its payload is bytes. -/
structure WellFormed (W : Wire) (p : SCIONPacket) : Prop where
  lengthsOk : p.LengthsOk
  srcAddrLen_eq : p.hdr.commonHdr.srcAddrLen = p.hdr.srcAddr.pack.length
  dstAddrLen_eq : p.hdr.commonHdr.dstAddrLen = p.hdr.dstAddr.pack.length
  pathTyped : PathTyped W p.hdr.path
  chain : Chain W p.hdr.commonHdr.nextHdr p.hdr.extensionHdrs
  payload_bytes : ∃ b, p.payload = some (.bytes b)

theorem wellFormed_fromValues {W : Wire} {path : Option PathBase} {exts : List ExtHdr}
    {nh : Nat} (hpath : PathTyped W path) (hchain : Chain W nh exts) (src dst : SCIONAddr)
    (b : Bytes) (t : Nat) :
    WellFormed W (SCIONPacket.fromValues src dst (.bytes b) path exts nh t) := by
  refine ⟨SCIONPacket.lengthsOk_setPayload (SCIONPacket.lengthsOk_ofHdr_fromValues ..) _, ?_, ?_,
    hpath, ?_, ⟨b, rfl⟩⟩
  all_goals simp only [SCIONPacket.fromValues, SCIONPacket.setPayload_hdr, SCIONPacket.ofHdr,
    SCIONHeader.fromValues_commonHdr, SCIONHeader.fromValues_srcAddr,
    SCIONHeader.fromValues_dstAddr, SCIONHeader.fromValues_extensionHdrs, SCIONAddr.length_pack]
  exact hchain

/-- `set_payload` with bytes and `increase_of` keep a packet well formed. -/
theorem wellFormed_run {W : Wire} {op : PktOp} {p p' : SCIONPacket}
    (hop : (∃ b, op = .setPayload (.bytes b)) ∨ ∃ n, op = .hdr (.increaseOf n))
    (hw : WellFormed W p) (hr : op.run W p = .ok p') : WellFormed W p' := by
  have hl := SCIONPacket.lengthsOk_run hr hw.lengthsOk
  rcases hop with ⟨b, rfl⟩ | ⟨n, rfl⟩ <;> cases hr
  · exact ⟨hl, hw.2, hw.3, hw.4, hw.5, ⟨b, rfl⟩⟩
  · exact ⟨hl, hw.2, hw.3, hw.4, hw.5, hw.6⟩


/-- **Decoding a well-formed packet's bytes.**  `pack()` returns, and `parse` gives the packet
back with the two address-length fields swapped, the source address taken as the first
`len(dst)` bytes of the two addresses and the destination as the rest, and a missing path read
as the Empty variant; the extension records, the payload and `payload_len` come back as they
were. -/
theorem SCIONPacket.parse_pack_of_wellFormed {W : Wire} {p : SCIONPacket} (hw : WellFormed W p)
    (hf : p.hdr.commonHdr.Fits) (h16 : SCIONHeader.minLen ≤ p.hdr.len) {fuel : Nat}
    (hfuel : p.hdr.extensionHdrs.length ≤ fuel) :
    ∃ bs, p.pack = some bs ∧ SCIONPacket.parse W fuel bs = .parsed
      { p with hdr := { p.hdr with
          commonHdr := p.hdr.commonHdr.swapLens,
          srcAddr := ⟨(p.hdr.srcAddr.pack ++ p.hdr.dstAddr.pack).take p.hdr.dstAddr.pack.length⟩,
          dstAddr := ⟨(p.hdr.srcAddr.pack ++ p.hdr.dstAddr.pack).drop p.hdr.dstAddr.pack.length⟩,
          path := some (p.hdr.path.getD .empty) } } := by
  obtain ⟨b, hb⟩ := hw.payload_bytes
  obtain ⟨bs, hp⟩ := Option.isSome_iff_exists.mp (SCIONPacket.pack_isSome_of_fits hf (by simp [hb]))
  have hlen := (SCIONPacket.pack_of_lengthsOk hw.lengthsOk hp).1
  have htot := hw.lengthsOk.totalLen_eq
  have hpl : p.payloadLen = b.length := by
    simpa [hb, Payload.len] using hw.lengthsOk.payloadLen_eq
  refine ⟨bs, hp, ?_⟩
  rw [SCIONPacket.parse_pack hw.lengthsOk hw.chain hb hp (by omega) hfuel,
    SCIONCommonHdr.ofWords_eq_swapLens hf]
  obtain ⟨pl, hpl', -, rfl⟩ := SCIONPacket.pack_eq_some.mp hp
  obtain rfl : Payload.bytes b = pl := Option.some.inj (hb.symm.trans hpl')
  rw [List.append_assoc _ _ (Payload.packed _), ofParse_pack W (SCIONCommonHdr.length_encode _)
    (show p.hdr.commonHdr.swapLens.srcAddrLen = _ from hw.dstAddrLen_eq)
    (show p.hdr.commonHdr.swapLens.dstAddrLen = _ from hw.srcAddrLen_eq)
    (by rw [SCIONHeader.length_packedPath]; exact hw.lengthsOk.hdrLen_eq) hw.pathTyped, ← hb, ← hpl]

/-- **`parse` after `pack()`, on the packets `from_values` builds.**  Build a packet by
`from_values` with a byte payload, a typed path and a well-formed extension chain, then call
`set_payload` with bytes and `increase_of` in any order.  If the common header fits its widths
and the header is `MIN_LEN` bytes or more, `pack()` returns, and decoding its bytes gives the
packet back with the two address-length fields swapped, the source address cut as the first
`len(dst)` bytes of the two addresses, and a missing path read as the Empty variant. -/
theorem parse_pack_swaps_addr_lens (W : Wire) (src dst : SCIONAddr) (b : Bytes)
    (path : Option PathBase) (exts : List ExtHdr) (nh t : Nat) (hpath : PathTyped W path)
    (hchain : Chain W nh exts) (ops : List PktOp)
    (hops : ∀ op ∈ ops, (∃ b', op = .setPayload (.bytes b')) ∨ ∃ n, op = .hdr (.increaseOf n))
    (p : SCIONPacket)
    (hr : PktOp.runAll W ops (SCIONPacket.fromValues src dst (.bytes b) path exts nh t) = .ok p)
    (hf : p.hdr.commonHdr.Fits) (h16 : SCIONHeader.minLen ≤ p.hdr.len) (fuel : Nat)
    (hfuel : exts.length ≤ fuel) :
    ∃ bs, p.pack = some bs ∧ SCIONPacket.parse W fuel bs = .parsed
      { p with hdr := { p.hdr with
          commonHdr := p.hdr.commonHdr.swapLens,
          srcAddr := ⟨(p.hdr.srcAddr.pack ++ p.hdr.dstAddr.pack).take p.hdr.dstAddr.pack.length⟩,
          dstAddr := ⟨(p.hdr.srcAddr.pack ++ p.hdr.dstAddr.pack).drop p.hdr.dstAddr.pack.length⟩,
          path := some (p.hdr.path.getD .empty) } } := by
  have hw : WellFormed W p ∧ p.hdr.extensionHdrs = exts := by
    refine Ran.runAll_invariant (P := fun q => WellFormed W q ∧ q.hdr.extensionHdrs = exts) ?_ hops
      ⟨wellFormed_fromValues hpath hchain src dst b t, rfl⟩ hr
    rintro op q q' hop ⟨hq, he⟩ hs
    refine ⟨wellFormed_run hop hq hs, ?_⟩
    rcases hop with ⟨_, rfl⟩ | ⟨_, rfl⟩ <;> cases hs <;> exact he
  exact SCIONPacket.parse_pack_of_wellFormed hw.1 hf h16 (hw.2 ▸ hfuel)

theorem parse_pack_swaps_addr_lens_unequal :
    let p := SCIONPacket.fromValues ⟨[1, 2, 3, 4]⟩ ⟨[5, 6, 7, 8, 9]⟩ (.bytes []) none [] 0 0
    PathTyped Wire.sample none ∧ Chain Wire.sample 0 [] ∧
      PktOp.runAll Wire.sample [] p = .ok p ∧ p.hdr.commonHdr.Fits ∧ SCIONHeader.minLen ≤ p.hdr.len ∧
      ∃ bs, p.pack = some bs ∧ SCIONPacket.parse Wire.sample 0 bs = .parsed
        { p with hdr := { p.hdr with
            commonHdr := p.hdr.commonHdr.swapLens,
            srcAddr := ⟨(p.hdr.srcAddr.pack ++ p.hdr.dstAddr.pack).take p.hdr.dstAddr.pack.length⟩,
            dstAddr := ⟨(p.hdr.srcAddr.pack ++ p.hdr.dstAddr.pack).drop p.hdr.dstAddr.pack.length⟩,
            path := some (p.hdr.path.getD .empty) } } :=
  ⟨trivial, .nil, rfl, by decide, by decide,
    parse_pack_swaps_addr_lens Wire.sample _ _ [] none [] 0 0 trivial .nil [] (by simp) _ rfl
      (by decide) (by decide) 0 le_rfl⟩

/-! ### Re-encoding a parsed buffer -/

/-- The path region `[offset, hdr_len)` of a buffer is empty, or its first opaque field names
one of the three variants built from bytes. -/
def PathRegionOk (W : Wire) (raw : Bytes) (offset hdrLen : Nat) : Prop :=
  offset = hdrLen ∨
    W.info (raw.slice offset (offset + InfoOpaqueField.len)) ∈
      [W.coreType, W.crossOverType, W.peerLinkType]

/-- The path `parse` builds from such a region packs back to the region. -/
theorem parsePath_region {W : Wire} {raw : Bytes} {offset hdrLen : Nat}
    (h : PathRegionOk W raw offset hdrLen) :
    ∃ q, parsePath W raw offset hdrLen = some q ∧ q.pack = raw.slice offset hdrLen := by
  rcases h with rfl | hi
  · exact ⟨_, parsePath_self W raw offset, by simp [PathBase.pack, Bytes.slice]⟩
  · by_cases hne : offset = hdrLen
    · subst hne; exact ⟨_, parsePath_self W raw offset, by simp [PathBase.pack, Bytes.slice]⟩
    · simp only [List.mem_cons, List.mem_singleton, List.not_mem_nil, or_false] at hi
      rcases hi with hi | hi | hi
      · exact ⟨_, parsePath_of_info W (k := .core) hne hi, rfl⟩
      · exact ⟨_, parsePath_of_info W (k := .crossOver) hne hi, rfl⟩
      · exact ⟨_, parsePath_of_info W (k := .peer) hne hi, rfl⟩

/-- **`pack()` after `parse`, on well-formed buffers.**  Take a buffer of `MIN_LEN` bytes or more
whose common header `ch` has `8 + src_addr_len + dst_addr_len ≤ hdr_len ≤ len(raw)`, whose path
region is empty or starts with a recognised discriminant, and whose bytes from `hdr_len` on are a
well-formed extension chain followed by the payload.  `parse` marks it parsed with `ch` as its
common header, and `pack()` gives back every byte after the first eight; those eight are `ch`
re-encoded, which is the buffer's own first eight bytes with the two 6-bit length fields
exchanged.  So the buffer comes back exactly when the two lengths are equal. -/
theorem pack_parse_swaps_addr_lens (W : Wire) (raw : Bytes) (ch : SCIONCommonHdr)
    (es : List ExtHdr) (payload : Bytes) (h16 : SCIONHeader.minLen ≤ raw.length)
    (hc : SCIONCommonHdr.parse (raw.slice 0 SCIONCommonHdr.len) = some ch)
    (haddr : SCIONCommonHdr.len + ch.srcAddrLen + ch.dstAddrLen ≤ ch.hdrLen)
    (hhl : ch.hdrLen ≤ raw.length)
    (hpath : PathRegionOk W raw (SCIONCommonHdr.len + ch.srcAddrLen + ch.dstAddrLen) ch.hdrLen)
    (hchain : Chain W ch.nextHdr es)
    (hrest : raw.drop ch.hdrLen = (es.map ExtHdr.pack).flatten ++ payload)
    (fuel : Nat) (hfuel : raw.length < fuel) :
    ∃ p, SCIONPacket.parse W fuel raw = .parsed p ∧ p.hdr.commonHdr = ch ∧
      p.pack = some (ch.encode ++ raw.drop SCIONCommonHdr.len) ∧
      ch.swapLens.pack = some (raw.take SCIONCommonHdr.len) ∧
      (ch.srcAddrLen = ch.dstAddrLen → p.pack = some raw) := by
  have hlen := congrArg List.length hrest
  simp only [List.length_drop, List.length_append, ExtHdr.length_flatten_pack] at hlen
  have hparse := SCIONPacket.parse_of_chain W h16 hc hhl hchain hrest
    (show es.length ≤ fuel by have := hchain.two_mul_length_le; omega)
  obtain ⟨q, hq, hqp⟩ := parsePath_region hpath
  have hsd : raw.drop SCIONCommonHdr.len = raw.slice SCIONCommonHdr.len
      (SCIONCommonHdr.len + ch.srcAddrLen) ++ (raw.slice (SCIONCommonHdr.len + ch.srcAddrLen)
      (SCIONCommonHdr.len + ch.srcAddrLen + ch.dstAddrLen) ++
      (q.pack ++ ((es.map ExtHdr.pack).flatten ++ payload))) := by
    rw [← hrest, hqp, Bytes.slice_append_drop raw haddr, Bytes.slice_append_drop raw (by omega),
      Bytes.slice_append_drop raw (by omega)]
  have hfit := SCIONCommonHdr.fits_of_parse hc
  have hpk : SCIONPacket.pack ⟨SCIONHeader.ofParse W raw ch es, some (.bytes payload),
      payload.length⟩ = some (ch.encode ++ raw.drop SCIONCommonHdr.len) := by
    refine SCIONPacket.pack_eq_some.mpr ⟨_, rfl, SCIONCommonHdr.fields_fit hfit, ?_⟩
    rw [hsd]
    simp only [SCIONHeader.ofParse, hq, Payload.packed, SCIONAddr.pack, Option.map_some',
      Option.getD_some, List.append_assoc]
  have hsw : ch.swapLens.pack = some (raw.take SCIONCommonHdr.len) := by
    simpa [Bytes.slice, List.take_take] using SCIONCommonHdr.pack_swapLens_parse hc
  refine ⟨_, hparse, rfl, hpk, hsw, fun he => ?_⟩
  rw [SCIONCommonHdr.swapLens_eq_self he, SCIONCommonHdr.pack_eq_encode hfit,
    Option.some.injEq] at hsw
  rw [hpk, hsw, List.take_append_drop]

theorem pack_parse_swaps_addr_lens_src_one :
    let raw : Bytes := [0x00, 0x40, 0, 16, 0, 0, 0, 9, 0xAA, 0, 0, 0, 0, 0, 0, 0]
    let ch : SCIONCommonHdr := ⟨0, 1, 0, 16, 0, 0, 0, 9⟩
    SCIONHeader.minLen ≤ raw.length ∧
      SCIONCommonHdr.parse (raw.slice 0 SCIONCommonHdr.len) = some ch ∧
      SCIONCommonHdr.len + ch.srcAddrLen + ch.dstAddrLen ≤ ch.hdrLen ∧ ch.hdrLen ≤ raw.length ∧
      PathRegionOk Wire.sample raw (SCIONCommonHdr.len + ch.srcAddrLen + ch.dstAddrLen) ch.hdrLen ∧
      Chain Wire.sample ch.nextHdr [] ∧
      raw.drop ch.hdrLen = (([] : List ExtHdr).map ExtHdr.pack).flatten ++ List.replicate 7 0 ∧
      ∃ p, SCIONPacket.parse Wire.sample 17 raw = .parsed p ∧ p.hdr.commonHdr = ch ∧
        p.pack = some (ch.encode ++ raw.drop SCIONCommonHdr.len) ∧
        ch.swapLens.pack = some (raw.take SCIONCommonHdr.len) ∧
        (ch.srcAddrLen = ch.dstAddrLen → p.pack = some raw) :=
  ⟨by decide, by decide, by decide, by decide, Or.inl rfl, .nil, rfl,
    pack_parse_swaps_addr_lens Wire.sample [0x00, 0x40, 0, 16, 0, 0, 0, 9, 0xAA, 0, 0, 0, 0, 0, 0, 0]
      ⟨0, 1, 0, 16, 0, 0, 0, 9⟩ [] (List.replicate 7 0) (by decide) (by decide)
      (by decide) (by decide) (Or.inl rfl) .nil rfl 17 (by decide)⟩

/-! ### Where the round trips fail -/

/-- A four-byte source and a five-byte destination: `pack()` writes `01 44` as the first word,
and decoding reads `src_addr_len = 5`, `dst_addr_len = 4`, so the source address comes back as
its four bytes and the first byte of the destination. -/
theorem parse_pack_moves_addr_bytes (W : Wire) (fuel : Nat) :
    (SCIONPacket.fromValues ⟨[1, 2, 3, 4]⟩ ⟨[5, 6, 7, 8, 9]⟩ (.bytes []) none [] 0 0).pack =
      some [0x01, 0x44, 0, 17, 9, 9, 0, 17, 1, 2, 3, 4, 5, 6, 7, 8, 9] ∧
    ∃ q, SCIONPacket.parse W fuel [0x01, 0x44, 0, 17, 9, 9, 0, 17, 1, 2, 3, 4, 5, 6, 7, 8, 9] =
        .parsed q ∧ q.hdr.commonHdr.srcAddrLen = 5 ∧ q.hdr.commonHdr.dstAddrLen = 4 ∧
      q.hdr.srcAddr = ⟨[1, 2, 3, 4, 5]⟩ ∧ q.hdr.dstAddr = ⟨[6, 7, 8, 9]⟩ :=
  ⟨by decide, _, SCIONPacket.parse_of_nextHdr_zero W fuel (by decide)
    (show SCIONCommonHdr.parse (Bytes.slice [0x01, 0x44, 0, 17, 9, 9, 0, 17, 1, 2, 3, 4, 5, 6, 7, 8,
      9] 0 SCIONCommonHdr.len) = some ⟨0, 5, 4, 17, 9, 9, 0, 17⟩ by decide) rfl, rfl, rfl, rfl, rfl⟩

/-- A one-byte source and an empty destination, `src_addr_len` in bits 11–6 as `parse` reads it:
re-encoding the parsed packet writes the length into bits 5–0, so the first word comes back as
`00 01` instead of `00 40`. -/
theorem pack_parse_changes_first_word (W : Wire) (fuel : Nat) :
    ∃ q, SCIONPacket.parse W fuel [0x00, 0x40, 0, 16, 0, 0, 0, 9, 0xAA, 0, 0, 0, 0, 0, 0, 0] =
        .parsed q ∧
      q.pack = some [0x00, 0x01, 0, 16, 0, 0, 0, 9, 0xAA, 0, 0, 0, 0, 0, 0, 0] := by
  have hh : SCIONHeader.ofParse W [0x00, 0x40, 0, 16, 0, 0, 0, 9, 0xAA, 0, 0, 0, 0, 0, 0, 0]
      ⟨0, 1, 0, 16, 0, 0, 0, 9⟩ [] =
      ⟨⟨0, 1, 0, 16, 0, 0, 0, 9⟩, ⟨[0xAA]⟩, ⟨[]⟩, some .empty, []⟩ := by
    show (⟨_, _, _, parsePath W _ 9 9, []⟩ : SCIONHeader) = _
    rw [parsePath_self]
    rfl
  refine ⟨_, SCIONPacket.parse_of_nextHdr_zero W fuel (by decide)
    (show SCIONCommonHdr.parse (Bytes.slice [0x00, 0x40, 0, 16, 0, 0, 0, 9, 0xAA, 0, 0, 0, 0, 0, 0,
      0] 0 SCIONCommonHdr.len) = some ⟨0, 1, 0, 16, 0, 0, 0, 9⟩ by decide) rfl, ?_⟩
  rw [hh]
  decide

end ScionPacket