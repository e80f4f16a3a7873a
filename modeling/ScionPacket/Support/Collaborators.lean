import ScionPacket.Support.Bytes

/-!
# Support — Collaborators

What `scion.py` uses from `host_addr`, `opaque_field`, `path`, `ext_hdr` and `packet_base`,
modules that are not part of it.  Addresses, paths, extension records and payloads are byte
carriers: each is the bytes it was built from, packs to them, and has their count as its
`len()` (the spec: the address codec "packs/unpacks a variable-length network address", path
variants are "each a sequence of opaque fields", an extension record is "`record_len` bytes
starting at `offset`").  What the spec leaves open is a field of `Wire`: the values of
`PathType`, how an info field reads its discriminant and direction flag, how a path variant
reverses itself, `ICNExtHdr.TYPE`, the registry's address builder, and the platform's byte
order for `struct`.  The laws the results assume of these are fields of `Wire` as well, so every
result holds for every choice of them.

`Ran` and `Parsed` say how a call of the source ends.
-/

namespace ScionPacket

/-- `OpaqueField.LEN` and `InfoOpaqueField.LEN`. -/
def OpaqueField.len : Nat := 8

/-! ### Addresses -/

/-- A `SCIONAddr`.  Modelled from the spec: an address "exposes `length`, `pack`, and a
constructor from raw bytes"; it is the bytes it was built from. -/
structure SCIONAddr where
  raw : Bytes
  deriving DecidableEq, Repr

/-- `addr_len`. -/
def SCIONAddr.addrLen (a : SCIONAddr) : Nat := a.raw.length

/-- `pack()`. -/
def SCIONAddr.pack (a : SCIONAddr) : Bytes := a.raw

@[simp] theorem SCIONAddr.length_pack (a : SCIONAddr) : a.pack.length = a.addrLen := rfl

/-! ### Paths -/

/-- The variants of `lib.packet.path` that are built from bytes. -/
inductive PathKind
  | core
  | crossOver
  | peer
  deriving DecidableEq, Repr

/-- A path.  Modelled from the spec: one of the Core, CrossOver and PeerLink structures, built
from "the byte range `[offset, hdr_len)`" and packing back to it, or the Empty variant, which
`scion.py` builds as `EmptyPath()` from no bytes. -/
inductive PathBase
  | of (k : PathKind) (raw : Bytes)
  | empty
  deriving DecidableEq, Repr

/-- The parts of `path`, `opaque_field`, `ext_hdr` and `host_addr` that `scion.py` uses without
defining, with the laws the results assume of them. -/
structure Wire where
  /-- `PathType.CORE`, `PathType.CROSS_OVER`, `PathType.PEER_LINK`, `PathType.EMPTY`. -/
  coreType : Nat
  crossOverType : Nat
  peerLinkType : Nat
  emptyType : Nat
  pathTypes_nodup : [coreType, crossOverType, peerLinkType, emptyType].Nodup
  /-- `InfoOpaqueField(raw).info`. -/
  info : Bytes → Nat
  /-- `up_flag` of the opaque field with these bytes. -/
  upFlag : Bytes → Bool
  /-- The bytes of an opaque field after `up_flag = False`. -/
  clearUpFlag : Bytes → Bytes
  clearUpFlag_length : ∀ b, (clearUpFlag b).length = b.length
  /-- A variant's own `reverse()`, on its packed bytes. -/
  reverseRaw : PathKind → Bytes → Bytes
  reverseRaw_length : ∀ k b, (reverseRaw k b).length = b.length
  /-- `ICNExtHdr.TYPE`. -/
  icnType : Nat
  /-- `SCIONAddr.from_values(0, 0, IPv4HostAddr(n))`. -/
  hostAddr : Nat → SCIONAddr
  /-- `addr.host_addr.to_int(endianness='little')`. -/
  hostInt : SCIONAddr → Nat
  /-- The byte order `struct.pack("HH", …)` uses. -/
  native : ByteOrder

/-- One choice of the open parts, to instantiate results at concrete packets: path types
`0x80`, `0xc0`, `0xf0` and `0` read from an info field's first byte, the direction flag in that
byte's lowest bit, reversal and flag clearing that keep the bytes, `ICNExtHdr.TYPE` `220`, host
numbers as four big-endian bytes, and a little-endian platform. -/
def Wire.sample : Wire where
  coreType := 0x80
  crossOverType := 0xc0
  peerLinkType := 0xf0
  emptyType := 0
  pathTypes_nodup := by decide
  info raw := (raw.headD 0).toNat
  upFlag raw := (raw.headD 0).toNat % 2 = 1
  clearUpFlag raw := raw
  clearUpFlag_length _ := rfl
  reverseRaw _ raw := raw
  reverseRaw_length _ _ := rfl
  icnType := 220
  hostAddr n := ⟨beBytes 4 n⟩
  hostInt a := beVal a.raw
  native := .little

/-- The `PathType` a variant's first opaque field carries. -/
def Wire.typeOf (W : Wire) : PathKind → Nat
  | .core => W.coreType
  | .crossOver => W.crossOverType
  | .peer => W.peerLinkType

namespace PathBase

/-- `pack()`. -/
def pack : PathBase → Bytes
  | of _ raw => raw
  | empty => []

/-- The number of whole opaque fields. -/
def count (p : PathBase) : Nat := p.pack.length / OpaqueField.len

/-- The slot Python's `list[i]` selects among the opaque fields: negative indices count from
the end. -/
def slotOf (p : PathBase) (i : Int) : Option Nat :=
  let j := if i < 0 then i + p.count else i
  if 0 ≤ j ∧ j < p.count then some j.toNat else none

/-- `get_of(index)`: the opaque field at `index`, `None` out of range. -/
def getOf (p : PathBase) (i : Int) : Option Bytes :=
  (p.slotOf i).map fun k => p.pack.slice (OpaqueField.len * k) (OpaqueField.len * (k + 1))

/-- Rewrites the bytes of a variant built from bytes. -/
def mapRaw (f : PathKind → Bytes → Bytes) : PathBase → PathBase
  | of k raw => of k (f k raw)
  | empty => empty

/-- `reverse()`. -/
def reverse (W : Wire) (p : PathBase) : PathBase := p.mapRaw W.reverseRaw

/-- `get_of(index).up_flag = False`: the opaque field the index selects is rewritten in place. -/
def clearUpFlagAt (W : Wire) (p : PathBase) (i : Int) : PathBase :=
  match p.slotOf i with
  | none => p
  | some k => p.mapRaw fun _ raw =>
      raw.take (OpaqueField.len * k) ++
        W.clearUpFlag (raw.slice (OpaqueField.len * k) (OpaqueField.len * (k + 1))) ++
        raw.drop (OpaqueField.len * (k + 1))

theorem length_pack_mapRaw {f : PathKind → Bytes → Bytes}
    (hf : ∀ k raw, (f k raw).length = raw.length) (p : PathBase) :
    (p.mapRaw f).pack.length = p.pack.length := by
  cases p <;> simp [mapRaw, pack, hf]

@[simp] theorem length_pack_reverse (W : Wire) (p : PathBase) :
    (p.reverse W).pack.length = p.pack.length :=
  length_pack_mapRaw W.reverseRaw_length p

@[simp] theorem length_pack_clearUpFlagAt (W : Wire) (p : PathBase) (i : Int) :
    (p.clearUpFlagAt W i).pack.length = p.pack.length := by
  unfold clearUpFlagAt
  split
  · rfl
  · refine length_pack_mapRaw (fun _ raw => ?_) p
    simp only [List.length_append, W.clearUpFlag_length, Bytes.length_slice, List.length_take,
      List.length_drop, OpaqueField.len]
    omega

end PathBase

/-! ### Extension records and payloads -/

/-- An extension record.  Modelled from the spec: "a typed extension record for `record_len`
bytes starting at `offset` (a dedicated variant for the one recognized extension kind, a
generic fallback otherwise)"; it packs to those bytes. -/
inductive ExtHdr
  | icn (raw : Bytes)
  | generic (raw : Bytes)
  deriving DecidableEq, Repr

/-- The bytes a record was built from. -/
def ExtHdr.raw : ExtHdr → Bytes
  | icn raw | generic raw => raw

/-- `pack()`. -/
def ExtHdr.pack (e : ExtHdr) : Bytes := e.raw

/-- `len()`. -/
def ExtHdr.len (e : ExtHdr) : Nat := e.raw.length

@[simp] theorem ExtHdr.length_pack (e : ExtHdr) : e.pack.length = e.len := rfl

@[simp] theorem ExtHdr.length_flatten_pack (es : List ExtHdr) :
    ((es.map ExtHdr.pack).flatten).length = (es.map ExtHdr.len).sum := by
  induction es <;> simp [*]

/-- A payload: bytes, or a nested packet (a `PacketBase`).  Modelled from the spec: a nested
packet is seen through its `pack()`, and its `len()` is the length of that. -/
inductive Payload
  | bytes (b : Bytes)
  | packet (packed : Bytes)
  deriving DecidableEq, Repr

/-- `len(payload)`. -/
def Payload.len : Payload → Nat
  | bytes b | packet b => b.length

/-! ### How a call ends -/

/-- A method that mutates its object returns, or raises after leaving the object as given. -/
inductive Ran (α : Type)
  | ok (a : α)
  | raised (a : α)
  deriving DecidableEq, Repr

/-- Calls `run` with each method in order, up to the first that raises. -/
def Ran.runAll {σ ω : Type} (run : ω → σ → Ran σ) : List ω → σ → Ran σ
  | [], s => .ok s
  | op :: ops, s =>
      match run op s with
      | .ok s' => Ran.runAll run ops s'
      | .raised s' => .raised s'

/-- Every object a run returns satisfies `P` when the start does and each returning call of a
method allowed by `A` keeps it. -/
theorem Ran.runAll_invariant {σ ω : Type} {run : ω → σ → Ran σ} {A : ω → Prop} {P : σ → Prop}
    (step : ∀ op s s', A op → P s → run op s = .ok s' → P s') :
    ∀ {ops : List ω} {s s' : σ}, (∀ op ∈ ops, A op) → P s → Ran.runAll run ops s = .ok s' → P s'
  | [], _, _, _, hp, hr => by cases hr; exact hp
  | op :: ops, s, s', hA, hp, hr => by
      simp only [Ran.runAll] at hr
      split at hr
      · exact runAll_invariant step (fun o ho => hA o (List.mem_cons_of_mem _ ho))
          (step op s _ (hA op (List.mem_cons_self _ _)) hp ‹_›) hr
      · cases hr

/-- Parsing a buffer returns marked parsed, returns early unparsed (the logged "too short"
cases), raises, or, in the model, runs out of fuel in the extension-chain walk. -/
inductive Parsed (α : Type)
  | parsed (a : α)
  | unparsed
  | raised
  | outOfFuel
  deriving DecidableEq, Repr

end ScionPacket
