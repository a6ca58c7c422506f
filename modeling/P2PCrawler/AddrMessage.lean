import P2PCrawler.Wire
import P2PCrawler.HostKeys
import Mathlib.Tactic.MkIffOfInductiveProp

/-!
# Address messages on the wire (`protocol.rs`)

The parsers of `addr` and `addrv2` payloads, and the grammar they accept.

* `parseAddr`, `parseAddrv2` — one loop over the declared entries; `Gathered` holds what the
  loop has collected, with the number of entries still to be read.
* `Addrv2Entry` — one BIP155 entry by its fields, `Addrv2Entry.bytes` and `Addrv2Entry.decoded`
  what stands for it on the wire and what is kept of it.

## Results

* `recognizes_readEntries` — the loop takes the entries one behind the other.
* `parseAddrv2_grammar` — **the grammar of `addrv2`**, in both directions.
* `parseAddr_grammar` — **the grammar of `addr`**, in both directions; no two legacy addresses
  have one host and port.
-/

set_option autoImplicit false

namespace P2PCrawler

open Reader

/-! ## Parsers -/

abbrev AddrReader (α : Type) := Reader Byte AddrParseError α

/-- `.ok_or(AddrParseError::NonCanonicalOrTruncated)`. -/
def Cursor.orTruncated {α : Type} (r : Cursor α) : AddrReader α :=
  r.mapError fun _ => .nonCanonicalOrTruncated

def checkAddrCount (count : Nat) : AddrReader Unit :=
  check (count ≤ maxAddrToSend) (.tooMany count)

/-- The address of one entry, with its decoded host and network. -/
def advertised (ts services : Nat) (netId : Byte) (port : UInt16) (h : String × NetworkType) :
    AdvertisedAddr :=
  { host := h.1, port, network := h.2, timestamp := ts, services, wireNetworkId := netId }

/-- One entry of a legacy `addr` payload. -/
def legacyEntry : AddrReader (Option AdvertisedAddr) := do
  let ts ← (Cursor.uintLe 4).orTruncated
  let services ← (Cursor.uintLe 8).orTruncated
  let ip ← (Cursor.take 16).orTruncated
  let port ← Cursor.u16Be.orTruncated
  pure (some (advertised ts services 2 port (decodeLegacyIp ip)))

/-- One entry of a BIP155 payload; `none` for an unknown network id. -/
def addrv2Entry (H : Digests) : AddrReader (Option AdvertisedAddr) := do
  let ts ← (Cursor.uintLe 4).orTruncated
  let services ← Cursor.compactSizeCanonical.orTruncated
  let netId ← Cursor.u8.orTruncated
  let addrLen ← Cursor.compactSizeCanonical.orTruncated
  check (addrLen ≤ 512) (.wrongLength netId addrLen)
  check (addrLen = (expectedLength netId).getD addrLen) (.wrongLength netId addrLen)
  let bytes ← (Cursor.take addrLen).orTruncated
  let port ← Cursor.u16Be.orTruncated
  let decoded ← ofResult (decodeAddrv2 H netId bytes)
  pure (decoded.map (advertised ts services netId port))

/-- The accumulators of the loop, with `left` of the `count` declared entries still to be
    read. -/
structure Gathered (count left : Nat) where
  addrs : List AdvertisedAddr
  unknownEntries : Nat
  counted : count = addrs.length + unknownEntries + left

namespace Gathered

def start (count : Nat) : Gathered count count := ⟨[], 0, by simp⟩

/-- One entry has been read. -/
def add {count left : Nat} (g : Gathered count (left + 1)) :
    Option AdvertisedAddr → Gathered count left
  | none => ⟨g.addrs, g.unknownEntries + 1, by have := g.counted; omega⟩
  | some a => ⟨g.addrs ++ [a], g.unknownEntries, by have := g.counted; simp; omega⟩

def message {count : Nat} (g : Gathered count 0) : ParsedAddrMessage :=
  ⟨count, g.addrs, g.unknownEntries, g.counted⟩

end Gathered

def readEntries (entry : AddrReader (Option AdvertisedAddr)) {count : Nat} :
    (left : Nat) → Gathered count left → AddrReader (Gathered count 0)
  | 0, g => pure g
  | left + 1, g => do
    let item ← entry
    readEntries entry left (g.add item)

/-- The count and the entries. -/
def messageReader (entry : AddrReader (Option AdvertisedAddr)) : AddrReader ParsedAddrMessage := do
  let count ← Cursor.compactSizeCanonical.orTruncated
  checkAddrCount count
  Gathered.message <$> readEntries entry count (.start count)

/-- A whole payload: nothing may follow the entries. -/
def parseEntries (entry : AddrReader (Option AdvertisedAddr)) (payload : List Byte) :
    Except AddrParseError ParsedAddrMessage :=
  (messageReader entry).finish .trailingBytes payload

/-- Parse a legacy `addr` payload atomically. -/
def parseAddr (payload : List Byte) : Except AddrParseError ParsedAddrMessage :=
  parseEntries legacyEntry payload

/-- Parse BIP155 atomically. -/
def parseAddrv2 (H : Digests) (payload : List Byte) : Except AddrParseError ParsedAddrMessage :=
  parseEntries (addrv2Entry H) payload

/-! ## The loop -/

/-- The message of a list of entries. -/
def ParsedAddrMessage.ofItems (items : List (Option AdvertisedAddr)) : ParsedAddrMessage where
  declaredCount := items.length
  addrs := items.filterMap id
  unknownEntries := items.countP Option.isNone
  counted := by
    induction items with
    | nil => rfl
    | cons item items ih =>
      cases item with
      | none => simp [ih]; omega
      | some a => simp [ih]; omega

@[simp] theorem Gathered.add_addrs {count left : Nat} (g : Gathered count (left + 1))
    (item : Option AdvertisedAddr) : (g.add item).addrs = g.addrs ++ item.toList := by
  cases item <;> simp [Gathered.add]

@[simp] theorem Gathered.add_unknownEntries {count left : Nat} (g : Gathered count (left + 1))
    (item : Option AdvertisedAddr) :
    (g.add item).unknownEntries = g.unknownEntries + [item].countP Option.isNone := by
  cases item <;> simp [Gathered.add]

theorem Gathered.ext {count left : Nat} {g g' : Gathered count left} (ha : g'.addrs = g.addrs)
    (hu : g'.unknownEntries = g.unknownEntries) : g' = g := by
  cases g
  cases g'
  simp only at ha hu
  subst ha hu
  rfl

section Loop
variable {entry : AddrReader (Option AdvertisedAddr)} {E : Grammar (Option AdvertisedAddr) Byte}

/-- `items` have been added to the accumulators. -/
def Gathered.After {count left : Nat} (g : Gathered count left) (g' : Gathered count 0)
    (items : List (Option AdvertisedAddr)) : Prop :=
  g'.addrs = g.addrs ++ items.filterMap id ∧
    g'.unknownEntries = g.unknownEntries + items.countP Option.isNone

theorem Gathered.after_cons {count left : Nat} {g : Gathered count (left + 1)}
    {g' : Gathered count 0} {item : Option AdvertisedAddr} {items : List (Option AdvertisedAddr)} :
    g.After g' (item :: items) ↔ (g.add item).After g' items := by
  unfold Gathered.After
  rw [Gathered.add_addrs, Gathered.add_unknownEntries, List.append_assoc, Nat.add_assoc]
  cases item with
  | none => simp [Nat.add_comm]
  | some a => simp

/-- **The loop** takes the entries one behind the other. -/
theorem recognizes_readEntries (h : Recognizes entry E) {count : Nat} :
    ∀ (left : Nat) (g : Gathered count left), Recognizes (readEntries entry left g) (fun g' w =>
      ∃ items, items.length = left ∧ Many E items w ∧ g.After g' items)
  | 0, g => by
    refine (recognizes_pure g).congr fun g' w => ?_
    constructor
    · rintro ⟨rfl, rfl⟩
      exact ⟨[], rfl, .nil, by simp [Gathered.After]⟩
    · rintro ⟨items, hlen, hmany, haddrs, hunknown⟩
      obtain rfl := List.length_eq_zero_iff.mp hlen
      cases hmany
      exact ⟨Gathered.ext (by simpa using haddrs) (by simpa using hunknown), rfl⟩
  | left + 1, g => by
    have ih := fun item => recognizes_readEntries h left (g.add item)
    refine (h.bind fun item _ _ => ih item).congr fun g' w => ?_
    constructor
    · rintro ⟨item, u, v, hu, ⟨items, hlen, hmany, hafter⟩, rfl⟩
      exact ⟨item :: items, by simp [hlen], .cons hu hmany, Gathered.after_cons.mpr hafter⟩
    · rintro ⟨items, hlen, hmany, hafter⟩
      cases hmany with
      | nil => cases hlen
      | @cons item items u v hu hmany =>
        exact ⟨item, u, v, hu, ⟨items, by simpa using hlen, hmany, Gathered.after_cons.mp hafter⟩, rfl⟩

theorem message_eq_ofItems {items : List (Option AdvertisedAddr)} {g : Gathered items.length 0}
    (h : (Gathered.start items.length).After g items) : g.message = .ofItems items := by
  obtain ⟨haddrs, hunknown⟩ := h
  unfold Gathered.message ParsedAddrMessage.ofItems
  simp only [ParsedAddrMessage.mk.injEq, true_and]
  exact ⟨by simpa [Gathered.start] using haddrs, by simpa [Gathered.start] using hunknown⟩

/-- The collected state of a list of entries. -/
theorem exists_after (items : List (Option AdvertisedAddr)) :
    ∃ g : Gathered items.length 0, (Gathered.start items.length).After g items := by
  have h := (ParsedAddrMessage.ofItems items).counted
  exact ⟨⟨items.filterMap id, items.countP Option.isNone, h⟩, by simp [Gathered.start],
    by simp [Gathered.start]⟩

theorem recognizes_messageReader (h : Recognizes entry E) :
    Recognizes (messageReader entry) (fun m w => ∃ items u, items.length ≤ maxAddrToSend ∧
      Many E items u ∧ w = writeCompactSize items.length ++ u ∧ m = .ofItems items) := by
  have hcount := recognizes_compactSizeCanonical.mapError
    fun _ => AddrParseError.nonCanonicalOrTruncated
  have hbody := hcount.bind fun count _ _ =>
    (recognizes_check (β := Byte) (count ≤ maxAddrToSend) (AddrParseError.tooMany count)).bind
      fun _ _ _ => (recognizes_readEntries h count (.start count)).map Gathered.message
  refine hbody.congr fun m w => ?_
  constructor
  · rintro ⟨_, _, _, ⟨_, rfl⟩, ⟨_, _, u, ⟨hmax, rfl⟩, ⟨g, ⟨items, rfl, hmany, hafter⟩, rfl⟩, rfl⟩, rfl⟩
    exact ⟨items, _, hmax, hmany, rfl, message_eq_ofItems hafter⟩
  · rintro ⟨items, u, hmax, hmany, rfl, rfl⟩
    obtain ⟨g, hafter⟩ := exists_after items
    have hlt : items.length < 2 ^ 64 := by
      unfold maxAddrToSend at hmax
      omega
    exact ⟨items.length, _, u, ⟨hlt, rfl⟩, ⟨(), [], u, ⟨hmax, rfl⟩,
      ⟨g, ⟨items, rfl, hmany, hafter⟩, (message_eq_ofItems hafter).symm⟩, rfl⟩, rfl⟩

end Loop

/-! ## BIP155 entries -/

/-- One entry of a BIP155 payload by its fields. -/
structure Addrv2Entry where
  time : UInt32
  services : UInt64
  netId : Byte
  addr : List Byte
  port : UInt16

namespace Addrv2Entry

/-- The entry on the wire. -/
def bytes (e : Addrv2Entry) : List Byte :=
  leBytes 4 e.time.toNat ++ writeCompactSize e.services.toNat ++ [e.netId] ++
    writeCompactSize e.addr.length ++ e.addr ++ beBytes 2 e.port.toNat

/-- The rules an entry has to meet. -/
@[mk_iff]
structure Valid (e : Addrv2Entry) : Prop where
  short : e.addr.length ≤ 512
  ipv4 : e.netId = 1 → e.addr.length = 4
  ipv6 : e.netId = 2 → e.addr.length = 16 ∧ Net.ipv4Mapped e.addr = none ∧ e.addr.head? ≠ some 0xfc
  onionV2 : e.netId = 3 → e.addr.length = 10
  onionV3 : e.netId = 4 → e.addr.length = 32
  i2p : e.netId = 5 → e.addr.length = 32
  cjdns : e.netId = 6 → e.addr.length = 16 ∧ e.addr.head? = some 0xfc

/-- The host encoding and the network of the address bytes; `none` for an id outside 1 to 6. -/
def host (H : Digests) (e : Addrv2Entry) : Option (String × NetworkType) :=
  if e.netId = 1 then some (String.ofList (Net.ipv4Text e.addr), .ipv4)
  else if e.netId = 2 then some (String.ofList (Net.ipv6Text e.addr), .ipv6)
  else if e.netId = 3 then
    some (String.ofList (base32Label e.addr ++ ".onion".toList), .onionV2)
  else if e.netId = 4 then
    some (String.ofList (base32Label (e.addr ++ onionV3Checksum H e.addr ++ [3]) ++
      ".onion".toList), .onionV3)
  else if e.netId = 5 then
    some (String.ofList (base32Label e.addr ++ ".b32.i2p".toList), .i2p)
  else if e.netId = 6 then some (String.ofList (Net.ipv6Text e.addr), .cjdns)
  else none

/-- What is kept of an entry. -/
def decoded (H : Digests) (e : Addrv2Entry) : Option AdvertisedAddr :=
  (e.host H).map (advertised e.time.toNat e.services.toNat e.netId e.port)

end Addrv2Entry

/-- The length check and the decoder accept exactly the valid entries, with their hosts. -/
theorem decodeAddrv2_ok_iff (H : Digests) (e : Addrv2Entry) (r : Option (String × NetworkType)) :
    (e.addr.length ≤ 512 ∧ e.addr.length = (expectedLength e.netId).getD e.addr.length ∧
      decodeAddrv2 H e.netId e.addr = .ok r) ↔ (e.Valid ∧ r = e.host H) := by
  obtain ⟨time, services, netId, addr, port⟩ := e
  rw [Addrv2Entry.valid_iff]
  unfold expectedLength decodeAddrv2 Addrv2Entry.host
  by_cases h1 : netId = 1
  · subst h1
    by_cases hlen : addr.length = 4
    · simp [hlen, List.take_of_length_le hlen.le, eq_comm]
    · simp [hlen]
  by_cases h2 : netId = 2
  · subst h2
    by_cases hmapped : Net.ipv4Mapped addr = none
    · by_cases hfc : addr.head? = some 0xfc
      · simp [hmapped, hfc]
      · simp [hmapped, hfc, and_assoc, eq_comm]
    · simp [hmapped, Option.isSome_iff_ne_none]
  by_cases h3 : netId = 3
  · subst h3
    simp [and_assoc, eq_comm]
  by_cases h4 : netId = 4
  · subst h4
    by_cases hlen : addr.length = 32
    · simp [encodeOnionV3, hlen, eq_comm]
    · simp [hlen]
  by_cases h5 : netId = 5
  · subst h5
    simp [and_assoc, eq_comm]
  by_cases h6 : netId = 6
  · subst h6
    by_cases hfc : addr.head? = some 0xfc
    · simp [hfc, and_assoc, eq_comm]
    · simp [hfc]
  · simp [h1, h2, h3, h4, h5, h6, eq_comm]

/-- **One entry.**  The reader takes exactly the valid entries. -/
theorem recognizes_addrv2Entry (H : Digests) :
    Recognizes (addrv2Entry H) (fun item w =>
      ∃ e : Addrv2Entry, e.Valid ∧ item = e.decoded H ∧ w = e.bytes) := by
  have err {α : Type} {r : Cursor α} {G : Grammar α Byte} (h : Recognizes r G) :
      Recognizes r.orTruncated G := h.mapError _
  have hbody := (err (recognizes_uintLe 4)).bind fun ts _ _ =>
    (err recognizes_compactSizeCanonical).bind fun services _ _ =>
    (err recognizes_u8).bind fun netId _ _ =>
    (err recognizes_compactSizeCanonical).bind fun addrLen _ _ =>
    (recognizes_check (β := Byte) (addrLen ≤ 512) (AddrParseError.wrongLength netId addrLen)).bind
      fun _ _ _ =>
    (recognizes_check (β := Byte) (addrLen = (expectedLength netId).getD addrLen)
      (AddrParseError.wrongLength netId addrLen)).bind fun _ _ _ =>
    (err (recognizes_take () addrLen)).bind fun bytes _ _ =>
    (err recognizes_u16Be).bind fun port _ _ =>
    (recognizes_ofResult (β := Byte) (decodeAddrv2 H netId bytes)).bind fun decoded _ _ =>
    recognizes_pure (decoded.map (advertised ts services netId port))
  refine hbody.congr fun item w => ?_
  constructor
  · rintro ⟨ts, u₁, v₁, ⟨hts, hu₁⟩, h⟩
    obtain ⟨⟨services, u₂, v₂, ⟨hservices, hu₂⟩, h⟩, hw⟩ := h
    obtain ⟨⟨netId, u₃, v₃, hu₃, h⟩, hv₁⟩ := h
    obtain ⟨⟨addrLen, u₄, v₄, ⟨_, hu₄⟩, h⟩, hv₂⟩ := h
    obtain ⟨⟨_, u₅, v₅, ⟨hshort, hu₅⟩, h⟩, hv₃⟩ := h
    obtain ⟨⟨_, u₆, v₆, ⟨hlen, hu₆⟩, h⟩, hv₄⟩ := h
    obtain ⟨⟨bytes, u₇, v₇, ⟨hu₇, hbytes⟩, h⟩, hv₅⟩ := h
    obtain ⟨⟨port, u₈, v₈, hu₈, h⟩, hv₆⟩ := h
    obtain ⟨⟨decoded, u₉, v₉, ⟨hdecoded, hu₉⟩, ⟨hitem, hv₉⟩, hv₈⟩, hv₇⟩ := h
    have htime : (UInt32.ofNat ts).toNat = ts := UInt32.toNat_ofNat_of_lt hts
    have hserv : (UInt64.ofNat services).toNat = services := UInt64.toNat_ofNat_of_lt hservices
    subst hbytes
    let e : Addrv2Entry := ⟨UInt32.ofNat ts, UInt64.ofNat services, netId, bytes, port⟩
    obtain ⟨hvalid, hhost⟩ := (decodeAddrv2_ok_iff H e decoded).mp ⟨hshort, hlen, hdecoded⟩
    refine ⟨e, hvalid, ?_, ?_⟩
    · rw [hitem, hhost]
      simp only [Addrv2Entry.decoded, e, htime, hserv]
    · simp only [Addrv2Entry.bytes, e, htime, hserv]
      subst hw hv₁ hv₂ hv₃ hv₄ hv₅ hv₆ hv₇ hv₈ hv₉ hu₁ hu₂ hu₃ hu₄ hu₅ hu₆ hu₇ hu₈ hu₉
      simp
  · rintro ⟨e, hvalid, rfl, rfl⟩
    obtain ⟨hshort, hlen, hdecoded⟩ := (decodeAddrv2_ok_iff H e _).mpr ⟨hvalid, rfl⟩
    refine ⟨e.time.toNat, _, _, ⟨e.time.toNat_lt, rfl⟩, ⟨e.services.toNat, _, _,
      ⟨e.services.toNat_lt, rfl⟩, ⟨e.netId, _, _, rfl, ⟨e.addr.length, _, _, ⟨by omega, rfl⟩,
      ⟨(), _, _, ⟨hshort, rfl⟩, ⟨(), _, _, ⟨hlen, rfl⟩, ⟨e.addr, _, _, ⟨rfl, rfl⟩,
      ⟨e.port, _, _, rfl, ⟨e.host H, _, _, ⟨hdecoded, rfl⟩, ⟨rfl, rfl⟩, rfl⟩, rfl⟩, rfl⟩, rfl⟩, rfl⟩,
      rfl⟩, rfl⟩, rfl⟩, ?_⟩
    simp [Addrv2Entry.bytes]

/-! ## Payloads -/

/-- The network id is one of the six that BIP155 defines. -/
def Addrv2Entry.known (e : Addrv2Entry) : Prop := 1 ≤ e.netId.toNat ∧ e.netId.toNat ≤ 6

instance (e : Addrv2Entry) : Decidable e.known := inferInstanceAs (Decidable (_ ∧ _))

theorem Addrv2Entry.decoded_isNone (H : Digests) (e : Addrv2Entry) :
    (e.decoded H).isNone = decide (¬ e.known) := by
  obtain ⟨time, services, netId, addr, port⟩ := e
  have hid : ∀ n : Nat, n < 256 → (netId = UInt8.ofNat n ↔ netId.toNat = n) := by
    intro n hn
    rw [← UInt8.toNat_inj, UInt8.toNat_ofNat', Nat.mod_eq_of_lt hn]
  have h1 := hid 1 (by omega)
  have h2 := hid 2 (by omega)
  have h3 := hid 3 (by omega)
  have h4 := hid 4 (by omega)
  have h5 := hid 5 (by omega)
  have h6 := hid 6 (by omega)
  simp only [UInt8.reduceOfNat] at h1 h2 h3 h4 h5 h6
  simp only [Addrv2Entry.decoded, Addrv2Entry.host, Addrv2Entry.known, Option.isNone_map, h1, h2, h3,
    h4, h5, h6]
  split_ifs <;> simp <;> omega

/-- The items of a message, entry by entry. -/
theorem many_addrv2_iff (H : Digests) (items : List (Option AdvertisedAddr)) (w : List Byte) :
    Many (fun item w => ∃ e : Addrv2Entry, e.Valid ∧ item = e.decoded H ∧ w = e.bytes) items w ↔
      ∃ es : List Addrv2Entry, (∀ e ∈ es, e.Valid) ∧ items = es.map (·.decoded H) ∧
        w = es.flatMap Addrv2Entry.bytes :=
  many_map_iff (fun _ _ => Iff.rfl) items w

/-- **The grammar of `addrv2`.**  A payload is accepted iff it is the count of at most 1000 valid
    entries followed by these and nothing else; then the message counts the entries, lists the
    known ones in order, and counts the unknown ones.  No accepted payload starts another. -/
theorem parseAddrv2_grammar (H : Digests) (p : List Byte) :
    (∀ m, parseAddrv2 H p = .ok m ↔ ∃ es : List Addrv2Entry,
      es.length ≤ 1000 ∧ (∀ e ∈ es, e.Valid) ∧
      p = writeCompactSize es.length ++ es.flatMap Addrv2Entry.bytes ∧
      m.declaredCount = es.length ∧ m.unknownEntries = es.countP (fun e => decide (¬ e.known)) ∧
      m.addrs = es.filterMap (·.decoded H)) ∧
    (∀ m, parseAddrv2 H p = .ok m → m.declaredCount = m.addrs.length + m.unknownEntries) ∧
    (∀ q m m', q <+: p → parseAddrv2 H p = .ok m → parseAddrv2 H q = .ok m' → q = p) := by
  have hmessage := recognizes_messageReader (recognizes_addrv2Entry H)
  refine ⟨fun m => ?_, fun m _ => m.counted, ?_⟩
  · unfold parseAddrv2 parseEntries
    rw [hmessage.finish_ok_iff]
    constructor
    · rintro ⟨items, u, hmax, hmany, rfl, rfl⟩
      obtain ⟨es, hvalid, rfl, rfl⟩ := (many_addrv2_iff H items u).mp hmany
      refine ⟨es, by simpa [maxAddrToSend] using hmax, hvalid, by simp, by simp [ParsedAddrMessage.ofItems], ?_, ?_⟩
      · simp only [ParsedAddrMessage.ofItems, List.countP_map, Function.comp_def,
          Addrv2Entry.decoded_isNone]
      · simp [ParsedAddrMessage.ofItems, List.filterMap_map, Function.comp_def]
    · rintro ⟨es, hmax, hvalid, rfl, hdeclared, hunknown, haddrs⟩
      refine ⟨es.map (·.decoded H), es.flatMap Addrv2Entry.bytes, ?_, ?_, by simp, ?_⟩
      · simpa [maxAddrToSend] using hmax
      · exact (many_addrv2_iff H _ _).mpr ⟨es, hvalid, rfl, rfl⟩
      · obtain ⟨declared, addrs, unknown, counted⟩ := m
        simp only at hdeclared hunknown haddrs
        simp only [ParsedAddrMessage.ofItems, ParsedAddrMessage.mk.injEq, List.length_map,
          List.countP_map, List.filterMap_map, Function.comp_def, Addrv2Entry.decoded_isNone]
        exact ⟨hdeclared, haddrs, hunknown⟩
  · rintro q m m' ⟨s, rfl⟩ hm hm'
    have hp := (hmessage.finish_ok_iff .trailingBytes _ m).mp hm
    have hq := (hmessage.finish_ok_iff .trailingBytes _ m').mp hm'
    have hs := hmessage.extension_rejected hq hp
    rw [hs, List.append_nil]

/-! ## Legacy entries -/

/-- One entry of a legacy payload by its fields. -/
structure LegacyEntry where
  time : UInt32
  services : UInt64
  ip : List Byte
  port : UInt16
  sized : ip.length = 16

namespace LegacyEntry

/-- The entry on the wire. -/
def bytes (e : LegacyEntry) : List Byte :=
  leBytes 4 e.time.toNat ++ leBytes 8 e.services.toNat ++ e.ip ++ beBytes 2 e.port.toNat

def decoded (e : LegacyEntry) : AdvertisedAddr :=
  advertised e.time.toNat e.services.toNat 2 e.port (decodeLegacyIp e.ip)

end LegacyEntry

theorem recognizes_legacyEntry :
    Recognizes legacyEntry (fun item w => ∃ e : LegacyEntry, True ∧ item = some e.decoded ∧
      w = e.bytes) := by
  have err {α : Type} {r : Cursor α} {G : Grammar α Byte} (h : Recognizes r G) :
      Recognizes r.orTruncated G := h.mapError _
  have hbody := (err (recognizes_uintLe 4)).bind fun ts _ _ =>
    (err (recognizes_uintLe 8)).bind fun services _ _ =>
    (err (recognizes_take () 16)).bind fun ip _ _ =>
    (err recognizes_u16Be).bind fun port _ _ =>
    recognizes_pure (some (advertised ts services 2 port (decodeLegacyIp ip)))
  refine hbody.congr fun item w => ?_
  constructor
  · rintro ⟨ts, u₁, v₁, ⟨hts, hu₁⟩, h⟩
    obtain ⟨⟨services, u₂, v₂, ⟨hservices, hu₂⟩, h⟩, hw⟩ := h
    obtain ⟨⟨ip, u₃, v₃, ⟨hu₃, hip⟩, h⟩, hv₁⟩ := h
    obtain ⟨⟨port, u₄, v₄, hu₄, ⟨hitem, hv₄⟩, hv₃⟩, hv₂⟩ := h
    have htime : (UInt32.ofNat ts).toNat = ts := UInt32.toNat_ofNat_of_lt hts
    have hserv : (UInt64.ofNat services).toNat = services := UInt64.toNat_ofNat_of_lt hservices
    refine ⟨⟨UInt32.ofNat ts, UInt64.ofNat services, ip, port, hip⟩, trivial, ?_, ?_⟩
    · rw [hitem]
      simp only [LegacyEntry.decoded, htime, hserv]
    · simp only [LegacyEntry.bytes, htime, hserv]
      subst hw hv₁ hv₂ hv₃ hv₄ hu₁ hu₂ hu₃ hu₄
      simp
  · rintro ⟨e, -, rfl, rfl⟩
    refine ⟨e.time.toNat, _, _, ⟨e.time.toNat_lt, rfl⟩, ⟨e.services.toNat, _, _,
      ⟨e.services.toNat_lt, rfl⟩, ⟨e.ip, _, _, ⟨rfl, e.sized⟩, ⟨e.port, _, _, rfl, ⟨rfl, rfl⟩, rfl⟩,
      rfl⟩, rfl⟩, ?_⟩
    simp [LegacyEntry.bytes]

theorem LegacyEntry.length_bytes (e : LegacyEntry) : e.bytes.length = 30 := by
  unfold LegacyEntry.bytes
  simp only [List.length_append, leBytes_length, e.sized, beBytes_length]

/-- Thirty bytes are one entry. -/
theorem exists_legacyEntry {w : List Byte} (hw : w.length = 30) : ∃ e : LegacyEntry, e.bytes = w := by
  obtain ⟨ts, w, rfl, hts, hw⟩ := exists_append_of_length (a := 4) (b := 26) hw
  obtain ⟨services, w, rfl, hservices, hw⟩ := exists_append_of_length (a := 8) (b := 18) hw
  obtain ⟨ip, port, rfl, hip, hport⟩ := exists_append_of_length (a := 16) (b := 2) hw
  obtain ⟨hts_lt, hts⟩ := eq_leBytes_iff.mp ⟨hts, rfl⟩
  obtain ⟨hservices_lt, hservices⟩ := eq_leBytes_iff.mp ⟨hservices, rfl⟩
  obtain ⟨hport_lt, hport⟩ := eq_beBytes_iff.mp ⟨hport, rfl⟩
  have htime : (UInt32.ofNat (leVal ts)).toNat = leVal ts := UInt32.toNat_ofNat_of_lt hts_lt
  have hserv : (UInt64.ofNat (leVal services)).toNat = leVal services :=
    UInt64.toNat_ofNat_of_lt hservices_lt
  have hp : (UInt16.ofNat (beVal port)).toNat = beVal port := UInt16.toNat_ofNat_of_lt hport_lt
  refine ⟨⟨UInt32.ofNat (leVal ts), UInt64.ofNat (leVal services), ip, UInt16.ofNat (beVal port),
    hip⟩, ?_⟩
  simp only [LegacyEntry.bytes, htime, hserv, hp, ← hts, ← hservices, ← hport, List.append_assoc]

/-- The entries behind a count: thirty bytes for each. -/
theorem exists_legacyEntries : ∀ {n : Nat} {w : List Byte}, w.length = 30 * n →
    ∃ es : List LegacyEntry, es.length = n ∧ es.flatMap LegacyEntry.bytes = w
  | 0, w, hw => ⟨[], rfl, (List.length_eq_zero_iff.mp hw).symm⟩
  | n + 1, w, hw => by
    obtain ⟨first, rest, rfl, hfirst, hrest⟩ :=
      exists_append_of_length (a := 30) (b := 30 * n) (by omega : w.length = 30 + 30 * n)
    obtain ⟨e, rfl⟩ := exists_legacyEntry hfirst
    obtain ⟨es, hlen, rfl⟩ := exists_legacyEntries hrest
    exact ⟨e :: es, by simp [hlen], rfl⟩

theorem length_legacyEntries (es : List LegacyEntry) :
    (es.flatMap LegacyEntry.bytes).length = 30 * es.length := by
  induction es with
  | nil => rfl
  | cons e es ih =>
    rw [List.flatMap_cons, List.length_append, e.length_bytes, ih, List.length_cons]
    omega

/-- The host and the network of an entry. -/
theorem LegacyEntry.host_decoded (e : LegacyEntry) :
    (∀ v4, e.ip = List.replicate 10 0 ++ [0xff, 0xff] ++ v4 →
      e.decoded.host = String.ofList (Net.ipv4Text v4) ∧ e.decoded.network = .ipv4) ∧
    ((∀ v4, e.ip ≠ List.replicate 10 0 ++ [0xff, 0xff] ++ v4) →
      e.decoded.host = String.ofList (Net.ipv6Text e.ip) ∧ e.decoded.network = .ipv6) := by
  show (∀ v4, _ → (decodeLegacyIp e.ip).1 = _ ∧ (decodeLegacyIp e.ip).2 = _) ∧
    (_ → (decodeLegacyIp e.ip).1 = _ ∧ (decodeLegacyIp e.ip).2 = _)
  unfold decodeLegacyIp
  constructor
  · intro v4 hip
    have hfour : v4.length = 4 := by simpa [hip] using e.sized
    have hmapped : Net.ipv4Mapped e.ip = some v4 := by
      rw [hip]
      show some (v4.take 4) = some v4
      rw [← hfour, List.take_length]
    rw [hmapped]
    exact ⟨rfl, rfl⟩
  · intro hip
    cases hmapped : Net.ipv4Mapped e.ip with
    | none => exact ⟨rfl, rfl⟩
    | some v4 => exact absurd (ipv4Mapped_eq_some e.sized hmapped).2 (hip v4)

theorem parseAddr_ok_iff (p : List Byte) (m : ParsedAddrMessage) :
    parseAddr p = .ok m ↔ ∃ es : List LegacyEntry, es.length ≤ 1000 ∧
      p = writeCompactSize es.length ++ es.flatMap LegacyEntry.bytes ∧
      m = .ofItems (es.map fun e => some e.decoded) := by
  unfold parseAddr parseEntries
  rw [(recognizes_messageReader recognizes_legacyEntry).finish_ok_iff]
  have hmany := @many_map_iff _ _ _ LegacyEntry LegacyEntry.bytes (fun e => some e.decoded)
    (fun _ => True) (fun _ _ => Iff.rfl)
  constructor
  · rintro ⟨items, u, hmax, hitems, rfl, rfl⟩
    obtain ⟨es, -, rfl, rfl⟩ := (hmany items u).mp hitems
    rw [List.length_map] at hmax
    refine ⟨es, hmax, ?_, rfl⟩
    rw [List.length_map]
  · rintro ⟨es, hmax, rfl, rfl⟩
    refine ⟨_, _, ?_, (hmany _ _).mpr ⟨es, fun _ _ => trivial, rfl, rfl⟩, ?_, rfl⟩
    · rw [List.length_map]
      exact hmax
    · rw [List.length_map]

theorem ofItems_known (addrs : List AdvertisedAddr) :
    (ParsedAddrMessage.ofItems (addrs.map some)).declaredCount = addrs.length ∧
    (ParsedAddrMessage.ofItems (addrs.map some)).unknownEntries = 0 ∧
    (ParsedAddrMessage.ofItems (addrs.map some)).addrs = addrs := by
  simp [ParsedAddrMessage.ofItems, List.filterMap_map, List.countP_map, Function.comp_def]

/-- **The grammar of `addr`.**  A payload is accepted iff it is the count of at most 1000 entries
    followed by thirty bytes for each of them and nothing else; then the message lists the
    entries in order, each with its time, services, port and the host of its sixteen bytes, and
    no two entries with other bytes or another port have one host and port. -/
theorem parseAddr_grammar (p : List Byte) :
    (∀ m, parseAddr p = .ok m ↔ ∃ es : List LegacyEntry, es.length ≤ 1000 ∧
      p = writeCompactSize es.length ++ es.flatMap LegacyEntry.bytes ∧
      m.declaredCount = es.length ∧ m.unknownEntries = 0 ∧ m.addrs = es.map LegacyEntry.decoded) ∧
    ((∃ m, parseAddr p = .ok m) ↔ ∃ n records, n ≤ 1000 ∧ records.length = 30 * n ∧
      p = writeCompactSize n ++ records) ∧
    (∀ e : LegacyEntry, e.decoded.timestamp = e.time.toNat ∧ e.decoded.services = e.services.toNat ∧
      e.decoded.port = e.port ∧
      (∀ v4, e.ip = List.replicate 10 0 ++ [0xff, 0xff] ++ v4 →
        e.decoded.host = String.ofList (Net.ipv4Text v4) ∧ e.decoded.network = .ipv4) ∧
      ((∀ v4, e.ip ≠ List.replicate 10 0 ++ [0xff, 0xff] ++ v4) →
        e.decoded.host = String.ofList (Net.ipv6Text e.ip) ∧ e.decoded.network = .ipv6)) ∧
    (∀ e e' : LegacyEntry, (e.decoded.host, e.decoded.port) = (e'.decoded.host, e'.decoded.port) →
      e.ip = e'.ip ∧ e.port = e'.port) := by
  refine ⟨fun m => ?_, ?_, fun e => ⟨rfl, rfl, rfl, e.host_decoded⟩, ?_⟩
  · rw [parseAddr_ok_iff]
    constructor
    · rintro ⟨es, hmax, hp, rfl⟩
      have hitems := ofItems_known (es.map LegacyEntry.decoded)
      rw [List.map_map, List.length_map] at hitems
      exact ⟨es, hmax, hp, hitems⟩
    · rintro ⟨es, hmax, hp, hdeclared, hunknown, haddrs⟩
      have hitems := ofItems_known (es.map LegacyEntry.decoded)
      rw [List.map_map, List.length_map] at hitems
      refine ⟨es, hmax, hp, ?_⟩
      obtain ⟨declared, addrs, unknown, counted⟩ := m
      show ParsedAddrMessage.mk .. = ParsedAddrMessage.mk ..
      rw [ParsedAddrMessage.mk.injEq]
      exact ⟨hdeclared.trans hitems.1.symm, haddrs.trans hitems.2.2.symm,
        hunknown.trans hitems.2.1.symm⟩
  · constructor
    · rintro ⟨m, hm⟩
      obtain ⟨es, hmax, hp, -⟩ := (parseAddr_ok_iff p m).mp hm
      exact ⟨es.length, _, hmax, length_legacyEntries es, hp⟩
    · rintro ⟨n, records, hmax, hlen, hp⟩
      obtain ⟨es, rfl, rfl⟩ := exists_legacyEntries hlen
      exact ⟨_, (parseAddr_ok_iff p _).mpr ⟨es, hmax, hp, rfl⟩⟩
  · intro e e' h
    obtain ⟨hhost, hport⟩ := Prod.mk.inj h
    exact ⟨decodeLegacyIp_injective e.sized e'.sized hhost, hport⟩

/-! ## Labels and times of the addresses in a message -/

theorem mem_addrs {entry : AddrReader (Option AdvertisedAddr)}
    {E : Grammar (Option AdvertisedAddr) Byte} (h : Recognizes entry E) {p : List Byte}
    {m : ParsedAddrMessage} (hm : parseEntries entry p = .ok m) {a : AdvertisedAddr}
    (ha : a ∈ m.addrs) : ∃ w, E (some a) w := by
  obtain ⟨items, u, -, hmany, -, rfl⟩ := ((recognizes_messageReader h).finish_ok_iff _ _ _).mp hm
  have hitem : some a ∈ items := by simpa [ParsedAddrMessage.ofItems] using ha
  clear hm ha
  induction hmany with
  | nil => cases hitem
  | cons hx _ ih =>
    rcases List.mem_cons.mp hitem with heq | hitem
    · exact ⟨_, heq ▸ hx⟩
    · exact ih hitem

/-- A valid entry is decoded, and its bytes have the length of its network. -/
theorem Addrv2Entry.Valid.decodes {e : Addrv2Entry} (he : e.Valid) (H : Digests) :
    SizedFor e.netId e.addr ∧ decodeAddrv2 H e.netId e.addr = .ok (e.host H) := by
  obtain ⟨-, hlen, hdec⟩ := (decodeAddrv2_ok_iff H e _).mpr ⟨he, rfl⟩
  exact ⟨fun n hn => by rwa [hn] at hlen, hdec⟩

/-- Two entries of accepted messages with one host are of one address. -/
theorem Addrv2Entry.Valid.unique {H : Digests} {e e' : Addrv2Entry} (he : e.Valid) (he' : e'.Valid)
    {host : String} {net net' : NetworkType} (h : e.host H = some (host, net))
    (h' : e'.host H = some (host, net')) : e.netId = e'.netId ∧ e.addr = e'.addr := by
  obtain ⟨hlen, hdec⟩ := he.decodes H
  obtain ⟨hlen', hdec'⟩ := he'.decodes H
  rw [h] at hdec
  rw [h'] at hdec'
  exact decodeAddrv2_unique hlen hlen' hdec hdec'

/-- An address of an `addrv2` message is labelled as its host is classified. -/
theorem label_of_parseAddrv2 {H : Digests} {p : List Byte} {m : ParsedAddrMessage}
    (hm : parseAddrv2 H p = .ok m) {a : AdvertisedAddr} (ha : a ∈ m.addrs) :
    a.network = classify H a.host ∧ 0 ≤ a.timestamp := by
  obtain ⟨w, e, hvalid, hdecoded, -⟩ := mem_addrs (recognizes_addrv2Entry H) hm ha
  obtain ⟨h, hhost, rfl⟩ := Option.map_eq_some_iff.mp hdecoded.symm
  obtain ⟨hlen, hdec⟩ := hvalid.decodes H
  rw [hhost] at hdec
  have hclass := classify_decodeAddrv2 H hlen hdec
  exact ⟨hclass.symm, Int.natCast_nonneg _⟩

/-- The label the legacy decoder gives to a host. -/
def legacyLabel (H : Digests) (host : String) : NetworkType :=
  if classify H host = .cjdns then .ipv6 else classify H host

theorem label_of_parseAddr (H : Digests) {p : List Byte} {m : ParsedAddrMessage}
    (hm : parseAddr p = .ok m) {a : AdvertisedAddr} (ha : a ∈ m.addrs) :
    a.network = legacyLabel H a.host ∧ 0 ≤ a.timestamp := by
  obtain ⟨w, e, -, hdecoded, -⟩ := mem_addrs recognizes_legacyEntry hm ha
  cases hdecoded
  refine ⟨?_, Int.natCast_nonneg _⟩
  have hclass := classify_decodeLegacyIp H e.sized
  have hlabel : (decodeLegacyIp e.ip).2 = .ipv4 ∨ (decodeLegacyIp e.ip).2 = .ipv6 := by
    unfold decodeLegacyIp
    split
    · exact .inl rfl
    · exact .inr rfl
  show (decodeLegacyIp e.ip).2 = legacyLabel H (decodeLegacyIp e.ip).1
  unfold legacyLabel
  split at hclass
  · rw [if_pos hclass.2, hclass.1]
  · rw [if_neg, hclass]
    rw [hclass]
    rcases hlabel with h | h <;> rw [h] <;> decide

end P2PCrawler
