import P2PCrawler.HostKeys
import P2PCrawler.Wire
import P2PCrawler.Frame
import P2PCrawler.AddrLog

/-!
# The `version` message (`protocol.rs`)

The crawler's own `version` payload and the parser of a peer's.

* `buildVersion` — the payload the crawler sends.
* `parseVersion` — three regimes by the version read first: below 106 only the fields up to the
  receiver's address, from 106 on the sender's address, nonce, user agent and height, and from
  70001 on a relay byte that may be missing.
* `VersionFields` — the fields of a payload, `VersionFields.bytes` their layout.

## Results

* `parseVersion_eq_some_iff` — what the parser accepts: a layout with anything behind it.
* `parseVersion_inverts_layout` — **the parser inverts the layout** in all three regimes.
-/

set_option autoImplicit false

namespace P2PCrawler

open Reader

/-- `USER_AGENT`. -/
def crawlerUserAgent : String := "/new-p2p-crawler:0.1.0/"

/-- `MAX_SUBVERSION_LENGTH`. -/
def maxSubversionLength : Nat := 256

/-! ## The crawler's payload -/

/-- `::ffff:0.0.0.0`. -/
def zeroIp : List Byte := [0, 0, 0, 0, 0, 0, 0, 0, 0, 0, 0xFF, 0xFF, 0, 0, 0, 0]

/-- `write_zero_netaddr`. -/
def zeroNetaddr : List Byte := leBytes 8 0 ++ zeroIp ++ beBytes 2 0

/-- Serialize the crawler's own `version` payload. -/
def buildVersion (timestamp : Int64) (nonce : UInt64) : List Byte :=
  intBytes 4 protocolVersion ++ leBytes 8 0 ++ intBytes 8 timestamp.toInt ++
    zeroNetaddr ++ zeroNetaddr ++ leBytes 8 nonce.toNat ++
    writeCompactSize (utf8 crawlerUserAgent.toList).length ++ utf8 crawlerUserAgent.toList ++
    intBytes 4 0 ++ [0x00]

/-! ## The parser -/

def versionNetaddr : Cursor VersionNetAddr := do
  let services ← Cursor.uintLe 8
  let ip ← Cursor.take 16
  let port ← Cursor.u16Be
  pure { services, host := (decodeLegacyIp ip).1, port }

/-- `hex`. -/
def hexText (bytes : List Byte) : String := String.join (bytes.map hexByte)

/-- The text of a user agent: its hex digits if it is not UTF-8. -/
def userAgentText (bytes : List Byte) : String :=
  match fromUtf8 bytes with
  | some s => s
  | none => hexText bytes

/-- `addr_from..user_agent..latest_block`, read from version 106 on. -/
def versionDetails : Cursor (VersionNetAddr × Nat × String × Int) := do
  let addrFrom ← versionNetaddr
  let nonce ← Cursor.uintLe 8
  let uaLen ← Cursor.compactSizeCanonical
  check (uaLen ≤ maxSubversionLength) ()
  let uaBytes ← Cursor.take uaLen
  let latestBlock ← Cursor.intLe 4
  pure (addrFrom, nonce, userAgentText uaBytes, latestBlock)

/-- The relay flag: true below version 70001, and where its byte is absent. -/
def relayFlag (version : Int) : Cursor Bool := fun b =>
  if 70001 ≤ version then
    match Cursor.u8 b with
    | .ok (byte, rest) => .ok (byte != 0, rest)
    | .error _ => .ok (true, b)
  else .ok (true, b)

/-- The rest of a payload behind the fields that every version has. -/
def versionRest (version : Int) (services : Nat) (timestamp : Int) (addrRecv : VersionNetAddr) :
    Cursor VersionData :=
  if 106 ≤ version then do
    let (addrFrom, nonce, userAgent, latestBlock) ← versionDetails
    let relay ← relayFlag version
    pure { version, services, timestamp, userAgent, latestBlock, relay, addrRecv,
           addrFrom := some addrFrom, nonce := some nonce }
  else
    pure { version, services, timestamp, userAgent := "", latestBlock := 0, relay := true, addrRecv,
           addrFrom := none, nonce := none }

def versionReader : Cursor VersionData := do
  let version ← Cursor.intLe 4
  let services ← Cursor.uintLe 8
  let timestamp ← Cursor.intLe 8
  let addrRecv ← versionNetaddr
  versionRest version services timestamp addrRecv

/-- Parse a peer's `version` payload; what follows the fields is ignored. -/
def parseVersion (payload : List Byte) : Option VersionData :=
  match versionReader payload with
  | .ok (v, _) => some v
  | .error _ => none

/-! ## The layout -/

/-- A network address by its fields. -/
structure NetAddrFields where
  services : UInt64
  ip : List Byte
  port : UInt16
  sized : ip.length = 16

namespace NetAddrFields

def bytes (a : NetAddrFields) : List Byte :=
  leBytes 8 a.services.toNat ++ a.ip ++ beBytes 2 a.port.toNat

def decoded (a : NetAddrFields) : VersionNetAddr :=
  ⟨a.services.toNat, (decodeLegacyIp a.ip).1, a.port⟩

/-- The address the crawler sends. -/
def zero : NetAddrFields := ⟨0, zeroIp, 0, rfl⟩

end NetAddrFields

/-- The fields that every version has. -/
structure HeadFields where
  version : Int32
  services : UInt64
  timestamp : Int64
  addrRecv : NetAddrFields

def HeadFields.bytes (h : HeadFields) : List Byte :=
  intBytes 4 h.version.toInt ++ leBytes 8 h.services.toNat ++
    intBytes 8 h.timestamp.toInt ++ h.addrRecv.bytes

/-- The fields from version 106 on. -/
structure DetailFields where
  addrFrom : NetAddrFields
  nonce : UInt64
  userAgent : List Byte
  latestBlock : Int32
  short : userAgent.length ≤ 256

def DetailFields.bytes (d : DetailFields) : List Byte :=
  d.addrFrom.bytes ++ leBytes 8 d.nonce.toNat ++ writeCompactSize d.userAgent.length ++ d.userAgent ++
    intBytes 4 d.latestBlock.toInt

/-- The fields of a payload. -/
structure VersionFields extends HeadFields, DetailFields

namespace VersionFields

/-- The mandatory fields of the version on the wire. -/
def bytes (f : VersionFields) : List Byte :=
  if f.version.toInt < 106 then f.toHeadFields.bytes
  else f.toHeadFields.bytes ++ f.toDetailFields.bytes

/-- What is kept of the fields, with `t` behind them. -/
def decoded (f : VersionFields) (t : List Byte) : VersionData :=
  if f.version.toInt < 106 then
    { version := f.version.toInt, services := f.services.toNat, timestamp := f.timestamp.toInt,
      userAgent := "", latestBlock := 0, relay := true, addrRecv := f.addrRecv.decoded,
      addrFrom := none, nonce := none }
  else
    { version := f.version.toInt, services := f.services.toNat, timestamp := f.timestamp.toInt,
      userAgent := userAgentText f.userAgent, latestBlock := f.latestBlock.toInt,
      relay := if f.version.toInt < 70001 then true else t.head? != some 0,
      addrRecv := f.addrRecv.decoded, addrFrom := some f.addrFrom.decoded,
      nonce := some f.nonce.toNat }

end VersionFields

/-! ## What the reads take -/

theorem recognizes_int32 :
    Recognizes (Cursor.intLe 4) (fun v w => ∃ i : Int32, v = i.toInt ∧ w = intBytes 4 v) := by
  refine (recognizes_intLe 4).congr fun v w => ?_
  constructor
  · rintro ⟨b, hv, hw⟩
    exact ⟨Int32.ofBitVec b, hv, hw⟩
  · rintro ⟨i, hv, hw⟩
    exact ⟨i.toBitVec, hv, hw⟩

theorem recognizes_int64 :
    Recognizes (Cursor.intLe 8) (fun v w => ∃ i : Int64, v = i.toInt ∧ w = intBytes 8 v) := by
  refine (recognizes_intLe 8).congr fun v w => ?_
  constructor
  · rintro ⟨b, hv, hw⟩
    exact ⟨Int64.ofBitVec b, hv, hw⟩
  · rintro ⟨i, hv, hw⟩
    exact ⟨i.toBitVec, hv, hw⟩

theorem recognizes_uint64 :
    Recognizes (Cursor.uintLe 8) (fun v w => ∃ n : UInt64, v = n.toNat ∧ w = leBytes 8 v) := by
  refine (recognizes_uintLe 8).congr fun v w => ?_
  constructor
  · rintro ⟨hv, hw⟩
    exact ⟨UInt64.ofNat v, (UInt64.toNat_ofNat_of_lt hv).symm, hw⟩
  · rintro ⟨n, rfl, hw⟩
    exact ⟨n.toNat_lt, hw⟩

theorem recognizes_versionNetaddr :
    Recognizes versionNetaddr (fun v w => ∃ a : NetAddrFields, v = a.decoded ∧ w = a.bytes) := by
  have hbody := recognizes_uint64.bind fun services _ _ =>
    (recognizes_take (β := Byte) () 16).bind fun ip _ _ =>
    recognizes_u16Be.bind fun port _ _ =>
    recognizes_pure (VersionNetAddr.mk services (decodeLegacyIp ip).1 port)
  refine hbody.congr fun v w => ?_
  constructor
  · rintro ⟨_, _, _, ⟨services, rfl, rfl⟩, ⟨ip, _, _, ⟨rfl, hip⟩, ⟨port, _, _, rfl, ⟨rfl, rfl⟩, rfl⟩,
      rfl⟩, rfl⟩
    exact ⟨⟨services, _, port, hip⟩, rfl, by simp [NetAddrFields.bytes]⟩
  · rintro ⟨a, rfl, rfl⟩
    refine ⟨a.services.toNat, _, _, ⟨a.services, rfl, rfl⟩, ⟨a.ip, _, _, ⟨rfl, a.sized⟩,
      ⟨a.port, _, _, rfl, ⟨rfl, rfl⟩, rfl⟩, rfl⟩, ?_⟩
    simp [NetAddrFields.bytes]

/-- What is kept of the details. -/
def DetailFields.decoded (d : DetailFields) : VersionNetAddr × Nat × String × Int :=
  (d.addrFrom.decoded, d.nonce.toNat, userAgentText d.userAgent, d.latestBlock.toInt)

theorem recognizes_versionDetails :
    Recognizes versionDetails (fun v w => ∃ d : DetailFields, v = d.decoded ∧ w = d.bytes) := by
  have hbody := recognizes_versionNetaddr.bind fun addrFrom _ _ =>
    recognizes_uint64.bind fun nonce _ _ =>
    recognizes_compactSizeCanonical.bind fun uaLen _ _ =>
    (recognizes_check (β := Byte) (uaLen ≤ maxSubversionLength) ()).bind fun _ _ _ =>
    (recognizes_take (β := Byte) () uaLen).bind fun uaBytes _ _ =>
    recognizes_int32.bind fun latestBlock _ _ =>
    recognizes_pure (addrFrom, nonce, userAgentText uaBytes, latestBlock)
  refine hbody.congr fun v w => ?_
  constructor
  · rintro ⟨_, _, _, ⟨addrFrom, rfl, rfl⟩, ⟨_, _, _, ⟨nonce, rfl, rfl⟩, h⟩, rfl⟩
    obtain ⟨⟨_, _, _, ⟨_, rfl⟩, ⟨_, _, _, ⟨hshort, rfl⟩, h⟩, rfl⟩, rfl⟩ := h
    obtain ⟨⟨ua, _, _, ⟨rfl, rfl⟩, ⟨_, _, _, ⟨latestBlock, rfl, rfl⟩, ⟨rfl, rfl⟩, rfl⟩, rfl⟩, rfl⟩ := h
    exact ⟨⟨addrFrom, nonce, _, latestBlock, hshort⟩, rfl, by simp [DetailFields.bytes]⟩
  · rintro ⟨d, rfl, rfl⟩
    have hshort := d.short
    refine ⟨_, _, _, ⟨d.addrFrom, rfl, rfl⟩, ⟨_, _, _, ⟨d.nonce, rfl, rfl⟩,
      ⟨d.userAgent.length, _, _, ⟨by omega, rfl⟩, ⟨(), _, _, ⟨hshort, rfl⟩,
      ⟨d.userAgent, _, _, ⟨rfl, rfl⟩, ⟨_, _, _, ⟨d.latestBlock, rfl, rfl⟩, ⟨rfl, rfl⟩, rfl⟩, rfl⟩, rfl⟩,
      rfl⟩, rfl⟩, ?_⟩
    simp [DetailFields.bytes]

/-- The fields that every version has are read off the front. -/
theorem versionReader_ok_iff (p rest : List Byte) (v : VersionData) :
    versionReader p = .ok (v, rest) ↔ ∃ (h : HeadFields) (t : List Byte), p = h.bytes ++ t ∧
      versionRest h.version.toInt h.services.toNat h.timestamp.toInt h.addrRecv.decoded t =
        .ok (v, rest) := by
  unfold versionReader
  simp only [bind_ok_iff]
  constructor
  · rintro ⟨_, _, hversion, _, _, hservices, _, _, htimestamp, _, t, hrecv, h⟩
    obtain ⟨_, ⟨version, rfl, rfl⟩, rfl⟩ := (recognizes_int32 _ _ _).mp hversion
    obtain ⟨_, ⟨services, rfl, rfl⟩, rfl⟩ := (recognizes_uint64 _ _ _).mp hservices
    obtain ⟨_, ⟨timestamp, rfl, rfl⟩, rfl⟩ := (recognizes_int64 _ _ _).mp htimestamp
    obtain ⟨_, ⟨addrRecv, rfl, rfl⟩, rfl⟩ := (recognizes_versionNetaddr _ _ _).mp hrecv
    exact ⟨⟨version, services, timestamp, addrRecv⟩, t, by simp [HeadFields.bytes], h⟩
  · rintro ⟨f, t, rfl, h⟩
    refine ⟨_, _, (recognizes_int32 _ _ _).mpr ⟨_, ⟨f.version, rfl, rfl⟩, ?_⟩,
      _, _, (recognizes_uint64 _ _ _).mpr ⟨_, ⟨f.services, rfl, rfl⟩, rfl⟩,
      _, _, (recognizes_int64 _ _ _).mpr ⟨_, ⟨f.timestamp, rfl, rfl⟩, rfl⟩,
      _, t, (recognizes_versionNetaddr _ _ _).mpr ⟨_, ⟨f.addrRecv, rfl, rfl⟩, rfl⟩, h⟩
    simp [HeadFields.bytes]

/-- Below version 106 nothing more is read. -/
theorem versionRest_early {version : Int} (hv : version < 106) (services : Nat) (timestamp : Int)
    (addrRecv : VersionNetAddr) (t : List Byte) :
    versionRest version services timestamp addrRecv t =
      .ok (⟨version, services, timestamp, "", 0, true, addrRecv, none, none⟩, t) := by
  unfold versionRest
  rw [if_neg (by omega)]
  rfl

theorem relayFlag_eq (version : Int) (t : List Byte) : ∃ rest, relayFlag version t =
    .ok (if version < 70001 then true else t.head? != some 0, rest) := by
  unfold relayFlag
  by_cases hv : 70001 ≤ version
  · rw [if_pos hv, if_neg (by omega)]
    cases t with
    | nil => exact ⟨[], rfl⟩
    | cons x rest => exact ⟨rest, rfl⟩
  · rw [if_neg hv, if_pos (by omega)]
    exact ⟨t, rfl⟩

/-- From version 106 on the details are read, and the relay flag of what stands behind them. -/
theorem versionRest_late {version : Int} (hv : 106 ≤ version) (services : Nat) (timestamp : Int)
    (addrRecv : VersionNetAddr) (p : List Byte) (v : VersionData) :
    (∃ rest, versionRest version services timestamp addrRecv p = .ok (v, rest)) ↔
      ∃ (d : DetailFields) (t : List Byte), p = d.bytes ++ t ∧
        v = ⟨version, services, timestamp, userAgentText d.userAgent, d.latestBlock.toInt,
          if version < 70001 then true else t.head? != some 0, addrRecv, some d.addrFrom.decoded,
          some d.nonce.toNat⟩ := by
  unfold versionRest
  rw [if_pos hv]
  simp only [bind_ok_iff]
  constructor
  · rintro ⟨rest, _, t, hdetails, relay, rest', hrelay, hv⟩
    obtain ⟨_, ⟨d, rfl, rfl⟩, rfl⟩ := (recognizes_versionDetails _ _ _).mp hdetails
    obtain ⟨_, hflag⟩ := relayFlag_eq version t
    rw [hflag] at hrelay
    cases hrelay
    cases hv
    exact ⟨d, t, rfl, rfl⟩
  · rintro ⟨d, t, rfl, rfl⟩
    obtain ⟨rest, hflag⟩ := relayFlag_eq version t
    exact ⟨rest, d.decoded, t, (recognizes_versionDetails _ _ _).mpr ⟨_, ⟨d, rfl, rfl⟩, rfl⟩, _, rest,
      hflag, rfl⟩

/-! ## What is accepted -/

theorem parseVersion_eq_some {p : List Byte} {v : VersionData} :
    parseVersion p = some v ↔ ∃ rest, versionReader p = .ok (v, rest) := by
  unfold parseVersion
  cases versionReader p with
  | error e => simp
  | ok r =>
    obtain ⟨v', rest⟩ := r
    simp only [Option.some.injEq, Except.ok.injEq, Prod.mk.injEq, exists_and_left, exists_eq', and_true]

/-- Some details, for the versions that have none. -/
def DetailFields.absent : DetailFields := ⟨.zero, 0, [], 0, by decide⟩

/-- **What the parser accepts:** the mandatory fields of a version, with anything behind them. -/
theorem parseVersion_eq_some_iff (p : List Byte) (v : VersionData) :
    parseVersion p = some v ↔ ∃ (f : VersionFields) (t : List Byte), p = f.bytes ++ t ∧
      v = f.decoded t := by
  rw [parseVersion_eq_some]
  simp only [versionReader_ok_iff]
  constructor
  · rintro ⟨rest, h, t, rfl, hrest⟩
    by_cases hv : h.version.toInt < 106
    · rw [versionRest_early hv, Except.ok.injEq, Prod.mk.injEq] at hrest
      obtain ⟨rfl, -⟩ := hrest
      refine ⟨⟨h, .absent⟩, t, ?_, ?_⟩
      · show _ = (if h.version.toInt < 106 then _ else _) ++ t
        rw [if_pos hv]
      · show _ = if h.version.toInt < 106 then _ else _
        rw [if_pos hv]
    · obtain ⟨d, t, rfl, rfl⟩ := (versionRest_late (by omega) _ _ _ _ _).mp ⟨rest, hrest⟩
      refine ⟨⟨h, d⟩, t, ?_, ?_⟩
      · show _ = (if h.version.toInt < 106 then _ else _) ++ t
        rw [if_neg hv, List.append_assoc]
      · show _ = if h.version.toInt < 106 then _ else _
        rw [if_neg hv]
  · rintro ⟨f, t, rfl, rfl⟩
    unfold VersionFields.bytes VersionFields.decoded
    by_cases hv : f.version.toInt < 106
    · rw [if_pos hv, if_pos hv]
      exact ⟨t, f.toHeadFields, t, rfl, versionRest_early hv ..⟩
    · rw [if_neg hv, if_neg hv]
      have hlate : 106 ≤ f.version.toInt := by omega
      obtain ⟨rest, hrest⟩ := (versionRest_late hlate f.services.toNat f.timestamp.toInt
        f.addrRecv.decoded _ _).mpr ⟨f.toDetailFields, t, rfl, rfl⟩
      exact ⟨rest, f.toHeadFields, _, List.append_assoc .., hrest⟩

/-! ## Payloads that are cut off -/

theorem NetAddrFields.length_bytes (a : NetAddrFields) : a.bytes.length = 26 := by
  unfold NetAddrFields.bytes
  simp only [List.length_append, leBytes_length, a.sized, beBytes_length]

theorem length_intBytes (width : Nat) (v : Int) : (intBytes width v).length = width :=
  leBytes_length ..

theorem HeadFields.length_bytes (h : HeadFields) : h.bytes.length = 46 := by
  unfold HeadFields.bytes
  simp only [List.length_append, length_intBytes, leBytes_length, h.addrRecv.length_bytes]

/-- Two layouts that start the same payload have one version. -/
theorem HeadFields.version_unique {h h' : HeadFields} (heq : h.bytes = h'.bytes) :
    h.version.toInt = h'.version.toInt := by
  unfold HeadFields.bytes at heq
  simp only [List.append_assoc] at heq
  exact (recognizes_int32.prefix_free ⟨_, rfl, rfl⟩ ⟨_, rfl, rfl⟩ heq).1

theorem VersionFields.bytes_eq (f : VersionFields) : f.bytes = f.toHeadFields.bytes ++
    if f.version.toInt < 106 then [] else f.toDetailFields.bytes := by
  unfold VersionFields.bytes
  split
  · rw [List.append_nil]
  · rfl

/-- A layout starts with the fields of its version. -/
theorem VersionFields.head_unique {f : VersionFields} {h : HeadFields} {s t : List Byte}
    (heq : h.bytes ++ s = f.bytes ++ t) : h.bytes = f.toHeadFields.bytes ∧
      s = (if f.version.toInt < 106 then [] else f.toDetailFields.bytes) ++ t := by
  rw [f.bytes_eq, List.append_assoc] at heq
  apply List.append_inj heq
  rw [HeadFields.length_bytes, HeadFields.length_bytes]

/-- **Prefix freedom.**  No layout goes on where another one ends. -/
theorem VersionFields.bytes_unique {f f' : VersionFields} {s t : List Byte}
    (heq : f.bytes ++ s = f'.bytes ++ t) : f.bytes = f'.bytes := by
  rw [f.bytes_eq, List.append_assoc] at heq
  obtain ⟨hhead, hrest⟩ := head_unique heq
  have hversion := HeadFields.version_unique hhead
  rw [hversion] at hrest
  rw [f.bytes_eq, f'.bytes_eq, hhead, hversion]
  split
  · rfl
  · rename_i hv
    rw [if_neg hv, if_neg hv] at hrest
    rw [(recognizes_versionDetails.prefix_free ⟨_, rfl, rfl⟩ ⟨_, rfl, rfl⟩ hrest).2]

/-- A payload that ends within the mandatory fields is refused. -/
theorem parseVersion_truncated {f : VersionFields} {q : List Byte} (hq : q <+: f.bytes)
    (hne : q ≠ f.bytes) : parseVersion q = none := by
  rw [Option.eq_none_iff_forall_ne_some]
  intro v hv
  obtain ⟨f', t, rfl, -⟩ := (parseVersion_eq_some_iff q v).mp hv
  obtain ⟨s, hs⟩ := hq
  have heq : f'.bytes ++ (t ++ s) = f.bytes ++ [] := by
    rw [List.append_nil, ← hs, List.append_assoc]
  have hbytes := VersionFields.bytes_unique heq
  rw [← hbytes, List.append_assoc, List.append_right_eq_self, List.append_eq_nil_iff] at hs
  apply hne
  rw [hs.1, List.append_nil, hbytes]

/-- From version 106 on, a minimal length of at most 256 stands behind the nonce. -/
theorem parseVersion_userAgent {h : HeadFields} (hv : 106 ≤ h.version.toInt) {a : NetAddrFields}
    {nonce : UInt64} {w : List Byte} {v : VersionData}
    (hp : parseVersion (h.bytes ++ a.bytes ++ leBytes 8 nonce.toNat ++ w) = some v) :
    ∃ n s, n ≤ 256 ∧ w = writeCompactSize n ++ s := by
  obtain ⟨f, t, heq, -⟩ := (parseVersion_eq_some_iff _ v).mp hp
  simp only [List.append_assoc] at heq
  obtain ⟨hhead, hrest⟩ := VersionFields.head_unique heq
  have hversion := HeadFields.version_unique hhead
  unfold DetailFields.bytes at hrest
  rw [if_neg (by omega)] at hrest
  simp only [List.append_assoc] at hrest
  have haddr := List.append_inj hrest (by rw [NetAddrFields.length_bytes, NetAddrFields.length_bytes])
  have hnonce := List.append_inj haddr.2 (by rw [leBytes_length, leBytes_length])
  exact ⟨_, _, f.short, hnonce.2⟩

/-! ## The crawler's own payload -/

/-- The fields the crawler sends. -/
def ownFields (timestamp : Int64) (nonce : UInt64) : VersionFields where
  version := 70016
  services := 0
  timestamp
  addrRecv := .zero
  addrFrom := .zero
  nonce
  userAgent := utf8 crawlerUserAgent.toList
  latestBlock := 0
  short := by decide

theorem buildVersion_eq (timestamp : Int64) (nonce : UInt64) :
    buildVersion timestamp nonce = (ownFields timestamp nonce).bytes ++ [0x00] := by
  show _ = (ownFields timestamp nonce).toHeadFields.bytes ++
    (ownFields timestamp nonce).toDetailFields.bytes ++ [0x00]
  unfold buildVersion HeadFields.bytes DetailFields.bytes NetAddrFields.bytes zeroNetaddr
  simp only [List.append_assoc]
  rfl

/-- The text of a user agent: itself if it is UTF-8, and its hex digits otherwise. -/
theorem userAgentText_spec (u : List Byte) : (∀ s : String, u = utf8 s.toList → userAgentText u = s) ∧
    ((∀ s : String, u ≠ utf8 s.toList) → userAgentText u = hexText u) := by
  unfold userAgentText
  constructor
  · intro s hs
    rw [fromUtf8_iff.mpr hs]
  · intro hu
    split
    · rename_i s hs
      exact absurd (fromUtf8_iff.mp hs) (hu s)
    · rfl

theorem ownFields_decoded (timestamp : Int64) (nonce : UInt64) :
    (ownFields timestamp nonce).decoded [0x00] =
      { version := protocolVersion, services := 0, timestamp := timestamp.toInt,
        userAgent := crawlerUserAgent, latestBlock := 0, relay := false,
        addrRecv := ⟨0, "0.0.0.0", 0⟩, addrFrom := some ⟨0, "0.0.0.0", 0⟩,
        nonce := some nonce.toNat } := by
  have hversion : (ownFields timestamp nonce).version.toInt = 70016 := by
    show (70016 : Int32).toInt = 70016
    decide
  have hagent : userAgentText (ownFields timestamp nonce).userAgent = crawlerUserAgent :=
    (userAgentText_spec _).1 _ rfl
  have haddr : NetAddrFields.zero.decoded = ⟨0, "0.0.0.0", 0⟩ := by decide
  unfold VersionFields.decoded
  rw [if_neg (by omega), if_neg (by omega), hversion, hagent]
  show VersionData.mk _ _ _ _ _ _ NetAddrFields.zero.decoded (some NetAddrFields.zero.decoded) _ = _
  rw [haddr]
  rfl

/-! ## Main result -/

/-- **The parser inverts the layout.**  The mandatory fields of a version are read back whatever
    stands behind them, with the defaults for what the version does not have and the relay flag
    of the next byte; a payload that ends within them is refused, and so is one whose user agent
    has a length above 256 or in more bytes than needed.  What the crawler sends is read back
    as sent. -/
theorem parseVersion_inverts_layout :
    (∀ (f : VersionFields) (t : List Byte), parseVersion (f.bytes ++ t) = some (f.decoded t)) ∧
    (∀ u : List Byte, (∀ s : String, u = utf8 s.toList → userAgentText u = s) ∧
      ((∀ s : String, u ≠ utf8 s.toList) → userAgentText u = hexText u)) ∧
    (∀ (f : VersionFields) (q : List Byte), q <+: f.bytes → q ≠ f.bytes → parseVersion q = none) ∧
    (∀ (h : HeadFields) (a : NetAddrFields) (nonce : UInt64) (size w : List Byte),
      106 ≤ h.version.toInt →
      (∃ n, 256 < n ∧ n < 2 ^ 64 ∧ size = writeCompactSize n) ∨ OverlongSize size →
      parseVersion (h.bytes ++ a.bytes ++ leBytes 8 nonce.toNat ++ (size ++ w)) = none) ∧
    (∀ (timestamp : Int64) (nonce : UInt64), parseVersion (buildVersion timestamp nonce) =
      some { version := protocolVersion, services := 0, timestamp := timestamp.toInt,
             userAgent := crawlerUserAgent, latestBlock := 0, relay := false,
             addrRecv := ⟨0, "0.0.0.0", 0⟩, addrFrom := some ⟨0, "0.0.0.0", 0⟩,
             nonce := some nonce.toNat }) := by
  have hinverts : ∀ (f : VersionFields) (t : List Byte),
      parseVersion (f.bytes ++ t) = some (f.decoded t) := by
    intro f t
    exact (parseVersion_eq_some_iff _ _).mpr ⟨f, t, rfl, rfl⟩
  refine ⟨hinverts, userAgentText_spec, fun f q => parseVersion_truncated, ?_, ?_⟩
  · intro h a nonce size w hv hsize
    rw [Option.eq_none_iff_forall_ne_some]
    intro v hp
    obtain ⟨m, s, hm, hw⟩ := parseVersion_userAgent hv hp
    rcases hsize with ⟨n, hlarge, hn, rfl⟩ | hoverlong
    · obtain ⟨rfl, -⟩ := recognizes_compactSizeCanonical.prefix_free ⟨hn, rfl⟩ ⟨by omega, rfl⟩ hw
      omega
    · exact hoverlong.not_minimal (by omega) hw.symm
  · intro timestamp nonce
    rw [buildVersion_eq, hinverts, ownFields_decoded]

end P2PCrawler
