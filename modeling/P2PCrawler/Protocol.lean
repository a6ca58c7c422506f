import P2PCrawler.Address

/-!
# Messages after decoding (`protocol.rs`)

The records the wire decoders hand to the crawler: a peer's `version` fields and the addresses
of one `addr` or `addrv2` message.
-/

set_option autoImplicit false

namespace P2PCrawler

/-- `PROTOCOL_VERSION`. -/
def protocolVersion : Int := 70016

/-- `MAX_ADDR_TO_SEND`. -/
def maxAddrToSend : Nat := 1000

/-- A legacy network address claimed inside a peer's `version` message. -/
structure VersionNetAddr where
  services : Nat
  host : String
  port : UInt16
  deriving DecidableEq, Repr

/-- Fields retained from a peer's `version` message. -/
structure VersionData where
  version : Int
  services : Nat
  timestamp : Int
  userAgent : String
  latestBlock : Int
  relay : Bool
  addrRecv : VersionNetAddr
  addrFrom : Option VersionNetAddr
  nonce : Option Nat
  deriving DecidableEq, Repr

/-- A single advertised address of an `addr`/`addrv2` response. -/
structure AdvertisedAddr where
  host : String
  port : UInt16
  network : NetworkType
  timestamp : Int
  services : Nat
  wireNetworkId : UInt8
  deriving DecidableEq, Repr

/-- One address message.  Every declared entry was decoded or has an unknown network id. -/
structure ParsedAddrMessage where
  declaredCount : Nat
  addrs : List AdvertisedAddr
  unknownEntries : Nat
  counted : declaredCount = addrs.length + unknownEntries
  deriving DecidableEq, Repr

/-- A message of one address. -/
def ParsedAddrMessage.single (a : AdvertisedAddr) : ParsedAddrMessage := ⟨1, [a], 0, rfl⟩

inductive AddrParseError where
  | nonCanonicalOrTruncated
  | tooMany (n : Nat)
  | wrongLength (networkId : UInt8) (length : Nat)
  | invalidNetworkEncoding (id : UInt8)
  | trailingBytes (n : Nat)
  deriving DecidableEq, Repr

/-- The `Display` text of a parse error. -/
def AddrParseError.display : AddrParseError → String
  | .nonCanonicalOrTruncated => "non-canonical or truncated address message"
  | .tooMany n => s!"declared address count {n} exceeds {maxAddrToSend}"
  | .wrongLength id len => s!"wrong length {len} for BIP155 network {id}"
  | .invalidNetworkEncoding id => s!"invalid encoding for BIP155 network {id}"
  | .trailingBytes n => s!"{n} trailing bytes after address vector"

end P2PCrawler
