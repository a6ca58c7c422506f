import P2PCrawler.Std

/-!
# Address classification and network types (`address.rs`)

`classify` reads the network type off a host string: an IPv6 literal by its first octet
(`fc00::/8` is CJDNS), an onion or I2P name by its base32 label, a dotted quad as IPv4.
-/

set_option autoImplicit false

namespace P2PCrawler

inductive NetworkType where
  | ipv4
  | ipv6
  | cjdns
  | onionV2
  | onionV3
  | i2p
  | unknown
  deriving DecidableEq, Repr

def NetworkType.asStr : NetworkType → String
  | .ipv4 => "ipv4"
  | .ipv6 => "ipv6"
  | .cjdns => "cjdns"
  | .onionV2 => "onion_v2"
  | .onionV3 => "onion_v3"
  | .i2p => "i2p"
  | .unknown => "unknown"

/-- A transport family with its own work queue and worker pool. -/
inductive Transport where
  | ip
  | tor
  | i2p
  deriving DecidableEq, Repr

/-- The transport family that carries a network type. -/
def NetworkType.transport : NetworkType → Transport
  | .ipv4 | .ipv6 | .cjdns => .ip
  | .onionV2 | .onionV3 => .tor
  | .i2p => .i2p
  | .unknown => .ip

/-- `decode_base32`: lower-case label to bytes. -/
def decodeBase32 (label : List Char) (expectedLen : Nat) : Option (List Byte) :=
  if label.any fun c => !((97 ≤ c.toNat && c.toNat ≤ 122) || (50 ≤ c.toNat && c.toNat ≤ 55)) then
    none
  else
    (base32Decode (label.map Char.toUpper)).filter fun bytes => bytes.length == expectedLen

/-- `valid_onion_v3`: version byte 3 and the checksum of the public key. -/
def validOnionV3 (H : Digests) (label : List Char) : Bool :=
  match decodeBase32 label 35 with
  | none => false
  | some decoded =>
    if decoded[34]? != some 3 then false
    else
      let digest := H.sha3_256 (utf8 ".onion checksum".toList ++ decoded.take 32 ++ [3])
      (decoded.drop 32).take 2 == digest.take 2

/-- `is_ipv4_dotted`: four decimal parts below 256. -/
def isIpv4Dotted (host : List Char) : Bool :=
  let parts := host.splitOn '.'
  parts.length == 4 && parts.all fun p =>
    !p.isEmpty && p.all isAsciiDigit &&
      match parseUnsigned (2 ^ 32) p with
      | some n => decide (n < 256)
      | none => false

/-- Classify a host string. -/
def classify (H : Digests) (host : String) : NetworkType :=
  let cs := host.toList
  if cs.contains ':' then
    match Net.parseIpv6Addr cs with
    | some groups => if groups.headD 0 / 256 == 0xfc then .cjdns else .ipv6
    | none => .unknown
  else
    match stripSuffix ".onion".toList cs with
    | some label =>
      if (utf8 label).length == 16 && (decodeBase32 label 10).isSome then .onionV2
      else if (utf8 label).length == 56 && validOnionV3 H label then .onionV3
      else .unknown
    | none =>
      match stripSuffix ".b32.i2p".toList cs with
      | some label =>
        if (utf8 label).length == 52 && (decodeBase32 label 32).isSome then .i2p else .unknown
      | none => if isIpv4Dotted cs then .ipv4 else .unknown

/-- Render a host and port, bracketing IPv6 and CJDNS hosts. -/
def renderAddr (host : String) (port : UInt16) : String :=
  if host.toList.contains ':' then "[" ++ host ++ "]:" ++ toString port.toNat
  else host ++ ":" ++ toString port.toNat

/-- A digest with the right length and no other promise, for evaluation on inputs whose
    classification does not depend on it. -/
def Digests.zero : Digests where
  sha256 _ := List.replicate 32 0
  sha3_256 _ := List.replicate 32 0
  sha256_length _ := List.length_replicate
  sha3_256_length _ := List.length_replicate

example : ["192.0.2.5", "256.0.0.1", "1.2.3", "2001:db8::1", "fc00::1", "FC00::1",
      "not:valid:ipv6:::", "aaaaaaaaaaaaaaaa.onion", "0000000000000000.onion"].map
        (classify Digests.zero) =
    [.ipv4, .unknown, .unknown, .ipv6, .cjdns, .cjdns, .unknown, .onionV2, .unknown] := by
  decide

end P2PCrawler
