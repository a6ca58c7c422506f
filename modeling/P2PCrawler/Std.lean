import Mathlib.Data.List.Basic
import Mathlib.Algebra.Group.Int.Defs
import Mathlib.Algebra.Group.Nat.Defs

/-!
# The library functions the crawler relies on

The parts of Rust's standard library and of `data-encoding` that the crawler's own functions
call, by their documented behaviour: UTF-8 bytes of a string, decimal numbers, the address
parsers and address texts of `std::net`, base32 without padding, and the two hash functions.

A string is read as its list of characters.  Hash functions are parameters: nothing is assumed
of them but the length of their digests.
-/

set_option autoImplicit false

namespace P2PCrawler

abbrev Byte := UInt8

/-- `str::as_bytes`. -/
def utf8 (cs : List Char) : List Byte := cs.flatMap String.utf8EncodeChar

/-- `str::from_utf8`. -/
def fromUtf8 (bytes : List Byte) : Option String := String.fromUTF8? ⟨bytes.toArray⟩

def replacementCharacter : Char := Char.ofNat 0xFFFD

/-- The ranges of the bytes behind the first one of a UTF-8 sequence; `none` where no sequence
    starts so. -/
def utf8Ranges (first : Byte) : Option (List (Byte × Byte)) :=
  if first < 0x80 then some []
  else if 0xC2 ≤ first ∧ first ≤ 0xDF then some [(0x80, 0xBF)]
  else if first = 0xE0 then some [(0xA0, 0xBF), (0x80, 0xBF)]
  else if first = 0xED then some [(0x80, 0x9F), (0x80, 0xBF)]
  else if 0xE1 ≤ first ∧ first ≤ 0xEF then some [(0x80, 0xBF), (0x80, 0xBF)]
  else if first = 0xF0 then some [(0x90, 0xBF), (0x80, 0xBF), (0x80, 0xBF)]
  else if 0xF1 ≤ first ∧ first ≤ 0xF3 then some [(0x80, 0xBF), (0x80, 0xBF), (0x80, 0xBF)]
  else if first = 0xF4 then some [(0x80, 0x8F), (0x80, 0xBF), (0x80, 0xBF)]
  else none

/-- The character of a sequence of two to four bytes. -/
def utf8Char : List Byte → Char
  | [] => replacementCharacter
  | first :: more =>
    Char.ofNat (more.foldl (fun n b => n * 64 + b.toNat % 64) (first.toNat % 2 ^ (6 - more.length)))

/-- An unfinished sequence, and the ranges of the bytes it still needs. -/
abbrev Utf8State := List Byte × List (Byte × Byte)

def utf8Start (b : Byte) : List Char × Utf8State :=
  match utf8Ranges b with
  | none => ([replacementCharacter], [], [])
  | some [] => ([Char.ofNat b.toNat], [], [])
  | some ranges => ([], [b], ranges)

/-- The next byte: it continues the sequence, or breaks it off and starts another. -/
def utf8Push (b : Byte) : Utf8State → List Char × Utf8State
  | (_, []) => utf8Start b
  | (seq, (lo, hi) :: ranges) =>
    if lo ≤ b ∧ b ≤ hi then
      if ranges.isEmpty then ([utf8Char (seq ++ [b])], [], []) else ([], seq ++ [b], ranges)
    else (replacementCharacter :: (utf8Start b).1, (utf8Start b).2)

def lossyChars : Utf8State → List Byte → List Char
  | (seq, _), [] => if seq.isEmpty then [] else [replacementCharacter]
  | state, b :: bytes => (utf8Push b state).1 ++ lossyChars (utf8Push b state).2 bytes

/-- `String::from_utf8_lossy`: every maximal piece of a broken sequence becomes one replacement
    character. -/
def fromUtf8Lossy (bytes : List Byte) : String := String.ofList (lossyChars ([], []) bytes)

example : (fromUtf8Lossy [0x4F, 0xE2, 0x82, 0xAC, 0xE2, 0x82, 0x4B, 0xF0, 0xFF]).toList.map Char.toNat =
    [0x4F, 0x20AC, 0xFFFD, 0x4B, 0xFFFD, 0xFFFD] := by decide

/-- SHA-256 and SHA3-256. -/
structure Digests where
  sha256 : List Byte → List Byte
  sha3_256 : List Byte → List Byte
  sha256_length : ∀ m, (sha256 m).length = 32
  sha3_256_length : ∀ m, (sha3_256 m).length = 32

/-! ## Numbers -/

/-- `char::to_digit`, for a radix up to 16. -/
def toDigit (radix : Nat) (c : Char) : Option Nat :=
  let n := c.toNat
  let d :=
    if 48 ≤ n ∧ n ≤ 57 then some (n - 48)
    else if 97 ≤ n ∧ n ≤ 102 then some (n - 87)
    else if 65 ≤ n ∧ n ≤ 70 then some (n - 55)
    else none
  d.filter (· < radix)

/-- Value of a digit string, most significant digit first; characters that are no digits count
    as zero. -/
def digitsVal (radix : Nat) (cs : List Char) : Nat :=
  cs.foldl (fun acc c => acc * radix + (toDigit radix c).getD 0) 0

def isAsciiDigit (c : Char) : Bool := (toDigit 10 c).isSome

/-- `str::parse` for an unsigned integer below `bound`: an optional plus sign, then digits. -/
def parseUnsigned (bound : Nat) (cs : List Char) : Option Nat :=
  let ds := match cs with
    | '+' :: rest => rest
    | _ => cs
  if ds.isEmpty || !ds.all isAsciiDigit then none
  else if digitsVal 10 ds < bound then some (digitsVal 10 ds) else none

/-- A digit string has no plus sign to skip. -/
theorem parseUnsigned_digits {bound : Nat} {cs : List Char} (hne : cs ≠ [])
    (hall : cs.all isAsciiDigit = true) :
    parseUnsigned bound cs = if digitsVal 10 cs < bound then some (digitsVal 10 cs) else none := by
  match cs, hne with
  | c :: cs, _ =>
    have hc : c ≠ '+' := by
      rintro rfl
      cases hall
    unfold parseUnsigned
    simp [hc, hall]

/-- `str::parse::<i64>`. -/
def parseI64 (cs : List Char) : Option Int :=
  match cs with
  | '-' :: ds =>
    if ds.isEmpty || !ds.all isAsciiDigit then none
    else if digitsVal 10 ds ≤ 2 ^ 63 then some (-(digitsVal 10 ds : Int)) else none
  | _ => (parseUnsigned (2 ^ 63) cs).map Int.ofNat

/-- `char::is_whitespace` (the Unicode property `White_Space`). -/
def isWhitespace (c : Char) : Bool :=
  let n := c.toNat
  decide ((9 ≤ n ∧ n ≤ 13) ∨ n = 32 ∨ n = 0x85 ∨ n = 0xA0 ∨ n = 0x1680 ∨ (0x2000 ≤ n ∧ n ≤ 0x200A) ∨
    n = 0x2028 ∨ n = 0x2029 ∨ n = 0x202F ∨ n = 0x205F ∨ n = 0x3000)

/-- `str::trim`. -/
def trim (cs : List Char) : List Char :=
  ((cs.dropWhile isWhitespace).reverse.dropWhile isWhitespace).reverse

/-- `str::strip_suffix`. -/
def stripSuffix (suffix cs : List Char) : Option (List Char) :=
  if suffix.isSuffixOf cs then some (cs.take (cs.length - suffix.length)) else none

/-! ## `std::net` address parsers -/

namespace Net

/-- A parser over the characters still to be read. -/
abbrev Parser (α : Type) := List Char → Option (α × List Char)

/-- `read_number`: all digits at the front, at most `maxDigits` of them. -/
def readNumber (radix maxDigits : Nat) (allowZeroPrefix : Bool) (bound : Nat) : Parser Nat :=
  fun cs =>
    let ds := cs.takeWhile fun c => (toDigit radix c).isSome
    if ds.isEmpty || maxDigits < ds.length then none
    else if !allowZeroPrefix && ds.head? == some '0' && 1 < ds.length then none
    else if digitsVal radix ds < bound then some (digitsVal radix ds, cs.drop ds.length) else none

/-- `read_separator`: before every item but the first, `sep` must stand. -/
def readSeparator {α : Type} (sep : Char) (index : Nat) (inner : Parser α) : Parser α := fun cs =>
  if index = 0 then inner cs
  else match cs with
    | c :: rest => if c = sep then inner rest else none
    | [] => none

/-- `read_ipv4_addr`: four octets without leading zeros. -/
def readIpv4Addr : Parser (Nat × Nat × Nat × Nat) := fun cs => do
  let (a, cs) ← readSeparator '.' 0 (readNumber 10 3 false 256) cs
  let (b, cs) ← readSeparator '.' 1 (readNumber 10 3 false 256) cs
  let (c, cs) ← readSeparator '.' 2 (readNumber 10 3 false 256) cs
  let (d, cs) ← readSeparator '.' 3 (readNumber 10 3 false 256) cs
  return ((a, b, c, d), cs)

/-- `read_groups` with `n` groups left to read, `index` of them read before: the groups read,
    whether the last two came from an embedded IPv4 address, and the rest of the text. -/
def readGroups : (n index : Nat) → List Char → List Nat × Bool × List Char
  | 0, _, cs => ([], false, cs)
  | n + 1, index, cs =>
    -- an embedded IPv4 address needs room for two groups
    match (if n = 0 then none else readSeparator ':' index readIpv4Addr cs) with
    | some ((a, b, c, d), rest) => ([a * 256 + b, c * 256 + d], true, rest)
    | none =>
      match readSeparator ':' index (readNumber 16 4 true 65536) cs with
      | some (g, rest) =>
        let r := readGroups n (index + 1) rest
        (g :: r.1, r.2.1, r.2.2)
      | none => ([], false, cs)

/-- `read_ipv6_addr`: eight groups, or fewer around one `::`. -/
def readIpv6Addr : Parser (List Nat) := fun cs =>
  let (head, headIpv4, rest) := readGroups 8 0 cs
  if head.length = 8 then some (head, rest)
  else if headIpv4 then none
  else match rest with
    | ':' :: ':' :: rest =>
      let (tail, _, rest) := readGroups (8 - (head.length + 1)) 0 rest
      some (head ++ List.replicate (8 - head.length - tail.length) 0 ++ tail, rest)
    | _ => none

/-- `str::parse::<Ipv6Addr>`: the eight 16-bit groups. -/
def parseIpv6Addr (cs : List Char) : Option (List Nat) :=
  match readIpv6Addr cs with
  | some (groups, []) => some groups
  | _ => none

structure Ipv4Addr where
  octets : List Byte
  sized : octets.length = 4
  deriving DecidableEq, Repr

structure Ipv6Addr where
  octets : List Byte
  sized : octets.length = 16
  deriving DecidableEq, Repr

inductive IpAddr where
  | v4 (addr : Ipv4Addr)
  | v6 (addr : Ipv6Addr)
  deriving DecidableEq, Repr

/-- `Ipv4Addr::new`. -/
def Ipv4Addr.ofOctets : Nat × Nat × Nat × Nat → Ipv4Addr
  | (a, b, c, d) => ⟨[a, b, c, d].map UInt8.ofNat, rfl⟩

/-- The two octets of a 16-bit group. -/
def groupOctets (g : Nat) : List Byte := [UInt8.ofNat (g / 256), UInt8.ofNat (g % 256)]

/-- `Ipv6Addr::from` of eight groups, as `read_ipv6_addr` collects them in an array of zeros. -/
def Ipv6Addr.ofGroups (groups : List Nat) : Ipv6Addr :=
  ⟨(List.range 8).flatMap fun i => groupOctets (groups.getD i 0), rfl⟩

/-- `read_ip_addr`: the IPv6 reader is tried where no IPv4 address stands at the front. -/
def readIpAddr : Parser IpAddr := fun cs =>
  match readIpv4Addr cs with
  | some (octets, rest) => some (.v4 (.ofOctets octets), rest)
  | none => (readIpv6Addr cs).map fun r => (.v6 (.ofGroups r.1), r.2)

/-- `str::parse::<IpAddr>`. -/
def parseIpAddr (cs : List Char) : Option IpAddr :=
  match readIpAddr cs with
  | some (ip, []) => some ip
  | _ => none

end Net

/-! ## `std::net` address texts -/

namespace Net

/-- The parts with `sep` between them. -/
def joinWith (sep : Char) (parts : List (List Char)) : List Char := [sep].intercalate parts

/-- `Ipv4Addr`'s `Display`. -/
def ipv4Text (octets : List Byte) : List Char :=
  joinWith '.' (octets.map fun b => Nat.toDigits 10 b.toNat)

/-- `Ipv6Addr::segments`. -/
def segments : List Byte → List Nat
  | a :: b :: rest => (a.toNat * 256 + b.toNat) :: segments rest
  | _ => []

structure Span where
  start : Nat := 0
  len : Nat := 0

/-- The longest run of zero groups from group `i` on; the first one among equals. -/
def longestZeros : (i : Nat) → (longest current : Span) → List Nat → Span
  | _, longest, _, [] => longest
  | i, longest, current, g :: gs =>
    if g = 0 then
      let current : Span := ⟨if current.len = 0 then i else current.start, current.len + 1⟩
      longestZeros (i + 1) (if longest.len < current.len then current else longest) current gs
    else longestZeros (i + 1) longest {} gs

def groupsText (groups : List Nat) : List Char := joinWith ':' (groups.map (Nat.toDigits 16))

/-- `Ipv6Addr::to_ipv4_mapped` and `ipv4_mapped`: the IPv4 octets of an address in
    `::ffff:0:0/96`. -/
def ipv4Mapped (octets : List Byte) : Option (List Byte) :=
  if (octets.take 10).all (· == 0) && octets[10]? == some 0xff && octets[11]? == some 0xff then
    some ((octets.drop 12).take 4)
  else none

/-- `Ipv6Addr`'s `Display`: a run of more than one zero group is left out. -/
def ipv6Text (octets : List Byte) : List Char :=
  match ipv4Mapped octets with
  | some v4 => "::ffff:".toList ++ ipv4Text v4
  | none =>
    let groups := segments octets
    let zeros := longestZeros 0 {} {} groups
    if 1 < zeros.len then
      groupsText (groups.take zeros.start) ++ "::".toList ++
        groupsText (groups.drop (zeros.start + zeros.len))
    else groupsText groups

example : [ipv6Text [0x20, 1, 0xd, 0xb8, 0, 0, 0, 0, 0, 0, 0, 0, 0, 0, 0, 1],
      ipv6Text (List.replicate 16 0),
      ipv6Text [0, 0, 0, 0, 0, 0, 0, 0, 0, 0, 0xff, 0xff, 192, 0, 2, 5]].map String.ofList =
    ["2001:db8::1", "::", "::ffff:192.0.2.5"] := by
  decide

end Net

/-! ## Base32 -/

/-- The `width` low bits of `n`, most significant first. -/
def bitsOf : (width n : Nat) → List Bool
  | 0, _ => []
  | width + 1, n => n.testBit width :: bitsOf width n

def ofBits (bs : List Bool) : Nat := bs.foldl (fun acc b => 2 * acc + b.toNat) 0

/-- The base32 symbol of a value below 32 (RFC 4648 alphabet, upper case). -/
def base32Symbol (v : Nat) : Char := Char.ofNat (if v < 26 then 65 + v else 24 + v)

/-- Symbols of a bit string, the last one filled up with zeros. -/
def chunkSymbols : List Bool → List Char
  | a :: b :: c :: d :: e :: rest => base32Symbol (ofBits [a, b, c, d, e]) :: chunkSymbols rest
  | [] => []
  | rest => [base32Symbol (ofBits (rest ++ List.replicate (5 - rest.length) false))]

/-- `BASE32_NOPAD.encode`. -/
def base32Encode (bytes : List Byte) : List Char :=
  chunkSymbols (bytes.flatMap fun b => bitsOf 8 b.toNat)

/-- Value of a base32 symbol (RFC 4648 alphabet, upper case). -/
def base32Value (c : Char) : Option Nat :=
  let n := c.toNat
  if 65 ≤ n ∧ n ≤ 90 then some (n - 65)
  else if 50 ≤ n ∧ n ≤ 55 then some (n - 24)
  else none

/-- Whole bytes of a bit string, and the bits left over. -/
def chunkBytes : List Bool → List Byte × List Bool
  | a :: b :: c :: d :: e :: f :: g :: h :: rest =>
    let r := chunkBytes rest
    (UInt8.ofNat (ofBits [a, b, c, d, e, f, g, h]) :: r.1, r.2)
  | rest => ([], rest)

/-- `BASE32_NOPAD.decode`: no symbol may be superfluous and the trailing bits must be zero. -/
def base32Decode (cs : List Char) : Option (List Byte) := do
  let vals ← cs.mapM base32Value
  let (bytes, trailing) := chunkBytes (vals.flatMap (bitsOf 5))
  if trailing.length < 5 && trailing.all (· == false) then some bytes else none

example : base32Decode "MZXW6YQ".toList = some [0x66, 0x6f, 0x6f, 0x62] ∧
    base32Encode [0x66, 0x6f, 0x6f, 0x62] = "MZXW6YQ".toList := by
  decide

end P2PCrawler
