import P2PCrawler.Protocol
import P2PCrawler.HostText

/-!
# Hosts of advertised addresses (`protocol.rs`)

The host text and the network of an address on the wire, and how `classify` reads the text.

* `decodeLegacyIp`, `encodeOnionV3`, `decodeAddrv2` — the decoders.
* `classify_decodeAddrv2` — a BIP155 address is classified as the network of its wire id.
* `classify_decodeLegacyIp` — a legacy address is classified as it was decoded, but for the
  addresses of `fc00::/8`: decoded as IPv6, their texts are those of CJDNS addresses.
-/

set_option autoImplicit false

namespace P2PCrawler

/-! ## Decoders -/

/-- Decode a 16-byte IPv6 field, collapsing IPv4-mapped to dotted quad. -/
def decodeLegacyIp (octets : List Byte) : String × NetworkType :=
  match Net.ipv4Mapped octets with
  | some v4 => (String.ofList (Net.ipv4Text v4), .ipv4)
  | none => (String.ofList (Net.ipv6Text octets), .ipv6)

/-- `BASE32_NOPAD.encode(..).to_lowercase()`. -/
def base32Label (bytes : List Byte) : List Char := (base32Encode bytes).map Char.toLower

def onionV3Checksum (H : Digests) (pubkey : List Byte) : List Byte :=
  (H.sha3_256 (utf8 ".onion checksum".toList ++ pubkey ++ [3])).take 2

/-- Encode a torv3 ed25519 public key into its `.onion` address. -/
def encodeOnionV3 (H : Digests) (pubkey : List Byte) : Option String :=
  if pubkey.length ≠ 32 then none
  else
    let label := base32Label (pubkey ++ onionV3Checksum H pubkey ++ [3])
    some (String.ofList (label ++ ".onion".toList))

/-- The host and the network of a BIP155 address; `none` for an unknown network id. -/
def decodeAddrv2 (H : Digests) (netId : Byte) (bytes : List Byte) :
    Except AddrParseError (Option (String × NetworkType)) :=
  if netId = 1 then .ok (some (String.ofList (Net.ipv4Text (bytes.take 4)), .ipv4))
  else if netId = 2 then
    if (Net.ipv4Mapped bytes).isSome ∨ bytes.head? = some 0xfc then
      .error (.invalidNetworkEncoding netId)
    else .ok (some (String.ofList (Net.ipv6Text bytes), .ipv6))
  else if netId = 3 then
    .ok (some (String.ofList (base32Label bytes ++ ".onion".toList), .onionV2))
  else if netId = 4 then
    match encodeOnionV3 H bytes with
    | some host => .ok (some (host, .onionV3))
    | none => .error (.invalidNetworkEncoding netId)
  else if netId = 5 then
    .ok (some (String.ofList (base32Label bytes ++ ".b32.i2p".toList), .i2p))
  else if netId = 6 then
    if bytes.head? ≠ some 0xfc then .error (.invalidNetworkEncoding netId)
    else .ok (some (String.ofList (Net.ipv6Text bytes), .cjdns))
  else .ok none

/-! ## IPv6 texts -/

theorem colon_mem_ipv6Text {octets : List Byte} (hmapped : Net.ipv4Mapped octets = none)
    (hlen : octets.length = 16) : ':' ∈ Net.ipv6Text octets := by
  have hgroups : (Net.segments octets).length = 8 := Net.length_segments (n := 8) hlen
  unfold Net.ipv6Text
  rw [hmapped]
  simp only
  split
  · exact List.mem_append_left _ (List.mem_append_right _ (by decide))
  · match Net.segments octets, hgroups with
    | g :: g' :: gs, _ =>
      rw [Net.groupsText_cons]
      exact List.mem_append_right _ (by simp [Net.moreGroups])

/-- The class of an IPv6 text is decided by the first octet. -/
theorem classify_ipv6Text (H : Digests) {octets : List Byte}
    (hmapped : Net.ipv4Mapped octets = none) (hlen : octets.length = 16) :
    classify H (String.ofList (Net.ipv6Text octets)) =
      if octets.head? = some 0xfc then .cjdns else .ipv6 := by
  have hcolon := colon_mem_ipv6Text hmapped hlen
  have hread := Net.parseIpv6Addr_ipv6Text hmapped (Net.length_segments (n := 8) hlen)
    Net.segments_lt
  unfold classify
  simp only [String.toList_ofList, List.contains_eq_mem, hcolon, decide_true, if_true, hread]
  match octets, hlen with
  | a :: b :: rest, _ =>
    have hiff : (a.toNat == 0xfc) = true ↔ a = 0xfc := by
      rw [beq_iff_eq, ← UInt8.toNat_inj]
      rfl
    simp only [Net.head_segments, List.head?_cons, Option.some.injEq, hiff]

/-! ## Suffixes -/

theorem stripSuffix_append (label suffix : List Char) :
    stripSuffix suffix (label ++ suffix) = some label := by
  unfold stripSuffix
  have h : suffix.isSuffixOf (label ++ suffix) = true :=
    List.isSuffixOf_iff_suffix.mpr (List.suffix_append label suffix)
  rw [if_pos h, List.length_append, Nat.add_sub_cancel, List.take_left]

/-- A text with another last character. -/
theorem stripSuffix_none {suffix cs : List Char} (hne : suffix ≠ [])
    (h : cs.getLast? ≠ suffix.getLast?) : stripSuffix suffix cs = none := by
  unfold stripSuffix
  rw [if_neg]
  intro hsuffix
  obtain ⟨before, rfl⟩ := List.isSuffixOf_iff_suffix.mp hsuffix
  exact h (List.getLast?_append_of_ne_nil before hne)

/-! ## IPv4 texts -/

theorem digit_facts {d : Nat} (hd : d < 10) :
    Nat.digitChar d ≠ ':' ∧ Nat.digitChar d ≠ '.' ∧ Nat.digitChar d ≠ 'n' ∧ Nat.digitChar d ≠ 'p' := by
  have h : ∀ d < 10, Nat.digitChar d ≠ ':' ∧ Nat.digitChar d ≠ '.' ∧ Nat.digitChar d ≠ 'n' ∧
    Nat.digitChar d ≠ 'p' := by decide
  exact h d hd

theorem not_mem_decimal {c : Char} (hc : ∀ d < 10, Nat.digitChar d ≠ c) (n : Nat) :
    c ∉ Nat.toDigits 10 n := by
  intro h
  obtain ⟨d, hd, rfl⟩ := mem_toDigits (by omega) h
  exact hc d hd rfl

theorem ipv4Text_four (a b c d : Byte) :
    Net.ipv4Text [a, b, c, d] = Nat.toDigits 10 a.toNat ++ '.' :: (Nat.toDigits 10 b.toNat ++
      '.' :: (Nat.toDigits 10 c.toNat ++ '.' :: Nat.toDigits 10 d.toNat)) := by
  simp [Net.ipv4Text, Net.joinWith, List.intercalate_cons_cons]

theorem parseUnsigned_decimal {n bound : Nat} (hn : n < bound) :
    parseUnsigned bound (Nat.toDigits 10 n) = some n := by
  have hall : (Nat.toDigits 10 n).all isAsciiDigit = true :=
    List.all_eq_true.mpr fun c hc => isSome_toDigit_of_mem (by omega) (by omega) hc
  rw [parseUnsigned_digits Nat.toDigits_ne_nil hall, digitsVal_toDigits 10 (by omega) (by omega),
    if_pos hn]

/-- The parts between the dots. -/
theorem splitOn_ipv4Text {octets : List Byte} (hne : octets ≠ []) :
    (Net.ipv4Text octets).splitOn '.' = octets.map fun b => Nat.toDigits 10 b.toNat := by
  unfold Net.ipv4Text Net.joinWith
  apply List.splitOn_intercalate
  · intro part hpart
    obtain ⟨b, _, rfl⟩ := List.mem_map.mp hpart
    exact not_mem_decimal (by decide) _
  · simpa using hne

theorem byte_of_decimal {a b : Byte} (h : Nat.toDigits 10 a.toNat = Nat.toDigits 10 b.toNat) :
    a = b := by
  have hval := congrArg (digitsVal 10) h
  rw [digitsVal_toDigits 10 (by omega) (by omega), digitsVal_toDigits 10 (by omega) (by omega)] at hval
  exact UInt8.toNat_inj.mp hval

theorem ipv4Text_injective {octets octets' : List Byte} (hne : octets ≠ []) (hne' : octets' ≠ [])
    (h : Net.ipv4Text octets = Net.ipv4Text octets') : octets = octets' := by
  have hparts := congrArg (List.splitOn '.') h
  rw [splitOn_ipv4Text hne, splitOn_ipv4Text hne'] at hparts
  exact List.map_injective_iff.mpr (fun _ _ => byte_of_decimal) hparts

theorem no_colon_ipv4Text {octets : List Byte} (hlen : octets.length = 4) :
    ':' ∉ Net.ipv4Text octets := by
  match octets, hlen with
  | [a, b, c, d], _ =>
    have h : ∀ n, ':' ∉ Nat.toDigits 10 n := not_mem_decimal (by decide)
    simp [ipv4Text_four, h]

theorem isIpv4Dotted_ipv4Text (a b c d : Byte) :
    isIpv4Dotted (Net.ipv4Text [a, b, c, d]) = true := by
  have hparts := splitOn_ipv4Text (List.cons_ne_nil a [b, c, d])
  have hread : ∀ b : Byte, parseUnsigned (2 ^ 32) (Nat.toDigits 10 b.toNat) = some b.toNat := by
    intro b
    have hb : b.toNat < 256 := b.toNat_lt
    exact parseUnsigned_decimal (by omega)
  have hlt : ∀ b : Byte, decide (b.toNat < 256) = true := fun b => decide_eq_true b.toNat_lt
  have hne : ∀ b : Byte, (!(Nat.toDigits 10 b.toNat).isEmpty) = true := by simp
  have hall : ∀ b : Byte, (Nat.toDigits 10 b.toNat).all isAsciiDigit = true := by
    intro b
    exact List.all_eq_true.mpr fun c hc => isSome_toDigit_of_mem (by omega) (by omega) hc
  unfold isIpv4Dotted
  rw [hparts]
  simp only [List.map_cons, List.map_nil, List.all_cons, List.all_nil, hread, hlt, hne, hall]
  rfl

theorem classify_ipv4Text (H : Digests) {octets : List Byte} (hlen : octets.length = 4) :
    classify H (String.ofList (Net.ipv4Text octets)) = .ipv4 := by
  match octets, hlen with
  | [a, b, c, d], _ =>
    have hcolon : ':' ∉ Net.ipv4Text [a, b, c, d] := no_colon_ipv4Text rfl
    -- the last character is a digit, so neither suffix is there
    obtain ⟨k, hk, hlast⟩ :
        ∃ k < 10, (Net.ipv4Text [a, b, c, d]).getLast? = some (Nat.digitChar k) := by
      have hne : Nat.toDigits 10 d.toNat ≠ [] := Nat.toDigits_ne_nil
      obtain ⟨k, hk, hc⟩ := mem_toDigits (by omega) (List.getLast_mem hne)
      refine ⟨k, hk, ?_⟩
      rw [ipv4Text_four, ← hc, ← List.getLast?_eq_some_getLast hne]
      iterate 3
        rw [List.getLast?_append_of_ne_nil _ (List.cons_ne_nil _ _),
          List.getLast?_cons_of_ne_nil (by simp)]
    have hsuffix : ∀ suffix : List Char, suffix ≠ [] →
        suffix.getLast? = some 'n' ∨ suffix.getLast? = some 'p' →
        stripSuffix suffix (Net.ipv4Text [a, b, c, d]) = none := by
      intro suffix hne hend
      apply stripSuffix_none hne
      have hfacts := digit_facts hk
      rw [hlast]
      rcases hend with h | h
      · rw [h, Ne, Option.some.injEq]; exact hfacts.2.2.1
      · rw [h, Ne, Option.some.injEq]; exact hfacts.2.2.2
    unfold classify
    simp only [String.toList_ofList, List.contains_eq_mem, hcolon, decide_false,
      hsuffix ".onion".toList (by decide) (.inl (by decide)),
      hsuffix ".b32.i2p".toList (by decide) (.inr (by decide)), isIpv4Dotted_ipv4Text]
    rfl

/-! ## Base32 labels -/

/-- The symbols of labels. -/
def labelSymbol (v : Nat) : Char := (base32Symbol v).toLower

theorem labelSymbol_facts {v : Nat} (hv : v < 32) :
    ((97 ≤ (labelSymbol v).toNat && (labelSymbol v).toNat ≤ 122) ||
      (50 ≤ (labelSymbol v).toNat && (labelSymbol v).toNat ≤ 55)) = true ∧
    (labelSymbol v).toUpper = base32Symbol v ∧ labelSymbol v ≠ ':' ∧ (labelSymbol v).toNat < 128 := by
  have h : ∀ v < 32, ((97 ≤ (labelSymbol v).toNat && (labelSymbol v).toNat ≤ 122) ||
      (50 ≤ (labelSymbol v).toNat && (labelSymbol v).toNat ≤ 55)) = true ∧
    (labelSymbol v).toUpper = base32Symbol v ∧ labelSymbol v ≠ ':' ∧
      (labelSymbol v).toNat < 128 := by decide
  exact h v hv

theorem mem_chunkSymbols : ∀ {bits : List Bool}, ∀ c ∈ chunkSymbols bits,
    ∃ v < 32, c = base32Symbol v
  | a :: b :: c :: d :: e :: rest, x, hx => by
    rw [chunkSymbols] at hx
    rcases List.mem_cons.mp hx with rfl | hx
    · exact ⟨_, ofBits_lt _ rfl, rfl⟩
    · exact mem_chunkSymbols x hx
  | [], x, hx => by cases hx
  | [a], x, hx | [a, b], x, hx | [a, b, c], x, hx | [a, b, c, d], x, hx => by
    rw [chunkSymbols] at hx
    · exact ⟨_, ofBits_lt _ rfl, List.mem_singleton.mp hx⟩
    all_goals simp

theorem length_chunkSymbols : ∀ bits : List Bool,
    (chunkSymbols bits).length = (bits.length + 4) / 5
  | a :: b :: c :: d :: e :: rest => by
    rw [chunkSymbols, List.length_cons, length_chunkSymbols rest]
    simp only [List.length_cons]
    omega
  | [] => rfl
  | [_] => by simp [chunkSymbols]
  | [_, _] => by simp [chunkSymbols]
  | [_, _, _] => by simp [chunkSymbols]
  | [_, _, _, _] => by simp [chunkSymbols]

theorem mem_base32Label {bytes : List Byte} {c : Char} (hc : c ∈ base32Label bytes) :
    ∃ v < 32, c = labelSymbol v := by
  obtain ⟨x, hx, rfl⟩ := List.mem_map.mp hc
  obtain ⟨v, hv, rfl⟩ := mem_chunkSymbols x hx
  exact ⟨v, hv, rfl⟩

theorem length_base32Label (bytes : List Byte) :
    (base32Label bytes).length = (8 * bytes.length + 4) / 5 := by
  have hbits : (bytes.flatMap fun b => bitsOf 8 b.toNat).length = 8 * bytes.length := by
    simp only [List.length_flatMap, length_bitsOf]
    simp [Nat.mul_comm]
  rw [base32Label, List.length_map, base32Encode, length_chunkSymbols, hbits]

/-- A label is read back as its bytes. -/
theorem decodeBase32_base32Label (bytes : List Byte) :
    decodeBase32 (base32Label bytes) bytes.length = some bytes := by
  have hsymbols : (base32Label bytes).any (fun c => !((97 ≤ c.toNat && c.toNat ≤ 122) ||
      (50 ≤ c.toNat && c.toNat ≤ 55))) = false := by
    rw [List.any_eq_false]
    intro c hc
    obtain ⟨v, hv, rfl⟩ := mem_base32Label hc
    simp only [(labelSymbol_facts hv).1]
    decide
  have hupper : (base32Label bytes).map Char.toUpper = base32Encode bytes := by
    unfold base32Label
    rw [List.map_map]
    conv_rhs => rw [← List.map_id (base32Encode bytes)]
    apply List.map_congr_left
    intro c hc
    obtain ⟨v, hv, rfl⟩ := mem_chunkSymbols c hc
    exact (labelSymbol_facts hv).2.1
  unfold decodeBase32
  rw [hsymbols, hupper, base32Decode_base32Encode]
  simp

/-- A text of ASCII characters takes one byte for each. -/
theorem length_utf8_ascii : ∀ {cs : List Char}, (∀ c ∈ cs, c.toNat < 128) →
    (utf8 cs).length = cs.length
  | [], _ => rfl
  | c :: cs, h => by
    have hc : c.toNat < 128 := h c (List.mem_cons_self ..)
    have ih := length_utf8_ascii fun c' h' => h c' (List.mem_cons_of_mem _ h')
    have hone : (String.utf8EncodeChar c).length = 1 := by
      rw [String.length_utf8EncodeChar, Char.utf8Size_eq_one_iff, UInt32.le_iff_toNat_le]
      show c.toNat ≤ 127
      omega
    unfold utf8 at ih ⊢
    rw [List.flatMap_cons, List.length_append, ih, hone, List.length_cons]
    omega

theorem length_utf8_base32Label (bytes : List Byte) :
    (utf8 (base32Label bytes)).length = (8 * bytes.length + 4) / 5 := by
  rw [length_utf8_ascii, length_base32Label]
  intro c hc
  obtain ⟨v, hv, rfl⟩ := mem_base32Label hc
  exact (labelSymbol_facts hv).2.2.2

/-- A label under a suffix without colons is no IPv6 text. -/
theorem no_colon_base32Label (bytes : List Byte) {suffix : List Char} (h : ':' ∉ suffix) :
    ':' ∉ base32Label bytes ++ suffix := by
  intro hc
  rcases List.mem_append.mp hc with hc | hc
  · obtain ⟨v, hv, heq⟩ := mem_base32Label hc
    exact (labelSymbol_facts hv).2.2.1 heq.symm
  · exact h hc

theorem classify_onionV2 (H : Digests) {bytes : List Byte} (hlen : bytes.length = 10) :
    classify H (String.ofList (base32Label bytes ++ ".onion".toList)) = .onionV2 := by
  have hcolon := no_colon_base32Label bytes (show ':' ∉ ".onion".toList by decide)
  have hdecode := decodeBase32_base32Label bytes
  have hlabel := length_utf8_base32Label bytes
  rw [hlen] at hdecode hlabel
  unfold classify
  simp only [String.toList_ofList, List.contains_eq_mem, hcolon, decide_false, stripSuffix_append,
    hlabel, hdecode]
  rfl

theorem classify_i2p (H : Digests) {bytes : List Byte} (hlen : bytes.length = 32) :
    classify H (String.ofList (base32Label bytes ++ ".b32.i2p".toList)) = .i2p := by
  have hcolon := no_colon_base32Label bytes (show ':' ∉ ".b32.i2p".toList by decide)
  have honion : stripSuffix ".onion".toList (base32Label bytes ++ ".b32.i2p".toList) = none := by
    apply stripSuffix_none (by decide)
    rw [List.getLast?_append_of_ne_nil _ (by decide)]
    decide
  have hdecode := decodeBase32_base32Label bytes
  have hlabel := length_utf8_base32Label bytes
  rw [hlen] at hdecode hlabel
  unfold classify
  simp only [String.toList_ofList, List.contains_eq_mem, hcolon, decide_false, honion,
    stripSuffix_append, hlabel, hdecode]
  rfl

theorem length_onionV3Checksum (H : Digests) (pubkey : List Byte) :
    (onionV3Checksum H pubkey).length = 2 := by
  unfold onionV3Checksum
  rw [List.length_take, H.sha3_256_length]
  rfl

theorem classify_onionV3 (H : Digests) {pubkey : List Byte} (hlen : pubkey.length = 32) :
    classify H (String.ofList (base32Label (pubkey ++ onionV3Checksum H pubkey ++ [3]) ++
      ".onion".toList)) = .onionV3 := by
  have hsum := length_onionV3Checksum H pubkey
  have hdata : (pubkey ++ onionV3Checksum H pubkey ++ [3]).length = 35 := by
    simp [hlen, hsum]
  have hcolon := no_colon_base32Label (pubkey ++ onionV3Checksum H pubkey ++ [3])
    (show ':' ∉ ".onion".toList by decide)
  have hdecode := decodeBase32_base32Label (pubkey ++ onionV3Checksum H pubkey ++ [3])
  have hlabel := length_utf8_base32Label (pubkey ++ onionV3Checksum H pubkey ++ [3])
  rw [hdata] at hdecode hlabel
  have hvalid : validOnionV3 H (base32Label (pubkey ++ onionV3Checksum H pubkey ++ [3])) = true := by
    have hversion : (pubkey ++ onionV3Checksum H pubkey ++ [3])[34]? = some 3 := by
      rw [List.getElem?_append_right (by simp [hlen, hsum])]
      simp [hlen, hsum]
    have hkey : (pubkey ++ onionV3Checksum H pubkey ++ [3]).take 32 = pubkey := by
      rw [List.append_assoc, ← hlen, List.take_left]
    have hcheck : ((pubkey ++ onionV3Checksum H pubkey ++ [3]).drop 32).take 2 =
        onionV3Checksum H pubkey := by
      rw [List.append_assoc, ← hlen, List.drop_left, ← hsum, List.take_left]
    unfold validOnionV3
    rw [hdecode]
    simp only [hversion, hkey, hcheck]
    simp [onionV3Checksum]
  unfold classify
  simp only [String.toList_ofList, List.contains_eq_mem, hcolon, decide_false, stripSuffix_append,
    hlabel, hvalid]
  rfl

/-! ## Labels of decoded addresses -/

/-- The length of a BIP155 address; the length of an unknown network id is free. -/
def expectedLength (netId : Byte) : Option Nat :=
  if netId = 1 then some 4
  else if netId = 2 then some 16
  else if netId = 3 then some 10
  else if netId = 4 then some 32
  else if netId = 5 then some 32
  else if netId = 6 then some 16
  else none

/-- The addresses of the six BIP155 networks, with their hosts. -/
inductive Bip155Host (H : Digests) : Byte → List Byte → List Char → NetworkType → Prop where
  | ipv4 {bytes : List Byte} (sized : bytes.length = 4) :
      Bip155Host H 1 bytes (Net.ipv4Text bytes) .ipv4
  | ipv6 {bytes : List Byte} (sized : bytes.length = 16) (unmapped : Net.ipv4Mapped bytes = none)
      (outside : bytes.head? ≠ some 0xfc) : Bip155Host H 2 bytes (Net.ipv6Text bytes) .ipv6
  | onionV2 {bytes : List Byte} (sized : bytes.length = 10) :
      Bip155Host H 3 bytes (base32Label bytes ++ ".onion".toList) .onionV2
  | onionV3 {bytes : List Byte} (sized : bytes.length = 32) :
      Bip155Host H 4 bytes (base32Label (bytes ++ onionV3Checksum H bytes ++ [3]) ++
        ".onion".toList) .onionV3
  | i2p {bytes : List Byte} (sized : bytes.length = 32) :
      Bip155Host H 5 bytes (base32Label bytes ++ ".b32.i2p".toList) .i2p
  | cjdns {bytes : List Byte} (sized : bytes.length = 16) (unmapped : Net.ipv4Mapped bytes = none)
      (inside : bytes.head? = some 0xfc) : Bip155Host H 6 bytes (Net.ipv6Text bytes) .cjdns

theorem bip155Host_of_decodeAddrv2 (H : Digests) {netId : Byte} {bytes : List Byte} {host : String}
    {net : NetworkType} (hlen : ∀ n, expectedLength netId = some n → bytes.length = n)
    (h : decodeAddrv2 H netId bytes = .ok (some (host, net))) :
    Bip155Host H netId bytes host.toList net := by
  unfold decodeAddrv2 at h
  unfold expectedLength at hlen
  split at h
  · rename_i hid
    have hlen := hlen 4 (if_pos hid)
    cases h
    rw [String.toList_ofList, List.take_of_length_le hlen.le, hid]
    exact .ipv4 hlen
  rename_i h1
  rw [if_neg h1] at hlen
  split at h
  · rename_i hid
    have hlen := hlen 16 (if_pos hid)
    split at h
    · cases h
    · rename_i hok
      rw [not_or] at hok
      cases h
      rw [String.toList_ofList, hid]
      exact .ipv6 hlen (by simpa using hok.1) hok.2
  rename_i h2
  rw [if_neg h2] at hlen
  split at h
  · rename_i hid
    have hlen := hlen 10 (if_pos hid)
    cases h
    rw [String.toList_ofList, hid]
    exact .onionV2 hlen
  rename_i h3
  rw [if_neg h3] at hlen
  split at h
  · rename_i hid
    have hlen := hlen 32 (if_pos hid)
    unfold encodeOnionV3 at h
    simp only [hlen, ne_eq, not_true_eq_false, if_false] at h
    cases h
    rw [String.toList_ofList, hid]
    exact .onionV3 hlen
  rename_i h4
  rw [if_neg h4] at hlen
  split at h
  · rename_i hid
    have hlen := hlen 32 (if_pos hid)
    cases h
    rw [String.toList_ofList, hid]
    exact .i2p hlen
  rename_i h5
  rw [if_neg h5] at hlen
  split at h
  · rename_i hid
    have hlen := hlen 16 (if_pos hid)
    split at h
    · cases h
    · rename_i hfc
      rw [not_not] at hfc
      cases h
      have hmapped : Net.ipv4Mapped bytes = none := by
        match bytes, hfc with
        | b :: rest, hfc =>
          cases hfc
          rfl
      rw [String.toList_ofList, hid]
      exact .cjdns hlen hmapped hfc
  · cases h

theorem Bip155Host.classify {H : Digests} {netId : Byte} {bytes : List Byte} {cs : List Char}
    {net : NetworkType} (h : Bip155Host H netId bytes cs net) :
    classify H (String.ofList cs) = net := by
  cases h with
  | ipv4 sized => exact classify_ipv4Text H sized
  | ipv6 sized unmapped outside => rw [classify_ipv6Text H unmapped sized, if_neg outside]
  | onionV2 sized => exact classify_onionV2 H sized
  | onionV3 sized => exact classify_onionV3 H sized
  | i2p sized => exact classify_i2p H sized
  | cjdns sized unmapped inside => rw [classify_ipv6Text H unmapped sized, if_pos inside]

/-- **BIP155 labels.**  A decoded address is classified as the network of its wire id. -/
theorem classify_decodeAddrv2 (H : Digests) {netId : Byte} {bytes : List Byte} {host : String}
    {net : NetworkType} (hlen : ∀ n, expectedLength netId = some n → bytes.length = n)
    (h : decodeAddrv2 H netId bytes = .ok (some (host, net))) : classify H host = net := by
  have hclass := (bip155Host_of_decodeAddrv2 H hlen h).classify
  rwa [String.ofList_toList] at hclass

/-- **Legacy labels.**  Outside `fc00::/8` a decoded address is classified as it was labelled;
    inside, it is labelled IPv6 and classified as CJDNS. -/
theorem classify_decodeLegacyIp (H : Digests) {octets : List Byte} (hlen : octets.length = 16) :
    if octets.head? = some 0xfc then
      (decodeLegacyIp octets).2 = .ipv6 ∧ classify H (decodeLegacyIp octets).1 = .cjdns
    else classify H (decodeLegacyIp octets).1 = (decodeLegacyIp octets).2 := by
  unfold decodeLegacyIp
  cases hmapped : Net.ipv4Mapped octets with
  | none =>
    simp only [classify_ipv6Text H hmapped hlen]
    split
    · exact ⟨trivial, rfl⟩
    · rfl
  | some v4 =>
    have hv4 : v4.length = 4 ∧ octets.head? ≠ some 0xfc := by
      unfold Net.ipv4Mapped at hmapped
      split at hmapped
      · rename_i hzero
        cases hmapped
        match octets, hlen with
        | b :: rest, hlen =>
          constructor
          · rw [List.length_take, List.length_drop, hlen]
            rfl
          · rintro ⟨⟩
            cases hzero
      · cases hmapped
    rw [if_neg hv4.2]
    exact classify_ipv4Text H hv4.1

end P2PCrawler
