import P2PCrawler.Hosts
import P2PCrawler.Lib.Bytes

/-!
# Hosts as keys (`address.rs`, `protocol.rs`)

A peer is known by its host text and port, so different addresses must have different hosts, and
a host that `classify` takes for an overlay address must be the host of one.

* `decodeLegacyIp_injective` — different 16-byte addresses have different hosts.
* `base32Label_of_decodeBase32` — a label that decodes is the label of its bytes.

## Results

* `decodeAddrv2_classify_agree` — **wire decoding and text classification agree** on the BIP155
  networks and merge no two addresses.
-/

set_option autoImplicit false

namespace P2PCrawler

/-! ## Texts of different addresses -/

theorem segments_injective : ∀ {n : Nat} {octets octets' : List Byte}, octets.length = 2 * n →
    octets'.length = 2 * n → Net.segments octets = Net.segments octets' → octets = octets'
  | 0, octets, octets', h, h', _ => by
    rw [List.length_eq_zero_iff.mp h, List.length_eq_zero_iff.mp h']
  | n + 1, a :: b :: rest, a' :: b' :: rest', h, h', heq => by
    simp only [Net.segments, List.cons.injEq] at heq
    simp only [List.length_cons] at h h'
    have hb : b.toNat < 256 := b.toNat_lt
    have hb' : b'.toNat < 256 := b'.toNat_lt
    have hhigh : a.toNat = a'.toNat := by omega
    have hlow : b.toNat = b'.toNat := by omega
    have ih := segments_injective (n := n) (by omega) (by omega) heq.2
    rw [UInt8.toNat_inj.mp hhigh, UInt8.toNat_inj.mp hlow, ih]

theorem ipv6Text_injective {octets octets' : List Byte} (hmapped : Net.ipv4Mapped octets = none)
    (hmapped' : Net.ipv4Mapped octets' = none) (hlen : octets.length = 16)
    (hlen' : octets'.length = 16) (h : Net.ipv6Text octets = Net.ipv6Text octets') :
    octets = octets' := by
  have hread := Net.parseIpv6Addr_ipv6Text hmapped (Net.length_segments (n := 8) hlen)
    Net.segments_lt
  have hread' := Net.parseIpv6Addr_ipv6Text hmapped' (Net.length_segments (n := 8) hlen')
    Net.segments_lt
  rw [h, hread'] at hread
  exact segments_injective (n := 8) hlen hlen' (Option.some.inj hread).symm

/-- The octets of a mapped address are those of its IPv4 address behind the fixed part. -/
theorem ipv4Mapped_eq_some {octets v4 : List Byte} (hlen : octets.length = 16)
    (h : Net.ipv4Mapped octets = some v4) :
    v4.length = 4 ∧ octets = List.replicate 10 0 ++ [0xff, 0xff] ++ v4 := by
  unfold Net.ipv4Mapped at h
  split at h
  · rename_i hfixed
    match octets, hlen with
    | [a, b, c, d, e, f, g, i, j, k, l, m, n, o, p, q], _ =>
      cases h
      simp only [List.take_succ_cons, List.take_zero, List.all_cons, List.all_nil, Bool.and_true,
        Bool.and_eq_true, beq_iff_eq, List.getElem?_cons_succ, List.getElem?_cons_zero,
        Option.some.injEq] at hfixed
      obtain ⟨⟨⟨rfl, rfl, rfl, rfl, rfl, rfl, rfl, rfl, rfl, rfl⟩, rfl⟩, rfl⟩ := hfixed
      exact ⟨rfl, rfl⟩
  · cases h

/-- **Hosts of legacy addresses.**  Different addresses have different hosts. -/
theorem decodeLegacyIp_injective {octets octets' : List Byte} (hlen : octets.length = 16)
    (hlen' : octets'.length = 16) (h : (decodeLegacyIp octets).1 = (decodeLegacyIp octets').1) :
    octets = octets' := by
  unfold decodeLegacyIp at h
  -- a dotted quad has no colon, an IPv6 text has one
  have hdisjoint : ∀ {o o' v4 : List Byte}, o.length = 16 → o'.length = 16 →
      Net.ipv4Mapped o = some v4 → Net.ipv4Mapped o' = none →
      Net.ipv4Text v4 ≠ Net.ipv6Text o' := by
    intro o o' v4 ho ho' hsome hnone heq
    apply no_colon_ipv4Text (ipv4Mapped_eq_some ho hsome).1
    rw [heq]
    exact colon_mem_ipv6Text hnone ho'
  cases hmapped : Net.ipv4Mapped octets with
  | none =>
    cases hmapped' : Net.ipv4Mapped octets' with
    | none =>
      simp only [hmapped, hmapped'] at h
      exact ipv6Text_injective hmapped hmapped' hlen hlen' (String.ofList_injective h)
    | some v4 =>
      simp only [hmapped, hmapped'] at h
      exact absurd (String.ofList_injective h).symm (hdisjoint hlen' hlen hmapped' hmapped)
  | some v4 =>
    cases hmapped' : Net.ipv4Mapped octets' with
    | none =>
      simp only [hmapped, hmapped'] at h
      exact absurd (String.ofList_injective h) (hdisjoint hlen hlen' hmapped hmapped')
    | some v4' =>
      simp only [hmapped, hmapped'] at h
      obtain ⟨hfour, ho⟩ := ipv4Mapped_eq_some hlen hmapped
      obtain ⟨hfour', ho'⟩ := ipv4Mapped_eq_some hlen' hmapped'
      have hne : v4 ≠ [] := List.ne_nil_of_length_pos (by omega)
      have hne' : v4' ≠ [] := List.ne_nil_of_length_pos (by omega)
      rw [ho, ho', ipv4Text_injective hne hne' (String.ofList_injective h)]

/-! ## Labels -/

theorem base32Label_injective {bytes bytes' : List Byte} (hlen : bytes.length = bytes'.length)
    (h : base32Label bytes = base32Label bytes') : bytes = bytes' := by
  have hread := decodeBase32_base32Label bytes
  rw [h, hlen, decodeBase32_base32Label] at hread
  exact (Option.some.inj hread).symm

/-- The characters `decode_base32` lets through. -/
theorem toLower_toUpper {c : Char} (h : ((97 ≤ c.toNat && c.toNat ≤ 122) ||
    (50 ≤ c.toNat && c.toNat ≤ 55)) = true) : c.toUpper.toLower = c := by
  have hall : ∀ n < 128, ((97 ≤ n && n ≤ 122) || (50 ≤ n && n ≤ 55)) = true →
      (Char.ofNat n).toUpper.toLower = Char.ofNat n := by decide
  have hlt : c.toNat < 128 := by
    simp only [Bool.or_eq_true, Bool.and_eq_true, decide_eq_true_eq] at h
    omega
  have hc := hall c.toNat hlt h
  rwa [Char.ofNat_toNat] at hc

/-- **Canonical labels.**  A label that decodes is the label of its bytes. -/
theorem base32Label_of_decodeBase32 {label : List Char} {n : Nat} {bytes : List Byte}
    (h : decodeBase32 label n = some bytes) : base32Label bytes = label ∧ bytes.length = n := by
  unfold decodeBase32 at h
  split at h
  · cases h
  · rename_i hsymbols
    rw [Option.filter_eq_some_iff, beq_iff_eq] at h
    refine ⟨?_, h.2⟩
    unfold base32Label
    rw [base32Encode_of_base32Decode h.1, List.map_map]
    conv_rhs => rw [← List.map_id label]
    apply List.map_congr_left
    intro c hc
    rw [Bool.not_eq_true, List.any_eq_false] at hsymbols
    apply toLower_toUpper
    have hsymbol := hsymbols c hc
    rwa [Bool.not_eq_true, Bool.not_eq_false'] at hsymbol

theorem label_of_stripSuffix {suffix cs label : List Char} (h : stripSuffix suffix cs = some label) :
    cs = label ++ suffix := by
  unfold stripSuffix at h
  split at h
  · rename_i hsuffix
    obtain ⟨before, rfl⟩ := List.isSuffixOf_iff_suffix.mp hsuffix
    cases h
    rw [List.length_append, Nat.add_sub_cancel, List.take_left]
  · cases h

/-! ## Classified hosts -/

/-- What `classify` has checked of a host, network by network. -/
inductive Classified (H : Digests) (cs : List Char) : NetworkType → Prop where
  | ipv6 {groups : List Nat} (colon : ':' ∈ cs) (parses : Net.parseIpv6Addr cs = some groups)
      (outside : groups.headD 0 / 256 ≠ 0xfc) : Classified H cs .ipv6
  | cjdns {groups : List Nat} (colon : ':' ∈ cs) (parses : Net.parseIpv6Addr cs = some groups)
      (inside : groups.headD 0 / 256 = 0xfc) : Classified H cs .cjdns
  | onionV2 {label : List Char} (no_colon : ':' ∉ cs) (text : cs = label ++ ".onion".toList)
      (decodes : (decodeBase32 label 10).isSome) : Classified H cs .onionV2
  | onionV3 {label : List Char} (no_colon : ':' ∉ cs) (text : cs = label ++ ".onion".toList)
      (valid : validOnionV3 H label = true) : Classified H cs .onionV3
  | i2p {label : List Char} (no_colon : ':' ∉ cs) (text : cs = label ++ ".b32.i2p".toList)
      (decodes : (decodeBase32 label 32).isSome) : Classified H cs .i2p
  | ipv4 (no_colon : ':' ∉ cs) (dotted : isIpv4Dotted cs = true) : Classified H cs .ipv4
  | unknown : Classified H cs .unknown

theorem classify_spec (H : Digests) (host : String) :
    Classified H host.toList (classify H host) := by
  unfold classify
  simp only
  generalize host.toList = cs
  split
  · rename_i hcolon
    have hcolon : ':' ∈ cs := by simpa using hcolon
    split
    · rename_i groups hgroups
      split
      · rename_i hfc
        exact .cjdns hcolon hgroups (by simpa using hfc)
      · rename_i hfc
        exact .ipv6 hcolon hgroups (by simpa using hfc)
    · exact .unknown
  rename_i hcolon
  have hcolon : ':' ∉ cs := by simpa using hcolon
  split
  · rename_i label hlabel
    have htext := label_of_stripSuffix hlabel
    split
    · rename_i hv2
      rw [Bool.and_eq_true] at hv2
      exact .onionV2 hcolon htext hv2.2
    · split
      · rename_i hv3
        rw [Bool.and_eq_true] at hv3
        exact .onionV3 hcolon htext hv3.2
      · exact .unknown
  split
  · rename_i label hlabel
    have htext := label_of_stripSuffix hlabel
    split
    · rename_i hi2p
      rw [Bool.and_eq_true] at hi2p
      exact .i2p hcolon htext hi2p.2
    · exact .unknown
  · split
    · rename_i hdotted
      exact .ipv4 hcolon hdotted
    · exact .unknown

/-- The bytes of a label with the right checksum and version. -/
theorem pubkey_of_validOnionV3 {H : Digests} {label : List Char} (h : validOnionV3 H label = true) :
    ∃ pubkey, pubkey.length = 32 ∧
      label = base32Label (pubkey ++ onionV3Checksum H pubkey ++ [3]) := by
  unfold validOnionV3 at h
  split at h
  · cases h
  · rename_i decoded hdecoded
    split at h
    · cases h
    · rename_i hversion
      obtain ⟨rfl, hlen⟩ := base32Label_of_decodeBase32 hdecoded
      obtain ⟨pubkey, tail, rfl, hpubkey, htail⟩ :=
        exists_append_of_length (a := 32) (b := 3) hlen
      obtain ⟨sum, version, rfl, hsum, hone⟩ := exists_append_of_length (a := 2) (b := 1) htail
      obtain ⟨v, rfl⟩ := List.length_eq_one_iff.mp hone
      refine ⟨pubkey, hpubkey, ?_⟩
      have hkey : (pubkey ++ (sum ++ [v])).take 32 = pubkey := by rw [← hpubkey, List.take_left]
      have hcheck : ((pubkey ++ (sum ++ [v])).drop 32).take 2 = sum := by
        rw [← hpubkey, List.drop_left, ← hsum, List.take_left]
      have hv : (pubkey ++ (sum ++ [v]))[34]? = some v := by
        rw [List.getElem?_append_right (by omega), List.getElem?_append_right (by omega), hpubkey, hsum]
        rfl
      rw [hv, bne_iff_ne, ne_eq, not_not, Option.some.injEq] at hversion
      rw [hkey, hcheck, beq_iff_eq] at h
      unfold onionV3Checksum
      rw [hversion, ← h, List.append_assoc]

theorem eq_ofList_of_toList {s : String} {cs : List Char} (h : s.toList = cs) :
    s = String.ofList cs := by
  rw [← h, String.ofList_toList]

/-- The length of the bytes is that of the network, as `parse_addrv2` checks before it decodes them. -/
def SizedFor (netId : Byte) (bytes : List Byte) : Prop :=
  ∀ n, expectedLength netId = some n → bytes.length = n

/-- The wire id of a network. -/
def wireNetId : NetworkType → Byte
  | .ipv4 => 1
  | .ipv6 => 2
  | .onionV2 => 3
  | .onionV3 => 4
  | .i2p => 5
  | .cjdns => 6
  | .unknown => 0

theorem Bip155Host.netId {H : Digests} {netId : Byte} {bytes : List Byte} {cs : List Char}
    {net : NetworkType} (h : Bip155Host H netId bytes cs net) : netId = wireNetId net := by
  cases h <;> rfl

/-- Two addresses of one network with one host are the same. -/
theorem Bip155Host.bytes_unique {H : Digests} {netId netId' : Byte} {bytes bytes' : List Byte}
    {cs : List Char} {net : NetworkType} (h : Bip155Host H netId bytes cs net)
    (h' : Bip155Host H netId' bytes' cs net) : bytes = bytes' := by
  generalize hcs : cs = cs' at h'
  cases h with
  | ipv4 sized =>
    cases h' with
    | ipv4 sized' =>
      exact ipv4Text_injective (List.ne_nil_of_length_pos (by omega))
        (List.ne_nil_of_length_pos (by omega)) hcs
  | ipv6 sized unmapped _ =>
    cases h' with
    | ipv6 sized' unmapped' _ => exact ipv6Text_injective unmapped unmapped' sized sized' hcs
  | onionV2 sized =>
    cases h' with
    | onionV2 sized' =>
      exact base32Label_injective (sized.trans sized'.symm) (List.append_cancel_right hcs)
  | onionV3 sized =>
    cases h' with
    | onionV3 sized' =>
      have hsum := length_onionV3Checksum H
      have hdata := base32Label_injective (by simp [sized, sized', hsum]) (List.append_cancel_right hcs)
      simp only [List.append_assoc] at hdata
      exact (List.append_inj hdata (sized.trans sized'.symm)).1
  | i2p sized =>
    cases h' with
    | i2p sized' =>
      exact base32Label_injective (sized.trans sized'.symm) (List.append_cancel_right hcs)
  | cjdns sized unmapped _ =>
    cases h' with
    | cjdns sized' unmapped' _ => exact ipv6Text_injective unmapped unmapped' sized sized' hcs

/-- Two decoded addresses with one host are the same. -/
theorem decodeAddrv2_unique {H : Digests} {netId netId' : Byte} {bytes bytes' : List Byte}
    {host : String} {net net' : NetworkType} (hlen : SizedFor netId bytes) (hlen' : SizedFor netId' bytes')
    (h : decodeAddrv2 H netId bytes = .ok (some (host, net)))
    (h' : decodeAddrv2 H netId' bytes' = .ok (some (host, net'))) : netId = netId' ∧ bytes = bytes' := by
  have hnet : net = net' :=
    (classify_decodeAddrv2 H hlen h).symm.trans (classify_decodeAddrv2 H hlen' h')
  subst hnet
  have hhost := bip155Host_of_decodeAddrv2 H hlen h
  have hhost' := bip155Host_of_decodeAddrv2 H hlen' h'
  exact ⟨hhost.netId.trans hhost'.netId.symm, hhost.bytes_unique hhost'⟩

/-- **Wire decoding and text classification agree.**  A decoded BIP155 address is classified as
    the network of its id, and no two addresses have one host.  A host is classified as Tor v2,
    Tor v3 or I2P iff it is the host of some bytes of that network. -/
theorem decodeAddrv2_classify_agree (H : Digests) :
    (∀ netId bytes host net, SizedFor netId bytes →
      decodeAddrv2 H netId bytes = .ok (some (host, net)) → classify H host = net) ∧
    (∀ netId bytes netId' bytes' host net net', SizedFor netId bytes → SizedFor netId' bytes' →
      decodeAddrv2 H netId bytes = .ok (some (host, net)) →
      decodeAddrv2 H netId' bytes' = .ok (some (host, net')) → netId = netId' ∧ bytes = bytes') ∧
    (∀ host, classify H host = .onionV2 ↔
      ∃ bytes, SizedFor 3 bytes ∧ decodeAddrv2 H 3 bytes = .ok (some (host, .onionV2))) ∧
    (∀ host, classify H host = .onionV3 ↔
      ∃ bytes, SizedFor 4 bytes ∧ decodeAddrv2 H 4 bytes = .ok (some (host, .onionV3))) ∧
    (∀ host, classify H host = .i2p ↔
      ∃ bytes, SizedFor 5 bytes ∧ decodeAddrv2 H 5 bytes = .ok (some (host, .i2p))) := by
  refine ⟨fun netId bytes host net => classify_decodeAddrv2 H, ?_, ?_, ?_, ?_⟩
  · intro netId bytes netId' bytes' host net net'
    exact decodeAddrv2_unique
  · intro host
    constructor
    · intro h
      have hspec := classify_spec H host
      rw [h] at hspec
      cases hspec with
      | onionV2 _ text decodes =>
        obtain ⟨bytes, hbytes⟩ := Option.isSome_iff_exists.mp decodes
        obtain ⟨rfl, hlen⟩ := base32Label_of_decodeBase32 hbytes
        obtain rfl := eq_ofList_of_toList text
        exact ⟨bytes, fun n hn => by cases hn; exact hlen, rfl⟩
    · rintro ⟨bytes, hlen, h⟩
      exact classify_decodeAddrv2 H hlen h
  · intro host
    constructor
    · intro h
      have hspec := classify_spec H host
      rw [h] at hspec
      cases hspec with
      | onionV3 _ text valid =>
        obtain ⟨pubkey, hlen, rfl⟩ := pubkey_of_validOnionV3 valid
        obtain rfl := eq_ofList_of_toList text
        refine ⟨pubkey, fun n hn => by cases hn; exact hlen, ?_⟩
        simp [decodeAddrv2, encodeOnionV3, hlen]
    · rintro ⟨bytes, hlen, h⟩
      exact classify_decodeAddrv2 H hlen h
  · intro host
    constructor
    · intro h
      have hspec := classify_spec H host
      rw [h] at hspec
      cases hspec with
      | i2p _ text decodes =>
        obtain ⟨bytes, hbytes⟩ := Option.isSome_iff_exists.mp decodes
        obtain ⟨rfl, hlen⟩ := base32Label_of_decodeBase32 hbytes
        obtain rfl := eq_ofList_of_toList text
        exact ⟨bytes, fun n hn => by cases hn; exact hlen, rfl⟩
    · rintro ⟨bytes, hlen, h⟩
      exact classify_decodeAddrv2 H hlen h

end P2PCrawler
