import P2PCrawler.Probe
import P2PCrawler.Crawler.Routing

/-!
# The endpoints of a probe (`bin/probe.rs`)

The probe parses its node strings, drops what it does not recognise and hands the keys to
`observe_seed`, which leaves it to the store to drop duplicates.  The store compares the text of
the host, and an IP address has many texts.

* `Net.IpAddr.mapped` — the sixteen octets of an address, an IPv4 address in its mapped form.
* `endpoint` — the address and port that a key stands for.
* `seedTargets` — the seeding loop of the probe: the store, and the keys that are enqueued.

## Results

* `ipToHost_eq_iff` — `ip_to_host` has one text for every address.
* `probe_once_iff` — **one key, one entry and one queue item for every endpoint:** exactly for
  strings whose IPv6 texts are those of `ip_to_host`.
-/

set_option autoImplicit false

namespace P2PCrawler

open Net

/-! ## Addresses -/

/-- The sixteen octets of an address; an IPv4 address stands for its mapped form. -/
def Net.IpAddr.mapped : Net.IpAddr → List Byte
  | .v4 addr => List.replicate 10 0 ++ [0xff, 0xff] ++ addr.octets
  | .v6 addr => addr.octets

theorem length_mapped (ip : IpAddr) : ip.mapped.length = 16 := by
  cases ip with
  | v4 addr =>
    have hlen := addr.sized
    simp only [IpAddr.mapped, List.length_append, List.length_replicate, List.length_cons,
      List.length_nil, hlen]
  | v6 addr => exact addr.sized

/-- The host of a resolved address is that of the legacy address with its octets. -/
theorem ipToHost_mapped (ip : IpAddr) : ipToHost ip = (decodeLegacyIp ip.mapped).1 := by
  cases ip with
  | v6 addr => exact ipToHost_v6 addr
  | v4 addr =>
    obtain ⟨octets, sized⟩ := addr
    match octets, sized with
    | [a, b, c, d], sized => rfl

/-- **One canonical text.**  Two addresses have the same host in DNS results and in legacy
    messages iff they are the same address, with IPv4-mapped ones taken for IPv4. -/
theorem ipToHost_eq_iff (ip ip' : IpAddr) : ipToHost ip = ipToHost ip' ↔ ip.mapped = ip'.mapped := by
  rw [ipToHost_mapped, ipToHost_mapped]
  constructor
  · exact decodeLegacyIp_injective (length_mapped ip) (length_mapped ip')
  · intro h
    rw [h]

/-- A dotted quad that is read has one text. -/
theorem parseIpAddr_unique {cs cs' : List Char} (hcolon : ':' ∉ cs) (hcolon' : ':' ∉ cs') {ip ip' : IpAddr}
    (h : parseIpAddr cs = some ip) (h' : parseIpAddr cs' = some ip') (hip : ip.mapped = ip'.mapped) :
    cs = cs' := by
  obtain ⟨octets, hread, rfl⟩ := parseIpAddr_no_colon hcolon h
  obtain ⟨octets', hread', rfl⟩ := parseIpAddr_no_colon hcolon' h'
  obtain ⟨p, q, r, s, hp, hq, hr, hs, rfl, rfl⟩ := readIpv4Addr_some hread
  obtain ⟨p', q', r', s', hp', hq', hr', hs', rfl, rfl⟩ := readIpv4Addr_some hread'
  have hquad := List.append_cancel_left hip
  simp only [Ipv4Addr.ofOctets, List.map_cons, List.map_nil, List.cons.injEq, and_true] at hquad
  have hvalue : ∀ {t t' : List Char}, OctetText t → OctetText t' →
      UInt8.ofNat (digitsVal 10 t) = UInt8.ofNat (digitsVal 10 t') → t = t' := by
    intro t t' ht ht' heq
    apply ht.unique ht'
    have hnat := congrArg UInt8.toNat heq
    rwa [UInt8.toNat_ofNat', UInt8.toNat_ofNat', Nat.mod_eq_of_lt ht.small,
      Nat.mod_eq_of_lt ht'.small] at hnat
  rw [hvalue hp hp' hquad.1, hvalue hq hq' hquad.2.1, hvalue hr hr' hquad.2.2.1,
    hvalue hs hs' hquad.2.2.2]

theorem octetText_toDigits (b : Byte) : OctetText (Nat.toDigits 10 b.toNat) := by
  refine octetText_iff.mpr ⟨⟨Nat.toDigits_ne_nil, ?_, ?_⟩, ?_⟩
  · exact fun c hc => isSome_toDigit_of_mem (by omega) (by omega) hc
  · rw [digitsVal_toDigits 10 (by omega) (by omega)]
    exact b.toNat_lt
  · intro hzero
    rw [head_toDigits (by omega) (by omega) b.toNat hzero]
    rfl

theorem parseIpAddr_ipv4Text {octets : List Byte} (hlen : octets.length = 4) :
    parseIpAddr (ipv4Text octets) = some (.v4 ⟨octets, hlen⟩) := by
  match octets, hlen with
  | [a, b, c, d], hlen =>
    have hval : ∀ b : Byte, digitsVal 10 (Nat.toDigits 10 b.toNat) = b.toNat := fun b =>
      digitsVal_toDigits 10 (by omega) (by omega) b.toNat
    have hread := readIpv4Addr_of_text (octetText_toDigits a) (octetText_toDigits b)
      (octetText_toDigits c) (octetText_toDigits d)
    unfold parseIpAddr readIpAddr
    rw [ipv4Text_four, hread]
    simp only [Ipv4Addr.ofOctets, hval, List.map_cons, List.map_nil, UInt8.ofNat_toNat]

theorem groupOctets_segment (a b : Byte) : groupOctets (a.toNat * 256 + b.toNat) = [a, b] := by
  have hb : b.toNat < 256 := b.toNat_lt
  have hhigh : (a.toNat * 256 + b.toNat) / 256 = a.toNat := by omega
  have hlow : (a.toNat * 256 + b.toNat) % 256 = b.toNat := by omega
  rw [groupOctets, hhigh, hlow, UInt8.ofNat_toNat, UInt8.ofNat_toNat]

/-- The groups of an address are those of its octets. -/
theorem octets_of_segments : ∀ {octets : List Byte} {n : Nat}, octets.length = 2 * n →
    ((List.range n).flatMap fun i => groupOctets ((segments octets).getD i 0)) = octets
  | [], n, h => by
    have hn : n = 0 := by simpa using h
    rw [hn]
    rfl
  | [_], n, h => by
    simp only [List.length_cons, List.length_nil] at h
    omega
  | a :: b :: rest, 0, h => by cases h
  | a :: b :: rest, n + 1, h => by
    simp only [List.length_cons] at h
    have ih := @octets_of_segments rest n (by omega)
    rw [List.range_succ_eq_map, List.flatMap_cons, List.flatMap_map, segments, List.getD_cons_zero,
      groupOctets_segment]
    simp only [List.getD_cons_succ, ih, List.cons_append, List.nil_append]

theorem parseIpAddr_ipv6Text {octets : List Byte} (hmapped : ipv4Mapped octets = none)
    (hlen : octets.length = 16) : parseIpAddr (ipv6Text octets) = some (.v6 ⟨octets, hlen⟩) := by
  have hparse := parseIpv6Addr_ipv6Text hmapped (length_segments (n := 8) hlen) segments_lt
  have hoctets : (Ipv6Addr.ofGroups (segments octets)).octets = octets := octets_of_segments hlen
  rw [parseIpAddr_v6 hparse]
  congr 2
  cases hgroups : Ipv6Addr.ofGroups (segments octets) with
  | mk octets' sized =>
    rw [hgroups] at hoctets
    cases hoctets
    rfl

/-- **What `ip_to_host` writes is read back**: as an IP host, and as the address it was written for. -/
theorem ipToHost_reads (H : Digests) (ip : IpAddr) : IpHost H (ipToHost ip) ∧
    ∃ ip', parseIpAddr (ipToHost ip).toList = some ip' ∧ ip'.mapped = ip.mapped := by
  have hv4 : ∀ {octets : List Byte} (hlen : octets.length = 4),
      IpHost H (String.ofList (ipv4Text octets)) ∧
      ∃ ip', parseIpAddr (String.ofList (ipv4Text octets)).toList = some ip' ∧
        ip'.mapped = List.replicate 10 0 ++ [0xff, 0xff] ++ octets := by
    intro octets hlen
    refine ⟨.inl (classify_ipv4Text H hlen), .v4 ⟨octets, hlen⟩, ?_, rfl⟩
    rw [String.toList_ofList]
    exact parseIpAddr_ipv4Text hlen
  cases ip with
  | v4 addr => exact hv4 addr.sized
  | v6 addr =>
    obtain ⟨octets, hlen⟩ := addr
    cases hmapped : ipv4Mapped octets with
    | some v4 =>
      obtain ⟨hfour, hoctets⟩ := ipv4Mapped_eq_some hlen hmapped
      have hread := hv4 hfour
      rw [← hoctets] at hread
      simpa only [ipToHost, hmapped, IpAddr.mapped] using hread
    | none =>
      have hclass := classify_ipv6Text H hmapped hlen
      simp only [ipToHost, hmapped]
      refine ⟨?_, .v6 ⟨octets, hlen⟩, ?_, rfl⟩
      · unfold IpHost
        rw [hclass]
        split
        · exact .inr (.inr rfl)
        · exact .inr (.inl rfl)
      · rw [String.toList_ofList]
        exact parseIpAddr_ipv6Text hmapped hlen

/-- The address and port that the key of an IP host stands for. -/
def endpoint (H : Digests) (k : AddrKey) : Option (List Byte × UInt16) :=
  match classify H k.host with
  | .ipv4 | .ipv6 | .cjdns => (parseIpAddr k.host.toList).map fun ip => (ip.mapped, k.port)
  | _ => none

theorem endpoint_eq_some {H : Digests} {k : AddrKey} {e : List Byte × UInt16} :
    endpoint H k = some e ↔ IpHost H k.host ∧
      ∃ ip, parseIpAddr k.host.toList = some ip ∧ e = (ip.mapped, k.port) := by
  have hip : (parseIpAddr k.host.toList).map (fun ip => (ip.mapped, k.port)) = some e ↔
      ∃ ip, parseIpAddr k.host.toList = some ip ∧ e = (ip.mapped, k.port) := by
    rw [Option.map_eq_some_iff]
    constructor
    · rintro ⟨ip, hparse, rfl⟩
      exact ⟨ip, hparse, rfl⟩
    · rintro ⟨ip, hparse, rfl⟩
      exact ⟨ip, hparse, rfl⟩
  unfold endpoint IpHost
  split
  · rename_i hnet
    simp only [hnet, hip, true_or, true_and]
  · rename_i hnet
    simp only [hnet, hip, true_or, or_true, true_and]
  · rename_i hnet
    simp only [hnet, hip, or_true, true_and]
  · rename_i h4 h6 hc
    constructor
    · intro h
      cases h
    · rintro ⟨h | h | h, -⟩
      · exact absurd h h4
      · exact absurd h h6
      · exact absurd h hc

theorem IpHost.known {H : Digests} {host : String} (h : IpHost H host) : classify H host ≠ .unknown := by
  rcases h with h | h | h <;> rw [h] <;> decide

/-! ## Seeding -/

/-- The keys of the usable nodes. -/
def probeTargets (H : Digests) (defaultPort : UInt16) (raw : List (List Char)) : List AddrKey :=
  (raw.filterMap fun s => parseNode s defaultPort).filter fun k => classify H k.host ≠ .unknown

/-- Seed exactly the provided nodes (dedup handled by the store): the store and the keys handed to
    `enqueue_seed`. -/
def seedTargets (H : Digests) (now : Int) : NodeStore → List AddrKey → NodeStore × List AddrKey
  | store, [] => (store, [])
  | store, key :: targets =>
    let observed := store.observeSeed H key now
    let seeded := seedTargets H now observed.1 targets
    (seeded.1, if observed.2 then key :: seeded.2 else seeded.2)

/-- The seeding loop stores and enqueues what is new, as long as there is room. -/
theorem seedTargets_spec (H : Digests) (now : Int) : ∀ (targets : List AddrKey) (store : NodeStore),
    (seedTargets H now store targets).2 = unstored store.known store.room targets ∧
    (seedTargets H now store targets).2.Nodup ∧
    (∀ k ∈ (seedTargets H now store targets).2, store.known k = false) ∧
    (∀ k, (seedTargets H now store targets).1.known k = true ↔
      store.known k = true ∨ k ∈ (seedTargets H now store targets).2)
  | [], store => ⟨by simp [seedTargets, unstored], List.nodup_nil, fun k hk => (List.not_mem_nil hk).elim,
      fun k => by simp [seedTargets]⟩
  | key :: targets, store => by
    have hcases := store.observeSeed_cases H key now
    have hrest := seedTargets_spec H now targets (store.observeSeed H key now).1
    unfold seedTargets
    generalize store.observeSeed H key now = observed at hcases hrest ⊢
    obtain ⟨store', new⟩ := observed
    simp only at hcases hrest ⊢
    cases hcases with
    | refreshed he =>
      rw [NodeStore.known_withEntry, NodeStore.room_withEntry] at hrest
      rw [if_neg (by decide), unstored_known (NodeStore.known_eq_true he)]
      exact hrest
    | rejected he hfull =>
      have hroom : store.room = 0 := by
        unfold NodeStore.room
        omega
      have hsame : store.rejectEntry.room = 0 := hroom
      rw [hsame] at hrest
      rw [if_neg (by decide), hroom]
      exact hrest
    | discovered he hroom =>
      obtain ⟨r, hr⟩ : ∃ r, store.room = r + 1 :=
        ⟨store.room - 1, by unfold NodeStore.room; omega⟩
      have hleft : ({ store with entries := store.entries + 1 }.insertEntry key
          (.new (classify H key.host) now .queued)).room = r := by
        unfold NodeStore.room NodeStore.insertEntry at *
        simp only at hr ⊢
        omega
      rw [NodeStore.known_insertEntry, hleft] at hrest
      obtain ⟨hqueued, hnodup, hfresh, hknown⟩ := hrest
      have hnew : ∀ k ∈ (seedTargets H now ({ store with entries := store.entries + 1 }.insertEntry key
          (.new (classify H key.host) now .queued)) targets).2, k ≠ key ∧ store.known k = false := by
        intro k hk
        have h := hfresh k hk
        rwa [Bool.or_eq_false_iff, decide_eq_false_iff_not] at h
      rw [if_pos rfl, hr, unstored_new (NodeStore.known_eq_false he)]
      refine ⟨by rw [hqueued], List.nodup_cons.mpr ⟨fun hk => (hnew key hk).1 rfl, hnodup⟩, ?_, ?_⟩
      · intro k hk
        rcases List.mem_cons.mp hk with rfl | hk
        · exact NodeStore.known_eq_false he
        · exact (hnew k hk).2
      · intro k
        rw [hknown k, List.mem_cons, Bool.or_eq_true, decide_eq_true_eq]
        tauto

/-- The keys of the seeded store are the enqueued ones. -/
theorem seeded_keys (H : Digests) (now : Int) (maxEntries : Nat) (targets : List AddrKey) :
    ((seedTargets H now (.withLimit maxEntries) targets).1.snapshot.map Prod.fst).Perm
      (seedTargets H now (.withLimit maxEntries) targets).2 := by
  obtain ⟨-, hnodup, -, hknown⟩ := seedTargets_spec H now targets (.withLimit maxEntries)
  generalize seedTargets H now (.withLimit maxEntries) targets = seeded at hnodup hknown ⊢
  refine (List.perm_ext_iff_of_nodup (NodeStore.distinct_snapshot _) hnodup).mpr fun k => ?_
  have hempty : (NodeStore.withLimit maxEntries).known k = false := rfl
  have hk := hknown k
  rw [hempty] at hk
  refine Iff.trans ?_ (hk.trans (or_iff_right Bool.false_ne_true))
  rw [List.mem_map]
  unfold NodeStore.known NodeStore.networkOf
  rw [Option.isSome_map, Option.isSome_iff_exists]
  constructor
  · rintro ⟨⟨k, entry⟩, hmem, rfl⟩
    exact ⟨entry, NodeStore.mem_snapshot.mp hmem⟩
  · rintro ⟨entry, he⟩
    exact ⟨(k, entry), NodeStore.mem_snapshot.mpr he, rfl⟩

theorem seeded_queue (H : Digests) (now : Int) (maxEntries : Nat) (targets : List AddrKey) :
    (seedTargets H now (.withLimit maxEntries) targets).2 = targets.eraseDups.take maxEntries := by
  rw [(seedTargets_spec H now targets _).1]
  have hall : targets.filter (fun _ => !false) = targets := List.filter_true ..
  show ((targets.filter fun _ => !false).eraseDups).take (maxEntries - 0) = _
  rw [hall, Nat.sub_zero]

/-! ## The result -/

section Once
variable (H : Digests) (d : UInt16) (raw : List (List Char))

/-- Strings that denote one endpoint are read as one key. -/
def OneKey : Prop :=
  ∀ s ∈ raw, ∀ s' ∈ raw, ∀ k k' e, parseNode s d = some k → parseNode s' d = some k' →
    endpoint H k = some e → endpoint H k' = some e → k = k'

/-- Every given endpoint has exactly one entry and one queue item. -/
def OneEntryAndItem (now : Int) (maxEntries : Nat) : Prop :=
  ∀ k ∈ probeTargets H d raw, ∀ e, endpoint H k = some e →
    ((seedTargets H now (.withLimit maxEntries) (probeTargets H d raw)).1.snapshot.map Prod.fst).countP
        (fun k => endpoint H k = some e) = 1 ∧
      (seedTargets H now (.withLimit maxEntries) (probeTargets H d raw)).2.countP
        (fun k => endpoint H k = some e) = 1

/-- `s` writes the address `ip` and the port with the host text `h`. -/
structure Writes (s h : List Char) (ip : IpAddr) (port : UInt16) : Prop where
  form : NodeForm d h (trim s) port
  host : IpHost H (String.ofList h)
  address : parseIpAddr h = some ip

/-- An IPv6 text in `s` is the host of its address: the text that std prints for it, and no
    IPv4-mapped address. -/
def Canonical (s : List Char) : Prop :=
  ∀ h ip port, Writes H d s h ip port → ':' ∈ h → h = (ipToHost ip).toList

/-- No string of the list writes the endpoint of `s` with another text. -/
def Alone (s : List Char) : Prop :=
  ∀ s' ∈ raw, ∀ h h' ip ip' port, Writes H d s h ip port → Writes H d s' h' ip' port →
    ip.mapped = ip'.mapped → h' = h

/-- The budget has room for the IP targets. -/
def Affordable (maxEntries : Nat) : Prop :=
  ∀ k ∈ probeTargets H d raw, endpoint H k ≠ none →
    k ∈ (probeTargets H d raw).eraseDups.take maxEntries

end Once

section Proofs
variable {H : Digests} {d : UInt16} {raw : List (List Char)}

theorem writes_of_parseNode {s : List Char} {k : AddrKey} {e : List Byte × UInt16}
    (h : parseNode s d = some k) (he : endpoint H k = some e) :
    ∃ ip, Writes H d s k.host.toList ip k.port ∧ e = (ip.mapped, k.port) := by
  obtain ⟨hip, ip, hparse, rfl⟩ := endpoint_eq_some.mp he
  exact ⟨ip, ⟨form_of_trimmedNode h, by rwa [String.ofList_toList], hparse⟩, rfl⟩

theorem Writes.parseNode {s h : List Char} {ip : IpAddr} {port : UInt16} (hw : Writes H d s h ip port) :
    parseNode s d = some ⟨String.ofList h, port⟩ ∧
      endpoint H ⟨String.ofList h, port⟩ = some (ip.mapped, port) := by
  have hknown := knownHost hw.host.known
  rw [String.toList_ofList] at hknown
  refine ⟨hknown.trimmedNode_of_form d hw.form, endpoint_eq_some.mpr ⟨hw.host, ip, ?_, rfl⟩⟩
  rw [String.toList_ofList]
  exact hw.address

/-- A dotted quad is the host of its address. -/
theorem host_of_quad {h : List Char} {ip : IpAddr} (hcolon : ':' ∉ h) (hparse : parseIpAddr h = some ip) :
    h = (ipToHost ip).toList := by
  obtain ⟨octets, -, rfl⟩ := parseIpAddr_no_colon hcolon hparse
  have hlen := (Ipv4Addr.ofOctets octets).sized
  have hquad : (ipToHost (.v4 (.ofOctets octets))).toList = ipv4Text (Ipv4Addr.ofOctets octets).octets :=
    String.toList_ofList
  rw [hquad]
  exact parseIpAddr_unique hcolon (no_colon_ipv4Text hlen) hparse (parseIpAddr_ipv4Text hlen) rfl

theorem Canonical.host {s h : List Char} {ip : IpAddr} {port : UInt16} (hs : Canonical H d s)
    (hw : Writes H d s h ip port) : h = (ipToHost ip).toList := by
  by_cases hcolon : ':' ∈ h
  · exact hs h ip port hw hcolon
  · exact host_of_quad hcolon hw.address

/-- The canonical text of an endpoint. -/
def canonicalNode (ip : IpAddr) (port : UInt16) : List Char :=
  (AddrKey.mk (ipToHost ip) port).render.toList

theorem canonical_canonicalNode (ip : IpAddr) (port : UInt16) :
    Canonical H d (canonicalNode ip port) ∧
      ∃ ip', Writes H d (canonicalNode ip port) (ipToHost ip).toList ip' port ∧ ip'.mapped = ip.mapped := by
  obtain ⟨hip, ip', hparse, hmapped⟩ := ipToHost_reads H ip
  have hread : parseNode (canonicalNode ip port) d = some ⟨ipToHost ip, port⟩ :=
    parseNode_render (k := ⟨ipToHost ip, port⟩) hip.known d
  constructor
  · intro h ip₂ port₂ hw _
    -- the text is read as one key, so the host is that of `ip`, and so is what it is read as
    have hkey := hw.parseNode.1.symm.trans hread
    obtain ⟨hhost, -⟩ := AddrKey.mk.inj (Option.some.inj hkey)
    have htext : h = (ipToHost ip).toList := by rw [← hhost, String.toList_ofList]
    have hsame : ip₂ = ip' := by
      have haddress := hw.address
      rw [htext, hparse] at haddress
      exact (Option.some.inj haddress).symm
    rw [htext, hsame, (ipToHost_eq_iff ip' ip).mpr hmapped]
  · refine ⟨ip', ⟨form_of_trimmedNode hread, ?_, hparse⟩, hmapped⟩
    rwa [String.ofList_toList]

/-- One list: a string whose IPv6 text is another one must be alone with it. -/
theorem oneKey_iff : OneKey H d raw ↔ ∀ s ∈ raw, Canonical H d s ∨ Alone H d raw s := by
  constructor
  · intro hone s hs
    right
    intro s' hs' h h' ip ip' port hw hw' hmapped
    obtain ⟨hk, he⟩ := hw.parseNode
    obtain ⟨hk', he'⟩ := hw'.parseNode
    rw [← hmapped] at he'
    have hkey := hone s hs s' hs' _ _ _ hk hk' he he'
    exact (String.ofList_injective (AddrKey.mk.inj hkey).1).symm
  · intro hall s hs s' hs' k k' e hk hk' he he'
    obtain ⟨ip, hw, hend⟩ := writes_of_parseNode hk he
    obtain ⟨ip', hw', hend'⟩ := writes_of_parseNode hk' he'
    obtain ⟨hmapped, hport⟩ := Prod.mk.inj (hend.symm.trans hend')
    rw [← hport] at hw'
    have hhost : k.host.toList = k'.host.toList := by
      rcases hall s hs with hcanon | halone
      · rcases hall s' hs' with hcanon' | halone'
        · rw [hcanon.host hw, hcanon'.host hw', (ipToHost_eq_iff ip ip').mpr hmapped]
        · exact halone' s hs _ _ _ _ _ hw' hw hmapped.symm
      · exact (halone s' hs' _ _ _ _ _ hw hw' hmapped).symm
    cases k
    cases k'
    simp only at hhost hport
    rw [String.toList_injective hhost, hport]

/-- **Which texts are safe.**  A list has canonical texts only iff it can be given together with
    every list of canonical texts. -/
theorem canonical_iff : (∀ s ∈ raw, Canonical H d s) ↔
    ∀ more, (∀ s ∈ more, Canonical H d s) → OneKey H d (raw ++ more) := by
  constructor
  · intro hraw more hmore
    refine oneKey_iff.mpr fun s hs => .inl ?_
    rcases List.mem_append.mp hs with hs | hs
    · exact hraw s hs
    · exact hmore s hs
  · intro hone s hs h ip port hw _
    -- beside the canonical text of the endpoint, `s` has to be read as the same key
    obtain ⟨hcanon, ip', hw', hmapped⟩ := canonical_canonicalNode (H := H) (d := d) ip port
    have hall := hone [canonicalNode ip port] (List.forall_mem_singleton.mpr hcanon)
    obtain ⟨hk, he⟩ := hw.parseNode
    obtain ⟨hk', he'⟩ := hw'.parseNode
    rw [hmapped] at he'
    have hkey := hall s (List.mem_append_left _ hs) (canonicalNode ip port)
      (List.mem_append_right _ (List.mem_singleton_self _)) _ _ _ hk hk' he he'
    exact String.ofList_injective (AddrKey.mk.inj hkey).1

theorem mem_probeTargets {k : AddrKey} : k ∈ probeTargets H d raw ↔
    (∃ s ∈ raw, parseNode s d = some k) ∧ classify H k.host ≠ .unknown := by
  unfold probeTargets
  rw [List.mem_filter, List.mem_filterMap, decide_eq_true_eq]

/-- In a list of different keys an endpoint is counted once iff one key stands for it. -/
theorem countP_endpoint_eq_one {keys : List AddrKey} (hnodup : keys.Nodup) {k : AddrKey}
    {e : List Byte × UInt16} (hone : ∀ k' ∈ keys, endpoint H k' = some e ↔ k' = k) :
    keys.countP (fun k' => endpoint H k' = some e) = if k ∈ keys then 1 else 0 := by
  have hcount : keys.countP (fun k' => endpoint H k' = some e) = keys.count k := by
    apply List.countP_congr
    intro k' hk'
    rw [decide_eq_true_eq, beq_iff_eq]
    exact hone k' hk'
  rw [hcount]
  split
  · rename_i hk
    exact List.count_eq_one_of_mem hnodup hk
  · rename_i hk
    exact List.count_eq_zero.mpr hk

theorem oneEntry_iff (now : Int) (maxEntries : Nat) (hkey : OneKey H d raw) :
    OneEntryAndItem H d raw now maxEntries ↔ Affordable H d raw maxEntries := by
  have hperm := seeded_keys H now maxEntries (probeTargets H d raw)
  have hqueue := seeded_queue H now maxEntries (probeTargets H d raw)
  obtain ⟨-, hnodup, -, -⟩ := seedTargets_spec H now (probeTargets H d raw) (.withLimit maxEntries)
  unfold OneEntryAndItem Affordable
  rw [← hqueue]
  have hcount : ∀ k ∈ probeTargets H d raw, ∀ e, endpoint H k = some e →
      (seedTargets H now (.withLimit maxEntries) (probeTargets H d raw)).2.countP
        (fun k => endpoint H k = some e) =
          if k ∈ (seedTargets H now (.withLimit maxEntries) (probeTargets H d raw)).2 then 1 else 0 := by
    intro k hk e he
    apply countP_endpoint_eq_one hnodup
    intro k' hk'
    constructor
    · intro he'
      rw [hqueue] at hk'
      obtain ⟨⟨s, hs, hparse⟩, -⟩ := mem_probeTargets.mp hk
      obtain ⟨⟨s', hs', hparse'⟩, -⟩ :=
        mem_probeTargets.mp (List.mem_eraseDups.mp (List.mem_of_mem_take hk'))
      exact hkey s' hs' s hs k' k e hparse' hparse he' he
    · rintro rfl
      exact he
  constructor
  · intro hall k hk hsome
    obtain ⟨e, he⟩ := Option.ne_none_iff_exists'.mp hsome
    have hitem := (hall k hk e he).2
    rw [hcount k hk e he] at hitem
    by_contra hnot
    rw [if_neg hnot] at hitem
    omega
  · intro hall k hk e he
    have hin := hall k hk (by rw [he]; exact Option.some_ne_none e)
    rw [hperm.countP_eq, hcount k hk e he, if_pos hin]
    exact ⟨rfl, rfl⟩

theorem length_eraseDups_le : ∀ keys : List AddrKey, keys.eraseDups.length ≤ keys.length
  | [] => Nat.le_refl _
  | k :: keys => by
    have hfilter := List.length_filter_le (fun k' => !k' == k) keys
    have hrest := length_eraseDups_le (keys.filter fun k' => !k' == k)
    rw [List.eraseDups_cons, List.length_cons, List.length_cons]
    omega
termination_by keys => keys.length
decreasing_by exact Nat.lt_succ_of_le (List.length_filter_le _ _)

theorem affordable_of_length {maxEntries : Nat} (h : raw.length ≤ maxEntries) :
    Affordable H d raw maxEntries := by
  intro k hk _
  have hkeys : (probeTargets H d raw).length ≤ raw.length :=
    Nat.le_trans (List.length_filter_le _ _) (List.length_filterMap_le _ _)
  have hdups := length_eraseDups_le (probeTargets H d raw)
  rw [List.take_of_length_le (by omega)]
  exact List.mem_eraseDups.mpr hk

end Proofs

/-- **Each endpoint once.**  Strings whose IPv6 texts are the ones that `ip_to_host` has for their
    addresses are read as one key for every endpoint, whatever strings of that kind are given
    beside them, and no other strings are.  In one list, a string with another text does no harm as
    long as its endpoint is not given with a second one.  Every endpoint then has one entry and one
    queue item iff the budget has room for the keys, as it has wherever there are no more strings
    than entries allowed. -/
theorem probe_once_iff (H : Digests) (d : UInt16) (raw : List (List Char)) (now : Int)
    (maxEntries : Nat) :
    ((∀ s ∈ raw, Canonical H d s) ↔
      ∀ more, (∀ s ∈ more, Canonical H d s) → OneKey H d (raw ++ more)) ∧
    (OneKey H d raw ↔ ∀ s ∈ raw, Canonical H d s ∨ Alone H d raw s) ∧
    (OneKey H d raw →
      (OneEntryAndItem H d raw now maxEntries ↔ Affordable H d raw maxEntries)) ∧
    (raw.length ≤ maxEntries → Affordable H d raw maxEntries) :=
  ⟨canonical_iff, oneKey_iff, oneEntry_iff now maxEntries, affordable_of_length⟩

/-- One text of an address is safe. -/
example : ["2001:db8::1", "2001:DB8::1", "2001:db8:0::1", "::ffff:192.0.2.5", "192.0.2.5"].map
      (fun t => (parseIpAddr t.toList).map fun ip => ipToHost ip == t) =
    [some true, some false, some false, some false, some true] := by
  decide

/-- Two strings of one address, and two nodes. -/
def twoSpellings : List (List Char) := ["2001:DB8::1".toList, "[2001:db8::1]:8333".toList]

theorem twoSpellings_targets : probeTargets Digests.zero 8333 twoSpellings =
    [⟨"2001:DB8::1", 8333⟩, ⟨"2001:db8::1", 8333⟩] := by
  decide

/-- An address in capital letters is a node of its own, with an entry and a queue item. -/
theorem capital_letters_probed_twice : ¬ OneKey Digests.zero 8333 twoSpellings ∧
    ¬ OneEntryAndItem Digests.zero 8333 twoSpellings 0 1000000 := by
  have haddress : endpoint Digests.zero ⟨"2001:DB8::1", 8333⟩ =
      some ([0x20, 0x01, 0x0d, 0xb8, 0, 0, 0, 0, 0, 0, 0, 0, 0, 0, 0, 1], 8333) := by decide
  have haddress' : endpoint Digests.zero ⟨"2001:db8::1", 8333⟩ =
      some ([0x20, 0x01, 0x0d, 0xb8, 0, 0, 0, 0, 0, 0, 0, 0, 0, 0, 0, 1], 8333) := by decide
  constructor
  · intro hone
    have hkey := hone "2001:DB8::1".toList (by decide) "[2001:db8::1]:8333".toList (by decide)
      ⟨"2001:DB8::1", 8333⟩ ⟨"2001:db8::1", 8333⟩ _ (by decide) (by decide) haddress haddress'
    exact absurd hkey (by decide)
  · intro hone
    have hcount := (hone ⟨"2001:DB8::1", 8333⟩ (by decide) _ haddress).2
    rw [seeded_queue, twoSpellings_targets] at hcount
    exact absurd hcount (by decide)

end P2PCrawler
