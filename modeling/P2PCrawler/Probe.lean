import P2PCrawler.Dial
import P2PCrawler.Store

/-!
# The probe's targets (`bin/probe.rs`)

The probe reads its targets from texts, one per line: an address alone, with a port, or in
brackets.

* `splitLines` — the lines of a file without comments and blanks.
* `parseNode` — the key of one text: the bracketed form first, then a bare IPv6 address, then the
  last colon, then the host alone.

## Results

* `probe_reads_render` — **the probe reads back what the crawler prints.**
-/

set_option autoImplicit false

namespace P2PCrawler

/-! ## Lines -/

/-- `str::split_inclusive`. -/
def splitInclusive (sep : Char) : List Char → List (List Char)
  | [] => []
  | c :: cs =>
    if c = sep then [c] :: splitInclusive sep cs
    else match splitInclusive sep cs with
      | [] => [[c]]
      | piece :: pieces => (c :: piece) :: pieces

/-- A piece of `str::lines` without its line feed and a carriage return before it. -/
def lineOf (piece : List Char) : List Char :=
  match stripSuffix ['\n'] piece with
  | none => piece
  | some line => (stripSuffix ['\r'] line).getD line

/-- `l.split('#').next().unwrap_or("").trim()`. -/
def lineToken (l : List Char) : List Char := trim (l.takeWhile (· != '#'))

/-- Split file or stdin content into node tokens, dropping blanks and `#` comments. -/
def splitLines (content : List Char) : List (List Char) :=
  ((splitInclusive '\n' content).map fun piece => lineToken (lineOf piece)).filter fun l => !l.isEmpty

/-! ## Nodes -/

/-- `str::split_once`. -/
def splitOnce (sep : Char) : List Char → Option (List Char × List Char)
  | [] => none
  | c :: cs => if c = sep then some ([], cs) else (splitOnce sep cs).map fun r => (c :: r.1, r.2)

/-- `str::rsplit_once`. -/
def rsplitOnce (sep : Char) (cs : List Char) : Option (List Char × List Char) :=
  (splitOnce sep cs.reverse).map fun r => (r.2.reverse, r.1.reverse)

/-- `str::parse::<u16>`. -/
def parsePort (cs : List Char) : Option UInt16 := (parseUnsigned 65536 cs).map UInt16.ofNat

/-- What stands behind a bracketed host: a port or nothing. -/
def bracketedNode (host after : List Char) (defaultPort : UInt16) : Option AddrKey :=
  match after with
  | ':' :: p => (parsePort p).map fun port => ⟨String.ofList host, port⟩
  | [] => some ⟨String.ofList host, defaultPort⟩
  | _ => none

/-- The key of a text without whitespace around it. -/
def trimmedNode (s : List Char) (defaultPort : UInt16) : Option AddrKey :=
  match s with
  | [] => none
  | '[' :: rest =>
    match splitOnce ']' rest with
    | none => none
    | some (host, after) => bracketedNode host after defaultPort
  | _ =>
    if (Net.parseIpv6Addr s).isSome then some ⟨String.ofList s, defaultPort⟩
    else match rsplitOnce ':' s with
      | some (host, p) =>
        match parsePort p with
        | some port => some ⟨String.ofList host, port⟩
        | none => some ⟨String.ofList s, defaultPort⟩
      | none => some ⟨String.ofList s, defaultPort⟩

/-- Parse one node string into a key, applying `defaultPort` when the address carries none. -/
def parseNode (s : List Char) (defaultPort : UInt16) : Option AddrKey :=
  trimmedNode (trim s) defaultPort

example : [("1.2.3.4:1234", 8333), ("[2001:db8::1]:8334", 8333), ("[2001:db8::1]", 8333),
      (" 2001:db8::1 ", 8333), ("fc00::1", 8333)].map (fun x => parseNode x.1.toList x.2) =
    [some ⟨"1.2.3.4", 1234⟩, some ⟨"2001:db8::1", 8334⟩, some ⟨"2001:db8::1", 8333⟩,
      some ⟨"2001:db8::1", 8333⟩, some ⟨"fc00::1", 8333⟩] := by
  decide

example : splitLines "1.2.3.4\n\n# a comment\n5.6.7.8:8333  # trailing\n".toList =
    ["1.2.3.4".toList, "5.6.7.8:8333".toList] := by
  decide

/-! ## Host characters -/

/-- A character that neither the lines nor the brackets of a node text give a meaning to. -/
def hostChar (c : Char) : Bool := decide (c.toNat < 128) && !isWhitespace c && !"[]#".toList.contains c

theorem hostChar_of_range {c : Char} (h : (48 ≤ c.toNat ∧ c.toNat ≤ 58) ∨ c.toNat = 46 ∨
    (65 ≤ c.toNat ∧ c.toNat ≤ 90) ∨ (97 ≤ c.toNat ∧ c.toNat ≤ 122)) : hostChar c = true := by
  have hall : ∀ n < 128, ((48 ≤ n ∧ n ≤ 58) ∨ n = 46 ∨ (65 ≤ n ∧ n ≤ 90) ∨ (97 ≤ n ∧ n ≤ 122)) →
      hostChar (Char.ofNat n) = true := by decide
  have hc := hall c.toNat (by omega) h
  rwa [Char.ofNat_toNat] at hc

theorem not_whitespace_of_hostChar {c : Char} (h : hostChar c = true) : isWhitespace c = false := by
  unfold hostChar at h
  rw [Bool.and_eq_true, Bool.and_eq_true, Bool.not_eq_true'] at h
  exact h.1.2

theorem range_of_isSome_toDigit {radix : Nat} {c : Char} (h : (toDigit radix c).isSome) :
    (48 ≤ c.toNat ∧ c.toNat ≤ 57) ∨ (65 ≤ c.toNat ∧ c.toNat ≤ 70) ∨ (97 ≤ c.toNat ∧ c.toNat ≤ 102) := by
  obtain ⟨d, hd⟩ := Option.isSome_iff_exists.mp h
  unfold toDigit at hd
  have hd := (Option.filter_eq_some_iff.mp hd).1
  split at hd
  · rename_i hrange; exact .inl hrange
  · split at hd
    · rename_i hrange; exact .inr (.inr hrange)
    · split at hd
      · rename_i hrange; exact .inr (.inl hrange)
      · cases hd

theorem hostChar_of_toDigit {radix : Nat} {c : Char} (h : (toDigit radix c).isSome) :
    hostChar c = true := by
  apply hostChar_of_range
  have hrange := range_of_isSome_toDigit h
  omega

theorem hostChar_of_addrChar {c : Char} (h : Net.AddrChar c) : hostChar c = true := by
  rcases h with h | rfl | rfl
  · exact hostChar_of_toDigit h
  · decide
  · decide

/-- The labels that decode have letters and digits only. -/
theorem hostChar_of_label {label : List Char} {n : Nat} (h : (decodeBase32 label n).isSome) :
    ∀ c ∈ label, hostChar c = true := by
  intro c hc
  unfold decodeBase32 at h
  split at h
  · cases h
  · rename_i hsymbols
    rw [Bool.not_eq_true, List.any_eq_false] at hsymbols
    have hsymbol := hsymbols c hc
    rw [Bool.not_eq_true, Bool.not_eq_false', Bool.or_eq_true, Bool.and_eq_true, Bool.and_eq_true,
      decide_eq_true_eq, decide_eq_true_eq, decide_eq_true_eq, decide_eq_true_eq] at hsymbol
    apply hostChar_of_range
    omega

/-- What every classified host looks like: no character of it has a meaning to the probe, and it
    is an IPv6 text if it has a colon. -/
structure KnownHost (cs : List Char) : Prop where
  nonempty : cs ≠ []
  chars : ∀ c ∈ cs, hostChar c = true
  literal : ':' ∈ cs → (Net.parseIpv6Addr cs).isSome

theorem knownHost_of_ipv6 {cs : List Char} {groups : List Nat} (h : Net.parseIpv6Addr cs = some groups) :
    KnownHost cs := by
  have htext := Net.parseIpv6Addr_text h
  refine ⟨?_, fun c hc => hostChar_of_addrChar (htext.chars c hc), fun _ => by rw [h]; rfl⟩
  rintro rfl
  exact absurd htext.count (by decide)

theorem knownHost_of_suffix {label suffix : List Char} (hlabel : ∀ c ∈ label, hostChar c = true)
    (hsuffix : suffix.all hostChar = true) (hne : suffix ≠ []) (hcolon : ':' ∉ label ++ suffix) :
    KnownHost (label ++ suffix) where
  nonempty h := hne (List.append_eq_nil_iff.mp h).2
  chars c hc := (List.mem_append.mp hc).elim (hlabel c) (List.all_eq_true.mp hsuffix c)
  literal h := absurd h hcolon

theorem knownHost {H : Digests} {host : String} (h : classify H host ≠ .unknown) :
    KnownHost host.toList := by
  have hspec := classify_spec H host
  generalize classify H host = net at hspec h
  cases hspec with
  | ipv6 _ parses _ => exact knownHost_of_ipv6 parses
  | cjdns _ parses _ => exact knownHost_of_ipv6 parses
  | onionV2 no_colon text decodes =>
    rw [text] at no_colon ⊢
    exact knownHost_of_suffix (hostChar_of_label decodes) (by decide) nofun no_colon
  | onionV3 no_colon text valid =>
    obtain ⟨pubkey, hlen, rfl⟩ := pubkey_of_validOnionV3 valid
    have hdecode := decodeBase32_base32Label (pubkey ++ onionV3Checksum H pubkey ++ [3])
    rw [text] at no_colon ⊢
    exact knownHost_of_suffix (hostChar_of_label (by rw [hdecode]; rfl)) (by decide) nofun no_colon
  | i2p no_colon text decodes =>
    rw [text] at no_colon ⊢
    exact knownHost_of_suffix (hostChar_of_label decodes) (by decide) nofun no_colon
  | ipv4 no_colon dotted =>
    obtain ⟨p, q, r, s, -, hcs, hp, hq, hr, hs⟩ := Net.isIpv4Dotted_parts dotted
    refine ⟨?_, ?_, fun hc => absurd hc no_colon⟩
    · rw [hcs]
      simp
    · intro c hc
      rw [hcs] at hc
      simp only [List.mem_append, List.mem_cons] at hc
      rcases hc with hc | rfl | hc | rfl | hc | rfl | hc
      · exact hostChar_of_toDigit (hp.digits c hc)
      · decide
      · exact hostChar_of_toDigit (hq.digits c hc)
      · decide
      · exact hostChar_of_toDigit (hr.digits c hc)
      · decide
      · exact hostChar_of_toDigit (hs.digits c hc)
  | unknown => exact absurd rfl h

/-! ## Trimming -/

theorem dropWhile_whitespace {ws cs : List Char} (hws : ∀ c ∈ ws, isWhitespace c = true)
    (hcs : ∀ c ∈ cs.head?, isWhitespace c = false) : (ws ++ cs).dropWhile isWhitespace = cs := by
  rw [List.dropWhile_append_of_pos hws]
  cases cs with
  | nil => rfl
  | cons c cs =>
    rw [List.dropWhile_cons_of_neg]
    rw [hcs c rfl]
    decide

/-- A text of other characters with whitespace behind it. -/
theorem trim_append {cs ws : List Char} (hcs : ∀ c ∈ cs, isWhitespace c = false)
    (hws : ∀ c ∈ ws, isWhitespace c = true) : trim (cs ++ ws) = cs := by
  have hfront : (cs ++ ws).dropWhile isWhitespace = if cs = [] then [] else cs ++ ws := by
    split
    · rename_i hnil
      rw [hnil, List.nil_append]
      have h := @dropWhile_whitespace ws [] hws (fun c hc => by cases hc)
      rwa [List.append_nil] at h
    · rename_i hne
      cases cs with
      | nil => exact absurd rfl hne
      | cons c cs =>
        have h := @dropWhile_whitespace [] (c :: cs ++ ws) (fun c hc => by cases hc)
          (fun c' hc' => hcs c' (by cases hc'; exact List.mem_cons_self ..))
        exact h
  unfold trim
  rw [hfront]
  split
  · rename_i hnil
    rw [hnil]
    rfl
  · rw [List.reverse_append, dropWhile_whitespace (fun c hc => hws c (List.mem_reverse.mp hc)),
      List.reverse_reverse]
    intro c hc
    exact hcs c (List.mem_reverse.mp (List.mem_of_mem_head? hc))

/-- Whitespace at the end is trimmed. -/
theorem trim_return (cs : List Char) : trim (cs ++ ['\r']) = trim cs := by
  have hr : isWhitespace '\r' = true := by decide
  unfold trim
  rw [List.dropWhile_append]
  split
  · rename_i hall
    rw [List.isEmpty_iff.mp hall]
    rfl
  · rw [List.reverse_append]
    show (List.dropWhile isWhitespace ('\r' :: _)).reverse = _
    rw [List.dropWhile_cons_of_pos hr]
    rfl

theorem trim_of_hostChars {cs : List Char} (h : ∀ c ∈ cs, isWhitespace c = false) : trim cs = cs := by
  have htrim := @trim_append _ [] h (fun c hc => by cases hc)
  rwa [List.append_nil] at htrim

/-! ## The forms of a node -/

theorem splitOnce_append {sep : Char} {cs : List Char} (h : sep ∉ cs) (rest : List Char) :
    splitOnce sep (cs ++ sep :: rest) = some (cs, rest) := by
  induction cs with
  | nil => exact if_pos rfl
  | cons c cs ih =>
    have hc : c ≠ sep := fun hc => h (hc ▸ List.mem_cons_self ..)
    rw [List.cons_append, splitOnce, if_neg hc, ih fun hm => h (List.mem_cons_of_mem _ hm)]
    rfl

theorem splitOnce_none {sep : Char} {cs : List Char} (h : sep ∉ cs) : splitOnce sep cs = none := by
  induction cs with
  | nil => rfl
  | cons c cs ih =>
    have hc : c ≠ sep := fun hc => h (hc ▸ List.mem_cons_self ..)
    rw [splitOnce, if_neg hc, ih fun hm => h (List.mem_cons_of_mem _ hm)]
    rfl

theorem rsplitOnce_append {sep : Char} {tail : List Char} (h : sep ∉ tail) (cs : List Char) :
    rsplitOnce sep (cs ++ sep :: tail) = some (cs, tail) := by
  have hreverse : (cs ++ sep :: tail).reverse = tail.reverse ++ sep :: cs.reverse := by simp
  unfold rsplitOnce
  rw [hreverse, splitOnce_append (by simpa using h)]
  simp

theorem rsplitOnce_none {sep : Char} {cs : List Char} (h : sep ∉ cs) : rsplitOnce sep cs = none := by
  unfold rsplitOnce
  rw [splitOnce_none (by simpa using h)]
  rfl

/-- The text of a port. -/
def portText (port : UInt16) : List Char := Nat.toDigits 10 port.toNat

theorem parsePort_portText (port : UInt16) : parsePort (portText port) = some port := by
  unfold parsePort portText
  rw [parseUnsigned_decimal port.toNat_lt, Option.map_some, UInt16.ofNat_toNat]

theorem isSome_of_mem_portText {port : UInt16} {c : Char} (hc : c ∈ portText port) :
    (toDigit 10 c).isSome :=
  isSome_toDigit_of_mem (by omega) (by omega) hc

theorem colon_not_mem_portText (port : UInt16) : ':' ∉ portText port := by
  intro hc
  exact absurd (isSome_of_mem_portText hc) (by decide)

/-- What a character of a rendered key may be. -/
def keyChar (c : Char) : Bool := hostChar c || c == '[' || c == ']'

theorem keyChar_spec {c : Char} (h : keyChar c = true) :
    isWhitespace c = false ∧ c ≠ '#' ∧ c ≠ '\n' := by
  unfold keyChar at h
  rw [Bool.or_eq_true, Bool.or_eq_true, beq_iff_eq, beq_iff_eq] at h
  rcases h with (h | rfl) | rfl
  · refine ⟨not_whitespace_of_hostChar h, ?_, ?_⟩
    · rintro rfl
      exact absurd h (by decide)
    · rintro rfl
      exact absurd h (by decide)
  · decide
  · decide

/-- A text without brackets: an IPv6 address, or what stands before the last colon. -/
theorem trimmedNode_unbracketed {s : List Char} (hne : s ≠ []) (hbracket : s.head? ≠ some '[')
    (d : UInt16) : trimmedNode s d =
      if (Net.parseIpv6Addr s).isSome then some ⟨String.ofList s, d⟩
      else match rsplitOnce ':' s with
        | some (host, p) =>
          match parsePort p with
          | some port => some ⟨String.ofList host, port⟩
          | none => some ⟨String.ofList s, d⟩
        | none => some ⟨String.ofList s, d⟩ := by
  unfold trimmedNode
  split
  · contradiction
  · exact absurd rfl hbracket
  · rfl

/-- The forms of a node: a host alone or in brackets, with a port or the default one. -/
inductive NodeForm (d : UInt16) (h : List Char) : List Char → UInt16 → Prop where
  | bare : NodeForm d h h d
  | bracketed : NodeForm d h ('[' :: (h ++ [']'])) d
  | bracketedPort {p : List Char} {port : UInt16} (reads : parsePort p = some port) :
      NodeForm d h ('[' :: (h ++ ']' :: ':' :: p)) port
  | withPort {p : List Char} {port : UInt16} (no_colon : ':' ∉ p) (reads : parsePort p = some port)
      (not_ipv6 : Net.parseIpv6Addr (h ++ ':' :: p) = none) : NodeForm d h (h ++ ':' :: p) port

theorem splitOnce_some {sep : Char} : ∀ {cs before after : List Char},
    splitOnce sep cs = some (before, after) → cs = before ++ sep :: after ∧ sep ∉ before
  | [], before, after, h => by cases h
  | c :: cs, before, after, h => by
    rw [splitOnce] at h
    split at h
    · rename_i hc
      cases h
      exact ⟨by rw [hc]; rfl, List.not_mem_nil⟩
    · rename_i hc
      obtain ⟨⟨before', after'⟩, hrest, heq⟩ := Option.map_eq_some_iff.mp h
      cases heq
      obtain ⟨rfl, hnot⟩ := splitOnce_some hrest
      refine ⟨rfl, fun hm => ?_⟩
      rcases List.mem_cons.mp hm with hm | hm
      · exact hc hm.symm
      · exact hnot hm

theorem rsplitOnce_some {sep : Char} {cs before after : List Char}
    (h : rsplitOnce sep cs = some (before, after)) : cs = before ++ sep :: after ∧ sep ∉ after := by
  unfold rsplitOnce at h
  obtain ⟨⟨tail, head⟩, hsplit, heq⟩ := Option.map_eq_some_iff.mp h
  cases heq
  obtain ⟨hcs, hnot⟩ := splitOnce_some hsplit
  refine ⟨?_, by simpa using hnot⟩
  rw [← List.reverse_reverse cs, hcs]
  simp

/-- Every key is read from one of the forms. -/
theorem form_of_trimmedNode {s : List Char} {d : UInt16} {k : AddrKey} (h : trimmedNode s d = some k) :
    NodeForm d k.host.toList s k.port := by
  unfold trimmedNode at h
  split at h
  · cases h
  · split at h
    · cases h
    · rename_i host after hsplit
      obtain ⟨rfl, -⟩ := splitOnce_some hsplit
      unfold bracketedNode at h
      split at h
      · obtain ⟨port, hport, rfl⟩ := Option.map_eq_some_iff.mp h
        simp only [String.toList_ofList]
        exact .bracketedPort hport
      · cases h
        simp only [String.toList_ofList]
        exact .bracketed
      · cases h
  · have hbare : k = ⟨String.ofList s, d⟩ → NodeForm d k.host.toList s k.port := by
      rintro rfl
      simp only [String.toList_ofList]
      exact .bare
    split at h
    · exact hbare (Option.some.inj h).symm
    · rename_i hv6
      split at h
      · rename_i host p hsplit
        obtain ⟨rfl, hnot⟩ := rsplitOnce_some hsplit
        split at h
        · rename_i port hport
          cases h
          simp only [String.toList_ofList]
          exact .withPort hnot hport (by simpa using hv6)
        · exact hbare (Option.some.inj h).symm
      · exact hbare (Option.some.inj h).symm

/-- One colon does not make an IPv6 text. -/
theorem portForm {cs : List Char} (d : UInt16) (hcolon : ':' ∉ cs) (port : UInt16) :
    NodeForm d cs (cs ++ ':' :: portText port) port := by
  refine .withPort (colon_not_mem_portText port) (parsePort_portText port) ?_
  cases hparse : Net.parseIpv6Addr (cs ++ ':' :: portText port) with
  | none => rfl
  | some groups =>
    have hcount := (Net.parseIpv6Addr_text hparse).count
    rw [List.count_append, List.count_cons_self, List.count_eq_zero.mpr hcolon,
      List.count_eq_zero.mpr (colon_not_mem_portText port)] at hcount
    omega

section Forms
variable {cs : List Char} (hk : KnownHost cs) (d : UInt16)
include hk

theorem KnownHost.not_bracket (rest : List Char) : (cs ++ rest).head? ≠ some '[' := by
  match cs, hk with
  | [], hk => exact absurd rfl hk.nonempty
  | c :: cs, hk =>
    intro h
    have hc := hk.chars c (List.mem_cons_self ..)
    rw [Option.some.inj h] at hc
    exact absurd hc (by decide)

theorem KnownHost.no_close : ']' ∉ cs := by
  intro hc
  exact absurd (hk.chars ']' hc) (by decide)

/-- **Forms.**  A host of a known network is read from each of its forms. -/
theorem KnownHost.trimmedNode_of_form {s : List Char} {port : UInt16} (h : NodeForm d cs s port) :
    trimmedNode s d = some ⟨String.ofList cs, port⟩ := by
  cases h with
  | bare =>
    have hbracket := hk.not_bracket []
    rw [List.append_nil] at hbracket
    rw [trimmedNode_unbracketed hk.nonempty hbracket]
    split
    · rfl
    · rename_i hv6
      rw [rsplitOnce_none fun hc => hv6 (hk.literal hc)]
  | bracketed =>
    unfold trimmedNode
    simp only [splitOnce_append hk.no_close]
    rfl
  | bracketedPort reads =>
    unfold trimmedNode
    simp only [splitOnce_append hk.no_close]
    show (parsePort _).map _ = _
    rw [reads]
    rfl
  | withPort no_colon reads not_ipv6 =>
    rw [trimmedNode_unbracketed (by simp) (hk.not_bracket _), not_ipv6]
    simp only [Option.isSome_none, Bool.false_eq_true, if_false, rsplitOnce_append no_colon, reads]

theorem KnownHost.parseNode_of_form {s : List Char} {port : UInt16} (h : NodeForm d cs s port)
    (hs : ∀ c ∈ s, c ∈ cs ∨ keyChar c = true) : parseNode s d = some ⟨String.ofList cs, port⟩ := by
  have htrim : trim s = s := by
    apply trim_of_hostChars
    intro c hc
    rcases hs c hc with hc | hc
    · exact not_whitespace_of_hostChar (hk.chars c hc)
    · exact (keyChar_spec hc).1
  unfold parseNode
  rw [htrim]
  exact hk.trimmedNode_of_form d h

end Forms

theorem keyChar_of_portText {port : UInt16} {c : Char} (hc : c ∈ portText port) : keyChar c = true := by
  unfold keyChar
  rw [hostChar_of_toDigit (isSome_of_mem_portText hc)]
  rfl

/-! ## Rendered keys -/

theorem render_toList (k : AddrKey) : k.render.toList =
    if ':' ∈ k.host.toList then '[' :: (k.host.toList ++ ']' :: ':' :: portText k.port)
    else k.host.toList ++ ':' :: portText k.port := by
  have hport : (toString k.port.toNat).toList = portText k.port := by
    rw [Nat.toString_eq_repr, Nat.repr, String.toList_ofList]
    rfl
  unfold AddrKey.render renderAddr
  by_cases hcolon : ':' ∈ k.host.toList
  · rw [if_pos (by simpa using hcolon), if_pos hcolon]
    simp only [String.toList_append, hport]
    simp
  · rw [if_neg (by simpa using hcolon), if_neg hcolon]
    simp only [String.toList_append, hport]
    simp

theorem renderForm (k : AddrKey) (d : UInt16) :
    NodeForm d k.host.toList k.render.toList k.port := by
  rw [render_toList]
  split
  · exact .bracketedPort (parsePort_portText k.port)
  · rename_i hcolon
    exact portForm d hcolon k.port

theorem render_chars {H : Digests} {k : AddrKey} (hk : classify H k.host ≠ .unknown) :
    k.render.toList ≠ [] ∧ ∀ c ∈ k.render.toList, keyChar c = true := by
  have hknown := knownHost hk
  have hhost : ∀ c ∈ k.host.toList, keyChar c = true := by
    intro c hc
    unfold keyChar
    rw [hknown.chars c hc]
    rfl
  rw [render_toList]
  split
  · refine ⟨List.cons_ne_nil _ _, fun c hc => ?_⟩
    simp only [List.mem_cons, List.mem_append] at hc
    rcases hc with rfl | hc | rfl | rfl | hc
    · decide
    · exact hhost c hc
    · decide
    · decide
    · exact keyChar_of_portText hc
  · refine ⟨by simp, fun c hc => ?_⟩
    simp only [List.mem_cons, List.mem_append] at hc
    rcases hc with hc | rfl | hc
    · exact hhost c hc
    · decide
    · exact keyChar_of_portText hc

theorem parseNode_render {H : Digests} {k : AddrKey} (hk : classify H k.host ≠ .unknown) (d : UInt16) :
    parseNode k.render.toList d = some k := by
  have hread := (knownHost hk).parseNode_of_form d (renderForm k d)
    fun c hc => .inr ((render_chars hk).2 c hc)
  rwa [String.ofList_toList] at hread

/-! ## Files -/

/-- A line of a file: a key or nothing, whitespace, and a comment or nothing. -/
structure NodeLine where
  node : Option AddrKey
  blanks : List Char
  comment : Option (List Char)

namespace NodeLine

def nodeText (l : NodeLine) : List Char := l.node.elim [] fun k => k.render.toList

def text (l : NodeLine) : List Char :=
  l.nodeText ++ l.blanks ++ l.comment.elim [] fun comment => '#' :: comment

/-- One line with a key of a known network. -/
structure Valid (H : Digests) (l : NodeLine) : Prop where
  known : ∀ k ∈ l.node, classify H k.host ≠ .unknown
  blank : ∀ c ∈ l.blanks, isWhitespace c = true
  one_line : '\n' ∉ l.blanks ∧ ∀ comment ∈ l.comment, '\n' ∉ comment

section Valid
variable {H : Digests} {l : NodeLine}

theorem Valid.node_chars (h : l.Valid H) : ∀ c ∈ l.nodeText, keyChar c = true := by
  unfold nodeText
  cases hnode : l.node with
  | none => exact fun c hc => (List.not_mem_nil hc).elim
  | some k => exact (render_chars (h.known k hnode)).2

theorem Valid.no_newline (h : l.Valid H) : '\n' ∉ l.text := by
  intro hc
  unfold text at hc
  rcases List.mem_append.mp hc with hc | hc
  · rcases List.mem_append.mp hc with hc | hc
    · exact (keyChar_spec (h.node_chars _ hc)).2.2 rfl
    · exact h.one_line.1 hc
  · cases hcomment : l.comment with
    | none => rw [hcomment] at hc; cases hc
    | some comment =>
      rw [hcomment] at hc
      rcases List.mem_cons.mp hc with hc | hc
      · exact absurd hc (by decide)
      · exact h.one_line.2 comment hcomment hc

/-- The token of a line is its key. -/
theorem Valid.token (h : l.Valid H) : lineToken l.text = l.nodeText := by
  have hplain : ∀ c ∈ l.nodeText ++ l.blanks, (c != '#') = true := by
    intro c hc
    rw [bne_iff_ne]
    rcases List.mem_append.mp hc with hc | hc
    · exact (keyChar_spec (h.node_chars c hc)).2.1
    · rintro rfl
      exact absurd (h.blank '#' hc) (by decide)
  have htake : l.text.takeWhile (· != '#') = l.nodeText ++ l.blanks := by
    unfold text
    rw [List.takeWhile_append_of_pos hplain]
    cases l.comment with
    | none => exact List.append_nil _
    | some comment => exact List.append_nil _
  unfold lineToken
  rw [htake]
  exact trim_append (fun c hc => (keyChar_spec (h.node_chars c hc)).1) h.blank

end Valid

end NodeLine

theorem splitInclusive_line {sep : Char} {t : List Char} (h : sep ∉ t) (rest : List Char) :
    splitInclusive sep (t ++ sep :: rest) = (t ++ [sep]) :: splitInclusive sep rest := by
  induction t with
  | nil => exact if_pos rfl
  | cons c t ih =>
    have hc : c ≠ sep := fun hc => h (hc ▸ List.mem_cons_self ..)
    rw [List.cons_append, splitInclusive, if_neg hc, ih fun hm => h (List.mem_cons_of_mem _ hm)]
    rfl

theorem splitInclusive_tail {sep : Char} {t : List Char} (h : sep ∉ t) :
    splitInclusive sep t = if t = [] then [] else [t] := by
  induction t with
  | nil => rfl
  | cons c t ih =>
    have hc : c ≠ sep := fun hc => h (hc ▸ List.mem_cons_self ..)
    rw [splitInclusive, if_neg hc, ih fun hm => h (List.mem_cons_of_mem _ hm), if_neg (List.cons_ne_nil _ _)]
    cases t with
    | nil => rfl
    | cons c' t => rfl

/-- A carriage return at the end of a line is not part of its token. -/
theorem lineToken_return (t : List Char) : lineToken (t ++ ['\r']) = lineToken t := by
  unfold lineToken
  by_cases hcomment : '#' ∈ t
  · congr 1
    obtain ⟨before, after, rfl, hbefore⟩ := List.eq_append_cons_of_mem hcomment
    have hplain : ∀ c ∈ before, (c != '#') = true := by
      intro c hc
      rw [bne_iff_ne]
      rintro rfl
      exact hbefore hc
    rw [List.append_assoc, List.takeWhile_append_of_pos hplain, List.takeWhile_append_of_pos hplain]
    rfl
  · have hplain : ∀ c ∈ t, (c != '#') = true := by
      intro c hc
      rw [bne_iff_ne]
      rintro rfl
      exact hcomment hc
    rw [List.takeWhile_append_of_pos hplain, List.takeWhile_eq_self_iff.mpr hplain]
    exact trim_return t

theorem lineToken_lineOf {piece t : List Char} (ht : '\n' ∉ t) (h : piece = t ++ ['\n'] ∨ piece = t) :
    lineToken (lineOf piece) = lineToken t := by
  unfold lineOf
  rcases h with rfl | rfl
  · rw [stripSuffix_append]
    show lineToken ((stripSuffix ['\r'] t).getD t) = _
    cases hreturn : stripSuffix ['\r'] t with
    | none => rfl
    | some line =>
      rw [label_of_stripSuffix hreturn, lineToken_return]
      rfl
  · rw [stripSuffix_none (by decide)]
    intro hlast
    obtain ⟨before, rfl⟩ := List.getLast?_eq_some_iff.mp (hlast : piece.getLast? = some '\n')
    exact ht (List.mem_append_right _ (List.mem_cons_self ..))

/-- A file of lines, the last one without a line feed. -/
def fileText (lines : List NodeLine) (last : NodeLine) : List Char :=
  lines.flatMap (fun l => l.text ++ ['\n']) ++ last.text

theorem splitLines_fileText {H : Digests} : ∀ {lines : List NodeLine} {last : NodeLine},
    (∀ l ∈ lines, l.Valid H) → last.Valid H →
    splitLines (fileText lines last) =
      ((lines ++ [last]).map NodeLine.nodeText).filter fun token => !token.isEmpty
  | [], last, _, hlast => by
    have hline := lineToken_lineOf hlast.no_newline (.inr rfl)
    unfold splitLines fileText
    simp only [List.flatMap_nil, List.nil_append, splitInclusive_tail hlast.no_newline]
    by_cases hempty : last.text = []
    · have htoken := hlast.token
      rw [hempty] at htoken
      rw [if_pos hempty, List.map_cons, ← htoken]
      rfl
    · rw [if_neg hempty, List.map_cons, List.map_cons, hline, hlast.token]
      rfl
  | l :: lines, last, hlines, hlast => by
    have hl : l.Valid H := hlines l (List.mem_cons_self ..)
    have ih := splitLines_fileText (fun l' h' => hlines l' (List.mem_cons_of_mem _ h')) hlast
    have hsplit : fileText (l :: lines) last = l.text ++ '\n' :: fileText lines last := by
      unfold fileText
      simp
    unfold splitLines at ih ⊢
    rw [hsplit, splitInclusive_line hl.no_newline, List.map_cons,
      lineToken_lineOf hl.no_newline (.inl rfl), hl.token, List.filter_cons, ih, List.cons_append,
      List.map_cons, List.filter_cons]

/-- The tokens of the lines are read as their keys. -/
theorem parse_tokens {H : Digests} (d : UInt16) : ∀ {lines : List NodeLine}, (∀ l ∈ lines, l.Valid H) →
    ((lines.map NodeLine.nodeText).filter fun token => !token.isEmpty).map (parseNode · d) =
      (lines.filterMap (·.node)).map some
  | [], _ => rfl
  | l :: lines, h => by
    have hl : l.Valid H := h l (List.mem_cons_self ..)
    have ih := parse_tokens d fun l' h' => h l' (List.mem_cons_of_mem _ h')
    rw [List.map_cons]
    cases hnode : l.node with
    | none =>
      have htext : l.nodeText = [] := by
        unfold NodeLine.nodeText
        rw [hnode]
        rfl
      rw [htext, List.filter_cons_of_neg (by decide), List.filterMap_cons_none hnode, ih]
    | some k =>
      have hk := hl.known k hnode
      have htext : l.nodeText = k.render.toList := by
        unfold NodeLine.nodeText
        rw [hnode]
        rfl
      have hne : (!l.nodeText.isEmpty) = true := by
        rw [htext]
        simpa using (render_chars hk).1
      rw [List.filter_cons, if_pos hne, List.map_cons, htext, parseNode_render hk,
        List.filterMap_cons_some hnode, List.map_cons, ih]

/-! ## The result -/

/-- **The probe reads back what the crawler prints.**  A host of a known network is read back alone
    and in brackets with the default port, and as rendered with its port; so different keys are
    rendered differently.  A file with one rendered key on a line, and any blanks and comments,
    is read back as its keys in order. -/
theorem probe_reads_render (H : Digests) (d : UInt16) :
    (∀ k : AddrKey, classify H k.host ≠ .unknown →
      parseNode k.render.toList d = some k ∧ parseNode k.host.toList d = some ⟨k.host, d⟩ ∧
        parseNode ('[' :: (k.host.toList ++ [']'])) d = some ⟨k.host, d⟩) ∧
    (∀ k k' : AddrKey, classify H k.host ≠ .unknown → classify H k'.host ≠ .unknown →
      k.render = k'.render → k = k') ∧
    (∀ (lines : List NodeLine) (last : NodeLine), (∀ l ∈ lines, l.Valid H) → last.Valid H →
      (splitLines (fileText lines last)).map (parseNode · d) =
        ((lines ++ [last]).filterMap (·.node)).map some) := by
  refine ⟨fun k hk => ⟨parseNode_render hk d, ?_, ?_⟩, fun k k' hk hk' h => ?_, ?_⟩
  · have hread := (knownHost hk).parseNode_of_form d .bare fun c hc => .inl hc
    rwa [String.ofList_toList] at hread
  · have hread := (knownHost hk).parseNode_of_form d .bracketed fun c hc => by
      simp only [List.mem_cons, List.mem_append, List.not_mem_nil, or_false] at hc
      rcases hc with rfl | hc | rfl
      · exact .inr (by decide)
      · exact .inl hc
      · exact .inr (by decide)
    rwa [String.ofList_toList] at hread
  · have hread := parseNode_render hk d
    rw [h, parseNode_render hk' d] at hread
    exact (Option.some.inj hread).symm
  · intro lines last hlines hlast
    rw [splitLines_fileText hlines hlast]
    apply parse_tokens (H := H) d
    intro l hl
    rcases List.mem_append.mp hl with hl | hl
    · exact hlines l hl
    · rw [List.mem_singleton.mp hl]
      exact hlast

end P2PCrawler
