import P2PCrawler.Std
import Mathlib.Tactic.Ring

/-!
# Address texts read back

What the texts of `std::net` and base32 are read back as.

* `digitsVal_toDigits` — a number from its digits.
* `parseIpv6Addr_ipv6Text` — the eight groups of an IPv6 address that is not IPv4-mapped.
* `base32Decode_base32Encode` — the bytes of a base32 text.
* `base32Encode_of_base32Decode` — no other text than that of its bytes decodes.
-/

set_option autoImplicit false

namespace P2PCrawler

/-! ## Digits -/

theorem toDigit_digitChar {radix d : Nat} (hr : radix ≤ 16) (hd : d < radix) :
    toDigit radix (Nat.digitChar d) = some d := by
  have h16 : ∀ d < 16, toDigit 16 (Nat.digitChar d) = some d := by decide
  have h := h16 d (by omega)
  unfold toDigit at h ⊢
  rw [Option.filter_eq_some_iff] at h ⊢
  exact ⟨h.1, decide_eq_true hd⟩

/-- A number ends in the digit of its remainder. -/
theorem toDigits_induction {radix : Nat} (hb : 1 < radix) {I : Nat → List Char → Prop}
    (hone : ∀ d < radix, I d [Nat.digitChar d])
    (hmore : ∀ n d ds, 0 < n → d < radix → I n ds → I (n * radix + d) (ds ++ [Nat.digitChar d]))
    (n : Nat) :
    I n (Nat.toDigits radix n) := by
  induction n using Nat.strongRecOn with
  | ind n ih =>
    by_cases hn : n < radix
    · rw [Nat.toDigits_of_lt_base hn]
      exact hone n hn
    · rw [Nat.toDigits_of_base_le hb (by omega)]
      have hmod : n % radix < radix := Nat.mod_lt n (by omega)
      have hpos : 0 < n / radix := Nat.div_pos (by omega) (by omega)
      have h := hmore _ _ _ hpos hmod (ih (n / radix) (Nat.div_lt_self (by omega) hb))
      rwa [Nat.div_add_mod'] at h

theorem digitsVal_toDigits (radix : Nat) (hb : 1 < radix) (hr : radix ≤ 16) (n : Nat) :
    digitsVal radix (Nat.toDigits radix n) = n := by
  apply toDigits_induction hb (I := fun n ds => digitsVal radix ds = n)
  · intro d hd
    simp [digitsVal, toDigit_digitChar hr hd]
  · intro n d ds _ hd ih
    unfold digitsVal at ih ⊢
    rw [List.foldl_append, ih]
    simp [toDigit_digitChar hr hd]

theorem mem_toDigits {radix : Nat} (hb : 1 < radix) {n : Nat} {c : Char}
    (hc : c ∈ Nat.toDigits radix n) : ∃ d < radix, c = Nat.digitChar d := by
  revert c
  apply toDigits_induction hb (I := fun _ ds => ∀ {c}, c ∈ ds → ∃ d < radix, c = Nat.digitChar d)
  · intro d hd c hc
    exact ⟨d, hd, List.mem_singleton.mp hc⟩
  · intro n d ds _ hd ih c hc
    rcases List.mem_append.mp hc with hc | hc
    · exact ih hc
    · exact ⟨d, hd, List.mem_singleton.mp hc⟩

/-- The digits of a number start with zero for zero only. -/
theorem head_toDigits {radix : Nat} (hb : 1 < radix) (hr : radix ≤ 16) (n : Nat) :
    (Nat.toDigits radix n).head? = some '0' → n = 0 := by
  apply toDigits_induction hb (I := fun n ds => ds ≠ [] ∧ (ds.head? = some '0' → n = 0)) ?_ ?_ n |>.2
  · intro d hd
    refine ⟨List.cons_ne_nil _ _, fun h => ?_⟩
    have h16 : ∀ d < 16, Nat.digitChar d = '0' → d = 0 := by decide
    exact h16 d (by omega) (Option.some.inj h)
  · rintro n d ds hpos - ⟨hne, hzero⟩
    refine ⟨by simp, fun h => ?_⟩
    rw [List.head?_append_of_ne_nil _ hne] at h
    have hn := hzero h
    omega

theorem isSome_toDigit_of_mem {radix : Nat} (hb : 1 < radix) (hr : radix ≤ 16) {n : Nat} {c : Char}
    (hc : c ∈ Nat.toDigits radix n) : (toDigit radix c).isSome := by
  obtain ⟨d, hd, rfl⟩ := mem_toDigits hb hc
  rw [toDigit_digitChar hr hd]
  rfl

/-! ## IPv6 -/

namespace Net

/-- The characters before the first one that is no digit of the radix. -/
theorem takeWhile_digits (radix : Nat) (hb : 1 < radix) (hr : radix ≤ 16) (n : Nat)
    {rest : List Char} (hrest : ∀ c ∈ rest.head?, toDigit radix c = none) :
    (Nat.toDigits radix n ++ rest).takeWhile (fun c => (toDigit radix c).isSome) =
      Nat.toDigits radix n := by
  rw [List.takeWhile_append_of_pos fun c hc => isSome_toDigit_of_mem hb hr hc]
  cases rest with
  | nil => simp
  | cons c rest =>
    have hc : toDigit radix c = none := hrest c rfl
    simp [hc]

theorem readNumber_hex {g : Nat} (hg : g < 65536) {rest : List Char}
    (hrest : ∀ c ∈ rest.head?, toDigit 16 c = none) :
    readNumber 16 4 true 65536 (Nat.toDigits 16 g ++ rest) = some (g, rest) := by
  have hlen : (Nat.toDigits 16 g).length ≤ 4 :=
    (Nat.length_toDigits_le_iff (by omega) (by omega)).mpr hg
  unfold readNumber
  simp only [takeWhile_digits 16 (by omega) (by omega) g hrest,
    digitsVal_toDigits 16 (by omega) (by omega) g]
  have hne : (Nat.toDigits 16 g).isEmpty = false := by simp
  simp [hg, hne, Nat.not_lt.mpr hlen]

/-- A number that was read has been dropped from the front. -/
theorem readNumber_rest {radix maxDigits bound v : Nat} {zero : Bool} {cs rest : List Char}
    (h : readNumber radix maxDigits zero bound cs = some (v, rest)) : ∃ n, rest = cs.drop n := by
  unfold readNumber at h
  simp only at h
  split at h
  · cases h
  · split at h
    · cases h
    · split at h
      · cases h; exact ⟨_, rfl⟩
      · cases h

/-- An IPv4 address has a dot behind its first number. -/
theorem readIpv4Addr_none {cs : List Char} (h : '.' ∉ cs) : readIpv4Addr cs = none := by
  unfold readIpv4Addr
  show (readNumber 10 3 false 256 cs).bind _ = none
  cases hn : readNumber 10 3 false 256 cs with
  | none => rfl
  | some r =>
    obtain ⟨a, rest⟩ := r
    obtain ⟨n, hrest⟩ := readNumber_rest hn
    have hdot : '.' ∉ rest := fun hc => h (List.mem_of_mem_drop (hrest ▸ hc))
    have hsep : readSeparator '.' 1 (readNumber 10 3 false 256) rest = none := by
      unfold readSeparator
      cases rest with
      | nil => rfl
      | cons c rest =>
        have hc : c ≠ '.' := fun hc => hdot (hc ▸ List.mem_cons_self ..)
        simp [hc]
    simp [hsep]

theorem readSeparator_ipv4_none {cs : List Char} (h : '.' ∉ cs) (index : Nat) :
    readSeparator ':' index readIpv4Addr cs = none := by
  unfold readSeparator
  split
  · exact readIpv4Addr_none h
  · cases cs with
    | nil => rfl
    | cons c rest =>
      have hrest : readIpv4Addr rest = none :=
        readIpv4Addr_none fun hc => h (List.mem_cons_of_mem _ hc)
      simp [hrest]

/-- The groups behind a first one. -/
def moreGroups (gs : List Nat) : List Char := gs.flatMap fun g => ':' :: Nat.toDigits 16 g

theorem groupsText_cons (g : Nat) (gs : List Nat) :
    groupsText (g :: gs) = Nat.toDigits 16 g ++ moreGroups gs := by
  unfold groupsText joinWith moreGroups
  induction gs generalizing g with
  | nil => simp
  | cons g' gs ih =>
    have h := ih g'
    simp only [List.map_cons, List.flatMap_cons] at h ⊢
    rw [List.intercalate_cons_cons, h]
    simp

/-- Where reading groups ends: at the end of the text or at a double colon. -/
def Ends (rest : List Char) : Prop := rest = [] ∨ ∃ cs, rest = ':' :: ':' :: cs

theorem Ends.no_digit {rest : List Char} (h : Ends rest) : ∀ c ∈ rest.head?, toDigit 16 c = none := by
  intro c hc
  rcases h with rfl | ⟨cs, rfl⟩
  · cases hc
  · cases hc; rfl

theorem moreGroups_no_digit {gs : List Nat} {rest : List Char} (h : Ends rest) :
    ∀ c ∈ (moreGroups gs ++ rest).head?, toDigit 16 c = none := by
  cases gs with
  | nil => exact h.no_digit
  | cons g gs =>
    intro c hc
    cases hc
    rfl

theorem Ends.no_group {rest : List Char} (h : Ends rest) (index : Nat) :
    readSeparator ':' index (readNumber 16 4 true 65536) rest = none := by
  rcases h with rfl | ⟨cs, rfl⟩
  · unfold readSeparator
    split <;> rfl
  · unfold readSeparator
    split <;> rfl

/-- Reading the groups behind a first one. -/
theorem readGroups_more {rest : List Char} (hends : Ends rest) :
    ∀ {gs : List Nat} {n index : Nat}, gs.length ≤ n → (∀ g ∈ gs, g < 65536) →
      '.' ∉ moreGroups gs ++ rest →
      readGroups n (index + 1) (moreGroups gs ++ rest) = (gs, false, rest)
  | [], 0, _, _, _, _ => rfl
  | [], n + 1, index, _, _, hdot => by
    unfold readGroups
    simp only [readSeparator_ipv4_none hdot, ite_self]
    rw [show moreGroups [] ++ rest = rest from rfl, hends.no_group]
  | g :: gs, n + 1, index, hlen, hlt, hdot => by
    have hg : g < 65536 := hlt g (List.mem_cons_self ..)
    have htext : moreGroups (g :: gs) ++ rest =
        ':' :: (Nat.toDigits 16 g ++ (moreGroups gs ++ rest)) := by
      simp [moreGroups]
    have hread : readSeparator ':' (index + 1) (readNumber 16 4 true 65536)
        (moreGroups (g :: gs) ++ rest) = some (g, moreGroups gs ++ rest) := by
      rw [htext]
      exact readNumber_hex hg (moreGroups_no_digit hends)
    have hdot' : '.' ∉ moreGroups gs ++ rest := by
      rw [htext] at hdot
      intro hc
      exact hdot (List.mem_cons_of_mem _ (List.mem_append_right _ hc))
    have ih : readGroups n (index + 1 + 1) (moreGroups gs ++ rest) = (gs, false, rest) :=
      readGroups_more hends (by simpa using hlen)
        (fun g' h' => hlt g' (List.mem_cons_of_mem _ h')) hdot'
    unfold readGroups
    simp only [readSeparator_ipv4_none hdot, ite_self, hread, ih]

/-- Reading groups from the first one on. -/
theorem readGroups_first {gs : List Nat} {n : Nat} {rest : List Char} (hends : Ends rest)
    (hlen : gs.length ≤ n) (hlt : ∀ g ∈ gs, g < 65536) (hdot : '.' ∉ groupsText gs ++ rest) :
    readGroups n 0 (groupsText gs ++ rest) = (gs, false, rest) := by
  cases gs with
  | nil =>
    cases n with
    | zero => rfl
    | succ n =>
      unfold readGroups
      simp only [readSeparator_ipv4_none hdot, ite_self]
      rw [show groupsText [] ++ rest = rest from rfl, hends.no_group]
  | cons g gs =>
    cases n with
    | zero => cases hlen
    | succ n =>
      have hg : g < 65536 := hlt g (List.mem_cons_self ..)
      have htext : groupsText (g :: gs) ++ rest = Nat.toDigits 16 g ++ (moreGroups gs ++ rest) := by
        rw [groupsText_cons, List.append_assoc]
      have hread : readSeparator ':' 0 (readNumber 16 4 true 65536) (groupsText (g :: gs) ++ rest) =
          some (g, moreGroups gs ++ rest) := by
        rw [htext]
        exact readNumber_hex hg (moreGroups_no_digit hends)
      have hdot' : '.' ∉ moreGroups gs ++ rest := by
        rw [htext] at hdot
        exact fun hc => hdot (List.mem_append_right _ hc)
      have hmore : readGroups n (0 + 1) (moreGroups gs ++ rest) = (gs, false, rest) :=
        readGroups_more hends (by simpa using hlen)
          (fun g' h' => hlt g' (List.mem_cons_of_mem _ h')) hdot'
      unfold readGroups
      simp only [readSeparator_ipv4_none hdot, ite_self, hread, hmore]

/-- The span is a run of zero groups. -/
def Span.Zeros (s : Span) (gs : List Nat) : Prop :=
  ∃ before after, gs = before ++ List.replicate s.len 0 ++ after ∧ before.length = s.start

/-- The span is the run of zero groups at the end. -/
def Span.Trailing (s : Span) (gs : List Nat) : Prop :=
  ∃ before, gs = before ++ List.replicate s.len 0 ∧ (s.len ≠ 0 → before.length = s.start)

theorem longestZeros_zeros : ∀ {rest done : List Nat} {longest current : Span},
    longest.Zeros done → current.Trailing done →
      (longestZeros done.length longest current rest).Zeros (done ++ rest)
  | [], done, longest, current, hl, _ => by
    rw [List.append_nil]
    exact hl
  | g :: rest, done, longest, current, hl, hc => by
    have hstep : done ++ g :: rest = (done ++ [g]) ++ rest := by simp
    have hlen : (done ++ [g]).length = done.length + 1 := by simp
    have hl' : longest.Zeros (done ++ [g]) := by
      obtain ⟨before, after, hgs, hstart⟩ := hl
      exact ⟨before, after ++ [g], by simp [hgs], hstart⟩
    unfold longestZeros
    rw [hstep, ← hlen]
    split
    · rename_i hg
      obtain ⟨before, hgs, hstart⟩ := hc
      have hrun : done ++ [g] = before ++ List.replicate (current.len + 1) 0 := by
        rw [hgs, hg, List.replicate_succ']
        simp
      have hstart' : before.length = if current.len = 0 then done.length else current.start := by
        split
        · rename_i hzero
          rw [hgs, hzero]
          simp
        · rename_i hlen; exact hstart hlen
      generalize (if current.len = 0 then done.length else current.start) = start at hstart'
      apply longestZeros_zeros
      · by_cases hlonger : longest.len < current.len + 1
        · simp only [hlonger, if_true]
          exact ⟨before, [], by simpa using hrun, hstart'⟩
        · simp only [hlonger, if_false]
          exact hl'
      · exact ⟨before, hrun, fun _ => hstart'⟩
    · apply longestZeros_zeros hl'
      exact ⟨done ++ [g], by simp, fun h => absurd rfl h⟩

theorem dot_not_mem_groupsText (gs : List Nat) : '.' ∉ groupsText gs := by
  have hdigit : ∀ n, '.' ∉ Nat.toDigits 16 n := by
    intro n h
    obtain ⟨d, hd, hc⟩ := mem_toDigits (by omega) h
    have hall : ∀ d < 16, '.' ≠ Nat.digitChar d := by decide
    exact hall d hd hc
  cases gs with
  | nil => simp [groupsText, joinWith]
  | cons g gs =>
    rw [groupsText_cons]
    intro h
    rcases List.mem_append.mp h with h | h
    · exact hdigit g h
    · obtain ⟨g', _, h⟩ := List.mem_flatMap.mp h
      rcases List.mem_cons.mp h with h | h
      · cases h
      · exact hdigit g' h

theorem readIpv6Addr_full {gs : List Nat} (hlen : gs.length = 8) (hlt : ∀ g ∈ gs, g < 65536) :
    readIpv6Addr (groupsText gs) = some (gs, []) := by
  have hdot : '.' ∉ groupsText gs ++ [] := by simpa using dot_not_mem_groupsText gs
  have hread : readGroups 8 0 (groupsText gs ++ []) = (gs, false, []) :=
    readGroups_first (.inl rfl) (by omega) hlt hdot
  rw [List.append_nil] at hread
  unfold readIpv6Addr
  simp only [hread, hlen, if_true]

/-- A double colon stands for the groups that are missing. -/
theorem readIpv6Addr_run {before after : List Nat} {k : Nat} (hk : 0 < k)
    (hlen : before.length + k + after.length = 8) (hb : ∀ g ∈ before, g < 65536)
    (ha : ∀ g ∈ after, g < 65536) :
    readIpv6Addr (groupsText before ++ ':' :: ':' :: groupsText after) =
      some (before ++ List.replicate k 0 ++ after, []) := by
  have hends : Ends (':' :: ':' :: groupsText after) := .inr ⟨_, rfl⟩
  have hdot : '.' ∉ groupsText before ++ ':' :: ':' :: groupsText after := by
    have h₁ := dot_not_mem_groupsText before
    have h₂ := dot_not_mem_groupsText after
    simp [h₁, h₂]
  have hhead := readGroups_first (n := 8) hends (by omega) hb hdot
  have htail : readGroups (8 - (before.length + 1)) 0 (groupsText after ++ []) =
      (after, false, []) :=
    readGroups_first (.inl rfl) (by omega) ha (by simpa using dot_not_mem_groupsText after)
  rw [List.append_nil] at htail
  have hne : before.length ≠ 8 := by omega
  have hfill : 8 - before.length - after.length = k := by omega
  unfold readIpv6Addr
  simp only [hhead, hne, if_false, htail, hfill]
  rfl

/-- **IPv6.**  The text of an address that is not IPv4-mapped is read back as its groups. -/
theorem parseIpv6Addr_ipv6Text {octets : List Byte} (hmapped : ipv4Mapped octets = none)
    (hlen : (segments octets).length = 8) (hlt : ∀ g ∈ segments octets, g < 65536) :
    parseIpv6Addr (ipv6Text octets) = some (segments octets) := by
  have hread : readIpv6Addr (ipv6Text octets) = some (segments octets, []) := by
    obtain ⟨before, after, hgs, hstart⟩ : (longestZeros 0 {} {} (segments octets)).Zeros
        (segments octets) := by
      simpa using @longestZeros_zeros (segments octets) [] {} {} ⟨[], [], rfl, rfl⟩
        ⟨[], rfl, fun h => absurd rfl h⟩
    unfold ipv6Text
    rw [hmapped]
    simp only
    generalize longestZeros 0 {} {} (segments octets) = zeros at hgs hstart ⊢
    generalize segments octets = gs at hlen hlt hgs ⊢
    by_cases hzeros : 1 < zeros.len
    · have htake : gs.take zeros.start = before := by
        rw [hgs, List.append_assoc, ← hstart, List.take_left]
      have hdrop : gs.drop (zeros.start + zeros.len) = after := by
        have hskip : zeros.start + zeros.len = (before ++ List.replicate zeros.len 0).length := by
          simp [hstart]
        rw [hgs, hskip, List.drop_left]
      have hlens : before.length + zeros.len + after.length = 8 := by
        rw [← hlen, hgs]
        simp only [List.length_append, List.length_replicate]
      have hb : ∀ g ∈ before, g < 65536 := fun g hg => hlt g (by rw [hgs]; simp [hg])
      have ha : ∀ g ∈ after, g < 65536 := fun g hg => hlt g (by rw [hgs]; simp [hg])
      have hrun := readIpv6Addr_run (by omega) hlens hb ha
      rw [if_pos hzeros, htake, hdrop, List.append_assoc]
      rw [← hgs] at hrun
      exact hrun
    · rw [if_neg hzeros]
      exact readIpv6Addr_full hlen hlt
  unfold parseIpv6Addr
  rw [hread]

theorem length_segments : ∀ {octets : List Byte} {n : Nat}, octets.length = 2 * n →
    (segments octets).length = n
  | [], n, h => by
    have hn : n = 0 := by simpa using h
    rw [hn]
    rfl
  | [_], n, h => by
    simp only [List.length_cons, List.length_nil] at h
    omega
  | _ :: _ :: rest, n, h => by
    simp only [List.length_cons] at h
    have ih := @length_segments rest (n - 1) (by omega)
    rw [segments, List.length_cons, ih]
    omega

theorem segments_lt : ∀ {octets : List Byte}, ∀ g ∈ segments octets, g < 65536
  | [], g, h => by cases h
  | [_], g, h => by cases h
  | a :: b :: rest, g, h => by
    rw [segments] at h
    rcases List.mem_cons.mp h with rfl | h
    · have ha : a.toNat < 256 := a.toNat_lt
      have hb : b.toNat < 256 := b.toNat_lt
      omega
    · exact segments_lt g h

/-- The first octet, read off the first group. -/
theorem head_segments {a b : Byte} {rest : List Byte} :
    (segments (a :: b :: rest)).headD 0 / 256 = a.toNat := by
  have hb : b.toNat < 256 := b.toNat_lt
  simp only [segments, List.headD_cons]
  omega

end Net

/-! ## Base32 -/

theorem length_bitsOf : ∀ width n : Nat, (bitsOf width n).length = width
  | 0, _ => rfl
  | width + 1, n => by rw [bitsOf, List.length_cons, length_bitsOf width n]

theorem ofBits_lt : ∀ bs : List Bool, bs.length = 5 → ofBits bs < 32
  | [a, b, c, d, e], _ => by revert a b c d e; decide

theorem bitsOf_ofBits : ∀ bs : List Bool, bs.length = 5 → bitsOf 5 (ofBits bs) = bs
  | [a, b, c, d, e], _ => by revert a b c d e; decide

theorem ofBits_cons (b : Bool) (bs : List Bool) :
    ofBits (b :: bs) = b.toNat * 2 ^ bs.length + ofBits bs := by
  have hfold : ∀ (bs : List Bool) (acc : Nat),
      bs.foldl (fun acc b => 2 * acc + b.toNat) acc = acc * 2 ^ bs.length + ofBits bs := by
    intro bs
    induction bs with
    | nil => intro acc; simp [ofBits]
    | cons b bs ih =>
      intro acc
      have h := ih b.toNat
      unfold ofBits at h ⊢
      rw [List.foldl_cons, ih, List.foldl_cons, Nat.mul_zero, Nat.zero_add, h, List.length_cons]
      unfold ofBits
      ring
  have h := hfold bs b.toNat
  unfold ofBits at h ⊢
  rw [List.foldl_cons, Nat.mul_zero, Nat.zero_add, h]

/-- The low bits of a number stand for its remainder. -/
theorem ofBits_bitsOf (n : Nat) : ∀ width, ofBits (bitsOf width n) = n % 2 ^ width
  | 0 => by rw [Nat.pow_zero, Nat.mod_one]; rfl
  | width + 1 => by
    rw [bitsOf, ofBits_cons, length_bitsOf, ofBits_bitsOf n width, Nat.toNat_testBit, Nat.mod_pow_succ]
    ring

theorem base32Value_symbol {v : Nat} (hv : v < 32) : base32Value (base32Symbol v) = some v := by
  have h : ∀ v < 32, base32Value (base32Symbol v) = some v := by decide
  exact h v hv

/-- The symbols stand for the bits, filled up with zeros to a whole symbol. -/
def SymbolsOf (bits : List Bool) (symbols : List Char) : Prop :=
  ∃ vals fill, symbols.mapM base32Value = some vals ∧ fill < 5 ∧
    vals.flatMap (bitsOf 5) = bits ++ List.replicate fill false

theorem symbolsOf_last (bits : List Bool) (hpos : 0 < bits.length) (hlen : bits.length < 5) :
    SymbolsOf bits [base32Symbol (ofBits (bits ++ List.replicate (5 - bits.length) false))] := by
  have hwhole : (bits ++ List.replicate (5 - bits.length) false).length = 5 := by
    rw [List.length_append, List.length_replicate]
    omega
  refine ⟨[ofBits (bits ++ List.replicate (5 - bits.length) false)], 5 - bits.length, ?_, by omega, ?_⟩
  · simp [base32Value_symbol (ofBits_lt _ hwhole)]
  · simp [bitsOf_ofBits _ hwhole]

theorem symbolsOf_chunkSymbols : ∀ bits : List Bool, SymbolsOf bits (chunkSymbols bits)
  | a :: b :: c :: d :: e :: rest => by
    obtain ⟨vals, fill, hvals, hfill, hbits⟩ := symbolsOf_chunkSymbols rest
    have hlt := ofBits_lt [a, b, c, d, e] rfl
    refine ⟨ofBits [a, b, c, d, e] :: vals, fill, ?_, hfill, ?_⟩
    · simp [chunkSymbols, base32Value_symbol hlt, hvals]
    · rw [List.flatMap_cons, hbits, bitsOf_ofBits _ rfl]
      rfl
  | [] => ⟨[], 0, rfl, by omega, rfl⟩
  | [a] => symbolsOf_last [a] (by simp) (by simp)
  | [a, b] => symbolsOf_last [a, b] (by simp) (by simp)
  | [a, b, c] => symbolsOf_last [a, b, c] (by simp) (by simp)
  | [a, b, c, d] => symbolsOf_last [a, b, c, d] (by simp) (by simp)

theorem chunkBytes_short {rest : List Bool} (h : rest.length < 8) : chunkBytes rest = ([], rest) := by
  unfold chunkBytes
  split
  · simp only [List.length_cons] at h
    omega
  · rfl

/-- The bytes of a bit string, with fewer than eight bits behind them. -/
theorem chunkBytes_bits {rest : List Bool} (hrest : rest.length < 8) : ∀ bytes : List Byte,
    chunkBytes (bytes.flatMap (fun b => bitsOf 8 b.toNat) ++ rest) = (bytes, rest)
  | [] => chunkBytes_short hrest
  | b :: bytes => by
    have ih := chunkBytes_bits hrest bytes
    have hb : UInt8.ofNat (ofBits (bitsOf 8 b.toNat)) = b := by
      rw [ofBits_bitsOf, Nat.mod_eq_of_lt b.toNat_lt, UInt8.ofNat_toNat]
    rw [List.flatMap_cons, List.append_assoc]
    generalize bytes.flatMap (fun b => bitsOf 8 b.toNat) ++ rest = more at ih ⊢
    simp only [bitsOf] at hb
    simp only [bitsOf, List.cons_append, List.nil_append, chunkBytes, hb, ih]

/-- **Base32.**  Every byte string is read back from its text. -/
theorem base32Decode_base32Encode (bytes : List Byte) :
    base32Decode (base32Encode bytes) = some bytes := by
  obtain ⟨vals, fill, hvals, hfill, hbits⟩ :=
    symbolsOf_chunkSymbols (bytes.flatMap fun b => bitsOf 8 b.toNat)
  have hchunks := @chunkBytes_bits (List.replicate fill false) (by simp; omega) bytes
  unfold base32Decode base32Encode
  simp [hvals, hbits, hchunks, hfill]

theorem base32Symbol_value {c : Char} {v : Nat} (h : base32Value c = some v) :
    v < 32 ∧ base32Symbol v = c := by
  unfold base32Value at h
  simp only at h
  unfold base32Symbol
  split at h
  · rename_i hletter
    cases h
    have hsum : 65 + (c.toNat - 65) = c.toNat := by omega
    rw [if_pos (by omega), hsum, Char.ofNat_toNat]
    exact ⟨by omega, rfl⟩
  · split at h
    · rename_i hdigit
      cases h
      have hsum : 24 + (c.toNat - 24) = c.toNat := by omega
      rw [if_neg (by omega), hsum, Char.ofNat_toNat]
      exact ⟨by omega, rfl⟩
    · cases h

theorem symbols_of_values : ∀ {cs : List Char} {vals : List Nat},
    cs.mapM base32Value = some vals → (∀ v ∈ vals, v < 32) ∧ vals.map base32Symbol = cs
  | [], vals, h => by
    cases h
    exact ⟨fun v hv => (List.not_mem_nil hv).elim, rfl⟩
  | c :: cs, vals, h => by
    rw [List.mapM_cons] at h
    simp only [Option.pure_def, Option.bind_eq_bind, Option.bind_eq_some_iff, Option.some.injEq] at h
    obtain ⟨v, hv, vals, hvals, rfl⟩ := h
    obtain ⟨hlt, hsymbol⟩ := base32Symbol_value hv
    obtain ⟨hlts, hsymbols⟩ := symbols_of_values hvals
    exact ⟨List.forall_mem_cons.mpr ⟨hlt, hlts⟩, by rw [List.map_cons, hsymbol, hsymbols]⟩

/-- The symbols of a bit string, from the values that stand for it filled up with zeros. -/
theorem chunkSymbols_of_values : ∀ {vals : List Nat} {bits : List Bool} {fill : Nat},
    (∀ v ∈ vals, v < 32) → fill < 5 → vals.flatMap (bitsOf 5) = bits ++ List.replicate fill false →
      chunkSymbols bits = vals.map base32Symbol
  | [], bits, fill, _, _, h => by
    have hbits : bits = [] := (List.append_eq_nil_iff.mp h.symm).1
    rw [hbits]
    rfl
  | v :: vals, bits, fill, hlt, hfill, h => by
    have hv : ofBits (bitsOf 5 v) = v := by
      rw [ofBits_bitsOf]
      exact Nat.mod_eq_of_lt (hlt v (List.mem_cons_self ..))
    have hlen : (bitsOf 5 v).length = 5 := length_bitsOf 5 v
    rw [List.flatMap_cons] at h
    by_cases hshort : bits.length < 5
    · -- the last symbol: the bits left and the zeros behind them
      have hlens := congrArg List.length h
      simp only [List.length_append, hlen, List.length_replicate] at hlens
      have hnone : vals = [] := by
        cases vals with
        | nil => rfl
        | cons v' vals =>
          rw [List.flatMap_cons, List.length_append, length_bitsOf] at hlens
          omega
      subst hnone
      simp only [List.flatMap_nil, List.append_nil, List.length_nil] at h hlens
      have hfill' : fill = 5 - bits.length := by omega
      rw [hfill'] at h
      have hlast : chunkSymbols bits =
          [base32Symbol (ofBits (bits ++ List.replicate (5 - bits.length) false))] := by
        match bits, hshort with
        | [], _ => simp at hfill'; omega
        | [_], _ | [_, _], _ | [_, _, _], _ | [_, _, _, _], _ => rfl
      rw [hlast, ← h, hv]
      rfl
    · match bits, hshort with
      | a :: b :: c :: d :: e :: bits, _ =>
        have hsplit : bitsOf 5 v = [a, b, c, d, e] ∧
            vals.flatMap (bitsOf 5) = bits ++ List.replicate fill false := List.append_inj h hlen
        have ih := chunkSymbols_of_values (fun v' hv' => hlt v' (List.mem_cons_of_mem _ hv')) hfill
          hsplit.2
        rw [chunkSymbols, ih, ← hsplit.1, hv, List.map_cons]
      | [], hshort | [_], hshort | [_, _], hshort | [_, _, _], hshort | [_, _, _, _], hshort =>
        exact absurd (by simp) hshort

theorem bits_of_chunkBytes : ∀ bits : List Bool,
    (chunkBytes bits).1.flatMap (fun b => bitsOf 8 b.toNat) ++ (chunkBytes bits).2 = bits
  | a :: b :: c :: d :: e :: f :: g :: h :: rest => by
    have hbyte : bitsOf 8 (UInt8.ofNat (ofBits [a, b, c, d, e, f, g, h])).toNat =
        [a, b, c, d, e, f, g, h] := by
      revert a b c d e f g h
      decide
    rw [chunkBytes, List.flatMap_cons, hbyte, List.append_assoc, bits_of_chunkBytes rest]
    rfl
  | [] | [_] | [_, _] | [_, _, _] | [_, _, _, _] | [_, _, _, _, _] | [_, _, _, _, _, _]
  | [_, _, _, _, _, _, _] => rfl

/-- **Canonical base32.**  A text that decodes is the text of its bytes. -/
theorem base32Encode_of_base32Decode {cs : List Char} {bytes : List Byte}
    (h : base32Decode cs = some bytes) : base32Encode bytes = cs := by
  unfold base32Decode at h
  simp only [Option.bind_eq_bind, Option.bind_eq_some_iff] at h
  obtain ⟨vals, hvals, h⟩ := h
  split at h
  · rename_i hrest
    cases h
    rw [Bool.and_eq_true, decide_eq_true_eq] at hrest
    obtain ⟨hlt, rfl⟩ := symbols_of_values hvals
    have hbits := bits_of_chunkBytes (vals.flatMap (bitsOf 5))
    have hzeros : (chunkBytes (vals.flatMap (bitsOf 5))).2 =
        List.replicate (chunkBytes (vals.flatMap (bitsOf 5))).2.length false := by
      apply List.eq_replicate_length.mpr
      simpa using hrest.2
    rw [hzeros] at hbits
    exact chunkSymbols_of_values hlt hrest.1 hbits.symm
  · cases h

end P2PCrawler
