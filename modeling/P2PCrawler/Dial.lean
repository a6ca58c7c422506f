import P2PCrawler.HostKeys
import Mathlib.Data.List.TakeWhile
import Mathlib.Tactic.Ring

/-!
# Dialling a numeric address (`transport.rs`)

`connect_tcp` parses the host of an IPv4, IPv6 or CJDNS peer as a numeric address.  The texts
the readers of `std::net` accept are taken apart here, and compared with what `classify` lets
through as an IP address.

* `readNumber_eq_some_iff` — a number is a run of digits of bounded length and value.
* `readIpv6Addr_text` — an IPv6 text has address characters only, and two colons.
* `connectTarget` — the address `connect_tcp` dials.

## Results

* `dialable_iff` — **which IP hosts can be dialled:** all but the dotted quads with a leading
  zero.
-/

set_option autoImplicit false

namespace P2PCrawler

namespace Net

/-! ## Numbers -/

/-- A digit string that `read_number` takes. -/
structure NumberText (radix maxDigits : Nat) (allowZeroPrefix : Bool) (bound : Nat) (ds : List Char) :
    Prop where
  nonempty : ds ≠ []
  digits : ∀ c ∈ ds, (toDigit radix c).isSome
  short : ds.length ≤ maxDigits
  unpadded : allowZeroPrefix = false → ds.head? = some '0' → ds.length = 1
  small : digitsVal radix ds < bound

theorem readNumber_some {radix maxDigits bound v : Nat} {zero : Bool} {cs rest : List Char}
    (h : readNumber radix maxDigits zero bound cs = some (v, rest)) : ∃ ds, cs = ds ++ rest ∧
      NumberText radix maxDigits zero bound ds ∧ digitsVal radix ds = v := by
  unfold readNumber at h
  simp only at h
  split at h
  · cases h
  rename_i hlen
  split at h
  · cases h
  rename_i hzero
  split at h
  · rename_i hsmall
    cases h
    rw [Bool.or_eq_true, not_or, decide_eq_true_eq, List.isEmpty_iff] at hlen
    refine ⟨_, ?_, ⟨hlen.1, fun c hc => ?_, by omega, ?_, hsmall⟩, rfl⟩
    · exact (List.prefix_iff_eq_append.mp (List.takeWhile_prefix _)).symm
    · exact List.mem_takeWhile_imp (p := fun c => (toDigit radix c).isSome) hc
    · intro hz hhead
      simp only [hz, hhead, Bool.not_false, Bool.true_and, beq_self_eq_true, decide_eq_true_eq,
        Nat.not_lt] at hzero
      have hpos := List.length_pos_iff.mpr hlen.1
      omega
  · cases h

theorem readNumber_of_text {radix maxDigits bound : Nat} {zero : Bool} {ds rest : List Char}
    (h : NumberText radix maxDigits zero bound ds) (hrest : ∀ c ∈ rest.head?, toDigit radix c = none) :
    readNumber radix maxDigits zero bound (ds ++ rest) = some (digitsVal radix ds, rest) := by
  have htake : (ds ++ rest).takeWhile (fun c => (toDigit radix c).isSome) = ds := by
    rw [List.takeWhile_append_of_pos h.digits]
    cases rest with
    | nil => simp
    | cons c rest =>
      have hc : toDigit radix c = none := hrest c rfl
      simp [hc]
  have hne : ds.isEmpty = false := by simpa using h.nonempty
  have hshort := h.short
  unfold readNumber
  simp only [htake, hne, Bool.false_or, decide_eq_true_eq, Nat.not_lt.mpr hshort, if_false, h.small,
    if_true, List.drop_left' rfl]
  rw [if_neg]
  intro hzero
  simp only [Bool.and_eq_true, Bool.not_eq_true', beq_iff_eq, decide_eq_true_eq] at hzero
  have hone := h.unpadded hzero.1.1 hzero.1.2
  omega

/-! ## IPv4 texts -/

/-- A part of a dotted quad. -/
abbrev OctetText (ds : List Char) : Prop := NumberText 10 3 false 256 ds

theorem readSeparator_some {α : Type} {sep : Char} {index : Nat} {inner : Parser α} {cs rest : List Char}
    {x : α} (h : readSeparator sep index inner cs = some (x, rest)) :
    (index = 0 ∧ inner cs = some (x, rest)) ∨
      (index ≠ 0 ∧ ∃ cs', cs = sep :: cs' ∧ inner cs' = some (x, rest)) := by
  unfold readSeparator at h
  split at h
  · rename_i hindex
    exact .inl ⟨hindex, h⟩
  · rename_i hindex
    split at h
    · split at h
      · rename_i hsep
        exact .inr ⟨hindex, _, by rw [hsep], h⟩
      · cases h
    · cases h

theorem readIpv4Addr_some {cs rest : List Char} {octets : Nat × Nat × Nat × Nat}
    (h : readIpv4Addr cs = some (octets, rest)) : ∃ p q r s, OctetText p ∧ OctetText q ∧ OctetText r ∧
      OctetText s ∧ cs = p ++ '.' :: (q ++ '.' :: (r ++ '.' :: (s ++ rest))) ∧
      octets = (digitsVal 10 p, digitsVal 10 q, digitsVal 10 r, digitsVal 10 s) := by
  unfold readIpv4Addr at h
  simp only [Option.bind_eq_bind, Option.bind_eq_some_iff, Prod.exists, Option.pure_def,
    Option.some.injEq, Prod.mk.injEq] at h
  obtain ⟨a, _, ha, b, _, hb, c, _, hc, d, _, hd, rfl, rfl⟩ := h
  obtain ⟨-, ha⟩ | ⟨hne, -⟩ := readSeparator_some ha
  · obtain ⟨hzero, -⟩ | ⟨-, _, rfl, hb⟩ := readSeparator_some hb
    · omega
    obtain ⟨hzero, -⟩ | ⟨-, _, rfl, hc⟩ := readSeparator_some hc
    · omega
    obtain ⟨hzero, -⟩ | ⟨-, _, rfl, hd⟩ := readSeparator_some hd
    · omega
    obtain ⟨p, rfl, hp, rfl⟩ := readNumber_some ha
    obtain ⟨q, rfl, hq, rfl⟩ := readNumber_some hb
    obtain ⟨r, rfl, hr, rfl⟩ := readNumber_some hc
    obtain ⟨s, rfl, hs, rfl⟩ := readNumber_some hd
    exact ⟨p, q, r, s, hp, hq, hr, hs, rfl, rfl⟩
  · exact absurd rfl hne

theorem readIpv4Addr_of_text {p q r s : List Char} (hp : OctetText p) (hq : OctetText q)
    (hr : OctetText r) (hs : OctetText s) :
    readIpv4Addr (p ++ '.' :: (q ++ '.' :: (r ++ '.' :: s))) =
      some ((digitsVal 10 p, digitsVal 10 q, digitsVal 10 r, digitsVal 10 s), []) := by
  have hdot : ∀ t : List Char, ∀ c ∈ ('.' :: t).head?, toDigit 10 c = none := by
    rintro t c ⟨⟩
    rfl
  have hlast : readNumber 10 3 false 256 s = some (digitsVal 10 s, []) := by
    have h := @readNumber_of_text _ _ _ _ _ [] hs (fun c hc => by cases hc)
    rwa [List.append_nil] at h
  unfold readIpv4Addr readSeparator
  simp only [if_true, readNumber_of_text hp (hdot _), Option.bind_eq_bind, Option.bind_some,
    Nat.one_ne_zero, OfNat.ofNat_ne_zero, if_false, readNumber_of_text hq (hdot _),
    readNumber_of_text hr (hdot _), hlast, Option.pure_def]

/-! ## IPv6 texts -/

/-- A character of a numeric address. -/
def AddrChar (c : Char) : Prop := (toDigit 16 c).isSome ∨ c = ':' ∨ c = '.'

/-- Address characters with so many colons among them. -/
structure AddrText (colons : Nat) (u : List Char) : Prop where
  chars : ∀ c ∈ u, AddrChar c
  count : colons ≤ u.count ':'

theorem AddrText.nil : AddrText 0 [] := ⟨fun _ hc => (List.not_mem_nil hc).elim, Nat.zero_le _⟩

theorem AddrText.append {m n : Nat} {u v : List Char} (hu : AddrText m u) (hv : AddrText n v) :
    AddrText (m + n) (u ++ v) where
  chars c hc := (List.mem_append.mp hc).elim (hu.chars c) (hv.chars c)
  count := by
    rw [List.count_append]
    exact Nat.add_le_add hu.count hv.count

theorem AddrText.colon {n : Nat} {u : List Char} (hu : AddrText n u) : AddrText (n + 1) (':' :: u) where
  chars c hc := (List.mem_cons.mp hc).elim (fun h => .inr (.inl h)) (hu.chars c)
  count := by
    rw [List.count_cons_self]
    exact Nat.succ_le_succ hu.count

theorem AddrText.dot {u : List Char} (hu : AddrText 0 u) : AddrText 0 ('.' :: u) where
  chars c hc := (List.mem_cons.mp hc).elim (fun h => .inr (.inr h)) (hu.chars c)
  count := Nat.zero_le _

theorem AddrText.mono {m n : Nat} {u : List Char} (hu : AddrText n u) (h : m ≤ n) : AddrText m u :=
  ⟨hu.chars, h.trans hu.count⟩

theorem NumberText.addrText {radix maxDigits bound : Nat} {zero : Bool} {ds : List Char}
    (h : NumberText radix maxDigits zero bound ds) (hr : radix ≤ 16) : AddrText 0 ds where
  chars c hc := by
    refine .inl ?_
    obtain ⟨d, hd⟩ := Option.isSome_iff_exists.mp (h.digits c hc)
    unfold toDigit at hd ⊢
    rw [Option.filter_eq_some_iff, decide_eq_true_eq] at hd
    rw [Option.isSome_iff_exists]
    exact ⟨d, by rw [Option.filter_eq_some_iff, decide_eq_true_eq]; exact ⟨hd.1, by omega⟩⟩
  count := Nat.zero_le _

theorem readIpv4Addr_addrText {cs rest : List Char} {octets : Nat × Nat × Nat × Nat}
    (h : readIpv4Addr cs = some (octets, rest)) : ∃ u, cs = u ++ rest ∧ AddrText 0 u := by
  obtain ⟨p, q, r, s, hp, hq, hr, hs, rfl, -⟩ := readIpv4Addr_some h
  refine ⟨p ++ '.' :: (q ++ '.' :: (r ++ '.' :: s)), by simp, ?_⟩
  have hle : (10 : Nat) ≤ 16 := by omega
  exact (hp.addrText hle).append ((hq.addrText hle).append
    ((hr.addrText hle).append (hs.addrText hle).dot).dot).dot

/-- Behind the first group every item has a colon before it. -/
theorem readSeparator_addrText {α : Type} {index : Nat} {inner : Parser α} {cs rest : List Char} {x : α}
    (hinner : ∀ {cs rest x}, inner cs = some (x, rest) → ∃ u, cs = u ++ rest ∧ AddrText 0 u)
    (h : readSeparator ':' index inner cs = some (x, rest)) :
    ∃ u, cs = u ++ rest ∧ AddrText (if index = 0 then 0 else 1) u := by
  obtain ⟨rfl, hread⟩ | ⟨hindex, cs', rfl, hread⟩ := readSeparator_some h
  · exact hinner hread
  · obtain ⟨u, rfl, hu⟩ := hinner hread
    rw [if_neg hindex]
    exact ⟨':' :: u, rfl, hu.colon⟩

theorem readGroups_text : ∀ (n index : Nat) (cs : List Char), ∃ u,
    cs = u ++ (readGroups n index cs).2.2 ∧
      AddrText ((readGroups n index cs).1.length - if index = 0 then 2 else 1) u
  | 0, index, cs => ⟨[], rfl, AddrText.nil.mono (Nat.zero_sub _).le⟩
  | n + 1, index, cs => by
    unfold readGroups
    split
    · rename_i a b c d rest hipv4
      split at hipv4
      · cases hipv4
      obtain ⟨u, rfl, hu⟩ := readSeparator_addrText readIpv4Addr_addrText hipv4
      refine ⟨u, rfl, hu.mono ?_⟩
      show 2 - _ ≤ _
      split <;> omega
    · split
      · rename_i g rest hgroup
        have hnumber : ∀ {cs rest : List Char} {x : Nat}, readNumber 16 4 true 65536 cs = some (x, rest) →
            ∃ u, cs = u ++ rest ∧ AddrText 0 u := by
          intro cs rest x h
          obtain ⟨ds, rfl, hds, -⟩ := readNumber_some h
          exact ⟨ds, rfl, hds.addrText (by omega)⟩
        obtain ⟨u, rfl, hu⟩ := readSeparator_addrText hnumber hgroup
        obtain ⟨v, hv, htext⟩ := readGroups_text n (index + 1) rest
        refine ⟨u ++ v, ?_, (hu.append htext).mono ?_⟩
        · rw [List.append_assoc, ← hv]
        · show (readGroups n (index + 1) rest).1.length + 1 - _ ≤ _
          rw [if_neg (Nat.succ_ne_zero index)]
          split <;> omega
      · exact ⟨[], rfl, AddrText.nil.mono (Nat.zero_sub _).le⟩

/-- **IPv6 texts** have address characters only, and at least two colons. -/
theorem readIpv6Addr_text {cs rest : List Char} {groups : List Nat}
    (h : readIpv6Addr cs = some (groups, rest)) : ∃ u, cs = u ++ rest ∧ AddrText 2 u := by
  obtain ⟨u, hu, htext⟩ := readGroups_text 8 0 cs
  unfold readIpv6Addr at h
  simp only at h
  split at h
  · rename_i hlen
    cases h
    refine ⟨u, hu, htext.mono ?_⟩
    rw [hlen]
    decide
  · split at h
    · cases h
    · split at h
      · rename_i more hmore
        obtain ⟨v, hv, htail⟩ := readGroups_text (8 - ((readGroups 8 0 cs).1.length + 1)) 0 more
        cases h
        refine ⟨u ++ ':' :: ':' :: v, ?_, ?_⟩
        · rw [List.append_assoc, List.cons_append, List.cons_append, ← hv, ← hmore]
          exact hu
        · exact ((htext.mono (Nat.zero_le _)).append (htail.mono (Nat.zero_le _)).colon.colon).mono
            (by omega)
      · cases h

theorem parseIpv6Addr_read {cs : List Char} {groups : List Nat} :
    parseIpv6Addr cs = some groups ↔ readIpv6Addr cs = some (groups, []) := by
  unfold parseIpv6Addr
  split
  · rename_i g hread
    rw [hread]
    simp
  · rename_i hread
    constructor
    · intro h
      cases h
    · intro h
      exact (hread groups h).elim

theorem parseIpv6Addr_text {cs : List Char} {groups : List Nat} (h : parseIpv6Addr cs = some groups) :
    AddrText 2 cs := by
  obtain ⟨u, rfl, hu⟩ := readIpv6Addr_text (parseIpv6Addr_read.mp h)
  rwa [List.append_nil]

/-- No IPv6 text starts with an IPv4 address. -/
theorem readIpv6Addr_of_ipv4 {cs rest : List Char} {octets : Nat × Nat × Nat × Nat}
    (h : readIpv4Addr cs = some (octets, rest)) : readIpv6Addr cs = none := by
  obtain ⟨a, b, c, d⟩ := octets
  have hfirst : readSeparator ':' 0 readIpv4Addr cs = some ((a, b, c, d), rest) := h
  have hgroups : readGroups 8 0 cs = ([a * 256 + b, c * 256 + d], true, rest) := by
    unfold readGroups
    rw [if_neg (show ¬(7 = 0) by omega), hfirst]
  unfold readIpv6Addr
  rw [hgroups]
  rfl

/-- The groups that are read: eight numbers of 16 bits. -/
theorem readGroups_small : ∀ (n index : Nat) (cs : List Char),
    (readGroups n index cs).1.length ≤ n ∧ ∀ g ∈ (readGroups n index cs).1, g < 65536
  | 0, index, cs => ⟨Nat.le_refl _, fun g hg => (List.not_mem_nil hg).elim⟩
  | n + 1, index, cs => by
    unfold readGroups
    split
    · rename_i a b c d rest hipv4
      split at hipv4
      · cases hipv4
      rename_i hn
      have hread : ∃ cs', readIpv4Addr cs' = some ((a, b, c, d), rest) := by
        obtain ⟨-, h⟩ | ⟨-, cs', -, h⟩ := readSeparator_some hipv4
        · exact ⟨cs, h⟩
        · exact ⟨cs', h⟩
      obtain ⟨cs', hread⟩ := hread
      obtain ⟨p, q, r, s, hp, hq, hr, hs, -, heq⟩ := readIpv4Addr_some hread
      cases heq
      have hp := hp.small
      have hq := hq.small
      have hr := hr.small
      have hs := hs.small
      constructor
      · show 2 ≤ n + 1
        omega
      · intro g hg
        simp only [List.mem_cons, List.not_mem_nil, or_false] at hg
        omega
    · split
      · rename_i g rest hgroup
        obtain ⟨hlen, hsmall⟩ := readGroups_small n (index + 1) rest
        refine ⟨Nat.succ_le_succ hlen, List.forall_mem_cons.mpr ⟨?_, hsmall⟩⟩
        obtain ⟨-, h⟩ | ⟨-, cs', -, h⟩ := readSeparator_some hgroup
        all_goals
          obtain ⟨ds, -, hds, rfl⟩ := readNumber_some h
          exact hds.small
      · exact ⟨Nat.zero_le _, fun g hg => (List.not_mem_nil hg).elim⟩

theorem readIpv6Addr_small {cs rest : List Char} {groups : List Nat}
    (h : readIpv6Addr cs = some (groups, rest)) : groups.length = 8 ∧ ∀ g ∈ groups, g < 65536 := by
  obtain ⟨hheadlen, hhead⟩ := readGroups_small 8 0 cs
  unfold readIpv6Addr at h
  simp only at h
  split at h
  · rename_i hlen
    cases h
    exact ⟨hlen, hhead⟩
  · split at h
    · cases h
    · split at h
      · rename_i more _
        obtain ⟨hlen, htail⟩ := readGroups_small (8 - ((readGroups 8 0 cs).1.length + 1)) 0 more
        cases h
        constructor
        · simp only [List.length_append, List.length_replicate]
          omega
        · intro g hg
          rcases List.mem_append.mp hg with hg | hg
          · rcases List.mem_append.mp hg with hg | hg
            · exact hhead g hg
            · rw [List.eq_of_mem_replicate hg]
              decide
          · exact htail g hg
      · cases h

/-! ## Dotted quads -/

theorem digitsVal_cons (c : Char) (cs : List Char) :
    digitsVal 10 (c :: cs) = (toDigit 10 c).getD 0 * 10 ^ cs.length + digitsVal 10 cs := by
  have hfold : ∀ (cs : List Char) (acc : Nat),
      cs.foldl (fun acc c => acc * 10 + (toDigit 10 c).getD 0) acc =
        acc * 10 ^ cs.length + digitsVal 10 cs := by
    intro cs
    induction cs with
    | nil => intro acc; simp [digitsVal]
    | cons c cs ih =>
      intro acc
      have h := ih (0 * 10 + (toDigit 10 c).getD 0)
      unfold digitsVal at h ⊢
      rw [List.foldl_cons, ih, List.foldl_cons, h, List.length_cons]
      unfold digitsVal
      ring
  rw [← hfold]
  unfold digitsVal
  rw [List.foldl_cons, Nat.zero_mul, Nat.zero_add]

theorem toNat_of_toDigit {c : Char} {d : Nat} (h : toDigit 10 c = some d) : c.toNat = 48 + d ∧ d < 10 := by
  unfold toDigit at h
  simp only [Option.filter_eq_some_iff, decide_eq_true_eq] at h
  obtain ⟨h, hd⟩ := h
  refine ⟨?_, hd⟩
  split at h
  · have h := Option.some.inj h
    omega
  · split at h
    · have h := Option.some.inj h
      omega
    · split at h
      · have h := Option.some.inj h
        omega
      · cases h

theorem eq_zero_of_toDigit {c : Char} (h : toDigit 10 c = some 0) : c = '0' := by
  rw [← Char.ofNat_toNat c, (toNat_of_toDigit h).1]

theorem digitsVal_lt : ∀ {ds : List Char}, (∀ c ∈ ds, (toDigit 10 c).isSome) →
    digitsVal 10 ds < 10 ^ ds.length
  | [], _ => Nat.one_pos
  | c :: ds, h => by
    obtain ⟨d, hd⟩ := Option.isSome_iff_exists.mp (h c (List.mem_cons_self ..))
    have hlt := (toNat_of_toDigit hd).2
    have hrest := digitsVal_lt fun c hc => h c (List.mem_cons_of_mem _ hc)
    have hmul : d * 10 ^ ds.length ≤ 9 * 10 ^ ds.length := Nat.mul_le_mul_right _ (by omega)
    rw [digitsVal_cons, hd, List.length_cons, Nat.pow_succ, Option.getD_some]
    omega

/-- A first digit that is not zero makes the value grow with the length. -/
theorem pow_le_digitsVal {c : Char} {ds : List Char} (hdigit : (toDigit 10 c).isSome) (hc : c ≠ '0') :
    10 ^ ds.length ≤ digitsVal 10 (c :: ds) := by
  obtain ⟨d, hd⟩ := Option.isSome_iff_exists.mp hdigit
  have hpos : 0 < d := by
    by_contra hd0
    obtain rfl : d = 0 := by omega
    exact hc (eq_zero_of_toDigit hd)
  have hmul : 1 * 10 ^ ds.length ≤ d * 10 ^ ds.length := Nat.mul_le_mul_right _ hpos
  rw [digitsVal_cons, hd, Option.getD_some]
  omega

/-- Texts of one length and value are the same. -/
theorem digitsVal_injective : ∀ {ds ds' : List Char}, (∀ c ∈ ds, (toDigit 10 c).isSome) →
    (∀ c ∈ ds', (toDigit 10 c).isSome) → ds.length = ds'.length → digitsVal 10 ds = digitsVal 10 ds' →
      ds = ds'
  | [], [], _, _, _, _ => rfl
  | c :: ds, c' :: ds', h, h', hlen, hval => by
    have hlen : ds.length = ds'.length := Nat.succ.inj hlen
    obtain ⟨d, hd⟩ := Option.isSome_iff_exists.mp (h c (List.mem_cons_self ..))
    obtain ⟨d', hd'⟩ := Option.isSome_iff_exists.mp (h' c' (List.mem_cons_self ..))
    have hrest : ∀ c ∈ ds, (toDigit 10 c).isSome := fun c hc => h c (List.mem_cons_of_mem _ hc)
    have hrest' : ∀ c ∈ ds', (toDigit 10 c).isSome := fun c hc => h' c (List.mem_cons_of_mem _ hc)
    have hlt := digitsVal_lt hrest
    have hlt' := digitsVal_lt hrest'
    rw [digitsVal_cons, digitsVal_cons, hd, hd', Option.getD_some, Option.getD_some, ← hlen] at hval
    rw [← hlen] at hlt'
    -- the first digit is the quotient, the others are the remainder
    have hmod := congrArg (· % 10 ^ ds.length) hval
    have hdiv := congrArg (· / 10 ^ ds.length) hval
    have hpos : 0 < 10 ^ ds.length := Nat.pow_pos (by omega)
    simp only [Nat.mul_add_mod_self_right, Nat.mod_eq_of_lt hlt, Nat.mod_eq_of_lt hlt'] at hmod
    simp only [Nat.mul_comm _ (10 ^ ds.length), Nat.mul_add_div hpos, Nat.div_eq_of_lt hlt,
      Nat.div_eq_of_lt hlt', Nat.add_zero] at hdiv
    rw [digitsVal_injective hrest hrest' hlen hmod, ← Char.ofNat_toNat c, ← Char.ofNat_toNat c',
      (toNat_of_toDigit hd).1, (toNat_of_toDigit hd').1, hdiv]

/-- A part that `is_ipv4_dotted` lets through. -/
structure DottedPart (p : List Char) : Prop where
  nonempty : p ≠ []
  digits : ∀ c ∈ p, (toDigit 10 c).isSome
  small : digitsVal 10 p < 256

/-- An octet is such a part without a leading zero. -/
theorem octetText_iff {p : List Char} :
    OctetText p ↔ DottedPart p ∧ (p.head? = some '0' → p.length = 1) := by
  constructor
  · intro h
    exact ⟨⟨h.nonempty, h.digits, h.small⟩, h.unpadded rfl⟩
  · rintro ⟨h, hzero⟩
    refine ⟨h.nonempty, h.digits, ?_, fun _ => hzero, h.small⟩
    match p, h, hzero with
    | [], h, _ => exact absurd rfl h.nonempty
    | c :: p, h, hzero =>
      by_cases hc : c = '0'
      · have hone := hzero (by rw [hc]; rfl)
        omega
      · have hpow := @pow_le_digitsVal c p (h.digits c (List.mem_cons_self ..)) hc
        have hsmall := h.small
        show p.length + 1 ≤ 3
        by_contra hlong
        have hbig : 10 ^ 3 ≤ 10 ^ p.length := Nat.pow_le_pow_right (by omega) (by omega)
        omega

theorem OctetText.le_digitsVal {p : List Char} (h : OctetText p) (hlong : 1 < p.length) :
    10 ^ (p.length - 1) ≤ digitsVal 10 p := by
  match p, h, hlong with
  | c :: p, h, hlong =>
    refine pow_le_digitsVal (h.digits c (List.mem_cons_self ..)) ?_
    rintro rfl
    have hone := h.unpadded rfl rfl
    omega

/-- An octet has one text. -/
theorem OctetText.unique {p p' : List Char} (h : OctetText p) (h' : OctetText p')
    (hval : digitsVal 10 p = digitsVal 10 p') : p = p' := by
  have hle : ∀ {p p' : List Char}, OctetText p → OctetText p' → digitsVal 10 p = digitsVal 10 p' →
      p'.length ≤ p.length := by
    intro p p' h h' hval
    by_contra hlt
    have hne := List.length_pos_iff.mpr h.nonempty
    have hge := h'.le_digitsVal (by omega)
    have hless := digitsVal_lt h.digits
    have hpow : 10 ^ p.length ≤ 10 ^ (p'.length - 1) := Nat.pow_le_pow_right (by omega) (by omega)
    omega
  exact digitsVal_injective h.digits h'.digits
    (Nat.le_antisymm (hle h' h hval.symm) (hle h h' hval)) hval

theorem DottedPart.of_parseUnsigned {p : List Char} (hne : p ≠ []) (hall : p.all isAsciiDigit = true)
    (h : ∃ n, parseUnsigned (2 ^ 32) p = some n ∧ n < 256) : DottedPart p := by
  obtain ⟨n, hn, hlt⟩ := h
  refine ⟨hne, List.all_eq_true.mp hall, ?_⟩
  rw [parseUnsigned_digits hne hall] at hn
  split at hn
  · cases hn
    exact hlt
  · cases hn

/-- The four parts of a dotted quad. -/
theorem isIpv4Dotted_parts {cs : List Char} (h : isIpv4Dotted cs = true) : ∃ p q r s,
    cs.splitOn '.' = [p, q, r, s] ∧ cs = p ++ '.' :: (q ++ '.' :: (r ++ '.' :: s)) ∧
      DottedPart p ∧ DottedPart q ∧ DottedPart r ∧ DottedPart s := by
  unfold isIpv4Dotted at h
  simp only [Bool.and_eq_true, beq_iff_eq, List.all_eq_true] at h
  obtain ⟨hlen, hparts⟩ := h
  have hpart : ∀ p ∈ cs.splitOn '.', DottedPart p := by
    intro p hp
    obtain ⟨⟨hne, hall⟩, hval⟩ := hparts p hp
    refine .of_parseUnsigned (by simpa using hne) (List.all_eq_true.mpr hall) ?_
    split at hval
    · rename_i n hn
      exact ⟨n, hn, of_decide_eq_true hval⟩
    · cases hval
  have hjoin : ['.'].intercalate (cs.splitOn '.') = cs := List.intercalate_splitOn '.'
  match hsplit : cs.splitOn '.', hlen with
  | [p, q, r, s], _ =>
    rw [hsplit] at hpart hjoin
    refine ⟨p, q, r, s, rfl, ?_, hpart p (by simp), hpart q (by simp), hpart r (by simp),
      hpart s (by simp)⟩
    rw [← hjoin]
    simp [List.intercalate_cons_cons]

/-- Octets have no dots in them. -/
theorem NumberText.no_dot {maxDigits bound : Nat} {zero : Bool} {ds : List Char}
    (h : NumberText 10 maxDigits zero bound ds) : '.' ∉ ds := by
  intro hc
  exact absurd (h.digits '.' hc) (by decide)

theorem splitOn_quad {p q r s : List Char} (hp : '.' ∉ p) (hq : '.' ∉ q) (hr : '.' ∉ r) (hs : '.' ∉ s) :
    (p ++ '.' :: (q ++ '.' :: (r ++ '.' :: s))).splitOn '.' = [p, q, r, s] := by
  have hjoin : p ++ '.' :: (q ++ '.' :: (r ++ '.' :: s)) = ['.'].intercalate [p, q, r, s] := by
    simp [List.intercalate_cons_cons]
  rw [hjoin]
  apply List.splitOn_intercalate
  · intro part hpart
    simp only [List.mem_cons, List.not_mem_nil, or_false] at hpart
    rcases hpart with rfl | rfl | rfl | rfl
    · exact hp
    · exact hq
    · exact hr
    · exact hs
  · exact List.cons_ne_nil _ _

end Net

/-! ## Dialling -/

/-- No part of a dotted text has a leading zero. -/
def Unpadded (cs : List Char) : Prop := ∀ p ∈ cs.splitOn '.', p.head? = some '0' → p.length = 1

instance (cs : List Char) : Decidable (Unpadded cs) := inferInstanceAs (Decidable (∀ p ∈ _, _))

/-- The address that `connect_tcp` dials. -/
def connectTarget (host : String) (port : UInt16) : Except String (Net.IpAddr × UInt16) :=
  match Net.parseIpAddr host.toList with
  | some ip => .ok (ip, port)
  | none => .error ("not a numeric IP address: " ++ host)

/-- The network of a numeric address. -/
def Net.IpAddr.network : Net.IpAddr → NetworkType
  | .v4 _ => .ipv4
  | .v6 addr => if addr.octets.head? = some 0xfc then .cjdns else .ipv6

open Net

theorem parseIpAddr_v6 {cs : List Char} {groups : List Nat} (h : parseIpv6Addr cs = some groups) :
    parseIpAddr cs = some (.v6 (.ofGroups groups)) := by
  have hread := parseIpv6Addr_read.mp h
  have hnone : readIpv4Addr cs = none := by
    cases hv4 : readIpv4Addr cs with
    | none => rfl
    | some r =>
      obtain ⟨octets, rest⟩ := r
      rw [readIpv6Addr_of_ipv4 hv4] at hread
      cases hread
  unfold parseIpAddr readIpAddr
  rw [hnone]
  simp only [hread, Option.map_some]

theorem ofGroups_network {groups : List Nat} (hlen : groups.length = 8) (hsmall : ∀ g ∈ groups, g < 65536) :
    (IpAddr.v6 (.ofGroups groups)).network =
      if groups.headD 0 / 256 = 0xfc then .cjdns else .ipv6 := by
  match groups, hlen with
  | g :: gs, _ =>
    have hg : g < 65536 := hsmall g (List.mem_cons_self ..)
    have hhead : (Ipv6Addr.ofGroups (g :: gs)).octets.head? = some (UInt8.ofNat (g / 256)) := rfl
    have hiff : UInt8.ofNat (g / 256) = 0xfc ↔ g / 256 = 0xfc := by
      rw [← UInt8.toNat_inj, UInt8.toNat_ofNat']
      show g / 256 % 256 = 252 ↔ _
      omega
    show (if (Ipv6Addr.ofGroups (g :: gs)).octets.head? = some 0xfc then _ else _) = _
    rw [hhead]
    exact if_congr (by rw [Option.some.injEq, hiff, List.headD_cons]) rfl rfl

/-- A text without colons is read as an IPv4 address or not at all. -/
theorem parseIpAddr_no_colon {cs : List Char} (hcolon : ':' ∉ cs) {ip : IpAddr}
    (h : parseIpAddr cs = some ip) :
    ∃ octets, readIpv4Addr cs = some (octets, []) ∧ ip = .v4 (.ofOctets octets) := by
  unfold parseIpAddr readIpAddr at h
  cases hv4 : readIpv4Addr cs with
  | none =>
    rw [hv4] at h
    cases hv6 : readIpv6Addr cs with
    | none => rw [hv6] at h; cases h
    | some result =>
      obtain ⟨u, hu, htext⟩ := @readIpv6Addr_text _ result.2 _ hv6
      have hcount := htext.count
      have hmem : ':' ∈ u := List.count_pos_iff.mp (by omega)
      exact absurd (hu ▸ List.mem_append_left _ hmem) hcolon
  | some result =>
    obtain ⟨octets, rest⟩ := result
    simp only [hv4] at h
    match rest, h with
    | [], h =>
      cases h
      exact ⟨octets, rfl, rfl⟩

/-- A dotted quad without leading zeros is read, and no other one is. -/
theorem parseIpAddr_dotted {cs : List Char} (hcolon : ':' ∉ cs) (hdotted : isIpv4Dotted cs = true) :
    (∃ ip, parseIpAddr cs = some ip) ↔ Unpadded cs := by
  obtain ⟨p, q, r, s, hsplit, hcs, hp, hq, hr, hs⟩ := isIpv4Dotted_parts hdotted
  constructor
  · rintro ⟨ip, hip⟩
    obtain ⟨octets, hread, -⟩ := parseIpAddr_no_colon hcolon hip
    obtain ⟨p', q', r', s', hp', hq', hr', hs', hcs', -⟩ := readIpv4Addr_some hread
    rw [List.append_nil] at hcs'
    unfold Unpadded
    rw [hcs', splitOn_quad hp'.no_dot hq'.no_dot hr'.no_dot hs'.no_dot]
    simp only [List.forall_mem_cons, List.not_mem_nil, false_implies, implies_true, and_true]
    exact ⟨(octetText_iff.mp hp').2, (octetText_iff.mp hq').2, (octetText_iff.mp hr').2,
      (octetText_iff.mp hs').2⟩
  · intro hzero
    unfold Unpadded at hzero
    rw [hsplit] at hzero
    have hread := readIpv4Addr_of_text (octetText_iff.mpr ⟨hp, hzero p (by simp)⟩)
      (octetText_iff.mpr ⟨hq, hzero q (by simp)⟩) (octetText_iff.mpr ⟨hr, hzero r (by simp)⟩)
      (octetText_iff.mpr ⟨hs, hzero s (by simp)⟩)
    unfold parseIpAddr readIpAddr
    rw [hcs, hread]
    exact ⟨_, rfl⟩

/-- The host is taken for an IP address. -/
def IpHost (H : Digests) (host : String) : Prop :=
  classify H host = .ipv4 ∨ classify H host = .ipv6 ∨ classify H host = .cjdns

/-- An IPv6 text, or a dotted quad without leading zeros. -/
def PlainIp (host : String) : Prop := ':' ∈ host.toList ∨ Unpadded host.toList

/-- What is read of an IP host is an address of its network. -/
theorem network_of_parseIpAddr {H : Digests} {host : String} (hip : IpHost H host) {ip : IpAddr}
    (h : parseIpAddr host.toList = some ip) : ip.network = classify H host := by
  have hspec := classify_spec H host
  unfold IpHost at hip
  generalize classify H host = net at hspec hip ⊢
  have hsix : ∀ {groups : List Nat}, parseIpv6Addr host.toList = some groups →
      ip.network = if groups.headD 0 / 256 = 0xfc then .cjdns else .ipv6 := by
    intro groups hparse
    obtain ⟨hlen, hsmall⟩ := readIpv6Addr_small (parseIpv6Addr_read.mp hparse)
    rw [parseIpAddr_v6 hparse] at h
    cases h
    exact ofGroups_network hlen hsmall
  cases hspec with
  | ipv6 colon parses outside => rw [hsix parses, if_neg outside]
  | cjdns colon parses inside => rw [hsix parses, if_pos inside]
  | ipv4 no_colon dotted =>
    obtain ⟨octets, -, rfl⟩ := parseIpAddr_no_colon no_colon h
    rfl
  | onionV2 | onionV3 | i2p | unknown => rcases hip with h | h | h <;> cases h

/-- **Which IP hosts can be dialled.**  A host that is classified as an IP address is read as a
    numeric address iff it is an IPv6 text or a dotted quad without leading zeros. -/
theorem dialable_iff {H : Digests} {host : String} (hip : IpHost H host) :
    (∃ ip, parseIpAddr host.toList = some ip) ↔ PlainIp host := by
  have hspec := classify_spec H host
  unfold IpHost at hip
  generalize classify H host = net at hspec hip
  cases hspec with
  | ipv6 colon parses _ => exact ⟨fun _ => .inl colon, fun _ => ⟨_, parseIpAddr_v6 parses⟩⟩
  | cjdns colon parses _ => exact ⟨fun _ => .inl colon, fun _ => ⟨_, parseIpAddr_v6 parses⟩⟩
  | ipv4 no_colon dotted =>
    rw [parseIpAddr_dotted no_colon dotted]
    exact ⟨.inr, fun h => h.elim (fun hc => absurd hc no_colon) id⟩
  | onionV2 | onionV3 | i2p | unknown => rcases hip with h | h | h <;> cases h

theorem connectTarget_ok_iff {H : Digests} {host : String} (hip : IpHost H host) (port : UInt16) :
    (∃ target, connectTarget host port = .ok target) ↔ PlainIp host := by
  rw [← dialable_iff hip]
  unfold connectTarget
  cases parseIpAddr host.toList with
  | none => simp
  | some ip => simp

/-! ## Hosts that the crawler writes itself -/

/-- `ip_to_host`: the host of a resolved address, collapsing IPv4-mapped to dotted quad. -/
def ipToHost : IpAddr → String
  | .v4 addr => String.ofList (ipv4Text addr.octets)
  | .v6 addr =>
    match ipv4Mapped addr.octets with
    | some v4 => String.ofList (ipv4Text v4)
    | none => String.ofList (ipv6Text addr.octets)

theorem plainIp_ipv4Text {octets : List Byte} (hlen : octets.length = 4) :
    PlainIp (String.ofList (ipv4Text octets)) := by
  right
  unfold Unpadded
  rw [String.toList_ofList, splitOn_ipv4Text (List.ne_nil_of_length_pos (by omega))]
  intro p hp hhead
  obtain ⟨b, -, rfl⟩ := List.mem_map.mp hp
  rw [head_toDigits (by omega) (by omega) b.toNat hhead]
  rfl

theorem plainIp_ipv6Text {octets : List Byte} (hmapped : ipv4Mapped octets = none)
    (hlen : octets.length = 16) : PlainIp (String.ofList (ipv6Text octets)) := by
  left
  rw [String.toList_ofList]
  exact colon_mem_ipv6Text hmapped hlen

theorem plainIp_decodeLegacyIp {octets : List Byte} (hlen : octets.length = 16) :
    PlainIp (decodeLegacyIp octets).1 := by
  unfold decodeLegacyIp
  cases hmapped : ipv4Mapped octets with
  | none => exact plainIp_ipv6Text hmapped hlen
  | some v4 => exact plainIp_ipv4Text (ipv4Mapped_eq_some hlen hmapped).1

/-- Both decoders write a 16-byte address alike. -/
theorem ipToHost_v6 (addr : Ipv6Addr) : ipToHost (.v6 addr) = (decodeLegacyIp addr.octets).1 := by
  unfold ipToHost decodeLegacyIp
  cases hmapped : ipv4Mapped addr.octets with
  | none => simp only [hmapped]
  | some v4 => simp only [hmapped]

theorem plainIp_ipToHost (ip : IpAddr) : PlainIp (ipToHost ip) := by
  cases ip with
  | v4 addr => exact plainIp_ipv4Text addr.sized
  | v6 addr =>
    rw [ipToHost_v6]
    exact plainIp_decodeLegacyIp addr.sized

theorem Bip155Host.plainIp {H : Digests} {netId : Byte} {bytes : List Byte} {host : String}
    {net : NetworkType} (h : Bip155Host H netId bytes host.toList net) (hip : IpHost H host) :
    PlainIp host := by
  have hclass := h.classify
  rw [String.ofList_toList] at hclass
  unfold IpHost at hip
  rw [hclass] at hip
  have htext := String.ofList_toList (s := host)
  generalize host.toList = cs at h htext
  subst htext
  cases h with
  | ipv4 sized => exact plainIp_ipv4Text sized
  | ipv6 sized unmapped _ => exact plainIp_ipv6Text unmapped sized
  | cjdns sized unmapped _ => exact plainIp_ipv6Text unmapped sized
  | onionV2 | onionV3 | i2p => rcases hip with h | h | h <;> cases h

end P2PCrawler
