import P2PCrawler.Settings
import P2PCrawler.Store

/-!
# Durations and the freshness filter (`settings.rs`, `store.rs`)

What a duration on the command line stands for, what `parse_duration` makes of it, and what
becomes of the addresses that are older than the `--freshness-threshold`.

* `DurationText` — the texts of durations and their values in seconds, without any bound.
* `ProductOverflows` — the digits fit into an `i64`, their product with the unit does not.

## Results

* `parseDuration_of_text` — away from an overflow, a duration is parsed to its value, or rejected
  where an `i64` cannot hold it.
* `duration_exact_iff` — **durations are admitted with their values, and no address older than
  the threshold is queued, unless a product overflows.**
-/

set_option autoImplicit false

namespace P2PCrawler

/-! ## Values of durations -/

def Digits (ds : List Char) : Prop := ds ≠ [] ∧ ds.all isAsciiDigit = true

/-- Seconds of a unit. -/
def unitSeconds : Char → Option Nat
  | 's' => some 1
  | 'm' => some 60
  | 'h' => some 3600
  | 'd' => some 86400
  | _ => none

/-- The texts of durations with their mathematical values: an integer number of seconds, or
    digits and a unit. -/
inductive DurationText : List Char → Int → Prop where
  | unsigned {ds : List Char} (h : Digits ds) : DurationText ds (digitsVal 10 ds)
  | plus {ds : List Char} (h : Digits ds) : DurationText ('+' :: ds) (digitsVal 10 ds)
  | minus {ds : List Char} (h : Digits ds) : DurationText ('-' :: ds) (-(digitsVal 10 ds))
  | withUnit {ds : List Char} {unit : Char} {k : Nat} (h : Digits ds) (hu : unitSeconds unit = some k) :
      DurationText (ds ++ [unit]) ((digitsVal 10 ds * k : Nat))

def FitsI64 (n : Int) : Prop := -2 ^ 63 ≤ n ∧ n < 2 ^ 63

instance (n : Int) : Decidable (FitsI64 n) := inferInstanceAs (Decidable (_ ∧ _))

/-- The digits are an `i64`, but not their product with the unit. -/
def ProductOverflows (cs : List Char) : Prop :=
  ∃ ds unit k, cs = ds ++ [unit] ∧ Digits ds ∧ unitSeconds unit = some k ∧
    digitsVal 10 ds < 2 ^ 63 ∧ 2 ^ 63 ≤ digitsVal 10 ds * k

theorem wrapI64_of_fits {n : Int} (h : FitsI64 n) : wrapI64 n = n := by
  obtain ⟨hlo, hhi⟩ := h
  have hmod : (n + 2 ^ 63) % 2 ^ 64 = n + 2 ^ 63 := Int.emod_eq_of_lt (by omega) (by omega)
  unfold wrapI64
  omega

/-- A number of seconds is not changed by its unit. -/
theorem wrapI64_seconds {n : Nat} (h : n < 2 ^ 63) : wrapI64 ((n * 1 : Nat) : Int) = n := by
  rw [Nat.mul_one]
  exact wrapI64_of_fits ⟨by omega, by omega⟩

/-! ## Reading the digits -/

/-- No sign stands before the digits. -/
theorem Digits.no_sign {ds tail rest : List Char} {c : Char} (h : Digits ds)
    (hc : isAsciiDigit c = false) : ds ++ tail ≠ c :: rest := by
  intro heq
  obtain ⟨hne, hall⟩ := h
  cases ds with
  | nil => exact hne rfl
  | cons d ds =>
    rw [List.cons_append, List.cons.injEq] at heq
    rw [List.all_cons, heq.1, hc] at hall
    cases hall

/-- `i64::from_str` on a text without a minus sign. -/
theorem parseI64_unsigned {cs : List Char} (h : ∀ rest, cs ≠ '-' :: rest) :
    parseI64 cs = (parseUnsigned (2 ^ 63) cs).map Int.ofNat := by
  unfold parseI64
  split
  · rename_i rest
    exact absurd rfl (h rest)
  · rfl

theorem parseI64_digits {ds : List Char} (h : Digits ds) :
    parseI64 ds = if digitsVal 10 ds < 2 ^ 63 then some (digitsVal 10 ds : Int) else none := by
  have hsign : ∀ rest, ds ≠ '-' :: rest := by
    intro rest heq
    rw [← List.append_nil ds] at heq
    exact h.no_sign rfl heq
  rw [parseI64_unsigned hsign, parseUnsigned_digits h.1 h.2]
  split <;> rfl

theorem parseI64_plus {ds : List Char} (h : Digits ds) :
    parseI64 ('+' :: ds) = if digitsVal 10 ds < 2 ^ 63 then some (digitsVal 10 ds : Int) else none := by
  have hne : ds.isEmpty = false := by
    rw [List.isEmpty_eq_false_iff]
    exact h.1
  rw [parseI64_unsigned (by simp)]
  unfold parseUnsigned
  simp only [hne, h.2, Bool.not_true, Bool.or_self, Bool.false_eq_true, if_false]
  split <;> rfl

theorem parseI64_minus {ds : List Char} (h : Digits ds) :
    parseI64 ('-' :: ds) =
      if digitsVal 10 ds ≤ 2 ^ 63 then some (-(digitsVal 10 ds : Int)) else none := by
  have hne : ds.isEmpty = false := by
    rw [List.isEmpty_eq_false_iff]
    exact h.1
  unfold parseI64
  simp only [hne, h.2, Bool.not_true, Bool.or_self, Bool.false_eq_true, if_false]

/-- Whatever is read as an `i64` is the text of its value. -/
theorem text_of_parseI64 {cs : List Char} {n : Int} (h : parseI64 cs = some n) :
    DurationText cs n := by
  have digits_of : ∀ {ds : List Char}, ¬(ds.isEmpty || !ds.all isAsciiDigit) = true → Digits ds := by
    intro ds hds
    rw [Bool.or_eq_true, not_or, Bool.not_eq_true, List.isEmpty_eq_false_iff] at hds
    exact ⟨hds.1, by simpa using hds.2⟩
  unfold parseI64 at h
  split at h
  · split at h
    · cases h
    · rename_i hds
      split at h
      · cases h
        exact .minus (digits_of hds)
      · cases h
  · obtain ⟨m, hm, rfl⟩ := Option.map_eq_some_iff.mp h
    unfold parseUnsigned at hm
    split at hm
    all_goals
      simp only at hm
      split at hm
      · cases hm
      · rename_i hds
        split at hm
        · cases hm
          first | exact .plus (digits_of hds) | exact .unsigned (digits_of hds)
        · cases hm

/-! ## `parse_duration` -/

theorem unitSeconds_not_digit {unit : Char} {k : Nat} (h : unitSeconds unit = some k) :
    isAsciiDigit unit = false := by
  unfold unitSeconds at h
  split at h <;> first | rfl | cases h

/-- Digits and a unit are no `i64`. -/
theorem parseI64_withUnit {ds : List Char} {unit : Char} {k : Nat} (h : Digits ds)
    (hu : unitSeconds unit = some k) : parseI64 (ds ++ [unit]) = none := by
  have hall : (ds ++ [unit]).all isAsciiDigit = false := by
    rw [List.all_append, List.all_cons, unitSeconds_not_digit hu, Bool.false_and, Bool.and_false]
  rw [parseI64_unsigned fun _ => h.no_sign rfl]
  unfold parseUnsigned
  split
  · rename_i rest heq
    exact absurd heq (h.no_sign rfl)
  · simp only [hall, Bool.not_false, Bool.or_true, if_true, Option.map_none]

theorem parseDuration_withUnit {s : String} {ds : List Char} {unit : Char} {k : Nat}
    (hs : trim s.toList = ds ++ [unit]) (h : Digits ds) (hu : unitSeconds unit = some k) :
    parseDuration s =
      if digitsVal 10 ds < 2 ^ 63 then .ok (wrapI64 ((digitsVal 10 ds * k : Nat) : Int))
      else .error (.invalidDuration (String.ofList (ds ++ [unit]))) := by
  have hnum : (ds ++ [unit]).takeWhile isAsciiDigit = ds := by
    rw [List.takeWhile_append_of_pos (List.all_eq_true.mp h.2),
      List.takeWhile_cons_of_neg (by rw [unitSeconds_not_digit hu]; decide), List.append_nil]
  unfold parseDuration
  simp only [hs, parseI64_withUnit h hu, hnum, List.drop_left, parseI64_digits h,
    List.isEmpty_cons, Bool.false_eq_true, if_false]
  by_cases hfit : digitsVal 10 ds < 2 ^ 63
  · simp only [if_pos hfit]
    unfold unitSeconds at hu
    split at hu <;> cases hu
    · rw [wrapI64_seconds hfit]
      rfl
    · rfl
    · rfl
    · rfl
  · simp only [if_neg hfit]

/-- The two ways a duration is admitted. -/
theorem parseDuration_ok {s : String} {v : Int} (h : parseDuration s = .ok v) :
    parseI64 (trim s.toList) = some v ∨
    ∃ ds unit k, trim s.toList = ds ++ [unit] ∧ Digits ds ∧ unitSeconds unit = some k ∧
      digitsVal 10 ds < 2 ^ 63 ∧ v = wrapI64 ((digitsVal 10 ds * k : Nat) : Int) := by
  unfold parseDuration at h
  generalize trim s.toList = cs at h ⊢
  simp only at h
  cases hp : parseI64 cs with
  | some n =>
    rw [hp] at h
    cases h
    exact .inl rfl
  | none =>
    right
    rw [hp] at h
    have hcs := List.prefix_iff_eq_append.mp (List.takeWhile_prefix (l := cs) isAsciiDigit)
    have hall : (cs.takeWhile isAsciiDigit).all isAsciiDigit = true := List.all_takeWhile
    generalize cs.takeWhile isAsciiDigit = ds at h hcs hall
    generalize cs.drop ds.length = unit at h hcs
    simp only at h
    split at h
    · cases h
    by_cases hne : ds = []
    · subst hne
      cases h
    have hds : Digits ds := ⟨hne, hall⟩
    rw [parseI64_digits hds] at h
    by_cases hfit : digitsVal 10 ds < 2 ^ 63
    · simp only [if_pos hfit] at h
      split at h
      · rename_i hunit
        cases h
        exact ⟨ds, 's', 1, by rw [← hcs, hunit], hds, rfl, hfit, (wrapI64_seconds hfit).symm⟩
      split at h
      · rename_i hunit
        have hv := (Except.ok.inj h).symm
        exact ⟨ds, 'm', 60, by rw [← hcs, hunit], hds, rfl, hfit, hv⟩
      split at h
      · rename_i hunit
        have hv := (Except.ok.inj h).symm
        exact ⟨ds, 'h', 3600, by rw [← hcs, hunit], hds, rfl, hfit, hv⟩
      split at h
      · rename_i hunit
        have hv := (Except.ok.inj h).symm
        exact ⟨ds, 'd', 86400, by rw [← hcs, hunit], hds, rfl, hfit, hv⟩
      · cases h
    · simp only [if_neg hfit] at h
      cases h

/-- What becomes of a duration with the value `m`. -/
def AdmittedAs (s : String) (m : Int) : Prop :=
  (parseDuration s = .ok m ∧ FitsI64 m) ∨ ((∃ e, parseDuration s = .error e) ∧ ¬FitsI64 m)

/-- Without a unit, the parser of `i64` decides. -/
theorem admittedAs_of_parseI64 {s : String} {m : Int}
    (hunit : ∀ ds unit k, Digits ds → unitSeconds unit = some k → trim s.toList ≠ ds ++ [unit])
    (hp : parseI64 (trim s.toList) = if FitsI64 m then some m else none) : AdmittedAs s m := by
  by_cases hfit : FitsI64 m
  · rw [if_pos hfit] at hp
    left
    refine ⟨?_, hfit⟩
    unfold parseDuration
    simp only [hp]
  · rw [if_neg hfit] at hp
    right
    refine ⟨?_, hfit⟩
    cases h : parseDuration s with
    | error e => exact ⟨e, rfl⟩
    | ok v =>
      obtain hv | ⟨ds, unit, k, hs, hds, hu, -⟩ := parseDuration_ok h
      · rw [hp] at hv
        cases hv
      · exact absurd hs (hunit ds unit k hds hu)

/-- **A duration is parsed to its value**, or rejected where an `i64` cannot hold it; unless the
    product of the digits and the unit overflows. -/
theorem parseDuration_of_text {s : String} {m : Int} (h : DurationText (trim s.toList) m)
    (hno : ¬ProductOverflows (trim s.toList)) : AdmittedAs s m := by
  generalize hs : trim s.toList = cs at h hno
  cases h with
  | unsigned hds =>
    apply admittedAs_of_parseI64
    · intro ds unit k _ hu heq
      have hall := hds.2
      rw [← hs, heq, List.all_append, List.all_cons, unitSeconds_not_digit hu] at hall
      simp at hall
    · rw [hs, parseI64_digits hds]
      exact if_congr (by unfold FitsI64; omega) rfl rfl
  | @plus ds hds =>
    apply admittedAs_of_parseI64
    · intro ds' unit k hds' _ heq
      rw [hs] at heq
      exact hds'.no_sign rfl heq.symm
    · rw [hs, parseI64_plus hds]
      exact if_congr (by unfold FitsI64; omega) rfl rfl
  | @minus ds hds =>
    apply admittedAs_of_parseI64
    · intro ds' unit k hds' _ heq
      rw [hs] at heq
      exact hds'.no_sign rfl heq.symm
    · rw [hs, parseI64_minus hds]
      exact if_congr (by unfold FitsI64; omega) rfl rfl
  | @withUnit ds unit k hds hu =>
    have hparse := parseDuration_withUnit hs hds hu
    have hpos : 0 < k := by
      unfold unitSeconds at hu
      split at hu <;> cases hu <;> omega
    by_cases hfit : digitsVal 10 ds < 2 ^ 63
    · have hprod : digitsVal 10 ds * k < 2 ^ 63 := by
        by_contra hge
        exact hno ⟨ds, unit, k, rfl, hds, hu, hfit, by omega⟩
      have hm : FitsI64 ((digitsVal 10 ds * k : Nat) : Int) := ⟨by omega, by omega⟩
      rw [if_pos hfit, wrapI64_of_fits hm] at hparse
      exact .inl ⟨hparse, hm⟩
    · have hle : digitsVal 10 ds * 1 ≤ digitsVal 10 ds * k := Nat.mul_le_mul_left _ hpos
      rw [if_neg hfit] at hparse
      refine .inr ⟨⟨_, hparse⟩, ?_⟩
      rintro ⟨-, hlt⟩
      omega

/-- Where no product overflows, whatever is admitted is the value of a duration. -/
theorem text_of_parseDuration {s : String} {v : Int} (h : parseDuration s = .ok v)
    (hno : ¬ProductOverflows (trim s.toList)) : DurationText (trim s.toList) v := by
  obtain hv | ⟨ds, unit, k, hs, hds, hu, hfit, hv⟩ := parseDuration_ok h
  · exact text_of_parseI64 hv
  · have hprod : digitsVal 10 ds * k < 2 ^ 63 := by
      by_contra hge
      exact hno ⟨ds, unit, k, hs, hds, hu, hfit, by omega⟩
    have hm : FitsI64 ((digitsVal 10 ds * k : Nat) : Int) := ⟨by omega, by omega⟩
    rw [hs, hv, wrapI64_of_fits hm]
    exact .withUnit hds hu

/-! ## The freshness filter -/

/-- The threshold of the crawler is the duration it was given. -/
theorem Cli.intoSettings_freshnessThreshold {cli : Cli} {settings : Settings}
    (h : cli.intoSettings = .ok settings) (hfilter : cli.noFreshnessFilter = false) :
    parseDuration cli.freshnessThreshold = .ok settings.freshnessThreshold := by
  unfold Cli.intoSettings at h
  rw [hfilter] at h
  simp only [Bool.false_eq_true, if_false] at h
  split at h
  · cases h
  · rename_i thr hthr
    rw [hthr, (CommonArgs.intoSettings_args h).1]

/-- A key is queued only with a timestamp that is not older than a positive threshold. -/
theorem NodeStore.frontierUpsert_fresh {s s' : NodeStore} {k : AddrKey} {ts thr now : Int}
    {net : NetworkType} (hpos : 0 < thr) (h : s.frontierUpsert k ts net thr now = (s', .enqueue))
    {e : NodeEntry} (he : s'.entry k = some e) : now - thr ≤ e.freshestTs := by
  have hc := s.frontierUpsert_cases k ts net thr now
  have hstore : (s.frontierUpsert k ts net thr now).1 = s' := congrArg Prod.fst h
  have hout : (s.frontierUpsert k ts net thr now).2 = .enqueue := congrArg Prod.snd h
  rw [hstore, hout] at hc
  have fresh_of : ∀ ts', stale thr now ts' = false → now - thr ≤ ts' := by
    intro ts' hfresh
    simp only [stale, hpos, decide_true, Bool.true_and, decide_eq_false_iff_not] at hfresh
    omega
  cases hc with
  | refreshed _ hne => exact absurd rfl hne
  | revived hold _ hfresh =>
    rw [entry_withEntry_self, hold] at he
    cases he
    exact fresh_of _ hfresh
  | discovered _ _ hfresh =>
    rw [entry_insertEntry, if_pos rfl] at he
    cases he
    exact fresh_of _ hfresh

/-- Every string that is admitted stands for what it is read as, and every duration that does not
    fit is rejected. -/
def AdmittedExactly (s : String) : Prop :=
  (∀ v, parseDuration s = .ok v → DurationText (trim s.toList) v) ∧
  (∀ m, DurationText (trim s.toList) m → ¬FitsI64 m → ∃ e, parseDuration s = .error e)

/-- Under the positive threshold `s`, the cutoff is an `i64` at any time since the epoch, and no
    key is queued whose last sighting is older than the duration. -/
def FiltersExactly (s : String) : Prop :=
  ∀ (cli : Cli) (settings : Settings) (m now : Int), cli.freshnessThreshold = s →
    cli.noFreshnessFilter = false → cli.intoSettings = .ok settings →
    DurationText (trim s.toList) m → 0 < m → 0 ≤ now → FitsI64 now →
      FitsI64 (now - settings.freshnessThreshold) ∧
      ∀ (store store' : NodeStore) (k : AddrKey) (ts : Int) (net : NetworkType) (e : NodeEntry),
        store.frontierUpsert k ts net settings.freshnessThreshold now = (store', .enqueue) →
          store'.entry k = some e → now - m ≤ e.freshestTs

/-- **Admitted durations are exact, unless a product overflows.** -/
theorem duration_exact_iff (s : String) :
    (AdmittedExactly s ∧ FiltersExactly s) ↔ ¬ProductOverflows (trim s.toList) := by
  constructor
  · rintro ⟨⟨-, hreject⟩, -⟩ ⟨ds, unit, k, hs, hds, hu, hfit, hge⟩
    have htext : DurationText (trim s.toList) ((digitsVal 10 ds * k : Nat) : Int) := by
      rw [hs]
      exact .withUnit hds hu
    obtain ⟨e, he⟩ := hreject _ htext fun hm => by
      have hlt := hm.2
      omega
    rw [parseDuration_withUnit hs hds hu, if_pos hfit] at he
    cases he
  · intro hno
    refine ⟨⟨fun v hv => text_of_parseDuration hv hno, fun m hm hbig => ?_⟩, ?_⟩
    · obtain ⟨-, hfit⟩ | ⟨herr, -⟩ := parseDuration_of_text hm hno
      · exact absurd hfit hbig
      · exact herr
    · rintro cli settings m now rfl hfilter hcli hm hpos hnow hfits
      have hthr := cli.intoSettings_freshnessThreshold hcli hfilter
      obtain ⟨hok, hfit⟩ | ⟨⟨e, herr⟩, -⟩ := parseDuration_of_text hm hno
      · rw [hok] at hthr
        cases hthr
        have hlo := hfit.2
        have hhi := hfits.2
        refine ⟨⟨by omega, by omega⟩, ?_⟩
        intro store store' k ts net e hq he
        exact NodeStore.frontierUpsert_fresh hpos hq he
      · rw [herr] at hthr
        cases hthr

/-- The first number of days whose seconds do not fit: they are read as a negative number, and a
    threshold that is not positive filters nothing. -/
theorem overflowing_days_admitted :
    parseDuration "106751991167301d" = .ok (-9223372036854745216) ∧
      ¬(AdmittedExactly "106751991167301d" ∧ FiltersExactly "106751991167301d") := by
  refine ⟨by decide, ?_⟩
  rintro ⟨⟨-, hreject⟩, -⟩
  have hds : Digits "106751991167301".toList := ⟨by decide, by decide⟩
  have htext : DurationText (trim "106751991167301d".toList) ((106751991167301 * 86400 : Nat) : Int) :=
    .withUnit hds rfl
  obtain ⟨e, he⟩ := hreject _ htext (by decide)
  cases he

end P2PCrawler
