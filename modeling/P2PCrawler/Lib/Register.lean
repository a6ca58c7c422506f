import Mathlib.Data.List.Induction
import Mathlib.Data.Finset.Card
import Mathlib.Order.Lattice

/-!
# A bounded register

Items come in one after the other, each with a key, a label, a stamp, and a condition under which it
opens its row.  A register of bounded capacity keeps a row for each key: the first label, the latest
stamp, and whether the row is open.  Where it is full, items of further keys are refused and counted.

* `Table.take` — what the register does with one item.
* `fold_eq_some` — a row says what the items of its key say: the first label, the latest stamp, and
  whether the latest stamp so far was ever good enough.
* `Admitted` — the key was among the first that came in.
* `Filled.take` — **the register is a function of the items**: rows, rows in use, and refusals.
-/

set_option autoImplicit false

namespace Register

variable {κ ν τ : Type}

structure Item (κ ν τ : Type) where
  key : κ
  label : ν
  stamp : τ
  /-- the latest stamp is good enough for the item to open the row -/
  opens : τ → Bool

structure Row (ν τ : Type) where
  label : ν
  stamp : τ
  opened : Bool

structure Table (κ ν τ : Type) where
  row : κ → Option (Row ν τ)
  used : Nat
  refused : Nat

/-! ## One row -/

section Row
variable [LinearOrder τ]

/-- The row of a key after one more item. -/
def Item.onto (i : Item κ ν τ) : Option (Row ν τ) → Row ν τ
  | none => ⟨i.label, i.stamp, i.opens i.stamp⟩
  | some r => ⟨r.label, max r.stamp i.stamp, r.opened || i.opens (max r.stamp i.stamp)⟩

/-- The row after all the items of its key. -/
def fold (items : List (Item κ ν τ)) : Option (Row ν τ) :=
  items.foldl (fun r i => some (i.onto r)) none

/-- The latest stamp. -/
def latest (items : List (Item κ ν τ)) : Option τ :=
  items.foldl (fun t i => some (t.elim i.stamp (max · i.stamp))) none

/-- Some item has found a latest stamp that is good enough. -/
def Opened (items : List (Item κ ν τ)) : Prop :=
  ∃ before i t, before ++ [i] <+: items ∧ latest (before ++ [i]) = some t ∧ i.opens t = true

@[simp] theorem fold_snoc (items : List (Item κ ν τ)) (i : Item κ ν τ) :
    fold (items ++ [i]) = some (i.onto (fold items)) := by
  simp only [fold, List.foldl_append, List.foldl_cons, List.foldl_nil]

@[simp] theorem latest_snoc (items : List (Item κ ν τ)) (i : Item κ ν τ) :
    latest (items ++ [i]) = some ((latest items).elim i.stamp (max · i.stamp)) := by
  simp only [latest, List.foldl_append, List.foldl_cons, List.foldl_nil]

/-- The latest stamp is the stamp of some item. -/
theorem latest_mem {items : List (Item κ ν τ)} {t : τ} (h : latest items = some t) :
    ∃ i ∈ items, i.stamp = t := by
  induction items using List.reverseRecOn generalizing t with
  | nil => cases h
  | append_singleton items i ih =>
    rw [latest_snoc, Option.some.injEq] at h
    have hlast : i ∈ items ++ [i] := List.mem_append_right _ List.mem_cons_self
    cases hprior : latest items with
    | none =>
      rw [hprior] at h
      exact ⟨i, hlast, h⟩
    | some u =>
      rw [hprior] at h
      rcases max_choice u i.stamp with hmax | hmax
      · obtain ⟨j, hj, hstamp⟩ := ih hprior
        exact ⟨j, List.mem_append_left _ hj, by rw [hstamp, ← h]; exact hmax.symm⟩
      · exact ⟨i, hlast, by rw [← h]; exact hmax.symm⟩

theorem opened_snoc {items : List (Item κ ν τ)} {i : Item κ ν τ} :
    Opened (items ++ [i]) ↔
      Opened items ∨ ∃ t, latest (items ++ [i]) = some t ∧ i.opens t = true := by
  unfold Opened
  constructor
  · rintro ⟨before, j, t, hpre, ht, hopens⟩
    rcases List.prefix_concat_iff.mp hpre with heq | hpre
    · obtain ⟨rfl, hj⟩ := List.append_inj' heq rfl
      obtain rfl := List.singleton_inj.mp hj
      exact .inr ⟨t, ht, hopens⟩
    · exact .inl ⟨before, j, t, hpre, ht, hopens⟩
  · rintro (⟨before, j, t, hpre, h⟩ | ⟨t, h⟩)
    · exact ⟨before, j, t, hpre.trans (List.prefix_append _ _), h⟩
    · exact ⟨items, i, t, List.prefix_rfl, h⟩

/-- A row that its first item opens is open. -/
theorem opened_of_first {i : Item κ ν τ} {items : List (Item κ ν τ)} (h : i.opens i.stamp = true) :
    Opened (i :: items) :=
  ⟨[], i, i.stamp, List.prefix_append [i] items, rfl, h⟩

theorem fold_eq_none {items : List (Item κ ν τ)} : fold items = none ↔ items = [] := by
  induction items using List.reverseRecOn with
  | nil => simp [fold]
  | append_singleton items i => simp

/-- **What a row says.** -/
theorem fold_eq_some {items : List (Item κ ν τ)} {r : Row ν τ} (h : fold items = some r) :
    items.head?.map (·.label) = some r.label ∧ latest items = some r.stamp ∧
      (r.opened = true ↔ Opened items) := by
  induction items using List.reverseRecOn generalizing r with
  | nil => cases h
  | append_singleton items i ih =>
    rw [fold_snoc, Option.some.injEq] at h
    cases hfold : fold items with
    | none =>
      obtain rfl := fold_eq_none.mp hfold
      rw [hfold] at h
      subst h
      have hno : ¬ Opened ([] : List (Item κ ν τ)) := by
        rintro ⟨before, j, t, hpre, -⟩
        simp at hpre
      refine ⟨rfl, rfl, ?_⟩
      rw [opened_snoc]
      simp [Item.onto, latest, hno]
    | some r₀ =>
      obtain ⟨hlabel, hlatest, hopened⟩ := ih hfold
      rw [hfold] at h
      subst h
      refine ⟨?_, by rw [latest_snoc, hlatest]; rfl, ?_⟩
      · cases items with
        | nil => cases hlabel
        | cons j items => exact hlabel
      · rw [opened_snoc, latest_snoc, hlatest, ← hopened]
        simp [Item.onto]

end Row

/-! ## The register -/

section Table
variable [DecidableEq κ]

def Table.take [LinearOrder τ] (cap : Nat) (T : Table κ ν τ) (i : Item κ ν τ) : Table κ ν τ :=
  if (T.row i.key).isNone ∧ cap ≤ T.used then { T with refused := T.refused + 1 }
  else
    { T with
      row := Function.update T.row i.key (some (i.onto (T.row i.key)))
      used := T.used + (if (T.row i.key).isNone then 1 else 0) }

section Take
variable [LinearOrder τ] {T : Table κ ν τ} {i : Item κ ν τ} {cap : Nat}

theorem Table.take_of_row {r : Row ν τ} (h : T.row i.key = some r) : T.take cap i =
    { T with row := Function.update T.row i.key (some (i.onto (some r))) } := by
  simp [take, h]

theorem Table.take_of_room (h : T.row i.key = none) (hroom : T.used < cap) : T.take cap i =
    ⟨Function.update T.row i.key (some (i.onto none)), T.used + 1, T.refused⟩ := by
  simp [take, h, hroom]

theorem Table.take_of_full (h : T.row i.key = none) (hfull : cap ≤ T.used) :
    T.take cap i = { T with refused := T.refused + 1 } := by
  simp [take, h, hfull]

end Take

/-- The items of one key. -/
def own (items : List (Item κ ν τ)) (k : κ) : List (Item κ ν τ) := items.filter fun i => i.key = k

/-- The keys that have come in. -/
def distinct (items : List (Item κ ν τ)) : Finset κ := (items.map (·.key)).toFinset

/-- The key came in when fewer than `cap` others had. -/
def Admitted (cap : Nat) (items : List (Item κ ν τ)) (k : κ) : Prop :=
  ∃ before i, before ++ [i] <+: items ∧ i.key = k ∧ k ∉ distinct before ∧
    (distinct before).card < cap

/-- The register holds the rows of the first keys, and has refused what came in of others. -/
structure Filled [LinearOrder τ] (cap : Nat) (items : List (Item κ ν τ)) (T : Table κ ν τ) : Prop where
  rows : ∀ k r, T.row k = some r ↔ Admitted cap items k ∧ fold (own items k) = some r
  used : T.used = min cap (distinct items).card
  refused : T.refused = items.countP fun i => (T.row i.key).isNone

section Snoc
variable {items : List (Item κ ν τ)} {i : Item κ ν τ} {k : κ} {cap : Nat}

theorem own_snoc_self : own (items ++ [i]) i.key = own items i.key ++ [i] := by
  simp [own]

theorem own_snoc_ne (h : i.key ≠ k) : own (items ++ [i]) k = own items k := by
  simp [own, h]

theorem own_eq_nil : own items k = [] ↔ k ∉ distinct items := by
  simp [own, distinct, List.filter_eq_nil_iff]

theorem distinct_snoc : distinct (items ++ [i]) = insert i.key (distinct items) := by
  ext k
  simp [distinct]

theorem admitted_snoc : Admitted cap (items ++ [i]) k ↔
    Admitted cap items k ∨ i.key = k ∧ k ∉ distinct items ∧ (distinct items).card < cap := by
  unfold Admitted
  constructor
  · rintro ⟨before, j, hpre, h⟩
    rcases List.prefix_concat_iff.mp hpre with heq | hpre
    · obtain ⟨rfl, hj⟩ := List.append_inj' heq rfl
      obtain rfl := List.singleton_inj.mp hj
      exact .inr h
    · exact .inl ⟨before, j, hpre, h⟩
  · rintro (⟨before, j, hpre, h⟩ | h)
    · exact ⟨before, j, hpre.trans (List.prefix_append _ _), h⟩
    · exact ⟨items, i, List.prefix_rfl, h⟩

theorem Admitted.mem (h : Admitted cap items k) : k ∈ distinct items := by
  obtain ⟨before, j, hpre, rfl, -⟩ := h
  have hj : j ∈ items := hpre.subset (List.mem_append_right _ List.mem_cons_self)
  simpa [distinct] using ⟨j, hj, rfl⟩

end Snoc

namespace Filled

variable [LinearOrder τ] {items : List (Item κ ν τ)} {cap : Nat} {T : Table κ ν τ}

theorem empty (cap : Nat) : Filled cap ([] : List (Item κ ν τ)) ⟨fun _ => none, 0, 0⟩ where
  rows k r := by
    constructor
    · intro h
      cases h
    · rintro ⟨h, -⟩
      simpa [distinct] using h.mem
  used := by simp [distinct]
  refused := rfl

theorem row_isSome (h : Filled cap items T) {k : κ} : (T.row k).isSome ↔ Admitted cap items k := by
  constructor
  · intro hk
    obtain ⟨r, hr⟩ := Option.isSome_iff_exists.mp hk
    exact ((h.rows k r).mp hr).1
  · intro hk
    cases hfold : fold (own items k) with
    | none => exact absurd hk.mem (own_eq_nil.mp (fold_eq_none.mp hfold))
    | some r => exact Option.isSome_iff_exists.mpr ⟨r, (h.rows k r).mpr ⟨hk, hfold⟩⟩

/-- A key that has no row and yet came in was refused: the register is full. -/
theorem full (h : Filled cap items T) {k : κ} (hk : (T.row k).isNone) (hmem : k ∈ distinct items) :
    cap ≤ (distinct items).card := by
  by_contra hlt
  have hnot : ¬ Admitted cap items k := by
    rw [← h.row_isSome]
    simpa using hk
  refine hnot ?_
  clear hk hnot h
  induction items using List.reverseRecOn with
  | nil => simp [distinct] at hmem
  | append_singleton items i ih =>
    have hle : (distinct items).card ≤ (distinct (items ++ [i])).card :=
      by
      rw [distinct_snoc]
      exact Finset.card_le_card (Finset.subset_insert _ _)
    rw [admitted_snoc]
    by_cases hold : k ∈ distinct items
    · exact .inl (ih hold (by omega))
    · rw [distinct_snoc, Finset.mem_insert] at hmem
      exact .inr ⟨(hmem.resolve_right hold).symm, hold, by omega⟩

/-- **One item.** -/
theorem take (h : Filled cap items T) (i : Item κ ν τ) :
    Filled cap (items ++ [i]) (T.take cap i) := by
  unfold Table.take
  split
  · -- the register is full, and the key has no row
    rename_i hrefused
    obtain ⟨hnone, hfull⟩ := hrefused
    have hcap : cap ≤ (distinct items).card := by
      rw [h.used] at hfull
      omega
    have hadmitted : ∀ k, Admitted cap (items ++ [i]) k ↔ Admitted cap items k := by
      intro k
      rw [admitted_snoc]
      exact or_iff_left fun hnew => absurd hnew.2.2 (by omega)
    have hle : (distinct items).card ≤ (distinct (items ++ [i])).card :=
      by
      rw [distinct_snoc]
      exact Finset.card_le_card (Finset.subset_insert _ _)
    refine ⟨fun k r => ?_, ?_, ?_⟩
    · rw [hadmitted]
      by_cases hk : i.key = k
      · subst hk
        have hno : ¬ Admitted cap items i.key := by
          rw [← h.row_isSome]
          simpa using hnone
        simp [Option.isNone_iff_eq_none.mp hnone, hno]
      · rw [own_snoc_ne hk]
        exact h.rows k r
    · change T.used = _
      rw [h.used]
      omega
    · simp [h.refused, hnone]
  · rename_i htaken
    have hroom : (T.row i.key).isNone → (distinct items).card < cap := by
      intro hnone
      by_contra hge
      refine htaken ⟨hnone, ?_⟩
      rw [h.used]
      omega
    have hnew : (T.row i.key).isNone → i.key ∉ distinct items := by
      intro hnone hmem
      have := h.full hnone hmem
      have := hroom hnone
      omega
    have hadmitted : ∀ k, Admitted cap (items ++ [i]) k ↔ Admitted cap items k ∨ i.key = k := by
      intro k
      rw [admitted_snoc]
      refine ⟨fun hk => hk.imp_right And.left, fun hk => ?_⟩
      rcases hk with hk | rfl
      · exact .inl hk
      · by_cases hnone : (T.row i.key).isNone
        · exact .inr ⟨rfl, hnew hnone, hroom hnone⟩
        · exact .inl (h.row_isSome.mp (by simpa [← Option.isSome_iff_ne_none] using hnone))
    have hfold : fold (own items i.key) = T.row i.key := by
      cases hrow : T.row i.key with
      | some r => exact ((h.rows _ r).mp hrow).2
      | none => exact fold_eq_none.mpr (own_eq_nil.mpr (hnew (by rw [hrow]; rfl)))
    refine ⟨fun k r => ?_, ?_, ?_⟩
    · rw [hadmitted]
      by_cases hk : i.key = k
      · subst hk
        rw [own_snoc_self, fold_snoc, hfold]
        simp
      · have hkeep := h.rows k r
        rw [own_snoc_ne hk]
        simpa [Function.update_of_ne (Ne.symm hk), hk] using hkeep
    · change T.used + _ = _
      rw [h.used, distinct_snoc]
      by_cases hnone : (T.row i.key).isNone
      · rw [Finset.card_insert_of_notMem (hnew hnone)]
        have := hroom hnone
        simp only [hnone, if_true]
        omega
      · have hmem : i.key ∈ distinct items :=
          (h.row_isSome.mp (by simpa [← Option.isSome_iff_ne_none] using hnone)).mem
        simp only [hnone, Finset.insert_eq_of_mem hmem]
        rfl
    · have hsame : ∀ j ∈ items, ((Function.update T.row i.key
          (some (i.onto (T.row i.key)))) j.key).isNone = (T.row j.key).isNone := by
        intro j hj
        by_cases hk : j.key = i.key
        · have hmem : i.key ∈ distinct items := by
            simpa [distinct] using ⟨j, hj, hk⟩
          have hrow : ¬ (T.row i.key).isNone := fun hnone => hnew hnone hmem
          rw [hk, Function.update_self]
          simpa [← Option.isSome_iff_ne_none] using hrow
        · rw [Function.update_of_ne hk]
      change T.refused = _
      rw [List.countP_append, List.countP_congr fun j hj => by rw [hsame j hj], ← h.refused]
      simp

end Filled

end Table

end Register
