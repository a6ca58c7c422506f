import Mathlib.Data.List.AList
import Mathlib.Algebra.BigOperators.Group.Finset.Basic
import Mathlib.Algebra.BigOperators.Ring.Finset
import Mathlib.Algebra.Order.BigOperators.Group.List
import Mathlib.Algebra.Order.Ring.Nat

/-!
# Counting and summing over a finite map

The number of entries of an `AList` that satisfy a predicate, and how `AList.insert` changes it:
inserting over an existing key exchanges the old entry for the new one, inserting at an absent
key adds the new one.  Likewise the sum of a quantity over the values: it changes by what changes at
single keys (`sumOf_change`).
-/

set_option autoImplicit false

namespace AList

variable {κ : Type} {β : κ → Type}

/-- Number of entries satisfying `p`. -/
def tally (p : Sigma β → Bool) (m : AList β) : Nat := m.entries.countP p

/-- Number of entries. -/
def size (m : AList β) : Nat := m.entries.length

@[simp] theorem tally_empty (p : Sigma β → Bool) : (∅ : AList β).tally p = 0 := rfl

theorem size_eq_tally (m : AList β) : m.size = m.tally fun _ => true := by
  simp [size, tally]

theorem tally_le_size (p : Sigma β → Bool) (m : AList β) : m.tally p ≤ m.size :=
  List.countP_le_length

variable [DecidableEq κ]

theorem countP_kerase (p : Sigma β → Bool) (k : κ) : ∀ {l : List (Sigma β)} {v : β k},
    l.dlookup k = some v → (l.kerase k).countP p + (if p ⟨k, v⟩ then 1 else 0) = l.countP p
  | [], v, h => by simp at h
  | ⟨k', v'⟩ :: l, v, h => by
    by_cases hk : k = k'
    · subst hk
      rw [List.dlookup_cons_eq, Option.some.injEq] at h
      subst h
      rw [show (⟨k, v'⟩ :: l : List (Sigma β)).kerase k = l from List.kerase_cons_eq rfl,
        List.countP_cons]
    · rw [List.dlookup_cons_ne _ _ (by simpa using hk)] at h
      have ih := countP_kerase p k h
      rw [List.kerase_cons_ne hk, List.countP_cons, List.countP_cons]
      omega

/-- Replacing the value of a present key. -/
theorem tally_insert_of_lookup (p : Sigma β → Bool) {m : AList β} {k : κ} {v : β k} (v' : β k)
    (h : m.lookup k = some v) :
    (m.insert k v').tally p + (if p ⟨k, v⟩ then 1 else 0) =
      m.tally p + (if p ⟨k, v'⟩ then 1 else 0) := by
  have := countP_kerase p k h
  simp only [tally, entries_insert, List.countP_cons]
  omega

/-- Adding an absent key. -/
theorem tally_insert_of_absent (p : Sigma β → Bool) {m : AList β} {k : κ} (v' : β k)
    (h : m.lookup k = none) :
    (m.insert k v').tally p = m.tally p + (if p ⟨k, v'⟩ then 1 else 0) := by
  simp only [tally, entries_insert_of_notMem (lookup_eq_none.mp h), List.countP_cons]

theorem size_insert_of_lookup {m : AList β} {k : κ} {v : β k} (v' : β k)
    (h : m.lookup k = some v) : (m.insert k v').size = m.size := by
  have := tally_insert_of_lookup (fun _ => true) v' h
  simp only [size_eq_tally, if_true] at *
  omega

theorem size_insert_of_absent {m : AList β} {k : κ} (v' : β k) (h : m.lookup k = none) :
    (m.insert k v').size = m.size + 1 := by
  simpa [size_eq_tally] using tally_insert_of_absent (fun _ => true) v' h

/-- An entry satisfying `p` is counted. -/
theorem tally_pos {p : Sigma β → Bool} {m : AList β} {k : κ} {v : β k} (h : m.lookup k = some v)
    (hp : p ⟨k, v⟩ = true) : 0 < m.tally p :=
  List.countP_pos_iff.mpr ⟨⟨k, v⟩, List.of_mem_dlookup h, hp⟩

/-- Where entries are counted, a lookup finds one. -/
theorem exists_of_tally_pos {p : Sigma β → Bool} {m : AList β} (h : 0 < m.tally p) :
    ∃ k v, m.lookup k = some v ∧ p ⟨k, v⟩ = true := by
  obtain ⟨⟨k, v⟩, hmem, hp⟩ := List.countP_pos_iff.mp h
  exact ⟨k, v, List.mem_dlookup m.nodupKeys hmem, hp⟩

/-! ## Sums -/

section Sums
variable {κ ν : Type}

/-- The sum of `f` over the values. -/
def sumOf (f : ν → Nat) (m : AList fun _ : κ => ν) : Nat := (m.entries.map fun e => f e.2).sum

variable [DecidableEq κ]

/-- The summand of a key, zero where it is absent. -/
def summand (f : ν → Nat) (m : AList fun _ : κ => ν) (k : κ) : Nat := ((m.lookup k).map f).getD 0

theorem sumOf_eq_sum (f : ν → Nat) (m : AList fun _ : κ => ν) : ∀ {S : Finset κ},
    (∀ k, m.lookup k ≠ none → k ∈ S) → m.sumOf f = ∑ k ∈ S, m.summand f k := by
  induction m using AList.insertRec with
  | H0 =>
    intro S _
    exact (Finset.sum_eq_zero fun k _ => rfl).symm
  | IH k v m hk ih =>
    intro S hS
    have hnone : m.lookup k = none := lookup_eq_none.mpr hk
    have hsum : (m.insert k v).sumOf f = f v + m.sumOf f := by
      unfold sumOf
      rw [entries_insert_of_notMem hk]
      rfl
    have hmem : k ∈ S := hS k (by rw [lookup_insert]; exact nofun)
    have hsub : ∀ k', m.lookup k' ≠ none → k' ∈ S.erase k := by
      intro k' hk'
      have hne : k' ≠ k := by
        rintro rfl
        exact hk' hnone
      exact Finset.mem_erase.mpr ⟨hne, hS k' (by rw [lookup_insert_ne hne]; exact hk')⟩
    rw [hsum, ih hsub, ← Finset.add_sum_erase S _ hmem]
    congr 1
    · unfold summand
      rw [lookup_insert]
      rfl
    · refine Finset.sum_congr rfl fun k' hk' => ?_
      unfold summand
      rw [lookup_insert_ne (Finset.ne_of_mem_erase hk')]

theorem mem_support (m : AList fun _ : κ => ν) {k : κ} (hk : m.lookup k ≠ none) :
    k ∈ m.keys.toFinset := by
  rw [List.mem_toFinset]
  by_contra hno
  exact hk (lookup_eq_none.mpr hno)

/-- **Sums differ by what changed**, for two maps that agree away from `k`. -/
theorem sumOf_change {f : ν → Nat} {m m' : AList fun _ : κ => ν} {k : κ}
    (h : ∀ k', k' ≠ k → m'.summand f k' = m.summand f k') :
    m'.sumOf f + m.summand f k = m.sumOf f + m'.summand f k := by
  obtain ⟨S, hm, hm', hk⟩ : ∃ S : Finset κ, (∀ k, m.lookup k ≠ none → k ∈ S) ∧
      (∀ k, m'.lookup k ≠ none → k ∈ S) ∧ k ∈ S :=
    ⟨{k} ∪ (m.keys.toFinset ∪ m'.keys.toFinset),
      fun k' hk' => Finset.mem_union_right _ (Finset.mem_union_left _ (m.mem_support hk')),
      fun k' hk' => Finset.mem_union_right _ (Finset.mem_union_right _ (m'.mem_support hk')),
      Finset.mem_union_left _ (Finset.mem_singleton_self k)⟩
  have hrest : ∑ k' ∈ S.erase k, m'.summand f k' = ∑ k' ∈ S.erase k, m.summand f k' :=
    Finset.sum_congr rfl fun k' hk' => h k' (Finset.ne_of_mem_erase hk')
  rw [m.sumOf_eq_sum f hm, m'.sumOf_eq_sum f hm', ← Finset.add_sum_erase S _ hk,
    ← Finset.add_sum_erase S _ hk, hrest]
  omega

/-- A bound on every value is one on the sum. -/
theorem sumOf_le {f : ν → Nat} {m : AList fun _ : κ => ν} {b : Nat}
    (h : ∀ k v, m.lookup k = some v → f v ≤ b) : m.sumOf f ≤ m.size * b := by
  have hle := List.sum_le_card_nsmul (m.entries.map fun e => f e.2) b fun x hx => by
    obtain ⟨⟨k, v⟩, hmem, rfl⟩ := List.mem_map.mp hx
    exact h k v (List.mem_dlookup m.nodupKeys hmem)
  simpa [sumOf, size] using hle

end Sums
end AList
