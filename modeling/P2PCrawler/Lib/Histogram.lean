import Mathlib.Order.Defs.LinearOrder
import Mathlib.Order.Lattice
import Mathlib.Algebra.GroupWithZero.Nat
import Mathlib.Data.List.Induction

/-!
# Histograms

Counters by key, kept in the order of the keys: a sorted map in which a key's counter is created
at its first occurrence.

* `Histogram.add` — count one more occurrence.
* `Histogram.count_ofList`, `Histogram.total_ofList` — counting a list gives each key its number
  of occurrences, and the counters add up to the length.
-/

set_option autoImplicit false

universe u

variable {α : Type u} [LinearOrder α]

/-- One more occurrence of `a`, in a list of counters sorted by key. -/
def bump (a : α) : List (α × ℕ) → List (α × ℕ)
  | [] => [(a, 1)]
  | (b, n) :: rest =>
    if a < b then (a, 1) :: (b, n) :: rest
    else if a = b then (b, n + 1) :: rest
    else (b, n) :: bump a rest

theorem mem_bump {a : α} {l : List (α × ℕ)} {p : α × ℕ} (h : p ∈ bump a l) :
    0 < p.2 ∧ p.1 = a ∨ p ∈ l := by
  induction l with
  | nil =>
    obtain rfl := List.mem_singleton.mp h
    exact .inl ⟨Nat.one_pos, rfl⟩
  | cons q rest ih =>
    obtain ⟨b, n⟩ := q
    unfold bump at h
    split at h
    · obtain rfl | h := List.mem_cons.mp h
      · exact .inl ⟨Nat.one_pos, rfl⟩
      · exact .inr h
    split at h
    · rename_i hab
      obtain rfl | h := List.mem_cons.mp h
      · exact .inl ⟨Nat.succ_pos n, hab.symm⟩
      · exact .inr (List.mem_cons_of_mem _ h)
    · obtain rfl | h := List.mem_cons.mp h
      · exact .inr List.mem_cons_self
      · exact (ih h).imp_right (List.mem_cons_of_mem _)

theorem bump_sorted {a : α} {l : List (α × ℕ)} (h : l.Pairwise fun p q => p.1 < q.1) :
    (bump a l).Pairwise fun p q => p.1 < q.1 := by
  induction l with
  | nil => exact List.pairwise_singleton _ _
  | cons q rest ih =>
    obtain ⟨b, n⟩ := q
    obtain ⟨hb, hrest⟩ := List.pairwise_cons.mp h
    unfold bump
    split
    · rename_i hlt
      refine List.pairwise_cons.mpr ⟨fun p hp => ?_, h⟩
      obtain rfl | hp := List.mem_cons.mp hp
      · exact hlt
      · exact lt_trans hlt (hb p hp)
    · rename_i hlt
      split
      · exact List.pairwise_cons.mpr ⟨hb, hrest⟩
      · rename_i hne
        refine List.pairwise_cons.mpr ⟨fun p hp => ?_, ih hrest⟩
        obtain ⟨-, hp⟩ | hp := mem_bump hp
        · rw [hp]
          exact lt_of_le_of_ne (not_lt.mp hlt) (Ne.symm hne)
        · exact hb p hp

/-- Counters in the order of their keys, none of them zero. -/
structure Histogram (α : Type u) [LinearOrder α] where
  buckets : List (α × ℕ)
  sorted : buckets.Pairwise fun p q => p.1 < q.1
  pos : ∀ p ∈ buckets, 0 < p.2

namespace Histogram

def empty : Histogram α := ⟨[], .nil, by simp⟩

/-- `*entry(a).or_insert(0) += 1`. -/
def add (h : Histogram α) (a : α) : Histogram α where
  buckets := bump a h.buckets
  sorted := bump_sorted h.sorted
  pos := fun p hp => (mem_bump hp).elim (·.1) (h.pos p)

/-- The counter of a key, zero where it has none. -/
def count (h : Histogram α) (a : α) : ℕ := ((h.buckets.filter (·.1 = a)).map (·.2)).sum

/-- The sum of the counters. -/
def total (h : Histogram α) : ℕ := (h.buckets.map (·.2)).sum

theorem count_of_mem {h : Histogram α} {p : α × ℕ} (hp : p ∈ h.buckets) : h.count p.1 = p.2 := by
  obtain ⟨before, after, heq⟩ := List.append_of_mem hp
  have hsorted := h.sorted
  rw [heq, List.pairwise_append, List.pairwise_cons] at hsorted
  obtain ⟨-, ⟨hafter, -⟩, hbefore⟩ := hsorted
  have hb : before.filter (·.1 = p.1) = [] := by
    refine List.filter_eq_nil_iff.mpr fun q hq => ?_
    have := hbefore q hq p List.mem_cons_self
    simp [ne_of_lt this]
  have ha : after.filter (·.1 = p.1) = [] := by
    refine List.filter_eq_nil_iff.mpr fun q hq => ?_
    have := hafter q hq
    simp [ne_of_gt this]
  unfold count
  rw [heq, List.filter_append, hb, List.nil_append, List.filter_cons_of_pos (by simp), ha]
  simp

theorem count_add (h : Histogram α) (a b : α) :
    (h.add a).count b = h.count b + if a = b then 1 else 0 := by
  show (((bump a h.buckets).filter (·.1 = b)).map (·.2)).sum =
    ((h.buckets.filter (·.1 = b)).map (·.2)).sum + if a = b then 1 else 0
  induction h.buckets with
  | nil => by_cases hab : a = b <;> simp [bump, hab]
  | cons q rest ih =>
    obtain ⟨c, n⟩ := q
    unfold bump
    split
    · by_cases hab : a = b <;> simp [List.filter_cons, hab, Nat.add_comm]
    split
    · rename_i hac
      subst hac
      by_cases hab : a = b <;> simp [hab]
      omega
    · by_cases hcb : c = b
      · simp only [hcb, decide_true, List.filter_cons_of_pos, List.map_cons, List.sum_cons, ih]
        omega
      · simp [hcb, ih]

theorem total_add (h : Histogram α) (a : α) : (h.add a).total = h.total + 1 := by
  show ((bump a h.buckets).map (·.2)).sum = (h.buckets.map (·.2)).sum + 1
  induction h.buckets with
  | nil => rfl
  | cons q rest ih =>
    obtain ⟨c, n⟩ := q
    unfold bump
    split
    · simp [Nat.add_comm]
    split
    · simp
      omega
    · simp only [List.map_cons, List.sum_cons, ih]
      omega

/-- The histogram of a list. -/
def ofList (l : List α) : Histogram α := l.foldl add empty

theorem ofList_concat (l : List α) (a : α) : ofList (l ++ [a]) = (ofList l).add a := by
  unfold ofList
  rw [List.foldl_append]
  rfl

theorem count_ofList (l : List α) (a : α) : (ofList l).count a = l.count a := by
  induction l using List.reverseRecOn with
  | nil => rfl
  | append_singleton l b ih =>
    rw [ofList_concat, count_add, ih, List.count_append, List.count_singleton]
    simp only [beq_iff_eq]

theorem total_ofList (l : List α) : (ofList l).total = l.length := by
  induction l using List.reverseRecOn with
  | nil => rfl
  | append_singleton l b ih => rw [ofList_concat, total_add, ih, List.length_append]; rfl

end Histogram
