import Mathlib.Algebra.BigOperators.Group.List.Basic
import Mathlib.Algebra.Order.BigOperators.Group.List
import Mathlib.Algebra.Order.Group.Int
import Mathlib.Algebra.Order.Ring.Int

/-!
# Threads over one shared state

A pool is a finite list of threads with private local states over one shared state.  A thread
takes its next atomic step on an input chosen by the environment (a scheduler decision, the
result of an operation outside the program, a crash); every other thread stays where it is.
Threads communicate through the shared state only.

## Results

* `Reach.invariant` — a predicate that holds initially and is preserved by every admitted step
  holds in every reachable configuration; `Reach.mono` compares admission predicates.
* `exec_reach` — an executed schedule is a run, so a configuration can be shown reachable by
  evaluation.
* `Chronicle.invariant`, `Reach.chronicle` — the same for runs with a history variable, which every
  run has.
* `total_step` — **conservation**: a step that keeps `F shared + f thread` keeps the sum of
  `F shared` and `f` over all threads.  `le_load`, `add_le_load` read single threads and pairs
  of threads off such a sum.
* `Holds.step` — **rely and guarantee**: a local assertion holds of every thread after a step if
  the moving thread establishes its own and the step is compatible with the others'.
-/

set_option autoImplicit false

namespace ThreadPool

variable {σ π ι : Type}

/-- A configuration: the shared state and the local state of every thread. -/
structure Conf (σ π : Type) where
  shared : σ
  threads : List π

/-- What one thread does on one input; `none` where it is blocked or the input does not fit. -/
abbrev Program (σ π ι : Type) := σ → π → ι → Option (σ × π)

/-- Thread `a.1` takes its step on input `a.2`. -/
def step (P : Program σ π ι) (c : Conf σ π) (a : Nat × ι) : Option (Conf σ π) :=
  match c.threads[a.1]? with
  | none => none
  | some t => (P c.shared t a.2).map fun r => ⟨r.1, c.threads.set a.1 r.2⟩

/-- Everything a pool step can do. -/
theorem step_cases {P : Program σ π ι} {c c' : Conf σ π} {a : Nat × ι} (h : step P c a = some c') :
    ∃ t sh' t', c.threads[a.1]? = some t ∧ P c.shared t a.2 = some (sh', t') ∧
      c' = ⟨sh', c.threads.set a.1 t'⟩ := by
  unfold step at h
  split at h
  · cases h
  · rename_i t ht
    obtain ⟨⟨sh', t'⟩, hp, rfl⟩ := Option.map_eq_some_iff.mp h
    exact ⟨t, sh', t', ht, hp, rfl⟩

/-! ## Runs -/

/-- Configurations reached from `c₀` by steps that `ok` admits. -/
inductive Reach (P : Program σ π ι) (ok : Conf σ π → Nat × ι → Prop) (c₀ : Conf σ π) :
    Conf σ π → Prop where
  | start : Reach P ok c₀ c₀
  | next {c c' : Conf σ π} {a : Nat × ι} :
      Reach P ok c₀ c → ok c a → step P c a = some c' → Reach P ok c₀ c'

/-- Every step is admitted. -/
def anyStep (_ : Conf σ π) (_ : Nat × ι) : Prop := True

/-- Reachability along arbitrary interleavings. -/
abbrev Reachable (P : Program σ π ι) (c₀ : Conf σ π) : Conf σ π → Prop := Reach P anyStep c₀

theorem Reach.invariant {P : Program σ π ι} {ok : Conf σ π → Nat × ι → Prop} {c₀ : Conf σ π}
    {I : Conf σ π → Prop} (h₀ : I c₀)
    (hs : ∀ c a c', Reach P ok c₀ c → I c → ok c a → step P c a = some c' → I c')
    {c : Conf σ π} (hr : Reach P ok c₀ c) : I c := by
  induction hr with
  | start => exact h₀
  | next hr hok hst ih => exact hs _ _ _ hr ih hok hst

theorem Reach.mono {P : Program σ π ι} {ok ok' : Conf σ π → Nat × ι → Prop} {c₀ c : Conf σ π}
    (himp : ∀ c a, ok c a → ok' c a) (hr : Reach P ok c₀ c) : Reach P ok' c₀ c := by
  induction hr with
  | start => exact .start
  | next _ hok hst ih => exact .next ih (himp _ _ hok) hst

theorem Reach.reachable {P : Program σ π ι} {ok : Conf σ π → Nat × ι → Prop} {c₀ c : Conf σ π}
    (hr : Reach P ok c₀ c) : Reachable P c₀ c :=
  hr.mono fun _ _ _ => trivial

/-- Run a schedule, checking that every step of it is admitted. -/
def exec (P : Program σ π ι) (ok : Conf σ π → Nat × ι → Bool) (c : Conf σ π) :
    List (Nat × ι) → Option (Conf σ π)
  | [] => some c
  | a :: as =>
    if ok c a then
      match step P c a with
      | none => none
      | some c' => exec P ok c' as
    else none

theorem exec_reach_from {P : Program σ π ι} {ok : Conf σ π → Nat × ι → Bool} {c₀ : Conf σ π} :
    ∀ {as : List (Nat × ι)} {c c' : Conf σ π}, Reach P (fun c a => ok c a = true) c₀ c →
      exec P ok c as = some c' → Reach P (fun c a => ok c a = true) c₀ c'
  | [], c, c', hr, h => by
    simp only [exec, Option.some.injEq] at h; subst h; exact hr
  | a :: as, c, c', hr, h => by
    simp only [exec] at h
    split at h
    · rename_i hok
      split at h
      · cases h
      · rename_i c₁ hst
        exact exec_reach_from (hr.next hok hst) h
    · cases h

/-- An executed schedule is a run. -/
theorem exec_reach {P : Program σ π ι} {ok : Conf σ π → Nat × ι → Bool} {c c' : Conf σ π}
    {as : List (Nat × ι)} (h : exec P ok c as = some c') :
    Reach P (fun c a => ok c a = true) c c' :=
  exec_reach_from .start h

/-! ## History variables -/

/-- Runs that keep a history `g` of their steps, which no step reads. -/
inductive Chronicle {γ : Type} (P : Program σ π ι) (ok : Conf σ π → Nat × ι → Prop)
    (record : γ → Conf σ π → Nat × ι → Conf σ π → γ) (c₀ : Conf σ π) (g₀ : γ) :
    Conf σ π → γ → Prop where
  | start : Chronicle P ok record c₀ g₀ c₀ g₀
  | next {c c' : Conf σ π} {g : γ} {a : Nat × ι} :
      Chronicle P ok record c₀ g₀ c g → ok c a → step P c a = some c' →
      Chronicle P ok record c₀ g₀ c' (record g c a c')

section History
variable {γ : Type} {P : Program σ π ι} {ok : Conf σ π → Nat × ι → Prop}
  {record : γ → Conf σ π → Nat × ι → Conf σ π → γ} {c₀ c : Conf σ π} {g₀ g : γ}

theorem Chronicle.reach (h : Chronicle P ok record c₀ g₀ c g) : Reach P ok c₀ c := by
  induction h with
  | start => exact .start
  | next _ hok hst ih => exact ih.next hok hst

/-- Every run has its history. -/
theorem Reach.chronicle (hr : Reach P ok c₀ c) : ∃ g, Chronicle P ok record c₀ g₀ c g := by
  induction hr with
  | start => exact ⟨g₀, .start⟩
  | next _ hok hst ih =>
    obtain ⟨g, hg⟩ := ih
    exact ⟨_, hg.next hok hst⟩

theorem Chronicle.invariant {I : Conf σ π → γ → Prop} (h₀ : I c₀ g₀)
    (hs : ∀ c g a c', Chronicle P ok record c₀ g₀ c g → I c g → ok c a → step P c a = some c' →
      I c' (record g c a c'))
    (h : Chronicle P ok record c₀ g₀ c g) : I c g := by
  induction h with
  | start => exact h₀
  | next hr hok hst ih => exact hs _ _ _ _ hr ih hok hst

/-- A run goes on from where a run has come to. -/
theorem Chronicle.trans {c' : Conf σ π} {g' : γ} (h : Chronicle P ok record c₀ g₀ c g)
    (h' : Chronicle P ok record c g c' g') : Chronicle P ok record c₀ g₀ c' g' := by
  induction h' with
  | start => exact h
  | next _ hok hst ih => exact ih.next hok hst

/-- Run a schedule and keep its history. -/
def execRecord (P : Program σ π ι) (ok : Conf σ π → Nat × ι → Bool)
    (record : γ → Conf σ π → Nat × ι → Conf σ π → γ) (c : Conf σ π) (g : γ) :
    List (Nat × ι) → Option (Conf σ π × γ)
  | [] => some (c, g)
  | a :: as =>
    if ok c a then
      match step P c a with
      | none => none
      | some c' => execRecord P ok record c' (record g c a c') as
    else none

theorem execRecord_chronicle_from {ok : Conf σ π → Nat × ι → Bool} :
    ∀ {as : List (Nat × ι)} {c : Conf σ π} {g : γ} {r : Conf σ π × γ},
      Chronicle P (fun c a => ok c a = true) record c₀ g₀ c g →
      execRecord P ok record c g as = some r →
      Chronicle P (fun c a => ok c a = true) record c₀ g₀ r.1 r.2
  | [], c, g, r, hr, h => by
    simp only [execRecord, Option.some.injEq] at h; subst h; exact hr
  | a :: as, c, g, r, hr, h => by
    simp only [execRecord] at h
    split at h
    · rename_i hok
      split at h
      · cases h
      · rename_i c₁ hst
        exact execRecord_chronicle_from (hr.next hok hst) h
    · cases h

/-- An executed schedule is a run with its history. -/
theorem execRecord_chronicle {ok : Conf σ π → Nat × ι → Bool} {as : List (Nat × ι)}
    {r : Conf σ π × γ} (h : execRecord P ok record c₀ g₀ as = some r) :
    Chronicle P (fun c a => ok c a = true) record c₀ g₀ r.1 r.2 :=
  execRecord_chronicle_from .start h

theorem Chronicle.mono {ok' : Conf σ π → Nat × ι → Prop} (himp : ∀ c a, ok c a → ok' c a)
    (h : Chronicle P ok record c₀ g₀ c g) : Chronicle P ok' record c₀ g₀ c g := by
  induction h with
  | start => exact .start
  | next _ hok hst ih => exact ih.next (himp _ _ hok) hst

end History

/-! ## Sums over the threads -/

/-- The sum of `f` over all threads. -/
def load (f : π → ℤ) (ts : List π) : ℤ := (ts.map f).sum

theorem load_set (f : π → ℤ) : ∀ {ts : List π} {i : Nat} {t : π} (t' : π), ts[i]? = some t →
    load f (ts.set i t') + f t = load f ts + f t'
  | [], i, t, t', h => by simp at h
  | u :: us, 0, t, t', h => by
    simp only [List.getElem?_cons_zero, Option.some.injEq] at h
    subst h
    simp only [load, List.set_cons_zero, List.map_cons, List.sum_cons]
    omega
  | u :: us, i + 1, t, t', h => by
    have ih := @load_set f us i t t' (by simpa using h)
    simp only [load, List.set_cons_succ, List.map_cons, List.sum_cons] at ih ⊢
    omega

/-- A quantity spread over the shared state and the threads. -/
def total (F : σ → ℤ) (f : π → ℤ) (c : Conf σ π) : ℤ := F c.shared + load f c.threads

/-- **Conservation.**  A step on which the moving thread and the shared state balance keeps the
    total. -/
theorem total_step {P : Program σ π ι} {F : σ → ℤ} {f : π → ℤ} {c c' : Conf σ π} {a : Nat × ι}
    (hst : step P c a = some c')
    (hbal : ∀ t sh' t', c.threads[a.1]? = some t → P c.shared t a.2 = some (sh', t') →
      F sh' + f t' = F c.shared + f t) :
    total F f c' = total F f c := by
  obtain ⟨t, sh', t', ht, hp, rfl⟩ := step_cases hst
  have hb := hbal t sh' t' ht hp
  have hl := load_set f t' ht
  simp only [total]
  omega

theorem load_nonneg {f : π → ℤ} (hf : ∀ t, 0 ≤ f t) (ts : List π) : 0 ≤ load f ts := by
  apply List.sum_nonneg
  intro x hx
  obtain ⟨t, _, rfl⟩ := List.mem_map.mp hx
  exact hf t

theorem le_load {f : π → ℤ} (hf : ∀ t, 0 ≤ f t) : ∀ {ts : List π} {t : π}, t ∈ ts →
    f t ≤ load f ts
  | u :: us, t, h => by
    simp only [load, List.map_cons, List.sum_cons]
    rcases List.mem_cons.mp h with rfl | h
    · have := load_nonneg hf us; simp only [load] at this; omega
    · have := le_load hf h; have := hf u; simp only [load] at *; omega

/-- Two different threads contribute both. -/
theorem add_le_load {f : π → ℤ} (hf : ∀ t, 0 ≤ f t) : ∀ {ts : List π} {i j : Nat} {t u : π},
    i ≠ j → ts[i]? = some t → ts[j]? = some u → f t + f u ≤ load f ts
  | [], i, j, t, u, _, hi, _ => by simp at hi
  | v :: vs, 0, 0, t, u, hij, _, _ => absurd rfl hij
  | v :: vs, 0, j + 1, t, u, _, hi, hj => by
    simp only [List.getElem?_cons_zero, Option.some.injEq] at hi
    subst hi
    have hm : u ∈ vs := List.mem_of_getElem? (by simpa using hj)
    have := le_load hf hm
    simp only [load, List.map_cons, List.sum_cons] at *
    omega
  | v :: vs, i + 1, 0, t, u, _, hi, hj => by
    simp only [List.getElem?_cons_zero, Option.some.injEq] at hj
    subst hj
    have hm : t ∈ vs := List.mem_of_getElem? (by simpa using hi)
    have := le_load hf hm
    simp only [load, List.map_cons, List.sum_cons] at *
    omega
  | v :: vs, i + 1, j + 1, t, u, hij, hi, hj => by
    have := @add_le_load f hf vs i j t u (by omega) (by simpa using hi) (by simpa using hj)
    have := hf v
    simp only [load, List.map_cons, List.sum_cons] at *
    omega

theorem load_le_load {f g : π → ℤ} {ts : List π} (h : ∀ t ∈ ts, f t ≤ g t) :
    load f ts ≤ load g ts :=
  List.sum_le_sum h

theorem load_eq_zero {f : π → ℤ} {ts : List π} (h : ∀ t ∈ ts, f t = 0) : load f ts = 0 := by
  apply List.sum_eq_zero
  intro x hx
  obtain ⟨t, ht, rfl⟩ := List.mem_map.mp hx
  exact h t ht

theorem load_add (f g : π → ℤ) (ts : List π) :
    load (fun t => f t + g t) ts = load f ts + load g ts :=
  List.sum_map_add

theorem load_neg (f : π → ℤ) : ∀ ts : List π, load (fun t => -f t) ts = -load f ts
  | [] => rfl
  | t :: ts => by
    have ih := load_neg f ts
    simp only [load, List.map_cons, List.sum_cons] at ih ⊢
    omega

/-- What is non-negative in every thread and zero in total is zero in each. -/
theorem eq_zero_of_load {f : π → ℤ} (hf : ∀ t, 0 ≤ f t) {ts : List π} (h : load f ts = 0) {t : π}
    (ht : t ∈ ts) : f t = 0 := by
  have := le_load hf ht
  have := hf t
  omega

/-- Three quantities that cancel in every thread cancel in the pool. -/
theorem load_cancel {f g w : π → ℤ} (h : ∀ t, f t + g t + w t = 0) :
    ∀ ts : List π, load f ts + load g ts + load w ts = 0
  | [] => rfl
  | t :: ts => by
    have ih := load_cancel h ts
    have := h t
    simp only [load, List.map_cons, List.sum_cons] at ih ⊢
    omega

/-- The threads of a kind, after one thread has moved. -/
theorem countP_set_add (p : π → Bool) {ts : List π} {i : Nat} {t : π} (t' : π)
    (h : ts[i]? = some t) : (ts.set i t').countP p + (if p t then 1 else 0) =
      ts.countP p + if p t' then 1 else 0 := by
  obtain ⟨hi, rfl⟩ := List.getElem?_eq_some_iff.mp h
  have hset := List.countP_set (p := p) (a := t') hi
  have hle : (if p ts[i] then 1 else 0) ≤ ts.countP p := by
    split
    · rename_i hp
      exact List.countP_pos_iff.mpr ⟨_, List.getElem_mem hi, hp⟩
    · exact Nat.zero_le _
  omega

/-! ## Local assertions -/

/-- Every thread satisfies its local assertion. -/
def Holds (A : σ → π → Prop) (c : Conf σ π) : Prop :=
  ∀ (i : Nat) (t : π), c.threads[i]? = some t → A c.shared t

theorem Holds.of_mem {A : σ → π → Prop} {c : Conf σ π} (h : Holds A c) {t : π}
    (ht : t ∈ c.threads) : A c.shared t := by
  obtain ⟨i, hi⟩ := List.getElem?_of_mem ht
  exact h i t hi

/-- **Rely and guarantee.**  The moving thread establishes its own assertion and the step leaves
    the assertions of the others intact. -/
theorem Holds.step {P : Program σ π ι} {A : σ → π → Prop} {c c' : Conf σ π} {a : Nat × ι}
    (h : Holds A c) (hst : step P c a = some c')
    (hown : ∀ t sh' t', c.threads[a.1]? = some t → P c.shared t a.2 = some (sh', t') → A sh' t')
    (hrely : ∀ t sh' t' (j : Nat) u, c.threads[a.1]? = some t → P c.shared t a.2 = some (sh', t') →
      j ≠ a.1 → c.threads[j]? = some u → A c.shared u → A sh' u) :
    Holds A c' := by
  obtain ⟨t, sh', t', ht, hp, rfl⟩ := step_cases hst
  intro j u hu
  simp only at hu ⊢
  rw [List.getElem?_set] at hu
  split at hu
  · split at hu
    · cases hu; exact hown t sh' _ ht hp
    · cases hu
  · rename_i hne
    exact hrely t sh' t' j u ht hp (fun e => hne e.symm) hu (h j u hu)

/-- The threads after a step are the moved one and old ones. -/
theorem mem_step_threads {P : Program σ π ι} {c c' : Conf σ π} {a : Nat × ι} {u : π}
    (hst : step P c a = some c') (hu : u ∈ c'.threads) :
    u ∈ c.threads ∨ ∃ t, c.threads[a.1]? = some t ∧ P c.shared t a.2 = some (c'.shared, u) := by
  obtain ⟨t, sh', t', ht, hp, rfl⟩ := step_cases hst
  rcases List.mem_or_eq_of_mem_set hu with hu | rfl
  · exact .inl hu
  · exact .inr ⟨t, ht, hp⟩

end ThreadPool
