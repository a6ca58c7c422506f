import P2PCrawler.Lib.ThreadPool

/-!
# Potentials of a pool

A potential is a measure of the work a pool still has in hand.  Where it falls with every step,
but for what the step takes in from outside, it bounds the length of a run by its intake.  Where,
besides, the pool is never stuck, it can be brought to its end from every state it reaches.

* `total_step_lt` — a potential that falls in the moving thread and the shared state together
  falls in the pool.
* `Reach.settles` — **progress and a falling potential** bring the pool to its goal.
-/

set_option autoImplicit false

namespace ThreadPool

variable {σ π ι : Type}

/-- **Payment.**  What the moving thread and the shared state have spent, less the intake, the
    pool has spent. -/
theorem total_step_lt {P : Program σ π ι} {F : σ → ℤ} {f : π → ℤ} {c c' : Conf σ π} {a : Nat × ι}
    {gain : ℤ} (hst : step P c a = some c')
    (hpay : ∀ t sh' t', c.threads[a.1]? = some t → P c.shared t a.2 = some (sh', t') →
      F sh' + f t' < F c.shared + f t + gain) :
    total F f c' < total F f c + gain := by
  obtain ⟨t, sh', t', ht, hp, rfl⟩ := step_cases hst
  have hlt := hpay t sh' t' ht hp
  have hl := load_set f t' ht
  simp only [total]
  omega

/-- A potential is not negative where none of its parts is. -/
theorem total_nonneg {F : σ → ℤ} {f : π → ℤ} {c : Conf σ π} (hF : 0 ≤ F c.shared)
    (hf : ∀ t ∈ c.threads, 0 ≤ f t) : 0 ≤ total F f c := by
  have hload : 0 ≤ load f c.threads := by
    refine List.sum_nonneg fun x hx => ?_
    obtain ⟨t, ht, rfl⟩ := List.mem_map.mp hx
    exact hf t ht
  unfold total
  omega

/-- A run that goes on from where a run has come to. -/
theorem Reach.trans {P : Program σ π ι} {ok : Conf σ π → Nat × ι → Prop} {c₀ c c' : Conf σ π}
    (hr : Reach P ok c₀ c) (hr' : Reach P ok c c') : Reach P ok c₀ c' := by
  induction hr' with
  | start => exact hr
  | next _ hok hst ih => exact ih.next hok hst

section Settling
variable {P : Program σ π ι} {ok ok' : Conf σ π → Nat × ι → Prop} {c₀ : Conf σ π}
  {F : Conf σ π → ℤ} {goal : Conf σ π → Prop}

theorem Reach.settles_from (himp : ∀ c a, ok' c a → ok c a)
    (hnonneg : ∀ c, Reach P ok c₀ c → 0 ≤ F c)
    (hprogress : ∀ c, Reach P ok c₀ c →
      goal c ∨ ∃ a c', ok' c a ∧ step P c a = some c' ∧ F c' < F c) :
    ∀ (n : Nat) (c : Conf σ π), F c < n → Reach P ok c₀ c → ∃ c', Reach P ok' c c' ∧ goal c'
  | 0, c, hlt, hr => absurd (hnonneg c hr) (by simpa using hlt)
  | n + 1, c, hlt, hr => by
    rcases hprogress c hr with hgoal | ⟨a, c', hok, hst, hfall⟩
    · exact ⟨c, .start, hgoal⟩
    · have hr' : Reach P ok c₀ c' := hr.next (himp c a hok) hst
      obtain ⟨c'', hrest, hgoal⟩ :=
        Reach.settles_from himp hnonneg hprogress n c' (by push_cast at hlt; omega) hr'
      exact ⟨c'', (Reach.start.next hok hst).trans hrest, hgoal⟩

/-- **From every state it reaches, the pool can be brought to its goal** by steps of `ok'`, if one
    of these is always there that lowers the potential. -/
theorem Reach.settles (himp : ∀ c a, ok' c a → ok c a)
    (hnonneg : ∀ c, Reach P ok c₀ c → 0 ≤ F c)
    (hprogress : ∀ c, Reach P ok c₀ c →
      goal c ∨ ∃ a c', ok' c a ∧ step P c a = some c' ∧ F c' < F c)
    {c : Conf σ π} (hr : Reach P ok c₀ c) : ∃ c', Reach P ok' c c' ∧ goal c' :=
  Reach.settles_from himp hnonneg hprogress ((F c).toNat + 1) c
    (by have := hnonneg c hr; push_cast; omega) hr

end Settling

end ThreadPool
