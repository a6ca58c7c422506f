import P2PCrawler.Lib.ThreadPool

/-!
# A pool and its outside

Some steps of a pool act on something outside of it: a disk, a peer.  What they do there is a
relation, for the outside also fails and goes on by itself; what the pool gets to know of it is in
the input of the step.

* `Drive` — runs of a pool together with its outside.
* `Drive.invariant` — what every step keeps of the pool, of its history and of the outside, holds
  along a run.
* `Reach.drive` — a run that need not change the outside.
-/

set_option autoImplicit false

namespace ThreadPool

variable {σ π ι ω γ : Type}

/-- Runs of a pool from `c₀`, with the outside from `w₀`. -/
inductive Drive (P : Program σ π ι) (ok : Conf σ π → Nat × ι → Prop)
    (acts : Conf σ π → Nat × ι → ω → ω → Prop) (c₀ : Conf σ π) (w₀ : ω) : Conf σ π → ω → Prop where
  | start : Drive P ok acts c₀ w₀ c₀ w₀
  | next {c c' : Conf σ π} {w w' : ω} {a : Nat × ι} :
      Drive P ok acts c₀ w₀ c w → ok c a → step P c a = some c' → acts c a w w' →
      Drive P ok acts c₀ w₀ c' w'

section Drive
variable {P : Program σ π ι} {ok : Conf σ π → Nat × ι → Prop}
  {acts : Conf σ π → Nat × ι → ω → ω → Prop} {record : γ → Conf σ π → Nat × ι → Conf σ π → γ}
  {c₀ c c' : Conf σ π} {w₀ w w' : ω} {g₀ : γ}

theorem Drive.reach (h : Drive P ok acts c₀ w₀ c w) : Reach P ok c₀ c := by
  induction h with
  | start => exact .start
  | next _ hok hst _ ih => exact ih.next hok hst

/-- The pool with a history, and its outside. -/
theorem Drive.invariant {I : Conf σ π → γ → ω → Prop} (h₀ : I c₀ g₀ w₀)
    (hs : ∀ c g w a c' w', Chronicle P ok record c₀ g₀ c g → I c g w → ok c a →
      step P c a = some c' → acts c a w w' → I c' (record g c a c') w')
    (h : Drive P ok acts c₀ w₀ c w) : ∃ g, Chronicle P ok record c₀ g₀ c g ∧ I c g w := by
  induction h with
  | start => exact ⟨g₀, .start, h₀⟩
  | next _ hok hst hacts ih =>
    obtain ⟨g, hg, hi⟩ := ih
    exact ⟨_, hg.next hok hst, hs _ _ _ _ _ _ hg hi hok hst hacts⟩

theorem Drive.mono {ok' : Conf σ π → Nat × ι → Prop} (himp : ∀ c a, ok c a → ok' c a)
    (h : Drive P ok acts c₀ w₀ c w) : Drive P ok' acts c₀ w₀ c w := by
  induction h with
  | start => exact .start
  | next _ hok hst hacts ih => exact ih.next (himp _ _ hok) hst hacts

/-- Where a step may leave the outside as it is, a run may. -/
theorem Reach.drive (hr : Reach P ok c₀ c)
    (hstill : ∀ c a c', ok c a → step P c a = some c' → acts c a w w) :
    Drive P ok acts c₀ w c w := by
  induction hr with
  | start => exact .start
  | next _ hok hst ih => exact ih.next hok hst (hstill _ _ _ hok hst)

end Drive

end ThreadPool
