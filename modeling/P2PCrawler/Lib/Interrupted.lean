import Mathlib.Data.List.Basic

/-!
# Programs that may stop at any step

A program is a sequence of atomic steps on a state.  A list of fates decides what becomes of each
step: it is carried out, or it fails and the program returns its error at once, or the list ends
and the program stops there.  A step that fails may leave damage behind.

* `Prog` — such programs, a monad.
* `Spec P x Q C` — from a state in `P`, the program ends in `Q`, or is cut short in `C`.
* `Spec.bind`, `Spec.step`, `Spec.forList`, `Spec.foldList` — the rules.
-/

set_option autoImplicit false

namespace Interrupted

variable {δ σ α β : Type}

/-- What becomes of a step, where a failure may do damage `δ`. -/
inductive Fate (δ : Type) where
  | ok
  | fail (damage : δ)
  deriving DecidableEq, Repr

inductive Outcome (δ σ α : Type) where
  | done (result : α) (rest : List (Fate δ)) (state : σ)
  | cut (state : σ)

/-- The state a program leaves. -/
def Outcome.state : Outcome δ σ α → σ
  | .done _ _ s => s
  | .cut s => s

/-- The result of a program that was not cut short. -/
def Outcome.result : Outcome δ σ α → Option α
  | .done a _ _ => some a
  | .cut _ => none

def Prog (δ σ α : Type) : Type := List (Fate δ) → σ → Outcome δ σ α

namespace Prog

def pure (a : α) : Prog δ σ α := fun fates s => .done a fates s

def bind (x : Prog δ σ α) (f : α → Prog δ σ β) : Prog δ σ β := fun fates s =>
  match x fates s with
  | .done a rest s' => f a rest s'
  | .cut s' => .cut s'

instance : Monad (Prog δ σ) where
  pure := pure
  bind := bind

/-- An atomic step: `none` where it cannot be carried out. -/
def step (act : σ → Option (α × σ)) (damaged : δ → σ → σ) : Prog δ σ α := fun fates s =>
  match fates with
  | [] => .cut s
  | .fail d :: _ => .cut (damaged d s)
  | .ok :: rest =>
    match act s with
    | none => .cut s
    | some (a, s') => .done a rest s'

/-- One program after another, for each element of a list. -/
def forList (f : α → Prog δ σ Unit) : List α → Prog δ σ Unit
  | [] => pure ()
  | a :: l => bind (f a) fun _ => forList f l

/-- A loop with an accumulator. -/
def foldList (f : β → α → Prog δ σ β) : List α → β → Prog δ σ β
  | [], b => pure b
  | a :: l, b => bind (f b a) fun b' => foldList f l b'

end Prog

/-! ## Specifications -/

/-- From a state in `P`, a program ends in `Q`, unless it is cut short, in `C`. -/
def Spec (P : σ → Prop) (x : Prog δ σ α) (Q : α → σ → Prop) (C : σ → Prop) : Prop :=
  ∀ fates s, P s →
    match x fates s with
    | .done a _ s' => Q a s'
    | .cut s' => C s'

namespace Spec
variable {P P' : σ → Prop} {Q Q' : α → σ → Prop} {C : σ → Prop}

theorem pure {a : α} (h : ∀ s, P s → Q a s) : Spec P (Prog.pure a : Prog δ σ α) Q C :=
  fun _ s hs => h s hs

theorem weaken {x : Prog δ σ α} (h : Spec P' x Q' C) (hP : ∀ s, P s → P' s)
    (hQ : ∀ a s, Q' a s → Q a s) : Spec P x Q C := by
  intro fates s hs
  have hx := h fates s (hP s hs)
  revert hx
  cases x fates s with
  | done a rest s' => exact hQ a s'
  | cut s' => exact id

theorem weakenCut {C' : σ → Prop} {x : Prog δ σ α} (h : Spec P x Q C') (hC : ∀ s, C' s → C s) :
    Spec P x Q C := by
  intro fates s hs
  have hx := h fates s hs
  revert hx
  cases x fates s with
  | done a rest s' => exact id
  | cut s' => exact hC s'

/-- What is known of a state beforehand may be a witness. -/
theorem witness {ι : Type} {P : ι → σ → Prop} {x : Prog δ σ α} (h : ∀ i, Spec (P i) x Q C) :
    Spec (fun s => ∃ i, P i s) x Q C :=
  fun fates s ⟨i, hi⟩ => h i fates s hi

theorem given {p : Prop} {x : Prog δ σ α} (h : p → Spec P x Q C) :
    Spec (fun s => p ∧ P s) x Q C :=
  fun fates s ⟨hp, hs⟩ => h hp fates s hs

theorem bind {x : Prog δ σ α} {f : α → Prog δ σ β} {R : α → σ → Prop} {Q : β → σ → Prop}
    (hx : Spec P x R C) (hf : ∀ a, Spec (R a) (f a) Q C) : Spec P (x >>= f) Q C := by
  intro fates s hs
  have hx := hx fates s hs
  show match Prog.bind x f fates s with
    | .done a _ s' => Q a s'
    | .cut s' => C s'
  unfold Prog.bind
  revert hx
  cases x fates s with
  | done a rest s' => exact hf a rest s'
  | cut s' => exact id

theorem step {act : σ → Option (α × σ)} {damaged : δ → σ → σ} (hstop : ∀ s, P s → C s)
    (hfail : ∀ s d, P s → C (damaged d s))
    (hact : ∀ s a s', P s → act s = some (a, s') → Q a s') :
    Spec P (Prog.step act damaged) Q C := by
  intro fates s hs
  unfold Prog.step
  cases fates with
  | nil => exact hstop s hs
  | cons fate rest =>
    cases fate with
    | fail d => exact hfail s d hs
    | ok =>
      cases h : act s with
      | none => exact hstop s hs
      | some p => exact hact s p.1 p.2 hs h

/-- A loop, with an invariant on the part of the list it has done. -/
theorem forList {f : α → Prog δ σ Unit} (I : List α → σ → Prop) {l : List α}
    (hf : ∀ before, ∀ a ∈ l, Spec (I before) (f a) (fun _ => I (before ++ [a])) C)
    (before : List α) : Spec (I before) (Prog.forList f l) (fun _ => I (before ++ l)) C := by
  induction l generalizing before with
  | nil => exact pure fun s hs => by rwa [List.append_nil]
  | cons a l ih =>
    have h := ih (fun before b hb => hf before b (List.mem_cons_of_mem a hb)) (before ++ [a])
    rw [List.append_assoc] at h
    exact bind (hf before a List.mem_cons_self) fun _ => h

theorem foldList {f : β → α → Prog δ σ β} (I : List α → β → σ → Prop) {l : List α}
    (hf : ∀ before b, ∀ a ∈ l, Spec (I before b) (f b a) (I (before ++ [a])) C)
    (before : List α) (b : β) :
    Spec (I before b) (Prog.foldList f l b) (I (before ++ l)) C := by
  induction l generalizing before b with
  | nil => exact pure fun s hs => by rwa [List.append_nil]
  | cons a l ih =>
    have h := ih (fun before b c hc => hf before b c (List.mem_cons_of_mem a hc)) (before ++ [a])
    simp only [List.append_assoc] at h
    exact bind (hf before b a List.mem_cons_self) fun b' => h b'

/-- Two specifications of one program. -/
theorem both {C' : σ → Prop} {x : Prog δ σ α} (h : Spec P x Q C) (h' : Spec P' x Q' C') :
    Spec (fun s => P s ∧ P' s) x (fun a s => Q a s ∧ Q' a s) (fun s => C s ∧ C' s) := by
  rintro fates s ⟨hs, hs'⟩
  have hx := h fates s hs
  have hx' := h' fates s hs'
  revert hx hx'
  cases x fates s with
  | done a rest s' => exact fun hq hq' => ⟨hq, hq'⟩
  | cut s' => exact fun hc hc' => ⟨hc, hc'⟩

/-- What a program leaves, however it ends. -/
theorem state {x : Prog δ σ α} (h : Spec P x (fun _ => C) C) {fates : List (Fate δ)} {s : σ}
    (hs : P s) : C (x fates s).state := by
  have hx := h fates s hs
  revert hx
  cases x fates s with
  | done a rest s' => exact id
  | cut s' => exact id

/-- What a program leaves that was not cut short. -/
theorem result {x : Prog δ σ α} (h : Spec P x Q C) {fates : List (Fate δ)} {s : σ} {a : α}
    (hs : P s) (ha : (x fates s).result = some a) : Q a (x fates s).state := by
  have hx := h fates s hs
  revert hx ha
  cases x fates s with
  | done a' rest s' =>
    intro ha hx
    obtain rfl := Option.some.inj ha
    exact hx
  | cut s' => nofun

end Spec

end Interrupted
