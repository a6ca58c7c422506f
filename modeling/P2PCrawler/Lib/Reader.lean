import Mathlib.Data.List.Basic

/-!
# Readers and the grammars they recognize

A reader takes a value off the front of its input or fails.  A grammar relates values to the
texts that stand for them.  A reader recognizes a grammar if it succeeds exactly on the inputs
that start with a text of the grammar, with the value of that text and the input behind it.

## Results

* `Recognizes.bind`, `Recognizes.map`, `recognizes_take`, … — the grammar of a composed reader,
  from the grammars of its parts.
* `Recognizes.prefix_free` — two texts that start the same input are equal, with their values.
* `Recognizes.finish_ok_iff` — a reader that must use up its input accepts exactly the texts of
  its grammar; `Recognizes.extension_rejected`: no text of the grammar extends another.
-/

set_option autoImplicit false

/-- A reader over symbols `β` with errors `ε`. -/
abbrev Reader (β ε α : Type) := StateT (List β) (Except ε) α

namespace Reader

variable {β ε ε' α γ : Type}

/-- Values and the texts that stand for them. -/
abbrev Grammar (α β : Type) := α → List β → Prop

/-- Fails unless `p` holds. -/
def check (p : Prop) [Decidable p] (e : ε) : Reader β ε Unit :=
  fun b => if p then .ok ((), b) else .error e

/-- A computation that reads nothing. -/
def ofResult (x : Except ε α) : Reader β ε α := fun b => x.map (·, b)

/-- The next `n` symbols. -/
def take (e : ε) (n : Nat) : Reader β ε (List β) := fun b =>
  if n ≤ b.length then .ok (b.take n, b.drop n) else .error e

/-- The same reader with other errors. -/
def mapError (f : ε → ε') (r : Reader β ε α) : Reader β ε' α := fun b => (r b).mapError f

/-- `r` on a whole input: symbols left over are an error. -/
def finish (r : Reader β ε α) (trailing : Nat → ε) (b : List β) : Except ε α :=
  match r b with
  | .error e => .error e
  | .ok (x, []) => .ok x
  | .ok (_, rest) => .error (trailing rest.length)

/-- `r` succeeds exactly on the inputs that start with a text of `G`. -/
def Recognizes (r : Reader β ε α) (G : Grammar α β) : Prop :=
  ∀ b x rest, r b = .ok (x, rest) ↔ ∃ w, G x w ∧ b = w ++ rest

variable {r : Reader β ε α} {G : Grammar α β}

/-! ## Composition -/

theorem Recognizes.congr {G' : Grammar α β} (h : Recognizes r G) (hG : ∀ x w, G x w ↔ G' x w) :
    Recognizes r G' := by
  intro b x rest
  rw [h]
  simp only [hG]

theorem recognizes_pure (a : α) :
    Recognizes (pure a : Reader β ε α) (fun x w => x = a ∧ w = []) := by
  intro b x rest
  show Except.ok (a, b) = .ok (x, rest) ↔ _
  constructor
  · intro h
    cases h
    exact ⟨[], ⟨rfl, rfl⟩, rfl⟩
  · rintro ⟨w, ⟨rfl, rfl⟩, rfl⟩
    rfl

theorem recognizes_ofResult (e : Except ε α) :
    Recognizes (ofResult e : Reader β ε α) (fun x w => e = .ok x ∧ w = []) := by
  intro b x rest
  unfold ofResult
  cases e with
  | error e =>
    constructor
    · intro h; cases h
    · rintro ⟨w, ⟨h, -⟩, -⟩; cases h
  | ok a =>
    constructor
    · intro h; cases h; exact ⟨[], ⟨rfl, rfl⟩, rfl⟩
    · rintro ⟨w, ⟨h, rfl⟩, rfl⟩; cases h; rfl

theorem recognizes_check (p : Prop) [Decidable p] (e : ε) :
    Recognizes (check p e : Reader β ε Unit) (fun _ w => p ∧ w = []) := by
  intro b x rest
  unfold check
  constructor
  · intro h
    split at h
    · rename_i hp; cases h; exact ⟨[], ⟨hp, rfl⟩, rfl⟩
    · cases h
  · rintro ⟨w, ⟨hp, rfl⟩, rfl⟩
    exact if_pos hp

theorem recognizes_take (e : ε) (n : Nat) :
    Recognizes (take e n : Reader β ε (List β)) (fun x w => w = x ∧ x.length = n) := by
  intro b x rest
  unfold take
  constructor
  · intro h
    split at h
    · rename_i hn
      cases h
      exact ⟨b.take n, ⟨rfl, List.length_take_of_le hn⟩, (List.take_append_drop n b).symm⟩
    · cases h
  · rintro ⟨w, ⟨rfl, rfl⟩, rfl⟩
    simp

theorem Recognizes.mapError (h : Recognizes r G) (f : ε → ε') : Recognizes (r.mapError f) G := by
  intro b x rest
  rw [← h]
  unfold Reader.mapError
  cases r b <;> simp [Except.mapError]

theorem bind_ok_iff {σ : Type} {r : StateT σ (Except ε) α} {f : α → StateT σ (Except ε) γ}
    {b rest : σ} {y : γ} :
    (r >>= f) b = .ok (y, rest) ↔ ∃ x mid, r b = .ok (x, mid) ∧ f x mid = .ok (y, rest) := by
  show (r b >>= fun p => f p.1 p.2) = _ ↔ _
  cases h : r b with
  | error e => simp [bind, Except.bind]
  | ok p =>
    obtain ⟨x, mid⟩ := p
    constructor
    · intro hf; exact ⟨x, mid, rfl, hf⟩
    · rintro ⟨_, _, heq, hf⟩; cases heq; exact hf

/-- **Sequence.**  The text of a composition is the text of its first part followed by a text of
    the second. -/
theorem Recognizes.bind (h : Recognizes r G) {f : α → Reader β ε γ} {F : α → Grammar γ β}
    (hf : ∀ x w, G x w → Recognizes (f x) (F x)) :
    Recognizes (r >>= f) (fun y w => ∃ x u v, G x u ∧ F x y v ∧ w = u ++ v) := by
  intro b y rest
  rw [bind_ok_iff]
  constructor
  · rintro ⟨x, mid, hr, hfx⟩
    obtain ⟨u, hu, rfl⟩ := (h _ _ _).mp hr
    obtain ⟨v, hv, rfl⟩ := (hf x u hu _ _ _).mp hfx
    exact ⟨u ++ v, ⟨x, u, v, hu, hv, rfl⟩, (List.append_assoc ..).symm⟩
  · rintro ⟨w, ⟨x, u, v, hu, hv, rfl⟩, rfl⟩
    refine ⟨x, v ++ rest, ?_, ?_⟩
    · exact (h _ _ _).mpr ⟨u, hu, List.append_assoc ..⟩
    · exact (hf x u hu _ _ _).mpr ⟨v, hv, rfl⟩

theorem Recognizes.map (h : Recognizes r G) (f : α → γ) :
    Recognizes (f <$> r) (fun y w => ∃ x, G x w ∧ y = f x) := by
  have hb := h.bind (f := fun x => pure (f x)) fun x _ _ => recognizes_pure (f x)
  refine hb.congr fun y w => ?_
  constructor
  · rintro ⟨x, u, v, hu, ⟨rfl, rfl⟩, rfl⟩
    exact ⟨x, by simpa using hu, rfl⟩
  · rintro ⟨x, hx, rfl⟩
    exact ⟨x, w, [], hx, ⟨rfl, rfl⟩, (List.append_nil w).symm⟩

/-- A check of the value just read. -/
theorem Recognizes.filter (h : Recognizes r G) (p : α → Prop) [DecidablePred p] (e : ε) :
    Recognizes (r >>= fun x => check (p x) e >>= fun _ => pure x) (fun x w => G x w ∧ p x) := by
  have hb := h.bind (f := fun x => check (p x) e >>= fun _ => pure x) fun x _ _ =>
    (recognizes_check (p x) e).bind fun _ _ _ => recognizes_pure x
  refine hb.congr fun y w => ?_
  constructor
  · rintro ⟨x, u, v, hu, ⟨_, _, _, ⟨hp, rfl⟩, ⟨rfl, rfl⟩, rfl⟩, rfl⟩
    exact ⟨by simpa using hu, hp⟩
  · rintro ⟨hw, hp⟩
    exact ⟨y, w, [], hw, ⟨(), [], [], ⟨hp, rfl⟩, ⟨rfl, rfl⟩, rfl⟩, (List.append_nil w).symm⟩

/-! ## Lists of items -/

/-- The texts of the items, one behind the other. -/
inductive Many (G : Grammar α β) : Grammar (List α) β where
  | nil : Many G [] []
  | cons {x : α} {xs : List α} {u v : List β} :
      G x u → Many G xs v → Many G (x :: xs) (u ++ v)

theorem many_map_iff {δ : Type} {text : δ → List β} {value : δ → α} {ok : δ → Prop}
    (hG : ∀ x w, G x w ↔ ∃ d, ok d ∧ x = value d ∧ w = text d) (xs : List α) (w : List β) :
    Many G xs w ↔ ∃ ds : List δ, (∀ d ∈ ds, ok d) ∧ xs = ds.map value ∧ w = ds.flatMap text := by
  constructor
  · intro h
    induction h with
    | nil => exact ⟨[], by simp, rfl, rfl⟩
    | cons hx _ ih =>
      obtain ⟨d, hd, rfl, rfl⟩ := (hG _ _).mp hx
      obtain ⟨ds, hds, rfl, rfl⟩ := ih
      exact ⟨d :: ds, by simpa using ⟨hd, hds⟩, rfl, rfl⟩
  · rintro ⟨ds, hds, rfl, rfl⟩
    induction ds with
    | nil => exact .nil
    | cons d ds ih =>
      have hd := hds d (List.mem_cons_self ..)
      have hrest := ih fun d' h' => hds d' (List.mem_cons_of_mem _ h')
      exact .cons ((hG _ _).mpr ⟨d, hd, rfl, rfl⟩) hrest

/-! ## Determinism -/

/-- **Prefix freedom.**  Two texts that start the same input are equal, with their values. -/
theorem Recognizes.prefix_free (h : Recognizes r G) {x y : α} {u v s t : List β} (hx : G x u)
    (hy : G y v) (heq : u ++ s = v ++ t) : x = y ∧ u = v := by
  have h₁ : r (u ++ s) = .ok (x, s) := (h _ _ _).mpr ⟨u, hx, rfl⟩
  have h₂ : r (u ++ s) = .ok (y, t) := (h _ _ _).mpr ⟨v, hy, heq⟩
  rw [h₁] at h₂
  cases h₂
  exact ⟨rfl, List.append_cancel_right heq⟩

/-- **Whole inputs.**  A reader that must use up its input accepts exactly the texts of its
    grammar. -/
theorem Recognizes.finish_ok_iff (h : Recognizes r G) (trailing : Nat → ε) (b : List β) (x : α) :
    r.finish trailing b = .ok x ↔ G x b := by
  have hb : G x b ↔ r b = .ok (x, []) := by
    rw [h]
    simp
  rw [hb]
  unfold finish
  split
  · rename_i e he; simp [he]
  · rename_i y he; simp [he]
  · rename_i y rest hne he
    rw [he]
    constructor
    · intro h; cases h
    · intro h; cases h; exact (hne rfl).elim

/-- No text of the grammar extends another. -/
theorem Recognizes.extension_rejected (h : Recognizes r G) {x y : α} {u s : List β} (hx : G x u)
    (hy : G y (u ++ s)) : s = [] := by
  have heq : u ++ s = (u ++ s) ++ [] := (List.append_nil _).symm
  obtain ⟨-, hu⟩ := h.prefix_free hx hy heq
  simpa using hu.symm

end Reader
