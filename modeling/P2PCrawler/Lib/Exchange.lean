import P2PCrawler.Lib.Reader

/-!
# Exchanges over a connection

A program at one end of a connection writes messages and takes symbols off what the other end
sends.  A dialogue relates the results of such a program to the messages it writes and to the
symbols it takes, in their order.  A program follows a dialogue if it succeeds exactly along it,
and then leaves all other symbols unread.

## Results

* `Follows.bind`, `follows_write`, `follows_read`, … — the dialogue of a composed program, from
  the dialogues of its parts.
* `Follows.unique` — two dialogues on the same symbols are equal.
* `Follows.fails`, `Follows.cut_short` — **without a whole dialogue at its front, a connection is
  an error.**
-/

set_option autoImplicit false

namespace Exchange

/-- One end of a connection: the symbols that arrive and are not read yet, the messages written,
    and how many writes the connection still takes. -/
structure Channel (β : Type) where
  unread : List β
  sent : List (List β) := []
  writable : Nat
  deriving DecidableEq, Repr

end Exchange

/-- A program over symbols `β` with errors `ε`. -/
abbrev Exchange (β ε α : Type) := StateT (Exchange.Channel β) (Except ε) α

namespace Exchange
open Reader

variable {β ε α γ : Type}

/-- Results, with the messages written and the symbols taken on the way. -/
abbrev Dialogue (α β : Type) := α → List (List β) → List β → Prop

/-- Writes a message, or fails where the connection takes no more. -/
def write (broken : ε) (message : List β) : Exchange β ε Unit := fun c =>
  match c.writable with
  | 0 => .error broken
  | n + 1 => .ok ((), { c with sent := c.sent ++ [message], writable := n })

/-- Reads off the symbols that arrive. -/
def read (r : Reader β ε α) : Exchange β ε α := fun c =>
  (r c.unread).map fun p => (p.1, { c with unread := p.2 })

/-- A computation that needs no connection. -/
def ofResult (x : Except ε α) : Exchange β ε α := fun c => x.map (·, c)

/-- Fails unless `p` holds. -/
def check (p : Prop) [Decidable p] (e : ε) : Exchange β ε Unit :=
  ofResult (if p then .ok () else .error e)

/-- `x` succeeds exactly along the dialogues of `D`. -/
def Follows (x : Exchange β ε α) (D : Dialogue α β) : Prop :=
  ∀ c a c', x c = .ok (a, c') ↔ ∃ out w, D a out w ∧ c.unread = w ++ c'.unread ∧
    c'.sent = c.sent ++ out ∧ c.writable = out.length + c'.writable

variable {x : Exchange β ε α} {D : Dialogue α β}

/-! ## Composition -/

theorem Follows.congr {D' : Dialogue α β} (h : Follows x D)
    (hD : ∀ a out w, D a out w ↔ D' a out w) : Follows x D' := by
  intro c a c'
  rw [h]
  simp only [hD]

theorem follows_ofResult (e : Except ε α) :
    Follows (ofResult e : Exchange β ε α) (fun a out w => e = .ok a ∧ out = [] ∧ w = []) := by
  intro c a c'
  unfold ofResult
  constructor
  · intro h
    cases e with
    | error e => cases h
    | ok a' =>
      cases h
      exact ⟨[], [], ⟨rfl, rfl, rfl⟩, rfl, (List.append_nil _).symm, (Nat.zero_add _).symm⟩
  · rintro ⟨out, w, ⟨rfl, rfl, rfl⟩, hunread, hsent, hwritable⟩
    obtain ⟨unread, sent, writable⟩ := c'
    simp only [List.nil_append, List.append_nil, List.length_nil, Nat.zero_add] at hunread hsent hwritable
    subst hunread hsent hwritable
    rfl

theorem follows_pure (a : α) :
    Follows (pure a : Exchange β ε α) (fun b out w => b = a ∧ out = [] ∧ w = []) := by
  refine (follows_ofResult (.ok a)).congr fun b out w => ?_
  rw [Except.ok.injEq]
  exact and_congr_left fun _ => eq_comm

theorem follows_check (p : Prop) [Decidable p] (e : ε) :
    Follows (check p e : Exchange β ε Unit) (fun _ out w => p ∧ out = [] ∧ w = []) := by
  refine (follows_ofResult _).congr fun a out w => and_congr_left fun _ => ?_
  split
  · rename_i hp
    exact ⟨fun _ => hp, fun _ => rfl⟩
  · rename_i hp
    exact ⟨nofun, fun h => absurd h hp⟩

theorem follows_write (broken : ε) (message : List β) :
    Follows (write broken message) (fun _ out w => out = [message] ∧ w = []) := by
  intro c a c'
  unfold write
  constructor
  · intro h
    split at h
    · cases h
    · rename_i n hn
      cases h
      exact ⟨[message], [], ⟨rfl, rfl⟩, rfl, rfl, by rw [hn, List.length_singleton, Nat.add_comm]⟩
  · rintro ⟨out, w, ⟨rfl, rfl⟩, hunread, hsent, hwritable⟩
    obtain ⟨unread, sent, writable⟩ := c'
    simp only [List.nil_append, List.length_singleton] at hunread hsent hwritable
    rw [hwritable, Nat.add_comm 1]
    subst hsent
    simp only [hunread]

theorem follows_read {r : Reader β ε α} {G : Grammar α β} (h : Recognizes r G) :
    Follows (read r) (fun a out w => G a w ∧ out = []) := by
  intro c a c'
  unfold read
  constructor
  · intro hr
    cases hc : r c.unread with
    | error e =>
      rw [hc] at hr
      cases hr
    | ok p =>
      rw [hc] at hr
      cases hr
      obtain ⟨w, hw, heq⟩ := (h _ _ _).mp hc
      exact ⟨[], w, ⟨hw, rfl⟩, heq, (List.append_nil _).symm, (Nat.zero_add _).symm⟩
  · rintro ⟨out, w, ⟨hw, rfl⟩, hunread, hsent, hwritable⟩
    obtain ⟨unread, sent, writable⟩ := c'
    simp only [List.append_nil, List.length_nil, Nat.zero_add] at hunread hsent hwritable
    subst hsent hwritable
    rw [(h _ _ _).mpr ⟨w, hw, hunread⟩]
    rfl

/-- **Sequence.**  The dialogue of a composition is that of its first part followed by one of the
    second. -/
theorem Follows.bind (h : Follows x D) {f : α → Exchange β ε γ} {F : α → Dialogue γ β}
    (hf : ∀ a, Follows (f a) (F a)) :
    Follows (x >>= f) (fun b out w => ∃ a out₁ w₁ out₂ w₂, D a out₁ w₁ ∧ F a b out₂ w₂ ∧
      out = out₁ ++ out₂ ∧ w = w₁ ++ w₂) := by
  intro c b c''
  rw [bind_ok_iff]
  constructor
  · rintro ⟨a, c', hx, hfx⟩
    obtain ⟨out₁, w₁, hD, hunread, hsent, hwritable⟩ := (h _ _ _).mp hx
    obtain ⟨out₂, w₂, hF, hunread', hsent', hwritable'⟩ := (hf a _ _ _).mp hfx
    refine ⟨out₁ ++ out₂, w₁ ++ w₂, ⟨a, out₁, w₁, out₂, w₂, hD, hF, rfl, rfl⟩, ?_, ?_, ?_⟩
    · rw [hunread, hunread', List.append_assoc]
    · rw [hsent', hsent, List.append_assoc]
    · rw [hwritable, hwritable', List.length_append, Nat.add_assoc]
  · rintro ⟨_, _, ⟨a, out₁, w₁, out₂, w₂, hD, hF, rfl, rfl⟩, hunread, hsent, hwritable⟩
    -- the channel between the two parts
    refine ⟨a, ⟨w₂ ++ c''.unread, c.sent ++ out₁, out₂.length + c''.writable⟩, ?_, ?_⟩
    · refine (h _ _ _).mpr ⟨out₁, w₁, hD, ?_, rfl, ?_⟩
      · rw [hunread, List.append_assoc]
      · rw [hwritable, List.length_append, Nat.add_assoc]
    · refine (hf a _ _ _).mpr ⟨out₂, w₂, hF, rfl, ?_, rfl⟩
      rw [hsent, List.append_assoc]

theorem Follows.check_bind (p : Prop) [Decidable p] (e : ε) (h : Follows x D) :
    Follows (check p e >>= fun _ => x) (fun a out w => p ∧ D a out w) := by
  refine ((follows_check p e).bind fun _ => h).congr fun a out w => ?_
  constructor
  · rintro ⟨_, _, _, _, _, ⟨hp, rfl, rfl⟩, hD, rfl, rfl⟩
    exact ⟨hp, hD⟩
  · rintro ⟨hp, hD⟩
    exact ⟨(), [], [], out, w, ⟨hp, rfl, rfl⟩, hD, rfl, rfl⟩

theorem Follows.write_bind (broken : ε) (message : List β) (h : Follows x D) :
    Follows (write broken message >>= fun _ => x)
      (fun a out w => ∃ more, D a more w ∧ out = message :: more) := by
  refine ((follows_write broken message).bind fun _ => h).congr fun a out w => ?_
  constructor
  · rintro ⟨_, _, _, more, _, ⟨rfl, rfl⟩, hD, rfl, rfl⟩
    exact ⟨more, hD, rfl⟩
  · rintro ⟨more, hD, rfl⟩
    exact ⟨(), [message], [], more, w, ⟨rfl, rfl⟩, hD, rfl, rfl⟩

theorem Follows.read_bind {r : Reader β ε α} {G : Grammar α β} (h : Recognizes r G)
    {f : α → Exchange β ε γ} {F : α → Dialogue γ β} (hf : ∀ a, Follows (f a) (F a)) :
    Follows (read r >>= f) (fun b out w => ∃ a u v, G a u ∧ F a b out v ∧ w = u ++ v) := by
  refine ((follows_read h).bind hf).congr fun b out w => ?_
  constructor
  · rintro ⟨a, _, u, _, v, ⟨hG, rfl⟩, hF, rfl, rfl⟩
    exact ⟨a, u, v, hG, hF, rfl⟩
  · rintro ⟨a, u, v, hG, hF, rfl⟩
    exact ⟨a, [], u, out, v, ⟨hG, rfl⟩, hF, rfl, rfl⟩

/-! ## Determinism -/

theorem Follows.unique (h : Follows x D) {a b : α} {out out' : List (List β)} {w w' s t : List β}
    (hD : D a out w) (hD' : D b out' w') (heq : w ++ s = w' ++ t) :
    a = b ∧ out = out' ∧ w = w' := by
  have h₁ : x ⟨w ++ s, [], out.length + out'.length⟩ = .ok (a, ⟨s, out, out'.length⟩) :=
    (h _ _ _).mpr ⟨out, w, hD, rfl, rfl, rfl⟩
  have h₂ : x ⟨w ++ s, [], out.length + out'.length⟩ = .ok (b, ⟨t, out', out.length⟩) :=
    (h _ _ _).mpr ⟨out', w', hD', heq, rfl, Nat.add_comm _ _⟩
  rw [h₁] at h₂
  cases h₂
  exact ⟨rfl, rfl, List.append_cancel_right heq⟩

/-- Where no dialogue stands at the front, the program fails. -/
theorem Follows.fails (h : Follows x D) {c : Channel β}
    (hno : ∀ a out w rest, D a out w → c.unread ≠ w ++ rest) : ∃ e, x c = .error e := by
  cases hx : x c with
  | error e => exact ⟨e, rfl⟩
  | ok p =>
    obtain ⟨out, w, hD, hunread, -⟩ := (h c p.1 p.2).mp hx
    exact absurd hunread (hno _ _ _ _ hD)

/-- **What ends inside a dialogue.**  No dialogue stands at its front. -/
theorem Follows.cut_short (h : Follows x D) {a b : α} {out out' : List (List β)}
    {w w' tail rest : List β} (hD : D a out (w ++ tail)) (hne : tail ≠ []) (hD' : D b out' w') :
    w ≠ w' ++ rest := by
  rintro rfl
  obtain ⟨-, -, hw⟩ := h.unique (s := []) (t := rest ++ tail) hD hD' (by simp)
  have hnil : rest ++ tail = [] := by simpa using hw
  exact hne (List.append_eq_nil_iff.mp hnil).2

end Exchange
