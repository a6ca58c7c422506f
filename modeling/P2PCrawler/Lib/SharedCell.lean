import Mathlib.Data.List.Induction

/-!
# A shared resource that is made when it is needed

One cell holds the resource that every caller uses.  A caller is handed what is in the cell, or
makes a new resource where the cell is empty.  Whoever finds a resource broken drops it: the cell
is emptied if it still holds that one.  Resources are told apart by identity, and a new one has
never been made before.

* `Event`, `content` — what happens to the cell, and what it then holds.
* `Legal` — the histories of a cell that is used in this way.

## Results

* `Legal.not_given_after_drop` — what has been dropped is never given out again.
* `Legal.made_between` — after a failed attempt nothing is handed out until something is made.
-/

set_option autoImplicit false

namespace SharedCell

variable {α : Type}

/-- What happens to a cell. -/
inductive Event (α : Type) where
  | made (r : α)
  | notMade
  | handed (r : α)
  | dropped (r : α)
  deriving DecidableEq, Repr

/-- The resource that an event is about. -/
def Event.resource : Event α → Option α
  | .made r | .handed r | .dropped r => some r
  | .notMade => none

/-- The resource that a caller leaves with. -/
def Event.gives : Event α → Option α
  | .made r | .handed r => some r
  | .notMade | .dropped _ => none

variable [DecidableEq α]

def Event.apply (cell : Option α) : Event α → Option α
  | .made r => some r
  | .notMade | .handed _ => cell
  | .dropped r => if cell = some r then none else cell

/-- What the cell holds after a history. -/
def content (h : List (Event α)) : Option α := h.foldl Event.apply none

/-- What may happen next: an attempt to make a resource where there is none, the handing out of
    what is there, the dropping of what was made. -/
def Allowed (h : List (Event α)) : Event α → Prop
  | .made r => content h = none ∧ ∀ e ∈ h, e.resource ≠ some r
  | .notMade => content h = none
  | .handed r => content h = some r
  | .dropped r => .made r ∈ h

/-- A history of a cell. -/
inductive Legal : List (Event α) → Prop where
  | nil : Legal []
  | next {h : List (Event α)} {e : Event α} (legal : Legal h) (allowed : Allowed h e) :
      Legal (h ++ [e])

@[simp] theorem content_concat (h : List (Event α)) (e : Event α) :
    content (h ++ [e]) = e.apply (content h) := by
  unfold content
  rw [List.foldl_append]
  rfl

theorem apply_dropped (cell : Option α) (r : α) :
    (Event.dropped r).apply cell = if cell = some r then none else cell := rfl

theorem Legal.last {h : List (Event α)} {e : Event α} (hl : Legal (h ++ [e])) :
    Legal h ∧ Allowed h e := by
  generalize hh : h ++ [e] = w at hl
  cases hl with
  | nil => exact absurd hh (by simp)
  | next legal allowed =>
    obtain ⟨rfl, he⟩ := List.append_inj' hh rfl
    obtain rfl := List.singleton_inj.mp he
    exact ⟨legal, allowed⟩

/-- The beginning of a history is one. -/
theorem Legal.of_append {h : List (Event α)} : ∀ {h' : List (Event α)}, Legal (h ++ h') → Legal h := by
  intro h'
  induction h' using List.reverseRecOn with
  | nil =>
    intro hl
    rwa [List.append_nil] at hl
  | append_singleton h' e ih =>
    intro hl
    rw [← List.append_assoc] at hl
    exact ih hl.last.1

/-- What the cell holds was made. -/
theorem made_of_content {h : List (Event α)} {r : α} (hr : content h = some r) : .made r ∈ h := by
  induction h using List.reverseRecOn with
  | nil => cases hr
  | append_singleton h e ih =>
    rw [content_concat] at hr
    rw [List.mem_append]
    cases e with
    | made r' =>
      obtain rfl := Option.some.inj hr
      exact .inr (List.mem_singleton_self _)
    | notMade | handed r' => exact .inl (ih hr)
    | dropped r' =>
      rw [apply_dropped] at hr
      split at hr
      · cases hr
      · exact .inl (ih hr)

/-- What has been dropped is not in the cell. -/
theorem Legal.not_content_of_drop {h : List (Event α)} (hl : Legal h) {r : α} (hd : .dropped r ∈ h) :
    content h ≠ some r := by
  induction hl with
  | nil => exact absurd hd List.not_mem_nil
  | @next h e legal allowed ih =>
    rw [content_concat]
    rw [List.mem_append, List.mem_singleton] at hd
    cases e with
    | made r' =>
      have hd := hd.resolve_right nofun
      intro hr
      obtain rfl := Option.some.inj hr
      exact allowed.2 _ hd rfl
    | notMade | handed r' => exact ih (hd.resolve_right nofun)
    | dropped r' =>
      rw [apply_dropped]
      split
      · exact nofun
      · rename_i hne
        rcases hd with hd | hd
        · exact ih hd
        · cases hd
          exact hne

/-- **Dropped for good.**  What has been dropped is never given out again. -/
theorem Legal.not_given_after_drop {before after : List (Event α)} {r : α}
    (hl : Legal (before ++ .dropped r :: after)) : ∀ e ∈ after, e.gives ≠ some r := by
  intro e he hgives
  obtain ⟨u, v, rfl⟩ := List.append_of_mem he
  have hsplit : before ++ .dropped r :: (u ++ e :: v) = ((before ++ .dropped r :: u) ++ [e]) ++ v := by
    simp
  rw [hsplit] at hl
  obtain ⟨hlegal, hcases⟩ := hl.of_append.last
  have hdropped : .dropped r ∈ before ++ .dropped r :: u := by simp
  cases e with
  | made r' =>
    obtain rfl := Option.some.inj hgives
    exact hcases.2 _ hdropped rfl
  | handed r' =>
    obtain rfl := Option.some.inj hgives
    exact hlegal.not_content_of_drop hdropped hcases
  | notMade | dropped r' => cases hgives

/-- An empty cell stays empty until something is made. -/
theorem content_append_of_not_made {h : List (Event α)} (hempty : content h = none) :
    ∀ {u : List (Event α)}, (∀ r, .made r ∉ u) → content (h ++ u) = none := by
  intro u
  induction u using List.reverseRecOn with
  | nil =>
    intro _
    rwa [List.append_nil]
  | append_singleton u e ih =>
    intro hu
    have hrest := ih fun r hr => hu r (List.mem_append_left _ hr)
    rw [← List.append_assoc, content_concat, hrest]
    cases e with
    | made r => exact absurd (List.mem_append_right _ (List.mem_singleton_self _)) (hu r)
    | notMade | handed r => rfl
    | dropped r => rw [apply_dropped, if_neg nofun]

/-- **A failure is not kept.**  After a failed attempt nothing is handed out until something has
    been made. -/
theorem Legal.made_between {before u v : List (Event α)} {r : α}
    (hl : Legal (before ++ .notMade :: (u ++ .handed r :: v))) : ∃ r', .made r' ∈ u := by
  have hsplit : before ++ .notMade :: (u ++ .handed r :: v) =
      ((before ++ [.notMade]) ++ u ++ [.handed r]) ++ v := by
    simp
  rw [hsplit] at hl
  obtain ⟨hlegal, hthere⟩ := hl.of_append.last
  have hempty : content (before ++ [.notMade]) = none := by
    rw [content_concat]
    exact hlegal.of_append.last.2
  have hthere : content (before ++ [.notMade] ++ u) = some r := hthere
  by_contra hnone
  rw [content_append_of_not_made hempty fun r' hr' => hnone ⟨r', hr'⟩] at hthere
  cases hthere

end SharedCell
