import Mathlib.Data.List.Basic
import Mathlib.Data.List.Forall2

/-!
# Taking frames off a buffer

A frame reader looks at a buffer and takes one frame off its front, asks for more input, or
fails.  It is exact for a family of frames if it takes precisely these.

## Results

* `Framed` — exactness; `Framed.drains` — a concatenation of frames, followed by the beginning of
  another, is taken apart into these frames, and only into these (`Drains.unique`).
* `exists_cut` — every prefix of a concatenation of frames consists of whole frames and less than
  the next one; `completed` is the length of the whole frames.
* `Framed.step` — on such a prefix the reader takes the first frame, or waits.
-/

set_option autoImplicit false

namespace Framing

variable {α β ε : Type}

/-- The frame taken, and the buffer afterwards. -/
abbrev Parse (α β ε : Type) := List β → Except ε (Option α) × List β

/-- `w` is the beginning of a frame and not the whole of it. -/
def Begins (frame : α → List β → Prop) (w : List β) : Prop := ∃ x f, frame x f ∧ w <+: f ∧ w ≠ f

/-- The reader takes exactly the frames of the family, waits at the beginning of one, and leaves
    the buffer alone unless it takes a frame. -/
structure Framed (parse : Parse α β ε) (frame : α → List β → Prop) : Prop where
  take_iff : ∀ b x r, parse b = (.ok (some x), r) ↔ ∃ f, frame x f ∧ b = f ++ r
  short : ∀ w, Begins frame w → parse w = (.ok none, w)
  idle : parse [] = (.ok none, [])
  waits : ∀ b r, parse b = (.ok none, r) → r = b
  fails : ∀ b e r, parse b = (.error e, r) → r = b

/-- Frames are taken off a buffer until the reader waits for more. -/
inductive Drains (parse : Parse α β ε) : List β → List α → List β → Prop where
  | done {b r : List β} : parse b = (.ok none, r) → Drains parse b [] r
  | next {b b' r : List β} {x : α} {xs : List α} : parse b = (.ok (some x), b') →
      Drains parse b' xs r → Drains parse b (x :: xs) r

theorem Drains.unique {parse : Parse α β ε} {b r r' : List β} {xs xs' : List α}
    (h : Drains parse b xs r) (h' : Drains parse b xs' r') : xs = xs' ∧ r = r' := by
  induction h generalizing xs' with
  | done hp =>
    cases h' with
    | done hp' => rw [hp] at hp'; cases hp'; exact ⟨rfl, rfl⟩
    | next hp' _ => rw [hp] at hp'; cases hp'
  | next hp _ ih =>
    cases h' with
    | done hp' => rw [hp] at hp'; cases hp'
    | next hp' hd =>
      rw [hp] at hp'
      cases hp'
      obtain ⟨rfl, rfl⟩ := ih hd
      exact ⟨rfl, rfl⟩

section Frames
variable {parse : Parse α β ε} {frame : α → List β → Prop} (h : Framed parse frame)
include h

/-- The frames of a concatenation, one after the other. -/
theorem Framed.drains {xs : List α} {fs : List (List β)} (hfs : List.Forall₂ frame xs fs)
    {w : List β} (hw : w = [] ∨ Begins frame w) : Drains parse (fs.flatten ++ w) xs w := by
  induction hfs with
  | nil =>
    rcases hw with rfl | hw
    · exact .done h.idle
    · exact .done (h.short w hw)
  | @cons x f xs fs hf _ ih =>
    refine .next ((h.take_iff _ x (fs.flatten ++ w)).mpr ⟨f, hf, ?_⟩) ih
    rw [List.flatten_cons, List.append_assoc]

end Frames

/-! ## Prefixes of a concatenation -/

/-- What a prefix consists of: whole frames, and less than the next frame. -/
structure Cut (fs : List (List β)) (w : List β) (done rest : List (List β)) (tail : List β) :
    Prop where
  frames : fs = done ++ rest
  whole : w = done.flatten ++ tail
  under : tail <+: rest.flatten
  less : rest = [] ∨ ∃ f rest', rest = f :: rest' ∧ tail <+: f ∧ tail.length < f.length

theorem exists_cut : ∀ {fs : List (List β)} {w : List β}, w <+: fs.flatten →
    ∃ done rest tail, Cut fs w done rest tail
  | [], w, hw => ⟨[], [], w, rfl, rfl, hw, .inl rfl⟩
  | f :: fs, w, hw => by
    rw [List.flatten_cons] at hw
    by_cases hlen : f.length ≤ w.length
    · obtain ⟨v, rfl⟩ : f <+: w := List.prefix_of_prefix_length_le (List.prefix_append ..) hw hlen
      obtain ⟨done, rest, tail, hcut⟩ := exists_cut ((List.prefix_append_right_inj f).mp hw)
      refine ⟨f :: done, rest, tail, ?_, ?_, hcut.under, hcut.less⟩
      · rw [hcut.frames, List.cons_append]
      · rw [hcut.whole, List.flatten_cons, List.append_assoc]
    · refine ⟨[], f :: fs, w, rfl, rfl, by rwa [List.flatten_cons], .inr ⟨f, fs, rfl, ?_, by omega⟩⟩
      exact List.prefix_of_prefix_length_le hw (List.prefix_append ..) (by omega)

/-- The length of the leading frames that lie within the first `n` bytes. -/
def completed : List (List β) → Nat → Nat
  | [], _ => 0
  | f :: fs, n => if f.length ≤ n then f.length + completed fs (n - f.length) else 0

theorem completed_append (done rest : List (List β)) (n : Nat) :
    completed (done ++ rest) (done.flatten.length + n) = done.flatten.length + completed rest n := by
  induction done with
  | nil => simp
  | cons f done ih =>
    have hsub : f.length + done.flatten.length + n - f.length = done.flatten.length + n := by omega
    simp only [List.cons_append, List.flatten_cons, List.length_append, completed]
    rw [if_pos (by omega), hsub, ih, Nat.add_assoc]

theorem Cut.completed {fs done rest : List (List β)} {w tail : List β}
    (h : Cut fs w done rest tail) : completed fs w.length = done.flatten.length := by
  obtain ⟨rfl, rfl, -, hless⟩ := h
  have hzero : Framing.completed rest tail.length = 0 := by
    rcases hless with rfl | ⟨f, rest', rfl, -, hlt⟩
    · rfl
    · simp only [Framing.completed]
      rw [if_neg (by omega)]
  rw [List.length_append, completed_append, hzero, Nat.add_zero]

/-- The reader on a prefix of a concatenation: it takes the first frame, or waits. -/
theorem Framed.step {parse : Parse α β ε} {frame : α → List β → Prop} (h : Framed parse frame)
    {xs : List α} {fs : List (List β)} (hfs : List.Forall₂ frame xs fs) {w : List β}
    (hw : w <+: fs.flatten) :
    (∃ x xs' f fs' v, xs = x :: xs' ∧ fs = f :: fs' ∧ w = f ++ v ∧ v <+: fs'.flatten ∧
      List.Forall₂ frame xs' fs' ∧ parse w = (.ok (some x), v)) ∨
    parse w = (.ok none, w) ∧ completed fs w.length = 0 := by
  obtain ⟨done, rest, tail, hcut⟩ := exists_cut hw
  have hdone := hcut.completed
  obtain ⟨rfl, rfl, hunder, hless⟩ := hcut
  cases done with
  | nil =>
    refine .inr ⟨?_, hdone⟩
    rw [List.nil_append] at hfs
    rw [List.flatten_nil, List.nil_append]
    rcases hless with rfl | ⟨f, rest', rfl, hpre, hlt⟩
    · rw [List.prefix_nil.mp hunder]
      exact h.idle
    · cases hfs with
      | cons hf _ =>
        refine h.short _ ⟨_, f, hf, hpre, ?_⟩
        rintro rfl
        omega
  | cons f done =>
    cases hfs with
    | @cons x _ xs' _ hf hfs' =>
      refine .inl ⟨x, xs', f, done ++ rest, done.flatten ++ tail, rfl, rfl, ?_, ?_, hfs', ?_⟩
      · rw [List.flatten_cons, List.append_assoc]
      · rw [List.flatten_append]
        exact (List.prefix_append_right_inj _).mpr hunder
      · refine (h.take_iff _ _ _).mpr ⟨f, hf, ?_⟩
        rw [List.flatten_cons, List.append_assoc]

end Framing
