import P2PCrawler.Lib.Interrupted
import Mathlib.Data.List.Infix

/-!
# A file system

A tree of directories and files, and the calls that change it.  A tree is well formed by its type:
what exists lies in a directory that exists.

* `FileTree.view` — what a path names, which is all that a theorem speaks of.
* `view_put`, `view_remove`, `view_rename` — the calls, as changes of the view.
* `createDir`, `createNew`, `append`, `read`, `rename` — the calls as atomic steps of an
  interrupted program.  A write that fails may have written anything; any other call that fails has
  no effect.
-/

set_option autoImplicit false

namespace FileSystem

open Interrupted

variable {β : Type}

/-- A path, from the root down. -/
abbrev Path := List String

inductive FileTree (β : Type) where
  | file (content : List β)
  | dir (entries : List (String × FileTree β))

/-- What a path names. -/
inductive View (β : Type) where
  | file (content : List β)
  | dir
  deriving DecidableEq, Repr

/-! ## Directories -/

section Entries
variable {τ : Type}

def erase (name : String) (es : List (String × τ)) : List (String × τ) :=
  es.filter (·.1 ≠ name)

def assign (name : String) (t : τ) (es : List (String × τ)) : List (String × τ) :=
  (name, t) :: erase name es

theorem lookup_entry (name : String) (e : String × τ) (es : List (String × τ)) :
    (e :: es).lookup name = if name = e.1 then some e.2 else es.lookup name := by
  rw [List.lookup_cons]
  by_cases h : name = e.1
  · rw [if_pos h, beq_iff_eq.mpr h]
  · rw [if_neg h, beq_eq_false_iff_ne.mpr h]

theorem lookup_erase (name name' : String) (es : List (String × τ)) :
    (erase name es).lookup name' = if name' = name then none else es.lookup name' := by
  induction es with
  | nil => simp [erase]
  | cons e es ih =>
    unfold erase at ih ⊢
    by_cases hn : e.1 = name
    · rw [List.filter_cons_of_neg (by simpa using hn), ih, lookup_entry, hn]
      split <;> rfl
    · rw [List.filter_cons_of_pos (by simpa using hn), lookup_entry, lookup_entry, ih]
      by_cases h : name' = e.1
      · rw [if_pos h, if_pos h, if_neg (h ▸ hn)]
      · rw [if_neg h, if_neg h]

theorem lookup_assign (name name' : String) (t : τ) (es : List (String × τ)) :
    (assign name t es).lookup name' = if name' = name then some t else es.lookup name' := by
  unfold assign
  rw [lookup_entry, lookup_erase]
  by_cases h : name' = name
  · rw [if_pos h, if_pos h]
  · rw [if_neg h, if_neg h, if_neg h]

end Entries

namespace FileTree

/-- The subtree at a path. -/
def get : Path → FileTree β → Option (FileTree β)
  | [], t => some t
  | _ :: _, .file _ => none
  | name :: rest, .dir es => (es.lookup name).bind (get rest)

/-- What the root of a tree is. -/
def kind : FileTree β → View β
  | .file b => .file b
  | .dir _ => .dir

def view (t : FileTree β) (p : Path) : Option (View β) := (t.get p).map kind

/-- Change the entry of a path in its parent, which must be a directory. -/
def change (f : String → List (String × FileTree β) → List (String × FileTree β)) :
    Path → FileTree β → Option (FileTree β)
  | [], _ => none
  | _ :: _, .file _ => none
  | [name], .dir es => some (.dir (f name es))
  | name :: next :: rest, .dir es => do
    let below ← es.lookup name
    let below ← change f (next :: rest) below
    return .dir (assign name below es)

def put (m : FileTree β) (p : Path) (t : FileTree β) : Option (FileTree β) := change (assign · m) p t

def remove (p : Path) (t : FileTree β) : Option (FileTree β) := change erase p t

/-! ## The view after a change -/

theorem get_append (t : FileTree β) (p q : Path) : t.get (p ++ q) = (t.get p).bind (get q) := by
  induction p generalizing t with
  | nil => rfl
  | cons name rest ih =>
    cases t with
    | file b => rfl
    | dir es =>
      show (es.lookup name).bind (get (rest ++ q)) = ((es.lookup name).bind (get rest)).bind (get q)
      cases es.lookup name with
      | none => rfl
      | some c => exact ih c

theorem view_append {t s : FileTree β} {p : Path} (h : t.get p = some s) (q : Path) :
    t.view (p ++ q) = s.view q := by
  unfold view
  rw [get_append, h]
  rfl

/-- What exists lies in a directory. -/
theorem view_below {t : FileTree β} {p : Path} (h : t.view p ≠ some .dir) {q : Path} (hq : q ≠ []) :
    t.view (p ++ q) = none := by
  unfold view at h ⊢
  rw [get_append]
  cases hp : t.get p with
  | none => rfl
  | some s =>
    cases s with
    | file b =>
      obtain ⟨name, rest, rfl⟩ := List.exists_cons_of_ne_nil hq
      rfl
    | dir es =>
      rw [hp] at h
      exact absurd rfl h

theorem view_dir_cons (es : List (String × FileTree β)) (name : String) (rest : Path) :
    (FileTree.dir es).view (name :: rest) = (es.lookup name).bind (·.view rest) := by
  show ((es.lookup name).bind (get rest)).map kind = (es.lookup name).bind (·.view rest)
  rw [Option.map_bind]
  rfl

/-- A change of an entry is seen at and below its path only. -/
theorem view_change {f : String → List (String × FileTree β) → List (String × FileTree β)}
    (new : Option (FileTree β))
    (hf : ∀ name name' es, (f name es).lookup name' = if name' = name then new else es.lookup name')
    {t t' : FileTree β} {p : Path} (h : change f p t = some t') (q : Path) :
    t'.view q = if p <+: q then new.bind (·.view (q.drop p.length)) else t.view q := by
  induction p generalizing t t' q with
  | nil => cases h
  | cons name rest ih =>
    cases t with
    | file b => cases h
    | dir es =>
      cases q with
      | nil =>
        rw [if_neg (by simp)]
        cases rest with
        | nil =>
          obtain rfl := Option.some.inj h
          rfl
        | cons next rest =>
          simp only [change, Option.bind_eq_bind, Option.bind_eq_some_iff, Option.pure_def,
            Option.some.injEq] at h
          obtain ⟨_, -, _, -, rfl⟩ := h
          rfl
      | cons name' q =>
        cases rest with
        | nil =>
          obtain rfl := Option.some.inj h
          rw [view_dir_cons, view_dir_cons, hf]
          by_cases hn : name' = name
          · subst hn
            simp
          · simp [hn, Ne.symm hn]
        | cons next rest =>
          simp only [change, Option.bind_eq_bind, Option.bind_eq_some_iff, Option.pure_def,
            Option.some.injEq] at h
          obtain ⟨below, hbelow, below', hchange, rfl⟩ := h
          rw [view_dir_cons, view_dir_cons, lookup_assign]
          by_cases hn : name' = name
          · subst hn
            rw [if_pos rfl, hbelow, Option.bind_some, Option.bind_some, ih hchange]
            simp
          · rw [if_neg hn, if_neg fun h => hn (List.cons_prefix_cons.mp h).1.symm]

theorem view_put {m t t' : FileTree β} {p : Path} (h : put m p t = some t') (q : Path) :
    t'.view q = if p <+: q then m.view (q.drop p.length) else t.view q :=
  view_change (some m) (fun name name' es => lookup_assign name name' m es) h q

theorem view_remove {t t' : FileTree β} {p : Path} (h : remove p t = some t') (q : Path) :
    t'.view q = if p <+: q then none else t.view q :=
  view_change none lookup_erase h q

/-! ## Calls -/

/-- Something new under a free name. -/
def create (leaf : FileTree β) (p : Path) (t : FileTree β) : Option (FileTree β) :=
  match t.get p with
  | none => put leaf p t
  | some _ => none

/-- `mkdir`. -/
def createDir (p : Path) (t : FileTree β) : Option (FileTree β) := create (.dir []) p t

/-- `open` with `create_new`. -/
def createNew (p : Path) (t : FileTree β) : Option (FileTree β) := create (.file []) p t

/-- `write` at the end of a file. -/
def append (p : Path) (bytes : List β) (t : FileTree β) : Option (FileTree β) :=
  match t.get p with
  | some (.file b) => put (.file (b ++ bytes)) p t
  | _ => none

def read (p : Path) (t : FileTree β) : Option (List β) :=
  match t.get p with
  | some (.file b) => some b
  | _ => none

/-- What may be moved over what. -/
def replaceable : FileTree β → Option (FileTree β) → Bool
  | _, none => true
  | .file _, some (.file _) => true
  | .dir _, some (.dir []) => true
  | _, _ => false

/-- `rename`: nothing is seen of it but its effect as a whole. -/
def rename (src dst : Path) (t : FileTree β) : Option (FileTree β) := do
  let moved ← t.get src
  if src = dst then some t
  else if src <+: dst then none
  else if replaceable moved (t.get dst) then
    let t ← remove src t
    put moved dst t
  else none

theorem get_eq_none {t : FileTree β} {p : Path} : t.get p = none ↔ t.view p = none := by
  unfold view
  rw [Option.map_eq_none_iff]

theorem get_file {t : FileTree β} {p : Path} {b : List β} :
    t.get p = some (.file b) ↔ t.view p = some (.file b) := by
  unfold view
  constructor
  · intro h
    rw [h]
    rfl
  · intro h
    obtain ⟨s, hs, hk⟩ := Option.map_eq_some_iff.mp h
    cases s with
    | file b' =>
      cases hk
      exact hs
    | dir es => cases hk

theorem view_create {leaf t t' : FileTree β} (hleaf : ∀ name rest, leaf.view (name :: rest) = none)
    {p : Path} (h : create leaf p t = some t') :
    t.view p = none ∧ ∀ q, t'.view q = if q = p then some leaf.kind else t.view q := by
  unfold create at h
  split at h
  · rename_i hp
    have hnone : t.view p = none := get_eq_none.mp hp
    refine ⟨hnone, fun q => ?_⟩
    rw [view_put h]
    by_cases hq : p <+: q
    · obtain ⟨r, rfl⟩ := hq
      rw [if_pos (List.prefix_append p r), List.drop_left]
      cases r with
      | nil =>
        rw [if_pos (List.append_nil p)]
        rfl
      | cons name r =>
        rw [if_neg (by simp), hleaf, view_below (by rw [hnone]; simp) (List.cons_ne_nil _ _)]
    · rw [if_neg hq, if_neg]
      rintro rfl
      exact hq List.prefix_rfl
  · cases h

theorem view_createDir {t t' : FileTree β} {p : Path} (h : createDir p t = some t') :
    t.view p = none ∧ ∀ q, t'.view q = if q = p then some .dir else t.view q :=
  view_create (fun _ _ => rfl) h

theorem view_createNew {t t' : FileTree β} {p : Path} (h : createNew p t = some t') :
    t.view p = none ∧ ∀ q, t'.view q = if q = p then some (.file []) else t.view q :=
  view_create (fun _ _ => rfl) h

theorem view_appendFile {t t' : FileTree β} {p : Path} {bytes : List β}
    (h : append p bytes t = some t') :
    ∃ b, t.view p = some (.file b) ∧
      ∀ q, t'.view q = if q = p then some (.file (b ++ bytes)) else t.view q := by
  unfold append at h
  split at h
  · rename_i b hp
    have hfile : t.view p = some (.file b) := get_file.mp hp
    refine ⟨b, hfile, fun q => ?_⟩
    rw [view_put h]
    by_cases hq : p <+: q
    · obtain ⟨r, rfl⟩ := hq
      rw [if_pos (List.prefix_append p r), List.drop_left]
      cases r with
      | nil =>
        rw [if_pos (List.append_nil p)]
        rfl
      | cons name r =>
        rw [if_neg (by simp), view_below (by rw [hfile]; simp) (List.cons_ne_nil _ _)]
        rfl
    · rw [if_neg hq, if_neg]
      rintro rfl
      exact hq List.prefix_rfl
  · cases h

theorem read_eq_some {t : FileTree β} {p : Path} {b : List β} :
    read p t = some b ↔ t.view p = some (.file b) := by
  rw [← get_file]
  unfold read
  split
  · rename_i b' hp
    rw [hp]
    simp
  · rename_i hp
    simp only [reduceCtorEq, false_iff]
    exact hp b

/-- What is moved, and that what it replaces has nothing in it. -/
theorem view_rename {t t' : FileTree β} {src dst : Path} (h : rename src dst t = some t')
    (hne : src ≠ dst) :
    ¬ src <+: dst ∧ (∀ name rest, t.view (dst ++ name :: rest) = none) ∧
      ∀ q, t'.view q =
        if dst <+: q then t.view (src ++ q.drop dst.length)
        else if src <+: q then none else t.view q := by
  unfold rename at h
  simp only [Option.bind_eq_bind, Option.bind_eq_some_iff] at h
  obtain ⟨moved, hmoved, h⟩ := h
  rw [if_neg hne] at h
  split at h
  · cases h
  rename_i hnest
  split at h
  · rename_i hrep
    simp only [Option.bind_eq_some_iff] at h
    obtain ⟨t₁, hremove, hput⟩ := h
    refine ⟨hnest, fun name rest => ?_, fun q => ?_⟩
    · have happ : t.get (dst ++ name :: rest) = (t.get dst).bind (get (name :: rest)) :=
        get_append t dst _
      refine get_eq_none.mp ?_
      rw [happ]
      unfold replaceable at hrep
      split at hrep
      · rename_i hdst
        rw [hdst]
        rfl
      · rename_i hdst
        rw [hdst]
        rfl
      · rename_i hdst
        rw [hdst]
        rfl
      · cases hrep
    · rw [view_put hput, view_remove hremove, ← view_append hmoved]
  · cases h

end FileTree

/-! ## Calls as steps -/

/-- Programs on a tree, where a write that fails may have written anything. -/
abbrev FsM (β : Type) (α : Type) := Prog (List β) (FileTree β) α

namespace FsM

/-- A call that has no effect where it fails. -/
def call (act : FileTree β → Option (FileTree β)) : FsM β Unit :=
  Prog.step (fun t => (act t).map ((), ·)) fun _ t => t

def createDir (p : Path) : FsM β Unit := call (FileTree.createDir p)

def createNew (p : Path) : FsM β Unit := call (FileTree.createNew p)

def rename (src dst : Path) : FsM β Unit := call (FileTree.rename src dst)

/-- `File::open` and `sync_all`. -/
def sync (p : Path) : FsM β Unit := call fun t => (t.get p).map fun _ => t

/-- What is left of a file where a write to it fails. -/
def garble (p : Path) (junk : List β) (t : FileTree β) : FileTree β := (FileTree.append p junk t).getD t

def write (p : Path) (bytes : List β) : FsM β Unit :=
  Prog.step (fun t => (FileTree.append p bytes t).map ((), ·)) (garble p)

def read (p : Path) : FsM β (List β) :=
  Prog.step (fun t => (FileTree.read p t).map (·, t)) fun _ t => t

/-- An existing directory is as good as a new one. -/
def ensureDir (p : Path) : FsM β Unit :=
  call fun t =>
    match t.get p with
    | some (.dir _) => some t
    | _ => FileTree.createDir p t

/-- `create_dir_all`: every directory on the way, from the root down. -/
def createDirAll (p : Path) : FsM β Unit := Prog.forList ensureDir p.inits

/-- A file that is written piece by piece. -/
def writeFile (p : Path) (pieces : List (List β)) : FsM β Unit := do
  createNew p
  Prog.forList (write p) pieces

section Specs
variable {P C : FileTree β → Prop} {p : Path}

theorem call_spec {act : FileTree β → Option (FileTree β)} {Q : FileTree β → Prop} (hstop : ∀ t, P t → C t)
    (hact : ∀ t t', P t → act t = some t' → Q t') : Spec P (call act) (fun _ => Q) C := by
  refine Spec.step hstop (fun t _ h => hstop t h) fun t u t' h heq => ?_
  obtain ⟨_, hcall, h'⟩ := Option.map_eq_some_iff.mp heq
  cases h'
  exact hact t t' h hcall

/-- A call that only looks. -/
theorem sync_spec (hstop : ∀ t, P t → C t) : Spec P (sync p) (fun _ => P) C := by
  refine call_spec hstop fun t t' h heq => ?_
  obtain ⟨_, -, rfl⟩ := Option.map_eq_some_iff.mp heq
  exact h

theorem read_spec {content : FileTree β → List β → Prop} (hstop : ∀ t, P t → C t)
    (hread : ∀ t b, P t → t.view p = some (.file b) → content t b) :
    Spec P (read p) (fun b t => P t ∧ content t b) C := by
  refine Spec.step hstop (fun t _ h => hstop t h) fun t b t' h heq => ?_
  obtain ⟨b', hb, h'⟩ := Option.map_eq_some_iff.mp heq
  cases h'
  exact ⟨h, hread t _ h (FileTree.read_eq_some.mp hb)⟩

/-- A write changes its file only, also where it fails. -/
theorem write_spec {bytes : List β} {Q : FileTree β → Prop} (hstop : ∀ t, P t → C t)
    (hfail : ∀ t t' b, P t → (∀ q, q ≠ p → t'.view q = t.view q) →
      t'.view p = some (.file b) → C t')
    (hact : ∀ t t' b, P t → t.view p = some (.file b) → (∀ q, q ≠ p → t'.view q = t.view q) →
      t'.view p = some (.file (b ++ bytes)) → Q t') :
    Spec P (write p bytes) (fun _ => Q) C := by
  refine Spec.step hstop (fun t junk h => ?_) fun t u t' h heq => ?_
  · unfold garble
    cases heq : FileTree.append p junk t with
    | none => exact hstop t h
    | some t' =>
      obtain ⟨b, -, hview⟩ := FileTree.view_appendFile heq
      exact hfail t t' _ h (fun q hq => (hview q).trans (if_neg hq)) ((hview p).trans (if_pos rfl))
  · obtain ⟨_, hwrite, h'⟩ := Option.map_eq_some_iff.mp heq
    cases h'
    obtain ⟨b, hb, hview⟩ := FileTree.view_appendFile hwrite
    exact hact t t' b h hb (fun q hq => (hview q).trans (if_neg hq)) ((hview p).trans (if_pos rfl))

end Specs

end FsM

end FileSystem
