import P2PCrawler.Crawler.Effect

/-!
# The books balance

`Books` is the invariant that ties together the entry states, the queues, the counter of
outstanding work and the positions of the tasks.  It is a conservation law: each clause is a sum
over the shared state and all threads that no step changes.

* an entry is `Queued` exactly once: in one queue or in the hands of one task; `Processing` in
  the hands of one task;
* the counter is the number of active entries, less the increments and plus the decrements that
  tasks still owe;
* the active entries are those in a queue and those in the hands of a task.

`books` proves it for every run as long as nothing has panicked.
-/

set_option autoImplicit false

namespace P2PCrawler

open ThreadPool

/-! ## Effects on the books -/

/-- The entry states and the counter are as before. -/
structure SameStates (s s' : NodeStore) : Prop where
  state : ∀ k, s'.stateOf k = s.stateOf k
  active : s'.activeCount = s.activeCount

/-- The state of `k` becomes `st`, and nothing else changes. -/
structure SetState (s s' : NodeStore) (k : AddrKey) (st : NodeState) : Prop where
  state : ∀ k', s'.stateOf k' = if k' = k then some st else s.stateOf k'
  active : s'.activeCount + (if (s.stateOf k).any NodeState.active then 1 else 0) =
    s.activeCount + (if st.active then 1 else 0)
  outstanding : s'.outstanding = s.outstanding

def SameItems (sh sh' : Shared) : Prop := ∀ t, (sh'.queue t).items = (sh.queue t).items

/-- What an effect is to the books: states, queues, the counter and what the task holds. -/
inductive Shift : Shared → Held → Shared → Held → Prop
  | quiet {sh sh' : Shared} {h : Held} (hs : SameStates sh.store sh'.store)
      (ho : sh'.store.outstanding = sh.store.outstanding) (hq : SameItems sh sh') :
      Shift sh h sh' h
  /-- a new entry is stored as stale -/
  | park {sh sh' : Shared} {h : Held} {k : AddrKey} (hold : sh.store.stateOf k = none)
      (hs : SetState sh.store sh'.store k .staleDiscarded) (hq : SameItems sh sh') :
      Shift sh h sh' h
  /-- a new or stale entry is queued -/
  | discover {sh sh' : Shared} {k : AddrKey} {own : List (AddrKey × NodeState)} {u d : ℤ}
      (hold : sh.store.stateOf k = none ∨ sh.store.stateOf k = some .staleDiscarded)
      (hs : SetState sh.store sh'.store k .queued) (hq : SameItems sh sh') :
      Shift sh ⟨own, u, d⟩ sh' ⟨(k, .queued) :: own, u + 1, d⟩
  | incr {sh sh' : Shared} {own : List (AddrKey × NodeState)} {u d : ℤ}
      (hs : SameStates sh.store sh'.store)
      (ho : sh'.store.outstanding = sh.store.outstanding + 1) (hq : SameItems sh sh') :
      Shift sh ⟨own, u + 1, d⟩ sh' ⟨own, u, d⟩
  | decr {sh sh' : Shared} {own : List (AddrKey × NodeState)} {u d : ℤ}
      (hs : SameStates sh.store sh'.store)
      (ho : sh'.store.outstanding = sh.store.outstanding - 1) (hq : SameItems sh sh') :
      Shift sh ⟨own, u, d + 1⟩ sh' ⟨own, u, d⟩
  | push {sh sh' : Shared} {t : Transport} {k : AddrKey} {own : List (AddrKey × NodeState)}
      {u d : ℤ} (hs : sh'.store = sh.store)
      (hq : ∀ t', (sh'.queue t').items =
        if t' = t then (sh.queue t).items ++ [k] else (sh.queue t').items) :
      Shift sh ⟨(k, .queued) :: own, u, d⟩ sh' ⟨own, u, d⟩
  | pop {sh sh' : Shared} {t : Transport} {k : AddrKey} {own : List (AddrKey × NodeState)}
      {u d : ℤ} (hs : sh'.store = sh.store)
      (hq : ∀ t', (sh.queue t').items =
        if t' = t then k :: (sh'.queue t).items else (sh'.queue t').items) :
      Shift sh ⟨own, u, d⟩ sh' ⟨(k, .queued) :: own, u, d⟩
  /-- `Queued` to `Processing`, or back -/
  | switch {sh sh' : Shared} {k : AddrKey} {st st' : NodeState}
      {own : List (AddrKey × NodeState)} {u d : ℤ} (hst' : st'.active = true)
      (hs : SetState sh.store sh'.store k st') (hq : SameItems sh sh') :
      Shift sh ⟨(k, st) :: own, u, d⟩ sh' ⟨(k, st') :: own, u, d⟩
  /-- a terminal state is written -/
  | settle {sh sh' : Shared} {k : AddrKey} {st st' : NodeState}
      {own : List (AddrKey × NodeState)} {u d : ℤ} (hst' : st'.active = false)
      (hs : SetState sh.store sh'.store k st') (hq : SameItems sh sh') :
      Shift sh ⟨(k, st) :: own, u, d⟩ sh' ⟨own, u, d + 1⟩

/-- A write that sets the state of an existing entry. -/
theorem setState_withEntry {s : NodeStore} {k : AddrKey} {f : NodeEntry → NodeEntry}
    {st : NodeState} (hf : ∀ e, (f e).state = st) (h : s.stateOf k ≠ none) :
    SetState s (s.withEntry k f) k st := by
  obtain ⟨e, he⟩ : ∃ e, s.entry k = some e := by
    cases he : s.entry k with
    | none => exact absurd (by rw [NodeStore.stateOf, he]; rfl) h
    | some e => exact ⟨e, rfl⟩
  refine ⟨fun k' => ?_, ?_, NodeStore.withEntry_outstanding _ _ _⟩
  · split
    · rename_i hk; subst hk; exact NodeStore.stateOf_withEntry_set hf h
    · rename_i hk; exact NodeStore.stateOf_withEntry_ne _ _ _ hk
  · have := NodeStore.activeCount_withEntry f he
    rw [hf] at this
    simpa [NodeStore.stateOf, he] using this

/-- Inserting an entry at an absent key, the budget counter aside. -/
theorem setState_insertEntry {s : NodeStore} {k : AddrKey} {e : NodeEntry} {n : Nat}
    (h : s.entry k = none) :
    SetState s ({ s with entries := n }.insertEntry k e) k e.state := by
  refine ⟨fun k' => ?_, ?_, rfl⟩
  · rw [NodeStore.stateOf_insertEntry]; rfl
  · have hn : ({ s with entries := n } : NodeStore).entry k = none := h
    rw [NodeStore.activeCount_insertEntry hn]
    simp [NodeStore.stateOf, h]; rfl

/-- A write that keeps states. -/
theorem sameStates_withEntry (s : NodeStore) (k : AddrKey) {f : NodeEntry → NodeEntry}
    (hf : ∀ e, (f e).state = e.state) : SameStates s (s.withEntry k f) :=
  ⟨NodeStore.stateOf_withEntry_same _ _ hf, NodeStore.activeCount_withEntry_same _ _ hf⟩

/-- Without a panic, a task that owns what it answers for shifts the books. -/
theorem Effect.shift {does : Intent} {sh sh' : Shared} {h h' : Held}
    (he : Effect does sh h sh' h') (hown : Owns sh h) (hok : sh'.panicked = false) : Shift sh h sh' h' := by
  have hentry : ∀ {k st own}, h.owned = (k, st) :: own → sh.store.stateOf k ≠ none := by
    intro k st own hh
    rw [hown (k, st) (by rw [hh]; exact List.mem_cons_self ..)]
    exact Option.some_ne_none _
  cases he with
  | aside hs hq hf => exact .quiet ⟨fun _ => by rw [hs], by rw [hs]⟩ (by rw [hs]) fun _ => by rw [hq]
  | close hs hq hf =>
    exact .quiet ⟨fun _ => by rw [hs], by rw [hs]⟩ (by rw [hs]) fun _ => by rw [hq]; rfl
  | write hk hf =>
    exact .quiet (sameStates_withEntry _ _ hf.state) (NodeStore.withEntry_outstanding _ _ _)
      fun _ => rfl
  | refresh =>
    exact .quiet (sameStates_withEntry _ _ fun _ => rfl) (NodeStore.withEntry_outstanding _ _ _)
      fun _ => rfl
  | reject => exact .quiet ⟨fun _ => rfl, rfl⟩ rfl fun _ => rfl
  | park ho hnew hroom =>
    exact .park (by simp [NodeStore.stateOf, hnew]) (setState_insertEntry hnew) fun _ => rfl
  | discover ho hnew hroom =>
    exact .discover (u := 0) (.inl (by simp [NodeStore.stateOf, hnew])) (setState_insertEntry hnew)
      fun _ => rfl
  | revive ho hstale =>
    exact .discover (u := 0) (.inr hstale)
      (setState_withEntry (fun _ => rfl) (by rw [hstale]; exact Option.some_ne_none _)) fun _ => rfl
  | incr => exact .incr (u := 0) ⟨fun _ => rfl, rfl⟩ rfl fun _ => rfl
  | decr => exact .decr (d := 0) ⟨fun _ => rfl, rfl⟩ rfl fun _ => rfl
  | @push t k own ho hopen hroom =>
    refine .push (t := t) rfl fun t' => ?_
    by_cases ht : t' = t
    · subst ht; simp
    · simp [ht]
  | @pop t k rest own ho hitems =>
    refine .pop (t := t) rfl fun t' => ?_
    by_cases ht : t' = t
    · subst ht; simpa [Shared.pop] using hitems
    · simp [Shared.pop, ht]
  | switch hst' hf =>
    exact .switch hst' (setState_withEntry hf.state (hentry rfl)) fun _ => rfl
  | settle hst' hf hns =>
    exact .settle (d := 0) hst' (setState_withEntry hf.state (hentry rfl)) fun _ => rfl
  | forfeit hwhy hs hq hf =>
    rcases hwhy with hpanic | hlost
    · rw [hok] at hpanic; cases hpanic
    · exact absurd hown hlost

/-! ## The sums -/

/-- Copies of a key over all queues. -/
def Shared.copies (sh : Shared) (k : AddrKey) : ℤ :=
  (sh.queue .ip).items.count k + (sh.queue .tor).items.count k + (sh.queue .i2p).items.count k

/-- Keys over all queues. -/
def Shared.backlog (sh : Shared) : ℤ :=
  (sh.queue .ip).items.length + (sh.queue .tor).items.length + (sh.queue .i2p).items.length

theorem Shared.copies_nonneg (sh : Shared) (k : AddrKey) : 0 ≤ sh.copies k := by
  unfold copies; omega

theorem Shared.backlog_nonneg (sh : Shared) : 0 ≤ sh.backlog := by
  unfold backlog; omega

/-- Excess of the queue copies over the entries in state `st`. -/
def stateLedger (k : AddrKey) (st : NodeState) (sh : Shared) : ℤ :=
  (if st = .queued then sh.copies k else 0) - (if sh.store.stateOf k = some st then 1 else 0)

def Pc.claims (k : AddrKey) (st : NodeState) (pc : Pc) : ℤ := pc.held.owned.count (k, st)

def counterLedger (sh : Shared) : ℤ := sh.store.outstanding - sh.store.activeCount

def Pc.owes (pc : Pc) : ℤ := pc.held.uncounted - pc.held.undecremented

def activeLedger (sh : Shared) : ℤ := sh.store.activeCount - sh.backlog

def Pc.share (pc : Pc) : ℤ := -(pc.held.owned.length : ℤ)

/-- The invariant. -/
structure Books (c : Conf Shared Pc) : Prop where
  state : ∀ k st, st.active = true → total (stateLedger k st) (Pc.claims k st) c = 0
  counter : total counterLedger Pc.owes c = 0
  active : total activeLedger Pc.share c = 0

/-! ## Shifts keep the sums -/

section Shifts
variable {sh sh' : Shared} {h h' : Held}

theorem SameItems.copies (hq : SameItems sh sh') (k : AddrKey) : sh'.copies k = sh.copies k := by
  simp only [Shared.copies, hq .ip, hq .tor, hq .i2p]

theorem SameItems.backlog (hq : SameItems sh sh') : sh'.backlog = sh.backlog := by
  simp only [Shared.backlog, hq .ip, hq .tor, hq .i2p]

theorem copies_push {t : Transport} {k : AddrKey}
    (hq : ∀ t', (sh'.queue t').items =
      if t' = t then (sh.queue t).items ++ [k] else (sh.queue t').items) (k' : AddrKey) :
    sh'.copies k' = sh.copies k' + if k' = k then 1 else 0 := by
  have hcount : (([k].count k' : ℕ) : ℤ) = if k' = k then 1 else 0 := by
    rw [List.count_singleton]
    by_cases hk : k' = k
    · simp [hk]
    · simp [hk, Ne.symm hk]
  simp only [Shared.copies, hq]
  cases t <;> simp only [reduceCtorEq, if_true, if_false, List.count_append, Int.natCast_add, hcount] <;>
    omega

theorem backlog_push {t : Transport} {k : AddrKey}
    (hq : ∀ t', (sh'.queue t').items =
      if t' = t then (sh.queue t).items ++ [k] else (sh.queue t').items) :
    sh'.backlog = sh.backlog + 1 := by
  simp only [Shared.backlog, hq]
  cases t <;> simp only [reduceCtorEq, if_true, if_false, List.length_append, List.length_singleton] <;>
    omega

theorem copies_pop {t : Transport} {k : AddrKey}
    (hq : ∀ t', (sh.queue t').items =
      if t' = t then k :: (sh'.queue t).items else (sh'.queue t').items) (k' : AddrKey) :
    sh.copies k' = sh'.copies k' + if k' = k then 1 else 0 := by
  simp only [Shared.copies, hq]
  by_cases hk : k' = k
  · subst hk
    cases t <;> simp only [reduceCtorEq, if_true, if_false, List.count_cons_self] <;> omega
  · cases t <;> simp only [reduceCtorEq, if_true, if_false, hk,
      List.count_cons_of_ne fun e => hk e.symm] <;> omega

theorem backlog_pop {t : Transport} {k : AddrKey}
    (hq : ∀ t', (sh.queue t').items =
      if t' = t then k :: (sh'.queue t).items else (sh'.queue t').items) :
    sh.backlog = sh'.backlog + 1 := by
  simp only [Shared.backlog, hq]
  cases t <;> simp only [reduceCtorEq, if_true, if_false, List.length_cons] <;> omega

/-- Copies of `(k', st')` in a list with `(k, st)` in front. -/
theorem count_owned_cons (k k' : AddrKey) (st st' : NodeState) (own : List (AddrKey × NodeState)) :
    ((((k, st) :: own).count (k', st') : ℕ) : ℤ) =
      own.count (k', st') + if k' = k ∧ st' = st then 1 else 0 := by
  rw [List.count_cons]
  by_cases hk : k' = k ∧ st' = st
  · obtain ⟨rfl, rfl⟩ := hk; simp
  · rw [if_neg hk, if_neg]
    · simp
    · simp only [beq_iff_eq, Prod.mk.injEq]
      rintro ⟨rfl, rfl⟩
      exact hk ⟨rfl, rfl⟩

theorem shift_state (he : Shift sh h sh' h') (hown : Owns sh h) (k : AddrKey) {st : NodeState}
    (hact : st.active = true) :
    stateLedger k st sh' + h'.owned.count (k, st) = stateLedger k st sh + h.owned.count (k, st) := by
  have hne : ∀ st' : NodeState, st'.active = false → ¬some st' = some st := by
    rintro st' hst' hs
    cases hs
    rw [hact] at hst'
    cases hst'
  unfold stateLedger
  cases he with
  | quiet hs ho hq => rw [hs.state, hq.copies]
  | @park _ _ k₀ hold hs hq =>
    rw [hs.state, hq.copies]
    by_cases hk : k = k₀
    · subst hk
      rw [if_pos rfl, hold, if_neg (hne _ rfl), if_neg (Option.some_ne_none st).symm]
    · rw [if_neg hk]
  | @discover _ k₀ own u d hold hs hq =>
    rw [hs.state, hq.copies, count_owned_cons]
    by_cases hk : k = k₀
    · subst hk
      have hno : ¬sh.store.stateOf k = some st := by
        rcases hold with hold | hold <;> rw [hold]
        · simp
        · exact hne _ rfl
      rw [if_pos rfl, if_neg hno]
      by_cases hst : st = .queued
      · subst hst; simp
      · simp [hst, Ne.symm hst]
    · simp [hk]
  | incr hs ho hq => rw [hs.state, hq.copies]
  | decr hs ho hq => rw [hs.state, hq.copies]
  | @push _ t k₀ own u d hs hq =>
    rw [hs, copies_push hq, count_owned_cons]
    by_cases hst : st = .queued
    · subst hst; simp; omega
    · simp [hst]
  | @pop _ t k₀ own u d hs hq =>
    rw [hs, copies_pop hq, count_owned_cons]
    by_cases hst : st = .queued
    · subst hst; simp; omega
    · simp [hst]
  | @switch _ k₀ st₀ st' own u d hst' hs hq =>
    have hold : sh.store.stateOf k₀ = some st₀ := hown (k₀, st₀) (List.mem_cons_self ..)
    rw [hs.state, hq.copies, count_owned_cons, count_owned_cons]
    by_cases hk : k = k₀
    · subst hk
      simp only [if_true, true_and, hold, Option.some.injEq, eq_comm (a := st)]
      omega
    · simp [hk]
  | @settle _ k₀ st₀ st' own u d hst' hs hq =>
    have hold : sh.store.stateOf k₀ = some st₀ := hown (k₀, st₀) (List.mem_cons_self ..)
    rw [hs.state, hq.copies, count_owned_cons]
    by_cases hk : k = k₀
    · subst hk
      rw [if_pos rfl, if_neg (hne _ hst')]
      simp only [true_and, hold, Option.some.injEq, eq_comm (a := st)]
      omega
    · simp [hk]

/-- Active entries before and after the state of an owned key is set. -/
theorem SetState.active_of_owned {s s' : NodeStore} {k : AddrKey} {st st' : NodeState}
    (hs : SetState s s' k st') (hold : s.stateOf k = some st) (hact : st.active = true) :
    (s'.activeCount : ℤ) + 1 = s.activeCount + if st'.active then 1 else 0 := by
  have := hs.active
  rw [hold, Option.any_some, if_pos hact] at this
  by_cases hst : st'.active = true
  · rw [if_pos hst] at this ⊢; omega
  · rw [if_neg hst] at this ⊢; omega

theorem SetState.active_of_absent {s s' : NodeStore} {k : AddrKey} {st' : NodeState}
    (hs : SetState s s' k st') (hold : s.stateOf k = none ∨ s.stateOf k = some .staleDiscarded) :
    (s'.activeCount : ℤ) = s.activeCount + if st'.active then 1 else 0 := by
  have hno : ¬(s.stateOf k).any NodeState.active = true := by
    rcases hold with hold | hold <;> rw [hold] <;> nofun
  have := hs.active
  rw [if_neg hno] at this
  by_cases hst : st'.active = true
  · rw [if_pos hst] at this ⊢; omega
  · rw [if_neg hst] at this ⊢; omega

theorem shift_counter (he : Shift sh h sh' h') (hown : Owns sh h)
    (hact : ∀ x ∈ h.owned, x.2.active = true) :
    counterLedger sh' + (h'.uncounted - h'.undecremented) =
      counterLedger sh + (h.uncounted - h.undecremented) := by
  unfold counterLedger
  cases he with
  | quiet hs ho hq => rw [hs.active, ho]
  | park hold hs hq =>
    have := hs.active_of_absent (.inl hold)
    simp [NodeState.active] at this
    rw [hs.outstanding, this]
  | discover hold hs hq =>
    have := hs.active_of_absent hold
    simp [NodeState.active] at this
    simp only [hs.outstanding, this]
    omega
  | incr hs ho hq => simp only [hs.active, ho]; omega
  | decr hs ho hq => simp only [hs.active, ho]; omega
  | push hs hq => rw [hs]
  | pop hs hq => rw [hs]
  | @switch _ k₀ st₀ st' own u d hst' hs hq =>
    have := hs.active_of_owned (hown (k₀, st₀) (List.mem_cons_self ..))
      (hact (k₀, st₀) (List.mem_cons_self ..))
    rw [if_pos hst'] at this
    simp only [hs.outstanding]
    omega
  | @settle _ k₀ st₀ st' own u d hst' hs hq =>
    have := hs.active_of_owned (hown (k₀, st₀) (List.mem_cons_self ..))
      (hact (k₀, st₀) (List.mem_cons_self ..))
    rw [if_neg (by simp [hst'])] at this
    simp only [hs.outstanding]
    omega

theorem shift_active (he : Shift sh h sh' h') (hown : Owns sh h)
    (hact : ∀ x ∈ h.owned, x.2.active = true) :
    activeLedger sh' + -(h'.owned.length : ℤ) = activeLedger sh + -(h.owned.length : ℤ) := by
  unfold activeLedger
  cases he with
  | quiet hs ho hq => rw [hs.active, hq.backlog]
  | park hold hs hq =>
    have := hs.active_of_absent (.inl hold)
    simp [NodeState.active] at this
    rw [hq.backlog, this]
  | discover hold hs hq =>
    have := hs.active_of_absent hold
    simp [NodeState.active] at this
    simp only [hq.backlog, this, List.length_cons]
    omega
  | incr hs ho hq => rw [hs.active, hq.backlog]
  | decr hs ho hq => rw [hs.active, hq.backlog]
  | push hs hq => simp only [hs, backlog_push hq, List.length_cons]; omega
  | pop hs hq => simp only [hs, backlog_pop hq, List.length_cons]; omega
  | @switch _ k₀ st₀ st' own u d hst' hs hq =>
    have := hs.active_of_owned (hown (k₀, st₀) (List.mem_cons_self ..))
      (hact (k₀, st₀) (List.mem_cons_self ..))
    rw [if_pos hst'] at this
    simp only [hq.backlog, List.length_cons]
    omega
  | @settle _ k₀ st₀ st' own u d hst' hs hq =>
    have := hs.active_of_owned (hown (k₀, st₀) (List.mem_cons_self ..))
      (hact (k₀, st₀) (List.mem_cons_self ..))
    rw [if_neg (by simp [hst'])] at this
    simp only [hq.backlog, List.length_cons]
    omega

end Shifts

/-! ## What is held -/

theorem EnqueuePc.held_active (k : AddrKey) (e : EnqueuePc) :
    ∀ x ∈ (e.held k).owned, x.2.active = true := by
  cases e <;> simp [EnqueuePc.held, NodeState.active]

theorem FinishPc.held_active (k : AddrKey) {st : NodeState} (hst : st.active = true) (f : FinishPc) :
    ∀ x ∈ (f.held k st).owned, x.2.active = true := by
  cases f <;> simp [FinishPc.held, hst]

theorem TaskPc.held_active (k : AddrKey) (p : TaskPc) :
    ∀ x ∈ (p.held k).owned, x.2.active = true := by
  cases p with
  | enqueueing c count now rest a e =>
    intro x hx
    rcases List.mem_append.mp hx with hx | hx
    · exact EnqueuePc.held_active a e x hx
    · rw [List.mem_singleton.mp hx]; rfl
  | abandoning f => exact FinishPc.held_active k rfl f
  | finishing f => exact FinishPc.held_active k rfl f
  | _ => simp [TaskPc.held, NodeState.active]

/-- Every state a task answers for is active. -/
theorem Pc.held_active (pc : Pc) : ∀ x ∈ pc.held.owned, x.2.active = true := by
  cases pc with
  | main p =>
    cases p with
    | seedEnqueue rest k e => exact EnqueuePc.held_active k e
    | _ => simp [Pc.held, MainPc.held]
  | worker t p =>
    cases p with
    | task k p => exact TaskPc.held_active k p
    | discarding k f => exact FinishPc.held_active k rfl f
    | crashedFinish k f => exact FinishPc.held_active k rfl f
    | _ => simp [Pc.held, WorkerPc.held, NodeState.active]
  | _ => simp [Pc.held]

theorem Pc.claims_nonneg (k : AddrKey) (st : NodeState) (pc : Pc) : 0 ≤ pc.claims k st := by
  unfold Pc.claims; omega

/-- A task that answers for a key owns it. -/
theorem Books.owns {c : Conf Shared Pc} (hb : Books c) {pc : Pc} (hpc : pc ∈ c.threads) :
    Owns c.shared pc.held := by
  rintro ⟨k, st⟩ hx
  have hact := pc.held_active _ hx
  have hsum := hb.state k st hact
  have hle := le_load (Pc.claims_nonneg k st) hpc
  have hpos : 0 < pc.held.owned.count (k, st) := List.count_pos_iff.mpr hx
  have hcopies := c.shared.copies_nonneg k
  simp only [total, stateLedger, Pc.claims] at hsum hle
  by_contra hne
  rw [if_neg hne] at hsum
  split at hsum <;> omega

/-! ## The invariant -/

/-- Nothing is held at the start. -/
theorem held_start {S : Setup} : ∀ pc ∈ (start S).threads, pc.held = {} := by
  intro pc hpc
  rcases mem_start hpc with rfl | rfl | rfl | rfl | ⟨t, rfl, -⟩ <;> rfl

theorem start_books (S : Setup) : Books (start S) where
  state k st hact := by
    have hload : load (Pc.claims k st) (start S).threads = 0 :=
      load_eq_zero fun pc hpc => by simp [Pc.claims, held_start pc hpc]
    simp only [total, hload]
    simp [start, Shared.init, stateLedger, Shared.copies, NodeStore.withLimit, NodeStore.stateOf,
      NodeStore.entry]
  counter := by
    have hload : load Pc.owes (start S).threads = 0 :=
      load_eq_zero fun pc hpc => by simp [Pc.owes, held_start pc hpc]
    simp only [total, hload]
    rfl
  active := by
    have hload : load Pc.share (start S).threads = 0 :=
      load_eq_zero fun pc hpc => by simp [Pc.share, held_start pc hpc]
    simp only [total, hload]
    rfl

theorem step_books {S : Setup} {c c' : Conf Shared Pc} {a : Nat × Answer} (hb : Books c)
    (hst : step (program S) c a = some c') (hok : c'.shared.panicked = false) : Books c' := by
  have hshift : ∀ pc sh' pc', c.threads[a.1]? = some pc →
      program S c.shared pc a.2 = some (sh', pc') →
      Owns c.shared pc.held ∧ Shift c.shared pc.held sh' pc'.held := by
    intro pc sh' pc' hpc hp
    have hown := hb.owns (List.mem_of_getElem? hpc)
    refine ⟨hown, (step_effect hp).shift hown ?_⟩
    obtain ⟨pc₁, sh₁, pc₁', hpc₁, hp₁, rfl⟩ := step_cases hst
    rw [hpc] at hpc₁
    cases hpc₁
    rw [hp] at hp₁
    cases hp₁
    exact hok
  refine ⟨fun k st hact => ?_, ?_, ?_⟩
  · rw [total_step hst fun pc sh' pc' hpc hp => ?_, hb.state k st hact]
    obtain ⟨hown, hs⟩ := hshift pc sh' pc' hpc hp
    exact shift_state hs hown k hact
  · rw [total_step hst fun pc sh' pc' hpc hp => ?_, hb.counter]
    obtain ⟨hown, hs⟩ := hshift pc sh' pc' hpc hp
    exact shift_counter hs hown pc.held_active
  · rw [total_step hst fun pc sh' pc' hpc hp => ?_, hb.active]
    obtain ⟨hown, hs⟩ := hshift pc sh' pc' hpc hp
    exact shift_active hs hown pc.held_active

/-- A step leaves no flag cleared. -/
theorem step_flags {S : Setup} {c c' : Conf Shared Pc} {a : Nat × Answer}
    (hst : step (program S) c a = some c') : c.shared.flags.Le c'.shared.flags := by
  obtain ⟨pc, sh', pc', -, hp, rfl⟩ := step_cases hst
  exact (step_effect hp).flags

theorem not_panicked_of_step {S : Setup} {c c' : Conf Shared Pc} {a : Nat × Answer}
    (hst : step (program S) c a = some c') (hok : c'.shared.panicked = false) :
    c.shared.panicked = false := by
  by_contra hp
  have := (step_flags hst).panicked (by simpa [Shared.flags] using hp)
  rw [show c'.shared.flags.panicked = c'.shared.panicked from rfl, hok] at this
  cases this

/-- **The books balance** in every state reached without a panic. -/
theorem books {S : Setup} {ok : Conf Shared Pc → Nat × Answer → Prop} {c : Conf Shared Pc}
    (hr : Reach (program S) ok (start S) c) (hok : c.shared.panicked = false) : Books c := by
  refine hr.invariant (I := fun c => c.shared.panicked = false → Books c) ?_ ?_ hok
  · exact fun _ => start_books S
  · exact fun c a c' _ hb _ hst hok' => step_books (hb (not_panicked_of_step hst hok')) hst hok'

end P2PCrawler
