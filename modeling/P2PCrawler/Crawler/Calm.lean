import P2PCrawler.Crawler.Holding

/-!
# What tasks answer for, panics included

The panic flag of the shared state is history: no step reads it.  So a step that does not panic
itself has its effect as if nothing had panicked before, and a task that has its keys in hand
alone keeps answering for their states.

* `Shared.forget`, `calm_or_dropped` — a step that does not panic itself has its effect as if
  nothing had panicked.
* `Grasped` — every task but one cleaning up after a panic answers for the states of its keys,
  and the keys in a queue are queued.

## Results

* `grasped` — that is so in every run.
-/

set_option autoImplicit false

namespace P2PCrawler

open ThreadPool

/-! ## The panic flag -/

/-- The same state, where nothing has panicked. -/
def Shared.forget (sh : Shared) : Shared := { sh with panicked := false }

theorem logStep_forget {π : Type} (sh : Shared) (call : LogCall) (wait : LogCall → π)
    (done : Option Nat → π) : logStep sh.forget call wait done =
      (logStep sh call wait done).map fun r => (r.1.forget, r.2) := by
  unfold logStep
  rw [Option.map_map]
  rfl

theorem trySend_forget (sh : Shared) (t : Transport) (k : AddrKey) :
    sh.forget.trySend t k = (sh.trySend t k).map Shared.forget := by
  unfold Shared.trySend
  simp only [apply_ite (Option.map Shared.forget)]
  rfl

theorem finishStep_forget (sh : Shared) (k : AddrKey) (f : FinishPc) :
    finishStep sh.forget k f = ((finishStep sh k f).1.forget, (finishStep sh k f).2) := by
  cases f with
  | write terminal reason =>
    have hentry : sh.forget.store.entry k = sh.store.entry k := rfl
    simp only [finishStep, hentry]
    cases sh.store.entry k with
    | none => rfl
    | some e => by_cases h : e.state.active <;> simp only [h, if_true] <;> rfl
  | _ => rfl

theorem enqueueStep_forget (H : Digests) (sh : Shared) (k : AddrKey) (e : EnqueuePc) :
    enqueueStep H sh.forget k e = ((enqueueStep H sh k e).1.forget, (enqueueStep H sh k e).2) := by
  cases e with
  | send t =>
    simp only [enqueueStep, trySend_forget]
    cases sh.trySend t k <;> rfl
  | _ => rfl

theorem taskStep_forget (S : Setup) (sh : Shared) (t : Transport) (k : AddrKey) (a : Answer)
    (p : TaskPc) :
    taskStep S sh.forget t k a p = (taskStep S sh t k a p).map fun r => (r.1.forget, r.2) := by
  cases p with
  | upserting c count now rest => cases rest <;> rfl
  | enqueueing c count now rest key e =>
    simp only [taskStep, enqueueStep_forget]
    rfl
  | abandoning f | finishing f =>
    simp only [taskStep, finishStep_forget]
    rfl
  | resending terminal kind =>
    simp only [taskStep, trySend_forget]
    cases sh.trySend t k <;> rfl
  | malformedLog c call | blockLog c parsed now call | outcomeLog c call =>
    simp only [taskStep, logStep_forget]
  | connecting | handshaking | collecting | sendVersion =>
    simp only [taskStep]
    split <;> rfl
  | malformedGuard | messageGuard | outcomeGuard | shuffling =>
    simp only [taskStep, apply_ite (Option.map _)]
    rfl
  | _ => rfl

theorem loopStep_forget (S : Setup) (sh : Shared) (t : Transport) (p : WorkerPc) :
    loopStep S sh.forget t p = (loopStep S sh t p).map fun r => (r.1.forget, r.2) := by
  cases p with
  | top =>
    simp only [loopStep, apply_ite (Option.map _)]
    rfl
  | receiving =>
    have hqueue : sh.forget.queue t = sh.queue t := rfl
    simp only [loopStep, hqueue]
    cases (sh.queue t).items with
    | nil => simp only [apply_ite (Option.map _)]; rfl
    | cons k rest => rfl
  | reserving k =>
    have hreserve : reserveNodeSlot S sh.forget = (reserveNodeSlot S sh).map Shared.forget := by
      unfold reserveNodeSlot
      cases S.settings.maxNodes with
      | none => rfl
      | some max => simp only [apply_ite (Option.map _)]; rfl
    simp only [loopStep, hreserve]
    cases reserveNodeSlot S sh <;> rfl
  | discarding k f | crashedFinish k f =>
    simp only [loopStep, finishStep_forget]
    rfl
  | _ => rfl

theorem mainStep_forget (S : Setup) (sh : Shared) (a : Answer) (p : MainPc) :
    mainStep S sh.forget a p = (mainStep S sh a p).map fun r => (r.1.forget, r.2) := by
  cases p with
  | seeding rest => cases rest <;> rfl
  | seedEnqueue rest k e =>
    simp only [mainStep, enqueueStep_forget]
    rfl
  | joining | awaitSignals | stopping | awaitCheckpoint | writing =>
    simp only [mainStep, apply_ite (Option.map _)]
    rfl
  | flushing r call => simp only [mainStep, logStep_forget]
  | _ => rfl

theorem signalStep_forget (sh : Shared) (p : SignalPc) :
    signalStep sh.forget p = (signalStep sh p).map fun r => (r.1.forget, r.2) := by
  cases p with
  | waiting | armed =>
    simp only [signalStep, apply_ite (Option.map _)]
    rfl
  | _ => rfl

theorem checkpointStep_forget (S : Setup) (sh : Shared) (a : Answer) (p : CheckpointPc) :
    checkpointStep S sh.forget a p =
      (checkpointStep S sh a p).map fun r => (r.1.forget, r.2) := by
  cases p with
  | idle | acquiring processed =>
    simp only [checkpointStep, apply_ite (Option.map _)]
    rfl
  | flushing processed call => simp only [checkpointStep, logStep_forget]
  | cloning processed durable rest acc => cases rest <;> rfl
  | publishing m =>
    simp only [checkpointStep]
    cases a.stored <;> rfl
  | _ => rfl

/-! ## Owning -/

/-- The task is cleaning up after a panic. -/
def Pc.crashed : Pc → Bool
  | .worker _ (.crashed _) | .worker _ (.crashedShutdown _) | .worker _ (.crashedFinish ..) => true
  | _ => false

/-- Every task but one cleaning up after a panic answers for the states of its keys, and the keys
    in a queue are queued. -/
structure Grasped (c : Conf Shared Pc) : Prop where
  owns : ∀ pc ∈ c.threads, pc.crashed = false → Owns c.shared pc.held
  queued : ∀ k, 0 < c.shared.copies k → c.shared.store.stateOf k = some .queued

/-- A task that owns what it answers for, each key once, still does after its step. -/
theorem Effect.owns {does : Intent} {sh sh' : Shared} {h h' : Held} (he : Effect does sh h sh' h')
    (hown : Owns sh h) (hok : sh'.panicked = false) (hnodup : (h.owned.map Prod.fst).Nodup)
    (hact : ∀ x ∈ h.owned, x.2.active = true)
    (hqueued : ∀ k, 0 < sh.copies k → sh.store.stateOf k = some .queued) : Owns sh' h' := by
  have hinsert : ∀ {k : AddrKey} {e : NodeEntry} {n : Nat} {x : AddrKey × NodeState},
      sh.store.entry k = none → x ∈ h.owned →
      ({ sh.store with entries := n }.insertEntry k e).stateOf x.1 = some x.2 := by
    intro k e n x hnew hx
    have hx' := hown x hx
    rw [NodeStore.stateOf_insertEntry, if_neg]
    · exact hx'
    · rintro hk
      rw [hk, NodeStore.stateOf, hnew] at hx'
      cases hx'
  have hothers : ∀ {k : AddrKey} {st : NodeState} {own : List (AddrKey × NodeState)}
      {f : NodeEntry → NodeEntry}, h.owned = (k, st) :: own → ∀ x ∈ own,
      (sh.writeEntry k f).store.stateOf x.1 = some x.2 := by
    intro k st own f heq x hx
    rw [heq, List.map_cons, List.nodup_cons] at hnodup
    have hne : x.1 ≠ k := by
      intro hk
      exact hnodup.1 (List.mem_map.mpr ⟨x, hx, hk⟩)
    rw [Shared.writeEntry_store, NodeStore.stateOf_withEntry_ne _ _ _ hne]
    exact hown x (by rw [heq]; exact List.mem_cons_of_mem _ hx)
  cases he with
  | aside hs hq hf => exact fun x hx => by rw [hs]; exact hown x hx
  | close hs hq hf => exact fun x hx => by rw [hs]; exact hown x hx
  | write hmem hf =>
    intro x hx
    rw [Shared.writeEntry_store, NodeStore.stateOf_withEntry_same _ _ hf.state]
    exact hown x hx
  | @refresh o h ho =>
    intro x hx
    rw [Shared.writeEntry_store,
      NodeStore.stateOf_withEntry_same (f := NodeStore.refresh o.ts) _ _ fun _ => rfl]
    exact hown x hx
  | reject | incr | decr => exact fun x hx => hown x hx
  | park ho hnew hroom => exact fun x hx => hinsert hnew hx
  | @discover o own ho hnew hroom =>
    intro x hx
    rcases List.mem_cons.mp hx with rfl | hx
    · show NodeStore.stateOf _ o.key = _
      rw [NodeStore.stateOf_insertEntry, if_pos rfl]
      rfl
    · exact hinsert hnew hx
  | @revive o own ho hstale =>
    intro x hx
    rcases List.mem_cons.mp hx with rfl | hx
    · exact NodeStore.stateOf_withEntry_set (f := NodeStore.revive o.ts) (fun _ => rfl)
        (by rw [hstale]; exact Option.some_ne_none _)
    · have hne : x.1 ≠ o.key := by
        intro hk
        have hx' := hown x hx
        rw [hk, hstale] at hx'
        have hxact := hact x hx
        rw [← Option.some.inj hx'] at hxact
        cases hxact
      rw [Shared.writeEntry_store, NodeStore.stateOf_withEntry_ne _ _ _ hne]
      exact hown x hx
  | push => exact fun x hx => hown x (List.mem_cons_of_mem _ hx)
  | @pop t k rest own ho hitems =>
    intro x hx
    rcases List.mem_cons.mp hx with rfl | hx
    · refine hqueued k ?_
      have hcount : 0 < (sh.queue t).items.count k := by
        rw [hitems]
        simp
      unfold Shared.copies
      cases t <;> omega
    · exact hown x hx
  | @switch k st st' f own hst' hf =>
    intro x hx
    rcases List.mem_cons.mp hx with rfl | hx
    · have hk := hown (k, st) (List.mem_cons_self ..)
      exact NodeStore.stateOf_withEntry_set hf.state (by rw [hk]; exact Option.some_ne_none _)
    · exact hothers rfl x hx
  | settle hst' hf hns => exact fun x hx => hothers rfl x hx
  | forfeit hwhy hs hq hf =>
    rcases hwhy with hpanic | hlost
    · rw [hok] at hpanic
      cases hpanic
    · exact absurd hown hlost

/-- A key that is put into a queue was in hand, queued. -/
theorem Effect.new_copies {does : Intent} {sh sh' : Shared} {h h' : Held}
    (he : Effect does sh h sh' h') {k : AddrKey} (hk : 0 < sh'.copies k) :
    0 < sh.copies k ∨ (k, .queued) ∈ h.owned ∧ sh'.store = sh.store := by
  cases he with
  | aside hs hq hf => unfold Shared.copies at hk ⊢; rw [hq] at hk; exact .inl hk
  | close hs hq hf => unfold Shared.copies at hk ⊢; rw [hq] at hk; exact .inl hk
  | forfeit hwhy hs hq hf => unfold Shared.copies at hk ⊢; rw [hq] at hk; exact .inl hk
  | @push t k₀ own ho hopen hroom =>
    by_cases hkk : k = k₀
    · subst hkk
      exact .inr ⟨List.mem_cons_self .., rfl⟩
    · have hq := sh.push_items t k₀
      have hcopies := @copies_push sh { sh with queue := Function.update sh.queue t _ } t k₀ hq k
      rw [if_neg hkk] at hcopies
      exact .inl (by omega)
  | @pop t k₀ rest own ho hitems =>
    have hcopies := copies_pop (Shared.pop_items hitems) k
    split at hcopies <;> exact .inl (by omega)
  | _ => exact .inl hk

/-- A step has its effect as if nothing had panicked before, or is a panic itself. -/
theorem calm_or_dropped {S : Setup} {sh sh' : Shared} {pc pc' : Pc} {a : Answer}
    (h : program S sh pc a = some (sh', pc')) :
    Effect (pc.intent S) sh.forget pc.held sh'.forget pc'.held ∨
      pc'.crashed = true ∨ pc'.held.owned = [] := by
  rcases program_cases h with ⟨p, p', rfl, rfl, hs⟩ | ⟨p, p', rfl, rfl, hs⟩ | ⟨p, p', rfl, rfl, hs⟩ |
    ⟨L, rfl, rfl, hs, rfl⟩ | ⟨t, p, p', rfl, rfl, hs⟩
  · have hs' : mainStep S sh.forget a p = some (sh'.forget, p') := by
      rw [mainStep_forget, hs]
      rfl
    exact .inl (mainStep_effect hs')
  · have hs' : signalStep sh.forget p = some (sh'.forget, p') := by
      rw [signalStep_forget, hs]
      rfl
    exact .inl (signalStep_effect hs' _)
  · have hs' : checkpointStep S sh.forget a p = some (sh'.forget, p') := by
      rw [checkpointStep_forget, hs]
      rfl
    exact .inl (checkpointStep_effect hs' _)
  · exact .inl (.same rfl rfl rfl)
  · rcases workerStep_cases hs with ⟨k, q, rfl, -, rfl, rfl⟩ | ⟨k, q, next, rfl, -, hstep, rfl⟩ |
      ⟨-, -, -, -, rfl, rfl⟩ | ⟨-, -, -, hstep⟩
    · exact .inr (.inl rfl)
    · have hstep' : taskStep S sh.forget t k a q = some (sh'.forget, next) := by
        rw [taskStep_forget, hstep]
        rfl
      have he := taskStep_effect hstep'
      cases next <;> exact .inl he
    · exact .inr (.inr rfl)
    · have hstep' : loopStep S sh.forget t p = some (sh'.forget, p') := by
        rw [loopStep_forget, hstep]
        rfl
      exact .inl (loopStep_effect hstep')

/-- A task cleaning up after a panic has no queued key, and stays so until it has none at all. -/
theorem crashed_held {pc : Pc} (h : pc.crashed = true) :
    (∀ k, (k, NodeState.queued) ∉ pc.held.owned) ∧ ∀ {S : Setup} {sh sh' : Shared} {pc' : Pc}
      {a : Answer}, program S sh pc a = some (sh', pc') → pc'.crashed = true ∨
        pc'.held.owned = [] := by
  have hfin : ∀ (k key : AddrKey) (f : FinishPc),
      (k, NodeState.queued) ∉ (f.held key .processing).owned := by
    intro k key f hk
    cases f with
    | write terminal reason => cases List.mem_singleton.mp hk
    | _ => cases hk
  obtain ⟨t, p, rfl, hp⟩ : ∃ t p, pc = .worker t p ∧ (Pc.worker t p).crashed = true := by
    cases pc with
    | worker t p => exact ⟨t, p, rfl, h⟩
    | _ => cases h
  constructor
  · intro k hk
    cases p with
    | crashed key => cases List.mem_singleton.mp hk
    | crashedShutdown key => cases List.mem_singleton.mp hk
    | crashedFinish key f => exact hfin k key f hk
    | _ => cases hp
  · intro S sh sh' pc' a hstep
    rcases program_cases hstep with ⟨p, p', heq, -⟩ | ⟨p, p', heq, -⟩ | ⟨p, p', heq, -⟩ |
      ⟨L, heq, -⟩ | ⟨t', q, p', heq, rfl, hs⟩ <;> cases heq
    rcases workerStep_cases hs with ⟨k, q, rfl, -⟩ | ⟨k, q, next, rfl, -⟩ |
      ⟨-, -, -, -, -, rfl⟩ | ⟨-, -, -, hloop⟩
    · cases hp
    · cases hp
    · exact .inr rfl
    · cases p with
      | crashed key => cases hloop; exact .inl rfl
      | crashedShutdown key => cases hloop; exact .inl rfl
      | crashedFinish key f =>
        cases hloop
        cases (finishStep sh key f).2 with
        | none => exact .inr rfl
        | some f => exact .inl rfl
      | _ => cases hp

/-- The state of a known key that the moving task does not have in hand. -/
theorem state_unheld {S : Setup} {sh sh' : Shared} {pc pc' : Pc} {a : Answer} {k : AddrKey}
    (h : program S sh pc a = some (sh', pc')) (hseen : sh.store.Seen k) (hk : k ∉ pc.keys) :
    sh'.store.stateOf k = sh.store.stateOf k := by
  unfold NodeStore.stateOf
  rcases entry_unheld h hseen hk with heq | ⟨ts, heq⟩
  · rw [heq]
  · rw [heq, Option.map_map]
    rfl

theorem step_grasped {S : Setup} {c c' : Conf Shared Pc} {a : Nat × Answer} (hg : Grasped c)
    (hh : HeldOnce c) (hst : step (program S) c a = some c') : Grasped c' := by
  obtain ⟨pc, sh', pc', hpc, hp, rfl⟩ := step_cases hst
  have hmem := List.mem_of_getElem? hpc
  refine ⟨fun u hu hcrashed => ?_, fun k hk => ?_⟩
  · obtain ⟨j, hj⟩ := List.getElem?_of_mem hu
    rw [List.getElem?_set] at hj
    split at hj
    · split at hj
      · cases hj
        by_cases hpc' : pc.crashed = true
        · rcases (crashed_held hpc').2 hp with hcr | hnone
          · rw [hcrashed] at hcr
            cases hcr
          · exact fun x hx => absurd (hnone ▸ hx) List.not_mem_nil
        rcases calm_or_dropped hp with he | hcr | hnone
        · have hsub := pc.owned_sublist
          exact he.owns (hg.owns pc hmem (by simpa using hpc')) rfl (hsub.nodup (hh.nodup hmem))
            pc.held_active hg.queued
        · rw [hcrashed] at hcr
          cases hcr
        · exact fun x hx => absurd (hnone ▸ hx) List.not_mem_nil
      · cases hj
    · rename_i hne
      intro x hx
      have hxk := Pc.owned_keys hx
      have hold := List.mem_of_getElem? hj
      have hnot : x.1 ∉ pc.keys := fun hmine => hne (hh.apart hpc hj hmine hxk)
      rw [state_unheld hp (hh.seen_of_mem hold hxk) hnot]
      exact hg.owns u hold hcrashed x hx
  · rcases (step_effect hp).new_copies hk with hold | ⟨hmine, hstore⟩
    · have hstate := hg.queued k hold
      have hnot : k ∉ pc.keys := fun hmine => by
        have := hh.not_queued hmem hmine
        omega
      rw [state_unheld hp ⟨.queued, hstate, nofun⟩ hnot]
      exact hstate
    · rw [hstore]
      by_cases hcrashed : pc.crashed = true
      · exact absurd hmine ((crashed_held hcrashed).1 k)
      · exact hg.owns pc hmem (by simpa using hcrashed) _ hmine

theorem start_grasped (S : Setup) : Grasped (start S) where
  owns pc hpc _ x hx := by
    rw [held_start pc hpc] at hx
    cases hx
  queued k hk := by
    have hzero : (start S).shared.copies k = 0 := rfl
    omega

/-- **Every task answers for its keys** in every run, unless it is cleaning up after a panic. -/
theorem grasped {S : Setup} {ok : Conf Shared Pc → Nat × Answer → Prop} {c : Conf Shared Pc}
    (hr : Reach (program S) ok (start S) c) : Grasped c :=
  hr.invariant (start_grasped S) fun _ _ _ hr hg _ hst => step_grasped hg (held_once hr) hst

end P2PCrawler
