import P2PCrawler.Crawler.Queues
import P2PCrawler.Crawler.Termination

/-!
# Why the queues are closed

The queues are closed from five places: the start check, the last `finish`, the node limit,
Ctrl+C, and the join loop after a panic.

* `stops` — whoever closes the queues early has raised a flag before.
* `closed_why` — without a panic, closed queues mean that the run was stopped early or that no
  entry is active.
-/

set_option autoImplicit false

namespace P2PCrawler

open ThreadPool

/-- What the position of a task says about the flags and the queues. -/
def StopOk (sh : Shared) : Pc → Prop
  | .main (.seeding _) | .main (.seedEnqueue ..) | .main .startCheck =>
    ∀ t, (sh.queue t).closed = false
  | .main (.joinClose _) | .signal .closing => sh.shutdown = true
  | .worker _ (.discarding ..) | .worker _ .discardClose => sh.nodeLimitReached = true
  -- only a panic leads here
  | .worker _ (.crashed _) | .worker _ (.crashedShutdown _) | .worker _ (.crashedFinish ..)
  | .worker _ .crashedClose => False
  | _ => True

theorem enqueueStep_open {S : Setup} {sh : Shared} (k : AddrKey) (e : EnqueuePc)
    (h : ∀ t, (sh.queue t).closed = false) (t : Transport) :
    ((enqueueStep S.digests sh k e).1.queue t).closed = false := by
  cases e with
  | send t' =>
    simp only [enqueueStep]
    split
    · rename_i sh' hsend
      obtain ⟨-, -, rfl⟩ := Shared.trySend_some hsend
      by_cases ht : t = t'
      · subst ht; simpa using h t
      · simpa [ht] using h t
    · exact h t
  | _ => exact h t

theorem mainStep_stop {S : Setup} {sh sh' : Shared} {a : Answer} {p p' : MainPc}
    (h : mainStep S sh a p = some (sh', p')) (hok : StopOk sh (.main p)) :
    StopOk sh' (.main p') := by
  cases p with
  | seeding rest =>
    cases rest with
    | nil => cases h; exact hok
    | cons k rest => cases h; split <;> exact hok
  | seedEnqueue rest k e => cases h; split <;> exact enqueueStep_open k e hok
  | joining joined =>
    simp only [mainStep] at h
    split at h
    · cases h; trivial
    · split at h <;> split at h <;> cases h <;> trivial
  | awaitSignals | awaitCheckpoint | stopping | writing =>
    simp only [mainStep] at h
    split at h <;> cases h <;> trivial
  | flushing r call =>
    obtain ⟨-, ⟨_, rfl⟩ | ⟨res, rfl⟩⟩ := logStep_effect h
    · trivial
    · cases res <;> trivial
  | startCheck | checkWorkers | finalFlush => cases h; split <;> trivial
  | joinShutdown => cases h; rfl
  | finished => cases h
  | _ => cases h; trivial

theorem loopStep_stop {S : Setup} {sh sh' : Shared} {t : Transport} {p p' : WorkerPc}
    (h : loopStep S sh t p = some (sh', p')) (hok : StopOk sh (.worker t p)) :
    StopOk sh' (.worker t p') := by
  cases loopStep_cases h with
  | limit => rfl
  | @discard k f | @discarded k f =>
    obtain ⟨store, queue, he⟩ := finishStep_frame sh k f
    rw [he]
    exact hok
  | crash | shutdown | crashFinish | crashFinished | crashClose => exact hok.elim
  | _ => trivial

/-- Whoever closes the queues early has raised a flag before. -/
theorem stops {S : Setup} {c : Conf Shared Pc} (hr : Reach (program S) noPanic (start S) c) :
    Holds StopOk c := by
  refine hr.invariant (I := Holds StopOk) ?_ ?_
  · intro i pc hpc
    rcases mem_start (List.mem_of_getElem? hpc) with rfl | rfl | rfl | rfl | ⟨t, rfl, -⟩
    · exact fun _ => rfl
    all_goals trivial
  · intro c a c' hr ih hok hst
    refine ih.step hst ?_ ?_
    · intro pc sh' pc' hpc hp
      have hmine := ih _ _ hpc
      rcases program_cases hp with ⟨p, p', rfl, rfl, hs⟩ | ⟨p, p', rfl, rfl, hs⟩ |
        ⟨p, p', rfl, rfl, -⟩ | ⟨L, rfl, rfl, -, -⟩ | ⟨t, p, p', rfl, rfl, hs⟩
      · exact mainStep_stop hs hmine
      · cases p <;> simp only [signalStep] at hs
        · split at hs <;> cases hs
          trivial
        · cases hs; rfl
        · cases hs; trivial
        · split at hs <;> cases hs
          trivial
      iterate 2 trivial
      rcases workerStep_cases hs with ⟨k, q, rfl, hpanic, -, -⟩ | ⟨k, q, next, rfl, -, hstep, rfl⟩ |
        ⟨-, -, -, -, rfl, rfl⟩ | ⟨-, -, -, hstep⟩
      · rw [show a.2.panic = false from hok] at hpanic; cases hpanic
      · cases next <;> trivial
      · trivial
      · exact loopStep_stop hstep hmine
    · intro pc sh' pc' j u hpc hp hj hu hold
      have he := step_effect hp
      cases u with
      | main q =>
        have hne : ∀ p, pc ≠ .main p := by
          rintro p rfl
          exact hj ((main_index hr hu).trans (main_index hr hpc).symm)
        have hphase := phases hr _ _ hu
        cases q with
        | seeding | seedEnqueue | startCheck =>
          obtain ⟨-, hq, -⟩ := idle_before_spawn hr hphase hpc hp hne
          simp only [StopOk, hq] at hold ⊢
          exact hold
        | joinClose => exact he.flags.shutdown hold
        | _ => trivial
      | signal q =>
        cases q with
        | closing => exact he.flags.shutdown hold
        | _ => trivial
      | worker t p =>
        cases p with
        | discarding | discardClose => exact he.flags.nodeLimitReached hold
        | crashed | crashedShutdown | crashedFinish | crashedClose => exact hold.elim
        | _ => trivial
      | _ => trivial

/-! ## Closing -/

/-- The run was stopped early, or nothing is active. -/
def Settled (sh : Shared) : Prop := sh.terminatedEarly = true ∨ sh.store.activeCount = 0

theorem finishStep_close {sh : Shared} {k : AddrKey} {f : FinishPc}
    (h : (finishStep sh k f).2 = some .close) : f = .decr ∧ sh.store.outstanding = 1 := by
  cases f with
  | write terminal reason =>
    simp only [finishStep] at h
    split at h
    · cases h
    · split at h <;> cases h
  | decr =>
    simp only [finishStep] at h
    split at h
    · rename_i hone; exact ⟨rfl, hone⟩
    · cases h
  | close => cases h

theorem taskStep_close {S : Setup} {sh sh' : Shared} {t : Transport} {k : AddrKey} {a : Answer}
    {p p' : TaskPc} (h : taskStep S sh t k a p = some (sh', some p'))
    (hclose : (Pc.worker t (.task k p')).inFinish = some .close) :
    (Pc.worker t (.task k p)).inFinish = some .decr ∧ sh.store.outstanding = 1 := by
  cases p with
  | abandoning f =>
    cases hnext : (finishStep sh k f).2 <;> simp only [taskStep, hnext] at h <;> cases h
    all_goals cases hclose
    obtain ⟨rfl, hone⟩ := finishStep_close hnext
    exact ⟨rfl, hone⟩
  | finishing f =>
    cases hnext : (finishStep sh k f).2 <;> simp only [taskStep, hnext] at h <;> cases h
    all_goals cases hclose
    obtain ⟨rfl, hone⟩ := finishStep_close hnext
    exact ⟨rfl, hone⟩
  | everConnected n kind => cases h; unfold retryOrFinish at hclose; split at hclose <;> cases hclose
  | handshakeTimeout n => cases h; unfold retryOrFinish at hclose; split at hclose <;> cases hclose
  | handshakeFailed n kind =>
    cases h; unfold retryOrFinish at hclose; split at hclose <;> cases hclose
  | malformedLog c call =>
    obtain ⟨-, ⟨_, heq⟩ | ⟨res, heq⟩⟩ := logStep_effect h
    · cases heq; cases hclose
    · cases res <;> cases heq <;> cases hclose
  | blockLog c parsed now call =>
    obtain ⟨-, ⟨_, heq⟩ | ⟨res, heq⟩⟩ := logStep_effect h
    · cases heq; cases hclose
    · cases res <;> cases heq <;> cases hclose
  | outcomeLog c call =>
    obtain ⟨-, ⟨_, heq⟩ | ⟨res, heq⟩⟩ := logStep_effect h
    · cases heq; cases hclose
    · cases res <;> cases heq <;> cases hclose
  | upserting c count now rest =>
    cases rest with
    | nil => cases h; cases hclose
    | cons addr rest => cases h; unfold upsertNext at hclose; split at hclose <;> cases hclose
  | enqueueing c count now rest key e =>
    cases hnext : (enqueueStep S.digests sh key e).2 <;> simp only [taskStep, hnext] at h <;>
      cases h <;> cases hclose
  | connecting | sendVersion | handshaking | collecting | malformedGuard | messageGuard
    | outcomeGuard | resending | shuffling =>
    simp only [taskStep] at h
    split at h <;> cases h <;> cases hclose
  | handshaken | getaddr | malformedCount | breakdown | messageDone | outcomeWrite =>
    cases h
    split at hclose <;> cases hclose
  | _ => cases h; cases hclose

/-- A task comes to close the queues by the decrement that takes the counter to zero. -/
theorem comes_to_close {S : Setup} {sh sh' : Shared} {pc pc' : Pc} {a : Answer}
    (h : program S sh pc a = some (sh', pc')) (hclose : pc'.inFinish = some .close) :
    pc.inFinish = some .decr ∧ sh.store.outstanding = 1 := by
  rcases program_cases h with ⟨p, p', rfl, rfl, hs⟩ | ⟨p, p', rfl, rfl, hs⟩ |
    ⟨p, p', rfl, rfl, hs⟩ | ⟨L, rfl, rfl, -, rfl⟩ | ⟨w, p, p', rfl, rfl, hs⟩
  · cases hclose
  · cases hclose
  · cases hclose
  · cases hclose
  · rcases workerStep_cases hs with ⟨k, q, rfl, -, -, rfl⟩ | ⟨k, q, next, rfl, -, hstep, rfl⟩ |
      ⟨-, -, -, -, -, rfl⟩ | ⟨hq, -, -, hstep⟩
    · cases hclose
    · cases next with
      | none => cases hclose
      | some q' => exact taskStep_close hstep hclose
    · cases hclose
    · cases loopStep_cases hstep with
      | discard hf | crashFinish hf =>
        cases hclose
        obtain ⟨rfl, hone⟩ := finishStep_close hf
        exact ⟨rfl, hone⟩
      | _ => cases hclose

/-- Who closes the queues. -/
theorem Effect.closes {does : Intent} {sh sh' : Shared} {h h' : Held}
    (he : Effect does sh h sh' h') {t : Transport} (hopen : (sh.queue t).closed = false)
    (hclosed : (sh'.queue t).closed = true) : does = .close := by
  have hkeep : (sh'.queue t).closed = (sh.queue t).closed → False := by
    intro hq
    rw [hq, hopen] at hclosed
    cases hclosed
  cases he with
  | close hs hq hf ho => exact ho
  | aside hs hq hf => exact (hkeep (by rw [hq])).elim
  | forfeit hwhy hs hq hf => exact (hkeep (by rw [hq])).elim
  | @push t' k own ho hopen' hroom =>
    refine (hkeep ?_).elim
    by_cases ht : t = t'
    · subst ht; simp
    · simp [ht]
  | @pop t' k rest own ho hitems =>
    refine (hkeep ?_).elim
    by_cases ht : t = t'
    · subst ht; simp [Shared.pop]
    · simp [Shared.pop, ht]
  | _ => exact (hkeep rfl).elim

/-- A task that intends to close is the last `finish`, the start check, or has raised a flag. -/
theorem intent_close {S : Setup} {sh : Shared} {pc : Pc} (hi : pc.intent S = .close)
    (hok : StopOk sh pc) :
    pc.inFinish = some .close ∨ pc = .main .startClose ∨ sh.terminatedEarly = true := by
  have hearly : sh.shutdown = true ∨ sh.nodeLimitReached = true → sh.terminatedEarly = true := by
    simp [Shared.terminatedEarly]
  cases pc with
  | main p =>
    cases p with
    | startClose => exact .inr (.inl rfl)
    | joinClose joined => exact .inr (.inr (hearly (.inl hok)))
    | seeding rest => cases rest <;> cases hi
    | seedEnqueue rest k e => cases e <;> cases hi
    | _ => cases hi
  | signal p =>
    cases p with
    | closing => exact .inr (.inr (hearly (.inl hok)))
    | _ => cases hi
  | worker t p =>
    cases p with
    | discarding k f => exact .inr (.inr (hearly (.inr hok)))
    | discardClose => exact .inr (.inr (hearly (.inr hok)))
    | crashedFinish | crashedClose => exact hok.elim
    | task k p =>
      cases p with
      | abandoning f => cases f <;> cases hi; exact .inl rfl
      | finishing f => cases f <;> cases hi; exact .inl rfl
      | upserting c count now rest => cases rest <;> cases hi
      | enqueueing c count now rest key e => cases e <;> cases hi
      | _ => cases hi
    | _ => cases hi
  | _ => cases hi

theorem terminatedEarly_mono {sh sh' : Shared} (hf : sh.flags.Le sh'.flags)
    (h : sh.terminatedEarly = true) : sh'.terminatedEarly = true := by
  simp only [Shared.terminatedEarly, Bool.or_eq_true] at h ⊢
  exact h.imp hf.shutdown hf.nodeLimitReached

/-- With no active entry, only the main task observes anything. -/
theorem seeding_of_observe {S : Setup} {c : Conf Shared Pc} (hb : Books c)
    (hzero : c.shared.store.activeCount = 0) {pc : Pc} (hpc : pc ∈ c.threads) {o : Observation}
    (ho : pc.intent S = .observe o) : ∃ rest, pc = .main (.seeding rest) := by
  rcases intent_observe ho with ⟨k, rest, rfl, -⟩ | ⟨t, k, c, count, now, addr, rest, rfl, -⟩
  · exact ⟨_, rfl⟩
  · have hk := hb.owns hpc (k, .processing) (List.mem_singleton.mpr rfl)
    have := NodeStore.activeCount_pos hk rfl
    omega

/-- Once nothing is active, nothing becomes active, unless the task seeds. -/
theorem Effect.stays_inactive {does : Intent} {sh sh' : Shared} {h h' : Held}
    (he : Effect does sh h sh' h') (hown : Owns sh h) (hact : ∀ x ∈ h.owned, x.2.active = true)
    (hzero : sh.store.activeCount = 0) (hobs : ∀ o, does ≠ .observe o) :
    sh'.store.activeCount = 0 := by
  have hnone : ∀ x ∈ h.owned, False := by
    intro x hx
    have := NodeStore.activeCount_pos (hown x hx) (hact x hx)
    omega
  cases he with
  | aside hs hq hf => rw [hs]; exact hzero
  | close hs hq hf => rw [hs]; exact hzero
  | forfeit hwhy hs hq hf => rw [hs]; exact hzero
  | write hmem hf => exact (hnone _ hmem).elim
  | switch => exact (hnone _ (List.mem_cons_self ..)).elim
  | settle => exact (hnone _ (List.mem_cons_self ..)).elim
  | push => exact hzero
  | pop => exact hzero
  | refresh ho => exact absurd ho (hobs _)
  | reject ho => exact absurd ho (hobs _)
  | park ho => exact absurd ho (hobs _)
  | discover ho => exact absurd ho (hobs _)
  | revive ho => exact absurd ho (hobs _)
  | incr | decr => exact hzero

/-- **Why the queues are closed.**  Without a panic, a closed queue, or a `finish` about to close
    the queues, means that the run was stopped early or that no entry is active. -/
theorem closed_why {S : Setup} {c : Conf Shared Pc} (hr : Reach (program S) noPanic (start S) c)
    (h : (∃ t, (c.shared.queue t).closed = true) ∨ ∃ pc ∈ c.threads, pc.inFinish = some .close) :
    Settled c.shared := by
  refine hr.invariant (I := fun c => ((∃ t, (c.shared.queue t).closed = true) ∨
    ∃ pc ∈ c.threads, pc.inFinish = some .close) → Settled c.shared) ?_ ?_ h
  · rintro (⟨t, ht⟩ | ⟨pc, hpc, hclose⟩)
    · cases ht
    · rcases mem_start hpc with rfl | rfl | rfl | rfl | ⟨t, rfl, -⟩ <;> cases hclose
  · intro c a c' hr ih hok hst hprem
    obtain ⟨pc, sh', pc', hpc, hp, rfl⟩ := step_cases hst
    have hb := books hr (not_panicked hr)
    have he := step_effect hp
    have hmem := List.mem_of_getElem? hpc
    have hstop := stops hr _ _ hpc
    -- what the step is about to do keeps a settled run settled
    have hkeep : Settled c.shared → (∀ rest, pc ≠ .main (.seeding rest)) → Settled sh' := by
      rintro (hearly | hzero) hne
      · exact .inl (terminatedEarly_mono he.flags hearly)
      · refine .inr (he.stays_inactive (hb.owns hmem) pc.held_active hzero fun o ho => ?_)
        obtain ⟨rest, hpc'⟩ := seeding_of_observe hb hzero hmem ho
        exact hne rest hpc'
    -- while the main task seeds, the queues are open and nobody has moved
    have hseeding : ∀ rest, pc = .main (.seeding rest) →
        (∀ t, (c.shared.queue t).closed = false) ∧ ∀ u ∈ c.threads, u.inFinish = none := by
      rintro rest rfl
      refine ⟨hstop, fun u hu => ?_⟩
      have hphase : c.shared.spawned = false := phases hr _ _ hpc
      have hu' : PhaseOk c.shared u := (phases hr).of_mem hu
      cases u with
      | worker t p => have := hu' hphase; subst this; rfl
      | _ => rfl
    by_cases hold : (∃ t, (c.shared.queue t).closed = true) ∨
        ∃ pc ∈ c.threads, pc.inFinish = some .close
    · refine hkeep (ih hold) fun rest hrest => ?_
      obtain ⟨hopen, hnone⟩ := hseeding rest hrest
      rcases hold with ⟨t, ht⟩ | ⟨u, hu, hclose⟩
      · rw [hopen t] at ht; cases ht
      · rw [hnone u hu] at hclose; cases hclose
    · obtain ⟨hopen, hnone⟩ := not_or.mp hold
      rcases hprem with ⟨t, ht⟩ | ⟨u, hu, hclose⟩
      · have hopen' : (c.shared.queue t).closed = false := by
          by_contra hc
          exact hopen ⟨t, by simpa using hc⟩
        have hi := he.closes hopen' ht
        rcases intent_close hi hstop with hf | rfl | hearly
        · exact absurd ⟨pc, hmem, hf⟩ hnone
        · -- the start check has found nothing
          have hzero : c.shared.store.outstanding = 0 := spawnOk hr _ _ hpc
          refine hkeep (.inr ?_) nofun
          have hout := outstanding_eq hb
          have hback := c.shared.backlog_nonneg
          have hw := load_nonneg Pc.weight_nonneg c.threads
          have hactive := hb.active
          have hshare : load Pc.share c.threads = 0 := by
            refine load_eq_zero fun u hu => ?_
            have := le_load Pc.weight_nonneg hu
            have := u.weight_nonneg
            have hnil : u.held.owned = [] := by
              by_cases hmain : ∃ q, u = .main q
              · obtain ⟨q, rfl⟩ := hmain
                obtain ⟨j, hj⟩ := List.getElem?_of_mem hu
                rw [main_index hr hj, ← main_index hr hpc, hpc] at hj
                cases hj
                rfl
              · exact owned_eq_nil_of_weight (by omega) fun p e => absurd ⟨p, e⟩ hmain
            simp [Pc.share, hnil]
          simp only [total, activeLedger] at hactive
          omega
        · exact .inl (terminatedEarly_mono he.flags hearly)
      · rcases List.mem_or_eq_of_mem_set hu with hu | rfl
        · exact absurd ⟨u, hu, hclose⟩ hnone
        · obtain ⟨hdecr, hone⟩ := comes_to_close hp hclose
          refine hkeep (.inr (nothing_left hr hpc hdecr hone).2.1) ?_
          rintro rest rfl
          cases hdecr

end P2PCrawler
