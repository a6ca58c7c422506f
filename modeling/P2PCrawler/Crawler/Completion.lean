import P2PCrawler.Crawler.Ending

/-!
# Complete runs

The final manifest says `run_complete` from three flags and the result of `run`, set by different
tasks.

* `panic_seen` — a panic is on its way to the main task, or has raised `worker_failed`.
* `finals` — once a manifest says `run_complete`, the state it was taken from stays.

## Results

* `run_complete_sound_iff` — **a complete run is complete**: a manifest that says so lists no
  unfinished entry and no key was left in a queue, exactly for the setups that have a worker or no
  seed; the crawler's always do.
-/

set_option autoImplicit false

namespace P2PCrawler

open ThreadPool

/-! ## Panics -/

/-- Where the news of a panic is. -/
def PanicSeen (c : Conf Shared Pc) : Prop :=
  c.shared.workerFailed = true ∨ 0 < c.shared.failedJoins ∨
    (∃ t k, Pc.worker t (.crashed k) ∈ c.threads) ∨ ∃ n, Pc.main (.joinFailed n) ∈ c.threads

/-- A thread other than the moving one is still there. -/
theorem mem_set_of_ne {ts : List Pc} {i : Nat} {pc pc' u : Pc} (hpc : ts[i]? = some pc)
    (hu : u ∈ ts) (hne : u ≠ pc) : u ∈ ts.set i pc' := by
  obtain ⟨j, hj⟩ := List.getElem?_of_mem hu
  have hij : i ≠ j := by
    rintro rfl
    rw [hpc] at hj
    cases hj
    exact hne rfl
  exact List.mem_of_getElem? (by rw [List.getElem?_set_ne hij]; exact hj)

theorem mainStep_failedJoins {S : Setup} {sh sh' : Shared} {a : Answer} {p p' : MainPc}
    (h : mainStep S sh a p = some (sh', p')) :
    sh'.failedJoins = sh.failedJoins ∨ ∃ n, p' = .joinFailed n := by
  cases p with
  | seeding rest => cases rest <;> (cases h; exact .inl rfl)
  | seedEnqueue rest k e =>
    cases h
    obtain ⟨store, queue, enqueued, he⟩ := enqueueStep_frame S.digests sh k e
    rw [he]
    exact .inl rfl
  | joining joined =>
    simp only [mainStep] at h
    split at h
    · cases h; exact .inl rfl
    · split at h <;> split at h <;> cases h
      · exact .inr ⟨_, rfl⟩
      · exact .inl rfl
  | awaitSignals | awaitCheckpoint | stopping | writing =>
    simp only [mainStep] at h
    split at h <;> cases h <;> exact .inl rfl
  | flushing r call => obtain ⟨hsh, -⟩ := logStep_effect h; rw [hsh]; exact .inl rfl
  | finished => cases h
  | _ => cases h; exact .inl rfl

/-- A panic is on its way to the main task, or `worker_failed` is set. -/
theorem panic_seen {S : Setup} {ok : Conf Shared Pc → Nat × Answer → Prop} {c : Conf Shared Pc}
    (hr : Reach (program S) ok (start S) c) (hp : c.shared.panicked = true) : PanicSeen c := by
  refine hr.invariant (I := fun c => c.shared.panicked = true → PanicSeen c)
    (fun h => by cases h) ?_ hp
  intro c a c' _ ih _ hst hpanic
  obtain ⟨pc, sh', pc', hpc, hp, rfl⟩ := step_cases hst
  have hmem' : pc' ∈ c.threads.set a.1 pc' := List.mem_set (List.getElem?_eq_some_iff.mp hpc).1 _
  have hflags := (step_effect hp).flags
  rcases program_cases hp with ⟨p, p', rfl, rfl, hs⟩ | ⟨p, p', rfl, rfl, hs⟩ |
    ⟨p, p', rfl, rfl, hs⟩ | ⟨L, rfl, rfl, -, rfl⟩ | ⟨t, p, p', rfl, rfl, hs⟩
  · have hold : c.shared.panicked = true := by rw [← (mainStep_frame hs).1]; exact hpanic
    rcases mainStep_failedJoins hs with hsame | ⟨n, rfl⟩
    · rcases ih hold with h | h | ⟨t, k, h⟩ | ⟨n, h⟩
      · exact .inl (hflags.workerFailed h)
      · exact .inr (.inl (by rw [hsame]; exact h))
      · exact .inr (.inr (.inl ⟨t, k, mem_set_of_ne hpc h nofun⟩))
      · by_cases hne : Pc.main (.joinFailed n) = .main p
        · cases hne; cases hs; exact .inl rfl
        · exact .inr (.inr (.inr ⟨n, mem_set_of_ne hpc h hne⟩))
    · exact .inr (.inr (.inr ⟨n, hmem'⟩))
  · obtain ⟨_, _, _, _, rfl⟩ := signalStep_frame hs
    rcases ih hpanic with h | h | ⟨t, k, h⟩ | ⟨n, h⟩
    · exact .inl h
    · exact .inr (.inl h)
    · exact .inr (.inr (.inl ⟨t, k, mem_set_of_ne hpc h nofun⟩))
    · exact .inr (.inr (.inr ⟨n, mem_set_of_ne hpc h nofun⟩))
  · obtain ⟨_, _, _, _, _, rfl⟩ := checkpointStep_frame hs
    rcases ih hpanic with h | h | ⟨t, k, h⟩ | ⟨n, h⟩
    · exact .inl h
    · exact .inr (.inl h)
    · exact .inr (.inr (.inl ⟨t, k, mem_set_of_ne hpc h nofun⟩))
    · exact .inr (.inr (.inr ⟨n, mem_set_of_ne hpc h nofun⟩))
  · rcases ih hpanic with h | h | ⟨t, k, h⟩ | ⟨n, h⟩
    · exact .inl h
    · exact .inr (.inl h)
    · exact .inr (.inr (.inl ⟨t, k, mem_set_of_ne hpc h nofun⟩))
    · exact .inr (.inr (.inr ⟨n, mem_set_of_ne hpc h nofun⟩))
  · rcases workerStep_cases hs with ⟨k, q, rfl, -, rfl, rfl⟩ | ⟨k, q, next, rfl, -, hstep, rfl⟩ |
      ⟨-, -, -, -, rfl, rfl⟩ | ⟨-, -, -, hstep⟩
    · exact .inr (.inr (.inl ⟨t, k, hmem'⟩))
    · obtain ⟨_, _, _, _, _, _, rfl⟩ := (taskStep_frame hstep).eq
      rcases ih hpanic with h | h | ⟨t', k', h⟩ | ⟨n, h⟩
      · exact .inl h
      · exact .inr (.inl h)
      · exact .inr (.inr (.inl ⟨t', k', mem_set_of_ne hpc h nofun⟩))
      · exact .inr (.inr (.inr ⟨n, mem_set_of_ne hpc h nofun⟩))
    · exact .inr (.inl (Nat.succ_pos _))
    · have hold : c.shared.panicked = true := by
        obtain ⟨_, _, _, _, _, _, _, rfl, -⟩ := loopStep_frame hstep; exact hpanic
      have hjoins : sh'.failedJoins = c.shared.failedJoins := by
        obtain ⟨_, _, _, _, _, _, _, rfl, -⟩ := loopStep_frame hstep; rfl
      rcases ih hold with h | h | ⟨t', k', h⟩ | ⟨n, h⟩
      · exact .inl (hflags.workerFailed h)
      · exact .inr (.inl (by rw [hjoins]; exact h))
      · by_cases hne : Pc.worker t' (.crashed k') = .worker t p
        · cases hne; cases hstep; exact .inl rfl
        · exact .inr (.inr (.inl ⟨t', k', mem_set_of_ne hpc h hne⟩))
      · exact .inr (.inr (.inr ⟨n, mem_set_of_ne hpc h nofun⟩))

/-- Past the join loop, a run without failed workers has not panicked. -/
theorem not_panicked_of_past {S : Setup} {ok : Conf Shared Pc → Nat × Answer → Prop}
    {c : Conf Shared Pc} (hr : Reach (program S) ok (start S) c) {p : MainPc}
    (hmain : c.threads[0]? = some (.main p)) (hpast : p.past = true)
    (hw : c.shared.workerFailed = false) : c.shared.panicked = false := by
  by_contra hpanic
  obtain ⟨-, hjoins, hend⟩ := joined_all hr hmain hpast
  rcases panic_seen hr (by simpa using hpanic) with h | h | ⟨t, k, h⟩ | ⟨n, h⟩
  · rw [hw] at h; cases h
  · omega
  · have := hend t _ h; cases this
  · obtain rfl := main_unique hr hmain h
    cases hpast

/-! ## The final state -/

/-- What the positions of the main task and of the Ctrl+C task say about the flags. -/
def FlagOk (sh : Shared) : Pc → Prop
  | .signal .storing | .signal .closing => sh.signalBusy = true
  | .main .awaitSignals => sh.signalAborted = true
  | .main .checkWorkers => sh.signalAborted = true ∧ sh.signalBusy = false
  | .main .checkOutput => sh.signalAborted = true ∧ sh.signalBusy = false ∧ sh.workerFailed = false
  | .main (.stopping r) | .main (.awaitCheckpoint r) | .main (.finalFlush r) | .main (.flushing r _)
  | .main (.marking r) | .main (.writing r _ _) =>
    sh.signalAborted = true ∧ sh.signalBusy = false ∧ (r.isOk = true → sh.workerFailed = false)
  | .main .finished => sh.signalAborted = true ∧ sh.signalBusy = false
  | .checkpoint (.publishing m) => m.runComplete = false
  | _ => True

theorem mainStep_flag {S : Setup} {sh sh' : Shared} {a : Answer} {p p' : MainPc}
    (h : mainStep S sh a p = some (sh', p')) (hok : FlagOk sh (.main p)) :
    FlagOk sh' (.main p') := by
  cases p with
  | seeding rest =>
    cases rest with
    | nil => cases h; trivial
    | cons k rest => cases h; split <;> trivial
  | seedEnqueue rest k e => cases h; split <;> trivial
  | startCheck => cases h; split <;> trivial
  | joining joined =>
    simp only [mainStep] at h
    split at h
    · cases h; trivial
    · split at h <;> split at h <;> cases h <;> trivial
  | abortSignals => cases h; rfl
  | awaitSignals =>
    simp only [mainStep] at h
    split at h <;> cases h
    rename_i hbusy
    exact ⟨hok, by simpa using hbusy⟩
  | checkWorkers =>
    cases h
    split
    · exact ⟨hok.1, hok.2, (fun h => by cases h)⟩
    · rename_i hw; exact ⟨hok.1, hok.2, by simpa using hw⟩
  | checkOutput => cases h; exact ⟨hok.1, hok.2.1, fun _ => hok.2.2⟩
  | stopping r =>
    simp only [mainStep] at h
    split at h <;> cases h <;> exact hok
  | awaitCheckpoint r =>
    simp only [mainStep] at h
    split at h <;> cases h
    exact hok
  | finalFlush r => cases h; split <;> exact hok
  | flushing r call =>
    obtain ⟨hsh, ⟨_, rfl⟩ | ⟨res, rfl⟩⟩ := logStep_effect h
    · rw [hsh]; exact hok
    · rw [hsh]; cases res <;> exact hok
  | marking r => cases h; exact hok
  | writing r logOk durable =>
    simp only [mainStep] at h
    split at h <;> cases h <;> exact ⟨hok.1, hok.2.1⟩
  | finished => cases h
  | _ => cases h; trivial

/-- Once the main task has awaited it, the Ctrl+C task cannot move. -/
theorem signal_stuck {S : Setup} {sh : Shared} {a : Answer} {q : SignalPc}
    (hq : FlagOk sh (.signal q)) (habort : sh.signalAborted = true) (hbusy : sh.signalBusy = false) :
    program S sh (.signal q) a = none := by
  have hnone : signalStep sh q = none := by
    cases q with
    | waiting => simp [signalStep, habort]
    | armed => simp [signalStep, habort]
    | storing | closing =>
      have : sh.signalBusy = true := hq
      rw [hbusy] at this
      cases this
  unfold program
  split <;> simp [hnone]

/-- Past the join loop, no worker moves. -/
theorem worker_stuck {S : Setup} {ok : Conf Shared Pc → Nat × Answer → Prop} {c : Conf Shared Pc}
    (hr : Reach (program S) ok (start S) c) {p : MainPc} (hmain : c.threads[0]? = some (.main p))
    (hpast : p.past = true) {t : Transport} {w : WorkerPc} (hw : Pc.worker t w ∈ c.threads)
    (a : Answer) : program S c.shared (.worker t w) a = none := by
  have hend := (joined_all hr hmain hpast).2.2 t w hw
  have hnone : workerStep S c.shared t a w = none := by
    cases w <;> first | (simp [workerStep, WorkerPc.ended]; done) | cases hend
  unfold program
  split <;> simp [hnone]

theorem flags_ok {S : Setup} {ok : Conf Shared Pc → Nat × Answer → Prop} {c : Conf Shared Pc}
    (hr : Reach (program S) ok (start S) c) : Holds FlagOk c := by
  refine hr.invariant (I := Holds FlagOk) ?_ ?_
  · intro i pc hpc
    rcases mem_start (List.mem_of_getElem? hpc) with rfl | rfl | rfl | rfl | ⟨t, rfl, -⟩ <;> trivial
  · intro c a c' hr ih _ hst
    refine ih.step hst ?_ ?_
    · intro pc sh' pc' hpc hp
      have hmine := ih _ _ hpc
      rcases program_cases hp with ⟨p, p', rfl, rfl, hs⟩ | ⟨p, p', rfl, rfl, hs⟩ |
        ⟨p, p', rfl, rfl, hs⟩ | ⟨L, rfl, rfl, -, -⟩ | ⟨t, p, p', rfl, rfl, hs⟩
      · exact mainStep_flag hs hmine
      · cases p <;> simp only [signalStep] at hs
        · split at hs <;> cases hs
          rfl
        · cases hs; exact hmine
        · cases hs; trivial
        · split at hs <;> cases hs
          trivial
      · cases p with
        | cloning processed durable rest acc => cases rest <;> cases hs <;> trivial
        | idle =>
          simp only [checkpointStep] at hs
          split at hs
          · cases hs
          · split at hs
            · cases hs; trivial
            · split at hs <;> cases hs
              trivial
        | acquiring =>
          simp only [checkpointStep] at hs
          split at hs <;> cases hs
          split <;> trivial
        | flushing processed call =>
          obtain ⟨-, ⟨_, rfl⟩ | ⟨res, rfl⟩⟩ := logStep_effect hs
          · trivial
          · cases res <;> trivial
        | exited => cases hs
        | _ => cases hs; trivial
      · trivial
      · trivial
    · intro pc sh' pc' j u hpc hp hj hu hold
      rcases program_cases hp with ⟨p, p', rfl, rfl, hs⟩ | ⟨p, p', rfl, rfl, hs⟩ |
        ⟨p, p', rfl, rfl, hs⟩ | ⟨L, rfl, rfl, -, rfl⟩ | ⟨t, p, p', rfl, rfl, hs⟩
      · have hbusy := (mainStep_frame hs).2.2.2.2.2.1
        cases u with
        | main q => exact absurd ((main_index hr hu).trans (main_index hr hpc).symm) hj
        | signal q => cases q <;> first | trivial | exact hbusy.trans hold
        | checkpoint q => cases q <;> exact hold
        | _ => trivial
      · cases u with
        | main q =>
          obtain ⟨_, _, _, _, rfl⟩ := signalStep_frame hs
          have hstuck : c.shared.signalAborted = true → c.shared.signalBusy = false → False := by
            intro habort hbusy
            rw [signal_stuck (ih _ _ hpc) habort hbusy] at hp
            cases hp
          cases q <;> first | trivial | exact hold | exact (hstuck hold.1 hold.2.1).elim |
            exact (hstuck hold.1 hold.2).elim
        | signal q => exact absurd ((signal_index hr hu).trans (signal_index hr hpc).symm) hj
        | checkpoint q => cases q <;> exact hold
        | _ => trivial
      · obtain ⟨_, _, _, _, _, rfl⟩ := checkpointStep_frame hs
        exact hold
      · exact hold
      · cases u with
        | main q =>
          have hmain : c.threads[0]? = some (.main q) := by rw [← main_index hr hu]; exact hu
          have hstuck : q.past = true → False := by
            intro hpast
            rw [worker_stuck hr hmain hpast (List.mem_of_getElem? hpc)] at hp
            cases hp
          cases q <;> first | exact (hstuck rfl).elim | trivial
        | signal q => cases q <;> first | trivial | exact (workerStep_frame hs).2.1.trans hold
        | checkpoint q => cases q <;> exact hold
        | _ => trivial

/-- Nothing was cut short. -/
structure Uncut (sh : Shared) : Prop where
  shutdown : sh.shutdown = false
  nodeLimit : sh.nodeLimitReached = false
  workers : sh.workerFailed = false

/-- What a manifest that says `run_complete` was taken from. -/
structure Final (c : Conf Shared Pc) (m : Manifest) : Prop where
  finished : c.threads[0]? = some (.main .finished)
  snapshot : m.snapshot = c.shared.store.snapshot
  uncut : Uncut c.shared

theorem mainStep_manifest {S : Setup} {sh sh' : Shared} {a : Answer} {p p' : MainPc}
    (h : mainStep S sh a p = some (sh', p')) :
    sh'.manifest = sh.manifest ∨ ∃ r logOk durable, p = .writing r logOk durable ∧ p' = .finished ∧
      sh' = { sh with
        manifest := some (sh.finalManifest r logOk durable)
        exitCode := some (if r.isOk && logOk then .success else .failure) } := by
  cases p with
  | seeding rest => cases rest <;> (cases h; exact .inl rfl)
  | seedEnqueue rest k e =>
    cases h
    obtain ⟨store, queue, enqueued, he⟩ := enqueueStep_frame S.digests sh k e
    rw [he]
    exact .inl rfl
  | joining joined =>
    simp only [mainStep] at h
    split at h
    · cases h; exact .inl rfl
    · split at h <;> split at h <;> cases h <;> exact .inl rfl
  | awaitSignals | awaitCheckpoint | stopping =>
    simp only [mainStep] at h
    split at h <;> cases h <;> exact .inl rfl
  | flushing r call => obtain ⟨hsh, -⟩ := logStep_effect h; rw [hsh]; exact .inl rfl
  | writing r logOk durable =>
    simp only [mainStep] at h
    split at h <;> cases h
    · exact .inr ⟨r, logOk, durable, rfl, rfl, rfl⟩
    · exact .inl rfl
  | finished => cases h
  | _ => cases h; exact .inl rfl

theorem checkpointStep_manifest {S : Setup} {sh sh' : Shared} {a : Answer} {p p' : CheckpointPc}
    (h : checkpointStep S sh a p = some (sh', p')) :
    sh'.manifest = sh.manifest ∨ ∃ m, p = .publishing m ∧ sh'.manifest = some m := by
  cases p with
  | idle =>
    simp only [checkpointStep] at h
    split at h
    · cases h
    · split at h
      · cases h; exact .inl rfl
      · split at h <;> cases h
        exact .inl rfl
  | acquiring =>
    simp only [checkpointStep] at h
    split at h <;> cases h
    exact .inl rfl
  | flushing processed call => obtain ⟨hsh, -⟩ := logStep_effect h; rw [hsh]; exact .inl rfl
  | cloning processed durable rest acc => cases rest <;> (cases h; exact .inl rfl)
  | publishing m =>
    cases h
    split
    · exact .inr ⟨m, rfl, rfl⟩
    · exact .inl rfl
  | exited => cases h
  | _ => cases h; exact .inl rfl

/-- Once a manifest says `run_complete`, the state it was taken from stays. -/
theorem finals {S : Setup} {ok : Conf Shared Pc → Nat × Answer → Prop} {c : Conf Shared Pc}
    (hr : Reach (program S) ok (start S) c) {m : Manifest} (hm : c.shared.manifest = some m)
    (hcomplete : m.runComplete = true) : Final c m := by
  refine hr.invariant
    (I := fun c => ∀ m, c.shared.manifest = some m → m.runComplete = true → Final c m)
    (fun m hm => by cases hm) ?_ m hm hcomplete
  intro c a c' hr ih _ hst m hm hcomplete
  obtain ⟨pc, sh', pc', hpc, hp, rfl⟩ := step_cases hst
  have hflag := flags_ok hr _ _ hpc
  rcases program_cases hp with ⟨p, p', rfl, rfl, hs⟩ | ⟨p, p', rfl, rfl, hs⟩ |
    ⟨p, p', rfl, rfl, hs⟩ | ⟨L, rfl, rfl, -, rfl⟩ | ⟨t, p, p', rfl, rfl, hs⟩
  · have hidx := main_index hr hpc
    rcases mainStep_manifest hs with hsame | ⟨r, logOk, durable, rfl, rfl, rfl⟩
    · -- the manifest was there before, so the main task has finished
      have hfin := (ih m (by rw [← hsame]; exact hm) hcomplete).finished
      rw [hidx, hfin] at hpc
      cases hpc
      cases hs
    · obtain ⟨-, -, hw⟩ := hflag
      simp only [Option.some.injEq] at hm
      subst hm
      simp only [Shared.finalManifest, Bool.and_eq_true, Bool.not_eq_true', Shared.terminatedEarly,
        Bool.or_eq_false_iff] at hcomplete
      refine ⟨?_, rfl, hcomplete.2.1, hcomplete.2.2, hw hcomplete.1.1⟩
      simp only [hidx]
      rw [hidx] at hpc
      rw [List.getElem?_set_self (List.getElem?_eq_some_iff.mp hpc).1]
  · obtain ⟨_, _, _, _, rfl⟩ := signalStep_frame hs
    have hfin := (ih m hm hcomplete).finished
    obtain ⟨habort, hbusy⟩ := flags_ok hr _ _ hfin
    rw [signal_stuck hflag habort hbusy] at hp
    cases hp
  · have hkeep : sh'.manifest = c.shared.manifest → Final ⟨sh', c.threads.set a.1 (.checkpoint p')⟩ m := by
      intro hsame
      obtain ⟨hfin, hsnap, huncut⟩ := ih m (by rw [← hsame]; exact hm) hcomplete
      obtain ⟨_, _, _, _, _, rfl⟩ := checkpointStep_frame hs
      refine ⟨?_, hsnap, huncut.1, huncut.2, huncut.3⟩
      simp only [checkpoint_index hr hpc]
      rw [List.getElem?_set_ne (by decide)]
      exact hfin
    rcases checkpointStep_manifest hs with hsame | ⟨m', rfl, hpub⟩
    · exact hkeep hsame
    · have hincomplete : m'.runComplete = false := hflag
      rw [show sh'.manifest = some m' from hpub] at hm
      cases hm
      rw [hcomplete] at hincomplete
      cases hincomplete
  · obtain ⟨hfin, hsnap, huncut⟩ := ih m hm hcomplete
    refine ⟨?_, hsnap, huncut.1, huncut.2, huncut.3⟩
    have hidx : a.1 ≠ 0 := by
      intro h0
      rw [h0, hfin] at hpc
      cases hpc
    simp only
    rw [List.getElem?_set_ne hidx]
    exact hfin
  · have hfin := (ih m ((workerStep_frame hs).2.2.2.1 ▸ hm) hcomplete).finished
    rw [worker_stuck hr hfin rfl (List.mem_of_getElem? hpc)] at hp
    cases hp

/-! ## Enqueued keys -/

theorem enqueueStep_enqueued (H : Digests) (sh : Shared) (k : AddrKey) (e : EnqueuePc) :
    (enqueueStep H sh k e).1.enqueued = sh.enqueued ∨
      e = .route ∧ (enqueueStep H sh k e).1.enqueued = sh.enqueued ++ [k] := by
  cases e with
  | route => exact .inr ⟨rfl, rfl⟩
  | send t =>
    simp only [enqueueStep]
    split
    · rename_i sh' hsend
      obtain ⟨-, -, rfl⟩ := Shared.trySend_some hsend
      exact .inl rfl
    · exact .inl rfl
  | _ => exact .inl rfl

theorem taskStep_enqueued {S : Setup} {sh sh' : Shared} {t : Transport} {k : AddrKey} {a : Answer}
    {p : TaskPc} {next : Option TaskPc} (h : taskStep S sh t k a p = some (sh', next)) :
    sh'.enqueued = sh.enqueued ∨ ∃ key, (key, .queued) ∈ (p.held k).owned ∧
      sh'.enqueued = sh.enqueued ++ [key] := by
  cases p with
  | upserting c count now rest => cases rest <;> (cases h; exact .inl rfl)
  | enqueueing c count now rest key e =>
    cases h
    rcases enqueueStep_enqueued S.digests sh key e with hsame | ⟨rfl, hnew⟩
    · exact .inl hsame
    · exact .inr ⟨key, List.mem_append_left _ (List.mem_singleton.mpr rfl), hnew⟩
  | abandoning f =>
    cases h
    obtain ⟨store, queue, he⟩ := finishStep_frame sh k f
    rw [he]; exact .inl rfl
  | finishing f =>
    cases h
    obtain ⟨store, queue, he⟩ := finishStep_frame sh k f
    rw [he]; exact .inl rfl
  | resending terminal kind =>
    simp only [taskStep] at h
    split at h
    · rename_i sh₁ hsend
      obtain ⟨-, -, rfl⟩ := Shared.trySend_some hsend
      cases h; exact .inl rfl
    · cases h; exact .inl rfl
  | malformedLog c call => obtain ⟨hsh, -⟩ := logStep_effect h; rw [hsh]; exact .inl rfl
  | blockLog c parsed now call => obtain ⟨hsh, -⟩ := logStep_effect h; rw [hsh]; exact .inl rfl
  | outcomeLog c call => obtain ⟨hsh, -⟩ := logStep_effect h; rw [hsh]; exact .inl rfl
  | connecting | sendVersion | handshaking | collecting | malformedGuard | messageGuard
    | outcomeGuard | shuffling =>
    simp only [taskStep] at h
    split at h <;> cases h <;> exact .inl rfl
  | _ => cases h; exact .inl rfl

theorem mainStep_enqueued {S : Setup} {sh sh' : Shared} {a : Answer} {p p' : MainPc}
    (h : mainStep S sh a p = some (sh', p')) :
    sh'.enqueued = sh.enqueued ∨ ∃ key, (key, .queued) ∈ p.held.owned ∧
      sh'.enqueued = sh.enqueued ++ [key] := by
  cases p with
  | seeding rest => cases rest <;> (cases h; exact .inl rfl)
  | seedEnqueue rest k e =>
    cases h
    rcases enqueueStep_enqueued S.digests sh k e with hsame | ⟨rfl, hnew⟩
    · exact .inl hsame
    · exact .inr ⟨k, List.mem_singleton.mpr rfl, hnew⟩
  | joining joined =>
    simp only [mainStep] at h
    split at h
    · cases h; exact .inl rfl
    · split at h <;> split at h <;> cases h <;> exact .inl rfl
  | awaitSignals | awaitCheckpoint | stopping | writing =>
    simp only [mainStep] at h
    split at h <;> cases h <;> exact .inl rfl
  | flushing r call => obtain ⟨hsh, -⟩ := logStep_effect h; rw [hsh]; exact .inl rfl
  | finished => cases h
  | _ => cases h; exact .inl rfl

/-- A key joins the enqueued ones when a task that answers for it routes it. -/
theorem program_enqueued {S : Setup} {sh sh' : Shared} {pc pc' : Pc} {a : Answer}
    (h : program S sh pc a = some (sh', pc')) :
    sh'.enqueued = sh.enqueued ∨ ∃ key, (key, .queued) ∈ pc.held.owned ∧
      sh'.enqueued = sh.enqueued ++ [key] := by
  rcases program_cases h with ⟨p, p', rfl, rfl, hs⟩ | ⟨p, p', rfl, rfl, hs⟩ |
    ⟨p, p', rfl, rfl, hs⟩ | ⟨L, rfl, rfl, -, rfl⟩ | ⟨t, p, p', rfl, rfl, hs⟩
  · exact mainStep_enqueued hs
  · obtain ⟨_, _, _, _, rfl⟩ := signalStep_frame hs; exact .inl rfl
  · obtain ⟨_, _, _, _, _, rfl⟩ := checkpointStep_frame hs; exact .inl rfl
  · exact .inl rfl
  · rcases workerStep_cases hs with ⟨k, q, rfl, -, rfl, rfl⟩ | ⟨k, q, next, rfl, -, hstep, rfl⟩ |
      ⟨-, -, -, -, rfl, rfl⟩ | ⟨-, -, -, hstep⟩
    · exact .inl rfl
    · exact taskStep_enqueued hstep
    · exact .inl rfl
    · obtain ⟨_, _, _, _, _, _, _, rfl, -⟩ := loopStep_frame hstep; exact .inl rfl

/-- A key that was enqueued has an entry that is not stale. -/
theorem enqueued_known {S : Setup} {c : Conf Shared Pc} (hr : Reach (program S) noPanic (start S) c) :
    ∀ k ∈ c.shared.enqueued, ∃ st, c.shared.store.stateOf k = some st ∧ st ≠ .staleDiscarded := by
  refine hr.invariant (I := fun c => ∀ k ∈ c.shared.enqueued,
    ∃ st, c.shared.store.stateOf k = some st ∧ st ≠ .staleDiscarded) (fun k hk => by cases hk) ?_
  intro c a c' hr ih _ hst k hk
  obtain ⟨pc, sh', pc', hpc, hp, rfl⟩ := step_cases hst
  have he := step_effect hp
  have hold : (∃ st, c.shared.store.stateOf k = some st ∧ st ≠ .staleDiscarded) → ∃ st',
      sh'.store.stateOf k = some st' ∧ st' ≠ .staleDiscarded :=
    fun ⟨st, hk, hst⟩ => he.not_stale hk hst
  rcases program_enqueued hp with hsame | ⟨key, hkey, hnew⟩
  · exact hold (ih k (by rw [← hsame]; exact hk))
  · simp only [hnew, List.mem_append, List.mem_singleton] at hk
    rcases hk with hk | rfl
    · exact hold (ih k hk)
    · exact hold ⟨_, (books hr (not_panicked hr)).owns (List.mem_of_getElem? hpc) _ hkey, nofun⟩

/-! ## Complete runs are complete -/

/-- What `run_complete` promises: no entry is left over, every key that was ever enqueued has a
    verdict, and no key was lost to a close of the queues, neither in a queue nor on its way back
    for a retry. -/
structure Sound (S : Setup) (c : Conf Shared Pc) (m : Manifest) : Prop where
  settled : ∀ k e, (k, e) ∈ m.snapshot →
    e.state ≠ .queued ∧ e.state ≠ .processing ∧ e.state ≠ .budgetDiscarded
  verdicts : ∀ k ∈ c.shared.enqueued, ∃ e, (k, e) ∈ m.snapshot ∧
    (e.state = .reachable ∨ e.state = .handshakeFailed ∨ e.state = .unreachable)
  taken : ∀ t, (c.shared.queue t).items = []
  retried : ∀ k e, (k, e) ∈ m.snapshot → e.state = .handshakeFailed ∨ e.state = .unreachable →
    e.stats.handshakeAttempts < S.settings.handshakeAttempts →
      e.failure = some .handshakeTimeout ∧ S.settings.retryOnTimeout = false

/-- Some pool has a worker, or nothing is seeded. -/
def Setup.Manned (S : Setup) : Prop := 0 < S.settings.concurrency.total ∨ S.seedKeys = []

/-- The crawler keeps seeds of enabled networks only, and these have workers. -/
theorem Setup.OfCrawler.manned {S : Setup} (h : OfCrawler S) : S.Manned := by
  cases hkeys : S.seedKeys with
  | nil => exact .inr hkeys
  | cons k rest =>
    have hk : k ∈ S.admitted := by
      obtain ⟨n, hn⟩ := Nat.exists_eq_succ_of_ne_zero S.settings.maxAddresses_pos.ne'
      rw [Setup.admitted, hkeys, List.eraseDups_cons, hn, List.take_succ_cons]
      exact List.mem_cons_self ..
    have hpos := S.settings.staffed _ (h.seedsEnabled k hk)
    refine .inl ?_
    unfold Concurrency.total
    cases ht : (classify S.digests k.host).transport <;> rw [ht] at hpos <;>
      simp only [Concurrency.of] at hpos <;> omega

/-- After an uncut run of a manned crawl no entry is active. -/
theorem inactive_of_uncut {S : Setup} {c : Conf Shared Pc} {p : MainPc}
    (hmanned : S.Manned) (hr : Reach (program S) noPanic (start S) c)
    (hmain : c.threads[0]? = some (.main p)) (hpast : p.past = true) (hu : Uncut c.shared) :
    c.shared.store.activeCount = 0 := by
  have hok := not_panicked hr
  by_contra hne
  obtain ⟨k, st, hk, hact⟩ := NodeStore.exists_active_of_activeCount_pos (Nat.pos_of_ne_zero hne)
  have hstaffed : ∃ t, 0 < S.settings.concurrency.of t := by
    rcases hmanned with htotal | hnone
    · by_contra hempty
      simp only [not_exists, Nat.not_lt, Nat.le_zero] at hempty
      have hip := hempty .ip
      have htor := hempty .tor
      have hi2p := hempty .i2p
      simp only [Concurrency.of] at hip htor hi2p
      unfold Concurrency.total at htotal
      omega
    · -- without seeds an entry is of an enabled network
      have hseeds : S.SeedsEnabled := by
        intro k hk
        simp [Setup.admitted, hnone] at hk
      obtain ⟨e, he, -⟩ := NodeStore.stateOf_eq_some hk
      have hnet : c.shared.store.networkOf k = some e.network := by simp [NodeStore.networkOf, he]
      exact ⟨_, S.settings.staffed _ ((routed hseeds hr).entries k _ hnet)⟩
  obtain ⟨t, ht⟩ := hstaffed
  obtain ⟨hclosed, -⟩ := drained_of_past hr hok hmain hpast hu.shutdown ht
  rcases closed_why hr (.inl ⟨t, hclosed⟩) with hearly | hzero
  · simp [Shared.terminatedEarly, hu.shutdown, hu.nodeLimit] at hearly
  · exact hne hzero

/-- A manifest that says `run_complete` is right about it, if the crawl is manned. -/
theorem run_complete_sound {S : Setup} {c : Conf Shared Pc} (hmanned : S.Manned)
    (hr : Reachable (program S) (start S) c) {m : Manifest} (hm : c.shared.manifest = some m)
    (hcomplete : m.runComplete = true) : Sound S c m := by
  obtain ⟨hmain, hsnap, huncut⟩ := finals hr hm hcomplete
  have hok := not_panicked_of_past hr hmain rfl huncut.workers
  have hr := reach_noPanic hr hok
  have hzero := inactive_of_uncut hmanned hr hmain rfl huncut
  have hearly : c.shared.terminatedEarly = false := by
    simp [Shared.terminatedEarly, huncut.shutdown, huncut.nodeLimit]
  have hinactive : ∀ k e, c.shared.store.entry k = some e → e.state.active = false :=
    fun k e he => NodeStore.not_active_of_activeCount_eq_zero hzero (k := k)
      (by simp [NodeStore.stateOf, he])
  have hbudget : ∀ k e, c.shared.store.entry k = some e → e.state ≠ .budgetDiscarded := by
    intro k e he hst
    have hentry := (histories hr).entries k e he
    rw [hst] at hentry
    rcases hentry with ⟨-, h⟩ | ⟨-, h⟩
    · rw [hearly] at h; cases h
    · rw [huncut.nodeLimit] at h; cases h
  refine ⟨fun k e he => ?_, fun k hk => ?_, fun t => ?_, fun k e he hfailed hlt => ?_⟩
  · rw [hsnap, NodeStore.mem_snapshot] at he
    have hact := hinactive k e he
    refine ⟨?_, ?_, hbudget k e he⟩ <;>
    · intro hst
      rw [hst] at hact
      cases hact
  · obtain ⟨st, hst, hstale⟩ := enqueued_known hr k hk
    obtain ⟨e, he, rfl⟩ := NodeStore.stateOf_eq_some hst
    refine ⟨e, by rw [hsnap, NodeStore.mem_snapshot]; exact he, ?_⟩
    have hact := hinactive k e he
    have hbd := hbudget k e he
    cases hst' : e.state with
    | reachable => exact .inl rfl
    | handshakeFailed => exact .inr (.inl rfl)
    | unreachable => exact .inr (.inr rfl)
    | queued | processing => rw [hst'] at hact; cases hact
    | staleDiscarded => exact absurd hst' hstale
    | budgetDiscarded => exact absurd hst' hbd
  · have hshare : load Pc.share c.threads = 0 :=
      load_eq_zero fun pc hpc => by simp [Pc.share, nothing_held hr hmain rfl pc hpc]
    have hsum := (books hr (not_panicked hr)).active
    simp only [total, activeLedger, hshare] at hsum
    exact items_eq_nil_of_backlog (by omega) t
  · rw [hsnap, NodeStore.mem_snapshot] at he
    have hentry := (histories hr).entries k e he
    have hdead : e.history.Dead S c.shared.CutShort e.state := by
      rcases hfailed with hst | hst <;> rw [hst] at hentry ⊢ <;> exact hentry
    obtain ⟨kind, hkind, -, hspent⟩ := hdead.reason
    rcases hspent hlt with ⟨rfl, hretry⟩ | hcut
    · exact ⟨hkind, hretry⟩
    · have hstopped := hcut.2
      rw [hearly] at hstopped
      cases hstopped

/-! ## A run without workers -/

/-- One seed more is handled, whichever way. -/
theorem seed_handled {S : Setup} {sh : Shared} {ts : List Pc} {k : AddrKey} {rest : List AddrKey}
    (hr : Reachable (program S) (start S) ⟨sh, .main (.seeding (k :: rest)) :: ts⟩)
    (hs : Seeding S sh) :
    ∃ sh', Reachable (program S) (start S) ⟨sh', .main (.seeding rest) :: ts⟩ ∧ Seeding S sh' ∧
      ∀ k', sh.store.known k' = true → sh'.store.known k' = true := by
  cases he : sh.store.entry k with
  | some e =>
    obtain ⟨sh', hr', hs', hknown, -⟩ := seed_known hr hs he
    exact ⟨sh', hr', hs', fun k' hk => by rw [hknown]; exact hk⟩
  | none =>
    by_cases hroom : sh.store.entries < sh.store.maxEntries
    · obtain ⟨sh', hr', hs', hknown, -⟩ := seed_queued hr hs he hroom
      exact ⟨sh', hr', hs', fun k' hk => by simp [hknown, hk]⟩
    · have hobs : sh.store.observeSeed S.digests k S.seedTime = (sh.store.rejectEntry, false) := by
        unfold NodeStore.observeSeed NodeStore.reserveEntry
        rw [he, if_neg hroom]
      have hnext := main_step { sh with store := sh.store.rejectEntry } (.seeding rest)
        hr hs.alive (by simp only [mainStep, hobs]; rfl)
      obtain ⟨_, _, _, hshape⟩ := hs.shape
      refine ⟨_, hnext, ⟨⟨sh.store.rejectEntry, sh.queue, sh.enqueued, by rw [hshape]⟩, hs.queued,
        hs.opened, hs.capacity, hs.short⟩, fun k' hk => hk⟩

theorem seeds_handled {S : Setup} {ts : List Pc} : ∀ {rest : List AddrKey} {sh : Shared},
    Reachable (program S) (start S) ⟨sh, .main (.seeding rest) :: ts⟩ → Seeding S sh →
      ∃ sh', Reachable (program S) (start S) ⟨sh', .main (.seeding []) :: ts⟩ ∧ Seeding S sh' ∧
        ∀ k, sh.store.known k = true → sh'.store.known k = true
  | [], sh, hr, hs => ⟨sh, hr, hs, fun _ hk => hk⟩
  | k :: rest, sh, hr, hs => by
    obtain ⟨sh₁, hr₁, hs₁, h₁⟩ := seed_handled hr hs
    obtain ⟨sh₂, hr₂, hs₂, h₂⟩ := seeds_handled hr₁ hs₁
    exact ⟨sh₂, hr₂, hs₂, fun k hk => h₂ k (h₁ k hk)⟩

/-- Without workers, `run` of a probe returns at once, and the manifest says `run_complete`. -/
theorem empty_run {S : Setup} {sh : Shared} {ts : List Pc} (hprobe : S.isProbe = true)
    (hempty : S.settings.concurrency.total = 0)
    (hr : Reachable (program S) (start S) ⟨sh, .main .spawning :: ts⟩)
    (hshape : ∃ store queue enqueued, sh =
      { Shared.init S with store := store, queue := queue, enqueued := enqueued }) :
    ∃ c m, Reachable (program S) (start S) c ∧ c.shared.manifest = some m ∧ m.runComplete = true ∧
      m.snapshot = sh.store.snapshot := by
  obtain ⟨store, queue, enqueued, rfl⟩ := hshape
  have hcheckpoints : S.checkpoints = false := by simp [Setup.checkpoints, hprobe]
  have hlogging : S.logging = false := by simp [Setup.logging, hprobe]
  have h₁ := main_step _ (.joining 0) hr rfl rfl
  have h₂ := main_step _ .abortSignals h₁ rfl (if_pos hempty.symm)
  have h₃ := main_step _ .awaitSignals h₂ rfl rfl
  have h₄ := main_step _ .checkWorkers h₃ rfl rfl
  have h₅ := main_step _ .checkOutput h₄ rfl rfl
  have h₆ := main_step _ (.stopping .ok) h₅ rfl rfl
  have h₇ := main_step _ (.finalFlush .ok) h₆ rfl (if_neg (by simp [hcheckpoints]))
  have h₈ := main_step _ (.writing .ok true none) h₇ rfl (by unfold mainStep; rw [hlogging]; rfl)
  exact ⟨_, _, main_step _ .finished h₈ rfl rfl, rfl, rfl, rfl⟩

/-- A probe without workers leaves its targets queued and says `run_complete`. -/
theorem unmanned_unsound {S : Setup} (hempty : S.settings.concurrency.total = 0)
    (hseeds : S.seedKeys ≠ []) :
    ∃ c m, Reachable (program S) (start S) c ∧ c.shared.manifest = some m ∧ m.runComplete = true ∧
      ¬Sound S c m := by
  have hprobe : S.isProbe = true := by
    unfold Setup.isProbe
    split
    · rename_i hosts hing
      refine absurd ?_ hseeds
      unfold Setup.seedKeys
      simp only [hing, List.map_eq_nil_iff, List.filter_eq_nil_iff]
      intro h _ hen
      have := S.settings.staffed _ hen
      unfold Concurrency.total at hempty
      cases ht : (classify S.digests h).transport <;> rw [ht] at this <;>
        simp only [Concurrency.of] at this <;> omega
    · rfl
  obtain ⟨k, rest, hkeys⟩ := List.exists_cons_of_ne_nil hseeds
  -- the first target is stored as queued
  have hstart : Reachable (program S) (start S)
      ⟨(start S).shared, .main (.seeding (k :: rest)) :: (start S).threads.tail⟩ := by
    rw [← hkeys]
    exact .start
  obtain ⟨sh₁, hr₁, hs₁, hknown, -⟩ := seed_queued hstart (start_seeding S) rfl
    S.settings.maxAddresses_pos
  obtain ⟨sh₂, hr₂, hs₂, hkeep⟩ := seeds_handled hr₁ hs₁
  have hk : sh₂.store.known k = true := hkeep k (by rw [hknown]; simp)
  obtain ⟨net, hnet⟩ := Option.isSome_iff_exists.mp hk
  obtain ⟨e, he, -⟩ := Option.map_eq_some_iff.mp hnet
  -- `run` starts and has nobody to wait for
  obtain ⟨store, queue, enqueued, hshape⟩ := hs₂.shape
  have hcheckpoints : S.checkpoints = false := by simp [Setup.checkpoints, hprobe]
  have h₃ := main_step sh₂ .startCheck hr₂ hs₂.alive
    (by simp only [mainStep, hcheckpoints, hshape]; rfl)
  have hspawn : ∃ sh₃, Reachable (program S) (start S) ⟨sh₃, .main .spawning :: (start S).threads.tail⟩ ∧
      sh₃.store = sh₂.store ∧ ∃ store queue enqueued, sh₃ =
        { Shared.init S with store := store, queue := queue, enqueued := enqueued } := by
    by_cases hzero : sh₂.store.outstanding = 0
    · have h₄ := main_step _ .startClose h₃ hs₂.alive (by unfold mainStep; rw [if_pos hzero])
      exact ⟨sh₂.closeAll, main_step _ _ h₄ hs₂.alive rfl, rfl, store, _, enqueued, by rw [hshape]; rfl⟩
    · have h₄ := main_step _ .spawning h₃ hs₂.alive (by unfold mainStep; rw [if_neg hzero])
      exact ⟨sh₂, h₄, rfl, hs₂.shape⟩
  obtain ⟨sh₃, hr₃, hstore, hshape₃⟩ := hspawn
  obtain ⟨c, m, hr, hm, hcomplete, hsnap⟩ := empty_run hprobe hempty hr₃ hshape₃
  refine ⟨c, m, hr, hm, hcomplete, fun hsound => ?_⟩
  have hmem : (k, e) ∈ m.snapshot := by rw [hsnap, hstore, NodeStore.mem_snapshot]; exact he
  exact (hsound.settled k e hmem).1 (hs₂.queued k e he)

/-! ## The result -/

/-- **`run_complete` is sound, exactly for manned crawls**, and those of the crawler always are. -/
theorem run_complete_sound_iff (S : Setup) :
    ((∀ c, Reachable (program S) (start S) c → ∀ m, c.shared.manifest = some m →
      m.runComplete = true → Sound S c m) ↔ S.Manned) ∧
      (S.OfCrawler → S.Manned) := by
  refine ⟨⟨fun h => ?_, fun h c hr m hm hcomplete => run_complete_sound h hr hm hcomplete⟩,
    Setup.OfCrawler.manned⟩
  by_contra hno
  obtain ⟨hempty, hseeds⟩ := not_or.mp hno
  obtain ⟨c, m, hr, hm, hcomplete, hbad⟩ := unmanned_unsound (by omega) hseeds
  exact hbad (h c hr m hm hcomplete)

/-- `probe --no-ipv4 --no-ipv6 --no-cjdns --no-tor --no-i2p --ip-concurrency 0 --tor-concurrency 0
    --i2p-concurrency 0`. -/
def noNetworkArgs : CommonArgs where
  noIpv4 := true
  noIpv6 := true
  noCjdns := true
  noTor := true
  noI2p := true
  ipConcurrency := 0
  torConcurrency := 0
  i2pConcurrency := 0

/-- What the probe makes of them. -/
def noNetworkSettings : Settings :=
  { noIpSettings with
    enabledNetworks := ⟨false, false, false, false, false⟩
    concurrency := ⟨0, 0, 0⟩
    staffed := fun net => by cases net <;> decide }

/-- The probe of one IPv4 target with these flags. -/
def noNetworkProbe : Setup := ⟨.zero, noNetworkSettings, .targets [⟨"1.2.3.4", 8333⟩], 0⟩

theorem noNetworkArgs_settings : noNetworkArgs.probeSettings = .ok noNetworkSettings := by
  have hinterval : parseDuration noNetworkArgs.checkpointInterval = .ok 600 := by decide
  unfold CommonArgs.probeSettings CommonArgs.intoSettings
  rw [hinterval]
  simp [noNetworkArgs, noNetworkSettings, noIpSettings, CommonArgs.enabledNetworks,
    CommonArgs.concurrency, maxConcurrency]

/-- The probe accepts the flags, never looks at its target, and says `run_complete`. -/
theorem unmanned_probe_complete : noNetworkArgs.probeSettings = .ok noNetworkSettings ∧
    ∃ c m e, Reachable (program noNetworkProbe) (start noNetworkProbe) c ∧
      c.shared.manifest = some m ∧ m.runComplete = true ∧ (⟨"1.2.3.4", 8333⟩, e) ∈ m.snapshot ∧
      e.state = .queued := by
  refine ⟨noNetworkArgs_settings, ?_⟩
  have hrun : (exec (program noNetworkProbe) panicFree (start noNetworkProbe) (steps 0 15)).bind
      (fun c => c.shared.manifest.map fun m => (m.runComplete, m.snapshot.map fun x => (x.1, x.2.state))) =
      some (true, [(⟨"1.2.3.4", 8333⟩, .queued)]) := by
    decide
  obtain ⟨c, hc, heq⟩ := Option.bind_eq_some_iff.mp hrun
  obtain ⟨m, hm, heq⟩ := Option.map_eq_some_iff.mp heq
  obtain ⟨hcomplete, hsnap⟩ := Prod.mk.injEq .. ▸ heq
  have hmem : (⟨"1.2.3.4", 8333⟩, .queued) ∈ m.snapshot.map fun x => (x.1, x.2.state) := by
    rw [hsnap]; exact List.mem_singleton.mpr rfl
  obtain ⟨⟨k, e⟩, he, heq⟩ := List.mem_map.mp hmem
  obtain ⟨rfl, hst⟩ := Prod.mk.injEq .. ▸ heq
  exact ⟨c, m, e, (exec_noPanic hc).reachable, hm, hcomplete, he, hst⟩

end P2PCrawler
