import P2PCrawler.Crawler.Ledger

/-!
# Phases of a run

Which parts of the state each task leaves alone, and what the position of the main task says
about the others.

* `taskStep_frame`, `loopStep_frame` — what a worker cannot touch.
* `checkpointStep_frame`, `signalStep_frame`, `mainStep_frame` — likewise for the other tasks.
* `kinds` — the threads of a run are those it started with.
* `phases` — before `run` has spawned its tasks, the workers have not moved.
* `joins`, `joined_all` — once `run` has left its join loop, every worker has ended.
* `exits` — a worker that has ended was stopped by a shutdown or a panic, or has drained its
  queue.
-/

set_option autoImplicit false

namespace P2PCrawler

open ThreadPool

/-! ## Frames -/

theorem enqueueStep_frame (H : Digests) (sh : Shared) (k : AddrKey) (e : EnqueuePc) :
    ∃ store queue enqueued, (enqueueStep H sh k e).1 =
      { sh with store := store, queue := queue, enqueued := enqueued } := by
  cases e with
  | send t =>
    simp only [enqueueStep]
    split
    · rename_i sh' hsend
      obtain ⟨-, -, rfl⟩ := Shared.trySend_some hsend
      exact ⟨_, _, _, rfl⟩
    · exact ⟨_, _, _, rfl⟩
  | _ => exact ⟨_, _, _, rfl⟩

theorem finishStep_frame (sh : Shared) (k : AddrKey) (f : FinishPc) :
    ∃ store queue, (finishStep sh k f).1 = { sh with store := store, queue := queue } := by
  cases f with
  | write terminal reason =>
    simp only [finishStep]
    split
    · exact ⟨_, _, rfl⟩
    · split <;> exact ⟨_, _, rfl⟩
  | _ => exact ⟨_, _, rfl⟩

/-- The fields a node task may change. -/
structure TaskFrame (sh sh' : Shared) : Prop where
  eq : ∃ store queue outputFailed readers log enqueued, sh' =
    { sh with store := store, queue := queue, outputFailed := outputFailed, readers := readers,
              log := log, enqueued := enqueued }

theorem taskStep_frame {S : Setup} {sh sh' : Shared} {t : Transport} {k : AddrKey} {a : Answer}
    {p : TaskPc} {next : Option TaskPc} (h : taskStep S sh t k a p = some (sh', next)) :
    TaskFrame sh sh' := by
  constructor
  cases p with
  | upserting c count now rest =>
    cases rest <;> cases h <;> exact ⟨_, _, _, _, _, _, rfl⟩
  | enqueueing c count now rest key e =>
    cases h
    obtain ⟨store, queue, enqueued, he⟩ := enqueueStep_frame S.digests sh key e
    exact ⟨store, queue, _, _, _, enqueued, he⟩
  | abandoning f =>
    cases h
    obtain ⟨store, queue, he⟩ := finishStep_frame sh k f
    exact ⟨store, queue, _, _, _, _, he⟩
  | finishing f =>
    cases h
    obtain ⟨store, queue, he⟩ := finishStep_frame sh k f
    exact ⟨store, queue, _, _, _, _, he⟩
  | resending terminal kind =>
    simp only [taskStep] at h
    split at h
    · rename_i sh₁ hsend
      obtain ⟨-, -, rfl⟩ := Shared.trySend_some hsend
      cases h
      exact ⟨_, _, _, _, _, _, rfl⟩
    · cases h; exact ⟨_, _, _, _, _, _, rfl⟩
  | malformedLog c call =>
    obtain ⟨hsh, -⟩ := logStep_effect h
    exact ⟨_, _, _, _, _, _, hsh⟩
  | blockLog c parsed now call =>
    obtain ⟨hsh, -⟩ := logStep_effect h
    exact ⟨_, _, _, _, _, _, hsh⟩
  | outcomeLog c call =>
    obtain ⟨hsh, -⟩ := logStep_effect h
    exact ⟨_, _, _, _, _, _, hsh⟩
  | connecting | sendVersion | handshaking | collecting | malformedGuard | messageGuard
    | outcomeGuard | shuffling =>
    simp only [taskStep] at h
    split at h <;> cases h <;> exact ⟨_, _, _, _, _, _, rfl⟩
  | _ => cases h; exact ⟨_, _, _, _, _, _, rfl⟩

/-- What a step of the worker loop does to the join bookkeeping. -/
theorem loopStep_frame {S : Setup} {sh sh' : Shared} {t : Transport} {p p' : WorkerPc}
    (h : loopStep S sh t p = some (sh', p')) :
    ∃ store queue numProcessed shutdown nodeLimitReached workerFailed returned,
      sh' = { sh with
        store := store, queue := queue, numProcessed := numProcessed, shutdown := shutdown,
        nodeLimitReached := nodeLimitReached, workerFailed := workerFailed,
        returned := returned } ∧
      (returned = sh.returned ∧ p'.ended = false ∨ returned = sh.returned + 1 ∧ p' = .exited) := by
  cases loopStep_cases h with
  | leave | drained | crashClose => exact ⟨_, _, _, _, _, _, _, rfl, .inr ⟨rfl, rfl⟩⟩
  | @discard k f | @discarded k f | @crashFinish k f | @crashFinished k f =>
    obtain ⟨store, queue, he⟩ := finishStep_frame sh k f
    exact ⟨store, queue, _, _, _, _, _, he, .inl ⟨rfl, rfl⟩⟩
  | _ => exact ⟨_, _, _, _, _, _, _, rfl, .inl ⟨rfl, rfl⟩⟩

/-- The fields the checkpoint task may change. -/
theorem checkpointStep_frame {S : Setup} {sh sh' : Shared} {a : Answer} {p p' : CheckpointPc}
    (h : checkpointStep S sh a p = some (sh', p')) :
    ∃ outputFailed writer log checkpointDone manifest, sh' =
      { sh with outputFailed := outputFailed, writer := writer, log := log,
                checkpointDone := checkpointDone, manifest := manifest } := by
  cases p with
  | idle =>
    simp only [checkpointStep] at h
    split at h
    · cases h
    · split at h
      · cases h; exact ⟨_, _, _, _, _, rfl⟩
      · split at h <;> cases h
        exact ⟨_, _, _, _, _, rfl⟩
  | acquiring =>
    simp only [checkpointStep] at h
    split at h <;> cases h
    exact ⟨_, _, _, _, _, rfl⟩
  | flushing processed call =>
    obtain ⟨hsh, -⟩ := logStep_effect h
    exact ⟨_, _, _, _, _, hsh⟩
  | cloning processed durable rest acc => cases rest <;> cases h <;> exact ⟨_, _, _, _, _, rfl⟩
  | publishing m =>
    cases h
    split <;> exact ⟨_, _, _, _, _, rfl⟩
  | exited => cases h
  | _ => cases h; exact ⟨_, _, _, _, _, rfl⟩

/-- The fields the Ctrl+C task may change. -/
theorem signalStep_frame {sh sh' : Shared} {p p' : SignalPc}
    (h : signalStep sh p = some (sh', p')) :
    ∃ shutdown queue signalBusy killed, sh' =
      { sh with shutdown := shutdown, queue := queue, signalBusy := signalBusy,
                killed := killed } := by
  cases p with
  | waiting | armed =>
    simp only [signalStep] at h
    split at h <;> cases h
    exact ⟨_, _, _, _, rfl⟩
  | _ => cases h; exact ⟨_, _, _, _, rfl⟩

/-- The fields the main task leaves alone. -/
theorem mainStep_frame {S : Setup} {sh sh' : Shared} {a : Answer} {p p' : MainPc}
    (h : mainStep S sh a p = some (sh', p')) :
    sh'.panicked = sh.panicked ∧ sh'.nodeLimitReached = sh.nodeLimitReached ∧
      sh'.numProcessed = sh.numProcessed ∧ sh'.readers = sh.readers ∧ sh'.writer = sh.writer ∧
      sh'.signalBusy = sh.signalBusy ∧ sh'.checkpointDone = sh.checkpointDone ∧
      sh'.killed = sh.killed := by
  cases p with
  | seeding rest => cases rest <;> cases h <;> exact ⟨rfl, rfl, rfl, rfl, rfl, rfl, rfl, rfl⟩
  | seedEnqueue rest k e =>
    cases h
    obtain ⟨store, queue, enqueued, he⟩ := enqueueStep_frame S.digests sh k e
    rw [he]
    exact ⟨rfl, rfl, rfl, rfl, rfl, rfl, rfl, rfl⟩
  | joining joined =>
    simp only [mainStep] at h
    split at h
    · cases h; exact ⟨rfl, rfl, rfl, rfl, rfl, rfl, rfl, rfl⟩
    · split at h <;> split at h <;> cases h <;> exact ⟨rfl, rfl, rfl, rfl, rfl, rfl, rfl, rfl⟩
  | awaitSignals | awaitCheckpoint | stopping | writing =>
    simp only [mainStep] at h
    split at h <;> cases h <;> exact ⟨rfl, rfl, rfl, rfl, rfl, rfl, rfl, rfl⟩
  | flushing r call =>
    obtain ⟨hsh, -⟩ := logStep_effect h
    rw [hsh]
    exact ⟨rfl, rfl, rfl, rfl, rfl, rfl, rfl, rfl⟩
  | finished => cases h
  | _ => cases h; exact ⟨rfl, rfl, rfl, rfl, rfl, rfl, rfl, rfl⟩

/-! ## Threads keep their kind -/

inductive Kind where
  | main
  | signal
  | checkpoint
  | logWriter
  | worker (t : Transport)
  deriving DecidableEq, Repr

def Pc.kind : Pc → Kind
  | .main _ => .main
  | .signal _ => .signal
  | .checkpoint _ => .checkpoint
  | .logWriter => .logWriter
  | .worker t _ => .worker t

/-- What a step is, by the kind of the thread. -/
theorem program_cases {S : Setup} {sh sh' : Shared} {pc pc' : Pc} {a : Answer}
    (h : program S sh pc a = some (sh', pc')) :
    (∃ p p', pc = .main p ∧ pc' = .main p' ∧ mainStep S sh a p = some (sh', p')) ∨
    (∃ p p', pc = .signal p ∧ pc' = .signal p' ∧ signalStep sh p = some (sh', p')) ∨
    (∃ p p', pc = .checkpoint p ∧ pc' = .checkpoint p' ∧ checkpointStep S sh a p = some (sh', p')) ∨
    (∃ L, pc = .logWriter ∧ pc' = .logWriter ∧
      sh.log.writerStep S.digests a.fault a.synced = some L ∧ sh' = { sh with log := L }) ∨
    (∃ t p p', pc = .worker t p ∧ pc' = .worker t p' ∧ workerStep S sh t a p = some (sh', p')) := by
  unfold program at h
  split at h
  · cases h
  cases pc with
  | main p =>
    obtain ⟨⟨sh₁, p₁⟩, hs, heq⟩ := Option.map_eq_some_iff.mp h
    cases heq
    exact .inl ⟨p, _, rfl, rfl, hs⟩
  | signal p =>
    obtain ⟨⟨sh₁, p₁⟩, hs, heq⟩ := Option.map_eq_some_iff.mp h
    cases heq
    exact .inr (.inl ⟨p, _, rfl, rfl, hs⟩)
  | checkpoint p =>
    obtain ⟨⟨sh₁, p₁⟩, hs, heq⟩ := Option.map_eq_some_iff.mp h
    cases heq
    exact .inr (.inr (.inl ⟨p, _, rfl, rfl, hs⟩))
  | logWriter =>
    obtain ⟨L, hs, heq⟩ := Option.map_eq_some_iff.mp h
    cases heq
    exact .inr (.inr (.inr (.inl ⟨L, rfl, rfl, hs, rfl⟩)))
  | worker t p =>
    obtain ⟨⟨sh₁, p₁⟩, hs, heq⟩ := Option.map_eq_some_iff.mp h
    cases heq
    exact .inr (.inr (.inr (.inr ⟨t, p, _, rfl, rfl, hs⟩)))

theorem program_kind {S : Setup} {sh sh' : Shared} {pc pc' : Pc} {a : Answer}
    (h : program S sh pc a = some (sh', pc')) : pc'.kind = pc.kind := by
  rcases program_cases h with ⟨p, p', rfl, rfl, -⟩ | ⟨p, p', rfl, rfl, -⟩ | ⟨p, p', rfl, rfl, -⟩ |
    ⟨L, rfl, rfl, -⟩ | ⟨t, p, p', rfl, rfl, -⟩ <;> rfl

/-- The kinds of the threads never change. -/
theorem kinds {S : Setup} {ok : Conf Shared Pc → Nat × Answer → Prop} {c : Conf Shared Pc}
    (hr : Reach (program S) ok (start S) c) :
    c.threads.map Pc.kind = (start S).threads.map Pc.kind := by
  refine hr.invariant (I := fun c => c.threads.map Pc.kind = (start S).threads.map Pc.kind) rfl ?_
  intro c a c' _ ih _ hst
  obtain ⟨pc, sh', pc', hpc, hp, rfl⟩ := step_cases hst
  rw [← ih, List.map_set, program_kind hp]
  apply List.ext_getElem?
  intro i
  rw [List.getElem?_set]
  split
  · rename_i hi
    subst hi
    rw [List.getElem?_map, hpc]
    split
    · rfl
    · rename_i hlen
      rw [List.length_map] at hlen
      exact absurd (List.getElem?_eq_some_iff.mp hpc).1 hlen
  · rfl

theorem kind_at {S : Setup} {ok : Conf Shared Pc → Nat × Answer → Prop} {c : Conf Shared Pc}
    (hr : Reach (program S) ok (start S) c) {i : Nat} {pc : Pc} (h : c.threads[i]? = some pc) :
    ((start S).threads[i]?).map Pc.kind = some pc.kind := by
  have := congrArg (·[i]?) (kinds hr)
  simpa [h] using this.symm

/-- A pool with workers keeps them. -/
theorem worker_exists {S : Setup} {ok : Conf Shared Pc → Nat × Answer → Prop} {c : Conf Shared Pc}
    (hr : Reach (program S) ok (start S) c) {t : Transport}
    (ht : 0 < S.settings.concurrency.of t) : ∃ p, Pc.worker t p ∈ c.threads := by
  have hkind : Kind.worker t ∈ c.threads.map Pc.kind := by
    rw [kinds hr]
    exact List.mem_map.mpr ⟨_, worker_mem_start ht, rfl⟩
  obtain ⟨pc, hpc, hk⟩ := List.mem_map.mp hkind
  cases pc with
  | worker t' p => cases hk; exact ⟨p, hpc⟩
  | _ => cases hk

theorem worker_staffed {S : Setup} {ok : Conf Shared Pc → Nat × Answer → Prop} {c : Conf Shared Pc}
    (hr : Reach (program S) ok (start S) c) {t : Transport} {p : WorkerPc}
    (h : Pc.worker t p ∈ c.threads) : 0 < S.settings.concurrency.of t := by
  have hkind : Kind.worker t ∈ (start S).threads.map Pc.kind := by
    rw [← kinds hr]
    exact List.mem_map.mpr ⟨_, h, rfl⟩
  obtain ⟨pc, hpc, hk⟩ := List.mem_map.mp hkind
  rcases mem_start hpc with rfl | rfl | rfl | rfl | ⟨t', rfl, hn⟩ <;> cases hk
  exact hn

/-- The four single tasks have their places. -/
theorem kind_index {S : Setup} {ok : Conf Shared Pc → Nat × Answer → Prop} {c : Conf Shared Pc}
    (hr : Reach (program S) ok (start S) c) {i : Nat} {pc : Pc} (h : c.threads[i]? = some pc) :
    (pc.kind = .main ∧ i = 0) ∨ (pc.kind = .signal ∧ i = 1) ∨ (pc.kind = .checkpoint ∧ i = 2) ∨
      (pc.kind = .logWriter ∧ i = 3) ∨ ∃ t, pc.kind = .worker t := by
  have hk := kind_at hr h
  match i with
  | 0 => exact .inl ⟨by simpa [start, Pc.kind] using hk.symm, rfl⟩
  | 1 => exact .inr (.inl ⟨by simpa [start, Pc.kind] using hk.symm, rfl⟩)
  | 2 => exact .inr (.inr (.inl ⟨by simpa [start, Pc.kind] using hk.symm, rfl⟩))
  | 3 => exact .inr (.inr (.inr (.inl ⟨by simpa [start, Pc.kind] using hk.symm, rfl⟩)))
  | i + 4 =>
    obtain ⟨u, hu, hkind⟩ := Option.map_eq_some_iff.mp hk
    have hmem : u ∈ pool S .ip ++ pool S .tor ++ pool S .i2p := List.mem_of_getElem? (i := i) hu
    simp only [pool, List.mem_append, List.mem_replicate] at hmem
    rcases hmem with (⟨-, rfl⟩ | ⟨-, rfl⟩) | ⟨-, rfl⟩ <;>
      exact .inr (.inr (.inr (.inr ⟨_, hkind.symm⟩)))

/-- The only main task is thread 0. -/
theorem main_index {S : Setup} {ok : Conf Shared Pc → Nat × Answer → Prop} {c : Conf Shared Pc}
    (hr : Reach (program S) ok (start S) c) {i : Nat} {p : MainPc}
    (h : c.threads[i]? = some (.main p)) : i = 0 := by
  rcases kind_index hr h with ⟨-, hi⟩ | ⟨hk, -⟩ | ⟨hk, -⟩ | ⟨hk, -⟩ | ⟨t, hk⟩
  · exact hi
  all_goals cases hk

theorem signal_index {S : Setup} {ok : Conf Shared Pc → Nat × Answer → Prop} {c : Conf Shared Pc}
    (hr : Reach (program S) ok (start S) c) {i : Nat} {p : SignalPc}
    (h : c.threads[i]? = some (.signal p)) : i = 1 := by
  rcases kind_index hr h with ⟨hk, -⟩ | ⟨-, hi⟩ | ⟨hk, -⟩ | ⟨hk, -⟩ | ⟨t, hk⟩
  · cases hk
  · exact hi
  all_goals cases hk

theorem checkpoint_index {S : Setup} {ok : Conf Shared Pc → Nat × Answer → Prop}
    {c : Conf Shared Pc} (hr : Reach (program S) ok (start S) c) {i : Nat} {p : CheckpointPc}
    (h : c.threads[i]? = some (.checkpoint p)) : i = 2 := by
  rcases kind_index hr h with ⟨hk, -⟩ | ⟨hk, -⟩ | ⟨-, hi⟩ | ⟨hk, -⟩ | ⟨t, hk⟩
  · cases hk
  · cases hk
  · exact hi
  all_goals cases hk

/-! ## Before and after the tasks are spawned -/

/-- `run` has not spawned its tasks. -/
def MainPc.early : MainPc → Bool
  | .seeding _ | .seedEnqueue .. | .startCheck | .startClose | .spawning => true
  | _ => false

/-- What the position of a task says about `spawned`. -/
def PhaseOk (sh : Shared) : Pc → Prop
  | .main p => sh.spawned = !p.early
  | .worker _ p => sh.spawned = false → p = .top
  | .signal p => sh.spawned = false → p = .waiting
  | _ => True

/-- The fields the workers leave alone. -/
theorem workerStep_frame {S : Setup} {sh sh' : Shared} {t : Transport} {a : Answer}
    {p p' : WorkerPc} (h : workerStep S sh t a p = some (sh', p')) :
    sh'.spawned = sh.spawned ∧ sh'.signalBusy = sh.signalBusy ∧
      sh'.signalAborted = sh.signalAborted ∧ sh'.manifest = sh.manifest ∧ sh'.writer = sh.writer ∧
      sh'.checkpointDone = sh.checkpointDone := by
  rcases workerStep_cases h with ⟨k, q, rfl, -, rfl, rfl⟩ | ⟨k, q, next, rfl, -, hstep, rfl⟩ |
    ⟨-, -, -, -, rfl, rfl⟩ | ⟨-, -, -, hstep⟩
  · exact ⟨rfl, rfl, rfl, rfl, rfl, rfl⟩
  · obtain ⟨_, _, _, _, _, _, rfl⟩ := (taskStep_frame hstep).eq
    exact ⟨rfl, rfl, rfl, rfl, rfl, rfl⟩
  · exact ⟨rfl, rfl, rfl, rfl, rfl, rfl⟩
  · obtain ⟨_, _, _, _, _, _, _, rfl, -⟩ := loopStep_frame hstep
    exact ⟨rfl, rfl, rfl, rfl, rfl, rfl⟩

theorem mainStep_phase {S : Setup} {sh sh' : Shared} {a : Answer} {p p' : MainPc}
    (h : mainStep S sh a p = some (sh', p')) (hp : sh.spawned = !p.early) :
    sh'.spawned = !p'.early ∧ (sh'.spawned = sh.spawned ∨ sh'.spawned = true) := by
  cases p with
  | seeding rest =>
    cases rest with
    | nil => cases h; exact ⟨hp, .inl rfl⟩
    | cons k rest =>
      cases h
      refine ⟨?_, .inl rfl⟩
      split <;> exact hp
  | seedEnqueue rest k e =>
    cases h
    obtain ⟨store, queue, enqueued, he⟩ := enqueueStep_frame S.digests sh k e
    simp only [he]
    refine ⟨?_, .inl trivial⟩
    split <;> exact hp
  | startCheck =>
    cases h
    refine ⟨?_, .inl rfl⟩
    split <;> exact hp
  | startClose => cases h; exact ⟨hp, .inl rfl⟩
  | spawning => cases h; exact ⟨rfl, .inr rfl⟩
  | joining joined =>
    simp only [mainStep] at h
    split at h
    · cases h; exact ⟨hp, .inl rfl⟩
    · split at h <;> split at h <;> cases h <;> exact ⟨hp, .inl rfl⟩
  | awaitSignals | awaitCheckpoint =>
    simp only [mainStep] at h
    split at h <;> cases h
    exact ⟨hp, .inl rfl⟩
  | stopping | writing =>
    simp only [mainStep] at h
    split at h <;> cases h <;> exact ⟨hp, .inl rfl⟩
  | checkWorkers | finalFlush =>
    cases h
    refine ⟨?_, .inl rfl⟩
    split <;> exact hp
  | flushing r call =>
    obtain ⟨hsh, ⟨_, rfl⟩ | ⟨res, rfl⟩⟩ := logStep_effect h
    · rw [hsh]; exact ⟨hp, .inl rfl⟩
    · rw [hsh]
      refine ⟨?_, .inl rfl⟩
      split <;> exact hp
  | finished => cases h
  | _ => cases h; exact ⟨hp, .inl rfl⟩

theorem start_phases (S : Setup) : Holds PhaseOk (start S) := by
  intro i pc hpc
  rcases mem_start (List.mem_of_getElem? hpc) with rfl | rfl | rfl | rfl | ⟨t, rfl, -⟩ <;>
    simp [PhaseOk, start, Shared.init, MainPc.early]

/-- **Phases.**  The main task is past spawning exactly when the tasks are spawned, and until
    then neither the workers nor the Ctrl+C task have moved. -/
theorem phases {S : Setup} {ok : Conf Shared Pc → Nat × Answer → Prop} {c : Conf Shared Pc}
    (hr : Reach (program S) ok (start S) c) : Holds PhaseOk c := by
  refine hr.invariant (I := Holds PhaseOk) (start_phases S) ?_
  intro c a c' hr ih _ hst
  refine ih.step hst ?_ ?_
  · intro pc sh' pc' hpc hp
    have hi := ih _ _ hpc
    rcases program_cases hp with ⟨p, p', rfl, rfl, hs⟩ | ⟨p, p', rfl, rfl, hs⟩ |
      ⟨p, p', rfl, rfl, hs⟩ | ⟨L, rfl, rfl, -, -⟩ | ⟨t, p, p', rfl, rfl, hs⟩
    · exact (mainStep_phase hs hi).1
    · intro hsp
      cases p <;> simp only [signalStep] at hs
      · split at hs <;> cases hs
        simp_all
      · cases hs; exact absurd (hi hsp) (fun h => by cases h)
      · cases hs; exact absurd (hi hsp) (fun h => by cases h)
      · split at hs <;> cases hs
        exact absurd (hi hsp) (fun h => by cases h)
    · trivial
    · trivial
    · intro hsp
      have hsp' : c.shared.spawned = false := by rw [← (workerStep_frame hs).1]; exact hsp
      have := hi hsp'
      subst this
      simp [workerStep, hsp'] at hs
  · intro pc sh' pc' j u hpc hp hj hu hold
    -- only the main task can change `spawned`, and it only sets it
    rcases program_cases hp with ⟨p, p', rfl, rfl, hs⟩ | ⟨p, p', rfl, rfl, hs⟩ |
      ⟨p, p', rfl, rfl, hs⟩ | ⟨L, rfl, rfl, -, rfl⟩ | ⟨t, p, p', rfl, rfl, hs⟩
    · have hne : ∀ q, u ≠ .main q := by
        rintro q rfl
        exact hj ((main_index hr hu).trans (main_index hr hpc).symm)
      rcases (mainStep_phase hs (ih _ _ hpc)).2 with hsp | hsp
      · cases u <;> simp only [PhaseOk, hsp] at hold ⊢ <;> exact hold
      · cases u with
        | main q => exact absurd rfl (hne q)
        | _ => simp [PhaseOk, hsp]
    · have hsp : sh'.spawned = c.shared.spawned := by
        obtain ⟨_, _, _, _, rfl⟩ := signalStep_frame hs
        rfl
      cases u <;> simp only [PhaseOk, hsp] at hold ⊢ <;> exact hold
    · have hsp : sh'.spawned = c.shared.spawned := by
        obtain ⟨_, _, _, _, _, rfl⟩ := checkpointStep_frame hs
        rfl
      cases u <;> simp only [PhaseOk, hsp] at hold ⊢ <;> exact hold
    · exact hold
    · have hsp := (workerStep_frame hs).1
      cases u <;> simp only [PhaseOk, hsp] at hold ⊢ <;> exact hold

/-! ## Runs without a panic -/

/-- No task panics in the step. -/
def noPanic (_ : Conf Shared Pc) (a : Nat × Answer) : Prop := a.2.panic = false

theorem program_panicked {S : Setup} {sh sh' : Shared} {pc pc' : Pc} {a : Answer}
    (h : program S sh pc a = some (sh', pc')) (ha : a.panic = false) :
    sh'.panicked = sh.panicked := by
  rcases program_cases h with ⟨p, p', rfl, rfl, hs⟩ | ⟨p, p', rfl, rfl, hs⟩ |
    ⟨p, p', rfl, rfl, hs⟩ | ⟨L, rfl, rfl, -, rfl⟩ | ⟨t, p, p', rfl, rfl, hs⟩
  · exact (mainStep_frame hs).1
  · obtain ⟨_, _, _, _, rfl⟩ := signalStep_frame hs; rfl
  · obtain ⟨_, _, _, _, _, rfl⟩ := checkpointStep_frame hs; rfl
  · rfl
  · rcases workerStep_cases hs with ⟨k, q, rfl, hpanic, -, -⟩ | ⟨k, q, next, rfl, -, hstep, rfl⟩ |
      ⟨-, -, -, hpanic, -, -⟩ | ⟨-, -, -, hstep⟩
    · rw [ha] at hpanic; cases hpanic
    · obtain ⟨_, _, _, _, _, _, rfl⟩ := (taskStep_frame hstep).eq; rfl
    · rw [ha] at hpanic; cases hpanic
    · obtain ⟨_, _, _, _, _, _, _, rfl, -⟩ := loopStep_frame hstep; rfl

theorem not_panicked {S : Setup} {c : Conf Shared Pc}
    (hr : Reach (program S) noPanic (start S) c) : c.shared.panicked = false := by
  refine hr.invariant (I := fun c => c.shared.panicked = false) rfl ?_
  intro c a c' _ ih hok hst
  obtain ⟨pc, sh', pc', -, hp, rfl⟩ := step_cases hst
  rw [← ih]
  exact program_panicked hp hok

/-- Only the workers read whether to panic, and a panic is remembered. -/
theorem program_panic {S : Setup} {sh sh' : Shared} {pc pc' : Pc} {a : Answer}
    (h : program S sh pc a = some (sh', pc')) (hok : sh'.panicked = false) :
    program S sh pc { a with panic := false } = some (sh', pc') := by
  have hkilled : sh.killed = false := by
    unfold program at h
    split at h
    · cases h
    · rename_i hk; simpa using hk
  rcases program_cases h with ⟨p, p', rfl, rfl, hs⟩ | ⟨p, p', rfl, rfl, hs⟩ |
    ⟨p, p', rfl, rfl, hs⟩ | ⟨L, rfl, rfl, hs, rfl⟩ | ⟨t, p, p', rfl, rfl, hs⟩
  · have hsame : mainStep S sh { a with panic := false } p = mainStep S sh a p := by
      unfold mainStep; rfl
    simp [program, hkilled, hsame, hs]
  · simp [program, hkilled, hs]
  · have hsame : checkpointStep S sh { a with panic := false } p = checkpointStep S sh a p := by
      unfold checkpointStep; rfl
    simp [program, hkilled, hsame, hs]
  · simp [program, hkilled, hs]
  · have hno : a.panic = false := by
      rcases workerStep_cases hs with ⟨k, q, -, -, rfl, -⟩ | ⟨_, _, _, -, hno, -⟩ |
        ⟨-, -, -, -, rfl, -⟩ | ⟨-, -, hno, -⟩
      · cases hok
      · exact hno
      · cases hok
      · exact hno
    rw [← hno]
    exact h

/-- A run that has not panicked can be taken without a step that is told to. -/
theorem reach_noPanic {S : Setup} {ok : Conf Shared Pc → Nat × Answer → Prop} {c : Conf Shared Pc}
    (hr : Reach (program S) ok (start S) c) (hok : c.shared.panicked = false) :
    Reach (program S) noPanic (start S) c := by
  refine hr.invariant (I := fun c => c.shared.panicked = false → Reach (program S) noPanic (start S) c)
    (fun _ => .start) ?_ hok
  intro c a c' _ ih _ hst hok'
  refine (ih (not_panicked_of_step hst hok')).next (a := (a.1, { a.2 with panic := false })) rfl ?_
  obtain ⟨pc, sh', pc', hpc, hp, rfl⟩ := step_cases hst
  simp [step, hpc, program_panic hp hok']

/-! ## Joining the workers -/

/-- Workers the main task has joined. -/
def MainPc.joined (S : Setup) : MainPc → ℤ
  | .joining n | .joinFailed n | .joinShutdown n | .joinClose n => n
  | .seeding _ | .seedEnqueue .. | .startCheck | .startClose | .spawning => 0
  | _ => S.settings.concurrency.total

/-- Joined workers, less the workers that have ended. -/
def Pc.joins (S : Setup) : Pc → ℤ
  | .main p => p.joined S
  | .worker _ p => if p.ended then -1 else 0
  | _ => 0

def joinLedger (sh : Shared) : ℤ := sh.returned + sh.failedJoins

theorem mainStep_joins {S : Setup} {sh sh' : Shared} {a : Answer} {p p' : MainPc}
    (h : mainStep S sh a p = some (sh', p')) :
    joinLedger sh' + p'.joined S = joinLedger sh + p.joined S := by
  cases p with
  | seeding rest =>
    cases rest with
    | nil => cases h; rfl
    | cons k rest =>
      cases h
      simp only [joinLedger]
      split <;> rfl
  | seedEnqueue rest k e =>
    cases h
    obtain ⟨store, queue, enqueued, he⟩ := enqueueStep_frame S.digests sh k e
    simp only [he, joinLedger]
    split <;> rfl
  | startCheck =>
    cases h
    split <;> rfl
  | joining joined =>
    simp only [mainStep] at h
    split at h
    · rename_i hall; cases h; simp only [MainPc.joined, hall]
    · split at h <;> split at h <;> cases h <;> simp only [joinLedger, MainPc.joined] <;> omega
  | awaitSignals | awaitCheckpoint | stopping | writing =>
    simp only [mainStep] at h
    split at h <;> cases h <;> rfl
  | checkWorkers | finalFlush =>
    cases h
    split <;> rfl
  | flushing r call =>
    obtain ⟨hsh, ⟨_, rfl⟩ | ⟨res, rfl⟩⟩ := logStep_effect h
    · rw [hsh]; rfl
    · rw [hsh]
      split <;> rfl
  | finished => cases h
  | _ => cases h; rfl

theorem workerStep_joins {S : Setup} {sh sh' : Shared} {t : Transport} {a : Answer}
    {p p' : WorkerPc} (h : workerStep S sh t a p = some (sh', p')) :
    joinLedger sh' + (Pc.worker t p').joins S = joinLedger sh + (Pc.worker t p).joins S := by
  rcases workerStep_cases h with ⟨k, q, rfl, -, rfl, rfl⟩ | ⟨k, q, next, rfl, -, hstep, rfl⟩ |
    ⟨-, hend, -, -, rfl, rfl⟩ | ⟨-, hend, -, hstep⟩
  · rfl
  · obtain ⟨_, _, _, _, _, _, rfl⟩ := (taskStep_frame hstep).eq
    cases next <;> rfl
  · simp only [joinLedger, Pc.joins, hend, show WorkerPc.died.ended = true from rfl, if_true,
      Bool.false_eq_true, if_false]
    omega
  · have hrun : p.ended = false := by
      cases p <;> first | rfl | (simp [loopStep] at hstep)
    obtain ⟨_, _, _, _, _, _, _, rfl, ⟨rfl, he⟩ | ⟨rfl, rfl⟩⟩ := loopStep_frame hstep
    · simp [joinLedger, Pc.joins, hrun, he]
    · simp only [joinLedger, Pc.joins, hrun, show WorkerPc.exited.ended = true from rfl, if_true,
        Bool.false_eq_true, if_false]
      omega

/-- Every worker that has ended has been joined or is about to be. -/
theorem joins {S : Setup} {ok : Conf Shared Pc → Nat × Answer → Prop} {c : Conf Shared Pc}
    (hr : Reach (program S) ok (start S) c) : total joinLedger (Pc.joins S) c = 0 := by
  refine hr.invariant (I := fun c => total joinLedger (Pc.joins S) c = 0) ?_ ?_
  · have hload : load (Pc.joins S) (start S).threads = 0 := by
      refine load_eq_zero fun pc hpc => ?_
      rcases mem_start hpc with rfl | rfl | rfl | rfl | ⟨t, rfl, -⟩ <;> rfl
    simp only [total, hload]
    rfl
  · intro c a c' _ ih _ hst
    rw [total_step hst fun pc sh' pc' _ hp => ?_, ih]
    rcases program_cases hp with ⟨p, p', rfl, rfl, hs⟩ | ⟨p, p', rfl, rfl, hs⟩ |
      ⟨p, p', rfl, rfl, hs⟩ | ⟨L, rfl, rfl, -, rfl⟩ | ⟨t, p, p', rfl, rfl, hs⟩
    · exact mainStep_joins hs
    · obtain ⟨_, _, _, _, rfl⟩ := signalStep_frame hs; rfl
    · obtain ⟨_, _, _, _, _, rfl⟩ := checkpointStep_frame hs; rfl
    · rfl
    · exact workerStep_joins hs

/-- `run` has left its join loop. -/
def MainPc.past : MainPc → Bool
  | .seeding _ | .seedEnqueue .. | .startCheck | .startClose | .spawning | .joining _
  | .joinFailed _ | .joinShutdown _ | .joinClose _ => false
  | _ => true

theorem MainPc.joined_of_past {S : Setup} {p : MainPc} (h : p.past = true) :
    p.joined S = S.settings.concurrency.total := by
  cases p <;> first | rfl | cases h

/-- Counts the workers. -/
def Pc.isWorker : Pc → ℤ
  | .worker _ _ => 1
  | _ => 0

/-- Counts the workers that have not ended. -/
def Pc.running : Pc → ℤ
  | .worker _ p => if p.ended then 0 else 1
  | _ => 0

/-- Counts the joined workers. -/
def Pc.joined (S : Setup) : Pc → ℤ
  | .main p => p.joined S
  | _ => 0

theorem Pc.running_nonneg (pc : Pc) : 0 ≤ pc.running := by
  unfold Pc.running
  split
  · split <;> omega
  · omega

theorem worker_count {S : Setup} {ok : Conf Shared Pc → Nat × Answer → Prop} {c : Conf Shared Pc}
    (hr : Reach (program S) ok (start S) c) :
    load Pc.isWorker c.threads = S.settings.concurrency.total := by
  have hkind : ∀ ts : List Pc, load Pc.isWorker ts =
      load (fun | .worker _ => 1 | _ => 0) (ts.map Pc.kind) := by
    intro ts
    unfold load
    rw [List.map_map]
    congr 1
    refine List.map_congr_left fun pc _ => ?_
    cases pc <;> rfl
  rw [hkind, kinds hr, ← hkind]
  simp [start, pool, load, Concurrency.total, Concurrency.of, Pc.isWorker]
  omega

theorem joined_count {S : Setup} {ok : Conf Shared Pc → Nat × Answer → Prop} {c : Conf Shared Pc}
    (hr : Reach (program S) ok (start S) c) {p : MainPc} (hmain : c.threads[0]? = some (.main p)) :
    load (Pc.joined S) c.threads = p.joined S := by
  obtain ⟨ts, hts⟩ : ∃ ts, c.threads = .main p :: ts := by
    cases hc : c.threads with
    | nil => rw [hc] at hmain; cases hmain
    | cons u us => rw [hc] at hmain; cases hmain; exact ⟨us, rfl⟩
  have hrest : load (Pc.joined S) ts = 0 := by
    refine load_eq_zero fun u hu => ?_
    obtain ⟨i, hi⟩ := List.getElem?_of_mem hu
    cases u with
    | main q =>
      have := main_index hr (i := i + 1) (p := q) (by rw [hts]; exact hi)
      omega
    | _ => rfl
  rw [hts]
  unfold load at hrest ⊢
  rw [List.map_cons, List.sum_cons, hrest, Int.add_zero]
  rfl

/-- **All workers are joined.**  Past the join loop every worker has ended, and none of them is
    left to be joined. -/
theorem joined_all {S : Setup} {ok : Conf Shared Pc → Nat × Answer → Prop} {c : Conf Shared Pc}
    (hr : Reach (program S) ok (start S) c) {p : MainPc} (hmain : c.threads[0]? = some (.main p))
    (hpast : p.past = true) :
    c.shared.returned = 0 ∧ c.shared.failedJoins = 0 ∧
      ∀ t w, Pc.worker t w ∈ c.threads → w.ended = true := by
  have hj := joins hr
  -- an ended worker takes one away from the joined ones
  have hsplit : load (Pc.joins S) c.threads =
      load (Pc.joined S) c.threads + (load Pc.running c.threads - load Pc.isWorker c.threads) := by
    have hpoint : Pc.joins S = fun pc => pc.joined S + (pc.running + -pc.isWorker) := by
      funext pc
      cases pc with
      | worker t w => cases hw : w.ended <;> simp [Pc.joins, Pc.joined, Pc.running, Pc.isWorker, hw]
      | _ => simp [Pc.joins, Pc.joined, Pc.running, Pc.isWorker]
    rw [hpoint, load_add, load_add, load_neg]
    omega
  rw [joined_count hr hmain, MainPc.joined_of_past hpast, worker_count hr] at hsplit
  have hrun := load_nonneg Pc.running_nonneg c.threads
  simp only [total, joinLedger] at hj
  refine ⟨by omega, by omega, fun t w hw => ?_⟩
  have hzero := eq_zero_of_load Pc.running_nonneg (by omega : load Pc.running c.threads = 0) hw
  by_contra hne
  simp [Pc.running, hne] at hzero

/-! ## Why a worker has ended -/

/-- A queue that is closed and empty stays so. -/
theorem Effect.drained {does : Intent} {sh sh' : Shared} {h h' : Held}
    (he : Effect does sh h sh' h') {t : Transport}
    (hd : (sh.queue t).closed = true ∧ (sh.queue t).items = []) :
    (sh'.queue t).closed = true ∧ (sh'.queue t).items = [] := by
  refine ⟨he.closed hd.1, ?_⟩
  cases he with
  | aside hs hq hf => rw [hq]; exact hd.2
  | close hs hq hf => rw [hq]; exact hd.2
  | forfeit hwhy hs hq hf => rw [hq]; exact hd.2
  | @push t' k own ho hopen hroom =>
    have ht : t ≠ t' := by
      rintro rfl
      rw [hd.1] at hopen
      cases hopen
    simpa [ht] using hd.2
  | @pop t' k rest own ho hitems =>
    have ht : t ≠ t' := by
      rintro rfl
      rw [hd.2] at hitems
      cases hitems
    simpa [Shared.pop, ht] using hd.2
  | _ => exact hd.2

/-- What the position of a worker says once the run is being stopped. -/
def ExitOk (sh : Shared) : Pc → Prop
  | .worker t .exited =>
    sh.shutdown = true ∨ (sh.queue t).closed = true ∧ (sh.queue t).items = []
  | .worker _ (.crashedFinish ..) | .worker _ .crashedClose => sh.shutdown = true
  | .worker _ .died => sh.panicked = true
  | _ => True

theorem loopStep_exit {S : Setup} {sh sh' : Shared} {t : Transport} {p p' : WorkerPc}
    (h : loopStep S sh t p = some (sh', p')) (hp : ExitOk sh (.worker t p)) :
    ExitOk sh' (.worker t p') := by
  cases loopStep_cases h with
  | leave hdown => exact .inl hdown
  | drained hitems hclosed => exact .inr ⟨hclosed, hitems⟩
  | shutdown => rfl
  | @crashFinish k f | @crashFinished k f =>
    obtain ⟨store, queue, he⟩ := finishStep_frame sh k f
    rw [he]
    exact hp
  | crashClose => exact .inl hp
  | _ => trivial

/-- A worker that has ended saw the shutdown, panicked, or has drained its queue. -/
theorem exits {S : Setup} {ok : Conf Shared Pc → Nat × Answer → Prop} {c : Conf Shared Pc}
    (hr : Reach (program S) ok (start S) c) : Holds ExitOk c := by
  refine hr.invariant (I := Holds ExitOk) ?_ ?_
  · intro i pc hpc
    rcases mem_start (List.mem_of_getElem? hpc) with rfl | rfl | rfl | rfl | ⟨t, rfl, -⟩ <;> trivial
  · intro c a c' _ ih _ hst
    refine ih.step hst ?_ ?_
    · intro pc sh' pc' hpc hp
      rcases program_cases hp with ⟨p, p', rfl, rfl, -⟩ | ⟨p, p', rfl, rfl, -⟩ |
        ⟨p, p', rfl, rfl, -⟩ | ⟨L, rfl, rfl, -, -⟩ | ⟨t, p, p', rfl, rfl, hs⟩
      iterate 4 trivial
      rcases workerStep_cases hs with ⟨k, q, rfl, -, rfl, rfl⟩ | ⟨k, q, next, rfl, -, hstep, rfl⟩ |
        ⟨-, -, -, -, rfl, rfl⟩ | ⟨-, -, -, hstep⟩
      · trivial
      · cases next <;> trivial
      · rfl
      · exact loopStep_exit hstep (ih _ _ hpc)
    · intro pc sh' pc' j u hpc hp hj hu hold
      have he := step_effect hp
      cases u with
      | worker t p =>
        cases p with
        | exited => exact hold.imp he.flags.shutdown he.drained
        | crashedFinish | crashedClose => exact he.flags.shutdown hold
        | died => exact he.flags.panicked hold
        | _ => trivial
      | _ => trivial

end P2PCrawler
