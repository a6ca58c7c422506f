import P2PCrawler.Crawler.Control

/-!
# The observation barrier

A task takes a read guard before it records an observation and drops it when the record, the entry
and the frontier agree again; the checkpoint task takes the write guard before it flushes the log
and drops it when it has cloned the store.

* `Pc.reads`, `Pc.writes` — the guards a thread holds.
* `barrier` — **the guards are counted exactly, and no two kinds of guard are held at once**, in
  every run.
* `nobody_guarded` — while the checkpoint task holds the write guard, no worker is in a guarded
  section.
-/

set_option autoImplicit false

namespace P2PCrawler

open ThreadPool

/-! ## Guards -/

/-- The checkpoint task holds the write guard. -/
def CheckpointPc.guarded : CheckpointPc → Bool
  | .flushing .. | .marking | .leaving | .snapshotting .. | .cloning .. => true
  | _ => false

/-- The read guards of a thread. -/
def Pc.reads : Pc → ℤ
  | .worker _ (.task _ p) => if p.guarded then 1 else 0
  | _ => 0

/-- The write guards of a thread. -/
def Pc.writes : Pc → ℤ
  | .checkpoint p => if p.guarded then 1 else 0
  | _ => 0

theorem Pc.reads_nonneg (pc : Pc) : 0 ≤ pc.reads := by
  unfold reads
  split
  · split <;> omega
  · omega

theorem Pc.writes_nonneg (pc : Pc) : 0 ≤ pc.writes := by
  unfold writes
  split
  · split <;> omega
  · omega

/-- The write guards that are out. -/
def Shared.writers (sh : Shared) : ℤ := if sh.writer then 1 else 0

/-- What a step does to the guards: `r` and `w` are the guards the moving thread holds before it,
    `r'` and `w'` those it holds afterwards. -/
structure Guards (sh : Shared) (r w : ℤ) (sh' : Shared) (r' w' : ℤ) : Prop where
  readers : r ≤ sh.readers → (sh'.readers : ℤ) - r' = sh.readers - r
  writers : w ≤ sh.writers → sh'.writers - w' = sh.writers - w
  enter : r < r' → sh.writer = false
  acquire : w < w' → sh'.readers = 0

theorem Guards.same {sh sh' : Shared} {r w : ℤ} (hr : sh'.readers = sh.readers)
    (hw : sh'.writer = sh.writer) : Guards sh r w sh' r w :=
  ⟨fun _ => by rw [hr], fun _ => by unfold Shared.writers; rw [hw],
    fun h => absurd h (lt_irrefl r), fun h => absurd h (lt_irrefl w)⟩

/-- The read guards of a task. -/
def TaskPc.reads (p : TaskPc) : ℤ := if p.guarded then 1 else 0

/-- The read guards of a task after a step, none where it has returned. -/
def nextReads (next : Option TaskPc) : ℤ := (next.map TaskPc.reads).getD 0

theorem retryOrFinish_reads (retry : Bool) (terminal : Terminal) (kind : FailKind) :
    (retryOrFinish retry terminal kind).reads = 0 := by
  cases retry <;> rfl

/-- A step inside a log call: the task keeps what it holds. -/
theorem logStep_guards {sh sh' : Shared} {call : LogCall} {wait : LogCall → Option TaskPc}
    {done : Option Nat → Option TaskPc} {next : Option TaskPc}
    (h : logStep sh call wait done = some (sh', next)) (hwait : ∀ c, nextReads (wait c) = 1)
    (hdone : ∀ r, nextReads (done r) = 1) : Guards sh 1 0 sh' (nextReads next) 0 := by
  obtain ⟨hsh, ⟨call', rfl⟩ | ⟨res, rfl⟩⟩ := logStep_effect h
  · rw [hwait, hsh]
    exact .same rfl rfl
  · rw [hdone, hsh]
    exact .same rfl rfl

theorem taskStep_guards {S : Setup} {sh sh' : Shared} {t : Transport} {k : AddrKey} {a : Answer}
    {p : TaskPc} {next : Option TaskPc} (h : taskStep S sh t k a p = some (sh', next)) :
    Guards sh p.reads 0 sh' (nextReads next) 0 := by
  have enter : ∀ {q : TaskPc}, q.guarded = true → p.guarded = false → sh.writer = false →
      sh' = { sh with readers := sh.readers + 1 } → next = some q →
      Guards sh p.reads 0 sh' (nextReads next) 0 := by
    rintro q hq hp hw rfl rfl
    have hr : p.reads = 0 := by simp [TaskPc.reads, hp]
    have hr' : nextReads (some q) = 1 := by simp [nextReads, TaskPc.reads, hq]
    rw [hr, hr']
    refine ⟨fun _ => ?_, fun _ => rfl, fun _ => hw, fun h => absurd h (lt_irrefl 0)⟩
    show ((sh.readers + 1 : Nat) : ℤ) - 1 = sh.readers - 0
    omega
  have leave : ∀ {q : TaskPc}, q.guarded = false → p.guarded = true →
      sh' = { sh with readers := sh.readers - 1 } → next = some q →
      Guards sh p.reads 0 sh' (nextReads next) 0 := by
    rintro q hq hp rfl rfl
    have hr : p.reads = 1 := by simp [TaskPc.reads, hp]
    have hr' : nextReads (some q) = 0 := by simp [nextReads, TaskPc.reads, hq]
    rw [hr, hr']
    refine ⟨fun hpos => ?_, fun _ => rfl, fun h => ?_, fun h => absurd h (lt_irrefl 0)⟩
    · show ((sh.readers - 1 : Nat) : ℤ) - 0 = sh.readers - 1
      omega
    · omega
  cases p with
  | malformedGuard | messageGuard | outcomeGuard =>
    simp only [taskStep] at h
    split at h
    · cases h
    · rename_i hw
      cases h
      exact enter rfl rfl (by simpa using hw) rfl rfl
  | malformedRelease | blockFailed | outcomeRelease =>
    cases h
    exact leave rfl rfl rfl rfl
  | upserting c count now rest =>
    cases rest with
    | nil =>
      cases h
      exact leave rfl rfl rfl rfl
    | cons addr rest =>
      cases h
      have hnext : ∀ out, nextReads (some (upsertNext c count now rest ⟨addr.host, addr.port⟩ out)) =
          1 := by
        intro out
        cases out <;> rfl
      rw [hnext]
      exact .same rfl rfl
  | malformedLog | blockLog | outcomeLog =>
    refine logStep_guards h (fun _ => rfl) fun res => ?_
    cases res <;> rfl
  | malformedCount | breakdown | outcomeWrite =>
    cases h
    cases S.logging <;> exact .same rfl rfl
  | enqueueing c count now rest key e =>
    cases h
    obtain ⟨_, _, _, he⟩ := enqueueStep_frame S.digests sh key e
    rw [he]
    cases (enqueueStep S.digests sh key e).2 <;> exact .same rfl rfl
  | abandoning f | finishing f =>
    cases h
    obtain ⟨_, _, he⟩ := finishStep_frame sh k f
    rw [he]
    cases (finishStep sh k f).2 <;> exact .same rfl rfl
  | everConnected | handshakeTimeout | handshakeFailed =>
    cases h
    rw [show nextReads (some (retryOrFinish _ _ _)) = 0 from retryOrFinish_reads ..]
    exact .same rfl rfl
  | resending terminal kind =>
    simp only [taskStep] at h
    split at h
    · rename_i sh₁ hsend
      obtain ⟨-, -, rfl⟩ := Shared.trySend_some hsend
      cases h
      exact .same rfl rfl
    · cases h
      exact .same rfl rfl
  | connecting | sendVersion | handshaking | collecting | shuffling =>
    simp only [taskStep] at h
    split at h <;> cases h <;> exact .same rfl rfl
  | handshaken | getaddr | messageDone =>
    cases h
    split <;> exact .same rfl rfl
  | _ =>
    cases h
    exact .same rfl rfl

theorem checkpointStep_guards {S : Setup} {sh sh' : Shared} {a : Answer} {p p' : CheckpointPc}
    (h : checkpointStep S sh a p = some (sh', p')) :
    Guards sh 0 (Pc.checkpoint p).writes sh' 0 (Pc.checkpoint p').writes := by
  have same : p'.guarded = p.guarded → sh'.readers = sh.readers → sh'.writer = sh.writer →
      Guards sh 0 (Pc.checkpoint p).writes sh' 0 (Pc.checkpoint p').writes := by
    intro hp hr hw
    have heq : (Pc.checkpoint p').writes = (Pc.checkpoint p).writes := by simp [Pc.writes, hp]
    rw [heq]
    exact .same hr hw
  have release : p.guarded = true → p'.guarded = false → sh'.readers = sh.readers →
      sh'.writer = false →
      Guards sh 0 (Pc.checkpoint p).writes sh' 0 (Pc.checkpoint p').writes := by
    intro hp hp' hr hw
    have h1 : (Pc.checkpoint p).writes = 1 := by simp [Pc.writes, hp]
    have h0 : (Pc.checkpoint p').writes = 0 := by simp [Pc.writes, hp']
    rw [h1, h0]
    refine ⟨fun _ => by rw [hr], fun hpos => ?_, fun h => absurd h (lt_irrefl 0), fun h => ?_⟩
    · unfold Shared.writers at hpos ⊢
      rw [hw]
      split at hpos
      · rename_i hwriter
        rw [if_pos hwriter]
        rfl
      · omega
    · omega
  cases p with
  | acquiring processed =>
    simp only [checkpointStep] at h
    split at h
    · cases h
    · rename_i hfree
      cases h
      simp only [Bool.or_eq_true, decide_eq_true_eq, not_or, Bool.not_eq_true] at hfree
      have hw : sh.writers = 0 := by simp [Shared.writers, hfree.1]
      have hnext : (Pc.checkpoint (if S.logging then .flushing processed (.lock .flush)
          else .snapshotting processed none)).writes = 1 := by
        cases S.logging <;> rfl
      rw [hnext]
      refine ⟨fun _ => rfl, fun _ => ?_, fun h => absurd h (lt_irrefl 0), fun _ => ?_⟩
      · rw [hw]
        rfl
      · show sh.readers = 0
        omega
  | leaving =>
    cases h
    exact release rfl rfl rfl rfl
  | cloning processed durable rest acc =>
    cases rest with
    | nil =>
      cases h
      exact release rfl rfl rfl rfl
    | cons k rest =>
      cases h
      exact same rfl rfl rfl
  | idle =>
    simp only [checkpointStep] at h
    repeat' split at h
    all_goals cases h
    all_goals exact same rfl rfl rfl
  | flushing processed call =>
    obtain ⟨hsh, ⟨call', rfl⟩ | ⟨res, rfl⟩⟩ := logStep_effect h
    · rw [hsh] at same ⊢
      exact same rfl rfl rfl
    · rw [hsh] at same ⊢
      refine same ?_ rfl rfl
      cases res <;> rfl
  | publishing m =>
    cases h
    refine same rfl ?_ ?_ <;> split <;> rfl
  | exited => cases h
  | _ =>
    cases h
    exact same rfl rfl rfl

theorem loopStep_reads {S : Setup} {sh sh' : Shared} {t : Transport} {p p' : WorkerPc}
    (h : loopStep S sh t p = some (sh', p')) : (Pc.worker t p').reads = 0 := by
  cases loopStep_cases h <;> rfl

theorem workerStep_guards {S : Setup} {sh sh' : Shared} {t : Transport} {a : Answer}
    {p p' : WorkerPc} (h : workerStep S sh t a p = some (sh', p')) :
    Guards sh (Pc.worker t p).reads 0 sh' (Pc.worker t p').reads 0 := by
  rcases workerStep_cases h with ⟨k, q, rfl, -, rfl, rfl⟩ | ⟨k, q, next, rfl, -, hstep, rfl⟩ |
    ⟨hp, -, -, -, rfl, rfl⟩ | ⟨hp, -, -, hstep⟩
  · -- A panic drops the guards of the task.
    refine ⟨fun hpos => ?_, fun _ => rfl, fun h => ?_, fun h => absurd h (lt_irrefl 0)⟩
    · simp only [Pc.reads, unwind] at hpos ⊢
      split at hpos
      · rename_i hg
        rw [if_pos hg, if_pos hg]
        omega
      · rename_i hg
        rw [if_neg hg, if_neg hg]
    · have := (Pc.worker t (.task k q)).reads_nonneg
      simp only [Pc.reads] at this h
      omega
  · have hguards := taskStep_guards hstep
    cases next <;> exact hguards
  · have hr : (Pc.worker t p).reads = 0 := by
      cases p <;> first | rfl | exact absurd rfl (hp _ _)
    rw [hr]
    exact .same rfl rfl
  · have hr : (Pc.worker t p).reads = 0 := by
      cases p <;> first | rfl | exact absurd rfl (hp _ _)
    rw [hr, loopStep_reads hstep]
    obtain ⟨_, _, _, _, _, _, _, rfl, -⟩ := loopStep_frame hstep
    exact .same rfl rfl

theorem program_guards {S : Setup} {sh sh' : Shared} {pc pc' : Pc} {a : Answer}
    (h : program S sh pc a = some (sh', pc')) :
    Guards sh pc.reads pc.writes sh' pc'.reads pc'.writes := by
  rcases program_cases h with ⟨p, p', rfl, rfl, hs⟩ | ⟨p, p', rfl, rfl, hs⟩ |
    ⟨p, p', rfl, rfl, hs⟩ | ⟨L, rfl, rfl, -, rfl⟩ | ⟨t, p, p', rfl, rfl, hs⟩
  · obtain ⟨-, -, -, hr, hw, -⟩ := mainStep_frame hs
    exact .same hr hw
  · obtain ⟨_, _, _, _, rfl⟩ := signalStep_frame hs
    exact .same rfl rfl
  · exact checkpointStep_guards hs
  · exact .same rfl rfl
  · exact workerStep_guards hs

/-! ## The barrier -/

/-- The guards that are out are those the threads hold, and readers exclude the writer. -/
structure Barrier (c : Conf Shared Pc) : Prop where
  readers : load Pc.reads c.threads = c.shared.readers
  writers : load Pc.writes c.threads = c.shared.writers
  exclusive : c.shared.writer = true → c.shared.readers = 0

theorem start_barrier (S : Setup) : Barrier (start S) := by
  refine ⟨?_, ?_, nofun⟩
  · refine load_eq_zero fun pc hpc => ?_
    rcases mem_start hpc with rfl | rfl | rfl | rfl | ⟨t, rfl, -⟩ <;> rfl
  · refine load_eq_zero fun pc hpc => ?_
    rcases mem_start hpc with rfl | rfl | rfl | rfl | ⟨t, rfl, -⟩ <;> rfl

theorem Barrier.step {S : Setup} {c c' : Conf Shared Pc} {a : Nat × Answer} (hb : Barrier c)
    (hst : ThreadPool.step (program S) c a = some c') : Barrier c' := by
  obtain ⟨pc, sh', pc', hpc, hp, rfl⟩ := step_cases hst
  have hg := program_guards hp
  have hmem : pc ∈ c.threads := List.mem_of_getElem? hpc
  have hr := hg.readers (by rw [← hb.readers]; exact le_load Pc.reads_nonneg hmem)
  have hw := hg.writers (by rw [← hb.writers]; exact le_load Pc.writes_nonneg hmem)
  have hlr := load_set Pc.reads pc' hpc
  have hlw := load_set Pc.writes pc' hpc
  have hbr := hb.readers
  have hbw := hb.writers
  refine ⟨?_, ?_, fun hwriter => ?_⟩
  · show load Pc.reads (c.threads.set a.1 pc') = sh'.readers
    omega
  · show load Pc.writes (c.threads.set a.1 pc') = sh'.writers
    omega
  · -- Whoever takes a guard finds the other kind free.
    show sh'.readers = 0
    have hwriters : sh'.writers = 1 := if_pos hwriter
    by_cases hold : c.shared.writer = true
    · have hzero := hb.exclusive hold
      have henter : ¬ pc.reads < pc'.reads := by
        intro hlt
        rw [hg.enter hlt] at hold
        cases hold
      omega
    · have hone : c.shared.writers = 0 := by simp [Shared.writers, hold]
      exact hg.acquire (by omega)

/-- **The guards are counted, and readers exclude the writer**, in every run. -/
theorem barrier {S : Setup} {ok : Conf Shared Pc → Nat × Answer → Prop} {c : Conf Shared Pc}
    (hr : Reach (program S) ok (start S) c) : Barrier c :=
  hr.invariant (start_barrier S) fun _ _ _ _ hb _ hst => hb.step hst

/-- While the checkpoint task holds the write guard, no worker is in a guarded section. -/
theorem Barrier.nobody_guarded {c : Conf Shared Pc} (hb : Barrier c) {p : CheckpointPc}
    (hp : Pc.checkpoint p ∈ c.threads) (hguarded : p.guarded = true) {t : Transport} {k : AddrKey}
    {q : TaskPc} (hq : Pc.worker t (.task k q) ∈ c.threads) : q.guarded = false := by
  have hone : (Pc.checkpoint p).writes = 1 := by simp [Pc.writes, hguarded]
  have hw := le_load Pc.writes_nonneg hp
  rw [hb.writers, hone] at hw
  have hwriter : c.shared.writer = true := by
    by_contra hfree
    have : c.shared.writers = 0 := if_neg hfree
    omega
  have hr := le_load Pc.reads_nonneg hq
  rw [hb.readers, hb.exclusive hwriter] at hr
  by_contra hg
  have : (Pc.worker t (.task k q)).reads = 1 := if_pos (by simpa using hg)
  omega

end P2PCrawler
