import P2PCrawler.Crawler.Completion
import P2PCrawler.Crawler.Snapshots

/-!
# Failures of the address log

A task whose log call returns an error raises `output_failed`.  `run` reads the flag once, after it
has joined its workers; the checkpoint task may be at its flush then.

* `Pc.failing` — the log call of the thread returns an error in this step.
* `Pc.unmarked` — the thread was told of an error and has not raised the flag yet.
* `Heard` — the checkpoint task does not raise the flag after `run` has returned `Ok`.
* `Accounted` — where the news of an error is, once there was one.

## Results

* `log_failure_taints` — **a failure of the log fails the run**, if the flag is raised in time.
* `late_flush_failure_missed` — one that the checkpoint task reports later is lost.
-/

set_option autoImplicit false

namespace P2PCrawler

open ThreadPool

/-! ## Errors -/

/-- The call returns an error. -/
def LogCall.fails (L : LogState) (call : LogCall) : Bool :=
  (call.step L).any fun r => decide (r.2 = .returned none)

/-- The log call of the thread returns an error in this step. -/
def Pc.failing (sh : Shared) (a : Answer) : Pc → Bool
  | .worker _ (.task _ p) => !a.panic && p.call.any (·.fails sh.log)
  | pc => pc.call.any (·.fails sh.log)

/-- The task was told of an error and has not raised the flag yet. -/
def TaskPc.unmarked : TaskPc → Bool
  | .malformedMark _ | .blockFailed _ | .blockMark _ | .outcomeMark _ => true
  | _ => false

def Pc.unmarked : Pc → Bool
  | .worker _ (.task _ p) => p.unmarked
  | .main (.marking _) => true
  | .checkpoint .marking => true
  | _ => false

/-- Whether some log call has returned an error. -/
def recordFailure (failed : Bool) (c : Conf Shared Pc) (a : Nat × Answer) (_ : Conf Shared Pc) : Bool :=
  failed || c.threads[a.1]?.any (·.failing c.shared a.2)

theorem logStep_fails {π : Type} {sh sh' : Shared} {call : LogCall} {wait : LogCall → π}
    {done : Option Nat → π} {p : π} (h : logStep sh call wait done = some (sh', p))
    (hfails : call.fails sh.log = true) : p = done none := by
  unfold logStep at h
  obtain ⟨⟨L, next⟩, hcall, heq⟩ := Option.map_eq_some_iff.mp h
  unfold LogCall.fails at hfails
  rw [hcall] at hfails
  have hnext : next = .returned none := of_decide_eq_true hfails
  simp only [Prod.mk.injEq] at heq
  rw [← heq.2, hnext]

theorem taskStep_unmarked {S : Setup} {sh sh' : Shared} {t : Transport} {k : AddrKey} {a : Answer}
    {p : TaskPc} {next : Option TaskPc} (h : taskStep S sh t k a p = some (sh', next)) :
    (p.call.any (·.fails sh.log) = true → next.any TaskPc.unmarked = true) ∧
      (p.unmarked = true → next.any TaskPc.unmarked = true ∨ sh'.outputFailed = true) := by
  cases p with
  | malformedLog c call | blockLog c parsed now call | outcomeLog c call =>
    refine ⟨fun hfails => ?_, fun hmark => by cases hmark⟩
    rw [logStep_fails h hfails]
    rfl
  | malformedMark c | blockMark c | outcomeMark c =>
    cases h
    exact ⟨fun hfails => (by cases hfails), fun _ => .inr rfl⟩
  | blockFailed c =>
    cases h
    exact ⟨fun hfails => (by cases hfails), fun _ => .inl rfl⟩
  | _ => exact ⟨fun hfails => (by cases hfails), fun hmark => by cases hmark⟩

/-- An error is owed to the flag, until the flag is raised or the task panics. -/
theorem program_unmarked {S : Setup} {sh sh' : Shared} {pc pc' : Pc} {a : Answer}
    (h : program S sh pc a = some (sh', pc')) :
    (pc.failing sh a = true → pc'.unmarked = true) ∧
      (pc.unmarked = true → pc'.unmarked = true ∨ sh'.outputFailed = true ∨ sh'.panicked = true) := by
  rcases program_cases h with ⟨p, p', rfl, rfl, hs⟩ | ⟨p, p', rfl, rfl, hs⟩ |
    ⟨p, p', rfl, rfl, hs⟩ | ⟨L, rfl, rfl, -, rfl⟩ | ⟨t, p, p', rfl, rfl, hs⟩
  · cases p with
    | flushing r call =>
      refine ⟨fun hfails => ?_, fun hmark => by cases hmark⟩
      rw [logStep_fails hs hfails]
      rfl
    | marking r =>
      cases hs
      exact ⟨fun hfails => (by cases hfails), fun _ => .inr (.inl rfl)⟩
    | _ => exact ⟨fun hfails => (by cases hfails), fun hmark => by cases hmark⟩
  · exact ⟨fun hfails => (by cases hfails), fun hmark => by cases hmark⟩
  · cases p with
    | flushing processed call =>
      refine ⟨fun hfails => ?_, fun hmark => by cases hmark⟩
      rw [logStep_fails hs hfails]
      rfl
    | marking =>
      cases hs
      exact ⟨fun hfails => (by cases hfails), fun _ => .inr (.inl rfl)⟩
    | _ => exact ⟨fun hfails => (by cases hfails), fun hmark => by cases hmark⟩
  · exact ⟨fun hfails => (by cases hfails), fun hmark => by cases hmark⟩
  · rcases workerStep_cases hs with ⟨k, q, rfl, hpanic, rfl, rfl⟩ |
      ⟨k, q, next, rfl, -, hstep, rfl⟩ | ⟨htask, -, -, -, rfl, rfl⟩ | ⟨htask, -, -, hstep⟩
    · refine ⟨fun hfails => ?_, fun _ => .inr (.inr rfl)⟩
      simp [Pc.failing, hpanic] at hfails
    · obtain ⟨hfail, hmarked⟩ := taskStep_unmarked hstep
      have hnext : next.any TaskPc.unmarked = true →
          (Pc.worker t ((next.map (WorkerPc.task k)).getD .top)).unmarked = true := by
        intro hn
        cases next with
        | none => cases hn
        | some q' => exact hn
      refine ⟨fun hfails => hnext (hfail ?_), fun hmark => ?_⟩
      · exact (Bool.and_eq_true_iff.mp hfails).2
      · rcases hmarked hmark with hn | hflag
        · exact .inl (hnext hn)
        · exact .inr (.inl hflag)
    all_goals
      cases p with
      | task k q => exact absurd rfl (htask k q)
      | _ => exact ⟨fun hfails => (by cases hfails), fun hmark => by cases hmark⟩

/-! ## The end of the process -/

variable {S : Setup} {ok : Conf Shared Pc → Nat × Answer → Prop} {c : Conf Shared Pc}

theorem mainStep_exit {sh sh' : Shared} {a : Answer} {p p' : MainPc}
    (h : mainStep S sh a p = some (sh', p')) :
    sh'.exitCode = sh.exitCode ∨ ∃ r logOk durable, p = .writing r logOk durable ∧ p' = .finished ∧
      ((r.isOk && logOk) = false → sh'.exitCode = some .failure) := by
  cases p with
  | seeding rest => cases rest <;> (cases h; exact .inl rfl)
  | seedEnqueue rest k e =>
    cases h
    obtain ⟨store, queue, enqueued, he⟩ := enqueueStep_frame S.digests sh k e
    rw [he]
    exact .inl rfl
  | joining joined =>
    simp only [mainStep] at h
    split at h
    · cases h; exact .inl rfl
    · split at h <;> split at h <;> cases h <;> exact .inl rfl
  | awaitSignals | awaitCheckpoint | stopping =>
    simp only [mainStep] at h
    split at h <;> cases h <;> exact .inl rfl
  | flushing r call => obtain ⟨hsh, -⟩ := logStep_effect h; rw [hsh]; exact .inl rfl
  | writing r logOk durable =>
    refine .inr ⟨r, logOk, durable, rfl, ?_⟩
    simp only [mainStep] at h
    split at h <;> cases h
    · exact ⟨rfl, fun hbad => by rw [hbad]; rfl⟩
    · exact ⟨rfl, fun _ => rfl⟩
  | finished => cases h
  | _ => cases h; exact .inl rfl

/-- Only the main task sets the exit code. -/
theorem program_exit {sh sh' : Shared} {pc pc' : Pc} {a : Answer}
    (h : program S sh pc a = some (sh', pc')) (hmain : ∀ p, pc ≠ .main p) :
    sh'.exitCode = sh.exitCode := by
  rcases program_cases h with ⟨p, p', rfl, rfl, hs⟩ | ⟨p, p', rfl, rfl, hs⟩ |
    ⟨p, p', rfl, rfl, hs⟩ | ⟨L, rfl, rfl, -, rfl⟩ | ⟨t, p, p', rfl, rfl, hs⟩
  · exact absurd rfl (hmain p)
  · obtain ⟨_, _, _, _, rfl⟩ := signalStep_frame hs; rfl
  · obtain ⟨_, _, _, _, _, rfl⟩ := checkpointStep_frame hs; rfl
  · rfl
  · rcases workerStep_cases hs with ⟨k, q, rfl, -, rfl, rfl⟩ | ⟨k, q, next, rfl, -, hstep, rfl⟩ |
      ⟨-, -, -, -, rfl, rfl⟩ | ⟨-, -, -, hstep⟩
    · rfl
    · obtain ⟨_, _, _, _, _, _, rfl⟩ := (taskStep_frame hstep).eq; rfl
    · rfl
    · obtain ⟨_, _, _, _, _, _, _, rfl, -⟩ := loopStep_frame hstep; rfl

/-- A thread other than the moving one stands where it stood. -/
theorem main_stays {i : Nat} {pc pc' : Pc} {p : MainPc} (hpc : c.threads[i]? = some pc)
    (hmain : c.threads[0]? = some (.main p)) (hother : ∀ q, pc ≠ .main q) :
    (c.threads.set i pc')[0]? = some (.main p) := by
  rw [List.getElem?_set_ne]
  · exact hmain
  · rintro rfl
    rw [hmain] at hpc
    cases hpc
    exact hother p rfl

/-- A process with an exit code has finished. -/
theorem exit_finished (hr : Reach (program S) ok (start S) c) (hexit : c.shared.exitCode ≠ none) :
    c.threads[0]? = some (.main .finished) := by
  refine hr.invariant
    (I := fun c => c.shared.exitCode ≠ none → c.threads[0]? = some (.main .finished))
    (fun h => absurd rfl h) ?_ hexit
  intro c a c' hr ih _ hst hexit
  obtain ⟨pc, sh', pc', hpc, hp, rfl⟩ := step_cases hst
  by_cases hm : ∃ p, pc = .main p
  · obtain ⟨p, rfl⟩ := hm
    have hidx := main_index hr hpc
    have hlt := (List.getElem?_eq_some_iff.mp hpc).1
    rcases program_cases hp with ⟨_, p', heq, rfl, hs⟩ | ⟨_, _, heq, -⟩ | ⟨_, _, heq, -⟩ |
      ⟨_, heq, -⟩ | ⟨_, _, _, heq, -⟩ <;> cases heq
    rcases mainStep_exit hs with hsame | ⟨r, logOk, durable, -, rfl, -⟩
    · have hfin := ih (by rw [← hsame]; exact hexit)
      rw [hidx, hfin] at hpc
      cases hpc
      cases hs
    · simp only [hidx] at hlt ⊢
      rw [List.getElem?_set_self hlt]
  · have hother : ∀ p, pc ≠ .main p := fun p hp => hm ⟨p, hp⟩
    exact main_stays hpc (ih (by rw [← program_exit hp hother]; exact hexit)) hother

/-- Once the main task has finished, only the log writer moves. -/
theorem writer_after_end (hr : Reach (program S) ok (start S) c)
    (hfin : c.threads[0]? = some (.main .finished)) {i : Nat} {pc pc' : Pc} {sh' : Shared}
    {a : Answer} (hpc : c.threads[i]? = some pc) (hp : program S c.shared pc a = some (sh', pc')) :
    pc = .logWriter ∧ pc' = .logWriter ∧ sh' = { c.shared with log := sh'.log } := by
  obtain ⟨hphase, hchecking⟩ := stop_phases hr
  rcases program_cases hp with ⟨p, p', rfl, rfl, hs⟩ | ⟨p, p', rfl, rfl, hs⟩ |
    ⟨p, p', rfl, rfl, hs⟩ | ⟨L, rfl, rfl, -, rfl⟩ | ⟨t, p, p', rfl, rfl, hs⟩
  · rw [main_index hr hpc, hfin] at hpc
    cases hpc
    cases hs
  · obtain ⟨habort, hbusy⟩ := flags_ok hr _ _ hfin
    rw [signal_stuck (flags_ok hr _ _ hpc) habort hbusy] at hp
    cases hp
  · obtain ⟨hdone, hidle⟩ := hphase _ _ hpc
    by_cases hon : S.checkpoints = true
    · rw [hdone (hphase _ _ hfin rfl hon)] at hs
      cases hs
    · have hoff : c.shared.checkpointing = false := by
        by_contra hyes
        exact hon (hchecking (by simpa using hyes))
      rw [hidle (by simpa using hon)] at hs
      simp [checkpointStep, hoff] at hs
  · exact ⟨rfl, rfl, rfl⟩
  · rw [worker_stuck hr hfin rfl (List.mem_of_getElem? hpc)] at hp
    cases hp

/-! ## The news of an error -/

/-- What `run` has returned. -/
def MainPc.result : MainPc → Option CrawlResult
  | .stopping r | .awaitCheckpoint r | .finalFlush r | .flushing r _ | .marking r | .writing r _ _ =>
    some r
  | _ => none

/-- The checkpoint task does not raise `output_failed` once `run` has returned `Ok`. -/
def Heard (c : Conf Shared Pc) (a : Nat × Answer) : Prop :=
  c.threads[a.1]? = some (.checkpoint .marking) →
    ∀ p, c.threads[0]? = some (.main p) → p.result ≠ some .ok

/-- The main task is about to report success. -/
def MainPc.content : MainPc → Bool
  | .stopping r | .awaitCheckpoint r | .finalFlush r | .flushing r _ => r.isOk
  | .writing r logOk _ => r.isOk && logOk
  | _ => false

theorem CrawlResult.eq_ok {r : CrawlResult} (h : r.isOk = true) : r = .ok := by
  cases r with
  | ok => rfl
  | _ => cases h

theorem MainPc.result_of_content {p : MainPc} (h : p.content = true) : p.result = some .ok := by
  cases p with
  | stopping r | awaitCheckpoint r | finalFlush r | flushing r call => rw [result, CrawlResult.eq_ok h]
  | writing r logOk durable => rw [result, CrawlResult.eq_ok (Bool.and_eq_true_iff.mp h).1]
  | _ => cases h

theorem MainPc.past_of_content {p : MainPc} (h : p.content = true) : p.past = true := by
  cases p <;> first | rfl | cases h

/-- The process has not reported success. -/
structure Tainted (sh : Shared) : Prop where
  exit : ∀ code, sh.exitCode = some code → code = .failure
  manifest : ∀ m, sh.manifest = some m → m.runComplete = false

/-- Where the news of an error is: on the way to the flag, or in it until `run` reads it; from then
    on the main task does not report success, unless the checkpoint task is about to raise the
    flag. -/
structure Accounted (c : Conf Shared Pc) : Prop where
  noticed : c.shared.outputFailed = true ∨ c.shared.panicked = true ∨
    ∃ u ∈ c.threads, u.unmarked = true
  content : ∀ p, c.threads[0]? = some (.main p) → p.content = true →
    Pc.checkpoint .marking ∈ c.threads
  tainted : Tainted c.shared

theorem tainted_of_unfinished (hr : Reach (program S) ok (start S) c)
    (hne : c.threads[0]? ≠ some (.main .finished)) : Tainted c.shared := by
  constructor
  · intro code hcode
    exact absurd (exit_finished hr (by rw [hcode]; exact fun h => by cases h)) hne
  · intro m hm
    by_contra hcomplete
    exact hne (finals hr hm (by simpa using hcomplete)).finished

/-- What makes the main task report success: it did so before, or `run` reads the flag. -/
theorem mainStep_content {sh sh' : Shared} {a : Answer} {p p' : MainPc}
    (h : mainStep S sh a p = some (sh', p')) (hp' : p'.content = true) :
    p.content = true ∨ p = .checkOutput ∧ sh.outputFailed = false := by
  cases p with
  | seeding rest => cases rest <;> cases h <;> first | cases hp' | (split at hp' <;> cases hp')
  | seedEnqueue rest k e => cases h; split at hp' <;> cases hp'
  | startCheck | checkWorkers => cases h; split at hp' <;> cases hp'
  | joining joined =>
    simp only [mainStep] at h
    split at h
    · cases h; cases hp'
    · split at h <;> split at h <;> cases h <;> cases hp'
  | awaitSignals =>
    simp only [mainStep] at h
    split at h <;> cases h
    cases hp'
  | checkOutput =>
    cases h
    refine .inr ⟨rfl, ?_⟩
    split at hp'
    · cases hp'
    · rename_i hflag
      simpa using hflag
  | stopping r | awaitCheckpoint r =>
    simp only [mainStep] at h
    split at h <;> cases h <;> exact .inl hp'
  | finalFlush r =>
    cases h
    split at hp'
    · exact .inl hp'
    · exact .inl (Bool.and_eq_true_iff.mp hp').1
  | flushing r call =>
    obtain ⟨-, ⟨call', rfl⟩ | ⟨res, rfl⟩⟩ := logStep_effect h
    · exact .inl hp'
    · cases res with
      | none => cases hp'
      | some id => exact .inl (Bool.and_eq_true_iff.mp hp').1
  | writing r logOk durable =>
    simp only [mainStep] at h
    split at h <;> cases h <;> cases hp'
  | marking r =>
    cases h
    cases (Bool.and_eq_true_iff.mp hp').2
  | finished => cases h
  | _ => cases h; cases hp'

/-- The checkpoint task has ended before the main task writes. -/
theorem not_marking_of_concluding (hr : Reach (program S) ok (start S) c) {p : MainPc}
    (hmain : c.threads[0]? = some (.main p)) (hp : p.concluding = true) :
    Pc.checkpoint .marking ∉ c.threads := by
  intro hmem
  obtain ⟨hphase, -⟩ := stop_phases hr
  obtain ⟨hdone, hidle⟩ := hphase.of_mem hmem
  by_cases hon : S.checkpoints = true
  · cases hdone (hphase _ _ hmain hp hon)
  · cases hidle (by simpa using hon)

/-- The task that is still to raise the flag when `run` reads it is the checkpoint task. -/
theorem marking_at_check (hr : Reach (program S) ok (start S) c)
    (hmain : c.threads[0]? = some (.main .checkOutput)) (hflag : c.shared.outputFailed = false)
    (h : Accounted c) : Pc.checkpoint .marking ∈ c.threads := by
  rcases h.noticed with hout | hpanic | ⟨u, hu, hmark⟩
  · rw [hflag] at hout
    cases hout
  · obtain ⟨-, -, hworkers⟩ := flags_ok hr _ _ hmain
    rw [not_panicked_of_past hr hmain rfl hworkers] at hpanic
    cases hpanic
  · cases u with
    | worker t w =>
      have hend := (joined_all hr hmain rfl).2.2 t w hu
      cases w <;> first | cases hmark | cases hend
    | main q =>
      rw [main_unique hr hmain hu] at hmark
      cases hmark
    | checkpoint q => cases q <;> first | exact hu | cases hmark
    | _ => cases hmark

/-- A main task that knows of an error does not report success. -/
theorem mainStep_tainted (hr : Reach (program S) ok (start S) c) {sh' : Shared} {a : Answer}
    {p p' : MainPc} (hmain : c.threads[0]? = some (.main p))
    (h : mainStep S c.shared a p = some (sh', p')) (hp : p.content = false) : Tainted sh' := by
  have hold : Tainted c.shared := by
    refine tainted_of_unfinished hr fun hend => ?_
    rw [hmain] at hend
    cases hend
    cases h
  constructor
  · intro code hcode
    rcases mainStep_exit h with hsame | ⟨r, logOk, durable, rfl, rfl, hexit⟩
    · exact hold.exit code (by rw [← hsame]; exact hcode)
    · rw [hexit hp] at hcode
      cases hcode
      rfl
  · intro m hm
    rcases mainStep_manifest h with hsame | ⟨r, logOk, durable, rfl, -, rfl⟩
    · exact hold.manifest m (by rw [← hsame]; exact hm)
    · cases hm
      show (r.isOk && logOk && !c.shared.terminatedEarly) = false
      rw [show (r.isOk && logOk) = false from hp]
      rfl

/-- An error stays noticed. -/
theorem Accounted.noticed_step {i : Nat} {pc pc' : Pc} {sh' : Shared} {a : Answer} (h : Accounted c)
    (hpc : c.threads[i]? = some pc) (hp : program S c.shared pc a = some (sh', pc')) :
    sh'.outputFailed = true ∨ sh'.panicked = true ∨
      ∃ u ∈ c.threads.set i pc', u.unmarked = true := by
  have hflags := (step_effect hp).flags
  rcases h.noticed with hout | hpanic | ⟨u, hu, hmark⟩
  · exact .inl (hflags.outputFailed hout)
  · exact .inr (.inl (hflags.panicked hpanic))
  · by_cases hne : u = pc
    · subst hne
      rcases (program_unmarked hp).2 hmark with hmark' | hout | hpanic
      · exact .inr (.inr ⟨pc', List.mem_set (List.getElem?_eq_some_iff.mp hpc).1 _, hmark'⟩)
      · exact .inl hout
      · exact .inr (.inl hpanic)
    · exact .inr (.inr ⟨u, mem_set_of_ne hpc hu hne, hmark⟩)

/-- A main task that is about to report success has not been told. -/
theorem content_step (hr : Reach (program S) ok (start S) c) {a : Nat × Answer} {pc pc' : Pc}
    {sh' : Shared} (hheard : Heard c a) (hpc : c.threads[a.1]? = some pc)
    (hp : program S c.shared pc a.2 = some (sh', pc'))
    (hnews : pc.failing c.shared a.2 = true ∨ Accounted c) {p : MainPc}
    (hmain : (c.threads.set a.1 pc')[0]? = some (.main p)) (hcontent : p.content = true) :
    Pc.checkpoint .marking ∈ c.threads.set a.1 pc' := by
  have hlt := (List.getElem?_eq_some_iff.mp hpc).1
  by_cases hidx : a.1 = 0
  · obtain rfl : pc' = .main p := by
      simp only [hidx] at hmain hlt
      rw [List.getElem?_set_self hlt] at hmain
      exact Option.some.inj hmain
    have hacc : Accounted c := by
      rcases hnews with hfails | hacc
      · have hmark := (program_unmarked hp).1 hfails
        cases p <;> first | cases hcontent | cases hmark
      · exact hacc
    rcases program_cases hp with ⟨q, _, rfl, heq, hs⟩ | ⟨_, _, -, heq, -⟩ | ⟨_, _, -, heq, -⟩ |
      ⟨_, -, heq, -⟩ | ⟨_, _, _, -, heq, -⟩ <;> cases heq
    rw [hidx] at hpc
    have hmarking : Pc.checkpoint .marking ∈ c.threads := by
      rcases mainStep_content hs hcontent with hq | ⟨rfl, hflag⟩
      · exact hacc.content q hpc hq
      · exact marking_at_check hr hpc hflag hacc
    rw [hidx]
    exact mem_set_of_ne hpc hmarking fun h => by cases h
  · rw [List.getElem?_set_ne hidx] at hmain
    have hmarking : pc ≠ .checkpoint .marking := by
      rintro rfl
      exact hheard hpc p hmain (MainPc.result_of_content hcontent)
    rcases hnews with hfails | hacc
    · have hmark := (program_unmarked hp).1 hfails
      rcases program_cases hp with ⟨q, q', rfl, rfl, -⟩ | ⟨q, q', rfl, rfl, -⟩ |
        ⟨q, q', rfl, rfl, -⟩ | ⟨_, rfl, rfl, -⟩ | ⟨t, q, q', rfl, rfl, -⟩
      · exact absurd (main_index hr hpc) hidx
      · cases hmark
      · cases q' <;> first | exact List.mem_set hlt _ | cases hmark
      · cases hmark
      · rw [worker_stuck hr hmain (MainPc.past_of_content hcontent) (List.mem_of_getElem? hpc)] at hp
        cases hp
    · exact mem_set_of_ne hpc (hacc.content p hmain hcontent) hmarking.symm

theorem tainted_step (hr : Reach (program S) ok (start S) c) {a : Nat × Answer} {pc pc' : Pc}
    {sh' : Shared} (hr' : Reach (program S) ok (start S) ⟨sh', c.threads.set a.1 pc'⟩)
    (hpc : c.threads[a.1]? = some pc) (hp : program S c.shared pc a.2 = some (sh', pc'))
    (hnews : pc.failing c.shared a.2 = true ∨ Accounted c) : Tainted sh' := by
  by_cases hend : c.threads[0]? = some (.main .finished)
  · obtain ⟨rfl, -, hlog⟩ := writer_after_end hr hend hpc hp
    rcases hnews with hfails | hacc
    · cases hfails
    · rw [hlog]
      exact ⟨hacc.tainted.exit, hacc.tainted.manifest⟩
  by_cases hend' : (c.threads.set a.1 pc')[0]? = some (.main .finished)
  · have hidx : a.1 = 0 := by
      by_contra hne
      rw [List.getElem?_set_ne hne] at hend'
      exact hend hend'
    rw [hidx] at hpc hend'
    rw [List.getElem?_set_self (List.getElem?_eq_some_iff.mp hpc).1] at hend'
    obtain rfl := Option.some.inj hend'
    rcases program_cases hp with ⟨p, _, rfl, heq, hs⟩ | ⟨_, _, -, heq, -⟩ | ⟨_, _, -, heq, -⟩ |
      ⟨_, -, heq, -⟩ | ⟨_, _, _, -, heq, -⟩ <;> cases heq
    refine mainStep_tainted hr hpc hs ?_
    by_contra hcontent
    have hcontent : p.content = true := by simpa using hcontent
    have hacc : Accounted c := by
      rcases hnews with hfails | hacc
      · cases (program_unmarked hp).1 hfails
      · exact hacc
    have hmarking := hacc.content p hpc hcontent
    cases p with
    | stopping r | awaitCheckpoint r =>
      simp only [mainStep] at hs
      split at hs <;> cases hs
    | finalFlush r | flushing r call | writing r logOk durable =>
      exact not_marking_of_concluding hr hpc rfl hmarking
    | _ => cases hcontent
  · exact tainted_of_unfinished hr' hend'

/-- **A failure of the log fails the run.**  In every run, whatever the interleaving and whichever
    calls fail: once an append or a flush has returned an error, the process does not exit with
    success and no manifest says `run_complete`, if the checkpoint task does not raise
    `output_failed` after `run` has returned `Ok`. -/
theorem log_failure_taints {failed : Bool}
    (h : Chronicle (program S) Heard recordFailure (start S) false c failed)
    (hfailed : failed = true) : Tainted c.shared := by
  have hinv : failed = true → Accounted c := by
    refine h.invariant (I := fun c failed => failed = true → Accounted c) (fun h => by cases h) ?_
    intro c failed a c' hc ih hheard hst hfailed
    have hr := hc.reach
    have hr' := hr.next hheard hst
    obtain ⟨pc, sh', pc', hpc, hp, rfl⟩ := step_cases hst
    have hmem' : pc' ∈ c.threads.set a.1 pc' :=
      List.mem_set (List.getElem?_eq_some_iff.mp hpc).1 _
    have hnews : pc.failing c.shared a.2 = true ∨ Accounted c := by
      rcases Bool.or_eq_true_iff.mp hfailed with hold | hnew
      · exact .inr (ih hold)
      · rw [hpc] at hnew
        exact .inl hnew
    refine ⟨?_, ?_, ?_⟩
    · rcases hnews with hfails | hacc
      · exact .inr (.inr ⟨pc', hmem', (program_unmarked hp).1 hfails⟩)
      · exact hacc.noticed_step hpc hp
    · intro p hmain hcontent
      exact content_step hr hheard hpc hp hnews hmain hcontent
    · exact tainted_step hr hr' hpc hp hnews
  exact (hinv hfailed).tainted

/-! ## Runs with a failing flush -/

/-- The checkpoint task takes a checkpoint whose flush fails. -/
def failingCheckpoint : List (Nat × Answer) := steps 2 4 ++ [(3, { synced := false })] ++ steps 2 3

/-- The main task stops the checkpoint task, flushes the log and writes the results. -/
def conclusion : List (Nat × Answer) := steps 0 5 ++ steps 3 1 ++ steps 0 2

/-- Seeding, then the flush fails, then the worker settles the node and `run` returns. -/
def earlyFlushFailure : List (Nat × Answer) :=
  steps 0 7 ++ failingCheckpoint ++ steps 4 6 ++ [(4, refused)] ++ steps 4 7 ++ steps 0 6 ++ conclusion

/-- The flush fails when `run` has returned. -/
def lateFlushFailure : List (Nat × Answer) := soloEnd ++ failingCheckpoint ++ conclusion

def Pc.isMarking : Pc → Bool
  | .checkpoint .marking => true
  | _ => false

/-- `Heard`, decided. -/
def heard (c : Conf Shared Pc) (a : Nat × Answer) : Bool :=
  !c.threads[a.1]?.any Pc.isMarking ||
    decide ((c.threads[0]?.bind Pc.ofMain).bind MainPc.result ≠ some .ok)

theorem heard_sound {c : Conf Shared Pc} {a : Nat × Answer} (h : heard c a = true) : Heard c a := by
  intro hmarking p hmain
  simpa [heard, hmarking, hmain, Pc.isMarking, Pc.ofMain] using h

/-- A failure before `run` has read the flag. -/
theorem log_failure_taints_early : ∃ c,
    Chronicle (program recording) Heard recordFailure (start recording) false c true ∧
    c.shared.exitCode = some .failure ∧ Tainted c.shared := by
  have hrun : (execRecord (program recording) heard recordFailure (start recording) false
      earlyFlushFailure).map (fun r => (r.2, r.1.shared.exitCode)) = some (true, some .failure) := by
    decide
  obtain ⟨⟨c, failed⟩, hc, heq⟩ := Option.map_eq_some_iff.mp hrun
  obtain ⟨hfailed, hexit⟩ := Prod.mk.injEq .. ▸ heq
  have hr : Chronicle (program recording) Heard recordFailure (start recording) false c failed :=
    (execRecord_chronicle hc).mono fun _ _ => heard_sound
  have htaint := log_failure_taints hr hfailed
  rw [show failed = true from hfailed] at hr
  exact ⟨c, hr, hexit, htaint⟩

/-- A flush of a checkpoint fails after `run` has returned, and the process reports a complete run
    and success. -/
theorem late_flush_failure_missed : recording.OfCrawler ∧ ∃ c m,
    Chronicle (program recording) anyStep recordFailure (start recording) false c true ∧
    c.shared.exitCode = some .success ∧ c.shared.manifest = some m ∧ m.runComplete = true := by
  refine ⟨recording_ofCrawler, ?_⟩
  have hrun : (execRecord (program recording) (fun _ _ => true) recordFailure (start recording) false
      lateFlushFailure).bind (fun r => r.1.shared.manifest.map fun m =>
        (r.2, r.1.shared.exitCode, m.runComplete)) = some (true, some .success, true) := by
    decide
  obtain ⟨⟨c, failed⟩, hc, heq⟩ := Option.bind_eq_some_iff.mp hrun
  obtain ⟨m, hm, heq⟩ := Option.map_eq_some_iff.mp heq
  simp only [Prod.mk.injEq] at heq
  obtain ⟨rfl, hexit, hcomplete⟩ := heq
  have hr : Chronicle (program recording) anyStep recordFailure (start recording) false c true :=
    (execRecord_chronicle hc).mono fun _ _ _ => trivial
  exact ⟨c, m, hr, hexit, hm, hcomplete⟩

end P2PCrawler
