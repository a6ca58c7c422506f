import P2PCrawler.Crawler.Control

/-!
# Termination is neither lost nor premature

The counter of outstanding work is changed by separate steps in `enqueue` and `finish`; the
queues are closed by the `finish` that takes it from one to zero.

## Results

* `outstanding_eq` — the counter is the backlog of the queues plus a non-negative weight for
  every task.
* `closed_of_zero` — once the tasks are spawned, a zero counter means that the queues are closed
  or that a `finish` is about to close them.
* `no_lost_or_premature_termination` — **the counter is exact, the last `finish` abandons
  nothing, and a crawl with nothing left to do has closed its queues.**
-/

set_option autoImplicit false

namespace P2PCrawler

open ThreadPool

/-! ## Positions -/

/-- Where the task stands inside `finish`, if it does. -/
def Pc.inFinish : Pc → Option FinishPc
  | .worker _ (.discarding _ f) => some f
  | .worker _ (.crashedFinish _ f) => some f
  | .worker _ (.task _ (.finishing f)) => some f
  | .worker _ (.task _ (.abandoning f)) => some f
  | _ => none

def addrKeys (as : List AdvertisedAddr) : List AddrKey := as.map fun a => ⟨a.host, a.port⟩

/-- Addresses a node task has received and not yet enqueued. -/
def TaskPc.toEnqueue (S : Setup) : TaskPc → List AddrKey
  | .messageGuard _ _ parsed | .breakdown _ _ parsed | .blockLog _ parsed _ _
  | .shuffling _ parsed _ => addrKeys (enabledAddrs S.settings parsed)
  | .upserting _ _ _ rest => addrKeys rest
  | .enqueueing _ _ _ rest a _ => a :: addrKeys rest
  | _ => []

/-- Addresses a task still has to enqueue. -/
def Pc.toEnqueue (S : Setup) : Pc → List AddrKey
  | .main (.seeding rest) => rest
  | .main (.seedEnqueue rest k _) => k :: rest
  | .worker _ (.task _ p) => p.toEnqueue S
  | _ => []

/-! ## Weights -/

/-- What a task contributes to the counter beyond the backlog of the queues. -/
def Pc.weight (pc : Pc) : ℤ := pc.held.owned.length - pc.held.uncounted + pc.held.undecremented

theorem FinishPc.weight (k : AddrKey) (st : NodeState) (f : FinishPc) :
    ((f.held k st).owned.length : ℤ) - (f.held k st).uncounted + (f.held k st).undecremented =
      if f = .close then 0 else 1 := by
  cases f <;> simp [FinishPc.held]

/-- A node task weighs at least one until its `finish` is about to close. -/
theorem TaskPc.weight_pos (k : AddrKey) {p : TaskPc} (hf : p ≠ .finishing .close)
    (ha : p ≠ .abandoning .close) :
    1 ≤ ((p.held k).owned.length : ℤ) - (p.held k).uncounted + (p.held k).undecremented := by
  cases p with
  | enqueueing c count now rest a e => cases e <;> simp [TaskPc.held, Held.plus, EnqueuePc.held]
  | abandoning f =>
    have hw := FinishPc.weight k .queued f
    rw [if_neg fun e => ha (by rw [e])] at hw
    exact le_of_eq hw.symm
  | finishing f =>
    have hw := FinishPc.weight k .processing f
    rw [if_neg fun e => hf (by rw [e])] at hw
    exact le_of_eq hw.symm
  | _ => simp [TaskPc.held]

theorem Pc.weight_nonneg (pc : Pc) : 0 ≤ pc.weight := by
  cases pc with
  | main p =>
    cases p with
    | seedEnqueue rest k e => cases e <;> simp [Pc.weight, Pc.held, MainPc.held, EnqueuePc.held]
    | _ => simp [Pc.weight, Pc.held, MainPc.held]
  | worker t p =>
    cases p with
    | task k p =>
      by_cases hf : p = .finishing .close
      · subst hf; simp [Pc.weight, Pc.held, WorkerPc.held, TaskPc.held, FinishPc.held]
      · by_cases ha : p = .abandoning .close
        · subst ha; simp [Pc.weight, Pc.held, WorkerPc.held, TaskPc.held, FinishPc.held]
        · have := TaskPc.weight_pos k hf ha
          simp only [Pc.weight, Pc.held, WorkerPc.held]
          omega
    | discarding k f =>
      have := FinishPc.weight k .queued f
      simp only [Pc.weight, Pc.held, WorkerPc.held]
      split at this <;> omega
    | crashedFinish k f =>
      have := FinishPc.weight k .processing f
      simp only [Pc.weight, Pc.held, WorkerPc.held]
      split at this <;> omega
    | _ => simp [Pc.weight, Pc.held, WorkerPc.held]
  | _ => simp [Pc.weight, Pc.held]

/-- The counter is the backlog plus the weights of the tasks. -/
theorem outstanding_eq {c : Conf Shared Pc} (hb : Books c) :
    c.shared.store.outstanding = c.shared.backlog + load Pc.weight c.threads := by
  have hc := hb.counter
  have ha := hb.active
  have hw := load_cancel (f := Pc.owes) (g := Pc.share) (w := Pc.weight)
    (fun pc => by simp only [Pc.owes, Pc.share, Pc.weight]; omega) c.threads
  simp only [total, counterLedger, activeLedger] at hc ha
  omega

theorem outstanding_nonneg {c : Conf Shared Pc} (hb : Books c) : 0 ≤ c.shared.store.outstanding := by
  rw [outstanding_eq hb]
  have := c.shared.backlog_nonneg
  have := load_nonneg Pc.weight_nonneg c.threads
  omega

theorem weight_le_outstanding {c : Conf Shared Pc} (hb : Books c) {pc : Pc} (h : pc ∈ c.threads) :
    pc.weight ≤ c.shared.store.outstanding := by
  rw [outstanding_eq hb]
  have := c.shared.backlog_nonneg
  have := le_load Pc.weight_nonneg h
  omega

theorem items_eq_nil_of_backlog {sh : Shared} (h : sh.backlog = 0) (t : Transport) :
    (sh.queue t).items = [] := by
  unfold Shared.backlog at h
  apply List.eq_nil_of_length_eq_zero
  cases t <;> omega

/-! ## Reaching zero -/

theorem inFinish_close_step {S : Setup} {sh sh' : Shared} {pc pc' : Pc} {a : Answer}
    (h : program S sh pc a = some (sh', pc')) (ha : a.panic = false)
    (hclose : pc.inFinish = some .close) (t : Transport) : (sh'.queue t).closed = true := by
  rcases program_cases h with ⟨p, p', rfl, rfl, hs⟩ | ⟨p, p', rfl, rfl, hs⟩ |
    ⟨p, p', rfl, rfl, hs⟩ | ⟨L, rfl, rfl, -, rfl⟩ | ⟨w, p, p', rfl, rfl, hs⟩
  · cases hclose
  · cases hclose
  · cases hclose
  · cases hclose
  · rcases workerStep_cases hs with ⟨k, q, rfl, hp, -, -⟩ | ⟨k, q, next, rfl, -, hstep, rfl⟩ |
      ⟨-, -, -, hp, -, -⟩ | ⟨hq, -, -, hstep⟩
    · rw [ha] at hp; cases hp
    · cases q <;> cases hclose <;> cases hstep <;> rfl
    · rw [ha] at hp; cases hp
    · cases p with
      | task k q => exact absurd rfl (hq k q)
      | _ => cases hclose <;> (cases hstep; rfl)

/-- The step that takes the counter from one to zero is a `finish` on its way to closing, or a
    failed send of the seeding. -/
theorem reaches_zero {S : Setup} {sh sh' : Shared} {pc pc' : Pc} {a : Answer}
    (h : program S sh pc a = some (sh', pc')) (hpos : 0 < sh.store.outstanding)
    (hzero : sh'.store.outstanding = 0) (hw : pc'.weight = 0) :
    pc'.inFinish = some .close ∨ ∃ rest k, pc = .main (.seedEnqueue rest k .uncount) := by
  have howed : pc.held.undecremented ≠ 0 ∧ sh.store.outstanding = 1 := by
    have he := step_effect h
    generalize hh : pc.held = hd at he
    generalize pc'.held = hd' at he
    cases he with
    | decr => exact ⟨by simp, by simp at hzero; omega⟩
    | incr => simp at hzero; omega
    | aside hs hq hf => rw [hs] at hzero; omega
    | close hs hq hf => rw [hs] at hzero; omega
    | forfeit hwhy hs hq hf => rw [hs] at hzero; omega
    | park hnew hroom => simp [NodeStore.insertEntry] at hzero; omega
    | discover hnew hroom => simp [NodeStore.insertEntry] at hzero; omega
    | write | refresh | revive | switch | settle => simp at hzero; omega
    | reject => simp at hzero; omega
    | push | pop => exact absurd hzero (by simpa [Shared.pop] using hpos.ne')
  obtain ⟨howed, hone⟩ := howed
  rcases program_cases h with ⟨p, p', rfl, rfl, hs⟩ | ⟨p, p', rfl, rfl, hs⟩ |
    ⟨p, p', rfl, rfl, hs⟩ | ⟨L, rfl, rfl, -, rfl⟩ | ⟨w, p, p', rfl, rfl, hs⟩
  · cases p with
    | seedEnqueue rest k e =>
      cases e <;> first | exact absurd rfl howed | exact .inr ⟨rest, k, rfl⟩
    | _ => exact absurd rfl howed
  · exact absurd rfl howed
  · exact absurd rfl howed
  · exact absurd rfl howed
  · rcases workerStep_cases hs with ⟨k, q, rfl, -, rfl, rfl⟩ | ⟨k, q, next, rfl, -, hstep, rfl⟩ |
      ⟨-, -, -, -, rfl, rfl⟩ | ⟨hq, -, -, hstep⟩
    · simp [unwind] at hzero; omega
    · cases q with
      | enqueueing c count now rest key e =>
        -- the task still answers for the node it is processing
        cases e with
        | uncount =>
          cases hstep
          simp [Pc.weight, Pc.held, WorkerPc.held, TaskPc.held, enqueueStep] at hw
        | _ => exact absurd rfl howed
      | abandoning f =>
        cases f with
        | decr =>
          cases hstep
          simp only [finishStep, hone, if_true]
          exact .inl rfl
        | _ => exact absurd rfl howed
      | finishing f =>
        cases f with
        | decr =>
          cases hstep
          simp only [finishStep, hone, if_true]
          exact .inl rfl
        | _ => exact absurd rfl howed
      | _ => exact absurd rfl howed
    · simp at hzero; omega
    · cases p with
      | discarding k f =>
        cases f with
        | decr =>
          cases hstep
          simp only [finishStep, hone, if_true]
          exact .inl rfl
        | _ => exact absurd rfl howed
      | crashedFinish k f =>
        cases f with
        | decr =>
          cases hstep
          simp only [finishStep, hone, if_true]
          exact .inl rfl
        | _ => exact absurd rfl howed
      | task k q => exact absurd rfl (hq k q)
      | _ => exact absurd rfl howed

/-! ## A zero counter -/

/-- With nothing outstanding, the queues are closed or about to be. -/
def Closing (c : Conf Shared Pc) : Prop :=
  c.shared.store.outstanding = 0 →
    (∀ t, (c.shared.queue t).closed = true) ∨ ∃ pc ∈ c.threads, pc.inFinish = some .close

/-- Where the start check has found nothing to do, the queues are closed before spawning. -/
def SpawnOk (sh : Shared) : Pc → Prop
  | .main .spawning => sh.store.outstanding = 0 → ∀ t, (sh.queue t).closed = true
  | .main .startClose => sh.store.outstanding = 0
  | _ => True

/-- Until the tasks are spawned, only the main task touches the store and the queues. -/
theorem idle_before_spawn {S : Setup} {ok : Conf Shared Pc → Nat × Answer → Prop}
    {c : Conf Shared Pc} (hr : Reach (program S) ok (start S) c) (hsp : c.shared.spawned = false)
    {i : Nat} {pc pc' : Pc} {sh' : Shared} {a : Answer} (hpc : c.threads[i]? = some pc)
    (h : program S c.shared pc a = some (sh', pc')) (hne : ∀ p, pc ≠ .main p) :
    sh'.store = c.shared.store ∧ sh'.queue = c.shared.queue ∧ sh'.spawned = false := by
  have hphase := phases hr _ _ hpc
  rcases program_cases h with ⟨p, p', rfl, rfl, hs⟩ | ⟨p, p', rfl, rfl, hs⟩ |
    ⟨p, p', rfl, rfl, hs⟩ | ⟨L, rfl, rfl, -, rfl⟩ | ⟨w, p, p', rfl, rfl, hs⟩
  · exact absurd rfl (hne p)
  · have := hphase hsp
    subst this
    simp [signalStep, hsp] at hs
  · obtain ⟨_, _, _, _, _, rfl⟩ := checkpointStep_frame hs
    exact ⟨rfl, rfl, hsp⟩
  · exact ⟨rfl, rfl, hsp⟩
  · have := hphase hsp
    subst this
    simp [workerStep, hsp] at hs

theorem mainStep_spawns {S : Setup} {sh sh' : Shared} {a : Answer} {p p' : MainPc}
    (h : mainStep S sh a p = some (sh', p')) (hbefore : sh.spawned = false)
    (hphase : sh.spawned = !p.early) (hafter : sh'.spawned = true) :
    p = .spawning ∧ sh'.store = sh.store ∧ sh'.queue = sh.queue := by
  have hearly : p.early = true := by rw [hbefore] at hphase; simpa using hphase.symm
  have hlate := (mainStep_phase h hphase).1
  rw [hafter] at hlate
  cases p with
  | spawning => cases h; exact ⟨rfl, rfl, rfl⟩
  | seeding rest =>
    cases rest with
    | nil => cases h; cases hlate
    | cons k rest => cases h; split at hlate <;> cases hlate
  | seedEnqueue rest k e => cases h; split at hlate <;> cases hlate
  | startCheck => cases h; split at hlate <;> cases hlate
  | startClose => cases h; cases hlate
  | _ => cases hearly

theorem spawnOk {S : Setup} {ok : Conf Shared Pc → Nat × Answer → Prop} {c : Conf Shared Pc}
    (hr : Reach (program S) ok (start S) c) : Holds SpawnOk c := by
  refine hr.invariant (I := Holds SpawnOk) ?_ ?_
  · intro i pc hpc
    rcases mem_start (List.mem_of_getElem? hpc) with rfl | rfl | rfl | rfl | ⟨t, rfl, -⟩ <;> trivial
  · intro c a c' hr ih _ hst
    refine ih.step hst ?_ ?_
    · intro pc sh' pc' hpc hp
      rcases program_cases hp with ⟨p, p', rfl, rfl, hs⟩ | ⟨p, p', rfl, rfl, hs⟩ |
        ⟨p, p', rfl, rfl, hs⟩ | ⟨L, rfl, rfl, -, -⟩ | ⟨w, p, p', rfl, rfl, hs⟩
      · cases p with
        | startCheck =>
          cases hs
          split
          · rename_i hzero; exact hzero
          · rename_i hnz; exact fun hz => absurd hz hnz
        | startClose => cases hs; exact fun _ _ => rfl
        | seeding rest =>
          cases rest with
          | nil => cases hs; trivial
          | cons k rest => cases hs; split <;> trivial
        | seedEnqueue rest k e => cases hs; split <;> trivial
        | spawning => cases hs; trivial
        | _ =>
          -- past spawning, the main task stays past it
          have hphase := phases hr _ _ hpc
          have hlate := (mainStep_phase hs hphase).1
          have hsp : sh'.spawned = true := by
            have := (step_effect hp).flags.spawned
            exact this hphase
          rw [hsp] at hlate
          cases p' <;> trivial
      all_goals trivial
    · intro pc sh' pc' j u hpc hp hj hu hold
      cases u with
      | main q =>
        have hne : ∀ p, pc ≠ .main p := by
          rintro p rfl
          exact hj ((main_index hr hu).trans (main_index hr hpc).symm)
        have hphase := phases hr _ _ hu
        cases q with
        | spawning | startClose =>
          obtain ⟨hs, hq, -⟩ := idle_before_spawn hr hphase hpc hp hne
          simp only [SpawnOk, hs, hq] at hold ⊢
          exact hold
        | _ => trivial
      | _ => trivial

/-- Once the tasks are spawned, a zero counter means that the queues are closed or that a `finish`
    is about to close them. -/
theorem closed_of_zero {S : Setup} {c : Conf Shared Pc}
    (hr : Reach (program S) noPanic (start S) c) (hsp : c.shared.spawned = true) : Closing c := by
  refine hr.invariant (I := fun c => c.shared.spawned = true → Closing c) ?_ ?_ hsp
  · intro h; cases h
  · intro c a c' hr ih hok hst hsp' hzero
    obtain ⟨pc, sh', pc', hpc, hp, rfl⟩ := step_cases hst
    have hstep : step (program S) c a = some ⟨sh', c.threads.set a.1 pc'⟩ := hst
    cases hsp : c.shared.spawned with
    | false =>
      -- this step spawns the tasks
      by_cases hmain : ∃ p, pc = .main p
      · obtain ⟨p, rfl⟩ := hmain
        rcases program_cases hp with ⟨p, p', hpe, rfl, hs⟩ | ⟨_, _, hpe, -⟩ | ⟨_, _, hpe, -⟩ |
          ⟨_, hpe, -⟩ | ⟨_, _, _, hpe, -⟩ <;> cases hpe
        obtain ⟨rfl, hstore, hqueue⟩ := mainStep_spawns hs hsp (phases hr _ _ hpc) hsp'
        have hspawn : c.shared.store.outstanding = 0 → ∀ t, (c.shared.queue t).closed = true :=
          spawnOk hr _ _ hpc
        simp only [hstore] at hzero
        exact .inl fun t => by rw [hqueue]; exact hspawn hzero t
      · have := (idle_before_spawn hr hsp hpc hp fun p e => hmain ⟨p, e⟩).2.2
        rw [this] at hsp'
        cases hsp'
    | true =>
      have hb' : Books ⟨sh', c.threads.set a.1 pc'⟩ :=
        books (hr.next hok hstep) (not_panicked (hr.next hok hstep))
      have hmem' : pc' ∈ c.threads.set a.1 pc' := List.mem_set (List.getElem?_eq_some_iff.mp hpc).1 _
      by_cases hz : c.shared.store.outstanding = 0
      · rcases ih hsp hz with hcl | ⟨u, hu, hclose⟩
        · exact .inl fun t => (step_effect hp).closed (hcl t)
        · obtain ⟨j, hj⟩ := List.getElem?_of_mem hu
          by_cases hij : a.1 = j
          · subst hij
            rw [hpc] at hj
            cases hj
            exact .inl fun t => inFinish_close_step hp hok hclose t
          · refine .inr ⟨u, List.mem_of_getElem? (i := j) ?_, hclose⟩
            rw [List.getElem?_set_ne hij]
            exact hj
      · have hpos : 0 < c.shared.store.outstanding := by
          have := outstanding_nonneg (books hr (not_panicked hr))
          omega
        have hw : pc'.weight = 0 := by
          have hle := weight_le_outstanding hb' hmem'
          have := pc'.weight_nonneg
          simp only at hle hzero
          omega
        rcases reaches_zero hp hpos hzero hw with hclose | ⟨rest, k, rfl⟩
        · exact .inr ⟨pc', hmem', hclose⟩
        · have hphase := phases hr _ _ hpc
          simp [PhaseOk, hsp, MainPc.early] at hphase

/-! ## The result -/

/-- A task without an owned key has nothing to enqueue, unless it is the main task seeding. -/
theorem toEnqueue_eq_nil {S : Setup} {pc : Pc} (hown : pc.held.owned = [])
    (hmain : ∀ p, pc = .main p → p.early = false) : pc.toEnqueue S = [] := by
  cases pc with
  | main p => have := hmain p rfl; cases p <;> first | rfl | cases this
  | worker t p =>
    cases p with
    | task k p =>
      cases p with
      | enqueueing c count now rest a e => cases e <;> simp [Pc.held, WorkerPc.held, TaskPc.held, Held.plus] at hown
      | _ => first | rfl | (simp [Pc.held, WorkerPc.held, TaskPc.held] at hown)
    | _ => rfl
  | _ => rfl

/-- Where all weight of the pool is in one `finish`, no other task owns a key. -/
theorem owned_eq_nil_of_weight {pc : Pc} (hw : pc.weight = 0)
    (hmain : ∀ p, pc = .main p → p.early = false) : pc.held.owned = [] := by
  cases pc with
  | main p => have := hmain p rfl; cases p <;> first | rfl | cases this
  | worker t p =>
    cases p with
    | task k p =>
      by_cases hf : p = .finishing .close
      · subst hf; rfl
      · by_cases ha : p = .abandoning .close
        · subst ha; rfl
        · have := TaskPc.weight_pos k hf ha
          simp only [Pc.weight, Pc.held, WorkerPc.held] at hw
          omega
    | discarding k f =>
      cases f <;> first | rfl | (simp [Pc.weight, Pc.held, WorkerPc.held, FinishPc.held] at hw)
    | crashedFinish k f =>
      cases f <;> first | rfl | (simp [Pc.weight, Pc.held, WorkerPc.held, FinishPc.held] at hw)
    | _ => first | rfl | (simp [Pc.weight, Pc.held, WorkerPc.held] at hw)
  | _ => rfl

/-- Increments of the counter a task still owes, and decrements. -/
def Pc.uncounted (pc : Pc) : ℤ := pc.held.uncounted
def Pc.undecremented (pc : Pc) : ℤ := pc.held.undecremented

/-- The counter, exactly. -/
theorem outstanding_exact {c : Conf Shared Pc} (hb : Books c) :
    c.shared.store.outstanding =
      c.shared.store.activeCount - load Pc.uncounted c.threads + load Pc.undecremented c.threads := by
  have hc := hb.counter
  have hl := load_cancel (f := Pc.uncounted) (g := fun pc => -pc.undecremented)
    (w := fun pc => -pc.owes)
    (fun pc => by simp only [Pc.uncounted, Pc.undecremented, Pc.owes]; omega) c.threads
  rw [load_neg, load_neg] at hl
  simp only [total, counterLedger] at hc
  omega

/-- At the decrement that takes the counter to zero, nothing is left to do. -/
theorem nothing_left {S : Setup} {c : Conf Shared Pc} (hr : Reach (program S) noPanic (start S) c)
    {i : Nat} {pc : Pc} (hpc : c.threads[i]? = some pc) (hdecr : pc.inFinish = some .decr)
    (hone : c.shared.store.outstanding = 1) :
    c.shared.backlog = 0 ∧ c.shared.store.activeCount = 0 ∧ ∀ u ∈ c.threads, u.toEnqueue S = [] := by
  have hb := books hr (not_panicked hr)
  -- the tasks are spawned, since this one has moved
  have hsp : c.shared.spawned = true := by
    by_contra hno
    have hphase := phases hr _ _ hpc
    cases pc with
    | worker t p => have := hphase (by simpa using hno); subst this; cases hdecr
    | _ => cases hdecr
  have hlate : ∀ u ∈ c.threads, ∀ p, u = .main p → p.early = false := by
    rintro u hu p rfl
    have hphase : c.shared.spawned = !p.early := (phases hr).of_mem hu
    rw [hsp] at hphase
    simpa using hphase.symm
  have hmine : pc.weight = 1 ∧ pc.held.owned = [] ∧ pc.toEnqueue S = [] := by
    cases pc with
    | worker t p =>
      cases p with
      | task k q => cases q <;> cases hdecr <;> exact ⟨rfl, rfl, rfl⟩
      | _ => cases hdecr <;> exact ⟨rfl, rfl, rfl⟩
    | _ => cases hdecr
  have hout := outstanding_eq hb
  have hback := c.shared.backlog_nonneg
  have hle := le_load Pc.weight_nonneg (List.mem_of_getElem? hpc)
  have howned : ∀ u ∈ c.threads, u.held.owned = [] := by
    intro u hu
    obtain ⟨j, hj⟩ := List.getElem?_of_mem hu
    by_cases hij : i = j
    · subst hij
      rw [hpc] at hj
      cases hj
      exact hmine.2.1
    · have := add_le_load Pc.weight_nonneg hij hpc hj
      have := u.weight_nonneg
      exact owned_eq_nil_of_weight (by omega) (hlate u hu)
  refine ⟨by omega, ?_, fun u hu => toEnqueue_eq_nil (howned u hu) (hlate u hu)⟩
  have hactive := hb.active
  have hshare : load Pc.share c.threads = 0 := load_eq_zero fun u hu => by
    simp [Pc.share, howned u hu]
  simp only [total, activeLedger] at hactive
  omega

/-- **Termination is neither lost nor premature.**  In every state reached without a panic:
    the counter never underflows and is exact; a `finish` that takes it to zero leaves no active
    entry, no queued key and no task with an address to enqueue; and a spawned crawl without
    active entries, none of whose tasks is inside `enqueue` or `finish`, has closed and emptied
    its queues, so that no worker waits for ever. -/
theorem no_lost_or_premature_termination {S : Setup} {c : Conf Shared Pc}
    (hr : Reach (program S) noPanic (start S) c) :
    (0 ≤ c.shared.store.outstanding ∧
      c.shared.store.outstanding =
        c.shared.store.activeCount - load Pc.uncounted c.threads +
          load Pc.undecremented c.threads) ∧
    (∀ (i : Nat) (pc : Pc), c.threads[i]? = some pc → pc.inFinish = some .decr →
      c.shared.store.outstanding = 1 →
        (∀ k st, c.shared.store.stateOf k = some st → st.active = false) ∧
        (∀ t, (c.shared.queue t).items = []) ∧ ∀ u ∈ c.threads, u.toEnqueue S = []) ∧
    (c.shared.spawned = true →
      (∀ k st, c.shared.store.stateOf k = some st → st.active = false) →
      (∀ u ∈ c.threads, u.uncounted = 0 ∧ u.undecremented = 0 ∧ u.inFinish ≠ some .close) →
        ∀ t, (c.shared.queue t).closed = true ∧ (c.shared.queue t).items = []) := by
  have hb := books hr (not_panicked hr)
  refine ⟨⟨outstanding_nonneg hb, outstanding_exact hb⟩, ?_, ?_⟩
  · intro i pc hpc hdecr hone
    obtain ⟨hback, hact, hnone⟩ := nothing_left hr hpc hdecr hone
    exact ⟨fun k st hk => NodeStore.not_active_of_activeCount_eq_zero hact hk,
      items_eq_nil_of_backlog hback, hnone⟩
  · intro hsp hinactive hquiet t
    have hact : c.shared.store.activeCount = 0 := by
      by_contra hne
      obtain ⟨k, st, hk, hst⟩ := NodeStore.exists_active_of_activeCount_pos (Nat.pos_of_ne_zero hne)
      rw [hinactive k st hk] at hst
      cases hst
    have hzero : c.shared.store.outstanding = 0 := by
      rw [outstanding_exact hb, hact, load_eq_zero fun u hu => (hquiet u hu).1,
        load_eq_zero fun u hu => (hquiet u hu).2.1]
      rfl
    have hback : c.shared.backlog = 0 := by
      have := outstanding_eq hb
      have := c.shared.backlog_nonneg
      have := load_nonneg Pc.weight_nonneg c.threads
      omega
    refine ⟨?_, items_eq_nil_of_backlog hback t⟩
    rcases closed_of_zero hr hsp hzero with hcl | ⟨u, hu, hclose⟩
    · exact hcl t
    · exact absurd hclose (hquiet u hu).2.2

/-! ## A run of a crawl with one worker -/

def solo : Setup := ⟨.zero, soloSettings, .dns ["192.0.2.1"], 0⟩

def refused : Answer := { connect := .error { kind := .connectionRefused } }

/-- Thread `i` takes `n` steps on the default answer. -/
def steps (i n : Nat) : List (Nat × Answer) := List.replicate n (i, {})

/-- Seeding, then the worker fails to connect and settles the node, up to its decrement. -/
def soloRun : List (Nat × Answer) := steps 0 7 ++ steps 4 6 ++ [(4, refused)] ++ steps 4 3

/-- `noPanic`, decided. -/
def panicFree (_ : Conf Shared Pc) (a : Nat × Answer) : Bool := !a.2.panic

theorem exec_noPanic {S : Setup} {as : List (Nat × Answer)} {c : Conf Shared Pc}
    (h : exec (program S) panicFree (start S) as = some c) :
    Reach (program S) noPanic (start S) c :=
  (exec_reach h).mono fun _ a ha => by simpa [panicFree, noPanic] using ha

theorem no_lost_or_premature_termination_solo :
    ∃ c, exec (program solo) panicFree (start solo) soloRun = some c ∧
      c.shared.store.outstanding = 1 ∧ ∀ t, (c.shared.queue t).items = [] := by
  have hrun : (exec (program solo) panicFree (start solo) soloRun).map (fun c =>
      (c.shared.store.outstanding, c.threads[4]?.bind Pc.inFinish)) = some (1, some .decr) := by
    decide
  obtain ⟨c, hc, heq⟩ := Option.map_eq_some_iff.mp hrun
  obtain ⟨hone, hdecr⟩ := Prod.mk.injEq .. ▸ heq
  obtain ⟨pc, hpc, hpcd⟩ := Option.bind_eq_some_iff.mp hdecr
  have hall := no_lost_or_premature_termination (exec_noPanic hc)
  exact ⟨c, hc, hone, (hall.2.1 4 pc hpc hpcd hone).2.1⟩

end P2PCrawler
