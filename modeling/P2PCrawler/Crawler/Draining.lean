import P2PCrawler.Crawler.Snapshots
import P2PCrawler.Crawler.Work

/-!
# Shutting down

Once the shutdown flag is up, a worker that comes to the top of its loop leaves.  What is in the
queues stays there, but for one key for each worker that was waiting for one; nobody needs the
attempts that are left.

* `Pc.advance` — what a worker that is past the check still needs for the attempt it may begin.
* `late_step` — a step of a crawl that is shut down.

## Results

* `shutdown_drains` — **what is done after a shutdown is bounded by what was in hand**: at most one
  more key is taken for each worker that was waiting, and how many are queued does not matter.
-/

set_option autoImplicit false

namespace P2PCrawler

open ThreadPool

/-- What a worker needs for an attempt that it has not yet counted, with the key it may take. -/
def Pc.advance : Pc → ℤ
  | .worker _ .receiving => 36
  | .worker _ (.reserving _) | .worker _ (.starting _) | .worker _ (.task _ .begin)
  | .worker _ (.task _ (.count _)) => 26
  | _ => 0

/-- The worker is past the check for a shutdown and has no slot yet. -/
def Pc.midway : Pc → Bool
  | .worker _ .receiving | .worker _ (.reserving _) => true
  | _ => false

/-- What the shared state pays for, but for the keys. -/
def Shared.commands (sh : Shared) : ℤ := sh.log.channel.length + if sh.killed then 0 else 1

section Step
variable {S : Setup} {sh sh' : Shared} {a : Answer} {pc pc' : Pc}

theorem Pc.advance_nonneg (pc : Pc) : 0 ≤ pc.advance := by
  unfold advance
  split <;> decide

/-- Only a worker that is waiting takes a key out of a queue. -/
theorem backlog_le (h : program S sh pc a = some (sh', pc')) (hno : ∀ t, pc.intent S ≠ .take t) :
    sh.backlog ≤ sh'.backlog := by
  have heff := step_effect h
  generalize pc.held = hand at heff
  generalize pc'.held = hand' at heff
  cases heff with
  | aside _ hq | forfeit _ _ hq => exact (SameItems.backlog fun t => by rw [hq]).ge
  | close _ hq => exact (SameItems.backlog fun t => by rw [hq]; rfl).ge
  | @push t k own ho hopen hroom =>
    exact (Int.le_add_one le_rfl).trans_eq (backlog_push (k := k) (sh.push_items t k)).symm
  | pop ho => exact absurd ho (hno _)
  | _ => exact le_refl _

/-- The task of a worker counts an attempt only at its beginning. -/
theorem taskStep_advance {t : Transport} {k : AddrKey} {p q : TaskPc}
    (h : taskStep S sh t k a p = some (sh', some q)) :
    (Pc.worker t (.task k q)).advance + (if (Pc.worker t (.task k p)).tries then 26 else 0) ≤
      (Pc.worker t (.task k p)).advance := by
  have hretry : ∀ (retry : Bool) (terminal : Terminal) (kind : FailKind),
      (Pc.worker t (.task k (retryOrFinish retry terminal kind))).advance = 0 := by
    intro retry terminal kind
    cases retry <;> rfl
  cases p with
  | begin | count => cases h; simp [Pc.advance, Pc.tries]
  | everConnected | handshakeTimeout | handshakeFailed =>
    cases h
    rw [hretry]
    exact le_refl _
  | malformedLog c call | blockLog c parsed now call | outcomeLog c call =>
    rcases logStep_cases h with ⟨call', -, heq⟩ | ⟨res, -, heq⟩
    · cases heq; exact le_refl _
    · cases res <;> cases heq <;> exact le_refl _
  | upserting c count now rest =>
    cases rest with
    | nil => cases h; exact le_refl _
    | cons x rest =>
      cases h
      unfold upsertNext
      split <;> exact le_refl _
  | abandoning f | finishing f =>
    cases hnext : (finishStep sh k f).2 <;> simp only [taskStep, hnext] at h <;> cases h
    exact le_refl _
  | connecting | sendVersion | handshaking | collecting | malformedGuard | messageGuard
  | outcomeGuard | shuffling | resending =>
    simp only [taskStep] at h
    split at h <;> cases h <;> exact le_refl _
  | handshaken | getaddr | malformedCount | breakdown | messageDone | outcomeWrite | enqueueing =>
    cases h
    split <;> exact le_refl _
  | _ => cases h; exact le_refl _

/-- A worker outside `process`, once the flag is up. -/
theorem loopStep_late {t : Transport} {p p' : WorkerPc} (h : loopStep S sh t p = some (sh', p'))
    (hdown : sh.shutdown = true) :
    (Pc.worker t p').advance + 10 * sh.backlog ≤ (Pc.worker t p).advance + 10 * sh'.backlog ∧
      sh'.numProcessed + (Pc.worker t p').midway.toNat ≤
        sh.numProcessed + (Pc.worker t p).midway.toNat := by
  cases loopStep_cases h with
  | leave | drained => exact ⟨by simp [Pc.advance, Shared.backlog], by simp [Pc.midway]⟩
  | stay hup =>
    rw [hdown] at hup
    cases hup
  | @take k rest hitems =>
    have hback := backlog_pop (k := k) (sh.pop_items hitems)
    refine ⟨?_, le_refl _⟩
    simp only [Pc.advance]
    omega
  | reserve => exact ⟨le_refl _, by simp [Pc.midway]⟩
  | refuse => exact ⟨by simp [Pc.advance], by simp [Pc.midway]⟩
  | @discard k f | @discarded k f | @crashFinish k f | @crashFinished k f =>
    obtain ⟨store, queue, hframe⟩ := finishStep_frame sh k f
    have hback := (SameItems.backlog (finishStep_items sh k f)).ge
    have hnum : (finishStep sh k f).1.numProcessed = sh.numProcessed := by rw [hframe]
    exact ⟨by simp only [Pc.advance]; omega, by simp [hnum, Pc.midway]⟩
  | _ =>
    exact ⟨by simp [Pc.advance, Shared.backlog, Shared.closeAll, Shared.writeEntry],
      by simp [Pc.midway, Shared.closeAll, Shared.writeEntry]⟩

/-- **A step of a crawl that is shut down.** -/
theorem late_step (h : program S sh pc a = some (sh', pc')) (hdown : sh.shutdown = true) :
    pc'.advance + (if !a.panic && pc.tries then 26 else 0) + 10 * sh.backlog ≤
        pc.advance + 10 * sh'.backlog ∧
      sh'.numProcessed + pc'.midway.toNat ≤ sh.numProcessed + pc.midway.toNat := by
  rcases program_cases h with ⟨p, p', rfl, rfl, hs⟩ | ⟨p, p', rfl, rfl, hs⟩ |
    ⟨p, p', rfl, rfl, hs⟩ | ⟨L, rfl, rfl, hs, rfl⟩ | ⟨t, p, p', rfl, rfl, hs⟩
  · have hback := backlog_le h fun t ht => ?_
    · obtain ⟨-, -, hnum, -⟩ := mainStep_frame hs
      exact ⟨by simpa [Pc.advance, Pc.tries] using hback, hnum.le⟩
    · cases p with
      | seeding rest => cases rest <;> cases ht
      | seedEnqueue rest k e => cases e <;> cases ht
      | _ => cases ht
  · have hback := backlog_le h fun t ht => by cases p <;> cases ht
    obtain ⟨_, _, _, _, rfl⟩ := signalStep_frame hs
    exact ⟨by simpa [Pc.advance, Pc.tries] using hback, le_refl _⟩
  · have hback := backlog_le h fun t ht => by cases ht
    obtain ⟨_, _, _, _, _, rfl⟩ := checkpointStep_frame hs
    exact ⟨by simpa [Pc.advance, Pc.tries] using hback, le_refl _⟩
  · exact ⟨by simp [Pc.advance, Pc.tries, Shared.backlog], le_refl _⟩
  · rcases workerStep_cases hs with ⟨k, q, rfl, hpanic, rfl, rfl⟩ |
      ⟨k, q, next, rfl, hpanic, hstep, rfl⟩ | ⟨hq, -, -, hpanic, rfl, rfl⟩ | ⟨hq, -, hpanic, hstep⟩
    · have hadvance := (Pc.worker t (.task k q)).advance_nonneg
      exact ⟨by simpa [hpanic, unwind, Shared.backlog, Pc.advance] using hadvance, le_refl _⟩
    · have hback := backlog_le h fun t' ht => by
        cases q with
        | upserting c count now rest => cases rest <;> cases ht
        | enqueueing c count now rest key e => cases e <;> cases ht
        | abandoning f | finishing f => cases f <;> cases ht
        | _ => cases ht
      obtain ⟨_, _, _, _, _, _, hframe⟩ := (taskStep_frame hstep).eq
      have hnum : sh'.numProcessed = sh.numProcessed := by rw [hframe]
      cases next with
      | none =>
        have hadvance : (if (Pc.worker t (.task k q)).tries then (26 : ℤ) else 0) ≤
            (Pc.worker t (.task k q)).advance := by
          cases q <;> simp [Pc.tries, Pc.advance]
        refine ⟨?_, hnum.le⟩
        simp only [hpanic, Bool.not_false, Bool.true_and, Option.map_none, Option.getD_none,
          show (Pc.worker t .top).advance = 0 from rfl]
        omega
      | some q' =>
        have hadvance := taskStep_advance hstep
        refine ⟨?_, hnum.le⟩
        simp only [hpanic, Bool.not_false, Bool.true_and, Option.map_some, Option.getD_some]
        omega
    · have hadvance := (Pc.worker t p).advance_nonneg
      refine ⟨?_, ?_⟩
      · simpa [hpanic, Shared.backlog, Pc.advance] using hadvance
      · exact Nat.le_add_right _ _
    · have hlate := loopStep_late hstep hdown
      have htries : (Pc.worker t p).tries = false := by
        cases p with
        | task k q => exact absurd rfl (hq k q)
        | _ => rfl
      simpa [htries] using hlate

end Step

/-! ## What is in hand -/

section InHand
variable {S : Setup} {ok : Conf Shared Pc → Nat × Answer → Prop} {c c' : Conf Shared Pc}

/-- Nobody shuts down a crawl before its tasks are spawned. -/
theorem spawned_of_shutdown (hr : Reach (program S) ok (start S) c)
    (hdown : c.shared.shutdown = true) : c.shared.spawned = true := by
  refine hr.invariant (I := fun c => c.shared.shutdown = true → c.shared.spawned = true)
    (fun h => by cases h) ?_ hdown
  intro c a c' hr ih _ hst hdown'
  obtain ⟨pc, sh', pc', hpc, hp, rfl⟩ := step_cases hst
  have hphase := phases hr _ _ hpc
  have hstay := (step_effect hp).flags.spawned
  change sh'.spawned = true
  by_cases hspawned : c.shared.spawned = true
  · exact hstay hspawned
  · -- a thread that has not moved yet does not touch the flag
    have hsame : sh'.shutdown = c.shared.shutdown := by
      simp only [Bool.not_eq_true] at hspawned
      rcases program_cases hp with ⟨p, p', rfl, rfl, hs⟩ | ⟨p, p', rfl, rfl, hs⟩ |
        ⟨p, p', rfl, rfl, hs⟩ | ⟨L, rfl, rfl, -, rfl⟩ | ⟨t, p, p', rfl, rfl, hs⟩
      · simp only [PhaseOk, hspawned] at hphase
        cases p with
        | seeding rest => cases rest <;> cases hs <;> rfl
        | seedEnqueue rest k e =>
          cases hs
          obtain ⟨_, _, _, hframe⟩ := enqueueStep_frame S.digests c.shared k e
          rw [hframe]
        | startCheck | startClose | spawning => cases hs; rfl
        | _ => cases hphase
      · obtain rfl := hphase hspawned
        simp only [signalStep, hspawned, Bool.false_and, Bool.false_eq_true, if_false] at hs
        cases hs
      · obtain ⟨_, _, _, _, _, rfl⟩ := checkpointStep_frame hs
        rfl
      · rfl
      · obtain rfl := hphase hspawned
        simp only [workerStep, hspawned, Bool.not_false, Bool.true_or, if_true] at hs
        cases hs
    rw [show sh'.shutdown = true from hdown'] at hsame
    exact absurd (ih hsame.symm) hspawned

/-- A snapshot has no more keys before it than the store may hold. -/
theorem uncloned_le (hr : Reach (program S) ok (start S) c) :
    Holds (fun _ pc => pc.uncloned.length ≤ S.settings.maxAddresses) c := by
  refine hr.invariant (I := Holds fun _ pc => pc.uncloned.length ≤ S.settings.maxAddresses) ?_ ?_
  · intro i pc hpc
    rcases mem_start (List.mem_of_getElem? hpc) with rfl | rfl | rfl | rfl | ⟨t, rfl, -⟩ <;>
      exact Nat.zero_le _
  · intro c a c' hr ih _ hst
    refine ih.step hst (fun pc sh' pc' hpc hp => ?_) fun _ _ _ _ _ _ _ _ _ hold => hold
    have hold := ih _ _ hpc
    rcases program_cases hp with ⟨p, p', rfl, rfl, hs⟩ | ⟨p, p', rfl, rfl, hs⟩ |
      ⟨p, p', rfl, rfl, hs⟩ | ⟨L, rfl, rfl, -, rfl⟩ | ⟨t, p, p', rfl, rfl, hs⟩
    · exact Nat.zero_le _
    · exact Nat.zero_le _
    · cases p with
      | snapshotting processed durable =>
        cases hs
        have hroom := rooms hr
        have hkeys : c.shared.store.keys.length = c.shared.store.map.size := by
          simp [NodeStore.keys, AList.keys, List.keys, AList.size]
        have hwithin := hroom.within
        rw [← hroom.size, ← hkeys, hroom.budget] at hwithin
        exact hwithin
      | cloning processed durable rest acc =>
        cases rest with
        | nil => cases hs; exact Nat.zero_le _
        | cons k rest => cases hs; exact (Nat.le_succ _).trans hold
      | flushing processed call =>
        rcases logStep_cases hs with ⟨call', -, rfl⟩ | ⟨res, -, rfl⟩
        · exact Nat.zero_le _
        · cases res <;> exact Nat.zero_le _
      | acquiring processed =>
        simp only [checkpointStep] at hs
        split at hs <;> cases hs
        split <;> exact Nat.zero_le _
      | _ =>
        simp only [checkpointStep] at hs
        repeat' split at hs
        all_goals cases hs
        all_goals exact Nat.zero_le _
    · exact Nat.zero_le _
    · exact Nat.zero_le _

/-- A weight that goes by the kind of a thread is the same at all times. -/
theorem load_kind (hr : Reach (program S) ok (start S) c) (w : Kind → ℤ) :
    load (fun pc => w pc.kind) c.threads = load (fun pc => w pc.kind) (start S).threads := by
  have hmap : ∀ ts : List Pc, load (fun pc => w pc.kind) ts = load w (ts.map Pc.kind) := fun ts => by
    unfold load
    rw [List.map_map]
    rfl
  rw [hmap, kinds hr, ← hmap]

/-- The most that a thread of each kind still has to do, but for the addresses it has in hand. -/
def Kind.cost (S : Setup) : Kind → ℤ
  | .main => 17 + 4 * S.settings.concurrency.total
  | .signal => 3
  | .checkpoint => S.settings.maxAddresses + 9
  | .logWriter => 0
  | .worker _ => 43

theorem TaskPc.cost_le (t : Transport) (k : AddrKey) (p : TaskPc) :
    p.cost + (Pc.worker t (.task k p)).advance ≤ 43 + 14 * p.addrs.length := by
  cases p with
  | malformedLog c call | blockLog c parsed now call | outcomeLog c call =>
    cases call <;> simp only [cost, LogCall.cost, addrs, Pc.advance] <;> omega
  | enqueueing c count now rest key e =>
    cases e <;> simp only [cost, EnqueuePc.cost, addrs, Pc.advance] <;> omega
  | abandoning f | finishing f =>
    cases f <;> simp only [cost, FinishPc.cost, addrs, Pc.advance] <;> omega
  | _ =>
    simp only [cost, addrs, Pc.advance]
    omega

theorem cost_le (hr : Reach (program S) ok (start S) c) (hdown : c.shared.shutdown = true) {pc : Pc}
    (hpc : pc ∈ c.threads) :
    pc.cost S + pc.advance ≤ pc.kind.cost S + 14 * pc.addrs.length := by
  obtain ⟨i, hi⟩ := List.getElem?_of_mem hpc
  cases pc with
  | main p =>
    have hphase := phases hr i _ hi
    simp only [PhaseOk, spawned_of_shutdown hr hdown] at hphase
    cases p with
    | seeding | seedEnqueue | startCheck | startClose | spawning => cases hphase
    | flushing r call =>
      cases call <;> simp only [Pc.cost, MainPc.cost, LogCall.cost, Pc.advance, Pc.kind, Kind.cost] <;>
        omega
    | _ =>
      simp only [Pc.cost, MainPc.cost, Pc.advance, Pc.kind, Kind.cost]
      omega
  | signal p => cases p <;> simp [Pc.cost, SignalPc.cost, Pc.advance, Pc.kind, Kind.cost, Pc.addrs]
  | checkpoint p =>
    cases p with
    | cloning processed durable rest acc =>
      have hrest : rest.length ≤ S.settings.maxAddresses := uncloned_le hr i _ hi
      simp only [Pc.cost, CheckpointPc.cost, Pc.advance, Pc.kind, Kind.cost]
      omega
    | flushing processed call =>
      cases call <;>
        simp only [Pc.cost, CheckpointPc.cost, LogCall.cost, Pc.advance, Pc.kind, Kind.cost] <;> omega
    | _ =>
      simp only [Pc.cost, CheckpointPc.cost, Pc.advance, Pc.kind, Kind.cost]
      omega
  | logWriter => exact le_refl _
  | worker t p =>
    cases p with
    | task k p => exact p.cost_le t k
    | discarding k f | crashedFinish k f =>
      cases f <;>
        simp only [Pc.cost, WorkerPc.cost, FinishPc.cost, Pc.advance, Pc.kind, Kind.cost] <;> omega
    | _ =>
      simp only [Pc.cost, WorkerPc.cost, Pc.advance, Pc.kind, Kind.cost]
      omega

/-- What is in hand covers what is left to do. -/
theorem in_hand (hr : Reach (program S) ok (start S) c) (hdown : c.shared.shutdown = true) :
    load (fun pc => pc.cost S + pc.advance) c.threads ≤
      47 * S.settings.concurrency.total + S.settings.maxAddresses + 29 +
        14 * load (fun pc => (pc.addrs.length : ℤ)) c.threads := by
  have hmul : ∀ ts : List Pc, load (fun pc => 14 * (pc.addrs.length : ℤ)) ts =
      14 * load (fun pc => (pc.addrs.length : ℤ)) ts := fun ts => List.sum_map_mul_left ts _ _
  have hpool : ∀ t, load (fun pc => pc.kind.cost S) (pool S t) = 43 * S.settings.concurrency.of t := by
    intro t
    simp only [load, pool, List.map_replicate, List.sum_replicate, Pc.kind, Kind.cost]
    rw [nsmul_eq_mul]
    omega
  have hkinds : load (fun pc => pc.kind.cost S) c.threads =
      47 * S.settings.concurrency.total + S.settings.maxAddresses + 29 := by
    rw [load_kind hr (Kind.cost S)]
    have hstart : load (fun pc => pc.kind.cost S) (start S).threads =
        29 + 4 * S.settings.concurrency.total + S.settings.maxAddresses +
          (load (fun pc => pc.kind.cost S) (pool S .ip) +
            load (fun pc => pc.kind.cost S) (pool S .tor) +
            load (fun pc => pc.kind.cost S) (pool S .i2p)) := by
      simp only [start, load, List.map_append, List.sum_append, List.map_cons, List.sum_cons,
        List.map_nil, List.sum_nil, Pc.kind, Kind.cost]
      omega
    simp only [hstart, hpool, Concurrency.total, Concurrency.of]
    push_cast
    omega
  calc load (fun pc => pc.cost S + pc.advance) c.threads
      ≤ load (fun pc => pc.kind.cost S + 14 * (pc.addrs.length : ℤ)) c.threads :=
        load_le_load fun _ hpc => cost_le hr hdown hpc
    _ = load (fun pc => pc.kind.cost S) c.threads +
          14 * load (fun pc => (pc.addrs.length : ℤ)) c.threads := by rw [load_add, hmul]
    _ = _ := by rw [hkinds]

/-- Nothing in hand is overdrawn. -/
theorem in_hand_nonneg (hr : Reach (program S) ok (start S) c) :
    0 ≤ total Shared.commands (fun pc => pc.cost S + pc.advance) c := by
  refine total_nonneg ?_ fun pc hpc => ?_
  · simp only [Shared.commands]
    split <;> omega
  · obtain ⟨i, hi⟩ := List.getElem?_of_mem hpc
    have hcost := Pc.cost_nonneg (joined_le hr i pc hi)
    have hadvance := pc.advance_nonneg
    omega

/-- **A run that is shut down**: the flag stays up, what was in hand pays for every step, and no
    worker takes a slot but those that had passed the check. -/
theorem late_run (hr : Reachable (program S) (start S) c) (hdown : c.shared.shutdown = true) {g : Toll}
    (hlate : Chronicle (program S) ok Toll.record c {} c' g) :
    c'.shared.shutdown = true ∧
      total Shared.commands (fun pc => pc.cost S + pc.advance) c' + g.steps ≤
        total Shared.commands (fun pc => pc.cost S + pc.advance) c + g.intake.worth S ∧
      c'.shared.numProcessed + c'.threads.countP Pc.midway ≤
        c.shared.numProcessed + c.threads.countP Pc.midway := by
  refine hlate.invariant (I := fun c' g => c'.shared.shutdown = true ∧
    total Shared.commands (fun pc => pc.cost S + pc.advance) c' + g.steps ≤
      total Shared.commands (fun pc => pc.cost S + pc.advance) c + g.intake.worth S ∧
    c'.shared.numProcessed + c'.threads.countP Pc.midway ≤
      c.shared.numProcessed + c.threads.countP Pc.midway) ⟨hdown, ?_, le_refl _⟩ ?_
  · simp [Intake.worth]
  · rintro c₁ g a c₂ hlate ⟨hdown₁, hpaid, hslots⟩ _ hst
    have hroom := rooms (hr.trans hlate.reach.reachable)
    obtain ⟨pc, sh', pc', hpc, hp, rfl⟩ := step_cases hst
    have hstep := late_step hp hdown₁
    have hpay := program_pays hp hroom
    have hspent : total Shared.commands (fun pc => pc.cost S + pc.advance)
          ⟨sh', c₁.threads.set a.1 pc'⟩ <
        total Shared.commands (fun pc => pc.cost S + pc.advance) c₁ + (pc.intake a.2).worth S := by
      refine total_step_lt hst fun pc₁ sh₁ pc₁' hpc₁ hp₁ => ?_
      rw [hpc, Option.some.injEq] at hpc₁
      subst hpc₁
      rw [hp, Option.some.injEq, Prod.mk.injEq] at hp₁
      obtain ⟨rfl, rfl⟩ := hp₁
      simp only [Shared.float, Shared.commands] at hpay ⊢
      omega
    refine ⟨(step_effect hp).flags.shutdown hdown₁, ?_, ?_⟩
    · simp only [Toll.record, hpc, Intake.worth_add]
      push_cast
      omega
    · have hcount := countP_set_add Pc.midway pc' hpc
      have hmidway : ∀ pc : Pc, (if pc.midway then 1 else 0) = pc.midway.toNat := fun pc => by
        cases pc.midway <;> rfl
      simp only [hmidway] at hcount
      exact (by omega : sh'.numProcessed + (c₁.threads.set a.1 pc').countP Pc.midway ≤
        c.shared.numProcessed + c.threads.countP Pc.midway)

theorem midway_le (hr : Reach (program S) ok (start S) c) :
    c.threads.countP Pc.midway ≤ S.settings.concurrency.total := by
  have hcount : ((c.threads.countP Pc.midway : ℕ) : ℤ) =
      load (fun pc => (pc.midway.toNat : ℤ)) c.threads := by
    generalize c.threads = ts
    induction ts with
    | nil => rfl
    | cons pc ts ih =>
      simp only [load, List.map_cons, List.sum_cons, List.countP_cons] at ih ⊢
      push_cast
      rw [ih]
      cases pc.midway <;> simp [add_comm]
  have hle : load (fun pc => (pc.midway.toNat : ℤ)) c.threads ≤ load Pc.isWorker c.threads := by
    refine load_le_load fun pc _ => ?_
    cases pc with
    | worker t p => cases p <;> simp [Pc.midway, Pc.isWorker]
    | _ => simp [Pc.midway, Pc.isWorker]
  have hworkers := worker_count hr
  omega

/-- **What is done after a shutdown is bounded by what was in hand**, whatever is still queued,
    however many attempts are left and whatever fails.  No slot is taken but by the workers that had
    passed the check. -/
theorem shutdown_drains (hr : Reachable (program S) (start S) c) (hdown : c.shared.shutdown = true)
    {g : Toll} (hlate : Chronicle (program S) ok Toll.record c {} c' g) :
    c'.shared.shutdown = true ∧
    c'.shared.numProcessed ≤ c.shared.numProcessed + c.threads.countP Pc.midway ∧
    c.threads.countP Pc.midway ≤ S.settings.concurrency.total ∧
    g.steps ≤ 47 * S.settings.concurrency.total + S.settings.maxAddresses + 30 +
      14 * (c.threads.map fun pc => pc.addrs.length).sum + c.shared.log.channel.length +
      (10 * g.intake.messages + 14 * g.intake.addresses +
        (S.settings.maxAddresses + 9) * g.intake.ticks) := by
  obtain ⟨hdown', hpaid, hslots⟩ := late_run hr hdown hlate
  have hnonneg := in_hand_nonneg (hr.trans hlate.reach.reachable)
  have hhand := in_hand hr hdown
  have haddrs : load (fun pc => (pc.addrs.length : ℤ)) c.threads =
      ((c.threads.map fun pc => pc.addrs.length).sum : ℕ) := by
    simp [load, Nat.cast_list_sum, List.map_map, Function.comp_def]
  refine ⟨hdown', by omega, midway_le hr, ?_⟩
  have hstart : total Shared.commands (fun pc => pc.cost S + pc.advance) c ≤
      47 * S.settings.concurrency.total + S.settings.maxAddresses + 30 +
        14 * ((c.threads.map fun pc => pc.addrs.length).sum : ℕ) + c.shared.log.channel.length := by
    simp only [total, Shared.commands]
    rw [haddrs] at hhand
    split <;> omega
  simp only [Intake.worth] at hpaid
  have hsteps : (g.steps : ℤ) ≤ 47 * S.settings.concurrency.total + S.settings.maxAddresses + 30 +
      14 * ((c.threads.map fun pc => pc.addrs.length).sum : ℕ) + c.shared.log.channel.length +
      (10 * g.intake.messages + 14 * g.intake.addresses +
        (S.settings.maxAddresses + 9) * g.intake.ticks) := by
    omega
  exact_mod_cast hsteps

end InHand

/-- Ctrl+C while the worker of `solo` waits for its key. -/
def stopped : List (Nat × Answer) := steps 0 7 ++ steps 4 1 ++ steps 1 2

/-- It takes that key, and tries it once. -/
theorem shutdown_drains_solo : ∃ c c' g, Reachable (program solo) (start solo) c ∧
    Chronicle (program solo) noPanic Toll.record c {} c' g ∧ c.shared.numProcessed = 0 ∧
    c'.shared.shutdown = true ∧ c'.shared.numProcessed = 1 ∧
    1 ≤ c.threads.countP Pc.midway ∧ c.threads.countP Pc.midway ≤ 1 ∧
    g.steps ≤ 47 + solo.settings.maxAddresses + 30 := by
  have hrun : ((exec (program solo) panicFree (start solo) stopped).bind fun c =>
      (execRecord (program solo) panicFree Toll.record c {}
        (steps 4 5 ++ [(4, refused)] ++ steps 4 3)).map fun r =>
          (c.shared.shutdown, c.shared.numProcessed, c.shared.log.channel.length,
            (c.threads.map fun pc => pc.addrs.length).sum, r.1.shared.numProcessed, r.2.intake)) =
      some (true, 0, 0, 0, 1, {}) := by
    decide
  obtain ⟨c, hc, hrest⟩ := Option.bind_eq_some_iff.mp hrun
  obtain ⟨⟨c', g⟩, hc', heq⟩ := Option.map_eq_some_iff.mp hrest
  simp only [Prod.mk.injEq] at heq
  obtain ⟨hdown, hnone, hchannel, haddrs, hone, hintake⟩ := heq
  have hr : Reachable (program solo) (start solo) c := (exec_noPanic hc).reachable
  have hlate : Chronicle (program solo) noPanic Toll.record c {} c' g :=
    (execRecord_chronicle hc').mono fun _ a ha => by simpa [panicFree, noPanic] using ha
  obtain ⟨hdown', hslots, hmidway, hsteps⟩ := shutdown_drains hr hdown hlate
  rw [hchannel, haddrs, hintake] at hsteps
  exact ⟨c, c', g, hr, hlate, hnone, hdown', hone, by omega, hmidway, hsteps⟩

end P2PCrawler
