import P2PCrawler.Crawler.Counters
import P2PCrawler.Crawler.Effort
import P2PCrawler.Crawler.Failures
import P2PCrawler.Crawler.Progress

/-!
# The work of a crawl is bounded

What a task has still to do is priced by its position; keys in the queues and commands of the log
writer are paid for by the shared state, as are the attempts that are left.  A step spends, and only
what comes from outside brings in more: what a peer sends, and the ticks of the checkpoint.

* `Pc.cost`, `Shared.float` — what a thread still has to do, and what the shared state pays for.
* `payment` — every step spends, but for what it takes in.

## Results

* `steps_bounded` — **the length of a run is bounded** by the settings and by what came in.
* `can_finish` — **every crawl can finish**, from every state of every run, in a lull.
-/

set_option autoImplicit false

namespace P2PCrawler

open ThreadPool

/-! ## Prices -/

def LogCall.cost : LogCall → ℤ
  | .lock _ => 4
  | .send _ _ => 3
  | .wait _ _ _ => 1

def EnqueuePc.cost : EnqueuePc → ℤ
  | .route => 13
  | .count _ => 12
  | .send _ => 11
  | .discard => 2
  | .uncount => 1

def FinishPc.cost : FinishPc → ℤ
  | .write _ _ => 3
  | .decr => 2
  | .close => 1

/-- What is left of an attempt, with the addresses of the message in hand. -/
def TaskPc.cost : TaskPc → ℤ
  | .begin => 13
  | .count _ => 12
  | .connecting _ _ => 37
  | .connected _ _ => 36
  | .connectedAttempt _ _ => 35
  | .sendVersion _ => 34
  | .firstVersion _ _ => 33
  | .versionSent _ _ => 32
  | .handshaking _ _ => 31
  | .handshaken _ _ => 30
  | .connectFailed _ _ => 21
  | .everConnected _ _ | .handshakeTimeout _ | .handshakeFailed _ _ => 20
  | .getaddr _ | .messageDone _ _ => 29
  | .collecting _ => 28
  | .malformedGuard _ _ => 27
  | .malformedCount _ _ => 26
  | .malformedLog _ call => 21 + call.cost
  | .malformedMark _ => 21
  | .malformedRelease _ _ => 20
  | .messageGuard _ _ parsed => 37 + 14 * parsed.addrs.length
  | .breakdown _ _ parsed => 36 + 14 * parsed.addrs.length
  | .blockLog _ parsed _ call => 31 + 14 * parsed.addrs.length + call.cost
  | .shuffling _ parsed _ => 31 + 14 * parsed.addrs.length
  | .blockFailed _ => 21
  | .blockMark _ => 20
  | .upserting _ _ _ rest => 30 + 14 * rest.length
  | .enqueueing _ _ _ rest _ e => 30 + 14 * rest.length + e.cost
  | .outcomeGuard _ _ => 19
  | .outcomeWrite _ _ => 18
  | .outcomeLog _ call => 13 + call.cost
  | .outcomeMark _ => 13
  | .outcomeRelease _ => 12
  | .completing _ => 11
  | .requeueing _ _ => 19
  | .resending _ _ => 18
  | .abandoning f | .finishing f => 7 + f.cost

/-- A worker at the top of its loop may still take one key, which the queue pays for. -/
def WorkerPc.cost : WorkerPc → ℤ
  | .top => 7
  | .receiving => 6
  | .reserving _ => 15
  | .starting _ => 14
  | .limitHit _ => 12
  | .discarding _ f => 8 + f.cost
  | .discardClose => 8
  | .task _ p => p.cost
  | .crashed _ => 6
  | .crashedShutdown _ => 5
  | .crashedFinish _ f => 1 + f.cost
  | .crashedClose => 1
  | .exited | .died => 0

/-- Four steps for each worker still to be joined. -/
def MainPc.cost (S : Setup) : MainPc → ℤ
  | .seeding rest => 18 + 4 * S.settings.concurrency.total + 14 * rest.length
  | .seedEnqueue rest _ e => 18 + 4 * S.settings.concurrency.total + 14 * rest.length + e.cost
  | .startCheck => 17 + 4 * S.settings.concurrency.total
  | .startClose => 16 + 4 * S.settings.concurrency.total
  | .spawning => 15 + 4 * S.settings.concurrency.total
  | .joining joined => 14 + 4 * (S.settings.concurrency.total - joined)
  | .joinFailed joined => 17 + 4 * (S.settings.concurrency.total - joined)
  | .joinShutdown joined => 16 + 4 * (S.settings.concurrency.total - joined)
  | .joinClose joined => 15 + 4 * (S.settings.concurrency.total - joined)
  | .abortSignals => 13
  | .awaitSignals => 12
  | .checkWorkers => 11
  | .checkOutput => 10
  | .stopping _ => 9
  | .awaitCheckpoint _ => 8
  | .finalFlush _ => 7
  | .flushing _ call => 2 + call.cost
  | .marking _ => 2
  | .writing _ _ _ => 1
  | .finished => 0

def SignalPc.cost : SignalPc → ℤ
  | .waiting => 3
  | .storing => 2
  | .closing => 1
  | .armed => 0

/-- A snapshot visits every entry. -/
def CheckpointPc.cost (S : Setup) : CheckpointPc → ℤ
  | .idle => 1
  | .acquiring _ => S.settings.maxAddresses + 9
  | .flushing _ call => S.settings.maxAddresses + 4 + call.cost
  | .snapshotting _ _ => S.settings.maxAddresses + 4
  | .cloning _ _ rest _ => 3 + rest.length
  | .publishing _ => 2
  | .marking => 2
  | .leaving => 1
  | .exited => 0

/-- What a thread still has to do. -/
def Pc.cost (S : Setup) : Pc → ℤ
  | .main p => p.cost S
  | .signal p => p.cost
  | .checkpoint p => p.cost S
  | .logWriter => 0
  | .worker _ p => p.cost

/-- What the shared state pays for, but for the attempts. -/
def Shared.float (sh : Shared) : ℤ :=
  10 * sh.backlog + sh.log.channel.length + if sh.killed then 0 else 1

/-- The attempts that are left. -/
def Shared.left (S : Setup) (sh : Shared) : ℤ :=
  S.settings.maxAddresses * S.settings.handshakeAttempts - sh.store.attempts

/-- What the shared state pays for. -/
def Shared.funds (S : Setup) (sh : Shared) : ℤ := 26 * sh.left S + sh.float

/-! ## What comes in -/

/-- A message and its addresses, or a tick of the checkpoint. -/
structure Intake where
  messages : Nat := 0
  addresses : Nat := 0
  ticks : Nat := 0
  deriving DecidableEq, Repr

namespace Intake

def add (i j : Intake) : Intake :=
  ⟨i.messages + j.messages, i.addresses + j.addresses, i.ticks + j.ticks⟩

/-- The steps that the intake makes for. -/
def worth (S : Setup) (i : Intake) : ℤ :=
  10 * i.messages + 14 * i.addresses + (S.settings.maxAddresses + 9) * i.ticks

end Intake

/-- What a peer sends: a message that ends the request brings in nothing. -/
def CollectEvent.intake : CollectEvent → Intake
  | .message _ parsed => { messages := 1, addresses := parsed.addrs.length }
  | .ping none | .skip => { messages := 1 }
  | _ => {}

/-- What a step takes in. -/
def Pc.intake (a : Answer) : Pc → Intake
  | .worker _ (.task _ (.collecting _)) => if a.panic then {} else a.collected.intake
  | .checkpoint .idle => if a.tick then { ticks := 1 } else {}
  | _ => {}

/-! ## Every step spends -/

section Payment
variable {S : Setup} {sh sh' : Shared} {a : Answer}

theorem LogCall.cost_pos (call : LogCall) : 0 < call.cost := by
  cases call <;> simp [cost]

theorem EnqueuePc.cost_pos (e : EnqueuePc) : 0 < e.cost := by
  cases e <;> simp [cost]

theorem FinishPc.cost_pos (f : FinishPc) : 0 < f.cost := by
  cases f <;> simp [cost]

theorem TaskPc.cost_gt (p : TaskPc) : 7 < p.cost := by
  cases p with
  | malformedLog c call | blockLog c parsed now call | outcomeLog c call =>
    have := call.cost_pos
    simp only [cost]
    omega
  | enqueueing c count now rest key e =>
    have := e.cost_pos
    simp only [cost]
    omega
  | abandoning f | finishing f =>
    have := f.cost_pos
    simp only [cost]
    omega
  | messageGuard | breakdown | shuffling | upserting =>
    simp only [cost]
    omega
  | _ => simp [cost]

/-- What a call of `enqueue` still costs. -/
def EnqueuePc.rest (next : Option EnqueuePc) : ℤ := (next.map EnqueuePc.cost).getD 0

def FinishPc.rest (next : Option FinishPc) : ℤ := (next.map FinishPc.cost).getD 0

/-- A key that is sent is paid for by the queue. -/
theorem trySend_float {t : Transport} {k : AddrKey} (h : sh.trySend t k = some sh') :
    sh'.float = sh.float + 10 := by
  obtain ⟨-, -, heq⟩ := Shared.trySend_some h
  have hback : sh'.backlog = sh.backlog + 1 :=
    backlog_push (t := t) (k := k) fun t' => by rw [heq]; exact sh.push_items t k t'
  have hlog : sh'.log = sh.log := by rw [heq]
  have hkilled : sh'.killed = sh.killed := by rw [heq]
  simp only [Shared.float, hback, hlog, hkilled]
  omega

theorem enqueueStep_pays (H : Digests) (sh : Shared) (k : AddrKey) (e : EnqueuePc) :
    EnqueuePc.rest (enqueueStep H sh k e).2 + (enqueueStep H sh k e).1.float < e.cost + sh.float := by
  cases e with
  | send t =>
    simp only [enqueueStep]
    split
    · rename_i sh' hsend
      have := trySend_float hsend
      simp only [EnqueuePc.rest, EnqueuePc.cost, Option.map_none, Option.getD_none]
      omega
    · simp only [EnqueuePc.rest, EnqueuePc.cost, Option.map_some, Option.getD_some]
      omega
  | _ => exact Int.add_lt_add_right (by simp [enqueueStep, EnqueuePc.rest, EnqueuePc.cost]) _

theorem finishStep_pays (sh : Shared) (k : AddrKey) (f : FinishPc) :
    FinishPc.rest (finishStep sh k f).2 + (finishStep sh k f).1.float < f.cost + sh.float := by
  cases f with
  | write terminal reason =>
    simp only [finishStep]
    split
    · exact Int.add_lt_add_right (by simp [FinishPc.rest, FinishPc.cost]) _
    · split <;> exact Int.add_lt_add_right (by simp [FinishPc.rest, FinishPc.cost]) _
  | decr =>
    simp only [finishStep]
    split <;> exact Int.add_lt_add_right (by simp [FinishPc.rest, FinishPc.cost]) _
  | close => exact Int.add_lt_add_right (by simp [finishStep, FinishPc.rest, FinishPc.cost]) _

/-- A call that sends its command is paid for by the channel. -/
theorem logStep_pays {π : Type} {call : LogCall} {wait : LogCall → π} {done : Option Nat → π} {p : π}
    (h : logStep sh call wait done = some (sh', p)) :
    (∃ call', p = wait call' ∧ call'.cost + sh'.float < call.cost + sh.float) ∨
      ∃ res, p = done res ∧ sh'.float < call.cost + sh.float := by
  unfold logStep at h
  obtain ⟨⟨L, next⟩, hcall, heq⟩ := Option.map_eq_some_iff.mp h
  simp only [Prod.mk.injEq] at heq
  obtain ⟨rfl, rfl⟩ := heq
  cases next with
  | pending call' =>
    refine .inl ⟨call', rfl, ?_⟩
    rcases LogCall.step_pending hcall with ⟨r, rfl, -, rfl, rfl⟩ | ⟨r, eventId, rfl, rfl, rfl⟩
    · exact Int.add_lt_add_right (show (3 : ℤ) < 4 by decide) _
    · simp only [LogCall.cost, Shared.float, Shared.backlog, List.length_append, List.length_singleton]
      push_cast
      omega
  | returned res =>
    refine .inr ⟨res, rfl, ?_⟩
    obtain ⟨r, eventId, ticket', rfl, -, rfl⟩ := LogCall.step_returned hcall
    simp only [LogCall.cost, Shared.float, Shared.backlog]
    omega

/-- The command that is served leaves the channel. -/
theorem LogState.writerStep_channel {H : Digests} {L L' : LogState} {fault : Option Nat}
    {synced : Bool} (h : L.writerStep H fault synced = some L') :
    L'.channel.length + 1 = L.channel.length := by
  unfold writerStep at h
  split at h
  · cases h
  · rename_i hch
    split at h
    · cases h; simp [hch]
    · split at h <;> cases h
      simp [hch]
  · rename_i hch
    split at h <;> cases h <;> simp [hch]

/-- What a task still costs once it has moved: the worker goes back to the top of its loop. -/
def TaskPc.rest (next : Option TaskPc) : ℤ := (next.map TaskPc.cost).getD 7

/-- An attempt is paid for when it is counted, and what a peer sends brings its own pay. -/
def TaskPc.income (S : Setup) (a : Answer) : TaskPc → ℤ
  | .count _ => 26
  | .collecting _ => a.collected.intake.worth S
  | _ => 0

theorem retryOrFinish_cost (retry : Bool) (terminal : Terminal) (kind : FailKind) :
    (retryOrFinish retry terminal kind).cost ≤ 19 := by
  cases retry <;> simp [retryOrFinish, TaskPc.cost, FinishPc.cost]

theorem upsertNext_cost (c : Session) (count : Nat) (now : Int) (rest : List AdvertisedAddr)
    (key : AddrKey) (out : FrontierOutcome) :
    (upsertNext c count now rest key out).cost ≤ 43 + 14 * rest.length := by
  cases out <;> simp only [upsertNext, TaskPc.cost, EnqueuePc.cost] <;> omega

theorem Intake.worth_nonneg (S : Setup) (i : Intake) : 0 ≤ i.worth S := by
  have hticks := mul_nonneg (by omega : (0 : ℤ) ≤ S.settings.maxAddresses + 9)
    (by omega : (0 : ℤ) ≤ i.ticks)
  unfold Intake.worth
  omega

/-- What keeps a request going brings in a message. -/
theorem collect_again {n : Nat} {event : CollectEvent} (h : collect n event = .again) :
    event.intake = { messages := 1 } := by
  cases event with
  | ping failed => cases failed <;> first | rfl | cases h
  | quiet p => cases p <;> cases h
  | error e =>
    simp only [collect] at h
    split at h <;> cases h
  | skip => rfl
  | _ => cases h

theorem collect_message {n : Nat} {event : CollectEvent} {command : AddrCommand}
    {parsed : ParsedAddrMessage} (h : collect n event = .message command parsed) :
    event.intake = { messages := 1, addresses := parsed.addrs.length } := by
  cases event with
  | message => cases h; rfl
  | ping failed => cases failed <;> cases h
  | quiet p => cases p <;> cases h
  | error e =>
    simp only [collect] at h
    split at h <;> cases h
  | _ => cases h

theorem taskStep_pays {t : Transport} {k : AddrKey} {p : TaskPc} {next : Option TaskPc}
    (h : taskStep S sh t k a p = some (sh', next)) :
    TaskPc.rest next + sh'.float < p.cost + p.income S a + sh.float := by
  cases p with
  | connecting net n | sendVersion n =>
    simp only [taskStep] at h
    split at h <;> cases h <;>
      exact Int.add_lt_add_right (by simp [TaskPc.rest, TaskPc.cost, TaskPc.income]) _
  | handshaking n sentTs =>
    simp only [taskStep] at h
    split at h <;> cases h <;>
      exact Int.add_lt_add_right (by simp [TaskPc.rest, TaskPc.cost, TaskPc.income]) _
  | everConnected n kind | handshakeFailed n kind | handshakeTimeout n =>
    cases h
    refine Int.add_lt_add_right ?_ _
    exact (retryOrFinish_cost _ _ _).trans_lt (by simp [TaskPc.cost, TaskPc.income])
  | handshaken hd sentTs =>
    cases h
    refine Int.add_lt_add_right ?_ _
    cases S.settings.probeMode <;> simp [TaskPc.rest, TaskPc.cost, TaskPc.income]
  | getaddr c =>
    cases h
    refine Int.add_lt_add_right ?_ _
    cases a.send <;> simp [TaskPc.rest, TaskPc.cost, TaskPc.income]
  | collecting c =>
    have hworth := a.collected.intake.worth_nonneg S
    simp only [taskStep] at h
    split at h
    · rename_i hevent
      cases h
      refine Int.add_lt_add_right ?_ _
      have hpaid := collect_again hevent
      simp [TaskPc.rest, TaskPc.cost, TaskPc.income, Intake.worth, hpaid]
    · cases h
      refine Int.add_lt_add_right ?_ _
      simp only [TaskPc.rest, TaskPc.cost, TaskPc.income, Option.map_some, Option.getD_some]
      omega
    · rename_i command parsed hevent
      cases h
      refine Int.add_lt_add_right ?_ _
      simp only [TaskPc.rest, TaskPc.cost, TaskPc.income, Option.map_some, Option.getD_some,
        collect_message hevent, Intake.worth]
      omega
    · cases h
      refine Int.add_lt_add_right ?_ _
      simp only [TaskPc.rest, TaskPc.cost, TaskPc.income, Option.map_some, Option.getD_some]
      omega
  | malformedGuard c event | messageGuard c command parsed | outcomeGuard c outcome =>
    simp only [taskStep] at h
    split at h <;> cases h
    refine Int.add_lt_add_right ?_ _
    simp [TaskPc.rest, TaskPc.cost, TaskPc.income]
  | malformedCount c event | breakdown c command parsed | outcomeWrite c outcome =>
    cases h
    refine Int.add_lt_add_right ?_ _
    cases S.logging <;>
      simp only [TaskPc.rest, TaskPc.cost, TaskPc.income, LogCall.cost, Option.map_some,
        Option.getD_some, if_true, Bool.false_eq_true, if_false] <;>
      omega
  | malformedLog c call | blockLog c parsed now call | outcomeLog c call =>
    rcases logStep_pays h with ⟨call', rfl, hpay⟩ | ⟨res, rfl, hpay⟩
    · simp only [TaskPc.rest, TaskPc.cost, TaskPc.income, Option.map_some, Option.getD_some]
      omega
    · cases res <;>
        simp only [TaskPc.rest, TaskPc.cost, TaskPc.income, Option.map_some, Option.getD_some,
          Option.isSome_some, Option.isSome_none, if_true, Bool.false_eq_true, if_false] <;>
        omega
  | shuffling c parsed now =>
    simp only [taskStep] at h
    split at h <;> cases h
    rename_i hperm
    refine Int.add_lt_add_right ?_ _
    have hlen : a.order.length ≤ parsed.addrs.length := by
      rw [(List.isPerm_iff.mp hperm).length_eq]
      exact List.length_filter_le _ _
    simp only [TaskPc.rest, TaskPc.cost, TaskPc.income, Option.map_some, Option.getD_some]
    omega
  | upserting c count now rest =>
    cases rest with
    | nil =>
      cases h
      exact Int.add_lt_add_right (by simp [TaskPc.rest, TaskPc.cost, TaskPc.income]) _
    | cons addr rest =>
      cases h
      refine Int.add_lt_add_right ?_ _
      refine (upsertNext_cost _ _ _ _ _ _).trans_lt ?_
      simp only [TaskPc.cost, TaskPc.income, List.length_cons]
      push_cast
      omega
  | enqueueing c count now rest addr e =>
    cases h
    have hpay := enqueueStep_pays S.digests sh addr e
    cases hnext : (enqueueStep S.digests sh addr e).2 <;>
      simp only [hnext, EnqueuePc.rest, TaskPc.rest, TaskPc.cost, TaskPc.income, Option.map_some,
        Option.getD_some, Option.map_none, Option.getD_none] at hpay ⊢ <;>
      omega
  | messageDone c count =>
    cases h
    refine Int.add_lt_add_right ?_ _
    cases isGetaddrReplyComplete count <;> simp [TaskPc.rest, TaskPc.cost, TaskPc.income]
  | resending terminal kind =>
    simp only [taskStep] at h
    split at h
    · rename_i sh₁ hsend
      have hfloat := trySend_float hsend
      cases h
      simp only [TaskPc.rest, TaskPc.cost, TaskPc.income, Option.map_none, Option.getD_none]
      omega
    · cases h
      exact Int.add_lt_add_right (by simp [TaskPc.rest, TaskPc.cost, TaskPc.income, FinishPc.cost]) _
  | abandoning f | finishing f =>
    cases h
    have hpay := finishStep_pays sh k f
    have hpos := f.cost_pos
    cases hnext : (finishStep sh k f).2 <;>
      simp only [hnext, FinishPc.rest, TaskPc.rest, TaskPc.cost, TaskPc.income, Option.map_some,
        Option.getD_some, Option.map_none, Option.getD_none] at hpay ⊢ <;>
      omega
  | _ =>
    cases h
    exact Int.add_lt_add_right (by simp [TaskPc.rest, TaskPc.cost, TaskPc.income, FinishPc.cost]) _

theorem loopStep_pays {t : Transport} {p p' : WorkerPc} (h : loopStep S sh t p = some (sh', p')) :
    p'.cost + sh'.float < p.cost + sh.float := by
  cases loopStep_cases h with
  | @take k rest hitems =>
    have hback := backlog_pop (k := k) (sh.pop_items hitems)
    have hlog : (sh.pop t rest).log = sh.log := rfl
    have hkilled : (sh.pop t rest).killed = sh.killed := rfl
    have hfloat : sh.float = (sh.pop t rest).float + 10 := by
      simp only [Shared.float, hback, hlog, hkilled]
      omega
    simp only [WorkerPc.cost]
    omega
  | @discard k f f' hf | @crashFinish k f f' hf | @discarded k f hf | @crashFinished k f hf =>
    have hpay := finishStep_pays sh k f
    have hpos := f.cost_pos
    simp only [hf, FinishPc.rest, WorkerPc.cost, Option.map_some, Option.getD_some,
      Option.map_none, Option.getD_none] at hpay ⊢
    omega
  | _ => exact Int.add_lt_add_right (by simp [WorkerPc.cost, TaskPc.cost, FinishPc.cost]) _

theorem mainStep_pays {p p' : MainPc} (h : mainStep S sh a p = some (sh', p')) :
    p'.cost S + sh'.float < p.cost S + sh.float := by
  cases p with
  | seeding rest =>
    cases rest with
    | nil => cases h; exact Int.add_lt_add_right (by simp [MainPc.cost]) _
    | cons k rest =>
      cases h
      refine Int.add_lt_add_right ?_ _
      split <;> simp only [MainPc.cost, EnqueuePc.cost, List.length_cons] <;> push_cast <;> omega
  | seedEnqueue rest k e =>
    cases h
    have hpay := enqueueStep_pays S.digests sh k e
    cases hnext : (enqueueStep S.digests sh k e).2 <;>
      simp only [hnext, EnqueuePc.rest, MainPc.cost, Option.map_some, Option.getD_some,
        Option.map_none, Option.getD_none] at hpay ⊢ <;>
      omega
  | startCheck =>
    cases h
    refine Int.add_lt_add_right ?_ _
    split <;> simp [MainPc.cost]
  | joining joined =>
    simp only [mainStep] at h
    split at h
    · rename_i hall
      cases h
      exact Int.add_lt_add_right (by simp [MainPc.cost, hall]) _
    · split at h <;> split at h <;> cases h <;>
        exact Int.add_lt_add_right (by simp only [MainPc.cost]; push_cast; omega) _
  | awaitSignals | awaitCheckpoint | stopping | writing =>
    simp only [mainStep] at h
    split at h <;> cases h <;> exact Int.add_lt_add_right (by simp [MainPc.cost]) _
  | checkWorkers | finalFlush =>
    cases h
    refine Int.add_lt_add_right ?_ _
    split <;> simp [MainPc.cost, LogCall.cost]
  | flushing r call =>
    rcases logStep_pays h with ⟨call', rfl, hpay⟩ | ⟨res, rfl, hpay⟩
    · simp only [MainPc.cost]
      omega
    · cases res <;>
        simp only [MainPc.cost, Option.isSome_some, Option.isSome_none, if_true, Bool.false_eq_true,
          if_false] <;>
        omega
  | finished => cases h
  | _ =>
    cases h
    exact Int.add_lt_add_right (by simp [MainPc.cost]) _

theorem signalStep_pays {p p' : SignalPc} (h : signalStep sh p = some (sh', p'))
    (hkilled : sh.killed = false) : p'.cost + sh'.float < p.cost + sh.float := by
  cases p with
  | waiting =>
    simp only [signalStep] at h
    split at h <;> cases h
    exact Int.add_lt_add_right (by simp [SignalPc.cost]) _
  | armed =>
    simp only [signalStep] at h
    split at h <;> cases h
    simp only [SignalPc.cost, Shared.float, Shared.backlog, hkilled, if_true, Bool.false_eq_true,
      if_false]
    omega
  | storing | closing =>
    cases h
    exact Int.add_lt_add_right (by simp [SignalPc.cost]) _

theorem checkpointStep_pays {p p' : CheckpointPc} (h : checkpointStep S sh a p = some (sh', p'))
    (hroom : Roomy S sh) :
    p'.cost S + sh'.float < p.cost S + ((Pc.checkpoint p).intake a).worth S + sh.float := by
  cases p with
  | idle =>
    simp only [checkpointStep] at h
    split at h
    · cases h
    · split at h
      · rename_i htick
        cases h
        exact Int.add_lt_add_right (by simp [CheckpointPc.cost, Pc.intake, htick, Intake.worth]) _
      · rename_i htick
        split at h <;> cases h
        exact Int.add_lt_add_right (by simp [CheckpointPc.cost, Pc.intake, htick, Intake.worth]) _
  | acquiring processed =>
    simp only [checkpointStep] at h
    split at h <;> cases h
    refine Int.add_lt_add_right ?_ _
    split <;> simp [CheckpointPc.cost, LogCall.cost, Pc.intake, Intake.worth]
    omega
  | flushing processed call =>
    rcases logStep_pays h with ⟨call', rfl, hpay⟩ | ⟨res, rfl, hpay⟩
    · simp [CheckpointPc.cost, Pc.intake, Intake.worth]
      omega
    · cases res <;> simp [CheckpointPc.cost, Pc.intake, Intake.worth] <;> omega
  | snapshotting processed durable =>
    cases h
    refine Int.add_lt_add_right ?_ _
    have hsize := hroom.size
    have hwithin := hroom.within
    rw [hroom.budget] at hwithin
    have hkeys : sh.store.keys.length = sh.store.map.size := by
      simp [NodeStore.keys, AList.keys, List.keys, AList.size]
    simp [CheckpointPc.cost, Pc.intake, Intake.worth]
    omega
  | cloning processed durable rest acc =>
    cases rest <;> cases h <;>
      exact Int.add_lt_add_right (by simp [CheckpointPc.cost, Pc.intake, Intake.worth]) _
  | publishing m =>
    cases h
    cases a.stored <;>
      exact Int.add_lt_add_right (by simp [CheckpointPc.cost, Pc.intake, Intake.worth]) _
  | marking | leaving =>
    cases h
    exact Int.add_lt_add_right (by simp [CheckpointPc.cost, Pc.intake, Intake.worth]) _
  | exited => cases h

/-- The thread is about to count an attempt. -/
def Pc.tries : Pc → Bool
  | .worker _ (.task _ (.count _)) => true
  | _ => false

theorem workerStep_pays {t : Transport} {p p' : WorkerPc}
    (h : workerStep S sh t a p = some (sh', p')) :
    p'.cost + sh'.float < p.cost + ((Pc.worker t p).intake a).worth S +
      (if !a.panic && (Pc.worker t p).tries then 26 else 0) + sh.float := by
  have hworth := ((Pc.worker t p).intake a).worth_nonneg S
  rcases workerStep_cases h with ⟨k, q, rfl, hpanic, rfl, rfl⟩ | ⟨k, q, next, rfl, hpanic, hstep, rfl⟩ |
    ⟨hq, hend, -, hpanic, rfl, rfl⟩ | ⟨hq, -, hpanic, hstep⟩
  · have hcost := q.cost_gt
    have hfloat : (unwind sh q).float = sh.float := by
      simp only [Shared.float, Shared.backlog, unwind]
      split <;> rfl
    simp only [hfloat, hpanic, WorkerPc.cost, Bool.not_true, Bool.false_and, Bool.false_eq_true,
      if_false]
    omega
  · have hpay := taskStep_pays hstep
    have hincome : q.income S a = ((Pc.worker t (.task k q)).intake a).worth S +
        if !a.panic && (Pc.worker t (.task k q)).tries then 26 else 0 := by
      cases q <;> simp [TaskPc.income, Pc.intake, Pc.tries, hpanic, Intake.worth]
    have hnext : ((next.map (WorkerPc.task k)).getD .top).cost = TaskPc.rest next := by
      cases next <;> rfl
    have hown : (WorkerPc.task k q).cost = q.cost := rfl
    rw [hnext, hown]
    omega
  · have hcost : 0 < p.cost := by
      cases p with
      | task k q => exact absurd rfl (hq k q)
      | exited | died => cases hend
      | discarding k f | crashedFinish k f =>
        have := f.cost_pos
        simp only [WorkerPc.cost]
        omega
      | _ => simp [WorkerPc.cost]
    have hfloat : ({ sh with failedJoins := sh.failedJoins + 1, panicked := true } : Shared).float =
        sh.float := rfl
    simp only [hfloat, hpanic, WorkerPc.cost, Bool.not_true, Bool.false_and, Bool.false_eq_true,
      if_false] at hcost ⊢
    omega
  · have hpay := loopStep_pays hstep
    have hidle : (!a.panic && (Pc.worker t p).tries) = false := by
      cases p with
      | task k q => exact absurd rfl (hq k q)
      | _ => simp [Pc.tries]
    rw [hidle]
    simp only [Bool.false_eq_true, if_false]
    omega

theorem program_pays {pc pc' : Pc} (h : program S sh pc a = some (sh', pc')) (hroom : Roomy S sh) :
    pc'.cost S + sh'.float < pc.cost S + (pc.intake a).worth S +
      (if !a.panic && pc.tries then 26 else 0) + sh.float := by
  have hkilled : sh.killed = false := by
    by_contra hk
    simp [program, hk] at h
  have hidle : ∀ {pc : Pc}, pc.tries = false →
      (if !a.panic && pc.tries then (26 : ℤ) else 0) = 0 := fun ht => by simp [ht]
  rcases program_cases h with ⟨p, p', rfl, rfl, hs⟩ | ⟨p, p', rfl, rfl, hs⟩ |
    ⟨p, p', rfl, rfl, hs⟩ | ⟨L, rfl, rfl, hs, rfl⟩ | ⟨t, p, p', rfl, rfl, hs⟩
  · have hpay := mainStep_pays hs
    have hworth := ((Pc.main p).intake a).worth_nonneg S
    rw [hidle rfl]
    simp only [Pc.cost]
    omega
  · have hpay := signalStep_pays hs hkilled
    have hworth := ((Pc.signal p).intake a).worth_nonneg S
    rw [hidle rfl]
    simp only [Pc.cost]
    omega
  · have hpay := checkpointStep_pays hs hroom
    rw [hidle rfl]
    simp only [Pc.cost]
    omega
  · have hlen := LogState.writerStep_channel hs
    have hworth := (Pc.logWriter.intake a).worth_nonneg S
    rw [hidle rfl]
    simp only [Pc.cost, Shared.float, Shared.backlog]
    omega
  · exact workerStep_pays hs

/-- **Every step spends**, but for what it takes in. -/
theorem payment {ok : Conf Shared Pc → Nat × Answer → Prop} {c c' : Conf Shared Pc} {a : Nat × Answer}
    (hr : Reach (program S) ok (start S) c) {pc : Pc} (hpc : c.threads[a.1]? = some pc)
    (hst : step (program S) c a = some c') :
    total (Shared.funds S) (Pc.cost S) c' <
      total (Shared.funds S) (Pc.cost S) c + (pc.intake a.2).worth S := by
  refine total_step_lt hst fun pc₁ sh' pc' hpc₁ hp => ?_
  rw [hpc] at hpc₁
  cases hpc₁
  have hpay := program_pays hp (rooms hr)
  have hstats : ∀ k, pc.counting k = true → c.shared.store.statsOf k ≠ none := fun k hk =>
    ((held_once hr).seen_of_mem (List.mem_of_getElem? hpc) (Pc.counting_keys hk).2).statsOf
  simp only [Shared.funds, Shared.left]
  by_cases htry : a.2.panic = false ∧ pc.tries = true
  · obtain ⟨hpanic, htries⟩ := htry
    obtain ⟨t, k, net, rfl⟩ : ∃ t k net, pc = .worker t (.task k (.count net)) := by
      cases pc with
      | worker t p =>
        cases p with
        | task k p => cases p <;> first | exact ⟨t, k, _, rfl⟩ | cases htries
        | _ => cases htries
      | _ => cases htries
    have hmore := attempts_more (k := k) hp hpanic (fun k' => by simp [Pc.counting])
      (hstats k (by simp [Pc.counting]))
    simp only [hpanic, htries, Bool.not_false, Bool.and_self, if_true] at hpay
    omega
  · have hidle : (!a.2.panic && pc.tries) = false := by
      by_contra hno
      simp only [Bool.not_eq_false, Bool.and_eq_true, Bool.not_eq_true'] at hno
      exact htry hno
    have hsame := attempts_same hp (fun k => ?_) hstats
    · rw [hidle] at hpay
      simp only [Bool.false_eq_true, if_false] at hpay
      omega
    · by_contra hcount
      simp only [Bool.not_eq_false, Bool.and_eq_true, Bool.not_eq_true'] at hcount
      refine htry ⟨hcount.1, ?_⟩
      cases pc with
      | worker t p =>
        cases p with
        | task k p => cases p <;> first | rfl | cases hcount.2
        | _ => cases hcount.2
      | _ => cases hcount.2

end Payment

/-! ## Nothing is overdrawn -/

section Solvency
variable {S : Setup} {ok : Conf Shared Pc → Nat × Answer → Prop} {c : Conf Shared Pc}

theorem mainStep_joined {sh sh' : Shared} {a : Answer} {p p' : MainPc}
    (h : mainStep S sh a p = some (sh', p')) (hp : p.joined S ≤ S.settings.concurrency.total) :
    p'.joined S ≤ S.settings.concurrency.total := by
  cases p with
  | seeding rest =>
    cases rest with
    | nil => cases h; exact hp
    | cons k rest =>
      cases h
      split <;> exact hp
  | joining joined =>
    simp only [mainStep] at h
    split at h
    · cases h; exact le_refl _
    · simp only [MainPc.joined] at hp
      split at h <;> split at h <;> cases h <;> simp only [MainPc.joined] <;> omega
  | flushing r call =>
    obtain ⟨-, ⟨_, rfl⟩ | ⟨res, rfl⟩⟩ := logStep_effect h
    · exact hp
    · cases res <;> exact hp
  | awaitSignals | awaitCheckpoint | stopping | writing =>
    simp only [mainStep] at h
    split at h <;> cases h <;> exact hp
  | seedEnqueue | startCheck | checkWorkers | finalFlush =>
    cases h
    split <;> exact hp
  | finished => cases h
  | _ => cases h; exact hp

/-- No more workers are joined than there are. -/
theorem joined_le (hr : Reach (program S) ok (start S) c) :
    Holds (fun _ pc => pc.joined S ≤ (S.settings.concurrency.total : ℤ)) c := by
  refine hr.invariant (I := Holds fun _ pc => pc.joined S ≤ (S.settings.concurrency.total : ℤ)) ?_ ?_
  · intro i pc hpc
    rcases mem_start (List.mem_of_getElem? hpc) with rfl | rfl | rfl | rfl | ⟨t, rfl, -⟩ <;>
      simp [Pc.joined, MainPc.joined]
  · intro c a c' _ ih _ hst
    refine ih.step hst (fun pc sh' pc' hpc hp => ?_) fun _ _ _ _ _ _ _ _ _ hold => hold
    have hold := ih _ _ hpc
    rcases program_cases hp with ⟨p, p', rfl, rfl, hs⟩ | ⟨p, p', rfl, rfl, hs⟩ |
      ⟨p, p', rfl, rfl, hs⟩ | ⟨L, rfl, rfl, -, rfl⟩ | ⟨t, p, p', rfl, rfl, hs⟩
    · exact mainStep_joined hs hold
    all_goals simp [Pc.joined]

theorem Pc.cost_nonneg {pc : Pc} (h : pc.joined S ≤ S.settings.concurrency.total) :
    0 ≤ pc.cost S := by
  cases pc with
  | main p =>
    cases p with
    | flushing r call =>
      have := call.cost_pos
      simp only [Pc.cost, MainPc.cost]
      omega
    | seedEnqueue rest k e =>
      have := e.cost_pos
      simp only [Pc.cost, MainPc.cost]
      omega
    | _ =>
      simp only [Pc.joined, MainPc.joined] at h
      simp only [Pc.cost, MainPc.cost]
      omega
  | signal p => cases p <;> simp [Pc.cost, SignalPc.cost]
  | checkpoint p =>
    cases p with
    | flushing processed call =>
      have := call.cost_pos
      simp only [Pc.cost, CheckpointPc.cost]
      omega
    | acquiring | snapshotting | cloning =>
      simp only [Pc.cost, CheckpointPc.cost]
      omega
    | _ => simp [Pc.cost, CheckpointPc.cost]
  | logWriter => exact le_refl _
  | worker t p =>
    cases p with
    | task k p => exact (by decide : (0 : ℤ) ≤ 7).trans p.cost_gt.le
    | discarding k f | crashedFinish k f =>
      have := f.cost_pos
      simp only [Pc.cost, WorkerPc.cost]
      omega
    | _ => simp [Pc.cost, WorkerPc.cost]

theorem funds_nonneg (hr : Reach (program S) ok (start S) c) :
    0 ≤ total (Shared.funds S) (Pc.cost S) c := by
  refine total_nonneg ?_ fun pc hpc => ?_
  · have hattempts : (c.shared.store.attempts : ℤ) ≤
        S.settings.maxAddresses * S.settings.handshakeAttempts := by exact_mod_cast attempts_le hr
    have hback := c.shared.backlog_nonneg
    simp only [Shared.funds, Shared.left, Shared.float]
    split <;> omega
  · obtain ⟨i, hi⟩ := List.getElem?_of_mem hpc
    exact Pc.cost_nonneg (joined_le hr i pc hi)

end Solvency

/-! ## Results -/

/-- The number of steps so far, and what they took in. -/
structure Toll where
  steps : Nat := 0
  intake : Intake := {}
  deriving DecidableEq, Repr

def Toll.record (g : Toll) (c : Conf Shared Pc) (a : Nat × Answer) (_ : Conf Shared Pc) : Toll :=
  ⟨g.steps + 1, match c.threads[a.1]? with
    | some pc => g.intake.add (pc.intake a.2)
    | none => g.intake⟩

/-- What a crawl has to pay for from the start. -/
def Setup.estimate (S : Setup) : Nat :=
  26 * (S.settings.maxAddresses * S.settings.handshakeAttempts) + 11 * S.settings.concurrency.total +
    14 * S.seedKeys.length + 23

theorem Intake.worth_add (S : Setup) (i j : Intake) : (i.add j).worth S = i.worth S + j.worth S := by
  have hticks := Int.mul_add (S.settings.maxAddresses + 9) i.ticks j.ticks
  simp only [Intake.worth, Intake.add]
  push_cast
  omega

theorem start_funds (S : Setup) : total (Shared.funds S) (Pc.cost S) (start S) = S.estimate := by
  have hpool : ∀ t, load (Pc.cost S) (pool S t) = 7 * S.settings.concurrency.of t := by
    intro t
    simp only [load, pool, List.map_replicate, List.sum_replicate, Pc.cost, WorkerPc.cost]
    rw [nsmul_eq_mul]
    omega
  have hattempts : (start S).shared.store.attempts = 0 := rfl
  have hfloat : (start S).shared.float = 1 := rfl
  have hload : load (Pc.cost S) (start S).threads =
      18 + 4 * S.settings.concurrency.total + 14 * S.seedKeys.length + 4 +
        (load (Pc.cost S) (pool S .ip) + load (Pc.cost S) (pool S .tor) +
          load (Pc.cost S) (pool S .i2p)) := by
    simp only [start, load, List.map_append, List.sum_append, List.map_cons, List.sum_cons,
      List.map_nil, List.sum_nil, Pc.cost, MainPc.cost, SignalPc.cost, CheckpointPc.cost]
    omega
  simp only [total, Shared.funds, Shared.left, hattempts, hfloat, hload, hpool, Setup.estimate,
    Concurrency.total, Concurrency.of]
  push_cast
  omega

/-- What has been spent was in the estimate or came in. -/
theorem toll_paid {S : Setup} {ok : Conf Shared Pc → Nat × Answer → Prop} {c : Conf Shared Pc}
    {g : Toll} (hr : Chronicle (program S) ok Toll.record (start S) {} c g) :
    total (Shared.funds S) (Pc.cost S) c + g.steps ≤ S.estimate + g.intake.worth S := by
  refine hr.invariant (I := fun c g => total (Shared.funds S) (Pc.cost S) c + g.steps ≤
    S.estimate + g.intake.worth S) ?_ ?_
  · rw [start_funds]
    exact le_refl _
  · intro c g a c' hr ih _ hst
    obtain ⟨pc, -, -, hpc, -, -⟩ := step_cases hst
    have hpay := payment hr.reach hpc hst
    simp only [Toll.record, hpc, Intake.worth_add]
    push_cast
    omega

/-- **The length of a run is bounded** by the settings and by what came in, whatever fails on the
    way: however the tasks take turns, a crawl to which nothing more is sent comes to rest. -/
theorem steps_bounded {S : Setup} {ok : Conf Shared Pc → Nat × Answer → Prop} {c : Conf Shared Pc}
    {g : Toll} (hr : Chronicle (program S) ok Toll.record (start S) {} c g) :
    g.steps ≤ S.estimate + 10 * g.intake.messages + 14 * g.intake.addresses +
      (S.settings.maxAddresses + 9) * g.intake.ticks := by
  have hpaid := toll_paid hr
  have hfunds := funds_nonneg hr.reach
  simp only [Intake.worth] at hpaid
  have hsteps : (g.steps : ℤ) ≤ S.estimate + 10 * g.intake.messages + 14 * g.intake.addresses +
    (S.settings.maxAddresses + 9) * g.intake.ticks := by omega
  exact_mod_cast hsteps

theorem steps_bounded_solo : ∃ c g, Chronicle (program solo) noPanic Toll.record (start solo) {} c g ∧
    g.intake = { messages := 1, addresses := 1 } ∧ g.steps ≤ solo.estimate + 10 + 14 := by
  have hrun : (execRecord (program solo) panicFree Toll.record (start solo) {} quietRun).map
      (fun r => r.2.intake) = some { messages := 1, addresses := 1 } := by
    decide
  obtain ⟨⟨c, g⟩, hc, heq⟩ := Option.map_eq_some_iff.mp hrun
  have hr : Chronicle (program solo) noPanic Toll.record (start solo) {} c g :=
    (execRecord_chronicle hc).mono fun _ a ha => by simpa [panicFree, noPanic] using ha
  have hle := steps_bounded hr
  simp only at heq
  rw [heq] at hle
  exact ⟨c, g, hr, heq, hle⟩

/-- Nothing comes in during a lull. -/
theorem Lull.intake {c : Conf Shared Pc} {a : Nat × Answer} (h : Lull c a) (pc : Pc) :
    pc.intake a.2 = {} := by
  cases pc with
  | worker t p =>
    cases p with
    | task k p =>
      cases p with
      | collecting c => simp [Pc.intake, h.calm.panic, h.calm.collected, CollectEvent.intake]
      | _ => rfl
    | _ => rfl
  | checkpoint p => cases p <;> simp [Pc.intake, h.calm.tick]
  | _ => rfl

/-- Nobody ends the process in a lull. -/
theorem Lull.killed {S : Setup} {c c' : Conf Shared Pc} {a : Nat × Answer} (h : Lull c a)
    (hst : step (program S) c a = some c') (hc : c.shared.killed = false) :
    c'.shared.killed = false := by
  obtain ⟨pc, sh', pc', hpc, hp, rfl⟩ := step_cases hst
  have hin := h.inward pc hpc
  rcases program_cases hp with ⟨p, p', rfl, rfl, hs⟩ | ⟨p, p', rfl, rfl, hs⟩ |
    ⟨p, p', rfl, rfl, hs⟩ | ⟨L, rfl, rfl, -, rfl⟩ | ⟨t, p, p', rfl, rfl, hs⟩
  · obtain ⟨-, -, -, -, -, -, -, hkilled⟩ := mainStep_frame hs
    exact hkilled.trans hc
  · cases p <;> cases hin <;> cases hs <;> exact hc
  · obtain ⟨_, _, _, _, _, rfl⟩ := checkpointStep_frame hs
    exact hc
  · exact hc
  · rcases workerStep_cases hs with ⟨k, q, rfl, -, rfl, rfl⟩ | ⟨k, q, next, rfl, -, hstep, rfl⟩ |
      ⟨-, -, -, -, rfl, rfl⟩ | ⟨-, -, -, hstep⟩
    · exact hc
    · obtain ⟨_, _, _, _, _, _, rfl⟩ := (taskStep_frame hstep).eq
      exact hc
    · exact hc
    · obtain ⟨_, _, _, _, _, _, _, rfl, -⟩ := loopStep_frame hstep
      exact hc

theorem mainStep_finished {S : Setup} {sh sh' : Shared} {a : Answer} {p : MainPc}
    (h : mainStep S sh a p = some (sh', .finished)) : sh'.exitCode ≠ none := by
  cases p with
  | writing r logOk durable =>
    simp only [mainStep] at h
    split at h <;> cases h <;> exact Option.some_ne_none _
  | flushing r call =>
    obtain ⟨-, ⟨_, heq⟩ | ⟨res, heq⟩⟩ := logStep_effect h
    · cases heq
    · cases res <;> cases heq
  | seeding rest =>
    cases rest with
    | nil => cases h
    | cons k rest =>
      simp only [mainStep, Option.some.injEq, Prod.mk.injEq] at h
      split at h <;> cases h.2
  | joining joined =>
    simp only [mainStep] at h
    split at h
    · cases h
    · split at h <;> split at h <;> cases h
  | awaitSignals | awaitCheckpoint | stopping =>
    simp only [mainStep] at h
    split at h <;> cases h
  | seedEnqueue | startCheck | checkWorkers | finalFlush =>
    simp only [mainStep, Option.some.injEq, Prod.mk.injEq] at h
    split at h <;> cases h.2
  | _ => cases h

/-- The main task leaves an exit code behind. -/
theorem finished_exit {S : Setup} {ok : Conf Shared Pc → Nat × Answer → Prop} {c : Conf Shared Pc}
    (hr : Reach (program S) ok (start S) c) (hfin : c.threads[0]? = some (.main .finished)) :
    c.shared.exitCode ≠ none := by
  have hall : Holds (fun sh pc => pc = .main .finished → sh.exitCode ≠ none) c := by
    refine hr.invariant (I := Holds fun sh pc => pc = .main .finished → sh.exitCode ≠ none) ?_ ?_
    · intro i pc hpc heq
      subst heq
      rcases mem_start (List.mem_of_getElem? hpc) with h | h | h | h | ⟨t, h, -⟩ <;> cases h
    · intro c a c' hr ih _ hst
      refine ih.step hst (fun pc sh' pc' hpc hp heq => ?_) fun pc sh' pc' j u hpc hp hj hu hold heq => ?_
      · subst heq
        rcases program_cases hp with ⟨p, p', rfl, heq, hs⟩ | ⟨_, _, -, heq, -⟩ | ⟨_, _, -, heq, -⟩ |
          ⟨_, -, heq, -⟩ | ⟨_, _, _, -, heq, -⟩ <;> cases heq
        exact mainStep_finished hs
      · subst heq
        have hother : ∀ p, pc ≠ .main p := by
          rintro p rfl
          exact hj ((main_index hr hu).trans (main_index hr hpc).symm)
        rw [program_exit hp hother]
        exact hold rfl
  exact hall 0 _ hfin rfl

/-- **Every crawl can finish**: from every state of every run, whatever has failed before, the main
    task comes to its end in a lull, with an exit code, and by then every worker has ended. -/
theorem can_finish {S : Setup} (hseeds : S.SeedsEnabled) {c : Conf Shared Pc}
    (hr : Reachable (program S) (start S) c) (hkilled : c.shared.killed = false) :
    ∃ c', Reach (program S) Lull c c' ∧ c'.threads[0]? = some (.main .finished) ∧
      c'.shared.exitCode ≠ none ∧ ∀ t p, Pc.worker t p ∈ c'.threads → p.ended = true := by
  have hreach : ∀ {c'}, Reach (program S) Lull c c' → Reachable (program S) (start S) c' :=
    fun hr' => hr.trans hr'.reachable
  have hlive : ∀ {c'}, Reach (program S) Lull c c' → c'.shared.killed = false := fun hr' =>
    hr'.invariant (I := fun c' => c'.shared.killed = false) hkilled
      fun _ _ _ _ hc hlull hst => hlull.killed hst hc
  -- while the main task has not finished, some step of a lull spends
  have hprogress : ∀ c', Reach (program S) Lull c c' → c'.threads[0]? = some (.main .finished) ∨
      ∃ a c'', Lull c' a ∧ step (program S) c' a = some c'' ∧
        total (Shared.funds S) (Pc.cost S) c'' < total (Shared.funds S) (Pc.cost S) c' := by
    intro c' hr'
    refine (never_stuck hseeds (hreach hr') (hlive hr')).imp_right fun hmoves => ?_
    obtain ⟨a, c'', hlull, hst⟩ := hmoves.step
    obtain ⟨pc, -, -, hpc, -, -⟩ := step_cases hst
    have hpay := payment (hreach hr') hpc hst
    rw [hlull.intake] at hpay
    exact ⟨a, c'', hlull, hst, by simpa [Intake.worth] using hpay⟩
  obtain ⟨c', hr', hfin⟩ := Reach.settles (fun _ _ h => h)
    (fun c' hr' => funds_nonneg (hreach hr')) hprogress .start
  obtain ⟨-, -, hended⟩ := joined_all (hreach hr') hfin rfl
  exact ⟨c', hr', hfin, finished_exit (hreach hr') hfin, hended⟩

/-- The task of `solo` panics during its attempt. -/
def panicRun : List (Nat × Answer) := steps 0 7 ++ steps 4 5 ++ [(4, { panic := true })]

theorem can_finish_solo : ∃ c, Reachable (program solo) (start solo) c ∧ c.shared.panicked = true ∧
    ∃ c', Reach (program solo) Lull c c' ∧ c'.threads[0]? = some (.main .finished) ∧
      c'.shared.exitCode ≠ none := by
  have hrun : (exec (program solo) (fun _ _ => true) (start solo) panicRun).map (fun c =>
      (c.shared.panicked, c.shared.killed)) = some (true, false) := by
    decide
  obtain ⟨c, hc, heq⟩ := Option.map_eq_some_iff.mp hrun
  simp only [Prod.mk.injEq] at heq
  have hr : Reachable (program solo) (start solo) c := (exec_reach hc).reachable
  have hseeds : solo.SeedsEnabled := by unfold Setup.SeedsEnabled; decide
  obtain ⟨c', hr', hfin, hexit, -⟩ := can_finish hseeds hr heq.2
  exact ⟨c, hr, heq.1, c', hr', hfin, hexit⟩

end P2PCrawler
