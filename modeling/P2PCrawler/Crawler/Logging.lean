import P2PCrawler.Crawler.Barrier
import P2PCrawler.Watermark

/-!
# The log calls of a crawl

Workers, the main task and the checkpoint task are producers of the address log; the log writer
is a thread of the same pool.

* `Pc.call` — the log call a thread is in.
* `program_log` — every step without a panic under a read guard is a move on the log.
* `crawl_log` — the books of the log hold in every state of a run without such panics.
* `carried_events` — what the workers write about a node they write about the node they process.
-/

set_option autoImplicit false

namespace P2PCrawler

open ThreadPool

/-! ## Moves -/

/-- The log call a thread is in. -/
def Pc.call : Pc → Option LogCall
  | .worker _ (.task _ p) => p.call
  | .main (.flushing _ call) => some call
  | .checkpoint (.flushing _ call) => some call
  | _ => none

/-- What a step of a thread other than the writer may do to the log and to the call it is in. -/
inductive ClientMove (L : LogState) : Option LogCall → LogState → Option LogCall → Prop
  | aside {k : Option LogCall} : ClientMove L k L k
  | enter {r : LogRequest} : ClientMove L none L (some (.lock r))
  | next {k k' : LogCall} {L' : LogState} (hs : k.step L = some (L', .pending k')) :
      ClientMove L (some k) L' (some k')
  | leave {k : LogCall} {L' : LogState} {res : Option Nat} (hs : k.step L = some (L', .returned res)) :
      ClientMove L (some k) L' none

namespace ClientMove

variable {L L' : LogState} {k k' : Option LogCall}

theorem of_eq (hL : L' = L) (hk : k' = k) : ClientMove L k L' k' := by
  rw [hL, hk]
  exact .aside

theorem logMove {H : Digests} (h : ClientMove L k L' k') : LogMove H L k L' k' := by
  cases h with
  | aside => exact .aside
  | enter => exact .enter
  | next hs => exact .next hs
  | leave hs => exact .leave hs

/-- Only the writer writes. -/
theorem written (h : ClientMove L k L' k') : L'.written = L.written := by
  cases h with
  | next hs => rcases LogCall.step_pending hs with ⟨_, -, -, -, rfl⟩ | ⟨_, _, -, -, rfl⟩ <;> rfl
  | leave hs =>
    obtain ⟨_, _, _, -, -, rfl⟩ := LogCall.step_returned hs
    rfl
  | _ => rfl

end ClientMove

/-- Where a task stands inside a log call or behind it. -/
theorem logStep_cases {π : Type} {sh sh' : Shared} {call : LogCall} {wait : LogCall → π}
    {done : Option Nat → π} {p : π} (h : logStep sh call wait done = some (sh', p)) :
    (∃ call', call.step sh.log = some (sh'.log, .pending call') ∧ p = wait call') ∨
    ∃ res, call.step sh.log = some (sh'.log, .returned res) ∧ p = done res := by
  unfold logStep at h
  obtain ⟨⟨L, next⟩, hcall, heq⟩ := Option.map_eq_some_iff.mp h
  cases next with
  | pending call' => cases heq; exact .inl ⟨call', hcall, rfl⟩
  | returned res => cases heq; exact .inr ⟨res, hcall, rfl⟩

theorem logStep_move {π : Type} {sh sh' : Shared} {call : LogCall}
    {wait : LogCall → π} {done : Option Nat → π} {p : π} {f : π → Option LogCall}
    (h : logStep sh call wait done = some (sh', p)) (hwait : ∀ call, f (wait call) = some call)
    (hdone : ∀ res, f (done res) = none) : ClientMove sh.log (some call) sh'.log (f p) := by
  rcases logStep_cases h with ⟨call', hs, rfl⟩ | ⟨res, hs, rfl⟩
  · rw [hwait]; exact .next hs
  · rw [hdone]; exact .leave hs

theorem enqueueStep_log (H : Digests) (sh : Shared) (k : AddrKey) (e : EnqueuePc) :
    (enqueueStep H sh k e).1.log = sh.log := by
  cases e with
  | send t =>
    simp only [enqueueStep]
    split
    · rename_i sh' hsend
      obtain ⟨-, -, rfl⟩ := Shared.trySend_some hsend
      rfl
    · rfl
  | _ => rfl

theorem finishStep_log (sh : Shared) (k : AddrKey) (f : FinishPc) :
    (finishStep sh k f).1.log = sh.log := by
  cases f with
  | write terminal reason =>
    simp only [finishStep]
    split
    · rfl
    · split <;> rfl
  | _ => rfl

theorem retryOrFinish_call (retry : Bool) (terminal : Terminal) (kind : FailKind) :
    (retryOrFinish retry terminal kind).call = none := by
  cases retry <;> rfl

theorem taskStep_log {S : Setup} {sh sh' : Shared} {t : Transport} {k : AddrKey} {a : Answer}
    {p : TaskPc} {next : Option TaskPc} (h : taskStep S sh t k a p = some (sh', next)) :
    ClientMove sh.log p.call sh'.log (next.bind TaskPc.call) := by
  cases p with
  | malformedLog c call =>
    refine logStep_move (f := fun next => next.bind TaskPc.call) h (fun _ => rfl) fun res => ?_
    cases res <;> rfl
  | blockLog c parsed now call =>
    refine logStep_move (f := fun next => next.bind TaskPc.call) h (fun _ => rfl) fun res => ?_
    cases res <;> rfl
  | outcomeLog c call =>
    refine logStep_move (f := fun next => next.bind TaskPc.call) h (fun _ => rfl) fun res => ?_
    cases res <;> rfl
  | malformedCount | breakdown | outcomeWrite =>
    cases h
    cases S.logging
    · exact .aside
    · exact .enter
  | upserting c count now rest =>
    cases rest with
    | nil => cases h; exact .aside
    | cons addr rest =>
      cases h
      refine .of_eq rfl ?_
      cases (sh.store.frontierUpsert ⟨addr.host, addr.port⟩ addr.timestamp addr.network
        S.settings.freshnessThreshold now).2 <;> rfl
  | enqueueing c count now rest key e =>
    cases h
    refine .of_eq (enqueueStep_log ..) ?_
    cases (enqueueStep S.digests sh key e).2 <;> rfl
  | abandoning f =>
    cases h
    refine .of_eq (finishStep_log ..) ?_
    cases (finishStep sh k f).2 <;> rfl
  | finishing f =>
    cases h
    refine .of_eq (finishStep_log ..) ?_
    cases (finishStep sh k f).2 <;> rfl
  | everConnected | handshakeTimeout | handshakeFailed =>
    cases h
    exact .of_eq rfl (retryOrFinish_call ..)
  | resending terminal kind =>
    simp only [taskStep] at h
    split at h <;> cases h
    · rename_i sh' hsend
      obtain ⟨-, -, rfl⟩ := Shared.trySend_some hsend
      exact .aside
    · exact .aside
  | connecting | sendVersion | handshaking | collecting | malformedGuard | messageGuard
    | outcomeGuard | shuffling =>
    simp only [taskStep] at h
    split at h <;> cases h <;> exact .aside
  | handshaken | getaddr | messageDone =>
    cases h
    refine .of_eq rfl ?_
    simp only [Option.bind_some]
    split <;> rfl
  | _ => cases h; exact .aside

theorem loopStep_log {S : Setup} {sh sh' : Shared} {t : Transport} {p p' : WorkerPc}
    (h : loopStep S sh t p = some (sh', p')) :
    sh'.log = sh.log ∧ (Pc.worker t p').call = (Pc.worker t p).call := by
  cases loopStep_cases h with
  | discard | discarded | crashFinish | crashFinished => exact ⟨finishStep_log .., rfl⟩
  | _ => exact ⟨rfl, rfl⟩

theorem mainStep_log {S : Setup} {sh sh' : Shared} {a : Answer} {p p' : MainPc}
    (h : mainStep S sh a p = some (sh', p')) :
    ClientMove sh.log (Pc.main p).call sh'.log (Pc.main p').call := by
  cases p with
  | flushing r call =>
    refine logStep_move (f := fun p => (Pc.main p).call) h (fun _ => rfl) fun res => ?_
    cases res <;> rfl
  | finalFlush r =>
    cases h
    cases S.logging
    · exact .aside
    · exact .enter
  | seeding rest =>
    cases rest with
    | nil => cases h; exact .aside
    | cons k rest =>
      cases h
      refine .of_eq rfl ?_
      cases (sh.store.observeSeed S.digests k S.seedTime).2 <;> rfl
  | seedEnqueue rest k e =>
    cases h
    refine .of_eq (enqueueStep_log ..) ?_
    cases (enqueueStep S.digests sh k e).2 <;> rfl
  | joining joined =>
    simp only [mainStep] at h
    split at h
    · cases h; exact .aside
    · split at h <;> split at h <;> cases h <;> exact .aside
  | awaitSignals | awaitCheckpoint | stopping | writing =>
    simp only [mainStep] at h
    split at h <;> cases h <;> exact .aside
  | startCheck | checkWorkers =>
    cases h
    refine .of_eq rfl ?_
    split <;> rfl
  | finished => cases h
  | _ => cases h; exact .aside

theorem checkpointStep_log {S : Setup} {sh sh' : Shared} {a : Answer} {p p' : CheckpointPc}
    (h : checkpointStep S sh a p = some (sh', p')) :
    ClientMove sh.log (Pc.checkpoint p).call sh'.log (Pc.checkpoint p').call := by
  cases p with
  | flushing processed call =>
    refine logStep_move (f := fun p => (Pc.checkpoint p).call) h (fun _ => rfl) fun res => ?_
    cases res <;> rfl
  | acquiring processed =>
    simp only [checkpointStep] at h
    split at h <;> cases h
    cases S.logging
    · exact .aside
    · exact .enter
  | idle =>
    simp only [checkpointStep] at h
    repeat' split at h
    all_goals cases h
    all_goals exact .aside
  | cloning processed durable rest acc =>
    cases rest with
    | nil => cases h; exact .aside
    | cons k rest => cases h; exact .aside
  | publishing m =>
    simp only [checkpointStep] at h
    cases h
    refine .of_eq ?_ rfl
    split <;> rfl
  | exited => cases h
  | _ => cases h; exact .aside

theorem signalStep_log {sh sh' : Shared} {p p' : SignalPc} (h : signalStep sh p = some (sh', p')) :
    sh'.log = sh.log := by
  cases p with
  | waiting | armed =>
    simp only [signalStep] at h
    split at h <;> cases h
    rfl
  | _ => cases h; rfl

/-- A task is in a log call under a read guard. -/
theorem TaskPc.call_of_not_guarded {p : TaskPc} (h : p.guarded = false) : p.call = none := by
  cases p <;> first | rfl | cases h

/-- **Moves.**  A step of a thread is the writer serving a command, or a move of a client, unless a
    task panics under a read guard. -/
theorem program_log {S : Setup} {sh sh' : Shared} {pc pc' : Pc} {a : Answer}
    (h : program S sh pc a = some (sh', pc')) (hpanic : a.panic = true → pc.reads = 0) :
    (pc = .logWriter ∧ pc' = .logWriter ∧
      sh.log.writerStep S.digests a.fault a.synced = some sh'.log) ∨
    ClientMove sh.log pc.call sh'.log pc'.call := by
  rcases program_cases h with ⟨p, p', rfl, rfl, hs⟩ | ⟨p, p', rfl, rfl, hs⟩ |
    ⟨p, p', rfl, rfl, hs⟩ | ⟨L, rfl, rfl, hs, rfl⟩ | ⟨t, p, p', rfl, rfl, hs⟩
  · exact .inr (mainStep_log hs)
  · exact .inr (.of_eq (signalStep_log hs) rfl)
  · exact .inr (checkpointStep_log hs)
  · exact .inl ⟨rfl, rfl, hs⟩
  · rcases workerStep_cases hs with ⟨k, q, rfl, hp, rfl, rfl⟩ | ⟨k, q, next, rfl, -, hstep, rfl⟩ |
      ⟨hne, -, -, -, rfl, rfl⟩ | ⟨-, -, -, hstep⟩
    · have hcall : q.call = none := by
        apply TaskPc.call_of_not_guarded
        have hreads := hpanic hp
        by_contra hg
        simp [Pc.reads, hg] at hreads
      refine .inr (.of_eq ?_ hcall.symm)
      simp [unwind, hcall]
    · have hmove := taskStep_log hstep
      cases next <;> exact .inr hmove
    · refine .inr (.of_eq rfl ?_)
      cases p <;> first | rfl | exact absurd rfl (hne _ _)
    · obtain ⟨hlog, hcall⟩ := loopStep_log hstep
      exact .inr (.of_eq hlog hcall)

/-- **The books of the log** in every state of a run without panics under a read guard. -/
theorem crawl_log {S : Setup} {ok : Conf Shared Pc → Nat × Answer → Prop} {c : Conf Shared Pc}
    (hok : ∀ c a pc, ok c a → c.threads[a.1]? = some pc → a.2.panic = true → pc.reads = 0)
    (hr : Reach (program S) ok (start S) c) :
    LogInv c.shared.log (callsOf Pc.call c.threads) := by
  refine hr.invariant (I := fun c => LogInv c.shared.log (callsOf Pc.call c.threads)) ?_ ?_
  · refine .init fun j => ?_
    unfold callsOf
    cases hj : (start S).threads[j]? with
    | none => rfl
    | some pc =>
      rcases mem_start (List.mem_of_getElem? hj) with rfl | rfl | rfl | rfl | ⟨t, rfl, -⟩ <;> rfl
  · intro c a c' _ ih hadm hst
    refine LogInv.step (H := S.digests) ih hst fun pc sh' pc' ht hp => ?_
    rcases program_log hp (hok _ _ pc hadm ht) with ⟨rfl, rfl, hs⟩ | hmove
    · exact .serve hs
    · exact hmove.logMove

/-! ## What is written -/

/-- The request of a call. -/
def LogCall.request : LogCall → LogRequest
  | .lock r | .send r _ | .wait r _ _ => r

def LogRequest.Ok (P : LogEvent → Prop) : LogRequest → Prop
  | .write event => P event
  | .flush => True

def WriterCommand.Ok (P : LogEvent → Prop) : WriterCommand → Prop
  | .append event _ _ => P event
  | .flush _ => True

/-- The events in the channel and in the file satisfy `P`. -/
structure LogState.Carries (P : LogEvent → Prop) (L : LogState) : Prop where
  channel : ∀ cmd ∈ L.channel, cmd.Ok P
  written : ∀ p ∈ L.written, P p.event

section Carries
variable {P : LogEvent → Prop} {H : Digests} {L L' : LogState}

theorem LogState.Carries.mono {Q : LogEvent → Prop} (hPQ : ∀ e, P e → Q e) (hL : L.Carries P) :
    L.Carries Q := by
  refine ⟨fun cmd hcmd => ?_, fun p hp => hPQ _ (hL.written p hp)⟩
  have h := hL.channel cmd hcmd
  cases cmd with
  | append event eventId ticket => exact hPQ _ h
  | flush ticket => trivial

theorem LogState.Carries.call {k : LogCall} {next : LogNext} (hL : L.Carries P)
    (hk : k.request.Ok P) (h : k.step L = some (L', next)) :
    L'.Carries P ∧ ∀ k', next = .pending k' → k'.request = k.request := by
  cases next with
  | pending k' =>
    rcases LogCall.step_pending h with ⟨r, rfl, -, rfl, rfl⟩ | ⟨r, eventId, rfl, rfl, rfl⟩
    · exact ⟨⟨hL.channel, hL.written⟩, fun _ heq => by cases heq; rfl⟩
    · refine ⟨⟨fun cmd hcmd => ?_, hL.written⟩, fun _ heq => by cases heq; rfl⟩
      rcases List.mem_append.mp hcmd with hcmd | hcmd
      · exact hL.channel cmd hcmd
      · rw [List.mem_singleton.mp hcmd]
        cases r with
        | write event => exact hk
        | flush => trivial
  | returned res =>
    obtain ⟨r, eventId, ticket, rfl, -, rfl⟩ := LogCall.step_returned h
    exact ⟨⟨hL.channel, hL.written⟩, fun _ heq => by cases heq⟩

theorem LogState.Carries.serve {fault : Option Nat} {synced : Bool} (hL : L.Carries P)
    (h : L.writerStep H fault synced = some L') : L'.Carries P := by
  unfold LogState.writerStep at h
  split at h
  · cases h
  · rename_i event eventId ticket rest hch
    have hrest : ∀ cmd ∈ rest, cmd.Ok P := fun cmd hcmd =>
      hL.channel cmd (by rw [hch]; exact List.mem_cons_of_mem _ hcmd)
    have hevent : P event := hL.channel (.append event eventId ticket) (by rw [hch]; exact List.mem_cons_self ..)
    have hwritten : ∀ torn, ∀ p ∈ L.written ++ [⟨eventId, event, torn⟩], P p.event := by
      intro torn p hp
      rcases List.mem_append.mp hp with hp | hp
      · exact hL.written p hp
      · rw [List.mem_singleton.mp hp]; exact hevent
    split at h
    · cases h; exact ⟨hrest, hwritten none⟩
    · split at h <;> cases h
      exact ⟨hrest, hwritten _⟩
  · rename_i ticket rest hch
    have hrest : ∀ cmd ∈ rest, cmd.Ok P := fun cmd hcmd =>
      hL.channel cmd (by rw [hch]; exact List.mem_cons_of_mem _ hcmd)
    split at h <;> cases h
    · exact ⟨hrest, hL.written⟩
    · exact ⟨hrest, hL.written⟩

end Carries

/-! ## What a task writes -/

/-- A record of a message of the node `k` that does not parse. -/
def MalformedOf (k : AddrKey) (event : LogEvent) : Prop :=
  ∃ messageType error payload, event = .malformed k.host k.port messageType error payload

/-- A record about the node `k`, as a task that processes `k` makes it. -/
def EventOf (S : Setup) (k : AddrKey) (event : LogEvent) : Prop :=
  (∃ c command parsed now, event = blockEvent S.digests k c command parsed now) ∨
  (∃ outcome, event = .outcome k.host k.port outcome) ∨ MalformedOf k event

theorem EventOf.key_eq {S : Setup} {k : AddrKey} {event : LogEvent} (h : EventOf S k event) :
    event.key = k := by
  rcases h with ⟨c, command, parsed, now, rfl⟩ | ⟨outcome, rfl⟩ | ⟨messageType, error, payload, rfl⟩
  all_goals rfl

/-- The records a task has in hand are about the node it processes, and of the kind the task is
    about to write. -/
def TaskPc.WritesOf (S : Setup) (k : AddrKey) : TaskPc → Prop
  | .malformedGuard _ event | .malformedCount _ event => MalformedOf k event
  | .malformedLog _ call => ∃ event, call.request = .write event ∧ MalformedOf k event
  | .blockLog c parsed now call =>
    ∃ command, call.request = .write (blockEvent S.digests k c command parsed now)
  | .outcomeLog _ call => ∃ outcome, call.request = .write (.outcome k.host k.port outcome)
  | _ => True

def Pc.WritesOf (S : Setup) : Pc → Prop
  | .worker _ (.task k p) => p.WritesOf S k
  | .main (.flushing _ call) | .checkpoint (.flushing _ call) => call.request = .flush
  | _ => True

/-- The record is about some node. -/
def SomeEvent (S : Setup) (event : LogEvent) : Prop := ∃ k, EventOf S k event

theorem LogRequest.Ok.mono {P Q : LogEvent → Prop} (hPQ : ∀ e, P e → Q e) {r : LogRequest}
    (h : r.Ok P) : r.Ok Q := by
  cases r with
  | write event => exact hPQ _ h
  | flush => trivial

/-- A step inside a log call keeps the request of the call. -/
theorem logStep_request {π : Type} {sh sh' : Shared} {call : LogCall} {wait : LogCall → π}
    {done : Option Nat → π} {p : π} {P : LogEvent → Prop} (hL : sh.log.Carries P)
    (hk : call.request.Ok P) (h : logStep sh call wait done = some (sh', p)) :
    sh'.log.Carries P ∧
      ((∃ call', p = wait call' ∧ call'.request = call.request) ∨ ∃ res, p = done res) := by
  rcases logStep_cases h with ⟨call', hs, rfl⟩ | ⟨res, hs, rfl⟩
  · obtain ⟨hc, hreq⟩ := hL.call hk hs
    exact ⟨hc, .inl ⟨call', rfl, hreq call' rfl⟩⟩
  · exact ⟨(hL.call hk hs).1, .inr ⟨res, rfl⟩⟩

theorem retryOrFinish_writesOf (S : Setup) (k : AddrKey) (retry : Bool) (terminal : Terminal)
    (kind : FailKind) : (retryOrFinish retry terminal kind).WritesOf S k := by
  cases retry <;> trivial

/-- What a task is about to write is a record about its node. -/
theorem TaskPc.WritesOf.request {S : Setup} {k : AddrKey} {p : TaskPc} {call : LogCall}
    (h : p.WritesOf S k) (hcall : p.call = some call) : call.request.Ok (EventOf S k) := by
  cases p with
  | malformedLog c call' =>
    cases hcall
    obtain ⟨event, hreq, hevent⟩ := h
    rw [hreq]
    exact .inr (.inr hevent)
  | blockLog c parsed now call' =>
    cases hcall
    obtain ⟨command, hreq⟩ := h
    rw [hreq]
    exact .inl ⟨_, _, _, _, rfl⟩
  | outcomeLog c call' =>
    cases hcall
    obtain ⟨outcome, hreq⟩ := h
    rw [hreq]
    exact .inr (.inl ⟨outcome, rfl⟩)
  | _ => cases hcall

/-- A task inside a log call: what it writes stays what it was, whatever the call does. -/
theorem logStep_writesOf {S : Setup} {sh sh' : Shared} {k : AddrKey} {call : LogCall}
    {wait : LogCall → Option TaskPc} {done : Option Nat → Option TaskPc} {next : Option TaskPc}
    (h : logStep sh call wait done = some (sh', next)) (hok : call.request.Ok (EventOf S k))
    {P : LogEvent → Prop} (hP : ∀ e, EventOf S k e → P e) (hL : sh.log.Carries P)
    (hwait : ∀ call', call'.request = call.request → ∀ p ∈ wait call', p.WritesOf S k)
    (hdone : ∀ res, ∀ p ∈ done res, p.WritesOf S k) :
    (∀ p ∈ next, p.WritesOf S k) ∧ sh'.log.Carries P := by
  obtain ⟨hc, ⟨call', rfl, hreq⟩ | ⟨res, rfl⟩⟩ := logStep_request hL (hok.mono hP) h
  · exact ⟨hwait call' hreq, hc⟩
  · exact ⟨hdone res, hc⟩

theorem taskStep_writesOf {S : Setup} {sh sh' : Shared} {t : Transport} {k : AddrKey} {a : Answer}
    {p : TaskPc} {next : Option TaskPc} (h : taskStep S sh t k a p = some (sh', next))
    (hok : p.WritesOf S k) {P : LogEvent → Prop} (hP : ∀ e, EventOf S k e → P e)
    (hL : sh.log.Carries P) :
    (∀ p' ∈ next, p'.WritesOf S k) ∧ sh'.log.Carries P := by
  have hsame : sh'.log = sh.log → sh'.log.Carries P := fun heq => by
    rw [heq]; exact hL
  cases p with
  | malformedLog c call =>
    refine logStep_writesOf h (hok.request rfl) hP hL (fun call' hreq p hp => ?_) fun res p hp => ?_
    · cases hp
      obtain ⟨event, heq, hevent⟩ := hok
      exact ⟨event, hreq.trans heq, hevent⟩
    · cases res <;> cases hp <;> trivial
  | blockLog c parsed now call =>
    refine logStep_writesOf h (hok.request rfl) hP hL (fun call' hreq p hp => ?_) fun res p hp => ?_
    · cases hp
      obtain ⟨command, heq⟩ := hok
      exact ⟨command, hreq.trans heq⟩
    · cases res <;> cases hp <;> trivial
  | outcomeLog c call =>
    refine logStep_writesOf h (hok.request rfl) hP hL (fun call' hreq p hp => ?_) fun res p hp => ?_
    · cases hp
      obtain ⟨outcome, heq⟩ := hok
      exact ⟨outcome, hreq.trans heq⟩
    · cases res <;> cases hp <;> trivial
  | collecting c =>
    simp only [taskStep] at h
    split at h <;> cases h <;> refine ⟨fun p' hp' => ?_, hL⟩ <;> cases hp'
    · trivial
    · trivial
    · trivial
    · exact ⟨_, _, _, rfl⟩
  | malformedGuard c event =>
    simp only [taskStep] at h
    split at h <;> cases h
    exact ⟨fun p' hp' => by cases hp'; exact hok, hL⟩
  | malformedCount c event =>
    cases h
    refine ⟨fun p' hp' => ?_, hL⟩
    cases hp'
    cases S.logging
    · trivial
    · exact ⟨event, rfl, hok⟩
  | breakdown c command parsed =>
    cases h
    refine ⟨fun p' hp' => ?_, hL⟩
    cases hp'
    cases S.logging
    · trivial
    · exact ⟨command, rfl⟩
  | outcomeWrite c outcome =>
    cases h
    refine ⟨fun p' hp' => ?_, hL⟩
    cases hp'
    cases S.logging
    · trivial
    · exact ⟨outcome, rfl⟩
  | upserting c count now rest =>
    cases rest with
    | nil => cases h; exact ⟨fun p' hp' => by cases hp'; trivial, hL⟩
    | cons addr rest =>
      cases h
      refine ⟨fun p' hp' => ?_, hL⟩
      cases hp'
      cases (sh.store.frontierUpsert ⟨addr.host, addr.port⟩ addr.timestamp addr.network
        S.settings.freshnessThreshold now).2 <;> trivial
  | enqueueing c count now rest key e =>
    cases h
    refine ⟨fun p' hp' => ?_, hsame (enqueueStep_log ..)⟩
    cases hp'
    cases (enqueueStep S.digests sh key e).2 <;> trivial
  | abandoning f | finishing f =>
    cases h
    refine ⟨fun p' hp' => ?_, hsame (finishStep_log ..)⟩
    obtain ⟨f', -, rfl⟩ := Option.map_eq_some_iff.mp hp'
    trivial
  | everConnected | handshakeTimeout | handshakeFailed =>
    cases h
    refine ⟨fun p' hp' => ?_, hL⟩
    cases hp'
    exact retryOrFinish_writesOf ..
  | resending terminal kind =>
    simp only [taskStep] at h
    split at h <;> cases h
    · rename_i sh' hsend
      obtain ⟨-, -, rfl⟩ := Shared.trySend_some hsend
      exact ⟨fun p' hp' => (by cases hp'), hL⟩
    · exact ⟨fun p' hp' => by cases hp'; trivial, hL⟩
  | connecting | sendVersion | handshaking | messageGuard | outcomeGuard | shuffling =>
    simp only [taskStep] at h
    split at h <;> cases h <;> exact ⟨fun p' hp' => by cases hp'; trivial, hL⟩
  | handshaken | getaddr | messageDone =>
    cases h
    refine ⟨fun p' hp' => ?_, hL⟩
    cases hp'
    split <;> trivial
  | _ =>
    cases h
    refine ⟨fun p' hp' => ?_, hL⟩
    cases hp'
    trivial

theorem loopStep_writesOf {S : Setup} {sh sh' : Shared} {t : Transport} {p p' : WorkerPc}
    (h : loopStep S sh t p = some (sh', p')) : (Pc.worker t p').WritesOf S := by
  cases loopStep_cases h <;> trivial

theorem mainStep_writesOf {S : Setup} {sh sh' : Shared} {a : Answer} {p p' : MainPc}
    (h : mainStep S sh a p = some (sh', p')) (hok : (Pc.main p).WritesOf S)
    {P : LogEvent → Prop} (hL : sh.log.Carries P) :
    (Pc.main p').WritesOf S ∧ sh'.log.Carries P := by
  cases p with
  | flushing r call =>
    have hreq : call.request = .flush := hok
    have hflush : call.request.Ok P := by rw [hreq]; trivial
    obtain ⟨hc, ⟨call', rfl, heq⟩ | ⟨res, rfl⟩⟩ := logStep_request hL hflush h
    · exact ⟨heq.trans hreq, hc⟩
    · exact ⟨by cases res <;> trivial, hc⟩
  | finalFlush r =>
    cases h
    refine ⟨?_, hL⟩
    cases S.logging
    · trivial
    · exact rfl
  | seeding rest =>
    cases rest with
    | nil => cases h; exact ⟨trivial, hL⟩
    | cons k rest =>
      cases h
      refine ⟨?_, hL⟩
      cases (sh.store.observeSeed S.digests k S.seedTime).2 <;> trivial
  | seedEnqueue rest k e =>
    cases h
    refine ⟨?_, by rw [enqueueStep_log]; exact hL⟩
    cases (enqueueStep S.digests sh k e).2 <;> trivial
  | joining | awaitSignals | awaitCheckpoint | stopping | writing =>
    simp only [mainStep] at h
    repeat' split at h
    all_goals cases h
    all_goals exact ⟨trivial, hL⟩
  | startCheck | checkWorkers =>
    cases h
    refine ⟨?_, hL⟩
    split <;> trivial
  | finished => cases h
  | _ => cases h; exact ⟨trivial, hL⟩

theorem checkpointStep_writesOf {S : Setup} {sh sh' : Shared} {a : Answer} {p p' : CheckpointPc}
    (h : checkpointStep S sh a p = some (sh', p')) (hok : (Pc.checkpoint p).WritesOf S)
    {P : LogEvent → Prop} (hL : sh.log.Carries P) :
    (Pc.checkpoint p').WritesOf S ∧ sh'.log.Carries P := by
  cases p with
  | flushing processed call =>
    have hreq : call.request = .flush := hok
    have hflush : call.request.Ok P := by rw [hreq]; trivial
    obtain ⟨hc, ⟨call', rfl, heq⟩ | ⟨res, rfl⟩⟩ := logStep_request hL hflush h
    · exact ⟨heq.trans hreq, hc⟩
    · exact ⟨by cases res <;> trivial, hc⟩
  | acquiring processed =>
    simp only [checkpointStep] at h
    split at h <;> cases h
    refine ⟨?_, hL⟩
    cases S.logging
    · trivial
    · exact rfl
  | idle =>
    simp only [checkpointStep] at h
    repeat' split at h
    all_goals cases h
    all_goals exact ⟨trivial, hL⟩
  | cloning processed durable rest acc =>
    cases rest <;> cases h <;> exact ⟨trivial, hL⟩
  | publishing m =>
    cases h
    refine ⟨trivial, ?_⟩
    split <;> exact hL
  | exited => cases h
  | _ => cases h; exact ⟨trivial, hL⟩

theorem program_writesOf {S : Setup} {sh sh' : Shared} {pc pc' : Pc} {a : Answer}
    (h : program S sh pc a = some (sh', pc')) (hok : pc.WritesOf S) {P : LogEvent → Prop}
    (hP : ∀ t k p, pc = .worker t (.task k p) → ∀ e, EventOf S k e → P e)
    (hL : sh.log.Carries P) : pc'.WritesOf S ∧ sh'.log.Carries P := by
  rcases program_cases h with ⟨p, p', rfl, rfl, hs⟩ | ⟨p, p', rfl, rfl, hs⟩ |
    ⟨p, p', rfl, rfl, hs⟩ | ⟨L, rfl, rfl, hs, rfl⟩ | ⟨t, p, p', rfl, rfl, hs⟩
  · exact mainStep_writesOf hs hok hL
  · exact ⟨trivial, by rw [signalStep_log hs]; exact hL⟩
  · exact checkpointStep_writesOf hs hok hL
  · exact ⟨trivial, hL.serve hs⟩
  · rcases workerStep_cases hs with ⟨k, q, rfl, -, rfl, rfl⟩ | ⟨k, q, next, rfl, -, hstep, rfl⟩ |
      ⟨-, -, -, -, rfl, rfl⟩ | ⟨-, -, -, hstep⟩
    · refine ⟨trivial, ?_⟩
      unfold unwind
      dsimp only
      split
      · exact ⟨hL.channel, hL.written⟩
      · exact hL
    · obtain ⟨hnext, hc⟩ := taskStep_writesOf hstep hok (hP t k q rfl) hL
      refine ⟨?_, hc⟩
      cases next with
      | none => trivial
      | some q' => exact hnext q' rfl
    · exact ⟨trivial, hL⟩
    · exact ⟨loopStep_writesOf hstep, by rw [(loopStep_log hstep).1]; exact hL⟩

/-- In every run, what the threads are about to write and what is in the log is about the nodes
    they process. -/
theorem writers_ok {S : Setup} {ok : Conf Shared Pc → Nat × Answer → Prop}
    {c : Conf Shared Pc} (hr : Reach (program S) ok (start S) c) :
    (∀ pc ∈ c.threads, pc.WritesOf S) ∧ c.shared.log.Carries (SomeEvent S) := by
  refine hr.invariant (I := fun c => (∀ pc ∈ c.threads, pc.WritesOf S) ∧
    c.shared.log.Carries (SomeEvent S)) ?_ ?_
  · refine ⟨fun pc hpc => ?_, ⟨fun _ h => (by cases h), fun _ h => (by cases h)⟩⟩
    rcases mem_start hpc with rfl | rfl | rfl | rfl | ⟨t, rfl, -⟩ <;> trivial
  · intro c a c' _ ih _ hst
    obtain ⟨pc, sh', pc', ht, hp, rfl⟩ := step_cases hst
    obtain ⟨hpc', hc⟩ := program_writesOf hp (ih.1 pc (List.mem_of_getElem? ht))
      (fun _ k _ _ e he => ⟨k, he⟩) ih.2
    refine ⟨fun p hp => ?_, hc⟩
    rcases List.mem_or_eq_of_mem_set hp with hp | rfl
    · exact ih.1 p hp
    · exact hpc'

/-- **Records of responders.**  In every run, every record in the log is one of a task about the
    node it processes. -/
theorem carried_events {S : Setup} {ok : Conf Shared Pc → Nat × Answer → Prop}
    {c : Conf Shared Pc} (hr : Reach (program S) ok (start S) c) :
    c.shared.log.Carries (SomeEvent S) :=
  (writers_ok hr).2

end P2PCrawler
