import P2PCrawler.Crawler.State
import P2PCrawler.Lib.ThreadPool
import Mathlib.Data.List.ModifyLast

/-!
# One step of each task

The functions of `crawler.rs` and `main.rs`, cut at their atomic operations: what a task does at
its position, on the answer of the world, to the shared state.  `none` means that the task is
blocked there or that the answer does not fit.

* `enqueueStep`, `finishStep` — `enqueue` and `finish`; they never block.
* `taskStep` — `process`, with `getaddr` and `handle_addr_message`.
* `workerStep` — `worker_loop`.
* `mainStep`, `signalStep`, `checkpointStep` — `async_main` with `run`, `signal_loop`,
  `spawn_checkpoint`.
* `program` — all of them as one pool of threads.
-/

set_option autoImplicit false

namespace P2PCrawler

open ThreadPool

/-! ## `enqueue` and `finish` -/

def enqueueStep (H : Digests) (sh : Shared) (k : AddrKey) : EnqueuePc → Shared × Option EnqueuePc
  | .route =>
    let network := (sh.store.networkOf k).getD (classify H k.host)
    ({ sh with enqueued := sh.enqueued ++ [k] }, some (.count network.transport))
  | .count t => ({ sh with store := sh.store.incrOutstanding }, some (.send t))
  | .send t =>
    match sh.trySend t k with
    | some sh => (sh, none)
    | none => (sh, some .discard)
  | .discard => (sh.writeEntry k fun e => { e with state := .budgetDiscarded }, some .uncount)
  -- the counter reaching zero closes nothing here
  | .uncount => ({ sh with store := sh.store.decrOutstanding }, none)

def finishStep (sh : Shared) (k : AddrKey) : FinishPc → Shared × Option FinishPc
  | .write terminal reason =>
    match sh.store.entry k with
    | none => (sh, none)
    | some e =>
      if e.state.active then
        (sh.writeEntry k fun e => { e with state := terminal.val, failure := reason }, some .decr)
      else (sh, none)
  | .decr =>
    ({ sh with store := sh.store.decrOutstanding },
      if sh.store.outstanding = 1 then some .close else none)
  | .close => (sh.closeAll, none)

/-! ## `process` -/

/-- A new attempt record. -/
def startAttempt (e : NodeEntry) : NodeEntry :=
  { e with
    stats := { e.stats with handshakeAttempts := e.stats.handshakeAttempts + 1 }
    attempts := e.attempts ++
      [{ attempt := e.stats.handshakeAttempts + 1, connectDurationMs := none,
         versionSendTimestamp := none, outcome := .started, failure := none }] }

/-- `update_attempt`: overwrite the outcome of the last attempt, and what else is given. -/
def updateAttempt (outcome : AttemptOutcome) (failure : Option FailKind) (connectMs : Option Nat)
    (sentTs : Option Int) (e : NodeEntry) : NodeEntry :=
  { e with attempts := e.attempts.modifyLast fun a =>
      { a with
        outcome := outcome
        failure := failure.or a.failure
        connectDurationMs := connectMs.or a.connectDurationMs
        versionSendTimestamp := sentTs.or a.versionSendTimestamp } }

def setConnectMs (ms : Nat) (e : NodeEntry) : NodeEntry :=
  { e with stats := { e.stats with timeConnectMs := some ms } }

/-- Record the first `version` message that was written. -/
def recordVersionSent (sentTs : Int) (e : NodeEntry) : NodeEntry :=
  { e with stats :=
      { e.stats with firstVersionSendTs := e.stats.firstVersionSendTs.or (some sentTs) } }

def countMalformed (e : NodeEntry) : NodeEntry :=
  { e with stats := { e.stats with malformedAddrMessages := e.stats.malformedAddrMessages + 1 } }

def countValid (e : NodeEntry) : NodeEntry :=
  { e with stats := { e.stats with validAddrMessages := e.stats.validAddrMessages + 1 } }

def setCollectionOutcome (outcome : CollectionOutcome) (e : NodeEntry) : NodeEntry :=
  { e with stats := { e.stats with collectionOutcome := outcome } }

/-- The breakdown of one message: all of its addresses count. -/
def recordMessage (parsed : ParsedAddrMessage) (s : NodeStats) : NodeStats :=
  let s := parsed.addrs.foldl (fun s a => s.recordAdvertised a.network) s
  { s with
    advertisedTotal := s.advertisedTotal + parsed.unknownEntries
    advertisedUnknown := s.advertisedUnknown + parsed.unknownEntries }

/-- The state a failed attempt ends in once no retry is left. -/
def connectTerminal (everConnected : Bool) : Terminal :=
  if everConnected then .handshakeFailed else .unreachable

/-- `retry_or_finish`. -/
def retryOrFinish (shouldRetry : Bool) (terminal : Terminal) (kind : FailKind) : TaskPc :=
  if shouldRetry then .requeueing terminal kind else .finishing (.write terminal (some kind))

/-- The record of one address message. -/
def blockEvent (H : Digests) (k : AddrKey) (c : Session) (command : AddrCommand)
    (parsed : ParsedAddrMessage) (now : Int) : LogEvent :=
  .block ⟨k.host, k.port, (classify H k.host).asStr, now, command.asStr, c.handshake⟩ parsed

/-- Addresses of a message that may enter the frontier. -/
def enabledAddrs (s : Settings) (parsed : ParsedAddrMessage) : List AdvertisedAddr :=
  parsed.addrs.filter fun a => s.isEnabled a.network

def malformedOutcome (c : Session) : CollectionOutcome :=
  .orPartial c.valid .malformedResponse .partialMalformedResponse

/-- The frontier decision for one advertised address. -/
def upsertNext (c : Session) (count : Nat) (now : Int) (rest : List AdvertisedAddr)
    (key : AddrKey) : FrontierOutcome → TaskPc
  | .enqueue => .enqueueing c count now rest key .route
  | _ => .upserting c count now rest

/-- A step inside a log call: where the call returns, `done` says how the task goes on. -/
def logStep {π : Type} (sh : Shared) (call : LogCall) (wait : LogCall → π)
    (done : Option Nat → π) : Option (Shared × π) :=
  (call.step sh.log).map fun r =>
    ({ sh with log := r.1 }, match r.2 with
      | .pending call => wait call
      | .returned res => done res)

/-- `process`, in a worker of transport `t`; the position after the step is `none` where the
    function returns. -/
def taskStep (S : Setup) (sh : Shared) (t : Transport) (k : AddrKey) (a : Answer) :
    TaskPc → Option (Shared × Option TaskPc)
  | .begin =>
    some (sh, some (.count ((sh.store.networkOf k).getD (classify S.digests k.host))))
  | .count net =>
    let n := ((sh.store.entry k).map fun e => e.stats.handshakeAttempts + 1).getD 1
    some (sh.writeEntry k startAttempt, some (.connecting net n))
  | .connecting net n =>
    match connectResult net a.connect with
    | .error e => some (sh, some (.connectFailed n (classifyConnectError e net)))
    | .ok ms => some (sh, some (.connected n ms))
  | .connectFailed n kind =>
    some (sh.writeEntry k (updateAttempt .connectFailed (some kind) none none),
      some (.everConnected n kind))
  | .everConnected n kind =>
    let ever := ((sh.store.entry k).map fun e => e.stats.timeConnectMs.isSome).getD false
    some (sh, some (retryOrFinish (n < S.settings.handshakeAttempts) (connectTerminal ever) kind))
  | .connected n ms => some (sh.writeEntry k (setConnectMs ms), some (.connectedAttempt n ms))
  | .connectedAttempt n ms =>
    some (sh.writeEntry k (updateAttempt .connected none (some ms) none), some (.sendVersion n))
  | .sendVersion n =>
    match a.send with
    | some _ => some (sh, some (.handshakeFailed n .versionSendFailed))
    | none => some (sh, some (.firstVersion n a.now))
  | .firstVersion n sentTs =>
    some (sh.writeEntry k (recordVersionSent sentTs), some (.versionSent n sentTs))
  | .versionSent n sentTs =>
    some (sh.writeEntry k (updateAttempt .versionSent none none (some sentTs)),
      some (.handshaking n sentTs))
  | .handshaking n sentTs =>
    match handshakeResult a.events a.negotiationSend a.verackSend a.elapsedMs with
    | none => none
    | some .timeout => some (sh, some (.handshakeTimeout n))
    | some (.failed kind) => some (sh, some (.handshakeFailed n kind))
    | some (.version v ms) =>
      let hd := HandshakeData.fromVersion v sentTs ms k.render k.render a.sockets.1 a.sockets.2
      some (sh, some (.handshaken hd sentTs))
  | .handshakeTimeout n =>
    some (sh.writeEntry k (updateAttempt .handshakeTimeout (some .handshakeTimeout) none none),
      some (retryOrFinish (S.settings.retryOnTimeout && n < S.settings.handshakeAttempts)
        .handshakeFailed .handshakeTimeout))
  | .handshakeFailed n kind =>
    some (sh.writeEntry k (updateAttempt .handshakeFailed (some kind) none none),
      some (retryOrFinish (n < S.settings.handshakeAttempts) .handshakeFailed kind))
  | .handshaken hd sentTs =>
    some (sh.writeEntry k fun e => { e with handshake := some hd },
      some (if S.settings.probeMode then .completing sentTs else .getaddr ⟨hd, sentTs, 0⟩))
  | .getaddr c =>
    some (sh, some (if a.send.isSome then .outcomeGuard c .sendFailed else .collecting c))
  | .collecting c =>
    match collect c.valid a.collected with
    | .again => some (sh, some (.collecting c))
    | .ended outcome => some (sh, some (.outcomeGuard c outcome))
    | .message command parsed => some (sh, some (.messageGuard c command parsed))
    | .malformed command error payload =>
      some (sh, some (.malformedGuard c (.malformed k.host k.port command.asStr error payload)))
  | .malformedGuard c event =>
    if sh.writer then none
    else some ({ sh with readers := sh.readers + 1 }, some (.malformedCount c event))
  | .malformedCount c event =>
    some (sh.writeEntry k countMalformed,
      some (if S.logging then .malformedLog c (.lock (.write event))
        else .malformedRelease c (malformedOutcome c)))
  | .malformedLog c call =>
    logStep sh call (fun call => some (.malformedLog c call)) fun res =>
      some (if res.isSome then .malformedRelease c (malformedOutcome c) else .malformedMark c)
  | .malformedMark c => some ({ sh with outputFailed := true }, some (.malformedRelease c .logFailed))
  | .malformedRelease c outcome =>
    some ({ sh with readers := sh.readers - 1 }, some (.outcomeGuard c outcome))
  | .messageGuard c command parsed =>
    if sh.writer then none
    else some ({ sh with readers := sh.readers + 1 }, some (.breakdown c command parsed))
  | .breakdown c command parsed =>
    some (sh.writeEntry k fun e => { e with stats := recordMessage parsed e.stats },
      some (if S.logging then
          .blockLog c parsed a.now (.lock (.write (blockEvent S.digests k c command parsed a.now)))
        else .shuffling c parsed a.now))
  | .blockLog c parsed now call =>
    logStep sh call (fun call => some (.blockLog c parsed now call)) fun res =>
      some (if res.isSome then .shuffling c parsed now else .blockFailed c)
  | .blockFailed c => some ({ sh with readers := sh.readers - 1 }, some (.blockMark c))
  | .blockMark c => some ({ sh with outputFailed := true }, some (.outcomeGuard c .logFailed))
  | .shuffling c parsed now =>
    if a.order.isPerm (enabledAddrs S.settings parsed) then
      some (sh, some (.upserting c parsed.addrs.length now a.order))
    else none
  | .upserting c count _ [] =>
    some ({ sh with readers := sh.readers - 1 }, some (.messageDone c count))
  | .upserting c count now (addr :: rest) =>
    let key : AddrKey := ⟨addr.host, addr.port⟩
    let r := sh.store.frontierUpsert key addr.timestamp addr.network
      S.settings.freshnessThreshold now
    some ({ sh with store := r.1 }, some (upsertNext c count now rest key r.2))
  | .enqueueing c count now rest key e =>
    let r := enqueueStep S.digests sh key e
    some (r.1, some (match r.2 with
      | some e => .enqueueing c count now rest key e
      | none => .upserting c count now rest))
  -- the read guard has been dropped by now
  | .messageDone c count =>
    some (sh.writeEntry k countValid,
      some (if isGetaddrReplyComplete count then
          .outcomeGuard { c with valid := c.valid + 1 } .completeQuiet
        else .collecting { c with valid := c.valid + 1 }))
  | .outcomeGuard c outcome =>
    if sh.writer then none
    else some ({ sh with readers := sh.readers + 1 }, some (.outcomeWrite c outcome))
  | .outcomeWrite c outcome =>
    some (sh.writeEntry k (setCollectionOutcome outcome),
      some (if S.logging then .outcomeLog c (.lock (.write (.outcome k.host k.port outcome)))
        else .outcomeRelease c))
  | .outcomeLog c call =>
    logStep sh call (fun call => some (.outcomeLog c call)) fun res =>
      some (if res.isSome then .outcomeRelease c else .outcomeMark c)
  | .outcomeMark c => some ({ sh with outputFailed := true }, some (.outcomeRelease c))
  | .outcomeRelease c =>
    some ({ sh with readers := sh.readers - 1 }, some (.completing c.sentTs))
  | .completing sentTs =>
    some (sh.writeEntry k (updateAttempt .handshakeComplete none none (some sentTs)),
      some (.finishing (.write .reachable none)))
  | .requeueing terminal kind =>
    some (sh.writeEntry k fun e => { e with state := .queued }, some (.resending terminal kind))
  | .resending terminal kind =>
    match sh.trySend t k with
    | some sh => some (sh, none)
    | none => some (sh, some (.abandoning (.write terminal (some kind))))
  | .abandoning f =>
    let r := finishStep sh k f
    some (r.1, r.2.map .abandoning)
  | .finishing f =>
    let r := finishStep sh k f
    some (r.1, r.2.map .finishing)

/-! ## `worker_loop` -/

/-- `reserve_node_slot`: the counter is raised unless the limit is reached. -/
def reserveNodeSlot (S : Setup) (sh : Shared) : Option Shared :=
  match S.settings.maxNodes with
  | none => some { sh with numProcessed := sh.numProcessed + 1 }
  | some max =>
    if sh.numProcessed < max then some { sh with numProcessed := sh.numProcessed + 1 } else none

/-- The task holds a read guard. -/
def TaskPc.guarded : TaskPc → Bool
  | .malformedCount .. | .malformedLog .. | .malformedMark .. | .malformedRelease ..
  | .breakdown .. | .blockLog .. | .blockFailed .. | .shuffling .. | .upserting ..
  | .enqueueing .. | .outcomeWrite .. | .outcomeLog .. | .outcomeMark .. | .outcomeRelease .. => true
  | _ => false

/-- The log call the task is in. -/
def TaskPc.call : TaskPc → Option LogCall
  | .malformedLog _ call | .blockLog _ _ _ call | .outcomeLog _ call => some call
  | _ => none

/-- The parts of `process`. -/
inductive TaskPart where
  | connect
  | handshake
  /-- `getaddr`, and `handle_addr_message` for each of its messages -/
  | collect
  /-- the calls of the address log, and what is left to do where they have failed -/
  | log
  /-- the verdict or the retry -/
  | finish

def TaskPc.part : TaskPc → TaskPart
  | .begin | .count _ | .connecting .. | .connectFailed .. | .everConnected .. | .connected ..
  | .connectedAttempt .. => .connect
  | .sendVersion _ | .firstVersion .. | .versionSent .. | .handshaking .. | .handshakeTimeout _
  | .handshakeFailed .. | .handshaken .. => .handshake
  | .getaddr _ | .collecting _ | .malformedGuard .. | .malformedCount .. | .messageGuard ..
  | .breakdown .. | .shuffling .. | .upserting .. | .enqueueing .. | .messageDone ..
  | .outcomeGuard .. | .outcomeWrite .. => .collect
  | .malformedLog .. | .malformedMark _ | .malformedRelease .. | .blockLog .. | .blockFailed _
  | .blockMark _ | .outcomeLog .. | .outcomeMark _ | .outcomeRelease _ => .log
  | .completing _ | .requeueing .. | .resending .. | .abandoning _ | .finishing _ => .finish

/-- A panic drops the guards of the task. -/
def unwind (sh : Shared) (p : TaskPc) : Shared :=
  { sh with
    readers := if p.guarded then sh.readers - 1 else sh.readers
    log := if p.call.any LogCall.holds then { sh.log with locked := false } else sh.log
    panicked := true }

/-- `worker_loop` outside `process`. -/
def loopStep (S : Setup) (sh : Shared) (t : Transport) : WorkerPc → Option (Shared × WorkerPc)
  | .top =>
    if sh.shutdown then some ({ sh with returned := sh.returned + 1 }, .exited)
    else some (sh, .receiving)
  | .receiving =>
    match (sh.queue t).items with
    | k :: rest => some (sh.pop t rest, .reserving k)
    | [] =>
      if (sh.queue t).closed then some ({ sh with returned := sh.returned + 1 }, .exited)
      else none
  | .reserving k =>
    match reserveNodeSlot S sh with
    | some sh => some (sh, .starting k)
    | none => some (sh, .limitHit k)
  | .limitHit k =>
    some ({ sh with nodeLimitReached := true }, .discarding k (.write .budgetDiscarded none))
  | .discarding k f =>
    let r := finishStep sh k f
    some (r.1, match r.2 with
      | some f => .discarding k f
      | none => .discardClose)
  | .discardClose => some (sh.closeAll, .top)
  | .starting k =>
    some (sh.writeEntry k fun e => { e with state := .processing }, .task k .begin)
  | .crashed k => some ({ sh with workerFailed := true }, .crashedShutdown k)
  | .crashedShutdown k =>
    some ({ sh with shutdown := true },
      .crashedFinish k (.write .handshakeFailed (some .workerFailed)))
  | .crashedFinish k f =>
    let r := finishStep sh k f
    some (r.1, match r.2 with
      | some f => .crashedFinish k f
      | none => .crashedClose)
  | .crashedClose => some ({ sh.closeAll with returned := sh.returned + 1 }, .exited)
  | .task _ _ | .exited | .died => none

/-- The worker task is over. -/
def WorkerPc.ended : WorkerPc → Bool
  | .exited | .died => true
  | _ => false

/-- A worker: a panic inside `process` is handed to the loop, a panic of the loop itself ends the
    worker task and is seen by `run`. -/
def workerStep (S : Setup) (sh : Shared) (t : Transport) (a : Answer) :
    WorkerPc → Option (Shared × WorkerPc)
  | .task k p =>
    if a.panic then some (unwind sh p, .crashed k)
    else (taskStep S sh t k a p).map fun r => (r.1, match r.2 with
      | some p => .task k p
      | none => .top)
  | p =>
    if !sh.spawned || p.ended then none
    else if a.panic then
      some ({ sh with failedJoins := sh.failedJoins + 1, panicked := true }, .died)
    else loopStep S sh t p

/-! ## The main task -/

def CrawlResult.isOk : CrawlResult → Bool
  | .ok => true
  | _ => false

/-- `store.snapshot()` with the manifest fields. -/
def Shared.finalManifest (sh : Shared) (r : CrawlResult) (logOk : Bool) (durable : Option Nat) :
    Manifest where
  snapshot := sh.store.snapshot
  budgetRejected := sh.store.budgetRejected
  numProcessed := sh.numProcessed
  durableEventId := durable
  consistent := true
  runComplete := r.isOk && logOk && !sh.terminatedEarly

def mainStep (S : Setup) (sh : Shared) (a : Answer) : MainPc → Option (Shared × MainPc)
  | .seeding [] => some ({ sh with checkpointing := S.checkpoints }, .startCheck)
  | .seeding (k :: rest) =>
    let r := sh.store.observeSeed S.digests k S.seedTime
    some ({ sh with store := r.1 }, if r.2 then .seedEnqueue rest k .route else .seeding rest)
  | .seedEnqueue rest k e =>
    let r := enqueueStep S.digests sh k e
    some (r.1, match r.2 with
      | some e => .seedEnqueue rest k e
      | none => .seeding rest)
  | .startCheck => some (sh, if sh.store.outstanding = 0 then .startClose else .spawning)
  | .startClose => some (sh.closeAll, .spawning)
  | .spawning => some ({ sh with spawned := true }, .joining 0)
  | .joining joined =>
    if joined = S.settings.concurrency.total then some (sh, .abortSignals)
    else if a.joinError then
      if 0 < sh.failedJoins then
        some ({ sh with failedJoins := sh.failedJoins - 1 }, .joinFailed (joined + 1))
      else none
    else if 0 < sh.returned then
      some ({ sh with returned := sh.returned - 1 }, .joining (joined + 1))
    else none
  | .joinFailed joined => some ({ sh with workerFailed := true }, .joinShutdown joined)
  | .joinShutdown joined => some ({ sh with shutdown := true }, .joinClose joined)
  | .joinClose joined => some (sh.closeAll, .joining joined)
  | .abortSignals => some ({ sh with signalAborted := true }, .awaitSignals)
  | .awaitSignals => if sh.signalBusy then none else some (sh, .checkWorkers)
  | .checkWorkers => some (sh, if sh.workerFailed then .stopping .workersFailed else .checkOutput)
  | .checkOutput => some (sh, .stopping (if sh.outputFailed then .logFailed else .ok))
  | .stopping r =>
    if S.checkpoints then some ({ sh with stopCheckpoint := true }, .awaitCheckpoint r)
    else some (sh, .finalFlush r)
  | .awaitCheckpoint r => if sh.checkpointDone then some (sh, .finalFlush r) else none
  | .finalFlush r =>
    some (sh, if S.logging then .flushing r (.lock .flush) else .writing r true none)
  | .flushing r call =>
    logStep sh call (fun call => .flushing r call) fun res =>
      if res.isSome then .writing r true res else .marking r
  | .marking r => some ({ sh with outputFailed := true }, .writing r false none)
  | .writing r logOk durable =>
    if a.stored then
      some ({ sh with
          manifest := some (sh.finalManifest r logOk durable)
          exitCode := some (if r.isOk && logOk then .success else .failure) }, .finished)
    else some ({ sh with exitCode := some .failure }, .finished)
  | .finished => none

/-! ## The Ctrl+C task and the checkpoint task -/

/-- Each press of Ctrl+C is a step out of `waiting` or `armed`. -/
def signalStep (sh : Shared) : SignalPc → Option (Shared × SignalPc)
  | .waiting =>
    if sh.spawned && !sh.signalAborted then some ({ sh with signalBusy := true }, .storing) else none
  | .storing => some ({ sh with shutdown := true }, .closing)
  | .closing => some ({ sh.closeAll with signalBusy := false }, .armed)
  | .armed => if sh.signalAborted then none else some ({ sh with killed := true }, .armed)

/-- The keys a snapshot visits. -/
def NodeStore.keys (s : NodeStore) : List AddrKey := s.map.keys

def checkpointStep (S : Setup) (sh : Shared) (a : Answer) :
    CheckpointPc → Option (Shared × CheckpointPc)
  | .idle =>
    if !sh.checkpointing then none
    else if a.tick then some (sh, .acquiring sh.numProcessed)
    else if sh.stopCheckpoint then some ({ sh with checkpointDone := true }, .exited)
    else none
  | .acquiring processed =>
    if sh.writer || 0 < sh.readers then none
    else some ({ sh with writer := true },
      if S.logging then .flushing processed (.lock .flush) else .snapshotting processed none)
  | .flushing processed call =>
    logStep sh call (fun call => .flushing processed call) fun res =>
      if res.isSome then .snapshotting processed res else .marking
  | .marking => some ({ sh with outputFailed := true }, .leaving)
  | .leaving => some ({ sh with writer := false, checkpointDone := true }, .exited)
  | .snapshotting processed durable => some (sh, .cloning processed durable sh.store.keys [])
  | .cloning processed durable (k :: rest) acc =>
    some (sh, .cloning processed durable rest
      (match sh.store.entry k with
        | some e => acc ++ [(k, e)]
        | none => acc))
  | .cloning processed durable [] acc =>
    some ({ sh with writer := false },
      .publishing ⟨acc, sh.store.budgetRejected, processed, durable, false, false⟩)
  | .publishing m =>
    some (if a.stored then { sh with manifest := some m } else sh, .idle)
  | .exited => none

/-! ## The pool -/

def program (S : Setup) : Program Shared Pc Answer := fun sh pc a =>
  if sh.killed then none
  else match pc with
    | .main p => (mainStep S sh a p).map fun r => (r.1, .main r.2)
    | .signal p => (signalStep sh p).map fun r => (r.1, .signal r.2)
    | .checkpoint p => (checkpointStep S sh a p).map fun r => (r.1, .checkpoint r.2)
    | .logWriter =>
      (sh.log.writerStep S.digests a.fault a.synced).map fun L => ({ sh with log := L }, .logWriter)
    | .worker t p => (workerStep S sh t a p).map fun r => (r.1, .worker t r.2)

/-- `Crawler::new`. -/
def Shared.init (S : Setup) : Shared where
  store := .withLimit S.settings.maxAddresses
  queue _ := { capacity := S.settings.maxAddresses }

/-- The workers of one pool. -/
def pool (S : Setup) (t : Transport) : List Pc :=
  List.replicate (S.settings.concurrency.of t) (.worker t .top)

def start (S : Setup) : Conf Shared Pc where
  shared := .init S
  threads := [.main (.seeding S.seedKeys), .signal .waiting, .checkpoint .idle, .logWriter] ++
    (pool S .ip ++ pool S .tor ++ pool S .i2p)

/-- The threads at the start. -/
theorem mem_start {S : Setup} {pc : Pc} (h : pc ∈ (start S).threads) :
    pc = .main (.seeding S.seedKeys) ∨ pc = .signal .waiting ∨ pc = .checkpoint .idle ∨
      pc = .logWriter ∨ ∃ t, pc = .worker t .top ∧ 0 < S.settings.concurrency.of t := by
  simp only [start, pool, List.mem_append, List.mem_cons, List.not_mem_nil, or_false,
    List.mem_replicate] at h
  rcases h with (rfl | rfl | rfl | rfl) | (⟨hn, rfl⟩ | ⟨hn, rfl⟩) | ⟨hn, rfl⟩
  · exact .inl rfl
  · exact .inr (.inl rfl)
  · exact .inr (.inr (.inl rfl))
  · exact .inr (.inr (.inr (.inl rfl)))
  · exact .inr (.inr (.inr (.inr ⟨_, rfl, Nat.pos_of_ne_zero hn⟩)))
  · exact .inr (.inr (.inr (.inr ⟨_, rfl, Nat.pos_of_ne_zero hn⟩)))
  · exact .inr (.inr (.inr (.inr ⟨_, rfl, Nat.pos_of_ne_zero hn⟩)))

theorem worker_mem_start {S : Setup} {t : Transport} (h : 0 < S.settings.concurrency.of t) :
    Pc.worker t .top ∈ (start S).threads := by
  have hmem : Pc.worker t .top ∈ pool S t := List.mem_replicate.mpr ⟨h.ne', rfl⟩
  cases t <;> simp [start, hmem]

end P2PCrawler
