import P2PCrawler.Crawler.Peer

/-!
# The state of a crawl

The tasks of the process are threads over one shared state: the main task, the Ctrl+C task, the
checkpoint task, the log writer, and the workers of the three pools.

* `Setup` — what is fixed before the crawler exists: the binary, the settings, the seeds.
* `Shared` — the store, the queues, the counters and flags, the observation barrier, the log.
* `EnqueuePc`, `FinishPc`, `TaskPc`, `WorkerPc`, `MainPc`, … — where a task stands.  A position
  names the atomic operation the task performs next.
* `Answer` — what the world outside the program answers in one step.
-/

set_option autoImplicit false

namespace P2PCrawler

/-! ## Set-up -/

/-- Where the initial addresses come from: the hosts the DNS seeds resolve to, or the targets
    given to the probe. -/
inductive Ingress where
  | dns (hosts : List String)
  | targets (keys : List AddrKey)

/-- `MAINNET_PORT`. -/
def mainnetPort : UInt16 := 8333

structure Setup where
  digests : Digests
  settings : Settings
  ingress : Ingress
  /-- the clock when seeding starts -/
  seedTime : Int

namespace Setup

def isProbe (S : Setup) : Bool :=
  match S.ingress with
  | .dns _ => false
  | .targets _ => true

/-- The keys handed to `observe_seed`: `seed_from_dns` keeps the hosts of enabled networks, the
    probe keeps the targets with a known network. -/
def seedKeys (S : Setup) : List AddrKey :=
  match S.ingress with
  | .dns hosts =>
    (hosts.filter fun h => S.settings.isEnabled (classify S.digests h)).map (⟨·, mainnetPort⟩)
  | .targets keys => keys.filter fun k => classify S.digests k.host ≠ .unknown

/-- The address log exists: the probe creates none. -/
def logging (S : Setup) : Bool := !S.isProbe && S.settings.recordAddrResponses

/-- A checkpoint task is spawned. -/
def checkpoints (S : Setup) : Bool := !S.isProbe && decide (0 < S.settings.checkpointInterval)

/-- The setup of the crawler binary. -/
inductive OfCrawler : Setup → Prop where
  | mk (H : Digests) (cli : Cli) (s : Settings) (hosts : List String) (now : Int)
      (h : cli.intoSettings = .ok s) : OfCrawler ⟨H, s, .dns hosts, now⟩

/-- The setup of the probe binary. -/
inductive OfProbe : Setup → Prop where
  | mk (H : Digests) (a : CommonArgs) (s : Settings) (targets : List AddrKey) (now : Int)
      (h : a.probeSettings = .ok s) : OfProbe ⟨H, s, .targets targets, now⟩

end Setup

/-! ## Shared state -/

/-- A bounded channel of keys.  `accepted` records every key that was ever put into it. -/
structure WorkQueue where
  capacity : Nat
  items : List AddrKey := []
  closed : Bool := false
  accepted : List AddrKey := []

/-- A manifest as published with the result files. -/
structure Manifest where
  snapshot : List (AddrKey × NodeEntry)
  budgetRejected : Nat
  numProcessed : Nat
  durableEventId : Option Nat
  consistent : Bool
  runComplete : Bool

inductive ExitCode where
  | success
  | failure
  deriving DecidableEq, Repr

structure Shared where
  store : NodeStore
  queue : Transport → WorkQueue
  numProcessed : Nat := 0
  shutdown : Bool := false
  nodeLimitReached : Bool := false
  workerFailed : Bool := false
  outputFailed : Bool := false
  /-- read guards on the observation barrier -/
  readers : Nat := 0
  /-- the write guard on the observation barrier -/
  writer : Bool := false
  log : LogState := {}
  /-- the checkpoint task runs -/
  checkpointing : Bool := false
  /-- `run` has spawned its tasks -/
  spawned : Bool := false
  /-- worker tasks that returned, not yet joined -/
  returned : Nat := 0
  /-- worker tasks that panicked, not yet joined -/
  failedJoins : Nat := 0
  /-- the Ctrl+C task is running, not suspended in `ctrl_c().await` -/
  signalBusy : Bool := false
  signalAborted : Bool := false
  stopCheckpoint : Bool := false
  checkpointDone : Bool := false
  /-- a second Ctrl+C ended the process -/
  killed : Bool := false
  manifest : Option Manifest := none
  exitCode : Option ExitCode := none
  /-- history: every key `enqueue` was called for -/
  enqueued : List AddrKey := []
  /-- history: some task has panicked -/
  panicked : Bool := false

namespace Shared

/-- `store.with_entry(key, ..)`. -/
def writeEntry (sh : Shared) (k : AddrKey) (f : NodeEntry → NodeEntry) : Shared :=
  { sh with store := sh.store.withEntry k f }

/-- `queues.close_all()`. -/
def closeAll (sh : Shared) : Shared :=
  { sh with queue := fun t => { sh.queue t with closed := true } }

/-- `try_send`: `none` where the channel is closed or full. -/
def trySend (sh : Shared) (t : Transport) (k : AddrKey) : Option Shared :=
  let q := sh.queue t
  if q.closed then none
  else if q.items.length < q.capacity then
    some { sh with
      queue := Function.update sh.queue t
        { q with items := q.items ++ [k], accepted := q.accepted ++ [k] } }
  else none

/-- A key leaves the front of a queue. -/
def pop (sh : Shared) (t : Transport) (rest : List AddrKey) : Shared :=
  { sh with queue := Function.update sh.queue t { sh.queue t with items := rest } }

def terminatedEarly (sh : Shared) : Bool := sh.shutdown || sh.nodeLimitReached

end Shared

/-! ## Positions -/

/-- Inside `enqueue`. -/
inductive EnqueuePc where
  | route
  | count (t : Transport)
  | send (t : Transport)
  | discard
  | uncount
  deriving DecidableEq, Repr

/-- The states `finish` is called with: none of them is active, nor stale. -/
abbrev Terminal := { st : NodeState // st.active = false ∧ st ≠ .staleDiscarded }

namespace Terminal

def reachable : Terminal := ⟨.reachable, by decide⟩
def handshakeFailed : Terminal := ⟨.handshakeFailed, by decide⟩
def unreachable : Terminal := ⟨.unreachable, by decide⟩
def budgetDiscarded : Terminal := ⟨.budgetDiscarded, by decide⟩

end Terminal

/-- Inside `finish`. -/
inductive FinishPc where
  | write (terminal : Terminal) (reason : Option FailKind)
  | decr
  | close
  deriving DecidableEq, Repr

/-- What `process` keeps of a completed handshake during collection. -/
structure Session where
  handshake : HandshakeData
  sentTs : Int
  /-- `valid_messages` -/
  valid : Nat
  deriving DecidableEq, Repr

/-- Inside `process`.  `n` is the number of the attempt. -/
inductive TaskPc where
  | begin
  | count (net : NetworkType)
  | connecting (net : NetworkType) (n : Nat)
  | connectFailed (n : Nat) (kind : FailKind)
  | everConnected (n : Nat) (kind : FailKind)
  | connected (n ms : Nat)
  | connectedAttempt (n ms : Nat)
  | sendVersion (n : Nat)
  | firstVersion (n : Nat) (sentTs : Int)
  | versionSent (n : Nat) (sentTs : Int)
  | handshaking (n : Nat) (sentTs : Int)
  | handshakeTimeout (n : Nat)
  | handshakeFailed (n : Nat) (kind : FailKind)
  | handshaken (hd : HandshakeData) (sentTs : Int)
  | getaddr (c : Session)
  | collecting (c : Session)
  | malformedGuard (c : Session) (event : LogEvent)
  | malformedCount (c : Session) (event : LogEvent)
  | malformedLog (c : Session) (call : LogCall)
  | malformedMark (c : Session)
  | malformedRelease (c : Session) (outcome : CollectionOutcome)
  | messageGuard (c : Session) (command : AddrCommand) (parsed : ParsedAddrMessage)
  | breakdown (c : Session) (command : AddrCommand) (parsed : ParsedAddrMessage)
  | blockLog (c : Session) (parsed : ParsedAddrMessage) (now : Int) (call : LogCall)
  | blockFailed (c : Session)
  | blockMark (c : Session)
  | shuffling (c : Session) (parsed : ParsedAddrMessage) (now : Int)
  | upserting (c : Session) (count : Nat) (now : Int) (rest : List AdvertisedAddr)
  | enqueueing (c : Session) (count : Nat) (now : Int) (rest : List AdvertisedAddr) (a : AddrKey)
      (e : EnqueuePc)
  | messageDone (c : Session) (count : Nat)
  | outcomeGuard (c : Session) (outcome : CollectionOutcome)
  | outcomeWrite (c : Session) (outcome : CollectionOutcome)
  | outcomeLog (c : Session) (call : LogCall)
  | outcomeMark (c : Session)
  | outcomeRelease (c : Session)
  | completing (sentTs : Int)
  | requeueing (terminal : Terminal) (kind : FailKind)
  | resending (terminal : Terminal) (kind : FailKind)
  /-- the retry could not be sent -/
  | abandoning (f : FinishPc)
  | finishing (f : FinishPc)
  deriving DecidableEq, Repr

/-- Inside `worker_loop`. -/
inductive WorkerPc where
  | top
  | receiving
  | reserving (k : AddrKey)
  | limitHit (k : AddrKey)
  | discarding (k : AddrKey) (f : FinishPc)
  | discardClose
  | starting (k : AddrKey)
  | task (k : AddrKey) (p : TaskPc)
  /-- `process` has panicked -/
  | crashed (k : AddrKey)
  | crashedShutdown (k : AddrKey)
  | crashedFinish (k : AddrKey) (f : FinishPc)
  | crashedClose
  | exited
  | died
  deriving DecidableEq, Repr

/-- The result of `run`. -/
inductive CrawlResult where
  | ok
  | workersFailed
  | logFailed
  deriving DecidableEq, Repr

/-- The main task: seeding, `run`, and the rest of `async_main`. -/
inductive MainPc where
  | seeding (rest : List AddrKey)
  | seedEnqueue (rest : List AddrKey) (k : AddrKey) (e : EnqueuePc)
  | startCheck
  | startClose
  | spawning
  | joining (joined : Nat)
  | joinFailed (joined : Nat)
  | joinShutdown (joined : Nat)
  | joinClose (joined : Nat)
  | abortSignals
  | awaitSignals
  | checkWorkers
  | checkOutput
  | stopping (r : CrawlResult)
  | awaitCheckpoint (r : CrawlResult)
  | finalFlush (r : CrawlResult)
  | flushing (r : CrawlResult) (call : LogCall)
  | marking (r : CrawlResult)
  | writing (r : CrawlResult) (logOk : Bool) (durable : Option Nat)
  | finished
  deriving DecidableEq, Repr

inductive SignalPc where
  | waiting
  | storing
  | closing
  | armed
  deriving DecidableEq, Repr

inductive CheckpointPc where
  | idle
  | acquiring (processed : Nat)
  | flushing (processed : Nat) (call : LogCall)
  | marking
  | leaving
  | snapshotting (processed : Nat) (durable : Option Nat)
  | cloning (processed : Nat) (durable : Option Nat) (rest : List AddrKey)
      (acc : List (AddrKey × NodeEntry))
  | publishing (m : Manifest)
  | exited

/-- Where a thread stands. -/
inductive Pc where
  | main (p : MainPc)
  | signal (p : SignalPc)
  | checkpoint (p : CheckpointPc)
  | logWriter
  | worker (t : Transport) (p : WorkerPc)

/-! ## Inputs -/

/-- What the world answers in one step: a step reads the fields it needs. -/
structure Answer where
  /-- the task panics instead of taking its step -/
  panic : Bool := false
  /-- `now_epoch()` -/
  now : Int := 0
  /-- the connect phase: the elapsed milliseconds or the error -/
  connect : Except IoError Nat := .ok 0
  sockets : String × String := ("0.0.0.0:0", "0.0.0.0:0")
  /-- the error of sending `version` or `getaddr` -/
  send : Option IoError := none
  negotiationSend : Option IoError := none
  verackSend : Option IoError := none
  events : List PeerEvent := []
  elapsedMs : Nat := 0
  collected : CollectEvent := .expired
  /-- the shuffled batch -/
  order : List AdvertisedAddr := []
  /-- bytes left behind by a failing `write_all` of the log writer -/
  fault : Option Nat := none
  /-- the log writer's flush and sync succeed -/
  synced : Bool := true
  /-- the checkpoint ticker fires, rather than the stop signal -/
  tick : Bool := true
  /-- the next joined worker task is one that panicked -/
  joinError : Bool := false
  /-- publishing the result files succeeds -/
  stored : Bool := true

end P2PCrawler
