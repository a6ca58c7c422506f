import P2PCrawler.Crawler.Logging

/-!
# Records on their way

A record is in the hands of a thread, then in the channel of the writer, then in the file.

* `Recounted`, `Provenance` — what the records of a node say about its statistics.
* `LogState.records` — the records in the channel and in the file.
* `Pc.unsent`, `Pc.starts` — the record in the hands of a thread, and the one it makes next.
* `program_flow` — **no record is lost or made twice**.
-/

set_option autoImplicit false

namespace P2PCrawler

open ThreadPool

/-! ## What records say -/

/-- The message of a block. -/
def LogEvent.message : LogEvent → Option ParsedAddrMessage
  | .block _ parsed => some parsed
  | _ => none

def LogEvent.isMalformed : LogEvent → Bool
  | .malformed .. => true
  | _ => false

def LogEvent.isOutcome : LogEvent → Bool
  | .outcome .. => true
  | _ => false

/-- The messages in the blocks of a node. -/
def messagesOf (k : AddrKey) (records : List LogEvent) : List ParsedAddrMessage :=
  (records.filter fun e => decide (e.key = k)).filterMap LogEvent.message

/-- The entries of a message that are counted for a network. -/
def ParsedAddrMessage.declaredFor (p : ParsedAddrMessage) (net : NetworkType) : Nat :=
  p.addrs.countP (fun a => decide (a.network = net)) + if net = .unknown then p.unknownEntries else 0

/-- The statistics of a node, but for the count of valid messages, are what its records say. -/
structure Recounted (k : AddrKey) (x : NodeStats) (records : List LogEvent) : Prop where
  total : x.advertisedTotal = ((messagesOf k records).map (·.declaredCount)).sum
  networks : ∀ net, x.advertisedOf net = ((messagesOf k records).map (·.declaredFor net)).sum
  malformed : x.malformedAddrMessages = records.countP fun e => decide (e.key = k) && e.isMalformed
  outcome : x.collectionOutcome ≠ .notRequested ↔ ∃ e ∈ records, e.key = k ∧ e.isOutcome = true

/-- The statistics of a node are what its records say. -/
structure Provenance (k : AddrKey) (x : NodeStats) (records : List LogEvent) : Prop
    extends Recounted k x records where
  valid : x.validAddrMessages = (messagesOf k records).length

/-! ## Records on their way -/

def WriterCommand.event : WriterCommand → Option LogEvent
  | .append event _ _ => some event
  | .flush _ => none

/-- The records that were handed to the writer, in their order. -/
def LogState.records (L : LogState) : List LogEvent :=
  L.written.map (·.event) ++ L.channel.filterMap WriterCommand.event

/-- The record of a call that has not handed it over. -/
def LogCall.unsent : LogCall → Option LogEvent
  | .lock (.write event) | .send (.write event) _ => some event
  | _ => none

def Pc.unsent (pc : Pc) : Option LogEvent := pc.call.bind LogCall.unsent

/-- The record a task makes in its next step, where the log is kept. -/
def TaskPc.starts (S : Setup) (k : AddrKey) (now : Int) : TaskPc → Option LogEvent
  | .malformedCount _ event => some event
  | .breakdown c command parsed => some (blockEvent S.digests k c command parsed now)
  | .outcomeWrite _ outcome => some (.outcome k.host k.port outcome)
  | _ => none

def Pc.starts (S : Setup) (now : Int) : Pc → Option LogEvent
  | .worker _ (.task k p) => p.starts S k now
  | _ => none

section Records
variable {L L' : LogState} {call call' : LogCall}

/-- A call that goes on hands its record over, or still has it. -/
theorem LogCall.records_pending (h : call.step L = some (L', .pending call')) :
    L'.records ++ call'.unsent.toList = L.records ++ call.unsent.toList := by
  rcases LogCall.step_pending h with ⟨r, rfl, -, rfl, rfl⟩ | ⟨r, eventId, rfl, rfl, rfl⟩
  · cases r <;> rfl
  · unfold LogState.records
    rw [List.filterMap_append]
    cases r <;> simp [LogRequest.command, WriterCommand.event, unsent]

theorem LogCall.records_returned {res : Option Nat} (h : call.step L = some (L', .returned res)) :
    L'.records = L.records ∧ call.unsent = none := by
  obtain ⟨r, eventId, ticket, rfl, -, rfl⟩ := LogCall.step_returned h
  exact ⟨rfl, by cases r <;> rfl⟩

/-- The writer moves records from the channel into the file. -/
theorem LogState.records_serve {H : Digests} {synced : Bool}
    (h : L.writerStep H none synced = some L') : L'.records = L.records := by
  unfold LogState.writerStep at h
  split at h
  · cases h
  · rename_i event eventId ticket rest hch
    cases h
    unfold LogState.records
    rw [hch, List.map_append, List.append_assoc]
    rfl
  · rename_i ticket rest hch
    have hrest : L.channel.filterMap WriterCommand.event = rest.filterMap WriterCommand.event := by
      rw [hch]
      rfl
    unfold LogState.records
    rw [hrest]
    split at h <;> cases h <;> rfl

theorem LogCall.unsent_of_flush (h : call.request = .flush) : call.unsent = none := by
  cases call with
  | lock r | send r | wait r => cases h; rfl

/-- A client that logs nothing leaves the records. -/
theorem ClientMove.records_of_none {k k' : Option LogCall} (h : ClientMove L k L' k')
    (hk : k.bind LogCall.unsent = none) (hk' : k'.bind LogCall.unsent = none) :
    L'.records = L.records := by
  cases h with
  | aside | enter => rfl
  | next hs =>
    have hflow := LogCall.records_pending hs
    rw [Option.bind_some] at hk hk'
    rwa [hk, hk', Option.toList_none, List.append_nil, List.append_nil] at hflow
  | leave hs => exact (LogCall.records_returned hs).1

end Records

/-- A task inside a log call still has its record, or has handed it over. -/
theorem logStep_flow {sh sh' : Shared} {call : LogCall} {wait : LogCall → Option TaskPc}
    {done : Option Nat → Option TaskPc} {next : Option TaskPc}
    (h : logStep sh call wait done = some (sh', next))
    (hwait : ∀ call', (wait call').bind TaskPc.call = some call')
    (hdone : ∀ res, (done res).bind TaskPc.call = none) :
    sh'.log.records ++ ((next.bind TaskPc.call).bind LogCall.unsent).toList =
      sh.log.records ++ call.unsent.toList ++ [] := by
  rw [List.append_nil]
  rcases logStep_cases h with ⟨call', hs, rfl⟩ | ⟨res, hs, rfl⟩
  · rw [hwait]
    exact LogCall.records_pending hs
  · obtain ⟨hsame, hnone⟩ := LogCall.records_returned hs
    rw [hdone, hsame, hnone]
    rfl

/-- **What a task records.**  What it has in hand is what it has started to record. -/
theorem taskStep_flow {S : Setup} {sh sh' : Shared} {t : Transport} {k : AddrKey} {a : Answer}
    {p : TaskPc} {next : Option TaskPc} (hlog : S.logging = true)
    (h : taskStep S sh t k a p = some (sh', next)) :
    sh'.log.records ++ ((next.bind TaskPc.call).bind LogCall.unsent).toList =
      sh.log.records ++ (p.call.bind LogCall.unsent).toList ++ (p.starts S k a.now).toList := by
  have hquiet : sh'.log = sh.log → next.bind TaskPc.call = none → p.call = none →
      p.starts S k a.now = none →
      sh'.log.records ++ ((next.bind TaskPc.call).bind LogCall.unsent).toList =
        sh.log.records ++ (p.call.bind LogCall.unsent).toList ++ (p.starts S k a.now).toList := by
    intro hL hnext hp hstarts
    rw [hL, hnext, hp, hstarts]
    exact (List.append_nil _).symm
  cases p with
  | malformedLog c call =>
    refine logStep_flow h (fun _ => rfl) fun res => ?_
    cases res <;> rfl
  | blockLog c parsed now call =>
    refine logStep_flow h (fun _ => rfl) fun res => ?_
    cases res <;> rfl
  | outcomeLog c call =>
    refine logStep_flow h (fun _ => rfl) fun res => ?_
    cases res <;> rfl
  | malformedCount | breakdown | outcomeWrite =>
    simp only [taskStep, hlog, if_true, Option.some.injEq, Prod.mk.injEq] at h
    obtain ⟨rfl, rfl⟩ := h
    exact congrArg (· ++ _) (List.append_nil _).symm
  | upserting c count now rest =>
    cases rest with
    | nil => cases h; exact hquiet rfl rfl rfl rfl
    | cons addr rest =>
      cases h
      refine hquiet rfl ?_ rfl rfl
      cases (sh.store.frontierUpsert ⟨addr.host, addr.port⟩ addr.timestamp addr.network
        S.settings.freshnessThreshold now).2 <;> rfl
  | enqueueing c count now rest key e =>
    cases h
    refine hquiet (enqueueStep_log ..) ?_ rfl rfl
    cases (enqueueStep S.digests sh key e).2 <;> rfl
  | abandoning f | finishing f =>
    cases h
    refine hquiet (finishStep_log ..) ?_ rfl rfl
    cases (finishStep sh k f).2 <;> rfl
  | everConnected | handshakeTimeout | handshakeFailed =>
    cases h
    exact hquiet rfl (retryOrFinish_call ..) rfl rfl
  | resending terminal kind =>
    simp only [taskStep] at h
    split at h <;> cases h
    · rename_i sh' hsend
      obtain ⟨-, -, rfl⟩ := Shared.trySend_some hsend
      exact hquiet rfl rfl rfl rfl
    · exact hquiet rfl rfl rfl rfl
  | connecting | sendVersion | handshaking | collecting | malformedGuard | messageGuard
    | outcomeGuard | shuffling =>
    simp only [taskStep] at h
    split at h <;> cases h <;> exact hquiet rfl rfl rfl rfl
  | handshaken | getaddr | messageDone =>
    cases h
    refine hquiet rfl ?_ rfl rfl
    simp only [Option.bind_some]
    split <;> rfl
  | _ => cases h; exact hquiet rfl rfl rfl rfl

theorem TaskPc.starts_of_not_guarded {S : Setup} {k : AddrKey} {now : Int} {p : TaskPc}
    (h : p.guarded = false) : p.starts S k now = none := by
  cases p <;> first | rfl | cases h

/-- **No record is lost or made twice**, in a step without a fault of the log and without a panic
    under a read guard. -/
theorem program_flow {S : Setup} {sh sh' : Shared} {pc pc' : Pc} {a : Answer}
    (hlog : S.logging = true) (h : program S sh pc a = some (sh', pc')) (hfault : a.fault = none)
    (hpanic : a.panic = true → pc.reads = 0) (hok : pc.WritesOf S) (hok' : pc'.WritesOf S) :
    sh'.log.records ++ pc'.unsent.toList =
      sh.log.records ++ pc.unsent.toList ++ (pc.starts S a.now).toList := by
  -- Who logs nothing.
  have hquiet : sh'.log.records = sh.log.records → pc'.unsent = none → pc.unsent = none →
      pc.starts S a.now = none → sh'.log.records ++ pc'.unsent.toList =
        sh.log.records ++ pc.unsent.toList ++ (pc.starts S a.now).toList := by
    intro hL hnext hpc hstarts
    rw [hL, hnext, hpc, hstarts]
    exact (List.append_nil _).symm
  have hmain : ∀ {p : MainPc}, (Pc.main p).WritesOf S → (Pc.main p).unsent = none := by
    intro p hp
    cases p with
    | flushing r call => exact LogCall.unsent_of_flush hp
    | _ => rfl
  have hcheckpoint : ∀ {p : CheckpointPc}, (Pc.checkpoint p).WritesOf S →
      (Pc.checkpoint p).unsent = none := by
    intro p hp
    cases p with
    | flushing processed call => exact LogCall.unsent_of_flush hp
    | _ => rfl
  rcases program_cases h with ⟨p, p', rfl, rfl, hs⟩ | ⟨p, p', rfl, rfl, hs⟩ |
    ⟨p, p', rfl, rfl, hs⟩ | ⟨L, rfl, rfl, hs, rfl⟩ | ⟨t, p, p', rfl, rfl, hs⟩
  · exact hquiet ((mainStep_log hs).records_of_none (hmain hok) (hmain hok')) (hmain hok')
      (hmain hok) rfl
  · exact hquiet (by rw [signalStep_log hs]) rfl rfl rfl
  · exact hquiet ((checkpointStep_log hs).records_of_none (hcheckpoint hok) (hcheckpoint hok'))
      (hcheckpoint hok') (hcheckpoint hok) rfl
  · rw [hfault] at hs
    exact hquiet (LogState.records_serve hs) rfl rfl rfl
  · rcases workerStep_cases hs with ⟨k, q, rfl, hp, rfl, rfl⟩ | ⟨k, q, next, rfl, -, hstep, rfl⟩ |
      ⟨hne, -, -, -, rfl, rfl⟩ | ⟨hne, -, -, hstep⟩
    · have hguarded : q.guarded = false := by
        have hreads := hpanic hp
        by_contra hg
        simp [Pc.reads, hg] at hreads
      have hcall : q.call = none := TaskPc.call_of_not_guarded hguarded
      have hsame : (unwind sh q).log = sh.log := by
        unfold unwind
        rw [hcall]
        rfl
      refine hquiet (by rw [hsame]) rfl ?_ (TaskPc.starts_of_not_guarded hguarded)
      show q.call.bind LogCall.unsent = none
      rw [hcall]
      rfl
    · have hflow := taskStep_flow hlog hstep
      cases next <;> exact hflow
    · refine hquiet rfl rfl ?_ ?_ <;> cases p <;> first | rfl | exact absurd rfl (hne _ _)
    · obtain ⟨hL, hcall⟩ := loopStep_log hstep
      have hnone : (Pc.worker t p).call = none := by
        cases p <;> first | rfl | exact absurd rfl (hne _ _)
      refine hquiet (by rw [hL]) ?_ ?_ ?_
      · unfold Pc.unsent
        rw [hcall, hnone]
        rfl
      · unfold Pc.unsent
        rw [hnone]
        rfl
      · cases p <;> first | rfl | exact absurd rfl (hne _ _)

end P2PCrawler
