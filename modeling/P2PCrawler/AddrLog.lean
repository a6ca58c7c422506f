import P2PCrawler.Store

/-!
# The address observation log (`addrlog.rs`)

Producers render complete records and hand them, one at a time and under the event-id mutex, to
a single writer thread through a bounded channel; each producer waits for the acknowledgement of
its own command.

* `LogEvent.render` — the text of a record.
* `LogCall` — one call of `write_block`, `write_outcome`, `write_malformed` or `flush`, by the
  points at which it can be suspended.
* `LogState.writerStep` — one command served by the writer thread.

A failed write leaves a strict prefix of its record in the file.  The buffer of the writer
keeps what it has taken over, so the file with the buffer appended is the sequence of the pieces
written so far.
-/

set_option autoImplicit false

namespace P2PCrawler

/-! ## Records -/

/-- `push_csv_field`: the quoted form of a field. -/
def pushCsvField (field : String) : String :=
  let cs := field.toList
  if cs.contains ',' || cs.contains '"' || cs.contains '\r' || cs.contains '\n' then
    "\"" ++ String.ofList (cs.flatMap fun c => if c = '"' then ['"', '"'] else [c]) ++ "\""
  else field

/-- `push_csv_fields`. -/
def pushCsvFields (fields : List String) : String := ",".intercalate (fields.map pushCsvField)

/-- Two lower-case hexadecimal digits. -/
def hexByte (b : Byte) : String :=
  String.ofList [Nat.digitChar (b.toNat / 16), Nat.digitChar (b.toNat % 16)]

/-- Metadata about the responding node for one block. -/
structure Responder where
  host : String
  port : UInt16
  network : String
  receivedAt : Int
  messageType : String
  handshake : HandshakeData
  deriving DecidableEq, Repr

/-- The three kinds of records. -/
inductive LogEvent where
  | block (r : Responder) (parsed : ParsedAddrMessage)
  | outcome (host : String) (port : UInt16) (outcome : CollectionOutcome)
  | malformed (host : String) (port : UInt16) (messageType : String) (error : AddrParseError)
      (payload : List Byte)
  deriving DecidableEq, Repr

/-- The node a record is about. -/
def LogEvent.key : LogEvent → AddrKey
  | .block r _ => ⟨r.host, r.port⟩
  | .outcome host port _ => ⟨host, port⟩
  | .malformed host port _ _ _ => ⟨host, port⟩

/-- The text of a record under its event id. -/
def LogEvent.render (H : Digests) (eventId : Nat) : LogEvent → String
  | .block r parsed =>
    "===NEW NODE===," ++
      pushCsvFields [toString eventId, r.host, toString r.port.toNat, r.network,
        toString r.receivedAt, r.messageType, "complete", toString parsed.declaredCount,
        toString parsed.addrs.length, toString parsed.unknownEntries,
        toString r.handshake.version, toString r.handshake.services, r.handshake.userAgent,
        toString r.handshake.latestBlock, toString r.handshake.relay] ++ "\n" ++
      String.join (parsed.addrs.map fun a =>
        pushCsvFields [toString eventId, a.host, toString a.port.toNat, a.network.asStr,
          toString a.timestamp, toString a.services, toString a.wireNetworkId.toNat] ++ "\n")
  | .outcome host port collected =>
    "===REQUEST OUTCOME===," ++
      pushCsvFields [toString eventId, host, toString port.toNat, collected.asStr] ++ "\n"
  | .malformed host port messageType error payload =>
    "===MALFORMED RESPONSE===," ++
      pushCsvFields [toString eventId, host, toString port.toNat, messageType, "malformed",
        error.display, String.join ((H.sha256 payload).map hexByte)] ++ "\n"

/-- The bytes handed to the writer. -/
def LogEvent.bytes (H : Digests) (eventId : Nat) (e : LogEvent) : List Byte :=
  utf8 (e.render H eventId).toList

/-! ## The log -/

/-- `WriterCommand`; the ticket stands for the reply channel. -/
inductive WriterCommand where
  | append (event : LogEvent) (eventId : Nat) (ticket : Nat)
  | flush (ticket : Nat)
  deriving DecidableEq, Repr

def WriterCommand.ticket : WriterCommand → Nat
  | .append _ _ t => t
  | .flush t => t

/-- What one `write_all` has left in the file: the whole record, or its first `torn` bytes. -/
structure Piece where
  eventId : Nat
  event : LogEvent
  torn : Option Nat
  deriving DecidableEq, Repr

def Piece.record (H : Digests) (p : Piece) : List Byte := p.event.bytes H p.eventId

def Piece.bytes (H : Digests) (p : Piece) : List Byte :=
  match p.torn with
  | none => p.record H
  | some kept => (p.record H).take kept

/-- Capacity of the command channel. -/
def commandCapacity : Nat := 1024

/-- The state shared by the producers and the writer thread. -/
structure LogState where
  nextEventId : Nat := 1
  /-- the mutex around `next_event_id` is held -/
  locked : Bool := false
  channel : List WriterCommand := []
  /-- number of reply channels created so far -/
  tickets : Nat := 0
  replies : AList (fun _ : Nat => Option Nat) := ∅
  written : List Piece := []
  durableEventId : Nat := 0
  /-- some append or flush has failed -/
  failed : Bool := false

/-- The file with the writer's buffer appended. -/
def LogState.file (H : Digests) (L : LogState) : List Byte := L.written.flatMap (·.bytes H)

/-- The writer thread serves its next command.  `fault` is the number of bytes a failing
    `write_all` leaves behind, `synced` the success of flushing and syncing. -/
def LogState.writerStep (H : Digests) (L : LogState) (fault : Option Nat) (synced : Bool) :
    Option LogState :=
  match L.channel with
  | [] => none
  | .append event eventId ticket :: rest =>
    match fault with
    | none =>
      some { L with
        channel := rest
        written := L.written ++ [⟨eventId, event, none⟩]
        durableEventId := eventId
        replies := L.replies.insert ticket (some eventId) }
    | some kept =>
      if kept < (event.bytes H eventId).length then
        some { L with
          channel := rest
          written := L.written ++ [⟨eventId, event, some kept⟩]
          replies := L.replies.insert ticket none
          failed := true }
      else none
  | .flush ticket :: rest =>
    if synced then
      some { L with channel := rest, replies := L.replies.insert ticket (some L.durableEventId) }
    else
      some { L with channel := rest, replies := L.replies.insert ticket none, failed := true }

/-! ## Calls -/

inductive LogRequest where
  | write (event : LogEvent)
  | flush
  deriving DecidableEq, Repr

/-- A call in progress: waiting for the mutex, about to send, or waiting for the reply. -/
inductive LogCall where
  | lock (r : LogRequest)
  | send (r : LogRequest) (eventId : Nat)
  | wait (r : LogRequest) (eventId : Nat) (ticket : Nat)
  deriving DecidableEq, Repr

/-- The call holds the mutex. -/
def LogCall.holds : LogCall → Bool
  | .lock _ => false
  | _ => true

/-- Where a call stands after a step: suspended again, or returned, with `none` for an error. -/
inductive LogNext where
  | pending (c : LogCall)
  | returned (r : Option Nat)
  deriving DecidableEq, Repr

/-- The command of a request. -/
def LogRequest.command (eventId ticket : Nat) : LogRequest → WriterCommand
  | .write event => .append event eventId ticket
  | .flush => .flush ticket

/-- Event ids are drawn for records only. -/
def LogRequest.advance (next : Nat) : LogRequest → Nat
  | .write _ => next + 1
  | .flush => next

def LogCall.step (L : LogState) : LogCall → Option (LogState × LogNext)
  | .lock r =>
    if L.locked then none
    else some ({ L with locked := true, nextEventId := r.advance L.nextEventId },
      .pending (.send r L.nextEventId))
  | .send r eventId =>
    if L.channel.length < commandCapacity then
      some ({ L with
          channel := L.channel ++ [r.command eventId L.tickets], tickets := L.tickets + 1 },
        .pending (.wait r eventId L.tickets))
    else none
  | .wait _ _ ticket =>
    match L.replies.lookup ticket with
    | none => none
    | some r => some ({ L with locked := false }, .returned r)

end P2PCrawler
