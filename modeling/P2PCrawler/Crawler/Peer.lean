import P2PCrawler.AddrLog
import P2PCrawler.Settings

/-!
# What a peer does during one attempt (`crawler.rs`)

The parts of `process` that talk to the peer and touch nothing shared: how connect and handshake
errors are classified, the handshake after our `version` was sent, and the decisions of the
getaddr loop.  Each takes what the connection delivered, with payloads decoded.
-/

set_option autoImplicit false

namespace P2PCrawler

/-! ## Errors -/

/-- The `io::ErrorKind`s the classification tells apart. -/
inductive IoErrorKind where
  | timedOut
  | connectionRefused
  | connectionReset
  | connectionAborted
  | invalidData
  | unexpectedEof
  | brokenPipe
  | other
  deriving DecidableEq, Repr

structure IoError where
  kind : IoErrorKind
  rawOsError : Option Int := none
  deriving DecidableEq, Repr

def classifyConnectError (e : IoError) (network : NetworkType) : FailKind :=
  match e.kind with
  | .timedOut => .connectTimeout
  | .connectionRefused => .connectRefused
  | .connectionReset | .connectionAborted => .connectReset
  | _ =>
    -- ENETUNREACH and EHOSTUNREACH
    if e.rawOsError = some 101 ∨ e.rawOsError = some 113 then .connectUnreachable
    else match network with
      | .onionV2 | .onionV3 => .proxyError
      | .i2p => .samError
      | _ => .connectOther

def classifyHandshakeError (e : IoError) : FailKind :=
  match e.kind with
  | .invalidData => .protocolDesync
  | .unexpectedEof | .connectionReset | .connectionAborted | .brokenPipe => .connectionClosed
  | _ => .handshakeOther

/-- The connect phase: there is no transport for an unknown network. -/
def connectResult (network : NetworkType) (r : Except IoError Nat) : Except IoError Nat :=
  if network = .unknown then .error { kind := .other } else r

/-! ## Handshake -/

/-- What one round of the receive loop sees. -/
inductive PeerEvent where
  | version (v : Option VersionData)
  | verack
  /-- a ping, and the error of answering it -/
  | ping (failed : Option IoError)
  | other
  /-- no envelope within the per-envelope timeout -/
  | quiet
  /-- the deadline has passed -/
  | expired
  | error (e : IoError)
  deriving DecidableEq, Repr

inductive RecvResult (α : Type) where
  | message (x : α)
  | timeout
  | transport (e : IoError)

/-- `recv_matching`, with the events not yet consumed; `none` while it is still waiting. -/
def recvMatching {α : Type} (expected : PeerEvent → Option α) (answersPings : Bool) :
    List PeerEvent → Option (RecvResult α × List PeerEvent)
  | [] => none
  | e :: es =>
    match expected e with
    | some x => some (.message x, es)
    | none =>
      match e with
      | .expired => some (.timeout, es)
      | .error err => some (.transport err, es)
      | .ping (some err) =>
        if answersPings then some (.transport err, es)
        else recvMatching expected answersPings es
      | _ => recvMatching expected answersPings es

inductive HandshakeResult where
  | version (v : VersionData) (durationMs : Nat)
  | timeout
  | failed (kind : FailKind)
  deriving DecidableEq, Repr

def PeerEvent.asVersion : PeerEvent → Option (Option VersionData)
  | .version v => some v
  | _ => none

def PeerEvent.asVerack : PeerEvent → Option Unit
  | .verack => some ()
  | _ => none

/-- `handshake` from the moment our `version` is sent: the peer's version, our `sendaddrv2` and
    `verack`, the peer's verack. -/
def handshakeResult (events : List PeerEvent) (negotiationSend verackSend : Option IoError)
    (elapsedMs : Nat) : Option HandshakeResult :=
  match recvMatching PeerEvent.asVersion false events with
  | none => none
  | some (.timeout, _) => some .timeout
  | some (.transport e, _) => some (.failed (classifyHandshakeError e))
  | some (.message none, _) => some (.failed .malformedVersion)
  | some (.message (some v), rest) =>
    if 70016 ≤ min v.version protocolVersion ∧ negotiationSend.isSome then
      some (.failed .negotiationSendFailed)
    else if verackSend.isSome then some (.failed .verackSendFailed)
    else match recvMatching PeerEvent.asVerack true rest with
      | none => none
      | some (.timeout, _) => some (.failed .peerVerackTimeout)
      | some (.transport e, _) => some (.failed (classifyHandshakeError e))
      | some (.message (), _) => some (.version v elapsedMs)

/-! ## Address collection -/

inductive AddrCommand where
  | addr
  | addrv2
  deriving DecidableEq, Repr

def AddrCommand.asStr : AddrCommand → String
  | .addr => "addr"
  | .addrv2 => "addrv2"

/-- What one round of the getaddr loop sees. -/
inductive CollectEvent where
  /-- the hard deadline has passed -/
  | expired
  | message (command : AddrCommand) (parsed : ParsedAddrMessage)
  | malformed (command : AddrCommand) (error : AddrParseError) (payload : List Byte)
  | ping (failed : Option IoError)
  | skip
  /-- no envelope within the idle timeout -/
  | quiet (partialEnvelope : Bool)
  | error (e : IoError)
  deriving DecidableEq, Repr

/-- What the loop does with it. -/
inductive Collected where
  | again
  | ended (outcome : CollectionOutcome)
  | message (command : AddrCommand) (parsed : ParsedAddrMessage)
  | malformed (command : AddrCommand) (error : AddrParseError) (payload : List Byte)
  deriving DecidableEq, Repr

/-- An outcome and its `Partial` form for a collection that already has valid messages. -/
def CollectionOutcome.orPartial (validMessages : Nat) (none_ some_ : CollectionOutcome) :
    CollectionOutcome :=
  if validMessages = 0 then none_ else some_

def collect (validMessages : Nat) : CollectEvent → Collected
  | .expired => .ended (.orPartial validMessages .hardTimeout .partialHardTimeout)
  | .message command parsed => .message command parsed
  | .malformed command error payload => .malformed command error payload
  | .ping none => .again
  | .ping (some _) => .ended (.orPartial validMessages .remoteDisconnect .partialRemoteDisconnect)
  | .skip => .again
  | .quiet true =>
    .ended (.orPartial validMessages .incompleteEnvelopeTimeout .partialIncompleteEnvelopeTimeout)
  | .quiet false => .ended (.orPartial validMessages .noResponseTimeout .completeQuiet)
  | .error e =>
    if e.kind = .timedOut then
      .ended (.orPartial validMessages .incompleteEnvelopeTimeout .partialIncompleteEnvelopeTimeout)
    else .ended (.orPartial validMessages .remoteDisconnect .partialRemoteDisconnect)

def isGetaddrReplyComplete (addressCount : Nat) : Bool := decide (1 < addressCount)

end P2PCrawler
