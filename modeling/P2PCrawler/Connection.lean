import P2PCrawler.Frame
import P2PCrawler.Crawler.Peer

/-!
# Receiving from a peer (`transport.rs`)

A connection keeps the bytes it has read and not yet taken apart.  `recv_one` takes a frame off
them, or reads more, until its own timeout, the hard deadline of an unfinished frame, or an
error ends the call.

* `recvOne` — one call; the clock, the timeouts and the reads are answered round by round.
* `session` — calls one after the other.
* `framing_iff` — the calls return exactly the messages that were sent, however the stream is
  cut into reads, iff no read pushes the buffer over its limit.
* `coalesced_read_overflows` — a read that ends a frame of maximal size and begins the next
  one does.
-/

set_option autoImplicit false

namespace P2PCrawler

open Framing

/-! ## Calls -/

/-- Why a connection fails. -/
inductive ConnError where
  | frame (e : FrameError)
  | envelope (e : EnvelopeError)
  /-- "incomplete envelope exceeded hard deadline" -/
  | hardDeadline
  /-- "peer closed connection" -/
  | closed
  /-- "receive buffer limit exceeded" -/
  | bufferLimit
  /-- "ping nonce must be exactly 8 bytes" -/
  | pingNonce
  | io (e : IoError)
  deriving DecidableEq, Repr

/-- The error as `io::Error`. -/
def ConnError.toIo : ConnError → IoError
  | .frame _ => { kind := .other }
  | .envelope _ | .bufferLimit | .pingNonce => { kind := .invalidData }
  | .hardDeadline => { kind := .timedOut }
  | .closed => { kind := .unexpectedEof }
  | .io e => e

/-- What crosses the wire, as a connection sees it: complete messages. -/
inductive WireEvent where
  | sent (command : String) (payload : List Byte)
  | received (env : Envelope)
  deriving DecidableEq, Repr

structure Connection where
  recvBuf : List Byte := []
  /-- since when a frame is incomplete -/
  frameStarted : Option Nat := none
  /-- history: what the reads have returned -/
  reads : List (List Byte) := []
  /-- history: the messages sent and received -/
  trace : List WireEvent := []
  deriving DecidableEq, Repr

/-- `has_partial_envelope`. -/
def Connection.hasPartialEnvelope (c : Connection) : Bool := !c.recvBuf.isEmpty

/-- Reading the socket under a timeout. -/
inductive ReadResult where
  | timedOut
  | failed (e : IoError)
  | data (bytes : List Byte)
  deriving DecidableEq, Repr

/-- What the world answers in one round of the receive loop: clock readings in milliseconds, and
    what the read returns. -/
structure Round where
  parsedAt : Nat := 0
  hardAt : Nat := 0
  callAt : Nat := 0
  read : ReadResult
  readAt : Nat := 0
  deriving DecidableEq, Repr

/-- `ENVELOPE_HARD_TIMEOUT`. -/
def envelopeHardTimeout : Nat := 120000

/-- The size the receive buffer may have after a read. -/
def recvLimit : Nat := 24 + maxProtocolMessageLength

/-- A read has returned bytes. -/
def Connection.fill (c : Connection) (bytes : List Byte) (readAt : Nat) : Connection :=
  { c with
    recvBuf := c.recvBuf ++ bytes
    frameStarted := if c.recvBuf.isEmpty then some readAt else c.frameStarted
    reads := c.reads ++ [bytes] }

/-- A message has been taken off the buffer. -/
def Connection.deliver (c : Connection) (env : Envelope) (rest : List Byte) (parsedAt : Nat) :
    Connection :=
  { c with
    recvBuf := rest
    frameStarted := if rest.isEmpty then none else some parsedAt
    trace := c.trace ++ [.received env] }

/-- `hard_remaining`. -/
def Connection.hardRemaining (c : Connection) (now : Nat) : Nat :=
  match c.frameStarted with
  | some start => envelopeHardTimeout - (now - start)
  | none => envelopeHardTimeout

/-- `recv_one`: the result, and the connection afterwards; `none` while it is waiting. -/
def recvOne (H : Digests) (perTimeout start : Nat) :
    Connection → List Round → Option (Except ConnError (Option Envelope) × Connection)
  | _, [] => none
  | c, r :: rounds =>
    match tryParseEnvelope H c.recvBuf with
    | (.error e, _) => some (.error (.envelope e), c)
    | (.ok (some env), rest) => some (.ok (some env), c.deliver env rest r.parsedAt)
    | (.ok none, _) =>
      if c.hardRemaining r.hardAt = 0 then some (.error .hardDeadline, c)
      else if start + perTimeout - r.callAt = 0 then some (.ok none, c)
      else match r.read with
        | .timedOut => some (.ok none, c)
        | .failed e => some (.error (.io e), c)
        | .data [] => some (.error .closed, c)
        | .data (b :: bytes) =>
          let c := c.fill (b :: bytes) r.readAt
          if recvLimit < c.recvBuf.length then some (.error .bufferLimit, c)
          else recvOne H perTimeout start c rounds

/-- `send`: a message is written whole, or the write fails. -/
def Connection.send (H : Digests) (c : Connection) (command : String) (payload : List Byte)
    (fault : Option IoError) : Except ConnError Connection :=
  match frame H command payload with
  | .error e => .error (.frame e)
  | .ok _ =>
    match fault with
    | some e => .error (.io e)
    | none => .ok { c with trace := c.trace ++ [.sent command payload] }

/-- `validate_ping_payload`. -/
def validatePingPayload (payload : List Byte) (expectsNonce : Bool) : Bool :=
  (expectsNonce && payload.length == 8) || (!expectsNonce && payload.isEmpty)

/-- `answer_ping`. -/
def Connection.answerPing (H : Digests) (c : Connection) (payload : List Byte)
    (protocolVersion : Int) (fault : Option IoError) : Except ConnError Connection :=
  let expectsNonce := decide (60000 < protocolVersion)
  if validatePingPayload payload expectsNonce then
    if expectsNonce then c.send H "pong" payload fault else .ok c
  else .error .pingNonce

/-- One call of `recv_one`, with its rounds. -/
structure RecvCall where
  perTimeout : Nat
  start : Nat := 0
  rounds : List Round
  deriving DecidableEq, Repr

abbrev RecvOutcome := Except ConnError (Option Envelope)

/-- Successive calls: their results, and the connection afterwards. -/
def session (H : Digests) : Connection → List RecvCall → Option (List RecvOutcome × Connection)
  | c, [] => some ([], c)
  | c, call :: calls =>
    match recvOne H call.perTimeout call.start c call.rounds with
    | none => none
    | some (res, c) => (session H c calls).map fun more => (res :: more.1, more.2)

/-! ## What one call does -/

/-- The round neither fails nor sees the end of the stream. -/
def Round.Peaceful (r : Round) : Prop :=
  match r.read with
  | .timedOut => True
  | .failed _ => False
  | .data bytes => bytes ≠ []

/-- The number of bytes in the buffer right after read `k`, where every frame is taken off as
    soon as it is complete. -/
def buffered (fs chunks : List (List Byte)) (k : Nat) : Nat :=
  (chunks.take (k + 1)).flatten.length - completed fs (chunks.take k).flatten.length

theorem recvOne_reads {H : Digests} {perTimeout start : Nat} : ∀ {rounds : List Round}
    {c c' : Connection} {res : RecvOutcome},
    recvOne H perTimeout start c rounds = some (res, c') → c.reads <+: c'.reads
  | [], _, _, _, h => by cases h
  | r :: rounds, c, c', res, h => by
    simp only [recvOne] at h
    split at h
    · cases h; exact List.prefix_rfl
    · cases h; exact List.prefix_rfl
    · split at h
      · cases h; exact List.prefix_rfl
      · split at h
        · cases h; exact List.prefix_rfl
        · split at h
          · cases h; exact List.prefix_rfl
          · cases h; exact List.prefix_rfl
          · cases h; exact List.prefix_rfl
          · split at h
            · cases h; exact List.prefix_append ..
            · exact (List.prefix_append ..).trans (recvOne_reads h)

/-- A prefix of the reads that is about to grow. -/
theorem next_chunk {chunks past : List (List Byte)} {bytes : List Byte}
    (h : past ++ [bytes] <+: chunks) : past.length < chunks.length ∧
      chunks.take past.length = past ∧ chunks.take (past.length + 1) = past ++ [bytes] := by
  obtain ⟨more, rfl⟩ := h
  refine ⟨by simp, ?_, ?_⟩
  · rw [List.append_assoc, List.take_left]
  · have hlen : (past ++ [bytes]).length = past.length + 1 := by simp
    rw [← hlen, List.take_left]

/-- The messages `xs` are those the connection has still to take off the stream of `fs`: the rest
    of its frames begins with the buffer. -/
def Synced (H : Digests) (fs : List (List Byte)) (xs : List Envelope) (c : Connection) : Prop :=
  ∃ past rest, fs = past ++ rest ∧ List.Forall₂ (FrameOf H) xs rest ∧
    c.reads.flatten = past.flatten ++ c.recvBuf

section Stream
variable {H : Digests} {fs chunks : List (List Byte)}

theorem Synced.ahead {xs : List Envelope} {c : Connection} (hchunks : chunks.flatten = fs.flatten)
    (hs : Synced H fs xs c) (hreads : c.reads <+: chunks) :
    (∃ x xs' v, xs = x :: xs' ∧ tryParseEnvelope H c.recvBuf = (.ok (some x), v) ∧
      ∀ parsedAt, Synced H fs xs' (c.deliver x v parsedAt)) ∨
    tryParseEnvelope H c.recvBuf = (.ok none, c.recvBuf) ∧
      completed fs c.reads.flatten.length + c.recvBuf.length = c.reads.flatten.length := by
  obtain ⟨past, rest, rfl, hleft, hstream⟩ := hs
  obtain ⟨more, rfl⟩ := hreads
  have hbuf : c.recvBuf <+: rest.flatten := by
    rw [List.flatten_append, List.flatten_append, hstream, List.append_assoc] at hchunks
    exact ⟨more.flatten, List.append_cancel_left hchunks⟩
  rcases (framed H).step hleft hbuf with ⟨x, xs', f, rest', v, rfl, rfl, hw, -, hleft', hparse⟩ |
    ⟨hparse, hzero⟩
  · refine .inl ⟨x, xs', v, rfl, hparse, fun parsedAt => ⟨past ++ [f], rest', ?_, hleft', ?_⟩⟩
    · rw [List.append_assoc]
      rfl
    · show c.reads.flatten = (past ++ [f]).flatten ++ v
      rw [hstream, hw, List.flatten_append, List.append_assoc]
      simp
  · refine .inr ⟨hparse, ?_⟩
    rw [hstream, @List.length_append _ past.flatten, completed_append, hzero, Nat.add_zero]

theorem Synced.waiting {xs : List Envelope} {c : Connection} (hchunks : chunks.flatten = fs.flatten)
    (hs : Synced H fs xs c) (hreads : c.reads <+: chunks)
    (hwait : tryParseEnvelope H c.recvBuf = (.ok none, c.recvBuf)) :
    completed fs c.reads.flatten.length + c.recvBuf.length = c.reads.flatten.length := by
  rcases hs.ahead hchunks hreads with ⟨x, xs', v, -, hparse, -⟩ | ⟨-, hlen⟩
  · rw [hwait] at hparse
    cases hparse
  · exact hlen

theorem Synced.fill {xs : List Envelope} {c : Connection} (hs : Synced H fs xs c)
    (bytes : List Byte) (readAt : Nat) : Synced H fs xs (c.fill bytes readAt) := by
  obtain ⟨past, rest, hfs, hleft, hstream⟩ := hs
  refine ⟨past, rest, hfs, hleft, ?_⟩
  show (c.reads ++ [bytes]).flatten = past.flatten ++ (c.recvBuf ++ bytes)
  rw [List.flatten_append, hstream]
  simp

/-- The buffer after a read, where no frame was complete before it. -/
theorem buffered_fill {c : Connection} {bytes : List Byte} (readAt : Nat)
    (hwait : completed fs c.reads.flatten.length + c.recvBuf.length = c.reads.flatten.length)
    (hreads : (c.fill bytes readAt).reads <+: chunks) : c.reads.length < chunks.length ∧
      buffered fs chunks c.reads.length = (c.fill bytes readAt).recvBuf.length := by
  obtain ⟨hlt, htake, htake'⟩ := next_chunk hreads
  refine ⟨hlt, ?_⟩
  unfold buffered
  rw [htake, htake']
  show (c.reads ++ [bytes]).flatten.length - _ = (c.recvBuf ++ bytes).length
  rw [List.flatten_append, List.length_append, List.length_append]
  simp only [List.flatten_singleton]
  omega

/-- **One call**: unless the hard deadline passes, it takes the next message, or finds none, or the
    buffer overflows. -/
theorem recvOne_outcome {perTimeout start : Nat} {xs : List Envelope}
    (hchunks : chunks.flatten = fs.flatten) : ∀ {rounds : List Round} {c c' : Connection}
    {res : RecvOutcome}, (∀ r ∈ rounds, r.Peaceful) → Synced H fs xs c →
    recvOne H perTimeout start c rounds = some (res, c') → c'.reads <+: chunks →
    res = .error .hardDeadline ∨
    (res = .ok none ∧ Synced H fs xs c' ∧
      tryParseEnvelope H c'.recvBuf = (.ok none, c'.recvBuf)) ∨
    (∃ x xs', xs = x :: xs' ∧ res = .ok (some x) ∧ Synced H fs xs' c') ∨
    res = .error .bufferLimit ∧ ∃ k < chunks.length, recvLimit < buffered fs chunks k
  | [], _, _, _, _, _, h, _ => by cases h
  | r :: rounds, c, c', res, hpeace, hs, h, hreads => by
    have hr := hpeace r (List.mem_cons_self ..)
    have hbefore := (recvOne_reads h).trans hreads
    simp only [recvOne] at h
    rcases hs.ahead hchunks hbefore with ⟨x, xs', v, rfl, hparse, hs'⟩ |
      ⟨hparse, hwait⟩
    · rw [hparse] at h
      cases h
      exact .inr (.inr (.inl ⟨x, xs', rfl, rfl, hs' _⟩))
    rw [hparse] at h
    simp only at h
    split at h
    · cases h; exact .inl rfl
    split at h
    · cases h; exact .inr (.inl ⟨rfl, hs, hparse⟩)
    unfold Round.Peaceful at hr
    split at h
    · cases h; exact .inr (.inl ⟨rfl, hs, hparse⟩)
    · rename_i e hread; rw [hread] at hr; exact hr.elim
    · rename_i hread; rw [hread] at hr; exact absurd rfl hr
    · rename_i b bytes hread
      split at h
      · rename_i hover
        cases h
        obtain ⟨hlt, heq⟩ := buffered_fill r.readAt hwait hreads
        exact .inr (.inr (.inr ⟨rfl, c.reads.length, hlt, by rw [heq]; exact hover⟩))
      · exact recvOne_outcome hchunks (fun r' hr' => hpeace r' (List.mem_cons_of_mem _ hr'))
          (hs.fill _ _) h hreads

end Stream

/-! ## Sessions -/

/-- The message a call has returned. -/
def delivered : RecvOutcome → Option Envelope
  | .ok m => m
  | .error _ => none

theorem session_cons {H : Digests} {call : RecvCall} {calls : List RecvCall} {c c' : Connection}
    {results : List RecvOutcome} (h : session H c (call :: calls) = some (results, c')) :
    ∃ res c₁ more, recvOne H call.perTimeout call.start c call.rounds = some (res, c₁) ∧
      session H c₁ calls = some (more, c') ∧ results = res :: more := by
  simp only [session] at h
  split at h
  · cases h
  · rename_i res c₁ hone
    obtain ⟨⟨more, c₂⟩, hmore, heq⟩ := Option.map_eq_some_iff.mp h
    cases heq
    exact ⟨res, c₁, more, hone, hmore, rfl⟩

theorem session_nil {H : Digests} {calls : List RecvCall} {c c' : Connection}
    (h : session H c calls = some ([], c')) : c = c' := by
  cases calls with
  | nil => cases h; rfl
  | cons call calls =>
    obtain ⟨res, c₁, more, -, -, heq⟩ := session_cons h
    cases heq

theorem session_reads {H : Digests} : ∀ {calls : List RecvCall} {c c' : Connection}
    {results : List RecvOutcome}, session H c calls = some (results, c') → c.reads <+: c'.reads
  | [], _, _, _, h => by cases h; exact List.prefix_rfl
  | _ :: _, _, _, _, h => by
    obtain ⟨res, c₁, more, hone, hmore, -⟩ := session_cons h
    exact (recvOne_reads hone).trans (session_reads hmore)

theorem session_append {H : Digests} {calls' : List RecvCall} {c₁ c₂ : Connection}
    {results' : List RecvOutcome} (h' : session H c₁ calls' = some (results', c₂)) :
    ∀ {calls : List RecvCall} {c : Connection} {results : List RecvOutcome},
    session H c calls = some (results, c₁) →
      session H c (calls ++ calls') = some (results ++ results', c₂)
  | [], _, _, h => by cases h; exact h'
  | call :: calls, c, results, h => by
    obtain ⟨res, c', more, hone, hmore, rfl⟩ := session_cons h
    simp only [List.cons_append, session, hone, session_append h' hmore, Option.map_some]

/-- No call has seen the hard deadline pass. -/
def OnTime (results : List RecvOutcome) : Prop := .error .hardDeadline ∉ results

/-- No round of the calls fails. -/
def Peaceful (calls : List RecvCall) : Prop := ∀ call ∈ calls, ∀ r ∈ call.rounds, r.Peaceful

/-- No read pushes the buffer over its limit. -/
def Fits (fs chunks : List (List Byte)) : Prop :=
  ∀ k < chunks.length, buffered fs chunks k ≤ recvLimit

/-- The calls return the messages in order, without an error: what is missing is still in the
    buffer or unread, and nothing is missing once a call has found nothing after the last read. -/
structure Returns (H : Digests) (msgs : List Envelope) (chunks : List (List Byte))
    (results : List RecvOutcome) (c : Connection) : Prop where
  ok : ∀ res ∈ results, ∃ m, res = .ok m
  order : ∃ left fs, msgs = results.filterMap delivered ++ left ∧
    List.Forall₂ (FrameOf H) left fs ∧
    c.recvBuf ++ (chunks.drop c.reads.length).flatten = fs.flatten ∧
    (c.reads = chunks → results.getLast? = some (.ok none) → left = [])

/-- Every session on the stream returns the messages. -/
def Delivers (H : Digests) (msgs : List Envelope) (chunks : List (List Byte)) : Prop :=
  ∀ calls results c, session H {} calls = some (results, c) → Peaceful calls → OnTime results →
    c.reads <+: chunks → Returns H msgs chunks results c

section Deliver
variable {H : Digests} {fs chunks : List (List Byte)}

/-- What has not been returned yet is in the buffer and the unread chunks. -/
theorem Synced.missing {xs : List Envelope} {c : Connection} (hchunks : chunks.flatten = fs.flatten)
    (hs : Synced H fs xs c) (hreads : c.reads <+: chunks) : ∃ rest,
      List.Forall₂ (FrameOf H) xs rest ∧
        c.recvBuf ++ (chunks.drop c.reads.length).flatten = rest.flatten := by
  obtain ⟨past, rest, rfl, hleft, hstream⟩ := hs
  obtain ⟨more, rfl⟩ := hreads
  refine ⟨rest, hleft, ?_⟩
  rw [List.drop_left]
  rw [List.flatten_append, List.flatten_append, hstream, List.append_assoc] at hchunks
  exact List.append_cancel_left hchunks

/-- Nothing is missing when everything is read and the buffer holds no frame. -/
theorem Synced.finished {xs : List Envelope} {c : Connection} (hchunks : chunks.flatten = fs.flatten)
    (hs : Synced H fs xs c) (hreads : c.reads = chunks)
    (hwait : tryParseEnvelope H c.recvBuf = (.ok none, c.recvBuf)) : xs = [] := by
  obtain ⟨rest, hleft, hmissing⟩ := hs.missing hchunks (hreads ▸ List.prefix_rfl)
  rw [hreads, List.drop_length, List.flatten_nil, List.append_nil] at hmissing
  cases hleft with
  | nil => rfl
  | @cons x f xs rest hf _ =>
    rw [tryParseEnvelope_take_iff.mpr ⟨f, hf, hmissing⟩] at hwait
    cases hwait

/-- **Sessions** return the next messages, as long as nothing overflows. -/
theorem session_returns (hchunks : chunks.flatten = fs.flatten) (hfits : Fits fs chunks) :
    ∀ {calls : List RecvCall} {c c' : Connection} {results : List RecvOutcome} {xs : List Envelope},
    Synced H fs xs c → session H c calls = some (results, c') → Peaceful calls → OnTime results →
    c'.reads <+: chunks → Returns H xs chunks results c'
  | [], c, c', results, xs, hs, h, _, _, hreads => by
    cases h
    obtain ⟨rest, hleft, hmissing⟩ := hs.missing hchunks hreads
    exact ⟨fun res hres => (by cases hres), xs, rest, rfl, hleft, hmissing, fun _ h => (by cases h)⟩
  | call :: calls, c, c', results, xs, hs, h, hpeace, hhard, hreads => by
    obtain ⟨res, c₁, more, hone, hmore, rfl⟩ := session_cons h
    have hpeace' : Peaceful calls := fun k hk => hpeace k (List.mem_cons_of_mem _ hk)
    have hhard' : OnTime more := fun hm => hhard (List.mem_cons_of_mem _ hm)
    rcases recvOne_outcome hchunks (hpeace call (List.mem_cons_self ..)) hs hone
        ((session_reads hmore).trans hreads) with rfl | ⟨rfl, hs', hwait⟩ |
      ⟨x, xs', rfl, rfl, hs'⟩ | ⟨-, k, hk, hover⟩
    · exact absurd (List.mem_cons_self ..) hhard
    · obtain ⟨hok, left, fs', hmsgs, hfs, hmissing, hend⟩ :=
        session_returns hchunks hfits hs' hmore hpeace' hhard' hreads
      refine ⟨fun res hres => ?_, left, fs', hmsgs, hfs, hmissing, fun hall hlast => ?_⟩
      · rcases List.mem_cons.mp hres with rfl | hres
        · exact ⟨none, rfl⟩
        · exact hok res hres
      · cases more with
        | nil =>
          obtain rfl := session_nil hmore
          have hnone : xs = [] := hs'.finished hchunks hall hwait
          rw [hnone] at hmsgs
          exact (List.append_eq_nil_iff.mp hmsgs.symm).2
        | cons r more => exact hend hall (by simpa using hlast)
    · obtain ⟨hok, left, fs', hmsgs, hfs, hmissing, hend⟩ :=
        session_returns hchunks hfits hs' hmore hpeace' hhard' hreads
      refine ⟨fun res hres => ?_, left, fs', by rw [hmsgs]; rfl, hfs, hmissing, fun hall hlast => ?_⟩
      · rcases List.mem_cons.mp hres with rfl | hres
        · exact ⟨some x, rfl⟩
        · exact hok res hres
      · cases more with
        | nil => cases hlast
        | cons r more => exact hend hall (by simpa using hlast)
    · exact absurd (hfits k hk) (by omega)

/-! ### A session that reads chunk by chunk -/

/-- A call at time zero whose reads return `reads`. -/
def eager (reads : List ReadResult) : RecvCall := ⟨1, 0, reads.map fun r => { read := r }⟩

theorem hardRemaining_zero (c : Connection) : c.hardRemaining 0 ≠ 0 := by
  unfold Connection.hardRemaining envelopeHardTimeout
  split <;> omega

/-- A call on an empty socket takes the next message, if it has arrived. -/
theorem recvOne_idle {xs : List Envelope} {c : Connection} (hchunks : chunks.flatten = fs.flatten)
    (hs : Synced H fs xs c) (hreads : c.reads <+: chunks) : ∃ m c',
      recvOne H 1 0 c [{ read := .timedOut }] = some (.ok m, c') ∧ c'.reads = c.reads ∧
        ((m = none ∧ c' = c ∧ tryParseEnvelope H c.recvBuf = (.ok none, c.recvBuf)) ∨
          ∃ x xs', m = some x ∧ xs = x :: xs' ∧ Synced H fs xs' c') := by
  rcases hs.ahead hchunks hreads with ⟨x, xs', v, rfl, hparse, hs'⟩ | ⟨hparse, -⟩
  · refine ⟨some x, c.deliver x v 0, ?_, rfl, .inr ⟨x, xs', rfl, rfl, hs' 0⟩⟩
    simp only [recvOne, hparse]
  · refine ⟨none, c, ?_, rfl, .inl ⟨rfl, rfl, hparse⟩⟩
    simp only [recvOne, hparse, if_neg (hardRemaining_zero c)]
    rfl

/-- A call that finds no frame reads. -/
theorem recvOne_fill {c : Connection} (hparse : tryParseEnvelope H c.recvBuf = (.ok none, c.recvBuf))
    {bytes : List Byte} (hbytes : bytes ≠ []) (rounds : List Round) :
    recvOne H 1 0 c ({ read := .data bytes } :: rounds) =
      if recvLimit < (c.fill bytes 0).recvBuf.length then some (.error .bufferLimit, c.fill bytes 0)
      else recvOne H 1 0 (c.fill bytes 0) rounds := by
  obtain ⟨b, bytes, rfl⟩ := List.exists_cons_of_ne_nil hbytes
  simp only [recvOne, hparse, if_neg (hardRemaining_zero c)]
  rfl

/-- A session to a connection that waits for the next chunk. -/
structure Pumped (H : Digests) (fs : List (List Byte)) (c c' : Connection)
    (read : List (List Byte)) : Prop where
  run : ∃ calls results, session H c calls = some (results, c') ∧ Peaceful calls ∧ OnTime results
  reads : c'.reads = c.reads ++ read
  synced : ∃ xs, Synced H fs xs c'
  waits : tryParseEnvelope H c'.recvBuf = (.ok none, c'.recvBuf)

theorem Pumped.trans {c c₁ c₂ : Connection} {read read' : List (List Byte)}
    (h : Pumped H fs c c₁ read) (h' : Pumped H fs c₁ c₂ read') :
    Pumped H fs c c₂ (read ++ read') := by
  obtain ⟨calls, results, hrun, hpeace, htime⟩ := h.run
  obtain ⟨calls', results', hrun', hpeace', htime'⟩ := h'.run
  refine ⟨⟨calls ++ calls', results ++ results', session_append hrun' hrun, ?_, ?_⟩, ?_, h'.synced,
    h'.waits⟩
  · intro call hcall
    rcases List.mem_append.mp hcall with hcall | hcall
    · exact hpeace call hcall
    · exact hpeace' call hcall
  · intro hmem
    rcases List.mem_append.mp hmem with hmem | hmem
    · exact htime hmem
    · exact htime' hmem
  · rw [h'.reads, h.reads, List.append_assoc]

/-- A call before a session. -/
theorem Pumped.cons (reads : List ReadResult) {c c₁ c₂ : Connection} {read : List (List Byte)}
    {m : Option Envelope}
    (hone : recvOne H 1 0 c (reads.map fun r => { read := r }) = some (.ok m, c₁))
    (hpeace : ∀ r ∈ reads, ∀ e, r ≠ .failed e ∧ r ≠ .data [])
    (h : Pumped H fs c₁ c₂ []) (hread : c₁.reads = c.reads ++ read) : Pumped H fs c c₂ read := by
  obtain ⟨calls, results, hrun, hpeace', htime⟩ := h.run
  refine ⟨⟨eager reads :: calls, .ok m :: results, ?_, ?_, ?_⟩, ?_, h.synced, h.waits⟩
  · have hone' : recvOne H (eager reads).perTimeout (eager reads).start c (eager reads).rounds =
        some (.ok m, c₁) := hone
    simp only [session, hone', hrun, Option.map_some]
  · intro call hcall r hr
    rcases List.mem_cons.mp hcall with rfl | hcall
    · obtain ⟨r', hr', rfl⟩ := List.mem_map.mp hr
      unfold Round.Peaceful
      cases r' with
      | timedOut => trivial
      | failed e => exact absurd rfl (hpeace _ hr' e).1
      | data bytes =>
        rintro rfl
        exact absurd rfl (hpeace _ hr' { kind := .other }).2
    · exact hpeace' call hcall r hr
  · intro hmem
    rcases List.mem_cons.mp hmem with heq | hmem
    · cases heq
    · exact htime hmem
  · rw [h.reads, hread, List.append_nil]

theorem Pumped.nil {xs : List Envelope} {c : Connection} (hs : Synced H fs xs c)
    (hwait : tryParseEnvelope H c.recvBuf = (.ok none, c.recvBuf)) : Pumped H fs c c [] where
  run := ⟨[], [], rfl, fun _ h => (by cases h), fun h => (by cases h)⟩
  reads := (List.append_nil _).symm
  synced := ⟨xs, hs⟩
  waits := hwait

/-- Everything that has arrived can be taken off the buffer. -/
theorem exists_drained (hchunks : chunks.flatten = fs.flatten) : ∀ {xs : List Envelope}
    {c : Connection}, Synced H fs xs c → c.reads <+: chunks → ∃ c', Pumped H fs c c' [] := by
  intro xs
  induction xs with
  | nil =>
    intro c hs hreads
    obtain ⟨m, c', -, -, ⟨-, -, hwait⟩ | ⟨x, xs', -, hnil, -⟩⟩ := recvOne_idle hchunks hs hreads
    · exact ⟨c, .nil hs hwait⟩
    · cases hnil
  | cons x xs ih =>
    intro c hs hreads
    obtain ⟨m, c₁, hone, hsame, ⟨-, -, hwait⟩ | ⟨x', xs', -, heq, hs'⟩⟩ :=
      recvOne_idle hchunks hs hreads
    · exact ⟨c, .nil hs hwait⟩
    · cases heq
      obtain ⟨c', hpump⟩ := ih hs' (by rw [hsame]; exact hreads)
      refine ⟨c', .cons [.timedOut] hone ?_ hpump (by rw [hsame, List.append_nil])⟩
      intro r hr e
      rw [List.mem_singleton.mp hr]
      exact ⟨nofun, nofun⟩

/-- The next chunk can be read, if it fits. -/
theorem exists_read (hchunks : chunks.flatten = fs.flatten) {xs : List Envelope} {c : Connection}
    {bytes : List Byte} (hs : Synced H fs xs c)
    (hwait : tryParseEnvelope H c.recvBuf = (.ok none, c.recvBuf)) (hbytes : bytes ≠ [])
    (hreads : c.reads ++ [bytes] <+: chunks)
    (hroom : (c.fill bytes 0).recvBuf.length ≤ recvLimit) : ∃ c', Pumped H fs c c' [bytes] := by
  have hs₁ : Synced H fs xs (c.fill bytes 0) := hs.fill bytes 0
  obtain ⟨m, c₁, hidle, hsame, hcase⟩ := recvOne_idle hchunks hs₁ hreads
  have hone : recvOne H 1 0 c ([.data bytes, .timedOut].map fun r => { read := r }) =
      some (.ok m, c₁) := by
    show recvOne H 1 0 c ({ read := .data bytes } :: [{ read := .timedOut }]) = _
    rw [recvOne_fill hwait hbytes, if_neg (by omega), hidle]
  have hreads₁ : c₁.reads <+: chunks := by rw [hsame]; exact hreads
  obtain ⟨c', hpump⟩ : ∃ c', Pumped H fs c₁ c' [] := by
    rcases hcase with ⟨-, rfl, -⟩ | ⟨x, xs', -, -, hs'⟩
    · exact exists_drained hchunks hs₁ hreads₁
    · exact exists_drained hchunks hs' hreads₁
  refine ⟨c', .cons [.data bytes, .timedOut] hone ?_ hpump hsame⟩
  intro r hr e
  rcases List.mem_cons.mp hr with rfl | hr
  · exact ⟨nofun, fun h => hbytes (by cases h; rfl)⟩
  · rw [List.mem_singleton.mp hr]
    exact ⟨nofun, nofun⟩

/-- Every beginning of the stream that fits can be read. -/
theorem exists_pumped {xs : List Envelope} (hfs : List.Forall₂ (FrameOf H) xs fs)
    (hchunks : chunks.flatten = fs.flatten) (hne : ∀ w ∈ chunks, w ≠ []) : ∀ j ≤ chunks.length,
    (∀ k < j, buffered fs chunks k ≤ recvLimit) → ∃ c, Pumped H fs {} c (chunks.take j) := by
  intro j
  induction j with
  | zero =>
    intro _ _
    have hs : Synced H fs xs {} := ⟨[], fs, rfl, hfs, rfl⟩
    exact ⟨{}, .nil hs (framed H).idle⟩
  | succ j ih =>
    intro hj hfits
    obtain ⟨c, hpump⟩ := ih (by omega) fun k hk => hfits k (by omega)
    obtain ⟨xs', hs⟩ := hpump.synced
    have hall : c.reads = chunks.take j := by
      rw [hpump.reads]
      rfl
    have hnext : c.reads ++ [chunks[j]] = chunks.take (j + 1) := by
      rw [hall, List.take_succ_eq_append_getElem (by omega)]
    have hreads : c.reads ++ [chunks[j]] <+: chunks := by
      rw [hnext]
      exact List.take_prefix ..
    have hlen : c.reads.length = j := by
      rw [hall, List.length_take]
      omega
    have hwait := hs.waiting hchunks ((List.prefix_append ..).trans hreads) hpump.waits
    obtain ⟨-, hbuf⟩ := buffered_fill 0 hwait hreads
    obtain ⟨c', hread⟩ := exists_read hchunks hs hpump.waits (hne _ (List.getElem_mem ..)) hreads
      (by rw [← hbuf, hlen]; exact hfits j (Nat.lt_succ_self j))
    refine ⟨c', ?_⟩
    rw [List.take_succ_eq_append_getElem (by omega)]
    exact hpump.trans hread

/-- A stream that does not fit has a session that ends in an error. -/
theorem not_delivers {xs : List Envelope} (hfs : List.Forall₂ (FrameOf H) xs fs)
    (hchunks : chunks.flatten = fs.flatten) (hne : ∀ w ∈ chunks, w ≠ []) (hover : ¬ Fits fs chunks) :
    ¬ Delivers H xs chunks := by
  intro hdel
  have hex : ∃ k, k < chunks.length ∧ recvLimit < buffered fs chunks k := by
    by_contra hno
    exact hover fun k hk => Nat.le_of_not_lt fun hlt => hno ⟨k, hk, hlt⟩
  classical
  obtain ⟨hk, hlimit⟩ := Nat.find_spec hex
  have hbefore : ∀ j < Nat.find hex, buffered fs chunks j ≤ recvLimit := fun j hj =>
    Nat.le_of_not_lt fun hlt => Nat.find_min hex hj ⟨by omega, hlt⟩
  generalize Nat.find hex = k at hk hlimit hbefore
  obtain ⟨c, hpump⟩ := exists_pumped hfs hchunks hne k (by omega) hbefore
  obtain ⟨xs', hs⟩ := hpump.synced
  have hall : c.reads = chunks.take k := by
    rw [hpump.reads]
    rfl
  have hnext : c.reads ++ [chunks[k]] = chunks.take (k + 1) := by
    rw [hall, List.take_succ_eq_append_getElem hk]
  have hreads : c.reads ++ [chunks[k]] <+: chunks := by
    rw [hnext]
    exact List.take_prefix ..
  have hlen : c.reads.length = k := by
    rw [hall, List.length_take]
    omega
  have hbytes := hne _ (List.getElem_mem hk)
  have hwait := hs.waiting hchunks ((List.prefix_append ..).trans hreads) hpump.waits
  obtain ⟨-, hbuf⟩ := buffered_fill 0 hwait hreads
  rw [hlen] at hbuf
  obtain ⟨calls, results, hrun, hpeace, htime⟩ := hpump.run
  have hone : session H c [eager [.data chunks[k]]] =
      some ([.error .bufferLimit], c.fill chunks[k] 0) := by
    have h := recvOne_fill hpump.waits hbytes []
    rw [if_pos (by rw [← hbuf]; exact hlimit)] at h
    have h' : recvOne H (eager [.data chunks[k]]).perTimeout (eager [.data chunks[k]]).start c
        (eager [.data chunks[k]]).rounds = some (.error .bufferLimit, c.fill chunks[k] 0) := h
    simp only [session, h', Option.map_some]
  have hret := hdel _ _ _ (session_append hone hrun) ?_ ?_ hreads
  · obtain ⟨m, hm⟩ := hret.ok (.error .bufferLimit) (by simp)
    cases hm
  · intro call hcall r hr
    rcases List.mem_append.mp hcall with hcall | hcall
    · exact hpeace call hcall r hr
    · rw [List.mem_singleton.mp hcall] at hr
      rw [List.mem_singleton.mp hr]
      exact hbytes
  · intro hmem
    rcases List.mem_append.mp hmem with hmem | hmem
    · exact htime hmem
    · rw [List.mem_singleton] at hmem
      cases hmem

/-- **Framing and chunking.**  Let the frames of the messages be cut into reads of 1 to 8192 bytes.
    Taken at once, the stream yields the messages; every session yields them, whatever timeouts
    fall between the reads, iff no read pushes the buffer over its limit. -/
theorem framing_iff {msgs : List Envelope} (hfs : List.Forall₂ (FrameOf H) msgs fs)
    (hchunks : chunks.flatten = fs.flatten) (hsize : ∀ w ∈ chunks, 1 ≤ w.length ∧ w.length ≤ 8192) :
    Drains (tryParseEnvelope H) chunks.flatten msgs [] ∧
      (Delivers H msgs chunks ↔ Fits fs chunks) := by
  have hne : ∀ w ∈ chunks, w ≠ [] := by
    rintro w hw rfl
    exact absurd (hsize _ hw).1 (by decide)
  constructor
  · have h := (framed H).drains hfs (.inl rfl)
    rwa [List.append_nil, ← hchunks] at h
  · constructor
    · intro hdel
      by_contra hover
      exact not_delivers hfs hchunks hne hover hdel
    · intro hfits calls results c hrun hpeace htime hreads
      exact session_returns hchunks hfits ⟨[], fs, rfl, hfs, rfl⟩ hrun hpeace htime hreads

end Deliver

/-- Two small messages, the second frame cut in two. -/
theorem framing_iff_pings : ∃ msgs fs chunks, List.Forall₂ (FrameOf .zero) msgs fs ∧
    chunks.flatten = fs.flatten ∧ msgs = [⟨"ping", [1]⟩, ⟨"verack", []⟩] ∧
    Delivers .zero msgs chunks := by
  have hframes : frame .zero "ping" [1] = .ok (magic ++ [112, 105, 110, 103, 0, 0, 0, 0, 0, 0, 0, 0,
      1, 0, 0, 0, 0, 0, 0, 0, 1]) ∧ frame .zero "verack" [] = .ok (magic ++ [118, 101, 114, 97, 99, 107,
      0, 0, 0, 0, 0, 0, 0, 0, 0, 0, 0, 0, 0, 0]) := by decide
  let chunks : List (List Byte) := [magic ++ [112, 105, 110, 103, 0, 0, 0, 0, 0, 0, 0, 0,
      1, 0, 0, 0, 0, 0, 0, 0, 1] ++ magic, [118, 101, 114, 97, 99, 107, 0, 0, 0, 0, 0, 0, 0, 0, 0, 0,
      0, 0, 0, 0]]
  have hfs : List.Forall₂ (FrameOf .zero) [⟨"ping", [1]⟩, ⟨"verack", []⟩] [_, _] :=
    .cons hframes.1 (.cons hframes.2 .nil)
  have hall := @framing_iff _ _ chunks _ hfs (by decide) (by decide)
  exact ⟨_, _, chunks, hfs, by decide, rfl, hall.2.mpr (by unfold Fits; decide)⟩

/-! ## A read over the limit -/

/-- Pieces of `n` bytes, `k` of them, and the rest. -/
def cutEvery (n : Nat) : Nat → List Byte → List (List Byte)
  | 0, w => [w]
  | k + 1, w => w.take n :: cutEvery n k (w.drop n)

theorem length_cutEvery (n k : Nat) (w : List Byte) : (cutEvery n k w).length = k + 1 := by
  induction k generalizing w with
  | zero => rfl
  | succ k ih => rw [cutEvery, List.length_cons, ih]

theorem flatten_cutEvery (n k : Nat) (w : List Byte) : (cutEvery n k w).flatten = w := by
  induction k generalizing w with
  | zero => simp [cutEvery]
  | succ k ih => rw [cutEvery, List.flatten_cons, ih, List.take_append_drop]

theorem flatten_take_cutEvery (n k : Nat) (w : List Byte) :
    ((cutEvery n k w).take k).flatten = w.take (n * k) := by
  induction k generalizing w with
  | zero => simp
  | succ k ih =>
    rw [cutEvery, List.take_succ_cons, List.flatten_cons, ih, Nat.mul_succ, Nat.add_comm,
      List.take_add]

theorem sized_cutEvery {n k : Nat} {w : List Byte} (hn : 1 ≤ n) (hlow : n * k < w.length)
    (hhigh : w.length ≤ n * (k + 1)) : ∀ u ∈ cutEvery n k w, 1 ≤ u.length ∧ u.length ≤ n := by
  induction k generalizing w with
  | zero =>
    intro u hu
    rw [List.mem_singleton.mp hu]
    omega
  | succ k ih =>
    have hstep : n * (k + 1) = n * k + n := Nat.mul_succ n k
    have hstep' : n * (k + 1 + 1) = n * (k + 1) + n := Nat.mul_succ n (k + 1)
    intro u hu
    rcases List.mem_cons.mp hu with rfl | hu
    · rw [List.length_take]
      omega
    · refine ih ?_ ?_ u hu
      · rw [List.length_drop]
        omega
      · rw [List.length_drop]
        omega

/-- The last piece ends the first frame, and everything is over the limit. -/
theorem not_fits_cutEvery {n k : Nat} {f w : List Byte} {fs : List (List Byte)}
    (hf : n * k < f.length) (hw : recvLimit < w.length) : ¬ Fits (f :: fs) (cutEvery n k w) := by
  intro hfits
  have hlast := hfits k (by rw [length_cutEvery]; exact Nat.lt_succ_self k)
  have hall : (cutEvery n k w).take (k + 1) = cutEvery n k w :=
    List.take_of_length_le (by rw [length_cutEvery])
  have hnone : completed (f :: fs) ((cutEvery n k w).take k).flatten.length = 0 := by
    rw [flatten_take_cutEvery, List.length_take, completed, if_neg (by omega)]
  unfold buffered at hlast
  rw [hall, hnone, flatten_cutEvery] at hlast
  omega

/-- The bytes of a message. -/
def frameBytes (H : Digests) (env : Envelope) : List Byte :=
  magic ++ (commandField env.command ++ (leBytes 4 env.payload.length ++
    (checksum H env.payload ++ env.payload)))

theorem length_frameBytes {H : Digests} {env : Envelope}
    (h : validateCommand env.command = .ok ()) :
    (frameBytes H env).length = 24 + env.payload.length := by
  unfold frameBytes
  rw [List.length_append, List.length_append, List.length_append, List.length_append,
    length_commandField h, leBytes_length, length_checksum]
  show 4 + _ = _
  omega

/-- A message of maximal size. -/
def largest : Envelope := ⟨"block", List.replicate maxProtocolMessageLength 0⟩

/-- A message of 4,000,000 bytes, directly followed by `verack`, read 8192 bytes at a time. -/
theorem coalesced_read_overflows : ∃ fs chunks,
    List.Forall₂ (FrameOf .zero) [largest, ⟨"verack", []⟩] fs ∧ chunks.flatten = fs.flatten ∧
    (∀ w ∈ chunks, 1 ≤ w.length ∧ w.length ≤ 8192) ∧
    ¬ Delivers .zero [largest, ⟨"verack", []⟩] chunks := by
  have hpayload : largest.payload.length = 4000000 := by
    unfold largest maxProtocolMessageLength
    rw [List.length_replicate]
  have hbig : (frameBytes .zero largest).length = 4000024 := by
    rw [length_frameBytes (by decide), hpayload]
  have hsmall : (frameBytes .zero ⟨"verack", []⟩).length = 24 := length_frameBytes (by decide)
  have hfs : List.Forall₂ (FrameOf .zero) [largest, ⟨"verack", []⟩]
      [frameBytes .zero largest, frameBytes .zero ⟨"verack", []⟩] := by
    refine .cons (frame_ok_iff.mpr ⟨by decide, ?_, rfl⟩) (.cons (frame_ok_iff.mpr ⟨by decide, ?_, rfl⟩)
      .nil)
    · rw [hpayload]
      exact Nat.le_refl _
    · exact Nat.zero_le _
  generalize frameBytes .zero largest = big at hbig hfs
  generalize frameBytes .zero ⟨"verack", []⟩ = small at hsmall hfs
  have hw : (big ++ small).length = 4000048 := by
    rw [List.length_append, hbig, hsmall]
  have hsized : ∀ u ∈ cutEvery 8192 488 (big ++ small), 1 ≤ u.length ∧ u.length ≤ 8192 :=
    sized_cutEvery (by decide) (by rw [hw]; decide) (by rw [hw]; decide)
  have hchunks : (cutEvery 8192 488 (big ++ small)).flatten = [big, small].flatten := by
    rw [flatten_cutEvery, List.flatten_cons, List.flatten_singleton]
  refine ⟨_, _, hfs, hchunks, hsized, not_delivers hfs hchunks ?_ (not_fits_cutEvery ?_ ?_)⟩
  · rintro u hu rfl
    exact absurd (hsized _ hu).1 (by decide)
  · rw [hbig]
    decide
  · rw [hw]
    decide

end P2PCrawler
