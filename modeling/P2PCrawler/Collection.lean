import P2PCrawler.AddrMessage
import P2PCrawler.Connection

/-!
# Collecting addresses against a clock (`getaddr` in `crawler.rs`)

After `getaddr` is sent, the loop waits for the peer's next message for the idle time, or for
what is left until the hard deadline where that is less, and reads off the way a wait ended why
the collection ended.  Here the waits run against a clock in milliseconds: what the peer sends
arrives at given times, statements take no time, and handling a message takes as long as it
takes.

* `recvAt` — one receive against the clock; `recvAt_recvOne` says which untimed one it is.
* `collectStep`, `collectLoop`, `getaddr` — one pass of the loop, the loop, the collection.
* `Quiet`, `Truthful` — what a collection's outcome says about the peer's silence and about the
  deadline.
* `recvAt_none` — how long a wait that runs out has lasted.
* `truthful_iff` — a collection is truthful iff none of its waits that run out was cut short.
* `late_message_no_response` — a message shortly before the deadline is enough to cut one short.
-/

set_option autoImplicit false

namespace P2PCrawler

/-! ## Receiving -/

/-- Something arrives on the socket: bytes, the end of the stream, or an error. -/
structure Arrival where
  time : Nat
  read : Except IoError (List Byte)
  deriving DecidableEq, Repr

/-- What a receive leaves behind. -/
structure Received where
  result : RecvOutcome
  conn : Connection
  now : Nat
  arrivals : List Arrival

/-- `recv_one` from `now` on, with `call_deadline` given and what is still to arrive. -/
def recvAt (H : Digests) (deadline : Nat) : Connection → Nat → List Arrival → Received
  | c, now, arrivals =>
    match tryParseEnvelope H c.recvBuf with
    | (.error e, _) => ⟨.error (.envelope e), c, now, arrivals⟩
    | (.ok (some env), rest) => ⟨.ok (some env), c.deliver env rest now, now, arrivals⟩
    | (.ok none, _) =>
      if c.hardRemaining now = 0 then ⟨.error .hardDeadline, c, now, arrivals⟩
      else if deadline - now = 0 then ⟨.ok none, c, now, arrivals⟩
      else
        let limit := now + min (deadline - now) (c.hardRemaining now)
        match arrivals with
        | [] => ⟨.ok none, c, limit, []⟩
        | a :: rest =>
          -- a read returns at once what has arrived before it
          if limit < a.time then ⟨.ok none, c, limit, a :: rest⟩
          else match a.read with
            | .error e => ⟨.error (.io e), c, max now a.time, rest⟩
            | .ok [] => ⟨.error .closed, c, max now a.time, rest⟩
            | .ok (b :: bytes) =>
              let c := c.fill (b :: bytes) (max now a.time)
              if recvLimit < c.recvBuf.length then ⟨.error .bufferLimit, c, max now a.time, rest⟩
              else recvAt H deadline c (max now a.time) rest

/-! ## The loop -/

/-- How the handling of one message goes. -/
structure Handling where
  /-- how long it takes -/
  busy : Nat := 0
  /-- the address log takes the event, or there is none -/
  logged : Bool := true
  /-- the error of sending a pong -/
  pongFault : Option IoError := none
  deriving DecidableEq, Repr

/-- The loop between two passes. -/
structure Collecting where
  /-- `valid_messages` -/
  valid : Nat
  conn : Connection
  now : Nat
  arrivals : List Arrival

/-- How a collection has ended. -/
structure CollectionEnd where
  outcome : CollectionOutcome
  /-- what the last pass saw -/
  last : Option CollectEvent
  /-- the clock at the head of the last pass -/
  since : Nat
  /-- the clock at the end -/
  now : Nat
  deriving DecidableEq, Repr

/-- The limits of one collection, on its clock. -/
structure Limits where
  start : Nat
  /-- `hard_deadline` -/
  hard : Nat
  /-- `idle` -/
  idle : Nat
  deriving DecidableEq, Repr

/-- The limits of a collection whose request was sent at `start`. -/
def Timeouts.limits (t : Timeouts) (start : Nat) : Limits where
  start := start
  hard := start + 1000 * t.getaddr
  idle := 1000 * t.getaddrIdle

/-- An `addr` or `addrv2` message. -/
def addrEvent (command : AddrCommand) (payload : List Byte) :
    Except AddrParseError ParsedAddrMessage → CollectEvent
  | .ok parsed => .message command parsed
  | .error e => .malformed command e payload

/-- What a receive means to the loop, and the connection once a ping is answered. -/
def collectEvent (H : Digests) (version : Int) (pongFault : Option IoError) (result : RecvOutcome)
    (c : Connection) : CollectEvent × Connection :=
  match result with
  | .ok (some env) =>
    if env.command = "addr" then (addrEvent .addr env.payload (parseAddr env.payload), c)
    else if env.command = "addrv2" then
      (addrEvent .addrv2 env.payload (parseAddrv2 H env.payload), c)
    else if env.command = "ping" then
      match c.answerPing H env.payload version pongFault with
      | .ok c => (.ping none, c)
      | .error e => (.ping (some e.toIo), c)
    else (.skip, c)
  | .ok none => (.quiet c.hasPartialEnvelope, c)
  | .error e => (.error e.toIo, c)

/-- `call_deadline` of the receive of a pass. -/
def Collecting.deadline (L : Limits) (s : Collecting) : Nat := s.now + min (L.hard - s.now) L.idle

/-- The receive of a pass. -/
def Collecting.received (H : Digests) (L : Limits) (s : Collecting) : Received :=
  recvAt H (s.deadline L) s.conn s.now s.arrivals

/-- What a pass does with what it has seen. -/
def Collecting.handle (h : Handling) (s : Collecting) (r : Received) (event : CollectEvent)
    (c : Connection) : CollectionEnd ⊕ Collecting :=
  match collect s.valid event with
  | .again => .inr ⟨s.valid, c, r.now + h.busy, r.arrivals⟩
  | .ended outcome => .inl ⟨outcome, some event, s.now, r.now⟩
  | .malformed _ _ _ =>
    .inl ⟨if h.logged then .orPartial s.valid .malformedResponse .partialMalformedResponse
      else .logFailed, some event, s.now, r.now + h.busy⟩
  | .message _ parsed =>
    if !h.logged then .inl ⟨.logFailed, some event, s.now, r.now + h.busy⟩
    else if isGetaddrReplyComplete parsed.addrs.length then
      .inl ⟨.completeQuiet, some event, s.now, r.now + h.busy⟩
    else .inr ⟨s.valid + 1, c, r.now + h.busy, r.arrivals⟩

/-- One pass of the loop. -/
def collectStep (H : Digests) (L : Limits) (version : Int) (h : Handling) (s : Collecting) :
    CollectionEnd ⊕ Collecting :=
  if L.hard ≤ s.now then
    .inl ⟨.orPartial s.valid .hardTimeout .partialHardTimeout, some .expired, s.now, s.now⟩
  else
    let r := s.received H L
    let seen := collectEvent H version h.pongFault r.result r.conn
    s.handle h r seen.1 seen.2

/-- The loop, with the handling of each pass; `none` while it goes on. -/
def collectLoop (H : Digests) (L : Limits) (version : Int) :
    List Handling → Collecting → Option CollectionEnd
  | [], _ => none
  | h :: hs, s =>
    match collectStep H L version h s with
    | .inl e => some e
    | .inr s => collectLoop H L version hs s

/-- The states at the head of each pass. -/
def heads (H : Digests) (L : Limits) (version : Int) : List Handling → Collecting → List Collecting
  | [], _ => []
  | h :: hs, s =>
    s :: match collectStep H L version h s with
      | .inl _ => []
      | .inr s => heads H L version hs s

/-- The connection knows since when a frame is incomplete, exactly where one is. -/
inductive Connection.Stamped (c : Connection) (now : Nat) : Prop where
  | idle (hbuf : c.recvBuf = []) (hframe : c.frameStarted = none)
  | begun (hbuf : c.recvBuf ≠ []) (f : Nat) (hf : f ≤ now) (hframe : c.frameStarted = some f)

/-- What a collection is given: the timeouts, the peer's negotiated version, the connection, the
    clock when the request is sent and what happens then. -/
structure Request where
  timeouts : Timeouts
  version : Int
  conn : Connection
  start : Nat
  sendFault : Option IoError := none
  handling : List Handling
  arrivals : List Arrival
  stamped : conn.Stamped start
  ordered : arrivals.Pairwise fun a b => a.time ≤ b.time

namespace Request

def limits (q : Request) : Limits := q.timeouts.limits q.start

/-- The state after `getaddr` was sent. -/
def begun (q : Request) (c : Connection) : Collecting := ⟨0, c, q.start, q.arrivals⟩

/-- `getaddr`. -/
def getaddr (H : Digests) (q : Request) : Option CollectionEnd :=
  match q.conn.send H "getaddr" [] q.sendFault with
  | .error _ => some ⟨.sendFailed, none, q.start, q.start⟩
  | .ok c => collectLoop H q.limits q.version q.handling (q.begun c)

/-- The states at the head of each pass of its loop. -/
def heads (H : Digests) (q : Request) : List Collecting :=
  match q.conn.send H "getaddr" [] q.sendFault with
  | .error _ => []
  | .ok c => P2PCrawler.heads H q.limits q.version q.handling (q.begun c)

end Request

/-! ## One receive -/

namespace Connection.Stamped
variable {c : Connection} {now : Nat}

theorem later {now' : Nat} (h : c.Stamped now) (hle : now ≤ now') : c.Stamped now' := by
  cases h with
  | idle hbuf hframe => exact .idle hbuf hframe
  | begun hbuf f hf hframe => exact .begun hbuf f (hf.trans hle) hframe

theorem deliver (c : Connection) (env : Envelope) (rest : List Byte) (now : Nat) :
    (c.deliver env rest now).Stamped now := by
  cases rest with
  | nil => exact .idle rfl rfl
  | cons b rest => exact .begun (List.cons_ne_nil b rest) now (Nat.le_refl _) rfl

theorem fill {now' : Nat} (h : c.Stamped now) (hle : now ≤ now') (b : Byte) (bytes : List Byte) :
    (c.fill (b :: bytes) now').Stamped now' := by
  have hbuf' : c.recvBuf ++ b :: bytes ≠ [] := by simp
  cases h with
  | idle hbuf hframe =>
    refine .begun hbuf' now' (Nat.le_refl _) ?_
    show (if c.recvBuf.isEmpty then some now' else c.frameStarted) = some now'
    rw [hbuf]
    rfl
  | begun hbuf f hf hframe =>
    refine .begun hbuf' f (hf.trans hle) ?_
    show (if c.recvBuf.isEmpty then some now' else c.frameStarted) = some f
    rw [hframe]
    simp [hbuf]

end Connection.Stamped

/-- What every receive keeps: time passes, and what it has taken off the socket has arrived. -/
structure Received.After (now : Nat) (arrivals : List Arrival) (r : Received) :
    Prop where
  later : now ≤ r.now
  stamped : r.conn.Stamped r.now
  taken : ∃ past, arrivals = past ++ r.arrivals ∧ ∀ a ∈ past, a.time ≤ r.now

namespace Received.After
variable {c : Connection} {now now' : Nat} {a : Arrival} {arrivals rest : List Arrival}

/-- Nothing is taken. -/
theorem here {result : RecvOutcome} (hle : now ≤ now') (hc : c.Stamped now') :
    Received.After now arrivals ⟨result, c, now', arrivals⟩ :=
  ⟨hle, hc, [], rfl, fun _ ha => absurd ha List.not_mem_nil⟩

/-- One arrival is taken, and then more. -/
theorem taking {r : Received} (h : r.After (max now a.time) rest) : r.After now (a :: rest) := by
  obtain ⟨past, hpast, hat⟩ := h.taken
  have hle := h.later
  refine ⟨by omega, h.stamped, a :: past, by rw [hpast]; rfl, fun a' ha' => ?_⟩
  rcases List.mem_cons.mp ha' with rfl | ha'
  · omega
  · exact hat a' ha'

end Received.After

section Receive
variable {H : Digests} {deadline : Nat}

/-- The receive reads: no frame is complete, and there is time left. -/
structure Reads (H : Digests) (deadline : Nat) (c : Connection) (now : Nat) : Prop where
  incomplete : (tryParseEnvelope H c.recvBuf).1 = .ok none
  frame : c.hardRemaining now ≠ 0
  call : now < deadline

/-- When a read is given up. -/
def readLimit (deadline : Nat) (c : Connection) (now : Nat) : Nat :=
  now + min (deadline - now) (c.hardRemaining now)

/-- What a receive does, round by round. -/
inductive Receives (H : Digests) (deadline : Nat) :
    Connection → Nat → List Arrival → Received → Prop
  | failed (e : ConnError) (c : Connection) (now : Nat) (arrivals : List Arrival) :
    Receives H deadline c now arrivals ⟨.error e, c, now, arrivals⟩
  | message (env : Envelope) (left : List Byte) (c : Connection) (now : Nat)
    (arrivals : List Arrival) :
    Receives H deadline c now arrivals ⟨.ok (some env), c.deliver env left now, now, arrivals⟩
  | expired (c : Connection) (now : Nat) (arrivals : List Arrival)
    (hframe : c.hardRemaining now ≠ 0) (hcall : deadline ≤ now) :
    Receives H deadline c now arrivals ⟨.ok none, c, now, arrivals⟩
  | silent (c : Connection) (now : Nat) (arrivals : List Arrival) (hreads : Reads H deadline c now)
    (hsilent : ∀ a ∈ arrivals.head?, readLimit deadline c now < a.time) :
    Receives H deadline c now arrivals ⟨.ok none, c, readLimit deadline c now, arrivals⟩
  | broken (e : ConnError) (c : Connection) (now : Nat) (a : Arrival) (rest : List Arrival) :
    Receives H deadline c now (a :: rest) ⟨.error e, c, max now a.time, rest⟩
  | overflow (c : Connection) (now : Nat) (a : Arrival) (rest : List Arrival) (b : Byte)
    (bytes : List Byte) :
    Receives H deadline c now (a :: rest)
      ⟨.error .bufferLimit, c.fill (b :: bytes) (max now a.time), max now a.time, rest⟩
  | read (c : Connection) (now : Nat) (a : Arrival) (rest : List Arrival) (b : Byte)
    (bytes : List Byte) (r : Received) (hreads : Reads H deadline c now)
    (hat : a.time ≤ readLimit deadline c now)
    (hrest : Receives H deadline (c.fill (b :: bytes) (max now a.time)) (max now a.time) rest r) :
    Receives H deadline c now (a :: rest) r

theorem recvAt_receives : ∀ (arrivals : List Arrival) (c : Connection) (now : Nat),
    Receives H deadline c now arrivals (recvAt H deadline c now arrivals)
  | arrivals, c, now => by
    unfold recvAt
    split
    · exact .failed ..
    · exact .message ..
    rename_i hparse
    split
    · exact .failed ..
    rename_i hframe
    split
    · exact .expired c now arrivals hframe (by omega)
    rename_i hcall
    have hreads : Reads H deadline c now := ⟨by rw [hparse], hframe, by omega⟩
    cases arrivals with
    | nil => exact .silent c now [] hreads nofun
    | cons a rest =>
      show Receives H deadline c now (a :: rest) (if readLimit deadline c now < a.time then _ else _)
      split
      · rename_i hlate
        refine .silent c now (a :: rest) hreads fun a' ha' => ?_
        rw [← Option.some.inj ha']
        exact hlate
      rename_i hat
      split
      · exact .broken ..
      · exact .broken ..
      · dsimp only
        split
        · exact .overflow ..
        · exact .read c now a rest _ _ _ hreads (Nat.le_of_not_lt hat) (recvAt_receives rest _ _)

/-- **The clock is one of the clocks** of the untimed receive. -/
theorem recvAt_recvOne {start perTimeout : Nat} : ∀ (arrivals : List Arrival) (c : Connection)
    (now : Nat), ∃ rounds, recvOne H perTimeout start c rounds =
      some ((recvAt H (start + perTimeout) c now arrivals).result,
        (recvAt H (start + perTimeout) c now arrivals).conn)
  | arrivals, c, now => by
    let round : ReadResult → Nat → Round := fun read readAt => ⟨now, now, now, read, readAt⟩
    unfold recvAt
    split
    · rename_i hparse
      refine ⟨[round .timedOut now], ?_⟩
      simp only [recvOne, hparse]
    · rename_i hparse
      refine ⟨[round .timedOut now], ?_⟩
      simp only [recvOne, hparse, round]
    rename_i hparse
    split
    · rename_i hframe
      refine ⟨[round .timedOut now], ?_⟩
      simp only [recvOne, hparse, round, if_pos hframe]
    rename_i hframe
    split
    · rename_i hcall
      refine ⟨[round .timedOut now], ?_⟩
      simp only [recvOne, hparse, round, if_neg hframe, if_pos hcall]
    rename_i hcall
    have hsilent : recvOne H perTimeout start c [round .timedOut now] = some (.ok none, c) := by
      simp only [recvOne, hparse, round, if_neg hframe, if_neg hcall]
    have hfailed : ∀ e, recvOne H perTimeout start c [round (.failed e) now] =
        some (.error (.io e), c) := by
      intro e
      simp only [recvOne, hparse, round, if_neg hframe, if_neg hcall]
    have hended : recvOne H perTimeout start c [round (.data []) now] =
        some (.error .closed, c) := by
      simp only [recvOne, hparse, round, if_neg hframe, if_neg hcall]
    have hfilled : ∀ b bytes readAt rounds,
        recvOne H perTimeout start c (round (.data (b :: bytes)) readAt :: rounds) =
          if recvLimit < (c.fill (b :: bytes) readAt).recvBuf.length then
            some (.error .bufferLimit, c.fill (b :: bytes) readAt)
          else recvOne H perTimeout start (c.fill (b :: bytes) readAt) rounds := by
      intro b bytes readAt rounds
      simp only [recvOne, hparse, round, if_neg hframe, if_neg hcall]
    cases arrivals with
    | nil => exact ⟨_, hsilent⟩
    | cons a rest =>
      show ∃ rounds, recvOne H perTimeout start c rounds = some
        ((if readLimit (start + perTimeout) c now < a.time then _ else _ : Received).result,
          (if readLimit (start + perTimeout) c now < a.time then _ else _ : Received).conn)
      split
      · exact ⟨_, hsilent⟩
      split
      · exact ⟨_, hfailed _⟩
      · exact ⟨_, hended⟩
      · rename_i b bytes _
        obtain ⟨rounds, hrounds⟩ := recvAt_recvOne rest (c.fill (b :: bytes) (max now a.time))
          (max now a.time)
        refine ⟨round (.data (b :: bytes)) (max now a.time) :: rounds, ?_⟩
        rw [hfilled]
        dsimp only
        split
        · rfl
        · exact hrounds

theorem Receives.after {arrivals : List Arrival} {c : Connection} {now : Nat} {r : Received}
    (h : Receives H deadline c now arrivals r) (hc : c.Stamped now) : r.After now arrivals := by
  induction h with
  | failed e c now arrivals => exact .here (Nat.le_refl _) hc
  | message env left c now arrivals => exact .here (Nat.le_refl _) (.deliver ..)
  | expired c now arrivals hframe hcall => exact .here (Nat.le_refl _) hc
  | silent c now arrivals hreads hsilent =>
    exact .here (Nat.le_add_right ..) (hc.later (Nat.le_add_right ..))
  | broken e c now a rest =>
    have hle := Nat.le_max_left now a.time
    exact .taking (.here (Nat.le_refl _) (hc.later hle))
  | overflow c now a rest b bytes =>
    have hle := Nat.le_max_left now a.time
    exact .taking (.here (Nat.le_refl _) (hc.fill hle b bytes))
  | read c now a rest b bytes r hreads hat hrest ih =>
    have hle := Nat.le_max_left now a.time
    exact .taking (ih (hc.fill hle b bytes))

/-- An unfinished frame stays unfinished, and the wait runs out at the deadline of the call or of
    the frame. -/
theorem Receives.none_begun {arrivals : List Arrival} {c : Connection} {now f : Nat} {r : Received}
    (h : Receives H deadline c now arrivals r) (hnone : r.result = .ok none)
    (hdeadline : now ≤ deadline) (hbuf : c.recvBuf ≠ []) (hframe : c.frameStarted = some f)
    (hf : f ≤ now) : r.conn.recvBuf ≠ [] ∧ r.conn.frameStarted = some f ∧
      r.now = min deadline (f + envelopeHardTimeout) := by
  have hrem : ∀ {c : Connection} {now : Nat}, c.frameStarted = some f →
      c.hardRemaining now = envelopeHardTimeout - (now - f) := by
    intro c now hframe
    unfold Connection.hardRemaining
    rw [hframe]
  induction h with
  | failed e c now arrivals => cases hnone
  | message env left c now arrivals => cases hnone
  | expired c now arrivals hleft hcall =>
    refine ⟨hbuf, hframe, ?_⟩
    rw [hrem hframe] at hleft
    show now = _
    omega
  | silent c now arrivals hreads hsilent =>
    refine ⟨hbuf, hframe, ?_⟩
    have hleft := hreads.frame
    show now + min (deadline - now) (c.hardRemaining now) = _
    rw [hrem hframe] at hleft ⊢
    omega
  | broken e c now a rest => cases hnone
  | overflow c now a rest b bytes => cases hnone
  | read c now a rest b bytes r hreads hat hrest ih =>
    have hcall := hreads.call
    unfold readLimit at hat
    refine ih hnone (by omega) (by simp [Connection.fill]) ?_ (by omega)
    show (if c.recvBuf.isEmpty then _ else c.frameStarted) = some f
    rw [hframe]
    simp [hbuf]

/-- **A wait that runs out** does so at the deadline of the call, or of the frame, or 120 seconds
    after it began on an idle connection; on an idle connection nothing has arrived by then. -/
theorem Receives.none {arrivals : List Arrival} {c : Connection} {now : Nat} {r : Received}
    (h : Receives H deadline c now arrivals r) (hnone : r.result = .ok none)
    (hdeadline : now < deadline) (hc : c.Stamped now) :
    r.now = min deadline (r.conn.frameStarted.getD now + envelopeHardTimeout) ∧
      (r.conn.recvBuf = [] → r.conn.frameStarted = none ∧ r.arrivals = arrivals ∧
        ∀ a ∈ arrivals.head?, r.now < a.time) := by
  cases hc with
  | begun hbuf f hf hframe =>
    obtain ⟨hbuf', hframe', hnow⟩ := h.none_begun hnone hdeadline.le hbuf hframe hf
    refine ⟨?_, fun hempty => absurd hempty hbuf'⟩
    rw [hnow, hframe']
    rfl
  | idle hbuf hframe =>
    cases h with
    | failed e c now arrivals => cases hnone
    | message env left c now arrivals => cases hnone
    | expired c now arrivals hleft hcall => omega
    | silent c now arrivals hreads hsilent =>
      refine ⟨?_, fun hempty => ⟨hframe, rfl, hsilent⟩⟩
      show now + min (deadline - now) (c.hardRemaining now) = _
      have hrem : c.hardRemaining now = envelopeHardTimeout := by
        unfold Connection.hardRemaining
        rw [hframe]
      rw [hrem, hframe]
      show _ = min deadline (now + envelopeHardTimeout)
      omega
    | broken e c now a rest => cases hnone
    | overflow c now a rest b bytes => cases hnone
    | read c now a rest b bytes r hreads hat hrest =>
      unfold readLimit at hat
      have hframe' : (c.fill (b :: bytes) (max now a.time)).frameStarted = some (max now a.time) := by
        show (if c.recvBuf.isEmpty then _ else _) = _
        rw [hbuf]
        rfl
      obtain ⟨hbuf', hstarted, hnow⟩ :=
        hrest.none_begun hnone (by omega) (by simp [Connection.fill]) hframe' (Nat.le_refl _)
      refine ⟨?_, fun hempty => absurd hempty hbuf'⟩
      rw [hnow, hstarted]
      rfl

end Receive

/-! ## Outcomes -/

/-- Nothing has arrived for a full idle interval of the collection. -/
def Quiet (L : Limits) (arrivals : List Arrival) (now : Nat) : Prop :=
  L.start + L.idle ≤ now ∧ ∀ a ∈ arrivals, a.time + L.idle ≤ now ∨ now < a.time

instance (L : Limits) (arrivals : List Arrival) (now : Nat) : Decidable (Quiet L arrivals now) :=
  inferInstanceAs (Decidable (_ ∧ _))

/-- The collection ended directly after a message with at least two addresses. -/
def CollectionEnd.AfterReply (e : CollectionEnd) : Prop :=
  ∃ command parsed, e.last = some (.message command parsed) ∧ 2 ≤ parsed.addrs.length

/-- The collection ended because the hard deadline was reached: before a wait, or in a wait that
    had not lasted the idle time. -/
def CollectionEnd.ByDeadline (L : Limits) (e : CollectionEnd) : Prop :=
  e.last = some .expired ∨
    (∃ unfinished, e.last = some (.quiet unfinished)) ∧ L.hard ≤ e.now ∧ e.now < e.since + L.idle

/-- The outcome tells the truth about silence and about the deadline. -/
structure Truthful (L : Limits) (arrivals : List Arrival) (e : CollectionEnd) : Prop where
  quiet : e.outcome = .noResponseTimeout ∨ e.outcome = .completeQuiet ∧ ¬e.AfterReply →
    Quiet L arrivals e.now
  deadline : e.ByDeadline L → e.outcome = .hardTimeout ∨ e.outcome = .partialHardTimeout

/-- When the wait begins, the collection has gone on, and the peer has been silent, for all of the idle
    time but 120 seconds. -/
def Collecting.LongSilent (L : Limits) (arrivals : List Arrival) (s : Collecting) : Prop :=
  L.start + L.idle ≤ s.now + envelopeHardTimeout ∧
    ∀ a ∈ arrivals, a.time ≤ s.now → a.time + L.idle ≤ s.now + envelopeHardTimeout

instance (L : Limits) (arrivals : List Arrival) (s : Collecting) :
    Decidable (s.LongSilent L arrivals) := inferInstanceAs (Decidable (_ ∧ _))

/-- If the wait of this pass runs out, it is not the hard deadline that cuts it short (the frame
    begun may), and on an idle connection neither are the 120 seconds of a frame, unless the rest of
    the idle time had passed in silence before. -/
def Collecting.FullWait (H : Digests) (L : Limits) (arrivals : List Arrival) (s : Collecting) :
    Prop :=
  s.now < L.hard → (s.received H L).result = .ok none →
    (s.now + L.idle ≤ L.hard ∨
      (s.received H L).conn.frameStarted.getD s.now + envelopeHardTimeout < L.hard) ∧
    ((s.received H L).conn.recvBuf = [] →
      L.idle ≤ envelopeHardTimeout ∨ s.LongSilent L arrivals)

instance (H : Digests) (L : Limits) (arrivals : List Arrival) (s : Collecting) :
    Decidable (s.FullWait H L arrivals) := inferInstanceAs (Decidable (_ → _))

/-- What holds at the head of every pass. -/
structure Collecting.Sound (L : Limits) (arrivals : List Arrival) (s : Collecting) : Prop where
  stamped : s.conn.Stamped s.now
  begun : L.start ≤ s.now
  taken : ∃ past, arrivals = past ++ s.arrivals ∧ ∀ a ∈ past, a.time ≤ s.now

/-! ### One pass -/

section Pass
variable {H : Digests} {L : Limits} {version : Int} {h : Handling} {s : Collecting}
  {arrivals : List Arrival}

theorem send_buffer {c c' : Connection} {command : String} {payload : List Byte}
    {fault : Option IoError} (hc : c.send H command payload fault = .ok c') :
    c'.recvBuf = c.recvBuf ∧ c'.frameStarted = c.frameStarted := by
  unfold Connection.send at hc
  split at hc
  · cases hc
  split at hc
  · cases hc
  · cases hc; exact ⟨rfl, rfl⟩

theorem answerPing_buffer {c c' : Connection} {payload : List Byte} {fault : Option IoError}
    (hc : c.answerPing H payload version fault = .ok c') :
    c'.recvBuf = c.recvBuf ∧ c'.frameStarted = c.frameStarted := by
  unfold Connection.answerPing at hc
  dsimp only at hc
  split at hc
  · split at hc
    · exact send_buffer hc
    · cases hc; exact ⟨rfl, rfl⟩
  · cases hc

theorem collectEvent_buffer (pongFault : Option IoError) (result : RecvOutcome) (c : Connection) :
    (collectEvent H version pongFault result c).2.recvBuf = c.recvBuf ∧
      (collectEvent H version pongFault result c).2.frameStarted = c.frameStarted := by
  unfold collectEvent
  split
  · split
    · exact ⟨rfl, rfl⟩
    split
    · exact ⟨rfl, rfl⟩
    split
    · split
      · rename_i hc; exact answerPing_buffer hc
      · exact ⟨rfl, rfl⟩
    · exact ⟨rfl, rfl⟩
  · exact ⟨rfl, rfl⟩
  · exact ⟨rfl, rfl⟩

theorem Connection.Stamped.of_eq {c c' : Connection} {now : Nat} (hc : c.Stamped now)
    (heq : c'.recvBuf = c.recvBuf ∧ c'.frameStarted = c.frameStarted) : c'.Stamped now := by
  cases hc with
  | idle hbuf hframe => exact .idle (heq.1.trans hbuf) (heq.2.trans hframe)
  | begun hbuf f hf hframe => exact .begun (by rw [heq.1]; exact hbuf) f hf (heq.2.trans hframe)

theorem Collecting.receives (s : Collecting) :
    Receives H (s.deadline L) s.conn s.now s.arrivals (s.received H L) := recvAt_receives ..

theorem Collecting.Sound.received (hs : s.Sound L arrivals) :
    (s.received H L).After s.now s.arrivals :=
  s.receives.after hs.stamped

/-- A pass that goes on. -/
theorem collectStep_again {s' : Collecting} (hstep : collectStep H L version h s = .inr s')
    (hs : s.Sound L arrivals) : s'.Sound L arrivals := by
  have hr := hs.received (H := H)
  have next : ∀ valid, Collecting.Sound L arrivals ⟨valid,
      (collectEvent H version h.pongFault (s.received H L).result (s.received H L).conn).2,
      (s.received H L).now + h.busy, (s.received H L).arrivals⟩ := by
    intro valid
    have hle := hr.later
    have hbegun := hs.begun
    obtain ⟨past, hpast, hbefore⟩ := hs.taken
    obtain ⟨more, hmore, hat⟩ := hr.taken
    refine ⟨(hr.stamped.of_eq (collectEvent_buffer ..)).later (Nat.le_add_right ..), ?_,
      past ++ more, ?_, ?_⟩
    · show L.start ≤ (s.received H L).now + h.busy
      omega
    · rw [hpast, hmore, List.append_assoc]
    · intro a ha
      show a.time ≤ (s.received H L).now + h.busy
      rcases List.mem_append.mp ha with ha | ha
      · have := hbefore a ha
        omega
      · have := hat a ha
        omega
  unfold collectStep at hstep
  split at hstep
  · cases hstep
  unfold Collecting.handle at hstep
  dsimp only at hstep
  split at hstep
  · cases hstep; exact next s.valid
  · cases hstep
  · cases hstep
  · split at hstep
    · cases hstep
    · split at hstep
      · cases hstep
      · cases hstep; exact next (s.valid + 1)

theorem orPartial_cases {motive : CollectionOutcome → Prop} {valid : Nat}
    {outcome outcome' : CollectionOutcome} (h : motive outcome) (h' : motive outcome') :
    motive (.orPartial valid outcome outcome') := by
  unfold CollectionOutcome.orPartial
  split
  · exact h
  · exact h'

theorem orPartial_loud {valid : Nat} {outcome outcome' : CollectionOutcome}
    (h : ¬(outcome = .noResponseTimeout ∨ outcome = .completeQuiet))
    (h' : ¬(outcome' = .noResponseTimeout ∨ outcome' = .completeQuiet)) :
    ¬(CollectionOutcome.orPartial valid outcome outcome' = .noResponseTimeout ∨
      CollectionOutcome.orPartial valid outcome outcome' = .completeQuiet) :=
  orPartial_cases (motive := fun o => ¬(o = CollectionOutcome.noResponseTimeout ∨
    o = CollectionOutcome.completeQuiet)) h h'

/-- What a pass sees where something has arrived. -/
theorem collectEvent_heard {pongFault : Option IoError} {result : RecvOutcome} (c : Connection)
    (hheard : result ≠ .ok none) :
    (∀ unfinished, (collectEvent H version pongFault result c).1 ≠ .quiet unfinished) ∧
      (collectEvent H version pongFault result c).1 ≠ .expired := by
  have addr : ∀ command payload parsed, (∀ unfinished, addrEvent command payload parsed ≠
      .quiet unfinished) ∧ addrEvent command payload parsed ≠ .expired := by
    intro command payload parsed
    cases parsed <;> exact ⟨nofun, nofun⟩
  unfold collectEvent
  split
  · split
    · exact addr ..
    split
    · exact addr ..
    split
    · split
      · exact ⟨nofun, nofun⟩
      · exact ⟨nofun, nofun⟩
    · exact ⟨nofun, nofun⟩
  · exact absurd rfl hheard
  · exact ⟨nofun, nofun⟩

/-- The end of a collection with what the pass has seen. -/
theorem handle_end {r : Received} {event : CollectEvent} {c : Connection} {e : CollectionEnd}
    (hhandle : s.handle h r event c = .inl e) (hquiet : ∀ unfinished, event ≠ .quiet unfinished)
    (hexpired : event ≠ .expired) : e.last = some event ∧
      (e.outcome = .noResponseTimeout ∨ e.outcome = .completeQuiet →
        e.outcome = .completeQuiet ∧ e.AfterReply) := by
  unfold Collecting.handle at hhandle
  cases event with
  | expired => exact absurd rfl hexpired
  | message command parsed =>
    simp only [collect] at hhandle
    split at hhandle
    · cases hhandle
      refine ⟨rfl, ?_⟩
      dsimp only
      exact fun htold => absurd htold (by decide)
    · split at hhandle
      · rename_i hcount
        cases hhandle
        exact ⟨rfl, fun _ => ⟨rfl, command, parsed, rfl, of_decide_eq_true hcount⟩⟩
      · cases hhandle
  | malformed command error payload =>
    cases hhandle
    refine ⟨rfl, ?_⟩
    dsimp only
    split
    · exact fun htold => absurd htold (orPartial_loud (by decide) (by decide))
    · exact fun htold => absurd htold (by decide)
  | ping failed =>
    cases failed with
    | none => cases hhandle
    | some err =>
      cases hhandle
      exact ⟨rfl, fun htold => absurd htold (orPartial_loud (by decide) (by decide))⟩
  | skip => cases hhandle
  | quiet unfinished => exact absurd rfl (hquiet unfinished)
  | error err =>
    by_cases hkind : err.kind = .timedOut
    · rw [collect, if_pos hkind] at hhandle
      cases hhandle
      exact ⟨rfl, fun htold => absurd htold (orPartial_loud (by decide) (by decide))⟩
    · rw [collect, if_neg hkind] at hhandle
      cases hhandle
      exact ⟨rfl, fun htold => absurd htold (orPartial_loud (by decide) (by decide))⟩

/-- A pass in which something arrives and the collection ends. -/
theorem collectStep_heard {e : CollectionEnd} (hstep : collectStep H L version h s = .inl e)
    (hnow : s.now < L.hard) (hheard : (s.received H L).result ≠ .ok none) :
    ¬e.ByDeadline L ∧ (e.outcome = .noResponseTimeout ∨ e.outcome = .completeQuiet →
      e.outcome = .completeQuiet ∧ e.AfterReply) := by
  obtain ⟨hquiet, hexpired⟩ := @collectEvent_heard H version h.pongFault _
    (s.received H L).conn hheard
  unfold collectStep at hstep
  rw [if_neg (Nat.not_le_of_lt hnow)] at hstep
  obtain ⟨hlast, houtcome⟩ := handle_end hstep hquiet hexpired
  refine ⟨?_, houtcome⟩
  rintro (hend | ⟨⟨unfinished, hend⟩, -⟩)
  · exact hexpired (Option.some.inj (hlast.symm.trans hend))
  · exact hquiet unfinished (Option.some.inj (hlast.symm.trans hend))

/-- A pass whose wait runs out. -/
theorem collectStep_quiet (hnow : s.now < L.hard) (hnone : (s.received H L).result = .ok none) :
    ∃ outcome unfinished, collectStep H L version h s =
      .inl ⟨outcome, some (.quiet unfinished), s.now, (s.received H L).now⟩ ∧
      outcome ≠ .hardTimeout ∧ outcome ≠ .partialHardTimeout ∧
      ((s.received H L).conn.recvBuf = [] →
        outcome = .noResponseTimeout ∨ outcome = .completeQuiet) ∧
      ((s.received H L).conn.recvBuf ≠ [] →
        ¬(outcome = .noResponseTimeout ∨ outcome = .completeQuiet)) := by
  have hevent : collectEvent H version h.pongFault (s.received H L).result (s.received H L).conn =
      (.quiet (s.received H L).conn.hasPartialEnvelope, (s.received H L).conn) := by
    rw [hnone]
    rfl
  unfold collectStep
  rw [if_neg (Nat.not_le_of_lt hnow)]
  dsimp only
  rw [hevent]
  unfold Collecting.handle
  by_cases hbuf : (s.received H L).conn.recvBuf = []
  · have hhalf : (s.received H L).conn.hasPartialEnvelope = false := by
      unfold Connection.hasPartialEnvelope
      rw [hbuf]
      rfl
    rw [hhalf]
    refine ⟨_, false, rfl, ?_, ?_, fun _ => ?_, fun hne => absurd hbuf hne⟩
    · exact orPartial_cases (motive := (· ≠ CollectionOutcome.hardTimeout)) nofun nofun
    · exact orPartial_cases (motive := (· ≠ CollectionOutcome.partialHardTimeout)) nofun nofun
    · exact orPartial_cases (motive := fun outcome => outcome = .noResponseTimeout ∨
        outcome = .completeQuiet) (.inl rfl) (.inr rfl)
  · have hhalf : (s.received H L).conn.hasPartialEnvelope = true := by
      unfold Connection.hasPartialEnvelope
      simp [hbuf]
    rw [hhalf]
    refine ⟨_, true, rfl, ?_, ?_, fun hempty => absurd hempty hbuf, fun _ => ?_⟩
    · exact orPartial_cases (motive := (· ≠ CollectionOutcome.hardTimeout)) nofun nofun
    · exact orPartial_cases (motive := (· ≠ CollectionOutcome.partialHardTimeout)) nofun nofun
    · exact orPartial_loud (by decide) (by decide)

/-- What follows `now` is later than the first of it. -/
theorem Collecting.Sound.rest_later (hs : s.Sound L arrivals)
    (hordered : arrivals.Pairwise fun a b => a.time ≤ b.time) {now : Nat}
    (hfirst : ∀ a ∈ s.arrivals.head?, now < a.time) : ∀ a ∈ s.arrivals, now < a.time := by
  obtain ⟨past, rfl, -⟩ := hs.taken
  have hrest := (List.pairwise_append.mp hordered).2.1
  cases harr : s.arrivals with
  | nil => exact fun a ha => absurd ha List.not_mem_nil
  | cons b rest =>
    rw [harr] at hfirst hrest
    intro a ha
    have hb := hfirst b rfl
    rcases List.mem_cons.mp ha with rfl | ha
    · exact hb
    · have := (List.pairwise_cons.mp hrest).1 a ha
      omega

/-- On an idle connection a wait of the idle time is quiet. -/
theorem Collecting.Sound.quiet (hs : s.Sound L arrivals)
    (hordered : arrivals.Pairwise fun a b => a.time ≤ b.time) {now : Nat}
    (hfirst : ∀ a ∈ s.arrivals.head?, now < a.time) (hidle : s.now + L.idle ≤ now) :
    Quiet L arrivals now := by
  have hbegun := hs.begun
  refine ⟨by omega, fun a ha => ?_⟩
  have hlater := hs.rest_later hordered hfirst
  obtain ⟨past, rfl, hpast⟩ := hs.taken
  rcases List.mem_append.mp ha with ha | ha
  · have := hpast a ha
    exact .inl (by omega)
  · exact .inr (hlater a ha)

/-- A wait of 120 seconds is quiet after a long silence. -/
theorem Collecting.Sound.quiet_of_longSilent (hs : s.Sound L arrivals)
    (hordered : arrivals.Pairwise fun a b => a.time ≤ b.time) {now : Nat}
    (hfirst : ∀ a ∈ s.arrivals.head?, now < a.time) (hnow : now = s.now + envelopeHardTimeout)
    (hlong : s.LongSilent L arrivals) : Quiet L arrivals now := by
  obtain ⟨hstart, hbefore⟩ := hlong
  have hlater := hs.rest_later hordered hfirst
  refine ⟨by omega, fun a ha => ?_⟩
  by_cases hat : a.time ≤ s.now
  · rw [hnow]
    exact .inl (hbefore a ha hat)
  · obtain ⟨past, hpast, htaken⟩ := hs.taken
    rw [hpast] at ha
    rcases List.mem_append.mp ha with ha | ha
    · exact absurd (htaken a ha) hat
    · exact .inr (hlater a ha)

/-- **The last pass**: the outcome is truthful iff its wait was full. -/
theorem collectStep_truthful {e : CollectionEnd} (hstep : collectStep H L version h s = .inl e)
    (hs : s.Sound L arrivals) (hordered : arrivals.Pairwise fun a b => a.time ≤ b.time)
    (hidle : 0 < L.idle) : Truthful L arrivals e ↔ s.FullWait H L arrivals := by
  by_cases hnow : L.hard ≤ s.now
  · unfold collectStep at hstep
    rw [if_pos hnow] at hstep
    cases hstep
    refine iff_of_true ⟨fun htold => ?_, fun _ => ?_⟩ (fun hlt => absurd hnow (by omega))
    · refine absurd (htold.imp_right And.left) (orPartial_loud (by decide) (by decide))
    · exact orPartial_cases (motive := fun o => o = CollectionOutcome.hardTimeout ∨
        o = CollectionOutcome.partialHardTimeout) (.inl rfl) (.inr rfl)
  have hnow : s.now < L.hard := Nat.lt_of_not_le hnow
  by_cases hnone : (s.received H L).result = .ok none
  · -- the wait has run out
    have hdeadline : s.now < s.deadline L := by
      unfold Collecting.deadline
      omega
    obtain ⟨hend, hsilent⟩ := s.receives.none hnone hdeadline hs.stamped
    obtain ⟨outcome, unfinished, hstep', hhard, hhalf, hempty, hbegun⟩ :=
      @collectStep_quiet H L version h s hnow hnone
    rw [hstep] at hstep'
    cases hstep'
    unfold Collecting.deadline at hend
    constructor
    · intro htruth _ _
      have hfirst : s.now + L.idle ≤ L.hard ∨
          (s.received H L).conn.frameStarted.getD s.now + envelopeHardTimeout < L.hard := by
        by_contra hcut
        have hby : CollectionEnd.ByDeadline L
            ⟨outcome, some (.quiet unfinished), s.now, (s.received H L).now⟩ := by
          refine .inr ⟨⟨unfinished, rfl⟩, ?_, ?_⟩
          · show L.hard ≤ (s.received H L).now
            omega
          · show (s.received H L).now < s.now + L.idle
            omega
        rcases htruth.deadline hby with hout | hout
        · exact hhard hout
        · exact hhalf hout
      refine ⟨hfirst, fun hbuf => ?_⟩
      by_cases hlong : L.idle ≤ envelopeHardTimeout
      · exact .inl hlong
      obtain ⟨hframe, -, -⟩ := hsilent hbuf
      rw [hframe, Option.getD_none] at hend hfirst
      have hquiet : Quiet L arrivals (s.received H L).now := by
        refine htruth.quiet ((hempty hbuf).imp_right fun hout => ⟨hout, ?_⟩)
        rintro ⟨command, parsed, hlast, -⟩
        cases hlast
      rw [show (s.received H L).now = s.now + envelopeHardTimeout by omega] at hquiet
      refine .inr ⟨hquiet.1, fun a ha hbefore => ?_⟩
      rcases hquiet.2 a ha with hlong | hlater
      · exact hlong
      · omega
    · intro hfull
      obtain ⟨hfirst, hidle'⟩ := hfull hnow hnone
      refine ⟨fun htold => ?_, fun hby => ?_⟩
      · have hbuf : (s.received H L).conn.recvBuf = [] := by
          by_contra hbuf
          exact hbegun hbuf (htold.imp_right And.left)
        obtain ⟨hframe, -, hlate⟩ := hsilent hbuf
        rw [hframe, Option.getD_none] at hend hfirst
        by_cases hlong : L.idle ≤ envelopeHardTimeout
        · refine hs.quiet hordered hlate ?_
          show _ ≤ (s.received H L).now
          omega
        · exact hs.quiet_of_longSilent hordered hlate (by dsimp only; omega)
            ((hidle' hbuf).resolve_left hlong)
      · rcases hby with hlast | ⟨-, hle, hlt⟩
        · cases hlast
        · change L.hard ≤ (s.received H L).now at hle
          change (s.received H L).now < s.now + L.idle at hlt
          omega
  · obtain ⟨hby, houtcome⟩ := collectStep_heard hstep hnow hnone
    refine iff_of_true ⟨fun htold => ?_, fun hby' => absurd hby' hby⟩
      (fun _ hnone' => absurd hnone' hnone)
    obtain ⟨hcomplete, hreply⟩ := houtcome (htold.imp_right And.left)
    rcases htold with hno | ⟨-, hnot⟩
    · rw [hcomplete] at hno
      cases hno
    · exact absurd hreply hnot

end Pass

/-! ### The whole collection -/

/-- A pass that goes on has waited fully, or not run out. -/
theorem collectStep_again_full {H : Digests} {L : Limits} {version : Int} {h : Handling}
    {s s' : Collecting} {arrivals : List Arrival}
    (hstep : collectStep H L version h s = .inr s') : s.FullWait H L arrivals := by
  intro hnow hnone
  obtain ⟨outcome, unfinished, hend, -⟩ :=
    @collectStep_quiet H L version h s hnow hnone
  rw [hend] at hstep
  cases hstep

theorem collectLoop_truthful {H : Digests} {L : Limits} {version : Int} {arrivals : List Arrival}
    {e : CollectionEnd} (hordered : arrivals.Pairwise fun a b => a.time ≤ b.time)
    (hidle : 0 < L.idle) : ∀ {hs : List Handling} {s : Collecting}, s.Sound L arrivals →
    collectLoop H L version hs s = some e →
    (Truthful L arrivals e ↔ ∀ s' ∈ heads H L version hs s, s'.FullWait H L arrivals)
  | [], _, _, h => by cases h
  | h :: hs, s, hsound, hloop => by
    unfold collectLoop at hloop
    unfold heads
    cases hstep : collectStep H L version h s with
    | inl e' =>
      rw [hstep] at hloop
      cases hloop
      simp only [List.mem_singleton, forall_eq]
      exact collectStep_truthful hstep hsound hordered hidle
    | inr s' =>
      rw [hstep] at hloop
      rw [collectLoop_truthful hordered hidle (collectStep_again hstep hsound) hloop]
      simp only [List.forall_mem_cons, collectStep_again_full hstep, true_and]

/-- **When outcomes are truthful**: a collection that returns tells the truth about the peer's
    silence and about the deadline iff no wait of it that ran out was cut short. -/
theorem truthful_iff {H : Digests} {q : Request} {e : CollectionEnd}
    (hidle : 0 < q.timeouts.getaddrIdle) (hret : q.getaddr H = some e) :
    Truthful q.limits q.arrivals e ↔ ∀ s ∈ q.heads H, s.FullWait H q.limits q.arrivals := by
  unfold Request.getaddr at hret
  unfold Request.heads
  split at hret
  · cases hret
    refine iff_of_true ⟨fun htold => ?_, fun hby => ?_⟩ (fun s hs => absurd hs List.not_mem_nil)
    · rcases htold with hout | ⟨hout, -⟩ <;> cases hout
    · rcases hby with hlast | ⟨⟨unfinished, hlast⟩, -⟩ <;> cases hlast
  · rename_i c hsend
    refine collectLoop_truthful q.ordered ?_ ?_ hret
    · show 0 < 1000 * q.timeouts.getaddrIdle
      omega
    · exact ⟨q.stamped.of_eq (send_buffer hsend), Nat.le_refl _, [], rfl,
        fun a ha => absurd ha List.not_mem_nil⟩

/-- The frame of a `verack`. -/
def verackFrame : List Byte :=
  magic ++ [118, 101, 114, 97, 99, 107, 0, 0, 0, 0, 0, 0, 0, 0, 0, 0, 0, 0, 0, 0]

/-- Four seconds for the collection, three of silence, and one unrelated message. -/
def unrelatedMessage (time : Nat) : Request where
  timeouts := ⟨3, 30, 4, 3⟩
  version := 70016
  conn := {}
  start := 0
  handling := [{}, {}]
  arrivals := [⟨time, .ok verackFrame⟩]
  stamped := .idle rfl rfl
  ordered := List.pairwise_singleton ..

/-- The message arrives early: the peer is silent for three seconds after it. -/
theorem truthful_iff_early : ∃ e, (unrelatedMessage 500).getaddr .zero = some e ∧
    e.outcome = .noResponseTimeout ∧ e.now = 3500 ∧
    Truthful (unrelatedMessage 500).limits (unrelatedMessage 500).arrivals e := by
  have hret : (unrelatedMessage 500).getaddr .zero =
      some ⟨.noResponseTimeout, some (.quiet false), 500, 3500⟩ := by decide
  exact ⟨_, hret, rfl, rfl, (truthful_iff (by decide) hret).mpr (by decide)⟩

/-- The message arrives two seconds before the deadline, which then passes as silence. -/
theorem late_message_no_response : ∃ e, (unrelatedMessage 2000).getaddr .zero = some e ∧
    e.outcome = .noResponseTimeout ∧ e.now = 4000 ∧ e.ByDeadline (unrelatedMessage 2000).limits ∧
    ¬Quiet (unrelatedMessage 2000).limits (unrelatedMessage 2000).arrivals e.now ∧
    ¬Truthful (unrelatedMessage 2000).limits (unrelatedMessage 2000).arrivals e := by
  have hret : (unrelatedMessage 2000).getaddr .zero =
      some ⟨.noResponseTimeout, some (.quiet false), 2000, 4000⟩ := by decide
  have hquiet : ¬Quiet (unrelatedMessage 2000).limits (unrelatedMessage 2000).arrivals 4000 := by
    decide
  refine ⟨_, hret, rfl, rfl, .inr ⟨⟨false, rfl⟩, by decide, by decide⟩, hquiet, fun htruth => ?_⟩
  exact hquiet (htruth.quiet (.inl rfl))

end P2PCrawler
