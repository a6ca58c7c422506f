import P2PCrawler.Collection
import P2PCrawler.Handshake

/-!
# A visit to a peer, against the clock (`handshake` and `getaddr` in `crawler.rs`)

Once connected, a worker stays with its peer for a handshake and, if that succeeds, a collection.
Both wait for messages under deadlines of their own.  Here both run on one connection and one clock:
what the peer sends arrives at given times, our own messages take as long as they take.

* `Line` — a connection, the clock, and what is still to arrive.
* `Line.recvMatching`, `Visit.handshake`, `Visit.run` — one wait, the handshake, the whole visit.
* `recvMatching_untimed`, `handshake_untimed` — the clock is one of the clocks of the untimed
  handshake, so what holds of every handshake holds of these.
* `Line.stream` — the bytes that a visit has still to take off its connection.

## Results

* `visit_ends` — **no peer holds a worker by what it sends**: a visit whose own messages are sent or
  fail ends by its deadlines, and takes one pass of its loops for every 24 bytes that arrive.
-/

set_option autoImplicit false

namespace P2PCrawler

/-! ## The line -/

/-- A connection against the clock, in milliseconds. -/
structure Line where
  conn : Connection
  now : Nat
  arrivals : List Arrival
  stamped : conn.Stamped now
  ordered : arrivals.Pairwise fun a b => a.time ≤ b.time

/-- How one of our messages goes, once `write_all` has returned: the time that it took, and the
    error.  It has no timeout, so a peer that does not read can hold it for ever; what follows is
    about visits in which every message of ours is sent or fails. -/
structure Sending where
  busy : Nat := 0
  fault : Option IoError := none
  deriving DecidableEq, Repr

theorem answerUnmatched_buffer {H : Digests} {c c' : Connection} {pingVersion : Option Int}
    {env : Envelope} {fault : Option IoError}
    (h : c.answerUnmatched H pingVersion env fault = .ok c') :
    c'.recvBuf = c.recvBuf ∧ c'.frameStarted = c.frameStarted := by
  unfold Connection.answerUnmatched at h
  split at h
  · split at h
    · exact answerPing_buffer h
    · cases h; exact ⟨rfl, rfl⟩
  · cases h; exact ⟨rfl, rfl⟩

namespace Line

/-- Time passes. -/
def wait (l : Line) (busy : Nat) : Line :=
  { l with now := l.now + busy, stamped := l.stamped.later (Nat.le_add_right ..) }

/-- `recv_one` with its `call_deadline`. -/
def receive (H : Digests) (deadline : Nat) (l : Line) : RecvOutcome × Line :=
  let r := recvAt H deadline l.conn l.now l.arrivals
  have hafter : r.After l.now l.arrivals := (recvAt_receives ..).after l.stamped
  (r.result, {
    conn := r.conn
    now := r.now
    arrivals := r.arrivals
    stamped := hafter.stamped
    ordered := by
      obtain ⟨past, hpast, -⟩ := hafter.taken
      exact (List.pairwise_append.mp (hpast ▸ l.ordered)).2.1 })

def send (H : Digests) (command : String) (payload : List Byte) (s : Sending) (l : Line) :
    Except ConnError Line :=
  match h : l.conn.send H command payload s.fault with
  | .error e => .error e
  | .ok c => .ok { l.wait s.busy with
      conn := c, stamped := (l.wait s.busy).stamped.of_eq (send_buffer h) }

/-- What `recv_matching` does with a message that it does not expect. -/
def answer (H : Digests) (pingVersion : Option Int) (env : Envelope) (s : Sending) (l : Line) :
    Except ConnError Line :=
  match h : l.conn.answerUnmatched H pingVersion env s.fault with
  | .error e => .error e
  | .ok c => .ok { l.wait s.busy with
      conn := c, stamped := (l.wait s.busy).stamped.of_eq (answerUnmatched_buffer h) }

/-- `recv_matching`, with the answer of each pass; `none` while it is waiting. -/
def recvMatching (H : Digests) (expected : List String) (deadline perTimeout : Nat)
    (pingVersion : Option Int) : Line → List Sending → Option (RecvResult Envelope × Line)
  | _, [] => none
  | l, s :: ss =>
    if deadline ≤ l.now then some (.timeout, l)
    else
      match l.receive H (l.now + min (deadline - l.now) perTimeout) with
      | (.ok (some env), l) =>
        if env.command ∈ expected then some (.message env, l)
        else
          match l.answer H pingVersion env s with
          | .error e => some (.transport e.toIo, l.wait s.busy)
          | .ok l => recvMatching H expected deadline perTimeout pingVersion l ss
      | (.ok none, l) => recvMatching H expected deadline perTimeout pingVersion l ss
      | (.error e, l) => some (.transport e.toIo, l)

end Line

/-! ## The visit -/

/-- How our side of a visit goes: the timeouts, what we send and how, and how long the handling of
    what arrives takes. -/
structure Visit where
  timeouts : Timeouts
  sentTs : Int64
  nonce : UInt64
  version : Sending := {}
  toVersion : List Sending
  negotiation : Sending := {}
  verack : Sending := {}
  toVerack : List Sending
  /-- between the handshake and the collection -/
  recording : Nat := 0
  getaddr : Sending := {}
  collecting : List Handling
  deriving DecidableEq, Repr

/-- How a visit has ended. -/
structure Visited where
  handshake : HandshakeResult
  collected : Option CollectionOutcome := none
  now : Nat
  deriving DecidableEq, Repr

namespace Visit

/-- `timeouts.message`, in milliseconds. -/
def message (q : Visit) : Nat := 1000 * q.timeouts.message

def negotiate (H : Digests) (q : Visit) (peerVersion : Int) (l : Line) : Except ConnError Line :=
  if 70016 ≤ min peerVersion protocolVersion then l.send H "sendaddrv2" [] q.negotiation else .ok l

/-- `handshake`. -/
def handshake (H : Digests) (q : Visit) (start : Line) : Option (HandshakeResult × Line) :=
  let deadline := start.now + q.message
  match start.send H "version" (buildVersion q.sentTs q.nonce) q.version with
  | .error _ => some (.failed .versionSendFailed, start.wait q.version.busy)
  | .ok l =>
    match l.recvMatching H ["version"] deadline q.message none q.toVersion with
    | none => none
    | some (.timeout, l) => some (.timeout, l)
    | some (.transport e, l) => some (.failed (classifyHandshakeError e), l)
    | some (.message env, l) =>
      match parseVersion env.payload with
      | none => some (.failed .malformedVersion, l)
      | some v =>
        match q.negotiate H v.version l with
        | .error _ => some (.failed .negotiationSendFailed, l.wait q.negotiation.busy)
        | .ok l =>
          match l.send H "verack" [] q.verack with
          | .error _ => some (.failed .verackSendFailed, l.wait q.verack.busy)
          | .ok l =>
            match l.recvMatching H ["verack"] deadline q.message (some v.version) q.toVerack with
            | none => none
            | some (.timeout, l) => some (.failed .peerVerackTimeout, l)
            | some (.transport e, l) => some (.failed (classifyHandshakeError e), l)
            | some (.message _, l) => some (.version v (l.now - start.now), l)

/-- The collection that follows. -/
def request (q : Visit) (v : VersionData) (l : Line) : Request where
  timeouts := q.timeouts
  version := v.version
  conn := l.conn
  start := l.now
  sendFault := q.getaddr.fault
  handling := q.collecting
  arrivals := l.arrivals
  stamped := l.stamped
  ordered := l.ordered

/-- The whole visit; a probe does not collect. -/
def run (H : Digests) (q : Visit) (probe : Bool) (l : Line) : Option Visited :=
  match q.handshake H l with
  | none => none
  | some (.version v ms, l) =>
    if probe then some { handshake := .version v ms, now := l.now }
    else ((q.request v (l.wait (q.recording + q.getaddr.busy))).getaddr H).map fun e =>
      { handshake := .version v ms, collected := some e.outcome, now := e.now }
  | some (r, l) => some { handshake := r, now := l.now }

end Visit

/-! ## What is still to come -/

/-- The bytes that an arrival brings. -/
def Arrival.bytes (a : Arrival) : List Byte :=
  match a.read with
  | .ok bytes => bytes
  | .error _ => []

/-- What a connection has still to take. -/
def Connection.ahead (c : Connection) (arrivals : List Arrival) : List Byte :=
  c.recvBuf ++ arrivals.flatMap Arrival.bytes

def Line.stream (l : Line) : List Byte := l.conn.ahead l.arrivals

/-- What a receive under a deadline costs: it ends by the deadline, and a message takes its frame
    off the stream. -/
structure Received.Costs (deadline size : Nat) (r : Received) : Prop where
  clock : r.now ≤ deadline
  stream : (r.conn.ahead r.arrivals).length + (if (delivered r.result).isSome then 24 else 0) ≤ size

section Receive
variable {H : Digests} {deadline : Nat}

theorem ahead_fill (c : Connection) {a : Arrival} {bytes : List Byte} (ha : a.read = .ok bytes)
    (rest : List Arrival) (readAt : Nat) :
    (c.fill bytes readAt).ahead rest = c.ahead (a :: rest) := by
  have hbytes : a.bytes = bytes := by
    unfold Arrival.bytes
    rw [ha]
  simp [Connection.ahead, Connection.fill, hbytes]

theorem ahead_cons_le (c : Connection) (a : Arrival) (rest : List Arrival) :
    (c.ahead rest).length ≤ (c.ahead (a :: rest)).length := by
  simp only [Connection.ahead, List.flatMap_cons, List.length_append]
  omega

theorem FrameOf.length {env : Envelope} {f : List Byte} (h : FrameOf H env f) :
    f.length = 24 + env.payload.length := by
  obtain ⟨hvalid, -, rfl⟩ := frame_ok_iff.mp h
  exact length_frameBytes hvalid

theorem recvAt_costs : ∀ (arrivals : List Arrival) (c : Connection) (now : Nat), now ≤ deadline →
    (recvAt H deadline c now arrivals).Costs deadline (c.ahead arrivals).length
  | arrivals, c, now, hnow => by
    unfold recvAt
    split
    · exact ⟨hnow, le_refl _⟩
    · rename_i env rest hparse
      obtain ⟨f, hf, hbuf⟩ := tryParseEnvelope_take_iff.mp hparse
      refine ⟨hnow, ?_⟩
      have hlen := hf.length
      simp only [Connection.ahead, Connection.deliver, hbuf, List.length_append, delivered,
        Option.isSome_some, if_true]
      omega
    split
    · exact ⟨hnow, le_refl _⟩
    split
    · exact ⟨hnow, le_refl _⟩
    have hlimit : now + min (deadline - now) (c.hardRemaining now) ≤ deadline := by omega
    dsimp only
    cases arrivals with
    | nil => exact ⟨hlimit, le_refl _⟩
    | cons a rest =>
      dsimp only
      split
      · exact ⟨hlimit, le_refl _⟩
      rename_i hat
      have hread : max now a.time ≤ deadline := by omega
      split
      · exact ⟨hread, ahead_cons_le c a rest⟩
      · exact ⟨hread, ahead_cons_le c a rest⟩
      · rename_i b bytes hbytes
        have hfill := ahead_fill c hbytes rest (max now a.time)
        split
        · exact ⟨hread, (congrArg List.length hfill).le⟩
        · rw [← hfill]
          exact recvAt_costs rest _ _ hread

/-- Where a wait has run out, no frame is complete. -/
theorem recvAt_unparsed : ∀ (arrivals : List Arrival) (c : Connection) (now : Nat),
    (recvAt H deadline c now arrivals).result = .ok none →
    (tryParseEnvelope H (recvAt H deadline c now arrivals).conn.recvBuf).1 = .ok none
  | arrivals, c, now => by
    unfold recvAt
    split
    · exact fun h => by cases h
    · exact fun h => by cases h
    rename_i hparse
    split
    · exact fun h => by cases h
    split
    · exact fun _ => by rw [hparse]
    dsimp only
    cases arrivals with
    | nil => exact fun _ => by rw [hparse]
    | cons a rest =>
      dsimp only
      split
      · exact fun _ => by rw [hparse]
      split
      · exact fun h => by cases h
      · exact fun h => by cases h
      · split
        · exact fun h => by cases h
        · exact recvAt_unparsed rest _ _

/-- A frame that has not come in time ends the next receive. -/
theorem recvAt_overdue {c : Connection} {now : Nat} (arrivals : List Arrival)
    (hparse : (tryParseEnvelope H c.recvBuf).1 = .ok none) (hframe : c.hardRemaining now = 0) :
    (recvAt H deadline c now arrivals).result = .error .hardDeadline := by
  unfold recvAt
  split
  · rename_i heq
    rw [heq] at hparse
    cases hparse
  · rename_i heq
    rw [heq] at hparse
    cases hparse
  · rw [if_pos hframe]

end Receive

/-! ## Waiting -/

section Waiting
variable {H : Digests} {l l' : Line}

@[simp] theorem Line.wait_now (l : Line) (busy : Nat) : (l.wait busy).now = l.now + busy := rfl
@[simp] theorem Line.wait_conn (l : Line) (busy : Nat) : (l.wait busy).conn = l.conn := rfl
@[simp] theorem Line.wait_stream (l : Line) (busy : Nat) : (l.wait busy).stream = l.stream := rfl

/-- Sending and answering take time and nothing else. -/
structure Line.Spends (busy : Nat) (l l' : Line) : Prop where
  now : l'.now = l.now + busy
  buffer : l'.conn.recvBuf = l.conn.recvBuf
  frame : l'.conn.frameStarted = l.conn.frameStarted
  arrivals : l'.arrivals = l.arrivals

theorem Line.Spends.stream {busy : Nat} (h : l.Spends busy l') : l'.stream = l.stream := by
  unfold Line.stream Connection.ahead
  rw [h.buffer, h.arrivals]

theorem Line.send_ok {command : String} {payload : List Byte} {s : Sending}
    (h : l.send H command payload s = .ok l') : l.Spends s.busy l' ∧
      l.conn.send H command payload s.fault = .ok l'.conn := by
  unfold Line.send at h
  split at h
  · cases h
  · rename_i c hc
    cases h
    obtain ⟨hbuf, hframe⟩ := send_buffer hc
    exact ⟨⟨rfl, hbuf, hframe, rfl⟩, hc⟩

theorem Line.send_error {command : String} {payload : List Byte} {s : Sending} {e : ConnError}
    (h : l.send H command payload s = .error e) :
    l.conn.send H command payload s.fault = .error e := by
  unfold Line.send at h
  split at h
  · rename_i e' he
    cases h
    exact he
  · cases h

theorem Line.answer_ok {pingVersion : Option Int} {env : Envelope} {s : Sending}
    (h : l.answer H pingVersion env s = .ok l') : l.Spends s.busy l' ∧
      l.conn.answerUnmatched H pingVersion env s.fault = .ok l'.conn := by
  unfold Line.answer at h
  split at h
  · cases h
  · rename_i c hc
    cases h
    obtain ⟨hbuf, hframe⟩ := answerUnmatched_buffer hc
    exact ⟨⟨rfl, hbuf, hframe, rfl⟩, hc⟩

theorem Line.answer_error {pingVersion : Option Int} {env : Envelope} {s : Sending} {e : ConnError}
    (h : l.answer H pingVersion env s = .error e) :
    l.conn.answerUnmatched H pingVersion env s.fault = .error e := by
  unfold Line.answer at h
  split at h
  · rename_i e' he
    cases h
    exact he
  · cases h

/-- A receive, with what it costs. -/
theorem Line.receive_costs {deadline : Nat} {res : RecvOutcome} (hnow : l.now ≤ deadline)
    (h : l.receive H deadline = (res, l')) : l.now ≤ l'.now ∧ l'.now ≤ deadline ∧
      l'.stream.length + (if (delivered res).isSome then 24 else 0) ≤ l.stream.length := by
  obtain ⟨rfl, rfl⟩ := Prod.mk.inj h.symm
  obtain ⟨hclock, hstream⟩ := recvAt_costs (H := H) l.arrivals l.conn l.now hnow
  exact ⟨((recvAt_receives ..).after l.stamped).later, hclock, hstream⟩

/-- A wait that runs out does so at the deadline, or when the frame is overdue, or after 120 seconds
    on an idle connection. -/
theorem Line.receive_none {deadline : Nat} (hnow : l.now < deadline)
    (h : l.receive H deadline = (.ok none, l')) :
    l'.now = min deadline (l'.conn.frameStarted.getD l.now + envelopeHardTimeout) ∧
      (tryParseEnvelope H l'.conn.recvBuf).1 = .ok none := by
  obtain ⟨hres, rfl⟩ := Prod.mk.inj h
  exact ⟨((recvAt_receives ..).none hres hnow l.stamped).1, recvAt_unparsed _ _ _ hres⟩

theorem Line.receive_overdue {deadline : Nat}
    (hparse : (tryParseEnvelope H l.conn.recvBuf).1 = .ok none)
    (hframe : l.conn.hardRemaining l.now = 0) :
    (l.receive H deadline).1 = .error .hardDeadline := recvAt_overdue _ hparse hframe

end Waiting

section RecvMatching
variable {H : Digests} {expected : List String} {deadline perTimeout : Nat}
  {pingVersion : Option Int}

/-- The time that our messages of a wait take. -/
def busyOf (ss : List Sending) : Nat := (ss.map (·.busy)).sum

/-- The next pass is the last one where the deadline has passed or a frame is overdue. -/
theorem recvMatching_over {l : Line} {ss : List Sending} (hne : ss ≠ [])
    (hover : l.now < deadline →
      (tryParseEnvelope H l.conn.recvBuf).1 = .ok none ∧ l.conn.hardRemaining l.now = 0) :
    ∃ r, l.recvMatching H expected deadline perTimeout pingVersion ss = some r := by
  obtain ⟨s, ss, rfl⟩ := List.exists_cons_of_ne_nil hne
  unfold Line.recvMatching
  split
  · exact ⟨_, rfl⟩
  rename_i hdeadline
  obtain ⟨hparse, hframe⟩ := hover (by omega)
  have hoverdue : (l.receive H (l.now + min (deadline - l.now) perTimeout)).1 =
      .error .hardDeadline := Line.receive_overdue hparse hframe
  rcases hrecv : l.receive H (l.now + min (deadline - l.now) perTimeout) with ⟨res, l'⟩
  rw [hrecv] at hoverdue
  cases hoverdue
  exact ⟨_, rfl⟩

/-- **A wait returns**: every message takes its frame off the stream, and a wait that runs out is
    over, or has lasted for 120 seconds. -/
theorem recvMatching_returns : ∀ (n : Nat) (l : Line) (ss : List Sending),
    deadline - l.now ≤ perTimeout →
    l.stream.length / 24 + (deadline - l.now) / envelopeHardTimeout < n → n < ss.length →
    ∃ r, l.recvMatching H expected deadline perTimeout pingVersion ss = some r
  | 0, _, _, _, hn, _ => absurd hn (Nat.not_lt_zero _)
  | n + 1, l, [], _, _, hss => absurd hss (Nat.not_lt_zero _)
  | n + 1, l, s :: ss, hper, hn, hss => by
    rw [List.length_cons] at hss
    unfold Line.recvMatching
    split
    · exact ⟨_, rfl⟩
    rename_i hdeadline
    have hcall : l.now + min (deadline - l.now) perTimeout = deadline := by omega
    rw [hcall]
    have hnow : l.now < deadline := by omega
    rcases hrecv : l.receive H deadline with ⟨res, l₁⟩
    obtain ⟨hlater, hclock, hstream⟩ := Line.receive_costs hnow.le hrecv
    simp only [envelopeHardTimeout] at hn
    cases res with
    | error e => exact ⟨_, rfl⟩
    | ok env =>
      cases env with
      | some env =>
        simp only [delivered, Option.isSome_some, if_true] at hstream
        dsimp only
        split
        · exact ⟨_, rfl⟩
        cases hanswer : l₁.answer H pingVersion env s with
        | error e => exact ⟨_, rfl⟩
        | ok l₂ =>
          obtain ⟨hspends, -⟩ := Line.answer_ok hanswer
          have hnow₂ := hspends.now
          have hstream₂ := congrArg List.length hspends.stream
          refine recvMatching_returns n l₂ ss (by omega) ?_ (by omega)
          simp only [envelopeHardTimeout]
          omega
      | none =>
        obtain ⟨hend, hparse⟩ := Line.receive_none hnow hrecv
        simp only [delivered, Option.isSome_none, Bool.false_eq_true, if_false] at hstream
        show ∃ r, l₁.recvMatching H expected deadline perTimeout pingVersion ss = some r
        have hne : ss ≠ [] := by
          rintro rfl
          simp at hss
        cases hframe : l₁.conn.frameStarted with
        | none =>
          rw [hframe, Option.getD_none] at hend
          simp only [envelopeHardTimeout] at hend
          by_cases hover : deadline ≤ l₁.now
          · exact recvMatching_over hne fun hlt => absurd hlt (by omega)
          · refine recvMatching_returns n l₁ ss (by omega) ?_ (by omega)
            simp only [envelopeHardTimeout]
            omega
        | some f =>
          rw [hframe, Option.getD_some] at hend
          refine recvMatching_over hne fun hlt => ⟨hparse, ?_⟩
          unfold Connection.hardRemaining
          rw [hframe]
          show envelopeHardTimeout - (l₁.now - f) = 0
          omega

/-- A wait ends by its deadline, but for the time that our messages take. -/
theorem recvMatching_clock : ∀ {ss : List Sending} {l l' : Line} {r : RecvResult Envelope},
    l.recvMatching H expected deadline perTimeout pingVersion ss = some (r, l') →
    l.now ≤ l'.now ∧ l'.now ≤ max l.now deadline + busyOf ss ∧
      l'.stream.length ≤ l.stream.length
  | [], _, _, _, h => by cases h
  | s :: ss, l, l', r, h => by
    have hbusy : busyOf (s :: ss) = s.busy + busyOf ss := rfl
    unfold Line.recvMatching at h
    split at h
    · cases h
      exact ⟨le_refl _, by omega, le_refl _⟩
    rename_i hdeadline
    rcases hrecv : l.receive H (l.now + min (deadline - l.now) perTimeout) with ⟨res, l₁⟩
    obtain ⟨hlater, hclock, hstream⟩ := Line.receive_costs (by omega) hrecv
    rw [hrecv] at h
    cases res with
    | error e =>
      cases h
      exact ⟨hlater, by omega, by omega⟩
    | ok env =>
      cases env with
      | some env =>
        dsimp only at h
        split at h
        · cases h
          exact ⟨hlater, by omega, by omega⟩
        cases hanswer : l₁.answer H pingVersion env s with
        | error e =>
          rw [hanswer] at h
          cases h
          simp only [Line.wait_now, Line.wait_stream]
          exact ⟨by omega, by omega, by omega⟩
        | ok l₂ =>
          rw [hanswer] at h
          obtain ⟨hspends, -⟩ := Line.answer_ok hanswer
          have hnow₂ := hspends.now
          have hstream₂ := congrArg List.length hspends.stream
          obtain ⟨hlater', hclock', hstream'⟩ := recvMatching_clock h
          exact ⟨by omega, by omega, by omega⟩
      | none =>
        obtain ⟨hlater', hclock', hstream'⟩ := recvMatching_clock h
        exact ⟨by omega, by omega, by omega⟩

/-- **The clock is one of the clocks** of the untimed wait. -/
theorem recvMatching_untimed : ∀ {ss : List Sending} {l l' : Line} {r : RecvResult Envelope},
    l.recvMatching H expected deadline perTimeout pingVersion ss = some (r, l') →
    ∃ ws : List Pass, l.conn.recvMatching H expected deadline perTimeout pingVersion ws =
      some (r, l'.conn)
  | [], _, _, _, h => by cases h
  | s :: ss, l, l', r, h => by
    unfold Line.recvMatching at h
    split at h
    · rename_i hdeadline
      cases h
      exact ⟨[⟨l.now, l.now, [], none⟩], by
        unfold Connection.recvMatching
        rw [if_pos hdeadline]⟩
    rename_i hdeadline
    rcases hrecv : l.receive H (l.now + min (deadline - l.now) perTimeout) with ⟨res, l₁⟩
    obtain ⟨rounds, hrounds⟩ := @recvAt_recvOne H l.now (min (deadline - l.now) perTimeout)
      l.arrivals l.conn l.now
    have hone : recvOne H (min (deadline - l.now) perTimeout) l.now l.conn rounds =
        some (res, l₁.conn) := by
      obtain ⟨rfl, rfl⟩ := Prod.mk.inj hrecv.symm
      exact hrounds
    rw [hrecv] at h
    cases res with
    | error e =>
      cases h
      refine ⟨[⟨l.now, l.now, rounds, s.fault⟩], ?_⟩
      simp only [Connection.recvMatching, if_neg hdeadline, hone]
    | ok env =>
      cases env with
      | some env =>
        dsimp only at h
        split at h
        · rename_i hmem
          cases h
          refine ⟨[⟨l.now, l.now, rounds, s.fault⟩], ?_⟩
          simp only [Connection.recvMatching, if_neg hdeadline, hone, if_pos hmem]
        rename_i hmem
        cases hanswer : l₁.answer H pingVersion env s with
        | error e =>
          rw [hanswer] at h
          cases h
          refine ⟨[⟨l.now, l.now, rounds, s.fault⟩], ?_⟩
          simp only [Connection.recvMatching, if_neg hdeadline, hone, if_neg hmem,
            Line.answer_error hanswer]
          rfl
        | ok l₂ =>
          rw [hanswer] at h
          obtain ⟨ws, hws⟩ := recvMatching_untimed h
          refine ⟨⟨l.now, l.now, rounds, s.fault⟩ :: ws, ?_⟩
          simp only [Connection.recvMatching, if_neg hdeadline, hone, if_neg hmem,
            (Line.answer_ok hanswer).2]
          exact hws
      | none =>
        obtain ⟨ws, hws⟩ := recvMatching_untimed h
        refine ⟨⟨l.now, l.now, rounds, s.fault⟩ :: ws, ?_⟩
        simp only [Connection.recvMatching, if_neg hdeadline, hone]
        exact hws

end RecvMatching

/-! ## The handshake -/

section Handshake
variable {H : Digests} {q : Visit} {l l' : Line}

/-- The time that our messages of a handshake take. -/
def Visit.handshakeBusy (q : Visit) : Nat :=
  q.version.busy + busyOf q.toVersion + q.negotiation.busy + q.verack.busy + busyOf q.toVerack

theorem negotiate_ok' {v : Int} (h : q.negotiate H v l = .ok l') :
    l.now ≤ l'.now ∧ l'.now ≤ l.now + q.negotiation.busy ∧ l'.stream = l.stream := by
  unfold Visit.negotiate at h
  split at h
  · obtain ⟨hspends, -⟩ := Line.send_ok h
    have hnow := hspends.now
    exact ⟨by omega, by omega, hspends.stream⟩
  · cases h
    exact ⟨le_refl _, by omega, rfl⟩

/-- How many passes a wait of a visit may take. -/
def Visit.passes (q : Visit) (l : Line) : Nat :=
  l.stream.length / 24 + q.message / envelopeHardTimeout + 2

/-- **A handshake returns.** -/
theorem handshake_returns (hversion : q.passes l ≤ q.toVersion.length)
    (hverack : q.passes l ≤ q.toVerack.length) : ∃ r, q.handshake H l = some r := by
  unfold Visit.handshake
  dsimp only
  cases hsend : l.send H "version" (buildVersion q.sentTs q.nonce) q.version with
  | error e => exact ⟨_, rfl⟩
  | ok l₁ =>
    obtain ⟨hspends, -⟩ := Line.send_ok hsend
    have hnow₁ := hspends.now
    have hstream₁ := congrArg List.length hspends.stream
    have hleft : ∀ l₂ : Line, l₁.now ≤ l₂.now → l₂.stream.length ≤ l₁.stream.length →
        l₂.stream.length / 24 + (l.now + q.message - l₂.now) / envelopeHardTimeout <
          l.stream.length / 24 + q.message / envelopeHardTimeout + 1 := by
      intro l₂ hlater hless
      simp only [envelopeHardTimeout]
      omega
    unfold Visit.passes at hversion hverack
    obtain ⟨⟨found, l₂⟩, hwait⟩ := @recvMatching_returns H ["version"] (l.now + q.message) q.message
      none _ l₁ q.toVersion (by omega) (hleft l₁ (le_refl _) (le_refl _)) (by omega)
    obtain ⟨hlater₂, -, hless₂⟩ := recvMatching_clock hwait
    dsimp only
    rw [hwait]
    cases found with
    | timeout | transport e => exact ⟨_, rfl⟩
    | message env =>
      dsimp only
      cases parseVersion env.payload with
      | none => exact ⟨_, rfl⟩
      | some v =>
        dsimp only
        cases hnegotiate : q.negotiate H v.version l₂ with
        | error e => exact ⟨_, rfl⟩
        | ok l₃ =>
          obtain ⟨hlater₃, -, hstream₃⟩ := negotiate_ok' hnegotiate
          dsimp only
          cases hsend' : l₃.send H "verack" [] q.verack with
          | error e => exact ⟨_, rfl⟩
          | ok l₄ =>
            obtain ⟨hspends₄, -⟩ := Line.send_ok hsend'
            have hnow₄ := hspends₄.now
            have hstream₄ := hspends₄.stream.trans hstream₃
            have hlen₄ := congrArg List.length hstream₄
            obtain ⟨⟨found', l₅⟩, hwait'⟩ := @recvMatching_returns H ["verack"] (l.now + q.message)
              q.message (some v.version) _ l₄ q.toVerack (by omega)
              (hleft l₄ (by omega) (by omega)) (by omega)
            dsimp only
            rw [hwait']
            cases found' <;> exact ⟨_, rfl⟩

/-- Our `version` is sent, and the wait for the peer's has ended with `found`. -/
def Visit.Hears (H : Digests) (q : Visit) (l : Line) (found : RecvResult Envelope) (l₂ : Line) : Prop :=
  ∃ l₁, l.send H "version" (buildVersion q.sentTs q.nonce) q.version = .ok l₁ ∧
    l₁.recvMatching H ["version"] (l.now + q.message) q.message none q.toVersion = some (found, l₂)

/-- The peer's `version` is answered, and the wait for its `verack` has ended with `found`. -/
def Visit.Confirms (H : Digests) (q : Visit) (l : Line) (v : VersionData) (found : RecvResult Envelope)
    (l₅ : Line) : Prop :=
  ∃ env l₂ l₃ l₄, q.Hears H l (.message env) l₂ ∧ parseVersion env.payload = some v ∧
    q.negotiate H v.version l₂ = .ok l₃ ∧ l₃.send H "verack" [] q.verack = .ok l₄ ∧
    l₄.recvMatching H ["verack"] (l.now + q.message) q.message (some v.version) q.toVerack =
      some (found, l₅)

/-- Every way a handshake can end. -/
inductive Visit.Course (H : Digests) (q : Visit) (l : Line) : HandshakeResult → Line → Prop
  | unsent (e : ConnError)
    (h : l.send H "version" (buildVersion q.sentTs q.nonce) q.version = .error e) :
    Course H q l (.failed .versionSendFailed) (l.wait q.version.busy)
  | silent {l₂ : Line} (h : q.Hears H l .timeout l₂) : Course H q l .timeout l₂
  | broken {l₂ : Line} (e : IoError) (h : q.Hears H l (.transport e) l₂) :
    Course H q l (.failed (classifyHandshakeError e)) l₂
  | malformed {l₂ : Line} (env : Envelope) (h : q.Hears H l (.message env) l₂)
    (hparse : parseVersion env.payload = none) : Course H q l (.failed .malformedVersion) l₂
  | unnegotiated {l₂ : Line} (env : Envelope) (v : VersionData) (e : ConnError)
    (h : q.Hears H l (.message env) l₂) (hparse : parseVersion env.payload = some v)
    (hnegotiate : q.negotiate H v.version l₂ = .error e) :
    Course H q l (.failed .negotiationSendFailed) (l₂.wait q.negotiation.busy)
  | unacknowledged {l₂ l₃ : Line} (env : Envelope) (v : VersionData) (e : ConnError)
    (h : q.Hears H l (.message env) l₂) (hparse : parseVersion env.payload = some v)
    (hnegotiate : q.negotiate H v.version l₂ = .ok l₃)
    (hsend : l₃.send H "verack" [] q.verack = .error e) :
    Course H q l (.failed .verackSendFailed) (l₃.wait q.verack.busy)
  | unconfirmed {l₅ : Line} (v : VersionData) (h : q.Confirms H l v .timeout l₅) :
    Course H q l (.failed .peerVerackTimeout) l₅
  | lost {l₅ : Line} (v : VersionData) (e : IoError) (h : q.Confirms H l v (.transport e) l₅) :
    Course H q l (.failed (classifyHandshakeError e)) l₅
  | done {l₅ : Line} (v : VersionData) (env : Envelope) (h : q.Confirms H l v (.message env) l₅) :
    Course H q l (.version v (l₅.now - l.now)) l₅

theorem handshake_course {r : HandshakeResult} (h : q.handshake H l = some (r, l')) :
    q.Course H l r l' := by
  unfold Visit.handshake at h
  dsimp only at h
  split at h
  · rename_i e hsend
    cases h
    exact .unsent e hsend
  rename_i l₁ hsend
  split at h
  · cases h
  · rename_i l₂ hwait
    cases h
    exact .silent ⟨l₁, hsend, hwait⟩
  · rename_i e l₂ hwait
    cases h
    exact .broken e ⟨l₁, hsend, hwait⟩
  rename_i env l₂ hwait
  have hhears : q.Hears H l (.message env) l₂ := ⟨l₁, hsend, hwait⟩
  split at h
  · rename_i hparse
    cases h
    exact .malformed env hhears hparse
  rename_i v hparse
  split at h
  · rename_i e hnegotiate
    cases h
    exact .unnegotiated env v e hhears hparse hnegotiate
  rename_i l₃ hnegotiate
  split at h
  · rename_i e hsend'
    cases h
    exact .unacknowledged env v e hhears hparse hnegotiate hsend'
  rename_i l₄ hsend'
  have hconfirms : ∀ {found l₅}, l₄.recvMatching H ["verack"] (l.now + q.message) q.message
      (some v.version) q.toVerack = some (found, l₅) → q.Confirms H l v found l₅ :=
    fun hwait' => ⟨env, l₂, l₃, l₄, hhears, hparse, hnegotiate, hsend', hwait'⟩
  split at h
  · cases h
  · rename_i l₅ hwait'
    cases h
    exact .unconfirmed v (hconfirms hwait')
  · rename_i e l₅ hwait'
    cases h
    exact .lost v e (hconfirms hwait')
  · rename_i env' l₅ hwait'
    cases h
    exact .done v env' (hconfirms hwait')

theorem Visit.Hears.clock {found : RecvResult Envelope} {l₂ : Line} (h : q.Hears H l found l₂) :
    l.now ≤ l₂.now ∧ l₂.now ≤ l.now + q.message + q.version.busy + busyOf q.toVersion ∧
      l₂.stream.length ≤ l.stream.length := by
  obtain ⟨l₁, hsend, hwait⟩ := h
  obtain ⟨hspends, -⟩ := Line.send_ok hsend
  obtain ⟨hlater, hclock, hless⟩ := recvMatching_clock hwait
  have hnow := hspends.now
  have hlen := congrArg List.length hspends.stream
  exact ⟨by omega, by omega, by omega⟩

theorem Visit.Confirms.clock {v : VersionData} {found : RecvResult Envelope} {l₅ : Line}
    (h : q.Confirms H l v found l₅) :
    l.now ≤ l₅.now ∧ l₅.now ≤ l.now + q.message + q.handshakeBusy ∧
      l₅.stream.length ≤ l.stream.length := by
  obtain ⟨env, l₂, l₃, l₄, hhears, -, hnegotiate, hsend, hwait⟩ := h
  obtain ⟨hlater₂, hclock₂, hless₂⟩ := hhears.clock
  obtain ⟨hlater₃, hclock₃, hstream₃⟩ := negotiate_ok' hnegotiate
  obtain ⟨hspends₄, -⟩ := Line.send_ok hsend
  obtain ⟨hlater₅, hclock₅, hless₅⟩ := recvMatching_clock hwait
  have hnow₄ := hspends₄.now
  have hlen₃ := congrArg List.length hstream₃
  have hlen₄ := congrArg List.length hspends₄.stream
  unfold Visit.handshakeBusy
  exact ⟨by omega, by omega, by omega⟩

/-- A handshake ends by its deadline, but for the time that our messages take. -/
theorem handshake_clock {r : HandshakeResult} (h : q.handshake H l = some (r, l')) :
    l.now ≤ l'.now ∧ l'.now ≤ l.now + q.message + q.handshakeBusy ∧
      l'.stream.length ≤ l.stream.length := by
  have hbusy : q.handshakeBusy = q.version.busy + busyOf q.toVersion + q.negotiation.busy +
    q.verack.busy + busyOf q.toVerack := rfl
  cases handshake_course h with
  | unsent e =>
    simp only [Line.wait_now, Line.wait_stream]
    exact ⟨by omega, by omega, le_refl _⟩
  | silent hhears | broken e hhears | malformed env hhears =>
    obtain ⟨hlater, hclock, hless⟩ := hhears.clock
    exact ⟨hlater, by omega, hless⟩
  | unnegotiated env v e hhears =>
    obtain ⟨hlater, hclock, hless⟩ := hhears.clock
    simp only [Line.wait_now, Line.wait_stream]
    exact ⟨by omega, by omega, hless⟩
  | unacknowledged env v e hhears hparse hnegotiate =>
    obtain ⟨hlater, hclock, hless⟩ := hhears.clock
    obtain ⟨hlater₃, hclock₃, hstream₃⟩ := negotiate_ok' hnegotiate
    have hlen₃ := congrArg List.length hstream₃
    simp only [Line.wait_now, Line.wait_stream]
    exact ⟨by omega, by omega, by omega⟩
  | unconfirmed v hconfirms | lost v e hconfirms | done v env hconfirms => exact hconfirms.clock

/-- The untimed handshake, with the passes of its waits. -/
def Visit.dialogue (q : Visit) (start finish : Nat) (toVersion toVerack : List Pass) : Dialogue where
  start := start
  nonce := q.nonce
  message := q.timeouts.message
  toVersion := toVersion
  negotiationFault := q.negotiation.fault
  verackFault := q.verack.fault
  toVerack := toVerack
  finish := finish

theorem negotiate_untimed {v : Int} (p : Dialogue) (hp : p.negotiationFault = q.negotiation.fault) :
    (∀ l', q.negotiate H v l = .ok l' → p.negotiate H v l.conn = .ok l'.conn) ∧
      ∀ e, q.negotiate H v l = .error e → p.negotiate H v l.conn = .error e := by
  unfold Visit.negotiate Dialogue.negotiate
  rw [hp]
  split
  · exact ⟨fun l' h => (Line.send_ok h).2, fun e h => Line.send_error h⟩
  · exact ⟨fun l' h => by cases h; rfl, fun e h => by cases h⟩

/-- The first wait, in the untimed handshake. -/
theorem Visit.Hears.untimed {found : RecvResult Envelope} {l₂ : Line} (h : q.Hears H l found l₂) :
    ∃ c₁ ws, ∀ finish toVerack, ∃ p, p = q.dialogue l.now finish ws toVerack ∧
      l.conn.send H "version" (buildVersion q.sentTs p.nonce) q.version.fault = .ok c₁ ∧
      c₁.recvMatching H ["version"] p.deadline (1000 * p.message) none p.toVersion =
        some (found, l₂.conn) := by
  obtain ⟨l₁, hsend, hwait⟩ := h
  obtain ⟨ws, hws⟩ := recvMatching_untimed hwait
  exact ⟨l₁.conn, ws, fun _ _ => ⟨_, rfl, (Line.send_ok hsend).2, hws⟩⟩

/-- Both waits. -/
theorem Visit.Confirms.untimed {v : VersionData} {found : RecvResult Envelope} {l₅ : Line}
    (h : q.Confirms H l v found l₅) : ∃ ws ws', ∀ finish,
      (q.dialogue l.now finish ws ws').handshake H q.sentTs q.version.fault l.conn =
        match found with
        | .timeout => some (.failed .peerVerackTimeout, l₅.conn)
        | .transport e => some (.failed (classifyHandshakeError e), l₅.conn)
        | .message _ => some (.version v (finish - l.now), l₅.conn) := by
  obtain ⟨env, l₂, l₃, l₄, hhears, hparse, hnegotiate, hsend', hwait'⟩ := h
  obtain ⟨c₁, ws, hfirst⟩ := hhears.untimed
  obtain ⟨ws', hws'⟩ := recvMatching_untimed hwait'
  refine ⟨ws, ws', fun finish => ?_⟩
  obtain ⟨p, hp, hsend, hwait⟩ := hfirst finish ws'
  have hnegotiate' := (negotiate_untimed p (by rw [hp]; rfl)).1 _ hnegotiate
  have hverack : l₃.conn.send H "verack" [] p.verackFault = .ok l₄.conn := by
    rw [hp]
    exact (Line.send_ok hsend').2
  have hlast : l₄.conn.recvMatching H ["verack"] p.deadline (1000 * p.message) (some v.version)
      p.toVerack = some (found, l₅.conn) := by
    rw [hp]
    exact hws'
  have hspan : finish - l.now = p.finish - p.start := by
    rw [hp]
    rfl
  rw [← hp, hspan]
  unfold Dialogue.handshake
  simp only [hsend, hwait, hparse, hnegotiate', hverack, hlast]
  cases found <;> rfl

/-- **A handshake against the clock is one of the untimed handshakes.** -/
theorem handshake_untimed {r : HandshakeResult} (h : q.handshake H l = some (r, l')) :
    ∃ toVersion toVerack, (q.dialogue l.now l'.now toVersion toVerack).handshake H q.sentTs
      q.version.fault l.conn = some (r, l'.conn) := by
  cases handshake_course h with
  | unsent e hsend =>
    refine ⟨[], [], ?_⟩
    have hsend' := Line.send_error hsend
    unfold Dialogue.handshake
    simp only [Visit.dialogue, hsend', Line.wait_conn]
  | silent hhears | broken e hhears =>
    obtain ⟨c₁, ws, hfirst⟩ := hhears.untimed
    obtain ⟨p, hp, hsend, hwait⟩ := hfirst l'.now []
    refine ⟨ws, [], ?_⟩
    rw [← hp]
    unfold Dialogue.handshake
    simp only [hsend, hwait]
  | malformed env hhears hparse =>
    obtain ⟨c₁, ws, hfirst⟩ := hhears.untimed
    obtain ⟨p, hp, hsend, hwait⟩ := hfirst l'.now []
    refine ⟨ws, [], ?_⟩
    rw [← hp]
    unfold Dialogue.handshake
    simp only [hsend, hwait, hparse]
  | @unnegotiated l₂ env v e hhears hparse hnegotiate =>
    obtain ⟨c₁, ws, hfirst⟩ := hhears.untimed
    obtain ⟨p, hp, hsend, hwait⟩ := hfirst (l₂.wait q.negotiation.busy).now []
    have hnegotiate' := (negotiate_untimed p (by rw [hp]; rfl)).2 e hnegotiate
    refine ⟨ws, [], ?_⟩
    rw [← hp]
    unfold Dialogue.handshake
    simp only [hsend, hwait, hparse, hnegotiate', Line.wait_conn]
  | @unacknowledged l₂ l₃ env v e hhears hparse hnegotiate hsend' =>
    obtain ⟨c₁, ws, hfirst⟩ := hhears.untimed
    obtain ⟨p, hp, hsend, hwait⟩ := hfirst (l₃.wait q.verack.busy).now []
    have hnegotiate' := (negotiate_untimed p (by rw [hp]; rfl)).1 _ hnegotiate
    have hverack : l₃.conn.send H "verack" [] p.verackFault = .error e := by
      rw [hp]
      exact Line.send_error hsend'
    refine ⟨ws, [], ?_⟩
    rw [← hp]
    unfold Dialogue.handshake
    simp only [hsend, hwait, hparse, hnegotiate', hverack, Line.wait_conn]
  | unconfirmed v hconfirms | lost v e hconfirms | done v env hconfirms =>
    obtain ⟨ws, ws', hall⟩ := hconfirms.untimed
    exact ⟨ws, ws', hall l'.now⟩

end Handshake

/-! ## The collection -/

section Collection
variable {H : Digests} {L : Limits} {version : Int} {h : Handling} {s s' : Collecting}

/-- The time that handling what arrives takes. -/
def handlingOf (hs : List Handling) : Nat := (hs.map (·.busy)).sum

theorem handle_again {r : Received} {event : CollectEvent} {c : Connection}
    (hhandle : s.handle h r event c = .inr s') : s'.conn = c ∧ s'.arrivals = r.arrivals ∧
      s'.now = r.now + h.busy ∧ ∀ outcome, collect s.valid event ≠ .ended outcome := by
  unfold Collecting.handle at hhandle
  split at hhandle
  · rename_i hcollect
    cases hhandle
    exact ⟨rfl, rfl, rfl, fun _ hended => by rw [hcollect] at hended; cases hended⟩
  · cases hhandle
  · cases hhandle
  · rename_i hcollect
    split at hhandle
    · cases hhandle
    split at hhandle
    · cases hhandle
    · cases hhandle
      exact ⟨rfl, rfl, rfl, fun _ hended => by rw [hcollect] at hended; cases hended⟩

theorem handle_clock {r : Received} {event : CollectEvent} {c : Connection} {e : CollectionEnd}
    (hhandle : s.handle h r event c = .inl e) : e.now ≤ r.now + h.busy := by
  unfold Collecting.handle at hhandle
  split at hhandle
  · cases hhandle
  · cases hhandle
    exact Nat.le_add_right _ _
  · cases hhandle
    exact le_refl _
  · split at hhandle
    · cases hhandle
      exact le_refl _
    split at hhandle
    · cases hhandle
      exact le_refl _
    · cases hhandle

/-- The receive of a pass, with what it costs. -/
theorem Collecting.received_costs (hnow : s.now < L.hard) :
    (s.received H L).Costs (s.deadline L) (s.conn.ahead s.arrivals).length ∧
      s.deadline L ≤ L.hard := by
  have hdeadline : s.deadline L = s.now + min (L.hard - s.now) L.idle := rfl
  exact ⟨recvAt_costs _ _ _ (by omega), by omega⟩

/-- A pass that goes on has taken a message off the stream. -/
theorem collectStep_costs (hstep : collectStep H L version h s = .inr s') :
    s'.now ≤ L.hard + h.busy ∧
      (s'.conn.ahead s'.arrivals).length + 24 ≤ (s.conn.ahead s.arrivals).length := by
  unfold collectStep at hstep
  split at hstep
  · cases hstep
  rename_i hnow
  obtain ⟨⟨hclock, hstream⟩, hhard⟩ := @Collecting.received_costs H L s (by omega)
  dsimp only at hstep
  obtain ⟨hconn, harrivals, hnow', hgoes⟩ := handle_again hstep
  obtain ⟨hbuf, -⟩ := @collectEvent_buffer H version h.pongFault (s.received H L).result
    (s.received H L).conn
  refine ⟨by omega, ?_⟩
  cases hres : (s.received H L).result with
  | error e =>
    rw [hres] at hgoes
    simp only [collectEvent, collect] at hgoes
    split at hgoes
    · exact absurd rfl (hgoes _)
    · exact absurd rfl (hgoes _)
  | ok env =>
    cases env with
    | none =>
      rw [hres] at hgoes
      simp only [collectEvent] at hgoes
      cases hpart : (s.received H L).conn.hasPartialEnvelope
      · exact absurd (by rw [hpart]; rfl) (hgoes _)
      · exact absurd (by rw [hpart]; rfl) (hgoes _)
    | some env =>
      rw [hres] at hstream
      simp only [delivered, Option.isSome_some, if_true] at hstream
      rw [hconn, harrivals]
      unfold Connection.ahead at hstream ⊢
      rw [hbuf]
      exact hstream

theorem collectStep_clock {e : CollectionEnd} (hstep : collectStep H L version h s = .inl e) :
    e.now ≤ max s.now L.hard + h.busy := by
  unfold collectStep at hstep
  split at hstep
  · cases hstep
    exact (Nat.le_max_left _ _).trans (Nat.le_add_right _ _)
  rename_i hnow
  obtain ⟨⟨hclock, -⟩, hhard⟩ := @Collecting.received_costs H L s (by omega)
  have hend := handle_clock hstep
  omega

/-- **A collection returns.** -/
theorem collectLoop_returns : ∀ (hs : List Handling) (s : Collecting),
    (s.conn.ahead s.arrivals).length / 24 < hs.length →
    ∃ e, collectLoop H L version hs s = some e
  | [], _, hlen => absurd hlen (Nat.not_lt_zero _)
  | h :: hs, s, hlen => by
    unfold collectLoop
    cases hstep : collectStep H L version h s with
    | inl e => exact ⟨e, rfl⟩
    | inr s' =>
      obtain ⟨-, hstream⟩ := collectStep_costs hstep
      rw [List.length_cons] at hlen
      exact collectLoop_returns hs s' (by omega)

/-- A collection ends by its hard deadline, but for the time that handling takes. -/
theorem collectLoop_clock : ∀ {hs : List Handling} {s : Collecting} {e : CollectionEnd},
    collectLoop H L version hs s = some e → e.now ≤ max s.now L.hard + handlingOf hs
  | [], _, _, hloop => by cases hloop
  | h :: hs, s, e, hloop => by
    have hbusy : handlingOf (h :: hs) = h.busy + handlingOf hs := rfl
    unfold collectLoop at hloop
    cases hstep : collectStep H L version h s with
    | inl e' =>
      rw [hstep] at hloop
      cases hloop
      have hend := collectStep_clock hstep
      omega
    | inr s' =>
      rw [hstep] at hloop
      obtain ⟨hclock, -⟩ := collectStep_costs hstep
      have hend := collectLoop_clock hloop
      omega

end Collection

/-! ## Results -/

/-- The time that our side of a visit takes. -/
def Visit.busy (q : Visit) : Nat :=
  q.handshakeBusy + q.recording + q.getaddr.busy + handlingOf q.collecting

/-- The collection of a visit returns by its deadline. -/
theorem request_ends (H : Digests) (q : Visit) (v : VersionData) (l : Line)
    (hcollecting : l.stream.length / 24 < q.collecting.length) :
    ∃ e, (q.request v l).getaddr H = some e ∧
      e.now ≤ l.now + 1000 * q.timeouts.getaddr + handlingOf q.collecting := by
  unfold Request.getaddr
  split
  · exact ⟨_, rfl, by simp only [Visit.request]; omega⟩
  · rename_i c hsend
    obtain ⟨hbuf, -⟩ := send_buffer hsend
    have hstream : (c.ahead l.arrivals).length = l.stream.length := by
      unfold Connection.ahead Line.stream Connection.ahead
      rw [hbuf]
      rfl
    obtain ⟨e, he⟩ := @collectLoop_returns H (q.request v l).limits v.version q.collecting
      ((q.request v l).begun c) (hstream ▸ hcollecting)
    refine ⟨e, he, (collectLoop_clock he).trans ?_⟩
    simp only [Request.begun, Request.limits, Visit.request, Timeouts.limits]
    omega

/-- **No peer holds a worker by what it sends.**  Whatever arrives and however it is cut and timed, a
    visit whose own messages are sent or fail ends: by the deadlines of the handshake and of the
    collection, but for the time that our own side takes, and after one pass of a loop for every 24
    bytes at most, and for every 120 seconds. -/
theorem visit_ends (H : Digests) (q : Visit) (probe : Bool) (l : Line)
    (hversion : q.passes l ≤ q.toVersion.length) (hverack : q.passes l ≤ q.toVerack.length)
    (hcollecting : l.stream.length / 24 < q.collecting.length) :
    ∃ r, q.run H probe l = some r ∧ r.now ≤ l.now + 1000 * q.timeouts.message +
      (if probe then 0 else 1000 * q.timeouts.getaddr) + q.busy := by
  obtain ⟨⟨r, l'⟩, hr⟩ := @handshake_returns H q l hversion hverack
  obtain ⟨-, hclock, hless⟩ := handshake_clock hr
  unfold Visit.message at hclock
  unfold Visit.run Visit.busy
  rw [hr]
  cases r with
  | timeout | failed =>
    refine ⟨_, rfl, ?_⟩
    dsimp only
    omega
  | version v ms =>
    cases probe with
    | true =>
      refine ⟨_, rfl, ?_⟩
      dsimp only
      omega
    | false =>
      obtain ⟨e, he, hend⟩ := request_ends H q v (l'.wait (q.recording + q.getaddr.busy)) (by
        rw [Line.wait_stream]
        omega)
      rw [Line.wait_now] at hend
      dsimp only
      rw [he]
      refine ⟨_, rfl, ?_⟩
      simp only [Bool.false_eq_true, if_false]
      omega

/-- A version in two parts, a ping and a verack before the deadline, and an empty message and pings
    during the collection. -/
def dripArrivals : List Arrival :=
  [⟨0, .ok ((frameBytes .zero ⟨"version", buildVersion 0 0⟩).take 30)⟩,
    ⟨10000, .ok ((frameBytes .zero ⟨"version", buildVersion 0 0⟩).drop 30)⟩,
    ⟨20000, .ok (frameBytes .zero ⟨"ping", List.replicate 8 0⟩)⟩,
    ⟨29000, .ok (frameBytes .zero ⟨"verack", []⟩)⟩,
    ⟨31000, .ok (frameBytes .zero ⟨"addr", [0]⟩)⟩,
    ⟨32500, .ok (frameBytes .zero ⟨"ping", List.replicate 8 0⟩)⟩,
    ⟨33500, .ok (frameBytes .zero ⟨"ping", List.replicate 8 0⟩)⟩]

theorem dripArrivals_ordered : dripArrivals.Pairwise fun a b => a.time ≤ b.time := by
  simp [dripArrivals]

theorem fresh_stamped : ({} : Connection).Stamped 0 := .idle rfl rfl

def drip : Line where
  conn := {}
  now := 0
  arrivals := dripArrivals
  stamped := fresh_stamped
  ordered := dripArrivals_ordered

/-- A visit on which our side takes no time, with so many passes of its loops. -/
def prompt (timeouts : Timeouts) (passes : Nat) : Visit where
  timeouts := timeouts
  sentTs := 0
  nonce := 0
  toVersion := List.replicate passes {}
  toVerack := List.replicate passes {}
  collecting := List.replicate passes {}

set_option maxRecDepth 4000 in
/-- The drip has its handshake after 29 seconds, and its collection ends four seconds later. -/
theorem visit_ends_drip : ∃ r, (prompt ⟨3, 30, 4, 3⟩ 20).run .zero false drip = some r ∧
    r.collected = some .completeQuiet ∧ r.now = 33000 ∧ r.now ≤ 0 + 1000 * 30 + 1000 * 4 + 0 := by
  have hrun : ((prompt ⟨3, 30, 4, 3⟩ 20).run .zero false drip).map (fun r => (r.collected, r.now)) =
      some (some .completeQuiet, 33000) := by
    decide +kernel
  obtain ⟨r, hr, hend⟩ := visit_ends .zero (prompt ⟨3, 30, 4, 3⟩ 20) false drip (by decide +kernel)
    (by decide +kernel) (by decide +kernel)
  rw [hr, Option.map_some, Option.some.injEq] at hrun
  obtain ⟨hcollected, hnow⟩ := Prod.mk.inj hrun
  exact ⟨r, hr, hcollected, hnow, hend⟩

end P2PCrawler
