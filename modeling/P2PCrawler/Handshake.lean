import P2PCrawler.Connection
import P2PCrawler.Version

/-!
# The handshake on a connection (`crawler.rs`)

`handshake` sends our `version`, waits for the peer's, sends `sendaddrv2` and `verack`, and waits
for the peer's `verack`.  Each wait skips what it does not expect; the second one answers pings.

* `Connection.recvMatching` — one wait.
* `Dialogue.handshake` — all of it, on the bytes that the connection reads.
* `Dialogue.events` — what the waits see, message by message; `handshake_result` says that the
  handshake decides by that.
* `Greeting` — the messages of a handshake that succeeds, with what lies between them.
* `handshake_trace` — a handshake that returns a version has exchanged the messages of a greeting,
  and has taken its part of them off the beginning of the peer's stream.
-/

set_option autoImplicit false

namespace P2PCrawler

/-! ## Waiting for a message -/

/-- What the world answers in one pass of `recv_matching`: the clock, the clock and the rounds of
    the receive, and the error of sending a pong. -/
structure Pass where
  now : Nat
  start : Nat := 0
  rounds : List Round
  pongFault : Option IoError := none
  deriving DecidableEq, Repr

/-- What `recv_matching` does with a message that it does not expect: a ping is answered once the
    peer's version is known, anything else is skipped. -/
def Connection.answerUnmatched (H : Digests) (c : Connection) (pingVersion : Option Int)
    (env : Envelope) (fault : Option IoError) : Except ConnError Connection :=
  if env.command = "ping" then
    match pingVersion with
    | some version => c.answerPing H env.payload version fault
    | none => .ok c
  else .ok c

/-- `recv_matching`; `none` while it is waiting. -/
def Connection.recvMatching (H : Digests) (expected : List String) (deadline perTimeout : Nat)
    (pingVersion : Option Int) : Connection → List Pass → Option (RecvResult Envelope × Connection)
  | _, [] => none
  | c, w :: ws =>
    if deadline ≤ w.now then some (.timeout, c)
    else
      match recvOne H (min (deadline - w.now) perTimeout) w.start c w.rounds with
      | none => none
      | some (.ok (some env), c) =>
        if env.command ∈ expected then some (.message env, c)
        else
          match c.answerUnmatched H pingVersion env w.pongFault with
          | .error e => some (.transport e.toIo, c)
          | .ok c => recvMatching H expected deadline perTimeout pingVersion c ws
      | some (.ok none, c) => recvMatching H expected deadline perTimeout pingVersion c ws
      | some (.error e, c) => some (.transport e.toIo, c)

/-! ## The handshake -/

/-- One handshake as the world answers it: the clock, our nonce, the timeout in seconds, the passes
    of both waits, and the errors of our sends. -/
structure Dialogue where
  start : Nat
  nonce : UInt64
  message : Nat
  toVersion : List Pass
  negotiationFault : Option IoError := none
  verackFault : Option IoError := none
  toVerack : List Pass
  finish : Nat
  deriving DecidableEq, Repr

namespace Dialogue

def deadline (q : Dialogue) : Nat := q.start + 1000 * q.message

/-- BIP155 negotiation, only when both sides support it. -/
def negotiate (H : Digests) (q : Dialogue) (peerVersion : Int) (c : Connection) :
    Except ConnError Connection :=
  if 70016 ≤ min peerVersion protocolVersion then c.send H "sendaddrv2" [] q.negotiationFault
  else .ok c

/-- `handshake`: the result, and the connection afterwards; `none` while it is waiting. -/
def handshake (H : Digests) (q : Dialogue) (sentTs : Int64) (versionFault : Option IoError)
    (c : Connection) : Option (HandshakeResult × Connection) :=
  match c.send H "version" (buildVersion sentTs q.nonce) versionFault with
  | .error _ => some (.failed .versionSendFailed, c)
  | .ok c =>
    match c.recvMatching H ["version"] q.deadline (1000 * q.message) none q.toVersion with
    | none => none
    | some (.timeout, c) => some (.timeout, c)
    | some (.transport e, c) => some (.failed (classifyHandshakeError e), c)
    | some (.message env, c) =>
      match parseVersion env.payload with
      | none => some (.failed .malformedVersion, c)
      | some v =>
        match q.negotiate H v.version c with
        | .error _ => some (.failed .negotiationSendFailed, c)
        | .ok c =>
          match c.send H "verack" [] q.verackFault with
          | .error _ => some (.failed .verackSendFailed, c)
          | .ok c =>
            match c.recvMatching H ["verack"] q.deadline (1000 * q.message) (some v.version)
                q.toVerack with
            | none => none
            | some (.timeout, c) => some (.failed .peerVerackTimeout, c)
            | some (.transport e, c) => some (.failed (classifyHandshakeError e), c)
            | some (.message _, c) => some (.version v (q.finish - q.start), c)

end Dialogue

/-! ## What the waits see -/

def RecvResult.map {α β : Type} (f : α → β) : RecvResult α → RecvResult β
  | .message x => .message (f x)
  | .timeout => .timeout
  | .transport e => .transport e

/-- What a message is to the handshake, where answering it ended in `failed`. -/
def Envelope.peerEvent (env : Envelope) (failed : Option IoError) : PeerEvent :=
  if env.command = "version" then .version (parseVersion env.payload)
  else if env.command = "verack" then .verack
  else if env.command = "ping" then .ping failed
  else .other

/-- What a wait sees, up to its end. -/
def Connection.heard (H : Digests) (expected : List String) (deadline perTimeout : Nat)
    (pingVersion : Option Int) : Connection → List Pass → List PeerEvent
  | _, [] => []
  | c, w :: ws =>
    if deadline ≤ w.now then [.expired]
    else
      match recvOne H (min (deadline - w.now) perTimeout) w.start c w.rounds with
      | none => []
      | some (.ok (some env), c) =>
        if env.command ∈ expected then [env.peerEvent none]
        else
          match c.answerUnmatched H pingVersion env w.pongFault with
          | .error e => [env.peerEvent (some e.toIo)]
          | .ok c => env.peerEvent none :: heard H expected deadline perTimeout pingVersion c ws
      | some (.ok none, c) => .quiet :: heard H expected deadline perTimeout pingVersion c ws
      | some (.error e, _) => [.error e.toIo]

/-- What the second wait sees, after the first one has ended with `found`. -/
def Dialogue.heardLater (H : Digests) (q : Dialogue) (found : RecvResult Envelope) (c : Connection) :
    List PeerEvent :=
  match found with
  | .message env =>
    match parseVersion env.payload with
    | none => []
    | some v =>
      match (q.negotiate H v.version c).bind fun c => c.send H "verack" [] q.verackFault with
      | .error _ => []
      | .ok c => c.heard H ["verack"] q.deadline (1000 * q.message) (some v.version) q.toVerack
  | _ => []

/-- What both waits see, once our `version` is sent. -/
def Dialogue.events (H : Digests) (q : Dialogue) (sentTs : Int64) : List PeerEvent :=
  match ({} : Connection).send H "version" (buildVersion sentTs q.nonce) none with
  | .error _ => []
  | .ok c =>
    c.heard H ["version"] q.deadline (1000 * q.message) none q.toVersion ++
      ((c.recvMatching H ["version"] q.deadline (1000 * q.message) none q.toVersion).elim [] fun r =>
        q.heardLater H r.1 r.2)

/-! ## What crosses the wire -/

/-- The messages received. -/
def receivedIn (trace : List WireEvent) : List Envelope :=
  trace.filterMap fun | .received env => some env | .sent .. => none

/-- The messages received are the frames at the beginning of what was read. -/
def Connection.InStep (H : Digests) (c : Connection) : Prop :=
  ∃ fs, List.Forall₂ (FrameOf H) (receivedIn c.trace) fs ∧ c.reads.flatten = fs.flatten ++ c.recvBuf

/-- The ping is one that `answer_ping` accepts. -/
def ValidPing (version : Int) (env : Envelope) : Prop :=
  env.command = "ping" → if 60000 < version then env.payload.length = 8 else env.payload = []

/-- A message of the peer and our answer to it. -/
def exchange (pingVersion : Option Int) (env : Envelope) : List WireEvent :=
  .received env :: if env.command = "ping" ∧ pingVersion.any (60000 < ·) then
    [.sent "pong" env.payload] else []

section Wire
variable {H : Digests} {c c' : Connection}

theorem send_ok {command : String} {payload : List Byte} {fault : Option IoError}
    (h : c.send H command payload fault = .ok c') :
    c' = { c with trace := c.trace ++ [.sent command payload] } := by
  unfold Connection.send at h
  split at h
  · cases h
  · split at h <;> cases h
    rfl

theorem Connection.InStep.sent (h : c.InStep H) (command : String) (payload : List Byte) :
    Connection.InStep H { c with trace := c.trace ++ [.sent command payload] } := by
  obtain ⟨fs, hfs, hreads⟩ := h
  refine ⟨fs, ?_, hreads⟩
  simpa [receivedIn] using hfs

theorem Connection.InStep.fill (h : c.InStep H) (bytes : List Byte) (readAt : Nat) :
    (c.fill bytes readAt).InStep H := by
  obtain ⟨fs, hfs, hreads⟩ := h
  refine ⟨fs, hfs, ?_⟩
  show (c.reads ++ [bytes]).flatten = fs.flatten ++ (c.recvBuf ++ bytes)
  rw [List.flatten_append, hreads, List.flatten_singleton, List.append_assoc]

theorem Connection.InStep.deliver (h : c.InStep H) {env : Envelope} {rest : List Byte} (parsedAt : Nat)
    (hparse : tryParseEnvelope H c.recvBuf = (.ok (some env), rest)) :
    (c.deliver env rest parsedAt).InStep H := by
  obtain ⟨fs, hfs, hreads⟩ := h
  obtain ⟨f, hf, hbuf⟩ := tryParseEnvelope_take_iff.mp hparse
  refine ⟨fs ++ [f], ?_, ?_⟩
  · have hsnoc : receivedIn (c.deliver env rest parsedAt).trace = receivedIn c.trace ++ [env] := by
      simp [receivedIn, Connection.deliver]
    rw [hsnoc]
    exact List.rel_append hfs (.cons hf .nil)
  · show c.reads.flatten = (fs ++ [f]).flatten ++ rest
    rw [hreads, hbuf]
    simp

/-- One receive takes at most one message. -/
theorem recvOne_trace {perTimeout start : Nat} : ∀ {rounds : List Round} {c c' : Connection}
    {res : RecvOutcome}, recvOne H perTimeout start c rounds = some (res, c') → c.InStep H →
    c'.InStep H ∧ c'.trace = c.trace ++ ((delivered res).toList.map .received)
  | [], _, _, _, h, _ => by cases h
  | r :: rounds, c, c', res, h, hc => by
    simp only [recvOne] at h
    split at h
    · cases h
      exact ⟨hc, (List.append_nil _).symm⟩
    · rename_i hparse
      cases h
      exact ⟨hc.deliver _ hparse, rfl⟩
    · split at h
      · cases h
        exact ⟨hc, (List.append_nil _).symm⟩
      split at h
      · cases h
        exact ⟨hc, (List.append_nil _).symm⟩
      split at h
      · cases h
        exact ⟨hc, (List.append_nil _).symm⟩
      · cases h
        exact ⟨hc, (List.append_nil _).symm⟩
      · cases h
        exact ⟨hc, (List.append_nil _).symm⟩
      · split at h
        · cases h
          exact ⟨hc.fill _ _, (List.append_nil _).symm⟩
        · obtain ⟨hc', htrace⟩ := recvOne_trace h (hc.fill _ _)
          exact ⟨hc', htrace⟩

/-- An unexpected message, and what its answer adds to the trace. -/
theorem answerUnmatched_ok {pingVersion : Option Int} {env : Envelope} {fault : Option IoError}
    (h : c.answerUnmatched H pingVersion env fault = .ok c') (hc : c.InStep H) :
    c'.InStep H ∧ c'.trace = c.trace ++ (exchange pingVersion env).tail ∧
      ∀ version, pingVersion = some version → ValidPing version env := by
  unfold Connection.answerUnmatched at h
  split at h
  · rename_i hping
    split at h
    · rename_i version
      unfold Connection.answerPing at h
      simp only at h
      split at h
      · rename_i hvalid
        have hok : ValidPing version env := by
          intro _
          by_cases hv : 60000 < version <;> simp [validatePingPayload, hv] at hvalid ⊢ <;>
            exact hvalid
        split at h
        · rename_i hv
          rw [send_ok h]
          refine ⟨hc.sent _ _, ?_, fun v hv' => by cases hv'; exact hok⟩
          have hnonce : 60000 < version := of_decide_eq_true hv
          simp [exchange, hping, hnonce]
        · rename_i hv
          cases h
          refine ⟨hc, ?_, fun v hv' => by cases hv'; exact hok⟩
          have hnonce : ¬60000 < version := fun h => hv (decide_eq_true h)
          simp only [exchange, hping, Option.any_some, hnonce, decide_false, Bool.false_eq_true,
            and_false, if_false, List.tail_cons, List.append_nil]
      · cases h
    · cases h
      exact ⟨hc, by simp [exchange], fun v hv => by cases hv⟩
  · rename_i hping
    cases h
    exact ⟨hc, by simp [exchange, hping], fun v _ hp => absurd hp hping⟩

/-- A wait that finds its message: what it skipped before, and how. -/
theorem recvMatching_message {expected : List String} {deadline perTimeout : Nat}
    {pingVersion : Option Int} {env : Envelope} : ∀ {ws : List Pass} {c c' : Connection},
    c.recvMatching H expected deadline perTimeout pingVersion ws = some (.message env, c') →
    c.InStep H → c'.InStep H ∧ env.command ∈ expected ∧ ∃ skipped : List Envelope,
      c'.trace = c.trace ++ skipped.flatMap (exchange pingVersion) ++ [.received env] ∧
      ∀ e ∈ skipped, e.command ∉ expected ∧
        ∀ version, pingVersion = some version → ValidPing version e
  | [], _, _, h, _ => by cases h
  | w :: ws, c, c', h, hc => by
    simp only [Connection.recvMatching] at h
    split at h
    · cases h
    split at h
    · cases h
    · rename_i e c₁ hrecv
      obtain ⟨hc₁, htrace⟩ := recvOne_trace hrecv hc
      split at h
      · rename_i hmem
        cases h
        exact ⟨hc₁, hmem, [], by simpa [delivered] using htrace, by simp⟩
      rename_i hnot
      split at h
      · cases h
      rename_i c₂ hanswer
      obtain ⟨hc₂, htrace₂, hvalid⟩ := answerUnmatched_ok hanswer hc₁
      obtain ⟨hc', hmem, skipped, htrace', hskipped⟩ := recvMatching_message h hc₂
      refine ⟨hc', hmem, e :: skipped, ?_, ?_⟩
      · rw [htrace', htrace₂, htrace]
        simp [delivered, exchange]
      · intro e' he'
        rcases List.mem_cons.mp he' with rfl | he'
        · exact ⟨hnot, hvalid⟩
        · exact hskipped e' he'
    · rename_i c₁ hrecv
      obtain ⟨hc₁, htrace⟩ := recvOne_trace hrecv hc
      have hsame : c₁.trace = c.trace := by simpa [delivered] using htrace
      rw [← hsame]
      exact recvMatching_message h hc₁
    · cases h

/-- Whatever its result, a wait sends nothing but pongs. -/
theorem recvMatching_sends {expected : List String} {deadline perTimeout : Nat}
    {pingVersion : Option Int} {res : RecvResult Envelope} : ∀ {ws : List Pass} {c c' : Connection},
    c.recvMatching H expected deadline perTimeout pingVersion ws = some (res, c') →
    c.InStep H → ∀ command payload, .sent command payload ∈ c'.trace →
      command = "pong" ∨ .sent command payload ∈ c.trace
  | [], _, _, h, _ => by cases h
  | w :: ws, c, c', h, hc => by
    intro command payload hmem
    have hback : ∀ {res : RecvOutcome} {c₁ : Connection}, recvOne H
        (min (deadline - w.now) perTimeout) w.start c w.rounds = some (res, c₁) →
        .sent command payload ∈ c₁.trace → .sent command payload ∈ c.trace := by
      intro res c₁ hrecv hmem
      rw [(recvOne_trace hrecv hc).2] at hmem
      simpa using hmem
    simp only [Connection.recvMatching] at h
    split at h
    · cases h
      exact .inr hmem
    split at h
    · cases h
    · rename_i e c₁ hrecv
      have hc₁ := (recvOne_trace hrecv hc).1
      split at h
      · cases h
        exact .inr (hback hrecv hmem)
      split at h
      · cases h
        exact .inr (hback hrecv hmem)
      rename_i c₂ hanswer
      obtain ⟨hc₂, htrace₂, -⟩ := answerUnmatched_ok hanswer hc₁
      rcases recvMatching_sends h hc₂ command payload hmem with hpong | hmem
      · exact .inl hpong
      rw [htrace₂] at hmem
      rcases List.mem_append.mp hmem with hmem | hmem
      · exact .inr (hback hrecv hmem)
      · unfold exchange at hmem
        rw [List.tail_cons] at hmem
        split at hmem
        · cases List.mem_singleton.mp hmem
          exact .inl rfl
        · cases hmem
    · rename_i c₁ hrecv
      rcases recvMatching_sends h (recvOne_trace hrecv hc).1 command payload hmem with hpong | hmem
      · exact .inl hpong
      · exact .inr (hback hrecv hmem)
    · rename_i e c₁ hrecv
      cases h
      exact .inr (hback hrecv hmem)

end Wire

/-! ## Greetings -/

/-- What the peer sends in a handshake that succeeds: the messages before its `version`, the
    payload of that, the messages between it and its `verack`, and the payload of that. -/
structure Greeting where
  before : List Envelope
  version : List Byte
  between : List Envelope
  verack : List Byte

namespace Greeting

/-- The messages of the handshake in their order, where we send `own` to a peer of version `v`. -/
def trace (g : Greeting) (own : List Byte) (v : Int) : List WireEvent :=
  .sent "version" own :: g.before.map .received ++ [.received ⟨"version", g.version⟩] ++
    (if 70016 ≤ v then [.sent "sendaddrv2" []] else []) ++ [.sent "verack" []] ++
    g.between.flatMap (exchange (some v)) ++ [.received ⟨"verack", g.verack⟩]

/-- The `version` is the first one and announces `v`, the `verack` is the first one after it, and the
    pings between them are valid for `v`. -/
structure Announces (g : Greeting) (v : VersionData) : Prop where
  first : ∀ env ∈ g.before, env.command ≠ "version"
  parsed : parseVersion g.version = some v
  waiting : ∀ env ∈ g.between, env.command ≠ "verack"
  pings : ∀ env ∈ g.between, ValidPing v.version env

end Greeting

/-- On the connection, exactly a handshake with a peer that announces `v` was exchanged, and the
    peer's part of it is the beginning of what was read. -/
structure Greeted (H : Digests) (sentTs : Int64) (nonce : UInt64) (v : VersionData) (c : Connection) :
    Prop where
  exchanged : ∃ g : Greeting, g.Announces v ∧ c.trace = g.trace (buildVersion sentTs nonce) v.version
  read : ∃ fs, List.Forall₂ (FrameOf H) (receivedIn c.trace) fs ∧ c.reads.flatten = fs.flatten ++ c.recvBuf

section Result
variable {H : Digests} {q : Dialogue} {sentTs : Int64} {versionFault : Option IoError}
  {c : Connection}

theorem idle_inStep : Connection.InStep H {} := ⟨[], .nil, rfl⟩

theorem negotiate_ok {peerVersion : Int} {c c' : Connection}
    (h : q.negotiate H peerVersion c = .ok c') (hc : c.InStep H) : c'.InStep H ∧ c'.trace = c.trace ++
      if 70016 ≤ peerVersion then [.sent "sendaddrv2" []] else [] := by
  have hmin : 70016 ≤ min peerVersion protocolVersion ↔ 70016 ≤ peerVersion := by
    unfold protocolVersion
    omega
  unfold Dialogue.negotiate at h
  simp only [hmin] at h
  split at h
  · rename_i hv
    rw [send_ok h, if_pos hv]
    exact ⟨hc.sent _ _, rfl⟩
  · rename_i hv
    cases h
    rw [if_neg hv]
    exact ⟨hc, (List.append_nil _).symm⟩

/-- **A handshake that returns a version has taken place**, message by message. -/
theorem handshake_greeted {v : VersionData} {durationMs : Nat}
    (h : q.handshake H sentTs versionFault {} = some (.version v durationMs, c)) :
    Greeted H sentTs q.nonce v c := by
  unfold Dialogue.handshake at h
  split at h
  · cases h
  rename_i c₁ hsend
  have h₁ : c₁.InStep H := by rw [send_ok hsend]; exact idle_inStep.sent _ _
  have htrace₁ : c₁.trace = [.sent "version" (buildVersion sentTs q.nonce)] := by
    rw [send_ok hsend]; rfl
  split at h
  · cases h
  · cases h
  · cases h
  rename_i env c₂ hwait
  obtain ⟨h₂, hcommand, before, htrace₂, hbefore⟩ := recvMatching_message hwait h₁
  split at h
  · cases h
  rename_i v' hparsed
  split at h
  · cases h
  rename_i c₃ hnegotiate
  obtain ⟨h₃, htrace₃⟩ := negotiate_ok hnegotiate h₂
  split at h
  · cases h
  rename_i c₄ hverack
  have h₄ : c₄.InStep H := by rw [send_ok hverack]; exact h₃.sent _ _
  have htrace₄ : c₄.trace = c₃.trace ++ [.sent "verack" []] := by rw [send_ok hverack]
  split at h
  · cases h
  · cases h
  · cases h
  rename_i env' c₅ hwait'
  obtain ⟨h₅, hcommand', between, htrace₅, hbetween⟩ := recvMatching_message hwait' h₄
  cases h
  obtain ⟨command, payload⟩ := env
  obtain ⟨command', payload'⟩ := env'
  obtain rfl := List.mem_singleton.mp hcommand
  obtain rfl := List.mem_singleton.mp hcommand'
  have hskipped : before.flatMap (exchange none) = before.map .received := by
    rw [List.map_eq_flatMap]
    congr 1
    funext e
    simp [exchange]
  refine ⟨⟨⟨before, payload, between, payload'⟩, ⟨?_, hparsed, ?_, ?_⟩, ?_⟩, h₅⟩
  · intro e he
    simpa using (hbefore e he).1
  · intro e he
    simpa using (hbetween e he).1
  · intro e he
    exact (hbetween e he).2 _ rfl
  · rw [htrace₅, htrace₄, htrace₃, htrace₂, htrace₁, hskipped]
    simp [Greeting.trace]

theorem send_mem {c c' : Connection} {command command' : String} {payload payload' : List Byte}
    {fault : Option IoError} (h : c.send H command' payload' fault = .ok c')
    (hmem : .sent command payload ∈ c'.trace) :
    command = command' ∨ .sent command payload ∈ c.trace := by
  rw [send_ok h] at hmem
  rcases List.mem_append.mp hmem with hmem | hmem
  · exact .inr hmem
  · cases List.mem_singleton.mp hmem
    exact .inl rfl

/-- Whatever its result, a handshake sends its own messages only. -/
theorem handshake_sends {r : HandshakeResult} {command : String} {payload : List Byte}
    (h : q.handshake H sentTs versionFault {} = some (r, c)) (hmem : .sent command payload ∈ c.trace) :
    command ∈ ["version", "sendaddrv2", "verack", "pong"] := by
  by_contra hnot
  simp only [List.mem_cons, List.not_mem_nil, or_false, not_or] at hnot
  obtain ⟨hversion, hsendaddrv2, hverack, hpong⟩ := hnot
  have hidle : WireEvent.sent command payload ∉ ({} : Connection).trace := fun h => by cases h
  unfold Dialogue.handshake at h
  split at h
  · cases h
    exact hidle hmem
  rename_i c₁ hsend
  have h₁ : c₁.InStep H := by rw [send_ok hsend]; exact idle_inStep.sent _ _
  have hnone₁ : .sent command payload ∉ c₁.trace := fun hm =>
    (send_mem hsend hm).elim hversion hidle
  split at h
  · cases h
  · rename_i hwait
    cases h
    exact (recvMatching_sends hwait h₁ command payload hmem).elim hpong hnone₁
  · rename_i hwait
    cases h
    exact (recvMatching_sends hwait h₁ command payload hmem).elim hpong hnone₁
  rename_i env c₂ hwait
  have h₂ := (recvMatching_message hwait h₁).1
  have hnone₂ : .sent command payload ∉ c₂.trace := fun hm =>
    (recvMatching_sends hwait h₁ command payload hm).elim hpong hnone₁
  split at h
  · cases h
    exact hnone₂ hmem
  split at h
  · cases h
    exact hnone₂ hmem
  rename_i c₃ hnegotiate
  obtain ⟨h₃, htrace₃⟩ := negotiate_ok hnegotiate h₂
  have hnone₃ : .sent command payload ∉ c₃.trace := by
    intro hm
    rw [htrace₃] at hm
    rcases List.mem_append.mp hm with hm | hm
    · exact hnone₂ hm
    · split at hm
      · cases List.mem_singleton.mp hm
        exact hsendaddrv2 rfl
      · cases hm
  split at h
  · cases h
    exact hnone₃ hmem
  rename_i c₄ hsend'
  have h₄ : c₄.InStep H := by rw [send_ok hsend']; exact h₃.sent _ _
  have hnone₄ : .sent command payload ∉ c₄.trace := fun hm =>
    (send_mem hsend' hm).elim hverack hnone₃
  split at h
  · cases h
  all_goals
    rename_i hwait'
    cases h
    exact (recvMatching_sends hwait' h₄ command payload hmem).elim hpong hnone₄

end Result

/-! ## Deciding by what was seen -/

section Heard
variable {H : Digests} {q : Dialogue}

/-- A message that is short enough is framed. -/
theorem send_result {c : Connection} {command : String} {payload : List Byte}
    (hcommand : validateCommand command = .ok ()) (hlen : payload.length ≤ maxProtocolMessageLength)
    (fault : Option IoError) : c.send H command payload fault =
      fault.elim (.ok { c with trace := c.trace ++ [.sent command payload] }) fun e => .error (.io e) := by
  unfold Connection.send
  rw [frame_ok_iff.mpr ⟨hcommand, hlen, rfl⟩]
  cases fault <;> rfl

theorem length_buildVersion (sentTs : Int64) (nonce : UInt64) :
    (buildVersion sentTs nonce).length ≤ maxProtocolMessageLength := by
  have hagent : (utf8 crawlerUserAgent.toList).length = 23 := by decide
  have hsize : (writeCompactSize 23).length = 1 := by decide
  have hip : zeroIp.length = 16 := rfl
  unfold buildVersion zeroNetaddr maxProtocolMessageLength
  rw [hagent]
  simp only [List.length_append, length_intBytes, leBytes_length, beBytes_length, hagent, hsize, hip,
    List.length_singleton]
  omega

theorem answerUnmatched_error {c : Connection} {pingVersion : Option Int} {env : Envelope}
    {fault : Option IoError} {e : ConnError} (h : c.answerUnmatched H pingVersion env fault = .error e) :
    env.command = "ping" ∧ pingVersion.isSome = true := by
  unfold Connection.answerUnmatched at h
  split at h
  · rename_i hping
    cases pingVersion with
    | none => cases h
    | some version => exact ⟨hping, rfl⟩
  · cases h

/-- An event that neither is expected nor fails is skipped. -/
theorem recvMatching_skip {α : Type} {expected : PeerEvent → Option α} {answersPings : Bool}
    {env : Envelope} (hother : expected (env.peerEvent none) = none) (more : List PeerEvent) :
    recvMatching expected answersPings (env.peerEvent none :: more) =
      recvMatching expected answersPings more := by
  unfold Envelope.peerEvent at hother ⊢
  repeat' split
  all_goals simp_all [recvMatching]

/-- A wait decides by what it sees. -/
theorem recvMatching_heard {α : Type} {commands : List String} {expected : PeerEvent → Option α}
    {value : Envelope → α} {deadline perTimeout : Nat} {pingVersion : Option Int}
    (hmatch : ∀ env : Envelope, env.command ∈ commands → expected (env.peerEvent none) = some (value env))
    (hother : ∀ (env : Envelope) failed, env.command ∉ commands → expected (env.peerEvent failed) = none)
    (hquiet : expected .quiet = none) (hexpired : expected .expired = none)
    (herror : ∀ e, expected (.error e) = none) (more : List PeerEvent) :
    ∀ (ws : List Pass) (c : Connection), recvMatching expected pingVersion.isSome
        (c.heard H commands deadline perTimeout pingVersion ws ++ more) =
      (c.recvMatching H commands deadline perTimeout pingVersion ws).elim
        (recvMatching expected pingVersion.isSome more) fun r => some (r.1.map value, more)
  | [], c => rfl
  | w :: ws, c => by
    unfold Connection.heard Connection.recvMatching
    split
    · simp [recvMatching, hexpired, RecvResult.map]
    split
    · rfl
    · rename_i env c₁ hrecv
      split
      · rename_i hmem
        simp [recvMatching, hmatch env hmem, RecvResult.map]
      rename_i hnot
      split
      · rename_i e hanswer
        obtain ⟨hping, hsome⟩ := answerUnmatched_error hanswer
        have hevent : env.peerEvent (some e.toIo) = .ping (some e.toIo) := by
          simp [Envelope.peerEvent, hping]
        have hnone := hother env (some e.toIo) hnot
        rw [hevent] at hnone
        simp [recvMatching, hevent, hnone, hsome, RecvResult.map]
      · rw [List.cons_append, recvMatching_skip (hother env none hnot)]
        exact recvMatching_heard hmatch hother hquiet hexpired herror more ws _
    · simp only [List.cons_append, recvMatching, hquiet]
      exact recvMatching_heard hmatch hother hquiet hexpired herror more ws _
    · simp [recvMatching, herror, RecvResult.map]

theorem version_heard {deadline perTimeout : Nat} (more : List PeerEvent) (ws : List Pass)
    (c : Connection) : recvMatching PeerEvent.asVersion false
        (c.heard H ["version"] deadline perTimeout none ws ++ more) =
      (c.recvMatching H ["version"] deadline perTimeout none ws).elim
        (recvMatching PeerEvent.asVersion false more) fun r =>
          some (r.1.map fun env => parseVersion env.payload, more) := by
  refine @recvMatching_heard H _ ["version"] PeerEvent.asVersion (fun env => parseVersion env.payload)
    deadline perTimeout none ?_ ?_ rfl rfl (fun _ => rfl) more ws c
  · intro env hmem
    rw [Envelope.peerEvent, if_pos (List.mem_singleton.mp hmem)]
    rfl
  · intro env failed hnot
    rw [Envelope.peerEvent, if_neg (by simpa using hnot)]
    split
    · rfl
    · split <;> rfl

theorem verack_heard {deadline perTimeout : Nat} (version : Int) (ws : List Pass) (c : Connection) :
    recvMatching PeerEvent.asVerack true
        (c.heard H ["verack"] deadline perTimeout (some version) ws) =
      (c.recvMatching H ["verack"] deadline perTimeout (some version) ws).map fun r =>
        (r.1.map fun _ => (), []) := by
  have hseen := @recvMatching_heard H Unit ["verack"] PeerEvent.asVerack (fun _ => ()) deadline
    perTimeout (some version) ?_ ?_ rfl rfl (fun _ => rfl) [] ws c
  · rw [List.append_nil] at hseen
    refine hseen.trans ?_
    cases c.recvMatching H ["verack"] deadline perTimeout (some version) ws <;> rfl
  · intro env hmem
    have hcommand : env.command = "verack" := List.mem_singleton.mp hmem
    rw [Envelope.peerEvent, hcommand]
    rfl
  · intro env failed hnot
    have hcommand : env.command ≠ "verack" := by simpa using hnot
    rw [Envelope.peerEvent, if_neg hcommand]
    split
    · rfl
    · split <;> rfl

theorem negotiate_cases (H : Digests) (q : Dialogue) (version : Int) (c : Connection) :
    if 70016 ≤ min version protocolVersion ∧ q.negotiationFault.isSome = true
    then ∃ e, q.negotiate H version c = .error e else ∃ c', q.negotiate H version c = .ok c' := by
  have hsend := @send_result H c "sendaddrv2" [] (by decide) (Nat.zero_le _) q.negotiationFault
  unfold Dialogue.negotiate
  by_cases hv : 70016 ≤ min version protocolVersion
  · cases hfault : q.negotiationFault with
    | none => simp [hv, hfault ▸ hsend]
    | some e => simp [hv, hfault ▸ hsend]
  · simp [hv]

/-- The handshake decides by what its waits see. -/
theorem handshake_result (q : Dialogue) (sentTs : Int64) :
    (q.handshake H sentTs none {}).map Prod.fst =
      handshakeResult (q.events H sentTs) q.negotiationFault q.verackFault (q.finish - q.start) := by
  obtain ⟨c, hversion⟩ : ∃ c,
      ({} : Connection).send H "version" (buildVersion sentTs q.nonce) none = .ok c :=
    ⟨_, send_result (by decide) (length_buildVersion sentTs q.nonce) none⟩
  have hempty : ([] : List Byte).length ≤ maxProtocolMessageLength := Nat.zero_le _
  unfold Dialogue.handshake Dialogue.events handshakeResult
  simp only [hversion]
  rw [version_heard]
  cases hfirst : c.recvMatching H ["version"] q.deadline (1000 * q.message) none q.toVersion with
  | none => rfl
  | some r =>
    obtain ⟨found, c⟩ := r
    cases found with
    | timeout | transport e => rfl
    | message env =>
      simp only [Option.elim_some, RecvResult.map, Dialogue.heardLater]
      cases hparsed : parseVersion env.payload with
      | none => rfl
      | some v =>
        have hnegotiate := negotiate_cases H q v.version c
        simp only
        split at hnegotiate
        · rename_i hfails
          obtain ⟨e, he⟩ := hnegotiate
          simp only [he, if_pos hfails]
          rfl
        rename_i hfine
        obtain ⟨c₁, hc₁⟩ := hnegotiate
        have hsend := @send_result H c₁ "verack" [] (by decide) hempty q.verackFault
        simp only [hc₁, if_neg hfine, Except.bind]
        cases hfault : q.verackFault with
        | some e =>
          rw [hfault] at hsend
          simp only [hsend]
          rfl
        | none =>
          rw [hfault] at hsend
          simp only [hsend, Option.elim_none]
          rw [verack_heard]
          cases Connection.recvMatching H ["verack"] q.deadline (1000 * q.message) (some v.version)
              { c₁ with trace := c₁.trace ++ [.sent "verack" []] } q.toVerack with
          | none => rfl
          | some r =>
            obtain ⟨found, c₂⟩ := r
            cases found <;> rfl

end Heard

end P2PCrawler
