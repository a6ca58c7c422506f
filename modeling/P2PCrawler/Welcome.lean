import P2PCrawler.Visit

/-!
# Peers that greet are heard

A handshake that returns a version has exchanged a greeting (`handshake_greeted`).  Here is the
other direction: a peer that sends a greeting in time is recognised, whatever it says in between and
however its bytes are cut.

* `ReadsFit` — no read that is made for a frame is too long for the buffer.
* `Line.Fed` — the frames that a line brings in time, whatever comes later.
* `Line.receive_frame` — a receive takes the frame at the front of these bytes.
* `recvMatching_finds` — a wait takes the message it expects, past messages that it skips.

## Results

* `greeting_accepted` — **every greeting that comes in time is accepted**, with the version that it
  announces, and not a byte behind it is taken.
-/

set_option autoImplicit false

namespace P2PCrawler

/-! ## Bytes in time -/

/-- While frames of `fs` are awaited, no read pushes the buffer over its limit: `buf` is in the buffer
    already, and `chunks` are the reads to come. -/
def ReadsFit (fs : List (List Byte)) (buf : List Byte) (chunks : List (List Byte)) : Prop :=
  ∀ k < chunks.length, (buf ++ (chunks.take k).flatten).length < fs.flatten.length →
    buffered fs (buf :: chunks) (k + 1) ≤ recvLimit

instance (fs : List (List Byte)) (buf : List Byte) (chunks : List (List Byte)) :
    Decidable (ReadsFit fs buf chunks) :=
  inferInstanceAs (Decidable (∀ k < chunks.length, _ → _))

section ReadsFit
variable {f buf chunk : List Byte} {fs chunks : List (List Byte)}

/-- The next read for an incomplete frame fits. -/
theorem ReadsFit.read (h : ReadsFit (f :: fs) buf (chunk :: chunks)) (hshort : buf.length < f.length) :
    (buf ++ chunk).length ≤ recvLimit ∧ ReadsFit (f :: fs) (buf ++ chunk) chunks := by
  constructor
  · have hfirst := h 0 (Nat.succ_pos _) (by
      simp only [List.take_zero, List.flatten_nil, List.append_nil, List.flatten_cons,
        List.length_append]
      omega)
    simp only [buffered, List.take_succ_cons, List.take_zero, List.flatten_cons, List.flatten_nil,
      List.append_nil, Framing.completed] at hfirst
    rwa [if_neg (by omega), Nat.sub_zero] at hfirst
  · intro k hk hawaited
    have hnext := h (k + 1) (Nat.succ_lt_succ hk) (by
      rwa [List.take_succ_cons, List.flatten_cons, ← List.append_assoc])
    simp only [buffered, List.take_succ_cons, List.flatten_cons, List.append_assoc] at hnext ⊢
    exact hnext

/-- A frame that is complete is taken off. -/
theorem ReadsFit.take {v : List Byte} (h : ReadsFit (f :: fs) (f ++ v) chunks) : ReadsFit fs v chunks := by
  intro k hk hawaited
  have hall := h k hk (by
    rw [List.append_assoc, List.flatten_cons, List.length_append, @List.length_append _ f]
    exact Nat.add_lt_add_left hawaited _)
  have hsub : ∀ n, f.length + n - f.length = n := fun n => Nat.add_sub_cancel_left ..
  simp only [buffered, List.take_succ_cons, List.flatten_cons, List.append_assoc, Framing.completed,
    List.length_append] at hall ⊢
  rw [if_pos (by omega), hsub] at hall
  omega

end ReadsFit

/-- The line brings exactly the frames `fs` and `more` by `T`, as data, and no read is too long for
    the buffer; `later` is what comes after that. -/
structure Line.Fed (base T : Nat) (later : List Arrival) (fs : List (List Byte)) (more : List Byte)
    (l : Line) : Prop where
  feed : ∃ feed, l.arrivals = feed ++ later ∧ l.conn.ahead feed = fs.flatten ++ more ∧
    (∀ a ∈ feed, a.time ≤ T ∧ ∃ b bytes, a.read = .ok (b :: bytes)) ∧
    ReadsFit fs l.conn.recvBuf (feed.map Arrival.bytes)
  /-- no frame is older than `base` -/
  begun : ∀ f, l.conn.frameStarted = some f → base ≤ f

section Fed
variable {H : Digests} {base T deadline : Nat} {later : List Arrival} {fs : List (List Byte)}
  {more : List Byte}

theorem Line.Fed.spend {busy : Nat} {l l' : Line} (h : l.Fed base T later fs more)
    (hspends : l.Spends busy l') : l'.Fed base T later fs more := by
  obtain ⟨⟨feed, harrivals, hahead, hfeed, hroom⟩, hbegun⟩ := h
  refine ⟨⟨feed, hspends.arrivals.trans harrivals, ?_, hfeed, ?_⟩, ?_⟩
  · unfold Connection.ahead at hahead ⊢
    rw [hspends.buffer, hahead]
  · rw [hspends.buffer]
    exact hroom
  · rw [hspends.frame]
    exact hbegun

/-- A receive takes the frame at the front. -/
theorem recvAt_frame {env : Envelope} {f : List Byte} (hf : FrameOf H env f)
    (hT : T < deadline) (hbase : T < base + envelopeHardTimeout) :
    ∀ (feed : List Arrival) (c : Connection) (now : Nat),
      c.ahead feed = (f :: fs).flatten ++ more →
      (∀ a ∈ feed, a.time ≤ T ∧ ∃ b bytes, a.read = .ok (b :: bytes)) →
      ReadsFit (f :: fs) c.recvBuf (feed.map Arrival.bytes) →
      (∀ f, c.frameStarted = some f → base ≤ f) → base ≤ now →
      now < deadline → now < base + envelopeHardTimeout → ∃ c' now' feed',
      recvAt H deadline c now (feed ++ later) = ⟨.ok (some env), c', now', feed' ++ later⟩ ∧
        c'.ahead feed' = fs.flatten ++ more ∧ feed' <:+ feed ∧ now' ≤ max now T ∧
        ReadsFit fs c'.recvBuf (feed'.map Arrival.bytes) ∧ ∀ f, c'.frameStarted = some f → base ≤ f
  | feed, c, now, hahead, hfeed, hroom, hbegun, hnow, hcall, hframe => by
    have hfront : f <+: c.ahead feed := ⟨fs.flatten ++ more, by
      rw [hahead, List.flatten_cons, List.append_assoc]⟩
    have hbuf : c.recvBuf <+: c.ahead feed := List.prefix_append ..
    by_cases hwhole : f.length ≤ c.recvBuf.length
    · -- the frame is in the buffer
      obtain ⟨v, hv⟩ := List.prefix_of_prefix_length_le hfront hbuf hwhole
      have hparse : tryParseEnvelope H c.recvBuf = (.ok (some env), v) :=
        tryParseEnvelope_take_iff.mpr ⟨f, hf, hv.symm⟩
      refine ⟨c.deliver env v now, now, feed, ?_, ?_, List.suffix_refl _, Nat.le_max_left _ _, ?_, ?_⟩
      · unfold recvAt
        rw [hparse]
      · unfold Connection.ahead at hahead
        rw [← hv, List.append_assoc, List.flatten_cons, List.append_assoc] at hahead
        exact List.append_cancel_left hahead
      · rw [← hv] at hroom
        exact hroom.take
      · intro f' hf'
        simp only [Connection.deliver] at hf'
        split at hf' <;> cases hf'
        exact hnow
    · -- more of it has to come
      have hshort : tryParseEnvelope H c.recvBuf = (.ok none, c.recvBuf) := by
        have hpart := List.prefix_of_prefix_length_le hbuf hfront (by omega)
        exact tryParseEnvelope_short ⟨env, f, hf, hpart, fun heq => hwhole (by rw [heq])⟩
      have hleft : now + c.hardRemaining now > T ∧ c.hardRemaining now ≠ 0 := by
        unfold Connection.hardRemaining
        cases hstarted : c.frameStarted with
        | none => simp only [envelopeHardTimeout] at hbase hframe ⊢; omega
        | some f' =>
          have hbase' := hbegun f' hstarted
          simp only [envelopeHardTimeout] at hbase hframe ⊢
          omega
      cases feed with
      | nil =>
        have hlen := hfront.length_le
        simp only [Connection.ahead, List.flatMap_nil, List.append_nil] at hlen
        omega
      | cons a feed =>
        obtain ⟨hat, b, bytes, hread⟩ := hfeed a (List.mem_cons_self ..)
        have hbytes : a.bytes = b :: bytes := by
          unfold Arrival.bytes
          rw [hread]
        have hfill := ahead_fill c hread feed (max now a.time)
        obtain ⟨hsize, hroom'⟩ := hroom.read (by omega)
        rw [hbytes] at hsize hroom'
        have hstarted : ∀ f', (c.fill (b :: bytes) (max now a.time)).frameStarted = some f' →
            base ≤ f' := by
          intro f' hf'
          simp only [Connection.fill] at hf'
          split at hf'
          · cases hf'
            omega
          · exact hbegun f' hf'
        obtain ⟨c', now', feed', hrecv, hahead', hsuffix, hnow', hroom'', hbegun'⟩ := recvAt_frame hf
          hT hbase feed (c.fill (b :: bytes) (max now a.time)) (max now a.time) (hfill.trans hahead)
          (fun a' ha' => hfeed a' (List.mem_cons_of_mem _ ha')) hroom' hstarted (by omega) (by omega)
          (by omega)
        refine ⟨c', now', feed', ?_, hahead', hsuffix.trans (List.suffix_cons ..), by omega, hroom'',
          hbegun'⟩
        rw [← hrecv, List.cons_append]
        conv_lhs => unfold recvAt
        rw [hshort]
        dsimp only
        rw [if_neg hleft.2, if_neg (by omega), if_neg (by omega), hread]
        dsimp only
        exact if_neg (Nat.not_lt.mpr hsize)

/-- A receive on a line takes the frame at the front. -/
theorem Line.receive_frame {env : Envelope} {f : List Byte} {l : Line} (hf : FrameOf H env f)
    (hfed : l.Fed base T later (f :: fs) more) (hT : T < deadline)
    (hbase : T < base + envelopeHardTimeout) (hnow : base ≤ l.now) (hcall : l.now < deadline)
    (hframe : l.now < base + envelopeHardTimeout) : ∃ l', l.receive H deadline = (.ok (some env), l') ∧
      l'.Fed base T later fs more ∧ l.now ≤ l'.now ∧ l'.now ≤ max l.now T := by
  obtain ⟨⟨feed, harrivals, hahead, hfeed, hroom⟩, hbegun⟩ := hfed
  obtain ⟨c', now', feed', hrecv, hahead', hsuffix, hnow', hroom', hbegun'⟩ := @recvAt_frame H base T
    deadline later fs more env f hf hT hbase feed l.conn l.now hahead hfeed hroom hbegun hnow hcall
    hframe
  rw [← harrivals] at hrecv
  rcases hres : l.receive H deadline with ⟨res, l'⟩
  obtain ⟨hlater, -, -⟩ := Line.receive_costs hcall.le hres
  obtain ⟨rfl, rfl⟩ := Prod.mk.inj hres
  have hconn : (recvAt H deadline l.conn l.now l.arrivals).conn = c' := congrArg Received.conn hrecv
  refine ⟨_, Prod.ext (congrArg Received.result hrecv) rfl, ⟨⟨feed', ?_, ?_, ?_, ?_⟩, ?_⟩, hlater, ?_⟩
  · exact congrArg Received.arrivals hrecv
  · exact (congrArg (fun c : Connection => c.ahead feed') hconn).trans hahead'
  · exact fun a ha => hfeed a (hsuffix.subset ha)
  · rw [← hconn] at hroom'
    exact hroom'
  · exact fun f hf => hbegun' f ((congrArg Connection.frameStarted hconn).symm.trans hf)
  · exact (congrArg Received.now hrecv).trans_le hnow'

end Fed

/-! ## Waiting for a message -/

/-- A message that has a frame. -/
structure Envelope.Sendable (env : Envelope) : Prop where
  command : validateCommand env.command = .ok ()
  payload : env.payload.length ≤ maxProtocolMessageLength

theorem Envelope.Sendable.frame {env : Envelope} (h : env.Sendable) (H : Digests) :
    FrameOf H env (frameBytes H env) := frame_ok_iff.mpr ⟨h.command, h.payload, rfl⟩

section Finding
variable {H : Digests} {base T deadline perTimeout : Nat} {later : List Arrival}
  {fs : List (List Byte)} {more : List Byte} {expected : List String} {pingVersion : Option Int}

theorem send_accepted {command : String} {payload : List Byte} {s : Sending} (l : Line)
    (hsend : Envelope.Sendable ⟨command, payload⟩) (hfault : s.fault = none) :
    ∃ l', l.send H command payload s = .ok l' := by
  cases hres : l.send H command payload s with
  | ok l' => exact ⟨l', rfl⟩
  | error e =>
    have herror := Line.send_error hres
    rw [send_result hsend.command hsend.payload, hfault] at herror
    cases herror

/-- A valid ping is answered, and anything else is skipped. -/
theorem answer_accepted {env : Envelope} {s : Sending} (l : Line)
    (hvalid : ∀ version, pingVersion = some version → ValidPing version env)
    (hfault : s.fault = none) : ∃ l', l.answer H pingVersion env s = .ok l' := by
  cases hres : l.answer H pingVersion env s with
  | ok l' => exact ⟨l', rfl⟩
  | error e =>
    have herror := Line.answer_error hres
    unfold Connection.answerUnmatched at herror
    split at herror
    · rename_i hping
      split at herror
      · rename_i version
        have hping := hvalid version rfl hping
        unfold Connection.answerPing at herror
        by_cases hnonce : 60000 < version
        · rw [if_pos hnonce] at hping
          have hpong : env.payload.length ≤ maxProtocolMessageLength := by
            rw [hping]
            decide
          simp only [validatePingPayload, hnonce, hping, decide_true, Bool.true_and,
            BEq.rfl, Bool.true_or, if_true] at herror
          rw [send_result (by decide) hpong, hfault] at herror
          cases herror
        · rw [if_neg hnonce] at hping
          simp [validatePingPayload, hnonce, hping] at herror
      · cases herror
    · cases herror

/-- A wait takes the message it expects, past those that it skips. -/
theorem recvMatching_finds {env : Envelope} (henv : env.Sendable)
    (hmem : env.command ∈ expected) (hT : T < deadline) (hbase : T < base + envelopeHardTimeout)
    (hper : deadline - base ≤ perTimeout) : ∀ (skipped : List Envelope) (l : Line) (ss : List Sending),
      l.Fed base T later (skipped.map (frameBytes H) ++ frameBytes H env :: fs) more →
      (∀ e ∈ skipped, e.Sendable ∧ e.command ∉ expected ∧
        ∀ version, pingVersion = some version → ValidPing version e) →
      skipped.length < ss.length → (∀ s ∈ ss, s.fault = none) → base ≤ l.now →
      max l.now T + busyOf ss < min deadline (base + envelopeHardTimeout) →
      ∃ l', l.recvMatching H expected deadline perTimeout pingVersion ss = some (.message env, l') ∧
        l'.Fed base T later fs more ∧ l.now ≤ l'.now ∧ l'.now ≤ max l.now T + busyOf ss
  | _, _, [], _, _, hlen, _, _, _ => absurd hlen (Nat.not_lt_zero _)
  | skipped, l, s :: ss, hfed, hskip, hlen, hfault, hnow, htime => by
    have hbusy : busyOf (s :: ss) = s.busy + busyOf ss := rfl
    have hcall : l.now + min (deadline - l.now) perTimeout = deadline := by omega
    unfold Line.recvMatching
    rw [if_neg (by omega), hcall]
    cases skipped with
    | nil =>
      obtain ⟨l₁, hrecv, hfed₁, hlater, hend⟩ := Line.receive_frame (henv.frame H) hfed hT hbase hnow
        (by omega) (by omega)
      refine ⟨l₁, ?_, hfed₁, hlater, by omega⟩
      rw [hrecv]
      dsimp only
      rw [if_pos hmem]
    | cons e skipped =>
      obtain ⟨he, hother, hvalid⟩ := hskip e (List.mem_cons_self ..)
      obtain ⟨l₁, hrecv, hfed₁, hlater, hend⟩ := Line.receive_frame (he.frame H) hfed hT hbase hnow
        (by omega) (by omega)
      obtain ⟨l₂, hanswer⟩ := @answer_accepted H pingVersion e s l₁ hvalid
        (hfault s (List.mem_cons_self ..))
      obtain ⟨hspends, -⟩ := Line.answer_ok hanswer
      have hnow₂ := hspends.now
      obtain ⟨l', hrest, hfed', hlater', hend'⟩ := recvMatching_finds henv hmem hT hbase hper skipped
        l₂ ss (hfed₁.spend hspends) (fun e' he' => hskip e' (List.mem_cons_of_mem _ he'))
        (by simpa using hlen) (fun s' hs' => hfault s' (List.mem_cons_of_mem _ hs')) (by omega)
        (by omega)
      refine ⟨l', ?_, hfed', by omega, by omega⟩
      rw [hrecv]
      dsimp only
      rw [if_neg hother, hanswer]
      exact hrest

end Finding

/-! ## Greetings in time -/

/-- What the peer sends in a greeting. -/
def Greeting.messages (g : Greeting) : List Envelope :=
  g.before ++ ⟨"version", g.version⟩ :: (g.between ++ [⟨"verack", g.verack⟩])

/-- Nothing of ours is lost. -/
structure Visit.Faultless (q : Visit) : Prop where
  version : q.version.fault = none
  toVersion : ∀ s ∈ q.toVersion, s.fault = none
  negotiation : q.negotiation.fault = none
  verack : q.verack.fault = none
  toVerack : ∀ s ∈ q.toVerack, s.fault = none

section Welcome
variable {H : Digests} {base T : Nat} {later : List Arrival} {q : Visit}

theorem negotiate_accepted (v : Int) (l : Line) (hfault : q.negotiation.fault = none) :
    ∃ l', q.negotiate H v l = .ok l' ∧ ∃ busy ≤ q.negotiation.busy, l.Spends busy l' := by
  unfold Visit.negotiate
  split
  · obtain ⟨l', hsend⟩ := @send_accepted H "sendaddrv2" [] q.negotiation l ⟨by decide, Nat.zero_le _⟩
      hfault
    exact ⟨l', hsend, _, le_refl _, (Line.send_ok hsend).1⟩
  · exact ⟨l, rfl, 0, Nat.zero_le _, ⟨rfl, rfl, rfl, rfl⟩⟩

/-- A handshake takes a greeting off the line. -/
theorem handshake_finds {g : Greeting} {v : VersionData} {l : Line} {more : List Byte}
    (hg : g.Announces v) (hsendable : ∀ env ∈ g.messages, env.Sendable) (hq : q.Faultless)
    (hfed : l.Fed l.now T later (g.messages.map (frameBytes H)) more)
    (hbefore : g.before.length < q.toVersion.length)
    (hbetween : g.between.length < q.toVerack.length) (hT : l.now ≤ T)
    (htime : T + q.handshakeBusy < l.now + min q.message envelopeHardTimeout) :
    ∃ l', q.handshake H l = some (.version v (l'.now - l.now), l') ∧
      l'.Fed l.now T later [] more := by
  have hbusy : q.handshakeBusy = q.version.busy + busyOf q.toVersion + q.negotiation.busy +
    q.verack.busy + busyOf q.toVerack := rfl
  have hmessages : g.messages.map (frameBytes H) =
      g.before.map (frameBytes H) ++ frameBytes H ⟨"version", g.version⟩ ::
        (g.between.map (frameBytes H) ++ [frameBytes H ⟨"verack", g.verack⟩]) := by
    simp [Greeting.messages]
  rw [hmessages] at hfed
  have hmem : ∀ {env}, env ∈ g.before ∨ env = ⟨"version", g.version⟩ ∨ env ∈ g.between ∨
      env = ⟨"verack", g.verack⟩ → env.Sendable := by
    intro env henv
    refine hsendable env ?_
    simpa [Greeting.messages] using henv
  obtain ⟨l₁, hsend⟩ := @send_accepted H "version" (buildVersion q.sentTs q.nonce) q.version l
    ⟨(by decide : validateCommand "version" = .ok ()), length_buildVersion ..⟩ hq.version
  obtain ⟨hspends₁, -⟩ := Line.send_ok hsend
  have hnow₁ := hspends₁.now
  obtain ⟨l₂, hwait, hfed₂, hlater₂, hend₂⟩ := @recvMatching_finds H l.now T (l.now + q.message)
    q.message later _ more ["version"] none ⟨"version", g.version⟩ (hmem (.inr (.inl rfl)))
    (List.mem_singleton.mpr rfl) (by omega) (by omega) (by omega) g.before l₁ q.toVersion
    (hfed.spend hspends₁) (fun e he => ⟨hmem (.inl he), by simpa using hg.first e he,
      fun version hv => by cases hv⟩) hbefore hq.toVersion (by omega) (by omega)
  obtain ⟨l₃, hnegotiate, busy, hle, hspends₃⟩ := @negotiate_accepted H q v.version l₂ hq.negotiation
  have hnow₃ := hspends₃.now
  obtain ⟨l₄, hsend'⟩ := @send_accepted H "verack" [] q.verack l₃ ⟨by decide, Nat.zero_le _⟩ hq.verack
  obtain ⟨hspends₄, -⟩ := Line.send_ok hsend'
  have hnow₄ := hspends₄.now
  obtain ⟨l₅, hwait', hfed₅, hlater₅, hend₅⟩ := @recvMatching_finds H l.now T (l.now + q.message)
    q.message later [] more ["verack"] (some v.version) ⟨"verack", g.verack⟩
    (hmem (.inr (.inr (.inr rfl)))) (List.mem_singleton.mpr rfl) (by omega) (by omega) (by omega)
    g.between l₄ q.toVerack ((hfed₂.spend hspends₃).spend hspends₄)
    (fun e he => ⟨hmem (.inr (.inr (.inl he))), by simpa using hg.waiting e he,
      fun version hv => by cases hv; exact hg.pings e he⟩) hbetween hq.toVerack (by omega) (by omega)
  refine ⟨l₅, ?_, hfed₅⟩
  unfold Visit.handshake
  simp only [hsend, hwait, hg.parsed, hnegotiate, hsend', hwait']

/-- The peer sends `g` in time: what arrives begins with its frames, as data, and comes while the
    handshake waits and within 120 seconds, with `more` behind it and `later` still to come; while it
    is awaited, no read pushes the buffer over its limit. -/
structure Greeting.InTime (H : Digests) (g : Greeting) (q : Visit) (l : Line) (more : List Byte)
    (later : List Arrival) : Prop where
  fresh : l.conn = {}
  sendable : ∀ env ∈ g.messages, env.Sendable
  arrives : ∃ feed, l.arrivals = feed ++ later ∧
    feed.flatMap Arrival.bytes = (g.messages.map (frameBytes H)).flatten ++ more ∧
    (∀ a ∈ feed, (∃ b bytes, a.read = .ok (b :: bytes)) ∧
      a.time + q.handshakeBusy < l.now + min q.message envelopeHardTimeout) ∧
    ReadsFit (g.messages.map (frameBytes H)) [] (feed.map Arrival.bytes)

/-- Our side of a visit can take `g`: nothing of ours is lost or late, and its waits last for the
    messages of `g`. -/
structure Visit.Takes (q : Visit) (g : Greeting) : Prop extends q.Faultless where
  prompt : q.handshakeBusy < min q.message envelopeHardTimeout
  before : g.before.length < q.toVersion.length
  between : g.between.length < q.toVerack.length

/-- **Every greeting that comes in time is accepted**, with the version that it announces: the
    messages before and between do not matter, nor how the bytes are cut, as long as the buffer has
    room for every read, and nothing behind the greeting is taken. -/
theorem greeting_accepted {g : Greeting} {v : VersionData} {l : Line} {more : List Byte}
    (hg : g.Announces v) (hq : q.Takes g) (hl : g.InTime H q l more later) :
    ∃ l', q.handshake H l = some (.version v (l'.now - l.now), l') ∧
      (∃ left, l'.arrivals = left ++ later ∧ l'.conn.ahead left = more) ∧
      Greeted H q.sentTs q.nonce v l'.conn := by
  obtain ⟨feed, harrivals, hbytes, hfeed, hroom⟩ := hl.arrives
  have hprompt := hq.prompt
  have hfed : l.Fed l.now (l.now + min q.message envelopeHardTimeout - q.handshakeBusy - 1) later
      (g.messages.map (frameBytes H)) more := by
    refine ⟨⟨feed, harrivals, ?_, fun a ha => ?_, ?_⟩, fun f hf => ?_⟩
    · unfold Connection.ahead
      rw [hl.fresh, hbytes]
      rfl
    · obtain ⟨hdata, htime⟩ := hfeed a ha
      exact ⟨by omega, hdata⟩
    · rw [hl.fresh]
      exact hroom
    · rw [hl.fresh] at hf
      cases hf
  obtain ⟨l', hhandshake, ⟨left, hleft, hmore, -⟩, -⟩ := handshake_finds hg hl.sendable
    hq.toFaultless hfed hq.before hq.between (by omega) (by omega)
  refine ⟨l', hhandshake, ⟨left, hleft, hmore⟩, ?_⟩
  obtain ⟨toVersion, toVerack, huntimed⟩ := handshake_untimed hhandshake
  rw [hl.fresh] at huntimed
  rw [hq.version] at huntimed
  exact handshake_greeted huntimed

end Welcome

/-- What the crawler itself sends to a peer, as a greeting. -/
def ownGreeting (sentTs : Int64) (nonce : UInt64) : Greeting where
  before := []
  version := buildVersion sentTs nonce
  between := [⟨"sendaddrv2", []⟩]
  verack := []

/-- Another crawler is on the line: its `version` comes in two parts. -/
def ownArrivals : List Arrival :=
  [⟨50, .ok (((ownGreeting 0 0).messages.flatMap (frameBytes .zero)).take 30)⟩,
    ⟨100, .ok (((ownGreeting 0 0).messages.flatMap (frameBytes .zero)).drop 30)⟩]

theorem ownArrivals_ordered : ownArrivals.Pairwise fun a b => a.time ≤ b.time := by
  simp [ownArrivals]

def ownLine : Line where
  conn := {}
  now := 0
  arrivals := ownArrivals
  stamped := fresh_stamped
  ordered := ownArrivals_ordered

/-- A crawler accepts another one. -/
theorem greeting_accepted_own : ∃ v l', v.userAgent = crawlerUserAgent ∧
    (prompt ⟨3, 30, 4, 3⟩ 2).handshake .zero ownLine = some (.version v (l'.now - 0), l') ∧
    Greeted .zero 0 0 v l'.conn := by
  have hparse : parseVersion (buildVersion 0 0) = some ((ownFields 0 0).decoded [0x00]) :=
    (parseVersion_eq_some_iff _ _).mpr ⟨ownFields 0 0, [0x00], buildVersion_eq 0 0, rfl⟩
  have hown : (ownGreeting 0 0).Announces ((ownFields 0 0).decoded [0x00]) :=
    ⟨by simp [ownGreeting], hparse, by simp [ownGreeting], by simp [ownGreeting, ValidPing]⟩
  have htakes : (prompt ⟨3, 30, 4, 3⟩ 2).Takes (ownGreeting 0 0) :=
    ⟨⟨rfl, by decide, rfl, rfl, by decide⟩, by decide, by decide, by decide⟩
  have hline : (ownGreeting 0 0).InTime .zero (prompt ⟨3, 30, 4, 3⟩ 2) ownLine [] [] := by
    refine ⟨rfl, fun env henv => ?_, ownLine.arrivals, (List.append_nil _).symm, ?_, fun a ha => ?_,
      by decide +kernel⟩
    · have hsendable : ∀ command payload, validateCommand command = .ok () →
          payload.length ≤ maxProtocolMessageLength → Envelope.Sendable ⟨command, payload⟩ :=
        fun _ _ hcommand hpayload => ⟨hcommand, hpayload⟩
      simp only [Greeting.messages, ownGreeting, List.nil_append, List.cons_append, List.mem_cons,
        List.not_mem_nil, or_false] at henv
      rcases henv with rfl | rfl | rfl
      · exact hsendable _ _ (by decide) (length_buildVersion ..)
      · exact hsendable _ _ (by decide) (Nat.zero_le _)
      · exact hsendable _ _ (by decide) (Nat.zero_le _)
    · simp [ownLine, ownArrivals, Arrival.bytes, List.flatMap_def]
    · simp only [ownLine, ownArrivals, List.mem_cons, List.not_mem_nil, or_false] at ha
      rcases ha with rfl | rfl
      · exact ⟨⟨_, _, rfl⟩, by decide⟩
      · exact ⟨⟨_, _, rfl⟩, by decide⟩
  obtain ⟨l', hhandshake, -, hgreeted⟩ := greeting_accepted hown htakes hline
  refine ⟨_, l', ?_, hhandshake, hgreeted⟩
  rw [ownFields_decoded]

end P2PCrawler
