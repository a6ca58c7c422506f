import P2PCrawler.Crawler.Closing

/-!
# The attempt history of an entry

`process` spreads what it learns of a node over five fields of its entry (attempts and their
number, connect time, handshake, failure), by many separate writes along three failure branches
and across retries.

* `History` — those fields; `History.Current` says that an attempt is running,
  `History.Failed` that all attempts so far have failed.
* `TaskPc.View` — what a task at its position knows of the entry it processes.
* `EntryOk` — what holds of every entry, by its state.
* `histories` — both hold in every run without a panic.

## Results

* `terminal_state_agrees` — **the terminal state, the failure reason and the attempt history of an
  entry agree**; in particular a reachable entry has a handshake.
-/

set_option autoImplicit false

namespace P2PCrawler

open ThreadPool

/-! ## Histories -/

/-- The outcomes of a failed attempt. -/
def AttemptOutcome.failed : AttemptOutcome → Bool
  | .connectFailed | .handshakeTimeout | .handshakeFailed => true
  | _ => false

structure History where
  attempts : List AttemptData
  count : Nat
  connectMs : Option Nat
  handshake : Option HandshakeData
  failure : Option FailKind

def NodeEntry.history (e : NodeEntry) : History :=
  ⟨e.attempts, e.stats.handshakeAttempts, e.stats.timeConnectMs, e.handshake, e.failure⟩

namespace History

/-- Some attempt has a connect duration. -/
def ever (h : History) : Bool := h.attempts.any fun a => a.connectDurationMs.isSome

/-- The attempts are numbered from one, and there are no more than allowed. -/
structure Numbered (S : Setup) (h : History) : Prop where
  numbers : h.attempts.map (·.attempt) = List.range' 1 h.count
  limit : h.count ≤ S.settings.handshakeAttempts

/-- The node was never tried. -/
def Untried (h : History) : Prop := h = ⟨[], 0, none, none, none⟩

/-- Attempt `n` is running. -/
structure Current (S : Setup) (n : Nat) (h : History) : Prop extends h.Numbered S where
  count : h.count = n
  running : ∃ prior cur, h.attempts = prior ++ [cur] ∧ ∀ a ∈ prior, a.failure.isSome = true
  failure : h.failure = none

/-- The running attempt `n` has not connected. -/
structure Begun (S : Setup) (n : Nat) (h : History) : Prop extends h.Current S n where
  connectMs : h.connectMs.isSome = h.ever
  handshake : h.handshake = none

/-- The running attempt `n` has connected. -/
structure Connected (S : Setup) (n : Nat) (h : History) : Prop extends h.Current S n where
  connectMs : h.connectMs.isSome = true
  ever : h.ever = true

/-- All attempts so far have failed. -/
structure Failed (S : Setup) (h : History) : Prop extends h.Numbered S where
  failures : ∀ a ∈ h.attempts, a.failure.isSome = true
  connectMs : h.connectMs.isSome = h.ever
  handshake : h.handshake = none
  failure : h.failure = none

/-- All attempts so far have failed and another one is allowed. -/
structure Waiting (S : Setup) (h : History) : Prop extends h.Failed S where
  left : h.count < S.settings.handshakeAttempts

/-- The last attempt failed for `kind` with outcome `o`. -/
def Last (o : AttemptOutcome) (kind : FailKind) (h : History) : Prop :=
  ∃ a, h.attempts.getLast? = some a ∧ a.failure = some kind ∧ a.outcome = o

/-- The failed attempts make the node `terminal`, for `kind`. -/
structure Verdict (terminal : NodeState) (kind : FailKind) (h : History) : Prop where
  last : ∃ o, h.Last o kind ∧ o.failed = true ∧ (terminal = .unreachable → o = .connectFailed)
  terminal : terminal = .unreachable ∧ h.ever = false ∨ terminal = .handshakeFailed ∧ h.ever = true

/-- All attempts have failed, which makes the node `terminal`. -/
structure Lost (S : Setup) (terminal : NodeState) (kind : FailKind) (h : History) : Prop
    extends h.Failed S where
  verdict : h.Verdict terminal kind

/-- If fewer attempts were made than allowed, then timeouts are not retried or the queues are
    closed. -/
def Spent (S : Setup) (closed : Prop) (kind : FailKind) (h : History) : Prop :=
  h.count < S.settings.handshakeAttempts →
    (kind = .handshakeTimeout ∧ S.settings.retryOnTimeout = false) ∨ closed

/-- The last attempt completed its handshake. -/
structure Complete (S : Setup) (h : History) : Prop extends h.Numbered S where
  last : ∃ a, h.attempts.getLast? = some a ∧ a.outcome = .handshakeComplete
  handshake : h.handshake.isSome = true

/-- The history of a node that failed. -/
structure Dead (S : Setup) (closed : Prop) (terminal : NodeState) (h : History) : Prop
    extends h.Numbered S where
  failures : ∀ a ∈ h.attempts, a.failure.isSome = true
  reason : ∃ kind, h.failure = some kind ∧ h.Verdict terminal kind ∧ h.Spent S closed kind

end History

/-! ## What the tasks know -/

/-- What a task that is about to write `terminal` knows. -/
def FinishPc.View (S : Setup) (closed : Prop) (h : History) : FinishPc → Prop
  | .write terminal none => terminal.val = .reachable ∧ h.Complete S
  | .write terminal (some kind) => h.Lost S terminal.val kind ∧ h.Spent S closed kind
  | .decr | .close => True

/-- What a task knows of the entry it processes. -/
def TaskPc.View (S : Setup) (closed : Prop) (h : History) : TaskPc → Prop
  | .begin | .count _ => h.Waiting S
  | .connecting _ n | .connectFailed n _ | .connected n _ => h.Begun S n
  | .everConnected n kind => h.Failed S ∧ h.count = n ∧ h.Last .connectFailed kind
  | .connectedAttempt n _ => h.Current S n ∧ h.connectMs.isSome = true ∧ h.handshake = none
  | .sendVersion n | .firstVersion n _ | .versionSent n _ | .handshaking n _ | .handshakeTimeout n
  | .handshakeFailed n _ => h.Connected S n ∧ h.handshake = none
  | .handshaken _ _ => ∃ n, h.Connected S n
  | .requeueing terminal kind | .resending terminal kind =>
    h.Lost S terminal.val kind ∧ h.count < S.settings.handshakeAttempts
  | .abandoning f | .finishing f => f.View S closed h
  | _ => (∃ n, h.Connected S n) ∧ h.handshake.isSome = true

/-- What a task inside `enqueue` knows of the entry, for a run that was stopped `early` or not. -/
def EnqueuePc.View (early : Prop) (h : History) : EnqueuePc → Prop
  | .uncount => True
  | .discard => h.Untried ∧ early
  | _ => h.Untried

/-- An assertion about the history of a key's entry. -/
def At (sh : Shared) (k : AddrKey) (P : History → Prop) : Prop :=
  ∀ e, sh.store.entry k = some e → P e.history

/-- The run was stopped early and the queues are closed. -/
def Shared.CutShort (sh : Shared) : Prop :=
  (∀ t, (sh.queue t).closed = true) ∧ sh.terminatedEarly = true

/-- What a task inside `enqueue` knows of the entry it is about to queue. -/
def TaskPc.Pending (sh : Shared) : TaskPc → Prop
  | .enqueueing _ _ _ _ a e => At sh a fun h => e.View (sh.terminatedEarly = true) h
  | _ => True

/-- What a task knows of the entries it answers for. -/
def ViewOk (S : Setup) (sh : Shared) : Pc → Prop
  | .main (.seedEnqueue _ k e) => At sh k fun h => e.View (sh.terminatedEarly = true) h
  | .worker _ (.task k p) => At sh k (fun h => p.View S sh.CutShort h) ∧ p.Pending sh
  | .worker _ (.discarding _ (.write terminal reason)) =>
    terminal = .budgetDiscarded ∧ reason = none ∧ sh.nodeLimitReached = true
  -- only a panic leads here
  | .worker _ (.crashed _) | .worker _ (.crashedShutdown _) | .worker _ (.crashedFinish ..) => False
  | _ => True

/-- What holds of an entry, by its state. -/
def EntryOk (S : Setup) (sh : Shared) (state : NodeState) (h : History) : Prop :=
  match state with
  | .queued => h.Waiting S
  | .processing => h.Numbered S
  | .reachable => h.Complete S ∧ h.failure = none
  | .handshakeFailed | .unreachable => h.Dead S sh.CutShort state
  | .staleDiscarded => h.Untried
  | .budgetDiscarded =>
    h.Untried ∧ sh.terminatedEarly = true ∨ h.Waiting S ∧ sh.nodeLimitReached = true

def EntriesOk (S : Setup) (sh : Shared) : Prop :=
  ∀ k e, sh.store.entry k = some e → EntryOk S sh e.state e.history

/-! ## Steps of a history -/

namespace History
variable {S : Setup} {h : History} {n : Nat}

theorem Untried.waiting (hu : h.Untried) : h.Waiting S := by
  subst hu
  refine ⟨⟨⟨rfl, Nat.zero_le _⟩, fun a ha => ?_, rfl, rfl, rfl⟩, S.settings.handshakeAttempts_pos⟩
  cases ha

theorem Waiting.start (hw : h.Waiting S) (v : AttemptData) (hv : v.attempt = h.count + 1)
    (hd : v.connectDurationMs = none) :
    ({ h with count := h.count + 1, attempts := h.attempts ++ [v] } : History).Begun S
      (h.count + 1) := by
  refine ⟨⟨⟨?_, hw.left⟩, rfl, ⟨_, _, rfl, hw.failures⟩, hw.failure⟩, ?_, hw.handshake⟩
  · simp only [List.map_append, List.map_cons, List.map_nil, hw.numbers, hv]
    rw [List.range'_1_concat, Nat.add_comm 1]
  · rw [show ({ h with count := h.count + 1, attempts := h.attempts ++ [v] } : History).connectMs =
      h.connectMs from rfl, hw.connectMs]
    simp [ever, hd]

/-- `update_attempt` on the record of the attempt. -/
def recorded (outcome : AttemptOutcome) (failure : Option FailKind) (connectMs : Option Nat)
    (sentTs : Option Int) (a : AttemptData) : AttemptData :=
  { a with
    outcome := outcome
    failure := failure.or a.failure
    connectDurationMs := connectMs.or a.connectDurationMs
    versionSendTimestamp := sentTs.or a.versionSendTimestamp }

def update (outcome : AttemptOutcome) (failure : Option FailKind) (connectMs : Option Nat)
    (sentTs : Option Int) (h : History) : History :=
  { h with attempts := h.attempts.modifyLast (recorded outcome failure connectMs sentTs) }

section Update
variable {o : AttemptOutcome} {f : Option FailKind} {d : Option Nat} {s : Option Int}

theorem of_updateAttempt (e : NodeEntry) :
    (updateAttempt o f d s e).history = e.history.update o f d s := rfl

theorem Current.update_attempts (hc : h.Current S n) : ∃ prior cur, h.attempts = prior ++ [cur] ∧
    (∀ a ∈ prior, a.failure.isSome = true) ∧
      (h.update o f d s).attempts = prior ++ [recorded o f d s cur] := by
  obtain ⟨prior, cur, hrun, hprior⟩ := hc.running
  refine ⟨prior, cur, hrun, hprior, ?_⟩
  simp only [update, hrun, List.modifyLast_concat]

/-- Writes to the running attempt keep it running. -/
theorem Current.update (hc : h.Current S n) : (h.update o f d s).Current S n := by
  obtain ⟨prior, cur, hrun, hprior, hupd⟩ := hc.update_attempts (o := o) (f := f) (d := d) (s := s)
  refine ⟨⟨?_, hc.limit⟩, hc.count, ⟨prior, _, hupd, hprior⟩, hc.failure⟩
  have hnum := hc.numbers
  rw [hrun] at hnum
  rw [show (h.update o f d s).count = h.count from rfl]
  simpa [hupd, recorded] using hnum

/-- A failure of the running attempt. -/
theorem Current.fail (hc : h.Current S n) (kind : FailKind) :
    (h.update o (some kind) none s).Last o kind ∧
      (∀ a ∈ (h.update o (some kind) none s).attempts, a.failure.isSome = true) ∧
      (h.update o (some kind) none s).ever = h.ever := by
  obtain ⟨prior, cur, hrun, hprior, hupd⟩ :=
    hc.update_attempts (o := o) (f := some kind) (d := none) (s := s)
  refine ⟨⟨_, by rw [hupd]; exact List.getLast?_concat, rfl, rfl⟩, ?_, ?_⟩
  · intro a ha
    rw [hupd] at ha
    rcases List.mem_append.mp ha with ha | ha
    · exact hprior a ha
    · rw [List.mem_singleton.mp ha]; rfl
  · simp [ever, hupd, hrun, recorded]

/-- A connect duration is recorded, or was before. -/
theorem Current.ever_update (hc : h.Current S n) (hd : d.isSome = true ∨ h.ever = true) :
    (h.update o f d s).ever = true := by
  obtain ⟨prior, cur, hrun, -, hupd⟩ := hc.update_attempts (o := o) (f := f) (d := d) (s := s)
  simp only [ever, hrun, hupd, List.any_append, List.any_cons, List.any_nil, Bool.or_false,
    Bool.or_eq_true, recorded, Option.isSome_or] at hd ⊢
  rcases hd with hd | hd | hd
  · exact .inr (.inl hd)
  · exact .inl hd
  · exact .inr (.inr hd)

theorem Connected.update (hc : h.Connected S n) : (h.update o f d s).Connected S n :=
  ⟨hc.toCurrent.update, hc.connectMs, hc.toCurrent.ever_update (.inr hc.ever)⟩

/-- A connected attempt that fails is lost to the handshake. -/
theorem Connected.lost {kind : FailKind} (hc : h.Connected S n) (hs : h.handshake = none)
    (hfail : o.failed = true) : (h.update o (some kind) none s).Lost S .handshakeFailed kind := by
  obtain ⟨hlast, hall, hever⟩ := hc.toCurrent.fail (o := o) (s := s) kind
  have htrue := hever.trans hc.ever
  refine ⟨⟨hc.toCurrent.update.toNumbered, hall, ?_, hs, hc.failure⟩, ⟨o, hlast, hfail, nofun⟩,
    .inr ⟨rfl, htrue⟩⟩
  exact hc.connectMs.trans htrue.symm

end Update

/-- The decision of `process` after a failed connect: a node that ever connected is not
    unreachable. -/
theorem Failed.connectLost {kind : FailKind} (hf : h.Failed S) (hl : h.Last .connectFailed kind) :
    h.Lost S (connectTerminal h.connectMs.isSome).val kind := by
  refine ⟨hf, ⟨.connectFailed, hl, rfl, fun _ => rfl⟩, ?_⟩
  rw [hf.connectMs]
  cases he : h.ever
  · exact .inl ⟨rfl, rfl⟩
  · exact .inr ⟨rfl, rfl⟩

theorem Spent.mono {closed closed' : Prop} {kind : FailKind} (hs : h.Spent S closed kind)
    (himp : closed → closed') : h.Spent S closed' kind :=
  fun hlt => (hs hlt).imp_right himp

theorem Dead.mono {closed closed' : Prop} {terminal : NodeState} (hd : h.Dead S closed terminal)
    (himp : closed → closed') : h.Dead S closed' terminal := by
  obtain ⟨kind, hkind, hverdict, hspent⟩ := hd.reason
  exact ⟨hd.toNumbered, hd.failures, kind, hkind, hverdict, hspent.mono himp⟩

end History

theorem FinishPc.View.mono {S : Setup} {closed closed' : Prop} {h : History} {f : FinishPc}
    (hv : f.View S closed h) (himp : closed → closed') : f.View S closed' h := by
  cases f with
  | write terminal reason =>
    cases reason with
    | none => exact hv
    | some kind => exact ⟨hv.1, hv.2.mono himp⟩
  | _ => trivial

theorem TaskPc.View.mono {S : Setup} {closed closed' : Prop} {h : History} {p : TaskPc}
    (hv : p.View S closed h) (himp : closed → closed') : p.View S closed' h := by
  cases p with
  | abandoning f => exact FinishPc.View.mono hv himp
  | finishing f => exact FinishPc.View.mono hv himp
  | _ => exact hv

/-- What decides whether a failed node is retried, in `retry_or_finish`. -/
theorem retryOrFinish_view {S : Setup} {closed : Prop} {h : History} {retry : Bool}
    (terminal : Terminal) {kind : FailKind} (hl : h.Lost S terminal.val kind)
    (hretry : retry = true → h.count < S.settings.handshakeAttempts)
    (hdone : retry = false → h.Spent S closed kind) :
    (retryOrFinish retry terminal kind).View S closed h := by
  cases retry with
  | true => exact ⟨hl, hretry rfl⟩
  | false => exact ⟨hl, hdone rfl⟩

/-! ## Steps keep the entries -/

section Entries
variable {S : Setup} {sh sh' : Shared}

theorem EntryOk.mono {st : NodeState} {h : History} (he : EntryOk S sh st h)
    (hc : ∀ t, (sh.queue t).closed = true → (sh'.queue t).closed = true)
    (hf : sh.flags.Le sh'.flags) : EntryOk S sh' st h := by
  have hcut : sh.CutShort → sh'.CutShort :=
    fun h => ⟨fun t => hc t (h.1 t), terminatedEarly_mono hf h.2⟩
  cases st with
  | handshakeFailed | unreachable => exact History.Dead.mono he hcut
  | budgetDiscarded =>
    exact Or.imp (fun hu => ⟨hu.1, terminatedEarly_mono hf hu.2⟩)
      (fun hw => ⟨hw.1, hf.nodeLimitReached hw.2⟩) he
  | _ => exact he

theorem EntriesOk.mono (h : EntriesOk S sh) (he : sh'.store.entry = sh.store.entry)
    (hc : ∀ t, (sh.queue t).closed = true → (sh'.queue t).closed = true)
    (hf : sh.flags.Le sh'.flags) : EntriesOk S sh' := by
  intro k e hk
  rw [he] at hk
  exact (h k e hk).mono hc hf

theorem EntriesOk.write (h : EntriesOk S sh) {k : AddrKey} {f : NodeEntry → NodeEntry}
    (hf : ∀ e, sh.store.entry k = some e → EntryOk S sh (f e).state (f e).history) :
    EntriesOk S (sh.writeEntry k f) := by
  intro k' e hk
  rw [Shared.writeEntry_store, NodeStore.entry_withEntry] at hk
  split at hk
  · obtain ⟨e₀, he₀, rfl⟩ := Option.map_eq_some_iff.mp hk
    exact hf e₀ he₀
  · exact h k' e hk

/-- A write to an entry that is being processed. -/
theorem EntriesOk.write_processing (h : EntriesOk S sh) {k : AddrKey} {f : NodeEntry → NodeEntry}
    (hk : sh.store.stateOf k = some .processing) (hstate : ∀ e, (f e).state = e.state)
    (hf : ∀ e, sh.store.entry k = some e → (f e).history.Numbered S) :
    EntriesOk S (sh.writeEntry k f) := by
  refine h.write fun e he => ?_
  have hst : (f e).state = .processing := by
    rw [hstate]
    simpa [NodeStore.stateOf, he] using hk
  rw [hst]
  exact hf e he

theorem EntriesOk.insert (h : EntriesOk S sh) {k : AddrKey} {e : NodeEntry} {n : Nat}
    (he : EntryOk S sh e.state e.history) :
    EntriesOk S { sh with store := { sh.store with entries := n }.insertEntry k e } := by
  intro k' e' hk
  rw [NodeStore.entry_insertEntry] at hk
  split at hk
  · cases hk; exact he
  · exact h k' e' hk

theorem untried_new (net : NetworkType) (ts : Int) (st : NodeState) :
    (NodeEntry.new net ts st).history.Untried := rfl

theorem EntriesOk.upsert (h : EntriesOk S sh) (k : AddrKey) (ts : Int) (net : NetworkType)
    (thr now : Int) : EntriesOk S { sh with store := (sh.store.frontierUpsert k ts net thr now).1 } := by
  have hc := NodeStore.frontierUpsert_cases sh.store k ts net thr now
  generalize (sh.store.frontierUpsert k ts net thr now).1 = s' at hc ⊢
  generalize (sh.store.frontierUpsert k ts net thr now).2 = out at hc
  cases hc with
  | refreshed he => exact h.write fun e he => h k e he
  | revived he hst hfresh =>
    refine h.write fun e' he' => ?_
    have hold := h k _ he
    rw [hst] at hold
    rw [he] at he'
    cases he'
    exact History.Untried.waiting hold
  | rejected => exact h
  | parked => exact h.insert (untried_new ..)
  | discovered => exact h.insert (untried_new net ts .queued).waiting

/-- A key that an upsert queues was never tried. -/
theorem untried_of_enqueue (h : EntriesOk S sh) {k : AddrKey} {ts : Int} {net : NetworkType}
    {thr now : Int} (hout : (sh.store.frontierUpsert k ts net thr now).2 = .enqueue) :
    At { sh with store := (sh.store.frontierUpsert k ts net thr now).1 } k History.Untried := by
  have hc := NodeStore.frontierUpsert_cases sh.store k ts net thr now
  generalize (sh.store.frontierUpsert k ts net thr now).1 = s' at hc ⊢
  generalize (sh.store.frontierUpsert k ts net thr now).2 = out at hc hout
  intro e' he'
  cases hc with
  | refreshed he hne => exact absurd hout hne
  | revived he hst hfresh =>
    have hold := h k _ he
    rw [hst] at hold
    simp only [NodeStore.entry_withEntry_self, he, Option.map_some, Option.some.injEq] at he'
    subst he'
    exact hold
  | discovered =>
    simp only [NodeStore.entry_insertEntry, if_true, Option.some.injEq] at he'
    subst he'
    exact untried_new ..
  | rejected | parked => cases hout

theorem EntriesOk.seed (h : EntriesOk S sh) (k : AddrKey) (now : Int) :
    EntriesOk S { sh with store := (sh.store.observeSeed S.digests k now).1 } ∧
      ((sh.store.observeSeed S.digests k now).2 = true →
        At { sh with store := (sh.store.observeSeed S.digests k now).1 } k History.Untried) := by
  have hc := NodeStore.observeSeed_cases S.digests sh.store k now
  generalize (sh.store.observeSeed S.digests k now).1 = s' at hc ⊢
  generalize (sh.store.observeSeed S.digests k now).2 = new at hc ⊢
  cases hc with
  | refreshed he => exact ⟨h.write fun e he => h k e he, nofun⟩
  | rejected => exact ⟨h, nofun⟩
  | discovered =>
    refine ⟨h.insert (untried_new _ now .queued).waiting, fun _ e' he' => ?_⟩
    simp only [NodeStore.entry_insertEntry, if_true, Option.some.injEq] at he'
    subst he'
    exact untried_new ..

theorem EntriesOk.enqueue (h : EntriesOk S sh) {k : AddrKey} {e : EnqueuePc}
    (hv : At sh k fun h => e.View (sh.terminatedEarly = true) h) : EntriesOk S (enqueueStep S.digests sh k e).1 := by
  cases e with
  | send t =>
    simp only [enqueueStep]
    split
    · rename_i sh' hsend
      obtain ⟨hopen, -, rfl⟩ := Shared.trySend_some hsend
      refine h.mono rfl (fun t' hcl => ?_) (.refl _)
      by_cases ht : t' = t
      · subst ht
        rw [hopen] at hcl
        cases hcl
      · simpa [ht] using hcl
    · exact h
  | discard => exact h.write fun e he => .inl (hv e he)
  | _ => exact h

theorem EnqueuePc.View.mono {early early' : Prop} {h : History} {e : EnqueuePc}
    (hv : e.View early h) (himp : early → early') : e.View early' h := by
  cases e with
  | discard => exact ⟨hv.1, himp hv.2⟩
  | _ => exact hv

/-- A failed send is only seen once the run was stopped early. -/
theorem enqueueStep_view {k : AddrKey} {e e' : EnqueuePc}
    (hv : At sh k fun h => e.View (sh.terminatedEarly = true) h)
    (hfull : ∀ t, e = .send t → sh.trySend t k = none → sh.terminatedEarly = true)
    (hnext : (enqueueStep S.digests sh k e).2 = some e') :
    At (enqueueStep S.digests sh k e).1 k fun h =>
      e'.View ((enqueueStep S.digests sh k e).1.terminatedEarly = true) h := by
  cases e with
  | send t =>
    cases hsend : sh.trySend t k with
    | some sh' => simp only [enqueueStep, hsend] at hnext; cases hnext
    | none =>
      simp only [enqueueStep, hsend] at hnext ⊢
      cases hnext
      exact fun e he => ⟨hv e he, hfull t rfl hsend⟩
  | discard => cases hnext; exact fun _ _ => trivial
  | uncount => cases hnext
  | _ => cases hnext; exact hv

theorem EntriesOk.finish (h : EntriesOk S sh) {k : AddrKey} {f : FinishPc}
    (hv : At sh k fun h => f.View S sh.CutShort h) : EntriesOk S (finishStep sh k f).1 := by
  cases f with
  | write terminal reason =>
    simp only [finishStep]
    split
    · exact h
    · rename_i e₀ he₀
      split
      · refine h.write fun e he => ?_
        cases reason with
        | none =>
          obtain ⟨hterm, hnum, hlast, hhand⟩ := hv e he
          simp only [hterm]
          exact ⟨⟨⟨hnum.numbers, hnum.limit⟩, hlast, hhand⟩, rfl⟩
        | some kind =>
          obtain ⟨hlost, hspent⟩ := hv e he
          have hdead : ({ e.history with failure := some kind } : History).Dead S sh.CutShort
              terminal.val :=
            ⟨⟨hlost.numbers, hlost.limit⟩, hlost.failures, kind, rfl,
              ⟨hlost.verdict.last, hlost.verdict.terminal⟩, hspent⟩
          simp only
          rcases hlost.verdict.terminal with ⟨hterm, -⟩ | ⟨hterm, -⟩
          · rw [hterm] at hdead ⊢; exact hdead
          · rw [hterm] at hdead ⊢; exact hdead
      · exact h
  | decr => exact h
  | close => exact h.mono rfl (fun _ _ => rfl) (.refl _)

theorem finishStep_view {k : AddrKey} {f f' : FinishPc} (hnext : (finishStep sh k f).2 = some f')
    (closed : Prop) (h : History) : f'.View S closed h := by
  cases f with
  | write terminal reason =>
    simp only [finishStep] at hnext
    split at hnext
    · cases hnext
    · split at hnext <;> cases hnext
      trivial
  | decr =>
    simp only [finishStep] at hnext
    split at hnext <;> cases hnext
    trivial
  | close => cases hnext

end Entries

/-! ## Steps of a node task -/

section Task
variable {S : Setup} {sh sh' : Shared} {t : Transport} {k : AddrKey}

theorem recordMessage_history (parsed : ParsedAddrMessage) (e : NodeEntry) :
    ({ e with stats := recordMessage parsed e.stats } : NodeEntry).history = e.history := by
  have hfold : ∀ (addrs : List AdvertisedAddr) (s : NodeStats),
      (addrs.foldl (fun s a => s.recordAdvertised a.network) s).handshakeAttempts =
        s.handshakeAttempts ∧
      (addrs.foldl (fun s a => s.recordAdvertised a.network) s).timeConnectMs = s.timeConnectMs := by
    intro addrs
    induction addrs with
    | nil => exact fun s => ⟨rfl, rfl⟩
    | cons a addrs ih =>
      intro s
      have hone : (s.recordAdvertised a.network).handshakeAttempts = s.handshakeAttempts ∧
          (s.recordAdvertised a.network).timeConnectMs = s.timeConnectMs := by
        unfold NodeStats.recordAdvertised
        cases a.network <;> exact ⟨rfl, rfl⟩
      rw [List.foldl_cons]
      exact ⟨(ih _).1.trans hone.1, (ih _).2.trans hone.2⟩
  simp [NodeEntry.history, recordMessage, hfold]

/-- What is known of an entry after a write to it. -/
theorem At.write {P Q : History → Prop} {f : NodeEntry → NodeEntry} (hP : At sh k P)
    (hf : ∀ e, P e.history → Q (f e).history) : At (sh.writeEntry k f) k Q := by
  intro e he
  rw [Shared.writeEntry_store, NodeStore.entry_withEntry_self] at he
  obtain ⟨e₀, he₀, rfl⟩ := Option.map_eq_some_iff.mp he
  exact hf e₀ (hP e₀ he₀)

/-- What a task knows of an entry it answers for survives the steps of others. -/
theorem Effect.at_other {does : Intent} {h h' : Held} (he : Effect does sh h sh' h')
    {st : NodeState} (hk : sh.store.stateOf k = some st) (hact : st.active = true)
    (hne : ∀ x ∈ h.owned, x.1 ≠ k) {P : History → Prop} (hP : At sh k P) : At sh' k P := by
  intro e hnew
  rcases he.entry_other hk hact hne with hsame | ⟨ts, href⟩
  · rw [hsame] at hnew; exact hP e hnew
  · rw [href] at hnew
    obtain ⟨e₀, he₀, rfl⟩ := Option.map_eq_some_iff.mp hnew
    exact hP e₀ he₀

/-- A step of `process` leaves every entry in order. -/
theorem taskStep_entries {a : Answer} {p : TaskPc} {next : Option TaskPc}
    (h : taskStep S sh t k a p = some (sh', next)) (hent : EntriesOk S sh)
    (hown : Owns sh (p.held k)) (hview : At sh k fun h => p.View S sh.CutShort h)
    (hpend : p.Pending sh) : EntriesOk S sh' := by
  have hproc : (p.held k).owned = [(k, .processing)] → sh.store.stateOf k = some .processing :=
    fun hh => hown (k, .processing) (by rw [hh]; exact List.mem_singleton.mpr rfl)
  have hkeep : (p.held k).owned = [(k, .processing)] → ∀ {f : NodeEntry → NodeEntry},
      (∀ e, (f e).state = e.state) → (∀ e, (f e).history = e.history) →
        EntriesOk S (sh.writeEntry k f) := by
    intro hh f hstate hf
    refine hent.write fun e he => ?_
    rw [hstate, hf]
    exact hent k e he
  cases p with
  | count net =>
    cases h
    refine hent.write_processing (hproc rfl) (fun _ => rfl) fun e he => ?_
    exact (History.Waiting.start (hview e he) _ rfl rfl).toNumbered
  | connectFailed n kind =>
    cases h
    refine hent.write_processing (hproc rfl) (fun _ => rfl) fun e he => ?_
    have hb : e.history.Begun S n := hview e he
    exact hb.toCurrent.update.toNumbered
  | connected n ms =>
    cases h
    refine hent.write_processing (hproc rfl) (fun _ => rfl) fun e he => ?_
    have hb : e.history.Begun S n := hview e he
    exact ⟨hb.numbers, hb.limit⟩
  | connectedAttempt n ms =>
    cases h
    refine hent.write_processing (hproc rfl) (fun _ => rfl) fun e he => ?_
    have hc : e.history.Current S n := (hview e he).1
    exact hc.update.toNumbered
  | versionSent n _ | handshakeTimeout n | handshakeFailed n _ =>
    cases h
    refine hent.write_processing (hproc rfl) (fun _ => rfl) fun e he => ?_
    have hc : e.history.Connected S n := (hview e he).1
    exact hc.toCurrent.update.toNumbered
  | handshaken hd sentTs =>
    cases h
    refine hent.write_processing (hproc rfl) (fun _ => rfl) fun e he => ?_
    obtain ⟨n, hc⟩ := hview e he
    exact ⟨hc.numbers, hc.limit⟩
  | completing sentTs =>
    cases h
    refine hent.write_processing (hproc rfl) (fun _ => rfl) fun e he => ?_
    obtain ⟨⟨n, hc⟩, -⟩ := hview e he
    exact hc.toCurrent.update.toNumbered
  | requeueing terminal kind =>
    cases h
    exact hent.write fun e he => ⟨(hview e he).1.toFailed, (hview e he).2⟩
  | breakdown c command parsed =>
    cases h
    exact hkeep rfl (fun _ => rfl) (recordMessage_history parsed)
  | firstVersion | malformedCount | messageDone | outcomeWrite =>
    cases h
    exact hkeep rfl (fun _ => rfl) (fun _ => rfl)
  | upserting c count now rest =>
    cases rest with
    | nil => cases h; exact hent
    | cons addr rest =>
      cases h
      exact hent.upsert ⟨addr.host, addr.port⟩ addr.timestamp addr.network
        S.settings.freshnessThreshold now
  | enqueueing c count now rest key e => cases h; exact hent.enqueue hpend
  | resending terminal kind =>
    simp only [taskStep] at h
    split at h
    · rename_i sh₁ hsend
      obtain ⟨hopen, -, rfl⟩ := Shared.trySend_some hsend
      cases h
      refine hent.mono rfl (fun t' hcl => ?_) (.refl _)
      by_cases ht : t' = t
      · subst ht
        rw [hopen] at hcl
        cases hcl
      · simpa [ht] using hcl
    · cases h; exact hent
  | abandoning f => cases h; exact hent.finish hview
  | finishing f => cases h; exact hent.finish hview
  | malformedLog c call => obtain ⟨hsh, -⟩ := logStep_effect h; rw [hsh]; exact hent
  | blockLog c parsed now call => obtain ⟨hsh, -⟩ := logStep_effect h; rw [hsh]; exact hent
  | outcomeLog c call => obtain ⟨hsh, -⟩ := logStep_effect h; rw [hsh]; exact hent
  | connecting | sendVersion | handshaking | collecting | malformedGuard | messageGuard
    | outcomeGuard | shuffling =>
    simp only [taskStep] at h
    split at h <;> cases h <;> exact hent
  | _ => cases h; exact hent

/-- The collection of addresses does not touch the history. -/
theorem At.session {f : NodeEntry → NodeEntry}
    (hP : At sh k fun h => (∃ n, h.Connected S n) ∧ h.handshake.isSome = true)
    (hf : ∀ e, (f e).history = e.history) :
    At (sh.writeEntry k f) k fun h => (∃ n, h.Connected S n) ∧ h.handshake.isSome = true :=
  At.write hP fun e hb => by rw [hf]; exact hb

/-- What a task knows of its node survives the addresses it hands to the store. -/
theorem At.upsert {P : History → Prop} (key : AddrKey) (ts : Int) (net : NetworkType)
    (threshold now : Int) (hk : sh.store.stateOf k = some .processing) (hP : At sh k P) :
    At { sh with store := (sh.store.frontierUpsert key ts net threshold now).1 } k P :=
  (upsert_effect sh key ts net threshold now []).at_other hk rfl
    (fun _ hx => absurd hx List.not_mem_nil) hP

/-- What a task knows of its node survives the addresses it queues. -/
theorem At.enqueue (H : Digests) {key : AddrKey} {e : EnqueuePc} {P : History → Prop}
    (hown : Owns sh ((e.held key).plus [(k, .processing)])) (hP : At sh k P) :
    At (enqueueStep H sh key e).1 k P := by
  have hk : sh.store.stateOf k = some .processing :=
    hown (k, .processing) (List.mem_append_right _ (List.mem_singleton.mpr rfl))
  refine (enqueueStep_effect H sh key e []).at_other hk rfl (fun x hx hxk => ?_) hP
  -- the address it queues is another one
  have hx' : x ∈ (e.held key).owned := by simpa [Held.plus] using hx
  have hst : x.2 = .queued := by
    cases e <;> simp [EnqueuePc.held] at hx' <;> rw [hx']
  have hst' := hown x (List.mem_append_left _ hx')
  rw [hxk, hk, hst] at hst'
  cases hst'

section View
variable {a : Answer} {p p' : TaskPc}

/-- The attempt is counted and dialled. -/
theorem connect_view (hpart : p.part = .connect)
    (h : taskStep S sh t k a p = some (sh', some p'))
    (hview : At sh k fun h => p.View S sh.CutShort h) :
    At sh' k fun h => p'.View S sh'.CutShort h := by
  cases p with
  | begin => cases h; exact hview
  | count net =>
    cases h
    intro e' he'
    rw [Shared.writeEntry_store, NodeStore.entry_withEntry_self] at he'
    obtain ⟨e, he, rfl⟩ := Option.map_eq_some_iff.mp he'
    simp only [he, Option.map_some, Option.getD_some]
    exact History.Waiting.start (hview e he) _ rfl rfl
  | connecting net n =>
    simp only [taskStep] at h
    split at h <;> cases h <;> exact hview
  | connectFailed n kind =>
    cases h
    refine At.write hview fun e (hb : e.history.Begun S n) => ?_
    rw [History.of_updateAttempt]
    obtain ⟨hlast, hall, hever⟩ := hb.toCurrent.fail (o := .connectFailed) (s := none) kind
    refine ⟨⟨hb.toCurrent.update.toNumbered, hall, ?_, hb.handshake, hb.failure⟩, hb.count, hlast⟩
    exact hb.connectMs.trans hever.symm
  | everConnected n kind =>
    cases h
    intro e he
    obtain ⟨hfailed, hcount, hlast⟩ := hview e he
    simp only [he, Option.map_some, Option.getD_some]
    refine retryOrFinish_view _ (hfailed.connectLost hlast) (fun hr => ?_) (fun hr hlt => ?_)
    · rw [hcount]; simpa using hr
    · rw [hcount] at hlt; simp [hlt] at hr
  | connected n ms =>
    cases h
    refine At.write hview fun e (hb : e.history.Begun S n) => ?_
    exact ⟨⟨⟨hb.numbers, hb.limit⟩, hb.count, hb.running, hb.failure⟩, rfl, hb.handshake⟩
  | connectedAttempt n ms =>
    cases h
    refine At.write hview fun e hb => ?_
    rw [History.of_updateAttempt]
    obtain ⟨hc, hms, hhs⟩ := hb
    exact ⟨⟨hc.update, hms, hc.ever_update (.inl rfl)⟩, hhs⟩
  | _ => cases hpart

/-- The version is sent and the handshake waited for. -/
theorem handshake_view (hpart : p.part = .handshake)
    (h : taskStep S sh t k a p = some (sh', some p'))
    (hview : At sh k fun h => p.View S sh.CutShort h) :
    At sh' k fun h => p'.View S sh'.CutShort h := by
  cases p with
  | sendVersion n =>
    simp only [taskStep] at h
    split at h <;> cases h <;> exact hview
  | firstVersion n sentTs => cases h; exact At.write hview fun e hb => hb
  | versionSent n sentTs =>
    cases h
    refine At.write hview fun e hb => ?_
    rw [History.of_updateAttempt]
    exact ⟨hb.1.update, hb.2⟩
  | handshaking n sentTs =>
    simp only [taskStep] at h
    split at h <;> cases h
    · exact hview
    · exact hview
    · exact fun e he => ⟨n, (hview e he).1⟩
  | handshakeTimeout n =>
    cases h
    refine At.write hview fun e hb => ?_
    rw [History.of_updateAttempt]
    refine retryOrFinish_view .handshakeFailed (hb.1.lost hb.2 rfl)
      (fun hr => ?_) (fun hr hlt => ?_)
    · simp only [Bool.and_eq_true, decide_eq_true_eq] at hr
      exact lt_of_eq_of_lt hb.1.count hr.2
    · have hn : n < S.settings.handshakeAttempts := lt_of_eq_of_lt hb.1.count.symm hlt
      simp only [hn, decide_true, Bool.and_true] at hr
      exact .inl ⟨rfl, hr⟩
  | handshakeFailed n kind =>
    cases h
    refine At.write hview fun e hb => ?_
    rw [History.of_updateAttempt]
    refine retryOrFinish_view .handshakeFailed (hb.1.lost hb.2 rfl)
      (fun hr => ?_) (fun hr hlt => ?_)
    · exact lt_of_eq_of_lt hb.1.count (by simpa using hr)
    · have hn : n < S.settings.handshakeAttempts := lt_of_eq_of_lt hb.1.count.symm hlt
      simp [hn] at hr
  | handshaken hd sentTs =>
    cases h
    have hw : At (sh.writeEntry k fun e => { e with handshake := some hd }) k
        fun h => (∃ n, h.Connected S n) ∧ h.handshake.isSome = true := by
      refine At.write hview fun e hb => ?_
      obtain ⟨n, hc⟩ := hb
      exact ⟨⟨n, ⟨⟨hc.numbers, hc.limit⟩, hc.count, hc.running, hc.failure⟩, hc.connectMs, hc.ever⟩, rfl⟩
    by_cases hp : S.settings.probeMode <;> simp only [hp] <;> exact hw
  | _ => cases hpart

/-- Addresses are collected: nothing of the history changes. -/
theorem collect_view (hpart : p.part = .collect)
    (h : taskStep S sh t k a p = some (sh', some p'))
    (hown : Owns sh (p.held k)) (hview : At sh k fun h => p.View S sh.CutShort h) :
    At sh' k fun h => p'.View S sh'.CutShort h := by
  cases p with
  | upserting c count now rest =>
    cases rest with
    | nil => cases h; exact hview
    | cons addr rest =>
      cases h
      have hstay := At.upsert ⟨addr.host, addr.port⟩ addr.timestamp addr.network
        S.settings.freshnessThreshold now (hown (k, .processing) (List.mem_singleton.mpr rfl)) hview
      cases hout : (sh.store.frontierUpsert ⟨addr.host, addr.port⟩ addr.timestamp addr.network
        S.settings.freshnessThreshold now).2 <;> exact hstay
  | enqueueing c count now rest key e =>
    cases h
    have hstay := At.enqueue S.digests hown hview
    cases hnext : (enqueueStep S.digests sh key e).2 <;> exact hstay
  | getaddr c =>
    cases h
    by_cases hp : a.send.isSome <;> simp only [hp] <;> exact hview
  | collecting | malformedGuard | messageGuard | outcomeGuard | shuffling =>
    simp only [taskStep] at h
    split at h <;> cases h <;> exact hview
  | malformedCount c event =>
    cases h
    have hw := At.session (f := countMalformed) hview fun _ => rfl
    by_cases hp : S.logging <;> simp only [hp] <;> exact hw
  | breakdown c command parsed =>
    cases h
    have hw := At.session hview (recordMessage_history parsed)
    by_cases hp : S.logging <;> simp only [hp] <;> exact hw
  | messageDone c count =>
    cases h
    have hw := At.session (f := countValid) hview fun _ => rfl
    by_cases hp : isGetaddrReplyComplete count <;> simp only [hp] <;> exact hw
  | outcomeWrite c outcome =>
    cases h
    have hw := At.session (f := setCollectionOutcome outcome) hview fun _ => rfl
    by_cases hp : S.logging <;> simp only [hp] <;> exact hw
  | _ => cases hpart

/-- The log is written: the store does not change. -/
theorem log_view (hpart : p.part = .log)
    (h : taskStep S sh t k a p = some (sh', some p'))
    (hview : At sh k fun h => p.View S sh.CutShort h) :
    At sh' k fun h => p'.View S sh'.CutShort h := by
  cases p with
  | malformedLog | blockLog | outcomeLog =>
    obtain ⟨hsh, ⟨_, heq⟩ | ⟨res, heq⟩⟩ := logStep_effect h
    · cases heq; rw [hsh]; exact hview
    · rw [hsh]; cases res <;> cases heq <;> exact hview
  | malformedMark | malformedRelease | blockFailed | blockMark | outcomeMark | outcomeRelease =>
    cases h; exact hview
  | _ => cases hpart

/-- The verdict is written, or the retry is queued. -/
theorem finish_view (hpart : p.part = .finish)
    (h : taskStep S sh t k a p = some (sh', some p'))
    (hview : At sh k fun h => p.View S sh.CutShort h)
    (hfull : ∀ terminal kind, p = .resending terminal kind → sh.trySend t k = none →
      sh.CutShort) :
    At sh' k fun h => p'.View S sh'.CutShort h := by
  cases p with
  | completing sentTs =>
    cases h
    refine At.write hview fun e hb => ?_
    rw [History.of_updateAttempt]
    obtain ⟨⟨n, hc⟩, hhs⟩ := hb
    obtain ⟨prior, cur, -, -, hupd⟩ := hc.toCurrent.update_attempts (o := .handshakeComplete)
      (f := none) (d := none) (s := some sentTs)
    exact ⟨rfl, hc.toCurrent.update.toNumbered,
      ⟨_, by rw [hupd]; exact List.getLast?_concat, rfl⟩, hhs⟩
  | requeueing terminal kind => cases h; exact At.write hview fun e hb => hb
  | resending terminal kind =>
    simp only [taskStep] at h
    split at h
    · cases h
    · rename_i hfail
      cases h
      have hcl := hfull terminal kind rfl hfail
      exact fun e he => ⟨(hview e he).1, fun _ => .inr hcl⟩
  | abandoning f | finishing f =>
    cases hnext : (finishStep sh k f).2 <;> simp only [taskStep, hnext] at h <;> cases h
    exact fun e he => finishStep_view hnext ..
  | _ => cases hpart

/-- A step of `process` establishes what the task knows next of its node. -/
theorem taskStep_view (h : taskStep S sh t k a p = some (sh', some p')) (hown : Owns sh (p.held k))
    (hview : At sh k fun h => p.View S sh.CutShort h)
    (hfull : ∀ terminal kind, p = .resending terminal kind → sh.trySend t k = none →
      sh.CutShort) : At sh' k fun h => p'.View S sh'.CutShort h := by
  cases hpart : p.part with
  | connect => exact connect_view hpart h hview
  | handshake => exact handshake_view hpart h hview
  | collect => exact collect_view hpart h hown hview
  | log => exact log_view hpart h hview
  | finish => exact finish_view hpart h hview hfull

end View

/-- The address a task is about to queue was never tried. -/
theorem taskStep_pending {a : Answer} {p p' : TaskPc}
    (h : taskStep S sh t k a p = some (sh', some p')) (hent : EntriesOk S sh)
    (hpend : p.Pending sh)
    (hfull : ∀ c count now rest key w, p = .enqueueing c count now rest key (.send w) →
      sh.trySend w key = none → sh.terminatedEarly = true) : p'.Pending sh' := by
  cases p' with
  | enqueueing c count now rest key e =>
    rcases enqueueing_cases h with ⟨addr, rfl, rfl, rfl, rfl, hout⟩ | ⟨e₀, rfl, rfl, hnext⟩
    · exact untried_of_enqueue hent hout
    · exact enqueueStep_view hpend (fun w hw => hfull c count now rest key w (by rw [hw])) hnext
  | _ => trivial

end Task

/-! ## The invariant -/

/-- Every entry is in order, and every task knows what it should. -/
structure Histories (S : Setup) (c : Conf Shared Pc) : Prop where
  entries : EntriesOk S c.shared
  tasks : Holds (ViewOk S) c

section Steps
variable {S : Setup} {sh sh' : Shared}

theorem Shared.CutShort.mono {does : Intent} {h h' : Held} (hc : sh.CutShort)
    (he : Effect does sh h sh' h') : sh'.CutShort :=
  ⟨fun t => he.closed (hc.1 t), terminatedEarly_mono he.flags hc.2⟩

theorem mainStep_histories {a : Answer} {p p' : MainPc} (h : mainStep S sh a p = some (sh', p'))
    (hent : EntriesOk S sh) (hview : ViewOk S sh (.main p))
    (hfull : ∀ rest k t, p = .seedEnqueue rest k (.send t) → sh.trySend t k = none →
      sh.terminatedEarly = true) : EntriesOk S sh' ∧ ViewOk S sh' (.main p') := by
  cases p with
  | seeding rest =>
    cases rest with
    | nil => cases h; exact ⟨hent, trivial⟩
    | cons k rest =>
      cases h
      obtain ⟨hseed, hnew⟩ := hent.seed k S.seedTime
      refine ⟨hseed, ?_⟩
      cases hout : (sh.store.observeSeed S.digests k S.seedTime).2 with
      | false => trivial
      | true => exact hnew hout
  | seedEnqueue rest k e =>
    cases h
    refine ⟨hent.enqueue hview, ?_⟩
    cases hnext : (enqueueStep S.digests sh k e).2 with
    | none => trivial
    | some e' =>
      exact enqueueStep_view hview (fun t ht => hfull rest k t (by rw [ht])) hnext
  | joining joined =>
    simp only [mainStep] at h
    split at h
    · cases h; exact ⟨hent, trivial⟩
    · split at h <;> split at h <;> cases h <;> exact ⟨hent, trivial⟩
  | awaitSignals | awaitCheckpoint | stopping | writing =>
    simp only [mainStep] at h
    split at h <;> cases h <;> exact ⟨hent, trivial⟩
  | flushing r call =>
    obtain ⟨hsh, ⟨_, rfl⟩ | ⟨res, rfl⟩⟩ := logStep_effect h
    · rw [hsh]; exact ⟨hent, trivial⟩
    · rw [hsh]; cases res <;> exact ⟨hent, trivial⟩
  | startCheck | checkWorkers | finalFlush =>
    cases h
    refine ⟨hent, ?_⟩
    split <;> trivial
  | startClose | joinClose => cases h; exact ⟨hent.mono rfl (fun _ _ => rfl) (.refl _), trivial⟩
  | joinShutdown => cases h; exact ⟨hent.mono rfl (fun _ => id) (Flags.le_shutdown _), trivial⟩
  | finished => cases h
  | _ => cases h; exact ⟨hent, trivial⟩

/-- Discarding a queued key leaves the entries in order: the limit has been reached. -/
theorem finishStep_discards {k : AddrKey} {f : FinishPc} (hent : EntriesOk S sh)
    (hwait : ∀ terminal reason, f = .write terminal reason → ∀ e, sh.store.entry k = some e →
      e.history.Waiting S) {t : Transport} (hview : ViewOk S sh (.worker t (.discarding k f))) :
    EntriesOk S (finishStep sh k f).1 := by
  cases f with
  | write terminal reason =>
    obtain ⟨rfl, rfl, hlimit⟩ := hview
    simp only [finishStep]
    split
    · exact hent
    · split
      · refine hent.write fun e he => .inr ⟨?_, hlimit⟩
        have hw := hwait _ _ rfl e he
        exact ⟨⟨⟨hw.numbers, hw.limit⟩, hw.failures, hw.connectMs, hw.handshake, rfl⟩, hw.left⟩
      · exact hent
  | decr => exact hent
  | close => exact hent.mono rfl (fun _ _ => rfl) (.refl _)

theorem loopStep_histories {t : Transport} {p p' : WorkerPc}
    (h : loopStep S sh t p = some (sh', p')) (hent : EntriesOk S sh)
    (hown : Owns sh (Pc.worker t p).held) (hview : ViewOk S sh (.worker t p)) :
    EntriesOk S sh' ∧ ViewOk S sh' (.worker t p') := by
  -- a queued entry is waiting for its next attempt
  have hwait : ∀ {k : AddrKey}, (k, .queued) ∈ (Pc.worker t p).held.owned → ∀ e,
      sh.store.entry k = some e → e.state = .queued ∧ e.history.Waiting S := by
    intro k hk e he
    have hst := hown _ hk
    simp only [NodeStore.stateOf, he, Option.map_some, Option.some.injEq] at hst
    have hok := hent k e he
    rw [hst] at hok
    exact ⟨hst, hok⟩
  cases loopStep_cases h with
  | leave | stay | drained | reserve | refuse => exact ⟨hent, trivial⟩
  | take =>
    refine ⟨hent.mono rfl (fun t' hc => ?_) (.refl _), trivial⟩
    by_cases ht : t' = t
    · subst ht; simpa [Shared.pop] using hc
    · simpa [Shared.pop, ht] using hc
  | limit => exact ⟨hent.mono rfl (fun _ => id) (Flags.le_nodeLimitReached _), rfl, rfl, rfl⟩
  | @discard k f f' hf | @discarded k f hf =>
    have hdiscarded := finishStep_discards hent (f := f) (fun terminal reason heq e he => by
      subst heq
      exact (hwait (k := k) (List.mem_singleton.mpr rfl) e he).2) hview
    first
    | exact ⟨hdiscarded, trivial⟩
    | (rcases finishStep_next hf with rfl | rfl <;> exact ⟨hdiscarded, trivial⟩)
  | close | crashClose => exact ⟨hent.mono rfl (fun _ _ => rfl) (.refl _), trivial⟩
  | @start k =>
    have hq := hwait (k := k) (List.mem_singleton.mpr rfl)
    refine ⟨hent.write fun e he => (hq e he).2.toNumbered, ?_, trivial⟩
    intro e' he'
    rw [Shared.writeEntry_store, NodeStore.entry_withEntry_self] at he'
    obtain ⟨e, he, rfl⟩ := Option.map_eq_some_iff.mp he'
    exact (hq e he).2
  | crash | shutdown | crashFinish | crashFinished => exact hview.elim

end Steps

theorem EnqueuePc.mem_held {k : AddrKey} {e : EnqueuePc} (h : e ≠ .uncount) :
    (k, .queued) ∈ (e.held k).owned := by
  cases e with
  | uncount => exact absurd rfl h
  | _ => exact List.mem_singleton.mpr rfl

theorem start_histories (S : Setup) : Histories S (start S) where
  entries k e hk := by cases hk
  tasks := by
    intro i pc hpc
    rcases mem_start (List.mem_of_getElem? hpc) with rfl | rfl | rfl | rfl | ⟨t, rfl, -⟩ <;> trivial

theorem step_histories {S : Setup} {c c' : Conf Shared Pc} {a : Nat × Answer}
    (hr : Reach (program S) noPanic (start S) c) (hi : Histories S c) (hok : noPanic c a)
    (hst : step (program S) c a = some c') : Histories S c' := by
  have hb := books hr (not_panicked hr)
  have hboth : ∀ pc sh' pc', c.threads[a.1]? = some pc →
      program S c.shared pc a.2 = some (sh', pc') → EntriesOk S sh' ∧ ViewOk S sh' pc' := by
    intro pc sh' pc' hpc hp
    have hmem := List.mem_of_getElem? hpc
    have hview := hi.tasks _ _ hpc
    have hown := hb.owns hmem
    -- a send of an owned key fails only once the run was stopped early
    have hearly : ∀ {k key : AddrKey} {st : NodeState} {t : Transport}, pc.held.owned ≠ [] →
        (k, st) ∈ pc.held.owned → c.shared.trySend t key = none → c.shared.terminatedEarly = true := by
      intro k key st t hne hk hfail
      have hcl := closed_of_trySend hb (rooms hr) hmem hne hfail
      rcases closed_why hr (.inl ⟨t, hcl⟩) with hstop | hzero
      · exact hstop
      · have := NodeStore.activeCount_pos (hown _ hk) (pc.held_active _ hk)
        omega
    rcases program_cases hp with ⟨p, p', rfl, rfl, hs⟩ | ⟨p, p', rfl, rfl, hs⟩ |
      ⟨p, p', rfl, rfl, hs⟩ | ⟨L, rfl, rfl, -, rfl⟩ | ⟨t, p, p', rfl, rfl, hs⟩
    · refine mainStep_histories hs hi.entries hview ?_
      rintro rest k t rfl hfail
      exact hearly (fun h => by cases h) (List.mem_singleton.mpr rfl) hfail
    · refine ⟨?_, trivial⟩
      cases p <;> simp only [signalStep] at hs
      · split at hs <;> cases hs
        exact hi.entries
      · cases hs; exact hi.entries.mono rfl (fun _ => id) (Flags.le_shutdown _)
      · cases hs; exact hi.entries.mono rfl (fun _ _ => rfl) (.refl _)
      · split at hs <;> cases hs
        exact hi.entries
    · obtain ⟨_, _, _, _, _, rfl⟩ := checkpointStep_frame hs
      exact ⟨hi.entries, trivial⟩
    · exact ⟨hi.entries, trivial⟩
    · rcases workerStep_cases hs with ⟨k, q, rfl, hpanic, -, -⟩ | ⟨k, q, next, rfl, -, hstep, rfl⟩ |
        ⟨-, -, -, hpanic, -, -⟩ | ⟨-, -, -, hstep⟩
      · rw [show a.2.panic = false from hok] at hpanic; cases hpanic
      · refine ⟨taskStep_entries hstep hi.entries hown hview.1 hview.2, ?_⟩
        cases next with
        | none => trivial
        | some q' =>
          refine ⟨taskStep_view hstep hown hview.1 ?_, taskStep_pending hstep hi.entries hview.2 ?_⟩
          · rintro terminal kind rfl hfail
            refine ⟨fun t' => ?_, hearly (fun h => by cases h) (List.mem_singleton.mpr rfl) hfail⟩
            rw [closed_together hr t' t]
            exact closed_of_trySend hb (rooms hr) hmem (fun h => by cases h) hfail
          · rintro c count now rest key w rfl hfail
            exact hearly (fun h => by cases h) (List.mem_append_left _ (List.mem_singleton.mpr rfl)) hfail
      · rw [show a.2.panic = false from hok] at hpanic; cases hpanic
      · exact loopStep_histories hstep hi.entries hown hview
  refine ⟨?_, hi.tasks.step hst (fun pc sh' pc' hpc hp => (hboth pc sh' pc' hpc hp).2) ?_⟩
  · obtain ⟨pc, sh', pc', hpc, hp, rfl⟩ := step_cases hst
    exact (hboth pc sh' pc' hpc hp).1
  · -- another task's entry is at most refreshed
    intro pc sh' pc' j u hpc hp hj hu hold
    have he := step_effect hp
    have hother : ∀ {k : AddrKey} {st : NodeState} {P : History → Prop}, (k, st) ∈ u.held.owned →
        At c.shared k P → At sh' k P := by
      intro k st P hk hP
      exact he.at_other (hb.owns (List.mem_of_getElem? hu) _ hk) (u.held_active _ hk)
        (hb.owned_ne hj.symm hpc hu hk) hP
    have hclosed : c.shared.CutShort → sh'.CutShort := fun hc => hc.mono he
    have hpending : ∀ {k : AddrKey} {e : EnqueuePc},
        At c.shared k (fun h => e.View (c.shared.terminatedEarly = true) h) →
        (e ≠ .uncount → (k, .queued) ∈ u.held.owned) →
          At sh' k fun h => e.View (sh'.terminatedEarly = true) h := by
      intro k e hv hk
      by_cases hu : e = .uncount
      · subst hu; exact fun _ _ => trivial
      · exact fun e' he' => EnqueuePc.View.mono (hother (hk hu) hv e' he') (terminatedEarly_mono he.flags)
    cases u with
    | main p =>
      cases p with
      | seedEnqueue rest k e => exact hpending hold fun hne => EnqueuePc.mem_held hne
      | _ => trivial
    | worker t p =>
      cases p with
      | task k p =>
        obtain ⟨hview, hpend⟩ := hold
        refine ⟨?_, ?_⟩
        · have hkeep : (∃ st, (k, st) ∈ (p.held k).owned) →
              At sh' k fun h => p.View S sh'.CutShort h := by
            rintro ⟨st, hk⟩
            have hP := hother (P := fun h => p.View S c.shared.CutShort h) hk hview
            exact fun e he => (hP e he).mono hclosed
          cases p with
          | abandoning f =>
            cases f with
            | write terminal reason => exact hkeep ⟨_, List.mem_singleton.mpr rfl⟩
            | _ => exact fun _ _ => trivial
          | finishing f =>
            cases f with
            | write terminal reason => exact hkeep ⟨_, List.mem_singleton.mpr rfl⟩
            | _ => exact fun _ _ => trivial
          | enqueueing c count now rest key e =>
            exact hkeep ⟨.processing, List.mem_append_right _ (List.mem_singleton.mpr rfl)⟩
          | resending => exact hkeep ⟨.queued, List.mem_singleton.mpr rfl⟩
          | _ => exact hkeep ⟨.processing, List.mem_singleton.mpr rfl⟩
        · cases p with
          | enqueueing c count now rest key e =>
            exact hpending hpend fun hne => List.mem_append_left _ (EnqueuePc.mem_held hne)
          | _ => trivial
      | discarding k f =>
        cases f with
        | write terminal reason => exact ⟨hold.1, hold.2.1, he.flags.nodeLimitReached hold.2.2⟩
        | _ => trivial
      | crashed | crashedShutdown | crashedFinish => exact hold.elim
      | _ => trivial
    | _ => trivial

/-- **Every entry is in order**, and every task knows what it should, in every run without a
    panic. -/
theorem histories {S : Setup} {c : Conf Shared Pc} (hr : Reach (program S) noPanic (start S) c) :
    Histories S c :=
  hr.invariant (I := Histories S) (start_histories S)
    fun _ _ _ hr hi hok hst => step_histories hr hi hok hst

/-! ## The result -/

theorem EntryOk.numbered {S : Setup} {sh : Shared} {st : NodeState} {h : History}
    (he : EntryOk S sh st h) : h.Numbered S := by
  cases st with
  | queued => exact History.Failed.toNumbered (History.Waiting.toFailed he)
  | processing => exact he
  | reachable => exact he.1.toNumbered
  | handshakeFailed => exact History.Dead.toNumbered he
  | unreachable => exact History.Dead.toNumbered he
  | staleDiscarded => exact (History.Untried.waiting he).toNumbered
  | budgetDiscarded => exact he.elim (fun hu => hu.1.waiting.toNumbered) fun hw => hw.1.toNumbered

/-- What a terminal entry says, field by field, for `closed` queues. -/
structure Agrees (S : Setup) (closed : Prop) (e : NodeEntry) (last : AttemptData) : Prop where
  ends : e.attempts.getLast? = some last
  reachable : e.state = .reachable ↔ last.outcome = .handshakeComplete
  unreachable : e.state = .unreachable ↔
    last.outcome = .connectFailed ∧ ∀ a ∈ e.attempts, a.connectDurationMs = none
  handshakeFailed : e.state = .handshakeFailed ↔
    last.outcome.failed = true ∧ ∃ a ∈ e.attempts, a.connectDurationMs ≠ none
  success : e.state = .reachable → e.handshake ≠ none ∧ e.failure = none
  failure : e.state ≠ .reachable →
    ∃ kind, e.failure = some kind ∧ last.failure = some kind ∧ (∀ a ∈ e.attempts, a.failure ≠ none) ∧
      (e.stats.handshakeAttempts < S.settings.handshakeAttempts →
        (kind = .handshakeTimeout ∧ S.settings.retryOnTimeout = false) ∨ closed)

theorem NodeEntry.ever_iff (e : NodeEntry) :
    e.history.ever = true ↔ ∃ a ∈ e.attempts, a.connectDurationMs ≠ none := by
  simp [history, History.ever, Option.isSome_iff_ne_none]

theorem NodeEntry.ever_eq_false_iff (e : NodeEntry) :
    e.history.ever = false ↔ ∀ a ∈ e.attempts, a.connectDurationMs = none := by
  simp [history, History.ever]

theorem History.Complete.agrees {S : Setup} {closed : Prop} {e : NodeEntry}
    (hst : e.state = .reachable) (hc : e.history.Complete S) (hf : e.failure = none) :
    ∃ last, Agrees S closed e last := by
  obtain ⟨last, hlast, hout⟩ := hc.last
  refine ⟨last, ⟨hlast, ?_, ?_, ?_, fun _ => ⟨?_, hf⟩, fun hne => absurd hst hne⟩⟩
  · exact ⟨fun _ => hout, fun _ => hst⟩
  · rw [hst, hout]; exact ⟨nofun, fun h => nomatch h.1⟩
  · rw [hst, hout]; exact ⟨nofun, fun h => nomatch h.1⟩
  · exact Option.isSome_iff_ne_none.mp hc.handshake

theorem History.Dead.agrees {S : Setup} {closed : Prop} {e : NodeEntry} {st : NodeState}
    (hst : e.state = st) (hd : e.history.Dead S closed st) : ∃ last, Agrees S closed e last := by
  subst hst
  obtain ⟨kind, hkind, ⟨⟨o, ⟨last, hlast, hfail, ho⟩, hfailed, hconn⟩, hterm⟩, hspent⟩ := hd.reason
  subst ho
  have hne : e.state ≠ .reachable := by
    rcases hterm with ⟨h, -⟩ | ⟨h, -⟩ <;> rw [h] <;> exact nofun
  refine ⟨last, ⟨hlast, ?_, ?_, ?_, fun h => absurd h hne, fun _ => ⟨kind, hkind, hfail, ?_, hspent⟩⟩⟩
  · refine ⟨fun h => absurd h hne, fun h => ?_⟩
    rw [h] at hfailed
    cases hfailed
  · rw [← e.ever_eq_false_iff]
    rcases hterm with ⟨hst, hever⟩ | ⟨hst, hever⟩
    · exact ⟨fun _ => ⟨hconn hst, hever⟩, fun _ => hst⟩
    · rw [hst, hever]; exact ⟨nofun, nofun⟩
  · rw [← e.ever_iff]
    rcases hterm with ⟨hst, hever⟩ | ⟨hst, hever⟩
    · rw [hst, hever]; exact ⟨nofun, nofun⟩
    · exact ⟨fun _ => ⟨hfailed, hever⟩, fun _ => hst⟩
  · exact fun a ha => Option.isSome_iff_ne_none.mp (hd.failures a ha)

/-- **Terminal state, failure reason and attempt history agree.**  In every state reached without
    a panic, the attempts of every entry are numbered from one up to their count, which is within
    the limit, and the five fields of a terminal entry are in step. -/
theorem terminal_state_agrees {S : Setup} {c : Conf Shared Pc}
    (hr : Reach (program S) noPanic (start S) c) {k : AddrKey} {e : NodeEntry}
    (he : c.shared.store.entry k = some e) :
    e.attempts.map (·.attempt) = List.range' 1 e.stats.handshakeAttempts ∧
      e.stats.handshakeAttempts ≤ S.settings.handshakeAttempts ∧
      (e.state = .reachable ∨ e.state = .handshakeFailed ∨ e.state = .unreachable →
        ∃ last, Agrees S (∀ t, (c.shared.queue t).closed = true) e last) := by
  have hok := (histories hr).entries k e he
  refine ⟨hok.numbered.numbers, hok.numbered.limit, ?_⟩
  rintro (hst | hst | hst)
  · rw [hst] at hok
    exact hok.1.agrees hst hok.2
  · rw [hst] at hok
    exact (History.Dead.mono hok And.left).agrees hst
  · rw [hst] at hok
    exact (History.Dead.mono hok And.left).agrees hst

/-- The node of `solo` refuses the connection and ends unreachable after its one attempt. -/
theorem terminal_state_agrees_solo :
    ∃ c e last, exec (program solo) panicFree (start solo) soloRun = some c ∧
      c.shared.store.entry ⟨"192.0.2.1", 8333⟩ = some e ∧ e.state = .unreachable ∧
      Agrees solo (∀ t, (c.shared.queue t).closed = true) e last := by
  have hrun : (exec (program solo) panicFree (start solo) soloRun).bind (fun c =>
      (c.shared.store.entry ⟨"192.0.2.1", 8333⟩).map (·.state)) = some .unreachable := by
    decide
  obtain ⟨c, hc, heq⟩ := Option.bind_eq_some_iff.mp hrun
  obtain ⟨e, he, hst⟩ := Option.map_eq_some_iff.mp heq
  obtain ⟨last, hlast⟩ := (terminal_state_agrees (exec_noPanic hc) he).2.2 (.inr (.inr hst))
  exact ⟨c, e, last, hc, he, hst, hlast⟩

end P2PCrawler
