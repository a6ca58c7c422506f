import P2PCrawler.Crawler.Sweep
import P2PCrawler.Crawler.Meters
import P2PCrawler.Crawler.Annals
import P2PCrawler.Crawler.Counters

/-!
# The tasks of a sweep

A run of a sweep is one whose peers do at each attempt what the sweep says.  What a worker has
learned of its node is then a function of the key, of the number of the attempt, and of how far
it has come.

* `Sweep.Of` — the sweep of a set-up; `follows` — the runs in which its peers answer.
* `Sweep.Notes` — the store has taken note of an advertised address.
* `TaskPc.Replays` — what a task at its position knows of the attempts at its key.
* `taskStep_replays` — a step of `process` keeps it.
-/

set_option autoImplicit false

namespace P2PCrawler

open ThreadPool

/-! ## Runs of a sweep -/

/-- The sweep of a set-up without a cap on the nodes: what its result depends on of the seeds and
    the settings. -/
structure Sweep.Of (w : Sweep) (S : Setup) : Prop where
  seeds : w.seeds = S.seedKeys
  seedTime : w.seedTime = S.seedTime
  threshold : w.threshold = S.settings.freshnessThreshold
  enabled : w.enabled = S.settings.isEnabled
  collects : w.collects = !S.settings.probeMode
  limit : w.limit = S.settings.handshakeAttempts
  retryOnTimeout : w.retryOnTimeout = S.settings.retryOnTimeout
  uncapped : S.settings.maxNodes = none

/-- The sweep of a set-up whose peers answer by `attempt`, at the time `now`. -/
def Setup.sweep (S : Setup) (now : Int) (attempt : AddrKey → Nat → Attempt) : Sweep where
  seeds := S.seedKeys
  seedTime := S.seedTime
  now := now
  threshold := S.settings.freshnessThreshold
  enabled := S.settings.isEnabled
  collects := !S.settings.probeMode
  limit := S.settings.handshakeAttempts
  retryOnTimeout := S.settings.retryOnTimeout
  attempt := attempt

theorem Setup.sweep_of {S : Setup} (hcap : S.settings.maxNodes = none) (now : Int)
    (attempt : AddrKey → Nat → Attempt) : (S.sweep now attempt).Of S :=
  ⟨rfl, rfl, rfl, rfl, rfl, rfl, rfl, hcap⟩

/-- What a task sees is what the peer of `k` does at attempt `n`. -/
def TaskPc.Follows (w : Sweep) (k : AddrKey) (n : Nat) (a : Answer) : TaskPc → Prop
  | .connecting net _ =>
    match connectResult net a.connect with
    | .error e => w.attempt k n = .connectFailed (classifyConnectError e net)
    | .ok _ => (w.attempt k n).connects = true
  | .sendVersion _ => a.send.isSome = true → w.attempt k n = .failed .versionSendFailed
  | .handshaking _ _ =>
    match handshakeResult a.events a.negotiationSend a.verackSend a.elapsedMs with
    | none => True
    | some .timeout => w.attempt k n = .timedOut
    | some (.failed kind) => w.attempt k n = .failed kind
    | some (.version _ _) => ∃ messages, w.attempt k n = .complete messages
  | .getaddr _ => a.send.isSome = true → w.attempt k n = .complete []
  | .collecting c => ∀ messages, w.attempt k n = .complete messages →
    match collect c.valid a.collected with
    | .again => True
    | .message _ parsed => messages[c.valid]? = some parsed
    | .ended _ | .malformed _ _ _ => messages[c.valid]? = none
  | .breakdown _ _ _ => a.now = w.now
  | _ => True

instance {P : List ParsedAddrMessage → Prop} [DecidablePred P] :
    (x : Attempt) → Decidable (∀ messages, x = .complete messages → P messages)
  | .complete messages =>
    decidable_of_iff (P messages) ⟨fun hp _ h => by cases h; exact hp, fun h => h messages rfl⟩
  | .connectFailed _ | .timedOut | .failed _ => isTrue fun _ h => by cases h

instance : (x : Attempt) → Decidable (∃ messages, x = .complete messages)
  | .complete messages => isTrue ⟨messages, rfl⟩
  | .connectFailed _ | .timedOut | .failed _ => isFalse fun ⟨_, h⟩ => by cases h

instance (w : Sweep) (k : AddrKey) (n : Nat) (a : Answer) :
    (p : TaskPc) → Decidable (p.Follows w k n a) := fun p => by
  cases p <;> dsimp only [TaskPc.Follows] <;> (repeat' split) <;> infer_instance

/-- The peers answer as the sweep says: at a key, by the number of its running attempt. -/
def follows (w : Sweep) (c : Conf Shared Pc) (a : Nat × Answer) : Prop :=
  ∀ t k p, c.threads[a.1]? = some (.worker t (.task k p)) →
    p.Follows w k (c.shared.store.counted k).handshakeAttempts a.2

instance (w : Sweep) (c : Conf Shared Pc) (a : Nat × Answer) : Decidable (follows w c a) :=
  match h : c.threads[a.1]? with
  | some (.worker t (.task k p)) =>
    decidable_of_iff (p.Follows w k (c.shared.store.counted k).handshakeAttempts a.2)
      ⟨fun hp t' k' p' h' => by rw [h] at h'; cases h'; exact hp, fun hf => hf t k p h⟩
  | none | some (.main _) | some (.signal _) | some (.checkpoint _) | some .logWriter
  | some (.worker _ .top) | some (.worker _ .receiving) | some (.worker _ (.reserving _))
  | some (.worker _ (.limitHit _)) | some (.worker _ (.discarding ..))
  | some (.worker _ .discardClose) | some (.worker _ (.starting _))
  | some (.worker _ (.crashed _)) | some (.worker _ (.crashedShutdown _))
  | some (.worker _ (.crashedFinish ..)) | some (.worker _ .crashedClose)
  | some (.worker _ .exited) | some (.worker _ .died) =>
    isTrue fun t' k' p' h' => by rw [h] at h'; cases h'

theorem counted_of_entry {s : NodeStore} {k : AddrKey} {e : NodeEntry} (he : s.entry k = some e) :
    s.counted k = e.stats := by
  simp [NodeStore.counted, NodeStore.statsOf, he]

/-! ## What is known of a key -/

/-- What an entry says of the attempts so far: their number, and whether one has connected. -/
structure Tried where
  count : Nat
  connected : Bool

def History.tried (h : History) : Tried := ⟨h.count, h.connectMs.isSome⟩

namespace Sweep

section Knowledge
variable (w : Sweep)

/-- The store has taken note of an advertised address. -/
def Notes (s : NodeStore) (a : AdvertisedAddr) : Prop :=
  s.Covers a.key a.timestamp ∧ (w.Fresh a.timestamp → s.Seen a.key)

/-- Attempt `n` at `k` is due, and the entry says whether one before it has connected. -/
structure Due (k : AddrKey) (n : Nat) (x : Tried) : Prop where
  made : w.Made k n
  ever : x.connected = w.connectedBefore k n

/-- Attempt `n` at `k` has connected. -/
structure Linked (k : AddrKey) (n : Nat) (x : Tried) : Prop where
  count : x.count = n
  made : w.Made k n
  connects : (w.attempt k n).connects = true
  ever : x.connected = true

variable (N : AdvertisedAddr → Prop)

/-- `v` messages of the reply of `k` were taken, and their addresses noted. -/
structure Collecting (k : AddrKey) (v : Nat) (messages : List ParsedAddrMessage) (x : Tried) :
    Prop where
  collects : w.collects = true
  made : w.Made k x.count
  complete : w.attempt k x.count = .complete messages
  single : ∀ i < v, ∀ m : ParsedAddrMessage, messages[i]? = some m →
    isGetaddrReplyComplete m.addrs.length = false
  noted : ∀ i < v, ∀ m : ParsedAddrMessage, messages[i]? = some m → ∀ a ∈ m.addrs,
    w.enabled a.network = true → N a

/-- `parsed` is the next message of the reply. -/
def Hearing (k : AddrKey) (v : Nat) (parsed : ParsedAddrMessage) (x : Tried) : Prop :=
  ∃ messages, w.Collecting N k v messages x ∧ messages[v]? = some parsed

/-- Every address that `k` advertises is noted. -/
def Spread (k : AddrKey) : Prop := ∀ a, w.Advertises k a → N a

/-- The reply of `k` was taken. -/
structure Replied (k : AddrKey) (x : Tried) : Prop where
  made : w.Made k x.count
  complete : ∃ messages, w.attempt k x.count = .complete messages
  spread : w.Spread N k

/-- The last attempt at `k` is over. -/
structure Ended (k : AddrKey) (st : NodeState) (reason : Option FailKind) (n : Nat) : Prop where
  last : w.Last k n
  verdict : (st, reason) = w.verdict k n
  spread : w.Spread N k

end Knowledge

section Lemmas
variable {w : Sweep} {N N' : AdvertisedAddr → Prop} {k : AddrKey} {n v : Nat} {x : Tried}
  {messages : List ParsedAddrMessage} {parsed : ParsedAddrMessage}

/-- A key that was never tried is due. -/
theorem Due.untried {h : History} (hu : h.Untried) : w.Due k (h.tried.count + 1) h.tried := by
  subst hu
  exact ⟨w.made_one k, rfl⟩

theorem Due.retry (hd : w.Due k n x) {kind : FailKind} (hf : w.attempt k n = .connectFailed kind)
    (hr : w.retries k n = true) : w.Due k (n + 1) x := by
  refine ⟨hd.made.next hr, ?_⟩
  rw [connectedBefore_succ hd.made.1, hf, hd.ever]
  exact (Bool.or_false _).symm

theorem Linked.retry (hl : w.Linked k n x) (hr : w.retries k n = true) : w.Due k (n + 1) x := by
  refine ⟨hl.made.next hr, ?_⟩
  rw [connectedBefore_succ hl.made.1, hl.connects, hl.ever]
  exact (Bool.or_true _).symm

/-- The next message has at most one address. -/
theorem Collecting.next (hc : w.Collecting N k v messages x) (hm : messages[v]? = some parsed)
    (hone : isGetaddrReplyComplete parsed.addrs.length = false)
    (hn : ∀ a ∈ parsed.addrs, w.enabled a.network = true → N a) :
    w.Collecting N k (v + 1) messages x := by
  refine ⟨hc.collects, hc.made, hc.complete, fun i hi m hmi => ?_, fun i hi m hmi => ?_⟩
  · rcases Nat.lt_succ_iff_lt_or_eq.mp hi with hi | rfl
    · exact hc.single i hi m hmi
    · rw [hm] at hmi; cases hmi; exact hone
  · rcases Nat.lt_succ_iff_lt_or_eq.mp hi with hi | rfl
    · exact hc.noted i hi m hmi
    · rw [hm] at hmi; cases hmi; exact hn

/-- An address of the next message is advertised. -/
theorem Collecting.advertises (hc : w.Collecting N k v messages x) (hm : messages[v]? = some parsed)
    {a : AdvertisedAddr} (ha : a ∈ parsed.addrs) (hen : w.enabled a.network = true) :
    w.Advertises k a :=
  ⟨hc.collects, _, _, hc.made.last_of_complete hc.complete, hc.complete, _,
    mem_heard.mpr ⟨v, hm, hc.single⟩, ha, hen⟩

/-- The reply was taken, if what is heard of it from message `v` on is noted as well. -/
theorem Collecting.replied (hc : w.Collecting N k v messages x)
    (hrest : ∀ i (m : ParsedAddrMessage), messages[i]? = some m → v ≤ i →
      (∀ j < i, ∀ m' : ParsedAddrMessage, messages[j]? = some m' →
        isGetaddrReplyComplete m'.addrs.length = false) →
      ∀ a ∈ m.addrs, w.enabled a.network = true → N a) :
    w.Replied N k x := by
  refine ⟨hc.made, ⟨_, hc.complete⟩, ?_⟩
  rintro a ⟨-, n, messages', hlast, hcomplete, m, hm, ha, hen⟩
  have hn := hlast.unique (hc.made.last_of_complete hc.complete)
  subst hn
  rw [hc.complete] at hcomplete
  cases hcomplete
  obtain ⟨i, hi, hbefore⟩ := mem_heard.mp hm
  rcases Nat.lt_or_ge i v with hlt | hge
  · exact hc.noted i hlt m hi a ha hen
  · exact hrest i m hi hge hbefore a ha hen

/-- The reply has no further message. -/
theorem Collecting.exhausted (hc : w.Collecting N k v messages x) (hm : messages[v]? = none) :
    w.Replied N k x := by
  refine hc.replied fun i m hi hge _ => ?_
  have hlen := List.getElem?_eq_none_iff.mp hm
  obtain ⟨hlt, -⟩ := List.getElem?_eq_some_iff.mp hi
  omega

/-- The crawler stops at a message with several addresses. -/
theorem Collecting.stop (hc : w.Collecting N k v messages x) (hm : messages[v]? = some parsed)
    (hmany : isGetaddrReplyComplete parsed.addrs.length = true)
    (hn : ∀ a ∈ parsed.addrs, w.enabled a.network = true → N a) : w.Replied N k x := by
  refine hc.replied fun i m hi hge hbefore => ?_
  rcases hge.eq_or_lt with rfl | hgt
  · rw [hm] at hi; cases hi; exact hn
  · rw [hbefore v hgt parsed hm] at hmany; cases hmany

/-- A peer that never completes its handshake advertises nothing. -/
theorem Last.spread (hl : w.Last k n) (hno : ∀ messages, w.attempt k n ≠ .complete messages) :
    w.Spread N k := by
  rintro a ⟨-, m, messages, hlast, hcomplete, -⟩
  have hm := hlast.unique hl
  subst hm
  exact absurd hcomplete (hno messages)

theorem Replied.ended (hc : w.Replied N k x) : w.Ended N k .reachable none x.count := by
  obtain ⟨messages, hm⟩ := hc.complete
  exact ⟨hc.made.last_of_complete hm, by simp [Sweep.verdict, hm], hc.spread⟩

theorem Spread.mono (hs : w.Spread N k) (hN : ∀ a, N a → N' a) : w.Spread N' k :=
  fun a ha => hN a (hs a ha)

theorem Collecting.mono (hc : w.Collecting N k v messages x) (hN : ∀ a, N a → N' a) :
    w.Collecting N' k v messages x :=
  ⟨hc.collects, hc.made, hc.complete, hc.single, fun i hi m hm a ha hen =>
    hN a (hc.noted i hi m hm a ha hen)⟩

theorem Hearing.mono (hh : w.Hearing N k v parsed x) (hN : ∀ a, N a → N' a) :
    w.Hearing N' k v parsed x := by
  obtain ⟨messages, hc, hm⟩ := hh
  exact ⟨messages, hc.mono hN, hm⟩

theorem Replied.mono (hc : w.Replied N k x) (hN : ∀ a, N a → N' a) : w.Replied N' k x :=
  ⟨hc.made, hc.complete, hc.spread.mono hN⟩

theorem Ended.mono {st : NodeState} {reason : Option FailKind} (he : w.Ended N k st reason n)
    (hN : ∀ a, N a → N' a) : w.Ended N' k st reason n :=
  ⟨he.last, he.verdict, he.spread.mono hN⟩

end Lemmas

end Sweep

/-! ## What a task knows -/

/-- What a task that is about to finish `k` knows. -/
def FinishPc.Replays (w : Sweep) (N : AdvertisedAddr → Prop) (k : AddrKey) (x : Tried) :
    FinishPc → Prop
  | .write terminal reason => w.Ended N k terminal.val reason x.count
  | .decr | .close => True

/-- What a task at its position knows of the attempts at its key. -/
def TaskPc.Replays (w : Sweep) (N : AdvertisedAddr → Prop) (k : AddrKey) (x : Tried) :
    TaskPc → Prop
  | .begin | .count _ | .requeueing _ _ | .resending _ _ => w.Due k (x.count + 1) x
  | .connecting _ n => x.count = n ∧ w.Due k n x
  | .connectFailed n kind | .everConnected n kind =>
    x.count = n ∧ w.Due k n x ∧ w.attempt k n = .connectFailed kind
  | .connected n _ => x.count = n ∧ w.Made k n ∧ (w.attempt k n).connects = true
  | .connectedAttempt n _ | .sendVersion n | .firstVersion n _ | .versionSent n _
  | .handshaking n _ => w.Linked k n x
  | .handshakeTimeout n => w.Linked k n x ∧ w.attempt k n = .timedOut
  | .handshakeFailed n kind => w.Linked k n x ∧ w.attempt k n = .failed kind
  | .handshaken _ _ => w.Made k x.count ∧ ∃ messages, w.attempt k x.count = .complete messages
  | .getaddr c | .collecting c => ∃ messages, w.Collecting N k c.valid messages x
  | .messageGuard c _ parsed | .breakdown c _ parsed => w.Hearing N k c.valid parsed x
  | .blockLog c parsed now _ | .shuffling c parsed now =>
    w.Hearing N k c.valid parsed x ∧ now = w.now
  | .upserting c size now rest | .enqueueing c size now rest _ _ =>
    ∃ parsed, w.Hearing N k c.valid parsed x ∧ now = w.now ∧ size = parsed.addrs.length ∧
      (∀ a ∈ rest, a ∈ parsed.addrs ∧ w.enabled a.network = true) ∧
      ∀ a ∈ parsed.addrs, w.enabled a.network = true → a ∈ rest ∨ N a
  | .messageDone c size => ∃ parsed, w.Hearing N k c.valid parsed x ∧ size = parsed.addrs.length ∧
      ∀ a ∈ parsed.addrs, w.enabled a.network = true → N a
  -- the run has failed: what the message advertises is lost
  | .blockFailed _ | .blockMark _ => True
  | .malformedGuard _ _ | .malformedCount _ _ | .malformedLog _ _ | .malformedMark _
  | .malformedRelease _ _ | .outcomeGuard _ _ | .outcomeWrite _ _ | .outcomeLog _ _
  | .outcomeMark _ | .outcomeRelease _ | .completing _ => w.Replied N k x
  | .abandoning _ => True
  | .finishing f => f.Replays w N k x

theorem FinishPc.Replays.mono {w : Sweep} {N N' : AdvertisedAddr → Prop} {k : AddrKey} {x : Tried}
    {f : FinishPc} (hf : f.Replays w N k x) (hN : ∀ a, N a → N' a) : f.Replays w N' k x := by
  cases f with
  | write terminal reason => exact Sweep.Ended.mono hf hN
  | _ => trivial

/-- What a task knows stays, as more addresses are noted. -/
theorem TaskPc.Replays.mono {w : Sweep} {N N' : AdvertisedAddr → Prop} {k : AddrKey} {x : Tried}
    {p : TaskPc} (hp : p.Replays w N k x) (hN : ∀ a, N a → N' a) : p.Replays w N' k x := by
  cases p with
  | getaddr c | collecting c =>
    obtain ⟨messages, hc⟩ := hp
    exact ⟨messages, hc.mono hN⟩
  | messageGuard c command parsed | breakdown c command parsed => exact Sweep.Hearing.mono hp hN
  | blockLog c parsed now call | shuffling c parsed now => exact ⟨hp.1.mono hN, hp.2⟩
  | upserting c count now rest | enqueueing c count now rest key e =>
    obtain ⟨parsed, hh, hnow, hcount, hrest, hall⟩ := hp
    exact ⟨parsed, hh.mono hN, hnow, hcount, hrest, fun a ha hen => (hall a ha hen).imp_right (hN a)⟩
  | messageDone c count =>
    obtain ⟨parsed, hh, hcount, hall⟩ := hp
    exact ⟨parsed, hh.mono hN, hcount, fun a ha hen => hN a (hall a ha hen)⟩
  | malformedGuard | malformedCount | malformedLog | malformedMark | malformedRelease | outcomeGuard
    | outcomeWrite | outcomeLog | outcomeMark | outcomeRelease | completing =>
    exact Sweep.Replied.mono hp hN
  | finishing f => exact FinishPc.Replays.mono hp hN
  | _ => exact hp

/-! ## Steps of a task -/

section Task
variable {w : Sweep} {N : AdvertisedAddr → Prop} {S : Setup} {sh sh' : Shared} {t : Transport}
  {k : AddrKey}

/-- After a failed attempt the key is due again, or the attempt was the last one. -/
theorem retryOrFinish_replays {x : Tried} {retry : Bool} {terminal : Terminal} {kind : FailKind}
    (hm : w.Made k x.count) (hretry : retry = w.retries k x.count)
    (hdue : w.retries k x.count = true → w.Due k (x.count + 1) x)
    (hverdict : (terminal.val, some kind) = w.verdict k x.count)
    (hno : ∀ messages, w.attempt k x.count ≠ .complete messages) :
    (retryOrFinish retry terminal kind).Replays w N k x := by
  subst hretry
  cases hr : w.retries k x.count with
  | true => exact hdue hr
  | false => exact ⟨⟨hm, hr⟩, hverdict, Sweep.Last.spread ⟨hm, hr⟩ hno⟩

section Parts
variable {a : Answer} {p p' : TaskPc}

/-- The number of the running attempt. -/
theorem running_number {e : NodeEntry} (he : sh.store.entry k = some e) :
    (sh.store.counted k).handshakeAttempts = e.history.tried.count := by
  rw [counted_of_entry he]
  rfl

/-- After a handshake that has failed, for good or to be tried again. -/
theorem lost_replays {n : Nat} {x : Tried} {retry : Bool} {kind : FailKind} (hl : w.Linked k n x)
    (hretry : retry = w.retries k n) (hverdict : w.verdict k n = (.handshakeFailed, some kind))
    (hno : ∀ messages, w.attempt k n ≠ .complete messages) :
    (retryOrFinish retry .handshakeFailed kind).Replays w N k x := by
  obtain rfl : x.count = n := hl.count
  exact retryOrFinish_replays hl.made hretry hl.retry hverdict.symm hno

/-- The attempt is counted and dialled; one that does not connect is the last, or is retried. -/
theorem connect_replays (hpart : p.part = .connect) (hw : w.Of S)
    (h : taskStep S sh t k a p = some (sh', some p'))
    (hp : At sh k fun h => p.Replays w N k h.tried)
    (hfol : p.Follows w k (sh.store.counted k).handshakeAttempts a) :
    At sh' k fun h => p'.Replays w N k h.tried := by
  cases p with
  | begin => cases h; exact hp
  | count net =>
    cases h
    intro e' he'
    rw [Shared.writeEntry_store, NodeStore.entry_withEntry_self] at he'
    obtain ⟨e, he, rfl⟩ := Option.map_eq_some_iff.mp he'
    simp only [he, Option.map_some, Option.getD_some]
    obtain ⟨hmade, hever⟩ := hp e he
    exact ⟨rfl, hmade, hever⟩
  | connecting net n =>
    simp only [taskStep] at h
    simp only [TaskPc.Follows] at hfol
    split at h
    · rename_i err herr
      cases h
      intro e he
      obtain ⟨hcount, hdue⟩ := hp e he
      rw [herr, running_number he, hcount] at hfol
      exact ⟨hcount, hdue, hfol⟩
    · rename_i ms hms
      cases h
      intro e he
      obtain ⟨hcount, hdue⟩ := hp e he
      rw [hms, running_number he, hcount] at hfol
      exact ⟨hcount, hdue.made, hfol⟩
  | connectFailed n kind => cases h; exact At.write hp fun _ he => he
  | everConnected n kind =>
    cases h
    intro e he
    obtain ⟨rfl, hdue, hfail⟩ := hp e he
    simp only [he, Option.map_some, Option.getD_some]
    refine retryOrFinish_replays hdue.made ?_ (hdue.retry hfail) ?_ (fun messages hm => ?_)
    · simp only [Sweep.retries, hfail, hw.limit]
    · have hever : e.stats.timeConnectMs.isSome = w.connectedBefore k e.history.tried.count :=
        hdue.ever
      simp only [Sweep.verdict, hfail, hever, connectTerminal]
      split <;> rfl
    · rw [hfail] at hm; cases hm
  | connected n ms =>
    cases h
    refine At.write hp fun e hb => ?_
    obtain ⟨hcount, hmade, hconn⟩ := hb
    exact ⟨hcount, hmade, hconn, rfl⟩
  | connectedAttempt n ms => cases h; exact At.write hp fun _ he => he
  | _ => cases hpart

/-- The handshake is done as the sweep says. -/
theorem handshake_replays (hpart : p.part = .handshake) (hw : w.Of S)
    (h : taskStep S sh t k a p = some (sh', some p'))
    (hp : At sh k fun h => p.Replays w N k h.tried)
    (hfol : p.Follows w k (sh.store.counted k).handshakeAttempts a) :
    At sh' k fun h => p'.Replays w N k h.tried := by
  cases p with
  | sendVersion n =>
    simp only [taskStep] at h
    split at h
    · rename_i err herr
      cases h
      intro e he
      have hfail := hfol (by rw [herr]; rfl)
      rw [running_number he, (hp e he).count] at hfail
      exact ⟨hp e he, hfail⟩
    · cases h; exact hp
  | firstVersion n sentTs => cases h; exact At.write hp fun _ he => he
  | versionSent n sentTs => cases h; exact At.write hp fun _ he => he
  | handshaking n sentTs =>
    simp only [taskStep] at h
    simp only [TaskPc.Follows] at hfol
    split at h
    · cases h
    · rename_i hres
      cases h
      intro e he
      rw [hres, running_number he, (hp e he).count] at hfol
      exact ⟨hp e he, hfol⟩
    · rename_i kind hres
      cases h
      intro e he
      rw [hres, running_number he, (hp e he).count] at hfol
      exact ⟨hp e he, hfol⟩
    · rename_i v ms hres
      cases h
      intro e he
      rw [hres, running_number he] at hfol
      have hcount := (hp e he).count
      exact ⟨hcount ▸ (hp e he).made, hfol⟩
  | handshakeTimeout n =>
    cases h
    refine At.write hp fun e hb => ?_
    obtain ⟨hl, hout⟩ := hb
    refine lost_replays hl ?_ ?_ fun messages hm => ?_
    · simp only [Sweep.retries, hout, hw.limit, hw.retryOnTimeout]
    · simp only [Sweep.verdict, hout]
    · exact absurd (hout.symm.trans hm) (fun h => by cases h)
  | handshakeFailed n kind =>
    cases h
    refine At.write hp fun e hb => ?_
    obtain ⟨hl, hout⟩ := hb
    refine lost_replays hl ?_ ?_ fun messages hm => ?_
    · simp only [Sweep.retries, hout, hw.limit]
    · simp only [Sweep.verdict, hout]
    · exact absurd (hout.symm.trans hm) (fun h => by cases h)
  | handshaken hd sentTs =>
    cases h
    refine At.write hp fun e hb => ?_
    obtain ⟨hmade, messages, hcomplete⟩ := hb
    by_cases hprobe : S.settings.probeMode = true
    · rw [if_pos hprobe]
      refine ⟨hmade, ⟨messages, hcomplete⟩, ?_⟩
      rintro a ⟨hcollects, -⟩
      rw [hw.collects, hprobe] at hcollects
      cases hcollects
    · rw [if_neg hprobe]
      refine ⟨messages, ?_, hmade, hcomplete, fun i hi => ?_, fun i hi => ?_⟩
      · rw [hw.collects]; simpa using hprobe
      · exact absurd hi (Nat.not_lt_zero i)
      · exact absurd hi (Nat.not_lt_zero i)
  | _ => cases hpart

/-- The messages are taken one by one, and their addresses noted. -/
theorem collect_replays (hpart : p.part = .collect) (hw : w.Of S)
    (h : taskStep S sh t k a p = some (sh', some p')) (hown : Owns sh (p.held k))
    (hp : At sh k fun h => p.Replays w N k h.tried)
    (hfol : p.Follows w k (sh.store.counted k).handshakeAttempts a)
    (hnote : ∀ c count now addr rest, p = .upserting c count now (addr :: rest) → N addr) :
    At sh' k fun h => p'.Replays w N k h.tried := by
  cases p with
  | getaddr c =>
    cases h
    by_cases hfail : a.send.isSome = true
    · rw [if_pos hfail]
      intro e he
      obtain ⟨messages, hc⟩ := hp e he
      have hnone := hfol hfail
      rw [running_number he, hc.complete] at hnone
      cases hnone
      exact hc.exhausted List.getElem?_nil
    · rw [if_neg hfail]; exact hp
  | collecting c =>
    simp only [taskStep] at h
    simp only [TaskPc.Follows] at hfol
    split at h
    · cases h; exact hp
    · rename_i outcome hout
      cases h
      intro e he
      obtain ⟨messages, hc⟩ := hp e he
      have hm := hfol messages (by rw [running_number he]; exact hc.complete)
      rw [hout] at hm
      exact hc.exhausted hm
    · rename_i command parsed hout
      cases h
      intro e he
      obtain ⟨messages, hc⟩ := hp e he
      have hm := hfol messages (by rw [running_number he]; exact hc.complete)
      rw [hout] at hm
      exact ⟨messages, hc, hm⟩
    · rename_i command error payload hout
      cases h
      intro e he
      obtain ⟨messages, hc⟩ := hp e he
      have hm := hfol messages (by rw [running_number he]; exact hc.complete)
      rw [hout] at hm
      exact hc.exhausted hm
  | malformedGuard | messageGuard | outcomeGuard =>
    simp only [taskStep] at h
    split at h <;> cases h
    exact hp
  | malformedCount c event =>
    cases h
    by_cases hl : S.logging <;> simp only [hl] <;> exact At.write hp fun _ he => he
  | outcomeWrite c outcome =>
    cases h
    by_cases hl : S.logging <;> simp only [hl] <;> exact At.write hp fun _ he => he
  | breakdown c command parsed =>
    cases h
    have hw : At (sh.writeEntry k fun e => { e with stats := recordMessage parsed e.stats }) k
        fun h => w.Hearing N k c.valid parsed h.tried :=
      At.write hp fun e he => by rw [recordMessage_history]; exact he
    have hnow : a.now = w.now := hfol
    by_cases hl : S.logging <;> simp only [hl] <;> exact fun e he => ⟨hw e he, hnow⟩
  | shuffling c parsed now =>
    simp only [taskStep] at h
    split at h <;> cases h
    rename_i hperm
    have hmem : ∀ addr, addr ∈ a.order ↔ addr ∈ parsed.addrs ∧ w.enabled addr.network = true := by
      intro addr
      rw [(List.isPerm_iff.mp hperm).mem_iff, enabledAddrs, List.mem_filter, hw.enabled]
    intro e he
    obtain ⟨hh, hnow⟩ := hp e he
    exact ⟨parsed, hh, hnow, rfl, fun addr ha => (hmem addr).mp ha,
      fun addr ha hen => .inl ((hmem addr).mpr ⟨ha, hen⟩)⟩
  | upserting c count now rest =>
    cases rest with
    | nil =>
      cases h
      intro e he
      obtain ⟨parsed, hh, -, hcount, -, hall⟩ := hp e he
      exact ⟨parsed, hh, hcount, fun addr ha hen =>
        (hall addr ha hen).resolve_left List.not_mem_nil⟩
    | cons addr rest =>
      cases h
      have hstay := At.upsert ⟨addr.host, addr.port⟩ addr.timestamp addr.network
        S.settings.freshnessThreshold now (hown (k, .processing) (List.mem_singleton.mpr rfl)) hp
      -- the address is noted by now
      have hnext : ∀ x : Tried, (TaskPc.upserting c count now (addr :: rest)).Replays w N k x →
          (TaskPc.upserting c count now rest).Replays w N k x := by
        rintro x ⟨parsed, hh, hnow, hcount, hrest, hall⟩
        refine ⟨parsed, hh, hnow, hcount, fun a ha => hrest a (List.mem_cons_of_mem _ ha),
          fun a ha hen => ?_⟩
        rcases hall a ha hen with hin | hnoted
        · rcases List.mem_cons.mp hin with rfl | hin
          · exact .inr (hnote c count now a rest rfl)
          · exact .inl hin
        · exact .inr hnoted
      cases hout : (sh.store.frontierUpsert ⟨addr.host, addr.port⟩ addr.timestamp addr.network
        S.settings.freshnessThreshold now).2 <;> exact fun e he => hnext _ (hstay e he)
  | enqueueing c count now rest key e =>
    cases h
    have hstay := At.enqueue S.digests hown hp
    cases hnext : (enqueueStep S.digests sh key e).2 <;> exact hstay
  | messageDone c count =>
    cases h
    refine At.write hp fun e hb => ?_
    obtain ⟨parsed, ⟨messages, hc, hm⟩, hcount, hall⟩ := hb
    subst hcount
    by_cases hmany : isGetaddrReplyComplete parsed.addrs.length = true
    · rw [if_pos hmany]; exact hc.stop hm hmany hall
    · rw [if_neg hmany]; exact ⟨messages, hc.next hm (by simpa using hmany) hall⟩
  | _ => cases hpart

/-- The log does not touch what is known, as long as its writes succeed. -/
theorem log_replays (hpart : p.part = .log)
    (h : taskStep S sh t k a p = some (sh', some p'))
    (hp : At sh k fun h => p.Replays w N k h.tried) (hlog : sh'.outputFailed = false) :
    At sh' k fun h => p'.Replays w N k h.tried := by
  cases p with
  | malformedLog | outcomeLog =>
    obtain ⟨hsh, ⟨_, heq⟩ | ⟨res, heq⟩⟩ := logStep_effect h
    · cases heq; rw [hsh]; exact hp
    · rw [hsh]; cases res <;> cases heq <;> exact hp
  | blockLog c parsed now call =>
    obtain ⟨hsh, ⟨_, heq⟩ | ⟨res, heq⟩⟩ := logStep_effect h
    · cases heq; rw [hsh]; exact hp
    · rw [hsh]
      cases res with
      | none => cases heq; exact fun _ _ => trivial
      | some id => cases heq; exact hp
  | blockMark c => cases h; cases hlog
  | malformedMark | malformedRelease | blockFailed | outcomeMark | outcomeRelease =>
    cases h; exact hp
  | _ => cases hpart

/-- The verdict is what the attempts come to. -/
theorem finish_replays (hpart : p.part = .finish)
    (h : taskStep S sh t k a p = some (sh', some p'))
    (hp : At sh k fun h => p.Replays w N k h.tried)
    (hsend : ∀ terminal kind, p = .resending terminal kind → sh.trySend t k ≠ none)
    (habandon : ∀ f, p ≠ .abandoning f) :
    At sh' k fun h => p'.Replays w N k h.tried := by
  cases p with
  | completing sentTs => cases h; exact At.write hp fun e he => Sweep.Replied.ended he
  | requeueing terminal kind => cases h; exact At.write hp fun _ he => he
  | resending terminal kind =>
    simp only [taskStep] at h
    split at h
    · cases h
    · rename_i hfail; exact absurd hfail (hsend terminal kind rfl)
  | abandoning f => exact (habandon f rfl).elim
  | finishing f =>
    cases hnext : (finishStep sh k f).2 <;> simp only [taskStep, hnext] at h <;> cases h
    rcases finishStep_next hnext with rfl | rfl <;> exact fun _ _ => trivial
  | _ => cases hpart

/-- **A step of `process` keeps what the task knows**, if the peer answers as the sweep says. -/
theorem taskStep_replays (hw : w.Of S) (h : taskStep S sh t k a p = some (sh', some p'))
    (hown : Owns sh (p.held k))
    (hp : At sh k fun h => p.Replays w N k h.tried)
    (hfol : p.Follows w k (sh.store.counted k).handshakeAttempts a)
    (hsend : ∀ terminal kind, p = .resending terminal kind → sh.trySend t k ≠ none)
    (habandon : ∀ f, p ≠ .abandoning f) (hlog : sh'.outputFailed = false)
    (hnote : ∀ c count now addr rest, p = .upserting c count now (addr :: rest) → N addr) :
    At sh' k fun h => p'.Replays w N k h.tried := by
  cases hpart : p.part with
  | connect => exact connect_replays hpart hw h hp hfol
  | handshake => exact handshake_replays hpart hw h hp hfol
  | collect => exact collect_replays hpart hw h hown hp hfol hnote
  | log => exact log_replays hpart h hp hlog
  | finish => exact finish_replays hpart h hp hsend habandon

end Parts

end Task

end P2PCrawler
