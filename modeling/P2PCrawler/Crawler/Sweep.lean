import P2PCrawler.Crawler.History
import P2PCrawler.Crawler.Frontier

/-!
# What a sweep comes to

An undisturbed crawl works off its frontier until nothing is left.  Where the peers answer each
attempt in the same way whenever it is made, its result does not depend on the order in which the
workers take the keys: it can be said without a schedule.

* `Sweep` — what fixes the result: the seeds, the settings, and what each peer does at each of
  its attempts.
* `Sweep.Last`, `Sweep.verdict` — the attempts that are made at a key, and what they leave.
* `Sweep.Swept` — the keys that are processed: **the least set** with the seeds that is closed
  under the fresh addresses its members advertise.
* `Sweep.Result` — the store a sweep ends in; `Sweep.Result.unique` — two such stores agree.
* `Sweep.Within` — a sweep that is told more; `Sweep.Within.leaves` — what that does to an entry.
-/

set_option autoImplicit false

namespace P2PCrawler

/-- What one attempt at a peer comes to. -/
inductive Attempt where
  | connectFailed (kind : FailKind)
  /-- the peer is silent until the deadline of the handshake -/
  | timedOut
  | failed (kind : FailKind)
  /-- the handshake succeeds, and `getaddr` is answered with these messages -/
  | complete (messages : List ParsedAddrMessage)
  deriving DecidableEq

/-- The connection is established. -/
def Attempt.connects : Attempt → Bool
  | .connectFailed _ => false
  | _ => true

/-- What fixes the result of a sweep. -/
structure Sweep where
  seeds : List AddrKey
  seedTime : Int
  /-- the clock of the sweep, which stands still -/
  now : Int
  threshold : Int
  enabled : NetworkType → Bool
  /-- peers are asked for addresses -/
  collects : Bool
  limit : Nat
  retryOnTimeout : Bool
  /-- what a peer does at its `n`-th attempt, counted from one -/
  attempt : AddrKey → Nat → Attempt

namespace Sweep

variable (w : Sweep)

/-! ## The attempts at a key -/

/-- Attempt `n` at `k` is followed by another one. -/
def retries (k : AddrKey) (n : Nat) : Bool :=
  match w.attempt k n with
  | .connectFailed _ | .failed _ => decide (n < w.limit)
  | .timedOut => w.retryOnTimeout && decide (n < w.limit)
  | .complete _ => false

/-- Attempt `n` is made, if `k` is processed. -/
def Made (k : AddrKey) (n : Nat) : Prop := 0 < n ∧ ∀ i, 0 < i → i < n → w.retries k i = true

/-- Attempt `n` is the last one. -/
structure Last (k : AddrKey) (n : Nat) : Prop where
  made : w.Made k n
  ends : w.retries k n = false

/-- An attempt before the `n`-th has connected. -/
def connectedBefore (k : AddrKey) (n : Nat) : Bool :=
  (List.range n).any fun i => decide (0 < i) && (w.attempt k i).connects

/-- The state and the failure the last attempt leaves. -/
def verdict (k : AddrKey) (n : Nat) : NodeState × Option FailKind :=
  match w.attempt k n with
  | .connectFailed kind =>
    (if w.connectedBefore k n then .handshakeFailed else .unreachable, some kind)
  | .timedOut => (.handshakeFailed, some .handshakeTimeout)
  | .failed kind => (.handshakeFailed, some kind)
  | .complete _ => (.reachable, none)

theorem made_one (k : AddrKey) : w.Made k 1 := ⟨Nat.one_pos, fun i hi hlt => by omega⟩

variable {w} {k : AddrKey} {n : Nat}

theorem Made.next (hm : w.Made k n) (hr : w.retries k n = true) : w.Made k (n + 1) := by
  refine ⟨Nat.succ_pos n, fun i hi hlt => ?_⟩
  rcases Nat.lt_succ_iff_lt_or_eq.mp hlt with hlt | rfl
  · exact hm.2 i hi hlt
  · exact hr

theorem Last.unique {m : Nat} (h : w.Last k n) (h' : w.Last k m) : n = m := by
  have hle : ∀ {i j : Nat}, w.Last k i → w.Last k j → j ≤ i := by
    intro i j hi hj
    by_contra hlt
    have hretry := hj.made.2 i hi.made.1 (by omega)
    rw [hi.ends] at hretry
    cases hretry
  exact le_antisymm (hle h' h) (hle h h')

@[simp] theorem connectedBefore_one (w : Sweep) (k : AddrKey) : w.connectedBefore k 1 = false := rfl

theorem connectedBefore_succ (hn : 0 < n) :
    w.connectedBefore k (n + 1) = (w.connectedBefore k n || (w.attempt k n).connects) := by
  simp [connectedBefore, List.range_succ, hn]

/-- A peer that completes its handshake is not tried again. -/
theorem Made.last_of_complete (hm : w.Made k n) {messages : List ParsedAddrMessage}
    (hc : w.attempt k n = .complete messages) : w.Last k n :=
  ⟨hm, by simp [retries, hc]⟩

/-- What the last attempt leaves is terminal. -/
theorem verdict_terminal (w : Sweep) (k : AddrKey) (n : Nat) :
    (w.verdict k n).1 = .reachable ∨ (w.verdict k n).1 = .handshakeFailed ∨
      (w.verdict k n).1 = .unreachable := by
  unfold verdict
  split
  · split
    · exact .inr (.inl rfl)
    · exact .inr (.inr rfl)
  · exact .inr (.inl rfl)
  · exact .inr (.inl rfl)
  · exact .inl rfl

/-- A node ends reachable iff its last attempt completes the handshake. -/
theorem verdict_reachable (w : Sweep) (k : AddrKey) (n : Nat) :
    (w.verdict k n).1 = .reachable ↔ ∃ messages, w.attempt k n = .complete messages := by
  unfold verdict
  cases w.attempt k n with
  | connectFailed kind =>
    simp only [reduceCtorEq, exists_false, iff_false]
    split
    · exact fun h => by cases h
    · exact fun h => by cases h
  | timedOut | failed kind => simp
  | complete messages => simp

/-! ## The messages of a reply -/

/-- The messages the crawler takes of a reply: it stops after the first that has several
    addresses. -/
def heard : List ParsedAddrMessage → List ParsedAddrMessage
  | [] => []
  | m :: messages =>
    if isGetaddrReplyComplete m.addrs.length then [m] else m :: heard messages

theorem mem_heard {m : ParsedAddrMessage} : ∀ {messages : List ParsedAddrMessage},
    m ∈ heard messages ↔ ∃ i : Nat, messages[i]? = some m ∧
      ∀ j < i, ∀ m' : ParsedAddrMessage, messages[j]? = some m' → isGetaddrReplyComplete m'.addrs.length = false
  | [] => by simp [heard]
  | m₀ :: messages => by
    have ih := @mem_heard m messages
    by_cases hm : isGetaddrReplyComplete m₀.addrs.length = true
    · rw [heard, if_pos hm, List.mem_singleton]
      constructor
      · rintro rfl
        exact ⟨0, rfl, fun j hj => absurd hj (Nat.not_lt_zero j)⟩
      · rintro ⟨i, hi, hbefore⟩
        cases i with
        | zero => simpa using hi.symm
        | succ i =>
          have hone := hbefore 0 (Nat.succ_pos i) m₀ rfl
          rw [hm] at hone
          cases hone
    · have hone : isGetaddrReplyComplete m₀.addrs.length = false := by simpa using hm
      rw [heard, if_neg hm, List.mem_cons, ih]
      constructor
      · rintro (rfl | ⟨i, hi, hbefore⟩)
        · exact ⟨0, rfl, fun j hj => absurd hj (Nat.not_lt_zero j)⟩
        · refine ⟨i + 1, hi, fun j hj m' hm' => ?_⟩
          cases j with
          | zero => cases hm'; exact hone
          | succ j => exact hbefore j (Nat.lt_of_succ_lt_succ hj) m' hm'
      · rintro ⟨i, hi, hbefore⟩
        cases i with
        | zero => exact .inl (by simpa using hi.symm)
        | succ i => exact .inr ⟨i, hi, fun j hj m' hm' => hbefore (j + 1) (Nat.succ_lt_succ hj) m' hm'⟩

/-! ## The keys that are processed -/

variable (w)

/-- The peer of `k` ends reachable and advertises `a`, an address of an enabled network. -/
def Advertises (k : AddrKey) (a : AdvertisedAddr) : Prop :=
  w.collects = true ∧ ∃ n messages, w.Last k n ∧ w.attempt k n = .complete messages ∧
    ∃ m ∈ heard messages, a ∈ m.addrs ∧ w.enabled a.network = true

/-- The timestamp passes the freshness filter. -/
def Fresh (ts : Int) : Prop := stale w.threshold w.now ts = false

/-- The keys that are processed. -/
inductive Swept : AddrKey → Prop
  | seed {k : AddrKey} (hk : k ∈ w.seeds) : Swept k
  | advertised {k : AddrKey} {a : AdvertisedAddr} (hk : Swept k) (ha : w.Advertises k a)
      (hfresh : w.Fresh a.timestamp) : Swept a.key

/-- A timestamp under which a key is observed. -/
inductive Sighted : AddrKey → Int → Prop
  | seed {k : AddrKey} (hk : k ∈ w.seeds) : Sighted k w.seedTime
  | advertised {k : AddrKey} {a : AdvertisedAddr} (hk : w.Swept k) (ha : w.Advertises k a) :
      Sighted a.key a.timestamp

/-- The filter, in words: every timestamp passes where there is no threshold. -/
theorem fresh_iff (ts : Int) : w.Fresh ts ↔ w.threshold ≤ 0 ∨ w.now - w.threshold ≤ ts :=
  not_stale_iff ..

variable {w}

/-- What is processed has been observed. -/
theorem Swept.sighted (h : w.Swept k) : ∃ ts, w.Sighted k ts := by
  cases h with
  | seed hk => exact ⟨_, .seed hk⟩
  | advertised hk ha => exact ⟨_, .advertised hk ha⟩

/-! ## The result -/

variable (w)

/-- The entry a sweep leaves for a key. -/
structure Leaves (k : AddrKey) (e : NodeEntry) : Prop where
  freshest : w.Sighted k e.freshestTs
  latest : ∀ ts, w.Sighted k ts → ts ≤ e.freshestTs
  swept : w.Swept k → w.Last k e.stats.handshakeAttempts ∧
    (e.state, e.failure) = w.verdict k e.stats.handshakeAttempts
  parked : ¬w.Swept k → e.state = .staleDiscarded ∧ e.stats.handshakeAttempts = 0 ∧ e.failure = none

/-- The store a sweep ends in: an entry for every key that was observed. -/
structure Result (s : NodeStore) : Prop where
  stored : ∀ k ts, w.Sighted k ts → s.entry k ≠ none
  entries : ∀ k e, s.entry k = some e → w.Leaves k e

end Sweep

/-- What a sweep decides of an entry: state, freshest timestamp, number of attempts, failure. -/
def NodeEntry.summary (e : NodeEntry) : NodeState × Int × Nat × Option FailKind :=
  (e.state, e.freshestTs, e.stats.handshakeAttempts, e.failure)

namespace Sweep

variable {w : Sweep} {k : AddrKey}

theorem Leaves.unique {e e' : NodeEntry} (h : w.Leaves k e) (h' : w.Leaves k e') :
    e.summary = e'.summary := by
  have hts : e.freshestTs = e'.freshestTs := le_antisymm (h'.latest _ h.freshest) (h.latest _ h'.freshest)
  by_cases hk : w.Swept k
  · obtain ⟨hlast, hverdict⟩ := h.swept hk
    obtain ⟨hlast', hverdict'⟩ := h'.swept hk
    have hn := hlast.unique hlast'
    rw [hn, ← hverdict'] at hverdict
    obtain ⟨hstate, hfailure⟩ := Prod.mk.injEq .. ▸ hverdict
    simp only [NodeEntry.summary, hstate, hts, hn, hfailure]
  · obtain ⟨hstate, hn, hfailure⟩ := h.parked hk
    obtain ⟨hstate', hn', hfailure'⟩ := h'.parked hk
    simp only [NodeEntry.summary, hstate, hstate', hts, hn, hn', hfailure, hfailure']

/-- **The result of a sweep is unique**: two stores it may end in have the same keys, and the same
    summary for each. -/
theorem Result.unique {s s' : NodeStore} (h : w.Result s) (h' : w.Result s') (k : AddrKey) :
    (s.entry k).map NodeEntry.summary = (s'.entry k).map NodeEntry.summary := by
  cases he : s.entry k with
  | none =>
    cases he' : s'.entry k with
    | none => rfl
    | some e' => exact absurd he (h.stored k _ (h'.entries k e' he').freshest)
  | some e =>
    cases he' : s'.entry k with
    | none => exact absurd he' (h'.stored k _ (h.entries k e he).freshest)
    | some e' =>
      simp only [Option.map_some, (h.entries k e he).unique (h'.entries k e' he')]

/-- What is said of an entry that is processed: it was tried as often as the peer asks for, and has
    a verdict of the last attempt, reachable iff that completed the handshake. -/
theorem Leaves.tried {e : NodeEntry} (h : w.Leaves k e) (hk : w.Swept k) :
    (e.state = .reachable ∨ e.state = .handshakeFailed ∨ e.state = .unreachable) ∧
      w.Last k e.stats.handshakeAttempts ∧ (e.state = .reachable ↔
        ∃ messages, w.attempt k e.stats.handshakeAttempts = .complete messages) := by
  obtain ⟨hlast, hverdict⟩ := h.swept hk
  have hstate : e.state = (w.verdict k e.stats.handshakeAttempts).1 := congrArg Prod.fst hverdict
  rw [hstate]
  exact ⟨w.verdict_terminal k _, hlast, w.verdict_reachable k _⟩

/-- The keys of the result that have been tried are those that are processed. -/
theorem Result.processed_iff {s : NodeStore} (h : w.Result s) (k : AddrKey) :
    (∃ e, s.entry k = some e ∧ 0 < e.stats.handshakeAttempts) ↔ w.Swept k := by
  constructor
  · rintro ⟨e, he, hpos⟩
    by_contra hk
    have hzero := ((h.entries k e he).parked hk).2.1
    omega
  · intro hk
    obtain ⟨ts, hts⟩ := hk.sighted
    obtain ⟨e, he⟩ := Option.ne_none_iff_exists'.mp (h.stored k ts hts)
    exact ⟨e, he, ((h.entries k e he).swept hk).1.made.1⟩

/-! ## Sweeps that are told more -/

/-- `w'` starts from more, lets more through, and has the same peers. -/
structure Within (w w' : Sweep) : Prop where
  seeds : w.seeds ⊆ w'.seeds
  seedTime : w.seedTime ≤ w'.seedTime
  fresh : ∀ ts, w.Fresh ts → w'.Fresh ts
  enabled : ∀ net, w.enabled net = true → w'.enabled net = true
  collects : w.collects = true → w'.collects = true
  limit : w'.limit = w.limit
  retryOnTimeout : w'.retryOnTimeout = w.retryOnTimeout
  attempt : w'.attempt = w.attempt

section Within
variable {w' : Sweep} (h : w.Within w')
include h

theorem Within.last {n : Nat} (hlast : w.Last k n) : w'.Last k n := by
  have hretries : ∀ i, w'.retries k i = w.retries k i := by
    intro i
    simp only [retries, h.attempt, h.limit, h.retryOnTimeout]
  obtain ⟨⟨hpos, hmade⟩, hends⟩ := hlast
  exact ⟨⟨hpos, fun i hi hlt => (hretries i).trans (hmade i hi hlt)⟩, (hretries n).trans hends⟩

theorem Within.verdict (n : Nat) : w'.verdict k n = w.verdict k n := by
  unfold Sweep.verdict connectedBefore
  rw [h.attempt]

theorem Within.advertises {a : AdvertisedAddr} (ha : w.Advertises k a) : w'.Advertises k a := by
  obtain ⟨hcollects, n, messages, hlast, hcomplete, m, hm, hmem, hnet⟩ := ha
  exact ⟨h.collects hcollects, n, messages, h.last hlast, h.attempt ▸ hcomplete, m, hm, hmem,
    h.enabled _ hnet⟩

/-- What the one processes, the other one does. -/
theorem Within.swept (hk : w.Swept k) : w'.Swept k := by
  induction hk with
  | seed hk => exact .seed (h.seeds hk)
  | advertised _ ha hfresh ih => exact .advertised ih (h.advertises ha) (h.fresh _ hfresh)

/-- What the one sees, the other one sees, under a timestamp that is no older. -/
theorem Within.sighted {ts : Int} (hts : w.Sighted k ts) : ∃ ts', ts ≤ ts' ∧ w'.Sighted k ts' := by
  cases hts with
  | seed hk => exact ⟨_, h.seedTime, .seed (h.seeds hk)⟩
  | advertised hk ha => exact ⟨_, le_refl _, .advertised (h.swept hk) (h.advertises ha)⟩

/-- The entry of the one, beside that of the other. -/
theorem Within.leaves {e e' : NodeEntry} (he : w.Leaves k e) (he' : w'.Leaves k e') :
    e.freshestTs ≤ e'.freshestTs ∧ (e.state ≠ .staleDiscarded →
      e'.state = e.state ∧ e'.failure = e.failure ∧
        e'.stats.handshakeAttempts = e.stats.handshakeAttempts) := by
  obtain ⟨ts, hle, hts⟩ := h.sighted he.freshest
  refine ⟨hle.trans (he'.latest ts hts), fun hst => ?_⟩
  have hk : w.Swept k := by
    by_contra hk
    exact hst (he.parked hk).1
  obtain ⟨hlast, hverdict⟩ := he.swept hk
  obtain ⟨hlast', hverdict'⟩ := he'.swept (h.swept hk)
  have hn := (h.last hlast).unique hlast'
  rw [h.verdict, ← hn, ← hverdict] at hverdict'
  obtain ⟨hstate, hfailure⟩ := Prod.mk.inj hverdict'
  exact ⟨hstate, hfailure, hn.symm⟩

end Within

end Sweep

end P2PCrawler
