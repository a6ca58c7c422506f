import P2PCrawler.Protocol
import Mathlib.Data.List.Induction
import P2PCrawler.Lib.Tally

/-!
# The node store (`store.rs`)

A map from address keys to entries, the counter of outstanding work, and the address budget.
Every operation below runs under one shard lock or on one atomic, so it is one atomic step.

* `NodeStore.withEntry` — mutate one entry.
* `NodeStore.observeSeed`, `NodeStore.frontierUpsert` — the two operations that insert; they are
  described once and for all by `observeSeed_cases` and `frontierUpsert_cases`.
* `NodeStore.incrOutstanding`, `NodeStore.decrOutstanding` — the counter.  It is an integer, so
  that an underflow would show as a negative value.
-/

set_option autoImplicit false

namespace P2PCrawler

/-- Key identifying a distinct address. -/
structure AddrKey where
  host : String
  port : UInt16
  deriving DecidableEq, Repr

def AddrKey.render (k : AddrKey) : String := renderAddr k.host k.port

/-- Node lifecycle state. -/
inductive NodeState where
  | queued
  | processing
  | reachable
  | handshakeFailed
  | unreachable
  | staleDiscarded
  | budgetDiscarded
  deriving DecidableEq, Repr

/-- `Queued | Processing`. -/
def NodeState.active : NodeState → Bool
  | .queued | .processing => true
  | _ => false

/-- Why a node ended up in a failure state. -/
inductive FailKind where
  | connectRefused
  | connectTimeout
  | connectUnreachable
  | connectReset
  | proxyError
  | samError
  | connectOther
  | versionSendFailed
  | negotiationSendFailed
  | verackSendFailed
  | peerVerackTimeout
  | handshakeTimeout
  | connectionClosed
  | malformedVersion
  | protocolDesync
  | handshakeOther
  | workerFailed
  deriving DecidableEq, Repr

/-- The identifier used in the result files. -/
def FailKind.asStr : FailKind → String
  | .connectRefused => "connect_refused"
  | .connectTimeout => "connect_timeout"
  | .connectUnreachable => "connect_unreachable"
  | .connectReset => "connect_reset"
  | .proxyError => "proxy_error"
  | .samError => "sam_error"
  | .connectOther => "connect_other"
  | .versionSendFailed => "version_send_failed"
  | .negotiationSendFailed => "negotiation_send_failed"
  | .verackSendFailed => "verack_send_failed"
  | .peerVerackTimeout => "peer_verack_timeout"
  | .handshakeTimeout => "handshake_timeout"
  | .connectionClosed => "connection_closed"
  | .malformedVersion => "malformed_version"
  | .protocolDesync => "protocol_desync"
  | .handshakeOther => "handshake_other"
  | .workerFailed => "worker_failed"

/-- Peer metadata retained from a successful handshake. -/
structure HandshakeData where
  version : Int
  services : Nat
  userAgent : String
  latestBlock : Int
  relay : Bool
  versionReplyTimestampRemote : Int
  handshakeTimestamp : Int
  handshakeDurationMs : Nat
  requestedEndpoint : String
  transportDestination : String
  socketLocal : String
  socketPeer : String
  versionAddrRecv : String
  versionAddrRecvServices : Nat
  versionAddrFrom : Option String
  versionAddrFromServices : Option Nat
  versionNonce : Option Nat
  deriving DecidableEq, Repr

def HandshakeData.fromVersion (v : VersionData) (handshakeTimestamp : Int) (durationMs : Nat)
    (requestedEndpoint transportDestination socketLocal socketPeer : String) : HandshakeData where
  version := v.version
  services := v.services
  userAgent := v.userAgent
  latestBlock := v.latestBlock
  relay := v.relay
  versionReplyTimestampRemote := v.timestamp
  handshakeTimestamp := handshakeTimestamp
  handshakeDurationMs := durationMs
  requestedEndpoint := requestedEndpoint
  transportDestination := transportDestination
  socketLocal := socketLocal
  socketPeer := socketPeer
  versionAddrRecv := renderAddr v.addrRecv.host v.addrRecv.port
  versionAddrRecvServices := v.addrRecv.services
  versionAddrFrom := v.addrFrom.map fun a => renderAddr a.host a.port
  versionAddrFromServices := v.addrFrom.map fun a => a.services
  versionNonce := v.nonce

inductive CollectionOutcome where
  | notRequested
  | completeQuiet
  | noResponseTimeout
  | partialHardTimeout
  | hardTimeout
  | sendFailed
  | malformedResponse
  | partialMalformedResponse
  | remoteDisconnect
  | partialRemoteDisconnect
  | incompleteEnvelopeTimeout
  | partialIncompleteEnvelopeTimeout
  | logFailed
  deriving DecidableEq, Repr

def CollectionOutcome.asStr : CollectionOutcome → String
  | .notRequested => "not_requested"
  | .completeQuiet => "complete_quiet"
  | .noResponseTimeout => "no_response_timeout"
  | .partialHardTimeout => "partial_hard_timeout"
  | .hardTimeout => "hard_timeout"
  | .sendFailed => "send_failed"
  | .malformedResponse => "malformed_response"
  | .partialMalformedResponse => "partial_malformed_response"
  | .remoteDisconnect => "remote_disconnect"
  | .partialRemoteDisconnect => "partial_remote_disconnect"
  | .incompleteEnvelopeTimeout => "incomplete_envelope_timeout"
  | .partialIncompleteEnvelopeTimeout => "partial_incomplete_envelope_timeout"
  | .logFailed => "log_failed"

/-- The values `AttemptData.outcome` is given. -/
inductive AttemptOutcome where
  | started
  | connectFailed
  | connected
  | versionSent
  | handshakeComplete
  | handshakeTimeout
  | handshakeFailed
  deriving DecidableEq, Repr

def AttemptOutcome.asStr : AttemptOutcome → String
  | .started => "started"
  | .connectFailed => "connect_failed"
  | .connected => "connected"
  | .versionSent => "version_sent"
  | .handshakeComplete => "handshake_complete"
  | .handshakeTimeout => "handshake_timeout"
  | .handshakeFailed => "handshake_failed"

structure AttemptData where
  attempt : Nat
  connectDurationMs : Option Nat
  versionSendTimestamp : Option Int
  outcome : AttemptOutcome
  failure : Option FailKind
  deriving DecidableEq, Repr

/-- Per-node timing, counters and advertised-address breakdown. -/
structure NodeStats where
  timeConnectMs : Option Nat := none
  handshakeAttempts : Nat := 0
  firstVersionSendTs : Option Int := none
  advertisedTotal : Nat := 0
  advertisedIpv4 : Nat := 0
  advertisedIpv6 : Nat := 0
  advertisedOnionV2 : Nat := 0
  advertisedOnionV3 : Nat := 0
  advertisedI2p : Nat := 0
  advertisedCjdns : Nat := 0
  advertisedUnknown : Nat := 0
  collectionOutcome : CollectionOutcome := .notRequested
  validAddrMessages : Nat := 0
  malformedAddrMessages : Nat := 0
  deriving DecidableEq, Repr

/-- The counter of one network type. -/
def NodeStats.advertisedOf (s : NodeStats) : NetworkType → Nat
  | .ipv4 => s.advertisedIpv4
  | .ipv6 => s.advertisedIpv6
  | .onionV2 => s.advertisedOnionV2
  | .onionV3 => s.advertisedOnionV3
  | .i2p => s.advertisedI2p
  | .cjdns => s.advertisedCjdns
  | .unknown => s.advertisedUnknown

def NodeStats.recordAdvertised (s : NodeStats) (net : NetworkType) : NodeStats :=
  let s := { s with advertisedTotal := s.advertisedTotal + 1 }
  match net with
  | .ipv4 => { s with advertisedIpv4 := s.advertisedIpv4 + 1 }
  | .ipv6 => { s with advertisedIpv6 := s.advertisedIpv6 + 1 }
  | .onionV2 => { s with advertisedOnionV2 := s.advertisedOnionV2 + 1 }
  | .onionV3 => { s with advertisedOnionV3 := s.advertisedOnionV3 + 1 }
  | .i2p => { s with advertisedI2p := s.advertisedI2p + 1 }
  | .cjdns => { s with advertisedCjdns := s.advertisedCjdns + 1 }
  | .unknown => { s with advertisedUnknown := s.advertisedUnknown + 1 }

/-- A stored node entry. -/
structure NodeEntry where
  network : NetworkType
  freshestTs : Int
  state : NodeState
  handshake : Option HandshakeData := none
  stats : NodeStats := {}
  failure : Option FailKind := none
  attempts : List AttemptData := []
  deriving DecidableEq, Repr

def NodeEntry.new (network : NetworkType) (freshestTs : Int) (state : NodeState) : NodeEntry :=
  { network, freshestTs, state }

/-- The central node store. -/
structure NodeStore where
  map : AList fun _ : AddrKey => NodeEntry
  outstanding : Int
  entries : Nat
  maxEntries : Nat
  budgetRejected : Nat

namespace NodeStore

def withLimit (maxEntries : Nat) : NodeStore := ⟨∅, 0, 0, maxEntries, 0⟩

def len (s : NodeStore) : Nat := s.entries

/-- The entry of a key. -/
def entry (s : NodeStore) (k : AddrKey) : Option NodeEntry := s.map.lookup k

/-- The state of a key's entry. -/
def stateOf (s : NodeStore) (k : AddrKey) : Option NodeState := (s.entry k).map (·.state)

def networkOf (s : NodeStore) (k : AddrKey) : Option NetworkType := (s.entry k).map (·.network)

def incrOutstanding (s : NodeStore) : NodeStore := { s with outstanding := s.outstanding + 1 }

/-- `fetch_sub`; the prior value is `s.outstanding`. -/
def decrOutstanding (s : NodeStore) : NodeStore := { s with outstanding := s.outstanding - 1 }

/-- Mutate an entry under its shard lock; nothing happens where there is none. -/
def withEntry (s : NodeStore) (k : AddrKey) (f : NodeEntry → NodeEntry) : NodeStore :=
  match s.entry k with
  | none => s
  | some e => { s with map := s.map.insert k (f e) }

def snapshot (s : NodeStore) : List (AddrKey × NodeEntry) := s.map.entries.map fun e => (e.1, e.2)

/-- Number of entries in state `Queued` or `Processing`. -/
def activeCount (s : NodeStore) : Nat := s.map.tally fun e => e.2.state.active

/-- `reserve_entry`: `none` where the budget is exhausted. -/
def reserveEntry (s : NodeStore) : Option NodeStore :=
  if s.entries < s.maxEntries then some { s with entries := s.entries + 1 } else none

def rejectEntry (s : NodeStore) : NodeStore := { s with budgetRejected := s.budgetRejected + 1 }

def insertEntry (s : NodeStore) (k : AddrKey) (e : NodeEntry) : NodeStore :=
  { s with map := s.map.insert k e }

/-- Seed observation: whether a new entry was created that should be enqueued. -/
def observeSeed (H : Digests) (s : NodeStore) (k : AddrKey) (now : Int) : NodeStore × Bool :=
  let network := classify H k.host
  match s.entry k with
  | some _ => (s.withEntry k fun e => { e with freshestTs := max e.freshestTs now }, false)
  | none =>
    match s.reserveEntry with
    | none => (s.rejectEntry, false)
    | some s => (s.insertEntry k (.new network now .queued), true)

end NodeStore

/-- The decision of a frontier upsert. -/
inductive FrontierOutcome where
  | enqueue
  | known
  | staleNew
  | stillStale
  | budgetRejected
  deriving DecidableEq, Repr

/-- The freshness test: an address last seen at `ts` is older than the threshold. -/
def stale (freshnessThreshold now ts : Int) : Bool :=
  decide (0 < freshnessThreshold) && decide (ts < now - freshnessThreshold)

namespace NodeStore

def frontierUpsert (s : NodeStore) (k : AddrKey) (observedTs : Int) (network : NetworkType)
    (freshnessThreshold now : Int) : NodeStore × FrontierOutcome :=
  match s.entry k with
  | some e =>
    let s := s.withEntry k fun e => { e with freshestTs := max e.freshestTs observedTs }
    if e.state ≠ .staleDiscarded then (s, .known)
    else if stale freshnessThreshold now (max e.freshestTs observedTs) then (s, .stillStale)
    else (s.withEntry k fun e => { e with state := .queued }, .enqueue)
  | none =>
    match s.reserveEntry with
    | none => (s.rejectEntry, .budgetRejected)
    | some s =>
      if stale freshnessThreshold now observedTs then
        (s.insertEntry k (.new network observedTs .staleDiscarded), .staleNew)
      else (s.insertEntry k (.new network observedTs .queued), .enqueue)

/-! ## Reading the store after an operation -/

section Lemmas
variable (s : NodeStore) (k : AddrKey) (f : NodeEntry → NodeEntry)

@[simp] theorem withEntry_outstanding : (s.withEntry k f).outstanding = s.outstanding := by
  unfold withEntry; split <;> rfl

@[simp] theorem withEntry_entries : (s.withEntry k f).entries = s.entries := by
  unfold withEntry; split <;> rfl

@[simp] theorem withEntry_maxEntries : (s.withEntry k f).maxEntries = s.maxEntries := by
  unfold withEntry; split <;> rfl

@[simp] theorem withEntry_budgetRejected :
    (s.withEntry k f).budgetRejected = s.budgetRejected := by
  unfold withEntry; split <;> rfl

@[simp] theorem withEntry_size : (s.withEntry k f).map.size = s.map.size := by
  unfold withEntry
  split
  · rfl
  · rename_i e h; exact AList.size_insert_of_lookup _ h

theorem entry_withEntry (k' : AddrKey) :
    (s.withEntry k f).entry k' = if k' = k then (s.entry k).map f else s.entry k' := by
  unfold withEntry
  split
  · rename_i h
    split
    · rename_i hk; rw [hk, h]; rfl
    · rfl
  · rename_i e h
    split
    · rename_i hk; rw [hk, h]; exact AList.lookup_insert _
    · rename_i hk; exact AList.lookup_insert_ne hk

@[simp] theorem entry_withEntry_self : (s.withEntry k f).entry k = (s.entry k).map f := by
  simp [entry_withEntry]

theorem entry_withEntry_ne {k' : AddrKey} (h : k' ≠ k) :
    (s.withEntry k f).entry k' = s.entry k' := by
  simp [entry_withEntry, h]

theorem stateOf_withEntry_ne {k' : AddrKey} (h : k' ≠ k) :
    (s.withEntry k f).stateOf k' = s.stateOf k' := by
  simp [stateOf, entry_withEntry_ne s k f h]

@[simp] theorem incrOutstanding_outstanding :
    s.incrOutstanding.outstanding = s.outstanding + 1 := rfl
@[simp] theorem decrOutstanding_outstanding :
    s.decrOutstanding.outstanding = s.outstanding - 1 := rfl
@[simp] theorem incrOutstanding_map : s.incrOutstanding.map = s.map := rfl
@[simp] theorem decrOutstanding_map : s.decrOutstanding.map = s.map := rfl
@[simp] theorem rejectEntry_map : s.rejectEntry.map = s.map := rfl
@[simp] theorem rejectEntry_outstanding : s.rejectEntry.outstanding = s.outstanding := rfl
@[simp] theorem entry_incrOutstanding : s.incrOutstanding.entry k = s.entry k := rfl
@[simp] theorem entry_decrOutstanding : s.decrOutstanding.entry k = s.entry k := rfl
@[simp] theorem entry_rejectEntry : s.rejectEntry.entry k = s.entry k := rfl

theorem entry_insertEntry (e : NodeEntry) (k' : AddrKey) :
    (s.insertEntry k e).entry k' = if k' = k then some e else s.entry k' := by
  split
  · rename_i hk; subst hk; exact AList.lookup_insert _
  · rename_i hk; exact AList.lookup_insert_ne hk

end Lemmas

/-! ## The snapshot -/

theorem mem_snapshot {s : NodeStore} {k : AddrKey} {e : NodeEntry} :
    (k, e) ∈ s.snapshot ↔ s.entry k = some e := by
  have hlookup : s.entry k = some e ↔ Sigma.mk k e ∈ s.map.entries := AList.mem_lookup_iff
  rw [hlookup]
  refine ⟨fun h => ?_, fun h => List.mem_map.mpr ⟨_, h, rfl⟩⟩
  obtain ⟨⟨k', e'⟩, hmem, heq⟩ := List.mem_map.mp h
  cases heq
  exact hmem

theorem distinct_snapshot (s : NodeStore) : (s.snapshot.map Prod.fst).Nodup := by
  have hkeys : s.snapshot.map Prod.fst = s.map.keys := by
    unfold snapshot AList.keys List.keys
    rw [List.map_map]
    rfl
  rw [hkeys]
  exact AList.keys_nodup _

/-! ## Counting active entries -/

theorem stateOf_eq_some {s : NodeStore} {k : AddrKey} {st : NodeState} (h : s.stateOf k = some st) :
    ∃ e, s.entry k = some e ∧ e.state = st :=
  Option.map_eq_some_iff.mp h

/-- A write that keeps the state keeps every state and the count. -/
theorem stateOf_withEntry_same (s : NodeStore) (k : AddrKey) {f : NodeEntry → NodeEntry}
    (hf : ∀ e, (f e).state = e.state) (k' : AddrKey) :
    (s.withEntry k f).stateOf k' = s.stateOf k' := by
  by_cases h : k' = k
  · subst h
    simp only [stateOf, entry_withEntry_self, Option.map_map]
    congr 1
    exact funext hf
  · exact stateOf_withEntry_ne s k f h

/-- A write that sets the state sets it where there is an entry. -/
theorem stateOf_withEntry_set {s : NodeStore} {k : AddrKey} {f : NodeEntry → NodeEntry}
    {st : NodeState} (hf : ∀ e, (f e).state = st) (h : s.stateOf k ≠ none) :
    (s.withEntry k f).stateOf k = some st := by
  simp only [stateOf, entry_withEntry_self, Option.map_map] at *
  cases he : s.entry k with
  | none => rw [he] at h; exact absurd rfl h
  | some e => simp [hf]

theorem activeCount_withEntry {s : NodeStore} {k : AddrKey} {e : NodeEntry}
    (f : NodeEntry → NodeEntry) (h : s.entry k = some e) :
    (s.withEntry k f).activeCount + (if e.state.active then 1 else 0) =
      s.activeCount + (if (f e).state.active then 1 else 0) := by
  have hw : s.withEntry k f = { s with map := s.map.insert k (f e) } := by
    unfold withEntry; rw [h]
  rw [hw]
  exact AList.tally_insert_of_lookup (fun e => e.2.state.active) (f e) h

theorem activeCount_withEntry_same (s : NodeStore) (k : AddrKey) {f : NodeEntry → NodeEntry}
    (hf : ∀ e, (f e).state = e.state) : (s.withEntry k f).activeCount = s.activeCount := by
  cases h : s.entry k with
  | none => unfold withEntry; rw [h]
  | some e =>
    have := activeCount_withEntry f h
    rw [hf] at this
    omega

@[simp] theorem activeCount_incrOutstanding (s : NodeStore) :
    s.incrOutstanding.activeCount = s.activeCount := rfl
@[simp] theorem activeCount_decrOutstanding (s : NodeStore) :
    s.decrOutstanding.activeCount = s.activeCount := rfl

theorem activeCount_le_size (s : NodeStore) : s.activeCount ≤ s.map.size :=
  AList.tally_le_size _ _

/-- An active entry is counted. -/
theorem activeCount_pos {s : NodeStore} {k : AddrKey} {st : NodeState} (h : s.stateOf k = some st)
    (ha : st.active = true) : 0 < s.activeCount := by
  obtain ⟨e, he, rfl⟩ := stateOf_eq_some h
  exact AList.tally_pos he ha

/-- Where no entry is counted, none is active. -/
theorem not_active_of_activeCount_eq_zero {s : NodeStore} (h : s.activeCount = 0) {k : AddrKey}
    {st : NodeState} (hk : s.stateOf k = some st) : st.active = false := by
  by_contra ha
  have := activeCount_pos hk (by simpa using ha)
  omega

/-- Where an entry is counted, some key is active. -/
theorem exists_active_of_activeCount_pos {s : NodeStore} (h : 0 < s.activeCount) :
    ∃ k st, s.stateOf k = some st ∧ st.active = true := by
  obtain ⟨k, e, he, hp⟩ := AList.exists_of_tally_pos h
  exact ⟨k, e.state, by simp [stateOf, entry, he], hp⟩

/-! ## What the two inserting operations can do -/

/-- Raise the freshest timestamp. -/
def refresh (ts : Int) (e : NodeEntry) : NodeEntry := { e with freshestTs := max e.freshestTs ts }

/-- Raise the freshest timestamp and queue. -/
def revive (ts : Int) (e : NodeEntry) : NodeEntry :=
  { e with freshestTs := max e.freshestTs ts, state := .queued }

/-- The five things a frontier upsert can do. -/
inductive Upsert (s : NodeStore) (k : AddrKey) (ts : Int) (net : NetworkType) (thr now : Int) :
    NodeStore → FrontierOutcome → Prop where
  /-- the entry exists and is not queued by this observation -/
  | refreshed {e : NodeEntry} {out : FrontierOutcome} (he : s.entry k = some e)
      (hout : out ≠ .enqueue) (hrej : out ≠ .budgetRejected)
      (hstate : e.state = .staleDiscarded → stale thr now (max e.freshestTs ts) = true) :
      Upsert s k ts net thr now (s.withEntry k (refresh ts)) out
  /-- a stale entry is queued -/
  | revived {e : NodeEntry} (he : s.entry k = some e) (hst : e.state = .staleDiscarded)
      (hfresh : stale thr now (max e.freshestTs ts) = false) :
      Upsert s k ts net thr now (s.withEntry k (revive ts)) .enqueue
  | rejected (he : s.entry k = none) (hfull : s.maxEntries ≤ s.entries) :
      Upsert s k ts net thr now s.rejectEntry .budgetRejected
  | parked (he : s.entry k = none) (hroom : s.entries < s.maxEntries)
      (hstale : stale thr now ts = true) :
      Upsert s k ts net thr now
        ({ s with entries := s.entries + 1 }.insertEntry k (.new net ts .staleDiscarded)) .staleNew
  | discovered (he : s.entry k = none) (hroom : s.entries < s.maxEntries)
      (hfresh : stale thr now ts = false) :
      Upsert s k ts net thr now
        ({ s with entries := s.entries + 1 }.insertEntry k (.new net ts .queued)) .enqueue

theorem withEntry_withEntry (s : NodeStore) (k : AddrKey) (f g : NodeEntry → NodeEntry) :
    (s.withEntry k f).withEntry k g = s.withEntry k (g ∘ f) := by
  cases h : s.entry k with
  | none => simp [withEntry, h]
  | some e =>
    have hf : (s.withEntry k f).entry k = some (f e) := by simp [h]
    unfold withEntry at hf ⊢
    rw [h] at hf ⊢
    simp only at hf ⊢
    rw [hf]
    simp only [AList.insert_insert, Function.comp]

theorem frontierUpsert_cases (s : NodeStore) (k : AddrKey) (ts : Int) (net : NetworkType)
    (thr now : Int) :
    Upsert s k ts net thr now (s.frontierUpsert k ts net thr now).1
      (s.frontierUpsert k ts net thr now).2 := by
  unfold frontierUpsert
  cases he : s.entry k with
  | some e =>
    simp only
    by_cases hst : e.state = .staleDiscarded
    · rw [if_neg (by simpa using hst)]
      split
      · rename_i h; exact .refreshed he (by simp) (by simp) fun _ => h
      · rename_i h
        rw [withEntry_withEntry]
        exact .revived he hst (by simpa using h)
    · rw [if_pos hst]; exact .refreshed he (by simp) (by simp) fun h => absurd h hst
  | none =>
    simp only [reserveEntry]
    by_cases hroom : s.entries < s.maxEntries
    · simp only [if_pos hroom]
      split
      · rename_i h; exact .parked he hroom h
      · rename_i h; exact .discovered he hroom (by simpa using h)
    · simp only [if_neg hroom]; exact .rejected he (by omega)

/-- The three things a seed observation can do. -/
inductive SeedStep (H : Digests) (s : NodeStore) (k : AddrKey) (now : Int) :
    NodeStore → Bool → Prop where
  | refreshed {e : NodeEntry} (he : s.entry k = some e) :
      SeedStep H s k now (s.withEntry k (refresh now)) false
  | rejected (he : s.entry k = none) (hfull : s.maxEntries ≤ s.entries) :
      SeedStep H s k now s.rejectEntry false
  | discovered (he : s.entry k = none) (hroom : s.entries < s.maxEntries) :
      SeedStep H s k now
        ({ s with entries := s.entries + 1 }.insertEntry k
          (.new (classify H k.host) now .queued)) true

theorem observeSeed_cases (H : Digests) (s : NodeStore) (k : AddrKey) (now : Int) :
    SeedStep H s k now (s.observeSeed H k now).1 (s.observeSeed H k now).2 := by
  unfold observeSeed
  cases he : s.entry k with
  | some e => exact .refreshed he
  | none =>
    simp only [reserveEntry]
    by_cases hroom : s.entries < s.maxEntries
    · simp only [if_pos hroom]; exact .discovered he hroom
    · simp only [if_neg hroom]; exact .rejected he (by omega)

/-! ## Insertion and counts -/

section Insert
variable {s : NodeStore} {k : AddrKey} {e : NodeEntry}

theorem activeCount_insertEntry (h : s.entry k = none) :
    (s.insertEntry k e).activeCount = s.activeCount + (if e.state.active then 1 else 0) := by
  unfold insertEntry activeCount
  exact AList.tally_insert_of_absent (fun e : (_ : AddrKey) × NodeEntry => e.2.state.active) e h

theorem stateOf_insertEntry (s : NodeStore) (k : AddrKey) (e : NodeEntry) (k' : AddrKey) :
    (s.insertEntry k e).stateOf k' = if k' = k then some e.state else s.stateOf k' := by
  simp only [stateOf, entry_insertEntry]
  split <;> rfl

end Insert

end NodeStore

/-! ## Counts by network -/

/-- Per-network-type count breakdown. -/
structure NetworkBreakdown where
  total : Nat := 0
  unknown : Nat := 0
  ipv4 : Nat := 0
  ipv6 : Nat := 0
  onionV2 : Nat := 0
  onionV3 : Nat := 0
  i2p : Nat := 0
  cjdns : Nat := 0
  deriving DecidableEq, Repr

namespace NetworkBreakdown

/-- The count of one network type. -/
def of (b : NetworkBreakdown) : NetworkType → Nat
  | .ipv4 => b.ipv4
  | .ipv6 => b.ipv6
  | .onionV2 => b.onionV2
  | .onionV3 => b.onionV3
  | .i2p => b.i2p
  | .cjdns => b.cjdns
  | .unknown => b.unknown

def add (b : NetworkBreakdown) (net : NetworkType) : NetworkBreakdown :=
  let b := { b with total := b.total + 1 }
  match net with
  | .ipv4 => { b with ipv4 := b.ipv4 + 1 }
  | .ipv6 => { b with ipv6 := b.ipv6 + 1 }
  | .onionV2 => { b with onionV2 := b.onionV2 + 1 }
  | .onionV3 => { b with onionV3 := b.onionV3 + 1 }
  | .i2p => { b with i2p := b.i2p + 1 }
  | .cjdns => { b with cjdns := b.cjdns + 1 }
  | .unknown => { b with unknown := b.unknown + 1 }

/-- The sum of the seven counts. -/
def sum (b : NetworkBreakdown) : Nat :=
  b.unknown + b.ipv4 + b.ipv6 + b.onionV2 + b.onionV3 + b.i2p + b.cjdns

theorem total_add (b : NetworkBreakdown) (net : NetworkType) :
    (b.add net).total = b.total + 1 := by
  cases net <;> rfl

theorem of_add (b : NetworkBreakdown) (net net' : NetworkType) :
    (b.add net).of net' = b.of net' + if net = net' then 1 else 0 := by
  cases net <;> cases net' <;> rfl

theorem sum_add (b : NetworkBreakdown) (net : NetworkType) : (b.add net).sum = b.sum + 1 := by
  cases net <;> simp only [add, sum] <;> omega

/-- The breakdown of a list of networks. -/
def ofList (nets : List NetworkType) : NetworkBreakdown := nets.foldl add {}

theorem ofList_concat (nets : List NetworkType) (net : NetworkType) :
    ofList (nets ++ [net]) = (ofList nets).add net := by
  unfold ofList
  rw [List.foldl_append]
  rfl

theorem total_ofList (nets : List NetworkType) : (ofList nets).total = nets.length := by
  induction nets using List.reverseRecOn with
  | nil => rfl
  | append_singleton nets net ih => rw [ofList_concat, total_add, ih, List.length_append]; rfl

theorem of_ofList (nets : List NetworkType) (net : NetworkType) :
    (ofList nets).of net = nets.count net := by
  induction nets using List.reverseRecOn with
  | nil => cases net <;> rfl
  | append_singleton nets net' ih =>
    rw [ofList_concat, of_add, ih, List.count_append, List.count_singleton]
    simp only [beq_iff_eq]

/-- Every node is counted under exactly one network. -/
theorem sum_ofList (nets : List NetworkType) : (ofList nets).sum = (ofList nets).total := by
  induction nets using List.reverseRecOn with
  | nil => rfl
  | append_singleton nets net ih => rw [ofList_concat, sum_add, total_add, ih]

end NetworkBreakdown

end P2PCrawler
