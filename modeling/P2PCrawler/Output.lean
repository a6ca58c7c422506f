import P2PCrawler.Store
import P2PCrawler.Settings
import P2PCrawler.HostText
import P2PCrawler.Lib.Histogram
import Mathlib.Data.List.Nodup
import Mathlib.Data.List.Sort
import Mathlib.Data.String.Basic

/-!
# Result files (`output.rs`)

What a generation of result files holds: three tables, one for each terminal state of a node, the
statistics, and the manifest.  Each is computed by its own pass over the snapshot.

* `writeReachable`, `writeHandshakeFailed`, `writeUnreachable` — filter, sort, one row each.
* `writeStatsJson` — one fold over the snapshot; `tallies_eq` splits it into a pass per field.
* `result_files_agree` — the passes are in step.
-/

set_option autoImplicit false

namespace P2PCrawler

/-! ## Tables -/

/-- A CSV file: the names of the columns, and the rows. -/
structure Table where
  header : List String
  rows : List (List String)
  deriving DecidableEq, Repr

/-- The field of a row under a column name. -/
def field (header : List String) (name : String) (row : List String) : String :=
  row.getD (header.idxOf name) ""

def Table.column (t : Table) (name : String) : List String := t.rows.map (field t.header name)

/-- `Option::unwrap_or_default` of an optional number. -/
def optional {α : Type} [ToString α] (x : Option α) : String := (x.map toString).getD ""

/-- `sort_by_key`: stable, in ascending order. -/
def sortByKey (key : NodeEntry → Int) (rows : List (AddrKey × NodeEntry)) :
    List (AddrKey × NodeEntry) :=
  rows.insertionSort fun a b => key a.2 ≤ key b.2

/-- The list of one attempt's fields, as JSON. -/
def AttemptData.json (a : AttemptData) : String :=
  let orNull (x : Option String) : String := x.getD "null"
  let quoted (x : String) : String := "\"" ++ x ++ "\""
  "\x7b\"attempt\":" ++ toString a.attempt ++
    ",\"connect_duration_ms\":" ++ orNull (a.connectDurationMs.map toString) ++
    ",\"version_send_timestamp\":" ++ orNull (a.versionSendTimestamp.map toString) ++
    ",\"outcome\":" ++ quoted a.outcome.asStr ++
    ",\"failure\":" ++ orNull (a.failure.map fun f => quoted f.asStr) ++ "\x7d"

def attemptHistoryJson (e : NodeEntry) : String :=
  "[" ++ ",".intercalate (e.attempts.map AttemptData.json) ++ "]"

/-- The file of the entries in one state: `none` where a row cannot be written. -/
def writeCsv (state : NodeState) (sortKey : NodeEntry → Int) (header : List String)
    (row : AddrKey × NodeEntry → Option (List String)) (snapshot : List (AddrKey × NodeEntry)) :
    Option Table := do
  let rows := sortByKey sortKey (snapshot.filter fun p => p.2.state = state)
  return ⟨header, ← rows.mapM row⟩

/-! ### The three files -/

def reachableKey (e : NodeEntry) : Int := (e.handshake.map (·.handshakeTimestamp)).getD 0

def reachableHeader : List String :=
  ["host", "port", "network", "handshake_timestamp", "time_connect", "handshake_attempts",
    "handshake_duration", "version", "services", "user_agent", "latest_block", "relay",
    "version_reply_timestamp_remote", "advertised_addrs_total", "advertised_addrs_ipv4",
    "advertised_addrs_ipv6", "advertised_addrs_onion_v2", "advertised_addrs_onion_v3",
    "advertised_addrs_i2p", "advertised_addrs_cjdns", "freshest_timestamp", "collection_outcome",
    "valid_addr_messages", "malformed_addr_messages", "requested_endpoint",
    "transport_destination", "socket_local", "socket_peer", "version_addr_recv",
    "version_addr_recv_services", "version_addr_from", "version_addr_from_services",
    "version_nonce", "attempt_history_json"]

/-- `expect("reachable has handshake")` fails where there is none. -/
def reachableRow (p : AddrKey × NodeEntry) : Option (List String) :=
  let (key, e) := p
  let s := e.stats
  e.handshake.map fun h =>
    [key.host, toString key.port, e.network.asStr, toString h.handshakeTimestamp,
      optional s.timeConnectMs, toString s.handshakeAttempts, toString h.handshakeDurationMs,
      toString h.version, toString h.services, h.userAgent, toString h.latestBlock,
      toString h.relay, toString h.versionReplyTimestampRemote, toString s.advertisedTotal,
      toString s.advertisedIpv4, toString s.advertisedIpv6, toString s.advertisedOnionV2,
      toString s.advertisedOnionV3, toString s.advertisedI2p, toString s.advertisedCjdns,
      toString e.freshestTs, s.collectionOutcome.asStr, toString s.validAddrMessages,
      toString s.malformedAddrMessages, h.requestedEndpoint, h.transportDestination,
      h.socketLocal, h.socketPeer, h.versionAddrRecv, toString h.versionAddrRecvServices,
      h.versionAddrFrom.getD "", optional h.versionAddrFromServices, optional h.versionNonce,
      attemptHistoryJson e]

def writeReachable (snapshot : List (AddrKey × NodeEntry)) : Option Table :=
  writeCsv .reachable reachableKey reachableHeader reachableRow snapshot

/-- `failure.map(|f| f.as_str()).unwrap_or("")`. -/
def failureReason (e : NodeEntry) : String := (e.failure.map FailKind.asStr).getD ""

def handshakeFailedKey (e : NodeEntry) : Int := e.stats.firstVersionSendTs.getD 0

def handshakeFailedHeader : List String :=
  ["host", "port", "network", "failure_reason", "handshake_timestamp", "time_connect",
    "handshake_attempts", "freshest_timestamp", "attempt_history_json"]

def handshakeFailedRow (p : AddrKey × NodeEntry) : Option (List String) :=
  let (key, e) := p
  let s := e.stats
  some [key.host, toString key.port, e.network.asStr, failureReason e,
    optional s.firstVersionSendTs, optional s.timeConnectMs, toString s.handshakeAttempts,
    toString e.freshestTs, attemptHistoryJson e]

def writeHandshakeFailed (snapshot : List (AddrKey × NodeEntry)) : Option Table :=
  writeCsv .handshakeFailed handshakeFailedKey handshakeFailedHeader handshakeFailedRow snapshot

def unreachableKey (e : NodeEntry) : Int := e.freshestTs

def unreachableHeader : List String :=
  ["host", "port", "network", "failure_reason", "handshake_attempts", "freshest_timestamp",
    "attempt_history_json"]

def unreachableRow (p : AddrKey × NodeEntry) : Option (List String) :=
  let (key, e) := p
  some [key.host, toString key.port, e.network.asStr, failureReason e,
    toString e.stats.handshakeAttempts, toString e.freshestTs, attemptHistoryJson e]

def writeUnreachable (snapshot : List (AddrKey × NodeEntry)) : Option Table :=
  writeCsv .unreachable unreachableKey unreachableHeader unreachableRow snapshot

/-! ## Statistics -/

/-- Per-seed resolution result. -/
structure SeedResult where
  seed : String
  addrs : List (AddrKey × NetworkType)

structure SnapshotMeta where
  runtimeSeconds : Int
  numProcessed : Nat
  durableAddrEventId : Option Nat
  consistent : Bool
  runComplete : Bool

/-- The accumulators of the fold over the snapshot. -/
structure Tallies where
  reachable : NetworkBreakdown := {}
  handshakeFailed : NetworkBreakdown := {}
  unreachable : NetworkBreakdown := {}
  listReachable : List String := []
  listHandshakeFailed : List String := []
  listUnreachable : List String := []
  handshakeFailedReasons : Histogram String := .empty
  unreachableReasons : Histogram String := .empty

/-- `failure.map(|f| f.as_str()).unwrap_or("unknown")`. -/
def bucket (e : NodeEntry) : String := (e.failure.map FailKind.asStr).getD "unknown"

def Tallies.add (s : Tallies) (p : AddrKey × NodeEntry) : Tallies :=
  let (key, e) := p
  match e.state with
  | .reachable =>
    { s with reachable := s.reachable.add e.network
             listReachable := s.listReachable ++ [key.render] }
  | .handshakeFailed =>
    { s with handshakeFailed := s.handshakeFailed.add e.network
             listHandshakeFailed := s.listHandshakeFailed ++ [key.render]
             handshakeFailedReasons := s.handshakeFailedReasons.add (bucket e) }
  | .unreachable =>
    { s with unreachable := s.unreachable.add e.network
             listUnreachable := s.listUnreachable ++ [key.render]
             unreachableReasons := s.unreachableReasons.add (bucket e) }
  | _ => s

/-- `Map::insert`: a present key keeps its place. -/
def mapInsert {β : Type} (k : String) (v : β) : List (String × β) → List (String × β)
  | [] => [(k, v)]
  | (k', v') :: rest => if k' = k then (k, v) :: rest else (k', v') :: mapInsert k v rest

/-- The top-level object of the statistics file, in the order of its keys. -/
structure CrawlerStats where
  crawlerSettings : Settings
  timeStarted : String
  runtimeSeconds : Int
  numProcessedNodes : Nat
  numReachable : NetworkBreakdown
  numHandshakeFailed : NetworkBreakdown
  numUnreachable : NetworkBreakdown
  handshakeFailedReasons : Histogram String
  unreachableReasons : Histogram String
  numAdvertised : Nat
  numBudgetRejectedObservations : Nat
  snapshotConsistency : String
  runComplete : Bool
  getaddrSampleSemantics : String
  numNodesFromSeed : List (String × NetworkBreakdown)
  listReachable : List String
  listHandshakeFailed : List String
  listUnreachable : List String
  listNodesFromSeed : List (String × List String)

def consistency (consistent : Bool) : String :=
  if consistent then "final_consistent" else "checkpoint_fuzzy"

def writeStatsJson (snapshot : List (AddrKey × NodeEntry)) (settings : Settings)
    (timestamp : String) (seeds : List SeedResult) (runtimeSeconds : Int) (numProcessed : Nat)
    (consistent : Bool) (budgetRejected : Nat) (runComplete : Bool) : CrawlerStats :=
  let s := snapshot.foldl Tallies.add {}
  { crawlerSettings := settings
    timeStarted := timestamp
    runtimeSeconds := runtimeSeconds
    numProcessedNodes := numProcessed
    numReachable := s.reachable
    numHandshakeFailed := s.handshakeFailed
    numUnreachable := s.unreachable
    handshakeFailedReasons := s.handshakeFailedReasons
    unreachableReasons := s.unreachableReasons
    numAdvertised := snapshot.length
    numBudgetRejectedObservations := budgetRejected
    snapshotConsistency := consistency consistent
    runComplete := runComplete
    getaddrSampleSemantics := "capped partial sample which may be cached for roughly 21-27 hours; not a complete live addrman view"
    numNodesFromSeed := seeds.foldl
      (fun m sr => mapInsert sr.seed (NetworkBreakdown.ofList (sr.addrs.map (·.2))) m) []
    listReachable := s.listReachable
    listHandshakeFailed := s.listHandshakeFailed
    listUnreachable := s.listUnreachable
    listNodesFromSeed := seeds.foldl
      (fun m sr => mapInsert sr.seed (sr.addrs.map (·.1.render)) m) [] }

/-! ## Manifest -/

structure SnapshotManifest where
  schemaVersion : Nat
  generation : String
  snapshotDirectory : String
  snapshotConsistency : String
  runComplete : Bool
  durableAddrEventId : Option Nat
  numSnapshotEntries : Nat
  filesSha256 : List (String × String)
  addressSampleSemantics : String
  deriving DecidableEq, Repr

/-- The manifest of a generation, given the hashes of its files. -/
def manifestOf (generation : String) (snapshot : List (AddrKey × NodeEntry))
    (info : SnapshotMeta) (hashes : List (String × String)) : SnapshotManifest where
  schemaVersion := 1
  generation := generation
  snapshotDirectory := "snapshots/" ++ generation
  snapshotConsistency := consistency info.consistent
  runComplete := info.runComplete
  durableAddrEventId := info.durableAddrEventId
  numSnapshotEntries := snapshot.length
  filesSha256 := hashes
  addressSampleSemantics := "A getaddr response is a capped, partial, potentially 21-27-hour cached sample; it is not a complete live addrman view."

/-- The files of a generation. -/
structure ResultFiles where
  reachable : Table
  handshakeFailed : Table
  unreachable : Table
  stats : CrawlerStats

/-- The four files that `write_snapshot` writes, in its order. -/
def resultFiles (snapshot : List (AddrKey × NodeEntry)) (budgetRejected : Nat)
    (settings : Settings) (timestamp : String) (seeds : List SeedResult) (info : SnapshotMeta) :
    Option ResultFiles := do
  let reachable ← writeReachable snapshot
  let handshakeFailed ← writeHandshakeFailed snapshot
  let unreachable ← writeUnreachable snapshot
  return { reachable, handshakeFailed, unreachable
           stats := writeStatsJson snapshot settings timestamp seeds info.runtimeSeconds
             info.numProcessed info.consistent budgetRejected info.runComplete }

/-! ## What the passes compute -/

/-- The entries in one state, in the order of the snapshot. -/
def inState (state : NodeState) (snapshot : List (AddrKey × NodeEntry)) :
    List (AddrKey × NodeEntry) :=
  snapshot.filter fun p => p.2.state = state

/-- The fold over the snapshot is one pass for each accumulator. -/
theorem tallies_eq (snapshot : List (AddrKey × NodeEntry)) :
    snapshot.foldl Tallies.add {} =
      { reachable := .ofList ((inState .reachable snapshot).map (·.2.network))
        handshakeFailed := .ofList ((inState .handshakeFailed snapshot).map (·.2.network))
        unreachable := .ofList ((inState .unreachable snapshot).map (·.2.network))
        listReachable := (inState .reachable snapshot).map (·.1.render)
        listHandshakeFailed := (inState .handshakeFailed snapshot).map (·.1.render)
        listUnreachable := (inState .unreachable snapshot).map (·.1.render)
        handshakeFailedReasons :=
          .ofList ((inState .handshakeFailed snapshot).map (bucket ·.2))
        unreachableReasons := .ofList ((inState .unreachable snapshot).map (bucket ·.2)) } := by
  induction snapshot using List.reverseRecOn with
  | nil => rfl
  | append_singleton snapshot p ih =>
    obtain ⟨key, e⟩ := p
    rw [List.foldl_append, List.foldl_cons, List.foldl_nil, ih]
    -- The state of the last entry decides which accumulators move.
    cases hst : e.state <;>
      simp [Tallies.add, inState, hst, NetworkBreakdown.ofList_concat,
        Histogram.ofList_concat]

/-- The seven states partition the snapshot. -/
theorem inState_partition (snapshot : List (AddrKey × NodeEntry)) :
    (inState .reachable snapshot).length + (inState .handshakeFailed snapshot).length +
        (inState .unreachable snapshot).length +
      ((inState .queued snapshot).length + (inState .processing snapshot).length +
        (inState .staleDiscarded snapshot).length + (inState .budgetDiscarded snapshot).length) =
      snapshot.length := by
  induction snapshot with
  | nil => rfl
  | cons p snapshot ih =>
    cases hst : p.2.state <;> simp [inState, hst] at ih ⊢ <;> omega

theorem sortByKey_perm (key : NodeEntry → Int) (rows : List (AddrKey × NodeEntry)) :
    (sortByKey key rows).Perm rows :=
  List.perm_insertionSort _ _

theorem sortByKey_sorted (key : NodeEntry → Int) (rows : List (AddrKey × NodeEntry)) :
    (sortByKey key rows).Pairwise fun p q => key p.2 ≤ key q.2 := by
  have : Std.Total fun p q : AddrKey × NodeEntry => key p.2 ≤ key q.2 :=
    ⟨fun p q => le_total (key p.2) (key q.2)⟩
  have : IsTrans (AddrKey × NodeEntry) fun p q => key p.2 ≤ key q.2 :=
    ⟨fun _ _ _ h h' => le_trans h h'⟩
  exact List.pairwise_insertionSort _ rows

theorem mapM_eq_some_iff {α β : Type} {f : α → Option β} {l : List α} {l' : List β} :
    l.mapM f = some l' ↔ l.map f = l'.map some := by
  induction l generalizing l' with
  | nil => cases l' <;> simp
  | cons a l ih =>
    cases ha : f a with
    | none => cases l' <;> simp [ha]
    | some b =>
      simp only [List.mapM_cons, ha, Option.bind_eq_bind, Option.bind_some,
        Option.bind_eq_some_iff, Option.pure_def, Option.some.injEq, List.map_cons]
      constructor
      · rintro ⟨bs, hbs, rfl⟩
        rw [ih.mp hbs]
        rfl
      · intro h
        cases l' with
        | nil => cases h
        | cons b' bs =>
          obtain ⟨hb, hbs⟩ := List.cons.inj h
          exact ⟨bs, ih.mpr hbs, by rw [Option.some.inj hb]⟩

/-- What a file holds: the rows of the entries in its state, sorted. -/
theorem writeCsv_rows {state : NodeState} {sortKey : NodeEntry → Int} {header : List String}
    {row : AddrKey × NodeEntry → Option (List String)} {snapshot : List (AddrKey × NodeEntry)}
    {t : Table} (h : writeCsv state sortKey header row snapshot = some t) :
    t.header = header ∧
      (sortByKey sortKey (inState state snapshot)).map row = t.rows.map some := by
  unfold writeCsv at h
  simp only [Option.bind_eq_bind, Option.bind_eq_some_iff, Option.pure_def,
    Option.some.injEq] at h
  obtain ⟨rows, hrows, rfl⟩ := h
  exact ⟨rfl, mapM_eq_some_iff.mp hrows⟩

/-- A file can be written where every row can. -/
theorem writeCsv_isSome {state : NodeState} {sortKey : NodeEntry → Int} {header : List String}
    {row : AddrKey × NodeEntry → Option (List String)} {snapshot : List (AddrKey × NodeEntry)}
    (h : ∀ p ∈ snapshot, p.2.state = state → ∃ r, row p = some r) :
    ∃ t, writeCsv state sortKey header row snapshot = some t := by
  have hrows : ∀ l : List (AddrKey × NodeEntry), (∀ p ∈ l, ∃ r, row p = some r) →
      ∃ rs, l.mapM row = some rs := by
    intro l hl
    induction l with
    | nil => exact ⟨[], rfl⟩
    | cons p l ih =>
      obtain ⟨r, hr⟩ := hl p List.mem_cons_self
      obtain ⟨rs, hrs⟩ := ih fun q hq => hl q (List.mem_cons_of_mem _ hq)
      exact ⟨r :: rs, by simp [hr, hrs]⟩
  obtain ⟨rs, hrs⟩ := hrows (sortByKey sortKey (inState state snapshot)) fun p hp => by
    obtain ⟨hmem, hst⟩ := List.mem_filter.mp ((sortByKey_perm _ _).mem_iff.mp hp)
    exact h p hmem (by simpa using hst)
  exact ⟨⟨header, rs⟩, by unfold writeCsv; simp only [inState] at hrs; simp [hrs]⟩

/-! ## Agreement -/

theorem NetworkType.asStr_injective : Function.Injective NetworkType.asStr := by
  intro a b h
  cases a <;> cases b <;> first | rfl | exact absurd h (by decide)

/-- The text of a key in the first two columns determines it. -/
theorem hostPort_injective :
    Function.Injective fun k : AddrKey => (k.host, toString k.port) := by
  intro k k' h
  obtain ⟨hhost, hport⟩ := Prod.mk.inj h
  have hdigits : Nat.toDigits 10 k.port.toNat = Nat.toDigits 10 k'.port.toNat :=
    String.ofList_injective hport
  have hnat : k.port.toNat = k'.port.toNat := by
    rw [← digitsVal_toDigits 10 (by decide) (by decide) k.port.toNat, hdigits,
      digitsVal_toDigits 10 (by decide) (by decide)]
  obtain ⟨host, port⟩ := k
  obtain ⟨host', port'⟩ := k'
  obtain rfl : host = host' := hhost
  obtain rfl : port = port' := UInt16.toNat_inj.mp hnat
  rfl

/-- The columns that every file has. -/
structure Columns (header : List String) (row : AddrKey × NodeEntry → Option (List String)) :
    Prop where
  host : ∀ p r, row p = some r → field header "host" r = p.1.host
  port : ∀ p r, row p = some r → field header "port" r = toString p.1.port
  network : ∀ p r, row p = some r → field header "network" r = p.2.network.asStr

theorem reachable_columns : Columns reachableHeader reachableRow := by
  constructor <;>
  · intro p r h
    obtain ⟨hs, -, rfl⟩ := Option.map_eq_some_iff.mp h
    rfl

theorem handshakeFailed_columns : Columns handshakeFailedHeader handshakeFailedRow := by
  constructor <;>
  · intro p r h
    obtain rfl := Option.some.inj h
    rfl

theorem unreachable_columns : Columns unreachableHeader unreachableRow := by
  constructor <;>
  · intro p r h
    obtain rfl := Option.some.inj h
    rfl

/-- A column lists a function of the entries, in the order of the rows. -/
theorem column_eq {α : Type} {row : AddrKey × NodeEntry → Option (List String)}
    {f : List String → α} {g : AddrKey × NodeEntry → α}
    (hg : ∀ p r, row p = some r → f r = g p) {es : List (AddrKey × NodeEntry)}
    {rows : List (List String)} (hrows : es.map row = rows.map some) :
    rows.map f = es.map g := by
  induction es generalizing rows with
  | nil =>
    rw [List.map_eq_nil_iff.mp hrows.symm]
    rfl
  | cons p es ih =>
    cases rows with
    | nil => cases hrows
    | cons r rows =>
      obtain ⟨hr, hrest⟩ := List.cons.inj hrows
      rw [List.map_cons, List.map_cons, hg p r hr, ih hrest]

/-- The cells that name the address of a row. -/
def Table.address (t : Table) (r : List String) : String × String :=
  (field t.header "host" r, field t.header "port" r)

/-- The rows of a table about an address. -/
def Table.about (t : Table) (k : AddrKey) : List (List String) :=
  t.rows.filter fun r => t.address r = (k.host, toString k.port)

section Written
variable {state : NodeState} {sortKey : NodeEntry → Int} {header : List String}
  {row : AddrKey × NodeEntry → Option (List String)} {snapshot : List (AddrKey × NodeEntry)}
  {t : Table}

/-- The rows name the addresses of the entries in the state. -/
theorem writeCsv_addresses (hc : Columns header row)
    (h : writeCsv state sortKey header row snapshot = some t) :
    (t.rows.map t.address).Perm
      (((inState state snapshot).map (·.1)).map fun k => (k.host, toString k.port)) := by
  obtain ⟨rfl, hrows⟩ := writeCsv_rows h
  have hcells : ∀ p r, row p = some r → t.address r = (p.1.host, toString p.1.port) := by
    intro p r hr
    unfold Table.address
    rw [hc.host p r hr, hc.port p r hr]
  rw [column_eq hcells hrows, List.map_map]
  exact (sortByKey_perm sortKey (inState state snapshot)).map _

/-- An entry has one row in the file of its state, and none in the file of another. -/
theorem length_about (hc : Columns header row) (hkeys : (snapshot.map (·.1)).Nodup)
    (h : writeCsv state sortKey header row snapshot = some t) {k : AddrKey} {e : NodeEntry}
    (he : (k, e) ∈ snapshot) : (t.about k).length = if e.state = state then 1 else 0 := by
  have hcount : (t.about k).length = ((inState state snapshot).map (·.1)).count k := by
    rw [← List.count_map_of_injective _ _ hostPort_injective, ← (writeCsv_addresses hc h).count_eq]
    rw [List.count_eq_countP, List.countP_map, List.countP_eq_length_filter]
    exact congrArg List.length (List.filter_congr fun r _ => (beq_eq_decide ..).symm)
  have hmem : k ∈ (inState state snapshot).map (·.1) ↔ e.state = state := by
    constructor
    · intro hk
      obtain ⟨⟨k', e'⟩, hin, rfl⟩ := List.mem_map.mp hk
      obtain ⟨he', hst⟩ := List.mem_filter.mp hin
      obtain rfl : e = e' := congrArg Prod.snd (List.inj_on_of_nodup_map hkeys he he' rfl)
      exact of_decide_eq_true hst
    · intro hst
      exact List.mem_map.mpr ⟨_, List.mem_filter.mpr ⟨he, decide_eq_true hst⟩, rfl⟩
  have hnodup : ((inState state snapshot).map (·.1)).Nodup :=
    hkeys.sublist (List.filter_sublist.map _)
  rw [hcount, hnodup.count]
  exact if_congr hmem rfl rfl

end Written

/-- A result file and what the statistics say about its state. -/
structure FileAgrees (snapshot : List (AddrKey × NodeEntry)) (state : NodeState)
    (sortKey : NodeEntry → Int) (row : AddrKey × NodeEntry → Option (List String)) (t : Table)
    (num : NetworkBreakdown) (list : List String) : Prop where
  /-- The rows are those of the entries in the state, in the order of the sort key. -/
  rows : ∃ es : List (AddrKey × NodeEntry), es.Perm (inState state snapshot) ∧
    (es.Pairwise fun p q => sortKey p.2 ≤ sortKey q.2) ∧ es.map row = t.rows.map some
  /-- No two rows are about one address. -/
  once : (t.rows.map fun r => (field t.header "host" r, field t.header "port" r)).Nodup
  total : num.total = t.rows.length
  sum : num.total = num.sum
  listed : list.length = num.total
  counts : ∀ net, num.of net = (t.column "network").count net.asStr

theorem writeCsv_agrees {state : NodeState} {sortKey : NodeEntry → Int} {header : List String}
    {row : AddrKey × NodeEntry → Option (List String)} {snapshot : List (AddrKey × NodeEntry)}
    {t : Table} (hc : Columns header row) (hkeys : (snapshot.map (·.1)).Nodup)
    (h : writeCsv state sortKey header row snapshot = some t) :
    FileAgrees snapshot state sortKey row t
      (.ofList ((inState state snapshot).map (·.2.network)))
      ((inState state snapshot).map (·.1.render)) := by
  obtain ⟨rfl, hrows⟩ := writeCsv_rows h
  have hperm := sortByKey_perm sortKey (inState state snapshot)
  have hlen : t.rows.length = (inState state snapshot).length := by
    have := congrArg List.length hrows
    simpa [hperm.length_eq] using this.symm
  refine ⟨⟨_, hperm, sortByKey_sorted _ _, hrows⟩, ?_, ?_, ?_, ?_, ?_⟩
  · have hnodup : ((inState state snapshot).map (·.1)).Nodup :=
      hkeys.sublist (List.filter_sublist.map _)
    exact (writeCsv_addresses hc h).nodup_iff.mpr (hnodup.map hostPort_injective)
  · rw [NetworkBreakdown.total_ofList, List.length_map, hlen]
  · rw [NetworkBreakdown.sum_ofList]
  · rw [NetworkBreakdown.total_ofList, List.length_map, List.length_map]
  · intro net
    have hcol : t.column "network" = _ := column_eq hc.network hrows
    rw [hcol, (hperm.map _).count_eq, NetworkBreakdown.of_ofList,
      ← List.count_map_of_injective _ _ NetworkType.asStr_injective, List.map_map]
    rfl

/-- The bucket of a reason as a file spells it. -/
def bucketOf (reason : String) : String := if reason = "" then "unknown" else reason

/-- A file of failed nodes and the histogram of their reasons. -/
structure ReasonsAgree (t : Table) (num : NetworkBreakdown) (reasons : Histogram String) :
    Prop where
  total : reasons.total = num.total
  counts : ∀ reason,
    reasons.count reason = ((t.column "failure_reason").map bucketOf).count reason
  buckets : ∀ p ∈ reasons.buckets,
    p.2 = ((t.column "failure_reason").map bucketOf).count p.1

theorem bucketOf_failureReason (e : NodeEntry) : bucketOf (failureReason e) = bucket e := by
  unfold bucketOf failureReason bucket
  cases e.failure with
  | none => rfl
  | some f => cases f <;> rfl

theorem writeCsv_reasons {state : NodeState} {sortKey : NodeEntry → Int} {header : List String}
    {row : AddrKey × NodeEntry → Option (List String)} {snapshot : List (AddrKey × NodeEntry)}
    {t : Table} (hc : ∀ p r, row p = some r → field header "failure_reason" r = failureReason p.2)
    (h : writeCsv state sortKey header row snapshot = some t) :
    ReasonsAgree t (.ofList ((inState state snapshot).map (·.2.network)))
      (.ofList ((inState state snapshot).map (bucket ·.2))) := by
  obtain ⟨rfl, hrows⟩ := writeCsv_rows h
  have hperm := sortByKey_perm sortKey (inState state snapshot)
  have hcounts : ∀ reason, (Histogram.ofList ((inState state snapshot).map (bucket ·.2))).count
      reason = ((t.column "failure_reason").map bucketOf).count reason := by
    intro reason
    have hcol : t.column "failure_reason" = _ := column_eq hc hrows
    rw [hcol, List.map_map, (hperm.map _).count_eq, Histogram.count_ofList]
    congr 2
    exact funext fun p => (bucketOf_failureReason p.2).symm
  refine ⟨?_, hcounts, fun p hp => ?_⟩
  · rw [Histogram.total_ofList, NetworkBreakdown.total_ofList, List.length_map, List.length_map]
  · rw [← Histogram.count_of_mem hp]
    exact hcounts p.1

theorem handshakeFailed_reason (p : AddrKey × NodeEntry) (r : List String)
    (h : handshakeFailedRow p = some r) :
    field handshakeFailedHeader "failure_reason" r = failureReason p.2 := by
  obtain rfl := Option.some.inj h
  rfl

theorem unreachable_reason (p : AddrKey × NodeEntry) (r : List String)
    (h : unreachableRow p = some r) :
    field unreachableHeader "failure_reason" r = failureReason p.2 := by
  obtain rfl := Option.some.inj h
  rfl

/-- **The result files of a generation agree.**  They can be written, and the tables, the
statistics and the manifest count the same entries: by state, by network and by reason. -/
theorem result_files_agree {snapshot : List (AddrKey × NodeEntry)}
    (hkeys : (snapshot.map (·.1)).Nodup)
    (hshake : ∀ p ∈ snapshot, p.2.state = .reachable → p.2.handshake ≠ none)
    (budgetRejected : Nat) (settings : Settings) (timestamp : String) (seeds : List SeedResult)
    (info : SnapshotMeta) (generation : String) (hashes : List (String × String)) :
    ∃ files, resultFiles snapshot budgetRejected settings timestamp seeds info = some files ∧
      FileAgrees snapshot .reachable reachableKey reachableRow files.reachable
        files.stats.numReachable files.stats.listReachable ∧
      FileAgrees snapshot .handshakeFailed handshakeFailedKey handshakeFailedRow files.handshakeFailed
        files.stats.numHandshakeFailed files.stats.listHandshakeFailed ∧
      FileAgrees snapshot .unreachable unreachableKey unreachableRow files.unreachable
        files.stats.numUnreachable files.stats.listUnreachable ∧
      ReasonsAgree files.handshakeFailed files.stats.numHandshakeFailed
        files.stats.handshakeFailedReasons ∧
      ReasonsAgree files.unreachable files.stats.numUnreachable files.stats.unreachableReasons ∧
      files.stats.numReachable.total + files.stats.numHandshakeFailed.total +
          files.stats.numUnreachable.total +
        ((inState .queued snapshot).length + (inState .processing snapshot).length +
          (inState .staleDiscarded snapshot).length +
          (inState .budgetDiscarded snapshot).length) = files.stats.numAdvertised ∧
      files.stats.numAdvertised =
        (manifestOf generation snapshot info hashes).numSnapshotEntries := by
  have hrow : ∀ p ∈ snapshot, p.2.state = .reachable → ∃ r, reachableRow p = some r := by
    intro p hp hst
    obtain ⟨hs, hhs⟩ := Option.ne_none_iff_exists'.mp (hshake p hp hst)
    exact ⟨_, Option.map_eq_some_iff.mpr ⟨hs, hhs, rfl⟩⟩
  obtain ⟨t, ht⟩ : ∃ t, writeReachable snapshot = some t := writeCsv_isSome hrow
  obtain ⟨t', ht'⟩ : ∃ t, writeHandshakeFailed snapshot = some t :=
    writeCsv_isSome fun p _ _ => ⟨_, rfl⟩
  obtain ⟨t'', ht''⟩ : ∃ t, writeUnreachable snapshot = some t :=
    writeCsv_isSome fun p _ _ => ⟨_, rfl⟩
  have hfiles : resultFiles snapshot budgetRejected settings timestamp seeds info =
      some ⟨t, t', t'', writeStatsJson snapshot settings timestamp seeds info.runtimeSeconds
        info.numProcessed info.consistent budgetRejected info.runComplete⟩ := by
    unfold resultFiles
    simp only [ht, ht', ht'', Option.bind_eq_bind, Option.bind_some, Option.pure_def]
  refine ⟨_, hfiles, ?_⟩
  unfold writeStatsJson
  rw [tallies_eq]
  refine ⟨writeCsv_agrees reachable_columns hkeys ht, writeCsv_agrees handshakeFailed_columns hkeys
    ht', writeCsv_agrees unreachable_columns hkeys ht'', writeCsv_reasons handshakeFailed_reason ht',
    writeCsv_reasons unreachable_reason ht'', ?_, rfl⟩
  simp only [NetworkBreakdown.total_ofList, List.length_map]
  exact inState_partition snapshot

/-- A node that answered, one that failed for no recorded reason, and a stale address. -/
def sampleSnapshot : List (AddrKey × NodeEntry) :=
  let hs : HandshakeData := {
    version := 70016, services := 1, userAgent := "/x,y/", latestBlock := 9, relay := true,
    versionReplyTimestampRemote := 5, handshakeTimestamp := 6, handshakeDurationMs := 7,
    requestedEndpoint := "192.0.2.1:8333", transportDestination := "192.0.2.1:8333",
    socketLocal := "", socketPeer := "", versionAddrRecv := "", versionAddrRecvServices := 0,
    versionAddrFrom := none, versionAddrFromServices := none, versionNonce := some 3 }
  [(⟨"192.0.2.1", 8333⟩,
      { network := .ipv4, freshestTs := 4, state := .reachable, handshake := some hs }),
    (⟨"192.0.2.2", 8333⟩, { network := .ipv4, freshestTs := 3, state := .unreachable }),
    (⟨"2001:db8::1", 8333⟩, { network := .ipv6, freshestTs := 2, state := .staleDiscarded })]

theorem result_files_agree_sample :
    ∃ settings files, resultFiles sampleSnapshot 0 settings "20260101T000000Z" [] ⟨8, 2, none, true,
        true⟩ = some files ∧
      FileAgrees sampleSnapshot .reachable reachableKey reachableRow files.reachable
        files.stats.numReachable files.stats.listReachable ∧
      ReasonsAgree files.unreachable files.stats.numUnreachable files.stats.unreachableReasons ∧
      files.stats.unreachableReasons.buckets = [("unknown", 1)] ∧
      files.stats.numAdvertised = 3 := by
  let settings : Settings := {
    maxNodes := none, maxAddresses := 10, enabledNetworks := ⟨true, true, false, false, false⟩
    freshnessThreshold := 0, recordAddrResponses := false, concurrency := ⟨1, 0, 0⟩
    handshakeAttempts := 1, retryOnTimeout := false, checkpointInterval := 0, probeMode := false
    maxAddresses_pos := by decide
    handshakeAttempts_pos := by decide
    staffed := fun net => by cases net <;> decide }
  obtain ⟨files, hfiles, hr, -, -, -, hu, -, hn⟩ := @result_files_agree sampleSnapshot
    (by decide) (by decide) 0 settings "20260101T000000Z" [] ⟨8, 2, none, true, true⟩ "g" []
  have hstats : files.stats = writeStatsJson sampleSnapshot settings "20260101T000000Z" [] 8 2
      true 0 true := by
    unfold resultFiles at hfiles
    simp only [Option.bind_eq_bind, Option.bind_eq_some_iff, Option.pure_def,
      Option.some.injEq] at hfiles
    obtain ⟨_, -, _, -, _, -, rfl⟩ := hfiles
    rfl
  refine ⟨settings, files, hfiles, hr, hu, ?_, hn⟩
  rw [hstats]
  decide

end P2PCrawler
