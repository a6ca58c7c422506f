import P2PCrawler.Crawler.Termination
import P2PCrawler.AddrMessage
import Mathlib.Data.Finset.Card

/-!
# The frontier after a message (`store.rs`, `crawler.rs`)

The upserts of one message, one after the other, come to one observation of each key at the
latest of its timestamps.

* `observation` — the entry of a key after one observation.
* `observation_observation` — two observations are one at the later timestamp.
* `upsertAll_entry`, `upsertAll_enqueues` — the closed form of a batch.
* `frontier_closed_form` — **the update of the frontier** by a message, in any order.
-/

set_option autoImplicit false

namespace P2PCrawler

/-! ## One observation -/

/-- The entry of a key after an observation, for a budget with room. -/
def observation (thr now : Int) (net : NetworkType) (old : Option NodeEntry) (ts : Int) : NodeEntry :=
  match old with
  | none => .new net ts (if stale thr now ts then .staleDiscarded else .queued)
  | some e =>
    { e with
      freshestTs := max e.freshestTs ts
      state := if e.state = .staleDiscarded ∧ stale thr now (max e.freshestTs ts) = false then .queued
        else e.state }

/-- The observation queues the key. -/
def queues (thr now : Int) (old : Option NodeEntry) (ts : Int) : Bool :=
  match old with
  | none => !stale thr now ts
  | some e => decide (e.state = .staleDiscarded) && !stale thr now (max e.freshestTs ts)

/-- A later timestamp is not staler. -/
theorem stale_mono {thr now a b : Int} (hab : a ≤ b) (h : stale thr now a = false) :
    stale thr now b = false := by
  simp only [stale, Bool.and_eq_false_iff, decide_eq_false_iff_not] at h ⊢
  omega

section Observation
variable (thr now : Int) (net : NetworkType) (old : Option NodeEntry) (t u : Int)

/-- **Two observations are one** at the later timestamp. -/
theorem observation_observation :
    observation thr now net (some (observation thr now net old t)) u =
      observation thr now net old (max t u) := by
  have hle : t ≤ max t u := le_max_left t u
  cases old with
  | none =>
    simp only [observation, NodeEntry.new]
    by_cases ht : stale thr now t = false
    · simp [ht, stale_mono hle ht]
    · by_cases hu : stale thr now (max t u) = false <;> simp [ht, hu]
  | some e =>
    have hle' : max e.freshestTs t ≤ max e.freshestTs (max t u) := max_le_max le_rfl hle
    simp only [observation, max_assoc]
    by_cases he : e.state = .staleDiscarded
    · by_cases ht : stale thr now (max e.freshestTs t) = false
      · simp [he, ht, stale_mono hle' ht]
      · simp [he, ht]
    · simp [he]

/-- A key is queued by the first of two observations or by the second, not by both. -/
theorem queues_observation :
    (queues thr now old t).toNat +
        (queues thr now (some (observation thr now net old t)) u).toNat =
      (queues thr now old (max t u)).toNat := by
  have hle : t ≤ max t u := le_max_left t u
  cases old with
  | none =>
    simp only [observation, NodeEntry.new, queues]
    by_cases ht : stale thr now t = false
    · simp [ht, stale_mono hle ht]
    · simp [ht]
  | some e =>
    have hle' : max e.freshestTs t ≤ max e.freshestTs (max t u) := max_le_max le_rfl hle
    simp only [observation, queues, max_assoc]
    by_cases he : e.state = .staleDiscarded
    · by_cases ht : stale thr now (max e.freshestTs t) = false
      · simp [he, ht, stale_mono hle' ht]
      · simp [he, ht]
    · simp [he]

end Observation

/-! ## One upsert -/

namespace NodeStore

/-- **An upsert observes its own key**, where there is room for it. -/
theorem frontierUpsert_observes {s : NodeStore} {k : AddrKey} (ts : Int) (net : NetworkType)
    (thr now : Int) (hroom : s.entry k = none → s.entries < s.maxEntries) :
    let r := s.frontierUpsert k ts net thr now
    (∀ k', r.1.entry k' =
      if k' = k then some (observation thr now net (s.entry k) ts) else s.entry k') ∧
    (r.2 = .enqueue ↔ queues thr now (s.entry k) ts = true) ∧
    r.1.entries = s.entries + (if s.entry k = none then 1 else 0) ∧
    r.1.maxEntries = s.maxEntries := by
  have hu := frontierUpsert_cases s k ts net thr now
  generalize s.frontierUpsert k ts net thr now = r at hu ⊢
  obtain ⟨s', out⟩ := r
  simp only at hu ⊢
  cases hu with
  | @refreshed e _ he hout hrej hstate =>
    have hkeep : ¬ (e.state = .staleDiscarded ∧ stale thr now (max e.freshestTs ts) = false) := by
      rintro ⟨hst, hfresh⟩
      rw [hstate hst] at hfresh
      cases hfresh
    have hobs : refresh ts e = observation thr now net (some e) ts := by
      simp only [refresh, observation, if_neg hkeep]
    refine ⟨fun k' => ?_, ?_, by simp [he], by simp⟩
    · rw [entry_withEntry, he, Option.map_some, hobs]
    · simpa [he, queues, hout] using hkeep
  | @revived e he hst hfresh =>
    have hobs : revive ts e = observation thr now net (some e) ts := by
      simp only [revive, observation, hst, hfresh, and_self, if_true]
    refine ⟨fun k' => ?_, by simp [he, queues, hst, hfresh], by simp [he], by simp⟩
    rw [entry_withEntry, he, Option.map_some, hobs]
  | rejected he hfull => exact absurd (hroom he) (by omega)
  | parked he _ hstale =>
    refine ⟨fun k' => ?_, by simp [he, queues, hstale], by simp [he, insertEntry], by simp [insertEntry]⟩
    rw [entry_insertEntry, he]
    simp only [observation, hstale, if_true]
    rfl
  | discovered he _ hfresh =>
    refine ⟨fun k' => ?_, by simp [he, queues, hfresh], by simp [he, insertEntry], by simp [insertEntry]⟩
    rw [entry_insertEntry, he]
    simp only [observation, hfresh]
    rfl

end NodeStore

/-! ## A batch -/

/-- The key of an advertised address. -/
def AdvertisedAddr.key (a : AdvertisedAddr) : AddrKey := ⟨a.host, a.port⟩

/-- The upserts of a batch, one after the other, with their decisions. -/
def upsertAll (thr now : Int) : NodeStore → List AdvertisedAddr →
    NodeStore × List (AddrKey × FrontierOutcome)
  | s, [] => (s, [])
  | s, a :: rest =>
    let r := s.frontierUpsert a.key a.timestamp a.network thr now
    let more := upsertAll thr now r.1 rest
    (more.1, (a.key, r.2) :: more.2)

/-- The timestamps of one key in a batch. -/
def timesOf (k : AddrKey) (batch : List AdvertisedAddr) : List Int :=
  (batch.filter fun a => a.key = k).map (·.timestamp)

/-- The keys of a batch that the store does not have. -/
def newKeys (s : NodeStore) (batch : List AdvertisedAddr) : Finset AddrKey :=
  (batch.map (·.key)).toFinset.filter fun k => s.entry k = none

theorem timesOf_cons (k : AddrKey) (a : AdvertisedAddr) (rest : List AdvertisedAddr) :
    timesOf k (a :: rest) = if a.key = k then a.timestamp :: timesOf k rest else timesOf k rest := by
  unfold timesOf
  rw [List.filter_cons]
  by_cases h : a.key = k
  · simp [h]
  · simp [h]

section Batch
variable (thr now : Int) {label : AddrKey → NetworkType}

/-- The first upsert of a batch uses up the room of its own key only. -/
theorem room_after {s : NodeStore} {a : AdvertisedAddr} {rest : List AdvertisedAddr}
    (hroom : s.entries + (newKeys s (a :: rest)).card ≤ s.maxEntries) :
    (s.entry a.key = none → s.entries < s.maxEntries) ∧
      (s.frontierUpsert a.key a.timestamp a.network thr now).1.entries +
        (newKeys (s.frontierUpsert a.key a.timestamp a.network thr now).1 rest).card ≤
      (s.frontierUpsert a.key a.timestamp a.network thr now).1.maxEntries := by
  have hpos : s.entry a.key = none → a.key ∈ newKeys s (a :: rest) := by
    intro h
    simp [newKeys, h]
  have hfirst : s.entry a.key = none → s.entries < s.maxEntries := by
    intro h
    have := Finset.card_pos.mpr ⟨_, hpos h⟩
    omega
  refine ⟨hfirst, ?_⟩
  obtain ⟨hentry, -, hentries, hmax⟩ := NodeStore.frontierUpsert_observes
    a.timestamp a.network thr now hfirst
  have hsub : newKeys (s.frontierUpsert a.key a.timestamp a.network thr now).1 rest ⊆
      (newKeys s (a :: rest)).erase a.key := by
    intro k hk
    simp only [newKeys, Finset.mem_filter, List.mem_toFinset, Finset.mem_erase, hentry] at hk ⊢
    obtain ⟨hmem, hnone⟩ := hk
    split at hnone
    · cases hnone
    · rename_i hne
      exact ⟨hne, by simpa using .inr (by simpa using hmem), hnone⟩
  have hcard := Finset.card_le_card hsub
  rw [hentries, hmax]
  split
  · rename_i hnone
    rw [Finset.card_erase_of_mem (hpos hnone)] at hcard
    have := Finset.card_pos.mpr ⟨_, hpos hnone⟩
    omega
  · have := Finset.card_le_card (Finset.erase_subset a.key (newKeys s (a :: rest)))
    omega

/-- **The store after a batch.**  Each key has been observed once, at the latest of its
    timestamps. -/
theorem upsertAll_entry {batch : List AdvertisedAddr} : ∀ {s : NodeStore},
    (∀ a ∈ batch, a.network = label a.key) →
      s.entries + (newKeys s batch).card ≤ s.maxEntries → ∀ k,
      (upsertAll thr now s batch).1.entry k =
        match (timesOf k batch).max? with
        | none => s.entry k
        | some t => some (observation thr now (label k) (s.entry k) t) := by
  induction batch with
  | nil => intro s _ _ k; rfl
  | cons a rest ih =>
    intro s hlabel hroom k
    obtain ⟨hfirst, hrest⟩ := room_after thr now hroom
    obtain ⟨hentry, -⟩ := NodeStore.frontierUpsert_observes
      a.timestamp a.network thr now hfirst
    have hnet : a.network = label a.key := hlabel a (List.mem_cons_self ..)
    have h := ih (fun b hb => hlabel b (List.mem_cons_of_mem _ hb)) hrest k
    rw [timesOf_cons]
    show (upsertAll thr now _ rest).1.entry k = _
    rw [h, hentry]
    by_cases hk : a.key = k
    · subst hk
      rw [if_pos rfl, if_pos rfl, List.max?_cons, hnet]
      cases (timesOf a.key rest).max? with
      | none => rfl
      | some u => simp only [observation_observation]; rfl
    · rw [if_neg (Ne.symm hk), if_neg hk]

/-- **The decisions of a batch.**  A key is queued once, if its latest timestamp queues it. -/
theorem upsertAll_enqueues {batch : List AdvertisedAddr} : ∀ {s : NodeStore},
    (∀ a ∈ batch, a.network = label a.key) →
      s.entries + (newKeys s batch).card ≤ s.maxEntries → ∀ k,
      (upsertAll thr now s batch).2.count (k, .enqueue) =
        match (timesOf k batch).max? with
        | none => 0
        | some t => (queues thr now (s.entry k) t).toNat := by
  induction batch with
  | nil => intro s _ _ k; rfl
  | cons a rest ih =>
    intro s hlabel hroom k
    obtain ⟨hfirst, hrest⟩ := room_after thr now hroom
    obtain ⟨hentry, hout, -⟩ := NodeStore.frontierUpsert_observes
      a.timestamp a.network thr now hfirst
    have h := ih (fun b hb => hlabel b (List.mem_cons_of_mem _ hb)) hrest k
    rw [timesOf_cons]
    show List.count (k, FrontierOutcome.enqueue) ((a.key, _) :: (upsertAll thr now _ rest).2) = _
    rw [List.count_cons, h, hentry]
    by_cases hk : a.key = k
    · subst hk
      have hone : (if ((a.key, (s.frontierUpsert a.key a.timestamp a.network thr now).2) ==
          (a.key, FrontierOutcome.enqueue)) = true then 1 else 0) =
          (queues thr now (s.entry a.key) a.timestamp).toNat := by
        cases hq : queues thr now (s.entry a.key) a.timestamp <;> simp [hout, hq]
      rw [if_pos rfl, if_pos rfl, List.max?_cons, hone]
      cases (timesOf a.key rest).max? with
      | none => simp
      | some u =>
        simp only [Option.elim]
        rw [Nat.add_comm, queues_observation]
    · have hne : ((a.key, (s.frontierUpsert a.key a.timestamp a.network thr now).2) ==
          (k, FrontierOutcome.enqueue)) = false := by simp [hk]
      rw [if_neg (Ne.symm hk), if_neg hk, hne]
      simp

end Batch

/-! ## The batch of a message -/

/-- The message is a result of one of the two parsers. -/
def FromWire (H : Digests) (m : ParsedAddrMessage) : Prop :=
  ∃ p, parseAddr p = .ok m ∨ parseAddrv2 H p = .ok m

/-- A message gives one network to each key. -/
theorem FromWire.label {H : Digests} {m : ParsedAddrMessage} (h : FromWire H m) :
    ∃ label : AddrKey → NetworkType, ∀ a ∈ m.addrs, a.network = label a.key := by
  obtain ⟨p, h | h⟩ := h
  · exact ⟨fun k => legacyLabel H k.host, fun a ha => (label_of_parseAddr H h ha).1⟩
  · exact ⟨fun k => classify H k.host, fun a ha => (label_of_parseAddrv2 h ha).1⟩

/-- The key was not stored, or parked as stale. -/
def NodeStore.waiting (s : NodeStore) (k : AddrKey) : Prop :=
  s.stateOf k = none ∨ s.stateOf k = some .staleDiscarded

instance (s : NodeStore) (k : AddrKey) : Decidable (s.waiting k) :=
  inferInstanceAs (Decidable (_ ∨ _))

theorem timesOf_perm {batch batch' : List AdvertisedAddr} (h : batch.Perm batch') (k : AddrKey) :
    (timesOf k batch).Perm (timesOf k batch') :=
  (h.filter _).map _

theorem max?_perm {xs ys : List Int} (h : xs.Perm ys) : xs.max? = ys.max? := by
  apply Option.ext
  intro a
  rw [List.max?_eq_some_iff, List.max?_eq_some_iff]
  simp only [h.mem_iff]

theorem newKeys_perm (s : NodeStore) {batch batch' : List AdvertisedAddr} (h : batch.Perm batch') :
    newKeys s batch = newKeys s batch' := by
  unfold newKeys
  rw [List.toFinset_eq_of_perm _ _ (h.map _)]

theorem timesOf_eq_nil {k : AddrKey} {batch : List AdvertisedAddr} :
    timesOf k batch = [] ↔ k ∉ batch.map (·.key) := by
  simp [timesOf, List.filter_eq_nil_iff]

theorem max?_append_latest (old : Option NodeEntry) {times : List Int} {t : Int}
    (ht : times.max? = some t) : ((old.map (·.freshestTs)).toList ++ times).max? =
      some (old.elim t fun e => max e.freshestTs t) := by
  cases old with
  | none => exact ht
  | some e => simp [List.max?_cons, ht]

theorem not_stale_iff (thr now ts : Int) :
    stale thr now ts = false ↔ thr ≤ 0 ∨ now - thr ≤ ts := by
  simp only [stale, Bool.and_eq_false_iff, decide_eq_false_iff_not]
  omega

section Closed
variable (thr now : Int) (net : NetworkType) (old : Option NodeEntry) (t : Int)

theorem observation_freshestTs :
    (observation thr now net old t).freshestTs = old.elim t fun e => max e.freshestTs t := by
  cases old <;> rfl

theorem observation_keeps {e : NodeEntry} (he : e.state ≠ .staleDiscarded) :
    observation thr now net (some e) t =
      { e with freshestTs := (observation thr now net (some e) t).freshestTs } := by
  simp [observation, he]

/-- The state of a key that was waiting. -/
theorem observation_waiting (hw : ∀ e ∈ old, e.state = .staleDiscarded) :
    (observation thr now net old t).state =
      if stale thr now (observation thr now net old t).freshestTs = false then .queued
      else .staleDiscarded := by
  cases old with
  | none =>
    simp only [observation, NodeEntry.new]
    by_cases ht : stale thr now t = false <;> simp [ht]
  | some e =>
    have he : e.state = .staleDiscarded := hw e rfl
    simp [observation, he]

/-- A key is queued by an observation iff it was waiting and is queued afterwards. -/
theorem queues_eq : queues thr now old t = decide ((∀ e ∈ old, e.state = .staleDiscarded) ∧
    (observation thr now net old t).state = .queued) := by
  cases old with
  | none =>
    simp only [queues, observation, NodeEntry.new]
    by_cases ht : stale thr now t = false <;> simp [ht]
  | some e =>
    by_cases he : e.state = .staleDiscarded
    · by_cases ht : stale thr now (max e.freshestTs t) = false <;> simp [queues, observation, he, ht]
    · simp [queues, he]

end Closed

theorem NodeStore.waiting_iff {s : NodeStore} {k : AddrKey} :
    s.waiting k ↔ ∀ e ∈ s.entry k, e.state = .staleDiscarded := by
  unfold NodeStore.waiting NodeStore.stateOf
  cases s.entry k <;> simp

/-- **The update of the frontier.**  Whatever the order of the enabled addresses of a message, if
    its new keys fit in the budget: other keys are untouched; each key of the message has the
    latest of its old and new timestamps; it keeps its state unless it was waiting, and then it is
    queued or parked by that timestamp; it is enqueued once if it has become queued.  Another
    order of the addresses gives the same entries. -/
theorem frontier_closed_form {H : Digests} {S : Settings} {m : ParsedAddrMessage}
    (hm : FromWire H m) (s : NodeStore) (now : Int) {order : List AdvertisedAddr}
    (hperm : order.Perm (enabledAddrs S m))
    (hroom : s.entries + (newKeys s (enabledAddrs S m)).card ≤ s.maxEntries) :
    let keys := (enabledAddrs S m).map (·.key)
    let r := upsertAll S.freshnessThreshold now s order
    (∀ k ∉ keys, r.1.entry k = s.entry k) ∧
    (∀ k ∈ keys, ∃ e, r.1.entry k = some e ∧
      (((s.entry k).map (·.freshestTs)).toList ++ timesOf k (enabledAddrs S m)).max? =
        some e.freshestTs ∧
      (∀ old, s.entry k = some old → old.state ≠ .staleDiscarded →
        e = { old with freshestTs := e.freshestTs }) ∧
      (s.waiting k → e.state =
        if S.freshnessThreshold ≤ 0 ∨ now - S.freshnessThreshold ≤ e.freshestTs then .queued
        else .staleDiscarded)) ∧
    (∀ k, r.2.count (k, .enqueue) =
      if s.waiting k ∧ r.1.stateOf k = some .queued then 1 else 0) ∧
    (∀ order' : List AdvertisedAddr, order'.Perm (enabledAddrs S m) → ∀ k,
      (upsertAll S.freshnessThreshold now s order').1.entry k = r.1.entry k) := by
  obtain ⟨label, hlabel⟩ := hm.label
  have hentry : ∀ {order : List AdvertisedAddr}, order.Perm (enabledAddrs S m) → ∀ k,
      (upsertAll S.freshnessThreshold now s order).1.entry k =
        match (timesOf k (enabledAddrs S m)).max? with
        | none => s.entry k
        | some t => some (observation S.freshnessThreshold now (label k) (s.entry k) t) := by
    intro order hperm k
    have h := upsertAll_entry S.freshnessThreshold now
      (fun a ha => hlabel a (List.mem_of_mem_filter (hperm.mem_iff.mp ha)))
      (by rw [newKeys_perm s hperm]; exact hroom) k
    rw [h, max?_perm (timesOf_perm hperm k)]
  have hcount := upsertAll_enqueues S.freshnessThreshold now
    (fun a ha => hlabel a (List.mem_of_mem_filter (hperm.mem_iff.mp ha)))
    (by rw [newKeys_perm s hperm]; exact hroom)
  refine ⟨fun k hk => ?_, fun k hk => ?_, fun k => ?_, fun order' hperm' k => ?_⟩
  · rw [hentry hperm, timesOf_eq_nil.mpr hk]
    rfl
  · obtain ⟨t, ht⟩ : ∃ t, (timesOf k (enabledAddrs S m)).max? = some t := by
      apply Option.ne_none_iff_exists'.mp
      rw [Ne, List.max?_eq_none_iff, timesOf_eq_nil]
      exact not_not_intro hk
    rw [hentry hperm, ht]
    refine ⟨_, rfl, ?_, fun old hold hst => ?_, fun hw => ?_⟩
    · rw [max?_append_latest _ ht, observation_freshestTs]
    · rw [hold]
      exact observation_keeps _ _ _ _ hst
    · rw [observation_waiting _ _ _ _ _ (NodeStore.waiting_iff.mp hw)]
      simp only [not_stale_iff]
  · rw [hcount, max?_perm (timesOf_perm hperm k), NodeStore.stateOf, hentry hperm]
    cases (timesOf k (enabledAddrs S m)).max? with
    | none =>
      have hno : ¬ (s.waiting k ∧ (s.entry k).map (·.state) = some .queued) := by
        rintro ⟨hw | hw, hq⟩
        · rw [NodeStore.stateOf, hq] at hw; cases hw
        · rw [NodeStore.stateOf, hq] at hw; cases hw
      rw [if_neg hno]
    | some t =>
      simp only [queues_eq _ _ (label k), Option.map_some, Option.some.injEq, NodeStore.waiting_iff]
      split_ifs with h
      · rw [decide_eq_true h]; rfl
      · rw [decide_eq_false h]; rfl
  · rw [hentry hperm', hentry hperm]

/-- `192.0.2.7:8333`, last seen at time 9, as in a legacy message. -/
def oneAddr : AdvertisedAddr := ⟨"192.0.2.7", 8333, .ipv4, 9, 0, 2⟩

def oneAddrMessage : ParsedAddrMessage := .single oneAddr

/-- A record of a legacy message: the address `192.0.2.n:8333`, last seen at `time`. -/
def legacyRecord (time : List Byte) (n : Byte) : List Byte :=
  time ++ List.replicate 18 0 ++ [0xff, 0xff, 192, 0, 2, n, 0x20, 0x8d]

/-- The first address stale and then fresh, the second one stale, the third one just fresh, at time
    1000 under the threshold 100. -/
def mixedPayload : List Byte :=
  [4] ++ legacyRecord [100, 0, 0, 0] 7 ++ legacyRecord [50, 0, 0, 0] 8 ++
    legacyRecord [0xb6, 3, 0, 0] 7 ++ legacyRecord [0x84, 3, 0, 0] 9

def mixedAddrs : List AdvertisedAddr :=
  [⟨"192.0.2.7", 8333, .ipv4, 100, 0, 2⟩, ⟨"192.0.2.8", 8333, .ipv4, 50, 0, 2⟩,
    ⟨"192.0.2.7", 8333, .ipv4, 950, 0, 2⟩, ⟨"192.0.2.9", 8333, .ipv4, 900, 0, 2⟩]

def mixedMessage : ParsedAddrMessage := ⟨4, mixedAddrs, 0, rfl⟩

def hourlySettings : Settings := { soloSettings with freshnessThreshold := 100 }

/-- A store in which the first address is parked since time 5. -/
def parkedStore : NodeStore :=
  ((NodeStore.withLimit 10).frontierUpsert ⟨"192.0.2.7", 8333⟩ 5 .ipv4 100 1000).1

/-- The parked address is revived once, at its latest time; the stale one is parked, the one at the
    threshold queued; the reversed order gives the same entries. -/
theorem frontier_closed_form_sample :
    parseAddr mixedPayload = .ok mixedMessage ∧
      parkedStore.stateOf ⟨"192.0.2.7", 8333⟩ = some .staleDiscarded ∧
      let r := upsertAll 100 1000 parkedStore mixedAddrs
      (∃ e, r.1.entry ⟨"192.0.2.7", 8333⟩ = some e ∧ e.freshestTs = 950 ∧ e.state = .queued) ∧
      (∃ e, r.1.entry ⟨"192.0.2.8", 8333⟩ = some e ∧ e.freshestTs = 50 ∧
        e.state = .staleDiscarded) ∧
      (∃ e, r.1.entry ⟨"192.0.2.9", 8333⟩ = some e ∧ e.freshestTs = 900 ∧ e.state = .queued) ∧
      r.2.count (⟨"192.0.2.7", 8333⟩, .enqueue) = 1 ∧
      r.2.count (⟨"192.0.2.8", 8333⟩, .enqueue) = 0 ∧
      ∀ k, (upsertAll 100 1000 parkedStore mixedAddrs.reverse).1.entry k = r.1.entry k := by
  have hparse : parseAddr mixedPayload = .ok mixedMessage := by decide +kernel
  have hparked : parkedStore.stateOf ⟨"192.0.2.7", 8333⟩ = some .staleDiscarded := by decide
  obtain ⟨-, hkeys, hcount, horder⟩ := frontier_closed_form (H := .zero) (S := hourlySettings)
    ⟨_, .inl hparse⟩ parkedStore 1000
    (show mixedAddrs.Perm (enabledAddrs hourlySettings mixedMessage) by decide) (by decide +kernel)
  -- a key of the message that was waiting
  have hone : ∀ (k : AddrKey) (ts : Int), k ∈ mixedAddrs.map (·.key) → parkedStore.waiting k →
      (((parkedStore.entry k).map (·.freshestTs)).toList ++ timesOf k mixedAddrs).max? = some ts →
      ∃ e, (upsertAll 100 1000 parkedStore mixedAddrs).1.entry k = some e ∧ e.freshestTs = ts ∧
        e.state = if 900 ≤ ts then .queued else .staleDiscarded := by
    intro k ts hk hw hts
    obtain ⟨e, he, htime, -, hstate⟩ := hkeys k hk
    obtain rfl : e.freshestTs = ts := Option.some.inj (htime.symm.trans hts)
    exact ⟨e, he, rfl, (hstate hw).trans (by simp [hourlySettings])⟩
  have hseven := hone ⟨"192.0.2.7", 8333⟩ 950 (by decide) (by decide) (by decide)
  have height := hone ⟨"192.0.2.8", 8333⟩ 50 (by decide) (by decide) (by decide)
  have hnine := hone ⟨"192.0.2.9", 8333⟩ 900 (by decide) (by decide) (by decide)
  refine ⟨hparse, hparked, hseven, height, hnine, ?_, ?_, ?_⟩
  · obtain ⟨e, he, -, hst⟩ := hseven
    have hq : (upsertAll 100 1000 parkedStore mixedAddrs).1.stateOf ⟨"192.0.2.7", 8333⟩ =
        some .queued := by
      rw [NodeStore.stateOf, he]
      exact congrArg some hst
    exact (hcount _).trans (if_pos ⟨.inr hparked, hq⟩)
  · obtain ⟨e, he, -, hst⟩ := height
    refine (hcount _).trans (if_neg fun h => ?_)
    have hq := h.2
    rw [NodeStore.stateOf] at hq
    cases (hst.symm.trans (Option.some.inj ((congrArg _ he).symm.trans hq)))
  · exact horder _ (by decide)

end P2PCrawler
