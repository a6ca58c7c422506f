import P2PCrawler.Crawler.Control

/-!
# What a step writes into an entry

`process` keeps counters in the entry of its node, and it moves the entry from state to state with
the worker loop; everything else leaves both alone, but for entries that are new or revived.

* `Pc.counts` — what a thread at its position writes into the statistics of a key.
* `Pc.rewrites` — what it writes into the state and the statistics.
* `program_view`, `program_stats` — **that is all a step does to them**.
-/

set_option autoImplicit false

namespace P2PCrawler

open ThreadPool

/-! ## Writes -/

/-- What the next step of the task does to the statistics of its node. -/
def TaskPc.counts : TaskPc → NodeStats → NodeStats
  | .count _, s => { s with handshakeAttempts := s.handshakeAttempts + 1 }
  | .connected _ ms, s => { s with timeConnectMs := some ms }
  | .firstVersion _ sentTs, s =>
    { s with firstVersionSendTs := s.firstVersionSendTs.or (some sentTs) }
  | .malformedCount .., s => { s with malformedAddrMessages := s.malformedAddrMessages + 1 }
  | .breakdown _ _ parsed, s => recordMessage parsed s
  | .messageDone .., s => { s with validAddrMessages := s.validAddrMessages + 1 }
  | .outcomeWrite _ outcome, s => { s with collectionOutcome := outcome }
  | _, s => s

/-- The same for any thread and any key. -/
def Pc.counts (k : AddrKey) : Pc → NodeStats → NodeStats
  | .worker _ (.task key p), s => if key = k then p.counts s else s
  | _, s => s

/-- The state of an entry and its statistics. -/
abbrev EntryView := NodeState × NodeStats

def NodeEntry.view (e : NodeEntry) : EntryView := (e.state, e.stats)

def EnqueuePc.rewrites : EnqueuePc → EntryView → EntryView
  | .discard, v => (.budgetDiscarded, v.2)
  | _, v => v

def FinishPc.rewrites : FinishPc → EntryView → EntryView
  | .write terminal _, v => if v.1.active then (terminal.val, v.2) else v
  | _, v => v

def TaskPc.rewrites : TaskPc → EntryView → EntryView
  | .requeueing .., v => (.queued, v.2)
  | .abandoning f, v | .finishing f, v => f.rewrites v
  | p, v => (v.1, p.counts v.2)

/-- What the next step of a thread does to the state and the statistics of a key. -/
def Pc.rewrites (k : AddrKey) : Pc → EntryView → EntryView
  | .main (.seedEnqueue _ key e), v => if key = k then e.rewrites v else v
  | .worker _ (.task _ (.enqueueing _ _ _ _ key e)), v => if key = k then e.rewrites v else v
  | .worker _ (.task key p), v => if key = k then p.rewrites v else v
  | .worker _ (.starting key), v => if key = k then (.processing, v.2) else v
  | .worker _ (.discarding key f), v | .worker _ (.crashedFinish key f), v =>
    if key = k then f.rewrites v else v
  | _, v => v

namespace NodeStore
variable {s : NodeStore} {k k' : AddrKey} {f : NodeEntry → NodeEntry}

def viewOf (s : NodeStore) (k : AddrKey) : Option EntryView := (s.entry k).map (·.view)

def statsOf (s : NodeStore) (k : AddrKey) : Option NodeStats := (s.entry k).map (·.stats)

theorem stateOf_eq_view : s.stateOf k = (s.viewOf k).map Prod.fst := by
  rw [viewOf, Option.map_map]
  rfl

theorem statsOf_eq_view : s.statsOf k = (s.viewOf k).map Prod.snd := by
  rw [viewOf, Option.map_map]
  rfl

theorem viewOf_withEntry {g : EntryView → EntryView} (hf : ∀ e, (f e).view = g e.view) :
    (s.withEntry k f).viewOf k' = (s.viewOf k').map fun v => if k = k' then g v else v := by
  unfold viewOf
  rw [entry_withEntry]
  by_cases hk : k' = k
  · subst hk
    simp only [if_true, Option.map_map]
    exact congrArg (Option.map · (s.entry k')) (funext hf)
  · simp only [if_neg hk, if_neg (Ne.symm hk), Option.map_id']

theorem viewOf_insertEntry {n : Nat} {e : NodeEntry} :
    ({ s with entries := n }.insertEntry k e).viewOf k' =
      if k' = k then some e.view else s.viewOf k' := by
  unfold viewOf
  rw [entry_insertEntry]
  by_cases hk : k' = k
  · rw [if_pos hk, if_pos hk]
    rfl
  · rw [if_neg hk, if_neg hk]
    rfl

end NodeStore

/-! ## Steps -/

/-- What an observation can do to an entry: a new one, or a stale one that is queued. -/
inductive Appears : Option EntryView → Option EntryView → Prop
  | new {st : NodeState} (hst : st = .queued ∨ st = .staleDiscarded) :
    Appears none (some (st, {}))
  | revived (x : NodeStats) : Appears (some (.staleDiscarded, x)) (some (.queued, x))

/-- The entry of `k` goes through `g`, or it appears in a step that writes nothing to it. -/
def ViewStep (s s' : NodeStore) (k : AddrKey) (g : EntryView → EntryView) : Prop :=
  s'.viewOf k = (s.viewOf k).map g ∨ Appears (s.viewOf k) (s'.viewOf k) ∧ ∀ v, g v = v

theorem viewStep_same {s s' : NodeStore} (h : ∀ k, s'.entry k = s.entry k) (k : AddrKey) :
    ViewStep s s' k id := by
  unfold ViewStep NodeStore.viewOf
  rw [h, Option.map_id]
  exact .inl rfl

theorem viewStep_write (s : NodeStore) (k k' : AddrKey) {f : NodeEntry → NodeEntry}
    {g : EntryView → EntryView} (hf : ∀ e, (f e).view = g e.view) :
    ViewStep s (s.withEntry k f) k' fun v => if k = k' then g v else v :=
  .inl (NodeStore.viewOf_withEntry hf)

theorem viewStep_keep (s : NodeStore) (k k' : AddrKey) {f : NodeEntry → NodeEntry}
    (hf : ∀ e, (f e).view = e.view) : ViewStep s (s.withEntry k f) k' id := by
  have hw := viewStep_write s k k' (g := id) hf
  rwa [show (fun v => if k = k' then id v else v) = (id : EntryView → EntryView) from
    funext fun v => by simp only [id, ite_self]] at hw

theorem viewStep_insert {s : NodeStore} {k : AddrKey} {net : NetworkType} {ts : Int}
    {st : NodeState} {n : Nat} (hnew : s.entry k = none)
    (hst : st = .queued ∨ st = .staleDiscarded) (k' : AddrKey) :
    ViewStep s ({ s with entries := n }.insertEntry k (.new net ts st)) k' id := by
  unfold ViewStep
  rw [NodeStore.viewOf_insertEntry]
  by_cases hk : k' = k
  · subst hk
    rw [if_pos rfl, NodeStore.viewOf, hnew]
    exact .inr ⟨.new hst, fun _ => rfl⟩
  · rw [if_neg hk, Option.map_id]
    exact .inl rfl

theorem enqueueStep_writes (H : Digests) (sh : Shared) (k : AddrKey) (e : EnqueuePc) (k' : AddrKey) :
    ViewStep sh.store (enqueueStep H sh k e).1.store k' fun v => if k = k' then e.rewrites v else v := by
  have hsame : ∀ {sh' : Shared}, sh'.store.map = sh.store.map → (e.rewrites = fun v => v) →
      ViewStep sh.store sh'.store k' fun v => if k = k' then e.rewrites v else v := by
    intro sh' hmap hw
    have hid : (fun v => if k = k' then e.rewrites v else v) = id := by
      funext v
      simp only [hw, ite_self, id]
    rw [hid]
    exact viewStep_same (fun x => by unfold NodeStore.entry; rw [hmap]) k'
  cases e with
  | send t =>
    simp only [enqueueStep]
    split
    · rename_i hsend
      obtain ⟨-, -, rfl⟩ := Shared.trySend_some hsend
      exact hsame rfl rfl
    · exact hsame rfl rfl
  | discard => exact viewStep_write _ _ _ fun _ => rfl
  | _ => exact hsame rfl rfl

theorem finishStep_writes (sh : Shared) (k : AddrKey) (f : FinishPc) (k' : AddrKey) :
    ViewStep sh.store (finishStep sh k f).1.store k' fun v => if k = k' then f.rewrites v else v := by
  have hsame : ∀ {sh' : Shared}, sh'.store.map = sh.store.map →
      (∀ e, sh.store.entry k = some e → f.rewrites e.view = e.view) →
      ViewStep sh.store sh'.store k' fun v => if k = k' then f.rewrites v else v := by
    intro sh' hmap hw
    refine .inl ?_
    unfold NodeStore.viewOf NodeStore.entry
    rw [hmap, Option.map_map]
    refine Option.map_congr fun e he => ?_
    by_cases hk : k = k'
    · subst hk
      simp only [Function.comp, if_true]
      exact (hw e he).symm
    · simp only [Function.comp, if_neg hk]
  cases f with
  | write terminal reason =>
    simp only [finishStep]
    split
    · rename_i hnone
      exact hsame rfl fun e he => by rw [hnone] at he; cases he
    · rename_i e he
      split
      · rename_i hactive
        refine .inl ?_
        by_cases hk : k = k'
        · subst hk
          unfold NodeStore.viewOf
          rw [Shared.writeEntry_store, NodeStore.entry_withEntry_self, he]
          simp only [Option.map_some, if_true]
          exact congrArg some (if_pos hactive).symm
        · unfold NodeStore.viewOf
          rw [Shared.writeEntry_store, NodeStore.entry_withEntry_ne _ _ _ (Ne.symm hk), Option.map_map]
          simp only [Function.comp_def, if_neg hk]
      · rename_i hactive
        exact hsame rfl fun e' he' => by
          rw [he] at he'
          cases he'
          exact if_neg hactive
  | _ => exact hsame rfl fun _ _ => rfl

theorem frontierUpsert_view (s : NodeStore) (k : AddrKey) (ts : Int) (net : NetworkType)
    (thr now : Int) (k' : AddrKey) : ViewStep s (s.frontierUpsert k ts net thr now).1 k' id := by
  have hc := s.frontierUpsert_cases k ts net thr now
  generalize (s.frontierUpsert k ts net thr now).1 = s' at hc ⊢
  generalize (s.frontierUpsert k ts net thr now).2 = out at hc
  cases hc with
  | refreshed => exact viewStep_keep _ _ _ fun _ => rfl
  | @revived e he hst =>
    by_cases hk : k' = k
    · subst hk
      have hview : s.viewOf k' = some (.staleDiscarded, e.stats) := by
        unfold NodeStore.viewOf
        rw [he, Option.map_some, NodeEntry.view, hst]
      unfold ViewStep
      have hview' : (s.withEntry k' (NodeStore.revive ts)).viewOf k' = some (.queued, e.stats) := by
        unfold NodeStore.viewOf
        rw [NodeStore.entry_withEntry_self, he]
        rfl
      rw [hview, hview']
      exact .inr ⟨.revived e.stats, fun _ => rfl⟩
    · refine .inl ?_
      unfold NodeStore.viewOf
      rw [NodeStore.entry_withEntry_ne _ _ _ hk, Option.map_id, id]
  | rejected => exact viewStep_same (fun _ => rfl) k'
  | parked he => exact viewStep_insert he (.inr rfl) k'
  | discovered he => exact viewStep_insert he (.inl rfl) k'

theorem observeSeed_view (H : Digests) (s : NodeStore) (k : AddrKey) (now : Int) (k' : AddrKey) :
    ViewStep s (s.observeSeed H k now).1 k' id := by
  have hc := s.observeSeed_cases H k now
  generalize (s.observeSeed H k now).1 = s' at hc ⊢
  generalize (s.observeSeed H k now).2 = new at hc
  cases hc with
  | refreshed => exact viewStep_keep _ _ _ fun _ => rfl
  | rejected => exact viewStep_same (fun _ => rfl) k'
  | discovered he => exact viewStep_insert he (.inl rfl) k'

/-- A step that leaves the entries to the store, at a position that writes nothing. -/
theorem ViewStep.idle {s s' : NodeStore} {k : AddrKey} {g : EntryView → EntryView} (h : ViewStep s s' k id)
    (hg : ∀ v, g v = v) : ViewStep s s' k g := by
  rwa [show g = id from funext hg]

theorem taskStep_writes {S : Setup} {sh sh' : Shared} {t : Transport} {k : AddrKey} {a : Answer}
    {p : TaskPc} {next : Option TaskPc} (h : taskStep S sh t k a p = some (sh', next))
    (k' : AddrKey) : ViewStep sh.store sh'.store k' ((Pc.worker t (.task k p)).rewrites k') := by
  have hidle : ViewStep sh.store sh'.store k' id → (∀ v, (Pc.worker t (.task k p)).rewrites k' v = v) →
      ViewStep sh.store sh'.store k' ((Pc.worker t (.task k p)).rewrites k') := ViewStep.idle
  have hnone : ∀ v : EntryView, (if k = k' then v else v) = v := fun v => ite_self v
  cases p with
  | count | connected | firstVersion | malformedCount | breakdown | messageDone | outcomeWrite
    | requeueing =>
    cases h
    exact viewStep_write _ _ _ fun _ => rfl
  | upserting c count now rest =>
    cases rest with
    | nil => cases h; exact hidle (viewStep_same (fun _ => rfl) k') hnone
    | cons addr rest =>
      cases h
      exact hidle (frontierUpsert_view sh.store ⟨addr.host, addr.port⟩ addr.timestamp addr.network
        S.settings.freshnessThreshold now k') hnone
  | enqueueing c count now rest key e =>
    cases h
    exact enqueueStep_writes S.digests sh key e k'
  | abandoning f | finishing f => cases h; exact finishStep_writes sh k f k'
  | resending terminal kind =>
    simp only [taskStep] at h
    split at h
    · rename_i hsend
      obtain ⟨-, -, rfl⟩ := Shared.trySend_some hsend
      cases h
      exact hidle (viewStep_same (fun _ => rfl) k') hnone
    · cases h; exact hidle (viewStep_same (fun _ => rfl) k') hnone
  | malformedLog c call | blockLog c parsed now call | outcomeLog c call =>
    obtain ⟨hsh, -⟩ := logStep_effect h
    exact hidle (viewStep_same (fun _ => by rw [hsh]) k') hnone
  | connecting | sendVersion | handshaking | collecting | malformedGuard | messageGuard
    | outcomeGuard | shuffling =>
    simp only [taskStep] at h
    split at h <;> cases h <;> exact hidle (viewStep_same (fun _ => rfl) k') hnone
  | begin | everConnected | getaddr | malformedMark | malformedRelease | blockFailed | blockMark
    | outcomeMark | outcomeRelease =>
    cases h; exact hidle (viewStep_same (fun _ => rfl) k') hnone
  | connectFailed | connectedAttempt | versionSent | handshakeTimeout | handshakeFailed | handshaken
    | completing =>
    cases h; exact hidle (viewStep_keep _ _ _ fun _ => rfl) hnone

theorem loopStep_writes {S : Setup} {sh sh' : Shared} {t : Transport} {p p' : WorkerPc}
    (h : loopStep S sh t p = some (sh', p')) (k' : AddrKey) :
    ViewStep sh.store sh'.store k' ((Pc.worker t p).rewrites k') := by
  cases loopStep_cases h with
  | @discard k f | @discarded k f | @crashFinish k f | @crashFinished k f =>
    exact finishStep_writes sh k f k'
  | start => exact viewStep_write _ _ _ fun _ => rfl
  | _ => exact viewStep_same (fun _ => rfl) k'

theorem mainStep_writes {S : Setup} {sh sh' : Shared} {a : Answer} {p p' : MainPc}
    (h : mainStep S sh a p = some (sh', p')) (k' : AddrKey) :
    ViewStep sh.store sh'.store k' ((Pc.main p).rewrites k') := by
  cases p with
  | seeding rest =>
    cases rest with
    | nil => cases h; exact viewStep_same (fun _ => rfl) k'
    | cons k rest => cases h; exact observeSeed_view S.digests sh.store k S.seedTime k'
  | seedEnqueue rest k e => cases h; exact enqueueStep_writes S.digests sh k e k'
  | joining joined =>
    simp only [mainStep] at h
    split at h
    · cases h; exact viewStep_same (fun _ => rfl) k'
    · split at h <;> split at h <;> cases h <;> exact viewStep_same (fun _ => rfl) k'
  | awaitSignals | awaitCheckpoint | stopping | writing =>
    simp only [mainStep] at h
    split at h <;> cases h <;> exact viewStep_same (fun _ => rfl) k'
  | flushing r call =>
    obtain ⟨hsh, -⟩ := logStep_effect h
    exact viewStep_same (fun _ => by rw [hsh]) k'
  | finished => cases h
  | _ => cases h; exact viewStep_same (fun _ => rfl) k'

/-- The answer can be a panic of the thread. -/
def Pc.mayPanic : Pc → Bool
  | .worker .. => true
  | _ => false

/-- **What a step does to the state and the statistics of an entry** is what the thread at its
    position writes, unless it panics. -/
theorem program_view {S : Setup} {sh sh' : Shared} {pc pc' : Pc} {a : Answer}
    (h : program S sh pc a = some (sh', pc')) (k : AddrKey) :
    ViewStep sh.store sh'.store k fun v => if pc.mayPanic && a.panic then v else pc.rewrites k v := by
  rcases program_cases h with ⟨p, p', rfl, rfl, hs⟩ | ⟨p, p', rfl, rfl, hs⟩ | ⟨p, p', rfl, rfl, hs⟩ |
    ⟨L, rfl, rfl, hs, rfl⟩ | ⟨t, p, p', rfl, rfl, hs⟩
  · exact mainStep_writes hs k
  · obtain ⟨_, _, _, _, rfl⟩ := signalStep_frame hs
    exact viewStep_same (fun _ => rfl) k
  · obtain ⟨_, _, _, _, _, rfl⟩ := checkpointStep_frame hs
    exact viewStep_same (fun _ => rfl) k
  · exact viewStep_same (fun _ => rfl) k
  · rcases workerStep_cases hs with ⟨key, q, rfl, hpanic, rfl, rfl⟩ |
      ⟨key, q, next, rfl, hcalm, hstep, rfl⟩ | ⟨-, -, -, hpanic, rfl, rfl⟩ | ⟨-, -, hcalm, hstep⟩
    · rw [hpanic]
      exact viewStep_same (fun _ => rfl) k
    · rw [hcalm]
      exact taskStep_writes hstep k
    · rw [hpanic]
      exact viewStep_same (fun _ => rfl) k
    · rw [hcalm]
      exact loopStep_writes hstep k

/-! ## Statistics -/

theorem FinishPc.writes_stats (f : FinishPc) (v : EntryView) : (f.rewrites v).2 = v.2 := by
  cases f with
  | write terminal reason =>
    simp only [rewrites]
    split <;> rfl
  | _ => rfl

theorem EnqueuePc.writes_stats (e : EnqueuePc) (v : EntryView) : (e.rewrites v).2 = v.2 := by
  cases e <;> rfl

theorem Pc.writes_stats (pc : Pc) (k : AddrKey) (v : EntryView) : (pc.rewrites k v).2 = pc.counts k v.2 := by
  cases pc with
  | main p =>
    cases p with
    | seedEnqueue rest key e =>
      simp only [rewrites, counts]
      split
      · exact e.writes_stats v
      · rfl
    | _ => rfl
  | worker t p =>
    cases p with
    | task key p =>
      by_cases hk : key = k
      · cases p with
        | enqueueing c count now rest a e =>
          simp only [rewrites, counts, if_pos hk]
          split
          · exact e.writes_stats v
          · rfl
        | abandoning f | finishing f =>
          simp only [rewrites, counts, if_pos hk]
          exact f.writes_stats v
        | _ =>
          simp only [rewrites, counts, if_pos hk]
          rfl
      · cases p with
        | enqueueing c count now rest a e =>
          simp only [rewrites, counts, if_neg hk]
          split
          · exact e.writes_stats v
          · rfl
        | _ => simp only [rewrites, counts, if_neg hk]
    | discarding key f | crashedFinish key f =>
      simp only [rewrites, counts]
      split
      · exact f.writes_stats v
      · rfl
    | starting key =>
      simp only [rewrites, counts]
      split <;> rfl
    | _ => rfl
  | _ => rfl

/-- **What a step does to the statistics of an entry** is what the task at its position writes. -/
theorem program_stats {S : Setup} {sh sh' : Shared} {pc pc' : Pc} {a : Answer}
    (h : program S sh pc a = some (sh', pc')) (k : AddrKey) :
    sh'.store.statsOf k = (sh.store.statsOf k).map (fun x => if a.panic then x else pc.counts k x) ∨
      sh.store.statsOf k = none ∧ sh'.store.statsOf k = some {} := by
  rw [NodeStore.statsOf_eq_view, NodeStore.statsOf_eq_view]
  have hstats : ∀ v : EntryView, (if pc.mayPanic && a.panic then v else pc.rewrites k v).2 =
      if a.panic then v.2 else pc.counts k v.2 := by
    intro v
    cases hpanic : a.panic with
    | false =>
      simp only [Bool.and_false]
      exact pc.writes_stats k v
    | true =>
      cases pc with
      | main p => exact (Pc.main p).writes_stats k v
      | _ => rfl
  rcases program_view h k with heq | happ
  · refine .inl ?_
    rw [heq, Option.map_map, Option.map_map]
    exact Option.map_congr fun v _ => hstats v
  · obtain ⟨happ, hidle⟩ := happ
    generalize sh.store.viewOf k = v at happ ⊢
    generalize sh'.store.viewOf k = v' at happ ⊢
    cases happ with
    | new hst => exact .inr ⟨rfl, rfl⟩
    | revived x => exact .inl (congrArg some (hstats (.staleDiscarded, x) ▸ congrArg Prod.snd (hidle _)).symm)

end P2PCrawler
