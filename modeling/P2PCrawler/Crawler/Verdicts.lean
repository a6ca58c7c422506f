import P2PCrawler.Crawler.Cap
import P2PCrawler.Crawler.Meters
import P2PCrawler.Lib.Potential

/-!
# Entries move forward, and verdicts are final

An entry is parked as stale, is in work, or is settled.  Every task writes to the entries, a worker
that cleans up after a panic included, and a key that is advertised again is looked up again.

* `NodeEntry.Grows` — what every write keeps: the network, the timestamps and counters so far, and
  the attempts that are over.
* `NodeEntry.Leads` — besides, the entry does not move back, and what is settled stays as it is.
* `settled_kept` — no step touches a settled entry but for its timestamp.

## Results

* `verdicts_final` — **from any state of any run on, every entry moves forward, and its verdict is
  final.**
-/

set_option autoImplicit false

namespace P2PCrawler

open ThreadPool

/-! ## Growth -/

/-- The counters do not go back, and what was measured stays measured. -/
structure NodeStats.Le (x y : NodeStats) : Prop where
  attempts : x.handshakeAttempts ≤ y.handshakeAttempts
  total : x.advertisedTotal ≤ y.advertisedTotal
  advertised : ∀ net, x.advertisedOf net ≤ y.advertisedOf net
  valid : x.validAddrMessages ≤ y.validAddrMessages
  malformed : x.malformedAddrMessages ≤ y.malformedAddrMessages
  connected : x.timeConnectMs ≠ none → y.timeConnectMs ≠ none
  firstVersion : ∀ ts, x.firstVersionSendTs = some ts → y.firstVersionSendTs = some ts

namespace NodeStats

theorem Le.refl (x : NodeStats) : x.Le x :=
  ⟨le_refl _, le_refl _, fun _ => le_refl _, le_refl _, le_refl _, id, fun _ => id⟩

theorem Le.trans {x y z : NodeStats} (h : x.Le y) (h' : y.Le z) : x.Le z where
  attempts := h.attempts.trans h'.attempts
  total := h.total.trans h'.total
  advertised net := (h.advertised net).trans (h'.advertised net)
  valid := h.valid.trans h'.valid
  malformed := h.malformed.trans h'.malformed
  connected hx := h'.connected (h.connected hx)
  firstVersion ts hx := h'.firstVersion ts (h.firstVersion ts hx)

end NodeStats

/-- Every write to an entry keeps this: only the last attempt is still open. -/
structure NodeEntry.Grows (e e' : NodeEntry) : Prop where
  network : e'.network = e.network
  freshestTs : e.freshestTs ≤ e'.freshestTs
  stats : e.stats.Le e'.stats
  attempts : e.attempts.dropLast <+: e'.attempts.dropLast
  handshake : e.handshake.isSome = true → e'.handshake.isSome = true

namespace NodeEntry

theorem Grows.refl (e : NodeEntry) : e.Grows e :=
  ⟨rfl, le_refl _, .refl _, List.prefix_refl _, id⟩

theorem Grows.trans {e e' e'' : NodeEntry} (h : e.Grows e') (h' : e'.Grows e'') : e.Grows e'' where
  network := h'.network.trans h.network
  freshestTs := h.freshestTs.trans h'.freshestTs
  stats := h.stats.trans h'.stats
  attempts := h.attempts.trans h'.attempts
  handshake hd := h'.handshake (h.handshake hd)

/-- A write to the counters alone. -/
theorem Grows.of_stats {e : NodeEntry} {x : NodeStats} (h : e.stats.Le x) :
    e.Grows { e with stats := x } :=
  ⟨rfl, le_refl _, h, List.prefix_refl _, id⟩

/-- A write that leaves the timestamp, the counters and the attempts alone. -/
theorem Grows.of_same {e e' : NodeEntry} (hnet : e'.network = e.network)
    (hts : e'.freshestTs = e.freshestTs) (hstats : e'.stats = e.stats)
    (hattempts : e'.attempts = e.attempts)
    (hshake : e.handshake.isSome = true → e'.handshake.isSome = true) : e.Grows e' :=
  ⟨hnet, hts.ge, hstats ▸ .refl _, hattempts ▸ List.prefix_refl _, hshake⟩

end NodeEntry

theorem startAttempt_grows (e : NodeEntry) : e.Grows (startAttempt e) where
  network := rfl
  freshestTs := le_refl _
  stats := { NodeStats.Le.refl e.stats with attempts := Nat.le_succ _ }
  attempts := by
    simp only [startAttempt, List.dropLast_concat]
    exact List.dropLast_prefix _
  handshake := id

theorem updateAttempt_grows (outcome : AttemptOutcome) (failure : Option FailKind)
    (connectMs : Option Nat) (sentTs : Option Int) (e : NodeEntry) :
    e.Grows (updateAttempt outcome failure connectMs sentTs e) where
  network := rfl
  freshestTs := le_refl _
  stats := .refl _
  attempts := by
    -- only the last attempt is rewritten
    rcases List.eq_nil_or_concat e.attempts with hnil | ⟨prior, last, hlast⟩
    · simp [hnil]
    · simp only [updateAttempt, hlast, List.concat_eq_append, List.modifyLast_concat,
        List.dropLast_concat]
      exact List.prefix_refl _
  handshake := id

/-- A message leaves alone what is not counted by address. -/
theorem recordMessage_measured (parsed : ParsedAddrMessage) (x : NodeStats) :
    (recordMessage parsed x).handshakeAttempts = x.handshakeAttempts ∧
      (recordMessage parsed x).timeConnectMs = x.timeConnectMs ∧
      (recordMessage parsed x).firstVersionSendTs = x.firstVersionSendTs := by
  have hone : ∀ (x : NodeStats) (net : NetworkType),
      (x.recordAdvertised net).handshakeAttempts = x.handshakeAttempts ∧
        (x.recordAdvertised net).timeConnectMs = x.timeConnectMs ∧
        (x.recordAdvertised net).firstVersionSendTs = x.firstVersionSendTs :=
    fun x net => by cases net <;> exact ⟨rfl, rfl, rfl⟩
  have hfold : ∀ (addrs : List AdvertisedAddr) (x : NodeStats),
      (addrs.foldl (fun s a => s.recordAdvertised a.network) x).handshakeAttempts =
          x.handshakeAttempts ∧
        (addrs.foldl (fun s a => s.recordAdvertised a.network) x).timeConnectMs = x.timeConnectMs ∧
        (addrs.foldl (fun s a => s.recordAdvertised a.network) x).firstVersionSendTs =
          x.firstVersionSendTs := by
    intro addrs
    induction addrs with
    | nil => exact fun x => ⟨rfl, rfl, rfl⟩
    | cons a addrs ih =>
      intro x
      obtain ⟨h₁, h₂, h₃⟩ := ih (x.recordAdvertised a.network)
      obtain ⟨g₁, g₂, g₃⟩ := hone x a.network
      exact ⟨h₁.trans g₁, h₂.trans g₂, h₃.trans g₃⟩
  exact hfold parsed.addrs x

theorem recordMessage_le (parsed : ParsedAddrMessage) (x : NodeStats) :
    x.Le (recordMessage parsed x) where
  attempts := (recordMessage_measured parsed x).1.ge
  total := by
    rw [(recordMessage_counters parsed x).1]
    exact Nat.le_add_right _ _
  advertised net := by
    rw [recordMessage_advertisedOf]
    exact Nat.le_add_right _ _
  valid := (recordMessage_counters parsed x).2.2.1.ge
  malformed := (recordMessage_counters parsed x).2.2.2.ge
  connected hx := by rwa [(recordMessage_measured parsed x).2.1]
  firstVersion ts hts := by rwa [(recordMessage_measured parsed x).2.2]

/-! ## What every step keeps of the entries -/

/-- The entries stay and grow. -/
def NodeStore.Grows (s s' : NodeStore) : Prop :=
  ∀ k e, s.entry k = some e → ∃ e', s'.entry k = some e' ∧ e.Grows e'

namespace NodeStore

variable {s s' : NodeStore}

theorem Grows.of_eq (h : s'.entry = s.entry) : s.Grows s' :=
  fun k e he => ⟨e, by rw [h]; exact he, .refl e⟩

theorem Grows.withEntry (s : NodeStore) (k : AddrKey) {f : NodeEntry → NodeEntry}
    (hf : ∀ e : NodeEntry, e.Grows (f e)) : s.Grows (s.withEntry k f) := by
  intro k' e he
  by_cases hk : k' = k
  · subst hk
    exact ⟨f e, by simp [he], hf e⟩
  · exact ⟨e, by rw [entry_withEntry_ne s k f hk]; exact he, .refl e⟩

theorem Grows.insertEntry {k : AddrKey} {e : NodeEntry} {n : Nat} (hnew : s.entry k = none) :
    s.Grows ({ s with entries := n }.insertEntry k e) := by
  intro k' e' he'
  have hk : k' ≠ k := by
    rintro rfl
    rw [hnew] at he'
    cases he'
  exact ⟨e', by rw [entry_insertEntry, if_neg hk]; exact he', .refl e'⟩

theorem refresh_grows (ts : Int) (e : NodeEntry) : e.Grows (refresh ts e) :=
  ⟨rfl, le_max_left _ _, .refl _, List.prefix_refl _, id⟩

theorem revive_grows (ts : Int) (e : NodeEntry) : e.Grows (revive ts e) :=
  ⟨rfl, le_max_left _ _, .refl _, List.prefix_refl _, id⟩

theorem frontierUpsert_grows (s : NodeStore) (k : AddrKey) (ts : Int) (net : NetworkType)
    (thr now : Int) : s.Grows (s.frontierUpsert k ts net thr now).1 := by
  have hc := frontierUpsert_cases s k ts net thr now
  generalize (s.frontierUpsert k ts net thr now).1 = s' at hc ⊢
  generalize (s.frontierUpsert k ts net thr now).2 = out at hc
  cases hc with
  | refreshed => exact .withEntry s k (refresh_grows ts)
  | revived => exact .withEntry s k (revive_grows ts)
  | rejected => exact .of_eq rfl
  | parked hnew | discovered hnew => exact .insertEntry hnew

theorem observeSeed_grows (H : Digests) (s : NodeStore) (k : AddrKey) (now : Int) :
    s.Grows (s.observeSeed H k now).1 := by
  have hc := observeSeed_cases H s k now
  generalize (s.observeSeed H k now).1 = s' at hc ⊢
  generalize (s.observeSeed H k now).2 = out at hc
  cases hc with
  | refreshed => exact .withEntry s k (refresh_grows now)
  | rejected => exact .of_eq rfl
  | discovered hnew => exact .insertEntry hnew

end NodeStore

section Steps
variable {S : Setup} {sh sh' : Shared} {a : Answer}

theorem enqueueStep_grows (H : Digests) (sh : Shared) (k : AddrKey) (e : EnqueuePc) :
    sh.store.Grows (enqueueStep H sh k e).1.store := by
  cases e with
  | send t =>
    simp only [enqueueStep]
    split
    · rename_i sh' hsend
      obtain ⟨-, -, rfl⟩ := Shared.trySend_some hsend
      exact .of_eq rfl
    · exact .of_eq rfl
  | discard => exact .withEntry _ _ fun e => .of_same rfl rfl rfl rfl id
  | _ => exact .of_eq rfl

theorem finishStep_grows (sh : Shared) (k : AddrKey) (f : FinishPc) :
    sh.store.Grows (finishStep sh k f).1.store := by
  cases f with
  | write terminal reason =>
    simp only [finishStep]
    split
    · exact .of_eq rfl
    · split
      · exact .withEntry _ _ fun e => .of_same rfl rfl rfl rfl id
      · exact .of_eq rfl
  | _ => exact .of_eq rfl

theorem taskStep_grows {t : Transport} {k : AddrKey} {p : TaskPc} {next : Option TaskPc}
    (h : taskStep S sh t k a p = some (sh', next)) : sh.store.Grows sh'.store := by
  cases p with
  | count => cases h; exact .withEntry _ _ startAttempt_grows
  | connectFailed | connectedAttempt | versionSent | handshakeTimeout | handshakeFailed | completing =>
    cases h
    exact .withEntry _ _ (updateAttempt_grows _ _ _ _)
  | connected n ms =>
    cases h
    refine .withEntry _ _ fun e => .of_stats ?_
    exact { NodeStats.Le.refl e.stats with
      connected := fun _ => Option.some_ne_none _ }
  | firstVersion n sentTs =>
    cases h
    refine .withEntry _ _ fun e => .of_stats ?_
    exact { NodeStats.Le.refl e.stats with
      firstVersion := fun ts hts => by simp [hts] }
  | handshaken =>
    cases h
    exact .withEntry _ _ fun e => .of_same rfl rfl rfl rfl fun _ => rfl
  | requeueing =>
    cases h
    exact .withEntry _ _ fun e => .of_same rfl rfl rfl rfl id
  | malformedCount =>
    cases h
    refine .withEntry _ _ fun e => .of_stats ?_
    exact { NodeStats.Le.refl e.stats with malformed := Nat.le_succ _ }
  | breakdown c command parsed =>
    cases h
    exact .withEntry _ _ fun e => .of_stats (recordMessage_le parsed e.stats)
  | messageDone =>
    cases h
    refine .withEntry _ _ fun e => .of_stats ?_
    exact { NodeStats.Le.refl e.stats with valid := Nat.le_succ _ }
  | outcomeWrite c outcome =>
    cases h
    refine .withEntry _ _ fun e => .of_stats ?_
    exact { NodeStats.Le.refl e.stats with }
  | upserting c count now rest =>
    cases rest with
    | nil => cases h; exact .of_eq rfl
    | cons addr rest => cases h; exact sh.store.frontierUpsert_grows _ _ _ _ _
  | enqueueing c count now rest key e => cases h; exact enqueueStep_grows S.digests sh key e
  | abandoning f | finishing f => cases h; exact finishStep_grows sh k f
  | resending terminal kind =>
    simp only [taskStep] at h
    split at h
    · rename_i sh₁ hsend
      obtain ⟨-, -, rfl⟩ := Shared.trySend_some hsend
      cases h
      exact .of_eq rfl
    · cases h; exact .of_eq rfl
  | malformedLog c call | blockLog c parsed now call | outcomeLog c call =>
    obtain ⟨hsh, -⟩ := logStep_effect h
    rw [hsh]
    exact .of_eq rfl
  | connecting | sendVersion | handshaking | collecting | malformedGuard | messageGuard
    | outcomeGuard | shuffling =>
    simp only [taskStep] at h
    split at h <;> cases h <;> exact .of_eq rfl
  | _ => cases h; exact .of_eq rfl

theorem loopStep_grows {t : Transport} {p p' : WorkerPc} (h : loopStep S sh t p = some (sh', p')) :
    sh.store.Grows sh'.store := by
  cases loopStep_cases h with
  | start => exact .withEntry _ _ fun e => .of_same rfl rfl rfl rfl id
  | @discard k f | @discarded k f | @crashFinish k f | @crashFinished k f =>
    exact finishStep_grows sh k f
  | _ => exact .of_eq rfl

theorem mainStep_grows {p p' : MainPc} (h : mainStep S sh a p = some (sh', p')) :
    sh.store.Grows sh'.store := by
  cases p with
  | seeding rest =>
    cases rest with
    | nil => cases h; exact .of_eq rfl
    | cons k rest => cases h; exact sh.store.observeSeed_grows _ _ _
  | seedEnqueue rest k e => cases h; exact enqueueStep_grows S.digests sh k e
  | flushing r call =>
    obtain ⟨hsh, -⟩ := logStep_effect h
    rw [hsh]
    exact .of_eq rfl
  | joining joined =>
    simp only [mainStep] at h
    split at h
    · cases h; exact .of_eq rfl
    · split at h <;> split at h <;> cases h <;> exact .of_eq rfl
  | awaitSignals | stopping | awaitCheckpoint | writing =>
    simp only [mainStep] at h
    split at h <;> cases h <;> exact .of_eq rfl
  | finished => cases h
  | _ => cases h; exact .of_eq rfl

theorem program_grows {pc pc' : Pc} (h : program S sh pc a = some (sh', pc')) :
    sh.store.Grows sh'.store := by
  rcases program_cases h with ⟨p, p', rfl, rfl, hs⟩ | ⟨p, p', rfl, rfl, hs⟩ |
    ⟨p, p', rfl, rfl, hs⟩ | ⟨L, rfl, rfl, -, rfl⟩ | ⟨t, p, p', rfl, rfl, hs⟩
  · exact mainStep_grows hs
  · obtain ⟨_, _, _, _, rfl⟩ := signalStep_frame hs; exact .of_eq rfl
  · obtain ⟨_, _, _, _, _, rfl⟩ := checkpointStep_frame hs; exact .of_eq rfl
  · exact .of_eq rfl
  · rcases workerStep_cases hs with ⟨k, q, rfl, -, rfl, rfl⟩ | ⟨k, q, next, rfl, -, hstep, rfl⟩ |
      ⟨-, -, -, -, rfl, rfl⟩ | ⟨-, -, -, hstep⟩
    · exact .of_eq rfl
    · exact taskStep_grows hstep
    · exact .of_eq rfl
    · exact loopStep_grows hstep

end Steps

/-! ## Verdicts -/

/-- How far an entry has come: parked as stale, in work, settled. -/
def NodeState.stage : NodeState → Nat
  | .staleDiscarded => 0
  | .queued | .processing => 1
  | .reachable | .handshakeFailed | .unreachable | .budgetDiscarded => 2

theorem NodeState.settled_iff (st : NodeState) :
    st.stage = 2 ↔ st.active = false ∧ st ≠ .staleDiscarded := by
  cases st <;> decide

/-- The entry does not move back, and what is settled stays as it is. -/
structure NodeEntry.Leads (e e' : NodeEntry) : Prop extends e.Grows e' where
  forward : e.state.stage ≤ e'.state.stage
  final : e.state.stage = 2 → e' = { e with freshestTs := e'.freshestTs }

theorem NodeEntry.Leads.refl (e : NodeEntry) : e.Leads e := ⟨.refl e, le_refl _, fun _ => rfl⟩

theorem NodeEntry.Leads.trans {e e' e'' : NodeEntry} (h : e.Leads e') (h' : e'.Leads e'') :
    e.Leads e'' where
  toGrows := h.toGrows.trans h'.toGrows
  forward := h.forward.trans h'.forward
  final hst := by
    have heq := h.final hst
    have heq' := h'.final (by rw [heq]; exact hst)
    rw [heq', heq]

/-- A settled entry is not touched but for its timestamp. -/
theorem settled_kept {S : Setup} {c : Conf Shared Pc} {i : Nat} {pc pc' : Pc} {sh' : Shared}
    {a : Answer} (hg : Grasped c) (hpc : c.threads[i]? = some pc)
    (hp : program S c.shared pc a = some (sh', pc')) {k : AddrKey} {e : NodeEntry}
    (he : c.shared.store.entry k = some e) (hst : e.state.stage = 2) :
    ∃ ts, e.freshestTs ≤ ts ∧ sh'.store.entry k = some { e with freshestTs := ts } := by
  obtain ⟨hactive, hstale⟩ := e.state.settled_iff.mp hst
  -- no task holds a settled key as one in work
  have hno : ∀ {k' : AddrKey} {st : NodeState}, c.shared.store.stateOf k' = some st →
      st.active = true ∨ st = .staleDiscarded → k ≠ k' := by
    rintro k' st hk' hst' rfl
    rw [NodeStore.stateOf, he, Option.map_some, Option.some.injEq] at hk'
    subst hk'
    rcases hst' with hst' | hst'
    · rw [hst'] at hactive; cases hactive
    · exact hstale hst'
  have hsame : ∀ {s : NodeStore}, s.entry k = c.shared.store.entry k →
      ∃ ts, e.freshestTs ≤ ts ∧ s.entry k = some { e with freshestTs := ts } :=
    fun heq => ⟨e.freshestTs, le_refl _, by rw [heq, he]⟩
  have hwrite : ∀ {k' : AddrKey} {f : NodeEntry → NodeEntry}, k ≠ k' →
      ∃ ts, e.freshestTs ≤ ts ∧
        (c.shared.store.withEntry k' f).entry k = some { e with freshestTs := ts } :=
    fun hk => hsame (NodeStore.entry_withEntry_ne _ _ _ hk)
  have hinsert : ∀ {k' : AddrKey} {e' : NodeEntry} {n : Nat}, c.shared.store.entry k' = none →
      ∃ ts, e.freshestTs ≤ ts ∧ ({ c.shared.store with entries := n }.insertEntry k' e').entry k =
        some { e with freshestTs := ts } := by
    intro k' e' n hnew
    refine hsame ?_
    rw [NodeStore.entry_insertEntry, if_neg]
    · rfl
    · rintro rfl
      rw [hnew] at he
      cases he
  have hmem := List.mem_of_getElem? hpc
  by_cases hcrashed : pc.crashed = true
  · -- a worker that cleans up writes to an entry in work only
    obtain ⟨t, p, rfl, hp'⟩ : ∃ t p, pc = .worker t p ∧ ∀ k q, p ≠ .task k q := by
      cases pc with
      | worker t p =>
        refine ⟨t, p, rfl, ?_⟩
        rintro k q rfl
        cases hcrashed
      | _ => cases hcrashed
    rcases loop_or_die hp hp' with ⟨-, hstore, -⟩ | ⟨-, p', -, hstep⟩
    · rw [hstore]
      exact hsame rfl
    · cases p with
      | crashed | crashedShutdown => cases hstep; exact hsame rfl
      | crashedFinish k' f =>
        cases hstep
        cases f with
        | write terminal reason =>
          simp only [finishStep]
          split
          · exact hsame rfl
          · rename_i e' he'
            split
            · rename_i hact
              exact hwrite (@hno _ e'.state (by rw [NodeStore.stateOf, he']; rfl) (.inl hact))
            · exact hsame rfl
        | _ => exact hsame rfl
      | _ => cases hcrashed
  · have hown := hg.owns pc hmem (by simpa using hcrashed)
    have hact := pc.held_active
    have heff := step_effect hp
    generalize pc.held = h at heff hown hact
    generalize pc'.held = h' at heff
    cases heff with
    | aside hs | close hs | forfeit _ hs => rw [hs]; exact hsame rfl
    | write hk => exact hwrite (hno (hown _ hk) (.inl rfl))
    | @refresh o =>
      by_cases hk : k = o.key
      · subst hk
        exact ⟨max e.freshestTs o.ts, le_max_left _ _, by simp [he, NodeStore.refresh]⟩
      · exact hwrite hk
    | reject | incr | decr | push | pop => exact hsame rfl
    | park _ hnew | discover _ hnew => exact hinsert hnew
    | revive _ hk => exact hwrite (hno hk (.inr rfl))
    | switch | settle =>
      exact hwrite (hno (hown _ List.mem_cons_self) (.inl (hact _ List.mem_cons_self)))

/-- What one step does to an entry. -/
theorem step_leads {S : Setup} {ok : Conf Shared Pc → Nat × Answer → Prop} {c c' : Conf Shared Pc}
    {a : Nat × Answer} (hr : Reach (program S) ok (start S) c) (hst : step (program S) c a = some c')
    {k : AddrKey} {e : NodeEntry} (he : c.shared.store.entry k = some e) :
    ∃ e', c'.shared.store.entry k = some e' ∧ e.Leads e' := by
  obtain ⟨pc, sh', pc', hpc, hp, rfl⟩ := step_cases hst
  by_cases hset : e.state.stage = 2
  · obtain ⟨ts, hts, he'⟩ := settled_kept (grasped hr) hpc hp he hset
    exact ⟨_, he', ⟨⟨rfl, hts, .refl _, List.prefix_refl _, id⟩, le_refl _, fun _ => rfl⟩⟩
  · obtain ⟨e', he', hgrows⟩ := program_grows hp k e he
    refine ⟨e', he', hgrows, ?_, fun h => absurd h hset⟩
    by_cases hstale : e.state = .staleDiscarded
    · rw [hstale]
      exact Nat.zero_le _
    · have hstate : c.shared.store.stateOf k = some e.state := by rw [NodeStore.stateOf, he]; rfl
      obtain ⟨st', hst', hne⟩ := (step_effect hp).not_stale hstate hstale
      rw [NodeStore.stateOf, he', Option.map_some, Option.some.injEq] at hst'
      subst hst'
      revert hset hne
      cases e.state <;> cases e'.state <;> simp [NodeState.stage]

/-- **Verdicts are final.**  From any state of any run on, every entry stays and moves forward: its
    network does not change, its timestamp and counters do not go back, an attempt that is over is
    not rewritten, a completed handshake is not taken back, and once settled it keeps everything but
    its timestamp. -/
theorem verdicts_final {S : Setup} {c c' : Conf Shared Pc}
    (hr : Reachable (program S) (start S) c) (hr' : Reachable (program S) c c') {k : AddrKey}
    {e : NodeEntry} (he : c.shared.store.entry k = some e) :
    ∃ e', c'.shared.store.entry k = some e' ∧ e.Leads e' := by
  refine hr'.invariant (I := fun c' => ∃ e', c'.shared.store.entry k = some e' ∧ e.Leads e')
    ⟨e, he, .refl e⟩ ?_
  rintro c₁ a c₂ hr₁ ⟨e₁, he₁, hleads⟩ - hst
  obtain ⟨e₂, he₂, hstep⟩ := step_leads (hr.trans hr₁) hst he₁
  exact ⟨e₂, he₂, hleads.trans hstep⟩

/-- The node of `solo` keeps its verdict to the end of the run. -/
theorem verdicts_final_solo : ∃ c c' e e', Reachable (program solo) (start solo) c ∧
    Reachable (program solo) c c' ∧ c'.shared.exitCode = some .success ∧
    c.shared.store.entry ⟨"192.0.2.1", 8333⟩ = some e ∧ e.state = .unreachable ∧
    c'.shared.store.entry ⟨"192.0.2.1", 8333⟩ = some e' ∧ e.Leads e' := by
  have hrun : (exec (program solo) panicFree (start solo) soloRun).bind (fun c =>
      (c.shared.store.entry ⟨"192.0.2.1", 8333⟩).bind fun e =>
        (exec (program solo) panicFree c (steps 4 4 ++ steps 0 9)).map fun c' =>
          (e.state, c'.shared.exitCode)) = some (.unreachable, some .success) := by
    decide
  obtain ⟨c, hc, heq⟩ := Option.bind_eq_some_iff.mp hrun
  obtain ⟨e, he, heq⟩ := Option.bind_eq_some_iff.mp heq
  obtain ⟨c', hc', heq⟩ := Option.map_eq_some_iff.mp heq
  simp only [Prod.mk.injEq] at heq
  have hr := (exec_reach hc).reachable
  have hr' := (exec_reach hc').reachable
  obtain ⟨e', he', hleads⟩ := verdicts_final hr hr' he
  exact ⟨c, c', e, e', hr, hr', heq.2, he, heq.1, he', hleads⟩

end P2PCrawler
