import P2PCrawler.Crawler.Replay
import P2PCrawler.Crawler.Cap

/-!
# Every undisturbed crawl is a sweep

The invariant of a run whose peers answer as a sweep says, over all interleavings of the workers.
Everything an observation adds to the store is sighted by the sweep, and what a finished node
advertises is noted before its state is written; so nothing is missing once nothing is active.

* `Sweep.Stored` — what holds of an entry; `Pc.Replays` — what every task knows.
* `sweeps` — both hold in every state of an undisturbed run.
* `sweep_result` — a run that ends because no work is outstanding ends in the result of the sweep.
* `sweep_order_independent` — **any two such runs end in the same store**.
* `sweep_monotone` — a run that is told more finds no less.
-/

set_option autoImplicit false

namespace P2PCrawler

open ThreadPool

/-! ## The entries of a sweep -/

/-- What holds of the entry of a key in a run of the sweep. -/
structure Sweep.Stored (w : Sweep) (N : AdvertisedAddr → Prop) (k : AddrKey) (e : NodeEntry) :
    Prop where
  sighted : w.Sighted k e.freshestTs
  swept : e.state ≠ .staleDiscarded → w.Swept k
  parked : e.state = .staleDiscarded → ¬w.Fresh e.freshestTs ∧ k ∉ w.seeds
  queued : e.state = .queued → w.Due k (e.history.tried.count + 1) e.history.tried
  ended : e.state.active = false → e.state ≠ .staleDiscarded →
    w.Ended N k e.state e.failure e.history.tried.count

/-- Every entry is one of the sweep. -/
def Sweep.StoreOk (w : Sweep) (N : AdvertisedAddr → Prop) (s : NodeStore) : Prop :=
  ∀ k e, s.entry k = some e → w.Stored N k e

namespace Sweep

section Entries
variable {w : Sweep} {N N' : AdvertisedAddr → Prop} {s : NodeStore} {k : AddrKey}

theorem Stored.mono {e : NodeEntry} (h : w.Stored N k e) (hN : ∀ a, N a → N' a) : w.Stored N' k e :=
  ⟨h.sighted, h.swept, h.parked, h.queued, fun hact hst => (h.ended hact hst).mono hN⟩

theorem StoreOk.mono (h : w.StoreOk N s) (hN : ∀ a, N a → N' a) : w.StoreOk N' s :=
  fun k e he => (h k e he).mono hN

theorem StoreOk.same {s' : NodeStore} (h : w.StoreOk N s) (he : s'.entry = s.entry) :
    w.StoreOk N s' := by
  intro k e hk
  rw [he] at hk
  exact h k e hk

theorem StoreOk.write (h : w.StoreOk N s) {f : NodeEntry → NodeEntry}
    (hf : ∀ e, s.entry k = some e → w.Stored N k (f e)) : w.StoreOk N (s.withEntry k f) := by
  intro k' e hk
  rw [NodeStore.entry_withEntry] at hk
  split at hk
  · rename_i heq
    subst heq
    obtain ⟨e₀, he₀, rfl⟩ := Option.map_eq_some_iff.mp hk
    exact hf e₀ he₀
  · exact h k' e hk

theorem StoreOk.insert (h : w.StoreOk N s) {e : NodeEntry} {n : Nat} (he : w.Stored N k e) :
    w.StoreOk N ({ s with entries := n }.insertEntry k e) := by
  intro k' e' hk
  rw [NodeStore.entry_insertEntry] at hk
  split at hk
  · rename_i heq; subst heq; cases hk; exact he
  · exact h k' e' hk

/-- An entry that is being processed promises little. -/
theorem StoreOk.processing (h : w.StoreOk N s) {f : NodeEntry → NodeEntry}
    (hst : ∀ e, s.entry k = some e → e.state ≠ .staleDiscarded)
    (hf : ∀ e, s.entry k = some e → (f e).state = .processing)
    (hts : ∀ e, (f e).freshestTs = e.freshestTs) : w.StoreOk N (s.withEntry k f) := by
  refine h.write fun e he => ?_
  have hnew := hf e he
  have hno : ∀ {st : NodeState}, st ≠ .processing → (f e).state ≠ st := by
    intro st hne heq
    exact hne (heq.symm.trans hnew)
  refine ⟨?_, fun _ => (h k e he).swept (hst e he), fun hs => ?_, fun hq => ?_, fun hact => ?_⟩
  · rw [hts]; exact (h k e he).sighted
  · exact absurd hs (hno (fun h => by cases h))
  · exact absurd hq (hno (fun h => by cases h))
  · rw [hnew] at hact; cases hact

/-- An observation at a sighted timestamp leaves an entry in order that is not stale. -/
theorem Stored.refresh {e : NodeEntry} (h : w.Stored N k e) {ts : Int} (hts : w.Sighted k ts)
    (hstale : e.state = .staleDiscarded → ¬w.Fresh (max e.freshestTs ts)) :
    w.Stored N k (NodeStore.refresh ts e) := by
  refine ⟨?_, h.swept, fun hs => ⟨hstale hs, (h.parked hs).2⟩, h.queued, h.ended⟩
  show w.Sighted k (max e.freshestTs ts)
  rcases max_choice e.freshestTs ts with hmax | hmax <;> rw [hmax]
  · exact h.sighted
  · exact hts

/-- A key that is stored for the first time, or queued for the first time. -/
theorem stored_queued {e : NodeEntry} (hts : w.Sighted k e.freshestTs) (hk : w.Swept k)
    (hst : e.state = .queued) (hu : e.history.Untried) : w.Stored N k e := by
  refine ⟨hts, fun _ => hk, fun hs => ?_, fun _ => Due.untried hu, fun hact => ?_⟩
  · rw [hst] at hs; cases hs
  · rw [hst] at hact; cases hact

/-- A frontier upsert of an advertised address. -/
theorem StoreOk.upsert {s' : NodeStore} {out : FrontierOutcome} {ts : Int} {net : NetworkType}
    (h : w.StoreOk N s) (hu : NodeStore.Upsert s k ts net w.threshold w.now s' out)
    (hnew : ∀ e, s.entry k = some e → e.state = .staleDiscarded → e.history.Untried)
    (hts : w.Sighted k ts) (hfresh : w.Fresh ts → w.Swept k)
    (hseeds : k ∈ w.seeds → s.entry k ≠ none) : w.StoreOk N s' := by
  cases hu with
  | refreshed he hout hrej hstate =>
    refine h.write fun e' he' => ?_
    rw [he] at he'
    cases he'
    refine (h k _ he).refresh hts fun hs hf => ?_
    rw [Fresh, hstate hs] at hf
    cases hf
  | @revived e he hst hf =>
    refine h.write fun e' he' => ?_
    rw [he] at he'
    cases he'
    -- a parked entry is stale, so it is this timestamp that is fresh
    have hmax : max e.freshestTs ts = ts := by
      rcases max_choice e.freshestTs ts with hmax | hmax
      · rw [hmax] at hf
        exact absurd hf ((h k e he).parked hst).1
      · exact hmax
    refine stored_queued ?_ (hfresh (by rw [hmax] at hf; exact hf)) rfl (hnew e he hst)
    show w.Sighted k (max e.freshestTs ts)
    rw [hmax]
    exact hts
  | rejected he hfull => exact h
  | parked he hroom hstale =>
    refine h.insert ⟨hts, fun hne => absurd rfl hne, fun _ => ⟨?_, ?_⟩, fun hq => ?_, fun _ hne => absurd rfl hne⟩
    · exact fun hf => Bool.noConfusion (hstale.symm.trans hf)
    · exact fun hk => hseeds hk he
    · cases hq
  | discovered he hroom hf =>
    exact h.insert (stored_queued hts (hfresh hf) rfl (untried_new ..))

/-- A seed. -/
theorem StoreOk.seed {H : Digests} {s' : NodeStore} {new : Bool} (h : w.StoreOk N s)
    (hs : NodeStore.SeedStep H s k w.seedTime s' new) (hk : k ∈ w.seeds) : w.StoreOk N s' := by
  cases hs with
  | refreshed he =>
    refine h.write fun e' he' => ?_
    exact (h k e' he').refresh (.seed hk) fun hst => absurd hk ((h k e' he').parked hst).2
  | rejected he hfull => exact h
  | discovered he hroom =>
    exact h.insert (stored_queued (.seed hk) (.seed hk) rfl (untried_new ..))

/-- `enqueue` moves no entry, unless it discards the key. -/
theorem StoreOk.enqueue {H : Digests} {sh : Shared} (h : w.StoreOk N sh.store) {e : EnqueuePc}
    (he : e ≠ .discard) : w.StoreOk N (enqueueStep H sh k e).1.store := by
  cases e with
  | send t =>
    simp only [enqueueStep]
    split
    · rename_i sh' hsend
      obtain ⟨-, -, rfl⟩ := Shared.trySend_some hsend
      exact h
    · exact h
  | discard => exact absurd rfl he
  | _ => exact h

/-- `finish` writes what the last attempt leaves. -/
theorem StoreOk.finish {sh : Shared} (h : w.StoreOk N sh.store) {f : FinishPc}
    (hf : At sh k fun h => f.Replays w N k h.tried) : w.StoreOk N (finishStep sh k f).1.store := by
  cases f with
  | write terminal reason =>
    simp only [finishStep]
    split
    · exact h
    · rename_i e he
      split
      · rename_i hact
        refine h.write fun e' he' => ?_
        rw [he] at he'
        cases he'
        have hswept := (h k e he).swept (fun hst => by rw [hst] at hact; cases hact)
        refine ⟨(h k e he).sighted, fun _ => hswept, fun hst => ?_, fun hq => ?_, fun _ _ => hf e he⟩
        · exact absurd hst terminal.property.2
        · have hina := terminal.property.1
          rw [show terminal.val = .queued from hq] at hina
          cases hina
      · exact h
  | decr => exact h
  | close => exact h

end Entries

end Sweep

/-! ## Steps on the entries -/

section Steps
variable {w : Sweep} {N : AdvertisedAddr → Prop} {S : Setup} {sh sh' : Shared} {t : Transport}
  {k : AddrKey}

/-- A step of `process` leaves every entry in order. -/
theorem taskStep_stored {a : Answer} {p : TaskPc} {next : Option TaskPc}
    (h : taskStep S sh t k a p = some (sh', next)) (hok : w.StoreOk N sh.store)
    (hown : Owns sh (p.held k)) (hp : At sh k fun h => p.Replays w N k h.tried)
    (hobs : ∀ c count now addr rest, p = .upserting c count now (addr :: rest) →
      w.StoreOk N (sh.store.frontierUpsert ⟨addr.host, addr.port⟩ addr.timestamp addr.network
        S.settings.freshnessThreshold now).1)
    (hkeep : ∀ c count now rest key, p ≠ .enqueueing c count now rest key .discard)
    (habandon : ∀ f, p ≠ .abandoning f) : w.StoreOk N sh'.store := by
  -- a write by a task that keeps the entry in `Processing`
  have hwrite : (p.held k).owned = [(k, .processing)] → ∀ {f : NodeEntry → NodeEntry}, Keeps f →
      w.StoreOk N (sh.writeEntry k f).store := by
    intro hh f hf
    have hproc : ∀ e, sh.store.entry k = some e → e.state = .processing := by
      intro e he
      have hst := hown (k, .processing) (by rw [hh]; exact List.mem_singleton.mpr rfl)
      simpa [NodeStore.stateOf, he] using hst
    refine hok.processing (fun e he hs => ?_) (fun e he => ?_) hf.freshestTs
    · rw [hproc e he] at hs; cases hs
    · rw [hf.state, hproc e he]
  cases p with
  | requeueing terminal kind =>
    cases h
    refine hok.write fun e he => ?_
    have hst := hown (k, .processing) (List.mem_singleton.mpr rfl)
    have hproc : e.state = .processing := by simpa [NodeStore.stateOf, he] using hst
    have hswept := (hok k e he).swept (fun hs => by rw [hproc] at hs; cases hs)
    refine ⟨(hok k e he).sighted, fun _ => hswept, fun hs => ?_, fun _ => hp e he, fun hact => ?_⟩
    · cases hs
    · cases hact
  | upserting c count now rest =>
    cases rest with
    | nil => cases h; exact hok
    | cons addr rest => cases h; exact hobs c count now addr rest rfl
  | enqueueing c count now rest key e =>
    cases h
    exact hok.enqueue fun he => hkeep c count now rest key (by rw [he])
  | resending terminal kind =>
    simp only [taskStep] at h
    split at h
    · rename_i sh₁ hsend
      obtain ⟨-, -, rfl⟩ := Shared.trySend_some hsend
      cases h
      exact hok
    · cases h; exact hok
  | abandoning f => exact absurd rfl (habandon f)
  | finishing f => cases h; exact hok.finish hp
  | malformedLog c call => obtain ⟨hsh, -⟩ := logStep_effect h; rw [hsh]; exact hok
  | blockLog c parsed now call => obtain ⟨hsh, -⟩ := logStep_effect h; rw [hsh]; exact hok
  | outcomeLog c call => obtain ⟨hsh, -⟩ := logStep_effect h; rw [hsh]; exact hok
  | connecting | sendVersion | handshaking | collecting | malformedGuard | messageGuard
    | outcomeGuard | shuffling =>
    simp only [taskStep] at h
    split at h <;> cases h <;> exact hok
  | count | connectFailed | connected | connectedAttempt | firstVersion | versionSent
    | handshakeTimeout | handshakeFailed | handshaken | malformedCount | breakdown | messageDone
    | outcomeWrite | completing =>
    cases h
    exact hwrite rfl ⟨fun _ => rfl, fun _ => rfl, fun _ => rfl⟩
  | _ => cases h; exact hok

/-- A task abandons its key where it cannot send it again. -/
theorem taskStep_abandoning {a : Answer} {p : TaskPc} {f : FinishPc}
    (h : taskStep S sh t k a p = some (sh', some (.abandoning f))) :
    (∃ terminal kind, p = .resending terminal kind ∧ sh.trySend t k = none) ∨
      ∃ f', p = .abandoning f' := by
  have hretry : ∀ {retry : Bool} {terminal : Terminal} {kind : FailKind},
      retryOrFinish retry terminal kind ≠ .abandoning f := by
    intro retry terminal kind
    cases retry <;> exact fun h => by cases h
  cases p with
  | resending terminal kind =>
    simp only [taskStep] at h
    split at h
    · cases h
    · rename_i hfail; exact .inl ⟨terminal, kind, rfl, hfail⟩
  | abandoning f' => exact .inr ⟨f', rfl⟩
  | everConnected | handshakeTimeout | handshakeFailed =>
    simp only [taskStep, Option.some.injEq, Prod.mk.injEq] at h
    exact absurd h.2 hretry
  | malformedLog c call | blockLog c parsed now call | outcomeLog c call =>
    obtain ⟨-, ⟨_, heq⟩ | ⟨res, heq⟩⟩ := logStep_effect h
    · cases heq
    · cases res <;> cases heq
  | upserting c count now rest =>
    cases rest with
    | nil => cases h
    | cons addr rest =>
      simp only [taskStep, Option.some.injEq, Prod.mk.injEq] at h
      have hnext := h.2
      unfold upsertNext at hnext
      split at hnext <;> cases hnext
  | finishing f' =>
    simp only [taskStep, Option.some.injEq, Prod.mk.injEq, Option.map_eq_some_iff] at h
    obtain ⟨-, f', -, hf⟩ := h
    cases hf
  | _ =>
    simp only [taskStep] at h
    first
    | cases h
    | (split at h <;> cases h)

/-- A step of the worker loop, which has nothing to discard. -/
theorem loopStep_stored {p p' : WorkerPc} (h : loopStep S sh t p = some (sh', p'))
    (hok : w.StoreOk N sh.store) (hown : Owns sh p.held)
    (hkeep : ∀ k f, p ≠ .discarding k f ∧ p ≠ .crashedFinish k f) : w.StoreOk N sh'.store := by
  cases loopStep_cases h with
  | @start k =>
    have hst := hown (k, .queued) (List.mem_singleton.mpr rfl)
    refine hok.processing (fun e he hs => ?_) (fun _ _ => rfl) fun _ => rfl
    rw [NodeStore.stateOf, he, Option.map_some, hs] at hst
    cases hst
  | @discard k f | @discarded k f => exact absurd rfl (hkeep k f).1
  | @crashFinish k f | @crashFinished k f => exact absurd rfl (hkeep k f).2
  | _ => exact hok

/-- A step of the main task, which seeds the store. -/
theorem mainStep_stored {a : Answer} {p p' : MainPc} (h : mainStep S sh a p = some (sh', p'))
    (hok : w.StoreOk N sh.store)
    (hobs : ∀ k rest, p = .seeding (k :: rest) →
      w.StoreOk N (sh.store.observeSeed S.digests k S.seedTime).1)
    (hkeep : ∀ rest k, p ≠ .seedEnqueue rest k .discard) : w.StoreOk N sh'.store := by
  cases p with
  | seeding rest =>
    cases rest with
    | nil => cases h; exact hok
    | cons k rest => cases h; exact hobs k rest rfl
  | seedEnqueue rest k e => cases h; exact hok.enqueue fun he => hkeep rest k (by rw [he])
  | joining joined =>
    simp only [mainStep] at h
    split at h
    · cases h; exact hok
    · split at h <;> split at h <;> cases h <;> exact hok
  | awaitSignals | awaitCheckpoint | stopping | writing =>
    simp only [mainStep] at h
    split at h <;> cases h <;> exact hok
  | flushing r call => obtain ⟨hsh, -⟩ := logStep_effect h; rw [hsh]; exact hok
  | finished => cases h
  | _ => cases h; exact hok

end Steps

/-! ## The invariant -/

/-- A seed has been taken note of: it is stored, and was queued. -/
def Sweep.Rooted (w : Sweep) (s : NodeStore) (k : AddrKey) : Prop :=
  s.Covers k w.seedTime ∧ s.Seen k

/-- What every task knows in a run of the sweep. -/
def Pc.Replays (w : Sweep) (sh : Shared) : Pc → Prop
  | .main (.seeding rest) | .main (.seedEnqueue rest _ _) =>
    (∀ k ∈ rest, k ∈ w.seeds) ∧ ∀ k ∈ w.seeds, k ∈ rest ∨ w.Rooted sh.store k
  | .main _ => ∀ k ∈ w.seeds, w.Rooted sh.store k
  | .worker _ (.task k p) =>
    (At sh k fun h => p.Replays w (w.Notes sh.store) k h.tried) ∧ ∀ f, p ≠ .abandoning f
  -- only the cap on the nodes leads here
  | .worker _ (.limitHit _) | .worker _ (.discarding _ _) => False
  | _ => True

/-- The run was not cut short and lost nothing: no Ctrl+C, no panic, no failure of the address
    log, no address turned down. -/
structure Shared.Smooth (sh : Shared) : Prop where
  shutdown : sh.shutdown = false
  panicked : sh.panicked = false
  outputFailed : sh.outputFailed = false
  budget : sh.store.budgetRejected = 0

/-- The entries and the tasks of a run of the sweep. -/
structure Sweep.Inv (w : Sweep) (c : Conf Shared Pc) : Prop where
  entries : w.StoreOk (w.Notes c.shared.store) c.shared.store
  tasks : Holds (Pc.Replays w) c

/-- A smooth state is reached through smooth states. -/
theorem Effect.smooth {does : Intent} {sh sh' : Shared} {h h' : Held}
    (he : Effect does sh h sh' h') (hs : sh'.Smooth) : sh.Smooth := by
  have hflag : ∀ {x y : Bool}, (x = true → y = true) → y = false → x = false := by
    intro x y himp hy
    cases x
    · rfl
    · rw [himp rfl] at hy; cases hy
  refine ⟨hflag he.flags.shutdown hs.shutdown, hflag he.flags.panicked hs.panicked,
    hflag he.flags.outputFailed hs.outputFailed, ?_⟩
  have := hs.budget
  rcases he.budgetRejected with heq | ⟨-, heq⟩ <;> omega

/-- Nothing that is noted is forgotten. -/
theorem Effect.notes {w : Sweep} {does : Intent} {sh sh' : Shared} {h h' : Held}
    (he : Effect does sh h sh' h') (a : AdvertisedAddr) (ha : w.Notes sh.store a) :
    w.Notes sh'.store a := by
  refine ⟨he.covers ha.1, fun hf => ?_⟩
  obtain ⟨st, hst, hne⟩ := ha.2 hf
  exact he.not_stale hst hne

theorem Effect.rooted {w : Sweep} {does : Intent} {sh sh' : Shared} {h h' : Held}
    (he : Effect does sh h sh' h') {k : AddrKey} (hk : w.Rooted sh.store k) :
    w.Rooted sh'.store k := by
  obtain ⟨st, hst, hne⟩ := hk.2
  exact ⟨he.covers hk.1, he.not_stale hst hne⟩

/-- A capless crawl never reaches its limit. -/
theorem not_limited {S : Setup} {ok : Conf Shared Pc → Nat × Answer → Prop} {c : Conf Shared Pc}
    (hr : Reach (program S) ok (start S) c) (hcap : S.settings.maxNodes = none) :
    c.shared.nodeLimitReached = false := by
  obtain ⟨g, hg⟩ : ∃ g, Chronicle (program S) ok Slots.record (start S) {} c g := hr.chronicle
  have hacc := accounts hg
  by_contra hno
  have hfull := hacc.full (hacc.reached (by simpa using hno))
  rw [hcap] at hfull
  cases hfull

/-- An upsert takes note of the address, if it is not turned down. -/
theorem NodeStore.Upsert.notes {w : Sweep} {s s' : NodeStore} {a : AdvertisedAddr}
    {out : FrontierOutcome}
    (h : NodeStore.Upsert s a.key a.timestamp a.network w.threshold w.now s' out)
    (hroom : s'.budgetRejected = s.budgetRejected) : w.Notes s' a := by
  refine ⟨h.covers.resolve_right (by omega), fun hf => ?_⟩
  have hmax : ∀ x : Int, stale w.threshold w.now (max x a.timestamp) = false := fun x =>
    stale_mono (le_max_right _ _) hf
  cases h with
  | @refreshed e _ he hout hrej hstate =>
    refine ⟨e.state, by simp [stateOf, he, refresh], fun hst => ?_⟩
    rw [hmax] at hstate
    cases hstate hst
  | revived he => exact ⟨.queued, by simp [stateOf, he, revive], fun h => by cases h⟩
  | rejected => simp [rejectEntry] at hroom
  | parked he _ hstale =>
    rw [Sweep.Fresh, hstale] at hf
    cases hf
  | discovered he =>
    exact ⟨.queued, by rw [stateOf_insertEntry, if_pos rfl]; rfl, fun h => by cases h⟩

/-- A seed is taken note of, if it is not turned down. -/
theorem NodeStore.SeedStep.rooted {w : Sweep} {N : AdvertisedAddr → Prop} {H : Digests}
    {s s' : NodeStore} {k : AddrKey} {new : Bool}
    (h : NodeStore.SeedStep H s k w.seedTime s' new) (hok : w.StoreOk N s) (hk : k ∈ w.seeds)
    (hroom : s'.budgetRejected = s.budgetRejected) : w.Rooted s' k := by
  cases h with
  | @refreshed e he =>
    refine ⟨⟨_, by rw [entry_withEntry_self, he]; rfl, le_max_right _ _⟩, e.state,
      by simp [stateOf, he, refresh], fun hst => ?_⟩
    exact ((hok k e he).parked hst).2 hk
  | rejected => simp [rejectEntry] at hroom
  | discovered he =>
    exact ⟨⟨_, by rw [entry_insertEntry, if_pos rfl], le_refl _⟩, .queued,
      by rw [stateOf_insertEntry, if_pos rfl]; rfl, fun h => by cases h⟩

/-! ## Steps on what the tasks know -/

section Knowledge
variable {w : Sweep} {S : Setup} {sh sh' : Shared}

/-- The main task works off its seeds. -/
theorem mainStep_replays {a : Answer} {p p' : MainPc} (h : mainStep S sh a p = some (sh', p'))
    (hp : (Pc.main p).Replays w sh)
    (hkeep : ∀ k, w.Rooted sh.store k → w.Rooted sh'.store k)
    (hseed : ∀ k rest, p = .seeding (k :: rest) → w.Rooted sh'.store k) :
    (Pc.main p').Replays w sh' := by
  -- once the seeds are done, they stay taken note of
  have hroot : (∀ k ∈ w.seeds, w.Rooted sh.store k) → ∀ k ∈ w.seeds, w.Rooted sh'.store k :=
    fun hall k hk => hkeep k (hall k hk)
  cases p with
  | seeding rest =>
    cases rest with
    | nil =>
      have hall : ∀ k ∈ w.seeds, w.Rooted sh'.store k := fun k hk =>
        hkeep k ((hp.2 k hk).resolve_left List.not_mem_nil)
      cases h
      exact hall
    | cons k rest =>
      have hk := hseed k rest rfl
      have hnext : (∀ k ∈ rest, k ∈ w.seeds) ∧ ∀ k ∈ w.seeds, k ∈ rest ∨ w.Rooted sh'.store k := by
        refine ⟨fun k' hk' => hp.1 k' (List.mem_cons_of_mem _ hk'), fun k' hk' => ?_⟩
        rcases hp.2 k' hk' with hin | hold
        · rcases List.mem_cons.mp hin with rfl | hin
          · exact .inr hk
          · exact .inl hin
        · exact .inr (hkeep k' hold)
      simp only [mainStep, Option.some.injEq, Prod.mk.injEq] at h
      obtain ⟨-, rfl⟩ := h
      split <;> exact hnext
  | seedEnqueue rest k e =>
    have hnext : (∀ k ∈ rest, k ∈ w.seeds) ∧ ∀ k ∈ w.seeds, k ∈ rest ∨ w.Rooted sh'.store k :=
      ⟨hp.1, fun k' hk' => (hp.2 k' hk').imp_right (hkeep k')⟩
    simp only [mainStep, Option.some.injEq, Prod.mk.injEq] at h
    obtain ⟨-, rfl⟩ := h
    split <;> exact hnext
  | joining joined =>
    simp only [mainStep] at h
    split at h
    · cases h; exact hroot hp
    · split at h <;> split at h <;> cases h <;> exact hroot hp
  | awaitSignals | awaitCheckpoint | stopping | writing =>
    simp only [mainStep] at h
    split at h <;> cases h <;> exact hroot hp
  | flushing r call =>
    obtain ⟨-, ⟨_, rfl⟩ | ⟨res, rfl⟩⟩ := logStep_effect h
    · exact hroot hp
    · cases res <;> exact hroot hp
  | startCheck | checkWorkers | finalFlush =>
    simp only [mainStep, Option.some.injEq, Prod.mk.injEq] at h
    obtain ⟨-, rfl⟩ := h
    split <;> exact hroot hp
  | finished => cases h
  | _ => cases h; exact hroot hp

/-- The worker loop starts a key that is due. -/
theorem loopStep_replays (hw : w.Of S) {t : Transport} {p p' : WorkerPc}
    (h : loopStep S sh t p = some (sh', p')) (hp : (Pc.worker t p).Replays w sh)
    (hok : w.StoreOk (w.Notes sh.store) sh.store) (hown : Owns sh p.held) :
    (Pc.worker t p').Replays w sh' := by
  cases loopStep_cases h with
  | @start k =>
    refine ⟨fun e' he' => ?_, fun f hf => by cases hf⟩
    rw [Shared.writeEntry_store, NodeStore.entry_withEntry_self] at he'
    obtain ⟨e, he, rfl⟩ := Option.map_eq_some_iff.mp he'
    have hst := hown (k, .queued) (List.mem_singleton.mpr rfl)
    simp only [NodeStore.stateOf, he, Option.map_some, Option.some.injEq] at hst
    exact (hok k e he).queued hst
  | refuse hmax =>
    rw [hw.uncapped] at hmax
    cases hmax
  | limit | discard | discarded => exact hp.elim
  | _ => trivial

/-- What a task knows survives the steps of others. -/
theorem Pc.Replays.other {does : Intent} {h h' : Held} (he : Effect does sh h sh' h') {u : Pc}
    (hu : u.Replays w sh) (hown : Owns sh u.held) (hne : ∀ x ∈ u.held.owned, ∀ y ∈ h.owned, y.1 ≠ x.1) :
    u.Replays w sh' := by
  cases u with
  | main p =>
    cases p with
    | seeding rest => exact ⟨hu.1, fun k hk => (hu.2 k hk).imp_right he.rooted⟩
    | seedEnqueue rest k e => exact ⟨hu.1, fun k hk => (hu.2 k hk).imp_right he.rooted⟩
    | _ => exact fun k hk => he.rooted (hu k hk)
  | worker t p =>
    cases p with
    | task k p =>
      obtain ⟨hp, hno⟩ := hu
      refine ⟨?_, hno⟩
      have hmono : (At sh' k fun h => p.Replays w (w.Notes sh.store) k h.tried) →
          At sh' k fun h => p.Replays w (w.Notes sh'.store) k h.tried :=
        fun hat e hk => (hat e hk).mono he.notes
      have hkeep : (∃ st, (k, st) ∈ (p.held k).owned) →
          At sh' k fun h => p.Replays w (w.Notes sh'.store) k h.tried := by
        rintro ⟨st, hk⟩
        exact hmono (he.at_other (hown _ hk) ((Pc.worker t (.task k p)).held_active _ hk)
          (hne _ hk) hp)
      cases p with
      | abandoning f => exact absurd rfl (hno f)
      | finishing f =>
        cases f with
        | write terminal reason => exact hkeep ⟨_, List.mem_singleton.mpr rfl⟩
        | _ => exact fun _ _ => trivial
      | enqueueing c count now rest key e =>
        exact hkeep ⟨.processing, List.mem_append_right _ (List.mem_singleton.mpr rfl)⟩
      | resending => exact hkeep ⟨.queued, List.mem_singleton.mpr rfl⟩
      | _ => exact hkeep ⟨.processing, List.mem_singleton.mpr rfl⟩
    | limitHit k => exact hu.elim
    | discarding k f => exact hu.elim
    | _ => trivial
  | _ => trivial

end Knowledge

/-! ## Steps of a run -/

theorem start_inv {w : Sweep} {S : Setup} (hw : w.Of S) : w.Inv (start S) where
  entries k e hk := by cases hk
  tasks := by
    intro i pc hpc
    rcases mem_start (List.mem_of_getElem? hpc) with rfl | rfl | rfl | rfl | ⟨t, rfl, -⟩
    · exact ⟨fun k hk => by rw [hw.seeds]; exact hk, fun k hk => .inl (by rw [← hw.seeds]; exact hk)⟩
    all_goals trivial

section Run
variable {w : Sweep} {S : Setup} {ok : Conf Shared Pc → Nat × Answer → Prop}
  {c c' : Conf Shared Pc} {a : Nat × Answer}

/-- A smooth run of a capless crawl was not stopped early. -/
theorem Shared.Smooth.not_early (hs : c.shared.Smooth) (hw : w.Of S)
    (hr : Reach (program S) ok (start S) c) : c.shared.terminatedEarly = false := by
  simp only [Shared.terminatedEarly, hs.shutdown, not_limited hr hw.uncapped, Bool.or_self]

/-- A task that answers for a key finds its queue open. -/
theorem sends_succeed (hr : Reach (program S) noPanic (start S) c)
    (hearly : c.shared.terminatedEarly = false) {pc : Pc} (hpc : pc ∈ c.threads)
    {x : AddrKey × NodeState} (hx : x ∈ pc.held.owned) (t : Transport) (k : AddrKey) :
    c.shared.trySend t k ≠ none := by
  intro hfail
  have hb := books hr (not_panicked hr)
  have hcl := closed_of_trySend hb (rooms hr) hpc (List.ne_nil_of_mem hx) hfail
  rcases closed_why hr (.inl ⟨t, hcl⟩) with hstop | hzero
  · rw [hearly] at hstop; cases hstop
  · have := NodeStore.activeCount_pos (hb.owns hpc x hx) (pc.held_active _ hx)
    omega

/-- Nothing is discarded inside `enqueue`. -/
theorem enqueues_kept (hearly : c.shared.terminatedEarly = false) {k : AddrKey} {e : EnqueuePc}
    (hview : At c.shared k fun h => e.View (c.shared.terminatedEarly = true) h)
    (hown : Owns c.shared (e.held k)) : e ≠ .discard := by
  rintro rfl
  obtain ⟨e, he, -⟩ := NodeStore.stateOf_eq_some (hown (k, .queued) (List.mem_singleton.mpr rfl))
  have hstop := (hview e he).2
  rw [hearly] at hstop
  cases hstop

/-- Once the tasks are spawned, every seed has been taken note of. -/
theorem seeds_rooted (hr : Reach (program S) ok (start S) c) (hi : w.Inv c)
    (hsp : c.shared.spawned = true) : ∀ k ∈ w.seeds, w.Rooted c.shared.store k := by
  have hkind : Kind.main ∈ c.threads.map Pc.kind := by
    rw [kinds hr]
    exact List.mem_map.mpr ⟨.main (.seeding S.seedKeys), by simp [start], rfl⟩
  obtain ⟨pc, hpc, hk⟩ := List.mem_map.mp hkind
  cases pc with
  | main p =>
    have hphase : c.shared.spawned = !p.early := (phases hr).of_mem hpc
    have hroot := hi.tasks.of_mem hpc
    rw [hsp] at hphase
    cases p with
    | seeding | seedEnqueue => cases hphase
    | _ => exact hroot
  | _ => cases hk

/-- An address in the hands of a task is sighted, and its key is processed if it is fresh. -/
theorem Sweep.Hearing.sighted {k : AddrKey} {parsed : ParsedAddrMessage} {v : Nat} {x : Tried}
    {N : AdvertisedAddr → Prop} (hh : w.Hearing N k v parsed x) (hk : w.Swept k)
    {addr : AdvertisedAddr} (ha : addr ∈ parsed.addrs) (hen : w.enabled addr.network = true) :
    w.Sighted addr.key addr.timestamp ∧ (w.Fresh addr.timestamp → w.Swept addr.key) := by
  obtain ⟨messages, hc, hm⟩ := hh
  have hadv := hc.advertises hm ha hen
  exact ⟨.advertised hk hadv, fun hf => .advertised hk hadv hf⟩

/-- A step of the main task. -/
theorem main_sweeps (hw : w.Of S) (hr : Reach (program S) noPanic (start S) c) (hi : w.Inv c)
    (hsm : c.shared.Smooth) {i : Nat} {p p' : MainPc} (hpc : c.threads[i]? = some (.main p))
    {b : Answer} {sh' : Shared} (hs : mainStep S c.shared b p = some (sh', p')) (hsm' : sh'.Smooth) :
    w.StoreOk (w.Notes sh'.store) sh'.store ∧ (Pc.main p').Replays w sh' := by
  have he := mainStep_effect hs
  have hok := hi.entries.mono he.notes
  have hknow := hi.tasks _ _ hpc
  have hseed : ∀ k rest, p = .seeding (k :: rest) → k ∈ w.seeds ∧
      NodeStore.SeedStep S.digests c.shared.store k w.seedTime sh'.store
        (c.shared.store.observeSeed S.digests k w.seedTime).2 := by
    rintro k rest rfl
    refine ⟨hknow.1 k (List.mem_cons_self ..), ?_⟩
    cases hs
    rw [hw.seedTime]
    exact NodeStore.observeSeed_cases ..
  refine ⟨mainStep_stored hs hok ?_ ?_, mainStep_replays hs hknow (fun k => he.rooted) ?_⟩
  · rintro k rest rfl
    have hst := NodeStore.observeSeed_cases S.digests c.shared.store k S.seedTime
    rw [← hw.seedTime] at hst ⊢
    exact hok.seed hst (hknow.1 k (List.mem_cons_self ..))
  · rintro rest k rfl
    exact enqueues_kept (hsm.not_early hw hr) ((histories hr).tasks _ _ hpc)
      ((books hr hsm.panicked).owns (List.mem_of_getElem? hpc)) rfl
  · intro k rest hp
    obtain ⟨hk, hst⟩ := hseed k rest hp
    exact hst.rooted hi.entries hk (by rw [hsm'.budget, hsm.budget])

/-- What a frontier upsert of a task needs: the address is sighted, and every seed is stored. -/
theorem upsert_sweeps (hw : w.Of S) (hr : Reach (program S) noPanic (start S) c) (hi : w.Inv c)
    (hsm : c.shared.Smooth) {i : Nat} {t : Transport} {k : AddrKey} {d : Session} {size : Nat}
    {now : Int} {addr : AdvertisedAddr} {rest : List AdvertisedAddr} {N : AdvertisedAddr → Prop}
    (hpc : c.threads[i]? = some (.worker t (.task k (.upserting d size now (addr :: rest)))))
    (hok : w.StoreOk N c.shared.store) :
    w.StoreOk N (c.shared.store.frontierUpsert addr.key addr.timestamp addr.network
      S.settings.freshnessThreshold now).1 := by
  have hmem := List.mem_of_getElem? hpc
  have hown := (books hr hsm.panicked).owns hmem
  obtain ⟨e, he, hproc⟩ := NodeStore.stateOf_eq_some (hown (k, .processing) (List.mem_singleton.mpr rfl))
  obtain ⟨parsed, hh, rfl, -, hrest, -⟩ := (hi.tasks _ _ hpc).1 e he
  obtain ⟨ha, hen⟩ := hrest addr (List.mem_cons_self ..)
  have hswept := (hi.entries k e he).swept fun hst => by rw [hst] at hproc; cases hproc
  obtain ⟨hts, hfresh⟩ := hh.sighted hswept ha hen
  have hsp : c.shared.spawned = true := by
    by_contra hno
    have htop : PhaseOk c.shared (.worker t _) := (phases hr).of_mem hmem
    cases htop (by simpa using hno)
  have hu := NodeStore.frontierUpsert_cases c.shared.store addr.key addr.timestamp addr.network
    S.settings.freshnessThreshold w.now
  rw [← hw.threshold] at hu ⊢
  refine hok.upsert hu (fun e' he' hst => ?_) hts hfresh fun hseed => ?_
  · have huntried := (histories hr).entries _ e' he'
    rw [hst] at huntried
    exact huntried
  · obtain ⟨⟨e', he', -⟩, -⟩ := seeds_rooted hr hi hsp _ hseed
    rw [he']
    exact Option.some_ne_none _

/-- A step of `process`. -/
theorem task_sweeps (hw : w.Of S) (hr : Reach (program S) noPanic (start S) c) (hi : w.Inv c)
    (hsm : c.shared.Smooth) {i : Nat} {t : Transport} {k : AddrKey} {p : TaskPc}
    {next : Option TaskPc} (hpc : c.threads[i]? = some (.worker t (.task k p))) {b : Answer}
    {sh' : Shared} (hfol : p.Follows w k (c.shared.store.counted k).handshakeAttempts b)
    (hs : taskStep S c.shared t k b p = some (sh', next)) (hsm' : sh'.Smooth) :
    w.StoreOk (w.Notes sh'.store) sh'.store ∧
      (Pc.worker t ((next.map (WorkerPc.task k)).getD .top)).Replays w sh' := by
  have he := taskStep_effect hs
  have hok := hi.entries.mono he.notes
  have hmem := List.mem_of_getElem? hpc
  have hown := (books hr hsm.panicked).owns hmem
  have hearly := hsm.not_early hw hr
  obtain ⟨hat, hno⟩ := hi.tasks _ _ hpc
  have hknow : At c.shared k fun h => p.Replays w (w.Notes sh'.store) k h.tried :=
    fun e hk => (hat e hk).mono he.notes
  refine ⟨taskStep_stored hs hok hown hknow ?_ ?_ hno, ?_⟩
  · rintro d size now addr rest rfl
    exact upsert_sweeps hw hr hi hsm hpc hok
  · rintro d size now rest key rfl
    exact enqueues_kept hearly ((histories hr).tasks _ _ hpc).2
      (fun x hx => hown x (List.mem_append_left _ hx)) rfl
  · cases next with
    | none => trivial
    | some p' =>
      refine ⟨taskStep_replays hw hs hown hknow hfol ?_ hno hsm'.outputFailed ?_, ?_⟩
      · rintro terminal kind rfl
        exact sends_succeed hr hearly hmem (List.mem_singleton.mpr rfl) t k
      · rintro d size now addr rest rfl
        obtain ⟨e, hk, -⟩ := NodeStore.stateOf_eq_some (hown (k, .processing) (List.mem_singleton.mpr rfl))
        obtain ⟨-, -, rfl, -⟩ := hat e hk
        have hu := NodeStore.frontierUpsert_cases c.shared.store addr.key addr.timestamp addr.network
          S.settings.freshnessThreshold w.now
        cases hs
        have hroom := hsm'.budget.trans hsm.budget.symm
        rw [← hw.threshold] at hu
        simp only [← hw.threshold] at hroom ⊢
        exact hu.notes hroom
      · rintro f rfl
        rcases taskStep_abandoning hs with ⟨terminal, kind, rfl, hfail⟩ | ⟨f', rfl⟩
        · exact sends_succeed hr hearly hmem (List.mem_singleton.mpr rfl) t k hfail
        · exact hno f' rfl

/-- What a step of any thread keeps. -/
theorem move_sweeps (hw : w.Of S) (hr : Reach (program S) noPanic (start S) c) (hi : w.Inv c)
    (hsm : c.shared.Smooth) (hfol : follows w c a) {pc pc' : Pc} {sh' : Shared}
    (hpc : c.threads[a.1]? = some pc) (hp : program S c.shared pc a.2 = some (sh', pc'))
    (hsm' : sh'.Smooth) : w.StoreOk (w.Notes sh'.store) sh'.store ∧ pc'.Replays w sh' := by
  rcases program_cases hp with ⟨p, p', rfl, rfl, hs⟩ | ⟨p, p', rfl, rfl, hs⟩ |
    ⟨p, p', rfl, rfl, hs⟩ | ⟨L, rfl, rfl, -, rfl⟩ | ⟨t, p, p', rfl, rfl, hs⟩
  · exact main_sweeps hw hr hi hsm hpc hs hsm'
  · obtain ⟨_, _, _, _, rfl⟩ := signalStep_frame hs
    exact ⟨hi.entries, trivial⟩
  · obtain ⟨_, _, _, _, _, rfl⟩ := checkpointStep_frame hs
    exact ⟨hi.entries, trivial⟩
  · exact ⟨hi.entries, trivial⟩
  · rcases workerStep_cases hs with ⟨k, q, rfl, -, rfl, -⟩ | ⟨k, q, next, rfl, -, hstep, rfl⟩ |
      ⟨-, -, -, -, rfl, -⟩ | ⟨-, -, -, hstep⟩
    · cases hsm'.panicked
    · exact task_sweeps hw hr hi hsm hpc (hfol t k q hpc) hstep hsm'
    · cases hsm'.panicked
    · have hmem := List.mem_of_getElem? hpc
      have hown := (books hr hsm.panicked).owns hmem
      have hknow := hi.tasks _ _ hpc
      have hok := hi.entries.mono (step_effect hp).notes
      refine ⟨loopStep_stored hstep hok hown fun k f => ⟨?_, ?_⟩,
        loopStep_replays hw hstep hknow hi.entries hown⟩
      · rintro rfl
        exact hknow.elim
      · rintro rfl
        have hview := (histories hr).tasks _ _ hpc
        exact hview.elim

theorem step_sweeps (hw : w.Of S) (hr : Reach (program S) (follows w) (start S) c)
    (ih : c.shared.Smooth → w.Inv c) (hfol : follows w c a)
    (hst : step (program S) c a = some c') (hsm' : c'.shared.Smooth) : w.Inv c' := by
  have hcalm : ∀ pc sh' pc', c.threads[a.1]? = some pc →
      program S c.shared pc a.2 = some (sh', pc') → sh'.Smooth ∧ c.shared.Smooth := by
    intro pc sh' pc' hpc hp
    obtain ⟨pc₁, sh₁, pc₁', hpc₁, hp₁, rfl⟩ := step_cases hst
    rw [hpc] at hpc₁
    cases hpc₁
    rw [hp] at hp₁
    cases hp₁
    exact ⟨hsm', (step_effect hp).smooth hsm'⟩
  have hmove : ∀ pc sh' pc', c.threads[a.1]? = some pc →
      program S c.shared pc a.2 = some (sh', pc') →
      w.StoreOk (w.Notes sh'.store) sh'.store ∧ pc'.Replays w sh' := by
    intro pc sh' pc' hpc hp
    obtain ⟨hsm', hsm⟩ := hcalm pc sh' pc' hpc hp
    exact move_sweeps hw (reach_noPanic hr hsm.panicked) (ih hsm) hsm hfol hpc hp hsm'
  constructor
  · obtain ⟨pc, sh', pc', hpc, hp, rfl⟩ := step_cases hst
    exact (hmove pc sh' pc' hpc hp).1
  · obtain ⟨pc, sh', pc', hpc, hp, heq⟩ := step_cases hst
    have hsm := (hcalm pc sh' pc' hpc hp).2
    have hb := books hr hsm.panicked
    refine (ih hsm).tasks.step hst (fun pc sh' pc' hpc hp => (hmove pc sh' pc' hpc hp).2) ?_
    intro pc sh' pc' j u hpc hp hj hu hold
    exact hold.other (step_effect hp) (hb.owns (List.mem_of_getElem? hu))
      fun x hx => hb.owned_ne hj.symm hpc hu hx

/-- **Every smooth run follows its sweep**: whatever the interleaving, every entry and every task
    is as the sweep says. -/
theorem sweeps (hw : w.Of S) (hr : Reach (program S) (follows w) (start S) c)
    (hsm : c.shared.Smooth) : w.Inv c :=
  hr.invariant (I := fun c => c.shared.Smooth → w.Inv c) (fun _ => start_inv hw)
    (fun _ _ _ hr ih hok hst hsm => step_sweeps hw hr ih hok hst hsm) hsm

/-! ## The end of a run -/

/-- Once no work is outstanding, no entry is active. -/
theorem inactive_of_outstanding (hr : Reach (program S) noPanic (start S) c)
    (hsp : c.shared.spawned = true) (hzero : c.shared.store.outstanding = 0) {k : AddrKey}
    {e : NodeEntry} (he : c.shared.store.entry k = some e) : e.state.active = false := by
  have hb := books hr (not_panicked hr)
  have hout := outstanding_eq hb
  have hback := c.shared.backlog_nonneg
  have hload := load_nonneg Pc.weight_nonneg c.threads
  have hshare : load Pc.share c.threads = 0 := by
    refine load_eq_zero fun u hu => ?_
    have hnil : u.held.owned = [] := by
      refine owned_eq_nil_of_weight (eq_zero_of_load Pc.weight_nonneg (by omega) hu) ?_
      rintro p rfl
      have hphase : c.shared.spawned = !p.early := (phases hr).of_mem hu
      rw [hsp] at hphase
      simpa using hphase.symm
    simp [Pc.share, hnil]
  have hactive := hb.active
  simp only [total, activeLedger] at hactive
  exact NodeStore.not_active_of_activeCount_eq_zero (s := c.shared.store) (k := k) (by omega)
    (by simp [NodeStore.stateOf, he])

/-- Nothing is missing once nothing is active: every key that is processed has been seen, and
    every sighting is covered. -/
theorem Sweep.Inv.complete (hi : w.Inv c) (hroot : ∀ k ∈ w.seeds, w.Rooted c.shared.store k)
    (hina : ∀ k e, c.shared.store.entry k = some e → e.state.active = false) :
    (∀ k, w.Swept k → c.shared.store.Seen k) ∧
      ∀ k ts, w.Sighted k ts → c.shared.store.Covers k ts := by
  -- what a seen key advertises has been noted
  have hspread : ∀ k a, c.shared.store.Seen k → w.Advertises k a → w.Notes c.shared.store a := by
    rintro k a ⟨st, hst, hne⟩ ha
    obtain ⟨e, he, rfl⟩ := NodeStore.stateOf_eq_some hst
    exact ((hi.entries k e he).ended (hina k e he) hne).spread a ha
  have hseen : ∀ k, w.Swept k → c.shared.store.Seen k := by
    intro k hk
    induction hk with
    | seed hk => exact (hroot _ hk).2
    | advertised hk ha hfresh ih => exact (hspread _ _ ih ha).2 hfresh
  refine ⟨hseen, fun k ts hts => ?_⟩
  cases hts with
  | seed hk => exact (hroot _ hk).1
  | advertised hk ha => exact (hspread _ _ (hseen _ hk) ha).1

/-- **A smooth run that has nothing left to do ends in the result of its sweep.** -/
theorem sweep_result (hw : w.Of S) (hr : Reach (program S) (follows w) (start S) c)
    (hsm : c.shared.Smooth) (hsp : c.shared.spawned = true)
    (hzero : c.shared.store.outstanding = 0) : w.Result c.shared.store := by
  have hi := sweeps hw hr hsm
  have hr' := reach_noPanic hr hsm.panicked
  have hina : ∀ k e, c.shared.store.entry k = some e → e.state.active = false :=
    fun k e he => inactive_of_outstanding hr' hsp hzero he
  obtain ⟨hseen, hcovers⟩ := hi.complete (seeds_rooted hr hi hsp) hina
  refine ⟨fun k ts hts => ?_, fun k e he => ?_⟩
  · obtain ⟨e, he, -⟩ := hcovers k ts hts
    rw [he]
    exact Option.some_ne_none e
  · have hs := hi.entries k e he
    refine ⟨hs.sighted, fun ts hts => ?_, fun hk => ?_, fun hk => ?_⟩
    · obtain ⟨e', he', hle⟩ := hcovers k ts hts
      rw [he] at he'
      cases he'
      exact hle
    · obtain ⟨st, hst, hne⟩ := hseen k hk
      simp only [NodeStore.stateOf, he, Option.map_some, Option.some.injEq] at hst
      have hend := hs.ended (hina k e he) (hst ▸ hne)
      exact ⟨hend.last, hend.verdict⟩
    · have hst : e.state = .staleDiscarded := by
        by_contra hne
        exact hk (hs.swept hne)
      have huntried := (histories hr').entries k e he
      rw [hst] at huntried
      have htried : e.history.Untried := huntried
      exact ⟨hst, congrArg History.count htried, congrArg History.failure htried⟩

/-- A run on the peers of the sweep that has ended because no work is outstanding: it was not cut
    short, lost nothing, and never ran out of its address budget. -/
structure Sweep.Ends (w : Sweep) (S : Setup) (c : Conf Shared Pc) : Prop where
  of : w.Of S
  run : Reach (program S) (follows w) (start S) c
  smooth : c.shared.Smooth
  spawned : c.shared.spawned = true
  outstanding : c.shared.store.outstanding = 0

theorem Sweep.Ends.result (h : w.Ends S c) : w.Result c.shared.store :=
  sweep_result h.of h.run h.smooth h.spawned h.outstanding

/-- **A sweep does not depend on the order of the work.**  Any two runs on the same peers that end
    because no work is outstanding, with any workers, interleavings and shuffles, leave the same
    keys, each in the same state, with the same freshest timestamp, number of attempts and
    failure.  The keys that were processed are those of the closure: they end terminal, and reachable
    iff their last attempt completed the handshake; the others are parked as stale. -/
theorem sweep_order_independent {S' : Setup} (h : w.Ends S c) (h' : w.Ends S' c') :
    (∀ k, (c.shared.store.entry k).map NodeEntry.summary =
      (c'.shared.store.entry k).map NodeEntry.summary) ∧
    (∀ k, (∃ e, c.shared.store.entry k = some e ∧ 0 < e.stats.handshakeAttempts) ↔ w.Swept k) ∧
    (∀ k e, c.shared.store.entry k = some e →
      (w.Swept k → (e.state = .reachable ∨ e.state = .handshakeFailed ∨ e.state = .unreachable) ∧
        w.Last k e.stats.handshakeAttempts ∧ (e.state = .reachable ↔
          ∃ messages, w.attempt k e.stats.handshakeAttempts = .complete messages)) ∧
      (¬w.Swept k → e.state = .staleDiscarded)) ∧
    ∀ ts, w.Fresh ts ↔ w.threshold ≤ 0 ∨ w.now - w.threshold ≤ ts := by
  have hres := h.result
  refine ⟨hres.unique h'.result, hres.processed_iff, fun k e he => ⟨?_, fun hk => ?_⟩, w.fresh_iff⟩
  · exact (hres.entries k e he).tried
  · exact ((hres.entries k e he).parked hk).1

/-- **Who is told more finds no less.**  Of two such runs on the same peers, let the second one have
    at least the seeds, the networks and the timestamps of the first.  It knows all its keys, each
    at least as fresh, and what the first one processed has the same state, failure and number of
    attempts. -/
theorem sweep_monotone {w' : Sweep} {S' : Setup} (h : w.Ends S c) (h' : w'.Ends S' c')
    (hw : w.Within w') : ∀ k e, c.shared.store.entry k = some e →
      ∃ e', c'.shared.store.entry k = some e' ∧ e.freshestTs ≤ e'.freshestTs ∧
        (e.state ≠ .staleDiscarded → e'.state = e.state ∧ e'.failure = e.failure ∧
          e'.stats.handshakeAttempts = e.stats.handshakeAttempts) := by
  intro k e he
  have hleaves := h.result.entries k e he
  obtain ⟨ts, -, hts⟩ := hw.sighted hleaves.freshest
  obtain ⟨e', he'⟩ := Option.ne_none_iff_exists'.mp (h'.result.stored k ts hts)
  exact ⟨e', he', hw.leaves hleaves (h'.result.entries k e' he')⟩

/-! ## Two orders of five nodes -/

def advert (host : String) (timestamp : Int) : AdvertisedAddr := ⟨host, 8333, .ipv4, timestamp, 0, 1⟩

/-- A fresh address and two stale ones. -/
def firstReply : ParsedAddrMessage :=
  ⟨3, [advert "192.0.2.3" 950, advert "192.0.2.4" 10, advert "192.0.2.5" 20], 0, rfl⟩

/-- One of the stale ones, fresh now, and the other one as stale as before. -/
def secondReply : ParsedAddrMessage := ⟨2, [advert "192.0.2.4" 980, advert "192.0.2.5" 30], 0, rfl⟩

/-- Two nodes answer, the others refuse the connection. -/
def village (k : AddrKey) (_ : Nat) : Attempt :=
  if k.host = "192.0.2.1" then .complete [firstReply]
  else if k.host = "192.0.2.3" then .complete [secondReply]
  else .connectFailed .connectRefused

/-- Two seeds, and a freshness filter. -/
def filtering (s : Settings) (threshold : Int) : Setup :=
  ⟨.zero, { s with freshnessThreshold := threshold }, .dns ["192.0.2.1", "192.0.2.2"], 1000⟩

/-- One more worker than `soloSettings`. -/
def duoSettings : Settings :=
  { soloSettings with
    concurrency := ⟨2, 0, 0⟩
    staffed := fun net => by cases net <;> decide }

/-- Nothing older than a hundred seconds is taken. -/
def visits : Sweep := (filtering soloSettings 100).sweep 1000 village

/-- A worker takes a key from its queue, is refused, and finishes it. -/
def refusedTurn (i : Nat) : List (Nat × Answer) := steps i 6 ++ [(i, refused)] ++ steps i 4

/-- A worker is answered with `reply`, and takes its addresses in this order. -/
def replied (i n : Nat) (reply : ParsedAddrMessage) (order : List AdvertisedAddr) :
    List (Nat × Answer) :=
  List.replicate n (i, {
    events := [.version (some ⟨70016, 0, 0, "", 0, false, ⟨0, "0.0.0.0", 0⟩, none, none⟩), .verack]
    collected := .message .addr reply
    order := order
    now := 1000 })

/-- One worker takes one node after the other. -/
def oneByOne : List (Nat × Answer) :=
  steps 0 11 ++ replied 4 33 firstReply firstReply.addrs ++ refusedTurn 4 ++
    replied 4 32 secondReply secondReply.addrs ++ refusedTurn 4

/-- The worker that took the first node is overtaken by the other one, which takes the second node,
    and the third as soon as it is queued; both shuffle the other way round. -/
def overtaken : List (Nat × Answer) :=
  steps 0 11 ++ steps 4 3 ++ refusedTurn 5 ++ replied 4 24 firstReply firstReply.addrs.reverse ++
    replied 5 32 secondReply secondReply.addrs.reverse ++ replied 4 6 firstReply [] ++ refusedTurn 4

/-- The same without a filter, so that every address is tried. -/
def unfiltered : List (Nat × Answer) :=
  steps 0 11 ++ replied 4 39 firstReply firstReply.addrs ++ refusedTurn 4 ++
    replied 4 29 secondReply secondReply.addrs ++ refusedTurn 4 ++ refusedTurn 4

/-- A schedule, executed on the peers of the sweep. -/
theorem exec_ends {w : Sweep} {S : Setup} (as : List (Nat × Answer)) (hw : w.Of S)
    (h : (exec (program S) (fun c a => decide (follows w c a)) (start S) as).map (fun c =>
      (c.shared.shutdown, c.shared.panicked, c.shared.outputFailed, c.shared.store.budgetRejected,
        c.shared.spawned, c.shared.store.outstanding)) = some (false, false, false, 0, true, 0)) :
    ∃ c, exec (program S) (fun c a => decide (follows w c a)) (start S) as = some c ∧
      w.Ends S c := by
  obtain ⟨c, hc, heq⟩ := Option.map_eq_some_iff.mp h
  simp only [Prod.mk.injEq] at heq
  obtain ⟨hshut, hpanic, hout, hbudget, hsp, hzero⟩ := heq
  exact ⟨c, hc, hw, (exec_reach hc).mono fun _ _ ha => of_decide_eq_true ha,
    ⟨hshut, hpanic, hout, hbudget⟩, hsp, hzero⟩

/-- What is known of a node. -/
def learnt (c : Conf Shared Pc) (host : String) : Option (NodeState × Int × Nat × Option FailKind) :=
  (c.shared.store.entry ⟨host, 8333⟩).map NodeEntry.summary

/-- One worker, with the filter. -/
theorem visits_end : ∃ c, visits.Ends (filtering soloSettings 100) c ∧
    learnt c "192.0.2.4" = some (.unreachable, 980, 1, some .connectRefused) ∧
    learnt c "192.0.2.5" = some (.staleDiscarded, 30, 0, none) := by
  have hw : visits.Of (filtering soloSettings 100) := Setup.sweep_of rfl 1000 _
  obtain ⟨c, hc, h⟩ := exec_ends oneByOne hw (by decide +kernel)
  have hlearnt : ∀ host, (exec (program (filtering soloSettings 100)) (fun c a => decide (follows visits c a))
      (start (filtering soloSettings 100)) oneByOne).bind (learnt · host) = learnt c host := fun host => by
    rw [hc]
    rfl
  refine ⟨c, h, ?_, ?_⟩
  · rw [← hlearnt]
    decide +kernel
  · rw [← hlearnt]
    decide +kernel

/-- A node is parked and let through later, and another one stays parked, in either order. -/
theorem sweep_order_independent_pair :
    ∃ c c', visits.Ends (filtering soloSettings 100) c ∧ visits.Ends (filtering duoSettings 100) c' ∧
      (∀ k, (c.shared.store.entry k).map NodeEntry.summary =
        (c'.shared.store.entry k).map NodeEntry.summary) ∧
      visits.Swept ⟨"192.0.2.4", 8333⟩ ∧
      learnt c' "192.0.2.4" = some (.unreachable, 980, 1, some .connectRefused) ∧
      learnt c' "192.0.2.5" = some (.staleDiscarded, 30, 0, none) := by
  have hw' : visits.Of (filtering duoSettings 100) := ⟨rfl, rfl, rfl, rfl, rfl, rfl, rfl, rfl⟩
  obtain ⟨c, h, hrevived, hparked⟩ := visits_end
  obtain ⟨c', -, h'⟩ := exec_ends overtaken hw' (by decide +kernel)
  obtain ⟨hsame, hprocessed, -, -⟩ := sweep_order_independent h h'
  obtain ⟨e, he, hsummary⟩ := Option.map_eq_some_iff.mp hrevived
  have hattempts : e.stats.handshakeAttempts = 1 := congrArg (fun x => x.2.2.1) hsummary
  refine ⟨c, c', h, h', hsame, (hprocessed _).mp ⟨e, he, ?_⟩, (hsame _).symm.trans hrevived,
    (hsame _).symm.trans hparked⟩
  rw [hattempts]
  exact Nat.one_pos

/-- The same peers, without the filter. -/
def visitsAll : Sweep := (filtering soloSettings 0).sweep 1000 village

/-- Without the filter the crawl tries the node that it parks with it. -/
theorem sweep_monotone_unfiltered : ∃ c c', visits.Ends (filtering soloSettings 100) c ∧
    visitsAll.Ends (filtering soloSettings 0) c' ∧
    learnt c "192.0.2.5" = some (.staleDiscarded, 30, 0, none) ∧
    learnt c' "192.0.2.5" = some (.unreachable, 30, 1, some .connectRefused) ∧
    ∀ k e, c.shared.store.entry k = some e → ∃ e', c'.shared.store.entry k = some e' ∧
      e.freshestTs ≤ e'.freshestTs ∧ (e.state ≠ .staleDiscarded → e'.state = e.state ∧
        e'.failure = e.failure ∧ e'.stats.handshakeAttempts = e.stats.handshakeAttempts) := by
  have hw' : visitsAll.Of (filtering soloSettings 0) := Setup.sweep_of rfl 1000 _
  have hmore : visits.Within visitsAll :=
    ⟨List.Subset.refl _, le_refl _, fun ts _ => (visitsAll.fresh_iff ts).mpr (.inl (le_refl _)),
      fun _ h => h, fun h => h, rfl, rfl, rfl⟩
  obtain ⟨c, h, -, hparked⟩ := visits_end
  obtain ⟨c', hc', h'⟩ := exec_ends unfiltered hw' (by decide +kernel)
  have hlearnt : (exec (program (filtering soloSettings 0)) (fun c a => decide (follows visitsAll c a))
      (start (filtering soloSettings 0)) unfiltered).bind (learnt · "192.0.2.5") =
      some (.unreachable, 30, 1, some .connectRefused) := by
    decide +kernel
  rw [hc'] at hlearnt
  exact ⟨c, c', h, h', hparked, hlearnt, sweep_monotone h h' hmore⟩

end Run

end P2PCrawler
