import P2PCrawler.Crawler.Steps

/-!
# What a step does to the books

Three things are kept in step only through the control flow of the tasks: the state of an entry,
the queue a key is in, and the counter of outstanding work.  A task between two of the writes
holds the difference.

* `Pc.held` — what a task at its position holds: the keys whose `Queued` or `Processing` state
  it answers for, the increments and the decrements of the counter it still owes.
* `Effect` — everything one step can do to the entry states, the queues, the counter and what
  the moving task holds.
* `step_effect` — every step has one of these effects.
-/

set_option autoImplicit false

namespace P2PCrawler

open ThreadPool

/-! ## Reading the shared state after an operation -/

namespace Shared

section Lemmas
variable (sh : Shared) (t : Transport) (k : AddrKey) (f : NodeEntry → NodeEntry)

@[simp] theorem writeEntry_store : (sh.writeEntry k f).store = sh.store.withEntry k f := rfl
@[simp] theorem writeEntry_queue : (sh.writeEntry k f).queue = sh.queue := rfl
@[simp] theorem writeEntry_panicked : (sh.writeEntry k f).panicked = sh.panicked := rfl
@[simp] theorem closeAll_store : sh.closeAll.store = sh.store := rfl
@[simp] theorem closeAll_panicked : sh.closeAll.panicked = sh.panicked := rfl
@[simp] theorem closeAll_items : (sh.closeAll.queue t).items = (sh.queue t).items := rfl
@[simp] theorem closeAll_closed : (sh.closeAll.queue t).closed = true := rfl

end Lemmas

/-- `try_send` fails exactly on a closed or full channel, and otherwise appends the key. -/
theorem trySend_some {sh sh' : Shared} {t : Transport} {k : AddrKey}
    (h : sh.trySend t k = some sh') :
    (sh.queue t).closed = false ∧ (sh.queue t).items.length < (sh.queue t).capacity ∧
      sh' = { sh with
        queue := Function.update sh.queue t
          { sh.queue t with
            items := (sh.queue t).items ++ [k], accepted := (sh.queue t).accepted ++ [k] } } := by
  unfold trySend at h
  simp only at h
  split at h
  · cases h
  · rename_i hopen
    split at h
    · rename_i hroom
      cases h
      exact ⟨by simpa using hopen, hroom, rfl⟩
    · cases h

theorem trySend_none {sh : Shared} {t : Transport} {k : AddrKey} (h : sh.trySend t k = none) :
    (sh.queue t).closed = true ∨ (sh.queue t).capacity ≤ (sh.queue t).items.length := by
  unfold trySend at h
  simp only at h
  split at h
  · rename_i hcl; exact .inl hcl
  · split at h
    · cases h
    · rename_i hfull; exact .inr (by omega)

end Shared

/-! ## What a task holds -/

/-- The keys a task answers for with their states, the increments and the decrements it owes. -/
structure Held where
  owned : List (AddrKey × NodeState) := []
  uncounted : ℤ := 0
  undecremented : ℤ := 0

/-- The same with further keys. -/
def Held.plus (h : Held) (own : List (AddrKey × NodeState)) : Held :=
  { h with owned := h.owned ++ own }

def EnqueuePc.held (k : AddrKey) : EnqueuePc → Held
  | .route | .count _ => { owned := [(k, .queued)], uncounted := 1 }
  | .send _ | .discard => { owned := [(k, .queued)] }
  | .uncount => { undecremented := 1 }

def FinishPc.held (k : AddrKey) (st : NodeState) : FinishPc → Held
  | .write _ _ => { owned := [(k, st)] }
  | .decr => { undecremented := 1 }
  | .close => {}

def TaskPc.held (k : AddrKey) : TaskPc → Held
  | .enqueueing _ _ _ _ a e => (e.held a).plus [(k, .processing)]
  | .resending _ _ => { owned := [(k, .queued)] }
  | .abandoning f => f.held k .queued
  | .finishing f => f.held k .processing
  | _ => { owned := [(k, .processing)] }

def WorkerPc.held : WorkerPc → Held
  | .reserving k | .limitHit k | .starting k => { owned := [(k, .queued)] }
  | .discarding k f => f.held k .queued
  | .task k p => p.held k
  | .crashed k | .crashedShutdown k => { owned := [(k, .processing)] }
  | .crashedFinish k f => f.held k .processing
  | _ => {}

def MainPc.held : MainPc → Held
  | .seedEnqueue _ k e => e.held k
  | _ => {}

def Pc.held : Pc → Held
  | .main p => p.held
  | .worker _ p => p.held
  | _ => {}

theorem retryOrFinish_held (retry : Bool) (terminal : Terminal) (kind : FailKind) (k : AddrKey) :
    (retryOrFinish retry terminal kind).held k = { owned := [(k, .processing)] } := by
  cases retry <;> rfl

theorem upsertNext_held {c : Session} {count : Nat} {now : Int} {rest : List AdvertisedAddr}
    {key k : AddrKey} {out : FrontierOutcome} (h : out ≠ .enqueue) :
    (upsertNext c count now rest key out).held k = { owned := [(k, .processing)] } := by
  cases out <;> first | rfl | exact absurd rfl h

/-! ## Intents -/

/-- An address seen at a time, under a network type. -/
structure Observation where
  key : AddrKey
  ts : Int
  net : NetworkType

/-- What the next step of a task is about to do to the store or the queues, as far as others have
    to know. -/
inductive Intent where
  | observe (o : Observation)
  | push (t : Transport) (k : AddrKey)
  | take (t : Transport)
  | close
  | other

def FinishPc.intent : FinishPc → Intent
  | .close => .close
  | _ => .other

def EnqueuePc.intent (k : AddrKey) : EnqueuePc → Intent
  | .send t => .push t k
  | _ => .other

def TaskPc.intent (t : Transport) (k : AddrKey) : TaskPc → Intent
  | .upserting _ _ _ (a :: _) => .observe ⟨⟨a.host, a.port⟩, a.timestamp, a.network⟩
  | .enqueueing _ _ _ _ key e => e.intent key
  | .resending _ _ => .push t k
  | .abandoning f | .finishing f => f.intent
  | _ => .other

def Pc.intent (S : Setup) : Pc → Intent
  | .main (.seeding (k :: _)) => .observe ⟨k, S.seedTime, classify S.digests k.host⟩
  | .main (.seedEnqueue _ k e) => e.intent k
  | .main .startClose | .main (.joinClose _) | .signal .closing => .close
  | .worker _ (.discarding _ f) | .worker _ (.crashedFinish _ f) => f.intent
  | .worker _ .discardClose | .worker _ .crashedClose => .close
  | .worker t .receiving => .take t
  | .worker t (.task k p) => p.intent t k
  | _ => .other

theorem FinishPc.intent_eq (f : FinishPc) : f.intent = .close ∨ f.intent = .other := by
  cases f with
  | close => exact .inl rfl
  | _ => exact .inr rfl

/-- Who observes. -/
theorem intent_observe {S : Setup} {pc : Pc} {o : Observation} (h : pc.intent S = .observe o) :
    (∃ k rest, pc = .main (.seeding (k :: rest)) ∧ o = ⟨k, S.seedTime, classify S.digests k.host⟩) ∨
    ∃ t k c count now a rest, pc = .worker t (.task k (.upserting c count now (a :: rest))) ∧
      o = ⟨⟨a.host, a.port⟩, a.timestamp, a.network⟩ := by
  have hfin : ∀ f : FinishPc, f.intent ≠ .observe o := by
    intro f hf
    rcases f.intent_eq with hi | hi <;> rw [hi] at hf <;> cases hf
  cases pc with
  | main p =>
    cases p with
    | seeding rest =>
      cases rest with
      | nil => cases h
      | cons k rest => cases h; exact .inl ⟨k, rest, rfl, rfl⟩
    | seedEnqueue rest k e => cases e <;> cases h
    | _ => cases h
  | signal p => cases p <;> cases h
  | worker t p =>
    cases p with
    | task k p =>
      cases p with
      | upserting c count now rest =>
        cases rest with
        | nil => cases h
        | cons a rest => cases h; exact .inr ⟨t, k, c, count, now, a, rest, rfl, rfl⟩
      | enqueueing c count now rest key e => cases e <;> cases h
      | abandoning f => exact absurd h (hfin f)
      | finishing f => exact absurd h (hfin f)
      | _ => cases h
    | discarding k f => exact absurd h (hfin f)
    | crashedFinish k f => exact absurd h (hfin f)
    | _ => cases h
  | _ => cases h

/-- Who pushes. -/
theorem intent_push {S : Setup} {pc : Pc} {t : Transport} {k : AddrKey}
    (h : pc.intent S = .push t k) :
    (∃ rest, pc = .main (.seedEnqueue rest k (.send t))) ∨
    (∃ w k₀ c count now rest, pc = .worker w (.task k₀ (.enqueueing c count now rest k (.send t)))) ∨
    ∃ terminal kind, pc = .worker t (.task k (.resending terminal kind)) := by
  have hfin : ∀ f : FinishPc, f.intent ≠ .push t k := by
    intro f hf
    rcases f.intent_eq with hi | hi <;> rw [hi] at hf <;> cases hf
  cases pc with
  | main p =>
    cases p with
    | seeding rest => cases rest <;> cases h
    | seedEnqueue rest k' e => cases e <;> cases h; exact .inl ⟨rest, rfl⟩
    | _ => cases h
  | signal p => cases p <;> cases h
  | worker w p =>
    cases p with
    | task k₀ p =>
      cases p with
      | upserting c count now rest => cases rest <;> cases h
      | enqueueing c count now rest key e =>
        cases e <;> cases h
        exact .inr (.inl ⟨w, k₀, c, count, now, rest, rfl⟩)
      | resending terminal kind => cases h; exact .inr (.inr ⟨terminal, kind, rfl⟩)
      | abandoning f => exact absurd h (hfin f)
      | finishing f => exact absurd h (hfin f)
      | _ => cases h
    | discarding k f => exact absurd h (hfin f)
    | crashedFinish k f => exact absurd h (hfin f)
    | _ => cases h
  | _ => cases h

/-! ## Effects -/

/-- The states a task answers for are the states of the entries. -/
def Owns (sh : Shared) (h : Held) : Prop := ∀ x ∈ h.owned, sh.store.stateOf x.1 = some x.2

/-- The flags that are set and never cleared. -/
structure Flags where
  panicked : Bool
  shutdown : Bool
  nodeLimitReached : Bool
  workerFailed : Bool
  outputFailed : Bool
  spawned : Bool

def Shared.flags (sh : Shared) : Flags :=
  ⟨sh.panicked, sh.shutdown, sh.nodeLimitReached, sh.workerFailed, sh.outputFailed, sh.spawned⟩

structure Flags.Le (f g : Flags) : Prop where
  panicked : f.panicked = true → g.panicked = true
  shutdown : f.shutdown = true → g.shutdown = true
  nodeLimitReached : f.nodeLimitReached = true → g.nodeLimitReached = true
  workerFailed : f.workerFailed = true → g.workerFailed = true
  outputFailed : f.outputFailed = true → g.outputFailed = true
  spawned : f.spawned = true → g.spawned = true

namespace Flags

theorem Le.refl (f : Flags) : f.Le f := ⟨id, id, id, id, id, id⟩
theorem le_panicked (f : Flags) : f.Le { f with panicked := true } :=
  ⟨fun _ => rfl, id, id, id, id, id⟩
theorem le_shutdown (f : Flags) : f.Le { f with shutdown := true } :=
  ⟨id, fun _ => rfl, id, id, id, id⟩
theorem le_nodeLimitReached (f : Flags) : f.Le { f with nodeLimitReached := true } :=
  ⟨id, id, fun _ => rfl, id, id, id⟩
theorem le_workerFailed (f : Flags) : f.Le { f with workerFailed := true } :=
  ⟨id, id, id, fun _ => rfl, id, id⟩
theorem le_outputFailed (f : Flags) : f.Le { f with outputFailed := true } :=
  ⟨id, id, id, id, fun _ => rfl, id⟩
theorem le_spawned (f : Flags) : f.Le { f with spawned := true } :=
  ⟨id, id, id, id, id, fun _ => rfl⟩

end Flags

/-- A write by a task that does not move the entry: state, network and timestamp stay. -/
structure Keeps (f : NodeEntry → NodeEntry) : Prop where
  state : ∀ e, (f e).state = e.state
  network : ∀ e, (f e).network = e.network
  freshestTs : ∀ e, (f e).freshestTs = e.freshestTs

/-- A write that sets the state; network and timestamp stay. -/
structure Sets (st : NodeState) (f : NodeEntry → NodeEntry) : Prop where
  state : ∀ e, (f e).state = st
  network : ∀ e, (f e).network = e.network
  freshestTs : ∀ e, (f e).freshestTs = e.freshestTs

/-- Everything a step can do to the store, the queues, the flags and what the task holds.  Entries
    appear and keys move only as the task intended. -/
inductive Effect (does : Intent) (sh : Shared) : Held → Shared → Held → Prop
  | aside {sh' : Shared} {h : Held} (hs : sh'.store = sh.store) (hq : sh'.queue = sh.queue)
      (hf : sh.flags.Le sh'.flags) : Effect does sh h sh' h
  | close {sh' : Shared} {h : Held} (hs : sh'.store = sh.store)
      (hq : sh'.queue = sh.closeAll.queue) (hf : sh.flags.Le sh'.flags) (ho : does = .close) :
      Effect does sh h sh' h
  /-- a write to the entry the task is processing -/
  | write {k : AddrKey} {f : NodeEntry → NodeEntry} {h : Held} (hk : (k, .processing) ∈ h.owned)
      (hf : Keeps f) : Effect does sh h (sh.writeEntry k f) h
  /-- an observation of a known address -/
  | refresh {o : Observation} {h : Held} (ho : does = .observe o) :
      Effect does sh h (sh.writeEntry o.key (NodeStore.refresh o.ts)) h
  | reject {o : Observation} {h : Held} (ho : does = .observe o) (hnew : sh.store.entry o.key = none)
      (hfull : sh.store.maxEntries ≤ sh.store.entries) :
      Effect does sh h { sh with store := sh.store.rejectEntry } h
  /-- a new entry is stored as stale -/
  | park {o : Observation} {h : Held} (ho : does = .observe o) (hnew : sh.store.entry o.key = none)
      (hroom : sh.store.entries < sh.store.maxEntries) :
      Effect does sh h { sh with store :=
        ({ sh.store with entries := sh.store.entries + 1 }.insertEntry o.key
          (.new o.net o.ts .staleDiscarded)) } h
  /-- a new entry is stored as queued -/
  | discover {o : Observation} {own : List (AddrKey × NodeState)} (ho : does = .observe o)
      (hnew : sh.store.entry o.key = none) (hroom : sh.store.entries < sh.store.maxEntries) :
      Effect does sh { owned := own } { sh with store :=
        ({ sh.store with entries := sh.store.entries + 1 }.insertEntry o.key
          (.new o.net o.ts .queued)) }
        { owned := (o.key, .queued) :: own, uncounted := 1 }
  /-- a stale entry is queued -/
  | revive {o : Observation} {own : List (AddrKey × NodeState)} (ho : does = .observe o)
      (hstale : sh.store.stateOf o.key = some .staleDiscarded) :
      Effect does sh { owned := own } (sh.writeEntry o.key (NodeStore.revive o.ts))
        { owned := (o.key, .queued) :: own, uncounted := 1 }
  | incr {own : List (AddrKey × NodeState)} :
      Effect does sh { owned := own, uncounted := 1 } { sh with store := sh.store.incrOutstanding }
        { owned := own }
  | decr {own : List (AddrKey × NodeState)} :
      Effect does sh { owned := own, undecremented := 1 } { sh with store := sh.store.decrOutstanding }
        { owned := own }
  | push {t : Transport} {k : AddrKey} {own : List (AddrKey × NodeState)} (ho : does = .push t k)
      (hopen : (sh.queue t).closed = false)
      (hroom : (sh.queue t).items.length < (sh.queue t).capacity) :
      Effect does sh { owned := (k, .queued) :: own }
        { sh with
          queue := Function.update sh.queue t
            { sh.queue t with
              items := (sh.queue t).items ++ [k], accepted := (sh.queue t).accepted ++ [k] } }
        { owned := own }
  | pop {t : Transport} {k : AddrKey} {rest : List AddrKey} {own : List (AddrKey × NodeState)}
      (ho : does = .take t) (hitems : (sh.queue t).items = k :: rest) :
      Effect does sh { owned := own } (sh.pop t rest) { owned := (k, .queued) :: own }
  /-- `Queued` to `Processing`, or back -/
  | switch {k : AddrKey} {st st' : NodeState} {f : NodeEntry → NodeEntry}
      {own : List (AddrKey × NodeState)} (hst' : st'.active = true) (hf : Sets st' f) :
      Effect does sh { owned := (k, st) :: own } (sh.writeEntry k f) { owned := (k, st') :: own }
  /-- a terminal state is written -/
  | settle {k : AddrKey} {st st' : NodeState} {f : NodeEntry → NodeEntry}
      {own : List (AddrKey × NodeState)} (hst' : st'.active = false) (hf : Sets st' f)
      (hns : st' ≠ .staleDiscarded) :
      Effect does sh { owned := (k, st) :: own } (sh.writeEntry k f)
        { owned := own, undecremented := 1 }
  /-- the task panics, or does not find the entry it answers for -/
  | forfeit {sh' : Shared} {h h' : Held} (hwhy : sh'.panicked = true ∨ ¬Owns sh h)
      (hs : sh'.store = sh.store) (hq : sh'.queue = sh.queue) (hf : sh.flags.Le sh'.flags) :
      Effect does sh h sh' h'

namespace Effect

theorem same {does : Intent} {sh sh' : Shared} {h : Held} (hs : sh'.store = sh.store) (hq : sh'.queue = sh.queue)
    (hf : sh'.flags = sh.flags) : Effect does sh h sh' h :=
  .aside hs hq (hf ▸ .refl _)

theorem closeAll (sh : Shared) (h : Held) : Effect .close sh h sh.closeAll h :=
  .close rfl rfl (.refl _) rfl

/-- A write by a task at a position that answers for `k` alone. -/
theorem write_own (does : Intent) (sh : Shared) (k : AddrKey) {f : NodeEntry → NodeEntry} (hf : Keeps f) :
    Effect does sh { owned := [(k, .processing)] } (sh.writeEntry k f)
      { owned := [(k, .processing)] } :=
  .write (List.mem_singleton.mpr rfl) hf

end Effect

/-! ## Every step has an effect -/

theorem enqueueStep_effect (H : Digests) (sh : Shared) (k : AddrKey) (e : EnqueuePc)
    (own : List (AddrKey × NodeState)) :
    Effect (e.intent k) sh ((e.held k).plus own) (enqueueStep H sh k e).1
      ((((enqueueStep H sh k e).2.map (EnqueuePc.held k)).getD {}).plus own) := by
  cases e with
  | route => exact .same rfl rfl rfl
  | count t => exact .incr
  | send t =>
    simp only [enqueueStep]
    split
    · rename_i sh' hsend
      obtain ⟨hopen, hroom, rfl⟩ := Shared.trySend_some hsend
      exact .push rfl hopen hroom
    · exact .same rfl rfl rfl
  | discard =>
    have hset : Sets .budgetDiscarded fun e => { e with state := .budgetDiscarded } :=
      ⟨fun _ => rfl, fun _ => rfl, fun _ => rfl⟩
    exact .settle rfl hset nofun
  | uncount => exact .decr

theorem finishStep_effect (sh : Shared) (k : AddrKey) (st : NodeState) (hact : st.active = true)
    (f : FinishPc) :
    Effect f.intent sh (f.held k st) (finishStep sh k f).1
      (((finishStep sh k f).2.map (FinishPc.held k st)).getD {}) := by
  cases f with
  | write terminal reason =>
    have hlost : sh.store.stateOf k ≠ some st → ¬Owns sh ((FinishPc.write terminal reason).held k st) :=
      fun hne hown => hne (hown (k, st) (by simp [FinishPc.held]))
    cases he : sh.store.entry k with
    | none =>
      simp only [finishStep, he]
      exact .forfeit (.inr (hlost (by simp [NodeStore.stateOf, he]))) rfl rfl (.refl _)
    | some e =>
      simp only [finishStep, he]
      split
      · exact .settle terminal.property.1 ⟨fun _ => rfl, fun _ => rfl, fun _ => rfl⟩ terminal.property.2
      · rename_i hina
        refine .forfeit (.inr (hlost ?_)) rfl rfl (.refl _)
        simp only [NodeStore.stateOf, he, Option.map_some, ne_eq, Option.some.injEq]
        rintro rfl
        exact hina hact
  | decr =>
    simp only [finishStep]
    split
    · exact .decr
    · exact .decr
  | close => exact .closeAll sh _

/-- The effect of a frontier upsert by a task that holds `own`. -/
theorem upsert_effect (sh : Shared) (k : AddrKey) (ts : Int) (net : NetworkType) (thr now : Int)
    (own : List (AddrKey × NodeState)) :
    Effect (.observe ⟨k, ts, net⟩) sh { owned := own }
      { sh with store := (sh.store.frontierUpsert k ts net thr now).1 }
      (if (sh.store.frontierUpsert k ts net thr now).2 = .enqueue
        then { owned := (k, .queued) :: own, uncounted := 1 } else { owned := own }) := by
  have hc := NodeStore.frontierUpsert_cases sh.store k ts net thr now
  generalize (sh.store.frontierUpsert k ts net thr now).1 = s' at hc ⊢
  generalize (sh.store.frontierUpsert k ts net thr now).2 = out at hc ⊢
  cases hc with
  | refreshed he hout hrej hstate =>
    rw [if_neg hout]
    exact .refresh (o := ⟨k, ts, net⟩) rfl
  | revived he hst hfresh => exact .revive (o := ⟨k, ts, net⟩) rfl (by simp [NodeStore.stateOf, he, hst])
  | rejected he hfull => exact .reject (o := ⟨k, ts, net⟩) rfl he hfull
  | parked he hroom hstale => exact .park (o := ⟨k, ts, net⟩) rfl he hroom
  | discovered he hroom hfresh => exact .discover (o := ⟨k, ts, net⟩) rfl he hroom

/-- The effect of a seed observation. -/
theorem seed_effect (H : Digests) (sh : Shared) (k : AddrKey) (now : Int) :
    Effect (.observe ⟨k, now, classify H k.host⟩) sh {}
      { sh with store := (sh.store.observeSeed H k now).1 }
      (if (sh.store.observeSeed H k now).2 then { owned := [(k, .queued)], uncounted := 1 }
        else {}) := by
  have hc := NodeStore.observeSeed_cases H sh.store k now
  generalize (sh.store.observeSeed H k now).1 = s' at hc ⊢
  generalize (sh.store.observeSeed H k now).2 = out at hc ⊢
  cases hc with
  | refreshed he => exact .refresh (o := ⟨k, now, classify H k.host⟩) rfl
  | rejected he hfull => exact .reject (o := ⟨k, now, classify H k.host⟩) rfl he hfull
  | discovered he hroom => exact .discover (o := ⟨k, now, classify H k.host⟩) rfl he hroom

theorem logStep_effect {π : Type} {sh sh' : Shared} {call : LogCall} {wait : LogCall → π}
    {done : Option Nat → π} {p : π} (h : logStep sh call wait done = some (sh', p)) :
    sh' = { sh with log := sh'.log } ∧ ((∃ c, p = wait c) ∨ ∃ res, p = done res) := by
  unfold logStep at h
  obtain ⟨⟨L, next⟩, hcall, heq⟩ := Option.map_eq_some_iff.mp h
  simp only [Prod.mk.injEq] at heq
  obtain ⟨rfl, rfl⟩ := heq
  refine ⟨rfl, ?_⟩
  cases next with
  | pending c => exact .inl ⟨c, rfl⟩
  | returned res => exact .inr ⟨res, rfl⟩

theorem taskStep_effect {S : Setup} {sh sh' : Shared} {t : Transport} {k : AddrKey} {a : Answer}
    {p : TaskPc} {next : Option TaskPc} (h : taskStep S sh t k a p = some (sh', next)) :
    Effect (p.intent t k) sh (p.held k) sh' ((next.map (TaskPc.held k)).getD {}) := by
  cases p with
  | upserting c count now rest =>
    cases rest with
    | nil => cases h; exact .same rfl rfl rfl
    | cons addr rest =>
      simp only [taskStep, Option.some.injEq, Prod.mk.injEq] at h
      obtain ⟨rfl, rfl⟩ := h
      have he := upsert_effect sh ⟨addr.host, addr.port⟩ addr.timestamp addr.network
        S.settings.freshnessThreshold now [(k, .processing)]
      simp only [Option.map_some, Option.getD_some]
      split at he
      · rename_i hout; rw [hout]; exact he
      · rename_i hout; rw [upsertNext_held hout]; exact he
  | enqueueing c count now rest key e =>
    simp only [taskStep, Option.some.injEq, Prod.mk.injEq] at h
    obtain ⟨rfl, rfl⟩ := h
    have he := enqueueStep_effect S.digests sh key e [(k, .processing)]
    cases hnext : (enqueueStep S.digests sh key e).2 <;> rw [hnext] at he <;> exact he
  | requeueing terminal kind =>
    cases h
    exact .switch rfl ⟨fun _ => rfl, fun _ => rfl, fun _ => rfl⟩
  | resending terminal kind =>
    simp only [taskStep] at h
    split at h
    · rename_i sh₁ hsend
      obtain ⟨hopen, hroom, rfl⟩ := Shared.trySend_some hsend
      cases h
      exact .push rfl hopen hroom
    · cases h; exact .same rfl rfl rfl
  | abandoning f =>
    simp only [taskStep, Option.some.injEq, Prod.mk.injEq] at h
    obtain ⟨rfl, rfl⟩ := h
    have he := finishStep_effect sh k .queued rfl f
    cases hnext : (finishStep sh k f).2 <;> rw [hnext] at he <;> exact he
  | finishing f =>
    simp only [taskStep, Option.some.injEq, Prod.mk.injEq] at h
    obtain ⟨rfl, rfl⟩ := h
    have he := finishStep_effect sh k .processing rfl f
    cases hnext : (finishStep sh k f).2 <;> rw [hnext] at he <;> exact he
  | everConnected n kind =>
    cases h
    simp only [Option.map_some, Option.getD_some, retryOrFinish_held]
    exact .same rfl rfl rfl
  | handshakeTimeout | handshakeFailed =>
    cases h
    simp only [Option.map_some, Option.getD_some, retryOrFinish_held]
    exact .write_own _ sh k ⟨fun _ => rfl, fun _ => rfl, fun _ => rfl⟩
  | connecting | sendVersion | handshaking | collecting | malformedGuard | messageGuard
    | outcomeGuard | shuffling =>
    simp only [taskStep] at h
    split at h <;> cases h <;> exact .same rfl rfl rfl
  | handshaken hd sentTs =>
    cases h
    have hw := Effect.write_own .other sh k (f := fun e => { e with handshake := some hd })
      ⟨fun _ => rfl, fun _ => rfl, fun _ => rfl⟩
    by_cases hp : S.settings.probeMode <;> simp only [hp] <;> exact hw
  | getaddr c =>
    cases h
    by_cases hp : a.send.isSome <;> simp only [hp] <;> exact .same rfl rfl rfl
  | malformedCount c event =>
    cases h
    have hw := Effect.write_own .other sh k (f := countMalformed)
      ⟨fun _ => rfl, fun _ => rfl, fun _ => rfl⟩
    by_cases hp : S.logging <;> simp only [hp] <;> exact hw
  | breakdown c command parsed =>
    cases h
    have hw := Effect.write_own .other sh k (f := fun e => { e with stats := recordMessage parsed e.stats })
      ⟨fun _ => rfl, fun _ => rfl, fun _ => rfl⟩
    by_cases hp : S.logging <;> simp only [hp] <;> exact hw
  | outcomeWrite c outcome =>
    cases h
    have hw := Effect.write_own .other sh k (f := setCollectionOutcome outcome)
      ⟨fun _ => rfl, fun _ => rfl, fun _ => rfl⟩
    by_cases hp : S.logging <;> simp only [hp] <;> exact hw
  | messageDone c count =>
    cases h
    have hw := Effect.write_own .other sh k (f := countValid)
      ⟨fun _ => rfl, fun _ => rfl, fun _ => rfl⟩
    by_cases hp : isGetaddrReplyComplete count <;> simp only [hp] <;> exact hw
  | malformedLog | blockLog | outcomeLog =>
    obtain ⟨hsh, ⟨_, rfl⟩ | ⟨res, rfl⟩⟩ := logStep_effect h
    · rw [hsh]; exact .same rfl rfl rfl
    · rw [hsh]; cases res <;> exact .same rfl rfl rfl
  | begin | malformedRelease | blockFailed | outcomeRelease => cases h; exact .same rfl rfl rfl
  | malformedMark | blockMark | outcomeMark => cases h; exact .aside rfl rfl (Flags.le_outputFailed _)
  | count | connectFailed | connected | connectedAttempt | firstVersion | versionSent | completing =>
    cases h; exact .write_own _ sh k ⟨fun _ => rfl, fun _ => rfl, fun _ => rfl⟩

/-- How a task comes to be inside `enqueue`. -/
theorem enqueueing_cases {S : Setup} {sh sh' : Shared} {t : Transport} {k : AddrKey} {a : Answer}
    {p : TaskPc} {c : Session} {count : Nat} {now : Int} {rest : List AdvertisedAddr} {key : AddrKey}
    {e : EnqueuePc}
    (h : taskStep S sh t k a p = some (sh', some (.enqueueing c count now rest key e))) :
    (∃ addr : AdvertisedAddr, p = .upserting c count now (addr :: rest) ∧
      key = ⟨addr.host, addr.port⟩ ∧ e = .route ∧
      sh' = { sh with store := (sh.store.frontierUpsert ⟨addr.host, addr.port⟩ addr.timestamp
        addr.network S.settings.freshnessThreshold now).1 } ∧
      (sh.store.frontierUpsert ⟨addr.host, addr.port⟩ addr.timestamp addr.network
        S.settings.freshnessThreshold now).2 = .enqueue) ∨
    ∃ e₀, p = .enqueueing c count now rest key e₀ ∧ sh' = (enqueueStep S.digests sh key e₀).1 ∧
      (enqueueStep S.digests sh key e₀).2 = some e := by
  cases p with
  | upserting c₀ count₀ now₀ rest₀ =>
    cases rest₀ with
    | nil => cases h
    | cons addr rest₀ =>
      cases hout : (sh.store.frontierUpsert ⟨addr.host, addr.port⟩ addr.timestamp addr.network
          S.settings.freshnessThreshold now₀).2 <;>
        simp only [taskStep, hout, upsertNext, Option.some.injEq, Prod.mk.injEq] at h <;>
        obtain ⟨rfl, heq⟩ := h <;> cases heq
      exact .inl ⟨addr, rfl, rfl, rfl, rfl, hout⟩
  | enqueueing c₀ count₀ now₀ rest₀ key₀ e₀ =>
    cases hnext : (enqueueStep S.digests sh key₀ e₀).2 <;>
      simp only [taskStep, hnext, Option.some.injEq, Prod.mk.injEq] at h <;>
      obtain ⟨rfl, heq⟩ := h <;> cases heq
    exact .inr ⟨e₀, rfl, rfl, hnext⟩
  | everConnected n kind =>
    simp only [taskStep, retryOrFinish, Option.some.injEq, Prod.mk.injEq] at h
    split at h <;> cases h.2
  | handshakeTimeout n =>
    simp only [taskStep, retryOrFinish, Option.some.injEq, Prod.mk.injEq] at h
    split at h <;> cases h.2
  | handshakeFailed n kind =>
    simp only [taskStep, retryOrFinish, Option.some.injEq, Prod.mk.injEq] at h
    split at h <;> cases h.2
  | malformedLog c call =>
    obtain ⟨-, ⟨_, heq⟩ | ⟨res, heq⟩⟩ := logStep_effect h
    · cases heq
    · cases res <;> cases heq
  | blockLog c parsed now call =>
    obtain ⟨-, ⟨_, heq⟩ | ⟨res, heq⟩⟩ := logStep_effect h
    · cases heq
    · cases res <;> cases heq
  | outcomeLog c call =>
    obtain ⟨-, ⟨_, heq⟩ | ⟨res, heq⟩⟩ := logStep_effect h
    · cases heq
    · cases res <;> cases heq
  | abandoning f =>
    cases hnext : (finishStep sh k f).2 <;> simp only [taskStep, hnext] at h <;> cases h
  | finishing f =>
    cases hnext : (finishStep sh k f).2 <;> simp only [taskStep, hnext] at h <;> cases h
  | connecting | sendVersion | handshaking | collecting | malformedGuard | messageGuard
    | outcomeGuard | resending | shuffling =>
    simp only [taskStep] at h
    split at h <;> cases h
  | handshaken | getaddr | malformedCount | breakdown | messageDone | outcomeWrite =>
    simp only [taskStep, Option.some.injEq, Prod.mk.injEq] at h
    obtain ⟨-, heq⟩ := h
    split at heq <;> cases heq
  | _ => cases h

/-- `finish` writes first. -/
theorem finishStep_next {sh : Shared} {k : AddrKey} {f f' : FinishPc}
    (h : (finishStep sh k f).2 = some f') : f' = .decr ∨ f' = .close := by
  cases f with
  | write terminal reason =>
    simp only [finishStep] at h
    split at h
    · cases h
    · split at h <;> cases h
      exact .inl rfl
  | decr =>
    simp only [finishStep] at h
    split at h <;> cases h
    exact .inr rfl
  | close => cases h

/-- What `worker_loop` does outside `process`, position by position. -/
inductive LoopStep (S : Setup) (sh : Shared) (t : Transport) : WorkerPc → Shared → WorkerPc → Prop
  | leave (hdown : sh.shutdown = true) :
    LoopStep S sh t .top { sh with returned := sh.returned + 1 } .exited
  | stay (hup : sh.shutdown = false) : LoopStep S sh t .top sh .receiving
  | take {k : AddrKey} {rest : List AddrKey} (hitems : (sh.queue t).items = k :: rest) :
    LoopStep S sh t .receiving (sh.pop t rest) (.reserving k)
  | drained (hitems : (sh.queue t).items = []) (hclosed : (sh.queue t).closed = true) :
    LoopStep S sh t .receiving { sh with returned := sh.returned + 1 } .exited
  | reserve {k : AddrKey} (hroom : ∀ max, S.settings.maxNodes = some max → sh.numProcessed < max) :
    LoopStep S sh t (.reserving k) { sh with numProcessed := sh.numProcessed + 1 } (.starting k)
  | refuse {k : AddrKey} {max : Nat} (hmax : S.settings.maxNodes = some max)
      (hfull : max ≤ sh.numProcessed) : LoopStep S sh t (.reserving k) sh (.limitHit k)
  | limit {k : AddrKey} :
    LoopStep S sh t (.limitHit k) { sh with nodeLimitReached := true }
      (.discarding k (.write .budgetDiscarded none))
  | discard {k : AddrKey} {f f' : FinishPc} (hf : (finishStep sh k f).2 = some f') :
    LoopStep S sh t (.discarding k f) (finishStep sh k f).1 (.discarding k f')
  | discarded {k : AddrKey} {f : FinishPc} (hf : (finishStep sh k f).2 = none) :
    LoopStep S sh t (.discarding k f) (finishStep sh k f).1 .discardClose
  | close : LoopStep S sh t .discardClose sh.closeAll .top
  | start {k : AddrKey} :
    LoopStep S sh t (.starting k) (sh.writeEntry k fun e => { e with state := .processing })
      (.task k .begin)
  | crash {k : AddrKey} :
    LoopStep S sh t (.crashed k) { sh with workerFailed := true } (.crashedShutdown k)
  | shutdown {k : AddrKey} :
    LoopStep S sh t (.crashedShutdown k) { sh with shutdown := true }
      (.crashedFinish k (.write .handshakeFailed (some .workerFailed)))
  | crashFinish {k : AddrKey} {f f' : FinishPc} (hf : (finishStep sh k f).2 = some f') :
    LoopStep S sh t (.crashedFinish k f) (finishStep sh k f).1 (.crashedFinish k f')
  | crashFinished {k : AddrKey} {f : FinishPc} (hf : (finishStep sh k f).2 = none) :
    LoopStep S sh t (.crashedFinish k f) (finishStep sh k f).1 .crashedClose
  | crashClose :
    LoopStep S sh t .crashedClose { sh.closeAll with returned := sh.returned + 1 } .exited

theorem loopStep_cases {S : Setup} {sh sh' : Shared} {t : Transport} {p p' : WorkerPc}
    (h : loopStep S sh t p = some (sh', p')) : LoopStep S sh t p sh' p' := by
  cases p with
  | top =>
    simp only [loopStep] at h
    split at h <;> cases h <;> rename_i hdown
    · exact .leave hdown
    · exact .stay (Bool.eq_false_iff.mpr hdown)
  | receiving =>
    simp only [loopStep] at h
    split at h
    · rename_i hitems
      cases h
      exact .take hitems
    · rename_i hitems
      split at h <;> cases h
      rename_i hclosed
      exact .drained hitems hclosed
  | reserving k =>
    simp only [loopStep, reserveNodeSlot] at h
    cases hmax : S.settings.maxNodes with
    | none =>
      simp only [hmax] at h
      cases h
      exact .reserve fun max h => by rw [hmax] at h; cases h
    | some max =>
      simp only [hmax] at h
      by_cases hroom : sh.numProcessed < max
      · simp only [hroom, if_true] at h
        cases h
        exact .reserve fun max' h => by rw [hmax] at h; cases h; exact hroom
      · simp only [hroom, if_false] at h
        cases h
        exact .refuse hmax (Nat.le_of_not_lt hroom)
  | discarding k f =>
    cases hf : (finishStep sh k f).2 <;> simp only [loopStep, hf] at h <;> cases h
    · exact .discarded hf
    · exact .discard hf
  | crashedFinish k f =>
    cases hf : (finishStep sh k f).2 <;> simp only [loopStep, hf] at h <;> cases h
    · exact .crashFinished hf
    · exact .crashFinish hf
  | limitHit => cases h; exact .limit
  | discardClose => cases h; exact .close
  | starting => cases h; exact .start
  | crashed => cases h; exact .crash
  | crashedShutdown => cases h; exact .shutdown
  | crashedClose => cases h; exact .crashClose
  | task | exited | died => cases h

theorem loopStep_effect {S : Setup} {sh sh' : Shared} {t : Transport} {p p' : WorkerPc}
    (h : loopStep S sh t p = some (sh', p')) :
    Effect ((Pc.worker t p).intent S) sh p.held sh' p'.held := by
  cases loopStep_cases h with
  | leave | stay | drained | reserve | refuse => exact .same rfl rfl rfl
  | take hitems => exact .pop rfl hitems
  | @discard k f f' hf | @discarded k f hf =>
    have he := finishStep_effect sh k .queued rfl f
    rw [hf] at he
    exact he
  | @crashFinish k f f' hf | @crashFinished k f hf =>
    have he := finishStep_effect sh k .processing rfl f
    rw [hf] at he
    exact he
  | start => exact .switch rfl ⟨fun _ => rfl, fun _ => rfl, fun _ => rfl⟩
  | close => exact .closeAll sh _
  | crashClose => exact .close rfl rfl (.refl _) rfl
  | limit => exact .aside rfl rfl (Flags.le_nodeLimitReached _)
  | crash => exact .aside rfl rfl (Flags.le_workerFailed _)
  | shutdown => exact .aside rfl rfl (Flags.le_shutdown _)

/-- What a worker can do: fail, take a step of `process`, or one of its loop. -/
theorem workerStep_cases {S : Setup} {sh sh' : Shared} {t : Transport} {a : Answer}
    {p p' : WorkerPc} (h : workerStep S sh t a p = some (sh', p')) :
    (∃ k q, p = .task k q ∧ a.panic = true ∧ sh' = unwind sh q ∧ p' = .crashed k) ∨
    (∃ k q next, p = .task k q ∧ a.panic = false ∧ taskStep S sh t k a q = some (sh', next) ∧
      p' = (next.map (WorkerPc.task k)).getD .top) ∨
    ((∀ k q, p ≠ .task k q) ∧ p.ended = false ∧ sh.spawned = true ∧ a.panic = true ∧
      sh' = { sh with failedJoins := sh.failedJoins + 1, panicked := true } ∧ p' = .died) ∨
    ((∀ k q, p ≠ .task k q) ∧ sh.spawned = true ∧ a.panic = false ∧
      loopStep S sh t p = some (sh', p')) := by
  unfold workerStep at h
  split at h
  · rename_i k q
    split at h
    · rename_i hpanic; cases h; exact .inl ⟨k, q, rfl, hpanic, rfl, rfl⟩
    · rename_i hpanic
      obtain ⟨⟨sh₁, next⟩, hstep, heq⟩ := Option.map_eq_some_iff.mp h
      cases heq
      exact .inr (.inl ⟨k, q, next, rfl, by simpa using hpanic, hstep, by cases next <;> rfl⟩)
  · rename_i hp
    split at h
    · cases h
    · rename_i hrun
      obtain ⟨hsp, hend⟩ : sh.spawned = true ∧ p.ended = false := by simpa using hrun
      split at h
      · rename_i hpanic
        cases h
        exact .inr (.inr (.inl ⟨fun k q e => hp k q e, hend, hsp, hpanic, rfl, rfl⟩))
      · rename_i hpanic
        exact .inr (.inr (.inr ⟨fun k q e => hp k q e, hsp, by simpa using hpanic, h⟩))

theorem workerStep_effect {S : Setup} {sh sh' : Shared} {t : Transport} {a : Answer}
    {p p' : WorkerPc} (h : workerStep S sh t a p = some (sh', p')) :
    Effect ((Pc.worker t p).intent S) sh p.held sh' p'.held := by
  rcases workerStep_cases h with ⟨k, q, rfl, -, rfl, rfl⟩ | ⟨k, q, next, rfl, -, hstep, rfl⟩ |
    ⟨-, -, -, -, rfl, rfl⟩ | ⟨-, -, -, hstep⟩
  · exact .forfeit (.inl rfl) rfl rfl (Flags.le_panicked _)
  · have he := taskStep_effect hstep
    cases next <;> exact he
  · exact .forfeit (.inl rfl) rfl rfl (Flags.le_panicked _)
  · exact loopStep_effect hstep

theorem mainStep_effect {S : Setup} {sh sh' : Shared} {a : Answer} {p p' : MainPc}
    (h : mainStep S sh a p = some (sh', p')) :
    Effect ((Pc.main p).intent S) sh p.held sh' p'.held := by
  cases p with
  | seeding rest =>
    cases rest with
    | nil => cases h; exact .same rfl rfl rfl
    | cons k rest =>
      cases h
      have he := seed_effect S.digests sh k S.seedTime
      cases hnew : (sh.store.observeSeed S.digests k S.seedTime).2 <;> rw [hnew] at he <;> exact he
  | seedEnqueue rest k e =>
    cases h
    have he := enqueueStep_effect S.digests sh k e []
    cases hnext : (enqueueStep S.digests sh k e).2 <;> rw [hnext] at he <;>
      simpa [Held.plus, MainPc.held, Pc.intent] using he
  | startCheck =>
    cases h
    by_cases hz : sh.store.outstanding = 0 <;> simp only [hz] <;> exact .same rfl rfl rfl
  | joining joined =>
    simp only [mainStep] at h
    split at h
    · cases h; exact .same rfl rfl rfl
    · split at h <;> split at h <;> cases h <;> exact .same rfl rfl rfl
  | awaitSignals | awaitCheckpoint =>
    simp only [mainStep] at h
    split at h <;> cases h
    exact .same rfl rfl rfl
  | stopping | writing =>
    simp only [mainStep] at h
    split at h <;> cases h <;> exact .same rfl rfl rfl
  | checkWorkers =>
    cases h
    by_cases hf : sh.workerFailed <;> simp only [hf] <;> exact .same rfl rfl rfl
  | finalFlush r =>
    cases h
    by_cases hl : S.logging <;> simp only [hl] <;> exact .same rfl rfl rfl
  | flushing r call =>
    obtain ⟨hsh, ⟨_, rfl⟩ | ⟨res, rfl⟩⟩ := logStep_effect h
    · rw [hsh]; exact .same rfl rfl rfl
    · rw [hsh]; cases res <;> exact .same rfl rfl rfl
  | startClose | joinClose => cases h; exact .closeAll sh _
  | spawning => cases h; exact .aside rfl rfl (Flags.le_spawned _)
  | joinFailed => cases h; exact .aside rfl rfl (Flags.le_workerFailed _)
  | joinShutdown => cases h; exact .aside rfl rfl (Flags.le_shutdown _)
  | marking => cases h; exact .aside rfl rfl (Flags.le_outputFailed _)
  | abortSignals | checkOutput => cases h; exact .same rfl rfl rfl
  | finished => cases h

theorem signalStep_effect {S : Setup} {sh sh' : Shared} {p p' : SignalPc}
    (hs : signalStep sh p = some (sh', p')) (h : Held) :
    Effect ((Pc.signal p).intent S) sh h sh' h := by
  cases p with
  | waiting | armed =>
    simp only [signalStep] at hs
    split at hs <;> cases hs
    exact .same rfl rfl rfl
  | storing => cases hs; exact .aside rfl rfl (Flags.le_shutdown _)
  | closing => cases hs; exact .close rfl rfl (.refl _) rfl

theorem checkpointStep_effect {S : Setup} {sh sh' : Shared} {a : Answer} {p p' : CheckpointPc}
    (hs : checkpointStep S sh a p = some (sh', p')) (h : Held) {does : Intent} : Effect does sh h sh' h := by
  cases p with
  | idle =>
    simp only [checkpointStep] at hs
    split at hs
    · cases hs
    · split at hs
      · cases hs; exact .same rfl rfl rfl
      · split at hs <;> cases hs
        exact .same rfl rfl rfl
  | acquiring =>
    simp only [checkpointStep] at hs
    split at hs <;> cases hs
    exact .same rfl rfl rfl
  | flushing processed call =>
    obtain ⟨hsh, -⟩ := logStep_effect hs
    rw [hsh]; exact .same rfl rfl rfl
  | marking => cases hs; exact .aside rfl rfl (Flags.le_outputFailed _)
  | leaving | snapshotting => cases hs; exact .same rfl rfl rfl
  | cloning processed durable rest acc => cases rest <;> cases hs <;> exact .same rfl rfl rfl
  | publishing m =>
    cases hs
    by_cases hst : a.stored <;> simp only [hst] <;> exact .same rfl rfl rfl
  | exited => cases hs

/-- **Every step has one of the effects.** -/
theorem step_effect {S : Setup} {sh sh' : Shared} {pc pc' : Pc} {a : Answer}
    (h : program S sh pc a = some (sh', pc')) :
    Effect (pc.intent S) sh pc.held sh' pc'.held := by
  unfold program at h
  split at h
  · cases h
  cases pc with
  | main p =>
    obtain ⟨⟨sh₁, p₁⟩, hs, heq⟩ := Option.map_eq_some_iff.mp h
    cases heq
    exact mainStep_effect hs
  | signal p =>
    obtain ⟨⟨sh₁, p₁⟩, hs, heq⟩ := Option.map_eq_some_iff.mp h
    cases heq
    exact signalStep_effect hs _
  | checkpoint p =>
    obtain ⟨⟨sh₁, p₁⟩, hs, heq⟩ := Option.map_eq_some_iff.mp h
    cases heq
    exact checkpointStep_effect hs _
  | logWriter =>
    obtain ⟨L, hs, heq⟩ := Option.map_eq_some_iff.mp h
    cases heq
    exact .same rfl rfl rfl
  | worker t p =>
    obtain ⟨⟨sh₁, p₁⟩, hs, heq⟩ := Option.map_eq_some_iff.mp h
    cases heq
    exact workerStep_effect hs

/-! ## What no effect undoes -/

namespace Effect

variable {does : Intent} {sh sh' : Shared} {h h' : Held}

/-- Flags stay set. -/
theorem flags (he : Effect does sh h sh' h') : sh.flags.Le sh'.flags := by
  cases he with
  | aside hs hq hf => exact hf
  | close hs hq hf => exact hf
  | forfeit hwhy hs hq hf => exact hf
  | _ => exact .refl _

/-- Queues stay closed. -/
theorem closed (he : Effect does sh h sh' h') {t : Transport} (hc : (sh.queue t).closed = true) :
    (sh'.queue t).closed = true := by
  cases he with
  | aside hs hq hf => rw [hq]; exact hc
  | close hs hq hf => rw [hq]; rfl
  | forfeit hwhy hs hq hf => rw [hq]; exact hc
  | @push t' k own hopen hroom =>
    by_cases ht : t = t'
    · subst ht; simpa using hc
    · simpa [ht] using hc
  | @pop t' k rest own hitems =>
    by_cases ht : t = t'
    · subst ht; simpa [Shared.pop] using hc
    · simpa [Shared.pop, ht] using hc
  | _ => exact hc

/-- An entry stays, with its network. -/
theorem network (he : Effect does sh h sh' h') {k : AddrKey} {net : NetworkType}
    (hk : sh.store.networkOf k = some net) : sh'.store.networkOf k = some net := by
  have hwrite : ∀ {k' : AddrKey} {f : NodeEntry → NodeEntry}, (∀ e, (f e).network = e.network) →
      (sh.store.withEntry k' f).networkOf k = some net := by
    intro k' f hf
    unfold NodeStore.networkOf at hk ⊢
    rw [NodeStore.entry_withEntry]
    split
    · rename_i hkk
      subst hkk
      rw [Option.map_map, ← hk]
      congr 1
      exact funext hf
    · exact hk
  have hinsert : ∀ {k' : AddrKey} {e : NodeEntry} {n : Nat}, sh.store.entry k' = none →
      ({ sh.store with entries := n }.insertEntry k' e).networkOf k = some net := by
    intro k' e n hnew
    unfold NodeStore.networkOf at hk ⊢
    rw [NodeStore.entry_insertEntry, if_neg]
    · exact hk
    · rintro rfl; rw [hnew] at hk; cases hk
  cases he with
  | aside hs hq hf => rw [hs]; exact hk
  | close hs hq hf => rw [hs]; exact hk
  | forfeit hwhy hs hq hf => rw [hs]; exact hk
  | write hmem hf => exact hwrite hf.network
  | refresh => exact hwrite fun _ => rfl
  | revive ho hstale => exact hwrite fun _ => rfl
  | switch hst' hf => exact hwrite hf.network
  | settle hst' hf => exact hwrite hf.network
  | park ho hnew hroom => exact hinsert hnew
  | discover ho hnew hroom => exact hinsert hnew
  | reject | incr | decr | push | pop => exact hk

/-- An entry that is not stale never becomes stale. -/
theorem not_stale (he : Effect does sh h sh' h') {k : AddrKey} {st : NodeState}
    (hk : sh.store.stateOf k = some st) (hst : st ≠ .staleDiscarded) :
    ∃ st', sh'.store.stateOf k = some st' ∧ st' ≠ .staleDiscarded := by
  have hsame : ∀ {k' : AddrKey} {f : NodeEntry → NodeEntry}, (∀ e, (f e).state = e.state) →
      ∃ st', (sh.writeEntry k' f).store.stateOf k = some st' ∧ st' ≠ .staleDiscarded := by
    intro k' f hf
    rw [Shared.writeEntry_store, NodeStore.stateOf_withEntry_same _ _ hf]
    exact ⟨st, hk, hst⟩
  have hset : ∀ {k' : AddrKey} {f : NodeEntry → NodeEntry} {new : NodeState},
      (∀ e, (f e).state = new) → new ≠ .staleDiscarded →
        ∃ st', (sh.writeEntry k' f).store.stateOf k = some st' ∧ st' ≠ .staleDiscarded := by
    intro k' f new hf hnew
    by_cases hkk : k = k'
    · subst hkk
      exact ⟨new, NodeStore.stateOf_withEntry_set hf (by rw [hk]; exact Option.some_ne_none _), hnew⟩
    · exact ⟨st, by rw [Shared.writeEntry_store, NodeStore.stateOf_withEntry_ne _ _ _ hkk]; exact hk, hst⟩
  have hinsert : ∀ {k' : AddrKey} {e : NodeEntry} {n : Nat}, sh.store.entry k' = none →
      ({ sh.store with entries := n }.insertEntry k' e).stateOf k = some st := by
    intro k' e n hnew
    rw [NodeStore.stateOf_insertEntry, if_neg]
    · exact hk
    · rintro rfl; simp [NodeStore.stateOf, hnew] at hk
  cases he with
  | aside hs hq hf => rw [hs]; exact ⟨st, hk, hst⟩
  | close hs hq hf => rw [hs]; exact ⟨st, hk, hst⟩
  | forfeit hwhy hs hq hf => rw [hs]; exact ⟨st, hk, hst⟩
  | write hmem hf => exact hsame hf.state
  | refresh => exact hsame (f := NodeStore.refresh _) fun _ => rfl
  | revive ho hstale => exact hset (f := NodeStore.revive _) (fun _ => rfl) (fun h => by cases h)
  | switch hst' hf =>
    refine hset hf.state ?_
    rintro rfl
    cases hst'
  | settle hst' hf hns => exact hset hf.state hns
  | park ho hnew hroom => exact ⟨st, hinsert hnew, hst⟩
  | discover ho hnew hroom => exact ⟨st, hinsert hnew, hst⟩
  | reject | incr | decr | push | pop => exact ⟨st, hk, hst⟩

end Effect

end P2PCrawler
