import P2PCrawler.Crawler.Termination

/-!
# Which keys reach which queue

Every ingress filters addresses by network before it stores them: `seed_from_dns` and the gossip
path by `is_enabled`, the probe by `classify` alone.  A queued key is routed by the stored network
of its entry.

## Results

* `routed_via`, `routed` — if the seeds that fit the address budget are of enabled networks, every
  entry is of an enabled network, and every key ever put into a queue is in the queue of its
  transport.
* `admitted_seed_queued` — every admitted seed is brought into its queue by some run.
* `work_routed_iff` — **no work for a disabled network, exactly when no admitted seed is of one**;
  for the crawler that is always so.
-/

set_option autoImplicit false

namespace P2PCrawler

open ThreadPool

/-! ## Admitted seeds -/

/-- The keys `observe_seed` stores: the first distinct ones that fit into the address budget. -/
def Setup.admitted (S : Setup) : List AddrKey := S.seedKeys.eraseDups.take S.settings.maxAddresses

/-- Every admitted seed is of an enabled network. -/
def Setup.SeedsEnabled (S : Setup) : Prop :=
  ∀ k ∈ S.admitted, S.settings.isEnabled (classify S.digests k.host) = true

/-- What is left to be stored of `ks`, next to known keys and with `room` left in the budget. -/
def unstored (known : AddrKey → Bool) (room : Nat) (ks : List AddrKey) : List AddrKey :=
  ((ks.filter fun k => !known k).eraseDups).take room

theorem unstored_known {known : AddrKey → Bool} {k : AddrKey} (hk : known k = true) (room : Nat)
    (ks : List AddrKey) : unstored known room (k :: ks) = unstored known room ks := by
  simp [unstored, hk]

theorem unstored_new {known : AddrKey → Bool} {k : AddrKey} (hk : known k = false) (room : Nat)
    (ks : List AddrKey) : unstored known (room + 1) (k :: ks) =
      k :: unstored (fun k' => decide (k' = k) || known k') room ks := by
  have hfilter : (k :: ks).filter (fun k => !known k) = k :: ks.filter fun k => !known k := by
    simp [hk]
  rw [unstored, hfilter, List.eraseDups_cons, List.take_succ_cons, List.filter_filter, unstored]
  congr 4
  funext k'
  by_cases hkk : k' = k <;> simp [hkk]

/-- The crawler stores DNS results of enabled networks only. -/
theorem Setup.OfCrawler.seedsEnabled {S : Setup} (h : OfCrawler S) : S.SeedsEnabled := by
  obtain ⟨H, cli, s, hosts, now, hs⟩ := h
  intro k hk
  have hmem : k ∈ (hosts.filter fun h => s.isEnabled (classify H h)).map (⟨·, mainnetPort⟩) :=
    List.mem_eraseDups.mp (List.mem_of_mem_take hk)
  obtain ⟨host, hhost, rfl⟩ := List.mem_map.mp hmem
  exact (List.mem_filter.mp hhost).2

/-! ## The result -/

/-- The entry of `k` is of an enabled network, carried by transport `t`. -/
def Routed (S : Setup) (sh : Shared) (k : AddrKey) (t : Transport) : Prop :=
  ∃ net, sh.store.networkOf k = some net ∧ S.settings.isEnabled net = true ∧ net.transport = t

/-- Every key ever put into a queue is routed there and the queue has a worker, which is still
    running while a key is queued, unless a shutdown or a panic has stopped it. -/
structure WorkRouted (S : Setup) (c : Conf Shared Pc) : Prop where
  routed : ∀ t, ∀ k ∈ (c.shared.queue t).accepted, Routed S c.shared k t
  staffed : ∀ t, ∀ k ∈ (c.shared.queue t).accepted, ∃ p, Pc.worker t p ∈ c.threads
  served : ∀ t, (c.shared.queue t).items ≠ [] → c.shared.shutdown = false →
    c.shared.panicked = false → ∃ p, Pc.worker t p ∈ c.threads ∧ p.ended = false

/-! ## The invariant -/

/-- The same, for the networks in `E`. -/
def Via (E : NetworkType → Bool) (sh : Shared) (k : AddrKey) (t : Transport) : Prop :=
  ∃ net, sh.store.networkOf k = some net ∧ E net = true ∧ net.transport = t

variable {E : NetworkType → Bool}

def NodeStore.known (s : NodeStore) (k : AddrKey) : Bool := (s.networkOf k).isSome

def NodeStore.room (s : NodeStore) : Nat := s.maxEntries - s.entries

def EnqueuePc.RouteOk (E : NetworkType → Bool) (sh : Shared) (k : AddrKey) : EnqueuePc → Prop
  | .route => sh.store.known k = true
  | .count t | .send t => Via E sh k t
  | _ => True

def TaskPc.RouteOk (E : NetworkType → Bool) (sh : Shared) : TaskPc → Prop
  | .upserting _ _ _ rest => ∀ a ∈ rest, E a.network = true
  | .enqueueing _ _ _ rest k e =>
    (∀ a ∈ rest, E a.network = true) ∧ e.RouteOk E sh k
  | _ => True

/-- The seeds still to be stored are of enabled networks. -/
def SeedsLeft (E : NetworkType → Bool) (S : Setup) (sh : Shared) (rest : List AddrKey) : Prop :=
  ∀ k ∈ unstored sh.store.known sh.store.room rest,
    E (classify S.digests k.host) = true

def RouteOk (E : NetworkType → Bool) (S : Setup) (sh : Shared) : Pc → Prop
  | .main (.seeding rest) => SeedsLeft E S sh rest
  | .main (.seedEnqueue rest k e) => SeedsLeft E S sh rest ∧ e.RouteOk E sh k
  | .worker t (.reserving k) | .worker t (.limitHit k) | .worker t (.starting k) => Via E sh k t
  | .worker t (.task k p) => Via E sh k t ∧ p.RouteOk E sh
  | _ => True

structure RouteInv (E : NetworkType → Bool) (S : Setup) (c : Conf Shared Pc) : Prop where
  entries : ∀ k net, c.shared.store.networkOf k = some net → E net = true
  queues : ∀ t, ∀ k ∈ (c.shared.queue t).accepted, Via E c.shared k t
  items : ∀ t, ∀ k ∈ (c.shared.queue t).items, k ∈ (c.shared.queue t).accepted
  tasks : Holds (RouteOk E S) c

section Persistence
variable {S : Setup} {does : Intent} {sh sh' : Shared} {h h' : Held}

theorem Effect.routed (he : Effect does sh h sh' h') {k : AddrKey} {t : Transport}
    (hk : Via E sh k t) : Via E sh' k t := by
  obtain ⟨net, hnet, hrest⟩ := hk
  exact ⟨net, he.network hnet, hrest⟩

theorem Effect.known (he : Effect does sh h sh' h') {k : AddrKey} (hk : sh.store.known k = true) :
    sh'.store.known k = true := by
  obtain ⟨net, hnet⟩ := Option.isSome_iff_exists.mp hk
  exact Option.isSome_iff_exists.mpr ⟨net, he.network hnet⟩

theorem Effect.enqueueRouteOk (he : Effect does sh h sh' h') {k : AddrKey} {e : EnqueuePc}
    (hk : e.RouteOk E sh k) : e.RouteOk E sh' k := by
  cases e with
  | route => exact he.known hk
  | count t => exact he.routed hk
  | send t => exact he.routed hk
  | _ => trivial

/-- Network labels come from observations. -/
theorem Effect.new_network (he : Effect does sh h sh' h') {k : AddrKey} {net : NetworkType}
    (hk : sh'.store.networkOf k = some net) :
    sh.store.networkOf k = some net ∨
      ∃ o : Observation, does = .observe o ∧ o.key = k ∧ o.net = net ∧ sh.store.entry k = none ∧
        sh.store.entries < sh.store.maxEntries := by
  have hwrite : ∀ {k' : AddrKey} {f : NodeEntry → NodeEntry}, (∀ e, (f e).network = e.network) →
      (sh.store.withEntry k' f).networkOf k = some net → sh.store.networkOf k = some net := by
    intro k' f hf hk
    unfold NodeStore.networkOf at hk ⊢
    rw [NodeStore.entry_withEntry] at hk
    split at hk
    · rename_i hkk
      subst hkk
      rw [Option.map_map] at hk
      rw [← hk]
      congr 1
      exact (funext hf).symm
    · exact hk
  have hinsert : ∀ {o : Observation} {st : NodeState} {n : Nat}, does = .observe o →
      sh.store.entry o.key = none → sh.store.entries < sh.store.maxEntries →
      ({ sh.store with entries := n }.insertEntry o.key (.new o.net o.ts st)).networkOf k = some net →
      sh.store.networkOf k = some net ∨ ∃ o : Observation, does = .observe o ∧ o.key = k ∧
        o.net = net ∧ sh.store.entry k = none ∧ sh.store.entries < sh.store.maxEntries := by
    intro o st n ho hnew hroom hk
    unfold NodeStore.networkOf at hk ⊢
    rw [NodeStore.entry_insertEntry] at hk
    split at hk
    · rename_i hkk
      refine .inr ⟨o, ho, hkk.symm, ?_, by rw [hkk]; exact hnew, hroom⟩
      exact Option.some.inj hk
    · exact .inl hk
  cases he with
  | aside hs hq hf => rw [hs] at hk; exact .inl hk
  | close hs hq hf => rw [hs] at hk; exact .inl hk
  | forfeit hwhy hs hq hf => rw [hs] at hk; exact .inl hk
  | write hmem hf => exact .inl (hwrite hf.network hk)
  | refresh => exact .inl (hwrite (f := NodeStore.refresh _) (fun _ => rfl) hk)
  | revive ho hstale => exact .inl (hwrite (f := NodeStore.revive _) (fun _ => rfl) hk)
  | switch hst' hf => exact .inl (hwrite hf.network hk)
  | settle hst' hf hns => exact .inl (hwrite hf.network hk)
  | park ho hnew hroom => exact hinsert ho hnew hroom hk
  | discover ho hnew hroom => exact hinsert ho hnew hroom hk
  | reject | incr | decr | push | pop => exact .inl hk

/-- A key put into a queue was pushed. -/
theorem Effect.new_accepted (he : Effect does sh h sh' h') {t : Transport} {k : AddrKey}
    (hk : k ∈ (sh'.queue t).accepted) : k ∈ (sh.queue t).accepted ∨ does = .push t k := by
  cases he with
  | aside hs hq hf => rw [hq] at hk; exact .inl hk
  | close hs hq hf => rw [hq] at hk; exact .inl hk
  | forfeit hwhy hs hq hf => rw [hq] at hk; exact .inl hk
  | @push t' k' own ho hopen hroom =>
    by_cases ht : t = t'
    · subst ht
      simp only [Function.update_self, List.mem_append, List.mem_singleton] at hk
      rcases hk with hk | rfl
      · exact .inl hk
      · exact .inr ho
    · simp only [Function.update_of_ne ht] at hk
      exact .inl hk
  | @pop t' k' rest own ho hitems =>
    by_cases ht : t = t'
    · subst ht; exact .inl (by simpa [Shared.pop] using hk)
    · exact .inl (by simpa [Shared.pop, ht] using hk)
  | _ => exact .inl hk

/-- What is in a queue was put there. -/
theorem Effect.items_accepted (he : Effect does sh h sh' h')
    (hi : ∀ t, ∀ k ∈ (sh.queue t).items, k ∈ (sh.queue t).accepted) (t : Transport) :
    ∀ k ∈ (sh'.queue t).items, k ∈ (sh'.queue t).accepted := by
  intro k hk
  cases he with
  | aside hs hq hf => rw [hq] at hk ⊢; exact hi t k hk
  | close hs hq hf => rw [hq] at hk ⊢; exact hi t k hk
  | forfeit hwhy hs hq hf => rw [hq] at hk ⊢; exact hi t k hk
  | @push t' k' own ho hopen hroom =>
    by_cases ht : t = t'
    · subst ht
      simp only [Function.update_self, List.mem_append, List.mem_singleton] at hk ⊢
      exact hk.imp_left (hi t k)
    · simp only [Function.update_of_ne ht] at hk ⊢
      exact hi t k hk
  | @pop t' k' rest own ho hitems =>
    by_cases ht : t = t'
    · subst ht
      simp only [Shared.pop, Function.update_self] at hk ⊢
      exact hi t k (by rw [hitems]; exact List.mem_cons_of_mem _ hk)
    · simp only [Shared.pop, Function.update_of_ne ht] at hk ⊢
      exact hi t k hk
  | _ => exact hi t k hk

end Persistence

/-! ## Steps keep the invariant -/

theorem enqueueStep_route {S : Setup} {sh : Shared} {k : AddrKey} {e : EnqueuePc}
    (hent : ∀ k net, sh.store.networkOf k = some net → E net = true)
    (hok : e.RouteOk E sh k) (e' : EnqueuePc) (h : (enqueueStep S.digests sh k e).2 = some e') :
    e'.RouteOk E (enqueueStep S.digests sh k e).1 k := by
  cases e with
  | route =>
    cases h
    obtain ⟨net, hnet⟩ := Option.isSome_iff_exists.mp hok
    refine ⟨net, hnet, hent k net hnet, ?_⟩
    rw [hnet]
    rfl
  | count t => cases h; exact hok
  | send t =>
    simp only [enqueueStep] at h
    split at h <;> cases h
    trivial
  | discard => cases h; trivial
  | uncount => cases h

/-- A revived or discovered address has an entry. -/
theorem known_of_enqueue {sh : Shared} {k : AddrKey} {ts : Int} {net : NetworkType} {thr now : Int}
    (h : (sh.store.frontierUpsert k ts net thr now).2 = .enqueue) :
    (sh.store.frontierUpsert k ts net thr now).1.known k = true := by
  have hc := NodeStore.frontierUpsert_cases sh.store k ts net thr now
  generalize (sh.store.frontierUpsert k ts net thr now).1 = s' at hc ⊢
  generalize (sh.store.frontierUpsert k ts net thr now).2 = out at hc h
  cases hc with
  | refreshed he hout hrej hstate => exact absurd h hout
  | revived he hst hfresh => simp [NodeStore.known, NodeStore.networkOf, he]
  | discovered he hroom hfresh =>
    simp [NodeStore.known, NodeStore.networkOf, NodeStore.entry_insertEntry]
  | rejected | parked => cases h

theorem retryOrFinish_routeOk (sh : Shared) (retry : Bool) (terminal : Terminal)
    (kind : FailKind) : (retryOrFinish retry terminal kind).RouteOk E sh := by
  cases retry <;> trivial

theorem taskStep_route {S : Setup} {sh sh' : Shared} {t : Transport} {k : AddrKey} {a : Answer}
    {p p' : TaskPc} (h : taskStep S sh t k a p = some (sh', some p'))
    (hgossip : ∀ net, S.settings.isEnabled net = true → E net = true)
    (hent : ∀ k net, sh.store.networkOf k = some net → E net = true)
    (hok : p.RouteOk E sh) : p'.RouteOk E sh' := by
  cases p with
  | shuffling c parsed now =>
    simp only [taskStep] at h
    split at h <;> cases h
    rename_i hperm
    intro addr haddr
    have hmem := (List.isPerm_iff.mp hperm).mem_iff.mp haddr
    exact hgossip _ (List.mem_filter.mp hmem).2
  | upserting c count now rest =>
    cases rest with
    | nil => cases h; trivial
    | cons addr rest =>
      cases h
      have hrest : ∀ a ∈ rest, E a.network = true :=
        fun a ha => hok a (List.mem_cons_of_mem _ ha)
      cases hout : (sh.store.frontierUpsert ⟨addr.host, addr.port⟩ addr.timestamp addr.network
          S.settings.freshnessThreshold now).2 with
      | enqueue => exact ⟨hrest, known_of_enqueue hout⟩
      | _ => exact hrest
  | enqueueing c count now rest key e =>
    cases h
    cases hnext : (enqueueStep S.digests sh key e).2 with
    | none => exact hok.1
    | some e' => exact ⟨hok.1, enqueueStep_route hent hok.2 e' hnext⟩
  | everConnected n kind =>
    cases h
    exact retryOrFinish_routeOk ..
  | handshakeTimeout n =>
    cases h
    exact retryOrFinish_routeOk ..
  | handshakeFailed n kind =>
    cases h
    exact retryOrFinish_routeOk ..
  | malformedLog c call =>
    obtain ⟨-, ⟨_, heq⟩ | ⟨res, heq⟩⟩ := logStep_effect h
    · cases heq; trivial
    · cases res <;> cases heq <;> trivial
  | blockLog c parsed now call =>
    obtain ⟨-, ⟨_, heq⟩ | ⟨res, heq⟩⟩ := logStep_effect h
    · cases heq; trivial
    · cases res <;> cases heq <;> trivial
  | outcomeLog c call =>
    obtain ⟨-, ⟨_, heq⟩ | ⟨res, heq⟩⟩ := logStep_effect h
    · cases heq; trivial
    · cases res <;> cases heq <;> trivial
  | abandoning f =>
    cases hnext : (finishStep sh k f).2 <;> simp only [taskStep, hnext] at h <;> cases h
    trivial
  | finishing f =>
    cases hnext : (finishStep sh k f).2 <;> simp only [taskStep, hnext] at h <;> cases h
    trivial
  | connecting | sendVersion | handshaking | collecting | malformedGuard | messageGuard
    | outcomeGuard | resending =>
    simp only [taskStep] at h
    split at h <;> cases h <;> trivial
  | handshaken | getaddr | malformedCount | breakdown | messageDone | outcomeWrite =>
    cases h
    split <;> trivial
  | _ => cases h; trivial

/-! ### Seeding -/

namespace NodeStore
variable (s : NodeStore) (k : AddrKey)

theorem known_withEntry (f : NodeEntry → NodeEntry) : (s.withEntry k f).known = s.known := by
  funext k'
  simp only [known, networkOf, entry_withEntry]
  split
  · rename_i hk; subst hk; simp
  · rfl

theorem room_withEntry (f : NodeEntry → NodeEntry) : (s.withEntry k f).room = s.room := by
  simp [room]

theorem known_insertEntry (n : Nat) (e : NodeEntry) :
    ({ s with entries := n }.insertEntry k e).known = fun k' => decide (k' = k) || s.known k' := by
  funext k'
  simp only [known, networkOf, entry_insertEntry]
  split
  · rename_i hk; simp [hk]
  · rename_i hk; simp [hk, entry]

theorem known_eq_false {s : NodeStore} {k : AddrKey} (h : s.entry k = none) : s.known k = false := by
  simp [known, networkOf, h]

theorem known_eq_true {s : NodeStore} {k : AddrKey} {e : NodeEntry} (h : s.entry k = some e) :
    s.known k = true := by
  simp [known, networkOf, h]

end NodeStore

/-! ### Seeds still to be stored -/

section SeedsLeft
variable {S : Setup} {P : AddrKey → Prop} {sh : Shared} {rest : List AddrKey}

theorem enqueueStep_left (k : AddrKey) (e : EnqueuePc)
    (h : ∀ k' ∈ unstored sh.store.known sh.store.room rest, P k') :
    ∀ k' ∈ unstored (enqueueStep S.digests sh k e).1.store.known
      (enqueueStep S.digests sh k e).1.store.room rest, P k' := by
  cases e with
  | send t =>
    simp only [enqueueStep]
    split
    · rename_i sh' hsend
      obtain ⟨-, -, rfl⟩ := Shared.trySend_some hsend
      exact h
    · exact h
  | discard =>
    simp only [enqueueStep, Shared.writeEntry_store, NodeStore.known_withEntry,
      NodeStore.room_withEntry]
    exact h
  | _ => exact h

theorem observeSeed_left {k : AddrKey}
    (h : ∀ k' ∈ unstored sh.store.known sh.store.room (k :: rest), P k') :
    (∀ k' ∈ unstored (sh.store.observeSeed S.digests k S.seedTime).1.known
      (sh.store.observeSeed S.digests k S.seedTime).1.room rest, P k') ∧
      ((sh.store.observeSeed S.digests k S.seedTime).2 = true →
        (sh.store.observeSeed S.digests k S.seedTime).1.known k = true) := by
  have hc := NodeStore.observeSeed_cases S.digests sh.store k S.seedTime
  generalize (sh.store.observeSeed S.digests k S.seedTime).1 = s' at hc ⊢
  generalize (sh.store.observeSeed S.digests k S.seedTime).2 = new at hc ⊢
  cases hc with
  | refreshed he =>
    rw [unstored_known (NodeStore.known_eq_true he)] at h
    simp only [NodeStore.known_withEntry, NodeStore.room_withEntry]
    exact ⟨h, nofun⟩
  | rejected he hfull =>
    have hroom : sh.store.rejectEntry.room = 0 := by
      simp only [NodeStore.room, NodeStore.rejectEntry]; omega
    refine ⟨fun k' hk' => ?_, nofun⟩
    rw [hroom] at hk'
    cases hk'
  | discovered he hroom =>
    obtain ⟨r, hr⟩ : ∃ r, sh.store.room = r + 1 :=
      ⟨sh.store.room - 1, by simp only [NodeStore.room]; omega⟩
    rw [hr, unstored_new (NodeStore.known_eq_false he)] at h
    rw [NodeStore.known_insertEntry]
    refine ⟨fun k' hk' => h k' (List.mem_cons_of_mem _ ?_), fun _ => by simp⟩
    have hr' : ({ sh.store with entries := sh.store.entries + 1 }.insertEntry k
        (.new (classify S.digests k.host) S.seedTime .queued)).room = r := by
      simp only [NodeStore.room, NodeStore.insertEntry] at hr ⊢; omega
    rw [hr'] at hk'
    exact hk'

end SeedsLeft

theorem mainStep_route {S : Setup} {sh sh' : Shared} {a : Answer} {p p' : MainPc}
    (h : mainStep S sh a p = some (sh', p'))
    (hent : ∀ k net, sh.store.networkOf k = some net → E net = true)
    (hok : RouteOk E S sh (.main p)) : RouteOk E S sh' (.main p') := by
  cases p with
  | seeding rest =>
    cases rest with
    | nil => cases h; trivial
    | cons k rest =>
      cases h
      obtain ⟨hleft, hnew⟩ := observeSeed_left hok
      cases hout : (sh.store.observeSeed S.digests k S.seedTime).2 with
      | false => exact hleft
      | true => exact ⟨hleft, hnew hout⟩
  | seedEnqueue rest k e =>
    cases h
    have hleft : SeedsLeft E S (enqueueStep S.digests sh k e).1 rest := enqueueStep_left k e hok.1
    cases hnext : (enqueueStep S.digests sh k e).2 with
    | none => exact hleft
    | some e' => exact ⟨hleft, enqueueStep_route hent hok.2 e' hnext⟩
  | joining joined =>
    simp only [mainStep] at h
    split at h
    · cases h; trivial
    · split at h <;> split at h <;> cases h <;> trivial
  | awaitSignals | awaitCheckpoint | stopping | writing =>
    simp only [mainStep] at h
    split at h <;> cases h <;> trivial
  | flushing r call =>
    obtain ⟨-, ⟨_, rfl⟩ | ⟨res, rfl⟩⟩ := logStep_effect h
    · trivial
    · cases res <;> trivial
  | startCheck | checkWorkers | finalFlush => cases h; split <;> trivial
  | finished => cases h
  | _ => cases h; trivial

/-! ### The worker loop -/

theorem loopStep_route {S : Setup} {sh sh' : Shared} {t : Transport} {p p' : WorkerPc}
    (h : loopStep S sh t p = some (sh', p'))
    (hq : ∀ k ∈ (sh.queue t).items, Via E sh k t) (hok : RouteOk E S sh (.worker t p)) :
    RouteOk E S sh' (.worker t p') := by
  have he := loopStep_effect h
  cases loopStep_cases h with
  | take hitems => exact he.routed (hq _ (by rw [hitems]; exact List.mem_cons_self ..))
  | reserve | refuse => exact he.routed hok
  | start => exact ⟨he.routed hok, trivial⟩
  | _ => trivial

/-! ### The invariant holds -/

/-- What a task is about to observe is of an enabled network. -/
theorem intent_enabled {S : Setup} {sh : Shared} {pc : Pc} (hok : RouteOk E S sh pc) {o : Observation}
    (h : pc.intent S = .observe o) (hnew : sh.store.entry o.key = none)
    (hroom : sh.store.entries < sh.store.maxEntries) : E o.net = true := by
  rcases intent_observe h with ⟨k, rest, rfl, rfl⟩ | ⟨t, k, c, count, now, addr, rest, rfl, rfl⟩
  · obtain ⟨r, hr⟩ : ∃ r, sh.store.room = r + 1 :=
      ⟨sh.store.room - 1, by simp only [NodeStore.room]; omega⟩
    refine hok k ?_
    rw [hr, unstored_new (NodeStore.known_eq_false hnew)]
    exact List.mem_cons_self ..
  · exact hok.2 addr (List.mem_cons_self ..)

/-- What a task is about to push is routed to that queue. -/
theorem intent_routed {S : Setup} {sh : Shared} {pc : Pc} (hok : RouteOk E S sh pc) {t : Transport}
    {k : AddrKey} (h : pc.intent S = .push t k) : Via E sh k t := by
  rcases intent_push h with ⟨rest, rfl⟩ | ⟨w, k₀, c, count, now, rest, rfl⟩ | ⟨terminal, kind, rfl⟩
  · exact hok.2
  · exact hok.2.2
  · exact hok.1

theorem start_route {S : Setup} (hseeds : ∀ k ∈ S.admitted, E (classify S.digests k.host) = true) :
    RouteInv E S (start S) where
  entries k net hk := by cases hk
  queues t k hk := by cases hk
  items t k hk := by cases hk
  tasks := by
    intro i pc hpc
    rcases mem_start (List.mem_of_getElem? hpc) with rfl | rfl | rfl | rfl | ⟨t, rfl, -⟩
    · intro k hk
      refine hseeds k ?_
      have hknown : (start S).shared.store.known = fun _ => false := by funext k; rfl
      have hall : S.seedKeys.filter (fun _ => !false) = S.seedKeys := List.filter_true ..
      rw [hknown, unstored, hall] at hk
      exact hk
    all_goals trivial

theorem step_route {S : Setup} {ok : Conf Shared Pc → Nat × Answer → Prop} {c c' : Conf Shared Pc}
    {a : Nat × Answer} (hr : Reach (program S) ok (start S) c)
    (hgossip : ∀ net, S.settings.isEnabled net = true → E net = true) (hi : RouteInv E S c)
    (hst : step (program S) c a = some c') : RouteInv E S c' := by
  obtain ⟨pc, sh', pc', hpc, hp, rfl⟩ := step_cases hst
  have he := step_effect hp
  have hmine := hi.tasks _ _ hpc
  refine ⟨?_, ?_, he.items_accepted hi.items, ?_⟩
  · intro k net hk
    rcases he.new_network hk with hold | ⟨o, ho, rfl, rfl, hnew, hroom⟩
    · exact hi.entries k net hold
    · exact intent_enabled hmine ho hnew hroom
  · intro t k hk
    rcases he.new_accepted hk with hold | hpush
    · exact he.routed (hi.queues t k hold)
    · exact he.routed (intent_routed hmine hpush)
  · refine hi.tasks.step hst ?_ ?_
    · intro pc sh' pc' hpc hp
      have hmine := hi.tasks _ _ hpc
      rcases program_cases hp with ⟨p, p', rfl, rfl, hs⟩ | ⟨p, p', rfl, rfl, -⟩ |
        ⟨p, p', rfl, rfl, -⟩ | ⟨L, rfl, rfl, -, -⟩ | ⟨t, p, p', rfl, rfl, hs⟩
      · exact mainStep_route hs hi.entries hmine
      iterate 3 trivial
      have he := workerStep_effect hs
      rcases workerStep_cases hs with ⟨k, q, rfl, -, rfl, rfl⟩ | ⟨k, q, next, rfl, -, hstep, rfl⟩ |
        ⟨-, -, -, -, rfl, rfl⟩ | ⟨-, -, -, hstep⟩
      · trivial
      · cases next with
        | none => trivial
        | some q' => exact ⟨he.routed hmine.1, taskStep_route hstep hgossip hi.entries hmine.2⟩
      · trivial
      · exact loopStep_route hstep (fun k hk => hi.queues t k (hi.items t k hk)) hmine
    · intro pc sh' pc' j u hpc hp hj hu hold
      have he := step_effect hp
      cases u with
      | main q =>
        have hne : ∀ p, pc ≠ .main p := by
          rintro p rfl
          exact hj ((main_index hr hu).trans (main_index hr hpc).symm)
        have hphase := phases hr _ _ hu
        cases q with
        | seeding rest =>
          obtain ⟨hs, -, -⟩ := idle_before_spawn hr hphase hpc hp hne
          simp only [RouteOk, SeedsLeft, hs] at hold ⊢
          exact hold
        | seedEnqueue rest k e =>
          obtain ⟨hs, -, -⟩ := idle_before_spawn hr hphase hpc hp hne
          refine ⟨?_, he.enqueueRouteOk hold.2⟩
          simp only [SeedsLeft, hs]
          exact hold.1
        | _ => trivial
      | worker t p =>
        cases p with
        | reserving | limitHit | starting => exact he.routed hold
        | task k p =>
          refine ⟨he.routed hold.1, ?_⟩
          cases p with
          | upserting => exact hold.2
          | enqueueing c count now rest key e => exact ⟨hold.2.1, he.enqueueRouteOk hold.2.2⟩
          | _ => trivial
        | _ => trivial
      | _ => trivial

/-- **Routing.**  If every admitted seed is of a network in `E`, and every enabled network is one, so
    is every entry, and every key ever queued is in the queue of its transport. -/
theorem routed_via {S : Setup} {ok : Conf Shared Pc → Nat × Answer → Prop} {c : Conf Shared Pc}
    (hgossip : ∀ net, S.settings.isEnabled net = true → E net = true)
    (hseeds : ∀ k ∈ S.admitted, E (classify S.digests k.host) = true)
    (hr : Reach (program S) ok (start S) c) : RouteInv E S c :=
  hr.invariant (I := RouteInv E S) (start_route hseeds)
    fun _ _ _ hr hi _ hst => step_route hr hgossip hi hst

theorem routed {S : Setup} {ok : Conf Shared Pc → Nat × Answer → Prop} {c : Conf Shared Pc}
    (hseeds : S.SeedsEnabled) (hr : Reach (program S) ok (start S) c) :
    RouteInv S.settings.isEnabled S c :=
  routed_via (fun _ h => h) hseeds hr

theorem work_routed {S : Setup} {c : Conf Shared Pc} (hseeds : S.SeedsEnabled)
    (hr : Reachable (program S) (start S) c) : WorkRouted S c := by
  have hi := routed hseeds hr
  have hstaffed : ∀ t, ∀ k ∈ (c.shared.queue t).accepted, ∃ p, Pc.worker t p ∈ c.threads := by
    intro t k hk
    obtain ⟨net, -, hen, rfl⟩ := hi.queues t k hk
    exact worker_exists hr (S.settings.staffed net hen)
  refine ⟨hi.queues, hstaffed, fun t hne hsh hpa => ?_⟩
  obtain ⟨k, hk⟩ := List.exists_mem_of_ne_nil _ hne
  obtain ⟨p, hp⟩ := hstaffed t k (hi.items t k hk)
  refine ⟨p, hp, ?_⟩
  have hexit : ExitOk c.shared (.worker t p) := (exits hr).of_mem hp
  cases p with
  | exited =>
    rcases hexit with h | h
    · rw [hsh] at h; cases h
    · exact absurd h.2 hne
  | died =>
    have : c.shared.panicked = true := hexit
    rw [hpa] at this
    cases this
  | _ => rfl

/-! ## A disabled seed is queued -/

/-- The state of a crawl that has only seeded so far. -/
structure Seeding (S : Setup) (sh : Shared) : Prop where
  shape : ∃ store queue enqueued, sh =
    { Shared.init S with store := store, queue := queue, enqueued := enqueued }
  queued : ∀ k e, sh.store.entry k = some e → e.state = .queued
  opened : ∀ t, (sh.queue t).closed = false
  capacity : ∀ t, (sh.queue t).capacity = sh.store.maxEntries
  short : ∀ t, (sh.queue t).items.length ≤ sh.store.entries

theorem Seeding.alive {S : Setup} {sh : Shared} (hs : Seeding S sh) : sh.killed = false := by
  obtain ⟨_, _, _, rfl⟩ := hs.shape
  rfl

/-- One step of the main task. -/
theorem main_step {S : Setup} {ok : Conf Shared Pc → Nat × Answer → Prop} {sh : Shared}
    {ts : List Pc} {p : MainPc} (sh' : Shared) (p' : MainPc)
    (hr : Reach (program S) ok (start S) ⟨sh, .main p :: ts⟩) (halive : sh.killed = false)
    (h : mainStep S sh {} p = some (sh', p'))
    (hok : ∀ c, ok c (0, {}) := by exact fun _ => trivial) :
    Reach (program S) ok (start S) ⟨sh', .main p' :: ts⟩ := by
  have hst : step (program S) ⟨sh, .main p :: ts⟩ (0, {}) = some ⟨sh', .main p' :: ts⟩ := by
    simp [step, program, halive, h]
  exact hr.next (hok _) hst

/-- The main task brings a new seed into its queue. -/
theorem seed_queued {S : Setup} {ok : Conf Shared Pc → Nat × Answer → Prop} {sh : Shared}
    {ts : List Pc} {k : AddrKey} {rest : List AddrKey}
    (hr : Reach (program S) ok (start S) ⟨sh, .main (.seeding (k :: rest)) :: ts⟩)
    (hs : Seeding S sh) (hnew : sh.store.entry k = none) (hroom : sh.store.entries < sh.store.maxEntries)
    (hok : ∀ c, ok c (0, {}) := by exact fun _ => trivial) :
    ∃ sh', Reach (program S) ok (start S) ⟨sh', .main (.seeding rest) :: ts⟩ ∧ Seeding S sh' ∧
      sh'.store.known = (fun k' => decide (k' = k) || sh.store.known k') ∧
      sh'.store.room + 1 = sh.store.room ∧
      sh'.store.networkOf k = some (classify S.digests k.host) ∧
      k ∈ (sh'.queue (classify S.digests k.host).transport).accepted := by
  obtain ⟨s₁, hs₁⟩ : ∃ s₁, s₁ = { sh.store with entries := sh.store.entries + 1 }.insertEntry k
      (.new (classify S.digests k.host) S.seedTime .queued) := ⟨_, rfl⟩
  have hnet : s₁.networkOf k = some (classify S.digests k.host) := by
    rw [hs₁]; simp [NodeStore.networkOf, NodeStore.entry_insertEntry, NodeEntry.new]
  have hobs : sh.store.observeSeed S.digests k S.seedTime = (s₁, true) := by
    unfold NodeStore.observeSeed NodeStore.reserveEntry
    rw [hnew, if_pos hroom, hs₁]
  have h₁ := main_step { sh with store := s₁ } (.seedEnqueue rest k .route) hr hs.alive
    (by simp only [mainStep, hobs]; rfl) hok
  have h₂ := main_step _ (.seedEnqueue rest k (.count (classify S.digests k.host).transport)) h₁ hs.alive
    (by simp only [mainStep, enqueueStep, hnet]; rfl) hok
  have h₃ := main_step _ (.seedEnqueue rest k (.send (classify S.digests k.host).transport)) h₂ hs.alive
    rfl hok
  have hlen : (sh.queue (classify S.digests k.host).transport).items.length <
      (sh.queue (classify S.digests k.host).transport).capacity := by
    rw [hs.capacity]
    exact lt_of_le_of_lt (hs.short _) hroom
  have h₄ := main_step _ (.seeding rest) h₃ hs.alive
    (by
      simp only [mainStep, enqueueStep, Shared.trySend, hs.opened, Bool.false_eq_true, if_false]
      rw [if_pos hlen]) hok
  obtain ⟨_, _, _, hshape⟩ := hs.shape
  refine ⟨_, h₄, ⟨⟨s₁.incrOutstanding, _, _, by rw [hshape]⟩, ?_, ?_, ?_, ?_⟩, ?_, ?_, hnet, by simp⟩
  · intro k' e he
    have he₁ : s₁.entry k' = some e := he
    rw [hs₁, NodeStore.entry_insertEntry] at he₁
    split at he₁
    · cases he₁; rfl
    · exact hs.queued k' e he₁
  · intro t
    by_cases ht : t = (classify S.digests k.host).transport
    · subst ht; simp
    · simp [ht, hs.opened]
  · intro t
    by_cases ht : t = (classify S.digests k.host).transport
    · subst ht; simp [hs.capacity, hs₁, NodeStore.incrOutstanding, NodeStore.insertEntry]
    · simp [ht, hs.capacity, hs₁, NodeStore.incrOutstanding, NodeStore.insertEntry]
  · intro t
    have hshort := hs.short t
    by_cases ht : t = (classify S.digests k.host).transport
    · subst ht; simp [hs₁, NodeStore.incrOutstanding, NodeStore.insertEntry, hshort]
    · simp [ht, hs₁, NodeStore.incrOutstanding, NodeStore.insertEntry]; omega
  · change s₁.known = _
    rw [hs₁, NodeStore.known_insertEntry]
  · simp only [NodeStore.room, hs₁, NodeStore.incrOutstanding, NodeStore.insertEntry]; omega

/-- A known seed only raises a timestamp. -/
theorem seed_known {S : Setup} {ok : Conf Shared Pc → Nat × Answer → Prop} {sh : Shared}
    {ts : List Pc} {k : AddrKey} {rest : List AddrKey}
    (hr : Reach (program S) ok (start S) ⟨sh, .main (.seeding (k :: rest)) :: ts⟩)
    (hs : Seeding S sh) {e : NodeEntry} (he : sh.store.entry k = some e)
    (hok : ∀ c, ok c (0, {}) := by exact fun _ => trivial) :
    ∃ sh', Reach (program S) ok (start S) ⟨sh', .main (.seeding rest) :: ts⟩ ∧ Seeding S sh' ∧
      sh'.store.known = sh.store.known ∧ sh'.store.room = sh.store.room := by
  have hobs : sh.store.observeSeed S.digests k S.seedTime =
      (sh.store.withEntry k (NodeStore.refresh S.seedTime), false) := by
    unfold NodeStore.observeSeed; rw [he]; rfl
  have hnext := main_step (sh.writeEntry k (NodeStore.refresh S.seedTime)) (.seeding rest)
    hr hs.alive (by simp only [mainStep, hobs]; rfl) hok
  obtain ⟨_, _, _, hshape⟩ := hs.shape
  refine ⟨_, hnext, ⟨⟨(sh.writeEntry k (NodeStore.refresh S.seedTime)).store, sh.queue, sh.enqueued,
    by rw [hshape]; rfl⟩, ?_, hs.opened, ?_, ?_⟩, NodeStore.known_withEntry .., NodeStore.room_withEntry ..⟩
  · intro k' e' he'
    rw [Shared.writeEntry_store, NodeStore.entry_withEntry] at he'
    split at he'
    · obtain ⟨e₀, he₀, rfl⟩ := Option.map_eq_some_iff.mp he'
      exact hs.queued k e₀ he₀
    · exact hs.queued k' e' he'
  · simpa using hs.capacity
  · simpa using hs.short

/-- Every seed that is still to be stored can be brought into its queue. -/
theorem seeds_queued {S : Setup} {ok : Conf Shared Pc → Nat × Answer → Prop}
    (hok : ∀ c, ok c (0, {})) {ts : List Pc} {k : AddrKey} : ∀ {rest : List AddrKey} {sh : Shared},
    Reach (program S) ok (start S) ⟨sh, .main (.seeding rest) :: ts⟩ → Seeding S sh →
      k ∈ unstored sh.store.known sh.store.room rest →
      ∃ c, Reach (program S) ok (start S) c ∧
        c.shared.store.networkOf k = some (classify S.digests k.host) ∧
        k ∈ (c.shared.queue (classify S.digests k.host).transport).accepted
  | [], sh, hr, hs, hk => by simp [unstored] at hk
  | k₀ :: rest, sh, hr, hs, hk => by
    cases he : sh.store.entry k₀ with
    | some e =>
      obtain ⟨sh', hr', hs', hknown, hroom⟩ := seed_known hr hs he hok
      rw [unstored_known (NodeStore.known_eq_true he), ← hknown, ← hroom] at hk
      exact seeds_queued hok hr' hs' hk
    | none =>
      cases hroom : sh.store.room with
      | zero => rw [hroom] at hk; cases hk
      | succ r =>
        rw [hroom, unstored_new (NodeStore.known_eq_false he)] at hk
        obtain ⟨sh', hr', hs', hknown, hr₁, hnet, hacc⟩ :=
          seed_queued hr hs he (by simp only [NodeStore.room] at hroom; omega) hok
        rcases List.mem_cons.mp hk with rfl | hk
        · exact ⟨_, hr', hnet, hacc⟩
        · refine seeds_queued hok hr' hs' ?_
          rw [hknown, show sh'.store.room = r by omega]
          exact hk

theorem start_seeding (S : Setup) : Seeding S (start S).shared where
  shape := ⟨_, _, _, rfl⟩
  queued k e he := by cases he
  opened _ := rfl
  capacity _ := rfl
  short _ := Nat.le_refl _

theorem admitted_seed_queued {S : Setup} {ok : Conf Shared Pc → Nat × Answer → Prop}
    (hok : ∀ c, ok c (0, {})) {k : AddrKey} (hk : k ∈ S.admitted) :
    ∃ c, Reach (program S) ok (start S) c ∧
      c.shared.store.networkOf k = some (classify S.digests k.host) ∧
      k ∈ (c.shared.queue (classify S.digests k.host).transport).accepted := by
  refine @seeds_queued S ok hok (start S).threads.tail k S.seedKeys _ .start (start_seeding S) ?_
  have hknown : (Shared.init S).store.known = fun _ => false := by funext k; rfl
  have hall : S.seedKeys.filter (fun _ => !false) = S.seedKeys := List.filter_true ..
  rw [hknown, unstored, hall]
  exact hk

/-! ## The result -/

/-- **No work for a disabled network, exactly when no admitted seed is of one**, as is always the
    case for the crawler. -/
theorem work_routed_iff (S : Setup) :
    ((∀ c, Reachable (program S) (start S) c → WorkRouted S c) ↔ S.SeedsEnabled) ∧
      (S.OfCrawler → ∀ c, Reachable (program S) (start S) c → WorkRouted S c) := by
  refine ⟨⟨fun h k hk => ?_, fun h c hr => work_routed h hr⟩,
    fun h c hr => work_routed h.seedsEnabled hr⟩
  obtain ⟨c, hr, hnet, hacc⟩ := @admitted_seed_queued S anyStep (fun _ => trivial) k hk
  obtain ⟨net, hnet', hen, -⟩ := (h c hr).routed _ k hacc
  rw [hnet] at hnet'
  cases hnet'
  exact hen

/-- `probe --no-ipv4 --no-ipv6 --no-cjdns --ip-concurrency 0`. -/
def noIpArgs : CommonArgs := { noIpv4 := true, noIpv6 := true, noCjdns := true, ipConcurrency := 0 }

/-- What the probe makes of them. -/
def noIpSettings : Settings where
  maxNodes := none
  maxAddresses := 1000000
  enabledNetworks := ⟨false, false, true, true, false⟩
  freshnessThreshold := 0
  recordAddrResponses := true
  concurrency := ⟨0, 64, 32⟩
  handshakeAttempts := 3
  retryOnTimeout := false
  checkpointInterval := 600
  probeMode := true
  maxAddresses_pos := by decide
  handshakeAttempts_pos := by decide
  staffed net := by cases net <;> decide

/-- The probe of one IPv4 target with these flags. -/
def noIpProbe : Setup := ⟨.zero, noIpSettings, .targets [⟨"1.2.3.4", 8333⟩], 0⟩

theorem noIpArgs_settings : noIpArgs.probeSettings = .ok noIpSettings := by
  have hinterval : parseDuration noIpArgs.checkpointInterval = .ok 600 := by decide
  unfold CommonArgs.probeSettings CommonArgs.intoSettings
  rw [hinterval]
  simp [noIpArgs, noIpSettings, CommonArgs.enabledNetworks, CommonArgs.concurrency, maxConcurrency]

/-- The probe accepts the flags and queues the target for a pool without workers. -/
theorem probe_strands_disabled_target : noIpArgs.probeSettings = .ok noIpSettings ∧
    ∃ c, Reachable (program noIpProbe) (start noIpProbe) c ∧
      (c.shared.queue .ip).items = [⟨"1.2.3.4", 8333⟩] ∧ (∀ p, Pc.worker .ip p ∉ c.threads) ∧
      ¬WorkRouted noIpProbe c := by
  refine ⟨noIpArgs_settings, ?_⟩
  have hrun : (exec (program noIpProbe) panicFree (start noIpProbe) (steps 0 5)).map (fun c =>
      ((c.shared.queue .ip).items, (c.shared.queue .ip).accepted)) =
      some ([⟨"1.2.3.4", 8333⟩], [⟨"1.2.3.4", 8333⟩]) := by
    decide
  obtain ⟨c, hc, heq⟩ := Option.map_eq_some_iff.mp hrun
  obtain ⟨hitems, hacc⟩ := Prod.mk.injEq .. ▸ heq
  have hr := (exec_noPanic hc).reachable
  have hnone : ∀ p, Pc.worker .ip p ∉ c.threads := fun p hp => absurd (worker_staffed hr hp) (by decide)
  refine ⟨c, hr, hitems, hnone, fun hrouted => ?_⟩
  obtain ⟨p, hp⟩ := hrouted.staffed .ip ⟨"1.2.3.4", 8333⟩ (by rw [hacc]; exact List.mem_singleton.mpr rfl)
  exact hnone p hp

end P2PCrawler
