import P2PCrawler.Crawler.Logging

/-!
# Logged addresses and the frontier

A block is logged before its addresses are handed to the store, in a shuffled order and one at a
time; the read guard is kept until the last of them.  `Annals` is the history of a run that tells
which observation a rejection was, and which manifests were published.

* `Covers` — the store has the key, with a freshest timestamp that is recent enough; no step
  undoes it.
* `WorksOff` — the block a worker has logged and works off.
* `Worked` — what of a block is in the store, was turned down, or is still to come.
* `blocks_worked` — **every logged block is worked off, or some worker is at it**.
-/

set_option autoImplicit false

namespace P2PCrawler

open ThreadPool

/-! ## Freshest timestamps -/

/-- The key is stored, with a freshest timestamp of at least `ts`. -/
def NodeStore.Covers (s : NodeStore) (k : AddrKey) (ts : Int) : Prop :=
  ∃ e, s.entry k = some e ∧ ts ≤ e.freshestTs

section Covers
variable {s : NodeStore} {k : AddrKey} {ts : Int}

theorem NodeStore.Covers.le {ts' : Int} (h : s.Covers k ts) (hle : ts' ≤ ts) : s.Covers k ts' := by
  obtain ⟨e, he, hts⟩ := h
  exact ⟨e, he, hle.trans hts⟩

theorem NodeStore.Covers.withEntry (h : s.Covers k ts) (k' : AddrKey) {f : NodeEntry → NodeEntry}
    (hf : ∀ e, e.freshestTs ≤ (f e).freshestTs) : (s.withEntry k' f).Covers k ts := by
  obtain ⟨e, he, hts⟩ := h
  by_cases hk : k = k'
  · subst hk
    exact ⟨f e, by rw [NodeStore.entry_withEntry_self, he]; rfl, hts.trans (hf e)⟩
  · exact ⟨e, by rw [NodeStore.entry_withEntry_ne _ _ _ hk]; exact he, hts⟩

theorem NodeStore.Covers.insertEntry (h : s.Covers k ts) {k' : AddrKey} {e' : NodeEntry} {n : Nat}
    (hnew : s.entry k' = none) : ({ s with entries := n }.insertEntry k' e').Covers k ts := by
  obtain ⟨e, he, hts⟩ := h
  refine ⟨e, ?_, hts⟩
  rw [NodeStore.entry_insertEntry, if_neg]
  · exact he
  · rintro rfl
    rw [hnew] at he
    cases he

/-- No step takes an entry away or lowers its freshest timestamp. -/
theorem Effect.covers {does : Intent} {sh sh' : Shared} {h h' : Held}
    (he : Effect does sh h sh' h') (hc : sh.store.Covers k ts) : sh'.store.Covers k ts := by
  cases he with
  | aside hs | close hs | forfeit hwhy hs => rw [hs]; exact hc
  | write hk hf => exact hc.withEntry _ fun e => (hf.freshestTs e).ge
  | refresh | revive => exact hc.withEntry _ fun e => le_max_left _ _
  | switch hst hf => exact hc.withEntry _ fun e => (hf.freshestTs e).ge
  | settle hst hf => exact hc.withEntry _ fun e => (hf.freshestTs e).ge
  | park ho hnew | discover ho hnew => exact hc.insertEntry hnew
  | reject | incr | decr | push | pop => exact hc

/-- Only an observation raises the count of rejections, by one. -/
theorem Effect.budgetRejected {does : Intent} {sh sh' : Shared} {h h' : Held}
    (he : Effect does sh h sh' h') :
    sh'.store.budgetRejected = sh.store.budgetRejected ∨
      (∃ o, does = .observe o) ∧ sh'.store.budgetRejected = sh.store.budgetRejected + 1 := by
  cases he with
  | aside hs | close hs | forfeit hwhy hs => rw [hs]; exact .inl rfl
  | reject ho => exact .inr ⟨⟨_, ho⟩, rfl⟩
  | write | refresh | revive | switch | settle =>
    exact .inl (NodeStore.withEntry_budgetRejected ..)
  | _ => exact .inl rfl

/-- An observed address is covered afterwards, or counted as rejected. -/
theorem NodeStore.Upsert.covers {net : NetworkType} {thr now : Int} {s' : NodeStore} {out : FrontierOutcome}
    (h : NodeStore.Upsert s k ts net thr now s' out) :
    s'.Covers k ts ∨ s'.budgetRejected = s.budgetRejected + 1 := by
  have hnew : ∀ {st : NodeState} {n : Nat}, s.entry k = none →
      ({ s with entries := n }.insertEntry k (.new net ts st)).Covers k ts := fun _ =>
    ⟨_, by rw [NodeStore.entry_insertEntry, if_pos rfl], le_refl ts⟩
  cases h with
  | refreshed he | revived he =>
    exact .inl ⟨_, by rw [NodeStore.entry_withEntry_self, he]; rfl, le_max_right _ _⟩
  | rejected => exact .inr rfl
  | parked he | discovered he => exact .inl (hnew he)

end Covers

/-! ## The history of a run -/

/-- An observation the store has turned down: a seed, or an address line of a block. -/
inductive Rejection where
  | seed (k : AddrKey)
  | line (eventId : Option Nat) (a : AdvertisedAddr)
  deriving DecidableEq, Repr

structure Annals where
  /-- by thread: the id under which it last logged a block -/
  block : Nat → Option Nat := fun _ => none
  rejected : List Rejection := []
  published : List Manifest := []

/-- The id of the block whose acknowledgement the thread is waiting for. -/
def Pc.awaits : Pc → Option Nat
  | .worker _ (.task _ (.blockLog _ _ _ (.wait _ eventId _))) => some eventId
  | _ => none

/-- What it means if the next step of a thread that works off the block `id` is turned down. -/
def Pc.rejection (id : Option Nat) : Pc → Option Rejection
  | .main (.seeding (k :: _)) => some (.seed k)
  | .worker _ (.task _ (.upserting _ _ _ (a :: _))) => some (.line id a)
  | _ => none

/-- The next step of the thread publishes a manifest, if the files can be stored. -/
def Pc.publishes : Pc → Bool
  | .main (.writing ..) | .checkpoint (.publishing _) => true
  | _ => false

def Annals.record (g : Annals) (c : Conf Shared Pc) (a : Nat × Answer) (c' : Conf Shared Pc) :
    Annals :=
  match c.threads[a.1]? with
  | none => g
  | some pc =>
    { block := Function.update g.block a.1 (pc.awaits.or (g.block a.1))
      rejected :=
        if c.shared.store.budgetRejected < c'.shared.store.budgetRejected then
          g.rejected ++ (pc.rejection (g.block a.1)).toList
        else g.rejected
      published :=
        if pc.publishes && a.2.stored then g.published ++ c'.shared.manifest.toList
        else g.published }

/-- Runs with their history. -/
abbrev Told (S : Setup) (ok : Conf Shared Pc → Nat × Answer → Prop) : Conf Shared Pc → Annals → Prop :=
  Chronicle (program S) ok Annals.record (start S) {}

/-- No write of the log fails in the step, and no task panics while it holds a read guard. -/
structure Undisturbed (c : Conf Shared Pc) (a : Nat × Answer) : Prop where
  fault : a.2.fault = none
  panic : ∀ pc, c.threads[a.1]? = some pc → a.2.panic = true → pc.reads = 0

section Record
variable {c c' : Conf Shared Pc} {g : Annals} {a : Nat × Answer} {pc : Pc}

/-- The history of the other threads stays. -/
theorem Annals.record_block_of_ne (g : Annals) (c c' : Conf Shared Pc) (a : Nat × Answer) {j : Nat}
    (hj : j ≠ a.1) : (g.record c a c').block j = g.block j := by
  unfold record
  split
  · rfl
  · exact Function.update_of_ne hj ..

theorem Annals.record_block (hpc : c.threads[a.1]? = some pc) (g : Annals) (c' : Conf Shared Pc) :
    (g.record c a c').block a.1 = pc.awaits.or (g.block a.1) := by
  unfold record
  rw [hpc]
  exact Function.update_self ..

/-- Rejections are only ever added. -/
theorem Annals.record_rejected (g : Annals) (c c' : Conf Shared Pc) (a : Nat × Answer) :
    ∃ more, (g.record c a c').rejected = g.rejected ++ more := by
  unfold record
  split
  · exact ⟨[], (List.append_nil _).symm⟩
  · dsimp only
    split
    · exact ⟨_, rfl⟩
    · exact ⟨[], (List.append_nil _).symm⟩

/-- Who observes can be turned down. -/
theorem Pc.rejection_of_observe {S : Setup} {o : Observation} (h : pc.intent S = .observe o)
    (id : Option Nat) : ∃ r, pc.rejection id = some r := by
  rcases intent_observe h with ⟨k, rest, rfl, -⟩ | ⟨t, k, c, count, now, addr, rest, rfl, -⟩
  · exact ⟨_, rfl⟩
  · exact ⟨_, rfl⟩

/-- The rejections are counted. -/
theorem Annals.record_counted {S : Setup} (hst : ThreadPool.step (program S) c a = some c')
    (hg : g.rejected.length = c.shared.store.budgetRejected) :
    (g.record c a c').rejected.length = c'.shared.store.budgetRejected := by
  obtain ⟨pc, sh', pc', hpc, hp, rfl⟩ := step_cases hst
  unfold record
  rw [hpc]
  dsimp only
  rcases (step_effect hp).budgetRejected with hsame | ⟨⟨o, ho⟩, hmore⟩
  · rw [if_neg (by omega), hg, hsame]
  · obtain ⟨r, hr⟩ := Pc.rejection_of_observe ho (g.block a.1)
    rw [if_pos (by omega), hr, List.length_append, hg, hmore]
    rfl

end Record

/-! ## The log of an undisturbed run -/

section Log
variable {S : Setup} {c c' : Conf Shared Pc} {a : Nat × Answer}

theorem undisturbed_log (hr : Reach (program S) Undisturbed (start S) c) :
    LogInv c.shared.log (callsOf Pc.call c.threads) :=
  crawl_log (fun _ _ pc hok => hok.panic pc) hr

/-- What is written is what some other thread is waiting for, and it is written completely. -/
theorem undisturbed_written (hr : Reach (program S) Undisturbed (start S) c) (hok : Undisturbed c a)
    (hst : ThreadPool.step (program S) c a = some c') :
    c'.shared.log.written = c.shared.log.written ∨
    ∃ j pc event eventId ticket, j ≠ a.1 ∧ c.threads[j]? = some pc ∧
      pc.call = some (.wait (.write event) eventId ticket) ∧
      eventId = c.shared.log.written.length + 1 ∧
      c'.shared.log.written = c.shared.log.written ++ [⟨eventId, event, none⟩] := by
  obtain ⟨pc, sh', pc', hpc, hp, rfl⟩ := step_cases hst
  rcases program_log hp (hok.panic pc hpc) with ⟨rfl, rfl, hs⟩ | hmove
  · -- The writer serves the one command under way.
    cases undisturbed_log hr with
    | free hw hl hidle =>
      simp only [LogState.writerStep, hidle.1] at hs
      cases hs
    | held j call hw hl hcall hh ht =>
      have hturn : ∃ r eventId ticket, call = .wait r eventId ticket ∧
          c.shared.log.channel = [r.command eventId ticket] ∧
          eventId = c.shared.log.written.length + 1 := by
        cases call with
        | lock r => cases hh
        | send r eventId =>
          simp only [LogState.writerStep, ht.1] at hs
          cases hs
        | wait r eventId ticket =>
          obtain ⟨-, -, ⟨hch, -, hid⟩ | ⟨hch, -⟩⟩ := ht
          · exact ⟨r, eventId, ticket, rfl, hch, hid⟩
          · simp only [LogState.writerStep, hch] at hs
            cases hs
      obtain ⟨r, eventId, ticket, rfl, hch, hid⟩ := hturn
      obtain ⟨pc, hthread, hpccall⟩ := Option.bind_eq_some_iff.mp hcall
      have hne : j ≠ a.1 := by
        rintro rfl
        rw [hpc] at hthread
        cases hthread
        cases hpccall
      cases r with
      | write event =>
        simp only [LogState.writerStep, hch, LogRequest.command, hok.fault] at hs
        refine .inr ⟨j, pc, event, eventId, ticket, hne, hthread, hpccall, hid, ?_⟩
        show sh'.log.written = _
        rw [← Option.some.inj hs]
      | flush =>
        simp only [LogState.writerStep, hch, LogRequest.command] at hs
        left
        show sh'.log.written = _
        split at hs <;> rw [← Option.some.inj hs]
  · exact .inl hmove.written

/-- Every record is whole. -/
theorem undisturbed_whole (hr : Reach (program S) Undisturbed (start S) c) :
    ∀ p ∈ c.shared.log.written, p.torn = none := by
  refine hr.invariant (I := fun c => ∀ p ∈ c.shared.log.written, p.torn = none)
    (fun p hp => by cases hp) ?_
  intro c a c' hr ih hok hst
  rcases undisturbed_written hr hok hst with hsame | ⟨_, _, _, _, _, -, -, -, -, hmore⟩
  · rw [hsame]
    exact ih
  · rw [hmore]
    intro p hp
    rcases List.mem_append.mp hp with hp | hp
    · exact ih p hp
    · rw [List.mem_singleton.mp hp]

/-- Every write is acknowledged. -/
theorem write_acknowledged (hr : Reach (program S) Undisturbed (start S) c) {i : Nat} {pc : Pc}
    (hpc : c.threads[i]? = some pc) {event : LogEvent} {eventId ticket : Nat}
    (hcall : pc.call = some (.wait (.write event) eventId ticket)) {res : Option Nat}
    (hreply : c.shared.log.replies.lookup ticket = some res) : res.isSome = true := by
  have hk : callsOf Pc.call c.threads i = some (.wait (.write event) eventId ticket) := by
    unfold callsOf
    rw [hpc]
    exact hcall
  obtain ⟨-, hturn⟩ := (undisturbed_log hr).turn hk rfl
  obtain ⟨-, torn, hlast, -, hres⟩ := hturn.leave hreply
  have htorn : torn = none := undisturbed_whole hr _ (List.mem_of_getLast? hlast)
  rw [hres, if_pos htorn]
  rfl

end Log

/-! ## Working off a block -/

/-- Every address of the block `eventId` is covered, or so many of its observations were turned
    down as are not still to come. -/
def Worked (s : NodeStore) (rejected : List Rejection) (eventId : Nat)
    (addrs rest : List AdvertisedAddr) : Prop :=
  ∀ a ∈ addrs, s.Covers ⟨a.host, a.port⟩ a.timestamp ∨
    addrs.count a ≤ rejected.count (.line (some eventId) a) + rest.count a

namespace Worked
variable {s s' : NodeStore} {rejected : List Rejection} {eventId : Nat}
  {addrs rest : List AdvertisedAddr}

theorem untouched (s : NodeStore) (rejected : List Rejection) (eventId : Nat)
    (addrs : List AdvertisedAddr) : Worked s rejected eventId addrs addrs :=
  fun _ _ => .inr (Nat.le_add_left ..)

theorem perm {rest' : List AdvertisedAddr} (h : Worked s rejected eventId addrs rest)
    (hperm : rest.Perm rest') : Worked s rejected eventId addrs rest' := by
  intro a ha
  rw [← hperm.count_eq]
  exact h a ha

theorem mono (h : Worked s rejected eventId addrs rest)
    (hcov : ∀ k ts, s.Covers k ts → s'.Covers k ts) (more : List Rejection) :
    Worked s' (rejected ++ more) eventId addrs rest := by
  intro a ha
  rcases h a ha with hc | hcount
  · exact .inl (hcov _ _ hc)
  · rw [List.count_append]
    exact .inr (by omega)

/-- The next address is handed to the store. -/
theorem observe {a : AdvertisedAddr} (h : Worked s rejected eventId addrs (a :: rest))
    (hcov : ∀ k ts, s.Covers k ts → s'.Covers k ts) {more : List Rejection}
    (hdone : s'.Covers ⟨a.host, a.port⟩ a.timestamp ∨ more = [.line (some eventId) a]) :
    Worked s' (rejected ++ more) eventId addrs rest := by
  intro b hb
  by_cases hab : a = b
  · subst hab
    rcases hdone with hc | rfl
    · exact .inl hc
    · rcases h a hb with hc | hcount
      · exact .inl (hcov _ _ hc)
      · rw [List.count_cons_self] at hcount
        rw [List.count_append, List.count_singleton_self]
        exact .inr (by omega)
  · rcases h b hb with hc | hcount
    · exact .inl (hcov _ _ hc)
    · rw [List.count_cons_of_ne hab] at hcount
      rw [List.count_append]
      exact .inr (by omega)

end Worked

/-- The thread has logged the block `p` and works it off: the addresses in the list are still to
    be handed to the store. -/
inductive WorksOff (s : Settings) (p : Piece) (parsed : ParsedAddrMessage) :
    Option Nat → Pc → List AdvertisedAddr → Prop where
  | logged {id : Option Nat} {t : Transport} {k : AddrKey} {c : Session} {now : Int}
      {ticket : Nat} :
      WorksOff s p parsed id
        (.worker t (.task k (.blockLog c parsed now (.wait (.write p.event) p.eventId ticket))))
        (enabledAddrs s parsed)
  | shuffling {t : Transport} {k : AddrKey} {c : Session} {now : Int} :
      WorksOff s p parsed (some p.eventId) (.worker t (.task k (.shuffling c parsed now)))
        (enabledAddrs s parsed)
  | upserting {t : Transport} {k : AddrKey} {c : Session} {count : Nat} {now : Int}
      {rest : List AdvertisedAddr} :
      WorksOff s p parsed (some p.eventId) (.worker t (.task k (.upserting c count now rest))) rest
  | enqueueing {t : Transport} {k key : AddrKey} {c : Session} {count : Nat} {now : Int}
      {rest : List AdvertisedAddr} {e : EnqueuePc} :
      WorksOff s p parsed (some p.eventId)
        (.worker t (.task k (.enqueueing c count now rest key e))) rest

/-- Whoever works off a block holds a read guard. -/
theorem WorksOff.reads {s : Settings} {p : Piece} {parsed : ParsedAddrMessage} {id : Option Nat}
    {pc : Pc} {rest : List AdvertisedAddr} (h : WorksOff s p parsed id pc rest) :
    ∃ t k q, pc = .worker t (.task k q) ∧ q.guarded = true := by
  cases h <;> exact ⟨_, _, _, rfl, rfl⟩

/-- The block is worked off, or some thread is at it. -/
def BlockOk (S : Setup) (c : Conf Shared Pc) (g : Annals) (p : Piece) (parsed : ParsedAddrMessage) :
    Prop :=
  Worked c.shared.store g.rejected p.eventId (enabledAddrs S.settings parsed) [] ∨
  ∃ i pc rest, c.threads[i]? = some pc ∧ WorksOff S.settings p parsed (g.block i) pc rest ∧
    Worked c.shared.store g.rejected p.eventId (enabledAddrs S.settings parsed) rest

section Step
variable {S : Setup} {c c' : Conf Shared Pc} {a : Nat × Answer} {g : Annals} {p : Piece}
  {parsed : ParsedAddrMessage} {rest : List AdvertisedAddr}

/-- A step of a task that does not panic. -/
theorem taskStep_of_step {t : Transport} {k : AddrKey} {q : TaskPc} (hg : q.guarded = true)
    (hst : ThreadPool.step (program S) c a = some c') (hok : Undisturbed c a)
    (hpc : c.threads[a.1]? = some (.worker t (.task k q))) :
    ∃ next, taskStep S c.shared t k a.2 q = some (c'.shared, next) ∧
      c'.threads[a.1]? = some (.worker t ((next.map (WorkerPc.task k)).getD .top)) := by
  obtain ⟨pc, sh', pc', hpc', hp, rfl⟩ := step_cases hst
  rw [hpc] at hpc'
  cases hpc'
  have hself : ∀ pc', (c.threads.set a.1 pc')[a.1]? = some pc' := fun pc' =>
    List.getElem?_set_self (List.getElem?_eq_some_iff.mp hpc).1
  rcases program_cases hp with ⟨_, _, heq, -⟩ | ⟨_, _, heq, -⟩ | ⟨_, _, heq, -⟩ | ⟨_, heq, -⟩ |
    ⟨t', p, p', heq, rfl, hs⟩
  · cases heq
  · cases heq
  · cases heq
  · cases heq
  · cases heq
    rcases workerStep_cases hs with ⟨k', q', heq, hbad, -⟩ | ⟨k', q', next, heq, -, hstep, rfl⟩ |
      ⟨hne, -⟩ | ⟨hne, -⟩
    · cases heq
      have hzero := hok.panic _ hpc hbad
      rw [show (Pc.worker t (.task k q)).reads = 1 from if_pos hg] at hzero
      cases hzero
    · cases heq
      exact ⟨next, hstep, hself _⟩
    · exact absurd rfl (hne k q)
    · exact absurd rfl (hne k q)

/-- **One step of a thread that works off a block**: it goes on, or the block is worked off. -/
theorem WorksOff.step {pc : Pc} (hr : Reach (program S) Undisturbed (start S) c)
    (hok : Undisturbed c a) (hst : ThreadPool.step (program S) c a = some c')
    (hpc : c.threads[a.1]? = some pc) (hw : WorksOff S.settings p parsed (g.block a.1) pc rest)
    (hworked : Worked c.shared.store g.rejected p.eventId (enabledAddrs S.settings parsed) rest)
    (hcov : ∀ k ts, c.shared.store.Covers k ts → c'.shared.store.Covers k ts) :
    BlockOk S c' (g.record c a c') p parsed := by
  obtain ⟨t, k, q, rfl, hg⟩ := hw.reads
  obtain ⟨next, hstep, hnext⟩ := taskStep_of_step hg hst hok hpc
  obtain ⟨more, hmore⟩ := g.record_rejected c c' a
  have hkept := hworked.mono hcov more
  rw [← hmore] at hkept
  have hblock := Annals.record_block hpc g c'
  -- The thread is at a later point of the same block.
  have go : ∀ {q' : TaskPc} {rest' : List AdvertisedAddr}, next = some q' →
      WorksOff S.settings p parsed ((g.record c a c').block a.1) (.worker t (.task k q')) rest' →
      Worked c'.shared.store (g.record c a c').rejected p.eventId
        (enabledAddrs S.settings parsed) rest' →
      BlockOk S c' (g.record c a c') p parsed := by
    rintro q' rest' rfl hw' hworked'
    exact .inr ⟨a.1, _, rest', hnext, hw', hworked'⟩
  generalize hid : g.block a.1 = id at hw hblock
  cases hw with
  | logged =>
    simp only [taskStep] at hstep
    rcases logStep_cases hstep with ⟨call', hs, rfl⟩ | ⟨res, hs, rfl⟩
    · rcases LogCall.step_pending hs with ⟨_, heq, -⟩ | ⟨_, _, heq, -⟩ <;> cases heq
    · obtain ⟨_, _, _, heq, hreply, -⟩ := LogCall.step_returned hs
      cases heq
      rw [write_acknowledged hr hpc rfl hreply] at go
      refine go rfl ?_ hkept
      rw [hblock]
      exact .shuffling
  | shuffling =>
    simp only [taskStep] at hstep
    split at hstep
    · rename_i hperm
      simp only [Option.some.injEq, Prod.mk.injEq] at hstep
      obtain ⟨-, rfl⟩ := hstep
      refine go rfl ?_ (hkept.perm (List.isPerm_iff.mp hperm).symm)
      rw [hblock]
      exact .upserting
    · cases hstep
  | enqueueing =>
    simp only [taskStep, Option.some.injEq, Prod.mk.injEq] at hstep
    obtain ⟨-, rfl⟩ := hstep
    generalize (enqueueStep _ _ _ _).2 = e at go
    cases e with
    | none =>
      refine go rfl ?_ hkept
      rw [hblock]
      exact .upserting
    | some e' =>
      refine go rfl ?_ hkept
      rw [hblock]
      exact .enqueueing
  | @upserting _ _ sess count now _ =>
    cases rest with
    | nil => exact .inl hkept
    | cons addr rest =>
      simp only [taskStep, Option.some.injEq, Prod.mk.injEq] at hstep
      obtain ⟨hshared, rfl⟩ := hstep
      have hcases := NodeStore.frontierUpsert_cases c.shared.store ⟨addr.host, addr.port⟩
        addr.timestamp addr.network S.settings.freshnessThreshold now
      have hdone : Worked c'.shared.store (g.record c a c').rejected p.eventId
          (enabledAddrs S.settings parsed) rest := by
        rw [hmore]
        refine hworked.observe hcov ?_
        rcases hcases.covers with hc | hrej
        · rw [← hshared]
          exact .inl hc
        · refine .inr (@List.append_cancel_left _ g.rejected _ _ ?_)
          rw [← hmore]
          unfold Annals.record
          rw [hpc, hid]
          refine if_pos ?_
          rw [← hshared]
          show _ < (c.shared.store.frontierUpsert ..).1.budgetRejected
          rw [hrej]
          exact Nat.lt_succ_self _
      generalize (c.shared.store.frontierUpsert _ _ _ _ _).2 = out at go
      cases out with
      | enqueue =>
        refine go rfl ?_ hdone
        rw [hblock]
        exact .enqueueing
      | _ =>
        refine go rfl ?_ hdone
        rw [hblock]
        exact .upserting

theorem BlockOk.step (h : BlockOk S c g p parsed)
    (hr : Reach (program S) Undisturbed (start S) c) (hok : Undisturbed c a)
    (hst : ThreadPool.step (program S) c a = some c') : BlockOk S c' (g.record c a c') p parsed := by
  obtain ⟨pc, sh', pc', hpc, hp, heq⟩ := step_cases hst
  have hcov : ∀ k ts, c.shared.store.Covers k ts → c'.shared.store.Covers k ts := by
    rw [heq]
    exact fun _ _ => (step_effect hp).covers
  obtain ⟨more, hmore⟩ := g.record_rejected c c' a
  rcases h with hdone | ⟨i, u, rest, hu, hw, hworked⟩
  · left
    rw [hmore]
    exact hdone.mono hcov more
  · by_cases hi : i = a.1
    · subst hi
      exact hw.step hr hok hst hu hworked hcov
    · -- Another thread moves.
      refine .inr ⟨i, u, rest, ?_, ?_, ?_⟩
      · rw [heq]
        show (c.threads.set a.1 pc')[i]? = some u
        rw [List.getElem?_set_ne (Ne.symm hi)]
        exact hu
      · rw [Annals.record_block_of_ne g c c' a hi]
        exact hw
      · rw [hmore]
        exact hworked.mono hcov more

end Step

/-- Who waits for a block to be written has parsed it. -/
theorem Pc.WritesOf.block {S : Setup} {pc : Pc} (h : pc.WritesOf S) {r : Responder}
    {parsed : ParsedAddrMessage} {eventId ticket : Nat}
    (hcall : pc.call = some (.wait (.write (.block r parsed)) eventId ticket)) :
    ∃ t k c now, pc = .worker t
      (.task k (.blockLog c parsed now (.wait (.write (.block r parsed)) eventId ticket))) := by
  cases pc with
  | main p =>
    cases p with
    | flushing res call => cases hcall; cases h
    | _ => cases hcall
  | checkpoint p =>
    cases p with
    | flushing processed call => cases hcall; cases h
    | _ => cases hcall
  | worker t p =>
    cases p with
    | task k q =>
      cases q with
      | blockLog c parsed' now call =>
        cases hcall
        obtain ⟨command, hreq⟩ := h
        cases hreq
        exact ⟨t, k, c, now, rfl⟩
      | malformedLog c call =>
        cases hcall
        obtain ⟨event, hreq, _, _, _, rfl⟩ := h
        cases hreq
      | outcomeLog c call =>
        cases hcall
        obtain ⟨outcome, hreq⟩ := h
        cases hreq
      | _ => cases hcall
    | _ => cases hcall
  | _ => cases hcall

/-- **Every logged block** is worked off, or some thread is at it. -/
theorem blocks_worked {S : Setup} {c : Conf Shared Pc} {g : Annals} (ht : Told S Undisturbed c g) :
    ∀ p ∈ c.shared.log.written, ∀ r parsed, p.event = .block r parsed → BlockOk S c g p parsed := by
  refine ht.invariant (I := fun c g => ∀ p ∈ c.shared.log.written, ∀ r parsed,
    p.event = .block r parsed → BlockOk S c g p parsed) (fun p hp => by cases hp) ?_
  intro c g a c' ht ih hok hst p hp r parsed hevent
  have hr := ht.reach
  rcases undisturbed_written hr hok hst with
    hsame | ⟨j, pc, event, eventId, ticket, hj, hpc, hcall, -, hmore⟩
  · rw [hsame] at hp
    exact (ih p hp r parsed hevent).step hr hok hst
  · rw [hmore] at hp
    rcases List.mem_append.mp hp with hp | hp
    · exact (ih p hp r parsed hevent).step hr hok hst
    · -- The new block: its thread still waits for the acknowledgement.
      rw [List.mem_singleton.mp hp] at hevent ⊢
      cases hevent
      obtain ⟨t, k, sess, now, rfl⟩ :=
        ((writers_ok hr).1 pc (List.mem_of_getElem? hpc)).block hcall
      obtain ⟨_, _, pc', -, -, heq⟩ := step_cases hst
      have hw : WorksOff S.settings ⟨eventId, .block r parsed, none⟩ parsed
          ((g.record c a c').block j) (.worker t (.task k (.blockLog sess parsed now
            (.wait (.write (.block r parsed)) eventId ticket))))
          (enabledAddrs S.settings parsed) := .logged
      refine .inr ⟨j, _, _, ?_, hw, Worked.untouched _ _ _ _⟩
      rw [heq]
      show (c.threads.set a.1 pc')[j]? = _
      rw [List.getElem?_set_ne (Ne.symm hj)]
      exact hpc

/-- Where nobody holds a read guard, every logged block is worked off. -/
theorem blocks_settled {S : Setup} {c : Conf Shared Pc} {g : Annals} (ht : Told S Undisturbed c g)
    (hfree : ∀ t k q, Pc.worker t (.task k q) ∈ c.threads → q.guarded = false) {p : Piece}
    (hp : p ∈ c.shared.log.written) {r : Responder} {parsed : ParsedAddrMessage}
    (hevent : p.event = .block r parsed) :
    Worked c.shared.store g.rejected p.eventId (enabledAddrs S.settings parsed) [] := by
  rcases blocks_worked ht p hp r parsed hevent with h | ⟨i, pc, rest, hpc, hw, -⟩
  · exact h
  · obtain ⟨t, k, q, rfl, hg⟩ := hw.reads
    rw [hfree t k q (List.mem_of_getElem? hpc)] at hg
    cases hg

/-- The rejections in the history are those the store has counted. -/
theorem rejected_counted {S : Setup} {ok : Conf Shared Pc → Nat × Answer → Prop}
    {c : Conf Shared Pc} {g : Annals} (ht : Told S ok c g) :
    g.rejected.length = c.shared.store.budgetRejected :=
  ht.invariant (I := fun c g => g.rejected.length = c.shared.store.budgetRejected) rfl
    fun _ _ _ _ _ ih _ hst => Annals.record_counted hst ih

end P2PCrawler
