import P2PCrawler.Crawler.Ending

/-!
# One owner for each key

A queued key is in one queue or in the hands of one task, and a key that is being processed is in
no queue.  All of it is read off the sums of `Books`.

* `Pc.sends`, `Pc.received` — the positions that have a queued key in hand.
* `Pc.processes` — the positions of an active `process`.

## Results

* `single_owner` — **every key has one owner**, the queues hold queued keys of their transport
  only, and the entries stay within the budget.
-/

set_option autoImplicit false

namespace P2PCrawler

open ThreadPool

/-! ## Positions -/

/-- The task is sending the key, from the write of its state to the end of a failed send. -/
def Pc.sends (k : AddrKey) : Pc → Prop
  | .main (.seedEnqueue _ key e) => key = k ∧ e ≠ .uncount
  | .worker _ (.task _ (.enqueueing _ _ _ _ key e)) => key = k ∧ e ≠ .uncount
  | .worker _ (.task key (.resending ..)) | .worker _ (.task key (.abandoning (.write ..))) => key = k
  | _ => False

/-- The task has just received the key. -/
def Pc.received (k : AddrKey) : Pc → Prop
  | .worker _ (.reserving key) | .worker _ (.limitHit key) | .worker _ (.starting key)
  | .worker _ (.discarding key (.write ..)) => key = k
  | _ => False

/-- The task still writes to the entry of the node it processes. -/
def TaskPc.working : TaskPc → Bool
  | .abandoning .decr | .abandoning .close | .finishing .decr | .finishing .close => false
  | _ => true

/-- A `process` of the key is active. -/
def Pc.processes (k : AddrKey) : Pc → Prop
  | .worker _ (.task key p) => key = k ∧ p.working = true
  | _ => False

theorem EnqueuePc.queued_mem_held {k key : AddrKey} {e : EnqueuePc} :
    (k, NodeState.queued) ∈ (e.held key).owned ↔ key = k ∧ e ≠ .uncount := by
  cases e <;> simp [EnqueuePc.held, eq_comm]

theorem FinishPc.queued_mem_held {k key : AddrKey} {st : NodeState} {f : FinishPc}
    (h : (k, NodeState.queued) ∈ (f.held key st).owned) :
    key = k ∧ st = .queued ∧ ∃ terminal reason, f = .write terminal reason := by
  cases f with
  | write terminal reason =>
    cases List.mem_singleton.mp h
    exact ⟨rfl, rfl, terminal, reason, rfl⟩
  | _ => cases h

/-- The positions that have a queued key in hand. -/
theorem Pc.queued_mem_held {k : AddrKey} {pc : Pc} :
    (k, NodeState.queued) ∈ pc.held.owned ↔ pc.sends k ∨ pc.received k := by
  constructor
  · intro h
    cases pc with
    | main p =>
      cases p with
      | seedEnqueue rest key e => exact .inl (EnqueuePc.queued_mem_held.mp h)
      | _ => cases h
    | worker t p =>
      cases p with
      | task key p =>
        cases p with
        | enqueueing c count now rest a e =>
          rcases List.mem_append.mp h with h | h
          · exact .inl (EnqueuePc.queued_mem_held.mp h)
          · cases List.mem_singleton.mp h
        | resending => cases List.mem_singleton.mp h; exact .inl rfl
        | abandoning f =>
          obtain ⟨rfl, -, terminal, reason, rfl⟩ := FinishPc.queued_mem_held h
          exact .inl rfl
        | finishing f =>
          obtain ⟨-, hst, -⟩ := FinishPc.queued_mem_held h
          cases hst
        | _ => cases List.mem_singleton.mp h
      | discarding key f =>
        obtain ⟨rfl, -, terminal, reason, rfl⟩ := FinishPc.queued_mem_held h
        exact .inr rfl
      | crashedFinish key f =>
        obtain ⟨-, hst, -⟩ := FinishPc.queued_mem_held h
        cases hst
      | reserving | limitHit | starting => cases List.mem_singleton.mp h; exact .inr rfl
      | crashed | crashedShutdown => cases List.mem_singleton.mp h
      | _ => cases h
    | _ => cases h
  · rintro (h | h)
    · unfold Pc.sends at h
      split at h
      · exact EnqueuePc.queued_mem_held.mpr h
      · exact List.mem_append_left _ (EnqueuePc.queued_mem_held.mpr h)
      · subst h; exact List.mem_singleton.mpr rfl
      · subst h; exact List.mem_singleton.mpr rfl
      · exact h.elim
    · unfold Pc.received at h
      split at h
      iterate 4 (subst h; exact List.mem_singleton.mpr rfl)
      exact h.elim

/-- An active `process` answers for its node. -/
theorem Pc.processes_owned {k : AddrKey} {pc : Pc} (h : pc.processes k) :
    ∃ st, (k, st) ∈ pc.held.owned := by
  unfold Pc.processes at h
  split at h
  · rename_i t key p
    obtain ⟨rfl, hworking⟩ := h
    cases p with
    | enqueueing c count now rest a e =>
      exact ⟨.processing, List.mem_append_right _ (List.mem_singleton.mpr rfl)⟩
    | abandoning f =>
      cases f with
      | write terminal reason => exact ⟨.queued, List.mem_singleton.mpr rfl⟩
      | _ => cases hworking
    | finishing f =>
      cases f with
      | write terminal reason => exact ⟨.processing, List.mem_singleton.mpr rfl⟩
      | _ => cases hworking
    | resending => exact ⟨.queued, List.mem_singleton.mpr rfl⟩
    | _ => exact ⟨.processing, List.mem_singleton.mpr rfl⟩
  · exact h.elim

/-! ## Counting -/

section Counting
variable {c : Conf Shared Pc}

/-- What the queues and the hands of the tasks hold of a queued key adds up to one. -/
theorem Books.queued_sum (hb : Books c) {k : AddrKey} (hk : c.shared.store.stateOf k = some .queued) :
    c.shared.copies k + load (Pc.claims k .queued) c.threads = 1 := by
  have hsum := hb.state k .queued rfl
  simp only [total, stateLedger, hk, if_true] at hsum
  omega

theorem Books.copies_le_one (hb : Books c) (k : AddrKey) : c.shared.copies k ≤ 1 := by
  have hsum := hb.state k .queued rfl
  have hload := load_nonneg (Pc.claims_nonneg k .queued) c.threads
  simp only [total, stateLedger, if_true] at hsum
  split at hsum <;> omega

/-- A sum of one over the threads has one thread that contributes. -/
theorem exists_of_load_pos {f : Pc → ℤ} {ts : List Pc} (h : 0 < load f ts) :
    ∃ (i : Nat) (pc : Pc), ts[i]? = some pc ∧ f pc ≠ 0 := by
  by_contra hnone
  have hzero : load f ts = 0 := by
    refine load_eq_zero fun pc hpc => ?_
    by_contra hne
    obtain ⟨i, hi⟩ := List.getElem?_of_mem hpc
    exact hnone ⟨i, pc, hi, hne⟩
  omega

/-- A queued key is in one queue, or in the hands of one task. -/
theorem Books.queued_owner (hb : Books c) {k : AddrKey} (hk : c.shared.store.stateOf k = some .queued) :
    ((∃ t, k ∈ (c.shared.queue t).items) ∧ ∀ pc ∈ c.threads, ¬(pc.sends k ∨ pc.received k)) ∨
      (∀ t, k ∉ (c.shared.queue t).items) ∧
        ∃ (i : Nat) (pc : Pc), c.threads[i]? = some pc ∧ (pc.sends k ∨ pc.received k) ∧
          ∀ (j : Nat) (u : Pc), c.threads[j]? = some u → u.sends k ∨ u.received k → j = i := by
  have hsum := hb.queued_sum hk
  by_cases hin : ∃ t, k ∈ (c.shared.queue t).items
  · obtain ⟨t, ht⟩ := hin
    refine .inl ⟨⟨t, ht⟩, fun pc hpc hhand => ?_⟩
    exact (hb.queued_unowned ht).2 pc hpc _ (Pc.queued_mem_held.mpr hhand) rfl
  · have hout : ∀ t, k ∉ (c.shared.queue t).items := fun t ht => hin ⟨t, ht⟩
    have hcount : ∀ t, (c.shared.queue t).items.count k = 0 := fun t => List.count_eq_zero.mpr (hout t)
    have hcopies : c.shared.copies k = 0 := by
      unfold Shared.copies
      simp only [hcount]
      rfl
    have hpos : 0 < load (Pc.claims k .queued) c.threads := by omega
    obtain ⟨i, pc, hi, hne⟩ := exists_of_load_pos hpos
    have hmem : (k, NodeState.queued) ∈ pc.held.owned := by
      unfold Pc.claims at hne
      exact List.count_pos_iff.mp (by omega)
    refine .inr ⟨hout, i, pc, hi, Pc.queued_mem_held.mp hmem, fun j u hj hu => ?_⟩
    by_contra hij
    exact hb.owned_ne hij hj hi hmem _ (Pc.queued_mem_held.mpr hu) rfl

end Counting

/-! ## Observations -/

/-- What an observation of an absent key does: it is stored if a slot is free, and rejected and
    counted if not. -/
def Admitted (s s' : NodeStore) (k : AddrKey) : Prop :=
  if s.entries < s.maxEntries then s'.entry k ≠ none ∧ s'.budgetRejected = s.budgetRejected
  else s'.entry k = none ∧ s'.budgetRejected = s.budgetRejected + 1

theorem NodeStore.observeSeed_admitted {s : NodeStore} {k : AddrKey} (hnew : s.entry k = none)
    (H : Digests) (now : Int) : Admitted s (s.observeSeed H k now).1 k := by
  have hc := s.observeSeed_cases H k now
  generalize (s.observeSeed H k now).1 = s' at hc ⊢
  generalize (s.observeSeed H k now).2 = new at hc
  unfold Admitted
  cases hc with
  | refreshed he => rw [hnew] at he; cases he
  | rejected he hfull => rw [if_neg (by omega)]; exact ⟨hnew, rfl⟩
  | discovered he hroom =>
    rw [if_pos hroom]
    exact ⟨by rw [NodeStore.entry_insertEntry, if_pos rfl]; exact nofun, rfl⟩

theorem NodeStore.frontierUpsert_admitted {s : NodeStore} {k : AddrKey} (hnew : s.entry k = none)
    (ts : Int) (net : NetworkType) (thr now : Int) :
    Admitted s (s.frontierUpsert k ts net thr now).1 k := by
  have hc := s.frontierUpsert_cases k ts net thr now
  generalize (s.frontierUpsert k ts net thr now).1 = s' at hc ⊢
  generalize (s.frontierUpsert k ts net thr now).2 = out at hc
  unfold Admitted
  cases hc with
  | refreshed he => rw [hnew] at he; cases he
  | revived he => rw [hnew] at he; cases he
  | rejected he hfull => rw [if_neg (by omega)]; exact ⟨hnew, rfl⟩
  | parked he hroom =>
    rw [if_pos hroom]
    exact ⟨by rw [NodeStore.entry_insertEntry, if_pos rfl]; exact nofun, rfl⟩
  | discovered he hroom =>
    rw [if_pos hroom]
    exact ⟨by rw [NodeStore.entry_insertEntry, if_pos rfl]; exact nofun, rfl⟩

/-- A step that is about to observe an absent key does so. -/
theorem observe_admitted {S : Setup} {sh sh' : Shared} {pc pc' : Pc} {a : Answer}
    (h : program S sh pc a = some (sh', pc')) (ha : a.panic = false) {o : Observation}
    (ho : pc.intent S = .observe o) (hnew : sh.store.entry o.key = none) :
    Admitted sh.store sh'.store o.key := by
  rcases intent_observe ho with ⟨k, rest, rfl, rfl⟩ | ⟨t, k, c, count, now, addr, rest, rfl, rfl⟩
  · rcases program_cases h with ⟨p, p', heq, rfl, hs⟩ | ⟨p, p', heq, -⟩ | ⟨p, p', heq, -⟩ |
      ⟨L, heq, -⟩ | ⟨t, p, p', heq, -⟩ <;> cases heq
    cases hs
    exact NodeStore.observeSeed_admitted hnew S.digests S.seedTime
  · rcases program_cases h with ⟨p, p', heq, -⟩ | ⟨p, p', heq, -⟩ | ⟨p, p', heq, -⟩ |
      ⟨L, heq, -⟩ | ⟨t, p, p', heq, rfl, hs⟩ <;> cases heq
    simp only [workerStep, ha, Bool.false_eq_true, if_false, taskStep] at hs
    cases hs
    exact NodeStore.frontierUpsert_admitted hnew _ _ _ _

/-- Only the observation of an absent key is counted as rejected. -/
theorem Effect.budget {does : Intent} {sh sh' : Shared} {h h' : Held} (he : Effect does sh h sh' h')
    (hne : sh'.store.budgetRejected ≠ sh.store.budgetRejected) :
    ∃ o : Observation, does = .observe o ∧ sh.store.entry o.key = none ∧
      sh.store.maxEntries ≤ sh.store.entries := by
  cases he with
  | reject ho hnew hfull => exact ⟨_, ho, hnew, hfull⟩
  | aside hs hq hf => rw [hs] at hne; exact absurd rfl hne
  | close hs hq hf => rw [hs] at hne; exact absurd rfl hne
  | forfeit hwhy hs hq hf => rw [hs] at hne; exact absurd rfl hne
  | write | refresh | revive | switch | settle => simp at hne
  | _ => exact absurd rfl hne

/-- A task that has settled its node writes to no entry any more. -/
theorem settled_silent {S : Setup} {sh sh' : Shared} {t : Transport} {k : AddrKey} {p : TaskPc}
    {pc' : Pc} {a : Answer} (hp : p.working = false)
    (h : program S sh (.worker t (.task k p)) a = some (sh', pc')) :
    sh'.store.entry = sh.store.entry := by
  rcases program_cases h with ⟨p, p', heq, -⟩ | ⟨p, p', heq, -⟩ | ⟨p, p', heq, -⟩ | ⟨L, heq, -⟩ |
    ⟨t, q, p', heq, rfl, hs⟩ <;> cases heq
  rcases workerStep_cases hs with ⟨k, q, heq, -, rfl, -⟩ | ⟨k, q, next, heq, -, hstep, -⟩ |
    ⟨htask, -⟩ | ⟨htask, -⟩
  · rfl
  · cases heq
    cases p with
    | abandoning f =>
      cases hstep
      cases f with
      | write terminal reason => cases hp
      | _ => rfl
    | finishing f =>
      cases hstep
      cases f with
      | write terminal reason => cases hp
      | _ => rfl
    | _ => cases hp
  · exact absurd rfl (htask _ _)
  · exact absurd rfl (htask _ _)

/-! ## The result -/

/-- Who has which key, and how many entries there are. -/
structure SingleOwner (S : Setup) (c : Conf Shared Pc) : Prop where
  once : ∀ k, c.shared.copies k ≤ 1
  placed : ∀ t, ∀ k ∈ (c.shared.queue t).items, c.shared.store.stateOf k = some .queued ∧
    ∃ net, c.shared.store.networkOf k = some net ∧ net.transport = t
  owner : ∀ k, c.shared.store.stateOf k = some .queued →
    ((∃ t, k ∈ (c.shared.queue t).items) ∧ ∀ pc ∈ c.threads, ¬(pc.sends k ∨ pc.received k)) ∨
      (∀ t, k ∉ (c.shared.queue t).items) ∧
        ∃ (i : Nat) (pc : Pc), c.threads[i]? = some pc ∧ (pc.sends k ∨ pc.received k) ∧
          ∀ (j : Nat) (u : Pc), c.threads[j]? = some u → u.sends k ∨ u.received k → j = i
  single : ∀ (k : AddrKey) (i j : Nat) (pc u : Pc), c.threads[i]? = some pc → c.threads[j]? = some u →
    pc.processes k → u.processes k → i = j
  apart : ∀ k, ∀ pc ∈ c.threads, pc.processes k → ∀ t, k ∉ (c.shared.queue t).items
  silent : ∀ t k p, Pc.worker t (.task k p) ∈ c.threads → p.working = false → ∀ a sh' pc',
    program S c.shared (.worker t (.task k p)) a = some (sh', pc') →
      sh'.store.entry = c.shared.store.entry
  within : c.shared.store.len ≤ S.settings.maxAddresses
  size : c.shared.store.len = c.shared.store.map.size
  admits : ∀ pc ∈ c.threads, ∀ o, pc.intent S = .observe o → c.shared.store.entry o.key = none →
    ∀ a sh' pc', program S c.shared pc a = some (sh', pc') → a.panic = false →
      Admitted c.shared.store sh'.store o.key
  rejects : ∀ pc ∈ c.threads, ∀ a sh' pc', program S c.shared pc a = some (sh', pc') →
    sh'.store.budgetRejected ≠ c.shared.store.budgetRejected →
      ∃ o, pc.intent S = .observe o ∧ c.shared.store.entry o.key = none ∧
        c.shared.store.len = S.settings.maxAddresses

/-- **Single owner and bounded queues.**  In every state reached without a panic, every key has one
    owner and the entries stay within the budget. -/
theorem single_owner {S : Setup} {c : Conf Shared Pc} (hr : Reach (program S) noPanic (start S) c) :
    SingleOwner S c := by
  have hb := books hr (not_panicked hr)
  have hroom := rooms hr
  have hroute := routed_via (E := fun _ => true) (fun _ _ => rfl) (fun _ _ => rfl) hr
  refine ⟨hb.copies_le_one, ?_, fun k hk => hb.queued_owner hk, ?_, ?_,
    fun t k p _ hp a sh' pc' h => settled_silent hp h, ?_, hroom.size.symm, ?_, ?_⟩
  · intro t k hk
    obtain ⟨net, hnet, -, ht⟩ := hroute.queues t k (hroute.items t k hk)
    exact ⟨(hb.queued_unowned hk).1, net, hnet, ht⟩
  · intro k i j pc u hi hj hpc hu
    obtain ⟨st, hst⟩ := Pc.processes_owned hpc
    obtain ⟨st', hst'⟩ := Pc.processes_owned hu
    by_contra hij
    exact hb.owned_ne hij hi hj hst' _ hst rfl
  · intro k pc hpc hproc t hk
    obtain ⟨st, hst⟩ := Pc.processes_owned hproc
    exact (hb.queued_unowned hk).2 pc hpc _ hst rfl
  · show c.shared.store.entries ≤ S.settings.maxAddresses
    rw [← hroom.budget]
    exact hroom.within
  · intro pc _ o ho hnew a sh' pc' h ha
    exact observe_admitted h ha ho hnew
  · intro pc _ a sh' pc' h hne
    obtain ⟨o, ho, hnew, hfull⟩ := (step_effect h).budget hne
    refine ⟨o, ho, hnew, ?_⟩
    have hwithin := hroom.within
    show c.shared.store.entries = S.settings.maxAddresses
    rw [← hroom.budget]
    omega

/-- Two seeds for one worker. -/
def pair : Setup := ⟨.zero, soloSettings, .dns ["192.0.2.1", "192.0.2.2"], 0⟩

/-- Seeding, then the worker takes the first node and begins to process it. -/
def pairRun : List (Nat × Answer) := steps 0 11 ++ steps 4 5

instance (k : AddrKey) : (pc : Pc) → Decidable (pc.processes k)
  | .worker _ (.task key p) => inferInstanceAs (Decidable (key = k ∧ p.working = true))
  | .worker _ .top | .worker _ .receiving | .worker _ (.reserving _) | .worker _ (.limitHit _)
  | .worker _ (.discarding ..) | .worker _ .discardClose | .worker _ (.starting _)
  | .worker _ (.crashed _) | .worker _ (.crashedShutdown _) | .worker _ (.crashedFinish ..)
  | .worker _ .crashedClose | .worker _ .exited | .worker _ .died
  | .main _ | .signal _ | .checkpoint _ | .logWriter => isFalse fun h => h

/-- The first node is being processed while the second one is queued. -/
theorem single_owner_pair : ∃ c, exec (program pair) panicFree (start pair) pairRun = some c ∧
    (∃ pc ∈ c.threads, pc.processes ⟨"192.0.2.1", 8333⟩) ∧
    (c.shared.queue .ip).items = [⟨"192.0.2.2", 8333⟩] ∧ SingleOwner pair c := by
  have hrun : (exec (program pair) panicFree (start pair) pairRun).map (fun c =>
      (decide (∃ pc ∈ c.threads, pc.processes ⟨"192.0.2.1", 8333⟩), (c.shared.queue .ip).items)) =
      some (true, [⟨"192.0.2.2", 8333⟩]) := by
    decide +kernel
  obtain ⟨c, hc, heq⟩ := Option.map_eq_some_iff.mp hrun
  obtain ⟨hprocesses, hqueued⟩ := Prod.mk.inj heq
  exact ⟨c, hc, of_decide_eq_true hprocesses, hqueued, single_owner (exec_noPanic hc)⟩

end P2PCrawler
