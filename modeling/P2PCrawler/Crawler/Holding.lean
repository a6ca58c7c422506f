import P2PCrawler.Crawler.Queues

/-!
# Keys in hand, panics included

A task has the keys it works on in hand, from taking them off a queue or the frontier until it
returns or puts them into a queue.  A panic drops what the task had, or hands the node to the
worker loop; nobody else gets it.  So a key is in hand or in a queue at most once, in every run.

* `Pc.keys` — the keys a task at its position has in hand.
* `Handles` — what a step does to the queues and to the keys in hand.
* `program_handles` — every step has one of these forms.

## Results

* `held_once` — **a key is in hand or in a queue at most once**, whatever panics.
* `entry_unheld` — a step leaves the entries of others alone, but for a refresh.
-/

set_option autoImplicit false

namespace P2PCrawler

open ThreadPool

/-! ## Hands -/

def TaskPc.keys (k : AddrKey) : TaskPc → List AddrKey
  | .enqueueing _ _ _ _ a _ => [a, k]
  | _ => [k]

def WorkerPc.keys : WorkerPc → List AddrKey
  | .reserving k | .limitHit k | .discarding k _ | .starting k | .crashed k | .crashedShutdown k
  | .crashedFinish k _ => [k]
  | .task k p => p.keys k
  | _ => []

def MainPc.keys : MainPc → List AddrKey
  | .seedEnqueue _ k _ => [k]
  | _ => []

def Pc.keys : Pc → List AddrKey
  | .main p => p.keys
  | .worker _ p => p.keys
  | _ => []

/-- The key is known, and not parked as stale. -/
def NodeStore.Seen (s : NodeStore) (k : AddrKey) : Prop :=
  ∃ st, s.stateOf k = some st ∧ st ≠ .staleDiscarded

/-- What a step does to the queues and the keys in hand. -/
inductive Handles (sh : Shared) : List AddrKey → Shared → List AddrKey → Prop
  | keep {sh' : Shared} {ks ks' : List AddrKey} (hq : SameItems sh sh') (hks : ks'.Sublist ks) :
    Handles sh ks sh' ks'
  /-- a key that nobody has is queued by an observation -/
  | found {sh' : Shared} {ks : List AddrKey} (k : AddrKey) (hnew : ¬sh.store.Seen k)
    (hseen : sh'.store.Seen k) (hq : SameItems sh sh') : Handles sh ks sh' (k :: ks)
  | push {sh' : Shared} {ks : List AddrKey} (t : Transport) (k : AddrKey)
    (hq : ∀ t', (sh'.queue t').items =
      if t' = t then (sh.queue t).items ++ [k] else (sh.queue t').items) :
    Handles sh (k :: ks) sh' ks
  | pop {sh' : Shared} {ks : List AddrKey} (t : Transport) (k : AddrKey)
    (hq : ∀ t', (sh.queue t').items =
      if t' = t then k :: (sh'.queue t).items else (sh'.queue t').items) :
    Handles sh ks sh' (k :: ks)

/-! ## Every step handles -/

theorem Shared.pop_items {sh : Shared} {t : Transport} {k : AddrKey} {rest : List AddrKey}
    (h : (sh.queue t).items = k :: rest) (t' : Transport) : (sh.queue t').items =
      if t' = t then k :: ((sh.pop t rest).queue t).items else ((sh.pop t rest).queue t').items := by
  by_cases ht : t' = t
  · subst ht; simpa [Shared.pop] using h
  · simp [Shared.pop, ht]

theorem Shared.push_items (sh : Shared) (t : Transport) (k : AddrKey) (t' : Transport) :
    (Function.update sh.queue t { sh.queue t with
        items := (sh.queue t).items ++ [k], accepted := (sh.queue t).accepted ++ [k] } t').items =
      if t' = t then (sh.queue t).items ++ [k] else (sh.queue t').items := by
  by_cases ht : t' = t
  · subst ht; simp
  · simp [ht]

theorem trySend_handles {sh sh' : Shared} {t : Transport} {k : AddrKey}
    (h : sh.trySend t k = some sh') (ks : List AddrKey) : Handles sh (k :: ks) sh' ks := by
  obtain ⟨-, -, rfl⟩ := Shared.trySend_some h
  exact .push t k (sh.push_items t k)

theorem enqueueStep_handles (H : Digests) (sh : Shared) (k : AddrKey) (e : EnqueuePc)
    (ks : List AddrKey) :
    Handles sh (k :: ks) (enqueueStep H sh k e).1
      (if (enqueueStep H sh k e).2.isSome then k :: ks else ks) := by
  cases e with
  | send t =>
    cases hsend : sh.trySend t k with
    | none =>
      simp only [enqueueStep, hsend]
      exact .keep (fun _ => rfl) (.refl _)
    | some sh' =>
      simp only [enqueueStep, hsend]
      exact trySend_handles hsend ks
  | uncount => exact .keep (fun _ => rfl) (List.sublist_cons_self k ks)
  | route | count | discard => exact .keep (fun _ => rfl) (.refl _)

theorem finishStep_items (sh : Shared) (k : AddrKey) (f : FinishPc) :
    SameItems sh (finishStep sh k f).1 := by
  intro t
  cases f with
  | write terminal reason =>
    simp only [finishStep]
    split
    · rfl
    · split <;> rfl
  | _ => rfl

theorem upsert_handles (sh : Shared) (k : AddrKey) (ts : Int) (net : NetworkType) (thr now : Int)
    (ks : List AddrKey) :
    Handles sh ks { sh with store := (sh.store.frontierUpsert k ts net thr now).1 }
      (if (sh.store.frontierUpsert k ts net thr now).2 = .enqueue then k :: ks else ks) := by
  have hc := sh.store.frontierUpsert_cases k ts net thr now
  generalize (sh.store.frontierUpsert k ts net thr now).1 = s' at hc ⊢
  generalize (sh.store.frontierUpsert k ts net thr now).2 = out at hc ⊢
  cases hc with
  | refreshed he hout hrej hstate =>
    rw [if_neg hout]
    exact .keep (fun _ => rfl) (.refl _)
  | rejected he hfull => exact .keep (fun _ => rfl) (.refl _)
  | parked he hroom hstale => exact .keep (fun _ => rfl) (.refl _)
  | revived he hst hfresh =>
    refine .found k ?_ ⟨.queued, ?_, nofun⟩ fun _ => rfl
    · rintro ⟨st, hk, hne⟩
      simp only [NodeStore.stateOf, he, Option.map_some, Option.some.injEq, hst] at hk
      exact hne hk.symm
    · exact NodeStore.stateOf_withEntry_set (fun _ => rfl) (by simp [NodeStore.stateOf, he])
  | discovered he hroom hfresh =>
    refine .found k ?_ ⟨.queued, ?_, nofun⟩ fun _ => rfl
    · rintro ⟨st, hk, -⟩
      simp [NodeStore.stateOf, he] at hk
    · show NodeStore.stateOf _ k = _
      rw [NodeStore.stateOf_insertEntry, if_pos rfl]
      rfl

theorem seed_handles (H : Digests) (sh : Shared) (k : AddrKey) (now : Int) (ks : List AddrKey) :
    Handles sh ks { sh with store := (sh.store.observeSeed H k now).1 }
      (if (sh.store.observeSeed H k now).2 then k :: ks else ks) := by
  have hc := sh.store.observeSeed_cases H k now
  generalize (sh.store.observeSeed H k now).1 = s' at hc ⊢
  generalize (sh.store.observeSeed H k now).2 = new at hc ⊢
  cases hc with
  | refreshed he => exact .keep (fun _ => rfl) (.refl _)
  | rejected he hfull => exact .keep (fun _ => rfl) (.refl _)
  | discovered he hroom =>
    refine .found k ?_ ⟨.queued, ?_, nofun⟩ fun _ => rfl
    · rintro ⟨st, hk, -⟩
      simp [NodeStore.stateOf, he] at hk
    · show NodeStore.stateOf _ k = _
      rw [NodeStore.stateOf_insertEntry, if_pos rfl]
      rfl

/-- Only a push and a take change what is queued. -/
theorem Effect.sameItems {does : Intent} {sh sh' : Shared} {h h' : Held}
    (he : Effect does sh h sh' h') (hpush : ∀ t k, does ≠ .push t k) (htake : ∀ t, does ≠ .take t) :
    SameItems sh sh' := by
  intro t
  cases he with
  | aside hs hq hf => rw [hq]
  | close hs hq hf => rw [hq]; rfl
  | forfeit hwhy hs hq hf => rw [hq]
  | push ho => exact absurd ho (hpush _ _)
  | pop ho => exact absurd ho (htake _)
  | _ => rfl

/-- Away from `enqueue` a task has its node in hand. -/
theorem TaskPc.keys_of_not_enqueueing {k : AddrKey} {p : TaskPc}
    (hp : ∀ c count now rest key e, p ≠ .enqueueing c count now rest key e) : p.keys k = [k] := by
  cases p with
  | enqueueing c count now rest key e => exact absurd rfl (hp c count now rest key e)
  | _ => rfl

/-- The task is at the frontier, or about to put a key into a queue. -/
def TaskPc.routes : TaskPc → Bool
  | .upserting .. | .enqueueing .. | .resending .. => true
  | _ => false

/-- Elsewhere a task keeps its node. -/
theorem taskStep_keeps {S : Setup} {sh sh' : Shared} {t : Transport} {k : AddrKey} {a : Answer}
    {p : TaskPc} {next : Option TaskPc} (h : taskStep S sh t k a p = some (sh', next))
    (hp : p.routes = false) : Handles sh (p.keys k) sh' ((next.map (TaskPc.keys k)).getD []) := by
  have hintent : p.intent t k = .close ∨ p.intent t k = .other := by
    cases p with
    | abandoning f => exact f.intent_eq
    | finishing f => exact f.intent_eq
    | upserting | enqueueing | resending => cases hp
    | _ => exact .inr rfl
  have hitems : SameItems sh sh' := by
    have he := taskStep_effect h
    rcases hintent with hi | hi <;> (rw [hi] at he; exact he.sameItems (fun _ _ => nofun) fun _ => nofun)
  refine .keep hitems ?_
  have hkeys : p.keys k = [k] := TaskPc.keys_of_not_enqueueing fun _ _ _ _ _ _ heq => by
    rw [heq] at hp
    cases hp
  rw [hkeys]
  cases next with
  | none => exact List.nil_sublist _
  | some p' =>
    have hkeys' : p'.keys k = [k] := TaskPc.keys_of_not_enqueueing fun _ _ _ _ _ _ heq => by
      subst heq
      rcases enqueueing_cases h with ⟨addr, rfl, -⟩ | ⟨e₀, rfl, -⟩ <;> cases hp
    show (p'.keys k).Sublist [k]
    rw [hkeys']

theorem taskStep_handles {S : Setup} {sh sh' : Shared} {t : Transport} {k : AddrKey} {a : Answer}
    {p : TaskPc} {next : Option TaskPc} (h : taskStep S sh t k a p = some (sh', next)) :
    Handles sh (p.keys k) sh' ((next.map (TaskPc.keys k)).getD []) := by
  cases p with
  | upserting c count now rest =>
    cases rest with
    | nil => cases h; exact .keep (fun _ => rfl) (.refl _)
    | cons addr rest =>
      simp only [taskStep, Option.some.injEq, Prod.mk.injEq] at h
      obtain ⟨rfl, rfl⟩ := h
      have hu := upsert_handles sh ⟨addr.host, addr.port⟩ addr.timestamp addr.network
        S.settings.freshnessThreshold now [k]
      cases hout : (sh.store.frontierUpsert ⟨addr.host, addr.port⟩ addr.timestamp addr.network
        S.settings.freshnessThreshold now).2 <;> rw [hout] at hu <;> exact hu
  | enqueueing c count now rest key e =>
    simp only [taskStep, Option.some.injEq, Prod.mk.injEq] at h
    obtain ⟨rfl, rfl⟩ := h
    have hu := enqueueStep_handles S.digests sh key e [k]
    cases hnext : (enqueueStep S.digests sh key e).2 <;> rw [hnext] at hu <;> exact hu
  | resending terminal kind =>
    simp only [taskStep] at h
    split at h
    · rename_i hsend
      cases h
      exact trySend_handles hsend []
    · cases h
      exact .keep (fun _ => rfl) (.refl _)
  | _ => exact taskStep_keeps h rfl

theorem loopStep_handles {S : Setup} {sh sh' : Shared} {t : Transport} {p p' : WorkerPc}
    (h : loopStep S sh t p = some (sh', p')) : Handles sh p.keys sh' p'.keys := by
  cases loopStep_cases h with
  | take hitems => exact .pop t _ (Shared.pop_items hitems)
  | @discard k f | @crashFinish k f => exact .keep (finishStep_items sh k f) (.refl _)
  | @discarded k f | @crashFinished k f =>
    exact .keep (finishStep_items sh k f) (List.nil_sublist _)
  | _ => exact .keep (fun _ => rfl) (.refl _)

theorem mainStep_handles {S : Setup} {sh sh' : Shared} {a : Answer} {p p' : MainPc}
    (h : mainStep S sh a p = some (sh', p')) : Handles sh p.keys sh' p'.keys := by
  cases p with
  | seeding rest =>
    cases rest with
    | nil => cases h; exact .keep (fun _ => rfl) (.refl _)
    | cons k rest =>
      simp only [mainStep, Option.some.injEq, Prod.mk.injEq] at h
      obtain ⟨rfl, rfl⟩ := h
      have hu := seed_handles S.digests sh k S.seedTime []
      cases hnew : (sh.store.observeSeed S.digests k S.seedTime).2 <;> rw [hnew] at hu <;> exact hu
  | seedEnqueue rest k e =>
    simp only [mainStep, Option.some.injEq, Prod.mk.injEq] at h
    obtain ⟨rfl, rfl⟩ := h
    have hu := enqueueStep_handles S.digests sh k e []
    cases hnext : (enqueueStep S.digests sh k e).2 <;> rw [hnext] at hu <;> exact hu
  | startCheck =>
    cases h
    by_cases hz : sh.store.outstanding = 0 <;> simp only [hz] <;> exact .keep (fun _ => rfl) (.refl _)
  | joining joined =>
    simp only [mainStep] at h
    split at h
    · cases h; exact .keep (fun _ => rfl) (.refl _)
    · split at h <;> split at h <;> cases h <;> exact .keep (fun _ => rfl) (.refl _)
  | awaitSignals | awaitCheckpoint | stopping | writing =>
    simp only [mainStep] at h
    split at h <;> cases h <;> exact .keep (fun _ => rfl) (.refl _)
  | checkWorkers =>
    cases h
    by_cases hf : sh.workerFailed <;> simp only [hf] <;> exact .keep (fun _ => rfl) (.refl _)
  | finalFlush r =>
    cases h
    by_cases hl : S.logging <;> simp only [hl] <;> exact .keep (fun _ => rfl) (.refl _)
  | flushing r call =>
    obtain ⟨hsh, ⟨_, rfl⟩ | ⟨res, rfl⟩⟩ := logStep_effect h
    · rw [hsh]; exact .keep (fun _ => rfl) (.refl _)
    · rw [hsh]; cases res <;> exact .keep (fun _ => rfl) (.refl _)
  | finished => cases h
  | _ => cases h; exact .keep (fun _ => rfl) (.refl _)

/-- **Every step handles keys** in one of the four ways. -/
theorem program_handles {S : Setup} {sh sh' : Shared} {pc pc' : Pc} {a : Answer}
    (h : program S sh pc a = some (sh', pc')) : Handles sh pc.keys sh' pc'.keys := by
  rcases program_cases h with ⟨p, p', rfl, rfl, hs⟩ | ⟨p, p', rfl, rfl, hs⟩ | ⟨p, p', rfl, rfl, hs⟩ |
    ⟨L, rfl, rfl, hs, rfl⟩ | ⟨t, p, p', rfl, rfl, hs⟩
  · exact mainStep_handles hs
  · refine .keep ((step_effect h).sameItems ?_ ?_) (.refl _) <;> intros <;> cases p <;> exact nofun
  · exact .keep ((step_effect h).sameItems (fun _ _ => nofun) fun _ => nofun) (.refl _)
  · exact .keep (fun _ => rfl) (.refl _)
  · rcases workerStep_cases hs with ⟨k, q, rfl, -, rfl, rfl⟩ | ⟨k, q, next, rfl, -, hstep, rfl⟩ |
      ⟨-, -, -, -, rfl, rfl⟩ | ⟨-, -, -, hstep⟩
    · refine .keep (fun _ => rfl) ?_
      show [k].Sublist (q.keys k)
      cases q with
      | enqueueing c count now rest key e => exact List.sublist_cons_self key [k]
      | _ => exact .refl _
    · have hu := taskStep_handles hstep
      cases next <;> exact hu
    · exact .keep (fun _ => rfl) (List.nil_sublist _)
    · exact loopStep_handles hstep

/-! ## At most once -/

/-- The copies of a key, in queues and in hands. -/
def held (c : Conf Shared Pc) (k : AddrKey) : ℤ :=
  total (fun sh => sh.copies k) (fun pc => pc.keys.count k) c

/-- A key is in hand or in a queue at most once, and then its entry is known and not stale. -/
structure HeldOnce (c : Conf Shared Pc) : Prop where
  once : ∀ k, held c k ≤ 1
  seen : ∀ k, 0 < held c k → c.shared.store.Seen k

/-- What handling adds up to, for one key. -/
theorem Handles.sum {sh sh' : Shared} {ks ks' : List AddrKey} (h : Handles sh ks sh' ks')
    (k : AddrKey) :
    sh'.copies k + ks'.count k ≤ sh.copies k + ks.count k ∨
      ¬sh.store.Seen k ∧ sh'.store.Seen k ∧
        sh'.copies k + ks'.count k = sh.copies k + ks.count k + 1 := by
  have hcons : ∀ (k₀ : AddrKey) (l : List AddrKey),
      (((k₀ :: l).count k : ℕ) : ℤ) = l.count k + if k = k₀ then 1 else 0 := by
    intro k₀ l
    by_cases hk : k = k₀
    · subst hk; simp
    · rw [List.count_cons_of_ne (Ne.symm hk), if_neg hk]; simp
  cases h with
  | keep hq hks =>
    have hle := hks.count_le k
    have hcopies := hq.copies k
    exact .inl (by omega)
  | found k₀ hnew hseen hq =>
    rw [hq.copies, hcons]
    by_cases hk : k = k₀
    · subst hk
      exact .inr ⟨hnew, hseen, by rw [if_pos rfl]; omega⟩
    · rw [if_neg hk]
      exact .inl (by omega)
  | push t k₀ hq =>
    rw [copies_push hq, hcons]
    exact .inl (by omega)
  | pop t k₀ hq =>
    rw [copies_pop hq, hcons]
    exact .inl (by omega)

theorem start_heldOnce (S : Setup) : HeldOnce (start S) := by
  have hzero : ∀ k, held (start S) k = 0 := by
    intro k
    have hload : load (fun pc : Pc => (pc.keys.count k : ℤ)) (start S).threads = 0 := by
      refine load_eq_zero fun pc hpc => ?_
      rcases mem_start hpc with rfl | rfl | rfl | rfl | ⟨t, rfl, -⟩ <;> rfl
    simp only [held, total, hload]
    rfl
  refine ⟨fun k => ?_, fun k hk => ?_⟩
  · rw [hzero]
    omega
  · rw [hzero] at hk
    omega

theorem step_heldOnce {S : Setup} {c c' : Conf Shared Pc} {a : Nat × Answer} (hh : HeldOnce c)
    (hst : step (program S) c a = some c') : HeldOnce c' := by
  obtain ⟨pc, sh', pc', hpc, hp, rfl⟩ := step_cases hst
  have hsum : ∀ k, held ⟨sh', c.threads.set a.1 pc'⟩ k ≤ held c k ∨
      ¬c.shared.store.Seen k ∧ sh'.store.Seen k ∧
        held ⟨sh', c.threads.set a.1 pc'⟩ k = held c k + 1 := by
    intro k
    have hload := load_set (fun pc : Pc => (pc.keys.count k : ℤ)) pc' hpc
    simp only [held, total]
    rcases (program_handles hp).sum k with hle | ⟨hnew, hseen, heq⟩
    · exact .inl (by omega)
    · exact .inr ⟨hnew, hseen, by omega⟩
  have hnone : ∀ k, ¬c.shared.store.Seen k → held c k ≤ 0 := fun k hnew =>
    not_lt.mp fun hpos => hnew (hh.seen k hpos)
  refine ⟨fun k => ?_, fun k hk => ?_⟩
  · have hone := hh.once k
    rcases hsum k with hle | ⟨hnew, -, heq⟩
    · omega
    · have := hnone k hnew
      omega
  · rcases hsum k with hle | ⟨-, hseen, -⟩
    · obtain ⟨st, hstate, hne⟩ := hh.seen k (by omega)
      exact (step_effect hp).not_stale hstate hne
    · exact hseen

/-- **A key is in hand or in a queue at most once**, in every run. -/
theorem held_once {S : Setup} {ok : Conf Shared Pc → Nat × Answer → Prop} {c : Conf Shared Pc}
    (hr : Reach (program S) ok (start S) c) : HeldOnce c :=
  hr.invariant (start_heldOnce S) fun _ _ _ _ hh _ hst => step_heldOnce hh hst

/-! ## Reading it off -/

/-- A stored key in hand has an entry. -/
theorem entry_of_seen {s : NodeStore} {k : AddrKey} (h : s.Seen k) : ∃ entry, s.entry k = some entry := by
  obtain ⟨st, hst, -⟩ := h
  obtain ⟨entry, hentry, -⟩ := Option.map_eq_some_iff.mp hst
  exact ⟨entry, hentry⟩

theorem task_key_mem {t : Transport} {k : AddrKey} {p : TaskPc} :
    k ∈ (Pc.worker t (.task k p)).keys := by
  cases p with
  | enqueueing => exact List.mem_cons_of_mem _ (List.mem_singleton.mpr rfl)
  | _ => exact List.mem_singleton.mpr rfl

section HeldOnce
variable {c : Conf Shared Pc} {k : AddrKey} {pc u : Pc} {i j : Nat}

theorem count_keys_nonneg (k : AddrKey) (pc : Pc) : (0 : ℤ) ≤ pc.keys.count k := by omega

theorem HeldOnce.seen_of_mem (hh : HeldOnce c) (hpc : pc ∈ c.threads) (hk : k ∈ pc.keys) :
    c.shared.store.Seen k := by
  refine hh.seen k ?_
  have hle := le_load (count_keys_nonneg k) hpc
  have hpos : 0 < pc.keys.count k := List.count_pos_iff.mpr hk
  have hcopies := c.shared.copies_nonneg k
  simp only [held, total]
  omega

/-- Two tasks do not have one key. -/
theorem HeldOnce.apart (hh : HeldOnce c) (hpc : c.threads[i]? = some pc)
    (hu : c.threads[j]? = some u) (hk : k ∈ pc.keys) (hk' : k ∈ u.keys) : i = j := by
  by_contra hij
  have hle := add_le_load (count_keys_nonneg k) hij hpc hu
  have hone := hh.once k
  have h₁ : 0 < pc.keys.count k := List.count_pos_iff.mpr hk
  have h₂ : 0 < u.keys.count k := List.count_pos_iff.mpr hk'
  have hcopies := c.shared.copies_nonneg k
  simp only [held, total] at hone
  omega

/-- A key in hand is in no queue. -/
theorem HeldOnce.not_queued (hh : HeldOnce c) (hpc : pc ∈ c.threads) (hk : k ∈ pc.keys) :
    c.shared.copies k = 0 := by
  have hle := le_load (count_keys_nonneg k) hpc
  have hone := hh.once k
  have hpos : 0 < pc.keys.count k := List.count_pos_iff.mpr hk
  have hcopies := c.shared.copies_nonneg k
  simp only [held, total] at hone
  omega

/-- The keys a task answers for are in its hand. -/
theorem Pc.owned_sublist (pc : Pc) : (pc.held.owned.map Prod.fst).Sublist pc.keys := by
  have hfin : ∀ (key : AddrKey) (st : NodeState) (f : FinishPc),
      ((f.held key st).owned.map Prod.fst).Sublist [key] := by
    intro key st f
    cases f with
    | write terminal reason => exact .refl _
    | _ => exact List.nil_sublist _
  have henq : ∀ (key : AddrKey) (e : EnqueuePc), ((e.held key).owned.map Prod.fst).Sublist [key] := by
    intro key e
    cases e with
    | uncount => exact List.nil_sublist _
    | _ => exact .refl _
  cases pc with
  | main p =>
    cases p with
    | seedEnqueue rest key e => exact henq key e
    | _ => exact List.nil_sublist _
  | worker t p =>
    cases p with
    | task key p =>
      cases p with
      | enqueueing c count now rest a e =>
        show (((e.held a).owned ++ [(key, NodeState.processing)]).map Prod.fst).Sublist ([a] ++ [key])
        rw [List.map_append]
        exact (henq a e).append (.refl _)
      | abandoning f => exact hfin key .queued f
      | finishing f => exact hfin key .processing f
      | _ => exact .refl _
    | discarding key f => exact hfin key .queued f
    | crashedFinish key f => exact hfin key .processing f
    | reserving | limitHit | starting | crashed | crashedShutdown => exact .refl _
    | _ => exact List.nil_sublist _
  | _ => exact List.nil_sublist _

theorem Pc.owned_keys {x : AddrKey × NodeState} (hx : x ∈ pc.held.owned) : x.1 ∈ pc.keys :=
  pc.owned_sublist.subset (List.mem_map_of_mem hx)

/-- A task has no key in hand twice. -/
theorem HeldOnce.nodup (hh : HeldOnce c) (hpc : pc ∈ c.threads) : pc.keys.Nodup := by
  rw [List.nodup_iff_count_le_one]
  intro k
  have hle := le_load (count_keys_nonneg k) hpc
  have hone := hh.once k
  have hcopies := c.shared.copies_nonneg k
  simp only [held, total] at hone
  omega

/-- **What others leave alone**: a step of a task that does not have a known key in hand at most
    refreshes its entry. -/
theorem entry_unheld {S : Setup} {sh sh' : Shared} {pc' : Pc} {a : Answer}
    (h : program S sh pc a = some (sh', pc')) (hseen : sh.store.Seen k) (hk : k ∉ pc.keys) :
    sh'.store.entry k = sh.store.entry k ∨
      ∃ ts, sh'.store.entry k = (sh.store.entry k).map (NodeStore.refresh ts) := by
  obtain ⟨st, hstate, hne⟩ := hseen
  refine (step_effect h).entry_unowned hstate hne ?_
  rintro x hx rfl
  exact hk (Pc.owned_keys hx)

end HeldOnce

end P2PCrawler
