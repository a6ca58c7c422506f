import P2PCrawler.Crawler.Cap

/-!
# Attempts left

A failed attempt is followed by another only while the settings allow one, so a key that is queued,
or that a thread is about to try, has an attempt left.

* `Spare` — whoever has a key whose next attempt is due has an attempt left.
* `spare` — **no key is tried more often than the settings say**, in every run.
* `attempts_le` — so the attempts of a whole crawl are bounded by the address budget.
-/

set_option autoImplicit false

namespace P2PCrawler

open ThreadPool

/-! ## Attempts left -/

/-- The attempts at a key so far. -/
def NodeStore.attemptsAt (s : NodeStore) (k : AddrKey) : Nat :=
  ((s.statsOf k).map (·.handshakeAttempts)).getD 0

/-- The keys in hand whose next attempt is still to be counted. -/
def TaskPc.ahead (k : AddrKey) : TaskPc → List AddrKey
  | .begin | .count _ | .requeueing _ _ | .resending _ _ => [k]
  | .enqueueing _ _ _ _ a _ => [a]
  | _ => []

def Pc.ahead : Pc → List AddrKey
  | .main (.seedEnqueue _ k _) => [k]
  | .worker _ (.reserving k) | .worker _ (.starting k) => [k]
  | .worker _ (.task k p) => p.ahead k
  | _ => []

/-- The number of the attempt a task is at. -/
def TaskPc.number : TaskPc → Option Nat
  | .connecting _ n | .connectFailed n _ | .everConnected n _ | .connected n _
  | .connectedAttempt n _ | .sendVersion n | .firstVersion n _ | .versionSent n _
  | .handshaking n _ | .handshakeTimeout n | .handshakeFailed n _ => some n
  | _ => none

def Pc.number (k : AddrKey) : Pc → Option Nat
  | .worker _ (.task key p) => if key = k then p.number else none
  | _ => none

/-- A key with another attempt ahead has one left, and a task knows the number of its attempt. -/
structure Within (S : Setup) (sh : Shared) (pc : Pc) : Prop where
  ahead : ∀ k ∈ pc.ahead, sh.store.attemptsAt k < S.settings.handshakeAttempts
  number : ∀ k n, pc.number k = some n → sh.store.attemptsAt k = n

/-- Nobody tries a key more often than the settings say. -/
structure Spare (S : Setup) (c : Conf Shared Pc) : Prop where
  limit : ∀ k, c.shared.store.attemptsAt k ≤ S.settings.handshakeAttempts
  queued : ∀ t, ∀ k ∈ (c.shared.queue t).items,
    c.shared.store.attemptsAt k < S.settings.handshakeAttempts
  unseen : ∀ k, ¬c.shared.store.Seen k → c.shared.store.attemptsAt k = 0
  threads : Holds (Within S) c

section Attempts
variable {S : Setup} {sh sh' : Shared} {pc pc' : Pc} {a : Answer}

theorem Pc.ahead_keys (pc : Pc) : ∀ k ∈ pc.ahead, k ∈ pc.keys := by
  intro k hk
  cases pc with
  | main p => cases p <;> exact hk
  | worker t p =>
    cases p with
    | task key p =>
      cases p <;> first
        | exact hk
        | (cases hk; done)
        | exact List.mem_cons.mpr (.inl (List.mem_singleton.mp hk))
    | _ => first | exact hk | cases hk
  | _ => cases hk

theorem Pc.number_keys {pc : Pc} {k : AddrKey} {n : Nat} (h : pc.number k = some n) : k ∈ pc.keys := by
  cases pc with
  | worker t p =>
    cases p with
    | task key p =>
      simp only [number] at h
      split at h
      · rename_i heq
        subst heq
        cases p <;> first | exact List.mem_singleton.mpr rfl | cases h
      · cases h
    | _ => cases h
  | _ => cases h

theorem Pc.counting_keys {pc : Pc} {k : AddrKey} (h : pc.counting k = true) :
    k ∈ pc.ahead ∧ k ∈ pc.keys := by
  cases pc with
  | worker t p =>
    cases p with
    | task key p =>
      cases p with
      | count net =>
        have heq : key = k := of_decide_eq_true h
        subst heq
        exact ⟨List.mem_singleton.mpr rfl, List.mem_singleton.mpr rfl⟩
      | _ => cases h
    | _ => cases h
  | _ => cases h

theorem NodeStore.Seen.statsOf {s : NodeStore} {k : AddrKey} (h : s.Seen k) : s.statsOf k ≠ none := by
  obtain ⟨st, hst, -⟩ := h
  obtain ⟨e, he, -⟩ := stateOf_eq_some hst
  simp [NodeStore.statsOf, he]

/-- What a step does to the attempts at a key. -/
theorem attemptsAt_step (h : program S sh pc a = some (sh', pc')) (k : AddrKey)
    (hseen : ∀ k ∈ pc.keys, sh.store.Seen k) :
    sh'.store.attemptsAt k = sh.store.attemptsAt k + if !a.panic && pc.counting k then 1 else 0 := by
  have hsum := summand_step h k fun hc => (hseen k (Pc.counting_keys hc).2).statsOf
  rw [NodeStore.summand_attempts, NodeStore.summand_attempts] at hsum
  exact hsum

/-- Where the keys come from that a step leaves ahead of an attempt. -/
inductive Comes (S : Setup) (sh : Shared) (pc : Pc) (k : AddrKey) : Prop
  | kept (hk : k ∈ pc.ahead)
  | popped (t : Transport) (hk : k ∈ (sh.queue t).items)
  | found (hk : ¬sh.store.Seen k)
  /-- a failed attempt that is not the last one -/
  | retried (n : Nat) (hn : pc.number k = some n) (hlt : n < S.settings.handshakeAttempts)

theorem observeSeed_unseen {H : Digests} {s : NodeStore} {k : AddrKey} {now : Int}
    (h : (s.observeSeed H k now).2 = true) : ¬s.Seen k := by
  rintro ⟨st, hst, -⟩
  obtain ⟨e, he, -⟩ := NodeStore.stateOf_eq_some hst
  have hs := NodeStore.observeSeed_cases H s k now
  rw [h] at hs
  generalize (s.observeSeed H k now).1 = s' at hs
  cases hs with
  | discovered hnone => rw [he] at hnone; cases hnone

theorem frontierUpsert_unseen {s : NodeStore} {k : AddrKey} {ts : Int} {net : NetworkType}
    {thr now : Int} (h : (s.frontierUpsert k ts net thr now).2 = .enqueue) : ¬s.Seen k := by
  rintro ⟨st, hst, hne⟩
  obtain ⟨e, he, rfl⟩ := NodeStore.stateOf_eq_some hst
  have hs := NodeStore.frontierUpsert_cases s k ts net thr now
  rw [h] at hs
  generalize (s.frontierUpsert k ts net thr now).1 = s' at hs
  cases hs with
  | refreshed _ hout => exact hout rfl
  | revived he' hstale => rw [he] at he'; cases he'; exact hne hstale
  | discovered hnone => rw [he] at hnone; cases hnone

theorem taskStep_ahead {t : Transport} {k key : AddrKey} {p p' : TaskPc}
    (h : taskStep S sh t k a p = some (sh', some p')) (hk : key ∈ p'.ahead k) :
    Comes S sh (.worker t (.task k p)) key := by
  -- a retry is made while an attempt is left
  have hretry : ∀ {retry : Bool} {terminal : Terminal} {kind : FailKind} {n : Nat},
      p.number = some n → (retry = true → n < S.settings.handshakeAttempts) →
      key ∈ (retryOrFinish retry terminal kind).ahead k → Comes S sh (.worker t (.task k p)) key := by
    intro retry terminal kind n hn hlt hk
    cases retry with
    | true =>
      rw [List.mem_singleton.mp (show key ∈ [k] from hk)]
      exact .retried n (by simp [Pc.number, hn]) (hlt rfl)
    | false => cases hk
  cases p with
  | begin | requeueing => cases h; exact .kept hk
  | everConnected n kind | handshakeFailed n kind =>
    simp only [taskStep, Option.some.injEq, Prod.mk.injEq] at h
    obtain ⟨-, rfl⟩ := h
    exact hretry rfl of_decide_eq_true hk
  | handshakeTimeout n =>
    simp only [taskStep, Option.some.injEq, Prod.mk.injEq] at h
    obtain ⟨-, rfl⟩ := h
    exact hretry rfl (fun hr => of_decide_eq_true (Bool.and_eq_true .. ▸ hr).2) hk
  | upserting c count now rest =>
    cases rest with
    | nil => cases h; cases hk
    | cons addr rest =>
      simp only [taskStep, Option.some.injEq, Prod.mk.injEq] at h
      obtain ⟨-, rfl⟩ := h
      cases hout : (sh.store.frontierUpsert ⟨addr.host, addr.port⟩ addr.timestamp addr.network
        S.settings.freshnessThreshold now).2 <;> rw [hout] at hk
      case enqueue =>
        rw [List.mem_singleton.mp (show key ∈ [(⟨addr.host, addr.port⟩ : AddrKey)] from hk)]
        exact .found (frontierUpsert_unseen hout)
      all_goals cases hk
  | enqueueing c count now rest addr e =>
    simp only [taskStep, Option.some.injEq, Prod.mk.injEq] at h
    obtain ⟨-, rfl⟩ := h
    cases hnext : (enqueueStep S.digests sh addr e).2 <;> rw [hnext] at hk
    · cases hk
    · exact .kept hk
  | malformedLog c call | blockLog c parsed now call | outcomeLog c call =>
    obtain ⟨-, ⟨_, heq⟩ | ⟨res, heq⟩⟩ := logStep_effect h
    · cases heq; cases hk
    · cases res <;> cases heq <;> cases hk
  | abandoning f | finishing f =>
    simp only [taskStep, Option.some.injEq, Prod.mk.injEq, Option.map_eq_some_iff] at h
    obtain ⟨-, f', -, rfl⟩ := h
    cases hk
  | _ =>
    simp only [taskStep] at h
    first
    | (cases h; cases hk)
    | (split at h <;> cases h <;> cases hk)

theorem loopStep_ahead {t : Transport} {key : AddrKey} {p p' : WorkerPc}
    (h : loopStep S sh t p = some (sh', p')) (hk : key ∈ (Pc.worker t p').ahead) :
    Comes S sh (.worker t p) key := by
  cases loopStep_cases h with
  | @take k rest hitems =>
    rw [List.mem_singleton.mp (show key ∈ [k] from hk)]
    exact .popped t (by rw [hitems]; exact List.mem_cons_self ..)
  | reserve | start => exact .kept hk
  | _ => cases hk

theorem mainStep_ahead {key : AddrKey} {p p' : MainPc} (h : mainStep S sh a p = some (sh', p'))
    (hk : key ∈ (Pc.main p').ahead) : Comes S sh (.main p) key := by
  cases p with
  | seeding rest =>
    cases rest with
    | nil => cases h; cases hk
    | cons k rest =>
      simp only [mainStep, Option.some.injEq, Prod.mk.injEq] at h
      obtain ⟨-, rfl⟩ := h
      split at hk
      · rename_i hnew
        rw [List.mem_singleton.mp (show key ∈ [k] from hk)]
        exact .found (observeSeed_unseen hnew)
      · cases hk
  | seedEnqueue rest k e =>
    simp only [mainStep, Option.some.injEq, Prod.mk.injEq] at h
    obtain ⟨-, rfl⟩ := h
    split at hk
    · exact .kept hk
    · cases hk
  | joining joined =>
    simp only [mainStep] at h
    split at h
    · cases h; cases hk
    · split at h <;> split at h <;> cases h <;> cases hk
  | awaitSignals | awaitCheckpoint | stopping | writing =>
    simp only [mainStep] at h
    split at h <;> cases h <;> cases hk
  | flushing r call =>
    obtain ⟨-, ⟨_, rfl⟩ | ⟨res, rfl⟩⟩ := logStep_effect h
    · cases hk
    · cases res <;> cases hk
  | startCheck | checkWorkers | finalFlush =>
    simp only [mainStep, Option.some.injEq, Prod.mk.injEq] at h
    obtain ⟨-, rfl⟩ := h
    split at hk <;> cases hk
  | finished => cases h
  | _ => cases h; cases hk

theorem program_ahead (h : program S sh pc a = some (sh', pc')) {k : AddrKey} (hk : k ∈ pc'.ahead) :
    Comes S sh pc k := by
  rcases program_cases h with ⟨p, p', rfl, rfl, hs⟩ | ⟨p, p', rfl, rfl, hs⟩ |
    ⟨p, p', rfl, rfl, hs⟩ | ⟨L, rfl, rfl, -, rfl⟩ | ⟨t, p, p', rfl, rfl, hs⟩
  · exact mainStep_ahead hs hk
  · cases hk
  · cases hk
  · cases hk
  · rcases workerStep_cases hs with ⟨key, q, rfl, -, -, rfl⟩ | ⟨key, q, next, rfl, -, hstep, rfl⟩ |
      ⟨-, -, -, -, -, rfl⟩ | ⟨-, -, -, hstep⟩
    · cases hk
    · cases next with
      | none => cases hk
      | some q' => exact taskStep_ahead hstep hk
    · cases hk
    · exact loopStep_ahead hstep hk

/-- The number of an attempt stays, and was counted when the attempt began. -/
theorem taskStep_number {t : Transport} {k : AddrKey} {p p' : TaskPc} {n : Nat}
    (h : taskStep S sh t k a p = some (sh', some p')) (hn : p'.number = some n) :
    p.number = some n ∨ (∃ net, p = .count net) ∧
      n = ((sh.store.entry k).map fun e => e.stats.handshakeAttempts + 1).getD 1 := by
  have hretry : ∀ {retry : Bool} {terminal : Terminal} {kind : FailKind},
      (retryOrFinish retry terminal kind).number ≠ some n := by
    intro retry terminal kind
    cases retry <;> exact fun h => by cases h
  cases p with
  | count net => cases h; cases hn; exact .inr ⟨⟨net, rfl⟩, rfl⟩
  | everConnected | handshakeTimeout | handshakeFailed =>
    simp only [taskStep, Option.some.injEq, Prod.mk.injEq] at h
    obtain ⟨-, rfl⟩ := h
    exact absurd hn hretry
  | connected | connectedAttempt | firstVersion | versionSent | connectFailed => cases h; exact .inl hn
  | connecting | sendVersion | handshaking =>
    simp only [taskStep] at h
    split at h <;> cases h <;> first | exact .inl hn | cases hn
  | upserting c count now rest =>
    cases rest with
    | nil => cases h; cases hn
    | cons addr rest =>
      simp only [taskStep, Option.some.injEq, Prod.mk.injEq] at h
      obtain ⟨-, rfl⟩ := h
      unfold upsertNext at hn
      split at hn <;> cases hn
  | enqueueing c count now rest addr e =>
    simp only [taskStep, Option.some.injEq, Prod.mk.injEq] at h
    obtain ⟨-, rfl⟩ := h
    split at hn <;> cases hn
  | malformedLog c call | blockLog c parsed now call | outcomeLog c call =>
    obtain ⟨-, ⟨_, heq⟩ | ⟨res, heq⟩⟩ := logStep_effect h
    · cases heq; cases hn
    · cases res <;> cases heq <;> cases hn
  | abandoning f | finishing f =>
    simp only [taskStep, Option.some.injEq, Prod.mk.injEq, Option.map_eq_some_iff] at h
    obtain ⟨-, f', -, rfl⟩ := h
    cases hn
  | _ =>
    simp only [taskStep] at h
    first
    | (cases h; cases hn)
    | (split at h <;> cases h <;> cases hn)

theorem program_number (h : program S sh pc a = some (sh', pc')) {k : AddrKey} {n : Nat}
    (hn : pc'.number k = some n) (hseen : ∀ k ∈ pc.keys, sh.store.Seen k) :
    (pc.number k = some n ∧ pc.counting k = false) ∨
      (a.panic = false ∧ pc.counting k = true) ∧ n = sh.store.attemptsAt k + 1 := by
  rcases program_cases h with ⟨p, p', rfl, rfl, hs⟩ | ⟨p, p', rfl, rfl, hs⟩ |
    ⟨p, p', rfl, rfl, hs⟩ | ⟨L, rfl, rfl, -, rfl⟩ | ⟨t, p, p', rfl, rfl, hs⟩
  · cases hn
  · cases hn
  · cases hn
  · cases hn
  · rcases workerStep_cases hs with ⟨key, q, rfl, -, -, rfl⟩ | ⟨key, q, next, rfl, hpanic, hstep, rfl⟩ |
      ⟨-, -, -, -, -, rfl⟩ | ⟨-, -, -, hstep⟩
    · cases hn
    · cases next with
      | none => cases hn
      | some q' =>
        have hkey : key = k ∧ q'.number = some n := by
          simp only [Option.map_some, Option.getD_some, Pc.number] at hn
          split at hn
          · rename_i heq; exact ⟨heq, hn⟩
          · cases hn
        obtain ⟨rfl, hn'⟩ := hkey
        rcases taskStep_number hstep hn' with hold | ⟨⟨net, rfl⟩, hcount⟩
        · refine .inl ⟨by simp [Pc.number, hold], ?_⟩
          cases q <;> first | rfl | cases hold
        · refine .inr ⟨⟨hpanic, by simp [Pc.counting]⟩, ?_⟩
          obtain ⟨st, hst, -⟩ := hseen key (List.mem_singleton.mpr rfl)
          obtain ⟨e, he, -⟩ := NodeStore.stateOf_eq_some hst
          simp only [he, Option.map_some, Option.getD_some] at hcount
          simp [hcount, NodeStore.attemptsAt, NodeStore.statsOf, he]
    · cases hn
    · cases loopStep_cases hstep with
      | start => simp [Pc.number, TaskPc.number] at hn
      | _ => cases hn

/-- Who pushes a key has it ahead of an attempt. -/
theorem pushed_ahead {t : Transport} {k : AddrKey} (h : pc.intent S = .push t k) : k ∈ pc.ahead := by
  have henq : ∀ {key : AddrKey} {e : EnqueuePc}, e.intent key = .push t k → k = key := by
    intro key e he
    cases e <;> cases he
    rfl
  have hfin : ∀ f : FinishPc, f.intent ≠ .push t k := by
    intro f
    rcases f.intent_eq with heq | heq <;> rw [heq] <;> exact fun h => by cases h
  cases pc with
  | main p =>
    cases p with
    | seeding rest => cases rest <;> cases h
    | seedEnqueue rest key e => exact List.mem_singleton.mpr (henq h)
    | _ => cases h
  | worker t' p =>
    cases p with
    | task key p =>
      cases p with
      | enqueueing c count now rest addr e => exact List.mem_singleton.mpr (henq h)
      | resending terminal kind => cases h; exact List.mem_singleton.mpr rfl
      | upserting c count now rest => cases rest <;> cases h
      | abandoning f | finishing f => exact absurd h (hfin f)
      | _ => cases h
    | discarding key f | crashedFinish key f => exact absurd h (hfin f)
    | _ => cases h
  | signal p => cases p <;> cases h
  | _ => cases h

/-- Once an attempt is counted, or the task has panicked, no attempt is ahead. -/
theorem counting_step {k : AddrKey} (h : program S sh pc a = some (sh', pc'))
    (hk : pc.counting k = true) : pc'.ahead = [] := by
  cases pc with
  | worker t p =>
    cases p with
    | task key q =>
      cases q with
      | count net =>
        simp only [program, workerStep, taskStep] at h
        split at h
        · cases h
        · cases hpanic : a.panic <;> simp [hpanic] at h <;> rw [← h.2] <;> rfl
      | _ => cases hk
    | _ => cases hk
  | _ => cases hk

theorem start_spare (S : Setup) : Spare S (start S) where
  limit k := Nat.zero_le _
  queued t k hk := by cases hk
  unseen k _ := rfl
  threads := by
    intro i pc hpc
    rcases mem_start (List.mem_of_getElem? hpc) with rfl | rfl | rfl | rfl | ⟨t, rfl, -⟩ <;>
      exact ⟨fun _ hk => by (cases hk), fun _ _ hn => by (cases hn)⟩

/-- **Nobody tries a key more often than the settings say**, in every run. -/
theorem spare {ok : Conf Shared Pc → Nat × Answer → Prop} {c : Conf Shared Pc}
    (hr : Reach (program S) ok (start S) c) : Spare S c := by
  refine hr.invariant (I := Spare S) (start_spare S) ?_
  intro c a c' hr ih _ hst
  have hh := held_once hr
  obtain ⟨pc, sh', pc', hpc, hp, heq⟩ := step_cases hst
  have hmem := List.mem_of_getElem? hpc
  have hseen : ∀ k ∈ pc.keys, c.shared.store.Seen k := fun k hk => hh.seen_of_mem hmem hk
  have hwithin : Within S c.shared pc := ih.threads _ _ hpc
  -- only a key of the moving thread is counted, and one that has an attempt left
  have hsame : ∀ k, pc.counting k = false → sh'.store.attemptsAt k = c.shared.store.attemptsAt k := by
    intro k hk
    rw [attemptsAt_step hp k hseen, hk]
    simp
  have hle : ∀ k, pc.counting k = true →
      sh'.store.attemptsAt k ≤ c.shared.store.attemptsAt k + 1 := by
    intro k hk
    rw [attemptsAt_step hp k hseen]
    split <;> omega
  have hstay : ∀ k, c.shared.store.Seen k → sh'.store.Seen k :=
    fun k ⟨st, hst, hne⟩ => (step_effect hp).not_stale hst hne
  -- a key that is ahead of an attempt after the step has an attempt left
  have hcomes : ∀ k, Comes S c.shared pc k → pc.counting k = false →
      sh'.store.attemptsAt k < S.settings.handshakeAttempts := by
    intro k hk hno
    rw [hsame k hno]
    cases hk with
    | kept hk => exact hwithin.ahead k hk
    | popped t hk => exact ih.queued t k hk
    | found hk => rw [ih.unseen k hk]; exact S.settings.handshakeAttempts_pos
    | retried n hn hlt => rw [hwithin.number k n hn]; exact hlt
  have hmoved : Within S sh' pc' := by
    refine ⟨fun k hk => hcomes k (program_ahead hp hk) ?_, fun k n hn => ?_⟩
    · by_contra hcount
      rw [counting_step hp (by simpa using hcount)] at hk
      cases hk
    · rcases program_number hp hn hseen with ⟨hold, hno⟩ | ⟨⟨hpanic, hcount⟩, rfl⟩
      · rw [hsame k hno]; exact hwithin.number k n hold
      · rw [attemptsAt_step hp k hseen, hpanic, hcount]; rfl
  have hother : ∀ {j : Nat} {u : Pc} {k : AddrKey}, j ≠ a.1 → c.threads[j]? = some u → k ∈ u.keys →
      pc.counting k = false := by
    intro j u k hj hu hk
    by_contra hcount
    exact hj (hh.apart hu hpc hk (Pc.counting_keys (by simpa using hcount)).2)
  have hthreads : Holds (Within S) c' := by
    refine ih.threads.step hst (fun pc₁ sh₁ pc₁' hpc₁ hp₁ => ?_) ?_
    · rw [hpc] at hpc₁
      cases hpc₁
      rw [hp] at hp₁
      cases hp₁
      exact hmoved
    · intro pc₁ sh₁ pc₁' j u hpc₁ hp₁ hj hu hold
      rw [hpc] at hpc₁
      cases hpc₁
      rw [hp] at hp₁
      cases hp₁
      refine ⟨fun k hk => ?_, fun k n hn => ?_⟩
      · rw [hsame k (hother hj hu (u.ahead_keys k hk))]
        exact hold.ahead k hk
      · rw [hsame k (hother hj hu (Pc.number_keys hn))]
        exact hold.number k n hn
  subst heq
  refine ⟨fun k => ?_, fun t k hk => ?_, fun k hk => ?_, hthreads⟩
  · by_cases hcount : pc.counting k = true
    · exact (hle k hcount).trans (hwithin.ahead k (Pc.counting_keys hcount).1)
    · rw [hsame k (by simpa using hcount)]; exact ih.limit k
  · rcases (step_effect hp).new_items hk with hold | ⟨hpush, hstore⟩
    · have hno : pc.counting k = false := by
        by_contra hcount
        have hzero := hh.not_queued hmem (Pc.counting_keys (by simpa using hcount)).2
        have hpos := c.shared.count_le_copies t k
        have := List.count_pos_iff.mpr hold
        omega
      rw [hsame k hno]
      exact ih.queued t k hold
    · simp only [NodeStore.attemptsAt, hstore]
      exact hwithin.ahead k (pushed_ahead hpush)
  · have hold : ¬c.shared.store.Seen k := fun hs => hk (hstay k hs)
    have hno : pc.counting k = false := by
      by_contra hcount
      exact hold (hseen k (Pc.counting_keys (by simpa using hcount)).2)
    rw [hsame k hno]
    exact ih.unseen k hold

/-- The attempts of a whole crawl. -/
theorem attempts_le {ok : Conf Shared Pc → Nat × Answer → Prop} {c : Conf Shared Pc}
    (hr : Reach (program S) ok (start S) c) :
    c.shared.store.attempts ≤ S.settings.maxAddresses * S.settings.handshakeAttempts := by
  have hroom := rooms hr
  have hsum : c.shared.store.attempts ≤ c.shared.store.map.size * S.settings.handshakeAttempts := by
    refine AList.sumOf_le fun k e he => ?_
    have hle := (spare hr).limit k
    rwa [NodeStore.attemptsAt, ← NodeStore.summand_attempts, AList.summand, he] at hle
  have hsize : c.shared.store.map.size ≤ S.settings.maxAddresses := by
    rw [hroom.size, ← hroom.budget]
    exact hroom.within
  exact hsum.trans (Nat.mul_le_mul_right _ hsize)

end Attempts

end P2PCrawler
