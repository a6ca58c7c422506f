import P2PCrawler.Crawler.Calm
import P2PCrawler.Crawler.Ending
import P2PCrawler.Crawler.Stats

/-!
# The node cap

`reserve_node_slot` grants a slot to a key a worker has taken off a queue, or turns it down.
`Slots` is the history of the grants, the refusals and the keys taken after the limit was reached.

* `SlotStep` — what a step has to do with slots; `slotStep` — every step has one of these forms.
* `NodeStore.attempts` — the sum of `handshake_attempts` over the entries.
* `Accounts` — the counter of processed nodes against the history and the attempts.
* `Spent` — the keys taken after the limit was reached.

## Results

* `node_cap` — **the cap is strict and exactly accounted**, in every run.
-/

set_option autoImplicit false

namespace P2PCrawler

open ThreadPool

/-! ## The history of the slots -/

structure Slots where
  /-- the keys taken off the queues -/
  dequeued : List AddrKey := []
  granted : List AddrKey := []
  refused : List AddrKey := []
  /-- the keys taken off the queues since the limit was reached -/
  late : List AddrKey := []
  /-- panics that cost a granted slot its attempt -/
  lost : Nat := 0
  /-- the keys that workers had when their loops panicked -/
  dropped : List AddrKey := []

/-- What the move of a thread means for the slots; `limited` is `node_limit_reached` before it. -/
def Slots.move (g : Slots) (limited : Bool) : Pc → Pc → Slots
  | .worker _ .receiving, .worker _ (.reserving k) =>
    { g with dequeued := g.dequeued ++ [k], late := if limited then g.late ++ [k] else g.late }
  | .worker _ (.reserving k), .worker _ (.starting _) => { g with granted := g.granted ++ [k] }
  | .worker _ (.reserving k), .worker _ (.limitHit _) => { g with refused := g.refused ++ [k] }
  | .worker _ (.starting _), .worker _ .died => { g with lost := g.lost + 1 }
  | .worker _ (.task _ .begin), .worker _ (.crashed _) => { g with lost := g.lost + 1 }
  | .worker _ (.task _ (.count _)), .worker _ (.crashed _) => { g with lost := g.lost + 1 }
  | .worker _ p, .worker _ .died => { g with dropped := g.dropped ++ p.keys }
  | _, _ => g

def Slots.record (g : Slots) (c : Conf Shared Pc) (a : Nat × Answer) (c' : Conf Shared Pc) : Slots :=
  match c.threads[a.1]?, c'.threads[a.1]? with
  | some pc, some pc' => g.move c.shared.nodeLimitReached pc pc'
  | _, _ => g

/-- The worker has reserved a slot and not started its attempt. -/
def Pc.pends : Pc → Bool
  | .worker _ (.starting _) | .worker _ (.task _ .begin) | .worker _ (.task _ (.count _)) => true
  | _ => false

/-- The next step of the thread counts an attempt at `k`. -/
def Pc.counting (k : AddrKey) : Pc → Bool
  | .worker _ (.task key (.count _)) => key = k
  | _ => false

/-- The worker has taken the key and not asked for a slot. -/
def Pc.asks (k : AddrKey) : Pc → Bool
  | .worker _ (.reserving key) => key = k
  | _ => false

/-- How many steps of a worker that gets no slot for the key are left until it is discarded. -/
def Pc.refusal (k : AddrKey) : Pc → Nat
  | .worker _ (.reserving key) => if key = k then 3 else 0
  | .worker _ (.limitHit key) => if key = k then 2 else 0
  | .worker _ (.discarding key (.write terminal _)) =>
    if key = k ∧ terminal = .budgetDiscarded then 1 else 0
  | _ => 0

/-- The worker has discarded the key and is not done with it. -/
def Pc.discarded (k : AddrKey) : Pc → Bool
  | .worker _ (.discarding key .decr) | .worker _ (.discarding key .close) => key = k
  | _ => false

/-! ## Steps -/

/-- What a step has to do with slots. -/
inductive SlotStep (S : Setup) (a : Answer) (sh : Shared) : Pc → Shared → Pc → Prop
  | dequeue (t : Transport) (k : AddrKey) {sh' : Shared}
    (hnum : sh'.numProcessed = sh.numProcessed)
    (hflag : sh'.nodeLimitReached = sh.nodeLimitReached) (hcalm : sh'.panicked = sh.panicked) :
    SlotStep S a sh (.worker t .receiving) sh' (.worker t (.reserving k))
  | grant (t : Transport) (k : AddrKey) (hroom : ∀ m, S.settings.maxNodes = some m → sh.numProcessed < m) :
    SlotStep S a sh (.worker t (.reserving k)) { sh with numProcessed := sh.numProcessed + 1 }
      (.worker t (.starting k))
  | refuse (t : Transport) (k : AddrKey) (m : Nat) (hmax : S.settings.maxNodes = some m)
    (hfull : m ≤ sh.numProcessed) :
    SlotStep S a sh (.worker t (.reserving k)) sh (.worker t (.limitHit k))
  | limit (t : Transport) (k : AddrKey) :
    SlotStep S a sh (.worker t (.limitHit k)) { sh with nodeLimitReached := true }
      (.worker t (.discarding k (.write .budgetDiscarded none)))
  | attempt (t : Transport) (k : AddrKey) (net : NetworkType) (n : Nat) {sh' : Shared}
    (hnum : sh'.numProcessed = sh.numProcessed)
    (hflag : sh'.nodeLimitReached = sh.nodeLimitReached) (hcalm : sh'.panicked = sh.panicked)
    (hpanic : a.panic = false) :
    SlotStep S a sh (.worker t (.task k (.count net))) sh' (.worker t (.task k (.connecting net n)))
  /-- the panic of a task -/
  | crash (t : Transport) (k : AddrKey) (p : TaskPc) :
    SlotStep S a sh (.worker t (.task k p)) (unwind sh p) (.worker t (.crashed k))
  /-- the panic of a worker loop -/
  | die (t : Transport) (p : WorkerPc) (hp : ∀ k q, p ≠ .task k q) (hend : p.ended = false) :
    SlotStep S a sh (.worker t p) { sh with failedJoins := sh.failedJoins + 1, panicked := true }
      (.worker t .died)
  /-- any other step -/
  | other {sh' : Shared} {pc pc' : Pc}
    (hnum : sh'.numProcessed = sh.numProcessed)
    (hflag : sh'.nodeLimitReached = sh.nodeLimitReached) (hcalm : sh'.panicked = sh.panicked)
    (hmove : ∀ g limited, Slots.move g limited pc pc' = g) (hpends : pc'.pends = pc.pends)
    (hasks : ∀ k, pc'.asks k = false ∧ pc.asks k = false) (hcount : ∀ k, pc.counting k = false)
    (hlimit : ∀ t k, pc' ≠ .worker t (.limitHit k)) :
    SlotStep S a sh pc sh' pc'

/-- Nothing leads back to the start of `process`, and only the counting of the attempt leads away
    from it. -/
theorem taskStep_pends {S : Setup} {sh sh' : Shared} {t : Transport} {k : AddrKey} {a : Answer}
    {p : TaskPc} {next : Option TaskPc} (h : taskStep S sh t k a p = some (sh', next))
    (hp : ∀ net, p ≠ .count net) :
    (Pc.worker t ((next.map (WorkerPc.task k)).getD .top)).pends = (Pc.worker t (.task k p)).pends := by
  cases p with
  | count net => exact absurd rfl (hp net)
  | everConnected n kind | handshakeTimeout n | handshakeFailed n kind =>
    simp only [taskStep, retryOrFinish, Option.some.injEq, Prod.mk.injEq] at h
    obtain ⟨-, rfl⟩ := h
    split <;> rfl
  | connecting | sendVersion | handshaking | collecting | malformedGuard | messageGuard
    | outcomeGuard | shuffling | resending =>
    simp only [taskStep] at h
    split at h <;> cases h <;> rfl
  | handshaken | getaddr | malformedCount | breakdown | messageDone | outcomeWrite =>
    simp only [taskStep, Option.some.injEq, Prod.mk.injEq] at h
    obtain ⟨-, rfl⟩ := h
    split <;> rfl
  | malformedLog c call | blockLog c parsed now call | outcomeLog c call =>
    obtain ⟨-, ⟨_, rfl⟩ | ⟨res, rfl⟩⟩ := logStep_effect h
    · rfl
    · cases res <;> rfl
  | upserting c count now rest =>
    cases rest with
    | nil => cases h; rfl
    | cons addr rest =>
      simp only [taskStep, Option.some.injEq, Prod.mk.injEq] at h
      obtain ⟨-, rfl⟩ := h
      unfold upsertNext
      split <;> rfl
  | enqueueing c count now rest key e =>
    simp only [taskStep, Option.some.injEq, Prod.mk.injEq] at h
    obtain ⟨-, rfl⟩ := h
    cases (enqueueStep S.digests sh key e).2 <;> rfl
  | abandoning f | finishing f =>
    cases h
    cases (finishStep sh k f).2 <;> rfl
  | _ => cases h; rfl

theorem taskStep_slot {S : Setup} {sh sh' : Shared} {t : Transport} {k : AddrKey} {a : Answer}
    {p : TaskPc} {next : Option TaskPc} (hpanic : a.panic = false)
    (h : taskStep S sh t k a p = some (sh', next)) : SlotStep S a sh (.worker t (.task k p)) sh'
      (.worker t ((next.map (WorkerPc.task k)).getD .top)) := by
  obtain ⟨_, _, _, _, _, _, hsh⟩ := (taskStep_frame h).eq
  have hnum : sh'.numProcessed = sh.numProcessed := by rw [hsh]
  have hflag : sh'.nodeLimitReached = sh.nodeLimitReached := by rw [hsh]
  have hcalm : sh'.panicked = sh.panicked := by rw [hsh]
  by_cases hcount : ∃ net, p = .count net
  · obtain ⟨net, rfl⟩ := hcount
    cases h
    exact .attempt t k net _ rfl rfl rfl hpanic
  have hpends := taskStep_pends h fun net hp => hcount ⟨net, hp⟩
  have hnone : ∀ key, (Pc.worker t (.task k p)).counting key = false := by
    intro key
    cases p with
    | count net => exact absurd ⟨net, rfl⟩ hcount
    | _ => rfl
  cases next with
  | none =>
    refine .other hnum hflag hcalm (fun g limited => ?_) hpends (fun _ => ⟨rfl, rfl⟩) hnone nofun
    cases p <;> rfl
  | some q =>
    refine .other hnum hflag hcalm (fun g limited => ?_) hpends (fun _ => ⟨rfl, rfl⟩) hnone nofun
    cases p <;> rfl

theorem loopStep_slot {S : Setup} {a : Answer} {sh sh' : Shared} {t : Transport} {p p' : WorkerPc}
    (h : loopStep S sh t p = some (sh', p')) : SlotStep S a sh (.worker t p) sh' (.worker t p') := by
  cases loopStep_cases h with
  | take => exact .dequeue t _ rfl rfl rfl
  | reserve hroom => exact .grant t _ hroom
  | refuse hmax hfull => exact .refuse t _ _ hmax hfull
  | limit => exact .limit t _
  | @discard k f | @discarded k f | @crashFinish k f | @crashFinished k f =>
    obtain ⟨store, queue, he⟩ := finishStep_frame sh k f
    rw [he]
    exact .other rfl rfl rfl (fun _ _ => rfl) rfl (fun _ => ⟨rfl, rfl⟩) (fun _ => rfl)
      fun _ _ h => by cases h
  | _ =>
    exact .other rfl rfl rfl (fun _ _ => rfl) rfl (fun _ => ⟨rfl, rfl⟩) (fun _ => rfl)
      fun _ _ h => by cases h

/-- **Every step has to do with slots** in one of these ways. -/
theorem slotStep {S : Setup} {sh sh' : Shared} {pc pc' : Pc} {a : Answer}
    (h : program S sh pc a = some (sh', pc')) : SlotStep S a sh pc sh' pc' := by
  rcases program_cases h with ⟨p, p', rfl, rfl, hs⟩ | ⟨p, p', rfl, rfl, hs⟩ | ⟨p, p', rfl, rfl, hs⟩ |
    ⟨L, rfl, rfl, hs, rfl⟩ | ⟨t, p, p', rfl, rfl, hs⟩
  · obtain ⟨hcalm, hflag, hnum, -⟩ := mainStep_frame hs
    exact .other hnum hflag hcalm (fun _ _ => rfl) rfl (fun _ => ⟨rfl, rfl⟩) (fun _ => rfl) nofun
  · obtain ⟨_, _, _, _, rfl⟩ := signalStep_frame hs
    exact .other rfl rfl rfl (fun _ _ => rfl) rfl (fun _ => ⟨rfl, rfl⟩) (fun _ => rfl) nofun
  · obtain ⟨_, _, _, _, _, rfl⟩ := checkpointStep_frame hs
    exact .other rfl rfl rfl (fun _ _ => rfl) rfl (fun _ => ⟨rfl, rfl⟩) (fun _ => rfl) nofun
  · exact .other rfl rfl rfl (fun _ _ => rfl) rfl (fun _ => ⟨rfl, rfl⟩) (fun _ => rfl) nofun
  · rcases workerStep_cases hs with ⟨k, q, rfl, -, rfl, rfl⟩ | ⟨k, q, next, rfl, hpanic, hstep, rfl⟩ |
      ⟨htask, hend, -, -, rfl, rfl⟩ | ⟨-, -, -, hstep⟩
    · exact .crash t k q
    · exact taskStep_slot hpanic hstep
    · exact .die t p htask hend
    · exact loopStep_slot hstep

/-! ## Attempts -/

/-- The sum of `handshake_attempts` over all entries. -/
def NodeStore.attempts (s : NodeStore) : Nat := s.map.sumOf fun e => e.stats.handshakeAttempts

theorem NodeStore.summand_attempts (s : NodeStore) (k : AddrKey) :
    s.map.summand (fun e => e.stats.handshakeAttempts) k =
      ((s.statsOf k).map (·.handshakeAttempts)).getD 0 := by
  unfold AList.summand statsOf
  rw [Option.map_map]
  rfl

theorem recordMessage_attempts (parsed : ParsedAddrMessage) (s : NodeStats) :
    (recordMessage parsed s).handshakeAttempts = s.handshakeAttempts :=
  congrArg History.count (recordMessage_history parsed
    { network := .ipv4, freshestTs := 0, state := .queued, stats := s })

theorem Pc.counts_attempts (pc : Pc) (k : AddrKey) (x : NodeStats) :
    (pc.counts k x).handshakeAttempts =
      x.handshakeAttempts + if pc.counting k then 1 else 0 := by
  cases pc with
  | worker t p =>
    cases p with
    | task key p =>
      by_cases hk : key = k
      · cases p with
        | breakdown c command parsed =>
          simp only [counts, counting, if_pos hk]
          exact recordMessage_attempts parsed x
        | _ => simp [counts, counting, TaskPc.counts, hk]
      · cases p <;> simp [counts, counting, hk]
    | _ => rfl
  | _ => rfl

section Attempts
variable {S : Setup} {sh sh' : Shared} {pc pc' : Pc} {a : Answer}

/-- What a step does to the attempts at a key. -/
theorem summand_step (h : program S sh pc a = some (sh', pc')) (k : AddrKey)
    (hk : pc.counting k = true → sh.store.statsOf k ≠ none) :
    sh'.store.map.summand (fun e => e.stats.handshakeAttempts) k =
      sh.store.map.summand (fun e => e.stats.handshakeAttempts) k +
        if !a.panic && pc.counting k then 1 else 0 := by
  rw [NodeStore.summand_attempts, NodeStore.summand_attempts]
  rcases program_stats h k with heq | ⟨hnone, hnew⟩
  · rw [heq]
    cases hstats : sh.store.statsOf k with
    | none =>
      cases hcount : pc.counting k with
      | true => exact absurd hstats (hk hcount)
      | false => simp
    | some x =>
      cases hpanic : a.panic with
      | true => simp
      | false => simpa using pc.counts_attempts k x
  · have hcount : pc.counting k = false := by
      by_contra hcount
      exact hk (by simpa using hcount) hnone
    rw [hnew, hnone, hcount]
    simp

/-- A step that counts no attempt leaves the sum. -/
theorem attempts_same (h : program S sh pc a = some (sh', pc'))
    (hcount : ∀ k, (!a.panic && pc.counting k) = false)
    (hk : ∀ k, pc.counting k = true → sh.store.statsOf k ≠ none) :
    sh'.store.attempts = sh.store.attempts := by
  have hsame : ∀ k, sh'.store.map.summand (fun e => e.stats.handshakeAttempts) k =
      sh.store.map.summand (fun e => e.stats.handshakeAttempts) k := by
    intro k
    rw [summand_step h k (hk k), hcount]
    rfl
  have hsum := AList.sumOf_change (k := (⟨"", 0⟩ : AddrKey)) fun k _ => hsame k
  rw [hsame] at hsum
  exact Nat.add_right_cancel hsum

/-- A counted attempt is in the sum. -/
theorem attempts_more (h : program S sh pc a = some (sh', pc')) {k : AddrKey}
    (hpanic : a.panic = false) (hcount : ∀ k', pc.counting k' = decide (k = k'))
    (hk : sh.store.statsOf k ≠ none) : sh'.store.attempts = sh.store.attempts + 1 := by
  have hstep : ∀ k', sh'.store.map.summand (fun e => e.stats.handshakeAttempts) k' =
      sh.store.map.summand (fun e => e.stats.handshakeAttempts) k' + if k = k' then 1 else 0 := by
    intro k'
    rw [summand_step h k' fun hc => ?_, hpanic, hcount]
    · simp
    · rw [hcount] at hc
      rw [← of_decide_eq_true hc]
      exact hk
  have hsum := AList.sumOf_change (m := sh.store.map) (k := k) fun k' hne => by
    rw [hstep k', if_neg (Ne.symm hne), Nat.add_zero]
  rw [hstep k, if_pos rfl] at hsum
  unfold NodeStore.attempts
  omega

end Attempts

/-! ## The accounts -/

/-- The counter of processed nodes, the history of the slots and the attempts agree. -/
structure Accounts (S : Setup) (c : Conf Shared Pc) (g : Slots) : Prop where
  granted : c.shared.numProcessed = g.granted.length
  counted : c.shared.numProcessed =
    c.shared.store.attempts + c.threads.countP Pc.pends + g.lost
  bounded : ∀ m, S.settings.maxNodes = some m → c.shared.numProcessed ≤ m
  full : g.refused ≠ [] → S.settings.maxNodes = some c.shared.numProcessed
  reached : c.shared.nodeLimitReached = true → g.refused ≠ []
  limited : ∀ t k, Pc.worker t (.limitHit k) ∈ c.threads → g.refused ≠ []
  late : g.late ≠ [] → g.refused ≠ []
  dequeued : ∀ k, g.granted.count k + g.refused.count k + c.threads.countP (Pc.asks k) ≤
    g.dequeued.count k
  calm : c.shared.panicked = false → g.lost = 0 ∧ g.dropped = []

theorem start_accounts (S : Setup) : Accounts S (start S) {} where
  granted := rfl
  counted := by
    have hnone : (start S).threads.countP Pc.pends = 0 := by
      refine List.countP_eq_zero.mpr fun pc hpc => ?_
      rcases mem_start hpc with rfl | rfl | rfl | rfl | ⟨t, rfl, -⟩ <;> exact nofun
    rw [hnone]
    rfl
  bounded m _ := Nat.zero_le m
  full h := absurd rfl h
  reached h := by cases h
  limited t k hk := by
    rcases mem_start hk with h | h | h | h | ⟨t, h, -⟩ <;> cases h
  late h := absurd rfl h
  dequeued k := by
    have hnone : (start S).threads.countP (Pc.asks k) = 0 := by
      refine List.countP_eq_zero.mpr fun pc hpc => ?_
      rcases mem_start hpc with rfl | rfl | rfl | rfl | ⟨t, rfl, -⟩ <;> exact nofun
    rw [hnone]
    rfl
  calm _ := ⟨rfl, rfl⟩

section Step
variable {S : Setup} {c : Conf Shared Pc} {g : Slots} {a : Nat × Answer} {pc pc' : Pc} {sh' : Shared}

theorem count_snoc (ks : List AddrKey) (k k' : AddrKey) :
    (ks ++ [k]).count k' = ks.count k' + if decide (k = k') = true then 1 else 0 := by
  rw [List.count_append, List.count_singleton]
  by_cases hk : k = k' <;> simp [hk]

theorem Slots.record_eq (g : Slots) (hpc : c.threads[a.1]? = some pc) :
    g.record c a ⟨sh', c.threads.set a.1 pc'⟩ = g.move c.shared.nodeLimitReached pc pc' := by
  obtain ⟨hi, -⟩ := List.getElem?_eq_some_iff.mp hpc
  unfold record
  rw [hpc, List.getElem?_set_self hi]

/-- A step without a decision about a slot. -/
theorem Accounts.undecided {g' : Slots} (h : Accounts S c g) (hpc : c.threads[a.1]? = some pc)
    (hnum : sh'.numProcessed = c.shared.numProcessed)
    (hflag : sh'.nodeLimitReached = c.shared.nodeLimitReached)
    (hgranted : g'.granted = g.granted) (hrefused : g'.refused = g.refused)
    (hlimit : ∀ t k, pc' ≠ .worker t (.limitHit k))
    (hlate : g'.late = g.late ∨ c.shared.nodeLimitReached = true)
    (hattempts : sh'.store.attempts + (if pc'.pends then 1 else 0) + g'.lost =
      c.shared.store.attempts + (if pc.pends then 1 else 0) + g.lost)
    (hdequeued : ∀ k, g.dequeued.count k + (if pc'.asks k then 1 else 0) ≤
      g'.dequeued.count k + if pc.asks k then 1 else 0)
    (hcalm : sh'.panicked = false →
      c.shared.panicked = false ∧ g'.lost = g.lost ∧ g'.dropped = g.dropped) :
    Accounts S ⟨sh', c.threads.set a.1 pc'⟩ g' where
  granted := by rw [hgranted]; exact hnum.trans h.granted
  counted := by
    have hpends := countP_set_add Pc.pends pc' hpc
    have hcount := h.counted
    show sh'.numProcessed = sh'.store.attempts + (c.threads.set a.1 pc').countP Pc.pends + g'.lost
    omega
  bounded m hm := hnum.le.trans (h.bounded m hm)
  full hne := by
    rw [hrefused] at hne
    exact (h.full hne).trans (congrArg some hnum.symm)
  reached hon := by
    rw [hrefused]
    exact h.reached (hflag.symm.trans hon)
  limited t k hk := by
    rw [hrefused]
    rcases List.mem_or_eq_of_mem_set hk with hk | hk
    · exact h.limited t k hk
    · exact absurd hk.symm (hlimit t k)
  late hne := by
    rw [hrefused]
    rcases hlate with heq | hon
    · exact h.late (heq ▸ hne)
    · exact h.reached hon
  dequeued k := by
    have hasks := countP_set_add (Pc.asks k) pc' hpc
    have hle := h.dequeued k
    have hmore := hdequeued k
    rw [hgranted, hrefused]
    show g.granted.count k + g.refused.count k + (c.threads.set a.1 pc').countP (Pc.asks k) ≤
      g'.dequeued.count k
    omega
  calm hpan := by
    obtain ⟨hpan, hlost, hdropped⟩ := hcalm hpan
    rw [hlost, hdropped]
    exact h.calm hpan

theorem Accounts.grant {t : Transport} {k : AddrKey} (h : Accounts S c g)
    (hpc : c.threads[a.1]? = some (.worker t (.reserving k)))
    (hroom : ∀ m, S.settings.maxNodes = some m → c.shared.numProcessed < m) :
    Accounts S ⟨{ c.shared with numProcessed := c.shared.numProcessed + 1 },
      c.threads.set a.1 (.worker t (.starting k))⟩ { g with granted := g.granted ++ [k] } where
  granted := by
    rw [List.length_append]
    exact congrArg (· + 1) h.granted
  counted := by
    have hpends : (c.threads.set a.1 (.worker t (.starting k))).countP Pc.pends + 0 =
        c.threads.countP Pc.pends + 1 := countP_set_add Pc.pends _ hpc
    have hcount := h.counted
    show c.shared.numProcessed + 1 = c.shared.store.attempts +
      (c.threads.set a.1 (.worker t (.starting k))).countP Pc.pends + g.lost
    omega
  bounded m hm := hroom m hm
  full hne := absurd (hroom _ (h.full hne)) (lt_irrefl _)
  reached hon := h.reached hon
  limited t' k' hk := by
    rcases List.mem_or_eq_of_mem_set hk with hk | hk
    · exact h.limited t' k' hk
    · cases hk
  late hne := h.late hne
  dequeued k' := by
    have hasks : (c.threads.set a.1 (.worker t (.starting k))).countP (Pc.asks k') +
        (if decide (k = k') = true then 1 else 0) = c.threads.countP (Pc.asks k') + 0 :=
      countP_set_add (Pc.asks k') _ hpc
    have hle := h.dequeued k'
    show (g.granted ++ [k]).count k' + g.refused.count k' +
      (c.threads.set a.1 (.worker t (.starting k))).countP (Pc.asks k') ≤ g.dequeued.count k'
    rw [count_snoc]
    omega
  calm hpan := h.calm hpan

theorem Accounts.refuse {t : Transport} {k : AddrKey} {m : Nat} (h : Accounts S c g)
    (hpc : c.threads[a.1]? = some (.worker t (.reserving k)))
    (hmax : S.settings.maxNodes = some m) (hfull : m ≤ c.shared.numProcessed) :
    Accounts S ⟨c.shared, c.threads.set a.1 (.worker t (.limitHit k))⟩
      { g with refused := g.refused ++ [k] } where
  granted := h.granted
  counted := by
    have hpends : (c.threads.set a.1 (.worker t (.limitHit k))).countP Pc.pends + 0 =
        c.threads.countP Pc.pends + 0 := countP_set_add Pc.pends _ hpc
    have hcount := h.counted
    show c.shared.numProcessed = c.shared.store.attempts +
      (c.threads.set a.1 (.worker t (.limitHit k))).countP Pc.pends + g.lost
    omega
  bounded m hm := h.bounded m hm
  full _ := by rw [hmax, le_antisymm hfull (h.bounded m hmax)]
  reached _ := List.append_ne_nil_of_right_ne_nil _ (List.cons_ne_nil k [])
  limited _ _ _ := List.append_ne_nil_of_right_ne_nil _ (List.cons_ne_nil k [])
  late _ := List.append_ne_nil_of_right_ne_nil _ (List.cons_ne_nil k [])
  dequeued k' := by
    have hasks : (c.threads.set a.1 (.worker t (.limitHit k))).countP (Pc.asks k') +
        (if decide (k = k') = true then 1 else 0) = c.threads.countP (Pc.asks k') + 0 :=
      countP_set_add (Pc.asks k') _ hpc
    have hle := h.dequeued k'
    show g.granted.count k' + (g.refused ++ [k]).count k' +
      (c.threads.set a.1 (.worker t (.limitHit k))).countP (Pc.asks k') ≤ g.dequeued.count k'
    rw [count_snoc]
    omega
  calm hpan := h.calm hpan

theorem Accounts.limit {t : Transport} {k : AddrKey} (h : Accounts S c g)
    (hpc : c.threads[a.1]? = some (.worker t (.limitHit k))) :
    Accounts S ⟨{ c.shared with nodeLimitReached := true },
      c.threads.set a.1 (.worker t (.discarding k (.write .budgetDiscarded none)))⟩ g where
  granted := h.granted
  counted := by
    have hpends : (c.threads.set a.1 (.worker t (.discarding k (.write .budgetDiscarded none)))).countP
        Pc.pends + 0 = c.threads.countP Pc.pends + 0 := countP_set_add Pc.pends _ hpc
    have hcount := h.counted
    show c.shared.numProcessed = c.shared.store.attempts + (c.threads.set a.1
      (.worker t (.discarding k (.write .budgetDiscarded none)))).countP Pc.pends + g.lost
    omega
  bounded m hm := h.bounded m hm
  full hne := h.full hne
  reached _ := h.limited t k (List.mem_of_getElem? hpc)
  limited t' k' hk := h.limited t k (List.mem_of_getElem? hpc)
  late hne := h.late hne
  dequeued k' := by
    have hasks : (c.threads.set a.1 (.worker t (.discarding k (.write .budgetDiscarded none)))).countP
        (Pc.asks k') + 0 = c.threads.countP (Pc.asks k') + 0 := countP_set_add (Pc.asks k') _ hpc
    have hle := h.dequeued k'
    show g.granted.count k' + g.refused.count k' + (c.threads.set a.1
      (.worker t (.discarding k (.write .budgetDiscarded none)))).countP (Pc.asks k') ≤
        g.dequeued.count k'
    omega
  calm hpan := h.calm hpan

/-- The panic of a task costs its attempt, or nothing. -/
theorem crash_move (g : Slots) (limited : Bool) (t : Transport) (k : AddrKey) (p : TaskPc) :
    g.move limited (.worker t (.task k p)) (.worker t (.crashed k)) =
      { g with lost := g.lost + if (Pc.worker t (.task k p)).pends then 1 else 0 } := by
  cases p <;> rfl

/-- The panic of a worker loop costs an attempt, or the keys in its hands. -/
theorem die_move (g : Slots) (limited : Bool) (t : Transport) {p : WorkerPc}
    (hp : ∀ k q, p ≠ .task k q) : g.move limited (.worker t p) (.worker t .died) =
      if (Pc.worker t p).pends then { g with lost := g.lost + 1 }
      else { g with dropped := g.dropped ++ p.keys } := by
  cases p with
  | task k q => exact absurd rfl (hp k q)
  | _ => rfl

theorem Accounts.step (h : Accounts S c g) (hh : HeldOnce c) (hpc : c.threads[a.1]? = some pc)
    (hp : program S c.shared pc a.2 = some (sh', pc')) :
    Accounts S ⟨sh', c.threads.set a.1 pc'⟩ (g.move c.shared.nodeLimitReached pc pc') := by
  have hknown : ∀ k, pc.counting k = true → c.shared.store.statsOf k ≠ none := by
    intro k hk
    have hmem : k ∈ pc.keys := by
      unfold Pc.counting at hk
      split at hk
      · rw [← of_decide_eq_true hk]
        exact List.mem_singleton.mpr rfl
      · cases hk
    obtain ⟨st, hst, -⟩ := hh.seen_of_mem (List.mem_of_getElem? hpc) hmem
    intro hnone
    rw [NodeStore.statsOf, Option.map_eq_none_iff] at hnone
    rw [NodeStore.stateOf, hnone] at hst
    cases hst
  cases slotStep hp with
  | dequeue t k hnum hflag hcalm =>
    have hsum := attempts_same hp (fun k => by rw [Bool.and_eq_false_iff]; exact .inr rfl) hknown
    refine h.undecided hpc hnum hflag rfl rfl (fun _ _ h => by cases h) ?_ ?_ (fun k' => ?_) fun hpan =>
      ⟨hcalm.symm.trans hpan, rfl, rfl⟩
    · by_cases hon : c.shared.nodeLimitReached = true
      · exact .inr hon
      · exact .inl (if_neg hon)
    · rw [hsum]
      rfl
    · show _ ≤ (g.dequeued ++ [k]).count k' + 0
      rw [count_snoc]
      exact le_refl _
  | grant t k hroom => exact h.grant hpc hroom
  | refuse t k m hmax hfull => exact h.refuse hpc hmax hfull
  | limit t k => exact h.limit hpc
  | attempt t k net n hnum hflag hcalm hpanic =>
    have hsum := attempts_more hp hpanic (fun _ => rfl) (hknown k (decide_eq_true rfl))
    refine h.undecided hpc hnum hflag rfl rfl (fun _ _ h => by cases h) (.inl rfl) ?_ (fun k' => le_refl _) fun hpan =>
      ⟨hcalm.symm.trans hpan, rfl, rfl⟩
    rw [hsum]
    rfl
  | crash t k p =>
    rw [crash_move]
    refine h.undecided hpc rfl rfl rfl rfl (fun _ _ h => by cases h) (.inl rfl) ?_ (fun k' => le_refl _) (fun h => by cases h)
    show c.shared.store.attempts + 0 + (g.lost + _) = _
    omega
  | die t p hworker hend =>
    rw [die_move _ _ _ hworker]
    cases hpend : (Pc.worker t p).pends with
    | true =>
      refine h.undecided hpc rfl rfl rfl rfl (fun _ _ h => by cases h) (.inl rfl) ?_ (fun k' => Nat.le_add_right _ _) (fun h => by cases h)
      rw [hpend]
      show c.shared.store.attempts + 0 + (g.lost + 1) = c.shared.store.attempts + 1 + g.lost
      omega
    | false =>
      refine h.undecided hpc rfl rfl rfl rfl (fun _ _ h => by cases h) (.inl rfl) ?_ (fun k' => Nat.le_add_right _ _) (fun h => by cases h)
      rw [hpend]
      rfl
  | other hnum hflag hcalm hmove hpends hasks hcount hlimit =>
    have hsum := attempts_same hp (fun k => by rw [hcount, Bool.and_false]) hknown
    rw [hmove]
    refine h.undecided hpc hnum hflag rfl rfl hlimit (.inl rfl) ?_ (fun k' => ?_) fun hpan =>
      ⟨hcalm.symm.trans hpan, rfl, rfl⟩
    · rw [hsum, hpends]
    · rw [(hasks k').1, (hasks k').2]

end Step

/-- Runs with the history of their slots. -/
abbrev Slotted (S : Setup) (ok : Conf Shared Pc → Nat × Answer → Prop) :
    Conf Shared Pc → Slots → Prop :=
  Chronicle (program S) ok Slots.record (start S) {}

theorem accounts {S : Setup} {ok : Conf Shared Pc → Nat × Answer → Prop} {c : Conf Shared Pc}
    {g : Slots} (hr : Slotted S ok c g) : Accounts S c g := by
  refine hr.invariant (I := Accounts S) (start_accounts S) fun c g a c' hr ih _ hst => ?_
  obtain ⟨pc, sh', pc', hpc, hp, rfl⟩ := step_cases hst
  rw [Slots.record_eq g hpc]
  exact ih.step (held_once hr.reach) hpc hp

/-! ## After the limit -/

/-- The key is discarded for good: whoever still has it is done with its state. -/
structure Discarded (c : Conf Shared Pc) (k : AddrKey) : Prop where
  state : c.shared.store.stateOf k = some .budgetDiscarded
  hands : ∀ pc ∈ c.threads, k ∈ pc.keys → pc.discarded k = true

/-- A key in hand after a step was in hand, in a queue, or new. -/
theorem Handles.mem {sh sh' : Shared} {ks ks' : List AddrKey} {k : AddrKey}
    (h : Handles sh ks sh' ks') (hk : k ∈ ks') :
    k ∈ ks ∨ ¬sh.store.Seen k ∨ 0 < sh.copies k := by
  cases h with
  | keep hq hks => exact .inl (hks.subset hk)
  | found k₀ hnew hseen hq =>
    rcases List.mem_cons.mp hk with rfl | hk
    · exact .inr (.inl hnew)
    · exact .inl hk
  | push t k₀ hq => exact .inl (List.mem_cons_of_mem _ hk)
  | pop t k₀ hq =>
    rcases List.mem_cons.mp hk with rfl | hk
    · have hcopies := copies_pop hq k
      have hnonneg := sh'.copies_nonneg k
      rw [if_pos rfl] at hcopies
      exact .inr (.inr (by omega))
    · exact .inl hk

theorem Pc.discarded_cases {pc : Pc} {k : AddrKey} (h : pc.discarded k = true) :
    ∃ t, pc = .worker t (.discarding k .decr) ∨ pc = .worker t (.discarding k .close) := by
  unfold discarded at h
  split at h
  · cases of_decide_eq_true h; exact ⟨_, .inl rfl⟩
  · cases of_decide_eq_true h; exact ⟨_, .inr rfl⟩
  · cases h

theorem Pc.refusal_cases {pc : Pc} {k : AddrKey} (h : 0 < pc.refusal k) : ∃ t,
    pc = .worker t (.reserving k) ∨ pc = .worker t (.limitHit k) ∨
      ∃ reason, pc = .worker t (.discarding k (.write .budgetDiscarded reason)) := by
  unfold refusal at h
  split at h
  · split at h
    · rename_i hk; subst hk; exact ⟨_, .inl rfl⟩
    · cases h
  · split at h
    · rename_i hk; subst hk; exact ⟨_, .inr (.inl rfl)⟩
    · cases h
  · split at h
    · rename_i hk; obtain ⟨rfl, rfl⟩ := hk; exact ⟨_, .inr (.inr ⟨_, rfl⟩)⟩
    · cases h
  · cases h

/-- Outside `process`, a worker takes its step in the loop or dies. -/
theorem loop_or_die {S : Setup} {sh sh' : Shared} {t : Transport} {p : WorkerPc} {pc' : Pc}
    {a : Answer} (h : program S sh (.worker t p) a = some (sh', pc')) (hp : ∀ k q, p ≠ .task k q) :
    a.panic = true ∧ sh'.store = sh.store ∧ pc' = .worker t .died ∨
      a.panic = false ∧ ∃ p', pc' = .worker t p' ∧ loopStep S sh t p = some (sh', p') := by
  rcases program_cases h with ⟨_, _, heq, -⟩ | ⟨_, _, heq, -⟩ | ⟨_, _, heq, -⟩ | ⟨_, heq, -⟩ |
    ⟨t', q, p', heq, rfl, hs⟩ <;> cases heq
  rcases workerStep_cases hs with ⟨k, q, rfl, -⟩ | ⟨k, q, next, rfl, -⟩ |
    ⟨-, -, -, hpanic, rfl, rfl⟩ | ⟨-, -, hpanic, hstep⟩
  · exact absurd rfl (hp k q)
  · exact absurd rfl (hp k q)
  · exact .inl ⟨hpanic, rfl, rfl⟩
  · exact .inr ⟨hpanic, p', rfl, hstep⟩

section Late
variable {S : Setup} {c : Conf Shared Pc} {g : Slots} {a : Nat × Answer} {pc pc' : Pc} {sh' : Shared}
  {k : AddrKey}

/-- A discarded key stays discarded. -/
theorem Discarded.step (h : Discarded c k) (hg : Grasped c) (hpc : c.threads[a.1]? = some pc)
    (hp : program S c.shared pc a.2 = some (sh', pc')) :
    Discarded ⟨sh', c.threads.set a.1 pc'⟩ k := by
  have hseen : c.shared.store.Seen k := ⟨_, h.state, (fun h => by cases h)⟩
  by_cases hk : k ∈ pc.keys
  · -- the worker that has discarded it lets go of it
    obtain ⟨t, hpos⟩ := Pc.discarded_cases (h.hands pc (List.mem_of_getElem? hpc) hk)
    have hdone : sh'.store.stateOf k = some .budgetDiscarded ∧
        (k ∈ pc'.keys → pc'.discarded k = true) := by
      rcases hpos with rfl | rfl
      · rcases loop_or_die hp (fun _ _ h => by cases h) with ⟨-, hstore, rfl⟩ | ⟨-, p', rfl, hstep⟩
        · exact ⟨hstore ▸ h.state, (fun h => by cases h)⟩
        · refine ⟨by cases loopStep_cases hstep <;> exact h.state, fun hk' => ?_⟩
          cases loopStep_cases hstep with
          | discard hf => rcases finishStep_next hf with rfl | rfl <;> exact decide_eq_true rfl
          | discarded => cases hk'
      · rcases loop_or_die hp (fun _ _ h => by cases h) with ⟨-, hstore, rfl⟩ | ⟨-, p', rfl, hstep⟩
        · exact ⟨hstore ▸ h.state, (fun h => by cases h)⟩
        · cases hstep
          exact ⟨h.state, (fun h => by cases h)⟩
    refine ⟨hdone.1, fun u hu hku => ?_⟩
    rcases List.mem_or_eq_of_mem_set hu with hu | rfl
    · exact h.hands u hu hku
    · exact hdone.2 hku
  · refine ⟨(state_unheld hp hseen hk).trans h.state, fun u hu hku => ?_⟩
    rcases List.mem_or_eq_of_mem_set hu with hu | rfl
    · exact h.hands u hu hku
    · rcases (program_handles hp).mem hku with hold | hnew | hqueued
      · exact absurd hold hk
      · exact absurd hseen hnew
      · have hstate := hg.queued k hqueued
        rw [h.state] at hstate
        cases hstate

/-- A worker that gets no slot comes one step closer to discarding its key, or panics. -/
theorem refusal_step (hfull : S.settings.maxNodes = some c.shared.numProcessed) (hg : Grasped c)
    (hh : HeldOnce c) (hpc : c.threads[a.1]? = some pc)
    (hp : program S c.shared pc a.2 = some (sh', pc')) (hk : 0 < pc.refusal k) :
    a.2.panic = true ∧ (∀ g limited, k ∈ (Slots.move g limited pc pc').dropped) ∨
      a.2.panic = false ∧ pc'.refusal k + 1 = pc.refusal k ∧
        (pc'.refusal k = 0 → Discarded ⟨sh', c.threads.set a.1 pc'⟩ k) := by
  have hmine : ∀ g : Slots, k ∈ g.dropped ++ [k] := fun g =>
    List.mem_append_right _ (List.mem_singleton.mpr rfl)
  obtain ⟨t, rfl | rfl | ⟨reason, rfl⟩⟩ := Pc.refusal_cases hk
  · rcases loop_or_die hp (fun _ _ h => by cases h) with ⟨hpanic, -, rfl⟩ | ⟨hpanic, p', rfl, hstep⟩
    · exact .inl ⟨hpanic, fun g _ => hmine g⟩
    · cases loopStep_cases hstep with
      | reserve hroom => exact absurd (hroom _ hfull) (lt_irrefl _)
      | refuse =>
        refine .inr ⟨hpanic, ?_, fun hz => ?_⟩
        · simp [Pc.refusal]
        · simp [Pc.refusal] at hz
  · rcases loop_or_die hp (fun _ _ h => by cases h) with ⟨hpanic, -, rfl⟩ | ⟨hpanic, p', rfl, hstep⟩
    · exact .inl ⟨hpanic, fun g _ => hmine g⟩
    · cases hstep
      refine .inr ⟨hpanic, ?_, fun hz => ?_⟩
      · simp [Pc.refusal]
      · simp [Pc.refusal] at hz
  · rcases loop_or_die hp (fun _ _ h => by cases h) with ⟨hpanic, -, rfl⟩ | ⟨hpanic, p', rfl, hstep⟩
    · exact .inl ⟨hpanic, fun g _ => hmine g⟩
    · have hmem := List.mem_of_getElem? hpc
      have hstate : c.shared.store.stateOf k = some .queued :=
        hg.owns _ hmem rfl (k, .queued) (List.mem_singleton.mpr rfl)
      obtain ⟨e, he, hest⟩ := Option.map_eq_some_iff.mp hstate
      have hactive : e.state.active = true := by rw [hest]; rfl
      simp only [loopStep, finishStep, he, hactive, if_true, Option.some.injEq, Prod.mk.injEq] at hstep
      obtain ⟨rfl, rfl⟩ := hstep
      refine .inr ⟨hpanic, ?_, fun _ => ⟨?_, fun u hu hku => ?_⟩⟩
      · simp [Pc.refusal]
      · exact NodeStore.stateOf_withEntry_set (fun _ => rfl) (by rw [hstate]; exact Option.some_ne_none _)
      · obtain ⟨j, hj⟩ := List.getElem?_of_mem hu
        rw [List.getElem?_set] at hj
        split at hj
        · split at hj
          · cases hj
            exact decide_eq_true rfl
          · cases hj
        · rename_i hne
          exact absurd (hh.apart hpc hj (List.mem_singleton.mpr rfl) hku) hne

/-- Every key taken after the limit was reached is discarded, or about to be, or was lost with its
    worker. -/
def Spent (c : Conf Shared Pc) (g : Slots) : Prop :=
  ∀ k ∈ g.late, Discarded c k ∨ (∃ pc ∈ c.threads, 0 < pc.refusal k) ∨ k ∈ g.dropped

/-- What is dropped stays in the history. -/
theorem Slots.dropped_move (g : Slots) (limited : Bool) (pc pc' : Pc) (hk : k ∈ g.dropped) :
    k ∈ (g.move limited pc pc').dropped := by
  unfold move
  split
  all_goals first | exact hk | exact List.mem_append_left _ hk

/-- A key that is late is late already, or was just taken. -/
theorem Slots.late_move (g : Slots) (limited : Bool) (pc pc' : Pc)
    (hk : k ∈ (g.move limited pc pc').late) : k ∈ g.late ∨ 0 < pc'.refusal k := by
  unfold move at hk
  split at hk
  · split at hk
    · rcases List.mem_append.mp hk with hk | hk
      · exact .inl hk
      · rw [List.mem_singleton.mp hk]
        simp [Pc.refusal]
    · exact .inl hk
  all_goals exact .inl hk

theorem Spent.step (h : Spent c g) (ha : Accounts S c g) (hg : Grasped c) (hh : HeldOnce c)
    (hpc : c.threads[a.1]? = some pc) (hp : program S c.shared pc a.2 = some (sh', pc')) :
    Spent ⟨sh', c.threads.set a.1 pc'⟩ (g.move c.shared.nodeLimitReached pc pc') := by
  obtain ⟨hi, -⟩ := List.getElem?_eq_some_iff.mp hpc
  intro k hk
  rcases g.late_move _ _ _ hk with hold | hnew
  · have hfull := ha.full (ha.late (List.ne_nil_of_mem hold))
    rcases h k hold with hdone | ⟨u, hu, hrefuses⟩ | hdropped
    · exact .inl (hdone.step hg hpc hp)
    · obtain ⟨j, hj⟩ := List.getElem?_of_mem hu
      by_cases hja : j = a.1
      · subst hja
        rw [hpc] at hj
        cases hj
        rcases refusal_step hfull hg hh hpc hp hrefuses with ⟨-, hdrop⟩ | ⟨-, hless, hzero⟩
        · exact .inr (.inr (hdrop _ _))
        · rcases Nat.eq_zero_or_pos (pc'.refusal k) with hz | hpos
          · exact .inl (hzero hz)
          · exact .inr (.inl ⟨pc', List.mem_set hi _, hpos⟩)
      · refine .inr (.inl ⟨u, List.mem_of_getElem? (i := j) ?_, hrefuses⟩)
        rw [List.getElem?_set_ne (Ne.symm hja)]
        exact hj
    · exact .inr (.inr (g.dropped_move _ _ _ hdropped))
  · exact .inr (.inl ⟨pc', List.mem_set hi _, hnew⟩)

end Late

theorem spent {S : Setup} {ok : Conf Shared Pc → Nat × Answer → Prop} {c : Conf Shared Pc}
    {g : Slots} (hr : Slotted S ok c g) : Spent c g := by
  refine hr.invariant (I := Spent) (fun k hk => by cases hk) fun c g a c' hr ih _ hst => ?_
  obtain ⟨pc, sh', pc', hpc, hp, rfl⟩ := step_cases hst
  rw [Slots.record_eq g hpc]
  exact ih.step (accounts hr) (grasped hr.reach) (held_once hr.reach) hpc hp

/-- A worker that gets no slot is never blocked. -/
theorem refusing_moves {S : Setup} {ok : Conf Shared Pc → Nat × Answer → Prop} {c : Conf Shared Pc}
    (hr : Reach (program S) ok (start S) c) (hlive : c.shared.killed = false) {i : Nat} {pc : Pc}
    {k : AddrKey} (hpc : c.threads[i]? = some pc) (hk : 0 < pc.refusal k) :
    ∃ sh' pc', program S c.shared pc {} = some (sh', pc') := by
  have hphase : PhaseOk c.shared pc := phases hr i pc hpc
  obtain ⟨t, hpos⟩ := Pc.refusal_cases hk
  have hspawned : c.shared.spawned = true := by
    by_contra hoff
    have htop := fun p (hp : pc = .worker t p) => (hp ▸ hphase) (by simpa using hoff)
    rcases hpos with h | h | ⟨_, h⟩ <;> exact nomatch htop _ h
  rcases hpos with rfl | rfl | ⟨_, rfl⟩ <;>
    simp only [program, hlive, workerStep, hspawned, WorkerPc.ended, loopStep]
  · cases reserveNodeSlot S c.shared <;> exact ⟨_, _, rfl⟩
  · exact ⟨_, _, rfl⟩
  · exact ⟨_, _, rfl⟩

/-- Grants are only ever added. -/
theorem granted_grows {S : Setup} {ok : Conf Shared Pc → Nat × Answer → Prop} {c c' : Conf Shared Pc}
    {g g' : Slots} (h : Chronicle (program S) ok Slots.record c g c' g') :
    ∃ more, g'.granted = g.granted ++ more := by
  have hmove : ∀ (g : Slots) (limited : Bool) (pc pc' : Pc),
      ∃ more, (g.move limited pc pc').granted = g.granted ++ more := by
    intro g limited pc pc'
    unfold Slots.move
    split
    all_goals first | exact ⟨_, rfl⟩ | exact ⟨[], (List.append_nil _).symm⟩
  refine h.invariant (I := fun _ g' => ∃ more, g'.granted = g.granted ++ more)
    ⟨[], (List.append_nil _).symm⟩ fun c₁ g₁ a c₂ _ ih _ hst => ?_
  obtain ⟨pc, sh', pc', hpc, -, rfl⟩ := step_cases hst
  obtain ⟨more, hmore⟩ := ih
  obtain ⟨more', hmore'⟩ := hmove g₁ c₁.shared.nodeLimitReached pc pc'
  rw [Slots.record_eq g₁ hpc]
  exact ⟨more ++ more', by rw [hmore', hmore, List.append_assoc]⟩

/-- The worker that has the key gets no slot for it: it is not blocked, and with each step that does
    not panic it comes closer to `BudgetDiscarded`. -/
def Refusing (S : Setup) (c : Conf Shared Pc) (k : AddrKey) : Prop :=
  ∃ (i : Nat) (pc : Pc), c.threads[i]? = some pc ∧ 0 < pc.refusal k ∧
    (c.shared.killed = false → ∃ sh' pc', program S c.shared pc {} = some (sh', pc')) ∧
    ∀ a sh' pc', a.panic = false → program S c.shared pc a = some (sh', pc') →
      pc'.refusal k + 1 = pc.refusal k ∧
        (pc'.refusal k = 0 → sh'.store.stateOf k = some .budgetDiscarded)

/-- **The node cap is strict and exactly accounted**, in every run, with any number of workers and
    whatever panics.  The counter never exceeds the cap; it counts the granted slots, and the
    attempts but for the slots that wait for theirs and those a panic cost one.  The limit is
    reached only with a refusal; then exactly the cap is granted, for good, and a key taken from
    then on becomes `BudgetDiscarded`, unless its worker panics. -/
theorem node_cap {S : Setup} {ok : Conf Shared Pc → Nat × Answer → Prop} {c : Conf Shared Pc}
    {g : Slots} (hr : Slotted S ok c g) :
    (∀ m, S.settings.maxNodes = some m → c.shared.numProcessed ≤ m) ∧
    (c.shared.numProcessed = g.granted.length ∧
      ∀ k, g.granted.count k + g.refused.count k ≤ g.dequeued.count k) ∧
    c.shared.numProcessed = c.shared.store.attempts + c.threads.countP Pc.pends + g.lost ∧
    (c.shared.nodeLimitReached = true → g.refused ≠ [] ∧
      S.settings.maxNodes = some g.granted.length ∧
      ∀ c' g', Chronicle (program S) ok Slots.record c g c' g' → g'.granted = g.granted) ∧
    (∀ k ∈ g.late, c.shared.store.stateOf k = some .budgetDiscarded ∨ Refusing S c k ∨
      k ∈ g.dropped) ∧
    (c.shared.panicked = false → g.lost = 0 ∧ g.dropped = []) := by
  have ha := accounts hr
  refine ⟨ha.bounded, ⟨ha.granted, fun k => ?_⟩, ha.counted, fun hon => ?_, fun k hk => ?_, ha.calm⟩
  · have := ha.dequeued k
    omega
  · have hrefused := ha.reached hon
    have hfull := ha.full hrefused
    refine ⟨hrefused, ha.granted ▸ hfull, fun c' g' hr' => ?_⟩
    have ha' := accounts (hr.trans hr')
    obtain ⟨more, hmore⟩ := granted_grows hr'
    have hle := ha'.bounded _ hfull
    rw [ha'.granted, ha.granted, hmore, List.length_append] at hle
    have hnil : more = [] := List.length_eq_zero_iff.mp (by omega)
    rw [hmore, hnil, List.append_nil]
  · have hfull := ha.full (ha.late (List.ne_nil_of_mem hk))
    rcases spent hr k hk with hdone | ⟨pc, hpc, hrefuses⟩ | hdropped
    · exact .inl hdone.state
    · obtain ⟨i, hi⟩ := List.getElem?_of_mem hpc
      refine .inr (.inl ⟨i, pc, hi, hrefuses, fun hlive => refusing_moves hr.reach hlive hi hrefuses,
        fun a sh' pc' hpanic hp => ?_⟩)
      rcases @refusal_step S c (i, a) pc pc' sh' k hfull (grasped hr.reach) (held_once hr.reach) hi hp
        hrefuses with ⟨hbad, -⟩ | ⟨-, hless, hzero⟩
      · exact nomatch hpanic.symm.trans hbad
      · exact ⟨hless, fun hz => (hzero hz).state⟩
    · exact .inr (.inr hdropped)

/-- Three seeds, one worker, one slot. -/
def crowded : Setup :=
  ⟨.zero, { soloSettings with maxNodes := some 1 }, .dns ["192.0.2.1", "192.0.2.2", "192.0.2.3"], 0⟩

/-- The first key is tried, the second hits the limit, and the third is taken after that. -/
def crowdedRun : List (Nat × Answer) :=
  steps 0 15 ++ steps 4 6 ++ [(4, refused)] ++ steps 4 19

/-- The third key is late and discarded. -/
theorem node_cap_crowded : ∃ c g, Slotted crowded noPanic c g ∧
    c.shared.numProcessed = 1 ∧ g.granted = [⟨"192.0.2.1", 8333⟩] ∧ c.shared.store.attempts = 1 ∧
    g.late = [⟨"192.0.2.3", 8333⟩] ∧
    (c.shared.store.stateOf ⟨"192.0.2.3", 8333⟩ = some .budgetDiscarded ∨
      Refusing crowded c ⟨"192.0.2.3", 8333⟩) ∧
    ∀ c' g', Chronicle (program crowded) noPanic Slots.record c g c' g' → g'.granted = g.granted := by
  have hrun : (execRecord (program crowded) panicFree Slots.record (start crowded) {}
      crowdedRun).map (fun r => (r.1.shared.nodeLimitReached && !r.1.shared.panicked,
        r.1.threads.countP Pc.pends, r.2.granted, r.2.late)) =
      some (true, 0, [⟨"192.0.2.1", 8333⟩], [⟨"192.0.2.3", 8333⟩]) := by
    decide +kernel
  obtain ⟨⟨c, g⟩, hc, heq⟩ := Option.map_eq_some_iff.mp hrun
  simp only [Prod.mk.injEq] at heq
  obtain ⟨hflags, hpends, hgranted, hlate⟩ := heq
  obtain ⟨hon, hpan⟩ : c.shared.nodeLimitReached = true ∧ c.shared.panicked = false := by
    simpa using hflags
  have hr : Slotted crowded noPanic c g :=
    (execRecord_chronicle hc).mono fun _ a ha => by simpa [panicFree, noPanic] using ha
  obtain ⟨-, ⟨hnum, -⟩, hcount, hlimit, hspent, hcalm⟩ := node_cap hr
  obtain ⟨hlost, hdropped⟩ := hcalm hpan
  have hone : c.shared.numProcessed = 1 := by rw [hnum, hgranted]; rfl
  refine ⟨c, g, hr, hone, hgranted, by omega, hlate, ?_, (hlimit hon).2.2⟩
  rcases hspent ⟨"192.0.2.3", 8333⟩ (by rw [hlate]; exact List.mem_singleton.mpr rfl) with h | h | h
  · exact .inl h
  · exact .inr h
  · rw [hdropped] at h
    cases h

end P2PCrawler
