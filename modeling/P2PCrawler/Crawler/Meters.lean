import P2PCrawler.Crawler.Counters
import P2PCrawler.Crawler.Records

/-!
# Counting and recording

A worker counts what a node sends in the entry of the node, and records it.  The breakdown of a
message and its record are made under one read guard, like the count of a malformed message and the
outcome of the collection; but the count of valid messages is raised after the guard has been
dropped.

* `Meter` — a counter of a node, and what each kind of observation adds to it.
* `program_meter` — **what a step counts** is what it starts to record, but for the messages that
  are yet to be counted as valid.
* `program_outcome` — an outcome is set as its record is started.
-/

set_option autoImplicit false

namespace P2PCrawler

open ThreadPool

/-! ## Counters -/

/-- A counter of a node, and what is added to it: when a message is broken down, when it is counted
    as valid, and when a malformed one is counted. -/
structure Meter where
  read : NodeStats → ℕ
  perBreakdown : ParsedAddrMessage → ℕ
  perValid : ℕ
  perMalformed : ℕ
  zero : read {} = 0
  breakdown : ∀ parsed x, read (recordMessage parsed x) = read x + perBreakdown parsed
  valid : ∀ x : NodeStats,
    read { x with validAddrMessages := x.validAddrMessages + 1 } = read x + perValid
  malformed : ∀ x : NodeStats,
    read { x with malformedAddrMessages := x.malformedAddrMessages + 1 } = read x + perMalformed
  attempts : ∀ (x : NodeStats) n, read { x with handshakeAttempts := n } = read x
  connect : ∀ (x : NodeStats) ms, read { x with timeConnectMs := ms } = read x
  version : ∀ (x : NodeStats) ts, read { x with firstVersionSendTs := ts } = read x
  outcome : ∀ (x : NodeStats) o, read { x with collectionOutcome := o } = read x

/-- What a record says about the counter. -/
def Meter.weight (μ : Meter) : LogEvent → ℕ
  | .block _ parsed => μ.perBreakdown parsed + μ.perValid
  | .malformed .. => μ.perMalformed
  | .outcome .. => 0

/-- `valid_addr_messages`. -/
def validMeter : Meter where
  read := (·.validAddrMessages)
  perBreakdown _ := 0
  perValid := 1
  perMalformed := 0
  zero := rfl
  breakdown parsed x := (recordMessage_counters parsed x).2.2.1
  valid _ := rfl
  malformed _ := rfl
  attempts _ _ := rfl
  connect _ _ := rfl
  version _ _ := rfl
  outcome _ _ := rfl

/-- `malformed_addr_messages`. -/
def malformedMeter : Meter where
  read := (·.malformedAddrMessages)
  perBreakdown _ := 0
  perValid := 0
  perMalformed := 1
  zero := rfl
  breakdown parsed x := (recordMessage_counters parsed x).2.2.2
  valid _ := rfl
  malformed _ := rfl
  attempts _ _ := rfl
  connect _ _ := rfl
  version _ _ := rfl
  outcome _ _ := rfl

/-- `advertised_total`. -/
def totalMeter : Meter where
  read := (·.advertisedTotal)
  perBreakdown parsed := parsed.declaredCount
  perValid := 0
  perMalformed := 0
  zero := rfl
  breakdown parsed x := (recordMessage_counters parsed x).1
  valid _ := rfl
  malformed _ := rfl
  attempts _ _ := rfl
  connect _ _ := rfl
  version _ _ := rfl
  outcome _ _ := rfl

theorem recordAdvertised_advertisedOf (x : NodeStats) (n net : NetworkType) :
    (x.recordAdvertised n).advertisedOf net = x.advertisedOf net + if n = net then 1 else 0 := by
  cases n <;> cases net <;> rfl

theorem recordMessage_advertisedOf (parsed : ParsedAddrMessage) (x : NodeStats) (net : NetworkType) :
    (recordMessage parsed x).advertisedOf net = x.advertisedOf net + parsed.declaredFor net := by
  have hfold : ∀ (addrs : List AdvertisedAddr) (x : NodeStats),
      (addrs.foldl (fun s a => s.recordAdvertised a.network) x).advertisedOf net =
        x.advertisedOf net + addrs.countP fun a => decide (a.network = net) := by
    intro addrs
    induction addrs with
    | nil => exact fun x => rfl
    | cons a addrs ih =>
      intro x
      rw [List.foldl_cons, ih, recordAdvertised_advertisedOf, List.countP_cons]
      simp only [decide_eq_true_eq]
      omega
  have hlast : (recordMessage parsed x).advertisedOf net =
      (parsed.addrs.foldl (fun s a => s.recordAdvertised a.network) x).advertisedOf net +
        if net = .unknown then parsed.unknownEntries else 0 := by
    cases net <;> rfl
  rw [hlast, hfold, ParsedAddrMessage.declaredFor]
  omega

/-- The counter of one network. -/
def networkMeter (net : NetworkType) : Meter where
  read x := x.advertisedOf net
  perBreakdown parsed := parsed.declaredFor net
  perValid := 0
  perMalformed := 0
  zero := by cases net <;> rfl
  breakdown parsed x := recordMessage_advertisedOf parsed x net
  valid _ := by cases net <;> rfl
  malformed _ := by cases net <;> rfl
  attempts _ _ := by cases net <;> rfl
  connect _ _ := by cases net <;> rfl
  version _ _ := by cases net <;> rfl
  outcome _ _ := by cases net <;> rfl

/-! ## What is counted -/

/-- The task has broken a message down and has not counted it as valid yet. -/
def TaskPc.counting : TaskPc → Bool
  | .blockLog .. | .shuffling .. | .upserting .. | .enqueueing .. | .messageDone .. => true
  | _ => false

/-- What the task has still to add to the counter. -/
def Meter.owed (μ : Meter) (p : TaskPc) : ℕ := if p.counting then μ.perValid else 0

def Meter.owedFor (μ : Meter) (k : AddrKey) : Pc → ℕ
  | .worker _ (.task key p) => if key = k then μ.owed p else 0
  | _ => 0

/-- What a record says about the counter of the node `k`. -/
def Meter.weightFor (μ : Meter) (k : AddrKey) (e : LogEvent) : ℕ := if e.key = k then μ.weight e else 0

theorem TaskPc.starts_key {S : Setup} {k : AddrKey} {now : Int} {p : TaskPc} {e : LogEvent}
    (hok : p.WritesOf S k) (h : p.starts S k now = some e) : e.key = k := by
  cases p with
  | malformedCount c event =>
    cases h
    obtain ⟨_, _, _, rfl⟩ := hok
    rfl
  | breakdown | outcomeWrite => cases h; rfl
  | _ => cases h

theorem retryOrFinish_counting (retry : Bool) (terminal : Terminal) (kind : FailKind) :
    (retryOrFinish retry terminal kind).counting = false := by
  cases retry <;> rfl

/-- **What a task counts** is what it starts to record. -/
theorem taskStep_meter {S : Setup} {sh sh' : Shared} {t : Transport} {k : AddrKey} {a : Answer}
    {p : TaskPc} {next : Option TaskPc} (μ : Meter) (hlog : S.logging = true)
    (h : taskStep S sh t k a p = some (sh', next)) (hok : p.WritesOf S k)
    (hack : ∀ call event, p.call = some call → call.request = .write event →
      ∀ L, call.step sh.log ≠ some (L, .returned none)) (x : NodeStats) :
    μ.read (p.counts x) + next.elim 0 μ.owed =
      μ.read x + μ.owed p + (p.starts S k a.now).elim 0 μ.weight := by
  have hquiet : next.elim 0 μ.owed = μ.owed p → μ.read (p.counts x) = μ.read x →
      p.starts S k a.now = none → μ.read (p.counts x) + next.elim 0 μ.owed =
        μ.read x + μ.owed p + (p.starts S k a.now).elim 0 μ.weight := by
    intro howed hread hstarts
    rw [howed, hread, hstarts]
    rfl
  cases p with
  | count net => cases h; exact hquiet rfl (μ.attempts x _) rfl
  | connected n ms => cases h; exact hquiet rfl (μ.connect x _) rfl
  | firstVersion n sentTs => cases h; exact hquiet rfl (μ.version x _) rfl
  | malformedCount c event =>
    obtain ⟨_, _, _, rfl⟩ := hok
    simp only [taskStep, hlog, if_true, Option.some.injEq, Prod.mk.injEq] at h
    obtain ⟨-, rfl⟩ := h
    exact μ.malformed x
  | breakdown c command parsed =>
    simp only [taskStep, hlog, if_true, Option.some.injEq, Prod.mk.injEq] at h
    obtain ⟨-, rfl⟩ := h
    have hread := μ.breakdown parsed x
    show μ.read (recordMessage parsed x) + μ.perValid =
      μ.read x + 0 + (μ.perBreakdown parsed + μ.perValid)
    omega
  | messageDone c count =>
    have hread := μ.valid x
    have hnext : next.elim 0 μ.owed = 0 := by
      cases h
      simp only [Option.elim_some]
      split <;> rfl
    rw [hnext]
    exact hread
  | outcomeWrite c outcome =>
    simp only [taskStep, hlog, if_true, Option.some.injEq, Prod.mk.injEq] at h
    obtain ⟨-, rfl⟩ := h
    exact μ.outcome x outcome
  | blockLog c parsed now call =>
    refine hquiet ?_ rfl rfl
    rcases logStep_cases h with ⟨call', -, rfl⟩ | ⟨res, hs, rfl⟩
    · rfl
    · cases res with
      | none =>
        obtain ⟨command, hreq⟩ := hok
        exact absurd hs (hack call _ rfl hreq _)
      | some id => rfl
  | malformedLog c call | outcomeLog c call =>
    refine hquiet ?_ rfl rfl
    rcases logStep_cases h with ⟨call', -, rfl⟩ | ⟨res, -, rfl⟩
    · rfl
    · cases res <;> rfl
  | upserting c count now rest =>
    cases rest with
    | nil => cases h; exact hquiet rfl rfl rfl
    | cons addr rest =>
      cases h
      refine hquiet ?_ rfl rfl
      cases (sh.store.frontierUpsert ⟨addr.host, addr.port⟩ addr.timestamp addr.network
        S.settings.freshnessThreshold now).2 <;> rfl
  | enqueueing c count now rest key e =>
    cases h
    refine hquiet ?_ rfl rfl
    cases (enqueueStep S.digests sh key e).2 <;> rfl
  | abandoning f | finishing f =>
    cases h
    refine hquiet ?_ rfl rfl
    cases (finishStep sh k f).2 <;> rfl
  | everConnected | handshakeTimeout | handshakeFailed =>
    cases h
    exact hquiet (if_neg (by simp [retryOrFinish_counting])) rfl rfl
  | resending | connecting | sendVersion | handshaking | collecting | malformedGuard | messageGuard
    | outcomeGuard | shuffling =>
    simp only [taskStep] at h
    split at h <;> cases h <;> exact hquiet rfl rfl rfl
  | handshaken | getaddr =>
    cases h
    refine hquiet ?_ rfl rfl
    simp only [Option.elim_some]
    split <;> rfl
  | _ => cases h; exact hquiet rfl rfl rfl

/-- The statistics of a key, those of a new entry where it has none. -/
def NodeStore.counted (s : NodeStore) (k : AddrKey) : NodeStats := (s.statsOf k).getD {}

theorem Pc.counts_of_ne {pc : Pc} {k : AddrKey} (hk : ∀ t p, pc ≠ .worker t (.task k p))
    (x : NodeStats) : pc.counts k x = x := by
  unfold counts
  split
  · rename_i t key p
    refine if_neg ?_
    rintro rfl
    exact hk t p rfl
  · rfl

/-- Where nothing is written, nothing is counted. -/
theorem counted_same {S : Setup} {sh sh' : Shared} {pc pc' : Pc} {a : Answer} {k : AddrKey}
    (h : program S sh pc a = some (sh', pc'))
    (hsame : a.panic = true ∨ ∀ t p, pc ≠ .worker t (.task k p)) :
    sh'.store.counted k = sh.store.counted k := by
  have hid : (fun x => if a.panic then x else pc.counts k x) = id := by
    funext x
    rcases hsame with hpanic | hne
    · rw [hpanic]
      rfl
    · rw [Pc.counts_of_ne hne, ite_self, id]
  unfold NodeStore.counted
  rcases program_stats h k with heq | ⟨hnone, hnew⟩
  · rw [heq, hid, Option.map_id, id]
  · rw [hnone, hnew]
    rfl

/-- A task that does not panic counts for its node. -/
theorem counted_task {S : Setup} {sh sh' : Shared} {pc' : Pc} {a : Answer} {t : Transport}
    {k : AddrKey} {p : TaskPc} (h : program S sh (.worker t (.task k p)) a = some (sh', pc'))
    (hcalm : a.panic = false) (hseen : sh.store.Seen k) :
    sh'.store.counted k = p.counts (sh.store.counted k) := by
  obtain ⟨v, hv⟩ := hseen.view
  have hstats : sh.store.statsOf k = some v.2 := by
    rw [NodeStore.statsOf_eq_view, hv]
    rfl
  unfold NodeStore.counted
  rcases program_stats h k with heq | ⟨hnone, -⟩
  · rw [heq, hstats, hcalm]
    exact if_pos rfl
  · rw [hstats] at hnone
    cases hnone

/-- The loop enters `process` at its beginning. -/
theorem loopStep_task {S : Setup} {sh sh' : Shared} {t : Transport} {p p' : WorkerPc} {k : AddrKey}
    {q : TaskPc} (h : loopStep S sh t p = some (sh', p')) (hp' : p' = .task k q) : q = .begin := by
  cases loopStep_cases h with
  | start => cases hp'; rfl
  | _ => cases hp'

/-- **What a step counts** is what it starts to record. -/
theorem program_meter {S : Setup} {sh sh' : Shared} {pc pc' : Pc} {a : Answer} (μ : Meter)
    (k : AddrKey) (hlog : S.logging = true) (h : program S sh pc a = some (sh', pc'))
    (hok : pc.WritesOf S) (hseen : k ∈ pc.keys → sh.store.Seen k)
    (hack : ∀ call event, pc.call = some call → call.request = .write event →
      ∀ L, call.step sh.log ≠ some (L, .returned none))
    (hpanic : ∀ t key p, pc = .worker t (.task key p) → a.panic = true →
      p.counting = false ∧ p.guarded = false) :
    μ.read (sh'.store.counted k) + μ.owedFor k pc' = μ.read (sh.store.counted k) + μ.owedFor k pc +
      (pc.starts S a.now).elim 0 (μ.weightFor k) := by
  have hquiet : sh'.store.counted k = sh.store.counted k → μ.owedFor k pc' = 0 →
      μ.owedFor k pc = 0 → (pc.starts S a.now).elim 0 (μ.weightFor k) = 0 →
      μ.read (sh'.store.counted k) + μ.owedFor k pc' = μ.read (sh.store.counted k) +
        μ.owedFor k pc + (pc.starts S a.now).elim 0 (μ.weightFor k) := by
    intro hsame hpc' hpc hstarts
    rw [hsame, hpc', hpc, hstarts]
  rcases program_cases h with ⟨p, p', rfl, rfl, hs⟩ | ⟨p, p', rfl, rfl, hs⟩ |
    ⟨p, p', rfl, rfl, hs⟩ | ⟨L, rfl, rfl, hs, rfl⟩ | ⟨t, p, p', rfl, rfl, hs⟩
  iterate 4 exact hquiet (counted_same h (.inr fun _ _ => by simp)) rfl rfl rfl
  rcases workerStep_cases hs with ⟨key, q, rfl, hp, rfl, rfl⟩ | ⟨key, q, next, rfl, hcalm, hstep, rfl⟩ |
    ⟨hne, -, -, -, rfl, rfl⟩ | ⟨hne, -, -, hstep⟩
  · obtain ⟨hcounting, hguarded⟩ := hpanic t key q rfl hp
    refine hquiet (counted_same h (.inl hp)) rfl ?_ ?_
    · show (if key = k then μ.owed q else 0) = 0
      rw [Meter.owed, hcounting]
      exact ite_self 0
    · show (q.starts S key a.now).elim 0 (μ.weightFor k) = 0
      rw [TaskPc.starts_of_not_guarded hguarded]
      rfl
  · have hmove : ∀ q' : Option TaskPc,
        μ.owedFor k (.worker t ((q'.map (WorkerPc.task key)).getD .top)) =
          if key = k then q'.elim 0 μ.owed else 0 := by
      intro q'
      cases q' with
      | none => exact (ite_self 0).symm
      | some q' => rfl
    rw [hmove]
    by_cases hkey : key = k
    · subst hkey
      have hweight : (q.starts S key a.now).elim 0 (μ.weightFor key) =
          (q.starts S key a.now).elim 0 μ.weight := by
        cases hstarts : q.starts S key a.now with
        | none => rfl
        | some e => exact if_pos (TaskPc.starts_key hok hstarts)
      rw [counted_task h hcalm (hseen task_key_mem), if_pos rfl]
      show _ = μ.read _ + (if key = key then μ.owed q else 0) +
        (q.starts S key a.now).elim 0 (μ.weightFor key)
      rw [if_pos rfl, hweight]
      exact taskStep_meter μ hlog hstep hok hack _
    · -- The step is about another node.
      have hne : ∀ t₁ p₁, Pc.worker t (.task key q) ≠ .worker t₁ (.task k p₁) := by
        intro t₁ p₁ heq
        cases heq
        exact hkey rfl
      have hweight : (q.starts S key a.now).elim 0 (μ.weightFor k) = 0 := by
        cases hstarts : q.starts S key a.now with
        | none => rfl
        | some e =>
          refine if_neg ?_
          rw [TaskPc.starts_key hok hstarts]
          exact hkey
      rw [counted_same h (.inr hne), if_neg hkey]
      show _ = μ.read _ + (if key = k then μ.owed q else 0) +
        (q.starts S key a.now).elim 0 (μ.weightFor k)
      rw [if_neg hkey, hweight]
  · refine hquiet (counted_same h (.inr fun t₁ p₁ heq => ?_)) rfl ?_ ?_
    · cases heq
      exact hne _ _ rfl
    · cases p <;> first | rfl | exact absurd rfl (hne _ _)
    · cases p <;> first | rfl | exact absurd rfl (hne _ _)
  · refine hquiet (counted_same h (.inr fun t₁ p₁ heq => ?_)) ?_ ?_ ?_
    · cases heq
      exact hne _ _ rfl
    · cases p' with
      | task key q =>
        cases loopStep_task hstep rfl
        exact ite_self 0
      | _ => rfl
    · cases p <;> first | rfl | exact absurd rfl (hne _ _)
    · cases p <;> first | rfl | exact absurd rfl (hne _ _)

/-! ## Outcomes -/

/-- The outcome a task has in hand is one of a collection. -/
def TaskPc.Decided : TaskPc → Prop
  | .malformedRelease _ outcome | .outcomeGuard _ outcome | .outcomeWrite _ outcome =>
    outcome ≠ .notRequested
  | _ => True

def Pc.Decided : Pc → Prop
  | .worker _ (.task _ p) => p.Decided
  | _ => True

theorem collect_ended_ne {n : Nat} {event : CollectEvent} {outcome : CollectionOutcome}
    (h : collect n event = .ended outcome) : outcome ≠ .notRequested := by
  have hexit : ∀ {without replies : CollectionOutcome},
      Collected.ended (.orPartial n without replies) = .ended outcome →
      without ≠ .notRequested → replies ≠ .notRequested → outcome ≠ .notRequested := by
    intro without replies heq hno hyes
    cases heq
    unfold CollectionOutcome.orPartial
    split
    · exact hno
    · exact hyes
  cases event with
  | expired => exact hexit h (by decide) (by decide)
  | message | malformed | skip => cases h
  | ping failed =>
    cases failed with
    | none => cases h
    | some e => exact hexit h (by decide) (by decide)
  | quiet unfinished => cases unfinished <;> exact hexit h (by decide) (by decide)
  | error e =>
    simp only [collect] at h
    split at h <;> exact hexit h (by decide) (by decide)

theorem malformedOutcome_ne (c : Session) : malformedOutcome c ≠ .notRequested := by
  unfold malformedOutcome CollectionOutcome.orPartial
  split <;> decide

theorem retryOrFinish_decided (retry : Bool) (terminal : Terminal) (kind : FailKind) :
    (retryOrFinish retry terminal kind).Decided := by
  cases retry <;> trivial

theorem taskStep_decided {S : Setup} {sh sh' : Shared} {t : Transport} {k : AddrKey} {a : Answer}
    {p p' : TaskPc} (h : taskStep S sh t k a p = some (sh', some p')) (hp : p.Decided) :
    p'.Decided := by
  cases p with
  | getaddr c =>
    cases h
    split
    · exact (by decide : CollectionOutcome.sendFailed ≠ .notRequested)
    · trivial
  | collecting c =>
    simp only [taskStep] at h
    split at h <;> cases h
    · trivial
    · rename_i hend
      exact collect_ended_ne hend
    · trivial
    · trivial
  | malformedCount c event =>
    cases h
    split
    · trivial
    · exact malformedOutcome_ne c
  | malformedLog c call =>
    rcases logStep_cases h with ⟨call', -, heq⟩ | ⟨res, -, heq⟩
    · cases heq
      trivial
    · cases res with
      | none => cases heq; trivial
      | some id => cases heq; exact malformedOutcome_ne c
  | malformedMark | blockMark => cases h; exact (by decide : CollectionOutcome.logFailed ≠ .notRequested)
  | malformedRelease => cases h; exact hp
  | outcomeGuard c outcome =>
    simp only [taskStep] at h
    split at h <;> cases h
    exact hp
  | messageDone c count =>
    cases h
    split
    · exact (by decide : CollectionOutcome.completeQuiet ≠ .notRequested)
    · trivial
  | blockLog c parsed now call =>
    rcases logStep_cases h with ⟨call', -, heq⟩ | ⟨res, -, heq⟩
    · cases heq
      trivial
    · cases res <;> cases heq <;> trivial
  | outcomeLog c call =>
    rcases logStep_cases h with ⟨call', -, heq⟩ | ⟨res, -, heq⟩
    · cases heq
      trivial
    · cases res <;> cases heq <;> trivial
  | upserting c count now rest =>
    cases rest with
    | nil => cases h; trivial
    | cons addr rest =>
      cases h
      unfold upsertNext
      split <;> trivial
  | enqueueing c count now rest key e =>
    cases h
    cases (enqueueStep S.digests sh key e).2 <;> trivial
  | abandoning f | finishing f =>
    simp only [taskStep, Option.some.injEq, Prod.mk.injEq, Option.map_eq_some_iff] at h
    obtain ⟨-, f', -, rfl⟩ := h
    trivial
  | everConnected | handshakeTimeout | handshakeFailed =>
    cases h
    exact retryOrFinish_decided ..
  | breakdown | outcomeWrite | handshaken =>
    cases h
    split <;> trivial
  | resending | connecting | sendVersion | handshaking | malformedGuard | messageGuard | shuffling =>
    simp only [taskStep] at h
    split at h <;> cases h <;> trivial
  | _ => cases h; trivial

/-- Every task knows the outcome it is going to write. -/
theorem decided {S : Setup} {ok : Conf Shared Pc → Nat × Answer → Prop} {c : Conf Shared Pc}
    (hr : Reach (program S) ok (start S) c) : ∀ pc ∈ c.threads, pc.Decided := by
  refine hr.invariant (I := fun c => ∀ pc ∈ c.threads, pc.Decided) ?_ ?_
  · intro pc hpc
    rcases mem_start hpc with rfl | rfl | rfl | rfl | ⟨t, rfl, -⟩ <;> trivial
  · intro c a c' _ ih _ hst pc hpc
    rcases mem_step_threads hst hpc with hold | ⟨u, hu, hp⟩
    · exact ih pc hold
    · rcases program_cases hp with ⟨_, _, rfl, rfl, -⟩ | ⟨_, _, rfl, rfl, -⟩ | ⟨_, _, rfl, rfl, -⟩ |
        ⟨_, rfl, rfl, -, -⟩ | ⟨t, p, p', rfl, rfl, hs⟩
      iterate 4 trivial
      rcases workerStep_cases hs with ⟨_, _, rfl, -, -, rfl⟩ | ⟨k, q, next, rfl, -, hstep, rfl⟩ |
        ⟨-, -, -, -, -, rfl⟩ | ⟨-, -, -, hstep⟩
      · trivial
      · cases next with
        | none => trivial
        | some q' => exact taskStep_decided hstep (ih _ (List.mem_of_getElem? hu))
      · trivial
      · cases p' with
        | task key q => cases loopStep_task hstep rfl; trivial
        | _ => trivial

/-- Counts the records of the outcome of a node. -/
def LogEvent.outcomeOf (k : AddrKey) (e : LogEvent) : ℕ :=
  if e.key = k ∧ e.isOutcome = true then 1 else 0

theorem recordMessage_outcome (parsed : ParsedAddrMessage) (x : NodeStats) :
    (recordMessage parsed x).collectionOutcome = x.collectionOutcome := by
  have hfold : ∀ (addrs : List AdvertisedAddr) (x : NodeStats),
      (addrs.foldl (fun s a => s.recordAdvertised a.network) x).collectionOutcome =
        x.collectionOutcome := by
    intro addrs
    induction addrs with
    | nil => exact fun x => rfl
    | cons a addrs ih =>
      intro x
      rw [List.foldl_cons, ih]
      cases a.network <;> rfl
  exact hfold parsed.addrs x

/-- **What a step does to an outcome** it starts to record. -/
theorem program_outcome {S : Setup} {sh sh' : Shared} {pc pc' : Pc} {a : Answer} (k : AddrKey)
    (h : program S sh pc a = some (sh', pc')) (hok : pc.WritesOf S)
    (hseen : k ∈ pc.keys → sh.store.Seen k) (hpanic : a.panic = true → pc.reads = 0) :
    (∃ t c outcome, pc = .worker t (.task k (.outcomeWrite c outcome)) ∧
      (sh'.store.counted k).collectionOutcome = outcome) ∨
    (sh'.store.counted k).collectionOutcome = (sh.store.counted k).collectionOutcome ∧
      (pc.starts S a.now).elim 0 (LogEvent.outcomeOf k) = 0 := by
  by_cases htask : ∃ t p, pc = .worker t (.task k p)
  · obtain ⟨t, p, rfl⟩ := htask
    cases hcalm : a.panic with
    | true =>
      have hguarded : p.guarded = false := by
        by_contra hg
        have hreads := hpanic hcalm
        simp [Pc.reads, hg] at hreads
      refine .inr ⟨by rw [counted_same h (.inl hcalm)], ?_⟩
      show (p.starts S k a.now).elim 0 (LogEvent.outcomeOf k) = 0
      rw [TaskPc.starts_of_not_guarded hguarded]
      rfl
    | false =>
      rw [counted_task h hcalm (hseen task_key_mem)]
      cases p with
      | outcomeWrite c outcome => exact .inl ⟨t, c, outcome, rfl, rfl⟩
      | breakdown c command parsed =>
        exact .inr ⟨recordMessage_outcome .., if_neg fun hboth => by cases hboth.2⟩
      | malformedCount c event =>
        obtain ⟨_, _, _, rfl⟩ := hok
        exact .inr ⟨rfl, if_neg fun hboth => by cases hboth.2⟩
      | _ => exact .inr ⟨rfl, rfl⟩
  · have hne : ∀ t p, pc ≠ .worker t (.task k p) := fun t p heq => htask ⟨t, p, heq⟩
    refine .inr ⟨by rw [counted_same h (.inr hne)], ?_⟩
    cases hstarts : pc.starts S a.now with
    | none => rfl
    | some e =>
      refine if_neg fun hboth => ?_
      unfold Pc.starts at hstarts
      split at hstarts
      · have hkey := TaskPc.starts_key hok hstarts
        rw [hboth.1] at hkey
        subst hkey
        exact hne _ _ rfl
      · cases hstarts

end P2PCrawler
