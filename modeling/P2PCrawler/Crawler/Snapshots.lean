import P2PCrawler.Crawler.Annals
import P2PCrawler.Crawler.Completion
import P2PCrawler.Crawler.Frontier
import P2PCrawler.Crawler.Labels

/-!
# The published snapshots

A checkpoint flushes the log and clones the store under the write side of the barrier; the last
snapshot is taken when every worker has been joined.

* `checkpoint_over` — when the main task writes, no checkpoint is being taken.
* `Taking` — what a snapshot in the making is going to hold.
* `logged_in_snapshots` — **every logged line up to the published watermark is in the snapshot or
  counted as rejected, and no freshest timestamp goes back from one snapshot to the next**.
-/

set_option autoImplicit false

namespace P2PCrawler

open ThreadPool

/-! ## The main task and the checkpoint task -/

/-- The main task does not wait for the checkpoint task any more. -/
def MainPc.concluding : MainPc → Bool
  | .finalFlush _ | .flushing .. | .marking _ | .writing .. | .finished => true
  | _ => false

/-- How far the main task and the checkpoint task are with each other. -/
def StopPhase (S : Setup) (sh : Shared) : Pc → Prop
  | .checkpoint p => (sh.checkpointDone = true → p = .exited) ∧ (S.checkpoints = false → p = .idle)
  | .main p => p.concluding = true → S.checkpoints = true → sh.checkpointDone = true
  | _ => True

theorem mainStep_conclude {S : Setup} {sh sh' : Shared} {a : Answer} {p p' : MainPc}
    (h : mainStep S sh a p = some (sh', p'))
    (hp : p.concluding = true → S.checkpoints = true → sh.checkpointDone = true) :
    (p'.concluding = true → S.checkpoints = true → sh.checkpointDone = true) ∧
      (sh'.checkpointing = sh.checkpointing ∨ sh'.checkpointing = S.checkpoints) := by
  cases p with
  | seeding rest =>
    cases rest with
    | nil => cases h; exact ⟨(fun h => by cases h), .inr rfl⟩
    | cons k rest =>
      cases h
      refine ⟨?_, .inl rfl⟩
      split <;> exact fun h => by cases h
  | seedEnqueue rest k e =>
    cases h
    obtain ⟨store, queue, enqueued, he⟩ := enqueueStep_frame S.digests sh k e
    rw [he]
    refine ⟨?_, .inl rfl⟩
    split <;> exact fun h => by cases h
  | joining joined =>
    simp only [mainStep] at h
    split at h
    · cases h; exact ⟨(fun h => by cases h), .inl rfl⟩
    · split at h <;> split at h <;> cases h <;> exact ⟨(fun h => by cases h), .inl rfl⟩
  | startCheck | checkWorkers =>
    cases h
    refine ⟨?_, .inl rfl⟩
    split <;> exact fun h => by cases h
  | awaitSignals =>
    simp only [mainStep] at h
    split at h <;> cases h
    exact ⟨(fun h => by cases h), .inl rfl⟩
  | stopping r =>
    simp only [mainStep] at h
    split at h
    · cases h; exact ⟨(fun h => by cases h), .inl rfl⟩
    · rename_i hno
      cases h
      exact ⟨fun _ hyes => absurd hyes hno, .inl rfl⟩
  | awaitCheckpoint r =>
    simp only [mainStep] at h
    split at h
    · rename_i hdone
      cases h
      exact ⟨fun _ _ => hdone, .inl rfl⟩
    · cases h
  | finalFlush r => cases h; exact ⟨fun _ => hp rfl, .inl rfl⟩
  | flushing r call =>
    obtain ⟨hsh, -⟩ := logStep_effect h
    rw [hsh]
    exact ⟨fun _ => hp rfl, .inl rfl⟩
  | marking r => cases h; exact ⟨fun _ => hp rfl, .inl rfl⟩
  | writing r logOk durable =>
    simp only [mainStep] at h
    split at h <;> cases h <;> exact ⟨fun _ => hp rfl, .inl rfl⟩
  | finished => cases h
  | _ => cases h; exact ⟨(fun h => by cases h), .inl rfl⟩

theorem checkpointStep_stop {S : Setup} {sh sh' : Shared} {a : Answer} {p p' : CheckpointPc}
    (h : checkpointStep S sh a p = some (sh', p')) (hp : sh.checkpointDone = true → p = .exited) :
    (sh'.checkpointDone = true → p' = .exited) ∧ (p = .idle → sh.checkpointing = true) := by
  have hnot : p ≠ .exited → sh.checkpointDone = false := fun hne => by
    by_contra hdone
    exact hne (hp (by simpa using hdone))
  cases p with
  | idle =>
    have hdone := hnot (fun h => by cases h)
    simp only [checkpointStep] at h
    split at h
    · cases h
    · rename_i hon
      refine ⟨?_, fun _ => by simpa using hon⟩
      split at h
      · cases h
        intro hyes
        rw [hdone] at hyes
        cases hyes
      · split at h <;> cases h
        exact fun _ => rfl
  | leaving => cases h; exact ⟨fun _ => rfl, (fun h => by cases h)⟩
  | acquiring processed =>
    simp only [checkpointStep] at h
    split at h <;> cases h
    exact ⟨fun hdone => (by cases (hnot (fun h => by cases h)).symm.trans hdone), (fun h => by cases h)⟩
  | flushing processed call =>
    obtain ⟨hsh, -⟩ := logStep_effect h
    refine ⟨fun hdone => ?_, (fun h => by cases h)⟩
    rw [hsh] at hdone
    cases (hnot (fun h => by cases h)).symm.trans hdone
  | cloning processed durable rest acc =>
    cases rest <;> cases h <;>
      exact ⟨fun hdone => (by cases (hnot (fun h => by cases h)).symm.trans hdone), (fun h => by cases h)⟩
  | publishing m =>
    cases h
    refine ⟨fun hdone => ?_, (fun h => by cases h)⟩
    have hsame : sh.checkpointDone = true := by
      split at hdone <;> exact hdone
    cases (hnot (fun h => by cases h)).symm.trans hsame
  | exited => cases h
  | _ =>
    cases h
    exact ⟨fun hdone => (by cases (hnot (fun h => by cases h)).symm.trans hdone), (fun h => by cases h)⟩

/-- The flags the two tasks tell each other by are theirs. -/
theorem program_stopFlags {S : Setup} {sh sh' : Shared} {pc pc' : Pc} {a : Answer}
    (h : program S sh pc a = some (sh', pc')) (hm : ∀ p, pc ≠ .main p) :
    sh'.checkpointing = sh.checkpointing ∧
      ((∀ p, pc ≠ .checkpoint p) → sh'.checkpointDone = sh.checkpointDone) := by
  rcases program_cases h with ⟨p, p', rfl, rfl, hs⟩ | ⟨p, p', rfl, rfl, hs⟩ |
    ⟨p, p', rfl, rfl, hs⟩ | ⟨L, rfl, rfl, -, rfl⟩ | ⟨t, p, p', rfl, rfl, hs⟩
  · exact absurd rfl (hm p)
  · obtain ⟨_, _, _, _, rfl⟩ := signalStep_frame hs
    exact ⟨rfl, fun _ => rfl⟩
  · obtain ⟨_, _, _, _, _, rfl⟩ := checkpointStep_frame hs
    exact ⟨rfl, fun hc => absurd rfl (hc p)⟩
  · exact ⟨rfl, fun _ => rfl⟩
  · rcases workerStep_cases hs with ⟨k, q, rfl, -, rfl, rfl⟩ | ⟨k, q, next, rfl, -, hstep, rfl⟩ |
      ⟨-, -, -, -, rfl, rfl⟩ | ⟨-, -, -, hstep⟩
    · exact ⟨rfl, fun _ => rfl⟩
    · obtain ⟨_, _, _, _, _, _, rfl⟩ := (taskStep_frame hstep).eq
      exact ⟨rfl, fun _ => rfl⟩
    · exact ⟨rfl, fun _ => rfl⟩
    · obtain ⟨_, _, _, _, _, _, _, rfl, -⟩ := loopStep_frame hstep
      exact ⟨rfl, fun _ => rfl⟩

theorem stop_phases {S : Setup} {ok : Conf Shared Pc → Nat × Answer → Prop} {c : Conf Shared Pc}
    (hr : Reach (program S) ok (start S) c) :
    Holds (StopPhase S) c ∧ (c.shared.checkpointing = true → S.checkpoints = true) := by
  refine hr.invariant (I := fun c => Holds (StopPhase S) c ∧
    (c.shared.checkpointing = true → S.checkpoints = true)) ?_ ?_
  · refine ⟨?_, nofun⟩
    intro i pc hpc
    rcases mem_start (List.mem_of_getElem? hpc) with rfl | rfl | rfl | rfl | ⟨t, rfl, -⟩
    · exact nofun
    · trivial
    · exact ⟨nofun, fun _ => rfl⟩
    · trivial
    · trivial
  intro c a c' hr ⟨ih, ihon⟩ _ hst
  constructor
  · refine ih.step hst ?_ ?_
    · intro pc sh' pc' hpc hp
      have hi := ih _ _ hpc
      rcases program_cases hp with ⟨p, p', rfl, rfl, hs⟩ | ⟨p, p', rfl, rfl, hs⟩ |
        ⟨p, p', rfl, rfl, hs⟩ | ⟨L, rfl, rfl, -, -⟩ | ⟨t, p, p', rfl, rfl, hs⟩
      · have hsame : sh'.checkpointDone = c.shared.checkpointDone := by
          obtain ⟨-, -, -, -, -, -, hsame, -⟩ := mainStep_frame hs
          exact hsame
        show p'.concluding = true → S.checkpoints = true → sh'.checkpointDone = true
        rw [hsame]
        exact (mainStep_conclude hs hi).1
      · trivial
      · obtain ⟨hdone, hidle⟩ := checkpointStep_stop hs hi.1
        refine ⟨hdone, fun hoff => ?_⟩
        have hon := ihon (hidle (hi.2 hoff))
        rw [hoff] at hon
        cases hon
      · trivial
      · trivial
    · intro pc sh' pc' j u hpc hp hj hu hold
      by_cases hc : ∃ p, pc = .checkpoint p
      · -- Once it has exited, the checkpoint task does not move.
        obtain ⟨p, rfl⟩ := hc
        have hrun : c.shared.checkpointDone = false := by
          by_contra hdone
          have hexit := (ih _ _ hpc).1 (by simpa using hdone)
          rw [hexit] at hp
          rcases program_cases hp with ⟨_, _, heq, -⟩ | ⟨_, _, heq, -⟩ | ⟨_, _, heq, -, hs⟩ |
            ⟨_, heq, -⟩ | ⟨_, _, _, heq, -⟩ <;> cases heq
          cases hs
        cases u with
        | main q =>
          intro hq hon
          have := hold hq hon
          rw [hrun] at this
          cases this
        | checkpoint q => exact absurd ((checkpoint_index hr hu).trans (checkpoint_index hr hpc).symm) hj
        | _ => trivial
      · have hsame : sh'.checkpointDone = c.shared.checkpointDone := by
          by_cases hm : ∃ p, pc = .main p
          · obtain ⟨p, rfl⟩ := hm
            rcases program_cases hp with ⟨_, _, heq, -, hs⟩ | ⟨_, _, heq, -⟩ | ⟨_, _, heq, -⟩ |
              ⟨_, heq, -⟩ | ⟨_, _, _, heq, -⟩ <;> cases heq
            obtain ⟨-, -, -, -, -, -, hsame, -⟩ := mainStep_frame hs
            exact hsame
          · exact (program_stopFlags hp fun p hp => hm ⟨p, hp⟩).2 fun p hp => hc ⟨p, hp⟩
        cases u with
        | main q | checkpoint q =>
          simp only [StopPhase, hsame] at hold ⊢
          exact hold
        | _ => trivial
  · obtain ⟨pc, sh', pc', hpc, hp, rfl⟩ := step_cases hst
    intro hon
    by_cases hm : ∃ p, pc = .main p
    · obtain ⟨p, rfl⟩ := hm
      rcases program_cases hp with ⟨_, _, heq, -, hs⟩ | ⟨_, _, heq, -⟩ | ⟨_, _, heq, -⟩ |
        ⟨_, heq, -⟩ | ⟨_, _, _, heq, -⟩ <;> cases heq
      rcases (mainStep_conclude hs (ih _ _ hpc)).2 with hsame | hsame
      · exact ihon (hsame.symm.trans hon)
      · exact hsame.symm.trans hon
    · exact ihon ((program_stopFlags hp fun p hp => hm ⟨p, hp⟩).1.symm.trans hon)

/-- When the main task concludes, the checkpoint task has exited or has never started. -/
theorem checkpoint_over {S : Setup} {ok : Conf Shared Pc → Nat × Answer → Prop} {c : Conf Shared Pc}
    (hr : Reach (program S) ok (start S) c) {p : MainPc} {q : CheckpointPc}
    (hmain : Pc.main p ∈ c.threads) (hp : p.concluding = true) (hq : Pc.checkpoint q ∈ c.threads) :
    q = .exited ∨ q = .idle := by
  have hphases := (stop_phases hr).1
  obtain ⟨hexit, hidle⟩ := hphases.of_mem hq
  cases hon : S.checkpoints with
  | true => exact .inl (hexit (hphases.of_mem hmain hp hon))
  | false => exact .inr (hidle hon)

/-! ## What a snapshot holds -/

/-- The entries have the key, with a freshest timestamp of at least `ts`. -/
def SnapshotHolds (entries : List (AddrKey × NodeEntry)) (k : AddrKey) (ts : Int) : Prop :=
  ∃ e, (k, e) ∈ entries ∧ ts ≤ e.freshestTs

/-- Every line of an enabled network in a block up to the event `w` is held, unless its
    observations were all turned down and counted. -/
def LinesHeld (S : Setup) (written : List Piece) (w : Nat) (counted : List Rejection)
    (holds : AddrKey → Int → Prop) : Prop :=
  ∀ p ∈ written, p.eventId ≤ w → ∀ r parsed, p.event = .block r parsed →
    ∀ a ∈ parsed.addrs, S.settings.isEnabled a.network = true →
      holds ⟨a.host, a.port⟩ a.timestamp ∨
        parsed.addrs.count a ≤ counted.count (.line (some p.eventId) a)

theorem LinesHeld.mono {S : Setup} {written more : List Piece} {w : Nat}
    {counted counted' : List Rejection} {holds holds' : AddrKey → Int → Prop}
    (h : LinesHeld S written w counted holds) (hmore : ∀ p ∈ more, w < p.eventId)
    (hcount : ∀ x, counted.count x ≤ counted'.count x)
    (hholds : ∀ k ts, holds k ts → holds' k ts) :
    LinesHeld S (written ++ more) w counted' holds' := by
  intro p hp hid r parsed hevent a ha hnet
  rcases List.mem_append.mp hp with hp | hp
  · rcases h p hp hid r parsed hevent a ha hnet with hheld | hall
    · exact .inl (hholds _ _ hheld)
    · exact .inr (hall.trans (hcount _))
  · have := hmore p hp
    omega

theorem holds_snapshot {s : NodeStore} {k : AddrKey} {ts : Int} :
    SnapshotHolds s.snapshot k ts ↔ s.Covers k ts := by
  unfold SnapshotHolds NodeStore.Covers
  simp only [NodeStore.mem_snapshot]

/-- What the snapshot a thread is taking will hold; before it has begun, what the store covers. -/
def Pc.WillHold (sh : Shared) : Pc → AddrKey → Int → Prop
  | .checkpoint (.cloning _ _ rest acc), k, ts =>
    (k ∈ rest ∧ sh.store.Covers k ts) ∨ SnapshotHolds acc k ts
  | .checkpoint (.publishing m), k, ts => SnapshotHolds m.snapshot k ts
  | _, k, ts => sh.store.Covers k ts

/-- The watermark that goes with it. -/
def Pc.durable : Pc → Option Nat
  | .checkpoint (.snapshotting _ durable) | .checkpoint (.cloning _ durable _ _)
  | .main (.writing _ _ durable) => durable
  | .checkpoint (.publishing m) => m.durableEventId
  | _ => none

/-- The rejections that it counts. -/
def Pc.counted (g : Annals) : Pc → List Rejection
  | .checkpoint (.publishing m) => g.rejected.take m.budgetRejected
  | _ => g.rejected

/-- What has been cloned. -/
def Pc.cloned : Pc → List (AddrKey × NodeEntry)
  | .checkpoint (.cloning _ _ _ acc) => acc
  | .checkpoint (.publishing m) => m.snapshot
  | _ => []

/-- The keys that are still to be cloned. -/
def Pc.uncloned : Pc → List AddrKey
  | .checkpoint (.cloning _ _ rest _) => rest
  | _ => []

/-- The threads at which a snapshot is being taken. -/
def Pc.taking : Pc → Bool
  | .checkpoint (.cloning ..) | .checkpoint (.publishing _) => true
  | _ => false

theorem Pc.willHold_of_not_taking {sh : Shared} {pc : Pc} (h : pc.taking = false) :
    pc.WillHold sh = sh.store.Covers := by
  unfold taking at h
  split at h
  · cases h
  · cases h
  · rename_i hclone hpub
    funext k ts
    cases pc with
    | checkpoint p =>
      cases p with
      | cloning processed durable rest acc => exact absurd rfl (hclone processed durable rest acc)
      | publishing m => exact absurd rfl (hpub m)
      | _ => rfl
    | _ => rfl

/-- A published snapshot and a later one. -/
def Newer (m m' : Manifest) : Prop :=
  ∀ x ∈ m.snapshot, SnapshotHolds m'.snapshot x.1 x.2.freshestTs

/-- What the position of a thread says about the snapshot it is taking. -/
structure Taking (S : Setup) (c : Conf Shared Pc) (g : Annals) (pc : Pc) : Prop where
  lines : ∀ w, pc.durable = some w → w ≤ c.shared.log.written.length ∧
    LinesHeld S c.shared.log.written w (pc.counted g) (pc.WillHold c.shared)
  newer : ∀ m ∈ g.published, ∀ x ∈ m.snapshot, pc.WillHold c.shared x.1 x.2.freshestTs
  known : ∀ x ∈ pc.cloned, c.shared.store.Covers x.1 x.2.freshestTs
  distinct : (pc.cloned.map Prod.fst ++ pc.uncloned).Nodup
  rejections : ∀ m, pc = .checkpoint (.publishing m) → m.budgetRejected ≤ g.rejected.length

/-- What a published manifest says about the log. -/
structure Recorded (S : Setup) (c : Conf Shared Pc) (g : Annals) (m : Manifest) : Prop where
  lines : ∀ w, m.durableEventId = some w → w ≤ c.shared.log.written.length ∧
    LinesHeld S c.shared.log.written w (g.rejected.take m.budgetRejected)
      (SnapshotHolds m.snapshot)
  distinct : (m.snapshot.map Prod.fst).Nodup
  rejections : m.budgetRejected ≤ g.rejected.length

/-- The snapshots of a run. -/
structure Snapshots (S : Setup) (c : Conf Shared Pc) (g : Annals) : Prop where
  taking : ∀ pc ∈ c.threads, Taking S c g pc
  recorded : ∀ m ∈ g.published, Recorded S c g m
  newer : g.published.Pairwise Newer

/-! ## One step -/

/-- What every step does for those who do not move. -/
structure Advance (c c' : Conf Shared Pc) (g g' : Annals) : Prop where
  covers : ∀ k ts, c.shared.store.Covers k ts → c'.shared.store.Covers k ts
  rejected : ∃ more, g'.rejected = g.rejected ++ more
  written : ∃ more, c'.shared.log.written = c.shared.log.written ++ more ∧
    ∀ p ∈ more, c.shared.log.written.length < p.eventId

section Step
variable {S : Setup} {c c' : Conf Shared Pc} {g g' : Annals} {a : Nat × Answer}

theorem advance (hr : Reach (program S) Undisturbed (start S) c) (hok : Undisturbed c a)
    (hst : ThreadPool.step (program S) c a = some c') (g : Annals) :
    Advance c c' g (g.record c a c') := by
  refine ⟨?_, g.record_rejected c c' a, ?_⟩
  · obtain ⟨pc, sh', pc', -, hp, rfl⟩ := step_cases hst
    exact fun _ _ => (step_effect hp).covers
  · rcases undisturbed_written hr hok hst with
      hsame | ⟨_, _, event, eventId, _, -, -, -, hid, hmore⟩
    · exact ⟨[], by rw [hsame, List.append_nil], fun p hp => by cases hp⟩
    · refine ⟨[⟨eventId, event, none⟩], hmore, fun p hp => ?_⟩
      rw [List.mem_singleton.mp hp]
      show _ < eventId
      omega

variable (ha : Advance c c' g g')
include ha

/-- More rejections, of which the first ones stay. -/
theorem Advance.counted (x : Rejection) (n : Nat) :
    g.rejected.count x ≤ g'.rejected.count x ∧
      (g.rejected.take n).count x ≤ (g'.rejected.take n).count x := by
  obtain ⟨more, hmore⟩ := ha.rejected
  rw [hmore, List.take_append, List.count_append, List.count_append]
  omega

theorem Advance.length : g.rejected.length ≤ g'.rejected.length ∧
    c.shared.log.written.length ≤ c'.shared.log.written.length := by
  obtain ⟨more, hmore⟩ := ha.rejected
  obtain ⟨pieces, hpieces, -⟩ := ha.written
  rw [hmore, hpieces, List.length_append, List.length_append]
  omega

/-- Lines stay held. -/
theorem Advance.lines {w : Nat} {counted counted' : List Rejection}
    {holds holds' : AddrKey → Int → Prop} (hw : w ≤ c.shared.log.written.length)
    (h : LinesHeld S c.shared.log.written w counted holds)
    (hcount : ∀ x, counted.count x ≤ counted'.count x)
    (hholds : ∀ k ts, holds k ts → holds' k ts) :
    LinesHeld S c'.shared.log.written w counted' holds' := by
  obtain ⟨more, hmore, hids⟩ := ha.written
  rw [hmore]
  exact h.mono (fun p hp => Nat.lt_of_le_of_lt hw (hids p hp)) hcount hholds

theorem Advance.willHold {pc : Pc} {k : AddrKey} {ts : Int} (h : pc.WillHold c.shared k ts) :
    pc.WillHold c'.shared k ts := by
  cases pc with
  | checkpoint p =>
    cases p with
    | cloning processed durable rest acc =>
      rcases h with ⟨hk, hc⟩ | h
      · exact .inl ⟨hk, ha.covers k ts hc⟩
      · exact .inr h
    | publishing m => exact h
    | _ => exact ha.covers k ts h
  | _ => exact ha.covers k ts h

theorem Advance.recorded {m : Manifest} (h : Recorded S c g m) : Recorded S c' g' m := by
  refine ⟨fun w hw => ?_, h.distinct, h.rejections.trans ha.length.1⟩
  obtain ⟨hle, hlines⟩ := h.lines w hw
  exact ⟨hle.trans ha.length.2,
    ha.lines hle hlines (fun x => (ha.counted x _).2) fun _ _ => id⟩

/-- A thread that does not move keeps its snapshot, if it is not passed by a newer one. -/
theorem Advance.taking {pc : Pc} (h : Taking S c g pc)
    (hnew : ∀ m ∈ g'.published, m ∉ g.published → ∀ x ∈ m.snapshot,
      pc.WillHold c'.shared x.1 x.2.freshestTs) : Taking S c' g' pc := by
  constructor
  · intro w hw
    obtain ⟨hle, hlines⟩ := h.lines w hw
    refine ⟨hle.trans ha.length.2, ha.lines hle hlines (fun x => ?_) fun _ _ => ha.willHold⟩
    unfold Pc.counted
    split
    · exact (ha.counted x _).2
    · exact (ha.counted x 0).1
  · intro m hm x hx
    by_cases hold : m ∈ g.published
    · exact ha.willHold (h.newer m hold x hx)
    · exact hnew m hm hold x hx
  · exact fun x hx => ha.covers _ _ (h.known x hx)
  · exact h.distinct
  · exact fun m hm => (h.rejections m hm).trans ha.length.1

end Step

/-! ## Taking a snapshot -/

section Flush
variable {S : Setup} {c : Conf Shared Pc} {g : Annals}

/-- Where nobody holds a read guard, every line in the log is covered or counted. -/
theorem settled_lines (ht : Told S Undisturbed c g)
    (hfree : ∀ t k q, Pc.worker t (.task k q) ∈ c.threads → q.guarded = false) (w : Nat) :
    LinesHeld S c.shared.log.written w g.rejected c.shared.store.Covers := by
  intro p hp _ r parsed hevent a ha hnet
  have hmem : a ∈ enabledAddrs S.settings parsed := List.mem_filter.mpr ⟨ha, hnet⟩
  have hcount : (enabledAddrs S.settings parsed).count a = parsed.addrs.count a :=
    List.count_filter hnet
  rcases blocks_settled ht hfree hp hevent a hmem with hc | hall
  · exact .inl hc
  · rw [hcount, List.count_nil] at hall
    exact .inr hall

/-- A flush reports the id of a record that is in the file. -/
theorem flush_reported (hr : Reach (program S) Undisturbed (start S) c) {pc : Pc}
    (hpc : pc ∈ c.threads) {call : LogCall} (hcall : pc.call = some call)
    (hflush : call.request = .flush) {L : LogState} {w : Nat}
    (hs : call.step c.shared.log = some (L, .returned (some w))) :
    w ≤ c.shared.log.written.length := by
  obtain ⟨r, eventId, ticket, rfl, hreply, -⟩ := LogCall.step_returned hs
  cases hflush
  obtain ⟨i, hi⟩ := List.getElem?_of_mem hpc
  have hk : callsOf Pc.call c.threads i = some (.wait .flush eventId ticket) := by
    unfold callsOf
    rw [hi]
    exact hcall
  obtain ⟨hw, hturn⟩ := (undisturbed_log hr).turn hk rfl
  obtain ⟨-, -, hres⟩ := hturn.leave hreply
  have heq : w = lastComplete c.shared.log.written := by
    rcases hres with hres | hres
    · cases hres
    · cases hres
      exact hw.durable
  rw [heq]
  exact lastComplete_le hw.numbered

/-- What has been published is covered. -/
theorem Taking.covered {pc : Pc} (h : Taking S c g pc) {m : Manifest} (hm : m ∈ g.published)
    {x : AddrKey × NodeEntry} (hx : x ∈ m.snapshot) :
    c.shared.store.Covers x.1 x.2.freshestTs := by
  have hheld := h.newer m hm x hx
  have hknown : ∀ {k : AddrKey} {ts : Int}, SnapshotHolds pc.cloned k ts →
      c.shared.store.Covers k ts := by
    rintro k ts ⟨e, he, hts⟩
    exact (h.known (k, e) he).le hts
  cases pc with
  | checkpoint p =>
    cases p with
    | cloning processed durable rest acc =>
      rcases hheld with ⟨-, hc⟩ | hheld
      · exact hc
      · exact hknown hheld
    | publishing m' => exact hknown hheld
    | _ => exact hheld
  | _ => exact hheld

/-- A thread that takes no snapshot. -/
theorem Taking.of_idle {pc : Pc} (htaking : pc.taking = false) (hdurable : pc.durable = none)
    (hcov : ∀ m ∈ g.published, ∀ x ∈ m.snapshot, c.shared.store.Covers x.1 x.2.freshestTs) :
    Taking S c g pc := by
  have hnone : pc.cloned = [] ∧ pc.uncloned = [] ∧ ∀ m, pc ≠ .checkpoint (.publishing m) := by
    cases pc with
    | checkpoint p => cases p <;> first | exact ⟨rfl, rfl, nofun⟩ | cases htaking
    | _ => exact ⟨rfl, rfl, nofun⟩
  obtain ⟨hcloned, huncloned, hpub⟩ := hnone
  refine ⟨?_, ?_, ?_, ?_, ?_⟩
  · rw [hdurable]
    exact nofun
  · rw [Pc.willHold_of_not_taking htaking]
    exact hcov
  · rw [hcloned]
    intro x hx
    cases hx
  · rw [hcloned, huncloned]
    exact List.nodup_nil
  · exact fun m hm => absurd hm (hpub m)

end Flush

/-- Only the answer of the last flush gives the main task a watermark. -/
theorem mainStep_durable {S : Setup} {sh sh' : Shared} {a : Answer} {p p' : MainPc}
    (h : mainStep S sh a p = some (sh', p')) {w : Nat} (hw : (Pc.main p').durable = some w) :
    ∃ r call, p = .flushing r call ∧ call.step sh.log = some (sh'.log, .returned (some w)) := by
  cases p with
  | flushing r call =>
    rcases logStep_cases h with ⟨call', -, rfl⟩ | ⟨res, hs, rfl⟩
    · cases hw
    · cases res with
      | none => cases hw
      | some id =>
        cases hw
        exact ⟨r, call, rfl, hs⟩
  | finalFlush r =>
    cases h
    split at hw <;> cases hw
  | seeding rest =>
    cases rest with
    | nil => cases h; cases hw
    | cons k rest =>
      cases h
      split at hw <;> cases hw
  | seedEnqueue rest k e =>
    cases h
    split at hw <;> cases hw
  | joining | awaitSignals | awaitCheckpoint | stopping | writing =>
    simp only [mainStep] at h
    repeat' split at h
    all_goals cases h
    all_goals cases hw
  | startCheck | checkWorkers =>
    cases h
    split at hw <;> cases hw
  | finished => cases h
  | _ => cases h; cases hw

section Clone
variable {S : Setup} {c c' : Conf Shared Pc} {g g' : Annals}

/-- The same snapshot, one step later. -/
theorem Taking.follow {pc pc' : Pc} (h : Taking S c g pc) (ha : Advance c c' g g')
    (hpub : g'.published = g.published) (hdurable : pc'.durable = pc.durable)
    (hcount : ∀ x, (pc.counted g).count x ≤ (pc'.counted g').count x)
    (hholds : ∀ k ts, pc.WillHold c.shared k ts → pc'.WillHold c'.shared k ts)
    (hknown : ∀ x ∈ pc'.cloned, x ∈ pc.cloned ∨ c'.shared.store.entry x.1 = some x.2)
    (hdistinct : (pc'.cloned.map Prod.fst ++ pc'.uncloned).Nodup)
    (hrejections : ∀ m, pc' = .checkpoint (.publishing m) → m.budgetRejected ≤ g'.rejected.length) :
    Taking S c' g' pc' := by
  refine ⟨fun w hw => ?_, ?_, fun x hx => ?_, hdistinct, hrejections⟩
  · obtain ⟨hle, hlines⟩ := h.lines w (hdurable ▸ hw)
    exact ⟨hle.trans ha.length.2, ha.lines hle hlines hcount hholds⟩
  · rw [hpub]
    exact fun m hm x hx => hholds _ _ (h.newer m hm x hx)
  · rcases hknown x hx with hold | hentry
    · exact ha.covers _ _ (h.known x hold)
    · exact ⟨x.2, hentry, le_refl _⟩

/-- Cloning an entry. -/
theorem clone_holds {s : NodeStore} {k : AddrKey} {rest : List AddrKey}
    {acc : List (AddrKey × NodeEntry)} {k' : AddrKey} {ts : Int}
    (h : (k' ∈ k :: rest ∧ s.Covers k' ts) ∨ SnapshotHolds acc k' ts) :
    (k' ∈ rest ∧ s.Covers k' ts) ∨
      SnapshotHolds (match s.entry k with | some e => acc ++ [(k, e)] | none => acc) k' ts := by
  have hacc : SnapshotHolds acc k' ts →
      SnapshotHolds (match s.entry k with | some e => acc ++ [(k, e)] | none => acc) k' ts := by
    rintro ⟨e, he, hts⟩
    refine ⟨e, ?_, hts⟩
    split
    · exact List.mem_append_left _ he
    · exact he
  rcases h with ⟨hk, e, he, hts⟩ | h
  · rcases List.mem_cons.mp hk with rfl | hk
    · right
      rw [he]
      exact ⟨e, List.mem_append_right _ (List.mem_singleton.mpr rfl), hts⟩
    · exact .inl ⟨hk, e, he, hts⟩
  · exact .inr (hacc h)

/-- **One step of the checkpoint task.** -/
theorem checkpoint_taking {p p' : CheckpointPc} {a : Answer} (ht : Told S Undisturbed c g)
    (hmem : Pc.checkpoint p ∈ c.threads) (hs : checkpointStep S c.shared a p = some (c'.shared, p'))
    (h : Taking S c g (.checkpoint p)) (ha : Advance c c' g g')
    (hpub : (∀ m, p ≠ .publishing m) → g'.published = g.published)
    (hcov : ∀ m ∈ g'.published, ∀ x ∈ m.snapshot, c'.shared.store.Covers x.1 x.2.freshestTs) :
    Taking S c' g' (.checkpoint p') := by
  have hstore : c'.shared.store = c.shared.store := by
    obtain ⟨_, _, _, _, _, heq⟩ := checkpointStep_frame hs
    rw [heq]
  have hcounted : ∀ x, g.rejected.count x ≤ g'.rejected.count x := fun x => (ha.counted x 0).1
  cases p with
  | idle =>
    simp only [checkpointStep] at hs
    repeat' split at hs
    all_goals simp only [Option.some.injEq, Prod.mk.injEq, reduceCtorEq] at hs
    all_goals obtain ⟨-, rfl⟩ := hs
    all_goals exact .of_idle rfl rfl hcov
  | acquiring processed =>
    simp only [checkpointStep] at hs
    split at hs
    · cases hs
    · simp only [Option.some.injEq, Prod.mk.injEq] at hs
      obtain ⟨-, rfl⟩ := hs
      split <;> exact .of_idle rfl rfl hcov
  | flushing processed call =>
    rcases logStep_cases hs with ⟨call', -, rfl⟩ | ⟨res, hcall, rfl⟩
    · exact .of_idle rfl rfl hcov
    · cases res with
      | none => exact .of_idle rfl rfl hcov
      | some w =>
        -- No worker is between its record and the end of its frontier loop.
        have hflush : call.request = .flush := (writers_ok ht.reach).1 _ hmem
        have hle := flush_reported ht.reach hmem rfl hflush hcall
        have hfree : ∀ t k q, Pc.worker t (.task k q) ∈ c.threads → q.guarded = false :=
          fun t k q hq => (barrier ht.reach).nobody_guarded hmem rfl hq
        refine ⟨fun w' hw' => ?_, hcov, ?_, List.nodup_nil, fun _ h => by cases h⟩
        · cases hw'
          exact ⟨hle.trans ha.length.2,
            ha.lines hle (settled_lines ht hfree w) hcounted ha.covers⟩
        · intro x hx
          cases hx
  | snapshotting processed durable =>
    simp only [checkpointStep, Option.some.injEq, Prod.mk.injEq] at hs
    obtain ⟨-, rfl⟩ := hs
    refine h.follow ha (hpub fun _ h => by cases h) rfl hcounted ?_ ?_ ?_ fun _ h => by cases h
    · intro k ts hc
      obtain ⟨e, he, hts⟩ := hc
      refine .inl ⟨?_, e, by rw [hstore]; exact he, hts⟩
      exact AList.lookup_isSome.mp (by rw [show c.shared.store.map.lookup k = some e from he]; rfl)
    · intro x hx
      cases hx
    · exact AList.keys_nodup _
  | cloning processed durable rest acc =>
    cases rest with
    | nil =>
      simp only [checkpointStep, Option.some.injEq, Prod.mk.injEq] at hs
      obtain ⟨-, rfl⟩ := hs
      have hall : g'.rejected.take c.shared.store.budgetRejected = g.rejected := by
        obtain ⟨more, hmore⟩ := ha.rejected
        rw [hmore, ← rejected_counted ht, List.take_left]
      refine h.follow ha (hpub fun _ h => by cases h) rfl ?_ ?_ (fun x hx => .inl hx) h.distinct ?_
      · intro x
        show g.rejected.count x ≤ (g'.rejected.take c.shared.store.budgetRejected).count x
        rw [hall]
      · rintro k ts (⟨hk, -⟩ | hheld)
        · cases hk
        · exact hheld
      · rintro m hm
        cases hm
        exact (rejected_counted ht).ge.trans ha.length.1
    | cons k rest =>
      simp only [checkpointStep, Option.some.injEq, Prod.mk.injEq] at hs
      obtain ⟨-, rfl⟩ := hs
      refine h.follow ha (hpub fun _ h => by cases h) rfl hcounted ?_ ?_ ?_ fun _ h => by cases h
      · intro k' ts hheld
        rcases clone_holds hheld with ⟨hk, hc⟩ | hheld
        · exact .inl ⟨hk, ha.covers _ _ hc⟩
        · exact .inr hheld
      · intro x hx
        change x ∈ (match c.shared.store.entry k with | some e => acc ++ [(k, e)] | none => acc) at hx
        split at hx
        · rename_i e he
          rcases List.mem_append.mp hx with hx | hx
          · exact .inl hx
          · rw [List.mem_singleton.mp hx, hstore]
            exact .inr he
        · exact .inl hx
      · have hold : (acc.map Prod.fst ++ k :: rest).Nodup := h.distinct
        show ((match c.shared.store.entry k with
          | some e => acc ++ [(k, e)] | none => acc).map Prod.fst ++ rest).Nodup
        split
        · rw [List.map_append, List.append_assoc]
          exact hold
        · exact hold.sublist ((List.sublist_cons_self k rest).append_left _)
  | exited => cases hs
  | _ =>
    simp only [checkpointStep, Option.some.injEq, Prod.mk.injEq] at hs
    obtain ⟨-, rfl⟩ := hs
    exact .of_idle rfl rfl hcov

end Clone

/-! ## Publishing a snapshot -/

/-- The thread is about to publish the manifest. -/
inductive Publishes (c : Conf Shared Pc) (m : Manifest) : Pc → Prop where
  | checkpoint : Publishes c m (.checkpoint (.publishing m))
  | last {r : CrawlResult} {logOk : Bool} {durable : Option Nat}
      (h : m = c.shared.finalManifest r logOk durable) :
      Publishes c m (.main (.writing r logOk durable))

/-- **One step of the main task.** -/
theorem main_taking {S : Setup} {c c' : Conf Shared Pc} {g g' : Annals} {p p' : MainPc}
    {a : Answer} {i : Nat} (ht : Told S Undisturbed c g) (hpc : c.threads[i]? = some (.main p))
    (hs : mainStep S c.shared a p = some (c'.shared, p')) (ha : Advance c c' g g')
    (hcov : ∀ m ∈ g'.published, ∀ x ∈ m.snapshot, c'.shared.store.Covers x.1 x.2.freshestTs) :
    Taking S c' g' (.main p') := by
  cases hdurable : (Pc.main p').durable with
  | none => exact .of_idle rfl hdurable hcov
  | some w =>
    obtain ⟨r, call, rfl, hcall⟩ := mainStep_durable hs hdurable
    have hr := ht.reach
    have hmem := List.mem_of_getElem? hpc
    have hflush : call.request = .flush := (writers_ok hr).1 _ hmem
    have hle := flush_reported hr hmem rfl hflush hcall
    -- Every worker has been joined.
    have hzero : c.threads[0]? = some (.main (.flushing r call)) := by
      rw [← main_index hr hpc]
      exact hpc
    have hfree : ∀ t k q, Pc.worker t (.task k q) ∈ c.threads → q.guarded = false := by
      intro t k q hq
      cases (joined_all hr hzero rfl).2.2 t _ hq
    refine ⟨fun w' hw' => ?_, hcov, ?_, List.nodup_nil, nofun⟩
    · rw [hdurable] at hw'
      cases hw'
      exact ⟨hle.trans ha.length.2,
        ha.lines hle (settled_lines ht hfree w) (fun x => (ha.counted x 0).1) ha.covers⟩
    · intro x hx
      cases hx

section Publish
variable {S : Setup} {c c' : Conf Shared Pc} {g : Annals} {a : Nat × Answer} {pc : Pc}

/-- What is published is recorded, newer than what has been published, and covered. -/
theorem Publishes.recorded {m : Manifest} (hpub : Publishes c m pc) (ht : Told S Undisturbed c g)
    (h : Taking S c g pc) :
    Recorded S c g m ∧ (∀ m₀ ∈ g.published, Newer m₀ m) ∧
      ∀ x ∈ m.snapshot, c.shared.store.Covers x.1 x.2.freshestTs := by
  cases hpub with
  | checkpoint =>
    refine ⟨⟨h.lines, ?_, h.rejections m rfl⟩, h.newer, h.known⟩
    have hdistinct : (m.snapshot.map Prod.fst ++ []).Nodup := h.distinct
    rwa [List.append_nil] at hdistinct
  | last hm =>
    subst hm
    refine ⟨⟨fun w hw => ?_, NodeStore.distinct_snapshot _, (rejected_counted ht).ge⟩, ?_, ?_⟩
    · obtain ⟨hle, hlines⟩ := h.lines w hw
      refine ⟨hle, fun p hp hid r parsed hevent addr haddr hnet => ?_⟩
      rcases hlines p hp hid r parsed hevent addr haddr hnet with hc | hall
      · exact .inl (holds_snapshot.mpr hc)
      · right
        show _ ≤ (g.rejected.take c.shared.store.budgetRejected).count _
        rw [← rejected_counted ht, List.take_length]
        exact hall
    · exact fun m₀ hm₀ x hx => holds_snapshot.mpr (h.newer m₀ hm₀ x hx)
    · exact fun x hx => ⟨x.2, NodeStore.mem_snapshot.mp hx, le_refl _⟩

/-- A step publishes nothing, or what its thread is about to publish. -/
theorem published_cases (hpc : c.threads[a.1]? = some pc)
    (hst : ThreadPool.step (program S) c a = some c') (g : Annals) :
    (g.record c a c').published = g.published ∨
      ∃ m, Publishes c m pc ∧ (g.record c a c').published = g.published ++ [m] := by
  obtain ⟨pc', sh', next, hpc', hp, rfl⟩ := step_cases hst
  rw [hpc] at hpc'
  cases hpc'
  unfold Annals.record
  rw [hpc]
  dsimp only
  split
  · rename_i hyes
    obtain ⟨hpub, hstored⟩ := Bool.and_eq_true_iff.mp hyes
    right
    rcases program_cases hp with ⟨p, p', rfl, rfl, hs⟩ | ⟨p, p', rfl, rfl, hs⟩ |
      ⟨p, p', rfl, rfl, hs⟩ | ⟨L, rfl, rfl, -, -⟩ | ⟨t, p, p', rfl, rfl, hs⟩
    · cases p with
      | writing r logOk durable =>
        simp only [mainStep, hstored, if_true] at hs
        cases hs
        exact ⟨_, .last rfl, rfl⟩
      | _ => cases hpub
    · cases hpub
    · cases p with
      | publishing m =>
        simp only [checkpointStep, hstored, if_true] at hs
        cases hs
        exact ⟨m, .checkpoint, rfl⟩
      | _ => cases hpub
    · cases hpub
    · cases hpub
  · exact .inl rfl

/-- While a manifest is published, no other thread is taking a snapshot. -/
theorem Publishes.alone {m : Manifest} (hpub : Publishes c m pc)
    (hr : Reach (program S) Undisturbed (start S) c) {i j : Nat} (hpc : c.threads[i]? = some pc)
    {u : Pc} (hu : c.threads[j]? = some u) (hj : j ≠ i) : u.taking = false := by
  by_contra htaking
  have hcp : ∃ q : CheckpointPc, u = .checkpoint q ∧ q ≠ .exited ∧ q ≠ .idle := by
    cases u with
    | checkpoint q =>
      refine ⟨q, rfl, ?_, ?_⟩
      · rintro rfl
        exact htaking rfl
      · rintro rfl
        exact htaking rfl
    | _ => exact absurd rfl htaking
  obtain ⟨q, rfl, hexit, hidle⟩ := hcp
  cases hpub with
  | checkpoint => exact hj ((checkpoint_index hr hu).trans (checkpoint_index hr hpc).symm)
  | last =>
    rcases checkpoint_over hr (List.mem_of_getElem? hpc) rfl (List.mem_of_getElem? hu) with h | h
    · exact hexit h
    · exact hidle h

/-- **One step.** -/
theorem Snapshots.step (ht : Told S Undisturbed c g) (h : Snapshots S c g) (hok : Undisturbed c a)
    (hst : ThreadPool.step (program S) c a = some c') : Snapshots S c' (g.record c a c') := by
  have ha := advance ht.reach hok hst g
  obtain ⟨pc, sh', pc', hpc, hp, heq⟩ := step_cases hst
  have htaking := h.taking pc (List.mem_of_getElem? hpc)
  -- What is published now.
  have hcov : ∀ m ∈ (g.record c a c').published, ∀ x ∈ m.snapshot,
      c'.shared.store.Covers x.1 x.2.freshestTs := by
    intro m hm x hx
    apply ha.covers
    rcases published_cases hpc hst g with hsame | ⟨m', hpub, hmore⟩
    · rw [hsame] at hm
      exact htaking.covered hm hx
    · rw [hmore] at hm
      rcases List.mem_append.mp hm with hm | hm
      · exact htaking.covered hm hx
      · rw [List.mem_singleton.mp hm] at hx
        exact (hpub.recorded ht htaking).2.2 x hx
  constructor
  · intro u hu
    obtain ⟨j, hj⟩ := List.getElem?_of_mem hu
    by_cases hja : j = a.1
    · -- The thread that has moved.
      have hself : u = pc' := by
        rw [heq, hja] at hj
        change (c.threads.set a.1 pc')[a.1]? = some u at hj
        rw [List.getElem?_set_self (List.getElem?_eq_some_iff.mp hpc).1] at hj
        exact (Option.some.inj hj).symm
      subst hself
      have hshared : sh' = c'.shared := by rw [heq]
      subst hshared
      rcases program_cases hp with ⟨p, p', rfl, rfl, hs⟩ | ⟨p, p', rfl, rfl, hs⟩ |
        ⟨p, p', rfl, rfl, hs⟩ | ⟨L, rfl, rfl, -, -⟩ | ⟨t, p, p', rfl, rfl, hs⟩
      · exact main_taking ht hpc hs ha hcov
      · exact .of_idle rfl rfl hcov
      · refine checkpoint_taking ht (List.mem_of_getElem? hpc) hs htaking ha (fun hne => ?_) hcov
        rcases published_cases hpc hst g with hsame | ⟨m', hpub, -⟩
        · exact hsame
        · cases hpub
          exact absurd rfl (hne m')
      · exact .of_idle rfl rfl hcov
      · exact .of_idle rfl rfl hcov
    · have hmem : c.threads[j]? = some u := by
        rw [heq] at hj
        change (c.threads.set a.1 pc')[j]? = some u at hj
        rwa [List.getElem?_set_ne (Ne.symm hja)] at hj
      refine ha.taking (h.taking u (List.mem_of_getElem? hmem)) fun m hm hnew x hx => ?_
      rcases published_cases hpc hst g with hsame | ⟨m', hpub, -⟩
      · exact absurd (hsame ▸ hm) hnew
      · rw [Pc.willHold_of_not_taking (hpub.alone ht.reach hpc hmem hja)]
        exact hcov m hm x hx
  · intro m hm
    rcases published_cases hpc hst g with hsame | ⟨m', hpub, hmore⟩
    · exact ha.recorded (h.recorded m (hsame ▸ hm))
    · rw [hmore] at hm
      rcases List.mem_append.mp hm with hm | hm
      · exact ha.recorded (h.recorded m hm)
      · rw [List.mem_singleton.mp hm]
        exact ha.recorded (hpub.recorded ht htaking).1
  · rcases published_cases hpc hst g with hsame | ⟨m', hpub, hmore⟩
    · rw [hsame]
      exact h.newer
    · rw [hmore, List.pairwise_append]
      refine ⟨h.newer, List.pairwise_singleton _ _, fun m hm m₂ hm₂ => ?_⟩
      rw [List.mem_singleton.mp hm₂]
      exact (hpub.recorded ht htaking).2.1 m hm

end Publish

/-! ## The result -/

/-- Every snapshot of a run holds what the log says. -/
theorem snapshots {S : Setup} {c : Conf Shared Pc} {g : Annals} (ht : Told S Undisturbed c g) :
    Snapshots S c g := by
  refine ht.invariant (I := Snapshots S) ?_ fun _ _ _ _ ht ih hok hst => ih.step ht hok hst
  have hnone : ∀ m, m ∈ ({} : Annals).published → False := fun m hm => by cases hm
  refine ⟨fun pc hpc => ?_, fun m hm => (hnone m hm).elim, .nil⟩
  rcases mem_start hpc with rfl | rfl | rfl | rfl | ⟨t, rfl, -⟩ <;>
    exact .of_idle rfl rfl fun m hm => (hnone m hm).elim

/-- A manifest has every address that was logged up to its watermark. -/
structure HoldsLogged (S : Setup) (c : Conf Shared Pc) (g : Annals) (m : Manifest) : Prop where
  /-- one entry for each key -/
  distinct : (m.snapshot.map Prod.fst).Nodup
  /-- the rejections it counts are the first ones of the run -/
  rejections : m.budgetRejected ≤ g.rejected.length
  /-- a line is in the snapshot, unless each time the block had it the store turned it down and
      the snapshot counts that -/
  lines : ∀ w, m.durableEventId = some w → ∀ p ∈ c.shared.log.written, p.eventId ≤ w →
    ∀ r parsed, p.event = .block r parsed → ∀ a ∈ parsed.addrs,
      S.settings.isEnabled a.network = true →
        (∃ e, (⟨a.host, a.port⟩, e) ∈ m.snapshot ∧ a.timestamp ≤ e.freshestTs) ∨
          parsed.addrs.count a ≤
            (g.rejected.take m.budgetRejected).count (.line (some p.eventId) a)

/-- **Logged addresses are in the snapshot.**  In every run in which no write of the log fails and
    no task panics under a read guard, whatever the interleaving: each published snapshot has every
    address line of an enabled network up to its watermark, at least as fresh as the line says, or
    counts its rejection; and no entry is missing or less fresh in a later snapshot. -/
theorem logged_in_snapshots {S : Setup} {c : Conf Shared Pc} {g : Annals}
    (ht : Told S Undisturbed c g) :
    (∀ m ∈ g.published, HoldsLogged S c g m) ∧
      g.published.Pairwise fun m m' => ∀ k e, (k, e) ∈ m.snapshot →
        ∃ e', (k, e') ∈ m'.snapshot ∧ e.freshestTs ≤ e'.freshestTs := by
  have h := snapshots ht
  constructor
  · intro m hm
    have hm := h.recorded m hm
    exact ⟨hm.distinct, hm.rejections, fun w hw => (hm.lines w hw).2⟩
  · exact h.newer.imp fun hnewer k e he => hnewer (k, e) he

/-! ## A run with a checkpoint -/

/-- One worker for IPv4, an address log, and a checkpoint task. -/
def recordingSettings : Settings :=
  { soloSettings with recordAddrResponses := true, checkpointInterval := 60 }

def recording : Setup := ⟨.zero, recordingSettings, .dns ["192.0.2.1"], 0⟩

/-- `--no-ipv6 --no-cjdns --no-tor --no-i2p --ip-concurrency 1 --tor-concurrency 0
    --i2p-concurrency 0 --handshake-attempts 1 --checkpoint-interval 1m --max-addresses 10
    --no-freshness-filter`. -/
def recordingCli : Cli where
  common := {
    ipConcurrency := 1
    torConcurrency := 0
    i2pConcurrency := 0
    handshakeAttempts := 1
    noIpv6 := true
    noTor := true
    noI2p := true
    noCjdns := true
    checkpointInterval := "1m" }
  maxAddresses := 10
  noFreshnessFilter := true

theorem recording_ofCrawler : recording.OfCrawler := by
  have hinterval : parseDuration recordingCli.common.checkpointInterval = .ok 60 := by decide
  have hsettings : recordingCli.intoSettings = .ok recordingSettings := by
    unfold Cli.intoSettings CommonArgs.intoSettings
    rw [hinterval]
    simp [recordingCli, recordingSettings, soloSettings, CommonArgs.enabledNetworks,
      CommonArgs.concurrency, maxConcurrency]
  exact .mk .zero recordingCli recordingSettings ["192.0.2.1"] 0 hsettings

/-- No write fails and nobody panics. -/
def calm (_ : Conf Shared Pc) (a : Nat × Answer) : Bool := a.2.fault.isNone && !a.2.panic

/-- A message is received, logged and handed to the store; then a checkpoint is taken. -/
def recordedRun : List (Nat × Answer) :=
  asked ++ hear 5 .addr oneAddrMessage ++ steps 3 1 ++ hear 8 .addr oneAddrMessage ++
    steps 2 4 ++ steps 3 1 ++ steps 2 6

theorem calm_undisturbed {c : Conf Shared Pc} {a : Nat × Answer} (h : calm c a = true) :
    Undisturbed c a := by
  obtain ⟨hfault, hpanic⟩ := Bool.and_eq_true_iff.mp h
  refine ⟨Option.isNone_iff_eq_none.mp hfault, fun pc _ hbad => ?_⟩
  rw [hbad] at hpanic
  cases hpanic

/-- The snapshot of the checkpoint holds the address of the only line. -/
theorem logged_in_snapshots_recording : ∃ c g m, Told recording Undisturbed c g ∧
    m ∈ g.published ∧ m.durableEventId = some 1 ∧ c.shared.log.written.map (·.eventId) = [1] ∧
    HoldsLogged recording c g m := by
  have hrun : (execRecord (program recording) calm Annals.record (start recording) {}
      recordedRun).bind (fun r => r.2.published.head?.bind fun m =>
        m.durableEventId.map fun w => (w, r.1.shared.log.written.map (·.eventId))) =
      some (1, [1]) := by
    decide
  obtain ⟨⟨c, g⟩, hc, heq⟩ := Option.bind_eq_some_iff.mp hrun
  obtain ⟨m, hm, heq⟩ := Option.bind_eq_some_iff.mp heq
  obtain ⟨w, hw, heq⟩ := Option.map_eq_some_iff.mp heq
  obtain ⟨rfl, hids⟩ := Prod.mk.inj heq
  have ht : Told recording Undisturbed c g :=
    (execRecord_chronicle hc).mono fun _ _ => calm_undisturbed
  have hmem : m ∈ g.published := List.mem_of_mem_head? hm
  exact ⟨c, g, m, ht, hmem, hw, hids, (logged_in_snapshots ht).1 m hmem⟩

end P2PCrawler
