import P2PCrawler.Crawler.Snapshots
import P2PCrawler.Crawler.Verdicts

/-!
# Successive manifests

A checkpoint takes down the number of processed nodes, waits for the readers and the log, clones the
entries one by one while the workers go on, and publishes.  The last manifest is written by the main
task, after the checkpoint has been stopped.

* `Attempted` — runs with the manifests they have set out to publish, also where that failed.
* `Pc.WillShow` — an entry is in the snapshot that a thread is taking, at least as far on, or will be.
* `Gauge` — a quantity that a thread takes down and later publishes.
* `Gauge.ordered` — where the quantity does not go back, what is published of it does not either.
* `attempts_precede` — of two attempts, the later one is further on in everything.

## Results

* `manifests_advance` — **of two manifests of a run, the later one is further on in everything.**
-/

set_option autoImplicit false

namespace P2PCrawler

open ThreadPool

section Alone
variable {S : Setup} {ok : Conf Shared Pc → Nat × Answer → Prop} {c : Conf Shared Pc} {m : Manifest}
  {pc u : Pc}

/-- The thread prepares a manifest. -/
def Pc.preparing : Pc → Bool
  | .checkpoint .idle | .checkpoint .exited => false
  | .checkpoint _ => true
  | .main .finished => false
  | .main p => p.concluding
  | _ => false

theorem Pc.concluding_of_preparing {p : MainPc} (h : (Pc.main p).preparing = true) :
    p.concluding = true := by
  cases p <;> first | exact h | cases h

/-- While a manifest is published, no other thread prepares one. -/
theorem Publishes.only (hpub : Publishes c m pc) (hr : Reach (program S) ok (start S) c) {i j : Nat}
    (hpc : c.threads[i]? = some pc) (hu : c.threads[j]? = some u) (hj : j ≠ i) :
    u.preparing = false := by
  have hover : ∀ {p : MainPc} {q : CheckpointPc}, Pc.main p ∈ c.threads → p.concluding = true →
      Pc.checkpoint q ∈ c.threads → (Pc.checkpoint q).preparing = false := by
    intro p q hp hcon hq
    rcases checkpoint_over hr hp hcon hq with rfl | rfl <;> rfl
  have hmem := List.mem_of_getElem? hpc
  have hmem' := List.mem_of_getElem? hu
  cases hpub with
  | checkpoint =>
    cases u with
    | main p =>
      by_contra hprep
      cases hover hmem' (Pc.concluding_of_preparing (by simpa using hprep)) hmem
    | checkpoint q => exact absurd ((checkpoint_index hr hu).trans (checkpoint_index hr hpc).symm) hj
    | _ => rfl
  | last =>
    cases u with
    | main p => exact absurd ((main_index hr hu).trans (main_index hr hpc).symm) hj
    | checkpoint q => exact hover hmem rfl hmem'
    | _ => rfl

/-- Nor does the one that has published it. -/
theorem Publishes.done {sh' : Shared} {pc' : Pc} {a : Answer} (hpub : Publishes c m pc)
    (hp : program S c.shared pc a = some (sh', pc')) : pc'.preparing = false := by
  rcases program_cases hp with ⟨p, p', rfl, rfl, hs⟩ | ⟨p, p', rfl, rfl, hs⟩ |
    ⟨p, p', rfl, rfl, hs⟩ | ⟨L, rfl, rfl, -, -⟩ | ⟨t, p, p', rfl, rfl, hs⟩
  · cases hpub
    simp only [mainStep] at hs
    split at hs <;> cases hs <;> rfl
  · cases hpub
  · cases hpub
    cases hs
    rfl
  · cases hpub
  · cases hpub

end Alone

/-! ## Attempts -/

/-- The manifests that a run sets out to publish, one after the other. -/
def attempt (ms : List Manifest) (c : Conf Shared Pc) (a : Nat × Answer) (_ : Conf Shared Pc) :
    List Manifest :=
  match c.threads[a.1]? with
  | some (.checkpoint (.publishing m)) => ms ++ [m]
  | some (.main (.writing r logOk durable)) => ms ++ [c.shared.finalManifest r logOk durable]
  | _ => ms

/-- Runs with their attempts. -/
abbrev Attempted (S : Setup) (ok : Conf Shared Pc → Nat × Answer → Prop) :
    Conf Shared Pc → List Manifest → Prop :=
  Chronicle (program S) ok attempt (start S) []

section Attempts
variable {S : Setup} {ok : Conf Shared Pc → Nat × Answer → Prop} {c : Conf Shared Pc}
  {a : Nat × Answer} {pc : Pc}

theorem attempt_cases (hpc : c.threads[a.1]? = some pc) (ms : List Manifest) (c' : Conf Shared Pc) :
    (attempt ms c a c' = ms ∧ ∀ m, ¬ Publishes c m pc) ∨
      ∃ m, Publishes c m pc ∧ attempt ms c a c' = ms ++ [m] := by
  unfold attempt
  rw [hpc]
  cases pc with
  | checkpoint p =>
    cases p with
    | publishing m => exact .inr ⟨m, .checkpoint, rfl⟩
    | _ => exact .inl ⟨rfl, fun m hm => by cases hm⟩
  | main p =>
    cases p with
    | writing r logOk durable => exact .inr ⟨_, .last rfl, rfl⟩
    | _ => exact .inl ⟨rfl, fun m hm => by cases hm⟩
  | _ => exact .inl ⟨rfl, fun m hm => by cases hm⟩

/-- A thread publishes one manifest at a time. -/
theorem Publishes.unique {m m' : Manifest} (h : Publishes c m pc) (h' : Publishes c m' pc) :
    m = m' := by
  cases h with
  | checkpoint => cases h'; rfl
  | last hm =>
    cases h' with
    | last hm' => exact hm.trans hm'.symm

/-- What a run has published, it has tried to. -/
theorem Told.attempted {g : Annals} (ht : Told S ok c g) :
    ∃ ms, Attempted S ok c ms ∧ g.published.Sublist ms := by
  induction ht with
  | start => exact ⟨[], .start, .refl _⟩
  | @next c c' g a _ hok hst ih =>
    obtain ⟨ms, hms, hsub⟩ := ih
    obtain ⟨pc, sh', pc', hpc, -, -⟩ := step_cases hst
    refine ⟨_, hms.next hok hst, ?_⟩
    rcases attempt_cases hpc ms c' with ⟨hnone, hnot⟩ | ⟨m, hpub, htried⟩
    · rw [hnone]
      rcases published_cases hpc hst g with hsame | ⟨m, hpub, -⟩
      · exact hsame ▸ hsub
      · exact absurd hpub (hnot m)
    · rw [htried]
      rcases published_cases hpc hst g with hsame | ⟨m', hpub', hmore⟩
      · rw [hsame]
        exact hsub.trans (List.sublist_append_left ms [m])
      · rw [hmore, hpub'.unique hpub]
        exact hsub.append (.refl _)

end Attempts

/-! ## Quantities -/

/-- A quantity of the run that a thread takes down, and that a manifest shows. -/
structure Gauge where
  now : Shared → Nat
  taken : Pc → Option Nat
  shown : Manifest → Option Nat

/-- The quantity does not go back, a thread takes down what it is, only a thread that prepares a
    manifest does, and a manifest shows what was taken down or what it is. -/
structure Gauge.Lawful (G : Gauge) (S : Setup) (ok : Conf Shared Pc → Nat × Answer → Prop) : Prop where
  grows : ∀ {c c' : Conf Shared Pc} {a : Nat × Answer}, Reach (program S) ok (start S) c → ok c a →
    step (program S) c a = some c' → G.now c.shared ≤ G.now c'.shared
  takes : ∀ {c : Conf Shared Pc} {a : Nat × Answer} {pc pc' : Pc} {sh' : Shared} {n : Nat},
    Reach (program S) ok (start S) c → ok c a → c.threads[a.1]? = some pc →
      program S c.shared pc a.2 = some (sh', pc') → G.taken pc' = some n →
        G.taken pc = some n ∨ n = G.now c.shared
  prepares : ∀ {pc : Pc}, pc.preparing = false → G.taken pc = none
  shows : ∀ {c : Conf Shared Pc} {m : Manifest} {pc : Pc} {n : Nat}, Publishes c m pc →
    G.shown m = some n → G.taken pc = some n ∨ n = G.now c.shared

/-- What is published is not newer than the quantity, nor than what is taken down. -/
structure Gauge.Ordered (G : Gauge) (c : Conf Shared Pc) (ms : List Manifest) : Prop where
  taken : ∀ pc ∈ c.threads, ∀ n, G.taken pc = some n →
    n ≤ G.now c.shared ∧ ∀ m ∈ ms, ∀ n', G.shown m = some n' → n' ≤ n
  shown : ∀ m ∈ ms, ∀ n, G.shown m = some n → n ≤ G.now c.shared
  pairwise : ms.Pairwise fun m m' =>
    ∀ n n', G.shown m = some n → G.shown m' = some n' → n ≤ n'

/-- **A quantity that does not go back is published in order.** -/
theorem Gauge.ordered {G : Gauge} {S : Setup} {ok : Conf Shared Pc → Nat × Answer → Prop}
    (hG : G.Lawful S ok) {c : Conf Shared Pc} {ms : List Manifest} (ht : Attempted S ok c ms) : G.Ordered c ms := by
  refine ht.invariant (I := G.Ordered) ⟨fun pc hpc n hn => ?_, fun m hm => (by cases hm), .nil⟩ ?_
  · have hnone : G.taken pc = none := by
      rcases mem_start hpc with rfl | rfl | rfl | rfl | ⟨t, rfl, -⟩ <;> exact hG.prepares rfl
    rw [hnone] at hn
    cases hn
  · intro c ms a c' ht ih hok hst
    have hr := ht.reach
    have hgrows := hG.grows hr hok hst
    obtain ⟨pc, sh', pc', hpc, hp, heq⟩ := step_cases hst
    have hmem := List.mem_of_getElem? hpc
    -- what is published by this step
    have hnew : ∀ m, Publishes c m pc → ∀ n, G.shown m = some n →
        n ≤ G.now c.shared ∧ ∀ m' ∈ ms, ∀ n', G.shown m' = some n' → n' ≤ n := by
      intro m hpub n hn
      rcases hG.shows hpub hn with htaken | rfl
      · exact ih.taken pc hmem n htaken
      · exact ⟨le_refl _, ih.shown⟩
    have hshown : ∀ m ∈ attempt ms c a c', ∀ n, G.shown m = some n →
        n ≤ G.now c.shared := by
      intro m hm n hn
      rcases attempt_cases hpc ms c' with ⟨hsame, -⟩ | ⟨m', hpub, hmore⟩
      · rw [hsame] at hm
        exact ih.shown m hm n hn
      · rw [hmore] at hm
        rcases List.mem_append.mp hm with hm | hm
        · exact ih.shown m hm n hn
        · rw [List.mem_singleton.mp hm] at hn
          exact (hnew m' hpub n hn).1
    refine ⟨fun u hu n hn => ?_, fun m hm n hn => (hshown m hm n hn).trans hgrows, ?_⟩
    · obtain ⟨j, hj⟩ := List.getElem?_of_mem hu
      rw [heq] at hj
      by_cases hja : j = a.1
      · subst hja
        rw [List.getElem?_set_self (List.getElem?_eq_some_iff.mp hpc).1, Option.some.injEq] at hj
        subst hj
        rcases attempt_cases hpc ms c' with ⟨hsame, -⟩ | ⟨m', hpub, -⟩
        · rw [hsame]
          rcases hG.takes hr hok hpc hp hn with htaken | rfl
          · obtain ⟨hle, hold⟩ := ih.taken pc hmem n htaken
            exact ⟨hle.trans hgrows, hold⟩
          · exact ⟨hgrows, ih.shown⟩
        · rw [hG.prepares (hpub.done hp)] at hn
          cases hn
      · change (c.threads.set a.1 pc')[j]? = some u at hj
        rw [List.getElem?_set_ne (Ne.symm hja)] at hj
        obtain ⟨hle, hold⟩ := ih.taken u (List.mem_of_getElem? hj) n hn
        refine ⟨hle.trans hgrows, ?_⟩
        rcases attempt_cases hpc ms c' with ⟨hsame, -⟩ | ⟨m', hpub, -⟩
        · rw [hsame]
          exact hold
        · rw [hG.prepares (hpub.only hr hpc hj hja)] at hn
          cases hn
    · rcases attempt_cases hpc ms c' with ⟨hsame, -⟩ | ⟨m', hpub, hmore⟩
      · rw [hsame]
        exact ih.pairwise
      · rw [hmore]
        refine List.pairwise_append.mpr ⟨ih.pairwise, List.pairwise_singleton _ _, ?_⟩
        intro m hm m₂ hm₂ n n' hn hn'
        rw [List.mem_singleton.mp hm₂] at hn'
        exact (hnew m' hpub n' hn').2 m hm n hn

/-! ## What is taken down -/

section Gauges
variable {S : Setup} {ok : Conf Shared Pc → Nat × Answer → Prop} {c c' : Conf Shared Pc}
  {a : Nat × Answer}

theorem processed_grows {sh sh' : Shared} {pc pc' : Pc} {a : Answer}
    (hp : program S sh pc a = some (sh', pc')) : sh.numProcessed ≤ sh'.numProcessed := by
  cases slotStep hp with
  | dequeue _ _ hnum | attempt _ _ _ _ hnum | other hnum => exact hnum.ge
  | grant => exact Nat.le_succ _
  | refuse | limit | crash | die => exact le_refl _

theorem rejected_grows {sh sh' : Shared} {pc pc' : Pc} {a : Answer}
    (hp : program S sh pc a = some (sh', pc')) :
    sh.store.budgetRejected ≤ sh'.store.budgetRejected := by
  rcases (step_effect hp).budgetRejected with heq | ⟨-, heq⟩
  · exact heq.ge
  · rw [heq]; exact Nat.le_succ _

/-- What a checkpoint publishes. -/
theorem publishing_from {sh sh' : Shared} {p : CheckpointPc} {a : Answer} {m : Manifest}
    (hs : checkpointStep S sh a p = some (sh', .publishing m)) :
    ∃ n durable acc, p = .cloning n durable [] acc ∧
      m = ⟨acc, sh.store.budgetRejected, n, durable, false, false⟩ := by
  cases p with
  | idle =>
    simp only [checkpointStep] at hs
    repeat' split at hs
    all_goals cases hs
  | acquiring n =>
    simp only [checkpointStep] at hs
    split at hs
    · cases hs
    · simp only [Option.some.injEq, Prod.mk.injEq] at hs
      split at hs <;> cases hs.2
  | flushing n call =>
    rcases logStep_cases hs with ⟨call', -, heq⟩ | ⟨res, -, heq⟩
    · cases heq
    · cases res <;> cases heq
  | cloning n durable rest acc =>
    cases rest with
    | nil => cases hs; exact ⟨n, durable, acc, rfl, rfl⟩
    | cons k rest => cases hs
  | _ => cases hs

/-- The number of processed nodes, which a checkpoint takes down before it waits. -/
def processedGauge : Gauge where
  now := (·.numProcessed)
  taken
    | .checkpoint (.acquiring n) | .checkpoint (.flushing n _) | .checkpoint (.snapshotting n _)
    | .checkpoint (.cloning n _ _ _) => some n
    | .checkpoint (.publishing m) => some m.numProcessed
    | _ => none
  shown m := some m.numProcessed

/-- The number of rejections, which is taken down with the last entry. -/
def rejectedGauge : Gauge where
  now := (·.store.budgetRejected)
  taken
    | .checkpoint (.publishing m) => some m.budgetRejected
    | _ => none
  shown m := some m.budgetRejected

/-- The event id that the log has made durable, which a flush reports. -/
def durableGauge : Gauge where
  now := (·.log.durableEventId)
  taken := Pc.durable
  shown := (·.durableEventId)

theorem processedGauge_lawful : processedGauge.Lawful S ok where
  grows _ _ hst := by
    obtain ⟨pc, sh', pc', -, hp, rfl⟩ := step_cases hst
    exact processed_grows hp
  takes _ _ _ hp hn := by
    rcases program_cases hp with ⟨p, p', rfl, rfl, hs⟩ | ⟨p, p', rfl, rfl, hs⟩ |
      ⟨p, p', rfl, rfl, hs⟩ | ⟨L, rfl, rfl, -, -⟩ | ⟨t, p, p', rfl, rfl, hs⟩
    · cases hn
    · cases hn
    · cases p with
      | idle =>
        simp only [checkpointStep] at hs
        split at hs
        · cases hs
        · split at hs
          · cases hs
            exact .inr (Option.some.inj hn).symm
          · split at hs <;> cases hs
            cases hn
      | acquiring n =>
        simp only [checkpointStep] at hs
        split at hs
        · cases hs
        · simp only [Option.some.injEq, Prod.mk.injEq] at hs
          obtain ⟨-, rfl⟩ := hs
          split at hn <;> exact .inl hn
      | flushing n call =>
        rcases logStep_cases hs with ⟨call', -, rfl⟩ | ⟨res, -, rfl⟩
        · exact .inl hn
        · cases res with
          | none => cases hn
          | some w => exact .inl hn
      | cloning n durable rest acc => cases rest <;> cases hs <;> exact .inl hn
      | snapshotting n durable => cases hs; exact .inl hn
      | exited => cases hs
      | _ => cases hs; cases hn
    · cases hn
    · cases hn
  prepares {pc} h := by
    cases pc with
    | checkpoint p => cases p <;> first | rfl | cases h
    | _ => rfl
  shows hpub hn := by
    cases hpub with
    | checkpoint => exact .inl hn
    | last hm =>
      subst hm
      exact .inr (Option.some.inj hn).symm

theorem rejectedGauge_lawful : rejectedGauge.Lawful S ok where
  grows _ _ hst := by
    obtain ⟨pc, sh', pc', -, hp, rfl⟩ := step_cases hst
    exact rejected_grows hp
  takes _ _ _ hp hn := by
    rcases program_cases hp with ⟨p, p', rfl, rfl, hs⟩ | ⟨p, p', rfl, rfl, hs⟩ |
      ⟨p, p', rfl, rfl, hs⟩ | ⟨L, rfl, rfl, -, -⟩ | ⟨t, p, p', rfl, rfl, hs⟩
    · cases hn
    · cases hn
    · cases p' with
      | publishing m =>
        obtain ⟨n, durable, acc, rfl, rfl⟩ := publishing_from hs
        exact .inr (Option.some.inj hn).symm
      | _ => cases hn
    · cases hn
    · cases hn
  prepares {pc} h := by
    cases pc with
    | checkpoint p => cases p <;> first | rfl | cases h
    | _ => rfl
  shows hpub hn := by
    cases hpub with
    | checkpoint => exact .inl hn
    | last hm =>
      subst hm
      exact .inr (Option.some.inj hn).symm

/-- No task panics while it holds a read guard on the barrier. -/
def ReadersCalm (ok : Conf Shared Pc → Nat × Answer → Prop) : Prop :=
  ∀ c a pc, ok c a → c.threads[a.1]? = some pc → a.2.panic = true → pc.reads = 0

/-- A flush reports what is durable when it returns. -/
theorem flush_now (hok : ReadersCalm ok) (hr : Reach (program S) ok (start S) c) {pc : Pc}
    (hpc : pc ∈ c.threads) {call : LogCall} (hcall : pc.call = some call)
    (hflush : call.request = .flush) {L : LogState} {w : Nat}
    (hs : call.step c.shared.log = some (L, .returned (some w))) :
    w = c.shared.log.durableEventId := by
  obtain ⟨r, eventId, ticket, rfl, hreply, -⟩ := LogCall.step_returned hs
  cases hflush
  obtain ⟨i, hi⟩ := List.getElem?_of_mem hpc
  have hk : callsOf Pc.call c.threads i = some (.wait .flush eventId ticket) := by
    unfold callsOf
    rw [hi]
    exact hcall
  obtain ⟨-, hturn⟩ := (crawl_log hok hr).turn hk rfl
  obtain ⟨-, -, hres⟩ := hturn.leave hreply
  rcases hres with hres | hres <;> cases hres
  rfl

theorem LogInv.writerOk {L : LogState} {calls : Nat → Option LogCall} (h : LogInv L calls) :
    WriterOk L := by
  cases h with
  | free hw => exact hw
  | held _ _ hw => exact hw

theorem lastComplete_grows {ps : List Piece} {p : Piece} (h : Numbered (ps ++ [p])) :
    lastComplete ps ≤ lastComplete (ps ++ [p]) := by
  obtain ⟨hn, hid⟩ := numbered_concat.mp h
  cases htorn : p.torn with
  | none =>
    rw [lastComplete_concat_whole htorn, hid]
    exact (lastComplete_le hn).trans (Nat.le_succ _)
  | some kept => exact (lastComplete_concat_torn htorn).ge

/-- The writer appends one record at most. -/
theorem LogState.writerStep_written {H : Digests} {L L' : LogState} {fault : Option Nat}
    {synced : Bool} (h : L.writerStep H fault synced = some L') :
    L'.written = L.written ∨ ∃ p, L'.written = L.written ++ [p] := by
  unfold writerStep at h
  split at h
  · cases h
  · split at h
    · cases h; exact .inr ⟨_, rfl⟩
    · split at h <;> cases h
      exact .inr ⟨_, rfl⟩
  · split at h <;> cases h <;> exact .inl rfl

theorem durableGauge_lawful (hok : ReadersCalm ok) : durableGauge.Lawful S ok where
  grows {c c' a} hr ha hst := by
    have hw := (crawl_log hok hr).writerOk
    have hw' := (crawl_log hok (hr.next ha hst)).writerOk
    have hwritten : c'.shared.log.written = c.shared.log.written ∨
        ∃ p, c'.shared.log.written = c.shared.log.written ++ [p] := by
      obtain ⟨pc, sh', pc', hpc, hp, rfl⟩ := step_cases hst
      rcases program_log hp (hok _ _ pc ha hpc) with ⟨-, -, hs⟩ | hmove
      · exact LogState.writerStep_written hs
      · exact .inl hmove.written
    show c.shared.log.durableEventId ≤ c'.shared.log.durableEventId
    have hnum := hw'.numbered
    rw [hw.durable, hw'.durable]
    rcases hwritten with heq | ⟨p, heq⟩
    · rw [heq]
    · rw [heq] at hnum ⊢
      exact lastComplete_grows hnum
  takes {c a pc pc' sh' n} hr ha hpc hp hn := by
    have hmem := List.mem_of_getElem? hpc
    rcases program_cases hp with ⟨p, p', rfl, rfl, hs⟩ | ⟨p, p', rfl, rfl, hs⟩ |
      ⟨p, p', rfl, rfl, hs⟩ | ⟨L, rfl, rfl, -, -⟩ | ⟨t, p, p', rfl, rfl, hs⟩
    · obtain ⟨r, call, rfl, hcall⟩ := mainStep_durable hs hn
      exact .inr (flush_now hok hr hmem rfl ((writers_ok hr).1 _ hmem) hcall)
    · cases hn
    · cases p with
      | flushing processed call =>
        rcases logStep_cases hs with ⟨call', -, rfl⟩ | ⟨res, hcall, rfl⟩
        · cases hn
        · cases res with
          | none => cases hn
          | some w =>
            cases hn
            exact .inr (flush_now hok hr hmem rfl ((writers_ok hr).1 _ hmem) hcall)
      | idle =>
        simp only [checkpointStep] at hs
        repeat' split at hs
        all_goals cases hs
        all_goals cases hn
      | acquiring processed =>
        simp only [checkpointStep] at hs
        split at hs
        · cases hs
        · simp only [Option.some.injEq, Prod.mk.injEq] at hs
          obtain ⟨-, rfl⟩ := hs
          split at hn <;> cases hn
      | cloning processed durable rest acc => cases rest <;> cases hs <;> exact .inl hn
      | snapshotting processed durable => cases hs; exact .inl hn
      | exited => cases hs
      | _ => cases hs; cases hn
    · cases hn
    · cases hn
  prepares {pc} h := by
    cases pc with
    | checkpoint p => cases p <;> first | rfl | cases h
    | main p => cases p <;> first | rfl | cases h
    | _ => rfl
  shows hpub hn := by
    cases hpub with
    | checkpoint => exact .inl hn
    | last hm =>
      subst hm
      exact .inl hn

end Gauges

/-! ## Entries -/

/-- The entry is in the store, at least as far on. -/
def NodeStore.Ahead (s : NodeStore) (x : AddrKey × NodeEntry) : Prop :=
  ∃ e, s.entry x.1 = some e ∧ x.2.Leads e

/-- The entry is in the snapshot, at least as far on. -/
def Shows (entries : List (AddrKey × NodeEntry)) (x : AddrKey × NodeEntry) : Prop :=
  ∃ e, (x.1, e) ∈ entries ∧ x.2.Leads e

/-- The entry is in the snapshot the thread is taking, or will be. -/
def Pc.WillShow (sh : Shared) : Pc → AddrKey × NodeEntry → Prop
  | .checkpoint (.cloning _ _ rest acc), x => (x.1 ∈ rest ∧ sh.store.Ahead x) ∨ Shows acc x
  | .checkpoint (.publishing m), x => Shows m.snapshot x
  | _, x => sh.store.Ahead x

theorem Pc.willShow_of_not_taking {sh : Shared} {pc : Pc} (h : pc.taking = false) :
    pc.WillShow sh = sh.store.Ahead := by
  cases pc with
  | checkpoint p => cases p <;> first | rfl | cases h
  | _ => rfl

/-- What a thread has cloned is not older than what has been published, and the run has gone on
    since. -/
structure Catching (c : Conf Shared Pc) (ms : List Manifest) (pc : Pc) : Prop where
  shows : ∀ m ∈ ms, ∀ x ∈ m.snapshot, pc.WillShow c.shared x
  clones : ∀ x ∈ pc.cloned, c.shared.store.Ahead x

structure Manifests (c : Conf Shared Pc) (ms : List Manifest) : Prop where
  threads : ∀ pc ∈ c.threads, Catching c ms pc
  tried : ∀ m ∈ ms, ∀ x ∈ m.snapshot, c.shared.store.Ahead x
  ordered : ms.Pairwise fun m m' => ∀ x ∈ m.snapshot, Shows m'.snapshot x

section Entries
variable {S : Setup} {ok : Conf Shared Pc → Nat × Answer → Prop} {c c' : Conf Shared Pc}
  {a : Nat × Answer} {ms : List Manifest} {pc : Pc}

theorem ahead_step (hr : Reach (program S) ok (start S) c) (hst : step (program S) c a = some c')
    {x : AddrKey × NodeEntry} (h : c.shared.store.Ahead x) : c'.shared.store.Ahead x := by
  obtain ⟨e, he, hleads⟩ := h
  obtain ⟨e', he', hstep⟩ := step_leads hr hst he
  exact ⟨e', he', hleads.trans hstep⟩

theorem Catching.mono (hstep : ∀ x, c.shared.store.Ahead x → c'.shared.store.Ahead x)
    (h : Catching c ms pc) : Catching c' ms pc where
  shows m hm x hx := by
    have hold := h.shows m hm x hx
    cases pc with
    | checkpoint p =>
      cases p with
      | cloning n durable rest acc => exact hold.imp_left fun ⟨hk, hx⟩ => ⟨hk, hstep x hx⟩
      | publishing => exact hold
      | _ => exact hstep x hold
    | _ => exact hstep x hold
  clones x hx := hstep x (h.clones x hx)

/-- A thread that has cloned nothing. -/
theorem Catching.of_idle (htaking : pc.taking = false)
    (hpub : ∀ m ∈ ms, ∀ x ∈ m.snapshot, c.shared.store.Ahead x) : Catching c ms pc where
  shows m hm x hx := by
    rw [Pc.willShow_of_not_taking htaking]
    exact hpub m hm x hx
  clones x hx := by
    cases pc with
    | checkpoint p => cases p <;> first | (cases hx; done) | cases htaking
    | _ => cases hx

/-- Cloning an entry. -/
theorem clone_shows {s : NodeStore} {k : AddrKey} {rest : List AddrKey}
    {acc : List (AddrKey × NodeEntry)} {x : AddrKey × NodeEntry}
    (h : (x.1 ∈ k :: rest ∧ s.Ahead x) ∨ Shows acc x) :
    (x.1 ∈ rest ∧ s.Ahead x) ∨
      Shows (match s.entry k with | some e => acc ++ [(k, e)] | none => acc) x := by
  rcases h with ⟨hk, e, he, hleads⟩ | ⟨e, he, hleads⟩
  · rcases List.mem_cons.mp hk with rfl | hk
    · rw [he]
      exact .inr ⟨e, List.mem_append_right _ (List.mem_singleton.mpr rfl), hleads⟩
    · exact .inl ⟨hk, e, he, hleads⟩
  · refine .inr ⟨e, ?_, hleads⟩
    split
    · exact List.mem_append_left _ he
    · exact he

/-- One step of the checkpoint task, where it publishes nothing. -/
theorem checkpoint_catching {p p' : CheckpointPc} {a : Answer} {sh' : Shared}
    (hs : checkpointStep S c.shared a p = some (sh', p')) (hstore : sh'.store = c.shared.store)
    {ts : List Pc} (h : Catching c ms (.checkpoint p))
    (hpub : ∀ m ∈ ms, ∀ x ∈ m.snapshot, c.shared.store.Ahead x) :
    Catching ⟨sh', ts⟩ ms (.checkpoint p') := by
  have hpub' : ∀ m ∈ ms, ∀ x ∈ m.snapshot, sh'.store.Ahead x := by rwa [hstore]
  cases p with
  | idle =>
    simp only [checkpointStep] at hs
    repeat' split at hs
    all_goals cases hs
    all_goals exact .of_idle rfl hpub'
  | acquiring n =>
    simp only [checkpointStep] at hs
    split at hs
    · cases hs
    · simp only [Option.some.injEq, Prod.mk.injEq] at hs
      obtain ⟨-, rfl⟩ := hs
      split <;> exact .of_idle rfl hpub'
  | flushing n call =>
    rcases logStep_cases hs with ⟨call', -, rfl⟩ | ⟨res, -, rfl⟩
    · exact .of_idle rfl hpub'
    · cases res <;> exact .of_idle rfl hpub'
  | snapshotting n durable =>
    cases hs
    refine ⟨fun m hm x hx => ?_, fun x hx => by cases hx⟩
    obtain ⟨e, he, hleads⟩ := hpub m hm x hx
    refine .inl ⟨?_, e, he, hleads⟩
    exact AList.lookup_isSome.mp (by rw [show c.shared.store.map.lookup x.1 = some e from he]; rfl)
  | cloning n durable rest acc =>
    cases rest with
    | nil =>
      cases hs
      refine ⟨fun m hm x hx => ?_, h.clones⟩
      rcases h.shows m hm x hx with ⟨hk, -⟩ | hshows
      · cases hk
      · exact hshows
    | cons k rest =>
      cases hs
      refine ⟨fun m hm x hx => clone_shows (h.shows m hm x hx), fun x hx => ?_⟩
      change x ∈ (match c.shared.store.entry k with | some e => acc ++ [(k, e)] | none => acc) at hx
      split at hx
      · rename_i e he
        rcases List.mem_append.mp hx with hx | hx
        · exact h.clones x hx
        · rw [List.mem_singleton.mp hx]
          exact ⟨e, he, .refl e⟩
      · exact h.clones x hx
  | exited => cases hs
  | _ => cases hs; exact .of_idle rfl hpub'

/-- What is published shows all that has been published. -/
theorem Publishes.catching {m : Manifest} (hpub : Publishes c m pc) (h : Catching c ms pc) :
    (∀ x ∈ m.snapshot, c.shared.store.Ahead x) ∧
      ∀ m₀ ∈ ms, ∀ x ∈ m₀.snapshot, Shows m.snapshot x := by
  cases hpub with
  | checkpoint => exact ⟨h.clones, h.shows⟩
  | last hm =>
    subst hm
    refine ⟨fun x hx => ⟨x.2, NodeStore.mem_snapshot.mp hx, .refl _⟩, fun m₀ hm₀ x hx => ?_⟩
    obtain ⟨e, he, hleads⟩ := h.shows m₀ hm₀ x hx
    exact ⟨e, NodeStore.mem_snapshot.mpr he, hleads⟩

theorem Pc.taking_of_preparing (h : pc.preparing = false) : pc.taking = false := by
  cases pc with
  | checkpoint p => cases p <;> first | rfl | cases h
  | _ => rfl

/-- **One step.** -/
theorem Manifests.step (ht : Attempted S ok c ms) (h : Manifests c ms)
    (hst : ThreadPool.step (program S) c a = some c') : Manifests c' (attempt ms c a c') := by
  have hr := ht.reach
  have hahead : ∀ x, c.shared.store.Ahead x → c'.shared.store.Ahead x := fun x =>
    ahead_step hr hst
  obtain ⟨pc, sh', pc', hpc, hp, heq⟩ := step_cases hst
  have hcatch := h.threads pc (List.mem_of_getElem? hpc)
  have htried : ∀ m ∈ attempt ms c a c', ∀ x ∈ m.snapshot,
      c'.shared.store.Ahead x := by
    intro m hm x hx
    apply hahead
    rcases attempt_cases hpc ms c' with ⟨hsame, -⟩ | ⟨m', hpub, hmore⟩
    · exact h.tried m (hsame ▸ hm) x hx
    · rw [hmore] at hm
      rcases List.mem_append.mp hm with hm | hm
      · exact h.tried m hm x hx
      · rw [List.mem_singleton.mp hm] at hx
        exact (hpub.catching hcatch).1 x hx
  refine ⟨fun u hu => ?_, htried, ?_⟩
  · rcases attempt_cases hpc ms c' with ⟨hsame, -⟩ | ⟨m', hpub, -⟩
    · -- nothing is published: the thread that moved has gone on, the others have not
      obtain ⟨j, hj⟩ := List.getElem?_of_mem hu
      have hkeep : ∀ {u : Pc}, Catching c ms u → Catching c' (attempt ms c a c') u := by
        intro u hu
        rw [hsame]
        exact hu.mono hahead
      rw [heq] at hj
      by_cases hja : j = a.1
      · subst hja
        rw [List.getElem?_set_self (List.getElem?_eq_some_iff.mp hpc).1, Option.some.injEq] at hj
        subst hj
        by_cases htaking : pc'.taking = false
        · exact .of_idle htaking htried
        · rcases program_cases hp with ⟨p, p', rfl, rfl, hs⟩ | ⟨p, p', rfl, rfl, hs⟩ |
            ⟨p, p', rfl, rfl, hs⟩ | ⟨L, rfl, rfl, -, -⟩ | ⟨t, p, p', rfl, rfl, hs⟩
          · exact absurd rfl htaking
          · exact absurd rfl htaking
          · have hstore : sh'.store = c.shared.store := by
              obtain ⟨_, _, _, _, _, rfl⟩ := checkpointStep_frame hs
              rfl
            have hcp : Catching ⟨sh', c'.threads⟩ ms (.checkpoint p') :=
              checkpoint_catching hs hstore hcatch h.tried
            have hc' : (⟨sh', c'.threads⟩ : Conf Shared Pc) = c' := by rw [heq]
            rw [hc'] at hcp
            rw [hsame]
            exact hcp
          · exact absurd rfl htaking
          · exact absurd rfl htaking
      · change (c.threads.set a.1 pc')[j]? = some u at hj
        rw [List.getElem?_set_ne (Ne.symm hja)] at hj
        exact hkeep (h.threads u (List.mem_of_getElem? hj))
    · -- after a publication no thread is taking a snapshot
      have hidle : u.preparing = false := by
        obtain ⟨j, hj⟩ := List.getElem?_of_mem hu
        rw [heq] at hj
        by_cases hja : j = a.1
        · subst hja
          rw [List.getElem?_set_self (List.getElem?_eq_some_iff.mp hpc).1, Option.some.injEq] at hj
          subst hj
          exact hpub.done hp
        · change (c.threads.set a.1 pc')[j]? = some u at hj
          rw [List.getElem?_set_ne (Ne.symm hja)] at hj
          exact hpub.only hr hpc hj hja
      exact .of_idle (Pc.taking_of_preparing hidle) htried
  · rcases attempt_cases hpc ms c' with ⟨hsame, -⟩ | ⟨m', hpub, hmore⟩
    · rw [hsame]
      exact h.ordered
    · rw [hmore]
      refine List.pairwise_append.mpr ⟨h.ordered, List.pairwise_singleton _ _, fun m hm m₂ hm₂ => ?_⟩
      rw [List.mem_singleton.mp hm₂]
      exact (hpub.catching hcatch).2 m hm

theorem manifests (ht : Attempted S ok c ms) : Manifests c ms := by
  refine ht.invariant (I := Manifests) ⟨fun pc hpc => ?_, fun m hm => (by cases hm), .nil⟩
    fun _ _ _ _ ht ih _ hst => ih.step ht hst
  rcases mem_start hpc with rfl | rfl | rfl | rfl | ⟨t, rfl, -⟩ <;>
    exact .of_idle rfl fun m hm => (by cases hm)

end Entries

/-! ## Result -/

/-- A later manifest of a run: every entry is in it and has moved forward, and more nodes have been
    processed and more observations turned down. -/
structure Manifest.Precedes (m m' : Manifest) : Prop where
  entries : ∀ k e, (k, e) ∈ m.snapshot → ∃ e', (k, e') ∈ m'.snapshot ∧ e.Leads e'
  processed : m.numProcessed ≤ m'.numProcessed
  rejected : m.budgetRejected ≤ m'.budgetRejected

/-- **Of two attempts, the later one is further on.** -/
theorem attempts_precede {S : Setup} {ok : Conf Shared Pc → Nat × Answer → Prop} {c : Conf Shared Pc}
    {ms : List Manifest} (ht : Attempted S ok c ms) : ms.Pairwise Manifest.Precedes := by
  have hentries := (manifests ht).ordered
  have hprocessed := (Gauge.ordered processedGauge_lawful ht).pairwise
  have hrejected := (Gauge.ordered rejectedGauge_lawful ht).pairwise
  refine ((hentries.and hprocessed).and hrejected).imp fun {m m'} h => ?_
  exact ⟨fun k e he => h.1.1 (k, e) he, h.1.2 _ _ rfl rfl, h.2 _ _ rfl rfl⟩

/-- **Manifests only advance.**  Of two manifests that a run publishes, the later one has every entry
    of the earlier one, none of them gone back or with another verdict, and its counts are not lower;
    where no task panics while it holds a read guard, its watermark is not lower either. -/
theorem manifests_advance {S : Setup} {ok : Conf Shared Pc → Nat × Answer → Prop}
    {c : Conf Shared Pc} {g : Annals} (ht : Told S ok c g) :
    g.published.Pairwise Manifest.Precedes ∧
      (ReadersCalm ok → g.published.Pairwise fun m m' => ∀ w w', m.durableEventId = some w →
        m'.durableEventId = some w' → w ≤ w') := by
  obtain ⟨ms, hms, hsub⟩ := ht.attempted
  exact ⟨(attempts_precede hms).sublist hsub,
    fun hok => (Gauge.ordered (durableGauge_lawful hok) hms).pairwise.sublist hsub⟩

/-- A checkpoint, then a message is received, logged and handed to the store, and another
    checkpoint. -/
def twiceRun : List (Nat × Answer) :=
  asked ++ steps 2 4 ++ steps 3 1 ++ steps 2 5 ++ hear 5 .addr oneAddrMessage ++ steps 3 1 ++
    hear 8 .addr oneAddrMessage ++ steps 2 4 ++ steps 3 1 ++ steps 2 6

/-- The second checkpoint has a new entry and a later watermark. -/
theorem manifests_advance_recording : ∃ c g m m', Told recording Undisturbed c g ∧
    g.published = [m, m'] ∧ m.durableEventId = some 0 ∧ m'.durableEventId = some 1 ∧
    m.snapshot.length = 1 ∧ m'.snapshot.length = 2 ∧ m.Precedes m' ∧
    ∀ w w', m.durableEventId = some w → m'.durableEventId = some w' → w ≤ w' := by
  have hrun : (execRecord (program recording) calm Annals.record (start recording) {}
      twiceRun).map (fun r => r.2.published.map fun m => (m.durableEventId, m.snapshot.length)) =
      some [(some 0, 1), (some 1, 2)] := by
    decide
  obtain ⟨⟨c, g⟩, hc, heq⟩ := Option.map_eq_some_iff.mp hrun
  have ht : Told recording Undisturbed c g :=
    (execRecord_chronicle hc).mono fun _ _ => calm_undisturbed
  obtain ⟨m, l, hg, hm, hl⟩ := List.map_eq_cons_iff.mp heq
  obtain ⟨m', rest, rfl, hm', hrest⟩ := List.map_eq_cons_iff.mp hl
  obtain rfl := List.map_eq_nil_iff.mp hrest
  obtain ⟨hadvance, hdurable⟩ := manifests_advance ht
  have hcalm : ReadersCalm Undisturbed := fun _ _ pc h hpc hpanic => h.panic pc hpc hpanic
  have hdurable := hdurable hcalm
  rw [hg] at hadvance hdurable
  exact ⟨c, g, m, m', ht, hg, congrArg Prod.fst hm, congrArg Prod.fst hm',
    congrArg Prod.snd hm, congrArg Prod.snd hm', List.pairwise_pair.mp hadvance,
    List.pairwise_pair.mp hdurable⟩

end P2PCrawler
