import P2PCrawler.Crawler.Meters
import P2PCrawler.Crawler.Snapshots

/-!
# Records and aggregates in a snapshot

While the checkpoint task holds the write guard, every record is in the file and no task is between
a count and its record; but a task may have dropped its guard and not yet have counted its message.

* `Steady` — no write of the log fails, and no task panics with something left to count.
* `meters`, `outcomes` — **what the entries have counted is what the records say**, over a run.
* `guarded_provenance` — an entry under the write guard agrees with the log, but for the last message.
* `hastened` — the history that tells whether an entry was cloned at such a moment.

## Results

* `snapshot_provenance` — **a snapshot agrees with the log up to its watermark exactly when no
  entry was cloned while its task was about to count a message**.
-/

set_option autoImplicit false

namespace P2PCrawler

open ThreadPool

/-! ## Over a run -/

/-- No write of the log fails, and no task panics while it holds a read guard or before it has
    counted a message. -/
structure Steady (c : Conf Shared Pc) (a : Nat × Answer) : Prop extends Undisturbed c a where
  counting : ∀ t k p, c.threads[a.1]? = some (.worker t (.task k p)) → a.2.panic = true →
    p.counting = false

/-- What the records say, those that were handed over and those in the hands of the threads. -/
def passed (w : LogEvent → ℕ) (c : Conf Shared Pc) : ℤ :=
  ((c.shared.log.records.map w).sum : ℕ) + load (fun pc => ((pc.unsent.elim 0 w : ℕ) : ℤ)) c.threads

theorem sum_toList (w : LogEvent → ℕ) (o : Option LogEvent) : (o.toList.map w).sum = o.elim 0 w := by
  cases o <;> simp

section Run
variable {S : Setup} {c c' : Conf Shared Pc} {a : Nat × Answer} {pc : Pc}

theorem steady_undisturbed (hr : Reach (program S) Steady (start S) c) :
    Reach (program S) Undisturbed (start S) c :=
  hr.mono fun _ _ h => h.toUndisturbed

theorem passed_start (S : Setup) (w : LogEvent → ℕ) : passed w (start S) = 0 := by
  have hload : load (fun pc : Pc => ((pc.unsent.elim 0 w : ℕ) : ℤ)) (start S).threads = 0 := by
    refine load_eq_zero fun pc hpc => ?_
    rcases mem_start hpc with rfl | rfl | rfl | rfl | ⟨t, rfl, -⟩ <;> rfl
  unfold passed
  rw [hload]
  rfl

/-- A step adds what its thread starts to record. -/
theorem passed_step (hlog : S.logging = true) (hr : Reach (program S) Steady (start S) c)
    (hok : Steady c a) (hst : ThreadPool.step (program S) c a = some c')
    (hpc : c.threads[a.1]? = some pc) (w : LogEvent → ℕ) :
    passed w c' = passed w c + ((pc.starts S a.2.now).elim 0 w : ℕ) := by
  obtain ⟨pc₀, sh', pc', hpc₀, hp, rfl⟩ := step_cases hst
  rw [hpc] at hpc₀
  cases hpc₀
  obtain ⟨hwriters, hcarries⟩ := writers_ok hr
  have hbefore := hwriters pc (List.mem_of_getElem? hpc)
  have hflow := program_flow hlog hp hok.fault (hok.panic pc hpc) hbefore
    (program_writesOf hp hbefore (fun _ k _ _ e he => ⟨k, he⟩) hcarries).1
  have hsum := congrArg (fun records => (records.map w).sum) hflow
  simp only [List.map_append, List.sum_append, sum_toList] at hsum
  have hload := load_set (fun pc : Pc => ((pc.unsent.elim 0 w : ℕ) : ℤ)) pc' hpc
  simp only [passed]
  omega

/-- Every write is acknowledged with its id. -/
theorem acknowledged (hr : Reach (program S) Steady (start S) c) (hpc : c.threads[a.1]? = some pc)
    (call : LogCall) (event : LogEvent) (hcall : pc.call = some call)
    (hreq : call.request = .write event) (L : LogState) :
    call.step c.shared.log ≠ some (L, .returned none) := by
  intro hs
  obtain ⟨r, eventId, ticket, rfl, hreply, -⟩ := LogCall.step_returned hs
  cases hreq
  cases write_acknowledged (steady_undisturbed hr) hpc hcall hreply

/-- **The counters of a node** are what its records say, but for what its task has still to add. -/
theorem meters (hlog : S.logging = true) (hr : Reach (program S) Steady (start S) c) (μ : Meter)
    (k : AddrKey) :
    (μ.read (c.shared.store.counted k) : ℤ) + load (fun pc => (μ.owedFor k pc : ℤ)) c.threads =
      passed (μ.weightFor k) c := by
  refine hr.invariant (I := fun c => (μ.read (c.shared.store.counted k) : ℤ) +
    load (fun pc => (μ.owedFor k pc : ℤ)) c.threads = passed (μ.weightFor k) c) ?_ ?_
  · have hload : load (fun pc => (μ.owedFor k pc : ℤ)) (start S).threads = 0 := by
      refine load_eq_zero fun pc hpc => ?_
      rcases mem_start hpc with rfl | rfl | rfl | rfl | ⟨t, rfl, -⟩ <;> rfl
    have hread : μ.read ((start S).shared.store.counted k) = 0 := μ.zero
    rw [hload, hread, passed_start]
    rfl
  · intro c a c' hr ih hok hst
    obtain ⟨pc, sh', pc', hpc, hp, heq⟩ := step_cases hst
    have hmem := List.mem_of_getElem? hpc
    have hpassed := passed_step hlog hr hok hst hpc (μ.weightFor k)
    have hmeter := program_meter μ k hlog hp ((writers_ok hr).1 pc hmem)
      (fun hk => (held_once hr).seen_of_mem hmem hk) (acknowledged hr hpc) fun t key p htask hpanic => by
        subst htask
        refine ⟨hok.counting t key p hpc hpanic, ?_⟩
        by_contra hg
        have hreads := hok.panic _ hpc hpanic
        simp [Pc.reads, hg] at hreads
    have hload := load_set (fun pc => (μ.owedFor k pc : ℤ)) pc' hpc
    subst heq
    simp only at hmeter hpassed hload ih ⊢
    omega

theorem passed_nonneg (w : LogEvent → ℕ) (c : Conf Shared Pc) : 0 ≤ passed w c := by
  have hload := load_nonneg (f := fun pc : Pc => ((pc.unsent.elim 0 w : ℕ) : ℤ))
    (fun _ => Int.natCast_nonneg _) c.threads
  unfold passed
  omega

/-- **An outcome is set** exactly if its record is on its way. -/
theorem outcomes (hlog : S.logging = true) (hr : Reach (program S) Steady (start S) c) (k : AddrKey) :
    (c.shared.store.counted k).collectionOutcome ≠ .notRequested ↔
      0 < passed (LogEvent.outcomeOf k) c := by
  refine hr.invariant (I := fun c => (c.shared.store.counted k).collectionOutcome ≠ .notRequested ↔
    0 < passed (LogEvent.outcomeOf k) c) ?_ ?_
  · rw [passed_start]
    exact ⟨fun hne => absurd rfl hne, fun hpos => absurd hpos (lt_irrefl 0)⟩
  · intro c a c' hr ih hok hst
    obtain ⟨pc, sh', pc', hpc, hp, heq⟩ := step_cases hst
    have hmem := List.mem_of_getElem? hpc
    have hpassed := passed_step hlog hr hok hst hpc (LogEvent.outcomeOf k)
    rw [hpassed]
    have hshared : c'.shared = sh' := by rw [heq]
    rw [hshared]
    rcases program_outcome k hp ((writers_ok hr).1 pc hmem)
      (fun hk => (held_once hr).seen_of_mem hmem hk) (hok.panic pc hpc) with
      ⟨t, sess, outcome, rfl, hset⟩ | ⟨hsame, hnone⟩
    · have hne : outcome ≠ .notRequested := decided hr _ hmem
      have hone : ((Pc.worker t (.task k (.outcomeWrite sess outcome))).starts S a.2.now).elim 0
          (LogEvent.outcomeOf k) = 1 := if_pos ⟨rfl, rfl⟩
      have hnonneg := passed_nonneg (LogEvent.outcomeOf k) c
      rw [hset, hone]
      exact ⟨fun _ => by omega, fun _ => hne⟩
    · rw [hsame, hnone, ih]
      exact ⟨fun hpos => by omega, fun hpos => by omega⟩

/-- The nodes of the records are stored. -/
theorem records_known {ok : Conf Shared Pc → Nat × Answer → Prop}
    (hr : Reach (program S) ok (start S) c) :
    ∀ e ∈ c.shared.log.records, ∃ entry, c.shared.store.entry e.key = some entry := by
  intro e he
  have hknown := logged_known hr
  rcases List.mem_append.mp he with he | he
  · obtain ⟨p, hp, rfl⟩ := List.mem_map.mp he
    exact hknown.written p hp
  · obtain ⟨cmd, hcmd, hevent⟩ := List.mem_filterMap.mp he
    cases cmd with
    | append event eventId ticket => cases hevent; exact hknown.channel _ hcmd
    | flush ticket => cases hevent

end Run

/-! ## Under the write guard -/

/-- The task is about to count a message of the node `k`, with its guard dropped. -/
def Pc.lags (k : AddrKey) : Pc → Bool
  | .worker _ (.task key (.messageDone ..)) => decide (key = k)
  | _ => false

/-- The records up to an id. -/
def LogState.upTo (L : LogState) (w : Nat) : List LogEvent :=
  (L.written.filter fun p => decide (p.eventId ≤ w)).map (·.event)

theorem messagesOf_cons (k : AddrKey) (e : LogEvent) (records : List LogEvent) :
    messagesOf k (e :: records) =
      (if e.key = k then e.message.toList else []) ++ messagesOf k records := by
  unfold messagesOf
  by_cases hk : e.key = k
  · rw [List.filter_cons_of_pos (by simpa using hk), if_pos hk]
    cases hm : e.message with
    | none => rw [List.filterMap_cons_none hm]; rfl
    | some parsed => rw [List.filterMap_cons_some hm]; rfl
  · rw [List.filter_cons_of_neg (by simpa using hk), if_neg hk]
    rfl

/-- What the records of a node say about a counter. -/
theorem sum_weightFor (μ : Meter) (k : AddrKey) (records : List LogEvent) :
    (records.map (μ.weightFor k)).sum =
      ((messagesOf k records).map fun parsed => μ.perBreakdown parsed + μ.perValid).sum +
        (records.countP fun e => decide (e.key = k) && e.isMalformed) * μ.perMalformed := by
  induction records with
  | nil => simp [messagesOf]
  | cons e records ih =>
    rw [List.map_cons, List.sum_cons, ih, messagesOf_cons, List.map_append, List.sum_append,
      List.countP_cons, Nat.add_mul]
    have hhead : μ.weightFor k e =
        ((if e.key = k then e.message.toList else []).map fun parsed =>
            μ.perBreakdown parsed + μ.perValid).sum +
          (if (decide (e.key = k) && e.isMalformed) = true then 1 else 0) * μ.perMalformed := by
      unfold Meter.weightFor
      by_cases hk : e.key = k
      · rw [if_pos hk, if_pos hk]
        cases e <;> simp [hk, LogEvent.message, LogEvent.isMalformed, Meter.weight]
      · simp [hk]
    omega

theorem sum_outcomeOf (k : AddrKey) (records : List LogEvent) :
    0 < (records.map (LogEvent.outcomeOf k)).sum ↔
      ∃ e ∈ records, e.key = k ∧ e.isOutcome = true := by
  induction records with
  | nil => simp
  | cons e records ih =>
    rw [List.map_cons, List.sum_cons, List.exists_mem_cons_iff, ← ih]
    unfold LogEvent.outcomeOf
    by_cases he : e.key = k ∧ e.isOutcome = true
    · rw [if_pos he]
      exact ⟨fun _ => .inl he, fun _ => by omega⟩
    · rw [if_neg he]
      rw [Nat.zero_add]
      exact ⟨.inr, fun hor => hor.resolve_left he⟩

section Guarded
variable {S : Setup} {c : Conf Shared Pc} {p : CheckpointPc}

/-- While the write guard is held, nobody is in a call that writes. -/
theorem nobody_writes {ok : Conf Shared Pc → Nat × Answer → Prop}
    (hr : Reach (program S) ok (start S) c) (hp : Pc.checkpoint p ∈ c.threads)
    (hguarded : p.guarded = true) {pc : Pc} (hpc : pc ∈ c.threads) {call : LogCall}
    (hcall : pc.call = some call) : call.request = .flush := by
  have hok := (writers_ok hr).1 pc hpc
  cases pc with
  | main q =>
    cases q with
    | flushing r call' => cases hcall; exact hok
    | _ => cases hcall
  | checkpoint q =>
    cases q with
    | flushing processed call' => cases hcall; exact hok
    | _ => cases hcall
  | worker t q =>
    cases q with
    | task k q =>
      have hnone := TaskPc.call_of_not_guarded ((barrier hr).nobody_guarded hp hguarded hpc)
      cases hnone.symm.trans hcall
    | _ => cases hcall
  | _ => cases hcall

/-- While the write guard is held, every record is in the file. -/
theorem guarded_records (hr : Reach (program S) Undisturbed (start S) c)
    (hp : Pc.checkpoint p ∈ c.threads) (hguarded : p.guarded = true) :
    c.shared.log.records = c.shared.log.written.map (·.event) := by
  have hchannel : c.shared.log.channel.filterMap WriterCommand.event = [] := by
    cases undisturbed_log hr with
    | free hw hl hidle => rw [hidle.1]; rfl
    | held i call hw hl hcall hh hturn =>
      obtain ⟨pc, hpc, hpccall⟩ := Option.bind_eq_some_iff.mp hcall
      have hflush := nobody_writes hr hp hguarded (List.mem_of_getElem? hpc) hpccall
      cases call with
      | lock r => cases hh
      | send r eventId => rw [hturn.1]; rfl
      | wait r eventId ticket =>
        cases hflush
        obtain ⟨-, -, ⟨hch, -⟩ | ⟨hch, -⟩⟩ := hturn <;> rw [hch] <;> rfl
  unfold LogState.records
  rw [hchannel, List.append_nil]

/-- While the write guard is held, what was handed over is all there is. -/
theorem guarded_passed (hr : Reach (program S) Undisturbed (start S) c)
    (hp : Pc.checkpoint p ∈ c.threads) (hguarded : p.guarded = true) (w : LogEvent → ℕ) :
    passed w c = (((c.shared.log.written.map (·.event)).map w).sum : ℕ) := by
  have hload : load (fun pc : Pc => ((pc.unsent.elim 0 w : ℕ) : ℤ)) c.threads = 0 := by
    refine load_eq_zero fun pc hpc => ?_
    have hnone : pc.unsent = none := by
      unfold Pc.unsent
      cases hcall : pc.call with
      | none => rfl
      | some call => exact LogCall.unsent_of_flush (nobody_writes hr hp hguarded hpc hcall)
    rw [hnone]
    rfl
  unfold passed
  rw [hload, guarded_records hr hp hguarded, add_zero]

/-- While the write guard is held, the entries agree with the log, but for the messages that are
    about to be counted. -/
theorem guarded_meter (hlog : S.logging = true) (hr : Reach (program S) Steady (start S) c)
    (hp : Pc.checkpoint p ∈ c.threads) (hguarded : p.guarded = true) (μ : Meter) (k : AddrKey) :
    (μ.read (c.shared.store.counted k) : ℤ) +
        load (fun pc => ((if pc.lags k then μ.perValid else 0 : ℕ) : ℤ)) c.threads =
      (((messagesOf k (c.shared.log.written.map (·.event))).map fun parsed =>
          μ.perBreakdown parsed + μ.perValid).sum +
        ((c.shared.log.written.map (·.event)).countP fun e =>
          decide (e.key = k) && e.isMalformed) * μ.perMalformed : ℕ) := by
  have howed : load (fun pc => (μ.owedFor k pc : ℤ)) c.threads =
      load (fun pc => ((if pc.lags k then μ.perValid else 0 : ℕ) : ℤ)) c.threads := by
    unfold load
    congr 1
    refine List.map_congr_left fun pc hpc => ?_
    cases pc with
    | worker t q =>
      cases q with
      | task key q =>
        have hfree := (barrier hr).nobody_guarded hp hguarded hpc
        cases q with
        | messageDone =>
          by_cases hk : key = k
          · simp [Meter.owedFor, Meter.owed, TaskPc.counting, Pc.lags, hk]
          · simp [Meter.owedFor, Pc.lags, hk]
        | blockLog | shuffling | upserting | enqueueing => cases hfree
        | _ => exact congrArg _ (ite_self 0)
      | _ => rfl
    | _ => rfl
  rw [← howed, meters hlog hr μ k, guarded_passed (steady_undisturbed hr) hp hguarded, sum_weightFor]

/-- **An entry under the write guard** agrees with the log, but for the count of valid messages where
    its task is about to raise it. -/
theorem guarded_provenance (hlog : S.logging = true) (hr : Reach (program S) Steady (start S) c)
    (hp : Pc.checkpoint p ∈ c.threads) (hguarded : p.guarded = true) {k : AddrKey} {e : NodeEntry}
    (he : c.shared.store.entry k = some e) :
    Recounted k e.stats (c.shared.log.written.map (·.event)) ∧
      (Provenance k e.stats (c.shared.log.written.map (·.event)) ↔
        c.threads.any (Pc.lags k) = false) := by
  have hcounted : c.shared.store.counted k = e.stats := by
    unfold NodeStore.counted NodeStore.statsOf
    rw [he]
    rfl
  have hmeter := fun μ => guarded_meter hlog hr hp hguarded μ k
  simp only [hcounted] at hmeter
  -- a counter that has nothing to wait for
  have hidle : ∀ μ : Meter, μ.perValid = 0 →
      load (fun pc => ((if pc.lags k then μ.perValid else 0 : ℕ) : ℤ)) c.threads = 0 := by
    intro μ hzero
    refine load_eq_zero fun pc _ => ?_
    rw [hzero, ite_self]
    rfl
  have hrecounted : Recounted k e.stats (c.shared.log.written.map (·.event)) := by
    refine ⟨?_, fun net => ?_, ?_, ?_⟩
    · have htotal := hmeter totalMeter
      rw [hidle totalMeter rfl] at htotal
      simp only [totalMeter, add_zero, mul_zero] at htotal
      exact_mod_cast htotal
    · have hnet := hmeter (networkMeter net)
      rw [hidle (networkMeter net) rfl] at hnet
      simp only [networkMeter, add_zero, mul_zero] at hnet
      exact_mod_cast hnet
    · have hmalformed := hmeter malformedMeter
      have hnone : ((messagesOf k (c.shared.log.written.map (·.event))).map fun parsed =>
          malformedMeter.perBreakdown parsed + malformedMeter.perValid).sum = 0 := by
        simp [malformedMeter]
      rw [hidle malformedMeter rfl, hnone] at hmalformed
      simp only [malformedMeter, add_zero, mul_one, zero_add] at hmalformed
      exact_mod_cast hmalformed
    · have hout := outcomes hlog hr k
      rw [hcounted, guarded_passed (steady_undisturbed hr) hp hguarded, Int.natCast_pos,
        sum_outcomeOf] at hout
      exact hout
  refine ⟨hrecounted, ?_⟩
  have hvalid := hmeter validMeter
  have hlength : ((messagesOf k (c.shared.log.written.map (·.event))).map fun parsed =>
      validMeter.perBreakdown parsed + validMeter.perValid).sum =
        (messagesOf k (c.shared.log.written.map (·.event))).length := by
    simp [validMeter]
  rw [hlength] at hvalid
  simp only [validMeter, mul_zero, add_zero] at hvalid
  constructor
  · intro hprov
    rw [List.any_eq_false]
    intro pc hpc hlags
    have hle := le_load (f := fun pc : Pc => ((if pc.lags k then 1 else 0 : ℕ) : ℤ))
      (fun _ => Int.natCast_nonneg _) hpc
    simp only [hlags, if_true] at hle
    have heq := hprov.valid
    omega
  · intro hnone
    refine ⟨hrecounted, ?_⟩
    have hzero : load (fun pc : Pc => ((if pc.lags k then 1 else 0 : ℕ) : ℤ)) c.threads = 0 := by
      refine load_eq_zero fun pc hpc => ?_
      rw [Bool.eq_false_iff.mpr (List.any_eq_false.mp hnone pc hpc)]
      rfl
    omega

end Guarded

/-! ## Snapshots -/

/-- History: an entry of the last snapshot was cloned while its task was about to count a message. -/
def hastened (hasty : Bool) (c : Conf Shared Pc) (a : Nat × Answer) (_ : Conf Shared Pc) : Bool :=
  match c.threads[a.1]? with
  | some (.checkpoint (.snapshotting ..)) => false
  | some (.checkpoint (.cloning _ _ (k :: _) _)) => hasty || c.threads.any (Pc.lags k)
  | _ => hasty

/-- What has been cloned, and the log up to the watermark. -/
structure Snapped (records : List LogEvent) (rest : List AddrKey) (acc : List (AddrKey × NodeEntry))
    (hasty : Bool) : Prop where
  recounted : ∀ x ∈ acc, Recounted x.1 x.2.stats records
  provenance : (∀ x ∈ acc, Provenance x.1 x.2.stats records) ↔ hasty = false
  known : ∀ e ∈ records, e.key ∈ rest ∨ ∃ entry, (e.key, entry) ∈ acc

/-- What the position of the checkpoint task says about the snapshot it takes. -/
def Pc.Snaps (L : LogState) (hasty : Bool) : Pc → Prop
  | .checkpoint (.snapshotting _ durable) =>
    ∃ w, durable = some w ∧ w ≤ L.written.length ∧ L.upTo w = L.written.map (·.event)
  | .checkpoint (.cloning _ durable rest acc) =>
    ∃ w, durable = some w ∧ w ≤ L.written.length ∧ L.upTo w = L.written.map (·.event) ∧
      Snapped (L.upTo w) rest acc hasty
  | .checkpoint (.publishing m) =>
    ∃ w, m.durableEventId = some w ∧ w ≤ L.written.length ∧ Snapped (L.upTo w) [] m.snapshot hasty
  | _ => True

section Snapshot
variable {S : Setup} {c c' : Conf Shared Pc} {a : Nat × Answer} {hasty : Bool}

/-- What is written later does not come under the watermark. -/
theorem upTo_kept (hr : Reach (program S) Steady (start S) c) (hok : Steady c a)
    (hst : ThreadPool.step (program S) c a = some c') {w : Nat}
    (hw : w ≤ c.shared.log.written.length) :
    c'.shared.log.upTo w = c.shared.log.upTo w ∧ w ≤ c'.shared.log.written.length := by
  rcases undisturbed_written (steady_undisturbed hr) hok.toUndisturbed hst with
    hsame | ⟨_, _, event, eventId, _, -, -, -, hid, hmore⟩
  · unfold LogState.upTo
    rw [hsame]
    exact ⟨rfl, hw⟩
  · unfold LogState.upTo
    rw [hmore, List.filter_append, List.length_append]
    have hlate : decide (eventId ≤ w) = false := decide_eq_false (by omega)
    rw [List.filter_singleton, hlate]
    exact ⟨congrArg (List.map Piece.event) (List.append_nil _), by omega⟩

/-- While the write guard is held, nothing is written. -/
theorem guarded_written {p : CheckpointPc} (hr : Reach (program S) Steady (start S) c)
    (hok : Steady c a) (hst : ThreadPool.step (program S) c a = some c')
    (hp : Pc.checkpoint p ∈ c.threads) (hguarded : p.guarded = true) :
    c'.shared.log.written = c.shared.log.written := by
  rcases undisturbed_written (steady_undisturbed hr) hok.toUndisturbed hst with
    hsame | ⟨_, _, event, eventId, _, -, hpc, hcall, -⟩
  · exact hsame
  · cases nobody_writes hr hp hguarded (List.mem_of_getElem? hpc) hcall

/-- Nobody is about to count a message of a node without an entry. -/
theorem lags_stored {ok : Conf Shared Pc → Nat × Answer → Prop}
    (hr : Reach (program S) ok (start S) c) {k : AddrKey} (hnone : c.shared.store.entry k = none) :
    c.threads.any (Pc.lags k) = false := by
  rw [List.any_eq_false]
  intro pc hpc hlags
  unfold Pc.lags at hlags
  split at hlags
  · rename_i t key sess count
    have hkey : key = k := of_decide_eq_true hlags
    subst hkey
    obtain ⟨entry, hentry⟩ := entry_of_seen ((held_once hr).seen_of_mem hpc task_key_mem)
    rw [hnone] at hentry
    cases hentry
  · cases hlags

/-- **Cloning an entry.** -/
theorem Snapped.clone {p : CheckpointPc} {w : Nat} {k : AddrKey} {rest : List AddrKey}
    {acc : List (AddrKey × NodeEntry)} (h : Snapped (c.shared.log.upTo w) (k :: rest) acc hasty)
    (hlog : S.logging = true) (hr : Reach (program S) Steady (start S) c)
    (hp : Pc.checkpoint p ∈ c.threads) (hguarded : p.guarded = true)
    (hall : c.shared.log.upTo w = c.shared.log.written.map (·.event)) :
    Snapped (c.shared.log.upTo w) rest
      (match c.shared.store.entry k with | some e => acc ++ [(k, e)] | none => acc)
      (hasty || c.threads.any (Pc.lags k)) := by
  cases he : c.shared.store.entry k with
  | none =>
    rw [lags_stored hr he, Bool.or_false]
    refine ⟨h.recounted, h.provenance, fun e hmem => ?_⟩
    rcases h.known e hmem with hrest | hacc
    · rcases List.mem_cons.mp hrest with hk | hrest
      · -- every record is about a stored node
        rw [hall, ← guarded_records (steady_undisturbed hr) hp hguarded] at hmem
        obtain ⟨entry, hentry⟩ := records_known hr e hmem
        rw [hk, he] at hentry
        cases hentry
      · exact .inl hrest
    · exact .inr hacc
  | some e =>
    obtain ⟨hrecounted, hprov⟩ := guarded_provenance hlog hr hp hguarded he
    rw [← hall] at hrecounted hprov
    refine ⟨fun x hx => ?_, ?_, fun e' hmem => ?_⟩
    · rcases List.mem_append.mp hx with hx | hx
      · exact h.recounted x hx
      · rw [List.mem_singleton.mp hx]
        exact hrecounted
    · rw [Bool.or_eq_false_iff, ← h.provenance, ← hprov]
      constructor
      · exact fun hboth => ⟨fun x hx => hboth x (List.mem_append_left _ hx),
          hboth (k, e) (List.mem_append_right _ (List.mem_singleton.mpr rfl))⟩
      · rintro ⟨hold, hnew⟩ x hx
        rcases List.mem_append.mp hx with hx | hx
        · exact hold x hx
        · rw [List.mem_singleton.mp hx]
          exact hnew
    · rcases h.known e' hmem with hrest | ⟨entry, hentry⟩
      · rcases List.mem_cons.mp hrest with hk | hrest
        · exact .inr ⟨e, List.mem_append_right _ (List.mem_singleton.mpr (by rw [hk]))⟩
        · exact .inl hrest
      · exact .inr ⟨entry, List.mem_append_left _ hentry⟩

/-- The thread that does not move keeps its snapshot. -/
theorem Pc.Snaps.kept {pc : Pc} (h : pc.Snaps c.shared.log hasty)
    (hr : Reach (program S) Steady (start S) c) (hok : Steady c a)
    (hst : ThreadPool.step (program S) c a = some c') (hpc : pc ∈ c.threads) :
    pc.Snaps c'.shared.log hasty := by
  cases pc with
  | checkpoint p =>
    cases p with
    | snapshotting processed durable =>
      obtain ⟨w, hdurable, hw, hall⟩ := h
      obtain ⟨hup, hw'⟩ := upTo_kept hr hok hst hw
      exact ⟨w, hdurable, hw', by rw [hup, guarded_written hr hok hst hpc rfl, hall]⟩
    | cloning processed durable rest acc =>
      obtain ⟨w, hdurable, hw, hall, hsnap⟩ := h
      obtain ⟨hup, hw'⟩ := upTo_kept hr hok hst hw
      exact ⟨w, hdurable, hw', by rw [hup, guarded_written hr hok hst hpc rfl, hall],
        by rw [hup]; exact hsnap⟩
    | publishing m =>
      obtain ⟨w, hdurable, hw, hsnap⟩ := h
      obtain ⟨hup, hw'⟩ := upTo_kept hr hok hst hw
      exact ⟨w, hdurable, hw', by rw [hup]; exact hsnap⟩
    | _ => trivial
  | _ => trivial

/-- A complete flush reports an id that no record exceeds. -/
theorem flush_covers (hr : Reach (program S) Steady (start S) c) {processed : Nat} {call : LogCall}
    (hp : Pc.checkpoint (.flushing processed call) ∈ c.threads) {L : LogState} {w : Nat}
    (hs : call.step c.shared.log = some (L, .returned (some w))) :
    w ≤ c.shared.log.written.length ∧
      c.shared.log.upTo w = c.shared.log.written.map (·.event) := by
  have hu := steady_undisturbed hr
  have hflush : call.request = .flush := (writers_ok hr).1 _ hp
  refine ⟨flush_reported hu hp rfl hflush hs, ?_⟩
  obtain ⟨r, eventId, ticket, rfl, hreply, -⟩ := LogCall.step_returned hs
  cases hflush
  obtain ⟨i, hi⟩ := List.getElem?_of_mem hp
  have hk : callsOf Pc.call c.threads i = some (.wait .flush eventId ticket) := by
    unfold callsOf
    rw [hi]
    rfl
  obtain ⟨hw, hturn⟩ := (undisturbed_log hu).turn hk rfl
  obtain ⟨-, -, hres⟩ := hturn.leave hreply
  have hlast : w = lastComplete c.shared.log.written := by
    rcases hres with hres | hres
    · cases hres
    · cases hres
      exact hw.durable
  have hall : ∀ p ∈ c.shared.log.written, p.eventId ≤ w := by
    intro p hp
    rw [hlast]
    exact eventId_le_lastComplete hw.numbered (undisturbed_whole hu) p hp
  unfold LogState.upTo
  rw [List.filter_eq_self.mpr fun p hp => decide_eq_true (hall p hp)]

/-- **One step of the checkpoint task.** -/
theorem checkpoint_snaps {p p' : CheckpointPc} {b : Answer} (hlog : S.logging = true)
    (hr : Reach (program S) Steady (start S) c) (hok : Steady c a)
    (hst : ThreadPool.step (program S) c a = some c') (hpc : c.threads[a.1]? = some (.checkpoint p))
    (hs : checkpointStep S c.shared b p = some (c'.shared, p'))
    (h : (Pc.checkpoint p).Snaps c.shared.log hasty) :
    (Pc.checkpoint p').Snaps c'.shared.log (hastened hasty c a c') := by
  have hmem := List.mem_of_getElem? hpc
  cases p with
  | flushing processed call =>
    rcases logStep_cases hs with ⟨call', -, rfl⟩ | ⟨res, hcall, rfl⟩
    · trivial
    · cases res with
      | none => trivial
      | some w =>
        obtain ⟨hw, hall⟩ := flush_covers hr hmem hcall
        obtain ⟨hup, hw'⟩ := upTo_kept hr hok hst hw
        exact ⟨w, rfl, hw', by rw [hup, guarded_written hr hok hst hmem rfl, hall]⟩
  | snapshotting processed durable =>
    obtain ⟨w, rfl, hw, hall⟩ := h
    obtain ⟨hup, hw'⟩ := upTo_kept hr hok hst hw
    have hfresh : hastened hasty c a c' = false := by
      unfold hastened
      rw [hpc]
    simp only [checkpointStep, Option.some.injEq, Prod.mk.injEq] at hs
    obtain ⟨-, rfl⟩ := hs
    refine ⟨w, rfl, hw', by rw [hup, guarded_written hr hok hst hmem rfl, hall], ?_⟩
    rw [hfresh, hup, hall]
    refine ⟨fun x hx => (by cases hx), ⟨fun _ => rfl, fun _ x hx => by cases hx⟩, fun e he => .inl ?_⟩
    rw [← guarded_records (steady_undisturbed hr) hmem rfl] at he
    obtain ⟨entry, hentry⟩ := records_known hr e he
    exact AList.lookup_isSome.mp (by rw [show c.shared.store.map.lookup e.key = some entry from hentry]; rfl)
  | cloning processed durable rest acc =>
    obtain ⟨w, rfl, hw, hall, hsnap⟩ := h
    obtain ⟨hup, hw'⟩ := upTo_kept hr hok hst hw
    cases rest with
    | nil =>
      have hsame : hastened hasty c a c' = hasty := by
        unfold hastened
        rw [hpc]
      simp only [checkpointStep, Option.some.injEq, Prod.mk.injEq] at hs
      obtain ⟨-, rfl⟩ := hs
      exact ⟨w, rfl, hw', by rw [hup, hsame]; exact hsnap⟩
    | cons k rest =>
      have hnext : hastened hasty c a c' = (hasty || c.threads.any (Pc.lags k)) := by
        unfold hastened
        rw [hpc]
      simp only [checkpointStep, Option.some.injEq, Prod.mk.injEq] at hs
      obtain ⟨-, rfl⟩ := hs
      refine ⟨w, rfl, hw', by rw [hup, guarded_written hr hok hst hmem rfl, hall], ?_⟩
      rw [hnext, hup]
      exact hsnap.clone hlog hr hmem rfl hall
  | idle | acquiring =>
    simp only [checkpointStep] at hs
    repeat' split at hs
    all_goals simp only [Option.some.injEq, Prod.mk.injEq, reduceCtorEq] at hs
    all_goals obtain ⟨-, rfl⟩ := hs
    all_goals trivial
  | exited => cases hs
  | _ =>
    simp only [checkpointStep, Option.some.injEq, Prod.mk.injEq] at hs
    obtain ⟨-, rfl⟩ := hs
    trivial

/-- What the checkpoint task knows of its snapshot, in every run. -/
theorem snapshots_taken (hlog : S.logging = true)
    (hr : Chronicle (program S) Steady hastened (start S) false c hasty) :
    ∀ pc ∈ c.threads, pc.Snaps c.shared.log hasty := by
  refine hr.invariant (I := fun c hasty => ∀ pc ∈ c.threads, pc.Snaps c.shared.log hasty) ?_ ?_
  · intro pc hpc
    rcases mem_start hpc with rfl | rfl | rfl | rfl | ⟨t, rfl, -⟩ <;> trivial
  · intro c hasty a c' hr ih hok hst u hu
    have hreach := hr.reach
    obtain ⟨pc, sh', pc', hpc, hp, heq⟩ := step_cases hst
    obtain ⟨j, hj⟩ := List.getElem?_of_mem hu
    by_cases hja : j = a.1
    · -- The thread that has moved.
      have hself : u = pc' := by
        rw [heq, hja] at hj
        change (c.threads.set a.1 pc')[a.1]? = some u at hj
        rw [List.getElem?_set_self (List.getElem?_eq_some_iff.mp hpc).1] at hj
        exact (Option.some.inj hj).symm
      subst hself
      have hshared : sh' = c'.shared := by rw [heq]
      subst hshared
      rcases program_cases hp with ⟨p, p', rfl, rfl, hs⟩ | ⟨p, p', rfl, rfl, hs⟩ |
        ⟨p, p', rfl, rfl, hs⟩ | ⟨L, rfl, rfl, -, -⟩ | ⟨t, p, p', rfl, rfl, hs⟩
      · trivial
      · trivial
      · exact checkpoint_snaps hlog hreach hok hst hpc hs (ih _ (List.mem_of_getElem? hpc))
      · trivial
      · trivial
    · have hold : c.threads[j]? = some u := by
        rw [heq] at hj
        change (c.threads.set a.1 pc')[j]? = some u at hj
        rwa [List.getElem?_set_ne (Ne.symm hja)] at hj
      have hmem := List.mem_of_getElem? hold
      by_cases hc : ∃ p, u = .checkpoint p
      · -- There is one checkpoint task, so the history stays.
        obtain ⟨p, rfl⟩ := hc
        have hsame : hastened hasty c a c' = hasty := by
          unfold hastened
          rw [hpc]
          cases pc with
          | checkpoint q =>
            exact absurd ((checkpoint_index hreach hold).trans (checkpoint_index hreach hpc).symm) hja
          | _ => rfl
        rw [hsame]
        exact (ih _ hmem).kept hreach hok hst hmem
      · cases u with
        | checkpoint p => exact absurd ⟨p, rfl⟩ hc
        | _ => trivial

end Snapshot

/-- **Provenance and aggregates.**  In every run of a crawl that keeps the log, with any workers and
    any interleaving, in which no write of the log fails and no task panics under a read guard or
    before it has counted a message: a checkpoint's snapshot has an entry for each node in the log up
    to its watermark; in every entry the totals, the network counters, the count of malformed messages
    and the outcome are what the log says; and the counts of valid messages are what the log says
    exactly when no entry was cloned while its task was about to count a message. -/
theorem snapshot_provenance {S : Setup} {c : Conf Shared Pc} {hasty : Bool} {m : Manifest}
    (hlog : S.logging = true) (hr : Chronicle (program S) Steady hastened (start S) false c hasty)
    (hm : Pc.checkpoint (.publishing m) ∈ c.threads) :
    ∃ w, m.durableEventId = some w ∧
      (∀ e ∈ c.shared.log.upTo w, ∃ entry, (e.key, entry) ∈ m.snapshot) ∧
      (∀ k entry, (k, entry) ∈ m.snapshot → Recounted k entry.stats (c.shared.log.upTo w)) ∧
      ((∀ k entry, (k, entry) ∈ m.snapshot → Provenance k entry.stats (c.shared.log.upTo w)) ↔
        hasty = false) := by
  obtain ⟨w, hw, -, hsnap⟩ := snapshots_taken hlog hr _ hm
  refine ⟨w, hw, fun e he => ?_, fun k entry hentry => hsnap.recounted _ hentry, ?_⟩
  · rcases hsnap.known e he with hnone | hentry
    · cases hnone
    · exact hentry
  · rw [← hsnap.provenance]
    exact ⟨fun h x hx => h x.1 x.2 hx, fun h k entry hentry => h _ hentry⟩

/-! ## A checkpoint that overtakes a message -/

/-- The snapshot that a checkpoint task has taken. -/
def Pc.taken : Pc → Option Manifest
  | .checkpoint (.publishing m) => some m
  | _ => none

theorem taken_mem {c : Conf Shared Pc} {i : Nat} {m : Manifest}
    (h : c.threads[i]?.bind Pc.taken = some m) : Pc.checkpoint (.publishing m) ∈ c.threads := by
  obtain ⟨pc, hpc, hm⟩ := Option.bind_eq_some_iff.mp h
  have heq : pc = .checkpoint (.publishing m) := by
    unfold Pc.taken at hm
    split at hm
    · cases hm; rfl
    · cases hm
  rw [← heq]
  exact List.mem_of_getElem? hpc

theorem calm_steady {c : Conf Shared Pc} {a : Nat × Answer} (h : calm c a = true) : Steady c a := by
  refine ⟨calm_undisturbed h, fun t k p _ hbad => ?_⟩
  obtain ⟨-, hpanic⟩ := Bool.and_eq_true_iff.mp h
  rw [hbad] at hpanic
  cases hpanic

/-- A message is logged and its addresses are handed to the store in `n` steps after the record;
    then a snapshot is taken. -/
def takenAfter (n : Nat) : List (Nat × Answer) :=
  asked ++ hear 5 .addr oneAddrMessage ++ steps 3 1 ++ hear n .addr oneAddrMessage ++
    steps 2 4 ++ steps 3 1 ++ steps 2 5

/-- The snapshot is taken when the message has been counted. -/
theorem snapshot_provenance_counted : ∃ c m w,
    Chronicle (program recording) Steady hastened (start recording) false c false ∧
    Pc.checkpoint (.publishing m) ∈ c.threads ∧ m.durableEventId = some w ∧ m.snapshot.length = 2 ∧
    ∀ k entry, (k, entry) ∈ m.snapshot → Provenance k entry.stats (c.shared.log.upTo w) := by
  have hrun : (execRecord (program recording) calm hastened (start recording) false
      (takenAfter 8)).bind (fun r => (r.1.threads[2]?.bind Pc.taken).map fun m =>
        (r.2, m.snapshot.length)) = some (false, 2) := by
    decide
  obtain ⟨⟨c, hasty⟩, hc, heq⟩ := Option.bind_eq_some_iff.mp hrun
  obtain ⟨m, hm, heq⟩ := Option.map_eq_some_iff.mp heq
  obtain ⟨rfl, hlen⟩ := Prod.mk.inj heq
  have hr : Chronicle (program recording) Steady hastened (start recording) false c false :=
    (execRecord_chronicle hc).mono fun _ _ => calm_steady
  obtain ⟨w, hw, -, -, hprov⟩ := snapshot_provenance rfl hr (taken_mem hm)
  exact ⟨c, m, w, hr, taken_mem hm, hw, hlen, hprov.mpr rfl⟩

/-- The checkpoint takes the write guard when the worker has dropped its read guard and has not
    counted the message: the block is in the log up to the watermark, the count is not in the
    snapshot. -/
theorem late_count_splits : recording.OfCrawler ∧ ∃ c m e,
    Reach (program recording) (fun _ a => a.2.fault = none ∧ a.2.panic = false) (start recording) c ∧
    Pc.checkpoint (.publishing m) ∈ c.threads ∧ m.durableEventId = some 1 ∧
    (⟨"192.0.2.1", 8333⟩, e) ∈ m.snapshot ∧ e.stats.validAddrMessages = 0 ∧
    (messagesOf ⟨"192.0.2.1", 8333⟩ (c.shared.log.upTo 1)).length = 1 ∧
    ¬ Provenance ⟨"192.0.2.1", 8333⟩ e.stats (c.shared.log.upTo 1) := by
  have hrun : (exec (program recording) calm (start recording) (takenAfter 7)).bind
      (fun c => (c.threads[2]?.bind Pc.taken).map fun m =>
        (m.durableEventId, (messagesOf ⟨"192.0.2.1", 8333⟩ (c.shared.log.upTo 1)).length,
          m.snapshot.map fun x => (x.1, x.2.stats.validAddrMessages))) =
      some (some 1, 1, [(⟨"192.0.2.7", 8333⟩, 0), (⟨"192.0.2.1", 8333⟩, 0)]) := by
    decide
  obtain ⟨c, hc, heq⟩ := Option.bind_eq_some_iff.mp hrun
  obtain ⟨m, hm, heq⟩ := Option.map_eq_some_iff.mp heq
  simp only [Prod.mk.injEq] at heq
  obtain ⟨hw, hone, hsnap⟩ := heq
  have hmem : ((⟨"192.0.2.1", 8333⟩, 0) : AddrKey × Nat) ∈
      m.snapshot.map fun x => (x.1, x.2.stats.validAddrMessages) := by
    rw [hsnap]
    exact List.mem_cons_of_mem _ (List.mem_singleton.mpr rfl)
  obtain ⟨⟨k, e⟩, he, heq⟩ := List.mem_map.mp hmem
  obtain ⟨rfl, hzero⟩ := Prod.mk.inj heq
  have hr : Reach (program recording) (fun _ a => a.2.fault = none ∧ a.2.panic = false)
      (start recording) c := by
    refine (exec_reach hc).mono fun _ a ha => ?_
    obtain ⟨hfault, hpanic⟩ := Bool.and_eq_true_iff.mp ha
    exact ⟨Option.isNone_iff_eq_none.mp hfault, by simpa using hpanic⟩
  refine ⟨recording_ofCrawler, c, m, e, hr, taken_mem hm, hw, he, hzero, hone, fun hprov => ?_⟩
  have hvalid := hprov.valid
  rw [hone, hzero] at hvalid
  cases hvalid

end P2PCrawler
