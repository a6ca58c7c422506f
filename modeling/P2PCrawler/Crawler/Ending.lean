import P2PCrawler.Crawler.History
import P2PCrawler.Crawler.Routing
import P2PCrawler.Output

/-!
# How a run ends

Once `run` has left its join loop every worker has ended, so every active entry is in a queue
that nobody serves any more.

* `untouched` — a queue without workers holds no key that was ever tried.
* `queued_of_active`, `drained_of_past` — after the join loop, active entries are queued, and only
  a shutdown leaves any in a queue with workers.

## Results

* `tried_nodes_settled` — **every tried node has a verdict when `run` returns, and one row in the
  result files**, unless it still waits for its retry.
-/

set_option autoImplicit false

namespace P2PCrawler

open ThreadPool

/-! ## Queued keys -/

theorem Shared.count_le_copies (sh : Shared) (t : Transport) (k : AddrKey) :
    ((sh.queue t).items.count k : ℤ) ≤ sh.copies k := by
  unfold copies
  cases t <;> omega

/-- A key in a queue is in the hands of no task. -/
theorem Books.queued_unowned {c : Conf Shared Pc} (hb : Books c) {t : Transport} {k : AddrKey}
    (hk : k ∈ (c.shared.queue t).items) :
    c.shared.store.stateOf k = some .queued ∧
      ∀ pc ∈ c.threads, ∀ x ∈ pc.held.owned, x.1 ≠ k := by
  have hsum := hb.state k .queued rfl
  have hpos : 0 < (c.shared.queue t).items.count k := List.count_pos_iff.mpr hk
  have hle := c.shared.count_le_copies t k
  have hload := load_nonneg (Pc.claims_nonneg k .queued) c.threads
  simp only [total, stateLedger, if_true] at hsum
  have hst : c.shared.store.stateOf k = some .queued := by
    by_contra hne
    rw [if_neg hne] at hsum
    omega
  rw [if_pos hst] at hsum
  refine ⟨hst, ?_⟩
  rintro pc hpc ⟨k', st⟩ hx hkk
  obtain rfl : k' = k := hkk
  have hown := hb.owns hpc _ hx
  simp only [hst, Option.some.injEq] at hown
  subst hown
  have hmine := le_load (Pc.claims_nonneg k' .queued) hpc
  have hcount : 0 < pc.held.owned.count (k', .queued) := List.count_pos_iff.mpr hx
  simp only [Pc.claims] at hmine
  omega

theorem Effect.new_items {does : Intent} {sh sh' : Shared} {h h' : Held}
    (he : Effect does sh h sh' h') {t : Transport} {k : AddrKey} (hk : k ∈ (sh'.queue t).items) :
    k ∈ (sh.queue t).items ∨ (does = .push t k ∧ sh'.store = sh.store) := by
  cases he with
  | aside hs hq hf => rw [hq] at hk; exact .inl hk
  | close hs hq hf => rw [hq] at hk; exact .inl hk
  | forfeit hwhy hs hq hf => rw [hq] at hk; exact .inl hk
  | @push t' k' own ho hopen hroom =>
    by_cases ht : t = t'
    · subst ht
      simp only [Function.update_self, List.mem_append, List.mem_singleton] at hk
      rcases hk with hk | rfl
      · exact .inl hk
      · exact .inr ⟨ho, rfl⟩
    · simp only [Function.update_of_ne ht] at hk
      exact .inl hk
  | @pop t' k' rest own ho hitems =>
    by_cases ht : t = t'
    · subst ht
      simp only [Shared.pop, Function.update_self] at hk
      exact .inl (by rw [hitems]; exact List.mem_cons_of_mem _ hk)
    · simp only [Shared.pop, Function.update_of_ne ht] at hk
      exact .inl hk
  | _ => exact .inl hk

/-- In a queue without workers, no key was ever tried. -/
theorem untouched {S : Setup} {c : Conf Shared Pc} (hr : Reach (program S) noPanic (start S) c)
    {t : Transport} (ht : S.settings.concurrency.of t = 0) :
    ∀ k ∈ (c.shared.queue t).items, At c.shared k History.Untried := by
  refine hr.invariant (I := fun c => ∀ k ∈ (c.shared.queue t).items, At c.shared k History.Untried)
    (fun k hk => by cases hk) ?_
  intro c a c' hr ih _ hst k hk
  obtain ⟨pc, sh', pc', hpc, hp, rfl⟩ := step_cases hst
  have hb := books hr (not_panicked hr)
  have hmem := List.mem_of_getElem? hpc
  have hview := (histories hr).tasks _ _ hpc
  rcases (step_effect hp).new_items hk with hold | ⟨hpush, hstore⟩
  · obtain ⟨hst, hne⟩ := hb.queued_unowned hold
    exact (step_effect hp).at_other hst rfl (hne pc hmem) (ih k hold)
  · intro e he
    rw [hstore] at he
    rcases intent_push hpush with ⟨rest, rfl⟩ | ⟨w, k₀, c, count, now, rest, rfl⟩ |
      ⟨terminal, kind, rfl⟩
    · exact hview e he
    · exact hview.2 e he
    · have := worker_staffed hr hmem
      omega

/-! ## After the join loop -/

section Past
variable {S : Setup} {ok : Conf Shared Pc → Nat × Answer → Prop} {c : Conf Shared Pc} {p : MainPc}

theorem main_unique (hr : Reach (program S) ok (start S) c) (hmain : c.threads[0]? = some (.main p))
    {q : MainPc} (hq : Pc.main q ∈ c.threads) : q = p := by
  obtain ⟨i, hi⟩ := List.getElem?_of_mem hq
  rw [main_index hr hi, hmain] at hi
  cases hi
  rfl

theorem nothing_held (hr : Reach (program S) ok (start S) c)
    (hmain : c.threads[0]? = some (.main p)) (hpast : p.past = true) :
    ∀ pc ∈ c.threads, pc.held = {} := by
  intro pc hpc
  cases pc with
  | main q =>
    obtain rfl := main_unique hr hmain hpc
    cases q <;> first | rfl | cases hpast
  | worker t w =>
    have hend := (joined_all hr hmain hpast).2.2 t w hpc
    cases w <;> first | rfl | cases hend
  | _ => rfl

/-- An active entry is queued. -/
theorem queued_of_active (hr : Reach (program S) ok (start S) c)
    (hok : c.shared.panicked = false) (hmain : c.threads[0]? = some (.main p))
    (hpast : p.past = true) {k : AddrKey} {st : NodeState} (hk : c.shared.store.stateOf k = some st)
    (hact : st.active = true) : st = .queued ∧ ∃ t, k ∈ (c.shared.queue t).items := by
  have hsum := (books hr hok).state k st hact
  have hload : load (Pc.claims k st) c.threads = 0 :=
    load_eq_zero fun pc hpc => by simp [Pc.claims, nothing_held hr hmain hpast pc hpc]
  simp only [total, stateLedger, hk, if_true, hload] at hsum
  have hst : st = .queued := by
    by_contra hne
    rw [if_neg hne] at hsum
    omega
  rw [if_pos hst] at hsum
  refine ⟨hst, ?_⟩
  by_contra hnone
  have hzero : ∀ t, (c.shared.queue t).items.count k = 0 := by
    intro t
    exact List.count_eq_zero.mpr fun hmem => hnone ⟨t, hmem⟩
  unfold Shared.copies at hsum
  simp only [hzero] at hsum
  omega

/-- Without a shutdown, the workers have drained their queues. -/
theorem drained_of_past (hr : Reach (program S) ok (start S) c) (hok : c.shared.panicked = false)
    (hmain : c.threads[0]? = some (.main p)) (hpast : p.past = true)
    (hsh : c.shared.shutdown = false) {t : Transport} (ht : 0 < S.settings.concurrency.of t) :
    (c.shared.queue t).closed = true ∧ (c.shared.queue t).items = [] := by
  obtain ⟨w, hw⟩ := worker_exists hr ht
  have hend := (joined_all hr hmain hpast).2.2 t w hw
  have hexit : ExitOk c.shared (.worker t w) := (exits hr).of_mem hw
  cases w with
  | exited =>
    rcases hexit with h | h
    · rw [hsh] at h; cases h
    · exact h
  | died =>
    have hdied : c.shared.panicked = true := hexit
    rw [hok] at hdied
    cases hdied
  | _ => cases hend

end Past

/-! ## Result -/

/-- The node has one of the verdicts of a crawl. -/
def NodeEntry.settled (e : NodeEntry) : Prop :=
  e.state = .reachable ∨ e.state = .handshakeFailed ∨ e.state = .unreachable

/-- The three result files of a store, and the number of their rows about an address. -/
structure ResultRows (s : NodeStore) (rows : AddrKey → Nat) : Prop where
  files : ∃ t t' t'', writeReachable s.snapshot = some t ∧ writeHandshakeFailed s.snapshot = some t' ∧
    writeUnreachable s.snapshot = some t'' ∧
    ∀ k, rows k = (t.about k).length + (t'.about k).length + (t''.about k).length

/-- The result files can be written, and have a row about an entry exactly if it is settled. -/
theorem resultRows {s : NodeStore}
    (hshake : ∀ k e, s.entry k = some e → e.state = .reachable → e.handshake.isSome = true) :
    ∃ rows, ResultRows s rows ∧ ∀ k e, s.entry k = some e → e.settled → rows k = 1 := by
  have hkeys := NodeStore.distinct_snapshot s
  have hreachable : ∀ p ∈ s.snapshot, p.2.state = .reachable → ∃ r, reachableRow p = some r := by
    intro p hp hst
    obtain ⟨hs, hhs⟩ := Option.isSome_iff_exists.mp (hshake _ _ (NodeStore.mem_snapshot.mp hp) hst)
    exact ⟨_, Option.map_eq_some_iff.mpr ⟨hs, hhs, rfl⟩⟩
  obtain ⟨t, ht⟩ : ∃ t, writeReachable s.snapshot = some t := writeCsv_isSome hreachable
  obtain ⟨t', ht'⟩ : ∃ t, writeHandshakeFailed s.snapshot = some t :=
    writeCsv_isSome fun p _ _ => ⟨_, rfl⟩
  obtain ⟨t'', ht''⟩ : ∃ t, writeUnreachable s.snapshot = some t :=
    writeCsv_isSome fun p _ _ => ⟨_, rfl⟩
  refine ⟨fun k => (t.about k).length + (t'.about k).length + (t''.about k).length,
    ⟨t, t', t'', ht, ht', ht'', fun _ => rfl⟩, fun k e he hsettled => ?_⟩
  have hmem := NodeStore.mem_snapshot.mpr he
  show (t.about k).length + (t'.about k).length + (t''.about k).length = 1
  rw [length_about reachable_columns hkeys ht hmem,
    length_about handshakeFailed_columns hkeys ht' hmem,
    length_about unreachable_columns hkeys ht'' hmem]
  rcases hsettled with hst | hst | hst <;> rw [hst] <;> rfl

/-- **Every tried node has a verdict.**  When `run` returns, no entry is being processed, and an
    entry with a recorded attempt is reachable, failed its handshake or is unreachable, and has one
    row in the three result files together, unless its last attempt failed and it waits for its
    retry: in a queue, after a shutdown, or where the node limit has refused the retry a slot. -/
theorem tried_nodes_settled {S : Setup} {c : Conf Shared Pc}
    (hr : Reach (program S) noPanic (start S) c) {p : MainPc}
    (hmain : c.threads[0]? = some (.main p)) (hpast : p.past = true) :
    (∀ k e, c.shared.store.entry k = some e → e.state ≠ .processing) ∧
    ∃ rows, ResultRows c.shared.store rows ∧
      ∀ k e, c.shared.store.entry k = some e → 1 ≤ e.stats.handshakeAttempts →
        (e.settled ∧ rows k = 1) ∨
        (e.history.Waiting S ∧
          ((e.state = .queued ∧ (∃ t, k ∈ (c.shared.queue t).items) ∧ c.shared.shutdown = true) ∨
            (e.state = .budgetDiscarded ∧ c.shared.nodeLimitReached = true))) := by
  have hok := not_panicked hr
  have hentries := (histories hr).entries
  have hstate : ∀ {k e}, c.shared.store.entry k = some e →
      c.shared.store.stateOf k = some e.state := fun he => by simp [NodeStore.stateOf, he]
  have hproc : ∀ k e, c.shared.store.entry k = some e → e.state ≠ .processing := by
    intro k e he hst
    obtain ⟨hq, -⟩ := queued_of_active hr hok hmain hpast (hst ▸ hstate he) rfl
    cases hq
  obtain ⟨rows, hrows, hone⟩ := resultRows fun k e he hst => by
    have hentry := hentries k e he
    rw [hst] at hentry
    exact hentry.1.handshake
  refine ⟨hproc, rows, hrows, fun k e he htried => ?_⟩
  have hentry := hentries k e he
  have huntried : ¬e.history.Untried := by
    intro hu
    have : e.stats.handshakeAttempts = 0 := congrArg History.count hu
    omega
  have hsettled : e.settled → e.settled ∧ rows k = 1 := fun hs => ⟨hs, hone k e he hs⟩
  cases hst : e.state with
  | reachable => exact .inl (hsettled (.inl hst))
  | handshakeFailed => exact .inl (hsettled (.inr (.inl hst)))
  | unreachable => exact .inl (hsettled (.inr (.inr hst)))
  | processing => exact absurd hst (hproc k e he)
  | staleDiscarded =>
    rw [hst] at hentry
    exact absurd hentry huntried
  | budgetDiscarded =>
    rw [hst] at hentry
    rcases hentry with ⟨hu, -⟩ | ⟨hw, hlimit⟩
    · exact absurd hu huntried
    · exact .inr ⟨hw, .inr ⟨rfl, hlimit⟩⟩
  | queued =>
    rw [hst] at hentry
    obtain ⟨-, t, hk⟩ := queued_of_active hr hok hmain hpast (hst ▸ hstate he) rfl
    refine .inr ⟨hentry, .inl ⟨rfl, ⟨t, hk⟩, ?_⟩⟩
    by_contra hsh
    rcases Nat.eq_zero_or_pos (S.settings.concurrency.of t) with hnone | hsome
    · exact huntried (untouched hr hnone k hk e he)
    · have hempty := (drained_of_past hr hok hmain hpast (by simpa using hsh) hsome).2
      rw [hempty] at hk
      cases hk

/-- Where `run` stands, for its own thread. -/
def Pc.ofMain : Pc → Option MainPc
  | .main p => some p
  | _ => none

theorem Pc.main_of_ofMain {p : Pc} {m : MainPc} (h : p.ofMain = some m) : p = .main m := by
  cases p with
  | main q => exact congrArg Pc.main (Option.some.inj h)
  | _ => cases h

theorem main_of_bind {c : Conf Shared Pc} {m : MainPc} (h : c.threads[0]?.bind Pc.ofMain = some m) :
    c.threads[0]? = some (.main m) := by
  obtain ⟨p, hp, hm⟩ := Option.bind_eq_some_iff.mp h
  rw [hp, Pc.main_of_ofMain hm]

/-- The rest of `soloRun`: the worker closes the queues and exits, `run` returns. -/
def soloEnd : List (Nat × Answer) := soloRun ++ steps 4 4 ++ steps 0 6

/-- The node of `soloRun` has failed its only attempt: its verdict, and one row. -/
theorem tried_nodes_settled_solo : ∃ c e rows,
    exec (program solo) panicFree (start solo) soloEnd = some c ∧
    c.shared.store.entry ⟨"192.0.2.1", 8333⟩ = some e ∧ ResultRows c.shared.store rows ∧
    e.settled ∧ rows ⟨"192.0.2.1", 8333⟩ = 1 := by
  have hrun : (exec (program solo) panicFree (start solo) soloEnd).bind (fun c =>
      (c.shared.store.entry ⟨"192.0.2.1", 8333⟩).map fun e =>
        (c.threads[0]?.bind Pc.ofMain, e.stats.handshakeAttempts, c.shared.shutdown,
          c.shared.nodeLimitReached)) =
      some (some (.stopping .ok), 1, false, false) := by
    decide
  obtain ⟨c, hc, heq⟩ := Option.bind_eq_some_iff.mp hrun
  obtain ⟨e, he, heq⟩ := Option.map_eq_some_iff.mp heq
  simp only [Prod.mk.injEq] at heq
  obtain ⟨hmain, hcount, hdown, hlimit⟩ := heq
  obtain ⟨-, rows, hrows, hall⟩ := tried_nodes_settled (exec_noPanic hc) (main_of_bind hmain) rfl
  rcases hall _ e he hcount.ge with ⟨hsettled, hone⟩ | ⟨-, ⟨-, -, hsh⟩ | ⟨-, hfull⟩⟩
  · exact ⟨c, e, rows, hc, he, hrows, hsettled, hone⟩
  · rw [hdown] at hsh
    cases hsh
  · rw [hlimit] at hfull
    cases hfull

/-- One worker for IPv4, and two attempts for each node. -/
def patientSettings : Settings :=
  { soloSettings with
    handshakeAttempts := 2
    handshakeAttempts_pos := by decide }

def patient : Setup := ⟨.zero, patientSettings, .dns ["192.0.2.1"], 0⟩

/-- The first attempt fails and the key is queued again; Ctrl+C is pressed, the worker leaves, and
    `run` returns. -/
def interruptedRun : List (Nat × Answer) :=
  steps 0 7 ++ steps 4 6 ++ [(4, refused)] ++ steps 4 4 ++ steps 1 3 ++ steps 4 1 ++ steps 0 6

/-- A node that was tried once is left in its queue, in a run that returns after a Ctrl+C. -/
theorem tried_node_left_queued : ∃ c e, Reach (program patient) noPanic (start patient) c ∧
    c.threads[0]? = some (.main (.stopping .ok)) ∧
    c.shared.store.entry ⟨"192.0.2.1", 8333⟩ = some e ∧ e.stats.handshakeAttempts = 1 ∧
    ¬e.settled := by
  have hrun : (exec (program patient) panicFree (start patient) interruptedRun).bind (fun c =>
      (c.shared.store.entry ⟨"192.0.2.1", 8333⟩).map fun e =>
        (c.threads[0]?.bind Pc.ofMain, e.stats.handshakeAttempts, e.state)) =
      some (some (.stopping .ok), 1, .queued) := by
    decide
  obtain ⟨c, hc, heq⟩ := Option.bind_eq_some_iff.mp hrun
  obtain ⟨e, he, heq⟩ := Option.map_eq_some_iff.mp heq
  simp only [Prod.mk.injEq] at heq
  obtain ⟨hmain, hcount, hst⟩ := heq
  refine ⟨c, e, exec_noPanic hc, main_of_bind hmain, he, hcount, ?_⟩
  unfold NodeEntry.settled
  rw [hst]
  decide

end P2PCrawler
