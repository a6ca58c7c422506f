import P2PCrawler.Crawler.Snapshots
import P2PCrawler.Crawler.Verdicts
import P2PCrawler.Lib.Register

/-!
# What the store knows

Addresses come to the store one at a time, from the seeds and from the messages that any of the
workers is working off.  `Hearsay` is the history of a run that keeps them in order, with the
messages they come from.  The store takes them like a bounded register: what the workers do to the
entries besides changes neither the label nor the timestamp, and parks nothing.

* `Sighting` — an address that is handed to the store, from whom, and when.
* `NodeStore.table` — the store as a register.
* `table_step` — a step hands over one sighting, or leaves the register alone.

## Results

* `store_of_sightings` — **which addresses are known, under which label, how fresh, which of them
  were let through, and how many were turned down, is a function of the sightings.**
-/

set_option autoImplicit false

namespace P2PCrawler

open ThreadPool

/-! ## Sightings -/

/-- An address as it is handed to the store. -/
structure Sighting where
  /-- the node that advertised it; `none` for a seed -/
  source : Option AddrKey
  key : AddrKey
  net : NetworkType
  ts : Int
  /-- the clock its age is taken against -/
  now : Int

/-- A message that a worker has received from the node it is processing. -/
structure Receipt where
  source : AddrKey
  command : AddrCommand
  parsed : ParsedAddrMessage

structure Hearsay where
  received : List Receipt := []
  seen : List Sighting := []

/-- What the next step of a thread hands to the store. -/
def Pc.sighting (S : Setup) (a : Answer) : Pc → Option Sighting
  | .main (.seeding (k :: _)) => some ⟨none, k, classify S.digests k.host, S.seedTime, S.seedTime⟩
  | .worker _ (.task k (.upserting _ _ now (x :: _))) =>
    if a.panic then none else some ⟨some k, x.key, x.network, x.timestamp, now⟩
  | _ => none

/-- The message that the next step of a thread receives. -/
def Pc.receipt (a : Answer) : Pc → Option Receipt
  | .worker _ (.task k (.collecting c)) =>
    if a.panic then none
    else match collect c.valid a.collected with
      | .message command parsed => some ⟨k, command, parsed⟩
      | _ => none
  | _ => none

def Hearsay.record (S : Setup) (g : Hearsay) (c : Conf Shared Pc) (a : Nat × Answer)
    (_ : Conf Shared Pc) : Hearsay :=
  match c.threads[a.1]? with
  | none => g
  | some pc => ⟨g.received ++ (pc.receipt a.2).toList, g.seen ++ (pc.sighting S a.2).toList⟩

/-- Runs with what was heard in them. -/
abbrev Overheard (S : Setup) (ok : Conf Shared Pc → Nat × Answer → Prop) :
    Conf Shared Pc → Hearsay → Prop :=
  Chronicle (program S) ok (Hearsay.record S) (start S) {}

theorem Hearsay.record_eq {S : Setup} {c c' : Conf Shared Pc} {a : Nat × Answer} {pc : Pc}
    (hpc : c.threads[a.1]? = some pc) (g : Hearsay) : g.record S c a c' =
      ⟨g.received ++ (pc.receipt a.2).toList, g.seen ++ (pc.sighting S a.2).toList⟩ := by
  simp only [record, hpc]

/-! ## The store as a register -/

/-- The item opens its row if the address is not stale. -/
def Sighting.item (thr : Int) (s : Sighting) : Register.Item AddrKey NetworkType Int :=
  ⟨s.key, s.net, s.ts, fun latest => !stale thr s.now latest⟩

/-- The row is open unless the entry is parked as stale. -/
def NodeEntry.row (e : NodeEntry) : Register.Row NetworkType Int :=
  ⟨e.network, e.freshestTs, decide (e.state ≠ .staleDiscarded)⟩

theorem not_stale_now (thr now : Int) : stale thr now now = false := by
  simp only [stale, Bool.and_eq_false_iff, decide_eq_false_iff_not]
  omega

namespace NodeStore

def table (s : NodeStore) : Register.Table AddrKey NetworkType Int where
  row k := (s.entry k).map (·.row)
  used := s.entries
  refused := s.budgetRejected

variable {s : NodeStore} {k : AddrKey}

theorem table_withEntry {f : NodeEntry → NodeEntry}
    (h : ∀ e, s.entry k = some e → (f e).row = e.row) : (s.withEntry k f).table = s.table := by
  unfold table
  simp only [withEntry_entries, withEntry_budgetRejected, Register.Table.mk.injEq, and_true]
  funext k'
  rw [entry_withEntry]
  split
  · rename_i hk
    rw [hk]
    cases he : s.entry k with
    | none => rfl
    | some e => exact congrArg some (h e he)
  · rfl

theorem table_insertEntry (e : NodeEntry) (n : Nat) :
    ({ s with entries := n }.insertEntry k e).table =
      ⟨Function.update s.table.row k (some e.row), n, s.budgetRejected⟩ := by
  unfold table
  simp only [Register.Table.mk.injEq]
  refine ⟨?_, rfl, rfl⟩
  funext k'
  rw [entry_insertEntry]
  by_cases hk : k' = k
  · rw [if_pos hk, hk, Function.update_self]
    rfl
  · rw [if_neg hk, Function.update_of_ne hk]
    rfl

theorem table_withEntry_of_some {f : NodeEntry → NodeEntry} {e : NodeEntry}
    (he : s.entry k = some e) : (s.withEntry k f).table =
      { s.table with row := Function.update s.table.row k (some (f e).row) } := by
  unfold table
  simp only [withEntry_entries, withEntry_budgetRejected, Register.Table.mk.injEq, and_true]
  funext k'
  rw [entry_withEntry]
  by_cases hk : k' = k
  · rw [if_pos hk, hk, Function.update_self, he]
    rfl
  · rw [if_neg hk, Function.update_of_ne hk]

theorem row_of_entry {e : NodeEntry} (he : s.entry k = some e) : s.table.row k = some e.row := by
  simp [table, he]

theorem row_of_none (he : s.entry k = none) : s.table.row k = none := by
  simp [table, he]

/-- **An upsert takes a sighting.** -/
theorem frontierUpsert_table (s : NodeStore) (x : Sighting) (thr : Int) :
    (s.frontierUpsert x.key x.ts x.net thr x.now).1.table =
      s.table.take s.maxEntries (x.item thr) := by
  have hu := frontierUpsert_cases s x.key x.ts x.net thr x.now
  generalize (s.frontierUpsert x.key x.ts x.net thr x.now).1 = s' at hu ⊢
  generalize (s.frontierUpsert x.key x.ts x.net thr x.now).2 = out at hu
  cases hu with
  | @refreshed e _ he hout hrej hstate =>
    rw [table_withEntry_of_some he, Register.Table.take_of_row (row_of_entry he)]
    have hrow : (refresh x.ts e).row = (x.item thr).onto (some e.row) := by
      by_cases hst : e.state = .staleDiscarded
      · simp [refresh, NodeEntry.row, Register.Item.onto, Sighting.item, hst, hstate hst]
      · simp [refresh, NodeEntry.row, Register.Item.onto, Sighting.item, hst]
    rw [hrow]
    rfl
  | @revived e he hst hfresh =>
    rw [table_withEntry_of_some he, Register.Table.take_of_row (row_of_entry he)]
    have hrow : (revive x.ts e).row = (x.item thr).onto (some e.row) := by
      simp [revive, NodeEntry.row, Register.Item.onto, Sighting.item, hfresh]
    rw [hrow]
    rfl
  | rejected he hfull => exact (Register.Table.take_of_full (row_of_none he) hfull).symm
  | parked he hroom hstale =>
    rw [table_insertEntry, Register.Table.take_of_room (row_of_none he) hroom]
    have hrow : (NodeEntry.new x.net x.ts .staleDiscarded).row = (x.item thr).onto none := by
      simp [NodeEntry.new, NodeEntry.row, Register.Item.onto, Sighting.item, hstale]
    rw [hrow]
    rfl
  | discovered he hroom hfresh =>
    rw [table_insertEntry, Register.Table.take_of_room (row_of_none he) hroom]
    have hrow : (NodeEntry.new x.net x.ts .queued).row = (x.item thr).onto none := by
      simp [NodeEntry.new, NodeEntry.row, Register.Item.onto, Sighting.item, hfresh]
    rw [hrow]
    rfl

/-- A seed is a sighting too, where no entry is parked. -/
theorem observeSeed_table (H : Digests) (s : NodeStore) (k : AddrKey) (now thr : Int)
    (hopen : ∀ e, s.entry k = some e → e.state ≠ .staleDiscarded) :
    (s.observeSeed H k now).1.table = s.table.take s.maxEntries
      (Sighting.item thr ⟨none, k, classify H k.host, now, now⟩) := by
  have hu := observeSeed_cases H s k now
  generalize (s.observeSeed H k now).1 = s' at hu ⊢
  generalize (s.observeSeed H k now).2 = new at hu
  cases hu with
  | @refreshed e he =>
    rw [table_withEntry_of_some he, Register.Table.take_of_row (row_of_entry he)]
    have hrow : (refresh now e).row =
        (Sighting.item thr ⟨none, k, classify H k.host, now, now⟩).onto (some e.row) := by
      simp [refresh, NodeEntry.row, Register.Item.onto, Sighting.item, hopen e he]
    rw [hrow]
    rfl
  | rejected he hfull => exact (Register.Table.take_of_full (row_of_none he) hfull).symm
  | discovered he hroom =>
    rw [table_insertEntry, Register.Table.take_of_room (row_of_none he) hroom]
    have hfresh := not_stale_now thr now
    have hrow : (NodeEntry.new (classify H k.host) now .queued).row =
        (Sighting.item thr ⟨none, k, classify H k.host, now, now⟩).onto none := by
      simp [NodeEntry.new, NodeEntry.row, Register.Item.onto, Sighting.item, hfresh]
    rw [hrow]
    rfl

end NodeStore

/-! ## One step -/

section Step
variable {S : Setup} {ok : Conf Shared Pc → Nat × Answer → Prop} {c c' : Conf Shared Pc}
  {g : Hearsay} {a : Nat × Answer} {pc pc' : Pc} {sh' : Shared}

/-- A step that observes nothing leaves the register alone. -/
theorem table_kept (hh : HeldOnce c) (hpc : pc ∈ c.threads)
    (hp : program S c.shared pc a.2 = some (sh', pc')) (hno : ∀ o, pc.intent S ≠ .observe o) :
    sh'.store.table = c.shared.store.table := by
  have hset : ∀ {k : AddrKey} {st : NodeState} {f : NodeEntry → NodeEntry}, k ∈ pc.keys →
      Sets st f → st ≠ .staleDiscarded →
        (c.shared.store.withEntry k f).table = c.shared.store.table := by
    intro k st f hk hf hst
    refine NodeStore.table_withEntry fun e he => ?_
    obtain ⟨old, hold, hne⟩ := hh.seen_of_mem hpc hk
    rw [NodeStore.stateOf, he, Option.map_some, Option.some.injEq] at hold
    subst hold
    simp [NodeEntry.row, hf.network e, hf.freshestTs e, hf.state e, hst, hne]
  have hkeys : ∀ x ∈ pc.held.owned, x.1 ∈ pc.keys := fun x hx => Pc.owned_keys hx
  have heff := step_effect hp
  generalize pc.held = h at heff hkeys
  generalize pc'.held = h' at heff
  cases heff with
  | aside hs | close hs | forfeit _ hs => rw [hs]
  | write hk hf =>
    refine NodeStore.table_withEntry fun e _ => ?_
    simp [NodeEntry.row, hf.network e, hf.freshestTs e, hf.state e]
  | refresh ho | reject ho | park ho | discover ho | revive ho => exact absurd ho (hno _)
  | incr | decr | push | pop => rfl
  | switch hst' hf =>
    refine hset (hkeys _ List.mem_cons_self) hf ?_
    rintro rfl
    cases hst'
  | settle _ hf hns => exact hset (hkeys _ List.mem_cons_self) hf hns

/-- Until the workers are spawned, all sightings are of seeds. -/
def Seeded (c : Conf Shared Pc) (g : Hearsay) : Prop :=
  c.shared.spawned = false → ∀ x ∈ g.seen, x.source = none ∧ x.ts = x.now

/-- A worker that hands over an address has been spawned. -/
theorem spawned_of_worker (hr : Reach (program S) ok (start S) c) {t : Transport} {p : WorkerPc}
    (hpc : c.threads[a.1]? = some (.worker t p)) (hp : p ≠ .top) : c.shared.spawned = true := by
  by_contra hno
  exact hp (phases hr _ _ hpc (by simpa using hno))

theorem seeded (hg : Overheard S ok c g) : Seeded c g := by
  refine hg.invariant (I := Seeded) (fun _ x hx => by cases hx) ?_
  intro c g a c' hg ih _ hst
  obtain ⟨pc, sh', pc', hpc, hp, rfl⟩ := step_cases hst
  intro hspawned x hx
  have hearly : c.shared.spawned = false := by
    by_contra hyes
    have hspawned' : sh'.spawned = true :=
      (step_effect hp).flags.spawned (show c.shared.spawned = true by simpa using hyes)
    rw [show sh'.spawned = false from hspawned] at hspawned'
    cases hspawned'
  rw [Hearsay.record_eq hpc] at hx
  rcases List.mem_append.mp hx with hx | hx
  · exact ih hearly x hx
  · cases pc with
    | main p =>
      cases p with
      | seeding rest =>
        cases rest with
        | nil => cases hx
        | cons k rest => rw [List.mem_singleton.mp hx]; exact ⟨rfl, rfl⟩
      | _ => cases hx
    | worker t p =>
      by_cases htop : p = .top
      · rw [htop] at hx
        cases hx
      · rw [spawned_of_worker hg.reach hpc htop] at hearly
        cases hearly
    | _ => cases hx

/-- The items that the sightings are. -/
def Hearsay.items (S : Setup) (g : Hearsay) : List (Register.Item AddrKey NetworkType Int) :=
  g.seen.map (Sighting.item S.settings.freshnessThreshold)

/-- The store is the register of the sightings. -/
def Registered (S : Setup) (c : Conf Shared Pc) (g : Hearsay) : Prop :=
  Register.Filled S.settings.maxAddresses (g.items S) c.shared.store.table

/-- While the seeds are handed over, nothing is parked. -/
theorem open_while_seeding (h : Registered S c g) (hs : Seeded c g)
    (hearly : c.shared.spawned = false) {k : AddrKey} {e : NodeEntry}
    (he : c.shared.store.entry k = some e) : e.state ≠ .staleDiscarded := by
  obtain ⟨-, hfold⟩ := (h.rows k e.row).mp (NodeStore.row_of_entry he)
  obtain ⟨-, -, hopened⟩ := Register.fold_eq_some hfold
  have hopen : e.row.opened = true := by
    rw [hopened]
    cases hown : Register.own (g.items S) k with
    | nil =>
      rw [hown] at hfold
      cases hfold
    | cons i items =>
      have hi : i ∈ g.items S :=
        List.mem_of_mem_filter (hown ▸ List.mem_cons_self : i ∈ Register.own (g.items S) k)
      obtain ⟨x, hx, rfl⟩ := List.mem_map.mp hi
      refine Register.opened_of_first ?_
      have hnow := (hs hearly x hx).2
      simp [Sighting.item, hnow, not_stale_now]
  simpa [NodeEntry.row] using hopen

theorem take_sighting {x : Sighting} (h : Registered S c g)
    (hx : sh'.store.table = c.shared.store.table.take S.settings.maxAddresses
      (x.item S.settings.freshnessThreshold)) (received : List Receipt) (ts : List Pc) :
    Registered S ⟨sh', ts⟩ ⟨received, g.seen ++ [x]⟩ := by
  have htake := h.take (x.item S.settings.freshnessThreshold)
  rw [← hx] at htake
  simpa [Registered, Hearsay.items] using htake

/-- **One step**: one sighting is handed over, or the register stays as it is. -/
theorem table_step (hg : Overheard S ok c g) (h : Registered S c g)
    (hst : ThreadPool.step (program S) c a = some c') : Registered S c' (g.record S c a c') := by
  have hr := hg.reach
  obtain ⟨pc, sh', pc', hpc, hp, rfl⟩ := step_cases hst
  have hmem := List.mem_of_getElem? hpc
  have hbudget := (rooms hr).budget
  rw [Hearsay.record_eq hpc]
  have hkeep : sh'.store.table = c.shared.store.table → pc.sighting S a.2 = none →
      Registered S ⟨sh', c.threads.set a.1 pc'⟩
        ⟨g.received ++ (pc.receipt a.2).toList, g.seen ++ (pc.sighting S a.2).toList⟩ := by
    intro htable hnone
    rw [hnone]
    unfold Registered at h ⊢
    simpa [htable, Hearsay.items] using h
  by_cases hobs : ∃ o, pc.intent S = .observe o
  · obtain ⟨o, ho⟩ := hobs
    rcases intent_observe ho with ⟨k, rest, rfl, -⟩ | ⟨t, k, s, count, now, x, rest, rfl, -⟩
    · have hearly : c.shared.spawned = false := phases hr _ _ hpc
      rcases program_cases hp with ⟨p, p', heq, rfl, hs⟩ | ⟨p, p', heq, -⟩ | ⟨p, p', heq, -⟩ |
        ⟨L, heq, -⟩ | ⟨t, p, p', heq, -⟩ <;> cases heq
      cases hs
      refine take_sighting h ?_ _ _
      rw [← hbudget]
      exact NodeStore.observeSeed_table _ _ _ _ _ fun e he =>
        open_while_seeding h (seeded hg) hearly he
    · rcases program_cases hp with ⟨p, p', heq, -⟩ | ⟨p, p', heq, -⟩ | ⟨p, p', heq, -⟩ |
        ⟨L, heq, -⟩ | ⟨t, p, p', heq, rfl, hs⟩ <;> cases heq
      by_cases hpanic : a.2.panic = true
      · simp only [workerStep, hpanic, if_true, Option.some.injEq, Prod.mk.injEq] at hs
        obtain ⟨rfl, -⟩ := hs
        exact hkeep rfl (by simp [Pc.sighting, hpanic])
      · simp only [workerStep, hpanic, taskStep, Option.map_some] at hs
        cases hs
        have hsight : Pc.sighting S a.2 (.worker t (.task k (.upserting s count now (x :: rest)))) =
            some ⟨some k, x.key, x.network, x.timestamp, now⟩ := by
          simp [Pc.sighting, hpanic]
        rw [hsight]
        refine take_sighting h ?_ _ _
        rw [← hbudget]
        exact NodeStore.frontierUpsert_table _ ⟨some k, x.key, x.network, x.timestamp, now⟩ _
  · refine hkeep (table_kept (held_once hr) hmem hp fun o ho => hobs ⟨o, ho⟩) ?_
    cases hsight : pc.sighting S a.2 with
    | none => rfl
    | some x =>
      refine absurd ?_ hobs
      unfold Pc.sighting at hsight
      split at hsight
      · exact ⟨_, rfl⟩
      · exact ⟨_, rfl⟩
      · cases hsight

/-- **In every run**, the store is the register of the sightings. -/
theorem registered (hg : Overheard S ok c g) : Registered S c g := by
  have hstart : Registered S (start S) {} := Register.Filled.empty S.settings.maxAddresses
  exact hg.invariant (I := Registered S) hstart fun _ _ _ _ hg ih _ hst => table_step hg ih hst

end Step

/-! ## Result -/

/-- What the store holds, told by the sightings alone. -/
structure KnownFrom (S : Setup) (g : Hearsay) (s : NodeStore) : Prop where
  known : ∀ k, (s.entry k).isSome ↔ Register.Admitted S.settings.maxAddresses (g.items S) k
  label : ∀ k e, s.entry k = some e →
    (Register.own (g.items S) k).head?.map (·.label) = some e.network
  freshest : ∀ k e, s.entry k = some e →
    Register.latest (Register.own (g.items S) k) = some e.freshestTs
  passed : ∀ k e, s.entry k = some e →
    (e.state ≠ .staleDiscarded ↔ Register.Opened (Register.own (g.items S) k))
  len : s.len = min S.settings.maxAddresses (Register.distinct (g.items S)).card
  rejected : s.budgetRejected = g.seen.countP fun x => (s.entry x.key).isNone

/-- **The store is a function of the sightings.**  In every run: the first `--max-addresses` distinct
    addresses that were handed over are known, and no others; each has the label of its first
    sighting and the latest timestamp of all; it was let through if at some sighting its latest
    timestamp was fresh; and every sighting of another address was counted as rejected. -/
theorem store_of_sightings {S : Setup} {ok : Conf Shared Pc → Nat × Answer → Prop}
    {c : Conf Shared Pc} {g : Hearsay} (hg : Overheard S ok c g) : KnownFrom S g c.shared.store := by
  have h := registered hg
  have hentry : ∀ k e, c.shared.store.entry k = some e →
      (Register.own (g.items S) k).head?.map (·.label) = some e.row.label ∧
        Register.latest (Register.own (g.items S) k) = some e.row.stamp ∧
          (e.row.opened = true ↔ Register.Opened (Register.own (g.items S) k)) := fun k e he =>
    Register.fold_eq_some ((h.rows k e.row).mp (NodeStore.row_of_entry he)).2
  refine ⟨fun k => ?_, fun k e he => (hentry k e he).1, fun k e he => (hentry k e he).2.1,
    fun k e he => ?_, h.used, ?_⟩
  · rw [← h.row_isSome]
    simp [NodeStore.table]
  · rw [← (hentry k e he).2.2]
    simp [NodeEntry.row]
  · have hrejected := h.refused
    simp only [Hearsay.items, List.countP_map, Sighting.item, NodeStore.table, Function.comp_def,
      Option.isNone_map] at hrejected
    exact hrejected

/-- The seed, and an address that it advertises. -/
theorem store_of_sightings_recording : ∃ c g,
    Overheard recording Undisturbed c g ∧ g.seen.map (·.source) = [none, some ⟨"192.0.2.1", 8333⟩] ∧
    c.shared.store.len = 2 ∧ KnownFrom recording g c.shared.store := by
  have hrun : (execRecord (program recording) calm (Hearsay.record recording) (start recording) {}
      recordedRun).map (fun r => (r.2.seen.map (·.source), r.1.shared.store.len)) =
      some ([none, some ⟨"192.0.2.1", 8333⟩], 2) := by
    decide
  obtain ⟨⟨c, g⟩, hc, heq⟩ := Option.map_eq_some_iff.mp hrun
  obtain ⟨hseen, hlen⟩ := Prod.mk.inj heq
  have hg : Overheard recording Undisturbed c g :=
    (execRecord_chronicle hc).mono fun _ _ => calm_undisturbed
  exact ⟨c, g, hg, hseen, hlen, store_of_sightings hg⟩

end P2PCrawler
