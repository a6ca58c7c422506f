import P2PCrawler.Crawler.Dialling
import P2PCrawler.Crawler.Sightings

/-!
# Where addresses come from

No address enters the store of itself: it is a seed, or a node that is itself known has advertised
it, in a message that was received after the handshake with that node was completed.

* `TaskPc.Quotes` — what a worker has in hand of a message is in a message it has received.
* `Sourced` — a sighting is of a seed, or of an address of an enabled network in a received message.
* `Traced` — an address is linked to the seeds by a chain of messages.

## Results

* `known_traced` — **every known address is linked to the seeds by nodes that have shaken hands.**
* `probe_keeps_to_targets` — **the probe asks for no addresses and knows nothing but its targets.**
-/

set_option autoImplicit false

namespace P2PCrawler

open ThreadPool

/-! ## Messages in hand -/

section Messages
variable {S : Setup} {sh sh' : Shared} {t : Transport} {k : AddrKey} {a : Answer} {p q : TaskPc}
  {received : List Receipt}

/-- What the task has in hand of a message comes from a message that it has received. -/
def TaskPc.Quotes (S : Setup) (k : AddrKey) (received : List Receipt) : TaskPc → Prop
  | .messageGuard _ _ parsed | .breakdown _ _ parsed | .blockLog _ parsed _ _
  | .shuffling _ parsed _ => ∃ r ∈ received, r.source = k ∧ r.parsed = parsed
  | .upserting _ _ _ rest | .enqueueing _ _ _ rest _ _ =>
    ∃ r ∈ received, r.source = k ∧ ∀ x ∈ rest, x ∈ enabledAddrs S.settings r.parsed
  | _ => True

theorem TaskPc.Quotes.mono {more : List Receipt} (h : p.Quotes S k received) :
    p.Quotes S k (received ++ more) := by
  cases p with
  | messageGuard | breakdown | blockLog | shuffling | upserting | enqueueing =>
    obtain ⟨r, hr, hrest⟩ := h
    exact ⟨r, List.mem_append_left _ hr, hrest⟩
  | _ => trivial

theorem retryOrFinish_quotes (retry : Bool) (terminal : Terminal) (kind : FailKind) :
    (retryOrFinish retry terminal kind).Quotes S k received := by
  cases retry <;> trivial

/-- A task quotes what it has received, now or before. -/
theorem taskStep_quotes (h : taskStep S sh t k a p = some (sh', some q)) (hpanic : a.panic = false)
    (hp : p.Quotes S k received) :
    q.Quotes S k (received ++ (Pc.receipt a (.worker t (.task k p))).toList) := by
  cases p with
  | collecting c =>
    simp only [taskStep] at h
    cases hcol : collect c.valid a.collected with
    | message command parsed =>
      rw [hcol] at h
      cases h
      refine ⟨⟨k, command, parsed⟩, List.mem_append_right _ ?_, rfl, rfl⟩
      simp [Pc.receipt, hpanic, hcol]
    | again | ended | malformed => rw [hcol] at h; cases h; trivial
  | messageGuard c command parsed =>
    simp only [taskStep] at h
    split at h <;> cases h
    exact hp.mono
  | breakdown c command parsed =>
    cases h
    cases S.logging <;> exact hp.mono
  | blockLog c parsed now call =>
    rcases logStep_cases h with ⟨call', -, heq⟩ | ⟨res, -, heq⟩
    · cases heq; exact hp.mono
    · cases res <;> cases heq
      · trivial
      · exact hp.mono
  | malformedLog c call =>
    rcases logStep_cases h with ⟨call', -, heq⟩ | ⟨res, -, heq⟩
    · cases heq; trivial
    · cases res <;> cases heq <;> trivial
  | outcomeLog c call =>
    rcases logStep_cases h with ⟨call', -, heq⟩ | ⟨res, -, heq⟩
    · cases heq; trivial
    · cases res <;> cases heq <;> trivial
  | shuffling c parsed now =>
    simp only [taskStep] at h
    split at h
    · rename_i hperm
      cases h
      obtain ⟨r, hr, hsource, rfl⟩ := hp
      refine ⟨r, List.mem_append_left _ hr, hsource, fun x hx => ?_⟩
      exact (List.isPerm_iff.mp hperm).mem_iff.mp hx
    · cases h
  | upserting c count now rest =>
    cases rest with
    | nil => cases h; trivial
    | cons x rest =>
      cases h
      obtain ⟨r, hr, hsource, hrest⟩ := hp
      have hmore : ∀ y ∈ rest, y ∈ enabledAddrs S.settings r.parsed := fun y hy =>
        hrest y (List.mem_cons_of_mem _ hy)
      unfold upsertNext
      split <;> exact ⟨r, List.mem_append_left _ hr, hsource, hmore⟩
  | enqueueing c count now rest key e =>
    simp only [taskStep, Option.some.injEq, Prod.mk.injEq] at h
    obtain ⟨-, rfl⟩ := h
    split <;> exact hp.mono
  | abandoning f | finishing f =>
    cases hnext : (finishStep sh k f).2 <;> simp only [taskStep, hnext] at h <;> cases h
    trivial
  | everConnected | handshakeTimeout | handshakeFailed =>
    cases h
    exact retryOrFinish_quotes _ _ _
  | connecting | sendVersion | handshaking | malformedGuard | outcomeGuard | resending =>
    simp only [taskStep] at h
    split at h <;> cases h <;> trivial
  | handshaken | getaddr | malformedCount | messageDone | outcomeWrite =>
    cases h
    split <;> trivial
  | _ => cases h; trivial

/-- Addresses are being asked for. -/
def TaskPc.asking : TaskPc → Bool
  | .getaddr _ | .collecting _ | .malformedGuard .. | .malformedCount .. | .malformedLog ..
  | .malformedMark _ | .malformedRelease .. | .messageGuard .. | .breakdown .. | .blockLog ..
  | .blockFailed _ | .blockMark _ | .shuffling .. | .upserting .. | .enqueueing ..
  | .messageDone .. | .outcomeGuard .. | .outcomeWrite .. | .outcomeLog .. | .outcomeMark _
  | .outcomeRelease _ => true
  | _ => false

theorem retryOrFinish_asking (retry : Bool) (terminal : Terminal) (kind : FailKind) :
    (retryOrFinish retry terminal kind).asking = false := by
  cases retry <;> rfl

/-- A task starts asking when it has recorded the handshake, and only outside of probe mode. -/
theorem taskStep_asking (h : taskStep S sh t k a p = some (sh', some q)) (hq : q.asking = true) :
    p.asking = true ∨ ∃ hd sentTs, p = .handshaken hd sentTs ∧ S.settings.probeMode = false := by
  cases p with
  | handshaken hd sentTs =>
    cases h
    refine .inr ⟨hd, sentTs, rfl, ?_⟩
    split at hq
    · cases hq
    · rename_i hprobe
      simpa using hprobe
  | everConnected | handshakeTimeout | handshakeFailed =>
    cases h
    rw [retryOrFinish_asking] at hq
    cases hq
  | connecting | sendVersion | handshaking | resending =>
    simp only [taskStep] at h
    split at h <;> cases h <;> cases hq
  | abandoning f | finishing f =>
    cases hnext : (finishStep sh k f).2 <;> simp only [taskStep, hnext] at h <;> cases h
    cases hq
  | begin | count | connectFailed | connected | connectedAttempt | firstVersion | versionSent
  | completing | requeueing => cases h; cases hq
  | _ => exact .inl rfl

end Messages

/-! ## What has been heard, and from whom -/

/-- The entry has the data of a completed handshake. -/
def NodeStore.Shaken (s : NodeStore) (k : AddrKey) : Prop :=
  ∃ e, s.entry k = some e ∧ e.handshake.isSome = true

theorem NodeStore.Shaken.grows {s s' : NodeStore} {k : AddrKey} (h : s.Shaken k)
    (hs : s.Grows s') : s'.Shaken k := by
  obtain ⟨e, he, hshaken⟩ := h
  obtain ⟨e', he', hgrows⟩ := hs k e he
  exact ⟨e', he', hgrows.handshake hshaken⟩

/-- Where a sighting comes from. -/
def Sourced (S : Setup) (received : List Receipt) (x : Sighting) : Prop :=
  match x.source with
  | none => x.key ∈ S.seedKeys
  | some p => ∃ r ∈ received, r.source = p ∧ ∃ y ∈ enabledAddrs S.settings r.parsed,
      y.key = x.key ∧ y.network = x.net ∧ y.timestamp = x.ts

theorem Sourced.mono {S : Setup} {received more : List Receipt} {x : Sighting}
    (h : Sourced S received x) : Sourced S (received ++ more) x := by
  unfold Sourced at h ⊢
  split at h
  · exact h
  · obtain ⟨r, hr, hrest⟩ := h
    exact ⟨r, List.mem_append_left _ hr, hrest⟩

/-- Only nodes that have shaken hands are asked, and what is handed on is what they say. -/
structure Acquainted (S : Setup) (c : Conf Shared Pc) (g : Hearsay) : Prop where
  asking : ∀ t k p, Pc.worker t (.task k p) ∈ c.threads → p.asking = true →
    S.settings.probeMode = false ∧ c.shared.store.Shaken k
  received : ∀ r ∈ g.received, S.settings.probeMode = false ∧ c.shared.store.Shaken r.source
  quotes : ∀ t k p, Pc.worker t (.task k p) ∈ c.threads → p.Quotes S k g.received
  seeds : ∀ pc ∈ c.threads, ∀ k ∈ pc.seedsLeft, k ∈ S.seedKeys
  sourced : ∀ x ∈ g.seen, Sourced S g.received x

section Step
variable {S : Setup} {ok : Conf Shared Pc → Nat × Answer → Prop} {c c' : Conf Shared Pc}
  {g : Hearsay} {a : Nat × Answer} {pc pc' : Pc} {sh' : Shared}

/-- A worker that has a task after a step had it before, or has just begun it. -/
theorem task_after {t : Transport} {k : AddrKey} {q : TaskPc} {ans : Answer} {sh : Shared}
    (hp : program S sh pc ans = some (sh', .worker t (.task k q))) :
    q = .begin ∨ ∃ p, pc = .worker t (.task k p) ∧ ans.panic = false ∧
      taskStep S sh t k ans p = some (sh', some q) := by
  rcases program_cases hp with ⟨p, p', rfl, heq, hs⟩ | ⟨p, p', rfl, heq, hs⟩ |
    ⟨p, p', rfl, heq, hs⟩ | ⟨L, rfl, heq, -, -⟩ | ⟨t', p, p', rfl, heq, hs⟩ <;> cases heq
  rcases workerStep_cases hs with ⟨k', p, rfl, -, -, heq⟩ | ⟨k', p, next, rfl, hpanic, hstep, heq⟩ |
    ⟨-, -, -, -, -, heq⟩ | ⟨-, -, -, hstep⟩
  · cases heq
  · cases next with
    | none => cases heq
    | some q' =>
      cases heq
      exact .inr ⟨p, rfl, hpanic, hstep⟩
  · cases heq
  · cases loopStep_cases hstep with
    | start => exact .inl rfl

theorem seedsLeft_subset (hp : program S c.shared pc a.2 = some (sh', pc')) :
    pc'.seedsLeft ⊆ pc.seedsLeft := by
  rcases program_cases hp with ⟨p, p', rfl, rfl, hs⟩ | ⟨p, p', rfl, rfl, hs⟩ |
    ⟨p, p', rfl, rfl, hs⟩ | ⟨L, rfl, rfl, -, -⟩ | ⟨t', p, p', rfl, rfl, hs⟩
  · cases p with
    | seeding rest =>
      cases rest with
      | nil => cases hs; exact List.nil_subset _
      | cons k rest =>
        cases hs
        split <;> exact List.subset_cons_self k rest
    | seedEnqueue rest k e =>
      cases hs
      split <;> exact List.Subset.refl _
    | flushing r call =>
      rcases logStep_cases hs with ⟨call', -, rfl⟩ | ⟨res, -, rfl⟩
      · exact List.nil_subset _
      · cases res <;> exact List.nil_subset _
    | _ =>
      simp only [mainStep] at hs
      repeat' split at hs
      all_goals cases hs
      all_goals exact List.nil_subset _
  all_goals exact List.nil_subset _

/-- What a step hears and sees, and from whom. -/
theorem receipt_cases {r : Receipt} (h : pc.receipt a.2 = some r) : a.2.panic = false ∧
    ∃ t s, pc = .worker t (.task r.source (.collecting s)) := by
  unfold Pc.receipt at h
  split at h
  · rename_i t k s
    split at h
    · cases h
    · rename_i hpanic
      split at h <;> cases h
      exact ⟨by simpa using hpanic, t, s, rfl⟩
  · cases h

theorem acquainted_step (hg : Overheard S ok c g) (h : Acquainted S c g)
    (hst : ThreadPool.step (program S) c a = some c') : Acquainted S c' (g.record S c a c') := by
  have hr := hg.reach
  obtain ⟨pc, sh', pc', hpc, hp, rfl⟩ := step_cases hst
  have hmem := List.mem_of_getElem? hpc
  have hgrows := program_grows hp
  rw [Hearsay.record_eq hpc]
  refine ⟨fun t k p hu hask => ?_, fun r hx => ?_, fun t k p hu => ?_, fun u hu k hk => ?_,
    fun x hx => ?_⟩
  · rcases List.mem_or_eq_of_mem_set hu with hu | heq
    · exact (h.asking t k p hu hask).imp_right fun hs => hs.grows hgrows
    · subst heq
      rcases task_after hp with rfl | ⟨q, rfl, -, hstep⟩
      · cases hask
      · rcases taskStep_asking hstep hask with hq | ⟨hd, sentTs, rfl, hprobe⟩
        · exact (h.asking t k q hmem hq).imp_right fun hs => hs.grows hgrows
        · -- the handshake has just been recorded
          have hkeys : k ∈ (Pc.worker t (.task k (.handshaken hd sentTs))).keys :=
            List.mem_cons_self
          obtain ⟨st, hst, -⟩ := (held_once hr).seen_of_mem hmem hkeys
          obtain ⟨e, he, -⟩ := Option.map_eq_some_iff.mp hst
          cases hstep
          exact ⟨hprobe, { e with handshake := some hd }, by simp [he], rfl⟩
  · rcases List.mem_append.mp hx with hx | hx
    · exact (h.received r hx).imp_right fun hs => hs.grows hgrows
    · obtain ⟨-, t, s, rfl⟩ := receipt_cases (Option.mem_toList.mp hx)
      exact (h.asking t _ _ hmem rfl).imp_right fun hs => hs.grows hgrows
  · rcases List.mem_or_eq_of_mem_set hu with hu | heq
    · exact (h.quotes t k p hu).mono
    · subst heq
      rcases task_after hp with rfl | ⟨q, rfl, hpanic, hstep⟩
      · trivial
      · exact taskStep_quotes hstep hpanic (h.quotes t k q hmem)
  · rcases List.mem_or_eq_of_mem_set hu with hu | rfl
    · exact h.seeds u hu k hk
    · exact h.seeds pc hmem k (seedsLeft_subset hp hk)
  · rcases List.mem_append.mp hx with hx | hx
    · exact (h.sourced x hx).mono
    · have hsight : pc.sighting S a.2 = some x := Option.mem_toList.mp hx
      unfold Pc.sighting at hsight
      split at hsight
      · cases hsight
        exact h.seeds _ hmem _ List.mem_cons_self
      · rename_i y rest _
        split at hsight
        · cases hsight
        · cases hsight
          obtain ⟨r, hr, hsource, hrest⟩ := h.quotes _ _ _ hmem
          exact ⟨r, List.mem_append_left _ hr, hsource, y, hrest y List.mem_cons_self, rfl, rfl, rfl⟩
      · cases hsight

theorem acquainted (hg : Overheard S ok c g) : Acquainted S c g := by
  refine hg.invariant (I := Acquainted S) ⟨?_, fun r hr => (by cases hr), ?_, ?_,
    fun x hx => (by cases hx)⟩ fun _ _ _ _ hg ih _ hst => acquainted_step hg ih hst
  · intro t k p hpc
    rcases mem_start hpc with heq | heq | heq | heq | ⟨t', heq, -⟩ <;> cases heq
  · intro t k p hpc
    rcases mem_start hpc with heq | heq | heq | heq | ⟨t', heq, -⟩ <;> cases heq
  · intro pc hpc k hk
    rcases mem_start hpc with rfl | rfl | rfl | rfl | ⟨t', rfl, -⟩
    · exact hk
    all_goals cases hk

/-- In probe mode nothing is received, and no worker is about to ask. -/
theorem Acquainted.unasked (h : Acquainted S c g) (hprobe : S.settings.probeMode = true) :
    g.received = [] ∧ ∀ t k p, Pc.worker t (.task k p) ∈ c.threads → p.asking = false := by
  constructor
  · refine List.eq_nil_iff_forall_not_mem.mpr fun r hr => ?_
    rw [(h.received r hr).1] at hprobe
    cases hprobe
  · intro t k p hpc
    cases hask : p.asking with
    | false => rfl
    | true =>
      rw [(h.asking t k p hpc hask).1] at hprobe
      cases hprobe

/-! ## Chains -/

/-- The address is a seed, or an address of an enabled network in a message from a node that is
    linked to the seeds itself. -/
inductive Traced (S : Setup) (received : List Receipt) : AddrKey → Prop
  | seed {k : AddrKey} (h : k ∈ S.seedKeys) : Traced S received k
  | told {r : Receipt} {x : AdvertisedAddr} (hsource : Traced S received r.source)
      (hr : r ∈ received) (hx : x ∈ enabledAddrs S.settings r.parsed) : Traced S received x.key

theorem Traced.mono {received more : List Receipt} {k : AddrKey} (h : Traced S received k) :
    Traced S (received ++ more) k := by
  induction h with
  | seed h => exact .seed h
  | told _ hr hx ih => exact .told ih (List.mem_append_left _ hr) hx

/-- A known address has been seen. -/
theorem seen_of_known (hg : Overheard S ok c g) {k : AddrKey} {e : NodeEntry}
    (he : c.shared.store.entry k = some e) : ∃ x ∈ g.seen, x.key = k := by
  obtain ⟨hadmitted, -⟩ := ((registered hg).rows k e.row).mp (NodeStore.row_of_entry he)
  have hmem := hadmitted.mem
  simp only [Register.distinct, Hearsay.items, List.mem_toFinset, List.mem_map] at hmem
  obtain ⟨i, ⟨x, hx, rfl⟩, hk⟩ := hmem
  exact ⟨x, hx, hk⟩

/-- Who has been heard was known by then, so every sighting is linked to the seeds. -/
theorem seen_traced (hg : Overheard S ok c g) : ∀ x ∈ g.seen, Traced S g.received x.key := by
  refine hg.invariant (I := fun _ g => ∀ x ∈ g.seen, Traced S g.received x.key)
    (fun x hx => by cases hx) ?_
  intro c g a c' hg ih hok hst x hx
  have hacq := acquainted (hg.next hok hst)
  obtain ⟨pc, sh', pc', hpc, hp, rfl⟩ := step_cases hst
  have hsourced := hacq.sourced x hx
  rw [Hearsay.record_eq hpc] at hx hsourced ⊢
  rcases List.mem_append.mp hx with hx | hx
  · exact (ih x hx).mono
  · have hsight : pc.sighting S a.2 = some x := Option.mem_toList.mp hx
    unfold Sourced at hsourced
    cases hsource : x.source with
    | none =>
      rw [hsource] at hsourced
      exact .seed hsourced
    | some p =>
      rw [hsource] at hsourced
      obtain ⟨r, hr, rfl, y, hy, hkey, -⟩ := hsourced
      rw [← hkey]
      refine .told ?_ hr hy
      -- the node that is being processed is known
      have hkeys : r.source ∈ pc.keys := by
        unfold Pc.sighting at hsight
        split at hsight
        · cases hsight
          cases hsource
        · split at hsight <;> cases hsight
          cases hsource
          exact List.mem_cons_self
        · cases hsight
      obtain ⟨st, hst, -⟩ := (held_once hg.reach).seen_of_mem (List.mem_of_getElem? hpc) hkeys
      obtain ⟨e, he, -⟩ := Option.map_eq_some_iff.mp hst
      obtain ⟨x', hx', hk'⟩ := seen_of_known hg he
      rw [← hk']
      exact (ih x' hx').mono

/-- When nothing has been received, all that is known are the seeds. -/
theorem seeded_of_unasked (hg : Overheard S ok c g) (hnone : g.received = []) {k : AddrKey}
    {e : NodeEntry} (he : c.shared.store.entry k = some e) : k ∈ S.seedKeys := by
  obtain ⟨x, hx, rfl⟩ := seen_of_known hg he
  have hsourced := (acquainted hg).sourced x hx
  unfold Sourced at hsourced
  split at hsourced
  · exact hsourced
  · obtain ⟨r, hr, -⟩ := hsourced
    rw [hnone] at hr
    cases hr

/-- The items of a key are sightings of it. -/
theorem seen_of_own {k : AddrKey} {i : Register.Item AddrKey NetworkType Int}
    (h : i ∈ Register.own (g.items S) k) :
    ∃ x ∈ g.seen, x.key = k ∧ x.net = i.label ∧ x.ts = i.stamp := by
  obtain ⟨hi, hk⟩ := List.mem_filter.mp h
  obtain ⟨x, hx, rfl⟩ := List.mem_map.mp hi
  exact ⟨x, hx, of_decide_eq_true hk, rfl, rfl⟩

end Step

/-! ## Results -/

/-- Where everything that is known comes from. -/
structure Trail (S : Setup) (c : Conf Shared Pc) (g : Hearsay) : Prop where
  traced : ∀ k e, c.shared.store.entry k = some e → Traced S g.received k
  label : ∀ k e, c.shared.store.entry k = some e → ∃ x ∈ g.seen, x.key = k ∧ x.net = e.network
  freshest : ∀ k e, c.shared.store.entry k = some e → ∃ x ∈ g.seen, x.key = k ∧ x.ts = e.freshestTs
  sourced : ∀ x ∈ g.seen, Sourced S g.received x
  shaken : ∀ r ∈ g.received, c.shared.store.Shaken r.source
  unasked : S.settings.probeMode = true →
    g.received = [] ∧ ∀ t k p, Pc.worker t (.task k p) ∈ c.threads → p.asking = false
  probe : S.settings.probeMode = true → ∀ k e, c.shared.store.entry k = some e → k ∈ S.seedKeys

/-- **Nothing is known of itself.**  In every run, every known address is a seed, or is linked to the
    seeds by a chain of messages, each from a node that has completed a handshake; its label and its
    timestamp are those of a seed or of such a message.  In probe mode no worker ever asks for
    addresses, no message of them is received, and nothing is known but the targets. -/
theorem known_traced {S : Setup} {ok : Conf Shared Pc → Nat × Answer → Prop} {c : Conf Shared Pc}
    {g : Hearsay} (hg : Overheard S ok c g) : Trail S c g := by
  have hacq := acquainted hg
  have hentry : ∀ k e, c.shared.store.entry k = some e →
      Register.fold (Register.own (g.items S) k) = some e.row := fun k e he =>
    (((registered hg).rows k e.row).mp (NodeStore.row_of_entry he)).2
  refine ⟨fun k e he => ?_, fun k e he => ?_, fun k e he => ?_, hacq.sourced,
    fun r hr => (hacq.received r hr).2, hacq.unasked,
    fun hprobe k e he => seeded_of_unasked hg (hacq.unasked hprobe).1 he⟩
  · obtain ⟨x, hx, rfl⟩ := seen_of_known hg he
    exact seen_traced hg x hx
  · obtain ⟨hlabel, -, -⟩ := Register.fold_eq_some (hentry k e he)
    obtain ⟨i, hi, hnet⟩ := Option.map_eq_some_iff.mp hlabel
    obtain ⟨x, hx, hk, hlab, -⟩ := seen_of_own (List.mem_of_mem_head? hi)
    exact ⟨x, hx, hk, hlab.trans hnet⟩
  · obtain ⟨-, hlatest, -⟩ := Register.fold_eq_some (hentry k e he)
    obtain ⟨i, hi, hstamp⟩ := Register.latest_mem hlatest
    obtain ⟨x, hx, hk, -, hts⟩ := seen_of_own hi
    exact ⟨x, hx, hk, hts.trans hstamp⟩

/-- An address that is no seed is linked to the seed that advertised it. -/
theorem known_traced_recording : ∃ c g e, Overheard recording Undisturbed c g ∧
    c.shared.store.entry ⟨"192.0.2.7", 8333⟩ = some e ∧
    ⟨"192.0.2.7", 8333⟩ ∉ recording.seedKeys ∧ Trail recording c g ∧
    Traced recording g.received ⟨"192.0.2.7", 8333⟩ := by
  have hrun : (execRecord (program recording) calm (Hearsay.record recording) (start recording) {}
      recordedRun).bind (fun r => (r.1.shared.store.entry ⟨"192.0.2.7", 8333⟩).map fun e =>
        e.freshestTs) = some 9 := by
    decide
  obtain ⟨⟨c, g⟩, hc, heq⟩ := Option.bind_eq_some_iff.mp hrun
  obtain ⟨e, he, -⟩ := Option.map_eq_some_iff.mp heq
  have hg : Overheard recording Undisturbed c g :=
    (execRecord_chronicle hc).mono fun _ _ => calm_undisturbed
  have htrail := known_traced hg
  exact ⟨c, g, e, hg, he, by decide, htrail, htrail.traced _ e he⟩

/-- The settings of the probe: its mode, its address budget, no node limit and no filter. -/
theorem Setup.OfProbe.settings {S : Setup} (h : S.OfProbe) :
    S.settings.probeMode = true ∧ S.settings.maxAddresses = 1000000 ∧ S.settings.maxNodes = none ∧
      S.settings.freshnessThreshold = 0 := by
  obtain ⟨H, a, s, targets, now, hs⟩ := h
  obtain ⟨hthreshold, hnodes, haddresses, hmode⟩ := CommonArgs.intoSettings_args hs
  exact ⟨hmode, haddresses, hnodes, hthreshold⟩

/-- **The probe keeps to its targets.**  In every run of the probe binary no addresses are asked
    for, and every entry is for a target whose network is recognised. -/
theorem probe_keeps_to_targets {S : Setup} (h : S.OfProbe)
    {ok : Conf Shared Pc → Nat × Answer → Prop} {c : Conf Shared Pc} {g : Hearsay}
    (hg : Overheard S ok c g) :
    g.received = [] ∧ (∀ t k p, Pc.worker t (.task k p) ∈ c.threads → p.asking = false) ∧
      ∀ k e, c.shared.store.entry k = some e → k ∈ S.seedKeys := by
  obtain ⟨hnone, hasking⟩ := (acquainted hg).unasked h.settings.1
  exact ⟨hnone, hasking, fun k e he => seeded_of_unasked hg hnone he⟩

end P2PCrawler
