import P2PCrawler.Crawler.Control

/-!
# The queues

* `rooms` — the address budget is the capacity of every queue, and the entries stay within it.
* `never_full` — a task that answers for a queued key finds room in every queue, so that a failed
  send means a closed queue.
* `closed_together` — the queues are closed all at once.
-/

set_option autoImplicit false

namespace P2PCrawler

open ThreadPool

/-! ## Capacity -/

/-- The budget bounds the entries and is the capacity of the queues. -/
structure Roomy (S : Setup) (sh : Shared) : Prop where
  budget : sh.store.maxEntries = S.settings.maxAddresses
  capacity : ∀ t, (sh.queue t).capacity = S.settings.maxAddresses
  size : sh.store.map.size = sh.store.entries
  within : sh.store.entries ≤ sh.store.maxEntries

theorem Effect.roomy {S : Setup} {does : Intent} {sh sh' : Shared} {h h' : Held}
    (he : Effect does sh h sh' h') (hr : Roomy S sh) : Roomy S sh' := by
  obtain ⟨hb, hc, hs, hw⟩ := hr
  have hinsert : ∀ {k : AddrKey} {e : NodeEntry}, sh.store.entry k = none →
      sh.store.entries < sh.store.maxEntries →
      Roomy S { sh with store :=
        { sh.store with entries := sh.store.entries + 1 }.insertEntry k e } := by
    intro k e hnew hroom
    have hsize := AList.size_insert_of_absent (m := sh.store.map) e hnew
    exact ⟨hb, hc, hsize.trans (congrArg (· + 1) hs), hroom⟩
  cases he with
  | aside hst hq hf => exact ⟨hst ▸ hb, hq ▸ hc, hst ▸ hs, hst ▸ hw⟩
  | close hst hq hf => exact ⟨hst ▸ hb, hq ▸ hc, hst ▸ hs, hst ▸ hw⟩
  | forfeit hwhy hst hq hf => exact ⟨hst ▸ hb, hq ▸ hc, hst ▸ hs, hst ▸ hw⟩
  | write | refresh | revive | switch | settle => exact ⟨by simpa, hc, by simpa, by simpa⟩
  | park ho hnew hroom => exact hinsert hnew hroom
  | discover ho hnew hroom => exact hinsert hnew hroom
  | reject | incr | decr => exact ⟨hb, hc, hs, hw⟩
  | @push t k own ho hopen hroom =>
    refine ⟨hb, fun t' => ?_, hs, hw⟩
    by_cases ht : t' = t
    · subst ht; simpa using hc t'
    · simpa [ht] using hc t'
  | @pop t k rest own ho hitems =>
    refine ⟨hb, fun t' => ?_, hs, hw⟩
    by_cases ht : t' = t
    · subst ht; simpa [Shared.pop] using hc t'
    · simpa [Shared.pop, ht] using hc t'

theorem rooms {S : Setup} {ok : Conf Shared Pc → Nat × Answer → Prop} {c : Conf Shared Pc}
    (hr : Reach (program S) ok (start S) c) : Roomy S c.shared := by
  refine hr.invariant (I := fun c => Roomy S c.shared) ⟨rfl, fun _ => rfl, rfl, Nat.zero_le _⟩ ?_
  intro c a c' _ ih _ hst
  obtain ⟨pc, sh', pc', -, hp, rfl⟩ := step_cases hst
  exact (step_effect hp).roomy ih

theorem Pc.share_nonpos (pc : Pc) : 0 ≤ -pc.share := by
  unfold Pc.share
  omega

/-- Every queued key is an entry of the store, so there is room for one that is in no queue yet. -/
theorem never_full {S : Setup} {c : Conf Shared Pc} (hb : Books c) (hroom : Roomy S c.shared)
    {pc : Pc} (hpc : pc ∈ c.threads) (hown : pc.held.owned ≠ []) (t : Transport) :
    (c.shared.queue t).items.length < (c.shared.queue t).capacity := by
  have hle := le_load Pc.share_nonpos hpc
  rw [load_neg] at hle
  have hactive := hb.active
  have hsize := c.shared.store.activeCount_le_size
  have hlen : 0 < pc.held.owned.length := List.length_pos_iff.mpr hown
  have hback : ((c.shared.queue t).items.length : ℤ) ≤ c.shared.backlog := by
    unfold Shared.backlog
    cases t <;> omega
  rw [hroom.size] at hsize
  have := hroom.within
  have := hroom.budget
  have := hroom.capacity t
  simp only [total, activeLedger, Pc.share] at hactive hle
  omega

/-- A send by a task that answers for a queued key fails only where the queue is closed. -/
theorem closed_of_trySend {S : Setup} {c : Conf Shared Pc} (hb : Books c) (hroom : Roomy S c.shared)
    {pc : Pc} (hpc : pc ∈ c.threads) (hown : pc.held.owned ≠ []) {t : Transport} {k : AddrKey}
    (h : c.shared.trySend t k = none) : (c.shared.queue t).closed = true := by
  have hfull := never_full hb hroom hpc hown t
  rcases Shared.trySend_none h with hcl | hle
  · exact hcl
  · omega

/-! ## Closing -/

/-- The queues are open or closed together. -/
theorem Effect.closed_together {does : Intent} {sh sh' : Shared} {h h' : Held}
    (he : Effect does sh h sh' h') (ht : ∀ t t', (sh.queue t).closed = (sh.queue t').closed)
    (t t' : Transport) : (sh'.queue t).closed = (sh'.queue t').closed := by
  cases he with
  | aside hst hq hf => rw [hq]; exact ht t t'
  | close hst hq hf => rw [hq]; rfl
  | forfeit hwhy hst hq hf => rw [hq]; exact ht t t'
  | @push u k own ho hopen hroom =>
    have hsame : ∀ v, (Function.update sh.queue u { sh.queue u with
        items := (sh.queue u).items ++ [k], accepted := (sh.queue u).accepted ++ [k] } v).closed =
        (sh.queue v).closed := by
      intro v
      by_cases hv : v = u
      · subst hv; simp
      · simp [hv]
    simp only [hsame]
    exact ht t t'
  | @pop u k rest own ho hitems =>
    have hsame : ∀ v, ((sh.pop u rest).queue v).closed = (sh.queue v).closed := by
      intro v
      by_cases hv : v = u
      · subst hv; simp [Shared.pop]
      · simp [Shared.pop, hv]
    simp only [hsame]
    exact ht t t'
  | _ => exact ht t t'

theorem closed_together {S : Setup} {ok : Conf Shared Pc → Nat × Answer → Prop} {c : Conf Shared Pc}
    (hr : Reach (program S) ok (start S) c) (t t' : Transport) :
    (c.shared.queue t).closed = (c.shared.queue t').closed := by
  refine hr.invariant (I := fun c => ∀ t t', (c.shared.queue t).closed = (c.shared.queue t').closed)
    (fun _ _ => rfl) ?_ t t'
  intro c a c' _ ih _ hst
  obtain ⟨pc, sh', pc', -, hp, rfl⟩ := step_cases hst
  exact (step_effect hp).closed_together ih

/-! ## Owned entries -/

/-- An entry that is not stale, and that the moving task does not answer for, is at most
    refreshed. -/
theorem Effect.entry_unowned {does : Intent} {sh sh' : Shared} {h h' : Held}
    (he : Effect does sh h sh' h') {k : AddrKey} {st : NodeState} (hk : sh.store.stateOf k = some st)
    (hst : st ≠ .staleDiscarded) (hne : ∀ x ∈ h.owned, x.1 ≠ k) :
    sh'.store.entry k = sh.store.entry k ∨
      ∃ ts, sh'.store.entry k = (sh.store.entry k).map (NodeStore.refresh ts) := by
  have hold : sh.store.entry k ≠ none := by
    obtain ⟨e, he, -⟩ := NodeStore.stateOf_eq_some hk
    rw [he]
    exact nofun
  have hother : ∀ {k' : AddrKey} {f : NodeEntry → NodeEntry}, k' ≠ k →
      (sh.writeEntry k' f).store.entry k = sh.store.entry k := by
    intro k' f hne
    exact NodeStore.entry_withEntry_ne _ _ _ (Ne.symm hne)
  have hinsert : ∀ {k' : AddrKey} {e : NodeEntry} {n : Nat}, sh.store.entry k' = none →
      ({ sh.store with entries := n }.insertEntry k' e).entry k = sh.store.entry k := by
    intro k' e n hnew
    rw [NodeStore.entry_insertEntry, if_neg]
    · rfl
    · rintro rfl; exact hold hnew
  cases he with
  | aside hs hq hf => rw [hs]; exact .inl rfl
  | close hs hq hf => rw [hs]; exact .inl rfl
  | forfeit hwhy hs hq hf => rw [hs]; exact .inl rfl
  | write hmem hf => exact .inl (hother (hne _ hmem))
  | switch hst' hf => exact .inl (hother (hne _ (List.mem_cons_self ..)))
  | settle hst' hf hns => exact .inl (hother (hne _ (List.mem_cons_self ..)))
  | @refresh o h ho =>
    by_cases hkk : o.key = k
    · subst hkk; exact .inr ⟨o.ts, by simp⟩
    · exact .inl (hother hkk)
  | @revive o own ho hstale =>
    have hkk : o.key ≠ k := by
      rintro rfl
      rw [hk] at hstale
      exact hst (Option.some.inj hstale)
    exact .inl (hother hkk)
  | park ho hnew hroom => exact .inl (hinsert hnew)
  | discover ho hnew hroom => exact .inl (hinsert hnew)
  | reject | incr | decr | push | pop => exact .inl rfl

/-- An entry that is active, and that the moving task does not answer for, is at most refreshed. -/
theorem Effect.entry_other {does : Intent} {sh sh' : Shared} {h h' : Held}
    (he : Effect does sh h sh' h') {k : AddrKey} {st : NodeState} (hk : sh.store.stateOf k = some st)
    (hact : st.active = true) (hne : ∀ x ∈ h.owned, x.1 ≠ k) :
    sh'.store.entry k = sh.store.entry k ∨
      ∃ ts, sh'.store.entry k = (sh.store.entry k).map (NodeStore.refresh ts) := by
  refine he.entry_unowned hk ?_ hne
  rintro rfl
  cases hact

/-- Two tasks do not answer for one key. -/
theorem Books.owned_ne {c : Conf Shared Pc} (hb : Books c) {i j : Nat} {pc u : Pc} (hij : i ≠ j)
    (hpc : c.threads[i]? = some pc) (hu : c.threads[j]? = some u) {x : AddrKey × NodeState}
    (hx : x ∈ u.held.owned) : ∀ y ∈ pc.held.owned, y.1 ≠ x.1 := by
  obtain ⟨k, st⟩ := x
  rintro ⟨k', st'⟩ hy rfl
  have hst := hb.owns (List.mem_of_getElem? hu) _ hx
  have hst' := hb.owns (List.mem_of_getElem? hpc) _ hy
  simp only at hst hst'
  obtain rfl : st' = st := Option.some.inj (hst'.symm.trans hst)
  have hact := u.held_active _ hx
  have hsum := hb.state k' st' hact
  have hle := add_le_load (Pc.claims_nonneg k' st') hij hpc hu
  have hcopies := c.shared.copies_nonneg k'
  have h₁ : 0 < pc.held.owned.count (k', st') := List.count_pos_iff.mpr hy
  have h₂ : 0 < u.held.owned.count (k', st') := List.count_pos_iff.mpr hx
  simp only [total, stateLedger, Pc.claims, hst, if_true] at hsum hle
  split at hsum <;> omega

end P2PCrawler
