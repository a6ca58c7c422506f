import P2PCrawler.Crawler.Labels
import P2PCrawler.Dial

/-!
# The addresses that are dialled

Every key in the store is a seed or stood in a message, so every key that is ever queued is one
of those.  The hosts of messages and of DNS results are written by the crawler itself and can be
dialled; the targets of the probe are texts of its user.

* `store_sources` — where the keys of the store come from.

## Results

* `dialled_iff` — **every queued IP address can be dialled, exactly when no admitted seed is a
  dotted quad with a leading zero**; for the crawler that is always so.
-/

set_option autoImplicit false

namespace P2PCrawler

open ThreadPool

/-! ## Seeds -/

/-- The seeds the main task still has to look at. -/
def Pc.seedsLeft : Pc → List AddrKey
  | .main (.seeding rest) | .main (.seedEnqueue rest _ _) => rest
  | _ => []

/-- The seeds that may still be stored have been admitted. -/
def LeftAdmitted (S : Setup) (sh : Shared) (pc : Pc) : Prop :=
  ∀ k ∈ unstored sh.store.known sh.store.room pc.seedsLeft, k ∈ S.admitted

theorem leftAdmitted_nil {S : Setup} {sh : Shared} {pc : Pc} (h : pc.seedsLeft = []) :
    LeftAdmitted S sh pc := by
  intro k hk
  rw [h] at hk
  simp [unstored] at hk

theorem mainStep_leftAdmitted {S : Setup} {sh sh' : Shared} {a : Answer} {p p' : MainPc}
    (h : mainStep S sh a p = some (sh', p')) (hleft : LeftAdmitted S sh (.main p)) :
    LeftAdmitted S sh' (.main p') := by
  cases p with
  | seeding rest =>
    cases rest with
    | nil => cases h; exact leftAdmitted_nil rfl
    | cons k rest =>
      cases h
      have hnext := (observeSeed_left (S := S) hleft).1
      cases hout : (sh.store.observeSeed S.digests k S.seedTime).2 with
      | false => exact hnext
      | true => exact hnext
  | seedEnqueue rest k e =>
    cases h
    have hnext : LeftAdmitted S (enqueueStep S.digests sh k e).1 (.main (.seeding rest)) :=
      enqueueStep_left k e hleft
    cases hout : (enqueueStep S.digests sh k e).2 with
    | none => exact hnext
    | some e' => exact hnext
  | joining joined =>
    simp only [mainStep] at h
    split at h
    · cases h; exact leftAdmitted_nil rfl
    · split at h <;> split at h <;> cases h <;> exact leftAdmitted_nil rfl
  | awaitSignals | awaitCheckpoint | stopping | writing =>
    simp only [mainStep] at h
    split at h <;> cases h <;> exact leftAdmitted_nil rfl
  | flushing r call =>
    obtain ⟨-, ⟨_, rfl⟩ | ⟨res, rfl⟩⟩ := logStep_effect h
    · exact leftAdmitted_nil rfl
    · cases res <;> exact leftAdmitted_nil rfl
  | startCheck | checkWorkers | finalFlush => cases h; split <;> exact leftAdmitted_nil rfl
  | finished => cases h
  | _ => cases h; exact leftAdmitted_nil rfl

theorem seeds_left {S : Setup} {ok : Conf Shared Pc → Nat × Answer → Prop} {c : Conf Shared Pc}
    (hr : Reach (program S) ok (start S) c) : Holds (LeftAdmitted S) c := by
  refine hr.invariant (I := Holds (LeftAdmitted S)) ?_ ?_
  · intro i pc hpc
    rcases mem_start (List.mem_of_getElem? hpc) with rfl | rfl | rfl | rfl | ⟨t, rfl, -⟩
    · intro k hk
      have hknown : (start S).shared.store.known = fun _ => false := by funext k; rfl
      have hall : S.seedKeys.filter (fun _ => !false) = S.seedKeys := List.filter_true ..
      rw [hknown, unstored, show (Pc.main (.seeding S.seedKeys)).seedsLeft = S.seedKeys from rfl,
        hall] at hk
      exact hk
    all_goals exact leftAdmitted_nil rfl
  · intro c a c' hr hi _ hst
    refine hi.step hst ?_ ?_
    · intro pc sh' pc' hpc hp
      have hmine := hi _ _ hpc
      rcases program_cases hp with ⟨p, p', rfl, rfl, hs⟩ | ⟨p, p', rfl, rfl, -⟩ |
        ⟨p, p', rfl, rfl, -⟩ | ⟨L, rfl, rfl, -, -⟩ | ⟨t, p, p', rfl, rfl, -⟩
      · exact mainStep_leftAdmitted hs hmine
      all_goals exact leftAdmitted_nil rfl
    · intro pc sh' pc' j u hpc hp hj hu hold
      -- nobody else touches the store while the main task is seeding
      cases u with
      | main q =>
        have hne : ∀ p, pc ≠ .main p := by
          rintro p rfl
          exact hj ((main_index hr hu).trans (main_index hr hpc).symm)
        have hphase := phases hr _ _ hu
        cases q with
        | seeding rest =>
          obtain ⟨hs, -, -⟩ := idle_before_spawn hr hphase hpc hp hne
          unfold LeftAdmitted at hold ⊢
          rw [hs]
          exact hold
        | seedEnqueue rest k e =>
          obtain ⟨hs, -, -⟩ := idle_before_spawn hr hphase hpc hp hne
          unfold LeftAdmitted at hold ⊢
          rw [hs]
          exact hold
        | _ => exact leftAdmitted_nil rfl
      | _ => exact leftAdmitted_nil rfl

/-! ## Where keys come from -/

/-- A key in the store is an admitted seed or stood in a message. -/
theorem store_sources {S : Setup} {c : Conf Shared Pc}
    (hr : Reach (program S) (fromWire S) (start S) c) {k : AddrKey} {net : NetworkType}
    (hk : c.shared.store.networkOf k = some net) :
    k ∈ S.admitted ∨ ∃ command x, SeenIn S.digests command x ∧ x.key = k := by
  revert k net
  refine hr.invariant (I := fun c => ∀ {k : AddrKey} {net : NetworkType},
    c.shared.store.networkOf k = some net →
      k ∈ S.admitted ∨ ∃ command x, SeenIn S.digests command x ∧ x.key = k) ?_ ?_
  · intro k net h
    cases h
  · intro c a c' hr ih _ hst k net hnet
    obtain ⟨pc, sh', pc', ht, hp, rfl⟩ := step_cases hst
    rcases (step_effect hp).new_network hnet with hold | ⟨o, ho, rfl, rfl, hnew, hroom⟩
    · exact ih hold
    · rcases intent_observe ho with ⟨k, rest, rfl, rfl⟩ | ⟨t, k, c', count, now, x, rest, rfl, rfl⟩
      · left
        obtain ⟨r, hr'⟩ : ∃ r, c.shared.store.room = r + 1 :=
          ⟨c.shared.store.room - 1, by simp only [NodeStore.room]; omega⟩
        refine seeds_left hr _ _ ht k ?_
        show k ∈ unstored _ _ (k :: rest)
        rw [hr', unstored_new (NodeStore.known_eq_false hnew)]
        exact List.mem_cons_self ..
      · obtain ⟨command, hseen⟩ := carried_seen hr _ (List.mem_of_getElem? ht) x (List.mem_cons_self ..)
        exact .inr ⟨command, x, hseen, rfl⟩

/-- The hosts of messages are plain. -/
theorem SeenIn.plainIp {H : Digests} {command : AddrCommand} {x : AdvertisedAddr}
    (h : SeenIn H command x) (hip : IpHost H x.host) : PlainIp x.host := by
  obtain ⟨parsed, hdec, hx⟩ := h
  cases command with
  | addr =>
    obtain ⟨payload, hp⟩ := hdec
    obtain ⟨w, e, -, hdecoded, -⟩ := mem_addrs recognizes_legacyEntry hp hx
    cases hdecoded
    exact plainIp_decodeLegacyIp e.sized
  | addrv2 =>
    obtain ⟨payload, hp⟩ := hdec
    obtain ⟨w, e, hvalid, hdecoded, -⟩ := mem_addrs (recognizes_addrv2Entry H) hp hx
    obtain ⟨host, hhost, rfl⟩ := Option.map_eq_some_iff.mp hdecoded.symm
    obtain ⟨hlen, hdec⟩ := hvalid.decodes H
    rw [hhost] at hdec
    exact (bip155Host_of_decodeAddrv2 H hlen hdec).plainIp hip

/-- The hosts of DNS results are plain. -/
theorem plainIp_of_dns {S : Setup} {ips : List Net.IpAddr} (hdns : S.ingress = .dns (ips.map ipToHost))
    {k : AddrKey} (hk : k ∈ S.admitted) : PlainIp k.host := by
  have hseed : k ∈ S.seedKeys := List.mem_eraseDups.mp (List.mem_of_mem_take hk)
  unfold Setup.seedKeys at hseed
  rw [hdns] at hseed
  obtain ⟨host, hhost, rfl⟩ := List.mem_map.mp hseed
  obtain ⟨ip, -, rfl⟩ := List.mem_map.mp (List.mem_filter.mp hhost).1
  exact plainIp_ipToHost ip

/-! ## The result -/

/-- Every key that was ever queued and is taken for an IP address is dialled as one. -/
def AllDialled (S : Setup) (c : Conf Shared Pc) : Prop :=
  ∀ t, ∀ k ∈ (c.shared.queue t).accepted, IpHost S.digests k.host →
    ∃ target, connectTarget k.host k.port = .ok target

theorem dialled_of_plain {S : Setup} (hplain : ∀ k ∈ S.admitted, IpHost S.digests k.host → PlainIp k.host)
    {c : Conf Shared Pc} (hr : Reach (program S) (fromWire S) (start S) c) : AllDialled S c := by
  intro t k hk hip
  obtain ⟨net, hnet, -, -⟩ := (routed_via (E := fun _ => true) (fun _ _ => rfl) (fun _ _ => rfl) hr).queues t k hk
  refine (connectTarget_ok_iff hip k.port).mpr ?_
  rcases store_sources hr hnet with hseed | ⟨command, x, hseen, rfl⟩
  · exact hplain k hseed hip
  · exact hseen.plainIp hip

/-- **Dialling.**  A host that is taken for an IP address is read as a numeric address of its
    network iff it is an IPv6 text or a dotted quad without leading zeros.  So every IP address
    ever queued can be dialled, exactly when no admitted seed is a dotted quad with a leading
    zero; the seeds that come from DNS never are. -/
theorem dialled_iff (S : Setup) :
    (∀ host, IpHost S.digests host →
      ((∃ ip, Net.parseIpAddr host.toList = some ip ∧ ip.network = classify S.digests host) ↔
        PlainIp host)) ∧
    ((∀ c, Reach (program S) (fromWire S) (start S) c → AllDialled S c) ↔
      ∀ k ∈ S.admitted, IpHost S.digests k.host → PlainIp k.host) ∧
    (∀ ips : List Net.IpAddr, S.ingress = .dns (ips.map ipToHost) →
      ∀ c, Reach (program S) (fromWire S) (start S) c → AllDialled S c) := by
  refine ⟨fun host hip => ?_, ⟨fun h k hk hip => ?_, fun h c hr => dialled_of_plain h hr⟩,
    fun ips hdns c hr => dialled_of_plain (fun k hk _ => plainIp_of_dns hdns hk) hr⟩
  · rw [← dialable_iff hip]
    constructor
    · rintro ⟨ip, hparse, -⟩
      exact ⟨ip, hparse⟩
    · rintro ⟨ip, hparse⟩
      exact ⟨ip, hparse, network_of_parseIpAddr hip hparse⟩
  · have hok : ∀ c, fromWire S c (0, {}) := fun c command parsed h => by cases h
    obtain ⟨c, hr, -, hacc⟩ := admitted_seed_queued hok hk
    exact (connectTarget_ok_iff hip k.port).mp (h c hr _ k hacc hip)

/-- A target of the probe that is taken for an IPv4 address and cannot be dialled. -/
theorem padded_target_not_dialled :
    classify Digests.zero "01.2.3.4" = .ipv4 ∧ Net.parseIpAddr "01.2.3.4".toList = none ∧
      connectTarget "01.2.3.4" 8333 = .error "not a numeric IP address: 01.2.3.4" := by
  decide

end P2PCrawler
