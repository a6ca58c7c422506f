import P2PCrawler.Crawler.Logging
import P2PCrawler.Crawler.Holding
import P2PCrawler.Crawler.Routing
import P2PCrawler.Crawler.Frontier

/-!
# The network recorded for an address

A node is labelled when its entry is created, by whoever saw it first: the classifier for a
seed, the decoder of the message for an advertised address.  The log labels a responder by
classifying it again.

* `carried_addrs` — the addresses a task has in hand are those of the messages it received.
* `one_label` — all labels of an address agree, except for `fc00::/8`, where the first legacy
  observation says IPv6 and everything else CJDNS.
* `fc_label_depends_on_order` — there the order of two messages decides.
-/

set_option autoImplicit false

namespace P2PCrawler

open ThreadPool

/-! ## Addresses in hand -/

/-- The addresses of a message that a task still has to look at. -/
def TaskPc.addrs : TaskPc → List AdvertisedAddr
  | .messageGuard _ _ parsed | .breakdown _ _ parsed | .blockLog _ parsed _ _
  | .shuffling _ parsed _ => parsed.addrs
  | .upserting _ _ _ rest | .enqueueing _ _ _ rest _ _ => rest
  | _ => []

def Pc.addrs : Pc → List AdvertisedAddr
  | .worker _ (.task _ p) => p.addrs
  | _ => []

theorem retryOrFinish_addrs (retry : Bool) (terminal : Terminal) (kind : FailKind) :
    (retryOrFinish retry terminal kind).addrs = [] := by
  cases retry <;> rfl

theorem upsertNext_addrs (c : Session) (count : Nat) (now : Int) (rest : List AdvertisedAddr)
    (key : AddrKey) (out : FrontierOutcome) : (upsertNext c count now rest key out).addrs = rest := by
  cases out <;> rfl

/-- An address in hand after a step was in hand before, or has just been received. -/
theorem taskStep_addrs {S : Setup} {sh sh' : Shared} {t : Transport} {k : AddrKey} {a : Answer}
    {p : TaskPc} {next : Option TaskPc} (h : taskStep S sh t k a p = some (sh', next))
    {q : TaskPc} (hq : next = some q) {x : AdvertisedAddr} (hx : x ∈ q.addrs) :
    x ∈ p.addrs ∨ ∃ command parsed, a.collected = .message command parsed ∧ x ∈ parsed.addrs := by
  subst hq
  cases p with
  | collecting c =>
    simp only [taskStep] at h
    cases hcol : a.collected with
    | message command parsed =>
      rw [hcol] at h
      cases h
      exact .inr ⟨command, parsed, rfl, hx⟩
    | ping failed => rw [hcol] at h; cases failed <;> cases h <;> cases hx
    | quiet inside => rw [hcol] at h; cases inside <;> cases h <;> cases hx
    | error e =>
      rw [hcol] at h
      simp only [collect] at h
      by_cases htime : e.kind = .timedOut
      · simp only [if_pos htime] at h; cases h; cases hx
      · simp only [if_neg htime] at h; cases h; cases hx
    | expired | skip | malformed => rw [hcol] at h; cases h; cases hx
  | messageGuard c command parsed =>
    simp only [taskStep] at h
    split at h <;> cases h
    exact .inl hx
  | breakdown c command parsed =>
    cases h
    cases hl : S.logging <;> rw [hl] at hx <;> exact .inl hx
  | blockLog c parsed now call =>
    rcases logStep_cases h with ⟨call', -, heq⟩ | ⟨res, -, heq⟩
    · cases heq; exact .inl hx
    · cases res <;> cases heq
      · cases hx
      · exact .inl hx
  | malformedLog c call =>
    rcases logStep_cases h with ⟨call', -, heq⟩ | ⟨res, -, heq⟩
    · cases heq; cases hx
    · cases res <;> cases heq <;> cases hx
  | outcomeLog c call =>
    rcases logStep_cases h with ⟨call', -, heq⟩ | ⟨res, -, heq⟩
    · cases heq; cases hx
    · cases res <;> cases heq <;> cases hx
  | shuffling c parsed now =>
    simp only [taskStep] at h
    split at h
    · rename_i hperm
      cases h
      have hmem := (List.isPerm_iff.mp hperm).mem_iff.mp hx
      exact .inl (List.mem_of_mem_filter hmem)
    · cases h
  | upserting c count now rest =>
    cases rest with
    | nil => cases h; cases hx
    | cons addr rest =>
      cases h
      rw [upsertNext_addrs] at hx
      exact .inl (List.mem_cons_of_mem _ hx)
  | enqueueing c count now rest key e =>
    simp only [taskStep, Option.some.injEq, Prod.mk.injEq] at h
    obtain ⟨-, rfl⟩ := h
    split at hx <;> exact .inl hx
  | abandoning f =>
    cases hnext : (finishStep sh k f).2 <;> simp only [taskStep, hnext] at h <;> cases h
    cases hx
  | finishing f =>
    cases hnext : (finishStep sh k f).2 <;> simp only [taskStep, hnext] at h <;> cases h
    cases hx
  | everConnected | handshakeTimeout | handshakeFailed =>
    cases h
    rw [retryOrFinish_addrs] at hx
    cases hx
  | connecting | sendVersion | handshaking | malformedGuard | outcomeGuard | resending =>
    simp only [taskStep] at h
    split at h <;> cases h <;> cases hx
  | handshaken | getaddr | malformedCount | messageDone | outcomeWrite =>
    simp only [taskStep, Option.some.injEq, Prod.mk.injEq] at h
    obtain ⟨-, rfl⟩ := h
    split at hx <;> cases hx
  | _ => cases h; cases hx

theorem loopStep_addrs {S : Setup} {sh sh' : Shared} {t : Transport} {p p' : WorkerPc}
    (h : loopStep S sh t p = some (sh', p')) : (Pc.worker t p').addrs = [] := by
  cases loopStep_cases h <;> rfl

theorem program_addrs {S : Setup} {sh sh' : Shared} {pc pc' : Pc} {a : Answer}
    (h : program S sh pc a = some (sh', pc')) {x : AdvertisedAddr} (hx : x ∈ pc'.addrs) :
    x ∈ pc.addrs ∨ ∃ command parsed, a.collected = .message command parsed ∧ x ∈ parsed.addrs := by
  rcases program_cases h with ⟨p, p', rfl, rfl, hs⟩ | ⟨p, p', rfl, rfl, hs⟩ |
    ⟨p, p', rfl, rfl, hs⟩ | ⟨L, rfl, rfl, hs, rfl⟩ | ⟨t, p, p', rfl, rfl, hs⟩
  · cases hx
  · cases hx
  · cases hx
  · cases hx
  · rcases workerStep_cases hs with ⟨k, q, rfl, -, -, rfl⟩ | ⟨k, q, next, rfl, -, hstep, rfl⟩ |
      ⟨-, -, -, -, -, rfl⟩ | ⟨-, -, -, hstep⟩
    · cases hx
    · cases next with
      | none => cases hx
      | some q' => exact taskStep_addrs hstep rfl hx
    · cases hx
    · rw [loopStep_addrs hstep] at hx
      cases hx

/-- What holds of the addresses of all received messages holds of the addresses in hand. -/
theorem carried_addrs {S : Setup} {ok : Conf Shared Pc → Nat × Answer → Prop}
    {P : AdvertisedAddr → Prop}
    (hok : ∀ c a, ok c a → ∀ command parsed, a.2.collected = .message command parsed →
      ∀ x ∈ parsed.addrs, P x)
    {c : Conf Shared Pc} (hr : Reach (program S) ok (start S) c) :
    ∀ pc ∈ c.threads, ∀ x ∈ pc.addrs, P x := by
  refine hr.invariant (I := fun c => ∀ pc ∈ c.threads, ∀ x ∈ pc.addrs, P x) ?_ ?_
  · intro pc hpc x hx
    rcases mem_start hpc with rfl | rfl | rfl | rfl | ⟨t, rfl, -⟩ <;> cases hx
  · intro c a c' _ ih hadm hst
    obtain ⟨pc, sh', pc', ht, hp, rfl⟩ := step_cases hst
    intro u hu x hx
    rcases List.mem_or_eq_of_mem_set hu with hu | rfl
    · exact ih u hu x hx
    · rcases program_addrs hp hx with hx | ⟨command, parsed, hcol, hx⟩
      · exact ih pc (List.mem_of_getElem? ht) x hx
      · exact hok c a hadm command parsed hcol x hx

/-! ## Messages from the wire -/

/-- The message is what `parse_addr` or `parse_addrv2` makes of some payload. -/
def Decoded (H : Digests) (parsed : ParsedAddrMessage) : AddrCommand → Prop
  | .addr => ∃ payload, parseAddr payload = .ok parsed
  | .addrv2 => ∃ payload, parseAddrv2 H payload = .ok parsed

/-- Every message a task receives has been decoded from its payload. -/
def fromWire (S : Setup) (_ : Conf Shared Pc) (a : Nat × Answer) : Prop :=
  ∀ command parsed, a.2.collected = .message command parsed → Decoded S.digests parsed command

/-- Every message is decoded from its payload, and no legacy one names an address in `fc00::/8`. -/
def fcFree (S : Setup) (c : Conf Shared Pc) (a : Nat × Answer) : Prop :=
  fromWire S c a ∧ ∀ parsed, a.2.collected = .message .addr parsed →
    ∀ x ∈ parsed.addrs, classify S.digests x.host ≠ .cjdns

/-- The address stood in a message of this kind. -/
def SeenIn (H : Digests) (command : AddrCommand) (x : AdvertisedAddr) : Prop :=
  ∃ parsed, Decoded H parsed command ∧ x ∈ parsed.addrs

/-- The addresses in hand have been seen in some message. -/
theorem carried_seen {S : Setup} {c : Conf Shared Pc}
    (hr : Reach (program S) (fromWire S) (start S) c) :
    ∀ pc ∈ c.threads, ∀ x ∈ pc.addrs, ∃ command, SeenIn S.digests command x :=
  carried_addrs (P := fun x => ∃ command, SeenIn S.digests command x)
    (fun _ _ hadm command parsed hcol _ hx => ⟨command, parsed, hadm command parsed hcol, hx⟩) hr

/-! ## Labels -/

/-- How an address is observed. -/
inductive Origin where
  | seed
  | gossip (command : AddrCommand)
  deriving DecidableEq, Repr

/-- The label an observation gives to a host. -/
def Origin.label (H : Digests) (host : String) : Origin → NetworkType
  | .gossip .addr => legacyLabel H host
  | _ => classify H host

/-- Only the hosts in `fc00::/8` are labelled in two ways. -/
theorem Origin.label_eq {H : Digests} {host : String} (h : classify H host ≠ .cjdns)
    (origin : Origin) : origin.label H host = classify H host := by
  cases origin with
  | seed => rfl
  | gossip command =>
    cases command with
    | addr => exact if_neg h
    | addrv2 => rfl

theorem Origin.label_fc {H : Digests} {host : String} (h : classify H host = .cjdns)
    (origin : Origin) :
    origin.label H host = if origin = .gossip .addr then .ipv6 else .cjdns := by
  cases origin with
  | seed => exact h
  | gossip command =>
    cases command with
    | addr => exact if_pos h
    | addrv2 => exact h

theorem SeenIn.network {H : Digests} {command : AddrCommand} {x : AdvertisedAddr}
    (h : SeenIn H command x) : x.network = (Origin.gossip command).label H x.host := by
  obtain ⟨parsed, hdec, hx⟩ := h
  cases command with
  | addr =>
    obtain ⟨payload, hp⟩ := hdec
    exact (label_of_parseAddr H hp hx).1
  | addrv2 =>
    obtain ⟨payload, hp⟩ := hdec
    exact (label_of_parseAddrv2 hp hx).1

/-- The next step of the thread is an observation of the key. -/
def Pc.Observes (S : Setup) (pc : Pc) (k : AddrKey) : Origin → Prop
  | .seed => ∃ rest, pc = .main (.seeding (k :: rest))
  | .gossip command => ∃ t k₀ c count now x rest,
    pc = .worker t (.task k₀ (.upserting c count now (x :: rest))) ∧ x.key = k ∧
      SeenIn S.digests command x

theorem observed_label {S : Setup} {c : Conf Shared Pc}
    (hr : Reach (program S) (fromWire S) (start S) c) {pc : Pc} (hpc : pc ∈ c.threads)
    {o : Observation} (ho : pc.intent S = .observe o) :
    ∃ origin, pc.Observes S o.key origin ∧ o.net = origin.label S.digests o.key.host := by
  rcases intent_observe ho with ⟨k, rest, rfl, rfl⟩ | ⟨t, k, c', count, now, x, rest, rfl, rfl⟩
  · exact ⟨.seed, ⟨rest, rfl⟩, rfl⟩
  · obtain ⟨command, hseen⟩ := carried_seen hr _ hpc x (List.mem_cons_self ..)
    exact ⟨.gossip command, ⟨t, k, c', count, now, x, rest, rfl, rfl, hseen⟩, hseen.network⟩

/-- An entry is created by an observation and gets its label. -/
theorem created_label {S : Setup} {c : Conf Shared Pc}
    (hr : Reach (program S) (fromWire S) (start S) c) {pc pc' : Pc} (hpc : pc ∈ c.threads)
    {sh' : Shared} {a : Answer} (h : program S c.shared pc a = some (sh', pc')) {k : AddrKey}
    {net : NetworkType} (hnone : c.shared.store.networkOf k = none)
    (hnet : sh'.store.networkOf k = some net) :
    ∃ origin, pc.Observes S k origin ∧ net = origin.label S.digests k.host := by
  rcases (step_effect h).new_network hnet with hold | ⟨o, ho, rfl, rfl, -⟩
  · rw [hnone] at hold; cases hold
  · exact observed_label hr hpc ho

/-- The network of an entry is that of a seed or of an address in hand. -/
theorem stored_network {S : Setup} {ok : Conf Shared Pc → Nat × Answer → Prop}
    {Q : AddrKey → NetworkType → Prop} (hseed : ∀ k, Q k (classify S.digests k.host))
    (hgossip : ∀ c, Reach (program S) ok (start S) c → ∀ pc ∈ c.threads, ∀ x ∈ pc.addrs,
      Q x.key x.network)
    {c : Conf Shared Pc} (hr : Reach (program S) ok (start S) c) :
    ∀ k net, c.shared.store.networkOf k = some net → Q k net := by
  refine hr.invariant (I := fun c => ∀ k net, c.shared.store.networkOf k = some net → Q k net) ?_ ?_
  · intro k net h
    cases h
  · intro c a c' hr ih _ hst k net hnet
    obtain ⟨pc, sh', pc', ht, hp, rfl⟩ := step_cases hst
    rcases (step_effect hp).new_network hnet with hold | ⟨o, ho, rfl, rfl, -⟩
    · exact ih k net hold
    · rcases intent_observe ho with ⟨k, rest, rfl, rfl⟩ | ⟨t, k, c', count, now, x, rest, rfl, rfl⟩
      · exact hseed k
      · exact hgossip c hr _ (List.mem_of_getElem? ht) x (List.mem_cons_self ..)

/-- Every label in the store is that of some observation. -/
theorem stored_label {S : Setup} {c : Conf Shared Pc}
    (hr : Reach (program S) (fromWire S) (start S) c) :
    ∀ k net, c.shared.store.networkOf k = some net →
      ∃ origin : Origin, net = origin.label S.digests k.host := by
  refine stored_network (Q := fun k net => ∃ origin : Origin, net = origin.label S.digests k.host)
    (fun k => ⟨.seed, rfl⟩) (fun c hr pc hpc x hx => ?_) hr
  obtain ⟨command, hseen⟩ := carried_seen hr pc hpc x hx
  exact ⟨.gossip command, hseen.network⟩

/-- **Without legacy observations of `fc00::/8`** every label is the class of the host. -/
theorem stored_class {S : Setup} {c : Conf Shared Pc}
    (hr : Reach (program S) (fcFree S) (start S) c) :
    ∀ k net, c.shared.store.networkOf k = some net → net = classify S.digests k.host := by
  refine stored_network (Q := fun k net => net = classify S.digests k.host) (fun _ => rfl) ?_ hr
  intro c hr
  refine carried_addrs (P := fun x => x.network = classify S.digests x.host) ?_ hr
  rintro _ a ⟨hwire, hfree⟩ command parsed hcol x hx
  have hseen : SeenIn S.digests command x := ⟨parsed, hwire command parsed hcol, hx⟩
  rw [hseen.network]
  cases command with
  | addr => exact Origin.label_eq (hfree parsed hcol x hx) _
  | addrv2 => rfl

/-- A label stays. -/
theorem label_kept {S : Setup} {c c' : Conf Shared Pc} (hr : Reachable (program S) c c')
    {k : AddrKey} {net : NetworkType} (hnet : c.shared.store.networkOf k = some net) :
    c'.shared.store.networkOf k = some net := by
  refine hr.invariant (I := fun c' => c'.shared.store.networkOf k = some net) hnet ?_
  intro c₁ a c₂ _ ih _ hst
  obtain ⟨pc, sh', pc', ht, hp, rfl⟩ := step_cases hst
  exact (step_effect hp).network ih

/-- The lines of a responder carry the classification of its host. -/
theorem logged_label {S : Setup} {ok : Conf Shared Pc → Nat × Answer → Prop} {c : Conf Shared Pc}
    (hr : Reach (program S) ok (start S) c) {piece : Piece} (hp : piece ∈ c.shared.log.written)
    {r : Responder} {parsed : ParsedAddrMessage} (hevent : piece.event = .block r parsed) :
    r.network = (classify S.digests r.host).asStr := by
  obtain ⟨k, h⟩ := (carried_events hr).written piece hp
  rw [hevent] at h
  rcases h with ⟨c, command, parsed', now, heq⟩ | ⟨outcome, heq⟩ | ⟨messageType, error, payload, heq⟩
  · cases heq; rfl
  · cases heq
  · cases heq

/-- A node that a record is about is known. -/
theorem logged_known {S : Setup} {ok : Conf Shared Pc → Nat × Answer → Prop} {c : Conf Shared Pc}
    (hr : Reach (program S) ok (start S) c) :
    c.shared.log.Carries fun e => ∃ entry, c.shared.store.entry e.key = some entry := by
  refine hr.invariant (I := fun c => c.shared.log.Carries fun e =>
    ∃ entry, c.shared.store.entry e.key = some entry) ?_ ?_
  · exact ⟨fun _ h => (by cases h), fun _ h => (by cases h)⟩
  · intro c a c' hr ih _ hst
    obtain ⟨pc, sh', pc', ht, hp, rfl⟩ := step_cases hst
    have hmem := List.mem_of_getElem? ht
    -- the node that is being processed is known
    have hown : ∀ t k p, pc = .worker t (.task k p) → ∀ e, EventOf S k e →
        ∃ entry, c.shared.store.entry e.key = some entry := by
      rintro t k p rfl e he
      rw [he.key_eq]
      exact entry_of_seen ((held_once hr).seen_of_mem hmem task_key_mem)
    refine (program_writesOf hp ((writers_ok hr).1 pc hmem) hown ih).2.mono ?_
    rintro e ⟨entry, hentry⟩
    have hnet : c.shared.store.networkOf e.key = some entry.network := congrArg (Option.map _) hentry
    obtain ⟨entry', hentry', -⟩ := Option.map_eq_some_iff.mp ((step_effect hp).network hnet)
    exact ⟨entry', hentry'⟩

/-! ## The result -/

/-- Which network is recorded for the addresses of a run. -/
structure OneLabel (S : Setup) (c : Conf Shared Pc) : Prop where
  stored : ∀ k net, classify S.digests k.host ≠ .cjdns → c.shared.store.networkOf k = some net →
    net = classify S.digests k.host
  created : ∀ pc ∈ c.threads, ∀ a sh' pc', program S c.shared pc a = some (sh', pc') →
    ∀ k net, classify S.digests k.host = .cjdns → c.shared.store.networkOf k = none →
      sh'.store.networkOf k = some net →
        ∃ origin, pc.Observes S k origin ∧ net = if origin = .gossip .addr then .ipv6 else .cjdns
  kept : ∀ c', Reachable (program S) c c' → ∀ k net,
    c.shared.store.networkOf k = some net → c'.shared.store.networkOf k = some net
  logged : ∀ piece ∈ c.shared.log.written, ∀ r parsed, piece.event = .block r parsed →
    r.network = (classify S.digests r.host).asStr

/-- All labels of a run agree: an entry has the class of its host, and the lines of a responder
    carry the label of its entry. -/
structure SameLabel (S : Setup) (c : Conf Shared Pc) : Prop where
  stored : ∀ k net, c.shared.store.networkOf k = some net → net = classify S.digests k.host
  logged : ∀ piece ∈ c.shared.log.written, ∀ r parsed, piece.event = .block r parsed →
    ∃ net, c.shared.store.networkOf ⟨r.host, r.port⟩ = some net ∧ r.network = net.asStr

/-- **One label for each address.**  In every run, whatever the order of the observations, an
    address outside `fc00::/8` has the class of its host, in the store and in the log; two runs
    agree on it.  For an address in `fc00::/8` the observation that creates its entry decides, for
    the rest of the run: IPv6 for a legacy message, CJDNS for anything else; its log lines say
    CJDNS.  So as long as no legacy message names such an address, all labels agree, within a run
    and between two runs. -/
theorem one_label {S S' : Setup} {c c' : Conf Shared Pc}
    (hr : Reach (program S) (fromWire S) (start S) c)
    (hr' : Reach (program S') (fromWire S') (start S') c') (hdigests : S.digests = S'.digests) :
    OneLabel S c ∧
    (∀ k net net', classify S.digests k.host ≠ .cjdns →
      c.shared.store.networkOf k = some net → c'.shared.store.networkOf k = some net' →
        net = net') ∧
    (Reach (program S) (fcFree S) (start S) c → SameLabel S c) ∧
    (Reach (program S) (fcFree S) (start S) c → Reach (program S') (fcFree S') (start S') c' →
      ∀ k net net', c.shared.store.networkOf k = some net →
        c'.shared.store.networkOf k = some net' → net = net') := by
  have hclass : ∀ {S : Setup} {c : Conf Shared Pc}, Reach (program S) (fromWire S) (start S) c →
      ∀ k net, classify S.digests k.host ≠ .cjdns → c.shared.store.networkOf k = some net →
        net = classify S.digests k.host := by
    intro S c hr k net hfc hnet
    obtain ⟨origin, rfl⟩ := stored_label hr k net hnet
    exact origin.label_eq hfc
  refine ⟨⟨hclass hr, ?_, fun c' hr' k net => label_kept hr', ?_⟩, ?_, fun hfree => ⟨?_, ?_⟩, ?_⟩
  · intro pc hpc a sh' pc' h k net hfc hnone hnet
    obtain ⟨origin, hobs, rfl⟩ := created_label hr hpc h hnone hnet
    exact ⟨origin, hobs, origin.label_fc hfc⟩
  · intro piece hp r parsed hevent
    exact logged_label hr hp hevent
  · intro k net net' hfc hnet hnet'
    rw [hclass hr k net hfc hnet, hclass hr' k net' (hdigests ▸ hfc) hnet', hdigests]
  · exact stored_class hfree
  · intro piece hp r parsed hevent
    obtain ⟨entry, hentry⟩ := (logged_known hr).written piece hp
    rw [hevent] at hentry
    have hnet : c.shared.store.networkOf ⟨r.host, r.port⟩ = some entry.network :=
      congrArg (Option.map _) hentry
    exact ⟨_, hnet, by rw [stored_class hfree _ _ hnet, logged_label hr hp hevent]⟩
  · intro hfree hfree' k net net' hnet hnet'
    rw [stored_class hfree k net hnet, stored_class hfree' k net' hnet', hdigests]

/-! ## A node in `fc00::/8`, heard of twice -/

/-- One worker for IPv4, IPv6 and CJDNS, and an address log. -/
def dualSettings : Settings :=
  { soloSettings with
    enabledNetworks := ⟨true, true, false, false, true⟩
    recordAddrResponses := true
    staffed := fun net => by cases net <;> decide }

def dual : Setup := ⟨.zero, dualSettings, .dns ["192.0.2.1"], 0⟩

/-- The octets of `fc00::1`. -/
def fcOctets : List Byte := 0xfc :: List.replicate 14 0 ++ [1]

def fcKey : AddrKey := ⟨"fc00::1", 8333⟩

/-- `fc00::1` in an `addr` message. -/
def fcLegacyPayload : List Byte := [1, 9, 0, 0, 0] ++ List.replicate 8 0 ++ fcOctets ++ [0x20, 0x8d]

def fcLegacy : ParsedAddrMessage := .single ⟨"fc00::1", 8333, .ipv6, 9, 0, 2⟩

/-- `fc00::1` in an `addrv2` message. -/
def fcPayload : List Byte := [1, 9, 0, 0, 0, 0, 6, 16] ++ fcOctets ++ [0x20, 0x8d]

def fcParsed : ParsedAddrMessage := .single ⟨"fc00::1", 8333, .cjdns, 9, 0, 6⟩

/-- The worker handles a message in `n` steps. -/
def hear (n : Nat) (command : AddrCommand) (parsed : ParsedAddrMessage) : List (Nat × Answer) :=
  List.replicate n (4, { collected := .message command parsed, order := parsed.addrs })

/-- The worker receives a message and logs it, and is done with it in `n` more steps. -/
def logged (n : Nat) (command : AddrCommand) (parsed : ParsedAddrMessage) : List (Nat × Answer) :=
  hear 5 command parsed ++ steps 3 1 ++ hear n command parsed

def someVersion : VersionData :=
  ⟨70016, 0, 0, "", 0, false, ⟨0, "0.0.0.0", 0⟩, none, none⟩

def shakes : Answer := { events := [.version (some someVersion), .verack] }

/-- A node is taken from the queue and asked for addresses. -/
def asks : List (Nat × Answer) := List.replicate 15 (4, shakes)

/-- Seeding, then the worker asks the seed. -/
def asked : List (Nat × Answer) := steps 0 7 ++ asks

/-- The worker ends a collection and is done with the node. -/
def collectionOver : List (Nat × Answer) := steps 4 5 ++ steps 3 1 ++ steps 4 5

/-- Two messages of the seed, then the first node they name is asked, and answers. -/
def heardTwice (first second : AddrCommand × ParsedAddrMessage) (n : Nat) : List (Nat × Answer) :=
  asked ++ logged 8 first.1 first.2 ++ logged n second.1 second.2 ++ collectionOver ++ asks ++
    logged 0 .addrv2 fcParsed

/-- The legacy message first. -/
def legacyFirst : List (Nat × Answer) := heardTwice (.addr, fcLegacy) (.addrv2, fcParsed) 5

/-- The same messages, the other way round. -/
def legacyLast : List (Nat × Answer) := heardTwice (.addrv2, fcParsed) (.addr, fcLegacy) 5

/-- The only `addrv2` message received is that of `fc00::1`, the only legacy one is `parsed`. -/
def hearsOnly (parsed : ParsedAddrMessage) (_ : Conf Shared Pc) (a : Nat × Answer) : Bool :=
  match a.2.collected with
  | .message .addr parsed' => parsed' = parsed
  | .message .addrv2 parsed' => parsed' = fcParsed
  | _ => true

theorem hearsOnly_fromWire {parsed : ParsedAddrMessage} {payload : List Byte}
    (hparse : parseAddr payload = .ok parsed) {c : Conf Shared Pc} {a : Nat × Answer}
    (h : hearsOnly parsed c a = true) : fromWire dual c a := by
  intro command parsed' hcol
  have hfc : parseAddrv2 .zero fcPayload = .ok fcParsed := by decide
  unfold hearsOnly at h
  rw [hcol] at h
  cases command with
  | addr => exact ⟨payload, by rw [of_decide_eq_true h]; exact hparse⟩
  | addrv2 => exact ⟨fcPayload, by rw [of_decide_eq_true h]; exact hfc⟩

/-- The networks of the lines of the responders, with their hosts. -/
def responders (c : Conf Shared Pc) : List (String × String) :=
  c.shared.log.written.filterMap fun p =>
    match p.event with
    | .block r _ => some (r.host, r.network)
    | _ => none

/-- Two runs with the same observations in another order label `fc00::1` differently, and in the
    first one its entry says IPv6 where its lines in the log say CJDNS. -/
theorem fc_label_depends_on_order : ∃ c c',
    exec (program dual) (hearsOnly fcLegacy) (start dual) legacyFirst = some c ∧
    exec (program dual) (hearsOnly fcLegacy) (start dual) legacyLast = some c' ∧
    Reach (program dual) (fromWire dual) (start dual) c ∧
    Reach (program dual) (fromWire dual) (start dual) c' ∧
    c.shared.store.networkOf fcKey = some .ipv6 ∧ c'.shared.store.networkOf fcKey = some .cjdns ∧
    (fcKey.host, "cjdns") ∈ responders c := by
  have hfirst : (exec (program dual) (hearsOnly fcLegacy) (start dual) legacyFirst).map (fun c =>
      (c.shared.store.networkOf fcKey, responders c)) = some (some .ipv6,
        [("192.0.2.1", "ipv4"), ("192.0.2.1", "ipv4"), ("fc00::1", "cjdns")]) := by
    decide +kernel
  have hlast : (exec (program dual) (hearsOnly fcLegacy) (start dual) legacyLast).map (fun c =>
      c.shared.store.networkOf fcKey) = some (some .cjdns) := by
    decide +kernel
  have hparse : parseAddr fcLegacyPayload = .ok fcLegacy := by decide
  obtain ⟨c, hc, heq⟩ := Option.map_eq_some_iff.mp hfirst
  obtain ⟨hnet, hlines⟩ := Prod.mk.inj heq
  obtain ⟨c', hc', hnet'⟩ := Option.map_eq_some_iff.mp hlast
  refine ⟨c, c', hc, hc', (exec_reach hc).mono fun _ _ h => hearsOnly_fromWire hparse h,
    (exec_reach hc').mono fun _ _ h => hearsOnly_fromWire hparse h, hnet, hnet', ?_⟩
  rw [hlines]
  decide

/-- `192.0.2.7` in an `addr` message and `fc00::1` in an `addrv2` message, in both orders: each has
    one label in both runs, and the lines of `fc00::1` say what its entry says. -/
theorem one_label_dual : ∃ c c',
    exec (program dual) (hearsOnly oneAddrMessage) (start dual)
      (heardTwice (.addrv2, fcParsed) (.addr, oneAddrMessage) 8) = some c ∧
    exec (program dual) (hearsOnly oneAddrMessage) (start dual)
      (heardTwice (.addr, oneAddrMessage) (.addrv2, fcParsed) 8) = some c' ∧
    OneLabel dual c ∧ SameLabel dual c ∧ (fcKey.host, "cjdns") ∈ responders c ∧
    c.shared.store.networkOf fcKey = some .cjdns ∧
    c.shared.store.networkOf fcKey = c'.shared.store.networkOf fcKey ∧
    c.shared.store.networkOf oneAddr.key = c'.shared.store.networkOf oneAddr.key := by
  have hfirst : (exec (program dual) (hearsOnly oneAddrMessage) (start dual)
      (heardTwice (.addrv2, fcParsed) (.addr, oneAddrMessage) 8)).map (fun c =>
        ((c.shared.store.networkOf fcKey).isSome, (c.shared.store.networkOf oneAddr.key).isSome,
          responders c)) = some (true, true,
        [("192.0.2.1", "ipv4"), ("192.0.2.1", "ipv4"), ("fc00::1", "cjdns")]) := by
    decide +kernel
  have hlast : (exec (program dual) (hearsOnly oneAddrMessage) (start dual)
      (heardTwice (.addr, oneAddrMessage) (.addrv2, fcParsed) 8)).map (fun c =>
        ((c.shared.store.networkOf fcKey).isSome, (c.shared.store.networkOf oneAddr.key).isSome)) =
      some (true, true) := by
    decide +kernel
  have hparse : parseAddr ([1] ++ legacyRecord [9, 0, 0, 0] 7) = .ok oneAddrMessage := by
    decide +kernel
  obtain ⟨c, hc, heq⟩ := Option.map_eq_some_iff.mp hfirst
  obtain ⟨hfc, heq⟩ := Prod.mk.inj heq
  obtain ⟨hseven, hlines⟩ := Prod.mk.inj heq
  obtain ⟨c', hc', heq'⟩ := Option.map_eq_some_iff.mp hlast
  obtain ⟨hfc', hseven'⟩ := Prod.mk.inj heq'
  obtain ⟨netf, hnetf⟩ := Option.isSome_iff_exists.mp hfc
  obtain ⟨netf', hnetf'⟩ := Option.isSome_iff_exists.mp hfc'
  obtain ⟨nets, hnets⟩ := Option.isSome_iff_exists.mp hseven
  obtain ⟨nets', hnets'⟩ := Option.isSome_iff_exists.mp hseven'
  -- the only legacy message names no address in `fc00::/8`
  have hfree : ∀ (c : Conf Shared Pc) (a : Nat × Answer), hearsOnly oneAddrMessage c a = true →
      fcFree dual c a := by
    intro c a h
    refine ⟨hearsOnly_fromWire hparse h, fun parsed hcol x hx => ?_⟩
    unfold hearsOnly at h
    rw [hcol] at h
    rw [of_decide_eq_true h] at hx
    obtain rfl : x = oneAddr := List.mem_singleton.mp hx
    decide
  have hr : Reach (program dual) (fcFree dual) (start dual) c := (exec_reach hc).mono hfree
  have hr' : Reach (program dual) (fcFree dual) (start dual) c' := (exec_reach hc').mono hfree
  obtain ⟨hlabel, -, hsame, hagree⟩ := one_label (hr.mono fun _ _ h => h.1)
    (hr'.mono fun _ _ h => h.1) rfl
  have hclass := (hsame hr).stored fcKey netf hnetf
  have hcjdns : netf = .cjdns := by
    rw [hclass]
    decide
  refine ⟨c, c', hc, hc', hlabel, hsame hr, ?_, hcjdns ▸ hnetf, ?_, ?_⟩
  · rw [hlines]
    decide
  · rw [hnetf, hnetf', hagree hr hr' fcKey netf netf' hnetf hnetf']
  · rw [hnets, hnets', hagree hr hr' oneAddr.key nets nets' hnets hnets']

end P2PCrawler
