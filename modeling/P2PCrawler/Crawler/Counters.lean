import P2PCrawler.Crawler.Calm
import P2PCrawler.Crawler.Labels
import P2PCrawler.Crawler.Stats

/-!
# The outcome of a collection and its counters

`getaddr` chooses the outcome by a counter of its own; the counters of the entry are written one
by one as the messages come in, and the outcome last.  `Replies` is the history of a run that
tells which messages of a node were parsed, and whether the record of a malformed one failed.

* `Fresh`, `Underway`, `Consistent` — the statistics of a node before, during and after its
  collection.
* `TaskPc.Tells` — what the position of a task says about the statistics of its node.
* `EntryTells` — what the state of an entry says about them.

## Results

* `outcome_counters` — **outcome and counters tell the same story** for every reachable node.
-/

set_option autoImplicit false

namespace P2PCrawler

open ThreadPool

/-! ## Counters -/

/-- The counters of the six networks and of what has none. -/
def NodeStats.advertisedSum (x : NodeStats) : Nat :=
  x.advertisedIpv4 + x.advertisedIpv6 + x.advertisedOnionV2 + x.advertisedOnionV3 +
    x.advertisedI2p + x.advertisedCjdns + x.advertisedUnknown

/-- The outcomes of a collection that got valid messages. -/
def CollectionOutcome.hasReplies : CollectionOutcome → Bool
  | .completeQuiet | .partialHardTimeout | .partialMalformedResponse | .partialRemoteDisconnect
  | .partialIncompleteEnvelopeTimeout => true
  | _ => false

/-- The outcomes of a collection that a malformed message has ended. -/
def CollectionOutcome.isMalformed : CollectionOutcome → Bool
  | .malformedResponse | .partialMalformedResponse => true
  | _ => false

/-- What the messages of a node declare together. -/
def declared (parsed : List ParsedAddrMessage) : Nat := (parsed.map (·.declaredCount)).sum

/-- The breakdown of the messages. -/
structure Tallied (x : NodeStats) (parsed : List ParsedAddrMessage) : Prop where
  total : x.advertisedTotal = x.advertisedSum
  declared : x.advertisedTotal = declared parsed

/-- Nothing was asked of the node. -/
structure Fresh (x : NodeStats) (parsed : List ParsedAddrMessage) (unlogged : Bool) : Prop where
  valid : x.validAddrMessages = 0
  malformed : x.malformedAddrMessages = 0
  total : x.advertisedTotal = 0
  sum : x.advertisedSum = 0
  parsed : parsed = []
  unlogged : unlogged = false

/-- The collection has `n` valid messages. -/
structure Underway (x : NodeStats) (n : Nat) (parsed : List ParsedAddrMessage) (unlogged : Bool) :
    Prop where
  valid : x.validAddrMessages = n
  malformed : x.malformedAddrMessages = 0
  tallied : Tallied x parsed
  unlogged : unlogged = false

/-- The collection has `n` valid messages and one that is malformed. -/
structure Spoilt (x : NodeStats) (n : Nat) (parsed : List ParsedAddrMessage) : Prop where
  valid : x.validAddrMessages = n
  malformed : x.malformedAddrMessages = 1
  tallied : Tallied x parsed

/-- The outcome and the counters tell the same story. -/
structure Consistent (x : NodeStats) (parsed : List ParsedAddrMessage) (unlogged : Bool) : Prop where
  valid : x.collectionOutcome ≠ .logFailed →
    (x.collectionOutcome.hasReplies = true ↔ 1 ≤ x.validAddrMessages)
  malformed : x.malformedAddrMessages =
    if x.collectionOutcome.isMalformed || (x.collectionOutcome = .logFailed && unlogged) then 1 else 0
  failed : x.collectionOutcome = .sendFailed →
    x.validAddrMessages = 0 ∧ x.malformedAddrMessages = 0 ∧ x.advertisedTotal = 0
  tallied : Tallied x parsed

theorem Fresh.tallied {x : NodeStats} {parsed : List ParsedAddrMessage} {unlogged : Bool}
    (h : Fresh x parsed unlogged) : Tallied x parsed where
  total := h.total.trans h.sum.symm
  declared := by rw [h.parsed]; exact h.total

theorem fresh_new : Fresh {} [] false := ⟨rfl, rfl, rfl, rfl, rfl, rfl⟩

theorem recordAdvertised_counters (x : NodeStats) (net : NetworkType) :
    (x.recordAdvertised net).advertisedTotal = x.advertisedTotal + 1 ∧
      (x.recordAdvertised net).advertisedSum = x.advertisedSum + 1 ∧
      (x.recordAdvertised net).validAddrMessages = x.validAddrMessages ∧
      (x.recordAdvertised net).malformedAddrMessages = x.malformedAddrMessages := by
  cases net <;> refine ⟨rfl, ?_, rfl, rfl⟩ <;>
    simp only [NodeStats.recordAdvertised, NodeStats.advertisedSum] <;> omega

/-- The breakdown of a message counts every address it declares. -/
theorem recordMessage_counters (parsed : ParsedAddrMessage) (x : NodeStats) :
    (recordMessage parsed x).advertisedTotal = x.advertisedTotal + parsed.declaredCount ∧
      (recordMessage parsed x).advertisedSum = x.advertisedSum + parsed.declaredCount ∧
      (recordMessage parsed x).validAddrMessages = x.validAddrMessages ∧
      (recordMessage parsed x).malformedAddrMessages = x.malformedAddrMessages := by
  have hfold : ∀ (addrs : List AdvertisedAddr) (x : NodeStats),
      (addrs.foldl (fun s a => s.recordAdvertised a.network) x).advertisedTotal =
          x.advertisedTotal + addrs.length ∧
        (addrs.foldl (fun s a => s.recordAdvertised a.network) x).advertisedSum =
          x.advertisedSum + addrs.length ∧
        (addrs.foldl (fun s a => s.recordAdvertised a.network) x).validAddrMessages =
          x.validAddrMessages ∧
        (addrs.foldl (fun s a => s.recordAdvertised a.network) x).malformedAddrMessages =
          x.malformedAddrMessages := by
    intro addrs
    induction addrs with
    | nil => exact fun x => ⟨rfl, rfl, rfl, rfl⟩
    | cons a addrs ih =>
      intro x
      obtain ⟨htotal, hsum, hvalid, hmalformed⟩ := recordAdvertised_counters x a.network
      obtain ⟨htotal', hsum', hvalid', hmalformed'⟩ := ih (x.recordAdvertised a.network)
      rw [List.foldl_cons, List.length_cons]
      exact ⟨by omega, by omega, hvalid'.trans hvalid, hmalformed'.trans hmalformed⟩
  obtain ⟨htotal, hsum, hvalid, hmalformed⟩ := hfold parsed.addrs x
  have hcount := parsed.counted
  refine ⟨?_, ?_, hvalid, hmalformed⟩
  · simp only [recordMessage, htotal]
    omega
  · simp only [recordMessage, NodeStats.advertisedSum] at hsum ⊢
    omega

theorem Tallied.message {x : NodeStats} {parsed : List ParsedAddrMessage} (h : Tallied x parsed)
    (p : ParsedAddrMessage) : Tallied (recordMessage p x) (parsed ++ [p]) := by
  obtain ⟨htotal, hsum, -, -⟩ := recordMessage_counters p x
  constructor
  · rw [htotal, hsum, h.total]
  · rw [htotal, h.declared, P2PCrawler.declared, P2PCrawler.declared, List.map_append, List.sum_append]
    rfl

/-! ## Exits -/

/-- A collection that ends by itself has replies exactly if there were valid messages. -/
theorem collect_ended {n : Nat} {event : CollectEvent} {outcome : CollectionOutcome}
    (h : collect n event = .ended outcome) : (outcome.hasReplies = true ↔ 1 ≤ n) ∧
      outcome.isMalformed = false ∧ outcome ≠ .sendFailed := by
  have hexit : ∀ {without replies : CollectionOutcome},
      Collected.ended (.orPartial n without replies) = .ended outcome →
      without.hasReplies = false → replies.hasReplies = true →
      without.isMalformed = false → replies.isMalformed = false →
      without ≠ .sendFailed → replies ≠ .sendFailed →
      (outcome.hasReplies = true ↔ 1 ≤ n) ∧ outcome.isMalformed = false ∧ outcome ≠ .sendFailed := by
    intro without replies heq hno hyes hmal hmal' hsend hsend'
    cases heq
    unfold CollectionOutcome.orPartial
    split
    · rename_i hn
      refine ⟨⟨fun hr => ?_, fun hle => by omega⟩, hmal, hsend⟩
      rw [hno] at hr
      cases hr
    · exact ⟨⟨fun _ => by omega, fun _ => hyes⟩, hmal', hsend'⟩
  cases event with
  | expired => exact hexit h rfl rfl rfl rfl nofun nofun
  | message | malformed | skip => cases h
  | ping failed =>
    cases failed with
    | none => cases h
    | some e => exact hexit h rfl rfl rfl rfl nofun nofun
  | quiet unfinished =>
    cases unfinished with
    | true => exact hexit h rfl rfl rfl rfl nofun nofun
    | false => exact hexit h rfl rfl rfl rfl nofun nofun
  | error e =>
    simp only [collect] at h
    split at h
    · exact hexit h rfl rfl rfl rfl nofun nofun
    · exact hexit h rfl rfl rfl rfl nofun nofun

section Exits
variable {x : NodeStats} {n : Nat} {parsed : List ParsedAddrMessage} {unlogged : Bool}

theorem Fresh.sendFailed (h : Fresh x parsed unlogged) :
    Consistent { x with collectionOutcome := .sendFailed } parsed unlogged where
  valid _ := ⟨nofun, fun hle => by rw [show _ = 0 from h.valid] at hle; cases hle⟩
  malformed := h.malformed
  failed _ := ⟨h.valid, h.malformed, h.total⟩
  tallied := ⟨h.tallied.total, h.tallied.declared⟩

theorem Underway.ended (h : Underway x n parsed unlogged) {event : CollectEvent}
    {outcome : CollectionOutcome} (hend : collect n event = .ended outcome) :
    Consistent { x with collectionOutcome := outcome } parsed unlogged := by
  obtain ⟨hreplies, hmal, hsend⟩ := collect_ended hend
  refine ⟨fun _ => hreplies.trans (by rw [show _ = n from h.valid]), ?_, fun hs => absurd hs hsend,
    ⟨h.tallied.total, h.tallied.declared⟩⟩
  simp only [hmal, h.unlogged, Bool.and_false, Bool.or_false]
  exact h.malformed

/-- A collection that a block could not be logged for. -/
theorem Underway.unrecorded (h : Underway x n parsed unlogged) :
    Consistent { x with collectionOutcome := .logFailed } parsed unlogged where
  valid hne := absurd rfl hne
  malformed := by
    simp only [CollectionOutcome.isMalformed, h.unlogged, Bool.and_false, Bool.or_false]
    exact h.malformed
  failed := nofun
  tallied := ⟨h.tallied.total, h.tallied.declared⟩

/-- A collection that a message completes. -/
theorem Underway.complete (h : Underway x n parsed unlogged) :
    Consistent { x with validAddrMessages := x.validAddrMessages + 1,
                        collectionOutcome := .completeQuiet } parsed unlogged where
  valid _ := ⟨fun _ => Nat.le_add_left 1 _, fun _ => rfl⟩
  malformed := by
    simp only [CollectionOutcome.isMalformed]
    exact h.malformed
  failed := nofun
  tallied := ⟨h.tallied.total, h.tallied.declared⟩

/-- A collection that a malformed message ends. -/
theorem Spoilt.ended {c : Session} (h : Spoilt x c.valid parsed) :
    Consistent { x with collectionOutcome := malformedOutcome c } parsed false := by
  unfold malformedOutcome CollectionOutcome.orPartial
  split
  · rename_i hzero
    exact ⟨fun _ => ⟨nofun, fun hle => by rw [show _ = _ from h.valid, hzero] at hle; cases hle⟩,
      h.malformed, nofun, ⟨h.tallied.total, h.tallied.declared⟩⟩
  · rename_i hpos
    exact ⟨fun _ => ⟨fun _ => by rw [show _ = _ from h.valid]; omega, fun _ => rfl⟩,
      h.malformed, nofun, ⟨h.tallied.total, h.tallied.declared⟩⟩

theorem Spoilt.unrecorded (h : Spoilt x n parsed) :
    Consistent { x with collectionOutcome := .logFailed } parsed true :=
  ⟨fun hne => absurd rfl hne, h.malformed, nofun, ⟨h.tallied.total, h.tallied.declared⟩⟩

end Exits

/-! ## The history of the replies -/

structure Replies where
  /-- by node: the messages that were parsed -/
  parsed : AddrKey → List ParsedAddrMessage := fun _ => []
  /-- by node: a malformed message could not be logged -/
  unlogged : AddrKey → Bool := fun _ => false

def TaskPc.parses : TaskPc → TaskPc → List ParsedAddrMessage
  | .collecting _, .messageGuard _ _ parsed => [parsed]
  | _, _ => []

/-- The move of a task in which the record of a malformed message fails. -/
def TaskPc.unlogs : TaskPc → TaskPc → Bool
  | .malformedLog .., .malformedMark _ => true
  | _, _ => false

def Replies.move (g : Replies) : Pc → Pc → Replies
  | .worker _ (.task k p), .worker _ (.task _ p') =>
    { parsed := Function.update g.parsed k (g.parsed k ++ p.parses p')
      unlogged := Function.update g.unlogged k (g.unlogged k || p.unlogs p') }
  | _, _ => g

def Replies.record (g : Replies) (c : Conf Shared Pc) (a : Nat × Answer) (c' : Conf Shared Pc) :
    Replies :=
  match c.threads[a.1]?, c'.threads[a.1]? with
  | some pc, some pc' => g.move pc pc'
  | _, _ => g

/-! ## What a position tells -/

/-- What a task knows of the statistics of its node, in a crawl that is not a probe. -/
def TaskPc.Tells (x : NodeStats) (parsed : List ParsedAddrMessage) (unlogged : Bool) : TaskPc → Prop
  | .getaddr c => Fresh x parsed unlogged ∧ c.valid = 0
  | .collecting c | .malformedGuard c _ | .malformedCount c _ | .blockLog c _ _ _ | .blockFailed c
  | .blockMark c | .shuffling c _ _ | .upserting c _ _ _ | .enqueueing c _ _ _ _ _
  | .messageDone c _ => Underway x c.valid parsed unlogged
  | .messageGuard c _ message | .breakdown c _ message =>
    ∃ before, parsed = before ++ [message] ∧ Underway x c.valid before unlogged
  | .malformedLog c _ => Spoilt x c.valid parsed ∧ unlogged = false
  | .malformedMark c => Spoilt x c.valid parsed ∧ unlogged = true
  | .malformedRelease c outcome => Spoilt x c.valid parsed ∧
    (outcome = malformedOutcome c ∧ unlogged = false ∨ outcome = .logFailed ∧ unlogged = true)
  | .outcomeGuard _ outcome | .outcomeWrite _ outcome =>
    Consistent { x with collectionOutcome := outcome } parsed unlogged
  | .outcomeLog .. | .outcomeMark _ | .outcomeRelease _ | .completing _ =>
    Consistent x parsed unlogged
  | .requeueing terminal _ | .resending terminal _ =>
    Fresh x parsed unlogged ∧ terminal ≠ .reachable
  | .abandoning (.write terminal _) => terminal ≠ .reachable
  | .finishing (.write terminal _) => terminal = .reachable → Consistent x parsed unlogged
  | .abandoning _ | .finishing _ => True
  | _ => Fresh x parsed unlogged

theorem retryOrFinish_tells {x : NodeStats} {parsed : List ParsedAddrMessage} {unlogged : Bool}
    (h : Fresh x parsed unlogged) {terminal : Terminal} (hterm : terminal ≠ .reachable)
    (retry : Bool) (kind : FailKind) : (retryOrFinish retry terminal kind).Tells x parsed unlogged := by
  cases retry with
  | true => exact ⟨h, hterm⟩
  | false => exact fun hr => absurd hr hterm

theorem connectTerminal_ne (ever : Bool) : connectTerminal ever ≠ .reachable := by
  cases ever <;> decide

theorem Fresh.congr {x y : NodeStats} {parsed : List ParsedAddrMessage} {unlogged : Bool}
    (h : Fresh x parsed unlogged) (hvalid : y.validAddrMessages = x.validAddrMessages)
    (hmal : y.malformedAddrMessages = x.malformedAddrMessages)
    (htotal : y.advertisedTotal = x.advertisedTotal) (hsum : y.advertisedSum = x.advertisedSum) :
    Fresh y parsed unlogged where
  valid := hvalid.trans h.valid
  malformed := hmal.trans h.malformed
  total := htotal.trans h.total
  sum := hsum.trans h.sum
  parsed := h.parsed
  unlogged := h.unlogged

section Parts
variable {S : Setup} {sh sh' : Shared} {t : Transport} {k : AddrKey} {a : Answer} {p p' : TaskPc}
  {x y : NodeStats} {parsed : List ParsedAddrMessage} {unlogged : Bool}

/-- A step that parses nothing, and in which no record fails. -/
theorem Tells.same (hparses : p.parses p' = []) (hunlogs : p.unlogs p' = false)
    (h : p'.Tells y parsed unlogged) :
    p'.Tells y (parsed ++ p.parses p') (unlogged || p.unlogs p') := by
  rwa [hparses, hunlogs, List.append_nil, Bool.or_false]

/-- Until the handshake nothing is asked of the node. -/
theorem connect_tells (hpart : p.part = .connect) (h : taskStep S sh t k a p = some (sh', some p'))
    (hp : p.Tells x parsed unlogged) :
    p'.Tells (p.counts x) (parsed ++ p.parses p') (unlogged || p.unlogs p') := by
  cases p with
  | count | connected =>
    cases h
    exact Tells.same rfl rfl (Fresh.congr hp rfl rfl rfl rfl)
  | begin | connectFailed | connectedAttempt =>
    cases h
    exact Tells.same rfl rfl hp
  | connecting =>
    simp only [taskStep] at h
    split at h <;> cases h <;> exact Tells.same rfl rfl hp
  | everConnected n kind =>
    cases h
    exact Tells.same rfl rfl (retryOrFinish_tells hp (connectTerminal_ne _) _ kind)
  | _ => cases hpart

/-- The handshake asks for nothing either. -/
theorem handshake_tells (hpart : p.part = .handshake)
    (h : taskStep S sh t k a p = some (sh', some p')) (hprobe : S.settings.probeMode = false)
    (hp : p.Tells x parsed unlogged) :
    p'.Tells (p.counts x) (parsed ++ p.parses p') (unlogged || p.unlogs p') := by
  cases p with
  | firstVersion =>
    cases h
    exact Tells.same rfl rfl (Fresh.congr hp rfl rfl rfl rfl)
  | versionSent =>
    cases h
    exact Tells.same rfl rfl hp
  | sendVersion | handshaking =>
    simp only [taskStep] at h
    split at h <;> cases h <;> exact Tells.same rfl rfl hp
  | handshakeTimeout n =>
    cases h
    exact Tells.same rfl rfl (retryOrFinish_tells hp (by decide) _ .handshakeTimeout)
  | handshakeFailed n kind =>
    cases h
    exact Tells.same rfl rfl (retryOrFinish_tells hp (by decide) _ kind)
  | handshaken hd sentTs =>
    simp only [taskStep, hprobe, Option.some.injEq, Prod.mk.injEq] at h
    obtain ⟨-, rfl⟩ := h
    exact Tells.same rfl rfl ⟨hp, rfl⟩
  | _ => cases hpart

/-- The counters follow the messages, and the outcome comes last. -/
theorem collect_tells (hpart : p.part = .collect) (h : taskStep S sh t k a p = some (sh', some p'))
    (hp : p.Tells x parsed unlogged) :
    p'.Tells (p.counts x) (parsed ++ p.parses p') (unlogged || p.unlogs p') := by
  cases p with
  | getaddr c =>
    obtain ⟨hnone, hzero⟩ := hp
    by_cases hsend : a.send.isSome <;>
      simp only [taskStep, hsend, Option.some.injEq, Prod.mk.injEq] at h <;> obtain ⟨-, rfl⟩ := h
    · exact Tells.same rfl rfl hnone.sendFailed
    · exact Tells.same rfl rfl ⟨hnone.valid.trans hzero.symm, hnone.malformed, hnone.tallied,
        hnone.unlogged⟩
  | collecting c =>
    simp only [taskStep] at h
    split at h
    · cases h; exact Tells.same rfl rfl hp
    · rename_i outcome hend
      cases h
      exact Tells.same rfl rfl (hp.ended hend)
    · cases h
      refine ⟨parsed, rfl, ?_⟩
      rw [show TaskPc.unlogs _ _ = false from rfl, Bool.or_false]
      exact hp
    · cases h; exact Tells.same rfl rfl hp
  | malformedGuard | messageGuard | shuffling | outcomeGuard =>
    simp only [taskStep] at h
    split at h <;> cases h
    exact Tells.same rfl rfl hp
  | malformedCount c event =>
    have hspoilt : Spoilt (TaskPc.counts (.malformedCount c event) x) c.valid parsed :=
      ⟨hp.valid, congrArg (· + 1) hp.malformed, ⟨hp.tallied.total, hp.tallied.declared⟩⟩
    by_cases hlog : S.logging <;>
      simp only [taskStep, hlog, Option.some.injEq, Prod.mk.injEq] at h <;> obtain ⟨-, rfl⟩ := h
    · exact Tells.same rfl rfl ⟨hspoilt, hp.unlogged⟩
    · exact Tells.same rfl rfl ⟨hspoilt, .inl ⟨rfl, hp.unlogged⟩⟩
  | breakdown c command message =>
    obtain ⟨before, rfl, hu⟩ := hp
    obtain ⟨-, -, hvalid, hmal⟩ := recordMessage_counters message x
    have hnext : Underway (recordMessage message x) c.valid (before ++ [message]) unlogged :=
      ⟨hvalid.trans hu.valid, hmal.trans hu.malformed, hu.tallied.message message, hu.unlogged⟩
    by_cases hlog : S.logging <;>
      simp only [taskStep, hlog, Option.some.injEq, Prod.mk.injEq] at h <;> obtain ⟨-, rfl⟩ := h
    · exact Tells.same rfl rfl hnext
    · exact Tells.same rfl rfl hnext
  | upserting c count now rest =>
    cases rest with
    | nil => cases h; exact Tells.same rfl rfl hp
    | cons addr rest =>
      simp only [taskStep, Option.some.injEq, Prod.mk.injEq] at h
      obtain ⟨-, rfl⟩ := h
      refine Tells.same rfl rfl ?_
      unfold upsertNext
      split <;> exact hp
  | enqueueing c count now rest key e =>
    simp only [taskStep, Option.some.injEq, Prod.mk.injEq] at h
    obtain ⟨-, rfl⟩ := h
    refine Tells.same rfl rfl ?_
    cases (enqueueStep S.digests sh key e).2 <;> exact hp
  | messageDone c count =>
    by_cases hquiet : isGetaddrReplyComplete count <;>
      simp only [taskStep, hquiet, Option.some.injEq, Prod.mk.injEq] at h <;> obtain ⟨-, rfl⟩ := h
    · exact Tells.same rfl rfl hp.complete
    · exact Tells.same rfl rfl ⟨congrArg (· + 1) hp.valid, hp.malformed,
        ⟨hp.tallied.total, hp.tallied.declared⟩, hp.unlogged⟩
  | outcomeWrite c outcome =>
    by_cases hlog : S.logging <;>
      simp only [taskStep, hlog, Option.some.injEq, Prod.mk.injEq] at h <;> obtain ⟨-, rfl⟩ := h
    · exact Tells.same rfl rfl hp
    · exact Tells.same rfl rfl hp
  | _ => cases hpart

/-- A record that fails is told by the outcome. -/
theorem log_tells (hpart : p.part = .log) (h : taskStep S sh t k a p = some (sh', some p'))
    (hp : p.Tells x parsed unlogged) :
    p'.Tells (p.counts x) (parsed ++ p.parses p') (unlogged || p.unlogs p') := by
  cases p with
  | malformedLog c call =>
    obtain ⟨hspoilt, hlogged⟩ := hp
    obtain ⟨-, ⟨_, heq⟩ | ⟨res, heq⟩⟩ := logStep_effect h
    · cases heq; exact Tells.same rfl rfl ⟨hspoilt, hlogged⟩
    · cases res with
      | some id => cases heq; exact Tells.same rfl rfl ⟨hspoilt, .inl ⟨rfl, hlogged⟩⟩
      | none =>
        cases heq
        rw [show TaskPc.parses _ _ = [] from rfl, List.append_nil]
        exact ⟨hspoilt, Bool.or_true _⟩
  | malformedMark c => cases h; exact Tells.same rfl rfl ⟨hp.1, .inr ⟨rfl, hp.2⟩⟩
  | malformedRelease c outcome =>
    cases h
    obtain ⟨hspoilt, ⟨rfl, hlogged⟩ | ⟨rfl, hunlogged⟩⟩ := hp
    · refine Tells.same rfl rfl ?_
      rw [hlogged]
      exact hspoilt.ended
    · refine Tells.same rfl rfl ?_
      rw [hunlogged]
      exact hspoilt.unrecorded
  | blockLog | outcomeLog =>
    obtain ⟨-, ⟨_, heq⟩ | ⟨res, heq⟩⟩ := logStep_effect h
    · cases heq; exact Tells.same rfl rfl hp
    · cases res <;> cases heq <;> exact Tells.same rfl rfl hp
  | blockMark c => cases h; exact Tells.same rfl rfl hp.unrecorded
  | blockFailed | outcomeMark | outcomeRelease => cases h; exact Tells.same rfl rfl hp
  | _ => cases hpart

/-- Only a node whose outcome is written becomes reachable. -/
theorem finish_tells (hpart : p.part = .finish) (h : taskStep S sh t k a p = some (sh', some p'))
    (hp : p.Tells x parsed unlogged) :
    p'.Tells (p.counts x) (parsed ++ p.parses p') (unlogged || p.unlogs p') := by
  cases p with
  | completing sentTs => cases h; exact Tells.same rfl rfl fun _ => hp
  | requeueing terminal kind => cases h; exact Tells.same rfl rfl hp
  | resending terminal kind =>
    simp only [taskStep] at h
    split at h <;> cases h
    exact Tells.same rfl rfl hp.2
  | abandoning f | finishing f =>
    cases hnext : (finishStep sh k f).2 with
    | none => simp only [taskStep, hnext] at h; cases h
    | some f' =>
      simp only [taskStep, hnext] at h
      cases h
      refine Tells.same rfl rfl ?_
      rcases finishStep_next hnext with rfl | rfl <;> trivial
  | _ => cases hpart

/-- A step of `process` establishes what the next position tells. -/
theorem taskStep_tells (h : taskStep S sh t k a p = some (sh', some p'))
    (hprobe : S.settings.probeMode = false) (hp : p.Tells x parsed unlogged) :
    p'.Tells (p.counts x) (parsed ++ p.parses p') (unlogged || p.unlogs p') := by
  cases hpart : p.part with
  | connect => exact connect_tells hpart h hp
  | handshake => exact handshake_tells hpart h hprobe hp
  | collect => exact collect_tells hpart h hp
  | log => exact log_tells hpart h hp
  | finish => exact finish_tells hpart h hp

end Parts

/-! ## What an entry tells -/

/-- What the state of an entry says about its statistics. -/
def EntryTells (parsed : List ParsedAddrMessage) (unlogged : Bool) : Option EntryView → Prop
  | none => parsed = [] ∧ unlogged = false
  | some (st, x) =>
    ((st = .queued ∨ st = .staleDiscarded) → Fresh x parsed unlogged) ∧
      (st = .reachable → Consistent x parsed unlogged)

/-- The worker loop makes no node reachable. -/
def FinishPc.fails : FinishPc → Prop
  | .write terminal _ => terminal ≠ .reachable
  | _ => True

def Pc.Tells (s : NodeStore) (g : Replies) : Pc → Prop
  | .worker _ (.task k p) => ∀ x, s.statsOf k = some x → p.Tells x (g.parsed k) (g.unlogged k)
  | .worker _ (.discarding _ f) | .worker _ (.crashedFinish _ f) => f.fails
  | _ => True

/-- Every task and every entry tells what it should. -/
structure Telling (c : Conf Shared Pc) (g : Replies) : Prop where
  entries : ∀ k, EntryTells (g.parsed k) (g.unlogged k) (c.shared.store.viewOf k)
  tasks : ∀ pc ∈ c.threads, pc.Tells c.shared.store g

theorem start_telling (S : Setup) : Telling (start S) {} where
  entries k := ⟨rfl, rfl⟩
  tasks pc hpc := by
    rcases mem_start hpc with rfl | rfl | rfl | rfl | ⟨t, rfl, -⟩ <;> trivial

/-- A task writes only to its keys. -/
theorem Pc.rewrites_of_not_mem {pc : Pc} {k : AddrKey} (hk : k ∉ pc.keys) (v : EntryView) :
    pc.rewrites k v = v := by
  have hskip : ∀ (key : AddrKey) (w : EntryView), key ∈ pc.keys →
      (if key = k then w else v) = v := by
    intro key w hkey
    refine if_neg ?_
    rintro rfl
    exact hk hkey
  cases pc with
  | main p =>
    cases p with
    | seedEnqueue rest key e =>
      exact hskip key _ (List.mem_singleton.mpr rfl)
    | _ => rfl
  | worker t p =>
    cases p with
    | task key p =>
      cases p with
      | enqueueing c count now rest a e =>
        exact hskip a _ (List.mem_cons_self ..)
      | _ => exact hskip key _ (List.mem_singleton.mpr rfl)
    | starting key | discarding key f | crashedFinish key f =>
      exact hskip key _ (List.mem_singleton.mpr rfl)
    | _ => rfl
  | _ => rfl

/-- The history of a node changes with its task. -/
theorem Replies.move_other (g : Replies) {pc : Pc} (pc' : Pc) {k : AddrKey}
    (hk : ∀ t p, pc ≠ .worker t (.task k p)) :
    (g.move pc pc').parsed k = g.parsed k ∧ (g.move pc pc').unlogged k = g.unlogged k := by
  unfold move
  split
  · rename_i t key p t' key' p'
    have hne : k ≠ key := by
      rintro rfl
      exact hk t p rfl
    exact ⟨Function.update_of_ne hne .., Function.update_of_ne hne ..⟩
  · exact ⟨rfl, rfl⟩

section Step
variable {S : Setup} {c : Conf Shared Pc} {g : Replies} {a : Nat × Answer} {pc pc' : Pc}
  {sh' : Shared} {k : AddrKey}

/-- A known key has statistics. -/
theorem NodeStore.Seen.view {s : NodeStore} (h : s.Seen k) : ∃ v, s.viewOf k = some v := by
  obtain ⟨st, hst, -⟩ := h
  rw [NodeStore.stateOf_eq_view] at hst
  obtain ⟨v, hv, -⟩ := Option.map_eq_some_iff.mp hst
  exact ⟨v, hv⟩

/-- What `finish` makes of an entry that no queue has, if it does not make it reachable. -/
theorem EntryTells.finish {parsed : List ParsedAddrMessage} {unlogged : Bool} {v : EntryView}
    (h : EntryTells parsed unlogged (some v)) (f : FinishPc)
    (hf : ∀ reason, f = .write .reachable reason → Consistent v.2 parsed unlogged) :
    EntryTells parsed unlogged (some (f.rewrites v)) := by
  cases f with
  | write terminal reason =>
    simp only [FinishPc.rewrites]
    split
    · refine ⟨fun hst => ?_, fun hst => ?_⟩
      · obtain ⟨hinactive, hstale⟩ := terminal.property
        rcases hst with hst | hst
        · rw [hst] at hinactive
          cases hinactive
        · exact absurd hst hstale
      · have hterm : terminal = .reachable := Subtype.ext hst
        exact hf reason (by rw [hterm])
    · exact h
  | _ => exact h

/-- An entry that is being processed tells nothing. -/
theorem entryTells_processing (parsed : List ParsedAddrMessage) (unlogged : Bool) (x : NodeStats) :
    EntryTells parsed unlogged (some (.processing, x)) := by
  refine ⟨fun hst => ?_, nofun⟩
  rcases hst with hst | hst <;> cases hst

/-- What a task leaves of the entry of its node. -/
theorem task_entry {p : TaskPc} {v : EntryView} {parsed parsed' : List ParsedAddrMessage}
    {unlogged unlogged' : Bool} (hown : Owns c.shared (p.held k))
    (hview : c.shared.store.viewOf k = some v) (hentry : EntryTells parsed unlogged (some v))
    (hp : p.Tells v.2 parsed unlogged)
    (hkept : (∀ c, p ≠ .collecting c) → (∀ c call, p ≠ .malformedLog c call) →
      parsed' = parsed ∧ unlogged' = unlogged) :
    EntryTells parsed' unlogged' (some (p.rewrites v)) := by
  have hproc : (k, .processing) ∈ (p.held k).owned → p.rewrites v = (v.1, p.counts v.2) →
      EntryTells parsed' unlogged' (some (p.rewrites v)) := by
    intro hmem heq
    have hst := hown _ hmem
    rw [NodeStore.stateOf_eq_view, hview, Option.map_some] at hst
    rw [heq, Option.some.inj hst]
    exact entryTells_processing ..
  cases p with
  | requeueing terminal kind =>
    obtain ⟨rfl, rfl⟩ := hkept (fun _ => nofun) (fun _ _ => nofun)
    exact ⟨fun _ => hp.1, nofun⟩
  | resending terminal kind =>
    obtain ⟨rfl, rfl⟩ := hkept (fun _ => nofun) (fun _ _ => nofun)
    exact hentry
  | finishing f =>
    obtain ⟨rfl, rfl⟩ := hkept (fun _ => nofun) (fun _ _ => nofun)
    exact hentry.finish f fun reason hf => by subst hf; exact hp rfl
  | abandoning f =>
    obtain ⟨rfl, rfl⟩ := hkept (fun _ => nofun) (fun _ _ => nofun)
    exact hentry.finish f fun reason hf => by subst hf; exact absurd rfl hp
  | enqueueing c count now rest key e =>
    exact hproc (List.mem_append_right _ (List.mem_singleton.mpr rfl)) rfl
  | _ => exact hproc (List.mem_singleton.mpr rfl) rfl

/-- A new entry, or one that is queued again, tells that nothing was asked of the node. -/
theorem EntryTells.appears {parsed : List ParsedAddrMessage} {unlogged : Bool}
    {v v' : Option EntryView} (h : EntryTells parsed unlogged v) (happ : Appears v v') :
    EntryTells parsed unlogged v' := by
  cases happ with
  | new hst =>
    obtain ⟨rfl, rfl⟩ := h
    refine ⟨fun _ => fresh_new, fun hr => ?_⟩
    rcases hst with rfl | rfl <;> cases hr
  | revived x => exact ⟨fun _ => h.1 (.inr rfl), nofun⟩

theorem EntryTells.enqueue {parsed : List ParsedAddrMessage} {unlogged : Bool} {v : EntryView}
    (h : EntryTells parsed unlogged (some v)) (e : EnqueuePc) :
    EntryTells parsed unlogged (some (e.rewrites v)) := by
  cases e with
  | discard =>
    refine ⟨fun hst => ?_, nofun⟩
    rcases hst with hst | hst <;> cases hst
  | _ => exact h

/-- A worker that panics leaves the history. -/
theorem Replies.move_panic {t : Transport} {p : WorkerPc} {a : Answer} {sh sh' : Shared}
    (h : program S sh (.worker t p) a = some (sh', pc')) (hpanic : a.panic = true) (g : Replies) :
    g.move (.worker t p) pc' = g := by
  rcases program_cases h with ⟨_, _, heq, -⟩ | ⟨_, _, heq, -⟩ | ⟨_, _, heq, -⟩ | ⟨_, heq, -⟩ |
    ⟨t', q, p', heq, rfl, hs⟩ <;> cases heq
  rcases workerStep_cases hs with ⟨key, q, rfl, -, -, rfl⟩ | ⟨key, q, next, rfl, hcalm, -⟩ |
    ⟨-, -, -, -, -, rfl⟩ | ⟨-, -, hcalm, -⟩
  · rfl
  · rw [hpanic] at hcalm
    cases hcalm
  · cases p <;> rfl
  · rw [hpanic] at hcalm
    cases hcalm

/-- The entries of others tell what they told. -/
theorem entry_other (h : Telling c g) (hp : program S c.shared pc a.2 = some (sh', pc'))
    (hk : k ∉ pc.keys) :
    EntryTells ((g.move pc pc').parsed k) ((g.move pc pc').unlogged k) (sh'.store.viewOf k) := by
  have hmine : ∀ t p, pc ≠ .worker t (.task k p) := by
    rintro t p rfl
    cases p with
    | enqueueing c count now rest a e => exact hk (List.mem_cons_of_mem _ (List.mem_singleton.mpr rfl))
    | _ => exact hk (List.mem_singleton.mpr rfl)
  obtain ⟨hparsed, hunlogged⟩ := g.move_other pc' hmine
  rw [hparsed, hunlogged]
  rcases program_view hp k with heq | ⟨happ, -⟩
  · have hid : (fun v => if pc.mayPanic && a.2.panic then v else pc.rewrites k v) = id := by
      funext v
      rw [Pc.rewrites_of_not_mem hk, ite_self, id]
    rw [heq, hid, Option.map_id, id]
    exact h.entries k
  · exact (h.entries k).appears happ

/-- Most moves of a task leave the history. -/
theorem Replies.move_quiet (g : Replies) {t : Transport} {key : AddrKey} {p : TaskPc} (pc' : Pc)
    (hcollect : ∀ c, p ≠ .collecting c) (hlog : ∀ c call, p ≠ .malformedLog c call) :
    g.move (.worker t (.task key p)) pc' = g := by
  have hparses : ∀ p', p.parses p' = [] := by
    intro p'
    cases p with
    | collecting c => exact absurd rfl (hcollect c)
    | _ => rfl
  have hunlogs : ∀ p', p.unlogs p' = false := by
    intro p'
    cases p with
    | malformedLog c call => exact absurd rfl (hlog c call)
    | _ => rfl
  cases pc' with
  | worker t' p' =>
    cases p' with
    | task k' q =>
      show Replies.mk (Function.update g.parsed key (g.parsed key ++ p.parses q))
        (Function.update g.unlogged key (g.unlogged key || p.unlogs q)) = g
      rw [hparses, hunlogs, List.append_nil, Bool.or_false, Function.update_eq_self,
        Function.update_eq_self]
    | _ => rfl
  | _ => rfl

/-- The entry of a key in hand tells what it should after a step without a panic. -/
theorem entry_calm (h : Telling c g) (hg : Grasped c) (hh : HeldOnce c)
    (hpc : pc ∈ c.threads) {v : EntryView} (hview : c.shared.store.viewOf k = some v)
    (hk : k ∈ pc.keys) :
    EntryTells ((g.move pc pc').parsed k) ((g.move pc pc').unlogged k) (some (pc.rewrites k v)) := by
  have hentry : EntryTells (g.parsed k) (g.unlogged k) (some v) := hview ▸ h.entries k
  have htells := h.tasks pc hpc
  have hstats : c.shared.store.statsOf k = some v.2 := by
    rw [NodeStore.statsOf_eq_view, hview]
    rfl
  cases pc with
  | main p =>
    cases p with
    | seedEnqueue rest key e =>
      rw [List.mem_singleton.mp hk]
      rw [List.mem_singleton.mp hk] at hentry
      show EntryTells _ _ (some (if key = key then e.rewrites v else v))
      rw [if_pos rfl]
      exact hentry.enqueue e
    | _ => cases hk
  | worker t p =>
    cases p with
    | task key p =>
      have hown : Owns c.shared (p.held key) := hg.owns _ hpc rfl
      by_cases hkey : k = key
      · subst hkey
        have hentry' : EntryTells ((g.move (.worker t (.task k p)) pc').parsed k)
            ((g.move (.worker t (.task k p)) pc').unlogged k) (some (p.rewrites v)) :=
          task_entry hown hview hentry (htells v.2 hstats) fun hcollect hlog => by
            rw [g.move_quiet pc' hcollect hlog]
            exact ⟨rfl, rfl⟩
        have hsame : (Pc.worker t (.task k p)).rewrites k v = p.rewrites v := by
          cases p with
          | enqueueing c₀ count now rest a e =>
            have hne : a ≠ k := fun heq => by
              have hnodup : [a, k].Nodup := hh.nodup hpc
              exact (List.nodup_cons.mp hnodup).1 (List.mem_singleton.mpr heq)
            exact if_neg hne
          | _ => exact if_pos rfl
        rw [hsame]
        exact hentry'
      · cases p with
        | enqueueing c₀ count now rest a e =>
          have ha : k = a := (List.mem_cons.mp hk).resolve_right fun hmem =>
            hkey (List.mem_singleton.mp hmem)
          subst ha
          rw [g.move_quiet pc' (fun _ heq => by cases heq) fun _ _ heq => by cases heq]
          show EntryTells _ _ (some (if k = k then e.rewrites v else v))
          rw [if_pos rfl]
          exact hentry.enqueue e
        | _ => exact absurd (List.mem_singleton.mp hk) hkey
    | starting key =>
      rw [List.mem_singleton.mp hk]
      show EntryTells _ _ (some (if key = key then (.processing, v.2) else v))
      rw [if_pos rfl]
      exact entryTells_processing ..
    | discarding key f | crashedFinish key f =>
      rw [List.mem_singleton.mp hk]
      rw [List.mem_singleton.mp hk] at hentry
      show EntryTells _ _ (some (if key = key then f.rewrites v else v))
      rw [if_pos rfl]
      exact hentry.finish f fun reason hf => by subst hf; exact absurd rfl htells
    | reserving | limitHit | crashed | crashedShutdown => exact hentry
    | _ => cases hk
  | _ => cases hk

/-- The moved thread tells what it should. -/
theorem moved_tells (h : Telling c g) (hg : Grasped c) (hh : HeldOnce c)
    (hprobe : S.settings.probeMode = false) (hpc : pc ∈ c.threads)
    (hp : program S c.shared pc a.2 = some (sh', pc')) : pc'.Tells sh'.store (g.move pc pc') := by
  have htells := h.tasks pc hpc
  have hstats := program_stats hp
  rcases program_cases hp with ⟨p, p', rfl, rfl, hs⟩ | ⟨p, p', rfl, rfl, hs⟩ | ⟨p, p', rfl, rfl, hs⟩ |
    ⟨L, rfl, rfl, hs, rfl⟩ | ⟨t, p, p', rfl, rfl, hs⟩
  iterate 4 trivial
  -- the statistics of a key in hand
  have hknown : ∀ {key : AddrKey}, key ∈ p.keys → ∀ {y : NodeStats}, sh'.store.statsOf key = some y →
      ∃ x, c.shared.store.statsOf key = some x ∧
        y = if a.2.panic then x else (Pc.worker t p).counts key x := by
    intro key hkey y hy
    obtain ⟨v, hv⟩ := (hh.seen_of_mem hpc hkey).view
    rcases hstats key with heq | ⟨hnone, -⟩
    · rw [hy, NodeStore.statsOf_eq_view, hv, Option.map_some, Option.map_some] at heq
      exact ⟨v.2, by rw [NodeStore.statsOf_eq_view, hv]; rfl, Option.some.inj heq⟩
    · rw [NodeStore.statsOf_eq_view, hv] at hnone
      cases hnone
  rcases workerStep_cases hs with ⟨key, q, rfl, -, rfl, rfl⟩ | ⟨key, q, next, rfl, hcalm, hstep, rfl⟩ |
    ⟨-, -, -, -, rfl, rfl⟩ | ⟨-, -, hcalm, hstep⟩
  · trivial
  · cases next with
    | none => trivial
    | some q' =>
      intro y hy
      have hkey : key ∈ q.keys key := by
        cases q with
        | enqueueing => exact List.mem_cons_of_mem _ (List.mem_singleton.mpr rfl)
        | _ => exact List.mem_singleton.mpr rfl
      obtain ⟨x, hx, hy⟩ := hknown hkey hy
      have hcounts : y = q.counts x := by
        rw [hy, hcalm]
        exact if_pos rfl
      rw [hcounts]
      show q'.Tells (q.counts x) (Function.update g.parsed key (g.parsed key ++ q.parses q') key)
        (Function.update g.unlogged key (g.unlogged key || q.unlogs q') key)
      rw [Function.update_self, Function.update_self]
      exact taskStep_tells hstep hprobe (htells x hx)
  · trivial
  · cases loopStep_cases hstep with
    | @start key =>
      intro y hy
      have hkey : key ∈ (Pc.worker t (.starting key)).keys := List.mem_singleton.mpr rfl
      obtain ⟨x, hx, hy⟩ := hknown hkey hy
      have hsame : y = x := by
        rw [hy, hcalm]
        rfl
      have hqueued : c.shared.store.stateOf key = some .queued :=
        hg.owns _ hpc rfl (key, .queued) (List.mem_singleton.mpr rfl)
      obtain ⟨v, hv⟩ := (hh.seen_of_mem hpc (List.mem_singleton.mpr rfl)).view
      have hentry := h.entries key
      rw [NodeStore.stateOf_eq_view, hv] at hqueued
      rw [NodeStore.statsOf_eq_view, hv] at hx
      rw [hv] at hentry
      rw [hsame, ← Option.some.inj hx]
      exact hentry.1 (.inl (Option.some.inj hqueued))
    | limit | shutdown => exact fun heq => nomatch congrArg Subtype.val heq
    | discard hf | crashFinish hf => rcases finishStep_next hf with rfl | rfl <;> trivial
    | _ => trivial

/-- What the others tell stays told. -/
theorem others_tell (h : Telling c g) (hh : HeldOnce c) (hpc : c.threads[a.1]? = some pc)
    (hp : program S c.shared pc a.2 = some (sh', pc')) {j : Nat} {u : Pc} (hj : j ≠ a.1)
    (hu : c.threads[j]? = some u) : u.Tells sh'.store (g.move pc pc') := by
  have htells := h.tasks u (List.mem_of_getElem? hu)
  cases u with
  | worker t p =>
    cases p with
    | task key q =>
      have hkey : key ∈ (Pc.worker t (.task key q)).keys := by
        cases q with
        | enqueueing => exact List.mem_cons_of_mem _ (List.mem_singleton.mpr rfl)
        | _ => exact List.mem_singleton.mpr rfl
      have hnot : key ∉ pc.keys := fun hmine => hj (hh.apart hu hpc hkey hmine)
      have hmine : ∀ t p, pc ≠ .worker t (.task key p) := by
        rintro t p rfl
        cases p with
        | enqueueing => exact hnot (List.mem_cons_of_mem _ (List.mem_singleton.mpr rfl))
        | _ => exact hnot (List.mem_singleton.mpr rfl)
      obtain ⟨hparsed, hunlogged⟩ := g.move_other pc' hmine
      intro x hx
      rw [hparsed, hunlogged]
      refine htells x ?_
      have hseen := hh.seen_of_mem (List.mem_of_getElem? hu) hkey
      unfold NodeStore.statsOf at hx ⊢
      rcases entry_unheld hp hseen hnot with heq | ⟨ts, heq⟩
      · rwa [heq] at hx
      · rw [heq, Option.map_map] at hx
        exact hx
    | discarding | crashedFinish => exact htells
    | _ => trivial
  | _ => trivial

theorem Telling.step (h : Telling c g) (hg : Grasped c) (hh : HeldOnce c)
    (hprobe : S.settings.probeMode = false) (hpc : c.threads[a.1]? = some pc)
    (hp : program S c.shared pc a.2 = some (sh', pc')) :
    Telling ⟨sh', c.threads.set a.1 pc'⟩ (g.move pc pc') := by
  have hmem := List.mem_of_getElem? hpc
  refine ⟨fun k => ?_, fun u hu => ?_⟩
  · show EntryTells _ _ (sh'.store.viewOf k)
    by_cases hk : k ∈ pc.keys
    · obtain ⟨v, hv⟩ := (hh.seen_of_mem hmem hk).view
      have hview : sh'.store.viewOf k = some (if pc.mayPanic && a.2.panic then v else pc.rewrites k v) := by
        rcases program_view hp k with heq | ⟨happ, -⟩
        · rw [heq, hv]
          rfl
        · obtain ⟨st, hst, hne⟩ := hh.seen_of_mem hmem hk
          rw [NodeStore.stateOf_eq_view, hv] at hst
          rw [hv] at happ
          generalize sh'.store.viewOf k = v' at happ ⊢
          cases happ with
          | revived x => exact absurd (Option.some.inj hst).symm hne
      rw [hview]
      split
      · rename_i hpanic
        obtain ⟨hworker, hpanic⟩ := Bool.and_eq_true_iff.mp hpanic
        cases pc with
        | worker t p =>
          rw [Replies.move_panic hp hpanic, ← hv]
          exact h.entries k
        | _ => cases hworker
      · exact entry_calm h hg hh hmem hv hk
    · exact entry_other h hp hk
  · obtain ⟨j, hj⟩ := List.getElem?_of_mem hu
    rw [List.getElem?_set] at hj
    split at hj
    · split at hj
      · cases hj
        exact moved_tells h hg hh hprobe hmem hp
      · cases hj
    · rename_i hne
      exact others_tell h hh hpc hp (Ne.symm hne) hj

theorem Replies.record_eq (g : Replies) (hpc : c.threads[a.1]? = some pc) :
    g.record c a ⟨sh', c.threads.set a.1 pc'⟩ = g.move pc pc' := by
  obtain ⟨hi, -⟩ := List.getElem?_eq_some_iff.mp hpc
  unfold record
  rw [hpc, List.getElem?_set_self hi]

end Step

/-- Runs with the history of their replies. -/
abbrev Replied (S : Setup) (ok : Conf Shared Pc → Nat × Answer → Prop) :
    Conf Shared Pc → Replies → Prop :=
  Chronicle (program S) ok Replies.record (start S) {}

theorem telling {S : Setup} {ok : Conf Shared Pc → Nat × Answer → Prop} {c : Conf Shared Pc}
    {g : Replies} (hprobe : S.settings.probeMode = false) (hr : Replied S ok c g) : Telling c g := by
  refine hr.invariant (I := Telling) (start_telling S) fun c g a c' hr ih _ hst => ?_
  obtain ⟨pc, sh', pc', hpc, hp, rfl⟩ := step_cases hst
  rw [Replies.record_eq g hpc]
  exact ih.step (grasped hr.reach) (held_once hr.reach) hprobe hpc hp

/-- **Outcome and counters tell the same story.**  In every run of a crawl, whatever the peers
    send, whatever fails and whatever panics, for every reachable node: the outcome is one with
    replies exactly if a valid message was counted, unless it is `LogFailed`; the count of
    malformed messages is one exactly if the outcome says so or the record of a malformed message
    failed, and zero otherwise; nothing is counted where `getaddr` could not be sent; and the total
    is the sum of the breakdown and of what the messages of the node declare. -/
theorem outcome_counters {S : Setup} {ok : Conf Shared Pc → Nat × Answer → Prop}
    {c : Conf Shared Pc} {g : Replies} (hprobe : S.settings.probeMode = false)
    (hr : Replied S ok c g) {k : AddrKey} {e : NodeEntry} (he : c.shared.store.entry k = some e)
    (hst : e.state = .reachable) :
    (e.stats.collectionOutcome ≠ .logFailed →
      (e.stats.collectionOutcome.hasReplies = true ↔ 1 ≤ e.stats.validAddrMessages)) ∧
    (e.stats.malformedAddrMessages =
      if e.stats.collectionOutcome.isMalformed ||
        (e.stats.collectionOutcome = .logFailed && g.unlogged k) then 1 else 0) ∧
    (e.stats.collectionOutcome = .sendFailed → e.stats.validAddrMessages = 0 ∧
      e.stats.malformedAddrMessages = 0 ∧ e.stats.advertisedTotal = 0) ∧
    e.stats.advertisedTotal = e.stats.advertisedSum ∧
    e.stats.advertisedTotal = declared (g.parsed k) := by
  have hentry := (telling hprobe hr).entries k
  rw [NodeStore.viewOf, he] at hentry
  have hall : Consistent e.stats (g.parsed k) (g.unlogged k) := hentry.2 hst
  exact ⟨hall.valid, hall.malformed, hall.failed, hall.tallied.total, hall.tallied.declared⟩

/-- One message with one address, and then nothing. -/
def quietRun : List (Nat × Answer) :=
  asked ++ List.replicate 6 (4, { collected := .message .addr fcLegacy }) ++
    List.replicate 6 (4, { collected := .quiet false })

/-- The node of `solo` completes its collection with one valid message. -/
theorem outcome_counters_solo : ∃ c g e, Replied solo noPanic c g ∧
    c.shared.store.entry ⟨"192.0.2.1", 8333⟩ = some e ∧
    e.stats.collectionOutcome = .completeQuiet ∧ 1 ≤ e.stats.validAddrMessages ∧
    e.stats.malformedAddrMessages = 0 ∧ e.stats.advertisedTotal = 1 := by
  have hrun : (execRecord (program solo) panicFree Replies.record (start solo) {} quietRun).bind
      (fun r => (r.1.shared.store.entry ⟨"192.0.2.1", 8333⟩).map fun e =>
        (e.state, e.stats.collectionOutcome, declared (r.2.parsed ⟨"192.0.2.1", 8333⟩))) =
      some (.reachable, .completeQuiet, 1) := by
    decide
  obtain ⟨⟨c, g⟩, hc, heq⟩ := Option.bind_eq_some_iff.mp hrun
  obtain ⟨e, he, heq⟩ := Option.map_eq_some_iff.mp heq
  simp only [Prod.mk.injEq] at heq
  obtain ⟨hst, hout, hdeclared⟩ := heq
  have hr : Replied solo noPanic c g :=
    (execRecord_chronicle hc).mono fun _ a ha => by simpa [panicFree, noPanic] using ha
  obtain ⟨hvalid, hmal, -, -, htotal⟩ := outcome_counters rfl hr he hst
  rw [hout] at hvalid hmal
  exact ⟨c, g, e, hr, he, hout, (hvalid (fun h => by cases h)).mp rfl, hmal, htotal.trans hdeclared⟩

end P2PCrawler
