import P2PCrawler.Crawler.Stats
import P2PCrawler.Crawler.Termination
import P2PCrawler.Handshake

/-!
# Who becomes reachable

The answers that a crawl gets in its handshakes are those of peers at the other end of connections.

* `peerProgram` — the crawl, where every handshake is a dialogue on bytes.
* `Hello` — a handshake that has returned a version; the history of a run keeps the last one of each
  task, from one connect to the next.
* `program_reachable` — which step makes a node reachable.

## Results

* `handshake_order` — **handshakes keep the order of the protocol**, and a node becomes reachable,
  or is asked for addresses, only after one that has returned a version.
-/

set_option autoImplicit false

namespace P2PCrawler

open ThreadPool

/-! ## Peers -/

/-- The answer to a handshake is what its waits see. -/
def Pc.hears (H : Digests) (q : Dialogue) (a : Answer) : Pc → Answer
  | .worker _ (.task _ (.handshaking _ sentTs)) =>
    { a with
      events := q.events H (Int64.ofInt sentTs)
      negotiationSend := q.negotiationFault
      verackSend := q.verackFault
      elapsedMs := q.finish - q.start }
  | _ => a

/-- The crawl among peers: a dialogue is given beside every answer. -/
def peerProgram (S : Setup) : Program Shared Pc (Answer × Dialogue) := fun sh pc a =>
  program S sh pc (pc.hears S.digests a.2 a.1)

/-- A handshake for `key` that has returned a version, and its connection. -/
structure Hello where
  key : AddrKey
  dialogue : Dialogue
  sentTs : Int64
  version : VersionData
  durationMs : Nat
  conn : Connection

def Hello.of (H : Digests) (k : AddrKey) (q : Dialogue) (sentTs : Int64) : Option Hello :=
  match q.handshake H sentTs none {} with
  | some (.version v ms, c) => some ⟨k, q, sentTs, v, ms, c⟩
  | _ => none

/-- The handshake has returned that version on that connection. -/
def Hello.Spoken (H : Digests) (h : Hello) : Prop :=
  h.dialogue.handshake H h.sentTs none {} = some (.version h.version h.durationMs, h.conn)

/-- The handshake that a thread has behind it after its step, where the step changes that. -/
def Pc.greets (H : Digests) (a : Answer) (q : Dialogue) : Pc → Option (Option Hello)
  | .worker _ (.task _ (.connecting ..)) => some none
  | .worker _ (.task k (.handshaking _ sentTs)) =>
    some (if a.panic then none else Hello.of H k q (Int64.ofInt sentTs))
  | _ => none

/-- The last handshake of each task that has returned a version, on the connection it has. -/
def recordHello (H : Digests) (g : Nat → Option Hello) (c : Conf Shared Pc)
    (a : Nat × (Answer × Dialogue)) (_ : Conf Shared Pc) : Nat → Option Hello :=
  match c.threads[a.1]?.bind (Pc.greets H a.2.1 a.2.2) with
  | some hello => Function.update g a.1 hello
  | none => g

theorem Hello.of_spoken {H : Digests} {k : AddrKey} {q : Dialogue} {sentTs : Int64} {h : Hello}
    (hh : Hello.of H k q sentTs = some h) : h.Spoken H ∧ h.key = k := by
  unfold Hello.of at hh
  split at hh
  · rename_i hres
    cases hh
    exact ⟨hres, rfl⟩
  · cases hh

/-- Whom the answer greets. -/
theorem Hello.of_result {H : Digests} {k : AddrKey} {q : Dialogue} {sentTs : Int64} {v : VersionData}
    {ms : Nat} (h : handshakeResult (q.events H sentTs) q.negotiationFault q.verackFault
      (q.finish - q.start) = some (.version v ms)) : ∃ hello, Hello.of H k q sentTs = some hello := by
  rw [← handshake_result] at h
  obtain ⟨⟨r, c⟩, hres, hr⟩ := Option.map_eq_some_iff.mp h
  unfold Hello.of
  rw [hres, show r = .version v ms from hr]
  exact ⟨_, rfl⟩

/-! ## What a task knows of its connection -/

/-- The step to come does not write `Reachable`. -/
def FinishPc.Sober : FinishPc → Prop
  | .write terminal _ => terminal.val ≠ .reachable
  | _ => True

/-- What the position of a task says, where `said` is that its handshake has returned a version. -/
def TaskPc.Knows (said : Prop) : TaskPc → Prop
  | .begin | .count _ | .connecting .. | .connectFailed .. | .everConnected .. | .connected ..
  | .connectedAttempt .. | .sendVersion _ | .firstVersion .. | .versionSent .. | .handshaking ..
  | .handshakeTimeout _ | .handshakeFailed .. => True
  | .requeueing terminal _ | .resending terminal _ => terminal.val ≠ .reachable
  | .abandoning f => f.Sober
  | .finishing f => f.Sober ∨ said
  | _ => said

/-- A step after which the task has another connection, or another handshake. -/
def TaskPc.talks : TaskPc → Bool
  | .connecting .. | .handshaking .. => true
  | _ => false

theorem retryOrFinish_knows {said : Prop} (retry : Bool) {terminal : Terminal} (kind : FailKind)
    (ht : terminal.val ≠ .reachable) : (retryOrFinish retry terminal kind).Knows said := by
  cases retry with
  | true => exact ht
  | false => exact .inl ht

theorem finishStep_sober (sh : Shared) (k : AddrKey) (f : FinishPc) :
    ∀ f', (finishStep sh k f).2 = some f' → f'.Sober := by
  intro f' hf'
  rcases finishStep_next hf' with rfl | rfl <;> trivial

theorem taskStep_knows {S : Setup} {sh sh' : Shared} {t : Transport} {k : AddrKey} {a : Answer}
    {p q : TaskPc} {said said' : Prop} (h : taskStep S sh t k a p = some (sh', some q))
    (hp : p.Knows said) (hkeep : p.talks = false → said → said')
    (hshaken : ∀ n sentTs, p = .handshaking n sentTs → ∀ v ms,
      handshakeResult a.events a.negotiationSend a.verackSend a.elapsedMs = some (.version v ms) →
      said') : q.Knows said' := by
  cases p with
  | begin | count | connected | connectedAttempt | firstVersion | versionSent | connectFailed =>
    cases h; trivial
  | connecting net n =>
    simp only [taskStep] at h
    split at h <;> cases h <;> trivial
  | everConnected n kind =>
    cases h
    refine retryOrFinish_knows _ _ ?_
    unfold connectTerminal
    split <;> exact fun h => by cases h
  | sendVersion n =>
    simp only [taskStep] at h
    split at h <;> cases h <;> trivial
  | handshaking n sentTs =>
    simp only [taskStep] at h
    split at h
    · cases h
    · cases h; trivial
    · cases h; trivial
    · rename_i v ms hres
      cases h
      exact hshaken n sentTs rfl v ms hres
  | handshakeTimeout n => cases h; exact retryOrFinish_knows _ _ fun h => by cases h
  | handshakeFailed n kind => cases h; exact retryOrFinish_knows _ _ fun h => by cases h
  | handshaken hd sentTs => cases h; split <;> exact hkeep rfl hp
  | getaddr c => cases h; split <;> exact hkeep rfl hp
  | collecting c =>
    simp only [taskStep] at h
    split at h <;> cases h <;> exact hkeep rfl hp
  | malformedGuard | messageGuard | outcomeGuard | shuffling =>
    simp only [taskStep] at h
    split at h <;> cases h
    exact hkeep rfl hp
  | malformedCount | breakdown | outcomeWrite => cases h; split <;> exact hkeep rfl hp
  | malformedLog c call | blockLog c parsed now call | outcomeLog c call =>
    obtain ⟨-, ⟨call', heq⟩ | ⟨res, heq⟩⟩ := logStep_effect h
    · cases heq; exact hkeep rfl hp
    · cases res <;> cases heq <;> exact hkeep rfl hp
  | upserting c count now rest =>
    cases rest with
    | nil => cases h; exact hkeep rfl hp
    | cons addr rest =>
      cases h
      generalize (sh.store.frontierUpsert _ _ _ _ _).2 = out
      cases out <;> exact hkeep rfl hp
  | enqueueing c count now rest key e => cases h; split <;> exact hkeep rfl hp
  | messageDone c count => cases h; split <;> exact hkeep rfl hp
  | completing sentTs => cases h; exact .inr (hkeep rfl hp)
  | requeueing terminal kind => cases h; exact hp
  | resending terminal kind =>
    simp only [taskStep] at h
    split at h <;> cases h
    exact hp
  | abandoning f =>
    simp only [taskStep, Option.some.injEq, Prod.mk.injEq] at h
    obtain ⟨f', hf', rfl⟩ := Option.map_eq_some_iff.mp h.2
    exact finishStep_sober sh k f f' hf'
  | finishing f =>
    simp only [taskStep, Option.some.injEq, Prod.mk.injEq] at h
    obtain ⟨f', hf', rfl⟩ := Option.map_eq_some_iff.mp h.2
    exact .inl (finishStep_sober sh k f f' hf')
  | _ => cases h; exact hkeep rfl hp

/-- What the position of a thread says, where `said k` is that its handshake with `k` has returned a
    version. -/
def Pc.Knows (said : AddrKey → Prop) : Pc → Prop
  | .worker _ (.task k p) => p.Knows (said k)
  | .worker _ (.discarding _ f) | .worker _ (.crashedFinish _ f) => f.Sober
  | _ => True

def Pc.talks : Pc → Bool
  | .worker _ (.task _ p) => p.talks
  | _ => false

theorem loopStep_knows {S : Setup} {sh sh' : Shared} {t : Transport} {p p' : WorkerPc}
    {said said' : AddrKey → Prop} (h : loopStep S sh t p = some (sh', p'))
    (hp : (Pc.worker t p).Knows said) : (Pc.worker t p').Knows said' := by
  cases loopStep_cases h with
  | limit | shutdown => exact fun h => by cases h
  | @discard k f f' hf | @crashFinish k f f' hf => exact finishStep_sober sh k f f' hf
  | _ => trivial

theorem program_knows {S : Setup} {sh sh' : Shared} {pc pc' : Pc} {a : Answer}
    {said said' : AddrKey → Prop} (h : program S sh pc a = some (sh', pc')) (hp : pc.Knows said)
    (hkeep : pc.talks = false → ∀ k, said k → said' k)
    (hshaken : ∀ t k n sentTs, pc = .worker t (.task k (.handshaking n sentTs)) → a.panic = false →
      ∀ v ms, handshakeResult a.events a.negotiationSend a.verackSend a.elapsedMs =
        some (.version v ms) → said' k) : pc'.Knows said' := by
  rcases program_cases h with ⟨p, p', rfl, rfl, -⟩ | ⟨p, p', rfl, rfl, -⟩ | ⟨p, p', rfl, rfl, -⟩ |
    ⟨L, rfl, rfl, -⟩ | ⟨t, p, p', rfl, rfl, hs⟩
  iterate 4 trivial
  rcases workerStep_cases hs with ⟨k, q, rfl, -, -, rfl⟩ | ⟨k, q, next, rfl, hcalm, hstep, rfl⟩ |
    ⟨-, -, -, -, -, rfl⟩ | ⟨-, -, -, hstep⟩
  · trivial
  · cases next with
    | none => trivial
    | some q' =>
      refine taskStep_knows hstep hp (fun hquiet => hkeep hquiet k) ?_
      rintro n sentTs rfl
      exact hshaken t k n sentTs rfl hcalm
  · trivial
  · exact loopStep_knows hstep hp

/-- A write of a sober step leaves no node reachable that was not. -/
theorem FinishPc.Sober.rewrites {f : FinishPc} (hf : f.Sober) {v : EntryView}
    (h : (f.rewrites v).1 = .reachable) : v.1 = .reachable := by
  cases f with
  | write terminal reason =>
    simp only [FinishPc.rewrites] at h
    split at h
    · exact absurd h hf
    · exact h
  | _ => exact h

/-- What a thread knows when it makes a node reachable. -/
theorem Pc.Knows.rewrites {said : AddrKey → Prop} {pc : Pc} (hp : pc.Knows said) {k : AddrKey}
    {v : EntryView} (h : (pc.rewrites k v).1 = .reachable) (hv : v.1 ≠ .reachable) : said k := by
  have hsober : ∀ {f : FinishPc} {key : AddrKey}, f.Sober →
      ((if key = k then f.rewrites v else v : EntryView).1 = .reachable) → False := by
    intro f key hf h
    split at h
    · exact hv (hf.rewrites h)
    · exact hv h
  have hdiscard : ∀ {e : EnqueuePc} {key : AddrKey},
      ((if key = k then e.rewrites v else v : EntryView).1 = .reachable) → False := by
    intro e key h
    split at h
    · cases e <;> first | exact hv h | cases h
    · exact hv h
  cases pc with
  | main p =>
    cases p with
    | seedEnqueue rest key e => exact (hdiscard h).elim
    | _ => exact absurd h hv
  | worker t p =>
    cases p with
    | task key p =>
      cases p with
      | enqueueing c count now rest key' e => exact (hdiscard h).elim
      | abandoning f => exact (hsober hp h).elim
      | finishing f =>
        rcases hp with hf | hsaid
        · exact (hsober hf h).elim
        · simp only [Pc.rewrites] at h
          split at h
          · rename_i heq
            exact heq ▸ hsaid
          · exact absurd h hv
      | requeueing terminal kind =>
        simp only [Pc.rewrites] at h
        split at h
        · cases h
        · exact absurd h hv
      | _ =>
        simp only [Pc.rewrites, TaskPc.rewrites] at h
        split at h <;> exact absurd h hv
    | starting key =>
      simp only [Pc.rewrites] at h
      split at h
      · cases h
      · exact absurd h hv
    | discarding key f | crashedFinish key f => exact (hsober hp h).elim
    | _ => exact absurd h hv
  | _ => exact absurd h hv

/-- **Who makes a node reachable**: a task whose handshake with it has returned a version. -/
theorem program_reachable {S : Setup} {sh sh' : Shared} {pc pc' : Pc} {a : Answer}
    {said : AddrKey → Prop} (h : program S sh pc a = some (sh', pc')) (hp : pc.Knows said)
    {k : AddrKey} (hold : sh.store.stateOf k ≠ some .reachable)
    (hnew : sh'.store.stateOf k = some .reachable) : said k := by
  rw [NodeStore.stateOf_eq_view] at hold hnew
  rcases program_view h k with heq | ⟨happ, -⟩
  · rw [heq] at hnew
    obtain ⟨v', hv', hreach⟩ := Option.map_eq_some_iff.mp hnew
    obtain ⟨v, hv, rfl⟩ := Option.map_eq_some_iff.mp hv'
    rw [hv] at hold
    have hne : v.1 ≠ .reachable := fun h => hold (congrArg some h)
    split at hreach
    · exact absurd hreach hne
    · exact hp.rewrites hreach hne
  · generalize sh.store.viewOf k = v at happ hold
    generalize sh'.store.viewOf k = v' at happ hnew
    cases happ with
    | new hst => rcases hst with rfl | rfl <;> cases hnew
    | revived x => cases hnew

/-! ## Runs among peers -/

section Runs
variable {S : Setup} {g : Nat → Option Hello} {c c' : Conf Shared Pc}

/-- The handshake of thread `i` with `k`, on the connection it has, has returned a version. -/
def HasGreeted (S : Setup) (g : Nat → Option Hello) (i : Nat) (k : AddrKey) : Prop :=
  ∃ h, g i = some h ∧ h.key = k ∧ h.Spoken S.digests

/-- A run of the crawl among peers, with the handshakes of its tasks. -/
abbrev Hailed (S : Setup) (c : Conf Shared Pc) (g : Nat → Option Hello) : Prop :=
  Chronicle (peerProgram S) anyStep (recordHello S.digests) (start S) (fun _ => none) c g

theorem recordHello_quiet {H : Digests} {a : Nat × (Answer × Dialogue)} {pc : Pc}
    (hpc : c.threads[a.1]? = some pc) (hquiet : pc.talks = false) : recordHello H g c a c' = g := by
  have hnone : pc.greets H a.2.1 a.2.2 = none := by
    cases pc with
    | worker t p =>
      cases p with
      | task k p => cases p <;> first | rfl | cases hquiet
      | _ => rfl
    | _ => rfl
  unfold recordHello
  rw [hpc, Option.bind_some, hnone]

theorem recordHello_other {H : Digests} {a : Nat × (Answer × Dialogue)} {j : Nat} (hj : j ≠ a.1) :
    recordHello H g c a c' j = g j := by
  unfold recordHello
  cases c.threads[a.1]?.bind (Pc.greets H a.2.1 a.2.2) with
  | none => rfl
  | some hello => exact Function.update_of_ne hj _ _

/-- In every run, a task past its handshake has the handshake behind it. -/
theorem hailed_knows (h : Hailed S c g) :
    ∀ i (pc : Pc), c.threads[i]? = some pc → pc.Knows (HasGreeted S g i) := by
  refine h.invariant
    (I := fun c g => ∀ i (pc : Pc), c.threads[i]? = some pc → pc.Knows (HasGreeted S g i)) ?_ ?_
  · intro i pc hpc
    rcases mem_start (List.mem_of_getElem? hpc) with rfl | rfl | rfl | rfl | ⟨t, rfl, -⟩ <;> trivial
  intro c g a c' _ ih _ hst i pc hpc
  obtain ⟨old, sh', new, hold, hp, rfl⟩ := step_cases hst
  by_cases hi : i = a.1
  · subst hi
    rw [List.getElem?_set_self (List.getElem?_eq_some_iff.mp hold).1] at hpc
    obtain rfl := Option.some.inj hpc
    refine program_knows hp (ih _ _ hold) ?_ ?_
    · intro hquiet k hk
      unfold HasGreeted
      rw [recordHello_quiet hold hquiet]
      exact hk
    · rintro t k n sentTs rfl hcalm v ms hres
      obtain ⟨hello, hhello⟩ := Hello.of_result (k := k) hres
      obtain ⟨hspoken, hkey⟩ := Hello.of_spoken hhello
      refine ⟨hello, ?_, hkey, hspoken⟩
      have hpanic : a.2.1.panic = false := hcalm
      unfold recordHello
      rw [hold]
      simp only [Option.bind_some, Pc.greets, hpanic, Function.update_self]
      exact hhello
  · rw [List.getElem?_set_ne (Ne.symm hi)] at hpc
    have hsame : HasGreeted S (recordHello S.digests g c a ⟨sh', c.threads.set a.1 new⟩) i =
        HasGreeted S g i := by
      funext k
      unfold HasGreeted
      rw [recordHello_other hi]
    rw [hsame]
    exact ih i pc hpc

/-- **Handshakes keep the order of the protocol.**  For every stream of the peer, however it is cut
    and whenever it comes: a handshake that returns a version has exchanged exactly the messages of a
    greeting with a peer that announces this version, the peer's part being the beginning of its
    stream, and no handshake sends `getaddr`.  In every run among such peers, whatever the
    interleaving: the task that makes a node reachable, or sends it `getaddr`, has such a handshake
    behind it on its connection. -/
theorem handshake_order :
    (∀ (H : Digests) (q : Dialogue) (sentTs : Int64) (versionFault : Option IoError)
      (r : HandshakeResult) (conn : Connection),
      q.handshake H sentTs versionFault {} = some (r, conn) →
        (∀ v ms, r = .version v ms → Greeted H sentTs q.nonce v conn) ∧
        ∀ payload, .sent "getaddr" payload ∉ conn.trace) ∧
    (∀ (S : Setup) (c c' : Conf Shared Pc) (g : Nat → Option Hello) (a : Nat × (Answer × Dialogue)),
      Hailed S c g → step (peerProgram S) c a = some c' → ∀ k,
        (c.shared.store.stateOf k ≠ some .reachable ∧ c'.shared.store.stateOf k = some .reachable) ∨
        (∃ t s, c.threads[a.1]? = some (.worker t (.task k (.getaddr s)))) →
        ∃ h, g a.1 = some h ∧ h.key = k ∧ h.Spoken S.digests ∧
          Greeted S.digests h.sentTs h.dialogue.nonce h.version h.conn) := by
  constructor
  · intro H q sentTs versionFault r conn h
    constructor
    · rintro v ms rfl
      exact handshake_greeted h
    · intro payload hmem
      have hown := handshake_sends h hmem
      simp at hown
  · intro S c c' g a hr hst k hk
    have hknows := hailed_knows hr
    obtain ⟨pc, sh', pc', hpc, hp, rfl⟩ := step_cases hst
    have hgreeted : HasGreeted S g a.1 k := by
      rcases hk with ⟨hold, hnew⟩ | ⟨t, s, htask⟩
      · exact program_reachable hp (hknows _ _ hpc) hold hnew
      · exact hknows _ _ htask
    obtain ⟨h, hg, hkey, hspoken⟩ := hgreeted
    exact ⟨h, hg, hkey, hspoken, handshake_greeted hspoken⟩

end Runs

/-! ## A run with a peer that pings -/

/-- A `version`, a ping and a `verack`, in one piece. -/
def politeBytes : List Byte :=
  frameBytes .zero ⟨"version", buildVersion 0 0⟩ ++
    frameBytes .zero ⟨"ping", [1, 2, 3, 4, 5, 6, 7, 8]⟩ ++ frameBytes .zero ⟨"verack", []⟩

/-- The first wait reads all of it, the second one takes the rest off the buffer. -/
def politeDialogue : Dialogue where
  start := 0
  nonce := 7
  message := 30
  toVersion := [⟨1, 1, [⟨1, 1, 1, .data politeBytes, 2⟩, ⟨2, 2, 2, .timedOut, 2⟩], none⟩]
  toVerack := [⟨3, 3, [⟨3, 3, 3, .timedOut, 3⟩], none⟩, ⟨4, 4, [⟨4, 4, 4, .timedOut, 4⟩], none⟩]
  finish := 5

/-- Seeding, the handshake, and a collection that ends in silence. -/
def politeRun : List (Nat × (Answer × Dialogue)) :=
  let answers := steps 0 7 ++ steps 4 15 ++ List.replicate 5 (4, { collected := .quiet false })
  answers.map fun a => (a.1, a.2, politeDialogue)

/-- The next step makes the node reachable, and its handshake was a greeting. -/
theorem handshake_order_polite : ∃ c c' g h, Hailed solo c g ∧
    step (peerProgram solo) c (4, {}, politeDialogue) = some c' ∧
    c'.shared.store.stateOf ⟨"192.0.2.1", 8333⟩ = some .reachable ∧ g 4 = some h ∧
    Greeted .zero h.sentTs h.dialogue.nonce h.version h.conn := by
  have hrun : (execRecord (peerProgram solo) (fun _ _ => true) (recordHello .zero) (start solo)
      (fun _ => none) politeRun).bind (fun r =>
        (step (peerProgram solo) r.1 (4, {}, politeDialogue)).map fun c' =>
          (r.1.shared.store.stateOf ⟨"192.0.2.1", 8333⟩,
            c'.shared.store.stateOf ⟨"192.0.2.1", 8333⟩)) =
      some (some .processing, some .reachable) := by
    decide +kernel
  obtain ⟨⟨c, g⟩, hc, heq⟩ := Option.bind_eq_some_iff.mp hrun
  obtain ⟨c', hst, heq⟩ := Option.map_eq_some_iff.mp heq
  obtain ⟨hold, hnew⟩ := Prod.mk.injEq .. ▸ heq
  have hr : Hailed solo c g := (execRecord_chronicle hc).mono fun _ _ _ => trivial
  have hne : c.shared.store.stateOf ⟨"192.0.2.1", 8333⟩ ≠ some .reachable := by
    rw [hold]
    exact fun h => by cases h
  obtain ⟨h, hg, -, -, hgreeted⟩ := handshake_order.2 solo c c' g _ hr hst _ (.inl ⟨hne, hnew⟩)
  exact ⟨c, c', g, h, hr, hst, hnew, hg, hgreeted⟩

end P2PCrawler
