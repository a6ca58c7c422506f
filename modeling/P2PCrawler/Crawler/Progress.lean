import P2PCrawler.Lib.Potential
import P2PCrawler.Crawler.Completion
import P2PCrawler.Crawler.Logging

/-!
# The crawl is never stuck

The tasks wait for one another: workers for keys and for the checkpoint's write guard, the
checkpoint for the readers, all of them for the mutex of the address log, its channel and its
replies, and the main task for the workers, the Ctrl+C task and the checkpoint.

* `Lull` — the steps of a lull: nobody panics, presses Ctrl+C or ticks, and no peer sends anything.
* `lock_held`, `replies_pending` — whoever waits for the log waits for a call that can go on.
* `halts` — a shutdown or a panic closes the queues, or a thread is about to.
* `never_stuck` — **until the main task has finished, some thread can take a step in a lull.**
-/

set_option autoImplicit false

namespace P2PCrawler

open ThreadPool

/-! ## Steps in a lull -/

/-- The Ctrl+C task is running. -/
def SignalPc.busy : SignalPc → Bool
  | .storing | .closing => true
  | _ => false

/-- What the world answers in a lull. -/
structure Answer.Calm (a : Answer) : Prop where
  panic : a.panic = false
  tick : a.tick = false
  collected : a.collected = .expired

/-- The thread does not wait for Ctrl+C. -/
def Pc.Inward : Pc → Prop
  | .signal p => p.busy = true
  | _ => True

/-- A step in a lull. -/
structure Lull (c : Conf Shared Pc) (a : Nat × Answer) : Prop where
  calm : a.2.Calm
  inward : ∀ pc, c.threads[a.1]? = some pc → pc.Inward

/-- The thread can take a step in a lull. -/
def Pc.CanMove (S : Setup) (sh : Shared) (pc : Pc) : Prop :=
  pc.Inward ∧ ∃ a : Answer, a.Calm ∧ (program S sh pc a).isSome = true

/-- Some thread can take a step in a lull. -/
def SomeoneMoves (S : Setup) (c : Conf Shared Pc) : Prop :=
  ∃ pc ∈ c.threads, pc.CanMove S c.shared

theorem SomeoneMoves.step {S : Setup} {c : Conf Shared Pc} (h : SomeoneMoves S c) :
    ∃ a c', Lull c a ∧ step (program S) c a = some c' := by
  obtain ⟨pc, hpc, hin, a, hcalm, hsome⟩ := h
  obtain ⟨i, hi⟩ := List.getElem?_of_mem hpc
  obtain ⟨⟨sh', pc'⟩, hp⟩ := Option.isSome_iff_exists.mp hsome
  refine ⟨(i, a), ⟨sh', c.threads.set i pc'⟩, ⟨hcalm, fun u hu => ?_⟩, ?_⟩
  · rw [hi] at hu
    cases hu
    exact hin
  · simp only [ThreadPool.step, hi, hp, Option.map_some]

/-- The default answer, without a tick. -/
def lull : Answer := { tick := false }

theorem lull_calm : lull.Calm := ⟨rfl, rfl, rfl⟩

/-! ## The log -/

section Log
variable {S : Setup} {L L' : LogState} {ok : Conf Shared Pc → Nat × Answer → Prop}
  {c : Conf Shared Pc}

/-- The call with this ticket has its reply, or its command is in the channel. -/
def LogState.Pending (L : LogState) (ticket : Nat) : Prop :=
  L.replies.lookup ticket ≠ none ∨ ∃ cmd ∈ L.channel, cmd.ticket = ticket

theorem LogState.Pending.call {k : LogCall} {next : LogNext} {ticket : Nat}
    (h : k.step L = some (L', next)) (hp : L.Pending ticket) : L'.Pending ticket := by
  cases next with
  | pending k' =>
    rcases LogCall.step_pending h with ⟨r, rfl, -, rfl, rfl⟩ | ⟨r, eventId, rfl, rfl, rfl⟩
    · exact hp
    · exact hp.imp_right fun ⟨cmd, hcmd, ht⟩ => ⟨cmd, List.mem_append_left _ hcmd, ht⟩
  | returned res =>
    obtain ⟨r, eventId, ticket', rfl, -, rfl⟩ := LogCall.step_returned h
    exact hp

theorem LogState.Pending.serve {H : Digests} {fault : Option Nat} {synced : Bool} {ticket : Nat}
    (h : L.writerStep H fault synced = some L') (hp : L.Pending ticket) : L'.Pending ticket := by
  -- the command that is served gets its reply
  have hserve : ∀ {cmd : WriterCommand} {rest : List WriterCommand} {x : Option Nat},
      L.channel = cmd :: rest → L'.channel = rest → L'.replies = L.replies.insert cmd.ticket x →
        L'.Pending ticket := by
    intro cmd rest x hch hch' hreplies
    unfold LogState.Pending
    rw [hch', hreplies]
    by_cases ht : ticket = cmd.ticket
    · subst ht
      exact .inl (by rw [AList.lookup_insert]; exact Option.some_ne_none _)
    · rcases hp with hp | ⟨cmd', hcmd, hticket⟩
      · exact .inl (by rw [AList.lookup_insert_ne ht]; exact hp)
      · rw [hch] at hcmd
        rcases List.mem_cons.mp hcmd with rfl | hcmd
        · exact absurd hticket.symm ht
        · exact .inr ⟨cmd', hcmd, hticket⟩
  unfold LogState.writerStep at h
  split at h
  · cases h
  · rename_i event eventId ticket' rest hch
    split at h
    · cases h; exact hserve hch rfl rfl
    · split at h <;> cases h
      exact hserve hch rfl rfl
  · rename_i ticket' rest hch
    split at h <;> cases h
    · exact hserve hch rfl rfl
    · exact hserve hch rfl rfl

/-- The thread is in a call that holds the mutex. -/
def Pc.holds (pc : Pc) : Bool := pc.call.any LogCall.holds

/-- A step and the log: the writer serves a command, a client moves, or a panic ends a call. -/
theorem program_log_cases {sh sh' : Shared} {pc pc' : Pc} {a : Answer}
    (h : program S sh pc a = some (sh', pc')) :
    (pc = .logWriter ∧ pc' = .logWriter ∧
      sh.log.writerStep S.digests a.fault a.synced = some sh'.log) ∨
    ClientMove sh.log pc.call sh'.log pc'.call ∨
    (pc'.call = none ∧ sh'.log.channel = sh.log.channel ∧ sh'.log.replies = sh.log.replies ∧
      (sh'.log.locked = true → sh.log.locked = true ∧ pc.holds = false)) := by
  by_cases hreads : a.panic = true → pc.reads = 0
  · exact (program_log h hreads).imp_right .inl
  · obtain ⟨hpanic, hreads⟩ := not_forall.mp hreads
    refine .inr (.inr ?_)
    rcases program_cases h with ⟨p, p', rfl, rfl, hs⟩ | ⟨p, p', rfl, rfl, hs⟩ |
      ⟨p, p', rfl, rfl, hs⟩ | ⟨L, rfl, rfl, hs, rfl⟩ | ⟨t, p, p', rfl, rfl, hs⟩
    · exact absurd rfl hreads
    · exact absurd rfl hreads
    · exact absurd rfl hreads
    · exact absurd rfl hreads
    · rcases workerStep_cases hs with ⟨k, q, rfl, -, rfl, rfl⟩ | ⟨k, q, next, rfl, hno, -, -⟩ |
        ⟨hq, -, -, -, rfl, rfl⟩ | ⟨-, -, hno, -⟩
      · refine ⟨rfl, ?_, ?_, fun hlocked => ?_⟩
        · simp only [unwind]; split <;> rfl
        · simp only [unwind]; split <;> rfl
        · simp only [unwind] at hlocked
          split at hlocked
          · cases hlocked
          · rename_i hholds; exact ⟨hlocked, by simpa [Pc.holds, Pc.call] using hholds⟩
      · rw [hno] at hpanic; cases hpanic
      · cases p with
        | task k q => exact absurd rfl (hq k q)
        | _ => exact absurd rfl hreads
      · rw [hno] at hpanic; cases hpanic

theorem LogState.writerStep_locked {H : Digests} {fault : Option Nat} {synced : Bool}
    (h : L.writerStep H fault synced = some L') : L'.locked = L.locked := by
  unfold LogState.writerStep at h
  split at h
  · cases h
  · split at h
    · cases h; rfl
    · split at h <;> cases h
      rfl
  · split at h <;> cases h <;> rfl

/-- Where the mutex is locked after a move, the client holds it, or it was locked and the client
    did not hold it. -/
theorem ClientMove.locked {k k' : Option LogCall} (h : ClientMove L k L' k') (hl : L'.locked = true) :
    k'.any LogCall.holds = true ∨ L.locked = true ∧ k.any LogCall.holds = false := by
  cases h with
  | aside =>
    by_cases hk : k.any LogCall.holds = true
    · exact .inl hk
    · exact .inr ⟨hl, by simpa using hk⟩
  | enter => exact .inr ⟨hl, rfl⟩
  | next hs =>
    rcases LogCall.step_pending hs with ⟨r, rfl, -, rfl, -⟩ | ⟨r, eventId, rfl, rfl, -⟩
    · exact .inl rfl
    · exact .inl rfl
  | leave hs =>
    obtain ⟨r, eventId, ticket, rfl, -, rfl⟩ := LogCall.step_returned hs
    cases hl

/-- **The mutex is held by a call.** -/
theorem lock_held (hr : Reach (program S) ok (start S) c) (hlocked : c.shared.log.locked = true) :
    ∃ pc ∈ c.threads, pc.holds = true := by
  refine hr.invariant (I := fun c => c.shared.log.locked = true → ∃ pc ∈ c.threads, pc.holds = true)
    (fun h => by cases h) ?_ hlocked
  intro c a c' _ ih _ hst hlocked
  obtain ⟨pc, sh', pc', hpc, hp, rfl⟩ := step_cases hst
  -- a holder other than the moving thread stays
  have hstay : c.shared.log.locked = true → pc.holds = false →
      ∃ u ∈ c.threads.set a.1 pc', u.holds = true := by
    intro hold hno
    obtain ⟨u, hu, hholds⟩ := ih hold
    refine ⟨u, mem_set_of_ne hpc hu ?_, hholds⟩
    rintro rfl
    rw [hholds] at hno
    cases hno
  rcases program_log_cases hp with ⟨rfl, rfl, hs⟩ | hmove | ⟨-, -, -, hback⟩
  · exact hstay ((LogState.writerStep_locked hs).symm.trans hlocked) rfl
  · rcases hmove.locked hlocked with hholds | ⟨hold, hno⟩
    · exact ⟨pc', List.mem_set (List.getElem?_eq_some_iff.mp hpc).1 pc', hholds⟩
    · exact hstay hold hno
  · exact hstay (hback hlocked).1 (hback hlocked).2

/-- The call of a thread that waits for a reply has it, or its command is in the channel. -/
def AwaitsReply (sh : Shared) (pc : Pc) : Prop :=
  ∀ r eventId ticket, pc.call = some (.wait r eventId ticket) → sh.log.Pending ticket

theorem ClientMove.pending {k k' : Option LogCall} {ticket : Nat} (h : ClientMove L k L' k')
    (hp : L.Pending ticket) : L'.Pending ticket := by
  cases h with
  | aside | enter => exact hp
  | next hs | leave hs => exact hp.call hs

theorem LogRequest.ticket_command (r : LogRequest) (eventId ticket : Nat) :
    (r.command eventId ticket).ticket = ticket := by
  cases r <;> rfl

/-- **Replies are on their way.** -/
theorem replies_pending (hr : Reach (program S) ok (start S) c) : Holds AwaitsReply c := by
  refine hr.invariant (I := Holds AwaitsReply) ?_ ?_
  · intro i pc hpc r eventId ticket hcall
    rcases mem_start (List.mem_of_getElem? hpc) with rfl | rfl | rfl | rfl | ⟨t, rfl, -⟩ <;> cases hcall
  · intro c a c' _ ih _ hst
    have hkeep : ∀ {sh' : Shared} {pc pc' : Pc}, program S c.shared pc a.2 = some (sh', pc') →
        ∀ ticket, c.shared.log.Pending ticket → sh'.log.Pending ticket := by
      intro sh' pc pc' hp ticket hpend
      rcases program_log_cases hp with ⟨-, -, hs⟩ | hmove | ⟨-, hch, hre, -⟩
      · exact hpend.serve hs
      · exact hmove.pending hpend
      · unfold LogState.Pending
        rw [hch, hre]
        exact hpend
    refine ih.step hst ?_ ?_
    · intro pc sh' pc' hpc hp r eventId ticket hcall
      rcases program_log_cases hp with ⟨-, rfl, -⟩ | hmove | ⟨hnone, -⟩
      · cases hcall
      · have hold := ih _ _ hpc r eventId ticket
        rw [hcall] at hmove
        unfold AwaitsReply at ih
        generalize pc.call = k at hmove hold
        generalize sh'.log = L' at hmove ⊢
        cases hmove with
        | aside => exact hold rfl
        | next hs =>
          rcases LogCall.step_pending hs with ⟨r', rfl, -, heq, -⟩ | ⟨r', eventId', rfl, heq, rfl⟩
          · cases heq
          · cases heq
            exact .inr ⟨_, List.mem_append_right _ (List.mem_singleton.mpr rfl),
              LogRequest.ticket_command ..⟩
      · rw [hnone] at hcall; cases hcall
    · intro pc sh' pc' j u hpc hp _ _ hold r eventId ticket hcall
      exact hkeep hp ticket (hold r eventId ticket hcall)

/-- Every task is there from the start on. -/
theorem thread_at (hr : Reach (program S) ok (start S) c) {i : Nat} {κ : Kind}
    (h : ((start S).threads[i]?).map Pc.kind = some κ) : ∃ pc, c.threads[i]? = some pc ∧ pc.kind = κ := by
  have heq : (c.threads[i]?).map Pc.kind = ((start S).threads[i]?).map Pc.kind := by
    rw [← List.getElem?_map, ← List.getElem?_map, kinds hr]
  rw [h] at heq
  exact Option.map_eq_some_iff.mp heq

theorem logStep_isSome {π : Type} {sh : Shared} {call : LogCall} (wait : LogCall → π)
    (done : Option Nat → π) (h : (call.step sh.log).isSome = true) :
    (logStep sh call wait done).isSome = true := by
  simpa [logStep] using h

/-- A thread whose call can go on can move. -/
theorem call_moves {sh : Shared} {pc : Pc} {call : LogCall} (hkilled : sh.killed = false)
    (hcall : pc.call = some call) (h : (call.step sh.log).isSome = true) : pc.CanMove S sh := by
  cases pc with
  | main p =>
    cases p <;> cases hcall
    exact ⟨trivial, lull, lull_calm, by simp [program, hkilled, mainStep, logStep_isSome, h]⟩
  | checkpoint p =>
    cases p <;> cases hcall
    exact ⟨trivial, lull, lull_calm, by simp [program, hkilled, checkpointStep, logStep_isSome, h]⟩
  | worker t p =>
    cases p with
    | task k q =>
      refine ⟨trivial, lull, lull_calm, ?_⟩
      cases q <;> cases hcall <;> simp [program, hkilled, workerStep, lull, taskStep, logStep_isSome, h]
    | _ => cases hcall
  | _ => cases hcall

/-- The writer can move while there is a command. -/
theorem writer_moves {sh : Shared} (hkilled : sh.killed = false) (h : sh.log.channel ≠ []) :
    Pc.logWriter.CanMove S sh := by
  refine ⟨trivial, lull, lull_calm, ?_⟩
  cases hch : sh.log.channel with
  | nil => exact absurd hch h
  | cons cmd rest => cases cmd <;> simp [program, hkilled, LogState.writerStep, hch, lull]

/-- **Nobody waits for the log in vain.** -/
theorem log_moves (hr : Reach (program S) ok (start S) c) (hkilled : c.shared.killed = false)
    {pc : Pc} (hpc : pc ∈ c.threads) {call : LogCall} (hcall : pc.call = some call) :
    SomeoneMoves S c := by
  have hwriter : c.shared.log.channel ≠ [] → SomeoneMoves S c := by
    intro hch
    obtain ⟨u, hu, hkind⟩ := thread_at hr (i := 3) (κ := .logWriter) rfl
    cases u with
    | logWriter => exact ⟨_, List.mem_of_getElem? hu, writer_moves hkilled hch⟩
    | _ => cases hkind
  -- a call that holds the mutex goes on, or the writer does
  have hholder : ∀ u ∈ c.threads, ∀ k, u.call = some k → k.holds = true → SomeoneMoves S c := by
    intro u hu k hk hholds
    cases k with
    | lock r => cases hholds
    | send r eventId =>
      by_cases hroom : c.shared.log.channel.length < commandCapacity
      · exact ⟨u, hu, call_moves hkilled hk (by simp [LogCall.step, hroom])⟩
      · refine hwriter fun hnil => hroom ?_
        rw [hnil]
        exact Nat.succ_pos _
    | wait r eventId ticket =>
      rcases (replies_pending hr).of_mem hu r eventId ticket hk with hreply | ⟨cmd, hcmd, -⟩
      · obtain ⟨res, hres⟩ := Option.ne_none_iff_exists'.mp hreply
        exact ⟨u, hu, call_moves hkilled hk (by simp [LogCall.step, hres])⟩
      · exact hwriter (List.ne_nil_of_mem hcmd)
  cases call with
  | lock r =>
    cases hlocked : c.shared.log.locked with
    | false => exact ⟨pc, hpc, call_moves hkilled hcall (by simp [LogCall.step, hlocked])⟩
    | true =>
      obtain ⟨u, hu, hholds⟩ := lock_held hr hlocked
      unfold Pc.holds at hholds
      cases hk : u.call with
      | none => rw [hk] at hholds; cases hholds
      | some k => rw [hk] at hholds; exact hholder u hu k hk hholds
  | send r eventId => exact hholder pc hpc _ hcall rfl
  | wait r eventId ticket => exact hholder pc hpc _ hcall rfl

end Log

/-! ## Workers -/

section Workers
variable {S : Setup} {ok : Conf Shared Pc → Nat × Answer → Prop} {c : Conf Shared Pc}

/-- **Nobody waits for the checkpoint in vain.** -/
theorem guard_moves (hr : Reach (program S) ok (start S) c) (hkilled : c.shared.killed = false)
    (hw : c.shared.writer = true) : SomeoneMoves S c := by
  have hsum : load Pc.writes c.threads = 1 := by
    rw [(barrier hr).writers]
    simp [Shared.writers, hw]
  have hguard : ∃ p, Pc.checkpoint p ∈ c.threads ∧ p.guarded = true := by
    by_contra hno
    have hzero : load Pc.writes c.threads = 0 := load_eq_zero fun pc hpc => by
      cases pc with
      | checkpoint p =>
        have hp : p.guarded = false := by
          by_contra hg
          exact hno ⟨p, hpc, by simpa using hg⟩
        simp [Pc.writes, hp]
      | _ => rfl
    omega
  obtain ⟨p, hpc, hp⟩ := hguard
  have hmove : (∀ a, a = lull → (checkpointStep S c.shared a p).isSome = true) → SomeoneMoves S c :=
    fun h => ⟨_, hpc, trivial, lull, lull_calm, by simp [program, hkilled, h lull rfl]⟩
  cases p with
  | flushing processed call => exact log_moves hr hkilled hpc rfl
  | marking | leaving | snapshotting => exact hmove fun _ _ => rfl
  | cloning processed durable rest acc => cases rest <;> exact hmove fun _ _ => rfl
  | _ => cases hp

/-- A task of `process` goes on, or waits for one that does. -/
theorem task_moves (hr : Reach (program S) ok (start S) c) (hkilled : c.shared.killed = false)
    {t : Transport} {k : AddrKey} {q : TaskPc} (hpc : Pc.worker t (.task k q) ∈ c.threads) :
    SomeoneMoves S c := by
  have hmove : ∀ {a : Answer}, a.Calm → (taskStep S c.shared t k a q).isSome = true →
      SomeoneMoves S c := by
    intro a ha h
    exact ⟨_, hpc, trivial, a, ha, by simp [program, hkilled, workerStep, ha.panic, h]⟩
  have hguard : (c.shared.writer = false → (taskStep S c.shared t k lull q).isSome = true) →
      SomeoneMoves S c := by
    intro h
    cases hw : c.shared.writer with
    | false => exact hmove lull_calm (h hw)
    | true => exact guard_moves hr hkilled hw
  cases q with
  | malformedLog | blockLog | outcomeLog => exact log_moves hr hkilled hpc rfl
  | malformedGuard | messageGuard | outcomeGuard => exact hguard fun hw => by simp [taskStep, hw]
  | handshaking n sentTs =>
    exact hmove (a := { tick := false, events := [.expired] }) ⟨rfl, rfl, rfl⟩ rfl
  | shuffling d parsed now =>
    refine hmove (a := { tick := false, order := enabledAddrs S.settings parsed }) ⟨rfl, rfl, rfl⟩ ?_
    simp [taskStep, List.isPerm_iff]
  | upserting d count now rest => cases rest <;> exact hmove lull_calm rfl
  | connecting | resending =>
    refine hmove lull_calm ?_
    simp only [taskStep]
    split <;> rfl
  | _ => exact hmove lull_calm rfl

/-- A worker goes on, has ended, or waits for a key. -/
theorem worker_moves (hr : Reach (program S) ok (start S) c) (hkilled : c.shared.killed = false)
    (hsp : c.shared.spawned = true) {t : Transport} {p : WorkerPc}
    (hpc : Pc.worker t p ∈ c.threads) :
    SomeoneMoves S c ∨ p.ended = true ∨
      p = .receiving ∧ (c.shared.queue t).items = [] ∧ (c.shared.queue t).closed = false := by
  have hmove : (∀ k q, p ≠ .task k q) → p.ended = false →
      (loopStep S c.shared t p).isSome = true → SomeoneMoves S c := by
    intro hq hend h
    refine ⟨_, hpc, trivial, lull, lull_calm, ?_⟩
    cases p with
    | task k q => exact absurd rfl (hq k q)
    | _ => simpa [program, hkilled, workerStep, hsp, hend, lull] using h
  cases p with
  | task k q => exact .inl (task_moves hr hkilled hpc)
  | exited | died => exact .inr (.inl rfl)
  | receiving =>
    cases hitems : (c.shared.queue t).items with
    | cons k rest =>
      exact .inl (hmove (fun k q h => by cases h) rfl (by simp [loopStep, hitems]))
    | nil =>
      cases hclosed : (c.shared.queue t).closed with
      | true => exact .inl (hmove (fun k q h => by cases h) rfl (by simp [loopStep, hitems, hclosed]))
      | false => exact .inr (.inr ⟨rfl, rfl, rfl⟩)
  | top | reserving =>
    refine .inl (hmove (fun k q h => by cases h) rfl ?_)
    simp only [loopStep]
    split <;> rfl
  | _ => exact .inl (hmove (fun k q h => by cases h) rfl rfl)

end Workers

/-! ## Halting -/

/-- The thread is about to close the queues. -/
def Pc.halting : Pc → Bool
  | .worker _ (.crashed _) | .worker _ (.crashedShutdown _) | .worker _ (.crashedFinish ..)
  | .worker _ .crashedClose => true
  | .signal p => p.busy
  | .main (.joinFailed _) | .main (.joinShutdown _) | .main (.joinClose _) => true
  | _ => false

/-- The run is to end. -/
def Shared.raised (sh : Shared) : Bool := sh.shutdown || sh.workerFailed || sh.panicked

/-- The queues are closed, or the main task or this thread will close them. -/
def Halts (sh : Shared) (pc : Pc) : Prop :=
  (∀ t, (sh.queue t).closed = true) ∨ 0 < sh.failedJoins ∨ pc.halting = true

section Halting
variable {S : Setup} {sh sh' : Shared} {pc pc' : Pc} {a : Answer}

theorem mainStep_halts {p p' : MainPc} (h : mainStep S sh a p = some (sh', p'))
    (hp : (Pc.main p).halting = true) : Halts sh' (.main p') := by
  cases p with
  | joinFailed | joinShutdown => cases h; exact .inr (.inr rfl)
  | joinClose => cases h; exact .inl fun _ => rfl
  | _ => cases hp

theorem loopStep_halts {t : Transport} {p p' : WorkerPc} (h : loopStep S sh t p = some (sh', p'))
    (hp : (Pc.worker t p).halting = true) : Halts sh' (.worker t p') := by
  cases loopStep_cases h with
  | crash | shutdown | crashFinish | crashFinished => exact .inr (.inr rfl)
  | crashClose => exact .inl fun _ => rfl
  | _ => cases hp

/-- What is to close the queues goes on, or has closed them. -/
theorem Halts.step (h : program S sh pc a = some (sh', pc')) (hh : Halts sh pc) : Halts sh' pc' := by
  rcases hh with hclosed | hjoins | hhalt
  · exact .inl fun t => (step_effect h).closed (hclosed t)
  · -- a join that has failed is still there, or the main task sees it
    rcases program_cases h with ⟨p, p', rfl, rfl, hs⟩ | ⟨p, p', rfl, rfl, hs⟩ |
      ⟨p, p', rfl, rfl, hs⟩ | ⟨L, rfl, rfl, -, rfl⟩ | ⟨t, p, p', rfl, rfl, hs⟩
    · rcases mainStep_failedJoins hs with heq | ⟨n, rfl⟩
      · exact .inr (.inl (heq ▸ hjoins))
      · exact .inr (.inr rfl)
    · obtain ⟨_, _, _, _, rfl⟩ := signalStep_frame hs
      exact .inr (.inl hjoins)
    · obtain ⟨_, _, _, _, _, rfl⟩ := checkpointStep_frame hs
      exact .inr (.inl hjoins)
    · exact .inr (.inl hjoins)
    · rcases workerStep_cases hs with ⟨k, q, rfl, -, rfl, rfl⟩ | ⟨k, q, next, rfl, -, hstep, rfl⟩ |
        ⟨-, -, -, -, rfl, rfl⟩ | ⟨-, -, -, hstep⟩
      · exact .inr (.inr rfl)
      · obtain ⟨_, _, _, _, _, _, rfl⟩ := (taskStep_frame hstep).eq
        exact .inr (.inl hjoins)
      · exact .inr (.inl (Nat.succ_pos _))
      · obtain ⟨_, _, _, _, _, _, _, rfl, -⟩ := loopStep_frame hstep
        exact .inr (.inl hjoins)
  · rcases program_cases h with ⟨p, p', rfl, rfl, hs⟩ | ⟨p, p', rfl, rfl, hs⟩ |
      ⟨p, p', rfl, rfl, hs⟩ | ⟨L, rfl, rfl, -, rfl⟩ | ⟨t, p, p', rfl, rfl, hs⟩
    · exact mainStep_halts hs hhalt
    · cases p with
      | storing => cases hs; exact .inr (.inr rfl)
      | closing => cases hs; exact .inl fun _ => rfl
      | _ => cases hhalt
    · cases hhalt
    · cases hhalt
    · rcases workerStep_cases hs with ⟨k, q, rfl, -, rfl, rfl⟩ | ⟨k, q, next, rfl, -, hstep, rfl⟩ |
        ⟨-, -, -, -, rfl, rfl⟩ | ⟨-, -, -, hstep⟩
      · exact .inr (.inr rfl)
      · cases hhalt
      · exact .inr (.inl (Nat.succ_pos _))
      · exact loopStep_halts hstep hhalt

/-- Whoever says that the run is to end sees to it. -/
theorem raises (h : program S sh pc a = some (sh', pc')) (hr : sh'.raised = true) :
    sh.raised = true ∨ Halts sh' pc' := by
  rcases program_cases h with ⟨p, p', rfl, rfl, hs⟩ | ⟨p, p', rfl, rfl, hs⟩ |
    ⟨p, p', rfl, rfl, hs⟩ | ⟨L, rfl, rfl, -, rfl⟩ | ⟨t, p, p', rfl, rfl, hs⟩
  · cases p with
    | joinFailed | joinShutdown => cases hs; exact .inr (.inr (.inr rfl))
    | seeding rest => cases rest <;> (cases hs; exact .inl hr)
    | seedEnqueue rest k e =>
      cases hs
      obtain ⟨store, queue, enqueued, he⟩ := enqueueStep_frame S.digests sh k e
      rw [he] at hr
      exact .inl hr
    | joining joined =>
      simp only [mainStep] at hs
      split at hs
      · cases hs; exact .inl hr
      · split at hs <;> split at hs <;> cases hs <;> exact .inl hr
    | awaitSignals | awaitCheckpoint | stopping | writing =>
      simp only [mainStep] at hs
      split at hs <;> cases hs <;> exact .inl hr
    | flushing r call => obtain ⟨hsh, -⟩ := logStep_effect hs; rw [hsh] at hr; exact .inl hr
    | finished => cases hs
    | _ => cases hs; exact .inl hr
  · cases p with
    | storing => cases hs; exact .inr (.inr (.inr rfl))
    | waiting | armed =>
      simp only [signalStep] at hs
      split at hs <;> cases hs
      exact .inl hr
    | closing => cases hs; exact .inl hr
  · obtain ⟨_, _, _, _, _, rfl⟩ := checkpointStep_frame hs
    exact .inl hr
  · exact .inl hr
  · rcases workerStep_cases hs with ⟨k, q, rfl, -, rfl, rfl⟩ | ⟨k, q, next, rfl, -, hstep, rfl⟩ |
      ⟨-, -, -, -, rfl, rfl⟩ | ⟨-, -, -, hstep⟩
    · exact .inr (.inr (.inr rfl))
    · obtain ⟨_, _, _, _, _, _, rfl⟩ := (taskStep_frame hstep).eq
      exact .inl hr
    · exact .inr (.inr (.inl (Nat.succ_pos _)))
    · cases loopStep_cases hstep with
      | crash | shutdown => exact .inr (.inr (.inr rfl))
      | @discard k f | @discarded k f | @crashFinish k f | @crashFinished k f =>
        obtain ⟨store, queue, he⟩ := finishStep_frame sh k f
        rw [he] at hr
        exact .inl hr
      | _ => exact .inl hr

/-- **A run that is to end has closed its queues, or a thread is about to.** -/
theorem halts {ok : Conf Shared Pc → Nat × Answer → Prop} {c : Conf Shared Pc}
    (hr : Reach (program S) ok (start S) c) (hraised : c.shared.raised = true) :
    ∃ pc ∈ c.threads, Halts c.shared pc := by
  refine hr.invariant (I := fun c => c.shared.raised = true → ∃ pc ∈ c.threads, Halts c.shared pc)
    (fun h => by cases h) ?_ hraised
  intro c a c' _ ih _ hst hraised
  obtain ⟨pc, sh', pc', hpc, hp, rfl⟩ := step_cases hst
  have hmoved : Halts sh' pc' → ∃ u ∈ c.threads.set a.1 pc', Halts sh' u := fun h =>
    ⟨pc', List.mem_set (List.getElem?_eq_some_iff.mp hpc).1 pc', h⟩
  rcases raises hp hraised with hold | hnew
  · obtain ⟨u, hu, hhalts⟩ := ih hold
    by_cases hsame : u = pc
    · subst hsame
      exact hmoved (hhalts.step hp)
    · rcases hhalts with hclosed | hjoins | hhalt
      · exact hmoved (Halts.step hp (.inl hclosed))
      · exact hmoved (Halts.step hp (.inr (.inl hjoins)))
      · exact ⟨u, mem_set_of_ne hpc hu hsame, .inr (.inr hhalt)⟩
  · exact hmoved hnew

end Halting

/-! ## The main task -/

section Main
variable {S : Setup} {ok : Conf Shared Pc → Nat × Answer → Prop} {c : Conf Shared Pc}

/-- What the main task and the tasks it waits for say about the flags between them. -/
def WaitOk (S : Setup) (sh : Shared) : Pc → Prop
  | .main (.seeding _) | .main (.seedEnqueue ..) => sh.checkpointing = false
  | .main (.awaitCheckpoint _) =>
    sh.checkpointing = S.checkpoints ∧ S.checkpoints = true ∧ sh.stopCheckpoint = true
  | .main _ => sh.checkpointing = S.checkpoints
  | .signal p => sh.signalBusy = p.busy
  | .checkpoint .exited => sh.checkpointDone = true
  | _ => True

theorem mainStep_wait {sh sh' : Shared} {a : Answer} {p p' : MainPc}
    (h : mainStep S sh a p = some (sh', p')) (hp : WaitOk S sh (.main p)) :
    WaitOk S sh' (.main p') := by
  cases p with
  | seeding rest =>
    cases rest with
    | nil => cases h; rfl
    | cons k rest =>
      simp only [mainStep, Option.some.injEq, Prod.mk.injEq] at h
      obtain ⟨rfl, rfl⟩ := h
      split <;> exact hp
  | seedEnqueue rest k e =>
    obtain ⟨store, queue, enqueued, he⟩ := enqueueStep_frame S.digests sh k e
    simp only [mainStep, Option.some.injEq, Prod.mk.injEq] at h
    obtain ⟨rfl, rfl⟩ := h
    rw [he]
    split <;> exact hp
  | startCheck | checkWorkers | finalFlush =>
    simp only [mainStep, Option.some.injEq, Prod.mk.injEq] at h
    obtain ⟨rfl, rfl⟩ := h
    split <;> exact hp
  | joining joined =>
    simp only [mainStep] at h
    split at h
    · cases h; exact hp
    · split at h <;> split at h <;> cases h <;> exact hp
  | awaitSignals | writing =>
    simp only [mainStep] at h
    split at h <;> cases h <;> exact hp
  | stopping r =>
    simp only [mainStep] at h
    split at h <;> cases h
    · rename_i hcp; exact ⟨hp, hcp, rfl⟩
    · exact hp
  | awaitCheckpoint r =>
    simp only [mainStep] at h
    split at h <;> cases h
    exact hp.1
  | flushing r call =>
    obtain ⟨hsh, ⟨_, rfl⟩ | ⟨res, rfl⟩⟩ := logStep_effect h
    · rw [hsh]; exact hp
    · rw [hsh]; cases res <;> exact hp
  | finished => cases h
  | _ => cases h; exact hp

/-- The workers, the Ctrl+C task and the checkpoint leave the flags of the main task alone. -/
theorem program_wait {sh sh' : Shared} {pc pc' : Pc} {a : Answer}
    (h : program S sh pc a = some (sh', pc')) (hpc : ∀ p, pc ≠ .main p) :
    sh'.checkpointing = sh.checkpointing ∧ sh'.stopCheckpoint = sh.stopCheckpoint := by
  rcases program_cases h with ⟨p, p', rfl, rfl, hs⟩ | ⟨p, p', rfl, rfl, hs⟩ |
    ⟨p, p', rfl, rfl, hs⟩ | ⟨L, rfl, rfl, -, rfl⟩ | ⟨t, p, p', rfl, rfl, hs⟩
  · exact absurd rfl (hpc p)
  · obtain ⟨_, _, _, _, rfl⟩ := signalStep_frame hs; exact ⟨rfl, rfl⟩
  · obtain ⟨_, _, _, _, _, rfl⟩ := checkpointStep_frame hs; exact ⟨rfl, rfl⟩
  · exact ⟨rfl, rfl⟩
  · rcases workerStep_cases hs with ⟨k, q, rfl, -, rfl, rfl⟩ | ⟨k, q, next, rfl, -, hstep, rfl⟩ |
      ⟨-, -, -, -, rfl, rfl⟩ | ⟨-, -, -, hstep⟩
    · exact ⟨rfl, rfl⟩
    · obtain ⟨_, _, _, _, _, _, rfl⟩ := (taskStep_frame hstep).eq; exact ⟨rfl, rfl⟩
    · exact ⟨rfl, rfl⟩
    · obtain ⟨_, _, _, _, _, _, _, rfl, -⟩ := loopStep_frame hstep; exact ⟨rfl, rfl⟩

theorem waits (hr : Reach (program S) ok (start S) c) : Holds (WaitOk S) c := by
  refine hr.invariant (I := Holds (WaitOk S)) ?_ ?_
  · intro i pc hpc
    rcases mem_start (List.mem_of_getElem? hpc) with rfl | rfl | rfl | rfl | ⟨t, rfl, -⟩ <;>
      first | rfl | trivial
  · intro c a c' hr ih _ hst
    refine ih.step hst ?_ ?_
    · intro pc sh' pc' hpc hp
      have hi := ih _ _ hpc
      rcases program_cases hp with ⟨p, p', rfl, rfl, hs⟩ | ⟨p, p', rfl, rfl, hs⟩ |
        ⟨p, p', rfl, rfl, hs⟩ | ⟨L, rfl, rfl, -, -⟩ | ⟨t, p, p', rfl, rfl, -⟩
      · exact mainStep_wait hs hi
      · cases p with
        | waiting => simp only [signalStep] at hs; split at hs <;> cases hs; rfl
        | storing => cases hs; exact hi
        | closing => cases hs; rfl
        | armed => simp only [signalStep] at hs; split at hs <;> cases hs; exact hi
      · cases p' with
        | exited =>
          cases p with
          | leaving => cases hs; rfl
          | idle =>
            simp only [checkpointStep] at hs
            repeat' split at hs
            all_goals cases hs
            rfl
          | cloning processed durable rest acc => cases rest <;> cases hs
          | acquiring | flushing =>
            exfalso
            simp only [checkpointStep, logStep, Option.map_eq_some_iff] at hs
            grind
          | marking | snapshotting | publishing | exited => cases hs
        | _ => trivial
      · trivial
      · trivial
    · intro pc sh' pc' j u hpc hp hj hu hold
      cases u with
      | main q =>
        obtain ⟨hcp, hstop⟩ := program_wait hp fun p hpm => by
          subst hpm
          exact hj ((main_index hr hu).trans (main_index hr hpc).symm)
        cases q <;> simp only [WaitOk, hcp, hstop] at hold ⊢ <;> exact hold
      | signal q =>
        have hbusy : sh'.signalBusy = c.shared.signalBusy := by
          rcases program_cases hp with ⟨p, p', rfl, rfl, hs⟩ | ⟨p, p', rfl, rfl, hs⟩ |
            ⟨p, p', rfl, rfl, hs⟩ | ⟨L, rfl, rfl, -, rfl⟩ | ⟨t, p, p', rfl, rfl, hs⟩
          · exact (mainStep_frame hs).2.2.2.2.2.1
          · exact absurd ((signal_index hr hu).trans (signal_index hr hpc).symm) hj
          · obtain ⟨_, _, _, _, _, rfl⟩ := checkpointStep_frame hs; rfl
          · rfl
          · exact (workerStep_frame hs).2.1
        exact hbusy.trans hold
      | checkpoint q =>
        have hdone : sh'.checkpointDone = c.shared.checkpointDone := by
          rcases program_cases hp with ⟨p, p', rfl, rfl, hs⟩ | ⟨p, p', rfl, rfl, hs⟩ |
            ⟨p, p', rfl, rfl, hs⟩ | ⟨L, rfl, rfl, -, rfl⟩ | ⟨t, p, p', rfl, rfl, hs⟩
          · exact (mainStep_frame hs).2.2.2.2.2.2.1
          · obtain ⟨_, _, _, _, rfl⟩ := signalStep_frame hs; rfl
          · exact absurd ((checkpoint_index hr hu).trans (checkpoint_index hr hpc).symm) hj
          · rfl
          · exact (workerStep_frame hs).2.2.2.2.2
        cases q with
        | exited => exact hdone.trans hold
        | _ => trivial
      | _ => trivial

/-- A thread that is about to close the queues can move. -/
theorem halting_moves (hr : Reach (program S) ok (start S) c) (hkilled : c.shared.killed = false)
    (hsp : c.shared.spawned = true) {pc : Pc} (hpc : pc ∈ c.threads) (hh : pc.halting = true) :
    SomeoneMoves S c := by
  cases pc with
  | worker t p =>
    rcases worker_moves hr hkilled hsp hpc with hmove | hend | ⟨rfl, -⟩
    · exact hmove
    · cases p <;> first | (cases hend; done) | cases hh
    · cases hh
  | signal p =>
    refine ⟨_, hpc, hh, lull, lull_calm, ?_⟩
    cases p <;> cases hh <;> simp [program, hkilled, signalStep]
  | main p =>
    refine ⟨_, hpc, trivial, lull, lull_calm, ?_⟩
    cases p <;> cases hh <;> simp [program, hkilled, mainStep]
  | _ => cases hh

/-- While a worker runs, a worker or whoever is about to close the queues can move. -/
theorem running_moves (hseeds : S.SeedsEnabled) (hr : Reachable (program S) (start S) c)
    (hkilled : c.shared.killed = false) {n : Nat} (hmain : c.threads[0]? = some (.main (.joining n)))
    (hjoins : c.shared.failedJoins = 0) {t : Transport} {p : WorkerPc}
    (hpc : Pc.worker t p ∈ c.threads) (hrun : p.ended = false) : SomeoneMoves S c := by
  have hsp : c.shared.spawned = true := phases hr _ _ hmain
  by_contra hstuck
  -- every worker has ended or waits for a key
  have hidle : ∀ {t : Transport} {p : WorkerPc}, Pc.worker t p ∈ c.threads → p.ended = false →
      p = .receiving ∧ (c.shared.queue t).items = [] ∧ (c.shared.queue t).closed = false :=
    fun hu hend => ((worker_moves hr hkilled hsp hu).resolve_left hstuck).resolve_left (by simp [hend])
  have hopen := (hidle hpc hrun).2.2
  -- nothing has ended the run
  have hraised : c.shared.raised = false := by
    by_contra hraised
    obtain ⟨u, hu, hclosed | hfailed | hhalt⟩ := halts hr (by simpa using hraised)
    · rw [hclosed t] at hopen; cases hopen
    · omega
    · exact hstuck (halting_moves hr hkilled hsp hu hhalt)
  simp only [Shared.raised, Bool.or_eq_false_iff] at hraised
  obtain ⟨⟨hshutdown, -⟩, hpanicked⟩ := hraised
  have hr' := reach_noPanic hr hpanicked
  have hb := books hr' (not_panicked hr')
  -- no key is left in a queue, since a worker of its transport would take it
  have hempty : ∀ t, (c.shared.queue t).items = [] := by
    intro t
    by_contra hitems
    obtain ⟨q, hq, hend⟩ := (work_routed hseeds hr).served t hitems hshutdown hpanicked
    exact hitems (hidle hq hend).2.1
  -- nobody has work in hand
  have hweight : ∀ u ∈ c.threads, u.weight = 0 ∧ u.inFinish ≠ some .close := by
    intro u hu
    cases u with
    | worker t p =>
      by_cases hend : p.ended = true
      · cases p <;> first | (cases hend; done) | exact ⟨rfl, fun h => by cases h⟩
      · obtain ⟨rfl, -⟩ := hidle hu (by simpa using hend)
        exact ⟨rfl, fun h => by cases h⟩
    | main q =>
      have hq := main_unique hr hmain hu
      subst hq
      exact ⟨rfl, fun h => by cases h⟩
    | _ => exact ⟨rfl, fun h => by cases h⟩
  have hzero : c.shared.store.outstanding = 0 := by
    rw [outstanding_eq hb, load_eq_zero fun u hu => (hweight u hu).1]
    simp [Shared.backlog, hempty]
  rcases closed_of_zero hr' hsp hzero with hclosed | ⟨u, hu, hclose⟩
  · rw [hclosed t] at hopen; cases hopen
  · exact (hweight u hu).2 hclose

/-- A worker is still running, if not all are joined and none is there to be joined. -/
theorem worker_running (hr : Reach (program S) ok (start S) c) {n : Nat}
    (hmain : c.threads[0]? = some (.main (.joining n))) (hn : n ≠ S.settings.concurrency.total)
    (hreturned : c.shared.returned = 0) (hjoins : c.shared.failedJoins = 0) :
    ∃ t p, Pc.worker t p ∈ c.threads ∧ p.ended = false := by
  by_contra hno
  have hended : load Pc.running c.threads = 0 := by
    refine load_eq_zero fun u hu => ?_
    cases u with
    | worker t p =>
      have hend : p.ended = true := by
        by_contra hrun
        exact hno ⟨t, p, hu, by simpa using hrun⟩
      simp [Pc.running, hend]
    | _ => rfl
  have hsum := joins hr
  have hworkers := worker_count hr
  have hjoined := joined_count hr hmain
  have hsplit := load_cancel (f := Pc.joins S) (g := fun pc => -Pc.joined S pc)
    (w := fun pc => Pc.isWorker pc + -Pc.running pc) (fun pc => by
      cases pc with
      | worker t p => cases hp : p.ended <;> simp [Pc.joins, Pc.joined, Pc.isWorker, Pc.running, hp]
      | _ => simp [Pc.joins, Pc.joined, Pc.isWorker, Pc.running]) c.threads
  rw [load_neg, load_add, load_neg] at hsplit
  simp only [total, joinLedger, hreturned, hjoins] at hsum
  simp only [MainPc.joined] at hjoined
  omega

/-- **The crawl is never stuck.**  In every state of every run, whatever panics, peers and presses of
    Ctrl+C have led there, either the process was killed, or the main task has finished, or some
    task can take a step in a lull. -/
theorem never_stuck (hseeds : S.SeedsEnabled) (hr : Reachable (program S) (start S) c)
    (hkilled : c.shared.killed = false) :
    c.threads[0]? = some (.main .finished) ∨ SomeoneMoves S c := by
  obtain ⟨pc, hpc, hkind⟩ := thread_at hr (i := 0) (κ := .main) rfl
  cases pc with
  | main p =>
    have hmem := List.mem_of_getElem? hpc
    have hmove : ∀ {a : Answer}, a.Calm → (mainStep S c.shared a p).isSome = true →
        c.threads[0]? = some (.main .finished) ∨ SomeoneMoves S c := by
      intro a ha h
      exact .inr ⟨_, hmem, trivial, a, ha, by simpa [program, hkilled] using h⟩
    have hwait : WaitOk S c.shared (.main p) := waits hr _ _ hpc
    cases p with
    | finished => exact .inl hpc
    | joining n =>
      by_cases hall : n = S.settings.concurrency.total
      · exact hmove lull_calm (by simp [mainStep, hall])
      · by_cases hfailed : 0 < c.shared.failedJoins
        · exact hmove (a := { tick := false, joinError := true }) ⟨rfl, rfl, rfl⟩
            (by simp [mainStep, hall, hfailed])
        · by_cases hreturned : 0 < c.shared.returned
          · exact hmove lull_calm (by simp [mainStep, hall, lull, hreturned])
          · obtain ⟨t, p, hp, hrun⟩ := worker_running hr hpc hall (by omega) (by omega)
            exact .inr (running_moves hseeds hr hkilled hpc (by omega) hp hrun)
    | awaitSignals =>
      cases hbusy : c.shared.signalBusy with
      | false => exact hmove lull_calm (by simp [mainStep, hbusy])
      | true =>
        obtain ⟨u, hu, hukind⟩ := thread_at hr (i := 1) (κ := .signal) rfl
        cases u with
        | signal q =>
          have hq : c.shared.signalBusy = q.busy := waits hr _ _ hu
          exact .inr (halting_moves hr hkilled (phases hr _ _ hpc) (List.mem_of_getElem? hu)
            (hq.symm.trans hbusy))
        | _ => cases hukind
    | awaitCheckpoint r =>
      obtain ⟨hcp, hcps, hstop⟩ := hwait
      cases hdone : c.shared.checkpointDone with
      | true => exact hmove lull_calm (by simp [mainStep, hdone])
      | false =>
        obtain ⟨u, hu, hukind⟩ := thread_at hr (i := 2) (κ := .checkpoint) rfl
        have humem := List.mem_of_getElem? hu
        cases u with
        | checkpoint q =>
          refine .inr ?_
          by_cases hguarded : q.guarded = true
          · refine guard_moves hr hkilled ?_
            have hsum := (barrier hr).writers
            have hle := le_load Pc.writes_nonneg humem
            by_contra hno
            simp [Pc.writes, hguarded, Shared.writers, hno] at hle hsum
            omega
          · have hcmove : (checkpointStep S c.shared lull q).isSome = true → SomeoneMoves S c :=
              fun h => ⟨_, humem, trivial, lull, lull_calm, by simpa [program, hkilled] using h⟩
            cases q with
            | idle => exact hcmove (by simp [checkpointStep, hcp, hcps, hstop, lull])
            | acquiring processed =>
              cases hw : c.shared.writer with
              | true => exact guard_moves hr hkilled hw
              | false =>
                -- all workers have ended, so nobody reads
                have hreaders : c.shared.readers = 0 := by
                  have hsum := (barrier hr).readers
                  rw [load_eq_zero fun v hv => ?_] at hsum
                  · exact_mod_cast hsum.symm
                  · cases v with
                    | worker t p =>
                      have hend := (joined_all hr hpc rfl).2.2 t p hv
                      cases p <;> first | (cases hend; done) | rfl
                    | _ => rfl
                exact hcmove (by simp [checkpointStep, hw, hreaders])
            | publishing m => exact hcmove rfl
            | exited =>
              have hexit : c.shared.checkpointDone = true := waits hr _ _ hu
              rw [hdone] at hexit
              cases hexit
            | _ => exact absurd rfl hguarded
        | _ => cases hukind
    | flushing r call => exact .inr (log_moves hr hkilled hmem rfl)
    | seeding rest => cases rest <;> exact hmove lull_calm rfl
    | stopping r =>
      refine hmove lull_calm ?_
      simp only [mainStep]
      split <;> rfl
    | writing r logOk durable =>
      refine hmove lull_calm ?_
      simp only [mainStep]
      split <;> rfl
    | _ => exact hmove lull_calm rfl
  | _ => cases hkind

end Main

end P2PCrawler
