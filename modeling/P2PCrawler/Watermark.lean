import P2PCrawler.AddrLog
import P2PCrawler.Lib.ThreadPool
import Mathlib.Data.List.Induction

/-!
# The durable watermark

Ids are drawn under the mutex and the mutex is kept until the writer has answered, so at most one
command is under way and the pieces in the file are numbered without gaps.  What a flush reports
is the id of the last record that was written completely, which says nothing about the earlier
ones.

* `Turn` — where the call that holds the mutex stands.
* `LogInv` — the writer's books and the call that holds the mutex; `LogInv.move` keeps it.
* `logProgram` — any number of producers with any calls, and the writer thread.

## Results

* `completePrefix_iff` — over any numbered pieces.
* `watermark_complete_iff` — **the records up to the reported id are complete, exactly when no
  write has succeeded after a failed one**.
-/

set_option autoImplicit false

namespace P2PCrawler

open ThreadPool

/-! ## Pieces -/

/-- The pieces carry the ids from one on, in order. -/
def Numbered (ps : List Piece) : Prop := ps.map (·.eventId) = List.range' 1 ps.length

/-- The id of the last complete record, zero where there is none. -/
def lastComplete (ps : List Piece) : Nat :=
  ((ps.filter (·.torn.isNone)).getLast?.map (·.eventId)).getD 0

/-- No write has succeeded after a failed one. -/
def NoRecovery (ps : List Piece) : Prop := ps.Pairwise fun p q => q.torn = none → p.torn = none

/-- The first `w` pieces are the complete records of the events `1, …, w`, in this order. -/
structure CompletePrefix (ps : List Piece) (w : Nat) : Prop where
  ids : (ps.take w).map (·.eventId) = List.range' 1 w
  whole : ∀ p ∈ ps.take w, p.torn = none

theorem numbered_concat {ps : List Piece} {p : Piece} :
    Numbered (ps ++ [p]) ↔ Numbered ps ∧ p.eventId = ps.length + 1 := by
  unfold Numbered
  rw [List.map_append, List.length_append, List.length_singleton, List.range'_1_concat]
  constructor
  · intro h
    obtain ⟨hps, hp⟩ := List.append_inj' h rfl
    refine ⟨hps, ?_⟩
    simp only [List.map_cons, List.map_nil, List.cons.injEq, and_true] at hp
    omega
  · rintro ⟨hps, hp⟩
    rw [hps, List.map_singleton, hp, Nat.add_comm]

theorem lastComplete_concat_whole {ps : List Piece} {p : Piece} (hp : p.torn = none) :
    lastComplete (ps ++ [p]) = p.eventId := by
  simp [lastComplete, hp]

theorem lastComplete_concat_torn {ps : List Piece} {p : Piece} {kept : Nat} (hp : p.torn = some kept) :
    lastComplete (ps ++ [p]) = lastComplete ps := by
  simp [lastComplete, hp]

theorem lastComplete_le {ps : List Piece} (hn : Numbered ps) : lastComplete ps ≤ ps.length := by
  induction ps using List.reverseRecOn with
  | nil => exact Nat.le_refl _
  | append_singleton ps p ih =>
    obtain ⟨hps, hid⟩ := numbered_concat.mp hn
    rw [List.length_append, List.length_singleton]
    cases hp : p.torn with
    | none => rw [lastComplete_concat_whole hp, hid]
    | some kept =>
      rw [lastComplete_concat_torn hp]
      have := ih hps
      omega

/-- Where all are complete, the last one has the highest id. -/
theorem eventId_le_lastComplete {ps : List Piece} (hn : Numbered ps) (hwhole : ∀ p ∈ ps, p.torn = none) :
    ∀ p ∈ ps, p.eventId ≤ lastComplete ps := by
  induction ps using List.reverseRecOn with
  | nil => exact fun p hp => by cases hp
  | append_singleton ps q ih =>
    obtain ⟨hps, hid⟩ := numbered_concat.mp hn
    have hold : ∀ p ∈ ps, p.torn = none := fun p hp => hwhole p (List.mem_append_left _ hp)
    rw [lastComplete_concat_whole (hwhole q (List.mem_append_right _ (List.mem_singleton.mpr rfl)))]
    intro p hp
    rcases List.mem_append.mp hp with hp | hp
    · have hle := ih hps hold p hp
      have hlast := lastComplete_le hps
      omega
    · rw [List.mem_singleton.mp hp]

/-- **Complete up to the last complete record.**  Numbered pieces are complete up to the last
    complete one exactly when none is complete after a torn one. -/
theorem completePrefix_iff {ps : List Piece} (hn : Numbered ps) :
    CompletePrefix ps (lastComplete ps) ↔ NoRecovery ps := by
  induction ps using List.reverseRecOn with
  | nil =>
    constructor
    · intro _
      exact .nil
    · intro _
      refine ⟨rfl, fun p hp => ?_⟩
      rw [List.take_nil] at hp
      cases hp
  | append_singleton ps p ih =>
    obtain ⟨hps, hid⟩ := numbered_concat.mp hn
    have hsnoc : NoRecovery (ps ++ [p]) ↔
        NoRecovery ps ∧ ∀ q ∈ ps, p.torn = none → q.torn = none := by
      simp [NoRecovery, List.pairwise_append]
    rw [hsnoc]
    cases hp : p.torn with
    | none =>
      -- the new record is the last complete one: all pieces count
      have hall : (ps ++ [p]).take p.eventId = ps ++ [p] := by
        refine List.take_of_length_le ?_
        rw [List.length_append, List.length_singleton, hid]
      rw [lastComplete_concat_whole hp]
      constructor
      · rintro ⟨-, hwhole⟩
        rw [hall] at hwhole
        have hold : ∀ q ∈ ps, q.torn = none := fun q hq => hwhole q (List.mem_append_left _ hq)
        refine ⟨?_, fun q hq _ => hold q hq⟩
        exact List.pairwise_of_forall_mem_list fun q hq _ _ _ => hold q hq
      · rintro ⟨-, hold⟩
        constructor
        · rw [hall, hn, List.length_append, List.length_singleton, hid]
        · intro q hq
          rw [hall, List.mem_append, List.mem_singleton] at hq
          rcases hq with hq | rfl
          · exact hold q hq rfl
          · exact hp
    | some kept =>
      -- a torn record changes nothing below the watermark
      have htake : (ps ++ [p]).take (lastComplete ps) = ps.take (lastComplete ps) :=
        List.take_append_of_le_length (lastComplete_le hps)
      rw [lastComplete_concat_torn hp]
      constructor
      · rintro ⟨hids, hwhole⟩
        rw [htake] at hids hwhole
        refine ⟨(ih hps).mp ⟨hids, hwhole⟩, ?_⟩
        intro q _ h
        cases h
      · rintro ⟨hno, -⟩
        obtain ⟨hids, hwhole⟩ := (ih hps).mpr hno
        exact ⟨by rw [htake]; exact hids, by rw [htake]; exact hwhole⟩

/-- Up to the end of event `w` the file consists of the complete records `1, …, w`. -/
structure LogState.CompleteUpTo (H : Digests) (L : LogState) (w : Nat) : Prop
    extends CompletePrefix L.written w where
  file : ∃ rest, L.file H = (L.written.take w).flatMap (·.record H) ++ rest

theorem CompletePrefix.upTo {L : LogState} {w : Nat} (h : CompletePrefix L.written w) (H : Digests) :
    L.CompleteUpTo H w := by
  refine ⟨h, (L.written.drop w).flatMap (·.bytes H), ?_⟩
  have hrecords : (L.written.take w).flatMap (·.bytes H) = (L.written.take w).flatMap (·.record H) := by
    refine List.flatMap_congr fun p hp => ?_
    unfold Piece.bytes
    rw [h.whole p hp]
  unfold LogState.file
  rw [← hrecords, ← List.flatMap_append, List.take_append_drop]

/-! ## The call that holds the mutex -/

/-- No command is under way. -/
def Idle (L : LogState) : Prop := L.channel = [] ∧ L.nextEventId = L.written.length + 1

/-- The writer has served the request and answered `res`. -/
def Answered (L : LogState) (eventId : Nat) (res : Option Nat) : LogRequest → Prop
  | .write event => ∃ torn, L.written.getLast? = some ⟨eventId, event, torn⟩ ∧
      eventId = L.written.length ∧ res = if torn = none then some eventId else none
  | .flush => eventId = L.written.length + 1 ∧ (res = none ∨ res = some L.durableEventId)

/-- Where the call that holds the mutex stands. -/
def Turn (L : LogState) : LogCall → Prop
  | .lock _ => True
  | .send r eventId =>
    L.channel = [] ∧ eventId = L.written.length + 1 ∧ L.nextEventId = r.advance eventId
  | .wait r eventId ticket =>
    ticket < L.tickets ∧ L.nextEventId = r.advance eventId ∧
      ((L.channel = [r.command eventId ticket] ∧ L.replies.lookup ticket = none ∧
          eventId = L.written.length + 1) ∨
        (L.channel = [] ∧ ∃ res, L.replies.lookup ticket = some res ∧ Answered L eventId res r))

/-- The books of the writer. -/
structure WriterOk (L : LogState) : Prop where
  numbered : Numbered L.written
  durable : L.durableEventId = lastComplete L.written
  fresh : ∀ t, L.tickets ≤ t → L.replies.lookup t = none

/-- The log and the calls in progress, by thread: at most one call holds the mutex. -/
inductive LogInv (L : LogState) (calls : Nat → Option LogCall) : Prop
  | free (hw : WriterOk L) (hl : L.locked = false) (hidle : Idle L)
      (hnone : ∀ j k, calls j = some k → k.holds = false)
  | held (i : Nat) (k : LogCall) (hw : WriterOk L) (hl : L.locked = true) (hk : calls i = some k)
      (hh : k.holds = true) (ht : Turn L k)
      (hothers : ∀ j k', j ≠ i → calls j = some k' → k'.holds = false)

/-- What a step of a thread may do to the log and to the call the thread is in. -/
inductive LogMove (H : Digests) (L : LogState) : Option LogCall → LogState → Option LogCall → Prop
  | aside {k : Option LogCall} : LogMove H L k L k
  | enter {r : LogRequest} : LogMove H L none L (some (.lock r))
  | next {k k' : LogCall} {L' : LogState} (hs : k.step L = some (L', .pending k')) :
      LogMove H L (some k) L' (some k')
  | leave {k : LogCall} {L' : LogState} {res : Option Nat} (hs : k.step L = some (L', .returned res)) :
      LogMove H L (some k) L' none
  | serve {fault : Option Nat} {synced : Bool} {L' : LogState}
      (hs : L.writerStep H fault synced = some L') : LogMove H L none L' none

theorem WriterOk.init : WriterOk {} := ⟨rfl, rfl, fun _ _ => rfl⟩

theorem LogInv.init {calls : Nat → Option LogCall} (h : ∀ j, calls j = none) : LogInv {} calls := by
  refine .free .init rfl ⟨rfl, rfl⟩ fun j k hk => ?_
  rw [h j] at hk
  cases hk

/-- A call that takes a step without returning. -/
theorem LogCall.step_pending {L L' : LogState} {k k' : LogCall}
    (h : k.step L = some (L', .pending k')) :
    (∃ r, k = .lock r ∧ L.locked = false ∧ k' = .send r L.nextEventId ∧
      L' = { L with locked := true, nextEventId := r.advance L.nextEventId }) ∨
    ∃ r eventId, k = .send r eventId ∧ k' = .wait r eventId L.tickets ∧
      L' = { L with channel := L.channel ++ [r.command eventId L.tickets], tickets := L.tickets + 1 } := by
  cases k with
  | lock r =>
    simp only [LogCall.step] at h
    split at h <;> cases h
    rename_i hfree
    exact .inl ⟨r, rfl, by simpa using hfree, rfl, rfl⟩
  | send r eventId =>
    simp only [LogCall.step] at h
    split at h <;> cases h
    exact .inr ⟨r, eventId, rfl, rfl, rfl⟩
  | wait r eventId ticket =>
    simp only [LogCall.step] at h
    split at h <;> cases h

/-- A call that returns. -/
theorem LogCall.step_returned {L L' : LogState} {k : LogCall} {res : Option Nat}
    (h : k.step L = some (L', .returned res)) :
    ∃ r eventId ticket, k = .wait r eventId ticket ∧ L.replies.lookup ticket = some res ∧
      L' = { L with locked := false } := by
  cases k with
  | lock r | send r eventId =>
    simp only [LogCall.step] at h
    split at h <;> cases h
  | wait r eventId ticket =>
    simp only [LogCall.step] at h
    split at h <;> cases h
    rename_i hreply
    exact ⟨r, eventId, ticket, rfl, hreply, rfl⟩

/-- The writer serves the one command under way. -/
theorem Turn.serve {H : Digests} {L L' : LogState} {k : LogCall} {fault : Option Nat} {synced : Bool}
    (hw : WriterOk L) (hh : k.holds = true) (ht : Turn L k)
    (hs : L.writerStep H fault synced = some L') :
    WriterOk L' ∧ Turn L' k ∧ L'.locked = L.locked := by
  cases k with
  | lock r => cases hh
  | send r eventId =>
    obtain ⟨hch, -⟩ := ht
    simp only [LogState.writerStep, hch] at hs
    cases hs
  | wait r eventId ticket =>
    obtain ⟨htick, hnext, ⟨hch, -, hid⟩ | ⟨hch, -⟩⟩ := ht
    · have hfresh : ∀ (res : Option Nat) (t : Nat), L.tickets ≤ t →
          (L.replies.insert ticket res).lookup t = none := by
        intro res t hle
        rw [AList.lookup_insert_ne (by omega)]
        exact hw.fresh t hle
      cases r with
      | write event =>
        have hnum : ∀ torn, Numbered (L.written ++ [⟨eventId, event, torn⟩]) :=
          fun torn => numbered_concat.mpr ⟨hw.numbered, hid⟩
        simp only [LogState.writerStep, hch, LogRequest.command] at hs
        cases fault with
        | none =>
          cases hs
          refine ⟨⟨hnum _, ?_, hfresh _⟩, ⟨htick, hnext, .inr ?_⟩, rfl⟩
          · show eventId = lastComplete (L.written ++ [⟨eventId, event, none⟩])
            exact (lastComplete_concat_whole (p := ⟨eventId, event, none⟩) rfl).symm
          · refine ⟨rfl, _, AList.lookup_insert _, none, List.getLast?_concat, ?_, by simp⟩
            rw [List.length_append, List.length_singleton, hid]
        | some kept =>
          simp only at hs
          split at hs <;> cases hs
          refine ⟨⟨hnum _, ?_, hfresh _⟩, ⟨htick, hnext, .inr ?_⟩, rfl⟩
          · exact hw.durable.trans (lastComplete_concat_torn rfl).symm
          · refine ⟨rfl, _, AList.lookup_insert _, some kept, List.getLast?_concat, ?_, by simp⟩
            rw [List.length_append, List.length_singleton, hid]
      | flush =>
        simp only [LogState.writerStep, hch, LogRequest.command] at hs
        split at hs <;> cases hs
        · refine ⟨⟨hw.numbered, hw.durable, hfresh _⟩, ⟨htick, hnext, .inr ?_⟩, rfl⟩
          exact ⟨rfl, _, AList.lookup_insert _, hid, .inr rfl⟩
        · refine ⟨⟨hw.numbered, hw.durable, hfresh _⟩, ⟨htick, hnext, .inr ?_⟩, rfl⟩
          exact ⟨rfl, _, AList.lookup_insert _, hid, .inl rfl⟩
    · simp only [LogState.writerStep, hch] at hs
      cases hs

/-- A call that returns leaves nothing under way. -/
theorem Turn.leave {L : LogState} {r : LogRequest} {eventId ticket : Nat} {res : Option Nat}
    (ht : Turn L (.wait r eventId ticket)) (hreply : L.replies.lookup ticket = some res) :
    Idle L ∧ Answered L eventId res r := by
  obtain ⟨-, hnext, ⟨-, hnone, -⟩ | ⟨hch, res', hres, hans⟩⟩ := ht
  · rw [hreply] at hnone; cases hnone
  · rw [hreply] at hres
    cases hres
    refine ⟨⟨hch, ?_⟩, hans⟩
    cases r with
    | write event =>
      obtain ⟨-, -, hid, -⟩ := hans
      rw [hnext, LogRequest.advance, hid]
    | flush => rw [hnext, LogRequest.advance, hans.1]

/-- **One call at a time.**  A move of one thread keeps the invariant. -/
theorem LogInv.move {H : Digests} {L L' : LogState} {calls : Nat → Option LogCall} {i : Nat}
    {k k' : Option LogCall} (hi : LogInv L calls) (hk : calls i = k) (hm : LogMove H L k L' k') :
    LogInv L' (Function.update calls i k') := by
  -- the calls of the other threads stay
  have hothers : ∀ {P : LogCall → Prop} {k' : Option LogCall}, (∀ k₁, k' = some k₁ → P k₁) →
      (∀ j k₁, j ≠ i → calls j = some k₁ → P k₁) →
      ∀ j k₁, Function.update calls i k' j = some k₁ → P k₁ := by
    intro P k' hnew hold j k₁ hj
    by_cases hji : j = i
    · subst hji
      rw [Function.update_self] at hj
      exact hnew k₁ hj
    · rw [Function.update_of_ne hji] at hj
      exact hold j k₁ hji hj
  cases hm with
  | aside => rw [← hk, Function.update_eq_self]; exact hi
  | enter =>
    cases hi with
    | free hw hl hidle hnone =>
      refine .free hw hl hidle (hothers ?_ fun j k₁ _ => hnone j k₁)
      intro k₁ h
      cases h
      rfl
    | held i₀ k₀ hw hl hk₀ hh ht hrest =>
      have hne : i₀ ≠ i := by
        rintro rfl
        rw [hk] at hk₀
        cases hk₀
      refine .held i₀ k₀ hw hl (by rw [Function.update_of_ne hne]; exact hk₀) hh ht ?_
      intro j k₁ hj hcall
      by_cases hji : j = i
      · subst hji
        rw [Function.update_self] at hcall
        cases hcall
        rfl
      · rw [Function.update_of_ne hji] at hcall
        exact hrest j k₁ hj hcall
  | next hs =>
    rename_i k₁ k₂
    rcases LogCall.step_pending hs with ⟨r, rfl, hlocked, rfl, rfl⟩ | ⟨r, eventId, rfl, rfl, rfl⟩
    · cases hi with
      | held i₀ k₀ hw hl => rw [hlocked] at hl; cases hl
      | free hw hl hidle hnone =>
        refine .held i _ ⟨hw.numbered, hw.durable, hw.fresh⟩ rfl (Function.update_self ..) rfl
          ⟨hidle.1, hidle.2, rfl⟩ ?_
        intro j k₁ hj hcall
        rw [Function.update_of_ne hj] at hcall
        exact hnone j k₁ hcall
    · cases hi with
      | free hw hl hidle hnone => have := hnone i _ hk; cases this
      | held i₀ k₀ hw hl hk₀ hh ht hrest =>
        have hii : i = i₀ := by
          by_contra hne
          have := hrest i _ hne hk
          cases this
        subst hii
        rw [hk] at hk₀
        cases hk₀
        obtain ⟨hch, hid, hnext⟩ := ht
        refine .held i _ ⟨hw.numbered, hw.durable, fun t ht => hw.fresh t ?_⟩ hl
          (Function.update_self ..) rfl ⟨Nat.lt_succ_self _, hnext, .inl ⟨?_, ?_, hid⟩⟩ ?_
        · exact Nat.le_of_succ_le ht
        · show L.channel ++ [r.command eventId L.tickets] = [r.command eventId L.tickets]
          rw [hch, List.nil_append]
        · exact hw.fresh _ (Nat.le_refl _)
        · intro j k₁ hj hcall
          rw [Function.update_of_ne hj] at hcall
          exact hrest j k₁ hj hcall
  | leave hs =>
    obtain ⟨r, eventId, ticket, rfl, hreply, rfl⟩ := LogCall.step_returned hs
    cases hi with
    | free hw hl hidle hnone => have := hnone i _ hk; cases this
    | held i₀ k₀ hw hl hk₀ hh ht hrest =>
      have hii : i = i₀ := by
        by_contra hne
        have := hrest i _ hne hk
        cases this
      subst hii
      rw [hk] at hk₀
      cases hk₀
      obtain ⟨hidle, -⟩ := ht.leave hreply
      have hnone : ∀ k₁ : LogCall, none = some k₁ → k₁.holds = false := by
        intro k₁ h
        cases h
      exact .free ⟨hw.numbered, hw.durable, hw.fresh⟩ rfl hidle (hothers hnone hrest)
  | serve hs =>
    rw [← hk, Function.update_eq_self]
    cases hi with
    | free hw hl hidle hnone =>
      simp only [LogState.writerStep, hidle.1] at hs
      cases hs
    | held i₀ k₀ hw hl hk₀ hh ht hrest =>
      obtain ⟨hw', ht', hl'⟩ := ht.serve hw hh hs
      exact .held i₀ k₀ hw' (hl'.trans hl) hk₀ hh ht' hrest

/-! ## Pools of threads that write to a log -/

section Pool
variable {σ π ι : Type}

/-- The call each thread is in. -/
def callsOf (call : π → Option LogCall) (ts : List π) (i : Nat) : Option LogCall := ts[i]?.bind call

theorem callsOf_set (call : π → Option LogCall) {ts : List π} {i : Nat} {t : π} (t' : π)
    (ht : ts[i]? = some t) :
    callsOf call (ts.set i t') = Function.update (callsOf call ts) i (call t') := by
  funext j
  unfold callsOf
  by_cases hj : j = i
  · subst hj
    rw [Function.update_self, List.getElem?_set_self (List.getElem?_eq_some_iff.mp ht).1]
    rfl
  · rw [Function.update_of_ne hj, List.getElem?_set_ne (Ne.symm hj)]

/-- A pool whose threads make log moves keeps the invariant. -/
theorem LogInv.step {P : Program σ π ι} {log : σ → LogState} {call : π → Option LogCall}
    {c c' : Conf σ π} {a : Nat × ι} {H : Digests}
    (hi : LogInv (log c.shared) (callsOf call c.threads)) (hst : ThreadPool.step P c a = some c')
    (hmove : ∀ t sh' t', c.threads[a.1]? = some t → P c.shared t a.2 = some (sh', t') →
      LogMove H (log c.shared) (call t) (log sh') (call t')) :
    LogInv (log c'.shared) (callsOf call c'.threads) := by
  obtain ⟨t, sh', t', ht, hp, rfl⟩ := step_cases hst
  have hk : callsOf call c.threads a.1 = call t := by
    unfold callsOf
    rw [ht]
    rfl
  rw [callsOf_set call t' ht]
  exact hi.move hk (hmove t sh' t' ht hp)

/-- A call that is waiting for its reply holds the mutex, so its turn is known. -/
theorem LogInv.turn {L : LogState} {calls : Nat → Option LogCall} (hi : LogInv L calls) {i : Nat}
    {k : LogCall} (hk : calls i = some k) (hh : k.holds = true) : WriterOk L ∧ Turn L k := by
  cases hi with
  | free hw hl hidle hnone =>
    rw [hnone i k hk] at hh
    cases hh
  | held i₀ k₀ hw hl hk₀ hh₀ ht hothers =>
    have hii : i = i₀ := by
      by_contra hne
      rw [hothers i k hne hk] at hh
      cases hh
    subst hii
    rw [hk] at hk₀
    cases hk₀
    exact ⟨hw, ht⟩

end Pool

/-! ## Producers and writer -/

/-- A thread: the writer, or a producer with the calls it will make and the call it is in. -/
inductive LogThread where
  | writer
  | producer (todo : List LogRequest) (call : Option LogCall)
  deriving DecidableEq

def LogThread.call : LogThread → Option LogCall
  | .writer => none
  | .producer _ call => call

/-- What happens to the write or to the sync: the bytes a failing write leaves behind, and
    whether the sync succeeds. -/
structure WriteResult where
  fault : Option Nat := none
  synced : Bool := true

/-- Producers that make their calls one after the other, and the writer thread. -/
def logProgram (H : Digests) : Program LogState LogThread WriteResult := fun L t a =>
  match t with
  | .writer => (L.writerStep H a.fault a.synced).map fun L => (L, .writer)
  | .producer todo (some call) =>
    (call.step L).map fun r => (r.1, .producer todo (match r.2 with
      | .pending call => some call
      | .returned _ => none))
  | .producer todo none =>
    match todo with
    | [] => none
    | r :: todo => some (L, .producer todo (some (.lock r)))

/-- A fresh log and the calls of each producer. -/
def logStart (programs : List (List LogRequest)) : Conf LogState LogThread :=
  ⟨{}, .writer :: programs.map fun todo => .producer todo none⟩

theorem logProgram_move {H : Digests} {L L' : LogState} {t t' : LogThread} {a : WriteResult}
    (h : logProgram H L t a = some (L', t')) : LogMove H L t.call L' t'.call := by
  cases t with
  | writer =>
    obtain ⟨L₁, hs, heq⟩ := Option.map_eq_some_iff.mp h
    cases heq
    exact .serve hs
  | producer todo call =>
    cases call with
    | none =>
      cases todo with
      | nil => cases h
      | cons r todo => cases h; exact .enter
    | some call =>
      obtain ⟨⟨L₁, n⟩, hs, heq⟩ := Option.map_eq_some_iff.mp h
      cases heq
      cases n with
      | pending call' => exact .next hs
      | returned res => exact .leave hs

theorem log_inv {H : Digests} {ok : Conf LogState LogThread → Nat × WriteResult → Prop}
    {programs : List (List LogRequest)} {c : Conf LogState LogThread}
    (hr : Reach (logProgram H) ok (logStart programs) c) :
    LogInv c.shared (callsOf LogThread.call c.threads) := by
  refine hr.invariant (I := fun c => LogInv c.shared (callsOf LogThread.call c.threads)) ?_ ?_
  · refine .init fun j => ?_
    unfold callsOf
    cases hj : (logStart programs).threads[j]? with
    | none => rfl
    | some t =>
      have hmem := List.mem_of_getElem? hj
      simp only [logStart, List.mem_cons, List.mem_map] at hmem
      rcases hmem with rfl | ⟨todo, -, rfl⟩ <;> rfl
  · intro c a c' _ ih _ hst
    have hmove : ∀ t sh' t', c.threads[a.1]? = some t →
        logProgram H c.shared t a.2 = some (sh', t') →
        LogMove H (id c.shared) t.call (id sh') t'.call :=
      fun t sh' t' _ hp => logProgram_move hp
    exact LogInv.step ih hst hmove

/-! ## The result -/

/-- What a flush reports is the id of the last complete record. -/
theorem flush_reports {L L' : LogState} {eventId ticket w : Nat} (hw : WriterOk L)
    (ht : Turn L (.wait .flush eventId ticket))
    (hret : (LogCall.wait .flush eventId ticket).step L = some (L', .returned (some w))) :
    L'.written = L.written ∧ w = lastComplete L.written := by
  obtain ⟨r, id', ticket', heq, hreply, rfl⟩ := LogCall.step_returned hret
  cases heq
  obtain ⟨-, -, hres⟩ := ht.leave hreply
  refine ⟨rfl, ?_⟩
  rcases hres with hres | hres
  · cases hres
  · cases hres
    exact hw.durable

/-- **The watermark is a complete prefix, exactly when no write recovered.**  Whatever the producers
    have called and whichever writes have failed: when `flush` returns `Ok(w)`, the file begins
    with the complete records `1, …, w` if and only if no write so far has succeeded after one
    that failed. -/
theorem watermark_complete_iff {H : Digests} {programs : List (List LogRequest)}
    {c : Conf LogState LogThread} (hr : Reachable (logProgram H) (logStart programs) c)
    {todo : List LogRequest} {eventId ticket w : Nat} {L' : LogState}
    (hcall : LogThread.producer todo (some (.wait .flush eventId ticket)) ∈ c.threads)
    (hret : (LogCall.wait .flush eventId ticket).step c.shared = some (L', .returned (some w))) :
    L'.CompleteUpTo H w ↔ NoRecovery L'.written := by
  obtain ⟨i, hi⟩ := List.getElem?_of_mem hcall
  have hk : callsOf LogThread.call c.threads i = some (.wait .flush eventId ticket) := by
    unfold callsOf
    rw [hi]
    rfl
  obtain ⟨hw, ht⟩ := (log_inv hr).turn hk rfl
  obtain ⟨hwritten, rfl⟩ := flush_reports hw ht hret
  rw [← completePrefix_iff (hwritten ▸ hw.numbered), hwritten]
  constructor
  · exact fun h => hwritten ▸ h.toCompletePrefix
  · intro h
    exact CompletePrefix.upTo (hwritten.symm ▸ h) H

/-- Some record. -/
def sampleEvent : LogEvent := .outcome "192.0.2.1" 8333 .completeQuiet

/-- One call of the only producer, the writer serving it with the result `a`. -/
def served (a : WriteResult) : List (Nat × WriteResult) := [(1, {}), (1, {}), (1, {}), (0, a)]

/-- A record is written, the write of the next one fails half-way, and a flush reports the first:
    no write has recovered, so the file begins with it. -/
theorem watermark_complete_iff_sample : ∃ c L',
    Reachable (logProgram .zero) (logStart [[.write sampleEvent, .write sampleEvent, .flush]]) c ∧
    LogThread.producer [] (some (.wait .flush 3 2)) ∈ c.threads ∧
    (LogCall.wait .flush 3 2).step c.shared = some (L', .returned (some 1)) ∧
    L'.written = [⟨1, sampleEvent, none⟩, ⟨2, sampleEvent, some 9⟩] ∧ L'.CompleteUpTo .zero 1 := by
  have hrun : (exec (logProgram .zero) (fun _ _ => true)
      (logStart [[.write sampleEvent, .write sampleEvent, .flush]])
      (served {} ++ [(1, ({} : WriteResult))] ++ served { fault := some 9 } ++
        [(1, ({} : WriteResult))] ++ served {})).map (fun c =>
        (c.threads[1]?,
          ((LogCall.wait .flush 3 2).step c.shared).map fun r => (r.1.written, r.2))) =
      some (some (.producer [] (some (.wait .flush 3 2))),
        some ([⟨1, sampleEvent, none⟩, ⟨2, sampleEvent, some 9⟩], .returned (some 1))) := by
    decide
  obtain ⟨c, hc, heq⟩ := Option.map_eq_some_iff.mp hrun
  obtain ⟨hthread, hnext⟩ := Prod.mk.injEq .. ▸ heq
  obtain ⟨⟨L', next⟩, hret, hnext⟩ := Option.map_eq_some_iff.mp hnext
  obtain ⟨hwritten, rfl⟩ := Prod.mk.injEq .. ▸ hnext
  have hr := (exec_reach hc).reachable
  have hmem := List.mem_of_getElem? hthread
  have hno : NoRecovery L'.written := by
    rw [hwritten]
    exact List.pairwise_pair.mpr fun h => by cases h
  exact ⟨c, L', hr, hmem, hret, hwritten, (watermark_complete_iff hr hmem hret).mpr hno⟩

/-- The first write fails and leaves nothing, the second succeeds, and a flush reports both. -/
theorem flush_covers_lost_record : ∃ c L',
    Reachable (logProgram .zero) (logStart [[.write sampleEvent, .write sampleEvent, .flush]]) c ∧
    LogThread.producer [] (some (.wait .flush 3 2)) ∈ c.threads ∧
    (LogCall.wait .flush 3 2).step c.shared = some (L', .returned (some 2)) ∧
    ¬L'.CompleteUpTo .zero 2 := by
  have hrun : (exec (logProgram .zero) (fun _ _ => true)
      (logStart [[.write sampleEvent, .write sampleEvent, .flush]])
      (served { fault := some 0 } ++ [(1, ({} : WriteResult))] ++ served {} ++
        [(1, ({} : WriteResult))] ++ served {})).map (fun c =>
        (c.threads[1]?,
          ((LogCall.wait .flush 3 2).step c.shared).map fun r => (r.1.written, r.2))) =
      some (some (.producer [] (some (.wait .flush 3 2))),
        some ([⟨1, sampleEvent, some 0⟩, ⟨2, sampleEvent, none⟩], .returned (some 2))) := by
    decide
  obtain ⟨c, hc, heq⟩ := Option.map_eq_some_iff.mp hrun
  obtain ⟨hthread, hnext⟩ := Prod.mk.injEq .. ▸ heq
  obtain ⟨⟨L', next⟩, hret, hnext⟩ := Option.map_eq_some_iff.mp hnext
  obtain ⟨hwritten, rfl⟩ := Prod.mk.injEq .. ▸ hnext
  refine ⟨c, L', (exec_reach hc).reachable, List.mem_of_getElem? hthread, hret, fun h => ?_⟩
  have htorn := h.whole ⟨1, sampleEvent, some 0⟩ (hwritten ▸ List.mem_cons_self ..)
  cases htorn

end P2PCrawler
