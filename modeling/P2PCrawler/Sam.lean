import P2PCrawler.Std
import P2PCrawler.Lib.SharedCell
import P2PCrawler.Lib.ThreadPool
import Mathlib.Data.List.Infix

/-!
# The shared SAM session (`crawler.rs`, `transport.rs`)

All I2P connections go through one session of the router.  `sam_session` hands out the cached
session or creates one, with the lock held across the creation.  A connection is opened without
the lock; if the router says `INVALID_ID`, the worker takes the lock again and clears the cache if
it still holds its session.

* `SamSession.create`, `SamSession.connect` — what the replies of the router make of an attempt.
* `samStep` — one atomic step of a worker between two waits.
* `samRecord` — the history of the cache, in the order in which the lock was held.

## Results

* `sam_inv` — the mutex makes the cache a cell of `SharedCell`: its history is legal and the cache
  is what the history leaves in it.
* `sam_invalidation_exact` — **one session at a time, created by one worker, dropped by its own
  failure only and for good.**
-/

set_option autoImplicit false

namespace P2PCrawler

open ThreadPool SharedCell

/-! ## The router -/

/-- `str::contains`. -/
def textContains (text sub : String) : Bool := decide (sub.toList <:+: text.toList)

/-- `str::trim`. -/
def trimText (text : String) : String := String.ofList (trim text.toList)

/-- `sam_hello`, once the reply line is read. -/
def samHello (reply : String) : Except String Unit :=
  if !textContains reply "HELLO REPLY" || !textContains reply "RESULT=OK" then
    .error ("SAM HELLO failed: " ++ trimText reply)
  else .ok ()

/-- How an exchange with the router goes: it runs out of time, the connection or the first reply
    fails, or a reply line to `HELLO` comes and after it the second reply or an error. -/
inductive RouterAnswer where
  | timedOut
  | failed (error : String)
  | replies (hello : String) (second : Except String String)

/-- A session; `arc` is the allocation that `Arc::ptr_eq` compares. -/
structure SamSession where
  arc : Nat
  sessionId : String
  deriving DecidableEq, Repr

/-- `SamSession::create`. -/
def SamSession.create (arc : Nat) (sessionId : String) : RouterAnswer → Except String SamSession
  | .timedOut => .error "SAM session create timed out"
  | .failed error => .error error
  | .replies hello second => do
    samHello hello
    let reply ← second
    if !textContains reply "SESSION STATUS" || !textContains reply "RESULT=OK" then
      .error ("SAM session create failed: " ++ trimText reply)
    else .ok { arc, sessionId }

/-- `SamSession::connect`. -/
def SamSession.connect : RouterAnswer → Except String Unit
  | .timedOut => .error "SAM stream connect timed out"
  | .failed error => .error error
  | .replies hello second => do
    samHello hello
    let reply ← second
    if !textContains reply "STREAM STATUS" || !textContains reply "RESULT=OK" then
      .error ("SAM stream connect failed: " ++ trimText reply)
    else .ok ()

/-- The failure says that the router no longer knows the session. -/
def invalidId (error : String) : Bool := textContains error "RESULT=INVALID_ID"

/-! ## The workers -/

/-- The mutex, the session it guards, and the sessions allocated so far. -/
structure SamCache where
  locked : Bool := false
  cached : Option SamSession := none
  allocated : Nat := 0
  deriving DecidableEq, Repr

/-- Where a worker is in `connect`. -/
inductive SamPc where
  | idle
  /-- `sam_session` waits for the lock -/
  | locking
  /-- the lock is held across `SamSession::create` -/
  | creating
  /-- `session.connect`, without the lock -/
  | connecting (session : SamSession)
  /-- the failure was `INVALID_ID`; waits for the lock -/
  | invalid (session : SamSession) (error : String)
  | done (result : Except String Unit)

/-- What a waiting worker is woken by. -/
inductive SamInput where
  | turn
  | answer (sessionId : String) (answer : RouterAnswer)

def samStep : Program SamCache SamPc SamInput := fun sh pc input =>
  match pc, input with
  | .idle, .turn => some (sh, .locking)
  | .locking, .turn =>
    if sh.locked then none
    else match sh.cached with
      | some session => some (sh, .connecting session)
      | none => some ({ sh with locked := true }, .creating)
  | .creating, .answer sessionId answer =>
    match SamSession.create sh.allocated sessionId answer with
    | .ok session =>
      some (⟨false, some session, sh.allocated + 1⟩, .connecting session)
    | .error _ => some ({ sh with locked := false }, .done (.error "no SAM session"))
  | .connecting session, .answer _ answer =>
    match SamSession.connect answer with
    | .ok () => some (sh, .done (.ok ()))
    | .error e =>
      if invalidId e then some (sh, .invalid session e) else some (sh, .done (.error e))
  | .invalid session e, .turn =>
    if sh.locked then none
    else if sh.cached.any fun s => s.arc == session.arc then
      some ({ sh with cached := none }, .done (.error e))
    else some (sh, .done (.error e))
  | .done _, .turn => some (sh, .idle)
  | _, _ => none

/-- Any number of workers, and no session yet. -/
def samStart (n : Nat) : Conf SamCache SamPc := ⟨{}, List.replicate n .idle⟩

/-- What a step adds to the history of the cache. -/
def samEvents : Option SamPc → Option SamPc → List (Event Nat)
  | some .locking, some (.connecting session) => [.handed session.arc]
  | some .creating, some (.connecting session) => [.made session.arc]
  | some .creating, some (.done _) => [.notMade]
  | some (.invalid session _), some _ => [.dropped session.arc]
  | _, _ => []

def samRecord (h : List (Event Nat)) (c : Conf SamCache SamPc) (a : Nat × SamInput)
    (c' : Conf SamCache SamPc) : List (Event Nat) :=
  h ++ samEvents c.threads[a.1]? c'.threads[a.1]?

/-- Everything a worker's step can do. -/
inductive SamMove (sh : SamCache) : SamPc → SamCache → SamPc → Prop where
  | begin : SamMove sh .idle sh .locking
  | hit {session : SamSession} (free : sh.locked = false) (there : sh.cached = some session) :
      SamMove sh .locking sh (.connecting session)
  | miss (free : sh.locked = false) (empty : sh.cached = none) :
      SamMove sh .locking { sh with locked := true } .creating
  | created (sessionId : String) :
      SamMove sh .creating ⟨false, some ⟨sh.allocated, sessionId⟩, sh.allocated + 1⟩
        (.connecting ⟨sh.allocated, sessionId⟩)
  | notCreated {result : Except String Unit} :
      SamMove sh .creating { sh with locked := false } (.done result)
  | finished {session : SamSession} {result : Except String Unit} :
      SamMove sh (.connecting session) sh (.done result)
  | refused {session : SamSession} {e : String} (unknown : invalidId e = true) :
      SamMove sh (.connecting session) sh (.invalid session e)
  | evicted {session current : SamSession} {e : String} {result : Except String Unit}
      (free : sh.locked = false) (there : sh.cached = some current) (same : current.arc = session.arc) :
      SamMove sh (.invalid session e) { sh with cached := none } (.done result)
  | superseded {session : SamSession} {e : String} {result : Except String Unit}
      (free : sh.locked = false) (other : sh.cached.map (·.arc) ≠ some session.arc) :
      SamMove sh (.invalid session e) sh (.done result)
  | again {result : Except String Unit} : SamMove sh (.done result) sh .idle

theorem create_ok {arc : Nat} {sessionId : String} {answer : RouterAnswer} {session : SamSession}
    (h : SamSession.create arc sessionId answer = .ok session) : session = ⟨arc, sessionId⟩ := by
  cases answer with
  | timedOut | failed => cases h
  | replies hello second =>
    simp only [SamSession.create] at h
    cases hhello : samHello hello with
    | error => rw [hhello] at h; cases h
    | ok =>
      rw [hhello] at h
      cases second with
      | error => cases h
      | ok reply =>
        simp only [bind, Except.bind] at h
        split at h
        · cases h
        · exact (Except.ok.inj h).symm

theorem samStep_move {sh sh' : SamCache} {pc pc' : SamPc} {input : SamInput}
    (h : samStep sh pc input = some (sh', pc')) : SamMove sh pc sh' pc' := by
  unfold samStep at h
  split at h
  · cases h
    exact .begin
  · split at h
    · cases h
    · rename_i hfree
      rw [Bool.not_eq_true] at hfree
      split at h
      · rename_i session hthere
        cases h
        exact .hit hfree hthere
      · rename_i hempty
        cases h
        exact .miss hfree hempty
  · split at h
    · rename_i session hcreate
      obtain rfl := create_ok hcreate
      cases h
      exact .created _
    · cases h
      exact .notCreated
  · split at h
    · cases h
      exact .finished
    · split at h
      · rename_i hunknown
        cases h
        exact .refused hunknown
      · cases h
        exact .finished
  · split at h
    · cases h
    · rename_i hfree
      rw [Bool.not_eq_true] at hfree
      split at h
      · rename_i hsame
        obtain ⟨current, hthere, hsame⟩ := (Option.any_eq_true _ _).mp hsame
        cases h
        exact .evicted hfree hthere (beq_iff_eq.mp hsame)
      · rename_i hother
        cases h
        refine .superseded hfree fun hsame => hother ?_
        obtain ⟨current, hthere, hsame⟩ := Option.map_eq_some_iff.mp hsame
        rw [hthere]
        exact beq_iff_eq.mpr hsame
  · cases h
    exact .again
  · cases h

/-! ## The invariant -/

/-- The worker creates a session. -/
def SamPc.creations : SamPc → Int
  | .creating => 1
  | _ => 0

/-- The session in use was made before; the failure that is worked off is `INVALID_ID`. -/
def SamPc.Known (h : List (Event Nat)) : SamPc → Prop
  | .connecting session => .made session.arc ∈ h
  | .invalid session e => .made session.arc ∈ h ∧ invalidId e = true
  | _ => True

def SamCache.holder (sh : SamCache) : Int := if sh.locked then -1 else 0

structure SamInv (c : Conf SamCache SamPc) (h : List (Event Nat)) : Prop where
  legal : Legal h
  cached : c.shared.cached.map (·.arc) = content h
  allocated : ∀ e ∈ h, ∀ r, e.resource = some r → r < c.shared.allocated
  lock : total SamCache.holder SamPc.creations c = 0
  empty : c.shared.locked = true → c.shared.cached = none
  known : ∀ pc ∈ c.threads, pc.Known h

theorem SamPc.creations_nonneg (pc : SamPc) : 0 ≤ pc.creations := by
  cases pc <;> first | exact Int.le_refl 0 | decide

theorem SamPc.Known.mono {h : List (Event Nat)} {pc : SamPc} (hk : pc.Known h) (h' : List (Event Nat)) :
    pc.Known (h ++ h') := by
  cases pc with
  | connecting session => exact List.mem_append_left _ hk
  | invalid session e => exact ⟨List.mem_append_left _ hk.1, hk.2⟩
  | _ => trivial

theorem SamMove.balanced {sh sh' : SamCache} {pc pc' : SamPc} (h : SamMove sh pc sh' pc')
    (hcreating : pc = .creating → sh.locked = true) :
    sh'.holder + pc'.creations = sh.holder + pc.creations := by
  unfold SamCache.holder
  cases h with
  | miss free empty =>
    rw [free]
    rfl
  | created | notCreated =>
    rw [hcreating rfl]
    rfl
  | _ => rfl

/-- Whoever creates a session holds the lock. -/
theorem SamInv.locked {c : Conf SamCache SamPc} {h : List (Event Nat)} (hi : SamInv c h)
    (hpc : SamPc.creating ∈ c.threads) : c.shared.locked = true := by
  have hle := le_load SamPc.creations_nonneg hpc
  have hlock := hi.lock
  simp only [total, SamCache.holder, SamPc.creations] at hle hlock
  split at hlock
  · assumption
  · omega

/-- What one step does to the cache and its history. -/
theorem SamMove.history {sh sh' : SamCache} {pc pc' : SamPc} (hm : SamMove sh pc sh' pc')
    {h : List (Event Nat)} (hlegal : Legal h) (hcached : sh.cached.map (·.arc) = content h)
    (hall : ∀ e ∈ h, ∀ r, e.resource = some r → r < sh.allocated)
    (hempty : sh.locked = true → sh.cached = none) (hlock : pc = .creating → sh.locked = true)
    (hknown : pc.Known h) :
    Legal (h ++ samEvents (some pc) (some pc')) ∧
      sh'.cached.map (·.arc) = content (h ++ samEvents (some pc) (some pc')) ∧
      (∀ e ∈ h ++ samEvents (some pc) (some pc'), ∀ r, e.resource = some r → r < sh'.allocated) ∧
      (sh'.locked = true → sh'.cached = none) ∧ pc'.Known (h ++ samEvents (some pc) (some pc')) := by
  -- an event about a session that was allocated before
  have hold : ∀ {e : Event Nat} {r : Nat}, e.resource = some r → r < sh.allocated →
      ∀ e' ∈ h ++ [e], ∀ r', e'.resource = some r' → r' < sh.allocated := by
    intro e r he hr e' he' r' hr'
    rcases List.mem_append.mp he' with he' | he'
    · exact hall e' he' r' hr'
    · rw [List.mem_singleton.mp he', he] at hr'
      exact Option.some.inj hr' ▸ hr
  have hsame : h ++ [] = h := List.append_nil h
  cases hm with
  | begin | again | finished | miss free empty =>
    simp only [samEvents, hsame]
    refine ⟨hlegal, hcached, hall, ?_, trivial⟩
    first
      | exact hempty
      | exact fun _ => empty
  | refused unknown =>
    simp only [samEvents, hsame]
    exact ⟨hlegal, hcached, hall, hempty, hknown, unknown⟩
  | @hit session free there =>
    have hcontent : content h = some session.arc := by rw [← hcached, there]; rfl
    have hmade := made_of_content hcontent
    refine ⟨hlegal.next hcontent, ?_, hold rfl (hall _ hmade _ rfl), hempty, ?_⟩
    · show _ = content (h ++ [_])
      rw [content_concat]
      exact hcached
    · exact List.mem_append_left _ hmade
  | created sessionId =>
    have hnone := hempty (hlock rfl)
    rw [hnone] at hcached
    have hnew : ∀ e ∈ h, e.resource ≠ some sh.allocated := by
      intro e he hr
      exact absurd (hall e he _ hr) (Nat.lt_irrefl _)
    refine ⟨hlegal.next ⟨hcached.symm, hnew⟩, ?_, ?_, nofun, ?_⟩
    · show _ = content (h ++ [_])
      rw [content_concat]
      rfl
    · intro e he r hr
      rcases List.mem_append.mp he with he | he
      · exact Nat.lt_succ_of_lt (hall e he r hr)
      · rw [List.mem_singleton.mp he] at hr
        exact Option.some.inj hr ▸ Nat.lt_succ_self _
    · exact List.mem_append_right _ (List.mem_singleton_self _)
  | notCreated =>
    have hnone := hempty (hlock rfl)
    have hcontent : content h = none := by rw [← hcached, hnone]; rfl
    refine ⟨hlegal.next hcontent, ?_, ?_, nofun, trivial⟩
    · show _ = content (h ++ [_])
      rw [content_concat]
      exact hcached
    · intro e he r hr
      rcases List.mem_append.mp he with he | he
      · exact hall e he r hr
      · rw [List.mem_singleton.mp he] at hr
        cases hr
  | @evicted session current e result free there same =>
    refine ⟨hlegal.next hknown.1, ?_, hold rfl (hall _ hknown.1 _ rfl), fun _ => rfl, trivial⟩
    show _ = content (h ++ [_])
    rw [content_concat, apply_dropped, ← hcached, there]
    exact (if_pos (congrArg some same)).symm
  | @superseded session e result free other =>
    refine ⟨hlegal.next hknown.1, ?_, hold rfl (hall _ hknown.1 _ rfl), hempty, trivial⟩
    show _ = content (h ++ [_])
    rw [content_concat, apply_dropped, ← hcached, if_neg other]

theorem sam_inv {n : Nat} {c : Conf SamCache SamPc} {h : List (Event Nat)}
    (hr : Chronicle samStep anyStep samRecord (samStart n) [] c h) : SamInv c h := by
  refine hr.invariant (I := SamInv) ?_ ?_
  · refine ⟨.nil, rfl, fun e he => absurd he List.not_mem_nil, ?_, nofun, ?_⟩
    · have hload : load SamPc.creations (List.replicate n .idle) = 0 :=
        load_eq_zero fun pc hpc => by rw [List.eq_of_mem_replicate hpc]; rfl
      simp only [total, samStart, hload]
      rfl
    · intro pc hpc
      rw [List.eq_of_mem_replicate hpc]
      trivial
  · intro c h a c' _ hi _ hst
    have hlock := @total_step _ _ _ _ SamCache.holder SamPc.creations _ _ _ hst fun pc sh' pc' hpc hp =>
      (samStep_move hp).balanced fun he => hi.locked (he ▸ List.mem_of_getElem? hpc)
    obtain ⟨pc, sh', pc', hpc, hp, rfl⟩ := step_cases hst
    have hmem := List.mem_of_getElem? hpc
    have hevents : samRecord h c a ⟨sh', c.threads.set a.1 pc'⟩ = h ++ samEvents (some pc) (some pc') := by
      unfold samRecord
      obtain ⟨hlt, -⟩ := List.getElem?_eq_some_iff.mp hpc
      rw [hpc]
      show _ ++ samEvents _ (c.threads.set a.1 pc')[a.1]? = _
      rw [List.getElem?_set_self hlt]
    rw [hevents]
    obtain ⟨hlegal, hcached, hall, hempty, hknown⟩ := (samStep_move hp).history hi.legal hi.cached
      hi.allocated hi.empty (fun he => hi.locked (he ▸ hmem)) (hi.known pc hmem)
    refine ⟨hlegal, hcached, hall, hlock.trans hi.lock, hempty, fun u hu => ?_⟩
    rcases List.mem_or_eq_of_mem_set hu with hu | rfl
    · exact (hi.known u hu).mono _
    · exact hknown

/-! ## The result -/

/-- What a step may do to the cache: nothing; fill it, where it was empty and the worker has just
    created the session; or empty it, where the worker had the `INVALID_ID` failure of the very
    session in it. -/
inductive CacheChange (sh : SamCache) (pc : SamPc) (sh' : SamCache) : Prop where
  | kept (same : sh'.cached = sh.cached)
  | filled {session : SamSession} (creates : pc = .creating) (empty : sh.cached = none)
      (full : sh'.cached = some session)
  | emptied {session current : SamSession} {e : String} (fails : pc = .invalid session e)
      (unknown : invalidId e = true) (there : sh.cached = some current)
      (own : current.arc = session.arc) (empty : sh'.cached = none)

/-- **The shared session.**  In every run of any number of workers, with any replies of the router:
    two workers never create a session at once, and only where none is cached; a session whose
    `INVALID_ID` failure has been processed is never given out again; after a failed creation
    nothing is handed out until a creation has succeeded; and a step changes the cache only to
    fill an empty one with the session just created or to drop the session that failed. -/
theorem sam_invalidation_exact {n : Nat} {c : Conf SamCache SamPc} {h : List (Event Nat)}
    (hr : Chronicle samStep anyStep samRecord (samStart n) [] c h) :
    (∀ i j : Nat, c.threads[i]? = some .creating → c.threads[j]? = some .creating → i = j) ∧
    (SamPc.creating ∈ c.threads → c.shared.cached = none) ∧
    c.shared.cached.map (·.arc) = content h ∧
    (∀ before after r, h = before ++ .dropped r :: after → ∀ e ∈ after, e.gives ≠ some r) ∧
    (∀ before u v r, h = before ++ .notMade :: (u ++ .handed r :: v) → ∃ r', .made r' ∈ u) ∧
    (∀ a c', step samStep c a = some c' →
      ∃ pc, c.threads[a.1]? = some pc ∧ CacheChange c.shared pc c'.shared) := by
  have hi := sam_inv hr
  refine ⟨fun i j hpc hpc' => ?_, fun hpc => hi.empty (hi.locked hpc), hi.cached, ?_, ?_, ?_⟩
  · by_contra hne
    have hle := add_le_load SamPc.creations_nonneg hne hpc hpc'
    have hlock := hi.lock
    simp only [total, SamCache.holder, SamPc.creations] at hle hlock
    split at hlock <;> omega
  · intro before after r hh
    subst hh
    exact hi.legal.not_given_after_drop
  · intro before u v r hh
    subst hh
    exact hi.legal.made_between
  · intro a c' hst
    obtain ⟨pc, sh', pc', hpc, hp, rfl⟩ := step_cases hst
    have hmem := List.mem_of_getElem? hpc
    refine ⟨pc, hpc, ?_⟩
    cases samStep_move hp with
    | created sessionId => exact .filled rfl (hi.empty (hi.locked hmem)) rfl
    | evicted free there same => exact .emptied rfl (hi.known _ hmem).2 there same rfl
    | _ => exact .kept rfl

/-- Two workers share a session that the router forgets; the second one finds out after the first
    has created another. -/
def lateFailure : List (Nat × SamInput) :=
  let created := .answer "crawler7" (.replies "HELLO REPLY RESULT=OK" (.ok "SESSION STATUS RESULT=OK"))
  let forgotten := .answer "" (.replies "HELLO REPLY RESULT=OK" (.ok "STREAM STATUS RESULT=INVALID_ID"))
  [(0, .turn), (0, .turn), (0, created), (1, .turn), (1, .turn), (0, forgotten), (0, .turn), (0, .turn),
    (0, .turn), (0, .turn), (0, created), (1, forgotten), (1, .turn)]

theorem sam_invalidation_exact_late : ∃ c : Conf SamCache SamPc,
    Chronicle samStep anyStep samRecord (samStart 2) [] c
      [.made 0, .handed 0, .dropped 0, .made 1, .dropped 0] ∧
    c.shared.cached.map (·.arc) = some 1 := by
  have hexec : ∃ c, execRecord samStep (fun _ _ => true) samRecord (samStart 2) [] lateFailure =
      some (c, [.made 0, .handed 0, .dropped 0, .made 1, .dropped 0]) := ⟨_, rfl⟩
  obtain ⟨c, hc⟩ := hexec
  have hr : Chronicle samStep anyStep samRecord (samStart 2) [] c _ :=
    (execRecord_chronicle hc).mono fun _ _ _ => trivial
  exact ⟨c, hr, (sam_invalidation_exact hr).2.2.1⟩

end P2PCrawler
