import P2PCrawler.Publish
import P2PCrawler.Crawler.Failures
import P2PCrawler.Crawler.Manifests
import P2PCrawler.Lib.Outside

/-!
# The crawl and its run directory

A thread that publishes a manifest calls `write_snapshot` on the run directory, which may fail or stop
at any of its steps; a call that fails may have replaced the manifest all the same.  No other step
touches what is published there.

* `Installed` — a call has replaced the manifest, and the four files are what it was called with.
* `Displays` — the run directory shows a manifest of the crawl.
* `Crawls` — runs of the crawl together with its run directory.

## Results

* `directory_advances` — **what the run directory shows is complete, is a manifest of the crawl, and
  only advances; a crawl that succeeds leaves its last store there.**
-/

set_option autoImplicit false

namespace P2PCrawler

open Interrupted FileSystem ThreadPool

/-! ## What a call leaves -/

namespace Publication

section Call
variable {H : Digests} {R : Rendering} {run : Path} {t₀ : FileTree Byte}

/-- The manifest is the one of the call, and its generation holds the four files. -/
def Installed (H : Digests) (R : Rendering) (run : Path) (a : SnapshotCall) (t : FileTree Byte) :
    Prop :=
  ∃ files, a.files = some files ∧
    t.view (manifestPath run) = some (.file (R.manifest (a.manifest H R files)).flatten) ∧
    Complete H run t (a.manifest H R files) ∧
    Written (generationDir run a.generation) (resultTexts R files) t

/-- Neither the temporary file nor the manifest lies below a generation. -/
theorem beside_generation {name g : String} (hname : name ≠ "snapshots") {rest : Path} :
    ¬ run ++ [name] <+: generationDir run g ++ rest := by
  intro h
  unfold generationDir at h
  rw [List.append_assoc, List.prefix_append_right_inj] at h
  simp [List.cons_prefix_cons, hname] at h

/-- `publish_manifest` leaves the files of every generation. -/
theorem publish_written (temp : String) (m : SnapshotManifest) (g : String)
    (texts : List (String × List Byte)) :
    Spec (Written (generationDir run g) texts) (publishManifest R run temp m)
      (fun _ => Written (generationDir run g) texts) (Written (generationDir run g) texts) := by
  have hhead : ∀ name : String, name.toList.head? ≠ some '.' → ".manifest.tmp." ++ temp ≠ name := by
    rintro name hname rfl
    exact hname (by simp)
  have hne : run ++ [".manifest.tmp." ++ temp] ≠ manifestPath run := by
    intro h
    exact hhead "snapshot_manifest.json" (by decide)
      (List.head_eq_of_cons_eq (List.append_cancel_left h))
  have hchange : ∀ t t' : FileTree Byte, Written (generationDir run g) texts t →
      (∀ q, q ≠ run ++ [".manifest.tmp." ++ temp] → t'.view q = t.view q) →
        Written (generationDir run g) texts t' := by
    intro t t' h hview p hp
    rw [hview _ (by simp [generationDir]), h p hp]
  refine Spec.bind ((writeFile_spec (fun _ h => h) hchange _).weaken (fun _ h => h)
    fun _ _ h => h.1) fun _ => ?_
  refine Spec.bind (FsM.sync_spec fun _ h => h) fun _ => ?_
  refine Spec.bind (R := fun _ => Written (generationDir run g) texts) ?_
    fun _ => FsM.sync_spec fun _ h => h
  refine FsM.call_spec (fun _ h => h) fun t t' h heq p hp => ?_
  obtain ⟨-, -, hview⟩ := FileTree.view_rename heq hne
  have hmanifest : ¬ manifestPath run <+: generationDir run g ++ [p.1] := beside_generation (by decide)
  have htemp : ¬ run ++ [".manifest.tmp." ++ temp] <+: generationDir run g ++ [p.1] :=
    beside_generation (hhead "snapshots" (by decide))
  rw [hview, if_neg hmanifest, if_neg htemp, h p hp]

/-- Either nothing that counts has changed, or what the call was made with is installed. -/
theorem writeSnapshot_installs (a : SnapshotCall) :
    Spec (Keeps run t₀) (writeSnapshot H R run a) (fun _ => Installed H R run a)
      (fun t => Keeps run t₀ t ∨ Installed H R run a t) := by
  have early : ∀ {α : Type} {P : FileTree Byte → Prop} {x : FsM Byte α}
      {Q : α → FileTree Byte → Prop}, Spec P x Q (Keeps run t₀) →
        Spec P x Q (fun t => Keeps run t₀ t ∨ Installed H R run a t) :=
    fun h => h.weakenCut fun t ht => .inl ht
  refine Spec.bind (early createDirAll_spec) fun _ => ?_
  refine Spec.bind (early createDir_spec) fun _ => ?_
  have hstart := @writeTable_spec run t₀ (tempName a.generation) R [] "reachable_nodes.csv"
    (by simp) (writeReachable a.snapshot)
  refine Spec.bind (early (hstart.weaken (fun t h => ⟨h, fun p hp => by cases hp⟩)
    fun _ _ h => h)) fun _ => ?_
  refine Spec.witness fun reachable => Spec.given fun hreachable => ?_
  refine Spec.bind (early (writeTable_spec R (by simp) _)) fun _ => ?_
  refine Spec.witness fun handshakeFailed => Spec.given fun hfailed => ?_
  refine Spec.bind (early (writeTable_spec R (by simp) _)) fun _ => ?_
  refine Spec.witness fun unreachable => Spec.given fun hunreachable => ?_
  refine Spec.bind (early (writeIn_spec (by simp) _)) fun _ => ?_
  -- The temporary directory holds the four files.
  obtain ⟨files, hfiles, htexts⟩ : ∃ files, a.files = some files ∧ resultTexts R files =
      [("crawler_stats.json", (R.stats (writeStatsJson a.snapshot a.settings a.timestamp a.seeds
          a.info.runtimeSeconds a.info.numProcessed a.info.consistent a.budgetRejected
          a.info.runComplete)).flatten),
        ("unreachable_nodes.csv", (R.csv unreachable).flatten),
        ("handshake_failed_nodes.csv", (R.csv handshakeFailed).flatten),
        ("reachable_nodes.csv", (R.csv reachable).flatten)] := by
    refine ⟨⟨reachable, handshakeFailed, unreachable, writeStatsJson a.snapshot a.settings
      a.timestamp a.seeds a.info.runtimeSeconds a.info.numProcessed a.info.consistent
      a.budgetRejected a.info.runComplete⟩, ?_, rfl⟩
    unfold SnapshotCall.files resultFiles
    rw [hreachable, hfailed, hunreachable]
    rfl
  rw [← htexts]
  have hnames := resultTexts_lookup R files
  refine Spec.bind (early (hash_spec H hnames)) fun hashes => ?_
  refine Spec.given fun hhashes => ?_
  refine Spec.bind (early (FsM.sync_spec fun t h => h.1.keeps)) fun _ => ?_
  refine Spec.bind (early (place_spec (tempName_ne a.generation))) fun _ => ?_
  refine Spec.bind (early (FsM.sync_spec fun t h => h.keeps)) fun _ => ?_
  subst hhashes
  -- The manifest is replaced beside them.
  have hpublish := @publish_spec run t₀ H R a.manifestTemp (a.manifest H R files) _ hnames rfl rfl
  have hstay := @publish_written R run a.manifestTemp (a.manifest H R files) a.generation
    (resultTexts R files)
  refine ((hpublish.both hstay).weaken (fun t h => ⟨h, h.written⟩) ?_).weakenCut ?_
  · exact fun _ t h => ⟨files, hfiles, h.1.manifest, h.1.complete, h.2⟩
  · rintro t ⟨hkeeps | hreplaced, hwritten⟩
    · exact .inl hkeeps
    · exact .inr ⟨files, hfiles, hreplaced.manifest, hreplaced.complete, hwritten⟩

/-- What a call leaves, however it ends. -/
theorem installs_or_keeps {t : FileTree Byte} (a : SnapshotCall) (fates : List (Fate (List Byte))) :
    Keeps run t (writeSnapshot H R run a fates t).state ∨
      Installed H R run a (writeSnapshot H R run a fates t).state := by
  have hspec := @writeSnapshot_installs H R run t a
  exact (hspec.weaken (fun _ h => h) fun _ _ h => .inr h).state .refl

/-- What is installed stays, as long as nothing that counts changes. -/
theorem Installed.keeps {a : SnapshotCall} {t t' : FileTree Byte} (h : Installed H R run a t)
    (hk : Keeps run t t') : Installed H R run a t' := by
  obtain ⟨files, hfiles, hview, hcomplete, hwritten⟩ := h
  have hsame : ∀ q, generationDir run a.generation <+: q → t'.view q = t.view q :=
    hk.generations _ hcomplete.live
  refine ⟨files, hfiles, hk.manifest.trans hview, hcomplete.of_same hsame, fun p hp => ?_⟩
  rw [hsame _ (List.prefix_append _ _), hwritten p hp]

end Call

end Publication

open Publication

/-! ## What the run directory shows -/

/-- What a call of `write_snapshot` gets besides what its manifest tells. -/
structure Occasion where
  timestamp : String
  seeds : List SeedResult
  runtimeSeconds : Int
  generation : String
  manifestTemp : String

/-- The call that publishes a manifest. -/
def Manifest.call (S : Setup) (m : Manifest) (o : Occasion) : SnapshotCall where
  snapshot := m.snapshot
  budgetRejected := m.budgetRejected
  settings := S.settings
  timestamp := o.timestamp
  seeds := o.seeds
  info := ⟨o.runtimeSeconds, m.numProcessed, m.durableEventId, m.consistent, m.runComplete⟩
  generation := o.generation
  manifestTemp := o.manifestTemp

/-- The run directory shows the manifest, with its four files. -/
def Displays (S : Setup) (R : Rendering) (run : Path) (t : FileTree Byte) (m : Manifest) : Prop :=
  ∃ o, Installed S.digests R run (m.call S o) t

/-- What a step of the crawl does to the run directory: a thread that publishes a manifest makes a
    call and gets to know whether it has succeeded. -/
inductive Touches (S : Setup) (R : Rendering) (run : Path) (c : Conf Shared Pc) (a : Nat × Answer)
    (t t' : FileTree Byte) : Prop where
  | publish {pc : Pc} {m : Manifest} {o : Occasion} {fates : List (Fate (List Byte))}
      (hpc : c.threads[a.1]? = some pc) (hpub : Publishes c m pc)
      (hresult : (writeSnapshot S.digests R run (m.call S o) fates t).result.isSome = a.2.stored)
      (hstate : t' = (writeSnapshot S.digests R run (m.call S o) fates t).state)
  | elsewhere (hnot : ∀ pc, c.threads[a.1]? = some pc → ∀ m, ¬ Publishes c m pc)
      (h : Elsewhere run t t')

/-- Runs of the crawl with its run directory. -/
abbrev Crawls (S : Setup) (R : Rendering) (run : Path) (ok : Conf Shared Pc → Nat × Answer → Prop) :
    Conf Shared Pc → FileTree Byte → Conf Shared Pc → FileTree Byte → Prop :=
  Drive (program S) ok (Touches S R run)

section Directory
variable {S : Setup} {R : Rendering} {run : Path} {ok : Conf Shared Pc → Nat × Answer → Prop}
  {c c' : Conf Shared Pc} {a : Nat × Answer} {t t₀ t' : FileTree Byte} {m : Manifest}

theorem Displays.keeps (h : Displays S R run t m) (hk : Publication.Keeps run t t') :
    Displays S R run t' m := by
  obtain ⟨o, hinstalled⟩ := h
  exact ⟨o, hinstalled.keeps hk⟩

/-- **One step.**  The run directory keeps what counts, or shows what the step set out to publish. -/
theorem Touches.cases (h : Touches S R run c a t t') :
    Publication.Keeps run t t' ∨
      ∃ pc m, c.threads[a.1]? = some pc ∧ Publishes c m pc ∧ Displays S R run t' m := by
  cases h with
  | @publish pc m o fates hpc hpub hresult hstate =>
    subst hstate
    exact (installs_or_keeps (m.call S o) fates).imp_right fun h => ⟨pc, m, hpc, hpub, o, h⟩
  | elsewhere hnot h => exact .inl h.keeps

/-- A call that succeeds is shown. -/
theorem Touches.stored {pc : Pc} (h : Touches S R run c a t t') (hpc : c.threads[a.1]? = some pc)
    (hpub : Publishes c m pc) (hstored : a.2.stored = true) : Displays S R run t' m := by
  cases h with
  | @publish pc' m' o fates hpc' hpub' hresult hstate =>
    rw [hpc] at hpc'
    cases hpc'
    obtain rfl := hpub.unique hpub'
    rw [hstored] at hresult
    obtain ⟨⟨⟩, hdone⟩ := Option.isSome_iff_exists.mp hresult
    subst hstate
    exact ⟨o, (writeSnapshot_installs (m.call S o)).result .refl hdone⟩
  | elsewhere hnot => exact absurd hpub (hnot pc hpc m)

/-- What is shown is one of the attempts. -/
theorem Touches.attempts (h : Touches S R run c a t t') (hst : step (program S) c a = some c')
    (ms : List Manifest) :
    (Publication.Keeps run t t' ∧ ∃ more, attempt ms c a c' = ms ++ more) ∨
      ∃ m, attempt ms c a c' = ms ++ [m] ∧ Displays S R run t' m := by
  obtain ⟨pc, sh', pc', hpc, -, -⟩ := step_cases hst
  rcases h.cases with hk | ⟨pc', m, hpc', hpub, hshown⟩
  · refine .inl ⟨hk, ?_⟩
    rcases attempt_cases hpc ms c' with ⟨hnone, -⟩ | ⟨m, -, hmore⟩
    · exact ⟨[], by rw [hnone, List.append_nil]⟩
    · exact ⟨[m], hmore⟩
  · right
    rw [hpc] at hpc'
    cases hpc'
    rcases attempt_cases hpc ms c' with ⟨-, hnot⟩ | ⟨m', hpub', hmore⟩
    · exact absurd hpub (hnot m)
    · obtain rfl := hpub.unique hpub'
      exact ⟨m, hmore, hshown⟩

/-- The run directory shows an attempt of the run, or what it showed before. -/
theorem shows_attempt (h : Crawls S R run ok (start S) t₀ c t) :
    ∃ ms, Attempted S ok c ms ∧
      (t.view (manifestPath run) = t₀.view (manifestPath run) ∨ ∃ m ∈ ms, Displays S R run t m) := by
  refine h.invariant (I := fun _ (ms : List Manifest) t =>
    t.view (manifestPath run) = t₀.view (manifestPath run) ∨ ∃ m ∈ ms, Displays S R run t m)
    (.inl rfl) ?_
  intro c ms t a c' t' _ ih _ hst htouch
  rcases htouch.attempts hst ms with ⟨hk, more, hmore⟩ | ⟨m, hmore, hshown⟩
  · rcases ih with hold | ⟨m, hm, hshown⟩
    · exact .inl (hk.manifest.trans hold)
    · exact .inr ⟨m, by rw [hmore]; exact List.mem_append_left _ hm, hshown.keeps hk⟩
  · exact .inr ⟨m, by rw [hmore]; simp, hshown⟩

/-- From a manifest that is shown on, what is shown is the same or a later attempt. -/
theorem shows_later {ms : List Manifest} (hm : Displays S R run t m)
    (h : Crawls S R run ok c t c' t') :
    ∃ more, Chronicle (program S) ok attempt c ms c' (ms ++ more) ∧
      ∃ m', Displays S R run t' m' ∧ (m' = m ∨ m' ∈ more) := by
  have hrun : ∃ ms', Chronicle (program S) ok attempt c ms c' ms' ∧ ∃ more, ms' = ms ++ more ∧
      ∃ m', Displays S R run t' m' ∧ (m' = m ∨ m' ∈ more) := by
    refine h.invariant (I := fun _ ms' t' => ∃ more, ms' = ms ++ more ∧
      ∃ m', Displays S R run t' m' ∧ (m' = m ∨ m' ∈ more))
      ⟨[], (List.append_nil ms).symm, m, hm, .inl rfl⟩ ?_
    rintro c _ t a c' t' - ⟨more, rfl, m', hshown, hm'⟩ - hst htouch
    rcases htouch.attempts hst (ms ++ more) with ⟨hk, new, hnew⟩ | ⟨m'', hnew, hshown'⟩
    · refine ⟨more ++ new, by rw [hnew, List.append_assoc], m', hshown.keeps hk, ?_⟩
      exact hm'.imp_right (List.mem_append_left new)
    · exact ⟨more ++ [m''], by rw [hnew, List.append_assoc], m'', hshown', .inr (by simp)⟩
  obtain ⟨_, hms, more, rfl, hshown⟩ := hrun
  exact ⟨more, hms, hshown⟩

/-! ## The last manifest -/

/-- A manifest of the crawl as it is. -/
structure Manifest.Last (m : Manifest) (sh : Shared) : Prop where
  snapshot : m.snapshot = sh.store.snapshot
  rejected : m.budgetRejected = sh.store.budgetRejected
  processed : m.numProcessed = sh.numProcessed
  consistent : m.consistent = true

/-- A crawl that has succeeded shows its last manifest. -/
def ShowsLast (S : Setup) (R : Rendering) (run : Path) (c : Conf Shared Pc) (t : FileTree Byte) :
    Prop :=
  c.shared.exitCode = some .success →
    ∃ m, c.shared.manifest = some m ∧ Displays S R run t m ∧ m.Last c.shared

theorem ShowsLast.step (h : ShowsLast S R run c t) (hr : Reach (program S) ok (start S) c)
    (hst : ThreadPool.step (program S) c a = some c') (htouch : Touches S R run c a t t') :
    ShowsLast S R run c' t' := by
  intro hexit
  obtain ⟨pc, sh', pc', hpc, hp, rfl⟩ := step_cases hst
  by_cases hbefore : c.shared.exitCode = some .success
  · -- The process has ended: the log writer alone moves.
    have hfin := exit_finished hr (by rw [hbefore]; exact Option.some_ne_none _)
    obtain ⟨rfl, -, hsh⟩ := writer_after_end hr hfin hpc hp
    obtain ⟨m, hm, hshown, hlast⟩ := h hbefore
    rcases htouch.cases with hk | ⟨pc, m', hpc', hpub, -⟩
    · rw [hsh]
      exact ⟨m, hm, hshown.keeps hk, hlast.snapshot, hlast.rejected, hlast.processed,
        hlast.consistent⟩
    · rw [hpc] at hpc'
      cases hpc'
      cases hpub
  · -- The main task publishes, and the process ends with it.
    by_cases hmain : ∃ p, pc = .main p
    · obtain ⟨p, rfl⟩ := hmain
      rcases program_cases hp with ⟨_, p', heq, rfl, hs⟩ | ⟨_, _, heq, -⟩ | ⟨_, _, heq, -⟩ |
        ⟨_, heq, -⟩ | ⟨_, _, _, heq, -⟩ <;> cases heq
      rcases mainStep_exit hs with hsame | ⟨r, logOk, durable, rfl, rfl, -⟩
      · exact absurd (hsame.symm.trans hexit) hbefore
      · cases hstored : a.2.stored with
        | false =>
          simp only [mainStep, hstored, Bool.false_eq_true, if_false] at hs
          cases hs
          cases hexit
        | true =>
          have hshown := htouch.stored hpc (.last rfl) hstored
          simp only [mainStep, hstored, if_true] at hs
          cases hs
          exact ⟨_, rfl, hshown, rfl, rfl, rfl, rfl⟩
    · have hother : ∀ p, pc ≠ .main p := fun p hp => hmain ⟨p, hp⟩
      exact absurd ((program_exit hp hother).symm.trans hexit) hbefore

theorem shows_last (h : Crawls S R run ok (start S) t₀ c t) : ShowsLast S R run c t := by
  have hrun : ∃ ms, Attempted S ok c ms ∧ ShowsLast S R run c t := by
    refine h.invariant (I := fun c _ t => ShowsLast S R run c t) (fun hexit => by cases hexit) ?_
    exact fun _ _ _ _ _ _ hms ih _ hst htouch => ih.step hms.reach hst htouch
  exact hrun.elim fun _ h => h.2

end Directory

/-! ## Result -/

/-- The crawl has come at least as far as the manifest. -/
structure Manifest.Reached (m : Manifest) (sh : Shared) : Prop where
  entries : ∀ x ∈ m.snapshot, sh.store.Ahead x
  processed : m.numProcessed ≤ sh.numProcessed
  rejected : m.budgetRejected ≤ sh.store.budgetRejected

theorem Manifest.Precedes.refl (m : Manifest) : m.Precedes m :=
  ⟨fun _ e he => ⟨e, he, .refl e⟩, le_refl _, le_refl _⟩

theorem attempts_reached {S : Setup} {ok : Conf Shared Pc → Nat × Answer → Prop}
    {c : Conf Shared Pc} {ms : List Manifest} (h : Attempted S ok c ms) {m : Manifest}
    (hm : m ∈ ms) : m.Reached c.shared :=
  ⟨(manifests h).tried m hm, (Gauge.ordered processedGauge_lawful h).shown m hm _ rfl,
    (Gauge.ordered rejectedGauge_lawful h).shown m hm _ rfl⟩

/-- **The run directory follows the crawl.**  However the calls of `write_snapshot` end, at any time
    the run directory shows what it showed before the crawl, or, complete, a manifest of the crawl:
    one that the crawl has reached, and from then on what is shown only advances.  A crawl that ends
    with success has left its last store there. -/
theorem directory_advances {S : Setup} {R : Rendering} {run : Path}
    {ok : Conf Shared Pc → Nat × Answer → Prop} {c : Conf Shared Pc} {t₀ t : FileTree Byte}
    (h : Crawls S R run ok (start S) t₀ c t) :
    (t.view (manifestPath run) = t₀.view (manifestPath run) ∨
      ∃ m, Displays S R run t m ∧ m.Reached c.shared ∧
        ∀ c' t', Crawls S R run ok c t c' t' →
          ∃ m', Displays S R run t' m' ∧ m'.Reached c'.shared ∧ m.Precedes m') ∧
    (c.shared.exitCode = some .success →
      ∃ m, c.shared.manifest = some m ∧ Displays S R run t m ∧ m.Last c.shared) := by
  refine ⟨?_, shows_last h⟩
  obtain ⟨ms, hms, hold | ⟨m, hm, hshown⟩⟩ := shows_attempt h
  · exact .inl hold
  · refine .inr ⟨m, hshown, attempts_reached hms hm, fun c' t' h' => ?_⟩
    obtain ⟨more, hmore, m', hshown', hm'⟩ := shows_later hshown h'
    have hall : Attempted S ok c' (ms ++ more) := hms.trans hmore
    rcases hm' with rfl | hm'
    · exact ⟨m', hshown', attempts_reached hall (List.mem_append_left _ hm), .refl m'⟩
    · have hordered := (List.pairwise_append.mp (attempts_precede hall)).2.2
      exact ⟨m', hshown', attempts_reached hall (List.mem_append_right _ hm'), hordered m hm m' hm'⟩

/-- The run of `solo` up to its last manifest. -/
def soloToWriting : List (Nat × Answer) := soloRun ++ steps 4 4 ++ steps 0 8

/-- The steps that publish nothing. -/
def unpublished (c : Conf Shared Pc) (a : Nat × Answer) : Bool := !(c.threads[a.1]?.any Pc.publishes)

theorem unpublished_elsewhere {S : Setup} {R : Rendering} {run : Path} {c : Conf Shared Pc}
    {a : Nat × Answer} {t : FileTree Byte} (h : unpublished c a = true) :
    Touches S R run c a t t := by
  refine .elsewhere (fun pc hpc m hpub => ?_) ⟨rfl, fun _ _ => rfl⟩
  have hyes : pc.publishes = true := by cases hpub <;> rfl
  simp [unpublished, hpc, hyes] at h

def firstOccasion : Occasion where
  timestamp := "20260101T000000Z"
  seeds := []
  runtimeSeconds := 3
  generation := "20260101T000000.000000000Z-1"
  manifestTemp := "1-0"

/-- The only node cannot be reached, and that is left behind. -/
theorem directory_advances_solo : ∃ c t m,
    Crawls solo plain ["crawl"] anyStep (start solo) (.dir []) c t ∧
    c.shared.exitCode = some .success ∧ Displays solo plain ["crawl"] t m ∧ m.Last c.shared ∧
    c.shared.store.snapshot.length = 1 := by
  have hrun : (exec (program solo) unpublished (start solo) soloToWriting).bind (fun c =>
      (step (program solo) c (0, {})).map fun c' =>
        (c'.shared.exitCode, c'.shared.store.snapshot.length,
          (writeSnapshot .zero plain ["crawl"] ((c.shared.finalManifest .ok true none).call solo
            firstOccasion) (List.replicate 40 .ok) (.dir [])).result.isSome)) =
      some (some .success, 1, true) := by
    decide +kernel
  have hsome : (exec (program solo) unpublished (start solo) soloToWriting).isSome = true := by
    decide
  have hwriting :
      ((exec (program solo) unpublished (start solo) soloToWriting).get hsome).threads[0]? =
        some (.main (.writing .ok true none)) := rfl
  obtain ⟨c, hc, heq⟩ := Option.bind_eq_some_iff.mp hrun
  obtain ⟨c', hst, heq⟩ := Option.map_eq_some_iff.mp heq
  simp only [Prod.mk.injEq] at heq
  obtain ⟨hexit, hlength, hdone⟩ := heq
  simp only [hc, Option.get_some] at hwriting
  have hstill : Crawls solo plain ["crawl"] (fun c a => unpublished c a = true) (start solo)
      (.dir []) c (.dir []) :=
    (exec_reach hc).drive fun _ _ _ hok _ => unpublished_elsewhere hok
  have hcrawl : Crawls solo plain ["crawl"] anyStep (start solo) (.dir []) c (.dir []) :=
    hstill.mono fun _ _ _ => trivial
  have hall := hcrawl.next trivial hst (.publish hwriting (.last rfl) hdone rfl)
  obtain ⟨m, -, hshown, hlast⟩ := (directory_advances hall).2 hexit
  exact ⟨c', _, m, hall, hexit, hshown, hlast, hlength⟩

end P2PCrawler
