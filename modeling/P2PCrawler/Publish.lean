import P2PCrawler.Output
import P2PCrawler.Frame
import P2PCrawler.AddrLog
import P2PCrawler.Lib.FileSystem

/-!
# Publishing a snapshot (`output.rs`)

`write_snapshot` writes a generation of result files into a temporary directory, hashes them, gives
the directory its name, and only then replaces the manifest that points to it.  Every call to the
file system is a step that may fail, or before which the process may stop.

* `writeSnapshot`, `publishManifest` — the steps, in the order of the source.
* `Keeps` — what no step before the replacement of the manifest does: touch the manifest, or
  anything in a generation that exists.
* `publication_atomic` — after any number of calls, however each of them ended, the manifest is
  the old one or the new one, and what it names is complete.
-/

set_option autoImplicit false

namespace P2PCrawler

open Interrupted FileSystem

/-! ## The program -/

/-- The writes by which the CSV and JSON writers put out a file. -/
structure Rendering where
  csv : Table → List (List Byte)
  stats : CrawlerStats → List (List Byte)
  manifest : SnapshotManifest → List (List Byte)

/-- The arguments of `write_snapshot`, and the names it takes from the clock and the process. -/
structure SnapshotCall where
  snapshot : List (AddrKey × NodeEntry)
  budgetRejected : Nat
  settings : Settings
  timestamp : String
  seeds : List SeedResult
  info : SnapshotMeta
  generation : String
  manifestTemp : String

/-- The names of the result files, as `into_settings` sets them. -/
def resultNames : List String :=
  ["reachable_nodes.csv", "handshake_failed_nodes.csv", "unreachable_nodes.csv",
    "crawler_stats.json"]

/-- `BTreeMap::insert`. -/
def treeInsert (k v : String) : List (String × String) → List (String × String)
  | [] => [(k, v)]
  | (k', v') :: rest =>
    if k < k' then (k, v) :: (k', v') :: rest
    else if k = k' then (k, v) :: rest
    else (k', v') :: treeInsert k v rest

def sha256Hex (H : Digests) (bytes : List Byte) : String :=
  String.join ((H.sha256 bytes).map hexByte)

section Program
variable (H : Digests) (R : Rendering) (run : Path)

def snapshotsDir : Path := run ++ ["snapshots"]

def generationDir (generation : String) : Path := run ++ ["snapshots", generation]

def tempName (generation : String) : String := ".tmp-" ++ generation

def manifestPath : Path := run ++ ["snapshot_manifest.json"]

/-- A panic, at which the buffers are written out. -/
def abort (p : Path) : FsM Byte Unit := Prog.step (fun _ => none) (FsM.garble p)

/-- `csv_writer` and the records. -/
def writeTable (p : Path) : Option Table → FsM Byte Unit
  | some t => FsM.writeFile p (R.csv t)
  | none => do
    FsM.createNew p
    abort p

def sha256File (p : Path) : FsM Byte String := do
  let bytes ← FsM.read p
  return sha256Hex H bytes

/-- Sync a file and hash it. -/
def hashFile (dir : Path) (hashes : List (String × String)) (file : String) :
    FsM Byte (List (String × String)) := do
  FsM.sync (dir ++ [file])
  let hash ← sha256File H (dir ++ [file])
  return treeInsert file hash hashes

def publishManifest (temp : String) (manifest : SnapshotManifest) : FsM Byte Unit := do
  let temp := run ++ [".manifest.tmp." ++ temp]
  FsM.writeFile temp (R.manifest manifest)
  FsM.sync temp
  FsM.rename temp (manifestPath run)
  FsM.sync run

def writeSnapshot (a : SnapshotCall) : FsM Byte Unit := do
  FsM.createDirAll (snapshotsDir run)
  let tempDir := generationDir run (tempName a.generation)
  let finalDir := generationDir run a.generation
  FsM.createDir tempDir
  writeTable R (tempDir ++ ["reachable_nodes.csv"]) (writeReachable a.snapshot)
  writeTable R (tempDir ++ ["handshake_failed_nodes.csv"]) (writeHandshakeFailed a.snapshot)
  writeTable R (tempDir ++ ["unreachable_nodes.csv"]) (writeUnreachable a.snapshot)
  FsM.writeFile (tempDir ++ ["crawler_stats.json"]) (R.stats (writeStatsJson a.snapshot a.settings
    a.timestamp a.seeds a.info.runtimeSeconds a.info.numProcessed a.info.consistent
    a.budgetRejected a.info.runComplete))
  let hashes ← Prog.foldList (hashFile H tempDir) resultNames []
  FsM.sync tempDir
  FsM.rename tempDir finalDir
  FsM.sync (snapshotsDir run)
  publishManifest R run a.manifestTemp (manifestOf a.generation a.snapshot a.info hashes)

end Program

/-! ### What a call would publish -/

/-- The texts of the four files. -/
def resultTexts (R : Rendering) (files : ResultFiles) : List (String × List Byte) :=
  [("crawler_stats.json", (R.stats files.stats).flatten),
    ("unreachable_nodes.csv", (R.csv files.unreachable).flatten),
    ("handshake_failed_nodes.csv", (R.csv files.handshakeFailed).flatten),
    ("reachable_nodes.csv", (R.csv files.reachable).flatten)]

/-- The hashes of some of the files. -/
def hashesOf (H : Digests) (texts : List (String × List Byte)) (names : List String) :
    List (String × String) :=
  names.foldl (fun hashes f => treeInsert f (sha256Hex H ((texts.lookup f).getD [])) hashes) []

def SnapshotCall.files (a : SnapshotCall) : Option ResultFiles :=
  resultFiles a.snapshot a.budgetRejected a.settings a.timestamp a.seeds a.info

/-- The manifest of a call whose files are these. -/
def SnapshotCall.manifest (H : Digests) (R : Rendering) (a : SnapshotCall) (files : ResultFiles) :
    SnapshotManifest :=
  manifestOf a.generation a.snapshot a.info (hashesOf H (resultTexts R files) resultNames)

namespace Publication

/-! ## What a step may touch -/

section Frame
variable (run : Path)

/-- A generation directory with a file in it. -/
def Live (t : FileTree Byte) (g : String) : Prop :=
  t.view (generationDir run g) = some .dir ∧
    ∃ name b, t.view (generationDir run g ++ [name]) = some (.file b)

/-- The manifest and every live generation are as they were. -/
structure Keeps (t t' : FileTree Byte) : Prop where
  manifest : t'.view (manifestPath run) = t.view (manifestPath run)
  generations : ∀ g, Live run t g → ∀ q, generationDir run g <+: q → t'.view q = t.view q

variable {run} {t₀ t t' : FileTree Byte} {g g' : String} {p : Path}

theorem Keeps.refl : Keeps run t t := ⟨rfl, fun _ _ _ _ => rfl⟩

theorem Live.of_keeps (hk : Keeps run t t') (h : Live run t g) : Live run t' g := by
  obtain ⟨hdir, name, b, hfile⟩ := h
  refine ⟨?_, name, b, ?_⟩
  · rw [hk.generations g ⟨hdir, name, b, hfile⟩ _ List.prefix_rfl, hdir]
  · rw [hk.generations g ⟨hdir, name, b, hfile⟩ _ (List.prefix_append _ _), hfile]

/-- A change of one path that is neither the manifest nor in a live generation. -/
theorem Keeps.change (hk : Keeps run t₀ t) (hview : ∀ q, q ≠ p → t'.view q = t.view q)
    (hp : p ≠ manifestPath run) (hlive : ∀ g, Live run t₀ g → ¬ generationDir run g <+: p) :
    Keeps run t₀ t' := by
  constructor
  · rw [hview _ hp.symm, hk.manifest]
  · intro g hg q hq
    have hne : q ≠ p := by
      rintro rfl
      exact hlive g hg hq
    rw [hview q hne, hk.generations g hg q hq]

/-! ### Paths -/

theorem below_generation {rest : Path} :
    generationDir run g <+: generationDir run g' ++ rest ↔ g = g' := by
  unfold generationDir
  rw [List.append_assoc, List.prefix_append_right_inj]
  simp [List.cons_prefix_cons]

theorem below_generationDir : generationDir run g <+: generationDir run g' ↔ g = g' := by
  have := @below_generation run g g' []
  rwa [List.append_nil] at this

/-- What lies in the run directory itself lies in no generation. -/
theorem not_below_generation (h : p.length ≤ run.length + 1) : ¬ generationDir run g <+: p := by
  intro hp
  have := hp.length_le
  simp [generationDir] at this
  omega

theorem manifestPath_length : (manifestPath run).length = run.length + 1 := by
  simp [manifestPath]

theorem ne_manifestPath_of_generationDir {rest : Path} :
    generationDir run g ++ rest ≠ manifestPath run := by
  intro h
  have := congrArg List.length h
  simp [generationDir, manifestPath] at this

end Frame

/-! ## What the steps do -/

section Steps
variable {run : Path} {t₀ : FileTree Byte} {g : String}

/-- The temporary directory is there, and is none of the old generations. -/
structure Working (run : Path) (t₀ : FileTree Byte) (g : String) (t : FileTree Byte) : Prop where
  keeps : Keeps run t₀ t
  dir : t.view (generationDir run g) = some .dir
  new : ¬ Live run t₀ g

/-- The files that have been written into a directory. -/
def Written (dir : Path) (texts : List (String × List Byte)) (t : FileTree Byte) : Prop :=
  ∀ p ∈ texts, t.view (dir ++ [p.1]) = some (.file p.2)

theorem Working.change {t t' : FileTree Byte} {name : String} (hw : Working run t₀ g t)
    (hview : ∀ q, q ≠ generationDir run g ++ [name] → t'.view q = t.view q) :
    Working run t₀ g t' where
  keeps := hw.keeps.change hview ne_manifestPath_of_generationDir fun g' hg' hp => by
    obtain rfl := below_generation.mp hp
    exact hw.new hg'
  dir := by
    rw [hview _ (by simp), hw.dir]
  new := hw.new

theorem Written.change {dir : Path} {texts : List (String × List Byte)} {t t' : FileTree Byte}
    {name : String} (h : Written dir texts t) (hname : name ∉ texts.map (·.1))
    (hview : ∀ q, q ≠ dir ++ [name] → t'.view q = t.view q) : Written dir texts t' := by
  intro p hp
  rw [hview, h p hp]
  intro heq
  obtain ⟨-, heq⟩ := List.append_inj' heq rfl
  exact hname (List.mem_map.mpr ⟨p, hp, List.head_eq_of_cons_eq heq⟩)

theorem Written.cons {dir : Path} {texts : List (String × List Byte)} {t : FileTree Byte}
    {name : String} {b : List Byte} (h : Written dir texts t)
    (hb : t.view (dir ++ [name]) = some (.file b)) : Written dir ((name, b) :: texts) t := by
  intro p hp
  obtain rfl | hp := List.mem_cons.mp hp
  · exact hb
  · exact h p hp

/-- The directories on the way to the generations. -/
theorem createDirAll_spec :
    Spec (Keeps run t₀) (FsM.createDirAll (snapshotsDir run)) (fun _ => Keeps run t₀)
      (Keeps run t₀) := by
  refine Spec.forList (fun _ => Keeps run t₀) (fun before p hp => ?_) []
  have hpre : p <+: snapshotsDir run := (List.mem_inits p _).mp hp
  have hlen : p.length ≤ run.length + 1 := by
    have := hpre.length_le
    simpa [snapshotsDir] using this
  have hne : p ≠ manifestPath run := by
    rintro rfl
    have := (List.prefix_append_right_inj run).mp hpre
    simp [List.cons_prefix_cons] at this
  refine FsM.call_spec (fun _ h => h) fun t t' h heq => ?_
  split at heq
  · obtain rfl := Option.some.inj heq
    exact h
  · obtain ⟨-, hview⟩ := FileTree.view_createDir heq
    exact h.change (fun q hq => (hview q).trans (if_neg hq)) hne fun g _ =>
      not_below_generation hlen

theorem createDir_spec :
    Spec (Keeps run t₀) (FsM.createDir (generationDir run g)) (fun _ => Working run t₀ g)
      (Keeps run t₀) := by
  refine FsM.call_spec (fun _ h => h) fun t t' h heq => ?_
  obtain ⟨hfree, hview⟩ := FileTree.view_createDir heq
  -- A live generation would have taken the name.
  have hnew : ¬ Live run t₀ g := by
    intro hg
    rw [(hg.of_keeps h).1] at hfree
    cases hfree
  refine ⟨h.change (fun q hq => (hview q).trans (if_neg hq)) ?_ ?_, ?_, hnew⟩
  · have := @ne_manifestPath_of_generationDir run g []
    rwa [List.append_nil] at this
  · intro g' hg' hp
    obtain rfl := below_generationDir.mp hp
    exact hnew hg'
  · rw [hview, if_pos rfl]

/-- A file that is created and written in a directory where that is allowed. -/
theorem writeFile_spec {p : Path} {I C : FileTree Byte → Prop} (hC : ∀ t, I t → C t)
    (hI : ∀ t t', I t → (∀ q, q ≠ p → t'.view q = t.view q) → I t')
    (pieces : List (List Byte)) :
    Spec I (FsM.writeFile p pieces)
      (fun _ t => I t ∧ t.view p = some (.file pieces.flatten)) C := by
  refine Spec.bind (R := fun _ t => I t ∧ t.view p = some (.file ([] : List (List Byte)).flatten))
    ?_ fun _ => ?_
  · refine FsM.call_spec hC fun t t' h heq => ?_
    obtain ⟨-, hview⟩ := FileTree.view_createNew heq
    exact ⟨hI t t' h fun q hq => (hview q).trans (if_neg hq), (hview p).trans (if_pos rfl)⟩
  · refine Spec.forList (fun before t => I t ∧ t.view p = some (.file before.flatten))
      (fun before piece _ => ?_) []
    refine FsM.write_spec (fun t h => hC t h.1) (fun t t' b h hother _ => hC t' (hI t t' h.1 hother))
      fun t t' b h hb hother hnew => ⟨hI t t' h.1 hother, ?_⟩
    rw [h.2] at hb
    cases hb
    rw [hnew, List.flatten_append, List.flatten_singleton]

/-- One more file in the temporary directory. -/
theorem writeIn_spec {texts : List (String × List Byte)} {name : String}
    (hname : name ∉ texts.map (·.1)) (pieces : List (List Byte)) :
    Spec (fun t => Working run t₀ g t ∧ Written (generationDir run g) texts t)
      (FsM.writeFile (generationDir run g ++ [name]) pieces)
      (fun _ t => Working run t₀ g t ∧
        Written (generationDir run g) ((name, pieces.flatten) :: texts) t)
      (Keeps run t₀) := by
  refine Spec.weaken (writeFile_spec (fun t h => h.1.keeps) (fun t t' h hview => ?_) pieces)
    (fun _ h => h) fun _ t h => ⟨h.1.1, h.1.2.cons h.2⟩
  exact ⟨h.1.change hview, h.2.change hname hview⟩

theorem writeTable_spec (R : Rendering) {texts : List (String × List Byte)} {name : String}
    (hname : name ∉ texts.map (·.1)) (table : Option Table) :
    Spec (fun t => Working run t₀ g t ∧ Written (generationDir run g) texts t)
      (writeTable R (generationDir run g ++ [name]) table)
      (fun _ t => ∃ tab, table = some tab ∧ Working run t₀ g t ∧
        Written (generationDir run g) ((name, (R.csv tab).flatten) :: texts) t)
      (Keeps run t₀) := by
  cases table with
  | some tab =>
    exact Spec.weaken (writeIn_spec hname (R.csv tab)) (fun _ h => h) fun _ _ h => ⟨tab, rfl, h⟩
  | none =>
    refine Spec.bind (R := fun _ => Working run t₀ g) ?_ fun _ => ?_
    · refine FsM.call_spec (fun t h => h.1.keeps) fun t t' h heq => ?_
      obtain ⟨-, hview⟩ := FileTree.view_createNew heq
      exact h.1.change fun q hq => (hview q).trans (if_neg hq)
    · refine Spec.step (fun t h => h.keeps) (fun t junk h => ?_) nofun
      unfold FsM.garble
      cases heq : FileTree.append (generationDir run g ++ [name]) junk t with
      | none => exact h.keeps
      | some t' =>
        obtain ⟨b, -, hview⟩ := FileTree.view_appendFile heq
        exact (h.change fun q hq => (hview q).trans (if_neg hq)).keeps

theorem lookup_treeInsert (k v k' : String) (l : List (String × String)) :
    (treeInsert k v l).lookup k' = if k' = k then some v else l.lookup k' := by
  induction l with
  | nil => rw [treeInsert, lookup_entry]
  | cons e rest ih =>
    unfold treeInsert
    split
    · rw [lookup_entry]
    split
    · rename_i hk
      rw [lookup_entry, lookup_entry, hk]
      split <;> rfl
    · rename_i hk
      rw [lookup_entry, ih, lookup_entry]
      by_cases hk' : k' = e.1
      · rw [if_pos hk', if_pos hk', if_neg (hk' ▸ Ne.symm hk)]
      · rw [if_neg hk', if_neg hk']

theorem lookup_hashesOf (H : Digests) (texts : List (String × List Byte)) (names : List String)
    (f : String) : (hashesOf H texts names).lookup f =
      if f ∈ names then some (sha256Hex H ((texts.lookup f).getD [])) else none := by
  induction names using List.reverseRecOn with
  | nil => rfl
  | append_singleton names n ih =>
    unfold hashesOf at ih ⊢
    rw [List.foldl_append, List.foldl_cons, List.foldl_nil, lookup_treeInsert, ih]
    by_cases hf : f = n
    · subst hf
      simp
    · simp [hf]

theorem hash_spec (H : Digests) {texts : List (String × List Byte)}
    (hnames : ∀ f ∈ resultNames, ∃ b, texts.lookup f = some b) :
    Spec (fun t => Working run t₀ g t ∧ Written (generationDir run g) texts t)
      (Prog.foldList (hashFile H (generationDir run g)) resultNames [])
      (fun hashes t => hashes = hashesOf H texts resultNames ∧
        Working run t₀ g t ∧ Written (generationDir run g) texts t)
      (Keeps run t₀) := by
  have hloop := Spec.foldList (C := Keeps run t₀) (l := resultNames)
    (f := hashFile H (generationDir run g))
    (fun before hashes t => (Working run t₀ g t ∧ Written (generationDir run g) texts t) ∧
      hashes = hashesOf H texts before) (fun before hashes f hf => ?_) [] []
  · exact Spec.weaken hloop (fun t h => ⟨h, rfl⟩) fun _ _ h => h.symm
  obtain ⟨b, hb⟩ := hnames f hf
  refine Spec.bind (FsM.sync_spec fun t h => h.1.1.keeps) fun _ => ?_
  have hread : Spec (fun t => (Working run t₀ g t ∧ Written (generationDir run g) texts t) ∧
      hashes = hashesOf H texts before) (FsM.read (generationDir run g ++ [f]))
      (fun bytes t => ((Working run t₀ g t ∧ Written (generationDir run g) texts t) ∧
        hashes = hashesOf H texts before) ∧ bytes = b) (Keeps run t₀) := by
    refine FsM.read_spec (fun t h => h.1.1.keeps) fun t bytes h hbytes => ?_
    have hmem : (f, b) ∈ texts := by
      obtain ⟨before, after, rfl, -⟩ := List.lookup_eq_some_iff.mp hb
      simp
    rw [h.1.2 (f, b) hmem] at hbytes
    cases hbytes
    rfl
  have hhash : Spec (fun t => (Working run t₀ g t ∧ Written (generationDir run g) texts t) ∧
      hashes = hashesOf H texts before) (sha256File H (generationDir run g ++ [f]))
      (fun hash t => ((Working run t₀ g t ∧ Written (generationDir run g) texts t) ∧
        hashes = hashesOf H texts before) ∧ hash = sha256Hex H b) (Keeps run t₀) :=
    Spec.bind hread fun bytes => Spec.pure fun t h => ⟨h.1, by rw [h.2]⟩
  refine Spec.bind hhash fun hash => ?_
  · refine Spec.pure fun t h => ⟨h.1.1, ?_⟩
    unfold hashesOf
    rw [List.foldl_append, List.foldl_cons, List.foldl_nil, hb, h.2, h.1.2]
    rfl

/-- Two generations have no path in common. -/
theorem generation_unique {g g' : String} {q : Path} (h : generationDir run g <+: q)
    (h' : generationDir run g' <+: q) : g = g' := by
  have hlen : (generationDir run g).length = (generationDir run g').length := by
    simp [generationDir]
  exact below_generationDir.mp (List.prefix_of_prefix_length_le h h' hlen.le)

theorem manifestPath_not_below {g : String} :
    ¬ generationDir run g <+: manifestPath run :=
  not_below_generation manifestPath_length.le

/-- A generation under its own name. -/
structure Placed (run : Path) (t₀ : FileTree Byte) (g : String)
    (texts : List (String × List Byte)) (t : FileTree Byte) : Prop where
  keeps : Keeps run t₀ t
  dir : t.view (generationDir run g) = some .dir
  written : Written (generationDir run g) texts t

theorem place_spec {temp final : String} (hne : temp ≠ final)
    {texts : List (String × List Byte)} :
    Spec (fun t => Working run t₀ temp t ∧ Written (generationDir run temp) texts t)
      (FsM.rename (generationDir run temp) (generationDir run final))
      (fun _ => Placed run t₀ final texts) (Keeps run t₀) := by
  refine FsM.call_spec (fun t h => h.1.keeps) fun t t' h heq => ?_
  obtain ⟨hw, hwritten⟩ := h
  have hpaths : generationDir run temp ≠ generationDir run final := by
    intro h
    refine hne ((@below_generationDir run _ _).mp ?_)
    rw [h]
  obtain ⟨-, hempty, hview⟩ := FileTree.view_rename heq hpaths
  have hfinal : ∀ rest, t'.view (generationDir run final ++ rest) =
      t.view (generationDir run temp ++ rest) := by
    intro rest
    rw [hview, if_pos (List.prefix_append _ _), List.drop_left]
  refine ⟨⟨?_, ?_⟩, ?_, ?_⟩
  · rw [hview, if_neg manifestPath_not_below,
      if_neg manifestPath_not_below, hw.keeps.manifest]
  · -- A live generation has a file in it, so nothing could be moved over it.
    intro g hg q hq
    have hother : ¬ generationDir run final <+: q := by
      intro hq'
      obtain rfl := generation_unique hq hq'
      obtain ⟨-, name, b, hfile⟩ := hg.of_keeps hw.keeps
      rw [hempty name []] at hfile
      cases hfile
    have htemp : ¬ generationDir run temp <+: q := by
      intro hq'
      obtain rfl := generation_unique hq hq'
      exact hw.new hg
    rw [hview, if_neg hother, if_neg htemp, hw.keeps.generations g hg q hq]
  · have := hfinal []
    rw [List.append_nil, List.append_nil] at this
    rw [this, hw.dir]
  · intro p hp
    rw [hfinal, hwritten p hp]

/-- The directory that a manifest names is there, with every file it lists. -/
structure Complete (H : Digests) (run : Path) (t : FileTree Byte) (m : SnapshotManifest) :
    Prop where
  named : m.snapshotDirectory = "snapshots/" ++ m.generation
  dir : t.view (generationDir run m.generation) = some .dir
  files : ∀ f ∈ resultNames, ∃ b, t.view (generationDir run m.generation ++ [f]) = some (.file b) ∧
    m.filesSha256.lookup f = some (sha256Hex H b)
  listed : ∀ f, f ∉ resultNames → m.filesSha256.lookup f = none

theorem Complete.of_same {H : Digests} {t t' : FileTree Byte} {m : SnapshotManifest}
    (h : Complete H run t m)
    (hsame : ∀ q, generationDir run m.generation <+: q → t'.view q = t.view q) :
    Complete H run t' m where
  named := h.named
  dir := by rw [hsame _ List.prefix_rfl, h.dir]
  files f hf := by
    obtain ⟨b, hb, hlookup⟩ := h.files f hf
    exact ⟨b, by rw [hsame _ (List.prefix_append _ _), hb], hlookup⟩
  listed := h.listed

theorem Complete.live {H : Digests} {t : FileTree Byte} {m : SnapshotManifest}
    (h : Complete H run t m) : Live run t m.generation := by
  obtain ⟨b, hb, -⟩ := h.files "crawler_stats.json" (by decide)
  exact ⟨h.dir, _, b, hb⟩

/-- The manifest has been replaced, and no live generation touched. -/
structure Replaced (H : Digests) (R : Rendering) (run : Path) (t₀ : FileTree Byte)
    (m : SnapshotManifest) (t : FileTree Byte) : Prop where
  manifest : t.view (manifestPath run) = some (.file (R.manifest m).flatten)
  complete : Complete H run t m
  generations : ∀ g, Live run t₀ g → ∀ q, generationDir run g <+: q → t.view q = t₀.view q

theorem Placed.change {g : String} {texts : List (String × List Byte)} {t t' : FileTree Byte}
    {name : String} (h : Placed run t₀ g texts t) (hname : run ++ [name] ≠ manifestPath run)
    (hview : ∀ q, q ≠ run ++ [name] → t'.view q = t.view q) : Placed run t₀ g texts t' := by
  have hlen : (run ++ [name]).length ≤ run.length + 1 := by simp
  refine ⟨h.keeps.change hview hname fun g _ => not_below_generation hlen, ?_, fun p hp => ?_⟩
  · rw [hview _ (by simp [generationDir]), h.dir]
  · rw [hview _ (by simp [generationDir]), h.written p hp]

theorem complete_of_placed {H : Digests} {texts : List (String × List Byte)} {t : FileTree Byte}
    {m : SnapshotManifest} (h : Placed run t₀ m.generation texts t)
    (hnames : ∀ f ∈ resultNames, ∃ b, texts.lookup f = some b)
    (hdir : m.snapshotDirectory = "snapshots/" ++ m.generation)
    (hhashes : m.filesSha256 = hashesOf H texts resultNames) : Complete H run t m := by
  refine ⟨hdir, h.dir, fun f hf => ?_, fun f hf => ?_⟩
  · obtain ⟨b, hb⟩ := hnames f hf
    have hmem : (f, b) ∈ texts := by
      obtain ⟨before, after, rfl, -⟩ := List.lookup_eq_some_iff.mp hb
      simp
    refine ⟨b, h.written _ hmem, ?_⟩
    rw [hhashes, lookup_hashesOf, if_pos hf, hb]
    rfl
  · rw [hhashes, lookup_hashesOf, if_neg hf]

theorem publish_spec (H : Digests) (R : Rendering) (temp : String) {m : SnapshotManifest}
    {texts : List (String × List Byte)}
    (hnames : ∀ f ∈ resultNames, ∃ b, texts.lookup f = some b)
    (hdir : m.snapshotDirectory = "snapshots/" ++ m.generation)
    (hhashes : m.filesSha256 = hashesOf H texts resultNames) :
    Spec (Placed run t₀ m.generation texts) (publishManifest R run temp m)
      (fun _ => Replaced H R run t₀ m) (fun t => Keeps run t₀ t ∨ Replaced H R run t₀ m t) := by
  have hhead : ∀ name : String, name.toList.head? ≠ some '.' → ".manifest.tmp." ++ temp ≠ name := by
    rintro name hname rfl
    exact hname (by simp)
  have hne : run ++ [".manifest.tmp." ++ temp] ≠ manifestPath run := by
    intro h
    exact hhead "snapshot_manifest.json" (by decide)
      (List.head_eq_of_cons_eq (List.append_cancel_left h))
  refine Spec.bind (writeFile_spec (fun t h => .inl h.keeps) (fun t t' h hview => h.change hne hview)
    _) fun _ => ?_
  refine Spec.bind (FsM.sync_spec fun t h => .inl h.1.keeps) fun _ => ?_
  refine Spec.bind (R := fun _ => Replaced H R run t₀ m) ?_ fun _ => FsM.sync_spec fun t h => .inr h
  refine FsM.call_spec (fun t h => .inl h.1.keeps) fun t t' h heq => ?_
  obtain ⟨hplaced, htext⟩ := h
  obtain ⟨-, -, hview⟩ := FileTree.view_rename heq hne
  -- The generations lie beside the two names.
  have hbeside : ∀ g q, generationDir run g <+: q → t'.view q = t.view q := by
    rintro g q ⟨rest, rfl⟩
    have hother : ∀ name : String, name ≠ "snapshots" →
        ¬ run ++ [name] <+: generationDir run g ++ rest := by
      intro name hname h
      unfold generationDir at h
      rw [List.append_assoc, List.prefix_append_right_inj] at h
      simp [List.cons_prefix_cons, hname] at h
    have hmanifest : ¬ manifestPath run <+: generationDir run g ++ rest := hother _ (by decide)
    have htemp := hother (".manifest.tmp." ++ temp) (hhead "snapshots" (by decide))
    rw [hview, if_neg hmanifest, if_neg htemp]
  refine ⟨?_, ?_, fun g hg q hq => ?_⟩
  · rw [hview, if_pos List.prefix_rfl, List.drop_length, List.append_nil, htext]
  · exact (complete_of_placed hplaced hnames hdir hhashes).of_same (hbeside _)
  · rw [hbeside g q hq, hplaced.keeps.generations g hg q hq]

theorem tempName_ne (g : String) : tempName g ≠ g := by
  intro h
  have := congrArg String.length h
  simp [tempName] at this

theorem resultTexts_lookup (R : Rendering) (files : ResultFiles) :
    ∀ f ∈ resultNames, ∃ b, (resultTexts R files).lookup f = some b := by
  intro f hf
  simp only [resultNames, List.mem_cons, List.not_mem_nil, or_false] at hf
  rcases hf with rfl | rfl | rfl | rfl <;> exact ⟨_, rfl⟩

/-- Either nothing that counts has changed, or the manifest is the new one. -/
theorem writeSnapshot_spec (H : Digests) (R : Rendering) (a : SnapshotCall) :
    Spec (Keeps run t₀) (writeSnapshot H R run a)
      (fun _ t => ∃ files, a.files = some files ∧ Replaced H R run t₀ (a.manifest H R files) t)
      (fun t => Keeps run t₀ t ∨
        ∃ files, a.files = some files ∧ Replaced H R run t₀ (a.manifest H R files) t) := by
  have early : ∀ {α : Type} {P : FileTree Byte → Prop} {x : FsM Byte α}
      {Q : α → FileTree Byte → Prop}, Spec P x Q (Keeps run t₀) → Spec P x Q (fun t =>
        Keeps run t₀ t ∨
          ∃ files, a.files = some files ∧ Replaced H R run t₀ (a.manifest H R files) t) :=
    fun h => h.weakenCut fun t ht => .inl ht
  refine Spec.bind (early createDirAll_spec) fun _ => ?_
  refine Spec.bind (early createDir_spec) fun _ => ?_
  have hstart := @writeTable_spec run t₀ (tempName a.generation) R [] "reachable_nodes.csv"
    (by simp) (writeReachable a.snapshot)
  refine Spec.bind (early (hstart.weaken (fun t h => ⟨h, nofun⟩) fun _ _ h => h)) fun _ => ?_
  refine Spec.witness fun reachable => Spec.given fun hreachable => ?_
  refine Spec.bind (early (writeTable_spec R (by simp) _)) fun _ => ?_
  refine Spec.witness fun handshakeFailed => Spec.given fun hfailed => ?_
  refine Spec.bind (early (writeTable_spec R (by simp) _)) fun _ => ?_
  refine Spec.witness fun unreachable => Spec.given fun hunreachable => ?_
  refine Spec.bind (early (writeIn_spec (by simp) _)) fun _ => ?_
  -- All four files are written.
  obtain ⟨files, hfiles, htexts⟩ : ∃ files, a.files = some files ∧ resultTexts R files =
      [("crawler_stats.json", (R.stats (writeStatsJson a.snapshot a.settings a.timestamp a.seeds
          a.info.runtimeSeconds a.info.numProcessed a.info.consistent a.budgetRejected
          a.info.runComplete)).flatten),
        ("unreachable_nodes.csv", (R.csv unreachable).flatten),
        ("handshake_failed_nodes.csv", (R.csv handshakeFailed).flatten),
        ("reachable_nodes.csv", (R.csv reachable).flatten)] := by
    refine ⟨⟨reachable, handshakeFailed, unreachable, writeStatsJson a.snapshot a.settings
      a.timestamp a.seeds a.info.runtimeSeconds a.info.numProcessed a.info.consistent
      a.budgetRejected a.info.runComplete⟩, ?_, rfl⟩
    unfold SnapshotCall.files resultFiles
    rw [hreachable, hfailed, hunreachable]
    rfl
  rw [← htexts]
  have hnames := resultTexts_lookup R files
  refine Spec.bind (early (hash_spec H hnames)) fun hashes => ?_
  refine Spec.given fun hhashes => ?_
  refine Spec.bind (early (FsM.sync_spec fun t h => h.1.keeps)) fun _ => ?_
  refine Spec.bind (early (place_spec (tempName_ne a.generation))) fun _ => ?_
  refine Spec.bind (early (FsM.sync_spec fun t h => h.keeps)) fun _ => ?_
  subst hhashes
  have hpublish := @publish_spec run t₀ H R a.manifestTemp (a.manifest H R files) _ hnames rfl rfl
  exact (hpublish.weaken (fun t h => h) fun _ t h => ⟨files, hfiles, h⟩).weakenCut
    fun t h => h.imp_right fun h => ⟨files, hfiles, h⟩

end Steps

/-! ## Any number of calls -/

section Runs
variable (H : Digests) (R : Rendering) (run : Path)

/-- Something other than the manifest and the snapshots changes, such as the address log. -/
def Elsewhere (t t' : FileTree Byte) : Prop :=
  t'.view (manifestPath run) = t.view (manifestPath run) ∧
    ∀ q, snapshotsDir run <+: q → t'.view q = t.view q

/-- A call, however far it gets, or a change elsewhere. -/
def Change (t t' : FileTree Byte) : Prop :=
  (∃ a fates, t' = (writeSnapshot H R run a fates t).state) ∨ Elsewhere run t t'

/-- The run directory from one time to a later one. -/
abbrev Later : FileTree Byte → FileTree Byte → Prop := Relation.ReflTransGen (Change H R run)

/-- What the manifest names, if there is one, is complete. -/
def Sound (t : FileTree Byte) : Prop :=
  ∀ n, t.view (manifestPath run) = some n →
    ∃ m, n = .file (R.manifest m).flatten ∧ Complete H run t m

variable {H R run} {t t' : FileTree Byte}

theorem Elsewhere.keeps (h : Elsewhere run t t') : Keeps run t t' := by
  refine ⟨h.1, fun g _ q hq => h.2 q (List.IsPrefix.trans ?_ hq)⟩
  refine (List.prefix_append_right_inj run).mpr ?_
  simp [List.cons_prefix_cons]

/-- What a call leaves, however it ends. -/
theorem writeSnapshot_state (a : SnapshotCall) (fates : List (Fate (List Byte))) :
    Keeps run t (writeSnapshot H R run a fates t).state ∨
      ∃ files, a.files = some files ∧
        Replaced H R run t (a.manifest H R files) (writeSnapshot H R run a fates t).state := by
  have hspec := @writeSnapshot_spec run t H R a
  exact (hspec.weaken (fun _ h => h) fun _ _ h => .inr h).state .refl

/-- No change touches a live generation. -/
theorem Change.generations (h : Change H R run t t') {g : String} (hg : Live run t g) :
    ∀ q, generationDir run g <+: q → t'.view q = t.view q := by
  obtain ⟨a, fates, rfl⟩ | h := h
  · obtain h | ⟨files, -, h⟩ := @writeSnapshot_state H R run t a fates
    · exact h.generations g hg
    · exact h.generations g hg
  · exact h.keeps.generations g hg

theorem Complete.later {m : SnapshotManifest} (h : Complete H run t m) (hl : Later H R run t t') :
    Complete H run t' m ∧
      ∀ q, generationDir run m.generation <+: q → t'.view q = t.view q := by
  induction hl with
  | refl => exact ⟨h, fun _ _ => rfl⟩
  | tail _ hc ih =>
    have hgen := hc.generations ih.1.live
    exact ⟨ih.1.of_same hgen, fun q hq => (hgen q hq).trans (ih.2 q hq)⟩

theorem Sound.keeps (h : Sound H R run t) (hk : Keeps run t t') : Sound H R run t' := by
  intro n hn
  rw [hk.manifest] at hn
  obtain ⟨m, hm, hc⟩ := h n hn
  exact ⟨m, hm, hc.of_same (hk.generations _ hc.live)⟩

theorem Replaced.sound {m : SnapshotManifest} (h : Replaced H R run t m t') :
    Sound H R run t' := by
  intro n hn
  rw [h.manifest] at hn
  cases hn
  exact ⟨m, rfl, h.complete⟩

theorem Sound.change (h : Sound H R run t) (hc : Change H R run t t') : Sound H R run t' := by
  obtain ⟨a, fates, rfl⟩ | hc := hc
  · obtain hk | ⟨files, -, hr⟩ := @writeSnapshot_state H R run t a fates
    · exact h.keeps hk
    · exact hr.sound
  · exact h.keeps hc.keeps

theorem Sound.later (h : Sound H R run t) (hl : Later H R run t t') : Sound H R run t' := by
  induction hl with
  | refl => exact h
  | tail _ hc ih => exact ih.change hc

/-- **Publication is all or nothing.**  From a directory without a manifest, after any number of
calls, each of which may fail or stop at any step: the next call leaves the manifest as it was or
replaces it by the complete new one; what the manifest names is complete, and where different
manifests have different texts that is true of whatever the text may say; and nothing below a
generation that was ever published has changed.  A call that succeeds has replaced it. -/
theorem publication_atomic {t₀ : FileTree Byte} (hnone : t₀.view (manifestPath run) = none)
    (hl : Later H R run t₀ t) (a : SnapshotCall) (fates : List (Fate (List Byte)))
    (hout : t' = (writeSnapshot H R run a fates t).state) :
    (t'.view (manifestPath run) = t.view (manifestPath run) ∨
      ∃ files, a.files = some files ∧ t'.view (manifestPath run) =
        some (.file (R.manifest (a.manifest H R files)).flatten)) ∧
    (∀ n, t'.view (manifestPath run) = some n →
      ∃ m, n = .file (R.manifest m).flatten ∧ Complete H run t' m) ∧
    ((∀ m m', (R.manifest m).flatten = (R.manifest m').flatten → m = m') →
      ∀ m, t'.view (manifestPath run) = some (.file (R.manifest m).flatten) →
        Complete H run t' m) ∧
    (∀ t₁, Later H R run t₀ t₁ → Later H R run t₁ t → ∀ m,
      t₁.view (manifestPath run) = some (.file (R.manifest m).flatten) → Complete H run t₁ m →
      Complete H run t' m ∧ ∀ q, generationDir run m.generation <+: q → t'.view q = t₁.view q) ∧
    ((writeSnapshot H R run a fates t).result = some () →
      ∃ files, a.files = some files ∧ t'.view (manifestPath run) =
        some (.file (R.manifest (a.manifest H R files)).flatten)) := by
  have hsound : Sound H R run t := by
    refine Sound.later (fun n hn => ?_) hl
    rw [hnone] at hn
    cases hn
  have hchange : Change H R run t t' := .inl ⟨a, fates, hout⟩
  refine ⟨?_, hsound.change hchange, fun hinj m hm => ?_,
    fun t₁ _ hl₁ m _ hc => hc.later (hl₁.tail hchange), ?_⟩
  · rw [hout]
    obtain h | ⟨files, hfiles, h⟩ :=
      @writeSnapshot_state H R run t a fates
    · exact .inl h.manifest
    · exact .inr ⟨files, hfiles, h.manifest⟩
  · obtain ⟨m', hm', hc⟩ := hsound.change hchange _ hm
    obtain rfl := hinj m m' (View.file.inj hm')
    exact hc
  · intro hdone
    rw [hout]
    obtain ⟨files, hfiles, h⟩ := (writeSnapshot_spec H R a).result (.refl (t := t)) hdone
    exact ⟨files, hfiles, h.manifest⟩

end Runs

/-- Tables without quoting, and texts that stand for the two JSON objects. -/
def plain : Rendering where
  csv t := (t.header :: t.rows).map fun row => utf8 (",".intercalate row ++ "\n").toList
  stats s := [utf8 (toString s.numAdvertised).toList, utf8 ['\n']]
  manifest m := [utf8 m.generation.toList, utf8 ['\n']]

/-- A checkpoint of a crawl that has found one node. -/
def checkpointCall : SnapshotCall where
  snapshot := sampleSnapshot.take 1
  budgetRejected := 0
  settings := soloSettings
  timestamp := "20260101T000000Z"
  seeds := []
  info := ⟨8, 1, none, true, false⟩
  generation := "20260101T000008.000000000Z-1"
  manifestTemp := "1-0"

/-- The last write of the same crawl. -/
def lastCall : SnapshotCall :=
  { checkpointCall with
    snapshot := sampleSnapshot
    info := ⟨16, 2, none, true, true⟩
    generation := "20260101T000016.000000000Z-1"
    manifestTemp := "1-1" }

/-- What the checkpoint leaves. -/
def checkpointed : FileTree Byte :=
  (writeSnapshot .zero plain ["crawl"] checkpointCall (List.replicate 40 .ok) (.dir [])).state

/-- The generation directory has its final name, and a byte of the manifest is written. -/
def betweenRenames : List (Fate (List Byte)) := List.replicate 27 .ok ++ [.fail [0]]

/-- A checkpoint is published, and the last write fails between its two renames: its own generation
    lies there, and the manifest still names the one of the checkpoint, complete and untouched. -/
theorem publication_atomic_between : ∃ t' m,
    t' = (writeSnapshot .zero plain ["crawl"] lastCall betweenRenames checkpointed).state ∧
    (writeSnapshot .zero plain ["crawl"] lastCall betweenRenames checkpointed).result = none ∧
    t'.view (generationDir ["crawl"] lastCall.generation) = some .dir ∧
    m.generation = checkpointCall.generation ∧
    t'.view (manifestPath ["crawl"]) = some (.file (plain.manifest m).flatten) ∧
    Complete .zero ["crawl"] t' m ∧
    ∀ q, generationDir ["crawl"] m.generation <+: q → t'.view q = checkpointed.view q := by
  obtain ⟨-, hsound, -, -, hpublished⟩ := @publication_atomic .zero plain ["crawl"] (.dir [])
    checkpointed (.dir []) rfl .refl checkpointCall (List.replicate 40 .ok) rfl
  obtain ⟨files, -, hview⟩ := hpublished (by decide +kernel)
  obtain ⟨m, hm, hcomplete⟩ := hsound _ hview
  have hgeneration : m.generation = checkpointCall.generation := by
    have htext : utf8 checkpointCall.generation.toList = utf8 m.generation.toList :=
      List.append_cancel_right (View.file.inj hm)
    have hread := fromUtf8_iff.mpr htext
    rw [fromUtf8_iff.mpr rfl] at hread
    exact (Option.some.inj hread).symm
  rw [hm] at hview
  have hstep : Later .zero plain ["crawl"] (.dir []) checkpointed :=
    .single (.inl ⟨checkpointCall, List.replicate 40 .ok, rfl⟩)
  obtain ⟨-, -, -, hkept, -⟩ := @publication_atomic .zero plain ["crawl"] checkpointed _ (.dir []) rfl
    hstep lastCall betweenRenames rfl
  obtain ⟨hcomplete', hsame⟩ := hkept checkpointed hstep .refl m hview hcomplete
  have hstays : (writeSnapshot .zero plain ["crawl"] lastCall betweenRenames
      checkpointed).state.view (manifestPath ["crawl"]) =
        checkpointed.view (manifestPath ["crawl"]) := by
    decide +kernel
  exact ⟨_, m, rfl, by decide +kernel, by decide +kernel, hgeneration, hstays.trans hview,
    hcomplete', hsame⟩

end Publication

end P2PCrawler
