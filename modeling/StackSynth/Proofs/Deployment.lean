import StackSynth.Proofs.Building
import StackSynth.Proofs.SharedStaging

/-!
# Deployment — runs over one output directory

An output directory is filled by runs alone, of which some succeed and some fail, while anything
may happen elsewhere.  A run that fails leaves the manifest of the last success, and the assets
that it lists, except for those of which the run had already packaged another version.

* `deploy` — one run, from a stack file to a manifest;
* `deploy_ok`, `deploy_error` — what a run does when it succeeds and when it fails;
* `Deployed`, `Deployed.holds` — how an output directory comes about, and what every run preserves;
* `failed_run_keeps` — what is left after a run that fails.
-/

namespace StackSynth

open FileSystem Packaging

/-- Loads a stack file, makes its stack, adds it to an app and writes plan and manifest. -/
def deploy (file outdir : Path) : Action Failure App := do
  let (declared, _) ← Action.query fun fs => StackFile.load fs file
  let app := App.empty outdir .standard
  let stack ← declared.build app
  let app ← Action.ofExcept (app.addStack stack)
  let _ ← app.synthesize
  return app

/-- The place of an asset that a manifest lists. -/
def Manifest.place (outdir : Path) (record : StackRecord) (asset : AssetRecord) : Path :=
  (outdir.childText record.directory).childText asset.path

section Runs

variable {file outdir : Path} {root : Location} {fs after : FileSystem} {stack : Stack} {app : App}

/-- A run over the file had registered the assets of a stack. -/
def HadRegistered (file outdir : Path) (fs : FileSystem) (stack : Stack) : Prop :=
  ∃ declared warnings, StackFile.load fs file = .ok (declared, warnings)
    ∧ declared.Registered outdir fs stack

/-! ## One run -/

theorem addStack_ok (run : (App.empty outdir .standard).addStack stack = .ok app) :
    app.outdir = outdir ∧ app.registered = [stack] := by
  unfold App.addStack at run
  split at run
  · cases run
  · split at run
    · cases run
    · obtain rfl := Except.ok.inj run
      exact ⟨rfl, rfl⟩

theorem deploy_ok (standing : Standing outdir root fs) (run : deploy file outdir fs = .ok app after) :
    ∃ stack mid, Stack.Built outdir root fs stack mid ∧ app.registered = [stack]
      ∧ Advance outdir root (· = Manifest.node :: root) Nothing mid after
      ∧ Straight after outdir root [Manifest.node]
      ∧ after.get? (Manifest.node :: root)
        = some (.file (App.documentFile (Manifest.ofApp app).json) 0o600) := by
  obtain ⟨⟨declared, _⟩, _, asked, rest⟩ := Action.bind_ok_iff.mp run
  obtain ⟨-, rfl⟩ := Action.query_ok_iff.mp asked
  obtain ⟨stack, mid, build, rest⟩ := Action.bind_ok_iff.mp rest
  obtain ⟨withAssets, -, same, built⟩ := StackFile.build_ok standing build
  obtain ⟨app', _, asked, rest⟩ := Action.bind_ok_iff.mp rest
  obtain ⟨added, rfl⟩ := Action.ofExcept_ok_iff.mp asked
  obtain ⟨report, final, synthesized, done⟩ := Action.bind_ok_iff.mp rest
  obtain ⟨rfl, rfl⟩ := Action.pure_ok_iff.mp done
  obtain ⟨rfl, registered⟩ := addStack_ok added
  have belong : ∀ other ∈ app'.registered, other.BelongsTo app'.outdir := by
    simpa [registered] using (built.same same).belongs
  obtain ⟨advance, straight, stands, -⟩ :=
    App.synthesize_ok built.advance.standing belong (by simp [registered]) synthesized
  exact ⟨stack, _, built.same same, registered, advance, straight, stands⟩

/-- Wherever a run fails, the assets that it registered are there and little else has changed. -/
theorem deploy_error (standing : Standing outdir root fs) {e : Failure}
    (run : deploy file outdir fs = .error e after) :
    after = fs ∨ ∃ stack, HadRegistered file outdir fs stack ∧ Stack.Built outdir root fs stack after := by
  rcases Action.bind_error_iff.mp run with asked | ⟨⟨declared, warnings⟩, _, asked, rest⟩
  · exact Or.inl (Action.query_error_iff.mp asked).2.symm
  obtain ⟨loaded, rfl⟩ := Action.query_ok_iff.mp asked
  rcases Action.bind_error_iff.mp rest with failed | ⟨stack, mid, build, rest⟩
  · exact (StackFile.build_error standing failed).imp_right fun ⟨stack, registered, built⟩ =>
      ⟨stack, ⟨declared, warnings, loaded, registered⟩, built⟩
  -- The assets are complete; what fails behind loses nothing.
  obtain ⟨withAssets, registered, same, built⟩ := StackFile.build_ok standing build
  refine Or.inr ⟨withAssets, ⟨declared, warnings, loaded, registered⟩, ?_⟩
  rcases Action.bind_error_iff.mp rest with asked | ⟨app, _, asked, rest⟩
  · obtain ⟨-, rfl⟩ := Action.ofExcept_error_iff.mp asked
    exact built
  obtain ⟨added, rfl⟩ := Action.ofExcept_ok_iff.mp asked
  rcases Action.bind_error_iff.mp rest with failed | ⟨report, final, -, done⟩
  · obtain ⟨rfl, known⟩ := addStack_ok added
    have belong : ∀ other ∈ app.registered, other.BelongsTo app.outdir := by
      simpa [known] using (built.same same).belongs
    exact built.step
      (App.synthesize_error built.advance.standing belong (by simp [known]) failed)
  · exact absurd done Action.pure_error_iff.mp

/-! ## Many runs -/

/-- Nothing in the output directory changes, and nobody works in a version of an asset. -/
structure Undisturbed (outdir : Path) (root : Location) (fs after : FileSystem) : Prop
    extends Elsewhere outdir root fs after where
  away : ∀ names, versionDepth ≤ names.length → after.current ≠ names ++ root

/-- Runs have filled an output directory, and nothing else has; the manifest is that of the last
run which succeeded, if there is one. -/
inductive Deployed (outdir : Path) (root : Location) : FileSystem → Option Manifest → Prop
  | begin {fs : FileSystem} : Sound fs → Rooted fs outdir root →
      (∀ l, Location.Below root l → fs.get? l = none) → Deployed outdir root fs none
  | elsewhere {fs after : FileSystem} {manifest : Option Manifest} :
      Deployed outdir root fs manifest → Undisturbed outdir root fs after →
      Deployed outdir root after manifest
  | succeeded {fs after : FileSystem} {manifest : Option Manifest} {file : Path} {app : App} :
      Deployed outdir root fs manifest → deploy file outdir fs = .ok app after →
      Deployed outdir root after (some (.ofApp app))
  | failed {fs after : FileSystem} {manifest : Option Manifest} {file : Path} {e : Failure} :
      Deployed outdir root fs manifest → deploy file outdir fs = .error e after →
      Deployed outdir root after manifest

/-- The manifest is there, and its assets were staged where it says. -/
structure Lists (outdir : Path) (root : Location) (fs : FileSystem) (manifest : Manifest) :
    Prop where
  straight : Straight fs outdir root [Manifest.node]
  stands : fs.get? (Manifest.node :: root)
    = some (.file (App.documentFile manifest.json) 0o600)
  stack : ∃ app stack, manifest = .ofApp app ∧ app.registered = [stack]
    ∧ ∀ asset ∈ stack.assets, ∃ short name, asset.StagedAs outdir stack.name short name

/-- What holds after every run. -/
structure Holds (outdir : Path) (root : Location) (fs : FileSystem) (manifest : Option Manifest) :
    Prop where
  standing : Standing outdir root fs
  listed : ∀ known, manifest = some known → Lists outdir root fs known

/-! ## Steps keep the invariant -/

variable {manifest : Option Manifest}

theorem Standing.begin (sound : Sound fs) (rooted : Rooted fs outdir root)
    (nothing : ∀ l, Location.Below root l → fs.get? l = none) : Standing outdir root fs := by
  refine ⟨sound, rooted, ?_, ?_, ?_⟩
  · intro l object below stands
    rw [nothing l below] at stands
    cases stands
  · intro names deep same
    have here := sound.here
    rw [same, nothing _ (below_of_length deep)] at here
    cases here
  · intro names deep stands
    exact absurd (nothing _ (below_of_length deep)) stands

theorem Holds.begin (sound : Sound fs) (rooted : Rooted fs outdir root)
    (nothing : ∀ l, Location.Below root l → fs.get? l = none) : Holds outdir root fs none where
  standing := .begin sound rooted nothing
  listed := by simp

theorem Standing.elsewhere (standing : Standing outdir root fs)
    (undisturbed : Undisturbed outdir root fs after) : Standing outdir root after := by
  have same : ∀ {l}, Location.Below root l → after.get? l = fs.get? l := fun below =>
    undisturbed.same _ below.1
  refine ⟨undisturbed.sound, undisturbed.rooted, ?_, undisturbed.away, ?_⟩
  · intro l object below stands
    exact standing.plain l object below (same below ▸ stands)
  · intro names deep stands
    rw [same (below_of_length deep)] at stands
    exact undisturbed.found (standing.found names deep stands)

theorem Holds.elsewhere (holds : Holds outdir root fs manifest)
    (undisturbed : Undisturbed outdir root fs after) : Holds outdir root after manifest where
  standing := holds.standing.elsewhere undisturbed
  listed := by
    intro known isKnown
    obtain ⟨⟨spelled, fit, entered⟩, stands, stack⟩ := holds.listed known isKnown
    refine ⟨⟨spelled, fit, undisturbed.found entered⟩, ?_, stack⟩
    rw [undisturbed.same _ (List.suffix_cons _ root)]
    exact stands

/-- The manifest does not notice steps that do not touch it. -/
theorem Lists.kept {gone new : Location → Prop} {known : Manifest} (lists : Lists outdir root fs known)
    (standing : Standing outdir root fs) (advance : Advance outdir root gone new fs after)
    (stays : ¬ gone (Manifest.node :: root)) : Lists outdir root after known where
  straight := ⟨lists.straight.spelled, lists.straight.fit,
    standing.entered advance.outside lists.straight.entered⟩
  stands := advance.kept _ _ (Or.inl rfl) stays lists.stands
  stack := lists.stack

theorem Holds.failed (holds : Holds outdir root fs manifest) {e : Failure}
    (run : deploy file outdir fs = .error e after) : Holds outdir root after manifest := by
  rcases deploy_error holds.standing run with rfl | ⟨stack, -, built⟩
  · exact holds
  · refine ⟨built.advance.standing, fun known isKnown => ?_⟩
    refine (holds.listed known isKnown).kept holds.standing built.advance ?_
    rintro ⟨asset, -, text, -, stale⟩
    exact Stack.not_stale_manifest stale

theorem Holds.succeeded (holds : Holds outdir root fs manifest)
    (run : deploy file outdir fs = .ok app after) : Holds outdir root after (some (.ofApp app)) := by
  obtain ⟨stack, mid, built, registered, advance, straight, stands⟩ := deploy_ok holds.standing run
  refine ⟨advance.standing, ?_⟩
  rintro _ ⟨⟩
  refine ⟨straight, stands, app, stack, rfl, registered, fun asset member => ?_⟩
  obtain ⟨short, name, named, -⟩ := built.staged asset member
  exact ⟨short, name, named⟩

theorem Deployed.holds (deployed : Deployed outdir root fs manifest) :
    Holds outdir root fs manifest := by
  induction deployed with
  | begin sound rooted nothing => exact .begin sound rooted nothing
  | elsewhere _ undisturbed ih => exact ih.elsewhere undisturbed
  | succeeded _ run ih => exact ih.succeeded run
  | failed _ run ih => exact ih.failed run

/-! ## Places that a manifest lists -/

/-- A name that is text is shown as it is. -/
theorem Name.encode_display {name : Name} {text : String} (isText : name.text? = some text) :
    Utf8.encode (Utf8.display name.bytes) = name.bytes := by
  have read : Utf8.decode? name.bytes = some text := isText
  rw [Utf8.display, read]
  exact Utf8.encode_of_decode? read

theorem ConstructId.text?_node (id : ConstructId) : id.node.text? = some id.text :=
  Utf8.decode?_encode id.text

theorem Path.childText_slashed (p : Path) {names : List Name} (some : names ≠ [])
    (texts : ∀ name ∈ names, ∃ text, name.text? = Option.some text) :
    p.childText (slashed (names.map fun name => .name name.bytes)) = p.descend names := by
  refine childText_eq_descend some ?_ p
  rw [slashed, Utf8.encode_joinWith, List.map_map, List.map_map]
  congr 1
  refine List.map_congr_left fun name member => ?_
  obtain ⟨text, isText⟩ := texts name member
  exact Name.encode_display isText

theorem StackRecord.directory_ofStack (p : Path) (stack : Stack) :
    p.childText (StackRecord.ofStack stack).directory
      = p.descend [App.stacksNode, stack.name.node] := by
  refine Path.childText_eq_descend (by simp) ?_ p
  exact Utf8.encode_joinWith [App.stacksName, stack.name.text]

theorem StackRecord.planPath_ofStack (p : Path) (stack : Stack) :
    p.childText (StackRecord.ofStack stack).planPath
      = p.descend [App.stacksNode, stack.name.node, Plan.node] := by
  refine Path.childText_eq_descend (by simp) ?_ p
  have path : (StackRecord.ofStack stack).planPath
      = Text.joinWith "/" [App.stacksName, stack.name.text, Plan.fileName] := by
    simp only [StackRecord.ofStack, Text.joinWith, String.append_assoc]
  rw [path]
  exact Utf8.encode_joinWith [App.stacksName, stack.name.text, Plan.fileName]

/-- An asset is listed where it was staged. -/
theorem Manifest.place_ofAsset {asset : Asset} {short name : Name}
    (named : asset.StagedAs outdir stack.name short name) :
    Manifest.place outdir (.ofStack stack) (.ofAsset asset)
      = outdir.descend (Stack.stagingNames stack.name asset.id ++ [short, name]) := by
  have path : (AssetRecord.ofAsset asset).path = asset.path := rfl
  have texts : ∀ part ∈ [Stack.assetsNode, asset.id.node, short, name],
      ∃ text, part.text? = some text := by
    obtain ⟨keep, -, first⟩ := named.version
    have isAssets : Stack.assetsNode.text? = some Stack.assetsName := Utf8.decode?_encode _
    simp [isAssets, asset.id.text?_node, first, named.text]
  rw [Manifest.place, StackRecord.directory_ofStack, path, named.path,
    Path.childText_slashed _ (by simp) texts, ← Path.descend_append]
  rfl

/-! ## What is left after a run that fails -/

theorem Lists.readFile {known : Manifest} (lists : Lists outdir root fs known)
    (standing : Standing outdir root fs) :
    fs.readFile (outdir.childText Manifest.fileName)
      = .ok (App.documentFile known.json, 0o600) := by
  have named : Name.ofText? Manifest.fileName = some Manifest.node :=
    Name.ofBytes?_bytes Manifest.node
  rw [Path.childText_eq_child named outdir]
  exact standing.readFile (List.cons_ne_nil Manifest.node []) lists.straight lists.stands

end Runs

/-! ## An asset that is lost -/

namespace Replacement

/-- A stack file with the asset `a` from the file `x`. -/
def first : Bytes :=
  Utf8.encode "[stack]\nname = \"s\"\n[[assets]]\nid = \"a\"\npath = \"x\"\ntype = \"file\"\n"

/-- One with the asset `a` from the file `y`, and then with `a` once more. -/
def second : Bytes :=
  Utf8.encode ("[stack]\nname = \"s\"\n[[assets]]\nid = \"a\"\npath = \"y\"\ntype = \"file\"\n"
    ++ "[[assets]]\nid = \"a\"\npath = \"y\"\ntype = \"file\"\n")

def firstName : Name := ⟨Utf8.encode "first.toml", by cbv⟩

def secondName : Name := ⟨Utf8.encode "second.toml", by cbv⟩

/-- The short form of the hash of nothing, which is what `x` holds. -/
def oldShort : Name := EmptyPair.short

/-- The short form of the hash of the octet 121, which is what `y` holds. -/
def newShort : Name := ⟨Utf8.encode "a1fce4363854ff88", by cbv⟩

def outdirName : Name := ⟨[111], by decide⟩

/-- The directory `o`. -/
def outdir : Path := ⟨outdirName.bytes⟩

def root : Location := [outdirName]

def stackId : ConstructId := ⟨"s", by decide⟩

def assetId : ConstructId := ⟨"a", by decide⟩

/-! ### File systems -/

def stackPlace : Location := stackId.node :: App.stacksNode :: root

def versions : Location := assetId.node :: Stack.assetsNode :: stackPlace

def sources : List (Location × Object) :=
  [([firstName], .file first 0o644), ([secondName], .file second 0o644),
    ([⟨[120], by decide⟩], .file [] 0o644), ([⟨[121], by decide⟩], .file [121] 0o644)]

def directories : List (Location × Object) :=
  [(versions, .directory), (Stack.assetsNode :: stackPlace, .directory), (stackPlace, .directory),
    (App.stacksNode :: root, .directory), (root, .directory)]

def oldVersion : List (Location × Object) :=
  [(oldShort :: oldShort :: versions, .file [] 0o644), (oldShort :: versions, .directory)]

def newVersion : List (Location × Object) :=
  [(newShort :: newShort :: versions, .file [121] 0o644), (newShort :: versions, .directory)]

def documents (plan manifest : Bytes) : List (Location × Object) :=
  [(Manifest.node :: root, .file manifest 0o600), (Plan.node :: stackPlace, .file plan 0o600)]

def start : FileSystem := ⟨sources, []⟩

/-- In the first run, the asset is registered, then the plan and the manifest are written. -/
def staged : FileSystem := ⟨oldVersion ++ directories ++ sources, []⟩

def planned (plan : Bytes) : FileSystem :=
  ⟨(Plan.node :: stackPlace, .file plan 0o600) :: staged.objects, []⟩

def written (plan manifest : Bytes) : FileSystem :=
  ⟨documents plan manifest ++ staged.objects, []⟩

/-- In the second run, the other version is staged and the first one is removed. -/
def both (plan manifest : Bytes) : FileSystem :=
  ⟨newVersion ++ (written plan manifest).objects, []⟩

def replaced (plan manifest : Bytes) : FileSystem :=
  ⟨newVersion ++ documents plan manifest ++ directories ++ sources, []⟩

/-! ### Steps -/

def decl (source : UInt8) : AssetDecl := ⟨"a", ⟨[source]⟩, .file⟩

def declared (assets : List AssetDecl) : StackFile :=
  ⟨{}, "s", [], assets, [], [], [], StackFile.here⟩

/-- The stack before its assets. -/
def bare : Stack :=
  .empty stackId ((App.empty outdir .standard).stackDirectory stackId) .standard

def staging : Path := bare.staging assetId

def oldPath : Path := (staging.childText "e3b0c44298fc1c14").childText "e3b0c44298fc1c14"

def newPath : Path := (staging.childText "a1fce4363854ff88").childText "a1fce4363854ff88"

theorem stages_old :
    stageIn ⟨[46, 47, 120]⟩ .file [] (staging.childText "e3b0c44298fc1c14") oldPath start
      = .ok () staged := by
  have made : createAll (staging.childText "e3b0c44298fc1c14") start
      = .ok () ⟨(oldShort :: versions, .directory) :: directories ++ sources, []⟩ := by cbv
  refine stageIn_done made ?_
  unfold stage
  cbv

theorem prunes_nothing : prune staging "e3b0c44298fc1c14" staged = .ok 0 staged := by
  have listed : staged.names staging = .ok [oldShort] := by cbv
  refine prune_none listed fun name member replaced => replaced.other ?_
  rw [List.mem_singleton.mp member]
  rfl

theorem writes_plan (plan : Bytes) :
    writeAtomically bare.planPath plan staged = .ok () (planned plan) := by
  cbv

theorem writes_manifest (plan manifest : Bytes) :
    writeAtomically (App.empty outdir .standard).manifestPath manifest (planned plan)
      = .ok () (written plan manifest) := by
  cbv

theorem stages_new (plan manifest : Bytes) :
    stageIn ⟨[46, 47, 121]⟩ .file [] (staging.childText "a1fce4363854ff88") newPath
      (written plan manifest) = .ok () (both plan manifest) := by
  have made : createAll (staging.childText "a1fce4363854ff88") (written plan manifest)
      = .ok () ⟨(newShort :: versions, .directory) :: (written plan manifest).objects, []⟩ := by cbv
  refine stageIn_done made ?_
  unfold stage
  cbv

theorem prunes_old (plan manifest : Bytes) :
    prune staging "a1fce4363854ff88" (both plan manifest) = .ok 1 (replaced plan manifest) := by
  have listed : (both plan manifest).names staging = .ok [newShort, oldShort] := by cbv
  have version : oldShort.IsVersion :=
    Name.isVersion_iff_exists.mpr ⟨"e3b0c44298fc1c14", by cbv, by cbv⟩
  have differs : "e3b0c44298fc1c14" ≠ "a1fce4363854ff88" := by decide
  have old : Replaced (both plan manifest) staging "a1fce4363854ff88" oldShort :=
    ⟨version, fun same => differs (Utf8.encode_inj same), oldShort :: versions, by cbv⟩
  have removed : (both plan manifest).removeAll (staging.child oldShort)
      = .ok (replaced plan manifest) := by cbv
  refine prune_of_names listed (pruneAmong_kept (fun new => new.other rfl) ?_)
  exact pruneAmong_removed old removed rfl

theorem shortOf_octet : shortOf (ContentHash.ofContent [121]) = .ok "a1fce4363854ff88" := by
  have hash : ContentHash.ofContent [121]
      = ⟨"sha256:a1fce4363854ff888cff4b8e7875d600c2682390412a8cf79b37d0b11148b0fa"⟩ := by
    decide +kernel
  rw [hash]
  cbv

/-- What becomes of a source with some content. -/
def asset (source : Path) (content : Bytes) (short : String) (staged : Path) : Asset where
  id := assetId
  type := .file
  source := source
  hash := ContentHash.ofContent content
  fileName := short
  path := "assets/a/" ++ short ++ "/" ++ short
  staged := staged

/-- A file is registered in the stack. -/
theorem registers {source path : Path} {content : Bytes} {short : String}
    {fs mid after : FileSystem} {count : Nat} (checked : checkSource fs source .file = .ok ())
    (read : fs.read source = .ok content)
    (ofHash : shortOf (ContentHash.ofContent content) = .ok short)
    (named : Artifact.nameFor short .file source = short)
    (place : (staging.childText short).childText short = path) (missing : fs.exists? path = false)
    (staged : stageIn source .file [] (staging.childText short) path fs = .ok () mid)
    (pruned : prune staging short mid = .ok count after)
    (relative : ∀ hash, Path.slashed (bare.relative assetId short ⟨hash, short, path⟩)
      = "assets/a/" ++ short ++ "/" ++ short) :
    bare.addAsset "a" source .file fs = .ok (asset source content short path,
      { bare with assets := [asset source content short path] }) after :=
  Stack.addAsset_file rfl rfl checked read ofHash named place missing staged pruned
    (by rw [relative]; rfl)

def oldAsset : Asset := asset ⟨[46, 47, 120]⟩ [] "e3b0c44298fc1c14" oldPath

def newAsset : Asset := asset ⟨[46, 47, 121]⟩ [121] "a1fce4363854ff88" newPath

theorem adds_file : bare.addAsset "a" ⟨[46, 47, 120]⟩ .file start
    = .ok (oldAsset, { bare with assets := [oldAsset] }) staged :=
  registers (by cbv) (by cbv) EmptyPair.shortOf_nil (by cbv) rfl (by cbv) stages_old prunes_nothing
    (fun hash => by cbv)

theorem adds_old : StackFile.asset StackFile.here bare (decl 120) start
    = .ok { bare with assets := [oldAsset] } staged := by
  have source : StackFile.here / (decl 120).path = (⟨[46, 47, 120]⟩ : Path) := by cbv
  have added := adds_file
  rw [← source] at added
  exact Action.bind_ok_iff.mpr ⟨_, _, added, rfl⟩

theorem adds_new (plan manifest : Bytes) :
    StackFile.asset StackFile.here bare (decl 121) (written plan manifest)
      = .ok { bare with assets := [newAsset] } (replaced plan manifest) := by
  have source : StackFile.here / (decl 121).path = (⟨[46, 47, 121]⟩ : Path) := by cbv
  have added := registers (by cbv) (by cbv) shortOf_octet (by cbv) rfl (by cbv)
    (stages_new plan manifest) (prunes_old plan manifest) (fun hash => by cbv)
  rw [← source] at added
  exact Action.bind_ok_iff.mpr ⟨_, _, added, rfl⟩

theorem adds_again (fs : FileSystem) :
    StackFile.asset StackFile.here { bare with assets := [newAsset] } (decl 121) fs
      = .error (.duplicate .asset "a") fs := by
  rfl

/-! ### Runs -/

/-- The stack of the first run. -/
def deployedStack : Stack := { bare with assets := [oldAsset] }

def app : App := ⟨outdir, .standard, [deployedStack]⟩

def plan : Bytes := App.documentFile (Plan.ofStack deployedStack).document

def manifest : Bytes := App.documentFile (Manifest.ofApp app).json

theorem registers_stack : (App.empty outdir .standard).addStack deployedStack = .ok app := by
  simp only [App.addStack]
  rw [if_neg (by simp [App.stack?, App.empty])]
  exact if_neg (by simp [deployedStack, bare, Stack.empty, Path.sameName])

theorem synthesizes : app.synthesize staged
    = .ok ⟨outdir, app.manifestPath, app.registered.map Stack.report⟩ (written plan manifest) :=
  App.synthesize_one rfl (writes_plan plan) (writes_manifest plan manifest)

theorem builds_first : (declared [decl 120]).build (.empty outdir .standard) start
    = .ok deployedStack staged := by
  refine Action.bind_ok_iff.mpr ⟨bare, _, rfl, ?_⟩
  refine Action.bind_ok_iff.mpr ⟨_, _, ?_, rfl⟩
  exact Action.bind_ok_iff.mpr ⟨_, _, adds_old, rfl⟩

/-- The asset of the second file is registered, and not once more. -/
theorem fails_to_build (plan manifest : Bytes) :
    (declared [decl 121, decl 121]).build (.empty outdir .standard) (written plan manifest)
      = .error (.duplicate .asset "a") (replaced plan manifest) := by
  refine Action.bind_error_iff.mpr (Or.inr ⟨bare, _, rfl, ?_⟩)
  refine Action.bind_error_iff.mpr (Or.inl ?_)
  refine Action.bind_error_iff.mpr (Or.inr ⟨_, _, adds_new plan manifest, ?_⟩)
  exact Action.bind_error_iff.mpr (Or.inl (adds_again _))

end Replacement

end StackSynth
