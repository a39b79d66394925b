import StackSynth.Proofs.Exactness
import StackSynth.Proofs.Filing
import StackSynth.Proofs.Parsing
import StackSynth.Proofs.Recording

/-!
# ReadBack — what was written is read back

The report of a run names the file of each plan, and all plans and the manifest are read from their
files as they were written, unless something stands in the way: a directory that can no longer be
entered, a directory that two stacks share, or a plan that nests deeper than the reader goes.

* `App.Gathered` — apps whose stacks were taken in one by one;
* `App.filings`, `App.synthesize_ok_iff` — a run as documents that are written in turn;
* `App.ReadsBack` — what is to be read;
* `App.Legible` — every stack has a directory of its own, and a plan that does not nest too deep;
* `App.Gathered.reads_back` — what is read of the manifest and of the plans, and when.
-/

namespace StackSynth

open FileSystem

/-! ## Files -/

theorem Plan.load_ok_iff {fs : FileSystem} {p : Path} {plan : Plan} : Plan.load fs p = .ok plan
    ↔ ∃ text, fs.readText p = .ok text ∧ Json.parse? text = some plan.document := by
  simp only [Plan.load, bind_eq_ok_iff, mapError_eq_ok_iff]
  refine exists_congr fun text => and_congr_right fun _ => ?_
  cases Json.parse? text with
  | none => simp [throw, throwThe, MonadExceptOf.throw]
  | some document =>
      obtain ⟨expected⟩ := plan
      simp [pure, Except.pure]

theorem Manifest.load_ok_iff {fs : FileSystem} {p : Path} {manifest : Manifest} :
    Manifest.load fs p = .ok manifest ↔ ∃ text, fs.readText (p.child Manifest.node) = .ok text
      ∧ Manifest.ofText text = .ok manifest := by
  have path : p.childText Manifest.fileName = p.child Manifest.node :=
    Path.childText_eq_child (Name.ofBytes?_bytes Manifest.node) p
  simp only [Manifest.load, bind_eq_ok_iff, mapError_eq_ok_iff, path]

/-! ## Apps -/

/-- Stacks were taken in one after another. -/
inductive App.Gathered : App → Prop
  | empty (outdir : Path) (packager : Packager) : Gathered (.empty outdir packager)
  | added {app next : App} {stack : Stack} : Gathered app → app.addStack stack = .ok next →
      Gathered next

theorem App.Gathered.names {app : App} (gathered : app.Gathered) :
    (app.registered.map fun stack => stack.name.text).Nodup := by
  induction gathered with
  | empty => exact List.nodup_nil
  | added _ run ih =>
      obtain ⟨fresh, -, rfl⟩ := Tree.addStack_ok run
      rw [List.map_append, List.nodup_append]
      refine ⟨ih, List.nodup_singleton _, fun text known other last same => ?_⟩
      obtain ⟨stack, member, rfl⟩ := List.mem_map.mp known
      obtain rfl := List.mem_singleton.mp last
      exact fresh stack member (ConstructId.text_inj same)

/-! ## Documents -/

def Stack.filing (stack : Stack) : Filing :=
  ⟨stack.directory, Plan.node, (Plan.ofStack stack).document⟩

theorem Stack.planPath_filing (stack : Stack) : stack.planPath = stack.filing.path :=
  stack.planPath_eq

namespace App

variable {app : App} {fs after : FileSystem} {stack : Stack}

/-- The manifest, as it is to stand in the output directory. -/
def filing (app : App) : Filing :=
  ⟨app.outdir, Manifest.node, (Manifest.ofApp app).json⟩

/-- The documents of an app, in the order in which they are written. -/
def filings (app : App) : List Filing :=
  app.registered.map Stack.filing ++ [app.filing]

theorem manifestPath_filing (app : App) : app.manifestPath = app.filing.path :=
  app.manifestPath_eq

theorem writePlans_eq (others : List Stack) :
    writePlans others = Filing.writeAll (others.map Stack.filing) := by
  induction others with
  | nil => rfl
  | cons stack rest ih =>
      rw [writePlans, ih, stack.planPath_filing]
      rfl

/-- What is reported of a run that succeeds. -/
def report (app : App) : Report :=
  ⟨app.outdir, app.manifestPath, app.registered.map Stack.report⟩

theorem synthesize_eq (app : App) : app.synthesize = (do
    Filing.writeAll app.filings
    return app.report) := by
  rw [synthesize, writePlans_eq, filings, Filing.writeAll_append, bind_assoc]
  simp only [Filing.writeAll, bind_assoc, pure_bind]
  rw [← manifestPath_filing]
  rfl

theorem synthesize_ok_iff {report : Report} : app.synthesize fs = .ok report after
    ↔ Filing.writeAll app.filings fs = .ok () after ∧ report = app.report := by
  rw [synthesize_eq, Action.bind_ok_iff]
  simp only [Action.pure_ok_iff]
  constructor
  · rintro ⟨_, mid, run, rfl, rfl⟩
    exact ⟨run, rfl⟩
  · rintro ⟨run, rfl⟩
    exact ⟨(), after, run, rfl, rfl⟩

/-! ## What is read -/

/-- The report has an entry for each stack, and no plan for any other name. -/
structure Told (app : App) (report : Report) (after : FileSystem) : Prop where
  entries : List.Forall₂ (fun stack entry => entry.name = stack.name.text
      ∧ entry.resources = stack.resources.length ∧ entry.assets = stack.assets.length
      ∧ entry.outputs = stack.outputs.length)
    app.registered report.entries
  others : ∀ name, (∀ stack ∈ app.registered, stack.name.text ≠ name) →
    report.plan? after name = .ok none

/-- Every plan is read as it was. -/
def PlansRead (app : App) (report : Report) (after : FileSystem) : Prop :=
  ∀ stack ∈ app.registered, report.plan? after stack.name.text = .ok (some (Plan.ofStack stack))

/-- A manifest is read that lists the stacks by name, each with its assets in their order. -/
def ManifestRead (app : App) (after : FileSystem) : Prop :=
  ∃ manifest, Manifest.load after app.outdir = .ok manifest
    ∧ manifest.version = release ∧ Dictionary.Sorted manifest.records
    ∧ ∀ name record, manifest.records.get? name = some record
      ↔ ∃ stack ∈ app.registered, stack.name.text = name
        ∧ record = {
            name
            planPath := "stacks/" ++ name ++ "/cdk.tf.json"
            directory := "stacks/" ++ name
            assets := stack.assets.map fun asset =>
              ⟨asset.id.text, asset.type, asset.hash, asset.fileName, asset.path⟩ }

/-- Everything that a run has written is read as it was. -/
structure ReadsBack (app : App) (report : Report) (after : FileSystem) : Prop where
  told : app.Told report after
  plans : app.PlansRead report after
  manifest : app.ManifestRead after

/-- Every stack has a directory of its own, and a plan that does not nest too deep. -/
structure Legible (app : App) (fs : FileSystem) : Prop where
  entered : ∀ stack ∈ app.registered, ∃ l, fs.Enters stack.directory l
  apart : app.registered.Pairwise fun stack other =>
    ∀ l, fs.Enters stack.directory l → ¬ fs.Enters other.directory l
  shallow : ∀ stack ∈ app.registered, (Plan.ofStack stack).document.depth ≤ Json.depthLimit

/-! ### The manifest -/

theorem proper_manifest (exact : ∀ stack ∈ app.registered, stack.Exact) :
    (Manifest.ofApp app).Proper where
  sorted := Dictionary.sorted_ofList _
  marked := by
    intro entry member asset inside
    obtain ⟨stack, known, rfl⟩ := List.mem_map.mp (Dictionary.mem_of_mem_ofList member)
    obtain ⟨own, listed, rfl⟩ := List.mem_map.mp inside
    exact (exact stack known).hashes own listed

theorem records_iff (gathered : app.Gathered) {name : String} {record : StackRecord} :
    (Manifest.ofApp app).records.get? name = some record
      ↔ ∃ stack ∈ app.registered, stack.name.text = name ∧ record = .ofStack stack := by
  have once : ((app.registered.map fun stack =>
      (stack.name.text, StackRecord.ofStack stack)).map (·.1)).Nodup := by
    rw [List.map_map]
    exact gathered.names
  rw [Manifest.ofApp, Dictionary.get?_ofList_eq_some_iff once]
  simp [eq_comm]

/-- The paths that the manifest lists. -/
theorem ofStack_eq (stack : Stack) : StackRecord.ofStack stack = {
    name := stack.name.text
    planPath := "stacks/" ++ stack.name.text ++ "/cdk.tf.json"
    directory := "stacks/" ++ stack.name.text
    assets := stack.assets.map fun asset =>
      ⟨asset.id.text, asset.type, asset.hash, asset.fileName, asset.path⟩ } := by
  have plan : stacksName ++ "/" ++ stack.name.text ++ "/" ++ Plan.fileName
      = "stacks/" ++ stack.name.text ++ "/cdk.tf.json" := by
    rw [String.append_assoc]
    rfl
  rw [StackRecord.ofStack, plan]
  rfl

/-- The manifest is written last, so that only its directory has to be there. -/
theorem manifestRead_iff (gathered : app.Gathered) (exact : ∀ stack ∈ app.registered, stack.Exact)
    (sound : Sound fs) (run : Filing.writeAll app.filings fs = .ok () after) :
    app.ManifestRead after ↔ ∃ l, after.Enters app.outdir l := by
  constructor
  · rintro ⟨manifest, found, -⟩
    obtain ⟨text, read, -⟩ := Manifest.load_ok_iff.mp found
    obtain ⟨content, file⟩ := readFile_of_readText read
    exact enters_of_readFile file
  · intro entered
    have file : after.readFile app.filing.path = .ok (app.filing.content, 0o600) :=
      Filing.writeAll_last sound run rfl entered (by simp)
    refine ⟨.ofApp app, Manifest.load_ok_iff.mpr ⟨_, readText_of_readFile file,
      Manifest.ofText_pretty (proper_manifest exact)⟩, rfl, (proper_manifest exact).sorted, ?_⟩
    intro name record
    rw [records_iff gathered]
    refine exists_congr fun stack => and_congr_right fun _ => and_congr_right fun named => ?_
    rw [ofStack_eq, named]

/-! ### Plans -/

theorem plan?_of_member (gathered : app.Gathered) (member : stack ∈ app.registered) :
    app.report.plan? after stack.name.text
      = (Plan.load after stack.filing.path).map some := by
  have found : app.report.entries.find? (fun entry => entry.name == stack.name.text)
      = some stack.report := by
    rw [report, List.find?_map]
    exact congrArg _ (find?_of_nodup gathered.names member)
  rw [Report.plan?, Report.stack?, found, ← stack.planPath_filing]
  rfl

theorem plan?_of_other {name : String} (other : ∀ stack ∈ app.registered, stack.name.text ≠ name) :
    app.report.plan? after name = .ok none := by
  have nothing : app.report.entries.find? (fun entry => entry.name == name) = none := by
    refine List.find?_eq_none.mpr fun entry member => ?_
    obtain ⟨stack, known, rfl⟩ := List.mem_map.mp member
    simpa [Stack.report] using other stack known
  rw [Report.plan?, Report.stack?, nothing]

theorem plansRead_iff_load (gathered : app.Gathered) :
    app.PlansRead app.report after
      ↔ ∀ stack ∈ app.registered, Plan.load after stack.filing.path = .ok (Plan.ofStack stack) := by
  refine forall₂_congr fun stack member => ?_
  rw [plan?_of_member gathered member]
  cases Plan.load after stack.filing.path <;> simp [Except.map]

/-- Two stacks with one plan have one name. -/
theorem name_of_ofStack {other : Stack} (same : Plan.ofStack stack = Plan.ofStack other) :
    stack.name.text = other.name.text := by
  have names := congrArg Plan.stackName? same
  rw [Plan.stackName?_ofStack, Plan.stackName?_ofStack] at names
  exact Option.some.inj names

theorem filing_mem (member : stack ∈ app.registered) : stack.filing ∈ app.filings :=
  List.mem_append_left _ (List.mem_map_of_mem member)

/-- Whoever reads all plans has entered their directories, and found none of another stack. -/
theorem legible_of_plansRead (gathered : app.Gathered) (sound : Sound fs)
    (run : Filing.writeAll app.filings fs = .ok () after)
    (loaded : ∀ stack ∈ app.registered,
      Plan.load after stack.filing.path = .ok (Plan.ofStack stack)) : app.Legible after where
  entered := by
    intro stack member
    obtain ⟨text, read, -⟩ := Plan.load_ok_iff.mp (loaded stack member)
    obtain ⟨content, file⟩ := readFile_of_readText read
    exact enters_of_readFile file
  apart := by
    refine List.Pairwise.imp_of_mem ?_ (List.pairwise_map.mp gathered.names)
    intro stack other member member' differ l entered entered'
    -- In a directory that is shared, both plans are read from one file, which has one name in it.
    have same : after.readFile stack.filing.path = after.readFile other.filing.path :=
      Filing.writeAll_same sound run (filing_mem member) (filing_mem member') rfl entered entered'
    have plans : Plan.load after stack.filing.path = Plan.load after other.filing.path := by
      simp only [Plan.load, readText, FileSystem.read, same]
    rw [loaded stack member, loaded other member'] at plans
    exact differ (name_of_ofStack (Except.ok.inj plans))
  shallow := by
    intro stack member
    obtain ⟨text, -, parsed⟩ := Plan.load_ok_iff.mp (loaded stack member)
    exact Json.depth_le_of_parse? parsed

theorem Legible.load (legible : app.Legible after) (exact : ∀ stack ∈ app.registered, stack.Exact)
    (sound : Sound fs) (run : Filing.writeAll app.filings fs = .ok () after)
    (member : stack ∈ app.registered) :
    Plan.load after stack.filing.path = .ok (Plan.ofStack stack) := by
  obtain ⟨front, back, parts⟩ := List.append_of_mem member
  have filings : app.filings
      = front.map Stack.filing ++ stack.filing :: (back.map Stack.filing ++ [app.filing]) := by
    rw [App.filings, parts, List.map_append, List.map_cons, List.append_assoc, List.cons_append]
  obtain ⟨l, entered⟩ := legible.entered stack member
  -- Later plans go to other directories, and the manifest goes by another name.
  have file : after.readFile stack.filing.path = .ok (stack.filing.content, 0o600) := by
    refine Filing.writeAll_last sound run filings ⟨l, entered⟩ fun filing later => ?_
    rcases List.mem_append.mp later with later | isLast
    · obtain ⟨other, known, rfl⟩ := List.mem_map.mp later
      have apart := legible.apart
      rw [parts, List.pairwise_append, List.pairwise_cons] at apart
      obtain ⟨l', entered'⟩ := legible.entered other (by simp [parts, known])
      refine Or.inr ⟨l, l', entered, entered', ?_⟩
      rintro rfl
      exact apart.2.1.1 other known l entered entered'
    · obtain rfl := List.mem_singleton.mp isLast
      exact Or.inl (show Plan.node ≠ Manifest.node by decide)
  obtain ⟨canonical, integral⟩ := (exact stack member).document
  exact Plan.load_ok_iff.mpr ⟨_, readText_of_readFile file,
    (Json.parse?_pretty_iff canonical integral).mpr (legible.shallow stack member)⟩

/-! ### Everything -/

theorem told_report : app.Told app.report after where
  entries := by
    rw [report, List.forall₂_map_right_iff, List.forall₂_same]
    exact fun stack _ => ⟨rfl, rfl, rfl, rfl⟩
  others := fun _ other => plan?_of_other other

/-- The manifest is read back if its directory is still there, and all plans are if each of them
has a directory of its own and does not nest too deep. -/
theorem Gathered.reads_back {report : Report} (gathered : app.Gathered)
    (exact : ∀ stack ∈ app.registered, stack.Exact) (sound : Sound fs)
    (run : app.synthesize fs = .ok report after) :
    app.Told report after
      ∧ (app.ManifestRead after ↔ ∃ l, after.Enters app.outdir l)
      ∧ (app.PlansRead report after ↔ app.Legible after) := by
  obtain ⟨written, rfl⟩ := synthesize_ok_iff.mp run
  refine ⟨told_report, manifestRead_iff gathered exact sound written, ?_⟩
  rw [plansRead_iff_load gathered]
  exact ⟨legible_of_plansRead gathered sound written, fun legible stack member =>
    legible.load exact sound written member⟩

end App

/-! ### Two stacks -/

namespace Neighbours

def outdirName : Name := ⟨[103, 101, 110], by decide⟩

def outdir : Path := ⟨[103, 101, 110]⟩

def empty : App := .empty outdir .standard

/-- Its attributes have text with escapes, and values in one another. -/
def topic : Resource :=
  ⟨⟨"aws_sns_topic", by decide⟩, ⟨"alarms", by decide⟩,
    [("name", .literal (.string "a \"quoted\" name\n")),
      ("tags", .literal (.array [.number (.integer (-1)), .object [("none", .null)]]))]⟩

def east : Stack :=
  let id : ConstructId := ⟨"eastern", by decide⟩
  { Stack.empty id (empty.stackDirectory id) .standard with resources := [topic] }

def west : Stack :=
  let id : ConstructId := ⟨"western", by decide⟩
  .empty id (empty.stackDirectory id) .standard

def app : App := ⟨outdir, .standard, [east, west]⟩

theorem gathered : app.Gathered := by
  have first : empty.addStack east = .ok ⟨outdir, .standard, [east]⟩ := by
    simp only [App.addStack]
    rw [if_neg (by simp [App.stack?, empty, App.empty])]
    exact if_neg (by simp [east, Stack.empty, Path.sameName])
  have second : App.addStack ⟨outdir, .standard, [east]⟩ west = .ok app := by
    simp only [App.addStack]
    rw [if_neg (by simp [App.stack?, east, west, Stack.empty])]
    exact if_neg (by simp [west, Stack.empty, Path.sameName, App.stackDirectory, empty, App.empty])
  exact ((App.Gathered.empty outdir .standard).added first).added second

theorem exact_topic : topic.attributes.Exact := by
  refine ⟨?_, ?_⟩
  · simp only [topic, Dictionary.Sorted, List.pairwise_cons]
    decide
  · have tags : (Json.array [.number (.integer (-1)), .object [("none", .null)]]).Exact := by
      simp [Json.Exact, Json.Canonical, Json.CanonicalItems, Json.CanonicalMembers, Json.Integral,
        Json.IntegralItems, Json.IntegralMembers, Dictionary.Sorted]
    simpa [topic, Expression.json, Json.exact_string] using tags

theorem exact : ∀ stack ∈ app.registered, stack.Exact := by
  simp only [app, List.forall_mem_cons]
  refine ⟨⟨?_, ?_, ?_, ?_, ?_⟩, ⟨?_, ?_, ?_, ?_, ?_⟩, by simp⟩
  case refine_2 => simpa [east] using exact_topic
  all_goals simp [east, west, Stack.empty]

theorem shallow : ∀ stack ∈ app.registered,
    (Plan.ofStack stack).document.depth ≤ Json.depthLimit := by
  simp only [app, List.forall_mem_cons]
  refine ⟨?_, ?_, by simp⟩ <;> cbv

def directories : Location := [App.stacksNode, outdirName]

def bare : FileSystem := ⟨[], []⟩

/-- Each plan is in its directory. -/
def written (first second manifest : Bytes) : FileSystem :=
  ⟨[([Manifest.node, outdirName], .file manifest 0o600),
    (Plan.node :: west.name.node :: directories, .file second 0o600),
    (west.name.node :: directories, .directory),
    (Plan.node :: east.name.node :: directories, .file first 0o600),
    (east.name.node :: directories, .directory), (directories, .directory),
    ([outdirName], .directory)], []⟩

/-- Three documents are written one after another. -/
theorem synthesizes {fs mid late after : FileSystem}
    (first : writeAtomically east.planPath (App.documentFile (Plan.ofStack east).document) fs
      = .ok () mid)
    (second : writeAtomically west.planPath (App.documentFile (Plan.ofStack west).document) mid
      = .ok () late)
    (manifest : writeAtomically app.manifestPath (App.documentFile (Manifest.ofApp app).json) late
      = .ok () after) : app.synthesize fs = .ok app.report after := by
  refine Action.bind_ok_iff.mpr ⟨(), late, ?_, ?_⟩
  · refine Action.bind_ok_iff.mpr ⟨(), mid, Action.mapError_ok_iff.mpr first, ?_⟩
    exact Action.bind_ok_iff.mpr ⟨(), late, Action.mapError_ok_iff.mpr second, rfl⟩
  · exact Action.bind_ok_iff.mpr ⟨(), after, Action.mapError_ok_iff.mpr manifest, rfl⟩

theorem writes_first (first : Bytes) : writeAtomically east.planPath first bare
    = .ok () ⟨(written first [] []).objects.drop 3, []⟩ := by
  cbv

theorem writes_second (first second : Bytes) : writeAtomically west.planPath second
    ⟨(written first [] []).objects.drop 3, []⟩
      = .ok () ⟨(written first second []).objects.drop 1, []⟩ := by
  cbv

theorem writes_manifest (first second manifest : Bytes) : writeAtomically app.manifestPath manifest
    ⟨(written first second []).objects.drop 1, []⟩ = .ok () (written first second manifest) := by
  cbv

/-- Where a path leads whatever the documents are. -/
theorem eq_of_enters {fs : FileSystem} {p : Path} {l place : Location} {left : Nat}
    (known : fs.reach false p = .ok (left, place)) (entered : fs.Enters p l) : l = place := by
  obtain ⟨left', reached⟩ := entered
  exact reach_unique known reached

theorem legible (first second manifest : Bytes) : app.Legible (written first second manifest) := by
  have inEast : (written first second manifest).reach false east.directory
      = .ok (linkLimit, east.name.node :: directories) := by cbv
  have inWest : (written first second manifest).reach false west.directory
      = .ok (linkLimit, west.name.node :: directories) := by cbv
  refine ⟨?_, ?_, shallow⟩
  · simp only [app, List.forall_mem_cons]
    exact ⟨⟨_, _, inEast⟩, ⟨_, _, inWest⟩, by simp⟩
  · refine List.pairwise_pair.mpr fun l entered entered' => ?_
    have same := (eq_of_enters inEast entered).symm.trans (eq_of_enters inWest entered')
    exact absurd (List.cons.inj same).1 (by decide)

theorem enters_outdir (first second manifest : Bytes) :
    ∃ l, (written first second manifest).Enters app.outdir l :=
  ⟨[outdirName], linkLimit, by cbv⟩

/-- Both plans and the manifest are read back. -/
theorem both_read : ∃ after, app.synthesize bare = .ok app.report after
    ∧ app.ReadsBack app.report after := by
  have run := synthesizes (writes_first _) (writes_second _ _) (writes_manifest _ _ _)
  have sound : Sound bare := ⟨.of_objects (by decide) (by decide), rfl⟩
  obtain ⟨told, manifest, plans⟩ := gathered.reads_back exact sound run
  exact ⟨_, run, told, plans.mpr (legible _ _ _), manifest.mpr (enters_outdir _ _ _)⟩

/-! ### A directory that is another one -/

/-- The eastern directory is a link to the western one. -/
def linked : FileSystem :=
  ⟨[(east.name.node :: directories, .link ⟨[119, 101, 115, 116, 101, 114, 110]⟩),
    (west.name.node :: directories, .directory), (directories, .directory),
    ([outdirName], .directory)], []⟩

/-- One place for two plans. -/
def mingled (plan manifest : Bytes) : FileSystem :=
  ⟨([Manifest.node, outdirName], .file manifest 0o600)
    :: (Plan.node :: west.name.node :: directories, .file plan 0o600) :: linked.objects, []⟩

theorem mingles (first second manifest : Bytes) :
    writeAtomically east.planPath first linked = .ok () ⟨(mingled first []).objects.drop 1, []⟩
      ∧ writeAtomically west.planPath second ⟨(mingled first []).objects.drop 1, []⟩
        = .ok () ⟨(mingled second []).objects.drop 1, []⟩
      ∧ writeAtomically app.manifestPath manifest ⟨(mingled second []).objects.drop 1, []⟩
        = .ok () (mingled second manifest) := by
  refine ⟨?_, ?_, ?_⟩ <;> cbv

theorem enters_both (plan manifest : Bytes) :
    (mingled plan manifest).Enters east.directory (west.name.node :: directories)
      ∧ (mingled plan manifest).Enters west.directory (west.name.node :: directories) :=
  ⟨⟨linkLimit - 1, by cbv⟩, ⟨linkLimit, by cbv⟩⟩

/-- The plan of one stack is found under the name of the other. -/
theorem plan_mistaken : ¬ ∀ (app : App) (fs after : FileSystem) (report : Report),
    app.Gathered → (∀ stack ∈ app.registered, stack.Exact) →
    (∀ stack ∈ app.registered, (Plan.ofStack stack).document.depth ≤ Json.depthLimit) →
    Sound fs → app.synthesize fs = .ok report after → app.ReadsBack report after := by
  intro claim
  obtain ⟨first, second, manifest⟩ := mingles (App.documentFile (Plan.ofStack east).document)
    (App.documentFile (Plan.ofStack west).document) (App.documentFile (Manifest.ofApp app).json)
  have run := synthesizes first second manifest
  have sound : Sound linked := ⟨.of_objects (by decide) (by decide), rfl⟩
  obtain ⟨-, plans, -⟩ := claim app linked _ app.report gathered exact shallow sound run
  have legible := App.legible_of_plansRead gathered sound (App.synthesize_ok_iff.mp run).1
    ((App.plansRead_iff_load gathered).mp plans)
  obtain ⟨entered, entered'⟩ := enters_both (App.documentFile (Plan.ofStack west).document)
    (App.documentFile (Manifest.ofApp app).json)
  exact List.pairwise_pair.mp legible.apart _ entered entered'

end Neighbours

end StackSynth
