import StackSynth.Proofs.Deployment
import StackSynth.Proofs.Sparing

/-!
# Untouched — what no call with an app changes

Names of stacks and assets, suffixes of sources and names of packaged entries all become parts of
paths below the output directory, and none of them leads out of it: each is one name of an object,
or several of them with slashes between.  So every call spares what is outside, and one that
registers assets spares all but the assets of its stack, whether it succeeds or fails.

* `Listing.collect_named` — names of entries;
* `Packaging.package_spares`, `prune_spares` — packaging and pruning;
* `Stack.addAsset_spares`, `StackFile.build_spares`, `App.synthesize_spares` — the calls;
* `Tree.Works`, `Tree.Turns` — calls with one app;
* `outside_untouched` — what stays after any of them.
-/

namespace StackSynth

open FileSystem

/-! ## Names of entries -/

/-- The entry is named by names of objects with slashes between them. -/
def Entry.Named (entry : Entry) : Prop :=
  ∃ names, names ≠ [] ∧ entry.name = Listing.shown names

theorem Listing.collect_named {fs : FileSystem} {root : Path} {entries : List Entry}
    (listed : collect fs root = .ok entries) : ∀ entry ∈ entries, entry.Named := by
  intro entry member
  obtain ⟨names, some, named, -⟩ := collect_below listed entry member
  exact ⟨names, some, named⟩

/-! ## Packaging -/

namespace Packaging

variable {fs mid after : FileSystem} {p source : Path} {names : List Name} {type : AssetType}
  {entries : List Entry} {short name : Name}

theorem copyEntry_spares (unlinked : Unlinked fs p) {entry : Entry} (named : entry.Named)
    (ends : Action.Ends (copyEntry (p.descend names) entry) fs after) : Spares p names fs after := by
  obtain ⟨more, some, text⟩ := named
  have path : (p.descend names).childText entry.name
      = p.descend (names ++ more.map Name.displayed) := by
    rw [text, Path.childText_shown _ some, Path.descend_append]
  unfold copyEntry at ends
  cases kind : entry.kind with
  | directory =>
      simp only [kind, path] at ends
      exact (createAll_spares unlinked (fun _ _ makes => makes) ends).append
  | file program length =>
      obtain ⟨front, last, parts⟩ : ∃ front last, more.map Name.displayed = front ++ [last] :=
        ⟨_, _, (List.dropLast_concat_getLast (by simpa using some)).symm⟩
      simp only [kind, path, parts, copyAtomically_eq] at ends
      rw [← List.append_assoc, ← Path.child_descend] at ends
      exact (placeAtomically_spares unlinked ends).append

theorem copyEntries_spares (unlinked : Unlinked fs p) (named : ∀ entry ∈ entries, entry.Named)
    (ends : Action.Ends (copyEntries (p.descend names) entries) fs after) :
    Spares p names fs after := by
  induction entries generalizing fs with
  | nil =>
      obtain rfl := Action.ends_pure ends
      exact .refl unlinked
  | cons entry rest ih =>
      simp only [List.forall_mem_cons] at named
      rw [copyEntries_cons] at ends
      rcases Action.ends_bind ends with first | ⟨_, mid, first, others⟩
      · exact copyEntry_spares unlinked named.1 first
      · have toMid := copyEntry_spares unlinked named.1 (Or.inl ⟨_, first⟩)
        exact toMid.trans unlinked (ih (toMid.unlinked_after unlinked) named.2 others)

/-- A temporary directory is new, and stands below. -/
theorem temporary_spares (unlinked : Unlinked fs p) {t : Location} {path : Path}
    (made : fs.temporary (p.descend names) = .ok (t, path)) :
    ∃ fresh left root, path = p.descend (names ++ [fresh]) ∧ fs.reach true p = .ok (left, root)
      ∧ t = (names ++ [fresh]).reverse ++ root ∧ Spares p names fs (fs.set t .directory)
      ∧ (fs.set t .directory).reach true p = .ok (left, root) := by
  obtain ⟨l, fresh, found, rfl, rfl, nothing, -⟩ := temporary_ok made
  obtain ⟨-, left, entered⟩ := stat_eq_directory_iff.mp found
  obtain ⟨links, root, first, rfl⟩ := unlinked.reach_descend entered
  have reached := enter_lenient first
  have inside := List.cons_ne_nil fresh (names.reverse ++ root)
  refine ⟨fresh, links, root, Path.child_descend p names fresh, reached, by simp, ?_,
    (reach_grown (grown_set_directory inside nothing) p).trans reached⟩
  exact (Spares.refl unlinked).set reached (Location.below_cons fresh _) (by simp)

/-- A directory that is staged was filled under a temporary name. -/
theorem stageDirectory_filled (unlinked : Unlinked fs p) (named : ∀ entry ∈ entries, entry.Named)
    (run : stage source .directory entries (p.descend names) ((p.descend names).child name) fs
      = .ok () after) :
    ∃ t mid, Spares p names fs mid ∧ mid.get? t = some .directory
      ∧ (∀ left root, fs.reach true p = .ok (left, root) → Location.Below (names.reverse ++ root) t)
      ∧ mid.rename t ((p.descend names).child name) = .ok after := by
  rw [stage] at run
  obtain ⟨t, path, made, body⟩ := withTemporaryDirectory_ok run
  obtain ⟨fresh, left, root, rfl, reached, rfl, begun, again⟩ := temporary_spares unlinked made
  obtain ⟨_, mid, copied, renamed⟩ := Action.bind_ok_iff.mp body
  have copies := copyEntries_spares (begun.unlinked_after unlinked) named (Or.inl ⟨_, copied⟩)
  refine ⟨_, mid, begun.trans unlinked copies.append, ?_, ?_, Action.step_ok_iff.mp renamed⟩
  · -- The temporary directory is not below itself, and so it is still there.
    have there : (fs.set ((names ++ [fresh]).reverse ++ root) .directory).get?
        ((names ++ [fresh]).reverse ++ root) = some .directory := by
      rw [get?_set _ _ _ _ (by simp), if_pos rfl]
    have own : ¬ Inside (fs.set ((names ++ [fresh]).reverse ++ root) .directory) p
        (names ++ [fresh]) ((names ++ [fresh]).reverse ++ root) := by
      rintro ⟨links, root', reached', -, other⟩
      obtain rfl := reach_unique reached' again
      exact other rfl
    rcases copies.kept _ own with same | ⟨nothing, -⟩
    · exact same.trans there
    · rw [nothing] at there
      cases there
  · intro links root' reached'
    obtain rfl := reach_unique reached' reached
    exact Location.below_iff.mpr ⟨[fresh], by simp, by simp⟩

/-- Then it is moved, or removed if anything has failed. -/
theorem stageDirectory_spares (unlinked : Unlinked fs p) (named : ∀ entry ∈ entries, entry.Named)
    (ends : Action.Ends (stage source .directory entries (p.descend names)
      ((p.descend names).child name)) fs after) : Spares p names fs after := by
  rcases ends with ⟨_, run⟩ | ⟨fault, run⟩
  · obtain ⟨t, mid, toMid, stands, deep, renamed⟩ := stageDirectory_filled unlinked named run
    refine toMid.trans unlinked (rename_spares (toMid.unlinked_after unlinked) ?_ stands renamed)
    exact fun left root reached => deep left root (toMid.reach_back unlinked reached)
  · rw [stage] at run
    rcases withTemporaryDirectory_error run with rfl | ⟨t, path, mid, made, body, rfl⟩
    · exact .refl unlinked
    obtain ⟨fresh, left, root, rfl, reached, rfl, begun, -⟩ := temporary_spares unlinked made
    have toMid : Spares p names fs mid := by
      have copies : ∀ {now}, Action.Ends (copyEntries (p.descend (names ++ [fresh])) entries)
          (fs.set ((names ++ [fresh]).reverse ++ root) .directory) now → Spares p names fs now :=
        fun ends => begun.trans unlinked
          (copyEntries_spares (begun.unlinked_after unlinked) named ends).append
      rcases Action.bind_error_iff.mp body with failed | ⟨_, last, copied, renamed⟩
      · exact copies (Or.inr ⟨_, failed⟩)
      · obtain rfl := (Action.step_error_iff.mp renamed).2
        exact copies (Or.inl ⟨_, copied⟩)
    -- All that was copied is removed with the temporary directory.
    have below : Location.Below (names.reverse ++ root) ((names ++ [fresh]).reverse ++ root) :=
      Location.below_iff.mpr ⟨[fresh], by simp, by simp⟩
    exact toMid.eraseTree reached below

theorem stage_spares (unlinked : Unlinked fs p)
    (named : type ≠ .file → ∀ entry ∈ entries, entry.Named)
    (ends : Action.Ends (stage source type entries (p.descend names)
      ((p.descend names).child name)) fs after) : Spares p names fs after := by
  cases type with
  | file =>
      rw [stage, copyAtomically_eq] at ends
      exact placeAtomically_spares unlinked ends
  | archive => exact placeFile_spares unlinked ends
  | directory => exact stageDirectory_spares unlinked (named (by simp)) ends

theorem withoutEmpty_spares (unlinked : Unlinked fs p) :
    Spares p names fs (withoutEmpty ((p.descend names).child name) fs) := by
  unfold withoutEmpty
  cases removed : fs.removeDirectory ((p.descend names).child name) with
  | error fault => exact .refl unlinked
  | ok after => exact removeDirectory_spares unlinked removed

theorem stageIn_spares (unlinked : Unlinked fs p)
    (named : type ≠ .file → ∀ entry ∈ entries, entry.Named)
    (ends : Action.Ends (stageIn source type entries ((p.descend names).child short)
      (((p.descend names).child short).child name)) fs after) : Spares p names fs after := by
  have making : ∀ {now}, Action.Ends (createAll ((p.descend names).child short)) fs now →
      Spares p names fs now := by
    intro now made
    rw [Path.child_descend] at made
    exact (createAll_spares unlinked (fun _ _ makes => makes) made).append
  have staging : ∀ {begun now}, Unlinked begun p → Action.Ends (stage source type entries
      ((p.descend names).child short) (((p.descend names).child short).child name)) begun now →
      Spares p names begun now := by
    intro begun now unlinked staged
    rw [Path.child_descend] at staged
    exact (stage_spares unlinked named staged).append
  rcases Action.ends_bind (Action.ends_mapError ends) with made | ⟨_, mid, made, staged⟩
  · exact making made
  have toMid := making (Or.inl ⟨_, made⟩)
  have unlinked' := toMid.unlinked_after unlinked
  refine toMid.trans unlinked ?_
  rcases staged with ⟨_, run⟩ | ⟨fault, run⟩
  · exact staging unlinked' (Or.inl ⟨_, Action.onFailure_ok_iff.mp run⟩)
  · obtain ⟨last, failed, rfl⟩ := Action.onFailure_error_iff.mp run
    have toLast := staging unlinked' (Or.inr ⟨_, failed⟩)
    exact toLast.trans unlinked' (withoutEmpty_spares (toLast.unlinked_after unlinked'))

theorem named_of_examine {hash : ContentHash} (examined : examine fs source type = .ok (entries, hash))
    (listed : type ≠ .file) : ∀ entry ∈ entries, entry.Named := by
  rcases examine_cases examined with ⟨isFile, -⟩ | ⟨-, collected, -⟩
  · exact absurd isFile listed
  · exact Listing.collect_named collected

theorem package_spares (unlinked : Unlinked fs p)
    (ends : Action.Ends (package source type (p.descend names)) fs after) :
    Spares p names fs after := by
  rcases ends with ⟨artifact, run⟩ | ⟨e, run⟩
  · obtain ⟨payload, isOf, rfl⟩ := package_payload run
    obtain ⟨short, name, -, path, -, ⟨-, rfl⟩ | ⟨-, entries, mid, examined, made, staged⟩⟩ :=
      package_ok isOf run
    · exact .refl unlinked
    · rw [path] at staged
      have run : stageIn source payload.type entries ((p.descend names).child short)
          (((p.descend names).child short).child name) fs = .ok () after :=
        Action.mapError_ok_iff.mpr
          (Action.bind_ok_iff.mpr ⟨_, _, made, Action.onFailure_ok_iff.mpr staged⟩)
      exact stageIn_spares unlinked (named_of_examine examined) (Or.inl ⟨_, run⟩)
  · rcases package_error run with ⟨-, rfl⟩ | ⟨entries, hash, text, short, name, examined, -, -, failed⟩
    · exact .refl unlinked
    · exact stageIn_spares unlinked (named_of_examine examined) (Or.inr ⟨e, failed⟩)

/-! ### Pruning -/

theorem prune_spares {keep : String} (unlinked : Unlinked fs p)
    (ends : Action.Ends (prune (p.descend names) keep) fs after) : Spares p names fs after := by
  refine prune_rel (R := fun fs after => Unlinked fs p → Spares p names fs after)
    (fun fs unlinked => .refl unlinked) ?_ (fun _ removed unlinked => removeAll_spares unlinked removed)
    ends unlinked
  intro fs mid after first second unlinked
  have toMid := first unlinked
  exact toMid.trans unlinked (second (toMid.unlinked_after unlinked))

end Packaging

/-! ## Assets -/

open Packaging

/-- The names that lead from the output directory to the assets of a stack. -/
def Stack.assetsNames (stack : ConstructId) : List Name :=
  [App.stacksNode, stack.node, assetsNode]

variable {outdir source : Path} {fs mid after : FileSystem} {stack next : Stack}

/-- An asset that is registered touches nothing but its own versions. -/
theorem Stack.addAsset_ok_spares (unlinked : Unlinked fs outdir) (belongs : stack.BelongsTo outdir)
    {asset : Asset} {text : String} {type : AssetType}
    (run : stack.addAsset text source type fs = .ok (asset, next) after) :
    Spares outdir (stagingNames stack.name asset.id) fs after := by
  obtain ⟨artifact, short, mid, -, -, packaged, -, pruned, -⟩ := addAsset_ok run
  rw [belongs.packager, belongs.staging] at packaged pruned
  have toMid := package_spares unlinked (Or.inl ⟨artifact, packaged⟩)
  exact toMid.trans unlinked (prune_spares (toMid.unlinked_after unlinked) pruned)

theorem Stack.addAsset_spares (unlinked : Unlinked fs outdir) (belongs : stack.BelongsTo outdir)
    {text : String} {type : AssetType} (ends : Action.Ends (stack.addAsset text source type) fs after) :
    Spares outdir (assetsNames stack.name) fs after := by
  have own : ∀ id, stagingNames stack.name id = assetsNames stack.name ++ [id.node] := fun _ => rfl
  have packaging : ∀ {id now}, Action.Ends (stack.packager.package source type (stack.staging id)) fs now →
      Spares outdir (assetsNames stack.name) fs now := by
    intro id now ends
    rw [belongs.packager, belongs.staging, own] at ends
    exact (package_spares unlinked ends).append
  rcases ends with ⟨⟨asset, next⟩, run⟩ | ⟨e, run⟩
  · have spares := addAsset_ok_spares unlinked belongs run
    rw [own] at spares
    exact spares.append
  · rcases addAsset_error run with ⟨-, rfl⟩ | ⟨id, -, ⟨-, -, rfl⟩ | failed | ⟨artifact, packaged, -⟩⟩
    · exact .refl unlinked
    · exact .refl unlinked
    · exact packaging (Or.inr ⟨e, failed⟩)
    · exact packaging (Or.inl ⟨artifact, packaged⟩)

/-- A new asset leaves the stack in its place. -/
theorem Stack.BelongsTo.addAsset (belongs : stack.BelongsTo outdir) {asset : Asset} {text : String}
    {type : AssetType} (run : stack.addAsset text source type fs = .ok (asset, next) after) :
    next.BelongsTo outdir ∧ next.name = stack.name := by
  obtain ⟨-, -, -, -, -, -, -, -, -, rfl⟩ := addAsset_ok run
  exact ⟨⟨belongs.directory, belongs.packager⟩, rfl⟩

theorem Stack.declare_spares (unlinked : Unlinked fs outdir) (belongs : stack.BelongsTo outdir)
    {declaration : Declaration} (ends : Action.Ends (stack.declare declaration) fs after) :
    Spares outdir (assetsNames stack.name) fs after := by
  cases declaration with
  | asset id source type =>
      rcases Action.ends_bind ends with added | ⟨_, mid, added, done⟩
      · exact addAsset_spares unlinked belongs added
      · obtain rfl := Action.ends_pure done
        exact addAsset_spares unlinked belongs (Or.inl ⟨_, added⟩)
  | provider _ | resource _ | shape _ _ | output _ | module _ =>
      obtain rfl := Action.ends_query ends
      exact .refl unlinked

/-- A declaration leaves the stack in its place. -/
theorem Stack.Registers.belongs {declaration : Declaration}
    (registers : stack.Registers declaration next) (belongs : stack.BelongsTo outdir) :
    next.BelongsTo outdir ∧ next.name = stack.name := by
  cases registers <;> exact ⟨⟨belongs.directory, belongs.packager⟩, rfl⟩

/-! ## Stack files -/

namespace StackFile

variable {file : StackFile}

theorem assets_spares {base : Path} {decls : List AssetDecl} (unlinked : Unlinked fs outdir)
    (belongs : stack.BelongsTo outdir) (ends : Action.Ends (decls.foldlM (asset base) stack) fs after) :
    Spares outdir (Stack.assetsNames stack.name) fs after := by
  induction decls generalizing stack fs with
  | nil =>
      obtain rfl := Action.ends_pure ends
      exact .refl unlinked
  | cons decl rest ih =>
      rw [List.foldlM_cons] at ends
      rcases Action.ends_bind ends with first | ⟨next, mid, first, others⟩
      · rcases first with ⟨next, run⟩ | ⟨e, run⟩
        · obtain ⟨made, added⟩ := asset_ok run
          exact Stack.addAsset_spares unlinked belongs (Or.inl ⟨_, added⟩)
        · exact Stack.addAsset_spares unlinked belongs (Or.inr ⟨e, asset_error run⟩)
      · obtain ⟨made, added⟩ := asset_ok first
        have toMid := Stack.addAsset_spares unlinked belongs (Or.inl ⟨_, added⟩)
        obtain ⟨belongs', same⟩ := belongs.addAsset added
        have toAfter := ih (toMid.unlinked_after unlinked) belongs' others
        rw [same] at toAfter
        exact toMid.trans unlinked toAfter

/-- Building touches nothing unless the file names a stack, and then only its assets. -/
theorem build_spares (unlinked : Unlinked fs outdir)
    (ends : Action.Ends (file.build (.empty outdir .standard)) fs after) :
    after = fs ∨ ∃ stack : ConstructId, stack.text = file.name
      ∧ Spares outdir (Stack.assetsNames stack) fs after := by
  rcases build_ends ends with rfl | ⟨begun, begins, registered⟩
  · exact Or.inl rfl
  · obtain ⟨belongs, named, -⟩ := begin_belongs begins
    exact Or.inr ⟨begun.name, named, assets_spares unlinked belongs registered⟩

theorem build_belongs (run : file.build (.empty outdir .standard) fs = .ok stack after) :
    stack.BelongsTo outdir := by
  obtain ⟨begun, withAssets, begins, registered, finishes⟩ := build_eq_ok_iff.mp run
  have belongs : withAssets.BelongsTo outdir := by
    refine Action.foldlM_ok (P := fun stack _ => stack.BelongsTo outdir) ?_
      (begin_belongs begins).1 registered
    intro stack decl next mid later belongs run
    obtain ⟨made, added⟩ := asset_ok run
    exact (belongs.addAsset added).1
  have same := finish_keeps finishes
  exact ⟨by rw [same.directory, same.name]; exact belongs.directory,
    same.packager.trans belongs.packager⟩

end StackFile

/-! ## Synthesis -/

namespace App

theorem writeDocument_spares (unlinked : Unlinked fs outdir) {names : List Name} {name : Name}
    {document : Json}
    (ends : Action.Ends (writeDocument ((outdir.descend names).child name) document) fs after) :
    Spares outdir [] fs after := by
  have written := Action.ends_mapError ends
  rw [writeAtomically_eq] at written
  exact (placeAtomically_spares unlinked written).whole

theorem writePlans_spares {all : List Stack} (unlinked : Unlinked fs outdir)
    (belong : ∀ stack ∈ all, stack.BelongsTo outdir)
    (ends : Action.Ends (writePlans all) fs after) : Spares outdir [] fs after := by
  induction all generalizing fs with
  | nil =>
      obtain rfl := Action.ends_pure ends
      exact .refl unlinked
  | cons stack rest ih =>
      simp only [List.forall_mem_cons] at belong
      have writing : ∀ {now}, Action.Ends (writeDocument stack.planPath (Plan.ofStack stack).document) fs now →
          Spares outdir [] fs now := by
        intro now ends
        rw [stack.planPath_eq, belong.1.directory] at ends
        exact writeDocument_spares unlinked ends
      rw [writePlans] at ends
      rcases Action.ends_bind ends with first | ⟨_, mid, first, others⟩
      · exact writing first
      · have toMid := writing (Or.inl ⟨_, first⟩)
        exact toMid.trans unlinked (ih (toMid.unlinked_after unlinked) belong.2 others)

theorem synthesize_spares {app : App} (unlinked : Unlinked fs outdir) (own : app.outdir = outdir)
    (belong : ∀ stack ∈ app.registered, stack.BelongsTo outdir)
    (ends : Action.Ends app.synthesize fs after) : Spares outdir [] fs after := by
  have manifest : ∀ {begun now}, Unlinked begun outdir →
      Action.Ends (writeDocument app.manifestPath (Manifest.ofApp app).json) begun now →
      Spares outdir [] begun now := by
    intro begun now unlinked ends
    rw [app.manifestPath_eq, own] at ends
    have here : Action.Ends (writeDocument ((outdir.descend []).child Manifest.node)
        (Manifest.ofApp app).json) begun now := ends
    exact writeDocument_spares unlinked here
  rcases Action.ends_bind ends with plans | ⟨_, mid, plans, rest⟩
  · exact writePlans_spares unlinked belong plans
  have toMid := writePlans_spares unlinked belong (Or.inl ⟨_, plans⟩)
  have unlinked' := toMid.unlinked_after unlinked
  refine toMid.trans unlinked ?_
  rcases Action.ends_bind rest with written | ⟨_, last, written, done⟩
  · exact manifest unlinked' written
  · obtain rfl := Action.ends_pure done
    exact manifest unlinked' (Or.inl ⟨_, written⟩)

end App

/-! ## Calls with one app -/

/-- A stack is made by this app. -/
def Call.IsBy (app : App) : Call → Prop
  | .create maker _ => maker = app
  | .declare _ _ => True
  | .register _ => True

namespace Tree

/-- A call that is no synthesis, whether it succeeds or fails. -/
inductive Works (tree : Tree) : Tree → Prop
  | call {call : Call} {result : Except Failure Unit} {after : Tree} : call.IsBy tree.app →
      tree.Step call result after → Works tree after
  | built {file : StackFile} {stack : Stack} {disk : FileSystem} :
      file.build tree.app tree.disk = .ok stack disk →
      Works tree { tree with disk := disk, loose := tree.loose ++ [stack] }
  | notBuilt {file : StackFile} {e : Failure} {disk : FileSystem} :
      file.build tree.app tree.disk = .error e disk → Works tree { tree with disk := disk }

/-- Any call, whether it succeeds or fails. -/
inductive Turns (tree : Tree) : Tree → Prop
  | works {after : Tree} : tree.Works after → Turns tree after
  | synthesizes {disk : FileSystem} : Action.Ends tree.app.synthesize tree.disk disk →
      Turns tree { tree with disk := disk }

/-- All stacks have the places that the app meant for them. -/
structure IsOf (tree : Tree) (outdir : Path) : Prop where
  own : tree.app.outdir = outdir
  packager : tree.app.packager = .standard
  loose : ∀ stack ∈ tree.loose, stack.BelongsTo outdir
  registered : ∀ stack ∈ tree.app.registered, stack.BelongsTo outdir

variable {tree later : Tree}

theorem IsOf.begin (disk : FileSystem) (outdir : Path) :
    IsOf ⟨disk, .empty outdir .standard, []⟩ outdir :=
  ⟨rfl, rfl, by simp, by simp [App.empty]⟩

theorem IsOf.build (isOf : tree.IsOf outdir) (file : StackFile) :
    file.build tree.app = file.build (.empty outdir .standard) := by
  obtain ⟨disk, ⟨_, _, registered⟩, loose⟩ := tree
  obtain ⟨rfl, rfl, -, -⟩ := isOf
  rfl

theorem IsOf.loose_set (isOf : tree.IsOf outdir) {position : Nat} (belongs : next.BelongsTo outdir) :
    ∀ stack ∈ tree.loose.set position next, stack.BelongsTo outdir := by
  intro stack member
  rcases List.mem_or_eq_of_mem_set member with old | rfl
  · exact isOf.loose stack old
  · exact belongs

theorem IsOf.loose_concat (isOf : tree.IsOf outdir) (belongs : next.BelongsTo outdir) :
    ∀ stack ∈ tree.loose ++ [next], stack.BelongsTo outdir := by
  intro stack member
  rcases List.mem_append.mp member with old | new
  · exact isOf.loose stack old
  · rwa [List.mem_singleton.mp new]

/-- A call that is no synthesis touches the assets of one stack at most. -/
theorem Works.spares (works : tree.Works later) (isOf : tree.IsOf outdir)
    (unlinked : Unlinked tree.disk outdir) :
    later.IsOf outdir ∧ (later.disk = tree.disk
      ∨ ∃ stack, Spares outdir (Stack.assetsNames stack) tree.disk later.disk) := by
  cases works with
  | built run =>
      rw [isOf.build] at run
      refine ⟨⟨isOf.own, isOf.packager, ?_, isOf.registered⟩, ?_⟩
      · exact isOf.loose_concat (StackFile.build_belongs run)
      · exact (StackFile.build_spares unlinked (Or.inl ⟨_, run⟩)).imp_right fun ⟨id, _, spares⟩ =>
          ⟨id, spares⟩
  | notBuilt run =>
      rw [isOf.build] at run
      refine ⟨⟨isOf.own, isOf.packager, isOf.loose, isOf.registered⟩, ?_⟩
      exact (StackFile.build_spares unlinked (Or.inr ⟨_, run⟩)).imp_right fun ⟨id, _, spares⟩ =>
        ⟨id, spares⟩
  | call isBy step =>
      -- Only a declaration can write, and it writes to the assets of its own stack.
      cases step with
      | created _ made =>
          obtain rfl := isBy
          obtain ⟨id, -, rfl⟩ := newStack_ok made
          refine ⟨⟨isOf.own, isOf.packager, isOf.loose_concat ⟨?_, isOf.packager⟩,
            isOf.registered⟩, Or.inl rfl⟩
          rw [← isOf.own]
          exact App.stackDirectory_eq _ id
      | notCreated _ => exact ⟨isOf, Or.inl rfl⟩
      | declared known run =>
          have belongs := isOf.loose _ (List.mem_of_getElem? known)
          have belongs' := ((Stack.declare_ok run).belongs belongs).1
          exact ⟨⟨isOf.own, isOf.packager, isOf.loose_set belongs', isOf.registered⟩,
            Or.inr ⟨_, Stack.declare_spares unlinked belongs (Or.inl ⟨_, run⟩)⟩⟩
      | notDeclared known run =>
          have belongs := isOf.loose _ (List.mem_of_getElem? known)
          exact ⟨⟨isOf.own, isOf.packager, isOf.loose, isOf.registered⟩,
            Or.inr ⟨_, Stack.declare_spares unlinked belongs (Or.inr ⟨_, run⟩)⟩⟩
      | registered known added =>
          have belongs := isOf.loose _ (List.mem_of_getElem? known)
          obtain ⟨-, -, rfl⟩ := addStack_ok added
          refine ⟨⟨isOf.own, isOf.packager, ?_, ?_⟩, Or.inl rfl⟩
          · exact fun stack member => isOf.loose stack (List.mem_of_mem_eraseIdx member)
          · intro stack member
            rcases List.mem_append.mp member with old | new
            · exact isOf.registered stack old
            · rwa [List.mem_singleton.mp new]
      | notRegistered known failed =>
          exact ⟨⟨isOf.own, isOf.packager,
            fun stack member => isOf.loose stack (List.mem_of_mem_eraseIdx member),
            isOf.registered⟩, Or.inl rfl⟩

theorem Turns.spares (turns : tree.Turns later) (isOf : tree.IsOf outdir)
    (unlinked : Unlinked tree.disk outdir) :
    later.IsOf outdir ∧ Spares outdir [] tree.disk later.disk := by
  cases turns with
  | works works =>
      obtain ⟨isOf', same | ⟨stack, spares⟩⟩ := works.spares isOf unlinked
      · refine ⟨isOf', ?_⟩
        rw [same]
        exact .refl unlinked
      · exact ⟨isOf', spares.whole⟩
  | synthesizes ends =>
      exact ⟨⟨isOf.own, isOf.packager, isOf.loose, isOf.registered⟩,
        App.synthesize_spares unlinked isOf.own isOf.registered ends⟩

/-- What holds after any calls. -/
theorem spares_of_run {start : FileSystem} (unlinked : Unlinked start outdir)
    (run : Relation.ReflTransGen Turns ⟨start, .empty outdir .standard, []⟩ tree) :
    tree.IsOf outdir ∧ Spares outdir [] start tree.disk := by
  induction run with
  | refl => exact ⟨.begin start outdir, .refl unlinked⟩
  | tail _ turns ih =>
      obtain ⟨isOf, spares⟩ := ih
      obtain ⟨isOf', step⟩ := turns.spares isOf (spares.unlinked_after unlinked)
      exact ⟨isOf', spares.trans unlinked step⟩

end Tree

/-! ## Everything else -/

theorem FileSystem.Kept.mono {area way wider more : Location → Prop} (kept : Kept area way fs after)
    (within : ∀ l, area l → wider l) (leads : ∀ l, way l → more l) : Kept wider more fs after := by
  intro l outside
  exact (kept l fun inside => outside (within l inside)).imp_right
    fun ⟨nothing, directory, toward⟩ => ⟨nothing, directory, leads l toward⟩

/-- What a call touches, in terms of where the path led at the start. -/
theorem FileSystem.Spares.kept_back {start : FileSystem} {names : List Name}
    (begun : Spares outdir [] start fs) (unlinked : Unlinked start outdir)
    (spares : Spares outdir names fs after) :
    Kept (Inside start outdir names) (Toward start outdir names) fs after :=
  spares.kept.mono (fun _ inside => begun.inside_back unlinked inside)
    fun _ toward => begun.toward_back unlinked toward

/-- Where the manifest stands, or the plan of a stack. -/
def Document (fs : FileSystem) (outdir : Path) (l : Location) : Prop :=
  ∃ left root, fs.reach true outdir = .ok (left, root) ∧ (l = Manifest.node :: root
    ∨ ∃ stack : ConstructId, l = Plan.node :: stack.node :: App.stacksNode :: root)

theorem Document.not_inside {l : Location} (document : Document fs outdir l) (stack : ConstructId) :
    ¬ Inside fs outdir (Stack.assetsNames stack) l := by
  rintro ⟨links, root', again, within, other⟩
  obtain ⟨left, root, reached, places⟩ := document
  obtain rfl := reach_unique again reached
  -- A document has no more names below the root than the directory of assets.
  have length := within.length_le
  simp only [Stack.assetsNames, List.length_append, List.length_reverse, List.length_cons,
    List.length_nil] at length
  rcases places with rfl | ⟨stack', rfl⟩
  · simp only [List.length_cons] at length
    omega
  · exact other (within.eq_of_length_le (by simp [Stack.assetsNames])).symm

/-- Only synthesis touches documents. -/
theorem Tree.Works.document_kept {start : FileSystem} {tree later : Tree}
    (unlinked : Unlinked start outdir) (isOf : tree.IsOf outdir)
    (begun : Spares outdir [] start tree.disk) (run : Relation.ReflTransGen Works tree later)
    {l : Location} {object : Object} (document : Document start outdir l)
    (stands : tree.disk.get? l = some object) :
    later.IsOf outdir ∧ Spares outdir [] start later.disk ∧ later.disk.get? l = some object := by
  induction run with
  | refl => exact ⟨isOf, begun, stands⟩
  | tail _ works ih =>
      obtain ⟨isOf', begun', stands'⟩ := ih
      obtain ⟨isOf'', same | ⟨stack, spares⟩⟩ := works.spares isOf' (begun'.unlinked_after unlinked)
      · exact ⟨isOf'', same ▸ begun', same ▸ stands'⟩
      · refine ⟨isOf'', begun'.trans unlinked (spares.whole), ?_⟩
        rcases begun'.kept_back unlinked spares l (document.not_inside stack) with same | ⟨nothing, -⟩
        · exact same.trans stands'
        · rw [nothing] at stands'
          cases stands'

/-- Whatever was called, succeeding or failing, all that is outside the output directory is as it
was, but for new directories along its path.  Registering an asset, or building the stack of a
file, touches nothing but the assets of that stack, and makes the directories that lead there; so
documents stay as they are until the next synthesis. -/
theorem outside_untouched {outdir : Path} {start : FileSystem} {tree : Tree}
    (unlinked : Unlinked start outdir)
    (run : Relation.ReflTransGen Tree.Turns ⟨start, .empty outdir .standard, []⟩ tree) :
    Kept (Inside start outdir []) (Makes start outdir) start tree.disk
      ∧ (∀ stack ∈ tree.loose, ∀ text source type after,
        Action.Ends (stack.addAsset text source type) tree.disk after →
        Kept (Inside start outdir (Stack.assetsNames stack.name))
          (Toward start outdir (Stack.assetsNames stack.name)) tree.disk after)
      ∧ (∀ (file : StackFile) after, Action.Ends (file.build tree.app) tree.disk after →
        after = tree.disk ∨ ∃ stack : ConstructId, stack.text = file.name
          ∧ Kept (Inside start outdir (Stack.assetsNames stack))
            (Toward start outdir (Stack.assetsNames stack)) tree.disk after)
      ∧ ∀ later, Relation.ReflTransGen Tree.Works tree later → ∀ l object,
        Document start outdir l → tree.disk.get? l = some object →
        later.disk.get? l = some object := by
  obtain ⟨isOf, begun⟩ := Tree.spares_of_run unlinked run
  have unlinked' := begun.unlinked_after unlinked
  refine ⟨begun.kept.mono (fun _ inside => inside) ?_, ?_, ?_, ?_⟩
  · rintro l (makes | ⟨-, -, up, rest, -, parts, some, -⟩)
    · exact makes
    · exact absurd (List.append_eq_nil_iff.mp parts.symm).1 some
  · intro stack member text source type after ends
    exact begun.kept_back unlinked
      (Stack.addAsset_spares unlinked' (isOf.loose stack member) ends)
  · intro file after ends
    rw [isOf.build] at ends
    exact (StackFile.build_spares unlinked' ends).imp_right fun ⟨stack, named, spares⟩ =>
      ⟨stack, named, begun.kept_back unlinked spares⟩
  · intro later works l object document stands
    exact (Tree.Works.document_kept unlinked isOf begun works document stands).2.2

namespace Replacement

theorem reach_outdir (plan manifest : Bytes) :
    (written plan manifest).reach true Replacement.outdir = .ok (linkLimit, root) := by
  cbv

/-- The second build fails when it has replaced a version.  The first stack file, the plan and the
manifest are as they were. -/
theorem failed_build_untouched : Unlinked (written plan manifest) Replacement.outdir
    ∧ (replaced plan manifest).get? [firstName] = some (.file first 0o644)
    ∧ (replaced plan manifest).get? (Plan.node :: stackPlace) = some (.file plan 0o600)
    ∧ (replaced plan manifest).get? (Manifest.node :: root) = some (.file manifest 0o600) := by
  have unlinked : Unlinked (written plan manifest) Replacement.outdir := by
    intro left base _ l target _ stands
    have some : l ≠ [] := by
      rintro rfl
      cases stands
    simp only [get?, some, if_false] at stands
    have member := mem_of_lookup stands
    simp [written, documents, staged, oldVersion, directories, sources] at member
  have works : (Tree.mk (written plan manifest) (.empty Replacement.outdir .standard) []).Works
      ⟨replaced plan manifest, .empty Replacement.outdir .standard, []⟩ :=
    .notBuilt (fails_to_build plan manifest)
  obtain ⟨kept, -⟩ := outside_untouched unlinked (.tail .refl (.works works))
  obtain ⟨-, -, -, documents⟩ := outside_untouched unlinked .refl
  have reached := reach_outdir plan manifest
  refine ⟨unlinked, ?_, ?_, ?_⟩
  · have stands : (written plan manifest).get? [firstName] = some (.file first 0o644) := rfl
    have outside : ¬ Inside (written plan manifest) Replacement.outdir [] [firstName] := by
      rintro ⟨left, base, again, below⟩
      obtain rfl := reach_unique again reached
      exact absurd below.1 (by decide)
    rcases kept [firstName] outside with same | ⟨nothing, -⟩
    · exact same.trans stands
    · rw [nothing] at stands
      cases stands
  · exact documents _ (.single works) _ _ ⟨_, root, reached, Or.inr ⟨stackId, rfl⟩⟩ rfl
  · exact documents _ (.single works) _ _ ⟨_, root, reached, Or.inl rfl⟩ rfl

end Replacement

end StackSynth
