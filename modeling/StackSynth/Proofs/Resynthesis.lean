import StackSynth.Proofs.Refiling
import StackSynth.Proofs.Settling

/-!
# Resynthesis — a second run with nothing to do

Where the first run succeeded, its artifacts are there, next to no other version, and its documents
stand in their places.  A second run finds its sources as they were, and so it packages nothing,
prunes nothing, and writes the same documents once more.

* `Asset.IsSettled` — the version of an asset that is there, and no other;
* `Stack.addAsset_settled`, `addAsset_again` — registering an asset, and doing so once more;
* `StackFile.build_settled`, `build_again` — the same for all assets of a file;
* `App.synthesize_filed`, `synthesize_again` — the same for the plan and the manifest;
* `resynthesis_changes_nothing` — a second run.
-/

namespace StackSynth

open FileSystem

/-- The version of an asset is there, and no other version of it. -/
def Asset.IsSettled (asset : Asset) (outdir : Path) (stack : ConstructId) (fs : FileSystem) : Prop :=
  ∃ short name keep, shortOf asset.hash = .ok keep
    ∧ asset.staged = outdir.descend (Stack.stagingNames stack asset.id ++ [short] ++ [name])
    ∧ Packaging.Settled fs outdir (Stack.stagingNames stack asset.id) short name keep

section

variable {outdir : Path} {root : Location} {start fs after last : FileSystem}

/-! ## Assets -/

namespace Stack

variable {stack next : Stack} {asset : Asset} {text : String} {source : Path} {type : AssetType}

/-- The names that lead to the versions of an asset, the last of them apart. -/
theorem stagingNames_eq (stack asset : ConstructId) :
    stagingNames stack asset = [App.stacksNode, stack.node, assetsNode] ++ [asset.node] := rfl

theorem addAsset_settled (footing : Footing fs outdir root) (belongs : stack.BelongsTo outdir)
    (run : stack.addAsset text source type fs = .ok (asset, next) after) :
    asset.IsSettled outdir stack.name after := by
  obtain ⟨artifact, keep, mid, -, -, packaged, known, pruned, same, -⟩ := addAsset_ok run
  have hash : asset.hash = artifact.hash := congrArg Asset.hash same
  have staged : asset.staged = artifact.staged := congrArg Asset.staged same
  rw [belongs.packager, belongs.staging, stagingNames_eq] at packaged pruned
  obtain ⟨short, name, path, settled⟩ :=
    Packaging.settled_of_package footing packaged (hash ▸ known) pruned
  exact ⟨short, name, keep, known, staged.trans path, settled⟩

/-- Another asset stays as it is. -/
theorem addAsset_other (footing : Footing fs outdir root) (belongs : stack.BelongsTo outdir)
    (run : stack.addAsset text source type fs = .ok (asset, next) after) {other : Asset}
    (apart : other.id ≠ asset.id) (settled : other.IsSettled outdir stack.name fs) :
    other.IsSettled outdir stack.name after := by
  obtain ⟨short, name, keep, known, path, settled⟩ := settled
  have aside := footing.aside (addAsset_ok_spares footing.unlinked belongs run)
  -- Both staging directories have the same depth.
  have beside : ∀ {a b : ConstructId}, a ≠ b → ¬ (stagingNames stack.name a).reverse ++ root
      <:+ (stagingNames stack.name b).reverse ++ root := fun differ within =>
    differ (stagingNames_inj (within.eq_of_length (by simp [stagingNames]))).2
  exact ⟨short, name, keep, known, path, settled.aside footing aside (beside apart.symm) (beside apart)⟩

/-- An asset that is settled is registered once more, and nothing is done. -/
theorem addAsset_again (belongs : stack.BelongsTo outdir)
    (run : stack.addAsset text source type fs = .ok (asset, next) after)
    (same : Packaging.hash last source type = Packaging.hash fs source type)
    (settled : asset.IsSettled outdir stack.name last) :
    stack.addAsset text source type last = .ok (asset, next) last := by
  obtain ⟨artifact, keep, mid, named, fresh, packaged, known, -, ofAsset, rfl⟩ := addAsset_ok run
  have hash : asset.hash = artifact.hash := congrArg Asset.hash ofAsset
  have staged : asset.staged = artifact.staged := congrArg Asset.staged ofAsset
  obtain ⟨short, name, keep', known', path, settled⟩ := settled
  obtain rfl := Except.ok.inj (known.symm.trans known')
  have there : last.exists? artifact.staged = true := by
    rw [← staged, path]
    exact exists_iff.mpr settled.there
  have packaged' : stack.packager.package source type (stack.staging asset.id) last
      = .ok artifact last := by
    rw [belongs.packager] at packaged ⊢
    exact Packaging.package_found packaged (same.trans (Packaging.package_names packaged).1) there
  have pruned : stack.packager.prune (stack.staging asset.id) keep last = .ok 0 last := by
    rw [belongs.packager, belongs.staging]
    exact settled.prune (by simp [stagingNames])
  rw [← ConstructId.text_of_ofText named]
  exact addAsset_of_package fresh packaged' (hash ▸ known) (Or.inl ⟨0, pruned⟩) ofAsset

/-- The stack has its place, and all of its assets are settled there. -/
structure IsSettled (stack : Stack) (outdir : Path) (start fs : FileSystem) : Prop where
  belongs : stack.BelongsTo outdir
  spares : Spares outdir [] start fs
  assets : ∀ asset ∈ stack.assets, asset.IsSettled outdir stack.name fs

theorem SameAssets.settled (same : stack.SameAssets next) :
    next.IsSettled outdir start fs ↔ stack.IsSettled outdir start fs := by
  constructor
  · rintro ⟨⟨directory, packager⟩, spares, assets⟩
    rw [same.directory, same.name] at directory
    rw [same.packager] at packager
    rw [same.assets, same.name] at assets
    exact ⟨⟨directory, packager⟩, spares, assets⟩
  · rintro ⟨⟨directory, packager⟩, spares, assets⟩
    rw [← same.directory, ← same.name] at directory
    rw [← same.packager] at packager
    rw [← same.assets, ← same.name] at assets
    exact ⟨⟨directory, packager⟩, spares, assets⟩

/-- One asset more is settled, too. -/
theorem IsSettled.add (footing : Footing start outdir root) (settled : stack.IsSettled outdir start fs)
    (run : stack.addAsset text source type fs = .ok (asset, next) after) :
    next.IsSettled outdir start after := by
  have now := footing.spares settled.spares
  have toAfter := addAsset_ok_spares now.unlinked settled.belongs run
  have own := addAsset_settled now settled.belongs run
  obtain ⟨belongs, name⟩ := settled.belongs.addAsset run
  refine ⟨belongs, settled.spares.trans footing.unlinked toAfter.whole, fun other member => ?_⟩
  obtain ⟨-, -, -, -, fresh, -, -, -, -, rfl⟩ := addAsset_ok run
  rcases List.mem_append.mp member with old | new
  · exact addAsset_other now settled.belongs run (fresh other old) (settled.assets other old)
  · rw [List.mem_singleton.mp new]
    exact own

end Stack

/-! ## Stack files -/

namespace StackFile

variable {file : StackFile} {base : Path} {stack begun : Stack} {decls : List AssetDecl}

theorem assets_settled (footing : Footing start outdir root) (settled : begun.IsSettled outdir start fs)
    (run : decls.foldlM (asset base) begun fs = .ok stack after) :
    stack.IsSettled outdir start after := by
  refine Action.foldlM_ok (P := fun stack fs => stack.IsSettled outdir start fs) ?_ settled run
  intro stack decl next mid later settled run
  obtain ⟨made, added⟩ := asset_ok run
  exact settled.add footing added

/-- Assets stay in the stack. -/
theorem assets_grow (run : decls.foldlM (asset base) begun fs = .ok stack after) :
    begun.assets ⊆ stack.assets ∧ stack.name = begun.name := by
  refine Action.foldlM_ok (P := fun stack _ => begun.assets ⊆ stack.assets ∧ stack.name = begun.name)
    ?_ ⟨List.Subset.refl _, rfl⟩ run
  intro stack decl next mid later grown run
  obtain ⟨made, added⟩ := asset_ok run
  obtain ⟨-, -, -, -, -, -, -, -, -, rfl⟩ := Stack.addAsset_ok added
  exact ⟨List.Subset.trans grown.1 (List.subset_append_left _ _), grown.2⟩

/-- Assets that are settled are registered once more, one after another. -/
theorem assets_again (secluded : ∀ decl ∈ decls, Secluded start outdir (base / decl.path))
    (footing : Footing start outdir root) (settled : begun.IsSettled outdir start fs)
    (run : decls.foldlM (asset base) begun fs = .ok stack after)
    (again : stack.IsSettled outdir start last) :
    decls.foldlM (asset base) begun last = .ok stack last := by
  -- The first run goes on from one file system to the next, and the second one stays at `last`.
  induction decls generalizing begun fs with
  | nil =>
      obtain ⟨rfl, -⟩ := Action.pure_ok_iff.mp run
      rfl
  | cons decl rest ih =>
      simp only [List.forall_mem_cons] at secluded
      rw [List.foldlM_cons] at run ⊢
      obtain ⟨next, mid, first, others⟩ := Action.bind_ok_iff.mp run
      obtain ⟨made, added⟩ := asset_ok first
      obtain ⟨grown, name⟩ := assets_grow others
      -- What is registered stays, and so it is settled at the end.
      have inside : made ∈ next.assets := by
        obtain ⟨-, -, -, -, -, -, -, -, -, rfl⟩ := Stack.addAsset_ok added
        simp
      have same : Packaging.hash last (base / decl.path) decl.type
          = Packaging.hash fs (base / decl.path) decl.type :=
        calc Packaging.hash last (base / decl.path) decl.type
          _ = Packaging.hash start (base / decl.path) decl.type :=
            (secluded.1.same again.spares).hash decl.type
          _ = Packaging.hash fs (base / decl.path) decl.type :=
            ((secluded.1.same settled.spares).hash decl.type).symm
      have made_settled := again.assets made (grown inside)
      rw [name, (settled.belongs.addAsset added).2] at made_settled
      have once_more := Stack.addAsset_again settled.belongs added same made_settled
      refine Action.bind_ok_iff.mpr ⟨next, last, ?_, ih secluded.2 (settled.add footing added) others⟩
      exact Action.bind_ok_iff.mpr ⟨_, _, once_more, rfl⟩

/-- What is built is settled, and is built once more as long as it is. -/
theorem build_settled (footing : Footing fs outdir root)
    (secluded : ∀ decl ∈ file.assets, Secluded fs outdir (file.base / decl.path))
    (run : file.build (.empty outdir .standard) fs = .ok stack after) :
    stack.IsSettled outdir fs after
      ∧ ∀ last, stack.IsSettled outdir fs last →
        file.build (.empty outdir .standard) last = .ok stack last := by
  obtain ⟨begun, withAssets, begins, registered, finishes⟩ := build_eq_ok_iff.mp run
  have same := finish_keeps finishes
  obtain ⟨belongs, -, none⟩ := begin_belongs begins
  have empty : begun.IsSettled outdir fs fs := ⟨belongs, .refl footing.unlinked, by simp [none]⟩
  refine ⟨same.settled.mpr (assets_settled footing empty registered), fun last again => ?_⟩
  have registered' := assets_again secluded footing empty registered (same.settled.mp again)
  exact build_eq_ok_iff.mpr ⟨begun, withAssets, begins, registered', finishes⟩

end StackFile

/-! ## Documents -/

/-- The place of the manifest, or of the plan of a stack. -/
inductive IsDocument (root : Location) : Location → Prop
  | manifest : IsDocument root (Manifest.node :: root)
  | plan (stack : ConstructId) : IsDocument root (Plan.node :: stack.node :: App.stacksNode :: root)

/-- Documents are beside all versions. -/
theorem IsDocument.beside {place : Location} (document : IsDocument root place)
    (stack asset : ConstructId) :
    ¬ place <:+ (Stack.stagingNames stack asset).reverse ++ root
      ∧ ¬ (Stack.stagingNames stack asset).reverse ++ root <:+ place := by
  have versions : (Stack.stagingNames stack asset).reverse ++ root
      = asset.node :: Stack.assetsNode :: stack.node :: App.stacksNode :: root := rfl
  rw [versions]
  constructor
  · intro within
    cases document with
    | manifest =>
        have same := Location.eq_of_suffix within
          (l := asset.node :: Stack.assetsNode :: stack.node :: App.stacksNode :: root)
          (b := App.stacksNode :: root) ⟨[asset.node, Stack.assetsNode, stack.node], rfl⟩ rfl
        exact absurd (List.cons.inj same).1 (by decide)
    | plan other =>
        have same := Location.eq_of_suffix within
          (l := asset.node :: Stack.assetsNode :: stack.node :: App.stacksNode :: root)
          (b := Stack.assetsNode :: stack.node :: App.stacksNode :: root) ⟨[asset.node], rfl⟩ rfl
        exact absurd (List.cons.inj same).1 (by decide)
  · intro within
    have length := within.length_le
    cases document <;> simp only [List.length_cons] at length <;> omega

theorem Asset.IsSettled.aside {place : Location} {asset : Asset} {stack : ConstructId}
    (settled : asset.IsSettled outdir stack fs) (footing : Footing fs outdir root)
    (document : IsDocument root place) (aside : Aside outdir root place fs after) :
    asset.IsSettled outdir stack after := by
  obtain ⟨short, name, keep, known, path, settled⟩ := settled
  obtain ⟨notAbove, notBelow⟩ := document.beside stack asset.id
  exact ⟨short, name, keep, known, path, settled.aside footing aside notAbove notBelow⟩

namespace App

variable {stack : Stack} {all : List Stack} {app : App} {report : Report}

/-- The plan of a stack stands in its place. -/
def PlanFiled (outdir : Path) (root : Location) (fs : FileSystem) (stack : Stack) : Prop :=
  Filed fs outdir root [stacksNode, stack.name.node] Plan.node
    (documentFile (Plan.ofStack stack).document)

/-- A plan touches no other plan, and no asset. -/
theorem writePlan_filed (footing : Footing fs outdir root) (belongs : stack.BelongsTo outdir)
    (run : writeDocument stack.planPath (Plan.ofStack stack).document fs = .ok () after) :
    PlanFiled outdir root after stack
      ∧ Aside outdir root (Plan.node :: stack.name.node :: stacksNode :: root) fs after := by
  rw [stack.planPath_eq, belongs.directory] at run
  exact writeDocument_filed footing (fun n same => by cases same) run

theorem PlanFiled.aside {place : Location} (filed : PlanFiled outdir root fs stack)
    (footing : Footing fs outdir root) (aside : Aside outdir root place fs after)
    (notAbove : ¬ place <:+ stack.name.node :: stacksNode :: root)
    (notBelow : ¬ stack.name.node :: stacksNode :: root <:+ place) :
    PlanFiled outdir root after stack :=
  FileSystem.Filed.aside filed footing aside notAbove notBelow

/-- What holds when plans were written. -/
structure Written (outdir : Path) (root : Location) (fs after : FileSystem) (all : List Stack) : Prop where
  footing : Footing after outdir root
  filed : ∀ stack ∈ all, PlanFiled outdir root after stack
  others : ∀ stack : Stack, stack.name ∉ all.map Stack.name → PlanFiled outdir root fs stack →
    PlanFiled outdir root after stack
  assets : ∀ (asset : Asset) (stack : ConstructId), asset.IsSettled outdir stack fs →
    asset.IsSettled outdir stack after

theorem writePlans_written (footing : Footing fs outdir root)
    (belong : ∀ stack ∈ all, stack.BelongsTo outdir) (apart : (all.map Stack.name).Nodup)
    (run : writePlans all fs = .ok () after) : Written outdir root fs after all := by
  -- `Written` speaks of all other stacks, too, as the first plan must last while the rest is written.
  induction all generalizing fs with
  | nil =>
      obtain ⟨-, rfl⟩ := Action.pure_ok_iff.mp run
      exact ⟨footing, by simp, fun _ _ filed => filed, fun _ _ settled => settled⟩
  | cons stack rest ih =>
      simp only [List.forall_mem_cons] at belong
      obtain ⟨fresh, apart⟩ := List.nodup_cons.mp (List.map_cons ▸ apart)
      obtain ⟨_, mid, first, run⟩ := Action.bind_ok_iff.mp run
      obtain ⟨filed, aside⟩ := writePlan_filed footing belong.1 first
      have written := ih aside.footing belong.2 apart run
      refine ⟨written.footing, ?_, ?_, ?_⟩
      · simp only [List.forall_mem_cons]
        exact ⟨written.others stack fresh filed, written.filed⟩
      · intro other away before
        simp only [List.map_cons, List.mem_cons, not_or] at away
        refine written.others other away.2 (before.aside footing aside ?_ ?_)
        · intro within
          have length := within.length_le
          simp only [List.length_cons] at length
          omega
        · -- The directories of two stacks have different names.
          intro within
          have same := Location.eq_of_suffix within (List.suffix_cons Plan.node _) rfl
          exact away.1 (ConstructId.node_inj (List.cons.inj same).1)
      · exact fun asset own settled =>
          written.assets asset own (settled.aside footing (.plan stack.name) aside)

/-- The documents of an app stand in their places. -/
structure IsFiled (app : App) (root : Location) (fs : FileSystem) : Prop where
  plans : ∀ stack ∈ app.registered, PlanFiled app.outdir root fs stack
  manifest : Filed fs app.outdir root [] Manifest.node (documentFile (Manifest.ofApp app).json)

theorem synthesize_filed (footing : Footing fs app.outdir root)
    (belong : ∀ stack ∈ app.registered, stack.BelongsTo app.outdir)
    (apart : (app.registered.map Stack.name).Nodup) (run : app.synthesize fs = .ok report after) :
    Footing after app.outdir root ∧ app.IsFiled root after
      ∧ ∀ (asset : Asset) (stack : ConstructId), asset.IsSettled app.outdir stack fs →
        asset.IsSettled app.outdir stack after := by
  obtain ⟨_, mid, plans, rest⟩ := Action.bind_ok_iff.mp run
  obtain ⟨_, final, manifest, done⟩ := Action.bind_ok_iff.mp rest
  obtain ⟨-, rfl⟩ := Action.pure_ok_iff.mp done
  have written := writePlans_written footing belong apart plans
  rw [app.manifestPath_eq, ← Path.descend_nil app.outdir] at manifest
  obtain ⟨filed, aside⟩ := writeDocument_filed written.footing (fun n same => by cases same) manifest
  refine ⟨aside.footing, ⟨fun stack member => ?_, filed⟩, fun asset stack settled => ?_⟩
  · refine (written.filed stack member).aside written.footing aside ?_ ?_
    · intro within
      have same := Location.eq_of_suffix within (List.suffix_cons stack.name.node _) rfl
      exact absurd (List.cons.inj same).1 (by decide)
    · intro within
      have length := within.length_le
      simp at length
  · exact (written.assets asset stack settled).aside written.footing .manifest aside

theorem writePlans_again (footing : Footing fs outdir root)
    (belong : ∀ stack ∈ all, stack.BelongsTo outdir)
    (filed : ∀ stack ∈ all, PlanFiled outdir root fs stack) :
    ∃ last, writePlans all fs = .ok () last ∧ Agrees fs last := by
  induction all generalizing fs with
  | nil => exact ⟨fs, rfl, .refl fs⟩
  | cons stack rest ih =>
      simp only [List.forall_mem_cons] at belong filed
      have path : stack.planPath = (outdir.descend [stacksNode, stack.name.node]).child Plan.node := by
        rw [stack.planPath_eq, belong.1.directory]
      obtain ⟨mid, first, agrees⟩ := writeDocument_again footing filed.1
      rw [← path] at first
      obtain ⟨last, others, further⟩ := ih (footing.agrees agrees) belong.2 fun other member =>
        (filed.2 other member).agrees agrees
      exact ⟨last, Action.bind_ok_iff.mpr ⟨(), mid, first, others⟩, agrees.trans further⟩

/-- Documents that are filed are written once more. -/
theorem synthesize_again (footing : Footing fs app.outdir root)
    (belong : ∀ stack ∈ app.registered, stack.BelongsTo app.outdir) (filed : app.IsFiled root fs) :
    ∃ last, app.synthesize fs
        = .ok ⟨app.outdir, app.manifestPath, app.registered.map Stack.report⟩ last
      ∧ Agrees fs last := by
  obtain ⟨mid, plans, agrees⟩ := writePlans_again footing belong filed.plans
  obtain ⟨last, manifest, further⟩ :=
    writeDocument_again (footing.agrees agrees) (filed.manifest.agrees agrees)
  rw [Path.descend_nil, ← app.manifestPath_eq] at manifest
  exact ⟨last, Action.bind_ok_iff.mpr ⟨(), mid, plans,
    Action.bind_ok_iff.mpr ⟨(), last, manifest, rfl⟩⟩, agrees.trans further⟩

end App

/-! ## A second run -/

/-- Building a file once more changes nothing and gives the same stack, of which no other version
can be pruned; synthesizing once more gives the same report and leaves everything as it is.  For
this, the path of the output directory does not depend on what is in it, no link is there, and the
sources are kept away from it. -/
theorem resynthesis_changes_nothing {file : StackFile} {fs built : FileSystem} {stack : Stack}
    {app : App} {report : Report} (footing : Footing fs outdir root)
    (secluded : ∀ decl ∈ file.assets, Secluded fs outdir (file.base / decl.path))
    (builds : file.build (.empty outdir .standard) fs = .ok stack built)
    (registers : (App.empty outdir .standard).addStack stack = .ok app)
    (synthesizes : app.synthesize built = .ok report after) :
    file.build (.empty outdir .standard) after = .ok stack after
      ∧ (∀ asset ∈ stack.assets, ∃ keep, shortOf asset.hash = .ok keep
        ∧ Packaging.prune (stack.staging asset.id) keep after = .ok 0 after)
      ∧ ∃ last, app.synthesize after = .ok report last ∧ Agrees after last := by
  obtain ⟨settled, again⟩ := StackFile.build_settled footing secluded builds
  obtain ⟨own, only⟩ : app.outdir = outdir ∧ app.registered = [stack] := by
    obtain ⟨-, -, rfl⟩ := Tree.addStack_ok registers
    exact ⟨rfl, rfl⟩
  subst own
  have belong : ∀ other ∈ app.registered, other.BelongsTo app.outdir := by
    simpa [only] using settled.belongs
  have apart : (app.registered.map Stack.name).Nodup := by simp [only]
  have now := footing.spares settled.spares
  obtain ⟨later, filed, still⟩ := App.synthesize_filed now belong apart synthesizes
  have toAfter := App.synthesize_spares now.unlinked rfl belong (Or.inl ⟨report, synthesizes⟩)
  -- Documents are beside all versions, so that these are settled after synthesis, too.
  have lasts : stack.IsSettled app.outdir fs after :=
    ⟨settled.belongs, settled.spares.trans footing.unlinked toAfter,
      fun asset member => still asset _ (settled.assets asset member)⟩
  refine ⟨again after lasts, fun asset member => ?_, ?_⟩
  · obtain ⟨short, name, keep, known, -, own⟩ := lasts.assets asset member
    rw [settled.belongs.staging]
    exact ⟨keep, known, own.prune (by simp [Stack.stagingNames])⟩
  · obtain ⟨last, once_more, agrees⟩ := App.synthesize_again later belong filed
    obtain ⟨_, _, -, rest⟩ := Action.bind_ok_iff.mp synthesizes
    obtain ⟨_, _, -, done⟩ := Action.bind_ok_iff.mp rest
    obtain ⟨rfl, -⟩ := Action.pure_ok_iff.mp done
    exact ⟨last, once_more, agrees⟩

end

/-! ### Once more -/

namespace Replacement

theorem linkless : Linkless start root :=
  fun l target _ => not_link_of_objects (by simp [start, sources]) l target

/-- Look-ups at the first source look at nothing else, for it is a file. -/
theorem looks_at {names : List Name} {l : Location}
    (looks : LooksAt start (Path.descend ⟨[46, 47, 120]⟩ names) l) : l = [⟨[120], by decide⟩] := by
  obtain ⟨rest, steps⟩ : ∃ rest, stepsOf (Path.descend ⟨[46, 47, 120]⟩ names)
      = .stay :: .down ⟨[120], by decide⟩ :: rest := by
    have first : Path.steps ⟨[46, 47, 120]⟩ = [.stay, .down ⟨[120], by decide⟩] := by cbv
    rw [stepsOf, Path.steps_descend, first]
    split <;> exact ⟨_, rfl⟩
  have from' : origin start.current (Path.descend ⟨[46, 47, 120]⟩ names) = [] := by
    unfold origin
    split <;> rfl
  have stands : start.get? [⟨[120], by decide⟩] = some (.file [] 0o644) := by cbv
  rw [LooksAt, steps, from'] at looks
  cases looks with
  | stay more =>
      cases more with
      | here => rfl
      | down _ directory _ => cases stands.symm.trans directory
      | cross _ linked _ => cases stands.symm.trans linked

theorem secluded : Secluded start Replacement.outdir ⟨[46, 47, 120]⟩ := by
  intro names l looks
  obtain rfl := looks_at looks
  have reached : start.reach true Replacement.outdir = .ok (linkLimit, root) := by cbv
  have stands : start.get? [⟨[120], by decide⟩] = some (.file [] 0o644) := by cbv
  refine ⟨?_, ?_⟩
  · rintro ⟨left, base, again, below⟩
    cases reached.symm.trans again
    exact absurd below.1 (by decide)
  · rintro ⟨nothing, -⟩
    cases stands.symm.trans nothing

/-- The first run is repeated without a change. -/
theorem first_run_again :
    (declared [decl 120]).build (.empty Replacement.outdir .standard) (written plan manifest)
        = .ok deployedStack (written plan manifest)
      ∧ ∃ last, app.synthesize (written plan manifest)
          = .ok ⟨Replacement.outdir, app.manifestPath, app.registered.map Stack.report⟩ last
        ∧ Agrees (written plan manifest) last := by
  have rooted : Rooted start Replacement.outdir root :=
    .of_name (by cbv) (by cbv) (by decide) (Or.inl (by cbv))
  have apart : ∀ asset ∈ (declared [decl 120]).assets,
      Secluded start Replacement.outdir ((declared [decl 120]).base / asset.path) := by
    intro asset member
    obtain rfl := List.mem_singleton.mp member
    exact secluded
  obtain ⟨builds, -, synthesized⟩ := resynthesis_changes_nothing ⟨rooted, linkless⟩ apart builds_first
    registers_stack synthesizes
  exact ⟨builds, synthesized⟩

end Replacement

/-! ### A way out of the output directory -/

namespace Outward

open Replacement (outdirName stackId assetId root stackPlace versions declared bare staging)

/-- What was staged before, as the name tells; it holds the source now. -/
def version : Name := ⟨Utf8.encode "0123456789abcdef", by cbv⟩

def elsewhere : Name := ⟨[118], by decide⟩

def sourceName : Name := ⟨[119], by decide⟩

/-- Where the versions of the asset are, the link leads to the directory `v`. -/
def directories : List (Location × Object) :=
  [(versions, .link ⟨Utf8.encode "../../../../v"⟩), (Stack.assetsNode :: stackPlace, .directory),
    (stackPlace, .directory), (App.stacksNode :: root, .directory), (root, .directory),
    ([elsewhere], .directory)]

def sources : List (Location × Object) :=
  [([sourceName, version, elsewhere], .file [] 0o644), ([version, elsewhere], .directory)]

def staged : List (Location × Object) :=
  [([EmptyPair.short, EmptyPair.short, elsewhere], .file [] 0o644),
    ([EmptyPair.short, elsewhere], .directory)]

def start : FileSystem := ⟨directories ++ sources, []⟩

def both : FileSystem := ⟨staged ++ start.objects, []⟩

/-- The source has gone with the version that it stood in. -/
def pruned : FileSystem := ⟨staged ++ directories, []⟩

def planned (plan : Bytes) : FileSystem :=
  ⟨(Plan.node :: stackPlace, .file plan 0o600) :: pruned.objects, []⟩

def written (plan manifest : Bytes) : FileSystem :=
  ⟨(Manifest.node :: root, .file manifest 0o600) :: (planned plan).objects, []⟩

def decl : AssetDecl := ⟨"a", ⟨Utf8.encode "v/0123456789abcdef/w"⟩, .file⟩

def source : Path := ⟨Utf8.encode "./v/0123456789abcdef/w"⟩

def path : Path := (staging.childText "e3b0c44298fc1c14").childText "e3b0c44298fc1c14"

def asset : Asset := Replacement.asset source [] "e3b0c44298fc1c14" path

def stack : Stack := { bare with assets := [asset] }

def app : App := ⟨Replacement.outdir, .standard, [stack]⟩

def plan : Bytes := App.documentFile (Plan.ofStack stack).document

def manifest : Bytes := App.documentFile (Manifest.ofApp app).json

theorem stages : Packaging.stageIn source .file [] (staging.childText "e3b0c44298fc1c14") path start
    = .ok () both := by
  have made : createAll (staging.childText "e3b0c44298fc1c14") start
      = .ok () ⟨([EmptyPair.short, elsewhere], .directory) :: start.objects, []⟩ := by cbv
  refine Packaging.stageIn_done made ?_
  unfold Packaging.stage
  cbv

theorem prunes : Packaging.prune staging "e3b0c44298fc1c14" both = .ok 1 pruned := by
  have listed : both.names staging = .ok [EmptyPair.short, version] := by cbv
  have isVersion : version.IsVersion :=
    Name.isVersion_iff_exists.mpr ⟨"0123456789abcdef", by cbv, by cbv⟩
  have differs : "0123456789abcdef" ≠ "e3b0c44298fc1c14" := by decide
  have old : Packaging.Replaced both staging "e3b0c44298fc1c14" version :=
    ⟨isVersion, fun same => differs (Utf8.encode_inj same), [version, elsewhere], by cbv⟩
  have removed : both.removeAll (staging.child version) = .ok pruned := by cbv
  refine Packaging.prune_of_names listed (Packaging.pruneAmong_kept (fun new => new.other rfl) ?_)
  exact Packaging.pruneAmong_removed old removed rfl

theorem writes_plan (plan : Bytes) :
    writeAtomically bare.planPath plan pruned = .ok () (planned plan) := by
  cbv

theorem writes_manifest (plan manifest : Bytes) :
    writeAtomically (App.empty Replacement.outdir .standard).manifestPath manifest (planned plan)
      = .ok () (written plan manifest) := by
  cbv

theorem builds : (declared [decl]).build (.empty Replacement.outdir .standard) start
    = .ok stack pruned := by
  have added : bare.addAsset "a" source .file start = .ok (asset, stack) pruned :=
    Replacement.registers (by cbv) (by cbv) EmptyPair.shortOf_nil (by cbv) rfl (by cbv) stages prunes
      (fun hash => by cbv)
  have joined : StackFile.here / decl.path = source := by cbv
  rw [← joined] at added
  refine Action.bind_ok_iff.mpr ⟨bare, _, rfl, ?_⟩
  refine Action.bind_ok_iff.mpr ⟨stack, pruned, ?_, rfl⟩
  exact Action.bind_ok_iff.mpr ⟨_, _, Action.bind_ok_iff.mpr ⟨_, _, added, rfl⟩, rfl⟩

theorem registers : (App.empty Replacement.outdir .standard).addStack stack = .ok app := by
  simp only [App.addStack]
  rw [if_neg (by simp [App.stack?, App.empty])]
  exact if_neg (by simp [stack, bare, Stack.empty, Path.sameName])

theorem synthesizes : app.synthesize pruned
    = .ok ⟨Replacement.outdir, app.manifestPath, app.registered.map Stack.report⟩ (written plan manifest) :=
  App.synthesize_one rfl (writes_plan plan) (writes_manifest plan manifest)

theorem missing (plan manifest : Bytes) :
    (written plan manifest).stat source = .error .notFound := by
  cbv

theorem fails_to_build (plan manifest : Bytes) :
    (declared [decl]).build (.empty Replacement.outdir .standard) (written plan manifest)
      = .error (.pathNotFound source) (written plan manifest) := by
  have failed : bare.packager.package source .file (bare.staging assetId) (written plan manifest)
      = .error (.pathNotFound source) (written plan manifest) :=
    Packaging.package_missing (missing plan manifest)
  have joined : StackFile.here / decl.path = source := by cbv
  rw [← joined] at failed
  refine Action.bind_error_iff.mpr (Or.inr ⟨bare, _, rfl, ?_⟩)
  refine Action.bind_error_iff.mpr (Or.inl ?_)
  refine Action.bind_error_iff.mpr (Or.inl ?_)
  refine Action.bind_error_iff.mpr (Or.inl ?_)
  refine Action.bind_error_iff.mpr (Or.inr
    ⟨assetId, _, Action.ofExcept_ok_iff.mpr ⟨ConstructId.ofText_text assetId, rfl⟩, ?_⟩)
  exact Action.bind_error_iff.mpr (Or.inl failed)

/-- The source is outside the output directory, and no link leads into it.  A second run does not
find the source that the first one has removed. -/
theorem not_repeated : ¬ ∀ (file : StackFile) (outdir : Path) (fs built after : FileSystem)
    (stack : Stack) (app : App) (report : Report), Sound fs →
    (∀ decl ∈ file.assets, ∀ left base l object, fs.reach true outdir = .ok (left, base) →
      fs.stat (file.base / decl.path) = .ok (l, object) → ¬ base <:+ l ∧ ¬ l <:+ base) →
    (∀ l target links there left base, fs.get? l = some (.link target) →
      enter fs true linkLimit (origin l.tail target) (stepsOf target) = .ok (links, there) →
      fs.reach true outdir = .ok (left, base) → ¬ base <:+ there) →
    file.build (.empty outdir .standard) fs = .ok stack built →
    (App.empty outdir .standard).addStack stack = .ok app → app.synthesize built = .ok report after →
    ∃ stack' app' built' last, file.build (.empty outdir .standard) after = .ok stack' built'
      ∧ (App.empty outdir .standard).addStack stack' = .ok app'
      ∧ app'.synthesize built' = .ok report last ∧ Agrees after last := by
  intro claim
  have once : (start.objects.map (·.1)).Nodup := by decide
  have reached : start.reach true Replacement.outdir = .ok (linkLimit, root) := by cbv
  have outside : ∀ asset ∈ (declared [decl]).assets, ∀ left base l object,
      start.reach true Replacement.outdir = .ok (left, base) →
      start.stat ((declared [decl]).base / asset.path) = .ok (l, object) →
      ¬ base <:+ l ∧ ¬ l <:+ base := by
    intro asset member left base l object again found
    obtain rfl := List.mem_singleton.mp member
    cases reached.symm.trans again
    have known : start.stat ((declared [decl]).base / decl.path)
        = .ok ([sourceName, version, elsewhere], .file [] 0o644) := by cbv
    cases known.symm.trans found
    decide
  have unled : ∀ l target links there left base, start.get? l = some (.link target) →
      enter start true linkLimit (origin l.tail target) (stepsOf target) = .ok (links, there) →
      start.reach true Replacement.outdir = .ok (left, base) → ¬ base <:+ there := by
    intro l target links there left base linked led again
    cases reached.symm.trans again
    cases l with
    | nil => cases linked
    | cons name here =>
        -- There is one link, and it leads out.
        have known := (get?_eq_some_iff once (List.cons_ne_nil name here)).mp linked
        obtain ⟨place, rfl⟩ : name :: here = versions ∧ target = ⟨Utf8.encode "../../../../v"⟩ := by
          simpa [start, directories, sources] using known
        rw [place] at led
        have out : enter start true linkLimit (origin versions.tail ⟨Utf8.encode "../../../../v"⟩)
            (stepsOf ⟨Utf8.encode "../../../../v"⟩) = .ok (linkLimit, [elsewhere]) := by cbv
        cases out.symm.trans led
        decide
  obtain ⟨stack', app', built', last, again, -⟩ := claim (declared [decl]) Replacement.outdir start
    pruned (written plan manifest) stack app _ ⟨.of_objects once (by decide), rfl⟩ outside unled builds
    registers synthesizes
  cases (fails_to_build plan manifest).symm.trans again

end Outward

end StackSynth
