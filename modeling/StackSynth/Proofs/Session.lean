import StackSynth.Proofs.Construction
import StackSynth.Proofs.Deployment

/-!
# Session — one app fills a fresh output directory

An app makes stacks, of which no two go by one name, registers assets in them, takes them in and
writes its documents, while other programs work elsewhere.  Any of these calls may fail.  An asset
is new when it is packaged, so that what is staged for it is of its kind, and no other call
touches its version.  So all that the manifest lists is there when it is written.

* `Session` — the calls;
* `Session.Holds` — what every call preserves;
* `Session.Closed`, `Session.closed` — what is there when the documents are written.
-/

namespace StackSynth

open FileSystem Packaging

/-! ## Assets in their places -/

/-- The asset is where it was staged, and is what a source of its type becomes. -/
structure Asset.StandsAs (asset : Asset) (outdir : Path) (root : Location) (stack : ConstructId)
    (fs : FileSystem) (short name : Name) (object : Object) : Prop where
  named : asset.StagedAs outdir stack short name
  straight : Straight fs outdir root (Stack.stagingNames stack asset.id ++ [short, name])
  stands : fs.get? (name :: short :: ((Stack.stagingNames stack asset.id).reverse ++ root))
    = some object
  suits : asset.type.Suits object

def Asset.Stands (asset : Asset) (outdir : Path) (root : Location) (stack : ConstructId)
    (fs : FileSystem) : Prop :=
  ∃ short name object, asset.StandsAs outdir root stack fs short name object

section Calls

variable {outdir : Path} {root : Location} {fs after : FileSystem} {asset : Asset}

theorem Stack.place_version (stack asset : ConstructId) (short name : Name) :
    (stagingNames stack asset ++ [short, name]).reverse ++ root
      = name :: short :: ((stagingNames stack asset).reverse ++ root) := by
  simp

theorem Asset.StandsAs.stat {stack : ConstructId} {short name : Name} {object : Object}
    (there : asset.StandsAs outdir root stack fs short name object)
    (standing : Standing outdir root fs) :
    fs.stat asset.staged
      = .ok (name :: short :: ((Stack.stagingNames stack asset.id).reverse ++ root), object) := by
  rw [there.named.staged,
    standing.rooted.stat_descend standing.plain standing.sound.toWellFormed (by simp)]
  rw [Stack.place_version]
  exact ⟨there.straight, rfl, there.stands⟩

/-- What is found is in its place. -/
theorem Asset.StandsAs.of_stat {stack : ConstructId} {short name : Name} {object : Object}
    (standing : Standing outdir root fs) (named : asset.StagedAs outdir stack short name)
    (found : fs.stat asset.staged
      = .ok (name :: short :: ((Stack.stagingNames stack asset.id).reverse ++ root), object))
    (suits : asset.type.Suits object) : asset.StandsAs outdir root stack fs short name object := by
  rw [named.staged,
    standing.rooted.stat_descend standing.plain standing.sound.toWellFormed (by simp),
    Stack.place_version] at found
  obtain ⟨straight, -, stands⟩ := found
  exact ⟨named, straight, stands, suits⟩

/-- An asset does not notice what leaves its version alone. -/
theorem Asset.StandsAs.frame {stack : ConstructId} {short name : Name} {object : Object}
    (there : asset.StandsAs outdir root stack fs short name object)
    (entered : (∃ left, fs.reach false outdir = .ok (left, root)) →
      ∃ left, after.reach false outdir = .ok (left, root))
    (same : fs.get? (name :: short :: ((Stack.stagingNames stack asset.id).reverse ++ root))
        = some object →
      after.get? (name :: short :: ((Stack.stagingNames stack asset.id).reverse ++ root))
        = some object) : asset.StandsAs outdir root stack after short name object where
  named := there.named
  straight := ⟨there.straight.spelled, there.straight.fit, entered there.straight.entered⟩
  stands := same there.stands
  suits := there.suits

/-- An asset lasts while its version is not gone. -/
theorem Asset.Stands.advance {stack : ConstructId} {gone new : Location → Prop}
    (there : asset.Stands outdir root stack fs) (standing : Standing outdir root fs)
    (advance : Advance outdir root gone new fs after)
    (stays : ∀ short name,
      ¬ gone ((Stack.stagingNames stack asset.id ++ [short, name]).reverse ++ root)) :
    asset.Stands outdir root stack after := by
  obtain ⟨short, name, object, there⟩ := there
  refine ⟨short, name, object, there.frame (standing.entered advance.outside) ?_⟩
  rw [← Stack.place_version]
  refine advance.kept _ _ (Or.inr ⟨_, ?_, rfl⟩) (stays short name)
  simp [Stack.stagingNames, versionDepth]

/-! ## Declarations and the disk -/

namespace Stack

variable {stack next : Stack} {declaration : Declaration}

/-- Assets alone touch the disk. -/
theorem declare_plain (run : stack.declare declaration fs = .ok next after)
    (plain : ∀ id source type, declaration ≠ .asset id source type) :
    after = fs ∧ stack.SameAssets next := by
  have registers := declare_ok run
  cases registers with
  | asset _ _ _ => exact absurd rfl (plain _ _ _)
  | provider _ | resource _ _ | shape _ _ _ | output _ | module _ =>
      exact ⟨(Action.ofExcept_ok_iff.mp run).2.symm, rfl, rfl, rfl, rfl⟩

theorem declare_asset_ok {id : String} {source : Path} {type : AssetType}
    (run : stack.declare (.asset id source type) fs = .ok next after) :
    ∃ asset, stack.addAsset id source type fs = .ok (asset, next) after := by
  obtain ⟨⟨asset, made⟩, mid, added, done⟩ := Action.bind_ok_iff.mp run
  obtain ⟨rfl, rfl⟩ := Action.pure_ok_iff.mp done
  exact ⟨asset, added⟩

/-- A declaration that fails leaves nothing in the versions of any asset. -/
theorem declare_failed (standing : Standing outdir root fs) (belongs : stack.BelongsTo outdir)
    {e : Failure} (run : stack.declare declaration fs = .error e after) :
    Advance outdir root Nothing Nothing fs after := by
  cases declaration with
  | asset id source type =>
      rcases Action.bind_error_iff.mp run with failed | ⟨_, _, -, done⟩
      · exact addAsset_failed standing belongs failed
      · exact absurd done Action.pure_error_iff.mp
  | provider _ | resource _ | shape _ _ | output _ | module _ =>
      obtain rfl := (Action.ofExcept_error_iff.mp run).2
      exact .refl standing

end Stack

/-! ## Calls -/

/-- Calls of one app, that has made stacks of some names.  At first the disk is as `start` says, and
`other` says what other programs do to it. -/
inductive Session (outdir : Path) (start : FileSystem → Prop)
    (other : FileSystem → FileSystem → Prop) : List String → Tree → Prop
  | begin {disk : FileSystem} : start disk →
      Session outdir start other [] ⟨disk, .empty outdir .standard, []⟩
  | create {names : List String} {tree after : Tree} {name : String} {result : Except Failure Unit} :
      Session outdir start other names tree → name ∉ names →
      tree.Step (.create tree.app name) result after →
      Session outdir start other (name :: names) after
  | declare {names : List String} {tree after : Tree} {position : Nat} {declaration : Declaration}
      {result : Except Failure Unit} : Session outdir start other names tree →
      tree.Step (.declare position declaration) result after →
      Session outdir start other names after
  | register {names : List String} {tree after : Tree} {position : Nat}
      {result : Except Failure Unit} : Session outdir start other names tree →
      tree.Step (.register position) result after → Session outdir start other names after
  | synthesize {names : List String} {tree : Tree} {disk : FileSystem} :
      Session outdir start other names tree → Action.Ends tree.app.synthesize tree.disk disk →
      Session outdir start other names { tree with disk := disk }
  | elsewhere {names : List String} {tree : Tree} {disk : FileSystem} :
      Session outdir start other names tree → other tree.disk disk →
      Session outdir start other names { tree with disk := disk }

/-- Nothing is below the root to which the path leads. -/
structure Fresh (outdir : Path) (root : Location) (fs : FileSystem) : Prop where
  sound : Sound fs
  rooted : Rooted fs outdir root
  nothing : ∀ l, Location.Below root l → fs.get? l = none

theorem Fresh.standing (fresh : Fresh outdir root fs) : Standing outdir root fs :=
  .begin fresh.sound fresh.rooted fresh.nothing

/-- The stacks of a tree, with those that the app has not taken in first. -/
def Tree.stacks (tree : Tree) : List Stack :=
  tree.loose ++ tree.app.registered

/-- An asset of the stack was not registered and may be. -/
def Tree.Open (tree : Tree) (names : List String) (stack asset : ConstructId) : Prop :=
  stack.text ∉ names ∨ ∃ known ∈ tree.loose, known.name = stack ∧ ∀ other ∈ known.assets, other.id ≠ asset

namespace Session

variable {names : List String} {tree : Tree} {disk : FileSystem}

/-- What holds between calls. -/
structure Holds (outdir : Path) (root : Location) (names : List String) (tree : Tree) : Prop where
  standing : Standing outdir root tree.disk
  place : tree.app.outdir = outdir
  standard : tree.app.packager = .standard
  belong : ∀ stack ∈ tree.stacks, stack.BelongsTo outdir
  created : ∀ stack ∈ tree.stacks, stack.name.text ∈ names
  apart : (tree.stacks.map Stack.name).Nodup
  staged : ∀ stack ∈ tree.stacks, ∀ asset ∈ stack.assets, asset.Stands outdir root stack.name tree.disk
  unused : ∀ stack asset, tree.Open names stack asset →
    Unused tree.disk ((Stack.stagingNames stack asset).reverse ++ root)

theorem Holds.begin (fresh : Fresh outdir root disk) :
    Holds outdir root [] ⟨disk, .empty outdir .standard, []⟩ where
  standing := fresh.standing
  place := rfl
  standard := rfl
  belong := by simp [Tree.stacks, App.empty]
  created := by simp [Tree.stacks, App.empty]
  apart := by simp [Tree.stacks, App.empty]
  staged := by simp [Tree.stacks, App.empty]
  unused := by
    intro stack asset _ rest deep
    rw [← List.append_assoc]
    exact fresh.nothing _ (below_of_length (n := 1) (by simp; omega))

/-! ### The disk alone -/

/-- Versions and what is in them are as they were. -/
theorem Holds.moved (holds : Holds outdir root names tree) (standing : Standing outdir root disk)
    (entered : (∃ left, tree.disk.reach false outdir = .ok (left, root)) →
      ∃ left, disk.reach false outdir = .ok (left, root))
    (same : ∀ inside, versionDepth < inside.length → ∀ object,
      tree.disk.get? (inside ++ root) = object → disk.get? (inside ++ root) = object) :
    Holds outdir root names { tree with disk := disk } where
  standing := standing
  place := holds.place
  standard := holds.standard
  belong := holds.belong
  created := holds.created
  apart := holds.apart
  staged := by
    intro stack member asset inside
    obtain ⟨short, name, object, there⟩ := holds.staged stack member asset inside
    refine ⟨short, name, object, there.frame entered ?_⟩
    rw [← Stack.place_version]
    exact same _ (by simp [Stack.stagingNames, versionDepth]) _
  unused := by
    intro stack asset isOpen rest deep
    rw [← List.append_assoc]
    refine same _ ?_ _ ?_
    · simp only [List.length_append, List.length_reverse, Stack.stagingNames, versionDepth,
        List.length_cons, List.length_nil]
      omega
    · rw [List.append_assoc]
      exact holds.unused stack asset isOpen rest deep

theorem Holds.advance (holds : Holds outdir root names tree) {gone : Location → Prop}
    (advance : Advance outdir root gone Nothing tree.disk disk)
    (stays : ∀ inside, versionDepth < inside.length → ¬ gone (inside ++ root)) :
    Holds outdir root names { tree with disk := disk } := by
  refine holds.moved advance.standing (holds.standing.entered advance.outside) ?_
  intro inside deep object stands
  cases object with
  | none => exact advance.added inside deep id stands
  | some object => exact advance.kept _ object (Or.inr ⟨inside, deep, rfl⟩) (stays inside deep) stands

theorem Holds.elsewhere (holds : Holds outdir root names tree)
    (undisturbed : Undisturbed outdir root tree.disk disk) :
    Holds outdir root names { tree with disk := disk } := by
  refine holds.moved (holds.standing.elsewhere undisturbed) undisturbed.found ?_
  intro inside deep object stands
  rw [undisturbed.same _ (List.suffix_append inside root)]
  exact stands

theorem Holds.registered (holds : Holds outdir root names tree) :
    (∀ stack ∈ tree.app.registered, stack.BelongsTo outdir)
      ∧ (tree.app.registered.map Stack.name).Nodup := by
  refine ⟨fun stack member => holds.belong stack (List.mem_append_right _ member), ?_⟩
  exact holds.apart.sublist ((List.sublist_append_right _ _).map _)

theorem Holds.synthesize (holds : Holds outdir root names tree)
    (ends : Action.Ends tree.app.synthesize tree.disk disk) :
    Holds outdir root names { tree with disk := disk } := by
  obtain rfl := holds.place
  obtain ⟨belong, apart⟩ := holds.registered
  rcases ends with ⟨report, run⟩ | ⟨e, failed⟩
  · refine holds.advance (App.synthesize_ok holds.standing belong apart run).1 ?_
    intro inside deep isManifest
    have length := congrArg List.length isManifest
    simp only [List.length_append, List.length_cons, versionDepth] at length deep
    omega
  · exact holds.advance (App.synthesize_error holds.standing belong apart failed) fun _ _ => id

/-! ### Stacks -/

/-- A stack that is new has no assets yet. -/
theorem Holds.enter (holds : Holds outdir root names tree) {stack : Stack}
    (fresh : stack.name.text ∉ names) (belongs : stack.BelongsTo outdir) (none : stack.assets = []) :
    Holds outdir root (stack.name.text :: names) { tree with loose := tree.loose ++ [stack] } := by
  -- The new stack is last of the loose ones; up to the order it is one more stack.
  have moved : (tree.loose ++ [stack] ++ tree.app.registered).Perm (stack :: tree.stacks) := by
    rw [List.append_assoc]
    exact List.perm_middle
  have mem : ∀ known ∈ tree.loose ++ [stack] ++ tree.app.registered,
      known = stack ∨ known ∈ tree.stacks := fun known member =>
    List.mem_cons.mp (moved.subset member)
  refine ⟨holds.standing, holds.place, holds.standard, ?_, ?_, ?_, ?_, ?_⟩
  · intro known member
    rcases mem known member with rfl | old
    · exact belongs
    · exact holds.belong known old
  · intro known member
    rcases mem known member with rfl | old
    · exact List.mem_cons_self
    · exact List.mem_cons_of_mem _ (holds.created known old)
  · refine (moved.map Stack.name).nodup_iff.mpr (List.nodup_cons.mpr ⟨?_, holds.apart⟩)
    intro taken
    obtain ⟨known, member, same⟩ := List.mem_map.mp taken
    exact fresh (congrArg ConstructId.text same ▸ holds.created known member)
  · intro known member asset inside
    rcases mem known member with rfl | old
    · rw [none] at inside
      cases inside
    · exact holds.staged known old asset inside
  · rintro name asset (unknown | ⟨known, member, rfl, free⟩)
    · exact holds.unused name asset (Or.inl fun old => unknown (List.mem_cons_of_mem _ old))
    · rcases List.mem_append.mp member with old | new
      · exact holds.unused _ asset (Or.inr ⟨known, old, rfl, free⟩)
      · obtain rfl := List.mem_singleton.mp new
        exact holds.unused _ asset (Or.inl fresh)

theorem Holds.create (holds : Holds outdir root names tree) {name : String} (fresh : name ∉ names)
    {after : Tree} {result : Except Failure Unit}
    (step : tree.Step (.create tree.app name) result after) :
    Holds outdir root (name :: names) after := by
  cases step with
  | created _ made =>
      obtain ⟨id, rfl, rfl⟩ := Tree.newStack_ok made
      have belongs : (Stack.empty id (tree.app.stackDirectory id) tree.app.packager).BelongsTo outdir :=
        ⟨holds.place ▸ tree.app.stackDirectory_eq id, holds.standard⟩
      exact holds.enter fresh belongs rfl
  | notCreated _ =>
      refine { holds with created := ?_, unused := ?_ }
      · exact fun stack member => List.mem_cons_of_mem _ (holds.created stack member)
      · intro stack asset isOpen
        exact holds.unused stack asset <| isOpen.imp_left fun unknown old =>
          unknown (List.mem_cons_of_mem _ old)

/-- Nothing changes for stacks that are still there. -/
theorem Holds.keep (holds : Holds outdir root names tree) {app : App} {loose : List Stack}
    (place : app.outdir = tree.app.outdir) (packager : app.packager = tree.app.packager)
    (known : loose ⊆ tree.loose) (all : loose ++ app.registered ⊆ tree.stacks)
    (apart : ((loose ++ app.registered).map Stack.name).Nodup) :
    Holds outdir root names ⟨tree.disk, app, loose⟩ where
  standing := holds.standing
  place := place.trans holds.place
  standard := packager.trans holds.standard
  belong := fun stack member => holds.belong stack (all member)
  created := fun stack member => holds.created stack (all member)
  apart := apart
  staged := fun stack member => holds.staged stack (all member)
  unused := fun stack asset isOpen =>
    holds.unused stack asset (isOpen.imp_right fun ⟨own, member, rest⟩ => ⟨own, known member, rest⟩)

theorem Holds.register (holds : Holds outdir root names tree) {position : Nat} {after : Tree}
    {result : Except Failure Unit} (step : tree.Step (.register position) result after) :
    Holds outdir root names after := by
  have known : tree.loose.eraseIdx position ⊆ tree.loose := fun _ => List.mem_of_mem_eraseIdx
  cases step with
  | @registered _ stack app found run =>
      obtain ⟨-, -, rfl⟩ := Tree.addStack_ok run
      obtain ⟨inside, rfl⟩ := List.getElem?_eq_some_iff.mp found
      have moved : (tree.loose.eraseIdx position
          ++ (tree.app.registered ++ [tree.loose[position]])).Perm tree.stacks := by
        rw [← List.append_assoc]
        exact (List.perm_append_singleton _ _).trans
          ((List.getElem_cons_eraseIdx_perm inside).append_right _)
      exact holds.keep rfl rfl known moved.subset ((moved.map Stack.name).nodup_iff.mpr holds.apart)
  | notRegistered _ _ =>
      have fewer := (List.eraseIdx_sublist tree.loose position).append_right tree.app.registered
      exact holds.keep rfl rfl known fewer.subset (holds.apart.sublist (fewer.map Stack.name))

/-! ### Declarations -/

/-- A stack with one more construct has its old position. -/
theorem names_set {loose : List Stack} {position : Nat} {stack next : Stack}
    (known : loose[position]? = some stack) (name : next.name = stack.name) :
    (loose.set position next).map Stack.name = loose.map Stack.name := by
  refine List.ext_getElem? fun i => ?_
  rw [List.map_set, List.getElem?_set, List.length_map, List.getElem?_map]
  split
  · rename_i same
    obtain ⟨inside, -⟩ := List.getElem?_eq_some_iff.mp known
    rw [← same, known, if_pos inside, name]
    rfl
  · rfl

/-- The stacks keep their names where one of them has been replaced. -/
theorem names_replaced {position : Nat} {stack next : Stack}
    (known : tree.loose[position]? = some stack) (name : next.name = stack.name) :
    (tree.loose.set position next ++ tree.app.registered).map Stack.name
      = tree.stacks.map Stack.name := by
  rw [List.map_append, names_set known name, Tree.stacks, List.map_append]

/-- A stack that is not the new one has another name than it, and was there. -/
theorem mem_replaced (apart : (tree.stacks.map Stack.name).Nodup) {position : Nat}
    {stack next other : Stack} (known : tree.loose[position]? = some stack)
    (name : next.name = stack.name)
    (member : other ∈ tree.loose.set position next ++ tree.app.registered) :
    other = next ∨ other ∈ tree.stacks ∧ other.name ≠ stack.name := by
  have here : next ∈ tree.loose.set position next ++ tree.app.registered := by
    obtain ⟨inside, -⟩ := List.getElem?_eq_some_iff.mp known
    exact List.mem_append_left _ (List.mem_set inside next)
  by_cases same : other = next
  · exact Or.inl same
  refine Or.inr ⟨?_, fun sameName => ?_⟩
  · rcases List.mem_append.mp member with loose | registered
    · rcases List.mem_or_eq_of_mem_set loose with old | new
      · exact List.mem_append_left _ old
      · exact absurd new same
    · exact List.mem_append_right _ registered
  · -- Two stacks of one name would be one.
    rw [← names_replaced known name] at apart
    exact same (List.inj_on_of_nodup_map apart member here (sameName.trans name.symm))

/-- One stack has been replaced, and the assets of the others are where they were. -/
theorem Holds.replace (holds : Holds outdir root names tree) {position : Nat} {stack next : Stack}
    (known : tree.loose[position]? = some stack) (name : next.name = stack.name)
    (more : stack.assets ⊆ next.assets) (belongs : next.BelongsTo outdir) (standing : Standing outdir root disk)
    (own : ∀ asset ∈ next.assets, asset.Stands outdir root next.name disk)
    (others : ∀ other ∈ tree.stacks, other.name ≠ stack.name → ∀ asset ∈ other.assets,
      asset.Stands outdir root other.name disk)
    (unused : ∀ other asset, tree.Open names other asset →
      (other = stack.name → ∀ own ∈ next.assets, own.id ≠ asset) →
      Unused disk ((Stack.stagingNames other asset).reverse ++ root)) :
    Holds outdir root names { tree with disk := disk, loose := tree.loose.set position next } := by
  have loose := List.mem_of_getElem? known
  have created := holds.created stack (List.mem_append_left _ loose)
  have apart : ((tree.loose.set position next ++ tree.app.registered).map Stack.name).Nodup :=
    names_replaced known name ▸ holds.apart
  have mem : ∀ other ∈ tree.loose.set position next ++ tree.app.registered,
      other = next ∨ other ∈ tree.stacks ∧ other.name ≠ stack.name :=
    fun other => mem_replaced holds.apart known name
  refine ⟨standing, holds.place, holds.standard, ?_, ?_, apart, ?_, ?_⟩
  · intro other member
    rcases mem other member with rfl | ⟨old, -⟩
    · exact belongs
    · exact holds.belong other old
  · intro other member
    rcases mem other member with rfl | ⟨old, -⟩
    · rw [name]
      exact created
    · exact holds.created other old
  · intro other member
    rcases mem other member with rfl | ⟨old, differs⟩
    · exact own
    · exact others other old differs
  · -- What is open now was open before.
    rintro other asset (unknown | ⟨found, member, rfl, free⟩)
    · refine unused other asset (Or.inl unknown) ?_
      rintro rfl
      exact absurd created unknown
    · rcases mem found (List.mem_append_left _ member) with rfl | ⟨-, differs⟩
      · refine unused _ asset (Or.inr ⟨stack, loose, name.symm, ?_⟩) fun _ => free
        exact fun own inside => free own (more inside)
      · rcases List.mem_or_eq_of_mem_set member with old | rfl
        · exact unused _ asset (Or.inr ⟨found, old, rfl, free⟩) fun same => absurd same differs
        · exact absurd name differs

/-- Places in the versions of one asset are not in those of another. -/
theorem eq_of_version {s t a b : ConstructId} {rest : List Name}
    (within : (Stack.stagingNames s a).reverse ++ root
      <:+ rest ++ ((Stack.stagingNames t b).reverse ++ root)) : s = t ∧ a = b :=
  Stack.stagingNames_inj
    (Location.eq_of_suffix within (List.suffix_append rest _) (by simp [Stack.stagingNames]))

/-- An asset takes no other asset's version, and is new. -/
theorem Holds.addAsset (holds : Holds outdir root names tree) {position : Nat} {stack next : Stack}
    (known : tree.loose[position]? = some stack) {text : String} {source : Path} {type : AssetType}
    (run : stack.addAsset text source type tree.disk = .ok (asset, next) disk) :
    Holds outdir root names { tree with disk := disk, loose := tree.loose.set position next } := by
  have member : stack ∈ tree.loose := List.mem_of_getElem? known
  have belongs := holds.belong stack (List.mem_append_left _ member)
  obtain ⟨short, name, keep, object, named, -, advance, found, suits⟩ :=
    Stack.addAsset_advance holds.standing belongs run
  obtain ⟨_, _, _, -, fresh, -, -, -, -, rfl⟩ := Stack.addAsset_ok run
  refine holds.replace known rfl (List.subset_append_left _ _) ⟨belongs.directory, belongs.packager⟩
    advance.standing ?_ ?_ ?_
  · intro other inside
    rcases List.mem_append.mp inside with old | new
    · -- What the stack staged before is kept, since only versions of the new asset are stale.
      have there := holds.staged stack (List.mem_append_left _ member) other old
      refine there.advance holds.standing advance fun _ _ stale => ?_
      exact fresh other old (Stack.stale_of_same stale).2.1.symm
    · obtain rfl := List.mem_singleton.mp new
      have unused := holds.unused stack.name other.id (Or.inr ⟨stack, member, rfl, fresh⟩)
      exact ⟨short, name, object, .of_stat advance.standing named found (suits unused)⟩
  · intro other among differs asset' inside
    have there := holds.staged other among asset' inside
    refine there.advance holds.standing advance fun _ _ stale => ?_
    exact differs (Stack.stale_of_same stale).1.symm
  · intro other id isOpen free rest deep
    have nothing := holds.unused other id isOpen rest deep
    rw [← List.append_assoc] at nothing ⊢
    refine advance.added _ ?_ ?_ nothing
    · simp only [List.length_append, List.length_reverse, Stack.stagingNames, versionDepth,
        List.length_cons, List.length_nil]
      omega
    · rw [List.append_assoc]
      intro within
      obtain ⟨sameStack, sameAsset⟩ := eq_of_version within
      exact free sameStack.symm asset (by simp) sameAsset

theorem Holds.declare (holds : Holds outdir root names tree) {position : Nat}
    {declaration : Declaration} {after : Tree} {result : Except Failure Unit}
    (step : tree.Step (.declare position declaration) result after) :
    Holds outdir root names after := by
  cases step with
  | @declared _ _ stack next disk known run =>
      by_cases plain : ∀ id source type, declaration ≠ .asset id source type
      · obtain ⟨rfl, same⟩ := Stack.declare_plain run plain
        have member : stack ∈ tree.stacks := List.mem_append_left _ (List.mem_of_getElem? known)
        have belongs := holds.belong stack member
        refine holds.replace known same.name (fun _ inside => same.assets ▸ inside) ⟨?_, ?_⟩ holds.standing ?_
          (fun other among _ => holds.staged other among) fun other id isOpen _ =>
            holds.unused other id isOpen
        · rw [same.directory, same.name]
          exact belongs.directory
        · exact same.packager.trans belongs.packager
        · rw [same.assets, same.name]
          exact holds.staged stack member
      · push Not at plain
        obtain ⟨id, source, type, rfl⟩ := plain
        obtain ⟨asset, added⟩ := Stack.declare_asset_ok run
        exact holds.addAsset known added
  | notDeclared known failed =>
      have belongs := holds.belong _ (List.mem_append_left _ (List.mem_of_getElem? known))
      exact holds.advance (Stack.declare_failed holds.standing belongs failed) fun _ _ => id

end Session

/-! ## Runs -/

theorem Session.holds {names : List String} {tree : Tree}
    (session : Session outdir (Fresh outdir root) (Undisturbed outdir root) names tree) :
    Session.Holds outdir root names tree := by
  induction session with
  | begin fresh => exact .begin fresh
  | create _ fresh step ih => exact ih.create fresh step
  | declare _ step ih => exact ih.declare step
  | register _ step ih => exact ih.register step
  | synthesize _ ends ih => exact ih.synthesize ends
  | elsewhere _ undisturbed ih => exact ih.elsewhere undisturbed

/-! ## What is listed -/

/-- The listed path tells the asset, the beginning of its hash and the name of its file. -/
theorem Asset.StagedAs.path_eq {stack : ConstructId} {short name : Name}
    (named : asset.StagedAs outdir stack short name) :
    ∃ digits : List Char, asset.hash.text = ContentHash.mark ++ String.ofList digits
      ∧ digits.length = 64 ∧ (∀ c ∈ digits, Bytes.IsHexChar c)
      ∧ asset.path = Text.joinWith "/" [Stack.assetsName, asset.id.text,
        String.ofList (digits.take ContentHash.shortLength), asset.fileName] := by
  obtain ⟨content, ofContent⟩ := named.hash
  obtain ⟨text, known, isText⟩ := named.version
  rw [ofContent] at known
  obtain rfl := ContentHash.shortOf_ofContent known
  have shows : ∀ {name : Name} {text : String}, name.text? = some text →
      Utf8.display name.bytes = text := fun {name text} isText => by
    have read : Utf8.decode? name.bytes = some text := isText
    rw [Utf8.display, read]
  refine ⟨Bytes.hexDigits (Sha256.digest content), ?_, ?_, fun c => Bytes.isHexChar_of_mem, ?_⟩
  · rw [ofContent]
    rfl
  · rw [Bytes.length_hexDigits, Sha256.length_digest]
  · rw [named.path, Path.slashed]
    simp only [List.map_cons, List.map_nil, Component.bytes, shows isText, shows named.text,
      shows asset.id.text?_node]
    rw [Stack.assetsNode, Utf8.display_encode]
    rfl

/-- All that the manifest of an app lists is there, and has the kind that its type says. -/
structure App.Closed (app : App) (fs : FileSystem) : Prop where
  manifest : fs.readFile (app.outdir.childText Manifest.fileName)
    = .ok (documentFile (Manifest.ofApp app).json, 0o600)
  /-- The stacks of the app are listed, and nothing else. -/
  records : ∀ record, record ∈ (Manifest.ofApp app).records
    ↔ ∃ stack ∈ app.registered, record = (stack.name.text, .ofStack stack)
  plans : ∀ record ∈ (Manifest.ofApp app).records, ∃ content,
    fs.readFile (app.outdir.childText record.2.planPath) = .ok (content, 0o600)
  assets : ∀ record ∈ (Manifest.ofApp app).records, ∀ listed ∈ record.2.assets,
    ∃ stack ∈ app.registered, ∃ asset ∈ stack.assets, record.2 = .ofStack stack
      ∧ listed = .ofAsset asset ∧ Manifest.place app.outdir record.2 listed = asset.staged
      ∧ ∃ l object, fs.stat asset.staged = .ok (l, object) ∧ listed.type.Suits object
  paths : ∀ record ∈ (Manifest.ofApp app).records, ∀ listed ∈ record.2.assets,
    ∃ digits : List Char, listed.hash.text = ContentHash.mark ++ String.ofList digits
      ∧ digits.length = 64 ∧ (∀ c ∈ digits, Bytes.IsHexChar c)
      ∧ listed.path = Text.joinWith "/" [Stack.assetsName, listed.id,
        String.ofList (digits.take ContentHash.shortLength), listed.fileName]

theorem Manifest.mem_records {app : App} (apart : (app.registered.map Stack.name).Nodup)
    (record : String × StackRecord) : record ∈ (Manifest.ofApp app).records
      ↔ ∃ stack ∈ app.registered, record = (stack.name.text, .ofStack stack) := by
  have once : ((app.registered.map fun stack =>
      (stack.name.text, StackRecord.ofStack stack)).map (·.1)).Nodup := by
    rw [List.map_map]
    exact List.Nodup.map_on (fun a insideA b insideB same =>
      List.inj_on_of_nodup_map apart insideA insideB (ConstructId.text_inj same)) apart.of_map
  rw [ofApp, (Dictionary.ofList_perm once).mem_iff]
  simp only [List.mem_map, eq_comm]

/-- When the documents of an app are written, they list what is there. -/
theorem Session.closed {names : List String} {tree : Tree}
    (session : Session outdir (Fresh outdir root) (Undisturbed outdir root) names tree)
    {report : Report} (run : tree.app.synthesize tree.disk = .ok report after) :
    tree.app.Closed after := by
  have holds := session.holds
  obtain rfl := holds.place
  obtain ⟨belong, apart⟩ := holds.registered
  obtain ⟨advance, straight, stands, planned⟩ := App.synthesize_ok holds.standing belong apart run
  -- The documents leave what was staged as it stands.
  have still := holds.synthesize (Or.inl ⟨report, run⟩)
  have listed := Manifest.mem_records apart
  have there : ∀ record ∈ (Manifest.ofApp tree.app).records, ∀ listed ∈ record.2.assets,
      ∃ stack ∈ tree.app.registered, ∃ asset ∈ stack.assets, record.2 = .ofStack stack
        ∧ listed = .ofAsset asset ∧ asset.Stands tree.app.outdir root stack.name after := by
    intro record member known inside
    obtain ⟨stack, among, rfl⟩ := (listed record).mp member
    obtain ⟨asset, own, rfl⟩ := List.mem_map.mp inside
    exact ⟨stack, among, asset, own, rfl, rfl,
      still.staged stack (List.mem_append_right _ among) asset own⟩
  refine ⟨?_, listed, ?_, ?_, ?_⟩
  · have named : Name.ofText? Manifest.fileName = some Manifest.node := Name.ofBytes?_bytes Manifest.node
    rw [Path.childText_eq_child named]
    exact advance.standing.readFile (List.cons_ne_nil Manifest.node []) straight stands
  · intro record member
    obtain ⟨stack, among, rfl⟩ := (listed record).mp member
    rw [StackRecord.planPath_ofStack]
    exact ⟨_, advance.standing.readFile (by simp) (planned stack among).straight
      (planned stack among).stands⟩
  · intro record member known inside
    obtain ⟨stack, among, asset, own, ofStack, ofAsset, short, name, object, stands⟩ :=
      there record member known inside
    refine ⟨stack, among, asset, own, ofStack, ofAsset, ?_, _, object, stands.stat still.standing, ?_⟩
    · rw [ofStack, ofAsset, Manifest.place_ofAsset stands.named, stands.named.staged]
    · rw [ofAsset]
      exact stands.suits
  · intro record member known inside
    obtain ⟨stack, among, asset, own, -, rfl, short, name, object, stands⟩ :=
      there record member known inside
    exact stands.named.path_eq

end Calls

/-! ## A session without surprises -/

namespace Replacement

/-- The first stack of the replacement is made, filled and taken in. -/
theorem session_staged :
    Session outdir (Fresh outdir root) (Undisturbed outdir root) ["s"] ⟨staged, app, []⟩ := by
  have once : (start.objects.map (·.1)).Nodup := by decide
  have fresh : Fresh outdir root start := by
    refine ⟨⟨.of_objects once (by decide), rfl⟩, ?_, ?_⟩
    · exact .of_name (by cbv) (by cbv) (by decide) (Or.inl (by cbv))
    · exact fun l below => none_of_objects once (by decide) below
  have create : (Tree.mk start (.empty outdir .standard) []).Step
      (.create (.empty outdir .standard) "s") (.ok ()) ⟨start, .empty outdir .standard, [bare]⟩ :=
    .created Packager.standard_ascii rfl
  have declare : (Tree.mk start (.empty outdir .standard) [bare]).Step
      (.declare 0 (.asset "a" ⟨[46, 47, 120]⟩ .file)) (.ok ())
      ⟨staged, .empty outdir .standard, [deployedStack]⟩ :=
    .declared rfl (Action.bind_ok_iff.mpr ⟨_, _, adds_file, rfl⟩)
  have register : (Tree.mk staged (.empty outdir .standard) [deployedStack]).Step (.register 0)
      (.ok ()) ⟨staged, app, []⟩ :=
    .registered rfl registers_stack
  exact ((Session.begin fresh).create (by simp) create).declare declare |>.register register

theorem closed_written :
    app.synthesize staged
        = .ok ⟨outdir, app.manifestPath, app.registered.map Stack.report⟩ (written plan manifest)
      ∧ app.Closed (written plan manifest) :=
  ⟨synthesizes, session_staged.closed synthesizes⟩

end Replacement

/-! ## An output directory that moves -/

/-- What is in the output directory stays as it is. -/
structure Unrelated (outdir : Path) (fs after : FileSystem) : Prop where
  sound : Sound after
  current : after.current = fs.current
  same : ∀ left l, fs.reach false outdir = .ok (left, l) → ∀ m, l <:+ m → after.get? m = fs.get? m

namespace Relinked

open Replacement (outdirName stackId assetId oldShort)

def link : Name := ⟨[108], by decide⟩

def first : Name := ⟨[65], by decide⟩

def second : Name := ⟨[66], by decide⟩

/-- The directory `l/o`, where `l` is a link. -/
def outdir : Path := ⟨[108, 47, 111]⟩

def stackPlace (root : Location) : Location := stackId.node :: App.stacksNode :: root

def versions : Location := assetId.node :: Stack.assetsNode :: stackPlace [outdirName, first]

/-- Where the stack has its directory below a directory. -/
def directories (top : Name) : List (Location × Object) :=
  [(stackPlace [outdirName, top], .directory), (App.stacksNode :: [outdirName, top], .directory),
    ([outdirName, top], .directory)]

def sources : List (Location × Object) :=
  [([first], .directory), ([second], .directory), ([⟨[102], by decide⟩], .file [] 0o644)]

/-- The version of the asset `a` from the empty file `f`. -/
def version : List (Location × Object) :=
  [(oldShort :: oldShort :: versions, .file [] 0o644),
    (oldShort :: versions, .directory), (versions, .directory),
    (Stack.assetsNode :: stackPlace [outdirName, first], .directory)]

def start : FileSystem := ⟨([link], .link ⟨first.bytes⟩) :: sources, []⟩

def staged : FileSystem := ⟨version ++ directories first ++ start.objects, []⟩

/-- The link leads elsewhere. -/
def moved : FileSystem :=
  ⟨([link], .link ⟨second.bytes⟩) :: (version ++ directories first ++ sources), []⟩

def planned (plan : Bytes) : FileSystem :=
  ⟨(Plan.node :: stackPlace [outdirName, second], .file plan 0o600) :: directories second
    ++ moved.objects, []⟩

def written (plan manifest : Bytes) : FileSystem :=
  ⟨(Manifest.node :: [outdirName, second], .file manifest 0o600) :: (planned plan).objects, []⟩

def empty : App := .empty outdir .standard

def bare : Stack := .empty stackId (empty.stackDirectory stackId) .standard

def path : Path :=
  ((bare.staging assetId).childText "e3b0c44298fc1c14").childText "e3b0c44298fc1c14"

def asset : Asset :=
  ⟨assetId, .file, ⟨[102]⟩, ContentHash.ofContent [], "e3b0c44298fc1c14",
    "assets/a/e3b0c44298fc1c14/e3b0c44298fc1c14", path⟩

def stack : Stack := { bare with assets := [asset] }

def app : App := ⟨outdir, .standard, [stack]⟩

theorem stages : stageIn ⟨[102]⟩ .file [] ((bare.staging assetId).childText "e3b0c44298fc1c14") path
    start = .ok () staged := by
  have made : createAll ((bare.staging assetId).childText "e3b0c44298fc1c14") start
      = .ok () ⟨version.tail ++ directories first ++ start.objects, []⟩ := by cbv
  refine stageIn_done made ?_
  unfold stage
  cbv

theorem prunes : prune (bare.staging assetId) "e3b0c44298fc1c14" staged = .ok 0 staged := by
  have listed : staged.names (bare.staging assetId) = .ok [oldShort] := by cbv
  refine prune_none listed fun name member replaced => replaced.other ?_
  rw [List.mem_singleton.mp member]
  rfl

theorem adds : bare.addAsset "a" ⟨[102]⟩ .file start = .ok (asset, stack) staged := by
  refine Stack.addAsset_file rfl rfl (by cbv) (by cbv) EmptyPair.shortOf_nil (by cbv) rfl (by cbv) stages
    prunes ?_
  have relative : ∀ hash, Path.slashed (bare.relative assetId "e3b0c44298fc1c14"
      ⟨hash, "e3b0c44298fc1c14", path⟩) = "assets/a/e3b0c44298fc1c14/e3b0c44298fc1c14" := by
    intro hash
    cbv
  show asset = ⟨assetId, .file, ⟨[102]⟩, ContentHash.ofContent [], "e3b0c44298fc1c14",
    Path.slashed (bare.relative assetId "e3b0c44298fc1c14" ⟨_, "e3b0c44298fc1c14", path⟩), path⟩
  rw [relative]
  rfl

theorem moved_eq : moved = staged.set [link] (.link ⟨second.bytes⟩) := by
  cbv

theorem moves : Unrelated outdir staged moved where
  sound := ⟨.of_objects (by decide) (by decide), rfl⟩
  current := rfl
  same := by
    have known : ∃ left, staged.reach false outdir = .ok (left, [outdirName, first]) := ⟨_, by cbv⟩
    intro left l reached m within
    obtain ⟨left', at'⟩ := known
    rw [at'] at reached
    obtain rfl := (Prod.mk.inj (Except.ok.inj reached)).2
    rw [moved_eq, get?_set _ _ _ _ (List.cons_ne_nil link [])]
    refine if_neg ?_
    rintro rfl
    exact absurd within.length_le (by decide)

theorem writes_plan (plan : Bytes) :
    writeAtomically bare.planPath plan moved = .ok () (planned plan) := by
  cbv

theorem writes_manifest (plan manifest : Bytes) :
    writeAtomically empty.manifestPath manifest (planned plan) = .ok () (written plan manifest) := by
  cbv

theorem lost (plan manifest : Bytes) : (written plan manifest).exists? path = false := by
  cbv

def plan : Bytes := App.documentFile (Plan.ofStack stack).document

def manifest : Bytes := App.documentFile (Manifest.ofApp app).json

/-- The asset is staged, the link moves, and the stack is taken in. -/
theorem session_moved : Session outdir (fun fs => Sound fs ∧ fs.exists? outdir = false)
    (Unrelated outdir) ["s"] ⟨moved, app, []⟩ := by
  have sound : Sound start := ⟨.of_objects (by decide) (by decide), rfl⟩
  have create : (Tree.mk start empty []).Step (.create empty "s") (.ok ()) ⟨start, empty, [bare]⟩ :=
    .created Packager.standard_ascii rfl
  have declare : (Tree.mk start empty [bare]).Step (.declare 0 (.asset "a" ⟨[102]⟩ .file)) (.ok ())
      ⟨staged, empty, [stack]⟩ :=
    .declared rfl (Action.bind_ok_iff.mpr ⟨_, _, adds, rfl⟩)
  have register : (Tree.mk moved empty [stack]).Step (.register 0) (.ok ()) ⟨moved, app, []⟩ := by
    refine .registered rfl ?_
    simp only [App.addStack]
    rw [if_neg (by simp [App.stack?, empty, App.empty])]
    exact if_neg (by simp [stack, bare, Stack.empty, Path.sameName])
  have begun : Session outdir (fun fs => Sound fs ∧ fs.exists? outdir = false) (Unrelated outdir) []
      ⟨start, empty, []⟩ := .begin ⟨sound, by cbv⟩
  exact ((begun.create (by simp) create).declare declare |>.elsewhere moves).register register

theorem synthesizes : app.synthesize moved
    = .ok ⟨outdir, app.manifestPath, app.registered.map Stack.report⟩ (written plan manifest) :=
  App.synthesize_one rfl (writes_plan plan) (writes_manifest plan manifest)

/-- The manifest lists an asset that is not there. -/
theorem asset_not_found : ¬ ∀ (outdir : Path) (names : List String) (tree : Tree) (report : Report)
    (after : FileSystem),
    Session outdir (fun fs => Sound fs ∧ fs.exists? outdir = false) (Unrelated outdir) names tree →
    tree.app.synthesize tree.disk = .ok report after →
    ∀ record ∈ (Manifest.ofApp tree.app).records, ∀ listed ∈ record.2.assets,
      after.exists? (Manifest.place outdir record.2 listed) = true := by
  intro claim
  have records : (Manifest.ofApp app).records = [("s", .ofStack stack)] := rfl
  have place : Manifest.place outdir (.ofStack stack) (.ofAsset asset) = path := by
    have directory : (StackRecord.ofStack stack).directory = "stacks/s" := rfl
    have listed : (AssetRecord.ofAsset asset).path
        = "assets/a/e3b0c44298fc1c14/e3b0c44298fc1c14" := rfl
    rw [Manifest.place, directory, listed]
    cbv
  have found := claim _ _ _ _ _ session_moved synthesizes ("s", .ofStack stack)
    (by rw [records]; exact List.mem_singleton.mpr rfl) (.ofAsset asset) (List.mem_singleton.mpr rfl)
  rw [place, lost plan manifest] at found
  cases found

end Relinked

end StackSynth
