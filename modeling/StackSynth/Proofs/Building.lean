import StackSynth.Proofs.Registering

/-!
# Building — the stack that a file declares

Only assets touch the file system while a stack is built: providers come before them, and
resources, module calls and outputs behind.  Wherever building ends, the assets that were
registered so far are there.

* `Stack.SameAssets` — what declarations other than assets keep;
* `StackFile.Registered` — the stack when some assets of a file have been registered;
* `StackFile.build_eq_ok_iff` — the three parts of building;
* `StackFile.build_ok`, `build_error` — building, when it succeeds and when it fails.
-/

namespace StackSynth

open FileSystem

/-! ## Stacks with the same assets -/

namespace Stack

variable {outdir : Path} {root : Location} {start fs : FileSystem} {stack next last : Stack}

/-- Nothing that matters to assets is different. -/
structure SameAssets (stack next : Stack) : Prop where
  name : next.name = stack.name
  directory : next.directory = stack.directory
  packager : next.packager = stack.packager
  assets : next.assets = stack.assets

theorem SameAssets.refl (stack : Stack) : SameAssets stack stack := ⟨rfl, rfl, rfl, rfl⟩

theorem SameAssets.trans (first : SameAssets stack next) (second : SameAssets next last) :
    SameAssets stack last :=
  ⟨second.name.trans first.name, second.directory.trans first.directory,
    second.packager.trans first.packager, second.assets.trans first.assets⟩

theorem Built.same (built : Built outdir root start stack fs) (same : stack.SameAssets next) :
    Built outdir root start next fs where
  belongs := by
    refine ⟨?_, same.packager.trans built.belongs.packager⟩
    rw [same.directory, same.name]
    exact built.belongs.directory
  advance := by
    have superseded : next.Superseded root = stack.Superseded root := by
      funext l
      rw [Superseded, Superseded, same.name, same.assets]
    rw [superseded]
    exact built.advance
  staged := by
    rw [same.name, same.assets]
    exact built.staged

end Stack

namespace StackFile

variable {outdir : Path} {root : Location} {fs mid after : FileSystem} {stack next : Stack}
  {file : StackFile}

/-! ## Declarations without files -/

theorem provider_keeps {decl : ProviderDecl} (run : provider stack decl = .ok next) :
    stack.SameAssets next := by
  obtain ⟨made, -, run⟩ := bind_eq_ok_iff.mp run
  have added : ∃ provider, stack.addProvider provider = .ok next := by
    cases known : decl.aliasName with
    | none =>
        rw [known] at run
        obtain ⟨_, -, run⟩ := bind_eq_ok_iff.mp run
        obtain ⟨_, -, added⟩ := bind_eq_ok_iff.mp run
        exact ⟨_, added⟩
    | some aliasName =>
        rw [known] at run
        obtain ⟨_, -, run⟩ := bind_eq_ok_iff.mp run
        obtain ⟨_, -, added⟩ := bind_eq_ok_iff.mp run
        exact ⟨_, added⟩
  obtain ⟨provider, added⟩ := added
  obtain ⟨-, rfl⟩ := Stack.addProvider_ok added
  exact ⟨rfl, rfl, rfl, rfl⟩

theorem resource_keeps {decl : ResourceDecl} (run : resource stack decl = .ok next) :
    stack.SameAssets next := by
  obtain ⟨made, -, run⟩ := bind_eq_ok_iff.mp run
  obtain ⟨attributes, -, run⟩ := bind_eq_ok_iff.mp run
  obtain ⟨⟨handle, stack'⟩, added, done⟩ := bind_eq_ok_iff.mp run
  obtain rfl := Except.ok.inj done
  obtain ⟨-, -, -, rfl⟩ := Stack.addResource_ok added
  exact ⟨rfl, rfl, rfl, rfl⟩

theorem moduleCall_keeps {decl : ModuleDecl} (run : moduleCall stack decl = .ok next) :
    stack.SameAssets next := by
  obtain ⟨made, -, run⟩ := bind_eq_ok_iff.mp run
  obtain ⟨inputs, -, run⟩ := bind_eq_ok_iff.mp run
  obtain ⟨⟨handle, stack'⟩, added, done⟩ := bind_eq_ok_iff.mp run
  obtain rfl := Except.ok.inj done
  obtain ⟨-, -, rfl⟩ := Stack.addModule_ok added
  exact ⟨rfl, rfl, rfl, rfl⟩

theorem output_keeps {decl : OutputDecl} (run : output stack decl = .ok next) :
    stack.SameAssets next := by
  obtain ⟨value, -, run⟩ := bind_eq_ok_iff.mp run
  obtain ⟨made, -, added⟩ := bind_eq_ok_iff.mp run
  obtain ⟨-, rfl⟩ := Stack.addOutput_ok added
  exact ⟨rfl, rfl, rfl, rfl⟩

theorem all_keep {α : Type} {declare : Stack → α → Except Failure Stack}
    (keeps : ∀ {stack next decl}, declare stack decl = .ok next → stack.SameAssets next)
    {decls : List α} (run : decls.foldlM declare stack = .ok next) : stack.SameAssets next := by
  induction decls generalizing stack with
  | nil =>
      obtain rfl := Except.ok.inj run
      exact .refl stack
  | cons decl rest ih =>
      rw [List.foldlM_cons] at run
      obtain ⟨mid, first, others⟩ := bind_eq_ok_iff.mp run
      exact (keeps first).trans (ih others)

/-! ## Assets -/

theorem asset_ok {base : Path} {decl : AssetDecl} (run : asset base stack decl fs = .ok next after) :
    ∃ made, stack.addAsset decl.id (base / decl.path) decl.type fs = .ok (made, next) after := by
  obtain ⟨⟨made, stack'⟩, mid, added, done⟩ := Action.bind_ok_iff.mp run
  obtain ⟨rfl, rfl⟩ := Action.pure_ok_iff.mp done
  exact ⟨made, added⟩

theorem asset_error {base : Path} {decl : AssetDecl} {e : Failure}
    (run : asset base stack decl fs = .error e after) :
    stack.addAsset decl.id (base / decl.path) decl.type fs = .error e after := by
  rcases Action.bind_error_iff.mp run with failed | ⟨_, mid, -, done⟩
  · exact failed
  · exact absurd done Action.pure_error_iff.mp

/-- The stack with the providers of a file. -/
def begin (file : StackFile) (outdir : Path) : Except Failure Stack := do
  file.providers.foldlM provider (← (App.empty outdir .standard).newStack file.name)

theorem begin_belongs (run : file.begin outdir = .ok stack) :
    stack.BelongsTo outdir ∧ stack.name.text = file.name ∧ stack.assets = [] := by
  obtain ⟨empty, made, declared⟩ := bind_eq_ok_iff.mp run
  obtain ⟨name, named, done⟩ := bind_eq_ok_iff.mp made
  obtain rfl := Except.ok.inj done
  have same := all_keep provider_keeps declared
  refine ⟨⟨?_, same.packager⟩, ?_, same.assets⟩
  · rw [same.directory, same.name]
    exact App.stackDirectory_eq _ name
  · rw [same.name]
    exact ConstructId.text_of_ofText named

theorem begin_ok (standing : Standing outdir root fs) (run : file.begin outdir = .ok stack) :
    Stack.Built outdir root fs stack fs := by
  obtain ⟨belongs, -, none⟩ := begin_belongs run
  exact .begin standing belongs none

/-- The stack with all that a file declares behind its assets. -/
def finish (file : StackFile) (stack : Stack) : Except Failure Stack := do
  let stack ← file.resources.foldlM resource stack
  let stack ← file.modules.foldlM moduleCall stack
  file.outputs.foldlM output stack

theorem finish_keeps (run : file.finish stack = .ok next) : stack.SameAssets next := by
  obtain ⟨withResources, resources, run⟩ := bind_eq_ok_iff.mp run
  obtain ⟨withModules, modules, outputs⟩ := bind_eq_ok_iff.mp run
  exact ((all_keep resource_keeps resources).trans (all_keep moduleCall_keeps modules)).trans
    (all_keep output_keeps outputs)

/-- Some assets of the file have been registered in the stack. -/
def Registered (file : StackFile) (outdir : Path) (fs : FileSystem) (stack : Stack) : Prop :=
  ∃ begun front back mid, file.begin outdir = .ok begun ∧ file.assets = front ++ back
    ∧ front.foldlM (asset file.base) begun fs = .ok stack mid

theorem assets_built {begun : Stack} (built : Stack.Built outdir root fs begun fs)
    {decls : List AssetDecl} (run : decls.foldlM (asset file.base) begun fs = .ok stack after) :
    Stack.Built outdir root fs stack after := by
  have step : ∀ {stack decl next mid later}, Stack.Built outdir root fs stack mid →
      asset file.base stack decl mid = .ok next later → Stack.Built outdir root fs next later := by
    intro stack decl next mid later built run
    obtain ⟨made, added⟩ := asset_ok run
    exact built.add added
  exact Action.foldlM_ok step built run

/-! ## Building -/

/-- Building succeeds if and only if its three parts do. -/
theorem build_eq_ok_iff : file.build (.empty outdir .standard) fs = .ok stack after
    ↔ ∃ begun withAssets, file.begin outdir = .ok begun
      ∧ file.assets.foldlM (asset file.base) begun fs = .ok withAssets after
      ∧ file.finish withAssets = .ok stack := by
  constructor
  · intro run
    obtain ⟨begun, _, asked, rest⟩ := Action.bind_ok_iff.mp run
    obtain ⟨begins, rfl⟩ := Action.ofExcept_ok_iff.mp asked
    obtain ⟨withAssets, mid, registered, asked⟩ := Action.bind_ok_iff.mp rest
    obtain ⟨finishes, rfl⟩ := Action.ofExcept_ok_iff.mp asked
    exact ⟨begun, withAssets, begins, registered, finishes⟩
  · rintro ⟨begun, withAssets, begins, registered, finishes⟩
    refine Action.bind_ok_iff.mpr ⟨begun, fs, Action.ofExcept_ok_iff.mpr ⟨begins, rfl⟩, ?_⟩
    exact Action.bind_ok_iff.mpr
      ⟨withAssets, after, registered, Action.ofExcept_ok_iff.mpr ⟨finishes, rfl⟩⟩

/-- Building ends where its assets do, or does nothing. -/
theorem build_ends (ends : Action.Ends (file.build (.empty outdir .standard)) fs after) :
    after = fs ∨ ∃ begun, file.begin outdir = .ok begun
      ∧ Action.Ends (file.assets.foldlM (asset file.base) begun) fs after := by
  rcases Action.ends_bind ends with asked | ⟨begun, _, asked, rest⟩
  · exact Or.inl (Action.ends_query asked)
  obtain ⟨begins, rfl⟩ := Action.ofExcept_ok_iff.mp asked
  refine Or.inr ⟨begun, begins, ?_⟩
  rcases Action.ends_bind rest with registered | ⟨stack, mid, registered, asked⟩
  · exact registered
  · obtain rfl := Action.ends_query asked
    exact Or.inl ⟨stack, registered⟩

/-- What was built has the assets of the file, and they are there. -/
theorem build_ok (standing : Standing outdir root fs)
    (run : file.build (.empty outdir .standard) fs = .ok stack after) :
    ∃ withAssets, file.Registered outdir fs withAssets ∧ withAssets.SameAssets stack
      ∧ Stack.Built outdir root fs withAssets after := by
  obtain ⟨begun, withAssets, begins, registered, finishes⟩ := build_eq_ok_iff.mp run
  exact ⟨withAssets, ⟨begun, file.assets, [], after, begins, by simp, registered⟩,
    finish_keeps finishes, assets_built (begin_ok standing begins) registered⟩

/-- Building that fails has registered some assets, or has not begun with them. -/
theorem build_error (standing : Standing outdir root fs) {e : Failure}
    (run : file.build (.empty outdir .standard) fs = .error e after) :
    after = fs ∨ ∃ stack, file.Registered outdir fs stack ∧ Stack.Built outdir root fs stack after := by
  rcases Action.bind_error_iff.mp run with asked | ⟨begun, _, asked, rest⟩
  · exact Or.inl (Action.ofExcept_error_iff.mp asked).2.symm
  obtain ⟨begins, rfl⟩ := Action.ofExcept_ok_iff.mp asked
  have empty := begin_ok standing begins
  rcases Action.bind_error_iff.mp rest with failed | ⟨withAssets, mid, registered, asked⟩
  · obtain ⟨front, decl, back, stack, mid, parts, registered, failed⟩ := Action.foldlM_error failed
    have built := (assets_built empty registered).failed (asset_error failed)
    exact Or.inr ⟨stack, ⟨begun, front, decl :: back, mid, begins, parts, registered⟩, built⟩
  · obtain ⟨-, rfl⟩ := Action.ofExcept_error_iff.mp asked
    refine Or.inr ⟨withAssets, ⟨begun, file.assets, [], mid, begins, by simp, registered⟩, ?_⟩
    exact assets_built empty registered

end StackFile
end StackSynth
