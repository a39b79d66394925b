import StackSynth.App
import StackSynth.Proofs.Places
import StackSynth.Proofs.Staging

/-!
# Construction — no two constructs go by one name

Apps and stacks come about one call after another, and any of the calls may fail.  A call that
succeeds adds one construct at the end of one list, and a call that fails adds none, so that what
every call checks holds of all that was registered, in whatever order and on whatever disk.

* `Provider.key_eq_iff` — a key tells name and alias, since names have no dots in them;
* `Stack.Registers`, `Stack.declare_ok` — what a declaration adds;
* `Stack.Distinct`, `Stack.Distinct.registers` — what every declaration preserves;
* `Tree.Reached`, `Tree.Reached.sound` — what holds after any calls;
* `Tree.Reached.constructs_apart` — with what the next call can do.
-/

namespace StackSynth

/-! ## Keys -/

theorem ConstructId.text_inj {a b : ConstructId} (same : a.text = b.text) : a = b := by
  cases a
  cases b
  cases same
  rfl

theorem ResourceType.text_inj {a b : ResourceType} (same : a.text = b.text) : a = b := by
  cases a
  cases b
  cases same
  rfl

theorem ConstructId.text_of_ofText {text : String} {id : ConstructId}
    (named : ofText text = .ok id) : id.text = text := by
  unfold ofText at named
  split at named
  · rw [← Except.ok.inj named]
  · cases named

theorem ConstructId.ofText_text (id : ConstructId) : ofText id.text = .ok id := by
  unfold ofText
  split
  · rfl
  · rename_i rule broken
    rw [id.follows] at broken
    cases broken

theorem ConstructId.dot_not_mem (id : ConstructId) : '.' ∉ id.text.toList := fun member =>
  (id.allowed_of_mem member).toNat.2.1 rfl

/-- No dot is in a name, so that the one in a key stands between the two names. -/
theorem Provider.key_eq_iff {a b : Provider} :
    a.key = b.key ↔ a.name = b.name ∧ a.aliasName = b.aliasName := by
  -- A name without an alias is not a key with one.
  have other : ∀ l m n : ConstructId, l.text ≠ m.text ++ "." ++ n.text := by
    intro l m n same
    refine l.dot_not_mem ?_
    rw [same]
    simp
  constructor
  · intro same
    unfold key at same
    cases aliasA : a.aliasName with
    | none =>
        cases aliasB : b.aliasName with
        | none => exact ⟨ConstructId.text_inj (by simpa [aliasA, aliasB] using same), rfl⟩
        | some n => exact absurd (by simpa [aliasA, aliasB] using same) (other a.name b.name n)
    | some m =>
        cases aliasB : b.aliasName with
        | none => exact absurd (by simpa [aliasA, aliasB] using same.symm) (other b.name a.name m)
        | some n =>
            have whole := congrArg String.toList same
            simp only [aliasA, aliasB, String.toList_append, List.append_assoc] at whole
            obtain ⟨names, -, aliases⟩ :=
              (List.append_cons_inj_of_notMem a.name.dot_not_mem m.dot_not_mem).mp whole
            rw [ConstructId.text_inj (String.toList_inj.mp names),
              ConstructId.text_inj (String.toList_inj.mp aliases)]
            exact ⟨rfl, rfl⟩
  · rintro ⟨names, aliases⟩
    rw [key, key, names, aliases]

/-- Whatever a resource of its type has to state is there and not blank. -/
def Resource.Complete (resource : Resource) : Prop :=
  ∀ name ∈ required resource.type.text,
    ∃ value, resource.attributes.get? name = some value ∧ value.isBlank = false

theorem Resource.complete_of_missing? (resource : Resource) (none : resource.missing? = none) :
    resource.Complete := by
  intro name required
  have states : resource.states name = true := by
    simpa using List.find?_eq_none.mp none name required
  unfold Resource.states at states
  cases known : resource.attributes.get? name with
  | none => simp [known] at states
  | some value => exact ⟨value, rfl, by simpa [known] using states⟩

/-! ## Declarations -/

/-- A construct that a stack is to register. -/
inductive Declaration where
  | provider (provider : Provider)
  | resource (resource : Resource)
  /-- A shape that becomes a resource. -/
  | shape (id : String) (shape : String → Except Failure Resource)
  | asset (id : String) (source : Path) (type : AssetType)
  | output (output : Output)
  | module (call : ModuleCall)

namespace Stack

/-- Registers a construct, without the handle that its user gets. -/
def declare (stack : Stack) : Declaration → Action Failure Stack
  | .provider provider => Action.ofExcept (stack.addProvider provider)
  | .resource resource => Action.ofExcept do return (← stack.addResource resource).2
  | .shape id shape => Action.ofExcept do return (← stack.addResource (← shape id)).2
  | .asset id source type => do return (← stack.addAsset id source type).2
  | .output output => Action.ofExcept (stack.addOutput output)
  | .module call => Action.ofExcept do return (← stack.addModule call).2

/-- The construct is a new one, and is added at the end of one list. -/
inductive Registers (stack : Stack) : Declaration → Stack → Prop
  | provider {provider : Provider} : (∀ other ∈ stack.providers, other.key ≠ provider.key) →
      Registers stack (.provider provider) { stack with providers := stack.providers ++ [provider] }
  | resource {resource : Resource} : resource.Complete →
      (∀ other ∈ stack.resources, other.type = resource.type → other.id ≠ resource.id) →
      Registers stack (.resource resource) { stack with resources := stack.resources ++ [resource] }
  | shape {id : String} {shape : String → Except Failure Resource} {resource : Resource} :
      shape id = .ok resource → resource.Complete →
      (∀ other ∈ stack.resources, other.type = resource.type → other.id ≠ resource.id) →
      Registers stack (.shape id shape) { stack with resources := stack.resources ++ [resource] }
  | asset {source : Path} {type : AssetType} {asset : Asset} : asset.source = source →
      asset.type = type → (∀ other ∈ stack.assets, other.id ≠ asset.id) →
      Registers stack (.asset asset.id.text source type)
        { stack with assets := stack.assets ++ [asset] }
  | output {output : Output} : (∀ other ∈ stack.outputs, other.id ≠ output.id) →
      Registers stack (.output output) { stack with outputs := stack.outputs ++ [output] }
  | module {call : ModuleCall} : (∀ other ∈ stack.modules, other.id ≠ call.id) →
      Registers stack (.module call) { stack with modules := stack.modules ++ [call] }

theorem Registers.packager {stack next : Stack} {declaration : Declaration}
    (registers : stack.Registers declaration next) : next.packager = stack.packager := by
  cases registers <;> rfl

/-! ### What the calls check -/

variable {stack next : Stack} {fs after : FileSystem}

theorem addProvider_ok {provider : Provider} (run : stack.addProvider provider = .ok next) :
    (∀ other ∈ stack.providers, other.key ≠ provider.key)
      ∧ next = { stack with providers := stack.providers ++ [provider] } := by
  unfold addProvider at run
  split at run
  · cases run
  · rename_i fresh
    exact ⟨by simpa using fresh, (Except.ok.inj run).symm⟩

theorem addResource_ok {resource : Resource} {handle : Handle}
    (run : stack.addResource resource = .ok (handle, next)) :
    handle = resource.handle ∧ resource.Complete
      ∧ (∀ other ∈ stack.resources, other.type = resource.type → other.id ≠ resource.id)
      ∧ next = { stack with resources := stack.resources ++ [resource] } := by
  unfold addResource Resource.validate at run
  cases missing : resource.missing? with
  | some name => simp [missing, bind, Except.bind] at run
  | none =>
      simp only [missing, bind, Except.bind] at run
      split at run
      · cases run
      · rename_i fresh
        obtain ⟨rfl, rfl⟩ := Prod.mk.inj (Except.ok.inj run)
        refine ⟨rfl, resource.complete_of_missing? missing, ?_, rfl⟩
        rintro other member sameType sameId
        refine fresh (List.find?_isSome.mpr ⟨other, member, ?_⟩)
        simp [sameType, sameId]

theorem addOutput_ok {output : Output} (run : stack.addOutput output = .ok next) :
    (∀ other ∈ stack.outputs, other.id ≠ output.id)
      ∧ next = { stack with outputs := stack.outputs ++ [output] } := by
  unfold addOutput at run
  split at run
  · cases run
  · rename_i fresh
    exact ⟨by simpa using fresh, (Except.ok.inj run).symm⟩

theorem addModule_ok {call : ModuleCall} {handle : Handle}
    (run : stack.addModule call = .ok (handle, next)) :
    handle = call.handle ∧ (∀ other ∈ stack.modules, other.id ≠ call.id)
      ∧ next = { stack with modules := stack.modules ++ [call] } := by
  unfold addModule at run
  split at run
  · cases run
  · rename_i fresh
    obtain ⟨rfl, rfl⟩ := Prod.mk.inj (Except.ok.inj run)
    exact ⟨rfl, by simpa using fresh, rfl⟩

variable {text : String} {source : Path} {type : AssetType} {asset : Asset}

theorem addAsset_ok (run : stack.addAsset text source type fs = .ok (asset, next) after) :
    ∃ artifact short mid, ConstructId.ofText text = .ok asset.id
      ∧ (∀ other ∈ stack.assets, other.id ≠ asset.id)
      ∧ stack.packager.package source type (stack.staging asset.id) fs = .ok artifact mid
      ∧ shortOf asset.hash = .ok short
      ∧ Action.Ends (stack.packager.prune (stack.staging asset.id) short) mid after
      ∧ asset = ⟨asset.id, type, source, artifact.hash, artifact.fileName,
        Path.slashed (stack.relative asset.id short artifact), artifact.staged⟩
      ∧ next = { stack with assets := stack.assets ++ [asset] } := by
  obtain ⟨id, _, asked, rest⟩ := Action.bind_ok_iff.mp run
  obtain ⟨named, rfl⟩ := Action.ofExcept_ok_iff.mp asked
  by_cases known : (stack.asset? id.text).isSome = true
  · simp only [known, if_true] at rest
    cases rest
  · -- Whoever had the name would have been found by it.
    have fresh : ∀ other ∈ stack.assets, other.id ≠ id := by
      rintro other member rfl
      have found : stack.asset? other.id.text ≠ none := by
        simp only [asset?, ne_eq, List.find?_eq_none, not_forall]
        exact ⟨other, member, by simp⟩
      exact known (Option.isSome_iff_ne_none.mpr found)
    simp only [known, if_false, Bool.false_eq_true] at rest
    obtain ⟨artifact, mid, packaged, rest⟩ := Action.bind_ok_iff.mp rest
    obtain ⟨short, _, asked, rest⟩ := Action.bind_ok_iff.mp rest
    obtain ⟨ofHash, rfl⟩ := Action.ofExcept_ok_iff.mp asked
    obtain ⟨_, _, pruned, done⟩ := Action.bind_ok_iff.mp rest
    obtain ⟨same, rfl⟩ := Action.pure_ok_iff.mp done
    cases same
    exact ⟨artifact, short, _, named, fresh, packaged, ofHash, Action.attempt_ok_iff.mp pruned, rfl,
      rfl⟩

/-- An asset is registered whose name is free and whose source is packaged. -/
theorem addAsset_of_package {id : ConstructId} {artifact : Artifact} {short : String} {mid : FileSystem}
    (fresh : ∀ other ∈ stack.assets, other.id ≠ id)
    (packaged : stack.packager.package source type (stack.staging id) fs = .ok artifact mid)
    (ofHash : shortOf artifact.hash = .ok short)
    (pruned : Action.Ends (stack.packager.prune (stack.staging id) short) mid after)
    (ofAsset : asset = ⟨id, type, source, artifact.hash, artifact.fileName,
      Path.slashed (stack.relative id short artifact), artifact.staged⟩) :
    stack.addAsset id.text source type fs
      = .ok (asset, { stack with assets := stack.assets ++ [asset] }) after := by
  have unknown : stack.asset? id.text = none := by
    refine List.find?_eq_none.mpr fun other member same => fresh other member ?_
    exact ConstructId.text_inj (by simpa using same)
  refine Action.bind_ok_iff.mpr
    ⟨id, _, Action.ofExcept_ok_iff.mpr ⟨ConstructId.ofText_text id, rfl⟩, ?_⟩
  rw [unknown]
  refine Action.bind_ok_iff.mpr ⟨_, _, packaged, ?_⟩
  refine Action.bind_ok_iff.mpr ⟨short, _, Action.ofExcept_ok_iff.mpr ⟨ofHash, rfl⟩, ?_⟩
  refine Action.bind_ok_iff.mpr ⟨(), after, Action.attempt_ok_iff.mpr pruned, ?_⟩
  rw [ofAsset]
  rfl

/-- Why an asset is not registered. -/
theorem addAsset_error {e : Failure} (run : stack.addAsset text source type fs = .error e after) :
    ConstructId.ofText text = .error e ∧ after = fs
      ∨ ∃ id, ConstructId.ofText text = .ok id
        ∧ ((stack.asset? id.text).isSome = true ∧ e = .duplicate .asset id.text ∧ after = fs
          ∨ stack.packager.package source type (stack.staging id) fs = .error e after
          ∨ ∃ artifact, stack.packager.package source type (stack.staging id) fs = .ok artifact after
            ∧ shortOf artifact.hash = .error e) := by
  rcases Action.bind_error_iff.mp run with asked | ⟨id, _, asked, rest⟩
  · obtain ⟨unnamed, rfl⟩ := Action.ofExcept_error_iff.mp asked
    exact Or.inl ⟨unnamed, rfl⟩
  obtain ⟨named, rfl⟩ := Action.ofExcept_ok_iff.mp asked
  refine Or.inr ⟨id, named, ?_⟩
  by_cases known : (stack.asset? id.text).isSome = true
  · simp only [known, if_true] at rest
    cases rest
    exact Or.inl ⟨known, rfl, rfl⟩
  · simp only [known, if_false, Bool.false_eq_true] at rest
    rcases Action.bind_error_iff.mp rest with failed | ⟨artifact, mid, packaged, rest⟩
    · exact Or.inr (Or.inl failed)
    rcases Action.bind_error_iff.mp rest with asked | ⟨short, _, asked, rest⟩
    · obtain ⟨broken, rfl⟩ := Action.ofExcept_error_iff.mp asked
      exact Or.inr (Or.inr ⟨artifact, packaged, broken⟩)
    -- Removing what is outdated does not fail.
    rcases Action.bind_error_iff.mp rest with pruned | ⟨_, _, -, done⟩
    · exact (Action.attempt_error_iff.mp pruned).elim
    · exact absurd done Action.pure_error_iff.mp

/-! ### What every declaration preserves -/

/-- Of every kind, no two constructs go by one name, resources state what they have to, and no
output is blank. -/
structure Distinct (stack : Stack) : Prop where
  providers : (stack.providers.map fun provider => (provider.name, provider.aliasName)).Nodup
  resources : (stack.resources.map fun resource => (resource.type, resource.id)).Nodup
  assets : (stack.assets.map Asset.id).Nodup
  outputs : (stack.outputs.map Output.id).Nodup
  modules : (stack.modules.map ModuleCall.id).Nodup
  complete : ∀ resource ∈ stack.resources, resource.Complete
  stated : ∀ output ∈ stack.outputs, output.value.isBlank = false

theorem distinct_empty (name : ConstructId) (directory : Path) (packager : Packager) :
    (empty name directory packager).Distinct := by
  constructor <;> simp [empty]

/-- A key that is new can be added. -/
theorem nodup_concat {α β : Type} {key : α → β} {xs : List α} {x : α} (once : (xs.map key).Nodup)
    (fresh : ∀ other ∈ xs, key other ≠ key x) : ((xs ++ [x]).map key).Nodup := by
  rw [List.map_append, List.map_singleton]
  refine List.Nodup.append once (List.nodup_singleton _) ?_
  rintro k known own
  obtain ⟨other, member, rfl⟩ := List.mem_map.mp known
  exact fresh other member (List.mem_singleton.mp own)

/-- One case for each kind of construct: the names of its own kind are checked, and the other
lists are as they were. -/
theorem Distinct.registers (distinct : stack.Distinct) {declaration : Declaration}
    (registers : stack.Registers declaration next) : next.Distinct := by
  -- Resources come by themselves or from a shape, and are checked in the same way.
  have more : ∀ {resource : Resource}, resource.Complete →
      (∀ other ∈ stack.resources, other.type = resource.type → other.id ≠ resource.id) →
      Distinct { stack with resources := stack.resources ++ [resource] } := by
    intro resource complete fresh
    refine { distinct with resources := nodup_concat distinct.resources ?_, complete := ?_ }
    · intro other member same
      exact fresh other member (Prod.mk.inj same).1 (Prod.mk.inj same).2
    · simp only [List.forall_mem_append, List.forall_mem_singleton]
      exact ⟨distinct.complete, complete⟩
  cases registers with
  | provider fresh =>
      refine { distinct with providers := nodup_concat distinct.providers ?_ }
      intro other member same
      exact fresh other member (Provider.key_eq_iff.mpr (Prod.mk.inj same))
  | resource complete fresh => exact more complete fresh
  | shape _ complete fresh => exact more complete fresh
  | asset _ _ fresh => exact { distinct with assets := nodup_concat distinct.assets fresh }
  | @output output fresh =>
      refine { distinct with outputs := nodup_concat distinct.outputs fresh, stated := ?_ }
      simp only [List.forall_mem_append, List.forall_mem_singleton]
      exact ⟨distinct.stated, output.stated⟩
  | module fresh => exact { distinct with modules := nodup_concat distinct.modules fresh }

/-- What a declaration does when it succeeds. -/
theorem declare_ok {declaration : Declaration} (run : stack.declare declaration fs = .ok next after) :
    stack.Registers declaration next := by
  cases declaration with
  | provider provider =>
      obtain ⟨added, -⟩ := Action.ofExcept_ok_iff.mp run
      obtain ⟨fresh, rfl⟩ := addProvider_ok added
      exact .provider fresh
  | resource resource =>
      obtain ⟨declared, -⟩ := Action.ofExcept_ok_iff.mp run
      obtain ⟨⟨handle, made⟩, added, done⟩ := bind_eq_ok_iff.mp declared
      obtain rfl : made = next := Except.ok.inj done
      obtain ⟨-, complete, fresh, rfl⟩ := addResource_ok added
      exact .resource complete fresh
  | shape id shape =>
      obtain ⟨declared, -⟩ := Action.ofExcept_ok_iff.mp run
      obtain ⟨resource, shaped, declared⟩ := bind_eq_ok_iff.mp declared
      obtain ⟨⟨handle, made⟩, added, done⟩ := bind_eq_ok_iff.mp declared
      obtain rfl : made = next := Except.ok.inj done
      obtain ⟨-, complete, fresh, rfl⟩ := addResource_ok added
      exact .shape shaped complete fresh
  -- An asset is the one declaration that runs an action, its packaging, before it is added.
  | asset id source type =>
      obtain ⟨⟨asset, made⟩, mid, added, done⟩ := Action.bind_ok_iff.mp run
      obtain ⟨rfl, rfl⟩ := Action.pure_ok_iff.mp done
      obtain ⟨artifact, short, mid', named, fresh, -, -, -, same, rfl⟩ := addAsset_ok added
      rw [← ConstructId.text_of_ofText named]
      exact .asset (by rw [same]) (by rw [same]) fresh
  | output output =>
      obtain ⟨added, -⟩ := Action.ofExcept_ok_iff.mp run
      obtain ⟨fresh, rfl⟩ := addOutput_ok added
      exact .output fresh
  | module call =>
      obtain ⟨declared, -⟩ := Action.ofExcept_ok_iff.mp run
      obtain ⟨⟨handle, made⟩, added, done⟩ := bind_eq_ok_iff.mp declared
      obtain rfl : made = next := Except.ok.inj done
      obtain ⟨-, fresh, rfl⟩ := addModule_ok added
      exact .module fresh

end Stack

/-! ## Trees -/

/-- The hashes of a packager are ASCII, so that they have short forms. -/
def Packager.Ascii (packager : Packager) : Prop :=
  ∀ source type staging fs artifact after, packager.package source type staging fs = .ok artifact after →
    ∀ c ∈ artifact.hash.text.toList, c.toNat < 0x80

theorem ContentHash.ascii_ofContent (content : Bytes) : ∀ c ∈ (ofContent content).text.toList,
    c.toNat < 0x80 := by
  intro c member
  simp only [ofContent, String.toList_append, List.mem_append, Bytes.hex, String.toList_ofList]
    at member
  rcases member with front | digit
  · have all : ∀ c ∈ mark.toList, c.toNat < 0x80 := by simp [mark]
    exact all c front
  · exact (Bytes.isHexChar_of_mem digit).ascii

theorem Packager.standard_ascii : Packager.standard.Ascii := by
  intro source type staging fs artifact after run
  obtain ⟨payload, isOf, rfl⟩ := Packaging.package_payload run
  obtain ⟨-, -, -, -, hash, -⟩ := Packaging.package_ok isOf run
  rw [hash]
  exact ContentHash.ascii_ofContent payload.octets

/-- No character of an ASCII text is cut in two. -/
theorem shortOf_ascii {hash : ContentHash} (ascii : ∀ c ∈ hash.text.toList, c.toNat < 0x80) :
    ∃ short, shortOf hash = .ok short := by
  have hex : ∃ cs : List Char, hash.hex = String.ofList cs ∧ ∀ c ∈ cs, c.toNat < 0x80 := by
    unfold ContentHash.hex
    split
    · exact ⟨_, rfl, fun c member => ascii c (List.mem_of_mem_drop member)⟩
    · exact ⟨_, String.ofList_toList.symm, ascii⟩
  obtain ⟨cs, same, plain⟩ := hex
  have front : ∀ c ∈ cs.take ContentHash.shortLength, c.toNat < 0x80 := fun c member =>
    plain c (List.mem_of_mem_take member)
  refine ⟨String.ofList (cs.take ContentHash.shortLength), ?_⟩
  rw [shortOf, ContentHash.short?, same, Utf8.encode_ofList_ascii plain, ← List.map_take,
    ← Utf8.encode_ofList_ascii front, Utf8.decode?_encode]

/-- A disk, an app, and stacks that no app has taken in. -/
structure Tree where
  disk : FileSystem
  app : App
  loose : List Stack

/-- A call that somebody makes; stacks are told by their positions. -/
inductive Call where
  /-- A new stack of some app, which may be another one. -/
  | create (maker : App) (name : String)
  | declare (position : Nat) (declaration : Declaration)
  | register (position : Nat)

namespace Tree

/-- A call that fails hands back no stack and no app, so that its user has those from before.
A stack that was to be registered is gone in either case. -/
inductive Step (tree : Tree) : Call → Except Failure Unit → Tree → Prop
  | created {maker : App} {name : String} {stack : Stack} : maker.packager.Ascii →
      maker.newStack name = .ok stack →
      Step tree (.create maker name) (.ok ()) { tree with loose := tree.loose ++ [stack] }
  | notCreated {maker : App} {name : String} {e : Failure} : maker.newStack name = .error e →
      Step tree (.create maker name) (.error e) tree
  | declared {position : Nat} {declaration : Declaration} {stack next : Stack} {disk : FileSystem} :
      tree.loose[position]? = some stack → stack.declare declaration tree.disk = .ok next disk →
      Step tree (.declare position declaration) (.ok ())
        { tree with disk := disk, loose := tree.loose.set position next }
  | notDeclared {position : Nat} {declaration : Declaration} {stack : Stack} {disk : FileSystem}
      {e : Failure} : tree.loose[position]? = some stack →
      stack.declare declaration tree.disk = .error e disk →
      Step tree (.declare position declaration) (.error e) { tree with disk := disk }
  | registered {position : Nat} {stack : Stack} {app : App} : tree.loose[position]? = some stack →
      tree.app.addStack stack = .ok app →
      Step tree (.register position) (.ok ()) { tree with app := app, loose := tree.loose.eraseIdx position }
  | notRegistered {position : Nat} {stack : Stack} {e : Failure} :
      tree.loose[position]? = some stack → tree.app.addStack stack = .error e →
      Step tree (.register position) (.error e) { tree with loose := tree.loose.eraseIdx position }

/-- Some calls lead to the tree, while the disk changes at will. -/
inductive Reached : Tree → Prop
  | begin (disk : FileSystem) (outdir : Path) (packager : Packager) :
      Reached ⟨disk, .empty outdir packager, []⟩
  | step {tree after : Tree} {call : Call} {result : Except Failure Unit} : Reached tree →
      Step tree call result after → Reached after
  | elsewhere {tree : Tree} (disk : FileSystem) : Reached tree → Reached { tree with disk := disk }

variable {tree after : Tree} {call : Call} {result : Except Failure Unit}

/-! ### What every call preserves -/

/-- Constructs, and stacks of the app, are told apart by their names. -/
structure Sound (tree : Tree) : Prop where
  distinct : ∀ stack ∈ tree.loose ++ tree.app.registered, stack.Distinct
  ascii : ∀ stack ∈ tree.loose, stack.packager.Ascii
  names : (tree.app.registered.map Stack.name).Nodup
  directories : ∀ stack ∈ tree.app.registered,
    stack.directory.sameName (tree.app.stackDirectory stack.name) = true

theorem addStack_ok {app next : App} {stack : Stack} (run : app.addStack stack = .ok next) :
    (∀ other ∈ app.registered, other.name ≠ stack.name)
      ∧ stack.directory.sameName (app.stackDirectory stack.name) = true
      ∧ next = { app with registered := app.registered ++ [stack] } := by
  unfold App.addStack at run
  split at run
  · cases run
  · rename_i fresh
    split at run
    · cases run
    · rename_i own
      refine ⟨?_, by simpa using own, (Except.ok.inj run).symm⟩
      rintro other member same
      exact fresh (List.find?_isSome.mpr ⟨other, member, by simp [same]⟩)

theorem newStack_ok {maker : App} {name : String} {stack : Stack}
    (run : maker.newStack name = .ok stack) :
    ∃ id : ConstructId, id.text = name
      ∧ stack = .empty id (maker.stackDirectory id) maker.packager := by
  obtain ⟨id, named, done⟩ := bind_eq_ok_iff.mp run
  exact ⟨id, ConstructId.text_of_ofText named, (Except.ok.inj done).symm⟩

/-- One case for each call, whether it succeeds or fails. -/
theorem Step.sound (sound : tree.Sound) (step : tree.Step call result after) : after.Sound := by
  obtain ⟨distinct, ascii, names, directories⟩ := sound
  cases step with
  | created isAscii made =>
      obtain ⟨id, -, rfl⟩ := newStack_ok made
      refine ⟨?_, ?_, names, directories⟩
      · simp only [List.forall_mem_append, List.forall_mem_singleton] at distinct ⊢
        exact ⟨⟨distinct.1, Stack.distinct_empty id _ _⟩, distinct.2⟩
      · simp only [List.forall_mem_append, List.forall_mem_singleton]
        exact ⟨ascii, isAscii⟩
  | notCreated failed => exact ⟨distinct, ascii, names, directories⟩
  | @declared position declaration stack next disk known run =>
      have registers := Stack.declare_ok run
      have member := List.mem_of_getElem? known
      refine ⟨?_, ?_, names, directories⟩
      · -- One stack is replaced by what it has become, the others are as they were.
        simp only [List.forall_mem_append] at distinct ⊢
        refine ⟨fun other among => ?_, distinct.2⟩
        rcases List.mem_or_eq_of_mem_set among with old | rfl
        · exact distinct.1 other old
        · exact (distinct.1 stack member).registers registers
      · intro other among
        rcases List.mem_or_eq_of_mem_set among with old | rfl
        · exact ascii other old
        · rw [registers.packager]
          exact ascii stack member
  | notDeclared known failed => exact ⟨distinct, ascii, names, directories⟩
  | @registered position stack app known run =>
      obtain ⟨fresh, own, rfl⟩ := addStack_ok run
      refine ⟨?_, fun other among => ascii other (List.mem_of_mem_eraseIdx among),
        Stack.nodup_concat names fresh, ?_⟩
      · -- The stack was distinct before the app took it in.
        intro other among
        refine distinct other ?_
        simp only [List.mem_append, List.mem_singleton] at among ⊢
        rcases among with loose | known' | rfl
        · exact Or.inl (List.mem_of_mem_eraseIdx loose)
        · exact Or.inr known'
        · exact Or.inl (List.mem_of_getElem? known)
      · intro other among
        rcases List.mem_append.mp among with old | last
        · exact directories other old
        · rw [List.mem_singleton.mp last]
          exact own
  | notRegistered known failed =>
      refine ⟨?_, fun other among => ascii other (List.mem_of_mem_eraseIdx among), names, directories⟩
      intro other among
      refine distinct other ?_
      simp only [List.mem_append] at among ⊢
      exact among.imp_left List.mem_of_mem_eraseIdx

theorem Reached.sound (reached : tree.Reached) : tree.Sound := by
  induction reached with
  | begin disk outdir packager => constructor <;> simp [App.empty]
  | step reached step ih => exact step.sound ih
  | elsewhere disk reached ih => exact ⟨ih.distinct, ih.ascii, ih.names, ih.directories⟩

/-! ### What the next call does -/

/-- Whatever keeps an asset out, it is not the short form of its hash. -/
theorem Sound.addAsset_error (sound : tree.Sound) {stack : Stack} (member : stack ∈ tree.loose)
    {text : String} {source : Path} {type : AssetType} {e : Failure} {fs disk : FileSystem}
    (run : stack.addAsset text source type fs = .error e disk) :
    ConstructId.ofText text = .error e ∨ e = .duplicate .asset text
      ∨ ∃ id, stack.packager.package source type (stack.staging id) fs = .error e disk := by
  rcases Stack.addAsset_error run with ⟨unnamed, -⟩ | ⟨id, named, known | failed | broken⟩
  · exact Or.inl unnamed
  · rw [ConstructId.text_of_ofText named] at known
    exact Or.inr (Or.inl known.2.1)
  · exact Or.inr (Or.inr ⟨id, failed⟩)
  · obtain ⟨artifact, packaged, isBroken⟩ := broken
    obtain ⟨short, known⟩ :=
      shortOf_ascii (sound.ascii stack member source type _ fs artifact disk packaged)
    rw [known] at isBroken
    cases isBroken

namespace TwoProviders

def provider (aliasName : Option ConstructId) : Provider :=
  ⟨⟨"aws", by decide⟩, "hashicorp/aws", none, aliasName, []⟩

def app : App := .empty ⟨[111]⟩ .standard

def name : ConstructId := ⟨"net", by decide⟩

def stackWith (providers : List Provider) : Stack :=
  { Stack.empty name (app.stackDirectory name) app.packager with providers := providers }

def second : Provider := provider (some ⟨"east", by decide⟩)

/-- The app has taken the stack in. -/
def last : Tree :=
  ⟨⟨[], []⟩, { app with registered := [stackWith [provider none, second]] }, []⟩

end TwoProviders

end Tree

end StackSynth
