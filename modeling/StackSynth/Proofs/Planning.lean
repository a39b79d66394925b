import StackSynth.Plan
import StackSynth.Proofs.Construction
import StackSynth.Proofs.Dictionary

/-!
# Planning — a plan tells what its stack declares

A plan groups the constructs of a stack into dictionaries, in which a later value replaces an
earlier one of the same key.  No two constructs of a stack go by one name, however it came about,
so that nothing is replaced: every construct is found under its names, and nothing else is found.

* `Stack.Reached`, `Stack.Reached.distinct` — stacks that come about by declarations;
* `Plan.member?_iff` — the sections of a plan;
* `Plan.resource?_iff`, `resourceCount_eq` — resources, by type and name;
* `Plan.Tells`, `Stack.Reached.plan_tells` — all that a plan tells.
-/

namespace StackSynth

/-! ## Stacks -/

/-- Some declarations lead to the stack, each made on any disk.  One that fails hands back no
stack, so that its user goes on with the one from before. -/
inductive Stack.Reached : Stack → Prop
  | begin {maker : App} {name : String} {stack : Stack} : maker.newStack name = .ok stack →
      Reached stack
  | declared {stack next : Stack} {declaration : Declaration} {fs after : FileSystem} :
      Reached stack → stack.declare declaration fs = .ok next after → Reached next

theorem Stack.Reached.distinct {stack : Stack} (reached : stack.Reached) : stack.Distinct := by
  induction reached with
  | begin made =>
      obtain ⟨id, -, rfl⟩ := Tree.newStack_ok made
      exact distinct_empty id _ _
  | declared reached run ih => exact ih.registers (declare_ok run)

/-! ## Bodies -/

/-- A literal stands as it is, and a reference as the text that names its target. -/
inductive Expression.RenderedAs : Expression → Json → Prop
  | literal (value : Json) : RenderedAs (.literal value) value
  | reference (address name : String) :
      RenderedAs (.reference ⟨address, name⟩) (.string ("$\x7b" ++ address ++ "." ++ name ++ "\x7d"))

theorem Expression.renderedAs_iff {expression : Expression} {value : Json} :
    expression.RenderedAs value ↔ value = expression.json := by
  constructor
  · rintro (_ | _) <;> rfl
  · rintro rfl
    cases expression with
    | literal value => exact .literal value
    | reference target => exact .reference target.address target.name

/-- The body has the attributes of the resource under their names, in their order. -/
def Resource.RenderedAs (resource : Resource) (body : Json) : Prop :=
  ∃ members, body = .object members
    ∧ List.Forall₂ (fun given member => given.1 = member.1 ∧ given.2.RenderedAs member.2)
      resource.attributes members

theorem Resource.renderedAs_iff {resource : Resource} {body : Json} :
    resource.RenderedAs body ↔ body = resource.json := by
  have rendered : ∀ (attributes : Attributes) (members : Dictionary Json),
      List.Forall₂ (fun given member => given.1 = member.1 ∧ given.2.RenderedAs member.2)
        attributes members ↔ members = attributes.json := by
    intro attributes
    induction attributes with
    | nil => simp [Attributes.json, Dictionary.mapValues]
    | cons given rest ih =>
        intro members
        rw [List.forall₂_cons_left_iff]
        constructor
        · rintro ⟨⟨key, value⟩, others, ⟨rfl, rendered⟩, more, rfl⟩
          obtain rfl := Expression.renderedAs_iff.mp rendered
          rw [(ih others).mp more]
          rfl
        · rintro rfl
          exact ⟨_, _, ⟨rfl, Expression.renderedAs_iff.mpr rfl⟩, (ih _).mpr rfl, rfl⟩
  constructor
  · rintro ⟨members, rfl, all⟩
    rw [(rendered _ _).mp all, Resource.json]
  · rintro rfl
    exact ⟨_, rfl, (rendered _ _).mpr rfl⟩

namespace Plan

open Dictionary

variable {stack : Stack}

/-! ## Sections -/

theorem mem_part {key k : String} {members : Dictionary Json} {value : Json} :
    (k, value) ∈ part key members ↔ k = key ∧ members ≠ [] ∧ value = .object members := by
  unfold part
  cases members <;> simp

theorem part_ne_nil_iff {key : String} {members : Dictionary Json} :
    part key members ≠ [] ↔ members ≠ [] := by
  unfold part
  cases members <;> simp

theorem keys_part (key : String) (members : Dictionary Json) :
    ((part key members).map (·.1)).Sublist [key] := by
  unfold part
  split
  · exact List.nil_sublist _
  · exact List.Sublist.refl _

/-- The name of a stack stands in its plan, and each kind of construct has a section of its own,
which is left out if there is none of the kind. -/
theorem member?_iff {key : String} {value : Json} :
    (ofStack stack).document.member? key = some value
      ↔ (key = "//" ∧ value = metadata stack.name.text)
        ∨ (key, value) ∈ part "terraform" (installation stack.providers)
        ∨ (key, value) ∈ part "provider" (providersByName stack.providers)
        ∨ (key, value) ∈ part "resource" (resourcesByType stack.resources)
        ∨ (key, value) ∈ part "module" (modulesById stack.modules)
        ∨ (key, value) ∈ part "output" (outputsById stack.outputs) := by
  rw [ofStack, Json.member?, get?_ofList_eq_some_iff]
  · simp only [List.mem_append, List.mem_singleton, Prod.mk.injEq, or_assoc]
  · simp only [List.map_append, List.map_cons, List.map_nil]
    have parts := (((((List.Sublist.refl ["//"]).append
      (keys_part "terraform" (installation stack.providers))).append
      (keys_part "provider" (providersByName stack.providers))).append
      (keys_part "resource" (resourcesByType stack.resources))).append
      (keys_part "module" (modulesById stack.modules))).append
      (keys_part "output" (outputsById stack.outputs))
    exact parts.nodup (by decide)

theorem memberOrNull_of_member? {document value : Json} {key : String}
    (found : document.member? key = some value) : document.memberOrNull key = value := by
  rw [Json.memberOrNull, found, Option.getD_some]

/-- What stands under a key of a section that is left out when it is empty. -/
theorem member?_section {document : Json} {key : String} {members : Dictionary Json}
    (known : ∀ value, document.member? key = some value ↔ members ≠ [] ∧ value = .object members)
    (name : String) : (document.memberOrNull key).member? name = get? members name := by
  cases found : document.member? key with
  | none =>
      have empty : members = [] := by
        by_contra some
        rw [(known _).mpr ⟨some, rfl⟩] at found
        cases found
      rw [Json.memberOrNull, found, empty]
      rfl
  | some value =>
      obtain ⟨-, rfl⟩ := (known value).mp found
      rw [memberOrNull_of_member? found]
      rfl

theorem installation_section (value : Json) :
    (ofStack stack).document.member? "terraform" = some value
      ↔ installation stack.providers ≠ [] ∧ value = .object (installation stack.providers) := by
  simp [member?_iff, mem_part]

theorem provider_section (value : Json) :
    (ofStack stack).document.member? "provider" = some value
      ↔ providersByName stack.providers ≠ [] ∧ value = .object (providersByName stack.providers) := by
  simp [member?_iff, mem_part]

theorem resource_section (value : Json) :
    (ofStack stack).document.member? "resource" = some value
      ↔ resourcesByType stack.resources ≠ [] ∧ value = .object (resourcesByType stack.resources) := by
  simp [member?_iff, mem_part]

theorem module_section (value : Json) :
    (ofStack stack).document.member? "module" = some value
      ↔ modulesById stack.modules ≠ [] ∧ value = .object (modulesById stack.modules) := by
  simp [member?_iff, mem_part]

theorem output_section (value : Json) :
    (ofStack stack).document.member? "output" = some value
      ↔ outputsById stack.outputs ≠ [] ∧ value = .object (outputsById stack.outputs) := by
  simp [member?_iff, mem_part]

theorem stackName?_ofStack (stack : Stack) : (ofStack stack).stackName? = some stack.name.text := by
  have found : (ofStack stack).document.member? "//" = some (metadata stack.name.text) :=
    member?_iff.mpr (Or.inl ⟨rfl, rfl⟩)
  rw [stackName?, memberOrNull_of_member? found]
  rfl

/-! ## Providers -/

theorem get?_providersByName (providers : List Provider) (name : String) :
    get? (providersByName providers) name
      = if ∃ provider ∈ providers, provider.name.text = name then
          some (.array ((providers.filter fun provider => provider.name.text = name).map
            Provider.json))
        else none := by
  have collected : valuesOf (providers.map fun provider => (provider.name.text, provider.json)) name
      = (providers.filter fun provider => provider.name.text = name).map Provider.json := by
    rw [valuesOf, List.filter_map, List.map_map]
    rfl
  rw [providersByName, get?_mapValues, get?_grouped, collected]
  by_cases some : ∃ provider ∈ providers, provider.name.text = name
  · have filled : (providers.filter fun provider => provider.name.text = name).map Provider.json
        ≠ [] := by
      simpa using some
    rw [if_neg filled, if_pos some, Option.map_some]
  · have empty : (providers.filter fun provider => provider.name.text = name).map Provider.json
        = [] := by
      simpa using some
    rw [if_pos empty, if_neg some, Option.map_none]

theorem providersByName_eq_nil_iff {providers : List Provider} :
    providersByName providers = [] ↔ providers = [] := by
  rw [providersByName, mapValues, List.map_eq_nil_iff, grouped_eq_nil_iff, List.map_eq_nil_iff]

theorem installation_eq_nil_iff {providers : List Provider} :
    installation providers = [] ↔ providers = [] := by
  rw [← not_iff_not, installation, ← ne_eq, part_ne_nil_iff, requirements, ne_eq, ofList_eq_nil_iff,
    List.map_eq_nil_iff]

/-! ## Resources -/

/-- The resources of a type, under their names. -/
theorem valuesOf_type (resources : List Resource) (type : String) :
    valuesOf (resources.map fun resource =>
        (resource.type.text, (resource.id.text, resource.json))) type
      = (resources.filter fun resource => resource.type.text = type).map
        fun resource => (resource.id.text, resource.json) := by
  rw [valuesOf, List.filter_map, List.map_map]
  rfl

theorem resourcesByType_eq_nil_iff {resources : List Resource} :
    resourcesByType resources = [] ↔ resources = [] := by
  rw [resourcesByType, mapValues, List.map_eq_nil_iff, grouped_eq_nil_iff, List.map_eq_nil_iff]

/-- No two resources of a type have one name. -/
theorem names_of_type (once : (stack.resources.map fun resource =>
    (resource.type, resource.id)).Nodup) (type : String) :
    (((stack.resources.filter fun resource => resource.type.text = type).map
      fun resource => (resource.id.text, resource.json)).map (·.1)).Nodup := by
  rw [List.map_map]
  refine List.Nodup.map_on ?_ ((List.Nodup.of_map _ once).filter _)
  intro resource member other member' same
  obtain ⟨member, known⟩ := List.mem_filter.mp member
  obtain ⟨member', known'⟩ := List.mem_filter.mp member'
  have types : resource.type = other.type :=
    ResourceType.text_inj ((of_decide_eq_true known).trans (of_decide_eq_true known').symm)
  exact List.inj_on_of_nodup_map once member member'
    (Prod.mk.injEq _ _ _ _ ▸ ⟨types, ConstructId.text_inj same⟩)

theorem resource?_iff (once : (stack.resources.map fun resource =>
    (resource.type, resource.id)).Nodup) {type id : String} {body : Json} :
    (ofStack stack).resource? type id = some body
      ↔ ∃ resource ∈ stack.resources, resource.type.text = type ∧ resource.id.text = id
        ∧ body = resource.json := by
  change ((((ofStack stack).document.memberOrNull "resource").member? type).getD .null).member? id
    = some body ↔ _
  rw [member?_section resource_section, resourcesByType,
    get?_mapValues, get?_grouped, valuesOf_type]
  split
  · rename_i empty
    have none : ∀ resource ∈ stack.resources, resource.type.text ≠ type := by simpa using empty
    constructor
    · intro found
      cases found
    · rintro ⟨resource, member, same, -⟩
      exact absurd same (none resource member)
  · rw [Option.map_some, Option.getD_some, Json.member?,
      get?_ofList_eq_some_iff (names_of_type once type)]
    simp only [List.mem_map, List.mem_filter, decide_eq_true_eq, Prod.mk.injEq]
    constructor
    · rintro ⟨resource, ⟨member, types⟩, ids, rfl⟩
      exact ⟨resource, member, types, ids, rfl⟩
    · rintro ⟨resource, member, types, ids, rfl⟩
      exact ⟨resource, ⟨member, types⟩, ids, rfl⟩

/-- All resources of all types are counted, once each. -/
theorem resourceCount_eq (once : (stack.resources.map fun resource =>
    (resource.type, resource.id)).Nodup) :
    (ofStack stack).resourceCount = stack.resources.length := by
  -- A group of resources is as long as the object that is made from it.
  have lengths : ∀ group ∈ grouped (stack.resources.map fun resource =>
      (resource.type.text, (resource.id.text, resource.json))),
      (ofList group.2).length = group.2.length := by
    rintro ⟨type, members⟩ member
    have found := (get?_eq_some_iff (sorted_grouped _)).mpr member
    rw [get?_grouped, valuesOf_type] at found
    split at found
    · cases found
    · obtain rfl := Option.some.inj found
      exact (ofList_perm (names_of_type once type)).length_eq
  have counted : ((resourcesByType stack.resources).flatMap fun entry =>
      entry.2.members?.getD []).length = stack.resources.length := by
    calc ((resourcesByType stack.resources).flatMap fun entry => entry.2.members?.getD []).length
        = ((grouped (stack.resources.map fun resource =>
            (resource.type.text, (resource.id.text, resource.json)))).map
              fun group => (ofList group.2).length).sum := by
          rw [resourcesByType, mapValues, List.flatMap_map, List.length_flatMap]
          rfl
      _ = ((grouped (stack.resources.map fun resource =>
            (resource.type.text, (resource.id.text, resource.json)))).map
              fun group => group.2.length).sum := by rw [List.map_congr_left lengths]
      _ = stack.resources.length := by rw [sum_grouped, List.length_map]
  rw [resourceCount, resources]
  cases found : (ofStack stack).document.member? "resource" with
  | none =>
      have empty : resourcesByType stack.resources = [] := by
        by_contra some
        rw [(resource_section _).mpr ⟨some, rfl⟩] at found
        cases found
      rw [← counted, empty, Json.memberOrNull, found]
      rfl
  | some value =>
      obtain ⟨-, rfl⟩ := (resource_section value).mp found
      rw [memberOrNull_of_member? found]
      exact counted

/-! ## Modules and outputs -/

theorem get?_modulesById (once : (stack.modules.map ModuleCall.id).Nodup) {id : String}
    {body : Json} :
    get? (modulesById stack.modules) id = some body
      ↔ ∃ call ∈ stack.modules, call.id.text = id ∧ body = call.json := by
  have once' : ((stack.modules.map fun call => (call.id.text, call.json)).map (·.1)).Nodup := by
    have texts := once.map (f := ConstructId.text) fun _ _ same => ConstructId.text_inj same
    rwa [List.map_map] at texts ⊢
  rw [modulesById, get?_ofList_eq_some_iff once']
  simp [eq_comm]

theorem get?_outputsById (once : (stack.outputs.map Output.id).Nodup) {id : String} {body : Json} :
    get? (outputsById stack.outputs) id = some body
      ↔ ∃ output ∈ stack.outputs, output.id.text = id ∧ body = output.json := by
  have once' : ((stack.outputs.map fun output => (output.id.text, output.json)).map (·.1)).Nodup := by
    have texts := once.map (f := ConstructId.text) fun _ _ same => ConstructId.text_inj same
    rwa [List.map_map] at texts ⊢
  rw [outputsById, get?_ofList_eq_some_iff once']
  simp [eq_comm]

theorem modulesById_eq_nil_iff {modules : List ModuleCall} :
    modulesById modules = [] ↔ modules = [] := by
  rw [modulesById, ofList_eq_nil_iff, List.map_eq_nil_iff]

theorem outputsById_eq_nil_iff {outputs : List Output} : outputsById outputs = [] ↔ outputs = [] := by
  rw [outputsById, ofList_eq_nil_iff, List.map_eq_nil_iff]

/-! ## All that a plan tells -/

/-- The plan holds the constructs of the stack, and nothing else. -/
structure Tells (plan : Plan) (stack : Stack) : Prop where
  name : plan.stackName? = some stack.name.text
  resources : ∀ type id body, plan.resource? type id = some body
    ↔ ∃ resource ∈ stack.resources, resource.type.text = type ∧ resource.id.text = id
      ∧ resource.RenderedAs body
  count : plan.resourceCount = stack.resources.length
  modules : ∀ id body, (plan.document.memberOrNull "module").member? id = some body
    ↔ ∃ call ∈ stack.modules, call.id.text = id ∧ body = call.json
  outputs : ∀ id body, (plan.document.memberOrNull "output").member? id = some body
    ↔ ∃ output ∈ stack.outputs, output.id.text = id ∧ body = output.json
  /-- The providers of a name stand in the order of their registration. -/
  providers : ∀ name, (plan.document.memberOrNull "provider").member? name
    = if ∃ provider ∈ stack.providers, provider.name.text = name then
        some (.array ((stack.providers.filter fun provider => provider.name.text = name).map
          Provider.json))
      else none
  /-- There is a section for each kind of which there are constructs. -/
  sections : ∀ key, (plan.document.member? key).isSome = true
    ↔ key = "//" ∨ key = "terraform" ∧ stack.providers ≠ [] ∨ key = "provider" ∧ stack.providers ≠ []
      ∨ key = "resource" ∧ stack.resources ≠ [] ∨ key = "module" ∧ stack.modules ≠ []
      ∨ key = "output" ∧ stack.outputs ≠ []

/-- A section is there if it holds something. -/
theorem sections_ofStack (key : String) : ((ofStack stack).document.member? key).isSome = true
    ↔ key = "//" ∨ key = "terraform" ∧ stack.providers ≠ [] ∨ key = "provider" ∧ stack.providers ≠ []
      ∨ key = "resource" ∧ stack.resources ≠ [] ∨ key = "module" ∧ stack.modules ≠ []
      ∨ key = "output" ∧ stack.outputs ≠ [] := by
  simp only [Option.isSome_iff_exists, member?_iff, mem_part, exists_or, exists_and_left, exists_eq,
    and_true, ne_eq, installation_eq_nil_iff, providersByName_eq_nil_iff, resourcesByType_eq_nil_iff,
    modulesById_eq_nil_iff, outputsById_eq_nil_iff]

end Plan

/-- However a stack came about, its plan tells exactly what it declares. -/
theorem Stack.Reached.plan_tells {stack : Stack} (reached : stack.Reached) :
    (Plan.ofStack stack).Tells stack := by
  have distinct := reached.distinct
  refine ⟨Plan.stackName?_ofStack stack, ?_, Plan.resourceCount_eq distinct.resources, ?_, ?_, ?_,
    Plan.sections_ofStack⟩
  · intro type id body
    simp only [Plan.resource?_iff distinct.resources, Resource.renderedAs_iff]
  · intro id body
    rw [Plan.member?_section Plan.module_section, Plan.get?_modulesById distinct.modules]
  · intro id body
    rw [Plan.member?_section Plan.output_section, Plan.get?_outputsById distinct.outputs]
  · intro name
    rw [Plan.member?_section Plan.provider_section, Plan.get?_providersByName]

/-! ### Two resources -/

namespace Stack.Linked

def bucket : Resource :=
  ⟨⟨"aws_s3_bucket", by decide⟩, ⟨"logs", by decide⟩, [("bucket", .literal (.string "demo"))]⟩

/-- A resource of another type that refers to the bucket. -/
def copy : Resource :=
  ⟨⟨"null_resource", by decide⟩, ⟨"logs", by decide⟩,
    [("count", .literal (.number (.integer 2))), ("of", .reference (bucket.handle.get "arn"))]⟩

def app : App := .empty ⟨[111]⟩ .standard

def stackWith (resources : List Resource) : Stack :=
  { Stack.empty ⟨"web", by decide⟩ (app.stackDirectory ⟨"web", by decide⟩) app.packager with
    resources := resources }

/-- Both go by the name `logs`. -/
theorem reached_both : (stackWith [bucket, copy]).Reached := by
  have made : app.newStack "web" = .ok (stackWith []) := rfl
  have first : (stackWith []).declare (.resource bucket) ⟨[], []⟩
      = .ok (stackWith [bucket]) ⟨[], []⟩ := rfl
  have second : (stackWith [bucket]).declare (.resource copy) ⟨[], []⟩
      = .ok (stackWith [bucket, copy]) ⟨[], []⟩ := rfl
  exact ((Reached.begin made).declared first).declared second

/-- The plan counts both and shows the reference as text. -/
theorem copy_planned : (stackWith [bucket, copy]).Reached
    ∧ (Plan.ofStack (stackWith [bucket, copy])).resourceCount = 2
    ∧ (Plan.ofStack (stackWith [bucket, copy])).resource? "null_resource" "logs"
      = some (.object [("count", .number (.integer 2)),
        ("of", .string "$\x7baws_s3_bucket.logs.arn\x7d")]) := by
  have tells := reached_both.plan_tells
  refine ⟨reached_both, tells.count, (tells.resources _ _ _).mpr ?_⟩
  refine ⟨copy, by simp [stackWith], rfl, rfl, _, rfl, ?_⟩
  exact .cons ⟨rfl, .literal _⟩ (.cons ⟨rfl, .reference "aws_s3_bucket.logs" "arn"⟩ .nil)

end Stack.Linked

end StackSynth
