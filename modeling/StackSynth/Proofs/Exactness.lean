import StackSynth.Proofs.Planning
import StackSynth.Proofs.Rendering
import StackSynth.Synthesis

/-!
# Exactness — plans of documents that can be written exactly

Values of attributes are documents whose objects are dictionaries and whose numbers are integers.
What a plan puts around them is of that kind, too.

* `Json.Exact` — such documents, and the ways to make them;
* `Stack.Exact`, `Stack.Exact.document` — the plan of a stack with such values.
-/

namespace StackSynth

/-! ## Documents -/

namespace Json

/-- A document with sorted members, as it is held in memory, and without fractions. -/
def Exact (d : Json) : Prop :=
  d.Canonical ∧ d.Integral

theorem exact_string (text : String) : (string text).Exact :=
  ⟨trivial, trivial⟩

theorem exact_array_iff {items : List Json} :
    (array items).Exact ↔ ∀ item ∈ items, item.Exact := by
  have each : ∀ items : List Json, CanonicalItems items ∧ IntegralItems items
      ↔ ∀ item ∈ items, item.Exact := by
    intro items
    induction items with
    | nil => simp [CanonicalItems, IntegralItems]
    | cons item rest ih =>
        rw [List.forall_mem_cons, ← ih, CanonicalItems, IntegralItems]
        exact and_and_and_comm
  exact each items

theorem exact_object_iff {members : Dictionary Json} :
    (object members).Exact ↔ Dictionary.Sorted members ∧ ∀ member ∈ members, member.2.Exact := by
  have each : ∀ members : List (String × Json), CanonicalMembers members ∧ IntegralMembers members
      ↔ ∀ member ∈ members, member.2.Exact := by
    intro members
    induction members with
    | nil => simp [CanonicalMembers, IntegralMembers]
    | cons member rest ih =>
        rw [List.forall_mem_cons, ← ih, CanonicalMembers, IntegralMembers]
        exact and_and_and_comm
  rw [← each]
  exact and_assoc

variable {members : Dictionary Json}

theorem exact_single (key : String) {value : Json} (exact : value.Exact) :
    (object [(key, value)]).Exact :=
  exact_object_iff.mpr ⟨List.pairwise_singleton _ _, by simpa using exact⟩

theorem Exact.insert (exact : (object members).Exact) (key : String) {value : Json}
    (own : value.Exact) : (object (members.insert key value)).Exact := by
  obtain ⟨sorted, each⟩ := exact_object_iff.mp exact
  refine exact_object_iff.mpr ⟨sorted.insert key value, fun member known => ?_⟩
  have found := (Dictionary.get?_eq_some_iff (sorted.insert key value)).mpr known
  rw [Dictionary.get?_insert] at found
  split at found
  · rwa [← Option.some.inj found]
  · exact each _ (Dictionary.mem_of_get? found)

theorem exact_ofList {pairs : List (String × Json)} (each : ∀ pair ∈ pairs, pair.2.Exact) :
    (object (Dictionary.ofList pairs)).Exact :=
  exact_object_iff.mpr ⟨Dictionary.sorted_ofList pairs, fun member known =>
    each member (Dictionary.mem_of_mem_ofList known)⟩

theorem exact_mapValues {α : Type} {d : Dictionary α} {f : α → Json} (sorted : d.Sorted)
    (each : ∀ pair ∈ d, (f pair.2).Exact) : (object (d.mapValues f)).Exact := by
  refine exact_object_iff.mpr ⟨sorted.mapValues f, fun member known => ?_⟩
  obtain ⟨pair, inside, rfl⟩ := List.mem_map.mp known
  exact each pair inside

end Json

/-! ## Constructs -/

/-- The attributes stand in order, and their values are exact. -/
def Attributes.Exact (attributes : Attributes) : Prop :=
  Dictionary.Sorted attributes ∧ ∀ given ∈ attributes, given.2.json.Exact

theorem Attributes.Exact.json {attributes : Attributes} (exact : attributes.Exact) :
    (Json.object attributes.json).Exact :=
  Json.exact_mapValues exact.1 exact.2

theorem Provider.exact_json {provider : Provider} (exact : provider.attributes.Exact) :
    provider.json.Exact := by
  unfold Provider.json
  split
  · exact exact.json.insert _ (Json.exact_string _)
  · exact exact.json

theorem ModuleCall.exact_json {call : ModuleCall} (exact : call.inputs.Exact) :
    call.json.Exact := by
  have body := exact.json.insert "source" (Json.exact_string call.source)
  unfold ModuleCall.json
  dsimp only
  split
  · exact body.insert _ (Json.exact_string _)
  · exact body

theorem Output.exact_json {output : Output} (exact : output.value.json.Exact) :
    output.json.Exact := by
  have value := Json.exact_single "value" exact
  unfold Output.json
  cases output.description with
  | none =>
      dsimp only
      split
      · exact value.insert _ ⟨by trivial, by trivial⟩
      · exact value
  | some text =>
      have body := value.insert "description" (Json.exact_string text)
      dsimp only
      split
      · exact body.insert _ ⟨by trivial, by trivial⟩
      · exact body

/-- All values of a stack are exact, and the hashes of its assets have their marks. -/
structure Stack.Exact (stack : Stack) : Prop where
  providers : ∀ provider ∈ stack.providers, provider.attributes.Exact
  resources : ∀ resource ∈ stack.resources, resource.attributes.Exact
  modules : ∀ call ∈ stack.modules, call.inputs.Exact
  outputs : ∀ output ∈ stack.outputs, output.value.json.Exact
  hashes : ∀ asset ∈ stack.assets, ContentHash.marked asset.hash.text = true

/-! ## Plans -/

namespace Plan

variable {stack : Stack}

theorem exact_metadata (name : String) : (metadata name).Exact := by
  refine Json.exact_single _ (Json.exact_object_iff.mpr ⟨?_, by simp [Json.exact_string]⟩)
  simp only [Dictionary.Sorted, List.pairwise_cons, List.forall_mem_cons]
  decide

theorem exact_part {key : String} {members : Dictionary Json}
    (exact : (Json.object members).Exact) :
    ∀ pair ∈ part key members, pair.2.Exact := by
  rintro ⟨k, value⟩ member
  obtain ⟨-, -, rfl⟩ := mem_part.mp member
  exact exact

theorem exact_requirements (providers : List Provider) :
    (Json.object (requirements providers)).Exact := by
  refine Json.exact_ofList fun pair member => ?_
  obtain ⟨provider, -, rfl⟩ := List.mem_map.mp member
  have source := Json.exact_single "source" (Json.exact_string provider.source)
  dsimp only [requirement]
  split
  · exact source.insert "version" (Json.exact_string _)
  · exact source

theorem exact_installation (providers : List Provider) :
    (Json.object (installation providers)).Exact := by
  have required := exact_requirements providers
  unfold installation part
  split
  · exact Json.exact_ofList (fun _ member => absurd member List.not_mem_nil)
  · exact Json.exact_single _ required

theorem exact_providersByName {providers : List Provider}
    (exact : ∀ provider ∈ providers, provider.attributes.Exact) :
    (Json.object (providersByName providers)).Exact := by
  refine Json.exact_mapValues (Dictionary.sorted_grouped _) fun group member => ?_
  refine Json.exact_array_iff.mpr fun value inside => ?_
  obtain ⟨provider, known, same⟩ := List.mem_map.mp (Dictionary.mem_of_mem_grouped member inside)
  obtain ⟨-, rfl⟩ := Prod.mk.inj same
  exact Provider.exact_json (exact provider known)

theorem exact_resourcesByType {resources : List Resource}
    (exact : ∀ resource ∈ resources, resource.attributes.Exact) :
    (Json.object (resourcesByType resources)).Exact := by
  unfold resourcesByType
  dsimp only
  refine Json.exact_mapValues (Dictionary.sorted_grouped _) fun group member => ?_
  refine Json.exact_ofList fun pair inside => ?_
  obtain ⟨resource, known, same⟩ := List.mem_map.mp (Dictionary.mem_of_mem_grouped member inside)
  obtain ⟨-, rfl⟩ := Prod.mk.inj same
  exact (exact resource known).json

theorem exact_modulesById {modules : List ModuleCall}
    (exact : ∀ call ∈ modules, call.inputs.Exact) :
    (Json.object (modulesById modules)).Exact := by
  refine Json.exact_ofList fun pair member => ?_
  obtain ⟨call, known, rfl⟩ := List.mem_map.mp member
  exact ModuleCall.exact_json (exact call known)

theorem exact_outputsById {outputs : List Output}
    (exact : ∀ output ∈ outputs, output.value.json.Exact) :
    (Json.object (outputsById outputs)).Exact := by
  refine Json.exact_ofList fun pair member => ?_
  obtain ⟨output, known, rfl⟩ := List.mem_map.mp member
  exact Output.exact_json (exact output known)

end Plan

theorem Stack.Exact.document {stack : Stack} (exact : stack.Exact) :
    (Plan.ofStack stack).document.Exact := by
  refine Json.exact_ofList ?_
  simp only [List.forall_mem_append]
  refine ⟨⟨⟨⟨⟨?_, ?_⟩, ?_⟩, ?_⟩, ?_⟩, ?_⟩
  · simpa using Plan.exact_metadata stack.name.text
  · exact Plan.exact_part (Plan.exact_installation stack.providers)
  · exact Plan.exact_part (Plan.exact_providersByName exact.providers)
  · exact Plan.exact_part (Plan.exact_resourcesByType exact.resources)
  · exact Plan.exact_part (Plan.exact_modulesById exact.modules)
  · exact Plan.exact_part (Plan.exact_outputsById exact.outputs)

end StackSynth
