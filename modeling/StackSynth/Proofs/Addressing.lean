import StackSynth.Proofs.Planning
import StackSynth.Proofs.Referring

/-!
# Addressing — what a reference names

A reference is written with the address of a construct and the name of an attribute, and dots stand
between the names of which the address is made.  No dot is in a resource type or in the name of a
construct, so that the text of a reference tells all names in it, although the attribute may be any
text.  Resources and module calls share these addresses: a module call goes by the word `module`
where a resource has its type, and `module` is a type like any other.

* `Handle.text_eq_iff` — what the text of a reference tells;
* `Stack.Handed` — the handles that a stack has given to its users;
* `Stack.Denotes`, `Stack.Handed.denotes` — the construct that a handle is for;
* `Stack.Handed.same_text_iff` — which references have one text.
-/

namespace StackSynth

/-! ## The text of a reference -/

theorem ResourceType.dot_not_mem (type : ResourceType) : '.' ∉ type.text.toList := by
  obtain ⟨text, follows⟩ := type
  intro member
  cases chars : text.toList with
  | nil => simp [chars] at member
  | cons first rest =>
      rw [chars, isSnakeCase, Bool.and_eq_true, List.all_eq_true] at follows
      rw [chars] at member
      rcases List.mem_cons.mp member with rfl | member
      · exact absurd follows.1 (by decide)
      · exact absurd (follows.2 '.' member) (by decide)

namespace Handle

/-- What stands in front of the name of the construct. -/
def kind : Handle → String
  | .resource type _ => type.text
  | .module _ => "module"

def id : Handle → ConstructId
  | .resource _ id => id
  | .module id => id

variable {one other : Handle} {first second : String}

theorem address_eq (handle : Handle) : handle.address = handle.kind ++ "." ++ handle.id.text := by
  cases handle <;> rfl

theorem dot_not_mem_kind (handle : Handle) : '.' ∉ handle.kind.toList := by
  cases handle with
  | resource type id => exact type.dot_not_mem
  | module id => simp [kind]

theorem text_eq_iff : (one.get first).text = (other.get second).text
    ↔ one.kind = other.kind ∧ one.id = other.id ∧ first = second := by
  constructor
  · intro same
    have whole := congrArg String.toList same
    simp only [Reference.text, get, address_eq, String.toList_append, List.append_assoc] at whole
    obtain ⟨kinds, rest⟩ := Placeholder.front_unique one.dot_not_mem_kind other.dot_not_mem_kind
      (List.append_cancel_left whole)
    obtain ⟨ids, attributes⟩ := Placeholder.front_unique one.id.dot_not_mem other.id.dot_not_mem rest
    exact ⟨String.toList_inj.mp kinds, ConstructId.text_inj (String.toList_inj.mp ids),
      String.toList_inj.mp (List.append_cancel_right attributes)⟩
  · rintro ⟨kinds, ids, rfl⟩
    rw [get, get, address_eq, address_eq, kinds, ids]

/-- The resource is of the type `module` and has the name of the module call, so that both go by
one address. -/
def Shadows (one other : Handle) : Prop :=
  ∃ type id, one = .resource type id ∧ type.text = "module" ∧ other = .module id

theorem names_eq_iff : one.kind = other.kind ∧ one.id = other.id
    ↔ one = other ∨ one.Shadows other ∨ other.Shadows one := by
  constructor
  · rintro ⟨kinds, ids⟩
    cases one with
    | resource type id =>
        cases other with
        | resource type' id' =>
            rw [ResourceType.text_inj kinds, show id = id' from ids]
            exact Or.inl rfl
        | module id' => exact Or.inr (Or.inl ⟨type, id, rfl, kinds, congrArg _ ids.symm⟩)
    | module id =>
        cases other with
        | resource type id' => exact Or.inr (Or.inr ⟨type, id', rfl, kinds.symm, congrArg _ ids⟩)
        | module id' => exact Or.inl (congrArg _ ids)
  · rintro (rfl | ⟨type, id, rfl, isModule, rfl⟩ | ⟨type, id, rfl, isModule, rfl⟩)
    · exact ⟨rfl, rfl⟩
    · exact ⟨isModule, rfl⟩
    · exact ⟨isModule.symm, rfl⟩

end Handle

/-! ## What a handle is for -/

/-- Something that handles are given out for. -/
inductive Construct where
  | resource (resource : Resource)
  | module (call : ModuleCall)

def Construct.handle : Construct → Handle
  | .resource body => body.handle
  | .module call => call.handle

namespace Stack

variable {stack next : Stack} {declaration : Declaration} {handle : Handle} {handles : List Handle}

/-- The construct is registered. -/
def Holds (stack : Stack) : Construct → Prop
  | .resource resource => resource ∈ stack.resources
  | .module call => call ∈ stack.modules

/-- The handle is for this construct of the stack. -/
def Denotes (stack : Stack) (handle : Handle) (construct : Construct) : Prop :=
  stack.Holds construct ∧ construct.handle = handle

theorem Distinct.construct_eq (distinct : stack.Distinct) {one other : Construct}
    (holds : stack.Holds one) (holds' : stack.Holds other) (same : one.handle = other.handle) :
    one = other := by
  cases one with
  | resource one =>
      cases other with
      | resource other =>
          obtain ⟨types, ids⟩ := Handle.resource.inj same
          rw [List.inj_on_of_nodup_map distinct.resources holds holds' (Prod.ext types ids)]
      | module other => cases same
  | module one =>
      cases other with
      | resource other => cases same
      | module other =>
          rw [List.inj_on_of_nodup_map distinct.modules holds holds' (Handle.module.inj same)]

theorem Registers.holds (registers : stack.Registers declaration next) {construct : Construct}
    (holds : stack.Holds construct) : next.Holds construct := by
  cases construct <;> cases registers <;> first | exact holds | exact List.mem_append_left _ holds

/-- A declaration succeeds and its user is given a handle. -/
inductive HandsOut (stack : Stack) : Declaration → Handle → Stack → Prop
  | resource {resource : Resource} {handle : Handle} {next : Stack} :
      stack.addResource resource = .ok (handle, next) →
      HandsOut stack (.resource resource) handle next
  | shape {id : String} {shape : String → Except Failure Resource} {resource : Resource}
      {handle : Handle} {next : Stack} : shape id = .ok resource →
      stack.addResource resource = .ok (handle, next) → HandsOut stack (.shape id shape) handle next
  | module {call : ModuleCall} {handle : Handle} {next : Stack} :
      stack.addModule call = .ok (handle, next) → HandsOut stack (.module call) handle next

/-- Declarations lead to the stack, and these are the handles that were given out on the way.
Declarations of the other kinds give none. -/
inductive Handed : Stack → List Handle → Prop
  | begin {maker : App} {name : String} {stack : Stack} : maker.newStack name = .ok stack →
      Handed stack []
  | handed {stack next : Stack} {handles : List Handle} {declaration : Declaration}
      {handle : Handle} : Handed stack handles → stack.HandsOut declaration handle next →
      Handed next (handles ++ [handle])
  | declared {stack next : Stack} {handles : List Handle} {declaration : Declaration}
      {fs after : FileSystem} : Handed stack handles →
      stack.declare declaration fs = .ok next after → Handed next handles

/-! ### What is given out -/

/-- The handle is for the construct that was added. -/
theorem HandsOut.denotes (handsOut : stack.HandsOut declaration handle next) :
    ∃ construct, next.Denotes handle construct := by
  have ofResource : ∀ {resource : Resource}, stack.addResource resource = .ok (handle, next) →
      ∃ construct, next.Denotes handle construct := by
    intro resource added
    obtain ⟨rfl, -, -, rfl⟩ := addResource_ok added
    exact ⟨.resource resource, by simp [Holds], rfl⟩
  cases handsOut with
  | resource added => exact ofResource added
  | shape _ added => exact ofResource added
  | @module call _ _ added =>
      obtain ⟨rfl, -, rfl⟩ := addModule_ok added
      exact ⟨.module call, by simp [Holds], rfl⟩

/-- With the handle left aside, it is a declaration like any other. -/
theorem HandsOut.declare (handsOut : stack.HandsOut declaration handle next) (fs : FileSystem) :
    stack.declare declaration fs = .ok next fs := by
  cases handsOut with
  | resource added =>
      exact Action.ofExcept_ok_iff.mpr ⟨bind_eq_ok_iff.mpr ⟨_, added, rfl⟩, rfl⟩
  | shape made added =>
      refine Action.ofExcept_ok_iff.mpr ⟨bind_eq_ok_iff.mpr ⟨_, made, ?_⟩, rfl⟩
      exact bind_eq_ok_iff.mpr ⟨_, added, rfl⟩
  | module added =>
      exact Action.ofExcept_ok_iff.mpr ⟨bind_eq_ok_iff.mpr ⟨_, added, rfl⟩, rfl⟩

theorem Handed.reached (handed : stack.Handed handles) : stack.Reached := by
  induction handed with
  | begin made => exact .begin made
  | handed _ handsOut ih => exact .declared ih (handsOut.declare ⟨[], []⟩)
  | declared _ run ih => exact .declared ih run

/-- A handle stays good while more is declared. -/
theorem Handed.denotes (handed : stack.Handed handles) :
    ∀ handle ∈ handles, ∃ construct, stack.Denotes handle construct := by
  have kept : ∀ {stack next : Stack} {declaration : Declaration} {handle : Handle},
      stack.Registers declaration next → (∃ construct, stack.Denotes handle construct) →
      ∃ construct, next.Denotes handle construct := by
    rintro stack next declaration handle registers ⟨construct, holds, same⟩
    exact ⟨construct, registers.holds holds, same⟩
  induction handed with
  | begin made => simp
  | handed _ handsOut ih =>
      have registers := declare_ok (handsOut.declare ⟨[], []⟩)
      simp only [List.forall_mem_append, List.forall_mem_singleton]
      exact ⟨fun handle member => kept registers (ih handle member), handsOut.denotes⟩
  | declared _ run ih => exact fun handle member => kept (declare_ok run) (ih handle member)

/-! ### References with one text -/

/-- Every handle is for one construct, and two references have one text only if they name one
attribute of one construct, unless one of them names a resource of the type `module` and the other
the module call of its name. -/
theorem Handed.same_text_iff (handed : stack.Handed handles) :
    (∀ handle ∈ handles, ∃! construct, stack.Denotes handle construct)
      ∧ ∀ one ∈ handles, ∀ other ∈ handles, ∀ first second,
        (one.get first).text = (other.get second).text ↔ first = second
          ∧ ((∃ construct, stack.Denotes one construct ∧ stack.Denotes other construct)
            ∨ one.Shadows other ∨ other.Shadows one) := by
  have distinct := handed.reached.distinct
  refine ⟨?_, ?_⟩
  · intro handle member
    obtain ⟨construct, holds, rfl⟩ := handed.denotes handle member
    exact ⟨construct, ⟨holds, rfl⟩, fun other ⟨holds', same⟩ =>
      distinct.construct_eq holds' holds same⟩
  · intro one member other member' first second
    have common : (∃ construct, stack.Denotes one construct ∧ stack.Denotes other construct)
        ↔ one = other := by
      constructor
      · rintro ⟨construct, ⟨-, rfl⟩, ⟨-, rfl⟩⟩
        rfl
      · rintro rfl
        obtain ⟨construct, denotes⟩ := handed.denotes one member
        exact ⟨construct, denotes, denotes⟩
    rw [Handle.text_eq_iff, common, ← and_assoc, Handle.names_eq_iff, and_comm]

end Stack

/-! ### Two constructs of one name -/

namespace Stack.Shadowed

def id : ConstructId := ⟨"vpc", by decide⟩

def call : ModuleCall := ⟨id, "terraform-aws-modules/vpc/aws", none, []⟩

def resource (type : ResourceType) : Resource := ⟨type, id, []⟩

def plainType : ResourceType := Linked.copy.type

def moduleType : ResourceType := ⟨"module", by decide⟩

def stackWith (resources : List Resource) (modules : List ModuleCall) : Stack :=
  { Linked.stackWith resources with modules := modules }

/-- The module call is declared, and then a resource of its name. -/
theorem handed_both (type : ResourceType) (complete : (resource type).missing? = none) :
    (stackWith [resource type] [call]).Handed [call.handle, (resource type).handle] := by
  have made : Linked.app.newStack "web" = .ok (stackWith [] []) := rfl
  have first : (stackWith [] []).HandsOut (.module call) call.handle (stackWith [] [call]) :=
    .module rfl
  have second : (stackWith [] [call]).HandsOut (.resource (resource type)) (resource type).handle
      (stackWith [resource type] [call]) := by
    refine .resource ?_
    rw [addResource, Resource.validate, complete]
    rfl
  exact .handed (.handed (.begin made) first) second

/-- References to the two are told apart. -/
theorem two_texts : (stackWith [resource plainType] [call]).Handed
      [call.handle, (resource plainType).handle]
    ∧ (call.handle.get "id").text ≠ ((resource plainType).handle.get "id").text := by
  have handed := handed_both plainType rfl
  refine ⟨handed, fun same => ?_⟩
  obtain ⟨-, ⟨construct, ⟨-, isCall⟩, -, isResource⟩ | shadows | shadows⟩ :=
    (handed.same_text_iff.2 _ (by simp) _ (by simp) "id" "id").mp same
  · cases isCall.symm.trans isResource
  · obtain ⟨_, _, isResource, -⟩ := shadows
    cases isResource
  · obtain ⟨_, _, isResource, isModule, -⟩ := shadows
    cases isResource
    exact absurd isModule (by decide)

/-- A resource of the type `module` is referred to in the same words. -/
theorem one_text : (stackWith [resource moduleType] [call]).Handed
      [call.handle, (resource moduleType).handle]
    ∧ (call.handle.get "id").text = ((resource moduleType).handle.get "id").text
    ∧ ¬ ∃ construct, (stackWith [resource moduleType] [call]).Denotes call.handle construct
      ∧ (stackWith [resource moduleType] [call]).Denotes (resource moduleType).handle construct := by
  refine ⟨handed_both moduleType rfl, rfl, ?_⟩
  rintro ⟨construct, ⟨-, isCall⟩, -, isResource⟩
  cases isCall.symm.trans isResource

end Stack.Shadowed

end StackSynth
