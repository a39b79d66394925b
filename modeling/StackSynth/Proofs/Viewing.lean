import StackSynth.Plan
import StackSynth.Proofs.Dictionary
import StackSynth.Proofs.Utf8

/-!
# Viewing — the views of a plan agree

A plan may hold any document, and its views look at it in different ways: one looks a member up,
one lists members, and one counts the members of members.  None of them asks that a section is
there or is an object, and they never contradict each other.

* `Json.Canonical.memberOrNull` — what stands in a canonical document is canonical;
* `Plan.Agree` — what the views of a plan have to do with each other;
* `Plan.views_agree` — they agree, whatever the document is.
-/

namespace StackSynth

namespace Json

variable {d value : Json} {members : Dictionary Json} {key : String}

theorem canonicalMembers_iff :
    CanonicalMembers members ↔ ∀ member ∈ members, member.2.Canonical := by
  induction members with
  | nil => simp [CanonicalMembers]
  | cons member rest ih => rw [CanonicalMembers, ih, List.forall_mem_cons]

/-- Where there is no such member there is `null`, which is canonical as well. -/
theorem Canonical.memberOrNull (proper : d.Canonical) (key : String) :
    (d.memberOrNull key).Canonical := by
  rw [Json.memberOrNull]
  cases found : d.member? key with
  | none => exact trivial
  | some value =>
      cases d with
      | object members =>
          exact canonicalMembers_iff.mp proper.2 (key, value) (Dictionary.mem_of_get? found)
      | _ => cases found

/-- A canonical object is a dictionary, and what is no object has no members. -/
theorem Canonical.sorted_members (proper : d.Canonical) :
    Dictionary.Sorted (d.members?.getD []) := by
  cases d with
  | object members => exact proper.1
  | _ => exact Dictionary.sorted_nil

theorem member?_eq_get? (d : Json) (key : String) :
    d.member? key = Dictionary.get? (d.members?.getD []) key := by
  cases d <;> rfl

end Json

namespace Plan

open Dictionary

variable {plan : Plan}

/-- What the views of a plan have to do with each other. -/
structure Agree (plan : Plan) : Prop where
  /-- A resource is found under its name if and only if it is listed under it. -/
  found : ∀ type id body, plan.resource? type id = some body ↔ (id, body) ∈ plan.resourcesOf type
  /-- The octets of the names increase, so that every name is listed once. -/
  ascending : ∀ type, (plan.resourcesOf type).Pairwise fun one other =>
    Utf8.encode one.1 < Utf8.encode other.1
  /-- All resources that are listed are counted, type by type. -/
  counted : ∀ types, plan.document.member? "resource" = some (.object types) →
    plan.resourceCount = ((keys types).map fun type => (plan.resourcesOf type).length).sum
  /-- Without an object of resources there is nothing to count. -/
  uncounted : (∀ types, plan.document.member? "resource" ≠ some (.object types)) →
    plan.resourceCount = 0

theorem sorted_resourcesOf (proper : plan.document.Canonical) (type : String) :
    Sorted (plan.resourcesOf type) :=
  ((proper.memberOrNull "resource").memberOrNull type).sorted_members

/-- The resources of a type that is listed stand under its key. -/
theorem resourcesOf_of_mem {types : Dictionary Json} {entry : String × Json}
    (proper : plan.document.Canonical)
    (known : plan.document.member? "resource" = some (.object types)) (listed : entry ∈ types) :
    plan.resourcesOf entry.1 = entry.2.members?.getD [] := by
  have whole : plan.resources = .object types := by
    rw [resources, Json.memberOrNull, known, Option.getD_some]
  have sorted : Sorted types := by
    have canonical := proper.memberOrNull "resource"
    rw [← resources, whole] at canonical
    exact canonical.1
  have found : get? types entry.1 = some entry.2 := (get?_eq_some_iff sorted).mpr listed
  rw [resourcesOf, whole, Json.memberOrNull, Json.member?, found, Option.getD_some]

/-- The views of a plan agree on every document. -/
theorem views_agree (proper : plan.document.Canonical) : plan.Agree where
  found type id body := by
    rw [resource?, Json.member?_eq_get?]
    exact get?_eq_some_iff (sorted_resourcesOf proper type)
  ascending type := (sorted_resourcesOf proper type).imp fun less => Utf8.encode_lt_iff.mpr less
  counted types known := by
    have lengths : ∀ entry ∈ types,
        (entry.2.members?.getD []).length = (plan.resourcesOf entry.1).length := by
      intro entry listed
      rw [resourcesOf_of_mem proper known listed]
    rw [resourceCount, resources, Json.memberOrNull, known, keys, List.map_map, List.length_flatMap]
    exact congrArg List.sum (List.map_congr_left lengths)
  uncounted absent := by
    have nothing : plan.resources.members? = none := by
      rw [resources, Json.memberOrNull]
      cases found : plan.document.member? "resource" with
      | none => rfl
      | some value =>
          cases value with
          | object types => exact absurd found (absent types)
          | _ => rfl
    rw [resourceCount, nothing]
    rfl

/-! ### A document that no stack makes -/

namespace Foreign

/-- Two of the three types are no objects. -/
def mixed : Plan where
  document := .object
    [ ("output", .null),
      ("resource", .object
        [ ("aws_s3_bucket", .object [("logs", .null), ("web", .object [])]),
          ("null_resource", .array [.string "noop"]),
          ("random_id", .bool true) ]) ]

theorem canonical : mixed.document.Canonical := by
  simp only [mixed, Json.Canonical, Json.CanonicalMembers, Json.CanonicalItems, sorted_iff_keys]
  decide

theorem mixed_viewed : mixed.document.Canonical ∧ mixed.resourceCount = 2
    ∧ mixed.resource? "aws_s3_bucket" "logs" = some .null
    ∧ mixed.resource? "null_resource" "noop" ≠ some .null := by
  have agree := views_agree canonical
  refine ⟨canonical, agree.counted _ rfl, (agree.found _ _ _).mpr ?_, ?_⟩
  · exact List.mem_cons_self
  · rw [ne_eq, agree.found]
    exact List.not_mem_nil

end Foreign

end Plan
end StackSynth
