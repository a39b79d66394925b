import StackSynth.Proofs.Planning

/-!
# Requiring — what is required of the installation of a provider

Providers of one name share one requirement.  A plan takes it from the provider of this name that
was registered last, so that a version on which they agree is required only if that one states it
too.

* `Stack.IsLast`, `Stack.exists_isLast` — of the providers of a name, one is the last;
* `Plan.requirement?_eq_some_iff` — what a plan requires under a name;
* `Stack.Agrees` — no two providers of a name state different things;
* `Plan.version_kept_iff` — when a stated version is required.
-/

namespace StackSynth

/-- What a plan requires for the providers of a name. -/
def Plan.requirement? (plan : Plan) (name : String) : Option Json :=
  ((plan.document.memberOrNull "terraform").memberOrNull "required_providers").member? name

namespace Stack

/-- No provider of this name was registered later. -/
def IsLast (stack : Stack) (provider : Provider) : Prop :=
  ∃ front back, stack.providers = front ++ provider :: back
    ∧ ∀ other ∈ back, other.name ≠ provider.name

theorem IsLast.mem {stack : Stack} {provider : Provider} (isLast : stack.IsLast provider) :
    provider ∈ stack.providers := by
  obtain ⟨front, back, whole, -⟩ := isLast
  simp [whole]

theorem exists_isLast {stack : Stack} {provider : Provider} (member : provider ∈ stack.providers) :
    ∃ last, stack.IsLast last ∧ last.name = provider.name := by
  have found : ∀ providers : List Provider, (∃ known ∈ providers, known.name = provider.name) →
      ∃ front last back, providers = front ++ last :: back ∧ last.name = provider.name
        ∧ ∀ other ∈ back, other.name ≠ provider.name := by
    intro providers known
    induction providers with
    | nil => simp at known
    | cons first rest ih =>
        by_cases later : ∃ other ∈ rest, other.name = provider.name
        · obtain ⟨front, last, back, rfl, found⟩ := ih later
          exact ⟨first :: front, last, back, rfl, found⟩
        · have same := ((List.exists_mem_cons_iff ..).mp known).resolve_right later
          exact ⟨[], first, rest, rfl, same, fun other member same => later ⟨other, member, same⟩⟩
  obtain ⟨front, last, back, whole, same, others⟩ := found stack.providers ⟨provider, member, rfl⟩
  exact ⟨last, ⟨front, back, whole, same ▸ others⟩, same⟩

/-- Providers of one name have one source, and those that state a version state the same one. -/
structure Agrees (stack : Stack) : Prop where
  source : ∀ one ∈ stack.providers, ∀ other ∈ stack.providers, one.name = other.name →
    one.source = other.source
  version : ∀ one ∈ stack.providers, ∀ other ∈ stack.providers, one.name = other.name →
    ∀ v w, one.version = some v → other.version = some w → v = w

end Stack

namespace Plan

open Dictionary

variable {stack : Stack} {provider : Provider} {version : String}

theorem requirement?_ofStack (stack : Stack) (name : String) :
    (ofStack stack).requirement? name = get? (requirements stack.providers) name := by
  rw [requirement?, Json.memberOrNull, member?_section installation_section, installation, part]
  cases requirements stack.providers <;> rfl

theorem requirement?_of_isLast (isLast : stack.IsLast provider) :
    (ofStack stack).requirement? provider.name.text = some (requirement provider) := by
  obtain ⟨front, back, whole, others⟩ := isLast
  have absent : get? (back.map fun other => (other.name.text, requirement other)).reverse
      provider.name.text = none := by
    refine get?_eq_none_iff.mpr fun known => ?_
    obtain ⟨pair, inside, same⟩ := List.mem_map.mp known
    obtain ⟨other, later, rfl⟩ := List.mem_map.mp (List.mem_reverse.mp inside)
    exact others other later (ConstructId.text_inj same)
  rw [requirement?_ofStack, requirements, whole, get?_ofList, List.map_append, List.map_cons,
    List.reverse_append, List.reverse_cons, List.append_assoc, get?_append, absent, Option.none_or,
    List.singleton_append, get?, if_pos rfl]

theorem requirement?_eq_some_iff (member : provider ∈ stack.providers) {body : Json} :
    (ofStack stack).requirement? provider.name.text = some body
      ↔ ∃ last, stack.IsLast last ∧ last.name = provider.name ∧ requirement last = body := by
  constructor
  · intro found
    obtain ⟨last, isLast, same⟩ := Stack.exists_isLast member
    rw [← same, requirement?_of_isLast isLast] at found
    exact ⟨last, isLast, same, Option.some.inj found⟩
  · rintro ⟨last, isLast, same, rfl⟩
    rw [← same, requirement?_of_isLast isLast]

theorem requirement_eq_versioned_iff {source : String} :
    requirement provider = .object [("source", .string source), ("version", .string version)]
      ↔ provider.source = source ∧ provider.version = some version := by
  rw [requirement]
  cases provider.version <;> simp

theorem requirement_eq_open_iff {source : String} :
    requirement provider = .object [("source", .string source)]
      ↔ provider.source = source ∧ provider.version = none := by
  rw [requirement]
  cases provider.version <;> simp

/-- Where the providers of a name agree, the version that one of them states is required exactly
if the last of them states one as well, and no version is required exactly if that one is silent. -/
theorem version_kept_iff (agrees : stack.Agrees) (member : provider ∈ stack.providers)
    (stated : provider.version = some version) :
    ((ofStack stack).requirement? provider.name.text
          = some (.object [("source", .string provider.source), ("version", .string version)])
        ↔ ∃ last, stack.IsLast last ∧ last.name = provider.name ∧ last.version.isSome)
      ∧ ((ofStack stack).requirement? provider.name.text
          = some (.object [("source", .string provider.source)])
        ↔ ∃ last, stack.IsLast last ∧ last.name = provider.name ∧ last.version = none) := by
  have shared : ∀ last, stack.IsLast last → last.name = provider.name →
      last.source = provider.source :=
    fun last isLast same => agrees.source last isLast.mem provider member same
  have states_iff : ∀ last, stack.IsLast last → last.name = provider.name →
      (last.version = some version ↔ last.version.isSome) := by
    intro last isLast same
    constructor
    · exact fun stated => stated ▸ rfl
    · intro some
      obtain ⟨other, stated'⟩ := Option.isSome_iff_exists.mp some
      rw [stated', agrees.version last isLast.mem provider member same _ _ stated' stated]
  rw [requirement?_eq_some_iff member, requirement?_eq_some_iff member]
  constructor <;> refine exists_congr fun last => ?_
  · refine and_congr_right fun isLast => and_congr_right fun same => ?_
    rw [requirement_eq_versioned_iff, and_iff_right (shared last isLast same),
      states_iff last isLast same]
  · refine and_congr_right fun isLast => and_congr_right fun same => ?_
    rw [requirement_eq_open_iff, and_iff_right (shared last isLast same)]

end Plan

/-! ### Two providers of one name -/

namespace Stack.Aliased

/-- It states a version. -/
def plain : Provider := ⟨⟨"google", by decide⟩, "hashicorp/google", some "~> 5.0", none, []⟩

/-- It leaves the version open. -/
def europe : Provider := ⟨plain.name, plain.source, none, some ⟨"europe", by decide⟩, []⟩

def stackWith (providers : List Provider) : Stack :=
  { Linked.stackWith [] with providers := providers }

theorem reached (one other : Provider) (apart : one.key ≠ other.key) :
    (stackWith [one, other]).Reached := by
  have made : Linked.app.newStack "web" = .ok (stackWith []) := rfl
  have first : (stackWith []).declare (.provider one) ⟨[], []⟩
      = .ok (stackWith [one]) ⟨[], []⟩ := rfl
  have second : (stackWith [one]).declare (.provider other) ⟨[], []⟩
      = .ok (stackWith [one, other]) ⟨[], []⟩ := by
    refine Action.ofExcept_ok_iff.mpr ⟨?_, rfl⟩
    rw [addProvider, if_neg (by simpa [stackWith] using apart)]
    rfl
  exact ((Reached.begin made).declared first).declared second

theorem agrees {providers : List Provider} (known : ∀ one ∈ providers, one = plain ∨ one = europe) :
    (stackWith providers).Agrees := by
  constructor
  · intro one member other member' _
    rcases known one member with rfl | rfl <;> rcases known other member' with rfl | rfl <;> rfl
  · intro one member other member' _ v w stated stated'
    rcases known one member with rfl | rfl <;> rcases known other member' with rfl | rfl <;>
      simp_all [plain, europe]

/-- The version is required where the provider that states it comes last. -/
theorem plain_heard : (stackWith [europe, plain]).Reached
    ∧ (Plan.ofStack (stackWith [europe, plain])).requirement? "google"
      = some (.object [("source", .string "hashicorp/google"), ("version", .string "~> 5.0")]) := by
  refine ⟨reached europe plain (by decide), ?_⟩
  have agrees : (stackWith [europe, plain]).Agrees := agrees (by simp)
  have member : plain ∈ (stackWith [europe, plain]).providers := by simp [stackWith]
  have last : (stackWith [europe, plain]).IsLast plain := ⟨[europe], [], rfl, by simp⟩
  exact (Plan.version_kept_iff agrees member rfl).1.mpr ⟨plain, last, rfl, rfl⟩

/-- It is lost where the other one is registered after it. -/
theorem plain_unheard : (stackWith [plain, europe]).Reached ∧ (stackWith [plain, europe]).Agrees
    ∧ plain ∈ (stackWith [plain, europe]).providers
    ∧ (Plan.ofStack (stackWith [plain, europe])).requirement? "google"
      = some (.object [("source", .string "hashicorp/google")])
    ∧ (Plan.ofStack (stackWith [plain, europe])).requirement? "google"
      ≠ some (.object [("source", .string "hashicorp/google"), ("version", .string "~> 5.0")]) := by
  have last : (stackWith [plain, europe]).IsLast europe := ⟨[plain], [], rfl, by simp⟩
  have required : (Plan.ofStack (stackWith [plain, europe])).requirement? "google"
      = some (.object [("source", .string "hashicorp/google")]) :=
    Plan.requirement?_of_isLast last
  refine ⟨reached plain europe (by decide), agrees (by simp), by simp [stackWith], required, ?_⟩
  rw [required]
  simp

end Stack.Aliased

end StackSynth
