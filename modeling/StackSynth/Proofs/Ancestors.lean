import Mathlib
import StackSynth.FileSystem.Change
import StackSynth.Proofs.Resolve

/-!
# Ancestors — the directories that a path names

`Path.ancestors` cuts a path behind one of its components.  What is cut off the last time are
slashes and inner dots, which do not walk anywhere; so the parent of a child is walked like the
path that the child was made from.

* `Path.located_eq` — the components of a path, field by field;
* `Path.mem_ancestors` — what stands above a path is walked along a part of it;
* `FileSystem.Makes` — the places at which a path makes directories;
* `FileSystem.directoryOf_child` — the directory of a child is the path itself, to a walk.
-/

namespace StackSynth

namespace Bytes

/-! ## Joining what was split -/

theorem joinWith_append (sep : UInt8) {front back : List Bytes} (some : front ≠ [])
    (more : back ≠ []) :
    joinWith sep (front ++ back) = joinWith sep front ++ sep :: joinWith sep back := by
  induction front with
  | nil => exact absurd rfl some
  | cons field rest ih =>
      cases rest with
      | nil =>
          cases back with
          | nil => exact absurd rfl more
          | cons next back => rfl
      | cons next rest =>
          have step := ih (by simp)
          simp only [List.cons_append] at step ⊢
          rw [joinWith, step]
          · simp [joinWith]
          · simp

theorem joinWith_prefix (sep : UInt8) {front : List Bytes} (some : front ≠ []) (back : List Bytes) :
    joinWith sep front <+: joinWith sep (front ++ back) := by
  cases back with
  | nil => simp
  | cons next back =>
      rw [joinWith_append sep some (List.cons_ne_nil next back)]
      exact List.prefix_append _ _

theorem joinWith_concat_ne_nil (sep : UInt8) (front : List Bytes) {field : Bytes}
    (filled : field ≠ []) : joinWith sep (front ++ [field]) ≠ [] := by
  cases front with
  | nil => simpa [joinWith] using filled
  | cons first rest =>
      rw [joinWith_append sep (List.cons_ne_nil _ _) (List.cons_ne_nil _ _)]
      simp

theorem joinWith_splitOn (sep : UInt8) (bs : Bytes) : joinWith sep (splitOn sep bs) = bs := by
  induction bs with
  | nil => rfl
  | cons b bs ih =>
      obtain ⟨field, fields, known⟩ := List.exists_cons_of_ne_nil (splitOn_ne_nil sep bs)
      rw [known] at ih
      by_cases same : b = sep
      · subst same
        rw [splitOn, if_pos rfl, known, joinWith, ih]
        · rfl
        · simp
      · rw [splitOn_cons_ne same known]
        cases fields with
        | nil => exact congrArg (b :: ·) ih
        | cons next rest => exact congrArg (b :: ·) ih

theorem sep_not_mem_of_mem_splitOn {sep : UInt8} {bs field : Bytes}
    (member : field ∈ splitOn sep bs) : sep ∉ field := by
  induction bs generalizing field with
  | nil =>
      obtain rfl : field = [] := by simpa [splitOn] using member
      simp
  | cons b bs ih =>
      by_cases same : b = sep
      · rw [splitOn, if_pos same] at member
        rcases List.mem_cons.mp member with rfl | member
        · simp
        · exact ih member
      · obtain ⟨first, fields, known⟩ := List.exists_cons_of_ne_nil (splitOn_ne_nil sep bs)
        rw [splitOn_cons_ne same known] at member
        rcases List.mem_cons.mp member with rfl | member
        · have free := ih (known ▸ List.mem_cons_self)
          simp [Ne.symm same, free]
        · exact ih (known ▸ List.mem_cons_of_mem _ member)

theorem mem_of_mem_splitOn {sep : UInt8} {bs field : Bytes} (member : field ∈ splitOn sep bs)
    {x : UInt8} (inside : x ∈ field) : x ∈ bs := by
  induction bs generalizing field with
  | nil =>
      obtain rfl : field = [] := by simpa [splitOn] using member
      cases inside
  | cons b bs ih =>
      by_cases same : b = sep
      · rw [splitOn, if_pos same] at member
        rcases List.mem_cons.mp member with rfl | member
        · cases inside
        · exact List.mem_cons_of_mem b (ih member inside)
      · obtain ⟨first, fields, known⟩ := List.exists_cons_of_ne_nil (splitOn_ne_nil sep bs)
        rw [splitOn_cons_ne same known] at member
        rcases List.mem_cons.mp member with rfl | member
        · rcases List.mem_cons.mp inside with rfl | inside
          · exact List.mem_cons_self
          · exact List.mem_cons_of_mem b (ih (known ▸ List.mem_cons_self) inside)
        · exact List.mem_cons_of_mem b (ih (known ▸ List.mem_cons_of_mem first member) inside)

end Bytes

namespace Path

/-! ## Components of some fields -/

/-- What a path begins with before its first name: a root, or a leading dot. -/
def lead (p : Path) : List (Component × Nat) :=
  if p.isAbsolute then [(.root, 1)]
  else if (p.bytes.splitOn slash).head? = some [dot] then [(.current, 1)]
  else []

/-- The components of the first fields. -/
def locatedIn (p : Path) (front : List Bytes) : List (Component × Nat) :=
  p.lead ++ inner (place 0 front)

theorem isAbsolute_iff {p : Path} :
    p.isAbsolute = true ↔ p.bytes ≠ [] ∧ (p.bytes.splitOn slash).head? = some [] := by
  obtain ⟨bs⟩ := p
  cases bs with
  | nil => simp [isAbsolute]
  | cons b bs =>
      by_cases same : b = slash
      · simp [isAbsolute, same, Bytes.splitOn]
      · obtain ⟨field, fields, known⟩ := List.exists_cons_of_ne_nil (Bytes.splitOn_ne_nil slash bs)
        simp [isAbsolute, same, Bytes.splitOn_cons_ne same known]

theorem located_eq (p : Path) : p.located = p.locatedIn (p.bytes.splitOn slash) := by
  obtain ⟨field, fields, known⟩ := List.exists_cons_of_ne_nil (Bytes.splitOn_ne_nil slash p.bytes)
  unfold located locatedIn lead
  rw [known]
  simp only [place]
  by_cases absolute : p.isAbsolute = true
  · have first : field = [] := by simpa [known] using (isAbsolute_iff.mp absolute).2
    simp [absolute, first, inner, component?]
  · by_cases dotted : field = [dot]
    · simp [absolute, dotted, inner, component?]
    · simp [absolute, dotted, inner]

theorem inner_place (start : Nat) (fields : List Bytes) :
    (inner (place start fields)).map (·.1) = fields.filterMap component? := by
  induction fields generalizing start with
  | nil => rfl
  | cons field rest ih =>
      have others := ih (start + field.length + 1)
      unfold inner at others ⊢
      cases known : component? field <;> simp [place, known, others]

theorem components_eq (p : Path) :
    p.components = p.lead.map (·.1) ++ (p.bytes.splitOn slash).filterMap component? := by
  rw [components, located_eq, locatedIn, List.map_append, inner_place]

theorem place_append {front : List Bytes} (some : front ≠ []) (back : List Bytes) (start : Nat) :
    place start (front ++ back)
      = place start front ++ place (start + (Bytes.joinWith slash front).length + 1) back := by
  induction front generalizing start with
  | nil => exact absurd rfl some
  | cons field rest ih =>
      cases rest with
      | nil => simp [place, Bytes.joinWith]
      | cons next rest =>
          have step := ih (by simp) (start + field.length + 1)
          simp only [List.cons_append, place] at step ⊢
          rw [step]
          have length : (Bytes.joinWith slash (field :: next :: rest)).length
              = field.length + 1 + (Bytes.joinWith slash (next :: rest)).length := by
            rw [Bytes.joinWith]
            · simp only [List.length_append, List.length_cons]
              omega
            · simp
          rw [length, ← Nat.add_assoc, ← Nat.add_assoc]

/-- The last field adds its component, with the position behind all fields. -/
theorem locatedIn_concat (p : Path) (front : List Bytes) (field : Bytes) :
    p.locatedIn (front ++ [field]) = p.locatedIn front ++
      ((component? field).map fun c => (c, (Bytes.joinWith slash (front ++ [field])).length)).toList
    := by
  unfold locatedIn
  rw [List.append_assoc]
  congr 1
  cases front with
  | nil => cases known : component? field <;> simp [place, inner, known, Bytes.joinWith]
  | cons first rest =>
      rw [place_append (by simp), inner, List.filterMap_append]
      have length : (Bytes.joinWith slash (first :: rest ++ [field])).length
          = (Bytes.joinWith slash (first :: rest)).length + 1 + field.length := by
        rw [Bytes.joinWith_append slash (by simp) (by simp)]
        simp [Bytes.joinWith]
        omega
      rw [length]
      cases known : component? field <;> simp [place, inner, known]

/-! ## Cutting behind a component -/

/-- The path up to the component `c`. -/
def cut (p : Path) (c : Component × Nat) : Path :=
  ⟨p.bytes.take c.2⟩

/-- Steps that lead nowhere. -/
def Idle (steps : List Step) : Prop :=
  ∀ step ∈ steps, step = .stay

/-- `q` is `p` cut behind some of its fields, of which `front` are looked at. -/
structure CutIn (p : Path) (front : List Bytes) (q : Path) : Prop where
  some : q.bytes ≠ []
  initial : q.bytes <+: p.bytes
  absolute : q.isAbsolute = p.isAbsolute
  steps : q.steps <+: front.filterMap step?

theorem step?_of_component?_eq_none {field : Bytes} (none : component? field = none) :
    Idle (step? field).toList := by
  unfold component? at none
  split at none
  · rename_i nothing
    rcases Bool.or_eq_true _ _ ▸ nothing with empty | dotted
    · have same : field = [] := by simpa using empty
      simp [same, step?_nil, Idle]
    · have same : field = [dot] := by simpa using dotted
      simp [same, step?, Idle]
  · split at none <;> cases none

theorem isAbsolute_eq_of_prefix {p q : Path} (some : q.bytes ≠ []) (initial : q.bytes <+: p.bytes) :
    q.isAbsolute = p.isAbsolute := by
  obtain ⟨rest, same⟩ := initial
  obtain ⟨b, bs, known⟩ := List.exists_cons_of_ne_nil some
  simp [isAbsolute, ← same, known]

/-- Cut behind the last of some fields, a path has the steps of these. -/
theorem cutIn_of_fields {p : Path} {front back : List Bytes} {field : Bytes} {c : Component}
    (fields : p.bytes.splitOn slash = front ++ field :: back) (known : component? field = some c) :
    CutIn p (front ++ [field])
        (p.cut (c, (Bytes.joinWith slash (front ++ [field])).length))
      ∧ (p.cut (c, (Bytes.joinWith slash (front ++ [field])).length)).steps
        = (front ++ [field]).filterMap step? := by
  have whole : p.bytes = Bytes.joinWith slash ((front ++ [field]) ++ back) := by
    rw [← Bytes.joinWith_splitOn slash p.bytes, fields]
    simp
  -- What the path begins with are the fields in front, joined again.
  have initial : Bytes.joinWith slash (front ++ [field]) <+: p.bytes :=
    whole ▸ Bytes.joinWith_prefix slash (by simp) back
  have cutBytes : (p.cut (c, (Bytes.joinWith slash (front ++ [field])).length)).bytes
      = Bytes.joinWith slash (front ++ [field]) :=
    (List.prefix_iff_eq_take.mp initial).symm
  have free : ∀ f ∈ front ++ [field], slash ∉ f := by
    intro f member
    have among : f ∈ p.bytes.splitOn slash := by
      rw [fields, ← List.concat_append, List.concat_eq_append]
      exact List.mem_append_left _ member
    exact Bytes.sep_not_mem_of_mem_splitOn among
  have steps : (p.cut (c, (Bytes.joinWith slash (front ++ [field])).length)).steps
      = (front ++ [field]).filterMap step? := by
    rw [Path.steps, cutBytes, Bytes.splitOn_joinWith (by simp) free]
  have filled : field ≠ [] := by
    rintro rfl
    simp [component?] at known
  have some : Bytes.joinWith slash (front ++ [field]) ≠ [] :=
    Bytes.joinWith_concat_ne_nil slash front filled
  rw [← cutBytes] at some initial
  exact ⟨⟨some, initial, isAbsolute_eq_of_prefix some initial, [], by rw [steps, List.append_nil]⟩,
    steps⟩

theorem CutIn.mono {p q : Path} {front : List Bytes} (cut : CutIn p front q) (field : Bytes) :
    CutIn p (front ++ [field]) q := by
  refine ⟨cut.some, cut.initial, cut.absolute, cut.steps.trans ?_⟩
  rw [List.filterMap_append]
  exact List.prefix_append _ _

/-- The component in front of all fields cuts a path behind its first field. -/
theorem cutIn_of_lead {p : Path} {field : Bytes} {back : List Bytes} {c : Component × Nat}
    (fields : p.bytes.splitOn slash = field :: back) (member : c ∈ p.lead) :
    CutIn p [field] (p.cut c) ∧ ∃ idle, Idle idle ∧ [field].filterMap step? = (p.cut c).steps ++ idle
    := by
  unfold lead at member
  split at member
  · rename_i absolute
    -- An absolute path begins with an empty field, which leads nowhere.
    obtain rfl : c = (.root, 1) := by simpa using member
    obtain ⟨some, first⟩ := isAbsolute_iff.mp absolute
    obtain ⟨b, bs, known⟩ := List.exists_cons_of_ne_nil some
    obtain rfl : b = slash := by simpa [isAbsolute, known] using absolute
    obtain rfl : field = [] := by simpa [fields] using first
    have cutBytes : (p.cut (.root, 1)).bytes = [slash] := by simp [cut, known]
    have steps : (p.cut (.root, 1)).steps = [] := by
      rw [Path.steps, cutBytes]
      rfl
    refine ⟨⟨by simp [cutBytes], by simp [cutBytes, known], ?_, by simp [steps]⟩, [], ?_, ?_⟩
    · simp [isAbsolute, cutBytes, known]
    · simp [Idle]
    · simp [steps, step?_nil]
  · split at member
    · rename_i relative dotted
      -- Another path with a lead begins with a dot, and the dot is its first field.
      obtain rfl : c = (.current, 1) := by simpa using member
      obtain rfl : field = [dot] := by simpa [fields] using dotted
      have whole : p.bytes = Bytes.joinWith slash ([dot] :: back) := by
        rw [← fields, Bytes.joinWith_splitOn]
      obtain ⟨rest, known⟩ : ∃ rest, p.bytes = dot :: rest := by
        cases back with
        | nil => exact ⟨[], whole⟩
        | cons next back =>
            rw [Bytes.joinWith] at whole
            · exact ⟨_, whole⟩
            · simp
      have cutBytes : (p.cut (.current, 1)).bytes = [dot] := by simp [cut, known]
      have steps : (p.cut (.current, 1)).steps = [.stay] := by
        rw [Path.steps, cutBytes]
        rfl
      refine ⟨⟨by simp [cutBytes], by simp [cutBytes, known], ?_, by simp [steps, step?]⟩, [], ?_, ?_⟩
      · simp [isAbsolute, cutBytes, known]
      · simp [Idle]
      · simp [steps, step?]
    · cases member

/-- Every component of some fields cuts the path behind one of them. -/
theorem cutIn_of_mem {p : Path} {front back : List Bytes} {c : Component × Nat} (some : front ≠ [])
    (fields : p.bytes.splitOn slash = front ++ back) (member : c ∈ p.locatedIn front) :
    CutIn p front (p.cut c) := by
  induction front using List.reverseRecOn generalizing back with
  | nil => exact absurd rfl some
  | append_singleton front field ih =>
      rw [locatedIn_concat] at member
      rw [List.append_assoc, List.singleton_append] at fields
      rcases List.mem_append.mp member with member | member
      · cases front with
        | nil => exact (cutIn_of_lead fields (by simpa [locatedIn, place, inner] using member)).1
        | cons first rest => exact (ih (by simp) fields member).mono field
      · cases known : component? field with
        | none => simp [known] at member
        | some component =>
            obtain rfl : c = _ := by simpa [known] using member
            exact (cutIn_of_fields fields known).1

/-- Behind the last component nothing is walked. -/
theorem idle_behind_last {p : Path} {front back : List Bytes} {c : Component × Nat}
    (some : front ≠ []) (fields : p.bytes.splitOn slash = front ++ back)
    (last : (p.locatedIn front).getLast? = Option.some c) :
    ∃ idle, Idle idle ∧ front.filterMap step? = (p.cut c).steps ++ idle := by
  induction front using List.reverseRecOn generalizing back with
  | nil => exact absurd rfl some
  | append_singleton front field ih =>
      rw [locatedIn_concat] at last
      rw [List.append_assoc, List.singleton_append] at fields
      cases known : component? field with
      | some component =>
          obtain rfl : _ = c := by simpa [known] using last
          exact ⟨[], by simp [Idle], by simp [(cutIn_of_fields fields known).2]⟩
      | none =>
          simp only [known, Option.map_none, Option.toList_none, List.append_nil] at last
          -- The last field is no component, so that the last component is in front of it.
          cases front with
          | nil =>
              have member : c ∈ p.lead := by
                simpa [locatedIn, place, inner] using List.mem_of_getLast? last
              exact (cutIn_of_lead fields member).2
          | cons first rest =>
              obtain ⟨idle, still, same⟩ := ih (by simp) fields last
              refine ⟨idle ++ (step? field).toList, ?_, ?_⟩
              · intro step member
                rcases List.mem_append.mp member with member | member
                · exact still step member
                · exact step?_of_component?_eq_none known step member
              · rw [List.filterMap_append, same, List.append_assoc]
                congr 1

/-! ## Children -/

/-- The fields of a child are those of the path, without an empty last one, and the name. -/
theorem exists_fields_child {p : Path} (some : p.isEmpty = false) (name : Name) :
    ∃ front, front ≠ [] ∧ (p.child name).bytes.splitOn slash = front ++ [name.bytes]
      ∧ (p.bytes.splitOn slash = front ∨ p.bytes.splitOn slash = front ++ [[]]) := by
  have alone := Bytes.splitOn_of_not_mem name.slash_not_mem
  have bytes := child_bytes p name
  rw [if_neg (by simp [some])] at bytes
  split at bytes
  · rename_i last
    obtain ⟨front, same⟩ := exists_front_of_last (by simpa using last)
    refine ⟨front.splitOn slash, Bytes.splitOn_ne_nil _ _, ?_, Or.inr ?_⟩
    · rw [bytes, same, List.append_assoc, List.singleton_append, Bytes.splitOn_append_sep, alone]
    · rw [same, Bytes.splitOn_append_sep]
      rfl
  · refine ⟨p.bytes.splitOn slash, Bytes.splitOn_ne_nil _ _, ?_, Or.inl rfl⟩
    rw [bytes, Bytes.splitOn_append_sep, alone]

theorem component?_name (name : Name) : component? name.bytes = some (.name name.bytes) := by
  simp [component?, name.bytes_ne_nil, name.bytes_ne_dot, name.bytes_ne_dots]

/-- The ancestors of a path whose last field is a name are cut behind the fields before it. -/
theorem ancestors_eq {p : Path} {front : List Bytes} {name : Name}
    (fields : p.bytes.splitOn slash = front ++ [name.bytes]) :
    p.ancestors = (p.locatedIn front).reverse.map p.cut
      ++ (if p.isAbsolute then [] else [⟨[]⟩]) := by
  unfold ancestors
  rw [located_eq, fields, locatedIn_concat, component?_name]
  simp [cut]

/-- Some component is there before the last name, unless the name is the whole path. -/
theorem locatedIn_ne_nil {p : Path} {front back : List Bytes} (some : front ≠ [])
    (filled : p.bytes ≠ []) (fields : p.bytes.splitOn slash = front ++ back) :
    p.locatedIn front ≠ [] := by
  obtain ⟨field, rest, rfl⟩ := List.exists_cons_of_ne_nil some
  by_cases absolute : p.isAbsolute = true
  · simp [locatedIn, lead, absolute]
  · by_cases dotted : field = [dot]
    · simp [locatedIn, lead, absolute, fields, dotted]
    · have nonempty : field ≠ [] := fun none =>
        absolute (isAbsolute_iff.mpr ⟨filled, by simp [fields, none]⟩)
      cases known : component? field with
      | some component => simp [locatedIn, place, inner, known]
      | none =>
          simp only [component?, List.isEmpty_eq_false_iff.mpr nonempty, Bool.false_or,
            beq_iff_eq, dotted, if_false] at known
          split at known <;> cases known

theorem child_bytes_ne_nil (p : Path) (name : Name) : (p.child name).bytes ≠ [] := by
  have filled := p.child_not_empty name
  simpa [isEmpty] using filled

theorem child_of_isEmpty {p : Path} (empty : p.isEmpty = true) (name : Name) :
    (p.child name).bytes = name.bytes := by
  rw [child_bytes, if_pos empty]

theorem ancestors_child_of_isEmpty {p : Path} (empty : p.isEmpty = true) (name : Name) :
    (p.child name).ancestors = [⟨[]⟩] := by
  have none : p.bytes = [] := by simpa [isEmpty] using empty
  have relative : (p.child name).isAbsolute = false := by
    rw [child_isAbsolute]
    simp [isAbsolute, none]
  have fields : (p.child name).bytes.splitOn slash = [] ++ [name.bytes] := by
    rw [child_of_isEmpty empty, Bytes.splitOn_of_not_mem name.slash_not_mem]
    rfl
  rw [ancestors_eq fields]
  simp [locatedIn, lead, place, inner, relative, fields, name.bytes_ne_dot]

/-- What stands above a path is walked along a part of it. -/
theorem mem_ancestors {p q : Path} (member : q ∈ p.ancestors) :
    q.steps <+: p.steps ∧ q.isAbsolute = p.isAbsolute := by
  have some := Bytes.splitOn_ne_nil slash p.bytes
  have fields : p.bytes.splitOn slash = p.bytes.splitOn slash ++ [] := by simp
  -- The cuts are walked along a part, and so is the empty path at the end.
  have cuts : ∀ c ∈ p.located, (p.cut c).steps <+: p.steps ∧ (p.cut c).isAbsolute = p.isAbsolute := by
    intro c known
    rw [located_eq] at known
    have cut := cutIn_of_mem some fields known
    exact ⟨cut.steps, cut.absolute⟩
  unfold ancestors at member
  split at member
  · cases member
  · rename_i last above reversed
    rcases List.mem_append.mp member with member | member
    · obtain ⟨c, known, rfl⟩ := List.mem_map.mp member
      refine cuts c ?_
      rw [← List.mem_reverse, reversed]
      exact List.mem_cons_of_mem last known
    · split at member
      · cases member
      · rename_i relative
        obtain rfl : q = ⟨[]⟩ := by simpa using member
        have nothing : Path.steps ⟨[]⟩ = [] := rfl
        simp only [nothing, List.nil_prefix, true_and]
        simpa [isAbsolute] using relative

end Path

namespace FileSystem

theorem enter_idle (fs : FileSystem) (lenient : Bool) (links : Nat) (here : Location)
    (steps : List Path.Step) {idle : List Path.Step} (still : Path.Idle idle) :
    enter fs lenient links here (steps ++ idle) = enter fs lenient links here steps := by
  induction idle using List.reverseRecOn with
  | nil => rw [List.append_nil]
  | append_singleton idle step ih =>
      obtain rfl : step = .stay := still step (by simp)
      rw [← List.append_assoc, enter_stay]
      exact ih fun other member => still other (List.mem_append_left _ member)

/-- A lenient walk of `p` goes down to `l`, which is where it would make a directory. -/
def Makes (fs : FileSystem) (p : Path) (l : Location) : Prop :=
  ∃ front name back left here, p.steps = front ++ .down name :: back ∧ l = name :: here
    ∧ enter fs true linkLimit (origin fs.current p) front = .ok (left, here)

theorem Makes.of_initial {fs : FileSystem} {p q : Path} {l : Location} (makes : Makes fs q l)
    (initial : q.steps <+: p.steps) (absolute : q.isAbsolute = p.isAbsolute) : Makes fs p l := by
  obtain ⟨front, name, back, left, here, steps, same, through⟩ := makes
  obtain ⟨rest, whole⟩ := initial
  refine ⟨front, name, back ++ rest, left, here, ?_, same, ?_⟩
  · rw [← whole, steps]
    simp
  · simpa [origin, absolute] using through

/-- What the directory of a child is to a walk: the path that the child was made from. -/
structure LeadsLike (q p : Path) : Prop where
  filled : q.isEmpty = false
  reach : ∀ fs lenient, FileSystem.reach fs lenient q = FileSystem.reach fs lenient p
  makes : ∀ fs l, Makes fs q l → Makes fs p l

/-- A child of the empty path is in the current directory. -/
theorem directoryOf_child_of_isEmpty {p : Path} (empty : p.isEmpty = true) (name : Name) :
    directoryOf (p.child name) = .ok (.ofString ".") ∧ LeadsLike (.ofString ".") p := by
  have none : p.bytes = [] := by simpa [Path.isEmpty] using empty
  have dotted : Path.steps (Path.ofString ".") = [.stay] := by decide +kernel
  refine ⟨?_, by decide +kernel, ?_, ?_⟩
  · simp [directoryOf, Path.parent?, Path.ancestors_child_of_isEmpty empty, Path.isEmpty]
  · intro fs lenient
    have relative : (Path.ofString ".").isAbsolute = false := by decide +kernel
    have still : p.steps = [] := by
      rw [Path.steps, none]
      rfl
    have relative' : p.isAbsolute = false := by simp [Path.isAbsolute, none]
    simp [FileSystem.reach, origin, dotted, relative, relative', still, enter]
  · rintro fs l ⟨front, name, back, left, here, steps, -⟩
    have member : Path.Step.down name ∈ (Path.ofString ".").steps := by simp [steps]
    simp [dotted] at member

/-- The directory of another child is a part of its path, which lacks none of the steps of `p` but
such as lead nowhere. -/
theorem directoryOf_child_of_filled {p : Path} (filled : p.isEmpty = false) (name : Name) :
    ∃ q, directoryOf (p.child name) = .ok q ∧ LeadsLike q p ∧ q.bytes <+: (p.child name).bytes := by
  obtain ⟨front, some, fields, -⟩ := Path.exists_fields_child filled name
  have steps : front.filterMap Path.step? = p.steps := by
    have both := Path.steps_child p name
    rw [Path.steps, fields, List.filterMap_append] at both
    simpa using both
  -- The directory is cut behind the last component in front of the name.
  have present := Path.locatedIn_ne_nil some (p.child_bytes_ne_nil name) fields
  have last := List.getLast?_eq_some_getLast present
  generalize (Path.locatedIn (p.child name) front).getLast present = c at last
  have cut := Path.cutIn_of_mem some fields (List.mem_of_getLast? last)
  obtain ⟨idle, still, same⟩ := Path.idle_behind_last some fields last
  have nonempty : ((p.child name).cut c).isEmpty = false := by
    simpa [Path.isEmpty] using cut.some
  have absolute : ((p.child name).cut c).isAbsolute = p.isAbsolute := by
    rw [cut.absolute, Path.child_isAbsolute]
  refine ⟨(p.child name).cut c, ?_, ⟨nonempty, ?_, ?_⟩, cut.initial⟩
  · have head : (Path.locatedIn (p.child name) front).reverse.head? = Option.some c := by
      rw [List.head?_reverse, last]
    obtain ⟨above, known⟩ := List.head?_eq_some_iff.mp head
    rw [directoryOf, Path.parent?, Path.ancestors_eq fields, known]
    simp [nonempty]
  · intro fs lenient
    rw [FileSystem.reach, FileSystem.reach, ← steps, same, enter_idle _ _ _ _ _ still]
    simp [origin, absolute]
  · exact fun fs l makes => makes.of_initial ⟨idle, by rw [← steps, same]⟩ absolute

theorem directoryOf_child (p : Path) (name : Name) :
    ∃ q, directoryOf (p.child name) = .ok q ∧ LeadsLike q p
      ∧ (WellSpelled (p.child name) → WellSpelled q) := by
  cases empty : p.isEmpty with
  | true =>
      obtain ⟨told, like⟩ := directoryOf_child_of_isEmpty empty name
      exact ⟨_, told, like, fun _ => ⟨by decide +kernel, by decide +kernel⟩⟩
  | false =>
      obtain ⟨q, told, like, initial⟩ := directoryOf_child_of_filled empty name
      exact ⟨q, told, like, fun ⟨zero, short⟩ =>
        ⟨fun member => zero (initial.subset member), Nat.lt_of_le_of_lt initial.length_le short⟩⟩

end FileSystem
end StackSynth
