import StackSynth.Proofs.Placing
import StackSynth.Proofs.Straight

/-!
# Sparing — what changes only below one place

An action that works below the place of a path spares everything else, however it ends, if no
symbolic link is there.  For links decide where a path leads, and all that are there are outside,
so that they stay: whoever gets to the place later got to the same place before.

* `FileSystem.Kept` — nothing has changed but in an area, except for new directories;
* `FileSystem.Spares` — the changes of an action, with `Spares.trans` and `Spares.append`, and one
  lemma for each change of the map below;
* `FileSystem.createAll_spares`, `placeFile_spares`, `placeAtomically_spares`,
  `removeAll_spares` — the actions that there are.
-/

namespace StackSynth
namespace FileSystem

variable {fs mid after : FileSystem} {p q : Path} {names : List Name} {root l : Location}

/-! ## Places -/

/-- No link stands at `base` or below. -/
def Linkless (fs : FileSystem) (base : Location) : Prop :=
  ∀ l target, base <:+ l → fs.get? l ≠ some (.link target)

/-- No link stands where the path leads, or would lead, or below. -/
def Unlinked (fs : FileSystem) (p : Path) : Prop :=
  ∀ left root, fs.reach true p = .ok (left, root) → Linkless fs root

/-- A place below the one that the path and then the names lead to. -/
def Inside (fs : FileSystem) (p : Path) (names : List Name) (l : Location) : Prop :=
  ∃ left root, fs.reach true p = .ok (left, root) ∧ Location.Below (names.reverse ++ root) l

/-- A place on the way there, which the path passes or the first of the names lead to. -/
def Toward (fs : FileSystem) (p : Path) (names : List Name) (l : Location) : Prop :=
  Makes fs p l ∨ ∃ left root up rest, fs.reach true p = .ok (left, root) ∧ names = up ++ rest
    ∧ up ≠ [] ∧ l = up.reverse ++ root

/-- Outside an area everything is as it was, except for directories that are new on the way. -/
def Kept (area way : Location → Prop) (fs after : FileSystem) : Prop :=
  ∀ l, ¬ area l → after.get? l = fs.get? l
    ∨ fs.get? l = none ∧ after.get? l = some .directory ∧ way l

theorem Linkless.within {base : Location} (linkless : Linkless fs base) (within : base <:+ l) :
    Linkless fs l :=
  fun m target deeper => linkless m target (within.trans deeper)

theorem Linkless.enter {base here : Location} (linkless : Linkless fs base) (within : base <:+ here)
    {lenient : Bool} {links left : Nat}
    (through : enter fs lenient links here (names.map .down) = .ok (left, l)) :
    l = names.reverse ++ here := by
  refine (enter_down (fun up rest target _ _ => ?_) through).2.1
  exact linkless _ target (within.trans (List.suffix_append up.reverse here))

theorem Inside.of_append {more : List Name} (inside : Inside fs p (names ++ more) l) :
    Inside fs p names l := by
  obtain ⟨left, root, reached, below⟩ := inside
  refine ⟨left, root, reached, below.trans_suffix ?_⟩
  rw [List.reverse_append, List.append_assoc]
  exact List.suffix_append more.reverse _

theorem toward_nil : Toward fs p [] l ↔ Makes fs p l := by
  constructor
  · rintro (makes | ⟨-, -, up, rest, -, parts, some, -⟩)
    · exact makes
    · exact absurd (List.append_eq_nil_iff.mp parts.symm).1 some
  · exact Or.inl

/-- What is on the way further down is on the way, or there already. -/
theorem Toward.of_append {more : List Name} (toward : Toward fs p (names ++ more) l) :
    Toward fs p names l ∨ Inside fs p names l := by
  rcases toward with makes | ⟨left, root, up, rest, reached, parts, some, rfl⟩
  · exact Or.inl (Or.inl makes)
  -- The part on the way ends behind all of `names`, or somewhere in them.
  rcases List.append_eq_append_iff.mp parts with ⟨deeper, rfl, -⟩ | ⟨between, rfl, -⟩
  · cases deeper with
    | nil => exact Or.inl (Or.inr ⟨left, root, names, [], reached, by simp, by simpa using some, by simp⟩)
    | cons next deeper =>
        refine Or.inr ⟨left, root, reached, Location.below_iff.mpr ⟨(next :: deeper).reverse, by simp, ?_⟩⟩
        rw [List.reverse_append, List.append_assoc]
  · exact Or.inl (Or.inr ⟨left, root, up, between, reached, rfl, some, rfl⟩)

/-- Where a path further down leads. -/
theorem Unlinked.reach_descend (unlinked : Unlinked fs p) {lenient : Bool} {left : Nat}
    (reached : fs.reach lenient (p.descend names) = .ok (left, l)) :
    ∃ links root, fs.reach lenient p = .ok (links, root) ∧ l = names.reverse ++ root := by
  obtain ⟨⟨links, root⟩, first⟩ := reach_of_descend reached
  have lax : fs.reach true p = .ok (links, root) := by
    cases lenient with
    | true => exact first
    | false => exact enter_lenient first
  rw [FileSystem.reach_descend, first] at reached
  exact ⟨links, root, first, (unlinked links root lax).enter (List.suffix_refl root) reached⟩

/-- Whatever a path further down makes is on the way there. -/
theorem Unlinked.toward (unlinked : Unlinked fs p) (makes : Makes fs (p.descend names) l) :
    Toward fs p names l := by
  rcases makes.of_descend with own | ⟨⟨left, root⟩, up, name, rest, links, here, reached, rfl, rfl, through⟩
  · exact Or.inl own
  · obtain rfl := (unlinked left root reached).enter (List.suffix_refl root) through
    exact Or.inr ⟨left, root, up ++ [name], rest, reached, by simp, by simp, by simp⟩

/-! ## Links that stay -/

/-- The same links stand at the same places. -/
structure SameLinks (fs after : FileSystem) : Prop where
  current : after.current = fs.current
  links : ∀ l target, after.get? l = some (.link target) ↔ fs.get? l = some (.link target)

/-- Past a place without a link, a walk goes on below it. -/
theorem enter_past {links : Nat} {here : Location} {name : Name} {rest : List Path.Step}
    {at' : Nat × Location} (other : ∀ target, fs.get? (name :: here) ≠ some (.link target))
    (through : enter fs true links here (.down name :: rest) = .ok at') :
    enter fs true links (name :: here) rest = .ok at' := by
  rw [enter] at through
  split at through
  · cases through
  · cases stands : fs.get? (name :: here) with
    | none => simpa [stands] using through
    | some object =>
        cases object with
        | directory => simpa [stands] using through
        | link target => exact absurd stands (other target)
        | file content mode => simp [stands] at through
        | pipe => simp [stands] at through

/-- Two walks that get through get to the same place if the links are the same. -/
theorem SameLinks.enter (same : SameLinks fs after) {links : Nat} {here : Location}
    {steps : List Path.Step} {a b : Nat × Location}
    (through : enter fs true links here steps = .ok a)
    (through' : enter after true links here steps = .ok b) : a = b := by
  have unlinked : ∀ {l : Location}, (∀ target, fs.get? l ≠ some (.link target)) →
      ∀ target, after.get? l ≠ some (.link target) := fun other target stands =>
    other target ((same.links _ target).mp stands)
  -- By the cases of the first walk: the second one passes whatever it passes, and follows its links.
  fun_induction FileSystem.enter fs true links here steps with
  | case1 links here =>
      rw [FileSystem.enter] at through'
      exact Except.ok.inj (through.symm.trans through')
  | case2 links here rest ih =>
      rw [FileSystem.enter] at through'
      exact ih through through'
  | case3 links here rest ih =>
      rw [FileSystem.enter] at through'
      exact ih through through'
  | case4 links here name rest long => cases through
  | case5 links here name rest long stands lax ih =>
      exact ih through (enter_past (unlinked (by simp [stands])) through')
  | case6 links here name rest long stands strict => exact absurd rfl strict
  | case7 links here name rest long stands ih =>
      exact ih through (enter_past (unlinked (by simp [stands])) through')
  | case8 here name rest long target stands => cases through
  | case9 here name rest long target stands links ih =>
      have stands' := (same.links _ target).mpr stands
      refine ih through ?_
      simpa [FileSystem.enter, long, stands'] using through'
  | case10 links here name rest long object notDir notLink stands => cases through

/-! ## Sparing -/

/-- Nothing has changed but below where the path and then the names lead, except for directories
that are new on the way, and no link is new.  Names are listed as before where none of this is. -/
structure Spares (p : Path) (names : List Name) (fs after : FileSystem) : Prop where
  current : after.current = fs.current
  kept : Kept (Inside fs p names) (Toward fs p names) fs after
  linkless : ∀ left root, fs.reach true p = .ok (left, root) → Linkless after root
  listed : ∀ d, (∀ name, ¬ Inside fs p names (name :: d)) →
    (∀ name, fs.get? (name :: d) = none → after.get? (name :: d) = none) →
    after.children d = fs.children d

namespace Spares

theorem refl (unlinked : Unlinked fs p) : Spares p names fs fs where
  current := rfl
  kept := fun _ _ => Or.inl rfl
  linkless := unlinked
  listed := fun _ _ _ => rfl

/-- Where the path leads nowhere, directories were added and nothing else. -/
theorem grown (spares : Spares p names fs after) {fault : Fault}
    (nowhere : fs.reach true p = .error fault) : Grown fs after := by
  have outside : ∀ l, ¬ Inside fs p names l := by
    rintro l ⟨left, root, reached, -⟩
    rw [nowhere] at reached
    cases reached
  refine ⟨⟨spares.current, ?_⟩, ?_⟩
  · intro l object stands
    rcases spares.kept l (outside l) with same | ⟨nothing, -⟩
    · exact same.trans stands
    · rw [nothing] at stands
      cases stands
  · intro l object nothing stands
    rcases spares.kept l (outside l) with same | ⟨-, directory, -⟩
    · rw [same, nothing] at stands
      cases stands
    · exact (Option.some.inj (directory.symm.trans stands)).symm

/-- Where the path leads somewhere, all links stay. -/
theorem sameLinks (unlinked : Unlinked fs p) (spares : Spares p names fs after) {left : Nat}
    (reached : fs.reach true p = .ok (left, root)) : SameLinks fs after where
  current := spares.current
  links := by
    intro l target
    by_cases inside : Inside fs p names l
    · obtain ⟨links, base, again, below⟩ := inside
      obtain rfl := reach_unique again reached
      have within : root <:+ l := (List.suffix_append names.reverse root).trans below.1
      exact ⟨fun stands => absurd stands (spares.linkless left root reached l target within),
        fun stands => absurd stands (unlinked left root reached l target within)⟩
    · rcases spares.kept l inside with same | ⟨nothing, directory, -⟩
      · rw [same]
      · rw [nothing, directory]
        exact ⟨nofun, nofun⟩

/-- Whoever gets through later gets where one got before. -/
theorem enter_back (unlinked : Unlinked fs p) (spares : Spares p names fs after)
    {front back : List Path.Step} (parts : p.steps = front ++ back) {at' : Nat × Location}
    (through : enter after true linkLimit (origin after.current p) front = .ok at') :
    enter fs true linkLimit (origin fs.current p) front = .ok at' := by
  rw [spares.current] at through
  -- If the path leads nowhere there are new directories only, which a lenient walk does not notice.
  cases reached : fs.reach true p with
  | error fault => rwa [enter_grown (spares.grown reached)] at through
  | ok place =>
      have sameLinks := spares.sameLinks unlinked reached
      rw [reach, parts, enter_append] at reached
      cases first : enter fs true linkLimit (origin fs.current p) front with
      | error fault => simp [first, Except.bind] at reached
      | ok there => rw [sameLinks.enter first through]

theorem reach_back (unlinked : Unlinked fs p) (spares : Spares p names fs after)
    {at' : Nat × Location} (reached : after.reach true p = .ok at') :
    fs.reach true p = .ok at' :=
  spares.enter_back unlinked (List.append_nil _).symm reached

theorem unlinked_after (unlinked : Unlinked fs p) (spares : Spares p names fs after) :
    Unlinked after p :=
  fun left root reached => spares.linkless left root (spares.reach_back unlinked reached)

theorem inside_back (unlinked : Unlinked fs p) (spares : Spares p names fs after)
    {others : List Name} (inside : Inside after p others l) : Inside fs p others l := by
  obtain ⟨left, root, reached, below⟩ := inside
  exact ⟨left, root, spares.reach_back unlinked reached, below⟩

theorem makes_back (unlinked : Unlinked fs p) (spares : Spares p names fs after)
    (makes : Makes after p l) : Makes fs p l := by
  obtain ⟨front, name, back, left, here, parts, same, through⟩ := makes
  exact ⟨front, name, back, left, here, parts, same, spares.enter_back unlinked parts through⟩

theorem toward_back (unlinked : Unlinked fs p) (spares : Spares p names fs after)
    {others : List Name} (toward : Toward after p others l) : Toward fs p others l := by
  rcases toward with makes | ⟨left, root, up, rest, reached, parts⟩
  · exact Or.inl (spares.makes_back unlinked makes)
  · exact Or.inr ⟨left, root, up, rest, spares.reach_back unlinked reached, parts⟩

theorem trans (unlinked : Unlinked fs p) (first : Spares p names fs mid)
    (second : Spares p names mid after) : Spares p names fs after where
  current := second.current.trans first.current
  kept := by
    intro l outside
    have outside' : ¬ Inside mid p names l := fun inside =>
      outside (first.inside_back unlinked inside)
    rcases second.kept l outside' with same | ⟨nothing, directory, toward⟩
    · rw [same]
      exact first.kept l outside
    · rcases first.kept l outside with same | ⟨-, directory', -⟩
      · exact Or.inr ⟨same.symm.trans nothing, directory, first.toward_back unlinked toward⟩
      · rw [nothing] at directory'
        cases directory'
  linkless := by
    intro left root reached l target within stands
    by_cases inside : Inside mid p names l
    · obtain ⟨links, base, again, below⟩ := inside
      obtain ⟨-, rfl⟩ := Prod.mk.inj
        (Except.ok.inj (reached.symm.trans (first.reach_back unlinked again)))
      exact second.linkless links root again l target within stands
    · rcases second.kept l inside with same | ⟨-, directory, -⟩
      · exact first.linkless left root reached l target within (same.symm.trans stands)
      · rw [directory] at stands
        cases stands
  listed := by
    intro d outside still
    have outside' : ∀ name, ¬ Inside mid p names (name :: d) := fun name inside =>
      outside name (first.inside_back unlinked inside)
    -- What is new in between would be there at the end.
    have none_mid : ∀ name, fs.get? (name :: d) = none → mid.get? (name :: d) = none := by
      intro name nothing
      rcases second.kept _ (outside' name) with same | ⟨nothing', -⟩
      · exact same.symm.trans (still name nothing)
      · exact nothing'
    have none_after : ∀ name, mid.get? (name :: d) = none → after.get? (name :: d) = none := by
      intro name nothing
      rcases first.kept _ (outside name) with same | ⟨-, directory, -⟩
      · exact still name (same.symm.trans nothing)
      · rw [nothing] at directory
        cases directory
    exact (second.listed d outside' none_after).trans (first.listed d outside none_mid)

/-- It is enough to spare what is not further down. -/
theorem append {more : List Name} (spares : Spares p (names ++ more) fs after) :
    Spares p names fs after where
  current := spares.current
  kept := by
    intro l outside
    rcases spares.kept l fun inside => outside inside.of_append with same | ⟨nothing, directory, toward⟩
    · exact Or.inl same
    · exact Or.inr ⟨nothing, directory, toward.of_append.resolve_right outside⟩
  linkless := spares.linkless
  listed := fun d outside => spares.listed d fun name inside => outside name inside.of_append

theorem whole (spares : Spares p names fs after) : Spares p [] fs after := by
  have deeper : Spares p ([] ++ names) fs after := spares
  exact deeper.append

section Below

variable {left : Nat} {base : Location} (spares : Spares p names fs mid)
  (reached : fs.reach true p = .ok (left, root)) (inside : Location.Below (names.reverse ++ root) base)

include spares reached

/-- After that, everything below may change, as long as no link comes there. -/
theorem below (current : after.current = mid.current)
    (same : ∀ l, ¬ Location.Below (names.reverse ++ root) l → after.get? l = mid.get? l)
    (links : Linkless mid root → Linkless after root)
    (children : ∀ d, (∀ name, ¬ Location.Below (names.reverse ++ root) (name :: d)) →
      after.children d = mid.children d) : Spares p names fs after where
  current := current.trans spares.current
  kept := by
    intro l outside
    rw [same l fun below => outside ⟨left, root, reached, below⟩]
    exact spares.kept l outside
  linkless := by
    intro links' root' again
    obtain ⟨rfl, rfl⟩ := Prod.mk.inj (Except.ok.inj (reached.symm.trans again))
    exact links (spares.linkless left root reached)
  listed := by
    intro d outside still
    have outside' : ∀ name, ¬ Location.Below (names.reverse ++ root) (name :: d) :=
      fun name below => outside name ⟨left, root, reached, below⟩
    rw [children d outside']
    refine spares.listed d outside fun name nothing => ?_
    rw [← same _ (outside' name)]
    exact still name nothing

include inside

/-- A change within a place below spares the rest, if no link comes there. -/
theorem changed (current : after.current = mid.current)
    (objects : ∀ l, after.get? l = mid.get? l
      ∨ base <:+ l ∧ ∀ target, after.get? l ≠ some (.link target))
    (children : ∀ d, (∀ name, ¬ base <:+ name :: d) → after.children d = mid.children d) :
    Spares p names fs after := by
  refine spares.below reached current ?_ ?_ ?_
  · exact fun l outside => (objects l).resolve_right fun ⟨within, _⟩ => outside (inside.suffix within)
  · intro linkless l target within stands
    rcases objects l with same | ⟨-, other⟩
    · exact linkless l target within (same ▸ stands)
    · exact other target stands
  · exact fun d outside => children d fun name within => outside name (inside.suffix within)

/-- Something is put below. -/
theorem set {object : Object} (other : ∀ target, object ≠ .link target) :
    Spares p names fs (mid.set base object) := by
  refine spares.changed reached inside rfl (fun l => ?_) fun d away =>
    children_set (fun name same => away name (same ▸ List.suffix_refl _)) object
  rw [get?_set _ _ _ _ inside.ne_nil]
  split
  · rename_i same
    exact Or.inr ⟨same ▸ List.suffix_refl l, fun target stands => other target (Option.some.inj stands)⟩
  · exact Or.inl rfl

/-- Something below goes. -/
theorem erase : Spares p names fs (mid.erase base) := by
  refine spares.changed reached inside rfl (fun l => ?_) fun d away =>
    children_erase fun name same => away name (same ▸ List.suffix_refl _)
  rw [get?_erase _ _ _ inside.ne_nil]
  split
  · rename_i same
    exact Or.inr ⟨same ▸ List.suffix_refl l, by simp⟩
  · exact Or.inl rfl

/-- Something below goes with all that is in it. -/
theorem eraseTree : Spares p names fs (mid.eraseTree base) := by
  refine spares.changed reached inside rfl (fun l => ?_) fun d => children_eraseTree
  rw [get?_eraseTree _ _ _ inside.ne_nil]
  split
  · rename_i within
    exact Or.inr ⟨Location.within_iff.mp within, by simp⟩
  · exact Or.inl rfl

/-- Something below goes to another place below. -/
theorem moveTree {target : Location} (inside' : Location.Below (names.reverse ++ root) target) :
    Spares p names fs (mid.moveTree base target) := by
  have above : root <:+ base := (List.suffix_append names.reverse root).trans inside.1
  refine spares.below reached rfl ?_ ?_ fun d outside => ?_
  · intro l outside
    exact get?_moveTree_of_away (fun within => outside (inside.suffix within))
      fun within => outside (inside'.suffix within)
  · intro linkless l path within stands
    -- What was moved stood below the root before, and was no link there.
    obtain ⟨k, stood, rfl | below⟩ := stood_of_moveTree inside.ne_nil stands
    · exact linkless k path within stood
    · exact linkless k path (above.trans below) stood
  · exact children_moveTree (fun name within => outside name (inside.suffix within))
      fun name within => outside name (inside'.suffix within)

end Below

end Spares

/-! ## Directories -/

theorem mkdir_spares (unlinked : Unlinked fs p)
    (makes : ∀ l, Makes fs q l → Makes fs (p.descend names) l) (made : fs.mkdir q = .ok after) :
    Spares p names fs after := by
  obtain ⟨s, isSlot, nothing, rfl⟩ := mkdir_ok made
  have objects := fun l => get?_set fs s.location l .directory s.location_ne_nil
  refine ⟨rfl, ?_, ?_, ?_⟩
  · intro l _
    rw [objects]
    split
    · rename_i same
      subst same
      exact Or.inr ⟨nothing, rfl, unlinked.toward (makes _ isSlot.makes)⟩
    · exact Or.inl rfl
  · intro left root reached l target within stands
    rw [objects] at stands
    split at stands
    · cases stands
    · exact unlinked left root reached l target within stands
  · intro d _ still
    -- Where nothing is new, the new directory is not.
    refine children_set (fun name same => ?_) .directory
    have there := still name (same ▸ nothing)
    rw [same, objects, if_pos rfl] at there
    cases there

/-- A path that makes nothing but what `p` and the names make. -/
theorem createAll_spares (unlinked : Unlinked fs p)
    (makes : ∀ fs l, Makes fs q l → Makes fs (p.descend names) l)
    (ends : Action.Ends (createAll q) fs after) : Spares p names fs after := by
  refine createAll_rel (R := fun fs after => Unlinked fs p → Spares p names fs after)
    ?_ ?_ ?_ ends unlinked
  · exact fun fs unlinked => .refl unlinked
  · exact fun first second unlinked =>
      (first unlinked).trans unlinked (second ((first unlinked).unlinked_after unlinked))
  · exact fun part made unlinked =>
      mkdir_spares unlinked (fun l own => makes _ l (own.of_initial part.1 part.2)) made

/-! ## Files -/

variable {parent : Path} {name : Name} {content : FileSystem → Except Fault (Bytes × Nat)}

/-- The slot of a name below. -/
theorem IsSlot.inside (unlinked : Unlinked fs p) {s : Slot}
    (isSlot : IsSlot fs ((p.descend names).child name) s) :
    ∃ left root, fs.reach true p = .ok (left, root) ∧ s.location = name :: (names.reverse ++ root) := by
  obtain ⟨rfl, left, reached⟩ := isSlot.of_child
  obtain ⟨links, root, first, same⟩ := unlinked.reach_descend reached
  exact ⟨links, root, enter_lenient first, by rw [Slot.location, same]⟩

theorem placeFile_spares (unlinked : Unlinked fs p)
    (ends : Action.Ends (placeFile parent ((p.descend names).child name) content) fs after) :
    Spares p names fs after := by
  rcases placeFile_ends ends with rfl | ⟨s, bytes, mode, isSlot, rfl⟩
  · exact .refl unlinked
  · obtain ⟨left, root, reached, same⟩ := isSlot.inside unlinked
    exact (Spares.refl unlinked).set reached (same ▸ Location.below_cons name _) (by simp)

theorem placeAtomically_spares (unlinked : Unlinked fs p)
    (ends : Action.Ends (placeAtomically ((p.descend names).child name) content) fs after) :
    Spares p names fs after := by
  obtain ⟨q, directory, like, -⟩ := directoryOf_child (p.descend names) name
  rw [placeAtomically_eq directory] at ends
  rcases Action.ends_bind ends with created | ⟨_, mid, created, placed⟩
  · exact createAll_spares unlinked like.makes created
  · have first := createAll_spares unlinked like.makes (Or.inl ⟨_, created⟩)
    exact first.trans unlinked (placeFile_spares (first.unlinked_after unlinked) placed)

/-! ## Removals -/

theorem removeDirectory_spares (unlinked : Unlinked fs p)
    (removed : fs.removeDirectory ((p.descend names).child name) = .ok after) :
    Spares p names fs after := by
  obtain ⟨s, isSlot, -, rfl⟩ := removeDirectory_ok removed
  obtain ⟨left, root, reached, same⟩ := isSlot.inside unlinked
  exact (Spares.refl unlinked).erase reached (same ▸ Location.below_cons name _)

/-- What a child is found as stands in the directory, unless a link is followed. -/
theorem locate_child_place {place : Place} (located : fs.locate false (q.child name) = .ok place) :
    ∃ left l, fs.reach false q = .ok (left, l) ∧ place.location = name :: l := by
  have spelled := (locate_eq_ok_iff.mp located).1.1
  rw [locate_child false spelled] at located
  cases reached : fs.reach false q with
  | error fault => simp [reached, Except.bind] at located
  | ok at' =>
      obtain ⟨left, l⟩ := at'
      simp only [reached, Except.bind] at located
      refine ⟨left, l, rfl, ?_⟩
      unfold walk at located
      split at located
      · cases located
      · cases stands : fs.get? (name :: l) with
        | none => simp [stands] at located; rw [← located]
        | some object =>
            cases object <;> simp [stands, walk] at located <;> rw [← located]

theorem removeAll_spares (unlinked : Unlinked fs p)
    (removed : fs.removeAll ((p.descend names).child name) = .ok after) : Spares p names fs after := by
  obtain ⟨place, located, rfl⟩ := removeAll_ok removed
  obtain ⟨left, l, entered, same⟩ := locate_child_place located
  obtain ⟨links, root, first, rfl⟩ := unlinked.reach_descend entered
  exact (Spares.refl unlinked).eraseTree (enter_lenient first) (same ▸ Location.below_cons name _)

/-! ## Directories that are moved -/

theorem replaceDirectory_ok {source target : Location}
    (replaced : fs.replaceDirectory source target = .ok after) :
    source = target ∧ after = fs ∨ source ≠ target ∧ ∃ base, (base = fs ∨ base = fs.erase target)
      ∧ after = base.moveTree source target := by
  unfold replaceDirectory at replaced
  split at replaced
  · rename_i same
    exact Or.inl ⟨same, (Except.ok.inj replaced).symm⟩
  · rename_i other
    refine Or.inr ⟨other, ?_⟩
    split at replaced
    · cases replaced
    · split at replaced
      · exact ⟨fs, Or.inl rfl, (Except.ok.inj replaced).symm⟩
      · split at replaced
        · exact ⟨_, Or.inr rfl, (Except.ok.inj replaced).symm⟩
        · cases replaced
      · cases replaced

/-- A directory is moved from one place below to another. -/
theorem rename_spares (unlinked : Unlinked fs p) {source : Location}
    (deep : ∀ left root, fs.reach true p = .ok (left, root) →
      Location.Below (names.reverse ++ root) source)
    (stands : fs.get? source = some .directory)
    (renamed : fs.rename source ((p.descend names).child name) = .ok after) :
    Spares p names fs after := by
  obtain ⟨s, isSlot, replaced, -⟩ := rename_ok renamed
  obtain ⟨left, root, reached, same⟩ := isSlot.inside unlinked
  have target : Location.Below (names.reverse ++ root) s.location :=
    same ▸ Location.below_cons name _
  have source' := deep left root reached
  rcases replaceDirectory_ok (replaced stands) with ⟨-, rfl⟩ | ⟨-, base, rfl | rfl, rfl⟩
  · exact .refl unlinked
  · exact (Spares.refl unlinked).moveTree reached source' target
  · exact ((Spares.refl unlinked).erase reached target).moveTree reached source' target

end FileSystem
end StackSynth
