import StackSynth.Proofs.Repackaging

/-!
# Unwinding — what a failed packaging leaves

Packaging can fail before anything is made, while directories are made, and while the artifact is
staged.  However far it got, no file and no link is left or lost; what is left are directories on
the way to the staging directory.  The directory of the version goes, too, unless something is in
it: something that was there, or another directory on that way.

* `FileSystem.createAll_error` — a directory that could not be made is none;
* `FileSystem.createAll_child_ends` — directories above, and then perhaps the directory itself;
* `Packaging.stageIn_error` — what is left where staging has failed;
* `Packaging.package_unwound` — what a failed packaging leaves, with a run that leaves a version.
-/

namespace StackSynth

/-! ## Directories that cannot be made -/

namespace Path

theorem ancestors_initial {p q : Path} (member : q ∈ p.ancestors) : q.bytes <+: p.bytes := by
  unfold ancestors at member
  split at member
  · cases member
  · rcases List.mem_append.mp member with cut | root
    · obtain ⟨c, -, rfl⟩ := List.mem_map.mp cut
      exact List.take_prefix _ _
    · split at root
      · cases root
      · obtain rfl := List.mem_singleton.mp root
        exact List.nil_prefix

/-- What stands above a child is walked along a part of the path that the child was made from. -/
theorem mem_ancestors_child {p q : Path} {name : Name} (member : q ∈ (p.child name).ancestors) :
    q.steps <+: p.steps ∧ q.isAbsolute = p.isAbsolute := by
  cases empty : p.isEmpty with
  | true =>
      rw [ancestors_child_of_isEmpty empty] at member
      obtain rfl := List.mem_singleton.mp member
      have none : p.bytes = [] := by simpa [isEmpty] using empty
      exact ⟨List.nil_prefix, by simp [isAbsolute, none]⟩
  | false =>
      obtain ⟨front, some, fields, -⟩ := exists_fields_child empty name
      have steps : front.filterMap step? = p.steps := by
        have both := p.steps_child name
        rw [Path.steps, fields, List.filterMap_append] at both
        simpa using both
      rw [ancestors_eq fields] at member
      rcases List.mem_append.mp member with cut | root
      · obtain ⟨c, known, rfl⟩ := List.mem_map.mp cut
        have isCut := cutIn_of_mem some fields (List.mem_reverse.mp known)
        exact ⟨steps ▸ isCut.steps, by rw [isCut.absolute, child_isAbsolute]⟩
      · split at root
        · cases root
        · next relative =>
          obtain rfl := List.mem_singleton.mp root
          rw [child_isAbsolute] at relative
          exact ⟨List.nil_prefix, by simpa [isAbsolute] using relative⟩

end Path

namespace FileSystem

variable {fs mid after : FileSystem} {p : Path}

theorem mkdirOrAccept_error {fault : Fault} (run : mkdirOrAccept p fs = .error fault after) :
    after = fs ∧ fs.isDirectory p = false := by
  unfold mkdirOrAccept at run
  split at run
  · cases run
  · split at run
    · cases run
    · next missing =>
      cases run
      exact ⟨rfl, by simpa using missing⟩

/-- One of the directories could not be made. -/
theorem createAllAbove_error {q : Path} {above : List Path} {fault : Fault}
    (run : createAllAbove q above fs = .error fault after) :
    ∃ r ∈ q :: above, r.isEmpty = false ∧ after.isDirectory r = false := by
  induction above generalizing q fs with
  | nil =>
      rw [createAllAbove] at run
      split at run
      · cases run
      · next filled =>
        obtain ⟨rfl, missing⟩ := mkdirOrAccept_error run
        exact ⟨q, List.mem_cons_self, by simpa using filled, missing⟩
  | cons next above ih =>
      have filled : q.isEmpty = false := by
        cases empty : q.isEmpty with
        | false => rfl
        | true =>
            rw [createAllAbove_of_isEmpty empty] at run
            cases run
      have own : ∀ {fs}, mkdirOrAccept q fs = .error fault after →
          ∃ r ∈ q :: next :: above, r.isEmpty = false ∧ after.isDirectory r = false := by
        intro fs run
        obtain ⟨rfl, missing⟩ := mkdirOrAccept_error run
        exact ⟨q, List.mem_cons_self, filled, missing⟩
      -- The directories above come first, unless the own one is made without them.
      rcases createAllAbove_cons filled next above fs with same | same
      · rw [same] at run
        rcases Action.bind_error_iff.mp run with failed | ⟨_, mid, -, last⟩
        · obtain ⟨r, member, found⟩ := ih failed
          exact ⟨r, List.mem_cons_of_mem q member, found⟩
        · exact own last
      · exact own (same ▸ run)

/-- What could not be made is no directory: for one that is there, all above it are there, too. -/
theorem createAll_error {fault : Fault} (run : createAll p fs = .error fault after) :
    after.isDirectory p = false := by
  obtain ⟨r, member, filled, missing⟩ := createAllAbove_error run
  rw [Bool.eq_false_iff] at missing ⊢
  intro there
  obtain ⟨l, found⟩ := isDirectory_iff.mp there
  obtain ⟨⟨⟨zero, limited⟩, -⟩, left, reached⟩ := stat_eq_directory_iff.mp found
  obtain ⟨initial, rest, steps, absolute⟩ :
      r.bytes <+: p.bytes ∧ ∃ rest, r.steps ++ rest = p.steps ∧ r.isAbsolute = p.isAbsolute := by
    rcases List.mem_cons.mp member with rfl | above
    · exact ⟨List.prefix_refl _, [], by simp⟩
    · obtain ⟨⟨rest, steps⟩, absolute⟩ := Path.mem_ancestors above
      exact ⟨Path.ancestors_initial above, rest, steps, absolute⟩
  -- Whoever gets to the directory passes the part that is missing.
  have spelled : WellSpelled r :=
    ⟨fun member => zero (initial.subset member), Nat.lt_of_le_of_lt initial.length_le limited⟩
  obtain ⟨links, here, entered⟩ : ∃ links here, after.reach false r = .ok (links, here) := by
    rw [reach, ← steps, enter_append] at reached
    rw [reach, origin, absolute, ← origin]
    cases first : enter after false linkLimit (origin after.current p) r.steps with
    | error fault => simp [first, Except.bind] at reached
    | ok at' => exact ⟨at'.1, at'.2, rfl⟩
  exact missing (isDirectory_iff.mpr
    ⟨here, stat_eq_directory_iff.mpr ⟨⟨spelled, filled⟩, links, entered⟩⟩)

/-- For a directory in another one, the directories above are made, and then itself. -/
theorem createAll_child_ends (sound : Sound fs) {name : Name}
    (ends : Action.Ends (createAll (p.child name)) fs after) :
    ∃ mid, Made p fs mid ∧ (after = mid ∨ mid.mkdir (p.child name) = .ok after) := by
  have single : ∀ {fs}, Sound fs → Action.Ends (mkdirOrAccept (p.child name)) fs after →
      ∃ mid, Made p fs mid ∧ (after = mid ∨ mid.mkdir (p.child name) = .ok after) :=
    fun sound ends => ⟨_, Made.refl sound p, (mkdirOrAccept_ends ends).symm⟩
  have filled := p.child_not_empty name
  unfold createAll at ends
  cases parts : (p.child name).ancestors with
  | nil =>
      rw [parts, createAllAbove, if_neg (by simp [filled])] at ends
      exact single sound ends
  | cons next above =>
      rw [parts] at ends
      unfold Action.Ends at ends
      have part : ∀ r ∈ next :: above, IsPart r p := fun r member =>
        Path.mem_ancestors_child (parts ▸ member)
      rcases createAllAbove_cons filled next above fs with same | same
      · rw [same] at ends
        rcases Action.ends_bind ends with first | ⟨_, mid, run, last⟩
        · exact ⟨after, createAllAbove_made sound part first, Or.inl rfl⟩
        · exact ⟨mid, createAllAbove_made sound part (Or.inl ⟨_, run⟩), (mkdirOrAccept_ends last).symm⟩
      · rw [same] at ends
        exact single sound ends

/-! ## Empty directories -/

/-- What a child is, if no link is followed, is told by its slot. -/
theorem lstat_child_ok {name : Name} {l : Location} {object : Object}
    (found : fs.lstat (p.child name) = .ok (l, object)) :
    ∃ s, IsSlot fs (p.child name) s ∧ s.location = l ∧ fs.get? l = some object := by
  obtain ⟨⟨place, object'⟩, located, same⟩ := bind_eq_ok_iff.mp found
  obtain ⟨left, base, reached, rfl⟩ := locate_child_place located
  have spelled := (locate_eq_ok_iff.mp located).1.1
  rw [locate_child false spelled, reached] at located
  simp only [Except.bind, walk] at located
  split at located
  · cases located
  · next fits =>
    refine ⟨⟨base, name⟩, isSlot_child spelled (Nat.le_of_not_lt fits) reached, ?_⟩
    cases stands : fs.get? (name :: base) with
    | none =>
        obtain rfl : none = object' := by simpa [stands] using located
        cases same
    | some other =>
        obtain rfl : some other = object' := by
          cases other <;> simpa [stands, walk] using located
        cases same
        exact ⟨rfl, stands⟩

/-- `after` is `mid`, perhaps without an empty directory, and what `p` names is not empty. -/
structure Cleared (p : Path) (mid after : FileSystem) : Prop where
  extends' : Extends after mid
  kept : ∀ l object, mid.get? l = some object →
    after.get? l = some object ∨ object = .directory ∧ ∀ name, mid.get? (name :: l) = none
  filled : ∀ s, IsSlot after p s → after.get? s.location = some .directory →
    ∃ name, after.get? (name :: s.location) ≠ none

/-- Objects that agree were cleared in the same way. -/
theorem Cleared.of_agrees {p : Path} {other : FileSystem}
    (agrees : Agrees mid other) (cleared : Cleared p other after) : Cleared p mid after where
  extends' := cleared.extends'.trans agrees.symm.extends
  kept := by
    intro l object stood
    rw [← agrees.objects] at stood
    refine (cleared.kept l object stood).imp id (And.imp id fun empty name => ?_)
    rw [← agrees.objects]
    exact empty name
  filled := cleared.filled

/-- Nothing comes but the directories that are made above. -/
theorem Cleared.new {staging p : Path} {l : Location} {object : Object}
    (cleared : Cleared p mid after) (made : Made staging fs mid)
    (stands : after.get? l = some object) :
    fs.get? l = some object ∨ object = .directory ∧ Makes fs staging l := by
  have between := cleared.extends'.objects stands
  rcases made.grown.get? l with same | ⟨nothing, directory⟩
  · exact Or.inl (same.symm.trans between)
  · obtain rfl := Option.some.inj (between.symm.trans directory)
    exact Or.inr ⟨rfl, made.places l nothing directory⟩

/-- Nothing goes but a directory that was empty before, too. -/
theorem Cleared.old {staging p : Path} {l : Location} {object : Object}
    (cleared : Cleared p mid after) (made : Made staging fs mid)
    (stood : fs.get? l = some object) :
    after.get? l = some object ∨ object = .directory ∧ ∀ name, fs.get? (name :: l) = none := by
  refine (cleared.kept l object (made.grown.objects stood)).imp id
    (And.imp id fun empty name => ?_)
  -- What stood in it would stand in it still.
  by_contra some
  obtain ⟨inner, inside⟩ := Option.ne_none_iff_exists'.mp some
  cases (empty name).symm.trans (made.grown.objects inside)

end FileSystem

namespace Packaging

open FileSystem

variable {fs mid after : FileSystem}

/-- A directory is gone if and only if nothing was in it. -/
theorem withoutEmpty_cases (p : Path) (fs : FileSystem) :
    (∃ s, IsSlot fs p s ∧ fs.get? s.location = some .directory
      ∧ (∀ name, fs.get? (name :: s.location) = none) ∧ withoutEmpty p fs = fs.erase s.location)
    ∨ withoutEmpty p fs = fs ∧ ∀ s, IsSlot fs p s → fs.get? s.location = some .directory →
      ∃ name, fs.get? (name :: s.location) ≠ none := by
  unfold withoutEmpty
  cases removed : fs.removeDirectory p with
  | ok after => exact Or.inl (removeDirectory_ok_iff.mp removed)
  | error fault =>
      refine Or.inr ⟨rfl, fun s isSlot stands => ?_⟩
      by_contra! empty
      have gone := removeDirectory_ok_iff.mpr ⟨s, isSlot, stands, empty, rfl⟩
      cases gone.symm.trans removed

theorem withoutEmpty_cleared (p : Path) (fs : FileSystem) : Cleared p fs (withoutEmpty p fs) := by
  rcases withoutEmpty_cases p fs with ⟨s, isSlot, stands, empty, same⟩ | ⟨same, filled⟩
  · rw [same]
    have objects := fun l => get?_erase fs s.location l s.location_ne_nil
    have extends' : Extends (fs.erase s.location) fs := by
      refine ⟨rfl, fun {l object} still => ?_⟩
      rw [objects] at still
      split at still
      · cases still
      · exact still
    refine ⟨extends', ?_, ?_⟩
    · intro l object stood
      by_cases own : l = s.location
      · subst own
        rw [stands] at stood
        exact Or.inr ⟨(Option.some.inj stood).symm, empty⟩
      · rw [objects, if_neg own]
        exact Or.inl stood
    · -- The path named the same slot before.
      intro t isSlot' stands'
      rw [(isSlot'.extends extends').unique isSlot, objects, if_pos rfl] at stands'
      cases stands'
  · rw [same]
    exact ⟨.refl fs, fun _ _ stood => Or.inl stood, filled⟩

/-- A directory that was made for nothing goes again. -/
theorem withoutEmpty_new (sound : Sound fs) {p : Path} (made : fs.mkdir p = .ok mid)
    (agrees : Agrees mid after) : Agrees fs (withoutEmpty p after) := by
  obtain ⟨s, isSlot, nothing, rfl⟩ := mkdir_ok made
  have grown := grown_set_directory s.location_ne_nil nothing
  have isSlot' := (isSlot.extends grown.toExtends).extends agrees.extends
  have objects : ∀ l, after.get? l = if l = s.location then some .directory else fs.get? l := by
    intro l
    rw [agrees.objects, get?_set _ _ _ _ s.location_ne_nil]
  rcases withoutEmpty_cases p after with ⟨t, isSlot'', -, -, same⟩ | ⟨-, filled⟩
  · obtain rfl := isSlot''.unique isSlot'
    rw [same]
    refine ⟨agrees.current, fun l => ?_⟩
    rw [get?_erase _ _ _ t.location_ne_nil, objects]
    split
    · next same => rw [same, nothing]
    · rfl
  · -- Nothing is in it.
    obtain ⟨name, inside⟩ := filled s isSlot' (by rw [objects, if_pos rfl])
    rw [objects, if_neg (List.cons_ne_self name _)] at inside
    exact absurd (sound.none_below (by simp [nothing]) (Location.below_cons name _)) inside

/-! ## Failures -/

section

variable {source staging : Path} {type : AssetType}

/-- Directories are left that were made on the way to the staging directory, and the one for the
artifact only if something is in it. -/
theorem stageIn_error (sound : Sound fs) {entries : List Entry} {hash : ContentHash} {short name : Name}
    (examined : examine fs source type = .ok (entries, hash)) {e : Failure}
    (run : stageIn source type entries (staging.child short) ((staging.child short).child name) fs
      = .error e after) :
    ∃ mid, Made staging fs mid ∧ Cleared (staging.child short) mid after := by
  obtain ⟨reason, failed, -⟩ := Action.mapError_error_iff.mp run
  rcases Action.bind_error_iff.mp failed with stopped | ⟨_, made, done, cleaned⟩
  · -- Not even the directory was made.
    have missing := createAll_error stopped
    obtain ⟨mid, isMade, rfl | last⟩ := createAll_child_ends sound (Or.inr ⟨_, stopped⟩)
    · refine ⟨after, isMade, .refl after, fun _ _ stood => Or.inl stood, fun s isSlot stands => ?_⟩
      rw [isDirectory_iff.mpr ⟨_, isSlot.stat stands⟩] at missing
      cases missing
    · rw [isDirectory_iff.mpr (mkdir_stat last)] at missing
      cases missing
  · obtain ⟨last, stopped, rfl⟩ := Action.onFailure_error_iff.mp cleaned
    have isMade := createAll_made sound (Or.inl ⟨_, done⟩)
    obtain ⟨l, found⟩ := createAll_ok (staging.child_not_empty short) done
    obtain ⟨-, left, entered⟩ := stat_eq_directory_iff.mp found
    obtain ⟨-, agrees⟩ := stage_error isMade.sound sound.toWellFormed isMade.grown.toExtends entered
      examined stopped
    have cleared := withoutEmpty_cleared (staging.child short) last
    obtain ⟨mid, above, rfl | own⟩ := createAll_child_ends sound (Or.inl ⟨_, done⟩)
    · exact ⟨made, above, cleared.of_agrees agrees⟩
    · -- The directory is new, so that nothing is in it, and it goes again.
      have back := withoutEmpty_new above.sound own agrees
      exact ⟨mid, above, back.symm.extends, fun l object stood => Or.inl (back.extends.objects stood),
        cleared.filled⟩

/-- No file and no link is touched by a packaging that fails.  New directories are on the way to the
staging directory, and lost ones had nothing in them.  If the source has a hash, the directory of
the version is there only if something is in it that was there, or that is on that way; if it has
none, nothing is changed at all, and a source that is not found is told to be missing. -/
theorem package_unwound (sound : Sound fs) :
    (∀ e after, package source type staging fs = .error e after →
      (∀ l object, object ≠ .directory → (after.get? l = some object ↔ fs.get? l = some object))
      ∧ (∀ l object, fs.get? l = none → after.get? l = some object →
        object = .directory ∧ Makes fs staging l)
      ∧ (∀ l, fs.get? l = some .directory → after.get? l = some .directory
        ∨ ∀ name, fs.get? (name :: l) = none)
      ∧ ∀ hash, Packaging.hash fs source type = .ok hash → ∃ short, shortOf hash = .ok short
        ∧ ∀ l, after.lstat (staging.childText short) = .ok (l, .directory) →
          ∃ name object, after.get? (name :: l) = some object
            ∧ (fs.get? (name :: l) = some object ∨ Makes fs staging (name :: l)))
    ∧ (∀ e, Packaging.hash fs source type = .error e → package source type staging fs = .error e fs)
    ∧ (fs.stat source = .error .notFound →
      package source type staging fs = .error (.pathNotFound source) fs) := by
  refine ⟨fun e after failed => ?_, fun e => package_of_hash_error, package_missing⟩
  rcases package_error failed with ⟨examined, rfl⟩
    | ⟨entries, hash, text, short, name, examined, known, path, staged⟩
  · refine ⟨fun _ _ _ => Iff.rfl, ?_, fun _ stands => Or.inl stands, ?_⟩
    · intro l object nothing stands
      rw [nothing] at stands
      cases stands
    · intro hash hashed
      obtain ⟨entries, examined'⟩ := hash_eq_ok_iff.mp hashed
      cases examined.symm.trans examined'
  · obtain ⟨mid, made, cleared⟩ := stageIn_error sound examined staged
    refine ⟨?_, ?_, ?_, ?_⟩
    · intro l object other
      constructor
      · exact fun stands => (cleared.new made stands).resolve_right fun added => other added.1
      · exact fun stood => (cleared.old made stood).resolve_right fun lost => other lost.1
    · intro l object nothing stands
      refine (cleared.new made stands).resolve_left fun stood => ?_
      rw [nothing] at stood
      cases stood
    · exact fun l stood => (cleared.old made stood).imp id And.right
    · -- Both ask for the same hash, and what is left in the version was there or is on the way.
      intro hash' hashed
      obtain ⟨entries', examined'⟩ := hash_eq_ok_iff.mp hashed
      obtain ⟨rfl, rfl⟩ := Prod.mk.inj (Except.ok.inj (examined.symm.trans examined'))
      refine ⟨text, known, fun l found => ?_⟩
      rw [path] at found
      obtain ⟨s, isSlot, rfl, stands⟩ := lstat_child_ok found
      obtain ⟨inner, some⟩ := cleared.filled s isSlot stands
      obtain ⟨object, inside⟩ := Option.ne_none_iff_exists'.mp some
      exact ⟨inner, object, inside, (cleared.new made inside).imp id And.right⟩

end

/-! ### A way through the version -/

namespace EmptyThrough

open EmptyPair

/-- The directory `s`, by a path that enters the directory of the version and leaves it again. -/
def around : Path := ⟨Utf8.encode "s/e3b0c44298fc1c14/e3b0c44298fc1c14/../.."⟩

theorem hash_file_empty : Packaging.hash start ⟨[101]⟩ .file = .ok (ContentHash.ofContent []) := by
  have found : start.stat ⟨[101]⟩ = .ok ([⟨[101], by decide⟩], .file [] 0o644) := by cbv
  exact hash_file found (Or.inl ⟨0o644, rfl, by decide⟩)

/-- A file is not put in the place of a directory, here one of those that the path makes. -/
theorem package_fails : package ⟨[101]⟩ .file around start
    = .error (fault ⟨[101]⟩ .isDirectory) staged := by
  obtain ⟨entries, examined⟩ := hash_eq_ok_iff.mp hash_file_empty
  have missing : start.exists? ((around.childText "e3b0c44298fc1c14").childText "e3b0c44298fc1c14")
      = false := by cbv
  have made : stageIn ⟨[101]⟩ .file entries (around.childText "e3b0c44298fc1c14")
      ((around.childText "e3b0c44298fc1c14").childText "e3b0c44298fc1c14") start
      = .error (fault ⟨[101]⟩ .isDirectory) staged := by
    unfold stageIn stage
    cbv
  refine Action.bind_error_iff.mpr (Or.inr ⟨_, _, Action.query_ok_iff.mpr ⟨examined, rfl⟩, ?_⟩)
  refine Action.bind_error_iff.mpr (Or.inr ⟨_, _, Action.ofExcept_ok_iff.mpr ⟨shortOf_nil, rfl⟩, ?_⟩)
  refine Action.bind_error_iff.mpr (Or.inr ⟨false, _,
    Action.query_ok_iff.mpr ⟨congrArg Except.ok missing, rfl⟩, ?_⟩)
  exact Action.bind_error_iff.mpr (Or.inl made)

/-- Files are as before, and the version is one of the directories on the way. -/
theorem unwound_around :
    (∀ l object, object ≠ .directory → (staged.get? l = some object ↔ start.get? l = some object))
    ∧ Makes start around (short :: root)
    ∧ package ⟨[102]⟩ .file around start = .error (.pathNotFound ⟨[102]⟩) start := by
  obtain ⟨same, new, -⟩ := (package_unwound EmptyTwice.sound).1 _ _ package_fails
  have missing : start.stat ⟨[102]⟩ = .error .notFound := by cbv
  exact ⟨same, (new _ .directory (by cbv) (by cbv)).2, (package_unwound EmptyTwice.sound).2.2 missing⟩

/-- The directory of the version is left, though nothing was in it. -/
theorem version_left : ¬ ∀ (fs after : FileSystem) (source staging : Path) (type : AssetType)
    (e : Failure) (hash : ContentHash) (short : String) (l : Location), Sound fs →
    package source type staging fs = .error e after → Packaging.hash fs source type = .ok hash →
    shortOf hash = .ok short → after.lstat (staging.childText short) = .ok (l, .directory) →
    ∃ name, fs.get? (name :: l) ≠ none := by
  intro claim
  have there : staged.lstat (around.childText "e3b0c44298fc1c14")
      = .ok (EmptyPair.short :: root, .directory) := by cbv
  obtain ⟨name, stood⟩ := claim _ _ _ _ _ _ _ _ _ EmptyTwice.sound package_fails hash_file_empty
    shortOf_nil there
  have free : ∀ entry ∈ start.objects, Location.within (EmptyPair.short :: root) entry.1 = false := by
    decide
  exact stood (none_of_objects (by decide) free (Location.below_cons name _))

end EmptyThrough

end Packaging
end StackSynth
