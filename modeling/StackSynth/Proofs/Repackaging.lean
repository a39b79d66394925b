import StackSynth.Proofs.Hashing
import StackSynth.Proofs.Settling
import StackSynth.Proofs.Verifying

/-!
# Repackaging — the same call once more

A second call with the same arguments sees what the first one has left.  It changes nothing and
gives the same artifact if and only if the source still has its hash and the artifact is found.
Files keep their hash, even where the first call has replaced one; a directory keeps it as long as
nothing was staged inside of it.

* `FileSystem.stat_passes` — a file that stands where another one was found is found there;
* `Packaging.exists_of_package` — what a call leaves for the next one;
* `Packaging.package_twice` — when the second call is a repetition of the first.
-/

namespace StackSynth

/-! ## Files that are replaced -/

namespace FileSystem

variable {fs after : FileSystem}

/-- Two spellings of a child have one name, and what is above it leads to one place. -/
theorem reach_of_child_eq {p q : Path} {a b : Name} (same : p.child a = q.child b) :
    a = b ∧ fs.reach true p = fs.reach true q := by
  have steps := congrArg Path.steps same
  rw [Path.steps_child, Path.steps_child] at steps
  obtain ⟨front, last⟩ := List.append_inj' steps rfl
  have from' : p.isAbsolute = q.isAbsolute := by
    rw [← p.child_isAbsolute a, same, q.child_isAbsolute b]
  refine ⟨by simpa using last, ?_⟩
  rw [reach, reach, front, origin, origin, from']

/-- A walk that never turns back stays below where it begins, if no link is there. -/
theorem Looks.stays {links : Nat} {here l : Location} {steps : List Path.Step}
    (looks : Looks fs links here steps l) (linkless : Linkless fs here) (straight : .up ∉ steps) :
    here <:+ l := by
  induction looks with
  | stay _ ih => exact ih linkless fun up => straight (List.mem_cons_of_mem _ up)
  | up _ _ => exact absurd List.mem_cons_self straight
  | here => exact List.suffix_cons _ _
  | @down _ here _ name _ _ _ _ ih =>
      have deeper := ih (linkless.within (List.suffix_cons name here))
        fun up => straight (List.mem_cons_of_mem _ up)
      exact (List.suffix_cons name here).trans deeper
  | cross _ linked _ _ => exact absurd linked (linkless _ _ (List.suffix_cons _ _))

/-- Neither a directory nor a link. -/
def Object.IsEnd (object : Object) : Prop :=
  object ≠ .directory ∧ ∀ target, object ≠ .link target

/-- Where a walk ends at an object that it cannot pass, it ends again if another one is there. -/
theorem walk_passes (passes : Passes fs after) {follow : Bool} {links : Nat} {here l : Location}
    {steps : List Path.Step} {object object' : Object} (isEnd : Object.IsEnd object)
    (isEnd' : Object.IsEnd object') (stands' : after.get? l = some object')
    (found : walk fs follow links here steps = .ok ⟨l, some object⟩) :
    walk after follow links here steps = .ok ⟨l, some object'⟩ := by
  -- Directories and links are passed as before; what stands at the end matters only there.
  fun_induction walk fs follow links here steps with
  | case1 links here =>
      cases found
      exact absurd rfl isEnd.1
  | case2 links here rest ih => simpa [walk] using ih found
  | case3 links here rest ih => simpa [walk] using ih found
  | case4 links here name rest long => simp at found
  | case5 links here name rest long nothing last => simp at found
  | case6 links here name rest long nothing more => simp at found
  | case7 links here name rest long passed ih =>
      simpa [walk, long, passes.directories passed] using ih found
  | case8 links here name rest long target passed last =>
      cases found
      exact absurd rfl (isEnd.2 target)
  | case9 here name rest long target passed more => simp at found
  | case10 here name rest long target passed more links ih =>
      simpa [walk, long, passes.links passed, more] using ih found
  | case11 links here name rest long other notDir notLink passed last =>
      cases found
      cases object' with
      | directory => exact absurd rfl isEnd'.1
      | link target => exact absurd rfl (isEnd'.2 target)
      | file content mode | pipe => simp [walk, long, stands', last]
  | case12 links here name rest long other notDir notLink passed more => simp at found

theorem stat_passes (passes : Passes fs after) {p : Path} {l : Location} {object object' : Object}
    (isEnd : Object.IsEnd object) (isEnd' : Object.IsEnd object')
    (stands' : after.get? l = some object') (found : fs.stat p = .ok (l, object)) :
    after.stat p = .ok (l, object') := by
  have located := locate_eq_ok_iff.mp (stat_eq_ok_iff.mp found)
  refine stat_eq_ok_iff.mpr (locate_eq_ok_iff.mpr ⟨located.1, ?_⟩)
  rw [passes.current]
  exact walk_passes passes isEnd isEnd' stands' located.2

/-- The content of whatever can be read and is no directory. -/
def Object.Holds (object : Object) (content : Bytes) : Prop :=
  (∃ mode, object = .file content mode ∧ readable mode = true) ∨ object = .pipe ∧ content = []

theorem Object.Holds.isEnd {object : Object} {content : Bytes} (holds : Object.Holds object content) :
    Object.IsEnd object := by
  rcases holds with ⟨mode, rfl, -⟩ | ⟨rfl, -⟩
  · exact ⟨by simp, by simp⟩
  · exact ⟨by simp, by simp⟩

theorem stat_of_read {p : Path} {content : Bytes} (read : fs.read p = .ok content) :
    ∃ l object, fs.stat p = .ok (l, object) ∧ Object.Holds object content := by
  obtain ⟨mode, opened⟩ := read_ok_iff.mp read
  obtain ⟨l, object, found, reads⟩ := readFile_ok_iff.mp opened
  refine ⟨l, object, found, ?_⟩
  cases reads with
  | file canRead => exact Or.inl ⟨mode, rfl, canRead⟩
  | pipe => exact Or.inr ⟨rfl, rfl⟩

theorem read_of_holds {p : Path} {l : Location} {object : Object} {content : Bytes}
    (found : fs.stat p = .ok (l, object)) (holds : Object.Holds object content) :
    fs.read p = .ok content := by
  rcases holds with ⟨mode, rfl, canRead⟩ | ⟨rfl, rfl⟩
  · exact read_of_stat found canRead
  · exact read_ok_iff.mpr ⟨_, readFile_ok_iff.mpr ⟨l, _, found, .pipe⟩⟩

end FileSystem

namespace Packaging

open FileSystem

section

variable {fs after : FileSystem} {source staging : Path} {type : AssetType} {artifact : Artifact}

/-! ## What is left for the next call -/

section

variable {mid : FileSystem} {payload : Payload} {V : Path} {name : Name} {left : Nat} {l : Location}

/-- What was staged without replacing a link is found. -/
theorem Staged.exists (staged : Staged payload (name :: l) mid after)
    (spelled : WellSpelled (V.child name)) (fits : name.bytes.length ≤ nameLimit)
    (entered : mid.reach false V = .ok (left, l))
    (unlinked : ∀ target, mid.get? (name :: l) ≠ some (.link target)) :
    after.exists? (V.child name) = true := by
  obtain ⟨object, stands⟩ := Option.ne_none_iff_exists'.mp staged.there
  have plain := staged.plain _ object (List.suffix_refl _) stands
  refine exists_iff.mpr ⟨_, stat_child_of_get? spelled fits (staged.reach unlinked entered) stands ?_⟩
  rintro target rfl
  rcases plain with directory | ⟨content, mode, file, -⟩
  · cases directory
  · cases file

end

/-- The artifact is found afterwards, unless a link was replaced by it. -/
theorem exists_of_package (sound : Sound fs)
    (packaged : package source type staging fs = .ok artifact after)
    (unlinked : ¬ Linked fs artifact.staged) : after.exists? artifact.staged = true := by
  obtain ⟨payload, isOf, rfl⟩ := package_payload packaged
  rcases package_staged sound isOf packaged with ⟨there, rfl⟩
    | ⟨V, name, left, l, mid, path, spelled, fits, grown, entered, staged⟩
  · exact there
  · rw [path] at unlinked ⊢
    exact staged.exists spelled fits entered (unlinked_of_grown unlinked grown entered)

/-! ## The second call -/

/-- Where a call changes nothing, the artifact was there: what is staged is new to its place. -/
theorem exists_of_unchanged (sound : Sound fs)
    (packaged : package source type staging fs = .ok artifact fs) :
    fs.exists? artifact.staged = true := by
  obtain ⟨payload, isOf, rfl⟩ := package_payload packaged
  rcases package_staged sound isOf packaged with ⟨there, -⟩
    | ⟨V, name, left, l, mid, path, spelled, fits, grown, entered, staged⟩
  · exact there
  · obtain ⟨object, stands⟩ := Option.ne_none_iff_exists'.mp staged.there
    rw [path]
    refine staged.exists spelled fits entered fun target linked => ?_
    -- What stands there in the end stood there when it was replaced.
    rw [grown.objects stands] at linked
    obtain rfl := Option.some.inj linked
    rcases staged.plain _ _ (List.suffix_refl _) stands with directory | ⟨content, mode, file, -⟩
    · cases directory
    · cases file

theorem package_again_iff (sound : Sound fs)
    (packaged : package source type staging fs = .ok artifact after) :
    package source type staging after = .ok artifact after
      ↔ Packaging.hash after source type = .ok artifact.hash
        ∧ after.exists? artifact.staged = true := by
  have later : Sound after := by
    obtain ⟨payload, isOf, rfl⟩ := package_payload packaged
    rcases package_staged sound isOf packaged with ⟨-, rfl⟩ | ⟨_, _, _, _, _, _, _, _, _, _, staged⟩
    · exact sound
    · exact staged.sound
  constructor
  · exact fun again => ⟨(package_names again).1, exists_of_unchanged later again⟩
  · exact fun ⟨hashed, there⟩ => package_found packaged hashed there

/-! ## Hashes that stay -/

theorem hash_file {l : Location} {object : Object} {content : Bytes}
    (found : fs.stat source = .ok (l, object)) (holds : Object.Holds object content) :
    Packaging.hash fs source .file = .ok (ContentHash.ofContent content) := by
  have checked : checkSource fs source .file = .ok () := by
    rw [checkSource, found]
    rcases holds with ⟨mode, rfl, -⟩ | ⟨rfl, -⟩ <;> rfl
  have digest : digestFile fs source = .ok (ContentHash.ofContent content) := by
    rw [digestFile, read_of_holds found holds]
  simp only [Packaging.hash, checked, digest, bind, Except.bind]

/-- A file is read as before, also if it was replaced. -/
theorem file_hash_kept (sound : Sound fs)
    (packaged : package source .file staging fs = .ok artifact after)
    (unlinked : ¬ Linked fs artifact.staged) :
    Packaging.hash after source .file = .ok artifact.hash := by
  have hashed := (package_names packaged).1
  obtain ⟨payload, isOf, isFile⟩ := package_payload packaged
  rw [← isFile] at packaged
  rcases package_staged sound isOf packaged with ⟨-, rfl⟩
    | ⟨V, name, left, l, mid, path, spelled, fits, grown, entered, staged⟩
  · exact hashed
  cases isOf with
  | archive | directory => cases isFile
  | @file content read =>
      obtain ⟨place, object, found, holds⟩ := stat_of_read read
      rw [hash_file found holds] at hashed
      rw [← hashed]
      rw [path] at unlinked
      have unlinked' := unlinked_of_grown unlinked grown entered
      -- The way to the source is as it was, and only its end may be another object.
      have found' := stat_extends grown.toExtends found
      have passes := staged.passes unlinked'
      by_cases here : place = name :: l
      · -- The artifact has replaced its source, and holds the same.
        subst here
        obtain ⟨mode, stands⟩ := staged.left.stands trivial
        have holds' : Object.Holds (.file content mode) content := by
          rcases staged.plain _ _ (List.suffix_refl _) stands with directory | ⟨_, _, same, canRead⟩
          · cases directory
          · cases same
            exact Or.inl ⟨mode, rfl, canRead⟩
        exact hash_file (stat_passes passes holds.isEnd holds'.isEnd stands found') holds'
      · have stood : mid.get? place = some object :=
          get?_of_walk holds.isEnd.1 (locate_eq_ok_iff.mp (stat_eq_ok_iff.mp found')).2
        have stands := staged.stays stood here
        exact hash_file (stat_passes passes holds.isEnd holds.isEnd stands found') holds

/-- No link is replaced where there is none. -/
theorem not_linked {short name : Name} (unlinked : Unlinked fs staging) :
    ¬ Linked fs ((staging.child short).child name) := by
  rintro ⟨V, other, left, l, target, same, reached, linked⟩
  rw [← (reach_of_child_eq same).2, ← Path.descend_nil (staging.child short), ← Path.descend_cons]
    at reached
  obtain ⟨links, root, first, rfl⟩ := unlinked.reach_descend reached
  exact unlinked _ _ first _ target ((List.suffix_cons short root).trans (List.suffix_cons other _))
    linked

/-- A second call with the same arguments changes nothing, and gives the same artifact, if and only
if the source still has its hash and the artifact is found.  So it is for a file, unless the
artifact replaced a link, and for every source that is kept away from the staging directory. -/
theorem package_twice (sound : Sound fs)
    (packaged : package source type staging fs = .ok artifact after) :
    (package source type staging after = .ok artifact after
      ↔ Packaging.hash after source type = .ok artifact.hash
        ∧ after.exists? artifact.staged = true)
    ∧ (type = .file → ¬ Linked fs artifact.staged →
      package source type staging after = .ok artifact after)
    ∧ (Unlinked fs staging → Secluded fs staging source →
      package source type staging after = .ok artifact after) := by
  have again := package_again_iff sound packaged
  refine ⟨again, ?_, ?_⟩
  · rintro rfl unlinked
    exact again.mpr ⟨file_hash_kept sound packaged unlinked, exists_of_package sound packaged unlinked⟩
  · intro unlinked secluded
    obtain ⟨payload, isOf, rfl⟩ := package_payload packaged
    obtain ⟨short, name, -, path, -⟩ := package_ok isOf packaged
    have spares : Spares staging [] fs after := package_spares unlinked (Or.inl ⟨_, packaged⟩)
    have hashed : Packaging.hash after source payload.type = .ok artifact.hash :=
      calc Packaging.hash after source payload.type
        _ = Packaging.hash fs source payload.type := (secluded.same spares).hash payload.type
        _ = .ok artifact.hash := (package_names packaged).1
    refine again.mpr ⟨hashed, exists_of_package sound packaged ?_⟩
    rw [path]
    exact not_linked unlinked

end

/-! ### Staged aside and inside -/

namespace EmptyTwice

open EmptyPair

def source : Name := ⟨[100], Eq.refl true⟩

theorem sound : Sound start :=
  ⟨.of_objects (by decide) (by decide), rfl⟩

theorem linkless (base : Location) : Linkless start base :=
  fun l target _ => not_link_of_objects (by simp [start]) l target

theorem not_linked_staged (p : Path) : ¬ Linked staged p := by
  rintro ⟨V, name, left, l, target, -, -, linked⟩
  exact not_link_of_objects (by simp [staged]) _ target linked

/-- Look-ups at and below the source stay there. -/
theorem looks_below {names : List Name} {l : Location}
    (looks : LooksAt start (Path.descend ⟨[100]⟩ names) l) : [source] <:+ l := by
  obtain ⟨rest, steps, straight⟩ : ∃ rest,
      stepsOf (Path.descend ⟨[100]⟩ names) = .down source :: rest ∧ .up ∉ rest := by
    have first : Path.steps ⟨[100]⟩ = [.down source] := by cbv
    have names' : (Path.descend ⟨[100]⟩ names).steps = .down source :: names.map .down := by
      rw [Path.steps_descend, first]
      rfl
    unfold stepsOf
    split
    · exact ⟨names.map .down ++ [.stay], by rw [names']; rfl, by simp⟩
    · exact ⟨names.map .down, names', by simp⟩
  have from' : origin start.current (Path.descend ⟨[100]⟩ names) = [] := by
    unfold origin
    split <;> rfl
  rw [LooksAt, steps, from'] at looks
  cases looks with
  | here => exact List.suffix_refl _
  | down _ _ more => exact more.stays (linkless _) straight
  | cross _ linked _ => exact absurd linked (linkless [] _ _ (List.nil_suffix))

theorem secluded : Secluded start staging ⟨[100]⟩ := by
  intro names l looks
  have below := looks_below looks
  have reached : start.reach true staging = .ok (linkLimit, root) := by cbv
  have apart : ¬ root <:+ l := by
    intro within
    have same := Location.eq_of_suffix within below rfl
    exact absurd same (by decide)
  refine ⟨?_, ?_⟩
  · rintro ⟨left, base, found, inside⟩
    cases reached.symm.trans found
    exact apart inside.1
  · rintro ⟨-, front, name, back, left, here, steps, rfl, entered⟩
    have own : staging.steps = [.down ⟨[115], by decide⟩] := by cbv
    rw [own] at steps
    cases front with
    | cons step front => simp at steps
    | nil =>
        have begun : enter start true linkLimit (origin start.current staging) []
            = .ok (linkLimit, []) := by cbv
        cases begun.symm.trans entered
        obtain ⟨rfl, rfl⟩ : name = ⟨[115], by decide⟩ ∧ back = [] := by simpa [eq_comm] using steps
        exact apart (List.suffix_refl _)

/-- What was staged aside is found again, and a file with the same hash is content with it. -/
theorem empty_again : package ⟨[100]⟩ .directory staging staged = .ok artifact staged
    ∧ package ⟨[101]⟩ .file staging staged = .ok artifact staged := by
  have later : Sound staged := ⟨.of_objects (by decide) (by decide), rfl⟩
  exact ⟨(package_twice sound package_directory).2.2 (fun _ base _ => linkless base) secluded,
    (package_twice later package_file).2.1 rfl (not_linked_staged _)⟩

/-- After the source was staged in itself. -/
def nested : FileSystem where
  objects := [([short, short, source], .directory), ([short, source], .directory)] ++ start.objects
  current := []

def inner : Path := Path.childText ⟨[100]⟩ "e3b0c44298fc1c14"

def innerArtifact : Artifact :=
  ⟨ContentHash.ofContent [], "e3b0c44298fc1c14", inner.childText "e3b0c44298fc1c14"⟩

theorem package_inside : package ⟨[100]⟩ .directory ⟨[100]⟩ start = .ok innerArtifact nested := by
  have missing : start.exists? (inner.childText "e3b0c44298fc1c14") = false := by cbv
  have made : stageIn ⟨[100]⟩ .directory [] inner (inner.childText "e3b0c44298fc1c14") start
      = .ok () nested := by
    unfold stageIn stage
    cbv
  exact package_new examine_empty shortOf_nil (by cbv) rfl missing made

def above : Entry := ⟨"e3b0c44298fc1c14", inner, .directory⟩

def below : Entry :=
  ⟨"e3b0c44298fc1c14/e3b0c44298fc1c14", inner.childText "e3b0c44298fc1c14", .directory⟩

/-- The artifact is among the entries now. -/
theorem collect_nested : Listing.collect nested ⟨[100]⟩ = .ok [above, below] := by
  have loaded : IgnoreRules.load nested ⟨[100]⟩ = .ok .none := by cbv
  have found : nested.stat ⟨[100]⟩ = .ok ([source], .directory) := by cbv
  have found₁ : nested.stat inner = .ok ([short, source], .directory) := by cbv
  have found₂ : nested.stat (inner.childText "e3b0c44298fc1c14")
      = .ok ([short, short, source], .directory) := by cbv
  have children : nested.children [source] = [short] := by cbv
  have children₁ : nested.children [short, source] = [short] := by cbv
  have children₂ : nested.children [short, short, source] = [] := by cbv
  have stands₁ : nested.get? [short, source] = some .directory := by cbv
  have stands₂ : nested.get? [short, short, source] = some .directory := by cbv
  have path₁ : Path.child ⟨[100]⟩ short = inner := rfl
  have path₂ : inner.child short = inner.childText "e3b0c44298fc1c14" := rfl
  have kept₁ : IgnoreRules.none.ignores (Listing.relative [short]) true = false := by cbv
  have kept₂ : IgnoreRules.none.ignores (Listing.relative [short, short]) true = false := by cbv
  have shown₁ : Listing.shown [short] = above.name := by cbv
  have shown₂ : Listing.shown [short, short] = below.name := by cbv
  have deeper : Listing.walk nested .none ⟨[short, source], inner⟩ [⟨[source], ⟨[100]⟩⟩] [short] [short]
      = .ok [below] := by
    simp only [Listing.walk_cons, List.cons_append, List.nil_append, path₂, Listing.leadsToDirectory,
      stands₂, kept₂, found₂, children₂, shown₂, Listing.walk, bind, Except.bind]
    rfl
  have walked : Listing.walk nested .none ⟨[source], ⟨[100]⟩⟩ [] [] [short] = .ok [above, below] := by
    simp only [Listing.walk_cons, List.nil_append, path₁, Listing.leadsToDirectory, stands₁, kept₁,
      found₁, children₁, deeper, shown₁, Listing.walk, bind, Except.bind]
    rfl
  have sorted : [above, below].mergeSort Listing.inOrder = [above, below] := by cbv
  simp only [Listing.collect, loaded, found, children, walked, Except.mapError, bind, Except.bind]
  exact congrArg Except.ok sorted

theorem digest_nested : Member.digest [.directory above.name, .directory below.name]
    = ⟨"sha256:3b2ff6e4c3c9c65ab3eb071be1400191036af024b8adba5658e460a6c73a2d94"⟩ := by
  decide +kernel

/-- A directory that was staged in itself has another hash. -/
theorem not_again : ¬ ∀ (fs after : FileSystem) (source staging : Path) (type : AssetType)
    (artifact : Artifact), Sound fs → package source type staging fs = .ok artifact after →
    package source type staging after = .ok artifact after := by
  intro claim
  have again := (package_names (claim _ _ _ _ _ _ sound package_inside)).1
  have checked : checkSource nested ⟨[100]⟩ .directory = .ok () := by cbv
  have now : [above, below].mapM (Entry.unchanged nested)
      = .ok [.directory above.name, .directory below.name] := rfl
  have hashed : Packaging.hash nested ⟨[100]⟩ .directory
      = .ok (Member.digest [.directory above.name, .directory below.name]) := by
    simp only [Packaging.hash, checked, collect_nested, bind, Except.bind]
    exact Listing.digest_eq_ok now
  rw [hashed, digest_nested, innerArtifact, ofContent_nil] at again
  simp at again

end EmptyTwice

end Packaging
end StackSynth
