import StackSynth.Proofs.Artifact
import StackSynth.Proofs.Members

/-!
# Staging — an artifact is made where nothing stood

What a source holds is told by its payload, and the hash of a source is that of the octets of its
payload.  When an artifact is staged in a directory that is there, under a name that is not, the
payload stands there afterwards and nothing else has changed.

* `Payload.LeftAt` — what is left where a payload was staged;
* `Packaging.exists_payload`, `examine_hash` — the payload of a source and its hash;
* `Packaging.Staged`, `Packaging.stage_ok` — what staging does.
-/

namespace StackSynth

/-- What is left where a payload was staged.  A directory of which two members have one name is
there, but cannot hold both of them. -/
structure Payload.LeftAt (payload : Payload) (fs : FileSystem) (l : Location) : Prop where
  stands : payload.Consistent → payload.StandsAt fs l
  shape : payload.type = .directory → fs.get? l = some .directory

/-- What stands where a source was staged as some type. -/
def AssetType.Suits : AssetType → Object → Prop
  | .directory, object => object = .directory
  | .file, object | .archive, object => ∃ content mode, object = .file content mode

theorem Payload.LeftAt.suits {payload : Payload} {fs : FileSystem} {l : Location} {object : Object}
    (left : payload.LeftAt fs l) (stands : fs.get? l = some object) : payload.type.Suits object := by
  cases payload with
  | file content =>
      obtain ⟨mode, same⟩ := left.stands trivial
      exact ⟨content, mode, Option.some.inj (stands.symm.trans same)⟩
  | archive members =>
      obtain ⟨content, mode, same, -⟩ := left.stands trivial
      exact ⟨content, mode, Option.some.inj (stands.symm.trans same)⟩
  | directory members => exact Option.some.inj (stands.symm.trans (left.shape rfl))

/-- Objects that are found at another place in the same way hold the same members. -/
theorem Member.Hold.moved {members : List Member} {fs after : FileSystem} {base target : Location}
    (hold : Hold members fs base)
    (same : ∀ names, after.get? (names ++ target) = fs.get? (names ++ base)) :
    Hold members after target where
  known := by
    intro names object some stands
    rw [same] at stands
    exact hold.known names object some stands
  all := by
    intro member known
    obtain ⟨names, object, some, isAt, stands, matches'⟩ := hold.all member known
    exact ⟨names, object, some, isAt, by rw [same]; exact stands, matches'⟩

namespace Packaging

open FileSystem

variable {start fs after : FileSystem} {source : Path} {entries : List Entry} {hash : ContentHash}

/-! ## Sources -/

theorem examine_cases {type : AssetType} (examined : examine fs source type = .ok (entries, hash)) :
    type = .file ∧ digestFile fs source = .ok hash
      ∨ type ≠ .file ∧ Listing.collect fs source = .ok entries
        ∧ Listing.digest fs entries = .ok hash := by
  unfold examine at examined
  cases checked : checkSource fs source type with
  | error e => simp [checked, bind, Except.bind] at examined
  | ok _ =>
      simp only [checked, bind, Except.bind] at examined
      cases type with
      | file =>
          cases read : digestFile fs source with
          | error e => simp [read] at examined
          | ok found =>
              simp only [read] at examined
              cases examined
              exact Or.inl ⟨rfl, rfl⟩
      | directory | archive =>
          cases listed : Listing.collect fs source with
          | error e => simp [listed] at examined
          | ok found =>
              cases digest : Listing.digest fs found with
              | error e => simp [listed, digest] at examined
              | ok told =>
                  simp only [listed, digest] at examined
                  cases examined
                  exact Or.inr ⟨by simp, rfl, digest⟩

/-- Whatever can be packaged has a payload. -/
theorem exists_payload {type : AssetType} (examined : examine fs source type = .ok (entries, hash)) :
    ∃ payload : Payload, payload.IsOf fs source ∧ payload.type = type := by
  rcases examine_cases examined with ⟨rfl, digest⟩ | ⟨wants, listed, digest⟩
  · unfold digestFile at digest
    cases read : fs.read source with
    | error fault => simp [read] at digest
    | ok content => exact ⟨.file content, .file read, rfl⟩
  · unfold Listing.digest at digest
    cases now : entries.mapM (Entry.unchanged fs) with
    | error e => simp [now, bind, Except.bind] at digest
    | ok members =>
        cases type with
        | file => exact absurd rfl wants
        | archive => exact ⟨.archive members, .archive listed now, rfl⟩
        | directory => exact ⟨.directory members, .directory listed now, rfl⟩

theorem examine_hash {payload : Payload} (isOf : payload.IsOf fs source)
    (examined : examine fs source payload.type = .ok (entries, hash)) :
    hash = ContentHash.ofContent payload.octets := by
  rcases examine_cases examined with ⟨isFile, digest⟩ | ⟨wants, listed, digest⟩
  · cases isOf with
    | file read =>
        rw [digestFile, read] at digest
        exact (Except.ok.inj digest).symm
    | archive listed now => cases isFile
    | directory listed now => cases isFile
  · cases isOf with
    | file read => exact absurd rfl wants
    | archive listed' now | directory listed' now =>
        rw [listed'] at listed
        cases listed
        rw [Listing.digest_eq_ok now] at digest
        exact (Except.ok.inj digest).symm

/-! ## Staging -/

/-- The payload was staged at `target`, below which nothing stood. -/
structure Staged (payload : Payload) (target : Location) (fs after : FileSystem) : Prop where
  sound : Sound after
  current : after.current = fs.current
  outside : ∀ l, ¬ target <:+ l → after.get? l = fs.get? l
  empty : ∀ l, Location.Below target l → fs.get? l = none
  /-- A directory was replaced by a directory. -/
  directory : fs.get? target = some .directory → after.get? target = some .directory
  plain : ∀ l object, target <:+ l → after.get? l = some object →
    object = .directory ∨ ∃ content mode, object = .file content mode ∧ readable mode = true
  there : after.get? target ≠ none
  left : payload.LeftAt after target

theorem Staged.plain_within {payload : Payload} {target l : Location} {object : Object}
    (staged : Staged payload target fs after) (within : target <:+ l)
    (stands : after.get? l = some object) :
    object = .directory ∨ ∃ content mode, object = .file content mode :=
  (staged.plain l object within stands).imp id fun ⟨content, mode, same, _⟩ => ⟨content, mode, same⟩

/-- At other places, whatever stood still stands: below the target there was nothing. -/
theorem Staged.stays {payload : Payload} {target l : Location} {object : Object}
    (staged : Staged payload target fs after) (stands : fs.get? l = some object)
    (other : l ≠ target) : after.get? l = some object := by
  by_cases within : target <:+ l
  · rw [staged.empty l ⟨within, other⟩] at stands
    cases stands
  · exact (staged.outside l within).trans stands

theorem Staged.extends {payload : Payload} {target : Location} (staged : Staged payload target fs after)
    (nothing : fs.get? target = none) : Extends fs after where
  current := staged.current
  objects := by
    intro l object stands
    refine staged.stays stands ?_
    rintro rfl
    rw [nothing] at stands
    cases stands

/-- Whatever could be walked through still can be, but for a link that was replaced. -/
theorem Staged.passes {payload : Payload} {target : Location} (staged : Staged payload target fs after)
    (unlinked : ∀ path, fs.get? target ≠ some (.link path)) : Passes fs after where
  current := staged.current
  directories := by
    intro l stands
    by_cases here : l = target
    · subst here
      exact staged.directory stands
    · exact staged.stays stands here
  links := by
    intro l path stands
    refine staged.stays stands ?_
    rintro rfl
    exact unlinked path stands

/-- Whoever gets to the directory of the target gets there again. -/
theorem Staged.reach {payload : Payload} {target : Location} (staged : Staged payload target fs after)
    (unlinked : ∀ path, fs.get? target ≠ some (.link path)) {p : Path} {at' : Nat × Location}
    (entered : fs.reach false p = .ok at') : after.reach false p = .ok at' :=
  reach_passes (staged.passes unlinked) entered

/-- A file that was placed is all there is at its place. -/
theorem staged_of_placed {payload : Payload} {target : Location} {content : Bytes} {mode : Nat}
    (placed : Placed target content mode fs after) (well : fs.WellFormed)
    (canRead : readable mode = true) (isFile : payload.type ≠ .directory)
    (stands : payload.StandsAt after target) : Staged payload target fs after where
  sound := placed.sound
  current := placed.current
  outside := by
    intro l away
    rw [placed.objects, if_neg]
    rintro rfl
    exact away (List.suffix_refl l)
  empty := fun l below => well.none_below placed.other below
  directory := fun wrong => absurd wrong placed.other
  plain := by
    intro l object within found
    rw [placed.objects] at found
    split at found
    · exact Or.inr ⟨content, mode, (Option.some.inj found).symm, canRead⟩
    · rename_i other
      have below : Location.Below target l := ⟨within, other⟩
      rw [well.none_below placed.other below] at found
      cases found
  there := by
    rw [placed.objects, if_pos rfl]
    simp
  left := ⟨fun _ => stands, fun wrong => absurd wrong isFile⟩

/-- A directory that was moved is all there is at its place. -/
theorem staged_of_moved {members : List Member} {temporary target : Location} {mid : FileSystem}
    (sound : Sound fs) (moved : Moved temporary target mid after)
    (free : fs.get? temporary = none)
    (there : mid.get? temporary = some .directory) (current : mid.current = fs.current)
    (apart : ∀ l, ¬ temporary <:+ l → mid.get? l = fs.get? l)
    (plain : ∀ l object, Location.Below temporary l → mid.get? l = some object →
      object = .directory ∨ ∃ content mode, object = .file content mode ∧ readable mode = true)
    (vacant : target = temporary ∨ Vacant mid target)
    (hold : Member.Consistent members → Member.Hold members mid temporary) :
    Staged (.directory members) target fs after where
  sound := moved.sound
  current := moved.current.trans current
  outside := by
    intro l away
    rw [moved.other l away]
    split
    · rename_i within
      -- What is gone was temporary.
      exact (sound.toWellFormed.none_within free within).symm
    · rename_i outside
      exact apart l outside
  empty := by
    intro l below
    by_cases within : temporary <:+ l
    · exact sound.toWellFormed.none_within free within
    · rw [← apart l within]
      exact (vacant.resolve_left fun same => within (same ▸ below.1)).below l below
  directory := fun _ => moved.self.trans there
  plain := by
    rintro l object ⟨names, rfl⟩ found
    rw [moved.moved] at found
    cases names with
    | nil =>
        rw [List.nil_append, there] at found
        exact Or.inl (Option.some.inj found).symm
    | cons name names =>
        exact plain _ object (Location.below_iff.mpr ⟨name :: names, by simp, rfl⟩) found
  there := by simp [moved.self, there]
  left := by
    have stands := moved.self.trans there
    exact ⟨fun consistent => ⟨stands, (hold consistent).moved moved.moved⟩, fun _ => stands⟩

section Stage

variable {V : Path} {name : Name} {left : Nat} {l : Location}

/-- Whatever was staged has a path that the operating system takes. -/
theorem stage_spelled (sound : Sound fs) {type : AssetType}
    (run : stage source type entries V (V.child name) fs = .ok () after) :
    WellSpelled (V.child name) ∧ name.bytes.length ≤ nameLimit := by
  cases type with
  | file =>
      rw [stage, copyAtomically_eq] at run
      obtain ⟨-, -, -, -, -, -, -, spelled, short, -⟩ := placeAtomically_ok sound run
      exact ⟨spelled, short⟩
  | archive =>
      rw [stage] at run
      obtain ⟨_, s, _, _, -, -, isSlot, -⟩ := placeFile_ok sound run
      obtain ⟨rfl, -⟩ := isSlot.of_child
      exact ⟨isSlot.spelled, isSlot.short⟩
  | directory =>
      rw [stage] at run
      obtain ⟨t, path, made, body⟩ := withTemporaryDirectory_ok run
      obtain ⟨_, mid, copied, renamed⟩ := Action.bind_ok_iff.mp body
      obtain ⟨s, isSlot, -⟩ := rename_ok (Action.step_ok_iff.mp renamed)
      obtain ⟨rfl, -⟩ := isSlot.of_child
      exact ⟨isSlot.spelled, isSlot.short⟩

theorem stageFile_ok (sound : Sound fs) (extends' : Extends start fs)
    (entered : fs.reach false V = .ok (left, l))
    {content : Bytes} (read : start.read source = .ok content)
    (run : copyAtomically source (V.child name) fs = .ok () after) :
    Staged (.file content) (name :: l) fs after := by
  rw [copyAtomically_eq] at run
  obtain ⟨mid, links, l', bytes, mode, made, reached, -, -, ⟨more, extends'', found⟩, placed⟩ :=
    placeAtomically_ok sound run
  have agrees := made.agrees entered
  obtain ⟨-, rfl⟩ : left = links ∧ l = l' := by
    have again := reach_extends agrees.extends entered
    rw [reached] at again
    exact Prod.mk.inj (Except.ok.inj again.symm)
  obtain ⟨mode', first⟩ : ∃ mode', start.readFile source = .ok (content, mode') := by
    unfold FileSystem.read at read
    cases known : start.readFile source with
    | error fault => simp [known, bind, Except.bind] at read
    | ok place =>
        obtain rfl : place.1 = content := by
          simpa [known, bind, Except.bind, pure, Except.pure] using read
        exact ⟨place.2, rfl⟩
  have same := readFile_extends ((extends'.trans agrees.extends).trans extends'') first
  rw [found] at same
  cases same
  -- The parent was there, so that only the file is new.
  have placed' : Placed (name :: l) content mode fs after :=
    { placed with
      current := placed.current.trans agrees.current
      other := by rw [← agrees.objects]; exact placed.other
      objects := by intro m; rw [placed.objects, agrees.objects] }
  refine staged_of_placed placed' sound.toWellFormed (readable_of_readFile found)
    (by simp [Payload.type]) ⟨mode, ?_⟩
  rw [placed'.objects, if_pos rfl]

theorem stageArchive_ok (sound : Sound fs) (extends' : Extends start fs)
    (entered : fs.reach false V = .ok (left, l))
    {members : List Member} (now : entries.mapM (Entry.unchanged start) = .ok members)
    (run : placeFile V (V.child name) (fun fs => archive fs entries) fs = .ok () after) :
    Staged (.archive members) (name :: l) fs after := by
  obtain ⟨t, s, bytes, mode, free, found, isSlot, placed⟩ := placeFile_ok sound run
  obtain ⟨rfl, links, reached⟩ := isSlot.of_child
  obtain rfl := reach_unique reached entered
  have extends'' : Extends fs (fs.set t (.file [] 0o600)) := extends_set free.inside free.nothing
  have again := Listing.members_again (extends'.trans extends'') now
  obtain ⟨rfl, rfl⟩ : Gzip.wrap (Tar.write members) = bytes ∧ 0o600 = mode := by
    simpa [archive, again, bind, Except.bind, pure, Except.pure] using found
  have stands : after.get? (s.name :: s.directory)
      = some (.file (Gzip.wrap (Tar.write members)) 0o600) := by
    rw [placed.objects]
    exact if_pos rfl
  exact staged_of_placed placed sound.toWellFormed (by decide) (by simp [Payload.type])
    ⟨_, _, stands, Gzip.contents?_wrap _⟩

/-! ## Temporary directories -/

/-- A temporary directory takes copies. -/
theorem temporary_site (sound : Sound fs)
    (entered : fs.reach false V = .ok (left, l)) {t : Location} {path : Path}
    (made : fs.temporary V = .ok (t, path)) :
    ∃ fresh, t = fresh :: l ∧ path = V.child fresh ∧ Free fs (fresh :: l)
      ∧ Sound (fs.set (fresh :: l) .directory)
      ∧ Site (fs.set (fresh :: l) .directory) V l fresh := by
  have free := temporary_free sound made
  obtain ⟨l', fresh, found, rfl, rfl, -, -⟩ := temporary_ok made
  obtain rfl : l' = l := by
    obtain ⟨-, links, reached⟩ := stat_eq_directory_iff.mp found
    exact reach_unique entered reached
  have grown := grown_set_directory free.inside free.nothing
  refine ⟨fresh, rfl, rfl, free, sound.set_directory free.inside free.parent,
    ⟨left, reach_extends grown.toExtends entered⟩, ?_, ?_⟩
  · rw [get?_set _ _ _ _ free.inside, if_pos rfl]
  · intro m below
    rw [get?_set _ _ _ _ free.inside, if_neg below.2]
    exact sound.toWellFormed.none_below (by simp [free.nothing]) below

section Temporary

variable {t : Location} {mid : FileSystem}

theorem Confined.apart (confined : Confined (fs.set t .directory) t mid) (free : Free fs t)
    {m : Location} (outside : ¬ t <:+ m) : mid.get? m = fs.get? m := by
  rw [confined.outside m fun below => outside below.1, get?_set _ _ _ _ free.inside, if_neg]
  rintro rfl
  exact outside (List.suffix_refl _)

theorem Confined.away (confined : Confined (fs.set t .directory) t mid) (free : Free fs t)
    (sound : Sound fs) : ¬ t <:+ mid.current := by
  intro within
  have current : mid.current = fs.current := confined.current
  have here := sound.here
  rw [← current, free.none sound within] at here
  cases here

/-- When a temporary directory is removed, everything is as before. -/
theorem Confined.erased (confined : Confined (fs.set t .directory) t mid) (free : Free fs t)
    (sound : Sound fs) : Sound (mid.eraseTree t) ∧ Agrees fs (mid.eraseTree t) := by
  refine ⟨confined.sound.eraseTree free.inside (confined.away free sound), confined.current, ?_⟩
  intro m
  rw [get?_eraseTree _ _ _ free.inside]
  split
  · rename_i within
    exact (free.none sound (Location.within_iff.mp within)).symm
  · rename_i outside
    exact confined.apart free fun within => outside (Location.within_iff.mpr within)

end Temporary

/-- A directory is filled under a temporary name, and then it is moved. -/
theorem stageDirectory_moved (sound : Sound fs) (startWell : start.WellFormed)
    (extends' : Extends start fs) (entered : fs.reach false V = .ok (left, l)) {members : List Member}
    (listed : Listing.collect start source = .ok entries)
    (now : entries.mapM (Entry.unchanged start) = .ok members)
    (run : stage source .directory entries V (V.child name) fs = .ok () after) :
    ∃ fresh mid, Free fs (fresh :: l)
      ∧ CopyState (fs.set (fresh :: l) .directory) (fresh :: l) entries entries mid
      ∧ mid.get? (fresh :: l) = some .directory ∧ Moved (fresh :: l) (name :: l) mid after
      ∧ (name :: l = fresh :: l ∨ Vacant mid (name :: l)) := by
  rw [stage] at run
  obtain ⟨t, path, made, body⟩ := withTemporaryDirectory_ok run
  obtain ⟨_, mid, copied, renamed⟩ := Action.bind_ok_iff.mp body
  obtain ⟨fresh, rfl, rfl, free, begun, site⟩ := temporary_site sound entered made
  have grown := grown_set_directory free.inside free.nothing
  have copyable := Listing.copyable startWell listed now (extends'.trans grown.toExtends)
  have state : CopyState (fs.set (fresh :: l) .directory) (fresh :: l) entries entries mid :=
    copyEntries_ok site copyable (fun entry known => known) (.begin begun site) copied
  obtain ⟨s, isSlot, replaced, -⟩ := rename_ok (Action.step_ok_iff.mp renamed)
  obtain ⟨rfl, links, reached⟩ := isSlot.of_child
  obtain rfl := reach_unique reached
    (reach_extends (grown.toExtends.trans (state.toConfined.extends site)) entered)
  have there : mid.get? (fresh :: s.directory) = some .directory := by
    rw [state.outside _ fun below => below.2 rfl]
    exact site.there
  obtain ⟨moved, vacant⟩ := rename_directory_ok state.sound free.inside there isSlot
    (state.toConfined.away free sound) (replaced there)
  exact ⟨fresh, mid, free, state, there, moved, vacant⟩

/-- A directory that was filled under a temporary name gets the name that it is to have. -/
theorem stageDirectory_ok (sound : Sound fs) (startWell : start.WellFormed)
    (extends' : Extends start fs) (entered : fs.reach false V = .ok (left, l)) {members : List Member}
    (listed : Listing.collect start source = .ok entries)
    (now : entries.mapM (Entry.unchanged start) = .ok members)
    (run : stage source .directory entries V (V.child name) fs = .ok () after) :
    Staged (.directory members) (name :: l) fs after := by
  obtain ⟨fresh, mid, free, state, there, moved, vacant⟩ :=
    stageDirectory_moved sound startWell extends' entered listed now run
  have later := extends'.trans (grown_set_directory free.inside free.nothing).toExtends
  -- Copies are of files that could be read.
  have plain' : ∀ m object, Location.Below (fresh :: l) m → mid.get? m = some object →
      object = .directory ∨ ∃ content mode, object = .file content mode ∧ readable mode = true := by
    intro m object below stands
    obtain ⟨names, some, rfl⟩ := Location.below_iff.mp below
    obtain ⟨entry, -, -, copied⟩ := state.known names.reverse object (by simpa using some)
      (by simpa using stands)
    exact copied.plain
  exact staged_of_moved sound moved free.nothing there state.current
    (fun m outside => state.toConfined.apart free outside) plain' vacant fun consistent =>
      state.hold (fun member known => Listing.entry_of_member now known)
        (fun entry known => Listing.member_of_entry startWell listed now later known) consistent

theorem stageDirectory_error (sound : Sound fs) (startWell : start.WellFormed) (extends' : Extends start fs)
    (entered : fs.reach false V = .ok (left, l)) {members : List Member}
    (listed : Listing.collect start source = .ok entries)
    (now : entries.mapM (Entry.unchanged start) = .ok members) {fault : Fault}
    (run : stage source .directory entries V (V.child name) fs = .error fault after) :
    Sound after ∧ Agrees fs after := by
  rw [stage] at run
  rcases withTemporaryDirectory_error run with rfl | ⟨t, path, mid, made, body, rfl⟩
  · exact ⟨sound, .refl after⟩
  · obtain ⟨fresh, rfl, rfl, free, begun, site⟩ := temporary_site sound entered made
    have grown := grown_set_directory free.inside free.nothing
    have copyable := Listing.copyable startWell listed now (extends'.trans grown.toExtends)
    have ended : ∀ mid, Action.Ends (copyEntries (V.child fresh) entries) _ mid →
        Confined (fs.set (fresh :: l) .directory) (fresh :: l) mid := fun mid ends =>
      copyEntries_ends site copyable (fun entry known => known) (site.confined begun) ends
    -- The last step does nothing when it fails.
    rcases Action.bind_error_iff.mp body with failed | ⟨_, copied, done, renamed⟩
    · exact (ended mid (Or.inr ⟨_, failed⟩)).erased free sound
    · obtain ⟨-, rfl⟩ := Action.step_error_iff.mp renamed
      exact (ended copied (Or.inl ⟨_, done⟩)).erased free sound

theorem stage_ok (sound : Sound fs) (startWell : start.WellFormed) (extends' : Extends start fs)
    (entered : fs.reach false V = .ok (left, l)) {payload : Payload} (isOf : payload.IsOf start source)
    (examined : examine start source payload.type = .ok (entries, hash))
    (run : stage source payload.type entries V (V.child name) fs = .ok () after) :
    Staged payload (name :: l) fs after := by
  rcases examine_cases examined with ⟨isFile, -⟩ | ⟨wants, listed, -⟩
  · cases isOf with
    | file read => exact stageFile_ok sound extends' entered read run
    | archive listed now => cases isFile
    | directory listed now => cases isFile
  · cases isOf with
    | file read => exact absurd rfl wants
    | archive listed' now =>
        obtain rfl := Except.ok.inj (listed'.symm.trans listed)
        exact stageArchive_ok sound extends' entered now run
    | directory listed' now =>
        obtain rfl := Except.ok.inj (listed'.symm.trans listed)
        exact stageDirectory_ok sound startWell extends' entered listed now run

/-- Staging that fails changes nothing. -/
theorem stage_error (sound : Sound fs) (startWell : start.WellFormed)
    (extends' : Extends start fs) (entered : fs.reach false V = .ok (left, l)) {type : AssetType}
    (examined : examine start source type = .ok (entries, hash)) {fault : Fault}
    (run : stage source type entries V (V.child name) fs = .error fault after) :
    Sound after ∧ Agrees fs after := by
  cases type with
  | file =>
      rw [stage, copyAtomically_eq] at run
      have made := placeAtomically_error sound run
      exact ⟨made.sound, made.agrees entered⟩
  | archive =>
      rw [stage] at run
      obtain rfl := placeFile_error run
      exact ⟨sound, .refl after⟩
  | directory =>
      obtain ⟨payload, isOf, type⟩ := exists_payload examined
      rcases examine_cases examined with ⟨isFile, -⟩ | ⟨-, listed, -⟩
      · cases isFile
      · cases isOf with
        | file read => cases type
        | archive listed' now => cases type
        | directory listed' now =>
            obtain rfl := Except.ok.inj (listed'.symm.trans listed)
            exact stageDirectory_error sound startWell extends' entered listed now run

end Stage

/-! ## Packages -/

theorem spelled_of_isOf {payload : Payload} (isOf : payload.IsOf fs source) :
    WellSpelled source := by
  have found : ∃ place, fs.stat source = .ok place := by
    have listed : ∀ entries, Listing.collect fs source = .ok entries →
        ∃ place, fs.stat source = .ok place := by
      intro entries listed
      unfold Listing.collect at listed
      cases loaded : (IgnoreRules.load fs source).mapError Failure.ignoreFile with
      | error e => simp [loaded, bind, Except.bind] at listed
      | ok rules =>
          cases stands : fs.stat source with
          | error fault =>
              simp [loaded, stands, bind, Except.bind, throw, throwThe, MonadExceptOf.throw] at listed
          | ok place => exact ⟨place, rfl⟩
    cases isOf with
    | file read =>
        obtain ⟨mode, opened⟩ := read_ok_iff.mp read
        obtain ⟨l, object, stands, -⟩ := readFile_ok_iff.mp opened
        exact ⟨(l, object), stands⟩
    | archive collected now => exact listed _ collected
    | directory collected now => exact listed _ collected
  obtain ⟨⟨l, object⟩, stands⟩ := found
  exact (locate_eq_ok_iff.mp (stat_eq_ok_iff.mp stands)).1.1

/-- The two names under which a payload is staged. -/
structure IsPlace (payload : Payload) (source : Path) (short name : Name) : Prop where
  short : short.bytes = Utf8.encode (String.ofList (ContentHash.shortDigits payload.octets))
  name : name.bytes = Utf8.encode
    (Artifact.nameFor (String.ofList (ContentHash.shortDigits payload.octets)) payload.type source)

/-- Whatever is packaged has a payload. -/
theorem package_payload {type : AssetType} {staging : Path} {artifact : Artifact}
    (run : package source type staging fs = .ok artifact after) :
    ∃ payload : Payload, payload.IsOf fs source ∧ payload.type = type := by
  obtain ⟨⟨entries, hash⟩, _, asked, -⟩ := Action.bind_ok_iff.mp run
  exact exists_payload (Action.query_ok_iff.mp asked).1

/-- What a call does, step by step: either its artifact is there, or it is staged in a directory
that is made for it. -/
theorem package_steps {type : AssetType} {staging : Path} {artifact : Artifact}
    (run : package source type staging fs = .ok artifact after) :
    ∃ entries short, examine fs source type = .ok (entries, artifact.hash)
      ∧ shortOf artifact.hash = .ok short
      ∧ artifact.fileName = Artifact.nameFor short type source
      ∧ artifact.staged = (staging.childText short).childText artifact.fileName
      ∧ (fs.exists? artifact.staged = true ∧ after = fs
        ∨ fs.exists? artifact.staged = false ∧ ∃ mid,
            createAll (staging.childText short) fs = .ok () mid
            ∧ stage source type entries (staging.childText short) artifact.staged mid
              = .ok () after) := by
  obtain ⟨⟨entries, hash⟩, _, asked, rest⟩ := Action.bind_ok_iff.mp run
  obtain ⟨examined, rfl⟩ := Action.query_ok_iff.mp asked
  obtain ⟨short, _, asked, rest⟩ := Action.bind_ok_iff.mp rest
  obtain ⟨known, rfl⟩ := Action.ofExcept_ok_iff.mp asked
  obtain ⟨there, _, asked, rest⟩ := Action.bind_ok_iff.mp rest
  obtain ⟨exists', rfl⟩ := Action.query_ok_iff.mp asked
  cases there with
  | true =>
      obtain ⟨rfl, rfl⟩ := Action.pure_ok_iff.mp rest
      exact ⟨entries, short, examined, known, rfl, rfl, Or.inl ⟨Except.ok.inj exists', rfl⟩⟩
  | false =>
      obtain ⟨_, final, staged, done⟩ := Action.bind_ok_iff.mp rest
      obtain ⟨rfl, rfl⟩ := Action.pure_ok_iff.mp done
      obtain ⟨_, mid, made, placed⟩ := Action.bind_ok_iff.mp (Action.mapError_ok_iff.mp staged)
      exact ⟨entries, short, examined, known, rfl, rfl,
        Or.inr ⟨Except.ok.inj exists', mid, made, Action.onFailure_ok_iff.mp placed⟩⟩

/-- The same of what is packaged as a payload, whose octets give the version its name. -/
theorem package_ok {payload : Payload} {staging : Path} {artifact : Artifact}
    (isOf : payload.IsOf fs source)
    (run : package source payload.type staging fs = .ok artifact after) :
    ∃ short name, IsPlace payload source short name
      ∧ artifact.staged = (staging.child short).child name
      ∧ artifact.hash = ContentHash.ofContent payload.octets
      ∧ (fs.exists? artifact.staged = true ∧ after = fs
        ∨ fs.exists? artifact.staged = false ∧ ∃ entries mid,
            examine fs source payload.type = .ok (entries, artifact.hash)
            ∧ createAll (staging.child short) fs = .ok () mid
            ∧ stage source payload.type entries (staging.child short) artifact.staged mid
              = .ok () after) := by
  obtain ⟨entries, short, examined, known, fileName, staged, way⟩ := package_steps run
  have hash := examine_hash isOf examined
  rw [hash] at known
  obtain rfl := ContentHash.shortOf_ofContent known
  obtain ⟨a, ofShort⟩ := ContentHash.exists_shortName payload.octets
  obtain ⟨b, ofName⟩ := Artifact.nameFor_name (spelled_of_isOf isOf).1 payload.octets payload.type
  rw [fileName, Path.childText_eq_child ofName] at staged
  rw [Path.childText_eq_child ofShort] at staged way
  refine ⟨a, b, ⟨Name.bytes_of_ofBytes? ofShort, Name.bytes_of_ofBytes? ofName⟩, staged, hash, ?_⟩
  exact way.imp_right fun ⟨missing, mid, made, placed⟩ =>
    ⟨missing, entries, mid, examined, made, placed⟩

/-- An artifact has the name that its path ends with. -/
theorem package_fileName {payload : Payload} {staging : Path} {artifact : Artifact}
    (isOf : payload.IsOf fs source)
    (run : package source payload.type staging fs = .ok artifact after) :
    artifact.fileName = Artifact.nameFor (String.ofList (ContentHash.shortDigits payload.octets))
      payload.type source := by
  obtain ⟨entries, short, examined, known, fileName, -⟩ := package_steps run
  rw [examine_hash isOf examined] at known
  rw [fileName, ContentHash.shortOf_ofContent known]

/-- The directory of a version is made, and then the artifact is staged in it. -/
theorem stageIn_done {type : AssetType} {entries : List Entry} {directory path : Path}
    {mid : FileSystem} (made : createAll directory fs = .ok () mid)
    (staged : stage source type entries directory path mid = .ok () after) :
    stageIn source type entries directory path fs = .ok () after :=
  Action.mapError_ok_iff.mpr
    (Action.bind_ok_iff.mpr ⟨(), mid, made, Action.onFailure_ok_iff.mpr staged⟩)

/-- An artifact that is not found is staged. -/
theorem package_new {type : AssetType} {staging path : Path} {entries : List Entry}
    {hash : ContentHash} {short name : String}
    (examined : examine fs source type = .ok (entries, hash)) (known : shortOf hash = .ok short)
    (named : Artifact.nameFor short type source = name)
    (place : (staging.childText short).childText name = path) (missing : fs.exists? path = false)
    (made : stageIn source type entries (staging.childText short) path fs = .ok () after) :
    package source type staging fs = .ok ⟨hash, name, path⟩ after := by
  refine Action.bind_ok_iff.mpr ⟨_, _, Action.query_ok_iff.mpr ⟨examined, rfl⟩, ?_⟩
  refine Action.bind_ok_iff.mpr ⟨_, _, Action.ofExcept_ok_iff.mpr ⟨known, rfl⟩, ?_⟩
  simp only [named, place]
  refine Action.bind_ok_iff.mpr
    ⟨false, _, Action.query_ok_iff.mpr ⟨congrArg Except.ok missing, rfl⟩, ?_⟩
  exact Action.bind_ok_iff.mpr ⟨_, _, made, rfl⟩

/-- A call that fails could not hash its source, or has begun to stage it. -/
theorem package_error {type : AssetType} {staging : Path} {e : Failure}
    (run : package source type staging fs = .error e after) :
    examine fs source type = .error e ∧ after = fs
      ∨ ∃ entries hash text short name, examine fs source type = .ok (entries, hash)
        ∧ shortOf hash = .ok text ∧ staging.childText text = staging.child short
        ∧ stageIn source type entries (staging.child short) ((staging.child short).child name) fs
          = .error e after := by
  rcases Action.bind_error_iff.mp run with asked | ⟨⟨entries, hash⟩, _, asked, rest⟩
  · obtain ⟨failed, rfl⟩ := Action.query_error_iff.mp asked
    exact Or.inl ⟨failed, rfl⟩
  obtain ⟨examined, rfl⟩ := Action.query_ok_iff.mp asked
  obtain ⟨payload, isOf, rfl⟩ := exists_payload examined
  obtain rfl := examine_hash isOf examined
  -- Neither the short form nor the look at the target can fail.
  have known := ContentHash.shortOf_ofContent_ok payload.octets
  rcases Action.bind_error_iff.mp rest with asked | ⟨short, _, asked, rest⟩
  · obtain ⟨failed, -⟩ := Action.ofExcept_error_iff.mp asked
    cases known.symm.trans failed
  obtain ⟨known', rfl⟩ := Action.ofExcept_ok_iff.mp asked
  obtain rfl := Except.ok.inj (known.symm.trans known')
  rcases Action.bind_error_iff.mp rest with asked | ⟨there, _, asked, rest⟩
  · cases (Action.query_error_iff.mp asked).1
  obtain ⟨-, rfl⟩ := Action.query_ok_iff.mp asked
  obtain ⟨a, ofShort⟩ := ContentHash.exists_shortName payload.octets
  obtain ⟨b, ofName⟩ := Artifact.nameFor_name (spelled_of_isOf isOf).1 payload.octets payload.type
  simp only [Path.childText_eq_child ofShort, Path.childText_eq_child ofName] at rest
  cases there with
  | true => exact absurd rest Action.pure_error_iff.mp
  | false =>
      rcases Action.bind_error_iff.mp rest with failed | ⟨_, final, -, done⟩
      · exact Or.inr ⟨entries, _, _, a, b, examined, known, Path.childText_eq_child ofShort staging,
          failed⟩
      · exact absurd done Action.pure_error_iff.mp

end Packaging
end StackSynth
