import StackSynth.Proofs.Relisting
import StackSynth.Proofs.Staging
import StackSynth.Proofs.Tar

/-!
# Verifying — what was staged has the hash of its source

Whoever hashes a staged artifact again gets the hash that its name was made of.  The three ways of
staging write different things: the file itself, a compressed stream of members, or a tree that is
listed anew.  Only the last one can fail, where a path in the staged tree is longer than that in
the source, and too long for a look-up.

* `FileSystem.fit_of_stat` — the names on the way to something that is found;
* `Listing.legible` — what a source with names that are text tells of its members;
* `Artifact.Verified` — what is staged has the hash of the artifact;
* `Packaging.Staged.verified` — whatever is staged tells its own hash;
* `Packaging.package_verified` — and so a call that stages an artifact leaves one that verifies.
-/

namespace StackSynth

namespace FileSystem

variable {fs : FileSystem}

/-- No name on the way of a walk is too long. -/
theorem fit_of_walk {follow : Bool} {links : Nat} {here : Location} {steps : List Path.Step}
    {place : Place} (through : walk fs follow links here steps = .ok place) {name : Name}
    (passed : .down name ∈ steps) : name.bytes.length ≤ nameLimit := by
  fun_induction walk fs follow links here steps <;> grind

theorem fit_of_stat {p : Path} {names : List Name} {found : Location × Object}
    (ok : fs.stat (p.descend names) = .ok found) : Fit names := by
  obtain ⟨l, object⟩ := found
  have through := (locate_eq_ok_iff.mp (stat_eq_ok_iff.mp ok)).2
  intro name member
  refine fit_of_walk through ?_
  have step : .down name ∈ (p.descend names).steps := by
    rw [Path.steps_descend]
    exact List.mem_append_right _ (List.mem_map_of_mem member)
  unfold stepsOf
  split
  · exact List.mem_append_left _ step
  · exact step

theorem get?_of_walk {follow : Bool} {links : Nat} {here l : Location} {steps : List Path.Step}
    {object : Object} (other : object ≠ .directory)
    (through : walk fs follow links here steps = .ok ⟨l, some object⟩) :
    fs.get? l = some object := by
  fun_induction walk fs follow links here steps <;> grind

/-- Every file is shorter than any length that eight octets cannot tell. -/
def Bounded (fs : FileSystem) : Prop :=
  ∀ l content mode, fs.get? l = some (.file content mode) → content.length < 2 ^ 64

theorem Bounded.readFile (bounded : Bounded fs) {p : Path} {content : Bytes} {mode : Nat}
    (read : fs.readFile p = .ok (content, mode)) : content.length < 2 ^ 64 := by
  obtain ⟨l, object, found, reads⟩ := readFile_ok_iff.mp read
  cases reads with
  | file canRead =>
      exact bounded l content mode (get?_of_walk (by simp)
        (locate_eq_ok_iff.mp (stat_eq_ok_iff.mp found)).2)
  | pipe => decide

/-- What stands below an entered directory, if it is no link. -/
theorem stat_child_of_get? {p : Path} {name : Name} {left : Nat} {l : Location} {object : Object}
    (spelled : WellSpelled (p.child name)) (short : name.bytes.length ≤ nameLimit)
    (entered : fs.reach false p = .ok (left, l)) (stands : fs.get? (name :: l) = some object)
    (unlinked : ∀ target, object ≠ .link target) :
    fs.stat (p.child name) = .ok (name :: l, object) := by
  refine (stat_child_iff spelled entered fun target linked => ?_).mpr ⟨short, rfl, stands⟩
  exact unlinked target (Option.some.inj (stands.symm.trans linked))

/-! ### Steps that succeed -/

theorem reach_child_of_get? {p : Path} {name : Name} {left : Nat} {l : Location}
    (short : name.bytes.length ≤ nameLimit) (entered : fs.reach false p = .ok (left, l))
    (stands : fs.get? (name :: l) = some .directory) :
    fs.reach false (p.child name) = .ok (left, name :: l) := by
  rw [reach_child, entered]
  show enter fs false left l [.down name] = _
  rw [enter, if_neg (Nat.not_lt_of_le short), stands, enter]

theorem createAll_child {p : Path} {name : Name} {left : Nat} {l : Location}
    (spelled : WellSpelled (p.child name)) (short : name.bytes.length ≤ nameLimit)
    (entered : fs.reach false p = .ok (left, l)) (free : fs.get? (name :: l) = none) :
    createAll (p.child name) fs = .ok () (fs.set (name :: l) .directory) := by
  have made : fs.mkdir (p.child name) = .ok (fs.set (name :: l) .directory) := by
    rw [mkdir, slot_eq_ok_iff.mpr (isSlot_child spelled short entered)]
    simp [Slot.location, free, bind, Except.bind, pure, Except.pure]
  have own : mkdirOrAccept (p.child name) fs = .ok () (fs.set (name :: l) .directory) := by
    rw [mkdirOrAccept, made]
  rw [createAll]
  cases (p.child name).ancestors with
  | nil =>
      rw [createAllAbove, if_neg (by simp [p.child_not_empty name])]
      exact own
  | cons next above => simp [createAllAbove, p.child_not_empty name, made, own]

theorem temporary_of_reach {p : Path} {left : Nat} {l : Location}
    (spelled : WellSpelled (p.child (freshName (fs.children l)))) (filled : p.isEmpty = false)
    (entered : fs.reach false p = .ok (left, l)) :
    fs.temporary p = .ok (freshName (fs.children l) :: l, p.child (freshName (fs.children l))) := by
  have found : fs.stat p = .ok (l, .directory) :=
    stat_eq_directory_iff.mpr ⟨⟨spelled.of_child, filled⟩, left, entered⟩
  have limited := Nat.not_le_of_lt spelled.2
  simp [temporary, found, limited, bind, Except.bind, pure, Except.pure]

theorem rename_directory_child {p : Path} {name : Name} {left : Nat} {l place : Location}
    {after : FileSystem} (spelled : WellSpelled (p.child name))
    (short : name.bytes.length ≤ nameLimit) (entered : fs.reach false p = .ok (left, l))
    (stands : fs.get? place = some .directory)
    (replaced : fs.replaceDirectory place (name :: l) = .ok after) :
    fs.rename place (p.child name) = .ok after := by
  have free : (p.child name).bytes.contains 0 = false := by simpa using spelled.1
  rw [rename, free, slot_eq_ok_iff.mpr (isSlot_child spelled short entered)]
  simpa [Slot.location, stands, bind, Except.bind, pure, Except.pure] using replaced

/-! ### Links -/

/-- A link stands where a path leads, once the directories that are missing on the way are made. -/
def Linked (fs : FileSystem) (p : Path) : Prop :=
  ∃ V name left l target, p = Path.child V name ∧ fs.reach true V = .ok (left, l)
    ∧ fs.get? (name :: l) = some (.link target)

end FileSystem

open FileSystem

theorem Bytes.splitOn_replicate (sep : UInt8) (count : Nat) :
    Bytes.splitOn sep (List.replicate count sep) = List.replicate (count + 1) [] := by
  induction count with
  | zero => rfl
  | succ count ih =>
      have first := Bytes.splitOn_append_sep sep [] (List.replicate count sep)
      rw [List.nil_append, ih] at first
      exact first

/-- Text below a path makes it no shorter than the text. -/
theorem Path.length_le_childText (p : Path) (text : String) :
    (Utf8.encode text).length ≤ (p.childText text).bytes.length := by
  show _ ≤ (p.join (ofString text)).bytes.length
  have own : (ofString text).bytes = Utf8.encode text := rfl
  unfold join
  split
  · rw [own]
  · split
    · simp [own]
    · simp only [own, List.length_append, List.length_cons]
      omega

theorem Path.zero_mem_descend (p : Path) (names : List Name) :
    0 ∈ (p.descend names).bytes ↔ 0 ∈ p.bytes := by
  induction names generalizing p with
  | nil => rfl
  | cons name rest ih => rw [descend_cons, ih, zero_mem_child]

/-! ## Sources of text -/

namespace Listing

variable {fs : FileSystem} {root : Path} {entries : List Entry} {members : List Member}

/-- Names of which an artifact can be made, so that it is listed again. -/
structure Legible (names : List Name) : Prop where
  some : names ≠ []
  fit : Fit names
  isText : ∀ name ∈ names, name.IsText
  other : names ≠ [ignoreName]

/-- Members are in order, and each of them stands at names that can be told again. -/
structure Ordered (root : Path) (members : List Member) : Prop where
  ascending : members.Pairwise fun a b => a.name < b.name
  named : ∀ member ∈ members, ∃ names, Legible names ∧ member.IsAt names
    ∧ (root.descend names).bytes.length < pathLimit

theorem ordered (well : fs.WellFormed) (textual : TextBelow fs root)
    (listed : collect fs root = .ok entries)
    (now : entries.mapM (Entry.unchanged fs) = .ok members) : Ordered root members := by
  obtain ⟨rules, loaded⟩ := load_of_collect listed
  obtain ⟨paths, listing⟩ := isListing_of_collect well loaded listed
  -- What is listed was found by a lookup, which bounds its path.
  have found : ∀ names ∈ paths, ∀ entry, seen? fs root names = some entry →
      ∃ place, fs.stat (root.descend names) = .ok place := by
    intro names known entry seen
    obtain ⟨l, object, stands, -⟩ := seen?_eq_some_iff.mp seen
    exact ⟨_, stands⟩
  have isText : ∀ names ∈ paths, ∀ name ∈ names, name.IsText := by
    intro names known
    obtain ⟨entry, -, seen⟩ := listing.entry_of_path known
    obtain ⟨place, stands⟩ := found names known entry seen
    exact textual names place stands
  refine ⟨?_, ?_⟩
  · have order := List.pairwise_map.mpr (listing.ascending isText)
    rw [unchanged_names now] at order
    exact List.pairwise_map.mp order
  · intro member known
    obtain ⟨entry, inside, same⟩ := entry_of_member now known
    obtain ⟨names, path, seen⟩ := listing.path_of_entry inside
    obtain ⟨place, stands⟩ := found names path entry seen
    have visible := (listing.visible names).mp path
    obtain ⟨-, -, -, -, named, -⟩ := seen?_eq_some_iff.mp seen
    refine ⟨names, ⟨visible.below, fit_of_stat stands, isText names path, ?_⟩, ?_,
      length_lt_of_stat stands⟩
    · rintro rfl
      exact visible.other rfl
    · rw [Member.IsAt, ← same, named, encode_shown (isText names path)]

theorem Ordered.consistent (ordered : Ordered root members) : Member.Consistent members := by
  have once : (members.map Member.name).Nodup :=
    List.pairwise_map.mpr (ordered.ascending.imp fun less => ne_of_lt less)
  exact fun a memberA b memberB same => List.inj_on_of_nodup_map once memberA memberB same

/-- The names of whatever the members became. -/
theorem Ordered.legible (ordered : Ordered root members) {base : Location}
    (hold : Member.Hold members fs base) {names : List Name} (some : names ≠ [])
    (stands : fs.get? (names.reverse ++ base) ≠ none) :
    Legible names ∧ ∃ member ∈ members, member.IsAt names := by
  obtain ⟨object, stands⟩ := Option.ne_none_iff_exists'.mp stands
  obtain ⟨member, known, isAt, -⟩ := hold.known names object some stands
  obtain ⟨names', legible, isAt', -⟩ := ordered.named member known
  obtain rfl : names = names' := relative_inj some legible.some (isAt.symm.trans isAt')
  exact ⟨legible, member, known, isAt⟩

/-- What was read can be told in records. -/
theorem Ordered.fits (ordered : Ordered root members) (bounded : Bounded fs)
    (now : entries.mapM (Entry.unchanged fs) = .ok members) : ∀ member ∈ members, member.Fits := by
  intro member known
  obtain ⟨names, legible, isAt, limited⟩ := ordered.named member known
  have name : (Utf8.encode member.name).length < 2 ^ 64 := by
    rw [← Path.childText_eq_descend legible.some isAt] at limited
    have part := Path.length_le_childText root member.name
    have limit : pathLimit < 2 ^ 64 := by decide
    omega
  obtain ⟨entry, -, unchanged⟩ := (exists_of_forall₂ (mapM_ok_iff.mp now)).2 member known
  cases kind : entry.kind with
  | directory =>
      obtain rfl := unchanged_directory kind unchanged
      exact name
  | file program length =>
      obtain ⟨content, mode, read, rfl⟩ := unchanged_file kind unchanged
      exact ⟨name, bounded.readFile read⟩

end Listing

/-! ## Artifacts -/

/-- What is found where the artifact was staged has its hash. -/
def Artifact.Verified (artifact : Artifact) (fs : FileSystem) : AssetType → Prop
  | .file => digestFile fs artifact.staged = .ok artifact.hash
  | .archive => ∃ bytes stream members, fs.read artifact.staged = .ok bytes
      ∧ Gzip.contents? bytes = some stream ∧ Tar.read? stream = some members
      ∧ Member.digest members = artifact.hash
  | .directory => Packaging.hash fs artifact.staged .directory = .ok artifact.hash

namespace Packaging

section

variable {fs after : FileSystem} {source : Path} {payload : Payload} {artifact : Artifact}
  {members : List Member} {V : Path} {name : Name} {left : Nat} {l : Location}

/-- Whoever gets to the directory of a file reads it. -/
theorem Staged.read (staged : Staged payload (name :: l) fs after)
    (spelled : WellSpelled (V.child name)) (short : name.bytes.length ≤ nameLimit)
    (entered : after.reach false V = .ok (left, l)) {content : Bytes} {mode : Nat}
    (stands : after.get? (name :: l) = some (.file content mode)) :
    after.read (V.child name) = .ok content := by
  obtain ⟨content', mode', same, canRead⟩ :=
    (staged.plain _ _ (List.suffix_refl _) stands).resolve_left (by simp)
  obtain ⟨rfl, rfl⟩ := Object.file.inj same
  have found : after.stat (V.child name) = .ok (name :: l, .file content mode) :=
    stat_child_of_get? spelled short entered stands (by simp)
  exact read_of_stat found canRead

/-- A tree that was staged is one without surprises. -/
theorem Staged.lucid {members : List Member} {root : Path}
    (staged : Staged (.directory members) (name :: l) fs after)
    (there : after.stat (V.child name) = .ok (name :: l, .directory))
    (ordered : Listing.Ordered root members) (hold : Member.Hold members after (name :: l))
    (short : ∀ member ∈ members, ((V.child name).childText member.name).bytes.length < pathLimit) :
    Listing.Lucid after (V.child name) (name :: l) where
  well := staged.sound.toWellFormed
  there := there
  objects := fun m object below stands => staged.plain m object below.1 stands
  spelled := by
    intro names some stands
    obtain ⟨legible, member, known, isAt⟩ := ordered.legible hold some stands
    have spelled := (stat_eq_directory_iff.mp there).1.1
    refine ⟨⟨fun zero => spelled.1 ((Path.zero_mem_descend _ names).mp zero), ?_⟩, legible.fit⟩
    rw [← Path.childText_eq_descend some isAt]
    exact short member known

/-- What was staged is read, or listed, as its payload. -/
theorem Staged.verified (staged : Staged payload (name :: l) fs after) (root : Path)
    {hash : ContentHash} {fileName : String} (told : hash = ContentHash.ofContent payload.octets)
    (spelled : WellSpelled (V.child name)) (fits : name.bytes.length ≤ nameLimit)
    (entered : after.reach false V = .ok (left, l))
    (ordered : ∀ members, payload = .archive members ∨ payload = .directory members →
      Listing.Ordered root members ∧ ∀ member ∈ members, member.Fits)
    (short : ∀ members, payload = .directory members → ∀ member ∈ members,
      ((V.child name).childText member.name).bytes.length < pathLimit) :
    Artifact.Verified ⟨hash, fileName, V.child name⟩ after payload.type := by
  subst told
  cases payload with
  | file content =>
      obtain ⟨mode, stands⟩ := staged.left.stands trivial
      show digestFile after (V.child name) = _
      rw [digestFile, staged.read spelled fits entered stands]
      rfl
  | archive members =>
      obtain ⟨content, mode, stands, stream⟩ := staged.left.stands trivial
      obtain ⟨ordered, sized⟩ := ordered members (Or.inl rfl)
      have named : ∀ member ∈ members, ∃ names, names ≠ [] ∧ member.IsAt names := by
        intro member known
        obtain ⟨names, legible, isAt, -⟩ := ordered.named member known
        exact ⟨names, legible.some, isAt⟩
      exact ⟨content, Tar.write members, members, staged.read spelled fits entered stands, stream,
        Tar.read?_write named sized, rfl⟩
  | directory members =>
      obtain ⟨ordered, -⟩ := ordered members (Or.inr rfl)
      obtain ⟨stands, hold⟩ := staged.left.stands ordered.consistent
      have there := stat_child_of_get? spelled fits entered stands (by simp)
      have lucid := staged.lucid there ordered hold (short members rfl)
      -- No member is the ignore file, so none stands here and the listing leaves nothing out.
      have absent : after.get? (Listing.ignoreName :: name :: l) = none := by
        by_contra stands
        exact (ordered.legible hold (List.cons_ne_nil Listing.ignoreName []) stands).1.other rfl
      have isText : ∀ names' : List Name, after.get? (names'.reverse ++ name :: l) ≠ none →
          ∀ name ∈ names', name.IsText := by
        intro names' stands next member
        exact (ordered.legible hold (List.ne_nil_of_mem member) stands).1.isText next member
      obtain ⟨entries, listed, now⟩ := lucid.collect_members absent isText hold ordered.ascending
      show Packaging.hash after (V.child name) .directory = _
      have checked : checkSource after (V.child name) .directory = .ok () := by
        rw [checkSource, there]
        rfl
      simp only [Packaging.hash, checked, listed, Listing.digest_eq_ok now, bind, Except.bind]
      rfl

/-- Either the artifact was there, or it was staged where nothing was found. -/
theorem package_staged {staging : Path} (sound : Sound fs) (isOf : payload.IsOf fs source)
    (packaged : package source payload.type staging fs = .ok artifact after) :
    fs.exists? artifact.staged = true ∧ after = fs
      ∨ ∃ V name left l mid, artifact.staged = Path.child V name ∧ WellSpelled (V.child name)
        ∧ name.bytes.length ≤ nameLimit ∧ Grown fs mid ∧ mid.reach false V = .ok (left, l)
        ∧ Staged payload (name :: l) mid after := by
  obtain ⟨version, name, -, path, -, there | ⟨-, entries, mid, examined, made, ran⟩⟩ :=
    package_ok isOf packaged
  · exact Or.inl there
  rw [path] at ran ⊢
  have made' := createAll_made sound (Or.inl ⟨_, made⟩)
  obtain ⟨l, found⟩ := createAll_ok (staging.child_not_empty version) made
  obtain ⟨-, left, entered⟩ := stat_eq_directory_iff.mp found
  obtain ⟨spelled, fits⟩ := stage_spelled made'.sound ran
  exact Or.inr ⟨_, name, left, l, mid, rfl, spelled, fits, made'.grown, entered,
    stage_ok made'.sound sound.toWellFormed made'.grown.toExtends entered isOf examined ran⟩

/-- The directories that are made on the way replace no link. -/
theorem unlinked_of_grown {mid : FileSystem} (unlinked : ¬ Linked fs (V.child name)) (grown : Grown fs mid)
    (entered : mid.reach false V = .ok (left, l)) (target : Path) :
    mid.get? (name :: l) ≠ some (.link target) := by
  intro linked
  refine unlinked ⟨_, name, left, l, target, rfl, ?_, ?_⟩
  · rw [← reach_grown grown]
    exact enter_lenient entered
  · rcases grown.get? (name :: l) with same | ⟨-, directory⟩
    · rw [← same, linked]
    · rw [directory] at linked
      cases linked

/-- A call that stages an artifact leaves one that verifies: where all names below the source are
text, no link was replaced, and the paths of a staged tree are short enough to be looked up. -/
theorem package_verified {type : AssetType} {staging : Path} (sound : Sound fs)
    (textual : Listing.TextBelow fs source) (bounded : Bounded fs)
    (run : package source type staging fs = .ok artifact after)
    (absent : fs.exists? artifact.staged = false) (unlinked : ¬ Linked fs artifact.staged)
    (short : type = .directory → ∀ entries, Listing.collect fs source = .ok entries →
      ∀ entry ∈ entries, (artifact.staged.childText entry.name).bytes.length < pathLimit) :
    artifact.Verified after type := by
  obtain ⟨payload, isOf, rfl⟩ := package_payload run
  obtain ⟨-, -, -, -, told, -⟩ := package_ok isOf run
  rcases package_staged sound isOf run with ⟨there, -⟩
    | ⟨V, name, left, l, mid, path, spelled, fits, grown, entered, staged⟩
  · rw [absent] at there
    cases there
  have again := staged.reach (unlinked_of_grown (path ▸ unlinked) grown entered) entered
  obtain ⟨hash, fileName, _⟩ := artifact
  obtain rfl := path
  refine staged.verified source told spelled fits again ?_ ?_
  · intro members isTree
    obtain ⟨listing, listed, now⟩ := isOf.listed isTree
    have ordered := Listing.ordered sound.toWellFormed textual listed now
    exact ⟨ordered, ordered.fits bounded now⟩
  · -- A path that is short enough in the listing is so for the member.
    rintro members rfl member known
    obtain ⟨listing, listed, now⟩ := isOf.listed (Or.inr rfl)
    obtain ⟨entry, inside, same⟩ := Listing.entry_of_member now known
    rw [← same]
    exact short rfl _ listed entry inside

end

/-! ## A long staging path -/

namespace LongStaging

def temporaries : Name := ⟨[116, 109, 112], by decide⟩

def source : Name := ⟨[112], by decide⟩

/-- A name of 21 octets. -/
def inner : Name := ⟨List.replicate 21 97, by decide⟩

/-- A directory `p` with an empty directory in it, and `/tmp`. -/
def start : FileSystem where
  objects := [([inner, source], .directory), ([source], .directory), ([temporaries], .directory)]
  current := []

def entry : Entry := ⟨String.ofList (List.replicate 21 'a'), Path.child ⟨source.bytes⟩ inner, .directory⟩

def member : Member := .directory entry.name

/-- The short form of the hash of `p`. -/
def short : Name := ⟨Utf8.encode "2c3423b8dd787d8c", by cbv⟩

/-- Where the artifact of `p` is staged. -/
def pathIn (staging : Path) : Path := (staging.child short).child short

def artifactIn (staging : Path) : Artifact :=
  ⟨Member.digest [member], "2c3423b8dd787d8c", pathIn staging⟩

theorem artifactIn_staged (staging : Path) : (artifactIn staging).staged = pathIn staging := rfl

theorem digest_member : Member.digest [member]
    = ⟨"sha256:2c3423b8dd787d8c6eb9d22f30e75c66245b9a9eccad3497cf987b4d93c23d33"⟩ := by
  decide +kernel

theorem collect_source : Listing.collect start ⟨source.bytes⟩ = .ok [entry] := by
  have loaded : IgnoreRules.load start ⟨source.bytes⟩ = .ok .none := by cbv
  have found : start.stat ⟨source.bytes⟩ = .ok ([source], .directory) := by cbv
  have inside : start.children [source] = [inner] := by cbv
  simp only [Listing.collect, loaded, found, inside, Except.mapError, bind, Except.bind,
    Listing.walk_cons]
  cbv

/-- The source is packaged once its artifact is staged. -/
theorem package_source {staging : Path} {after : FileSystem}
    (missing : start.exists? (pathIn staging) = false)
    (made : stageIn ⟨source.bytes⟩ .directory [entry] (staging.child short)
      (pathIn staging) start = .ok () after) :
    package ⟨source.bytes⟩ .directory staging start = .ok (artifactIn staging) after := by
  have checked : checkSource start ⟨source.bytes⟩ .directory = .ok () := by cbv
  have now : [entry].mapM (Entry.unchanged start) = .ok [member] := by cbv
  have digest : Listing.digest start [entry] = .ok (Member.digest [member]) :=
    Listing.digest_eq_ok now
  have examined : examine start ⟨source.bytes⟩ .directory = .ok ([entry], Member.digest [member]) := by
    simp only [examine, checked, collect_source, digest, bind, Except.bind, pure, Except.pure]
  have known : shortOf (Member.digest [member]) = .ok "2c3423b8dd787d8c" := by
    rw [digest_member]
    cbv
  have named : Name.ofText? "2c3423b8dd787d8c" = some short := Name.ofBytes?_bytes short
  have path : pathIn staging
      = (staging.childText "2c3423b8dd787d8c").childText "2c3423b8dd787d8c" := by
    rw [Path.childText_eq_child named, Path.childText_eq_child named]
    rfl
  rw [← Path.childText_eq_child named] at made
  exact package_new examined known (by cbv) path.symm missing made

/-! ### What stands there -/

theorem stands_cases {l : Location} {object : Object} (inside : l ≠ [])
    (stands : start.get? l = some object) :
    (l = [inner, source] ∨ l = [source] ∨ l = [temporaries]) ∧ object = .directory := by
  have known := (get?_eq_some_iff (by decide) inside).mp stands
  simp only [start, List.mem_cons, List.not_mem_nil, or_false, Prod.mk.injEq] at known
  rcases known with ⟨rfl, rfl⟩ | ⟨rfl, rfl⟩ | ⟨rfl, rfl⟩ <;> simp

theorem only_inner {names : List Name} (some : names ≠ [])
    (stands : start.get? (names.reverse ++ [source]) ≠ none) : names = [inner] := by
  obtain ⟨object, stands⟩ := Option.ne_none_iff_exists'.mp stands
  have other : source ≠ temporaries := by decide
  have above : ∀ more : List Name, names.reverse ++ [source] = more ++ [source] →
      names.reverse = more := fun _ => List.append_cancel_right
  rcases (stands_cases (by simp) stands).1 with place | place | place
  · exact List.reverse_injective (above [inner] place)
  · exact absurd (List.reverse_eq_nil_iff.mp (above [] place)) some
  · have last := congrArg List.getLast? place
    rw [List.getLast?_concat] at last
    exact absurd (Option.some.inj last) other

theorem lucid : Listing.Lucid start ⟨source.bytes⟩ [source] where
  well := .of_objects (by decide) (by decide)
  there := by cbv
  objects := fun l object below stands => Or.inl (stands_cases below.ne_nil stands).2
  spelled := by
    intro names some stands
    obtain rfl := only_inner some stands
    refine ⟨⟨by decide, by decide⟩, ?_⟩
    intro name member
    obtain rfl := List.mem_singleton.mp member
    decide

theorem sound : Sound start :=
  ⟨lucid.well, rfl⟩

theorem textual : Listing.TextBelow start ⟨source.bytes⟩ := by
  rintro names ⟨l, object⟩ found name member
  obtain ⟨rfl, stands⟩ := (lucid.stat_iff (List.ne_nil_of_mem member)).mp found
  obtain rfl := only_inner (List.ne_nil_of_mem member) (by simp [stands])
  obtain rfl := List.mem_singleton.mp member
  exact ⟨entry.name, by cbv⟩

theorem bounded : Bounded start := by
  intro l content mode stands
  have inside : l ≠ [] := by
    rintro rfl
    rw [get?_root] at stands
    cases stands
  cases (stands_cases inside stands).2

theorem unlinked (p : Path) : ¬ Linked start p := by
  rintro ⟨V, name, left, l, target, -, -, linked⟩
  cases (stands_cases (List.cons_ne_nil _ _) linked).2

/-! ### Short enough -/

/-- The directory `n`. -/
def near : Path := ⟨[110]⟩

def nearRoot : Location := [⟨[110], by decide⟩]

/-- After `p` was staged in `n`. -/
def nearStaged : FileSystem where
  objects := [(inner :: short :: short :: nearRoot, .directory), (short :: short :: nearRoot, .directory),
    (short :: nearRoot, .directory), (nearRoot, .directory)] ++ start.objects
  current := []

theorem missing_near : start.exists? (pathIn near) = false := by cbv

theorem stages_near : stageIn ⟨source.bytes⟩ .directory [entry] (near.child short)
    (pathIn near) start = .ok () nearStaged := by
  have made : createAll (near.child short) start
      = .ok () ⟨(short :: nearRoot, .directory) :: (nearRoot, .directory) :: start.objects, []⟩ := by
    cbv
  refine stageIn_done made ?_
  unfold stage
  cbv

theorem near_verified : (artifactIn near).Verified nearStaged .directory := by
  refine package_verified sound textual bounded (package_source missing_near stages_near) missing_near
    (unlinked _) ?_
  intro _ entries listed known member
  obtain rfl := Except.ok.inj (collect_source.symm.trans listed)
  obtain rfl := List.mem_singleton.mp member
  decide +kernel

/-! ### Too long -/

/-- `/tmp` with a slash behind it, and some more of them. -/
def spread (count : Nat) : Path := ⟨slash :: (temporaries.bytes ++ slash :: List.replicate count slash)⟩

theorem steps_spread (count : Nat) : (spread count).steps = [.down temporaries] := by
  have first := Bytes.splitOn_append_sep slash []
    (temporaries.bytes ++ slash :: List.replicate count slash)
  rw [List.nil_append, Bytes.splitOn_append_sep, Bytes.splitOn_of_not_mem temporaries.slash_not_mem,
    Bytes.splitOn_replicate] at first
  rw [Path.steps, spread, first]
  simp [Bytes.splitOn, Path.step?_nil]

theorem reach_spread {fs : FileSystem} (stands : fs.get? [temporaries] = some .directory)
    (count : Nat) : fs.reach false (spread count) = .ok (linkLimit, [temporaries]) := by
  have absolute : (spread count).isAbsolute = true := rfl
  have short : ¬ nameLimit < temporaries.bytes.length := by decide
  rw [FileSystem.reach, steps_spread, origin, absolute]
  simp [enter, short, stands]

theorem zero_not_mem_spread (count : Nat) : 0 ∉ (spread count).bytes := by
  have name := temporaries.zero_not_mem
  simp [spread, slash, name]

theorem length_child_spread (count : Nat) (name : Name) :
    ((spread count).child name).bytes.length = count + 5 + name.bytes.length := by
  have filled : (spread count).isEmpty = false := rfl
  have last : (spread count).bytes.getLast? = some slash := by
    rw [spread, List.getLast?_cons, List.getLast?_append, List.getLast?_cons, List.getLast?_replicate]
    cases count <;> simp
  rw [Path.child_bytes, filled, last]
  simp only [Bool.false_eq_true, if_false, beq_self_eq_true, if_true, List.length_append, spread,
    List.length_cons, List.length_replicate, temporaries, List.length_nil]
  omega

theorem length_child_child (p : Path) (a b : Name) :
    ((p.child a).child b).bytes.length = (p.child a).bytes.length + 1 + b.bytes.length := by
  have last : ((p.child a).bytes.getLast? == some slash) = false := p.child_wantsDirectory a
  rw [Path.child_bytes, p.child_not_empty a, last]
  simp
  omega

/-- So long a path that one below a staged artifact is longer than the same below a temporary
directory beside it, and only the latter can be looked up. -/
def far : Path := spread 4036

def farRoot : Location := [temporaries]

def version : FileSystem := start.set (short :: farRoot) .directory

def temporary : Name := freshName (version.children (short :: farRoot))

def begun : FileSystem := version.set (temporary :: short :: farRoot) .directory

def copied : FileSystem := begun.set (inner :: temporary :: short :: farRoot) .directory

def farStaged : FileSystem :=
  copied.moveTree (temporary :: short :: farRoot) (short :: short :: farRoot)

theorem spelled_temporary : WellSpelled ((((far.child short).child temporary)).child inner) := by
  refine ⟨?_, ?_⟩
  · simp only [Path.zero_mem_child]
    exact zero_not_mem_spread _
  · rw [length_child_child, length_child_child, far, length_child_spread]
    cbv

theorem spelled_staged : WellSpelled (pathIn far) := by
  refine ⟨?_, ?_⟩
  · simp only [pathIn, Path.zero_mem_child]
    exact zero_not_mem_spread _
  · rw [pathIn, length_child_child, far, length_child_spread]
    cbv

theorem long_inside : pathLimit ≤ ((pathIn far).child inner).bytes.length := by
  rw [pathIn, length_child_child, length_child_child, far, length_child_spread]
  cbv

theorem missing_far : start.exists? (pathIn far) = false := by
  cases found : start.stat (pathIn far) with
  | error fault => simp [exists?, found]
  | ok place =>
      obtain ⟨-, left, l, entered⟩ := reach_of_stat_child found
      have absent : start.get? (short :: farRoot) = none := by cbv
      have fits : ¬ nameLimit < short.bytes.length := by cbv
      rw [reach_child, far, reach_spread (by cbv)] at entered
      replace entered : enter start false linkLimit farRoot [.down short] = .ok (left, l) := entered
      rw [enter, if_neg fits, absent] at entered
      cases entered

theorem stages_far : stageIn ⟨source.bytes⟩ .directory [entry] (far.child short) (pathIn far) start
    = .ok () farStaged := by
  have fits : short.bytes.length ≤ nameLimit := by cbv
  have fits' : temporary.bytes.length ≤ nameLimit := by cbv
  have root : start.reach false far = .ok (linkLimit, farRoot) := reach_spread (by cbv) _
  have made : createAll (far.child short) start = .ok () version :=
    createAll_child spelled_staged.of_child fits root (by cbv)
  have entered : version.reach false (far.child short) = .ok (linkLimit, short :: farRoot) :=
    reach_child_of_get? fits (reach_spread (by cbv) _) (by cbv)
  have fresh : version.temporary (far.child short)
      = .ok (temporary :: short :: farRoot, (far.child short).child temporary) :=
    temporary_of_reach spelled_temporary.of_child (Path.child_not_empty _ _) entered
  have again : begun.reach false (far.child short) = .ok (linkLimit, short :: farRoot) :=
    reach_child_of_get? fits (reach_spread (by cbv) _) (by cbv)
  have inside : begun.reach false ((far.child short).child temporary)
      = .ok (linkLimit, temporary :: short :: farRoot) :=
    reach_child_of_get? fits' again (by cbv)
  have copies : copyEntries ((far.child short).child temporary) [entry] begun = .ok () copied := by
    have named : Name.ofText? entry.name = some inner := Name.ofBytes?_bytes inner
    have placed := createAll_child spelled_temporary (by decide) inside (by cbv)
    simp only [copyEntries, Path.childText_eq_child named]
    exact Action.bind_ok_iff.mpr ⟨(), copied, placed, rfl⟩
  have moved : copied.rename (temporary :: short :: farRoot) (pathIn far) = .ok farStaged :=
    rename_directory_child spelled_staged fits
      (reach_child_of_get? fits (reach_spread (by cbv) _) (by cbv)) (by cbv) (by cbv)
  refine stageIn_done made ?_
  rw [stage, withTemporaryDirectory]
  refine Action.bind_ok_iff.mpr ⟨_, _, Action.query_ok_iff.mpr ⟨fresh, rfl⟩, ?_⟩
  refine Action.bind_ok_iff.mpr ⟨PUnit.unit, begun, Action.modify_ok_iff.mpr rfl, ?_⟩
  refine Action.onFailure_ok_iff.mpr (Action.bind_ok_iff.mpr ⟨(), copied, copies, ?_⟩)
  exact Action.step_ok_iff.mpr moved

theorem far_unverified : ¬ (artifactIn far).Verified farStaged .directory := by
  intro verified
  rw [Artifact.Verified, artifactIn_staged] at verified
  have fits : short.bytes.length ≤ nameLimit := by cbv
  have entered : farStaged.reach false (far.child short) = .ok (linkLimit, short :: farRoot) :=
    reach_child_of_get? fits (reach_spread (by cbv) _) (by cbv)
  have stands : farStaged.get? (short :: short :: farRoot) = some .directory := by cbv
  have root : farStaged.stat (pathIn far) = .ok (short :: short :: farRoot, .directory) :=
    stat_child_of_get? spelled_staged fits entered stands (by simp)
  have loaded : IgnoreRules.load farStaged (pathIn far) = .ok .none :=
    Listing.load_of_absent (reach_child_of_get? fits entered stands) (by cbv)
  have children : farStaged.children (short :: short :: farRoot) = [inner] := by cbv
  have ahead : farStaged.get? (inner :: short :: short :: farRoot) = some .directory := by cbv
  have kept : IgnoreRules.none.ignores (Listing.relative ([] ++ [inner])) true = false := by
    cbv
  -- What was staged is there, but has no path.
  have lost : ∃ fault, farStaged.stat ((pathIn far).child inner) = .error fault := by
    cases found : farStaged.stat ((pathIn far).child inner) with
    | error fault => exact ⟨fault, rfl⟩
    | ok place => exact absurd (length_lt_of_stat found) (Nat.not_lt_of_le long_inside)
  obtain ⟨fault, lost⟩ := lost
  have listed : ∃ e, Listing.collect farStaged (pathIn far) = .error e := by
    simp only [Listing.collect, loaded, root, children, Listing.walk_cons, Listing.leadsToDirectory,
      ahead, kept, lost, Except.mapError, bind, Except.bind]
    exact ⟨_, rfl⟩
  obtain ⟨e, listed⟩ := listed
  obtain ⟨entries, examined⟩ := hash_eq_ok_iff.mp verified
  rcases examine_cases examined with ⟨isFile, -⟩ | ⟨-, other, -⟩
  · cases isFile
  · rw [listed] at other
    cases other

/-- Not every staged directory verifies. -/
theorem far_not_verified : ¬ ∀ (fs after : FileSystem) (source staging : Path) (type : AssetType)
    (artifact : Artifact), Sound fs → Listing.TextBelow fs source → Bounded fs →
    package source type staging fs = .ok artifact after → fs.exists? artifact.staged = false →
    ¬ Linked fs artifact.staged → artifact.Verified after type := by
  intro claim
  have packaged := package_source missing_far stages_far
  have missing : start.exists? (artifactIn far).staged = false := by
    rw [artifactIn_staged]
    exact missing_far
  exact far_unverified (claim _ _ _ _ _ _ sound textual bounded packaged missing (unlinked _))

end LongStaging
end Packaging
end StackSynth
