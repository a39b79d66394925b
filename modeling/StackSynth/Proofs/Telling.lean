import StackSynth.Proofs.Identity

/-!
# Telling — when names on display tell paths apart

A listing names its entries in text, and octets of a name that are no text are shown as U+FFFD.
Two names of one directory may so be shown alike.  Whether this happens among what is visible
decides everything that a reader would expect of the names: that they come in ascending order, that
different trees are hashed as different octets, and that a copy has as many objects as the source.

* `Listing.Telling` — the names of two trees that are shown alike are the same;
* `Listing.Telling.shown_inj` — it is enough to look at the names in one directory;
* `Listing.IsListing.ascending_iff` — a listing ascends if and only if its names tell;
* `Listing.encoding_eq_iff` — if they tell, equal encodings mean equal trees;
* `Listing.Telling.places` — as many places are filled as there are different names;
* `listing_tells` — all of this about one listing.
-/

namespace StackSynth

namespace Listing

open FileSystem

variable {fs fs' after : FileSystem} {rules rules' : IgnoreRules} {root root' : Path}
  {entries entries' : List Entry} {paths paths' : List (List Name)} {members members' : List Member}

/-! ## Names that tell -/

/-- Two names in a directory, one visible in each tree, are shown alike only if they are one. -/
def Telling (fs : FileSystem) (rules : IgnoreRules) (root : Path) (fs' : FileSystem)
    (rules' : IgnoreRules) (root' : Path) : Prop :=
  ∀ above a b, Visible fs rules root (above ++ [a]) → Visible fs' rules' root' (above ++ [b]) →
    a.display = b.display → a = b

/-- What is shown tells the display of each name. -/
theorem displays_of_shown {names others : List Name} (some : names ≠ []) (more : others ≠ [])
    (same : shown names = shown others) : names.map Name.display = others.map Name.display := by
  have octets : ∀ names : List Name,
      Utf8.encode (shown names) = (relative (names.map Name.displayed)).bytes := by
    intro names
    rw [shown, Utf8.encode_joinWith, relative]
    simp [Function.comp_def]
  have displayed : names.map Name.displayed = others.map Name.displayed := by
    refine relative_inj (by simpa using some) (by simpa using more) ?_
    rw [← octets, ← octets, same]
  have texts := congrArg (List.map Name.text?) displayed
  have read : ∀ name : Name, name.displayed.text? = Option.some name.display := fun name =>
    Utf8.decode?_encode name.display
  simp only [List.map_map, Function.comp_def, read] at texts
  have images : (names.map Name.display).map Option.some = (others.map Name.display).map Option.some := by
    simpa only [List.map_map, Function.comp_def] using texts
  exact (List.map_inj_right fun _ _ => Option.some.inj).mp images

/-- Names that tell in every directory tell whole paths: the parts of a path above its last name
are visible themselves. -/
theorem Telling.eq_of_displays (telling : Telling fs rules root fs' rules' root')
    {names others : List Name} (visible : Visible fs rules root names)
    (visible' : Visible fs' rules' root' others)
    (same : names.map Name.display = others.map Name.display) : names = others := by
  induction names using List.reverseRecOn generalizing others with
  | nil => exact absurd rfl visible.below
  | append_singleton above a ih =>
      obtain ⟨above', b, rfl⟩ : ∃ above' b, others = above' ++ [b] :=
        ⟨_, _, (List.dropLast_concat_getLast visible'.below).symm⟩
      rw [List.map_append, List.map_append] at same
      obtain ⟨front, last⟩ := List.append_inj' same rfl
      obtain rfl : above = above' := by
        by_cases root : above = []
        · subst root
          exact (List.map_eq_nil_iff.mp front.symm).symm
        · have root' : above' ≠ [] := by
            rintro rfl
            exact root (List.map_eq_nil_iff.mp front)
          exact ih (visible.above root (by simp)).1 (visible'.above root' (by simp)).1 front
      obtain rfl := telling above a b visible visible' (List.cons.inj last).1
      rfl

theorem Telling.shown_inj (telling : Telling fs rules root fs' rules' root')
    {names others : List Name} (visible : Visible fs rules root names)
    (visible' : Visible fs' rules' root' others) (same : shown names = shown others) :
    names = others :=
  telling.eq_of_displays visible visible' (displays_of_shown visible.below visible'.below same)

/-- Names that are text always tell. -/
theorem Textual.telling (textual : Textual fs rules root) (textual' : Textual fs' rules' root') :
    Telling fs rules root fs' rules' root' := by
  intro above a b visible visible' same
  have isText := textual _ visible a (by simp)
  have isText' := textual' _ visible' b (by simp)
  refine Name.ext ?_
  rw [← isText.displayed_eq, ← isText'.displayed_eq, Name.displayed_bytes, Name.displayed_bytes, same]

/-! ## The order of a listing -/

/-- The names of a listing come once each if and only if they tell. -/
theorem IsListing.nodup_iff (listing : IsListing fs rules root entries paths) :
    (entries.map Entry.name).Nodup ↔ Telling fs rules root fs rules root := by
  rw [listing.names_eq]
  constructor
  · intro once above a b visible visible' same
    have known := (listing.visible _).mpr visible
    have known' := (listing.visible _).mpr visible'
    have alike : shown (above ++ [a]) = shown (above ++ [b]) := by
      simp [shown, same]
    have equal := List.inj_on_of_nodup_map once known known' alike
    exact (List.cons.inj (List.append_cancel_left equal)).1
  · intro telling
    refine listing.once.map_on fun names known others known' same => ?_
    exact telling.shown_inj ((listing.visible names).mp known) ((listing.visible others).mp known') same

theorem IsListing.ascending_iff (listing : IsListing fs rules root entries paths) :
    (entries.Pairwise fun a b => a.name < b.name) ↔ Telling fs rules root fs rules root := by
  rw [← listing.nodup_iff, List.Nodup, List.pairwise_map]
  constructor
  · exact fun ascending => ascending.imp fun less => ne_of_lt less
  · intro apart
    refine (listing.ordered.and apart).imp fun ⟨order, differ⟩ => ?_
    exact lt_of_le_of_ne (Utf8.encode_le_iff.mp order) differ

/-! ## Trees and what is hashed of them -/

/-- The names of a listing that tell are in ascending order as they are shown. -/
theorem IsListing.ascending_of_telling (listing : IsListing fs rules root entries paths)
    (telling : Telling fs rules root fs rules root) :
    paths.Pairwise fun a b => shown a < shown b := by
  have order := List.pairwise_map.mpr (listing.ascending_iff.mpr telling)
  rw [listing.names_eq] at order
  exact List.pairwise_map.mp order

/-- Names that tell leave the paths of a listing no choice. -/
theorem SameTree.paths_eq_of_telling (same : SameTree fs rules root fs' rules' root')
    (telling : Telling fs rules root fs' rules' root')
    (listing : IsListing fs rules root entries paths)
    (listing' : IsListing fs' rules' root' entries' paths') : paths = paths' := by
  have own : Telling fs rules root fs rules root := fun above a b visible visible' =>
    telling above a b visible ((same.visible _).mp visible')
  have own' : Telling fs' rules' root' fs' rules' root' := fun above a b visible visible' =>
    telling above a b ((same.visible _).mpr visible) visible'
  exact same.paths_eq_of_ascending listing listing' (listing.ascending_of_telling own)
    (listing'.ascending_of_telling own')

/-- Names of the same display belong to the same paths, one by one. -/
theorem Telling.paths_eq (telling : Telling fs rules root fs' rules' root')
    (visible : ∀ names ∈ paths, Visible fs rules root names)
    (visible' : ∀ names ∈ paths', Visible fs' rules' root' names)
    (same : paths.map shown = paths'.map shown) : paths = paths' := by
  induction paths generalizing paths' with
  | nil => exact (List.map_eq_nil_iff.mp same.symm).symm
  | cons names rest ih =>
      cases paths' with
      | nil => cases same
      | cons others rest' =>
          simp only [List.forall_mem_cons] at visible visible'
          obtain ⟨first, more⟩ := List.cons.inj same
          rw [telling.shown_inj visible.1 visible'.1 first, ih visible.2 visible'.2 more]

/-- Members have the names that their paths are shown as. -/
theorem shown_of_held (held : paths.map (held? fs root) = members.map some) :
    paths.map shown = members.map Member.name := by
  induction paths generalizing members with
  | nil => rw [List.map_eq_nil_iff.mp held.symm]; rfl
  | cons names rest ih =>
      cases members with
      | nil => cases held
      | cons member more =>
          obtain ⟨first, others⟩ := List.cons.inj held
          have own : member.name = shown names := by
            unfold held? at first
            split at first <;> first | cases first; rfl | cases first
          rw [List.map_cons, List.map_cons, own, ih others]

/-- What is hashed of two trees is the same if and only if the trees are, as far as names tell. -/
theorem members_eq_iff (telling : Telling fs rules root fs' rules' root')
    (listing : IsListing fs rules root entries paths)
    (listing' : IsListing fs' rules' root' entries' paths')
    (held : paths.map (held? fs root) = members.map some)
    (held' : paths'.map (held? fs' root') = members'.map some) :
    members = members' ↔ SameTree fs rules root fs' rules' root' := by
  constructor
  · rintro rfl
    obtain rfl : paths = paths' := telling.paths_eq (fun names => (listing.visible names).mp)
      (fun names => (listing'.visible names).mp) ((shown_of_held held).trans (shown_of_held held').symm)
    refine ⟨fun names => (listing.visible names).symm.trans (listing'.visible names), ?_⟩
    intro names visible
    exact List.map_inj_left.mp (held.trans held'.symm) names ((listing.visible names).mpr visible)
  · intro same
    obtain rfl := same.paths_eq_of_telling telling listing listing'
    have images : members.map some = members'.map some := by
      rw [← held, ← held']
      exact List.map_congr_left fun names known =>
        same.held names ((listing.visible names).mp known)
    exact (List.map_inj_right fun _ _ => Option.some.inj).mp images

/-- The same of the octets that are hashed, if lengths can be told in them. -/
theorem encoding_eq_iff (well : fs.WellFormed) (well' : fs'.WellFormed)
    (loaded : IgnoreRules.load fs root = .ok rules) (loaded' : IgnoreRules.load fs' root' = .ok rules')
    (listed : collect fs root = .ok entries) (listed' : collect fs' root' = .ok entries')
    (now : entries.mapM (Entry.unchanged fs) = .ok members)
    (now' : entries'.mapM (Entry.unchanged fs') = .ok members')
    (fits : ∀ member ∈ members, member.Fits) (fits' : ∀ member ∈ members', member.Fits)
    (telling : Telling fs rules root fs' rules' root') :
    Member.encoding members = Member.encoding members' ↔ SameTree fs rules root fs' rules' root' := by
  have held : ∀ {fs root rules} {entries : List Entry} {members : List Member}, fs.WellFormed →
      IgnoreRules.load fs root = .ok rules → collect fs root = .ok entries →
      entries.mapM (Entry.unchanged fs) = .ok members →
      ∃ paths, IsListing fs rules root entries paths ∧ paths.map (held? fs root) = members.map some := by
    intro fs root rules entries members well loaded listed now
    obtain ⟨paths, listing⟩ := isListing_of_collect well loaded listed
    obtain ⟨others, held⟩ := listing.exists_members
    obtain ⟨-, rfl⟩ := (listing.mapM_iff held fun holds => holds.unchanged_iff).mp now
    exact ⟨paths, listing, held⟩
  obtain ⟨paths, listing, own⟩ := held well loaded listed now
  obtain ⟨paths', listing', own'⟩ := held well' loaded' listed' now'
  rw [← members_eq_iff telling listing listing' own own']
  exact ⟨Member.encoding_inj fits fits', congrArg Member.encoding⟩

end Listing

namespace Packaging

open FileSystem Listing

variable {start fs after : FileSystem} {source V : Path} {name : Name} {left : Nat} {l : Location}
  {entries : List Entry} {base : Location}

/-! ## Places of a copy -/

/-- The places below `base` where something stands, told by their names. -/
structure Fills (places : List (List Name)) (fs : FileSystem) (base : Location) : Prop where
  once : places.Nodup
  all : ∀ names, names ∈ places ↔ names ≠ [] ∧ fs.get? (names.reverse ++ base) ≠ none

/-- Entries of one name share a place, and entries of different names do not. -/
theorem CopyState.fills {now : FileSystem} (state : CopyState start base entries entries now) :
    ∃ places, Fills places now base ∧ places.length = (entries.map Entry.name).dedup.length := by
  -- Every name has its place, and different names have different ones, as a place tells its name.
  have place : ∀ text ∈ (entries.map Entry.name).dedup, ∃ names : List Name,
      names ≠ [] ∧ Utf8.encode text = (relative names).bytes
        ∧ now.get? (names.reverse ++ base) ≠ none := by
    intro text member
    obtain ⟨entry, known, rfl⟩ := List.mem_map.mp (List.mem_dedup.mp member)
    exact state.there entry known
  obtain ⟨places, all⟩ := exists_forall₂ place
  have texts : places.map (fun names => (relative names).bytes)
      = (entries.map Entry.name).dedup.map Utf8.encode := by
    have same := List.forall₂_map_left_iff.mpr (List.forall₂_map_right_iff.mpr
      (all.flip.imp fun names text found => found.2.1.symm))
    exact List.forall₂_eq_eq_eq ▸ same
  refine ⟨places, ⟨?_, ?_⟩, (all.length_eq).symm⟩
  · have once : ((entries.map Entry.name).dedup.map Utf8.encode).Nodup :=
      (List.nodup_dedup _).map fun _ _ => Utf8.encode_inj
    rw [← texts] at once
    exact once.of_map _
  · intro names
    constructor
    · intro member
      obtain ⟨text, -, some, -, stands⟩ := (exists_of_forall₂ all).2 names member
      exact ⟨some, stands⟩
    · rintro ⟨some, stands⟩
      obtain ⟨object, found⟩ := Option.ne_none_iff_exists'.mp stands
      obtain ⟨entry, known, isAt, -⟩ := state.known names object some found
      have text : entry.name ∈ (entries.map Entry.name).dedup :=
        List.mem_dedup.mpr (List.mem_map_of_mem known)
      obtain ⟨others, member, more, same, -⟩ := (exists_of_forall₂ all).1 _ text
      rwa [relative_inj some more (isAt.symm.trans same)]

theorem Fills.moved {places : List (List Name)} {source target : Location}
    (fills : Fills places fs source) (moved : Moved source target fs after) :
    Fills places after target where
  once := fills.once
  all := by
    intro names
    rw [fills.all, moved.moved]

/-- A copy is found under its path, and has a place for every name of an entry. -/
theorem stageDirectory_fills (sound : Sound fs) (startWell : start.WellFormed)
    (extends' : Extends start fs) (entered : fs.reach false V = .ok (left, l)) {members : List Member}
    (listed : collect start source = .ok entries)
    (now : entries.mapM (Entry.unchanged start) = .ok members)
    (run : stage source .directory entries V (V.child name) fs = .ok () after) :
    after.stat (V.child name) = .ok (name :: l, .directory)
      ∧ ∃ places, Fills places after (name :: l)
        ∧ places.length = (entries.map Entry.name).dedup.length := by
  obtain ⟨spelled, short⟩ := stage_spelled sound run
  have staged := stageDirectory_ok sound startWell extends' entered listed now run
  obtain ⟨fresh, mid, free, state, there, moved, vacant⟩ :=
    stageDirectory_moved sound startWell extends' entered listed now run
  obtain ⟨places, fills, length⟩ := state.fills
  refine ⟨?_, places, fills.moved moved, length⟩
  -- No link stood where the directory was moved to.
  have unlinked : ∀ path, fs.get? (name :: l) ≠ some (.link path) := by
    intro path stands
    by_cases same : name :: l = fresh :: l
    · rw [same, free.nothing] at stands
      cases stands
    · have apart : ¬ fresh :: l <:+ name :: l := fun within =>
        same (List.IsSuffix.eq_of_length within rfl).symm
      rw [← state.toConfined.apart free apart] at stands
      rcases (vacant.resolve_left same).own with own | own <;> rw [own] at stands <;> cases stands
  have found := moved.moved []
  rw [List.nil_append, List.nil_append, there] at found
  rw [stat_child spelled (staged.reach unlinked entered), FileSystem.walk,
    if_neg (Nat.not_lt.mpr short), found]
  simp [FileSystem.walk, Except.bind]

/-- The same of a package that was not there before. -/
theorem package_fills {staging : Path} {artifact : Artifact} (sound : Sound fs)
    (listed : collect fs source = .ok entries)
    (run : package source .directory staging fs = .ok artifact after)
    (missing : fs.exists? artifact.staged = false) :
    ∃ target places, after.stat artifact.staged = .ok (target, .directory)
      ∧ Fills places after target ∧ places.length = (entries.map Entry.name).dedup.length := by
  obtain ⟨payload, isOf, type⟩ := package_payload run
  rw [← type] at run
  cases isOf with
  | file read => cases type
  | archive listed' now => cases type
  | directory listed' now =>
      obtain ⟨short, name, -, staged, -, ⟨there, -⟩ | ⟨-, others, mid, examined, made, run⟩⟩ :=
        package_ok (.directory listed' now) run
      · rw [missing] at there
        cases there
      · have made' := createAll_made sound (Or.inl ⟨_, made⟩)
        obtain ⟨l, found⟩ := createAll_ok (staging.child_not_empty short) made
        obtain ⟨-, left, entered⟩ := stat_eq_directory_iff.mp found
        rcases examine_cases examined with ⟨wrong, -⟩ | ⟨-, again, -⟩
        · cases wrong
        · obtain rfl := Except.ok.inj (again.symm.trans listed')
          obtain rfl := Except.ok.inj (again.symm.trans listed)
          rw [staged] at run ⊢
          obtain ⟨stands, places, fills, length⟩ := stageDirectory_fills made'.sound
            sound.toWellFormed made'.grown.toExtends entered again now run
          exact ⟨_, places, stands, fills, length⟩

end Packaging

open Listing Packaging in
/-- Whether the names of a directory tell its paths apart decides whether its listing ascends,
whether other trees have other octets to be hashed, and whether its copy is complete. -/
theorem listing_tells {fs : FileSystem} {root : Path} {entries : List Entry} (sound : FileSystem.Sound fs)
    (listed : collect fs root = .ok entries) :
    ∃ rules, IgnoreRules.load fs root = .ok rules
      ∧ ((entries.Pairwise fun a b => a.name < b.name) ↔ Telling fs rules root fs rules root)
      ∧ (∀ (fs' : FileSystem) (root' : Path) (rules' : IgnoreRules) (entries' : List Entry)
          (members members' : List Member), fs'.WellFormed →
          IgnoreRules.load fs' root' = .ok rules' → collect fs' root' = .ok entries' →
          entries.mapM (Entry.unchanged fs) = .ok members →
          entries'.mapM (Entry.unchanged fs') = .ok members' →
          (∀ member ∈ members, member.Fits) → (∀ member ∈ members', member.Fits) →
          Telling fs rules root fs' rules' root' →
          (Member.encoding members = Member.encoding members' ↔
            SameTree fs rules root fs' rules' root'))
      ∧ (∀ (staging : Path) (artifact : Artifact) (after : FileSystem),
          package root .directory staging fs = .ok artifact after →
          fs.exists? artifact.staged = false →
          ∃ target places, after.stat artifact.staged = .ok (target, .directory)
            ∧ Fills places after target
            ∧ (places.length = entries.length ↔ Telling fs rules root fs rules root)) := by
  obtain ⟨rules, loaded⟩ := load_of_collect listed
  obtain ⟨paths, listing⟩ := isListing_of_collect sound.toWellFormed loaded listed
  refine ⟨rules, loaded, listing.ascending_iff, ?_, ?_⟩
  · intro fs' root' rules' entries' members members' well' loaded' listed' now now' fits fits' telling
    exact encoding_eq_iff sound.toWellFormed well' loaded loaded' listed listed' now now' fits fits'
      telling
  · intro staging artifact after run missing
    obtain ⟨target, places, stands, fills, length⟩ := package_fills sound listed run missing
    refine ⟨target, places, stands, fills, ?_⟩
    rw [length, ← listing.nodup_iff, ← List.length_map Entry.name]
    constructor
    · exact fun same => List.dedup_eq_self.mp ((List.dedup_sublist _).eq_of_length same)
    · exact fun once => congrArg List.length once.dedup

/-! ### Two names that are shown alike -/

namespace Twins

open Listing

def d : Name := ⟨[100], .refl true⟩
def first : Name := ⟨[255], .refl true⟩
def second : Name := ⟨[254], .refl true⟩

/-- A directory `d` with two empty files, the name of neither of which is text. -/
def start : FileSystem where
  objects := [([first, d], .file [] 0o644), ([second, d], .file [] 0o644), ([d], .directory)]
  current := []

theorem collect_start : collect start ⟨[100]⟩
    = .ok [⟨"\uFFFD", ⟨[100, 47, 255]⟩, .file false 0⟩, ⟨"\uFFFD", ⟨[100, 47, 254]⟩, .file false 0⟩] := by
  have loaded : IgnoreRules.load start ⟨[100]⟩ = .ok .none := by cbv
  have found : start.stat ⟨[100]⟩ = .ok ([d], .directory) := by cbv
  have inside : start.children [d] = [first, second] := by cbv
  simp only [collect, loaded, found, inside, Except.mapError, bind, Except.bind, walk_cons]
  cbv

/-- A listing need not ascend. -/
theorem not_ascending : ¬ ∀ (fs : FileSystem) (root : Path) (entries : List Entry), fs.WellFormed →
    collect fs root = .ok entries → entries.Pairwise fun a b => a.name < b.name := by
  intro claim
  have well : start.WellFormed := .of_objects (by decide) (by decide)
  have ascending := claim start ⟨[100]⟩ _ well collect_start
  exact absurd (List.rel_of_pairwise_cons ascending List.mem_cons_self) (lt_irrefl _)

end Twins

/-- The one name of `loneProgram` tells. -/
theorem loneProgram_tells : ∃ rules, IgnoreRules.load loneProgram ⟨[97]⟩ = .ok rules
    ∧ Listing.Telling loneProgram rules ⟨[97]⟩ loneProgram rules ⟨[97]⟩ := by
  have sound : FileSystem.Sound loneProgram := ⟨.of_objects (by decide) (by decide), rfl⟩
  obtain ⟨rules, loaded, ascending, -⟩ := listing_tells sound loneProgram_listed
  exact ⟨rules, loaded, ascending.mp (List.pairwise_singleton _ _)⟩

end StackSynth
