import StackSynth.Proofs.Members
import StackSynth.Proofs.Places

/-!
# Relisting — a tree of copies is listed again

Where nothing but directories and readable files stands below a path, nothing can go wrong in a
listing, as long as the path of everything is short enough to be looked up.  If the names are
text, they tell the members apart, and their order leaves the list of the members no choice.

* `Name.IsText`, `Listing.TextBelow` — names that are text, and all names below a path;
* `Listing.IsListing.ascending` — then no two entries have one name;
* `Listing.Lucid` — a tree in which every look-up succeeds;
* `Listing.Lucid.walk_ok` — a walk through such a tree succeeds;
* `Listing.Lucid.collect_members` — members that such a tree holds are those that it lists.
-/

namespace StackSynth

/-! ## Text -/

/-- The octets of the name are text. -/
def Name.IsText (name : Name) : Prop :=
  ∃ text, name.text? = some text

theorem Name.IsText.displayed_eq {name : Name} (isText : name.IsText) : name.displayed = name := by
  obtain ⟨text, known⟩ := isText
  have read : Utf8.decode? name.bytes = some text := known
  refine Name.ext ?_
  rw [displayed_bytes, display, Utf8.display, read]
  exact Utf8.encode_of_decode? read

namespace Listing

open FileSystem

variable {fs : FileSystem} {rules : IgnoreRules} {root : Path} {entries : List Entry}
  {paths : List (List Name)} {members : List Member}

/-- All names of what is found below a path are text. -/
def TextBelow (fs : FileSystem) (root : Path) : Prop :=
  ∀ names found, fs.stat (root.descend names) = .ok found → ∀ name ∈ names, name.IsText

/-- Names that are text are shown as they are. -/
theorem encode_shown {names : List Name} (isText : ∀ name ∈ names, name.IsText) :
    Utf8.encode (shown names) = (relative names).bytes := by
  have same : names.map Name.displayed = names := by
    rw [List.map_congr_left fun name member => (isText name member).displayed_eq, List.map_id']
  calc Utf8.encode (shown names)
      = Bytes.joinWith slash ((names.map Name.displayed).map Name.bytes) := by
        rw [shown, Utf8.encode_joinWith]
        simp [Function.comp_def]
    _ = (relative names).bytes := by rw [same, relative]

theorem shown_inj {names others : List Name} (some : names ≠ []) (more : others ≠ [])
    (isText : ∀ name ∈ names, name.IsText) (isText' : ∀ name ∈ others, name.IsText)
    (same : shown names = shown others) : names = others := by
  refine relative_inj some more ?_
  rw [← encode_shown isText, ← encode_shown isText', same]

/-- What a path of a listing stands for. -/
theorem IsListing.entry_of_path (listing : IsListing fs rules root entries paths) {names : List Name}
    (known : names ∈ paths) : ∃ entry ∈ entries, seen? fs root names = some entry := by
  have image : seen? fs root names ∈ paths.map (seen? fs root) := List.mem_map_of_mem known
  rw [listing.seen] at image
  obtain ⟨entry, member, same⟩ := List.mem_map.mp image
  exact ⟨entry, member, same.symm⟩

theorem IsListing.path_of_entry (listing : IsListing fs rules root entries paths) {entry : Entry}
    (member : entry ∈ entries) : ∃ names ∈ paths, seen? fs root names = some entry := by
  have image : some entry ∈ entries.map some := List.mem_map_of_mem member
  rw [← listing.seen] at image
  exact List.mem_map.mp image

/-- Entries have the names that their paths are shown as. -/
theorem IsListing.names_eq (listing : IsListing fs rules root entries paths) :
    entries.map Entry.name = paths.map shown := by
  have named : ∀ names ∈ paths, (seen? fs root names).map Entry.name = some (shown names) := by
    intro names known
    obtain ⟨entry, -, seen⟩ := listing.entry_of_path known
    obtain ⟨-, -, -, -, name, -⟩ := seen?_eq_some_iff.mp seen
    rw [seen, Option.map_some, name]
  have images := congrArg (List.map (Option.map Entry.name)) listing.seen
  rw [List.map_map, List.map_map] at images
  have some' : (paths.map shown).map some = (entries.map Entry.name).map some := by
    rw [List.map_map, List.map_map]
    calc paths.map (some ∘ shown)
        = paths.map (Option.map Entry.name ∘ seen? fs root) :=
          List.map_congr_left fun names known => (named names known).symm
      _ = entries.map (some ∘ Entry.name) := images
  exact ((List.map_inj_right fun _ _ => Option.some.inj).mp some').symm

/-- The entries of a listing are in ascending order of their names, none of which comes twice. -/
theorem IsListing.ascending (listing : IsListing fs rules root entries paths)
    (isText : ∀ names ∈ paths, ∀ name ∈ names, name.IsText) :
    entries.Pairwise fun a b => a.name < b.name := by
  have once : (entries.map Entry.name).Nodup := by
    rw [listing.names_eq]
    refine listing.once.map_on fun names known others known' same => ?_
    exact shown_inj ((listing.visible names).mp known).below ((listing.visible others).mp known').below
      (isText names known) (isText others known') same
  have apart := List.pairwise_map.mp once
  refine (listing.ordered.and apart).imp fun ⟨order, differ⟩ => ?_
  exact lt_of_le_of_ne (Utf8.encode_le_iff.mp order) differ

/-! ## Trees without surprises -/

/-- `root` leads to the directory `base`, below which are directories and readable files that can
all be looked up. -/
structure Lucid (fs : FileSystem) (root : Path) (base : Location) : Prop where
  well : fs.WellFormed
  there : fs.stat root = .ok (base, .directory)
  objects : ∀ l object, Location.Below base l → fs.get? l = some object →
    object = .directory ∨ ∃ content mode, object = .file content mode ∧ readable mode = true
  spelled : ∀ names, names ≠ [] → fs.get? (names.reverse ++ base) ≠ none →
    WellSpelled (root.descend names) ∧ Fit names

section Lucid

variable {base : Location}

theorem Lucid.plain (lucid : Lucid fs root base) : Plain fs base := fun l object below stands =>
  (lucid.objects l object below stands).imp id fun ⟨content, mode, same, _⟩ => ⟨content, mode, same⟩

theorem Lucid.entered (lucid : Lucid fs root base) : ∃ left, fs.reach false root = .ok (left, base) :=
  (stat_eq_directory_iff.mp lucid.there).2

/-- A path leads to what stands there. -/
theorem Lucid.stat_iff (lucid : Lucid fs root base) {names : List Name} (some : names ≠ [])
    {l : Location} {object : Object} :
    fs.stat (root.descend names) = .ok (l, object)
      ↔ l = names.reverse ++ base ∧ fs.get? l = .some object := by
  obtain ⟨left, entered⟩ := lucid.entered
  rw [lucid.plain.stat_descend (reach_unique entered) lucid.well some]
  constructor
  · exact fun found => found.2
  · rintro ⟨rfl, stands⟩
    obtain ⟨spelled, fit⟩ := lucid.spelled names some (by simp [stands])
    exact ⟨⟨spelled, fit, left, entered⟩, rfl, stands⟩

/-- A walk never meets a link, and finds every child. -/
theorem Lucid.walk_ok (lucid : Lucid fs root base) {here : Level} {outside : List Level}
    {above names : List Name} (path : here.path = root.descend above)
    (place : here.location = above.reverse ++ base)
    (known : ∀ name ∈ names, fs.get? (name :: here.location) ≠ none) :
    ∃ entries, walk fs rules here outside above names = .ok entries := by
  induction here, outside, above, names using walk.induct fs with
  | case1 here outside above => exact ⟨[], by rw [walk]⟩
  | case2 here outside above name rest child inside ihRest ihInner =>
      simp only [List.forall_mem_cons] at known
      obtain ⟨first, others⟩ := known
      obtain ⟨object, stands⟩ := Option.ne_none_iff_exists'.mp first
      obtain ⟨listed, walkedOthers⟩ := ihRest path place others
      have location : (above ++ [name]).reverse ++ base = name :: here.location := by
        simp [place]
      have spelled : root.descend (above ++ [name]) = here.path.child name := by
        simp [Path.descend_append, ← path]
      have found : fs.stat (here.path.child name) = .ok (name :: here.location, object) := by
        rw [← spelled]
        exact (lucid.stat_iff (by simp)).mpr ⟨location.symm, stands⟩
      have below : Location.Below base (name :: here.location) :=
        Location.below_iff.mpr ⟨name :: above.reverse, by simp, by simp [place]⟩
      rw [walk_cons]
      -- Only directories and files stand here, so neither a dead link nor a cycle stops the walk.
      rcases lucid.objects _ object below stands with rfl | ⟨content, mode, rfl, -⟩
      · have inner : ∀ next ∈ fs.children (name :: here.location),
            fs.get? (next :: name :: here.location) ≠ none := by
          intro next member
          obtain ⟨object, stands⟩ := mem_children.mp member
          simp [stands]
        obtain ⟨deeper, walkedInner⟩ := ihInner _ found spelled.symm location.symm inner
        simp only [leadsToDirectory, stands, found, walkedOthers, bind, Except.bind]
        split
        · exact ⟨listed, rfl⟩
        · rw [walkedInner]
          exact ⟨_, rfl⟩
      · simp only [leadsToDirectory, stands, found, walkedOthers, bind, Except.bind]
        split
        · exact ⟨listed, rfl⟩
        · exact ⟨_, rfl⟩

/-! ## The ignore file -/

/-- The name of the ignore file. -/
def ignoreName : Name :=
  ⟨Utf8.encode IgnoreRules.fileName, by decide +kernel⟩

theorem components_relative {names : List Name} (some : names ≠ []) :
    (relative names).components = names.map fun name => .name name.bytes := by
  have fields : (relative names).bytes.splitOn slash = names.map Name.bytes := by
    refine Bytes.splitOn_joinWith (by simpa using some) ?_
    intro field member
    obtain ⟨name, -, rfl⟩ := List.mem_map.mp member
    exact name.slash_not_mem
  have own : ∀ names : List Name, (names.map Name.bytes).filterMap Path.component?
      = names.map fun name => .name name.bytes := by
    intro names
    rw [List.filterMap_map]
    exact List.filterMap_eq_map_iff_forall_eq_some.mpr fun name _ => Path.component?_name name
  obtain ⟨first, rest, rfl⟩ := List.exists_cons_of_ne_nil some
  have relative' : (relative (first :: rest)).isAbsolute = false := by
    rw [Bool.eq_false_iff, ne_eq, Path.isAbsolute_iff, fields]
    simp [first.bytes_ne_nil]
  rw [Path.components_eq, Path.lead, relative', fields, own]
  simp [first.bytes_ne_dot]

/-- Without rules, only the ignore file is left out. -/
theorem ignores_none {names : List Name} (some : names ≠ []) (other : names ≠ [ignoreName])
    (isDirectory : Bool) : IgnoreRules.none.ignores (relative names) isDirectory = false := by
  have notFile : IgnoreRules.isIgnoreFile (relative names) = false := by
    rw [IgnoreRules.isIgnoreFile, Path.sameName, beq_eq_false_iff_ne]
    intro same
    have file : Path.ofString IgnoreRules.fileName = relative [ignoreName] := rfl
    rw [file, components_relative some, components_relative (List.cons_ne_nil _ _)] at same
    refine other ((List.map_inj_right fun a b equal => ?_).mp same)
    exact Name.ext (Component.name.inj equal)
  simp [IgnoreRules.ignores, notFile, IgnoreRules.none]

/-- Without an ignore file there are no rules. -/
theorem load_of_absent {base : Location} {left : Nat} (entered : fs.reach false root = .ok (left, base))
    (absent : fs.get? (ignoreName :: base) = none) : IgnoreRules.load fs root = .ok .none := by
  have path : root.childText IgnoreRules.fileName = root.child ignoreName :=
    Path.childText_eq_child (Name.ofBytes?_bytes ignoreName) root
  unfold IgnoreRules.load
  simp only [path]
  cases found : fs.stat (root.child ignoreName) with
  | error fault => rfl
  | ok place =>
      obtain ⟨good, -⟩ := reach_of_stat_child found
      have short : ¬ nameLimit < ignoreName.bytes.length := by decide +kernel
      rw [stat_child good entered, FileSystem.walk, if_neg short, absent] at found
      cases found

theorem Lucid.load (lucid : Lucid fs root base) (absent : fs.get? (ignoreName :: base) = none) :
    IgnoreRules.load fs root = .ok .none := by
  obtain ⟨left, entered⟩ := lucid.entered
  exact load_of_absent entered absent

/-! ## Listing again -/

theorem Lucid.collect_ok (lucid : Lucid fs root base) (absent : fs.get? (ignoreName :: base) = none) :
    ∃ entries, collect fs root = .ok entries := by
  have children : ∀ name ∈ fs.children base, fs.get? (name :: base) ≠ none := by
    intro name member
    obtain ⟨object, stands⟩ := mem_children.mp member
    simp [stands]
  obtain ⟨entries, walked⟩ :
      ∃ entries, walk fs .none ⟨base, root⟩ [] [] (fs.children base) = .ok entries :=
    lucid.walk_ok rfl rfl children
  refine ⟨entries.mergeSort inOrder, ?_⟩
  simp [collect, lucid.load absent, lucid.there, walked, Except.mapError, bind, Except.bind, pure,
    Except.pure]

/-- Whatever stands is visible. -/
theorem Lucid.visible (lucid : Lucid fs root base) (absent : fs.get? (ignoreName :: base) = none)
    {names : List Name} (some : names ≠ []) {object : Object}
    (stands : fs.get? (names.reverse ++ base) = .some object) : Visible fs .none root names where
  below := some
  other := by
    intro own
    obtain rfl : names = [ignoreName] :=
      (List.map_inj_right fun a b equal => Name.ext equal).mp own
    rw [List.reverse_singleton, List.singleton_append, absent] at stands
    cases stands
  seen := by
    have found := (lucid.stat_iff some).mpr ⟨rfl, stands⟩
    have other : names ≠ [ignoreName] := by
      rintro rfl
      rw [List.reverse_singleton, List.singleton_append, absent] at stands
      cases stands
    have below : Location.Below base (names.reverse ++ base) :=
      Location.below_iff.mpr ⟨names.reverse, by simpa using some, rfl⟩
    obtain ⟨kind, listed⟩ : ∃ kind, kindOf? object = .some kind := by
      rcases lucid.objects _ object below stands with rfl | ⟨content, mode, rfl, -⟩
      · exact ⟨_, rfl⟩
      · exact ⟨_, kindOf?_file content mode⟩
    exact ⟨⟨shown names, root.descend names, kind⟩,
      seen?_eq_some_iff.mpr ⟨_, object, found, listed, rfl, rfl⟩, ignores_none some other _⟩
  passed := by
    rintro up down rfl nonempty more
    refine ignores_none nonempty ?_ true
    rintro rfl
    -- What is above something is there.
    rw [List.reverse_append, List.append_assoc, List.reverse_singleton, List.singleton_append]
      at stands
    have below : Location.Below (ignoreName :: base) (down.reverse ++ ignoreName :: base) :=
      Location.below_iff.mpr ⟨down.reverse, by simpa using more, rfl⟩
    rw [lucid.well.none_below (by simp [absent]) below] at stands
    cases stands

/-- What is listed can be read as it is. -/
theorem Lucid.unchanged (lucid : Lucid fs root base) {names : List Name} (some : names ≠ [])
    {entry : Entry} (seen : seen? fs root names = .some entry) :
    ∃ object member, fs.get? (names.reverse ++ base) = .some object
      ∧ entry.unchanged fs = .ok member ∧ member.name = shown names ∧ member.Matches object := by
  obtain ⟨l, object, found, listed, name, path⟩ := seen?_eq_some_iff.mp seen
  obtain ⟨rfl, stands⟩ := (lucid.stat_iff some).mp found
  have below : Location.Below base (names.reverse ++ base) :=
    Location.below_iff.mpr ⟨names.reverse, by simpa using some, rfl⟩
  obtain ⟨ownName, ownPath, kind⟩ := entry
  obtain rfl : ownName = shown names := name
  obtain rfl : ownPath = root.descend names := path
  rcases lucid.objects _ object below stands with rfl | ⟨content, mode, rfl, canRead⟩
  · obtain rfl : kind = .directory := (Option.some.inj listed).symm
    exact ⟨.directory, .directory (shown names), stands, rfl, rfl, rfl⟩
  · obtain rfl : kind = .file (executable mode) content.length := by
      rw [kindOf?_file] at listed
      exact (Option.some.inj listed).symm
    have read : fs.read (root.descend names) = .ok content := read_of_stat found canRead
    exact ⟨.file content mode, .file (shown names) (executable mode) content, stands,
      by simp [Entry.unchanged, read], rfl, mode, rfl, rfl⟩

/-- Members that stand for one object under names that are text are the same. -/
theorem eq_of_isAt {one other : Member} {names : List Name} {object : Object}
    (textual : ∀ name ∈ names, name.IsText) (named : one.name = shown names)
    (isAt : other.IsAt names) (matchesOne : one.Matches object)
    (matchesOther : other.Matches object) : one = other := by
  refine Member.eq_of_matches (Utf8.encode_inj ?_) matchesOne matchesOther
  rw [named, encode_shown textual]
  exact isAt.symm

/-- Everything that is listed can be read. -/
theorem Lucid.exists_unchanged (lucid : Lucid fs root base)
    (listing : IsListing fs rules root entries paths) :
    ∃ read, List.Forall₂ (fun entry member => entry.unchanged fs = .ok member) entries read := by
  refine exists_forall₂ fun entry inside => ?_
  obtain ⟨names, known, seen⟩ := listing.path_of_entry inside
  obtain ⟨-, own, -, now, -⟩ := lucid.unchanged ((listing.visible names).mp known).below seen
  exact ⟨own, now⟩

/-- Whatever is read of the entries is a member that the tree holds, and the other way round. -/
theorem Lucid.mem_unchanged_iff (lucid : Lucid fs root base)
    (absent : fs.get? (ignoreName :: base) = none)
    (listing : IsListing fs .none root entries paths)
    (textual : ∀ names ∈ paths, ∀ name ∈ names, name.IsText) (hold : Member.Hold members fs base)
    {read : List Member}
    (all : List.Forall₂ (fun entry member => entry.unchanged fs = .ok member) entries read)
    (member : Member) : member ∈ read ↔ member ∈ members := by
  have below : ∀ {names}, names ∈ paths → names ≠ [] := fun known =>
    ((listing.visible _).mp known).below
  constructor
  · intro inside
    obtain ⟨entry, listed, own⟩ := (exists_of_forall₂ all).2 member inside
    obtain ⟨names, known, seen⟩ := listing.path_of_entry listed
    obtain ⟨object, same, stands, own', named, matchesSame⟩ := lucid.unchanged (below known) seen
    obtain rfl : same = member := Except.ok.inj (own'.symm.trans own)
    obtain ⟨held, inside', isAt, matchesHeld⟩ := hold.known names object (below known) stands
    rw [eq_of_isAt (textual names known) named isAt matchesSame matchesHeld]
    exact inside'
  · intro inside
    obtain ⟨names, object, some, isAt, stands, matchesMember⟩ := hold.all member inside
    have known := (listing.visible names).mpr (lucid.visible absent some stands)
    obtain ⟨entry, listed, seen⟩ := listing.entry_of_path known
    obtain ⟨object', same, stands', own, named, matchesSame⟩ := lucid.unchanged some seen
    obtain rfl : object' = object := Option.some.inj (stands'.symm.trans stands)
    obtain ⟨found, inside', own'⟩ := (exists_of_forall₂ all).1 entry listed
    obtain rfl : same = found := Except.ok.inj (own.symm.trans own')
    rw [← eq_of_isAt (textual names known) named isAt matchesSame matchesMember]
    exact inside'

/-- Members that the tree holds, in ascending order of their names, are those of its listing. -/
theorem Lucid.collect_members (lucid : Lucid fs root base)
    (absent : fs.get? (ignoreName :: base) = none)
    (isText : ∀ names : List Name, fs.get? (names.reverse ++ base) ≠ none →
      ∀ name ∈ names, name.IsText)
    (hold : Member.Hold members fs base)
    (ascending : members.Pairwise fun a b => a.name < b.name) :
    ∃ entries, collect fs root = .ok entries ∧ entries.mapM (Entry.unchanged fs) = .ok members := by
  obtain ⟨entries, listed⟩ := lucid.collect_ok absent
  obtain ⟨paths, listing⟩ := isListing_of_collect lucid.well (lucid.load absent) listed
  have textual : ∀ names ∈ paths, ∀ name ∈ names, name.IsText := by
    intro names known
    obtain ⟨entry, -, seen⟩ := listing.entry_of_path known
    obtain ⟨object, -, stands, -⟩ :=
      lucid.unchanged ((listing.visible names).mp known).below seen
    exact isText names (by simp [stands])
  obtain ⟨read, all⟩ := lucid.exists_unchanged listing
  have now := mapM_ok_iff.mpr all
  have ascending' : read.Pairwise fun a b => a.name < b.name := by
    have order := List.pairwise_map.mpr (listing.ascending textual)
    rw [unchanged_names now] at order
    exact List.pairwise_map.mp order
  -- Two lists in strictly ascending order with the same elements are the same list.
  have irreflexive : Std.Irrefl fun (a b : Member) => a.name < b.name :=
    ⟨fun _ => lt_irrefl _⟩
  have antisymmetric : Std.Antisymm fun (a b : Member) => a.name < b.name :=
    ⟨fun _ _ less more => absurd more (lt_asymm less)⟩
  obtain rfl := ascending'.eq_of_mem_iff ascending
    (lucid.mem_unchanged_iff absent listing textual hold all)
  exact ⟨entries, listed, now⟩

end Lucid

end Listing
end StackSynth
