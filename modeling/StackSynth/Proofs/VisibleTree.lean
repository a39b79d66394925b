import StackSynth.Proofs.Listing

/-!
# VisibleTree — a listing is the visible tree in order

A listing is what the walk finds, sorted by name.  A directory has a shorter name than anything
below it, so that sorting puts it first.

* `Listing.shown_lt` — the name of a directory stands before the names below it;
* `Listing.Visible.above` — whatever stands above something listed is listed as a directory;
* `Listing.IsListing`, `Listing.isListing_of_collect` — what a list of entries is to hold;
* `collect_visible_tree` — a listing holds it.
-/

namespace StackSynth

/-! ## Names in order -/

theorem Text.joinWith_append (separator : String) {front back : List String} (some : front ≠ [])
    (more : back ≠ []) :
    joinWith separator (front ++ back)
      = joinWith separator front ++ (separator ++ joinWith separator back) := by
  induction front with
  | nil => exact absurd rfl some
  | cons text rest ih =>
      cases rest with
      | nil =>
          cases back with
          | nil => exact absurd rfl more
          | cons next back => simp [joinWith, String.append_assoc]
      | cons next rest =>
          have step := ih (by simp)
          simp only [List.cons_append, joinWith, String.append_assoc] at step ⊢
          rw [step]

/-- A text stands before every longer one that begins with it. -/
theorem Text.lt_append (text : String) {more : String} (some : more ≠ "") : text < text ++ more := by
  have rest : more.toList ≠ [] := fun none => some (String.toList_eq_nil_iff.mp none)
  obtain ⟨c, cs, known⟩ := List.exists_cons_of_ne_nil rest
  rw [String.lt_iff, String.toList_append, known]
  have shorter : text.toList ++ [] < text.toList ++ c :: cs := List.append_left_lt (by simp)
  simpa using shorter

namespace Listing

variable {fs : FileSystem} {rules : IgnoreRules} {root : Path}

theorem shown_lt {above rest : List Name} (some : above ≠ []) (deeper : rest ≠ []) :
    shown above < shown (above ++ rest) := by
  unfold shown
  rw [List.map_append, Text.joinWith_append "/" (by simpa using some) (by simpa using deeper)]
  apply Text.lt_append
  intro none
  have slashes := congrArg String.toList none
  simp at slashes

/-- Sorting the entries sorts the names that they stand for. -/
theorem exists_sorted {paths : List (List Name)} {entries : List Entry}
    (seen : paths.map (seen? fs root) = entries.map some) :
    ∃ sorted : List (List Name), sorted.Perm paths
      ∧ sorted.map (seen? fs root) = (entries.mergeSort inOrder).map some := by
  have length : paths.length = entries.length := by simpa using congrArg List.length seen
  -- Each list of names with its entry.
  let pairs := paths.zip entries
  have firsts : pairs.map Prod.fst = paths := List.map_fst_zip (by omega)
  have seconds : pairs.map Prod.snd = entries := List.map_snd_zip (by omega)
  have told : ∀ pair ∈ pairs, seen? fs root pair.1 = some pair.2 := by
    rw [← firsts, ← seconds, List.map_map, List.map_map] at seen
    exact List.map_inj_left.mp seen
  let sorted := pairs.mergeSort fun a b => inOrder a.2 b.2
  have perm : sorted.Perm pairs := List.mergeSort_perm _ _
  refine ⟨sorted.map Prod.fst, firsts ▸ perm.map Prod.fst, ?_⟩
  have later : sorted.map Prod.snd = entries.mergeSort inOrder := by
    rw [← seconds]
    exact List.map_mergeSort fun _ _ _ _ => rfl
  rw [← later, List.map_map, List.map_map]
  exact List.map_inj_left.mpr fun pair member => told pair (perm.mem_iff.mp member)

theorem pairwise_inOrder (entries : List Entry) :
    (entries.mergeSort inOrder).Pairwise fun a b => a.name ≤ b.name := by
  have sorted : (entries.mergeSort inOrder).Pairwise fun a b => inOrder a b = true :=
    List.pairwise_mergeSort (by simpa [inOrder] using fun a b c : Entry => String.le_trans)
      (by simpa [inOrder] using fun a b : Entry => String.le_total a.name b.name) entries
  simpa [inOrder] using sorted

/-! ## What is visible -/

/-- Only at the root is the ignore file left out for its name alone. -/
theorem ignores_fileName (rules : IgnoreRules) {names : List Name} (isDirectory : Bool)
    (own : names.map Name.bytes = [Utf8.encode IgnoreRules.fileName]) :
    rules.ignores (relative names) isDirectory = true := by
  have same : relative names = Path.ofString IgnoreRules.fileName := by
    rw [relative, own]
    rfl
  simp [IgnoreRules.ignores, IgnoreRules.isIgnoreFile, Path.sameName, same]

theorem visible_iff_open {names : List Name} (below : names ≠ []) :
    Visible fs rules root names ↔ Open fs rules root [] names := by
  constructor
  · intro visible
    exact ⟨visible.seen, visible.passed⟩
  · intro visible
    refine ⟨below, ?_, visible.seen, visible.passed⟩
    intro own
    obtain ⟨entry, -, kept⟩ := visible.seen
    exact absurd (ignores_fileName rules (decide (entry.kind = .directory)) own)
      (by simpa using kept)

theorem Visible.above {above rest : List Name} (visible : Visible fs rules root (above ++ rest))
    (some : above ≠ []) (deeper : rest ≠ []) :
    Visible fs rules root above
      ∧ seen? fs root above = Option.some ⟨shown above, root.descend above, .directory⟩ := by
  obtain ⟨entry, seen, -⟩ := visible.seen
  obtain ⟨l, object, found, -⟩ := seen?_eq_some_iff.mp seen
  have present : (root.descend above).isEmpty = false := by
    rw [← List.dropLast_concat_getLast some, Path.descend_append]
    exact Path.child_not_empty _ _
  rw [Path.descend_append] at found
  obtain ⟨m, directory⟩ := stat_directory_of_descend present deeper found
  have own : seen? fs root above = Option.some ⟨shown above, root.descend above, .directory⟩ :=
    seen?_eq_some_iff.mpr ⟨m, .directory, directory, rfl, rfl, rfl⟩
  refine ⟨(visible_iff_open some).mpr ⟨⟨_, own, ?_⟩, ?_⟩, own⟩
  · simpa using visible.passed above rest rfl some deeper
  · intro up down parts first more
    exact visible.passed up (down ++ rest) (by simp [parts]) first (by simp [more])

/-- Nothing is below a root that is no directory. -/
theorem not_visible {found : Location × Object} {names : List Name}
    (stands : fs.stat root = .ok found) (other : found.2 ≠ .directory) :
    ¬ Visible fs rules root names := by
  intro visible
  obtain ⟨entry, seen, -⟩ := visible.seen
  obtain ⟨l, object, below, -⟩ := seen?_eq_some_iff.mp seen
  have present : root.isEmpty = false :=
    (FileSystem.locate_eq_ok_iff.mp (FileSystem.stat_eq_ok_iff.mp stands)).1.2
  obtain ⟨m, directory⟩ := stat_directory_of_descend present visible.below below
  obtain rfl : found = (m, .directory) := Except.ok.inj (stands.symm.trans directory)
  exact other rfl

/-! ## Listings -/

/-- The entries of all that is visible below `root`; `paths` tells the names of each. -/
structure IsListing (fs : FileSystem) (rules : IgnoreRules) (root : Path) (entries : List Entry)
    (paths : List (List Name)) : Prop where
  seen : paths.map (seen? fs root) = entries.map some
  once : paths.Nodup
  visible : ∀ names, names ∈ paths ↔ Visible fs rules root names
  ordered : entries.Pairwise fun a b => Utf8.encode a.name ≤ Utf8.encode b.name
  /-- Every directory comes before what is below it. -/
  directories : ∀ i above rest, paths[i]? = some (above ++ rest) → above ≠ [] → rest ≠ [] →
    ∃ (j : Nat) (entry : Entry), j < i ∧ paths[j]? = some above ∧ entries[j]? = some entry
      ∧ entry.kind = .directory

/-- An entry with a lesser name comes first. -/
theorem index_lt {entries : List Entry} {i j : Nat} {lower upper : Entry}
    (atI : (entries.mergeSort inOrder)[i]? = some lower)
    (atJ : (entries.mergeSort inOrder)[j]? = some upper) (less : upper.name < lower.name) :
    j < i := by
  have sorted := List.pairwise_iff_getElem.mp (pairwise_inOrder entries)
  obtain ⟨insideI, rfl⟩ := List.getElem?_eq_some_iff.mp atI
  obtain ⟨insideJ, rfl⟩ := List.getElem?_eq_some_iff.mp atJ
  rcases Nat.lt_trichotomy i j with before | rfl | after
  · exact absurd less (String.not_lt.mpr (sorted i j insideI insideJ before))
  · exact absurd less (String.lt_irrefl _)
  · exact after

/-- What is found, once it is sorted. -/
theorem exists_isListing {entries : List Entry} {paths : List (List Name)}
    (seen : paths.map (seen? fs root) = entries.map some) (once : paths.Nodup)
    (visible : ∀ names, names ∈ paths ↔ Visible fs rules root names) :
    ∃ sorted, IsListing fs rules root (entries.mergeSort inOrder) sorted := by
  obtain ⟨sorted, perm, told⟩ := exists_sorted seen
  have listed : ∀ names, names ∈ sorted ↔ Visible fs rules root names := fun names =>
    perm.mem_iff.trans (visible names)
  have entryAt : ∀ (i : Nat) (names : List Name) (entry : Entry), sorted[i]? = some names →
      seen? fs root names = some entry → (entries.mergeSort inOrder)[i]? = some entry := by
    intro i names entry place own
    have same : (sorted.map (seen? fs root))[i]? = ((entries.mergeSort inOrder).map some)[i]? :=
      by rw [told]
    rw [List.getElem?_map, List.getElem?_map, place, Option.map_some, own] at same
    obtain ⟨other, known, equal⟩ := Option.map_eq_some_iff.mp same.symm
    rw [known, equal]
  refine ⟨sorted, told, perm.nodup_iff.mpr once, listed, ?_, ?_⟩
  · exact (pairwise_inOrder entries).imp fun order => Utf8.encode_le_iff.mpr order
  · -- A directory has a part of the name of what is below it, and so the lesser name.
    intro i above rest known some deeper
    have whole : Visible fs rules root (above ++ rest) :=
      (listed _).mp (List.mem_of_getElem? known)
    obtain ⟨shallow, own⟩ := whole.above some deeper
    obtain ⟨j, place⟩ := List.getElem?_of_mem ((listed above).mpr shallow)
    obtain ⟨entry, seenWhole, -⟩ := whole.seen
    have lower := entryAt i _ entry known seenWhole
    have upper := entryAt j _ _ place own
    obtain ⟨-, -, -, -, name, -⟩ := seen?_eq_some_iff.mp seenWhole
    have less : shown above < entry.name := name ▸ shown_lt some deeper
    exact ⟨j, _, index_lt lower upper less, place, upper, rfl⟩

/-- Whoever lists a directory has read its ignore file. -/
theorem load_of_collect {entries : List Entry} (listed : collect fs root = .ok entries) :
    ∃ rules, IgnoreRules.load fs root = .ok rules := by
  unfold collect at listed
  cases loaded : IgnoreRules.load fs root with
  | error failure => simp [loaded, Except.mapError, bind, Except.bind] at listed
  | ok rules => exact ⟨rules, rfl⟩

theorem isListing_of_collect {entries : List Entry} (well : fs.WellFormed)
    (loaded : IgnoreRules.load fs root = .ok rules) (listed : collect fs root = .ok entries) :
    ∃ paths, IsListing fs rules root entries paths := by
  unfold collect at listed
  simp only [loaded, Except.mapError, bind, Except.bind] at listed
  split at listed
  · cases listed
  · rename_i location found
    split at listed
    · cases listed
    · rename_i walked result
      cases listed
      obtain ⟨left, entered⟩ := (FileSystem.stat_eq_directory_iff.mp found).2
      have stands : Stands fs root ⟨location, root⟩ [] := ⟨rfl, left, entered⟩
      obtain ⟨paths, finds⟩ :=
        walk_visible well stands (FileSystem.nodup_children well location) result
      refine exists_isListing finds.seen finds.once fun names => ?_
      -- A visible path is an open one that is not empty, and its first name is a child of the root.
      rw [finds.visible]
      constructor
      · rintro ⟨name, -, rest, rfl, isOpen⟩
        exact (visible_iff_open (by simp)).mpr isOpen
      · intro visible
        obtain ⟨name, rest, rfl⟩ := List.exists_cons_of_ne_nil visible.below
        have isOpen := (visible_iff_open (by simp)).mp visible
        have enteredRoot : fs.reach false (root.descend []) = .ok (left, location) := entered
        exact ⟨name, isOpen.mem_children enteredRoot, rest, rfl, isOpen⟩
  · rename_i place notDirectory found
    cases listed
    -- A root that is no directory has nothing visible.
    have nothing : ∀ names, names ∈ ([] : List (List Name)) ↔ Visible fs rules root names := by
      intro names
      have hidden : ¬ Visible fs rules root names :=
        not_visible found fun directory => notDirectory place.1 (by rw [← directory])
      simp [hidden]
    have seen : ([] : List (List Name)).map (seen? fs root) = ([] : List Entry).map some := rfl
    simpa using exists_isListing seen List.nodup_nil nothing

end Listing

/-- A listing that is returned holds one entry for each path below the root that is visible, and
nothing else.  It is in the order of the octets of the names, with every directory before what is
below it. -/
theorem collect_visible_tree {fs : FileSystem} {root : Path} {entries : List Entry}
    (well : fs.WellFormed) (listed : Listing.collect fs root = .ok entries) :
    ∃ rules, IgnoreRules.load fs root = .ok rules
      ∧ ∃ paths, Listing.IsListing fs rules root entries paths := by
  obtain ⟨rules, loaded⟩ := Listing.load_of_collect listed
  exact ⟨rules, loaded, Listing.isListing_of_collect well loaded listed⟩

/-- A directory `a` with the program `b` in it. -/
def loneProgram : FileSystem where
  objects := [([⟨[98], by decide⟩, ⟨[97], by decide⟩], .file [104, 105] 0o755),
    ([⟨[97], by decide⟩], .directory)]
  current := []

theorem loneProgram_listed :
    Listing.collect loneProgram ⟨[97]⟩ = .ok [⟨"b", ⟨[97, 47, 98]⟩, .file true 2⟩] := by
  have loaded : IgnoreRules.load loneProgram ⟨[97]⟩ = .ok .none := by cbv
  have found : loneProgram.stat ⟨[97]⟩ = .ok ([⟨[97], by decide⟩], .directory) := by cbv
  have inside : loneProgram.children [⟨[97], by decide⟩] = [⟨[98], by decide⟩] := by cbv
  simp only [Listing.collect, loaded, found, inside, Except.mapError, bind, Except.bind,
    Listing.walk_cons]
  cbv

theorem collect_loneProgram :
    Listing.collect loneProgram ⟨[97]⟩ = .ok [⟨"b", ⟨[97, 47, 98]⟩, .file true 2⟩]
      ∧ ∃ rules, IgnoreRules.load loneProgram ⟨[97]⟩ = .ok rules
        ∧ ∃ paths, Listing.IsListing loneProgram rules ⟨[97]⟩
          [⟨"b", ⟨[97, 47, 98]⟩, .file true 2⟩] paths := by
  have well : loneProgram.WellFormed := .of_objects (by decide) (by decide)
  exact ⟨loneProgram_listed, collect_visible_tree well loneProgram_listed⟩

end StackSynth
