import StackSynth.Proofs.Construction
import StackSynth.Proofs.Relisting

/-!
# Identity — a package is its visible tree

Two directories, on two disks and under any spellings, may hold the same visible tree: the same
relative paths, with the same directories and the same files, and of a file its octets and whether
anyone may execute it.  Whatever else there is to a directory does not reach the package.

* `Listing.held?` — what is packaged of a path, from one look-up;
* `Listing.SameTree` — two directories with the same visible tree;
* `Listing.SameTree.paths_eq` — their listings name the same paths in the same order;
* `Listing.digest_iff`, `Packaging.archive_iff` — what the members of a listing are made into;
* `packages_identical` — hashes, names and archives are the same.
-/

namespace StackSynth

namespace Listing

variable {fs fs' : FileSystem} {rules rules' : IgnoreRules} {root root' : Path}
  {entries entries' : List Entry} {paths paths' : List (List Name)} {members : List Member}

/-! ## Trees -/

/-- The directory or the file that a path below `root` leads to. -/
def held? (fs : FileSystem) (root : Path) (names : List Name) : Option Member :=
  match fs.stat (root.descend names) with
  | .ok (_, .directory) => some (.directory (shown names))
  | .ok (_, .file content mode) => some (.file (shown names) (decide (mode &&& 0o111 ≠ 0)) content)
  | _ => none

/-- What is visible of the two directories is the same. -/
structure SameTree (fs : FileSystem) (rules : IgnoreRules) (root : Path) (fs' : FileSystem)
    (rules' : IgnoreRules) (root' : Path) : Prop where
  visible : ∀ names, Visible fs rules root names ↔ Visible fs' rules' root' names
  held : ∀ names, Visible fs rules root names → held? fs root names = held? fs' root' names

/-- All names of what is visible are text. -/
def Textual (fs : FileSystem) (rules : IgnoreRules) (root : Path) : Prop :=
  ∀ names, Visible fs rules root names → ∀ name ∈ names, name.IsText

/-- If a path leads to a file, its owner may read it. -/
def MayRead (fs : FileSystem) (p : Path) : Prop :=
  ∀ l content mode, fs.stat p = .ok (l, .file content mode) → readable mode = true

/-- All files that are visible may be read. -/
def Readable (fs : FileSystem) (rules : IgnoreRules) (root : Path) : Prop :=
  ∀ names, Visible fs rules root names → MayRead fs (root.descend names)

theorem SameTree.textual (same : SameTree fs rules root fs' rules' root')
    (textual : Textual fs rules root) : Textual fs' rules' root' :=
  fun names visible => textual names ((same.visible names).mpr visible)

/-- The names of a listing are in ascending order as they are shown. -/
theorem IsListing.ascending_paths (listing : IsListing fs rules root entries paths)
    (textual : Textual fs rules root) : paths.Pairwise fun a b => shown a < shown b := by
  have order := listing.ascending fun names known => textual names ((listing.visible names).mp known)
  have names := List.pairwise_map.mpr order
  rw [listing.names_eq] at names
  exact List.pairwise_map.mp names

/-- The order leaves the paths no choice. -/
theorem SameTree.paths_eq_of_ascending (same : SameTree fs rules root fs' rules' root')
    (listing : IsListing fs rules root entries paths)
    (listing' : IsListing fs' rules' root' entries' paths')
    (ascending : paths.Pairwise fun a b => shown a < shown b)
    (ascending' : paths'.Pairwise fun a b => shown a < shown b) : paths = paths' := by
  have elements : ∀ names, names ∈ paths ↔ names ∈ paths' := fun names =>
    (listing.visible names).trans ((same.visible names).trans (listing'.visible names).symm)
  have irreflexive : Std.Irrefl fun a b : List Name => shown a < shown b := ⟨fun _ => lt_irrefl _⟩
  have antisymmetric : Std.Antisymm fun a b : List Name => shown a < shown b :=
    ⟨fun _ _ less more => absurd more (lt_asymm less)⟩
  exact ascending.eq_of_mem_iff ascending' elements

theorem SameTree.paths_eq (same : SameTree fs rules root fs' rules' root')
    (textual : Textual fs rules root) (listing : IsListing fs rules root entries paths)
    (listing' : IsListing fs' rules' root' entries' paths') : paths = paths' :=
  same.paths_eq_of_ascending listing listing' (listing.ascending_paths textual)
    (listing'.ascending_paths (same.textual textual))

/-! ## Members -/

/-- What is seen of a path can be packaged. -/
theorem held_of_seen {names : List Name} {entry : Entry} (seen : seen? fs root names = some entry) :
    ∃ member, held? fs root names = some member := by
  obtain ⟨l, object, found, kind, -⟩ := seen?_eq_some_iff.mp seen
  cases object with
  | directory => exact ⟨_, by rw [held?, found]⟩
  | file content mode => exact ⟨_, by rw [held?, found]⟩
  | link target => cases kind
  | pipe => cases kind

/-- What a path is listed as and what it holds. -/
structure Holds (fs : FileSystem) (root : Path) (entry : Entry) (member : Member) (names : List Name) :
    Prop where
  seen : seen? fs root names = some entry
  held : held? fs root names = some member

/-- The members of a listing, whether or not they can be read. -/
theorem IsListing.exists_members (listing : IsListing fs rules root entries paths) :
    ∃ members : List Member, paths.map (held? fs root) = members.map some := by
  have each : ∀ names ∈ paths, ∃ member, held? fs root names = some member := by
    intro names known
    obtain ⟨entry, -, seen⟩ := listing.entry_of_path known
    exact held_of_seen seen
  obtain ⟨members, all⟩ := exists_forall₂ each
  refine ⟨members, ?_⟩
  clear each listing
  induction all with
  | nil => rfl
  | cons first others ih => rw [List.map_cons, List.map_cons, first, ih]

/-- Entries and members of a listing belong to the same paths, one by one. -/
theorem forall₂_holds (seen : paths.map (seen? fs root) = entries.map some)
    (held : paths.map (held? fs root) = members.map some) :
    List.Forall₂ (fun entry member => ∃ names ∈ paths, Holds fs root entry member names) entries
      members := by
  induction paths generalizing entries members with
  | nil =>
      obtain rfl := List.map_eq_nil_iff.mp seen.symm
      obtain rfl := List.map_eq_nil_iff.mp held.symm
      exact .nil
  | cons names rest ih =>
      cases entries with
      | nil => cases seen
      | cons entry entries =>
          cases members with
          | nil => cases held
          | cons member members =>
              obtain ⟨ownSeen, seen⟩ := List.cons.inj seen
              obtain ⟨ownHeld, held⟩ := List.cons.inj held
              refine .cons ⟨names, List.mem_cons_self, ownSeen, ownHeld⟩ ?_
              refine (ih seen held).imp ?_
              rintro entry member ⟨others, known, holds⟩
              exact ⟨others, List.mem_cons_of_mem _ known, holds⟩

/-! ## Reading -/

/-- A directory, or a file with its content. -/
theorem Holds.cases {entry : Entry} {member : Member} {names : List Name}
    (holds : Holds fs root entry member names) :
    entry.path = root.descend names
      ∧ (entry.kind = .directory ∧ member = .directory entry.name
          ∧ (∃ l, fs.stat (root.descend names) = .ok (l, .directory))
        ∨ ∃ l content mode, fs.stat (root.descend names) = .ok (l, .file content mode)
          ∧ entry.kind = .file (executable mode) content.length
          ∧ member = .file entry.name (executable mode) content) := by
  obtain ⟨seen, held⟩ := holds
  obtain ⟨l, object, found, kind, name, path⟩ := seen?_eq_some_iff.mp seen
  rw [held?, found] at held
  refine ⟨path, ?_⟩
  cases object with
  | directory =>
      refine Or.inl ⟨(Option.some.inj kind).symm, ?_, l, found⟩
      rw [name]
      exact (Option.some.inj held).symm
  | file content mode =>
      rw [kindOf?_file] at kind
      refine Or.inr ⟨l, content, mode, found, (Option.some.inj kind).symm, ?_⟩
      rw [name, executable_eq]
      exact (Option.some.inj held).symm
  | link target => cases kind
  | pipe => cases kind

theorem read_file {p : Path} {l : Location} {content : Bytes} {mode : Nat}
    (found : fs.stat p = .ok (l, .file content mode)) :
    fs.read p = if readable mode = true then .ok content else .error .permissionDenied := by
  unfold FileSystem.read FileSystem.readFile
  rw [found]
  by_cases may : readable mode = true
  · simp [may, bind, Except.bind, pure, Except.pure]
  · simp [may, bind, Except.bind, throw, throwThe, MonadExceptOf.throw]

/-- What may be read of a path is what it holds. -/
theorem Holds.unchanged_iff {entry : Entry} {member other : Member} {names : List Name}
    (holds : Holds fs root entry member names) :
    entry.unchanged fs = .ok other ↔ MayRead fs (root.descend names) ∧ other = member := by
  obtain ⟨path, ⟨kind, rfl, l, found⟩ | ⟨l, content, mode, found, kind, rfl⟩⟩ := holds.cases
  · have may : MayRead fs (root.descend names) := by
      intro l' content mode stands
      rw [found] at stands
      cases stands
    simp only [Entry.unchanged, kind, Except.ok.injEq, may, true_and]
    exact eq_comm
  · have may : MayRead fs (root.descend names) ↔ readable mode = true := by
      constructor
      · exact fun may => may l content mode found
      · intro may l' content' mode' stands
        obtain ⟨-, same⟩ := Prod.mk.inj (Except.ok.inj (found.symm.trans stands))
        obtain ⟨-, rfl⟩ := Object.file.inj same
        exact may
    rw [Entry.unchanged, kind, path, read_file found, may]
    by_cases can : readable mode = true
    · simp only [can, if_true, Except.ok.injEq, true_and]
      exact eq_comm
    · simp [can]

/-- Reading a member whatever its length gives the same. -/
theorem Holds.member_iff {entry : Entry} {member other : Member} {names : List Name}
    (holds : Holds fs root entry member names) :
    entry.member fs = .ok other ↔ MayRead fs (root.descend names) ∧ other = member := by
  rw [← holds.unchanged_iff]
  obtain ⟨path, ⟨kind, rfl, l, found⟩ | ⟨l, content, mode, found, kind, rfl⟩⟩ := holds.cases
  · simp only [Entry.member, Entry.unchanged, kind, Except.ok.injEq]
  · rw [Entry.member, Entry.unchanged, kind, path, read_file found]
    by_cases can : readable mode = true
    · simp [can, bind, Except.bind, pure, Except.pure]
    · simp [can, bind, Except.bind]

/-- The members of a listing are what its paths hold, if they can be read at all. -/
theorem IsListing.mapM_iff {ε : Type} (listing : IsListing fs rules root entries paths)
    (held : paths.map (held? fs root) = members.map some) {read : Entry → Except ε Member}
    (each : ∀ {entry member names}, Holds fs root entry member names → ∀ {other},
      read entry = .ok other ↔ MayRead fs (root.descend names) ∧ other = member)
    {others : List Member} :
    entries.mapM read = .ok others ↔ Readable fs rules root ∧ others = members := by
  have all := forall₂_holds listing.seen held
  have allRead : Readable fs rules root ↔ ∀ names ∈ paths, MayRead fs (root.descend names) :=
    ⟨fun may names known => may names ((listing.visible names).mp known),
      fun may names visible => may names ((listing.visible names).mpr visible)⟩
  rw [mapM_ok_iff, allRead]
  constructor
  · intro reads
    constructor
    · intro names known
      obtain ⟨entry, member, seen⟩ := listing.entry_of_path known
      obtain ⟨other, -, now⟩ := (exists_of_forall₂ reads).1 entry member
      obtain ⟨own, isHeld⟩ := held_of_seen seen
      exact ((each ⟨seen, isHeld⟩).mp now).1
    · clear held listing allRead
      induction all generalizing others with
      | nil => exact (List.forall₂_nil_left_iff.mp reads)
      | cons first rest ih =>
          obtain ⟨other, more, now, others, rfl⟩ := List.forall₂_cons_left_iff.mp reads
          obtain ⟨names, -, holds⟩ := first
          rw [((each holds).mp now).2, ih others]
  · rintro ⟨may, rfl⟩
    refine all.imp ?_
    rintro entry member ⟨names, known, holds⟩
    exact (each holds).mpr ⟨may names known, rfl⟩

/-- What is made of the members is made if and only if they can be read. -/
theorem IsListing.make_iff {ε α : Type} (listing : IsListing fs rules root entries paths)
    (held : paths.map (held? fs root) = members.map some) {read : Entry → Except ε Member}
    (each : ∀ {entry member names}, Holds fs root entry member names → ∀ {other},
      read entry = .ok other ↔ MayRead fs (root.descend names) ∧ other = member)
    {make : List Member → α} {made : α} :
    (do return make (← entries.mapM read)) = Except.ok made
      ↔ Readable fs rules root ∧ made = make members := by
  rw [bind_eq_ok_iff]
  simp only [listing.mapM_iff held each]
  constructor
  · rintro ⟨_, ⟨may, rfl⟩, done⟩
    exact ⟨may, (Except.ok.inj done).symm⟩
  · rintro ⟨may, rfl⟩
    exact ⟨members, ⟨may, rfl⟩, rfl⟩

theorem digest_iff (listing : IsListing fs rules root entries paths)
    (held : paths.map (held? fs root) = members.map some) {hash : ContentHash} :
    digest fs entries = .ok hash ↔ Readable fs rules root ∧ hash = Member.digest members :=
  listing.make_iff held fun holds => holds.unchanged_iff

end Listing

namespace Packaging

open Listing

variable {fs : FileSystem} {rules : IgnoreRules} {root : Path} {entries : List Entry}
  {paths : List (List Name)} {members : List Member} {type : AssetType}

theorem archive_iff (listing : IsListing fs rules root entries paths)
    (held : paths.map (held? fs root) = members.map some) {file : Bytes × Nat} :
    archive fs entries = .ok file
      ↔ Readable fs rules root ∧ file = (Gzip.wrap (Tar.write members), 0o600) :=
  listing.make_iff held fun holds => holds.member_iff

theorem checkSource_directory {base : Location} (wants : type.wantsDirectory = true)
    (found : fs.stat root = .ok (base, .directory)) : checkSource fs root type = .ok () := by
  rw [checkSource, found]
  cases type with
  | file => cases wants
  | directory | archive => rfl

theorem examine_directory {base : Location} (wants : type.wantsDirectory = true)
    (found : fs.stat root = .ok (base, .directory)) (listed : collect fs root = .ok entries) :
    examine fs root type = (digest fs entries).map fun hash => (entries, hash) := by
  have checked := checkSource_directory wants found
  cases type with
  | file => cases wants
  | directory | archive =>
      rw [examine, checked]
      cases told : digest fs entries <;> simp [listed, told, bind, Except.bind, Except.map, pure,
        Except.pure]

/-- What becomes of a directory, as an archive or as a copy: everything is told by its members, and
nothing else stands in the way than a file that cannot be read. -/
structure Yields (fs : FileSystem) (rules : IgnoreRules) (root : Path) (entries : List Entry)
    (members : List Member) : Prop where
  hash : ∀ type, type.wantsDirectory = true → ∀ hash, Packaging.hash fs root type = .ok hash
    ↔ Readable fs rules root ∧ hash = Member.digest members
  archive : ∀ file, Packaging.archive fs entries = .ok file
    ↔ Readable fs rules root ∧ file = (Gzip.wrap (Tar.write members), 0o600)
  content : Gzip.contents? (Gzip.wrap (Tar.write members)) = some (Tar.write members)
  package : ∀ type, type.wantsDirectory = true → ∀ staging artifact after,
    Packaging.package root type staging fs = .ok artifact after →
      artifact.hash = Member.digest members
        ∧ ∃ short, (Member.digest members).short? = some short
          ∧ (type = .archive → artifact.fileName = short ++ ".tar.gz")
          ∧ (type = .directory → artifact.fileName = short)

theorem yields {base : Location} (found : fs.stat root = .ok (base, .directory))
    (listed : collect fs root = .ok entries) (listing : IsListing fs rules root entries paths)
    (held : paths.map (held? fs root) = members.map some) :
    Yields fs rules root entries members where
  hash := by
    intro type wants hash
    rw [hash_eq, examine_directory wants found listed, ← digest_iff listing held]
    cases digest fs entries <;> simp [Except.map]
  archive := fun file => archive_iff listing held
  content := Gzip.contents?_wrap _
  package := by
    intro type wants staging artifact after run
    obtain ⟨others, short, examined, known, fileName, -⟩ := package_steps run
    rw [examine_directory wants found listed] at examined
    cases told : digest fs entries with
    | error e => simp [told, Except.map] at examined
    | ok own =>
        rw [told] at examined
        obtain ⟨rfl, hash⟩ := Prod.mk.inj (Except.ok.inj examined)
        obtain ⟨-, rfl⟩ := (digest_iff listing held).mp told
        rw [← hash] at known
        refine ⟨hash.symm, short, ?_, ?_, ?_⟩
        · unfold shortOf at known
          split at known
          · next same => rw [same, Except.ok.inj known]
          · cases known
        · rintro rfl
          exact fileName
        · rintro rfl
          exact fileName

end Packaging

open Listing in
/-- Of two directories with the same visible tree, hashes, names and archives are those of the same
members, whatever disks they stand on, however their paths are spelled, and whatever else there is
to them. -/
theorem packages_identical {fs fs' : FileSystem} {root root' : Path} {base base' : Location}
    {rules rules' : IgnoreRules} {entries entries' : List Entry} (well : fs.WellFormed)
    (well' : fs'.WellFormed) (found : fs.stat root = .ok (base, .directory))
    (found' : fs'.stat root' = .ok (base', .directory))
    (loaded : IgnoreRules.load fs root = .ok rules)
    (loaded' : IgnoreRules.load fs' root' = .ok rules')
    (listed : collect fs root = .ok entries) (listed' : collect fs' root' = .ok entries')
    (textual : Textual fs rules root) (same : SameTree fs rules root fs' rules' root') :
    ∃ members, Packaging.Yields fs rules root entries members
      ∧ Packaging.Yields fs' rules' root' entries' members := by
  obtain ⟨paths, listing⟩ := isListing_of_collect well loaded listed
  obtain ⟨paths', listing'⟩ := isListing_of_collect well' loaded' listed'
  obtain rfl := same.paths_eq textual listing listing'
  obtain ⟨members, held⟩ := listing.exists_members
  have held' : paths.map (held? fs' root') = members.map some := by
    rw [← held]
    exact (List.map_congr_left fun names known =>
      same.held names ((listing.visible names).mp known)).symm
  exact ⟨members, Packaging.yields found listed listing held,
    Packaging.yields found' listed' listing' held'⟩

/-! ### A link instead of a file -/

namespace SameProgram

open Listing

def a : Name := ⟨[97], .refl true⟩
def b : Name := ⟨[98], .refl true⟩
def c : Name := ⟨[99], .refl true⟩
def d : Name := ⟨[100], .refl true⟩

/-- A directory `c` in which `b` is a link to the program `d`; others may not read it. -/
def linked : FileSystem where
  objects := [([d], .file [104, 105] 0o711), ([b, c], .link ⟨[46, 46, 47, 100]⟩), ([c], .directory)]
  current := []

/-- One file below a root is all that is visible. -/
theorem visible_only {fs : FileSystem} {rules : IgnoreRules} {root : Path} {entry : Entry}
    {paths : List (List Name)} {left : Nat} {base : Location}
    (entered : fs.reach false root = .ok (left, base)) (only : fs.children base = [b])
    (listing : IsListing fs rules root [entry] paths) (names : List Name) :
    Visible fs rules root names ↔ names = [b] := by
  obtain ⟨path, rfl⟩ : ∃ path, paths = [path] := by
    have length := congrArg List.length listing.seen
    simp only [List.length_map, List.length_singleton] at length
    exact List.length_eq_one_iff.mp length
  have visible := (listing.visible path).mp List.mem_cons_self
  obtain ⟨name, rest, rfl⟩ := List.exists_cons_of_ne_nil visible.below
  have isOpen := (visible_iff_open visible.below).mp visible
  have among := isOpen.mem_children (show fs.reach false (root.descend []) = _ from entered)
  rw [only, List.mem_singleton] at among
  subst among
  have alone : rest = [] := by
    by_contra deeper
    have whole : Visible fs rules root ([b] ++ rest) := visible
    have above := (whole.above (by simp) deeper).1
    have same := List.mem_singleton.mp ((listing.visible [b]).mpr above)
    simp only [List.cons.injEq, true_and] at same
    exact deeper same.symm
  subst alone
  rw [← listing.visible names, List.mem_singleton]

/-- The spelling `c/.`. -/
def spelled : Path := ⟨[99, 47, 46]⟩

theorem collect_linked : IgnoreRules.load linked spelled = .ok .none
    ∧ collect linked spelled = .ok [⟨"b", ⟨[99, 47, 46, 47, 98]⟩, .file true 2⟩] := by
  have loaded : IgnoreRules.load linked spelled = .ok .none := by cbv
  have found : linked.stat spelled = .ok ([c], .directory) := by cbv
  have inside : linked.children [c] = [b] := by cbv
  refine ⟨loaded, ?_⟩
  simp only [collect, loaded, found, inside, Except.mapError, bind, Except.bind, walk_cons]
  cbv

/-- The program of `loneProgram` and the link to its like are packaged alike. -/
theorem link_identical : ∃ members,
    Packaging.Yields loneProgram .none ⟨[97]⟩ [⟨"b", ⟨[97, 47, 98]⟩, .file true 2⟩] members
      ∧ Packaging.Yields linked .none spelled [⟨"b", ⟨[99, 47, 46, 47, 98]⟩, .file true 2⟩]
        members := by
  have well : loneProgram.WellFormed := .of_objects (by decide) (by decide)
  have well' : linked.WellFormed := .of_objects (by decide) (by decide)
  have loaded : IgnoreRules.load loneProgram ⟨[97]⟩ = .ok .none := by cbv
  obtain ⟨loaded', listed'⟩ := collect_linked
  obtain ⟨paths, listing⟩ := isListing_of_collect well loaded loneProgram_listed
  obtain ⟨paths', listing'⟩ := isListing_of_collect well' loaded' listed'
  have entered : loneProgram.reach false ⟨[97]⟩ = .ok (40, [a]) := by cbv
  have entered' : linked.reach false spelled = .ok (40, [c]) := by cbv
  have only := visible_only entered (by cbv) listing
  have only' := visible_only entered' (by cbv) listing'
  refine packages_identical well well' (by cbv) (by cbv) loaded loaded' loneProgram_listed listed'
    ?_ ⟨?_, ?_⟩
  · intro names visible name member
    obtain rfl := (only names).mp visible
    obtain rfl := List.mem_singleton.mp member
    exact ⟨"b", by cbv⟩
  · intro names
    rw [only, only']
  · intro names visible
    obtain rfl := (only names).mp visible
    cbv

end SameProgram

end StackSynth
