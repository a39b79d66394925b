import StackSynth.Proofs.Copying
import StackSynth.Proofs.VisibleTree

/-!
# Members — what becomes of the entries of a listing

The members of a listing are its entries with their content, in the same order.  A listing names
every directory above what it names, so that its entries can be copied one after another, and the
copies are the members.

* `mapM_ok_iff`, `mapM_error_iff` — all of a list succeeds, or one is the first that fails;
* `Listing.collect_below` — entries go by the names that lead to them;
* `Listing.copyable` — the entries of a listing can be copied;
* `Listing.member_of_entry`, `entry_of_member` — entries and members belong together;
* `Listing.members_again` — the members are the same when they are read again.
-/

namespace StackSynth

theorem mapM_cons_ok_iff {α β ε : Type} {f : α → Except ε β} {x : α} {xs : List α} {ys : List β} :
    (x :: xs).mapM f = .ok ys
      ↔ ∃ y rest, f x = .ok y ∧ xs.mapM f = .ok rest ∧ ys = y :: rest := by
  rw [List.mapM_cons]
  cases f x <;> cases xs.mapM f <;> simp [bind, Except.bind, pure, Except.pure, eq_comm]

theorem mapM_ok_iff {α β ε : Type} {f : α → Except ε β} {xs : List α} {ys : List β} :
    xs.mapM f = .ok ys ↔ List.Forall₂ (fun x y => f x = .ok y) xs ys := by
  induction xs generalizing ys with
  | nil => simp [pure, Except.pure, eq_comm]
  | cons x xs ih =>
      rw [mapM_cons_ok_iff, List.forall₂_cons_left_iff]
      simp only [ih]

theorem mapM_cons_error_iff {α β ε : Type} {f : α → Except ε β} {x : α} {xs : List α} {e : ε} :
    (x :: xs).mapM f = .error e
      ↔ f x = .error e ∨ (∃ y, f x = .ok y) ∧ xs.mapM f = .error e := by
  rw [List.mapM_cons]
  cases f x <;> cases xs.mapM f <;> simp [bind, Except.bind, pure, Except.pure]

/-- Of those that fail, the first one is reported. -/
theorem mapM_error_iff {α β ε : Type} {f : α → Except ε β} {xs : List α} {e : ε} :
    xs.mapM f = .error e ↔ ∃ front x back, xs = front ++ x :: back
      ∧ (∀ y ∈ front, ∃ z, f y = .ok z) ∧ f x = .error e := by
  induction xs with
  | nil => simp [pure, Except.pure]
  | cons x xs ih =>
      rw [mapM_cons_error_iff, ih]
      constructor
      · rintro (failed | ⟨first, front, y, back, rfl, fine, failed⟩)
        · exact ⟨[], x, xs, rfl, by simp, failed⟩
        · exact ⟨x :: front, y, back, rfl, List.forall_mem_cons.mpr ⟨first, fine⟩, failed⟩
      · rintro ⟨front, y, back, whole, fine, failed⟩
        rcases List.cons_eq_append_iff.mp whole with ⟨rfl, same⟩ | ⟨front, rfl, rfl⟩
        · obtain ⟨rfl, -⟩ := List.cons.inj same
          exact Or.inl failed
        · obtain ⟨first, fine⟩ := List.forall_mem_cons.mp fine
          exact Or.inr ⟨first, front, y, back, rfl, fine, failed⟩

theorem exists_of_forall₂ {α β : Type} {relation : α → β → Prop} {xs : List α} {ys : List β}
    (all : List.Forall₂ relation xs ys) :
    (∀ x ∈ xs, ∃ y ∈ ys, relation x y) ∧ ∀ y ∈ ys, ∃ x ∈ xs, relation x y := by
  induction all with
  | nil => simp
  | cons first others ih =>
      constructor
      · intro x member
        rcases List.mem_cons.mp member with rfl | member
        · exact ⟨_, List.mem_cons_self, first⟩
        · obtain ⟨y, known, holds⟩ := ih.1 x member
          exact ⟨y, List.mem_cons_of_mem _ known, holds⟩
      · intro y member
        rcases List.mem_cons.mp member with rfl | member
        · exact ⟨_, List.mem_cons_self, first⟩
        · obtain ⟨x, known, holds⟩ := ih.2 y member
          exact ⟨x, List.mem_cons_of_mem _ known, holds⟩

theorem exists_forall₂ {α β : Type} {relation : α → β → Prop} {xs : List α}
    (each : ∀ x ∈ xs, ∃ y, relation x y) : ∃ ys, List.Forall₂ relation xs ys := by
  induction xs with
  | nil => exact ⟨[], .nil⟩
  | cons x xs ih =>
      simp only [List.forall_mem_cons] at each
      obtain ⟨y, first⟩ := each.1
      obtain ⟨ys, others⟩ := ih each.2
      exact ⟨y :: ys, .cons first others⟩

namespace Listing

open FileSystem

variable {fs later : FileSystem} {root : Path} {entries : List Entry} {members : List Member}

/-! ## Entries -/

/-- The entry goes by the names that lead to it from the root. -/
def IsBelow (root : Path) (entry : Entry) : Prop :=
  ∃ names, names ≠ [] ∧ entry.name = shown names ∧ entry.path = root.descend names

theorem walk_below {rules : IgnoreRules} {here : Level} {outside : List Level}
    {above names : List Name} (path : here.path = root.descend above)
    (walked : walk fs rules here outside above names = .ok entries) :
    ∀ entry ∈ entries, IsBelow root entry := by
  have walks := walks_of_walk walked
  clear walked
  have own : ∀ {here : Level} {above : List Name} {name : Name} (kind : EntryKind),
      here.path = root.descend above →
      IsBelow root ⟨shown (above ++ [name]), here.path.child name, kind⟩ :=
    fun {_ above name} _ path => ⟨above ++ [name], by simp, rfl, by rw [path, Path.child_descend]⟩
  induction walks with
  | nil => simp
  | leftOut _ _ _ ih => exact ih path
  | unlisted _ _ _ ih => exact ih path
  | file _ _ _ _ ih => exact List.forall_mem_cons.mpr ⟨own _ path, ih path⟩
  | directory _ _ _ _ _ ihInner ihRest =>
      simp only [List.forall_mem_cons, List.forall_mem_append]
      exact ⟨own _ path, ihInner (by rw [path, Path.child_descend]), ihRest path⟩

theorem collect_below (listed : collect fs root = .ok entries) :
    ∀ entry ∈ entries, IsBelow root entry := by
  obtain ⟨rules, -, walked⟩ := bind_eq_ok_iff.mp listed
  split at walked
  · cases walked
  · obtain ⟨found, walkedAll, done⟩ := bind_eq_ok_iff.mp walked
    obtain rfl := Except.ok.inj done
    intro entry member
    exact walk_below rfl walkedAll entry (List.mem_mergeSort.mp member)
  · obtain rfl := Except.ok.inj walked
    simp

/-- Where an entry comes from. -/
structure IsEntry (fs : FileSystem) (root : Path) (entries : List Entry) (entry : Entry)
    (names : List Name) : Prop where
  some : names ≠ []
  name : entry.name = shown names
  stands : ∃ l object, fs.stat entry.path = .ok (l, object) ∧ kindOf? object = Option.some entry.kind
  /-- The directories above are entries. -/
  above : ∀ up rest, names = up ++ rest → up ≠ [] → rest ≠ [] →
    ∃ other ∈ entries, other.kind = .directory ∧ other.name = shown up

theorem isEntry_of_collect (well : fs.WellFormed) (listed : collect fs root = .ok entries)
    {entry : Entry} (member : entry ∈ entries) : ∃ names, IsEntry fs root entries entry names := by
  obtain ⟨rules, loaded⟩ := load_of_collect listed
  obtain ⟨paths, listing⟩ := isListing_of_collect well loaded listed
  have fromPaths : ∀ names entry, seen? fs root names = some entry → names ∈ paths →
      entry ∈ entries := by
    intro names entry seen known
    have image : some entry ∈ paths.map (seen? fs root) := List.mem_map.mpr ⟨names, known, seen⟩
    rw [listing.seen] at image
    simpa using image
  have image : some entry ∈ entries.map some := List.mem_map.mpr ⟨entry, member, rfl⟩
  rw [← listing.seen] at image
  obtain ⟨names, known, seen⟩ := List.mem_map.mp image
  obtain ⟨l, object, stands, kind, name, path⟩ := seen?_eq_some_iff.mp seen
  have visible := (listing.visible names).mp known
  refine ⟨names, visible.below, name, ⟨l, object, path ▸ stands, kind⟩, ?_⟩
  rintro up rest rfl nonempty deeper
  obtain ⟨visible', seen'⟩ := visible.above nonempty deeper
  exact ⟨_, fromPaths up _ seen' ((listing.visible up).mpr visible'), rfl, rfl⟩

/-! ## Entries with their content -/

/-- What an entry becomes: a file has the content and the length that it had when it was listed. -/
theorem unchanged_file {entry : Entry} {program : Bool} {length : Nat} {member : Member}
    (kind : entry.kind = .file program length) (now : entry.unchanged fs = .ok member) :
    ∃ content mode, fs.readFile entry.path = .ok (content, mode)
      ∧ member = .file entry.name program content := by
  unfold Entry.unchanged FileSystem.read at now
  simp only [kind] at now
  cases found : fs.readFile entry.path with
  | error fault => simp [found, bind, Except.bind] at now
  | ok place =>
      obtain ⟨content, mode⟩ := place
      simp only [found, bind, Except.bind, pure, Except.pure] at now
      split at now
      · exact ⟨content, mode, rfl, (Except.ok.inj now).symm⟩
      · cases now

theorem unchanged_directory {entry : Entry} {member : Member} (kind : entry.kind = .directory)
    (now : entry.unchanged fs = .ok member) : member = .directory entry.name := by
  unfold Entry.unchanged at now
  simp only [kind] at now
  exact (Except.ok.inj now).symm

theorem unchanged_name {entry : Entry} {member : Member} (now : entry.unchanged fs = .ok member) :
    entry.name = member.name := by
  cases kind : entry.kind with
  | directory => rw [unchanged_directory kind now, Member.name]
  | file program length =>
      obtain ⟨content, mode, -, rfl⟩ := unchanged_file kind now
      rfl

theorem unchanged_names (now : entries.mapM (Entry.unchanged fs) = .ok members) :
    entries.map Entry.name = members.map Member.name := by
  have all := mapM_ok_iff.mp now
  clear now
  induction all with
  | nil => rfl
  | cons first others ih => rw [List.map_cons, List.map_cons, unchanged_name first, ih]

/-- What was read once is read again where more stands. -/
theorem member_of_unchanged (extends' : Extends fs later) {entry : Entry} {member : Member}
    (now : entry.unchanged fs = .ok member) : entry.member later = .ok member := by
  cases kind : entry.kind with
  | directory =>
      obtain rfl := unchanged_directory kind now
      simp [Entry.member, kind]
  | file program length =>
      obtain ⟨content, mode, read, rfl⟩ := unchanged_file kind now
      simp [Entry.member, kind, FileSystem.read, readFile_extends extends' read, bind, Except.bind,
        pure, Except.pure]

theorem members_again (extends' : Extends fs later)
    (now : entries.mapM (Entry.unchanged fs) = .ok members) :
    Listing.members later entries = .ok members :=
  mapM_ok_iff.mpr ((mapM_ok_iff.mp now).imp fun _ _ => member_of_unchanged extends')

/-! ## Copies -/

theorem copyable (well : fs.WellFormed) (listed : collect fs root = .ok entries)
    (now : entries.mapM (Entry.unchanged fs) = .ok members) (extends' : Extends fs later) :
    Packaging.Copyable later entries where
  named := by
    intro entry member
    obtain ⟨names, isEntry⟩ := isEntry_of_collect well listed member
    exact ⟨names, isEntry.some, isEntry.name, isEntry.above⟩
  readable := by
    intro entry member program length kind
    obtain ⟨found, -, unchanged⟩ := (exists_of_forall₂ (mapM_ok_iff.mp now)).1 entry member
    obtain ⟨content, mode, read, -⟩ := unchanged_file kind unchanged
    exact ⟨_, readFile_extends extends' read⟩

theorem entry_of_member (now : entries.mapM (Entry.unchanged fs) = .ok members) {member : Member}
    (known : member ∈ members) : ∃ entry ∈ entries, entry.name = member.name := by
  obtain ⟨entry, inside, unchanged⟩ := (exists_of_forall₂ (mapM_ok_iff.mp now)).2 member known
  exact ⟨entry, inside, unchanged_name unchanged⟩

/-- A copy of an entry looks like its member. -/
theorem member_of_entry (well : fs.WellFormed) (listed : collect fs root = .ok entries)
    (now : entries.mapM (Entry.unchanged fs) = .ok members) (extends' : Extends fs later)
    {entry : Entry} (inside : entry ∈ entries) :
    ∃ member ∈ members, entry.name = member.name
      ∧ ∀ object, entry.CopiedAs later object → member.Matches object := by
  obtain ⟨member, known, unchanged⟩ := (exists_of_forall₂ (mapM_ok_iff.mp now)).1 entry inside
  refine ⟨member, known, unchanged_name unchanged, ?_⟩
  intro object copied
  cases kind : entry.kind with
  | directory =>
      obtain rfl := unchanged_directory kind unchanged
      simpa [Entry.CopiedAs, kind, Member.Matches] using copied
  | file program length =>
      obtain ⟨content, mode, read, rfl⟩ := unchanged_file kind unchanged
      simp only [Entry.CopiedAs, kind] at copied
      obtain ⟨content', mode', read', rfl⟩ := copied
      obtain ⟨rfl, rfl⟩ : content = content' ∧ mode = mode' := by
        have again := readFile_extends extends' read
        rw [read'] at again
        exact Prod.mk.inj (Except.ok.inj again.symm)
      refine ⟨mode, rfl, ?_⟩
      -- The listing has seen the file that was read.
      obtain ⟨names, isEntry⟩ := isEntry_of_collect well listed inside
      obtain ⟨l, object, stands, told⟩ := isEntry.stands
      cases object with
      | file content' mode' =>
          obtain ⟨_, _, found, reads⟩ := readFile_ok_iff.mp read
          cases stands.symm.trans found
          cases reads with
          | file _ =>
              rw [kindOf?_file, kind] at told
              exact (EntryKind.file.inj (Option.some.inj told)).1
      | directory => simp [kindOf?, kind] at told
      | link target => simp [kindOf?] at told
      | pipe => simp [kindOf?] at told

end Listing
end StackSynth
