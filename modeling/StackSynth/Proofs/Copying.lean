import StackSynth.Proofs.Display
import StackSynth.Proofs.Payload
import StackSynth.Proofs.Placing
import StackSynth.Proofs.Straight

/-!
# Copying — entries below a directory

Entries are copied one after another below a directory that was empty.  Nothing else changes, even
if a copy fails; this is `Confined`.  After each entry that was copied, what stands there is a copy
of some entry and every entry so far has its object; this is `CopyState`.

* `Packaging.copyEntries_ok` — the state when all entries are copied;
* `Packaging.copyEntries_ends` — what does not change, however the copying ends;
* `Packaging.CopyState.hold` — then the directory holds the members of the entries.
-/

namespace StackSynth

/-- What was read could be read. -/
theorem FileSystem.readable_of_readFile {fs : FileSystem} {p : Path} {content : Bytes} {mode : Nat}
    (read : fs.readFile p = .ok (content, mode)) : readable mode = true := by
  obtain ⟨_, _, -, reads⟩ := readFile_ok_iff.mp read
  cases reads with
  | file canRead => exact canRead
  | pipe => decide

/-! ## Copies of entries -/

namespace Entry

/-- The names `names` lead to the entry. -/
def IsAt (entry : Entry) (names : List Name) : Prop :=
  Utf8.encode entry.name = (Listing.relative names).bytes

/-- What becomes of an entry that is copied from `fs`. -/
def CopiedAs (fs : FileSystem) (entry : Entry) (object : Object) : Prop :=
  match entry.kind with
  | .directory => object = .directory
  | .file _ _ => ∃ content mode, fs.readFile entry.path = .ok (content, mode)
      ∧ object = .file content mode

theorem CopiedAs.plain {fs : FileSystem} {entry : Entry} {object : Object}
    (copied : entry.CopiedAs fs object) :
    object = .directory ∨ ∃ content mode, object = .file content mode ∧ readable mode = true := by
  unfold CopiedAs at copied
  split at copied
  · exact Or.inl copied
  · obtain ⟨content, mode, read, same⟩ := copied
    exact Or.inr ⟨content, mode, same, FileSystem.readable_of_readFile read⟩

end Entry

namespace Packaging

open FileSystem

variable {start now after : FileSystem} {base : Location} {all done : List Entry}

/-- Entries as a listing has them: each is named by names that are shown, and whatever stands
above one is an entry, too; files can be read. -/
structure Copyable (start : FileSystem) (all : List Entry) : Prop where
  named : ∀ entry ∈ all, ∃ names, names ≠ [] ∧ entry.name = Listing.shown names
    ∧ ∀ above rest, names = above ++ rest → above ≠ [] → rest ≠ [] →
      ∃ other ∈ all, other.kind = .directory ∧ other.name = Listing.shown above
  readable : ∀ entry ∈ all, ∀ program length, entry.kind = .file program length →
    ∃ content, start.readFile entry.path = .ok content

/-! ## Below a directory of their own -/

/-- A directory for copies: `p` leads to the place above it, and nothing is in it. -/
structure Site (start : FileSystem) (p : Path) (above : Location) (fresh : Name) : Prop where
  entered : ∃ left, start.reach false p = .ok (left, above)
  there : start.get? (fresh :: above) = some .directory
  empty : ∀ l, Location.Below (fresh :: above) l → start.get? l = none

/-- Nothing has changed but below `base`, where only directories and files were put. -/
structure Confined (start : FileSystem) (base : Location) (now : FileSystem) : Prop where
  sound : Sound now
  current : now.current = start.current
  outside : ∀ l, ¬ Location.Below base l → now.get? l = start.get? l
  plain : Plain now base

section Confined

variable {p : Path} {above : Location} {fresh : Name}

theorem Site.confined (site : Site start p above fresh) (sound : Sound start) :
    Confined start (fresh :: above) start where
  sound := sound
  current := rfl
  outside := fun _ _ => rfl
  plain := by
    intro l object below stands
    rw [site.empty l below] at stands
    cases stands

theorem Confined.extends (confined : Confined start (fresh :: above) now)
    (site : Site start p above fresh) : Extends start now where
  current := confined.current
  objects := by
    intro l object stands
    rw [confined.outside l]
    · exact stands
    · intro below
      rw [site.empty l below] at stands
      cases stands

theorem Confined.entered (confined : Confined start (fresh :: above) now)
    (site : Site start p above fresh) : ∃ left, now.reach false p = .ok (left, above) := by
  obtain ⟨left, entered⟩ := site.entered
  exact ⟨left, reach_extends (confined.extends site) entered⟩

/-- The way down into the directory for copies is plain. -/
theorem Confined.along (confined : Confined start (fresh :: above) now)
    (site : Site start p above fresh) (names : List Name) :
    PlainAlong now above (fresh :: names) := by
  refine .cons ?_ confined.plain names
  rw [confined.outside _ fun below => below.2 rfl]
  exact site.there

/-- What is new on the way to a copy is below the directory for copies. -/
theorem Confined.new_of_made (confined : Confined start (fresh :: above) now)
    (site : Site start p above fresh) {names : List Name}
    (made : Made (p.descend (fresh :: names)) now after) {l : Location}
    (nothing : now.get? l = none) (directory : after.get? l = some .directory) :
    ∃ up rest, names = up ++ rest ∧ up ≠ [] ∧ l = up.reverse ++ fresh :: above := by
  obtain ⟨left, entered⟩ := confined.entered site
  obtain ⟨up, rest, parts, some, rfl⟩ := makes_descend (confined.along site names) entered
    (made.places l nothing directory) nothing
  obtain ⟨first, up, rfl⟩ := List.exists_cons_of_ne_nil some
  obtain ⟨rfl, rfl⟩ := List.cons.inj parts
  refine ⟨up, rest, rfl, ?_, by simp⟩
  rintro rfl
  -- The directory for copies was there.
  have there : now.get? (fresh :: above) = Option.some .directory := by
    rw [confined.outside _ fun below => below.2 rfl]
    exact site.there
  have place : [fresh].reverse ++ above = fresh :: above := rfl
  rw [place, there] at nothing
  cases nothing

theorem Confined.made (confined : Confined start (fresh :: above) now)
    (site : Site start p above fresh) {names : List Name}
    (made : Made (p.descend (fresh :: names)) now after) :
    Confined start (fresh :: above) after where
  sound := made.sound
  current := made.grown.current.trans confined.current
  outside := by
    intro l away
    rw [← confined.outside l away]
    rcases made.grown.get? l with same | ⟨nothing, directory⟩
    · exact same
    · obtain ⟨up, rest, -, some, rfl⟩ := confined.new_of_made site made nothing directory
      have below : Location.Below (fresh :: above) (up.reverse ++ fresh :: above) :=
        Location.below_iff.mpr ⟨up.reverse, by simpa using some, rfl⟩
      exact absurd below away
  plain := confined.plain.grown made.grown

theorem Confined.placed {base : Location} (confined : Confined start base now) {names : List Name}
    (some : names ≠ []) {content : Bytes} {mode : Nat}
    (placed : Placed (names.reverse ++ base) content mode now after) :
    Confined start base after where
  sound := placed.sound
  current := placed.current.trans confined.current
  outside := by
    intro l away
    rw [placed.objects, if_neg, confined.outside l away]
    rintro rfl
    exact away (Location.below_iff.mpr ⟨names.reverse, by simpa using some, rfl⟩)
  plain := by
    intro l object below stands
    rw [placed.objects] at stands
    split at stands
    · exact Or.inr ⟨content, mode, (Option.some.inj stands).symm⟩
    · exact confined.plain l object below stands

end Confined

/-! ## What has been copied -/

/-- Some entries have been copied below `base`, where nothing was at the start. -/
structure CopyState (start : FileSystem) (base : Location) (all done : List Entry)
    (now : FileSystem) : Prop extends Confined start base now where
  known : ∀ names object, names ≠ [] → now.get? (names.reverse ++ base) = some object →
    ∃ entry ∈ all, entry.IsAt names ∧ entry.CopiedAs start object
  there : ∀ entry ∈ done, ∃ names, names ≠ [] ∧ entry.IsAt names
    ∧ now.get? (names.reverse ++ base) ≠ none

section CopyState

variable {p : Path} {above : Location} {fresh : Name}

theorem CopyState.begin (sound : Sound start) (site : Site start p above fresh) :
    CopyState start (fresh :: above) all [] start where
  toConfined := site.confined sound
  known := by
    intro names object some stands
    have below : Location.Below (fresh :: above) (names.reverse ++ fresh :: above) :=
      Location.below_iff.mpr ⟨names.reverse, by simpa using some, rfl⟩
    rw [site.empty _ below] at stands
    cases stands
  there := by simp

theorem isAt_displayed {entry : Entry} {names : List Name} (named : entry.name = Listing.shown names) :
    entry.IsAt (names.map Name.displayed) := by
  show Utf8.encode entry.name = _
  rw [named, Listing.shown, Utf8.encode_joinWith, Listing.relative]
  simp [Function.comp_def]

/-- Directories on the way to an entry are entries themselves. -/
theorem CopyState.made (state : CopyState start (fresh :: above) all done now)
    (site : Site start p above fresh) {names : List Name}
    (known : ∀ up rest, names = up ++ rest → up ≠ [] →
      ∃ entry ∈ all, entry.IsAt up ∧ entry.kind = .directory)
    (made : Made (p.descend (fresh :: names)) now after) :
    CopyState start (fresh :: above) all done after where
  toConfined := state.toConfined.made site made
  known := by
    intro others object some stands
    rcases made.grown.get? (others.reverse ++ fresh :: above) with same | ⟨nothing, directory⟩
    · exact state.known others object some (same ▸ stands)
    · rw [directory] at stands
      cases stands
      -- A directory that is new is one on the way, which the listing has an entry for.
      obtain ⟨up, rest, parts, nonempty, same⟩ :=
        state.toConfined.new_of_made site made nothing directory
      obtain rfl : others = up := by
        have reversed := List.append_cancel_right same
        simpa using reversed
      obtain ⟨entry, member, isAt, kind⟩ := known others rest parts nonempty
      exact ⟨entry, member, isAt, by simp [Entry.CopiedAs, kind]⟩
  there := by
    intro entry member
    obtain ⟨others, some, isAt, stands⟩ := state.there entry member
    refine ⟨others, some, isAt, ?_⟩
    obtain ⟨object, found⟩ := Option.ne_none_iff_exists'.mp stands
    rw [made.grown.objects found]
    simp

/-- A file that is put below `base` is a copy of its entry. -/
theorem CopyState.placed (state : CopyState start base all done now) {entry : Entry}
    {names : List Name} {content : Bytes} {mode : Nat} (some : names ≠ []) (member : entry ∈ all)
    (isAt : entry.IsAt names) (copied : entry.CopiedAs start (.file content mode))
    (placed : Placed (names.reverse ++ base) content mode now after) :
    CopyState start base all done after where
  toConfined := state.toConfined.placed some placed
  known := by
    intro others object nonempty stands
    rw [placed.objects] at stands
    split at stands
    · rename_i same
      cases stands
      -- The place is that of the entry, and no other names lead there.
      obtain rfl : others = names := by
        have reversed := List.append_cancel_right same
        simpa using reversed
      exact ⟨entry, member, isAt, copied⟩
    · exact state.known others object nonempty stands
  there := by
    intro other known
    obtain ⟨others, nonempty, isAt, stands⟩ := state.there other known
    refine ⟨others, nonempty, isAt, ?_⟩
    rw [placed.objects]
    split
    · simp
    · exact stands

theorem CopyState.add (state : CopyState start base all done now) {entry : Entry}
    {names : List Name} (some : names ≠ []) (isAt : entry.IsAt names)
    (stands : now.get? (names.reverse ++ base) ≠ none) :
    CopyState start base all (done ++ [entry]) now where
  toConfined := state.toConfined
  known := state.known
  there := by
    intro other member
    rcases List.mem_append.mp member with member | member
    · exact state.there other member
    · obtain rfl : other = entry := by simpa using member
      exact ⟨names, some, isAt, stands⟩

end CopyState

/-! ## The loop -/

section Loop

variable {p : Path} {above : Location} {fresh : Name}

/-- The parts of the names of an entry, other than all of them, are those of directories. -/
theorem Copyable.part (copyable : Copyable start all) {entry : Entry} (member : entry ∈ all) :
    ∃ names, names ≠ [] ∧ entry.IsAt names ∧ (∀ p : Path, p.childText entry.name = p.descend names)
      ∧ ∀ up rest, names = up ++ rest → up ≠ [] → rest ≠ [] →
        ∃ other ∈ all, other.IsAt up ∧ other.kind = .directory := by
  obtain ⟨names, some, named, above⟩ := copyable.named entry member
  refine ⟨names.map Name.displayed, by simpa using some, isAt_displayed named, ?_, ?_⟩
  · intro p
    rw [named, Path.childText_shown p some]
  · intro up rest parts nonempty more
    obtain ⟨upper, lower, rfl, rfl, rfl⟩ := List.map_eq_append_iff.mp parts
    obtain ⟨other, inside, kind, shown⟩ := above upper lower rfl
      (by simpa using nonempty) (by simpa using more)
    exact ⟨other, inside, isAt_displayed shown, kind⟩

theorem copyDirectory_ok (site : Site start p above fresh) (copyable : Copyable start all)
    (state : CopyState start (fresh :: above) all done now) {entry : Entry}
    (member : entry ∈ all) (kind : entry.kind = .directory)
    (run : createAll ((p.child fresh).childText entry.name) now = .ok () after) :
    CopyState start (fresh :: above) all (done ++ [entry]) after := by
  obtain ⟨names, some, isAt, path, parts⟩ := copyable.part member
  rw [path, ← Path.descend_cons] at run
  have made := createAll_made state.sound (Or.inl ⟨_, run⟩)
  -- On the way to an entry there are only directories, which are entries, too.
  have known : ∀ up rest, names = up ++ rest → up ≠ [] →
      ∃ other ∈ all, other.IsAt up ∧ other.kind = .directory := by
    intro up rest whole nonempty
    cases rest with
    | nil =>
        obtain rfl : names = up := by simpa using whole
        exact ⟨entry, member, isAt, kind⟩
    | cons next rest => exact parts up (next :: rest) whole nonempty (by simp)
  have state' := state.made site known made
  obtain ⟨l, found⟩ := createAll_ok (Path.isEmpty_descend (p.child_not_empty fresh) names) run
  obtain ⟨-, links, reached⟩ := stat_eq_directory_iff.mp found
  -- There are no links in the copy, so that the path leads down name by name.
  obtain ⟨left, entered⟩ := state'.toConfined.entered site
  rw [← Path.descend_cons] at reached
  obtain rfl := (state'.toConfined.along site names).reach_descend entered reached
  refine state'.add some isAt ?_
  have place : (fresh :: names).reverse ++ above = names.reverse ++ fresh :: above := by simp
  rw [← place, state'.sound.reach_directory reached]
  simp

/-- Where a file is put, and what was made for it. -/
theorem copyFile_placed (site : Site start p above fresh)
    (confined : Confined start (fresh :: above) now) {source : Path} {front : List Name}
    {last : Name}
    (run : copyAtomically source ((p.child fresh).descend (front ++ [last])) now = .ok () after) :
    ∃ mid content mode, Made (p.descend (fresh :: front)) now mid
      ∧ (∃ more, Extends mid more ∧ more.readFile source = .ok (content, mode))
      ∧ Placed ((front ++ [last]).reverse ++ fresh :: above) content mode mid after := by
  rw [copyAtomically_eq, Path.descend_append, ← Path.descend_cons, Path.descend_cons] at run
  obtain ⟨mid, links, l, content, mode, made, reached, -, -, read, placed⟩ :=
    placeAtomically_ok confined.sound run
  have confined' := confined.made site made
  obtain ⟨left, entered⟩ := confined'.entered site
  obtain rfl := (confined'.along site front).reach_descend entered reached
  have place : last :: ((fresh :: front).reverse ++ above)
      = (front ++ [last]).reverse ++ fresh :: above := by simp
  rw [place] at placed
  exact ⟨mid, content, mode, made, read, placed⟩

theorem copyFile_ok (site : Site start p above fresh) (copyable : Copyable start all)
    (state : CopyState start (fresh :: above) all done now) {entry : Entry}
    (member : entry ∈ all) {program : Bool} {length : Nat} (kind : entry.kind = .file program length)
    (run : copyAtomically entry.path ((p.child fresh).childText entry.name) now = .ok () after) :
    CopyState start (fresh :: above) all (done ++ [entry]) after := by
  obtain ⟨names, some, isAt, path, parts⟩ := copyable.part member
  obtain ⟨front, last, rfl⟩ : ∃ front last, names = front ++ [last] :=
    ⟨_, _, (List.dropLast_concat_getLast some).symm⟩
  rw [path] at run
  obtain ⟨mid, content, mode, made, ⟨more, extends', read⟩, placed⟩ :=
    copyFile_placed site state.toConfined run
  have known : ∀ up rest, front = up ++ rest → up ≠ [] →
      ∃ other ∈ all, other.IsAt up ∧ other.kind = .directory := by
    intro up rest whole nonempty
    exact parts up (rest ++ [last]) (by simp [whole]) nonempty (by simp)
  have state' := state.made site known made
  -- The source is read as at the start.
  have copied : entry.CopiedAs start (.file content mode) := by
    obtain ⟨found, first⟩ := copyable.readable entry member program length kind
    have same := readFile_extends ((state'.toConfined.extends site).trans extends') first
    rw [read] at same
    cases same
    simp only [Entry.CopiedAs, kind]
    exact ⟨content, mode, first, rfl⟩
  refine (state'.placed some member isAt copied placed).add some isAt ?_
  rw [placed.objects, if_pos rfl]
  simp

/-- The copy of one entry. -/
def copyEntry (target : Path) (entry : Entry) : Action Fault Unit :=
  match entry.kind with
  | .directory => createAll (target.childText entry.name)
  | .file _ _ => copyAtomically entry.path (target.childText entry.name)

theorem copyEntries_cons (target : Path) (entry : Entry) (rest : List Entry) :
    copyEntries target (entry :: rest)
      = (do copyEntry target entry; copyEntries target rest) := by
  rw [copyEntries, copyEntry]
  cases entry.kind <;> rfl

theorem copyEntries_ok (site : Site start p above fresh) (copyable : Copyable start all)
    {rest : List Entry} (known : ∀ entry ∈ rest, entry ∈ all)
    (state : CopyState start (fresh :: above) all done now)
    (run : copyEntries (p.child fresh) rest now = .ok () after) :
    CopyState start (fresh :: above) all (done ++ rest) after := by
  induction rest generalizing done now with
  | nil =>
      obtain ⟨-, rfl⟩ := Action.pure_ok_iff.mp run
      simpa using state
  | cons entry rest ih =>
      simp only [List.forall_mem_cons] at known
      rw [copyEntries_cons] at run
      obtain ⟨_, mid, first, others⟩ := Action.bind_ok_iff.mp run
      -- The invariant: whatever is in the copy belongs to an entry, and what was copied is there.
      have next : CopyState start (fresh :: above) all (done ++ [entry]) mid := by
        cases kind : entry.kind with
        | directory =>
            simp only [copyEntry, kind] at first
            exact copyDirectory_ok site copyable state known.1 kind first
        | file program length =>
            simp only [copyEntry, kind] at first
            exact copyFile_ok site copyable state known.1 kind first
      have final := ih known.2 next others
      rwa [List.append_assoc] at final

/-! ## Failures -/

/-- However the copy of an entry ends, nothing else has changed. -/
theorem copyEntry_ends (site : Site start p above fresh) (copyable : Copyable start all)
    (confined : Confined start (fresh :: above) now) {entry : Entry} (member : entry ∈ all)
    (ends : Action.Ends (copyEntry (p.child fresh) entry) now after) :
    Confined start (fresh :: above) after := by
  obtain ⟨names, some, -, path, -⟩ := copyable.part member
  unfold copyEntry at ends
  cases kind : entry.kind with
  | directory =>
      simp only [kind, path, ← Path.descend_cons] at ends
      exact confined.made site (createAll_made confined.sound ends)
  | file program length =>
      obtain ⟨front, last, rfl⟩ : ∃ front last, names = front ++ [last] :=
        ⟨_, _, (List.dropLast_concat_getLast some).symm⟩
      simp only [kind, path] at ends
      rcases ends with ⟨_, run⟩ | ⟨fault, run⟩
      · obtain ⟨mid, content, mode, made, -, placed⟩ := copyFile_placed site confined run
        exact (confined.made site made).placed some placed
      · rw [copyAtomically_eq, Path.descend_append, ← Path.descend_cons, Path.descend_cons] at run
        exact confined.made site (placeAtomically_error confined.sound run)

theorem copyEntries_ends (site : Site start p above fresh) (copyable : Copyable start all)
    {rest : List Entry} (known : ∀ entry ∈ rest, entry ∈ all)
    (confined : Confined start (fresh :: above) now)
    (ends : Action.Ends (copyEntries (p.child fresh) rest) now after) :
    Confined start (fresh :: above) after := by
  induction rest generalizing now with
  | nil =>
      obtain rfl := Action.ends_pure ends
      exact confined
  | cons entry rest ih =>
      simp only [List.forall_mem_cons] at known
      rw [copyEntries_cons] at ends
      rcases Action.ends_bind ends with first | ⟨_, mid, first, others⟩
      · exact copyEntry_ends site copyable confined known.1 first
      · exact ih known.2 (copyEntry_ends site copyable confined known.1 (Or.inl ⟨_, first⟩)) others

end Loop

/-- When all entries are copied, the directory holds their members. -/
theorem CopyState.hold (state : CopyState start base all all now) {members : List Member}
    (entryOf : ∀ member ∈ members, ∃ entry ∈ all, entry.name = member.name)
    (memberOf : ∀ entry ∈ all, ∃ member ∈ members, entry.name = member.name
      ∧ ∀ object, entry.CopiedAs start object → member.Matches object)
    (consistent : Member.Consistent members) : Member.Hold members now base where
  known := by
    intro names object some stands
    obtain ⟨entry, inside, isAt, copied⟩ := state.known names object some stands
    obtain ⟨member, known, named, matches'⟩ := memberOf entry inside
    exact ⟨member, known, by rw [Member.IsAt, ← named]; exact isAt, matches' object copied⟩
  all := by
    intro member known
    obtain ⟨entry, inside, named⟩ := entryOf member known
    obtain ⟨names, some, isAt, stands⟩ := state.there entry inside
    obtain ⟨object, found⟩ := Option.ne_none_iff_exists'.mp stands
    refine ⟨names, object, some, by rw [Member.IsAt, ← named]; exact isAt, found, ?_⟩
    -- What stands there is a copy of some entry of this name, and so of this member.
    obtain ⟨other, inside', isAt', copied⟩ := state.known names object some found
    obtain ⟨twin, known', named', matches'⟩ := memberOf other inside'
    have same : member.name = twin.name := by
      rw [← named, ← named']
      exact Utf8.encode_inj (isAt.trans isAt'.symm)
    rw [consistent member known twin known' same]
    exact matches' object copied

end Packaging
end StackSynth
