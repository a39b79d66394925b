import StackSynth.Proofs.Looking
import StackSynth.Proofs.Relisting
import StackSynth.Proofs.Sparing
import StackSynth.Proofs.Staging

/-!
# Sources — what a hash depends on

To find the entries of a source and its hash, nothing is looked at but the places that look-ups of
paths at and below the source pass, and nothing is listed but the directories that they lead to.
As long as these are the same, so are the entries and the hash, down to the order in which
directories list their names.

* `SameSource` — the same to all look-ups at and below a path;
* `SameSource.walk`, `SameSource.examine`, `SameSource.hash` — the entries and the hash are the same;
* `Secluded` — a source that is kept away from where another path leads, and
  `Secluded.same` — whatever spares all else spares such a source.
-/

namespace StackSynth

open FileSystem

/-- All look-ups at and below the source see the same, and directories there list the same. -/
structure SameSource (source : Path) (fs after : FileSystem) : Prop where
  current : after.current = fs.current
  places : ∀ names l, LooksAt fs (source.descend names) l → after.get? l = fs.get? l
  listed : ∀ names d, fs.stat (source.descend names) = .ok (d, .directory) →
    after.children d = fs.children d

namespace SameSource

variable {source : Path} {fs after : FileSystem} {names above : List Name}

section

variable (same : SameSource source fs after)

include same

theorem stat (names : List Name) :
    after.stat (source.descend names) = fs.stat (source.descend names) :=
  stat_looks same.current (same.places names)

theorem read (names : List Name) :
    after.read (source.descend names) = fs.read (source.descend names) :=
  read_looks same.current (same.places names)

theorem rules : IgnoreRules.load after source = IgnoreRules.load fs source := by
  have path : source.childText IgnoreRules.fileName = source.descend [Listing.ignoreName] :=
    Path.childText_eq_child (Name.ofBytes?_bytes Listing.ignoreName) source
  simp only [IgnoreRules.load, readText, path, same.stat, same.read]

/-! ## Listings -/

open Listing

theorem leadsToDirectory {here : Level} (stands : Stands fs source here above) (name : Name)
    (inside : List Level) :
    Listing.leadsToDirectory after inside (name :: here.location) (here.path.child name)
      = Listing.leadsToDirectory fs inside (name :: here.location) (here.path.child name) := by
  obtain ⟨left, entered⟩ := stands.entered
  have path : here.path.child name = source.descend (above ++ [name]) := by
    rw [stands.path, Path.child_descend]
  have looks : LooksAt fs (source.descend (above ++ [name])) (name :: here.location) :=
    path ▸ looksAt_child entered
  simp only [Listing.leadsToDirectory, same.places _ _ looks, path, same.stat]

/-- A walk goes on below each directory as it does in the other file system. -/
theorem walk {rules : IgnoreRules} {here : Level} {outside : List Level}
    (stands : Stands fs source here above) :
    Listing.walk after rules here outside above names = Listing.walk fs rules here outside above names := by
  -- Along the walk in `fs`; below a directory, the other walk goes on with the same names.
  induction here, outside, above, names using Listing.walk.induct fs with
  | case1 here outside above => simp only [Listing.walk]
  | case2 here outside above name rest path inside ihRest ihInner =>
      have below : here.path.child name = source.descend (above ++ [name]) := by
        rw [stands.path, Path.child_descend]
      have told := same.leadsToDirectory stands name (here :: outside)
      have found' : after.stat (here.path.child name) = fs.stat (here.path.child name) := by
        rw [below, same.stat]
      simp only [walk_cons, told, ihRest stands, found']
      cases found : fs.stat (here.path.child name) with
      | error fault => rfl
      | ok place =>
          obtain ⟨l, object⟩ := place
          cases object with
          | file content mode => rfl
          | pipe => rfl
          | link target => rfl
          | directory =>
              obtain ⟨-, left, entered⟩ := stat_eq_directory_iff.mp found
              have inner : Listing.walk after rules ⟨l, here.path.child name⟩ (here :: outside)
                  (above ++ [name]) (fs.children l)
                  = Listing.walk fs rules ⟨l, here.path.child name⟩ (here :: outside)
                    (above ++ [name]) (fs.children l) := ihInner l found ⟨below, left, entered⟩
              simp only [same.listed _ l (below ▸ found), inner]

theorem collect : Listing.collect after source = Listing.collect fs source := by
  have found := same.stat []
  rw [Path.descend_nil] at found
  simp only [Listing.collect, same.rules, found]
  cases stands : fs.stat source with
  | error fault => rfl
  | ok place =>
      obtain ⟨l, object⟩ := place
      cases object with
      | file content mode => rfl
      | pipe => rfl
      | link target => rfl
      | directory =>
          obtain ⟨-, left, entered⟩ := stat_eq_directory_iff.mp stands
          have inner : ∀ rules, Listing.walk after rules ⟨l, source⟩ [] [] (fs.children l)
              = Listing.walk fs rules ⟨l, source⟩ [] [] (fs.children l) :=
            fun rules => same.walk ⟨rfl, left, entered⟩
          simp only [same.listed [] l stands, inner]

/-- Entries are read as before. -/
theorem members {entries : List Entry} (below : ∀ entry ∈ entries, IsBelow source entry) :
    entries.mapM (Entry.unchanged after) = entries.mapM (Entry.unchanged fs) := by
  induction entries with
  | nil => rfl
  | cons entry rest ih =>
      simp only [List.forall_mem_cons] at below
      obtain ⟨names, -, -, path⟩ := below.1
      have first : entry.unchanged after = entry.unchanged fs := by
        simp only [Entry.unchanged, path, same.read]
      rw [List.mapM_cons, List.mapM_cons, first, ih below.2]

theorem examine (type : AssetType) :
    Packaging.examine after source type = Packaging.examine fs source type := by
  have found := same.stat []
  have read := same.read []
  rw [Path.descend_nil] at found read
  have checked : Packaging.checkSource after source type = Packaging.checkSource fs source type := by
    simp only [Packaging.checkSource, found]
  have listed : (do
      let entries ← Listing.collect after source
      return (entries, ← Listing.digest after entries) : Except Failure (List Entry × ContentHash))
      = do
        let entries ← Listing.collect fs source
        return (entries, ← Listing.digest fs entries) := by
    rw [same.collect]
    cases known : Listing.collect fs source with
    | error failure => rfl
    | ok entries =>
        simp only [bind, Except.bind, Listing.digest, same.members (collect_below known)]
  cases type with
  | file => simp only [Packaging.examine, checked, digestFile, read]
  | directory | archive => simp only [Packaging.examine, checked, listed]

theorem hash (type : AssetType) : Packaging.hash after source type = Packaging.hash fs source type :=
  calc Packaging.hash after source type
    _ = (Packaging.examine after source type).map Prod.snd := Packaging.hash_eq after source type
    _ = (Packaging.examine fs source type).map Prod.snd := by rw [same.examine type]
    _ = Packaging.hash fs source type := (Packaging.hash_eq fs source type).symm

end

end SameSource

/-! ## Sources that are kept away -/

/-- No look-up at or below the source gets to where the path leads, or to where it makes something. -/
def Secluded (fs : FileSystem) (p source : Path) : Prop :=
  ∀ names l, LooksAt fs (source.descend names) l →
    ¬ Inside fs p [] l ∧ ¬ (fs.get? l = none ∧ Makes fs p l)

theorem Secluded.same {fs after : FileSystem} {p source : Path} (secluded : Secluded fs p source)
    (spares : Spares p [] fs after) : SameSource source fs after := by
  have places : ∀ names l, LooksAt fs (source.descend names) l → after.get? l = fs.get? l := by
    intro names l looks
    obtain ⟨outside, notMade⟩ := secluded names l looks
    rcases spares.kept l outside with same | ⟨nothing, -, toward⟩
    · exact same
    · exact absurd ⟨nothing, toward_nil.mp toward⟩ notMade
  refine ⟨spares.current, places, fun names d found => ?_⟩
  obtain ⟨-, left, entered⟩ := stat_eq_directory_iff.mp found
  -- Each name in a directory of the source is looked up, and so nothing new is there.
  have looks : ∀ name, LooksAt fs (source.descend (names ++ [name])) (name :: d) := by
    intro name
    rw [← Path.child_descend]
    exact looksAt_child entered
  refine spares.listed d (fun name => (secluded _ _ (looks name)).1) fun name nothing => ?_
  rw [places _ _ (looks name), nothing]

end StackSynth
