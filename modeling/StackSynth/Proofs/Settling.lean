import StackSynth.Proofs.Footing
import StackSynth.Proofs.Hashing
import StackSynth.Proofs.Pruning
import StackSynth.Proofs.Sources
import StackSynth.Proofs.Untouched

/-!
# Settling — packaging what is packaged already

Packaging leaves its artifact in place, and pruning leaves no other version next to it.  As long as
this stays so, the same source is packaged and pruned again without a change of anything.

* `Packaging.package_there` — what packaging leaves;
* `Packaging.Settled` — an artifact that is there, without other versions;
* `Packaging.settled_of_package` — what is packaged and pruned is settled;
* `Packaging.Settled.prune` — nothing is left to prune.
-/

namespace StackSynth

namespace Packaging

open FileSystem

variable {fs mid after : FileSystem} {p source : Path} {root : Location} {names : List Name}
  {short name : Name} {type : AssetType} {entries : List Entry} {keep : String}

/-! ## Staging -/

/-- Whatever is staged gets its slot at last, and something stands there. -/
theorem stage_slot (footing : Footing fs p root) (named : type ≠ .file → ∀ entry ∈ entries, entry.Named)
    (run : stage source type entries (p.descend names) ((p.descend names).child name) fs
      = .ok () after) :
    ∃ now s, Footing now p root ∧ IsSlot now ((p.descend names).child name) s
      ∧ after.get? s.location ≠ none := by
  have put : ∀ {now : FileSystem} {s : Slot} {content : Bytes} {mode : Nat},
      (now.set s.location (.file content mode)).get? s.location ≠ none := by
    intro now s content mode
    rw [get?_set _ _ _ _ s.location_ne_nil, if_pos rfl]
    simp
  cases type with
  | file =>
      rw [stage, copyAtomically_eq] at run
      obtain ⟨q, directory, like, -⟩ := directoryOf_child (p.descend names) name
      rw [placeAtomically_eq directory] at run
      obtain ⟨_, mid, created, placed⟩ := Action.bind_ok_iff.mp run
      obtain ⟨t, path, s, bytes, mode, -, isSlot, -, -, rfl⟩ := placeFile_done placed
      have toMid := createAll_spares footing.unlinked like.makes (Or.inl ⟨_, created⟩)
      exact ⟨mid, s, footing.spares toMid, isSlot, put⟩
  | archive =>
      obtain ⟨t, path, s, bytes, mode, -, isSlot, -, -, rfl⟩ := placeFile_done run
      exact ⟨fs, s, footing, isSlot, put⟩
  | directory =>
      obtain ⟨t, mid, toMid, stands, deep, renamed⟩ :=
        stageDirectory_filled footing.unlinked (named (by simp)) run
      obtain ⟨left, reached⟩ := footing.rooted.reach
      have inside := (deep left root reached).ne_nil
      obtain ⟨s, isSlot, replaced, -⟩ := rename_ok renamed
      refine ⟨mid, s, footing.spares toMid, isSlot, ?_⟩
      -- It was there under that name already, or is moved there, perhaps for an empty directory.
      rcases replaceDirectory_ok (replaced stands) with ⟨rfl, rfl⟩ | ⟨other, base, rfl | rfl, rfl⟩
      · simp [stands]
      · exact there_of_moveTree inside stands
      · have still : (mid.erase s.location).get? t = some .directory := by
          rw [get?_erase _ _ _ s.location_ne_nil, if_neg other, stands]
        exact there_of_moveTree inside still

/-- What was staged in a directory is found there. -/
theorem stage_there (footing : Footing fs p root) (named : type ≠ .file → ∀ entry ∈ entries, entry.Named)
    {l : Location} (found : fs.stat (p.descend (names ++ [short])) = .ok (l, .directory))
    (run : stage source type entries (p.descend (names ++ [short]))
      ((p.descend (names ++ [short])).child name) fs = .ok () after) :
    ∃ place, after.stat (p.descend (names ++ [short] ++ [name])) = .ok place := by
  obtain ⟨⟨-, fit, left, entered⟩, above, rfl, stands⟩ := footing.stat_descend.mp found
  have spares := stage_spares footing.unlinked named (Or.inl ⟨_, run⟩)
  have directories : Directories after root (names ++ [short]) :=
    footing.directories spares (fun below => below.2 rfl) (directories_concat.mpr ⟨above, stands⟩)
  obtain ⟨now, s, begun, isSlot, there⟩ := stage_slot footing named run
  obtain ⟨links, base, reached, same⟩ := isSlot.inside begun.unlinked
  rw [begun.eq_root reached] at same
  obtain ⟨rfl, -⟩ := isSlot.of_child
  obtain ⟨object, stands'⟩ := Option.ne_none_iff_exists'.mp there
  refine ⟨(s.location, object),
    (footing.spares spares).stat_descend.mpr ⟨⟨?_, ?_, left, ?_⟩, directories, same, stands'⟩⟩
  · rw [← Path.child_descend]
    exact isSlot.spelled
  · intro name member
    rcases List.mem_append.mp member with old | new
    · exact fit name old
    · obtain rfl := List.mem_singleton.mp new
      exact isSlot.short
  · exact footing.entered spares entered

/-- What was packaged is there. -/
theorem package_there (footing : Footing fs p root) {payload : Payload} {artifact : Artifact}
    (isOf : payload.IsOf fs source)
    (run : package source payload.type (p.descend names) fs = .ok artifact after) :
    ∃ short name, IsPlace payload source short name
      ∧ artifact.staged = p.descend (names ++ [short] ++ [name])
      ∧ artifact.hash = ContentHash.ofContent payload.octets
      ∧ ∃ place, after.stat artifact.staged = .ok place := by
  obtain ⟨short, name, isPlace, path, hash, way⟩ := package_ok isOf run
  rw [Path.child_descend, Path.child_descend] at path
  refine ⟨short, name, isPlace, path, hash, ?_⟩
  rcases way with ⟨there, rfl⟩ | ⟨-, entries, mid, examined, made, staged⟩
  · exact exists_iff.mp there
  · rw [path, Path.child_descend, ← Path.child_descend p (names ++ [short])] at staged
    rw [Path.child_descend] at made
    have toMid := createAll_spares footing.unlinked (fun _ _ makes => makes) (Or.inl ⟨_, made⟩)
    have filled : (p.descend (names ++ [short])).isEmpty = false := by
      rw [← Path.child_descend]
      exact Path.child_not_empty _ short
    obtain ⟨l, found⟩ := createAll_ok filled made
    rw [path]
    exact stage_there (footing.spares toMid) (named_of_examine examined) found staged

/-! ## Nothing left to do -/

/-- A version of an artifact is there, and no other version next to it. -/
structure Settled (fs : FileSystem) (p : Path) (names : List Name) (short name : Name)
    (keep : String) : Prop where
  there : ∃ place, fs.stat (p.descend (names ++ [short] ++ [name])) = .ok place
  alone : ∀ other, isStale fs (p.descend names) keep other = false

/-- Above what is found there are directories. -/
theorem stat_above {object : Location × Object} (some : names ≠ [])
    (found : fs.stat (p.descend (names ++ [short] ++ [name])) = .ok object) :
    ∃ l, fs.stat (p.descend names) = .ok (l, .directory) := by
  obtain ⟨front, last, rfl⟩ : ∃ front last, names = front ++ [last] :=
    ⟨_, _, (List.dropLast_concat_getLast some).symm⟩
  rw [← Path.child_descend, ← Path.child_descend] at found
  obtain ⟨m, above⟩ := stat_of_stat_child found (Path.child_not_empty _ short)
  exact stat_of_stat_child above (by rw [← Path.child_descend]; exact Path.child_not_empty _ last)

/-- It stays like this whatever is done elsewhere. -/
theorem Settled.aside {place : Location} (settled : Settled fs p names short name keep)
    (footing : Footing fs p root) (aside : Aside p root place fs after)
    (notAbove : ¬ place <:+ names.reverse ++ root) (notBelow : ¬ names.reverse ++ root <:+ place) :
    Settled after p names short name keep := by
  obtain ⟨⟨l, object⟩, found⟩ := settled.there
  obtain ⟨⟨-, -, entered⟩, directories, rfl, -⟩ := footing.stat_descend.mp found
  have beside : ∀ {m}, names.reverse ++ root <:+ m → ¬ place <:+ m :=
    fun within => not_suffix_of_beside notAbove notBelow within
  refine ⟨⟨_, aside.stat footing (beside ?_) found⟩, fun other => ?_⟩
  · rw [List.reverse_append, List.reverse_singleton, List.singleton_append, List.cons_append]
    exact (List.suffix_cons short _).trans (List.suffix_cons name _)
  · rw [Bool.eq_false_iff]
    intro stale
    obtain ⟨version, differs, m, again⟩ := isStale_iff.mp stale
    rw [Path.child_descend] at again
    obtain ⟨-, -, rfl, -⟩ := aside.footing.stat_descend.mp again
    have within := List.suffix_cons other (names.reverse ++ root)
    have before := aside.stat_back footing (beside within) (fun above => notBelow (within.trans above))
      entered (directories_concat.mp directories).1 again
    rw [← Path.child_descend] at before
    exact Bool.eq_false_iff.mp (settled.alone other)
      (isStale_iff.mpr ⟨version, differs, _, before⟩)

/-- What is packaged and pruned is settled. -/
theorem settled_of_package (footing : Footing fs p root) {last : Name} {artifact : Artifact}
    (packaged : package source type (p.descend (names ++ [last])) fs = .ok artifact mid)
    (known : shortOf artifact.hash = .ok keep)
    (pruned : Action.Ends (prune (p.descend (names ++ [last])) keep) mid after) :
    ∃ short name, artifact.staged = p.descend (names ++ [last] ++ [short] ++ [name])
      ∧ Settled after p (names ++ [last]) short name keep := by
  obtain ⟨payload, isOf, rfl⟩ := package_payload packaged
  obtain ⟨short, name, isPlace, path, hash, ⟨l, object⟩, found⟩ := package_there footing isOf packaged
  have toMid := footing.spares (package_spares footing.unlinked (Or.inl ⟨_, packaged⟩))
  have toAfter := prune_spares toMid.unlinked pruned
  rw [path] at found
  -- The directory of all versions is there, and so it is pruned.
  obtain ⟨base, staging⟩ := stat_above (by simp) found
  obtain ⟨gone, later, done, swept⟩ := prune_there staging keep
  obtain rfl : later = after := by
    rcases pruned with ⟨_, run⟩ | ⟨_, run⟩ <;> rw [done] at run <;> cases run
    rfl
  refine ⟨short, name, path, ⟨⟨(l, object), ?_⟩, fun other => Bool.eq_false_iff.mpr fun stale =>
    swept.done other (isStale_iff.mp stale)⟩⟩
  refine toMid.stat_kept (toMid.spares toAfter) (toMid.entered toAfter) (fun within stands => ?_) found
  -- Nothing on the way is in another version.
  obtain ⟨-, -, rfl, -⟩ := toMid.stat_descend.mp found
  obtain ⟨-, -, rfl, -⟩ := toMid.stat_descend.mp staging
  have stays : short ∉ gone := fun member => by
    rw [hash] at known
    obtain rfl := ContentHash.shortOf_ofContent known
    exact (swept.replaced _ member).other isPlace.short
  rw [swept.without.along stays within (by simp [List.suffix_cons])]
  exact stands

/-- Where an artifact is settled, pruning finds nothing to remove. -/
theorem Settled.prune (settled : Settled fs p names short name keep) (some : names ≠ []) :
    Packaging.prune (p.descend names) keep fs = .ok 0 fs := by
  obtain ⟨object, found⟩ := settled.there
  obtain ⟨l, staging⟩ := stat_above some found
  exact prune_none (names_ok_iff.mpr ⟨l, staging, rfl⟩) fun other _ replaced =>
    Bool.eq_false_iff.mp (settled.alone other) (isStale_iff.mpr replaced)

end Packaging
end StackSynth
