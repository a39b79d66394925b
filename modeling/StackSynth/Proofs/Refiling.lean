import StackSynth.Proofs.Footing
import StackSynth.Proofs.Writing

/-!
# Refiling — writing a document that is there already

A document takes its place by way of a temporary name, which depends on nothing but the other
temporary names in its directory.  So a document that was written can be written again, and then
all is as it was.

* `FileSystem.Filed` — a document that stands where it belongs;
* `App.writeDocument_filed` — what writing one leaves;
* `App.writeDocument_again` — writing it once more.
-/

namespace StackSynth

namespace FileSystem

variable {fs mid after : FileSystem} {p : Path} {root : Location} {names : List Name} {name : Name}
  {bytes : Bytes}

/-- A document stands below the root, and there is room for a temporary name next to it. -/
structure Filed (fs : FileSystem) (p : Path) (root : Location) (names : List Name) (name : Name)
    (bytes : Bytes) : Prop where
  found : fs.stat (p.descend (names ++ [name]))
    = .ok (name :: (names.reverse ++ root), .file bytes 0o600)
  room : ∃ q, directoryOf ((p.descend names).child name) = .ok q
    ∧ (q.child (freshName (fs.children (names.reverse ++ root)))).bytes.length < pathLimit

theorem Filed.agrees (filed : Filed fs p root names name bytes) (agrees : Agrees fs after) :
    Filed after p root names name bytes := by
  refine ⟨stat_extends agrees.extends filed.found, ?_⟩
  obtain ⟨q, directory, short⟩ := filed.room
  refine ⟨q, directory, ?_⟩
  rwa [freshName_children fun n => agrees.objects _]

/-- It stays like this whatever is done in other directories. -/
theorem Filed.aside {place : Location} (filed : Filed fs p root names name bytes)
    (footing : Footing fs p root) (aside : Aside p root place fs after)
    (notAbove : ¬ place <:+ names.reverse ++ root) (notBelow : ¬ names.reverse ++ root <:+ place) :
    Filed after p root names name bytes := by
  have beside : ∀ other : Name, ¬ place <:+ other :: (names.reverse ++ root) := fun other =>
    not_suffix_of_beside notAbove notBelow (List.suffix_cons other _)
  refine ⟨aside.stat footing (beside name) filed.found, ?_⟩
  obtain ⟨q, directory, short⟩ := filed.room
  refine ⟨q, directory, ?_⟩
  rwa [freshName_children fun n => aside.same ?_ (beside _) fun above => ?_]
  · exact (Location.below_cons _ _).trans_suffix (List.suffix_append names.reverse root)
  · exact notBelow ((List.suffix_cons _ _).trans above)

/-- Where the directory of a document is made, if it is not there, nothing else is touched. -/
theorem aside_of_created (footing : Footing fs p root) {q : Path}
    (like : LeadsLike q (p.descend names)) (created : createAll q fs = .ok () mid) :
    Aside p root (name :: (names.reverse ++ root)) fs mid := by
  have spares : Spares p (names ++ [name]) fs mid := by
    refine createAll_spares footing.unlinked (fun now l makes => ?_) (Or.inl ⟨_, created⟩)
    refine (like.makes now l makes).of_initial ?_ ?_
    · simp [Path.steps_descend]
    · simp [Path.isAbsolute_descend]
  simpa using footing.aside spares

/-- A document takes no temporary name away, unless its own name is one. -/
theorem freshName_set (lasting : ∀ n, Name.temporary n ≠ name) {l : Location} {object : Object} :
    freshName ((fs.set (name :: l) object).children l) = freshName (fs.children l) := by
  refine freshName_children fun n => ?_
  rw [get?_set _ _ _ _ (List.cons_ne_nil _ _), if_neg]
  intro same
  exact lasting n (List.cons.inj same).1

/-- What is left of a document that was written. -/
theorem filed_of_place (footing : Footing fs p root) (lasting : ∀ n, Name.temporary n ≠ name)
    (run : placeAtomically ((p.descend names).child name) (fun _ => .ok (bytes, 0o600)) fs
      = .ok () after) :
    Filed after p root names name bytes
      ∧ Aside p root (name :: (names.reverse ++ root)) fs after := by
  obtain ⟨q, directory, like, -⟩ := directoryOf_child (p.descend names) name
  rw [placeAtomically_eq directory] at run
  obtain ⟨_, mid, created, placed⟩ := Action.bind_ok_iff.mp run
  have making : Aside p root (name :: (names.reverse ++ root)) fs mid :=
    aside_of_created footing like created
  obtain ⟨t, path, s, bytes', mode, made, isSlot, content, -, rfl⟩ := placeFile_done placed
  obtain ⟨rfl, rfl⟩ := Prod.mk.inj (Except.ok.inj content)
  obtain ⟨rfl, left, entered⟩ := isSlot.of_child
  -- The directory is the one below the root, name by name.
  obtain ⟨⟨links, base⟩, first⟩ := reach_of_descend entered
  obtain rfl := making.footing.rooted.eq_of_reach first
  have down := entered
  rw [reach_descend, first] at down
  obtain ⟨⟨-, here⟩, fits, directories⟩ := (enter_down_iff making.footing.linkless).mp down
  have place : s.location = s.name :: (names.reverse ++ base) := by rw [Slot.location, here]
  rw [place]
  have inside := List.cons_ne_nil s.name (names.reverse ++ base)
  have below : Location.Below base (s.name :: (names.reverse ++ base)) :=
    (Location.below_cons _ _).trans_suffix (List.suffix_append names.reverse base)
  have putting := making.footing.aside_set below bytes 0o600
  have ends := making.trans putting
  refine ⟨⟨ends.footing.stat_descend.mpr
    ⟨⟨?_, ?_, links, putting.entered first⟩, ?_, rfl, ?_⟩, q, directory, ?_⟩, ends⟩
  · rw [← Path.child_descend]
    exact isSlot.spelled
  · exact List.forall_mem_append.mpr ⟨fits, by simpa using isSlot.short⟩
  · -- The directories above the file are shorter than its own place.
    intro up rest parts some
    refine putting.still (fun within => ?_) (directories up rest parts some)
    have length := within.length_le
    simp only [parts, List.length_cons, List.length_append, List.length_reverse] at length
    omega
  · rw [get?_set _ _ _ _ inside, if_pos rfl]
  · obtain ⟨l, there, -, rfl, room⟩ := temporary_ok_iff.mp made
    obtain ⟨-, left', again⟩ := stat_eq_directory_iff.mp there
    rw [like.reach, entered] at again
    obtain ⟨-, rfl⟩ := Prod.mk.inj (Except.ok.inj again)
    rw [here, freshName_set lasting]
    exact room

/-- A document that is there is put in its place again. -/
theorem Filed.again (filed : Filed fs p root names name bytes) (footing : Footing fs p root) :
    ∃ after, placeAtomically ((p.descend names).child name) (fun _ => .ok (bytes, 0o600)) fs
      = .ok () after ∧ Agrees fs after := by
  obtain ⟨⟨spelled, fit, left, entered⟩, directories, -, stands⟩ :=
    footing.stat_descend.mp filed.found
  obtain ⟨q, directory, room⟩ := filed.room
  obtain ⟨q', known, like, spelledLike⟩ := directoryOf_child (p.descend names) name
  obtain rfl : q = q' := Except.ok.inj (directory.symm.trans known)
  rw [← Path.child_descend] at spelled
  have above : fs.reach false (p.descend names) = .ok (left, names.reverse ++ root) := by
    rw [reach_descend, entered]
    exact (enter_down_iff footing.linkless).mpr
      ⟨⟨rfl, rfl⟩, fun other member => fit other (List.mem_append_left _ member), directories⟩
  have there : fs.stat q = .ok (names.reverse ++ root, .directory) :=
    stat_eq_directory_iff.mpr ⟨⟨spelledLike spelled, like.filled⟩, left, by rw [like.reach, above]⟩
  have isSlot := isSlot_child spelled (fit name (by simp)) above
  rw [placeAtomically_eq directory]
  refine ⟨_, Action.bind_ok_iff.mpr ⟨(), fs, createAll_there there,
    placeFile_eq (temporary_ok_iff.mpr ⟨_, there, rfl, rfl, room⟩) isSlot rfl ?_
      (Path.child_wantsDirectory _ name)⟩, rfl, fun l => ?_⟩
  -- A file is replaced, by itself.
  · rw [Slot.location, stands]
    simp
  · rw [get?_set _ _ _ _ (Slot.location_ne_nil _)]
    split
    · rename_i same
      rw [same, Slot.location, stands]
    · rfl

end FileSystem

open FileSystem

namespace App

variable {outdir : Path} {root : Location} {fs after : FileSystem} {names : List Name}
  {name : Name} {document : Json}

/-- A document is filed, unless its name is a temporary one. -/
theorem writeDocument_filed (footing : Footing fs outdir root) (lasting : ∀ n, Name.temporary n ≠ name)
    (run : writeDocument ((outdir.descend names).child name) document fs = .ok () after) :
    Filed after outdir root names name (documentFile document)
      ∧ Aside outdir root (name :: (names.reverse ++ root)) fs after := by
  have written := Action.mapError_ok_iff.mp run
  rw [writeAtomically_eq] at written
  exact filed_of_place footing lasting written

/-- What is filed can be written once more. -/
theorem writeDocument_again (footing : Footing fs outdir root)
    (filed : Filed fs outdir root names name (documentFile document)) :
    ∃ after, writeDocument ((outdir.descend names).child name) document fs = .ok () after
      ∧ Agrees fs after := by
  obtain ⟨after, placed, agrees⟩ := filed.again footing
  rw [← writeAtomically_eq] at placed
  exact ⟨after, Action.mapError_ok_iff.mpr placed, agrees⟩

end App
end StackSynth
