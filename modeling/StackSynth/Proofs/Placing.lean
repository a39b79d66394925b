import StackSynth.Proofs.CreateAll

/-!
# Placing — files that are complete before they get their names

A file is written under a temporary name and then renamed.  What is left of that is one file in
its place, or nothing at all: every other place is as it was.

* `FileSystem.Placed` — one file in its place;
* `FileSystem.placeFile_done`, `placeFile_eq`, `placeFile_error` — what a run changes, and when it
  succeeds;
* `FileSystem.placeAtomically_ok`, `placeAtomically_error` — the same with the directories above;
* `FileSystem.withTemporaryDirectory_ok`.
-/

namespace StackSynth
namespace FileSystem

variable {fs mid after : FileSystem}

/-- A file was put where no directory stood, and nothing else changed. -/
structure Placed (target : Location) (content : Bytes) (mode : Nat) (fs after : FileSystem) :
    Prop where
  sound : Sound after
  current : after.current = fs.current
  inside : target ≠ []
  other : fs.get? target ≠ some .directory
  objects : ∀ l, after.get? l = if l = target then some (.file content mode) else fs.get? l

/-- The slot of a child is in the directory that the path enters. -/
theorem IsSlot.of_child {p : Path} {name : Name} {s : Slot} (isSlot : IsSlot fs (p.child name) s) :
    s.name = name ∧ ∃ left, fs.reach false p = .ok (left, s.directory) := by
  obtain ⟨front, left, steps, entered⟩ := isSlot.entered
  rw [Path.steps_child] at steps
  obtain ⟨same, last⟩ := List.append_inj' steps rfl
  refine ⟨(Path.Step.down.inj (List.cons.inj last).1).symm, left, ?_⟩
  rw [FileSystem.reach, same]
  simpa [origin, Path.child_isAbsolute] using entered

theorem isSlot_child {p : Path} {name : Name} {left : Nat} {l : Location}
    (spelled : WellSpelled (p.child name)) (short : name.bytes.length ≤ nameLimit)
    (entered : fs.reach false p = .ok (left, l)) : IsSlot fs (p.child name) ⟨l, name⟩ where
  spelled := spelled
  filled := p.child_not_empty name
  short := short
  entered := by
    refine ⟨p.steps, left, p.steps_child name, ?_⟩
    rw [origin, Path.child_isAbsolute]
    exact entered

/-! ## One file -/

variable {t : Location}

/-- Where a temporary object goes: into a directory, where nothing stands. -/
structure Free (fs : FileSystem) (t : Location) : Prop where
  inside : t ≠ []
  nothing : fs.get? t = none
  parent : fs.get? t.tail = some .directory

theorem Free.none (free : Free fs t) (sound : Sound fs) {m : Location} (within : t <:+ m) :
    fs.get? m = none :=
  sound.toWellFormed.none_within free.nothing within

theorem temporary_free (sound : Sound fs) {p path : Path} {t : Location}
    (made : fs.temporary p = .ok (t, path)) : Free fs t := by
  obtain ⟨l, name, found, rfl, -, nothing, -⟩ := temporary_ok made
  obtain ⟨-, left, reached⟩ := stat_eq_directory_iff.mp found
  exact ⟨by simp, nothing, sound.reach_directory reached⟩

/-- The body of `placeFile`, with the temporary file at `t`. -/
theorem placeFile_body_ok {p : Path} {content : FileSystem → Except Fault (Bytes × Nat)}
    {t : Location} {value : Unit}
    (run : (do
      let (bytes, mode) ← Action.query content
      modify fun fs => fs.set t (.file bytes mode)
      Action.step fun fs => fs.rename t p : Action Fault Unit) fs = .ok value after) :
    ∃ bytes mode, content fs = .ok (bytes, mode)
      ∧ (fs.set t (.file bytes mode)).rename t p = .ok after := by
  obtain ⟨⟨bytes, mode⟩, mid, asked, rest⟩ := Action.bind_ok_iff.mp run
  obtain ⟨found, rfl⟩ := Action.query_ok_iff.mp asked
  obtain ⟨_, written, set', renamed⟩ := Action.bind_ok_iff.mp rest
  obtain rfl := Action.modify_ok_iff.mp set'
  exact ⟨bytes, mode, found, Action.step_ok_iff.mp renamed⟩

theorem placeFile_body_error {p : Path} {content : FileSystem → Except Fault (Bytes × Nat)}
    {t : Location} {fault : Fault}
    (run : (do
      let (bytes, mode) ← Action.query content
      modify fun fs => fs.set t (.file bytes mode)
      Action.step fun fs => fs.rename t p : Action Fault Unit) fs = .error fault after) :
    after = fs ∨ ∃ bytes mode, after = fs.set t (.file bytes mode) := by
  rcases Action.bind_error_iff.mp run with asked | ⟨⟨bytes, mode⟩, mid, asked, rest⟩
  · exact Or.inl (Action.query_error_iff.mp asked).2.symm
  · obtain ⟨-, rfl⟩ := Action.query_ok_iff.mp asked
    rcases Action.bind_error_iff.mp rest with set' | ⟨_, written, set', renamed⟩
    · exact (Action.modify_error_iff.mp set').elim
    · obtain rfl := Action.modify_ok_iff.mp set'
      exact Or.inr ⟨bytes, mode, (Action.step_error_iff.mp renamed).2.symm⟩

/-- Of a file that was placed, no temporary one is left. -/
theorem placeFile_done {parent p : Path} {content : FileSystem → Except Fault (Bytes × Nat)}
    (run : placeFile parent p content fs = .ok () after) :
    ∃ t path s bytes mode, fs.temporary parent = .ok (t, path) ∧ IsSlot fs p s
      ∧ content (fs.set t (.file [] 0o600)) = .ok (bytes, mode)
      ∧ fs.get? s.location ≠ some .directory
      ∧ after = fs.set s.location (.file bytes mode) := by
  obtain ⟨⟨t, path⟩, same, asked, rest⟩ := Action.bind_ok_iff.mp run
  obtain ⟨made, rfl⟩ := Action.query_ok_iff.mp asked
  obtain ⟨l, name, -, rfl, -, nothing, -⟩ := temporary_ok made
  have inside := List.cons_ne_nil name l
  obtain ⟨_, mid, set', body⟩ := Action.bind_ok_iff.mp rest
  obtain rfl := Action.modify_ok_iff.mp set'
  obtain ⟨bytes, mode, found, renamed⟩ := placeFile_body_ok (Action.onFailure_ok_iff.mp body)
  rw [set_set] at renamed
  have complete : FileAt (name :: l) fs (fs.set (name :: l) (.file bytes mode)) :=
    fileAt_set inside bytes mode
  obtain ⟨s, isSlot, other, rfl⟩ := rename_file_ok (by rw [get?_set _ _ _ _ inside, if_pos rfl]) renamed
  refine ⟨_, path, s, bytes, mode, made, isSlot.passes complete.passes, found, ?_, ?_⟩
  · by_cases same : s.location = name :: l
    · rw [same, nothing]
      simp
    · rwa [← complete.others _ same]
  · rw [erase_set inside nothing]

theorem placeFile_error {parent p : Path} {content : FileSystem → Except Fault (Bytes × Nat)}
    {fault : Fault} (run : placeFile parent p content fs = .error fault after) : after = fs := by
  rcases Action.bind_error_iff.mp run with asked | ⟨⟨t, path⟩, same, asked, rest⟩
  · exact (Action.query_error_iff.mp asked).2.symm
  obtain ⟨made, rfl⟩ := Action.query_ok_iff.mp asked
  obtain ⟨l, name, -, rfl, -, nothing, -⟩ := temporary_ok made
  have inside := List.cons_ne_nil name l
  rcases Action.bind_error_iff.mp rest with set' | ⟨_, mid, set', body⟩
  · exact (Action.modify_error_iff.mp set').elim
  obtain rfl := Action.modify_ok_iff.mp set'
  obtain ⟨failed, failing, rfl⟩ := Action.onFailure_error_iff.mp body
  rcases placeFile_body_error failing with rfl | ⟨bytes, mode, rfl⟩
  · exact erase_set inside nothing _
  · rw [set_set]
    exact erase_set inside nothing _

/-- However it ends, there is one more file or nothing has changed. -/
theorem placeFile_ends {parent p : Path} {content : FileSystem → Except Fault (Bytes × Nat)}
    (ends : Action.Ends (placeFile parent p content) fs after) :
    after = fs ∨ ∃ s bytes mode, IsSlot fs p s ∧ after = fs.set s.location (.file bytes mode) := by
  rcases ends with ⟨_, run⟩ | ⟨fault, run⟩
  · obtain ⟨t, path, s, bytes, mode, -, isSlot, -, -, rfl⟩ := placeFile_done run
    exact Or.inr ⟨s, bytes, mode, isSlot, rfl⟩
  · exact Or.inl (placeFile_error run)

theorem placeFile_ok (sound : Sound fs) {parent p : Path}
    {content : FileSystem → Except Fault (Bytes × Nat)}
    (run : placeFile parent p content fs = .ok () after) :
    ∃ t s bytes mode, Free fs t ∧ content (fs.set t (.file [] 0o600)) = .ok (bytes, mode)
      ∧ IsSlot fs p s ∧ Placed s.location bytes mode fs after := by
  obtain ⟨t, path, s, bytes, mode, made, isSlot, found, other, rfl⟩ := placeFile_done run
  refine ⟨t, s, bytes, mode, temporary_free sound made, found, isSlot, ?_, rfl, s.location_ne_nil,
    other, fun l => get?_set _ _ _ _ s.location_ne_nil⟩
  exact sound.set_file s.location_ne_nil (isSlot.directory sound) other

/-- When a file is placed, and where. -/
theorem placeFile_eq {parent p path : Path} {content : FileSystem → Except Fault (Bytes × Nat)}
    {t : Location} {s : Slot} {bytes : Bytes} {mode : Nat}
    (made : fs.temporary parent = .ok (t, path)) (isSlot : IsSlot fs p s)
    (found : content (fs.set t (.file [] 0o600)) = .ok (bytes, mode))
    (other : fs.get? s.location ≠ some .directory) (bare : p.wantsDirectory = false) :
    placeFile parent p content fs = .ok () (fs.set s.location (.file bytes mode)) := by
  obtain ⟨l, name, -, rfl, -, nothing, -⟩ := temporary_ok made
  have inside := List.cons_ne_nil name l
  have complete : FileAt (name :: l) fs (fs.set (name :: l) (.file bytes mode)) :=
    fileAt_set inside bytes mode
  have free : (fs.set (name :: l) (.file bytes mode)).get? s.location ≠ some .directory := by
    rw [get?_set _ _ _ _ inside]
    split
    · simp
    · exact other
  have renamed := rename_file (by rw [get?_set _ _ _ _ inside, if_pos rfl])
    (isSlot.extends (extends_set inside nothing)) free bare
  rw [erase_set inside nothing] at renamed
  refine Action.bind_ok_iff.mpr ⟨_, _, Action.query_ok_iff.mpr ⟨made, rfl⟩, ?_⟩
  refine Action.bind_ok_iff.mpr ⟨(), _, Action.modify_ok_iff.mpr rfl, Action.onFailure_ok_iff.mpr ?_⟩
  refine Action.bind_ok_iff.mpr ⟨_, _, Action.query_ok_iff.mpr ⟨found, rfl⟩, ?_⟩
  refine Action.bind_ok_iff.mpr ⟨(), _, Action.modify_ok_iff.mpr rfl, ?_⟩
  rw [set_set]
  exact Action.step_ok_iff.mpr renamed

/-! ## Copies and documents -/

/-- A file that is put into a directory that may have to be made; copying and writing are cases. -/
def placeAtomically (p : Path) (content : FileSystem → Except Fault (Bytes × Nat)) :
    Action Fault Unit := do
  let parent ← Action.query fun _ => directoryOf p
  createAll parent
  placeFile parent p content

variable {p : Path} {name : Name} {content : FileSystem → Except Fault (Bytes × Nat)}

theorem placeAtomically_eq {q : Path} (directory : directoryOf p = .ok q) :
    placeAtomically p content = createAll q >>= fun _ => placeFile q p content := by
  funext fs
  unfold placeAtomically
  rw [directory]
  rfl

theorem placeAtomically_ok (sound : Sound fs)
    (run : placeAtomically (p.child name) content fs = .ok () after) :
    ∃ mid left l bytes mode, Made p fs mid ∧ mid.reach false p = .ok (left, l)
      ∧ WellSpelled (p.child name) ∧ name.bytes.length ≤ nameLimit
      ∧ (∃ more, Extends mid more ∧ content more = .ok (bytes, mode))
      ∧ Placed (name :: l) bytes mode mid after := by
  obtain ⟨q, directory, like, -⟩ := directoryOf_child p name
  rw [placeAtomically_eq directory] at run
  obtain ⟨_, mid, created, placed⟩ := Action.bind_ok_iff.mp run
  have made := createAll_made sound (Or.inl ⟨_, created⟩)
  obtain ⟨t, s, bytes, mode, free, found, isSlot, put⟩ := placeFile_ok made.sound placed
  obtain ⟨rfl, left, reached⟩ := isSlot.of_child
  exact ⟨mid, left, s.directory, bytes, mode, made.mono (like.makes fs), reached, isSlot.spelled,
    isSlot.short, ⟨_, extends_set free.inside free.nothing, found⟩, put⟩

theorem placeAtomically_error (sound : Sound fs) {fault : Fault}
    (run : placeAtomically (p.child name) content fs = .error fault after) :
    Made p fs after := by
  obtain ⟨q, directory, like, -⟩ := directoryOf_child p name
  rw [placeAtomically_eq directory] at run
  rcases Action.bind_error_iff.mp run with created | ⟨_, mid, created, placed⟩
  · exact (createAll_made sound (Or.inr ⟨_, created⟩)).mono (like.makes fs)
  · obtain rfl := placeFile_error placed
    exact (createAll_made sound (Or.inl ⟨_, created⟩)).mono (like.makes fs)

theorem copyAtomically_eq (source p : Path) :
    copyAtomically source p = placeAtomically p fun fs => fs.readFile source := rfl

theorem writeAtomically_eq (p : Path) (bytes : Bytes) :
    writeAtomically p bytes = placeAtomically p fun _ => .ok (bytes, 0o600) := rfl

/-! ## Temporary directories -/

theorem withTemporaryDirectory_ok {p : Path} {body : Location → Path → Action Fault Unit}
    (run : withTemporaryDirectory p body fs = .ok () after) :
    ∃ t path, fs.temporary p = .ok (t, path) ∧ body t path (fs.set t .directory) = .ok () after := by
  obtain ⟨⟨t, path⟩, same, asked, rest⟩ := Action.bind_ok_iff.mp run
  obtain ⟨made, rfl⟩ := Action.query_ok_iff.mp asked
  obtain ⟨_, mid, set', done⟩ := Action.bind_ok_iff.mp rest
  obtain rfl := Action.modify_ok_iff.mp set'
  exact ⟨t, path, made, Action.onFailure_ok_iff.mp done⟩

theorem withTemporaryDirectory_error {p : Path} {body : Location → Path → Action Fault Unit}
    {fault : Fault} (run : withTemporaryDirectory p body fs = .error fault after) :
    after = fs ∨ ∃ t path mid, fs.temporary p = .ok (t, path)
      ∧ body t path (fs.set t .directory) = .error fault mid ∧ after = mid.eraseTree t := by
  rcases Action.bind_error_iff.mp run with asked | ⟨⟨t, path⟩, same, asked, rest⟩
  · exact Or.inl (Action.query_error_iff.mp asked).2.symm
  · obtain ⟨made, rfl⟩ := Action.query_ok_iff.mp asked
    rcases Action.bind_error_iff.mp rest with set' | ⟨_, mid, set', done⟩
    · exact (Action.modify_error_iff.mp set').elim
    · obtain rfl := Action.modify_ok_iff.mp set'
      obtain ⟨failed, failing, rfl⟩ := Action.onFailure_error_iff.mp done
      exact Or.inr ⟨t, path, failed, made, failing, rfl⟩

end FileSystem
end StackSynth
