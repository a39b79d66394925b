import StackSynth.Proofs.Looking
import StackSynth.Proofs.Placing

/-!
# Replacing — a file is written whole or not at all

A file that is written or copied atomically takes its place at once.  If the call succeeds, the
file stands at the end of the path, and nothing else has changed but that directories on the way
are new; if it fails, that is all that has changed.  There is one thing that the path itself
cannot survive: a symbolic link that it passes on the way and that it also ends at, since that link
is what the file replaces.

* `Path.exists_child` — a path that ends with a name is the child of another one;
* `FileSystem.Looks.passed` — what a walk looks at if it gets through;
* `FileSystem.stat_extends_cases` — what a look-up finds where more stands;
* `FileSystem.Put` — a file that was put in its place, and where the path leads then;
* `FileSystem.all_or_nothing` — every way in which writing and copying end.
-/

namespace StackSynth

/-! ## Paths that end with a name -/

namespace Path

/-- A field that is left of a well-spelled path is a step. -/
theorem exists_step {field : Bytes} (filled : field ≠ []) (plain : ∀ b ∈ field, b ≠ slash ∧ b ≠ 0) :
    ∃ step, step? field = some step := by
  unfold step?
  split
  · exact ⟨_, rfl⟩
  · rename_i notDot
    split
    · exact ⟨_, rfl⟩
    · rename_i notDots
      have valid : isName field = true := by
        simp only [isName, Bool.and_eq_true, Bool.not_eq_true', List.isEmpty_eq_false_iff, bne_iff_ne,
          List.all_eq_true]
        exact ⟨⟨⟨filled, plain⟩, by simpa using notDot⟩, by simpa using notDots⟩
      exact ⟨.down ⟨field, valid⟩, by simp [Name.ofBytes?, valid]⟩

theorem exists_child {p : Path} {front : List Step} {name : Name}
    (steps : p.steps = front ++ [.down name]) (bare : p.wantsDirectory = false) (clean : 0 ∉ p.bytes) :
    ∃ q : Path, p = q.child name := by
  -- The last field is not empty, as no slash ends the path, and so it is the name.
  obtain ⟨fields, field, split⟩ : ∃ fields field, p.bytes.splitOn slash = fields ++ [field] :=
    ⟨_, _, (List.dropLast_concat_getLast (Bytes.splitOn_ne_nil slash p.bytes)).symm⟩
  have joined := Bytes.joinWith_splitOn slash p.bytes
  have member : field ∈ p.bytes.splitOn slash := by simp [split]
  have walked : p.steps = fields.filterMap step? ++ (step? field).toList := by
    rw [Path.steps, split, List.filterMap_append]
    cases known : step? field <;> simp [known]
  rw [split] at joined
  have filled : field ≠ [] := by
    rintro rfl
    cases fields with
    | nil => simp [walked, step?_nil] at steps
    | cons first rest =>
        rw [Bytes.joinWith_append slash (by simp) (by simp)] at joined
        simp [wantsDirectory, ← joined, Bytes.joinWith] at bare
  obtain ⟨step, known⟩ := exists_step filled fun b inside =>
    ⟨fun same => Bytes.sep_not_mem_of_mem_splitOn member (same ▸ inside),
      fun zero => clean (Bytes.mem_of_mem_splitOn member (zero ▸ inside))⟩
  rw [walked, known] at steps
  obtain rfl : step = .down name := by simpa using (List.append_inj' steps rfl).2
  obtain rfl := step?_down known
  cases fields with
  | nil => exact ⟨⟨[]⟩, by cases p; simpa [child, isEmpty, Bytes.joinWith] using joined.symm⟩
  | cons first rest =>
      rw [Bytes.joinWith_append slash (by simp) (by simp)] at joined
      refine ⟨⟨Bytes.joinWith slash (first :: rest) ++ [slash]⟩, ?_⟩
      cases p
      simpa [child, isEmpty, Bytes.joinWith] using joined.symm

end Path

namespace FileSystem

variable {fs mid after : FileSystem} {p q : Path} {name : Name} {l : Location}

/-! ## Look-ups that change -/

/-- A walk that gets through passes directories and links. -/
theorem Looks.passed {links left : Nat} {here there : Location} {steps : List Path.Step}
    (looks : Looks fs links here steps l)
    (through : enter fs false links here steps = .ok (left, there)) :
    fs.get? l = some .directory ∨ ∃ target, fs.get? l = some (.link target) := by
  induction looks with
  | stay _ ih =>
      rw [enter] at through
      exact ih through
  | up _ ih =>
      rw [enter] at through
      exact ih through
  | @here links here name rest =>
      rw [enter] at through
      split at through
      · cases through
      · cases stands : fs.get? (name :: here) with
        | none => simp [stands] at through
        | some object =>
            cases object with
            | directory => exact Or.inl rfl
            | link target => exact Or.inr ⟨target, rfl⟩
            | file content mode | pipe => simp [stands] at through
  | down short found _ ih =>
      rw [enter, if_neg short, found] at through
      exact ih through
  | cross short found _ ih =>
      rw [enter, if_neg short, found] at through
      exact ih through

/-- Where more stands, a look-up finds the same, or it found nothing before. -/
theorem walk_extends_cases (extends' : Extends fs after) (follow : Bool) (links : Nat)
    (here : Location) (steps : List Path.Step) :
    walk after follow links here steps = walk fs follow links here steps
      ∨ walk fs follow links here steps = .error .notFound
      ∨ ∃ l, walk fs follow links here steps = .ok ⟨l, none⟩ := by
  fun_induction walk fs follow links here steps with
  | case1 => simp [walk]
  | case2 links here rest ih => simpa [walk] using ih
  | case3 links here rest ih => simpa [walk] using ih
  | case4 links here name rest long => simp [walk, long]
  | case5 links here name rest long nothing last => exact Or.inr (Or.inr ⟨_, rfl⟩)
  | case6 links here name rest long nothing more => exact Or.inr (Or.inl rfl)
  | case7 links here name rest long stands ih =>
      simpa [walk, long, extends'.objects stands] using ih
  | case8 links here name rest long target stands last =>
      exact Or.inl (by simp [walk, long, extends'.objects stands, last])
  | case9 here name rest long target stands more =>
      exact Or.inl (by simp [walk, long, extends'.objects stands, more])
  | case10 here name rest long target stands more links ih =>
      simpa [walk, long, extends'.objects stands, more] using ih
  | case11 links here name rest long object notDir notLink stands last =>
      have stands' := extends'.objects stands
      left
      cases object with
      | directory => exact (notDir rfl).elim
      | link target => exact (notLink target rfl).elim
      | file content mode | pipe => simp [walk, long, stands', last]
  | case12 links here name rest long object notDir notLink stands more =>
      have stands' := extends'.objects stands
      left
      cases object with
      | directory => exact (notDir rfl).elim
      | link target => exact (notLink target rfl).elim
      | file content mode | pipe => simp [walk, long, stands', more]

theorem stat_extends_cases (extends' : Extends fs after) (p : Path) :
    after.stat p = fs.stat p ∨ fs.stat p = .error .notFound := by
  unfold stat locate
  cases misspelled? p with
  | some fault => exact Or.inl rfl
  | none =>
      rw [extends'.current]
      rcases walk_extends_cases extends' true linkLimit (origin fs.current p) (stepsOf p)
        with same | missing | ⟨l, nothing⟩
      · exact Or.inl (by simp [same])
      · exact Or.inr (by simp [missing, bind, Except.bind])
      · exact Or.inr (by simp [nothing, bind, Except.bind, throw, throwThe, MonadExceptOf.throw])

/-! ## Files in their places -/

/-- A file was put at `name :: l`, where no directory stood.  Everything else is as it was, but
that directories on the way may be new, and the path leads to the file, unless the file has
replaced a link that the path passes before. -/
structure Put (q : Path) (name : Name) (l : Location) (bytes : Bytes) (mode : Nat)
    (fs after : FileSystem) : Prop where
  current : after.current = fs.current
  file : after.get? (name :: l) = some (.file bytes mode)
  other : fs.get? (name :: l) ≠ some .directory
  kept : ∀ m, m ≠ name :: l → after.get? m = fs.get? m
    ∨ fs.get? m = none ∧ after.get? m = some .directory ∧ Makes fs q m
  found : after.stat (q.child name) = .ok (name :: l, .file bytes mode)
    ∨ (∃ target, fs.get? (name :: l) = some (.link target))
      ∧ ∃ mid, Made q fs mid ∧ LooksAt mid q (name :: l)

theorem put_of_placed {bytes : Bytes} {mode left : Nat} (made : Made q fs mid)
    (spelled : WellSpelled (q.child name)) (short : name.bytes.length ≤ nameLimit)
    (entered : mid.reach false q = .ok (left, l)) (placed : Placed (name :: l) bytes mode mid after) :
    Put q name l bytes mode fs after := by
  have file : after.get? (name :: l) = some (.file bytes mode) := by
    rw [placed.objects, if_pos rfl]
  have others : ∀ m, m ≠ name :: l → after.get? m = mid.get? m := fun m differs => by
    rw [placed.objects, if_neg differs]
  refine ⟨placed.current.trans made.grown.current, file, ?_, ?_, ?_⟩
  · exact fun directory => placed.other (made.grown.objects directory)
  · intro m differs
    rw [others m differs]
    rcases made.grown.get? m with same | ⟨nothing, directory⟩
    · exact Or.inl same
    · exact Or.inr ⟨nothing, directory, made.places m nothing directory⟩
  · by_cases looks : LooksAt mid q (name :: l)
    · -- What the path passes there is no directory, and so it is a link.
      have through := (enter_stepsOf false linkLimit (origin mid.current q) q).trans entered
      obtain ⟨target, linked⟩ := (looks.passed through).resolve_left placed.other
      refine Or.inr ⟨⟨target, ?_⟩, mid, made, looks⟩
      rcases made.grown.get? (name :: l) with same | ⟨-, directory⟩
      · exact same.symm.trans linked
      · exact absurd directory placed.other
    · obtain ⟨left', again⟩ := reach_looks placed.current
        (fun m passes => others m fun same => looks (same ▸ passes)) entered
      exact Or.inl ((stat_child_iff spelled again (by simp [file])).mpr ⟨short, rfl, file⟩)

/-- Only a path without a last slash is given to a file. -/
theorem placeFile_bare {parent p : Path} {content : FileSystem → Except Fault (Bytes × Nat)}
    (run : placeFile parent p content fs = .ok () after) : p.wantsDirectory = false := by
  obtain ⟨⟨t, path⟩, same, asked, rest⟩ := Action.bind_ok_iff.mp run
  obtain ⟨made, rfl⟩ := Action.query_ok_iff.mp asked
  obtain ⟨here, fresh, -, rfl, -, -, -⟩ := temporary_ok made
  obtain ⟨_, mid, set', body⟩ := Action.bind_ok_iff.mp rest
  obtain rfl := Action.modify_ok_iff.mp set'
  obtain ⟨bytes, mode, -, renamed⟩ := placeFile_body_ok (Action.onFailure_ok_iff.mp body)
  by_contra wants
  have file := get?_set (fs.set (fresh :: here) (.file [] 0o600)) (fresh :: here) (fresh :: here)
    (.file bytes mode) (List.cons_ne_nil fresh here)
  rw [if_pos rfl] at file
  unfold rename at renamed
  simp only [file, Bool.eq_true_of_not_eq_false wants, bind, Except.bind, throw, throwThe,
    MonadExceptOf.throw, if_true] at renamed
  split at renamed
  · cases renamed
  · split at renamed <;> cases renamed

/-! ## All or nothing -/

/-- The ways in which a call ends that puts a file at the end of a path. -/
inductive Ending (p : Path) (holds : Bytes → Nat → Prop) (fs : FileSystem) :
    EStateM.Result Fault FileSystem Unit → Prop
  | done {q : Path} {name : Name} {l : Location} {bytes : Bytes} {mode : Nat} {after : FileSystem} :
      p = q.child name → holds bytes mode → Put q name l bytes mode fs after →
      Ending p holds fs (.ok () after)
  /-- Whatever stood still stands, and nothing is new but directories on the way. -/
  | refused {fault : Fault} {after : FileSystem} : Grown fs after →
      (∀ m, fs.get? m = none → after.get? m = some .directory →
        ∃ parent, directoryOf p = .ok parent ∧ Makes fs parent m) →
      Ending p holds fs (.error fault after)

/-- What is found once directories and an empty file are there as well. -/
def Gives (content : FileSystem → Except Fault (Bytes × Nat)) (fs : FileSystem) (bytes : Bytes)
    (mode : Nat) : Prop :=
  ∃ mid t, Grown fs mid ∧ mid.get? t = none ∧ content (mid.set t (.file [] 0o600)) = .ok (bytes, mode)

theorem placeAtomically_ending (sound : Sound fs) (p : Path)
    (content : FileSystem → Except Fault (Bytes × Nat)) :
    Ending p (Gives content fs) fs (placeAtomically p content fs) := by
  cases known : directoryOf p with
  | error fault =>
      have run : placeAtomically p content fs = .error fault fs := by
        unfold placeAtomically
        rw [known]
        rfl
      rw [run]
      exact .refused (.refl fs) fun m nothing stands => by rw [nothing] at stands; cases stands
  | ok parent =>
      rw [placeAtomically_eq known]
      cases run : (createAll parent >>= fun _ => placeFile parent p content) fs with
      | ok value after =>
          obtain ⟨_, mid, created, placed⟩ := Action.bind_ok_iff.mp run
          have made := createAll_made sound (Or.inl ⟨_, created⟩)
          have bare := placeFile_bare placed
          obtain ⟨t, s, bytes, mode, free, found, isSlot, put⟩ := placeFile_ok made.sound placed
          -- The path goes down to the file at last, and so it is that of a child.
          obtain ⟨front, -, steps, -⟩ := isSlot.entered
          obtain ⟨q, rfl⟩ := Path.exists_child steps bare isSlot.spelled.1
          obtain ⟨-, left, entered⟩ := isSlot.of_child
          obtain ⟨q', directory, like, -⟩ := directoryOf_child q s.name
          obtain rfl : q' = parent := Except.ok.inj (directory.symm.trans known)
          exact .done rfl ⟨mid, t, made.grown, free.nothing, found⟩
            (put_of_placed (made.mono (like.makes fs)) isSlot.spelled isSlot.short entered put)
      | error fault after =>
          have made : Made parent fs after := by
            rcases Action.bind_error_iff.mp run with created | ⟨_, mid, created, placed⟩
            · exact createAll_made sound (Or.inr ⟨_, created⟩)
            · obtain rfl := placeFile_error placed
              exact createAll_made sound (Or.inl ⟨_, created⟩)
          exact .refused made.grown fun m nothing stands =>
            ⟨parent, known, made.places m nothing stands⟩

/-- What a copy holds: what the source held before, if it led anywhere then. -/
def Copied (source : Path) (fs : FileSystem) (bytes : Bytes) (mode : Nat) : Prop :=
  fs.readFile source = .ok (bytes, mode)
    ∨ fs.stat source = .error .notFound ∧ Gives (fun fs => fs.readFile source) fs bytes mode

theorem copied_of_gives {source : Path} {bytes : Bytes} {mode : Nat}
    (gives : Gives (fun fs => fs.readFile source) fs bytes mode) : Copied source fs bytes mode := by
  obtain ⟨mid, t, grown, nothing, read⟩ := gives
  have inside : t ≠ [] := by
    rintro rfl
    rw [get?_root] at nothing
    cases nothing
  rcases stat_extends_cases (grown.toExtends.trans (extends_set inside nothing)) source with same | missing
  · left
    have read : (mid.set t (.file [] 0o600)).readFile source = .ok (bytes, mode) := read
    unfold readFile at read ⊢
    rwa [same] at read
  · exact Or.inr ⟨missing, mid, t, grown, nothing, read⟩

theorem Ending.mono {holds holds' : Bytes → Nat → Prop} {result : EStateM.Result Fault FileSystem Unit}
    (ending : Ending p holds fs result) (weaker : ∀ bytes mode, holds bytes mode → holds' bytes mode) :
    Ending p holds' fs result := by
  cases ending with
  | done child held put => exact .done child (weaker _ _ held) put
  | refused grown new => exact .refused grown new

/-- A file that is written holds just the content, and one that is copied holds what the source
held before; everything else stays as it is, or all of it if the call fails. -/
theorem all_or_nothing (sound : Sound fs) :
    (∀ p content, Ending p (fun bytes mode => bytes = content ∧ mode = 0o600) fs
      (writeAtomically p content fs))
    ∧ ∀ source p, Ending p (Copied source fs) fs (copyAtomically source p fs) := by
  refine ⟨fun p content => ?_, fun source p => ?_⟩
  · refine (placeAtomically_ending sound p fun _ => .ok (content, 0o600)).mono ?_
    rintro bytes mode ⟨mid, t, -, -, given⟩
    exact Prod.mk.inj (Except.ok.inj given.symm)
  · exact (placeAtomically_ending sound p fun fs => fs.readFile source).mono
      fun bytes mode => copied_of_gives

/-! ### Over a link -/

namespace Overwriting

def file : Name := ⟨[102], Eq.refl true⟩

def store : Name := ⟨[115], Eq.refl true⟩

def link : Name := ⟨[108], Eq.refl true⟩

/-- A program, and a link to it in a directory. -/
def start : FileSystem :=
  ⟨[([file], .file [120] 0o755), ([store], .directory), ([link, store], .link ⟨[46, 46, 47, 102]⟩)], []⟩

/-- The path of the link. -/
def place : Path := ⟨Utf8.encode "s/l"⟩

theorem sound : Sound start :=
  ⟨.of_objects (by decide) (by decide), rfl⟩

/-- A program that is copied over a link to it. -/
theorem link_replaced : copyAtomically place place start
      = .ok () (start.set [link, store] (.file [120] 0o755))
    ∧ Ending place (Copied place start) start (copyAtomically place place start) :=
  ⟨by cbv, (all_or_nothing sound).2 place place⟩

end Overwriting

/-! ### Over a link on the way -/

namespace Overtaken

def link : Name := ⟨[108], Eq.refl true⟩

/-- A link to the directory in which it stands. -/
def start : FileSystem :=
  ⟨[([link], .link ⟨[46]⟩)], []⟩

/-- The link, by way of itself. -/
def path : Path := ⟨[108, 47, 108]⟩

def written : FileSystem :=
  ⟨[([link], .file [120] 0o600)], []⟩

theorem write_link : writeAtomically path [120] start = .ok () written := by
  cbv

/-- What is written over a link is not found by way of that link. -/
theorem file_lost : ¬ ∀ (fs after : FileSystem) (p : Path) (content : Bytes), Sound fs →
    writeAtomically p content fs = .ok () after →
    ∃ l mode, after.stat p = .ok (l, .file content mode) := by
  intro claim
  have sound : Sound start := ⟨.of_objects (by decide) (by decide), rfl⟩
  obtain ⟨l, mode, found⟩ := claim _ _ _ _ sound write_link
  have lost : written.stat path = .error .notDirectory := by cbv
  rw [lost] at found
  cases found

end Overtaken

end FileSystem
end StackSynth
