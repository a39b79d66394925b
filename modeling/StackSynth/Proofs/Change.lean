import Mathlib.Data.List.Nodup
import Mathlib.Data.List.Perm.Subperm
import StackSynth.Proofs.Action
import StackSynth.Proofs.Frame
import StackSynth.Proofs.Moving

/-!
# Change — what the single steps do

Each step names a place by a path; what it does there is a change of the map of objects.  All of
them keep a file system sound.

* `FileSystem.Sound` — well-formed, with the current directory in place;
* `FileSystem.slot_eq_ok_iff` — the place that a path names for a step;
* `FileSystem.mkdir_ok`, `rename_file_ok`, `rename_directory_ok` — what a step does that succeeds;
* `FileSystem.freshName_first` — the first temporary name that is free;
* `FileSystem.temporary_ok` — nothing stands at a temporary name.
-/

namespace StackSynth

theorem Slot.location_ne_nil (s : Slot) : s.location ≠ [] := by
  simp [Slot.location]

namespace FileSystem

variable {fs after : FileSystem}

/-! ## Sound file systems -/

/-- Well-formed, and the current directory is there. -/
structure Sound (fs : FileSystem) : Prop extends WellFormed fs where
  here : fs.get? fs.current = some .directory

theorem Sound.directory_tail (sound : Sound fs) {l : Location} (stands : fs.get? l = some .directory) :
    fs.get? l.tail = some .directory := by
  cases l with
  | nil => exact stands
  | cons name l => exact sound.parent name l .directory stands

theorem directory_origin {here : Location}
    (stands : fs.get? here = some .directory) (p : Path) :
    fs.get? (origin here p) = some .directory := by
  unfold origin
  split
  · exact get?_root fs
  · exact stands

/-- Whatever is entered is a directory. -/
theorem Sound.enter_directory (sound : Sound fs) {links left : Nat} {here l : Location}
    {steps : List Path.Step} (stands : fs.get? here = some .directory)
    (through : enter fs false links here steps = .ok (left, l)) :
    fs.get? l = some .directory := by
  fun_induction enter fs false links here steps with
  | case1 links here =>
      cases through
      exact stands
  | case2 links here rest ih => exact ih stands through
  | case3 links here rest ih => exact ih (sound.directory_tail stands) through
  | case4 links here name rest long => cases through
  | case5 links here name rest long found lax ih => exact absurd lax (by decide)
  | case6 links here name rest long found strict => cases through
  | case7 links here name rest long found ih => exact ih found through
  | case8 here name rest long target found => cases through
  | case9 here name rest long target found links ih =>
      exact ih (directory_origin stands target) through
  | case10 links here name rest long object notDir notLink found => cases through

theorem Sound.reach_directory (sound : Sound fs) {p : Path} {left : Nat} {l : Location}
    (reached : fs.reach false p = .ok (left, l)) : fs.get? l = some .directory :=
  sound.enter_directory (directory_origin sound.here p) reached

theorem Sound.set_directory (sound : Sound fs) {l : Location} (inside : l ≠ [])
    (parent : fs.get? l.tail = some .directory) : Sound (fs.set l .directory) where
  toWellFormed := sound.toWellFormed.set inside parent (Or.inl rfl)
  here := by
    show (fs.set l .directory).get? fs.current = _
    rw [get?_set _ _ _ _ inside]
    split
    · rfl
    · exact sound.here

/-- A file may take any place in a directory but that of a directory. -/
theorem Sound.set_file (sound : Sound fs) {l : Location} {object : Object} (inside : l ≠ [])
    (parent : fs.get? l.tail = some .directory) (other : fs.get? l ≠ some .directory) :
    Sound (fs.set l object) where
  toWellFormed := by
    refine sound.toWellFormed.set inside parent (Or.inr fun name => ?_)
    exact sound.toWellFormed.none_below other (Location.below_cons name l)
  here := by
    show (fs.set l object).get? fs.current = _
    rw [get?_set _ _ _ _ inside, if_neg]
    · exact sound.here
    · rintro rfl
      exact other sound.here

theorem Sound.eraseTree (sound : Sound fs) {l : Location} (inside : l ≠ [])
    (away : ¬ l <:+ fs.current) : Sound (fs.eraseTree l) where
  toWellFormed := sound.toWellFormed.eraseTree inside
  here := by
    show (fs.eraseTree l).get? fs.current = _
    rw [get?_eraseTree _ _ _ inside, if_neg]
    · exact sound.here
    · rw [Location.within_iff]
      exact away

theorem extends_set {l : Location} {object : Object} (inside : l ≠ [])
    (nothing : fs.get? l = none) : Extends fs (fs.set l object) where
  current := rfl
  objects := by
    intro m other stands
    rw [get?_set _ _ _ _ inside, if_neg]
    · exact stands
    · rintro rfl
      rw [nothing] at stands
      cases stands

theorem grown_set_directory {l : Location} (inside : l ≠ []) (nothing : fs.get? l = none) :
    Grown fs (fs.set l .directory) where
  toExtends := extends_set inside nothing
  added := by
    intro m object _ stands
    rw [get?_set _ _ _ _ inside] at stands
    split at stands
    · exact (Option.some.inj stands).symm
    · simp_all

/-! ## Slots -/

/-- What a slot is: the last step of the path goes down from a directory that is there. -/
structure IsSlot (fs : FileSystem) (p : Path) (s : Slot) : Prop where
  spelled : WellSpelled p
  filled : p.isEmpty = false
  short : s.name.bytes.length ≤ nameLimit
  entered : ∃ front left, p.steps = front ++ [.down s.name]
    ∧ enter fs false linkLimit (origin fs.current p) front = .ok (left, s.directory)

theorem isSlot_of_slot {onDots : Fault} {p : Path} {s : Slot} (told : fs.slot onDots p = .ok s) :
    IsSlot fs p s := by
  unfold slot at told
  split at told
  · cases told
  · next wrong =>
    obtain ⟨spelled, filled⟩ := misspelled?_eq_none_iff.mp wrong
    -- The directory is that of all steps but the last, which has to be a name.
    obtain ⟨above, walked, told⟩ := bind_eq_ok_iff.mp told
    rw [walk_append _ _ _ _ _ (List.cons_ne_nil _ _)] at walked
    obtain ⟨⟨left, l⟩, entered, arrived⟩ := bind_eq_ok_iff.mp walked
    simp only [walk, Except.ok.injEq] at arrived
    subst arrived
    split at told
    · next name last =>
      obtain ⟨front, steps⟩ := List.getLast?_eq_some_iff.mp last
      rw [steps, List.dropLast_concat] at entered
      split at told
      · cases told
      · next short =>
        cases told
        exact ⟨spelled, filled, Nat.le_of_not_lt short, front, left, steps, entered⟩
    · cases told

theorem IsSlot.slot {p : Path} {s : Slot} (isSlot : IsSlot fs p s) (onDots : Fault) :
    fs.slot onDots p = .ok s := by
  obtain ⟨spelled, filled, short, front, left, steps, entered⟩ := isSlot
  have walked : walk fs true linkLimit (origin fs.current p) (front ++ [.stay])
      = .ok ⟨s.directory, some .directory⟩ := by
    rw [walk_append _ _ _ _ _ (List.cons_ne_nil _ _), entered]
    simp [Except.bind, walk]
  simp only [FileSystem.slot, misspelled?_eq_none_iff.mpr ⟨spelled, filled⟩, steps,
    List.dropLast_concat, walked, List.getLast?_concat, bind, Except.bind,
    if_neg (Nat.not_lt.mpr short)]
  rfl

theorem slot_eq_ok_iff {onDots : Fault} {p : Path} {s : Slot} :
    fs.slot onDots p = .ok s ↔ IsSlot fs p s :=
  ⟨isSlot_of_slot, fun isSlot => isSlot.slot onDots⟩

theorem IsSlot.directory (sound : Sound fs) {p : Path} {s : Slot} (isSlot : IsSlot fs p s) :
    fs.get? s.directory = some .directory := by
  obtain ⟨front, left, -, entered⟩ := isSlot.entered
  exact sound.enter_directory (directory_origin sound.here p) entered

/-- A path that can be entered names a slot, unless it ends in dots. -/
theorem slot_of_reach {p : Path} (spelled : WellSpelled p) (filled : p.isEmpty = false)
    {at' : Nat × Location} (reached : fs.reach false p = .ok at') (onDots : Fault) :
    fs.slot onDots p = .error onDots ∨ ∃ s, IsSlot fs p s := by
  rcases List.eq_nil_or_concat p.steps with none | ⟨front, last, steps⟩
  · left
    have right := misspelled?_eq_none_iff.mpr ⟨spelled, filled⟩
    simp [slot, right, none, walk, bind, Except.bind, throw, throwThe, MonadExceptOf.throw]
  · rw [List.concat_eq_append] at steps
    rw [reach, steps, enter_append] at reached
    cases entered : enter fs false linkLimit (origin fs.current p) front with
    | error fault => simp [entered, Except.bind] at reached
    | ok place =>
        obtain ⟨left, l⟩ := place
        cases last with
        | down name =>
            right
            -- The walk down this step did not fail, so that the name is short enough.
            refine ⟨⟨l, name⟩, spelled, filled, Nat.le_of_not_lt fun long => ?_, front, left, steps,
              entered⟩
            simp [entered, Except.bind, enter, long] at reached
        | stay | up =>
            left
            have right := misspelled?_eq_none_iff.mpr ⟨spelled, filled⟩
            have above : walk fs true linkLimit (origin fs.current p) (front ++ [.stay])
                = .ok ⟨l, some .directory⟩ := by
              rw [walk_append _ _ _ _ _ (List.cons_ne_nil _ _), entered]
              simp [Except.bind, walk]
            simp only [slot, right, steps, List.dropLast_concat, List.getLast?_concat, above, bind,
              Except.bind, throw, throwThe, MonadExceptOf.throw]

/-! ## Single steps -/

theorem mkdir_ok {p : Path} (made : fs.mkdir p = .ok after) :
    ∃ s, IsSlot fs p s ∧ fs.get? s.location = none ∧ after = fs.set s.location .directory := by
  unfold mkdir at made
  cases known : fs.slot .alreadyThere p with
  | error fault => simp [known, bind, Except.bind] at made
  | ok s =>
      simp only [known, bind, Except.bind] at made
      cases stands : fs.get? s.location with
      | some object => simp [stands, throw, throwThe, MonadExceptOf.throw] at made
      | none =>
          simp only [stands, pure, Except.pure, Except.ok.injEq] at made
          exact ⟨s, slot_eq_ok_iff.mp known, stands, made.symm⟩

theorem rename_ok {source : Location} {p : Path} (renamed : fs.rename source p = .ok after) :
    ∃ s, IsSlot fs p s ∧
      (fs.get? source = some .directory → fs.replaceDirectory source s.location = .ok after) ∧
      ∀ content mode, fs.get? source = some (.file content mode) →
        fs.replaceFile source (.file content mode) s.location = .ok after := by
  unfold rename at renamed
  simp only [List.contains_iff_mem] at renamed
  by_cases zero : 0 ∈ p.bytes
  · simp [zero, bind, Except.bind, throw, throwThe, MonadExceptOf.throw] at renamed
  · simp only [zero, bind, Except.bind, if_false] at renamed
    cases known : fs.slot .busy p with
    | error fault => simp [known] at renamed
    | ok s =>
        refine ⟨s, slot_eq_ok_iff.mp known, ?_, ?_⟩
        · intro directory
          simpa [known, directory] using renamed
        · intro content mode file
          by_cases wants : p.wantsDirectory = true
          · simp [known, file, wants, throw, throwThe, MonadExceptOf.throw] at renamed
          · simpa [known, file, wants] using renamed

/-- A file takes the place of whatever stood in its slot, which was no directory. -/
theorem rename_file_ok {source : Location} {p : Path} {content : Bytes} {mode : Nat}
    (file : fs.get? source = some (.file content mode)) (renamed : fs.rename source p = .ok after) :
    ∃ s, IsSlot fs p s ∧ fs.get? s.location ≠ some .directory
      ∧ after = (fs.erase source).set s.location (.file content mode) := by
  obtain ⟨s, isSlot, -, replaced⟩ := rename_ok renamed
  have ok := replaced content mode file
  refine ⟨s, isSlot, ?_⟩
  unfold replaceFile at ok
  split at ok
  · cases ok
  · rename_i other
    exact ⟨other, (Except.ok.inj ok).symm⟩

/-- A file gets the name of any slot but that of a directory. -/
theorem rename_file {source : Location} {p : Path} {s : Slot} {content : Bytes} {mode : Nat}
    (file : fs.get? source = some (.file content mode)) (isSlot : IsSlot fs p s)
    (other : fs.get? s.location ≠ some .directory) (bare : p.wantsDirectory = false) :
    fs.rename source p = .ok ((fs.erase source).set s.location (.file content mode)) := by
  have known : fs.slot .busy p = .ok s := slot_eq_ok_iff.mpr isSlot
  have clean : ¬ 0 ∈ p.bytes := isSlot.spelled.1
  have replaced : fs.replaceFile source (.file content mode) s.location
      = .ok ((fs.erase source).set s.location (.file content mode)) := by
    unfold replaceFile
    split
    · rename_i directory
      exact absurd directory other
    · rfl
  simp [rename, clean, known, file, bare, replaced, bind, Except.bind]

/-- A path has one slot at most. -/
theorem IsSlot.unique {p : Path} {s t : Slot} (one : IsSlot fs p s) (other : IsSlot fs p t) : s = t := by
  have known : fs.slot .busy p = .ok s := slot_eq_ok_iff.mpr one
  exact Except.ok.inj (known.symm.trans (slot_eq_ok_iff.mpr other))

theorem IsSlot.passes {p : Path} {s : Slot} (isSlot : IsSlot fs p s) (passes : Passes fs after) :
    IsSlot after p s where
  spelled := isSlot.spelled
  filled := isSlot.filled
  short := isSlot.short
  entered := by
    obtain ⟨front, left, steps, entered⟩ := isSlot.entered
    rw [← passes.current] at entered
    exact ⟨front, left, steps, enter_passes passes entered⟩

theorem IsSlot.extends {p : Path} {s : Slot} (isSlot : IsSlot fs p s) (extends' : Extends fs after) :
    IsSlot after p s :=
  isSlot.passes extends'.passes

/-- A directory that stands in a slot is found. -/
theorem IsSlot.stat {p : Path} {s : Slot} (isSlot : IsSlot fs p s)
    (stands : fs.get? s.location = some .directory) : fs.stat p = .ok (s.location, .directory) := by
  obtain ⟨front, left, steps, entered⟩ := isSlot.entered
  refine stat_eq_directory_iff.mpr ⟨⟨isSlot.spelled, isSlot.filled⟩, left, ?_⟩
  rw [FileSystem.reach, steps, enter_append, entered]
  show enter fs false left s.directory [.down s.name] = .ok (left, s.name :: s.directory)
  rw [Slot.location] at stands
  rw [enter, if_neg (Nat.not_lt.mpr isSlot.short), stands, enter]

/-- A directory can be removed if and only if nothing is in it. -/
theorem removeDirectory_ok_iff {p : Path} : fs.removeDirectory p = .ok after
    ↔ ∃ s, IsSlot fs p s ∧ fs.get? s.location = some .directory
      ∧ (∀ name, fs.get? (name :: s.location) = none) ∧ after = fs.erase s.location := by
  unfold removeDirectory
  constructor
  · intro removed
    cases known : fs.slot .invalidArgument p with
    | error fault => simp [known, bind, Except.bind] at removed
    | ok s =>
        simp only [known, bind, Except.bind] at removed
        split at removed
        · cases removed
        · next stands =>
          split at removed
          · next empty =>
            exact ⟨s, slot_eq_ok_iff.mp known, stands, none_of_childless (by simpa using empty),
              (Except.ok.inj removed).symm⟩
          · cases removed
        · cases removed
  · rintro ⟨s, isSlot, stands, childless, rfl⟩
    have none : fs.children s.location = [] := by
      rw [List.eq_nil_iff_forall_not_mem]
      intro name member
      obtain ⟨object, inside⟩ := mem_children.mp member
      rw [childless name] at inside
      cases inside
    simp [slot_eq_ok_iff.mpr isSlot, stands, none, bind, Except.bind, pure, Except.pure]

theorem removeDirectory_ok {p : Path} (removed : fs.removeDirectory p = .ok after) :
    ∃ s, IsSlot fs p s ∧ (∀ name, fs.get? (name :: s.location) = none)
      ∧ after = fs.erase s.location := by
  obtain ⟨s, isSlot, -, childless, same⟩ := removeDirectory_ok_iff.mp removed
  exact ⟨s, isSlot, childless, same⟩

theorem removeAll_ok {p : Path} (removed : fs.removeAll p = .ok after) :
    ∃ place, fs.locate false p = .ok place ∧ after = fs.eraseTree place.location := by
  unfold removeAll lstat at removed
  cases known : fs.locate false p with
  | error fault => simp [known, bind, Except.bind] at removed
  | ok place =>
      simp only [known, bind, Except.bind] at removed
      cases found : place.object with
      | none => simp [found, throw, throwThe, MonadExceptOf.throw] at removed
      | some object =>
          simp only [found, pure, Except.pure] at removed
          split at removed
          · cases removed
          · exact ⟨place, rfl, (Except.ok.inj removed).symm⟩

/-- What stood at and below `source` stands at and below `target`. -/
structure Moved (source target : Location) (fs after : FileSystem) : Prop where
  sound : Sound after
  current : after.current = fs.current
  moved : ∀ names, after.get? (names ++ target) = fs.get? (names ++ source)
  other : ∀ l, ¬ target <:+ l → after.get? l = if source <:+ l then none else fs.get? l

theorem Moved.self {source target : Location} (moved : Moved source target fs after) :
    after.get? target = fs.get? source := by
  simpa using moved.moved []

/-- A directory is moved in `mid`, which has nothing at the target but is `fs` elsewhere. -/
theorem moved_of_movable (sound : Sound fs) {mid : FileSystem} {source target : Location}
    (well : mid.WellFormed) (movable : Movable mid source target) (away : ¬ source <:+ fs.current)
    (current : mid.current = fs.current) (apart : ∀ l, l ≠ target → mid.get? l = fs.get? l) :
    Moved source target fs (mid.moveTree source target) where
  sound := by
    refine ⟨movable.wellFormed well, ?_⟩
    show (mid.moveTree source target).get? mid.current = _
    rw [current]
    -- The current directory is moved to, or it is not touched by the move.
    by_cases same : fs.current = target
    · have moved := movable.get?_moved well []
      rw [List.nil_append, List.nil_append, movable.stands] at moved
      rw [same, moved]
    · have there : mid.get? fs.current = some .directory := (apart _ same).trans sound.here
      have other : ¬ target <:+ fs.current := fun within => by
        rw [movable.nothing well within] at there
        cases there
      rw [movable.get?_other well other, if_neg away, there]
  current := current
  moved := by
    intro names
    rw [movable.get?_moved well]
    exact apart _ fun same => movable.apart ⟨names, same⟩
  other := by
    intro l outside
    rw [movable.get?_other well outside, apart l]
    rintro rfl
    exact outside (List.suffix_refl l)

/-- What a directory can take the place of: nothing, or a directory in which nothing is. -/
structure Vacant (fs : FileSystem) (l : Location) : Prop where
  own : fs.get? l = none ∨ fs.get? l = some .directory
  below : ∀ m, Location.Below l m → fs.get? m = none

theorem vacant_of_childless (well : fs.WellFormed) {l : Location}
    (own : fs.get? l = none ∨ fs.get? l = some .directory)
    (childless : ∀ name, fs.get? (name :: l) = none) : Vacant fs l where
  own := own
  below := by
    intro m below
    obtain ⟨names, some, rfl⟩ := Location.below_iff.mp below
    obtain ⟨front, name, rfl⟩ : ∃ front name, names = front ++ [name] :=
      ⟨_, _, (List.dropLast_concat_getLast some).symm⟩
    rw [List.append_assoc, List.singleton_append]
    rcases Location.within_iff_eq_or_below.mp (List.suffix_append front (name :: l)) with same | deeper
    · rw [same]
      exact childless name
    · exact well.none_below (by simp [childless]) deeper

theorem vacant_of_none (well : fs.WellFormed) {l : Location} (nothing : fs.get? l = none) :
    Vacant fs l :=
  ⟨Or.inl nothing, fun _ below => well.none_below (by simp [nothing]) below⟩

/-- An empty directory makes room. -/
theorem movable_erase {source : Location} {s : Slot} (inside : source ≠ [])
    (stands : fs.get? source = some .directory) (parent : fs.get? s.location.tail = some .directory)
    (apart : ¬ source <:+ s.location) : Movable (fs.erase s.location) source s.location := by
  have erased := fun l => get?_erase fs s.location l s.location_ne_nil
  refine { stands := ?_, inside, free := ?_, parent := ?_, apart }
  · have differ : source ≠ s.location := by
      rintro rfl
      exact apart (List.suffix_refl _)
    rw [erased, if_neg differ]
    exact stands
  · rw [erased, if_pos rfl]
  · have shorter : s.location.tail ≠ s.location := by simp [Slot.location]
    rw [erased, if_neg shorter]
    exact parent

/-- A directory takes the place of what is vacant, or has its name already. -/
theorem rename_directory_ok (sound : Sound fs) {source : Location} {p : Path} {s : Slot}
    (inside : source ≠ []) (stands : fs.get? source = some .directory) (isSlot : IsSlot fs p s)
    (away : ¬ source <:+ fs.current) (replaced : fs.replaceDirectory source s.location = .ok after) :
    Moved source s.location fs after ∧ (s.location = source ∨ Vacant fs s.location) := by
  have well := sound.toWellFormed
  have parent := isSlot.directory sound
  unfold replaceDirectory at replaced
  by_cases same : source = s.location
  · -- The object has its name already.
    rw [if_pos same] at replaced
    cases replaced
    refine ⟨⟨sound, rfl, fun names => by rw [same], fun l outside => ?_⟩, Or.inl same.symm⟩
    rw [if_neg (same ▸ outside)]
  rw [if_neg same] at replaced
  split at replaced
  · cases replaced
  next outside =>
  have apart : ¬ source <:+ s.location := fun within => outside (Location.within_iff.mpr within)
  split at replaced
  · next nothing =>
    cases replaced
    have movable : Movable fs source s.location := { stands, inside, free := nothing, parent, apart }
    exact ⟨moved_of_movable sound well movable away rfl fun _ _ => rfl,
      Or.inr (vacant_of_none well nothing)⟩
  · next directory =>
    split at replaced
    · next childless =>
      cases replaced
      have empty := none_of_childless (List.isEmpty_iff.mp childless)
      refine ⟨moved_of_movable sound (well.erase s.location_ne_nil empty)
        (movable_erase inside stands parent apart) away rfl fun l other => ?_,
        Or.inr (vacant_of_childless well (Or.inr directory) empty)⟩
      rw [get?_erase _ _ _ s.location_ne_nil, if_neg other]
    · cases replaced
  · cases replaced

/-! ## Temporary names -/

/-- The number that decimal digits spell, last digit first. -/
def digitsValue (digits : Bytes) : Nat :=
  digits.foldr (fun digit value => digit.toNat - 48 + 10 * value) 0

theorem digitsValue_zeros (count : Nat) :
    digitsValue (List.replicate count (Name.digit 0)) = 0 := by
  induction count with
  | zero => rfl
  | succ count ih =>
      rw [List.replicate_succ, digitsValue, List.foldr_cons]
      show (Name.digit 0).toNat - 48 + 10 * digitsValue (List.replicate count (Name.digit 0)) = 0
      rw [ih]
      decide

theorem toNat_digit (n : Nat) : (Name.digit n).toNat - 48 = n % 10 := by
  have small : n % 10 < 10 := Nat.mod_lt _ (by decide)
  rw [Name.digit, UInt8.toNat_ofNat']
  omega

theorem digitsValue_digits (width n : Nat) : digitsValue (Name.digits width n) = n := by
  fun_induction Name.digits width n with
  | case1 width n small =>
      show (Name.digit n).toNat - 48 + 10 * digitsValue (List.replicate _ _) = n
      rw [toNat_digit, digitsValue_zeros]
      omega
  | case2 width n large ih =>
      show (Name.digit n).toNat - 48 + 10 * digitsValue (Name.digits (width - 1) (n / 10)) = n
      rw [toNat_digit, ih]
      omega

theorem temporary_inj {m n : Nat} (same : Name.temporary m = Name.temporary n) : m = n := by
  have bytes := congrArg Name.bytes same
  have digits : Name.digits 6 m = Name.digits 6 n := by
    simpa [Name.temporary] using bytes
  rw [← digitsValue_digits 6 m, ← digitsValue_digits 6 n, digits]

/-- The first temporary name that is free. -/
theorem freshName_first (taken : List Name) :
    ∃ n, freshName taken = .temporary n ∧ Name.temporary n ∉ taken
      ∧ ∀ m < n, Name.temporary m ∈ taken := by
  unfold freshName
  rw [List.find?_map]
  cases found : (List.range (taken.length + 1)).find?
      ((fun name => !taken.contains name) ∘ Name.temporary) with
  | some n =>
      obtain ⟨free, -, before⟩ := List.find?_range_eq_some.mp found
      exact ⟨n, rfl, by simpa using free, fun m less => by simpa using before m less⟩
  | none =>
      -- Among one name more than are taken, one is free.
      have all : ∀ name ∈ (List.range (taken.length + 1)).map Name.temporary, name ∈ taken := by
        intro name member
        obtain ⟨m, known, rfl⟩ := List.mem_map.mp member
        simpa using List.find?_eq_none.mp found m known
      have once : ((List.range (taken.length + 1)).map Name.temporary).Nodup :=
        List.nodup_range.map fun m n => temporary_inj
      have count := (once.subperm all).length_le
      simp only [List.length_map, List.length_range] at count
      omega

theorem freshName_not_mem (taken : List Name) : freshName taken ∉ taken := by
  obtain ⟨n, same, free, -⟩ := freshName_first taken
  rwa [same]

/-- Which names are taken does not matter, but for the temporary ones. -/
theorem freshName_congr {taken others : List Name}
    (same : ∀ n, Name.temporary n ∈ taken ↔ Name.temporary n ∈ others) :
    freshName taken = freshName others := by
  obtain ⟨n, first, free, before⟩ := freshName_first taken
  obtain ⟨m, second, free', before'⟩ := freshName_first others
  rw [first, second]
  rcases Nat.lt_trichotomy n m with less | rfl | more
  · exact absurd ((same n).mpr (before' n less)) free
  · rfl
  · exact absurd ((same m).mp (before m more)) free'

theorem freshName_children {l : Location}
    (same : ∀ n, after.get? (.temporary n :: l) = fs.get? (.temporary n :: l)) :
    freshName (after.children l) = freshName (fs.children l) :=
  freshName_congr fun n => by rw [mem_children, mem_children, same]

/-- When there is a temporary name, and which. -/
theorem temporary_ok_iff {p path : Path} {t : Location} :
    fs.temporary p = .ok (t, path) ↔ ∃ l, fs.stat p = .ok (l, .directory)
      ∧ t = freshName (fs.children l) :: l ∧ path = p.child (freshName (fs.children l))
      ∧ path.bytes.length < pathLimit := by
  unfold temporary
  cases found : fs.stat p with
  | error fault => simp [bind, Except.bind]
  | ok place =>
      obtain ⟨l, object⟩ := place
      cases object with
      | file content mode => simp [bind, Except.bind, throw, throwThe, MonadExceptOf.throw]
      | link target => simp [bind, Except.bind, throw, throwThe, MonadExceptOf.throw]
      | pipe => simp [bind, Except.bind, throw, throwThe, MonadExceptOf.throw]
      | directory =>
          by_cases long : pathLimit ≤ (p.child (freshName (fs.children l))).bytes.length
          · simp only [bind, Except.bind, long, if_true, throw, throwThe, MonadExceptOf.throw,
              reduceCtorEq, false_iff]
            rintro ⟨m, same, rfl, rfl, short⟩
            cases same
            exact absurd long (Nat.not_le_of_lt short)
          · simp only [bind, Except.bind, long, if_false, pure, Except.pure, Except.ok.injEq, Prod.mk.injEq,
              and_true]
            constructor
            · rintro ⟨rfl, rfl⟩
              exact ⟨l, rfl, rfl, rfl, Nat.lt_of_not_le long⟩
            · rintro ⟨m, rfl, rfl, rfl, -⟩
              exact ⟨rfl, rfl⟩

/-- What a temporary name is: nothing stands there yet. -/
theorem temporary_ok {p path : Path} {t : Location}
    (made : fs.temporary p = .ok (t, path)) :
    ∃ l name, fs.stat p = .ok (l, .directory) ∧ t = name :: l ∧ path = p.child name
      ∧ fs.get? t = none ∧ path.bytes.length < pathLimit := by
  obtain ⟨l, found, rfl, rfl, short⟩ := temporary_ok_iff.mp made
  refine ⟨l, _, found, rfl, rfl, Option.eq_none_iff_forall_ne_some.mpr fun object stands => ?_, short⟩
  exact freshName_not_mem _ (mem_children.mpr ⟨object, stands⟩)

end FileSystem
end StackSynth
