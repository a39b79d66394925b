import StackSynth.Proofs.Ancestors
import StackSynth.Proofs.Change

/-!
# CreateAll — directories and the directories above them

`FileSystem.createAll` adds directories and nothing else.  Each of them is made where the path, or
one of its ancestors, leads once the missing directories are there, and so where a lenient walk
of it ends.

* `FileSystem.Made` — what any run of `createAll` keeps, whether it succeeds or fails;
* `FileSystem.createAll_made`, `createAll_ok` — the directory is there afterwards;
* `FileSystem.createAll_there` — nothing is made of a directory that is there.
-/

namespace StackSynth
namespace FileSystem

variable {fs mid after : FileSystem}

/-! ## Where directories are made -/

theorem Makes.of_grown (grown : Grown fs after) {p : Path} {l : Location}
    (makes : Makes after p l) : Makes fs p l := by
  obtain ⟨front, name, back, left, here, steps, same, through⟩ := makes
  rw [grown.current, enter_grown grown] at through
  exact ⟨front, name, back, left, here, steps, same, through⟩

theorem IsSlot.makes {p : Path} {s : Slot} (isSlot : IsSlot fs p s) : Makes fs p s.location := by
  obtain ⟨front, left, steps, entered⟩ := isSlot.entered
  exact ⟨front, s.name, [], left, s.directory, steps, rfl, enter_lenient entered⟩

/-- Directories were added, each of them where `p` makes it. -/
structure Made (p : Path) (fs after : FileSystem) : Prop where
  sound : Sound after
  grown : Grown fs after
  places : ∀ l, fs.get? l = none → after.get? l = some .directory → Makes fs p l

theorem Made.refl (sound : Sound fs) (p : Path) : Made p fs fs where
  sound := sound
  grown := Grown.refl fs
  places := by
    intro l nothing stands
    rw [nothing] at stands
    cases stands

theorem Made.trans {p : Path} (first : Made p fs mid) (second : Made p mid after) :
    Made p fs after where
  sound := second.sound
  grown := first.grown.trans second.grown
  places := by
    intro l nothing stands
    cases between : mid.get? l with
    | none => exact (second.places l between stands).of_grown first.grown
    | some object =>
        obtain rfl := first.grown.added nothing between
        exact first.places l nothing between

/-- What one path makes another one makes, too. -/
theorem Made.mono {p q : Path} (made : Made q fs after)
    (makes : ∀ l, Makes fs q l → Makes fs p l) : Made p fs after where
  sound := made.sound
  grown := made.grown
  places := fun l nothing stands => makes l (made.places l nothing stands)

/-! ## Making them -/

theorem mkdir_made (sound : Sound fs) {p : Path} (made : fs.mkdir p = .ok after) :
    Made p fs after := by
  obtain ⟨s, isSlot, nothing, rfl⟩ := mkdir_ok made
  refine ⟨?_, grown_set_directory s.location_ne_nil nothing, ?_⟩
  · exact sound.set_directory s.location_ne_nil (isSlot.directory sound)
  · intro l absent stands
    rw [get?_set _ _ _ _ s.location_ne_nil] at stands
    split at stands
    · rename_i same
      exact same ▸ isSlot.makes
    · rw [absent] at stands
      cases stands

/-- A directory that was made is found. -/
theorem mkdir_stat {p : Path} (made : fs.mkdir p = .ok after) :
    ∃ l, after.stat p = .ok (l, .directory) := by
  obtain ⟨s, isSlot, nothing, rfl⟩ := mkdir_ok made
  have grown := grown_set_directory s.location_ne_nil nothing
  refine ⟨s.location, (isSlot.extends grown.toExtends).stat ?_⟩
  rw [get?_set _ _ _ _ s.location_ne_nil, if_pos rfl]

theorem mkdirOrAccept_ends {p : Path} (ends : Action.Ends (mkdirOrAccept p) fs after) :
    fs.mkdir p = .ok after ∨ after = fs := by
  unfold Action.Ends mkdirOrAccept at ends
  cases made : fs.mkdir p with
  | ok done =>
      simp only [made] at ends
      rcases ends with ⟨value, same⟩ | ⟨e, same⟩
      · cases same
        exact Or.inl rfl
      · cases same
  | error fault =>
      simp only [made] at ends
      right
      split at ends
      · rcases ends with ⟨value, same⟩ | ⟨e, same⟩ <;> cases same
        rfl
      · rcases ends with ⟨value, same⟩ | ⟨e, same⟩ <;> cases same
        rfl

/-- `q` is walked along a part of `p`. -/
def IsPart (q p : Path) : Prop :=
  q.steps <+: p.steps ∧ q.isAbsolute = p.isAbsolute

theorem mkdirOrAccept_ok {p : Path} (ok : mkdirOrAccept p fs = .ok () after) :
    ∃ l, after.stat p = .ok (l, .directory) := by
  unfold mkdirOrAccept at ok
  cases made : fs.mkdir p with
  | ok done =>
      simp only [made] at ok
      cases ok
      exact mkdir_stat made
  | error fault =>
      simp only [made] at ok
      split at ok
      · rename_i there
        cases ok
        exact isDirectory_iff.mp there
      · cases ok

/-- Only if something above is missing is it made first. -/
theorem createAllAbove_cons {p : Path} (filled : p.isEmpty = false) (next : Path)
    (above : List Path) (fs : FileSystem) :
    createAllAbove p (next :: above) fs = (do createAllAbove next above; mkdirOrAccept p) fs
      ∨ createAllAbove p (next :: above) fs = mkdirOrAccept p fs := by
  cases made : fs.mkdir p with
  | ok after => exact Or.inr (by simp [createAllAbove, filled, made])
  | error fault =>
      cases fault with
      | notFound => exact Or.inl (by simp [createAllAbove, filled, made])
      | _ => exact Or.inr (by simp [createAllAbove, filled, made])

theorem createAllAbove_of_isEmpty {p : Path} (empty : p.isEmpty = true) (above : List Path) :
    createAllAbove p above = pure () := by
  cases above <;> simp [createAllAbove, empty]

/-- A relation that holds of each directory that is made holds of all of them together. -/
theorem createAllAbove_rel {R : FileSystem → FileSystem → Prop} (refl : ∀ fs, R fs fs)
    (trans : ∀ {fs mid after}, R fs mid → R mid after → R fs after) {p q : Path} {above : List Path}
    (step : ∀ {fs after r}, IsPart r p → fs.mkdir r = .ok after → R fs after)
    (parts : ∀ r ∈ q :: above, IsPart r p) (ends : Action.Ends (createAllAbove q above) fs after) :
    R fs after := by
  -- Each directory is made or is there already.
  have single : ∀ {fs after r}, IsPart r p → Action.Ends (mkdirOrAccept r) fs after → R fs after := by
    intro fs after r part ends
    rcases mkdirOrAccept_ends ends with made | rfl
    · exact step part made
    · exact refl after
  induction above generalizing q fs after with
  | nil =>
      by_cases empty : q.isEmpty = true
      · rw [createAllAbove_of_isEmpty empty] at ends
        exact Action.ends_pure ends ▸ refl fs
      · rw [createAllAbove, if_neg empty] at ends
        exact single (parts q (by simp)) ends
  | cons next above ih =>
      by_cases empty : q.isEmpty = true
      · rw [createAllAbove_of_isEmpty empty] at ends
        exact Action.ends_pure ends ▸ refl fs
      · have own := parts q (by simp)
        have others : ∀ r ∈ next :: above, IsPart r p := fun r member =>
          parts r (List.mem_cons_of_mem q member)
        unfold Action.Ends at ends
        -- If it is not made at once, those above it are made first.
        rcases createAllAbove_cons (by simpa using empty) next above fs with same | same
        · rw [same] at ends
          rcases Action.ends_bind ends with ends | ⟨x, mid, run, ends⟩
          · exact ih others ends
          · exact trans (ih others (Or.inl ⟨x, run⟩)) (single own ends)
        · rw [same] at ends
          exact single own ends

/-- The same, for a path with all directories above it. -/
theorem createAll_rel {R : FileSystem → FileSystem → Prop} (refl : ∀ fs, R fs fs)
    (trans : ∀ {fs mid after}, R fs mid → R mid after → R fs after) {p : Path}
    (step : ∀ {fs after q}, IsPart q p → fs.mkdir q = .ok after → R fs after)
    (ends : Action.Ends (createAll p) fs after) : R fs after := by
  refine createAllAbove_rel refl trans step ?_ ends
  rintro q (_ | ⟨_, member⟩)
  · exact ⟨List.prefix_refl _, rfl⟩
  · exact Path.mem_ancestors member

theorem createAllAbove_ok {p : Path} {above : List Path} (filled : p.isEmpty = false)
    (ok : createAllAbove p above fs = .ok () after) : ∃ l, after.stat p = .ok (l, .directory) := by
  cases above with
  | nil =>
      rw [createAllAbove, if_neg (by simp [filled])] at ok
      exact mkdirOrAccept_ok ok
  | cons next above =>
      rcases createAllAbove_cons filled next above fs with same | same
      · rw [same] at ok
        obtain ⟨x, mid, -, ok⟩ := Action.bind_ok_iff.mp ok
        exact mkdirOrAccept_ok ok
      · exact mkdirOrAccept_ok (same ▸ ok)

theorem createAllAbove_made (sound : Sound fs) {p q : Path} {above : List Path}
    (parts : ∀ r ∈ q :: above, IsPart r p) (ends : Action.Ends (createAllAbove q above) fs after) :
    Made p fs after := by
  refine createAllAbove_rel (R := fun fs after => Sound fs → Made p fs after) ?_ ?_ ?_ parts ends
    sound
  · exact fun fs sound => Made.refl sound p
  · exact fun first second sound => (first sound).trans (second (first sound).sound)
  · exact fun part made sound =>
      (mkdir_made sound made).mono fun l makes => makes.of_initial part.1 part.2

theorem createAll_made (sound : Sound fs) {p : Path} (ends : Action.Ends (createAll p) fs after) :
    Made p fs after := by
  refine createAllAbove_made sound ?_ ends
  rintro q (_ | ⟨_, member⟩)
  · exact ⟨List.prefix_refl _, rfl⟩
  · exact Path.mem_ancestors member

theorem createAll_ok {p : Path} (filled : p.isEmpty = false) (ok : createAll p fs = .ok () after) :
    ∃ l, after.stat p = .ok (l, .directory) :=
  createAllAbove_ok filled ok

/-! ## Nothing to make -/

/-- A directory that is there is not made again. -/
theorem mkdir_there {p : Path} {l : Location} (found : fs.stat p = .ok (l, .directory)) :
    fs.mkdir p = .error .alreadyThere := by
  obtain ⟨⟨spelled, filled⟩, left, reached⟩ := stat_eq_directory_iff.mp found
  rcases slot_of_reach spelled filled reached .alreadyThere with dots | ⟨s, isSlot⟩
  · simp [mkdir, dots, bind, Except.bind]
  · have known : fs.slot .alreadyThere p = .ok s := slot_eq_ok_iff.mpr isSlot
    obtain ⟨front, links, steps, entered⟩ := isSlot.entered
    cases stands : fs.get? s.location with
    | some object => simp [mkdir, known, stands, bind, Except.bind, throw, throwThe, MonadExceptOf.throw]
    | none =>
        rw [reach, steps, enter_append, entered] at reached
        rw [Slot.location] at stands
        simp only [Except.bind, enter, stands] at reached
        split at reached <;> cases reached

theorem createAll_there {p : Path} {l : Location} (found : fs.stat p = .ok (l, .directory)) :
    createAll p fs = .ok () fs := by
  obtain ⟨⟨-, filled⟩, -⟩ := stat_eq_directory_iff.mp found
  have made := mkdir_there found
  have accepted : mkdirOrAccept p fs = .ok () fs := by
    simp [mkdirOrAccept, made, isDirectory_iff.mpr ⟨l, found⟩]
  unfold createAll
  cases p.ancestors with
  | nil => rw [createAllAbove, if_neg (by simp [filled]), accepted]
  | cons next above => simp [createAllAbove, filled, made, accepted]

end FileSystem
end StackSynth
