import StackSynth.Path

/-!
# Path — fields, steps and children

A path is split into fields, and each field that means anything is one step of a walk.  A child
adds one step to those of the directory, however the directory is spelled.

* `Bytes.splitOn_joinWith` — fields without the separator survive being joined and split;
* `Path.steps_child`, `Path.stepsOf_child` — the steps of a child are those of the directory and
  one down;
* `Path.descend` — from a path down through some names.
-/

namespace StackSynth

namespace Bytes

/-! ## Fields -/

theorem splitOn_ne_nil (sep : UInt8) (bs : Bytes) : splitOn sep bs ≠ [] := by
  cases bs with
  | nil => simp [splitOn]
  | cons b bs =>
      unfold splitOn
      split
      · simp
      · split <;> simp

theorem splitOn_cons_ne {sep b : UInt8} {bs field : Bytes} {fields : List Bytes} (other : b ≠ sep)
    (split : splitOn sep bs = field :: fields) :
    splitOn sep (b :: bs) = (b :: field) :: fields := by
  simp [splitOn, other, split]

theorem splitOn_append_sep (sep : UInt8) (xs ys : Bytes) :
    splitOn sep (xs ++ sep :: ys) = splitOn sep xs ++ splitOn sep ys := by
  induction xs with
  | nil => simp [splitOn]
  | cons x xs ih =>
      by_cases same : x = sep
      · simp [splitOn, same, ih]
      · obtain ⟨field, fields, known⟩ := List.exists_cons_of_ne_nil (splitOn_ne_nil sep xs)
        rw [List.cons_append, splitOn_cons_ne same (by rw [ih, known]; rfl),
          splitOn_cons_ne same known]
        rfl

theorem splitOn_of_not_mem {sep : UInt8} {bs : Bytes} (free : sep ∉ bs) :
    splitOn sep bs = [bs] := by
  induction bs with
  | nil => rfl
  | cons b bs ih =>
      simp only [List.mem_cons, not_or] at free
      exact splitOn_cons_ne (Ne.symm free.1) (ih free.2)

theorem splitOn_joinWith {sep : UInt8} {fields : List Bytes} (some : fields ≠ [])
    (free : ∀ field ∈ fields, sep ∉ field) : splitOn sep (joinWith sep fields) = fields := by
  induction fields with
  | nil => exact absurd rfl some
  | cons field fields ih =>
      simp only [List.forall_mem_cons] at free
      cases fields with
      | nil => exact splitOn_of_not_mem free.1
      | cons next rest =>
          rw [joinWith, splitOn_append_sep, splitOn_of_not_mem free.1, ih (by simp) free.2]
          · rfl
          · simp

end Bytes

namespace Name

theorem ext {a b : Name} (same : a.bytes = b.bytes) : a = b := by
  cases a
  cases b
  cases same
  rfl

theorem isPlain_of_mem (name : Name) {b : UInt8} (member : b ∈ name.bytes) :
    b ≠ slash ∧ b ≠ 0 := by
  have valid := name.valid
  simp only [isName, Bool.and_eq_true, List.all_eq_true] at valid
  simpa using valid.1.1.2 b member

theorem slash_not_mem (name : Name) : slash ∉ name.bytes :=
  fun member => (name.isPlain_of_mem member).1 rfl

theorem zero_not_mem (name : Name) : 0 ∉ name.bytes :=
  fun member => (name.isPlain_of_mem member).2 rfl

theorem bytes_ne_nil (name : Name) : name.bytes ≠ [] :=
  List.ne_nil_of_length_pos name.length_pos

theorem bytes_ne_dot (name : Name) : name.bytes ≠ [dot] := by
  have valid := name.valid
  simp only [isName, Bool.and_eq_true] at valid
  simpa using valid.1.2

theorem bytes_ne_dots (name : Name) : name.bytes ≠ [dot, dot] := by
  have valid := name.valid
  simp only [isName, Bool.and_eq_true] at valid
  simpa using valid.2

@[simp] theorem ofBytes?_bytes (name : Name) : ofBytes? name.bytes = some name := by
  simp [ofBytes?, name.valid]

theorem bytes_of_ofBytes? {bs : Bytes} {name : Name} (known : ofBytes? bs = some name) :
    name.bytes = bs := by
  unfold ofBytes? at known
  split at known
  · exact (Option.some.inj known) ▸ rfl
  · cases known

end Name

namespace Path

/-! ## Steps -/

@[simp] theorem step?_name (name : Name) : step? name.bytes = some (.down name) := by
  simp [step?, name.bytes_ne_dot, name.bytes_ne_dots]

theorem step?_nil : step? [] = none := by
  decide

theorem step?_down {field : Bytes} {name : Name} (step : step? field = some (.down name)) :
    field = name.bytes := by
  unfold step? at step
  split at step
  · cases step
  · split at step
    · cases step
    · obtain ⟨known, found, same⟩ := Option.map_eq_some_iff.mp step
      cases same
      exact (Name.bytes_of_ofBytes? found).symm

theorem child_bytes (p : Path) (name : Name) :
    (p.child name).bytes
      = if p.isEmpty then name.bytes
        else if p.bytes.getLast? == some slash then p.bytes ++ name.bytes
        else p.bytes ++ slash :: name.bytes := by
  unfold child
  split
  · rfl
  · split <;> rfl

/-- Spelled without a last slash, a path is what stands before it. -/
theorem exists_front_of_last {p : Path} (last : p.bytes.getLast? = some slash) :
    ∃ front, p.bytes = front ++ [slash] := by
  obtain ⟨front, same⟩ := List.getLast?_eq_some_iff.mp last
  exact ⟨front, same⟩

theorem steps_child (p : Path) (name : Name) :
    (p.child name).steps = p.steps ++ [.down name] := by
  have alone : (Bytes.splitOn slash name.bytes).filterMap step? = [.down name] := by
    simp [Bytes.splitOn_of_not_mem name.slash_not_mem]
  unfold steps
  rw [child_bytes]
  split
  · rename_i empty
    have none : p.bytes = [] := by simpa [isEmpty] using empty
    rw [alone, none]
    rfl
  · split
    · rename_i last
      obtain ⟨front, same⟩ := exists_front_of_last (by simpa using last)
      rw [same, List.append_assoc, List.singleton_append, Bytes.splitOn_append_sep,
        Bytes.splitOn_append_sep, List.filterMap_append, List.filterMap_append, alone]
      simp [Bytes.splitOn, step?_nil]
    · rw [Bytes.splitOn_append_sep, List.filterMap_append, alone]

theorem child_not_empty (p : Path) (name : Name) : (p.child name).isEmpty = false := by
  have longer := p.length_lt_child name
  cases spelled : (p.child name).bytes with
  | nil => simp [spelled] at longer
  | cons b bs => simp [isEmpty, spelled]

theorem child_getLast? (p : Path) (name : Name) :
    (p.child name).bytes.getLast? = name.bytes.getLast? := by
  have some : name.bytes ≠ [] := name.bytes_ne_nil
  rw [child_bytes]
  split
  · rfl
  · split
    · simp [List.getLast?_append, List.getLast?_eq_some_getLast some]
    · simp [List.getLast?_append, List.getLast?_cons, List.getLast?_eq_some_getLast some]

theorem child_wantsDirectory (p : Path) (name : Name) : (p.child name).wantsDirectory = false := by
  have plain : name.bytes.getLast? ≠ some slash := by
    intro last
    exact name.slash_not_mem (List.mem_of_getLast? last)
  simpa [wantsDirectory, child_getLast?] using plain

theorem child_isAbsolute (p : Path) (name : Name) : (p.child name).isAbsolute = p.isAbsolute := by
  have plain : name.bytes.head? ≠ some slash := by
    intro first
    exact name.slash_not_mem (List.mem_of_head? first)
  unfold isAbsolute
  rw [child_bytes]
  cases spelled : p.bytes with
  | nil => simpa [isEmpty, spelled] using plain
  | cons b bs =>
      simp only [isEmpty, spelled, List.isEmpty_cons, Bool.false_eq_true, if_false]
      split <;> simp

theorem zero_mem_child (p : Path) (name : Name) :
    0 ∈ (p.child name).bytes ↔ 0 ∈ p.bytes := by
  have free := name.zero_not_mem
  rw [child_bytes]
  split
  · rename_i empty
    have none : p.bytes = [] := by simpa [isEmpty] using empty
    simpa [none] using free
  · split <;> simp [free, slash]

/-- A name below a path as text is a child, if the text is a name. -/
theorem childText_eq_child {text : String} {name : Name} (known : Name.ofText? text = some name)
    (p : Path) : p.childText text = p.child name := by
  have same : Utf8.encode text = name.bytes := (Name.bytes_of_ofBytes? known).symm
  have relative : isAbsolute ⟨name.bytes⟩ = false := by
    have plain : name.bytes.head? ≠ some slash := fun first =>
      name.slash_not_mem (List.mem_of_head? first)
    simpa [isAbsolute] using plain
  show p.join (ofString text) = p.child name
  unfold join child
  rw [ofString, same, relative, Bool.false_or]

/-! ## Going down -/

/-- The path from `p` down through some names. -/
def descend (p : Path) (names : List Name) : Path :=
  names.foldl child p

@[simp] theorem descend_nil (p : Path) : p.descend [] = p := rfl

@[simp] theorem descend_cons (p : Path) (name : Name) (names : List Name) :
    p.descend (name :: names) = (p.child name).descend names := rfl

theorem descend_append (p : Path) (names others : List Name) :
    p.descend (names ++ others) = (p.descend names).descend others := by
  simp [descend]

/-- One name further down. -/
theorem child_descend (p : Path) (names : List Name) (name : Name) :
    (p.descend names).child name = p.descend (names ++ [name]) := by
  simp [descend]

end Path
end StackSynth
