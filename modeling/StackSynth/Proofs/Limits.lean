import Mathlib
import StackSynth.IgnoreFile

/-!
# Limits — which ignore files are accepted

An ignore file is read line by line up to the first line that cannot be taken: one pattern too many,
or one that is malformed.  Lines without a pattern have a number but are not counted, so that the
number of a line and the count of the patterns before it go different ways.

* `IgnoreRules.HoldsPattern`, `IgnoreRules.effectiveLines` — the lines that hold a pattern, with
  their numbers;
* `IgnoreRules.Ending` — what ends the reading of such lines;
* `IgnoreRules.ofLines_eq` — the lines in front are taken, and the first other line decides;
* `IgnoreRules.Judged`, `IgnoreRules.load_within_limits` — what becomes of an ignore file.
-/

namespace StackSynth

theorem FileSystem.isFile_iff {fs : FileSystem} {p : Path} : fs.isFile p = true
    ↔ ∃ location content mode, fs.stat p = .ok (location, .file content mode) := by
  rw [isFile]
  cases fs.stat p with
  | error fault => simp
  | ok there =>
      obtain ⟨location, object⟩ := there
      cases object <;> simp

/-- The rule of a line as it stands in a file. -/
def IgnoreRule.compile (line : String) : Except Glob.Problem IgnoreRule :=
  ofLine (lineText line)

namespace IgnoreRules

variable {file : Path} {line : String} {lines : List String} {number count : Nat}

/-! ## Lines with a pattern -/

/-- Without the space around it, the line is neither empty nor begins with the mark of a comment. -/
def HoldsPattern (line : String) : Prop :=
  Text.trim line ≠ "" ∧ (Text.trim line).toList.head? ≠ some '#'

instance (line : String) : Decidable (HoldsPattern line) :=
  inferInstanceAs (Decidable (_ ∧ _))

theorem isEffective_iff : isEffective line = true ↔ HoldsPattern line := by
  have text : (Text.trim line).toList = Text.trimChars line.toList := String.toList_ofList
  have empty : Text.trim line = "" ↔ Text.trimChars line.toList = [] := by
    rw [← text, String.toList_eq_nil_iff]
  rw [HoldsPattern, ne_eq, empty, text, isEffective]
  cases Text.trimChars line.toList <;> simp

/-- Lines that hold a pattern, with the numbers that they have if the first line is numbered
`number`. -/
def effectiveLines (number : Nat) (lines : List String) : List (String × Nat) :=
  (lines.zipIdx number).filter fun entry => HoldsPattern entry.1

theorem effectiveLines_cons : effectiveLines number (line :: lines)
    = if isEffective line then (line, number) :: effectiveLines (number + 1) lines
      else effectiveLines (number + 1) lines := by
  simp only [effectiveLines, List.zipIdx_cons, List.filter_cons, decide_eq_true_eq, isEffective_iff]

/-! ## Line by line -/

/-- The line has the rule. -/
def Compiled (entry : String × Nat) (rule : IgnoreRule) : Prop :=
  IgnoreRule.compile entry.1 = .ok rule

/-- What ends the reading of lines with a pattern, when `count` of them have been taken. -/
inductive Ending (file : Path) (count : Nat) : List (String × Nat) → Option IgnoreFailure → Prop
  | all : Ending file count [] Option.none
  | full {entry : String × Nat} {rest : List (String × Nat)} : count = countLimit →
      Ending file count (entry :: rest) (some (.tooMany file))
  | malformed {line : String} {number : Nat} {rest : List (String × Nat)} {problem : Glob.Problem} :
      count < countLimit → IgnoreRule.compile line = .error problem →
      Ending file count ((line, number) :: rest) (some (.badPattern file number line problem))

/-- Lines are taken until one of them ends the reading. -/
theorem exists_ending (file : Path) (entries : List (String × Nat)) (room : count ≤ countLimit) :
    ∃ front back rules failure, entries = front ++ back ∧ List.Forall₂ Compiled front rules
      ∧ count + front.length ≤ countLimit ∧ Ending file (count + front.length) back failure := by
  induction entries generalizing count with
  | nil => exact ⟨[], [], [], _, rfl, .nil, room, .all⟩
  | cons entry rest ih =>
      rcases room.eq_or_lt with full | less
      · exact ⟨[], entry :: rest, [], _, rfl, .nil, room, .full full⟩
      · cases compiled : IgnoreRule.compile entry.1 with
        | error problem =>
            exact ⟨[], entry :: rest, [], _, rfl, .nil, room, .malformed less compiled⟩
        | ok rule =>
            obtain ⟨front, back, rules, failure, rfl, taken, room', ends⟩ := ih less
            refine ⟨entry :: front, back, rule :: rules, failure, rfl, .cons compiled taken, ?_, ?_⟩
            · rw [List.length_cons]
              omega
            · rwa [List.length_cons, Nat.add_comm front.length, ← Nat.add_assoc]

/-- The lines in front are taken, and what ends the reading is the result. -/
theorem ofLines_eq {front back : List (String × Nat)} {rules : List IgnoreRule}
    {failure : Option IgnoreFailure} (split : effectiveLines number lines = front ++ back)
    (taken : List.Forall₂ Compiled front rules) (room : count + front.length ≤ countLimit)
    (ends : Ending file (count + front.length) back failure) :
    ofLines file number count lines = failure.elim (.ok rules) .error := by
  induction lines generalizing number count front rules with
  | nil =>
      obtain ⟨rfl, rfl⟩ := List.append_eq_nil_iff.mp split.symm
      cases taken
      cases ends
      rfl
  | cons line lines ih =>
      rw [effectiveLines_cons] at split
      rw [ofLines]
      split at split
      · rename_i effective
        rw [if_pos effective]
        cases front with
        | nil =>
            -- This line ends the reading.
            obtain rfl := split
            cases taken
            cases ends with
            | full full =>
                rw [List.length_nil, Nat.add_zero] at full
                rw [if_pos full]
                rfl
            | malformed less problem =>
                rw [List.length_nil, Nat.add_zero] at less
                rw [IgnoreRule.compile] at problem
                rw [if_neg less.ne, problem]
                rfl
        | cons entry front =>
            obtain ⟨same, others⟩ := List.cons.inj split
            subst same
            cases taken with
            | cons compiled taken =>
                rw [List.length_cons] at room ends
                have next : count + 1 + front.length = count + (front.length + 1) := by omega
                have rest := ih others taken (next ▸ room) (next ▸ ends)
                have less : count ≠ countLimit := by omega
                rw [Compiled, IgnoreRule.compile] at compiled
                rw [if_neg less, compiled]
                simp only [rest]
                cases failure <;> rfl
      · rename_i other
        rw [if_neg other]
        exact ih split taken room ends

/-! ## Whole texts -/

/-- The lines of a text that hold a pattern. -/
def effectiveText (text : String) : List (String × Nat) :=
  effectiveLines 1 (Text.lines text)

/-- There are at most a thousand patterns, and each of them compiles. -/
def Acceptable (text : String) : Prop :=
  (effectiveText text).length ≤ 1000 ∧ ∀ entry ∈ effectiveText text, ∃ rule, Compiled entry rule

/-- Of the first thousand patterns, the one on this line is the first that does not compile. -/
def FirstMalformed (text line : String) (number : Nat) (problem : Glob.Problem) : Prop :=
  ∃ front back, effectiveText text = front ++ (line, number) :: back ∧ front.length < 1000
    ∧ (∀ entry ∈ front, ∃ rule, Compiled entry rule) ∧ IgnoreRule.compile line = .error problem

/-- The rules of the text are not too deep to be searched for. -/
def Builds (text : String) : Prop :=
  ∀ rules, List.Forall₂ Compiled (effectiveText text) rules → tooDeep? rules = Option.none

/-- The result tells whether the text keeps to the limits, and which line does not. -/
structure Judged (file : Path) (text : String) (result : Except IgnoreFailure IgnoreRules) :
    Prop where
  accepted : Builds text → Acceptable text →
    ∃ rules, result = .ok rules ∧ rules.count = (effectiveText text).length
  malformed : ∀ line number problem, FirstMalformed text line number problem →
    result = .error (.badPattern file number line problem)
  full : ¬ Acceptable text → (∀ line number problem, ¬ FirstMalformed text line number problem) →
    result = .error (.tooMany file)
  empty : ∀ rules, result = .ok rules → (rules.count = 0 ↔ effectiveText text = [])

variable {text : String}

theorem exists_compiled {entries : List (String × Nat)}
    (each : ∀ entry ∈ entries, ∃ rule, Compiled entry rule) :
    ∃ rules, List.Forall₂ Compiled entries rules := by
  induction entries with
  | nil => exact ⟨[], .nil⟩
  | cons entry rest ih =>
      obtain ⟨⟨rule, compiled⟩, others⟩ := List.forall_mem_cons.mp each
      obtain ⟨rules, taken⟩ := ih others
      exact ⟨rule :: rules, .cons compiled taken⟩

theorem exists_of_compiled {entries : List (String × Nat)} {rules : List IgnoreRule}
    (taken : List.Forall₂ Compiled entries rules) :
    ∀ entry ∈ entries, ∃ rule, Compiled entry rule := by
  induction taken with
  | nil => exact List.forall_mem_nil _
  | cons compiled _ ih => exact List.forall_mem_cons.mpr ⟨⟨_, compiled⟩, ih⟩

theorem ofText_eq {front back : List (String × Nat)} {made : List IgnoreRule}
    {failure : Option IgnoreFailure} (split : effectiveText text = front ++ back)
    (taken : List.Forall₂ Compiled front made) (room : front.length ≤ countLimit)
    (ends : Ending file front.length back failure) :
    ofText file text = failure.elim ((tooDeep? made).elim (.ok ⟨made⟩) .error) .error := by
  rw [← Nat.zero_add front.length] at room ends
  rw [ofText, ofLines_eq split taken room ends]
  cases failure with
  | some failure => rfl
  | none =>
      cases found : tooDeep? made <;>
        simp [bind, Except.bind, found, pure, Except.pure, throw, throwThe, MonadExceptOf.throw]

/-- How far a text is read, and what becomes of it. -/
theorem exists_reading (file : Path) (text : String) :
    ∃ front back made failure, effectiveText text = front ++ back
      ∧ List.Forall₂ Compiled front made ∧ front.length ≤ countLimit
      ∧ Ending file front.length back failure
      ∧ ofText file text = failure.elim ((tooDeep? made).elim (.ok ⟨made⟩) .error) .error := by
  obtain ⟨front, back, made, failure, split, taken, room, ends⟩ :=
    exists_ending file (effectiveText text) (Nat.zero_le countLimit)
  rw [Nat.zero_add] at room ends
  exact ⟨front, back, made, failure, split, taken, room, ends, ofText_eq split taken room ends⟩

theorem judged_ofText (file : Path) (text : String) : Judged file text (ofText file text) := by
  obtain ⟨front, back, made, failure, split, taken, room, ends, result⟩ := exists_reading file text
  refine { accepted := ?accepted, malformed := ?malformed, full := ?full, empty := ?empty }
  case accepted =>
    -- Whatever ends the reading in front of the last line is at odds with the limits.
    rintro builds ⟨few, each⟩
    cases ends with
    | all =>
        rw [List.append_nil] at split
        have shallow := builds made (split ▸ taken)
        refine ⟨⟨made⟩, by rw [result, Option.elim, shallow]; rfl, ?_⟩
        rw [count, split, taken.length_eq]
    | full full =>
        rw [split, List.length_append, full, List.length_cons] at few
        exact absurd few (by simp only [countLimit]; omega)
    | malformed _ problem =>
        obtain ⟨rule, good⟩ := each _ (split ▸ List.mem_append_right _ List.mem_cons_self)
        cases problem.symm.trans good
  case malformed =>
    -- The lines in front of the malformed one are taken, and that one ends the reading.
    rintro line number problem ⟨front', back', split', less, each, bad⟩
    obtain ⟨made', taken'⟩ := exists_compiled each
    exact ofText_eq split' taken' less.le (.malformed less bad)
  case full =>
    intro refused none
    have compiled := exists_of_compiled taken
    cases ends with
    | all =>
        rw [List.append_nil] at split
        exact absurd ⟨split ▸ room, split ▸ compiled⟩ refused
    | full full => exact result
    | malformed less bad => exact absurd ⟨front, _, split, less, compiled, bad⟩ (none _ _ _)
  case empty =>
    intro rules found
    rw [result] at found
    cases ends with
    | full => cases found
    | malformed => cases found
    | all =>
        rw [List.append_nil] at split
        cases deep : tooDeep? made with
        | some failure => rw [Option.elim, deep] at found; cases found
        | none =>
            rw [Option.elim, deep] at found
            obtain rfl := Except.ok.inj found
            rw [count, ← taken.length_eq, split, List.length_eq_zero_iff]

/-- Reading a text never finds it too large. -/
theorem ofText_ne_tooLarge (file other : Path) (text : String) (size : Nat) :
    ofText file text ≠ .error (.tooLarge other size) := by
  obtain ⟨front, back, made, failure, -, -, -, ends, result⟩ := exists_reading file text
  rw [result]
  cases ends with
  | full => simp
  | malformed => simp
  | all =>
      unfold tooDeep?
      split
      · simp
      · cases (patternsBy .search made).findIdx? Glob.tooDeep <;> simp

/-! ## Files -/

section

variable {fs : FileSystem} {root : Path} {location : Location} {content : Bytes} {mode : Nat}

theorem load_of_absent (absent : fs.isFile (root.childText fileName) = false) :
    load fs root = .ok none := by
  rw [FileSystem.isFile] at absent
  unfold load
  dsimp only
  cases found : fs.stat (root.childText fileName) with
  | error fault => rfl
  | ok there =>
      obtain ⟨location, object⟩ := there
      rw [found] at absent
      cases object with
      | file content mode => cases absent
      | _ => rfl

section

variable (found : fs.stat (root.childText fileName) = .ok (location, .file content mode))

include found

theorem load_of_large (large : sizeLimit < content.length) :
    load fs root = .error (.tooLarge (root.childText fileName) content.length) := by
  unfold load
  dsimp only
  rw [found]
  exact if_pos large

variable (small : content.length ≤ sizeLimit)

include small

theorem load_of_read {text : String} (read : fs.readText (root.childText fileName) = .ok text) :
    load fs root = ofText (root.childText fileName) text := by
  simp only [load, found, if_neg (Nat.not_lt.mpr small), read]

theorem load_of_unread {fault : Fault}
    (unread : fs.readText (root.childText fileName) = .error fault) :
    load fs root = .error (.unreadable fault) := by
  simp only [load, found, if_neg (Nat.not_lt.mpr small), unread]
  rfl

end

/-- Only a file that is too large is called so. -/
theorem large_of_load {size : Nat}
    (refused : load fs root = .error (.tooLarge (root.childText fileName) size)) :
    ∃ location content mode, fs.stat (root.childText fileName) = .ok (location, .file content mode)
      ∧ content.length = size ∧ sizeLimit < size := by
  cases isFile : fs.isFile (root.childText fileName) with
  | false => cases (load_of_absent isFile).symm.trans refused
  | true =>
      obtain ⟨location, content, mode, found⟩ := FileSystem.isFile_iff.mp isFile
      rcases Nat.lt_or_ge sizeLimit content.length with large | small
      · have same := Except.error.inj ((load_of_large found large).symm.trans refused)
        obtain ⟨-, rfl⟩ := IgnoreFailure.tooLarge.inj same
        exact ⟨location, content, mode, found, rfl, large⟩
      · cases read : fs.readText (root.childText fileName) with
        | ok text =>
            have judged := (load_of_read found small read).symm.trans refused
            exact absurd judged (ofText_ne_tooLarge _ _ _ _)
        | error fault => cases (load_of_unread found small read).symm.trans refused

end

/-- Without an ignore file there are no rules; one that is too large is refused, and only then is it
called so; and one of which the text can be read is judged by its lines. -/
theorem load_within_limits (fs : FileSystem) (root : Path) :
    (fs.isFile (root.childText fileName) = false → load fs root = .ok none)
      ∧ (∀ size, load fs root = .error (.tooLarge (root.childText fileName) size)
        ↔ ∃ location content mode, fs.stat (root.childText fileName)
          = .ok (location, .file content mode) ∧ content.length = size ∧ 65536 < size)
      ∧ ∀ location content mode text,
        fs.stat (root.childText fileName) = .ok (location, .file content mode) →
        content.length ≤ 65536 → fs.readText (root.childText fileName) = .ok text →
        Judged (root.childText fileName) text (load fs root) := by
  refine ⟨load_of_absent, fun size => ⟨large_of_load, ?_⟩, ?_⟩
  · rintro ⟨location, content, mode, found, rfl, large⟩
    exact load_of_large found large
  · intro location content mode text found small read
    rw [load_of_read found small read]
    exact judged_ofText _ _

/-! ### A class that is the wrong way round -/

namespace Misspelt

/-- The second pattern stands on the fourth line. -/
def content : String := "# logs\n\n*.log\r\n[z-a]\n"

theorem isName_fileName : isName (Utf8.encode fileName) = true := by decide

def ignoreFile : Name := ⟨Utf8.encode fileName, isName_fileName⟩

def fs : FileSystem where
  objects := [([ignoreFile], .file (Utf8.encode content) 0o644)]
  current := []

def root : Path := ⟨[slash]⟩

theorem lines_content : effectiveText content = [("*.log", 3), ("[z-a]", 4)] := by cbv

theorem class_refused : fs.stat (root.childText fileName)
      = .ok ([ignoreFile], .file (Utf8.encode content) 0o644)
    ∧ (Utf8.encode content).length ≤ 65536 ∧ fs.readText (root.childText fileName) = .ok content
    ∧ load fs root
      = .error (.badPattern (root.childText fileName) 4 "[z-a]" (.reversedRange 'z' 'a')) := by
  have found : fs.stat (root.childText fileName)
      = .ok ([ignoreFile], .file (Utf8.encode content) 0o644) := by cbv
  have small : (Utf8.encode content).length ≤ 65536 := by decide
  have read : fs.readText (root.childText fileName) = .ok content := by cbv
  have judged := (load_within_limits fs root).2.2 _ _ _ _ found small read
  refine ⟨found, small, read, judged.malformed _ _ _ ⟨[("*.log", 3)], [], lines_content, ?_⟩⟩
  refine ⟨?_, ?_, ?_⟩
  · decide
  · have logs : IgnoreRule.compile "*.log" = .ok ⟨[.leading, .run, .literal '.', .literal 'l',
        .literal 'o', .literal 'g'], false, false⟩ := by cbv
    exact List.forall_mem_singleton.mpr ⟨_, logs⟩
  · cbv

end Misspelt

end IgnoreRules
end StackSynth
