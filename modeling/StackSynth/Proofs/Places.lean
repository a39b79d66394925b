import StackSynth.Proofs.Artifact
import StackSynth.StackFile
import StackSynth.Synthesis

/-!
# Places — where a stack and its assets stand

Names of constructs can name objects, so that the directory of a stack and the staging directories
of its assets lie a fixed number of names below the output directory.  The path that the manifest
lists for an asset leads from the directory of the stack to where the asset was staged.

* `ConstructId.node` — the object name of a construct;
* `Path.components_child` — a child adds one component;
* `App.stackDirectory_eq`, `Stack.staging_eq` — directories as names below the output directory;
* `Stack.relative_eq` — the listed path of an asset.
-/

namespace StackSynth

/-! ## Components -/

namespace Path

theorem lead_eq_of_fields {p q : Path} {front back : List Bytes} (some : front ≠ [])
    (absolute : q.isAbsolute = p.isAbsolute) (fields : p.bytes.splitOn slash = front ++ back)
    {more : List Bytes} (fields' : q.bytes.splitOn slash = front ++ more) : q.lead = p.lead := by
  obtain ⟨field, rest, rfl⟩ := List.exists_cons_of_ne_nil some
  simp [lead, absolute, fields, fields']

theorem components_child (p : Path) (name : Name) :
    (p.child name).components = p.components ++ [.name name.bytes] := by
  by_cases empty : p.isEmpty = true
  · have none : p.bytes = [] := by simpa [isEmpty] using empty
    have fields : (p.child name).bytes.splitOn slash = [name.bytes] := by
      rw [child_of_isEmpty empty, Bytes.splitOn_of_not_mem name.slash_not_mem]
    have relative : (p.child name).isAbsolute = false := by
      rw [child_isAbsolute]
      simp [isAbsolute, none]
    have nothing : p.components = [] := by
      obtain ⟨bs⟩ := p
      obtain rfl : bs = [] := none
      rfl
    rw [components_eq, nothing]
    simp [lead, relative, fields, name.bytes_ne_dot, component?_name]
  · have filled : p.isEmpty = false := by simpa using empty
    obtain ⟨front, some, fields, own⟩ := exists_fields_child filled name
    -- A slash at the end leaves an empty field, which is no component.
    obtain ⟨back, own, idle⟩ : ∃ back, p.bytes.splitOn slash = front ++ back
        ∧ back.filterMap component? = [] := by
      rcases own with own | own
      · exact ⟨[], by simpa using own, rfl⟩
      · exact ⟨[[]], own, rfl⟩
    rw [components_eq, components_eq p,
      lead_eq_of_fields some (p.child_isAbsolute name) own fields, fields, own]
    simp [idle, component?_name]

theorem components_descend (p : Path) (names : List Name) :
    (p.descend names).components = p.components ++ names.map fun name => .name name.bytes := by
  induction names generalizing p with
  | nil => simp
  | cons name rest ih => simp [ih, components_child]

/-- What lies below a path is found below it. -/
theorem below?_descend (p : Path) (names : List Name) :
    p.below? (p.descend names) = some (names.map fun name => .name name.bytes) := by
  simp [below?, components_descend]

end Path

/-! ## Names of constructs -/

namespace ConstructId

/-- A character that names of constructs are made of. -/
def Allowed (c : Char) : Prop :=
  (isLetter c || isDigit c || c == '_' || c == '-') = true

theorem Allowed.toNat {c : Char} (allowed : Allowed c) :
    45 ≤ c.toNat ∧ c.toNat ≠ 46 ∧ c.toNat ≠ 47 ∧ c.toNat < 0x80 := by
  simp only [Allowed, isLetter, isDigit, Bool.or_eq_true, Bool.and_eq_true, decide_eq_true_eq,
    beq_iff_eq] at allowed
  have bounds : ∀ low high : Char, 47 < low.toNat → high.toNat < 0x80 → low ≤ c → c ≤ high →
      45 ≤ c.toNat ∧ c.toNat ≠ 46 ∧ c.toNat ≠ 47 ∧ c.toNat < 0x80 := by
    intro low high large small above below
    have first : low.toNat ≤ c.toNat := above
    have second : c.toNat ≤ high.toNat := below
    omega
  rcases allowed with ((letter | digit) | rfl) | rfl
  · rcases letter with ⟨above, below⟩ | ⟨above, below⟩
    · exact bounds 'a' 'z' (by decide) (by decide) above below
    · exact bounds 'A' 'Z' (by decide) (by decide) above below
  · exact bounds '0' '9' (by decide) (by decide) digit.1 digit.2
  · decide
  · decide

theorem allowed_of_mem (id : ConstructId) {c : Char} (member : c ∈ id.text.toList) : Allowed c := by
  have follows := id.follows
  cases known : id.text.toList with
  | nil => simp [known] at member
  | cons first rest =>
      rw [known] at follows member
      simp only [brokenRule?] at follows
      split at follows
      · cases follows
      · rename_i start
        split at follows
        · rename_i all
          simp only [Bool.not_eq_true, Bool.not_eq_false', Bool.or_eq_true] at start
          rcases List.mem_cons.mp member with rfl | member
          · simp only [Allowed, Bool.or_eq_true]
            rcases start with letter | under
            · exact Or.inl (Or.inl (Or.inl letter))
            · exact Or.inl (Or.inr under)
          · exact List.all_eq_true.mp all c member
        · cases follows

theorem encode_text (id : ConstructId) :
    Utf8.encode id.text = id.text.toList.map fun c => UInt8.ofNat c.toNat := by
  have ascii : ∀ c ∈ id.text.toList, c.toNat < 0x80 := fun c member =>
    (id.allowed_of_mem member).toNat.2.2.2
  rw [← Utf8.encode_ofList_ascii ascii, String.ofList_toList]

/-- No octet of a name is a dot, a slash or a zero. -/
theorem octet {id : ConstructId} {x : UInt8} (member : x ∈ Utf8.encode id.text) :
    x ≠ dot ∧ x ≠ slash ∧ x ≠ 0 := by
  rw [encode_text] at member
  obtain ⟨c, inside, rfl⟩ := List.mem_map.mp member
  have bounds := (id.allowed_of_mem inside).toNat
  have number : (UInt8.ofNat c.toNat).toNat = c.toNat := by
    rw [UInt8.toNat_ofNat']
    exact Nat.mod_eq_of_lt (by omega)
  refine ⟨?_, ?_, ?_⟩ <;> intro same <;> rw [same] at number <;> simp [dot, slash] at number <;> omega

/-- A name of a construct as the name of an object. -/
def node (id : ConstructId) : Name where
  bytes := Utf8.encode id.text
  valid := by
    have some : Utf8.encode id.text ≠ [] := by
      rw [encode_text]
      intro none
      have follows := id.follows
      rw [List.map_eq_nil_iff.mp none] at follows
      cases follows
    obtain ⟨x, rest, known⟩ := List.exists_cons_of_ne_nil some
    have first : x ≠ dot := (octet (known ▸ List.mem_cons_self)).1
    simp only [isName, Bool.and_eq_true, List.all_eq_true, Bool.not_eq_true', bne_iff_ne, ne_eq]
    refine ⟨⟨⟨by simpa using some, fun x member => ?_⟩, ?_⟩, ?_⟩
    · simpa [Name.isPlain] using (octet member).2
    · rw [known]
      exact fun same => first (List.cons.inj same).1
    · rw [known]
      exact fun same => first (List.cons.inj same).1

theorem ofText?_text (id : ConstructId) : Name.ofText? id.text = some id.node :=
  Name.ofBytes?_bytes id.node

theorem node_inj {a b : ConstructId} (same : a.node = b.node) : a = b := by
  have text : a.text = b.text := Utf8.encode_inj (congrArg Name.bytes same)
  cases a
  cases b
  cases text
  rfl

end ConstructId

/-! ## Directories -/

/-- The names of the directories that every stack has above its assets. -/
def App.stacksNode : Name := ⟨Utf8.encode App.stacksName, by decide +kernel⟩

def Stack.assetsNode : Name := ⟨Utf8.encode Stack.assetsName, by decide +kernel⟩

def Plan.node : Name := ⟨Utf8.encode Plan.fileName, by decide +kernel⟩

def Manifest.node : Name := ⟨Utf8.encode Manifest.fileName, by decide +kernel⟩

theorem App.stackDirectory_eq (app : App) (id : ConstructId) :
    app.stackDirectory id = app.outdir.descend [stacksNode, id.node] := by
  have named : Name.ofText? stacksName = some stacksNode := Name.ofBytes?_bytes stacksNode
  rw [stackDirectory, Path.childText_eq_child named, Path.childText_eq_child id.ofText?_text]
  rfl

theorem App.manifestPath_eq (app : App) : app.manifestPath = app.outdir.child Manifest.node :=
  Path.childText_eq_child (Name.ofBytes?_bytes Manifest.node) _

theorem Stack.planPath_eq (stack : Stack) : stack.planPath = stack.directory.child Plan.node :=
  Path.childText_eq_child (Name.ofBytes?_bytes Plan.node) _

theorem Stack.staging_eq (stack : Stack) (id : ConstructId) :
    stack.staging id = stack.directory.descend [assetsNode, id.node] := by
  have named : Name.ofText? assetsName = some assetsNode := Name.ofBytes?_bytes assetsNode
  rw [staging, Path.childText_eq_child named, Path.childText_eq_child id.ofText?_text]
  rfl

/-- The components of an artifact that is staged below its stack. -/
theorem Stack.relative_eq (stack : Stack) (id : ConstructId) (text : String) {artifact : Artifact}
    {short name : Name} (staged : artifact.staged = ((stack.staging id).child short).child name) :
    stack.relative id text artifact
      = [assetsNode, id.node, short, name].map fun name => .name name.bytes := by
  have path : artifact.staged = stack.directory.descend [assetsNode, id.node, short, name] := by
    rw [staged, staging_eq]
    rfl
  rw [relative, path, Path.below?_descend]

end StackSynth
