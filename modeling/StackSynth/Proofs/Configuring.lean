import StackSynth.CommandLine
import StackSynth.Proofs.Reading

/-!
# Configuring — both commands settle on one configuration

The project file is read in two ways: as a stack file with all of its tables, and for its `app`
table alone.  Where the first reader is content, the second one finds the same layer, so that it
makes no difference for the configuration which command is run.

* `Record.Shows` — a record of which another one reads a part; `readEntries_shows` for whole maps;
* `Configuration.projectLayer_of_load` — the two readers of a project file agree;
* `CommandLine.packageConfiguration`, `synthConfiguration` — what the commands compute first, by
  `invoke_package` and `invoke_synthesize`;
* `CommandLine.configuration_by_priority` — both are equal, and each setting is the first one made.
-/

namespace StackSynth

/-! ## Two records for one map -/

namespace Record

open Reading

variable {δ σ τ α : Type} {record : Record δ σ} {part : Record δ τ} {view : σ → τ}

/-- What `part` reads of a map is what `view` shows of the draft that `record` reads from it. -/
structure Shows (record : Record δ σ) (part : Record δ τ) (view : σ → τ) : Prop where
  shared : ∀ field ∈ part.fields, ∃ whole,
    (record.fields.find? fun other => other.key == field.key) = some whole
      ∧ ∀ d draft, view <$> whole.read d draft = field.read d (view draft)
  apart : ∀ field ∈ record.fields, (∀ own ∈ part.fields, own.key ≠ field.key) →
    ∀ shown, FieldKeeps (fun draft => view draft = shown) field
  record_others : record.others = none
  part_others : part.others = none

section Entry

variable [Data δ] {seen : List String} {key : String} {value : δ} {rest : List (String × δ)}
  {draft last : σ} {keys left : List UnknownKey}

/-- An entry with the key of a field is read by that field, which must not have come before. -/
theorem readEntries_field_ok_iff {own : Field δ σ}
    (known : (record.fields.find? fun field => field.key == key) = some own) :
    record.readEntries seen draft ((key, value) :: rest) keys = .ok (last, left)
      ↔ key ∉ seen ∧ ∃ mid inner, own.read value draft [] = .ok (mid, inner)
        ∧ record.readEntries (key :: seen) mid rest (keys ++ inner.map (key :: ·))
          = .ok (last, left) := by
  by_cases again : key ∈ seen
  · have refused : record.readEntries seen draft ((key, value) :: rest) keys
        = .error (.repeated key) := by
      simp only [readEntries, known, List.contains_eq_mem, again, decide_true, if_true]
      rfl
    rw [refused]
    constructor
    · intro read
      cases read
    · rintro ⟨once, -⟩
      exact absurd again once
  · simp only [readEntries, known, List.contains_eq_mem, again, decide_false, Bool.false_eq_true,
      if_false, not_false_eq_true, true_and]
    constructor
    · intro read
      obtain ⟨⟨mid, middle⟩, began, read⟩ := bind_eq_ok_iff.mp read
      obtain ⟨⟨_, inner⟩, value_read, done⟩ := bind_eq_ok_iff.mp began
      cases done
      exact ⟨mid, inner, value_read, read⟩
    · rintro ⟨mid, inner, value_read, rest_read⟩
      exact bind_eq_ok_iff.mpr ⟨_, bind_eq_ok_iff.mpr ⟨_, value_read, rfl⟩, rest_read⟩

/-- An entry with another key is noted, if no key is taken in. -/
theorem readEntries_noted (unknown : (record.fields.find? fun field => field.key == key) = none)
    (closed : record.others = none) (whole : Data.whole value = true) :
    record.readEntries seen draft ((key, value) :: rest) keys
      = record.readEntries seen draft rest (keys ++ [[key]]) := by
  simp only [readEntries, unknown, closed, whole, if_true]
  rfl

end Entry

/-- Entries that `record` takes are taken by `part`, which passes over the fields it lacks. -/
theorem readEntries_shows [Data δ] (shows : record.Shows part view)
    (whole : ∀ d : δ, Data.whole d = true) {seen seen' : List String} (fewer : seen' ⊆ seen)
    {entries : List (String × δ)} {draft last : σ} {keys left : List UnknownKey}
    (read : record.readEntries seen draft entries keys = .ok (last, left)) (keys' : List UnknownKey) :
    ∃ left', part.readEntries seen' (view draft) entries keys' = .ok (view last, left') := by
  induction entries generalizing seen seen' draft keys keys' with
  | nil =>
      cases read
      exact ⟨keys', rfl⟩
  | cons entry rest ih =>
      obtain ⟨key, value⟩ := entry
      cases own : part.fields.find? fun field => field.key == key with
      | some field =>
          -- The key belongs to both records, and both read the value in the same way.
          have isKey : field.key = key := by simpa using List.find?_some own
          obtain ⟨other, found, same⟩ := shows.shared field (List.mem_of_find?_eq_some own)
          rw [isKey] at found
          obtain ⟨once, mid, inner, value_read, rest_read⟩ :=
            (readEntries_field_ok_iff found).mp read
          have part_read : field.read value (view draft) [] = .ok (view mid, inner) := by
            rw [← same value draft]
            show (other.read value draft []).map _ = _
            rw [value_read]
            rfl
          obtain ⟨left', rest_read'⟩ := ih (List.cons_subset_cons key fewer) rest_read
            (keys' ++ inner.map (key :: ·))
          exact ⟨left', (readEntries_field_ok_iff own).mpr
            ⟨fun again => once (fewer again), view mid, inner, part_read, rest_read'⟩⟩
      | none =>
          -- Whatever `record` does with the key, `part` notes it and goes on.
          rw [readEntries_noted own shows.part_others (whole value)]
          cases found : record.fields.find? fun field => field.key == key with
          | none =>
              rw [readEntries_noted found shows.record_others (whole value)] at read
              exact ih fewer read _
          | some field =>
              obtain ⟨-, mid, inner, value_read, rest_read⟩ :=
                (readEntries_field_ok_iff found).mp read
              have isKey : field.key = key := by simpa using List.find?_some found
              have foreign : ∀ mine ∈ part.fields, mine.key ≠ field.key := by
                intro mine member same
                have other := List.find?_eq_none.mp own mine member
                simp [same, isKey] at other
              have kept : view mid = view draft :=
                shows.apart field (List.mem_of_find?_eq_some found) foreign _ value draft rfl
                  _ _ _ value_read
              rw [← kept]
              exact ih (List.subset_cons_of_subset key fewer) rest_read _

end Record

/-! ## Two readers of one file -/

namespace StackFile

open Record

/-- The `app` table of a draft. -/
def shownLayer (draft : Option String × StackFile) : Layer :=
  draft.2.app

/-- The fields of a stack file other than `app` do not touch the layer. -/
theorem record_shows : StackFile.record.Shows Layer.fileRecord shownLayer where
  shared := by
    intro field member
    obtain rfl := List.mem_singleton.mp member
    refine ⟨_, rfl, fun d draft => ?_⟩
    show shownLayer <$> (Layer.read d >>= fun app => pure (draft.1, { draft.2 with app })) = _
    rw [map_bind]
    rfl
  -- Every field but that of the layer itself leaves the layer of the draft alone.
  apart := by
    intro field member foreign shown
    have notApp := foreign _ List.mem_cons_self
    simp only [record, List.mem_cons, List.not_mem_nil, or_false] at member
    rcases member with rfl | rfl | rfl | rfl | rfl | rfl | rfl
    · exact absurd rfl notApp
    · exact field_keeps (fun d => .any _) fun draft _ known _ => known
    all_goals exact optionalField_keeps (fun d => .any _) fun draft _ known _ => known
  record_others := rfl
  part_others := rfl

end StackFile

namespace Record

/-- A table is read entry by entry, and then finished. -/
theorem read_table_ok_iff {σ α : Type} {record : Record Toml σ} {start : σ}
    {finish : σ → Except Mismatch α} {entries : List (String × Toml)} {keys left : List UnknownKey}
    {value : α} : record.read start finish (.table entries) keys = .ok (value, left)
      ↔ ∃ draft, record.readEntries [] start entries keys = .ok (draft, left)
        ∧ finish draft = .ok value := by
  have shape : Data.shape (Toml.table entries) = .map entries true := rfl
  simp only [read, shape, if_true]
  constructor
  · intro read
    obtain ⟨⟨draft, middle⟩, filled, finished⟩ := bind_eq_ok_iff.mp read
    obtain ⟨last, done, same⟩ := bind_eq_ok_iff.mp finished
    cases same
    exact ⟨draft, filled, done⟩
  · rintro ⟨draft, filled, done⟩
    refine bind_eq_ok_iff.mpr ⟨(draft, left), filled, ?_⟩
    exact bind_eq_ok_iff.mpr ⟨value, done, rfl⟩

end Record

theorem readToml_ok {α : Type} {path : Path} {content : String} {read : Toml → Reading α}
    {value : α} {warnings : List Warning} (done : readToml path content read = .ok (value, warnings)) :
    ∃ document unknown, Toml.parse? content = some document
      ∧ read document [] = .ok (value, unknown) := by
  unfold readToml at done
  cases parsed : Toml.parse? content with
  | none => simp [parsed] at done
  | some document =>
      cases taken : (read document).run with
      | error mismatch => simp [parsed, taken] at done
      | ok result =>
          obtain ⟨made, unknown⟩ := result
          simp only [parsed, taken, Except.ok.injEq, Prod.mk.injEq] at done
          obtain ⟨rfl, -⟩ := done
          exact ⟨document, unknown, rfl, taken⟩

namespace StackFile

open Record

/-- A document is a table. -/
theorem table_of_parse? {content : String} {document : Toml}
    (parsed : Toml.parse? content = some document) : ∃ entries, document = .table entries := by
  simp only [Toml.parse?, Toml.Document.ofStatements?, bind, Option.bind_eq_some_iff, pure,
    Option.some.injEq] at parsed
  obtain ⟨-, -, -, -, entries, -, same⟩ := parsed
  exact ⟨_, same.symm⟩

/-- The `app` table of a stack file, read alone. -/
theorem layer_of_ofText {path base : Path} {content : String} {file : StackFile}
    {warnings : List Warning} (read : ofText path content base = .ok (file, warnings)) :
    ∃ others, readToml path content (Layer.fileRecord.read {} .ok) = .ok (file.app, others) := by
  obtain ⟨document, unknown, parsed, taken⟩ := readToml_ok read
  obtain ⟨entries, rfl⟩ := table_of_parse? parsed
  obtain ⟨draft, filled, finished⟩ := read_table_ok_iff.mp taken
  obtain ⟨name, named, done⟩ := bind_eq_ok_iff.mp finished
  cases done
  obtain ⟨left', shown⟩ :=
    readEntries_shows record_shows (fun _ => rfl) (List.Subset.refl []) filled []
  have alone : Layer.fileRecord.read {} .ok (.table entries) [] = .ok (draft.2.app, left') :=
    read_table_ok_iff.mpr ⟨draft.2.app, shown, rfl⟩
  refine ⟨Warning.ofKeys path content left', ?_⟩
  rw [readToml, parsed]
  simp only [Reading.run, alone]

/-- A file that is empty, or no file at all, declares no stack. -/
theorem ofText_empty {path base : Path} {read : StackFile × List Warning} :
    ofText path "" base ≠ .ok read := by
  intro done
  obtain ⟨document, unknown, parsed, taken⟩ := readToml_ok done
  have nothing : Toml.parse? "" = some (.table []) := by cbv
  obtain rfl := Option.some.inj (parsed.symm.trans nothing)
  cases taken

end StackFile

/-- Text is read from a file; anything else is read as nothing. -/
theorem FileSystem.isFile_of_readText {fs : FileSystem} {path : Path} {content : String}
    (text : fs.readText path = .ok content) : fs.isFile path = true ∨ content = "" := by
  obtain ⟨octets, read, decoded⟩ := bind_eq_ok_iff.mp text
  obtain ⟨⟨found, mode⟩, opened, same⟩ := bind_eq_ok_iff.mp read
  cases same
  obtain ⟨⟨l, object⟩, stat, inner⟩ := bind_eq_ok_iff.mp opened
  cases object with
  | file content mode => exact Or.inl (by rw [isFile, stat])
  | directory => cases inner
  | link | pipe =>
      cases inner
      have nothing : Utf8.decode? [] = some "" := by cbv
      simp only [nothing] at decoded
      cases decoded
      exact Or.inr rfl

namespace Configuration

/-- A stack file that can be loaded is a file, and its `app` table is the layer of the project. -/
theorem projectLayer_of_load {fs : FileSystem} {path : Path} {file : StackFile}
    {warnings : List Warning} (loaded : StackFile.load fs path = .ok (file, warnings)) :
    projectLayer fs path = .ok (some file.app) := by
  unfold StackFile.load at loaded
  cases text : fs.readText path with
  | error fault => simp [text] at loaded
  | ok content =>
      simp only [text] at loaded
      -- What is no file has no layer, but is read as an empty stack file, which is refused.
      have isFile : fs.isFile path = true :=
        (FileSystem.isFile_of_readText text).resolve_right fun none =>
          StackFile.ofText_empty (none ▸ loaded)
      obtain ⟨others, alone⟩ := StackFile.layer_of_ofText loaded
      have layer : Layer.load fs path = .ok (file.app, others) := by
        rw [Layer.load, text]
        exact alone
      rw [projectLayer, isFile, if_pos rfl, layer]
      rfl

/-- Every setting is the first one made, from the variables down to the standard. -/
theorem load_ok_iff {fs : FileSystem} {env : Environment} {project : Option Layer}
    {config : Configuration} {warnings : List Warning} :
    load fs env project = .ok (config, warnings) ↔ ∃ user, userLayer fs env = .ok (user, warnings)
      ∧ config = ((standard.apply user).apply (project.getD {})).apply env.layer := by
  unfold load
  rw [bind_eq_ok_iff]
  constructor
  · rintro ⟨⟨user, _⟩, found, done⟩
    cases done
    exact ⟨user, found, rfl⟩
  · rintro ⟨user, found, rfl⟩
    exact ⟨(user, warnings), found, rfl⟩

/-- The first setting that is made, if any is. -/
def firstSet {α : Type} (settings : List (Option α)) (otherwise : α) : α :=
  (settings.findSome? id).getD otherwise

@[simp] theorem firstSet_nil {α : Type} (otherwise : α) : firstSet [] otherwise = otherwise := rfl

/-- A setting replaces all that come after it. -/
theorem firstSet_cons {α : Type} (setting : Option α) (settings : List (Option α)) (otherwise : α) :
    firstSet (setting :: settings) otherwise = setting.getD (firstSet settings otherwise) := by
  cases setting <;> rfl

/-- Layers that are put in one after the other, seen from the last one. -/
theorem outdir_layers (config : Configuration) (first second third : Layer) :
    (((config.apply first).apply second).apply third).outdir
      = firstSet [third.outdir, second.outdir, first.outdir] config.outdir := by
  simp only [apply, firstSet_cons, firstSet_nil]

theorem log_layers (config : Configuration) (first second third : Layer) :
    (((config.apply first).apply second).apply third).log
      = firstSet [third.log, second.log, first.log] config.log := by
  simp only [apply, firstSet_cons, firstSet_nil]

end Configuration

namespace Environment

/-- A directory is taken from a variable that is not empty. -/
theorem outdir_layer (env : Environment) : env.layer.outdir
    = ((env.get? outdirName).filter fun value => !value.isEmpty).map Path.mk := by
  unfold layer filled?
  cases env.get? outdirName with
  | none => rfl
  | some value => cases value <;> rfl

/-- A log filter is taken from a variable that holds text other than blanks. -/
theorem log_layer (env : Environment) : env.layer.log
    = ((env.get? logName).bind Utf8.decode?).filter fun value => !Text.isBlank value := by
  unfold layer
  cases (env.get? logName).bind Utf8.decode? with
  | none => rfl
  | some value => cases blank : Text.isBlank value <;> simp [Option.filter, blank]

end Environment

/-! ## Two commands -/

namespace CommandLine

open StackSynth.Configuration

theorem ask_bind {α β : Type} (first : FileSystem → Except Failure α)
    (rest : α → FileSystem → Except Failure β) :
    (ask first >>= fun value => ask (rest value))
      = ask fun fs => first fs >>= fun value => rest value fs := by
  funext screen
  simp only [ask, act, Action.query, bind, EStateM.bind, Except.bind]
  cases first screen.fs <;> rfl

/-- The project file, unless another one is named. -/
def projectFile : Path :=
  Path.ofString Arguments.standardFile

/-- What `package` starts with: the configuration, with the `app` table of the project alone. -/
def packageConfiguration (env : Environment) (fs : FileSystem) :
    Except Failure (Configuration × List Warning) :=
  projectLayer fs projectFile >>= fun project => load fs env project

/-- What `synth` starts with: the stack file, and the configuration with its `app` table. -/
def synthConfiguration (env : Environment) (path : Path) (fs : FileSystem) :
    Except Failure ((StackFile × List Warning) × Configuration × List Warning) :=
  StackFile.load fs path >>= fun read =>
    load fs env (some read.1.app) >>= fun settled => .ok (read, settled)

theorem invoke_package (env : Environment) (json verbose : Bool) (source : Path) (type : AssetType)
    (staging : Option Path) (hashOnly : Bool) :
    invoke env ⟨json, verbose, .package source type staging hashOnly⟩ = (do
      let (config, warnings) ← ask (packageConfiguration env)
      checkFilter ⟨json, verbose, .package source type staging hashOnly⟩ config
      warn json warnings
      package json config source type staging hashOnly) := by
  unfold packageConfiguration
  rw [← ask_bind, bind_assoc]
  rfl

theorem invoke_synthesize (env : Environment) (json verbose : Bool) (path : Path)
    (outdir : Option Path) :
    invoke env ⟨json, verbose, .synthesize path outdir⟩ = (do
      let ((file, warnings), config, userWarnings) ← ask (synthConfiguration env path)
      let config := { config with outdir := outdir.getD config.outdir }
      checkFilter ⟨json, verbose, .synthesize path outdir⟩ config
      warn json (warnings ++ userWarnings)
      synthesize json config file) := by
  unfold synthConfiguration
  rw [← ask_bind, bind_assoc]
  show (ask _ >>= _) = _
  congr 1
  funext read
  rw [← ask_bind, bind_assoc]
  rfl

/-- Both commands settle on the same configuration, or fail alike, wherever the project file is one
that `synth` accepts.  The variable for the directory counts unless it is empty, and the one for the
log filter unless it is blank or no text. -/
theorem configuration_by_priority {fs : FileSystem} {env : Environment} {file : StackFile}
    {warnings : List Warning} (accepted : StackFile.load fs projectFile = .ok (file, warnings)) :
    packageConfiguration env fs = (synthConfiguration env projectFile fs).map Prod.snd
      ∧ ∀ config told, packageConfiguration env fs = .ok (config, told) →
        ∃ user, userLayer fs env = .ok (user, told)
          ∧ config.outdir = firstSet
            [((env.get? "TERRASTACK_OUTDIR").filter fun value => !value.isEmpty).map Path.mk,
              file.app.outdir, user.outdir] (Path.ofString "cdktf.out")
          ∧ config.log = firstSet
            [((env.get? "TERRASTACK_LOG").bind Utf8.decode?).filter fun value =>
              !Text.isBlank value, file.app.log, user.log] "warn" := by
  have project : packageConfiguration env fs = load fs env (some file.app) := by
    rw [packageConfiguration, projectLayer_of_load accepted]
    rfl
  constructor
  · rw [project, synthConfiguration, accepted]
    show _ = Except.map _ (load fs env (some file.app) >>= _)
    cases load fs env (some file.app) <;> rfl
  · intro config told settled
    obtain ⟨user, found, rfl⟩ := load_ok_iff.mp (project ▸ settled)
    refine ⟨user, found, ?_, ?_⟩
    · rw [outdir_layers, env.outdir_layer]
      rfl
    · rw [log_layers, env.log_layer]
      rfl

/-! ### Each setting from a layer of its own -/

namespace Layers

def projectName : Name := ⟨Utf8.encode Arguments.standardFile, by decide⟩

def userName : Name := ⟨Utf8.encode "config.toml", by decide⟩

/-- The project chooses where output goes, and the user what is logged. -/
def disk : FileSystem where
  objects :=
    [ ([projectName],
        .file (Utf8.encode "[app]\noutdir = \"p\"\n[stack]\nname = \"s\"\n") 0o644),
      ([userName], .file (Utf8.encode "[app]\noutdir = \"u\"\nlog = \"debug\"\n") 0o644) ]
  current := []

/-- Variables that are set, but do not count: one is empty, one is blank. -/
def surroundings : Environment :=
  [("TERRASTACK_OUTDIR", []), ("TERRASTACK_LOG", [32]), ("TERRASTACK_CONFIG_DIR", [47])]

def file : StackFile where
  app := { outdir := some ⟨[112]⟩ }
  name := "s"
  providers := []
  assets := []
  resources := []
  outputs := []
  modules := []
  base := StackFile.here

theorem accepted : StackFile.load disk projectFile = .ok (file, []) := by cbv

theorem user_found :
    userLayer disk surroundings = .ok (⟨some ⟨[117]⟩, some "debug"⟩, []) := by cbv

theorem settled : packageConfiguration surroundings disk = .ok (⟨⟨[112]⟩, "debug"⟩, []) := by
  rw [packageConfiguration, projectLayer_of_load accepted]
  exact load_ok_iff.mpr ⟨_, user_found, rfl⟩

/-- The project wins over the user where both make a setting. -/
theorem both_settled : StackFile.load disk projectFile = .ok (file, [])
    ∧ (synthConfiguration surroundings projectFile disk).map Prod.snd
      = .ok (⟨⟨[112]⟩, "debug"⟩, [])
    ∧ ∃ user, userLayer disk surroundings = .ok (user, [])
      ∧ (⟨[112]⟩ : Path) = firstSet [none, file.app.outdir, user.outdir] (Path.ofString "cdktf.out")
      ∧ "debug" = firstSet [none, file.app.log, user.log] "warn" := by
  obtain ⟨same, first⟩ := configuration_by_priority accepted
  exact ⟨accepted, same.symm.trans settled, first _ _ settled⟩

end Layers

end CommandLine
end StackSynth
