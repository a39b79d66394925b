import StackSynth.CommandLine
import StackSynth.Proofs.SharedStaging

/-!
# Hashing — a hash without an artifact

A source is hashed on its own by a computation apart from packaging, which stages nothing.  Both
fail alike, and both find the same hash; what packaging does with it is to name the artifact.

* `CommandLine.Quiet` — parts of a run that leave the file system alone, with one law each;
* `CommandLine.run_hashOnly` — nothing changes when only a hash is asked for;
* `Packaging.package_names`, `package_of_hash_error` — what packaging makes of a hash, and
  `package_found` for an artifact that is there;
* `Packaging.hash_agrees` — all of this at once.
-/

namespace StackSynth

/-! ## Runs that leave the file system alone -/

namespace CommandLine

variable {α β : Type}

/-- What a part leaves, however it ends. -/
def left : EStateM.Result Trouble Screen α → Screen
  | .ok _ screen => screen
  | .error _ screen => screen

/-- The part may speak, but the file system stays as it is. -/
def Quiet (part : Part α) : Prop :=
  ∀ screen, (left (part screen)).fs = screen.fs

theorem Quiet.pure (value : α) : Quiet (pure value) := fun _ => rfl

theorem Quiet.bind {part : Part α} {rest : α → Part β} (one : Quiet part)
    (other : ∀ value, Quiet (rest value)) : Quiet (part >>= rest) := by
  intro screen
  show (left (EStateM.bind part rest screen)).fs = screen.fs
  have first := one screen
  unfold EStateM.bind
  cases ran : part screen with
  | ok value mid =>
      rw [ran] at first
      exact (other value mid).trans first
  | error trouble mid =>
      rw [ran] at first
      exact first

theorem quiet_say (text : String) : Quiet (say text) := fun _ => rfl

theorem quiet_complain (text : String) : Quiet (complain text) := fun _ => rfl

/-- A question is answered without a change. -/
theorem quiet_ask (query : FileSystem → Except Failure α) : Quiet (ask query) := by
  intro screen
  unfold ask act Action.query
  cases query screen.fs <;> rfl

theorem quiet_checkFilter (invocation : Invocation) (config : Configuration) :
    Quiet (checkFilter invocation config) := by
  unfold checkFilter
  split
  · exact quiet_complain _
  · exact .pure ()

theorem quiet_warn (json : Bool) (warnings : List Warning) : Quiet (warn json warnings) := by
  induction warnings with
  | nil => exact .pure ()
  | cons warning rest ih =>
      cases json with
      | true => exact .bind (quiet_say _) fun _ => ih
      | false => exact .bind (quiet_complain _) fun _ => ih

/-- Where only a hash is asked for, there are questions and messages, and nothing else. -/
theorem quiet_hashOnly (env : Environment) (json verbose : Bool) (source : Path) (type : AssetType)
    (staging : Option Path) :
    Quiet (invoke env ⟨json, verbose, .package source type staging true⟩) := by
  refine .bind (quiet_ask _) fun project => .bind (quiet_ask _) fun (config, warnings) => ?_
  refine .bind (quiet_checkFilter _ config) fun _ => .bind (quiet_warn json warnings) fun _ => ?_
  exact .bind (quiet_ask _) fun hash => quiet_say _

theorem run_hashOnly {arguments : List String} {json verbose : Bool} {source : Path}
    {type : AssetType} {staging : Option Path}
    (parsed : Arguments.parse arguments
      = .run ⟨json, verbose, .package source type staging true⟩)
    (env : Environment) (fs : FileSystem) : (run arguments env fs).fs = fs := by
  have quiet := quiet_hashOnly env json verbose source type staging ⟨fs, "", ""⟩
  unfold run
  rw [parsed]
  simp only
  split <;> (next ended => rw [ended] at quiet; exact quiet)

end CommandLine

/-! ## Hashes and artifacts -/

namespace Packaging

open FileSystem

variable {fs after : FileSystem} {source staging : Path} {type : AssetType}

/-- What cannot be hashed is not packaged, and the first thing wrong is told by both. -/
theorem package_of_hash_error {e : Failure} (failed : Packaging.hash fs source type = .error e) :
    package source type staging fs = .error e fs := by
  have examined : examine fs source type = .error e := by
    rw [hash_eq] at failed
    cases examined : examine fs source type with
    | error found => simpa [examined, Except.map] using failed
    | ok found => simp [examined, Except.map] at failed
  exact Action.bind_error_iff.mpr (Or.inl (Action.query_error_iff.mpr ⟨examined, rfl⟩))

/-- What is not found is told to be missing. -/
theorem package_missing (missing : fs.stat source = .error .notFound) :
    package source type staging fs = .error (.pathNotFound source) fs := by
  refine package_of_hash_error ?_
  simp only [Packaging.hash, checkSource, missing, bind, Except.bind]

/-- The artifact is named by the hash of the source, at the place of that name. -/
theorem package_names {artifact : Artifact}
    (packaged : package source type staging fs = .ok artifact after) :
    Packaging.hash fs source type = .ok artifact.hash ∧ ∃ short, shortOf artifact.hash = .ok short
      ∧ artifact.fileName = Artifact.nameFor short type source
      ∧ artifact.staged = (staging.childText short).childText artifact.fileName := by
  obtain ⟨entries, short, examined, known, fileName, staged, -⟩ := package_steps packaged
  exact ⟨hash_eq_ok_iff.mpr ⟨entries, examined⟩, short, known, fileName, staged⟩

/-- A source with the same hash is packaged again as long as the artifact is found. -/
theorem package_found {last : FileSystem} {artifact : Artifact}
    (packaged : package source type staging fs = .ok artifact after)
    (hashed : Packaging.hash last source type = .ok artifact.hash)
    (there : last.exists? artifact.staged = true) :
    package source type staging last = .ok artifact last := by
  obtain ⟨-, short, known, fileName, path⟩ := package_names packaged
  obtain ⟨entries, examined⟩ := hash_eq_ok_iff.mp hashed
  obtain ⟨hash, _, _⟩ := artifact
  simp only at fileName path
  subst fileName
  subst path
  refine Action.bind_ok_iff.mpr ⟨_, _, Action.query_ok_iff.mpr ⟨examined, rfl⟩, ?_⟩
  refine Action.bind_ok_iff.mpr ⟨_, _, Action.ofExcept_ok_iff.mpr ⟨known, rfl⟩, ?_⟩
  exact Action.bind_ok_iff.mpr ⟨true, last, Action.query_ok_iff.mpr ⟨congrArg _ there, rfl⟩, rfl⟩

/-- Hashing tells what packaging would do: it fails with the same failure, before anything is
changed, or it gives the hash that names the artifact.  It changes nothing itself. -/
theorem hash_agrees (fs : FileSystem) (source : Path) (type : AssetType) (staging : Path) :
    (∀ e, Packaging.hash fs source type = .error e →
      package source type staging fs = .error e fs)
    ∧ (∀ artifact after, package source type staging fs = .ok artifact after →
      Packaging.hash fs source type = .ok artifact.hash
        ∧ ∃ short, shortOf artifact.hash = .ok short
          ∧ artifact.fileName = Artifact.nameFor short type source
          ∧ artifact.staged = (staging.childText short).childText artifact.fileName)
    ∧ ∀ arguments env json verbose asked,
      Arguments.parse arguments = .run ⟨json, verbose, .package source type asked true⟩ →
        (CommandLine.run arguments env fs).fs = fs :=
  ⟨fun _ => package_of_hash_error, fun _ _ => package_names,
    fun _ env _ _ _ parsed => CommandLine.run_hashOnly parsed env fs⟩

/-- A directory with nothing in it has the hash of its artifact, and what is missing has none. -/
theorem hash_agrees_empty :
    Packaging.hash EmptyPair.start ⟨[100]⟩ .directory = .ok EmptyPair.artifact.hash
    ∧ package ⟨[102]⟩ .file EmptyPair.staging EmptyPair.start
      = .error (.pathNotFound ⟨[102]⟩) EmptyPair.start
    ∧ (CommandLine.run ["package", "--hash-only", "f"] [] EmptyPair.start).fs = EmptyPair.start := by
  have missing : Packaging.hash EmptyPair.start ⟨[102]⟩ .file = .error (.pathNotFound ⟨[102]⟩) := by
    cbv
  have parsed : Arguments.parse ["package", "--hash-only", "f"]
      = .run ⟨false, false, .package ⟨[102]⟩ .archive none true⟩ := by
    cbv
  obtain ⟨fails, -, -⟩ := hash_agrees EmptyPair.start ⟨[102]⟩ .file EmptyPair.staging
  obtain ⟨-, -, quiet⟩ := hash_agrees EmptyPair.start ⟨[102]⟩ .archive EmptyPair.staging
  obtain ⟨-, names, -⟩ := hash_agrees EmptyPair.start ⟨[100]⟩ .directory EmptyPair.staging
  exact ⟨(names _ _ EmptyPair.package_directory).1, fails _ missing, quiet _ _ _ _ _ parsed⟩

end Packaging
end StackSynth
