import StackSynth.Proofs.Staging

/-!
# SharedStaging — a staging directory that many calls fill

A staging directory is filled by calls alone, while anything may happen elsewhere.  What stands
there is what the first call left that was to stage under the same path; all later ones find it
there and leave it.  The path tells the short form of the hash, and so the octets of a payload,
but a file without an extension and a directory have the same path when they have the same octets.

* `Packaging.Filled` — how a staging directory comes about;
* `Packaging.Coherent`, `Filled.coherent` — what every call preserves, and then every run;
* `staged_right_iff` — when a call finds its own payload at the path that it returns.
-/

namespace StackSynth

/-- What the short form of a hash tells: these are not taken for each other. -/
def ContentHash.Apart (a b : Bytes) : Prop :=
  (ofContent a).short? = (ofContent b).short? → a = b

/-- The payload is what a path leads to. -/
def Payload.FoundAt (payload : Payload) (fs : FileSystem) (p : Path) : Prop :=
  ∃ l object, fs.stat p = .ok (l, object) ∧ payload.StandsAt fs l

namespace Payload

variable {fs after : FileSystem} {l : Location} {payload : Payload}

theorem LeftAt.there (left : payload.LeftAt fs l) : fs.get? l ≠ none := by
  cases payload with
  | file content =>
      obtain ⟨mode, stands⟩ := left.stands trivial
      simp [stands]
  | archive members =>
      obtain ⟨content, mode, stands, -⟩ := left.stands trivial
      simp [stands]
  | directory members => simp [left.shape rfl]

/-- What was left does not notice changes elsewhere. -/
theorem LeftAt.frame (left : payload.LeftAt fs l)
    (same : ∀ m, l <:+ m → after.get? m = fs.get? m) : payload.LeftAt after l where
  stands := by
    intro consistent
    have stands := left.stands consistent
    have here := same l (List.suffix_refl l)
    cases payload with
    | file content =>
        obtain ⟨mode, found⟩ := stands
        exact ⟨mode, here.trans found⟩
    | archive members =>
        obtain ⟨content, mode, found, stream⟩ := stands
        exact ⟨content, mode, here.trans found, stream⟩
    | directory members =>
        exact ⟨here.trans stands.1,
          stands.2.moved fun names => same _ (List.suffix_append names l)⟩
  shape := fun isDirectory => (same l (List.suffix_refl l)).trans (left.shape isDirectory)

/-- What was left of one payload is not another one of the same octets. -/
theorem LeftAt.type_eq {first : Payload} (left : first.LeftAt fs l)
    (same : first.octets = payload.octets) (stands : payload.StandsAt fs l) :
    first.type = payload.type := by
  by_contra types
  by_cases consistent : first.Consistent
  · exact not_both types same (left.stands consistent) stands
  · cases first with
    | file content => exact consistent trivial
    | archive members => exact consistent trivial
    | directory members =>
        have directory := left.shape rfl
        cases payload with
        | file content =>
            obtain ⟨mode, found⟩ := stands
            rw [directory] at found
            cases found
        | archive others =>
            obtain ⟨content, mode, found, -⟩ := stands
            rw [directory] at found
            cases found
        | directory others => exact types rfl

end Payload

namespace Packaging

open FileSystem

variable {staging source : Path} {root : Location} {fs mid after : FileSystem}

/-! ## Runs -/

/-- A call that succeeded: what it was to stage, and the path that it returned. -/
structure Call where
  payload : Payload
  staged : Path

/-- Nothing at or below the root changes, and the path still leads there. -/
structure Elsewhere (staging : Path) (root : Location) (fs after : FileSystem) : Prop where
  sound : Sound after
  rooted : Rooted after staging root
  same : ∀ l, root <:+ l → after.get? l = fs.get? l
  found : (∃ left, fs.reach false staging = .ok (left, root)) →
    ∃ left, after.reach false staging = .ok (left, root)

/-- Successful calls have filled the directory `staging`, and nothing else has. -/
inductive Filled (staging : Path) (root : Location) : FileSystem → List Call → Prop
  | begin {fs : FileSystem} : Sound fs → Rooted fs staging root →
      (∀ l, Location.Below root l → fs.get? l = none) → Filled staging root fs []
  | elsewhere {fs after : FileSystem} {calls : List Call} : Filled staging root fs calls →
      Elsewhere staging root fs after → Filled staging root after calls
  | call {fs after : FileSystem} {calls : List Call} {source : Path} {payload : Payload}
      {artifact : Artifact} : Filled staging root fs calls → payload.IsOf fs source →
      package source payload.type staging fs = .ok artifact after →
      Filled staging root after (calls ++ [⟨payload, artifact.staged⟩])

/-- The first call that returned a path. -/
def firstAt (calls : List Call) (staged : Path) : Option Call :=
  calls.find? fun call => decide (call.staged = staged)

/-! ## The invariant -/

/-- What holds after every call. -/
structure Coherent (staging : Path) (root : Location) (fs : FileSystem) (calls : List Call) :
    Prop where
  sound : Sound fs
  rooted : Rooted fs staging root
  plain : Plain fs root
  found : calls ≠ [] → ∃ left, fs.reach false staging = .ok (left, root)
  /-- The path of an artifact tells the short form of its hash. -/
  named : ∀ call ∈ calls, ∃ short name, call.staged = (staging.child short).child name
    ∧ short.bytes = Utf8.encode (String.ofList (ContentHash.shortDigits call.payload.octets))
  /-- Whatever is in a version directory was returned by some call. -/
  known : ∀ short name, fs.get? (name :: short :: root) ≠ none →
    firstAt calls ((staging.child short).child name) ≠ none
  /-- The first call that returned a path left its payload there. -/
  first : ∀ short name call, firstAt calls ((staging.child short).child name) = some call →
    call.payload.LeftAt fs (name :: short :: root)

theorem firstAt_concat (calls : List Call) (call : Call) (staged : Path) :
    firstAt (calls ++ [call]) staged
      = (firstAt calls staged).or (if call.staged = staged then some call else none) := by
  rw [firstAt, List.find?_append, firstAt]
  congr 1
  by_cases same : call.staged = staged <;> simp [same]

/-- Look-ups of what was staged go straight down from the root. -/
theorem Coherent.stat_staged {calls : List Call} (coherent : Coherent staging root fs calls)
    (short name : Name) {l : Location} {object : Object} :
    fs.stat ((staging.child short).child name) = .ok (l, object)
      ↔ Straight fs staging root [short, name] ∧ l = name :: short :: root
        ∧ fs.get? l = some object :=
  coherent.rooted.stat_descend coherent.plain coherent.sound.toWellFormed
    (List.cons_ne_nil short [name])

/-- The names of an artifact are not too long. -/
theorem IsPlace.fit {payload : Payload} {short name : Name}
    (isPlace : IsPlace payload source short name) (fits : name.bytes.length ≤ nameLimit) :
    Fit [short, name] := by
  have first : short.bytes.length ≤ nameLimit := by
    rw [isPlace.short, ContentHash.length_encode_short]
    decide
  simp [Fit, first, fits]

/-! ## Steps keep the invariant -/

variable {calls more : List Call} {payload : Payload} {short name : Name}

theorem Coherent.begin (sound : Sound fs) (rooted : Rooted fs staging root)
    (nothing : ∀ l, Location.Below root l → fs.get? l = none) : Coherent staging root fs [] where
  sound := sound
  rooted := rooted
  plain := by
    intro l object below stands
    rw [nothing l below] at stands
    cases stands
  found := by simp
  named := by simp
  known := fun short name stands =>
    absurd (nothing _ ((Location.below_cons short root).cons name)) stands
  first := by
    intro short name call known
    cases known

theorem Coherent.elsewhere (coherent : Coherent staging root fs calls)
    (elsewhere : Elsewhere staging root fs after) : Coherent staging root after calls where
  sound := elsewhere.sound
  rooted := elsewhere.rooted
  plain := by
    intro l object below stands
    rw [elsewhere.same l below.1] at stands
    exact coherent.plain l object below stands
  found := fun some => elsewhere.found (coherent.found some)
  named := coherent.named
  known := by
    intro short name stands
    rw [elsewhere.same _ ((Location.below_cons short root).cons name).1] at stands
    exact coherent.known short name stands
  first := by
    intro short name call known
    have inside := ((Location.below_cons short root).cons name).1
    exact (coherent.first short name call known).frame fun m within =>
      elsewhere.same m (inside.trans within)

/-- A call is the first one at no other place than its own. -/
theorem firstAt_concat_stagedAt (calls : List Call) (payload : Payload)
    (staging : Path) (short name a b : Name) :
    firstAt (calls ++ [⟨payload, (staging.child short).child name⟩]) ((staging.child a).child b)
      = (firstAt calls ((staging.child a).child b)).or
        (if a = short ∧ b = name then some ⟨payload, (staging.child short).child name⟩ else none) := by
  rw [firstAt_concat]
  congr 1
  by_cases same : a = short ∧ b = name
  · obtain ⟨rfl, rfl⟩ := same
    simp
  · rw [if_neg same, if_neg]
    intro equal
    obtain ⟨rfl, rfl⟩ := Artifact.stagedAt_inj equal
    exact same ⟨rfl, rfl⟩

/-- The paths of artifacts still tell their hashes when there is one more. -/
theorem Coherent.named_concat (coherent : Coherent staging root fs calls)
    (isShort : short.bytes = Utf8.encode (String.ofList (ContentHash.shortDigits payload.octets))) :
    ∀ call ∈ calls ++ [⟨payload, (staging.child short).child name⟩], ∃ short name,
      call.staged = (staging.child short).child name
        ∧ short.bytes = Utf8.encode (String.ofList (ContentHash.shortDigits call.payload.octets)) := by
  intro call member
  rcases List.mem_append.mp member with member | member
  · exact coherent.named call member
  · obtain rfl := List.mem_singleton.mp member
    exact ⟨short, name, rfl, isShort⟩

/-- A call that finds something leaves it. -/
theorem Coherent.call_found (coherent : Coherent staging root fs calls)
    (isShort : short.bytes = Utf8.encode (String.ofList (ContentHash.shortDigits payload.octets)))
    {l : Location} {object : Object}
    (ok : fs.stat ((staging.child short).child name) = .ok (l, object)) :
    Coherent staging root fs (calls ++ [⟨payload, (staging.child short).child name⟩]) := by
  obtain ⟨⟨-, -, left, entered⟩, rfl, stands⟩ := (coherent.stat_staged short name).mp ok
  have known := coherent.known short name (by simp [stands])
  refine ⟨coherent.sound, coherent.rooted, coherent.plain, fun _ => ⟨left, entered⟩,
    coherent.named_concat isShort, ?_, ?_⟩
  · intro a b stands
    obtain ⟨call, first⟩ := Option.ne_none_iff_exists'.mp (coherent.known a b stands)
    simp [firstAt_concat, first]
  · intro a b call first
    rw [firstAt_concat_stagedAt] at first
    cases before : firstAt calls ((staging.child a).child b) with
    | some other =>
        rw [before] at first
        exact coherent.first a b call (before.trans first)
    | none =>
        -- The new call is not the first one at its path.
        rw [before, Option.none_or] at first
        split at first
        · rename_i same
          obtain ⟨rfl, rfl⟩ := same
          exact absurd before known
        · cases first

/-- The directory of a version has been made, or was there. -/
structure Opened (staging : Path) (root : Location) (short : Name) (fs mid : FileSystem) :
    Prop where
  sound : Sound mid
  grown : Grown fs mid
  plain : Plain mid root
  found : ∃ left, mid.reach false staging = .ok (left, root)
  entered : ∃ left, mid.reach false (staging.child short) = .ok (left, short :: root)
  others : ∀ l, Location.Below root l → l ≠ short :: root → mid.get? l = fs.get? l

theorem Coherent.opened (coherent : Coherent staging root fs calls)
    (run : createAll (staging.child short) fs = .ok () mid) : Opened staging root short fs mid := by
  have made := createAll_made coherent.sound (Or.inl ⟨_, run⟩)
  have down : createAll (staging.descend [short]) fs = .ok () mid := run
  obtain ⟨found, entered⟩ := coherent.rooted.createAll_ok coherent.plain coherent.sound
    (List.cons_ne_nil short []) down
  refine ⟨made.sound, made.grown, coherent.plain.grown made.grown, found, entered, ?_⟩
  intro l below other
  rcases made.grown.get? l with same | ⟨nothing, directory⟩
  · exact same
  · exact absurd (coherent.rooted.makes_child coherent.plain below (made.places l nothing directory)) other

/-- At other places of version directories, everything is as it was before the directory was made. -/
theorem Opened.same_elsewhere (opened : Opened staging root short fs mid)
    (staged : Staged payload (name :: short :: root) mid after) {a b : Name} {m : Location}
    (differ : b :: a :: root ≠ name :: short :: root) (within : b :: a :: root <:+ m) :
    after.get? m = fs.get? m := by
  have below : Location.Below root m := ((Location.below_cons a root).cons b).suffix within
  have outside : ¬ name :: short :: root <:+ m :=
    fun same => differ (Location.eq_of_suffix within same rfl)
  have deeper : m ≠ short :: root := by
    rintro rfl
    have length := within.length_le
    simp only [List.length_cons] at length
    omega
  rw [staged.outside m outside, opened.others m below deeper]

/-- A call that finds nothing leaves its own payload. -/
theorem Coherent.call_staged (coherent : Coherent staging root fs calls)
    (opened : Opened staging root short fs mid)
    (isShort : short.bytes = Utf8.encode (String.ofList (ContentHash.shortDigits payload.octets)))
    (nothing : mid.get? (name :: short :: root) = none)
    (staged : Staged payload (name :: short :: root) mid after) :
    Coherent staging root after (calls ++ [⟨payload, (staging.child short).child name⟩]) where
  sound := staged.sound
  rooted := by
    have inside : Location.Below root (name :: short :: root) :=
      (Location.below_cons short root).cons name
    refine coherent.rooted.grown ⟨staged.current.trans opened.grown.current, fun l away => ?_⟩
    rw [staged.outside l fun within => away (inside.suffix within)]
    exact opened.grown.get? l
  plain := by
    intro l object below stands
    by_cases within : name :: short :: root <:+ l
    · exact staged.plain_within within stands
    · rw [staged.outside l within] at stands
      exact opened.plain l object below stands
  found := by
    obtain ⟨left, entered⟩ := opened.found
    exact fun _ => ⟨left, reach_extends (staged.extends nothing) entered⟩
  named := coherent.named_concat isShort
  known := by
    intro a b stands
    rw [firstAt_concat_stagedAt]
    by_cases same : a = short ∧ b = name
    · simp [same]
    · have differ : b :: a :: root ≠ name :: short :: root := by
        simpa [and_comm] using same
      rw [opened.same_elsewhere staged differ (List.suffix_refl _)] at stands
      obtain ⟨call, first⟩ := Option.ne_none_iff_exists'.mp (coherent.known a b stands)
      simp [first]
  first := by
    intro a b call first
    rw [firstAt_concat_stagedAt] at first
    cases before : firstAt calls ((staging.child a).child b) with
    | some other =>
        rw [before, Option.some_or] at first
        cases first
        have left := coherent.first a b call before
        by_cases same : b :: a :: root = name :: short :: root
        · -- What is found was not to be there.
          have there := left.there
          rw [same, ← opened.others _ ((Location.below_cons short root).cons name) (by simp),
            nothing] at there
          exact absurd rfl there
        · exact left.frame fun m within => opened.same_elsewhere staged same within
    | none =>
        rw [before, Option.none_or] at first
        split at first
        · rename_i same
          obtain ⟨rfl, rfl⟩ := same
          cases first
          exact staged.left
        · cases first

theorem Coherent.call (coherent : Coherent staging root fs calls) (isOf : payload.IsOf fs source)
    {artifact : Artifact} (run : package source payload.type staging fs = .ok artifact after) :
    Coherent staging root after (calls ++ [⟨payload, artifact.staged⟩])
      ∧ ∃ place, after.stat artifact.staged = .ok place := by
  obtain ⟨short, name, isPlace, path, -, outcome⟩ := package_ok isOf run
  rw [path] at outcome ⊢
  rcases outcome with ⟨there, rfl⟩ | ⟨missing, entries, mid, examined, made, run⟩
  · -- The artifact is there.
    unfold FileSystem.exists? at there
    cases found : after.stat ((staging.child short).child name) with
    | error fault => simp [found] at there
    | ok place =>
        obtain ⟨l, object⟩ := place
        exact ⟨coherent.call_found isPlace.short found, (l, object), rfl⟩
  · have opened := coherent.opened made
    obtain ⟨spelled, fits⟩ := stage_spelled opened.sound run
    obtain ⟨left, entered⟩ := opened.entered
    have nothing : mid.get? (name :: short :: root) = none := by
      cases stands : mid.get? (name :: short :: root) with
      | none => rfl
      | some object =>
          -- Had something stood there, it would have been found.
          rw [opened.others _ ((Location.below_cons short root).cons name) (by simp)] at stands
          obtain ⟨call, first⟩ :=
            Option.ne_none_iff_exists'.mp (coherent.known short name (by simp [stands]))
          obtain ⟨links, found⟩ := coherent.found (by rintro rfl; cases first)
          have ok := (coherent.stat_staged short name).mpr
            ⟨⟨spelled, isPlace.fit fits, links, found⟩, rfl, stands⟩
          simp [FileSystem.exists?, ok] at missing
    have staged := stage_ok opened.sound coherent.sound.toWellFormed opened.grown.toExtends entered
      isOf examined run
    have coherent' := coherent.call_staged opened isPlace.short nothing staged
    obtain ⟨object, stands⟩ := Option.ne_none_iff_exists'.mp staged.there
    have straight : Straight after staging root [short, name] :=
      ⟨spelled, isPlace.fit fits, coherent'.found (by simp)⟩
    exact ⟨coherent', (name :: short :: root, object),
      (coherent'.stat_staged short name).mpr ⟨straight, rfl, stands⟩⟩

theorem Filled.coherent (filled : Filled staging root fs calls) : Coherent staging root fs calls := by
  induction filled with
  | begin sound rooted nothing => exact .begin sound rooted nothing
  | elsewhere _ elsewhere ih => exact ih.elsewhere elsewhere
  | call _ isOf run ih => exact (ih.call isOf run).1

/-- The path of a call tells the short form of its hash. -/
theorem Coherent.short_eq (coherent : Coherent staging root fs (calls ++ more)) {call : Call}
    (member : call ∈ calls) (path : call.staged = (staging.child short).child name)
    (isShort : short.bytes = Utf8.encode (String.ofList (ContentHash.shortDigits payload.octets))) :
    (ContentHash.ofContent call.payload.octets).short?
      = (ContentHash.ofContent payload.octets).short? := by
  obtain ⟨short', name', path', isShort'⟩ :=
    coherent.named call (List.mem_append_left more member)
  obtain ⟨rfl, -⟩ := Artifact.stagedAt_inj (path.symm.trans path')
  rw [isShort] at isShort'
  rw [ContentHash.short?_ofContent, ContentHash.short?_ofContent, Utf8.encode_inj isShort']

end Packaging

/-! ## What a call finds -/

open Packaging in
/-- Among payloads that are told apart by the short forms of their hashes, a call finds its own
payload at the path that it returns if and only if the first call to return this path was of the
same type, and no two members of a directory have one name. -/
theorem staged_right_iff {staging source : Path} {root : Location} {fs after : FileSystem}
    {calls : List Call} {payload : Payload} {artifact : Artifact}
    (filled : Filled staging root fs calls) (isOf : payload.IsOf fs source)
    (run : package source payload.type staging fs = .ok artifact after)
    (apart : ∀ call ∈ calls, ContentHash.Apart call.payload.octets payload.octets)
    (fits : payload.Fits ∧ ∀ call ∈ calls, call.payload.Fits) :
    payload.FoundAt after artifact.staged ↔ payload.Consistent ∧
      ∀ first, firstAt calls artifact.staged = some first → first.payload.type = payload.type := by
  obtain ⟨coherent, place, ok⟩ := filled.coherent.call isOf run
  obtain ⟨short, name, path, isShort⟩ := coherent.named ⟨payload, artifact.staged⟩ (by simp)
  dsimp only at path isShort
  rw [path] at ok coherent ⊢
  obtain ⟨-, there, -⟩ := (coherent.stat_staged short name).mp ok
  -- The returned path leads to one location, so the payload is found if it stands there.
  have found : payload.FoundAt after ((staging.child short).child name)
      ↔ payload.StandsAt after (name :: short :: root) := by
    rw [← there]
    constructor
    · rintro ⟨l, object, ok', stands⟩
      obtain rfl := Except.ok.inj (ok.symm.trans ok')
      exact stands
    · exact fun stands => ⟨place.1, place.2, ok, stands⟩
  have first := coherent.first short name
  rw [firstAt_concat] at first
  rw [found]
  cases before : firstAt calls ((staging.child short).child name) with
  | none =>
      have left := first ⟨payload, (staging.child short).child name⟩ (by simp [before])
      simp only [reduceCtorEq, false_implies, implies_true, and_true]
      exact ⟨Payload.StandsAt.consistent, left.stands⟩
  | some call =>
      have left := first call (by simp [before])
      have member := List.mem_of_find?_eq_some before
      -- Under this short form the hashes told apart leave no other octets.
      have octets : call.payload.octets = payload.octets :=
        apart call member (coherent.short_eq member (by simpa using List.find?_some before) isShort)
      simp only [Option.some.injEq, forall_eq']
      constructor
      · exact fun stands => ⟨stands.consistent, left.type_eq octets stands⟩
      · rintro ⟨consistent, types⟩
        have same := Payload.eq_of_octets_eq (fits.2 call member) fits.1 types octets
        rw [same] at left
        exact left.stands consistent

/-! ## An empty directory and an empty file -/

namespace EmptyPair

/-- The directory `d` with nothing in it, and the file `e` with nothing in it. -/
def start : FileSystem where
  objects := [([⟨[100], by decide⟩], .directory), ([⟨[101], by decide⟩], .file [] 0o644)]
  current := []

/-- The short form of the hash of nothing. -/
def short : Name := ⟨Utf8.encode "e3b0c44298fc1c14", by cbv⟩

/-- The directory `s`. -/
def staging : Path := ⟨[115]⟩

def root : Location := [⟨[115], by decide⟩]

/-- After the directory was staged. -/
def staged : FileSystem where
  objects := [(short :: short :: root, .directory), (short :: root, .directory), (root, .directory),
    ([⟨[100], by decide⟩], .directory), ([⟨[101], by decide⟩], .file [] 0o644)]
  current := []

theorem ofContent_nil : ContentHash.ofContent []
    = ⟨"sha256:e3b0c44298fc1c149afbf4c8996fb92427ae41e4649b934ca495991b7852b855"⟩ := by
  decide +kernel

theorem shortOf_nil : shortOf (ContentHash.ofContent []) = .ok "e3b0c44298fc1c14" := by
  rw [ofContent_nil]
  cbv

open Packaging

def path : Path := (staging.childText "e3b0c44298fc1c14").childText "e3b0c44298fc1c14"

def artifact : Artifact := ⟨ContentHash.ofContent [], "e3b0c44298fc1c14", path⟩

theorem collect_directory : Listing.collect start ⟨[100]⟩ = .ok [] := by
  have loaded : IgnoreRules.load start ⟨[100]⟩ = .ok .none := by cbv
  have found : start.stat ⟨[100]⟩ = .ok ([⟨[100], by decide⟩], .directory) := by cbv
  have inside : start.children [⟨[100], by decide⟩] = [] := by cbv
  simp [Listing.collect, loaded, found, inside, Listing.walk, Except.mapError, bind, Except.bind,
    pure, Except.pure]

theorem examine_empty : examine start ⟨[100]⟩ .directory = .ok ([], ContentHash.ofContent []) := by
  have checked : checkSource start ⟨[100]⟩ .directory = .ok () := by cbv
  simp only [examine, checked, collect_directory, bind, Except.bind]
  rfl

theorem package_directory :
    package ⟨[100]⟩ .directory staging start = .ok artifact staged := by
  have missing : start.exists? path = false := by cbv
  have made : stageIn ⟨[100]⟩ .directory [] (staging.childText "e3b0c44298fc1c14") path start
      = .ok () staged := by
    unfold stageIn stage
    cbv
  exact package_new examine_empty shortOf_nil (by cbv) rfl missing made

theorem read_file : staged.read ⟨[101]⟩ = .ok [] := by cbv

theorem package_file : package ⟨[101]⟩ .file staging staged = .ok artifact staged := by
  have checked : checkSource staged ⟨[101]⟩ .file = .ok () := by cbv
  have examined : examine staged ⟨[101]⟩ .file = .ok ([], ContentHash.ofContent []) := by
    have digest : digestFile staged ⟨[101]⟩ = .ok (ContentHash.ofContent []) := by
      rw [digestFile, read_file]
    simp only [examine, checked, digest, bind, Except.bind]
    rfl
  have there : staged.exists? path = true := by cbv
  refine Action.bind_ok_iff.mpr ⟨_, _, Action.query_ok_iff.mpr ⟨examined, rfl⟩, ?_⟩
  refine Action.bind_ok_iff.mpr ⟨_, _, Action.ofExcept_ok_iff.mpr ⟨shortOf_nil, rfl⟩, ?_⟩
  exact Action.bind_ok_iff.mpr ⟨true, _, Action.query_ok_iff.mpr ⟨congrArg Except.ok there, rfl⟩, rfl⟩

theorem begun : Filled staging root start [] := by
  have once : (start.objects.map (·.1)).Nodup := by decide
  refine .begin ⟨.of_objects once (by decide), rfl⟩ ?_ ?_
  · exact .of_name (by cbv) (by cbv) (by decide) (Or.inl (by cbv))
  · exact fun l below => FileSystem.none_of_objects once (by decide) below

/-- The first call finds the directory that it was to stage. -/
theorem directory_found : (Payload.directory []).FoundAt staged artifact.staged := by
  have fits : (Payload.directory []).Fits ∧ ∀ call ∈ ([] : List Call), call.payload.Fits := by
    simp [Payload.Fits]
  refine (staged_right_iff begun (.directory collect_directory rfl) package_directory (by simp)
    fits).mpr ⟨?_, ?_⟩
  · simp [Payload.Consistent, Member.Consistent]
  · intro first known
    cases known

/-- The second call finds the directory, too, though it was to stage a file. -/
theorem file_not_found : ¬ ∀ (staging source : Path) (root : Location) (fs after : FileSystem)
    (calls : List Call) (payload : Payload) (artifact : Artifact), Filled staging root fs calls →
    payload.IsOf fs source → package source payload.type staging fs = .ok artifact after →
    (∀ call ∈ calls, ContentHash.Apart call.payload.octets payload.octets) →
    payload.FoundAt after artifact.staged := by
  intro claim
  have filled : Filled staging root staged [⟨.directory [], path⟩] :=
    begun.call (.directory collect_directory rfl) package_directory
  have apart : ∀ call ∈ [Call.mk (.directory []) path],
      ContentHash.Apart call.payload.octets (Payload.file []).octets := by
    intro call member
    obtain rfl := List.mem_singleton.mp member
    exact fun _ => rfl
  obtain ⟨l, object, ok, mode, stands⟩ := claim staging ⟨[101]⟩ root staged staged _ (.file [])
    artifact filled (.file read_file) package_file apart
  have found : staged.stat path = .ok (short :: short :: root, .directory) := by cbv
  obtain ⟨rfl, rfl⟩ := Prod.mk.inj (Except.ok.inj (found.symm.trans ok))
  have directory : staged.get? (short :: short :: root) = some .directory := by cbv
  rw [directory] at stands
  cases stands

end EmptyPair

end StackSynth
