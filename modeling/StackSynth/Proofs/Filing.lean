import StackSynth.Proofs.Places
import StackSynth.Proofs.Placing

/-!
# Filing — documents written one after another

A document is written into the directory that its path enters, whatever links lead there, and
writing another one later moves no directory: whoever still gets into the directory finds the same
one.  So a document that was written is found again unless its directory can no longer be entered,
or a later document took its place.

* `Filing` — a document, and where it is to stand;
* `Filing.write_ok` — one document;
* `Filing.writeAll_ok` — several documents;
* `Filing.writeAll_last` — what is found of a document to whose place no later one was written;
* `Filing.writeAll_same` — what is found of documents that share a place.
-/

namespace StackSynth

open FileSystem

namespace FileSystem

variable {fs mid after : FileSystem} {p : Path} {name : Name} {l : Location} {content : Bytes}
  {mode : Nat}

/-- The path can be walked, and leads to the directory `l`. -/
def Enters (fs : FileSystem) (p : Path) (l : Location) : Prop :=
  ∃ left, fs.reach false p = .ok (left, l)

/-- Where a path leads, it led before, if only to a directory that was yet to be made. -/
def Recalls (fs after : FileSystem) : Prop :=
  ∀ (p : Path) (at' : Nat × Location), after.reach true p = .ok at' → fs.reach true p = .ok at'

theorem Recalls.trans (first : Recalls fs mid) (second : Recalls mid after) : Recalls fs after :=
  fun p at' reached => first p at' (second p at' reached)

theorem Made.recalls (made : Made p fs after) : Recalls fs after := by
  intro q at' reached
  rw [← reach_grown made.grown]
  exact reached

theorem Placed.recalls (placed : Placed l content mode fs after) : Recalls fs after := by
  have fileAt : FileAt l fs after := by
    refine ⟨placed.current, ⟨content, mode, ?_⟩, fun m away => ?_⟩
    · rw [placed.objects, if_pos rfl]
    · rw [placed.objects, if_neg away]
  exact fun _ _ reached => fileAt.reach reached

/-- A file is read where it stands. -/
theorem readFile_child (spelled : WellSpelled (p.child name)) (fits : name.bytes.length ≤ nameLimit)
    (entered : fs.Enters p l) (stands : fs.get? (name :: l) = some (.file content mode))
    (canRead : readable mode = true) : fs.readFile (p.child name) = .ok (content, mode) := by
  obtain ⟨left, reached⟩ := entered
  have found : fs.stat (p.child name) = .ok (name :: l, .file content mode) := by
    rw [stat_child spelled reached, walk, if_neg (Nat.not_lt_of_le fits), stands]
    rfl
  exact readFile_of_stat found canRead

/-- What is read below a directory is read in it. -/
theorem enters_of_readFile {found : Bytes × Nat} (read : fs.readFile (p.child name) = .ok found) :
    ∃ l, fs.Enters p l := by
  obtain ⟨place, there, -⟩ := bind_eq_ok_iff.mp read
  obtain ⟨-, left, l, reached⟩ := reach_of_stat_child there
  exact ⟨l, left, reached⟩

theorem readFile_of_readText {text : String} (read : fs.readText p = .ok text) :
    ∃ found, fs.readFile p = .ok found := by
  obtain ⟨_, octets, -⟩ := bind_eq_ok_iff.mp read
  obtain ⟨found, file, -⟩ := bind_eq_ok_iff.mp octets
  exact ⟨found, file⟩

theorem readText_of_readFile {text : String} (file : fs.readFile p = .ok (Utf8.encode text, mode)) :
    fs.readText p = .ok text := by
  refine bind_eq_ok_iff.mpr ⟨Utf8.encode text, bind_eq_ok_iff.mpr ⟨_, file, rfl⟩, ?_⟩
  rw [Utf8.decode?_encode]
  rfl

end FileSystem

/-- A document that is to stand in a directory under a name. -/
structure Filing where
  directory : Path
  name : Name
  document : Json

namespace Filing

def path (filing : Filing) : Path :=
  filing.directory.child filing.name

def content (filing : Filing) : Bytes :=
  App.documentFile filing.document

def writeAll : List Filing → Action Failure Unit
  | [] => pure ()
  | filing :: rest => do
      App.writeDocument filing.path filing.document
      writeAll rest

theorem writeAll_append (front back : List Filing) :
    writeAll (front ++ back) = (do writeAll front; writeAll back) := by
  induction front with
  | nil => rfl
  | cons filing rest ih => simp only [List.cons_append, writeAll, ih, bind_assoc]

/-! ## One document -/

variable {fs mid after : FileSystem} {filing other : Filing} {filings : List Filing}
  {place : Location} {places : List Location}

/-- The document was written to the place, which is where its directory leads if it leads
anywhere. -/
structure At (filing : Filing) (place : Location) (fs : FileSystem) : Prop where
  spelled : WellSpelled filing.path
  fits : filing.name.bytes.length ≤ nameLimit
  named : place.head? = some filing.name
  leads : ∀ {left l}, fs.reach true filing.directory = .ok (left, l) → place = filing.name :: l

theorem At.recalled (known : filing.At place fs) (recalls : Recalls fs after) :
    filing.At place after :=
  ⟨known.spelled, known.fits, known.named, fun reached => known.leads (recalls _ _ reached)⟩

theorem At.entered (known : filing.At place fs) {l : Location}
    (entered : fs.Enters filing.directory l) : place = filing.name :: l := by
  obtain ⟨left, reached⟩ := entered
  exact known.leads (enter_lenient reached)

theorem At.readFile (known : filing.At place fs) {l : Location} {content : Bytes}
    (entered : fs.Enters filing.directory l) (stands : fs.get? place = some (.file content 0o600)) :
    fs.readFile filing.path = .ok (content, 0o600) := by
  rw [known.entered entered] at stands
  exact readFile_child known.spelled known.fits entered stands (by decide)

/-- A document stands in its place, and whatever stood elsewhere still does. -/
structure Written (filing : Filing) (place : Location) (fs after : FileSystem) : Prop where
  sound : Sound after
  recalls : Recalls fs after
  known : filing.At place after
  stands : after.get? place = some (.file filing.content 0o600)
  kept : ∀ {l object}, l ≠ place → fs.get? l = some object → after.get? l = some object

theorem write_ok (sound : Sound fs)
    (run : App.writeDocument filing.path filing.document fs = .ok () after) :
    ∃ place, Written filing place fs after := by
  have written := Action.mapError_ok_iff.mp run
  rw [writeAtomically_eq] at written
  obtain ⟨mid, left, l, bytes, mode, made, reached, spelled, fits, ⟨_, _, content⟩, placed⟩ :=
    placeAtomically_ok sound written
  obtain ⟨rfl, rfl⟩ := Prod.mk.inj (Except.ok.inj content)
  refine ⟨filing.name :: l, placed.sound, made.recalls.trans placed.recalls, ?_, ?_, ?_⟩
  · refine ⟨spelled, fits, rfl, fun {left' l'} reached' => ?_⟩
    -- The directory was entered while the document was written.
    have before := placed.recalls _ _ reached'
    rw [FileSystem.reach, enter_lenient reached] at before
    obtain ⟨-, rfl⟩ := Prod.mk.inj (Except.ok.inj before)
    rfl
  · rw [placed.objects, if_pos rfl]
    rfl
  · intro m object away stands
    rw [placed.objects, if_neg away]
    exact made.grown.objects stands

/-! ## Several documents -/

/-- Every document was written to its place, where it still is unless another one was written to
the same place after it. -/
structure AllWritten (written : List (Filing × Location)) (fs after : FileSystem) : Prop where
  sound : Sound after
  recalls : Recalls fs after
  known : ∀ pair ∈ written, pair.1.At pair.2 after
  kept : ∀ {l object}, l ∉ written.map Prod.snd → fs.get? l = some object →
    after.get? l = some object
  some : ∀ place ∈ written.map Prod.snd, ∃ content,
    after.get? place = Option.some (.file content 0o600)
  last : ∀ {front pair back}, written = front ++ pair :: back → pair.2 ∉ back.map Prod.snd →
    after.get? pair.2 = Option.some (.file pair.1.content 0o600)

theorem writeAll_ok (sound : Sound fs) (run : writeAll filings fs = .ok () after) :
    ∃ written, written.map Prod.fst = filings ∧ AllWritten written fs after := by
  induction filings generalizing fs with
  | nil =>
      obtain ⟨-, rfl⟩ := Action.pure_ok_iff.mp run
      exact ⟨[], rfl, sound, fun _ _ reached => reached, by simp, fun _ stands => stands, by simp,
        by simp⟩
  | cons filing rest ih =>
      obtain ⟨_, mid, first, run⟩ := Action.bind_ok_iff.mp run
      obtain ⟨place, own⟩ := write_ok sound first
      obtain ⟨written, rfl, others⟩ := ih own.sound run
      refine ⟨(filing, place) :: written, rfl, others.sound, own.recalls.trans others.recalls,
        ?_, ?_, ?_, ?_⟩
      · exact List.forall_mem_cons.mpr ⟨own.known.recalled others.recalls, others.known⟩
      · intro l object away stands
        obtain ⟨other, away⟩ := not_or.mp (List.mem_cons.not.mp away)
        exact others.kept away (own.kept other stands)
      · refine List.forall_mem_cons.mpr ⟨?_, others.some⟩
        -- Written again, a place holds what the later filing left.
        by_cases again : place ∈ written.map Prod.snd
        · exact others.some place again
        · exact ⟨_, others.kept again own.stands⟩
      · intro front pair back parts later
        cases front with
        | nil =>
            obtain ⟨rfl, rfl⟩ := List.cons.inj parts
            exact others.kept later own.stands
        | cons head front => exact others.last (List.cons.inj parts).2 later

/-! ## What is found -/

/-- The documents have different names, or both are found, in different directories. -/
def Apart (fs : FileSystem) (filing other : Filing) : Prop :=
  filing.name ≠ other.name ∨ ∃ l l', fs.Enters filing.directory l ∧ fs.Enters other.directory l'
    ∧ l ≠ l'

/-- A document is read if its directory is entered and nothing was written to its place later. -/
theorem writeAll_last (sound : Sound fs) (run : writeAll filings fs = .ok () after)
    {front back : List Filing} (parts : filings = front ++ filing :: back)
    (entered : ∃ l, after.Enters filing.directory l)
    (apart : ∀ other ∈ back, Apart after filing other) :
    after.readFile filing.path = .ok (filing.content, 0o600) := by
  obtain ⟨written, rfl, all⟩ := writeAll_ok sound run
  obtain ⟨first, rest, rfl, -, same⟩ := List.map_eq_append_iff.mp parts
  obtain ⟨⟨_, place⟩, later, rfl, rfl, rfl⟩ := List.map_eq_cons_iff.mp same
  obtain ⟨l, enters⟩ := entered
  have known := all.known _ (List.mem_append_right first List.mem_cons_self)
  refine known.readFile enters (all.last rfl fun again => ?_)
  obtain ⟨⟨other, _⟩, member, rfl⟩ := List.mem_map.mp again
  have known' := all.known _ (List.mem_append_right first (List.mem_cons_of_mem _ member))
  rcases apart other (List.mem_map_of_mem member) with names | ⟨m, m', here, there, differ⟩
  · exact names (Option.some.inj (known.named.symm.trans known'.named))
  · have places := (known.entered here).symm.trans (known'.entered there)
    exact differ (List.cons.inj places).2

/-- Two documents of one name that are found in one directory are read as the same. -/
theorem writeAll_same (sound : Sound fs) (run : writeAll filings fs = .ok () after)
    (member : filing ∈ filings) (member' : other ∈ filings) (name : filing.name = other.name)
    {l : Location} (entered : after.Enters filing.directory l)
    (entered' : after.Enters other.directory l) :
    after.readFile filing.path = after.readFile other.path := by
  obtain ⟨written, rfl, all⟩ := writeAll_ok sound run
  obtain ⟨⟨_, place⟩, known, rfl⟩ := List.mem_map.mp member
  obtain ⟨⟨_, place'⟩, known', rfl⟩ := List.mem_map.mp member'
  obtain rfl : place = place' := ((all.known _ known).entered entered).trans
    (name ▸ ((all.known _ known').entered entered').symm)
  obtain ⟨content, stands⟩ := all.some place (List.mem_map_of_mem known)
  rw [(all.known _ known).readFile entered stands, (all.known _ known').readFile entered' stands]

end Filing
end StackSynth
