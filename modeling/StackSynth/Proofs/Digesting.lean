import StackSynth.Proofs.Encoding
import StackSynth.Proofs.Members

/-!
# Digesting — a listing that is no longer true is not hashed

A listing tells how long its files are, and that length is what is hashed in front of a content.
Between the listing and the hash the files may have changed in any way.  Each of them is read and
measured again, so that what is hashed has the length that was told, and the first file for which
this is not so is reported.

* `Entry.Current`, `Entry.Stale` — a file is as long as it was, or why it is not;
* `Entry.IsRecord` — what is hashed for an entry, in the words of the listing;
* `Entry.unchanged_error_iff`, `Entry.isRecord_of_unchanged` — a single entry;
* `Listing.digest_current` — a whole listing.
-/

namespace StackSynth

namespace Entry

variable {fs : FileSystem} {entry : Entry} {member : Member} {problem : PackagingProblem}
  {e : Failure}

/-- If the entry is a file, then it can be read and is as long as it was when it was listed. -/
def Current (fs : FileSystem) (entry : Entry) : Prop :=
  ∀ program length, entry.kind = .file program length →
    ∃ content, fs.read entry.path = .ok content ∧ content.length = length

/-- A file that cannot be read any more, or has another length. -/
inductive Stale (fs : FileSystem) : Entry → PackagingProblem → Prop
  | unreadable {name : String} {path : Path} {program : Bool} {length : Nat} {fault : Fault} :
      fs.read path = .error fault → Stale fs ⟨name, path, .file program length⟩ (.fault fault)
  | resized {name : String} {path : Path} {program : Bool} {length : Nat} {content : Bytes} :
      fs.read path = .ok content → content.length ≠ length →
      Stale fs ⟨name, path, .file program length⟩ .changed

/-- The octets that are hashed for an entry: kind, name and length are those of the listing, and
the content is the present one. -/
inductive IsRecord (fs : FileSystem) : Entry → Bytes → Prop
  | directory (name : String) (path : Path) :
      IsRecord fs ⟨name, path, .directory⟩ (Member.directoryMark :: Member.sized (Utf8.encode name))
  | file (name : String) {path : Path} (program : Bool) (length : Nat) {content : Bytes} :
      fs.read path = .ok content →
      IsRecord fs ⟨name, path, .file program length⟩
        ((if program then Member.programMark else Member.plainMark)
          :: (Member.sized (Utf8.encode name) ++ (Bytes.littleEndian 8 length ++ content)))

/-! ## One entry -/

theorem unchanged_file_ok_iff {name : String} {path : Path} {program : Bool} {length : Nat} :
    unchanged fs ⟨name, path, .file program length⟩ = .ok member
      ↔ ∃ content, fs.read path = .ok content ∧ content.length = length
        ∧ member = .file name program content := by
  cases read : fs.read path with
  | error fault => simp [unchanged, read]
  | ok content =>
      by_cases same : content.length = length
      · simp [unchanged, read, same, eq_comm]
      · simp [unchanged, read, same]

theorem unchanged_file_error_iff {name : String} {path : Path} {program : Bool} {length : Nat} :
    unchanged fs ⟨name, path, .file program length⟩ = .error e
      ↔ (∃ fault, fs.read path = .error fault ∧ e = .packaging path (.fault fault))
        ∨ ∃ content, fs.read path = .ok content ∧ content.length ≠ length
          ∧ e = .packaging path .changed := by
  cases read : fs.read path with
  | error fault => simp [unchanged, read, eq_comm]
  | ok content =>
      by_cases same : content.length = length
      · simp [unchanged, read, same]
      · simp [unchanged, read, same, @eq_comm _ e]

theorem exists_unchanged_iff : (∃ member, entry.unchanged fs = .ok member) ↔ entry.Current fs := by
  obtain ⟨name, path, kind⟩ := entry
  cases kind with
  | directory =>
      refine ⟨fun _ _ _ isFile => ?_, fun _ => ⟨_, rfl⟩⟩
      cases isFile
  | file program length =>
      simp only [unchanged_file_ok_iff]
      constructor
      · rintro ⟨member, content, read, same, -⟩ _ _ isFile
        cases isFile
        exact ⟨content, read, same⟩
      · intro current
        obtain ⟨content, read, same⟩ := current program length rfl
        exact ⟨_, content, read, same, rfl⟩

theorem unchanged_error_iff : entry.unchanged fs = .error e
    ↔ ∃ problem, entry.Stale fs problem ∧ e = .packaging entry.path problem := by
  obtain ⟨name, path, kind⟩ := entry
  cases kind with
  | directory =>
      constructor
      · intro failed
        cases failed
      · rintro ⟨problem, stale, -⟩
        cases stale
  | file program length =>
      rw [unchanged_file_error_iff]
      constructor
      · -- Only a file can be out of date: it cannot be read, or its length is another.
        rintro (⟨fault, read, rfl⟩ | ⟨content, read, differs, rfl⟩)
        · exact ⟨_, .unreadable read, rfl⟩
        · exact ⟨_, .resized read differs, rfl⟩
      · rintro ⟨problem, stale, rfl⟩
        cases stale with
        | unreadable read => exact Or.inl ⟨_, read, rfl⟩
        | resized read differs => exact Or.inr ⟨_, read, differs, rfl⟩

/-- The length that was told is the one that is found, so that the record is that of the present
member. -/
theorem isRecord_of_unchanged (now : entry.unchanged fs = .ok member) :
    entry.IsRecord fs member.record := by
  obtain ⟨name, path, kind⟩ := entry
  cases kind with
  | directory =>
      obtain rfl := Except.ok.inj now
      have record : IsRecord fs ⟨name, path, .directory⟩ _ := .directory name path
      simpa [Member.record, Member.mark, Member.name] using record
  | file program length =>
      obtain ⟨content, read, rfl, rfl⟩ := unchanged_file_ok_iff.mp now
      have record := IsRecord.file name program content.length read
      cases program <;> exact record

end Entry

/-! ## Listings -/

namespace Listing

variable {fs : FileSystem} {entries : List Entry} {hash : ContentHash} {e : Failure}

theorem digest_ok_iff : digest fs entries = .ok hash
    ↔ ∃ members, entries.mapM (Entry.unchanged fs) = .ok members ∧ hash = Member.digest members := by
  rw [digest]
  cases entries.mapM (Entry.unchanged fs) <;> simp [bind, Except.bind, pure, Except.pure, eq_comm]

theorem digest_error_iff :
    digest fs entries = .error e ↔ entries.mapM (Entry.unchanged fs) = .error e := by
  rw [digest]
  cases entries.mapM (Entry.unchanged fs) <;> simp [bind, Except.bind, pure, Except.pure]

/-- A listing is hashed exactly if all of its files are as long as they were; what is hashed are
its records one after another, and otherwise the first file that is not current is reported. -/
theorem digest_current (fs : FileSystem) (entries : List Entry) :
    ((∃ hash, digest fs entries = .ok hash) ↔ ∀ entry ∈ entries, entry.Current fs)
      ∧ (∀ hash, digest fs entries = .ok hash →
        ∃ records, List.Forall₂ (Entry.IsRecord fs) entries records
          ∧ hash = ContentHash.ofContent records.flatten)
      ∧ ∀ e, digest fs entries = .error e ↔ ∃ front entry back problem,
        entries = front ++ entry :: back ∧ (∀ other ∈ front, other.Current fs)
          ∧ entry.Stale fs problem ∧ e = .packaging entry.path problem := by
  refine ⟨⟨?_, ?_⟩, ?_, ?_⟩
  · rintro ⟨hash, hashed⟩ entry member
    obtain ⟨members, now, -⟩ := digest_ok_iff.mp hashed
    obtain ⟨found, -, unchanged⟩ := (exists_of_forall₂ (mapM_ok_iff.mp now)).1 entry member
    exact Entry.exists_unchanged_iff.mp ⟨found, unchanged⟩
  · intro current
    obtain ⟨members, now⟩ := exists_forall₂ fun entry member =>
      Entry.exists_unchanged_iff.mpr (current entry member)
    exact ⟨_, digest_ok_iff.mpr ⟨members, mapM_ok_iff.mpr now, rfl⟩⟩
  · intro hash hashed
    obtain ⟨members, now, rfl⟩ := digest_ok_iff.mp hashed
    refine ⟨members.map Member.record, ?_, rfl⟩
    exact List.forall₂_map_right_iff.mpr
      ((mapM_ok_iff.mp now).imp fun _ _ => Entry.isRecord_of_unchanged)
  · intro e
    rw [digest_error_iff, mapM_error_iff]
    simp only [Entry.exists_unchanged_iff, Entry.unchanged_error_iff, ← exists_and_left]

end Listing

end StackSynth
