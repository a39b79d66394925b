import StackSynth.Packaging
import StackSynth.Proofs.Encoding
import StackSynth.Proofs.Frame
import StackSynth.Proofs.Gzip

/-!
# Payload — what an artifact is to hold

A source that is packaged as some type has a payload: the content of a file, or the members of a
directory for either an archive or a copy.  The hash is that of its octets, which do not tell the
type.  What stands at some place may be a payload, and two payloads with the same octets stand at
one place only if their types are the same.

* `Payload.IsOf` — the payload of a source;
* `Payload.StandsAt` — the payload is what is found;
* `Payload.eq_of_octets_eq` — of one type, the octets tell the payload;
* `Payload.not_both` — of different types with the same octets, at most one stands somewhere.
-/

namespace StackSynth

/-- What is to be packaged. -/
inductive Payload where
  | file (content : Bytes)
  | archive (members : List Member)
  | directory (members : List Member)

namespace Member

/-- What a member looks like. -/
def Matches : Member → Object → Prop
  | .directory _, object => object = .directory
  | .file _ program content, object => ∃ mode, object = .file content mode ∧ executable mode = program

/-- The names `names` lead to the member. -/
def IsAt (member : Member) (names : List Name) : Prop :=
  Utf8.encode member.name = (Listing.relative names).bytes

/-- Below `base` stand exactly the objects of some members. -/
structure Hold (members : List Member) (fs : FileSystem) (base : Location) : Prop where
  /-- Every object is that of a member. -/
  known : ∀ names object, names ≠ [] → fs.get? (names.reverse ++ base) = some object →
    ∃ member ∈ members, member.IsAt names ∧ member.Matches object
  /-- Every member has its object. -/
  all : ∀ member ∈ members, ∃ names object, names ≠ [] ∧ member.IsAt names
    ∧ fs.get? (names.reverse ++ base) = some object ∧ member.Matches object

/-- Members of one name are the same. -/
def Consistent (members : List Member) : Prop :=
  ∀ a ∈ members, ∀ b ∈ members, a.name = b.name → a = b

theorem eq_of_matches {a b : Member} {object : Object} (same : a.name = b.name)
    (matchesA : a.Matches object) (matchesB : b.Matches object) : a = b := by
  cases a with
  | directory name =>
      obtain rfl : object = .directory := matchesA
      cases b with
      | directory other => exact congrArg Member.directory same
      | file other program content =>
          obtain ⟨mode, wrong, -⟩ := matchesB
          cases wrong
  | file name program content =>
      obtain ⟨mode, rfl, rfl⟩ := matchesA
      cases b with
      | directory other => cases matchesB
      | file other program content' =>
          obtain ⟨mode', equal, rfl⟩ := matchesB
          cases equal
          exact congrArg (Member.file · _ _) same

end Member

/-- Joined names are told apart by the slashes between them. -/
theorem Listing.relative_inj {names others : List Name} (some : names ≠ []) (more : others ≠ [])
    (same : (relative names).bytes = (relative others).bytes) : names = others := by
  have free : ∀ names : List Name, ∀ field ∈ names.map Name.bytes, slash ∉ field := by
    intro names field member
    obtain ⟨name, -, rfl⟩ := List.mem_map.mp member
    exact name.slash_not_mem
  have fields := congrArg (Bytes.splitOn slash) same
  rw [relative, relative, Bytes.splitOn_joinWith (by simpa using some) (free names),
    Bytes.splitOn_joinWith (by simpa using more) (free others)] at fields
  exact (List.map_inj_right fun a b equal => Name.ext equal).mp fields

namespace Payload

def type : Payload → AssetType
  | .file _ => .file
  | .archive _ => .archive
  | .directory _ => .directory

/-- What is hashed. -/
def octets : Payload → Bytes
  | .file content => content
  | .archive members => Member.encoding members
  | .directory members => Member.encoding members

/-- The lengths of all members can be told in eight octets. -/
def Fits : Payload → Prop
  | .file _ => True
  | .archive members => ∀ member ∈ members, member.Fits
  | .directory members => ∀ member ∈ members, member.Fits

/-- What can be staged at all: of two members of one name, one would replace the other. -/
def Consistent : Payload → Prop
  | .file _ => True
  | .archive _ => True
  | .directory members => Member.Consistent members

/-- What a source holds when it is packaged as some type. -/
inductive IsOf (fs : FileSystem) (source : Path) : Payload → Prop
  | file {content : Bytes} : fs.read source = .ok content → IsOf fs source (.file content)
  | archive {entries : List Entry} {members : List Member} :
      Listing.collect fs source = .ok entries → entries.mapM (Entry.unchanged fs) = .ok members →
      IsOf fs source (.archive members)
  | directory {entries : List Entry} {members : List Member} :
      Listing.collect fs source = .ok entries → entries.mapM (Entry.unchanged fs) = .ok members →
      IsOf fs source (.directory members)

/-- The members of a tree are told by its listing. -/
theorem IsOf.listed {fs : FileSystem} {source : Path} {payload : Payload} {members : List Member}
    (isOf : payload.IsOf fs source) (isTree : payload = .archive members ∨ payload = .directory members) :
    ∃ entries, Listing.collect fs source = .ok entries
      ∧ entries.mapM (Entry.unchanged fs) = .ok members := by
  rcases isTree with rfl | rfl
  · cases isOf with
    | archive listed now => exact ⟨_, listed, now⟩
  · cases isOf with
    | directory listed now => exact ⟨_, listed, now⟩

/-- The payload is what is found at `l`. -/
def StandsAt (fs : FileSystem) (l : Location) : Payload → Prop
  | .file content => ∃ mode, fs.get? l = some (.file content mode)
  | .archive members => ∃ content mode, fs.get? l = some (.file content mode)
      ∧ Gzip.contents? content = some (Tar.write members)
  | .directory members => fs.get? l = some .directory ∧ Member.Hold members fs l

/-! ## Octets -/

/-- What the octets of a payload do not tell is its type. -/
theorem eq_of_octets_eq {a b : Payload} (fitsA : a.Fits) (fitsB : b.Fits)
    (types : a.type = b.type) (same : a.octets = b.octets) : a = b := by
  cases a with
  | file content =>
      cases b with
      | file other => exact congrArg Payload.file same
      | archive members => cases types
      | directory members => cases types
  | archive members =>
      cases b with
      | file other => cases types
      | archive others => exact congrArg Payload.archive (Member.encoding_inj fitsA fitsB same)
      | directory others => cases types
  | directory members =>
      cases b with
      | file other => cases types
      | archive others => cases types
      | directory others => exact congrArg Payload.directory (Member.encoding_inj fitsA fitsB same)

/-- No encoding begins like a compressed file. -/
theorem contents?_encoding (members : List Member) :
    Gzip.contents? (Member.encoding members) = none := by
  cases members with
  | nil => rfl
  | cons member rest =>
      have mark : member.mark ≠ 0x1f := by
        cases member with
        | directory name => simp [Member.mark, Member.directoryMark]
        | file name program content =>
            cases program <;> simp [Member.mark, Member.plainMark, Member.programMark]
      obtain ⟨fields, record⟩ : ∃ fields, member.record = member.mark :: fields := ⟨_, rfl⟩
      rw [Member.encoding_cons, record, List.cons_append, Gzip.contents?]
      have none : ∀ more, Gzip.body? (member.mark :: more) = none := by
        intro more
        unfold Gzip.body?
        split
        · rename_i same
          exact absurd (List.cons.inj same).1 mark
        · rfl
      rw [none]
      rfl

/-- Where a directory is, there is neither a file nor an archive. -/
theorem StandsAt.type_eq {fs : FileSystem} {l : Location} {a : Payload} {members : List Member}
    (stands : a.StandsAt fs l) (directory : (Payload.directory members).StandsAt fs l) :
    a.type = .directory := by
  cases a with
  | file content =>
      obtain ⟨mode, stands⟩ := stands
      cases stands.symm.trans directory.1
  | archive others =>
      obtain ⟨content, mode, stands, -⟩ := stands
      cases stands.symm.trans directory.1
  | directory others => rfl

/-- An archive is compressed, and its octets are not. -/
theorem not_file_of_archive {fs : FileSystem} {l : Location} {members : List Member}
    (archive : (Payload.archive members).StandsAt fs l) :
    ¬ (Payload.file (Member.encoding members)).StandsAt fs l := by
  rintro ⟨mode, file⟩
  obtain ⟨content, mode', found, stream⟩ := archive
  cases found.symm.trans file
  rw [contents?_encoding] at stream
  cases stream

/-- Payloads of different types with the same octets do not stand at one place. -/
theorem not_both {fs : FileSystem} {l : Location} {a b : Payload} (types : a.type ≠ b.type)
    (same : a.octets = b.octets) (standsA : a.StandsAt fs l) : ¬ b.StandsAt fs l := by
  intro standsB
  cases b with
  | directory members => exact types (standsA.type_eq standsB)
  | file other =>
      cases a with
      | file content => exact types rfl
      | archive members =>
          obtain rfl : Member.encoding members = other := same
          exact not_file_of_archive standsA standsB
      | directory members => exact types (standsB.type_eq standsA).symm
  | archive others =>
      cases a with
      | file content =>
          obtain rfl : content = Member.encoding others := same
          exact not_file_of_archive standsB standsA
      | archive members => exact types rfl
      | directory members => exact types (standsB.type_eq standsA).symm

/-! ## Members of one name -/

/-- Of what stands somewhere, members of one name are the same. -/
theorem StandsAt.consistent {fs : FileSystem} {l : Location} {payload : Payload}
    (stands : payload.StandsAt fs l) : payload.Consistent := by
  cases payload with
  | file content => trivial
  | archive members => trivial
  | directory members =>
      intro a memberA b memberB same
      obtain ⟨names, object, some, atA, standsA, matchesA⟩ := stands.2.all a memberA
      obtain ⟨names', object', some', atB, standsB, matchesB⟩ := stands.2.all b memberB
      obtain rfl : names = names' := by
        refine Listing.relative_inj some some' ?_
        rw [← atA, ← atB, same]
      rw [standsA] at standsB
      cases standsB
      exact Member.eq_of_matches same matchesA matchesB

end Payload
end StackSynth
