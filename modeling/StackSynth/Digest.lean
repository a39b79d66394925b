import StackSynth.ContentHash
import StackSynth.Member

/-!
# Digest — the content hash of a packaged directory

The members are written one after another as records and the whole is hashed.  A record is a
mark for the kind of the member, its name, and for a file its content; in front of the name and
of the content stands their length in eight octets.  The lengths tell where a field ends, so that
different lists of members have different encodings.
-/

namespace StackSynth

namespace Member

def directoryMark : UInt8 := 100
def plainMark : UInt8 := 102
def programMark : UInt8 := 120

def mark : Member → UInt8
  | .directory _ => directoryMark
  | .file _ false _ => plainMark
  | .file _ true _ => programMark

/-- Octets behind their length. -/
def sized (bs : Bytes) : Bytes :=
  Bytes.littleEndian 8 bs.length ++ bs

/-- The record of a member. -/
def record (member : Member) : Bytes :=
  member.mark :: (sized (Utf8.encode member.name) ++
    match member with
    | .directory _ => []
    | .file _ _ content => sized content)

/-- The records of some members, which are what is hashed. -/
def encoding (members : List Member) : Bytes :=
  members.flatMap record

def digest (members : List Member) : ContentHash :=
  ContentHash.ofContent (encoding members)

end Member
end StackSynth
