import StackSynth.Member
import StackSynth.Path

/-!
# Tar — directories as one stream of blocks

A stream is a list of records of whole blocks of 512 octets, and two blocks of zeros.  A record
is a header with the numbers of GNU tar, and a body filled up with zeros.  A name that does not
fit its field of 100 octets is the body of a record of its own in front of the record that it
names.

* `Tar.write` — the stream of some members;
* `Tar.records?` — the records of a stream, read from its blocks alone;
* `Tar.entries?` — the same with the whole name of each;
* `Tar.read?` — the members of a stream.

Members carry no owner and no time.
-/

namespace StackSynth
namespace Tar

/-- A header and a body, as found in a stream. -/
structure Record where
  name : Bytes
  mode : Nat
  owner : Nat
  group : Nat
  size : Nat
  time : Nat
  kind : UInt8
  body : Bytes
  deriving DecidableEq

/-! ## Kinds and modes -/

def fileKind : UInt8 := 48
def directoryKind : UInt8 := 53
def longNameKind : UInt8 := 76

def directoryMode : Nat := 0o755
def programMode : Nat := 0o755
def plainMode : Nat := 0o644

/-- The name of a record that holds the name of the next one. -/
def longNameMark : Bytes := Utf8.encode "././@LongLink"

/-! ## Blocks -/

def blockSize : Nat := 512

def zeros (count : Nat) : Bytes :=
  List.replicate count 0

/-- A field filled up with zeros. -/
def field (width : Nat) (bs : Bytes) : Bytes :=
  bs ++ zeros (width - bs.length)

/-- An octal number with a zero octet behind it, in `width` octets. -/
def number (width n : Nat) : Bytes :=
  Bytes.octal (width - 1) n ++ [0]

/-- The numbers that twelve octets hold in octal digits are below it: 8 GiB. -/
def octalLimit : Nat := 0o100000000000

/-- What a size from 8 GiB on has in front, since its octal digits do not fit twelve octets. -/
def wideMark : UInt8 := 0x80

/-- A size in twelve octets. -/
def sizeField (n : Nat) : Bytes :=
  if n < octalLimit then number 12 n else wideMark :: Bytes.bigEndian 11 n

/-- The count of octets from a body of `size` octets to the next block. -/
def gap (size : Nat) : Nat :=
  (blockSize - size % blockSize) % blockSize

def magic : Bytes := [117, 115, 116, 97, 114, 32, 32, 0]

/-- The fields in front of the checksum: name, mode, owner, group, size and time. -/
def headerFront (name : Bytes) (mode size : Nat) : Bytes :=
  field 100 name ++ number 8 mode ++ number 8 0 ++ number 8 0 ++ sizeField size ++ number 12 0

/-- The fields behind the checksum: kind, an empty link target, and the format. -/
def headerBack (kind : UInt8) : Bytes :=
  kind :: zeros 100 ++ magic ++ zeros 247

def sum (bs : Bytes) : Nat :=
  bs.foldl (fun n b => n + b.toNat) 0

/-- The sum of a header in which the checksum is eight spaces. -/
def checksum (front back : Bytes) : Nat :=
  sum front + 8 * 32 + sum back

def header (name : Bytes) (mode size : Nat) (kind : UInt8) : Bytes :=
  let front := headerFront name mode size
  let back := headerBack kind
  front ++ number 8 (checksum front back) ++ back

def record (name : Bytes) (mode : Nat) (kind : UInt8) (body : Bytes) : Bytes :=
  header name mode body.length kind ++ body ++ zeros (gap body.length)

/-! ## Writing -/

/-- The most octets of a name in a header. -/
def nameLimit : Nat := 100

/-- The whole characters of a text that fit `room` octets. -/
def fitting (room : Nat) : List Char → List Char
  | [] => []
  | c :: cs =>
      let size := (Utf8.encode (String.singleton c)).length
      if size ≤ room then c :: fitting (room - size) cs else []

/-- The beginning of a long name, as a header shows it: its components with slashes between
them. -/
def shownName (name : String) : Bytes :=
  let path := Path.ofString (String.ofList (fitting nameLimit name.toList))
  let names := Bytes.joinWith slash (path.components.map Component.bytes)
  if path.wantsDirectory then names ++ [slash] else names

/-- A record under a name of any length. -/
def named (name : String) (mode : Nat) (kind : UInt8) (body : Bytes) : Bytes :=
  let octets := Utf8.encode name
  if octets.length ≤ nameLimit then record octets mode kind body
  else
    record longNameMark 0o644 longNameKind (octets ++ [0])
      ++ record (shownName name) mode kind body

/-- The records of a member. -/
def blocks : Member → Bytes
  | .directory name => named (name ++ "/") directoryMode directoryKind []
  | .file name executable content =>
      named name (if executable then programMode else plainMode) fileKind content

def write (members : List Member) : Bytes :=
  members.flatMap blocks ++ zeros (2 * blockSize)

/-! ## Reading -/

/-- The octets in front of the first zero. -/
def untilZero (bs : Bytes) : Bytes :=
  bs.takeWhile (· != 0)

def slice (bs : Bytes) (start width : Nat) : Bytes :=
  (bs.drop start).take width

/-- A number in octal digits, or one that is not, behind its mark. -/
def number? (field : Bytes) : Option Nat :=
  if field.head? = some wideMark then some (Bytes.ofLittleEndian field.tail.reverse)
  else Bytes.ofOctal? (untilZero field)

def numberAt? (bs : Bytes) (start width : Nat) : Option Nat :=
  number? (slice bs start width)

/-- The record whose header is the block `head`, with the octets that follow it. -/
def recordAt? (head after : Bytes) : Option Record := do
  let size ← numberAt? head 124 12
  let told ← numberAt? head 148 8
  if told ≠ checksum (head.take 148) (head.drop 156) ∨ after.length < size then none
  return {
    name := untilZero (slice head 0 100)
    mode := ← numberAt? head 100 8
    owner := ← numberAt? head 108 8
    group := ← numberAt? head 116 8
    size := size
    time := ← numberAt? head 136 12
    kind := (slice head 156 1).headD 0
    body := after.take size }

/-- The records of a stream up to its two blocks of zeros. -/
def records? (stream : Bytes) : Option (List Record) :=
  if stream.length < 2 * blockSize then none
  else if (stream.take (2 * blockSize)).all (· == 0) then some []
  else do
    let after := stream.drop blockSize
    let r ← recordAt? (stream.take blockSize) after
    return r :: (← records? (after.drop (r.size + gap r.size)))
termination_by stream.length
decreasing_by
  simp only [List.length_drop, blockSize] at *
  omega

/-- Records under their whole names, where one with a long name names the one after it. -/
def renamed? : List Record → Option (List Record)
  | [] => some []
  | r :: rest =>
      if r.kind = longNameKind then
        match rest with
        | [] => none
        | next :: rest =>
            if next.kind = longNameKind then none
            else do return { next with name := untilZero r.body } :: (← renamed? rest)
      else do return r :: (← renamed? rest)

def entries? (stream : Bytes) : Option (List Record) := do
  renamed? (← records? stream)

/-- The member of a record. -/
def Record.member? (r : Record) : Option Member := do
  let text ← Utf8.decode? r.name
  if r.kind = directoryKind ∧ r.mode = directoryMode then
    match text.toList.reverse with
    | '/' :: front => return .directory (String.ofList front.reverse)
    | _ => none
  else if r.kind = fileKind ∧ (r.mode = programMode ∨ r.mode = plainMode) then
    return .file text (r.mode == programMode) r.body
  else none

def read? (stream : Bytes) : Option (List Member) := do
  (← entries? stream).mapM Record.member?

end Tar
end StackSynth
