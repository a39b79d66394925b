import StackSynth.Deflate.Reader
import StackSynth.Deflate.Stored
import StackSynth.Deflate.Writer

/-!
# Gzip — a stream in its compressed file format

The format of RFC 1952 around blocks of RFC 1951.  The header tells no time and no name, so that
equal streams give equal files.

* `Gzip.contents?` — the stream of a file, if its length and its checksum are right;
* `Gzip.wrap` — the file of a stream.  A compressed file is used only if it reads back; that the
  stream is not lost rests on the reader alone.
-/

namespace StackSynth
namespace Gzip

/-! ## Checksum -/

/-- One bit of the cyclic redundancy check. -/
def crcBit (r : UInt32) : UInt32 :=
  if r &&& 1 == 1 then (r >>> 1) ^^^ 0xEDB88320 else r >>> 1

def crcOctet (r : UInt32) (b : UInt8) : UInt32 :=
  (List.range 8).foldl (fun r _ => crcBit r) (r ^^^ b.toUInt32)

def crc (bs : Bytes) : UInt32 :=
  (bs.foldl crcOctet 0xFFFFFFFF) ^^^ 0xFFFFFFFF

/-! ## Header and trailer -/

/-- Magic number, method, no flags, no time, no hint, unknown system. -/
def header : Bytes := [0x1f, 0x8b, 8, 0, 0, 0, 0, 0, 0, 0xff]

/-- Checksum and length of a stream. -/
def trailer (stream : Bytes) : Bytes :=
  Bytes.littleEndian 4 (crc stream).toNat ++ Bytes.littleEndian 4 (stream.length % 0x100000000)

/-- A stream whose blocks are given as a file. -/
def file (blocks stream : Bytes) : Bytes :=
  header ++ blocks ++ trailer stream

/-- What the flags of a header announce behind it. -/
structure Flags where
  checksum : Bool
  extra : Bool
  name : Bool
  comment : Bool

/-- The flags; the three highest bits are reserved. -/
def Flags.ofOctet? (b : UInt8) : Option Flags :=
  if 32 ≤ b then none else some ⟨b &&& 2 != 0, b &&& 4 != 0, b &&& 8 != 0, b &&& 16 != 0⟩

/-- What follows a field with its size in front. -/
def afterSized? : Bytes → Option Bytes
  | l :: h :: rest =>
      let size := Bytes.ofLittleEndian [l, h]
      if rest.length < size then none else some (rest.drop size)
  | _ => none

/-- What follows a field that ends with a zero. -/
def afterZero? : Bytes → Option Bytes
  | [] => none
  | b :: rest => if b = 0 then some rest else afterZero? rest

/-- What follows the checksum of all that stands in front of it. -/
def afterChecksum? (whole : Bytes) : Bytes → Option Bytes
  | l :: h :: rest =>
      let front := whole.take (whole.length - (rest.length + 2))
      if Bytes.littleEndian 2 (crc front).toNat = [l, h] then some rest else none
  | _ => none

/-- What follows a field that is there if it is announced. -/
def afterField? (announced : Bool) (after? : Bytes → Option Bytes) (bs : Bytes) : Option Bytes :=
  if announced then after? bs else some bs

/-- What follows the header of a file. -/
def body? (whole : Bytes) : Option Bytes :=
  match whole with
  | 0x1f :: 0x8b :: 8 :: flags :: _ :: _ :: _ :: _ :: _ :: _ :: rest => do
      let flags ← Flags.ofOctet? flags
      let rest ← afterField? flags.extra afterSized? rest
      let rest ← afterField? flags.name afterZero? rest
      let rest ← afterField? flags.comment afterZero? rest
      afterField? flags.checksum (afterChecksum? whole) rest
  | _ => none

/-! ## Reading and writing -/

/-- The stream of a file; what follows the trailer is not looked at. -/
def contents? (whole : Bytes) : Option Bytes := do
  let (stream, rest) ← Deflate.read? (← body? whole)
  if rest.take 8 = trailer stream then return stream else none

def wrap (stream : Bytes) : Bytes :=
  let short := file (Deflate.write stream) stream
  if contents? short = some stream then short else file (Deflate.store stream) stream

end Gzip
end StackSynth
