import StackSynth.Sha256
import StackSynth.Bytes.Utf8

/-!
# ContentHash — the name of some content

A content hash is text: the mark `sha256:` and what follows it, normally the digest in
hexadecimal.

* `ContentHash.ofText` adds the mark where it is missing;
* `ContentHash.ofContent` is the digest of octets;
* `ContentHash.hex` is the part after the mark;
* `ContentHash.short?` is its beginning, at most sixteen octets, unless that would cut a
  character in two.
-/

namespace StackSynth

structure ContentHash where
  text : String
  deriving DecidableEq

namespace ContentHash

/-- The mark in front of a digest. -/
def mark : String := "sha256:"

/-- The octets of a short form. -/
def shortLength : Nat := 16

def marked (text : String) : Bool :=
  mark.toList.isPrefixOf text.toList

def ofText (text : String) : ContentHash :=
  if marked text then ⟨text⟩ else ⟨mark ++ text⟩

def ofContent (content : Bytes) : ContentHash :=
  ⟨mark ++ Bytes.hex (Sha256.digest content)⟩

/-- The text without one mark in front. -/
def hex (hash : ContentHash) : String :=
  if marked hash.text then String.ofList (hash.text.toList.drop mark.toList.length) else hash.text

def short? (hash : ContentHash) : Option String :=
  Utf8.decode? ((Utf8.encode hash.hex).take shortLength)

end ContentHash
end StackSynth
