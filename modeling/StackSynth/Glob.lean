import StackSynth.Bytes.Utf8

/-!
# Glob — patterns for slash-separated paths

A pattern is a list of tokens, and a token takes some initial part of a path.  Paths are octet
strings, so one wildcard stands for one octet, and no wildcard takes a slash.

* `Glob.Token.rests` — what may be left of a path after a token;
* `Glob.rests` — what may be left after a list of tokens;
* `Glob.accepts` — nothing may be left after the whole pattern.
-/

namespace StackSynth
namespace Glob

inductive Token where
  | literal (c : Char)
  /-- One octet. -/
  | single
  /-- Any octets of one name. -/
  | run
  /-- At the start: any directories, or none. -/
  | leading
  /-- Inside: a slash, or any directories between two slashes. -/
  | between
  /-- At the end: anything below. -/
  | underneath
  /-- One octet inside, or outside, of some ranges. -/
  | oneOf (negated : Bool) (ranges : List (Char × Char))
  /-- One of several patterns. -/
  | either (branches : List (List Token))

/-! ## Octet classes -/

/-- The octet ranges of a character range.  A range is spelled with the octets of its ends, so
only the last octet of the low end and the first octet of the high end are an interval. -/
def octetRanges (low high : Char) : List (UInt8 × UInt8) :=
  let first := Utf8.encode (String.singleton low)
  if low = high then first.map fun b => (b, b)
  else
    let last := Utf8.encode (String.singleton high)
    first.dropLast.map (fun b => (b, b))
      ++ [(first.getLastD 0, last.headD 0)]
      ++ (last.drop 1).map (fun b => (b, b))

def inRanges (ranges : List (Char × Char)) (b : UInt8) : Bool :=
  ranges.any fun r => (octetRanges r.1 r.2).any fun o => o.1 ≤ b && b ≤ o.2

/-! ## What may be left -/

/-- Everything that follows the octets of a name at the front. -/
def afterNameOctets : Bytes → List Bytes
  | [] => [[]]
  | b :: bs => if b = slash then [b :: bs] else (b :: bs) :: afterNameOctets bs

/-- Everything that follows a slash. -/
def afterSlashes : Bytes → List Bytes
  | [] => []
  | b :: bs => if b = slash then bs :: afterSlashes bs else afterSlashes bs

/-- Every tail of a path, the empty one included. -/
def tails : Bytes → List Bytes
  | [] => [[]]
  | b :: bs => (b :: bs) :: tails bs

/-- A path without the octets that a pattern has at this place. -/
def afterOctets (expected path : Bytes) : List Bytes :=
  if expected.isPrefixOf path then [path.drop expected.length] else []

/-- Tails of one path, each once: tails of equal length are equal. -/
def distinct (rests : List Bytes) : List Bytes :=
  rests.foldl
    (fun seen rest => if seen.any fun s => s.length = rest.length then seen else seen ++ [rest]) []

mutual

/-- Tokens that stand for no octet at all: an alternation of nothing but such branches. -/
def Token.vacuous : Token → Bool
  | .either branches => vacuousBranches branches
  | _ => false

def vacuous : List Token → Bool
  | [] => true
  | token :: rest => token.vacuous && vacuous rest

def vacuousBranches : List (List Token) → Bool
  | [] => true
  | branch :: rest => vacuous branch && vacuousBranches rest

end

mutual

/-- What may be left of a path after a token. -/
def Token.rests : Token → Bytes → List Bytes
  | .literal c, path => afterOctets (Utf8.encode (String.singleton c)) path
  | .single, path =>
      match path with
      | b :: bs => if b = slash then [] else [bs]
      | [] => []
  | .run, path => afterNameOctets path
  | .leading, path => path :: afterSlashes path
  | .between, path =>
      match path with
      | b :: bs => if b = slash then bs :: afterSlashes bs else []
      | [] => []
  | .underneath, path =>
      match path with
      | b :: bs => if b = slash then tails bs else []
      | [] => []
  | .oneOf negated ranges, path =>
      match path with
      | b :: bs => if inRanges ranges b != negated then [bs] else []
      | [] => []
  | .either branches, path =>
      if vacuousBranches branches then [path] else branchRests branches path

/-- What may be left of some tails of a path after a list of tokens. -/
def rests : List Token → List Bytes → List Bytes
  | [], paths => paths
  | token :: more, paths => rests more (distinct (paths.flatMap fun path => token.rests path))

/-- What may be left after one of several patterns; vacuous ones do not count. -/
def branchRests : List (List Token) → Bytes → List Bytes
  | [], _ => []
  | branch :: more, path =>
      (if vacuous branch then [] else rests branch [path]) ++ branchRests more path

end

/-- A pattern of nothing but leading directories accepts every path. -/
def accepts : List Token → Bytes → Bool
  | [.leading], _ => true
  | tokens, path => (rests tokens [path]).any List.isEmpty

end Glob
end StackSynth
