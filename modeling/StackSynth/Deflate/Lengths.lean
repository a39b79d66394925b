import StackSynth.Deflate.Token

/-!
# Lengths — the pair of codes of a block

A block has a code for octets, lengths of repetitions and its end, and another one for distances.
Both are told by the lengths of their bit strings, one list behind the other, and the list is cut
into runs.

* `fixedLengths` — the codes that need not be told;
* `runs` — a list of lengths as runs.
-/

namespace StackSynth
namespace Deflate

/-! ## Pairs of codes -/

/-- The lengths of the bit strings for octets and lengths, and of those for distances. -/
structure Lengths where
  main : List Nat
  distance : List Nat

def fixedLengths : Lengths where
  main := List.replicate 144 8 ++ List.replicate 112 9 ++ List.replicate 24 7 ++ List.replicate 8 8
  distance := List.replicate 32 5

/-! ## Runs -/

/-- A part of a list of lengths: a length, the length before it again, or zeros. -/
inductive Run where
  | length (value : Nat)
  | again (count : Nat)
  | zeros (count : Nat)

/-- The symbol of a run, and what more is to be told with how many bits. -/
def Run.parts : Run → Nat × Nat × Nat
  | .length value => (value, 0, 0)
  | .again count => (16, 2, count - 3)
  | .zeros count => if count ≤ 10 then (17, 3, count - 3) else (18, 7, count - 11)

/-- A length that stands again so many times. -/
def again (length count : Nat) : List Run :=
  if count < 3 then List.replicate count (.length length) else [.again count]

/-- So many zeros. -/
def zeros (count : Nat) : List Run :=
  if count < 3 then List.replicate count (.length 0) else [.zeros count]

/-- The longest run of zeros, and the longest one of another length again. -/
def zerosLimit : Nat := 138
def againLimit : Nat := 6

/-- The runs of a list of lengths; `last` stood before it and stands `count` times already, or so
many zeros do. -/
def runs (last : Option Nat) (count : Nat) : List Nat → List Run
  | [] =>
      match last with
      | some 0 => zeros count
      | some length => again length count
      | none => []
  | length :: rest =>
      match last with
      | some known =>
          if length = known then
            if length = 0 then
              if count + 1 = zerosLimit then zeros (count + 1) ++ runs last 0 rest
              else runs last (count + 1) rest
            else if count + 1 = againLimit then again length (count + 1) ++ runs last 0 rest
            else runs last (count + 1) rest
          else
            (if known = 0 then zeros count else again known count)
              ++ fresh length rest
      | none => fresh length rest
where
  /-- A length that did not stand before. -/
  fresh (length : Nat) (rest : List Nat) : List Run :=
    if length = 0 then runs (some 0) 1 rest else .length length :: runs (some length) 0 rest

/-- The order in which the lengths of the code for runs are written. -/
def runOrder : List Nat :=
  [16, 17, 18, 0, 8, 7, 9, 6, 10, 5, 11, 4, 12, 3, 13, 2, 14, 1, 15]

/-- How many symbols runs have, and the longest bit string of one. -/
def runSymbols : Nat := 19
def runLongest : Nat := 7

end Deflate
end StackSynth
