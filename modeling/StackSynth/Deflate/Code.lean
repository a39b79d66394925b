import StackSynth.Deflate.Bits

/-!
# Code — short bit strings for frequent symbols

A code gives bit strings to symbols so that none begins another.  It is told by the lengths of
the strings alone: shorter ones come first, and among strings of one length those of smaller
symbols.

* `Code.lengthsFor` — lengths for symbols that occur with certain frequencies, none above a limit;
* `Code.words` — the bit strings of lengths;
* `Code.decode?` — the symbol at the front of a string of bits.
-/

namespace StackSynth
namespace Deflate
namespace Code

/-! ## Lengths from frequencies -/

inductive Tree where
  | leaf
  | node (left right : Tree)

/-- A tree with the frequency of all its leaves together. -/
structure Weighted where
  weight : Nat
  tree : Tree

/-- Takes the lighter one of the first leaf and the first node; a leaf is preferred. -/
def lighter : (leaves nodes : List Weighted) → Option (Weighted × List Weighted × List Weighted)
  | [], [] => none
  | [], node :: nodes => some (node, [], nodes)
  | leaf :: leaves, [] => some (leaf, leaves, [])
  | leaf :: leaves, node :: nodes =>
      if node.weight < leaf.weight then some (node, leaf :: leaves, nodes)
      else some (leaf, leaves, node :: nodes)

/-- Joins the two lightest trees, as often as told. -/
def join : (times : Nat) → (leaves nodes : List Weighted) → Option Tree
  | 0, leaves, nodes => (lighter leaves nodes).map (·.1.tree)
  | times + 1, leaves, nodes => do
      let (a, leaves, nodes) ← lighter leaves nodes
      let (b, leaves, nodes) ← lighter leaves nodes
      join times leaves (nodes ++ [⟨a.weight + b.weight, .node a.tree b.tree⟩])

/-- The depths of the leaves below a tree at a depth. -/
def depths (depth : Nat) : Tree → List Nat
  | .leaf => [depth]
  | .node left right => depths (depth + 1) left ++ depths (depth + 1) right

/-- The depths of the leaves of the tree for some frequencies, which increase; a lone leaf counts
as one deep. -/
def depthsFor : List Nat → List Nat
  | [] => []
  | [_] => [1]
  | frequencies =>
      match join (frequencies.length - 1) (frequencies.map fun n => ⟨n, .leaf⟩) [] with
      | some tree => depths 0 tree
      | none => []

/-- How many leaves there are at each depth from one to `limit`; deeper ones count as `limit`
deep. -/
def profile (limit : Nat) (found : List Nat) : List Nat :=
  (List.range limit).map fun i =>
    found.countP fun depth => depth == i + 1 || (i + 1 == limit && limit < depth)

/-- The space that a profile takes, where a leaf on the deepest level takes one. -/
def space : List Nat → Nat
  | [] => 0
  | count :: rest => count * Nat.pow 2 rest.length + space rest

/-- A leaf is pushed one level down, where it stands beside another one: the first level that has
any, of those that are listed upwards, gives the leaf; `deeper` is the level below them. -/
def descend (deeper : Nat) : List Nat → List Nat
  | [] => [deeper]
  | count :: rest =>
      if 0 < count then (deeper + 2) :: (count - 1) :: rest else deeper :: descend count rest

/-- Frees the space of one leaf on the deepest level. -/
def relieve (profile : List Nat) : List Nat :=
  match profile.reverse with
  | deepest :: above => (descend (deepest - 1) above).reverse
  | [] => []

/-- A profile that fits into the space of a tree. -/
def fitted (profile : List Nat) : List Nat :=
  Nat.repeat relieve (space profile - Nat.pow 2 profile.length) profile

/-- A list of `size` numbers, all zero but those under the given indices. -/
def placed (size : Nat) (entries : List (Nat × Nat)) : List Nat :=
  (entries.foldl (fun found entry => found.setIfInBounds entry.1 entry.2)
    (Array.replicate size 0)).toList

/-- The lengths for symbols that occur as often as told: the more often, the shorter.  A symbol
that does not occur has the length zero. -/
def lengthsFor (limit : Nat) (counts : List Nat) : List Nat :=
  let used := (counts.zipIdx.filter fun entry => entry.1 ≠ 0).mergeSort fun a b => a.1 ≤ b.1
  let found := profile limit (depthsFor (used.map (·.1)))
  let found := if used.length ≤ 1 then found else fitted found
  let lengths := found.zipIdx.flatMap fun entry => List.replicate entry.1 (entry.2 + 1)
  placed counts.length ((used.reverse.map (·.2)).zip lengths)

/-! ## Bit strings from lengths -/

/-- The longest bit string of any code. -/
def longest : Nat := 15

/-- The smallest number of each length from zero to `longest`, as the lengths determine it. -/
def firstNumbers (lengths : List Nat) : Array Nat :=
  (List.range longest).foldl
    (fun found i =>
      let before := if i = 0 then 0 else lengths.count i
      found.push (2 * (found.getD i 0 + before)))
    #[0]

/-- The bit strings of all symbols, highest bit first; the empty one for a symbol of length
zero. -/
def wordsFrom (next : Array Nat) : (lengths : List Nat) → List Bits
  | [] => []
  | length :: rest =>
      if length = 0 then [] :: wordsFrom next rest
      else
        let n := next.getD length 0
        Bits.high length n :: wordsFrom (next.setIfInBounds length (n + 1)) rest

def words (lengths : List Nat) : Array Bits :=
  (wordsFrom (firstNumbers lengths) lengths).toArray

/-! ## Reading -/

/-- A code for reading: how many symbols of each length there are, and the symbols in the order
of their bit strings. -/
structure Table where
  counts : List Nat
  symbols : Array Nat

/-- The room left on the next level, if there is one. -/
def room? : (left : Nat) → List Nat → Option Nat
  | left, [] => some left
  | left, count :: rest => if 2 * left < count then none else room? (2 * left - count) rest

/-- The code of lengths, unless there are too many short ones. -/
def table? (lengths : List Nat) : Option Table :=
  let counts := (List.range longest).map fun i => lengths.count (i + 1)
  let symbols := (List.range longest).flatMap fun i =>
    (lengths.zipIdx.filter fun entry => entry.1 == i + 1).map (·.2)
  match room? 1 counts with
  | some _ => some ⟨counts, symbols.toArray⟩
  | none => none

/-- Reads bits until they are the bit string of a symbol.  The bits so far spell `n`, the smallest
bit string of their length spells `first`, and shorter ones belong to the first `index` symbols. -/
def decodeFrom (symbols : Array Nat) : (n first index : Nat) → List Nat → Bits → Option (Nat × Bits)
  | n, first, index, count :: counts, bit :: rest =>
      let n := n + if bit then 1 else 0
      if n < first + count then
        match symbols[index + (n - first)]? with
        | some symbol => some (symbol, rest)
        | none => none
      else decodeFrom symbols (2 * n) (2 * (first + count)) (index + count) counts rest
  | _, _, _, _, _ => none

/-- The symbol at the front of a string of bits, and what follows it. -/
def Table.decode? (table : Table) (bits : Bits) : Option (Nat × Bits) :=
  decodeFrom table.symbols 0 0 0 table.counts bits

end Code
end Deflate
end StackSynth
