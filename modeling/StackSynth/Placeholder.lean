import StackSynth.Asset

/-!
# Placeholder — references to assets inside text

Text may refer to an asset as `${asset.<id>.<attribute>}`.  `Placeholder.resolve` puts the
attribute in the place of the reference; what it puts in is not searched for further references.
-/

namespace StackSynth
namespace Placeholder

/-- The marks in front of a reference to an asset. -/
def opening : List Char :=
  ['$', '{', 'a', 's', 's', 'e', 't', '.']

/-- What stands around a separator that occurs. -/
def splitAt? (separator : Char) : List Char → Option (List Char × List Char)
  | [] => none
  | c :: cs =>
      if c = separator then some ([], cs)
      else (splitAt? separator cs).map fun (front, rest) => (c :: front, rest)

/-- The attribute that `id.attribute` names. -/
def lookup? (assets : List Asset) (inner : List Char) : Option String := do
  let (id, name) ← splitAt? '.' inner
  let asset ← assets.find? fun asset => asset.id.text == String.ofList id
  asset.attribute? (String.ofList name)

theorem length_lt_of_splitAt? {separator : Char} {cs front rest : List Char}
    (found : splitAt? separator cs = some (front, rest)) : rest.length < cs.length := by
  induction cs generalizing front rest with
  | nil => simp [splitAt?] at found
  | cons c cs ih =>
      unfold splitAt? at found
      split at found
      · simp only [Option.some.injEq, Prod.mk.injEq] at found
        simp [← found.2]
      · obtain ⟨⟨front', rest'⟩, inner, same⟩ := Option.map_eq_some_iff.mp found
        simp only [Prod.mk.injEq] at same
        obtain ⟨_, rfl⟩ := same
        exact Nat.lt_succ_of_lt (ih inner)

/-- The text with every reference resolved.  A reference that is not closed is reported with all
that follows it. -/
def resolveChars (assets : List Asset) (cs : List Char) : Except Failure (List Char) :=
  match cs with
  | [] => .ok []
  | c :: rest =>
      if opening.isPrefixOf (c :: rest) then
        match _found : splitAt? '}' ((c :: rest).drop opening.length) with
        | none => .error (.unresolved (String.ofList (c :: rest)))
        | some (inner, after) =>
            match lookup? assets inner with
            | none => .error (.unresolved (String.ofList (opening ++ inner ++ ['}'])))
            | some value => do return value.toList ++ (← resolveChars assets after)
      else do return c :: (← resolveChars assets rest)
termination_by cs.length
decreasing_by
  · have := length_lt_of_splitAt? _found
    simp only [List.length_drop] at this
    omega
  · simp

def resolve (assets : List Asset) (text : String) : Except Failure String := do
  return String.ofList (← resolveChars assets text.toList)

/-! ## Documents -/

mutual

/-- The document with the references in all of its strings resolved; keys are left alone. -/
def resolveJson (assets : List Asset) : Json → Except Failure Json
  | .string text => do return .string (← resolve assets text)
  | .array items => do return .array (← resolveItems assets items)
  | .object members => do return .object (← resolveMembers assets members)
  | .null => .ok .null
  | .bool value => .ok (.bool value)
  | .number value => .ok (.number value)

def resolveItems (assets : List Asset) : List Json → Except Failure (List Json)
  | [] => .ok []
  | item :: rest => do return (← resolveJson assets item) :: (← resolveItems assets rest)

def resolveMembers (assets : List Asset) :
    List (String × Json) → Except Failure (List (String × Json))
  | [] => .ok []
  | (key, value) :: rest => do
      return (key, ← resolveJson assets value) :: (← resolveMembers assets rest)

end

end Placeholder
end StackSynth
