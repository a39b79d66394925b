import StackSynth.Bytes.Utf8

/-!
# Name — what an object is called in its directory

A name is a string of octets that is not empty, holds neither a slash nor a zero, and is not one
of the two dot names.  Names need not be text.
-/

namespace StackSynth

/-- The octets can name an object. -/
def isName (bs : Bytes) : Bool :=
  !bs.isEmpty && bs.all (fun b => b != slash && b != 0) && bs != [dot] && bs != [dot, dot]

structure Name where
  bytes : Bytes
  valid : isName bytes = true

namespace Name

instance : DecidableEq Name := fun a b =>
  if same : a.bytes = b.bytes then
    isTrue (by cases a; cases b; cases same; rfl)
  else isFalse fun equal => same (congrArg Name.bytes equal)

def ofBytes? (bs : Bytes) : Option Name :=
  if valid : isName bs = true then some ⟨bs, valid⟩ else none

def ofText? (text : String) : Option Name :=
  ofBytes? (Utf8.encode text)

/-- The name for readers. -/
def display (name : Name) : String :=
  Utf8.display name.bytes

/-- The name as text, if it is text. -/
def text? (name : Name) : Option String :=
  Utf8.decode? name.bytes

theorem length_pos (name : Name) : 0 < name.bytes.length := by
  obtain ⟨bs, valid⟩ := name
  cases bs with
  | nil => simp [isName] at valid
  | cons b bs => simp

/-! ## Temporary names -/

/-- Octets that are neither a slash nor a zero. -/
def isPlain (b : UInt8) : Bool :=
  b != slash && b != 0

def digit (n : Nat) : UInt8 :=
  UInt8.ofNat (48 + n % 10)

theorem isPlain_digit (n : Nat) : isPlain (digit n) = true := by
  have small : n % 10 < 10 := Nat.mod_lt _ (by decide)
  unfold digit
  generalize n % 10 = k at small
  match k, small with
  | 0, _ | 1, _ | 2, _ | 3, _ | 4, _ | 5, _ | 6, _ | 7, _ | 8, _ | 9, _ => decide
  | k + 10, h => omega

/-- The decimal digits of a number, last digit first; at least `width` of them. -/
def digits (width n : Nat) : Bytes :=
  if n < 10 then digit n :: List.replicate (width - 1) (digit 0)
  else digit n :: digits (width - 1) (n / 10)
termination_by n

theorem all_digits (width n : Nat) : (digits width n).all isPlain = true := by
  fun_induction digits width n with
  | case1 width n _ =>
      simp only [List.all_cons, isPlain_digit, Bool.true_and, List.all_eq_true]
      intro b member
      rw [List.eq_of_mem_replicate member]
      exact isPlain_digit 0
  | case2 width n _ ih => simp only [List.all_cons, isPlain_digit, Bool.true_and, ih]

/-- The marks in front of the number of a temporary name. -/
def temporaryMark : Bytes := [dot, 116, 109, 112]

/-- The temporary name with a number, which has at least six digits. -/
def temporary (n : Nat) : Name where
  bytes := temporaryMark ++ (digits 6 n).reverse
  valid := by
    have plain : ((digits 6 n).reverse).all isPlain = true := by
      rw [List.all_reverse]
      exact all_digits 6 n
    have marks : temporaryMark.all isPlain = true := by decide
    have all : (temporaryMark ++ (digits 6 n).reverse).all isPlain = true := by
      rw [List.all_append, marks, plain]; rfl
    unfold isName
    simp only [Bool.and_eq_true]
    refine ⟨⟨⟨rfl, all⟩, ?_⟩, ?_⟩ <;> simp [temporaryMark, dot]

end Name
end StackSynth
