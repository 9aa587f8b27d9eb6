import Danmaku.Decimal.Shortest

/-! JSON values. A numeral without a point or an exponent that fits in 64 bits is an integer. Any other
number is a `ν`: a decimal in a value that was read, a single in a value to be written. A leaf can be
read that has no value, and does no harm where nobody asks for it. A text that breaks off is read up to there.
An object keeps its members in order, repeated keys included. -/

namespace Danmaku

inductive Json.Leaf (ν : Type) where
  | null | bool (b : Bool) | int (n : Int) | number (x : ν) | string (s : String)
  deriving DecidableEq

inductive Json (ℓ : Type) where
  | leaf (l : ℓ)
  | array (items : List (Json ℓ))
  | object (members : List (String × Json ℓ))

namespace Json

/-- A leaf as it is read. -/
inductive Atom where
  | value (l : Leaf Decimal)
  /-- A numeral too great for double precision. -/
  | tooGreat
  /-- A quoted text with half a pair of surrogates. -/
  | unpaired
  /-- The place where the text stops being well-formed. -/
  | broken
  deriving DecidableEq

/-- A value as it is read. -/
abbrev Input := Json Atom

/-- A value to be written. -/
abbrev Output := Json (Leaf Single)

variable {ν ℓ μ : Type}

@[match_pattern] abbrev null : Json (Leaf ν) := .leaf .null

@[match_pattern] abbrev bool (b : Bool) : Json (Leaf ν) := .leaf (.bool b)

@[match_pattern] abbrev int (n : Int) : Json (Leaf ν) := .leaf (.int n)

@[match_pattern] abbrev number (x : ν) : Json (Leaf ν) := .leaf (.number x)

@[match_pattern] abbrev string (s : String) : Json (Leaf ν) := .leaf (.string s)

mutual

/-- Changes every leaf. -/
def map (f : ℓ → μ) : Json ℓ → Json μ
  | leaf l => leaf (f l)
  | array items => array (mapItems f items)
  | object members => object (mapMembers f members)

def mapItems (f : ℓ → μ) : List (Json ℓ) → List (Json μ)
  | [] => []
  | j :: js => map f j :: mapItems f js

def mapMembers (f : ℓ → μ) : List (String × Json ℓ) → List (String × Json μ)
  | [] => []
  | (key, j) :: ms => (key, map f j) :: mapMembers f ms

end

mutual

def all (p : ℓ → Bool) : Json ℓ → Bool
  | leaf l => p l
  | array items => allItems p items
  | object members => allMembers p members

def allItems (p : ℓ → Bool) : List (Json ℓ) → Bool
  | [] => true
  | j :: js => all p j && allItems p js

def allMembers (p : ℓ → Bool) : List (String × Json ℓ) → Bool
  | [] => true
  | (_, j) :: ms => all p j && allMembers p ms

end

mutual

/-- How many containers are around the innermost leaf or empty container, itself included. -/
def depth : Json ℓ → Nat
  | leaf _ => 0
  | array items => depthOfItems items + 1
  | object members => depthOfMembers members + 1

def depthOfItems : List (Json ℓ) → Nat
  | [] => 0
  | j :: js => max (depth j) (depthOfItems js)

def depthOfMembers : List (String × Json ℓ) → Nat
  | [] => 0
  | (_, j) :: ms => max (depth j) (depthOfMembers ms)

end

def maxDepth : Nat := 127

def Atom.hasValue : Atom → Bool
  | value _ => true
  | _ => false

/-- Whether every leaf has a value and the nesting is within bounds. -/
def isSound (j : Input) : Bool := j.all Atom.hasValue && j.depth ≤ maxDepth

/-- Stands for a member that cannot be read: one with a key that is no text, or the place in an object
where the text breaks off. -/
def unreadable : String × Input := ("", leaf .broken)

def isReadable : String × Input → Bool
  | (_, leaf .broken) => false
  | _ => true

/-- A single as the shortest decimal, where a tie goes to the even one; there is no numeral for a single that
is not finite. -/
def Leaf.written : Leaf Single → Leaf Decimal
  | null => null
  | bool b => bool b
  | int n => int n
  | number x =>
    match x.shortest? .even with
    | some d => number d
    | none => null
  | string s => string s

/-- The value that is written for one with singles. -/
def written (j : Output) : Json (Leaf Decimal) := j.map Leaf.written

end Json

end Danmaku
