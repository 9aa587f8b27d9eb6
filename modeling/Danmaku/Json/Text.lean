import Danmaku.Json.Token

/-! The text of a value, through its tokens. Reading keeps the open containers in a list, innermost first,
each with its items so far in reverse. Writing sets each item on a line of its own, indented by its depth, or
sets no blanks at all. -/

namespace Danmaku.Json

mutual

/-- The tokens of a value before others. -/
def tokens (rest : List (Token (Leaf Decimal))) : Json (Leaf Decimal) → List (Token (Leaf Decimal))
  | leaf l => .leaf l :: rest
  | array [] => .opening .square :: .closing .square :: rest
  | array (j :: js) => .opening .square :: tokens (itemTokens (.closing .square :: rest) js) j
  | object [] => .opening .curly :: .closing .curly :: rest
  | object ((key, j) :: ms) =>
    .opening .curly :: .leaf (.string key) :: .colon :: tokens (memberTokens (.closing .curly :: rest) ms) j

def itemTokens (rest : List (Token (Leaf Decimal))) :
    List (Json (Leaf Decimal)) → List (Token (Leaf Decimal))
  | [] => rest
  | j :: js => .comma :: tokens (itemTokens rest js) j

def memberTokens (rest : List (Token (Leaf Decimal))) :
    List (String × Json (Leaf Decimal)) → List (Token (Leaf Decimal))
  | [] => rest
  | (key, j) :: ms => .comma :: .leaf (.string key) :: .colon :: tokens (memberTokens rest ms) j

end

/-- The key in a leaf. With half a pair of surrogates it is still a key, though not a text. -/
def Atom.key? : Atom → Option (Option String)
  | value (.string key) => some (some key)
  | unpaired => some none
  | _ => none

def member (key : Option String) (j : Input) : String × Input :=
  match key with
  | some key => (key, j)
  | none => unreadable

/-- An open container with the items before the one that is being read. -/
inductive Layer where
  | array (items : List Input)
  | object (members : List (String × Input)) (key : Option String)

/-- What a text holds, and whether it is well-formed; else, the value goes as far as the text does. -/
structure Reading where
  value : Input
  whole : Bool

/-- Breaks off after a value, in all open containers. -/
def breakOff (j : Input) : List Layer → Reading
  | [] => ⟨j, false⟩
  | .array items :: layers => breakOff (array (leaf .broken :: j :: items).reverse) layers
  | .object members key :: layers => breakOff (object (unreadable :: member key j :: members).reverse) layers

mutual

/-- Reads a value, and goes on. -/
def readValue (layers : List Layer) : List (Token Atom) → Reading
  | .leaf l :: ts => resume (leaf l) layers ts
  | .opening .square :: .closing .square :: ts => resume (array []) layers ts
  | .opening .square :: ts => readValue (.array [] :: layers) ts
  | .opening .curly :: .closing .curly :: ts => resume (object []) layers ts
  | .opening .curly :: .leaf l :: .colon :: ts =>
    match l.key? with
    | some key => readValue (.object [] key :: layers) ts
    | none => breakOff (leaf .broken) layers
  | _ => breakOff (leaf .broken) layers

/-- Goes on after a value. -/
def resume (j : Input) (layers : List Layer) : List (Token Atom) → Reading
  | [] =>
    match layers with
    | [] => ⟨j, true⟩
    | _ => breakOff j layers
  | .comma :: .leaf l :: .colon :: ts =>
    match layers, l.key? with
    | .object members key' :: layers, some key =>
      readValue (.object (member key' j :: members) key :: layers) ts
    | _, _ => breakOff j layers
  | .comma :: ts =>
    match layers with
    | .array items :: layers => readValue (.array (j :: items) :: layers) ts
    | _ => breakOff j layers
  | .closing .square :: ts =>
    match layers with
    | .array items :: layers => resume (array (j :: items).reverse) layers ts
    | _ => breakOff j layers
  | .closing .curly :: ts =>
    match layers with
    | .object members key :: layers => resume (object (member key j :: members).reverse) layers ts
    | _ => breakOff j layers
  | _ => breakOff j layers

end

def read (text : String) : Reading := readValue [] (Token.read text.toList)

def line (depth : Nat) : List Char := '\n' :: List.replicate (2 * depth) ' '

/-- Lays tokens out on lines, at a depth. -/
def layOut (depth : Nat) : List (Token (Leaf Decimal)) → List Char
  | [] => []
  | .opening b :: .closing b' :: ts => b.left :: b'.right :: layOut depth ts
  | .opening b :: ts => b.left :: (line (depth + 1) ++ layOut (depth + 1) ts)
  | .closing b :: ts => line (depth - 1) ++ b.right :: layOut (depth - 1) ts
  | .comma :: ts => ',' :: (line depth ++ layOut depth ts)
  | .colon :: ts => ':' :: ' ' :: layOut depth ts
  | .leaf l :: ts => l.chars ++ layOut depth ts

/-- The brackets of an empty container stay together. -/
example : layOut 0 [.opening .square, .closing .square, .comma] = ['[', ']', ',', '\n'] := by cbv

/-- The text with a line for each item; an empty container is on one line. -/
def pretty (j : Output) : String := .ofList (layOut 0 (j.written.tokens []))

def compact (j : Json (Leaf Decimal)) : String := .ofList ((j.tokens []).flatMap Token.chars)

end Danmaku.Json
