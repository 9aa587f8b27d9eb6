import Danmaku.Json.Numeral
import Danmaku.Json.Quoted

/-! Tokens: the text of a value without its blanks. Between two tokens there can be any blanks; a word
ends where a character cannot continue it. -/

namespace Danmaku.Json

/-- The two kinds of container. -/
inductive Bracket where
  | square | curly
  deriving DecidableEq

inductive Token (ℓ : Type) where
  | opening (b : Bracket) | closing (b : Bracket) | comma | colon | leaf (l : ℓ)
  deriving DecidableEq

def Bracket.left : Bracket → Char
  | square => '['
  | curly => '\x7b'

def Bracket.right : Bracket → Char
  | square => ']'
  | curly => '\x7d'

def Leaf.chars : Leaf Decimal → List Char
  | null => ['n', 'u', 'l', 'l']
  | bool true => ['t', 'r', 'u', 'e']
  | bool false => ['f', 'a', 'l', 's', 'e']
  | int n => intChars n
  | number d => d.chars decimalStyle
  | string s => Quoted.write s.toList

namespace Token

def chars : Token (Leaf Decimal) → List Char
  | opening b => [b.left]
  | closing b => [b.right]
  | comma => [',']
  | colon => [':']
  | leaf l => l.chars

def isBlank (c : Char) : Bool := c = ' ' || c = '\n' || c = '\t' || c = '\r'

/-- The characters of names and numerals. -/
def isWordChar (c : Char) : Bool := c.isAlphanum || c = '+' || c = '-' || c = '.'

/-- The token of one character. -/
def ofMark? {ℓ : Type} (c : Char) : Option (Token ℓ) :=
  if c = Bracket.square.left then some (.opening .square)
  else if c = Bracket.square.right then some (.closing .square)
  else if c = Bracket.curly.left then some (.opening .curly)
  else if c = Bracket.curly.right then some (.closing .curly)
  else if c = ',' then some .comma
  else if c = ':' then some .colon
  else none

def ofText : Option (List Char) → Atom
  | some t => .value (.string (.ofList t))
  | none => .unpaired

/-- The token that starts with a character, and what follows it. -/
def next? (c : Char) (cs : List Char) : Option (Token Atom × List Char) :=
  match ofMark? c with
  | some t => some (t, cs)
  | none =>
    if c = '"' then
      (Quoted.read? cs).map fun (text, rest) => (.leaf (ofText text), rest)
    else if isWordChar c then
      (ofWord? (c :: cs.takeWhile isWordChar)).map fun l => (.leaf l, cs.dropWhile isWordChar)
    else none

theorem length_next? {c : Char} {cs rest : List Char} {t : Token Atom} (h : next? c cs = some (t, rest)) :
    rest.length ≤ cs.length := by
  unfold next? at h
  split at h
  · simp_all
  · split at h
    · obtain ⟨⟨text, r⟩, hr, h⟩ := Option.map_eq_some_iff.1 h
      have := Quoted.length_read? hr
      simp_all
      omega
    · split at h
      · obtain ⟨l, -, h⟩ := Option.map_eq_some_iff.1 h
        simp only [Prod.mk.injEq] at h
        rw [← h.2]
        exact (List.dropWhile_suffix _).length_le
      · simp at h

/-- The tokens of a text, up to where it breaks off. -/
def read (cs : List Char) : List (Token Atom) :=
  match cs with
  | [] => []
  | c :: cs =>
    if isBlank c then read cs
    else
      match _h : next? c cs with
      | some (t, rest) => t :: read rest
      | none => [.leaf .broken]
termination_by cs.length
decreasing_by
  · simp
  · have := length_next? _h
    simp
    omega

end Token

end Danmaku.Json
