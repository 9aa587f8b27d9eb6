import Danmaku.Regex.Pattern.Escape

/-! Classes in brackets. Open brackets and the left sides of set operations are kept in a list, innermost
first, beside the items of the class that is being read. -/

namespace Danmaku.Regex

inductive ClassLayer where
  /-- An open bracket: the items before it, the last one first, and where there would be the first of them;
  its place, with what belongs to its opening, and whether the class is negated. -/
  | bracket (outer : List CharClass) (outerStart : Span) (place : Span) (negated : Bool)
  | op (o : SetOp) (left : CharClass)

/-- A class that is being read: its items, the last one first, and where there would be the first of them. -/
structure ClassState where
  layers : List ClassLayer := []
  items : List CharClass := []
  start : Span

namespace ClassState

def push (s : ClassState) (c : CharClass) : ClassState := { s with items := c :: s.items }

/-- The fault of a class that does not end is said with the innermost open bracket. -/
def unclosed {α : Type} (layers : List ClassLayer) : Except Fault α :=
  let place? : ClassLayer → Option Span
    | .bracket _ _ place _ => some place
    | .op _ _ => none
  .error (.inText .unclosedClass ((layers.findSome? place?).getD ⟨0, 0⟩) none)

/-- The items so far, as the right side of a set operation if there is a left one. -/
def finishSide (s : ClassState) : CharClass × List ClassLayer :=
  let right := CharClass.ofItems s.start s.items
  match s.layers with
  | .op o left :: layers => (.op ⟨left.place.start, right.place.stop⟩ o left right, layers)
  | layers => (right, layers)

/-- The names of classes within brackets. -/
def named? : List Char → Option CharSet
  | ['a', 'l', 'n', 'u', 'm'] => some (.ofRuns [('0', '9'), ('A', 'Z'), ('a', 'z')])
  | ['a', 'l', 'p', 'h', 'a'] => some (.ofRuns [('A', 'Z'), ('a', 'z')])
  | ['a', 's', 'c', 'i', 'i'] => some (.run '\x00' '\x7f')
  | ['b', 'l', 'a', 'n', 'k'] => some (.ofRuns [('\t', '\t'), (' ', ' ')])
  | ['c', 'n', 't', 'r', 'l'] => some (.ofRuns [('\x00', '\x1f'), ('\x7f', '\x7f')])
  | ['d', 'i', 'g', 'i', 't'] => some (.run '0' '9')
  | ['g', 'r', 'a', 'p', 'h'] => some (.run '!' '~')
  | ['l', 'o', 'w', 'e', 'r'] => some (.run 'a' 'z')
  | ['p', 'r', 'i', 'n', 't'] => some (.run ' ' '~')
  | ['p', 'u', 'n', 'c', 't'] => some (.ofRuns [('!', '/'), (':', '@'), ('[', '\x60'), ('\x7b', '~')])
  | ['s', 'p', 'a', 'c', 'e'] => some (.ofRuns [('\t', '\r'), (' ', ' ')])
  | ['u', 'p', 'p', 'e', 'r'] => some (.run 'A' 'Z')
  | ['w', 'o', 'r', 'd'] => some .word
  | ['x', 'd', 'i', 'g', 'i', 't'] => some (.ofRuns [('0', '9'), ('A', 'F'), ('a', 'f')])
  | _ => none

/-- A class by its name, between colons in brackets. -/
def readNamed? (start : List Char) : Option (CharClass × List Char) :=
  match start with
  | '[' :: ':' :: cs =>
    let (negated, cs) : Bool × List Char :=
      match cs with
      | '^' :: cs => (true, cs)
      | cs => (false, cs)
    match cs.dropWhile (· ≠ ':') with
    | ':' :: ']' :: rest =>
      (named? (cs.takeWhile (· ≠ ':'))).map fun s => (.named (span start rest) negated s, rest)
    | _ => none
  | _ => none

def verbatim (c : Char) (cs : List Char) : Literal := { place := span (c :: cs) cs, char := c }

/-- The dashes at the start of a class, at most so many. -/
def readDashes (spaced : Bool) (start : List Char) (items : List CharClass) :
    Nat → List Char → Except Fault (List CharClass × List Char)
  | n + 1, '-' :: cs =>
    match skip spaced cs with
    | [] => fail .unclosedClass start start
    | rest => readDashes spaced start (.literal (verbatim '-' cs) :: items) n rest
  | _, cs => .ok (items, cs)

/-- Opens a bracket, which is at the start. A caret turns the class over; dashes come next, and a closing
bracket as the first item is an item. -/
def openBracket (spaced : Bool) (s : ClassState) (start : List Char) :
    Except Fault (ClassState × List Char) := do
  let unfinished {α : Type} : Except Fault α := fail .unclosedClass start []
  let opened := skip spaced start.tail
  if opened.isEmpty then unfinished
  let negated := opened.head? = some '^'
  let cs := if negated then skip spaced opened.tail else opened
  if cs.isEmpty then unfinished
  let (items, rest) ← readDashes spaced start [] cs.length cs
  let (items, rest) ←
    match items, rest with
    | [], ']' :: rest =>
      let rest' := skip spaced rest
      if rest'.isEmpty then unfinished else .ok ([.literal (verbatim ']' rest)], rest')
    | _, _ => .ok (items, rest)
  return ({ layers := .bracket s.items s.start (span start rest) negated :: s.layers, items
            start := span cs cs }, rest)

/-- An item, which is an escape or a character. -/
def readItem (spaced : Bool) (cs : List Char) : Except Fault (Escape × List Char) :=
  match cs with
  | '\\' :: _ => readEscape spaced cs
  | c :: rest => .ok (.literal (verbatim c rest), rest)
  | [] => fail .unclosedClass [] []

def classOf : Escape → Except Fault CharClass
  | .literal l => .ok (.literal l)
  | .cls c => .ok c
  | .assertion place _ => .error (.inText .classEscape place none)

def literalOf : Escape → Except Fault Literal
  | .literal l => .ok l
  | e => .error (.inText .rangeOfClass e.place none)

/-- An item or a range of two characters. A dash before a closing bracket or another dash makes no range. -/
def readRange (spaced : Bool) (s : ClassState) (cs : List Char) : Except Fault (CharClass × List Char) := do
  let (first, rest) ← readItem spaced cs
  match skip spaced rest with
  | [] => unclosed s.layers
  | '-' :: after =>
    match skip spaced after with
    | [] => unclosed s.layers
    | c :: cs =>
      if c = ']' || c = '-' then return (← classOf first, '-' :: after)
      else
        let (last, rest) ← readItem spaced (c :: cs)
        let a ← literalOf first
        let b ← literalOf last
        if b.char < a.char then .error (.inText .invalidRange ⟨a.place.start, b.place.stop⟩ none)
        else return (.range a b, rest)
  | rest => return (← classOf first, rest)

/-- The sign of a set operation. -/
def op? : List Char → Option (SetOp × List Char)
  | '&' :: '&' :: rest => some (.intersection, rest)
  | '-' :: '-' :: rest => some (.difference, rest)
  | '~' :: '~' :: rest => some (.symmetricDifference, rest)
  | _ => none

/-- Reads on up to the end of the outermost bracket, at most so many items. -/
def read (spaced : Bool) : Nat → ClassState → List Char → Except Fault (CharClass × List Char)
  | 0, s, _ => unclosed s.layers
  | n + 1, s, cs =>
    match skip spaced cs with
    | [] => unclosed s.layers
    | start@('[' :: _) =>
      match if s.layers.isEmpty then none else readNamed? start with
      | some (c, rest) => read spaced n (s.push c) rest
      | none => do
        let (s, rest) ← openBracket spaced s start
        read spaced n s rest
    | ']' :: rest =>
      match s.finishSide with
      | (c, .bracket outer outerStart place negated :: layers) =>
        let c := CharClass.bracketed ⟨place.start, rest.length⟩ negated c
        if layers.isEmpty then .ok (c, rest)
        else read spaced n { layers, items := c :: outer, start := outerStart } rest
      | (_, layers) => unclosed layers
    | cs =>
      match op? cs with
      | some (o, rest) =>
        let (left, layers) := s.finishSide
        read spaced n { layers := .op o left :: layers, start := span rest rest } rest
      | none => do
        let (c, rest) ← readRange spaced s cs
        read spaced n (s.push c) rest

end ClassState

/-- A class in brackets, of which the first is at the start. -/
def readBrackets (spaced : Bool) (start : List Char) : Except Fault (CharClass × List Char) :=
  ClassState.read spaced (start.length + 1) { start := span start start } start

end Danmaku.Regex
