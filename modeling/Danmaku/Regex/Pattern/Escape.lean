import Danmaku.Json.Quoted
import Danmaku.Regex.Fault

/-! Escapes in patterns, and the classes in brackets that they can occur in. What is left of the text after a
part is handed on; a fault is said with the text from where it starts to where it ends. -/

namespace Danmaku.Regex

open Quoted (hexDigit?)

def span (start stop : List Char) : Span := ⟨start.length, stop.length⟩

def fail {α : Type} (kind : Fault.Kind) (start stop : List Char) : Except Fault α :=
  .error (.inText kind (span start stop) none)

/-- Leaves out blanks, and comments up to the end of their lines. -/
def skipSpaces (inComment : Bool) : List Char → List Char
  | [] => []
  | c :: cs =>
    if inComment then skipSpaces (c ≠ '\n') cs
    else if CharSet.blanks.mem c then skipSpaces false cs
    else if c = '#' then skipSpaces true cs
    else c :: cs

def skip (spaced : Bool) (cs : List Char) : List Char := if spaced then skipSpaces false cs else cs

inductive Escape where
  | literal (l : Literal)
  | cls (c : CharClass)
  | assertion (place : Span) (a : Assertion)

def Escape.place : Escape → Span
  | literal l => l.place
  | cls c => c.place
  | assertion place _ => place

/-- What an escape with one letter stands for, other than that character itself. -/
def control? : Char → Option Char
  | 'a' => some '\x07'
  | 'f' => some '\x0c'
  | 't' => some '\t'
  | 'n' => some '\n'
  | 'r' => some '\r'
  | 'v' => some '\x0b'
  | _ => none

/-- The class of a letter, in which a capital turns it over. -/
def lettered? (c : Char) : Option (Bool × CharSet) :=
  match c with
  | 'd' | 'D' => some (c = 'D', .run '0' '9')
  | 's' | 'S' => some (c = 'S', .ofRuns [('\t', '\r'), (' ', ' ')])
  | 'w' | 'W' => some (c = 'W', .word)
  | _ => none

def assertion? : Char → Option Assertion
  | 'A' => some .textStart
  | 'z' => some .textEnd
  | 'b' => some (.word .any)
  | 'B' => some (.word .none)
  | '<' => some (.word .start)
  | '>' => some (.word .stop)
  | _ => none

def boundary? : List Char → Option Boundary
  | ['s', 't', 'a', 'r', 't'] => some .start
  | ['e', 'n', 'd'] => some .stop
  | ['s', 't', 'a', 'r', 't', '-', 'h', 'a', 'l', 'f'] => some .halfStart
  | ['e', 'n', 'd', '-', 'h', 'a', 'l', 'f'] => some .halfStop
  | _ => none

/-! Characters by number -/

def charOf? (n : Nat) : Option Char := if n.isValidChar then some (.ofNat n) else none

/-- So many hexadecimal digits. -/
def readHexDigits (spaced : Bool) (value : Nat) : Nat → List Char → Except Fault (Nat × List Char)
  | 0, cs => .ok (value, cs)
  | _ + 1, [] => fail .unfinishedEscape [] []
  | n + 1, c :: cs =>
    match hexDigit? c with
    | some d => readHexDigits spaced (value * 16 + d) n (skip spaced cs)
    | none => fail .invalidHex (c :: cs) cs

/-- Hexadecimal digits up to a closing brace, at most so many, and their number. -/
def readHexBraces (spaced : Bool) (opening : List Char) (value count : Nat) :
    Nat → List Char → Except Fault (Nat × Nat × List Char)
  | _, [] | 0, _ => fail .unfinishedEscape opening []
  | n + 1, c :: cs =>
    if c = '\x7d' then .ok (value, count, c :: cs)
    else match hexDigit? c with
      | some d => readHexBraces spaced opening (value * 16 + d) (count + 1) n (skip spaced cs)
      | none => fail .invalidHex (c :: cs) cs

/-- A character by its number, after the letter of the escape. -/
def readHex (spaced : Bool) (start : List Char) (count : Nat) (cs : List Char) :
    Except Fault (Literal × List Char) :=
  match skip spaced cs with
  | [] => fail .unfinishedEscape [] []
  | '\x7b' :: cs => do
    let opening := '\x7b' :: cs
    let (value, count, stop) ← readHexBraces spaced opening 0 0 opening.length (skip spaced cs)
    let rest := skip spaced stop.tail
    if count = 0 then fail .emptyHex opening rest
    else match charOf? value with
      | some char => return ({ place := span start rest, char }, rest)
      | none => fail .invalidCharacter cs stop
  | cs => do
    let (value, rest) ← readHexDigits spaced 0 count cs
    match charOf? value with
    | some char => return ({ place := span start rest, char, isByte := count = 2 }, rest)
    | none => fail .invalidCharacter cs rest

/-! Properties -/

/-- The name of a property without what makes no difference. -/
def plainName (name : List Char) : List Char :=
  let name := name.map Char.toLower
  let name := match name with
    | 'i' :: 's' :: name => name
    | name => name
  name.filter fun c => c ≠ ' ' && c ≠ '_' && c ≠ '-' && c.toNat < 0x80

/-- Whether a name is that of a value of a property, and not of a property. -/
def isValueName (name : List Char) : Bool :=
  let name := plainName name
  name = ['c', 'f'] || name = ['s', 'c'] || name = ['l', 'c']

/-- A property, after the letter of the escape: one letter, or a name in braces. -/
def readProperty (spaced : Bool) (start cs : List Char) : Except Fault (CharClass × List Char) :=
  match skip spaced cs with
  | [] => fail .unfinishedEscape [] []
  | '\x7b' :: cs =>
    match cs.dropWhile (· ≠ '\x7d') with
    | [] => fail .unfinishedEscape [] []
    | _ :: rest => .ok (.property (span start rest) (isValueName (cs.takeWhile (· ≠ '\x7d'))), rest)
  | c :: cs =>
    if c = '\\' then fail .invalidProperty (c :: cs) cs
    else .ok (.property (span start (skip spaced cs)) false, skip spaced cs)

/-! Escapes -/

def isBoundaryChar (c : Char) : Bool := c.isAlpha || c = '-'

/-- A boundary by name, in braces; none where the braces hold something else. -/
def readBoundary? (spaced : Bool) (start cs : List Char) : Except Fault (Option (Boundary × List Char)) :=
  match cs with
  | '\x7b' :: inner =>
    match skip spaced inner with
    | [] => fail .unfinishedBraces start []
    | contents@(c :: _) =>
      if isBoundaryChar c then
        let name := contents.takeWhile isBoundaryChar
        match contents.dropWhile isBoundaryChar with
        | stop@('\x7d' :: rest) =>
          match boundary? name with
          | some b => .ok (some (b, rest))
          | none => fail .unknownBoundary contents stop
        | stop => fail .unclosedBoundary cs stop
      else .ok none
  | _ => .ok none

/-- The escape with a backslash at its start. -/
def readEscape (spaced : Bool) (start : List Char) : Except Fault (Escape × List Char) :=
  let hex (count : Nat) (cs : List Char) : Except Fault (Escape × List Char) := do
    let (l, rest) ← readHex spaced start count cs
    return (.literal l, rest)
  match start.tail with
  | [] => fail .unfinishedEscape start []
  | 'x' :: cs => hex 2 cs
  | 'u' :: cs => hex 4 cs
  | 'U' :: cs => hex 8 cs
  | c :: cs => do
    if c.isDigit then fail .backReference start cs
    else if c = 'p' || c = 'P' then
      let (c, rest) ← readProperty spaced start cs
      return (.cls c, rest)
    else if let some (negated, s) := lettered? c then return (.cls (.lettered (span start cs) negated s), cs)
    else if let some char := control? c then return (.literal { place := span start cs, char }, cs)
    else if let some a := assertion? c then
      match c, ← if c = 'b' then readBoundary? spaced start cs else .ok none with
      | 'b', some (b, rest) => return (.assertion (span start rest) (.word b), rest)
      | _, _ => return (.assertion (span start cs) a, cs)
    else if c.isAlpha || 0x7f < c.toNat then fail .unknownEscape start cs
    else return (.literal { place := span start cs, char := c }, cs)

end Danmaku.Regex
