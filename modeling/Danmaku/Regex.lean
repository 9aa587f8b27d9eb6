/-! Regular expressions. An expression takes the places of a text where a match of it can start to those where
one can end. A place is between two characters, and a set of places is a list with one flag for each place,
so that the flag of a place stands before the character that follows it. -/

namespace Danmaku

/-- A set of characters. -/
inductive CharSet where
  | run (first last : Char)
  | union (a b : CharSet)
  | complement (a : CharSet)
  /-- The characters of which the small or the capital letter is in a set. -/
  | anyCase (a : CharSet)
  deriving DecidableEq

namespace CharSet

def mem (c : Char) : CharSet → Bool
  | run first last => first ≤ c && c ≤ last
  | union a b => a.mem c || b.mem c
  | complement a => !a.mem c
  | anyCase a => a.mem c.toLower || a.mem c.toUpper

def single (c : Char) : CharSet := run c c

def none : CharSet := run '\x01' '\x00'

def ofRuns (runs : List (Char × Char)) : CharSet := runs.foldl (fun s r => s.union (run r.1 r.2)) none

def intersection (a b : CharSet) : CharSet := complement (union (complement a) (complement b))

def difference (a b : CharSet) : CharSet := a.intersection (complement b)

def symmetricDifference (a b : CharSet) : CharSet := (a.union b).difference (a.intersection b)

/-- What words consist of. -/
def word : CharSet := ofRuns [('a', 'z'), ('A', 'Z'), ('0', '9'), ('_', '_')]

def blanks : CharSet := ofRuns
  [('\t', '\r'), (' ', ' '), ('\x85', '\x85'), ('\u00a0', '\u00a0'), ('\u1680', '\u1680'),
    ('\u2000', '\u200a'), ('\u2028', '\u2029'), ('\u202f', '\u202f'), ('\u205f', '\u205f'),
    ('\u3000', '\u3000')]

end CharSet

namespace Regex

/-- Which places at the ends of words are meant. -/
inductive Boundary where
  | any | none | start | stop | halfStart | halfStop
  deriving DecidableEq

/-- Whether the place between two characters is a boundary; the flags say which of them is in a word. -/
def Boundary.holds (before after : Bool) : Boundary → Bool
  | any => before != after
  | none => before == after
  | start => !before && after
  | stop => before && !after
  | halfStart => !before
  | halfStop => !after

/-- A condition on the characters before and after a place. -/
inductive Look where
  | textStart | textEnd | lineStart | lineEnd
  /-- A line ends with a line feed, a carriage return, or both. -/
  | anyLineStart | anyLineEnd
  | word (b : Boundary)
  deriving DecidableEq

def Look.holds (before after : Option Char) : Look → Bool
  | textStart => before.isNone
  | textEnd => after.isNone
  | lineStart => before.all (· = '\n')
  | lineEnd => after.all (· = '\n')
  | anyLineStart => before.all fun c => c = '\n' || c = '\r' && after ≠ some '\n'
  | anyLineEnd => after.all fun c => c = '\r' || c = '\n' && before ≠ some '\r'
  | word b => b.holds (before.any CharSet.word.mem) (after.any CharSet.word.mem)

end Regex

inductive Regex where
  | empty
  | one (s : CharSet)
  | look (l : Regex.Look)
  | seq (r s : Regex)
  | alt (r s : Regex)
  /-- So many times or more, and at most so many if there is a bound. -/
  | many (r : Regex) (least : Nat) (most : Option Nat)
  deriving DecidableEq

namespace Regex

/-- How many characters an expression is about, with those of a repetition counted every time. -/
def size : Regex → Nat
  | empty | look _ => 0
  | one _ => 1
  | seq r s | alt r s => r.size + s.size
  | many r least most => r.size * max 1 (most.getD least)

/-- The places of two sets. -/
def join (a b : List Bool) : List Bool := List.zipWith or a b

/-- The places that so many steps lead to. -/
def iterate (step : List Bool → List Bool) : Nat → List Bool → List Bool
  | 0, places => places
  | n + 1, places =>
    let next := step places
    if next = places then places else iterate step n next

/-- The places that a step leads to, taken up to so many times, and those before it. -/
def reach (step : List Bool → List Bool) (n : Nat) (places : List Bool) : List Bool :=
  iterate (fun places => join places (step places)) n places

/-- The places where a match can end that starts at a given place. -/
def ends (text : List Char) : Regex → List Bool → List Bool
  | empty, places => places
  | one s, places => false :: List.zipWith (fun here c => here && s.mem c) places text
  | look l, places =>
    let after := text.map some ++ [none]
    let before := none :: text.map some
    List.zipWith (fun (here : Bool) (around : Option Char × Option Char) => here && l.holds around.1 around.2)
      places (before.zip after)
  | seq r s, places => ends text s (ends text r places)
  | alt r s, places => join (ends text r places) (ends text s places)
  | many r least most, places =>
    let more := match most with
      | some n => n - least
      | none => text.length + 1
    reach (ends text r) more (iterate (ends text r) least places)

/-- Whether a match can be found in a text. -/
def isIn (r : Regex) (text : String) : Bool :=
  let cs := text.toList
  (r.ends cs (List.replicate (cs.length + 1) true)).any id

end Regex

end Danmaku
