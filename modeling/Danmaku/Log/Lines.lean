import Danmaku.Log.Filter

/-! The lines of a log. Lines of a message after the first are indented. What a terminal would not show is
left out: control characters, and the sequences that begin with an escape character. -/

namespace Danmaku.Log

/-- Where a control sequence is. -/
inductive Sequence where
  /-- There is none. -/
  | ground
  | escape | intermediate
  /-- A sequence with parameters, which ends with a letter. -/
  | parameters
  /-- The head of a text for a device: its start, its parameters, and what is between those and the text. -/
  | device | deviceParameters | deviceIntermediate
  /-- A text that ends with a code of its own. -/
  | text
  /-- A text for the system, which a bell ends. -/
  | system
  deriving DecidableEq

namespace Sequence

/-- The code that ends a text. -/
def terminator : Nat := 0x9c

/-- What follows after a byte. -/
def next (s : Sequence) (byte : Nat) : Sequence :=
  if byte = 0x18 ∨ byte = 0x1a then ground
  else if byte = 0x1b then escape
  else
    let final : Bool := 0x40 ≤ byte && byte < 0x7f
    let between : Bool := 0x20 ≤ byte && byte < 0x30
    let parameter : Bool := 0x30 ≤ byte && byte < 0x40
    match s with
    | ground => ground
    | escape =>
      if byte = '['.toNat then parameters
      else if byte = ']'.toNat then system
      else if byte = 'P'.toNat then device
      else if byte = 'X'.toNat ∨ byte = '^'.toNat ∨ byte = '_'.toNat then text
      else if between then intermediate
      else if final || parameter then ground
      else escape
    | intermediate => if final || parameter then ground else intermediate
    | parameters => if final then ground else parameters
    | device =>
      if final then text
      else if between then deviceIntermediate
      else if parameter then deviceParameters
      else device
    | deviceParameters =>
      if final || '<'.toNat ≤ byte && parameter then text
      else if between then deviceIntermediate
      else deviceParameters
    | deviceIntermediate => if final || parameter then text else deviceIntermediate
    | text => if byte = terminator then ground else text
    | system => if byte = 7 then ground else system

/-- Whether blanks inside of a sequence are shown. -/
def showsBlanks : Sequence → Bool
  | ground | escape | intermediate | parameters => true
  | _ => false

end Sequence

def isBlank (c : Char) : Bool := c = ' ' || c = '\t' || c = '\n' || c = '\x0c' || c = '\r'

def isShown (c : Char) : Bool := ' ' ≤ c && c ≠ '\x7f' || isBlank c

/-- What is shown of a text, with the sequence that is open, and whether the character before was shown: then
no sequence holds back the next one. -/
def plain (s : Sequence) (showing : Bool) : List Char → List Char
  | [] => []
  | c :: cs =>
    if (showing || s = .ground) && isShown c then c :: plain (if c.toNat < 0x80 then s else .ground) true cs
    else if s.showsBlanks && isBlank c then c :: plain s true cs
    else plain ((String.utf8EncodeChar c).foldl (fun s byte => s.next byte.toNat) s) false cs

/-- The lines of an entry. -/
def lines (e : Entry) : List String :=
  let text := Named.name e.level ++ " " ++ "\n    ".intercalate (e.message.splitOn "\n")
  (String.ofList (plain .ground true text.toList)).splitOn "\n"

/-- The lines of the entries that a filter shows, after its complaints. -/
def write (program spec : String) (entries : Array Entry) : List String :=
  let (filter, complaints) := Filter.read spec
  complaints.flatMap (fun c => s!"warning: {c}, ignoring it".splitOn "\n") ++
    (entries.toList.filter (filter.shows program)).flatMap lines

end Danmaku.Log
