import Danmaku.Log
import Danmaku.Regex.Meaning

/-! Which log entries are shown. A filter is a list of directives, a level each, alone or for the topics whose
names begin in a certain way, and perhaps an expression that has to occur in the message. Of the directives
that cover a topic the one with the longest name decides. -/

namespace Danmaku

namespace Level

/-- The least severe level that is shown, as a rank, by its word in letters of either case. -/
def threshold? (word : String) : Option Nat :=
  let word := word.map Char.toUpper
  if word = "OFF" then some 0 else ((Named.all : List Level).find? (Named.name · = word)).map rank

end Level

structure Log.Directive where
  /-- How the names of the topics begin; none is for all topics. -/
  name : Option String
  threshold : Nat
  deriving DecidableEq

structure Log.Filter where
  directives : List Log.Directive := []
  search : Option Regex := none

namespace Log

namespace Directive

def length (d : Directive) : Nat := d.name.elim 0 String.utf8ByteSize

def covers (d : Directive) (topic : String) : Bool := d.name.all fun name => topic.startsWith name

/-- Takes the place of the directive with the same name, or comes last. -/
def insert (d : Directive) : List Directive → List Directive
  | [] => [d]
  | e :: ds => if e.name = d.name then d :: ds else e :: insert d ds

/-- Why a word of a filter is left out. -/
def invalid (word : String) : String := s!"invalid logging spec '{word}'"

def trim (text : String) : String :=
  .ofList ((text.toList.dropWhile CharSet.blanks.mem).reverse.dropWhile CharSet.blanks.mem).reverse

/-- A level, a name, or a name with a level; a name alone shows all levels. -/
def read (word : String) : Except String Directive :=
  match word.splitOn "=" with
  | [part] =>
    match Level.threshold? part with
    | some n => .ok ⟨none, n⟩
    | none => .ok ⟨some part, Level.trace.rank⟩
  | [name, level] =>
    let level := trim level
    if level = "" then .ok ⟨some name, Level.trace.rank⟩
    else match Level.threshold? level with
      | some n => .ok ⟨some name, n⟩
      | none => .error (invalid level)
  | _ => .error (invalid word)

end Directive

namespace Filter

def addWord (filter : Filter) (complaints : List String) (word : String) : Filter × List String :=
  if word = "" then (filter, complaints)
  else match Directive.read word with
    | .ok d => ({ filter with directives := d.insert filter.directives }, complaints)
    | .error e => (filter, complaints ++ [e])

/-- Directives with commas between them, and an expression after a slash. A word that is wrong is left out,
with a complaint. -/
def read (text : String) : Filter × List String :=
  let words (directives : String) : Filter × List String :=
    ((directives.splitOn ",").map Directive.trim).foldl (fun r word => r.1.addWord r.2 word) ({}, [])
  match text.splitOn "/" with
  | [directives] => words directives
  | [directives, search] =>
    let (filter, complaints) := words directives
    match Regex.read search with
    | .ok r => ({ filter with search := r }, complaints)
    | .error f => (filter, complaints ++ [s!"invalid regex filter - {f.message search}"])
  | _ => ({}, [Directive.invalid text ++ " (too many '/'s)"])

/-- The least severe level that is shown of a topic. Without any directive errors are shown. -/
def threshold (filter : Filter) (topic : String) : Nat :=
  let longest (best : Option Directive) (d : Directive) : Option Directive :=
    if d.covers topic && best.all (·.length ≤ d.length) then some d else best
  if filter.directives.isEmpty then Level.error.rank
  else (filter.directives.foldl longest none).elim 0 (·.threshold)

/-- Whether an entry of a program is shown. -/
def shows (filter : Filter) (program : String) (e : Entry) : Bool :=
  e.level.rank ≤ filter.threshold (program ++ e.topic.path) && filter.search.all (·.isIn e.message)

end Filter

end Log

end Danmaku
