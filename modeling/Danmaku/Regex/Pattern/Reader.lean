import Danmaku.Regex.Pattern.Brackets

/-! Reading patterns. Open groups are kept in a list, innermost first; each has its earlier branches and the
pieces of its last branch so far, the last ones first. -/

namespace Danmaku.Regex.Pattern

/-- A group that is being read, or the whole pattern. -/
structure Level where
  /-- The text from its bracket on. -/
  opening : List Char
  changes : Changes
  spaced : Bool
  /-- The text from its first branch on, and from its last branch on. -/
  first : List Char
  last : List Char
  branches : List Pattern := []
  pieces : List Pattern := []

namespace Level

def push (g : Level) (p : Pattern) : Level := { g with pieces := p :: g.pieces }

/-- The branches, of which the last one ends at a place. -/
def allBranches (g : Level) (stop : List Char) : List Pattern :=
  Pattern.ofPieces (span g.last stop) g.pieces.reverse :: g.branches

/-- Begins a branch after a bar. -/
def branchOff (g : Level) (bar : List Char) : Level :=
  { g with branches := g.allBranches bar, pieces := [], last := bar.tail }

/-- What it holds up to a place. -/
def body (g : Level) (stop : List Char) : Pattern :=
  .ofBranches (span g.first stop) (g.allBranches stop).reverse

end Level

/-- A pattern that is being read: the innermost group, those around it, and the names so far. -/
structure State where
  level : Level
  outer : List Level := []
  names : List (List Char × Span) := []

namespace State

def push (s : State) (p : Pattern) : State := { s with level := s.level.push p }

/-! Repetitions -/

/-- Takes the last piece, which a repetition at a place is for. -/
def popPiece (s : State) (start : List Char) : Except Fault (Pattern × State) :=
  match s.level.pieces with
  | p :: pieces =>
    if p.isRepeatable then .ok (p, { s with level := { s.level with pieces } })
    else fail .nothingToRepeat start start
  | [] => fail .nothingToRepeat start start

/-- After a repetition, a question mark says which of several matches counts, which is nothing to us. -/
def skipLazy : List Char → List Char
  | '?' :: cs => cs
  | cs => cs

def repeatLast (s : State) (start rest : List Char) (least : Nat) (most : Option Nat) :
    Except Fault (State × List Char) := do
  let (p, s) ← s.popPiece start
  return (s.push (.repetition ⟨p.place.start, rest.length⟩ p least most), rest)

/-- Decimal digits with what is left out between them, at most so many. -/
def takeDigits (spaced : Bool) : Nat → List Char → List Char × List Char
  | n + 1, c :: cs =>
    if c.isDigit then
      let (digits, rest) := takeDigits spaced n (skip spaced cs)
      (c :: digits, rest)
    else ([], c :: cs)
  | _, cs => ([], cs)

/-- A number with blanks around it. -/
def readNumber (spaced : Bool) (cs : List Char) : Except Fault Nat × List Char :=
  let start := cs.dropWhile CharSet.blanks.mem
  let (digits, stop) := takeDigits spaced start.length start
  let n := digits.foldl (fun n c => n * 10 + (c.toNat - '0'.toNat)) 0
  (if digits.isEmpty then fail .noCount start stop
    else if UInt32.size ≤ n then fail .invalidNumber start stop
    else .ok n,
    skip spaced (stop.dropWhile CharSet.blanks.mem))

/-- Bounds in braces, of which the first is at the start. -/
def readCounts (spaced : Bool) (start : List Char) : Except Fault (Nat × Option Nat × List Char) := do
  let finish (least : Nat) (most : Option Nat) (stop : List Char) :
      Except Fault (Nat × Option Nat × List Char) :=
    match stop with
    | '\x7d' :: rest =>
      let rest := skipLazy (skip spaced rest)
      if most.any (· < least) then fail .invalidCount start rest else .ok (least, most, rest)
    | _ => fail .unclosedCount start stop
  match skip spaced start.tail with
  | [] => fail .unclosedCount start []
  | cs =>
    let (least, rest) := readNumber spaced cs
    match rest with
    | [] => fail .unclosedCount start []
    | ',' :: rest =>
      match skip spaced rest with
      | [] => fail .unclosedCount start []
      | '\x7d' :: rest => finish (← least) none ('\x7d' :: rest)
      | cs =>
        let least ← least
        let (most, rest) := readNumber spaced cs
        finish least (← most) rest
    | rest =>
      let n ← least
      finish n n rest

/-! Groups -/

def flag? : Char → Option Flag
  | 'i' => some .anyCase
  | 'm' => some .manyLines
  | 's' => some .dotAll
  | 'U' => some .swapGreed
  | 'u' => some .unicode
  | 'R' => some .anyLine
  | 'x' => some .spaced
  | _ => none

/-- Flags up to a colon or a closing bracket; a dash, which is no flag, stands before those to be cleared. -/
def readFlags (items : List (Option Flag × Span)) :
    List Char → Except Fault (List (Option Flag × Span) × List Char)
  | [] => fail .unfinishedFlags [] []
  | c :: cs =>
    if c = ':' || c = ')' then
      match items with
      | (none, place) :: _ => .error (.inText .danglingNegation place none)
      | _ => .ok (items.reverse, c :: cs)
    else
      let place := span (c :: cs) cs
      match flag? c, decide (c = '-') with
      | none, false => .error (.inText .unknownFlag place none)
      | item, negation =>
        match items.lookup item with
        | some earlier =>
          .error (.inText (if negation then .repeatedNegation else .repeatedFlag) place earlier)
        | none => readFlags ((item, place) :: items) cs

/-- What flags are set and cleared by some items. -/
def changesOf : Bool → List (Option Flag × Span) → Changes
  | _, [] => []
  | _, (none, _) :: items => changesOf false items
  | on, (some f, _) :: items => (f, on) :: changesOf on items

def isNameChar (first : Bool) (c : Char) : Bool :=
  c = '_' || c.isAlpha || 0x7f < c.toNat || !first && (c = '.' || c = '[' || c = ']' || c.isDigit)

/-- The characters of a name, up to one that is not of it. -/
def takeName (first : Bool) : List Char → List Char × List Char
  | [] => ([], [])
  | c :: cs =>
    if isNameChar first c then
      let (name, rest) := takeName false cs
      (c :: name, rest)
    else ([], c :: cs)

/-- A name, which has to be a new one, and the rest after its closing bracket. -/
def readName (names : List (List Char × Span)) (start : List Char) :
    Except Fault (List Char × Span × List Char) :=
  match takeName true start with
  | (_, []) => fail .unfinishedName [] []
  | (name, '>' :: rest) =>
    let place := span start ('>' :: rest)
    if name.isEmpty then fail .emptyName start start
    else match names.lookup name with
      | some earlier => .error (.inText .repeatedName place earlier)
      | none => .ok (name, place, rest)
  | (_, c :: rest) => fail .invalidName (c :: rest) rest

/-- Enters a group, of which the text starts at its bracket and the first branch at `rest`. -/
def enter (s : State) (start rest : List Char) (changes : Changes) : State :=
  let spaced := (changes.lookup .spaced).getD s.level.spaced
  { s with
    level := { opening := start, changes, spaced, first := rest, last := rest }
    outer := s.level :: s.outer }

/-- Opens a group, or sets flags for the rest of the one that is open. -/
def openGroup (s : State) (start : List Char) : Except Fault (State × List Char) :=
  let named (cs : List Char) : Except Fault (State × List Char) := do
    let (name, place, rest) ← readName s.names cs
    return ({ s.enter start rest [] with names := (name, place) :: s.names }, rest)
  match skip s.level.spaced start.tail with
  | '?' :: '=' :: cs | '?' :: '!' :: cs | '?' :: '<' :: '=' :: cs | '?' :: '<' :: '!' :: cs =>
    fail .lookAround start cs
  | '?' :: 'P' :: '<' :: cs | '?' :: '<' :: cs => named cs
  | inner@('?' :: cs) => do
    if cs.isEmpty then fail .unclosedGroup start start.tail
    let (items, stop) ← readFlags [] cs
    let changes := changesOf true items
    if stop.head? = some ':' then return (s.enter start stop.tail changes, stop.tail)
    else if items.isEmpty then fail .nothingToRepeat inner inner
    else
      let spaced := (changes.lookup .spaced).getD s.level.spaced
      let s := { s with level := { s.level with spaced } }
      return (s.push (.flags (span start stop.tail) changes), stop.tail)
  | cs => .ok (s.enter start cs [], cs)

/-- Closes the innermost group at its bracket. -/
def closeGroup (s : State) (start : List Char) : Except Fault (State × List Char) :=
  match s.outer with
  | [] => fail .unopenedGroup start start.tail
  | level :: outer =>
    let g := Pattern.group (span s.level.opening start.tail) s.level.changes (s.level.body start)
    .ok ({ s with level := level.push g, outer }, start.tail)

/-! Pieces -/

def ofEscape : Escape → Pattern
  | .literal l => .literal l
  | .cls c => .cls c
  | .assertion place a => .assertion place a

/-- Reads one piece, and leaves the rest. -/
def step (s : State) (start : List Char) (c : Char) (cs : List Char) : Except Fault (State × List Char) :=
  let spaced := s.level.spaced
  let place := span start cs
  match c with
  | '(' => s.openGroup start
  | ')' => s.closeGroup start
  | '|' => .ok ({ s with level := s.level.branchOff start }, cs)
  | '[' => do
    let (c, rest) ← readBrackets spaced start
    return (s.push (.cls c), rest)
  | '*' => s.repeatLast start (skipLazy cs) 0 none
  | '+' => s.repeatLast start (skipLazy cs) 1 none
  | '?' => s.repeatLast start (skipLazy cs) 0 (some 1)
  | '\x7b' => do
    let _ ← s.popPiece start
    let (least, most, rest) ← readCounts spaced start
    s.repeatLast start rest least most
  | '.' => .ok (s.push (.dot place), cs)
  | '^' => .ok (s.push (.assertion place .lineStart), cs)
  | '$' => .ok (s.push (.assertion place .lineEnd), cs)
  | '\\' => do
    let (e, rest) ← readEscape spaced start
    return (s.push (ofEscape e), rest)
  | c => .ok (s.push (.literal (ClassState.verbatim c cs)), cs)

/-- Reads on, at most so many pieces. -/
def readOn : Nat → State → List Char → Except Fault Pattern
  | n, s, cs =>
    match skip s.level.spaced cs, n with
    | [], _ =>
      if s.outer.isEmpty then .ok (s.level.body [])
      else fail .unclosedGroup s.level.opening s.level.opening.tail
    | cs, 0 => fail .unclosedGroup cs cs
    | c :: cs, n + 1 => do
      let (s, rest) ← s.step (c :: cs) c cs
      readOn n s rest

end State

/-- Every piece takes at least one character. -/
def read (text : String) : Except Fault Pattern :=
  let cs := text.toList
  let whole : Level := { opening := cs, changes := [], spaced := false, first := cs, last := cs }
  State.readOn cs.length { level := whole } cs

end Danmaku.Regex.Pattern
