import Danmaku.Regex.Pattern.Reader

/-! What patterns mean under their flags. There are no tables of characters beyond the first 128: where
characters are not taken as bytes, a class with a letter, a property and letters of either case are refused.
Taken as bytes, characters can only be given so that no match ends within one. -/

namespace Danmaku.Regex

/-- The flags that are set at a place of a pattern. -/
abbrev Flags := Flag → Bool

namespace Flags

def start : Flags := (· = .unicode)

def change (f : Flags) (changes : Changes) : Flags := fun flag => (changes.lookup flag).getD (f flag)

end Flags

def refuse {α : Type} (kind : Fault.Kind) (place : Span) : Except Fault α := .error (.inText kind place none)

/-- The character of a literal. -/
def Literal.meaning (f : Flags) (l : Literal) : Except Fault Char :=
  if f .unicode = false ∧ l.isByte ∧ 0x7f < l.char.toNat then refuse .brokenCharacter l.place else .ok l.char

namespace CharClass

/-- The character of a literal in a class. -/
def char (f : Flags) (l : Literal) : Except Fault Char := do
  let c ← l.meaning f
  if f .unicode = false ∧ 0x7f < c.toNat then refuse .notBytes l.place else return c

/-- With letters of either case, if so flagged. -/
def fold (f : Flags) (place : Span) (s : CharSet) : Except Fault CharSet :=
  if f .anyCase = false then .ok s
  else if f .unicode then refuse .unknownCases place
  else .ok (.anyCase s)

/-- With letters of either case, if so flagged, and then turned over, if so written. -/
def foldAndNegate (f : Flags) (place : Span) (negated : Bool) (s : CharSet) : Except Fault CharSet := do
  let s ← fold f place s
  if !negated then return s
  else if f .unicode then return .complement s
  else refuse .brokenCharacter place

def combine (a b : CharSet) : SetOp → CharSet
  | .intersection => a.intersection b
  | .difference => a.difference b
  | .symmetricDifference => a.symmetricDifference b

mutual

def meaning (f : Flags) : CharClass → Except Fault CharSet
  | empty _ => .ok .none
  | literal l => .single <$> char f l
  | range first last => do return .run (← char f first) (← char f last)
  | named place negated s => foldAndNegate f place negated s
  | lettered place negated s =>
    if f .unicode then refuse .unknownLetteredClass place
    else if negated then refuse .brokenCharacter place
    else .ok s
  | property place isValue =>
    if f .unicode = false then refuse .notBytes place
    else refuse (if isValue then .unknownPropertyValue else .unknownProperty) place
  | bracketed place negated c => do foldAndNegate f place negated (← c.meaning f)
  | union _ items => meaningOfItems f items
  | op _ o a b => do
    let s ← a.meaning f
    let t ← b.meaning f
    let t ← fold f b.place t
    return combine (← fold f a.place s) t o

def meaningOfItems (f : Flags) : List CharClass → Except Fault CharSet
  | [] => .ok .none
  | c :: cs => do return .union (← c.meaning f) (← meaningOfItems f cs)

end

end CharClass

namespace Pattern

/-- A single character, perhaps as a letter of either case. -/
def one (f : Flags) (l : Literal) : Except Fault Regex := do
  let s := CharSet.single (← l.meaning f)
  return .one (← CharClass.fold f l.place s)

/-- All characters but those that end a line, unless these are included. -/
def anyOf (f : Flags) : CharSet :=
  if f .dotAll then .complement .none
  else if f .anyLine then .complement (.ofRuns [('\n', '\n'), ('\r', '\r')])
  else .complement (.single '\n')

def lookOf (f : Flags) : Assertion → Look
  | .textStart => .textStart
  | .textEnd => .textEnd
  | .lineStart => if f .manyLines then (if f .anyLine then .anyLineStart else .lineStart) else .textStart
  | .lineEnd => if f .manyLines then (if f .anyLine then .anyLineEnd else .lineEnd) else .textEnd
  | .word b => .word b

mutual

/-- The expression of a pattern, and the flags after it. -/
def meaning (f : Flags) : Pattern → Except Fault (Regex × Flags)
  | empty _ => .ok (.empty, f)
  | flags _ changes => .ok (.empty, f.change changes)
  | literal l => do return (← one f l, f)
  | dot place => if f .unicode then .ok (.one (anyOf f), f) else refuse .brokenCharacter place
  | assertion _ a => .ok (.look (lookOf f a), f)
  | cls c => do return (.one (← c.meaning f), f)
  | repetition _ p least most => do
    let (r, f) ← p.meaning f
    return (.many r least most, f)
  | group _ changes p => do
    let (r, _) ← p.meaning (f.change changes)
    return (r, f)
  | concat _ ps => meaningOfPieces f ps
  | alternation _ ps => meaningOfBranches f ps

def meaningOfPieces (f : Flags) : List Pattern → Except Fault (Regex × Flags)
  | [] => .ok (.empty, f)
  | p :: ps => do
    let (r, f) ← p.meaning f
    let (s, f) ← meaningOfPieces f ps
    return (.seq r s, f)

def meaningOfBranches (f : Flags) : List Pattern → Except Fault (Regex × Flags)
  | [] => .ok (.one .none, f)
  | p :: ps => do
    let (r, f) ← p.meaning f
    let (s, f) ← meaningOfBranches f ps
    return (.alt r s, f)

end

mutual

/-- Whether a boundary of words is looked for where characters are not taken as bytes, and the flags after the
pattern. -/
def needsWords (f : Flags) : Pattern → Bool × Flags
  | empty _ | literal _ | dot _ | cls _ => (false, f)
  | flags _ changes => (false, f.change changes)
  | assertion _ a => (f .unicode && a matches .word _, f)
  | repetition _ p _ most => if most = some 0 then (false, (p.needsWords f).2) else p.needsWords f
  | group _ changes p => ((p.needsWords (f.change changes)).1, f)
  | concat _ ps | alternation _ ps => needsWordsIn f ps

def needsWordsIn (f : Flags) : List Pattern → Bool × Flags
  | [] => (false, f)
  | p :: ps =>
    let (needs, f) := p.needsWords f
    let (needs', f) := needsWordsIn f ps
    (needs || needs', f)

end

end Pattern

/-- What a character takes up in an expression, in bytes. -/
def bytesPerCharacter : Nat := 32

/-- The expression of a pattern. -/
def read (text : String) : Except Fault Regex := do
  let p ← Pattern.read text
  if let some place := p.tooDeep? Fault.nestLimit then refuse .tooDeep place
  let (r, _) ← p.meaning .start
  if Fault.sizeLimit < r.size * bytesPerCharacter then .error .tooLarge
  else if (p.needsWords .start).1 then .error .noWordTable
  else return r

end Danmaku.Regex
