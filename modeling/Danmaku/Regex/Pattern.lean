import Danmaku.Regex

/-! Patterns: regular expressions as they are written, before their flags are applied. Every part knows its
place in the text, which faults are said with. -/

namespace Danmaku.Regex

/-- A part of a text, by how much of the text is left at its start and at its end. -/
structure Span where
  start : Nat
  stop : Nat
  deriving DecidableEq

inductive Flag where
  | anyCase | manyLines | dotAll | swapGreed | unicode | anyLine
  /-- Blanks and comments are no part of the pattern. -/
  | spaced
  deriving DecidableEq

/-- Flags to be set or cleared. -/
abbrev Changes := List (Flag × Bool)

structure Literal where
  place : Span
  char : Char
  /-- Whether it is a byte where characters are bytes. -/
  isByte : Bool := false
  deriving DecidableEq

inductive SetOp where
  | intersection | difference | symmetricDifference
  deriving DecidableEq

/-- A class of characters. -/
inductive CharClass where
  | empty (place : Span)
  | literal (l : Literal)
  | range (first last : Literal)
  /-- A class with a name, within brackets. -/
  | named (place : Span) (negated : Bool) (s : CharSet)
  /-- A class with a letter. -/
  | lettered (place : Span) (negated : Bool) (s : CharSet)
  /-- A class of the characters with a property, or with a value of a property. -/
  | property (place : Span) (isValue : Bool)
  | bracketed (place : Span) (negated : Bool) (c : CharClass)
  | union (place : Span) (items : List CharClass)
  | op (place : Span) (o : SetOp) (a b : CharClass)

inductive Assertion where
  | textStart | textEnd | lineStart | lineEnd | word (b : Boundary)
  deriving DecidableEq

inductive Pattern where
  | empty (place : Span)
  | flags (place : Span) (changes : Changes)
  | literal (l : Literal)
  | dot (place : Span)
  | assertion (place : Span) (a : Assertion)
  | cls (c : CharClass)
  | repetition (place : Span) (p : Pattern) (least : Nat) (most : Option Nat)
  | group (place : Span) (changes : Changes) (p : Pattern)
  | concat (place : Span) (ps : List Pattern)
  | alternation (place : Span) (ps : List Pattern)

namespace CharClass

def place : CharClass → Span
  | literal l => l.place
  | range first last => ⟨first.place.start, last.place.stop⟩
  | empty place | named place _ _ | lettered place _ _ | property place _ | bracketed place _ _
  | union place _ | op place _ _ _ => place

/-- A class of some items, the last one first, of which the first would have been at a place. -/
def ofItems (place : Span) (items : List CharClass) : CharClass :=
  match items, items.getLast? with
  | [c], _ => c
  | last :: _, some first => union ⟨first.place.start, last.place.stop⟩ items.reverse
  | _, _ => empty place

mutual

/-- The first part that is nested in more parts than a limit. -/
def tooDeep? (limit : Nat) : CharClass → Option Span
  | empty _ | literal _ | range _ _ | named _ _ _ | lettered _ _ _ | property _ _ => none
  | bracketed place _ c => if limit = 0 then some place else c.tooDeep? (limit - 1)
  | union place items => if limit = 0 then some place else tooDeepItem? (limit - 1) items
  | op place _ a b => if limit = 0 then some place else a.tooDeep? (limit - 1) <|> b.tooDeep? (limit - 1)

def tooDeepItem? (limit : Nat) : List CharClass → Option Span
  | [] => none
  | c :: cs => c.tooDeep? limit <|> tooDeepItem? limit cs

end

end CharClass

namespace Pattern

def place : Pattern → Span
  | literal l => l.place
  | cls c => c.place
  | empty place | flags place _ | dot place | assertion place _ | repetition place _ _ _ | group place _ _
  | concat place _ | alternation place _ => place

def ofPieces (place : Span) : List Pattern → Pattern
  | [] => empty place
  | [p] => p
  | ps => concat place ps

def ofBranches (place : Span) : List Pattern → Pattern
  | [p] => p
  | ps => alternation place ps

/-- Whether it can be repeated. -/
def isRepeatable : Pattern → Bool
  | empty _ | flags _ _ => false
  | _ => true

mutual

/-- The first part that is nested in more parts than a limit. -/
def tooDeep? (limit : Nat) : Pattern → Option Span
  | empty _ | flags _ _ | literal _ | dot _ | assertion _ _ => none
  | cls c => c.tooDeep? limit
  | repetition place p _ _ | group place _ p => if limit = 0 then some place else p.tooDeep? (limit - 1)
  | concat place ps | alternation place ps =>
    if limit = 0 then some place else tooDeepPiece? (limit - 1) ps

def tooDeepPiece? (limit : Nat) : List Pattern → Option Span
  | [] => none
  | p :: ps => p.tooDeep? limit <|> tooDeepPiece? limit ps

end

end Pattern

end Danmaku.Regex
