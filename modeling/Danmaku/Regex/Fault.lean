import Danmaku.Regex.Pattern

/-! Why a pattern is refused, and how that is said: most faults are shown below the part of the pattern that
is at fault. -/

namespace Danmaku.Regex

inductive Fault.Kind where
  | unclosedGroup | unopenedGroup | tooDeep
  | unclosedClass | invalidRange | rangeOfClass | classEscape
  | unfinishedEscape | unknownEscape | emptyHex | invalidHex | invalidCharacter | invalidProperty
  | nothingToRepeat | invalidNumber | invalidCount | noCount | unclosedCount
  | unclosedBoundary | unknownBoundary | unfinishedBraces
  | lookAround | backReference
  | unknownFlag | unfinishedFlags | danglingNegation | repeatedFlag | repeatedNegation
  | unfinishedName | emptyName | invalidName | repeatedName
  /-- Characters and properties are not known where characters are bytes. -/
  | notBytes
  /-- A match could end within a character. -/
  | brokenCharacter
  /-- There are no tables of properties, letters and cases of characters. -/
  | unknownProperty | unknownPropertyValue | unknownLetteredClass | unknownCases
  deriving DecidableEq

inductive Fault where
  /-- A fault of a part of the text, perhaps with an earlier part that it repeats. -/
  | inText (kind : Fault.Kind) (place : Span) (earlier : Option Span)
  | noWordTable
  | tooLarge
  deriving DecidableEq

namespace Fault

/-- So deep can parts be nested. -/
def nestLimit : Nat := 250

/-- What an expression can take up, in bytes. -/
def sizeLimit : Nat := 10485760

def Kind.message : Kind → String
  | unclosedGroup => "unclosed group"
  | unopenedGroup => "unopened group"
  | tooDeep => s!"exceed the maximum number of nested parentheses/brackets ({nestLimit})"
  | unclosedClass => "unclosed character class"
  | invalidRange => "invalid character class range, the start must be <= the end"
  | rangeOfClass => "invalid range boundary, must be a literal"
  | classEscape => "invalid escape sequence found in character class"
  | unfinishedEscape => "incomplete escape sequence, reached end of pattern prematurely"
  | unknownEscape => "unrecognized escape sequence"
  | emptyHex => "hexadecimal literal empty"
  | invalidHex => "invalid hexadecimal digit"
  | invalidCharacter => "hexadecimal literal is not a Unicode scalar value"
  | invalidProperty => "invalid Unicode character class"
  | nothingToRepeat => "repetition operator missing expression"
  | invalidNumber => "decimal literal invalid"
  | invalidCount => "invalid repetition count range, the start must be <= the end"
  | noCount => "repetition quantifier expects a valid decimal"
  | unclosedCount => "unclosed counted repetition"
  | unclosedBoundary => "special word boundary assertion is either unclosed or contains an invalid character"
  | unknownBoundary => "unrecognized special word boundary assertion, " ++
      "valid choices are: start, end, start-half or end-half"
  | unfinishedBraces => "found either the beginning of a special word boundary or a bounded repetition " ++
      "on a \\b with an opening brace, but no closing brace"
  | lookAround => "look-around, including look-ahead and look-behind, is not supported"
  | backReference => "backreferences are not supported"
  | unknownFlag => "unrecognized flag"
  | unfinishedFlags => "expected flag but got end of regex"
  | danglingNegation => "dangling flag negation operator"
  | repeatedFlag => "duplicate flag"
  | repeatedNegation => "flag negation operator repeated"
  | unfinishedName => "unclosed capture group name"
  | emptyName => "empty capture group name"
  | invalidName => "invalid capture group character"
  | repeatedName => "duplicate capture group name"
  | notBytes => "Unicode not allowed here"
  | brokenCharacter => "pattern can match invalid UTF-8"
  | unknownProperty => "Unicode property not found"
  | unknownPropertyValue => "Unicode property value not found"
  | unknownLetteredClass =>
    "Unicode-aware Perl class not found (make sure the unicode-perl feature is enabled)"
  | unknownCases => "Unicode-aware case insensitivity matching is not available " ++
      "(make sure the unicode-case feature is enabled)"

/-- Marks below some parts of a text with so many characters, in the order of the parts; at least one mark for
each. -/
def marks (length : Nat) (places : List Span) : List Char :=
  places.foldl (fun line p => line ++ List.replicate (length - p.start - line.length) ' ' ++
    List.replicate (max 1 (p.start - p.stop)) '^') []

/-- The text of a fault in a pattern of one line. -/
def message (source : String) : Fault → String
  | inText kind place earlier =>
    let places := earlier.toList ++ [place]
    s!"regex parse error:\n    {source}\n    {String.ofList (marks source.length places)}\n" ++
      s!"error: {kind.message}"
  | noWordTable => "error building NFA"
  | tooLarge => s!"Compiled regex exceeds size limit of {sizeLimit} bytes."

end Fault

end Danmaku.Regex
