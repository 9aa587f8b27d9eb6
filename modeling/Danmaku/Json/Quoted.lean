/-! Quoted text. Inside of quotes, a quote, a backslash and the control characters are escaped. Reading
also accepts an escaped slash and any code unit in hexadecimal; a character beyond the first plane is then
a pair of surrogates, and with a surrogate alone there is no text. -/

namespace Danmaku.Quoted

/-- The character that an escape with one letter stands for. -/
def unescape? : Char → Option Char
  | '"' => some '"'
  | '\\' => some '\\'
  | '/' => some '/'
  | 'b' => some '\x08'
  | 'f' => some '\x0c'
  | 'n' => some '\n'
  | 'r' => some '\r'
  | 't' => some '\t'
  | _ => none

def escape (c : Char) : List Char :=
  match c with
  | '"' => ['\\', '"']
  | '\\' => ['\\', '\\']
  | '\x08' => ['\\', 'b']
  | '\x0c' => ['\\', 'f']
  | '\n' => ['\\', 'n']
  | '\r' => ['\\', 'r']
  | '\t' => ['\\', 't']
  | c =>
    if c < ' ' then ['\\', 'u', '0', '0', Nat.digitChar (c.toNat / 16), Nat.digitChar (c.toNat % 16)]
    else [c]

def write (cs : List Char) : List Char := '"' :: (cs.flatMap escape ++ ['"'])

def hexDigit? (c : Char) : Option Nat :=
  if c.isDigit then some (c.toNat - '0'.toNat)
  else if 'a' ≤ c ∧ c ≤ 'f' then some (c.toNat - 'a'.toNat + 10)
  else if 'A' ≤ c ∧ c ≤ 'F' then some (c.toNat - 'A'.toNat + 10)
  else none

def unit? (a b c d : Char) : Option Nat := do
  return (((← hexDigit? a) * 16 + (← hexDigit? b)) * 16 + (← hexDigit? c)) * 16 + (← hexDigit? d)

def isHigh (unit : Nat) : Bool := 0xd800 ≤ unit && unit < 0xdc00

def isLow (unit : Nat) : Bool := 0xdc00 ≤ unit && unit < 0xe000

def pair (high low : Nat) : Char := .ofNat (0x10000 + (high - 0xd800) * 0x400 + (low - 0xdc00))

/-- The second half of a pair of surrogates. -/
def low? : List Char → Option (Nat × List Char)
  | '\\' :: 'u' :: a :: b :: c :: d :: rest => do
    let unit ← unit? a b c d
    if isLow unit then some (unit, rest) else none
  | _ => none

/-- The character of an escape, after its backslash, and the rest; no character for half of a pair. -/
def escaped? : List Char → Option (Option Char × List Char)
  | 'u' :: a :: b :: c :: d :: rest => do
    let unit ← unit? a b c d
    if isHigh unit then
      match low? rest with
      | some (low, rest) => some (some (pair unit low), rest)
      | none => some (none, rest)
    else some (if isLow unit then none else some (.ofNat unit), rest)
  | c :: rest => (unescape? c).map fun c => (some c, rest)
  | [] => none

theorem length_low? {cs rest : List Char} {unit : Nat} (h : low? cs = some (unit, rest)) :
    rest.length < cs.length := by
  unfold low? at h
  split at h
  · simp only [Option.bind_eq_bind, Option.bind_eq_some_iff] at h
    obtain ⟨u, -, h⟩ := h
    split at h <;> simp_all
    omega
  · simp at h

theorem length_escaped? {cs rest : List Char} {c : Option Char} (h : escaped? cs = some (c, rest)) :
    rest.length < cs.length := by
  unfold escaped? at h
  split at h
  · simp only [Option.bind_eq_bind, Option.bind_eq_some_iff] at h
    obtain ⟨u, -, h⟩ := h
    split at h
    · split at h
      · rename_i hl
        have := length_low? hl
        simp_all
        omega
      · simp_all
        omega
    · simp_all
      omega
  · simp only [Option.map_eq_some_iff] at h
    obtain ⟨d, -, h⟩ := h
    simp_all
  · simp at h

def cons? (c : Option Char) (text : Option (List Char)) : Option (List Char) := do
  return (← c) :: (← text)

/-- The characters up to the closing quote, if they are a text, and the rest. -/
def read? (cs : List Char) : Option (Option (List Char) × List Char) :=
  match cs with
  | [] => none
  | '"' :: rest => some (some [], rest)
  | '\\' :: rest =>
    match _h : escaped? rest with
    | some (c, rest) => (read? rest).map fun r => (cons? c r.1, r.2)
    | none => none
  | c :: rest => if c < ' ' then none else (read? rest).map fun r => (cons? c r.1, r.2)
termination_by cs.length
decreasing_by
  · have := length_escaped? _h
    simp
    omega
  · simp

theorem length_read? {cs rest : List Char} {text : Option (List Char)} (h : read? cs = some (text, rest)) :
    rest.length < cs.length := by
  fun_induction read? cs generalizing text rest with
  | case1 => simp at h
  | case2 => simp_all
  | case3 r c r' he ih =>
    obtain ⟨⟨t, u⟩, hr, h⟩ := Option.map_eq_some_iff.1 h
    have := ih hr
    have := length_escaped? he
    simp_all
    omega
  | case4 => simp at h
  | case5 => simp at h
  | case6 c r _ _ _ ih =>
    obtain ⟨⟨t, u⟩, hr, h⟩ := Option.map_eq_some_iff.1 h
    have := ih hr
    simp_all
    omega

end Danmaku.Quoted
