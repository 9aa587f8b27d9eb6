import Danmaku.Json

/-! Codecs between domain values and JSON. A record is described once, by its fields in order, and a case
by its name; both descriptions serve writing and reading. Of several faults in a record the one that is
met first counts: those of members in the order of the text, then missing fields. -/

namespace Danmaku

/-- Why a value of JSON is not one of the type. -/
inductive Fault where
  | wrongKind | outOfRange
  | unknownCase (name : String) | missingField (name : String) | repeatedField (name : String)
  | extraItem
  /-- A parameter needs at least a root. -/
  | emptyTree
  deriving DecidableEq

class Coded (α : Type) where
  encode : α → Json.Output
  decode : Json.Input → Except Fault α

export Coded (encode decode)

/-- The form in which a record is read: by names, or as its fields in order. -/
inductive Fields.Source where
  | members (ms : List (String × Json.Input))
  | items (js : List Json.Input)

/-- Fields of `σ` that make up a `τ`. A fault is read with the place of its member. -/
structure Fields (σ τ : Type) where
  count : Nat
  write : σ → List (String × Json.Output)
  read : Fields.Source → Except (Nat × Fault) τ

namespace Fields

variable {σ τ α β : Type}

def start (σ : Type) (make : τ) : Fields σ τ := ⟨0, fun _ => [], fun _ => .ok make⟩

/-- Applies what is read, or keeps the fault that comes first. -/
def both : Except (Nat × Fault) (α → β) → Except (Nat × Fault) α → Except (Nat × Fault) β
  | .ok f, .ok a => .ok (f a)
  | .error e, .ok _ | .ok _, .error e => .error e
  | .error e, .error e' => .error (if e'.1 < e.1 then e' else e)

/-- Reads a field at its place or by its name. A name may not occur again. -/
def readField [Coded α] (index : Nat) (name : String) (absent : Option α) (source : Source) :
    Except (Nat × Fault) α :=
  let missing (place : Nat) : Except (Nat × Fault) α :=
    match absent with
    | some a => .ok a
    | none => .error (place, .missingField name)
  match source with
  | .members ms =>
    match ms.zipIdx.filter (·.1.1 = name) with
    | [] => missing ms.length
    | ((_, j), place) :: more =>
      match decode j, more with
      | .error f, _ => .error (place, f)
      | .ok a, [] => .ok a
      | .ok _, (_, place) :: _ => .error (place, .repeatedField name)
  | .items js =>
    match js[index]? with
    | some j => (decode j).mapError (index, ·)
    | none => missing js.length

def field [Coded α] (absent : Option α) (fs : Fields σ (α → τ)) (name : String) (get : σ → α) :
    Fields σ τ where
  count := fs.count + 1
  write s := fs.write s ++ [(name, encode (get s))]
  read source := both (fs.read source) (readField fs.count name absent source)

def required [Coded α] (fs : Fields σ (α → τ)) (name : String) (get : σ → α) : Fields σ τ :=
  fs.field none name get

/-- A field that may be left out. -/
def optional [Coded α] (fs : Fields σ (α → τ)) (name : String) (get : σ → α) (absent : α) : Fields σ τ :=
  fs.field (some absent) name get

def encode (fs : Fields σ τ) (s : σ) : Json.Output := .object (fs.write s)

def decode (fs : Fields σ τ) : Json.Input → Except Fault τ
  | .object ms =>
    match fs.read (.members ms), ms.findIdx? (!Json.isReadable ·) with
    | .ok x, none => .ok x
    | .ok _, some _ => .error .wrongKind
    | .error (_, f), none => .error f
    | .error (place, f), some broken => .error (if place < broken then f else .wrongKind)
  | .array js => do
    let x ← (fs.read (.items js)).mapError (·.2)
    if fs.count < js.length then .error .extraItem else .ok x
  | _ => .error .wrongKind

abbrev coded (fs : Fields τ τ) : Coded τ := ⟨fs.encode, fs.decode⟩

/-- A record of one field. -/
def only [Coded α] (name : String) : Fields α α := (start α id).required name id

def pair [Coded α] [Coded β] (first second : String) : Fields (α × β) (α × β) :=
  (start (α × β) Prod.mk).required first (·.1) |>.required second (·.2)

end Fields

/-- A case of a type. A case without data is its bare name, and a case with data an object of one member;
the data of a case without any can be given as `null`. -/
structure Case (τ : Type) where
  name : String
  read : Option Json.Input → Except Fault τ

namespace Case

variable {σ τ α : Type}

def unit (name : String) (x : τ) : Case τ where
  name
  read
    | none | some (.leaf (.value .null)) => .ok x
    | _ => .error .wrongKind

def ofDecoder (name : String) (read : Json.Input → Except Fault τ) : Case τ where
  name
  read
    | none => .error .wrongKind
    | some j => read j

def data [Coded α] (name : String) (make : α → τ) : Case τ := ofDecoder name fun j => make <$> decode j

def record (name : String) (fs : Fields σ τ) : Case τ := ofDecoder name fs.decode

def decode (cases : List (Case τ)) : Json.Input → Except Fault τ
  | .leaf (.value (.string name)) =>
    match cases.find? (·.name = name) with
    | some c => c.read none
    | none => .error (.unknownCase name)
  | .object ((name, j) :: more) =>
    match cases.find? (·.name = name) with
    | some c => do
      let x ← c.read (some j)
      if more.isEmpty then .ok x else .error .extraItem
    | none => .error (.unknownCase name)
  | _ => .error .wrongKind

end Case

/-- A case with data. -/
def tagged (name : String) (j : Json.Output) : Json.Output := .object [(name, j)]

/-- A type of finitely many named values. -/
class Named (α : Type) where
  all : List α
  name : α → String

/-- Named values are written as their names. -/
abbrev Coded.ofNamed {α : Type} [Named α] : Coded α where
  encode x := .string (Named.name x)
  decode := Case.decode (Named.all.map fun x => .unit (Named.name x) x)

namespace Coded

variable {α : Type}

instance : Coded Single where
  encode x := .number x
  decode
    | .leaf (.value (.int n)) => .ok (.ofInt n)
    | .leaf (.value (.number d)) => .ok d.toSingle
    | _ => .error .wrongKind

instance : Coded Bool where
  encode b := .bool b
  decode
    | .leaf (.value (.bool b)) => .ok b
    | _ => .error .wrongKind

instance : Coded String where
  encode s := .string s
  decode
    | .leaf (.value (.string s)) => .ok s
    | _ => .error .wrongKind

/-- An integer of a type within bounds. -/
def bounded (least greatest : Int) (make : Int → α) : Json.Input → Except Fault α
  | .leaf (.value (.int n)) => if least ≤ n ∧ n ≤ greatest then .ok (make n) else .error .outOfRange
  | _ => .error .wrongKind

instance : Coded Int32 where
  encode n := .int n.toInt
  decode := bounded Int32.minValue.toInt Int32.maxValue.toInt .ofInt

instance : Coded UInt32 where
  encode n := .int n.toNat
  decode := bounded 0 (UInt32.size - 1) fun n => .ofNat n.toNat

instance : Coded UInt64 where
  encode n := .int n.toNat
  decode := bounded 0 (UInt64.size - 1) fun n => .ofNat n.toNat

def decodeList [Coded α] : List Json.Input → Except Fault (List α)
  | [] => .ok []
  | j :: js => do
    let x ← decode j
    let xs ← decodeList js
    .ok (x :: xs)

instance [Coded α] : Coded (List α) where
  encode xs := .array (xs.map encode)
  decode
    | .array js => decodeList js
    | _ => .error .wrongKind

/-- A list of fixed length. -/
def tuple [Coded α] {β : Type} (make : List α → Option β) (j : Json.Input) : Except Fault β := do
  match make (← decode j) with
  | some x => .ok x
  | none => .error .wrongKind

end Coded

end Danmaku
