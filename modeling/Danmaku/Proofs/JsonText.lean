import Danmaku.Json.Text
import Danmaku.Proofs.Numerals
import Danmaku.Proofs.QuotedText

/-! The text of a value reads back. A text on lines has the tokens of its value with blanks between them, and the
tokens of a value are read as the value, whatever follows; so all is known of a text that is known of the texts of
its leaves. -/

namespace Danmaku.Json

variable {ℓ μ : Type}

mutual

/-- The leaves in order. -/
def leaves : Json ℓ → List ℓ
  | leaf l => [l]
  | array items => leavesOfItems items
  | object members => leavesOfMembers members

def leavesOfItems : List (Json ℓ) → List ℓ
  | [] => []
  | j :: js => leaves j ++ leavesOfItems js

def leavesOfMembers : List (String × Json ℓ) → List ℓ
  | [] => []
  | (_, j) :: ms => leaves j ++ leavesOfMembers ms

end

theorem mapItems_eq_map (f : ℓ → μ) (js : List (Json ℓ)) : mapItems f js = js.map (map f) := by
  induction js with
  | nil => rfl
  | cons j js ih => rw [mapItems, ih, List.map_cons]

theorem mapMembers_eq_map (f : ℓ → μ) (ms : List (String × Json ℓ)) :
    mapMembers f ms = ms.map fun m => (m.1, m.2.map f) := by
  induction ms with
  | nil => rfl
  | cons m ms ih => rw [mapMembers, ih, List.map_cons]

theorem leavesOfItems_eq_flatMap (js : List (Json ℓ)) : leavesOfItems js = js.flatMap leaves := by
  induction js with
  | nil => rfl
  | cons j js ih => rw [leavesOfItems, ih, List.flatMap_cons]

theorem leavesOfMembers_eq_flatMap (ms : List (String × Json ℓ)) : leavesOfMembers ms = ms.flatMap (·.2.leaves) := by
  induction ms with
  | nil => rfl
  | cons m ms ih => rw [leavesOfMembers, ih, List.flatMap_cons]

mutual

theorem leaves_map (f : ℓ → μ) : (j : Json ℓ) → (j.map f).leaves = j.leaves.map f
  | leaf _ => rfl
  | array js => leavesOfItems_map f js
  | object ms => leavesOfMembers_map f ms

theorem leavesOfItems_map (f : ℓ → μ) :
    (js : List (Json ℓ)) → leavesOfItems (mapItems f js) = (leavesOfItems js).map f
  | [] => rfl
  | j :: js => by rw [mapItems, leavesOfItems, leavesOfItems, leaves_map, leavesOfItems_map, List.map_append]

theorem leavesOfMembers_map (f : ℓ → μ) :
    (ms : List (String × Json ℓ)) → leavesOfMembers (mapMembers f ms) = (leavesOfMembers ms).map f
  | [] => rfl
  | (_, j) :: ms => by
      rw [mapMembers, leavesOfMembers, leavesOfMembers, leaves_map, leavesOfMembers_map, List.map_append]

end

/-- What a leaf is read as, once it is written. -/
def Leaf.echo : Leaf Decimal → Atom
  | null => .value .null
  | bool b => .value (.bool b)
  | int n => .value (.int n)
  | number d => (numeral? (d.chars decimalStyle)).getD .broken
  | string s => .value (.string s)

/-- Whether the text of a leaf is one of a leaf. -/
def Leaf.Legible : Leaf Decimal → Prop
  | int n => fits n = true
  | number d => (numeral? (d.chars decimalStyle)).isSome = true
  | null | bool _ | string _ => True

namespace Token

def echo : Token (Leaf Decimal) → Token Atom
  | opening b => opening b
  | closing b => closing b
  | comma => comma
  | colon => colon
  | leaf l => leaf l.echo

theorem read_of_next? {c : Char} {cs rest : List Char} {t : Token Atom} (blank : isBlank c = false)
    (h : next? c cs = some (t, rest)) : read (c :: cs) = t :: read rest := by
  rw [read, if_neg (by simp [blank])]
  split
  · rename_i h'
    obtain ⟨rfl, rfl⟩ := Prod.mk.inj (Option.some.inj (h.symm.trans h'))
    rfl
  · rename_i h'
    rw [h] at h'
    cases h'

theorem read_of_mark {c : Char} {t : Token Atom} (cs : List Char) (blank : isBlank c = false)
    (h : ofMark? c = some t) : read (c :: cs) = t :: read cs := by
  refine read_of_next? blank ?_
  rw [next?, h]

theorem read_blanks {blanks : List Char} (h : ∀ c ∈ blanks, isBlank c = true) (cs : List Char) :
    read (blanks ++ cs) = read cs := by
  induction blanks with
  | nil => rfl
  | cons c blanks ih =>
      obtain ⟨hc, rest⟩ := List.forall_mem_cons.1 h
      rw [List.cons_append, read, if_pos hc, ih rest]

theorem read_line (depth : Nat) (cs : List Char) : read (line depth ++ cs) = read cs := by
  refine read_blanks (fun c hc => ?_) cs
  rcases List.mem_cons.1 hc with rfl | hc
  · rfl
  · obtain rfl := List.eq_of_mem_replicate hc
    rfl

theorem ofMark?_of_isWordChar {c : Char} (h : isWordChar c = true) : (ofMark? c : Option (Token Atom)) = none := by
  have other {mark : Char} (hmark : isWordChar mark = false) : c ≠ mark := by
    rintro rfl
    rw [h] at hmark
    cases hmark
  simp only [ofMark?]
  rw [if_neg (other rfl), if_neg (other rfl), if_neg (other rfl), if_neg (other rfl), if_neg (other rfl),
    if_neg (other rfl)]

/-- A word ends where no character continues it. -/
theorem read_word {cs rest : List Char} {a : Atom} (word : IsWord cs) (nonempty : cs ≠ [])
    (h : ofWord? cs = some a) (ends : ∀ c ∈ rest.head?, isWordChar c = false) :
    read (cs ++ rest) = .leaf a :: read rest := by
  obtain ⟨c, cs, rfl⟩ := List.exists_cons_of_ne_nil nonempty
  obtain ⟨hc, word⟩ := List.forall_mem_cons.1 word
  have other {mark : Char} (hmark : isWordChar mark = false) : c ≠ mark := by
    rintro rfl
    rw [hc] at hmark
    cases hmark
  have blank : isBlank c = false := by
    simp only [isBlank, Bool.or_eq_false_iff, decide_eq_false_iff_not]
    exact ⟨⟨⟨other rfl, other rfl⟩, other rfl⟩, other rfl⟩
  have taken : rest.takeWhile isWordChar = [] ∧ rest.dropWhile isWordChar = rest := by
    cases rest with
    | nil => exact ⟨rfl, rfl⟩
    | cons d rest => simp [ends d rfl]
  rw [List.cons_append]
  refine read_of_next? blank ?_
  rw [next?, ofMark?_of_isWordChar hc]
  dsimp only
  rw [if_neg (other rfl), if_pos hc, List.takeWhile_append_of_pos word, List.dropWhile_append_of_pos word,
    taken.1, taken.2, List.append_nil, h]
  rfl

theorem read_quoted (s : String) (rest : List Char) :
    read (Quoted.write s.toList ++ rest) = .leaf (.value (.string s)) :: read rest := by
  rw [Quoted.write, List.cons_append]
  refine read_of_next? rfl ?_
  have quoted : Quoted.read? (s.toList.flatMap Quoted.escape ++ ['"'] ++ rest) = some (some s.toList, rest) := by
    rw [List.append_assoc]
    exact Quoted.read?_flatMap_escape s.toList rest
  rw [next?, show (ofMark? '"' : Option (Token Atom)) = none from rfl]
  dsimp only
  rw [if_pos rfl, quoted]
  simp [ofText]

theorem read_leaf {l : Leaf Decimal} (legible : l.Legible) {rest : List Char}
    (ends : ∀ c ∈ rest.head?, isWordChar c = false) : read (l.chars ++ rest) = .leaf l.echo :: read rest := by
  have word {cs : List Char} {a : Atom} (h : numeral? cs = some a) :
      read (cs ++ rest) = .leaf a :: read rest := by
    obtain ⟨word, nonempty⟩ := IsWord.of_numeral? h
    exact read_word word nonempty (ofWord?_of_numeral? h) ends
  cases l with
  | null => exact read_word (by decide) (by decide) rfl ends
  | bool b =>
      cases b with
      | true => exact read_word (by decide) (by decide) rfl ends
      | false => exact read_word (by decide) (by decide) rfl ends
  | int n => exact word (numeral?_intChars legible)
  | number d =>
      obtain ⟨a, ha⟩ := Option.isSome_iff_exists.1 legible
      rw [Leaf.echo, ha]
      exact word ha
  | string s => exact read_quoted s rest

/-- What comes after a value: nothing, a comma or the end of a container. -/
def Follows : List (Token ℓ) → Prop
  | [] | comma :: _ | closing _ :: _ => True
  | _ => False

/-- On lines, the tokens are read one by one. -/
def LaidOut (ts : List (Token (Leaf Decimal))) : Prop := ∀ depth, read (layOut depth ts) = ts.map echo

namespace LaidOut

variable {b : Bracket} {l : Leaf Decimal} {ts : List (Token (Leaf Decimal))}

theorem nil : LaidOut [] := fun depth => by rw [layOut, read, List.map_nil]

theorem closing (h : LaidOut ts) : LaidOut (.closing b :: ts) := fun depth => by
  rw [layOut, read_line, read_of_mark (t := .closing b) _ (by cases b <;> rfl) (by cases b <;> rfl), h]
  rfl

theorem comma (h : LaidOut ts) : LaidOut (.comma :: ts) := fun depth => by
  rw [layOut, read_of_mark (t := .comma) _ rfl rfl, read_line, h]
  rfl

theorem colon (h : LaidOut ts) : LaidOut (.colon :: ts) := fun depth => by
  rw [layOut, read_of_mark (t := .colon) _ rfl rfl, read, if_pos (show isBlank ' ' = true from rfl), h]
  rfl

theorem opening (h : LaidOut ts) (full : ∀ b' ts', ts ≠ .closing b' :: ts') : LaidOut (.opening b :: ts) :=
  fun depth => by
    rw [layOut.eq_3 _ _ _ full, read_of_mark (t := .opening b) _ (by cases b <;> rfl) (by cases b <;> rfl),
      read_line, h]
    rfl

theorem empty {b' : Bracket} (h : LaidOut ts) : LaidOut (.opening b :: .closing b' :: ts) := fun depth => by
  rw [layOut, read_of_mark (t := .opening b) _ (by cases b <;> rfl) (by cases b <;> rfl),
    read_of_mark (t := .closing b') _ (by cases b' <;> rfl) (by cases b' <;> rfl), h]
  rfl

theorem leaf (legible : l.Legible) (h : LaidOut ts)
    (ends : ∀ depth, ∀ c ∈ (layOut depth ts).head?, isWordChar c = false) : LaidOut (.leaf l :: ts) := fun depth => by
  rw [layOut, read_leaf legible (ends depth), h]
  rfl

theorem key (key : String) (h : LaidOut ts) : LaidOut (.leaf (.string key) :: .colon :: ts) := by
  refine .leaf trivial h.colon fun depth c hc => ?_
  rw [layOut] at hc
  obtain rfl := Option.some.inj hc
  rfl

end LaidOut

theorem follows_nil : Follows ([] : List (Token ℓ)) := trivial

theorem follows_closing {b : Bracket} {ts : List (Token ℓ)} : Follows (.closing b :: ts) := trivial

theorem Follows.ends {ts : List (Token (Leaf Decimal))} (h : Follows ts) (depth : Nat) :
    ∀ c ∈ (layOut depth ts).head?, isWordChar c = false := by
  intro c hc
  match ts with
  | [] => cases hc
  | .comma :: ts =>
      rw [layOut] at hc
      obtain rfl := Option.some.inj hc
      rfl
  | .closing b :: ts =>
      rw [layOut] at hc
      obtain rfl := Option.some.inj hc
      rfl

end Token

open Token (Follows LaidOut follows_closing follows_nil)

theorem follows_itemTokens {rest : List (Token (Leaf Decimal))} (h : Follows rest) :
    (js : List (Json (Leaf Decimal))) → Follows (itemTokens rest js)
  | [] => h
  | _ :: _ => trivial

theorem follows_memberTokens {rest : List (Token (Leaf Decimal))} (h : Follows rest) :
    (ms : List (String × Json (Leaf Decimal))) → Follows (memberTokens rest ms)
  | [] => h
  | _ :: _ => trivial

/-- A value does not start with the end of a container. -/
theorem map_tokens_ne_closing (rest : List (Token (Leaf Decimal))) (j : Json (Leaf Decimal)) (b : Bracket)
    (ts : List (Token Atom)) : (tokens rest j).map Token.echo ≠ .closing b :: ts := by
  cases j with
  | leaf l => exact nofun
  | array js => cases js <;> exact nofun
  | object ms => cases ms <;> exact nofun

theorem tokens_ne_closing (rest : List (Token (Leaf Decimal))) (j : Json (Leaf Decimal)) (b : Bracket)
    (ts : List (Token (Leaf Decimal))) : tokens rest j ≠ .closing b :: ts := by
  intro h
  refine map_tokens_ne_closing rest j b (ts.map Token.echo) ?_
  rw [h]
  rfl

mutual

/-- On lines, a value is read token by token if what follows it is. -/
theorem laidOut_tokens {rest : List (Token (Leaf Decimal))} (follows : Follows rest) (laidOut : LaidOut rest) :
    (j : Json (Leaf Decimal)) → (∀ l ∈ j.leaves, l.Legible) → LaidOut (tokens rest j)
  | leaf l, legible => laidOut.leaf (legible l List.mem_cons_self) follows.ends
  | array [], _ => laidOut.empty
  | array (j :: js), legible => by
      rw [leaves, leavesOfItems, List.forall_mem_append] at legible
      refine .opening ?_ (tokens_ne_closing _ j)
      exact laidOut_tokens (follows_itemTokens follows_closing js)
        (laidOut_itemTokens follows_closing laidOut.closing js legible.2) j legible.1
  | object [], _ => laidOut.empty
  | object ((key, j) :: ms), legible => by
      rw [leaves, leavesOfMembers, List.forall_mem_append] at legible
      refine .opening (.key key ?_) nofun
      exact laidOut_tokens (follows_memberTokens follows_closing ms)
        (laidOut_memberTokens follows_closing laidOut.closing ms legible.2) j legible.1

theorem laidOut_itemTokens {rest : List (Token (Leaf Decimal))} (follows : Follows rest) (laidOut : LaidOut rest) :
    (js : List (Json (Leaf Decimal))) → (∀ l ∈ leavesOfItems js, l.Legible) → LaidOut (itemTokens rest js)
  | [], _ => laidOut
  | j :: js, legible => by
      rw [leavesOfItems, List.forall_mem_append] at legible
      exact .comma (laidOut_tokens (follows_itemTokens follows js) (laidOut_itemTokens follows laidOut js legible.2) j
        legible.1)

theorem laidOut_memberTokens {rest : List (Token (Leaf Decimal))} (follows : Follows rest) (laidOut : LaidOut rest) :
    (ms : List (String × Json (Leaf Decimal))) → (∀ l ∈ leavesOfMembers ms, l.Legible) →
      LaidOut (memberTokens rest ms)
  | [], _ => laidOut
  | (key, j) :: ms, legible => by
      rw [leavesOfMembers, List.forall_mem_append] at legible
      refine .comma (.key key ?_)
      exact laidOut_tokens (follows_memberTokens follows ms) (laidOut_memberTokens follows laidOut ms legible.2) j
        legible.1

end

/-- Nor does it start with a key: what comes after a value that is a leaf is no colon. -/
theorem map_tokens_ne_key {rest : List (Token (Leaf Decimal))} (follows : Follows rest) (j : Json (Leaf Decimal))
    (a : Atom) (ts : List (Token Atom)) : (tokens rest j).map Token.echo ≠ .leaf a :: .colon :: ts := by
  cases j with
  | leaf l =>
      match rest, follows with
      | [], _ | .comma :: _, _ | .closing _ :: _, _ => exact nofun
  | array js => cases js <;> exact nofun
  | object ms => cases ms <;> exact nofun

mutual

/-- The tokens of a value are read as the value. -/
theorem readValue_tokens (rest : List (Token (Leaf Decimal))) (layers : List Layer) : (j : Json (Leaf Decimal)) →
      readValue layers ((tokens rest j).map Token.echo) = resume (j.map Leaf.echo) layers (rest.map Token.echo)
  | leaf l => readValue.eq_1 ..
  | array [] => readValue.eq_2 ..
  | array (j :: js) => by
      rw [tokens, List.map_cons, Token.echo, readValue.eq_3 _ _ (map_tokens_ne_closing _ j .square),
        readValue_tokens, resume_itemTokens]
      rfl
  | object [] => readValue.eq_4 ..
  | object ((key, j) :: ms) => by
      simp only [tokens, List.map_cons, Token.echo, readValue.eq_5, Leaf.echo, Atom.key?]
      rw [readValue_tokens, resume_memberTokens]
      rfl

theorem resume_itemTokens (rest : List (Token (Leaf Decimal))) (layers : List Layer) (items : List Input)
    (last : Input) : (js : List (Json (Leaf Decimal))) →
      resume last (.array items :: layers) ((itemTokens (.closing .square :: rest) js).map Token.echo) =
        resume (array (items.reverse ++ last :: mapItems Leaf.echo js)) layers (rest.map Token.echo)
  | [] => by
      rw [itemTokens, List.map_cons, Token.echo, resume]
      simp [mapItems]
  | j :: js => by
      have follows : Follows (itemTokens (.closing .square :: rest) js) := follows_itemTokens follows_closing js
      rw [itemTokens, List.map_cons, Token.echo, resume.eq_5 _ _ _ _ (map_tokens_ne_key follows j),
        readValue_tokens, resume_itemTokens]
      simp [mapItems]

theorem resume_memberTokens (rest : List (Token (Leaf Decimal))) (layers : List Layer)
    (members : List (String × Input)) (last : String) (value : Input) : (ms : List (String × Json (Leaf Decimal))) →
      resume value (.object members (some last) :: layers)
          ((memberTokens (.closing .curly :: rest) ms).map Token.echo) =
        resume (object (members.reverse ++ (last, value) :: mapMembers Leaf.echo ms)) layers (rest.map Token.echo)
  | [] => by
      rw [memberTokens, List.map_cons, Token.echo, resume]
      simp [mapMembers, member]
  | (key, j) :: ms => by
      simp only [memberTokens, List.map_cons, Token.echo, Leaf.echo]
      rw [resume.eq_3 _ _ _ _ _ _ (some key) rfl, readValue_tokens, resume_memberTokens]
      simp [mapMembers, member]

end

/-- The text of a value whose leaves are legible is the whole of a text that reads back. -/
theorem read_pretty (j : Output) (legible : ∀ l ∈ j.written.leaves, l.Legible) :
    read j.pretty = ⟨j.written.map Leaf.echo, true⟩ := by
  have laidOut : LaidOut (j.written.tokens []) := laidOut_tokens follows_nil .nil j.written legible
  rw [read, pretty, String.toList_ofList, laidOut, readValue_tokens]
  rw [List.map_nil, resume]

end Danmaku.Json
