import Danmaku.Codec.Text
import Danmaku.Proofs.JsonText

/-! What codecs write, they read. A record reads back field by field, as long as its names are distinct, and a case
by its name. Nothing is asked of a codec but that its numbers read back from their texts. -/

namespace Danmaku

/-- The text of the number is read as the number. -/
def Single.ReadsBack (x : Single) : Prop :=
  ∃ d ∈ x.shortest? .even, ∃ a ∈ Json.numeral? (d.chars Json.decimalStyle),
    (decode (.leaf a) : Except Fault Single) = .ok x

instance : DecidablePred Single.ReadsBack := fun _ => inferInstanceAs (Decidable (∃ _ ∈ _, ∃ _ ∈ _, _ = _))

namespace Json

/-- The integers among the leaves fit, and the numbers read back. -/
def Leaf.ReadsBack : Leaf Single → Prop
  | int n => fits n = true
  | number x => x.ReadsBack
  | null | bool _ | string _ => True

/-- A number without a numeral: it is written as if there was nothing. -/
def Leaf.IsLost : Leaf Single → Prop
  | number x => x.shortest? .even = none
  | null | bool _ | int _ | string _ => False

/-- The value that is read for one that is written. -/
def echo (j : Output) : Input := j.written.map Leaf.echo

theorem Leaf.ReadsBack.legible {l : Leaf Single} (h : l.ReadsBack) : l.written.Legible := by
  cases l with
  | int n => exact h
  | number x =>
      obtain ⟨d, hd, a, ha, -⟩ := h
      rw [Leaf.written, Option.mem_def.1 hd]
      exact Option.isSome_of_mem ha
  | _ => trivial

theorem echo_array (js : List Output) : echo (array js) = array (js.map echo) := by
  rw [echo, written, map, map, mapItems_eq_map, mapItems_eq_map, List.map_map]
  rfl

theorem echo_object (ms : List (String × Output)) :
    echo (object ms) = object (ms.map fun m => (m.1, m.2.echo)) := by
  rw [echo, written, map, map, mapMembers_eq_map, mapMembers_eq_map, List.map_map]
  rfl

/-- The singles that are written. -/
def numbers (j : Output) : List Single :=
  j.leaves.filterMap fun
    | .number x => some x
    | _ => none

theorem mem_numbers {j : Output} {x : Single} (h : .number x ∈ j.leaves) : x ∈ j.numbers :=
  List.mem_filterMap.2 ⟨.number x, h, rfl⟩

theorem mem_leaves {j : Output} {x : Single} (h : x ∈ j.numbers) : .number x ∈ j.leaves := by
  obtain ⟨l, hl, same⟩ := List.mem_filterMap.1 h
  cases l with
  | number y => exact Option.some.inj same ▸ hl
  | _ => cases same

/-- A value that is read back is not the place where a text breaks off. -/
theorem isReadable_echo {j : Output} (h : ∀ l ∈ j.leaves, l.ReadsBack) (name : String) :
    isReadable (name, j.echo) = true := by
  cases j with
  | leaf l =>
      have hl := h l List.mem_cons_self
      cases l with
      | number x =>
          obtain ⟨d, hd, a, ha, decoded⟩ := hl
          rw [Option.mem_def] at hd ha
          have : echo (number x) = leaf a := by
            simp only [echo, written, map, Leaf.written, hd, Leaf.echo, ha, Option.getD_some]
          rw [this]
          cases a with
          | broken => cases decoded
          | _ => rfl
      | _ => rfl
  | array js => rfl
  | object ms => rfl

end Json

/-- The value that is written for `x` is read as `x`, and not read at all if a number in it is lost. -/
structure Reads {α : Type} (read : Json.Input → Except Fault α) (j : Json.Output) (x : α) : Prop where
  fits : ∀ n, .int n ∈ j.leaves → Json.fits n = true
  ok : (∀ l ∈ j.leaves, l.ReadsBack) → read j.echo = .ok x
  fails : ∀ l ∈ j.leaves, l.IsLost → ∃ e, read j.echo = .error e

/-- A codec that reads what it writes. -/
class LawfulCoded (α : Type) [Coded α] : Prop where
  reads : ∀ x : α, Reads decode (encode x) x

export LawfulCoded (reads)

/-- The text of a value is well-formed, and holds what is written, as long as each number in it is read from its
numeral or has none. -/
theorem read_save {α : Type} [Coded α] [LawfulCoded α] (x : α)
    (numbers : ∀ n ∈ (encode x).numbers, n.ReadsBack ∨ n.shortest? .even = none) :
    Json.read (save x) = ⟨(encode x).echo, true⟩ := by
  refine Json.read_pretty _ ?_
  rw [Json.written, Json.leaves_map, List.forall_mem_map]
  intro l hl
  cases l with
  | int n => exact (reads x).fits n hl
  | number n =>
      rcases numbers n (Json.mem_numbers hl) with back | lost
      · exact Json.Leaf.ReadsBack.legible (l := .number n) back
      · rw [Json.Leaf.written, lost]
        trivial
  | _ => trivial

/-- A value is read from its text if the numbers in it are. -/
theorem load_save_of_numbers {α : Type} [Coded α] [LawfulCoded α] (x : α)
    (numbers : ∀ n ∈ (encode x).numbers, n.ReadsBack) : load α (save x) = .ok x := by
  have back : ∀ l ∈ (encode x).leaves, l.ReadsBack := by
    intro l hl
    cases l with
    | int n => exact (reads x).fits n hl
    | number n => exact numbers n (Json.mem_numbers hl)
    | _ => trivial
  rw [load, read_save x fun n hn => .inl (numbers n hn)]
  dsimp only
  rw [(reads x).ok back]
  rfl

/-- A value is not read from its text if a number in it is lost. -/
theorem load_save_of_lost {α : Type} [Coded α] [LawfulCoded α] (x : α)
    (numbers : ∀ n ∈ (encode x).numbers, n.ReadsBack ∨ n.shortest? .even = none)
    (lost : ∃ n ∈ (encode x).numbers, n.shortest? .even = none) : ∃ e, load α (save x) = .error e := by
  obtain ⟨n, hn, lost⟩ := lost
  obtain ⟨e, failed⟩ := (reads x).fails (.number n) (Json.mem_leaves hn) lost
  rw [load, read_save x numbers]
  dsimp only
  rw [failed]
  exact ⟨_, rfl⟩

variable {α β σ τ : Type}

namespace Reads

variable {read : Json.Input → Except Fault α} {j : Json.Output} {x : α}

theorem map (h : Reads read j x) (f : α → β) : Reads (fun j => f <$> read j) j (f x) where
  fits := h.fits
  ok := by
    intro back
    rw [h.ok back]
    rfl
  fails := by
    intro l hl lost
    obtain ⟨e, he⟩ := h.fails l hl lost
    exact ⟨e, by rw [he]; rfl⟩

theorem bind (h : Reads read j x) {f : α → Except Fault β} {y : β} (hf : f x = .ok y) :
    Reads (fun j => do f (← read j)) j y where
  fits := h.fits
  ok := by
    intro back
    rw [h.ok back]
    exact hf
  fails := by
    intro l hl lost
    obtain ⟨e, he⟩ := h.fails l hl lost
    exact ⟨e, by rw [he]; rfl⟩

theorem leaf {l : Json.Leaf Single} (fits : ∀ n, l = .int n → Json.fits n = true)
    (ok : l.ReadsBack → read (Json.echo (.leaf l)) = .ok x)
    (fails : l.IsLost → ∃ e, read (Json.echo (.leaf l)) = .error e) : Reads read (.leaf l) x where
  fits := by
    intro n hn
    exact fits n (List.mem_singleton.1 hn).symm
  ok := by
    intro back
    exact ok (back l List.mem_cons_self)
  fails := by
    intro l' hl lost
    obtain rfl := List.mem_singleton.1 hl
    exact fails lost

end Reads

/-- Where the images are distinct, there is one item of an image. -/
theorem filter_eq_singleton {γ κ : Type} [DecidableEq κ] {f : γ → κ} {l : List γ}
    (distinct : (l.map f).Nodup) {a : γ} (mem : a ∈ l) : l.filter (f · = f a) = [a] := by
  induction l with
  | nil => cases mem
  | cons b l ih =>
      rw [List.map_cons, List.nodup_cons] at distinct
      obtain ⟨first, distinct⟩ := distinct
      rcases List.mem_cons.1 mem with rfl | mem
      · rw [List.filter_cons_of_pos (by simp), List.filter_eq_nil_iff.2]
        intro c hc same
        rw [decide_eq_true_eq] at same
        exact first (same ▸ List.mem_map_of_mem hc)
      · have other : f b ≠ f a := fun same => first (same ▸ List.mem_map_of_mem mem)
        rw [List.filter_cons_of_neg (by simpa using other), ih distinct mem]

namespace Fields

/-- What the fields write of `s` they read as `t`, wherever it stands among members of other names. -/
structure Reads (fs : Fields σ τ) (s : σ) (t : τ) : Prop where
  fits : ∀ m ∈ fs.write s, ∀ n, .int n ∈ m.2.leaves → Json.fits n = true
  ok : (∀ m ∈ fs.write s, ∀ l ∈ m.2.leaves, l.ReadsBack) → ∀ ms : List (String × Json.Input),
    (ms.map (·.1)).Nodup → (∀ m ∈ fs.write s, (m.1, m.2.echo) ∈ ms) → fs.read (.members ms) = .ok t
  fails : ∀ m ∈ fs.write s, ∀ l ∈ m.2.leaves, l.IsLost → ∀ ms : List (String × Json.Input),
    (ms.map (·.1)).Nodup → (∀ m ∈ fs.write s, (m.1, m.2.echo) ∈ ms) → ∃ e, fs.read (.members ms) = .error e

@[simp] theorem map_write_start (make : τ) (s : σ) : ((start σ make).write s).map (·.1) = [] := rfl

@[simp] theorem map_write_required [Coded α] (fs : Fields σ (α → τ)) (name : String) (get : σ → α) (s : σ) :
    ((fs.required name get).write s).map (·.1) = (fs.write s).map (·.1) ++ [name] :=
  List.map_append

@[simp] theorem map_write_optional [Coded α] (fs : Fields σ (α → τ)) (name : String) (get : σ → α) (absent : α)
    (s : σ) : ((fs.optional name get absent).write s).map (·.1) = (fs.write s).map (·.1) ++ [name] :=
  List.map_append

/-- Among members of distinct names, a field is found by its name. -/
theorem readField_of_mem [Coded α] {index : Nat} {name : String} {absent : Option α}
    {ms : List (String × Json.Input)} {j : Json.Input} (distinct : (ms.map (·.1)).Nodup)
    (mem : (name, j) ∈ ms) :
    ∃ place, readField index name absent (.members ms) = (Danmaku.decode j).mapError (place, ·) := by
  obtain ⟨i, hi, hj⟩ := List.mem_iff_getElem.1 mem
  have placed : ((name, j), i) ∈ ms.zipIdx :=
    List.mk_mem_zipIdx_iff_getElem?.2 (by rw [List.getElem?_eq_getElem hi, hj])
  have names : (ms.zipIdx.map (·.1.1)).Nodup := by
    have same : ms.zipIdx.map (·.1.1) = (ms.zipIdx.map (·.1)).map (·.1) := List.map_map.symm
    rwa [same, List.zipIdx_map_fst]
  have found := filter_eq_singleton names placed
  refine ⟨i, ?_⟩
  simp only [readField, found]
  cases (Danmaku.decode j : Except Fault α) <;> rfl

theorem Reads.start (make : τ) (s : σ) : (start σ make).Reads s make where
  fits := nofun
  ok := fun _ _ _ _ => rfl
  fails := nofun

theorem both_error_left (e : Nat × Fault) (a : Except (Nat × Fault) α) :
    ∃ e', both (.error e : Except (Nat × Fault) (α → β)) a = .error e' := by
  cases a with
  | ok => exact ⟨e, rfl⟩
  | error e' => exact ⟨_, rfl⟩

theorem both_error_right (f : Except (Nat × Fault) (α → β)) (e : Nat × Fault) :
    ∃ e', both f (.error e) = .error e' := by
  cases f with
  | ok => exact ⟨e, rfl⟩
  | error e' => exact ⟨_, rfl⟩

theorem Reads.field [Coded α] {fs : Fields σ (α → τ)} {s : σ} {f : α → τ} (h : fs.Reads s f) (absent : Option α)
    (name : String) {get : σ → α} {x : α} (hx : Danmaku.Reads Danmaku.decode (Danmaku.encode (get s)) x) :
    (fs.field absent name get).Reads s (f x) where
  fits := by
    intro m hm
    rcases List.mem_append.1 hm with hm | hm
    · exact h.fits m hm
    · rw [List.mem_singleton.1 hm]
      exact hx.fits
  ok := by
    intro back ms distinct mem
    obtain ⟨back, backLast⟩ := List.forall_mem_append.1 back
    obtain ⟨mem, memLast⟩ := List.forall_mem_append.1 mem
    have first := h.ok back ms distinct mem
    obtain ⟨place, last⟩ : ∃ place, readField fs.count name absent (.members ms) = _ :=
      readField_of_mem distinct (memLast _ List.mem_cons_self)
    rw [hx.ok (backLast _ List.mem_cons_self)] at last
    simp only [Fields.field, first, last, both, Except.mapError]
  fails := by
    intro m hm l hl lost ms distinct mem
    obtain ⟨mem, memLast⟩ := List.forall_mem_append.1 mem
    simp only [Fields.field]
    rcases List.mem_append.1 hm with hm | hm
    · obtain ⟨e, first⟩ := h.fails m hm l hl lost ms distinct mem
      rw [first]
      exact both_error_left e _
    · rw [List.mem_singleton.1 hm] at hl
      obtain ⟨e, failed⟩ := hx.fails l hl lost
      obtain ⟨place, last⟩ : ∃ place, readField fs.count name absent (.members ms) = _ :=
        readField_of_mem distinct (memLast _ List.mem_cons_self)
      rw [last, failed]
      exact both_error_right _ (place, e)

theorem Reads.required [Coded α] {fs : Fields σ (α → τ)} {s : σ} {f : α → τ} (h : fs.Reads s f) {name : String}
    {get : σ → α} {x : α} (hx : Danmaku.Reads Danmaku.decode (Danmaku.encode (get s)) x) :
    (fs.required name get).Reads s (f x) :=
  h.field none name hx

theorem Reads.optional [Coded α] {fs : Fields σ (α → τ)} {s : σ} {f : α → τ} (h : fs.Reads s f) {name : String}
    {get : σ → α} {absent : α} {x : α} (hx : Danmaku.Reads Danmaku.decode (Danmaku.encode (get s)) x) :
    (fs.optional name get absent).Reads s (f x) :=
  h.field (some absent) name hx

/-- A record of distinct names reads back if its fields do. -/
theorem Reads.record {fs : Fields σ τ} {s : σ} {t : τ} (h : fs.Reads s t)
    (distinct : ((fs.write s).map (·.1)).Nodup) : Danmaku.Reads fs.decode (fs.encode s) t where
  fits := by
    intro n hn
    rw [encode, Json.leaves, Json.leavesOfMembers_eq_flatMap] at hn
    obtain ⟨m, hm, hn⟩ := List.mem_flatMap.1 hn
    exact h.fits m hm n hn
  ok := by
    intro back
    rw [encode, Json.leaves, Json.leavesOfMembers_eq_flatMap] at back
    have back (m : String × Json.Output) (hm : m ∈ fs.write s) : ∀ l ∈ m.2.leaves, l.ReadsBack :=
      fun l hl => back l (List.mem_flatMap.2 ⟨m, hm, hl⟩)
    have read := h.ok back ((fs.write s).map fun m => (m.1, m.2.echo)) (by rwa [List.map_map])
      fun m hm => List.mem_map_of_mem hm
    have readable : ((fs.write s).map fun m => (m.1, m.2.echo)).findIdx? (!Json.isReadable ·) = none := by
      rw [List.findIdx?_eq_none_iff]
      intro _ hm
      obtain ⟨m, written, rfl⟩ := List.mem_map.1 hm
      rw [Json.isReadable_echo (back m written), Bool.not_true]
    rw [encode, Json.echo_object, decode, read, readable]
  fails := by
    intro l hl lost
    rw [encode, Json.leaves, Json.leavesOfMembers_eq_flatMap] at hl
    obtain ⟨m, hm, hl⟩ := List.mem_flatMap.1 hl
    obtain ⟨e, failed⟩ := h.fails m hm l hl lost ((fs.write s).map fun m => (m.1, m.2.echo))
      (by rwa [List.map_map]) fun m hm => List.mem_map_of_mem hm
    rw [encode, Json.echo_object, decode, failed]
    split
    · rename_i same _
      cases same
    · exact ⟨.wrongKind, rfl⟩
    · exact ⟨_, rfl⟩
    · exact ⟨_, rfl⟩

end Fields

namespace Case

variable {cases : List (Case τ)} {name : String} {x : τ}

/-- Among cases of distinct names, one is found by its name. -/
theorem find?_of_mem (distinct : (cases.map (·.name)).Nodup) {c : Case τ} (mem : c ∈ cases) :
    cases.find? (·.name = c.name) = some c := by
  rw [← List.head?_filter, filter_eq_singleton distinct mem]
  rfl

/-- What is written for `x` names one of the cases, which reads it as `x`. -/
inductive Covers (cases : List (Case τ)) : Json.Output → τ → Prop where
  | bare {c : Case τ} {x : τ} (mem : c ∈ cases) (read : c.read none = .ok x) : Covers cases (.string c.name) x
  | tagged {c : Case τ} {j : Json.Output} {x : τ} (mem : c ∈ cases) (h : Reads (fun j => c.read (some j)) j x) :
      Covers cases (tagged c.name j) x

namespace Covers

theorem unit (mem : unit name x ∈ cases) : Covers cases (.string name) x := .bare mem rfl

theorem ofDecoder {read : Json.Input → Except Fault τ} {j : Json.Output} (mem : ofDecoder name read ∈ cases)
    (h : Reads read j x) : Covers cases (Danmaku.tagged name j) x :=
  .tagged mem h

theorem data [Coded α] (make : α → τ) {j : Json.Output} {a : α} (mem : data name make ∈ cases)
    (h : Reads Danmaku.decode j a) : Covers cases (Danmaku.tagged name j) (make a) :=
  .tagged mem (h.map make)

theorem record {υ : Type} (make : υ → τ) {fs : Fields σ υ} {s : σ} {y : υ}
    (mem : Case.ofDecoder name (fun j => make <$> fs.decode j) ∈ cases) (h : Reads fs.decode (fs.encode s) y) :
    Covers cases (Danmaku.tagged name (fs.encode s)) (make y) :=
  .tagged mem (h.map make)

theorem mono {j : Json.Output} (h : Covers cases j x) {cases' : List (Case τ)} (sub : ∀ c ∈ cases, c ∈ cases') :
    Covers cases' j x := by
  cases h with
  | bare hc read => exact .bare (sub _ hc) read
  | tagged hc h => exact .tagged (sub _ hc) h

/-- Cases of a type read as cases of another. -/
theorem map {υ : Type} {j : Json.Output} (h : Covers cases j x) (f : τ → υ) {cases' : List (Case υ)}
    (mem : ∀ c ∈ cases, ({ name := c.name, read := fun j => f <$> c.read j } : Case υ) ∈ cases') :
    Covers cases' j (f x) := by
  cases h with
  | bare hc read =>
      refine .bare (mem _ hc) ?_
      dsimp only
      rw [read]
      rfl
  | tagged hc h => exact .tagged (mem _ hc) (h.map f)

/-- Cases of distinct names read back. -/
theorem reads {j : Json.Output} (h : Covers cases j x) (distinct : (cases.map (·.name)).Nodup) :
    Reads (decode cases) j x := by
  cases h with
  | @bare c _ mem read =>
      refine .leaf nofun (fun _ => ?_) nofun
      change decode cases (.leaf (.value (.string c.name))) = .ok x
      rw [decode, find?_of_mem distinct mem]
      exact read
  | @tagged c j _ mem h =>
      have leaves : (Danmaku.tagged c.name j).leaves = j.leaves := List.append_nil _
      have found : decode cases (Danmaku.tagged c.name j).echo = c.read (some j.echo) := by
        rw [Danmaku.tagged, Json.echo_object, List.map_cons, List.map_nil, decode, find?_of_mem distinct mem]
        dsimp only
        cases c.read (some j.echo) <;> rfl
      constructor
      · rw [leaves]
        exact h.fits
      · rw [leaves, found]
        exact h.ok
      · rw [leaves, found]
        exact h.fails

end Covers

end Case

/-- A type whose named values are all of its values, under distinct names. -/
class LawfulNamed (α : Type) [Named α] : Prop where
  mem_all : ∀ x : α, x ∈ Named.all := by
    intro x
    cases x <;> decide
  distinct : (Named.all.map (Named.name : α → String)).Nodup := by decide

/-- Where there is a case for each named value, there is one for this value. -/
theorem LawfulNamed.mem_map [Named α] [LawfulNamed α] (f : α → β) (x : α) : f x ∈ Named.all.map f :=
  List.mem_map_of_mem (mem_all x)

/-- Named values read back from their names. -/
theorem Coded.lawful_ofNamed [Named α] [LawfulNamed α] : @LawfulCoded α .ofNamed :=
  let _ : Coded α := .ofNamed
  { reads := fun x => by
      refine (Case.Covers.unit (LawfulNamed.mem_map (fun x => Case.unit (Named.name x) x) x)).reads ?_
      rw [List.map_map]
      exact LawfulNamed.distinct }

namespace Coded

instance : LawfulCoded Single where
  reads x := by
    refine .leaf nofun (fun ⟨d, hd, a, ha, decoded⟩ => ?_) fun (lost : x.shortest? .even = none) => ?_
    · rw [Option.mem_def] at hd ha
      simpa only [Json.echo, Json.written, Json.map, Json.Leaf.written, hd, Json.Leaf.echo, ha, Option.getD_some]
        using decoded
    · refine ⟨.wrongKind, ?_⟩
      simp only [Json.echo, Json.written, Json.map, Json.Leaf.written, lost, Json.Leaf.echo]
      rfl

instance : LawfulCoded Bool where
  reads _ := .leaf nofun (fun _ => rfl) nofun

instance : LawfulCoded String where
  reads _ := .leaf nofun (fun _ => rfl) nofun

theorem reads_bounded {least greatest : Int} {make : Int → α} {n : Int} {x : α} (fits : Json.fits n = true)
    (bounds : least ≤ n ∧ n ≤ greatest) (hx : make n = x) : Reads (bounded least greatest make) (.int n) x :=
  .leaf (by rintro _ ⟨⟩; exact fits) (fun _ => by
    change bounded least greatest make (.leaf (.value (.int n))) = .ok x
    rw [bounded, if_pos bounds, hx]) nofun

/-- The integers of every type here are among those of 64 bits. -/
theorem fits_of_bounds {n : Int} (least : -0x80000000 ≤ n) (greatest : n < 0x10000000000000000) :
    Json.fits n = true := by
  have min : Int64.minValue.toInt = -0x8000000000000000 := rfl
  have size : (UInt64.size : Int) = 0x10000000000000000 := rfl
  rw [Json.fits, min, size, Bool.and_eq_true, decide_eq_true_eq, decide_eq_true_eq]
  omega

instance : LawfulCoded Int32 where
  reads n := by
    have least : -0x80000000 ≤ n.toInt := n.minValue_le_toInt
    have greatest : n.toInt ≤ 0x7fffffff := n.toInt_le
    exact reads_bounded (fits_of_bounds least (by omega)) ⟨least, greatest⟩ n.ofInt_toInt

instance : LawfulCoded UInt32 where
  reads n := by
    have below : n.toNat < 0x100000000 := n.toNat_lt
    have size : (UInt32.size : Int) = 0x100000000 := rfl
    refine reads_bounded (fits_of_bounds (by omega) (by omega)) ⟨by omega, by omega⟩ ?_
    rw [Int.toNat_natCast, UInt32.ofNat_toNat]

instance : LawfulCoded UInt64 where
  reads n := by
    have below : n.toNat < 0x10000000000000000 := n.toNat_lt
    have size : (UInt64.size : Int) = 0x10000000000000000 := rfl
    refine reads_bounded (fits_of_bounds (by omega) (by omega)) ⟨by omega, by omega⟩ ?_
    rw [Int.toNat_natCast, UInt64.ofNat_toNat]

instance [Coded α] [LawfulCoded α] : LawfulCoded (List α) where
  reads xs := {
    fits := by
      intro n hn
      change .int n ∈ Json.leavesOfItems (xs.map encode) at hn
      rw [Json.leavesOfItems_eq_flatMap, List.mem_flatMap] at hn
      obtain ⟨_, hj, hn⟩ := hn
      obtain ⟨x, -, rfl⟩ := List.mem_map.1 hj
      exact (reads x).fits n hn
    ok := by
      intro back
      change ∀ l ∈ Json.leavesOfItems (xs.map encode), l.ReadsBack at back
      rw [Json.leavesOfItems_eq_flatMap] at back
      change decode (Json.echo (.array (xs.map encode))) = .ok xs
      rw [Json.echo_array]
      change decodeList ((xs.map encode).map Json.echo) = .ok xs
      induction xs with
      | nil => rfl
      | cons x xs ih =>
          rw [List.map_cons, List.flatMap_cons, List.forall_mem_append] at back
          rw [List.map_cons, List.map_cons, decodeList, (reads x).ok back.1]
          dsimp only [bind, Except.bind]
          rw [ih back.2]
    fails := by
      intro l hl lost
      change l ∈ Json.leavesOfItems (xs.map encode) at hl
      rw [Json.leavesOfItems_eq_flatMap] at hl
      change ∃ e, decode (Json.echo (.array (xs.map encode))) = .error e
      rw [Json.echo_array]
      change ∃ e, decodeList ((xs.map encode).map Json.echo) = .error e
      induction xs with
      | nil => cases hl
      | cons x xs ih =>
          rw [List.map_cons, List.flatMap_cons] at hl
          rw [List.map_cons, List.map_cons, decodeList]
          rcases List.mem_append.1 hl with hl | hl
          · obtain ⟨e, first⟩ := (reads x).fails l hl lost
            rw [first]
            exact ⟨e, rfl⟩
          · obtain ⟨e, rest⟩ := ih hl
            rw [rest]
            cases (decode (encode x).echo : Except Fault α) with
            | ok => exact ⟨e, rfl⟩
            | error e' => exact ⟨e', rfl⟩ }

/-- A value that is written as a list of fixed length. -/
theorem reads_tuple [Coded α] [LawfulCoded α] {make : List α → Option β} {xs : List α} {x : β}
    (h : make xs = some x) : Reads (tuple make) (encode xs) x where
  fits := (reads xs).fits
  ok := by
    intro back
    rw [tuple, (reads xs).ok back]
    dsimp only [bind, Except.bind]
    rw [h]
  fails := by
    intro l hl lost
    obtain ⟨e, failed⟩ := (reads xs).fails l hl lost
    rw [tuple, failed]
    exact ⟨e, rfl⟩

end Coded

namespace Fields

variable [Coded α] [LawfulCoded α] [Coded β] [LawfulCoded β]

theorem reads_only {name : String} (x : α) :
    Danmaku.Reads (only name : Fields α α).decode ((only name : Fields α α).encode x) x :=
  Reads.start _ x |>.required (reads x) |>.record (by simp)

theorem reads_pair {first second : String} (distinct : first ≠ second) (x : α × β) :
    Danmaku.Reads (pair first second : Fields (α × β) (α × β)).decode
      ((pair first second : Fields (α × β) (α × β)).encode x) x :=
  Reads.start _ x |>.required (reads x.1) |>.required (reads x.2) |>.record (by simpa using distinct)

end Fields

end Danmaku
