import Danmaku.Proofs.Rounds

/-! The loops that a player has open are those that are open in the text of its program. `Program.openLoops`
reads them off the text before a position; here is what it says of a position, of the way back to the start
of a loop and of the way past a loop that is not entered. The invariant `Program.Nests` compares the frames
of a player with it. It holds however badly the brackets match: an end without a begin closes nothing, and
loops that are open at the end of the list are closed there one by one, so that the frames are then the
outer ones of those that the text leaves open. -/

namespace Danmaku

namespace Instruction

/-- Whether the instruction begins a loop when it is executed. -/
def opens (i : Instruction) : Bool := i.enabled && i.kind.isLoopBegin

/-- Whether the instruction ends a loop when it is executed. -/
def closes (i : Instruction) : Bool := i.enabled && i.kind.isLoopEnd

theorem opens_eq (i : Instruction) : i.opens = (i.enabled && i.action.isLoopBegin) := by
  rw [opens, action, Kind.isLoopBegin_action]

theorem closes_eq (i : Instruction) : i.closes = (i.enabled && i.action.isLoopEnd) := by
  rw [closes, action, Kind.isLoopEnd_action]

theorem opens_eq_false_of_closes {i : Instruction} (h : i.closes = true) : i.opens = false := by
  simp only [closes, Bool.and_eq_true] at h
  cases hk : i.kind <;> simp_all [opens, Kind.isLoopBegin, Kind.isLoopEnd]

end Instruction

namespace Program

variable {p : Program} {i : Instruction} {k position : Nat}

theorem openLoops_succ (h : p.instructions[k]? = some i) :
    p.openLoops (k + 1) =
      if i.opens then k :: p.openLoops k else if i.closes then (p.openLoops k).tail else p.openLoops k := by
  have hk := (List.getElem?_eq_some_iff.1 h).1
  unfold openLoops
  rw [List.take_add_one, h, Option.toList_some, List.zipIdx_append, List.foldl_append,
    List.length_take_of_le (Nat.le_of_lt hk)]
  simp only [List.zipIdx_cons, List.zipIdx_nil, List.foldl_cons, List.foldl_nil, Nat.zero_add]
  rfl

theorem openLoops_succ_of_opens (h : p.instructions[k]? = some i) (hi : i.opens = true) :
    p.openLoops (k + 1) = k :: p.openLoops k := by
  rw [openLoops_succ h, if_pos hi]

theorem openLoops_succ_of_closes (h : p.instructions[k]? = some i) (hi : i.closes = true) :
    p.openLoops (k + 1) = (p.openLoops k).tail := by
  rw [openLoops_succ h, Instruction.opens_eq_false_of_closes hi, if_pos hi]
  rfl

theorem openLoops_succ_of_neither (h : p.instructions[k]? = some i) (ho : i.opens = false)
    (hc : i.closes = false) : p.openLoops (k + 1) = p.openLoops k := by
  rw [openLoops_succ h, ho, hc]
  rfl

/-- What holds of no open loops, and over every instruction, holds of the loops open at a position. -/
theorem openLoops_induction {P : Nat → List Nat → Prop} (zero : P 0 [])
    (opens : ∀ k i, p.instructions[k]? = some i → i.opens = true → P k (p.openLoops k) →
      P (k + 1) (k :: p.openLoops k))
    (closes : ∀ k i, p.instructions[k]? = some i → P k (p.openLoops k) → P (k + 1) (p.openLoops k).tail)
    (neither : ∀ k i, p.instructions[k]? = some i → P k (p.openLoops k) → P (k + 1) (p.openLoops k))
    (position : Nat) (h : position ≤ p.length) : P position (p.openLoops position) := by
  induction position with
  | zero => exact zero
  | succ k ih =>
      obtain ⟨i, hk⟩ : ∃ i, p.instructions[k]? = some i := ⟨_, List.getElem?_eq_getElem h⟩
      have hP := ih (Nat.le_of_lt h)
      rw [openLoops_succ hk]
      split
      · rename_i ho
        exact opens k i hk ho hP
      · split
        · exact closes k i hk hP
        · exact neither k i hk hP

/-- An open loop begins before the position, at an instruction that opens a loop. -/
theorem of_mem_openLoops (h : k ∈ p.openLoops position) (hp : position ≤ p.length) :
    k < position ∧ ∃ i, p.instructions[k]? = some i ∧ i.opens = true := by
  refine openLoops_induction (P := fun position opened => ∀ k ∈ opened, k < position ∧
    ∃ i, p.instructions[k]? = some i ∧ i.opens = true) ?_ ?_ ?_ ?_ position hp k h
  · exact fun k hk => absurd hk List.not_mem_nil
  · intro k i hi ho ih j hj
    rcases List.mem_cons.1 hj with rfl | hj
    · exact ⟨Nat.lt_succ_self _, i, hi, ho⟩
    · exact ⟨Nat.lt_succ_of_lt (ih j hj).1, (ih j hj).2⟩
  · intro k _ _ ih j hj
    have hj := ih j (List.mem_of_mem_tail hj)
    exact ⟨Nat.lt_succ_of_lt hj.1, hj.2⟩
  · intro k _ _ ih j hj
    exact ⟨Nat.lt_succ_of_lt (ih j hj).1, (ih j hj).2⟩

/-- Inner loops begin later. -/
theorem pairwise_openLoops (hp : position ≤ p.length) : (p.openLoops position).Pairwise (· > ·) := by
  refine openLoops_induction (P := fun position opened => position ≤ p.length → opened.Pairwise (· > ·))
    ?_ ?_ ?_ ?_ position hp hp
  · exact fun _ => List.Pairwise.nil
  · intro k _ _ _ ih hk
    have hk := Nat.le_of_succ_le hk
    exact List.pairwise_cons.2 ⟨fun j hj => (of_mem_openLoops hj hk).1, ih hk⟩
  · exact fun k _ _ ih hk => (ih (Nat.le_of_succ_le hk)).sublist (List.tail_sublist _)
  · exact fun k _ _ ih hk => ih (Nat.le_of_succ_le hk)

/-- No more loops are open than begin before the position. -/
theorem length_openLoops_le (hp : position ≤ p.length) :
    (p.openLoops position).length ≤ (p.instructions.take position).countP Instruction.opens := by
  refine openLoops_induction (P := fun position opened =>
    opened.length ≤ (p.instructions.take position).countP Instruction.opens) ?_ ?_ ?_ ?_ position hp
  · exact Nat.zero_le _
  · intro k i hi ho ih
    rw [List.take_add_one, hi, List.countP_append, Option.toList_some, List.countP_singleton, if_pos ho]
    exact Nat.succ_le_succ ih
  · intro k i hi ih
    rw [List.take_add_one, List.countP_append, List.length_tail]
    omega
  · intro k i hi ih
    rw [List.take_add_one, List.countP_append]
    omega

/-- At the start of the body of an open loop, that loop and those around it are open. -/
theorem openLoops_start {outer : List Nat} (h : k :: outer <:+ p.openLoops position)
    (hp : position ≤ p.length) : p.openLoops (k + 1) = k :: outer := by
  refine openLoops_induction (P := fun _ opened => ∀ k outer, k :: outer <:+ opened →
    p.openLoops (k + 1) = k :: outer) ?_ ?_ ?_ ?_ position hp k outer h
  · intro k outer h
    exact absurd (List.suffix_nil.1 h) (List.cons_ne_nil _ _)
  · intro k i hi ho ih j outer h
    rcases List.suffix_cons_iff.1 h with h | h
    · obtain ⟨rfl, rfl⟩ := List.cons.inj h
      exact openLoops_succ_of_opens hi ho
    · exact ih j outer h
  · intro k _ _ ih j outer h
    exact ih j outer (h.trans (List.tail_suffix _))
  · exact fun k _ _ ih j outer h => ih j outer h

theorem bodyLength_cons (depth : Nat) (i : Instruction) (body : List Instruction) :
    bodyLength depth (i :: body) =
      if i.opens then bodyLength (depth + 1) body + 1
      else if i.closes then (match depth with
        | 0 => 1
        | depth + 1 => bodyLength depth body + 1)
      else bodyLength depth body + 1 := by
  rw [bodyLength.eq_def]
  rfl

/-- Going on just past a body that is left out, the loops around it are open again; at the end of the list,
where the body need not have ended, loops inside of them may be open too. -/
theorem openLoops_bodyLength (outer : List Nat) :
    ∀ (body : List Instruction) (position : Nat) (inner : List Nat), p.instructions.drop position = body →
      position ≤ p.length → p.openLoops position = inner ++ outer → inner ≠ [] →
      position + bodyLength (inner.length - 1) body ≤ p.length ∧
      outer <:+ p.openLoops (position + bodyLength (inner.length - 1) body) ∧
      (position + bodyLength (inner.length - 1) body < p.length →
        p.openLoops (position + bodyLength (inner.length - 1) body) = outer) := by
  intro body
  induction body with
  | nil =>
      intro position inner hb hp ho _
      have hl : p.length ≤ position := List.drop_eq_nil_iff.1 hb
      refine ⟨hp, ?_, fun hlt => absurd hl (Nat.not_le_of_lt hlt)⟩
      rw [bodyLength, Nat.add_zero, ho]
      exact List.suffix_append _ _
  | cons i body ih =>
      intro position inner hb hp ho hne
      have hi : p.instructions[position]? = some i := by
        rw [← List.head?_drop, hb]
        rfl
      have hlt : position < p.length := (List.getElem?_eq_some_iff.1 hi).1
      have hb : p.instructions.drop (position + 1) = body := by
        rw [← List.tail_drop, hb]
        rfl
      -- One instruction on, with the loops that are then open inside of the left out one.
      have next : ∀ inner', p.openLoops (position + 1) = inner' ++ outer → inner' ≠ [] →
          ∀ n, n = bodyLength (inner'.length - 1) body + 1 → position + n ≤ p.length ∧
            outer <:+ p.openLoops (position + n) ∧
            (position + n < p.length → p.openLoops (position + n) = outer) := by
        intro inner' ho' hne' n hn
        have hn : position + n = position + 1 + bodyLength (inner'.length - 1) body := by omega
        rw [hn]
        exact ih (position + 1) inner' hb hlt ho' hne'
      obtain ⟨d, inner, rfl⟩ := List.exists_cons_of_ne_nil hne
      cases hopen : i.opens with
      | true =>
          refine next (position :: d :: inner) ?_ (List.cons_ne_nil _ _) _ ?_
          · rw [openLoops_succ_of_opens hi hopen, ho]
            rfl
          · rw [bodyLength_cons, hopen]
            rfl
      | false =>
          cases hclose : i.closes with
          | true =>
              have ho' := openLoops_succ_of_closes hi hclose
              rw [ho, List.cons_append, List.tail_cons] at ho'
              cases inner with
              | nil =>
                  rw [bodyLength_cons, hopen, hclose]
                  exact ⟨hlt, ho' ▸ List.suffix_refl _, fun _ => ho'⟩
              | cons e inner =>
                  refine next (e :: inner) ho' (List.cons_ne_nil _ _) _ ?_
                  rw [bodyLength_cons, hopen, hclose]
                  rfl
          | false =>
              refine next (d :: inner) ?_ (List.cons_ne_nil _ _) _ ?_
              · rw [openLoops_succ_of_neither hi hopen hclose, ho]
              · rw [bodyLength_cons, hopen, hclose]
                rfl

/-- Past a loop that is not entered, the loops around it are open, as they were before. -/
theorem openLoops_afterLoop (h : p.instructions[k]? = some i) (hi : i.opens = true) :
    p.afterLoop k ≤ p.length ∧ p.openLoops k <:+ p.openLoops (p.afterLoop k) ∧
      (p.afterLoop k < p.length → p.openLoops (p.afterLoop k) = p.openLoops k) := by
  have hk : k < p.length := (List.getElem?_eq_some_iff.1 h).1
  have hafter : p.afterLoop k = k + 1 + bodyLength 0 (p.instructions.drop (k + 1)) := by
    rw [afterLoop, Nat.min_eq_left hk]
  rw [hafter]
  exact openLoops_bodyLength (p.openLoops k) (p.instructions.drop (k + 1)) (k + 1) [k] rfl hk
    (openLoops_succ_of_opens h hi) (List.cons_ne_nil _ _)

/-- The frames of a player at a position are the loops that the text has open there. At the end of the
list, where loops are closed one by one, they are the outer ones of those. -/
structure Nests (p : Program) (position : Nat) (frames : List Frame) : Prop where
  position_le : position ≤ p.length
  start_pos : ∀ f ∈ frames, 0 < f.start
  suffix : frames.map (·.start - 1) <:+ p.openLoops position
  eq_of_lt : position < p.length → frames.map (·.start - 1) = p.openLoops position

variable {frames : List Frame} {frame : Frame}

theorem Nests.nil (p : Program) : p.Nests 0 [] where
  position_le := Nat.zero_le _
  start_pos := fun _ hf => absurd hf List.not_mem_nil
  suffix := List.nil_suffix
  eq_of_lt := fun _ => rfl

theorem Nests.of_eq (hp : position ≤ p.length) (start : ∀ f ∈ frames, 0 < f.start)
    (h : frames.map (·.start - 1) = p.openLoops position) : p.Nests position frames where
  position_le := hp
  start_pos := start
  suffix := h ▸ List.suffix_refl _
  eq_of_lt := fun _ => h

/-- Only where the frames start counts. -/
theorem Nests.congr {frames' : List Frame} (h : p.Nests position frames)
    (hs : frames'.map (·.start) = frames.map (·.start)) : p.Nests position frames' := by
  have hmap : frames'.map (·.start - 1) = frames.map (·.start - 1) := by
    have := congrArg (List.map (· - 1)) hs
    rwa [List.map_map, List.map_map] at this
  refine ⟨h.position_le, fun f hf => ?_, hmap ▸ h.suffix, fun hlt => hmap ▸ h.eq_of_lt hlt⟩
  have hmem : f.start ∈ frames.map (·.start) := hs ▸ List.mem_map_of_mem hf
  obtain ⟨g, hg, hgf⟩ := List.mem_map.1 hmem
  exact hgf ▸ h.start_pos g hg

theorem Nests.map_start (h : p.Nests position frames) (hlt : position < p.length) :
    frames.map (·.start) = (p.openLoops position).map (· + 1) := by
  rw [← h.eq_of_lt hlt, List.map_map]
  refine List.map_congr_left fun f hf => ?_
  exact (Nat.sub_add_cancel (h.start_pos f hf)).symm

theorem Nests.tail (h : p.Nests position (frame :: frames)) (hp : p.length ≤ position) :
    p.Nests position frames where
  position_le := h.position_le
  start_pos := fun f hf => h.start_pos f (List.mem_cons_of_mem _ hf)
  suffix := (List.suffix_cons _ _).trans h.suffix
  eq_of_lt := fun hlt => absurd hlt (Nat.not_lt_of_le hp)

theorem Nests.neither (h : p.Nests k frames) (hk : p.instructions[k]? = some i) (ho : i.opens = false)
    (hc : i.closes = false) : p.Nests (k + 1) frames := by
  have hlt : k < p.length := (List.getElem?_eq_some_iff.1 hk).1
  refine .of_eq hlt h.start_pos ?_
  rw [openLoops_succ_of_neither hk ho hc, h.eq_of_lt hlt]

theorem Nests.enter (h : p.Nests k frames) (hk : p.instructions[k]? = some i) (ho : i.opens = true)
    (hs : frame.start = k + 1) : p.Nests (k + 1) (frame :: frames) := by
  have hlt : k < p.length := (List.getElem?_eq_some_iff.1 hk).1
  refine .of_eq hlt (fun f hf => ?_) ?_
  · rcases List.mem_cons.1 hf with rfl | hf
    · omega
    · exact h.start_pos f hf
  · rw [openLoops_succ_of_opens hk ho, List.map_cons, h.eq_of_lt hlt, hs, Nat.add_sub_cancel]

theorem Nests.pass (h : p.Nests k frames) (hk : p.instructions[k]? = some i) (ho : i.opens = true) :
    p.Nests (p.afterLoop k) frames := by
  have hlt : k < p.length := (List.getElem?_eq_some_iff.1 hk).1
  obtain ⟨hle, hsuffix, heq⟩ := openLoops_afterLoop hk ho
  refine ⟨hle, h.start_pos, ?_, fun h' => ?_⟩
  · rwa [h.eq_of_lt hlt]
  · rw [h.eq_of_lt hlt, heq h']

theorem Nests.stray (h : p.Nests k []) (hk : p.instructions[k]? = some i) (hc : i.closes = true) :
    p.Nests (k + 1) [] := by
  have hlt : k < p.length := (List.getElem?_eq_some_iff.1 hk).1
  refine .of_eq hlt h.start_pos ?_
  rw [openLoops_succ_of_closes hk hc, ← h.eq_of_lt hlt]
  rfl

theorem Nests.close (h : p.Nests k (frame :: frames)) (hk : p.instructions[k]? = some i)
    (hc : i.closes = true) : p.Nests (k + 1) frames := by
  have hlt : k < p.length := (List.getElem?_eq_some_iff.1 hk).1
  refine .of_eq hlt (fun f hf => h.start_pos f (List.mem_cons_of_mem _ hf)) ?_
  rw [openLoops_succ_of_closes hk hc, ← h.eq_of_lt hlt]
  rfl

/-- Inner loops start later. -/
theorem Nests.pairwise_start (h : p.Nests position frames) : (frames.map (·.start)).Pairwise (· > ·) := by
  have hb := (pairwise_openLoops h.position_le).sublist h.suffix.sublist
  rw [List.pairwise_map] at hb ⊢
  refine hb.imp_of_mem fun {f g} hf hg hfg => ?_
  have := h.start_pos f hf
  have := h.start_pos g hg
  omega

/-- Back at the start of the innermost loop, the same loops are open. -/
theorem Nests.again (h : p.Nests position (frame :: frames)) : p.Nests frame.start (frame :: frames) := by
  have hpos : frame.start - 1 + 1 = frame.start := Nat.sub_add_cancel (h.start_pos frame List.mem_cons_self)
  have hmem : frame.start - 1 ∈ p.openLoops position := h.suffix.subset List.mem_cons_self
  have hstart := openLoops_start h.suffix h.position_le
  rw [hpos] at hstart
  refine .of_eq ?_ h.start_pos hstart.symm
  have := (of_mem_openLoops hmem h.position_le).1
  have := h.position_le
  omega

end Program

/-- The open loops of a player are those that its program has open where it is. -/
def Player.Nested (p : Player) : Prop := p.program.Nests p.pointer p.frames

namespace Turn

theorem Executed.nested_turn {t u : Turn} {i : Instruction} {flow : Flow} (h : t.player.Nested)
    (hi : t.player.program.instructions[t.player.pointer]? = some i) (enabled : i.enabled = true)
    (he : Executed t i flow u) : (u.follow flow).turn.player.Nested := by
  have neither (plain : i.action.Plain) : t.player.program.Nests (t.player.pointer + 1) t.player.frames :=
    h.neither hi (by rw [Instruction.opens_eq, plain.not_begin, Bool.and_false])
      (by rw [Instruction.closes_eq, plain.not_end, Bool.and_false])
  have opens (begin : i.action.isLoopBegin = true) : i.opens = true := by
    rw [Instruction.opens_eq, enabled, begin]
    rfl
  have closes (last : i.action.isLoopEnd = true) : i.closes = true := by
    rw [Instruction.closes_eq, enabled, last]
    rfl
  unfold Player.Nested at h ⊢
  cases he with
  | plain plain same =>
      simpa only [follow, Round.turn, advance, moveTo, same.program, same.pointer, same.frames]
        using neither plain
  | suspend plain same time pos =>
      simp only [follow, Round.turn, advance, moveTo, Turn.suspend, same.program, same.pointer, same.frames]
      exact (neither plain).congr (by rw [List.map_map]; rfl)
  | pass begin same =>
      simpa only [follow, Round.turn, moveTo, same.program, same.frames] using h.pass hi (opens begin)
  | enter begin same count endless turns =>
      simp only [follow, Round.turn, advance, moveTo, Turn.enter, same.program, same.pointer, same.frames]
      exact h.enter hi (opens begin) rfl
  | stray last frames same =>
      simp only [follow, Round.turn, advance, moveTo, same.program, same.pointer, same.frames]
      rw [frames] at h ⊢
      exact h.stray hi (closes last)
  | close last opened counted ended =>
      rw [opened] at h
      exact h.close hi (closes last)
  | again last opened turns =>
      rw [opened] at h
      exact h.again.congr rfl
  | idle last opened endless idle =>
      rw [opened] at h
      exact h.again.congr rfl
  | die plain same =>
      simpa only [follow, Round.turn, setStatus, same.program, same.pointer, same.frames] using h
  | pause plain => exact neither plain
  | stop plain stopped =>
      simp only [follow, Round.turn, stopped]
      exact .nil _
  | reboot plain rebooted =>
      simp only [follow, Round.turn, rebooted]
      exact .nil _

theorem Rounded.nested_turn {t : Turn} {r : Round} (h : t.player.Nested) (hr : Rounded t r) :
    r.turn.player.Nested := by
  cases hr with
  | done => exact h
  | repaired past opened =>
      rw [Player.Nested, opened] at h
      exact h.tail (List.getElem?_eq_none_iff.1 past)
  | disabled here disabled =>
      exact h.neither here (by rw [Instruction.opens, disabled, Bool.false_and])
        (by rw [Instruction.closes, disabled, Bool.false_and])
  | executed here enabled executed => exact executed.nested_turn (t := t.count) h here enabled

end Turn

namespace Player

theorem nested_ofProgram (program : Program) (emitter : ProjectileId) (slot : UInt32) :
    (ofProgram program emitter slot).Nested := .nil program

theorem nested_command {p : Player} (h : p.Nested) (command : Command) : (p.command command).Nested := by
  have hreset : p.program.Nests 0 [] := .nil p.program
  cases command with
  | play =>
      simp only [Player.command, play]
      split
      · exact h
      · exact h
      · exact hreset
      · exact hreset
  | pause =>
      simp only [Player.command, pause]
      split
      · exact h
      · exact h
  | stop => exact hreset
  | reboot => exact hreset

theorem nested_call (p : Player) (c : Call) (h : p.Nested) : (p.call c).Nested := by
  cases c with
  | update dt globals swarm =>
      exact update_invariant (P := Nested) (fun _ _ _ h => h)
        (fun globals t h => (Turn.rounded_round globals t).nested_turn h) h dt globals swarm
  | command command => exact nested_command h command

/-- Whatever calls a player has seen, it is within its program, and its open loops, from the outermost on,
are those that the text before its position has open, or the first of those at the end of the list. So a
loop goes back to just past an enabled begin, inner loops start later, and no more loops are open than the
program begins. -/
theorem nesting_after (program : Program) (emitter : ProjectileId) (slot : UInt32) (calls : List Call) :
    let p := (ofProgram program emitter slot).after calls
    p.program = program ∧ p.pointer ≤ program.length ∧
    (p.pointer < program.length →
      (p.frames.map (·.start - 1)).reverse = (program.openLoops p.pointer).reverse) ∧
    (p.pointer = program.length →
      (p.frames.map (·.start - 1)).reverse <+: (program.openLoops program.length).reverse) ∧
    (∀ f ∈ p.frames, ∃ i, program.instructions[f.start - 1]? = some i ∧ 0 < f.start ∧ i.enabled = true ∧
      i.kind.isLoopBegin = true) ∧
    (p.frames.reverse.map (·.start)).Pairwise (· < ·) ∧
    p.frames.length ≤ program.instructions.countP fun i => i.enabled && i.kind.isLoopBegin := by
  intro p
  have hprogram : p.program = program := program_after _ calls
  have hp : program.Nests p.pointer p.frames := by
    have h : p.Nested := after_induction nested_call (nested_ofProgram program emitter slot) calls
    rwa [Nested, hprogram] at h
  have hmem : ∀ f ∈ p.frames, f.start - 1 ∈ program.openLoops p.pointer := fun f hf =>
    hp.suffix.subset (List.mem_map_of_mem hf)
  refine ⟨hprogram, hp.position_le, fun h => ?_, fun h => ?_, fun f hf => ?_, ?_, ?_⟩
  · rw [hp.eq_of_lt h]
  · rw [← h]
    exact List.reverse_prefix.2 hp.suffix
  · obtain ⟨-, i, hi, hopens⟩ := Program.of_mem_openLoops (hmem f hf) hp.position_le
    rw [Instruction.opens, Bool.and_eq_true] at hopens
    exact ⟨i, hi, hp.start_pos f hf, hopens.1, hopens.2⟩
  · rw [List.map_reverse, List.pairwise_reverse]
    exact hp.pairwise_start
  · calc p.frames.length = (p.frames.map (·.start - 1)).length := (List.length_map _).symm
      _ ≤ (program.openLoops p.pointer).length := hp.suffix.length_le
      _ ≤ (program.instructions.take p.pointer).countP Instruction.opens :=
          Program.length_openLoops_le hp.position_le
      _ ≤ program.instructions.countP Instruction.opens :=
          (List.take_sublist _ _).countP_le

end Player

end Danmaku
