import Danmaku.Proofs.Facing
import Danmaku.Proofs.Unended

/-! Beside a player of a program with a loop that has no end runs one of the program with the begin of that loop
disabled. They are at the same place, with the same other loops open and the same draws kept for every other
instruction. An instruction other than the begin does the same on both sides. The begin itself enters its loop, and
leaves nothing but what it keeps for itself. -/

namespace Danmaku

namespace Program

/-- An enabled begin without an end, whose loop is entered whatever comes: it is endless, with a count that is drawn
without a trace in the swarm, or it has a fixed count of iterations. No parameter is drawn again by the iterations of
a loop. -/
structure RunsOnce (program : Program) (k : Nat) (iterations : Param Int32) (endless : Bool) : Prop where
  begin : ∃ i, program.instructions[k]? = some i ∧ i.enabled = true ∧ i.action = .beginLoop iterations endless
  unended : program.Unended k
  turns : endless = true ∧ (∀ view s, (iterations.draw view .pattern s).2.swarm = s.swarm) ∨
    iterations.tree.root.mode = .fixed ∧ 0 < iterations.tree.root.default.toInt
  free : ∀ i ∈ program.instructions, ∀ q ∈ i.queries, ∀ rule, q.2.param.reroll ≠ .atLoops rule

end Program

/-- All instructions but the begin face each other. What is kept of a count that is fixed is the count. -/
def Program.facing (program : Program) (k : Nat) (iterations : Param Int32) : Facing where
  text := program
  other := program.disabledAt k
  id := rfl
  head := k
  Faces s := s ≠ k
  across s := s
  Counts value := iterations.tree.root.mode = .fixed → ofPayload? value = some iterations.tree.root.default
  ne_head _ other := other
  injective _ _ _ _ same := same

/-- A player of a program, and the course of one of the program with a begin disabled. -/
abbrev Beside (program : Program) (k : Nat) (iterations : Param Int32) : Player → Course → Prop :=
  (program.facing k iterations).Alongside id fun _ _ => True

variable {program : Program} {k s : Nat} {iterations : Param Int32} {endless : Bool} {p : Player} {t u : Turn}
  {c : Course} {i : Instruction} {globals : Blackboard}

namespace Beside

theorem whole (b : Beside program k iterations p c) : p.program = program := Facing.Alongside.whole b

theorem disabled (b : Beside program k iterations p c) : c.program = program.disabledAt k := b.differs

theorem pointer (b : Beside program k iterations p c) : c.pointer = p.pointer := Facing.Alongside.pointer b

theorem nests (b : Beside program k iterations p c) (nested : p.Nested) : program.Nests p.pointer p.frames :=
  b.whole ▸ nested

theorem startStatus_disabledAt (program : Program) (k : Nat) :
    Player.startStatus (program.disabledAt k) = Player.startStatus program := by
  rw [Player.startStatus, Player.startStatus, program.isEmpty_disabledAt]

theorem relation (program : Program) (k : Nat) (iterations : Param Int32) :
    Course.Kept (Beside program k iterations) :=
  Facing.Alongside.relation (program.facing k iterations) _ rfl (startStatus_disabledAt program k)

/-- No end closes the loop. -/
theorem start_ne (b : Beside program k iterations p c) (h : program.RunsOnce k iterations endless)
    (nested : p.Nested) (here : program.instructions[p.pointer]? = some i) (closes : i.closes = true) {f : Frame}
    {fs : List Frame} (opened : p.frames = f :: fs) : f.start ≠ k + 1 := by
  intro own
  have innermost := (b.nests nested).eq_of_lt (List.getElem?_eq_some_iff.1 here).1
  rw [opened, List.map_cons, own, Nat.add_sub_cancel] at innermost
  exact h.unended.head?_openLoops_ne here closes (by rw [← innermost]; rfl)

/-- An instruction other than the begin does the same on both sides. -/
theorem execute (b : Beside program k iterations t.player c) (h : program.RunsOnce k iterations endless)
    (nested : t.player.Nested) (here : program.instructions[t.player.pointer]? = some i)
    (enabled : i.enabled = true) (other : t.player.pointer ≠ k) (globals : Blackboard) :
    ∃ c', (t.onto c).execute globals i = ((t.execute globals i).1, (t.execute globals i).2.onto c') ∧
      Beside program k iterations (t.execute globals i).2.player c' := by
  have free := h.free i (List.mem_of_getElem? here)
  rw [← (t.execute globals i).1.map_id]
  refine Facing.Alongside.execute b (relation program k iterations)
    (fun q hq => b.faithful_of_faces other rfl (free q hq)) (fun count forever action => ⟨other, rfl, ?_⟩)
    (fun action f fs opened => ?_) globals
  · exact h.unended.afterLoop_disabledAt other here
  · refine b.start_ne h nested here ?_ opened
    rw [Instruction.closes_eq, enabled, action]
    rfl

/-- At the begin, the count is asked for, which leaves the swarm as it is. -/
theorem value_begin (b : Beside program k iterations t.player c) (h : program.RunsOnce k iterations endless)
    (begin : t.player.pointer = k) (globals : Blackboard) :
    (endless = true ∨ 0 < (t.value globals iterations .main).1.toInt) ∧
      (t.value globals iterations .main).2.swarm = t.swarm ∧
      (program.facing k iterations).Agree (t.value globals iterations .main).2.player.cache c.cache := by
  by_cases fixed : iterations.tree.root.mode = .fixed
  · obtain ⟨cache, hvalue, kept⟩ := b.value_head begin fixed (fun _ => ⟨(· fixed), fun h _ => h⟩) globals
    rw [hvalue]
    exact ⟨h.turns.imp And.left And.right, rfl, kept⟩
  · obtain ⟨forever, quiet⟩ := h.turns.resolve_right fun turns => fixed turns.1
    cases hr : t.player.cache.reusable? Int32 (t.player.pointer, .main) iterations.reroll t.player.frames with
    | some n =>
        obtain ⟨-, player, swarm⟩ := Turn.value_of_reusable globals hr
        exact ⟨.inl forever, swarm, by rw [player]; exact b.kept⟩
    | none =>
        simp only [Turn.value, Turn.drawing, Ledger.draw, hr]
        refine ⟨.inl forever, quiet _ _, ?_⟩
        rw [begin]
        exact b.kept.keep_count _ _ fun mode => absurd mode fixed

end Beside

end Danmaku
