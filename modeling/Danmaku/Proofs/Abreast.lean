import Danmaku.Proofs.Facing
import Danmaku.Proofs.LoopText

/-! A player of a text with a counted loop and a course through the unrolled text, abreast of each other: they
are at the same place, counted with the iterations that are done, they have the same loops open, the unrolled
one apart, and they keep the same draws. An instruction that is neither the begin nor the end of the loop does
the same on both sides and leaves them abreast, so a round does. -/

namespace Danmaku

namespace LoopText

variable {l : LoopText} {i : Instruction} {j s : Nat}

/-- The instructions around the loop face each other. What is kept of the count is the count. -/
def facing (l : LoopText) : Facing where
  text := l.looped
  other := l.unrolled
  id := rfl
  head := l.head
  Faces s := s ≠ l.head ∧ ¬l.Inside s
  across := l.across 0
  Counts value := ofPayload? value = some l.count
  ne_head _ here := here.1
  injective _ _ here here' same := across_inj here.1 here.2 here'.1 here'.2 same

/-- A player of the text with the loop, which has done so many iterations, and a course through the unrolled
text. -/
abbrev Abreast (l : LoopText) (j : Nat) : Player → Course → Prop :=
  l.facing.Alongside (l.across j) fun endless remaining =>
    j < l.turns ∧ endless = false ∧ remaining = (l.turns - j : Nat)

/-- Frames of loops that begin before the unrolled one face each other whatever the iteration. -/
theorem forall₂_of_before {fs fs' : List Frame} (same : List.Forall₂ (Frame.Counterpart (l.across j)) fs fs')
    (before : ∀ f ∈ fs, f.start ≤ l.head) (k : Nat) : List.Forall₂ (Frame.Counterpart (l.across k)) fs fs' := by
  refine ((List.forall₂_and_left fs fs').2 ⟨before, same⟩).imp fun f f' ⟨hle, hf⟩ => ?_
  refine ⟨?_, hf.remaining, hf.endless, hf.waited⟩
  rw [hf.start, across_before hle, across_before hle]

variable {p : Player} {t u : Turn} {c : Course} {globals : Blackboard}

theorem startStatus (h : l.Unrollable) : Player.startStatus l.unrolled = Player.startStatus l.looped := by
  have nonempty : l.looped.isEmpty = false := by
    rw [Program.isEmpty, LoopText.looped]
    cases l.pre <;> rfl
  rw [Player.startStatus, Player.startStatus, h.nonempty, nonempty]

namespace Abreast

theorem looped (ha : l.Abreast j p c) : p.program = l.looped := ha.whole

theorem unrolled (ha : l.Abreast j p c) : c.program = l.unrolled := ha.differs

/-- The loop that is apart is open for the iterations that are left. -/
theorem turning (ha : l.Abreast j p c) {f : Frame} (hf : f ∈ p.frames) (own : f.start = l.head + 1) :
    j < l.turns ∧ f.endless = false ∧ f.remaining = (l.turns - j : Nat) := ha.own f hf own

theorem nests (ha : l.Abreast j p c) (nested : p.Nested) : l.looped.Nests p.pointer p.frames :=
  ha.looped ▸ nested

/-- The own loop is open only inside. -/
theorem inside_of_own (ha : l.Abreast j p c) (h : l.Unrollable) (nested : p.Nested) {f : Frame}
    (hf : f ∈ p.frames) (own : f.start = l.head + 1) : l.Inside p.pointer := by
  have nests := ha.nests nested
  have hmem := nests.suffix.subset (List.mem_map_of_mem hf)
  rw [own, Nat.add_sub_cancel] at hmem
  exact (h.mem_openLoops_iff nests.position_le).1 hmem

theorem lt_turns (ha : l.Abreast j p c) (h : l.Unrollable) (nested : p.Nested)
    (inside : l.Inside p.pointer) : j < l.turns := by
  have nests := ha.nests nested
  have hmem := (h.mem_openLoops_iff nests.position_le).2 inside
  rw [← nests.eq_of_lt (Nat.lt_of_le_of_lt inside.2 foot_lt_length)] at hmem
  obtain ⟨f, hf, hstart⟩ := List.mem_map.1 hmem
  have hpos := nests.start_pos f hf
  exact (ha.turning hf (by omega)).1

/-- Inside, only the end of the loop closes it. -/
theorem top_ne_own (ha : l.Abreast j p c) (h : l.Unrollable) (nested : p.Nested)
    (here : p.program.instructions[p.pointer]? = some i) (closes : i.closes = true)
    (last : p.pointer ≠ l.foot) {f : Frame} {fs : List Frame} (opened : p.frames = f :: fs) :
    f.start ≠ l.head + 1 := by
  intro own
  have inside := ha.inside_of_own h nested (opened ▸ List.mem_cons_self) own
  have nests := ha.nests nested
  rw [opened] at nests
  rw [ha.looped] at here
  have hpos : p.pointer + 1 ≤ l.looped.length := (List.getElem?_eq_some_iff.1 here).1
  have hafter : l.head ∈ l.looped.openLoops (p.pointer + 1) :=
    (h.mem_openLoops_iff hpos).2 ⟨Nat.lt_succ_of_lt inside.1, Nat.lt_of_le_of_ne inside.2 last⟩
  have hpair := Program.pairwise_openLoops nests.position_le
  rw [Program.openLoops_succ_of_closes here closes, ← nests.eq_of_lt hpos] at hafter
  rw [← nests.eq_of_lt hpos, List.map_cons, own, Nat.add_sub_cancel] at hpair
  exact Nat.lt_irrefl _ (List.rel_of_pairwise_cons hpair hafter)

/-- What an instruction asks for is answered alike. -/
theorem faithful (ha : l.Abreast j t.player c) (h : l.Unrollable)
    (here : t.player.program.instructions[t.player.pointer]? = some i) (begin : t.player.pointer ≠ l.head)
    (last : t.player.pointer ≠ l.foot) {q : Query} (hq : q ∈ i.queries) : Faithful l.facing.Agree t c q := by
  rw [ha.looped] at here
  by_cases inside : l.Inside t.player.pointer
  · have always := h.within i (mem_body_of_inside last inside here) q hq
    constructor
    · intro k k' _
      rw [always, DrawCache.reusable?_always, DrawCache.reusable?_always]
    · intro k k' value agree
      rw [always]
      exact agree
  · have free := h.around i (mem_around_of_not_inside begin inside here) q hq
    exact ha.faithful_of_faces ⟨begin, inside⟩ (across_outside inside j 0) free

theorem relation (h : l.Unrollable) (j : Nat) : Course.Kept (l.Abreast j) :=
  Facing.Alongside.relation l.facing _ (across_before (Nat.zero_le _)) (startStatus h)

/-- An instruction that is neither the begin nor the end of the unrolled loop does the same on both sides. -/
theorem execute (ha : l.Abreast j t.player c) (h : l.Unrollable) (nested : t.player.Nested)
    (here : t.player.program.instructions[t.player.pointer]? = some i) (enabled : i.enabled = true)
    (begin : t.player.pointer ≠ l.head) (last : t.player.pointer ≠ l.foot) (globals : Blackboard) :
    ∃ c', (t.onto c).execute globals i =
        ((t.execute globals i).1.map (l.across j), (t.execute globals i).2.onto c') ∧
      l.Abreast j (t.execute globals i).2.player c' := by
  refine Facing.Alongside.execute ha (relation h j) (fun q hq => ha.faithful h here begin last hq)
    (fun iterations endless action => ⟨begin, across_succ begin last, ?_⟩) (fun action f fs opened => ?_) globals
  · rw [ha.looped] at here
    refine h.afterLoop_across begin (ha.lt_turns h nested) here ?_
    rw [Instruction.opens_eq, enabled, action]
    rfl
  · refine ha.top_ne_own h nested here ?_ last opened
    rw [Instruction.closes_eq, enabled, action]
    rfl

/-- Both go where an instruction says. -/
theorem follow (hu : l.Abreast j u.player c) (flow : Flow)
    (place : u.player.pointer ≠ l.head ∧ u.player.pointer ≠ l.foot ∨ flow = .halt) :
    l.Abreast j (u.follow flow).turn.player (c.follow (flow.map (l.across j))) := by
  have next (begin : u.player.pointer ≠ l.head) (last : u.player.pointer ≠ l.foot) :
      l.Abreast j u.advance.player { c with pointer := c.pointer + 1 } := by
    refine ⟨hu.whole, hu.differs, ?_, hu.frames, hu.own, hu.kept⟩
    rw [hu.pointer, ← across_succ begin last]
    rfl
  have jump (target : Nat) : l.Abreast j (u.moveTo target).player { c with pointer := l.across j target } :=
    ⟨hu.whole, hu.differs, rfl, hu.frames, hu.own, hu.kept⟩
  cases flow with
  | next => exact next (place.resolve_right nofun).1 (place.resolve_right nofun).2
  | suspend => exact next (place.resolve_right nofun).1 (place.resolve_right nofun).2
  | yield => exact next (place.resolve_right nofun).1 (place.resolve_right nofun).2
  | jump target => exact jump target
  | yieldAt target => exact jump target
  | halt => exact hu
  | finish => exact { hu with }

/-- At the end of the list, both close the same loop, or are done. -/
theorem round_past (ha : l.Abreast j t.player c) (h : l.Unrollable) (nested : t.player.Nested)
    (past : t.player.program.instructions[t.player.pointer]? = none)
    (past' : (t.onto c).player.program.instructions[(t.onto c).player.pointer]? = none)
    (globals : Blackboard) :
    ∃ c', (t.onto c).round globals = (t.round globals).onto c' ∧
      l.Abreast j (t.round globals).turn.player c' := by
  have outside : ¬l.Inside t.player.pointer := fun inside => by
    rw [ha.looped] at past
    have hlt := Nat.lt_of_lt_of_le foot_lt_length (List.getElem?_eq_none_iff.1 past)
    exact Nat.not_lt_of_le inside.2 hlt
  cases opened : t.player.frames with
  | nil =>
      have opened' : (t.onto c).player.frames = [] := ha.frames_eq_nil opened
      rw [Turn.round_of_done past opened, Turn.round_of_done past' opened']
      exact ⟨c, rfl, { ha with }⟩
  | cons f fs =>
      have ne : f.start ≠ l.head + 1 := fun own =>
        outside (ha.inside_of_own h nested (opened ▸ List.mem_cons_self) own)
      obtain ⟨f', fs', opened', -, rest⟩ := ha.exists_cons opened ne
      have opened' : (t.onto c).player.frames = f' :: fs' := opened'
      have id : (t.onto c).player.program.id = t.player.program.id := ha.program_id
      rw [Turn.round_of_unterminated past opened, Turn.round_of_unterminated past' opened', Turn.repair, id]
      exact ⟨{ c with frames := fs' }, rfl, rest⟩

/-- Away from the begin and the end of the loop, both do the same round. -/
theorem round (ha : l.Abreast j t.player c) (h : l.Unrollable) (nested : t.player.Nested)
    (begin : t.player.pointer ≠ l.head) (last : t.player.pointer ≠ l.foot) (globals : Blackboard) :
    ∃ c', (t.onto c).round globals = (t.round globals).onto c' ∧
      l.Abreast j (t.round globals).turn.player c' := by
  have facing : (t.onto c).player.program.instructions[(t.onto c).player.pointer]? =
      t.player.program.instructions[t.player.pointer]? := by
    change c.program.instructions[c.pointer]? = _
    rw [ha.unrolled, ha.pointer, ha.looped]
    exact instruction_across begin last (ha.lt_turns h nested)
  cases here : t.player.program.instructions[t.player.pointer]? with
  | none => exact ha.round_past h nested here (facing.trans here) globals
  | some i =>
      have here' := facing.trans here
      cases enabled : i.enabled with
      | false =>
          rw [Turn.round_of_disabled here enabled, Turn.round_of_disabled here' enabled]
          exact ⟨_, rfl, ha.follow .next (.inl ⟨begin, last⟩)⟩
      | true =>
          rw [Turn.round_of_enabled here enabled, Turn.round_of_enabled here' enabled]
          have counted : l.Abreast j t.count.player { c with executed := (t.onto c).count.report.executed } :=
            { ha with }
          obtain ⟨c', hexecute, hu⟩ := counted.execute h nested here enabled begin last globals
          have hexecute : (t.onto c).count.execute globals i = _ := hexecute
          rw [hexecute, Turn.follow_onto]
          refine ⟨_, rfl, hu.follow _ ?_⟩
          rcases (Turn.executed_execute t.count globals i).pointer with hp | hp
          · rw [hp]
            exact Or.inl ⟨begin, last⟩
          · exact Or.inr hp

end Abreast

end LoopText

end Danmaku
