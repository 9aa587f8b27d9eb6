import Danmaku.Proofs.Brackets
import Danmaku.Proofs.Restarts

/-! Disabled instructions count for nothing. A condensed program is one without them. Every position of a program
has its place in the condensed one, past the enabled instructions that are before it, so an enabled instruction
keeps its neighbours and a loop its end. A player and one of the condensed program stay at the same place: where
the first passes a disabled instruction by, the other one need not move. -/

namespace Danmaku

namespace Program

variable {p : Program} {i : Instruction} {s s' : Nat}

/-- Without its disabled instructions. -/
def condensed (p : Program) : Program := { p with instructions := p.instructions.filter (·.enabled) }

/-- Where a position comes to in the condensed program. -/
def place (p : Program) (s : Nat) : Nat := (p.instructions.take s).countP (·.enabled)

/-- A position of an enabled instruction. -/
def Live (p : Program) (s : Nat) : Prop := ∃ i, p.instructions[s]? = some i ∧ i.enabled = true

theorem place_add (p : Program) (s n : Nat) :
    p.place (s + n) = p.place s + ((p.instructions.drop s).take n).countP (·.enabled) := by
  rw [place, List.take_add, List.countP_append, place]

theorem place_mono (h : s ≤ s') : p.place s ≤ p.place s' := by
  obtain ⟨n, rfl⟩ := Nat.exists_eq_add_of_le h
  rw [place_add]
  exact Nat.le_add_right _ _

theorem place_succ_of_enabled (here : p.instructions[s]? = some i) (enabled : i.enabled = true) :
    p.place (s + 1) = p.place s + 1 := by
  rw [place, List.take_add_one, here, List.countP_append, place]
  simp [enabled]

theorem place_succ_of_disabled (here : p.instructions[s]? = some i) (disabled : i.enabled = false) :
    p.place (s + 1) = p.place s := by
  rw [place, List.take_add_one, here, List.countP_append, place]
  simp [disabled]

theorem Live.place_succ (h : p.Live s) : p.place (s + 1) = p.place s + 1 := by
  obtain ⟨i, here, enabled⟩ := h
  exact place_succ_of_enabled here enabled

theorem Live.place_lt (h : p.Live s) (hlt : s < s') : p.place s < p.place s' :=
  calc p.place s < p.place (s + 1) := by rw [h.place_succ]; exact Nat.lt_succ_self _
    _ ≤ p.place s' := place_mono hlt

/-- No two enabled instructions come to the same place. -/
theorem Live.place_inj (h : p.Live s) (h' : p.Live s') (same : p.place s = p.place s') : s = s' := by
  rcases Nat.lt_trichotomy s s' with hlt | heq | hlt
  · exact absurd same (Nat.ne_of_lt (h.place_lt hlt))
  · exact heq
  · exact absurd same.symm (Nat.ne_of_lt (h'.place_lt hlt))

/-- What is left from a place on is what is left from the position on, without the disabled. -/
theorem drop_condensed (p : Program) (s : Nat) :
    p.condensed.instructions.drop (p.place s) = (p.instructions.drop s).filter (·.enabled) := by
  have split : p.condensed.instructions =
      (p.instructions.take s).filter (·.enabled) ++ (p.instructions.drop s).filter (·.enabled) := by
    rw [← List.filter_append, List.take_append_drop]
    rfl
  rw [split, place, List.countP_eq_length_filter, List.drop_left]

theorem condensed_at_place (here : p.instructions[s]? = some i) (enabled : i.enabled = true) :
    p.condensed.instructions[p.place s]? = some i := by
  obtain ⟨hlt, rfl⟩ := List.getElem?_eq_some_iff.1 here
  rw [← List.head?_drop, drop_condensed, List.drop_eq_getElem_cons hlt, List.filter_cons_of_pos enabled]
  rfl

theorem condensed_past (past : p.instructions[s]? = none) : p.condensed.instructions[p.place s]? = none := by
  rw [← List.head?_drop, drop_condensed, List.drop_eq_nil_iff.2 (List.getElem?_eq_none_iff.1 past)]
  rfl

/-- A body is as long as it has enabled instructions when it has no others. -/
theorem bodyLength_filter (depth : Nat) (is : List Instruction) :
    bodyLength depth (is.filter (·.enabled)) = (is.take (bodyLength depth is)).countP (·.enabled) := by
  induction is generalizing depth with
  | nil => rfl
  | cons i is ih =>
      cases enabled : i.enabled with
      | false =>
          have opens : i.opens = false := by rw [Instruction.opens, enabled, Bool.false_and]
          have closes : i.closes = false := by rw [Instruction.closes, enabled, Bool.false_and]
          simp [bodyLength_cons, opens, closes, enabled, ih]
      | true =>
          rw [List.filter_cons_of_pos enabled, bodyLength_cons, bodyLength_cons]
          split
          · simp [enabled, ih]
          · split
            · cases depth <;> simp [enabled, ih]
            · simp [enabled, ih]

/-- Past a loop that is not entered, both programs go on at the same place. -/
theorem afterLoop_condensed (here : p.instructions[s]? = some i) (enabled : i.enabled = true) :
    p.condensed.afterLoop (p.place s) = p.place (p.afterLoop s) := by
  rw [afterLoop_eq here, afterLoop_eq (condensed_at_place here enabled), ← place_succ_of_enabled here enabled,
    drop_condensed, bodyLength_filter, place_add _ (s + 1)]

theorem startStatus_condensed (h : ∃ i ∈ p.instructions, i.enabled = true) :
    Player.startStatus p.condensed = Player.startStatus p := by
  obtain ⟨i, hi, enabled⟩ := h
  have kept : i ∈ p.condensed.instructions := List.mem_filter.2 ⟨hi, enabled⟩
  rw [Player.startStatus, Player.startStatus, isEmpty, isEmpty, List.isEmpty_eq_false_iff.2 (List.ne_nil_of_mem hi),
    List.isEmpty_eq_false_iff.2 (List.ne_nil_of_mem kept)]

end Program

/-- The frame of the loop with its start elsewhere. -/
def Frame.moved (f : Nat → Nat) (frame : Frame) : Frame := { frame with start := f frame.start }

namespace DrawCache

variable {f : Nat → Nat} {c : DrawCache} {s : Nat} {channel : Channel}

/-- The key of an instruction elsewhere. -/
def movedKey (f : Nat → Nat) (key : Nat × Channel) : Nat × Channel := (f key.1, key.2)

/-- The draws kept for instructions elsewhere. -/
def moved (f : Nat → Nat) (c : DrawCache) : DrawCache := ⟨c.entries.map fun e => (movedKey f e.1, e.2)⟩

/-- No draw is kept at another position that comes to the same. -/
def Apart (f : Nat → Nat) (s : Nat) (es : List ((Nat × Channel) × KeptDraw)) : Prop :=
  ∀ e ∈ es, f e.1.1 = f s → e.1.1 = s

theorem Apart.eq_of_moved (apart : Apart f s c.entries) :
    ∀ e ∈ c.entries, movedKey f e.1 = movedKey f (s, channel) → e.1 = (s, channel) := by
  rintro ⟨⟨k, other⟩, kept⟩ he same
  obtain ⟨hs, rfl⟩ := Prod.mk.inj same
  exact congrArg (·, other) (apart _ he hs)

theorem find?_moved (apart : Apart f s c.entries) : (c.moved f).find? (f s, channel) = c.find? (s, channel) :=
  (Entries.lookup_map (movedKey f) id (s, channel) apart.eq_of_moved).trans Option.map_id_apply

theorem put_moved (kept : KeptDraw) (apart : Apart f s c.entries) :
    Entries.put (f s, channel) kept (c.moved f).entries =
      (moved f ⟨Entries.put (s, channel) kept c.entries⟩).entries :=
  Entries.put_map (movedKey f) id (s, channel) apart.eq_of_moved kept

theorem key_of_mem_keep {key : Nat × Channel} {reroll : Reroll} {frames : List Frame} {value : Payload}
    {e : (Nat × Channel) × KeptDraw} (h : e ∈ (c.keep key reroll frames value).entries) :
    e.1 = key ∨ e ∈ c.entries := by
  cases reroll with
  | always => exact Or.inr h
  | once => exact (Entries.mem_put h).imp_left (congrArg Prod.fst)
  | atLoops rule => exact (Entries.mem_put h).imp_left (congrArg Prod.fst)

theorem frameAt?_moved (f : Nat → Nat) (frames : List Frame) (depth : UInt32) :
    frameAt? (frames.map (·.moved f)) depth = (frameAt? frames depth).map (·.moved f) :=
  List.getElem?_map ..

/-- A draw depends on the loops by their stamps and by the iterations that they finished. -/
theorem needsDraw_moved (apart : Apart f s c.entries) (reroll : Reroll) (frames : List Frame) :
    (c.moved f).needsDraw (f s, channel) reroll (frames.map (·.moved f)) =
      c.needsDraw (s, channel) reroll frames := by
  unfold needsDraw
  rw [find?_moved apart]
  cases c.find? (s, channel) with
  | none => rfl
  | some kept =>
      cases reroll with
      | atLoops rule =>
          simp only [frameAt?_moved]
          cases frameAt? frames rule.depth <;> rfl
      | _ => rfl

theorem reusable?_moved {α : Type} [Blendable α] (apart : Apart f s c.entries) (reroll : Reroll)
    (frames : List Frame) :
    (c.moved f).reusable? α (f s, channel) reroll (frames.map (·.moved f)) =
      c.reusable? α (s, channel) reroll frames := by
  unfold reusable?
  rw [needsDraw_moved apart, find?_moved apart]

theorem keep_moved (apart : Apart f s c.entries) (reroll : Reroll) (frames : List Frame) (value : Payload) :
    (c.moved f).keep (f s, channel) reroll (frames.map (·.moved f)) value =
      (c.keep (s, channel) reroll frames value).moved f := by
  cases reroll with
  | always => rfl
  | once => exact congrArg DrawCache.mk (put_moved ⟨value, none⟩ apart)
  | atLoops rule =>
      have stamp : (frameAt? (frames.map (·.moved f)) rule.depth).map (·.stamp) =
          (frameAt? frames rule.depth).map (·.stamp) := by
        rw [frameAt?_moved, Option.map_map]
        rfl
      rw [keep, stamp]
      exact congrArg DrawCache.mk (put_moved ⟨value, (frameAt? frames rule.depth).map Frame.stamp⟩ apart)

/-- Kept for enabled instructions alone. -/
def Tidy (program : Program) (c : DrawCache) : Prop := ∀ e ∈ c.entries, program.Live e.1.1

theorem tidy_empty (program : Program) : Tidy program {} := fun _ he => absurd he List.not_mem_nil

theorem Tidy.apart {program : Program} (h : c.Tidy program) (live : program.Live s) :
    Apart program.place s c.entries := fun e he same => (h e he).place_inj live same

theorem Tidy.keep {program : Program} (h : c.Tidy program) (live : program.Live s) (reroll : Reroll)
    (frames : List Frame) (value : Payload) : (c.keep (s, channel) reroll frames value).Tidy program := by
  intro e he
  rcases key_of_mem_keep he with heq | he
  · rw [heq]
    exact live
  · exact h e he

/-- The draws that the condensed program keeps for the same instructions. -/
def Condenses (program : Program) (c c' : DrawCache) : Prop := c' = c.moved program.place ∧ c.Tidy program

end DrawCache

namespace Player

/-- The player at its place in the condensed program. -/
def condensed (p : Player) : Player :=
  { p with
    program := p.program.condensed
    pointer := p.program.place p.pointer
    frames := p.frames.map (·.moved p.program.place)
    cache := p.cache.moved p.program.place }

def Tidy (p : Player) : Prop := p.cache.Tidy p.program

theorem reboot_condensed {p : Player} (h : ∃ i ∈ p.program.instructions, i.enabled = true) :
    p.condensed.reboot = p.reboot.condensed := by
  have status := Program.startStatus_condensed h
  simp only [reboot, condensed, status]
  rfl

end Player

namespace Turn

variable {t u : Turn} {i : Instruction} {flow : Flow} {globals : Blackboard}

def condensed (t : Turn) : Turn := { t with player := t.player.condensed }

/-- The course of the player in the condensed program. -/
def courseCondensed (t : Turn) : Course where
  program := t.player.program.condensed
  pointer := t.player.program.place t.player.pointer
  frames := t.player.frames.map (·.moved t.player.program.place)
  cache := t.player.cache.moved t.player.program.place
  lastStamp := t.player.lastStamp
  executed := t.report.executed

theorem condensed_eq_onto (t : Turn) : t.condensed = t.onto t.courseCondensed := rfl

/-- An enabled instruction is at the pointer. -/
structure Ready (t : Turn) (i : Instruction) : Prop where
  here : t.player.program.instructions[t.player.pointer]? = some i
  enabled : i.enabled = true
  tidy : t.player.Tidy

namespace Ready

theorem live (h : t.Ready i) : t.player.program.Live t.player.pointer := ⟨i, h.here, h.enabled⟩

theorem place_succ (h : t.Ready i) :
    t.player.program.place (t.player.pointer + 1) = t.player.program.place t.player.pointer + 1 :=
  Program.place_succ_of_enabled h.here h.enabled

theorem faithful (h : t.Ready i) (q : Query) :
    Faithful (DrawCache.Condenses t.player.program) t t.courseCondensed q where
  reusable := by
    rintro k _ ⟨rfl, tidy⟩
    exact (DrawCache.reusable?_moved (tidy.apart h.live) _ _).symm
  keep := by
    rintro k _ value ⟨rfl, tidy⟩
    exact ⟨DrawCache.keep_moved (tidy.apart h.live) _ _ _, tidy.keep h.live _ _ _⟩

theorem condenses (h : t.Ready i) :
    DrawCache.Condenses t.player.program t.player.cache t.courseCondensed.cache := ⟨rfl, h.tidy⟩

/-- What leaves the course as it was does the same in the condensed program. -/
theorem of_alike (same : Undisturbed t u) (executed : u.report.executed = t.report.executed) {u' : Turn}
    (alike : Alike (DrawCache.Condenses t.player.program) t.courseCondensed u u') :
    u' = u.condensed ∧ u.player.Tidy := by
  obtain ⟨_, rfl, rfl, tidy⟩ := alike
  constructor
  · rw [condensed_eq_onto]
    simp only [courseCondensed, same.program, same.pointer, same.frames, same.lastStamp, executed]
  · rwa [Player.Tidy, same.program]

theorem act (h : t.Ready i) (globals : Blackboard) :
    t.condensed.act globals i.action i.timing = (t.act globals i.action i.timing).condensed ∧
      (t.act globals i.action i.timing).player.Tidy :=
  of_alike (undisturbed_act ..) (executed_act ..)
    (alike_act globals i (c := t.courseCondensed) rfl h.condenses fun q _ => h.faithful q)

theorem value {α : Type} [Blendable α] [LawfulBlendable α] (h : t.Ready i) (globals : Blackboard)
    (p : Param α) (channel : Channel) :
    t.condensed.value globals p channel =
        ((t.value globals p channel).1, (t.value globals p channel).2.condensed) ∧
      (t.value globals p channel).2.player.Tidy := by
  obtain ⟨hvalue, alike⟩ :=
    (Alike.refl (c := t.courseCondensed) h.condenses).value globals (h.faithful (channel, ⟨p⟩))
  obtain ⟨hturn, tidy⟩ := of_alike (undisturbed_value t globals p channel) rfl alike
  exact ⟨Prod.ext hvalue hturn, tidy⟩

theorem wait (h : t.Ready i) (globals : Blackboard) (seconds : Param Single) :
    t.condensed.wait globals seconds =
        ((t.wait globals seconds).1.map t.player.program.place, (t.wait globals seconds).2.condensed) ∧
      (t.wait globals seconds).2.player.Tidy := by
  obtain ⟨value, tidy⟩ := h.value globals seconds .main
  simp only [Turn.wait, value]
  split
  · refine ⟨?_, tidy⟩
    simp [condensed, Player.condensed, Frame.moved, Function.comp_def, Flow.map]
  · exact ⟨rfl, tidy⟩

theorem beginLoop (h : t.Ready i) (globals : Blackboard) (iterations : Param Int32) (endless : Bool) :
    t.condensed.beginLoop globals iterations endless =
        ((t.beginLoop globals iterations endless).1.map t.player.program.place,
          (t.beginLoop globals iterations endless).2.condensed) ∧
      (t.beginLoop globals iterations endless).2.player.Tidy := by
  obtain ⟨value, tidy⟩ := h.value globals iterations .main
  simp only [Turn.beginLoop, value]
  split
  · refine ⟨congrArg (Flow.jump · , _) ?_, tidy⟩
    exact Program.afterLoop_condensed h.here h.enabled
  · refine ⟨?_, tidy⟩
    have start : (t.value globals iterations .main).2.condensed.player.pointer + 1 =
        t.player.program.place ((t.value globals iterations .main).2.player.pointer + 1) := h.place_succ.symm
    rw [start]
    rfl

end Ready

theorem again_condensed (t : Turn) (frame : Frame) (frames : List Frame) (remaining : Int) :
    t.condensed.again (frame.moved t.player.program.place) (frames.map (·.moved t.player.program.place))
      remaining = (t.again frame frames remaining).condensed := rfl

theorem tidy_endLoop (tidy : t.player.Tidy) : t.endLoop.2.player.Tidy := by
  unfold endLoop
  split
  · exact tidy
  · split
    · exact tidy
    · split <;> exact tidy

/-- The end of a loop does not look at its position. -/
theorem endLoop_condensed (t : Turn) :
    t.condensed.endLoop = (t.endLoop.1.map t.player.program.place, t.endLoop.2.condensed) := by
  cases opened : t.player.frames with
  | nil =>
      have opened' : t.condensed.player.frames = [] := congrArg (List.map _) opened
      simp only [endLoop, opened, opened']
      rfl
  | cons f fs =>
      have opened' : t.condensed.player.frames =
          f.moved t.player.program.place :: fs.map (·.moved t.player.program.place) :=
        congrArg (List.map _) opened
      simp only [endLoop, opened, opened', again_condensed]
      change (if f.endless = true then _ else if f.remaining ≤ 1 then _ else _) = _
      split
      · cases hw : f.waited <;> simp [Frame.moved, hw, Flow.map]
      · split <;> rfl

theorem Ready.commandSelf (h : t.Ready i) (command : Command) :
    t.condensed.commandSelf command =
        ((t.commandSelf command).1.map t.player.program.place, (t.commandSelf command).2.condensed) ∧
      (t.commandSelf command).2.player.Tidy := by
  cases command with
  | play => exact ⟨rfl, h.tidy⟩
  | pause => exact ⟨rfl, h.tidy⟩
  | stop => exact ⟨rfl, DrawCache.tidy_empty _⟩
  | reboot =>
      have reboot := Player.reboot_condensed ⟨i, List.mem_of_getElem? h.here, h.enabled⟩
      refine ⟨?_, DrawCache.tidy_empty _⟩
      simp only [Turn.commandSelf, condensed, reboot]
      rfl

theorem Ready.execute (h : t.Ready i) (globals : Blackboard) :
    t.condensed.execute globals i =
        ((t.execute globals i).1.map t.player.program.place, (t.execute globals i).2.condensed) ∧
      (t.execute globals i).2.player.Tidy := by
  have act := h.act globals
  rw [execute_eq_perform, execute_eq_perform]
  unfold perform
  split
  · exact h.wait globals _
  · exact h.beginLoop globals _ _
  · exact ⟨endLoop_condensed t, tidy_endLoop h.tidy⟩
  · exact ⟨rfl, h.tidy⟩
  · exact h.commandSelf _
  · exact ⟨by rw [act.1]; rfl, act.2⟩

theorem advance_condensed (here : t.player.program.instructions[t.player.pointer]? = some i)
    (disabled : i.enabled = false) : t.advance.condensed = t.condensed := by
  have place := Program.place_succ_of_disabled here disabled
  simp only [condensed, Player.condensed, advance, moveTo, place]

end Turn

def Round.condensed : Round → Round
  | more t => more t.condensed
  | last t => last t.condensed

namespace Turn

variable {t u : Turn} {i : Instruction} {flow : Flow} {globals : Blackboard}

theorem follow_condensed (live : u.player.program.Live u.player.pointer ∨ flow = .halt) :
    u.condensed.follow (flow.map u.player.program.place) = (u.follow flow).condensed := by
  have next (h : flow ≠ .halt) :
      u.player.program.place u.player.pointer + 1 = u.player.program.place (u.player.pointer + 1) :=
    (live.resolve_right h).place_succ.symm
  cases flow with
  | next => exact congrArg (fun s => Round.more (u.condensed.moveTo s)) (next nofun)
  | suspend => exact congrArg (fun s => Round.last (u.condensed.moveTo s)) (next nofun)
  | yield => exact congrArg (fun s => Round.last (u.condensed.moveTo s).markYield) (next nofun)
  | _ => rfl

theorem program_follow (u : Turn) (flow : Flow) : (u.follow flow).turn.player.program = u.player.program := by
  cases flow <;> rfl

/-- A round does the same in the condensed program. Where it passes a disabled instruction by, nothing is to be
done there. -/
theorem round_condensed (tidy : t.player.Tidy) (globals : Blackboard) :
    (t.round globals).turn.player.Tidy ∧
      (t.condensed.round globals = (t.round globals).condensed ∨
        ∃ u, t.round globals = .more u ∧ u.condensed = t.condensed) := by
  cases here : t.player.program.instructions[t.player.pointer]? with
  | none =>
      have here' : t.condensed.player.program.instructions[t.condensed.player.pointer]? = none :=
        Program.condensed_past here
      cases opened : t.player.frames with
      | nil =>
          have opened' : t.condensed.player.frames = [] := congrArg (List.map _) opened
          rw [round_of_done here opened, round_of_done here' opened']
          exact ⟨tidy, Or.inl rfl⟩
      | cons f fs =>
          have opened' : t.condensed.player.frames =
              f.moved t.player.program.place :: fs.map (·.moved t.player.program.place) :=
            congrArg (List.map _) opened
          rw [round_of_unterminated here opened, round_of_unterminated here' opened']
          exact ⟨tidy, Or.inl rfl⟩
  | some i =>
      cases enabled : i.enabled with
      | false =>
          rw [round_of_disabled here enabled]
          exact ⟨tidy, Or.inr ⟨t.advance, rfl, advance_condensed here enabled⟩⟩
      | true =>
          have here' : t.condensed.player.program.instructions[t.condensed.player.pointer]? = some i :=
            Program.condensed_at_place here enabled
          have ready : t.count.Ready i := ⟨here, enabled, tidy⟩
          obtain ⟨hexecute, tidy⟩ := ready.execute globals
          have executed := executed_execute t.count globals i
          have program : (t.count.execute globals i).2.player.program = t.player.program :=
            (program_follow _ _).symm.trans executed.pattern_turn.program
          rw [round_of_enabled here enabled, round_of_enabled here' enabled,
            show t.condensed.count = t.count.condensed from rfl, hexecute]
          refine ⟨?_, Or.inl ?_⟩
          · rwa [Player.Tidy, program_follow, cache_follow]
          · have live : (t.count.execute globals i).2.player.program.Live
                (t.count.execute globals i).2.player.pointer ∨ (t.count.execute globals i).1 = .halt := by
              rcases executed.pointer with pointer | halt
              · rw [program, pointer]
                exact Or.inl ready.live
              · exact Or.inr halt
            have followed := follow_condensed live
            rwa [program] at followed

theorem run_condensed (t : Turn) (tidy : t.player.Tidy) (globals : Blackboard) :
    t.condensed.run globals = (t.run globals).condensed ∧ (t.run globals).player.Tidy := by
  obtain ⟨kept, same⟩ := round_condensed tidy globals
  rw [run_eq_round globals t]
  cases hr : t.round globals with
  | more u =>
      rw [hr] at kept same
      -- The rank is that of the player that passes disabled instructions by: the other one may not move.
      obtain ⟨run, kept⟩ := run_condensed u kept globals
      rcases same with same | ⟨_, hmore, unmoved⟩
      · rw [run_eq_round, same]
        exact ⟨run, kept⟩
      · obtain rfl := Round.more.inj hmore
        rw [← unmoved]
        exact ⟨run, kept⟩
  | last u =>
      rw [hr] at kept same
      rcases same with same | ⟨_, hmore, _⟩
      · rw [run_eq_round, same]
        exact ⟨rfl, kept⟩
      · cases hmore
termination_by t.player.rank
decreasing_by exact rank_lt_of_round hr

end Turn

namespace Player

variable {p : Player}

theorem update_condensed (tidy : p.Tidy) (dt : Single) (globals : Blackboard) (swarm : Swarm) :
    p.condensed.update dt globals swarm = (p.update dt globals swarm).condensed ∧
      (p.update dt globals swarm).player.Tidy := by
  by_cases runs : p.Runs dt
  · have runs' : p.condensed.Runs dt := runs
    rw [update_of_runs runs, update_of_runs runs']
    exact (p.begin dt swarm).run_condensed tidy globals
  · have runs' : ¬p.condensed.Runs dt := runs
    rw [update_of_not_runs runs, update_of_not_runs runs']
    change (if p.status = .playing then _ else _) = _ ∧ _
    split <;> exact ⟨rfl, tidy⟩

theorem command_condensed (h : ∃ i ∈ p.program.instructions, i.enabled = true) (tidy : p.Tidy)
    (command : Command) : p.condensed.command command = (p.command command).condensed ∧
      (p.command command).Tidy := by
  cases command with
  | play =>
      change p.condensed.play = p.play.condensed ∧ p.play.Tidy
      unfold play
      rw [show p.condensed.status = p.status from rfl, reboot_condensed h]
      split
      · exact ⟨rfl, tidy⟩
      · exact ⟨rfl, tidy⟩
      · exact ⟨rfl, DrawCache.tidy_empty _⟩
      · exact ⟨rfl, DrawCache.tidy_empty _⟩
  | pause =>
      change p.condensed.pause = p.pause.condensed ∧ p.pause.Tidy
      unfold pause
      rw [show p.condensed.status = p.status from rfl]
      split <;> exact ⟨rfl, tidy⟩
  | stop => exact ⟨rfl, DrawCache.tidy_empty _⟩
  | reboot => exact ⟨reboot_condensed h, DrawCache.tidy_empty _⟩

theorem call_condensed (h : ∃ i ∈ p.program.instructions, i.enabled = true) (tidy : p.Tidy) (c : Call) :
    p.condensed.call c = (p.call c).condensed ∧ (p.call c).Tidy := by
  cases c with
  | update dt globals swarm =>
      obtain ⟨same, tidy⟩ := update_condensed tidy dt globals swarm
      exact ⟨congrArg Turn.player same, tidy⟩
  | command command => exact command_condensed h tidy command

theorem after_condensed (h : ∃ i ∈ p.program.instructions, i.enabled = true) (tidy : p.Tidy)
    (calls : List Call) : p.condensed.after calls = (p.after calls).condensed ∧ (p.after calls).Tidy := by
  induction calls generalizing p with
  | nil => exact ⟨rfl, tidy⟩
  | cons c calls ih =>
      obtain ⟨same, tidy⟩ := call_condensed h tidy c
      change (p.condensed.call c).after calls = ((p.call c).after calls).condensed ∧ _
      rw [same]
      refine ih ?_ tidy
      rwa [show (p.call c).program = p.program from program_after p [c]]

theorem ofProgram_condensed {program : Program} (h : ∃ i ∈ program.instructions, i.enabled = true)
    (emitter : ProjectileId) (slot : UInt32) :
    ofProgram program.condensed emitter slot = (ofProgram program emitter slot).condensed := by
  rw [ofProgram, Program.startStatus_condensed h]
  rfl

/-- Disabled instructions cannot be observed. A player of a program and one of the program without its disabled
instructions, after the same calls, have the same status, shots, time, wait and number of open loops. They are at
the same place and keep the same draws for the same instructions. Every update gives the same events in the same
order, leaves the same swarm, makes the same report, which counts the instructions, and leaves both as they were
before: at the same place, showing the same. The swarm of an update may be what the one before has left or another
one, so the host may do what it likes in between. -/
theorem condensed_shows_the_same (program : Program) (h : ∃ i ∈ program.instructions, i.enabled = true)
    (emitter : ProjectileId) (slot : UInt32) (calls : List Call) :
    let p := (ofProgram program emitter slot).after calls
    let q := (ofProgram program.condensed emitter slot).after calls
    let Same (p q : Player) := q.look = { p.look with pointer := program.place p.pointer } ∧
      q.cache.entries = p.cache.entries.map fun ((s, channel), kept) => ((program.place s, channel), kept)
    (∀ s i, program.instructions[s]? = some i → i.enabled = true →
      program.condensed.instructions[program.place s]? = some i) ∧
    Same p q ∧
    ∀ (dt : Single) (globals : Blackboard) (swarm : Swarm),
      let u := p.update dt globals swarm
      let u' := q.update dt globals swarm
      u'.events = u.events ∧ u'.swarm = u.swarm ∧ u'.report = u.report ∧ Same u.player u'.player := by
  intro p q Same
  obtain ⟨same, tidy⟩ := after_condensed (p := ofProgram program emitter slot) h (DrawCache.tidy_empty _) calls
  have hq : q = p.condensed := by rw [← same, ← ofProgram_condensed h]
  have same_condensed (r : Player) (hr : r.program = program) : Same r r.condensed := by
    subst hr
    refine ⟨?_, rfl⟩
    simp [look, condensed]
  refine ⟨fun s i => Program.condensed_at_place, hq ▸ same_condensed p (program_after _ calls), ?_⟩
  intro dt globals swarm u u'
  have hu : u' = u.condensed := by rw [← (update_condensed tidy dt globals swarm).1, ← hq]
  rw [hu]
  refine ⟨rfl, rfl, rfl, same_condensed u.player ?_⟩
  exact (program_after p [.update dt globals swarm]).trans (program_after _ calls)

/-- A counted loop in an endless one. Begins and ends between them are disabled, as is the end of the list. -/
def sparse : Program where
  id := 3
  instructions := [
    Instruction.endLoop.disabled, .endlessLoop, Instruction.endlessLoop.disabled, .beginLoop 2,
    Instruction.endLoop.disabled, .wait 1, .endLoop, (Instruction.beginLoop 0).disabled, .endLoop,
    (Instruction.wait 1).disabled]

/-- An update that waits in the inner loop and one that goes on there. -/
theorem sparse_shows_the_same :
    let calls := [.update 0 {} (.ofSeed 0), .update 1 {} (.ofSeed 1)]
    let p := (ofProgram sparse ⟨0⟩ 0).after calls
    let q := (ofProgram sparse.condensed ⟨0⟩ 0).after calls
    (∃ i ∈ sparse.instructions, i.enabled = true) ∧ sparse.condensed.length = 5 ∧ sparse.place 8 = 4 ∧
      q.look.pointer = sparse.place p.pointer ∧
      (q.update 1 {} (.ofSeed 2)).report = (p.update 1 {} (.ofSeed 2)).report := by
  intro calls p q
  have h : ∃ i ∈ sparse.instructions, i.enabled = true :=
    ⟨.endlessLoop, List.mem_cons_of_mem _ List.mem_cons_self, rfl⟩
  have shown := condensed_shows_the_same sparse h ⟨0⟩ 0 calls
  exact ⟨h, rfl, rfl, congrArg Look.pointer shown.2.1.1, (shown.2.2 1 {} (.ofSeed 2)).2.2.1⟩

end Player

end Danmaku
