import Danmaku.Proofs.Course

/-! A player that starts again shows nothing of its past. All that a reset leaves is the number of stamps that were
given, so a player that starts again is a fresh one whose stamps come later. Stamps are compared with each other
and nothing else is done with them: a player whose stamps all come later by the same number does the same. -/

namespace Danmaku

/-- The frame with a stamp that comes later. -/
def Frame.later (n : Nat) (f : Frame) : Frame := { f with stamp := f.stamp + n }

def KeptDraw.later (n : Nat) (kept : KeptDraw) : KeptDraw := { kept with stamp := kept.stamp.map (· + n) }

namespace DrawCache

variable {n : Nat} {c : DrawCache} {key : Nat × Channel}

def later (n : Nat) (c : DrawCache) : DrawCache := ⟨c.entries.map fun e => (e.1, e.2.later n)⟩

theorem find?_later (n : Nat) (c : DrawCache) (key : Nat × Channel) :
    (c.later n).find? key = (c.find? key).map (·.later n) :=
  Entries.lookup_map id (KeptDraw.later n) key fun _ _ => id

theorem put_later (n : Nat) (key : Nat × Channel) (kept : KeptDraw) (c : DrawCache) :
    Entries.put key (kept.later n) (c.later n).entries = (later n ⟨Entries.put key kept c.entries⟩).entries :=
  Entries.put_map id (KeptDraw.later n) key (fun _ _ => id) kept

theorem frameAt?_later (n : Nat) (frames : List Frame) (depth : UInt32) :
    frameAt? (frames.map (·.later n)) depth = (frameAt? frames depth).map (·.later n) :=
  List.getElem?_map ..

/-- Whether two stamps are the same does not change when both come later. -/
theorem needsDraw_later (n : Nat) (c : DrawCache) (key : Nat × Channel) (reroll : Reroll) (frames : List Frame) :
    (c.later n).needsDraw key reroll (frames.map (·.later n)) = c.needsDraw key reroll frames := by
  unfold needsDraw
  rw [find?_later]
  cases c.find? key with
  | none => rfl
  | some kept =>
      cases reroll with
      | atLoops rule =>
          simp only [Option.map_some, frameAt?_later]
          cases frameAt? frames rule.depth with
          | none => rfl
          | some f =>
              have same : (kept.later n).stamp = some (f.later n).stamp ↔ kept.stamp = some f.stamp := by
                cases hs : kept.stamp with
                | none => simp [KeptDraw.later, hs]
                | some s => simp [KeptDraw.later, Frame.later, hs]
              simp only [Option.map_some, ne_eq, same]
              rfl
      | _ => rfl

theorem reusable?_later {α : Type} [Blendable α] (n : Nat) (c : DrawCache) (key : Nat × Channel) (reroll : Reroll)
    (frames : List Frame) :
    (c.later n).reusable? α key reroll (frames.map (·.later n)) = c.reusable? α key reroll frames := by
  unfold reusable?
  rw [needsDraw_later, find?_later, Option.bind_map]
  rfl

theorem keep_later (n : Nat) (c : DrawCache) (key : Nat × Channel) (reroll : Reroll) (frames : List Frame)
    (value : Payload) :
    (c.later n).keep key reroll (frames.map (·.later n)) value = (c.keep key reroll frames value).later n := by
  cases reroll with
  | always => rfl
  | once => exact congrArg DrawCache.mk (put_later n key ⟨value, none⟩ c)
  | atLoops rule =>
      have stamp : (frameAt? (frames.map (·.later n)) rule.depth).map (·.stamp) =
          ((frameAt? frames rule.depth).map (·.stamp)).map (· + n) := by
        rw [frameAt?_later, Option.map_map, Option.map_map]
        rfl
      rw [keep, stamp]
      exact congrArg DrawCache.mk (put_later n key ⟨value, (frameAt? frames rule.depth).map Frame.stamp⟩ c)

end DrawCache

/-- The player whose stamps, given and kept, all come later by so many. -/
def Player.later (n : Nat) (p : Player) : Player :=
  { p with frames := p.frames.map (·.later n), cache := p.cache.later n, lastStamp := p.lastStamp + n }

namespace Turn

variable {n : Nat} {t u : Turn} {globals : Blackboard}

def later (n : Nat) (t : Turn) : Turn := { t with player := t.player.later n }

/-- The course of the player whose stamps come later. -/
def courseLater (n : Nat) (t : Turn) : Course where
  program := t.player.program
  pointer := t.player.pointer
  frames := t.player.frames.map (·.later n)
  cache := t.player.cache.later n
  lastStamp := t.player.lastStamp + n
  executed := t.report.executed

theorem later_eq_onto (n : Nat) (t : Turn) : t.later n = t.onto (t.courseLater n) := rfl

/-- Kept draws agree where the ones are those of the other, with later stamps. -/
theorem faithful_later (n : Nat) (t : Turn) (q : Query) :
    Faithful (fun k k' => k' = k.later n) t (t.courseLater n) q where
  reusable := by
    rintro k _ rfl
    exact (DrawCache.reusable?_later n k _ _ _).symm
  keep := by
    rintro k _ value rfl
    exact DrawCache.keep_later n k _ _ _ value

/-- A turn that is undisturbed, on the course that the turn before it has with later stamps. -/
theorem onto_courseLater (same : Undisturbed t u) (executed : u.report.executed = t.report.executed) :
    u.onto { t.courseLater n with cache := u.player.cache.later n } = u.later n := by
  rw [later_eq_onto]
  simp only [courseLater, same.program, same.pointer, same.frames, same.lastStamp, executed]

theorem executed_edit (t : Turn) (globals : Blackboard) (e : Edit Param) (timing : Timing) :
    (t.edit globals e timing).report.executed = t.report.executed := by
  cases timing with
  | instant => rfl
  | progressive duration easing =>
      simp only [edit]
      split <;> rfl

theorem executed_addCustom (t : Turn) (name : String) (delta : Single) :
    (t.addCustom name delta).report.executed = t.report.executed := by
  unfold addCustom
  split
  · rfl
  · split <;> rfl

theorem executed_act (t : Turn) (globals : Blackboard) (action : Action) (timing : Timing) :
    (t.act globals action timing).report.executed = t.report.executed := by
  cases action with
  | edit e => exact executed_edit t globals e timing
  | addCustom name delta => exact executed_addCustom (t.value globals delta .main).2 name _
  | _ => rfl

theorem act_later (n : Nat) (t : Turn) (globals : Blackboard) (i : Instruction) :
    (t.later n).act globals i.action i.timing = (t.act globals i.action i.timing).later n := by
  obtain ⟨_, hact, rfl⟩ :=
    alike_act globals i (c := t.courseLater n) rfl rfl fun q _ => faithful_later n t q
  rw [later_eq_onto, hact]
  exact onto_courseLater (undisturbed_act ..) (executed_act ..)

theorem value_later {α : Type} [Blendable α] [LawfulBlendable α] (n : Nat) (t : Turn) (globals : Blackboard)
    (p : Param α) (channel : Channel) :
    (t.later n).value globals p channel =
      ((t.value globals p channel).1, (t.value globals p channel).2.later n) := by
  obtain ⟨hvalue, _, hturn, rfl⟩ :=
    (Alike.refl (c := t.courseLater n) rfl).value globals (faithful_later n t (channel, ⟨p⟩))
  rw [onto_courseLater (undisturbed_value t globals p channel) rfl] at hturn
  exact Prod.ext hvalue hturn

theorem wait_later (n : Nat) (t : Turn) (globals : Blackboard) (seconds : Param Single) :
    (t.later n).wait globals seconds = ((t.wait globals seconds).1, (t.wait globals seconds).2.later n) := by
  simp only [wait, value_later]
  split
  · simp [later, Player.later, Frame.later, Function.comp_def]
  · rfl

theorem beginLoop_later (n : Nat) (t : Turn) (globals : Blackboard) (iterations : Param Int32) (endless : Bool) :
    (t.later n).beginLoop globals iterations endless =
      ((t.beginLoop globals iterations endless).1, (t.beginLoop globals iterations endless).2.later n) := by
  simp only [beginLoop, value_later]
  split
  · rfl
  · simp [later, Player.later, Frame.later, Nat.add_right_comm]

theorem again_later (n : Nat) (t : Turn) (frame : Frame) (frames : List Frame) (remaining : Int) :
    (t.later n).again (frame.later n) (frames.map (·.later n)) remaining =
      (t.again frame frames remaining).later n := by
  simp [again, later, Player.later, Frame.later, Nat.add_right_comm]

theorem endLoop_later (n : Nat) (t : Turn) :
    (t.later n).endLoop = (t.endLoop.1, t.endLoop.2.later n) := by
  cases opened : t.player.frames with
  | nil =>
      have opened' : (t.later n).player.frames = [] := congrArg (List.map (Frame.later n)) opened
      simp only [endLoop, opened, opened']
      rfl
  | cons f fs =>
      have opened' : (t.later n).player.frames = f.later n :: fs.map (·.later n) :=
        congrArg (List.map (Frame.later n)) opened
      simp only [endLoop, opened, opened', again_later]
      change (if f.endless = true then _ else if f.remaining ≤ 1 then _ else _) = _
      split
      · rfl
      · split <;> rfl

theorem commandSelf_later (n : Nat) (t : Turn) (command : Command) :
    (t.later n).commandSelf command = ((t.commandSelf command).1, (t.commandSelf command).2.later n) := by
  cases command <;> rfl

theorem execute_later (n : Nat) (t : Turn) (globals : Blackboard) (i : Instruction) :
    (t.later n).execute globals i = ((t.execute globals i).1, (t.execute globals i).2.later n) := by
  have act := act_later n t globals i
  rw [execute_eq_perform, execute_eq_perform]
  unfold perform
  split
  · exact wait_later n t globals _
  · exact beginLoop_later n t globals _ _
  · exact endLoop_later n t
  · rfl
  · exact commandSelf_later n t _
  · rw [act]

end Turn

def Round.later (n : Nat) : Round → Round
  | more t => more (t.later n)
  | last t => last (t.later n)

namespace Turn

variable {n : Nat} {t u : Turn} {globals : Blackboard}

theorem follow_later (n : Nat) (u : Turn) (flow : Flow) : (u.later n).follow flow = (u.follow flow).later n := by
  cases flow <;> rfl

theorem round_later (n : Nat) (t : Turn) (globals : Blackboard) :
    (t.later n).round globals = (t.round globals).later n := by
  cases here : t.player.program.instructions[t.player.pointer]? with
  | none =>
      have here' : (t.later n).player.program.instructions[(t.later n).player.pointer]? = none := here
      cases opened : t.player.frames with
      | nil =>
          have opened' : (t.later n).player.frames = [] := congrArg (List.map (Frame.later n)) opened
          rw [round_of_done here opened, round_of_done here' opened']
          rfl
      | cons f fs =>
          have opened' : (t.later n).player.frames = f.later n :: fs.map (·.later n) :=
            congrArg (List.map (Frame.later n)) opened
          rw [round_of_unterminated here opened, round_of_unterminated here' opened']
          rfl
  | some i =>
      have here' : (t.later n).player.program.instructions[(t.later n).player.pointer]? = some i := here
      cases enabled : i.enabled with
      | false =>
          rw [round_of_disabled here enabled, round_of_disabled here' enabled]
          rfl
      | true =>
          rw [round_of_enabled here enabled, round_of_enabled here' enabled,
            show (t.later n).count = t.count.later n from rfl, execute_later, follow_later]

theorem run_later (n : Nat) (t : Turn) (globals : Blackboard) :
    (t.later n).run globals = (t.run globals).later n := by
  rw [run_eq_round, run_eq_round globals t, round_later]
  cases hr : t.round globals with
  | more u => exact run_later n u globals
  | last u => rfl
termination_by t.player.rank
decreasing_by exact rank_lt_of_round hr

end Turn

namespace Player

theorem update_later (n : Nat) (p : Player) (dt : Single) (globals : Blackboard) (swarm : Swarm) :
    (p.later n).update dt globals swarm = (p.update dt globals swarm).later n := by
  by_cases runs : p.Runs dt
  · have runs' : (p.later n).Runs dt := runs
    rw [update_of_runs runs, update_of_runs runs', ← Turn.run_later]
    rfl
  · have runs' : ¬(p.later n).Runs dt := runs
    rw [update_of_not_runs runs, update_of_not_runs runs']
    change (if p.status = .playing then _ else _) = _
    split <;> rfl

theorem command_later (n : Nat) (p : Player) (command : Command) :
    (p.later n).command command = (p.command command).later n := by
  cases command with
  | play =>
      change (p.later n).play = p.play.later n
      unfold play
      rw [show (p.later n).status = p.status from rfl]
      split <;> rfl
  | pause =>
      change (p.later n).pause = p.pause.later n
      unfold pause
      rw [show (p.later n).status = p.status from rfl]
      split <;> rfl
  | stop => rfl
  | reboot => rfl

theorem call_later (n : Nat) (p : Player) (c : Call) : (p.later n).call c = (p.call c).later n := by
  cases c with
  | update dt globals swarm => exact congrArg Turn.player (update_later n p dt globals swarm)
  | command command => exact command_later n p command

theorem after_later (n : Nat) (p : Player) (calls : List Call) :
    (p.later n).after calls = (p.after calls).later n := by
  induction calls generalizing p with
  | nil => rfl
  | cons c calls ih =>
      change ((p.later n).call c).after calls = ((p.call c).after calls).later n
      rw [call_later, ih]

/-- A reboot makes a fresh player whose stamps come after those that were given. -/
theorem reboot_eq_later (p : Player) :
    p.reboot = (ofProgram p.program p.emitter p.slot).later p.lastStamp := by
  simp [reboot, reset, ofProgram, later, DrawCache.later]

theorem play_stop (p : Player) : p.stop.play = p.reboot := rfl

/-- What a player shows of itself. -/
structure Look where
  status : Status
  pointer : Nat
  depth : Nat
  shots : UInt32
  time : Single
  wait : Single

def look (p : Player) : Look where
  status := p.status
  pointer := p.pointer
  depth := p.frames.length
  shots := p.shots
  time := p.time
  wait := p.wait

theorem look_later (n : Nat) (p : Player) : (p.later n).look = p.look := by
  simp [look, later]

/-- Whatever a player has been through, after a reboot, or a stop and a play, it cannot be told from one that was
just made of its program, for its emitter and at its slot. Whatever calls both see from then on, they look the
same, and every update gives the same events in the same order, leaves the same swarm, reports the same and leaves
them looking the same. The swarm of an update may be what the one before has left or another one, so the host may
do what it likes in between. -/
theorem restart_shows_no_past (p : Player) (calls : List Call) :
    let fresh := (ofProgram p.program p.emitter p.slot).after calls
    ∀ q ∈ [p.reboot.after calls, p.stop.play.after calls],
      q.look = fresh.look ∧
      ∀ (dt : Single) (globals : Blackboard) (swarm : Swarm),
        let u := q.update dt globals swarm
        let u' := fresh.update dt globals swarm
        u.events = u'.events ∧ u.swarm = u'.swarm ∧ u.report = u'.report ∧ u.player.look = u'.player.look := by
  intro fresh q hq
  have later : q = fresh.later p.lastStamp := by
    have reboot : p.reboot.after calls = fresh.later p.lastStamp := by
      rw [reboot_eq_later, after_later]
    rcases List.mem_pair.1 hq with rfl | rfl
    · exact reboot
    · rw [play_stop]
      exact reboot
  rw [later]
  refine ⟨look_later _ fresh, fun dt globals swarm => ?_⟩
  rw [update_later]
  exact ⟨rfl, rfl, rfl, look_later _ _⟩

end Player

end Danmaku
