import Danmaku.Proofs.History

/-! The course of a player is what it needs to go on and does not show: its program, its place there, its open
loops, the draws that it keeps and the stamps that it has given. A turn can be put onto another course. What an
instruction shows is then the same, as long as its requests are answered alike on both courses. Two players
that run different programs are compared in this way. -/

namespace Danmaku

structure Course where
  program : Program
  pointer : Nat := 0
  frames : List Frame := []
  cache : DrawCache := {}
  lastStamp : Nat := 0
  /-- Of the update under way. -/
  executed : UInt32 := 0

/-- A player that shows the same, on another course. -/
def Player.onto (p : Player) (c : Course) : Player :=
  { p with
    program := c.program, pointer := c.pointer, frames := c.frames, cache := c.cache
    lastStamp := c.lastStamp }

def Turn.onto (t : Turn) (c : Course) : Turn :=
  { t with player := t.player.onto c, report := { t.report with executed := c.executed } }

def Round.onto : Round → Course → Round
  | more t, c => more (t.onto c)
  | last t, c => last (t.onto c)

/-- The same way to go, by other positions. -/
def Flow.map (f : Nat → Nat) : Flow → Flow
  | next => next
  | jump target => jump (f target)
  | suspend => suspend
  | yield => yield
  | yieldAt target => yieldAt (f target)
  | halt => halt
  | finish => finish

theorem Flow.map_id (flow : Flow) : flow.map id = flow := by
  cases flow <;> rfl

/-- Goes where an instruction says. -/
def Course.follow (c : Course) : Flow → Course
  | .next | .suspend | .yield => { c with pointer := c.pointer + 1 }
  | .jump target | .yieldAt target => { c with pointer := target }
  | .halt | .finish => c

/-- Back to the first instruction, with nothing kept. -/
def Course.reset (c : Course) : Course :=
  { program := c.program, lastStamp := c.lastStamp, executed := c.executed }

theorem Turn.follow_onto (u : Turn) (c : Course) (f : Nat → Nat) (flow : Flow) :
    (u.onto c).follow (flow.map f) = (u.follow flow).onto (c.follow (flow.map f)) := by
  cases flow <;> rfl

/-- A request is answered alike on two courses, whatever draws are kept, if those that are kept agree; and what
is kept of it then agrees too. -/
structure Faithful (Agree : DrawCache → DrawCache → Prop) (t : Turn) (c : Course) (q : Query) : Prop where
  reusable : ∀ k k', Agree k k' →
    k.reusable? q.2.α (t.player.pointer, q.1) q.2.param.reroll t.player.frames =
      k'.reusable? q.2.α (c.pointer, q.1) q.2.param.reroll c.frames
  keep : ∀ k k' value, Agree k k' →
    Agree (k.keep (t.player.pointer, q.1) q.2.param.reroll t.player.frames value)
      (k'.keep (c.pointer, q.1) q.2.param.reroll c.frames value)

/-- The second turn is the first on this course, with other draws kept that agree. -/
def Turn.Alike (Agree : DrawCache → DrawCache → Prop) (c : Course) (u u' : Turn) : Prop :=
  ∃ cache, u' = u.onto { c with cache } ∧ Agree u.player.cache cache

namespace Turn

variable {Agree : DrawCache → DrawCache → Prop} {t u u' : Turn} {c : Course} {globals : Blackboard}

theorem Alike.refl (kept : Agree t.player.cache c.cache) : Alike Agree c t (t.onto c) := ⟨c.cache, rfl, kept⟩

theorem Alike.emit (h : Alike Agree c u u') (e : Effect) : Alike Agree c (u.emit e) (u'.emit e) := by
  obtain ⟨cache, rfl, kept⟩ := h
  exact ⟨cache, rfl, kept⟩

/-- A request shows the same value on both courses. -/
theorem Alike.value {α : Type} [Blendable α] [LawfulBlendable α] {p : Param α} {channel : Channel}
    (h : Alike Agree c u u') (globals : Blackboard) (faithful : Faithful Agree u c (channel, ⟨p⟩)) :
    (u'.value globals p channel).1 = (u.value globals p channel).1 ∧
      Alike Agree c (u.value globals p channel).2 (u'.value globals p channel).2 := by
  obtain ⟨cache, rfl, kept⟩ := h
  have hr := faithful.reusable _ _ kept
  cases hk : u.player.cache.reusable? α (u.player.pointer, channel) p.reroll u.player.frames with
  | some v =>
      have hk' : (u.onto { c with cache }).player.cache.reusable? α
          ((u.onto { c with cache }).player.pointer, channel) p.reroll
          (u.onto { c with cache }).player.frames = some v := hr.symm.trans hk
      simp only [Turn.value, drawing, Ledger.draw, hk, hk']
      exact ⟨trivial, cache, rfl, kept⟩
  | none =>
      have hk' : (u.onto { c with cache }).player.cache.reusable? α
          ((u.onto { c with cache }).player.pointer, channel) p.reroll
          (u.onto { c with cache }).player.frames = none := hr.symm.trans hk
      simp only [Turn.value, drawing, Ledger.draw, hk, hk']
      exact ⟨rfl, _, rfl, faithful.keep _ _ _ kept⟩

theorem Alike.mutation (h : Alike Agree c u u') (globals : Blackboard) (e : Edit Param)
    (faithful : ∀ q, e.param? = some q → Faithful Agree u c (.main, q)) :
    (u'.mutation globals e).1 = (u.mutation globals e).1 ∧
      Alike Agree c (u.mutation globals e).2 (u'.mutation globals e).2 := by
  cases e with
  | setFold target fold =>
      simp only [Turn.mutation, Edit.resolve, drawing_pure]
      exact ⟨trivial, h⟩
  | playback target action =>
      simp only [Turn.mutation, Edit.resolve, drawing_pure]
      exact ⟨trivial, h⟩
  | retarget preference =>
      simp only [Turn.mutation, Edit.resolve, drawing_pure]
      exact ⟨trivial, h⟩
  | _ =>
      obtain ⟨hv, alike⟩ := h.value globals (faithful _ rfl)
      simp only [Turn.value] at hv
      simp only [Turn.mutation, Edit.resolve, drawing_map]
      rw [hv]
      exact ⟨rfl, alike⟩

end Turn

theorem Faithful.of_undisturbed {Agree : DrawCache → DrawCache → Prop} {t u : Turn} {c : Course} {q : Query}
    (h : Faithful Agree t c q) (same : Turn.Undisturbed t u) : Faithful Agree u c q where
  reusable := by
    rw [same.pointer, same.frames]
    exact h.reusable
  keep := by
    rw [same.pointer, same.frames]
    exact h.keep

namespace Turn

variable {Agree : DrawCache → DrawCache → Prop} {t : Turn} {c : Course}

theorem undisturbed_mutation (t : Turn) (globals : Blackboard) (e : Edit Param) :
    Undisturbed t (t.mutation globals e).2 := .of_player rfl

/-- An edit asks for its value, and for a duration and an easing curve where it is spread over time. -/
theorem alike_edit (globals : Blackboard) {i : Instruction} {e : Edit Param} (action : i.action = .edit e)
    (kept : Agree t.player.cache c.cache) (faithful : ∀ q ∈ i.queries, Faithful Agree t c q) :
    Alike Agree c (t.edit globals e i.timing) ((t.onto c).edit globals e i.timing) := by
  have main (q : AnyParam) (hq : e.param? = some q) : Faithful Agree t c (.main, q) :=
    faithful _ (Instruction.main_mem_queries (by rw [action, Action.param?, hq]))
  obtain ⟨hm, alike⟩ := (Alike.refl kept).mutation globals e main
  cases ht : i.timing with
  | instant =>
      simp only [edit, hm]
      exact alike.emit _
  | progressive duration easing =>
      simp only [edit, hm]
      split
      · rename_i hgradual
        have spread : i.spreadQueries = [(.duration, ⟨duration⟩), (.easing, ⟨easing⟩)] := by
          rw [Instruction.spreadQueries, action, ht]
          rw [(mutation_eq_answerAll globals t e).2] at hgradual
          exact if_pos hgradual
        have ofSpread (q : Query) (hq : q ∈ [(Channel.duration, AnyParam.mk duration), (.easing, ⟨easing⟩)]) :
            Faithful Agree t c q := faithful q (List.mem_append_right _ (spread ▸ hq))
        have same := undisturbed_mutation t globals e
        obtain ⟨hd, alike⟩ := alike.value globals ((ofSpread _ List.mem_cons_self).of_undisturbed same)
        have same := same.trans (undisturbed_value _ globals duration .duration)
        obtain ⟨he, alike⟩ := alike.value globals
          ((ofSpread _ (List.mem_cons_of_mem _ List.mem_cons_self)).of_undisturbed same)
        rw [hd, he]
        exact alike.emit _
      · exact alike.emit _

theorem shoot_onto (globals : Blackboard) (shot : Shot) (id : c.program.id = t.player.program.id) :
    (t.onto c).shoot globals shot = (t.shoot globals shot).onto c := by
  unfold shoot
  rw [show (t.onto c).player.program.id = t.player.program.id from id]
  rfl

theorem addCustom_onto (t : Turn) (c : Course) (name : String) (delta : Single) :
    (t.onto c).addCustom name delta = (t.addCustom name delta).onto c := by
  unfold addCustom
  rw [show (t.onto c).swarm.find? (t.onto c).player.emitter = t.swarm.find? t.player.emitter from rfl]
  cases t.swarm.find? t.player.emitter with
  | none => rfl
  | some p =>
      dsimp only
      cases p.custom.add? name delta <;> rfl

/-- An action that is not about the course of the program does the same on another course. -/
theorem alike_act (globals : Blackboard) (i : Instruction) (id : c.program.id = t.player.program.id)
    (kept : Agree t.player.cache c.cache) (faithful : ∀ q ∈ i.queries, Faithful Agree t c q) :
    Alike Agree c (t.act globals i.action i.timing) ((t.onto c).act globals i.action i.timing) := by
  have value {α : Type} [Blendable α] [LawfulBlendable α] (p : Param α) (hp : i.action.param? = some ⟨p⟩) :
      ((t.onto c).value globals p .main).1 = (t.value globals p .main).1 ∧
        Alike Agree c (t.value globals p .main).2 ((t.onto c).value globals p .main).2 :=
    (Alike.refl kept).value globals (faithful _ (Instruction.main_mem_queries hp))
  cases action : i.action with
  | shoot shot =>
      refine ⟨c.cache, shoot_onto globals shot id, kept⟩
  | playAudio cue =>
      obtain ⟨hv, alike⟩ := value cue (by rw [action]; rfl)
      simp only [act, hv]
      exact alike.emit _
  | playVfx vfx =>
      obtain ⟨hv, alike⟩ := value vfx (by rw [action]; rfl)
      simp only [act, hv]
      exact alike.emit _
  | stopVfx vfx =>
      obtain ⟨hv, alike⟩ := value vfx (by rw [action]; rfl)
      simp only [act, hv]
      exact alike.emit _
  | edit e => exact alike_edit globals action kept faithful
  | setCustom name p =>
      obtain ⟨hv, cache, hturn, kept⟩ := value p (by rw [action]; rfl)
      simp only [act, hv, hturn]
      exact ⟨cache, rfl, kept⟩
  | addCustom name p =>
      obtain ⟨hv, cache, hturn, kept⟩ := value p (by rw [action]; rfl)
      simp only [act, hv, hturn, addCustom_onto]
      refine ⟨cache, rfl, ?_⟩
      rw [cache_addCustom]
      exact kept
  | toggle module on => exact (Alike.refl kept).emit _
  | command command recipient => exact (Alike.refl kept).emit _
  | _ => exact Alike.refl kept

/-- A wait takes the same time on another course, and marks the loops that are open there. -/
theorem wait_onto (globals : Blackboard) {seconds : Param Single} (kept : Agree t.player.cache c.cache)
    (faithful : Faithful Agree t c (.main, ⟨seconds⟩)) :
    ∃ cache u time, Undisturbed t u ∧ Agree u.player.cache cache ∧
      (t.wait globals seconds = (.suspend, u.suspend time) ∧
          (t.onto c).wait globals seconds = (.suspend,
            (u.suspend time).onto { c with cache, frames := c.frames.map ({ · with waited := true }) }) ∨
        t.wait globals seconds = (.next, u) ∧
          (t.onto c).wait globals seconds = (.next, u.onto { c with cache })) := by
  obtain ⟨hv, cache, hturn, kept⟩ := (Alike.refl kept).value globals faithful
  let v := t.value globals seconds .main
  refine ⟨cache, { v.2 with player := { v.2.player with wait := v.1.raisedTo 0 } }, v.1.raisedTo 0,
    .of_player rfl, kept, ?_⟩
  simp only [wait, hv, hturn]
  split
  · exact Or.inl ⟨rfl, rfl⟩
  · exact Or.inr ⟨rfl, rfl⟩

/-- A loop has the same count on another course. It is entered there as it is here, or passed by as it is. -/
theorem beginLoop_onto (globals : Blackboard) {iterations : Param Int32} (endless : Bool)
    (kept : Agree t.player.cache c.cache) (faithful : Faithful Agree t c (.main, ⟨iterations⟩)) :
    ∃ cache u count, Undisturbed t u ∧ Agree u.player.cache cache ∧
      (t.beginLoop globals iterations endless = (.jump (t.player.program.afterLoop t.player.pointer), u) ∧
          (t.onto c).beginLoop globals iterations endless =
            (.jump (c.program.afterLoop c.pointer), u.onto { c with cache }) ∨
        t.beginLoop globals iterations endless = (.next, u.enter count endless) ∧
          (t.onto c).beginLoop globals iterations endless = (.next, (u.enter count endless).onto { c with
            cache
            frames :=
              { start := c.pointer + 1, remaining := count, endless, stamp := c.lastStamp + 1 } :: c.frames
            lastStamp := c.lastStamp + 1 })) := by
  obtain ⟨hv, cache, hturn, kept⟩ := (Alike.refl kept).value globals faithful
  refine ⟨cache, (t.value globals iterations .main).2, (t.value globals iterations .main).1.toInt,
    undisturbed_value t globals iterations .main, kept, ?_⟩
  simp only [beginLoop, hv, hturn]
  split
  · exact Or.inl ⟨rfl, rfl⟩
  · exact Or.inr ⟨rfl, rfl⟩

/-- An end closes the loop on another course too, or turns it there as it does here. -/
theorem endLoop_onto {f f' : Frame} {fs fs' : List Frame} (opened : t.player.frames = f :: fs)
    (opened' : c.frames = f' :: fs') (move : Nat → Nat) (start : f'.start = move f.start)
    (remaining : f'.remaining = f.remaining) (endless : f'.endless = f.endless) (waited : f'.waited = f.waited) :
    t.endLoop = (.next, { t with player := { t.player with frames := fs } }) ∧
        (t.onto c).endLoop = (.next, Turn.onto { t with player := { t.player with frames := fs } }
          { c with frames := fs' }) ∨
      ∃ flow left, t.endLoop = (flow, t.again f fs left) ∧
        (t.onto c).endLoop = (flow.map move, (t.again f fs left).onto { c with
          frames := (t.onto c).nextIteration f' left :: fs'
          lastStamp := c.lastStamp + 1 }) := by
  have opened' : (t.onto c).player.frames = f' :: fs' := opened'
  simp only [endLoop, opened, opened', start, remaining, endless, waited]
  split
  · refine Or.inr ⟨_, f.remaining, rfl, ?_⟩
    split <;> rfl
  · split
    · exact Or.inl ⟨rfl, rfl⟩
    · exact Or.inr ⟨_, f.remaining - 1, rfl, rfl⟩

end Turn

/-- A relation of players and courses that does not look at the status, and holds again where both are back at the
start of their programs, which are of one id and are both empty or not. -/
structure Course.Kept (R : Player → Course → Prop) : Prop where
  id : ∀ p c, R p c → c.program.id = p.program.id
  startStatus : ∀ p c, R p c → Player.startStatus c.program = Player.startStatus p.program
  status : ∀ p c status, R p c → R { p with status } c
  reset : ∀ p c, R p c → R p.reset c.reset

namespace Course.Kept

variable {R : Player → Course → Prop} (kept : Course.Kept R)
include kept

theorem reboot {p : Player} {c : Course} (h : R p c) :
    (p.onto c).reboot = p.reboot.onto c.reset ∧ R p.reboot c.reset := by
  refine ⟨?_, kept.status _ _ _ (kept.reset p c h)⟩
  rw [Player.reboot, Player.reboot, ← kept.startStatus p c h]
  rfl

/-- A command of a pattern to itself does the same on another course. -/
theorem commandSelf {t : Turn} {c : Course} (h : R t.player c) (f : Nat → Nat) (command : Command) :
    ∃ c', (t.onto c).commandSelf command =
        ((t.commandSelf command).1.map f, (t.commandSelf command).2.onto c') ∧
      R (t.commandSelf command).2.player c' := by
  cases command with
  | play => exact ⟨c, rfl, h⟩
  | pause => exact ⟨c, rfl, kept.status _ _ _ h⟩
  | stop => exact ⟨c.reset, rfl, kept.status _ _ _ (kept.reset _ _ h)⟩
  | reboot =>
      have id : (t.onto c).player.program.id = t.player.program.id := kept.id _ _ h
      obtain ⟨same, reset⟩ := kept.reboot h
      have same : (t.onto c).player.reboot = t.player.reboot.onto c.reset := same
      simp only [Turn.commandSelf, id, same]
      exact ⟨c.reset, rfl, reset⟩

/-- A command from outside does the same on another course. -/
theorem command {p : Player} {c : Course} (h : R p c) (command : Command) :
    ∃ c', (p.onto c).command command = (p.command command).onto c' ∧ R (p.command command) c' := by
  cases command with
  | play =>
      simp only [Player.command, Player.play, show (p.onto c).status = p.status from rfl]
      split
      · exact ⟨c, rfl, h⟩
      · exact ⟨c, rfl, kept.status _ _ _ h⟩
      · exact ⟨c.reset, kept.reboot h⟩
      · exact ⟨c.reset, kept.reboot h⟩
  | pause =>
      simp only [Player.command, Player.pause, show (p.onto c).status = p.status from rfl]
      split
      · exact ⟨c, rfl, kept.status _ _ _ h⟩
      · exact ⟨c, rfl, h⟩
  | stop => exact ⟨c.reset, rfl, kept.status _ _ _ (kept.reset _ _ h)⟩
  | reboot => exact ⟨c.reset, kept.reboot h⟩

/-- An instruction does the same on another course if what it asks for is answered alike, a relation is kept by what
does not disturb the course, and waits and loops do the same. -/
theorem execute {Agree : DrawCache → DrawCache → Prop} {t : Turn} {c : Course} (h : R t.player c)
    (globals : Blackboard) (i : Instruction) (f : Nat → Nat) (agree : Agree t.player.cache c.cache)
    (faithful : ∀ q ∈ i.queries, Faithful Agree t c q)
    (undisturbed : ∀ (u : Turn) cache, Turn.Undisturbed t u → Agree u.player.cache cache →
      R u.player { c with cache })
    (wait : ∀ seconds, i.action = .wait seconds → ∃ c', (t.onto c).wait globals seconds =
      ((t.wait globals seconds).1.map f, (t.wait globals seconds).2.onto c') ∧
        R (t.wait globals seconds).2.player c')
    (beginLoop : ∀ iterations endless, i.action = .beginLoop iterations endless →
      ∃ c', (t.onto c).beginLoop globals iterations endless =
        ((t.beginLoop globals iterations endless).1.map f, (t.beginLoop globals iterations endless).2.onto c') ∧
        R (t.beginLoop globals iterations endless).2.player c')
    (endLoop : i.action = .endLoop → ∃ c', (t.onto c).endLoop = (t.endLoop.1.map f, t.endLoop.2.onto c') ∧
      R t.endLoop.2.player c') :
    ∃ c', (t.onto c).execute globals i = ((t.execute globals i).1.map f, (t.execute globals i).2.onto c') ∧
      R (t.execute globals i).2.player c' := by
  obtain ⟨cache, acts, agree'⟩ := Turn.alike_act globals i (kept.id _ _ h) agree faithful
  have acted := undisturbed _ cache (Turn.undisturbed_act t globals i.action i.timing) agree'
  cases action : i.action with
  | wait seconds =>
      simp only [Turn.execute_eq_perform, Turn.perform, action]
      exact wait seconds action
  | beginLoop iterations endless =>
      simp only [Turn.execute_eq_perform, Turn.perform, action]
      exact beginLoop iterations endless action
  | endLoop =>
      simp only [Turn.execute_eq_perform, Turn.perform, action]
      exact endLoop action
  | die =>
      simp only [Turn.execute_eq_perform, Turn.perform, action]
      exact ⟨c, rfl, h⟩
  | command command recipient =>
      cases recipient with
      | self =>
          simp only [Turn.execute_eq_perform, Turn.perform, action]
          exact kept.commandSelf h f command
      | _ =>
          simp only [Turn.execute_eq_perform, Turn.perform, action] at acts acted ⊢
          rw [acts]
          exact ⟨_, rfl, acted⟩
  | _ =>
      simp only [Turn.execute_eq_perform, Turn.perform, action] at acts acted ⊢
      rw [acts]
      exact ⟨_, rfl, acted⟩

end Course.Kept

end Danmaku
