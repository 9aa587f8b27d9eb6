import Danmaku.Proofs.Executions
import Danmaku.Proofs.Requests

/-! The history of a player: what its updates asked of the kept draws, where a loop began an iteration, and
where the player was reset, newest first. Nothing in a history is stored by the player. It is a log of what the updates
execute: the requests of each instruction, with their answers, and what the way it goes on says of the loops. -/

namespace Danmaku

inductive Moment where
  /-- The loop whose body starts here begins an iteration: it is entered, or its end goes back to its start. -/
  | began (start : Nat)
  | asked (ask : Ask)
  /-- The kept draws are dropped and the loops are closed. -/
  | reset

/-- Moments, newest first. -/
abbrev History := List Moment

/-- What an instruction at the pointer does to the loops, or to all that is kept, by the way it goes on. -/
def Action.moment? (a : Action) (flow : Flow) (pointer : Nat) : Option Moment :=
  match a, flow with
  | .beginLoop .., .next => some (.began (pointer + 1))
  | .endLoop, .jump start => some (.began start)
  | .endLoop, .yieldAt start => some (.began start)
  | .command .stop .self, _ => some .reset
  | .command .reboot .self, _ => some .reset
  | _, _ => none

theorem Action.moment?_of_plain {a : Action} (h : a.Plain) (flow : Flow) (pointer : Nat) :
    a.moment? flow pointer = none := by
  cases a with
  | beginLoop => cases h.not_begin
  | endLoop => cases h.not_end
  | command command recipient =>
      cases recipient with
      | self =>
          cases command with
          | stop => cases h.not_reset
          | reboot => cases h.not_reset
          | _ => rfl
      | _ => cases command <;> rfl
  | _ => rfl

theorem Action.moment?_of_isLoopBegin {a : Action} (h : a.isLoopBegin = true) (flow : Flow) (pointer : Nat) :
    a.moment? flow pointer = match flow with
      | .next => some (.began (pointer + 1))
      | _ => none := by
  cases a with
  | beginLoop => cases flow <;> rfl
  | _ => cases h

theorem Action.moment?_of_isLoopEnd {a : Action} (h : a.isLoopEnd = true) (flow : Flow) (pointer : Nat) :
    a.moment? flow pointer = match flow with
      | .jump start => some (.began start)
      | .yieldAt start => some (.began start)
      | _ => none := by
  cases a with
  | endLoop => cases flow <;> rfl
  | _ => cases h

/-- What a moment says of the course of a player. Without one it goes on, with loops that were open. A loop that
begins an iteration is at its first, or its frame was open and has finished one more. -/
inductive Marked (p : Player) : Option Moment → Player → Prop where
  | on {q : Player} (pointer : p.pointer ≤ q.pointer) (lastStamp : q.lastStamp = p.lastStamp)
      (frames : ∀ g' ∈ q.frames, ∃ g ∈ p.frames,
        g'.start = g.start ∧ g'.stamp = g.stamp ∧ g'.finished = g.finished) : Marked p none q
  | began {q : Player} (frame : Frame) {frames : List Frame} (pointer : q.pointer = frame.start)
      (lastStamp : q.lastStamp = p.lastStamp + 1) (opened : q.frames = frame :: frames)
      (stamp : frame.stamp = p.lastStamp + 1) (outer : ∀ g ∈ frames, g ∈ p.frames)
      (finished : p.pointer < frame.start ∧ frame.finished = 0 ∨
        ∃ g ∈ p.frames, frame.start = g.start ∧ frame.finished = g.finished + 1) :
      Marked p (some (.began frame.start)) q
  | reset {q : Player} (cache : q.cache = {}) (frames : q.frames = []) : Marked p (some .reset) q

/-- Only where the player was and which loops it had open counts. -/
theorem Marked.congr {p p' q : Player} {m : Option Moment} (h : Marked p m q) (pointer : p'.pointer = p.pointer)
    (lastStamp : p'.lastStamp = p.lastStamp) (frames : p'.frames = p.frames) : Marked p' m q := by
  cases h with
  | on on same kept => exact .on (pointer ▸ on) (lastStamp ▸ same) (frames ▸ kept)
  | began frame start stamped opened stamp outer finished =>
      exact .began frame start (lastStamp ▸ stamped) opened (lastStamp ▸ stamp) (frames ▸ outer)
        (pointer ▸ frames ▸ finished)
  | reset dropped closed => exact .reset dropped closed

namespace Turn

/-- The frame of a loop that goes back to its start. -/
def nextIteration (t : Turn) (frame : Frame) (remaining : Int) : Frame :=
  { frame with remaining, finished := frame.finished + 1, waited := false, stamp := t.player.lastStamp + 1 }

/-- What an instruction does to the open loops and to the kept draws is what its moment says. -/
theorem Executed.marked {t u : Turn} {i : Instruction} {flow : Flow}
    (here : t.player.program.instructions[t.player.pointer]? = some i) (h : Executed t i flow u) :
    Marked t.player (i.action.moment? flow t.player.pointer) (u.follow flow).turn.player := by
  have next {n : Nat} (same : n = t.player.pointer) : t.player.pointer ≤ n + 1 := by omega
  have kept : ∀ {gs : List Frame}, gs = t.player.frames → ∀ g' ∈ gs, ∃ g ∈ t.player.frames,
      g'.start = g.start ∧ g'.stamp = g.stamp ∧ g'.finished = g.finished := by
    rintro _ rfl g hg
    exact ⟨g, hg, rfl, rfl, rfl⟩
  cases h with
  | plain plain same =>
      rw [Action.moment?_of_plain plain]
      exact .on (next same.pointer) same.lastStamp (kept same.frames)
  | suspend plain same =>
      rw [Action.moment?_of_plain plain]
      refine .on (next same.pointer) same.lastStamp fun g' hg' => ?_
      obtain ⟨g, hg, rfl⟩ := List.mem_map.1 hg'
      exact ⟨g, same.frames ▸ hg, rfl, rfl, rfl⟩
  | pass begin same =>
      rw [Action.moment?_of_isLoopBegin begin]
      have past := pointer_lt_afterLoop (List.getElem?_eq_some_iff.1 here).1
      exact .on (Nat.le_of_lt past) same.lastStamp (kept same.frames)
  | @enter v begin same count endless turns =>
      rw [Action.moment?_of_isLoopBegin begin, ← same.pointer]
      let frame : Frame :=
        { start := v.player.pointer + 1, remaining := count, endless, stamp := v.player.lastStamp + 1 }
      refine .began frame rfl (congrArg (· + 1) same.lastStamp) rfl
        (congrArg (· + 1) same.lastStamp) (fun g hg => same.frames ▸ hg) (Or.inl ⟨?_, rfl⟩)
      exact Nat.lt_succ_of_le (Nat.le_of_eq same.pointer.symm)
  | stray last _ same =>
      rw [Action.moment?_of_isLoopEnd last]
      exact .on (next same.pointer) same.lastStamp (kept same.frames)
  | close last opened =>
      rw [Action.moment?_of_isLoopEnd last]
      refine .on (next rfl) rfl fun g hg => ⟨g, ?_, rfl, rfl, rfl⟩
      rw [opened]
      exact List.mem_cons_of_mem _ hg
  | @again frame frames remaining last opened turns =>
      rw [Action.moment?_of_isLoopEnd last]
      refine .began (t.nextIteration frame remaining) rfl rfl rfl rfl (fun g hg => ?_)
        (Or.inr ⟨frame, ?_, rfl, rfl⟩)
      · rw [opened]
        exact List.mem_cons_of_mem _ hg
      · rw [opened]
        exact List.mem_cons_self
  | @idle frame frames last opened =>
      rw [Action.moment?_of_isLoopEnd last]
      refine .began (t.nextIteration frame frame.remaining) rfl rfl rfl rfl (fun g hg => ?_)
        (Or.inr ⟨frame, ?_, rfl, rfl⟩)
      · rw [opened]
        exact List.mem_cons_of_mem _ hg
      · rw [opened]
        exact List.mem_cons_self
  | die plain same =>
      rw [Action.moment?_of_plain plain]
      exact .on (Nat.le_of_eq same.pointer.symm) same.lastStamp (kept same.frames)
  | pause plain =>
      rw [Action.moment?_of_plain plain]
      exact .on (next rfl) rfl (kept rfl)
  | stop action stopped =>
      rw [action]
      exact .reset (congrArg Player.cache stopped) (congrArg Player.frames stopped)
  | reboot action rebooted =>
      rw [action]
      exact .reset (congrArg Player.cache rebooted) (congrArg Player.frames rebooted)

theorem cache_follow (u : Turn) (flow : Flow) : (u.follow flow).turn.player.cache = u.player.cache := by
  cases flow <;> rfl

theorem undisturbed_answerAll (globals : Blackboard) (t : Turn) (qs : List Query) :
    Undisturbed t (t.answerAll globals qs) := by
  induction qs generalizing t with
  | nil => exact .refl t
  | cons q qs ih => exact (undisturbed_value t globals q.2.param q.1).trans (ih (t.answer globals q))

/-- What an execution adds to a history: its requests, in order, and then its moment, the newest first. -/
def moments (globals : Blackboard) (t : Turn) (i : Instruction) : History :=
  (i.action.moment? (t.count.execute globals i).1 t.player.pointer).toList ++
    ((t.count.asks globals i.queries).map .asked).reverse

/-- A round adds the requests of the instruction that it executes and its moment, or nothing. -/
theorem moments_cases (globals : Blackboard) (t : Turn) :
    (t.logs (moments globals) = [] ∧ (t.round globals).turn.player.cache = t.player.cache ∧
      Marked t.player none (t.round globals).turn.player) ∨
    ∃ i, t.player.program.instructions[t.player.pointer]? = some i ∧ i.enabled = true ∧
      t.logs (moments globals) = t.moments globals i ∧
      (t.round globals).turn = ((t.count.execute globals i).2.follow (t.count.execute globals i).1).turn := by
  cases here : t.player.program.instructions[t.player.pointer]? with
  | none =>
      refine Or.inl ⟨logs_of_none (next?_of_past here), ?_⟩
      cases opened : t.player.frames with
      | nil =>
          rw [round_of_done here opened]
          exact ⟨rfl, .on (Nat.le_refl _) rfl fun g hg => ⟨g, hg, rfl, rfl, rfl⟩⟩
      | cons frame frames =>
          rw [round_of_unterminated here opened]
          refine ⟨rfl, .on (Nat.le_refl _) rfl fun g hg => ⟨g, ?_, rfl, rfl, rfl⟩⟩
          rw [opened]
          exact List.mem_cons_of_mem _ hg
  | some i =>
      cases enabled : i.enabled with
      | true =>
          rw [round_of_enabled here enabled]
          exact Or.inr ⟨i, rfl, enabled, logs_of_next? (next?_of_enabled here enabled), rfl⟩
      | false =>
          rw [round_of_disabled here enabled]
          refine Or.inl ⟨logs_of_none (next?_of_disabled here enabled), rfl, .on (Nat.le_succ _) rfl fun g hg => ?_⟩
          exact ⟨g, hg, rfl, rfl, rfl⟩

end Turn

/-- A player with all that came before. -/
structure Life where
  player : Player
  past : History := []

namespace Life

def ofProgram (program : Program) (emitter : ProjectileId) (slot : UInt32) : Life :=
  { player := .ofProgram program emitter slot }

def call (l : Life) (c : Call) : Life where
  player := l.player.call c
  past := l.player.logs Turn.moments .reset c ++ l.past

def after (l : Life) (calls : List Call) : Life := calls.foldl call l

theorem player_after (l : Life) (calls : List Call) : (l.after calls).player = l.player.after calls := by
  induction calls generalizing l with
  | nil => rfl
  | cons c calls ih => exact ih (l.call c)

/-- What every round of an update carries over, whatever the time and the status are, and every reset holds over a
life. -/
theorem after_induction {P : History → Player → Prop}
    (round : ∀ globals (t : Turn) past, P past t.player →
      P (t.logs (Turn.moments globals) ++ past) (t.round globals).turn.player)
    (time : ∀ past p time wait, P past p → P past { p with time, wait })
    (status : ∀ past p status, P past p → P past { p with status })
    (reset : ∀ past (p : Player) status, P past p → P (.reset :: past) { p.reset with status })
    {l : Life} (h : P l.past l.player) (calls : List Call) : P (l.after calls).past (l.after calls).player := by
  induction calls generalizing l with
  | nil => exact h
  | cons c calls ih =>
      refine ih (l := l.call c) ?_
      exact Player.call_induction (P := fun _ => P) (n := 0) (fun globals _ => round globals) (fun _ _ _ h => h)
        (fun _ => time) (fun _ => status) (fun _ => reset) h c

end Life

end Danmaku
