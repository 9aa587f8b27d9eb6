import Danmaku.Proofs.Rounds

/-! What updates execute, and logs of it. A round executes the enabled instruction that the player is at, or none; the
executions of an update are those of its rounds, in order. A log is kept newest first. It is read off the executions,
from the turn and the instruction of each, and over a life it has an entry for every reset by a command too. What every
round carries over, of the log and of the player, holds over a life. -/

namespace Danmaku

namespace Turn

variable {globals : Blackboard} {t u : Turn} {i : Instruction}

/-- The instruction that is executed next, if the player is at one that is enabled. -/
def next? (t : Turn) : Option Instruction :=
  (t.player.program.instructions[t.player.pointer]?).filter (·.enabled)

theorem next?_of_past (past : t.player.program.instructions[t.player.pointer]? = none) : t.next? = none := by
  rw [next?, past, Option.filter_none]

theorem next?_of_enabled (here : t.player.program.instructions[t.player.pointer]? = some i)
    (enabled : i.enabled = true) : t.next? = some i := by
  rw [next?, here, Option.filter_some, if_pos enabled]

theorem next?_of_disabled (here : t.player.program.instructions[t.player.pointer]? = some i)
    (disabled : i.enabled = false) : t.next? = none := by
  rw [next?, here, Option.filter_some, if_neg (Bool.eq_false_iff.1 disabled)]

theorem of_next?_eq_some (h : t.next? = some i) :
    t.player.program.instructions[t.player.pointer]? = some i ∧ i.enabled = true :=
  Option.filter_eq_some_iff.1 h

/-- The instructions that rounds execute, in order, each with the turn at which it is executed. -/
def executed (rounds : List Turn) : List (Turn × Instruction) := rounds.filterMap fun t => t.next?.map (t, ·)

theorem next?_of_mem_executed {rounds : List Turn} (h : (u, i) ∈ executed rounds) : u ∈ rounds ∧ u.next? = some i := by
  obtain ⟨v, hv, here⟩ := List.mem_filterMap.1 h
  obtain ⟨j, found, same⟩ := Option.map_eq_some_iff.1 here
  obtain ⟨rfl, rfl⟩ := Prod.mk.inj same
  exact ⟨hv, found⟩

theorem executed_append (rounds rounds' : List Turn) :
    executed (rounds ++ rounds') = executed rounds ++ executed rounds' :=
  List.filterMap_append

theorem executed_singleton (t : Turn) : executed [t] = (t.next?.map (t, ·)).toList := by
  unfold executed
  cases h : t.next?.map (t, ·) <;> simp [h]

/-- The instructions that the update executes, in order, each with the turn at which it is executed. -/
def executions (globals : Blackboard) (t : Turn) : List (Turn × Instruction) := executed (t.rounds globals)

/-- The update begins with the instruction that the player is at. -/
theorem mem_executions_of_next? (h : t.next? = some i) : (t, i) ∈ t.executions globals := by
  rw [executions, rounds_eq]
  exact List.mem_filterMap.2 ⟨t, List.mem_cons_self, by rw [h]; rfl⟩

/-- What every round carries over, of what has been executed and where it leads, holds where the update ends. -/
theorem executions_induction {P Q : List (Turn × Instruction) → Turn → Prop}
    (more : ∀ done t u, P done t → t.round globals = .more u → P (done ++ (t.next?.map (t, ·)).toList) u)
    (last : ∀ done t u, P done t → t.round globals = .last u → Q (done ++ (t.next?.map (t, ·)).toList) u)
    (t : Turn) (h : P [] t) : Q (t.executions globals) (t.run globals) := by
  refine rounds_induction (P := fun done => P (executed done)) (Q := fun done => Q (executed done))
    (fun done t u hp hr => ?_) (fun done t u hp hr => ?_) [] t h
  · rw [executed_append, executed_singleton]
    exact more _ t u hp hr
  · rw [executed_append, executed_singleton]
    exact last _ t u hp hr

theorem executions_invariant {P : List (Turn × Instruction) → Turn → Prop}
    (round : ∀ done t, P done t → P (done ++ (t.next?.map (t, ·)).toList) (t.round globals).turn) (t : Turn)
    (h : P [] t) : P (t.executions globals) (t.run globals) :=
  executions_induction (P := P) (Q := P) (fun done t _ h hr => turn_of_more hr ▸ round done t h)
    (fun done t _ h hr => turn_of_last hr ▸ round done t h) t h

/-- All rounds of an update play the same program, on the same emitter and at the same slot. -/
theorem pattern_of_mem_rounds (t : Turn) (h : u ∈ t.rounds globals) : SamePattern t.player u.player := by
  refine (rounds_invariant
    (P := fun done v => SamePattern t.player v.player ∧ ∀ u ∈ done, SamePattern t.player u.player)
    (fun done v ⟨here, before⟩ => ?_) t ⟨.refl _, fun _ h => absurd h List.not_mem_nil⟩).2 u h
  exact ⟨here.trans (rounded_round globals v).pattern_turn,
    List.forall_mem_append.2 ⟨before, List.forall_mem_singleton.2 here⟩⟩

section Log

variable {α : Type} {log : Turn → Instruction → List α}

/-- What executions add to a log, newest first, by what each of them adds. -/
def logged (log : Turn → Instruction → List α) (executed : List (Turn × Instruction)) : List α :=
  executed.reverse.flatMap fun x => log x.1 x.2

/-- What the round at a turn adds to a log. -/
def logs (log : Turn → Instruction → List α) (t : Turn) : List α := t.next?.elim [] (log t)

theorem logs_of_next? (h : t.next? = some i) : t.logs log = log t i := by rw [logs, h, Option.elim_some]

theorem logs_of_none (h : t.next? = none) : t.logs log = [] := by rw [logs, h, Option.elim_none]

theorem logged_append_toList (done : List (Turn × Instruction)) (t : Turn) :
    logged log (done ++ (t.next?.map (t, ·)).toList) = t.logs log ++ logged log done := by
  unfold logged logs
  cases t.next? <;> simp

/-- What every round carries over, of a log and where it leads, holds where the update ends, of the log with its
executions. -/
theorem log_induction {P Q : List α → Turn → Prop}
    (more : ∀ past t u, P past t → t.round globals = .more u → P (t.logs log ++ past) u)
    (last : ∀ past t u, P past t → t.round globals = .last u → Q (t.logs log ++ past) u)
    {past : List α} (t : Turn) (h : P past t) : Q (logged log (t.executions globals) ++ past) (t.run globals) := by
  refine executions_induction (P := fun done => P (logged log done ++ past))
    (Q := fun done => Q (logged log done ++ past)) (fun done t u hp hr => ?_) (fun done t u hp hr => ?_) t h
  · rw [logged_append_toList, List.append_assoc]
    exact more _ t u hp hr
  · rw [logged_append_toList, List.append_assoc]
    exact last _ t u hp hr

theorem log_invariant {P : List α → Turn → Prop}
    (round : ∀ past t, P past t → P (t.logs log ++ past) (t.round globals).turn) {past : List α} (t : Turn)
    (h : P past t) : P (logged log (t.executions globals) ++ past) (t.run globals) :=
  log_induction (P := P) (Q := P) (fun past t _ h hr => turn_of_more hr ▸ round past t h)
    (fun past t _ h hr => turn_of_last hr ▸ round past t h) t h

end Log

end Turn

namespace Player

/-- The instructions that an update executes, in order, each with the turn at which it is executed. -/
def executions (p : Player) (dt : Single) (globals : Blackboard) (s : Swarm) : List (Turn × Instruction) :=
  if p.Runs dt then (p.begin dt s).executions globals else []

theorem next?_of_mem_executions {p : Player} {dt : Single} {globals : Blackboard} {s : Swarm} {u : Turn}
    {i : Instruction} (h : (u, i) ∈ p.executions dt globals s) : u.next? = some i := by
  unfold executions at h
  split at h
  · exact (Turn.next?_of_mem_executed h).2
  · cases h

/-- An update that runs begins with the instruction that the player is at. -/
theorem mem_executions_of_next? {p : Player} {dt : Single} {globals : Blackboard} {s : Swarm} {i : Instruction}
    (runs : p.Runs dt) (h : (p.begin dt s).next? = some i) : (p.begin dt s, i) ∈ p.executions dt globals s := by
  rw [executions, if_pos runs]
  exact Turn.mem_executions_of_next? h

/-- Whether a command from outside resets the player. -/
def isReset (p : Player) : Command → Bool
  | .play => p.status = .stopped ∨ p.status = .done
  | .pause => false
  | .stop | .reboot => true

/-- A command that resets a player leaves its status at most. -/
theorem command_of_isReset {p : Player} {c : Command} (h : p.isReset c = true) :
    ∃ status, p.command c = { p.reset with status } := by
  cases c with
  | play =>
      simp only [isReset, decide_eq_true_eq] at h
      rcases h with h | h
      · exact ⟨startStatus p.program, by simp only [command, play, h, reboot]⟩
      · exact ⟨startStatus p.program, by simp only [command, play, h, reboot]⟩
  | pause => cases h
  | stop => exact ⟨.stopped, rfl⟩
  | reboot => exact ⟨startStatus p.program, rfl⟩

/-- Any other command changes the status at most. -/
theorem command_of_not_isReset {p : Player} {c : Command} (h : p.isReset c = false) :
    ∃ status, p.command c = { p with status } := by
  cases c with
  | play =>
      simp only [isReset, decide_eq_false_iff_not, not_or] at h
      rw [command, play]
      split
      · exact ⟨p.status, rfl⟩
      · exact ⟨.playing, rfl⟩
      · exact absurd ‹_› h.1
      · exact absurd ‹_› h.2
  | pause =>
      rw [command, pause]
      split
      · exact ⟨.paused, rfl⟩
      · exact ⟨p.status, rfl⟩
  | stop => cases h
  | reboot => cases h

end Player

def Call.isUpdate : Call → Bool
  | update .. => true
  | command _ => false

/-- Whether the update ends with the round, as a number of updates. -/
def Round.ends : Round → Nat
  | more _ => 0
  | last _ => 1

namespace Player

variable {α : Type} {log : Blackboard → Turn → Instruction → List α} {reset : α}

/-- What a call adds to a log, newest first, with an entry for a reset by a command. -/
def logs (log : Blackboard → Turn → Instruction → List α) (reset : α) (p : Player) : Call → List α
  | .update dt globals swarm => Turn.logged (log globals) (p.executions dt globals swarm)
  | .command command => if p.isReset command then [reset] else []

/-- What every round of an update carries over, whatever the time and the status are, and every reset, holds over a
call, of the log and of the number of updates. -/
theorem call_induction {P : Nat → List α → Player → Prop}
    (round : ∀ globals n (t : Turn) past, P n past t.player →
      P (n + (t.round globals).ends) (t.logs (log globals) ++ past) (t.round globals).turn.player)
    (wait : ∀ n past p, P n past p → P (n + 1) past p)
    (time : ∀ n past p time wait, P n past p → P n past { p with time, wait })
    (status : ∀ n past p status, P n past p → P n past { p with status })
    (resets : ∀ n past (p : Player) status, P n past p → P n (reset :: past) { p.reset with status })
    {n : Nat} {past : List α} {p : Player} (h : P n past p) (c : Call) :
    P (n + if c.isUpdate then 1 else 0) (p.logs log reset c ++ past) (p.call c) := by
  cases c with
  | update dt globals swarm =>
      have begun : P n past (p.begin dt swarm).player := time _ _ _ _ _ h
      simp only [logs, executions, call, Call.isUpdate, if_true]
      by_cases runs : p.Runs dt
      · rw [if_pos runs, update_of_runs runs]
        refine Turn.log_induction (P := fun past t => P n past t.player) (Q := fun past t => P (n + 1) past t.player)
          (fun past t u hp hr => ?_) (fun past t u hp hr => ?_) (p.begin dt swarm) begun
        · have step := round globals n t past hp
          rwa [hr] at step
        · have step := round globals n t past hp
          rwa [hr] at step
      · rw [if_neg runs, update_of_not_runs runs]
        split
        · exact wait _ _ _ begun
        · exact wait _ _ _ h
  | command command =>
      simp only [logs, call]
      cases isReset : p.isReset command with
      | true =>
          obtain ⟨s, same⟩ := command_of_isReset isReset
          rw [same, if_pos rfl]
          exact resets _ _ _ s h
      | false =>
          obtain ⟨s, same⟩ := command_of_not_isReset isReset
          rw [same, if_neg Bool.false_ne_true]
          exact status _ _ _ s h

end Player

end Danmaku
