import Danmaku.Proofs.Condensing
import Danmaku.Proofs.History
import Danmaku.Proofs.Nesting

/-! The stamps of iterations and the counters of loops. A lap is the begin of an iteration, with the stamp that the frame
of its loop gets. The laps of a player over its whole life are read off what its updates execute. A loop is entered with
the count that was drawn for it, and its frame keeps how many iterations are left and how many are finished. Stamps are
given one after another. A reset closes the loops and drops what is kept, and it leaves the last stamp as it is, so the
stamps go on from there. An endless loop that has not waited ends the update when it goes back to its start, so each of
its iterations takes an update. -/

namespace Danmaku

/-- The begin of an iteration, or a reset. -/
inductive Lap where
  /-- The loop whose body starts here is entered, with so many iterations. -/
  | first (start : Nat) (count : Int32) (stamp : Nat)
  /-- The end of the loop whose body starts here goes back to its start. -/
  | next (start stamp : Nat)
  | reset
  deriving DecidableEq

namespace Lap

def stamp? : Lap → Option Nat
  | first _ _ stamp | next _ stamp => some stamp
  | reset => none

/-- The stamps that laps are given. -/
def stamps (laps : List Lap) : List Nat := laps.filterMap stamp?

/-- The count that the loop whose body starts here was last entered with, in laps newest first. -/
def count? (start : Nat) : List Lap → Option Int32
  | [] | reset :: _ => none
  | first s count _ :: past => if s = start then some count else count? start past
  | next .. :: past => count? start past

/-- How many iterations the loop whose body starts here has finished since it was entered. -/
def finished (start : Nat) : List Lap → Nat
  | [] | reset :: _ => 0
  | first s .. :: past => if s = start then 0 else finished start past
  | next s _ :: past => if s = start then finished start past + 1 else finished start past

/-- A lap that is not of the loop whose body starts here. -/
structure Apart (start : Nat) (lap : Lap) (past : List Lap) : Prop where
  count : count? start (lap :: past) = count? start past
  finished : finished start (lap :: past) = finished start past

variable {start s : Nat}

theorem apart_first (h : s ≠ start) (count : Int32) (stamp : Nat) (past : List Lap) :
    Apart start (first s count stamp) past := ⟨if_neg h, if_neg h⟩

theorem apart_next (h : s ≠ start) (stamp : Nat) (past : List Lap) : Apart start (next s stamp) past := ⟨rfl, if_neg h⟩

end Lap

namespace DrawCache

variable {c : DrawCache} {last : Nat}

/-- No stamp that is kept comes after this one. -/
def StampedUpTo (last : Nat) (c : DrawCache) : Prop := ∀ e ∈ c.entries, ∀ stamp ∈ e.2.stamp, stamp ≤ last

theorem stampedUpTo_empty (last : Nat) : StampedUpTo last {} := fun _ he => absurd he List.not_mem_nil

theorem StampedUpTo.mono (h : c.StampedUpTo last) {later : Nat} (le : last ≤ later) : c.StampedUpTo later :=
  fun e he stamp hs => Nat.le_trans (h e he stamp hs) le

theorem StampedUpTo.put (h : c.StampedUpTo last) (key : Nat × Channel) {kept : KeptDraw}
    (le : ∀ stamp ∈ kept.stamp, stamp ≤ last) : StampedUpTo last ⟨Entries.put key kept c.entries⟩ := by
  intro e he
  rcases Entries.mem_put he with rfl | he
  · exact le
  · exact h e he

/-- What is kept gets the stamp of an open loop, or none. -/
theorem StampedUpTo.keep (h : c.StampedUpTo last) {frames : List Frame} (le : ∀ f ∈ frames, f.stamp ≤ last)
    (key : Nat × Channel) (reroll : Reroll) (value : Payload) : (c.keep key reroll frames value).StampedUpTo last := by
  cases reroll with
  | always => exact h
  | once => exact h.put key nofun
  | atLoops rule =>
      refine h.put key fun stamp hs => ?_
      obtain ⟨f, at_depth, rfl⟩ := Option.map_eq_some_iff.1 hs
      exact le f (List.mem_of_getElem? at_depth)

end DrawCache

namespace Turn

variable {globals : Blackboard} {t u : Turn} {i : Instruction} {last : Nat}

theorem stampedUpTo_value {α : Type} [Blendable α] (cache : t.player.cache.StampedUpTo last)
    (le : ∀ f ∈ t.player.frames, f.stamp ≤ last) (globals : Blackboard) (p : Param α) (channel : Channel) :
    (t.value globals p channel).2.player.cache.StampedUpTo last := by
  simp only [value, drawing, Ledger.draw]
  split
  · exact cache
  · exact cache.keep le _ _ _

theorem stampedUpTo_answerAll (cache : t.player.cache.StampedUpTo last) (le : ∀ f ∈ t.player.frames, f.stamp ≤ last)
    (globals : Blackboard) (qs : List Query) : (t.answerAll globals qs).player.cache.StampedUpTo last := by
  induction qs generalizing t with
  | nil => exact cache
  | cons q qs ih =>
      have same := undisturbed_value t globals q.2.param q.1
      exact ih (stampedUpTo_value cache le globals q.2.param q.1) (same.frames.symm ▸ le)

theorem stampedUpTo_execute (cache : t.player.cache.StampedUpTo last) (le : ∀ f ∈ t.player.frames, f.stamp ≤ last)
    (globals : Blackboard) (i : Instruction) : (t.execute globals i).2.player.cache.StampedUpTo last := by
  by_cases stop : i.action = .command .stop .self
  · simp only [execute_eq_perform, perform, stop]
    exact DrawCache.stampedUpTo_empty last
  · by_cases reboot : i.action = .command .reboot .self
    · simp only [execute_eq_perform, perform, reboot]
      exact DrawCache.stampedUpTo_empty last
    · rw [cache_execute globals t i stop reboot]
      exact stampedUpTo_answerAll cache le globals i.queries

theorem stampedUpTo_round (cache : t.player.cache.StampedUpTo last) (le : ∀ f ∈ t.player.frames, f.stamp ≤ last)
    (globals : Blackboard) : (t.round globals).turn.player.cache.StampedUpTo last := by
  cases here : t.player.program.instructions[t.player.pointer]? with
  | none =>
      cases opened : t.player.frames with
      | nil =>
          rw [round_of_done here opened]
          exact cache
      | cons frame frames =>
          rw [round_of_unterminated here opened]
          exact cache
  | some i =>
      cases enabled : i.enabled with
      | false =>
          rw [round_of_disabled here enabled]
          exact cache
      | true =>
          rw [round_of_enabled here enabled, cache_follow]
          exact stampedUpTo_execute (t := t.count) cache le globals i

/-- The lap that the instruction at the pointer makes. The frame that the loop has afterwards says its start and its
stamp; the count is the value that is drawn. -/
def lap? (globals : Blackboard) (t : Turn) (i : Instruction) : Option Lap :=
  let after := t.count.execute globals i
  match i.action, after.1, after.2.player.frames with
  | .beginLoop iterations _, .next, frame :: _ =>
    some (.first frame.start (t.count.value globals iterations .main).1 frame.stamp)
  | .endLoop, .jump _, frame :: _ | .endLoop, .yieldAt _, frame :: _ => some (.next frame.start frame.stamp)
  | .command .stop .self, _, _ | .command .reboot .self, _, _ => some .reset
  | _, _, _ => none

theorem lap?_of_plain (plain : i.action.Plain) : t.lap? globals i = none := by
  unfold lap?
  cases action : i.action with
  | beginLoop =>
      rw [action] at plain
      cases plain.not_begin
  | endLoop =>
      rw [action] at plain
      cases plain.not_end
  | command command recipient =>
      rw [action] at plain
      cases recipient with
      | self =>
          cases command with
          | stop => cases plain.not_reset
          | reboot => cases plain.not_reset
          | _ => rfl
      | _ => cases command <;> rfl
  | _ => rfl

end Turn

/-- What a round does to the open loops and to the last stamp, by its lap. -/
inductive Looped (p : Player) : Option Lap → Round → Prop where
  | kept {r : Round} (lastStamp : r.turn.player.lastStamp = p.lastStamp) (frames : r.turn.player.frames <:+ p.frames) :
      Looped p none r
  | marked {u : Turn} (lastStamp : u.player.lastStamp = p.lastStamp)
      (frames : u.player.frames = p.frames.map ({ · with waited := true })) : Looped p none (.last u)
  | first {r : Round} (frame : Frame) (count : Int32) (lastStamp : r.turn.player.lastStamp = p.lastStamp + 1)
      (frames : r.turn.player.frames = frame :: p.frames) (stamp : frame.stamp = p.lastStamp + 1)
      (finished : frame.finished = 0) (remaining : frame.remaining = count.toInt) (waited : frame.waited = false)
      (turns : frame.endless = true ∨ 0 < frame.remaining) :
      Looped p (some (.first frame.start count frame.stamp)) r
  | next {r : Round} {frame : Frame} {frames : List Frame} (again : Frame)
      (lastStamp : r.turn.player.lastStamp = p.lastStamp + 1) (opened : p.frames = frame :: frames)
      (reopened : r.turn.player.frames = again :: frames) (start : again.start = frame.start)
      (stamp : again.stamp = p.lastStamp + 1) (finished : again.finished = frame.finished + 1)
      (waited : again.waited = false) (endless : again.endless = frame.endless)
      (turns : frame.endless = true ∧ (frame.waited = true ∨ r.ends = 1) ∨
        frame.endless = false ∧ 1 < frame.remaining ∧ again.remaining = frame.remaining - 1) :
      Looped p (some (.next again.start again.stamp)) r
  | reset {r : Round} (lastStamp : r.turn.player.lastStamp = p.lastStamp) (frames : r.turn.player.frames = []) :
      Looped p (some .reset) r

namespace Turn

variable {globals : Blackboard} {t u : Turn} {i : Instruction}

theorem looped_of_plain {flow : Flow} (plain : i.action.Plain) (h : Executed t i flow u) :
    Looped t.player none (u.follow flow) := by
  have kept {v : Turn} (same : Undisturbed t v) : v.player.frames <:+ t.player.frames := same.frames ▸ List.suffix_refl _
  cases h with
  | plain _ same => exact .kept same.lastStamp (kept (v := u) same)
  | @suspend v _ same time pos =>
      refine .marked same.lastStamp ?_
      rw [← same.frames]
      rfl
  | die _ same => exact .kept same.lastStamp (kept (v := u) same)
  | pause => exact .kept rfl (List.suffix_refl _)
  | pass begin | enter begin =>
      rw [plain.not_begin] at begin
      cases begin
  | stray last | close last | again last | idle last =>
      rw [plain.not_end] at last
      cases last
  | stop action | reboot action =>
      rw [action] at plain
      cases plain.not_reset

theorem looped_beginLoop {iterations : Param Int32} {endless : Bool} (action : i.action = .beginLoop iterations endless)
    (globals : Blackboard) : Looped t.player (t.lap? globals i)
      ((t.count.execute globals i).2.follow (t.count.execute globals i).1) := by
  let v := t.count.value globals iterations .main
  have same : Undisturbed t.count v.2 := undisturbed_value t.count globals iterations .main
  have executes : t.count.execute globals i = t.count.beginLoop globals iterations endless := by
    simp only [execute_eq_perform, perform, action]
  by_cases passed : !endless ∧ v.1.toInt ≤ 0
  · have passes : t.count.beginLoop globals iterations endless =
        (.jump (t.player.program.afterLoop t.player.pointer), v.2) := if_pos passed
    simp only [lap?, executes, action, passes]
    exact .kept same.lastStamp (same.frames ▸ List.suffix_refl _)
  · have turns : endless = true ∨ 0 < v.1.toInt := by
      cases endless with
      | true => exact Or.inl rfl
      | false => exact Or.inr (by simpa using passed)
    let frame : Frame :=
      { start := v.2.player.pointer + 1, remaining := v.1.toInt, endless, stamp := v.2.player.lastStamp + 1 }
    have opens : t.count.beginLoop globals iterations endless = (.next, v.2.enter v.1.toInt endless) := if_neg passed
    simp only [lap?, executes, action, opens]
    exact .first frame v.1 (congrArg (· + 1) same.lastStamp) (congrArg (frame :: ·) same.frames)
      (congrArg (· + 1) same.lastStamp) rfl rfl rfl turns

theorem looped_endLoop (action : i.action = .endLoop) (globals : Blackboard) : Looped t.player (t.lap? globals i)
    ((t.count.execute globals i).2.follow (t.count.execute globals i).1) := by
  have executes : t.count.execute globals i = t.count.endLoop := by simp only [execute_eq_perform, perform, action]
  have ends := executed_endLoop t.count i (by rw [action]; rfl)
  simp only [lap?, executes, action]
  generalize t.count.endLoop = r at ends
  obtain ⟨flow, u⟩ := r
  cases ends with
  | stray _ frames same => exact .kept same.lastStamp (same.frames ▸ List.suffix_refl _)
  | @close frame frames _ opened =>
      refine .kept rfl ?_
      rw [show t.player.frames = frame :: frames from opened]
      exact List.suffix_cons _ _
  | @again frame frames remaining _ opened turns =>
      refine .next (t.nextIteration frame remaining) rfl opened rfl rfl rfl rfl rfl rfl ?_
      exact turns.imp_left fun idle => ⟨idle.1, Or.inl idle.2.1⟩
  | @idle frame frames _ opened endless =>
      exact .next (t.nextIteration frame frame.remaining) rfl opened rfl rfl rfl rfl rfl rfl
        (Or.inl ⟨endless, Or.inr rfl⟩)
  | plain plain | suspend plain | die plain | pause plain =>
      rw [action] at plain
      cases plain.not_end
  | pass begin | enter begin =>
      rw [action] at begin
      cases begin
  | stop other | reboot other =>
      rw [action] at other
      cases other

theorem looped_execute (globals : Blackboard) (t : Turn) (i : Instruction) : Looped t.player (t.lap? globals i)
    ((t.count.execute globals i).2.follow (t.count.execute globals i).1) := by
  have of_plain (plain : i.action.Plain) : Looped t.player (t.lap? globals i)
      ((t.count.execute globals i).2.follow (t.count.execute globals i).1) := by
    rw [lap?_of_plain plain]
    exact looped_of_plain (t := t.count) plain (executed_execute t.count globals i)
  cases action : i.action with
  | beginLoop iterations endless => exact looped_beginLoop action globals
  | endLoop => exact looped_endLoop action globals
  | command command recipient =>
      cases recipient with
      | self =>
          cases command with
          | play => exact of_plain (by rw [action]; exact ⟨rfl, rfl, rfl⟩)
          | pause => exact of_plain (by rw [action]; exact ⟨rfl, rfl, rfl⟩)
          | stop | reboot =>
              simp only [lap?, execute_eq_perform, perform, action]
              exact .reset rfl rfl
      | _ => exact of_plain (by rw [action]; cases command <;> exact ⟨rfl, rfl, rfl⟩)
  | _ => exact of_plain (by rw [action]; exact ⟨rfl, rfl, rfl⟩)

/-- The lap of the round, if it makes one. -/
def roundLap? (globals : Blackboard) (t : Turn) : Option Lap := t.next?.bind (t.lap? globals)

theorem looped_round (globals : Blackboard) (t : Turn) :
    Looped t.player (t.roundLap? globals) (t.round globals) := by
  unfold roundLap? next?
  cases here : t.player.program.instructions[t.player.pointer]? with
  | none =>
      cases opened : t.player.frames with
      | nil =>
          rw [round_of_done here opened]
          exact .kept rfl (List.suffix_refl _)
      | cons frame frames =>
          rw [round_of_unterminated here opened]
          exact .kept rfl (opened ▸ List.suffix_cons _ _)
  | some i =>
      cases enabled : i.enabled with
      | false =>
          rw [round_of_disabled here enabled, Option.filter_some_neg (by simp [enabled])]
          exact .kept rfl (List.suffix_refl _)
      | true =>
          rw [round_of_enabled here enabled, Option.filter_some_pos (by simp [enabled])]
          exact looped_execute globals t i

theorem logs_lap? (globals : Blackboard) (t : Turn) :
    t.logs (fun u i => (u.lap? globals i).toList) = (t.roundLap? globals).toList := by
  unfold logs roundLap?
  cases t.next? <;> rfl

end Turn

namespace Player

/-- The laps of a call, newest first. -/
def lapsOf : Player → Call → List Lap := logs (fun globals u i => (u.lap? globals i).toList) .reset

/-- The laps of calls in order, newest first. -/
def laps (p : Player) : List Call → List Lap
  | [] => []
  | c :: calls => (p.call c).laps calls ++ p.lapsOf c

/-- What every round of an update carries over, whatever the time and the status are, and every reset holds over a
life, of all its laps and updates. -/
theorem laps_induction {P : Nat → List Lap → Player → Prop}
    (round : ∀ globals n (t : Turn) past, P n past t.player →
      P (n + (t.round globals).ends) ((t.roundLap? globals).toList ++ past) (t.round globals).turn.player)
    (wait : ∀ n past p, P n past p → P (n + 1) past p)
    (time : ∀ n past p time wait, P n past p → P n past { p with time, wait })
    (status : ∀ n past p status, P n past p → P n past { p with status })
    (reset : ∀ n past (p : Player) status, P n past p → P n (.reset :: past) { p.reset with status })
    {n : Nat} {past : List Lap} {p : Player} (h : P n past p) (calls : List Call) :
    P (n + calls.countP Call.isUpdate) (p.laps calls ++ past) (p.after calls) := by
  induction calls generalizing n past p with
  | nil => exact h
  | cons c calls ih =>
      have called : P (n + if c.isUpdate then 1 else 0) (p.lapsOf c ++ past) (p.call c) :=
        call_induction (fun globals n t past hp => Turn.logs_lap? globals t ▸ round globals n t past hp) wait time
          status reset h c
      rw [laps, List.append_assoc, List.countP_cons, Nat.add_comm (calls.countP _), ← Nat.add_assoc]
      exact ih called

end Player

/-- The counters of the frame of an open loop, after so many updates. -/
structure Frame.Tracked (updates : Nat) (past : List Lap) (f : Frame) : Prop where
  finished : f.finished = .ofNat (Lap.finished f.start past)
  counted : f.endless = false → 1 ≤ f.remaining ∧
    ∃ count, Lap.count? f.start past = some count ∧ f.remaining + Lap.finished f.start past = count.toInt
  endless : f.endless = true → Lap.finished f.start past + f.waited.toNat ≤ updates

namespace Frame.Tracked

variable {updates : Nat} {past : List Lap} {f : Frame}

theorem mono (h : f.Tracked updates past) (more : Nat) : f.Tracked (updates + more) past :=
  ⟨h.finished, h.counted, fun endless => Nat.le_add_right_of_le (h.endless endless)⟩

theorem apart (h : f.Tracked updates past) {lap : Lap} (other : Lap.Apart f.start lap past) :
    f.Tracked updates (lap :: past) := by
  refine ⟨?_, ?_, ?_⟩
  · rw [other.finished]
    exact h.finished
  · rw [other.finished, other.count]
    exact h.counted
  · rw [other.finished]
    exact h.endless

/-- Time passes in an update. -/
theorem marked (h : f.Tracked updates past) : ({ f with waited := true } : Frame).Tracked (updates + 1) past :=
  ⟨h.finished, h.counted, fun endless => Nat.succ_le_succ (Nat.le_trans (Nat.le_add_right _ _) (h.endless endless))⟩

theorem first {count : Int32} (finished : f.finished = 0) (remaining : f.remaining = count.toInt)
    (waited : f.waited = false) (turns : f.endless = true ∨ 0 < f.remaining) :
    f.Tracked updates (.first f.start count f.stamp :: past) := by
  have none : Lap.finished f.start (.first f.start count f.stamp :: past) = 0 := if_pos rfl
  refine ⟨?_, fun counted => ⟨?_, count, if_pos rfl, ?_⟩, fun _ => ?_⟩
  · rw [none, finished]
    rfl
  · rw [counted] at turns
    exact turns.resolve_left Bool.false_ne_true
  · rw [none, remaining]
    exact Int.add_zero _
  · rw [none, waited]
    exact Nat.zero_le _

/-- Going back to the start, a loop has finished one more iteration. -/
theorem next (h : f.Tracked updates past) {again : Frame} {ends : Nat} (start : again.start = f.start)
    (finished : again.finished = f.finished + 1) (waited : again.waited = false) (endless : again.endless = f.endless)
    (turns : f.endless = true ∧ (f.waited = true ∨ ends = 1) ∨
      f.endless = false ∧ 1 < f.remaining ∧ again.remaining = f.remaining - 1) (stamp : Nat) :
    again.Tracked (updates + ends) (.next again.start stamp :: past) := by
  have one : Lap.finished again.start (.next again.start stamp :: past) = Lap.finished f.start past + 1 := by
    rw [Lap.finished, if_pos rfl, start]
  refine ⟨?_, fun counted => ?_, fun on => ?_⟩
  · rw [one, finished, h.finished, UInt32.ofNat_add]
    rfl
  · rw [endless] at counted
    obtain ⟨-, count, entered, sum⟩ := h.counted counted
    rcases turns with ⟨on, -⟩ | ⟨-, left, remaining⟩
    · rw [counted] at on
      cases on
    · refine ⟨by omega, count, ?_, ?_⟩
      · rw [start]
        exact entered
      · rw [one, remaining]
        omega
  · rw [endless] at on
    have paced := h.endless on
    rw [one, waited, Bool.toNat_false]
    rcases turns with ⟨-, waited | last⟩ | ⟨counted, -⟩
    · rw [waited, Bool.toNat_true] at paced
      omega
    · omega
    · rw [counted] at on
      cases on

/-- The iterations of a counted loop are too few to overflow a counter. -/
theorem toNat_finished (h : f.Tracked updates past) (counted : f.endless = false) :
    f.finished.toNat = Lap.finished f.start past := by
  obtain ⟨left, count, -, sum⟩ := h.counted counted
  have small := count.toInt_lt
  have few : Lap.finished f.start past < 2 ^ 32 := by omega
  rw [h.finished]
  exact UInt32.toNat_ofNat_of_lt' few

end Frame.Tracked

/-- The laps that a player can have had in so many updates. -/
structure Stamped (updates : Nat) (past : List Lap) (p : Player) : Prop where
  nested : p.Nested
  ascending : (p.frames.map (·.stamp)).Pairwise (· > ·)
  stamp_le : ∀ f ∈ p.frames, f.stamp ≤ p.lastStamp
  tracked : ∀ f ∈ p.frames, f.Tracked updates past
  cache : p.cache.StampedUpTo p.lastStamp
  given : (Lap.stamps past).reverse = List.range' 1 p.lastStamp

namespace Stamped

variable {updates : Nat} {past : List Lap} {p q : Player}

theorem nil (program : Program) (emitter : ProjectileId) (slot : UInt32) :
    Stamped 0 [] (.ofProgram program emitter slot) where
  nested := Player.nested_ofProgram program emitter slot
  ascending := .nil
  stamp_le := fun _ hf => absurd hf List.not_mem_nil
  tracked := fun _ hf => absurd hf List.not_mem_nil
  cache := DrawCache.stampedUpTo_empty 0
  given := rfl

/-- Only the place of a player, its open loops and what it keeps count. -/
theorem congr (h : Stamped updates past p) (nested : q.Nested) (frames : q.frames = p.frames) (cache : q.cache = p.cache)
    (lastStamp : q.lastStamp = p.lastStamp) : Stamped updates past q where
  nested := nested
  ascending := frames ▸ h.ascending
  stamp_le := frames ▸ lastStamp ▸ h.stamp_le
  tracked := frames ▸ h.tracked
  cache := cache ▸ lastStamp ▸ h.cache
  given := lastStamp ▸ h.given

theorem mono (h : Stamped updates past p) (more : Nat) : Stamped (updates + more) past p :=
  { h with tracked := fun f hf => (h.tracked f hf).mono more }

theorem reset (h : Stamped updates past p) (nested : q.Nested) (frames : q.frames = [])
    (cache : q.cache.StampedUpTo p.lastStamp) (lastStamp : q.lastStamp = p.lastStamp) :
    Stamped updates (.reset :: past) q := by
  refine ⟨nested, ?_, ?_, ?_, lastStamp ▸ cache, lastStamp ▸ h.given⟩
  · rw [frames]
    exact .nil
  · rw [frames]
    exact fun _ hf => absurd hf List.not_mem_nil
  · rw [frames]
    exact fun _ hf => absurd hf List.not_mem_nil

/-- The frame of a loop that begins an iteration gets a new stamp, and the loops around it stay as they are. -/
theorem began (h : Stamped updates past p) {lap : Lap} {frame : Frame} {outer : List Frame} (nested : q.Nested)
    (cache : q.cache.StampedUpTo p.lastStamp) (lastStamp : q.lastStamp = p.lastStamp + 1)
    (frames : q.frames = frame :: outer) (older : outer <:+ p.frames) (stamp : frame.stamp = p.lastStamp + 1)
    (stamped : lap.stamp? = some frame.stamp) (others : ∀ start, start < frame.start → Lap.Apart start lap past)
    {ends : Nat} (tracked : frame.Tracked (updates + ends) (lap :: past)) : Stamped (updates + ends) (lap :: past) q := by
  refine ⟨nested, ?_, ?_, ?_, ?_, ?_⟩
  · rw [frames, List.map_cons, List.pairwise_cons]
    refine ⟨List.forall_mem_map.2 fun f hf => ?_, h.ascending.sublist (older.sublist.map _)⟩
    rw [stamp]
    exact Nat.lt_succ_of_le (h.stamp_le f (older.subset hf))
  · rw [frames, lastStamp]
    refine List.forall_mem_cons.2 ⟨Nat.le_of_eq stamp, fun f hf => ?_⟩
    exact Nat.le_succ_of_le (h.stamp_le f (older.subset hf))
  · rw [frames]
    refine List.forall_mem_cons.2 ⟨tracked, fun f hf => ?_⟩
    -- The loops around it start before it, so the lap is not one of theirs.
    have starts := nested.pairwise_start
    rw [frames, List.map_cons] at starts
    have before : f.start < frame.start := List.rel_of_pairwise_cons starts (List.mem_map_of_mem hf)
    exact ((h.tracked f (older.subset hf)).apart (others f.start before)).mono ends
  · rw [lastStamp]
    exact cache.mono (Nat.le_succ _)
  · have newest : Lap.stamps (lap :: past) = frame.stamp :: Lap.stamps past := List.filterMap_cons_some stamped
    rw [newest, List.reverse_cons, h.given, stamp, lastStamp, List.range'_1_concat, Nat.add_comm 1]

theorem looped (h : Stamped updates past p) {lap : Option Lap} {r : Round} (l : Looped p lap r)
    (nested : r.turn.player.Nested) (cache : r.turn.player.cache.StampedUpTo p.lastStamp) :
    Stamped (updates + r.ends) (lap.toList ++ past) r.turn.player := by
  cases l with
  | kept lastStamp frames =>
      refine mono ⟨nested, h.ascending.sublist (frames.sublist.map _), ?_, ?_, lastStamp ▸ cache, lastStamp ▸ h.given⟩ _
      · rw [lastStamp]
        exact fun f hf => h.stamp_le f (frames.subset hf)
      · exact fun f hf => h.tracked f (frames.subset hf)
  | @marked u lastStamp frames =>
      change u.player.cache.StampedUpTo _ at cache
      refine ⟨nested, ?_, ?_, ?_, lastStamp ▸ cache, lastStamp ▸ h.given⟩
      · rw [Round.turn, frames, List.map_map]
        exact h.ascending
      · rw [Round.turn, frames, lastStamp]
        exact List.forall_mem_map.2 h.stamp_le
      · rw [Round.turn, frames]
        exact List.forall_mem_map.2 fun f hf => (h.tracked f hf).marked
  | first frame count lastStamp frames stamp finished remaining waited turns =>
      refine h.began nested cache lastStamp frames (List.suffix_refl _) stamp rfl (fun start before => ?_)
        (.first finished remaining waited turns)
      exact Lap.apart_first (Nat.ne_of_gt before) count frame.stamp past
  | @next _ frame frames again lastStamp opened reopened start stamp finished waited endless turns =>
      have here : frame ∈ p.frames := opened ▸ List.mem_cons_self
      refine h.began nested cache lastStamp reopened (opened ▸ List.suffix_cons _ _) stamp rfl (fun start before => ?_)
        ((h.tracked frame here).next start finished waited endless turns again.stamp)
      exact Lap.apart_next (Nat.ne_of_gt before) again.stamp past
  | reset lastStamp frames => exact (h.reset nested frames cache lastStamp).mono _

theorem round {t : Turn} (h : Stamped updates past t.player) (globals : Blackboard) :
    Stamped (updates + (t.round globals).ends) ((t.roundLap? globals).toList ++ past) (t.round globals).turn.player :=
  h.looped (Turn.looped_round globals t) ((Turn.rounded_round globals t).nested_turn h.nested)
    (Turn.stampedUpTo_round h.cache h.stamp_le globals)

theorem after (h : Stamped updates past p) (calls : List Call) :
    Stamped (updates + calls.countP Call.isUpdate) (p.laps calls ++ past) (p.after calls) :=
  Player.laps_induction (P := Stamped) (fun globals _ _ _ h => h.round globals) (fun _ _ _ h => h.mono 1)
    (fun _ _ _ _ _ h => h.congr h.nested rfl rfl rfl) (fun _ _ _ _ h => h.congr h.nested rfl rfl rfl)
    (fun _ _ p _ h => h.reset (.nil p.program) rfl (DrawCache.stampedUpTo_empty p.lastStamp) rfl) h calls

theorem ofProgram (program : Program) (emitter : ProjectileId) (slot : UInt32) (calls : List Call) :
    Stamped (calls.countP Call.isUpdate) ((Player.ofProgram program emitter slot).laps calls)
      ((Player.ofProgram program emitter slot).after calls) := by
  have h := after (.nil program emitter slot) calls
  rwa [List.append_nil, Nat.zero_add] at h

end Stamped

namespace Player

/-- The open loops of a player and its stamps, over every life. A loop that is counted has an iteration left, and what
is left and what is finished make the count that was drawn when the loop was entered. The stamps of the open loops
ascend from the outermost to the innermost, and neither they nor those of the kept draws are after the last one. Over
the whole life, resets included, the iterations get the stamps `1, 2, 3, …` in the order in which they begin, so none is
given twice. -/
theorem laps_stamped (program : Program) (emitter : ProjectileId) (slot : UInt32) (calls : List Call) :
    let p := (ofProgram program emitter slot).after calls
    let laps := (ofProgram program emitter slot).laps calls
    (∀ f ∈ p.frames, f.endless = false → 1 ≤ f.remaining ∧
      ∃ count, Lap.count? f.start laps = some count ∧ f.remaining + f.finished.toNat = count.toInt) ∧
    (p.frames.reverse.map (·.stamp)).Pairwise (· < ·) ∧
    (∀ f ∈ p.frames, f.stamp ≤ p.lastStamp) ∧
    (∀ e ∈ p.cache.entries, ∀ stamp, e.2.stamp = some stamp → stamp ≤ p.lastStamp) ∧
    (Lap.stamps laps).reverse = List.range' 1 p.lastStamp ∧
    (Lap.stamps laps).Nodup := by
  intro p laps
  have stamped : Stamped (calls.countP Call.isUpdate) laps p := .ofProgram program emitter slot calls
  refine ⟨fun f hf counted => ?_, ?_, stamped.stamp_le, fun e he stamp hs => stamped.cache e he stamp hs, stamped.given,
    ?_⟩
  · obtain ⟨left, count, entered, sum⟩ := (stamped.tracked f hf).counted counted
    rw [← (stamped.tracked f hf).toNat_finished counted] at sum
    exact ⟨left, count, entered, sum⟩
  · rw [List.map_reverse, List.pairwise_reverse]
    exact stamped.ascending
  · rw [← List.nodup_reverse, stamped.given]
    exact List.nodup_range'

end Player

end Danmaku
