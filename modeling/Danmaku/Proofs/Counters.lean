import Danmaku.Proofs.RunOnce
import Danmaku.Proofs.ShotNumbers
import Danmaku.Proofs.Stamps
import Danmaku.Proofs.Unrolling

/-! The counters of a player, over every life and without a bound on what it does. They are words of 32 bits, and each
shows the true number modulo `2 ^ 32`. A counted loop finishes fewer than `2 ^ 31` iterations, an endless one at most
one in every update, and an update closes no more loops at the end of the list than the program begins, so these
counters overflow only in lives and programs of such a size. Shots are another matter: the counts of nested loops
multiply, so one update of a program of five instructions can fire more than `2 ^ 32` of them, and their numbers
repeat. -/

namespace Danmaku

theorem nodup_map_ofNat_range_iff (n : Nat) : ((List.range n).map UInt32.ofNat).Nodup ↔ n ≤ 2 ^ 32 := by
  constructor
  · intro nodup
    by_contra many
    have first : 0 ∈ List.range n := List.mem_range.2 (by omega)
    have again : 2 ^ 32 ∈ List.range n := List.mem_range.2 (by omega)
    cases List.inj_on_of_nodup_map nodup first again rfl
  · intro few
    have toNat_ofNat {x : Nat} (hx : x ∈ List.range n) : (UInt32.ofNat x).toNat = x :=
      UInt32.toNat_ofNat_of_lt' (Nat.lt_of_lt_of_le (List.mem_range.1 hx) few)
    refine List.nodup_range.map_on fun x hx y hy same => ?_
    rw [← toNat_ofNat hx, same, toNat_ofNat hy]

namespace Beat

variable {older : List Beat} {muzzles : List Muzzle}

/-- The shots after a reset have different numbers as long as the numbers last. -/
theorem Numbered.nodup_iff (h : Numbered (muzzles.map fired ++ older)) (fresh : sinceReset older = 0) :
    (muzzles.map (·.shotIndex)).Nodup ↔ muzzles.length ≤ 2 ^ 32 := by
  rw [← List.nodup_reverse, ← List.map_reverse, h.stretch fresh]
  exact nodup_map_ofNat_range_iff muzzles.length

end Beat

namespace Turn

variable {globals : Blackboard} {t : Turn}

/-- The next round closes a loop at the end of the list. -/
def closesLoop (t : Turn) : Bool :=
  (t.player.program.instructions[t.player.pointer]?).isNone && !t.player.frames.isEmpty

/-- How many loops the update closes at the end of the list. -/
def repairs (globals : Blackboard) (t : Turn) : Nat := (t.rounds globals).countP closesLoop

theorem repairs_eq (globals : Blackboard) (t : Turn) :
    t.repairs globals = t.closesLoop.toNat +
      match t.round globals with
      | .more u => u.repairs globals
      | .last _ => 0 := by
  rw [repairs, rounds_eq, List.countP_cons, Nat.add_comm]
  congr 1
  · cases t.closesLoop <;> rfl
  · cases t.round globals <;> rfl

theorem repaired_round_eq (globals : Blackboard) (t : Turn) :
    (t.round globals).turn.report.repaired = t.report.repaired + .ofNat t.closesLoop.toNat := by
  unfold closesLoop
  cases here : t.player.program.instructions[t.player.pointer]? with
  | none =>
      cases opened : t.player.frames with
      | nil =>
          rw [round_of_done here opened]
          exact (UInt32.add_zero _).symm
      | cons frame frames =>
          rw [round_of_unterminated here opened]
          rfl
  | some i =>
      cases enabled : i.enabled with
      | false =>
          rw [round_of_disabled here enabled]
          exact (UInt32.add_zero _).symm
      | true =>
          rw [round_of_enabled here enabled, repaired_follow, repaired_execute]
          exact (UInt32.add_zero _).symm

/-- The report counts the loops that the update closes at the end of the list. -/
theorem repaired_run (globals : Blackboard) (t : Turn) :
    (t.run globals).report.repaired = t.report.repaired + .ofNat (t.repairs globals) := by
  refine rounds_invariant
    (P := fun done u => u.report.repaired = t.report.repaired + .ofNat (done.countP closesLoop))
    (fun done u told => ?_) t (UInt32.add_zero _).symm
  have one : [u].countP closesLoop = u.closesLoop.toNat := by cases closed : u.closesLoop <;> simp [closed]
  rw [repaired_round_eq, List.countP_append, one, UInt32.ofNat_add, ← UInt32.add_assoc, ← told]

/-- Past the list, all open loops are closed. -/
theorem repairs_of_past (past : t.player.program.instructions[t.player.pointer]? = none) :
    t.repairs globals = t.player.frames.length := by
  induction frames : t.player.frames generalizing t with
  | nil =>
      rw [repairs_eq, round_of_done past frames, closesLoop, frames]
      simp
  | cons frame outer ih =>
      rw [repairs_eq, round_of_unterminated past frames, closesLoop, past, frames]
      have rest := ih (t := t.repair outer) past rfl
      simp only [rest, List.length_cons]
      exact Nat.add_comm 1 _

/-- An update closes no more loops at the end of the list than the program begins. -/
theorem repairs_le (t : Turn) (nested : t.player.Nested) (globals : Blackboard) :
    t.repairs globals ≤ t.player.program.instructions.countP Instruction.opens := by
  cases here : t.player.program.instructions[t.player.pointer]? with
  | none =>
      calc t.repairs globals = (t.player.frames.map (·.start - 1)).length := by
            rw [repairs_of_past here, List.length_map]
        _ ≤ (t.player.program.openLoops t.player.pointer).length := nested.suffix.length_le
        _ ≤ (t.player.program.instructions.take t.player.pointer).countP Instruction.opens :=
            Program.length_openLoops_le nested.position_le
        _ ≤ t.player.program.instructions.countP Instruction.opens := (List.take_sublist _ _).countP_le
  | some i =>
      have inside : t.closesLoop = false := by rw [closesLoop, here, Option.isNone_some, Bool.false_and]
      have rounded := rounded_round globals t
      rw [repairs_eq, inside, Bool.toNat_false, Nat.zero_add]
      cases hr : t.round globals with
      | more u =>
          rw [hr] at rounded
          have program : u.player.program = t.player.program := rounded.pattern_turn.program
          have rest := repairs_le u (rounded.nested_turn nested) globals
          rwa [program] at rest
      | last u => exact Nat.zero_le _
termination_by t.player.rank
decreasing_by exact rank_lt_of_round hr

end Turn

namespace Player

/-- How many loops an update closes at the end of the list. -/
def repairs (p : Player) (dt : Single) (globals : Blackboard) (swarm : Swarm) : Nat :=
  if p.Runs dt then (p.begin dt swarm).repairs globals else 0

theorem repaired_update_eq (p : Player) (dt : Single) (globals : Blackboard) (swarm : Swarm) :
    (p.update dt globals swarm).report.repaired = .ofNat (p.repairs dt globals swarm) := by
  unfold repairs
  by_cases runs : p.Runs dt
  · rw [if_pos runs, update_of_runs runs, Turn.repaired_run]
    exact UInt32.zero_add _
  · rw [if_neg runs, update_of_not_runs runs]
    split <;> rfl

theorem repairs_le {p : Player} (nested : p.Nested) (dt : Single) (globals : Blackboard) (swarm : Swarm) :
    p.repairs dt globals swarm ≤ p.program.instructions.countP Instruction.opens := by
  unfold repairs
  split
  · exact Turn.repairs_le (p.begin dt swarm) nested globals
  · exact Nat.zero_le _

end Player

namespace Turn

variable {t : Turn}

/-- A constant is drawn without a trace. -/
theorem value_constant {α : Type} [Blendable α] (t : Turn) (globals : Blackboard) (x : α) (channel : Channel) :
    t.value globals (.fixed x) channel = (x, t) := by
  have draws : t.player.cache.needsDraw (t.player.pointer, channel) .always t.player.frames = true := by
    unfold DrawCache.needsDraw
    split <;> rfl
  have unused : t.player.cache.reusable? α (t.player.pointer, channel) (Param.fixed x).reroll t.player.frames = none :=
    if_pos draws
  simp only [value, drawing, Ledger.draw, unused, Param.draw_of_fixed (p := .fixed x) rfl]
  simp [DrawCache.keep, Param.fixed, Tree.fixed, Tree.root, Tree.ofRoot]

theorem round_begin (globals : Blackboard) {count : Int32}
    (here : t.player.program.instructions[t.player.pointer]? = some (.beginLoop count)) (pos : 0 < count.toInt) :
    t.round globals = .more (t.count.enter count.toInt false).advance := by
  have entered : ¬(!false ∧ count.toInt ≤ 0) := fun h => by omega
  rw [round_of_enabled here rfl]
  simp only [execute, Instruction.beginLoop, beginLoop, value_constant, if_neg entered]
  rfl

theorem round_shoot (globals : Blackboard) {shot : Shot}
    (here : t.player.program.instructions[t.player.pointer]? = some (.shoot shot)) :
    t.round globals = .more (t.count.shoot globals shot).advance := by
  rw [round_of_enabled here rfl]
  rfl

section EndLoop

variable (globals : Blackboard) {frame : Frame} {frames : List Frame}
  (here : t.player.program.instructions[t.player.pointer]? = some .endLoop)
  (opened : t.player.frames = frame :: frames) (counted : frame.endless = false)

include here opened counted

theorem round_close (ended : frame.remaining ≤ 1) :
    t.round globals = .more ({ t.count with player := { t.player with frames } } : Turn).advance := by
  have opened : t.count.player.frames = frame :: frames := opened
  rw [round_of_enabled here rfl]
  simp only [execute, Instruction.endLoop, endLoop, opened, counted, Bool.false_eq_true, if_false, if_pos ended]
  rfl

theorem round_again (left : 1 < frame.remaining) :
    t.round globals = .more ((t.count.again frame frames (frame.remaining - 1)).moveTo frame.start) := by
  have opened : t.count.player.frames = frame :: frames := opened
  have more : ¬frame.remaining ≤ 1 := by omega
  rw [round_of_enabled here rfl]
  simp only [execute, Instruction.endLoop, endLoop, opened, counted, Bool.false_eq_true, if_false, if_neg more]
  rfl

end EndLoop

theorem length_muzzles_shoot (t : Turn) (globals : Blackboard) (shot : Shot) :
    (t.shoot globals shot).muzzles.length = t.muzzles.length + 1 := by
  let v := t.drawing fun l =>
    ((shot.draw (t.view globals) l.stage).1, { l with stage := (shot.draw (t.view globals) l.stage).2 })
  have pushed (muzzle : Muzzle) := muzzles_push v.2 (.effect (.shoot v.1 muzzle))
  rw [(quiet_drawing t _).muzzles] at pushed
  exact (congrArg List.length (pushed _)).trans List.length_append

end Turn

/-- A shot in two nested loops. -/
def Program.barrage (waves shots : Int32) : Program where
  id := 1
  instructions := [.beginLoop waves, .beginLoop shots, .shoot (.ofCount 1 0 ⟨7⟩), .endLoop, .endLoop]

/-- The frame of a counted loop with its start and so many iterations left. -/
structure Frame.Left (f : Frame) (start left : Nat) : Prop where
  start : f.start = start
  counted : f.endless = false
  remaining : f.remaining = left

namespace Barrage

/-- How many shots are due at a place of a barrage of `m` waves of `n` shots, with these loops open. -/
inductive Due (m n : Nat) : Nat → List Frame → Nat → Prop where
  | start : Due m n 0 [] (m * n)
  | wave {f : Frame} {k : Nat} (waves : f.Left 1 (k + 1)) : Due m n 1 [f] ((k + 1) * n)
  | shot {f g : Frame} {k l : Nat} (shots : g.Left 2 (l + 1)) (waves : f.Left 1 (k + 1)) :
      Due m n 2 [g, f] (l + 1 + k * n)
  | fired {f g : Frame} {k l : Nat} (shots : g.Left 2 (l + 1)) (waves : f.Left 1 (k + 1)) :
      Due m n 3 [g, f] (l + k * n)
  | ended {f : Frame} {k : Nat} (waves : f.Left 1 (k + 1)) : Due m n 4 [f] (k * n)
  | past : Due m n 5 [] 0

/-- A barrage under way, with the shots that it has fired and those that are due. -/
structure Running (waves shots : Int32) (m n : Nat) (t : Turn) : Prop where
  program : t.player.program = .barrage waves shots
  due : ∃ due, Due m n t.player.pointer t.player.frames due ∧ t.muzzles.length + due = m * n

variable {waves shots : Int32} {m n : Nat} {t : Turn}

theorem left_entered {count : Int32} {start s k stamp : Nat} (at_start : s = start) (hk : count.toInt = k) (pos : 0 < k) :
    ({ start := s, remaining := count.toInt, stamp } : Frame).Left start (k - 1 + 1) :=
  ⟨at_start, rfl, by rw [Nat.sub_add_cancel pos]; exact hk⟩

theorem left_again {f again : Frame} {start left : Nat} (h : f.Left start (left + 1)) (same : again.start = f.start)
    (counted : again.endless = f.endless) (remaining : again.remaining = f.remaining - 1) : again.Left start left :=
  ⟨same.trans h.start, counted.trans h.counted, by rw [remaining, h.remaining]; omega⟩

theorem Running.begin (waves shots : Int32) (m n : Nat) (emitter : ProjectileId) (slot : UInt32) (dt : Single)
    (swarm : Swarm) :
    Running waves shots m n ((Player.ofProgram (.barrage waves shots) emitter slot).begin dt swarm) where
  program := rfl
  due := ⟨m * n, .start, Nat.zero_add _⟩

/-- Where the update goes on, no shot is lost; where it ends, none is due. -/
theorem Running.round (hm : waves.toInt = m) (hn : shots.toInt = n) (m_pos : 0 < m) (n_pos : 0 < n)
    (h : Running waves shots m n t) (globals : Blackboard) :
    (∃ u, t.round globals = .more u ∧ Running waves shots m n u) ∨
      ∃ u, t.round globals = .last u ∧ u.muzzles.length = m * n := by
  obtain ⟨program, due, at_place, sum⟩ := h
  have here (k : Nat) : t.player.program.instructions[k]? = (Program.barrage waves shots).instructions[k]? := by
    rw [program]
  generalize pointer_eq : t.player.pointer = pointer at at_place
  generalize frames_eq : t.player.frames = frames at at_place
  cases at_place with
  | start =>
      have next := Turn.round_begin globals (by rw [pointer_eq, here]; rfl) (by omega : 0 < waves.toInt)
      let frame : Frame :=
        { start := t.player.pointer + 1, remaining := waves.toInt, stamp := t.player.lastStamp + 1 }
      have entered : frame.Left 1 (m - 1 + 1) := left_entered (congrArg (· + 1) pointer_eq) hm m_pos
      have due := Due.wave (m := m) (n := n) entered
      rw [Nat.sub_add_cancel m_pos] at due
      refine Or.inl ⟨_, next, program, _, ?_, sum⟩
      change Due m n (t.player.pointer + 1) (frame :: t.player.frames) _
      rwa [pointer_eq, frames_eq]
  | @wave f k waves =>
      have next := Turn.round_begin globals (by rw [pointer_eq, here]; rfl) (by omega : 0 < shots.toInt)
      let frame : Frame :=
        { start := t.player.pointer + 1, remaining := shots.toInt, stamp := t.player.lastStamp + 1 }
      have entered : frame.Left 2 (n - 1 + 1) := left_entered (congrArg (· + 1) pointer_eq) hn n_pos
      have due := Due.shot (m := m) (n := n) entered waves
      rw [Nat.sub_add_cancel n_pos, Nat.add_comm, ← Nat.succ_mul] at due
      refine Or.inl ⟨_, next, program, _, ?_, sum⟩
      change Due m n (t.player.pointer + 1) (frame :: t.player.frames) _
      rwa [pointer_eq, frames_eq]
  | @shot f g k l shots waves =>
      have next := Turn.round_shoot globals (by rw [pointer_eq, here]; rfl)
      refine Or.inl ⟨_, next, program, l + k * n, ?_, ?_⟩
      · change Due m n (t.player.pointer + 1) t.player.frames _
        rw [pointer_eq, frames_eq]
        exact .fired shots waves
      · change (t.count.shoot globals _).muzzles.length + _ = _
        rw [Turn.length_muzzles_shoot]
        change t.muzzles.length + 1 + _ = _
        omega
  | @fired f g k l shots waves =>
      have last : t.player.program.instructions[t.player.pointer]? = some .endLoop := by rw [pointer_eq, here]; rfl
      cases l with
      | zero =>
          have next := Turn.round_close globals last frames_eq shots.counted (by rw [shots.remaining]; decide)
          refine Or.inl ⟨_, next, program, k * n, ?_, by rw [Nat.zero_add] at sum; exact sum⟩
          change Due m n (t.player.pointer + 1) [f] _
          rw [pointer_eq]
          exact .ended waves
      | succ l =>
          have next := Turn.round_again globals last frames_eq shots.counted (by rw [shots.remaining]; omega)
          refine Or.inl ⟨_, next, program, _, ?_, sum⟩
          change Due m n g.start _ _
          rw [shots.start]
          exact .shot (left_again shots rfl rfl rfl) waves
  | @ended f k waves =>
      have last : t.player.program.instructions[t.player.pointer]? = some .endLoop := by rw [pointer_eq, here]; rfl
      cases k with
      | zero =>
          have next := Turn.round_close globals last frames_eq waves.counted (by rw [waves.remaining]; decide)
          refine Or.inl ⟨_, next, program, 0, ?_, by rw [Nat.zero_mul] at sum; exact sum⟩
          change Due m n (t.player.pointer + 1) [] _
          rw [pointer_eq]
          exact .past
      | succ k =>
          have next := Turn.round_again globals last frames_eq waves.counted (by rw [waves.remaining]; omega)
          refine Or.inl ⟨_, next, program, _, ?_, sum⟩
          change Due m n f.start _ _
          rw [waves.start]
          exact .wave (left_again waves rfl rfl rfl)
  | past =>
      have next : t.round globals = .last (t.setStatus .done) :=
        Turn.round_of_done (by rw [pointer_eq, here]; rfl) frames_eq
      exact Or.inr ⟨_, next, sum⟩

/-- An update that runs a barrage to its end fires all of its shots. -/
theorem Running.run (hm : waves.toInt = m) (hn : shots.toInt = n) (m_pos : 0 < m) (n_pos : 0 < n)
    (h : Running waves shots m n t) (globals : Blackboard) : (t.run globals).muzzles.length = m * n := by
  refine Turn.run_induction (P := Running waves shots m n) (Q := fun u => u.muzzles.length = m * n) (fun t u ht hr => ?_)
    (fun t u ht hr => ?_) t h
  · rcases ht.round hm hn m_pos n_pos globals with ⟨v, more, running⟩ | ⟨v, last, -⟩
    · obtain rfl := Round.more.inj (hr.symm.trans more)
      exact running
    · cases hr.symm.trans last
  · rcases ht.round hm hn m_pos n_pos globals with ⟨v, more, -⟩ | ⟨v, last, all⟩
    · cases hr.symm.trans more
    · obtain rfl := Round.last.inj (hr.symm.trans last)
      exact all

end Barrage

namespace Turn

/-- A program without resets leaves only shots. -/
theorem beats_eq_fired (globals : Blackboard) (t : Turn)
    (h : ∀ i ∈ t.player.program.instructions, i.action.isReset = false) :
    ∃ muzzles : List Muzzle, logged (beats globals) (t.executions globals) = muzzles.map .fired := by
  refine ⟨(t.executions globals).reverse.flatMap fun x => (x.1.shotsOf globals x.2).reverse, ?_⟩
  rw [logged, List.map_flatMap]
  refine List.flatMap_congr fun x hx => ?_
  obtain ⟨hu, here⟩ := next?_of_mem_executed (List.mem_reverse.1 hx)
  have program := (pattern_of_mem_rounds t hu).program
  rw [beats, h x.2 (program ▸ List.mem_of_getElem? (of_next?_eq_some here).1), if_neg Bool.false_ne_true, List.nil_append]

end Turn

namespace Firing

/-- The counters of a player, over every life. The player shows the number of its shots since its last reset, and an
update that of its shots and of the loops that it closes at the end of the list, all modulo `2 ^ 32`. No two shots
between two resets have the same number exactly if there are at most `2 ^ 32`. An update closes no more loops than the
program begins. An open loop shows how many iterations it has finished since it was entered, modulo `2 ^ 32`. If it is
counted, an iteration is left, and what is left and finished make the count that was drawn, which is less than `2 ^ 31`;
if it is endless, it has finished no more than one for each update. -/
theorem counters_after (program : Program) (emitter : ProjectileId) (slot : UInt32) (calls : List Call) :
    let start := ofProgram program emitter slot
    let f := start.after calls
    let laps := start.player.laps calls
    f.player = start.player.after calls ∧
    f.player.shots = .ofNat (Beat.sinceReset f.beats) ∧
    (∀ (newer older : List Beat) (muzzles : List Muzzle), f.beats = newer ++ (muzzles.map .fired ++ older) →
      (older = [] ∨ older.head? = some .reset) →
      ((muzzles.map (·.shotIndex)).Nodup ↔ muzzles.length ≤ 2 ^ 32)) ∧
    (∀ (earlier later : List Call) (dt : Single) (globals : Blackboard) (swarm : Swarm),
      calls = earlier ++ .update dt globals swarm :: later →
      let p := start.player.after earlier
      let u := p.update dt globals swarm
      u.report.shots = .ofNat u.muzzles.length ∧
      u.report.repaired = .ofNat (p.repairs dt globals swarm) ∧
      p.repairs dt globals swarm ≤ program.instructions.countP fun i => i.enabled && i.kind.isLoopBegin) ∧
    ∀ frame ∈ f.player.frames,
      frame.finished = .ofNat (Lap.finished frame.start laps) ∧
      (frame.endless = false → 1 ≤ frame.remaining ∧ ∃ count, Lap.count? frame.start laps = some count ∧
        frame.remaining + Lap.finished frame.start laps = count.toInt ∧ Lap.finished frame.start laps < 2 ^ 31) ∧
      (frame.endless = true → Lap.finished frame.start laps ≤ calls.countP Call.isUpdate) := by
  intro start f laps
  have player : f.player = start.player.after calls := player_after start calls
  have counts : f.player.Counts f.beats := after_counts (counts_ofProgram program emitter slot) calls
  refine ⟨player, counts.shots, ?_, ?_, ?_⟩
  · intro newer older muzzles split fresh
    have numbered : Beat.Numbered (muzzles.map .fired ++ older) := by
      have all := counts.numbered
      rw [split] at all
      exact all.of_append
    exact numbered.nodup_iff (Beat.sinceReset_of_fresh fresh)
  · intro earlier later dt globals swarm split p u
    have same : (start.after earlier).player = p := player_after start earlier
    have told := (update_counts (after_counts (counts_ofProgram program emitter slot) earlier) dt globals swarm).2
    have nested : p.Nested :=
      Player.after_induction Player.nested_call (Player.nested_ofProgram program emitter slot) earlier
    have text : p.program = program := Player.program_after start.player earlier
    have closed := Player.repairs_le nested dt globals swarm
    rw [text] at closed
    have reported := told.reported
    rw [same] at reported
    exact ⟨reported, Player.repaired_update_eq p dt globals swarm, closed⟩
  · intro frame opened
    rw [player] at opened
    obtain ⟨finished, counted, endless⟩ := (Stamped.ofProgram program emitter slot calls).tracked frame opened
    refine ⟨finished, fun own => ?_, fun own => Nat.le_of_add_right_le (endless own)⟩
    obtain ⟨left, count, entered, sum⟩ := counted own
    have small := count.toInt_lt
    have few : Lap.finished frame.start laps < 2 ^ 31 := by
      change frame.remaining + Lap.finished frame.start laps = count.toInt at sum
      omega
    exact ⟨left, count, entered, sum, few⟩

/-- Five instructions fire more shots in one update than there are numbers: the player and the report count as many as
are too many, and numbers are given again without a reset. -/
theorem barrage_repeats_numbers :
    let start := ofProgram (.barrage 65537 65536) ⟨0⟩ 0
    let u := start.player.update 0 {} (.ofSeed 0)
    let f := start.after [.update 0 {} (.ofSeed 0)]
    u.muzzles.length = 2 ^ 32 + 65536 ∧ u.report.shots = 65536 ∧ u.player.shots = 65536 ∧
      f.beats = u.muzzles.reverse.map .fired ∧ ¬(u.muzzles.map (·.shotIndex)).Nodup := by
  intro start u f
  have runs : start.player.Runs 0 := by decide +kernel
  have all : u.muzzles.length = 2 ^ 32 + 65536 := by
    have begins := Barrage.Running.begin 65537 65536 65537 65536 ⟨0⟩ 0 0 (.ofSeed 0)
    have fired := begins.run rfl rfl (by decide) (by decide) {}
    have ran : u = (start.player.begin 0 (.ofSeed 0)).run {} := Player.update_of_runs runs {} (.ofSeed 0)
    calc u.muzzles.length = 65537 * 65536 := (congrArg (·.muzzles.length) ran).trans fired
      _ = 2 ^ 32 + 65536 := rfl
  obtain ⟨counts, told⟩ := update_counts (counts_ofProgram (.barrage 65537 65536) ⟨0⟩ 0) 0 {} (.ofSeed 0)
  have beats : f.beats = u.muzzles.reverse.map .fired := by
    obtain ⟨muzzles, only⟩ := Turn.beats_eq_fired {} (start.player.begin 0 (.ofSeed 0)) (by decide)
    have f_beats : f.beats = muzzles.map .fired := by
      change Turn.logged _ (start.player.executions 0 {} (.ofSeed 0)) ++ [] = _
      rw [List.append_nil, Player.executions, if_pos runs, only]
    have shots : Beat.shots f.beats = u.muzzles.reverse := told.shots.trans (List.append_nil _)
    rw [f_beats, Beat.shots_map_fired] at shots
    rw [f_beats, shots]
  have since : Beat.sinceReset f.beats = 2 ^ 32 + 65536 := by
    have fresh : Beat.sinceReset [] = 0 := rfl
    have length := Beat.sinceReset_append fresh u.muzzles.reverse
    rwa [List.append_nil, ← beats, List.length_reverse, all] at length
  have wraps : UInt32.ofNat (2 ^ 32 + 65536) = 65536 := by decide
  refine ⟨all, ?_, ?_, beats, fun nodup => ?_⟩
  · rw [told.reported]
    exact (congrArg UInt32.ofNat all).trans wraps
  · rw [counts.shots]
    exact (congrArg UInt32.ofNat since).trans wraps
  · have numbered : Beat.Numbered (u.muzzles.reverse.map .fired ++ []) := by
      rw [List.append_nil, ← beats]
      exact counts.numbered
    have few := (numbered.nodup_iff rfl).1 (by rwa [List.map_reverse, List.nodup_reverse])
    rw [List.length_reverse, all] at few
    omega

end Firing

end Danmaku
