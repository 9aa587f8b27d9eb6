import Danmaku.Player.Act

/-! The rank of a player, which every instruction lowers as long as the update goes on. A pass over the
rest of the list may enter loops, each of fewer than `maxIterations` further iterations, so its work grows
with a power of the number of instructions that are left. The rank is the work of the present pass and of
the iterations that are left to the open loops. An endless loop is left at most one, and only if it has
waited: without a wait it yields, which ends the update. -/

namespace Danmaku

namespace Player

/-- Above every count of iterations. -/
def maxIterations : Nat := 0x80000000

/-- The most instructions that a pass over the last `n` of a list can run. -/
def passWork : Nat → Nat
  | 0 => 0
  | n + 1 => maxIterations * (passWork n + 1) + 1

theorem passWork_lt_succ (n : Nat) : passWork n < passWork (n + 1) := by
  have : passWork n + 1 ≤ maxIterations * (passWork n + 1) := Nat.le_mul_of_pos_left _ (by decide)
  simp only [passWork]
  omega

theorem passWork_lt {m n : Nat} (h : m < n) : passWork m < passWork n := by
  induction n with
  | zero => omega
  | succ n ih =>
    rcases Nat.lt_or_eq_of_le (Nat.le_of_lt_succ h) with h | rfl
    · exact Nat.lt_trans (ih h) (passWork_lt_succ n)
    · exact passWork_lt_succ m

theorem passWork_lt_of_next {length pointer : Nat} (h : pointer < length) :
    passWork (length - (pointer + 1)) < passWork (length - pointer) :=
  passWork_lt (by omega)

end Player

namespace Frame

/-- How often the loop can still go back to its start. -/
def turns (f : Frame) : Nat := if f.endless then f.waited.toNat else f.remaining.toNat

def work (length : Nat) (f : Frame) : Nat := f.turns * (Player.passWork (length - f.start) + 1) + 1

end Frame

namespace Player

def framesWork (length : Nat) (frames : List Frame) : Nat :=
  frames.foldr (fun f work => f.work length + work) 0

def rank (p : Player) : Nat := passWork (p.program.length - p.pointer) + framesWork p.program.length p.frames

end Player

namespace Turn

/-- The same place in the same program with the same open loops. -/
structure SameCourse (t u : Turn) : Prop where
  program : u.player.program = t.player.program
  pointer : u.player.pointer = t.player.pointer
  frames : u.player.frames = t.player.frames

theorem SameCourse.refl (t : Turn) : SameCourse t t := ⟨rfl, rfl, rfl⟩

theorem sameCourse_edit (t : Turn) (globals : Blackboard) (e : Edit Param) (timing : Timing) :
    SameCourse t (t.edit globals e timing) := by
  cases timing with
  | instant => exact ⟨rfl, rfl, rfl⟩
  | progressive duration easing =>
    simp only [edit]
    split <;> exact ⟨rfl, rfl, rfl⟩

theorem sameCourse_addCustom (t : Turn) (name : String) (delta : Single) :
    SameCourse t (t.addCustom name delta) := by
  unfold addCustom
  split
  · exact .refl t
  · split <;> exact ⟨rfl, rfl, rfl⟩

theorem sameCourse_act (t : Turn) (globals : Blackboard) (action : Action) (timing : Timing) :
    SameCourse t (t.act globals action timing) := by
  cases action with
  | edit e => exact sameCourse_edit t globals e timing
  | addCustom name delta =>
    have h := sameCourse_addCustom (t.value globals delta .main).2 name (t.value globals delta .main).1
    exact ⟨h.program, h.pointer, h.frames⟩
  | _ => exact ⟨rfl, rfl, rfl⟩

theorem toInt_toNat_lt (n : Int32) : n.toInt.toNat < Player.maxIterations := by
  have := n.toInt_lt
  unfold Player.maxIterations
  omega

theorem rank_advance {t u : Turn} (h : SameCourse t u) (hp : t.player.pointer < t.player.program.length) :
    u.advance.player.rank < t.player.rank := by
  have := Player.passWork_lt_of_next hp
  simp only [Player.rank, advance, moveTo, h.program, h.pointer, h.frames]
  omega

/-- Entering a loop, of `turns` more iterations after the first, takes less work than the pass is due. -/
theorem rank_enter {t u : Turn} {frame : Frame} (program : u.player.program = t.player.program)
    (pointer : u.player.pointer = t.player.pointer) (frames : u.player.frames = frame :: t.player.frames)
    (start : frame.start = t.player.pointer + 1) (turns : frame.turns < Player.maxIterations)
    (hp : t.player.pointer < t.player.program.length) : u.advance.player.rank < t.player.rank := by
  obtain ⟨n, hn⟩ : ∃ n, t.player.program.length - t.player.pointer = n + 1 :=
    ⟨t.player.program.length - (t.player.pointer + 1), by omega⟩
  have hn' : t.player.program.length - (t.player.pointer + 1) = n := by omega
  have hmul : frame.turns * (Player.passWork n + 1) + (Player.passWork n + 1) ≤
      Player.maxIterations * (Player.passWork n + 1) := by
    rw [← Nat.succ_mul]
    exact Nat.mul_le_mul_right _ turns
  simp only [Player.rank, advance, moveTo, program, pointer, frames, Player.framesWork, List.foldr_cons,
    Frame.work, start, hn, hn', Player.passWork]
  omega

theorem rank_jump_past {t u : Turn} (h : SameCourse t u) {target : Nat} (hlt : t.player.pointer < target)
    (hp : t.player.pointer < t.player.program.length) : (u.moveTo target).player.rank < t.player.rank := by
  have := Player.passWork_lt
    (show t.player.program.length - target < t.player.program.length - t.player.pointer by omega)
  simp only [Player.rank, moveTo, h.program, h.frames]
  omega

theorem pointer_lt_afterLoop {t : Turn} (hp : t.player.pointer < t.player.program.length) :
    t.player.pointer < t.player.program.afterLoop t.player.pointer := by
  unfold Program.afterLoop
  omega

/-- What the rank does over an instruction, where the update goes on. -/
def Lowers (t : Turn) : Flow × Turn → Prop
  | (.next, u) => u.advance.player.rank < t.player.rank
  | (.jump target, u) => (u.moveTo target).player.rank < t.player.rank
  | _ => True

theorem lowers_wait (t : Turn) (globals : Blackboard) (seconds : Param Single)
    (hp : t.player.pointer < t.player.program.length) : t.Lowers (t.wait globals seconds) := by
  simp only [wait]
  split
  · trivial
  · exact rank_advance ⟨rfl, rfl, rfl⟩ hp

theorem lowers_beginLoop (t : Turn) (globals : Blackboard) (iterations : Param Int32) (endless : Bool)
    (hp : t.player.pointer < t.player.program.length) :
    t.Lowers (t.beginLoop globals iterations endless) := by
  simp only [beginLoop]
  split
  · exact rank_jump_past ⟨rfl, rfl, rfl⟩ (pointer_lt_afterLoop hp) hp
  · refine rank_enter rfl rfl rfl rfl ?_ hp
    unfold Frame.turns
    split
    · exact (by decide : 0 < Player.maxIterations)
    · exact toInt_toNat_lt _

theorem lowers_endLoop (t : Turn) (hp : t.player.pointer < t.player.program.length) : t.Lowers t.endLoop := by
  have hlt := Player.passWork_lt_of_next hp
  unfold endLoop
  split
  · exact rank_advance ⟨rfl, rfl, rfl⟩ hp
  · rename_i frame frames hf
    split
    · rename_i he
      split
      · rename_i hw
        simp only [Lowers, again, moveTo, Player.rank, Player.framesWork, hf, List.foldr_cons,
          Frame.work, Frame.turns, he, hw, if_true, Bool.toNat_true, Bool.toNat_false]
        omega
      · trivial
    · rename_i he
      split
      · simp only [Lowers, advance, moveTo, Player.rank, Player.framesWork, hf, List.foldr_cons]
        omega
      · rename_i hr
        obtain ⟨k, hk⟩ : ∃ k, frame.remaining.toNat = k + 1 := ⟨frame.remaining.toNat - 1, by omega⟩
        have hk' : (frame.remaining - 1).toNat = k := by omega
        simp only [Lowers, again, moveTo, Player.rank, Player.framesWork, hf, List.foldr_cons,
          Frame.work, Frame.turns, he, Bool.false_eq_true, if_false, hk, hk', Nat.succ_mul]
        omega

theorem lowers_execute (t : Turn) (globals : Blackboard) (i : Instruction)
    (hp : t.player.pointer < t.player.program.length) : t.Lowers (t.execute globals i) := by
  rw [execute_eq_perform]
  unfold perform
  split
  · exact lowers_wait t globals _ hp
  · exact lowers_beginLoop t globals _ _ hp
  · exact lowers_endLoop t hp
  · trivial
  · unfold commandSelf
    split
    · exact rank_advance (.refl t) hp
    all_goals trivial
  · exact rank_advance (sameCourse_act t globals _ _) hp

theorem rank_repair {t : Turn} {frame : Frame} {frames : List Frame} (h : t.player.frames = frame :: frames) :
    (t.repair frames).player.rank < t.player.rank := by
  simp only [repair, note, Player.rank, Player.framesWork, h, List.foldr_cons, Frame.work]
  omega

end Turn

end Danmaku
