import Danmaku.Player.Rank

/-! An update of a player: it runs instructions until a wait leaves time on the clock, the pattern yields,
or it ends. -/

namespace Danmaku

namespace Turn

/-- Runs instructions until the update ends. -/
def run (globals : Blackboard) (t : Turn) : Turn :=
  match _hi : t.player.program.instructions[t.player.pointer]? with
  | none =>
    match _hf : t.player.frames with
    | [] => t.setStatus .done
    | _ :: frames => run globals (t.repair frames)
  | some i =>
    if i.enabled then
      match _he : t.count.execute globals i with
      | (.next, u) => run globals u.advance
      | (.jump target, u) => run globals (u.moveTo target)
      | (.suspend, u) => u.advance
      | (.yield, u) => u.advance.markYield
      | (.yieldAt target, u) => (u.moveTo target).markYield
      | (.halt, u) => u
      | (.finish, u) => u.setStatus .done
    else run globals t.advance
termination_by t.player.rank
decreasing_by
  · exact rank_repair _hf
  · have := lowers_execute t.count globals i (List.getElem?_eq_some_iff.1 _hi).1
    rw [_he] at this
    exact this
  · have := lowers_execute t.count globals i (List.getElem?_eq_some_iff.1 _hi).1
    rw [_he] at this
    exact this
  · exact rank_advance (.refl t) (List.getElem?_eq_some_iff.1 _hi).1

end Turn

/-- Advances a player by a time. Unless it plays, nothing happens. -/
def Player.update (p : Player) (dt : Single) (globals : Blackboard) (swarm : Swarm) : Turn :=
  if p.status = .playing then
    let t : Turn := { player := { p with time := p.time + dt, wait := p.wait - dt }, swarm }
    if t.player.wait ≤ 0 then t.run globals else t
  else { player := p, swarm }

end Danmaku
