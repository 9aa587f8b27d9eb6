import Danmaku.Proofs.Ending
import Danmaku.Proofs.Rerolls

/-! Parameters that are drawn once. Where a player asks its kept draws for such a parameter, it is drawn at the first
request after a reset, and every later one has the same value. The parameters of a shot are not asked for in this
way: they are drawn whenever the shot is fired, whatever their policy says. -/

namespace Danmaku

namespace History

variable {past newer between older : History} {key : Nat × Channel} {a b : Ask}

/-- The requests are those of enabled instructions of the program. -/
def Sourced (program : Program) (past : History) : Prop :=
  ∀ a, .asked a ∈ past → ∃ i q, program.instructions[a.key.1]? = some i ∧ i.enabled = true ∧
    (a.key.2, q) ∈ i.queries ∧ a.reroll = q.param.reroll

/-- All requests of a channel follow the same policy. -/
theorem Sourced.reroll_eq {program : Program} (h : Sourced program past) (ha : .asked a ∈ past)
    (hb : .asked b ∈ past) (same : a.key = b.key) : a.reroll = b.reroll := by
  obtain ⟨i, q, hi, -, hq, reroll⟩ := h a ha
  obtain ⟨i', q', hi', -, hq', reroll'⟩ := h b hb
  rw [same] at hi hq
  obtain rfl := Option.some.inj (hi.symm.trans hi')
  rw [reroll, reroll', Instruction.query_unique hq hq']

/-- Once drawn, a channel whose policy says so is not due again before a reset. -/
theorem not_due_of_once (reroll : a.reroll = .once) (drawn : past.lastDrawn? a.key ≠ none) : ¬Due past a := by
  rintro (none | always | ⟨rule, frame, loops, -⟩)
  · exact drawn none
  · rw [reroll] at always
    cases always
  · rw [reroll] at loops
    cases loops

/-- From a request on, the channel keeps the value that answered it. -/
theorem lastDrawn?_of_asked (h : Accounted (between ++ .asked a :: older)) (open' : .reset ∉ between)
    (once : ∀ b, .asked b ∈ between → b.key = a.key → b.reroll = .once) :
    ∃ b, lastDrawn? a.key (between ++ .asked a :: older) = some b ∧ b.value = a.value := by
  induction between with
  | nil =>
      rw [List.nil_append, lastDrawn?]
      cases drawn : a.drawn with
      | true => exact ⟨a, if_pos ⟨rfl, rfl⟩, rfl⟩
      | false =>
          obtain ⟨b, last, value, -⟩ := h.1.2.2 drawn
          refine ⟨b, ?_, value.symm⟩
          rw [if_neg fun hn => Bool.false_ne_true hn.2, last]
  | cons m between ih =>
      have rest := fun h => ih h (fun hr => open' (List.mem_cons_of_mem _ hr))
        fun b hb => once b (List.mem_cons_of_mem _ hb)
      cases m with
      | asked c =>
          obtain ⟨b, last, value⟩ := rest h.2
          refine ⟨b, ?_, value⟩
          rw [List.cons_append, lastDrawn?, if_neg, last]
          -- A later request of the channel is not due, so it draws nothing that would be found first.
          rintro ⟨key, drawn⟩
          have due : Due (between ++ .asked a :: older) c := h.1.1.1 drawn
          refine not_due_of_once (once c List.mem_cons_self key) ?_ due
          rw [key, last]
          exact Option.some_ne_none b
      | began start => exact rest h
      | reset => exact absurd List.mem_cons_self open'

/-- A later request of a channel that is drawn once is answered by the value of an earlier one. -/
theorem answered_of_once (h : Accounted (newer ++ .asked b :: (between ++ .asked a :: older)))
    (open' : .reset ∉ between) (key : b.key = a.key) (reroll : b.reroll = .once)
    (once : ∀ c, .asked c ∈ between → c.key = a.key → c.reroll = .once) :
    b.drawn = false ∧ b.value = a.value ∧ b.after = b.before := by
  obtain ⟨⟨due, -, kept⟩, earlier⟩ := h.of_append
  obtain ⟨c, last, value⟩ := lastDrawn?_of_asked earlier open' once
  have drawn : b.drawn = false := by
    rw [← Bool.not_eq_true, due]
    refine not_due_of_once reroll ?_
    rw [key, last]
    exact Option.some_ne_none c
  obtain ⟨d, last', value', after⟩ := kept drawn
  rw [key, last] at last'
  obtain rfl := Option.some.inj last'
  exact ⟨drawn, value'.trans value, after⟩

end History

theorem Action.moment?_ne_asked (a : Action) {flow : Flow} {pointer : Nat} {ask : Ask} :
    a.moment? flow pointer ≠ some (.asked ask) := by
  unfold moment?
  split <;> exact nofun

namespace History.Sourced

variable {past : History} {program : Program} {t : Turn}

theorem nil (program : Program) : Sourced program [] := fun _ ha => absurd ha List.not_mem_nil

theorem cons (h : Sourced program past) {m : Moment} (hm : ∀ a, m ≠ .asked a) : Sourced program (m :: past) := by
  intro a ha
  rcases List.mem_cons.1 ha with rfl | ha
  · exact absurd rfl (hm a)
  · exact h a ha

theorem asks (h : Sourced program past) (globals : Blackboard) {i : Instruction}
    (here : program.instructions[t.player.pointer]? = some i) (enabled : i.enabled = true) (qs : List Query)
    (hqs : ∀ q ∈ qs, q ∈ i.queries) : Sourced program (((t.asks globals qs).map .asked).reverse ++ past) := by
  induction qs generalizing t past with
  | nil => exact h
  | cons q qs ih =>
      rw [Turn.asks, List.map_cons, List.reverse_cons, List.append_assoc]
      refine ih (t := t.answer globals q) (fun a ha => ?_) here fun q' hq' => hqs q' (List.mem_cons_of_mem _ hq')
      rcases List.mem_cons.1 ha with ha | ha
      · obtain rfl := Moment.asked.inj ha
        exact ⟨i, q.2, here, enabled, hqs q List.mem_cons_self, rfl⟩
      · exact h a ha

theorem round (h : Sourced t.player.program past) (globals : Blackboard) :
    Sourced t.player.program (t.logs (Turn.moments globals) ++ past) := by
  rcases t.moments_cases globals with ⟨moments, -⟩ | ⟨i, here, enabled, moments, -⟩
  · rwa [moments]
  · rw [moments, Turn.moments, List.append_assoc]
    have asked := h.asks (t := t.count) globals here enabled i.queries fun _ hq => hq
    cases moment : i.action.moment? (t.count.execute globals i).1 t.player.pointer with
    | none => exact asked
    | some m => exact asked.cons fun a ha => i.action.moment?_ne_asked (ha ▸ moment)

theorem after {l : Life} (h : Sourced program l.past) (same : l.player.program = program) (calls : List Call) :
    Sourced program (l.after calls).past := by
  refine (Life.after_induction (P := fun past p => p.program = program ∧ Sourced program past) ?_
    (fun _ _ _ _ h => h) (fun _ _ _ h => h) ?_ ⟨same, h⟩ calls).2
  · rintro globals t past ⟨rfl, h⟩
    exact ⟨(Turn.rounded_round globals t).pattern_turn.program, h.round globals⟩
  · rintro past p status ⟨rfl, h⟩
    exact ⟨rfl, h.cons fun a => Moment.noConfusion⟩

end History.Sourced

/-- The parameter with another policy: it is drawn at every use. -/
def Param.drawnAlways {α : Type} (p : Param α) : Param α := { p with reroll := .always }

/-- The shot with all its parameters drawn at every use. -/
def Shot.drawnAlways (shot : Shot) : Shot where
  id := shot.id
  count := shot.count.drawnAlways
  bullet := shot.bullet.drawnAlways
  modifiers := shot.modifiers.map fun step =>
    Id.run (step.traverse (pure ·.drawnAlways) (pure ·.drawnAlways) (pure ·.drawnAlways))

/-- A shot does not look at the policies of its parameters. -/
theorem Shot.draw_drawnAlways (shot : Shot) (view : Viewpoint) : shot.drawnAlways.draw view = shot.draw view := by
  unfold Shot.draw
  congr 1
  funext count
  congr 1
  funext bullet
  rw [drawnAlways, List.mapM_map]
  congr 2
  funext step
  cases step <;> rfl

theorem Turn.shoot_drawnAlways (t : Turn) (globals : Blackboard) (shot : Shot) :
    t.shoot globals shot.drawnAlways = t.shoot globals shot := by
  unfold shoot
  rw [Shot.draw_drawnAlways]

/-- Which of the parameters of a pattern are drawn once if their policy says so, over every life of a player. Every
request of the kept draws is for a parameter of an enabled instruction, under the policy of that parameter. Of two
requests of one channel without a reset between them the later is not drawn, has the value of the earlier and leaves
the swarm, if the policy is to draw once. The parameters of a shot are none of these: firing it comes to the same
whatever their policies are. -/
theorem Life.once_unless_shot (program : Program) (emitter : ProjectileId) (slot : UInt32) (calls : List Call) :
    let past := ((ofProgram program emitter slot).after calls).past
    (∀ a, .asked a ∈ past → ∃ i q, program.instructions[a.key.1]? = some i ∧ i.enabled = true ∧
      (a.key.2, q) ∈ i.queries ∧ a.reroll = q.param.reroll) ∧
    (∀ (newer between older : History) (a b : Ask),
      past = newer ++ .asked b :: (between ++ .asked a :: older) → .reset ∉ between → b.key = a.key →
      b.reroll = .once → b.drawn = false ∧ b.value = a.value ∧ b.after = b.before) ∧
    ∀ (t : Turn) (globals : Blackboard) (shot : Shot), t.shoot globals shot.drawnAlways = t.shoot globals shot := by
  intro past
  have sourced : History.Sourced program past :=
    (History.Sourced.nil program).after (l := ofProgram program emitter slot) rfl calls
  refine ⟨sourced, ?_, Turn.shoot_drawnAlways⟩
  intro newer between older a b split open' key reroll
  have recorded := (Recorded.nil program emitter slot).after (l := ofProgram program emitter slot) calls
  have accounted : past.Accounted := recorded.accounted
  rw [split] at accounted
  refine History.answered_of_once accounted open' key reroll fun c hc hkey => ?_
  have hb : .asked b ∈ past := by
    rw [split]
    exact List.mem_append_right _ List.mem_cons_self
  have hc : .asked c ∈ past := by
    rw [split]
    exact List.mem_append_right _ (List.mem_cons_of_mem _ (List.mem_append_left _ hc))
  rw [sourced.reroll_eq hc hb (hkey.trans key.symm), reroll]

/-- Two shots with a wait after each. The number of their bullets is that of the globals, to be drawn once. -/
def Program.salvo : Program where
  id := 1
  instructions := [
    .beginLoop 2,
    .shoot {
      id := 5
      count := { tree := .reference 1 { holder := .global, name := "density" }, reroll := .once }
      bullet := .fixed ⟨7⟩ },
    .wait 0.5, .endLoop]

/-- The numbers of bullets of the shots that were fired. -/
def Turn.volleys (t : Turn) : List Nat :=
  t.events.toList.filterMap fun
    | .effect (.shoot volley _) => some volley.spawns.length
    | _ => none

/-- The second shot has as many bullets as the globals say by then, though nothing was reset after the first. -/
theorem Player.salvo_draws_again :
    let first := (ofProgram .salvo ⟨1⟩ 0).update 0.5 (({} : Blackboard).set "density" (.int 3)) (.ofSeed 1)
    let second := first.player.update 0.5 (({} : Blackboard).set "density" (.int 1)) first.swarm
    first.volleys = [3] ∧ second.volleys = [1] ∧ second.player.shots = 2 := by
  intro first second
  let dense := ({} : Blackboard).set "density" (.int 3)
  let sparse := ({} : Blackboard).set "density" (.int 1)
  let p := ofProgram .salvo ⟨1⟩ 0
  -- Each update ends with its third round, on the wait.
  have shown : (((p.begin 0.5 (.ofSeed 1)).lastAt? dense 2).bind fun u =>
      ((u.player.begin 0.5 u.swarm).lastAt? sparse 2).map fun v =>
        (decide (u.player.Runs 0.5), u.volleys, v.volleys, v.player.shots)) = some (true, [3], [1], 2) := by
    decide +kernel
  obtain ⟨u, hu, shown⟩ := Option.bind_eq_some_iff.1 shown
  obtain ⟨v, hv, shown⟩ := Option.map_eq_some_iff.1 shown
  obtain ⟨runs, hfirst, hsecond, shots⟩ : u.player.Runs 0.5 ∧ _ ∧ _ ∧ _ := by simpa using shown
  have first_eq : first = u := (update_of_runs (p := p) (by decide +kernel) _ _).trans (Turn.run_eq_of_lastAt? hu)
  have second_eq : second = v := by
    rw [← Turn.run_eq_of_lastAt? hv, ← update_of_runs runs, ← first_eq]
  rw [first_eq, second_eq]
  exact ⟨hfirst, hsecond, shots⟩

end Danmaku
