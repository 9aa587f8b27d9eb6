import Mathlib.Data.List.Nodup
import Danmaku.Proofs.Places
import Danmaku.Proofs.Rounds

/-! What an instruction asks of the kept draws. The parameters that it asks for are read off its text, and so is their
order. Each request has an answer: a value, and a swarm that it leaves. All that an execution has of its parameters are
these answers: it goes on from the last of them with their values alone. `conclude` says how, in a form that has no way
to draw anything but the parameters of a shot, which are not kept. -/

namespace Danmaku

/-- Values that come back from an untyped payload as they went in. -/
class LawfulBlendable (α : Type) [Blendable α] : Prop where
  ofPayload?_toPayload (x : α) : ofPayload? (toPayload x) = some x

instance : LawfulBlendable Single := ⟨fun _ => rfl⟩
instance : LawfulBlendable Int32 := ⟨fun _ => rfl⟩
instance : LawfulBlendable Bool := ⟨fun _ => rfl⟩
instance : LawfulBlendable (Vec2 Single) := ⟨fun _ => rfl⟩
instance : LawfulBlendable Vec3 := ⟨fun _ => rfl⟩
instance : LawfulBlendable Vec4 := ⟨fun _ => rfl⟩
instance : LawfulBlendable Color := ⟨fun _ => rfl⟩
instance : LawfulBlendable (Curve Single) := ⟨fun _ => rfl⟩
instance : LawfulBlendable String := ⟨fun _ => rfl⟩
instance : LawfulBlendable AssetId := ⟨fun _ => rfl⟩

/-- A parameter of any type of value. -/
structure AnyParam where
  {α : Type}
  [blendable : Blendable α]
  [lawful : LawfulBlendable α]
  param : Param α

attribute [instance] AnyParam.blendable AnyParam.lawful

/-- A parameter with the channel that it is asked for at. -/
abbrev Query := Channel × AnyParam

def Edit.param? : Edit Param → Option AnyParam
  | point _ p => some ⟨p⟩
  | number _ p => some ⟨p⟩
  | color _ p => some ⟨p⟩
  | curveNumber _ _ p => some ⟨p⟩
  | setCurve _ p => some ⟨p⟩
  | tags _ _ p => some ⟨p⟩
  | setFold .. | playback .. | retarget _ => none

/-- The parameter behind the main value of an action. The parameters of a shot are not kept. -/
def Action.param? : Action → Option AnyParam
  | wait p => some ⟨p⟩
  | beginLoop p _ => some ⟨p⟩
  | playAudio p => some ⟨p⟩
  | playVfx p => some ⟨p⟩
  | stopVfx p => some ⟨p⟩
  | edit e => e.param?
  | setCustom _ p => some ⟨p⟩
  | addCustom _ p => some ⟨p⟩
  | shoot _ | endLoop | die | toggle .. | command .. => none

namespace Instruction

/-- What an edit asks for besides its value: a duration and an easing curve, where it is spread over time. -/
def spreadQueries (i : Instruction) : List Query :=
  match i.action, i.timing with
  | .edit e, .progressive duration easing =>
    if e.isGradual then [(.duration, ⟨duration⟩), (.easing, ⟨easing⟩)] else []
  | _, _ => []

/-- What an instruction asks for, in order. -/
def queries (i : Instruction) : List Query := i.action.param?.toList.map (.main, ·) ++ i.spreadQueries

theorem main_mem_queries {i : Instruction} {q : AnyParam} (h : i.action.param? = some q) :
    (.main, q) ∈ i.queries := by
  rw [queries, h]
  exact List.mem_append_left _ List.mem_cons_self

theorem nodup_channels (i : Instruction) : (i.queries.map (·.1)).Nodup := by
  have hspread : i.spreadQueries.map (·.1) = [] ∨ i.spreadQueries.map (·.1) = [.duration, .easing] := by
    unfold spreadQueries
    split
    · split
      · exact Or.inr rfl
      · exact Or.inl rfl
    · exact Or.inl rfl
  rw [queries, List.map_append, List.map_map]
  cases i.action.param? <;> rcases hspread with h | h <;> rw [h] <;> simp

/-- No two parameters of an instruction share a channel. -/
theorem query_unique {i : Instruction} {c : Channel} {q q' : AnyParam} (h : (c, q) ∈ i.queries)
    (h' : (c, q') ∈ i.queries) : q = q' :=
  (Prod.mk.inj (List.inj_on_of_nodup_map i.nodup_channels h h' rfl)).2

end Instruction

/-- A request for the value of a parameter, and its answer. -/
structure Ask where
  key : Nat × Channel
  reroll : Reroll
  /-- The open loops, innermost first. -/
  frames : List Frame
  /-- Whether the tree of the parameter was resolved for it. -/
  drawn : Bool
  value : Payload
  before : Swarm
  after : Swarm
  /-- The value and the swarm that the tree resolves to here, whether or not it was. -/
  fresh : Payload × Swarm

namespace Turn

/-- The turn after the request. -/
def answer (globals : Blackboard) (t : Turn) (q : Query) : Turn := (t.value globals q.2.param q.1).2

def ask (globals : Blackboard) (t : Turn) (q : Query) : Ask where
  key := (t.player.pointer, q.1)
  reroll := q.2.param.reroll
  frames := t.player.frames
  drawn := (t.player.cache.reusable? q.2.α (t.player.pointer, q.1) q.2.param.reroll t.player.frames).isNone
  value := toPayload (t.value globals q.2.param q.1).1
  before := t.swarm
  after := (t.answer globals q).swarm
  fresh :=
    let r := q.2.param.draw (t.view globals) .pattern { swarm := t.swarm }
    (toPayload r.1, r.2.swarm)

/-- The turn after requests, in order. -/
def answerAll (globals : Blackboard) (t : Turn) (qs : List Query) : Turn := qs.foldl (answer globals) t

/-- The requests for parameters, in order, with their answers. -/
def asks (globals : Blackboard) : Turn → List Query → List Ask
  | _, [] => []
  | t, q :: qs => t.ask globals q :: (t.answer globals q).asks globals qs

theorem answerAll_append (globals : Blackboard) (t : Turn) (qs qs' : List Query) :
    t.answerAll globals (qs ++ qs') = (t.answerAll globals qs).answerAll globals qs' :=
  List.foldl_append

theorem drawing_map {α β : Type} (t : Turn) (f : α → β) (m : StateM Ledger α) :
    t.drawing (f <$> m) = (f (t.drawing m).1, (t.drawing m).2) := rfl

theorem drawing_pure {α : Type} (t : Turn) (x : α) : t.drawing (pure x) = (x, t) := by
  change (x, { t with events := t.events ++ (#[] : Array Notice).map .notice }) = (x, t)
  rw [Array.map_empty, Array.append_empty]

/-- Drawing an edit asks for its parameter, where it has one. -/
theorem mutation_eq_answerAll (globals : Blackboard) (t : Turn) (e : Edit Param) :
    (t.mutation globals e).2 = t.answerAll globals (e.param?.toList.map (.main, ·)) ∧
      (t.mutation globals e).1.isGradual = e.isGradual := by
  unfold mutation
  cases e with
  | setFold target fold =>
      rw [Edit.resolve, drawing_pure]
      exact ⟨rfl, rfl⟩
  | playback target action =>
      rw [Edit.resolve, drawing_pure]
      exact ⟨rfl, rfl⟩
  | retarget preference =>
      rw [Edit.resolve, drawing_pure]
      exact ⟨rfl, rfl⟩
  | _ =>
      rw [Edit.resolve, drawing_map]
      exact ⟨rfl, rfl⟩

/-- An edit makes its requests and has one effect. -/
theorem edit_eq_emit (globals : Blackboard) (t : Turn) (i : Instruction) (e : Edit Param)
    (h : i.action = .edit e) :
    ∃ effect, t.edit globals e i.timing = (t.answerAll globals i.queries).emit effect := by
  obtain ⟨hturn, hgradual⟩ := mutation_eq_answerAll globals t e
  have hqueries : i.queries = e.param?.toList.map (.main, ·) ++ i.spreadQueries := by
    rw [Instruction.queries, h]
    rfl
  rw [hqueries, answerAll_append, ← hturn]
  unfold edit Instruction.spreadQueries
  rw [h]
  cases i.timing with
  | instant => exact ⟨_, rfl⟩
  | progressive duration easing =>
      simp only [hgradual]
      split
      · exact ⟨_, rfl⟩
      · exact ⟨_, rfl⟩

/-- The swarm is the same, and so are the kept draws. -/
structure SameStore (t u : Turn) : Prop where
  swarm : u.swarm = t.swarm
  cache : u.player.cache = t.player.cache

theorem sameStore_wait (globals : Blackboard) (t : Turn) (seconds : Param Single) :
    SameStore (t.value globals seconds .main).2 (t.wait globals seconds).2 := by
  unfold wait
  dsimp only
  split <;> exact ⟨rfl, rfl⟩

theorem sameStore_beginLoop (globals : Blackboard) (t : Turn) (iterations : Param Int32) (endless : Bool) :
    SameStore (t.value globals iterations .main).2 (t.beginLoop globals iterations endless).2 := by
  unfold beginLoop
  dsimp only
  split <;> exact ⟨rfl, rfl⟩

theorem sameStore_endLoop (t : Turn) : SameStore t t.endLoop.2 := by
  unfold endLoop
  split
  · exact ⟨rfl, rfl⟩
  · split
    · exact ⟨rfl, rfl⟩
    · split <;> exact ⟨rfl, rfl⟩

theorem cache_addCustom (t : Turn) (name : String) (delta : Single) :
    (t.addCustom name delta).player.cache = t.player.cache := by
  unfold addCustom
  split
  · rfl
  · split <;> rfl

/-- Executing an instruction changes the kept draws by its requests alone, unless it resets the player. -/
theorem cache_execute (globals : Blackboard) (t : Turn) (i : Instruction)
    (stop : i.action ≠ .command .stop .self) (reboot : i.action ≠ .command .reboot .self) :
    (t.execute globals i).2.player.cache = (t.answerAll globals i.queries).player.cache := by
  cases h : i.action with
  | edit e =>
      obtain ⟨effect, hedit⟩ := edit_eq_emit globals t i e h
      simp only [execute_eq_perform, perform, h, act, hedit]
      rfl
  | wait seconds =>
      simp only [execute_eq_perform, perform, Instruction.queries, Instruction.spreadQueries, h,
        (sameStore_wait _ _ _).cache]
      rfl
  | beginLoop iterations endless =>
      simp only [execute_eq_perform, perform, Instruction.queries, Instruction.spreadQueries, h,
        (sameStore_beginLoop _ _ _ _).cache]
      rfl
  | endLoop =>
      simp only [execute_eq_perform, perform, Instruction.queries, Instruction.spreadQueries, h,
        (sameStore_endLoop _).cache]
      rfl
  | addCustom name delta =>
      simp only [execute_eq_perform, perform, act, Instruction.queries, Instruction.spreadQueries, h, cache_addCustom]
      rfl
  | command command recipient =>
      rw [h] at stop reboot
      simp only [execute_eq_perform, perform, Instruction.queries, Instruction.spreadQueries, h]
      cases recipient with
      | self =>
          cases command with
          | play => rfl
          | pause => rfl
          | stop => exact absurd rfl stop
          | reboot => exact absurd rfl reboot
      | _ => rfl
  | _ =>
      simp only [execute_eq_perform, perform, act, Instruction.queries, Instruction.spreadQueries, h]
      rfl

end Turn

/-- Each request comes upon the swarm that the one before it left. -/
def Ask.Chained : Swarm → List Ask → Swarm → Prop
  | s, [], s' => s' = s
  | s, a :: as, s' => a.before = s ∧ Chained a.after as s'

/-- Answers to be read one by one. -/
abbrev Reading := StateT (List Payload) Option

/-- The next answer, which has to be a value of this type. -/
def Reading.next (α : Type) [Blendable α] : Reading α
  | [] => none
  | x :: xs => (ofPayload? x).map (·, xs)

namespace Reading

variable {α β : Type} [Blendable α] [LawfulBlendable α]

theorem next_toPayload (x : α) (rest : List Payload) : next α (toPayload x :: rest) = some (x, rest) := by
  rw [next, LawfulBlendable.ofPayload?_toPayload]
  rfl

theorem bind_next (k : α → Reading β) (x : α) (rest : List Payload) :
    (next α >>= k) (toPayload x :: rest) = k x rest :=
  congrArg (fun o : Option (α × List Payload) => o.bind fun r => k r.1 r.2) (next_toPayload x rest)

theorem map_next (f : α → β) (x : α) (rest : List Payload) :
    (f <$> next α) (toPayload x :: rest) = some (f x, rest) :=
  congrArg (fun o : Option (α × List Payload) => o.bind fun r => some (f r.1, r.2)) (next_toPayload x rest)

end Reading

open Reading in
/-- How an instruction goes on from its answers. The draws of a shot are its own. -/
def Turn.conclude (globals : Blackboard) (t : Turn) (i : Instruction) : Reading (Flow × Turn) :=
  match i.action with
  | .wait _ => do
    let time := (← next Single).raisedTo 0
    return if 0 < time then (.suspend, t.suspend time) else (.next, { t with player := { t.player with wait := time } })
  | .shoot shot => return (.next, t.shoot globals shot)
  | .beginLoop _ endless => do
    let count := (← next Int32).toInt
    return if !endless ∧ count ≤ 0 then (.jump (t.player.program.afterLoop t.player.pointer), t)
      else (.next, t.enter count endless)
  | .endLoop => return t.endLoop
  | .playAudio _ => return (.next, t.emit (.playAudio (← next AssetId)))
  | .playVfx _ => return (.next, t.emit (.playVfx t.player.emitter (← next AssetId)))
  | .stopVfx _ => return (.next, t.emit (.stopVfx t.player.emitter (← next AssetId)))
  | .die => return (.finish, t.emit (.kill t.player.emitter))
  | .edit edit => do
    let mutation ← edit.resolve fun _ => next _
    match i.timing with
    | .instant => return (.next, t.emit (.apply t.player.emitter mutation))
    | .progressive .. =>
      if edit.isGradual then
        let duration ← next Single
        let easing ← next (Curve Single)
        return (.next, t.emit (.schedule t.player.emitter mutation (duration.raisedTo 0) easing))
      else return (.next, t.emit (.apply t.player.emitter mutation))
  | .toggle module on => return (.next, t.emit (.toggle t.player.emitter module on))
  | .setCustom name _ => return (.next, t.setCustom name (← next Single))
  | .addCustom name _ => return (.next, t.addCustom name (← next Single))
  | .command command recipient => return t.command command recipient

namespace Turn

variable (globals : Blackboard)

theorem chained_asks (t : Turn) (qs : List Query) :
    Ask.Chained t.swarm (t.asks globals qs) (t.answerAll globals qs).swarm := by
  induction qs generalizing t with
  | nil => rfl
  | cons q qs ih => exact ⟨rfl, ih (t.answer globals q)⟩

/-- From its answer an edit makes the mutation that drawing it gives. -/
theorem resolve_answers (t : Turn) (e : Edit Param) (rest : List Payload) :
    e.resolve (m := Reading) (fun _ => Reading.next _)
        ((t.asks globals (e.param?.toList.map (.main, ·))).map (·.value) ++ rest) =
      some ((t.mutation globals e).1, rest) := by
  unfold mutation
  cases e with
  | setFold target fold =>
      simp only [Edit.resolve, drawing_pure]
      rfl
  | playback target action =>
      simp only [Edit.resolve, drawing_pure]
      rfl
  | retarget preference =>
      simp only [Edit.resolve, drawing_pure]
      rfl
  | _ =>
      simp only [Edit.resolve, drawing_map]
      exact Reading.map_next _ _ rest

theorem asks_append (t : Turn) (qs qs' : List Query) :
    t.asks globals (qs ++ qs') = t.asks globals qs ++ (t.answerAll globals qs).asks globals qs' := by
  induction qs generalizing t with
  | nil => rfl
  | cons q qs ih => exact congrArg (t.ask globals q :: ·) (ih (t.answer globals q))

theorem conclude_edit (t : Turn) {i : Instruction} {e : Edit Param} (action : i.action = .edit e) :
    (t.answerAll globals i.queries).conclude globals i ((t.asks globals i.queries).map (·.value)) =
      some ((.next, t.edit globals e i.timing), []) := by
  obtain ⟨turn, gradual⟩ := mutation_eq_answerAll globals t e
  have queries : i.queries = e.param?.toList.map (.main, ·) ++ i.spreadQueries := by
    rw [Instruction.queries, action]
    rfl
  have resolved := resolve_answers globals t e ((t.mutation globals e).2.asks globals i.spreadQueries |>.map (·.value))
  rw [queries, answerAll_append, asks_append, List.map_append, ← turn]
  simp only [conclude, action]
  refine (congrArg (fun o : Option (Mutation × List Payload) => o.bind _) resolved).trans ?_
  unfold Instruction.spreadQueries edit
  rw [action]
  cases i.timing with
  | instant => rfl
  | progressive duration easing =>
      simp only [gradual]
      split
      · exact (Reading.bind_next _ _ _).trans (Reading.bind_next _ _ [])
      · rfl

/-- An execution is how the instruction goes on from its answers. -/
theorem conclude_answers (t : Turn) (i : Instruction) :
    (t.answerAll globals i.queries).conclude globals i ((t.asks globals i.queries).map (·.value)) =
      some (t.execute globals i, []) := by
  cases action : i.action with
  | edit e =>
      rw [conclude_edit globals t action]
      simp only [execute_eq_perform, perform, action, act]
  | wait | beginLoop =>
      simp only [conclude, Instruction.queries, Instruction.spreadQueries, execute_eq_perform, perform, action]
      exact Reading.bind_next _ _ []
  | playAudio | playVfx | stopVfx | setCustom | addCustom =>
      simp only [conclude, Instruction.queries, Instruction.spreadQueries, execute_eq_perform, perform, act, action]
      exact Reading.bind_next _ _ []
  | command command recipient =>
      simp only [conclude, Instruction.queries, Instruction.spreadQueries, execute_eq_perform, perform, act, action]
      cases recipient with
      | self => rfl
      | _ => rfl
  | _ =>
      simp only [conclude, Instruction.queries, Instruction.spreadQueries, execute_eq_perform, perform, act, action]
      rfl

end Turn

namespace Turn

variable {globals : Blackboard} {t : Turn} {α : Type} [Blendable α] {p : Param α} {c : Channel}

/-- A value that needs no draw is the kept one, and asking for it changes nothing. -/
theorem value_of_reusable (globals : Blackboard) {v : α}
    (h : t.player.cache.reusable? α (t.player.pointer, c) p.reroll t.player.frames = some v) :
    (t.value globals p c).1 = v ∧ (t.value globals p c).2.player = t.player ∧
      (t.value globals p c).2.swarm = t.swarm := by
  simp only [value, drawing, Ledger.draw, h]
  exact ⟨trivial, trivial, trivial⟩

/-- A request that is answered by a draw gives what the tree resolves to, and it is kept. -/
theorem answer_of_drawn {q : AnyParam} (hd : (t.ask globals (c, q)).drawn = true) :
    ((t.ask globals (c, q)).value, (t.ask globals (c, q)).after) = (t.ask globals (c, q)).fresh ∧
      (t.answer globals (c, q)).player.cache =
        t.player.cache.keep (t.player.pointer, c) q.param.reroll t.player.frames
          (t.ask globals (c, q)).value := by
  have hnone : t.player.cache.reusable? q.α (t.player.pointer, c) q.param.reroll t.player.frames = none :=
    Option.isNone_iff_eq_none.1 hd
  simp only [ask, answer, value, drawing, Ledger.draw, hnone]
  exact ⟨rfl, rfl⟩

end Turn

/-- The generator is the same, and so are the shared values of every projectile. -/
structure Swarm.SameDraws (s s' : Swarm) : Prop where
  generator : s'.generator = s.generator
  memos : s'.projectiles.map (fun p => (p.id, p.memo)) = s.projectiles.map fun p => (p.id, p.memo)

namespace Swarm.SameDraws

theorem refl (s : Swarm) : s.SameDraws s := ⟨rfl, rfl⟩

theorem modify (s : Swarm) (id : ProjectileId) {f : Projectile → Projectile}
    (same : ∀ p, ((f p).id, (f p).memo) = (p.id, p.memo)) : s.SameDraws (s.modify id f) where
  generator := s.generator_modify id f
  memos := s.map_modify id same

end Swarm.SameDraws

namespace Turn

variable (globals : Blackboard)

theorem sameDraws_setCustom (t : Turn) (name : String) (value : Single) :
    t.swarm.SameDraws (t.setCustom name value).swarm := .modify _ _ fun _ => rfl

theorem sameDraws_addCustom (t : Turn) (name : String) (delta : Single) :
    t.swarm.SameDraws (t.addCustom name delta).swarm := by
  unfold addCustom
  split
  · exact .refl _
  · split
    · exact .modify _ _ fun _ => rfl
    · exact .refl _

/-- Executing an instruction draws nothing but what it asks for, unless it fires a shot. -/
theorem sameDraws_execute (t : Turn) (i : Instruction) (shoot : ∀ shot, i.action ≠ .shoot shot) :
    (t.answerAll globals i.queries).swarm.SameDraws (t.execute globals i).2.swarm := by
  cases h : i.action with
  | shoot shot => exact absurd h (shoot shot)
  | edit e =>
      obtain ⟨effect, hedit⟩ := edit_eq_emit globals t i e h
      simp only [execute_eq_perform, perform, h, act, hedit]
      exact .refl _
  | wait seconds =>
      simp only [execute_eq_perform, perform, Instruction.queries, Instruction.spreadQueries, h,
        (sameStore_wait _ _ _).swarm]
      exact .refl _
  | beginLoop iterations endless =>
      simp only [execute_eq_perform, perform, Instruction.queries, Instruction.spreadQueries, h,
        (sameStore_beginLoop _ _ _ _).swarm]
      exact .refl _
  | endLoop =>
      simp only [execute_eq_perform, perform, Instruction.queries, Instruction.spreadQueries, h,
        (sameStore_endLoop _).swarm]
      exact .refl _
  | setCustom name value =>
      simp only [execute_eq_perform, perform, act, Instruction.queries, Instruction.spreadQueries, h]
      exact sameDraws_setCustom _ name _
  | addCustom name delta =>
      simp only [execute_eq_perform, perform, act, Instruction.queries, Instruction.spreadQueries, h]
      exact sameDraws_addCustom _ name _
  | command command recipient =>
      simp only [execute_eq_perform, perform, Instruction.queries, Instruction.spreadQueries, h]
      cases recipient with
      | self => cases command <;> exact .refl _
      | _ => exact .refl _
  | _ =>
      simp only [execute_eq_perform, perform, act, Instruction.queries, Instruction.spreadQueries, h]
      exact .refl _

/-- Requests that are answered without a draw leave the swarm. -/
theorem swarm_answerAll_of_kept (t : Turn) (qs : List Query) (kept : ∀ a ∈ t.asks globals qs, a.drawn = false) :
    (t.answerAll globals qs).swarm = t.swarm := by
  induction qs generalizing t with
  | nil => rfl
  | cons q qs ih =>
      obtain ⟨first, rest⟩ := List.forall_mem_cons.1 kept
      obtain ⟨v, hv⟩ := Option.isSome_iff_exists.1 (Option.isNone_eq_false_iff.1 first)
      exact (ih (t.answer globals q) rest).trans (value_of_reusable globals hv).2.2

/-- What an execution has of its parameters. Its requests come one after another, each upon the swarm that the one
before it left, and it goes on from the values of their answers and the swarm that is left at the end. It draws nothing
else, but for a shot. So where no request is answered by a draw, the generator and all shared values stay as they
were. -/
structure Answered (globals : Blackboard) (t : Turn) (i : Instruction) : Prop where
  chained : Ask.Chained t.swarm (t.asks globals i.queries) (t.answerAll globals i.queries).swarm
  concluded : (t.answerAll globals i.queries).conclude globals i ((t.asks globals i.queries).map (·.value)) =
    some (t.execute globals i, [])
  draws : (∀ shot, i.action ≠ .shoot shot) →
    (t.answerAll globals i.queries).swarm.SameDraws (t.execute globals i).2.swarm
  kept : (∀ shot, i.action ≠ .shoot shot) → (∀ a ∈ t.asks globals i.queries, a.drawn = false) →
    t.swarm.SameDraws (t.execute globals i).2.swarm

theorem answered (t : Turn) (i : Instruction) : t.Answered globals i where
  chained := chained_asks globals t i.queries
  concluded := conclude_answers globals t i
  draws := sameDraws_execute globals t i
  kept shoot none := by
    have draws := sameDraws_execute globals t i shoot
    rwa [swarm_answerAll_of_kept globals t i.queries none] at draws

end Turn

end Danmaku
