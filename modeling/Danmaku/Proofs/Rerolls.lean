import Danmaku.Proofs.History
import Danmaku.Proofs.Nesting

/-! When a parameter is drawn again. A player compares the stamp that it kept with the stamp of a frame; here
that comparison is read as a statement on its history: the loop has begun an iteration since the channel was
drawn. Stamps are never given twice, not even over a reset, and at one instruction the frame at a depth is
always that of the same loop of the program, so the one says the other. `Recorded` relates a history to what
the player keeps, every request and every other moment carries it over, and from it follows how each request
of a history was answered. -/

namespace Danmaku

namespace DrawCache

/-- What is kept of a value that was drawn with these loops open. -/
def keptAs (reroll : Reroll) (frames : List Frame) (value : Payload) : Option KeptDraw :=
  match reroll with
  | .always => none
  | .once => some ⟨value, none⟩
  | .atLoops rule => some ⟨value, (frameAt? frames rule.depth).map (·.stamp)⟩

theorem find?_keep_of_ne (c : DrawCache) {key other : Nat × Channel} (h : other ≠ key) (reroll : Reroll)
    (frames : List Frame) (value : Payload) : (c.keep key reroll frames value).find? other = c.find? other := by
  cases reroll with
  | always => rfl
  | once => exact (Entries.lookup_put key other _ _).trans (if_neg h)
  | atLoops rule => exact (Entries.lookup_put key other _ _).trans (if_neg h)

theorem find?_keep_self (c : DrawCache) (key : Nat × Channel) (reroll : Reroll) (frames : List Frame)
    (value : Payload) (h : reroll = .always → c.find? key = none) :
    (c.keep key reroll frames value).find? key = keptAs reroll frames value := by
  cases reroll with
  | always => exact h rfl
  | once => exact (Entries.lookup_put key key _ _).trans (if_pos rfl)
  | atLoops rule => exact (Entries.lookup_put key key _ _).trans (if_pos rfl)

end DrawCache

namespace History

variable {past newer older : History} {key : Nat × Channel} {start : Nat} {a : Ask}

/-- The last request of a channel that was answered by a draw, since the last reset. -/
def lastDrawn? (key : Nat × Channel) : History → Option Ask
  | [] => none
  | .reset :: _ => none
  | .asked a :: past => if a.key = key ∧ a.drawn = true then some a else lastDrawn? key past
  | .began _ :: past => lastDrawn? key past

/-- Since the channel was last drawn, the loop whose body starts here has begun an iteration. -/
def BegunSince (key : Nat × Channel) (start : Nat) : History → Prop
  | [] => False
  | .reset :: _ => False
  | .asked a :: past => ¬(a.key = key ∧ a.drawn = true) ∧ BegunSince key start past
  | .began s :: past => s = start ∨ BegunSince key start past

/-- A request asks for a draw after this history: its channel has not been drawn since the last reset, its
parameter is drawn at every use, or it follows a loop that is open at its depth, that has begun an iteration
since and whose iteration is chosen. -/
def Due (past : History) (a : Ask) : Prop :=
  past.lastDrawn? a.key = none ∨ a.reroll = .always ∨
    ∃ rule frame, a.reroll = .atLoops rule ∧ DrawCache.frameAt? a.frames rule.depth = some frame ∧
      past.BegunSince a.key frame.start ∧ rule.selects frame.finished = true

/-- Every request was answered by a draw exactly if one was due, and else by the value that was drawn last,
with the swarm as it was. -/
def Accounted : History → Prop
  | [] => True
  | .asked a :: past =>
    ((a.drawn = true ↔ Due past a) ∧ (a.drawn = true → (a.value, a.after) = a.fresh) ∧
      (a.drawn = false → ∃ b, lastDrawn? a.key past = some b ∧ a.value = b.value ∧ a.after = a.before)) ∧
    Accounted past
  | .began _ :: past => Accounted past
  | .reset :: past => Accounted past

theorem Accounted.of_append (h : Accounted (newer ++ older)) : Accounted older := by
  induction newer with
  | nil => exact h
  | cons m newer ih =>
      cases m with
      | asked a => exact ih h.2
      | began start => exact ih h
      | reset => exact ih h

end History

/-- What a player keeps of the draw that last answered a parameter: its value and the stamp that its policy
asks for. The loops that were open then are those that the program has open at the instruction, and the
stamps of two frames of one loop, then and now, agree as long as the loop has begun no iteration. -/
structure KeptFrom (past : History) (p : Player) (key : Nat × Channel) (q : AnyParam) (a : Ask) : Prop where
  value : ∃ v : q.α, a.value = toPayload v
  kept : p.cache.find? key = DrawCache.keptAs q.param.reroll a.frames a.value
  opened : a.frames.map (·.start) = (p.program.openLoops key.1).map (· + 1)
  stamp_le : ∀ f ∈ a.frames, f.stamp ≤ p.lastStamp
  stamp_eq_iff : ∀ f ∈ a.frames, ∀ g ∈ p.frames, f.start = g.start →
    (f.stamp = g.stamp ↔ ¬past.BegunSince key g.start)

/-- A request leaves what is kept of another channel, and a draw that is not made leaves all. -/
theorem KeptFrom.asked {past : History} {p p' : Player} {key : Nat × Channel} {q : AnyParam} {a b : Ask}
    (h : KeptFrom past p key q b) (skip : ¬(a.key = key ∧ a.drawn = true)) (program : p'.program = p.program)
    (cache : p'.cache.find? key = p.cache.find? key) (lastStamp : p'.lastStamp = p.lastStamp)
    (frames : p'.frames = p.frames) : KeptFrom (.asked a :: past) p' key q b where
  value := h.value
  kept := cache.trans h.kept
  opened := by rw [program, h.opened]
  stamp_le := by
    rw [lastStamp]
    exact h.stamp_le
  stamp_eq_iff := by
    rw [frames]
    intro f hf g hg hstart
    rw [h.stamp_eq_iff f hf g hg hstart]
    exact not_congr (and_iff_right skip).symm

/-- A history that a player can have had, and that its kept draws agree with. -/
structure Recorded (past : History) (p : Player) : Prop where
  nested : p.Nested
  stamp_le : ∀ f ∈ p.frames, f.stamp ≤ p.lastStamp
  none_kept : ∀ key, past.lastDrawn? key = none → p.cache.find? key = none
  kept : ∀ key i q a, p.program.instructions[key.1]? = some i → (key.2, q) ∈ i.queries →
    past.lastDrawn? key = some a → KeptFrom past p key q a
  accounted : past.Accounted

namespace Recorded

variable {past : History} {p p' : Player}

theorem nil (program : Program) (emitter : ProjectileId) (slot : UInt32) :
    Recorded [] (.ofProgram program emitter slot) where
  nested := Player.nested_ofProgram program emitter slot
  stamp_le := fun _ hf => absurd hf List.not_mem_nil
  none_kept := fun _ _ => rfl
  kept := fun _ _ _ _ _ _ h => by cases h
  accounted := trivial

/-- Where the player goes on with frames that it had, up to what is not their start or stamp, nothing is
recorded. -/
theorem move (h : Recorded past p) (program : p'.program = p.program) (cache : p'.cache = p.cache)
    (lastStamp : p'.lastStamp = p.lastStamp) (nested : p'.Nested)
    (frames : ∀ g' ∈ p'.frames, ∃ g ∈ p.frames, g'.start = g.start ∧ g'.stamp = g.stamp) :
    Recorded past p' where
  nested := nested
  stamp_le := by
    intro g' hg'
    obtain ⟨g, hg, -, hstamp⟩ := frames g' hg'
    rw [hstamp, lastStamp]
    exact h.stamp_le g hg
  none_kept := by
    rw [cache]
    exact h.none_kept
  kept := by
    intro key i q a hi hq ha
    rw [program] at hi
    have hk := h.kept key i q a hi hq ha
    refine ⟨hk.value, ?_, ?_, ?_, ?_⟩
    · rw [cache, hk.kept]
    · rw [program, hk.opened]
    · rw [lastStamp]
      exact hk.stamp_le
    · intro f hf g' hg' hstart
      obtain ⟨g, hg, hgstart, hgstamp⟩ := frames g' hg'
      rw [hgstart] at hstart ⊢
      rw [hgstamp]
      exact hk.stamp_eq_iff f hf g hg hstart
  accounted := h.accounted

/-- A loop begins an iteration, with a stamp that no frame has had before. -/
theorem began (h : Recorded past p) {frame : Frame} {frames : List Frame} (program : p'.program = p.program)
    (cache : p'.cache = p.cache) (lastStamp : p'.lastStamp = p.lastStamp + 1) (nested : p'.Nested)
    (opened : p'.frames = frame :: frames) (stamp : frame.stamp = p.lastStamp + 1)
    (outer : ∀ g ∈ frames, g ∈ p.frames) : Recorded (.began frame.start :: past) p' where
  nested := nested
  stamp_le := by
    intro g hg
    rw [lastStamp]
    rw [opened] at hg
    rcases List.mem_cons.1 hg with rfl | hg
    · exact Nat.le_of_eq stamp
    · exact Nat.le_succ_of_le (h.stamp_le g (outer g hg))
  none_kept := by
    rw [cache]
    exact h.none_kept
  kept := by
    intro key i q a hi hq ha
    rw [program] at hi
    have hk := h.kept key i q a hi hq ha
    refine ⟨hk.value, ?_, ?_, ?_, ?_⟩
    · rw [cache, hk.kept]
    · rw [program, hk.opened]
    · intro f hf
      rw [lastStamp]
      exact Nat.le_succ_of_le (hk.stamp_le f hf)
    · intro f hf g hg hstart
      rw [opened] at hg
      rcases List.mem_cons.1 hg with rfl | hg
      · have hlt : f.stamp < g.stamp := by
          rw [stamp]
          exact Nat.lt_succ_of_le (hk.stamp_le f hf)
        exact iff_of_false (Nat.ne_of_lt hlt) fun hn => hn (Or.inl rfl)
      · have hne : frame.start ≠ g.start := by
          have hpairwise := nested.pairwise_start
          rw [opened, List.map_cons] at hpairwise
          exact Nat.ne_of_gt (List.rel_of_pairwise_cons hpairwise (List.mem_map_of_mem hg))
        rw [hk.stamp_eq_iff f hf g (outer g hg) hstart]
        exact not_congr (or_iff_right hne).symm
  accounted := h.accounted

theorem reset (h : Recorded past p) (cache : p'.cache = {}) (frames : p'.frames = []) (nested : p'.Nested) :
    Recorded (.reset :: past) p' where
  nested := nested
  stamp_le := by
    rw [frames]
    exact fun _ hf => absurd hf List.not_mem_nil
  none_kept := by
    rw [cache]
    exact fun _ _ => rfl
  kept := fun _ _ _ _ _ _ ha => by cases ha
  accounted := h.accounted

/-- What a moment says of the course of the player is what it adds to the record. -/
theorem marked (h : Recorded past p) {m : Option Moment} (hm : Marked p m p') (program : p'.program = p.program)
    (cache : m ≠ some .reset → p'.cache = p.cache) (nested : p'.Nested) : Recorded (m.toList ++ past) p' := by
  cases hm with
  | on _ lastStamp frames =>
      refine h.move program (cache nofun) lastStamp nested fun g' hg' => ?_
      obtain ⟨g, hg, start, stamp, -⟩ := frames g' hg'
      exact ⟨g, hg, start, stamp⟩
  | began _ _ lastStamp opened stamp outer => exact h.began program (cache nofun) lastStamp nested opened stamp outer
  | reset dropped closed => exact h.reset dropped closed nested

section Ask

variable {globals : Blackboard} {t : Turn} {i : Instruction} {c : Channel} {q : AnyParam}

/-- Where a channel was drawn before, the same loops were open as are now. -/
theorem map_start_eq (h : Recorded past t.player)
    (hi : t.player.program.instructions[t.player.pointer]? = some i) (hq : (c, q) ∈ i.queries) {a : Ask}
    (ha : past.lastDrawn? (t.player.pointer, c) = some a) :
    a.frames.map (·.start) = t.player.frames.map (·.start) := by
  rw [(h.kept _ i q a hi hq ha).opened, h.nested.map_start (List.getElem?_eq_some_iff.1 hi).1]

theorem needsDraw_iff_due (h : Recorded past t.player)
    (hi : t.player.program.instructions[t.player.pointer]? = some i) (hq : (c, q) ∈ i.queries) :
    t.player.cache.needsDraw (t.player.pointer, c) q.param.reroll t.player.frames = true ↔
      past.Due (t.ask globals (c, q)) := by
  unfold DrawCache.needsDraw History.Due
  simp only [Turn.ask]
  cases ha : past.lastDrawn? (t.player.pointer, c) with
  | none => simp [h.none_kept _ ha]
  | some a =>
      have hk := h.kept _ i q a hi hq ha
      rw [hk.kept]
      cases hr : q.param.reroll with
      | always => simp [DrawCache.keptAs]
      | once => simp [DrawCache.keptAs]
      | atLoops rule =>
          have hstart : (a.frames[rule.depth.toNat]?).map (·.start) =
              (t.player.frames[rule.depth.toNat]?).map (·.start) := by
            rw [← List.getElem?_map, ← List.getElem?_map, h.map_start_eq hi hq ha]
          simp only [DrawCache.keptAs, DrawCache.frameAt?]
          cases hg : t.player.frames[rule.depth.toNat]? with
          | none => simp [hg]
          | some g =>
              rw [hg] at hstart
              obtain ⟨f, hf, hfg⟩ := Option.map_eq_some_iff.1 hstart
              have hiff := hk.stamp_eq_iff f (List.mem_of_getElem? hf) g (List.mem_of_getElem? hg) hfg
              have hne : f.stamp ≠ g.stamp ↔ past.BegunSince (t.player.pointer, c) g.start := by
                rw [Ne, hiff, Classical.not_not]
              simp [hf, hg, hne]

/-- A request that needs no draw is answered by what was drawn last. -/
theorem reusable_of_not_needsDraw (h : Recorded past t.player)
    (hi : t.player.program.instructions[t.player.pointer]? = some i) (hq : (c, q) ∈ i.queries)
    (hn : t.player.cache.needsDraw (t.player.pointer, c) q.param.reroll t.player.frames = false) :
    ∃ a v, past.lastDrawn? (t.player.pointer, c) = some a ∧ a.value = toPayload v ∧
      t.player.cache.reusable? q.α (t.player.pointer, c) q.param.reroll t.player.frames = some v := by
  obtain ⟨kept, hkept⟩ : ∃ kept, t.player.cache.find? (t.player.pointer, c) = some kept := by
    cases hf : t.player.cache.find? (t.player.pointer, c) with
    | some kept => exact ⟨kept, rfl⟩
    | none =>
        rw [DrawCache.needsDraw, hf] at hn
        cases hn
  cases ha : past.lastDrawn? (t.player.pointer, c) with
  | none =>
      rw [h.none_kept _ ha] at hkept
      cases hkept
  | some a =>
      have hk := h.kept _ i q a hi hq ha
      obtain ⟨v, hv⟩ := hk.value
      refine ⟨a, v, rfl, hv, ?_⟩
      have hvalue : kept.value = a.value := by
        have hkeptAs := hk.kept.symm.trans hkept
        cases hr : q.param.reroll with
        | always =>
            rw [hr] at hkeptAs
            cases hkeptAs
        | once =>
            rw [hr] at hkeptAs
            obtain rfl := Option.some.inj hkeptAs
            rfl
        | atLoops rule =>
            rw [hr] at hkeptAs
            obtain rfl := Option.some.inj hkeptAs
            rfl
      rw [DrawCache.reusable?, hn, hkept]
      simp only [Bool.false_eq_true, if_false, Option.bind_some]
      rw [hvalue, hv]
      exact LawfulBlendable.ofPayload?_toPayload v

theorem drawn_ask (h : Recorded past t.player) (globals : Blackboard)
    (hi : t.player.program.instructions[t.player.pointer]? = some i) (hq : (c, q) ∈ i.queries) :
    (t.ask globals (c, q)).drawn =
      t.player.cache.needsDraw (t.player.pointer, c) q.param.reroll t.player.frames := by
  simp only [Turn.ask]
  cases hn : t.player.cache.needsDraw (t.player.pointer, c) q.param.reroll t.player.frames with
  | true =>
      rw [DrawCache.reusable?, if_pos hn]
      rfl
  | false =>
      obtain ⟨a, v, -, -, hv⟩ := h.reusable_of_not_needsDraw hi hq hn
      rw [hv]
      rfl

/-- A request that is answered by what was kept changes nothing. -/
theorem asked_of_not_drawn (h : Recorded past t.player)
    (hi : t.player.program.instructions[t.player.pointer]? = some i) (hq : (c, q) ∈ i.queries)
    (hd : (t.ask globals (c, q)).drawn = false) :
    Recorded (.asked (t.ask globals (c, q)) :: past) (t.answer globals (c, q)).player := by
  have hdrawn := h.drawn_ask globals hi hq
  obtain ⟨a, v, ha, hav, hv⟩ := h.reusable_of_not_needsDraw hi hq (hdrawn.symm.trans hd)
  obtain ⟨hvalue, hplayer, hswarm⟩ := Turn.value_of_reusable globals hv
  have hskip (key : Nat × Channel) :
      ¬((t.ask globals (c, q)).key = key ∧ (t.ask globals (c, q)).drawn = true) := by
    rw [hd]
    exact fun hn => Bool.false_ne_true hn.2
  have hplayer : (t.answer globals (c, q)).player = t.player := hplayer
  rw [hplayer]
  refine ⟨h.nested, h.stamp_le, fun key hn => ?_, fun key i' q' b hi' hq' hb => ?_, ⟨?_, ?_, ?_⟩, h.accounted⟩
  · rw [History.lastDrawn?, if_neg (hskip key)] at hn
    exact h.none_kept key hn
  · rw [History.lastDrawn?, if_neg (hskip key)] at hb
    exact (h.kept key i' q' b hi' hq' hb).asked (hskip key) rfl rfl rfl rfl
  · rw [hdrawn]
    exact h.needsDraw_iff_due hi hq
  · intro hn
    rw [hd] at hn
    cases hn
  · refine fun _ => ⟨a, ha, ?_, hswarm⟩
    rw [hav]
    exact congrArg toPayload hvalue

/-- A draw keeps its value with the loops that are open at it. -/
theorem keptFrom_of_drawn (h : Recorded past t.player)
    (hi : t.player.program.instructions[t.player.pointer]? = some i) (hq : (c, q) ∈ i.queries)
    (hd : (t.ask globals (c, q)).drawn = true) :
    KeptFrom (.asked (t.ask globals (c, q)) :: past) (t.answer globals (c, q)).player (t.player.pointer, c) q
      (t.ask globals (c, q)) where
  value := ⟨_, rfl⟩
  kept := by
    have halways : q.param.reroll = .always → t.player.cache.find? (t.player.pointer, c) = none := by
      intro hr
      cases ha : past.lastDrawn? (t.player.pointer, c) with
      | none => exact h.none_kept _ ha
      | some a => rw [(h.kept _ i q a hi hq ha).kept, hr, DrawCache.keptAs]
    rw [(Turn.answer_of_drawn hd).2, DrawCache.find?_keep_self _ _ _ _ _ halways]
    rfl
  opened := h.nested.map_start (List.getElem?_eq_some_iff.1 hi).1
  stamp_le := h.stamp_le
  stamp_eq_iff := by
    intro f hf g hg hstart
    have hfg : f = g := List.inj_on_of_nodup_map
      (h.nested.pairwise_start.imp fun hgt => (Nat.ne_of_lt hgt).symm) hf hg hstart
    rw [hfg]
    exact iff_of_true rfl fun hn => hn.1 ⟨rfl, hd⟩

theorem asked_of_drawn (h : Recorded past t.player)
    (hi : t.player.program.instructions[t.player.pointer]? = some i) (hq : (c, q) ∈ i.queries)
    (hd : (t.ask globals (c, q)).drawn = true) :
    Recorded (.asked (t.ask globals (c, q)) :: past) (t.answer globals (c, q)).player := by
  obtain ⟨hfresh, hcache⟩ := Turn.answer_of_drawn hd
  have hskip {key : Nat × Channel} (hne : key ≠ (t.player.pointer, c)) :
      ¬((t.ask globals (c, q)).key = key ∧ (t.ask globals (c, q)).drawn = true) := fun hn => hne hn.1.symm
  have hself : (t.ask globals (c, q)).key = (t.player.pointer, c) ∧ (t.ask globals (c, q)).drawn = true :=
    ⟨rfl, hd⟩
  refine ⟨h.nested, h.stamp_le, fun key hn => ?_, fun key i' q' b hi' hq' hb => ?_,
    ⟨?_, fun _ => hfresh, fun hn => ?_⟩, h.accounted⟩
  · by_cases hkey : key = (t.player.pointer, c)
    · rw [hkey, History.lastDrawn?, if_pos hself] at hn
      cases hn
    · rw [History.lastDrawn?, if_neg (hskip hkey)] at hn
      rw [hcache, DrawCache.find?_keep_of_ne _ hkey]
      exact h.none_kept key hn
  · by_cases hkey : key = (t.player.pointer, c)
    · subst hkey
      rw [History.lastDrawn?, if_pos hself] at hb
      obtain rfl := Option.some.inj hb
      obtain rfl : i = i' := Option.some.inj (hi.symm.trans hi')
      obtain rfl := Instruction.query_unique hq hq'
      exact h.keptFrom_of_drawn hi hq hd
    · rw [History.lastDrawn?, if_neg (hskip hkey)] at hb
      refine (h.kept key i' q' b hi' hq' hb).asked (hskip hkey) rfl ?_ rfl rfl
      rw [hcache, DrawCache.find?_keep_of_ne _ hkey]
  · rw [h.drawn_ask globals hi hq]
    exact h.needsDraw_iff_due hi hq
  · rw [hd] at hn
    cases hn

theorem asked (h : Recorded past t.player) (globals : Blackboard)
    (hi : t.player.program.instructions[t.player.pointer]? = some i) (hq : (c, q) ∈ i.queries) :
    Recorded (.asked (t.ask globals (c, q)) :: past) (t.answer globals (c, q)).player := by
  cases hd : (t.ask globals (c, q)).drawn with
  | true => exact h.asked_of_drawn hi hq hd
  | false => exact h.asked_of_not_drawn hi hq hd

/-- All requests of an instruction, in order. -/
theorem asks (h : Recorded past t.player) (globals : Blackboard)
    (hi : t.player.program.instructions[t.player.pointer]? = some i) (qs : List Query)
    (hqs : ∀ q ∈ qs, q ∈ i.queries) :
    Recorded (((t.asks globals qs).map .asked).reverse ++ past) (t.answerAll globals qs).player := by
  induction qs generalizing t past with
  | nil => exact h
  | cons q qs ih =>
      have hstep := h.asked globals hi (hqs q List.mem_cons_self)
      rw [Turn.asks, List.map_cons, List.reverse_cons, List.append_assoc]
      exact ih (t := t.answer globals q) hstep hi fun q' hq' => hqs q' (List.mem_cons_of_mem _ hq')

/-- An executed instruction: its requests, then what it does to the loops. -/
theorem execute (h : Recorded past t.player) (globals : Blackboard)
    (hi : t.player.program.instructions[t.player.pointer]? = some i) (enabled : i.enabled = true) :
    Recorded (t.moments globals i ++ past)
      ((t.count.execute globals i).2.follow (t.count.execute globals i).1).turn.player := by
  have hw := asks (t := t.count) h globals hi i.queries fun _ hq => hq
  have same := Turn.undisturbed_answerAll globals t.count i.queries
  have he := Turn.executed_execute t.count globals i
  have nested := he.nested_turn (t := t.count) h.nested hi enabled
  have marked := he.marked (t := t.count) hi
  have program := he.pattern_turn.program.trans same.program.symm
  rw [Turn.moments, List.append_assoc]
  refine hw.marked (marked.congr same.pointer same.lastStamp same.frames) program (fun kept => ?_) nested
  rw [Turn.cache_follow]
  exact Turn.cache_execute globals t.count i (fun ha => kept (by rw [ha]; rfl)) fun ha => kept (by rw [ha]; rfl)

/-- One round of an update. -/
theorem round (h : Recorded past t.player) (globals : Blackboard) :
    Recorded (t.logs (Turn.moments globals) ++ past) (t.round globals).turn.player := by
  have rounded := Turn.rounded_round globals t
  rcases Turn.moments_cases globals t with ⟨moments, cache, marked⟩ | ⟨i, here, enabled, moments, turn⟩
  · rw [moments]
    exact h.marked marked rounded.pattern_turn.program (fun _ => cache) (rounded.nested_turn h.nested)
  · rw [moments, turn]
    exact h.execute globals here enabled

end Ask

theorem after {l : Life} (h : Recorded l.past l.player) (calls : List Call) :
    Recorded (l.after calls).past (l.after calls).player :=
  Life.after_induction (P := Recorded) (fun globals _ _ h => h.round globals)
    (fun _ _ _ _ h => h.move rfl rfl rfl h.nested fun g hg => ⟨g, hg, rfl, rfl⟩)
    (fun _ _ _ h => h.move rfl rfl rfl h.nested fun g hg => ⟨g, hg, rfl, rfl⟩)
    (fun _ p _ h => h.reset rfl rfl (.nil p.program)) h calls

end Recorded

namespace Life

/-- Over every life of a player, each request is answered by a draw exactly if one is due, and else by what was drawn
last, with nothing drawn. A life records the requests of all instructions that its updates execute, in order, and
whatever an instruction does with its parameters, at any turn, it does with the answers to these requests. -/
theorem accounted_after (program : Program) (emitter : ProjectileId) (slot : UInt32) (calls : List Call) :
    let l := (ofProgram program emitter slot).after calls
    l.player = (Player.ofProgram program emitter slot).after calls ∧ l.past.Accounted ∧
    (∀ dt globals swarm, l.call (.update dt globals swarm) = ⟨(l.player.update dt globals swarm).player,
      Turn.logged (Turn.moments globals) (l.player.executions dt globals swarm) ++ l.past⟩) ∧
    ∀ (globals : Blackboard) (t : Turn) (i : Instruction), t.Answered globals i :=
  ⟨player_after _ calls, ((Recorded.nil program emitter slot).after calls).accounted, fun _ _ _ => rfl,
    Turn.answered⟩

end Life

end Danmaku
