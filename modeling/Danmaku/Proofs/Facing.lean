import Danmaku.Proofs.Course
import Danmaku.Proofs.PlainResolution
import Danmaku.Proofs.Rerolls

/-! Programs that differ in one loop. A player of the one and a course through the other stand alongside each other:
they are at places that correspond, they have the same loops open, that one apart, and they keep the same draws for the
instructions that face each other. What waits and other loops do to the two is the same, however the programs differ.
What the begin and the end of the loop do is for those who say how they differ. -/

namespace Danmaku

namespace DrawCache

variable {α : Type} [Blendable α]

theorem reusable?_always (c : DrawCache) (key : Nat × Channel) (frames : List Frame) :
    c.reusable? α key .always frames = none := by
  unfold reusable? needsDraw
  cases c.find? key <;> rfl

/-- Loops count only where a rule asks for them. -/
theorem reusable?_congr {c c' : DrawCache} {key key' : Nat × Channel} (h : c'.find? key' = c.find? key)
    {reroll : Reroll} (free : ∀ rule, reroll ≠ .atLoops rule) (frames frames' : List Frame) :
    c.reusable? α key reroll frames = c'.reusable? α key' reroll frames' := by
  unfold reusable? needsDraw
  rw [h]
  cases reroll with
  | atLoops rule => exact absurd rfl (free rule)
  | _ => rfl

theorem find?_keep_congr {c c' : DrawCache} {key key' : Nat × Channel} (h : c'.find? key' = c.find? key)
    {reroll : Reroll} (free : ∀ rule, reroll ≠ .atLoops rule) (frames frames' : List Frame) (value : Payload) :
    (c'.keep key' reroll frames' value).find? key' = (c.keep key reroll frames value).find? key := by
  cases reroll with
  | always => exact h
  | once =>
      have drawn : Reroll.once ≠ .always := nofun
      rw [find?_keep_self _ _ _ _ _ (absurd · drawn), find?_keep_self _ _ _ _ _ (absurd · drawn)]
      rfl
  | atLoops rule => exact absurd rfl (free rule)

theorem value_of_find?_keep {c : DrawCache} {key : Nat × Channel} {reroll : Reroll} {frames : List Frame}
    {value : Payload} {kept : KeptDraw} (h : (c.keep key reroll frames value).find? key = some kept) :
    c.find? key = some kept ∨ kept.value = value := by
  by_cases always : reroll = .always
  · subst always
    exact Or.inl h
  · rw [find?_keep_self c key reroll frames value (absurd · always)] at h
    refine Or.inr ?_
    cases reroll with
    | always => exact absurd rfl always
    | _ =>
        obtain rfl := Option.some.inj h
        rfl

end DrawCache

theorem Tree.node?_root {α : Type} (t : Tree α) : t.node? .root = some t.root :=
  Array.getElem?_eq_getElem t.nonempty

/-- A fixed root is the value, and nothing is drawn for it. -/
theorem Param.draw_of_fixed {α : Type} [Blendable α] {p : Param α} (fixed : p.tree.root.mode = .fixed)
    (view : Viewpoint) (owner : Owner) (s : Stage) : p.draw view owner s = (p.tree.root.default, s) := by
  have evaluates : p.tree.Evaluates view owner p.operation .root s (.leaf .root) p.tree.root.default s :=
    .fixed p.tree.node?_root fixed
  rw [Param.draw, Tree.resolveFrom_of_evaluates evaluates ⟨by simp [Tree.Trail.Simple], by decide, by decide⟩]

/-- A fixed parameter gives its default. It is drawn without a trace, or kept as it is. -/
theorem Turn.value_of_fixed {α : Type} [Blendable α] (t : Turn) (globals : Blackboard) {p : Param α} (channel : Channel)
    (fixed : p.tree.root.mode = .fixed)
    (kept : ∀ kept, t.player.cache.find? (t.player.pointer, channel) = some kept →
      ofPayload? kept.value = some p.tree.root.default) :
    ∃ cache, t.value globals p channel =
        (p.tree.root.default, { t with player := { t.player with cache } }) ∧
      (cache = t.player.cache ∨ cache = t.player.cache.keep (t.player.pointer, channel) p.reroll
        t.player.frames (toPayload p.tree.root.default)) := by
  cases hr : t.player.cache.reusable? α (t.player.pointer, channel) p.reroll t.player.frames with
  | some v =>
      refine ⟨t.player.cache, ?_, Or.inl rfl⟩
      have hv : v = p.tree.root.default := by
        unfold DrawCache.reusable? at hr
        split at hr
        · cases hr
        · obtain ⟨k, hk, hv⟩ := Option.bind_eq_some_iff.1 hr
          exact Option.some.inj (hv.symm.trans (kept k hk))
      simp only [value, drawing, Ledger.draw, hr, hv]
      simp
  | none =>
      refine ⟨_, ?_, Or.inr rfl⟩
      simp only [value, drawing, Ledger.draw, hr, Param.draw_of_fixed fixed]
      simp

namespace Frame

/-- The open loops but for the one that begins at a position. -/
def others (head : Nat) (frames : List Frame) : List Frame := frames.filter (·.start ≠ head + 1)

variable {head : Nat} {f : Frame}

theorem others_cons_of_ne (h : f.start ≠ head + 1) (fs : List Frame) : others head (f :: fs) = f :: others head fs :=
  List.filter_cons_of_pos (by simpa using h)

theorem others_cons_of_eq (h : f.start = head + 1) (fs : List Frame) : others head (f :: fs) = others head fs :=
  List.filter_cons_of_neg (by simpa using h)

theorem others_map_waited (fs : List Frame) :
    others head (fs.map ({ · with waited := true })) = (others head fs).map ({ · with waited := true }) :=
  List.filter_map

/-- Frames of one loop, which stands elsewhere in the other program. They can only differ in their stamps and in how
often they have turned. -/
structure Counterpart (move : Nat → Nat) (f f' : Frame) : Prop where
  start : f'.start = move f.start
  remaining : f'.remaining = f.remaining
  endless : f'.endless = f.endless
  waited : f'.waited = f.waited

end Frame

/-- A program and one that differs from it in one loop. -/
structure Facing where
  text : Program
  other : Program
  id : other.id = text.id
  /-- Where the loop begins. -/
  head : Nat
  /-- The instructions that keep their draws in both programs. -/
  Faces : Nat → Prop
  /-- Where they stand in the other program. -/
  across : Nat → Nat
  /-- What may be kept of the count of the loop. -/
  Counts : Payload → Prop
  ne_head : ∀ s, Faces s → s ≠ head
  injective : ∀ s s', Faces s → Faces s' → across s = across s' → s = s'

namespace Facing

/-- The same draws are kept for the instructions that face each other. -/
structure Agree (x : Facing) (c c' : DrawCache) : Prop where
  others : ∀ s channel, x.Faces s → c'.find? (x.across s, channel) = c.find? (s, channel)
  count : ∀ kept, c.find? (x.head, .main) = some kept → x.Counts kept.value

/-- A player of the program and a course through the other one, with places moved so. The loop that is apart, where it
is open, turns on as it should. -/
structure Alongside (x : Facing) (move : Nat → Nat) (turning : Bool → Int → Prop) (p : Player) (c : Course) : Prop where
  whole : p.program = x.text
  differs : c.program = x.other
  pointer : c.pointer = move p.pointer
  frames : List.Forall₂ (Frame.Counterpart move) (Frame.others x.head p.frames) c.frames
  own : ∀ f ∈ p.frames, f.start = x.head + 1 → turning f.endless f.remaining
  kept : x.Agree p.cache c.cache

/-- A loop that begins here begins in the other program too, and is left for places that correspond. -/
structure Corresponds (x : Facing) (move : Nat → Nat) (s : Nat) : Prop where
  ne_head : s ≠ x.head
  succ : move (s + 1) = move s + 1
  afterLoop : x.other.afterLoop (move s) = move (x.text.afterLoop s)

variable {x : Facing} {move : Nat → Nat} {turning : Bool → Int → Prop} {s : Nat} {p : Player} {t u : Turn} {c : Course}
  {i : Instruction} {globals : Blackboard}

namespace Agree

variable {k k' : DrawCache}

theorem empty (x : Facing) : x.Agree {} {} := ⟨fun _ _ _ => rfl, nofun⟩

theorem keep (h : x.Agree k k') (here : x.Faces s) (channel : Channel) {reroll : Reroll}
    (free : ∀ rule, reroll ≠ .atLoops rule) (fs fs' : List Frame) (value : Payload) :
    x.Agree (k.keep (s, channel) reroll fs value) (k'.keep (x.across s, channel) reroll fs' value) := by
  constructor
  · intro s' channel' here'
    by_cases key : (s', channel') = (s, channel)
    · obtain ⟨rfl, rfl⟩ := Prod.mk.inj key
      exact DrawCache.find?_keep_congr (h.others s' channel' here') free fs fs' value
    · have key' : (x.across s', channel') ≠ (x.across s, channel) := fun heq => by
        obtain ⟨hs, rfl⟩ := Prod.mk.inj heq
        exact key (by rw [x.injective s' s here' here hs])
      rw [DrawCache.find?_keep_of_ne _ key, DrawCache.find?_keep_of_ne _ key']
      exact h.others s' channel' here'
  · intro kept hkept
    rw [DrawCache.find?_keep_of_ne _ fun heq => x.ne_head s here (Prod.mk.inj heq).1.symm] at hkept
    exact h.count kept hkept

/-- What the begin of the loop keeps, the other program never asks for. -/
theorem keep_count (h : x.Agree k k') (reroll : Reroll) (fs : List Frame) {value : Payload} (counts : x.Counts value) :
    x.Agree (k.keep (x.head, .main) reroll fs value) k' := by
  constructor
  · intro s channel here
    rw [DrawCache.find?_keep_of_ne _ fun heq => x.ne_head s here (Prod.mk.inj heq).1]
    exact h.others s channel here
  · intro kept hkept
    rcases DrawCache.value_of_find?_keep hkept with hkept | same
    · exact h.count kept hkept
    · rwa [same]

end Agree

/-- At the start of the two programs. -/
theorem alongside_ofProgram (x : Facing) (turning : Bool → Int → Prop) (start : move 0 = 0)
    (startStatus : Player.startStatus x.other = Player.startStatus x.text) (emitter : ProjectileId) (slot : UInt32) :
    ∃ c, Player.ofProgram x.other emitter slot = (Player.ofProgram x.text emitter slot).onto c ∧
      x.Alongside move turning (Player.ofProgram x.text emitter slot) c := by
  refine ⟨{ program := x.other }, ?_, rfl, rfl, start.symm, .nil, fun f hf => absurd hf List.not_mem_nil, .empty x⟩
  rw [Player.ofProgram, Player.ofProgram, startStatus]
  rfl

namespace Alongside

theorem program_id (a : x.Alongside move turning p c) : c.program.id = p.program.id := by
  rw [a.whole, a.differs, x.id]

theorem of_undisturbed (a : x.Alongside move turning t.player c) (same : Turn.Undisturbed t u) {cache : DrawCache}
    (kept : x.Agree u.player.cache cache) : x.Alongside move turning u.player { c with cache } where
  whole := same.program.trans a.whole
  differs := a.differs
  pointer := by rw [same.pointer]; exact a.pointer
  frames := by rw [same.frames]; exact a.frames
  own := by rw [same.frames]; exact a.own
  kept := kept

/-- At the start of the two programs, with nothing kept. -/
theorem reset (a : x.Alongside move turning p c) (start : move 0 = 0) :
    x.Alongside move turning p.reset c.reset where
  whole := a.whole
  differs := a.differs
  pointer := start.symm
  frames := .nil
  own := fun _ hf => absurd hf List.not_mem_nil
  kept := .empty x

theorem relation (x : Facing) (turning : Bool → Int → Prop) (start : move 0 = 0)
    (startStatus : Player.startStatus x.other = Player.startStatus x.text) :
    Course.Kept (x.Alongside move turning) where
  id _ _ a := a.program_id
  startStatus p c a := by rw [a.whole, a.differs, startStatus]
  status _ _ _ a := { a with }
  reset _ _ a := a.reset start

/-- Where no loop is open, none is. -/
theorem frames_eq_nil (a : x.Alongside move turning p c) (opened : p.frames = []) : c.frames = [] := by
  have same := a.frames
  rw [opened] at same
  exact List.forall₂_nil_left_iff.1 same

/-- Another loop that is the innermost is so on both sides, and may be closed. -/
theorem exists_cons (a : x.Alongside move turning p c) {f : Frame} {fs : List Frame} (opened : p.frames = f :: fs)
    (other : f.start ≠ x.head + 1) : ∃ f' fs', c.frames = f' :: fs' ∧ f.Counterpart move f' ∧
      x.Alongside move turning { p with frames := fs } { c with frames := fs' } := by
  have same := a.frames
  rw [opened, Frame.others_cons_of_ne other] at same
  obtain ⟨f', fs', counterpart, others, opened'⟩ := List.forall₂_cons_left_iff.1 same
  refine ⟨f', fs', opened', counterpart, { a with frames := others, own := fun g hg => ?_ }⟩
  exact a.own g (opened ▸ List.mem_cons_of_mem f hg)

/-- The loop that is apart is not open on the other side. -/
theorem frames_of_own (a : x.Alongside move turning p c) {f : Frame} {fs : List Frame} (opened : p.frames = f :: fs)
    (own : f.start = x.head + 1) : List.Forall₂ (Frame.Counterpart move) (Frame.others x.head fs) c.frames := by
  have same := a.frames
  rwa [opened, Frame.others_cons_of_eq own] at same

/-- Another loop is opened on both sides. -/
theorem cons (a : x.Alongside move turning p c) {f f' : Frame} (counterpart : f.Counterpart move f')
    (other : f.start ≠ x.head + 1) :
    x.Alongside move turning { p with frames := f :: p.frames } { c with frames := f' :: c.frames } := by
  refine { a with frames := ?_, own := fun g hg => ?_ }
  · rw [Frame.others_cons_of_ne other]
    exact .cons counterpart a.frames
  · rcases List.mem_cons.1 hg with rfl | hg
    · exact fun own => absurd own other
    · exact a.own g hg

/-- The loop that is apart is opened on the one side alone. -/
theorem cons_own (a : x.Alongside move turning p c) {f : Frame} (own : f.start = x.head + 1)
    (turns : turning f.endless f.remaining) : x.Alongside move turning { p with frames := f :: p.frames } c := by
  refine { a with frames := ?_, own := fun g hg => ?_ }
  · rw [Frame.others_cons_of_eq own]
    exact a.frames
  · rcases List.mem_cons.1 hg with rfl | hg
    · exact fun _ => turns
    · exact a.own g hg

/-- The loop that is apart is closed on the one side alone. -/
theorem tail_of_own (a : x.Alongside move turning p c) {f : Frame} {fs : List Frame} (opened : p.frames = f :: fs)
    (own : f.start = x.head + 1) : x.Alongside move turning { p with frames := fs } c :=
  { a with frames := a.frames_of_own opened own, own := fun g hg => a.own g (opened ▸ List.mem_cons_of_mem f hg) }

/-- An instruction that faces another one, and counts no loops, is answered alike. -/
theorem faithful_of_faces (a : x.Alongside move turning t.player c) (here : x.Faces t.player.pointer)
    (place : move t.player.pointer = x.across t.player.pointer) {q : Query}
    (free : ∀ rule, q.2.param.reroll ≠ .atLoops rule) : Faithful x.Agree t c q := by
  have pointer : c.pointer = x.across t.player.pointer := a.pointer.trans place
  constructor
  · intro k k' agree
    rw [pointer]
    exact DrawCache.reusable?_congr (agree.others _ _ here) free _ _
  · intro k k' value agree
    rw [pointer]
    exact agree.keep here q.1 free _ _ value

theorem wait (a : x.Alongside move turning t.player c) {seconds : Param Single}
    (faithful : Faithful x.Agree t c (.main, ⟨seconds⟩)) :
    ∃ c', (t.onto c).wait globals seconds =
        ((t.wait globals seconds).1.map move, (t.wait globals seconds).2.onto c') ∧
      x.Alongside move turning (t.wait globals seconds).2.player c' := by
  obtain ⟨cache, u, time, same, kept, ⟨hwait, hwait'⟩ | ⟨hwait, hwait'⟩⟩ := Turn.wait_onto globals a.kept faithful
  · have hu := a.of_undisturbed same kept
    rw [hwait, hwait']
    refine ⟨_, rfl, hu.whole, hu.differs, hu.pointer, ?_, fun f hf => ?_, hu.kept⟩
    · change List.Forall₂ _ (Frame.others x.head (u.player.frames.map _)) _
      rw [Frame.others_map_waited]
      exact List.forall₂_map_left_iff.2 (List.forall₂_map_right_iff.2
        (hu.frames.imp fun f f' hf => ⟨hf.start, hf.remaining, hf.endless, rfl⟩))
    · obtain ⟨g, hg, rfl⟩ := List.mem_map.1 hf
      exact hu.own g hg
  · rw [hwait, hwait']
    exact ⟨_, rfl, a.of_undisturbed same kept⟩

/-- Another loop is entered on both sides, or passed by to places that correspond. -/
theorem beginLoop (a : x.Alongside move turning t.player c) (here : x.Corresponds move t.player.pointer)
    {iterations : Param Int32} (endless : Bool) (faithful : Faithful x.Agree t c (.main, ⟨iterations⟩)) :
    ∃ c', (t.onto c).beginLoop globals iterations endless =
        ((t.beginLoop globals iterations endless).1.map move,
          (t.beginLoop globals iterations endless).2.onto c') ∧
      x.Alongside move turning (t.beginLoop globals iterations endless).2.player c' := by
  obtain ⟨cache, u, count, same, kept, ⟨hpass, hpass'⟩ | ⟨henter, henter'⟩⟩ :=
    Turn.beginLoop_onto globals endless a.kept faithful
  · have after : c.program.afterLoop c.pointer = move (t.player.program.afterLoop t.player.pointer) := by
      rw [a.differs, a.pointer, a.whole, here.afterLoop]
    rw [hpass, hpass', after]
    exact ⟨_, rfl, a.of_undisturbed same kept⟩
  · have hu := a.of_undisturbed same kept
    rw [henter, henter']
    have start : c.pointer + 1 = move (u.player.pointer + 1) := by rw [same.pointer, here.succ, a.pointer]
    have other : u.player.pointer + 1 ≠ x.head + 1 := by
      rw [same.pointer]
      exact fun own => here.ne_head (Nat.succ.inj own)
    have opened : Frame.Counterpart move
        { start := u.player.pointer + 1, remaining := count, endless, stamp := u.player.lastStamp + 1 }
        { start := c.pointer + 1, remaining := count, endless, stamp := c.lastStamp + 1 } :=
      ⟨start, rfl, rfl, rfl⟩
    exact ⟨_, rfl, { hu.cons opened other with }⟩

/-- The end of another loop closes it on both sides, or goes back to its start. -/
theorem endLoop (a : x.Alongside move turning t.player c)
    (other : ∀ f fs, t.player.frames = f :: fs → f.start ≠ x.head + 1) :
    ∃ c', (t.onto c).endLoop = (t.endLoop.1.map move, t.endLoop.2.onto c') ∧
      x.Alongside move turning t.endLoop.2.player c' := by
  cases opened : t.player.frames with
  | nil =>
      have opened' : (t.onto c).player.frames = [] := a.frames_eq_nil opened
      have id : (t.onto c).player.program.id = t.player.program.id := a.program_id
      simp only [Turn.endLoop, opened, opened', id]
      exact ⟨c, rfl, a⟩
  | cons f fs =>
      have other := other f fs opened
      obtain ⟨f', fs', opened', counterpart, rest⟩ := a.exists_cons opened other
      obtain ⟨closed, closed'⟩ | ⟨flow, left, turned, turned'⟩ := Turn.endLoop_onto opened opened' move
        counterpart.start counterpart.remaining counterpart.endless counterpart.waited
      · rw [closed, closed']
        exact ⟨_, rfl, rest⟩
      · rw [turned, turned']
        have next : (t.nextIteration f left).Counterpart move ((t.onto c).nextIteration f' left) :=
          ⟨counterpart.start, rfl, counterpart.endless, rfl⟩
        exact ⟨_, rfl, { rest.cons next other with }⟩

/-- An instruction other than the begin and the end of the loop does the same on both sides. -/
theorem execute (a : x.Alongside move turning t.player c) (kept : Course.Kept (x.Alongside move turning))
    (faithful : ∀ q ∈ i.queries, Faithful x.Agree t c q)
    (begins : ∀ iterations endless, i.action = .beginLoop iterations endless → x.Corresponds move t.player.pointer)
    (ends : i.action = .endLoop → ∀ f fs, t.player.frames = f :: fs → f.start ≠ x.head + 1) (globals : Blackboard) :
    ∃ c', (t.onto c).execute globals i = ((t.execute globals i).1.map move, (t.execute globals i).2.onto c') ∧
      x.Alongside move turning (t.execute globals i).2.player c' := by
  have main {q : AnyParam} (hq : i.action.param? = some q) : Faithful x.Agree t c (.main, q) :=
    faithful _ (Instruction.main_mem_queries hq)
  refine kept.execute a globals i move a.kept faithful (fun _ _ same kept => a.of_undisturbed same kept)
    (fun seconds action => ?_) (fun iterations endless action => ?_) fun action => ?_
  · exact a.wait (main (by rw [action]; rfl))
  · exact a.beginLoop (begins iterations endless action) endless (main (by rw [action]; rfl))
  · exact a.endLoop (ends action)

/-- At the begin of the loop a fixed count is asked for without a trace. -/
theorem value_head (a : x.Alongside move turning t.player c) (begin : t.player.pointer = x.head)
    {iterations : Param Int32} (fixed : iterations.tree.root.mode = .fixed)
    (counts : ∀ value, x.Counts value ↔ ofPayload? value = some iterations.tree.root.default) (globals : Blackboard) :
    ∃ cache, t.value globals iterations .main =
        (iterations.tree.root.default, { t with player := { t.player with cache } }) ∧
      x.Agree cache c.cache := by
  have known (kept : KeptDraw) (h : t.player.cache.find? (t.player.pointer, .main) = some kept) :
      ofPayload? kept.value = some iterations.tree.root.default := by
    rw [begin] at h
    exact (counts _).1 (a.kept.count kept h)
  obtain ⟨cache, hvalue, hcache⟩ := t.value_of_fixed globals .main fixed known
  refine ⟨cache, hvalue, ?_⟩
  rcases hcache with rfl | rfl
  · exact a.kept
  · rw [begin]
    exact a.kept.keep_count _ _ ((counts _).2 rfl)

end Alongside

end Facing

end Danmaku
