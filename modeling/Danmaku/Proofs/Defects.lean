import Mathlib.Order.WellFounded
import Danmaku.Tree.Defect

/-! What the defects of a tree say. The local ones are read off the nodes. The search for cycles is sound
because the nodes of its path lead to one another: a link back into the path closes a cycle. It is complete
because of the nodes that it is done with: whoever follows links from such a node comes to an end. A node is
done with when all of its links are, so as long as no link leads back into the path, every node comes to be
one of them. -/

namespace Danmaku.Tree

variable {α : Type} {t : Tree α} {i node child : NodeIndex}

theorem isSome_of_mem_links (h : child ∈ t.links node) : (t.node? node).isSome := by
  unfold links at h
  cases found : t.node? node with
  | none =>
      rw [found] at h
      cases h
  | some n => rfl

theorem mem_indices (h : (t.node? i).isSome) : i ∈ t.indices := by
  unfold node? at h
  split at h
  · cases h
  · rename_i hi
    have hpos : i.val.toNat ≠ 0 := fun h0 => hi (UInt32.toNat_inj.1 h0)
    obtain ⟨n, hn⟩ := Option.isSome_iff_exists.1 h
    have hlt : i.val.toNat - 1 < t.size := (Array.getElem?_eq_some_iff.1 hn).1
    refine List.mem_map.2 ⟨i.val.toNat - 1, List.mem_range.2 hlt, ?_⟩
    rw [NodeIndex.ofPosition, Nat.sub_add_cancel (Nat.pos_of_ne_zero hpos), UInt32.ofNat_toNat]

/-- As long as they can be counted, all nodes can be addressed. -/
theorem exists_index {n : Node α} (h : n ∈ t.nodes) (hsize : t.size < UInt32.size) : ∃ i, t.node? i = some n := by
  obtain ⟨k, hk, rfl⟩ := Array.mem_iff_getElem.1 h
  have hlt : k + 1 < UInt32.size := Nat.lt_of_le_of_lt hk hsize
  have hval : (NodeIndex.ofPosition k).val.toNat = k + 1 := by
    simp only [NodeIndex.ofPosition]
    exact UInt32.toNat_ofNat_of_lt' hlt
  have hne : (NodeIndex.ofPosition k).val ≠ 0 := by
    intro h0
    rw [h0] at hval
    cases hval
  refine ⟨.ofPosition k, ?_⟩
  rw [node?, if_neg hne, hval, Nat.add_sub_cancel]
  exact Array.getElem?_eq_getElem hk

/-- A node resolves through another one, or through itself, or through one that is not there. -/
def Link (t : Tree α) (node child : NodeIndex) : Prop := child ∈ t.links node

/-- The links that the search for cycles follows: those to another node that is there. -/
structure Follows (t : Tree α) (node child : NodeIndex) : Prop where
  link : t.Link node child
  other : child ≠ node
  found : (t.node? child).isSome

/-- Whoever follows links from here comes to an end. -/
def Ends (t : Tree α) (i : NodeIndex) : Prop := Acc (fun child node => t.Follows node child) i

section Search

variable {fresh : List NodeIndex} {path : List (NodeIndex × List NodeIndex)} {links : List NodeIndex}

/-- A path of the search, innermost node first: the nodes lead to those further in, and each has links left
that are its own. -/
structure Descends (t : Tree α) (path : List (NodeIndex × List NodeIndex)) : Prop where
  leads : path.Pairwise fun inner outer => Relation.TransGen t.Link outer.1 inner.1
  own : ∀ e ∈ path, ∀ child ∈ e.2, t.Link e.1 child

theorem Descends.nil (t : Tree α) : t.Descends [] := ⟨.nil, fun _ he => absurd he List.not_mem_nil⟩

theorem Descends.start (t : Tree α) (i : NodeIndex) : t.Descends [(i, t.links i)] where
  leads := List.pairwise_singleton _ _
  own := by
    intro e he child hchild
    obtain rfl := List.mem_singleton.1 he
    exact hchild

theorem Descends.tail {e : NodeIndex × List NodeIndex} (h : t.Descends (e :: path)) : t.Descends path where
  leads := h.leads.tail
  own := fun e he => h.own e (List.mem_cons_of_mem _ he)

theorem Descends.pass (h : t.Descends ((node, child :: links) :: path)) :
    t.Descends ((node, links) :: path) where
  leads := List.pairwise_cons.2 (List.pairwise_cons.1 h.leads)
  own := by
    intro e he
    rcases List.mem_cons.1 he with rfl | he
    · exact fun c hc => h.own _ List.mem_cons_self c (List.mem_cons_of_mem _ hc)
    · exact h.own e (List.mem_cons_of_mem _ he)

theorem Descends.link (h : t.Descends ((node, child :: links) :: path)) : t.Link node child :=
  h.own _ List.mem_cons_self child List.mem_cons_self

theorem Descends.enter (h : t.Descends ((node, child :: links) :: path)) :
    t.Descends ((child, t.links child) :: (node, links) :: path) where
  leads := by
    refine List.pairwise_cons.2 ⟨fun e he => ?_, h.pass.leads⟩
    rcases List.mem_cons.1 he with rfl | he
    · exact .single h.link
    · exact .tail (List.rel_of_pairwise_cons h.leads he) h.link
  own := by
    intro e he
    rcases List.mem_cons.1 he with rfl | he
    · exact fun c hc => hc
    · exact h.pass.own e he

/-- What the search reports is a cycle: a link to another node from which a way leads back. -/
theorem exists_cycle_of_mem_walk {d : Defect} (h : t.Descends path) (hd : d ∈ t.walk fresh path) :
    ∃ node child, d = .cycle node child ∧ t.Link node child ∧ child ≠ node ∧
      Relation.TransGen t.Link child node := by
  fun_induction t.walk fresh path with
  | case1 => cases hd
  | case2 start fresh ih => exact ih (.start t start) hd
  | case3 fresh node path ih => exact ih h.tail hd
  | case4 fresh node child links path rest skip ih => exact ih h.pass hd
  | case5 fresh node child links path rest keep new ih => exact ih h.enter hd
  | case6 fresh node child links path rest keep old onPath ih =>
      rcases List.mem_cons.1 hd with rfl | hd
      · obtain ⟨hne, -⟩ := not_or.1 keep
        obtain ⟨e, he, hchild⟩ := List.any_eq_true.1 onPath
        obtain rfl : e.1 = child := by simpa using hchild
        refine ⟨node, e.1, rfl, h.link, hne, ?_⟩
        rcases List.mem_cons.1 he with rfl | he
        · exact absurd rfl hne
        · exact List.rel_of_pairwise_cons h.leads he
      · exact ih h.pass hd
  | case7 fresh node child links path rest keep old offPath ih => exact ih h.pass hd

/-- The links of the nodes on a path are left, or lead to where links end, or to the node that was entered
from there. -/
def Examined (t : Tree α) : Option NodeIndex → List (NodeIndex × List NodeIndex) → Prop
  | _, [] => True
  | entered, (node, links) :: path =>
    (∀ child, t.Follows node child → child ∈ links ∨ entered = some child ∨ t.Ends child) ∧
      t.Examined (some node) path

/-- Links end at a node that was entered and left. -/
theorem Examined.leave (h : t.Examined (some node) path) (ends : t.Ends node) : t.Examined none path := by
  cases path with
  | nil => trivial
  | cons e path =>
      refine ⟨fun child hchild => ?_, h.2⟩
      rcases h.1 child hchild with hleft | hentered | hends
      · exact Or.inl hleft
      · obtain rfl := Option.some.inj hentered
        exact Or.inr (Or.inr ends)
      · exact Or.inr (Or.inr hends)

theorem Examined.pass (h : t.Examined none ((node, child :: links) :: path))
    (hchild : t.Follows node child → t.Ends child) : t.Examined none ((node, links) :: path) := by
  refine ⟨fun c hc => ?_, h.2⟩
  rcases h.1 c hc with hleft | hentered | hends
  · rcases List.mem_cons.1 hleft with rfl | hleft
    · exact Or.inr (Or.inr (hchild hc))
    · exact Or.inl hleft
  · cases hentered
  · exact Or.inr (Or.inr hends)

theorem Examined.enter (h : t.Examined none ((node, child :: links) :: path)) :
    t.Examined none ((child, t.links child) :: (node, links) :: path) := by
  refine ⟨fun c hc => Or.inl hc.link, fun c hc => ?_, h.2⟩
  rcases h.1 c hc with hleft | hentered | hends
  · rcases List.mem_cons.1 hleft with rfl | hleft
    · exact Or.inr (Or.inl rfl)
    · exact Or.inl hleft
  · cases hentered
  · exact Or.inr (Or.inr hends)

/-- A node that the search has met is on its path, or links end there. -/
def Met (t : Tree α) (fresh : List NodeIndex) (path : List (NodeIndex × List NodeIndex)) : Prop :=
  ∀ i, (t.node? i).isSome → i ∈ fresh ∨ (∃ e ∈ path, e.1 = i) ∨ t.Ends i

theorem Met.step {fresh' : List NodeIndex} {path' : List (NodeIndex × List NodeIndex)} (h : t.Met fresh path)
    (hfresh : ∀ i ∈ fresh, i ∈ fresh' ∨ ∃ e ∈ path', e.1 = i)
    (hpath : ∀ e ∈ path, (∃ e' ∈ path', e'.1 = e.1) ∨ t.Ends e.1) : t.Met fresh' path' := by
  intro i hi
  rcases h i hi with hmem | ⟨e, he, rfl⟩ | hends
  · exact (hfresh i hmem).imp_right Or.inl
  · exact Or.inr (hpath e he)
  · exact Or.inr (Or.inr hends)

theorem Met.enter (h : t.Met fresh path) (e : NodeIndex × List NodeIndex)
    {fresh' : List NodeIndex} (hfresh : ∀ i ∈ fresh, i ∈ fresh' ∨ i = e.1) : t.Met fresh' (e :: path) := by
  refine h.step (fun i hi => ?_) fun e' he' => Or.inl ⟨e', List.mem_cons_of_mem _ he', rfl⟩
  rcases hfresh i hi with hi | rfl
  · exact Or.inl hi
  · exact Or.inr ⟨e, List.mem_cons_self, rfl⟩

theorem Met.pass (h : t.Met fresh ((node, child :: links) :: path)) :
    t.Met fresh ((node, links) :: path) := by
  refine h.step (fun i hi => Or.inl hi) fun e he => Or.inl ?_
  rcases List.mem_cons.1 he with rfl | he
  · exact ⟨_, List.mem_cons_self, rfl⟩
  · exact ⟨e, List.mem_cons_of_mem _ he, rfl⟩

/-- A search that reports nothing finds links to end everywhere. -/
theorem ends_of_walk_eq_nil (examined : t.Examined none path) (met : t.Met fresh path)
    (h : t.walk fresh path = []) (hi : (t.node? i).isSome) : t.Ends i := by
  fun_induction t.walk fresh path with
  | case1 =>
      rcases met i hi with hfresh | ⟨e, he, -⟩ | hends
      · cases hfresh
      · cases he
      · exact hends
  | case2 start fresh ih =>
      refine ih ⟨fun c hc => Or.inl hc.link, trivial⟩ (Met.enter met _ fun j hj => ?_) h
      exact (List.mem_cons.1 hj).symm
  | case3 fresh node path ih =>
      have hnode : t.Ends node := by
        refine Acc.intro node fun c hc => ?_
        rcases examined.1 c hc with hleft | hentered | hends
        · cases hleft
        · cases hentered
        · exact hends
      refine ih (examined.2.leave hnode) (Met.step met (fun j hj => Or.inl hj) fun e he => ?_) h
      rcases List.mem_cons.1 he with rfl | he
      · exact Or.inr hnode
      · exact Or.inl ⟨e, he, rfl⟩
  | case4 fresh node child links path rest skip ih =>
      refine ih (examined.pass fun hc => ?_) (Met.pass met) h
      rcases skip with hself | hmissing
      · exact absurd hself hc.other
      · exact absurd hc.found (Option.not_isSome_iff_eq_none.2 (Option.isNone_iff_eq_none.1 hmissing))
  | case5 fresh node child links path rest keep new ih =>
      refine ih examined.enter (Met.enter (Met.pass met) _ fun j hj => ?_) h
      by_cases hne : j = child
      · exact Or.inr hne
      · exact Or.inl ((List.mem_erase_of_ne hne).2 hj)
  | case6 => cases h
  | case7 fresh node child links path rest keep old offPath ih =>
      -- A node that is neither new nor on the path is one that the search is done with.
      refine ih (examined.pass fun hc => ?_) (Met.pass met) h
      rcases Met.pass met child hc.found with hfresh | ⟨e, he, heq⟩ | hends
      · exact absurd hfresh old
      · exact absurd (List.any_eq_true.2 ⟨e, he, decide_eq_true heq⟩) offPath
      · exact hends

end Search

theorem localDefects_eq_nil {n : Node α} (found : t.node? i = some n) :
    t.localDefects i = [] ↔
      n.mode ≠ .blend [] ∧ ∀ child ∈ n.mode.links, child ≠ i ∧ (t.node? child).isSome := by
  have hlink (child : NodeIndex) :
      t.linkDefect? i child = none ↔ child ≠ i ∧ (t.node? child).isSome := by
    unfold linkDefect?
    split
    · rename_i h
      exact iff_of_false nofun fun hn => hn.1 h
    · rename_i hne
      cases (t.node? child) with
      | none => exact iff_of_false nofun fun hn => by cases hn.2
      | some _ => exact iff_of_true rfl ⟨hne, rfl⟩
  rw [localDefects, found]
  simp only [List.append_eq_nil_iff, List.filterMap_eq_nil_iff, hlink, ite_eq_right_iff, List.cons_ne_nil,
    imp_false]

/-- No blend is of nothing, links lead to nodes that are there, and no way along links leads back. -/
structure Sound (t : Tree α) : Prop where
  filled : ∀ i n, t.node? i = some n → n.mode ≠ .blend []
  linked : ∀ node child, t.Link node child → (t.node? child).isSome
  acyclic : ∀ i, ¬Relation.TransGen t.Link i i

theorem mem_links {n : Node α} (found : t.node? i = some n) : child ∈ t.links i ↔ child ∈ n.mode.links := by
  rw [links, found]

/-- Where links end everywhere, and each leads to another node that is there, no way leads back. -/
theorem acyclic_of_ends (ends : ∀ i, (t.node? i).isSome → t.Ends i)
    (follows : ∀ node child, t.Link node child → t.Follows node child) (i : NodeIndex) :
    ¬Relation.TransGen t.Link i i := by
  have wellFounded : WellFounded fun child node => t.Follows node child := by
    refine ⟨fun node => Acc.intro node fun child hc => ends child hc.found⟩
  intro cycle
  have back : Relation.TransGen (fun child node => t.Follows node child) i i :=
    Relation.transGen_swap.2 (Relation.TransGen.mono follows _ _ cycle)
  exact wellFounded.transGen.irrefl.irrefl i back

theorem sound_of_defects_eq_nil (h : t.defects = []) : t.Sound := by
  obtain ⟨hlocal, hwalk⟩ := List.append_eq_nil_iff.1 h
  have hnode (i : NodeIndex) (n : Node α) (found : t.node? i = some n) :=
    (localDefects_eq_nil found).1
      (List.flatMap_eq_nil_iff.1 hlocal i (mem_indices (by rw [found]; rfl)))
  have follows (node child : NodeIndex) (hl : t.Link node child) : t.Follows node child := by
    obtain ⟨n, found⟩ := Option.isSome_iff_exists.1 (isSome_of_mem_links hl)
    obtain ⟨hne, hfound⟩ := (hnode node n found).2 child ((mem_links found).1 hl)
    exact ⟨hl, hne, hfound⟩
  have ends (i : NodeIndex) (hi : (t.node? i).isSome) : t.Ends i :=
    ends_of_walk_eq_nil (show t.Examined none [] from trivial) (fun j hj => Or.inl (mem_indices hj)) hwalk hi
  exact ⟨fun i n found => (hnode i n found).1, fun node child hl => (follows node child hl).found,
    acyclic_of_ends ends follows⟩

/-- The local defects are no cycles, so a cycle is reported by the search. -/
theorem cycle_mem_walk (h : .cycle node child ∈ t.defects) : .cycle node child ∈ t.walk t.indices [] := by
  rcases List.mem_append.1 h with hlocal | hwalk
  · obtain ⟨i, -, hi⟩ := List.mem_flatMap.1 hlocal
    unfold localDefects at hi
    split at hi
    · cases hi
    · rcases List.mem_append.1 hi with hblend | hlink
      · split at hblend <;> simp at hblend
      · obtain ⟨c, -, hc⟩ := List.mem_filterMap.1 hlink
        unfold linkDefect? at hc
        split at hc
        · cases hc
        · split at hc <;> cases hc
  · exact hwalk

theorem defects_eq_nil_of_sound (h : t.Sound) : t.defects = [] := by
  refine List.append_eq_nil_iff.2 ⟨List.flatMap_eq_nil_iff.2 fun i _ => ?_, ?_⟩
  · cases found : t.node? i with
    | none => rw [localDefects, found]
    | some n =>
        refine (localDefects_eq_nil found).2 ⟨h.filled i n found, fun child hc => ?_⟩
        have hl : t.Link i child := (mem_links found).2 hc
        refine ⟨?_, h.linked i child hl⟩
        rintro rfl
        exact h.acyclic child (.single hl)
  · refine List.eq_nil_iff_forall_not_mem.2 fun d hd => ?_
    obtain ⟨node, child, -, hl, -, back⟩ := exists_cycle_of_mem_walk (.nil t) hd
    exact h.acyclic node (.head hl back)

/-- A tree has no defects exactly if no blend is of nothing, all links lead to nodes that are there, and no
way along links, however long and wherever in the tree, leads back to its start. These are the nodes that can
be addressed, which are all of them as long as they can be counted. A cycle is reported by a link that closes
it: from its child, which is another node, a way leads back to its node. -/
theorem defects_eq_nil_iff_sound (t : Tree α) :
    (t.defects = [] ↔
      (∀ i n, t.node? i = some n → n.mode ≠ .blend []) ∧
      (∀ node child, child ∈ t.links node → (t.node? child).isSome) ∧
      ∀ i, ¬Relation.TransGen (fun node child => child ∈ t.links node) i i) ∧
    (t.size < UInt32.size → ∀ n ∈ t.nodes, ∃ i, t.node? i = some n) ∧
    ∀ node child, .cycle node child ∈ t.defects → child ∈ t.links node ∧ child ≠ node ∧
      Relation.TransGen (fun node child => child ∈ t.links node) child node := by
  refine ⟨⟨fun h => ?_, fun ⟨filled, linked, acyclic⟩ => ?_⟩, fun hsize n hn => exists_index hn hsize,
    fun node child hd => ?_⟩
  · have sound := sound_of_defects_eq_nil h
    exact ⟨sound.filled, sound.linked, sound.acyclic⟩
  · exact defects_eq_nil_of_sound ⟨filled, linked, acyclic⟩
  · obtain ⟨node', child', heq, hl, hne, back⟩ := exists_cycle_of_mem_walk (.nil t) (cycle_mem_walk hd)
    obtain ⟨rfl, rfl⟩ := Defect.cycle.inj heq
    exact ⟨hl, hne, back⟩

end Danmaku.Tree
