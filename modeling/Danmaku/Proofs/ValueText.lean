import Danmaku.Codec.Tree
import Danmaku.Proofs.Records

/-! Values and parameters read back from their texts. Curves and gradients are sorted when they are read, which
leaves them as they are, and a tree that is written has a root. -/

namespace Danmaku

instance : LawfulNamed Fold := {}

instance : LawfulNamed GradientMode := {}

instance : LawfulNamed Reference.Holder := {}

instance : LawfulCoded Fold := Coded.lawful_ofNamed

instance : LawfulCoded GradientMode := Coded.lawful_ofNamed

instance : LawfulCoded Reference.Holder := Coded.lawful_ofNamed

instance : LawfulCoded (Vec2 Single) where
  reads _ := Coded.reads_tuple rfl

instance : LawfulCoded Vec3 where
  reads _ := Coded.reads_tuple rfl

instance : LawfulCoded Color where
  reads c := Fields.Reads.start _ c |>.required (reads c.r) |>.required (reads c.g)
    |>.required (reads c.b) |>.required (reads c.a) |>.record (by simp)

instance : LawfulCoded (Keyframe Single) where
  reads k := Fields.Reads.start _ k |>.required (reads k.time) |>.required (reads k.value)
    |>.optional (reads k.inTangent) |>.optional (reads k.outTangent) |>.record (by simp)

theorem Curve.ofKeys_keys (c : Curve Single) : .ofKeys c.keys = c := by
  obtain ⟨keys, sorted⟩ := c
  simp only [ofKeys, Sorting.sort_eq_self sorted]

instance : LawfulCoded (Curve Single) where
  reads c := by
    have keys : Reads Curve.fields.decode (Curve.fields.encode c.keys) c.keys :=
      Fields.Reads.start _ c.keys |>.required (reads c.keys) |>.record (by simp)
    have curve := keys.map Curve.ofKeys
    rwa [c.ofKeys_keys] at curve

theorem Ramp.ofStops_stops {ν : Type} (r : Ramp ν) : .ofStops r.stops = r := by
  obtain ⟨stops, sorted⟩ := r
  simp only [ofStops, Sorting.sort_eq_self sorted]

instance : LawfulCoded (Stop Vec3) where
  reads s := Fields.Reads.start _ s |>.required (reads s.time) |>.required (reads s.value.x)
    |>.required (reads s.value.y) |>.required (reads s.value.z) |>.record (by simp)

instance : LawfulCoded (Stop Single) where
  reads s := Fields.Reads.start _ s |>.required (reads s.time) |>.required (reads s.value) |>.record (by simp)

instance : LawfulCoded Gradient where
  reads g := by
    have gradient : Gradient.fields.Reads g ⟨.ofStops g.colors.stops, .ofStops g.alphas.stops, g.mode⟩ :=
      Fields.Reads.start _ g |>.required (reads g.colors.stops) |>.required (reads g.alphas.stops)
        |>.optional (reads g.mode)
    rw [Ramp.ofStops_stops, Ramp.ofStops_stops] at gradient
    exact gradient.record (by simp [Gradient.fields])

instance : LawfulCoded AssetId where
  reads a := (reads a.val).map AssetId.mk

instance : LawfulCoded RandomFactor where
  reads f := Fields.Reads.start _ f |>.optional (reads f.shared) |>.optional (reads f.distance)
    |>.optional (reads f.perShot) |>.record (by simp)

namespace Facet

theorem covers_bullet {j : Json.Output} {x : Facet} (h : Case.Covers bulletCases j x) :
    Case.Covers cases (tagged "Bullet" j) x :=
  .ofDecoder (by simp [cases]) (h.reads (by decide))

theorem covers_shot {j : Json.Output} {x : Facet} (h : Case.Covers shotCases j x) :
    Case.Covers cases (tagged "Shot" j) x :=
  .ofDecoder (by simp [cases]) (h.reads (by decide))

theorem covers_pattern {j : Json.Output} {x : Facet} (h : Case.Covers patternCases j x) :
    Case.Covers cases (tagged "Pattern" j) x :=
  .ofDecoder (by simp [cases]) (h.reads (by decide))

theorem covers : (x : Facet) → Case.Covers cases x.encode x
  | placeX | placeY | spawnHeading | age => covers_bullet (.unit (by simp [bulletCases]))
  | custom name => covers_bullet (.data custom (by simp [bulletCases]) (reads name))
  | shotIndex | shotTime => covers_shot (.unit (by simp [shotCases]))
  | slot | patternShots | patternTime => covers_pattern (.unit (by simp [patternCases]))

instance : LawfulCoded Facet := ⟨fun x => x.covers.reads (by decide)⟩

end Facet

instance : LawfulCoded LineageQuery where
  reads q := Fields.Reads.start _ q |>.optional (reads q.distance) |>.required (reads q.facet)
    |>.optional (reads q.period) |>.optional (reads q.fold) |>.record (by simp)

theorem Selector.Source.covers : (x : Source) → Case.Covers cases (encode x) x
  | random factor => .data random (by simp [cases]) (reads factor)
  | lineage query => .data lineage (by simp [cases]) (reads query)
  | global name => .data global (by simp [cases]) (reads name)
  | combined => .unit (by simp [cases])

instance : LawfulCoded Selector.Source := ⟨fun x => x.covers.reads (by decide)⟩

instance : LawfulCoded Selector where
  reads s := Fields.Reads.start _ s |>.required (reads s.source) |>.optional (reads s.curve) |>.record (by simp)

instance : LawfulCoded RerollRule where
  reads r := Fields.Reads.start _ r |>.optional (reads r.depth) |>.optional (reads r.every)
    |>.optional (reads r.period) |>.optional (reads r.mask) |>.record (by simp)

theorem Reroll.covers : (x : Reroll) → Case.Covers cases (encode x) x
  | always | once => .unit (by simp [cases])
  | atLoops rule => .data atLoops (by simp [cases]) (reads rule)

instance : LawfulCoded Reroll := ⟨fun x => x.covers.reads (by decide)⟩

instance : LawfulCoded NodeIndex where
  reads i := (reads i.val).map NodeIndex.mk

instance : LawfulCoded Reference where
  reads r := Fields.Reads.start _ r |>.required (reads r.holder) |>.optional (reads r.distance)
    |>.required (reads r.name) |>.record (by simp)

theorem Node.Mode.covers : (x : Mode) → Case.Covers cases x.encode x
  | fixed => .unit (by simp [cases])
  | between source target =>
      .record (fun ends : NodeIndex × NodeIndex => between ends.1 ends.2) (by simp [cases, betweenFields])
        (Fields.reads_pair (by decide) (source, target))
  | blend children => .record blend (by simp [cases]) (Fields.reads_only children)
  | gradient g => .record gradient (by simp [cases]) (Fields.reads_only g)
  | reference r => .data reference (by simp [cases]) (reads r)

instance : LawfulCoded Node.Mode := ⟨fun x => x.covers.reads (by decide)⟩

theorem Tree.ofNodes_toList {α : Type} (t : Tree α) : ofNodes t.nodes.toList = .ok t := by
  obtain ⟨nodes, nonempty⟩ := t
  rw [ofNodes, dif_pos (by simpa using nonempty)]

variable {α : Type} [Coded α] [LawfulCoded α]

instance : LawfulCoded (Node α) where
  reads n := Fields.Reads.start _ n |>.required (reads n.mode) |>.required (reads n.default)
    |>.optional (reads n.weight) |>.optional (reads n.selector) |>.record (by simp)

instance : LawfulCoded (Tree α) where
  reads t := (Fields.reads_only t.nodes.toList).bind t.ofNodes_toList

instance : LawfulCoded (Param α) where
  reads p := Fields.Reads.start _ p |>.required (reads p.tree) |>.optional (reads p.operation)
    |>.optional (reads p.reroll) |>.record (by simp)

end Danmaku
