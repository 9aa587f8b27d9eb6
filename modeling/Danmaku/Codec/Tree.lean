import Danmaku.Codec.Value

/-! Codecs of parameters: selectors, trees and reroll policies. -/

namespace Danmaku

instance : Coded Owner := .ofNamed

instance : Coded Reference.Holder := .ofNamed

instance : Coded ProjectileId where
  encode i := encode i.val
  decode j := .mk <$> decode j

def Origin.fields : Fields Origin Origin :=
  Fields.start Origin Origin.mk |>.required "pattern" (·.pattern)
    |>.required "shot" (·.shot) |>.required "bullet" (·.bullet)

instance : Coded Origin := Origin.fields.coded

def RandomFactor.fields : Fields RandomFactor RandomFactor :=
  Fields.start RandomFactor RandomFactor.mk |>.optional "share_across_instances" (·.shared) false
    |>.optional "relative_to_ancestor" (·.distance) 0 |>.optional "different_per_shot" (·.perShot) false

instance : Coded RandomFactor := RandomFactor.fields.coded

namespace Facet

def bulletCases : List (Case Facet) :=
  [.unit "PositionInShotX" .placeX, .unit "PositionInShotY" .placeY, .unit "RotationAtSpawn" .spawnHeading,
    .unit "TimeAlive" .age, .data "CustomScalar" .custom]

def shotCases : List (Case Facet) := [.unit "SpawnOrder" .shotIndex, .unit "SpawnTime" .shotTime]

def patternCases : List (Case Facet) :=
  [.unit "Index" .slot, .unit "ShotsFired" .patternShots, .unit "TimePlayed" .patternTime]

/-- Facets are grouped by what they belong to. -/
def cases : List (Case Facet) :=
  [.ofDecoder "Bullet" (Case.decode bulletCases), .ofDecoder "Shot" (Case.decode shotCases),
    .ofDecoder "Pattern" (Case.decode patternCases)]

def encode : Facet → Json.Output
  | placeX => tagged "Bullet" (.string "PositionInShotX")
  | placeY => tagged "Bullet" (.string "PositionInShotY")
  | spawnHeading => tagged "Bullet" (.string "RotationAtSpawn")
  | age => tagged "Bullet" (.string "TimeAlive")
  | custom name => tagged "Bullet" (tagged "CustomScalar" (.string name))
  | shotIndex => tagged "Shot" (.string "SpawnOrder")
  | shotTime => tagged "Shot" (.string "SpawnTime")
  | slot => tagged "Pattern" (.string "Index")
  | patternShots => tagged "Pattern" (.string "ShotsFired")
  | patternTime => tagged "Pattern" (.string "TimePlayed")

instance : Coded Facet := ⟨encode, Case.decode cases⟩

end Facet

def LineageQuery.fields : Fields LineageQuery LineageQuery :=
  Fields.start LineageQuery LineageQuery.mk |>.optional "ancestor_distance" (·.distance) 0
    |>.required "facet" (·.facet) |>.optional "period" (·.period) 1 |>.optional "wrap" (·.fold) .clamp

instance : Coded LineageQuery := LineageQuery.fields.coded

def Selector.Source.cases : List (Case Selector.Source) :=
  [.data "Random" .random, .data "HierarchyState" .lineage,
    .data "GlobalParameter" .global, .unit "Combined" .combined]

instance : Coded Selector.Source where
  encode
    | .random factor => tagged "Random" (encode factor)
    | .lineage query => tagged "HierarchyState" (encode query)
    | .global name => tagged "GlobalParameter" (encode name)
    | .combined => .string "Combined"
  decode := Case.decode Selector.Source.cases

def Selector.fields : Fields Selector Selector :=
  Fields.start Selector Selector.mk |>.required "factor" (·.source) |>.optional "curve" (·.curve) .linear

instance : Coded Selector := Selector.fields.coded

def RerollRule.fields : Fields RerollRule RerollRule :=
  Fields.start RerollRule RerollRule.mk |>.optional "loop_depth" (·.depth) 0
    |>.optional "every_iteration" (·.every) false |>.optional "period" (·.period) 1
    |>.optional "iteration_mask" (·.mask) 0

instance : Coded RerollRule := RerollRule.fields.coded

def Reroll.cases : List (Case Reroll) :=
  [.unit "WheneverCalled" .always, .unit "OnlyOncePerPattern" .once, .data "AtCertainLoops" .atLoops]

instance : Coded Reroll where
  encode
    | .always => .string "WheneverCalled"
    | .once => .string "OnlyOncePerPattern"
    | .atLoops rule => tagged "AtCertainLoops" (encode rule)
  decode := Case.decode Reroll.cases

instance : Coded NodeIndex where
  encode i := encode i.val
  decode j := .mk <$> decode j

def Reference.fields : Fields Reference Reference :=
  Fields.start Reference Reference.mk |>.required "owner" (·.holder)
    |>.optional "ancestor_distance" (·.distance) 0 |>.required "name" (·.name)

instance : Coded Reference := Reference.fields.coded

namespace Node.Mode

def betweenFields : Fields (NodeIndex × NodeIndex) (NodeIndex × NodeIndex) := .pair "from" "to"

def blendFields : Fields (List NodeIndex) (List NodeIndex) := .only "children"

def gradientFields : Fields Gradient Gradient := .only "gradient"

def cases : List (Case Node.Mode) :=
  [.unit "Fixed" .fixed,
    .ofDecoder "FromTo" fun j => (fun ends => .between ends.1 ends.2) <$> betweenFields.decode j,
    .ofDecoder "Blend" fun j => .blend <$> blendFields.decode j,
    .ofDecoder "FromGradient" fun j => .gradient <$> gradientFields.decode j,
    .data "EqualToReference" .reference]

def encode : Node.Mode → Json.Output
  | fixed => .string "Fixed"
  | between source target => tagged "FromTo" (betweenFields.encode (source, target))
  | blend children => tagged "Blend" (blendFields.encode children)
  | gradient g => tagged "FromGradient" (gradientFields.encode g)
  | reference r => tagged "EqualToReference" (Danmaku.encode r)

instance : Coded Node.Mode := ⟨encode, Case.decode cases⟩

end Node.Mode

variable {α : Type} [Coded α]

def Node.fields : Fields (Node α) (Node α) :=
  Fields.start (Node α) Node.mk |>.required "mode" (·.mode) |>.required "default_value" (·.default)
    |>.optional "weight" (·.weight) 1 |>.optional "interpolation" (·.selector) .random

instance : Coded (Node α) := Node.fields.coded

namespace Tree

def nodesFields : Fields (List (Node α)) (List (Node α)) := .only "nodes"

def ofNodes (nodes : List (Node α)) : Except Fault (Tree α) :=
  if h : 0 < nodes.length then .ok ⟨nodes.toArray, by simpa using h⟩ else .error .emptyTree

instance : Coded (Tree α) where
  encode t := nodesFields.encode t.nodes.toList
  decode j := do ofNodes (← nodesFields.decode j)

end Tree

def Param.fields : Fields (Param α) (Param α) :=
  Fields.start (Param α) Param.mk |>.required "tree" (·.tree) |>.optional "operation_id" (·.operation) 0
    |>.optional "reroll" (·.reroll) .always

instance : Coded (Param α) := Param.fields.coded

end Danmaku
