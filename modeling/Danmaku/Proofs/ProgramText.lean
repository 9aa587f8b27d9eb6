import Danmaku.Codec.Program
import Danmaku.Proofs.ValueText

/-! Programs read back from their texts: all kinds of instructions, with their names, records and parameters. -/

namespace Danmaku

instance : LawfulNamed Axis := {}

instance : LawfulNamed CurveTarget := {}

instance : LawfulNamed TagOp := {}

instance : LawfulNamed Preference := {}

instance : LawfulNamed Command := {}

instance : LawfulCoded CurveTarget := Coded.lawful_ofNamed

instance : LawfulCoded TagOp := Coded.lawful_ofNamed

instance : LawfulCoded Preference := Coded.lawful_ofNamed

instance : LawfulCoded Command := Coded.lawful_ofNamed

theorem Selection.covers : (x : Selection) → Case.Covers cases (encode x) x
  | range first stop =>
      .record (fun r : UInt32 × UInt32 => range r.1 r.2) (by simp [cases, rangeFields])
        (Fields.reads_pair (by decide) (first, stop))
  | everyNth step offset =>
      .record (fun r : UInt32 × UInt32 => everyNth r.1 r.2) (by simp [cases, everyNthFields])
        (Fields.reads_pair (by decide) (step, offset))
  | indices list => .data indices (by simp [cases]) (reads list)

instance : LawfulCoded Selection := ⟨fun x => x.covers.reads (by decide)⟩

instance : LawfulCoded Pivot where
  reads
    | .origin | .running => Case.Covers.reads (.unit (by simp)) (by decide)
    | .point p => Case.Covers.reads (.data Pivot.point (by simp) (reads p)) (by decide)

namespace Step

theorem reads_rotate (x : Param Single × Pivot) : Reads rotateFields.decode (rotateFields.encode x) x :=
  Fields.Reads.start _ x |>.required (reads x.1) |>.optional (reads x.2) |>.record (by simp)

theorem reads_scale (x : Param (Vec2 Single) × Pivot) : Reads scaleFields.decode (scaleFields.encode x) x :=
  Fields.Reads.start _ x |>.required (reads x.1) |>.optional (reads x.2) |>.record (by simp)

theorem covers : (x : Step Param) → Case.Covers cases (encode x) x
  | select s => .data select (by simp [cases]) (reads s)
  | selectAll => .unit (by simp [cases])
  | spread axis total => by
      have named := LawfulNamed.mem_map
        (fun axis => (.data (spreadName axis) (.spread axis) : Case (Step Param))) axis
      exact .data (spread axis) (by simp only [cases, List.mem_append, named, true_or, or_true]) (reads total)
  | space axis gap => by
      have named := LawfulNamed.mem_map
        (fun axis => (.data (spaceName axis) (.space axis) : Case (Step Param))) axis
      exact .data (space axis) (by simp only [cases, List.mem_append, named, true_or, or_true]) (reads gap)
  | translate p => .data translate (by simp [cases]) (reads p)
  | translateLocal p => .data translateLocal (by simp [cases]) (reads p)
  | setPivot p => .data setPivot (by simp [cases]) (reads p)
  | rotate degrees pivot =>
      .record (fun r : Param Single × Pivot => rotate r.1 r.2) (by simp [cases]) (reads_rotate (degrees, pivot))
  | scale factor pivot =>
      .record (fun r : Param (Vec2 Single) × Pivot => scale r.1 r.2) (by simp [cases]) (reads_scale (factor, pivot))
  | lookAt p => .data lookAt (by simp [cases]) (reads p)
  | lookAway p => .data lookAway (by simp [cases]) (reads p)
  | reset position heading =>
      .record (fun r : Bool × Bool => reset r.1 r.2) (by simp [cases, resetFields])
        (Fields.reads_pair (by decide) (position, heading))
  | setBullet a => .data setBullet (by simp [cases]) (reads a)

instance : LawfulCoded (Step Param) := ⟨fun x => x.covers.reads (by decide)⟩

end Step

instance : LawfulCoded Shot where
  reads s := Fields.Reads.start _ s |>.required (reads s.id) |>.required (reads s.count)
    |>.required (reads s.bullet) |>.optional (reads s.modifiers) |>.record (by simp)

theorem Recipient.covers : (x : Recipient) → Case.Covers cases (encode x) x
  | self => .unit (by simp [cases])
  | byIndex index => .data byIndex (by simp [cases]) (reads index)
  | byTag tag => .data byTag (by simp [cases]) (reads tag)

instance : LawfulCoded Recipient := ⟨fun x => x.covers.reads (by decide)⟩

namespace Kind

theorem reads_loop (x : Param Int32 × Bool) : Reads loopFields.decode (loopFields.encode x) x :=
  Fields.Reads.start _ x |>.required (reads x.1) |>.optional (reads x.2) |>.record (by simp)

theorem reads_tags (x : TagOp × Param String) : Reads tagFields.decode (tagFields.encode x) x :=
  Fields.Reads.start _ x |>.optional (reads x.1) |>.required (reads x.2) |>.record (by simp)

theorem reads_curve (x : CurveTarget × Param (Curve Single)) :
    Reads curveFields.decode (curveFields.encode x) x := Fields.reads_pair (by decide) x

theorem reads_fold (x : CurveTarget × Fold) : Reads foldFields.decode (foldFields.encode x) x :=
  Fields.reads_pair (by decide) x

theorem reads_curveNumber {field : String} (other : "target" ≠ field) (x : CurveTarget × Param Single) :
    Reads (curveNumberFields field).decode ((curveNumberFields field).encode x) x := Fields.reads_pair other x

theorem reads_custom {field : String} (other : "name" ≠ field) (x : String × Param Single) :
    Reads (customFields field).decode ((customFields field).encode x) x := Fields.reads_pair other x

theorem covers : (x : Kind) → Case.Covers cases (encode x) x
  | wait p => .data wait (by simp [cases, mainCases]) (reads p)
  | shoot shot => .data shoot (by simp [cases, mainCases]) (reads shot)
  | beginLoop p endless =>
      .record (fun r : Param Int32 × Bool => beginLoop r.1 r.2) (by simp [cases, mainCases])
        (reads_loop (p, endless))
  | playAudio p => .data playAudio (by simp [cases, mainCases]) (reads p)
  | playVfx p => .data playVfx (by simp [cases, mainCases]) (reads p)
  | stopVfx p => .data stopVfx (by simp [cases, mainCases]) (reads p)
  | endLoop | die => .unit (by simp [cases, mainCases])
  | translateGlobal p => .data translateGlobal (by simp [cases, transformCases]) (reads p)
  | translateLocal p => .data translateLocal (by simp [cases, transformCases]) (reads p)
  | setWorldPosition p => .data setWorldPosition (by simp [cases, transformCases]) (reads p)
  | setLocalPosition p => .data setLocalPosition (by simp [cases, transformCases]) (reads p)
  | rotate p => .data rotate (by simp [cases, transformCases]) (reads p)
  | setWorldRotation p => .data setWorldRotation (by simp [cases, transformCases]) (reads p)
  | setLocalRotation p => .data setLocalRotation (by simp [cases, transformCases]) (reads p)
  | setSpeed p => .data setSpeed (by simp [cases, transformCases]) (reads p)
  | multiplySpeed p => .data multiplySpeed (by simp [cases, transformCases]) (reads p)
  | setAngularSpeed p => .data setAngularSpeed (by simp [cases, transformCases]) (reads p)
  | multiplyAngularSpeed p => .data multiplyAngularSpeed (by simp [cases, transformCases]) (reads p)
  | setScale p => .data setScale (by simp [cases, transformCases]) (reads p)
  | multiplyScale p => .data multiplyScale (by simp [cases, transformCases]) (reads p)
  | turnToTarget p => .data turnToTarget (by simp [cases, homingCases]) (reads p)
  | changeTarget preference => .data changeTarget (by simp [cases, homingCases]) (reads preference)
  | setHomingSpeed p => .data setHomingSpeed (by simp [cases, homingCases]) (reads p)
  | multiplyHomingSpeed p => .data multiplyHomingSpeed (by simp [cases, homingCases]) (reads p)
  | changeHomingTags op p =>
      .record (fun r : TagOp × Param String => changeHomingTags r.1 r.2) (by simp [cases, homingCases])
        (reads_tags (op, p))
  | enableHoming | disableHoming => .unit (by simp [cases, homingCases])
  | enableCurve target => .data enableCurve (by simp [cases, curveCases]) (reads target)
  | disableCurve target => .data disableCurve (by simp [cases, curveCases]) (reads target)
  | playCurve target => .data playCurve (by simp [cases, curveCases]) (reads target)
  | pauseCurve target => .data pauseCurve (by simp [cases, curveCases]) (reads target)
  | rewindCurve target => .data rewindCurve (by simp [cases, curveCases]) (reads target)
  | resetCurve target => .data resetCurve (by simp [cases, curveCases]) (reads target)
  | setCurve target p =>
      .record (fun r : CurveTarget × Param (Curve Single) => setCurve r.1 r.2) (by simp [cases, curveCases])
        (reads_curve (target, p))
  | setCurveDuration target p =>
      .record (fun r : CurveTarget × Param Single => setCurveDuration r.1 r.2) (by simp [cases, curveCases])
        (reads_curveNumber (by decide) (target, p))
  | multiplyCurveDuration target p =>
      .record (fun r : CurveTarget × Param Single => multiplyCurveDuration r.1 r.2) (by simp [cases, curveCases])
        (reads_curveNumber (by decide) (target, p))
  | setCurveFold target fold =>
      .record (fun r : CurveTarget × Fold => setCurveFold r.1 r.2) (by simp [cases, curveCases])
        (reads_fold (target, fold))
  | setCurveProgress target p =>
      .record (fun r : CurveTarget × Param Single => setCurveProgress r.1 r.2) (by simp [cases, curveCases])
        (reads_curveNumber (by decide) (target, p))
  | setColor p => .data setColor (by simp [cases, graphicsCases]) (reads p)
  | addColor p => .data addColor (by simp [cases, graphicsCases]) (reads p)
  | multiplyColor p => .data multiplyColor (by simp [cases, graphicsCases]) (reads p)
  | overlayColor p => .data overlayColor (by simp [cases, graphicsCases]) (reads p)
  | setAlpha p => .data setAlpha (by simp [cases, graphicsCases]) (reads p)
  | addAlpha p => .data addAlpha (by simp [cases, graphicsCases]) (reads p)
  | multiplyAlpha p => .data multiplyAlpha (by simp [cases, graphicsCases]) (reads p)
  | enableRenderer | disableRenderer => .unit (by simp [cases, graphicsCases])
  | changeCollisionTags op p =>
      .record (fun r : TagOp × Param String => changeCollisionTags r.1 r.2) (by simp [cases, collisionCases])
        (reads_tags (op, p))
  | setCollisionSize p => .data setCollisionSize (by simp [cases, collisionCases]) (reads p)
  | multiplyCollisionSize p => .data multiplyCollisionSize (by simp [cases, collisionCases]) (reads p)
  | enableCollision | disableCollision => .unit (by simp [cases, collisionCases])
  | setCustom name p =>
      .record (fun r : String × Param Single => setCustom r.1 r.2) (by simp [cases, customCases])
        (reads_custom (by decide) (name, p))
  | addCustom name p =>
      .record (fun r : String × Param Single => addCustom r.1 r.2) (by simp [cases, customCases])
        (reads_custom (by decide) (name, p))
  | playPattern recipient => .data playPattern (by simp [cases, patternCases]) (reads recipient)
  | pausePattern recipient => .data pausePattern (by simp [cases, patternCases]) (reads recipient)
  | stopPattern recipient => .data stopPattern (by simp [cases, patternCases]) (reads recipient)
  | rebootPattern recipient => .data rebootPattern (by simp [cases, patternCases]) (reads recipient)

theorem distinct_cases : (cases.map (·.name)).Nodup := by decide +kernel

instance : LawfulCoded Kind := ⟨fun x => x.covers.reads distinct_cases⟩

end Kind

instance : LawfulCoded Timing where
  reads
    | .instant => Case.Covers.reads (.unit (by simp)) (by decide)
    | .progressive duration easing =>
      Case.Covers.reads (.record (fun r : Param Single × Param (Curve Single) => Timing.progressive r.1 r.2)
        (by simp [Timing.fields]) (Fields.reads_pair (by decide) (duration, easing))) (by decide)

instance : LawfulCoded Instruction where
  reads i := Fields.Reads.start _ i |>.optional (reads i.enabled) |>.required (reads i.kind)
    |>.optional (reads i.timing) |>.record (by simp)

instance : LawfulCoded Program where
  reads p := Fields.Reads.start _ p |>.required (reads p.id) |>.required (reads p.instructions) |>.record (by simp)

namespace Program

/-- A program of finite numbers is read from its text, as long as a finite number in it is read from its own. -/
theorem load_save (p : Program) (finite : ∀ x ∈ (encode p).numbers, x.isFinite = true)
    (shortest : ∀ x ∈ (encode p).numbers, x.isFinite = true → x.ReadsBack) : load Program (save p) = .ok p :=
  load_save_of_numbers p fun x hx => shortest x hx (finite x hx)

/-- Fans of bullets, thrice, that speed up as they spread and take a colour from their place in the shot. -/
def fans : Program where
  id := 7
  instructions := [
    .beginLoop 3,
    .shoot
      { id := 1, count := .fixed 5, bullet := .fixed ⟨12⟩
        modifiers := [.select (.everyNth 2 1), .spread .x (.fixed 0.3), .rotate (.fixed (-45)) (.point ⟨1, -0⟩)] },
    .spreadOver { kind := .multiplySpeed (.fixed 1.25) } 0.1 .easeInOut,
    { kind := .multiplyColor
        { tree := .ofRoot
            { mode := .gradient (.ofColors .white .clear), default := .black
              selector := .lineage (.ofFacet .placeX) }
          reroll := .once } },
    { kind := .setCustom "\"heat\"" { tree := .reference 0.001 { holder := .global, name := "heat" } } },
    .wait 0.5,
    .endLoop,
    .disabled { kind := .die }]

theorem load_save_fans : (∀ x ∈ (encode fans).numbers, x.isFinite = true) ∧
    (∀ x ∈ (encode fans).numbers, x.isFinite = true → x.ReadsBack) ∧ load Program (save fans) = .ok fans := by
  have finite : ∀ x ∈ (encode fans).numbers, x.isFinite = true := by decide +kernel
  have shortest : ∀ x ∈ (encode fans).numbers, x.isFinite = true → x.ReadsBack := by decide +kernel
  exact ⟨finite, shortest, load_save fans finite shortest⟩

end Program

end Danmaku
