import Mathlib.Algebra.Order.Ring.Rat
import Mathlib.Data.String.Basic
import Mathlib.Tactic.Ring
import EdxPlatform.Lib.FirstCome
import EdxPlatform.Lib.Python

/-!
# Grading drag and drop

The placements of a user are compared group by group with the targets of the author, in the order in which the user
dropped them.
-/

namespace EdxPlatform

open FirstCome

/-- A point with its radius of forgiveness, if it has one. -/
structure Spot where
  x : ℚ
  y : ℚ
  radius : Option ℚ := none
  deriving DecidableEq

/-- `max(self[1], r)` where there is a radius. -/
def Spot.widen (spot : Spot) (r : ℚ) : ℚ :=
  match spot.radius with
  | some radius => max radius r
  | none => r

/-- The name of a target, or a point. -/
inductive Position where
  | target (name : String)
  | spot (spot : Spot)
  deriving DecidableEq

/-- `coordinate_positions_compare`, with its default of ten pixels. -/
def coordinatePositionsCompare (self other : Spot) : Bool :=
  let r := other.widen (self.widen 10)
  decide ((other.x - self.x) * (other.x - self.x) + (other.y - self.y) * (other.y - self.y) ≤ r * r)

/-- `PositionsCompare.__eq__`; an empty name is equal to nothing. -/
def positionsCompare : Position → Position → Bool
  | .target self, .target other => self ≠ "" && other ≠ "" && self = other
  | .spot self, .spot other => coordinatePositionsCompare self other
  | _, _ => false

theorem coordinatePositionsCompare_comm (self other : Spot) :
    coordinatePositionsCompare self other = coordinatePositionsCompare other self := by
  have hrad : other.widen (self.widen 10) = self.widen (other.widen 10) := by
    cases hself : self.radius <;> cases hoth : other.radius <;> simp [Spot.widen, hself, hoth, max_left_comm]
  rw [coordinatePositionsCompare, coordinatePositionsCompare, hrad]
  congr 2
  ring

theorem positionsCompare_comm (self other : Position) : positionsCompare self other = positionsCompare other self := by
  cases self with
  | target self =>
    cases other with
    | target other =>
      rw [Bool.eq_iff_iff]
      simp only [positionsCompare, Bool.and_eq_true, decide_eq_true_eq]
      tauto
    | spot other => rfl
  | spot self =>
    cases other with
    | target other => rfl
    | spot other => exact coordinatePositionsCompare_comm self other

/-! ## The rules -/

/-- The rule of a group. -/
inductive DragRule where
  | exact
  | anyof
  | unorderedEqual
  deriving DecidableEq, Repr

/-- The loop of `unordered_equal`, with the correct positions that are left. -/
def unorderedEqual : List Position → List Position → Bool
  | _, [] => true
  | temp, position :: user =>
    match temp.find? (positionsCompare position) with
    | some correct => unorderedEqual (temp.erase correct) user
    | none => false

/-- `compare_positions` -/
def comparePositions (correct user : List Position) : DragRule → Bool
  | .exact => correct.length = user.length && (correct.zip user).all fun pair => positionsCompare pair.1 pair.2
  | .anyof => user.all fun position => correct.any (positionsCompare position)
  | .unorderedEqual => correct.length = user.length && unorderedEqual correct user

theorem unorderedEqual_eq (temp user : List Position) :
    unorderedEqual temp user = (seat positionsCompare user temp).isSome := by
  induction user generalizing temp with
  | nil => rfl
  | cons position user ih =>
    rw [unorderedEqual, seat]
    cases hfind : temp.find? (positionsCompare position) with
    | none =>
      rw [if_neg]
      · rfl
      · rw [Bool.not_eq_true, List.any_eq_false]
        exact List.find?_eq_none.mp hfind
    | some correct =>
      obtain ⟨hequal, before, after, rfl, hbef⟩ := List.find?_eq_some_iff_append.mp hfind
      have hany : (before ++ correct :: after).any (positionsCompare position) = true :=
        List.any_eq_true.mpr ⟨correct, by simp, hequal⟩
      have hnotMem : correct ∉ before := by
        intro hmem
        simpa [hequal] using hbef correct hmem
      have hnot : ∀ other ∈ before, ¬ positionsCompare position other = true := by
        intro other hoth
        simpa using hbef other hoth
      change unorderedEqual ((before ++ correct :: after).erase correct) user = _
      rw [if_pos hany, List.erase_append_right _ hnotMem, List.erase_cons_head, List.eraseP_append_right _ hnot,
        List.eraseP_cons_of_pos hequal]
      exact ih _

theorem comparePositions_unorderedEqual {correct user : List Position} :
    comparePositions correct user .unorderedEqual = true ↔ PairedUncrossed positionsCompare user correct := by
  rw [← seat_eq_some_nil_iff, comparePositions, Bool.and_eq_true, decide_eq_true_eq, unorderedEqual_eq,
    Option.isSome_iff_exists]
  constructor
  · rintro ⟨hlen, left, hseat⟩
    have hleft := length_of_seat hseat
    rw [hseat, List.length_eq_zero_iff.mp (by omega : left.length = 0)]
  · intro hseat
    exact ⟨by simpa using length_of_seat hseat, [], hseat⟩

/-- The user's positions and the correct ones can be paired one to one, each pair equal. -/
abbrev PairedEqually (user correct : List Position) : Prop := Paired positionsCompare user correct

/-- They can be paired so that no position of the user is equal to an earlier correct one than its own that a later
position of the user has. -/
abbrev PairedInTurn (user correct : List Position) : Prop := PairedUncrossed positionsCompare user correct

/-- The rule finds a pairing just where there is none or one without crossings. -/
theorem unorderedEqual_finds_pairing_iff (correct user : List Position) :
    (comparePositions correct user .unorderedEqual = true ↔ PairedEqually user correct) ↔
      (PairedEqually user correct → PairedInTurn user correct) := by
  rw [comparePositions_unorderedEqual]
  constructor
  · exact fun hiff => hiff.mpr
  · exact fun hturn => ⟨paired_of_pairedUncrossed, hturn⟩

def nearPoints : List Position := [.spot { x := 0, y := 0 }, .spot { x := 15, y := 0 }]

/-- The first point of the user is near to both correct points, the second one only to the first. -/
def crossedPoints : List Position := [.spot { x := 8, y := 0 }, .spot { x := -5, y := 0 }]

/-- The first point takes the correct point that the second one needs. -/
theorem crossedPoints_not_found : ¬ (comparePositions nearPoints crossedPoints .unorderedEqual = true ↔
        PairedEqually crossedPoints nearPoints) := by
  have hpaired : PairedEqually crossedPoints nearPoints := by
    refine ⟨nearPoints.reverse, List.reverse_perm _, ?_⟩
    refine .cons ?_ (.cons ?_ .nil)
    · decide +kernel
    · decide +kernel
  intro hiff
  exact absurd (hiff.mpr hpaired) (by decide +kernel)

/-! ## The answers -/

/-- What a draggable is dropped on: a target, on the draggables of a path from the outermost on, or a point. -/
inductive Dropped where
  | target (path : List String) (name : String)
  | spot (spot : Spot)
  deriving DecidableEq

/-- A draggable and what it is dropped on. -/
structure Placement where
  draggable : String
  dropped : Dropped
  deriving DecidableEq

/-- `parse_user_answer`: a target on other draggables gets one name. -/
def parseUserAnswer (placement : Placement) : String × Position :=
  match placement.dropped with
  | .target path name =>
    (placement.draggable, .target (path.reverse.foldl (fun value key => value ++ "[" ++ key ++ "]") name))
  | .spot spot => (placement.draggable, .spot spot)

/-- `flat_user_answer` -/
def flatUserAnswer (userAnswer : List Placement) : List (String × Position) := userAnswer.map parseUserAnswer

/-- A group of the correct answer; `number` tells that the rule ends in `+number`. -/
structure DragGroup where
  draggables : List String
  targets : List Position
  rule : DragRule
  number : Bool := false

/-- A group with what the user did with its draggables. -/
structure GradedGroup where
  correct : DragGroup
  userGroup : List String
  userPositions : List Position

/-- `DragAndDrop` -/
structure DragAndDrop where
  excessDraggables : List (String × Bool)
  groups : List GradedGroup

def DragGroup.placements (group : DragGroup) (userAnswer : List Placement) : List (String × Position) :=
  (flatUserAnswer userAnswer).filter fun placement => placement.1 ∈ group.draggables

namespace DragAndDrop

/-- `DragAndDrop.__init__` for a correct answer in list form. -/
def init (correctAnswer : List DragGroup) (userAnswer : List Placement) : DragAndDrop where
  excessDraggables := userAnswer.map fun placement =>
    (placement.draggable, !correctAnswer.any fun group => placement.draggable ∈ group.draggables)
  groups := correctAnswer.map fun group =>
    ⟨group, (group.placements userAnswer).map Prod.fst, (group.placements userAnswer).map Prod.snd⟩

/-- `sorted(draggable_ids) == sorted(self.user_groups[index])`, without duplicates unless the rule has a number. -/
def sameDraggables (group : GradedGroup) : Bool :=
  sortedBy id group.correct.draggables =
    sortedBy id (if group.correct.number then group.userGroup else group.userGroup.dedup)

def followsRule (group : GradedGroup) : Bool :=
  group.correct.targets ≠ [] && comparePositions group.correct.targets group.userPositions group.correct.rule

/-- `DragAndDrop.grade` -/
def grade (self : DragAndDrop) : Bool :=
  if self.excessDraggables.any Prod.snd then false
  else if !self.groups.all sameDraggables then false
  else self.groups.all followsRule

end DragAndDrop

end EdxPlatform
