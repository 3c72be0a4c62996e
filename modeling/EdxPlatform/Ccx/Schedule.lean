import EdxPlatform.Ccx.Overrides

/-!
# Schedules of a custom course

The tree of the master course, the schedule that the coach sees of it, and how the
schedule is applied as overrides when the coach sends it back.
-/

namespace EdxPlatform.Ccx

/-- What the schedule needs of a block of the master course. -/
structure Block where
  location : String
  displayName : String
  category : String
  start : Option DateTime
  due : Option DateTime
  visibleToStaffOnly : Bool
  graded : Bool
  format : Option String

/-- Blocks in order, each with its children. -/
inductive Blocks where
  | nil
  | cons (block : Block) (children next : Blocks)

namespace Blocks

def locations : Blocks → List String
  | nil => []
  | cons block children next => block.location :: (children.locations ++ next.locations)

def siblings : Blocks → List Block
  | nil => []
  | cons block _ next => block :: next.siblings

def deeper : Blocks → List String
  | nil => []
  | cons _ children next => children.locations ++ next.deeper

/-- The block at a location with its children: `blocks[location]`. -/
def find (location : String) : Blocks → Option (Block × Blocks)
  | nil => none
  | cons block children next =>
    if block.location = location then some (block, children) else next.find location

end Blocks

/-- The master course: a tree, in which every block has a location of its own. -/
structure Course where
  location : String
  start : Option DateTime
  gradingPolicy : List GraderSection
  blocks : Blocks
  distinct : (location :: blocks.locations).Nodup

/-- The entries of the schedule but for the children; chapters have no entry `due`. -/
structure ScheduleUnit where
  location : String
  displayName : String
  category : String
  start : Option String
  due : Option (Option String)
  hidden : Bool
  deriving DecidableEq, Repr

inductive Schedule where
  | nil
  | cons (unit : ScheduleUnit) (children next : Schedule)
  deriving DecidableEq, Repr

def Schedule.units : Schedule → List ScheduleUnit
  | nil => []
  | cons unit children next => unit :: (children.units ++ next.units)

def Schedule.siblings : Schedule → List ScheduleUnit
  | nil => []
  | cons unit _ next => unit :: next.siblings

inductive SaveError where
  | badDate
  | unknownLocation
  | unboundDue
  deriving DecidableEq, Repr

def pad (width : Nat) (number : Int) : String :=
  let digits := toString number
  String.ofList (List.replicate (width - digits.length) '0') ++ digits

/-- `strftime('%Y-%m-%d %H:%M')`. -/
def strftime (date : DateTime) : String :=
  pad 4 date.year ++ "-" ++ pad 2 date.month ++ "-" ++ pad 2 date.day ++ " " ++
    pad 2 date.hour ++ ":" ++ pad 2 date.minute

/-- `validate_date`. -/
def validateDate (year month day hour minute : Int) : Bool :=
  0 ≤ year && 1 ≤ month && month ≤ 12 && 1 ≤ day && day ≤ 31 && 0 ≤ hour && hour ≤ 23 && 0 ≤ minute && minute ≤ 59

def isLeap (year : Int) : Bool := year % 4 = 0 && (year % 100 ≠ 0 || year % 400 = 0)

def daysInMonth (year month : Int) : Int :=
  if month = 2 then if isLeap year then 29 else 28
  else if month = 4 ∨ month = 6 ∨ month = 9 ∨ month = 11 then 30
  else 31

/-- `datetime.datetime`, for a month and a time that exist. -/
def datetime (year month day hour minute : Int) : Except SaveError DateTime :=
  if 1 ≤ year ∧ year ≤ 9999 ∧ day ≤ daysInMonth year month then
    .ok ⟨year, month, day, hour, minute⟩
  else .error .badDate

def split (separator : Char) (text : String) : List String := (text.toList.splitOn separator).map String.ofList

/-- `parse_date`, where `int` is none if it raises. -/
def parseDate (int : String → Option Int) : Option String → Except SaveError (Option DateTime)
  | none => .ok none
  | some datestring =>
    if datestring.isEmpty then .ok none
    else
      match split ' ' datestring with
      | [date, time] =>
        match (split '-' date).mapM int, (split ':' time).mapM int with
        | some [year, month, day], some [hour, minute] =>
          if validateDate year month day hour minute then
            (datetime year month day hour minute).map some
          else .ok none
        | _, _ => .error .badDate
      | _ => .error .badDate

/-- A date of a block. -/
inductive DateField where
  | start
  | due
  deriving DecidableEq, Repr

namespace DateField

def field : DateField → Field
  | .start => .start
  | .due => .due

def master : DateField → Block → Option DateTime
  | .start, block => block.start
  | .due, block => block.due

end DateField

section

variable (values : Dict Key Value)

/-- `get_override_for_ccx` of a date, without default. -/
def overriddenDate (location : String) (dateType : DateField) : Option DateTime :=
  match values.lookup (location, dateType.field) with
  | some (.date date) => some date
  | _ => none

/-- `get_override_for_ccx` of the flag. -/
def overriddenFlag (location : String) (default : Bool) : Bool :=
  match values.lookup (location, .visibleToStaffOnly) with
  | some (.flag flag) => flag
  | _ => default

/-- `get_date`. -/
def getDate (node : Block) (dateType : DateField) : Option Block → Option String
  | none => ((overriddenDate values node.location dateType).or (dateType.master node)).map strftime
  | some parent =>
    match overriddenDate values node.location dateType with
    | some date => some (strftime date)
    | none => ((overriddenDate values parent.location dateType).or (dateType.master parent)).map strftime

end

/-- `visit` of `get_ccx_schedule` on the children of a node.  `staffOnly` is the check
of the license. -/
def visit (values : Dict Key Value) (staffOnly : Block → Bool) (depth : Nat) (node : Option Block) : Blocks → Schedule
  | .nil => .nil
  | .cons child children next =>
    let rest := visit values staffOnly depth node next
    if child.visibleToStaffOnly || staffOnly child then rest
    else
      let parent := if depth = 3 then node else none
      let visited : ScheduleUnit :=
        { location := child.location
          displayName := child.displayName
          category := child.category
          start := getDate values child .start parent
          due := if depth > 1 then some (getDate values child .due parent) else none
          hidden := overriddenFlag values child.location (staffOnly child) }
      if depth < 3 then
        match visit values staffOnly (depth + 1) (some child) children with
        | .nil => rest
        | below => .cons visited below rest
      else .cons visited .nil rest

/-- `get_ccx_schedule`. -/
def getCcxSchedule (course : Course) (values : Dict Key Value) (staffOnly : Block → Bool) :
    Schedule :=
  visit values staffOnly 1 none course.blocks

/-- What the recursion changes: the overrides, the count of graded units of each
format, and the ids of the rows that are deleted at the end. -/
structure Progress where
  store : Store
  graded : Dict (Option String) Nat := ∅
  toDelete : List (Option Nat) := []

namespace Progress

/-- A date of a block overridden, or cleared and its row marked for deletion. -/
def setDate (progress : Progress) (location : String) (dateType : DateField) : Option DateTime → Progress
  | some date => { progress with store := progress.store.overrideField (location, dateType.field) (.date date) }
  | none =>
    { progress with
      store := progress.store.clearFieldInfo (location, dateType.field)
      toDelete := progress.toDelete ++ [progress.store.ids.lookup (location, dateType.field)] }

def setHidden (progress : Progress) (location : String) (hidden : Bool) : Progress :=
  { progress with
    store :=
      if hidden then progress.store.overrideField (location, .visibleToStaffOnly) (.flag true)
      else progress.store.clearOverride (location, .visibleToStaffOnly) }

def countGraded (progress : Progress) (unit : ScheduleUnit) (block : Block) : Progress :=
  if !unit.hidden && block.graded then
    { progress with graded := progress.graded.insert block.format ((progress.graded.lookup block.format).getD 0 + 1) }
  else progress

end Progress

def Store.copyDate (store : Store) (location : String) (dateType : DateField) : Option DateTime → Store
  | some date => store.overrideField (location, dateType.field) (.date date)
  | none => store

/-- The dates of a vertical copied to its components.  Nothing has been assigned to
`due` if no unit of the list had one. -/
def copyDates (start : Option DateTime) (due : Option (Option DateTime)) (components : List Block)
    (store : Store) : Except SaveError Store :=
  components.foldlM (fun store component =>
    match due with
    | none => .error .unboundDue
    | some due => .ok ((store.copyDate component.location .start start).copyDate component.location .due due))
    store

/-- `if not earliest or start < earliest: earliest = start`. -/
def earlier (earliest start : Option DateTime) : Option DateTime :=
  match start, earliest with
  | none, _ => earliest
  | some start, none => some start
  | some start, some earliest => if start < earliest then some start else some earliest

section

variable (int : String → Option Int)

/-- The loop body of `override_fields` but for the children: the start of the unit, the
value of `due` for later units, and what has been changed. -/
def overrideUnit (unit : ScheduleUnit) (block : Block) (components : Blocks)
    (due : Option (Option DateTime)) (progress : Progress) :
    Except SaveError (Option DateTime × Option (Option DateTime) × Progress) := do
  let progress := progress.setHidden block.location unit.hidden
  let start ← parseDate int unit.start
  let progress := progress.setDate block.location .start start
  let date ← parseDate int (unit.due.getD none)
  let due := if unit.due.isSome then some date else due
  let progress := (progress.setDate block.location .due date).countGraded unit block
  let store ← if unit.category = "vertical" then copyDates start due components.siblings progress.store
    else .ok progress.store
  return (start, due, { progress with store })

/-- `override_fields`: the earliest start, and what has been changed. -/
def overrideFields : Schedule → Blocks → Option DateTime → Option (Option DateTime) → Progress →
    Except SaveError (Option DateTime × Progress)
  | .nil, _, earliest, _, progress => .ok (earliest, progress)
  | .cons unit children next, blocks, earliest, due, progress =>
    match blocks.find unit.location with
    | none => .error .unknownLocation
    | some (block, components) => do
      let (start, due, progress) ← overrideUnit int unit block components due progress
      let earliest := earlier earliest start
      -- the earliest start of the children is dropped
      let (_, progress) ← overrideFields children components earliest none progress
      overrideFields next blocks earliest due progress

/-- What the view has written and returns. -/
structure Saved where
  store : Store
  schedule : Schedule
  policy : List GraderSection

/-- `get_override_for_ccx` of the grading policy. -/
def gradingPolicy (store : Store) (course : Course) : List GraderSection :=
  match store.values.lookup (course.location, .gradingPolicy) with
  | some (.policy policy) => policy
  | _ => course.gradingPolicy

section

variable (graded : Dict (Option String) Nat) (grader : GraderSection)

def exceeds : Bool := decide (((graded.lookup grader.type).getD 0 : Int) < grader.minCount.getD 0)

def lowerMinCount : GraderSection :=
  if exceeds graded grader then
    { grader with minCount := some ((graded.lookup grader.type).getD 0) }
  else grader

end

/-- `save_ccx`. -/
def saveCcx (course : Course) (table : Table) (staffOnly : Block → Bool) (schedule : Schedule) :
    Except SaveError Saved := do
  let (earliest, progress) ← overrideFields int schedule course.blocks none none { store := .load table }
  let store := progress.store.bulkDelete progress.toDelete
  let store := store.copyDate course.location .start earliest
  let old := gradingPolicy store course
  let policy := old.map (lowerMinCount progress.graded)
  let store :=
    if old.any (exceeds progress.graded) then store.overrideField (course.location, .gradingPolicy) (.policy policy)
    else store
  return { store, schedule := getCcxSchedule course store.values staffOnly, policy }

end

end EdxPlatform.Ccx
