import EdxPlatform.Split.Store

/-!
# Two clients of the split store

Each client runs one outermost bulk operation on the same course.  Its steps are
the start, edits of branches, the insert of the structures and the update of the
index; the steps of the two clients may come in any order.
-/

namespace EdxPlatform.Split

inductive Client where
  | first
  | second
  deriving DecidableEq, Repr

/-- How far the bulk operation of a client has come. -/
inductive Phase where
  | idle
  | editing (record : SplitBulkWriteRecord)
  | inserted (record : SplitBulkWriteRecord)
  | done (record : SplitBulkWriteRecord)

inductive ClientStep where
  | start
  | edit (branch : Branch) (change : Blocks → Blocks)
  | insertStructures
  | updateIndex (now : Timestamp)

structure World where
  db : Database
  phase : Client → Phase

def World.setPhase (world : World) (client : Client) (phase : Phase) : World :=
  { world with phase := Function.update world.phase client phase }

section

variable (course : CourseKey)

def editBranch (branch : Branch) (change : Blocks → Blocks) :
    StoreM Unit := do
  let envelope ← lookupCourse { course := course, branch := branch }
  let _ ← editVersion branch envelope fun _ => modify fun struct => { struct with blocks := change struct.blocks }
  pure ()

/-- One step of a client; there is none if the client is not that far, or if the
edit raises. -/
def World.step (course : CourseKey) (world : World) (step : Client × ClientStep) : Option World :=
  match world.phase step.1, step.2 with
  | .idle, .start => some (world.setPhase step.1 (.editing (startBulk world.db course)))
  | .editing record, .edit branch change =>
    match editBranch course branch change { db := world.db, record := record } with
    | .ok _ store => some ({ world with db := store.db }.setPhase step.1 (.editing store.record))
    | .error _ _ => none
  | .editing record, .insertStructures =>
    some ({ world with db := flushDocuments world.db record }.setPhase step.1 (.inserted record))
  | .inserted record, .updateIndex now =>
    some ({ world with db := flushIndex world.db record now }.setPhase step.1 (.done record))
  | _, _ => none

def World.run (world : World) (steps : List (Client × ClientStep)) : Option World :=
  steps.foldlM (World.step course) world

def World.initial (db : Database) : World := { db := db, phase := fun _ => .idle }

/-- `id` is the version `newer`, or one from which it descends. -/
inductive InHistory (structures : Dict ObjectId Structure) (id : ObjectId) : ObjectId → Prop
  | self : InHistory structures id id
  | previous {newer older : ObjectId} {struct : Structure} (hstruct : structures.lookup newer = some struct)
      (hprevious : struct.previousVersion = some older)
      (hhistory : InHistory structures id older) : InHistory structures id newer

/-- The versions that a client made of the branches that it edited are saved, and
are in the history of the heads. -/
def EditsContained (db : Database) (record : SplitBulkWriteRecord) : Prop :=
  ∀ branch ∈ record.dirtyBranches, ∃ version struct head, record.head branch = some version ∧
    record.structures.lookup version = some struct ∧
    db.structures.lookup version = some struct ∧
    db.headOf course branch = some head ∧
    InHistory db.structures version head

/-- Both bulk operations have ended and the edits of both are contained in the heads. -/
def NoLostUpdate (world : World) : Prop :=
  ∀ client, ∃ record, world.phase client = .done record ∧ EditsContained course world.db record

end

def Phase.isOpen : Phase → Bool
  | .editing _ | .inserted _ => true
  | .idle | .done _ => false

/-- At some moment of the run the bulk operations of both clients are open. -/
def OpenTogether (course : CourseKey) : World → List (Client × ClientStep) → Prop
  | world, [] => ∀ client, (world.phase client).isOpen
  | world, step :: steps => (∀ client, (world.phase client).isOpen) ∨
      ∃ next, world.step course step = some next ∧ OpenTogether course next steps

def Edits (client : Client) (steps : List (Client × ClientStep)) : Prop :=
  ∃ branch change, (client, .edit branch change) ∈ steps

end EdxPlatform.Split
