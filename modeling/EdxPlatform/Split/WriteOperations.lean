import EdxPlatform.Split.Copying

/-!
# Sequences of write operations

The write operations on the course of a bulk operation.  An operation that raises
leaves the store as it is at that moment.
-/

namespace EdxPlatform.Split

inductive WriteOperation where
  | createItem (blockType : String) (blockId : Option String) (definition : Option ObjectId)
      (fields : PartitionedFields) (asides : List Aside)
  | createChild (parent : BlockKey) (blockType : String) (blockId : Option String)
      (fields : PartitionedFields) (asides : List Aside) (position : Option Int)
  | updateItem (blockType : String) (blockId : Option String) (fields : PartitionedFields)
      (definition : Option ObjectId) (allowNotFound : Bool) (asides : List Aside)
  | deleteItem (blockKey : BlockKey)
  | copy (source : CourseLocator) (subtrees : List BlockKey) (blacklist : Blacklist)
  | copyFromTemplate (keys : List TemplateKey) (blockKey : BlockKey) (headValidation : Bool)

def WriteOperation.run (platform : Platform) (locator : CourseLocator) : WriteOperation → StoreM Unit
  | .createItem blockType blockId definition fields asides => do
    let _ ← Split.createItem locator blockType blockId definition fields asides
    pure ()
  | .createChild parent blockType blockId fields asides position => do
    let _ ← Split.createChild platform locator parent blockType blockId fields asides position
    pure ()
  | .updateItem blockType blockId fields definition allowNotFound asides =>
    Split.updateItem locator blockType blockId fields definition allowNotFound asides
  | .deleteItem blockKey => Split.deleteItem locator blockKey
  | .copy source subtrees blacklist => Split.copy platform source locator subtrees blacklist
  | .copyFromTemplate keys blockKey headValidation =>
    Split.copyFromTemplate platform keys locator blockKey headValidation

def storeAfter {α : Type} (program : StoreM α) (store : Store) : Store :=
  match program store with
  | .ok _ next => next
  | .error _ next => next

theorem storeAfter_of_triple {α : Type} {program : StoreM α} {P : Store → Prop}
    {after : Store → Prop} (htrip : Triple P program (fun _ => after) after) {store : Store}
    (hstore : P store) : after (storeAfter program store) := by
  have hrun := htrip store hstore
  unfold storeAfter
  cases hprog : program store with
  | ok result next => rw [hprog] at hrun; exact hrun
  | error error next => rw [hprog] at hrun; exact hrun

/-- A platform whose course descriptors set no field, and whose ids are derived by
appending texts. -/
def plainPlatform : Platform where
  detached := fun _ => false
  courseFields := fun block fields => { content := fields, settings := block.settings, children := block.children }
  derivedId := fun course branch id parent => course ++ branch ++ id ++ parent
  usageText := fun course blockKey => course ++ blockKey.type ++ blockKey.id
  setOrder := id
  recursionLimit := 10

end EdxPlatform.Split
