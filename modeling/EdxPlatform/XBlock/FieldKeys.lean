/-!
# Keys of fields

A key value store is asked for the value of a field with a key, which tells the scope of the
field and what the value belongs to.
-/

namespace EdxPlatform

/-- The scopes of fields. -/
inductive Scope where
  | content
  | settings
  | userState
  | preferences
  | userInfo
  | userStateSummary
  | children
  | parent
  deriving DecidableEq, Repr

inductive UserScope where
  | none
  | one
  | all
  deriving DecidableEq, Repr

/-- Whose values a scope has: those of the authors, of one user, or of all of them. -/
def Scope.user : Scope → UserScope
  | .content | .settings | .children | .parent => .none
  | .userState | .preferences | .userInfo => .one
  | .userStateSummary => .all

/-- The entry point of the class that a field belongs to. -/
inductive BlockFamily where
  | xblock
  | xblockAside
  deriving DecidableEq, Repr

/-- `KeyValueStore.Key`; `β` is what tells blocks apart. -/
structure FieldKey (β : Type) where
  scope : Scope
  userId : Option Nat := none
  blockScopeId : β
  fieldName : String
  blockFamily : BlockFamily := .xblock
  deriving DecidableEq

end EdxPlatform
