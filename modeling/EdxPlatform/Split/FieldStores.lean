import EdxPlatform.Split.Structure
import EdxPlatform.XBlock.FieldKeys

/-!
# The fields of split blocks

`SplitMongoKVS` holds the settings and the children of a block, and its content once the
definition was loaded.
-/

namespace EdxPlatform.Split

inductive FieldError where
  | keyError
  | invalidScopeError
  deriving DecidableEq, Repr

/-- `None`, as a field value. -/
def noneValue : Value := "null"

/-- Fetches a definition, with the fields of asides if it has any, when it is needed. -/
structure DefinitionLazyLoader where
  /-- What `fetch` returns. -/
  persisted : Option Definition
  asideFields : Dict String Fields := ∅
  /-- Converts the value of a field. -/
  fieldConverter : String → Value → Value

section

variable (converter : String → Value → Value) (fields : Fields)

/-- The `field_converter` of a loader, on all fields. -/
def convertFields : Fields := Dict.ofList (fields.entries.map fun entry => (entry.1, converter entry.1 entry.2))

theorem lookup_convertFields (name : String) :
    (convertFields converter fields).lookup name = (fields.lookup name).map (converter name) :=
  Dict.lookup_ofList_mapWith fields converter name

end

structure SplitMongoKvs where
  fields : Fields
  /-- The loader, unless the definition was loaded or there is none. -/
  definition : Option DefinitionLazyLoader := none
  defaults : Fields := ∅
  inheritedSettings : Fields := ∅
  parent : Value := noneValue
  asideFields : Dict String Fields := ∅
  fieldDecorator : Value → Value := id

namespace SplitMongoKvs

def validScopes : List Scope := [.parent, .children, .settings, .content]

def overlayAsides (asideFields persisted : Dict String Fields) : Dict String Fields :=
  persisted.entries.foldl (fun asideFields entry =>
    asideFields.insert entry.1 (((asideFields.lookup entry.1).getD ∅).update entry.2)) asideFields

/-- `_load_definition` -/
def loadDefinition (kvs : SplitMongoKvs) : SplitMongoKvs :=
  match kvs.definition with
  | none => kvs
  | some loader =>
    match loader.persisted with
    | none => { kvs with definition := none }
    | some persisted =>
      { kvs with
        fields := kvs.fields.update (convertFields loader.fieldConverter persisted.fields)
        asideFields := overlayAsides kvs.asideFields loader.asideFields
        definition := none }

def decorated (kvs : SplitMongoKvs) (fields : Fields) (name : String) : Option Value :=
  (fields.lookup name).map kvs.fieldDecorator

section

variable (kvs : SplitMongoKvs) (key : FieldKey BlockKey)

/-- `get` of a field of an aside; the definition may have fields of asides. -/
def getAsideField : Except FieldError Value × SplitMongoKvs :=
  let field (kvs : SplitMongoKvs) : Option Value :=
    (kvs.asideFields.lookup key.blockScopeId.type).bind fun fields => kvs.decorated fields key.fieldName
  if key.scope ∉ validScopes then (.error .invalidScopeError, kvs)
  else
    match field kvs with
    | some value => (.ok value, kvs)
    | none =>
      let kvs := kvs.loadDefinition
      match field kvs with
      | some value => (.ok value, kvs)
      | none => (.error .keyError, kvs)

/-- `get` of a field of the block. -/
def getField : Except FieldError Value × SplitMongoKvs :=
  match kvs.decorated kvs.fields key.fieldName with
  | some value => (.ok value, kvs)
  | none =>
    match key.scope with
    | .parent => (.ok kvs.parent, kvs)
    | .children | .settings => (.error .keyError, kvs)
    | .content =>
      if kvs.definition.isSome then
        let kvs := kvs.loadDefinition
        -- a field that the definition does not have is `None`
        (.ok ((kvs.decorated kvs.fields key.fieldName).getD noneValue), kvs)
      else (.error .keyError, kvs)
    | _ => (.error .invalidScopeError, kvs)

def get : Except FieldError Value × SplitMongoKvs :=
  match key.blockFamily with
  | .xblockAside => kvs.getAsideField key
  | .xblock => kvs.getField key

/-- The store in which a field is written: its definition is loaded if it has content. -/
def loadFor (kvs : SplitMongoKvs) (scope : Scope) : SplitMongoKvs :=
  if scope = .content then kvs.loadDefinition else kvs

def set (value : Value) : Except FieldError Unit × SplitMongoKvs :=
  if key.scope ∉ validScopes then (.error .invalidScopeError, kvs)
  else
    let kvs := kvs.loadFor key.scope
    match key.blockFamily with
    | .xblockAside =>
      if key.scope = .children then (.error .invalidScopeError, kvs)
      else
        let asideFields := (kvs.asideFields.lookup key.blockScopeId.type).getD ∅
        (.ok (), { kvs with
          asideFields := kvs.asideFields.insert key.blockScopeId.type (asideFields.insert key.fieldName value) })
    | .xblock => (.ok (), { kvs with fields := kvs.fields.insert key.fieldName value })

def delete : Except FieldError Unit × SplitMongoKvs :=
  if key.scope ∉ validScopes then (.error .invalidScopeError, kvs)
  else
    let kvs := kvs.loadFor key.scope
    match key.blockFamily with
    | .xblockAside =>
      if key.scope = .children then (.error .invalidScopeError, kvs)
      else
        (.ok (), { kvs with
          asideFields := Dict.modify key.blockScopeId.type (·.erase key.fieldName) kvs.asideFields })
    | .xblock => (.ok (), { kvs with fields := kvs.fields.erase key.fieldName })

def has : Bool × SplitMongoKvs :=
  if key.scope ∉ validScopes then (false, kvs)
  else
    let kvs := kvs.loadFor key.scope
    if key.scope = .parent then (true, kvs)
    else
      match key.blockFamily with
      | .xblockAside =>
        (key.scope ≠ .children && (kvs.asideFields.lookup key.blockScopeId.type).any
          fun fields => decide (key.fieldName ∈ fields), kvs)
      | .xblock => (decide (key.fieldName ∈ kvs.fields), kvs)

/-- `default`: that of the template, if there is one, before the inherited settings. -/
def default : Except FieldError Value :=
  match (kvs.defaults.lookup key.fieldName).or (kvs.inheritedSettings.lookup key.fieldName) with
  | some value => .ok value
  | none => .error .keyError

end

end SplitMongoKvs

end EdxPlatform.Split
