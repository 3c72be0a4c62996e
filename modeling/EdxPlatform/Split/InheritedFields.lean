import EdxPlatform.Split.FieldStores
import EdxPlatform.Split.Reverting

/-!
# Inherited fields

A field that a block does not set has the value of the nearest ancestor that sets it, or the
default that was copied from a template, or that of its class.  `InheritingFieldData` looks at
the ancestors, and `SplitMongoKVS` at the default of the template.
-/

namespace EdxPlatform.Split

/-! ## Field data -/

/-- A field of `InheritanceMixin`; only settings are kept in a structure. -/
structure InheritableField where
  name : String
  scope : Scope := .settings
  classDefault : Value
  scope_cases : scope = .settings ∨ scope = .userInfo := by decide

def InheritableField.key (field : InheritableField) (usage : BlockKey) : FieldKey BlockKey where
  scope := field.scope
  blockScopeId := usage
  fieldName := field.name

/-- `_parent_map`; of several parents the last one stays. -/
def parentMap (blocks : Blocks) : Dict BlockKey BlockKey :=
  Dict.ofList (blocks.entries.flatMap fun entry => entry.2.childKeys.map fun child => (child, entry.1))

/-- The store of a block as `xblock_from_json` makes it. -/
def blockStore (converter : String → Value → Value) (loader : Option DefinitionLazyLoader)
    (block : BlockData) : SplitMongoKvs where
  fields := convertFields converter block.settings
  definition := loader
  defaults := convertFields converter block.defaults

/-- The blocks of a structure, with what their fields are converted and loaded with. -/
structure FieldRuntime where
  blocks : Blocks
  converter : String → Value → Value
  loader : BlockKey → Option DefinitionLazyLoader
  inheritableNames : List String

variable (runtime : FieldRuntime)

namespace FieldRuntime

def store (key : BlockKey) (block : BlockData) : SplitMongoKvs :=
  blockStore runtime.converter (runtime.loader key) block

def ancestorValue (field : InheritableField) : Nat → BlockKey → Except StoreError (Option Value)
  | 0, _ => .error .endlessLoop
  | limit + 1, key =>
    match (parentMap runtime.blocks).lookup key with
    | none => .ok none
    | some ancestor =>
      match runtime.blocks.lookup ancestor with
      | none => .error .itemNotFoundError
      | some block =>
        let kvs := runtime.store ancestor block
        if (kvs.has (field.key ancestor)).1 then .ok (kvs.get (field.key ancestor)).1.toOption
        else ancestorValue field limit ancestor

/-- `InheritingFieldData.default` -/
def default (field : InheritableField) (key : BlockKey) (block : BlockData) :
    Except StoreError (Except FieldError Value) := do
  let kvs := runtime.store key block
  if field.name ∈ runtime.inheritableNames then
    match ← runtime.ancestorValue field (runtime.blocks.keys.length + 1) key with
    | some value => pure (.ok value)
    | none => pure (kvs.default (field.key key))
  else pure (kvs.default (field.key key))

def read (field : InheritableField) (key : BlockKey) : Except StoreError Value :=
  match runtime.blocks.lookup key with
  | none => .error .itemNotFoundError
  | some block => do
    let kvs := runtime.store key block
    if (kvs.has (field.key key)).1 then
      pure ((kvs.get (field.key key)).1.toOption.getD field.classDefault)
    else do
      let value ← runtime.default field key block
      pure (value.toOption.getD field.classDefault)

end FieldRuntime

section

variable (field : InheritableField)

def explicitValue (block : BlockData) : Option Value :=
  if field.scope = .settings then
    (block.settings.lookup field.name).map (runtime.converter field.name)
  else none

def templateDefault (block : BlockData) : Option Value :=
  (block.defaults.lookup field.name).map (runtime.converter field.name)

/-- The nearest ancestor that sets the field has the value. -/
inductive InheritsFrom : BlockKey → Value → Prop where
  | parent {key ancestor : BlockKey} {block : BlockData} {value : Value}
      (hedge : runtime.blocks.Edge ancestor key) (hblock : runtime.blocks.lookup ancestor = some block)
      (hset : explicitValue runtime field block = some value) : InheritsFrom key value
  | above {key ancestor : BlockKey} {block : BlockData} {value : Value}
      (hedge : runtime.blocks.Edge ancestor key) (hblock : runtime.blocks.lookup ancestor = some block)
      (hunset : explicitValue runtime field block = none) (habove : InheritsFrom ancestor value) :
      InheritsFrom key value

/-- The default of the template comes first, then the nearest ancestor, then the class. -/
def HasDefault (key : BlockKey) (block : BlockData) (value : Value) : Prop :=
  match templateDefault runtime field block with
  | some default => value = default
  | none => InheritsFrom runtime field key value ∨
      (∀ other, ¬ InheritsFrom runtime field key other) ∧ value = field.classDefault

end

/-! ## Ancestors -/

theorem lookup_parentMap {blocks : Blocks} (htree : blocks.Tree) {child parent : BlockKey} :
    (parentMap blocks).lookup child = some parent ↔ blocks.Edge parent child := by
  have hmem : ∀ entry : BlockKey × BlockKey, entry ∈ (blocks.entries.flatMap fun entry =>
      entry.2.childKeys.map fun child => (child, entry.1)) ↔ blocks.Edge entry.2 entry.1 := by
    rintro ⟨child, parent⟩
    simp only [mem_flatMap, mem_map, Prod.mk.injEq]
    constructor
    · rintro ⟨⟨other, block⟩, hent, found, hfnd, rfl, rfl⟩
      exact ⟨block, mem_lookup_iff.mpr hent, hfnd⟩
    · rintro ⟨block, hblk, hch⟩
      exact ⟨⟨parent, block⟩, mem_lookup_iff.mp hblk, child, hch, rfl, rfl⟩
  unfold parentMap
  rw [Dict.lookup_ofList, hmem]
  intro entry hent other hoth heq
  refine htree.parent_unique entry.1 entry.2 other.2 ((hmem entry).mp hent) ?_
  rw [heq]
  exact (hmem other).mp hoth

section

variable {runtime : FieldRuntime} {field : InheritableField}

theorem lookup_store (key : BlockKey) (block : BlockData) (name : String) :
    (runtime.store key block).fields.lookup name = (block.settings.lookup name).map (runtime.converter name) :=
  lookup_convertFields runtime.converter block.settings name

theorem has_store (key usage : BlockKey) (block : BlockData) :
    ((runtime.store key block).has (field.key usage)).1 = (explicitValue runtime field block).isSome := by
  have hmem : decide (field.name ∈ (runtime.store key block).fields) =
      ((block.settings.lookup field.name).map (runtime.converter field.name)).isSome := by
    rw [← lookup_store key block field.name, eq_iff_iff, decide_eq_true_iff, lookup_isSome]
  unfold SplitMongoKvs.has explicitValue
  rcases field.scope_cases with hscope | hscope
  · have hkey : (field.key usage).scope = .settings := hscope
    simp only [hkey, hscope, if_true]
    exact hmem
  · have hkey : (field.key usage).scope = .userInfo := hscope
    simp only [hkey, hscope]
    rfl

variable {block : BlockData} {key : BlockKey}

theorem get_store {usage : BlockKey} {value : Value} (hval : explicitValue runtime field block = some value) :
    ((runtime.store key block).get (field.key usage)).1.toOption = some value := by
  unfold explicitValue at hval
  split at hval
  · have hfnd : (runtime.store key block).decorated (runtime.store key block).fields field.name = some value := by
      unfold SplitMongoKvs.decorated
      rw [lookup_store, hval]
      rfl
    change ((runtime.store key block).getField (field.key usage)).1.toOption = some value
    unfold SplitMongoKvs.getField InheritableField.key
    rw [hfnd]
    rfl
  · cases hval

theorem default_store (key usage : BlockKey) (block : BlockData) :
    ((runtime.store key block).default (field.key usage)).toOption = templateDefault runtime field block := by
  have hdef : (runtime.store key block).defaults.lookup field.name = templateDefault runtime field block :=
    lookup_convertFields runtime.converter block.defaults field.name
  unfold SplitMongoKvs.default
  change (match ((runtime.store key block).defaults.lookup field.name).or none with
    | some value => Except.ok value
    | none => Except.error FieldError.keyError : Except FieldError Value).toOption = _
  rw [hdef, or_none]
  cases templateDefault runtime field block <;> rfl

section

variable (htree : runtime.blocks.Tree)
include htree

theorem inheritsFrom_iff {ancestor : BlockKey}
    (hedge : runtime.blocks.Edge ancestor key) (hblk : runtime.blocks.lookup ancestor = some block)
    (value : Value) : InheritsFrom runtime field key value ↔ explicitValue runtime field block = some value ∨
        explicitValue runtime field block = none ∧ InheritsFrom runtime field ancestor value := by
  constructor
  · intro hinhe
    cases hinhe with
    | parent hoth hfnd hset =>
      obtain rfl := htree.parent_unique key _ _ hedge hoth
      obtain rfl := some_unique hblk hfnd
      exact .inl hset
    | above hoth hfnd hunset habove =>
      obtain rfl := htree.parent_unique key _ _ hedge hoth
      obtain rfl := some_unique hblk hfnd
      exact .inr ⟨hunset, habove⟩
  · rintro (hset | ⟨hunset, habove⟩)
    · exact .parent hedge hblk hset
    · exact .above hedge hblk hunset habove

theorem ancestorValue_eq {rank : BlockKey → Nat}
    (hrank : ∀ parent child, runtime.blocks.Edge parent child → rank parent < rank child)
    {limit : Nat} (hlimit : rank key < limit) :
    ∃ found, runtime.ancestorValue field limit key = .ok found ∧
      ∀ value, found = some value ↔ InheritsFrom runtime field key value := by
  induction limit generalizing key with
  | zero => exact absurd hlimit (Nat.not_lt_zero _)
  | succ limit ih =>
    unfold FieldRuntime.ancestorValue
    cases hpar : (parentMap runtime.blocks).lookup key with
    | none =>
      have hnone : ∀ parent, ¬ runtime.blocks.Edge parent key := by
        intro parent hedge
        rw [(lookup_parentMap htree).mpr hedge] at hpar
        cases hpar
      refine ⟨none, rfl, fun value => iff_of_false (fun h => nomatch h) fun hinhe => ?_⟩
      cases hinhe with
      | parent hedge _ _ => exact hnone _ hedge
      | above hedge _ _ _ => exact hnone _ hedge
    | some ancestor =>
      have hedge := (lookup_parentMap htree).mp hpar
      obtain ⟨block, hblk⟩ := mem_iff_lookup.mp hedge.parent_mem
      have hiff : ∀ value, InheritsFrom runtime field key value ↔ _ := inheritsFrom_iff htree hedge hblk
      simp only [hblk, has_store]
      cases hset : explicitValue runtime field block with
      | some value =>
        refine ⟨some value, congrArg Except.ok (get_store hset), fun other => ?_⟩
        rw [hiff, hset]
        simp
      | none =>
        obtain ⟨found, hrun, hfnd⟩ := ih (Nat.lt_of_lt_of_le (hrank _ _ hedge) (Nat.le_of_lt_succ hlimit))
        refine ⟨found, hrun, fun value => ?_⟩
        rw [hfnd, hiff, hset]
        simp

theorem ancestorValue_run (field : InheritableField) (key : BlockKey) :
    ∃ found, runtime.ancestorValue field (runtime.blocks.keys.length + 1) key = .ok found ∧
      ∀ value, found = some value ↔ InheritsFrom runtime field key value := by
  obtain ⟨rank, hrank, hbound⟩ := htree.acyclic.exists_rank runtime.blocks.keys.toFinset
    fun parent child hedge => mem_toFinset.mpr hedge.parent_mem
  refine ancestorValue_eq htree hrank (Nat.lt_succ_of_le ((hbound key).trans ?_))
  exact List.toFinset_card_le _

theorem read_unset (hname : field.name ∈ runtime.inheritableNames) (hblk : runtime.blocks.lookup key = some block)
    (hunset : explicitValue runtime field block = none) :
    ∃ found, (∀ value, found = some value ↔ InheritsFrom runtime field key value) ∧ runtime.read field key =
        .ok (found.getD ((templateDefault runtime field block).getD field.classDefault)) := by
  obtain ⟨found, hrun, hfnd⟩ := ancestorValue_run htree field key
  refine ⟨found, hfnd, ?_⟩
  unfold FieldRuntime.read FieldRuntime.default
  simp only [hblk, has_store, hunset, if_pos hname, hrun]
  cases found with
  | some value => rfl
  | none =>
    change Except.ok (((runtime.store key block).default (field.key key)).toOption.getD _) = _
    rw [default_store]
    rfl

end

end

/-- An inheritable field that a block in a tree does not set has the value it is to have if
and only if no ancestor sets it to something else than the default from a template. -/
theorem read_hasDefault_iff (runtime : FieldRuntime) (htree : runtime.blocks.Tree)
    (field : InheritableField) (hname : field.name ∈ runtime.inheritableNames) {key : BlockKey}
    {block : BlockData} (hblock : runtime.blocks.lookup key = some block)
    (hunset : explicitValue runtime field block = none) :
    ∃ value, runtime.read field key = .ok value ∧ (HasDefault runtime field key block value ↔
      ∀ default, templateDefault runtime field block = some default →
        ∀ inherited, InheritsFrom runtime field key inherited → inherited = default) := by
  obtain ⟨found, hfound, hread⟩ := read_unset htree hname hblock hunset
  refine ⟨_, hread, ?_⟩
  unfold HasDefault
  cases hdefault : templateDefault runtime field block with
  | none =>
    refine iff_of_true ?_ fun default h => nomatch h
    cases found with
    | some value => exact .inl ((hfound value).mp rfl)
    | none => exact .inr ⟨fun other hother => (nomatch (hfound other).mpr hother), rfl⟩
  | some default =>
    cases found with
    | some value =>
      constructor
      · rintro (heq : value = default) other hother inherited hinherited
        obtain rfl := some.inj hother
        exact (some.inj ((hfound inherited).mpr hinherited)).symm.trans heq
      · exact fun hall => hall default rfl value ((hfound value).mp rfl)
    | none =>
      refine iff_of_true rfl fun other _ inherited hinherited => ?_
      exact nomatch (hfound inherited).mpr hinherited

def showAnswer : InheritableField := { name := "showanswer", classDefault := "finished" }

/-- A problem that was copied from a template, in a course that sets when answers are shown. -/
def quizRuntime : FieldRuntime where
  blocks := Dict.ofList [(rootKey, newBlock ((∅ : Fields).insert "showanswer" "always")
        (some [⟨"problem", "sum"⟩, ⟨"problem", "own"⟩]) 0 0),
      (⟨"problem", "sum"⟩, newBlock ∅ none 0 0 [] ((∅ : Fields).insert "showanswer" "never")),
      (⟨"problem", "own"⟩, newBlock ∅ none 0 0)]
  converter := fun _ => id
  loader := fun _ => none
  inheritableNames := ["showanswer"]

theorem quizRuntime_tree : quizRuntime.blocks.Tree :=
  Blocks.tree_of_rank (fun key => if key = rootKey then 0 else 1) (by decide +kernel) (by decide +kernel)

theorem ownProblem_hasDefault_iff : ∃ value, quizRuntime.read showAnswer ⟨"problem", "own"⟩ = .ok value ∧
      (HasDefault quizRuntime showAnswer ⟨"problem", "own"⟩ (newBlock ∅ none 0 0) value ↔
        ∀ default, templateDefault quizRuntime showAnswer (newBlock ∅ none 0 0) = some default →
          ∀ inherited, InheritsFrom quizRuntime showAnswer ⟨"problem", "own"⟩ inherited → inherited = default) :=
  read_hasDefault_iff quizRuntime quizRuntime_tree showAnswer (by decide) rfl rfl

/-- The course overrides the default that the problem got from its template. -/
theorem quizRuntime_not_hasDefault : quizRuntime.blocks.Tree ∧ ∃ block,
    quizRuntime.blocks.lookup ⟨"problem", "sum"⟩ = some block ∧
    explicitValue quizRuntime showAnswer block = none ∧
    quizRuntime.read showAnswer ⟨"problem", "sum"⟩ = .ok "always" ∧
    ¬ HasDefault quizRuntime showAnswer ⟨"problem", "sum"⟩ block "always" := by
  refine ⟨quizRuntime_tree, newBlock ∅ none 0 0 [] ((∅ : Fields).insert "showanswer" "never"), rfl, rfl, ?_, ?_⟩
  · have hread : (quizRuntime.read showAnswer ⟨"problem", "sum"⟩).toOption = some "always" := by
      decide +kernel
    cases hrun : quizRuntime.read showAnswer ⟨"problem", "sum"⟩ with
    | ok value =>
      rw [hrun] at hread
      exact congrArg Except.ok (some.inj hread)
    | error error =>
      rw [hrun] at hread
      cases hread
  · intro hdefault
    have hsame : "always" = "never" := hdefault
    exact absurd hsame (by decide)

end EdxPlatform.Split
