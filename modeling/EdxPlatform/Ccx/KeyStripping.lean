import EdxPlatform.Lib.ShortNames

/-!
# Keys of custom courses in the modulestore

The wrapper of the modulestore strips the id of the custom course from what goes in
and restores it in what comes out.  A block is stripped at its location and its parent,
and restored at its children too.
-/

namespace EdxPlatform.CcxModulestore

/-- The locators of the key libraries. -/
structure CcxKeys where
  CourseLocator : Type
  BlockUsageLocator : Type
  CCXLocator : Type
  CCXBlockUsageLocator : Type
  courseKey : BlockUsageLocator → CourseLocator
  blockType : BlockUsageLocator → String
  blockId : BlockUsageLocator → String
  ccx : CCXLocator → String
  toCourseLocator : CCXLocator → CourseLocator
  fromCourseLocator : CourseLocator → String → CCXLocator
  ccxCourseKey : CCXBlockUsageLocator → CCXLocator
  ccxBlockType : CCXBlockUsageLocator → String
  ccxBlockId : CCXBlockUsageLocator → String
  toBlockLocator : CCXBlockUsageLocator → BlockUsageLocator
  ccxBlockUsageLocator : CCXLocator → String → String → CCXBlockUsageLocator

/-- What the libraries say of these: a locator of a custom course is one of the course
with an id, and a usage is made of its course key, type and id. -/
structure CcxKeys.Documented (keys : CcxKeys) : Prop where
  from_to : ∀ key, keys.fromCourseLocator (keys.toCourseLocator key) (keys.ccx key) = key
  ccx_from : ∀ course id, keys.ccx (keys.fromCourseLocator course id) = id
  courseKey_to : ∀ usage, keys.courseKey (keys.toBlockLocator usage) = keys.toCourseLocator (keys.ccxCourseKey usage)
  blockType_to : ∀ usage, keys.blockType (keys.toBlockLocator usage) = keys.ccxBlockType usage
  blockId_to : ∀ usage, keys.blockId (keys.toBlockLocator usage) = keys.ccxBlockId usage
  make : ∀ usage, keys.ccxBlockUsageLocator (keys.ccxCourseKey usage) (keys.ccxBlockType usage)
    (keys.ccxBlockId usage) = usage
  courseKey_make : ∀ course blockType blockId,
    keys.ccxCourseKey (keys.ccxBlockUsageLocator course blockType blockId) = course

section

variable (keys : CcxKeys)

inductive CourseKey where
  | course (key : keys.CourseLocator)
  | ccx (key : keys.CCXLocator)

inductive UsageKey where
  | block (key : keys.BlockUsageLocator)
  | ccx (key : keys.CCXBlockUsageLocator)

/-- A block with its other data.  Some blocks have no attribute `parent` or no
`children`. -/
structure Block where
  data : String
  location : UsageKey keys
  parent : Option (Option (UsageKey keys))
  children : Option (List (UsageKey keys))

/-- What is passed through the wrapper. -/
inductive Value where
  | none
  | courseKey (key : CourseKey keys)
  | usageKey (key : UsageKey keys)
  | block (block : Block keys)
  | list (values : List Value)
  | dict (values : List (String × Value))

/-- `XMODULE_FIELDS_WITH_USAGE_KEYS`. -/
inductive UsageField where
  | location
  | parent

def xmoduleFieldsWithUsageKeys : List UsageField := [.location, .parent]

end

variable {keys : CcxKeys}

namespace Block

/-- `getattr`, none if the block has no such attribute. -/
def get (block : Block keys) : UsageField → Option (Option (UsageKey keys))
  | .location => some (some block.location)
  | .parent => block.parent

/-- `setattr`; a location is a key. -/
def set (block : Block keys) : UsageField → Option (UsageKey keys) → Block keys
  | .location, key => { block with location := key.getD block.location }
  | .parent, key => { block with parent := some key }

end Block

open Block

/-- `strip_ccx` of a course key. -/
def CourseKey.strip : CourseKey keys → CourseKey keys × Option String
  | .course key => (.course key, none)
  | .ccx key => (.course (keys.toCourseLocator key), some (keys.ccx key))

/-- `strip_ccx` of a usage key. -/
def UsageKey.strip : UsageKey keys → UsageKey keys × Option String
  | .block key => (.block key, none)
  | .ccx key => (.block (keys.toBlockLocator key), some (keys.ccx (keys.ccxCourseKey key)))

/-- `strip_ccx` of an attribute, which may be `None`. -/
def stripAttribute : Option (UsageKey keys) → Option (UsageKey keys) × Option String
  | none => (none, none)
  | some key => (some key.strip.1, key.strip.2)

section

variable (block : Block keys)

/-- `strip_ccx` of a block: the id is that of the last field. -/
def Block.strip : Block keys × Option String :=
  xmoduleFieldsWithUsageKeys.foldl (fun result fieldName =>
    match result.1.get fieldName with
    | none => result
    | some value => (result.1.set fieldName (stripAttribute value).1, (stripAttribute value).2))
    (block, none)

/-- `strip_ccx`. -/
def stripCcx : Value keys → Value keys × Option String
  | .none => (.none, none)
  | .courseKey key => (.courseKey key.strip.1, key.strip.2)
  | .usageKey key => (.usageKey key.strip.1, key.strip.2)
  | .block block => (.block block.strip.1, block.strip.2)
  | .list values => (.list values, none)
  | .dict values => (.dict values, none)

section

variable (ccxId : String)

/-- `restore_ccx` of a course key; a locator of a custom course is a locator too. -/
def CourseKey.restore : CourseKey keys → CourseKey keys
  | .course key => .ccx (keys.fromCourseLocator key ccxId)
  | .ccx key => .ccx (keys.fromCourseLocator (keys.toCourseLocator key) ccxId)

/-- `restore_ccx` of a usage key. -/
def UsageKey.restore : UsageKey keys → UsageKey keys
  | .block key => .ccx (keys.ccxBlockUsageLocator (keys.fromCourseLocator (keys.courseKey key) ccxId)
      (keys.blockType key) (keys.blockId key))
  | .ccx key => .ccx (keys.ccxBlockUsageLocator
      (keys.fromCourseLocator (keys.toCourseLocator (keys.ccxCourseKey key)) ccxId)
      (keys.ccxBlockType key) (keys.ccxBlockId key))

/-- `restore_ccx` of a block, at its fields and its children. -/
def Block.restore (ccxId : String) (block : Block keys) : Block keys :=
  let block := xmoduleFieldsWithUsageKeys.foldl (fun block fieldName =>
    match block.get fieldName with
    | none => block
    | some value => block.set fieldName (value.map (UsageKey.restore ccxId))) block
  { block with children := block.children.map (·.map (UsageKey.restore ccxId)) }

/-- `restore_ccx`. -/
def restoreCcx : Value keys → Value keys
  | .courseKey key => .courseKey (key.restore ccxId)
  | .usageKey key => .usageKey (key.restore ccxId)
  | .block block => .block (block.restore ccxId)
  | value => value

/-- `restore_ccx_collection`. -/
def restoreCcxCollection (value : Value keys) : Option String → Value keys
  | none => value
  | some ccxId =>
    match value with
    | .list values => .list (values.map (restoreCcx ccxId))
    | .dict values => .dict (values.map fun entry => (entry.1, restoreCcx ccxId entry.2))
    | value => restoreCcx ccxId value

def CourseKey.CcxFree : CourseKey keys → Prop
  | .course _ => True
  | .ccx _ => False

def UsageKey.CcxFree : UsageKey keys → Prop
  | .block _ => True
  | .ccx _ => False

def Block.outerKeys : List (UsageKey keys) := block.location :: block.parent.join.toList

def Block.childKeys : List (UsageKey keys) := block.children.getD []

/-- No key of a custom course at any depth. -/
inductive CcxFree : Value keys → Prop
  | none : CcxFree .none
  | courseKey {key : CourseKey keys} : key.CcxFree → CcxFree (.courseKey key)
  | usageKey {key : UsageKey keys} : key.CcxFree → CcxFree (.usageKey key)
  | block {block : Block keys} : (∀ key ∈ block.outerKeys ++ block.childKeys, key.CcxFree) → CcxFree (.block block)
  | list {values : List (Value keys)} : (∀ value ∈ values, CcxFree value) → CcxFree (.list values)
  | dict {values : List (String × Value keys)} : (∀ entry ∈ values, CcxFree entry.2) → CcxFree (.dict values)

def UsageKey.InCcx : UsageKey keys → Prop
  | .block _ => False
  | .ccx key => keys.ccx (keys.ccxCourseKey key) = ccxId

end

/-- All keys of a block are in one custom course and it has no children; a parent of
`None` is not looked through. -/
def Block.InOneCcx : Prop :=
  block.parent ≠ some none ∧ (∃ ccxId, ∀ key ∈ block.outerKeys, key.InCcx ccxId) ∧ block.childKeys = []

end

/-- A value that the wrapper strips whole and restores. -/
inductive Unwraps : Value keys → Prop
  | free {value : Value keys} : CcxFree value → Unwraps value
  | courseKey (key : CourseKey keys) : Unwraps (.courseKey key)
  | usageKey (key : UsageKey keys) : Unwraps (.usageKey key)
  | block {block : Block keys} : block.InOneCcx → Unwraps (.block block)

theorem UsageKey.strip_free (key : UsageKey keys) : key.strip.1.CcxFree := by
  cases key with
  | block key => trivial
  | ccx key => trivial

variable {key : UsageKey keys}

theorem UsageKey.strip_eq_iff : key.strip.1 = key ↔ key.CcxFree := by
  constructor
  · intro heq
    rw [← heq]
    exact key.strip_free
  · intro hfree
    cases key with
    | block key => rfl
    | ccx key => cases hfree

theorem UsageKey.strip_id_none : key.strip.2 = none ↔ key.CcxFree := by
  cases key with
  | block key => exact iff_of_true rfl trivial
  | ccx key => exact iff_of_false (fun heq => by cases heq) not_false

variable {ccxId : String}

theorem UsageKey.strip_id : key.strip.2 = some ccxId ↔ key.InCcx ccxId := by
  cases key with
  | block key => exact iff_of_false (fun heq => by cases heq) not_false
  | ccx key => exact some_inj

section

variable (hkeys : keys.Documented)
include hkeys

theorem UsageKey.restore_strip_iff : key.strip.1.restore ccxId = key ↔ key.InCcx ccxId := by
  cases key with
  | block key => exact iff_of_false (fun heq => by cases heq) not_false
  | ccx key =>
    constructor
    · intro heq
      have hsame := congrArg keys.ccxCourseKey (UsageKey.ccx.inj heq)
      rw [hkeys.courseKey_make] at hsame
      rw [UsageKey.InCcx, ← hsame, hkeys.ccx_from]
    · rintro rfl
      simp only [UsageKey.strip, UsageKey.restore]
      rw [hkeys.courseKey_to, hkeys.blockType_to, hkeys.blockId_to, hkeys.from_to, hkeys.make]

theorem CourseKey.strip_restores (key : CourseKey keys) :
    key.strip.1.CcxFree ∧ restoreCcxCollection (.courseKey key.strip.1) key.strip.2 = Value.courseKey key := by
  cases key with
  | course key => exact ⟨trivial, rfl⟩
  | ccx key =>
    refine ⟨trivial, ?_⟩
    simp only [CourseKey.strip, restoreCcxCollection, restoreCcx, CourseKey.restore]
    rw [hkeys.from_to]

theorem UsageKey.strip_restores (key : UsageKey keys) :
    restoreCcxCollection (.usageKey key.strip.1) key.strip.2 = Value.usageKey key := by
  cases hid : key.strip.2 with
  | none => rw [UsageKey.strip_eq_iff.mpr (UsageKey.strip_id_none.mp hid)]; rfl
  | some ccxId => exact congrArg Value.usageKey ((UsageKey.restore_strip_iff hkeys).mpr (UsageKey.strip_id.mp hid))

end

theorem Block.strip_eq (block : Block keys) : block.strip = ({ block with
        location := block.location.strip.1
        parent := block.parent.map (·.map fun key => key.strip.1) },
      match block.parent with
      | none => block.location.strip.2
      | some none => none
      | some (some key) => key.strip.2) := by
  obtain ⟨data, location, parent, children⟩ := block
  match parent with
  | none => rfl
  | some none => rfl
  | some (some key) => rfl

theorem Block.restore_eq (ccxId : String) (block : Block keys) : block.restore ccxId = { block with
        location := block.location.restore ccxId
        parent := block.parent.map (·.map (UsageKey.restore ccxId))
        children := block.children.map (·.map (UsageKey.restore ccxId)) } := by
  obtain ⟨data, location, parent, children⟩ := block
  match parent with
  | none => rfl
  | some none => rfl
  | some (some key) => rfl

variable {block : Block keys}

theorem Block.forall_outerKeys {P : UsageKey keys → Prop} : (∀ key ∈ block.outerKeys, P key) ↔
      P block.location ∧ ∀ key, block.parent = some (some key) → P key := by
  simp [outerKeys, Option.join_eq_some_iff]

theorem Block.ccxFree_iff : CcxFree (.block block) ↔
    (∀ key ∈ block.outerKeys, key.CcxFree) ∧ ∀ key ∈ block.childKeys, key.CcxFree := by
  constructor
  · intro hfree
    cases hfree with
    | block hkeys =>
      exact ⟨fun key hkey => hkeys key (mem_append_left _ hkey), fun key hkey => hkeys key (mem_append_right _ hkey)⟩
  · rintro ⟨houter, hkids⟩
    exact CcxFree.block fun key hkey => (mem_append.mp hkey).elim (houter key) (hkids key)

theorem Block.strip_free_iff (block : Block keys) :
    CcxFree (.block block.strip.1) ↔ ∀ key ∈ block.childKeys, key.CcxFree := by
  have houter : ∀ key ∈ block.strip.1.outerKeys, key.CcxFree := by
    rw [forall_outerKeys, strip_eq]
    refine ⟨block.location.strip_free, fun key hpar => ?_⟩
    obtain ⟨parent, -, heq⟩ := map_eq_some_iff.mp hpar
    obtain ⟨found, -, rfl⟩ := map_eq_some_iff.mp heq
    exact found.strip_free
  rw [ccxFree_iff, strip_eq]
  rw [strip_eq] at houter
  exact and_iff_right houter

theorem Block.strip_eq_iff (block : Block keys) : block.strip.1 = block ↔ ∀ key ∈ block.outerKeys, key.CcxFree := by
  rw [forall_outerKeys, strip_eq]
  obtain ⟨data, location, parent, children⟩ := block
  match parent with
  | none => simp [UsageKey.strip_eq_iff]
  | some none => simp [UsageKey.strip_eq_iff]
  | some (some key) => simp [UsageKey.strip_eq_iff]

theorem restore_children_iff {children : Option (List (UsageKey keys))} (ccxId : String)
    (hfree : ∀ key ∈ children.getD [], key.CcxFree) :
    children.map (·.map (UsageKey.restore ccxId)) = children ↔ children.getD [] = [] := by
  match children with
  | none => exact iff_of_true rfl rfl
  | some [] => exact iff_of_true rfl rfl
  | some (key :: rest) =>
    refine iff_of_false (fun heq => ?_) (cons_ne_nil key rest)
    have hsame := (cons.inj (some.inj heq)).1
    have hkey := hfree key mem_cons_self
    cases key with
    | block key => cases hsame
    | ccx key => exact hkey

theorem Block.restore_strip_iff (hkeys : keys.Documented) (hfree : ∀ key ∈ block.childKeys, key.CcxFree) :
    block.strip.1.restore ccxId = block ↔ (∀ key ∈ block.outerKeys, key.InCcx ccxId) ∧ block.childKeys = [] := by
  rw [forall_outerKeys, restore_eq, strip_eq]
  have hkids := restore_children_iff ccxId hfree
  obtain ⟨data, location, parent, children⟩ := block
  match parent with
  | none => simp [UsageKey.restore_strip_iff hkeys, hkids, childKeys]
  | some none => simp [UsageKey.restore_strip_iff hkeys, hkids, childKeys]
  | some (some key) => simp [UsageKey.restore_strip_iff hkeys, hkids, childKeys, and_assoc]

theorem UsageKey.not_free (hccx : key.InCcx ccxId) : ¬ key.CcxFree := by
  cases key with
  | block key => cases hccx
  | ccx key => exact not_false

theorem Block.strip_id (hid : block.strip.2 = some ccxId) :
    block.parent ≠ some none ∧ ∃ key ∈ block.outerKeys, key.InCcx ccxId := by
  rw [strip_eq] at hid
  obtain ⟨data, location, parent, children⟩ := block
  match parent with
  | none => exact ⟨fun heq => (by cases heq), location, mem_cons_self, UsageKey.strip_id.mp hid⟩
  | some none => cases hid
  | some (some key) =>
    exact ⟨fun heq => (by cases heq), key, mem_cons_of_mem _ mem_cons_self, UsageKey.strip_id.mp hid⟩

theorem Block.strip_id_none (hid : block.strip.2 = none) :
    block.parent = some none ∨ ∃ key ∈ block.outerKeys, key.CcxFree := by
  rw [strip_eq] at hid
  obtain ⟨data, location, parent, children⟩ := block
  match parent with
  | none => exact .inr ⟨location, mem_cons_self, UsageKey.strip_id_none.mp hid⟩
  | some none => exact .inl rfl
  | some (some key) => exact .inr ⟨key, mem_cons_of_mem _ mem_cons_self, UsageKey.strip_id_none.mp hid⟩

theorem UsageKey.InCcx.unique {first second : String}
    (hfst : key.InCcx first) (hsec : key.InCcx second) : first = second :=
  some.inj ((UsageKey.strip_id.mpr hfst).symm.trans (UsageKey.strip_id.mpr hsec))

theorem Block.survives_iff (hkeys : keys.Documented) (block : Block keys) : CcxFree (.block block.strip.1) ∧
        restoreCcxCollection (.block block.strip.1) block.strip.2 = Value.block block ↔
      CcxFree (.block block) ∨ block.InOneCcx := by
  rw [strip_free_iff]
  cases hid : block.strip.2 with
  | none =>
    have hnot : ¬ block.InOneCcx := by
      rintro ⟨hpar, ⟨ccxId, hccx⟩, -⟩
      rcases strip_id_none hid with hnone | ⟨key, hkey, hfree⟩
      · exact hpar hnone
      · exact UsageKey.not_free (hccx key hkey) hfree
    rw [ccxFree_iff, restoreCcxCollection, Value.block.injEq, strip_eq_iff, or_iff_left hnot, and_comm]
  | some ccxId =>
    obtain ⟨hpar, last, hlast, hccx⟩ := strip_id hid
    have hnot : ¬ CcxFree (.block block) := fun hfree =>
      UsageKey.not_free hccx ((ccxFree_iff.mp hfree).1 last hlast)
    rw [or_iff_right hnot]
    constructor
    · rintro ⟨hfree, heq⟩
      obtain ⟨hsame, hkids⟩ := (restore_strip_iff hkeys hfree).mp (Value.block.inj heq)
      exact ⟨hpar, ⟨ccxId, hsame⟩, hkids⟩
    · rintro ⟨-, ⟨other, hsame⟩, hkids⟩
      obtain rfl := (hsame last hlast).unique hccx
      have hfree : ∀ key ∈ block.childKeys, key.CcxFree := by
        rw [hkids]
        exact fun key hkey => nomatch hkey
      exact ⟨hfree, congrArg Value.block ((restore_strip_iff hkeys hfree).mpr ⟨hsame, hkids⟩)⟩

/-- A value is stripped of all custom courses and comes back with the id found
exactly when it is a key, when it has no key of a custom course, or when it is a block
without children whose keys are all in one custom course. -/
theorem strip_restores_iff (hkeys : keys.Documented) (value : Value keys) : CcxFree (stripCcx value).1 ∧
        restoreCcxCollection (stripCcx value).1 (stripCcx value).2 = value ↔ Unwraps value := by
  have hfree : ∀ {value : Value keys}, (∀ key, value ≠ .courseKey key) →
      (∀ key, value ≠ .usageKey key) → (∀ block, value ≠ .block block) →
      (Unwraps value ↔ CcxFree value) := by
    intro value hcourse husage hblock
    refine ⟨fun hunwraps => ?_, Unwraps.free⟩
    cases hunwraps with
    | free hfree => exact hfree
    | courseKey key => exact absurd rfl (hcourse key)
    | usageKey key => exact absurd rfl (husage key)
    | block hone => exact absurd rfl (hblock _)
  cases value with
  | none => exact iff_of_true ⟨CcxFree.none, rfl⟩ (Unwraps.free CcxFree.none)
  | courseKey key =>
    obtain ⟨hstripped, hrestored⟩ := key.strip_restores hkeys
    exact iff_of_true ⟨CcxFree.courseKey hstripped, hrestored⟩ (Unwraps.courseKey key)
  | usageKey key =>
    exact iff_of_true ⟨CcxFree.usageKey key.strip_free, key.strip_restores hkeys⟩ (Unwraps.usageKey key)
  | block block =>
    refine (block.survives_iff hkeys).trans ⟨?_, fun hunwraps => ?_⟩
    · rintro (hfree | hone)
      · exact Unwraps.free hfree
      · exact Unwraps.block hone
    · cases hunwraps with
      | free hfree => exact .inl hfree
      | block hone => exact .inr hone
  | list values =>
    rw [hfree (by simp) (by simp) (by simp)]
    exact and_iff_left rfl
  | dict values =>
    rw [hfree (by simp) (by simp) (by simp)]
    exact and_iff_left rfl

def textKeys : CcxKeys where
  CourseLocator := String
  BlockUsageLocator := String × String × String
  CCXLocator := String × String
  CCXBlockUsageLocator := (String × String) × String × String
  courseKey usage := usage.1
  blockType usage := usage.2.1
  blockId usage := usage.2.2
  ccx key := key.2
  toCourseLocator key := key.1
  fromCourseLocator course ccxId := (course, ccxId)
  ccxCourseKey usage := usage.1
  ccxBlockType usage := usage.2.1
  ccxBlockId usage := usage.2.2
  toBlockLocator usage := (usage.1.1, usage.2)
  ccxBlockUsageLocator course blockType blockId := (course, blockType, blockId)

theorem textKeys_documented : textKeys.Documented :=
  ⟨fun _ => rfl, fun _ _ => rfl, fun _ => rfl, fun _ => rfl, fun _ => rfl, fun _ => rfl, fun _ _ _ => rfl⟩

def algebraUsage (blockType blockId : String) : UsageKey textKeys := .ccx (("algebra", "1"), blockType, blockId)

def algebraProblem : Block textKeys :=
  ⟨"problem", algebraUsage "problem" "p", some (some (algebraUsage "chapter" "c")), none⟩

theorem algebraProblem_strip_restores : CcxFree (stripCcx (.block algebraProblem)).1 ∧
      restoreCcxCollection (stripCcx (.block algebraProblem)).1
        (stripCcx (.block algebraProblem)).2 = .block algebraProblem :=
  (strip_restores_iff textKeys_documented (.block algebraProblem)).mpr
    (Unwraps.block ⟨by simp [algebraProblem], ⟨"1", Block.forall_outerKeys.mpr
      ⟨rfl, fun key hparent => by rw [← some.inj (some.inj hparent)]; rfl⟩⟩, rfl⟩)

def algebraChapter : Block textKeys :=
  ⟨"chapter", algebraUsage "chapter" "c", some (some (algebraUsage "course" "course")),
    some [algebraUsage "problem" "p"]⟩

def algebraCourse : Block textKeys := ⟨"course", algebraUsage "course" "course", some none, none⟩

/-- The key of the child is left in the chapter, and the course is not restored. -/
theorem algebra_not_strip_restores : ¬ CcxFree (stripCcx (.block algebraChapter)).1 ∧
      restoreCcxCollection (stripCcx (.block algebraCourse)).1
        (stripCcx (.block algebraCourse)).2 ≠ .block algebraCourse := by
  constructor
  · intro hfree
    cases hfree with
    | block hkeys => exact hkeys (algebraUsage "problem" "p") (mem_append_right _ mem_cons_self)
  · intro heq
    have hlocation := congrArg Block.location (Value.block.inj heq)
    cases hlocation

end EdxPlatform.CcxModulestore
