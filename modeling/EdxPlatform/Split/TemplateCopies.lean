import EdxPlatform.Split.HeadRuns
import EdxPlatform.Split.Marks
import EdxPlatform.Split.Subtrees
import EdxPlatform.Split.WriteOperations

/-!
# Copies from a template

The descendants of the destination that are no copies any more are deleted.  A block that
lists one of them keeps listing it, unless it is deleted as well or gets new children; and
a copy of a block without children keeps those of an earlier copy.
-/

namespace EdxPlatform.Split

open Relation Blocks Dict

def Blocks.Closed (blocks : Blocks) : Prop := ∀ parent child, blocks.Edge parent child → child ∈ blocks

abbrev Visit := TemplateKey × BlockKey

def Visit.copy (platform : Platform) (visit : Visit) : BlockKey := derivedKey platform visit.1 visit.2

/-- A copy goes on to the children of the source. -/
inductive VisitStep (platform : Platform) (sourceBlock : TemplateKey → Option BlockData) :
    Visit → Visit → Prop where
  | child {key : TemplateKey} {parent child : BlockKey} {block : BlockData}
      (hblock : sourceBlock key = some block) (hchild : child ∈ block.childKeys) :
      VisitStep platform sourceBlock (key, parent) ({ key with block := child }, derivedKey platform key parent)

section

variable (platform : Platform) (sourceBlock : TemplateKey → Option BlockData)

def CopiesFrom (visit : Visit) (copy : BlockKey) : Prop :=
  ∃ last, ReflTransGen (VisitStep platform sourceBlock) visit last ∧ last.copy platform = copy

def FillsFrom (visit : Visit) (copy : BlockKey) : Prop :=
  ∃ last block, ReflTransGen (VisitStep platform sourceBlock) visit last ∧
    last.copy platform = copy ∧ sourceBlock last.1 = some block ∧ block.childKeys ≠ []

section

variable (keys : List TemplateKey)

def IsCopy (destination copy : BlockKey) : Prop :=
  ∃ key ∈ keys, CopiesFrom platform sourceBlock (key, destination) copy

/-- The block gets new children: it is the destination, or the copy of a block that has some. -/
def GetsChildren (destination block : BlockKey) : Prop :=
  block = destination ∨ ∃ key ∈ keys, FillsFrom platform sourceBlock (key, destination) block

/-- The block was a descendant of the destination, and is no copy any more. -/
def Orphaned (destination : BlockKey) (before : Blocks) (key : BlockKey) :
    Prop :=
  key ≠ destination ∧ ReflTransGen before.Edge destination key ∧ ¬ IsCopy platform sourceBlock keys destination key

def OrphansUnlisted (destination : BlockKey) (before : Blocks) : Prop :=
  ∀ parent child, before.Edge parent child → Orphaned platform sourceBlock keys destination before child →
    Orphaned platform sourceBlock keys destination before parent ∨
      GetsChildren platform sourceBlock keys destination parent

end

variable {platform sourceBlock} {key : TemplateKey} {parent : BlockKey} {block : BlockData}

section

variable (hblk : sourceBlock key = some block) (copy : BlockKey)
include hblk

theorem copiesFrom_iff : CopiesFrom platform sourceBlock (key, parent) copy ↔ derivedKey platform key parent = copy ∨
      IsCopy platform sourceBlock (block.childKeys.map fun child => { key with block := child })
        (derivedKey platform key parent) copy := by
  unfold CopiesFrom IsCopy
  constructor
  · rintro ⟨last, hpath, rfl⟩
    rcases ReflTransGen.cases_head hpath with rfl | ⟨_, ⟨hfnd, hch⟩, hpath⟩
    · exact .inl rfl
    · obtain rfl := some_unique hfnd hblk
      exact .inr ⟨_, mem_map_of_mem hch, last, hpath, rfl⟩
  · rintro (rfl | ⟨_, hmem, last, hpath, rfl⟩)
    · exact ⟨_, ReflTransGen.refl, rfl⟩
    · obtain ⟨child, hch, rfl⟩ := mem_map.mp hmem
      exact ⟨last, ReflTransGen.head (.child hblk hch) hpath, rfl⟩

theorem fillsFrom_iff : FillsFrom platform sourceBlock (key, parent) copy ↔ block.childKeys ≠ [] ∧
      GetsChildren platform sourceBlock (block.childKeys.map fun child => { key with block := child })
        (derivedKey platform key parent) copy := by
  unfold FillsFrom GetsChildren
  constructor
  · rintro ⟨last, found, hpath, rfl, hfnd, hsome⟩
    rcases ReflTransGen.cases_head hpath with rfl | ⟨_, ⟨hsrc, hch⟩, hpath⟩
    · obtain rfl := some_unique hfnd hblk
      exact ⟨hsome, .inl rfl⟩
    · obtain rfl := some_unique hsrc hblk
      exact ⟨ne_nil_of_mem hch, .inr ⟨_, mem_map_of_mem hch, last, found, hpath, rfl, hfnd, hsome⟩⟩
  · rintro ⟨hsome, rfl | ⟨_, hmem, last, found, hpath, rfl, hfnd, hoths⟩⟩
    · exact ⟨_, block, ReflTransGen.refl, rfl, hblk, hsome⟩
    · obtain ⟨child, hch, rfl⟩ := mem_map.mp hmem
      exact ⟨last, found, ReflTransGen.head (.child hblk hch) hpath, rfl, hfnd, hoths⟩

end

end

/-! ## The blocks while copies are made -/

/-- The blocks when some copies were made and some blocks got new children. -/
structure Templated (before : Blocks) (copies filled : BlockKey → Prop) (struct : Structure) :
    Prop where
  mem_iff : ∀ key, key ∈ struct.blocks ↔ key ∈ before ∨ copies key
  kept : ∀ key block, struct.blocks.lookup key = some block → ¬ filled key →
    ∀ child, child ∈ block.childKeys ↔ before.Edge key child
  filled : ∀ key block, struct.blocks.lookup key = some block → filled key → ∀ child ∈ block.childKeys, copies child

section Templates

variable {platform : Platform} {sources : SourceStructures} {newId : ObjectId}
  {sourceBlock : TemplateKey → Option BlockData} {before : Blocks} {copies filled : BlockKey → Prop}
  {struct : Structure}

theorem Templated.congr {others fills : BlockKey → Prop}
    (htmpl : Templated before copies filled struct) (hcop : ∀ key, copies key ↔ others key)
    (hfil : ∀ key, filled key ↔ fills key) : Templated before others fills struct := by
  obtain rfl : copies = others := funext fun key => propext (hcop key)
  obtain rfl : filled = fills := funext fun key => propext (hfil key)
  exact htmpl

theorem Templated.insertCopy (htmpl : Templated before copies filled struct) (key : TemplateKey)
    (source : BlockData) (copy : BlockKey) {content : BlockData}
    (hcont : content = templateBlock platform key source (struct.blocks.lookup copy) newId) :
    Templated before (fun other => copies other ∨ other = copy) filled
      { struct with blocks := struct.blocks.insert copy content } := by
  have hkids : content.childKeys = ((struct.blocks.lookup copy).map BlockData.childKeys).getD [] := by
    rw [hcont]
    cases struct.blocks.lookup copy <;> rfl
  constructor
  · intro other
    rw [mem_insert, htmpl.mem_iff]
    tauto
  · intro other block hblk hnot child
    rw [lookup_insert] at hblk
    split at hblk
    · next heq =>
        subst heq
        obtain rfl := some.inj hblk
        rw [hkids]
        cases hfnd : struct.blocks.lookup other with
        | some found => exact htmpl.kept other found hfnd hnot child
        | none =>
          refine iff_of_false (not_mem_nil) fun hedge => ?_
          exact lookup_eq_none.mp hfnd ((htmpl.mem_iff other).mpr (.inl hedge.parent_mem))
    · exact htmpl.kept other block hblk hnot child
  · intro other block hblk hfill child hch
    rw [lookup_insert] at hblk
    split at hblk
    · next heq =>
        subst heq
        obtain rfl := some.inj hblk
        rw [hkids] at hch
        cases hfnd : struct.blocks.lookup other with
        | some found =>
          rw [hfnd] at hch
          exact .inl (htmpl.filled other found hfnd hfill child hch)
        | none =>
          rw [hfnd] at hch
          cases hch
    · exact .inl (htmpl.filled other block hblk hfill child hch)

theorem Templated.setChildren (htmpl : Templated before copies filled struct)
    {parent : BlockKey} {block : BlockData} (hblk : struct.blocks.lookup parent = some block)
    {children : List BlockKey} (hkids : ∀ child ∈ children, copies child) :
    Templated before copies (fun other => filled other ∨ other = parent)
      { struct with
        blocks := struct.blocks.insert parent { block with children := some children } } := by
  constructor
  · intro other
    rw [mem_insert, or_iff_right_of_imp, htmpl.mem_iff]
    rintro rfl
    exact mem_of_lookup hblk
  · intro other found hfnd hnot child
    rw [not_or] at hnot
    rw [lookup_insert, if_neg hnot.2] at hfnd
    exact htmpl.kept other found hfnd hnot.1 child
  · intro other found hfnd hfill child hch
    rw [lookup_insert] at hfnd
    split at hfnd
    · obtain rfl := some.inj hfnd
      exact hkids child hch
    · next hne => exact htmpl.filled other found hfnd (hfill.resolve_right hne) child hch

/-- The sources of the keys are read from other structures than the one that is edited. -/
def ReadsFrom (sources : SourceStructures) (sourceBlock : TemplateKey → Option BlockData)
    (keys : List TemplateKey) : Prop :=
  ∀ key : TemplateKey, (∃ other ∈ keys, other.course = key.course) → ∀ blocks,
    (sources.blocks key.course blocks).lookup key.block = sourceBlock key

variable {key : TemplateKey} {keys : List TemplateKey}

theorem ReadsFrom.below (hreads : ReadsFrom sources sourceBlock keys) (hkey : key ∈ keys) (children : List BlockKey) :
    ReadsFrom sources sourceBlock (children.map fun child => { key with block := child }) := by
  rintro other ⟨_, hmem, hcrs⟩
  obtain ⟨child, -, rfl⟩ := mem_map.mp hmem
  exact hreads other ⟨key, hkey, hcrs⟩

variable {newParent : BlockKey}

theorem copyTemplate_returns {depth : Nat} (hreads : ReadsFrom sources sourceBlock keys)
    (ih : ∀ keys parent, ReadsFrom sources sourceBlock keys → Triple (fun _ => True)
      (copyTemplates platform sources newId depth keys parent)
      (fun new _ => ∀ copy, copy ∈ new ↔ IsCopy platform sourceBlock keys parent copy) (fun _ => True))
        (hkey : key ∈ keys) :
    Triple (fun _ => True) (copyTemplate platform sources newId depth newParent key)
      (fun copied _ => copied.1 = derivedKey platform key newParent ∧
        ∀ copy, copy ∈ copied.2 ↔ CopiesFrom platform sourceBlock (key, newParent) copy)
      (fun _ => True) := by
  apply triple_read
  intro struct _
  apply triple_found _ fun _ _ => trivial
  intro source hsrc
  rw [hreads key ⟨key, hkey, rfl⟩] at hsrc
  apply triple_bind (M := fun _ _ => True) (fun _ _ => trivial)
  intro _
  apply triple_ite
  · intro hemp
    refine triple_pure fun _ _ => ⟨rfl, fun copy => ?_⟩
    rw [copiesFrom_iff hsrc, isEmpty_iff.mp hemp]
    simp [IsCopy, eq_comm]
  · intro _
    apply triple_bind (ih _ _ (hreads.below hkey source.childKeys))
    intro below
    refine triple_pure fun _ hbel => ⟨rfl, fun copy => ?_⟩
    rw [copiesFrom_iff hsrc, mem_cons, hbel, eq_comm]

theorem copyTemplates_returns (depth : Nat) (hreads : ReadsFrom sources sourceBlock keys) :
    Triple (fun _ => True) (copyTemplates platform sources newId depth keys newParent)
      (fun new _ => ∀ copy, copy ∈ new ↔ IsCopy platform sourceBlock keys newParent copy)
      (fun _ => True) := by
  induction depth generalizing keys newParent with
  | zero => exact triple_throw fun _ h => h
  | succ depth ih =>
    rw [copyTemplates_succ]
    apply triple_bind (triple_collect (I := fun _ => True) fun key hkey => (copyTemplate_returns hreads (fun keys parent hreads => ih hreads) hkey).post (fun _ _ h => ⟨h, trivial⟩))
    intro copied
    apply triple_of_state
    rintro current ⟨hcopd, -⟩
    refine triple_bind (M := fun _ _ => True) triple_trivial fun _ => triple_pure fun _ _ copy => ?_
    clear hreads
    unfold IsCopy
    induction hcopd with
    | nil => simp
    | cons hfst _ ih => simp [hfst.2, ih]

theorem copyTemplate_templated {depth : Nat} (hreads : ReadsFrom sources sourceBlock keys)
    (ih : ∀ keys parent copies filled, ReadsFrom sources sourceBlock keys →
      Triple (Templated before copies filled) (copyTemplates platform sources newId depth keys parent)
        (fun _ => Templated before (fun copy => copies copy ∨ IsCopy platform sourceBlock keys parent copy)
          (fun copy => filled copy ∨ GetsChildren platform sourceBlock keys parent copy))
        (fun _ => True)) (hkey : key ∈ keys) :
    Triple (Templated before copies filled) (copyTemplate platform sources newId depth newParent key)
      (fun _ => Templated before (fun copy => copies copy ∨ CopiesFrom platform sourceBlock (key, newParent) copy)
        (fun copy => filled copy ∨ FillsFrom platform sourceBlock (key, newParent) copy))
      (fun _ => True) := by
  apply triple_read
  intro struct htmpl
  apply triple_found _ fun _ _ => trivial
  intro source hsrc
  rw [hreads key ⟨key, hkey, rfl⟩] at hsrc
  apply triple_bind (M := fun _ => Templated before
    (fun copy => copies copy ∨ copy = derivedKey platform key newParent) filled)
  · rintro _ rfl
    exact htmpl.insertCopy key source _ rfl
  · intro _
    apply triple_ite
    · intro hemp
      have hnone := isEmpty_iff.mp hemp
      refine triple_pure fun _ h => h.congr (fun copy => ?_) fun copy => ?_
      · rw [copiesFrom_iff hsrc, hnone]
        simp [IsCopy, eq_comm]
      · rw [fillsFrom_iff hsrc, hnone]
        simp
    · intro hsome
      have hne : source.childKeys ≠ [] := fun hnil => hsome (isEmpty_iff.mpr hnil)
      apply triple_bind (ih _ _ _ _ (hreads.below hkey source.childKeys))
      intro below
      refine triple_pure fun _ h => h.congr (fun copy => ?_) fun copy => ?_
      · rw [copiesFrom_iff hsrc, or_assoc, eq_comm (a := copy)]
      · rw [fillsFrom_iff hsrc, and_iff_right hne]

theorem copyTemplates_templated (depth : Nat) (hreads : ReadsFrom sources sourceBlock keys) :
    Triple (Templated before copies filled) (copyTemplates platform sources newId depth keys newParent)
      (fun _ => Templated before (fun copy => copies copy ∨ IsCopy platform sourceBlock keys newParent copy)
        (fun copy => filled copy ∨ GetsChildren platform sourceBlock keys newParent copy))
      (fun _ => True) := by
  induction depth generalizing keys newParent copies filled with
  | zero => exact triple_throw fun _ _ => trivial
  | succ depth ih =>
    rw [copyTemplates_succ]
    have hret : Triple (fun _ => True) (collect (copyTemplate platform sources newId depth newParent) keys)
        (fun copied _ => copied.map Prod.fst = keys.map fun key => derivedKey platform key newParent)
        (fun _ => True) := by
      refine (triple_collect (I := fun _ => True) fun key hkey => (copyTemplate_returns hreads (fun _ _ hreads => copyTemplates_returns depth hreads) hkey).post (fun _ _ h => ⟨h.1, trivial⟩)).post ?_
      rintro copied _ ⟨hcopd, -⟩
      rw [← List.forall₂_eq_eq_eq, List.forall₂_map_left_iff, List.forall₂_map_right_iff]
      exact hcopd.flip
    have htrac : Triple (Templated before copies filled)
        (collect (copyTemplate platform sources newId depth newParent) keys)
        (fun _ => Templated before (fun copy => copies copy ∨ IsCopy platform sourceBlock keys newParent copy)
          (fun copy => filled copy ∨ ∃ key ∈ keys,
            FillsFrom platform sourceBlock (key, newParent) copy)) (fun _ => True) := by
      refine triple_weaken (triple_collect_trace (f := fun key => [key])
        (I := fun (done : List TemplateKey) => Templated before
          (fun copy => copies copy ∨ IsCopy platform sourceBlock done newParent copy)
          (fun copy => filled copy ∨ ∃ key ∈ done,
            FillsFrom platform sourceBlock (key, newParent) copy)) ?_ []) ?_ ?_ fun _ h => h
      · intro key hkey done
        refine (copyTemplate_templated hreads (fun _ _ _ _ hreads => ih hreads) hkey).post (fun _ _ h => h.congr (fun copy => ?_) fun copy => ?_)
        · simp [IsCopy, or_assoc, or_and_right, exists_or]
        · simp [or_assoc, or_and_right, exists_or]
      · exact fun _ h => h.congr (fun copy => by simp [IsCopy]) fun copy => by simp
      · simp
    apply triple_bind ((triple_and (hret.pre (fun _ _ => trivial)) htrac).raise fun _ _ => trivial)
    intro copied
    apply triple_of_state
    rintro current ⟨hkids, hcur⟩
    rw [hkids]
    refine triple_bind (M := fun _ => Templated before
      (fun copy => copies copy ∨ IsCopy platform sourceBlock keys newParent copy)
      (fun copy => filled copy ∨ GetsChildren platform sourceBlock keys newParent copy)) ?_
      fun _ => triple_pure fun _ h => h
    apply triple_read
    rintro _ rfl
    apply triple_found _ fun _ _ => trivial
    rintro block hblk _ rfl
    refine (hcur.setChildren hblk fun child hch => .inr ?_).congr (fun copy => Iff.rfl) fun copy => ?_
    · obtain ⟨key, hkey, rfl⟩ := mem_map.mp hch
      exact ⟨key, hkey, _, ReflTransGen.refl, rfl⟩
    · rw [or_assoc]
      exact or_congr_right or_comm

end Templates

theorem descendants_eq {blocks : Blocks} {depth : Nat} {key : BlockKey} {found result : List BlockKey}
    (hrun : descendants blocks depth key found = .ok result) (other : BlockKey) :
    other ∈ result ↔ other ∈ found ∨ other ∈ blocks ∧ ReflTransGen blocks.Edge key other := by
  induction depth generalizing key found result other with
  | zero => cases hrun
  | succ depth ih =>
    unfold descendants at hrun
    cases hblk : blocks.lookup key with
    | none =>
      rw [hblk] at hrun
      obtain rfl : found = result := by injection hrun
      have hnone : ¬ (other ∈ blocks ∧ ReflTransGen blocks.Edge key other) := by
        rintro ⟨hmem, hpath⟩
        rcases ReflTransGen.cases_head hpath with rfl | ⟨_, hedge, -⟩
        · exact lookup_eq_none.mp hblk hmem
        · exact lookup_eq_none.mp hblk hedge.parent_mem
      rw [or_iff_left hnone]
    | some block =>
      rw [hblk] at hrun
      have hloop : ∀ (children found : List BlockKey) {result : List BlockKey},
          children.foldlM (fun found child => descendants blocks depth child found) found = .ok result →
          ∀ other, other ∈ result ↔ other ∈ found ∨
            other ∈ blocks ∧ ∃ child ∈ children, ReflTransGen blocks.Edge child other := by
        intro children
        induction children with
        | nil =>
          intro found result hrun other
          obtain rfl : found = result := by injection hrun
          simp
        | cons child children ihc =>
          intro found result hrun other
          rw [foldlM_cons] at hrun
          cases hfst : descendants blocks depth child found with
          | error error =>
            rw [hfst] at hrun
            cases hrun
          | ok middle =>
            rw [hfst] at hrun
            rw [ihc middle hrun, ih hfst, exists_mem_cons_iff]
            tauto
      have hmem : key ∈ blocks := mem_of_lookup hblk
      rw [hloop _ _ hrun, mem_append, mem_singleton, ReflTransGen.cases_head_iff]
      simp only [edge_of_lookup hblk]
      constructor
      · rintro ((hold | rfl) | ⟨hoth, hbel⟩)
        · exact .inl hold
        · exact .inr ⟨hmem, .inl rfl⟩
        · exact .inr ⟨hoth, .inr hbel⟩
      · rintro (hold | ⟨hoth, rfl | hbel⟩)
        · exact .inl (.inl hold)
        · exact .inl (.inr rfl)
        · exact .inr ⟨hoth, hbel⟩

variable {struct : Structure}

theorem Templated.edge_iff {before : Blocks} {copies filled : BlockKey → Prop}
    (htmpl : Templated before copies filled struct) {parent child : BlockKey}
    (hpar : ¬ filled parent) (hmem : parent ∈ struct.blocks) :
    struct.blocks.Edge parent child ↔ before.Edge parent child := by
  obtain ⟨block, hblk⟩ := mem_iff_lookup.mp hmem
  rw [edge_of_lookup hblk, htmpl.kept parent block hblk hpar]

/-- Once the orphans are taken out, every child is there if and only if nothing that stays
as it was lists an orphan. -/
theorem Templated.closed_iff {before rest : Blocks} {copies filled orphan : BlockKey → Prop}
    (htmpl : Templated before copies filled struct) (hcl : before.Closed)
    (hmem : ∀ key, key ∈ rest ↔ key ∈ struct.blocks ∧ ¬ orphan key)
    (hedge : ∀ parent child, rest.Edge parent child ↔ ¬ orphan parent ∧ struct.blocks.Edge parent child)
    (hcop : ∀ key, copies key → ¬ orphan key) :
    rest.Closed ↔ ∀ parent child, before.Edge parent child → orphan child → orphan parent ∨ filled parent := by
  constructor
  · intro hrest parent child hbef hch
    by_contra hnot
    rw [not_or] at hnot
    have hpar : parent ∈ struct.blocks := (htmpl.mem_iff parent).mpr (.inl hbef.parent_mem)
    have haft := (hedge parent child).mpr ⟨hnot.1, (htmpl.edge_iff hnot.2 hpar).mpr hbef⟩
    exact ((hmem child).mp (hrest parent child haft)).2 hch
  · intro hlis parent child haft
    obtain ⟨hpar, hstr⟩ := (hedge parent child).mp haft
    rw [hmem, htmpl.mem_iff]
    by_cases hfil : filled parent
    · obtain ⟨block, hblk, hch⟩ := hstr
      have hcopy := htmpl.filled parent block hblk hfil child hch
      exact ⟨.inr hcopy, hcop child hcopy⟩
    · have hbef := (htmpl.edge_iff hfil hstr.parent_mem).mp hstr
      refine ⟨.inl (hcl parent child hbef), fun horph => ?_⟩
      exact (hlis parent child hbef horph).elim hpar hfil

/-- Replacing the descendants leaves every child there if and only if nothing that stays as
it was lists an orphan. -/
theorem replaceDescendants_closed_iff (platform : Platform) {sources : SourceStructures}
    {sourceBlock : TemplateKey → Option BlockData} {keys : List TemplateKey} (destination : BlockKey)
    (hreads : ReadsFrom sources sourceBlock keys)
    (hcl : struct.blocks.Closed) (oldVersion newId : ObjectId) :
    Triple (· = struct) (replaceDescendants platform sources keys destination oldVersion newId)
      (fun _ edited => edited.blocks.Closed ↔
        OrphansUnlisted platform sourceBlock keys destination struct.blocks) (fun _ => True) := by
  apply triple_read
  rintro struct rfl
  cases hdes : descendants struct.blocks platform.recursionLimit destination [] with
  | error error => exact triple_throw fun _ _ => trivial
  | ok original =>
    apply triple_checked _ fun _ _ => trivial
    intro hthere
    have hbel : ∀ key, key ∈ original ↔ ReflTransGen struct.blocks.Edge destination key := by
      have hdest : destination ∈ struct.blocks := by
        have hmem := not_not.mp (of_decide_eq_false hthere)
        exact ((descendants_eq hdes destination).mp hmem).elim (fun h => nomatch h) And.left
      intro key
      rw [descendants_eq hdes, or_iff_right not_mem_nil, and_iff_right_of_imp]
      intro hpath
      rcases ReflTransGen.cases_tail hpath with rfl | ⟨parent, -, hedge⟩
      · exact hdest
      · exact hcl parent key hedge
    have hst : Templated struct.blocks (fun _ => False) (fun _ => False) struct := by
      refine ⟨fun key => by simp, fun key block hblk _ child => ?_, fun _ _ _ h => h.elim⟩
      exact (edge_of_lookup hblk).symm
    have hcop : Triple (Templated struct.blocks (fun _ => False) fun _ => False)
        (copyTemplates platform sources newId platform.recursionLimit keys destination)
        (fun _ => Templated struct.blocks (IsCopy platform sourceBlock keys destination)
          (GetsChildren platform sourceBlock keys destination)) (fun _ => True) :=
      (copyTemplates_templated platform.recursionLimit hreads).post (fun _ _ h => h.congr (fun _ => iff_of_eq (false_or _)) fun _ => iff_of_eq (false_or _))
    apply triple_bind (((triple_and
      ((copyTemplates_returns platform.recursionLimit hreads).pre (fun _ _ => trivial)) hcop).pre (by rintro _ rfl; exact hst)).raise fun _ _ => trivial)
    intro new
    apply triple_read
    rintro copied ⟨hnew, hcopd⟩
    apply triple_found _ fun _ _ => trivial
    rintro block hblk copied rfl
    have horph : ∀ key, key ∈ original.filter (fun orphan => decide (orphan ≠ destination) && decide (orphan ∉ new)) ↔
        Orphaned platform sourceBlock keys destination struct.blocks key := by
      intro key
      rw [mem_filter, and_eq_true, decide_eq_true_eq, decide_eq_true_eq, hbel, hnew]
      unfold Orphaned
      tauto
    have hlook := fun key => lookup_eraseAll (original.filter
      (fun orphan => decide (orphan ≠ destination) && decide (orphan ∉ new)))
      (copied.blocks.insert destination { block with
        editInfo := { block.editInfo with
          previousVersion := block.editInfo.updateVersion
          updateVersion := some oldVersion } }) key
    simp only [lookup_insert] at hlook
    refine hcopd.closed_iff hcl (fun key => ?_) (fun parent child => ?_) fun key hcopy horp => horp.2.2 hcopy
    · rw [← horph, ← lookup_isSome, hlook, ← lookup_isSome]
      split
      · next horp => simp only [horp, not_true, and_false, isSome_none, false_eq_true]
      · next hkept =>
          rw [and_iff_left hkept]
          split
          · next heq => rw [heq, hblk, isSome_some, isSome_some]
          · rfl
    · unfold Blocks.Edge
      rw [← horph, hlook]
      split
      · next horp => simp only [horp, not_true, false_and, reduceCtorEq, exists_false]
      · next hkept =>
          rw [and_iff_right hkept]
          split
          · next heq =>
              rw [heq, hblk]
              simp [BlockData.childKeys]
          · rfl

/-! ## The operation -/

namespace Store

section

variable (store : Store) (headValidation : Bool)

/-- The id that a locator stands for; without validation its version need not be the head. -/
def versionFor (locator : CourseLocator) : Option ObjectId :=
  match headValidation, locator.versionGuid with
  | false, some versionGuid => some versionGuid
  | _, _ => store.headOf locator

def sourceEnvelope (locator : CourseLocator) : Option (ObjectId × Structure) :=
  (store.versionFor headValidation locator).bind fun id =>
    (if locator.course = store.record.courseKey then store.struct id
      else store.db.structures.lookup id).map fun struct => (id, struct)

def sourceBlock (key : TemplateKey) : Option BlockData :=
  (store.sourceEnvelope headValidation key.course).bind fun found => found.2.blocks.lookup key.block

end

/-- Both stores are read alike. -/
structure ReadsAlike (store next : Store) : Prop where
  courseKey : next.record.courseKey = store.record.courseKey
  head : next.record.head = store.record.head
  struct : next.struct = store.struct
  versionOf : next.versionOf = store.versionOf
  db : next.db = store.db

end Store

variable {store : Store}

theorem Loads.readsAlike {next : Store} (hlds : Loads store next) : store.ReadsAlike next where
  courseKey := hlds.courseKey
  head := hlds.head
  struct := hlds.struct
  versionOf := hlds.versionOf
  db := hlds.record_eq.1

namespace Store.ReadsAlike

variable {store middle next : Store}

theorem trans (hfst : store.ReadsAlike middle) (hsec : middle.ReadsAlike next) : store.ReadsAlike next where
  courseKey := hsec.courseKey.trans hfst.courseKey
  head := hsec.head.trans hfst.head
  struct := hsec.struct.trans hfst.struct
  versionOf := hsec.versionOf.trans hfst.versionOf
  db := hsec.db.trans hfst.db

theorem envelope (halike : store.ReadsAlike next) : next.envelope = store.envelope := by
  funext locator
  unfold Store.envelope
  rw [halike.courseKey, halike.head, halike.struct, halike.db]

theorem sourceEnvelope (halike : store.ReadsAlike next) : next.sourceEnvelope = store.sourceEnvelope := by
  funext headValidation locator
  unfold Store.sourceEnvelope Store.versionFor Store.headOf
  rw [halike.courseKey, halike.head, halike.struct, halike.db]

end Store.ReadsAlike

theorem lookupCourse_source (locator : CourseLocator) (headValidation : Bool) :
    Triple (· = store) (lookupCourse locator headValidation)
      (fun envelope next => store.sourceEnvelope headValidation locator = some envelope ∧
        Loads store next) (fun _ => True) := by
  have hver : Triple (· = store) (lookupVersion locator headValidation) (fun versionGuid next => next = store ∧
        store.versionFor headValidation locator = some versionGuid) (fun _ => True) := by
    have hhead : Triple (· = store) (lookupHead locator)
        (fun versionGuid next => next = store ∧ store.headOf locator = some versionGuid)
        (fun _ => True) :=
      (lookupHead_triple locator).raise fun _ _ => trivial
    unfold lookupVersion Store.versionFor
    cases headValidation with
    | true => exact hhead
    | false =>
      cases locator.versionGuid with
      | some versionGuid => exact triple_pure fun _ h => ⟨h, rfl⟩
      | none => exact hhead
  apply triple_bind hver
  intro versionGuid
  apply triple_of_state
  rintro current ⟨rfl, hfnd⟩
  apply triple_bind ((getStructure_triple locator.course versionGuid).raise fun _ _ => trivial)
  intro struct
  refine triple_pure ?_
  rintro next ⟨hlds, hstr⟩
  refine ⟨?_, hlds⟩
  rw [Store.sourceEnvelope, hfnd, bind_some]
  split
  · next hcrs =>
      rw [if_pos hcrs] at hstr
      rw [← hlds.struct, Store.struct_of_record hstr]
      rfl
  · next hcrs =>
      rw [if_neg hcrs] at hstr
      rw [hstr]
      rfl

theorem lookupSources_triple (keys : List TemplateKey) (headValidation : Bool) :
    Triple (· = store) (lookupSources keys headValidation)
      (fun sources next => List.Forall₂ (fun (key : TemplateKey) source => source.1 = key.course ∧
        store.sourceEnvelope headValidation key.course = some source.2) keys sources ∧
        store.ReadsAlike next) (fun _ => True) := by
  refine triple_weaken (triple_collect (I := store.ReadsAlike) fun key _ => ?_)
    (by rintro _ rfl; exact ⟨rfl, rfl, rfl, rfl, rfl⟩) (fun _ _ h => h) fun _ h => h
  apply triple_of_state
  intro current halike
  apply triple_bind (lookupCourse_source key.course headValidation)
  intro envelope
  refine triple_pure ?_
  rintro next ⟨hfnd, hlds⟩
  rw [halike.sourceEnvelope] at hfnd
  exact ⟨⟨rfl, hfnd⟩, halike.trans hlds.readsAlike⟩

theorem readsFrom_sources {keys : List TemplateKey} {headValidation : Bool}
    {sources : List (CourseLocator × ObjectId × Structure)}
    (hsour : List.Forall₂ (fun (key : TemplateKey) source => source.1 = key.course ∧
      store.sourceEnvelope headValidation key.course = some source.2) keys sources)
    (shares : CourseLocator × ObjectId × Structure → Bool)
    (hoths : ∀ key ∈ keys, ∀ source, store.sourceEnvelope headValidation key.course = some source →
      shares (key.course, source) = false) :
    ReadsFrom (sources.map fun source => (source.1, shares source, source.2.2))
      (store.sourceBlock headValidation) keys := by
  rintro key ⟨other, hoth, hcrs⟩ blocks
  unfold SourceStructures.blocks
  induction hsour with
  | nil => cases hoth
  | @cons first source keys sources hfst hrest ih =>
    rw [map_cons, lookup_cons]
    by_cases heq : key.course = source.1
    · have hshr := hoths first mem_cons_self source.2 hfst.2
      rw [← hfst.1] at hshr
      rw [hshr, Store.sourceBlock, heq, hfst.1, hfst.2]
      simp [sourceBlocks]
    · rw [beq_eq_false_iff_ne.mpr heq]
      refine ih (forall_mem_cons.mp hoths).2 ?_
      rcases mem_cons.mp hoth with rfl | hoth
      · exact absurd (hcrs.symm.trans hfst.1.symm) heq
      · exact hoth

/-- After a copy from other structures that returned, every child is there if and only if
whatever lists an orphan is an orphan too, or gets new children. -/
theorem copyFromTemplate_closed_iff {store next : Store} {platform : Platform}
    {locator : CourseLocator} (hcourse : locator.course = store.record.courseKey)
    {envelope : ObjectId × Structure} (henvelope : store.envelope locator = some envelope)
    (hclosed : envelope.2.blocks.Closed) {keys : List TemplateKey} {blockKey : BlockKey}
    {headValidation : Bool}
    (hothers : ∀ key ∈ keys, ∀ source, store.sourceEnvelope headValidation key.course = some source →
      key.course.course = locator.course → source.1 ≠ store.versionOf locator.branch envelope.1)
    (hrun : copyFromTemplate platform keys locator blockKey headValidation store = .ok () next) :
    ∃ id edited, next.envelope locator = some (id, edited) ∧ (edited.blocks.Closed ↔
      OrphansUnlisted platform (store.sourceBlock headValidation) keys blockKey envelope.2.blocks) := by
  have htriple : Triple (· = store) (copyFromTemplate platform keys locator blockKey headValidation)
      (fun _ next => ∃ id edited, next.envelope locator = some (id, edited) ∧ (edited.blocks.Closed ↔
        OrphansUnlisted platform (store.sourceBlock headValidation) keys blockKey envelope.2.blocks))
      (fun _ => True) := by
    apply triple_bind (lookupSources_triple keys headValidation)
    intro sources
    apply triple_of_state
    rintro current ⟨hsources, halike⟩
    apply triple_bind (M := fun _ next => next = current) (by rintro _ rfl; rfl)
    intro index
    apply triple_checked _ fun _ _ => trivial
    intro _
    apply triple_bind ((lookupCourse_envelope locator).raise fun _ _ => trivial)
    intro found
    apply triple_of_state
    rintro loaded ⟨hfound, hloads, hstruct⟩
    rw [halike.envelope, henvelope] at hfound
    obtain rfl := some.inj hfound
    have halike := halike.trans hloads.readsAlike
    have hloaded : locator.course = loaded.record.courseKey := by rw [halike.courseKey, hcourse]
    have hhead : loaded.record.head locator.branch = some envelope.1 := by
      rw [halike.head]
      exact (Store.head_of_envelope henvelope hcourse).1
    have hlookup := hstruct (by rw [← hloads.courseKey]; exact hloaded)
    refine triple_bind (M := fun _ next => ∃ id edited, next.envelope locator = some (id, edited) ∧
      (edited.blocks.Closed ↔ OrphansUnlisted platform (store.sourceBlock headValidation) keys blockKey
        envelope.2.blocks)) ?_ fun _ => triple_pure fun _ h => h
    refine ((editVersion_triple hhead hlookup _).post ?_).raise fun _ _ => trivial
    rintro result after ⟨-, edited, hedit, hedited⟩
    have hafter := hedited.envelope_eq locator.versionGuid
    rw [← hloaded] at hafter
    refine ⟨_, edited, hafter, ?_⟩
    have hreads := readsFrom_sources hsources (fun source =>
      source.1.course = locator.course && source.2.1 = loaded.versionOf locator.branch envelope.1) ?_
    · have hblocks := loaded.blocks_copyOf locator.branch envelope
      have hiff := replaceDescendants_closed_iff platform blockKey hreads (hblocks ▸ hclosed) envelope.1
        (loaded.versionOf locator.branch envelope.1) (loaded.copyOf locator.branch envelope) rfl
      rw [hedit] at hiff
      rwa [hblocks] at hiff
    · intro key hkey source hsource
      rw [Bool.and_eq_false_iff, decide_eq_false_iff_not, decide_eq_false_iff_not, halike.versionOf]
      exact or_iff_not_imp_left.mpr fun hsame => hothers key hkey source hsource (not_not.mp hsame)
  have hresult := htriple store rfl
  rwa [hrun] at hresult

/-! ## A unit that lost its problem -/

def libraryUnit : TemplateKey := ⟨{ course := "library", branch := "library" }, ⟨"vertical", "unit"⟩⟩

def libraryQuiz : TemplateKey := { libraryUnit with block := ⟨"problem", "sum"⟩ }

def contentKey : BlockKey := ⟨"library_content", "quiz"⟩

def unitCopy : BlockKey := derivedKey plainPlatform libraryUnit contentKey

def quizCopy : BlockKey := derivedKey plainPlatform libraryQuiz unitCopy

def copiedUnitBlocks : Blocks := ofList
  [(rootKey, newBlock ∅ (some [contentKey]) 0 0), (contentKey, newBlock ∅ (some [unitCopy]) 0 0),
    (unitCopy, newBlock ∅ (some [quizCopy]) 0 0), (quizCopy, newBlock ∅ none 0 0)]

/-- A bulk operation on the course, and a library whose unit has no problem any more. -/
def courseAndLibrary : Store := started
  { activeVersions := ofList
      [("course", { id := 2, versions := (∅ : Dict Branch ObjectId).insert "draft-branch" 0 }),
        ("library", { id := 3, versions := (∅ : Dict Branch ObjectId).insert "library" 1 })]
    structures := ofList [(0, { root := rootKey, blocks := copiedUnitBlocks }),
        (1, { root := ⟨"library", "library"⟩
              blocks := ofList [(⟨"library", "library"⟩, newBlock ∅ (some [libraryUnit.block]) 0 1),
                  (libraryUnit.block, newBlock ∅ (some []) 0 1)] })]
    nextObjectId := 4 } "course"

def copyUnit : StoreM Unit := copyFromTemplate plainPlatform [libraryUnit] draftLocator contentKey true

theorem courseAndLibrary_envelope : courseAndLibrary.envelope draftLocator =
    some (0, { root := rootKey, blocks := copiedUnitBlocks }) :=
  rfl

theorem copiedUnit_closed : copiedUnitBlocks.Closed :=
  have hlink : copiedUnitBlocks.Linked := by decide +kernel
  hlink.child_mem

theorem copyUnit_closed_iff : ∃ next id edited, copyUnit courseAndLibrary = .ok () next ∧
      next.envelope draftLocator = some (id, edited) ∧ (edited.blocks.Closed ↔
        OrphansUnlisted plainPlatform (courseAndLibrary.sourceBlock true) [libraryUnit] contentKey
          copiedUnitBlocks) := by
  obtain ⟨_, next, hrun, -⟩ := exists_run copyUnit courseAndLibrary (fun _ _ => true) (by decide +kernel)
  have hothers : ∀ key ∈ [libraryUnit], ∀ source, courseAndLibrary.sourceEnvelope true key.course = some source →
      key.course.course = draftLocator.course →
      source.1 ≠ courseAndLibrary.versionOf draftLocator.branch 0 := by
    intro key hkey source _ hsame
    rw [mem_singleton.mp hkey] at hsame
    exact absurd hsame (by decide)
  obtain ⟨id, edited, hnext, hiff⟩ := copyFromTemplate_closed_iff rfl courseAndLibrary_envelope
    copiedUnit_closed hothers hrun
  exact ⟨next, id, edited, hrun, hnext, hiff⟩

/-- The copy of the unit keeps the copy of the problem as its child, which is deleted. -/
theorem copyUnit_not_closed : copiedUnitBlocks.Closed ∧ ∃ next id edited, copyUnit courseAndLibrary = .ok () next ∧
      next.envelope draftLocator = some (id, edited) ∧ ¬ edited.blocks.Closed := by
  refine ⟨copiedUnit_closed, ?_⟩
  obtain ⟨_, next, hrun, hnext⟩ := exists_run copyUnit courseAndLibrary
    (fun _ next => (next.envelope draftLocator).any fun (envelope : ObjectId × Structure) =>
      decide (quizCopy ∉ envelope.2.blocks) && (envelope.2.blocks.lookup unitCopy).any fun (block : BlockData) =>
          decide (quizCopy ∈ block.childKeys))
    (by decide +kernel)
  obtain ⟨⟨id, edited⟩, henvelope, hlost⟩ := (Option.any_eq_true _ _).mp hnext
  rw [and_eq_true, decide_eq_true_eq] at hlost
  obtain ⟨block, hblock, hchild⟩ := (Option.any_eq_true _ _).mp hlost.2
  exact ⟨next, id, edited, hrun, henvelope, fun hclosed =>
    hlost.1 (hclosed unitCopy quizCopy ⟨block, hblock, of_decide_eq_true hchild⟩)⟩

end EdxPlatform.Split
