import EdxPlatform.Lib.Dict
import EdxPlatform.Lib.Python

/-!
# Block structures

A block structure maps the usage key of each of its blocks to the lists of its
parents and children.  A link between two blocks is recorded twice, once on
either side; the two records agree, and removing a block keeps them in step.
-/

namespace EdxPlatform

/-- The parents and children of one block. -/
structure BlockRelations (κ : Type) where
  parents : List κ := []
  children : List κ := []
  deriving DecidableEq, Repr

/-- `BlockStructureBlockData`: the relations of the blocks and their collected data. -/
structure BlockStructure (κ δ : Type) where
  rootBlockUsageKey : κ
  blockRelations : Dict κ (BlockRelations κ)
  blockDataMap : Dict κ δ := ∅

/-- The xBlock fields that are collected for the blocks API. -/
structure XBlockFields where
  category : Option String := none
  hideFromToc : Option Bool := none
  deriving DecidableEq, Repr

/-- The two lists of links that a block carries. -/
inductive Side where
  | parents
  | children
  deriving DecidableEq, Repr

namespace BlockRelations

variable {κ : Type}

def links (relations : BlockRelations κ) : Side → List κ
  | .parents => relations.parents
  | .children => relations.children

def setLinks (relations : BlockRelations κ) (side : Side) (links : List κ) : BlockRelations κ :=
  match side with
  | .parents => { relations with parents := links }
  | .children => { relations with children := links }

@[simp]
theorem links_setLinks (relations : BlockRelations κ) (side other : Side) (links : List κ) :
    (relations.setLinks side links).links other = if other = side then links else relations.links other := by
  cases side <;> cases other <;> rfl

end BlockRelations

open BlockRelations

namespace BlockStructure

variable {κ δ : Type} [DecidableEq κ]

instance : Membership κ (BlockStructure κ δ) := ⟨fun blocks key => key ∈ blocks.blockRelations⟩

instance (key : κ) (blocks : BlockStructure κ δ) : Decidable (key ∈ blocks) :=
  inferInstanceAs (Decidable (key ∈ blocks.blockRelations))

section

variable (blocks : BlockStructure κ δ)

def linksOf (side : Side) (key : κ) : List κ :=
  match blocks.blockRelations.lookup key with
  | some relations => relations.links side
  | none => []

def getParents (key : κ) : List κ := blocks.linksOf .parents key

def getChildren (key : κ) : List κ := blocks.linksOf .children key

def setRootBlock (key : κ) : BlockStructure κ δ :=
  { blocks with
    rootBlockUsageKey := key
    blockRelations := Dict.modify key (fun relations => { relations with parents := [] }) blocks.blockRelations }

def addBlock (relations : Dict κ (BlockRelations κ)) (key : κ) : Dict κ (BlockRelations κ) :=
  if key ∈ relations then relations else relations.insert key {}

def addToRelations (relations : Dict κ (BlockRelations κ)) (parent child : κ) : Dict κ (BlockRelations κ) :=
  let relations := addBlock (addBlock relations parent) child
  let relations := Dict.modify child (fun block => { block with parents := block.parents ++ [parent] }) relations
  Dict.modify parent (fun block => { block with children := block.children ++ [child] }) relations

def init (root : κ) : BlockStructure κ δ := { rootBlockUsageKey := root, blockRelations := addBlock ∅ root }

def addRelation (parent child : κ) : BlockStructure κ δ :=
  { blocks with
    blockRelations := addToRelations blocks.blockRelations parent child }

/-- One round of the two loops of `remove_block` that unlink a block: remove it
from the links that `other` has on one side. -/
def unlink (side : Side) (key : κ) (relations : Dict κ (BlockRelations κ)) (other : κ) :
    Except PyError (Dict κ (BlockRelations κ)) :=
  match relations.lookup other with
  | none => .error .keyError
  | some block => do
    let links ← listRemove (block.links side) key
    .ok (relations.insert other (block.setLinks side links))

/-- Removes a block and its data; with `keepDescendants` its children become
children of its parents. -/
def removeBlock (key : κ) (keepDescendants : Bool) : Except PyError (BlockStructure κ δ) :=
  match blocks.blockRelations.lookup key with
  | none => .error .keyError
  | some block => do
    let relations ← block.children.foldlM (unlink .parents key) blocks.blockRelations
    let relations ← block.parents.foldlM (unlink .children key) relations
    let removed := { blocks with
      blockRelations := relations.erase key
      blockDataMap := blocks.blockDataMap.erase key }
    if keepDescendants then
      .ok (block.children.foldl (fun result child =>
        block.parents.foldl (fun result parent => result.addRelation parent child) result) removed)
    else
      .ok removed

/-- `get_xblock_field`, without its default. -/
def getXBlockField {ν : Type} (blocks : BlockStructure κ XBlockFields) (key : κ)
    (field : XBlockFields → Option ν) : Option ν :=
  (blocks.blockDataMap.lookup key).bind field

/-! ## Links -/

/-- `parent` lists `child` among its children. -/
def Edge (parent child : κ) : Prop := child ∈ blocks.getChildren parent

end

instance (blocks : BlockStructure κ δ) (parent child : κ) : Decidable (blocks.Edge parent child) :=
  inferInstanceAs (Decidable (child ∈ blocks.getChildren parent))

variable {blocks : BlockStructure κ δ} {key : κ}

theorem mem_iff_lookup : key ∈ blocks ↔ ∃ block, blocks.blockRelations.lookup key = some block := Dict.mem_iff_lookup

theorem linksOf_of_lookup {block : BlockRelations κ}
    (hblk : blocks.blockRelations.lookup key = some block) (side : Side) :
    blocks.linksOf side key = block.links side := by
  unfold linksOf
  rw [hblk]

theorem linksOf_of_notMem (hmem : key ∉ blocks) (side : Side) : blocks.linksOf side key = [] := by
  unfold linksOf
  rw [lookup_eq_none.mpr hmem]

variable {other : κ}

theorem mem_of_linksOf {side : Side} (hlink : other ∈ blocks.linksOf side key) : key ∈ blocks := by
  by_contra hmem
  rw [linksOf_of_notMem hmem] at hlink
  cases hlink

section

variable (relations : Dict κ (BlockRelations κ))

theorem mem_addBlock (key other : κ) : other ∈ addBlock relations key ↔ other = key ∨ other ∈ relations := by
  unfold addBlock
  split
  · next hmem => exact ⟨.inr, fun hoth => hoth.elim (fun heq => heq ▸ hmem) id⟩
  · exact mem_insert _

theorem mem_addToRelations (parent child other : κ) :
    other ∈ addToRelations relations parent child ↔ other = parent ∨ other = child ∨ other ∈ relations := by
  unfold addToRelations
  rw [Dict.mem_modify, Dict.mem_modify, mem_addBlock, mem_addBlock]
  tauto

end

theorem linksOf_eq_elim (blocks : BlockStructure κ δ) (side : Side) (key : κ) :
    blocks.linksOf side key = (blocks.blockRelations.lookup key).elim [] (·.links side) := by
  unfold linksOf
  cases blocks.blockRelations.lookup key <;> rfl

theorem linksOf_addBlock (blocks : BlockStructure κ δ) (added : κ) (side : Side) (key : κ) :
    { blocks with blockRelations := addBlock blocks.blockRelations added }.linksOf side key =
      blocks.linksOf side key := by
  rw [linksOf_eq_elim, linksOf_eq_elim]
  unfold addBlock
  split
  · rfl
  · next hout =>
      rw [lookup_insert]
      split
      · next heq =>
          rw [heq, lookup_eq_none.mpr hout]
          cases side <;> rfl
      · rfl

theorem linksOf_init (root : κ) (side : Side) (key : κ) : (init root : BlockStructure κ δ).linksOf side key = [] :=
  (linksOf_addBlock ⟨root, ∅, ∅⟩ root side key).trans (linksOf_of_notMem (notMem_empty key) side)

theorem linksOf_addRelation (blocks : BlockStructure κ δ) (parent child : κ) (side : Side)
    (key : κ) : (blocks.addRelation parent child).linksOf side key = blocks.linksOf side key ++ match side with
        | .parents => if key = child then [parent] else []
        | .children => if key = parent then [child] else [] := by
  rw [linksOf_eq_elim, ← linksOf_addBlock, ← linksOf_addBlock _ child, linksOf_eq_elim]
  have hmem : ∀ other, other = parent ∨ other = child →
      ∃ block, (addBlock (addBlock blocks.blockRelations parent) child).lookup other = some block := by
    intro other hoth
    rw [← Dict.mem_iff_lookup, mem_addBlock, mem_addBlock]
    tauto
  change ((addToRelations blocks.blockRelations parent child).lookup key).elim [] _ = _
  unfold addToRelations
  dsimp only
  rw [lookup_modify, lookup_modify, lookup_modify]
  generalize addBlock (addBlock blocks.blockRelations parent) child = relations at hmem ⊢
  cases hkey : relations.lookup key with
  | none =>
    have hpar : key ≠ parent := by
      rintro rfl
      obtain ⟨block, hblk⟩ := hmem key (.inl rfl)
      cases hkey.symm.trans hblk
    have hch : key ≠ child := by
      rintro rfl
      obtain ⟨block, hblk⟩ := hmem key (.inr rfl)
      cases hkey.symm.trans hblk
    rw [if_neg hpar, if_neg hch]
    cases side <;> simp [hpar, hch]
  | some block =>
    by_cases hpar : key = parent
    · subst hpar
      by_cases hch : key = child
      · subst hch
        cases side <;> simp [links, hkey]
      · cases side <;> simp [links, hkey, hch]
    · by_cases hch : key = child
      · subst hch
        cases side <;> simp [links, hkey, hpar]
      · cases side <;> simp [hpar, hch]

theorem edge_addRelation {parent child above below : κ} : (blocks.addRelation parent child).Edge above below ↔
    blocks.Edge above below ∨ (above = parent ∧ below = child) := by
  unfold Edge getChildren
  rw [linksOf_addRelation]
  by_cases habove : above = parent <;> simp [habove]

/-- Every link is recorded on both of its ends equally often. -/
def Mirrored (blocks : BlockStructure κ δ) : Prop :=
  ∀ parent child, (blocks.getChildren parent).count child = (blocks.getParents child).count parent

theorem Mirrored.addRelation (hmir : blocks.Mirrored) (parent child : κ) :
    (blocks.addRelation parent child).Mirrored := by
  intro above below
  have hcnt := hmir above below
  unfold getChildren getParents at hcnt ⊢
  rw [linksOf_addRelation, linksOf_addRelation, count_append, count_append, hcnt]
  by_cases habove : above = parent
  · by_cases hbel : below = child
    · simp [habove, hbel]
    · simp [habove, hbel, Ne.symm hbel]
  · by_cases hbel : below = child
    · simp [habove, hbel, Ne.symm habove]
    · simp [habove, hbel]

/-- Every link is recorded on both of its ends equally often, except that the
links into `root` are not recorded on `root`; all other linked blocks exist. -/
structure Linked (blocks : BlockStructure κ δ) (root : κ) : Prop where
  count_eq : ∀ parent child, child ≠ root →
    (blocks.getChildren parent).count child = (blocks.getParents child).count parent
  child_mem : ∀ parent child, child ≠ root → blocks.Edge parent child → child ∈ blocks
  root_parents : blocks.getParents root = []

namespace Linked

variable {root : κ}

section

variable (hlkd : blocks.Linked root) {parent child : κ}
include hlkd

theorem edge_iff (hne : child ≠ root) : blocks.Edge parent child ↔ parent ∈ blocks.getParents child := by
  unfold Edge
  rw [← count_pos_iff, hlkd.count_eq parent child hne, count_pos_iff]

theorem parent_mem (hpar : parent ∈ blocks.getParents child) : parent ∈ blocks := by
  by_cases hroot : child = root
  · rw [hroot, hlkd.root_parents] at hpar
    cases hpar
  · exact mem_of_linksOf ((hlkd.edge_iff hroot).mpr hpar)

end

end Linked

/-! ## Removing a block -/

/-- Unlinking `key` from each of `others` succeeds when the links are there, and
takes one occurrence of `key` away for each time a block is named. -/
theorem foldlM_unlink (side : Side) (key : κ) : ∀ (others : List κ) (relations : Dict κ (BlockRelations κ)),
      (∀ other ∈ others, ∃ block, relations.lookup other = some block ∧
        others.count other ≤ (block.links side).count key) →
      ∃ result, others.foldlM (unlink side key) relations = .ok result ∧
        ∀ other, result.lookup other = (relations.lookup other).map (fun block =>
          block.setLinks side ((fun links => links.erase key)^[others.count other] (block.links side))) := by
  intro others
  induction others with
  | nil =>
    intro relations _
    refine ⟨relations, rfl, fun other => ?_⟩
    cases relations.lookup other with
    | none => rfl
    | some block => cases side <;> rfl
  | cons first rest ih =>
    intro relations hlinks
    obtain ⟨block, hblk, hcnt⟩ := hlinks first mem_cons_self
    rw [count_cons_self] at hcnt
    have hmem : key ∈ block.links side := count_pos_iff.mp (by omega)
    have hfst : unlink side key relations first =
        .ok (relations.insert first (block.setLinks side ((block.links side).erase key))) := by
      unfold unlink
      rw [hblk]
      simp only [listRemove_of_mem hmem]
      rfl
    obtain ⟨result, hres, hlook⟩ := ih
      (relations.insert first (block.setLinks side ((block.links side).erase key))) (by
        intro other hoth
        obtain ⟨found, hfnd, hfoun⟩ := hlinks other (mem_cons_of_mem _ hoth)
        by_cases heq : other = first
        · subst heq
          refine ⟨_, lookup_insert_self _ _ _, ?_⟩
          rw [links_setLinks, if_pos rfl, List.count_erase_self]
          omega
        · refine ⟨found, by rw [lookup_insert_of_ne heq, hfnd], ?_⟩
          rwa [List.count_cons_of_ne (Ne.symm heq)] at hfoun)
    refine ⟨result, ?_, fun other => ?_⟩
    · rw [foldlM_cons, hfst]
      exact hres
    · rw [hlook]
      by_cases heq : other = first
      · subst heq
        rw [lookup_insert_self, hblk, count_cons_self]
        simp only [map_some, links_setLinks, Function.iterate_succ_apply]
        cases side <;> rfl
      · rw [lookup_insert_of_ne heq, List.count_cons_of_ne (Ne.symm heq)]

/-- Whether a link to `other` stays on one side of a block when the blocks of
`removed` are taken out.  A root has no parents, so nothing unlinks a removed
root from the blocks that had it as a child. -/
def stays (root : κ) (removed : κ → Bool) (side : Side) (other : κ) : Bool :=
  !removed other || (decide (side = .children) && decide (other = root))

theorem stays_parents (root : κ) (removed : κ → Bool) : stays root removed .parents = fun other => !removed other := by
  funext other
  simp [stays]

variable {root : κ}

theorem stays_children_of_ne (hoth : other ≠ root) (removed : κ → Bool) :
    stays root removed .children other = !removed other := by
  simp [stays, hoth]

/-- What is left of `blocks` when the blocks of `removed` are taken out: the
other blocks stay, with the links to removed blocks dropped. -/
structure Without (blocks : BlockStructure κ δ) (root : κ) (removed : κ → Bool)
    (rest : BlockStructure κ δ) : Prop where
  root_eq : rest.rootBlockUsageKey = blocks.rootBlockUsageKey
  mem_iff : ∀ key, key ∈ rest ↔ key ∈ blocks ∧ removed key = false
  links : ∀ side key, removed key = false →
    rest.linksOf side key = (blocks.linksOf side key).filter (stays root removed side)

namespace Without

variable {blocks middle rest : BlockStructure κ δ} {root : κ} {removed first second : κ → Bool}

theorem refl (blocks : BlockStructure κ δ) (root : κ) : Without blocks root (fun _ => false) blocks :=
  ⟨rfl, fun _ => ⟨fun hmem => ⟨hmem, rfl⟩, And.left⟩, fun _ _ _ => (filter_eq_self.mpr fun _ _ => rfl).symm⟩

theorem trans (hfst : Without blocks root first middle) (hsec : Without middle root second rest) :
    Without blocks root (fun key => first key || second key) rest := by
  refine ⟨hsec.root_eq.trans hfst.root_eq, fun key => ?_, fun side key hkey => ?_⟩
  · rw [hsec.mem_iff, hfst.mem_iff, and_assoc, or_eq_false_iff]
  · rw [or_eq_false_iff] at hkey
    rw [hsec.links side key hkey.2, hfst.links side key hkey.1, filter_filter]
    congr 1
    funext other
    simp only [stays]
    cases first other <;> cases second other <;>
      cases decide (side = .children) <;> cases decide (other = root) <;> rfl

section

variable (hwit : Without blocks root removed rest)
include hwit

theorem getParents_eq {key : κ} (hkey : removed key = false) :
    rest.getParents key = (blocks.getParents key).filter (fun parent => !removed parent) := by
  unfold getParents
  rw [hwit.links .parents key hkey, stays_parents]

theorem edge_of {parent child : κ} (hedge : rest.Edge parent child) : blocks.Edge parent child := by
  have hmem : parent ∈ rest := mem_of_linksOf hedge
  unfold Edge getChildren at hedge
  rw [hwit.links .children parent ((hwit.mem_iff parent).mp hmem).2] at hedge
  exact mem_of_mem_filter hedge

theorem edge_iff {parent child : κ} (hch : child ≠ root) :
    rest.Edge parent child ↔ blocks.Edge parent child ∧ removed parent = false ∧ removed child = false := by
  unfold Edge getChildren
  cases hpar : removed parent with
  | true =>
    have hout : parent ∉ rest := fun hmem => by
      rw [hwit.mem_iff, hpar] at hmem
      exact Bool.noConfusion hmem.2
    rw [linksOf_of_notMem hout]
    simp
  | false =>
    rw [hwit.links .children parent hpar, mem_filter]
    simp [stays, hch]

theorem linked (hlkd : blocks.Linked root) : rest.Linked root := by
  have hgone : ∀ side key, removed key = true → rest.linksOf side key = [] := by
    intro side key hkey
    refine linksOf_of_notMem (fun hmem => ?_) side
    rw [hwit.mem_iff, hkey] at hmem
    exact Bool.noConfusion hmem.2
  have hkept : ∀ side key other, removed key = false → (rest.linksOf side key).count other =
        if stays root removed side other then (blocks.linksOf side key).count other else 0 := by
    intro side key other hkey
    rw [hwit.links side key hkey]
    cases hstays : stays root removed side other with
    | true => rw [List.count_filter hstays]; rfl
    | false =>
      refine List.count_eq_zero_of_not_mem (fun hmem => ?_)
      rw [mem_filter, hstays] at hmem
      exact Bool.noConfusion hmem.2
  constructor
  · intro parent child hch
    have hcnt := hlkd.count_eq parent child hch
    unfold getChildren getParents at hcnt ⊢
    cases hpar : removed parent <;> cases hrem : removed child
    · rw [hkept _ _ _ hpar, hkept _ _ _ hrem]
      simpa [stays, hpar, hrem] using hcnt
    · rw [hkept _ _ _ hpar, hgone _ _ hrem]
      simp [stays, hrem, hch]
    · rw [hgone _ _ hpar, hkept _ _ _ hrem]
      simp [stays, hpar]
    · rw [hgone _ _ hpar, hgone _ _ hrem]
      simp
  · intro parent child hch hedge
    obtain ⟨hedge, -, hrem⟩ := (hwit.edge_iff hch).mp hedge
    exact (hwit.mem_iff child).mpr ⟨hlkd.child_mem parent child hch hedge, hrem⟩
  · cases hroot : removed root with
    | true => exact hgone .parents root hroot
    | false => rw [hwit.getParents_eq hroot, hlkd.root_parents]; rfl

end

end Without

namespace Linked

variable {root key other : κ} {block found : BlockRelations κ}

theorem count_lookup (hlkd : blocks.Linked root) (hblk : blocks.blockRelations.lookup key = some block)
    (hfnd : blocks.blockRelations.lookup other = some found) (hoth : other ≠ root) :
    block.children.count other = found.parents.count key := by
  have hcnt := hlkd.count_eq key other hoth
  rw [getChildren, getParents, linksOf_of_lookup hblk, linksOf_of_lookup hfnd] at hcnt
  exact hcnt

theorem parents_lookup_root (hlkd : blocks.Linked root)
    (hblk : blocks.blockRelations.lookup root = some block) : block.parents = [] := by
  have hpars := hlkd.root_parents
  rw [getParents, linksOf_of_lookup hblk] at hpars
  exact hpars

section

variable (hlkd : blocks.Linked root) (hblk : blocks.blockRelations.lookup key = some block)
  (hfnd : blocks.blockRelations.lookup other = some found)
include hlkd hblk hfnd

theorem erase_parents (hroot : ¬ blocks.Edge key root) :
    (fun links => links.erase key)^[block.children.count other] found.parents =
      found.parents.filter (stays root (fun next => decide (next = key)) .parents) := by
  have hcnt : block.children.count other = found.parents.count key := by
    by_cases hoth : other = root
    · subst hoth
      have hkids : blocks.getChildren key = block.children := linksOf_of_lookup hblk .children
      rw [hlkd.parents_lookup_root hfnd, count_nil, List.count_eq_zero, ← hkids]
      exact hroot
    · exact hlkd.count_lookup hblk hfnd hoth
  rw [hcnt, iterate_erase_count, stays_parents]
  simp

/-- A parent forgets `key` once for each time that it lists `key`; the root has no
parents, and its links stay. -/
theorem erase_children : (fun links => links.erase key)^[block.parents.count other] found.children =
      found.children.filter (stays root (fun next => decide (next = key)) .children) := by
  by_cases hkey : key = root
  · subst hkey
    rw [hlkd.parents_lookup_root hblk, count_nil, Function.iterate_zero, id, filter_eq_self.mpr]
    intro next _
    by_cases hnxt : next = key <;> simp [stays, hnxt]
  · have hstays : stays root (fun next => decide (next = key)) .children = fun next => decide (next ≠ key) := by
      funext next
      by_cases hnxt : next = key
      · rw [stays_children_of_ne (by rwa [hnxt])]
        simp
      · simp [stays, hnxt]
    rw [hstays, ← hlkd.count_lookup hfnd hblk hkey, iterate_erase_count]

end

end Linked

theorem removeBlock_without (hlkd : blocks.Linked root) (hmem : key ∈ blocks) (hroot : ¬ blocks.Edge key root) :
    ∃ rest, blocks.removeBlock key false = .ok rest ∧
      Without blocks root (fun other => decide (other = key)) rest := by
  obtain ⟨block, hblk⟩ := mem_iff_lookup.mp hmem
  have hkids : blocks.getChildren key = block.children := linksOf_of_lookup hblk .children
  have hpars : blocks.getParents key = block.parents := linksOf_of_lookup hblk .parents
  -- first the children forget `key` as a parent
  obtain ⟨upper, hupper, hupp⟩ := foldlM_unlink .parents key block.children
    blocks.blockRelations (by
      intro child hch
      have hedge : blocks.Edge key child := by unfold Edge; rwa [hkids]
      have hne : child ≠ root := fun heq => hroot (heq ▸ hedge)
      obtain ⟨found, hfnd⟩ := mem_iff_lookup.mp (hlkd.child_mem key child hne hedge)
      exact ⟨found, hfnd, (hlkd.count_lookup hblk hfnd hne).le⟩)
  -- then the parents forget `key` as a child
  obtain ⟨lower, hlower, hlow⟩ := foldlM_unlink .children key block.parents upper (by
    intro parent hpar
    have hmemP : parent ∈ blocks.getParents key := by rwa [hpars]
    obtain ⟨found, hfnd⟩ := mem_iff_lookup.mp (hlkd.parent_mem hmemP)
    refine ⟨_, by rw [hupp, hfnd]; rfl, ?_⟩
    rw [links_setLinks, if_neg (by decide)]
    have hne : key ≠ root := by
      rintro rfl
      rw [hlkd.parents_lookup_root hblk] at hpar
      cases hpar
    exact (hlkd.count_lookup hfnd hblk hne).ge)
  refine ⟨{ blocks with blockRelations := lower.erase key,
                        blockDataMap := blocks.blockDataMap.erase key }, ?_, rfl, ?_, ?_⟩
  · unfold removeBlock
    rw [hblk]
    simp only [hupper, hlower, bind, Except.bind]
    rfl
  · intro other
    change other ∈ lower.erase key ↔ other ∈ blocks.blockRelations ∧ _
    rw [Dict.mem_iff_lookup, lookup_erase, Dict.mem_iff_lookup]
    by_cases heq : other = key
    · simp [heq]
    · simp [heq, hlow, hupp]
  · intro side other hoth
    have hne : other ≠ key := by simpa using hoth
    have hlook : (lower.erase key).lookup other = _ := lookup_erase key other lower
    rw [if_neg hne, hlow, hupp, Option.map_map] at hlook
    cases hfnd : blocks.blockRelations.lookup other with
    | none =>
      rw [hfnd] at hlook
      have hout : other ∉ blocks := lookup_eq_none.mp hfnd
      rw [linksOf_of_notMem hout]
      unfold linksOf
      rw [hlook]
      rfl
    | some found =>
      rw [hfnd] at hlook
      rw [linksOf_of_lookup hlook, linksOf_of_lookup hfnd]
      simp only [comp_apply, links_setLinks]
      cases side with
      | parents => exact hlkd.erase_parents hblk hfnd hroot
      | children => exact hlkd.erase_children hblk hfnd

end BlockStructure

end EdxPlatform
