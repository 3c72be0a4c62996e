import EdxPlatform.Split.CopiedFields
import EdxPlatform.Split.Subtrees

/-!
# The blocks that a copy merges

Before it deletes the orphans, a copy has given each block that it came by the children of its
source, less those that are neither copied nor there already.  The orphans are the children
that a block lost so.
-/

namespace EdxPlatform.Split

open Relation Blocks BlockData

def Blocks.childrenOf (blocks : Blocks) (key : BlockKey) : List BlockKey :=
  match blocks.lookup key with
  | none => []
  | some block => block.childKeys

/-- What the copy has done to a block: copied it, or put a child in place below it. -/
inductive Touch where
  | copied (key : BlockKey)
  | synced (parent child : BlockKey)
  deriving DecidableEq

def Touched (trace : List Touch) (key : BlockKey) : Prop := .copied key ∈ trace ∨ ∃ child, .synced key child ∈ trace

def keepsChild (destination : Blocks) (blacklist : Blacklist) (trace : List Touch) (parent child : BlockKey) : Bool :=
  decide (child ∈ destination.childrenOf parent) || (decide (.copied parent ∈ trace) && !blacklist.excludes child) ||
    decide (.synced parent child ∈ trace)

/-- The blocks of the destination, with what was done to them. -/
structure Merging (source destination : Blocks) (blacklist : Blacklist) (trace : List Touch)
    (struct : Structure) : Prop where
  mem_iff : ∀ key, key ∈ struct.blocks ↔ key ∈ destination ∨ .copied key ∈ trace
  synced_mem : ∀ parent child, .synced parent child ∈ trace → parent ∈ destination
  touched : ∀ key, Touched trace key → ∃ block, struct.blocks.lookup key = some block ∧ block.children =
      some ((source.childrenOf key).filter (keepsChild destination blacklist trace key))
  untouched : ∀ key, ¬ Touched trace key → struct.blocks.lookup key = destination.lookup key

def Touch.block : Touch → BlockKey
  | .copied key => key
  | .synced parent _ => parent

/-- The children that a block of the destination does not have in the source. -/
def lostChildren (source destination : Blocks) (key : BlockKey) : List BlockKey :=
  (destination.childrenOf key).filter (· ∉ source.childrenOf key)

/-- The children that blocks lose one after the other, those that were touched earlier none. -/
def lostAfter (source destination : Blocks) : List BlockKey → List BlockKey → List BlockKey
  | _, [] => []
  | earlier, key :: keys =>
    (if key ∈ earlier then [] else lostChildren source destination key) ++
      lostAfter source destination (key :: earlier) keys

def orphansOf (source destination : Blocks) (trace : List Touch) : List BlockKey :=
  lostAfter source destination [] (trace.map Touch.block)

section Steps

variable {source destination : Blocks} {blacklist : Blacklist} {trace : List Touch} {struct : Structure}

variable {block : BlockData} {blocks : Blocks} {key : BlockKey}

theorem childrenOf_of_lookup (hblk : blocks.lookup key = some block) : blocks.childrenOf key = block.childKeys := by
  unfold childrenOf
  rw [hblk]

variable {child parent : BlockKey}

theorem mem_childrenOf : child ∈ blocks.childrenOf parent ↔ blocks.Edge parent child := by
  unfold childrenOf Blocks.Edge
  cases blocks.lookup parent with
  | none => simp
  | some block => simp

theorem nodup_childrenOf (hlink : blocks.Linked) (key : BlockKey) : (blocks.childrenOf key).Nodup := by
  unfold childrenOf
  cases hblk : blocks.lookup key with
  | none => exact nodup_nil
  | some block => exact hlink.distinct key block hblk

theorem touched_append {first second : List Touch} :
    Touched (first ++ second) key ↔ Touched first key ∨ Touched second key := by
  unfold Touched
  simp only [mem_append, exists_or]
  tauto

section

variable (hmerg : Merging source destination blacklist trace struct)
include hmerg

theorem Merging.childrenOf_eq (key : BlockKey) (htch : Touched trace key) : struct.blocks.childrenOf key =
      (source.childrenOf key).filter (keepsChild destination blacklist trace key) := by
  obtain ⟨block, hblk, hkids⟩ := hmerg.touched key htch
  rw [childrenOf_of_lookup hblk, childKeys, hkids]
  rfl

theorem Merging.childrenOf_untouched (hunt : ¬ Touched trace key) :
    struct.blocks.childrenOf key = destination.childrenOf key := by
  unfold childrenOf
  rw [hmerg.untouched key hunt]

end

variable {sourceChildren : List BlockKey}

theorem reorderedChildren_eq (hnod : sourceChildren.Nodup) (existingChildren : List BlockKey) (blacklist : Blacklist) :
    reorderedChildren sourceChildren existingChildren blacklist =
      sourceChildren.filter fun child => !blacklist.excludes child || decide (child ∈ existingChildren) := by
  have hfst : ∀ entry ∈ sourceChildren.zipIdx, sourceChildren.idxOf entry.1 = entry.2 := by
    rintro ⟨child, index⟩ hent
    obtain ⟨hless, heq⟩ := List.mem_zipIdx' hent
    change sourceChildren.idxOf child = index
    rw [heq]
    exact hnod.idxOf_getElem index hless
  have hkept : ∀ entry ∈ sourceChildren.zipIdx, (if !blacklist.excludes entry.1 ||
          (entry.1 ∈ existingChildren && sourceChildren.idxOf entry.1 = entry.2) then
        some entry.1 else none) =
      Option.guard (fun child => !blacklist.excludes child || decide (child ∈ existingChildren)) entry.1 := by
    intro entry hent
    rw [hfst entry hent]
    simp [Option.guard]
  unfold reorderedChildren
  rw [filterMap_congr hkept]
  change sourceChildren.zipIdx.filterMap (Option.guard _ ∘ Prod.fst) = _
  rw [← List.filterMap_map, zipIdx_map_fst, List.filterMap_eq_filter]

theorem children_copiedBlock {source : BlockData} (hnod : source.childKeys.Nodup) {struct : Structure}
    (newId : ObjectId) (blacklist : Blacklist) :
    (copiedBlock source (struct.blocks.lookup key) newId blacklist).children =
      some (source.childKeys.filter fun child =>
        !blacklist.excludes child || decide (child ∈ struct.blocks.childrenOf key)) := by
  unfold copiedBlock childrenOf
  cases struct.blocks.lookup key with
  | none =>
    change some (List.filter _ source.childKeys) = _
    simp
  | some destination => exact congrArg some (reorderedChildren_eq hnod destination.childKeys blacklist)

theorem Merging.insert {after : List Touch} (hmerg : Merging source destination blacklist trace struct)
    (htch : ∀ other, Touched after other ↔ other = key ∨ Touched trace other)
    (hkeep : ∀ other, other ≠ key →
      keepsChild destination blacklist after other = keepsChild destination blacklist trace other)
    (hmem : ∀ other, other ∈ destination ∨ .copied other ∈ after ↔
      other = key ∨ other ∈ destination ∨ .copied other ∈ trace)
    (hsync : ∀ parent child, .synced parent child ∈ after → parent ∈ destination)
    (hblk : block.children = some ((source.childrenOf key).filter (keepsChild destination blacklist after key))) :
    Merging source destination blacklist after { struct with blocks := struct.blocks.insert key block } where
  mem_iff := by
    intro other
    rw [mem_insert, hmerg.mem_iff, hmem]
  synced_mem := hsync
  touched := by
    intro other hoth
    by_cases heq : other = key
    · subst heq
      exact ⟨block, lookup_insert_self _ _ _, hblk⟩
    · obtain ⟨found, hfnd, hkept⟩ := hmerg.touched other (((htch other).mp hoth).resolve_left heq)
      refine ⟨found, (lookup_insert_of_ne heq _ _).trans hfnd, ?_⟩
      rw [hkeep other heq]
      exact hkept
  untouched := by
    intro other hoth
    rw [htch, not_or] at hoth
    exact (lookup_insert_of_ne hoth.1 _ _).trans (hmerg.untouched other hoth.2)

variable {sourceBlock : BlockData}

theorem Merging.copy {entry : Structure} {below : List Touch} (hent : Merging source destination blacklist trace entry)
    (hmerg : Merging source destination blacklist (trace ++ below) struct) (hsrc : source.lookup key = some sourceBlock)
    (hnod : sourceBlock.childKeys.Nodup) (hkey : ¬ Touched below key) {newId : ObjectId}
    {copy : BlockData} (hcopy : copy = copiedBlock sourceBlock (entry.blocks.lookup key) newId blacklist) :
    Merging source destination blacklist (trace ++ .copied key :: below)
      { struct with blocks := struct.blocks.insert key copy } := by
  subst hcopy
  have hmem : ∀ touch, touch ∈ trace ++ .copied key :: below ↔ touch = .copied key ∨ touch ∈ trace ++ below := by
    intro touch
    simp only [mem_append, mem_cons]
    tauto
  refine hmerg.insert ?_ ?_ ?_ ?_ ?_
  · intro other
    unfold Touched
    simp only [hmem, Touch.copied.injEq, reduceCtorEq, false_or, or_assoc]
  · intro other hne
    funext child
    unfold keepsChild
    simp only [hmem, Touch.copied.injEq, hne, reduceCtorEq, false_or]
  · intro other
    rw [hmem, Touch.copied.injEq]
    tauto
  · intro parent child hsync
    exact hmerg.synced_mem parent child (((hmem _).mp hsync).resolve_left nofun)
  · have hkids := childrenOf_of_lookup hsrc
    rw [children_copiedBlock hnod, hkids]
    refine congrArg some (filter_congr fun child hch => ?_)
    have hcopd : Touch.copied key ∈ trace ++ .copied key :: below := (hmem _).mpr (.inl rfl)
    have hsync : .synced key child ∈ trace ++ .copied key :: below ↔ .synced key child ∈ trace := by
      rw [hmem, mem_append, or_iff_right nofun, or_iff_left]
      exact fun hbel => hkey (.inr ⟨child, hbel⟩)
    unfold keepsChild
    simp only [hcopd, hsync]
    -- what was done to the block before only adds to the children that it keeps
    by_cases hbef : Touched trace key
    · rw [hent.childrenOf_eq key hbef, hkids]
      simp only [mem_filter, hch, true_and, keepsChild]
      cases blacklist.excludes child <;> simp
    · have hnever : .synced key child ∉ trace := fun h => hbef (.inr ⟨child, h⟩)
      rw [hent.childrenOf_untouched hbef]
      simp only [hnever]
      cases blacklist.excludes child <;> simp

theorem Merging.sync (hmerg : Merging source destination blacklist trace struct)
    (hpar : parent ∈ destination) {children : List BlockKey}
    (hblk : struct.blocks.lookup parent = some block) (hkids : block.children = some children)
    (hsrc : source.lookup parent = some sourceBlock)
    (hsour : sourceBlock.children = some sourceChildren) (child : BlockKey) :
    Merging source destination blacklist (trace ++ [.synced parent child])
      { struct with blocks := struct.blocks.insert parent { block with
          children := some (sourceChildren.filter fun other => other = child || other ∈ children) } } := by
  have hmem : ∀ touch, touch ∈ trace ++ [.synced parent child] ↔ touch = .synced parent child ∨ touch ∈ trace := by
    intro touch
    rw [mem_append, mem_singleton]
    exact Or.comm
  refine hmerg.insert ?_ ?_ ?_ ?_ ?_
  · intro other
    unfold Touched
    simp only [hmem, Touch.synced.injEq, reduceCtorEq, false_or, exists_or]
    refine or_left_comm.trans (or_congr_left ?_)
    exact ⟨fun ⟨_, heq, _⟩ => heq, fun heq => ⟨child, heq, rfl⟩⟩
  · intro other hne
    funext below
    unfold keepsChild
    simp only [hmem, Touch.synced.injEq, hne, reduceCtorEq, false_and, false_or]
  · intro other
    simp only [hmem, reduceCtorEq, false_or]
    exact (or_iff_right_of_imp fun heq => .inl (heq ▸ hpar)).symm
  · intro other below hsync
    rcases (hmem _).mp hsync with heq | hold
    · rw [(Touch.synced.inj heq).1]
      exact hpar
    · exact hmerg.synced_mem other below hold
  · have hthere : struct.blocks.childrenOf parent = children := by
      rw [childrenOf_of_lookup hblk, childKeys, hkids]
      rfl
    have hsourc : source.childrenOf parent = sourceChildren := by
      rw [childrenOf_of_lookup hsrc, childKeys, hsour]
      rfl
    rw [hsourc]
    refine congrArg some (filter_congr fun below hbel => ?_)
    unfold keepsChild
    simp only [hmem, Touch.synced.injEq, reduceCtorEq, false_or, true_and]
    by_cases hbef : Touched trace parent
    · rw [← hthere, hmerg.childrenOf_eq parent hbef, hsourc]
      simp only [mem_filter, hbel, true_and, keepsChild]
      by_cases hsame : below = child
      · simp [hsame]
      · simp [hsame]
    · have hcopd : Touch.copied parent ∉ trace := fun h => hbef (.inl h)
      have hnever : .synced parent below ∉ trace := fun h => hbef (.inr ⟨below, h⟩)
      rw [← hthere, hmerg.childrenOf_untouched hbef]
      simp only [hcopd, hnever]
      by_cases hsame : below = child
      · simp [hsame]
      · simp [hsame]

theorem touched_iff : Touched trace key ↔ key ∈ trace.map Touch.block := by
  unfold Touched
  rw [mem_map]
  constructor
  · rintro (hcopd | ⟨child, hsync⟩)
    · exact ⟨_, hcopd, rfl⟩
    · exact ⟨_, hsync, rfl⟩
  · rintro ⟨touch, hmem, rfl⟩
    cases touch with
    | copied key => exact .inl hmem
    | synced parent child => exact .inr ⟨child, hmem⟩

theorem Merging.lost_eq (hmerg : Merging source destination blacklist trace struct) (key : BlockKey) :
    (struct.blocks.childrenOf key).filter (· ∉ source.childrenOf key) =
      if key ∈ trace.map Touch.block then [] else lostChildren source destination key := by
  split
  · next hbef =>
      rw [hmerg.childrenOf_eq key (touched_iff.mpr hbef), filter_eq_nil_iff]
      intro child hch
      simpa using (mem_filter.mp hch).1
  · next hbef => rw [hmerg.childrenOf_untouched fun h => hbef (touched_iff.mp h), lostChildren]

theorem lostAfter_append (earlier keys others : List BlockKey) :
    lostAfter source destination earlier (keys ++ others) = lostAfter source destination earlier keys ++
      lostAfter source destination (keys.reverse ++ earlier) others := by
  induction keys generalizing earlier with
  | nil => rfl
  | cons key keys ih =>
    rw [cons_append, lostAfter, lostAfter, ih, append_assoc, reverse_cons, append_assoc, singleton_append]

variable {earlier keys : List BlockKey}

theorem lostAfter_congr {others : List BlockKey} (hsame : ∀ key ∈ keys, key ∈ earlier ↔ key ∈ others) :
    lostAfter source destination earlier keys = lostAfter source destination others keys := by
  induction keys generalizing earlier others with
  | nil => rfl
  | cons key keys ih =>
    have hlat : ∀ other ∈ keys, other ∈ key :: earlier ↔ other ∈ key :: others := by
      intro other hoth
      rw [mem_cons, mem_cons, hsame other (mem_cons_of_mem key hoth)]
    rw [lostAfter, lostAfter, ih hlat]
    simp only [hsame key mem_cons_self]

theorem mem_lostAfter : child ∈ lostAfter source destination earlier keys ↔
      ∃ key ∈ keys, key ∉ earlier ∧ child ∈ lostChildren source destination key := by
  induction keys generalizing earlier with
  | nil => simp [lostAfter]
  | cons key keys ih =>
    rw [lostAfter, mem_append, ih]
    simp only [mem_cons, exists_eq_or_imp, not_or]
    by_cases hkey : key ∈ earlier
    · simp only [hkey, if_pos, not_mem_nil, false_or, not_true_eq_false, false_and]
      refine exists_congr fun other => and_congr_right fun _ => and_congr_left fun _ => ?_
      exact and_iff_right_of_imp fun hoth heq => hoth (heq ▸ hkey)
    · simp only [hkey, if_neg, not_false_eq_true, true_and]
      constructor
      · rintro (hch | ⟨other, hoth, hnew, hch⟩)
        · exact .inl hch
        · exact .inr ⟨other, hoth, hnew.2, hch⟩
      · rintro (hch | ⟨other, hoth, hnew, hch⟩)
        · exact .inl hch
        · by_cases heq : other = key
          · exact .inl (heq ▸ hch)
          · exact .inr ⟨other, hoth, ⟨heq, hnew⟩, hch⟩

theorem mem_orphansOf : child ∈ orphansOf source destination trace ↔
    ∃ key, Touched trace key ∧ child ∈ destination.childrenOf key ∧ child ∉ source.childrenOf key := by
  unfold orphansOf
  rw [mem_lostAfter]
  simp only [← touched_iff, not_mem_nil, not_false_eq_true, true_and, lostChildren, mem_filter, decide_eq_true_eq]

theorem discoveredOrphans_eq (hsrc : source.lookup key = some sourceBlock) :
    discoveredOrphans sourceBlock (struct.blocks.lookup key) =
      (struct.blocks.childrenOf key).filter (· ∉ source.childrenOf key) := by
  rw [childrenOf_of_lookup hsrc]
  unfold discoveredOrphans childrenOf
  cases struct.blocks.lookup key with
  | none => rfl
  | some block => rfl

/-- How far a copy has come: the blocks as they were merged, and the orphans that this made. -/
structure Progress (source destination : Blocks) (blacklist : Blacklist) (trace : List Touch)
    (orphans : List BlockKey) (struct : Structure) : Prop where
  merging : Merging source destination blacklist trace struct
  orphans_eq : orphans = orphansOf source destination trace

theorem Progress.orphans_touch {entry : Structure} {below : List Touch} {prior found : List BlockKey}
    (hent : Progress source destination blacklist trace prior entry)
    (hfnd : prior ++ found = orphansOf source destination (trace ++ below))
    (touch : Touch) (hnever : ¬ Touched below touch.block) :
    prior ++ ((entry.blocks.childrenOf touch.block).filter (· ∉ source.childrenOf touch.block) ++ found) =
      orphansOf source destination (trace ++ touch :: below) := by
  have hspl : ∀ more : List Touch, orphansOf source destination (trace ++ more) =
      prior ++ lostAfter source destination (trace.map Touch.block).reverse (more.map Touch.block) := by
    intro more
    rw [hent.orphans_eq]
    unfold orphansOf
    rw [map_append, lostAfter_append, append_nil]
  rw [hspl, List.append_cancel_left_eq] at hfnd
  rw [hspl, List.append_cancel_left_eq, map_cons, lostAfter, hent.merging.lost_eq, hfnd]
  congr 1
  · simp only [List.mem_reverse]
  · refine lostAfter_congr fun key hkey => ?_
    rw [mem_cons, or_iff_right]
    rintro rfl
    exact hnever (touched_iff.mpr hkey)

def copies (visited : List BlockKey) : List Touch := visited.map .copied

theorem touched_copies {visited : List BlockKey} : Touched (copies visited) key ↔ key ∈ visited := by
  unfold Touched copies
  simp

theorem copySubdag_outcome (hlink : source.Linked) (newId : ObjectId) {depth : Nat}
    (hkey : key ∈ source) (hshal : Shallow source blacklist depth key) (trace : List Touch)
    (prior : List BlockKey) :
    Outcome (Progress source destination blacklist trace prior) (copySubdag false newId source blacklist depth key)
      (fun orphans => Progress source destination blacklist
        (trace ++ copies (walk source blacklist depth key)) (prior ++ orphans))
      (fun _ => False) := by
  induction depth generalizing key trace prior with
  | zero => exact hshal.elim
  | succ depth ih =>
    rw [copySubdag_succ]
    apply outcome_read
    intro entry hent
    obtain ⟨sourceBlock, hsrc⟩ := mem_iff_lookup.mp hkey
    apply outcome_found
    rotate_left
    · intro hnone
      rw [show source.lookup key = none from hnone] at hsrc
      cases hsrc
    intro found hfnd
    obtain rfl := some_unique hfnd hsrc
    have hwalk : walk source blacklist (depth + 1) key = key ::
        (found.copiedChildren blacklist).flatMap (walk source blacklist depth) := by
      rw [walk, hsrc]
    rw [hwalk]
    apply outcome_bind (M := fun results => Progress source destination blacklist
      (trace ++ copies ((found.copiedChildren blacklist).flatMap (walk source blacklist depth)))
      (prior ++ results.flatten))
    · refine outcome_weaken (outcome_collect (I := fun before results =>
          Progress source destination blacklist
            (trace ++ copies (before.flatMap (walk source blacklist depth))) (prior ++ results.flatten))
        fun before child after heq results => ?_) ?_ (fun _ _ h => h) fun _ h => h
      · have hch : child ∈ found.copiedChildren blacklist := heq ▸ mem_append_right before mem_cons_self
        have hedge : source.Edge key child := ⟨found, hsrc, (mem_filter.mp hch).1⟩
        refine outcome_weaken (ih (hlink.child_mem key child hedge)
          (hshal child ⟨found, hsrc, hch⟩) _ _) (fun _ h => h) ?_ fun _ h => h
        intro orphans struct hstr
        simpa [copies] using hstr
      · rintro _ rfl
        simpa [copies] using hent
    · intro results
      refine outcome_bind (M := fun _ => Progress source destination blacklist (trace ++ .copied key :: copies
          ((found.copiedChildren blacklist).flatMap (walk source blacklist depth)))
        (prior ++ (discoveredOrphans found (entry.blocks.lookup key) ++ results.flatten)))
        (outcome_modify ?_) fun _ => outcome_pure fun _ h => h
      intro struct hstr
      have hnever : ¬ Touched (copies ((found.copiedChildren blacklist).flatMap (walk source blacklist depth))) key :=
        fun h => hshal.notMem_below hsrc depth (touched_copies.mp h)
      refine ⟨hent.merging.copy hstr.merging hsrc (hlink.distinct key found hsrc) hnever rfl, ?_⟩
      rw [discoveredOrphans_eq hsrc]
      exact hent.orphans_touch hstr.orphans_eq (.copied key) hnever

def HasChildren (destination : Blocks) (trace : List Touch) (key : BlockKey) : Prop :=
  Touched trace key ∨ ∃ block, destination.lookup key = some block ∧ block.children ≠ none

theorem Merging.hasChildren_iff (hmerg : Merging source destination blacklist trace struct)
    (hblk : struct.blocks.lookup key = some block) :
    HasChildren destination trace key ↔ block.children ≠ none := by
  by_cases htch : Touched trace key
  · obtain ⟨same, hsame, hkept⟩ := hmerg.touched key htch
    obtain rfl := some_unique hblk hsame
    exact iff_of_true (.inl htch) (by simp [hkept])
  · rw [HasChildren, or_iff_right htch, ← hmerg.untouched key htch, hblk]
    simp

theorem syncChildren_outcome (hpar : parent ∈ destination)
    (hedge : source.Edge parent child) (trace : List Touch) (prior : List BlockKey) :
    Outcome (Progress source destination blacklist trace prior) (syncChildren false source child parent)
      (fun orphans struct =>
        Progress source destination blacklist (trace ++ [.synced parent child]) (prior ++ orphans) struct ∧
          HasChildren destination trace parent)
      (fun error => error = .keyError ∧ ¬ HasChildren destination trace parent) := by
  apply outcome_read
  intro struct hstr
  have hmerg := hstr.merging
  obtain ⟨sourceBlock, hsrc, hch⟩ := hedge
  obtain ⟨block, hblk⟩ := mem_iff_lookup.mp ((hmerg.mem_iff parent).mpr (.inl hpar))
  obtain ⟨sourceChildren, hsour⟩ : ∃ children, sourceBlock.children = some children := by
    unfold childKeys at hch
    cases hcase : sourceBlock.children with
    | none => simp [hcase] at hch
    | some children => exact ⟨children, rfl⟩
  apply outcome_found
  rotate_left
  · intro hnone
    rw [hnone] at hblk
    cases hblk
  intro found hfnd
  obtain rfl := some_unique hfnd hblk
  have hhas := hmerg.hasChildren_iff hblk
  apply outcome_found
  rotate_left
  · intro hnone _ _
    exact ⟨rfl, fun h => hhas.mp h hnone⟩
  intro children hkids
  apply outcome_found
  rotate_left
  · intro hnone
    rw [show source.lookup parent = none from hnone] at hsrc
    cases hsrc
  intro foundSource hfoun
  obtain rfl := some_unique hfoun hsrc
  apply outcome_found
  rotate_left
  · intro hnone
    rw [hnone] at hsour
    cases hsour
  intro same hsame
  obtain rfl := some_unique hsame hsour
  have hlost : children.filter (· ∉ same) =
      (struct.blocks.childrenOf parent).filter (· ∉ source.childrenOf parent) := by
    rw [childrenOf_of_lookup hblk, childrenOf_of_lookup hsrc, childKeys, childKeys, hkids, hsame]
    rfl
  have hnone : prior ++ [] = orphansOf source destination (trace ++ []) := by
    rw [append_nil, append_nil]
    exact hstr.orphans_eq
  have horp := hstr.orphans_touch hnone (.synced parent child) (by simp [Touched])
  rw [append_nil] at horp
  have hthere : HasChildren destination trace parent := hhas.mpr (hkids ▸ some_ne_none children)
  rintro _ rfl
  refine ⟨⟨hmerg.sync hpar hblk hkids hsrc hsame child, ?_⟩, hthere⟩
  rw [hlost]
  exact horp

theorem touched_map_synced {parents : List BlockKey} :
    Touched (parents.map fun parent => .synced parent child) key ↔ key ∈ parents := by
  unfold Touched
  simp

def syncs (source : Blocks) (sourceRoot subtreeRoot : BlockKey) : List Touch :=
  if subtreeRoot = sourceRoot then []
  else (getParentsFromStructure subtreeRoot source).map fun parent => .synced parent subtreeRoot

theorem HasChildren.append (hhas : HasChildren destination trace key) (more : List Touch) :
    HasChildren destination (trace ++ more) key :=
  hhas.imp_left fun htch => touched_append.mpr (.inl htch)

theorem syncParents_outcome {sourceRoot subtreeRoot : BlockKey}
    (hpars : subtreeRoot ≠ sourceRoot → ∀ parent, source.Edge parent subtreeRoot → parent ∈ destination)
    (trace : List Touch) (prior : List BlockKey) :
    Outcome (Progress source destination blacklist trace prior) (syncParents false source sourceRoot subtreeRoot)
      (fun orphans struct =>
        Progress source destination blacklist (trace ++ syncs source sourceRoot subtreeRoot)
            (prior ++ orphans) struct ∧
          (subtreeRoot ≠ sourceRoot → ∀ parent, source.Edge parent subtreeRoot → HasChildren destination trace parent))
      (fun error => error = .keyError ∧ subtreeRoot ≠ sourceRoot ∧
        ∃ parent, source.Edge parent subtreeRoot ∧ ¬ HasChildren destination trace parent) := by
  unfold syncParents syncs
  split
  · next heq =>
      refine outcome_pure fun struct h => ?_
      rw [append_nil, append_nil]
      exact ⟨h, fun hne => absurd heq hne⟩
  · next hne =>
      apply outcome_read
      intro start hst
      have hedge : ∀ parent ∈ getParentsFromStructure subtreeRoot source, source.Edge parent subtreeRoot :=
        fun parent hmem => mem_getParents.mp hmem
      have hthere : ∀ parent ∈ getParentsFromStructure subtreeRoot source, parent ∈ destination :=
        fun parent hmem => hpars hne parent (hedge parent hmem)
      have hall : (getParentsFromStructure subtreeRoot source).filter (· ∈ start.blocks) =
          getParentsFromStructure subtreeRoot source :=
        filter_eq_self.mpr fun parent hmem =>
          decide_eq_true ((hst.merging.mem_iff parent).mpr (.inl (hthere parent hmem)))
      simp only [sourceBlocks, false_eq_true, if_false, hall]
      apply outcome_bind (M := fun results struct =>
        Progress source destination blacklist (trace ++ (getParentsFromStructure subtreeRoot source).map
            fun parent => .synced parent subtreeRoot) (prior ++ results.flatten) struct ∧
          ∀ parent ∈ getParentsFromStructure subtreeRoot source, HasChildren destination trace parent)
      · refine outcome_weaken (outcome_collect (I := fun before results struct =>
            Progress source destination blacklist
                (trace ++ before.map fun parent => .synced parent subtreeRoot) (prior ++ results.flatten)
                struct ∧
              ∀ parent ∈ before, HasChildren destination trace parent)
          fun before parent after heq results => ?_) ?_ (fun _ _ h => h) fun _ h => h
        · have hmem : parent ∈ getParentsFromStructure subtreeRoot source :=
            heq ▸ mem_append_right before mem_cons_self
          apply outcome_of_state
          rintro struct ⟨hstr, hbef⟩
          refine outcome_weaken (syncChildren_outcome (hthere parent hmem) (hedge parent hmem) _ _)
            (by rintro _ rfl; exact hstr) ?_ ?_
          · rintro orphans next ⟨hnxt, hhas⟩
            refine ⟨by simpa using hnxt, fun other hoth => ?_⟩
            rcases mem_append.mp hoth with hold | hnew
            · exact hbef other hold
            · obtain rfl := mem_singleton.mp hnew
              rcases hhas with htch | hsaved
              · rcases touched_append.mp htch with hear | hsync
                · exact .inl hear
                · exact hbef _ ((touched_map_synced).mp hsync)
              · exact .inr hsaved
          · rintro error ⟨rfl, hnone⟩
            exact ⟨rfl, hne, parent, hedge parent hmem, fun hhas => hnone (hhas.append _)⟩
        · rintro _ rfl
          simpa using hst
      · intro results
        apply outcome_checked
        · intro _
          refine outcome_pure fun struct h => ⟨h.1, fun _ parent hpar => ?_⟩
          exact h.2 parent (mem_getParents.mpr hpar)
        · simp

end Steps

end EdxPlatform.Split
