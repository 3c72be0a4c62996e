import EdxPlatform.Lib.Acyclic
import EdxPlatform.Lib.Programs
import EdxPlatform.Split.Operations

/-!
# Removing a subtree

Going down from a block tier by tier, a block is slated for deletion once all of
its parents are.  In the end the slated blocks are closed: they are all blocks
below the root of the subtree that have no parent besides them.
-/

namespace EdxPlatform.Split

open Relation

/-! ## Children and parents -/

variable {blocks : Blocks}

namespace Blocks

/-- `parent` lists `child` among its children. -/
def Edge (blocks : Blocks) (parent child : BlockKey) : Prop :=
  ∃ block, blocks.lookup parent = some block ∧ child ∈ block.childKeys

/-- Every child is there, and none is listed twice. -/
structure Linked (blocks : Blocks) : Prop where
  child_mem : ∀ parent child, blocks.Edge parent child → child ∈ blocks
  distinct : ∀ key block, blocks.lookup key = some block → block.childKeys.Nodup

variable {child key : BlockKey}

theorem edge_of_lookup {block : BlockData} (hblk : blocks.lookup key = some block) :
    blocks.Edge key child ↔ child ∈ block.childKeys := by
  constructor
  · rintro ⟨found, hfnd, hch⟩
    obtain rfl := some_unique hfnd hblk
    exact hch
  · exact fun hch => ⟨block, hblk, hch⟩

theorem edge_congr {other : Blocks} (hsame : blocks.lookup key = other.lookup key) :
    blocks.Edge key child ↔ other.Edge key child := by
  unfold Edge
  rw [hsame]

variable {parent : BlockKey}

theorem Edge.parent_mem (hedge : blocks.Edge parent child) : parent ∈ blocks := by
  obtain ⟨block, hblk, -⟩ := hedge
  exact mem_of_lookup hblk

@[simp]
theorem mem_getParents : parent ∈ getParentsFromStructure child blocks ↔ blocks.Edge parent child := by
  unfold getParentsFromStructure Edge
  rw [mem_filter, ← mem_keys]
  constructor
  · rintro ⟨-, hls⟩
    split at hls
    · cases hls
    · next block hblk => exact ⟨block, hblk, of_decide_eq_true hls⟩
  · rintro ⟨block, hblk, hch⟩
    refine ⟨mem_of_lookup hblk, ?_⟩
    rw [hblk]
    exact decide_eq_true hch

instance : Decidable blocks.Linked :=
  decidable_of_iff (∀ entry ∈ blocks.entries, entry.2.childKeys.Nodup ∧
    ∀ child ∈ entry.2.childKeys, child ∈ blocks) <| by
  constructor
  · intro hall
    refine ⟨?_, fun key block hblock => (hall ⟨key, block⟩ (AList.mem_lookup_iff.mp hblock)).1⟩
    rintro parent child ⟨block, hblock, hchild⟩
    exact (hall ⟨parent, block⟩ (AList.mem_lookup_iff.mp hblock)).2 child hchild
  · rintro hlinked ⟨key, block⟩ hentry
    have hblock : blocks.lookup key = some block := AList.mem_lookup_iff.mpr hentry
    exact ⟨hlinked.distinct key block hblock, fun child hchild => hlinked.child_mem key child ⟨block, hblock, hchild⟩⟩

theorem acyclic_of_rank (rank : BlockKey → Nat)
    (hrank : ∀ entry ∈ blocks.entries, ∀ child ∈ entry.2.childKeys, rank entry.1 < rank child) :
    Acyclic blocks.Edge := by
  refine Acyclic.of_rank rank ?_
  rintro parent child ⟨block, hblk, hch⟩
  exact hrank ⟨parent, block⟩ (mem_lookup_iff.mp hblk) child hch

end Blocks

section Tiers

variable {root : BlockKey}

theorem nextTier_eq (blocks : Blocks) (toDelete : List BlockKey) {tier : List BlockKey}
    (hmem : ∀ key ∈ tier, key ∈ blocks) :
    ∃ next, nextTier blocks toDelete tier = .ok next ∧ ∀ child, child ∈ next ↔
      (∃ parent ∈ tier, blocks.Edge parent child) ∧ ∀ parent, blocks.Edge parent child → parent ∈ toDelete := by
  induction tier with
  | nil => exact ⟨[], rfl, by simp⟩
  | cons key tier ih =>
    obtain ⟨next, hnxt, hiff⟩ := ih fun other hoth => hmem other (mem_cons_of_mem _ hoth)
    obtain ⟨block, hblk⟩ := mem_iff_lookup.mp (hmem key mem_cons_self)
    refine ⟨_, by rw [nextTier, hblk, hnxt]; rfl, fun child => ?_⟩
    have hall : ((getParentsFromStructure child blocks).all fun parent =>
        decide (parent ∈ toDelete)) = true ↔ ∀ parent, blocks.Edge parent child → parent ∈ toDelete := by
      simp
    rw [mem_append, hiff, mem_filter, hall, ← Blocks.edge_of_lookup hblk]
    simp only [mem_cons, exists_eq_or_imp]
    tauto

/-- The slated blocks when a tier of them is gone through: those above the tier have
brought in all that they can. -/
structure Slated (blocks : Blocks) (root : BlockKey) (tier toDelete : List BlockKey) : Prop where
  root_mem : root ∈ toDelete
  mem : ∀ key ∈ toDelete, key ∈ blocks
  tier_mem : ∀ key ∈ tier, key ∈ toDelete
  below : ∀ key ∈ toDelete, ReflTransGen blocks.Edge root key
  parents : ∀ key ∈ toDelete, key ≠ root → ∀ parent, blocks.Edge parent key → parent ∈ toDelete ∧ parent ∉ tier
  closed : ∀ key, (∃ parent, blocks.Edge parent key) →
    (∀ parent, blocks.Edge parent key → parent ∈ toDelete ∧ parent ∉ tier) → key ∈ toDelete

theorem slated_root (hroot : root ∈ blocks) : Slated blocks root [root] [root] where
  root_mem := mem_singleton_self root
  mem := by simpa using hroot
  tier_mem := fun _ h => h
  below := by
    intro key hkey
    rw [mem_singleton.mp hkey]
  parents := fun key hkey hne => absurd (mem_singleton.mp hkey) hne
  closed := by
    rintro key ⟨parent, hedge⟩ hall
    obtain ⟨hmem, hnot⟩ := hall parent hedge
    exact absurd hmem hnot

variable {tier next toDelete : List BlockKey}

section

variable (hslat : Slated blocks root tier toDelete)
include hslat

theorem Slated.next_new (hloop : ¬ TransGen blocks.Edge root root)
    (hnxt : ∀ child, child ∈ next ↔ (∃ parent ∈ tier, blocks.Edge parent child) ∧
      ∀ parent, blocks.Edge parent child → parent ∈ toDelete)
    {child : BlockKey} (hch : child ∈ next) : child ∉ toDelete := by
  intro hmem
  obtain ⟨⟨parent, hpar, hedge⟩, -⟩ := (hnxt child).mp hch
  by_cases hroot : child = root
  · subst hroot
    exact hloop (TransGen.tail' (hslat.below parent (hslat.tier_mem parent hpar)) hedge)
  · exact (hslat.parents child hmem hroot parent hedge).2 hpar

theorem Slated.descend (hlink : blocks.Linked) (hloop : ¬ TransGen blocks.Edge root root)
    (hnxt : ∀ child, child ∈ next ↔ (∃ parent ∈ tier, blocks.Edge parent child) ∧
      ∀ parent, blocks.Edge parent child → parent ∈ toDelete) :
    Slated blocks root next (toDelete ++ next) := by
  have hnew := fun child (hch : child ∈ next) => hslat.next_new hloop hnxt hch
  constructor
  · exact mem_append_left _ hslat.root_mem
  · intro key hkey
    rcases mem_append.mp hkey with hkey | hkey
    · exact hslat.mem key hkey
    · obtain ⟨⟨parent, -, hedge⟩, -⟩ := (hnxt key).mp hkey
      exact hlink.child_mem parent key hedge
  · exact fun key hkey => mem_append_right _ hkey
  · intro key hkey
    rcases mem_append.mp hkey with hkey | hkey
    · exact hslat.below key hkey
    · obtain ⟨⟨parent, hpar, hedge⟩, -⟩ := (hnxt key).mp hkey
      exact (hslat.below parent (hslat.tier_mem parent hpar)).tail hedge
  · intro key hkey hne parent hedge
    have hpar : parent ∈ toDelete := by
      rcases mem_append.mp hkey with hkey | hkey
      · exact (hslat.parents key hkey hne parent hedge).1
      · exact ((hnxt key).mp hkey).2 parent hedge
    exact ⟨mem_append_left _ hpar, fun hmem => hnew parent hmem hpar⟩
  · rintro key hsome hall
    have hold : ∀ parent, blocks.Edge parent key → parent ∈ toDelete := by
      intro parent hedge
      obtain ⟨hmem, hnot⟩ := hall parent hedge
      exact (mem_append.mp hmem).resolve_right hnot
    by_cases htier : ∃ parent ∈ tier, blocks.Edge parent key
    · exact mem_append_right _ ((hnxt key).mpr ⟨htier, hold⟩)
    · exact mem_append_left _ (hslat.closed key hsome fun parent hedge =>
        ⟨hold parent hedge, fun hmem => htier ⟨parent, hmem, hedge⟩⟩)

theorem Slated.card_le : toDelete.toFinset.card ≤ blocks.keys.length := by
  refine (Finset.card_le_card fun key hkey => ?_).trans (List.toFinset_card_le blocks.keys)
  rw [mem_toFinset] at hkey ⊢
  exact hslat.mem key hkey

end

theorem tiersToDelete_eq (hlink : blocks.Linked) (hloop : ¬ TransGen blocks.Edge root root)
    (tiers : Nat) (hslat : Slated blocks root tier toDelete)
    (htiers : tier = [] ∧ 1 ≤ tiers ∨ blocks.keys.length + 2 ≤ tiers + toDelete.toFinset.card) :
    ∃ removed, tiersToDelete blocks tiers tier toDelete = .ok removed ∧ Slated blocks root [] removed := by
  induction tiers generalizing tier toDelete with
  | zero =>
    have hcard := hslat.card_le
    omega
  | succ tiers ih =>
    unfold tiersToDelete
    cases tier with
    | nil => exact ⟨toDelete, rfl, hslat⟩
    | cons key tier =>
      obtain ⟨next, hok, hnxt⟩ := nextTier_eq blocks toDelete
        fun other hoth => hslat.mem other (hslat.tier_mem other hoth)
      rw [hok]
      refine ih (hslat.descend hlink hloop hnxt) ?_
      have hmore := htiers.resolve_left (by simp)
      have hcard := hslat.card_le
      cases next with
      | nil => exact .inl ⟨rfl, by omega⟩
      | cons first next =>
        have hnew := hslat.next_new hloop hnxt mem_cons_self
        have hless : toDelete.toFinset.card < (toDelete ++ first :: next).toFinset.card := by
          refine Finset.card_lt_card ((Finset.ssubset_iff_of_subset ?_).mpr ⟨first, ?_, ?_⟩)
          · intro other hoth
            rw [mem_toFinset] at hoth ⊢
            exact mem_append_left _ hoth
          · simp
          · simpa using hnew
        exact .inr (by omega)

end Tiers

/-- Which blocks a removal takes out of `blocks`: the root of the subtree, and what is
below it and has no other parents. -/
structure SubtreeRemoved (blocks : Blocks) (root : BlockKey) (rest : Blocks) : Prop where
  lookup : ∀ key ∈ rest, rest.lookup key = blocks.lookup key
  sub : ∀ key ∈ rest, key ∈ blocks
  root_notMem : root ∉ rest
  gone_iff : ∀ key ∈ blocks, key ≠ root → (key ∉ rest ↔
    TransGen blocks.Edge root key ∧ ∀ parent, blocks.Edge parent key → parent ∉ rest)

theorem Slated.subtreeRemoved {blocks : Blocks} {root : BlockKey} {removed : List BlockKey}
    (hslat : Slated blocks root [] removed) :
    SubtreeRemoved blocks root (removed.foldl (fun (blocks : Blocks) other => blocks.erase other) blocks) := by
  have hgone : ∀ key, key ∉ removed.foldl (fun (blocks : Blocks) other => blocks.erase other) blocks ↔
      key ∈ removed ∨ key ∉ blocks := by
    intro key
    rw [← lookup_eq_none, ← lookup_eq_none, Dict.lookup_eraseAll]
    by_cases hkey : key ∈ removed <;> simp [hkey]
  constructor
  · intro key hkey
    rw [Dict.lookup_eraseAll, if_neg fun hmem => (hgone key).mpr (.inl hmem) hkey]
  · intro key hkey
    by_contra hout
    exact (hgone key).mpr (.inr hout) hkey
  · exact (hgone root).mpr (.inl hslat.root_mem)
  · intro key hkey hne
    rw [hgone, or_iff_left (fun h => h hkey)]
    constructor
    · intro hmem
      have hpath : TransGen blocks.Edge root key :=
        (reflTransGen_iff_eq_or_transGen.mp (hslat.below key hmem)).resolve_left hne
      exact ⟨hpath, fun parent hedge => (hgone parent).mpr (.inl (hslat.parents key hmem hne parent hedge).1)⟩
    · rintro ⟨hpath, hall⟩
      obtain ⟨parent, -, hedge⟩ := TransGen.tail'_iff.mp hpath
      refine hslat.closed key ⟨parent, hedge⟩ fun other hoth => ?_
      exact ⟨((hgone other).mp (hall other hoth)).resolve_right fun h => h hoth.parent_mem, not_mem_nil⟩

theorem removeSubtree_run (struct : Structure) {root : BlockKey} (hroot : root ∈ struct.blocks)
    (hlink : struct.blocks.Linked) (hloop : ¬ TransGen struct.blocks.Edge root root) :
    ∃ rest, removeSubtree root struct = .ok () { struct with blocks := rest } ∧
      SubtreeRemoved struct.blocks root rest := by
  obtain ⟨removed, hrem, hslat⟩ := tiersToDelete_eq hlink hloop
    (struct.blocks.keys.length + 1) (slated_root hroot) (.inr (by simp))
  refine ⟨_, ?_, hslat.subtreeRemoved⟩
  unfold removeSubtree
  rw [run_bind, show (get : EStateM StoreError Structure Structure) struct = .ok struct struct from rfl]
  dsimp only
  rw [hrem]
  rfl

end EdxPlatform.Split
