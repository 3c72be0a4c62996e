import EdxPlatform.Lib.Striking
import EdxPlatform.Split.MergedBlocks

/-!
# Deleting the orphans

The deletion of orphans goes down from a block after it took it out, and looks a block up
that has no parents.  It does to the blocks what `strike` does to the keys: the deletion
raises `KeyError` if it comes by a block again after it took it out.
-/

namespace EdxPlatform.Split

/-- The blocks that are left when some are gone, with all of their parents. -/
structure Struck (blocks : Blocks) (gone : Finset BlockKey) (struct : Structure) : Prop where
  lookup : ∀ key, struct.blocks.lookup key = if key ∈ gone then none else blocks.lookup key
  parents : ParentsGone blocks.childrenOf gone
  sub : ∀ key ∈ gone, key ∈ blocks

section

variable {blocks : Blocks} {gone : Finset BlockKey} {struct : Structure} {key : BlockKey}

theorem struck_self (struct : Structure) : Struck struct.blocks ∅ struct where
  lookup := fun key => by rw [if_neg (Finset.notMem_empty key)]
  parents := fun key hkey => absurd hkey (Finset.notMem_empty key)
  sub := fun key hkey => absurd hkey (Finset.notMem_empty key)

section

variable (hstruck : Struck blocks gone struct)
include hstruck

theorem Struck.mem_iff (key : BlockKey) : key ∈ struct.blocks ↔ key ∉ gone ∧ key ∈ blocks := by
  rw [mem_iff_lookup, mem_iff_lookup, hstruck.lookup]
  by_cases hkey : key ∈ gone <;> simp [hkey]

theorem Struck.edge_iff {parent child : BlockKey} :
    struct.blocks.Edge parent child ↔ parent ∉ gone ∧ child ∈ blocks.childrenOf parent := by
  rw [mem_childrenOf]
  unfold Blocks.Edge
  rw [hstruck.lookup]
  by_cases hpar : parent ∈ gone <;> simp [hpar]

theorem Struck.getParents_isEmpty : (getParentsFromStructure key struct.blocks).isEmpty = true ↔
      ∀ parent, key ∈ blocks.childrenOf parent → parent ∈ gone := by
  rw [isEmpty_iff, List.eq_nil_iff_forall_not_mem]
  simp only [Blocks.mem_getParents, hstruck.edge_iff, not_and]
  refine forall_congr' fun parent => ?_
  rw [not_imp_not]

theorem Struck.erase (hkey : key ∈ blocks) (hpars : ∀ parent, key ∈ blocks.childrenOf parent → parent ∈ gone) :
    Struck blocks (insert key gone) { struct with blocks := struct.blocks.erase key } where
  lookup := by
    intro other
    rw [lookup_erase, hstruck.lookup]
    by_cases heq : other = key
    · simp [heq]
    · simp [heq]
  parents := hstruck.parents.insert hpars
  sub := by
    intro other hoth
    rcases Finset.mem_insert.mp hoth with rfl | hold
    · exact hkey
    · exact hstruck.sub other hold

theorem Struck.card_le : gone.card ≤ blocks.keys.length := by
  refine (Finset.card_le_card fun key hkey => ?_).trans (List.toFinset_card_le blocks.keys)
  exact mem_toFinset.mpr (mem_keys.mp (hstruck.sub key hkey))

theorem Struck.closed (hcl : ∀ parent, ∀ child ∈ blocks.childrenOf parent, child ∈ blocks) {parent child : BlockKey}
    (hedge : struct.blocks.Edge parent child) : child ∈ struct.blocks := by
  obtain ⟨hpar, hch⟩ := hstruck.edge_iff.mp hedge
  refine (hstruck.mem_iff child).mpr ⟨fun hgone => ?_, hcl parent child hch⟩
  exact hpar (hstruck.parents child hgone parent hch)

end

def Strikes (blocks : Blocks) (gone : Finset BlockKey) (depth : Nat) (keys : List BlockKey)
    (program : EStateM StoreError Structure Unit) : Prop :=
  Outcome (Struck blocks gone) program
    (fun _ struct => ∃ last, strike blocks.childrenOf gone (listing blocks.childrenOf depth keys) = some last ∧
      Struck blocks last struct)
    (fun error => error = .keyError ∧ strike blocks.childrenOf gone (listing blocks.childrenOf depth keys) = none)

theorem deleteIfTrueOrphan_strikes {depth : Nat} (hkey : key ∈ blocks)
    (hbel : key ∉ gone → Strikes blocks (insert key gone) depth (blocks.childrenOf key)
      ((blocks.childrenOf key).forM (deleteIfTrueOrphan depth))) :
    Strikes blocks gone (depth + 1) [key] (deleteIfTrueOrphan (depth + 1) key) := by
  have hlis : listing blocks.childrenOf (depth + 1) [key] =
      key :: listing blocks.childrenOf depth (blocks.childrenOf key) :=
    append_nil _
  unfold Strikes
  rw [hlis, strike]
  apply outcome_read
  intro struct hstruck
  split
  · next hemp =>
      have hpars := hstruck.getParents_isEmpty.mp hemp
      simp only [if_pos hpars]
      apply outcome_found
      · intro block hblk
        have hthere : key ∉ gone := by
          intro hgone
          rw [hstruck.lookup, if_pos hgone] at hblk
          cases hblk
        have hkids : block.childKeys = blocks.childrenOf key := by
          rw [hstruck.lookup, if_neg hthere] at hblk
          exact (childrenOf_of_lookup hblk).symm
        simp only [if_neg hthere, hkids]
        refine outcome_bind (M := fun _ => Struck blocks (insert key gone)) ?_ fun _ => hbel hthere
        rintro _ rfl
        exact hstruck.erase hkey hpars
      · rintro hnone _ _
        have hgone : key ∈ gone := by
          by_contra hthere
          exact lookup_eq_none.mp hnone ((hstruck.mem_iff key).mpr ⟨hthere, hkey⟩)
        rw [if_pos hgone]
        exact ⟨rfl, rfl⟩
  · next hsome =>
      have hpars := fun hall => hsome (hstruck.getParents_isEmpty.mpr hall)
      simp only [if_neg hpars]
      have hthere : key ∉ gone := fun hgone => hpars (hstruck.parents key hgone)
      refine outcome_pure ?_
      rintro _ rfl
      exact ⟨gone, strike_listing_of_kept hstruck.parents depth fun child hch => ⟨key, hch, hthere⟩, hstruck⟩

theorem deleteOrphans_strikes (hcl : ∀ parent, ∀ child ∈ blocks.childrenOf parent, child ∈ blocks)
    (gone : Finset BlockKey) {depth : Nat} {keys : List BlockKey} (hkeys : ∀ key ∈ keys, key ∈ blocks)
    (hdepth : blocks.keys.length < depth + gone.card) :
    Strikes blocks gone depth keys (keys.forM (deleteIfTrueOrphan depth)) := by
  induction depth generalizing gone keys with
  | zero =>
    intro struct hstruck
    have hcard := hstruck.card_le
    omega
  | succ depth ih =>
    induction keys generalizing gone with
    | nil => exact outcome_pure fun struct hstruck => ⟨gone, rfl, hstruck⟩
    | cons key keys ihKeys =>
      have hfst := deleteIfTrueOrphan_strikes (hkeys key mem_cons_self) fun hthere =>
        ih (insert key gone) (hcl key) (by rw [Finset.card_insert_of_notMem hthere]; omega)
      have hlis : listing blocks.childrenOf (depth + 1) (key :: keys) =
          listing blocks.childrenOf (depth + 1) [key] ++ listing blocks.childrenOf (depth + 1) keys := by
        rw [← singleton_append]
        exact flatMap_append
      unfold Strikes
      rw [hlis, strike_append]
      refine outcome_bind (M := fun _ struct => ∃ middle,
        strike blocks.childrenOf gone (listing blocks.childrenOf (depth + 1) [key]) = some middle ∧
          Struck blocks middle struct) (outcome_weaken hfst (fun _ h => h) (fun _ _ h => h) ?_) ?_
      · rintro error ⟨rfl, hnone⟩
        rw [hnone]
        exact ⟨rfl, rfl⟩
      · intro _
        apply outcome_of_state
        rintro struct ⟨middle, hmid, hstruck⟩
        rw [hmid]
        refine outcome_weaken (ihKeys middle (fun other hoth =>
          hkeys other (mem_cons_of_mem key hoth)) ?_) (by rintro _ rfl; exact hstruck)
          (fun _ _ h => h) fun _ h => h
        have hmore := Finset.card_le_card (strike_mono hmid).1
        omega

end

end EdxPlatform.Split
