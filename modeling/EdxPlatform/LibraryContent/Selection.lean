import Mathlib.Data.Finset.Max
import Mathlib.Order.Interval.Set.Nat

/-!
# Selections of library content

A library content block shows each learner some of its children, chosen at random and remembered.
-/

namespace EdxPlatform.LibraryContent

open Finset (bot_eq_empty card_empty card_eq_zero card_erase_of_mem card_pos empty_subset empty_union
  eq_of_subset_of_card_le erase_subset inter_eq_left inter_subset_right mem_sdiff sdiff_subset subset_erase
  union_empty)

/-- The key of a block in its course. -/
structure UsageKey where
  blockType : String
  blockId : String
  deriving DecidableEq, Repr

abbrev BlockKey := String × String

def UsageKey.blockKey (key : UsageKey) : BlockKey := (key.blockType, key.blockId)

inductive SelectionError where
  | keyError
  | notImplementedError
  deriving DecidableEq, Repr

/-- What `set.pop` and `random.sample` come up with. -/
structure Draw (κ : Type) where
  pop : (values : Finset κ) → values.Nonempty → {value // value ∈ values}
  sample : (pool : Finset κ) → (count : Nat) → count ≤ pool.card → {drawn // drawn ⊆ pool ∧ drawn.card = count}

structure SelectionResult where
  selected : Finset BlockKey
  invalid : Finset BlockKey
  overlimit : Finset BlockKey
  added : Option (Finset BlockKey)
  deriving DecidableEq

variable {κ : Type}

section Loop

variable [DecidableEq κ] (draw : Draw κ) (maxCount : ℤ)

/-- `while len(selected) > max_count: overlimit_block_keys.add(selected.pop())`. -/
def dropOverLimit (selected overlimit : Finset κ) : Except SelectionError (Finset κ × Finset κ) :=
  if maxCount < selected.card then
    if hne : selected.Nonempty then
      let popped := draw.pop selected hne
      dropOverLimit (selected.erase popped) (insert popped.1 overlimit)
    else .error .keyError
  else .ok (selected, overlimit)
termination_by selected.card
decreasing_by exact Finset.card_erase_lt_of_mem (draw.pop selected hne).2

end Loop

def validBlockKeys (children : List UsageKey) : Finset BlockKey := (children.map UsageKey.blockKey).toFinset

def makeSelection (draw : Draw BlockKey) (selected : List BlockKey) (children : List UsageKey) (maxCount : ℤ)
    (mode : String) : Except SelectionError SelectionResult := do
  let invalidBlockKeys := selected.toFinset \ validBlockKeys children
  let (selected, overlimitBlockKeys) ← dropOverLimit draw maxCount (selected.toFinset \ invalidBlockKeys) ∅
  let numToAdd := maxCount - selected.card
  if 0 < numToAdd then
    let pool := validBlockKeys children \ selected
    if mode = "random" then
      let addedBlockKeys := draw.sample pool (min pool.card numToAdd.toNat) (min_le_left _ _)
      return {
        selected := selected ∪ addedBlockKeys
        invalid := invalidBlockKeys
        overlimit := overlimitBlockKeys
        added := some addedBlockKeys.1 }
    else throw .notImplementedError
  else
    return { selected, invalid := invalidBlockKeys, overlimit := overlimitBlockKeys, added := none }

section Loop

variable [DecidableEq κ] (draw : Draw κ) {maxCount : ℤ} {selected : Finset κ}

theorem dropOverLimit_of_le (hle : selected.card ≤ maxCount) (overlimit : Finset κ) :
    dropOverLimit draw maxCount selected overlimit = .ok (selected, overlimit) := by
  rw [dropOverLimit, if_neg (not_lt.mpr hle)]

theorem dropOverLimit_of_lt (hlt : maxCount < selected.card) (hne : selected.Nonempty) (overlimit : Finset κ) :
    dropOverLimit draw maxCount selected overlimit =
      dropOverLimit draw maxCount (selected.erase (draw.pop selected hne))
        (insert (draw.pop selected hne).1 overlimit) := by
  rw [dropOverLimit, if_pos hlt, dif_pos hne]

theorem dropOverLimit_negative (hneg : maxCount < 0) (overlimit : Finset κ) :
    dropOverLimit draw maxCount selected overlimit = .error .keyError := by
  induction hcard : selected.card generalizing selected overlimit with
  | zero =>
    rw [card_eq_zero.mp hcard, dropOverLimit, if_pos (by rwa [card_empty, Nat.cast_zero]),
      dif_neg Finset.not_nonempty_empty]
  | succ count ih =>
    have hne : selected.Nonempty := card_pos.mp (by omega)
    rw [dropOverLimit_of_lt draw (by omega) hne]
    refine ih _ ?_
    rw [card_erase_of_mem (draw.pop selected hne).2, hcard, Nat.add_sub_cancel]

theorem dropOverLimit_returns (hmax : 0 ≤ maxCount) (overlimit : Finset κ) :
    ∃ kept, dropOverLimit draw maxCount selected overlimit = .ok (kept, overlimit ∪ (selected \ kept)) ∧
      kept ⊆ selected ∧ (kept.card : ℤ) = min maxCount selected.card := by
  induction hcard : selected.card generalizing selected overlimit with
  | zero =>
    refine ⟨selected, ?_, subset_rfl, by omega⟩
    rw [dropOverLimit_of_le draw (by omega), sdiff_self, bot_eq_empty, union_empty]
  | succ count ih =>
    by_cases hle : (selected.card : ℤ) ≤ maxCount
    · refine ⟨selected, ?_, subset_rfl, by omega⟩
      rw [dropOverLimit_of_le draw hle, sdiff_self, bot_eq_empty, union_empty]
    · have hne : selected.Nonempty := card_pos.mp (by omega)
      have hpop := (draw.pop selected hne).2
      have herase := card_erase_of_mem hpop
      obtain ⟨kept, hrun, hsub, hkept⟩ := ih (insert (draw.pop selected hne).1 overlimit) (by rw [herase]; omega)
      refine ⟨kept, ?_, hsub.trans (erase_subset _ _), by omega⟩
      rw [dropOverLimit_of_lt draw (by omega) hne, hrun]
      -- The popped key is not kept.
      have hnot : (draw.pop selected hne).1 ∉ kept := fun hmem => Finset.notMem_erase _ _ (hsub hmem)
      congr 2
      ext key
      simp only [Finset.mem_union, Finset.mem_insert, mem_sdiff, Finset.mem_erase]
      by_cases hkey : key = (draw.pop selected hne).1
      · simp [hkey, hnot]
      · simp [hkey]

end Loop

/-! ## What is selected -/

def validSelected (selected : List BlockKey) (children : List UsageKey) : Finset BlockKey :=
  selected.toFinset ∩ validBlockKeys children

/-- The sets that a selection may come to. -/
structure Possible (selected : List BlockKey) (children : List UsageKey) (maxCount : ℤ) (keys : Finset BlockKey) :
    Prop where
  current : keys ⊆ validBlockKeys children
  card_eq : (keys.card : ℤ) = min (max maxCount 0) children.toFinset.card
  keeps : (validSelected selected children).card ≤ maxCount → validSelected selected children ⊆ keys
  drops : maxCount < (validSelected selected children).card → keys ⊆ validSelected selected children

/-- The reported sets say what became of the former selection. -/
structure Reported (selected : List BlockKey) (children : List UsageKey) (result : SelectionResult) : Prop where
  invalid_eq : result.invalid = selected.toFinset \ validBlockKeys children
  overlimit_eq : result.overlimit = validSelected selected children \ result.selected
  added_eq : result.added.getD ∅ = result.selected \ selected.toFinset
  selected_eq : result.selected = (selected.toFinset \ result.invalid) \ result.overlimit ∪ result.added.getD ∅
  disjoint : [(selected.toFinset \ result.invalid) \ result.overlimit, result.invalid, result.overlimit,
    result.added.getD ∅].Pairwise Disjoint

/-- A selection from this one, in whatever order it is stored, changes nothing. -/
def Stable (children : List UsageKey) (maxCount : ℤ) (keys : Finset BlockKey) : Prop :=
  ∀ (draw : Draw BlockKey) (stored : List BlockKey), stored.toFinset = keys →
    ∃ again, makeSelection draw stored children maxCount "random" = .ok again ∧ again.selected = keys ∧
      again.invalid = ∅ ∧ again.overlimit = ∅ ∧ again.added.getD ∅ = ∅

variable (draw : Draw BlockKey) {selected : List BlockKey} {children : List UsageKey} {maxCount : ℤ}

theorem card_validBlockKeys (children : List UsageKey) : (validBlockKeys children).card = children.toFinset.card := by
  have hinj : Function.Injective UsageKey.blockKey := by
    rintro ⟨_, _⟩ ⟨_, _⟩ heq
    cases heq
    rfl
  have himage : validBlockKeys children = children.toFinset.image UsageKey.blockKey := by
    ext key
    simp [validBlockKeys]
  rw [himage, Finset.card_image_of_injective _ hinj]

theorem makeSelection_negative (hneg : maxCount < 0) (mode : String) :
    makeSelection draw selected children maxCount mode = .error .keyError := by
  unfold makeSelection
  dsimp only
  rw [dropOverLimit_negative draw hneg]
  rfl

/-- Otherwise what is kept is as much of the former selection as the limit allows, and is filled up. -/
theorem makeSelection_returns (hmax : 0 ≤ maxCount) :
    ∃ kept result, makeSelection draw selected children maxCount "random" = .ok result ∧
      kept ⊆ validSelected selected children ∧
      (kept.card : ℤ) = min maxCount (validSelected selected children).card ∧
      result.invalid = selected.toFinset \ validBlockKeys children ∧
      result.overlimit = validSelected selected children \ kept ∧
      result.added.getD ∅ ⊆ validBlockKeys children \ kept ∧
      ((result.added.getD ∅).card : ℤ) = min ((validBlockKeys children \ kept).card : ℤ) (maxCount - kept.card) ∧
      result.selected = kept ∪ result.added.getD ∅ := by
  have hval : selected.toFinset \ (selected.toFinset \ validBlockKeys children) = validSelected selected children :=
    sdiff_sdiff_right_self
  obtain ⟨kept, hrun, hsub, hcard⟩ := dropOverLimit_returns draw hmax ∅
  rw [empty_union] at hrun
  unfold makeSelection
  dsimp only
  rw [hval, hrun]
  by_cases hadd : 0 < maxCount - kept.card
  · let drawn := draw.sample (validBlockKeys children \ kept)
      (min (validBlockKeys children \ kept).card (maxCount - kept.card).toNat) (min_le_left _ _)
    refine ⟨kept, ⟨kept ∪ drawn, _, _, some drawn⟩, if_pos hadd, hsub, hcard, rfl, rfl, drawn.2.1, ?_, rfl⟩
    have hdrawn := drawn.2.2
    simp only [Option.getD_some]
    omega
  · refine ⟨kept, ⟨kept, _, _, none⟩, if_neg hadd, hsub, hcard, rfl, rfl, empty_subset _, ?_, ?_⟩
    · simp only [Option.getD_none, card_empty]
      omega
    · rw [Option.getD_none, union_empty]

theorem card_validSelected_le (selected : List BlockKey) (children : List UsageKey) :
    (validSelected selected children).card ≤ children.toFinset.card := by
  rw [← card_validBlockKeys]
  exact Finset.card_le_card inter_subset_right

theorem reported_of_kept {kept : Finset BlockKey} {result : SelectionResult}
    (hkept : kept ⊆ validSelected selected children)
    (hinvalid : result.invalid = selected.toFinset \ validBlockKeys children)
    (hove : result.overlimit = validSelected selected children \ kept)
    (hadded : Disjoint selected.toFinset (result.added.getD ∅))
    (hsel : result.selected = kept ∪ result.added.getD ∅) : Reported selected children result := by
  have hval : selected.toFinset \ result.invalid = validSelected selected children := by
    rw [hinvalid]
    exact sdiff_sdiff_right_self
  have hrest : (selected.toFinset \ result.invalid) \ result.overlimit = kept := by
    rw [hval, hove, Finset.sdiff_sdiff_eq_self hkept]
  have hold : validSelected selected children ⊆ selected.toFinset := Finset.inter_subset_left
  have hnew : Disjoint (validSelected selected children) (result.added.getD ∅) := hadded.mono_left hold
  refine ⟨hinvalid, ?_, ?_, by rw [hrest, hsel], ?_⟩
  · rw [hove, hsel, Finset.sdiff_union_distrib, hnew.sdiff_eq_left]
    exact (inter_eq_left.mpr sdiff_subset).symm
  · rw [hsel, Finset.union_sdiff_distrib, Finset.sdiff_eq_empty_iff_subset.mpr (hkept.trans hold),
      empty_union, hadded.symm.sdiff_eq_left]
  · have hinv : Disjoint result.invalid (validSelected selected children) := by
      rw [hinvalid]
      exact Finset.sdiff_disjoint.mono_right inter_subset_right
    have hover : result.overlimit ⊆ validSelected selected children := by
      rw [hove]
      exact sdiff_subset
    have hinva : result.invalid ⊆ selected.toFinset := by
      rw [hinvalid]
      exact sdiff_subset
    rw [hrest]
    simp only [List.pairwise_cons, List.mem_cons, List.not_mem_nil, or_false, forall_eq_or_imp, forall_eq,
      false_imp_iff, implies_true, List.Pairwise.nil, and_true]
    refine ⟨⟨(hinv.mono_right hkept).symm, ?_, hnew.mono_left hkept⟩,
      ⟨hinv.mono_right hover, hadded.mono_left hinva⟩, hnew.mono_left hover⟩
    rw [hove]
    exact Finset.disjoint_sdiff

theorem makeSelection_possible (hmax : 0 ≤ maxCount) :
    ∃ result, makeSelection draw selected children maxCount "random" = .ok result ∧
      Possible selected children maxCount result.selected ∧ Reported selected children result := by
  obtain ⟨kept, result, hrun, hkept, hcard, hinvalid, hove, hadded, hadde, hsel⟩ := makeSelection_returns draw hmax
  have hkep : kept ⊆ validBlockKeys children := hkept.trans inter_subset_right
  have hdisj : Disjoint kept (result.added.getD ∅) := (Finset.subset_sdiff.mp hadded).2.symm
  have hunion : result.selected.card = kept.card + (result.added.getD ∅).card := by
    rw [hsel, Finset.card_union_of_disjoint hdisj]
  have hpool := Finset.card_sdiff_add_card_eq_card hkep
  have hle := card_validSelected_le selected children
  have hkids := card_validBlockKeys children
  refine ⟨result, hrun, ⟨?_, by omega, fun hfits => ?_, fun hover => ?_⟩, ?_⟩
  · rw [hsel]
    exact Finset.union_subset hkep (hadded.trans sdiff_subset)
  · rw [hsel, eq_of_subset_of_card_le hkept (by omega)]
    exact Finset.subset_union_left
  · have hnone : result.added.getD ∅ = ∅ := card_eq_zero.mp (by omega)
    rw [hsel, hnone, union_empty]
    exact hkept
  · refine reported_of_kept hkept hinvalid hove (Finset.disjoint_left.mpr fun key hold hnew => ?_) hsel
    -- A former key is added only if it is a child that was not kept, but then there is no room.
    obtain ⟨hkey, hnot⟩ := mem_sdiff.mp (hadded hnew)
    have hposi := card_pos.mpr ⟨key, hnew⟩
    have hlt := Finset.card_lt_card (Finset.ssubset_iff_subset_ne.mpr ⟨hkept, fun heq =>
      hnot (heq ▸ Finset.mem_inter.mpr ⟨hold, hkey⟩)⟩)
    omega

theorem possible_of_makeSelection {result : SelectionResult}
    (hres : makeSelection draw selected children maxCount "random" = .ok result) :
    0 ≤ maxCount ∧ Possible selected children maxCount result.selected := by
  by_cases hmax : 0 ≤ maxCount
  · obtain ⟨_, hrun, hposs, -⟩ := makeSelection_possible draw hmax
    rw [hrun] at hres
    cases hres
    exact ⟨hmax, hposs⟩
  · rw [makeSelection_negative draw (not_le.mp hmax)] at hres
    cases hres

variable {keys : Finset BlockKey}

theorem Possible.unique {stored : List BlockKey} (hsto : stored.toFinset = keys)
    (hcur : keys ⊆ validBlockKeys children) (hcard : (keys.card : ℤ) = min (max maxCount 0) children.toFinset.card)
    (hmax : 0 ≤ maxCount) {again : Finset BlockKey}
    (hagain : Possible stored children maxCount again) : again = keys := by
  have hval : validSelected stored children = keys := by
    rw [validSelected, hsto]
    exact inter_eq_left.mpr hcur
  have hsub := hagain.keeps (by rw [hval]; omega)
  rw [hval] at hsub
  have haga := hagain.card_eq
  exact (eq_of_subset_of_card_le hsub (by omega)).symm

theorem Possible.stable (hkeys : Possible selected children maxCount keys)
    (hmax : 0 ≤ maxCount) : Stable children maxCount keys := by
  intro draw stored hsto
  obtain ⟨again, hrun, hagain, hrep⟩ := makeSelection_possible draw hmax
  have heq := Possible.unique hsto hkeys.current hkeys.card_eq hmax hagain
  refine ⟨again, hrun, heq, ?_, ?_, ?_⟩
  · rw [hrep.invalid_eq, hsto]
    exact Finset.sdiff_eq_empty_iff_subset.mpr hkeys.current
  · rw [hrep.overlimit_eq, heq, validSelected, hsto]
    exact Finset.sdiff_eq_empty_iff_subset.mpr Finset.inter_subset_left
  · rw [hrep.added_eq, heq, hsto, sdiff_self, bot_eq_empty]

/-- A selection is right if it is a possible one, is reported, and stays as it is. -/
theorem makeSelection_iff (selected : List BlockKey) (children : List UsageKey) (maxCount : ℤ) (draw : Draw BlockKey) :
    (∃ result, makeSelection draw selected children maxCount "random" = .ok result ∧
      Possible selected children maxCount result.selected ∧ Reported selected children result ∧
      Stable children maxCount result.selected) ↔ 0 ≤ maxCount := by
  constructor
  · rintro ⟨result, hrun, -⟩
    by_contra hneg
    rw [makeSelection_negative draw (not_le.mp hneg)] at hrun
    cases hrun
  · intro hmax
    obtain ⟨result, hrun, hpossible, hreported⟩ := makeSelection_possible draw hmax
    exact ⟨result, hrun, hpossible, hreported, hpossible.stable hmax⟩

/-! ## Every possible set can be drawn -/

section Loop

variable [DecidableEq κ] {target selected : Finset κ} {values : Finset κ}

theorem exists_pop (target : Finset κ) (hne : values.Nonempty) :
    ∃ value, value ∈ values ∧ ((values \ target).Nonempty → value ∉ target) := by
  by_cases hoth : (values \ target).Nonempty
  · obtain ⟨value, hvl⟩ := hoth
    exact ⟨value, (mem_sdiff.mp hvl).1, fun _ => (mem_sdiff.mp hvl).2⟩
  · obtain ⟨value, hvl⟩ := hne
    exact ⟨value, hvl, fun hoth' => absurd hoth' hoth⟩

variable {pool : Finset κ}

theorem exists_sample (target : Finset κ) {count : Nat} (hcnt : count ≤ pool.card) :
    ∃ drawn, (drawn ⊆ pool ∧ drawn.card = count) ∧ ((target ∩ pool).card = count → drawn = target ∩ pool) := by
  by_cases hcard : (target ∩ pool).card = count
  · exact ⟨target ∩ pool, ⟨inter_subset_right, hcard⟩, fun _ => rfl⟩
  · obtain ⟨drawn, hdrawn⟩ := Finset.exists_subset_card_eq hcnt
    exact ⟨drawn, hdrawn, fun hcard' => absurd hcard' hcard⟩

/-- The draw that keeps to a set of keys where it can. -/
noncomputable def Draw.towards (target : Finset κ) : Draw κ where
  pop _ hne := ⟨(exists_pop target hne).choose, (exists_pop target hne).choose_spec.1⟩
  sample _ _ hcount := ⟨(exists_sample target hcount).choose, (exists_sample target hcount).choose_spec.1⟩

theorem Draw.pop_towards (hoth : (values \ target).Nonempty) (hne : values.Nonempty) :
    ((Draw.towards target).pop values hne).1 ∉ target :=
  (exists_pop target hne).choose_spec.2 hoth

theorem Draw.sample_towards {count : Nat} (hcnt : count ≤ pool.card)
    (hcard : (target ∩ pool).card = count) : ((Draw.towards target).sample pool count hcnt).1 = target ∩ pool :=
  (exists_sample target hcnt).choose_spec.2 hcard

theorem dropOverLimit_towards (hsub : target ⊆ selected) (overlimit : Finset κ) :
    ∃ dropped, dropOverLimit (Draw.towards target) target.card selected overlimit = .ok (target, dropped) := by
  induction hcard : selected.card generalizing selected overlimit with
  | zero =>
    have hemp := card_eq_zero.mp hcard
    rw [hemp] at hsub ⊢
    rw [Finset.subset_empty.mp hsub]
    exact ⟨overlimit, dropOverLimit_of_le _ le_rfl _⟩
  | succ count ih =>
    by_cases hle : selected.card ≤ target.card
    · rw [← eq_of_subset_of_card_le hsub hle]
      exact ⟨overlimit, dropOverLimit_of_le _ le_rfl _⟩
    · have hne : selected.Nonempty := card_pos.mp (by omega)
      have hoth : (selected \ target).Nonempty := by
        rw [← card_pos, Finset.card_sdiff_of_subset hsub]
        omega
      rw [dropOverLimit_of_lt _ (by omega) hne]
      refine ih (subset_erase.mpr ⟨hsub, Draw.pop_towards hoth hne⟩) _ ?_
      rw [card_erase_of_mem ((Draw.towards target).pop selected hne).2]
      omega

end Loop

theorem exists_draw (hkeys : Possible selected children maxCount keys) (hmax : 0 ≤ maxCount) :
    ∃ draw result, makeSelection draw selected children maxCount "random" = .ok result ∧ result.selected = keys := by
  have hval : selected.toFinset \ (selected.toFinset \ validBlockKeys children) = validSelected selected children :=
    sdiff_sdiff_right_self
  have hcard := hkeys.card_eq
  have hle := card_validSelected_le selected children
  have hkids := card_validBlockKeys children
  refine ⟨Draw.towards keys, ?_⟩
  unfold makeSelection
  dsimp only
  rw [hval]
  by_cases hfits : (validSelected selected children).card ≤ maxCount
  · have hkeep := hkeys.keeps hfits
    have hsub : validSelected selected children ⊆ validBlockKeys children := inter_subset_right
    rw [dropOverLimit_of_le _ hfits]
    by_cases hadd : 0 < maxCount - (validSelected selected children).card
    · have hpool : keys ∩ (validBlockKeys children \ validSelected selected children) =
          keys \ validSelected selected children := by
        rw [← Finset.inter_sdiff_assoc, inter_eq_left.mpr hkeys.current]
      have hkeysC := Finset.card_sdiff_add_card_eq_card hkeep
      have hpoolC := Finset.card_sdiff_add_card_eq_card hsub
      refine ⟨_, if_pos hadd, ?_⟩
      dsimp only
      rw [Draw.sample_towards _ (by rw [hpool]; omega), hpool, Finset.union_sdiff_of_subset hkeep]
    · have hkeysC : keys.card ≤ (validSelected selected children).card := by omega
      exact ⟨_, if_neg hadd, eq_of_subset_of_card_le hkeep hkeysC⟩
  · obtain rfl : maxCount = keys.card := by omega
    obtain ⟨dropped, hrun⟩ := dropOverLimit_towards (hkeys.drops (not_le.mp hfits)) ∅
    rw [hrun]
    exact ⟨_, if_neg (by rw [sub_self]; exact lt_irrefl 0), rfl⟩

def Forced (selected : List BlockKey) (children : List UsageKey) (maxCount : ℤ) : Prop :=
  maxCount = 0 ∨ children.toFinset.card ≤ maxCount ∨ (validSelected selected children).card = maxCount

theorem exists_two_between {κ : Type} [DecidableEq κ] {lower upper : Finset κ} (count : Nat)
    (hsub : lower ⊆ upper) (hlower : lower.card < count) (hupper : count < upper.card) :
    ∃ first second, first ≠ second ∧ (lower ⊆ first ∧ first ⊆ upper ∧ first.card = count) ∧
      lower ⊆ second ∧ second ⊆ upper ∧ second.card = count := by
  obtain ⟨first, hfst, hwth, hcard⟩ := Finset.exists_subsuperset_card_eq hsub hlower.le hupper.le
  obtain ⟨inner, hinner, hnot⟩ := Finset.exists_mem_notMem_of_card_lt_card (hcard.symm ▸ hlower)
  obtain ⟨outer, houter, hfresh⟩ := Finset.exists_mem_notMem_of_card_lt_card (hcard.symm ▸ hupper)
  refine ⟨first, insert outer (first.erase inner), ?_, ⟨hfst, hwth, hcard⟩, ?_, ?_, ?_⟩
  · exact fun heq => hfresh (heq ▸ Finset.mem_insert_self _ _)
  · exact (subset_erase.mpr ⟨hfst, hnot⟩).trans (Finset.subset_insert _ _)
  · exact Finset.insert_subset houter ((erase_subset _ _).trans hwth)
  · rw [Finset.card_insert_of_notMem fun hmem => hfresh (Finset.mem_of_mem_erase hmem), card_erase_of_mem hinner]
    omega

theorem forced_iff (hmax : 0 ≤ maxCount) :
    (∀ first second, Possible selected children maxCount first → Possible selected children maxCount second →
      first = second) ↔ Forced selected children maxCount := by
  have hle := card_validSelected_le selected children
  have hval : validSelected selected children ⊆ validBlockKeys children := inter_subset_right
  have hkids := card_validBlockKeys children
  constructor
  · intro huniq
    by_contra hnot
    obtain ⟨hzero, hroom, hexact⟩ : maxCount ≠ 0 ∧ ¬ (children.toFinset.card : ℤ) ≤ maxCount ∧
        ((validSelected selected children).card : ℤ) ≠ maxCount := by
      simpa only [Forced, not_or] using hnot
    obtain ⟨count, rfl⟩ := Int.eq_ofNat_of_zero_le hmax
    rcases lt_or_gt_of_ne hexact with hlt | hgt
    · obtain ⟨first, second, hne, ⟨hlower, hupper, hcard⟩, hlower', hupper', hcard'⟩ :=
        exists_two_between count hval (by omega) (by omega)
      exact hne (huniq first second ⟨hupper, by omega, fun _ => hlower, fun hover => by omega⟩
        ⟨hupper', by omega, fun _ => hlower', fun hover => by omega⟩)
    · obtain ⟨first, second, hne, ⟨-, hupper, hcard⟩, -, hupper', hcard'⟩ :=
        exists_two_between count (empty_subset (validSelected selected children))
          (by rw [card_empty]; omega) (by omega)
      exact hne (huniq first second ⟨hupper.trans hval, by omega, fun hfits => by omega, fun _ => hupper⟩
        ⟨hupper'.trans hval, by omega, fun hfits => by omega, fun _ => hupper'⟩)
  · intro hfor first second hfst hsec
    have hcard := hfst.card_eq
    have hcard' := hsec.card_eq
    rcases hfor with rfl | hroom | hexact
    · rw [card_eq_zero.mp (by omega : first.card = 0), card_eq_zero.mp (by omega : second.card = 0)]
    · rw [eq_of_subset_of_card_le hfst.current (by omega), eq_of_subset_of_card_le hsec.current (by omega)]
    · rw [← eq_of_subset_of_card_le (hfst.keeps hexact.le) (by omega),
        ← eq_of_subset_of_card_le (hsec.keeps hexact.le) (by omega)]

/-- With a limit of minus one the empty selection is popped. -/
theorem makeSelection_minus_one :
    makeSelection (Draw.towards ∅) [] [⟨"problem", "algebra"⟩] (-1) "random" = .error .keyError :=
  makeSelection_negative _ (by decide) _

end EdxPlatform.LibraryContent
