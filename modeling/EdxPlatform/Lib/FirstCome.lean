import Mathlib.Data.List.Sort
import EdxPlatform.Lib.ShortNames

/-!
# Pairing by first come

Each comer takes the first place that is left and fits.  When the places are told apart by their numbers, the places
taken so are those of a pairing without crossings: no comer fits an earlier place than its own that a later comer has
or that is left over.
-/

namespace EdxPlatform.FirstCome

variable {α β : Type} (fits : α → β → Bool)

/-- The places that are left when each comer in turn takes the first one that fits, unless a comer finds none. -/
def seat : List α → List β → Option (List β)
  | [], left => some left
  | comer :: comers, left =>
    if left.any (fits comer) then seat comers (left.eraseP (fits comer)) else none

def Paired (comers : List α) (places : List β) : Prop :=
  ∃ order, order.Perm places ∧ List.Forall₂ (fun comer place => fits comer place = true) comers order

/-- Each comer has a place that fits, no comer fits an earlier place than its own that a later comer has. -/
structure Uncrossed (comers : List α) (chosen : List (β × Nat)) : Prop where
  fit : List.Forall₂ (fun comer place => fits comer place.1 = true) comers chosen
  noCrossing : (comers.zip chosen).Pairwise fun first second =>
    second.2.2 < first.2.2 → fits first.1 second.2.1 = false

def LeavesWorse (comers : List α) (chosen left : List (β × Nat)) : Prop :=
  ∀ seated ∈ comers.zip chosen, ∀ place ∈ left, place.2 < seated.2.2 → fits seated.1 place.1 = false

def Numbered (places : List (β × Nat)) : Prop := places.Pairwise fun first second => first.2 < second.2

theorem numbered_zipIdx (places : List β) : Numbered places.zipIdx := by
  have hsort : (places.zipIdx.map Prod.snd).Pairwise (· < ·) := by
    rw [List.zipIdx_map_snd]
    exact List.pairwise_lt_range'
  exact List.pairwise_map.mp hsort

theorem numbered_middle {before after : List (β × Nat)} {first : β × Nat}
    (hnum : Numbered (before ++ first :: after)) :
    Numbered (before ++ after) ∧ (∀ place ∈ before, place.2 < first.2) ∧ ∀ place ∈ after, first.2 < place.2 := by
  rw [Numbered, pairwise_append, pairwise_cons] at hnum
  obtain ⟨hbef, ⟨hfirst, haft⟩, hacr⟩ := hnum
  refine ⟨pairwise_append.mpr ⟨hbef, haft, ?_⟩, ?_, hfirst⟩
  · exact fun place hplace other hoth => hacr place hplace other (mem_cons_of_mem _ hoth)
  · exact fun place hplace => hacr place hplace first mem_cons_self

variable {fits} {comers : List α} {places : List β}

theorem paired_length (hpaired : Paired fits comers places) : comers.length = places.length := by
  obtain ⟨order, hperm, hfit⟩ := hpaired
  rw [hfit.length_eq, hperm.length_eq]

variable {others : List α}

theorem paired_perm_left (hperm : comers.Perm others)
    (hpaired : Paired fits comers places) : Paired fits others places := by
  obtain ⟨order, hord, hfit⟩ := hpaired
  obtain ⟨swapped, hoths, hswap⟩ := List.perm_comp_forall₂ hperm.symm hfit
  exact ⟨swapped, hswap.trans hord, hoths⟩

theorem paired_of_forall₂ (hfit : List.Forall₂ (fun comer place => fits comer place = true) comers places) :
    Paired fits comers places :=
  ⟨places, List.Perm.refl _, hfit⟩

theorem paired_iff_exists_order : Paired fits comers places ↔
      ∃ order, order.Perm comers ∧ List.Forall₂ (fun comer place => fits comer place = true) order places := by
  constructor
  · rintro ⟨order, hord, hfit⟩
    have hcomp : Relation.Comp (List.Forall₂ fun comer place => fits comer place = true) List.Perm comers places :=
      ⟨order, hfit, hord⟩
    rw [List.forall₂_comp_perm_eq_perm_comp_forall₂] at hcomp
    obtain ⟨swapped, hperm, hplac⟩ := hcomp
    exact ⟨swapped, hperm.symm, hplac⟩
  · rintro ⟨order, hord, hfit⟩
    exact paired_perm_left hord (paired_of_forall₂ hfit)

/-! ## Taking turns -/

theorem exists_mem_zip_of_mem {firsts : List α} {seconds : List β} (hlen : firsts.length = seconds.length)
    {second : β} (hmem : second ∈ seconds) : ∃ pair ∈ firsts.zip seconds, pair.2 = second := by
  rw [← map_snd_zip (Nat.le_of_eq hlen.symm)] at hmem
  exact mem_map.mp hmem

theorem seat_append (comers others : List α) (places : List β) :
    seat fits (comers ++ others) places = (seat fits comers places).bind (seat fits others) := by
  induction comers generalizing places with
  | nil => rfl
  | cons comer comers ih =>
    rw [cons_append, seat, seat]
    split
    · exact ih _
    · rfl

variable (fits) in
theorem seat_map (comers : List α) (places : List (β × Nat)) : seat fits comers (places.map Prod.fst) =
      (seat (fun comer (place : β × Nat) => fits comer place.1) comers places).map (List.map Prod.fst) := by
  induction comers generalizing places with
  | nil => rfl
  | cons comer comers ih =>
    rw [seat, seat, List.any_map, List.eraseP_map, ih]
    simp only [comp_def]
    split <;> rfl

theorem exists_of_seat_eq_none (hnone : seat fits comers places = none) :
    ∃ before comer after left, comers = before ++ comer :: after ∧ seat fits before places = some left ∧
      ∀ place ∈ left, fits comer place = false := by
  induction comers generalizing places with
  | nil => cases hnone
  | cons comer comers ih =>
    rw [seat] at hnone
    split at hnone
    · next hany =>
      obtain ⟨before, other, after, left, rfl, hseat, hleft⟩ := ih hnone
      exact ⟨comer :: before, other, after, left, rfl, by rw [seat, if_pos hany, hseat], hleft⟩
    · next hany =>
      rw [not_eq_true, any_eq_false] at hany
      exact ⟨[], comer, comers, places, rfl, rfl, fun place hplace => eq_false_iff.mpr (hany place hplace)⟩

/-- The numbered places, as `seat` sees them. -/
abbrev seatNumbered (fits : α → β → Bool) (comers : List α) (places : List (β × Nat)) : Option (List (β × Nat)) :=
  seat (fun comer (place : β × Nat) => fits comer place.1) comers places

theorem uncrossed_of_seat {places left : List (β × Nat)} (hnum : Numbered places)
    (hseat : seatNumbered fits comers places = some left) :
    ∃ chosen, (chosen ++ left).Perm places ∧ Uncrossed fits comers chosen ∧ LeavesWorse fits comers chosen left := by
  induction comers generalizing places with
  | nil =>
    injection hseat with heq
    exact ⟨[], heq ▸ List.Perm.refl _, ⟨.nil, .nil⟩, by simp [LeavesWorse]⟩
  | cons comer comers ih =>
    rw [seatNumbered, seat] at hseat
    split at hseat
    · next hany =>
      obtain ⟨place, hplace, hfit⟩ := any_eq_true.mp hany
      obtain ⟨first, before, after, hbef, hfirst, rfl, herase⟩ := List.exists_of_eraseP
        (p := fun place : β × Nat => fits comer place.1) hplace hfit
      rw [herase] at hseat
      obtain ⟨hrest, -, hgreat⟩ := numbered_middle hnum
      obtain ⟨chosen, hperm, ⟨hchos, hcros⟩, hworse⟩ := ih hrest hseat
      -- what is left and has a smaller number stands before the place that is taken
      have hsmal : ∀ other ∈ chosen ++ left, other.2 < first.2 → fits comer other.1 = false := by
        intro other hoth hlt
        rcases mem_append.mp (hperm.mem_iff.mp hoth) with hmem | hmem
        · exact eq_false_iff.mpr (hbef other hmem)
        · exact absurd hlt (Nat.not_lt_of_gt (hgreat other hmem))
      refine ⟨first :: chosen, ?_, ⟨.cons hfirst hchos, ?_⟩, ?_⟩
      · exact (hperm.cons first).trans List.perm_middle.symm
      · rw [zip_cons_cons, pairwise_cons]
        refine ⟨fun seated hseated => ?_, hcros⟩
        exact hsmal _ (mem_append_left _ (List.of_mem_zip hseated).2)
      · rw [LeavesWorse, zip_cons_cons, forall_mem_cons]
        exact ⟨fun other hoth => hsmal other (mem_append_right _ hoth), hworse⟩
    · cases hseat

theorem seat_of_uncrossed {places chosen left : List (β × Nat)} (hnum : Numbered places)
    (hperm : (chosen ++ left).Perm places) (huncr : Uncrossed fits comers chosen)
    (hworse : LeavesWorse fits comers chosen left) :
    ∃ rest, seatNumbered fits comers places = some rest ∧ rest.Perm left := by
  induction comers generalizing places chosen with
  | nil =>
    cases huncr.fit
    exact ⟨places, rfl, hperm.symm⟩
  | cons comer comers ih =>
    obtain ⟨hfit, hcros⟩ := huncr
    cases hfit with
    | cons hfirst hchos =>
      rename_i first chosen
      rw [zip_cons_cons, pairwise_cons] at hcros
      rw [LeavesWorse, zip_cons_cons, forall_mem_cons] at hworse
      obtain ⟨before, after, rfl⟩ := append_of_mem (hperm.mem_iff.mp (mem_cons_self (a := first)))
      have hrest : (chosen ++ left).Perm (before ++ after) := (List.perm_cons first).mp (hperm.trans List.perm_middle)
      obtain ⟨hres, hless, -⟩ := numbered_middle hnum
      have hbef : ∀ other ∈ before, ¬ fits comer other.1 = true := by
        intro other hoth
        have hlt := hless other hoth
        rw [not_eq_true]
        rcases mem_append.mp (hrest.mem_iff.mpr (mem_append_left after hoth)) with hmem | hmem
        · obtain ⟨seated, hseated, rfl⟩ := exists_mem_zip_of_mem hchos.length_eq hmem
          exact hcros.1 seated hseated hlt
        · exact hworse.1 other hmem hlt
      have hany : (before ++ first :: after).any (fun place => fits comer place.1) = true :=
        any_eq_true.mpr ⟨first, by simp, hfirst⟩
      rw [seatNumbered, seat, if_pos hany, List.eraseP_append_right _ hbef,
        List.eraseP_cons_of_pos (p := fun place : β × Nat => fits comer place.1) hfirst]
      exact ih hres hrest ⟨hchos, hcros.2⟩ hworse.2

def PairedUncrossed (fits : α → β → Bool) (comers : List α) (places : List β) : Prop :=
  ∃ chosen, chosen.Perm places.zipIdx ∧ Uncrossed fits comers chosen

theorem seat_eq_some_nil_iff : seat fits comers places = some [] ↔ PairedUncrossed fits comers places := by
  have hseat := seat_map fits comers places.zipIdx
  rw [zipIdx_map_fst] at hseat
  rw [hseat, map_eq_some_iff]
  constructor
  · rintro ⟨left, hleft, hnil⟩
    rw [map_eq_nil_iff] at hnil
    obtain ⟨chosen, hperm, huncr, -⟩ := uncrossed_of_seat (numbered_zipIdx places) hleft
    rw [hnil, append_nil] at hperm
    exact ⟨chosen, hperm, huncr⟩
  · rintro ⟨chosen, hperm, huncr⟩
    have hnone : LeavesWorse fits comers chosen [] := by simp [LeavesWorse]
    obtain ⟨rest, hrest, hnil⟩ := seat_of_uncrossed (numbered_zipIdx places) (by rwa [append_nil]) huncr hnone
    exact ⟨rest, hrest, by rw [hnil.eq_nil, map_nil]⟩

theorem paired_of_pairedUncrossed (hpaired : PairedUncrossed fits comers places) : Paired fits comers places := by
  obtain ⟨chosen, hperm, huncr⟩ := hpaired
  refine ⟨chosen.map Prod.fst, ?_, List.forall₂_map_right_iff.mpr huncr.fit⟩
  have hmap := hperm.map Prod.fst
  rwa [zipIdx_map_fst] at hmap

theorem pairedUncrossed_of_forall₂ (hfit : List.Forall₂ (fun comer place => fits comer place = true) comers places) :
    PairedUncrossed fits comers places := by
  have hlen : comers.length = places.zipIdx.length := by rw [List.length_zipIdx, hfit.length_eq]
  refine ⟨places.zipIdx, List.Perm.refl _, ⟨?_, ?_⟩⟩
  · have hmap := List.forall₂_map_right_iff (f := Prod.fst) (l := comers) (u := places.zipIdx)
      (R := fun comer place => fits comer place = true)
    rw [zipIdx_map_fst] at hmap
    exact hmap.mp hfit
  · have hsort : ((comers.zip places.zipIdx).map Prod.snd).Pairwise fun first second => first.2 < second.2 := by
      rw [map_snd_zip (Nat.le_of_eq hlen.symm)]
      exact numbered_zipIdx places
    exact (List.pairwise_map.mp hsort).imp fun hlt hgt => absurd hlt (Nat.not_lt_of_gt hgt)

theorem length_of_seat {left : List β} (hseat : seat fits comers places = some left) :
    places.length = comers.length + left.length := by
  induction comers generalizing places with
  | nil => cases hseat; simp
  | cons comer comers ih =>
    rw [seat] at hseat
    split at hseat
    · next hany =>
      have hlen := ih hseat
      have hpos := List.length_pos_of_ne_nil (ne_nil_of_mem (any_eq_true.mp hany).choose_spec.1)
      rw [List.length_eraseP, if_pos hany] at hlen
      rw [length_cons]
      omega
    · cases hseat

/-- Some of the comers can take places, each the first that fits of its own and those that are left over, so that
one more comer fits none that is left over. -/
def Blocked (fits : α → β → Bool) (comers : List α) (places : List β) : Prop :=
  ∃ comer before taken left, (comer :: before).Subperm comers ∧ (taken ++ left).Perm places.zipIdx ∧
    List.Forall₂ (fun other (place : β × Nat) => fits other place.1 = true ∧
      ∀ free ∈ left, free.2 < place.2 → fits other free.1 = false) before taken ∧
    ∀ free ∈ left, fits comer free.1 = false

theorem blocked_perm (hperm : comers.Perm others)
    (hbloc : Blocked fits comers places) : Blocked fits others places := by
  obtain ⟨comer, before, taken, left, hsub, hrest⟩ := hbloc
  exact ⟨comer, before, taken, left, hperm.subperm_left.mp hsub, hrest⟩

theorem blocked_of_seat_eq_none (hperm : comers.Perm others)
    (hnone : seat fits comers places = none) : Blocked fits others places := by
  have hmap := seat_map fits comers places.zipIdx
  rw [zipIdx_map_fst, hnone, eq_comm, map_eq_none_iff] at hmap
  obtain ⟨before, comer, after, left, rfl, hseat, hleft⟩ := exists_of_seat_eq_none hmap
  obtain ⟨taken, htaken, huncr, hworse⟩ := uncrossed_of_seat (numbered_zipIdx places) hseat
  refine ⟨comer, before, taken, left, ?_, htaken, ?_, hleft⟩
  · have hsub : (before ++ [comer]).Sublist (before ++ comer :: after) :=
      List.Sublist.append_left (List.singleton_sublist.mpr mem_cons_self) before
    exact ((List.perm_append_singleton comer before).symm.subperm.trans hsub.subperm).trans hperm.subperm
  · rw [List.forall₂_iff_zip]
    refine ⟨huncr.fit.length_eq, fun {other place} hmem => ⟨?_, hworse _ hmem⟩⟩
    exact (List.forall₂_iff_zip.mp huncr.fit).2 hmem

/-- Comers with places, each the first that fits of its own and those that are left over, take them when they come
in the order of the places. -/
theorem exists_seat_of_fitting {before : List α} {places taken left : List (β × Nat)} (hnum : Numbered places)
    (hperm : (taken ++ left).Perm places)
    (htaken : List.Forall₂ (fun other (place : β × Nat) => fits other place.1 = true ∧
      ∀ free ∈ left, free.2 < place.2 → fits other free.1 = false) before taken) :
    ∃ order rest, order.Perm before ∧ seatNumbered fits order places = some rest ∧ rest.Perm left := by
  obtain ⟨hlen, hzip⟩ := List.forall₂_iff_zip.mp htaken
  let pairs := (before.zip taken).mergeSort fun first second => first.2.2 ≤ second.2.2
  have hpairs : pairs.Perm (before.zip taken) := List.mergeSort_perm _ _
  have hsort : pairs.Pairwise fun first second => first.2.2 ≤ second.2.2 :=
    (List.pairwise_mergeSort (fun _ _ _ => by simpa using Nat.le_trans)
      (fun first second => by simpa using Nat.le_total first.2.2 second.2.2) _).imp of_decide_eq_true
  have hzipP : (pairs.map Prod.fst).zip (pairs.map Prod.snd) = pairs := (List.zip_of_prod rfl rfl).symm
  have hfst : (pairs.map Prod.fst).Perm before := by
    have hmap := hpairs.map Prod.fst
    rwa [List.map_fst_zip (Nat.le_of_eq hlen)] at hmap
  have hsnd : (pairs.map Prod.snd).Perm taken := by
    have hmap := hpairs.map Prod.snd
    rwa [map_snd_zip (Nat.le_of_eq hlen.symm)] at hmap
  have huncr : Uncrossed fits (pairs.map Prod.fst) (pairs.map Prod.snd) := by
    constructor
    · rw [List.forall₂_map_left_iff, List.forall₂_map_right_iff, List.forall₂_same]
      exact fun pair hpair => (hzip (hpairs.mem_iff.mp hpair)).1
    · rw [hzipP]
      exact hsort.imp fun hle hlt => absurd hlt (Nat.not_lt_of_le hle)
  have hworse : LeavesWorse fits (pairs.map Prod.fst) (pairs.map Prod.snd) left := by
    rw [LeavesWorse, hzipP]
    exact fun pair hpair => (hzip (hpairs.mem_iff.mp hpair)).2
  obtain ⟨rest, hseat, hrest⟩ := seat_of_uncrossed hnum ((hsnd.append_right left).trans hperm) huncr hworse
  exact ⟨pairs.map Prod.fst, rest, hfst, hseat, hrest⟩

theorem exists_seat_eq_none_of_blocked (hbloc : Blocked fits comers places) :
    ∃ order, order.Perm comers ∧ seat fits order places = none := by
  obtain ⟨comer, before, taken, left, ⟨listed, hlis, hsub⟩, hperm, htaken, hleft⟩ := hbloc
  obtain ⟨others, hoths⟩ := hsub.exists_perm_append
  obtain ⟨order, rest, hord, hseat, hrest⟩ := exists_seat_of_fitting (numbered_zipIdx places) hperm htaken
  have hstuck : seatNumbered fits (comer :: others) rest = none := by
    rw [seatNumbered, seat, if_neg]
    simpa using fun place number hplace => hleft _ (hrest.mem_iff.mp hplace)
  refine ⟨order ++ comer :: others, ?_, ?_⟩
  · calc
      (order ++ comer :: others).Perm (before ++ comer :: others) := hord.append_right _
      (before ++ comer :: others).Perm (comer :: before ++ others) := List.perm_middle
      (comer :: before ++ others).Perm (listed ++ others) := hlis.symm.append_right _
      (listed ++ others).Perm comers := hoths.symm
  · have hmap := seat_map fits (order ++ comer :: others) places.zipIdx
    rw [zipIdx_map_fst] at hmap
    rw [hmap, seat_append, ← seatNumbered, hseat]
    exact congrArg (Option.map _) hstuck

theorem forall_seat_iff :
    (∀ order, order.Perm comers → ∃ left, seat fits order places = some left) ↔ ¬ Blocked fits comers places := by
  constructor
  · intro hall hbloc
    obtain ⟨order, hord, hnone⟩ := exists_seat_eq_none_of_blocked hbloc
    obtain ⟨left, hleft⟩ := hall order hord
    rw [hnone] at hleft
    cases hleft
  · intro hbloc order hord
    refine ne_none_iff_exists'.mp fun hnone => hbloc (blocked_of_seat_eq_none hord hnone)

end EdxPlatform.FirstCome
