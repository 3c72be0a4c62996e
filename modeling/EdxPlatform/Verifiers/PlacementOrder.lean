import EdxPlatform.Verifiers.DragAndDrop

/-!
# The order of the placements

A user drops the draggables in some order.  A group whose placements fit its targets in one order need not be
accepted in another: by the exact rule the placements are compared with the targets as they come, and by the
unordered rule each takes the first target that is left.
-/

namespace EdxPlatform

open FirstCome DragAndDrop DragGroup DragAndDrop

open FirstCome (Paired Blocked)

/-- A correct answer in list form, with each draggable in one group. -/
structure DragAnswer where
  groups : List DragGroup
  disjoint : groups.Pairwise fun first second => ∀ draggable ∈ first.draggables, draggable ∉ second.draggables

theorem exists_perm_map_eq {α β : Type} (f : α → β) {arguments : List α} {values : List β}
    (hperm : values.Perm (arguments.map f)) : ∃ order : List α, order.Perm arguments ∧ order.map f = values := by
  have hgraph : List.Forall₂ (fun value argument => value = f argument) (arguments.map f) arguments := by
    rw [List.forall₂_map_left_iff, List.forall₂_same]
    exact fun _ _ => rfl
  obtain ⟨order, hvals, hord⟩ := List.perm_comp_forall₂ hperm hgraph
  have heq : List.Forall₂ Eq values (order.map f) := List.forall₂_map_right_iff.mpr hvals
  rw [List.forall₂_eq_eq_eq] at heq
  exact ⟨order, hord, heq.symm⟩

namespace DragGroup

variable (group : DragGroup)

section

variable (placements : List (String × Position))

/-- Each draggable of the group lies on its own target, and nothing else was dropped. -/
def OnOwnTargets : Prop :=
  ∃ positions, positions.length = group.draggables.length ∧ placements.Perm (group.draggables.zip positions) ∧
    List.Forall₂ (fun target position => positionsCompare target position = true) group.targets positions

/-- The rule of the group, where the exact rule tells the draggables apart. -/
def Satisfied : Prop :=
  group.targets ≠ [] ∧ match group.rule with
    | .exact => group.OnOwnTargets placements
    | rule => comparePositions group.targets (placements.map Prod.snd) rule = true

def Fits : Prop :=
  group.targets ≠ [] ∧ match group.rule with
    | .anyof => ∀ placement ∈ placements, ∃ target ∈ group.targets, positionsCompare placement.2 target = true
    | _ => PairedEqually (placements.map Prod.snd) group.targets

def Free : Prop :=
  match group.rule with
  | .exact =>
    (placements.map Prod.fst).Perm group.draggables ∧
      ∀ placement ∈ placements, ∀ target ∈ group.targets, positionsCompare placement.2 target = true
  | .anyof => True
  | .unorderedEqual => ¬ Blocked positionsCompare (placements.map Prod.snd) group.targets

def SameDraggables : Prop :=
  group.draggables.Perm (if group.number then placements.map Prod.fst else (placements.map Prod.fst).dedup)

/-- The group follows its rule in the order in which the user dropped its draggables. -/
def Follows : Prop := group.targets ≠ [] ∧ comparePositions group.targets (placements.map Prod.snd) group.rule = true

end

variable {group} {userAnswer others : List Placement} {placements order : List (String × Position)}

variable (group) in
theorem placements_perm (hperm : userAnswer.Perm others) :
    (group.placements userAnswer).Perm (group.placements others) :=
  (hperm.map _).filter _

theorem sameDraggables_perm (hperm : placements.Perm order) (hsame : group.SameDraggables placements) :
    group.SameDraggables order := by
  rw [SameDraggables] at hsame ⊢
  refine hsame.trans ?_
  split
  · exact hperm.map _
  · exact (hperm.map _).dedup

theorem fits_perm (hperm : placements.Perm order) (hfits : group.Fits placements) : group.Fits order := by
  refine ⟨hfits.1, ?_⟩
  cases hrule : group.rule with
  | anyof =>
    have hany := hfits.2
    rw [hrule] at hany
    exact fun placement hplac => hany placement (hperm.mem_iff.mpr hplac)
  | exact =>
    have hpaired := hfits.2
    rw [hrule] at hpaired
    exact paired_perm_left (hperm.map _) hpaired
  | unorderedEqual =>
    have hpaired := hfits.2
    rw [hrule] at hpaired
    exact paired_perm_left (hperm.map _) hpaired

theorem follows_iff_exact (hrule : group.rule = .exact) : group.Follows placements ↔
    group.targets ≠ [] ∧ List.Forall₂ (fun target position => positionsCompare target position = true) group.targets
      (placements.map Prod.snd) := by
  rw [Follows, hrule, comparePositions, and_eq_true, decide_eq_true_eq, all_eq_true, List.forall₂_iff_zip]
  simp only [Prod.forall]

theorem follows_iff_anyof (hrule : group.rule = .anyof) : group.Follows placements ↔ group.targets ≠ [] ∧
      ∀ placement ∈ placements, ∃ target ∈ group.targets, positionsCompare placement.2 target = true := by
  rw [Follows, hrule, comparePositions, List.all_map, all_eq_true]
  simp only [comp_apply, any_eq_true]

theorem follows_iff_unordered (hrule : group.rule = .unorderedEqual) : group.Follows placements ↔
    group.targets ≠ [] ∧ PairedInTurn (placements.map Prod.snd) group.targets := by
  rw [Follows, hrule, comparePositions_unorderedEqual]

theorem forall₂_comm {first second : List Position} :
    List.Forall₂ (fun target position => positionsCompare target position = true) first second ↔
      List.Forall₂ (fun target position => positionsCompare target position = true) second first := by
  constructor
  · exact fun hequal => hequal.flip.imp fun _ _ h => positionsCompare_comm _ _ ▸ h
  · exact fun hequal => hequal.flip.imp fun _ _ h => positionsCompare_comm _ _ ▸ h

theorem fits_of_follows (hfol : group.Follows placements) : group.Fits placements := by
  cases hrule : group.rule with
  | exact =>
    obtain ⟨htar, hequal⟩ := (follows_iff_exact hrule).mp hfol
    refine ⟨htar, ?_⟩
    rw [hrule]
    exact paired_of_forall₂ (forall₂_comm.mp hequal)
  | anyof =>
    obtain ⟨htar, hany⟩ := (follows_iff_anyof hrule).mp hfol
    refine ⟨htar, ?_⟩
    rw [hrule]
    exact hany
  | unorderedEqual =>
    obtain ⟨htar, hpaired⟩ := (follows_iff_unordered hrule).mp hfol
    refine ⟨htar, ?_⟩
    rw [hrule]
    exact paired_of_pairedUncrossed hpaired

theorem exists_follows_of_fits (hfits : group.Fits placements) :
    ∃ order, order.Perm placements ∧ group.Follows order := by
  obtain ⟨htar, hpaired⟩ := hfits
  have hlis (hpaired : PairedEqually (placements.map Prod.snd) group.targets) :
      ∃ order : List (String × Position), order.Perm placements ∧
        List.Forall₂ (fun position target => positionsCompare position target = true) (order.map Prod.snd)
          group.targets := by
    obtain ⟨positions, hperm, hequal⟩ := paired_iff_exists_order.mp hpaired
    obtain ⟨order, hord, rfl⟩ := exists_perm_map_eq Prod.snd hperm
    exact ⟨order, hord, hequal⟩
  cases hrule : group.rule with
  | exact =>
    rw [hrule] at hpaired
    obtain ⟨order, hord, hequal⟩ := hlis hpaired
    exact ⟨order, hord, (follows_iff_exact hrule).mpr ⟨htar, forall₂_comm.mp hequal⟩⟩
  | anyof =>
    rw [hrule] at hpaired
    exact ⟨placements, List.Perm.refl _, (follows_iff_anyof hrule).mpr ⟨htar, hpaired⟩⟩
  | unorderedEqual =>
    rw [hrule] at hpaired
    obtain ⟨order, hord, hequal⟩ := hlis hpaired
    exact ⟨order, hord, (follows_iff_unordered hrule).mpr ⟨htar, pairedUncrossed_of_forall₂ hequal⟩⟩

/-! ## Groups that are free -/

theorem free_perm (hperm : placements.Perm order) (hfree : group.Free placements) : group.Free order := by
  rw [Free] at hfree ⊢
  cases hrule : group.rule with
  | exact =>
    rw [hrule] at hfree
    exact ⟨(hperm.map _).symm.trans hfree.1, fun placement hplac => hfree.2 placement (hperm.mem_iff.mpr hplac)⟩
  | anyof => trivial
  | unorderedEqual =>
    rw [hrule] at hfree
    exact fun hbloc => hfree (blocked_perm (hperm.map _).symm hbloc)

theorem follows_of_free (hfits : group.Fits placements) (hfree : group.Free placements) :
    group.Follows placements := by
  obtain ⟨htar, hpaired⟩ := hfits
  rw [Free] at hfree
  cases hrule : group.rule with
  | exact =>
    rw [hrule] at hfree hpaired
    refine (follows_iff_exact hrule).mpr ⟨htar, forall₂_comm.mp (List.forall₂_iff_zip.mpr ⟨?_, ?_⟩)⟩
    · exact paired_length hpaired
    · intro position target hmem
      obtain ⟨hpos, htgt⟩ := List.of_mem_zip hmem
      obtain ⟨placement, hplac, rfl⟩ := mem_map.mp hpos
      exact hfree.2 placement hplac target htgt
  | anyof =>
    rw [hrule] at hpaired
    exact (follows_iff_anyof hrule).mpr ⟨htar, hpaired⟩
  | unorderedEqual =>
    rw [hrule] at hfree hpaired
    obtain ⟨left, hseat⟩ := forall_seat_iff.mpr hfree _ (List.Perm.refl _)
    have hlen := length_of_seat hseat
    have hnil : left = [] := length_eq_zero_iff.mp (by have := paired_length hpaired; omega)
    exact (follows_iff_unordered hrule).mpr ⟨htar, seat_eq_some_nil_iff.mp (hnil ▸ hseat)⟩

theorem onOwnTargets_of_free (hrule : group.rule = .exact) (hfits : group.Fits placements)
    (hfree : group.Free placements) : group.OnOwnTargets placements := by
  have hfol := follows_of_free hfits hfree
  rw [Free, hrule] at hfree
  obtain ⟨order, hord, hnames⟩ := exists_perm_map_eq Prod.fst hfree.1.symm
  refine ⟨order.map Prod.snd, by rw [← hnames, length_map, length_map], ?_, ?_⟩
  · rw [← hnames, ← List.zip_of_prod rfl rfl]
    exact hord.symm
  · have hlen := ((follows_iff_exact hrule).mp hfol).2.length_eq
    refine List.forall₂_iff_zip.mpr ⟨?_, ?_⟩
    · rw [hlen, length_map, length_map, hord.length_eq]
    · intro target position hmem
      obtain ⟨htgt, hpos⟩ := List.of_mem_zip hmem
      obtain ⟨placement, hplac, rfl⟩ := mem_map.mp hpos
      rw [positionsCompare_comm]
      exact hfree.2 placement (hord.mem_iff.mp hplac) target htgt

theorem fits_of_onOwnTargets (hrule : group.rule = .exact) (htar : group.targets ≠ [])
    (hown : group.OnOwnTargets placements) : group.Fits placements := by
  obtain ⟨positions, hlen, hperm, hequal⟩ := hown
  refine ⟨htar, ?_⟩
  rw [hrule]
  have hmap := hperm.map Prod.snd
  rw [map_snd_zip (Nat.le_of_eq hlen)] at hmap
  exact paired_perm_left hmap.symm (paired_of_forall₂ (forall₂_comm.mp hequal))

theorem free_of_forall_follows (hown : group.rule = .exact → group.OnOwnTargets placements)
    (hall : ∀ order, order.Perm placements → group.Follows order) : group.Free placements := by
  rw [Free]
  cases hrule : group.rule with
  | exact =>
    obtain ⟨positions, hlen, hperm, -⟩ := hown hrule
    refine ⟨?_, fun placement hplac target htgt => ?_⟩
    · have hmap := hperm.map Prod.fst
      rwa [List.map_fst_zip (Nat.le_of_eq hlen.symm)] at hmap
    · -- the placement comes at the target's place
      let rest := placements.erase placement
      have hrest : placements.Perm (placement :: rest) := List.perm_cons_erase hplac
      obtain ⟨before, after, hspl⟩ := append_of_mem htgt
      have hcnt := ((follows_iff_exact hrule).mp (hall placements (List.Perm.refl _))).2.length_eq
      have hord : (rest.take before.length ++ placement :: rest.drop before.length).Perm placements := by
        refine (List.perm_middle.trans ?_).trans hrest.symm
        rw [take_append_drop]
      have hequal := ((follows_iff_exact hrule).mp (hall _ hord)).2
      have hbef : before.length = ((rest.take before.length).map Prod.snd).length := by
        have hlen := hrest.length_eq
        rw [hspl, length_append, length_map, hlen] at hcnt
        rw [length_map, List.length_take]
        simp only [length_cons] at hcnt
        omega
      rw [hspl, map_append, map_cons] at hequal
      have hpair : positionsCompare target placement.2 = true := by
        refine (List.forall₂_iff_zip.mp hequal).2 ?_
        rw [List.zip_append hbef, zip_cons_cons]
        exact mem_append_right _ mem_cons_self
      rwa [positionsCompare_comm]
  | anyof => trivial
  | unorderedEqual =>
    refine forall_seat_iff.mp fun positions hposi => ?_
    obtain ⟨order, hord, rfl⟩ := exists_perm_map_eq Prod.snd hposi
    exact ⟨[], seat_eq_some_nil_iff.mpr ((follows_iff_unordered hrule).mp (hall order hord)).2⟩

theorem placements_append (first second : List Placement) :
    group.placements (first ++ second) = group.placements first ++ group.placements second := by
  rw [placements, flatUserAnswer, map_append, filter_append]
  rfl

theorem placements_eq_map (userAnswer : List Placement) : group.placements userAnswer =
    (userAnswer.filter fun placement => placement.draggable ∈ group.draggables).map parseUserAnswer := by
  have hname : ∀ placement : Placement, (parseUserAnswer placement).1 = placement.draggable := by
    rintro ⟨draggable, _ | _⟩ <;> rfl
  rw [placements, flatUserAnswer, List.filter_map]
  simp only [comp_def, hname]

theorem placements_eq_nil (hnot : ∀ placement ∈ userAnswer, placement.draggable ∉ group.draggables) :
    group.placements userAnswer = [] := by
  rw [placements_eq_map, map_eq_nil_iff, filter_eq_nil_iff]
  simpa using hnot

theorem exists_placements_eq (hord : order.Perm (group.placements userAnswer)) : ∃ first : List Placement,
      first.Perm (userAnswer.filter fun placement => placement.draggable ∈ group.draggables) ∧
        group.placements first = order := by
  rw [placements_eq_map] at hord
  obtain ⟨first, hfst, hmap⟩ := exists_perm_map_eq parseUserAnswer hord
  refine ⟨first, hfst, ?_⟩
  rw [placements_eq_map, filter_eq_self.mpr, hmap]
  intro placement hplac
  exact (mem_filter.mp (hfst.mem_iff.mp hplac)).2

theorem exists_order {groups : List DragGroup} {good : DragGroup → List (String × Position) → Prop}
    (hdisj : groups.Pairwise fun first second => ∀ draggable ∈ first.draggables, draggable ∉ second.draggables)
    (hgood : ∀ group ∈ groups, ∃ order, order.Perm (group.placements userAnswer) ∧ good group order) :
    ∃ others, others.Perm userAnswer ∧ ∀ group ∈ groups, good group (group.placements others) := by
  induction groups with
  | nil => exact ⟨userAnswer, List.Perm.refl _, by simp⟩
  | cons group groups ih =>
    rw [pairwise_cons] at hdisj
    rw [forall_mem_cons] at hgood
    obtain ⟨others, hoths, hrest⟩ := ih hdisj.2 hgood.2
    obtain ⟨order, hord, hgrp⟩ := hgood.1
    obtain ⟨first, hfst, rfl⟩ := exists_placements_eq (hord.trans (placements_perm group hoths.symm))
    have hnone : group.placements (others.filter fun placement => placement.draggable ∉ group.draggables) = [] :=
      placements_eq_nil fun placement hplac => of_decide_eq_true (mem_filter.mp hplac).2
    refine ⟨first ++ others.filter fun placement => placement.draggable ∉ group.draggables, ?_, ?_⟩
    · refine ((hfst.append_right _).trans ?_).trans hoths
      simpa using List.filter_append_perm (fun placement => decide (placement.draggable ∈ group.draggables)) others
    · rw [forall_mem_cons]
      refine ⟨by rwa [placements_append, hnone, append_nil], fun other hoth => ?_⟩
      have hfir : other.placements first = [] := placements_eq_nil fun placement hplac =>
        hdisj.1 other hoth _ (of_decide_eq_true (mem_filter.mp (hfst.mem_iff.mp hplac)).2)
      have hsame : other.placements (others.filter fun placement => placement.draggable ∉ group.draggables) =
          other.placements others := by
        rw [placements_eq_map, placements_eq_map, filter_filter]
        congr 1
        refine filter_congr fun placement _ => ?_
        rw [Bool.and_eq_left_iff_imp]
        intro hmem
        exact decide_eq_true fun hgrp => hdisj.1 other hoth _ hgrp (of_decide_eq_true hmem)
      rw [placements_append, hfir, nil_append, hsame]
      exact hrest other hoth

end DragGroup

/-! ## The verdict -/

namespace DragAnswer

variable (answer : DragAnswer) (userAnswer : List Placement)

def grade : Bool := (DragAndDrop.init answer.groups userAnswer).grade

def NoExcess : Prop := ∀ placement ∈ userAnswer, ∃ group ∈ answer.groups, placement.draggable ∈ group.draggables

/-- The verdict is the same in every order of the placements, and it is that each group has its draggables and
follows its rule, by the exact rule that each draggable lies on its own target. -/
def GradesPlacements : Prop :=
  (∀ others, others.Perm userAnswer → answer.grade others = answer.grade userAnswer) ∧
    (answer.grade userAnswer = true ↔ answer.NoExcess userAnswer ∧ ∀ group ∈ answer.groups,
      group.SameDraggables (group.placements userAnswer) ∧ group.Satisfied (group.placements userAnswer))

/-- Where the placements could be accepted in some order, each group is free to come in any. -/
def FreeWhereFitting : Prop :=
  (answer.NoExcess userAnswer ∧ ∀ group ∈ answer.groups,
      group.SameDraggables (group.placements userAnswer) ∧ group.Fits (group.placements userAnswer)) →
    ∀ group ∈ answer.groups, group.Free (group.placements userAnswer)

variable {answer userAnswer} {others : List Placement}

theorem sameDraggables_iff (group : DragGroup) (placements : List (String × Position)) :
    sameDraggables ⟨group, placements.map Prod.fst, placements.map Prod.snd⟩ = true ↔
      group.SameDraggables placements := by
  rw [sameDraggables, decide_eq_true_eq, sortedBy_eq_iff injective_id]
  rfl

theorem grade_iff : answer.grade userAnswer = true ↔ answer.NoExcess userAnswer ∧ ∀ group ∈ answer.groups,
    group.SameDraggables (group.placements userAnswer) ∧ group.Follows (group.placements userAnswer) := by
  have hexc : (init answer.groups userAnswer).excessDraggables.any Prod.snd = false ↔
      answer.NoExcess userAnswer := by
    rw [init, List.any_map, any_eq_false, NoExcess]
    simp
  have hgrps (test : GradedGroup → Bool) : (init answer.groups userAnswer).groups.all test = true ↔
      ∀ group ∈ answer.groups, test ⟨group, (group.placements userAnswer).map Prod.fst,
        (group.placements userAnswer).map Prod.snd⟩ = true := by
    rw [init, List.all_map, all_eq_true]
    rfl
  have hfol (group : DragGroup) : followsRule ⟨group, (group.placements userAnswer).map Prod.fst,
      (group.placements userAnswer).map Prod.snd⟩ = true ↔ group.Follows (group.placements userAnswer) := by
    rw [followsRule, and_eq_true, decide_eq_true_eq]
    rfl
  rw [grade, DragAndDrop.grade, ← hexc]
  simp only [forall_and, ← sameDraggables_iff, ← hfol, ← hgrps]
  split
  · next h => simp [h]
  · next h =>
    split
    · next hsame => simp only [not_eq_true'] at hsame; simp [hsame]
    · next hsame => simp only [not_eq_true', not_eq_false] at hsame; simp [h, hsame]

theorem noExcess_perm (hperm : userAnswer.Perm others) (hno : answer.NoExcess userAnswer) : answer.NoExcess others :=
  fun placement hplac => hno placement (hperm.mem_iff.mpr hplac)

variable {group : DragGroup} {placements : List (String × Position)}

theorem satisfied_iff (hrule : group.rule ≠ .exact) : group.Satisfied placements ↔ group.Follows placements := by
  rw [DragGroup.Satisfied, DragGroup.Follows]
  cases h : group.rule with
  | exact => exact absurd h hrule
  | anyof => rfl
  | unorderedEqual => rfl

theorem fits_of_satisfied (hsat : group.Satisfied placements) : group.Fits placements := by
  by_cases hrule : group.rule = .exact
  · obtain ⟨htar, hown⟩ := hsat
    rw [hrule] at hown
    exact fits_of_onOwnTargets hrule htar hown
  · exact fits_of_follows ((satisfied_iff hrule).mp hsat)

theorem satisfied_of_free
    (hfits : group.Fits placements) (hfree : group.Free placements) : group.Satisfied placements := by
  by_cases hrule : group.rule = .exact
  · refine ⟨hfits.1, ?_⟩
    rw [hrule]
    exact onOwnTargets_of_free hrule hfits hfree
  · exact (satisfied_iff hrule).mpr (follows_of_free hfits hfree)

theorem exists_grade (hno : answer.NoExcess userAnswer) (hfits : ∀ group ∈ answer.groups,
    group.SameDraggables (group.placements userAnswer) ∧ group.Fits (group.placements userAnswer)) :
    ∃ others, others.Perm userAnswer ∧ answer.grade others = true := by
  obtain ⟨others, hoths, hfol⟩ := exists_order answer.disjoint
    fun group hgrp => exists_follows_of_fits (hfits group hgrp).2
  refine ⟨others, hoths, grade_iff.mpr ⟨noExcess_perm hoths.symm hno, fun group hgrp => ?_⟩⟩
  have hplace := group.placements_perm hoths.symm
  exact ⟨sameDraggables_perm hplace (hfits group hgrp).1, hfol group hgrp⟩

theorem exists_order_of_group {order : List (String × Position)} (hord : order.Perm (group.placements userAnswer)) :
    ∃ others : List Placement, others.Perm userAnswer ∧ group.placements others = order := by
  have hgrps : [group].Pairwise fun first second =>
      ∀ draggable ∈ first.draggables, draggable ∉ second.draggables := List.pairwise_singleton _ _
  have hgood : ∀ other ∈ [group], ∃ placements, placements.Perm (other.placements userAnswer) ∧
      (other = group → placements = order) :=
    fun other hoth => ⟨order, by rwa [mem_singleton.mp hoth], fun _ => rfl⟩
  obtain ⟨others, hoths, hplace⟩ := exists_order hgrps hgood
  exact ⟨others, hoths, hplace group (mem_singleton.mpr rfl) rfl⟩

theorem freeWhereFitting_of_gradesPlacements (hgrad : answer.GradesPlacements userAnswer) :
    answer.FreeWhereFitting userAnswer := by
  obtain ⟨hsame, hgrd⟩ := hgrad
  rintro ⟨hno, hfits⟩ group hgrp
  obtain ⟨accepted, haccd, htrue⟩ := exists_grade hno hfits
  rw [hsame accepted haccd] at htrue
  refine free_of_forall_follows (fun hrule => ?_) fun order hord => ?_
  · have hown := ((hgrd.mp htrue).2 group hgrp).2.2
    rw [hrule] at hown
    exact hown
  · obtain ⟨others, hoths, rfl⟩ := exists_order_of_group hord
    rw [← hsame others hoths, grade_iff] at htrue
    exact (htrue.2 group hgrp).2

theorem grade_of_free (hno : answer.NoExcess userAnswer)
    (hgrps : ∀ group ∈ answer.groups, group.SameDraggables (group.placements userAnswer) ∧
      group.Fits (group.placements userAnswer) ∧ group.Free (group.placements userAnswer))
    (hperm : others.Perm userAnswer) : answer.grade others = true := by
  refine grade_iff.mpr ⟨noExcess_perm hperm.symm hno, fun group hgrp => ?_⟩
  obtain ⟨hsame, hfits, hfree⟩ := hgrps group hgrp
  have hplace := group.placements_perm hperm.symm
  exact ⟨sameDraggables_perm hplace hsame,
    follows_of_free (fits_perm hplace hfits) (free_perm hplace hfree)⟩

theorem fits_of_grade (hgrd : answer.grade others = true) (hperm : others.Perm userAnswer) :
    answer.NoExcess userAnswer ∧ ∀ group ∈ answer.groups,
      group.SameDraggables (group.placements userAnswer) ∧ group.Fits (group.placements userAnswer) := by
  obtain ⟨hno, hgrps⟩ := grade_iff.mp hgrd
  refine ⟨noExcess_perm hperm hno, fun group hgrp => ?_⟩
  have hplace := group.placements_perm hperm
  exact ⟨sameDraggables_perm hplace (hgrps group hgrp).1,
    fits_perm hplace (fits_of_follows (hgrps group hgrp).2)⟩

/-- The verdict is the same in every order, and right, just when fitting groups are free. -/
theorem gradesPlacements_iff : answer.GradesPlacements userAnswer ↔ answer.FreeWhereFitting userAnswer := by
  refine ⟨freeWhereFitting_of_gradesPlacements, fun hfree => ?_⟩
  by_cases hfits : answer.NoExcess userAnswer ∧ ∀ group ∈ answer.groups,
      group.SameDraggables (group.placements userAnswer) ∧ group.Fits (group.placements userAnswer)
  · have htrue : ∀ others, others.Perm userAnswer → answer.grade others = true := fun others =>
      grade_of_free hfits.1 fun group hgroup =>
        ⟨(hfits.2 group hgroup).1, (hfits.2 group hgroup).2, hfree hfits group hgroup⟩
    have hself := htrue userAnswer (List.Perm.refl _)
    refine ⟨fun others hothers => by rw [htrue others hothers, hself], iff_of_true hself ⟨hfits.1, ?_⟩⟩
    exact fun group hgroup => ⟨(hfits.2 group hgroup).1,
      satisfied_of_free (hfits.2 group hgroup).2 (hfree hfits group hgroup)⟩
  · have hfalse : ∀ others, others.Perm userAnswer → answer.grade others = false := fun others hothers =>
      eq_false_iff.mpr fun htrue => hfits (fits_of_grade htrue hothers)
    have hself := hfalse userAnswer (List.Perm.refl _)
    refine ⟨fun others hothers => by rw [hfalse others hothers, hself], ?_⟩
    rw [hself]
    refine iff_of_false false_ne_true fun ⟨hno, hgroups⟩ => hfits ⟨hno, fun group hgroup => ?_⟩
    exact ⟨(hgroups group hgroup).1, fits_of_satisfied (hgroups group hgroup).2⟩

def twoTargets : DragAnswer where
  groups := [{ draggables := ["1", "2"], targets := [.target "t1", .target "t2"], rule := .exact }]
  disjoint := List.pairwise_singleton _ _

/-- By the exact rule the placements are accepted only in the author's order. -/
theorem twoTargets_not_gradesPlacements : twoTargets.grade [⟨"1", .target [] "t1"⟩, ⟨"2", .target [] "t2"⟩] = true ∧
      twoTargets.grade [⟨"2", .target [] "t2"⟩, ⟨"1", .target [] "t1"⟩] = false ∧
      ¬ twoTargets.GradesPlacements [⟨"2", .target [] "t2"⟩, ⟨"1", .target [] "t1"⟩] := by
  have haccepted : twoTargets.grade [⟨"1", .target [] "t1"⟩, ⟨"2", .target [] "t2"⟩] = true := by decide +kernel
  have hrefused : twoTargets.grade [⟨"2", .target [] "t2"⟩, ⟨"1", .target [] "t1"⟩] = false := by decide +kernel
  refine ⟨haccepted, hrefused, fun hgrades => ?_⟩
  have hsame := hgrades.1 _ (List.Perm.swap _ _ [])
  rw [haccepted, hrefused] at hsame
  exact absurd hsame Bool.noConfusion

end DragAnswer

end EdxPlatform
