import Mathlib.Data.List.Sort
import Mathlib.Data.String.Basic
import EdxPlatform.Lib.ShortNames

/-!
# Lists sorted by a key

The operations of a sorted list with a key function, by what is documented of them.  The state of
a sorted list is the list of its values.
-/

namespace EdxPlatform

variable {α κ : Type} [LinearOrder κ]

def SortedBy (key : α → κ) (values : List α) : Prop := values.Pairwise fun first second => key first ≤ key second

def StrictlySortedBy (key : α → κ) (values : List α) : Prop :=
  values.Pairwise fun first second => key first < key second

instance (key : α → κ) (values : List α) : Decidable (SortedBy key values) := by
  unfold SortedBy
  infer_instance

instance (key : α → κ) (values : List α) : Decidable (StrictlySortedBy key values) := by
  unfold StrictlySortedBy
  infer_instance

/-- The operations of a sorted list.  One that returns nothing raises `ValueError`. -/
structure SortedLists (α κ : Type) where
  update : (α → κ) → List α → List α → List α
  add : (α → κ) → List α → α → List α
  bisectLeft : (α → κ) → List α → κ → Nat
  bisectRight : (α → κ) → List α → κ → Nat
  setItem : (α → κ) → List α → Nat → α → Option (List α)
  extend : (α → κ) → List α → List α → Option (List α)
  pop : List α → Nat → List α

/-- What is documented of the operations, on a list that is sorted. -/
structure SortedLists.Documented (lists : SortedLists α κ) : Prop where
  update : ∀ key values added, SortedBy key values →
    SortedBy key (lists.update key values added) ∧ (lists.update key values added).Perm (values ++ added)
  add : ∀ key values value, SortedBy key values →
    SortedBy key (lists.add key values value) ∧ (lists.add key values value).Perm (value :: values)
  bisectLeft : ∀ key values point, SortedBy key values → ∃ before after,
    values = before ++ after ∧ lists.bisectLeft key values point = before.length ∧
    (∀ value ∈ before, key value < point) ∧ ∀ value ∈ after, point ≤ key value
  bisectRight : ∀ key values point, SortedBy key values → ∃ before after,
    values = before ++ after ∧ lists.bisectRight key values point = before.length ∧
    (∀ value ∈ before, key value ≤ point) ∧ ∀ value ∈ after, point < key value
  setItem : ∀ key values index value, SortedBy key values → index < values.length →
    lists.setItem key values index value =
      if SortedBy key (values.set index value) then some (values.set index value) else none
  extend : ∀ key values added, SortedBy key values → lists.extend key values added =
      if SortedBy key (values ++ added) then some (values ++ added) else none
  pop : ∀ values index, index < values.length → lists.pop values index = values.eraseIdx index

/-! ## Values by their keys -/

def lookupBy (key : α → κ) (point : κ) (values : List α) : Option α := values.find? fun value => key value = point

variable {key : α → κ} {values : List α} {point : κ}

theorem StrictlySortedBy.sortedBy (hsort : StrictlySortedBy key values) : SortedBy key values :=
  List.Pairwise.imp le_of_lt hsort

theorem StrictlySortedBy.nodup (hsort : StrictlySortedBy key values) : (values.map key).Nodup :=
  List.pairwise_map.mpr (List.Pairwise.imp ne_of_lt hsort)

theorem SortedBy.strictly (hsort : SortedBy key values) (hnod : (values.map key).Nodup) :
    StrictlySortedBy key values :=
  (List.Pairwise.and hsort (List.pairwise_map.mp hnod)).imp fun h => lt_of_le_of_ne h.1 h.2

theorem lookupBy_eq_none : lookupBy key point values = none ↔ ∀ value ∈ values, key value ≠ point := by
  unfold lookupBy
  rw [List.find?_eq_none]
  simp

theorem lookupBy_eq_some (hnod : (values.map key).Nodup) {value : α} :
    lookupBy key point values = some value ↔ value ∈ values ∧ key value = point := by
  constructor
  · intro hlook
    have hfnd : key value = point := of_decide_eq_true (find?_some (p := fun value => key value = point) hlook)
    exact ⟨mem_of_find?_eq_some hlook, hfnd⟩
  · rintro ⟨hmem, hkey⟩
    cases hlook : lookupBy key point values with
    | none => exact absurd hkey (lookupBy_eq_none.mp hlook value hmem)
    | some found =>
      have hfnd : key found = point := of_decide_eq_true (find?_some (p := fun value => key value = point) hlook)
      rw [inj_on_of_nodup_map hnod (mem_of_find?_eq_some hlook) hmem (hfnd.trans hkey.symm)]

theorem lookupBy_of_perm {value : α} {added : List α} (hperm : added.Perm (value :: values))
    (hnod : (added.map key).Nodup) (point : κ) :
    lookupBy key point added = if point = key value then some value else lookupBy key point values := by
  have hold : (values.map key).Nodup := (nodup_cons.mp (((hperm.map key).nodup_iff).mp hnod)).2
  apply Option.ext
  intro found
  rw [lookupBy_eq_some hnod, hperm.mem_iff, mem_cons]
  by_cases hpoint : point = key value
  · rw [if_pos hpoint]
    constructor
    · rintro ⟨rfl | hmem, hkey⟩
      · rfl
      · have hnew := (nodup_cons.mp (((hperm.map key).nodup_iff).mp hnod)).1
        exact absurd (mem_map.mpr ⟨found, hmem, hkey.trans hpoint⟩) hnew
    · intro hfnd
      obtain rfl := some.inj hfnd
      exact ⟨.inl rfl, hpoint.symm⟩
  · rw [if_neg hpoint, lookupBy_eq_some hold]
    constructor
    · rintro ⟨rfl | hmem, hkey⟩
      · exact absurd hkey.symm hpoint
      · exact ⟨hmem, hkey⟩
    · exact fun h => ⟨.inr h.1, h.2⟩

section Cut

variable {before after : List α} {old : α}

section

variable (hsort : StrictlySortedBy key (before ++ old :: after))
include hsort

theorem StrictlySortedBy.replace {new : α}
    (hkey : key new = key old) : StrictlySortedBy key (before ++ new :: after) := by
  unfold StrictlySortedBy at hsort ⊢
  rw [pairwise_append, pairwise_cons] at hsort ⊢
  obtain ⟨hbef, ⟨hold, haft⟩, hacr⟩ := hsort
  refine ⟨hbef, ⟨fun value hval => hkey ▸ hold value hval, haft⟩, ?_⟩
  intro first hfst second hsec
  rcases mem_cons.mp hsec with rfl | hsec
  · rw [hkey]
    exact hacr first hfst old mem_cons_self
  · exact hacr first hfst second (mem_cons_of_mem _ hsec)

theorem StrictlySortedBy.before_ne : ∀ value ∈ before, key value ≠ key old := fun value hval =>
  ne_of_lt ((pairwise_append.mp hsort).2.2 value hval old mem_cons_self)

theorem lookupBy_replace {new : α} (hkey : key new = key old) (point : κ) :
    lookupBy key point (before ++ new :: after) =
      if point = key old then some new else lookupBy key point (before ++ old :: after) := by
  unfold lookupBy
  rw [List.find?_append, List.find?_append, List.find?_cons, List.find?_cons, hkey]
  by_cases hpoint : point = key old
  · subst hpoint
    have hnone : List.find? (fun value => decide (key value = key old)) before = none :=
      lookupBy_eq_none.mpr hsort.before_ne
    simp [hnone]
  · have hne : ¬ key old = point := fun h => hpoint h.symm
    simp [hpoint, hne]

theorem lookupBy_remove (point : κ) : lookupBy key point (before ++ after) =
      if point = key old then none else lookupBy key point (before ++ old :: after) := by
  by_cases hpoint : point = key old
  · subst hpoint
    rw [if_pos rfl, lookupBy_eq_none]
    intro value hval
    rcases mem_append.mp hval with hval | hval
    · exact hsort.before_ne value hval
    · have hlat := (pairwise_append.mp hsort).2.1
      exact ne_of_gt ((pairwise_cons.mp hlat).1 value hval)
  · have hne : ¬ key old = point := fun h => hpoint h.symm
    unfold lookupBy
    rw [if_neg hpoint, List.find?_append, List.find?_append, List.find?_cons]
    simp [hne]

theorem StrictlySortedBy.remove : StrictlySortedBy key (before ++ after) :=
  List.Pairwise.sublist ((List.sublist_cons_self old after).append_left before) hsort

end

end Cut

/-! ## The place of a key -/

theorem takeWhile_eq_nil {test : α → Bool} (hstops : ∀ value ∈ values, test value = false) :
    values.takeWhile test = [] := by
  cases values with
  | nil => rfl
  | cons value values => exact List.takeWhile_cons_of_neg (ne_true_of_eq_false (hstops value mem_cons_self))

theorem takeWhile_cut {test : α → Bool} {before after : List α} (hbef : ∀ value ∈ before, test value = true)
    (haft : ∀ value ∈ after, test value = false) : (before ++ after).takeWhile test = before := by
  rw [List.takeWhile_append_of_pos hbef, takeWhile_eq_nil haft, append_nil]

namespace SortedLists.Documented

variable {lists : SortedLists α κ} (hls : lists.Documented)

include hls

theorem bisectLeft_eq (hsort : SortedBy key values) (point : κ) :
    lists.bisectLeft key values point = (values.takeWhile fun value => key value < point).length := by
  obtain ⟨before, after, rfl, hidx, hbef, haft⟩ := hls.bisectLeft key values point hsort
  rw [hidx, takeWhile_cut]
  · exact fun value hval => decide_eq_true (hbef value hval)
  · exact fun value hval => decide_eq_false (not_lt_of_ge (haft value hval))

theorem bisectRight_eq (hsort : SortedBy key values) (point : κ) :
    lists.bisectRight key values point = (values.takeWhile fun value => key value ≤ point).length := by
  obtain ⟨before, after, rfl, hidx, hbef, haft⟩ := hls.bisectRight key values point hsort
  rw [hidx, takeWhile_cut]
  · exact fun value hval => decide_eq_true (hbef value hval)
  · exact fun value hval => decide_eq_false (not_le_of_gt (haft value hval))

/-- In a list without repeated keys the two places of a key differ just if the key occurs, and
the left one is then its index. -/
theorem bisect_cases (hsort : StrictlySortedBy key values) (point : κ) :
    (lists.bisectLeft key values point = lists.bisectRight key values point ∧ lookupBy key point values = none) ∨
    ∃ before value after, values = before ++ value :: after ∧ key value = point ∧
      lists.bisectLeft key values point = before.length ∧
      lists.bisectRight key values point = before.length + 1 := by
  rw [hls.bisectLeft_eq hsort.sortedBy, hls.bisectRight_eq hsort.sortedBy, lookupBy_eq_none]
  induction values with
  | nil => exact .inl ⟨rfl, fun _ hval => nomatch hval⟩
  | cons first values ih =>
    obtain ⟨hfst, hrest⟩ := pairwise_cons.mp hsort
    rcases lt_trichotomy (key first) point with hlt | heq | hgt
    · rw [List.takeWhile_cons_of_pos (p := fun value => key value < point) (decide_eq_true hlt),
        List.takeWhile_cons_of_pos (p := fun value => key value ≤ point) (decide_eq_true hlt.le)]
      rcases ih hrest with ⟨hsame, hnone⟩ | ⟨before, value, after, rfl, hkey, hleft, hrgt⟩
      · refine .inl ⟨congrArg (· + 1) hsame, fun value hval => ?_⟩
        rcases mem_cons.mp hval with rfl | hval
        · exact ne_of_lt hlt
        · exact hnone value hval
      · exact .inr ⟨first :: before, value, after, rfl, hkey, congrArg (· + 1) hleft, congrArg (· + 1) hrgt⟩
    · have hstops : (values.takeWhile fun value => decide (key value ≤ point)) = [] :=
        takeWhile_eq_nil fun value hval => decide_eq_false (not_le_of_gt (heq ▸ hfst value hval))
      refine .inr ⟨[], first, values, rfl, heq, ?_, ?_⟩
      · rw [List.takeWhile_cons_of_neg (by simp [heq])]
      · rw [List.takeWhile_cons_of_pos (by simp [heq]), hstops]
        rfl
    · refine .inl ⟨?_, fun value hval => ?_⟩
      · rw [List.takeWhile_cons_of_neg (by simpa using hgt.le), List.takeWhile_cons_of_neg (by simpa using hgt)]
      · rcases mem_cons.mp hval with rfl | hval
        · exact ne_of_gt hgt
        · exact ne_of_gt (hgt.trans (hfst value hval))

theorem add_new (hsort : StrictlySortedBy key values) (value : α) (hnew : lookupBy key (key value) values = none) :
    StrictlySortedBy key (lists.add key values value) ∧ ∀ point, lookupBy key point (lists.add key values value) =
        if point = key value then some value else lookupBy key point values := by
  obtain ⟨hadded, hperm⟩ := hls.add key values value hsort.sortedBy
  have hnod : ((lists.add key values value).map key).Nodup := by
    rw [(hperm.map key).nodup_iff, map_cons, nodup_cons]
    refine ⟨fun hmem => ?_, hsort.nodup⟩
    obtain ⟨other, hoth, heq⟩ := mem_map.mp hmem
    exact lookupBy_eq_none.mp hnew other hoth heq
  exact ⟨hadded.strictly hnod, lookupBy_of_perm hperm hnod⟩

theorem setItem_cut {before after : List α} {old new : α}
    (hsort : StrictlySortedBy key (before ++ old :: after)) (hkey : key new = key old) :
    lists.setItem key (before ++ old :: after) before.length new = some (before ++ new :: after) := by
  have hset : (before ++ old :: after).set before.length new = before ++ new :: after := by
    rw [List.set_append_right _ _ le_rfl, Nat.sub_self]
    rfl
  rw [hls.setItem key _ _ _ hsort.sortedBy (by simp), hset, if_pos (hsort.replace hkey).sortedBy]

theorem pop_cut (before : List α) (old : α) (after : List α) :
    lists.pop (before ++ old :: after) before.length = before ++ after := by
  rw [hls.pop _ _ (by simp), List.eraseIdx_append_of_length_le le_rfl, Nat.sub_self]
  rfl

theorem extend_empty (hsort : SortedBy key values) : lists.extend key [] values = some values := by
  rw [hls.extend key [] values List.Pairwise.nil, nil_append, if_pos hsort]

theorem update_empty (hsort : StrictlySortedBy key values) : lists.update key [] values = values := by
  obtain ⟨hupd, hperm⟩ := hls.update key [] values List.Pairwise.nil
  rw [nil_append] at hperm
  have hnod : ((lists.update key [] values).map key).Nodup := by
    rw [(hperm.map key).nodup_iff]
    exact hsort.nodup
  exact hperm.eq_of_pairwise (fun first second _ _ hlt hgt => absurd hgt (lt_asymm hlt)) (hupd.strictly hnod) hsort

end SortedLists.Documented

def insertedLists : SortedLists α κ where
  update key values added := (values ++ added).insertionSort fun first second => key first ≤ key second
  add key values value := values.orderedInsert (fun first second => key first ≤ key second) value
  bisectLeft key values point := (values.takeWhile fun value => key value < point).length
  bisectRight key values point := (values.takeWhile fun value => key value ≤ point).length
  setItem key values index value :=
    if SortedBy key (values.set index value) then some (values.set index value) else none
  extend key values added :=
    if SortedBy key (values ++ added) then some (values ++ added) else none
  pop values index := values.eraseIdx index

theorem exists_cut {p : α → Bool} (hdown : values.Pairwise fun first second => p second → p first) :
    ∃ before after, values = before ++ after ∧ (values.takeWhile p).length = before.length ∧
      (∀ value ∈ before, p value) ∧ ∀ value ∈ after, ¬ p value := by
  induction values with
  | nil => exact ⟨[], [], rfl, rfl, forall_mem_nil _, forall_mem_nil _⟩
  | cons first values ih =>
    obtain ⟨hfst, hrest⟩ := pairwise_cons.mp hdown
    cases hp : p first with
    | true =>
      obtain ⟨before, after, rfl, hlen, hbef, haft⟩ := ih hrest
      refine ⟨first :: before, after, rfl, ?_, ?_, haft⟩
      · rw [List.takeWhile_cons_of_pos hp, length_cons, length_cons, hlen]
      · exact forall_mem_cons.mpr ⟨hp, hbef⟩
    | false =>
      have hnot : ¬ p first = true := by simp [hp]
      refine ⟨[], first :: values, rfl, ?_, forall_mem_nil _, ?_⟩
      · rw [List.takeWhile_cons_of_neg hnot]
      · exact forall_mem_cons.mpr ⟨hnot, fun value hval hp => hnot (hfst value hval hp)⟩

theorem insertedLists_documented : (insertedLists : SortedLists α κ).Documented where
  update key values added _ := by
    have : Std.Total fun first second : α => key first ≤ key second := ⟨fun _ _ => le_total _ _⟩
    have : IsTrans α fun first second => key first ≤ key second := ⟨fun _ _ _ => le_trans⟩
    exact ⟨List.pairwise_insertionSort _ _, List.perm_insertionSort _ _⟩
  add key values value hsort := by
    have : Std.Total fun first second : α => key first ≤ key second := ⟨fun _ _ => le_total _ _⟩
    have : IsTrans α fun first second => key first ≤ key second := ⟨fun _ _ _ => le_trans⟩
    exact ⟨List.Pairwise.orderedInsert value values hsort, List.perm_orderedInsert _ value values⟩
  bisectLeft key values point hsort := by
    obtain ⟨before, after, hspl, hlen, hbef, haft⟩ :=
      exists_cut (p := fun value => key value < point)
        (List.Pairwise.imp (fun hle h => decide_eq_true (lt_of_le_of_lt hle (of_decide_eq_true h))) hsort)
    exact ⟨before, after, hspl, hlen, fun value hval => of_decide_eq_true (hbef value hval),
      fun value hval => not_lt.mp fun h => haft value hval (decide_eq_true h)⟩
  bisectRight key values point hsort := by
    obtain ⟨before, after, hspl, hlen, hbef, haft⟩ :=
      exists_cut (p := fun value => key value ≤ point)
        (List.Pairwise.imp (fun hle h => decide_eq_true (hle.trans (of_decide_eq_true h))) hsort)
    exact ⟨before, after, hspl, hlen, fun value hval => of_decide_eq_true (hbef value hval),
      fun value hval => not_le.mp fun h => haft value hval (decide_eq_true h)⟩
  setItem _ _ _ _ _ _ := rfl
  extend _ _ _ _ := rfl
  pop _ _ _ := rfl

end EdxPlatform
