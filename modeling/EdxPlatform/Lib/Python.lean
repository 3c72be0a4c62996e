import Mathlib.Data.List.Count
import Mathlib.Data.List.Sort
import Mathlib.Data.Rat.Defs

/-!
# Python exceptions, list methods and JSON values
-/

namespace EdxPlatform

/-- The built-in exceptions that modelled code can raise. -/
inductive PyError where
  | keyError
  | valueError
  | indexError
  | typeError
  | runtimeError
  deriving DecidableEq, Repr

variable {α : Type} [DecidableEq α]

/-- `values.remove(value)`: drop the first occurrence. -/
def listRemove (values : List α) (value : α) : Except PyError (List α) :=
  if value ∈ values then .ok (values.erase value) else .error .valueError

theorem listRemove_of_mem {values : List α} {value : α} (hmem : value ∈ values) :
    listRemove values value = .ok (values.erase value) :=
  if_pos hmem

theorem iterate_erase_count (value : α) (values : List α) :
    (fun rest => rest.erase value)^[values.count value] values = values.filter (· ≠ value) := by
  induction values with
  | nil => rfl
  | cons head rest ih =>
    by_cases heq : head = value
    · subst heq
      rw [List.count_cons_self, Function.iterate_succ_apply, List.erase_cons_head, ih]
      simp
    · have hkeep : ∀ count : Nat, ∀ tail : List α, (fun rest => rest.erase value)^[count] (head :: tail) =
            head :: (fun rest => rest.erase value)^[count] tail := by
        intro count
        induction count with
        | zero => intro tail; rfl
        | succ count ihc =>
          intro tail
          rw [Function.iterate_succ_apply, Function.iterate_succ_apply, List.erase_cons_tail (by simpa using heq), ihc]
      rw [List.count_cons_of_ne heq, hkeep, ih]
      simp [heq]

theorem bind_ok {ε α β : Type} {value : Except ε α} {next : α → Except ε β} {result : β}
    (hbind : (value >>= next) = .ok result) :
    ∃ found, value = .ok found ∧ next found = .ok result := by
  cases value with
  | error err => cases hbind
  | ok found => exact ⟨found, rfl, hbind⟩

section Sorted

variable {β γ : Type} [LinearOrder γ] (key : β → γ)

/-- `sorted(values, key=key)`, which keeps the order of values with equal keys. -/
def sortedBy (values : List β) : List β := values.insertionSort fun value other => key value ≤ key other

theorem sortedBy_perm (values : List β) : (sortedBy key values).Perm values := List.perm_insertionSort _ values

theorem sortedBy_pairwise (values : List β) :
    (sortedBy key values).Pairwise fun value other => key value ≤ key other := by
  have : Std.Total fun value other : β => key value ≤ key other := ⟨fun _ _ => le_total _ _⟩
  have : IsTrans β fun value other => key value ≤ key other := ⟨fun _ _ _ => le_trans⟩
  exact List.pairwise_insertionSort _ values

variable {key}

theorem sortedBy_eq_of_perm (hkey : Function.Injective key) {values sorted : List β} (hperm : sorted.Perm values)
    (hsort : sorted.Pairwise fun value other => key value ≤ key other) : sortedBy key values = sorted :=
  ((sortedBy_perm key values).trans hperm.symm).eq_of_pairwise (fun _ _ _ _ hle hge => hkey (le_antisymm hle hge))
    (sortedBy_pairwise key values) hsort

theorem sortedBy_eq_iff (hkey : Function.Injective key) {values others : List β} :
    sortedBy key values = sortedBy key others ↔ values.Perm others := by
  constructor
  · intro heq
    exact ((sortedBy_perm key values).symm.trans (List.Perm.of_eq heq)).trans (sortedBy_perm key others)
  · intro hperm
    exact sortedBy_eq_of_perm hkey ((sortedBy_perm key others).trans hperm.symm) (sortedBy_pairwise key others)

theorem sortedBy_map {δ ε : Type} [LinearOrder ε] {otherKey : δ → ε} (hkey : Function.Injective otherKey) {f : β → δ}
    (hmono : ∀ value other, key value ≤ key other → otherKey (f value) ≤ otherKey (f other)) (values : List β) :
    sortedBy otherKey (values.map f) = (sortedBy key values).map f := by
  refine sortedBy_eq_of_perm hkey ((sortedBy_perm key values).map f) ?_
  rw [List.pairwise_map]
  exact (sortedBy_pairwise key values).imp fun hle => hmono _ _ hle

end Sorted

/-- JSON values; the keys of an object are distinct. -/
inductive Json where
  | null
  | bool (value : Bool)
  | number (value : Rat)
  | string (value : String)
  | array (values : List Json)
  | object (entries : List (String × Json))

namespace Json

/-- `bool(value)`. -/
def truthy : Json → Bool
  | .null => false
  | .bool value => value
  | .number value => decide (value ≠ 0)
  | .string value => !value.isEmpty
  | .array values => !values.isEmpty
  | .object entries => !entries.isEmpty

/-- `value < 0`, by which `None` comes before every number and all else after. -/
def negative : Json → Bool
  | .null => true
  | .number value => decide (value < 0)
  | _ => false

end Json

end EdxPlatform
