import Mathlib.Data.List.Basic

/-!
# Documents

Values that a document database stores: atoms, lists and dictionaries with texts as keys.  A
dictionary is the list of its entries; of equal keys the first counts.
-/

namespace EdxPlatform

inductive Document (α : Type) where
  | atom (value : α)
  | list (elements : List (Document α))
  | dict (entries : List (String × Document α))

abbrev Entries (α : Type) := List (String × Document α)

variable {α : Type}

namespace Entries

def get (key : String) : Entries α → Option (Document α)
  | [] => none
  | entry :: entries => if entry.1 = key then some entry.2 else get key entries

/-- `entries[key] = value` -/
def set (key : String) (value : Document α) : Entries α → Entries α
  | [] => [(key, value)]
  | entry :: entries => if entry.1 = key then (key, value) :: entries else entry :: set key value entries

/-- `entries.setdefault(key, value)` -/
def setDefault (key : String) (value : Document α) (entries : Entries α) : Entries α :=
  if (get key entries).isSome then entries else set key value entries

def pop (key : String) (entries : Entries α) : Entries α := entries.filter fun entry => entry.1 ≠ key

def modify (key : String) (change : Document α → Document α) (entries : Entries α) : Entries α :=
  match get key entries with
  | none => entries
  | some value => set key (change value) entries

variable {entries : Entries α} {key : String}

theorem mem_of_get {value : Document α} (hget : get key entries = some value) : (key, value) ∈ entries := by
  induction entries with
  | nil => cases hget
  | cons entry entries ih =>
    unfold get at hget
    split at hget
    · next heq =>
        obtain rfl := Option.some.inj hget
        rw [← heq]
        exact List.mem_cons_self
    · exact List.mem_cons_of_mem _ (ih hget)

@[simp]
theorem get_set_self (key : String) (value : Document α) (entries : Entries α) :
    get key (set key value entries) = some value := by
  induction entries with
  | nil => simp [set, get]
  | cons entry entries ih =>
    unfold set
    split
    · simp [get]
    · next hne => simp [get, hne, ih]

theorem get_set_of_ne {other : String} (hne : other ≠ key) (value : Document α) (entries : Entries α) :
    get other (set key value entries) = get other entries := by
  induction entries with
  | nil => simp [set, get, Ne.symm hne]
  | cons entry entries ih =>
    unfold set
    split
    · next heq => simp [get, heq, Ne.symm hne]
    · simp [get, ih]

theorem set_set (key : String) (first second : Document α) (entries : Entries α) :
    set key second (set key first entries) = set key second entries := by
  induction entries with
  | nil => simp [set]
  | cons entry entries ih =>
    by_cases heq : entry.1 = key
    · simp [set, heq]
    · simp [set, heq, ih]

theorem set_get {value : Document α} (hget : get key entries = some value) : set key value entries = entries := by
  induction entries with
  | nil => cases hget
  | cons entry entries ih =>
    unfold get at hget
    unfold set
    by_cases heq : entry.1 = key
    · rw [if_pos heq] at hget ⊢
      obtain rfl := Option.some.inj hget
      rw [← heq]
    · rw [if_neg heq] at hget ⊢
      rw [ih hget]

theorem pop_cons (key : String) (entry : String × Document α) (entries : Entries α) :
    pop key (entry :: entries) = if entry.1 = key then pop key entries else entry :: pop key entries := by
  by_cases heq : entry.1 = key
  · simp [pop, heq]
  · simp [pop, heq]

theorem pop_of_absent (habs : ∀ entry ∈ entries, entry.1 ≠ key) : pop key entries = entries :=
  List.filter_eq_self.mpr fun entry hent => decide_eq_true (habs entry hent)

end Entries

namespace Document

def isDict : Document α → Bool
  | .dict _ => true
  | _ => false

theorem exists_of_isDict {document : Document α} (hdict : document.isDict = true) :
    ∃ entries, document = .dict entries := by
  cases document with
  | dict entries => exact ⟨entries, rfl⟩
  | atom value => cases hdict
  | list elements => cases hdict

def mapElements (change : Document α → Document α) : Document α → Document α
  | .list elements => .list (elements.map change)
  | document => document

def modifyKey (key : String) (change : Document α → Document α) : Document α → Document α
  | .dict entries => .dict (Entries.modify key change entries)
  | document => document

end Document

theorem forM_ok {ε β : Type} {body : β → Except ε Unit} {values : List β}
    (hbody : ∀ value ∈ values, body value = .ok ()) : values.forM body = .ok () := by
  induction values with
  | nil => rfl
  | cons value values ih =>
    change (body value >>= fun _ => values.forM body) = _
    rw [hbody value List.mem_cons_self]
    exact ih fun other hoth => hbody other (List.mem_cons_of_mem value hoth)

theorem mapM_map_ok {ε β γ δ : Type} {encode : β → γ} {decode : γ → Except ε δ} {result : β → δ}
    {values : List β} (hdec : ∀ value ∈ values, decode (encode value) = .ok (result value)) :
    (values.map encode).mapM decode = .ok (values.map result) := by
  induction values with
  | nil => rfl
  | cons value values ih =>
    rw [List.map_cons, List.mapM_cons, hdec value List.mem_cons_self,
      ih fun other hoth => hdec other (List.mem_cons_of_mem value hoth)]
    rfl

end EdxPlatform
