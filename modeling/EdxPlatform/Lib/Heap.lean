import Mathlib.Data.Finset.Basic

/-!
# Objects in memory

Objects that several holders refer to.  What is written through one reference is read through
every equal one.
-/

namespace EdxPlatform

abbrev Ref := Nat

structure Heap (α : Type) where
  cells : List α := []

namespace Heap

variable {α : Type}

section

variable (heap : Heap α)

def Holds (ref : Ref) : Prop := ref < heap.cells.length

def read (ref : Ref) : Option α := heap.cells[ref]?

def fresh : Ref := heap.cells.length

def alloc (value : α) : Heap α := ⟨heap.cells ++ [value]⟩

def update (ref : Ref) (change : α → α) : Heap α := ⟨heap.cells.modify ref change⟩

def updateAll (refs : Finset Ref) (change : α → α) : Heap α :=
  ⟨heap.cells.mapIdx fun ref value => if ref ∈ refs then change value else value⟩

end

variable {heap : Heap α} {ref other : Ref}

theorem read_alloc (hhold : heap.Holds ref) (value : α) : (heap.alloc value).read ref = heap.read ref :=
  List.getElem?_append_left hhold

@[simp]
theorem read_alloc_fresh (heap : Heap α) (value : α) : (heap.alloc value).read heap.fresh = some value := by
  simp [read, alloc, fresh]

theorem read_alloc_of_not_holds (hhold : ¬ heap.Holds ref) {value found : α}
    (hread : (heap.alloc value).read ref = some found) : found = value := by
  have hle : heap.cells.length ≤ ref := Nat.le_of_not_lt hhold
  have hlt : ref < (heap.cells ++ [value]).length := (List.getElem?_eq_some_iff.mp hread).1
  rw [List.length_append, List.length_singleton] at hlt
  obtain rfl : ref = heap.fresh := Nat.le_antisymm (Nat.le_of_lt_succ hlt) hle
  exact (Option.some.inj ((read_alloc_fresh heap value).symm.trans hread)).symm

theorem read_update (heap : Heap α) (ref : Ref) (change : α → α) (other : Ref) : (heap.update ref change).read other =
      if other = ref then (heap.read other).map change else heap.read other := by
  unfold read update
  rw [List.getElem?_modify]
  by_cases heq : other = ref
  · simp [heq]
  · simp [heq, Ne.symm heq]

theorem read_updateAll (heap : Heap α) (refs : Finset Ref) (change : α → α) (ref : Ref) :
    (heap.updateAll refs change).read ref = if ref ∈ refs then (heap.read ref).map change else heap.read ref := by
  unfold read updateAll
  rw [List.getElem?_mapIdx]
  by_cases hmem : ref ∈ refs
  · simp [hmem]
  · simp [hmem]

theorem Holds.alloc (hhold : heap.Holds ref) (value : α) : (heap.alloc value).Holds ref := by
  have hlen : heap.cells.length ≤ (heap.alloc value).cells.length := by simp [Heap.alloc]
  exact Nat.lt_of_lt_of_le hhold hlen

@[simp]
theorem holds_update (heap : Heap α) (change : α → α) : (heap.update ref change).Holds other ↔ heap.Holds other := by
  unfold Holds update
  rw [List.length_modify]

theorem holds_alloc_fresh (heap : Heap α) (value : α) : (heap.alloc value).Holds heap.fresh := by
  unfold Holds alloc fresh
  simp

theorem Holds.ne_fresh (hhold : heap.Holds ref) : ref ≠ heap.fresh := Nat.ne_of_lt hhold

theorem holds_of_read {value : α} (hread : heap.read ref = some value) : heap.Holds ref :=
  (List.getElem?_eq_some_iff.mp hread).1

theorem Holds.exists_read (hhold : heap.Holds ref) : ∃ value, heap.read ref = some value :=
  ⟨heap.cells.get ⟨ref, hhold⟩, List.getElem?_eq_getElem hhold⟩

end Heap

end EdxPlatform
