import Mathlib.Order.Bounds.Basic
import EdxPlatform.Lib.ShortNames

/-!
# Paths

Paths from a start node, as the lists of the nodes on them, and the least cost of a path to a node.
-/

namespace EdxPlatform

open Relation

variable {α : Type} {edge : α → α → Prop} {start node next : α} {path : List α}

/-- The nodes of the list lead from a start node to a node, along edges. -/
inductive PathTo (edge : α → α → Prop) (start : α) : List α → α → Prop
  | start : PathTo edge start [start] start
  | step {path : List α} {node next : α} (hpath : PathTo edge start path node) (hedge : edge node next) :
      PathTo edge start (path ++ [next]) next

theorem exists_pathTo_iff : (∃ path, PathTo edge start path node) ↔ ReflTransGen edge start node := by
  constructor
  · rintro ⟨path, hpath⟩
    induction hpath with
    | start => exact ReflTransGen.refl
    | step _ hedge ih => exact ih.tail hedge
  · intro hrch
    induction hrch with
    | refl => exact ⟨[start], .start⟩
    | tail _ hedge ih =>
      obtain ⟨path, hpath⟩ := ih
      exact ⟨_, hpath.step hedge⟩

theorem PathTo.exists_cons (hpath : PathTo edge start path node) : ∃ rest, path = start :: rest := by
  induction hpath with
  | start => exact ⟨[], rfl⟩
  | step _ _ ih =>
    obtain ⟨rest, rfl⟩ := ih
    exact ⟨rest ++ [_], rfl⟩

theorem PathTo.mem (hpath : PathTo edge start path node) : node ∈ path := by
  cases hpath with
  | start => exact mem_singleton.mpr rfl
  | step _ _ => exact mem_append_right _ (mem_singleton.mpr rfl)

theorem pathTo_iff (hnode : node ≠ start) : PathTo edge start path node ↔
      ∃ front parent, PathTo edge start front parent ∧ edge parent node ∧ path = front ++ [node] := by
  constructor
  · rintro (_ | ⟨hfront, hedge⟩)
    · exact absurd rfl hnode
    · exact ⟨_, _, hfront, hedge, rfl⟩
  · rintro ⟨front, parent, hfront, hedge, rfl⟩
    exact hfront.step hedge

theorem pathTo_start_iff (hback : ∀ parent, ReflTransGen edge start parent → ¬ edge parent start) :
    PathTo edge start path start ↔ path = [start] := by
  constructor
  · rintro (_ | ⟨hfront, hedge⟩)
    · rfl
    · exact absurd hedge (hback _ (exists_pathTo_iff.mp ⟨_, hfront⟩))
  · rintro rfl
    exact .start

variable {τ : Type} [LinearOrder τ]

def pathCosts (edge : α → α → Prop) (start : α) (cost : List α → τ) (node : α) : Set τ :=
  {value | ∃ path, PathTo edge start path node ∧ cost path = value}

theorem exists_cheapest {values : α → τ} {nodes : List α} (hne : nodes ≠ []) :
    ∃ cheapest ∈ nodes, (nodes.map values).min? = some (values cheapest) ∧
      ∀ node ∈ nodes, values cheapest ≤ values node := by
  induction nodes with
  | nil => exact absurd rfl hne
  | cons first rest ih =>
    by_cases hrest : rest = []
    · subst hrest
      exact ⟨first, mem_cons_self, rfl, fun node hnode => by rw [mem_singleton.mp hnode]⟩
    obtain ⟨cheapest, hcheap, hmin, hle⟩ := ih hrest
    rw [map_cons, List.min?_cons, hmin, elim_some]
    rcases le_total (values first) (values cheapest) with hfst | hfst
    · refine ⟨first, mem_cons_self, by rw [min_eq_left hfst], fun node hnode => ?_⟩
      rcases mem_cons.mp hnode with rfl | hnode
      · exact le_rfl
      · exact hfst.trans (hle node hnode)
    · refine ⟨cheapest, mem_cons_of_mem _ hcheap, by rw [min_eq_right hfst], fun node hnode => ?_⟩
      rcases mem_cons.mp hnode with rfl | hnode
      · exact hfst
      · exact hle node hnode

theorem isLeast_pathCosts {cost : List α → τ} {extend : τ → τ} (hext : Monotone extend) (hnode : node ≠ start)
    (hcost : ∀ path parent, PathTo edge start path parent → cost (path ++ [node]) = extend (cost path))
    {values : α → τ} (hvals : ∀ parent, edge parent node → IsLeast (pathCosts edge start cost parent) (values parent))
    {cheapest : α} (hcheap : edge cheapest node)
    (hle : ∀ parent, edge parent node → values cheapest ≤ values parent) :
    IsLeast (pathCosts edge start cost node) (extend (values cheapest)) := by
  constructor
  · obtain ⟨path, hpath, hval⟩ := (hvals cheapest hcheap).1
    exact ⟨path ++ [node], hpath.step hcheap, (hcost path cheapest hpath).trans (congrArg extend hval)⟩
  · rintro _ ⟨path, hpath, rfl⟩
    obtain ⟨front, parent, hfront, hedge, rfl⟩ := (pathTo_iff hnode).mp hpath
    rw [hcost front parent hfront]
    exact hext ((hle parent hedge).trans ((hvals parent hedge).2 ⟨front, hfront, rfl⟩))

end EdxPlatform
