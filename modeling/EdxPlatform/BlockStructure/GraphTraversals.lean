import Mathlib.Algebra.BigOperators.Group.Finset.Basic
import EdxPlatform.Lib.Acyclic
import EdxPlatform.Lib.DependencyOrder
import EdxPlatform.Lib.Python
import EdxPlatform.Lib.WhileLoop

/-!
# Graph traversals

The generators of the traversal module, written as while loops over their
stacks.  A generator that is run to its end yields the list kept in `yielded`.
The graph is read through accessor functions on a state that the filter may
change while the traversal is under way.
-/

namespace EdxPlatform

variable {κ γ : Type} [DecidableEq κ] {getChildren : κ → List κ}

/-- The accessors of a graph and the filter that decides which nodes to yield.
Without `getParents` a traversal is pre-order, with it topological. -/
structure Accessors (κ γ : Type) where
  getParents : Option (γ → κ → List κ)
  getChildren : γ → κ → List κ
  filterFunc : γ → κ → Except PyError (γ × Bool)
  yieldDescendantsOfUnyielded : Bool := false

/-- What a traversal holds between two rounds of its loop; the top of the stack
comes first. -/
structure Traversal (κ γ : Type) where
  stack : List κ
  yieldResults : Dict κ Bool
  yielded : List κ
  graph : γ

namespace Traversal

section

variable (accessors : Accessors κ γ) (startNode : κ) (state : Traversal κ γ)

def passedOver (node : κ) : Bool :=
  match accessors.getParents with
  | none => false
  | some getParents =>
    if node = startNode then false
    else
      let parents := getParents state.graph node
      if !parents.all (fun parent => decide (parent ∈ state.yieldResults)) then true
      else !accessors.yieldDescendantsOfUnyielded &&
        !parents.any (fun parent => (state.yieldResults.lookup parent).getD false)

/-- One round of the loop of `_traverse_generic`. -/
def round : Except PyError (Traversal κ γ) :=
  match state.stack with
  | [] => .ok state
  | currentNode :: stack =>
    if passedOver accessors startNode state currentNode then .ok { state with stack := stack }
    else if currentNode ∈ state.yieldResults then .ok { state with stack := stack }
    else
      let children := accessors.getChildren state.graph currentNode
      let unvisitedChildren :=
        if accessors.getParents.isSome then children
        else children.filter (fun child => decide (child ∉ state.yieldResults))
      -- the children are pushed before the filter may change the graph
      match accessors.filterFunc state.graph currentNode with
      | .error err => .error err
      | .ok (graph, shouldYield) =>
        .ok {
          stack := unvisitedChildren ++ stack
          yieldResults := state.yieldResults.insert currentNode shouldYield
          yielded := if shouldYield then state.yielded ++ [currentNode] else state.yielded
          graph := graph }

end

def start (startNode : κ) (graph : γ) : Traversal κ γ :=
  { stack := [startNode], yieldResults := ∅, yielded := [], graph := graph }

def active (state : Traversal κ γ) : Bool := !state.stack.isEmpty

end Traversal

/-- `_traverse_generic`, run until the stack is empty. -/
def traverseGeneric (accessors : Accessors κ γ) (startNode : κ) (graph : γ) (fuel : Nat) :
    Option (Except PyError (Traversal κ γ)) :=
  whileLoop Traversal.active (Traversal.round accessors startNode) fuel (Traversal.start startNode graph)

/-! ## Post-order -/

/-- A node on the stack with the children its iterator has still to give. -/
structure Frame (κ : Type) where
  node : κ
  children : List κ

/-- `visited` lists the nodes in the order in which they were yielded. -/
structure PostOrder (κ : Type) where
  stack : List (Frame κ)
  visited : List κ

namespace PostOrder

/-- One round of the loop of `traverse_post_order`. -/
def round (getChildren : κ → List κ) (filterFunc : κ → Bool) (state : PostOrder κ) : Except PyError (PostOrder κ) :=
  match state.stack with
  | [] => .ok state
  | current :: stack =>
    if current.node ∈ state.visited ∨ filterFunc current.node = false then
      .ok { state with stack := stack }
    else
      match current.children with
      | [] => .ok { stack := stack, visited := state.visited ++ [current.node] }
      | nextChild :: children =>
        .ok { state with
          stack := ⟨nextChild, getChildren nextChild⟩ :: ⟨current.node, children⟩ :: stack }

def active (state : PostOrder κ) : Bool := !state.stack.isEmpty

end PostOrder

/-- `traverse_post_order`, run until the stack is empty. -/
def traversePostOrder (startNode : κ) (getChildren : κ → List κ) (filterFunc : κ → Bool)
    (fuel : Nat) : Option (Except PyError (PostOrder κ)) :=
  whileLoop PostOrder.active (PostOrder.round getChildren filterFunc) fuel
    { stack := [⟨startNode, getChildren startNode⟩], visited := [] }

def acceptedChildren (getChildren : κ → List κ) (filterFunc : κ → Bool) (node : κ) : List κ :=
  (getChildren node).filter filterFunc

omit [DecidableEq κ] in
theorem acceptedChildren_true (getChildren : κ → List κ) :
    acceptedChildren getChildren (fun _ => true) = getChildren :=
  funext fun node => filter_true (getChildren node)

namespace PostOrder

open Relation whileLoop Leads

variable {filterFunc : κ → Bool} {stack : List (Frame κ)} {visited : List κ}

theorem leads_skip {frame : Frame κ} (hskip : frame.node ∈ visited ∨ filterFunc frame.node = false) :
    Leads active (round getChildren filterFunc) ⟨frame :: stack, visited⟩ ⟨stack, visited⟩ :=
  single rfl (if_pos hskip)

theorem leads_child {node child : κ} {children : List κ} (hnode : node ∉ visited) (hfilt : filterFunc node = true) :
    Leads active (round getChildren filterFunc) ⟨⟨node, child :: children⟩ :: stack, visited⟩
      ⟨⟨child, getChildren child⟩ :: ⟨node, children⟩ :: stack, visited⟩ :=
  single rfl (if_neg (by simp [hnode, hfilt]))

theorem leads_yield {node : κ} (hnode : node ∉ visited) (hfilt : filterFunc node = true) :
    Leads active (round getChildren filterFunc) ⟨⟨node, []⟩ :: stack, visited⟩ ⟨stack, visited ++ [node]⟩ :=
  single rfl (if_neg (by simp [hnode, hfilt]))

/-- `last` adds to `first` only nodes below `top`, each of them once and after its children. -/
structure Extends (children : κ → List κ) (top : κ) (first last : List κ) : Prop where
  nodup : last.Nodup
  before : DependencyOrder children last
  subset : first ⊆ last
  below : ∀ node ∈ last, node ∈ first ∨ ReflTransGen (fun parent child => child ∈ children parent) top node

theorem leads_node (hacyc : Acyclic fun parent child => child ∈ getChildren parent)
    (hwf : WellFounded fun child parent => child ∈ getChildren parent) (node : κ)
    (hnode : filterFunc node = true) : ∀ (stack : List (Frame κ)) (visited : List κ), visited.Nodup →
      DependencyOrder (acceptedChildren getChildren filterFunc) visited →
      ∃ last, Leads active (round getChildren filterFunc) ⟨⟨node, getChildren node⟩ :: stack, visited⟩ ⟨stack, last⟩ ∧
        Extends (acceptedChildren getChildren filterFunc) node visited last ∧ node ∈ last := by
  induction node using hwf.induction with
  | _ node ih =>
    intro stack visited hnod hbef
    by_cases hvisd : node ∈ visited
    · exact ⟨visited, leads_skip (.inl hvisd), ⟨hnod, hbef, List.Subset.refl _, fun _ hmem => .inl hmem⟩, hvisd⟩
    -- the children still to be visited, while the node itself is not visited
    have hkids : ∀ children, children ⊆ getChildren node →
        ∀ current : List κ, current.Nodup → DependencyOrder (acceptedChildren getChildren filterFunc) current →
          node ∉ current →
          (∀ child ∈ acceptedChildren getChildren filterFunc node, child ∈ children ∨ child ∈ current) →
          ∃ last, Leads active (round getChildren filterFunc) ⟨⟨node, children⟩ :: stack, current⟩ ⟨stack, last⟩ ∧
            Extends (acceptedChildren getChildren filterFunc) node current last ∧ node ∈ last := by
      intro children
      induction children with
      | nil =>
        intro _ current hcur hord hout hall
        have hsub : acceptedChildren getChildren filterFunc node ⊆ current := fun child hch =>
          (hall child hch).resolve_left not_mem_nil
        refine ⟨current ++ [node], leads_yield hout hnode,
          ⟨?_, hord.concat hsub, List.subset_append_left _ _, ?_⟩, mem_append_right _ mem_cons_self⟩
        · exact nodup_append.mpr ⟨hcur, nodup_singleton node, fun other hoth last hlast heq =>
            hout (mem_singleton.mp hlast ▸ heq ▸ hoth)⟩
        · intro other hoth
          rcases mem_append.mp hoth with hoth | hoth
          · exact .inl hoth
          · exact .inr (mem_singleton.mp hoth ▸ ReflTransGen.refl)
      | cons child rest ihRest =>
        intro hsub current hcur hord hout hall
        have hch : child ∈ getChildren node := hsub mem_cons_self
        have hrest : rest ⊆ getChildren node := fun _ hoth => hsub (mem_cons_of_mem _ hoth)
        cases hfilt : filterFunc child with
        | false =>
          obtain ⟨last, hleads, hlast⟩ := ihRest hrest current hcur hord hout (by
            intro other hoth
            refine (hall other hoth).imp_left fun hin => (mem_cons.mp hin).resolve_left ?_
            rintro rfl
            exact absurd (mem_filter.mp hoth).2 (by rw [hfilt]; decide))
          exact ⟨last, (leads_child hout hnode).trans ((leads_skip (.inr hfilt)).trans hleads), hlast⟩
        | true =>
          have haccd : child ∈ acceptedChildren getChildren filterFunc node := mem_filter.mpr ⟨hch, hfilt⟩
          obtain ⟨middle, hmid, hext, hmem⟩ := ih child hch hfilt (⟨node, rest⟩ :: stack) current hcur hord
          have hstil : node ∉ middle := by
            intro hin
            rcases hext.below node hin with hin | hrch
            · exact hout hin
            · exact hacyc node (TransGen.head' hch
                (ReflTransGen.mono (fun _ _ hstep => (mem_filter.mp hstep).1) _ _ hrch))
          obtain ⟨last, hleads, hlas, hlastMem⟩ :=
            ihRest hrest middle hext.nodup hext.before hstil (by
              intro other hoth
              rcases hall other hoth with hin | hin
              · rcases mem_cons.mp hin with heq | hin
                · exact .inr (heq ▸ hmem)
                · exact .inl hin
              · exact .inr (hext.subset hin))
          refine ⟨last, (leads_child hout hnode).trans (hmid.trans hleads), ⟨hlas.nodup,
            hlas.before, fun _ hoth => hlas.subset (hext.subset hoth), ?_⟩, hlastMem⟩
          intro other hoth
          rcases hlas.below other hoth with hin | hrch
          · exact (hext.below other hin).imp_right (ReflTransGen.head haccd)
          · exact .inr hrch
    exact hkids _ (List.Subset.refl _) visited hnod hbef hvisd fun child hch => .inl (mem_filter.mp hch).1

end PostOrder

/-- An order of all nodes below a start node, in which the children of a node come before it. -/
structure ChildrenFirst (children : κ → List κ) (startNode : κ) (order : List κ) : Prop where
  nodup : order.Nodup
  before : DependencyOrder children order
  mem_iff : ∀ node, node ∈ order ↔ Relation.ReflTransGen (fun parent child => child ∈ children parent) startNode node

variable (hacyc : Acyclic fun parent child => child ∈ getChildren parent)
  (hfin : {parent | ∃ child, child ∈ getChildren parent}.Finite)

section

include hacyc hfin

theorem traversePostOrder_yields {startNode : κ} {filterFunc : κ → Bool} (hst : filterFunc startNode = true) :
    ∃ bound last, (∀ fuel, bound ≤ fuel → traversePostOrder startNode getChildren filterFunc fuel = some (.ok last)) ∧
      ChildrenFirst (acceptedChildren getChildren filterFunc) startNode last.visited := by
  obtain ⟨visited, hleads, hext, hmem⟩ := PostOrder.leads_node hacyc
    (hacyc.wellFounded_swap hfin) startNode hst [] [] nodup_nil DependencyOrder.nil
  obtain ⟨bound, hbound⟩ := hleads.returns rfl
  refine ⟨bound, ⟨[], visited⟩, hbound, hext.nodup, hext.before, fun node => ⟨fun hin => ?_, fun hrch => ?_⟩⟩
  · exact (hext.below node hin).resolve_left not_mem_nil
  · induction hrch with
    | refl => exact hmem
    | tail _ hstep ih => exact hext.before.closed ih hstep

theorem traversePostOrder_visited (startNode : κ) : ∃ bound last, (∀ fuel, bound ≤ fuel →
        traversePostOrder startNode getChildren (fun _ => true) fuel = some (.ok last)) ∧
      ChildrenFirst getChildren startNode last.visited := by
  have hyiel := @traversePostOrder_yields κ _ getChildren hacyc hfin startNode (fun _ => true) rfl
  rwa [acceptedChildren_true] at hyiel

end

theorem traversePostOrder_rejected (getChildren : κ → List κ) {startNode : κ} {filterFunc : κ → Bool}
    (hst : filterFunc startNode = false) (fuel : Nat) :
    traversePostOrder startNode getChildren filterFunc (fuel + 1) = some (.ok ⟨[], []⟩) := by
  have hskip : PostOrder.round getChildren filterFunc ⟨[⟨startNode, getChildren startNode⟩], []⟩ = .ok ⟨[], []⟩ :=
    if_pos (.inr hst)
  exact (whileLoop.step rfl hskip fuel).trans (whileLoop.stop rfl fuel)

section

variable (startNode : κ) (filterFunc : κ → Bool)
include hacyc hfin

/-- A post-order traversal with a filter yields each node that can be reached through accepted nodes once. -/
theorem traversePostOrder_accepted : ∃ bound last, (∀ fuel, bound ≤ fuel →
        traversePostOrder startNode getChildren filterFunc fuel = some (.ok last)) ∧
      last.visited.Nodup ∧ ∀ node, node ∈ last.visited ↔ filterFunc startNode = true ∧
        Relation.ReflTransGen (fun parent child =>
          child ∈ acceptedChildren getChildren filterFunc parent) startNode node := by
  cases hst : filterFunc startNode with
  | false =>
    refine ⟨1, ⟨[], []⟩, fun fuel hfuel => ?_, nodup_nil, fun node => ?_⟩
    · obtain ⟨fuel, rfl⟩ := Nat.exists_eq_add_of_le' hfuel
      exact traversePostOrder_rejected getChildren hst fuel
    · exact iff_of_false not_mem_nil fun hboth => absurd hboth.1 false_ne_true
  | true =>
    obtain ⟨bound, last, hbound, hord⟩ := traversePostOrder_yields hacyc hfin hst
    exact ⟨bound, last, hbound, hord.nodup, fun node => (hord.mem_iff node).trans (and_iff_right rfl).symm⟩

theorem traversePostOrder_returns : ∃ bound last, (∀ fuel, bound ≤ fuel →
        traversePostOrder startNode getChildren filterFunc fuel = some (.ok last)) ∧
      ∀ node ∈ last.visited,
        Relation.ReflTransGen (fun parent child => child ∈ getChildren parent) startNode node := by
  obtain ⟨bound, last, hbound, -, hmem⟩ := traversePostOrder_accepted hacyc hfin startNode filterFunc
  exact ⟨bound, last, hbound, fun node hnode => Relation.ReflTransGen.mono
    (fun _ _ hstep => (mem_filter.mp hstep).1) _ _ ((hmem node).mp hnode).2⟩

end

end EdxPlatform
