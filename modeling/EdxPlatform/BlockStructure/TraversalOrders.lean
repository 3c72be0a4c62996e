import EdxPlatform.BlockStructure.Survivors

/-!
# The orders of the traversals

A topological traversal comes to a node after all of its parents, and leaves out what hangs below nodes that it
does not come to; a post-order traversal comes to a node after its children.
-/

namespace EdxPlatform

open Relation Traversal

variable {κ : Type} [DecidableEq κ]

/-! ## Topological traversals -/

def fixedGraph (getParents getChildren : κ → List κ) (filterFunc : κ → Bool)
    (yieldDescendantsOfUnyielded : Bool) : Accessors κ Unit where
  getParents := some fun _ => getParents
  getChildren := fun _ => getChildren
  filterFunc := fun graph node => .ok (graph, filterFunc node)
  yieldDescendantsOfUnyielded

/-- Links are recorded on both of their ends, but for those into the start node. -/
def LinkedBelow (getParents getChildren : κ → List κ) (startNode : κ) : Prop :=
  ∀ parent child, child ≠ startNode → (child ∈ getChildren parent ↔ parent ∈ getParents child)

/-- All that stands above the node hangs below the start node. -/
inductive Settled (getParents : κ → List κ) (startNode : κ) : κ → Prop
  | start : Settled getParents startNode startNode
  | node {node : κ} (hnode : node ≠ startNode) (hne : getParents node ≠ [])
      (hparents : ∀ parent ∈ getParents node, Settled getParents startNode parent) : Settled getParents startNode node

def parentsBelow (getParents : κ → List κ) (startNode node : κ) : List κ :=
  if node = startNode then [] else getParents node

namespace Traversal

variable {getParents getChildren : κ → List κ} {filterFunc : κ → Bool} {yieldDescendants : Bool} {startNode : κ}

/-- What holds between two rounds of a topological traversal that has visited the nodes of an order. -/
structure Visiting (getParents getChildren : κ → List κ) (filterFunc : κ → Bool) (startNode : κ) (order : List κ)
    (state : Traversal κ Unit) : Prop where
  visited : ∀ node, node ∈ state.yieldResults ↔ node ∈ order
  results : ∀ node result, state.yieldResults.lookup node = some result → result = filterFunc node
  yielded : state.yielded = order.filter filterFunc
  nodup : order.Nodup
  before : DependencyOrder (parentsBelow getParents startNode) order
  settled : ∀ node ∈ order, Settled getParents startNode node
  stack : ∀ node ∈ state.stack, node = startNode ∨ ∃ parent ∈ order, node ∈ getChildren parent
  start : startNode ∈ order ∨ startNode ∈ state.stack
  pending : ∀ node, node ≠ startNode → getParents node ≠ [] → getParents node ⊆ order →
    node ∈ order ∨ node ∈ state.stack

variable {order rest : List κ} {state : Traversal κ Unit} {node : κ}

theorem passedOver_fixed (hyiel : yieldDescendants = true ∨ ∀ node, filterFunc node = true)
    (hlink : LinkedBelow getParents getChildren startNode)
    (hvis : Visiting getParents getChildren filterFunc startNode order state)
    (hnode : node ∈ state.stack) :
    passedOver (fixedGraph getParents getChildren filterFunc yieldDescendants) startNode state node = false ↔
      parentsBelow getParents startNode node ⊆ order := by
  unfold passedOver fixedGraph parentsBelow
  by_cases hst : node = startNode
  · simp [hst]
  have hall : ((getParents node).all fun parent => decide (parent ∈ state.yieldResults)) = true ↔
      getParents node ⊆ order := by
    simp only [all_eq_true, decide_eq_true_eq, hvis.visited]
    exact Iff.rfl
  have hany : getParents node ⊆ order → yieldDescendants = true ∨
      ((getParents node).any fun parent => (state.yieldResults.lookup parent).getD false) = true := by
    intro hsub
    refine hyiel.imp_right fun htrue => ?_
    obtain ⟨parent, -, hch⟩ := (hvis.stack node hnode).resolve_left hst
    have hpar := (hlink parent node hst).mp hch
    obtain ⟨result, hres⟩ := Dict.mem_iff_lookup.mp ((hvis.visited parent).mpr (hsub hpar))
    refine any_eq_true.mpr ⟨parent, hpar, ?_⟩
    rw [hres, hvis.results parent result hres, htrue, getD_some]
  simp only [hst, if_false]
  constructor
  · intro hpass
    refine hall.mp ?_
    by_contra hnot
    rw [if_pos (by simpa using hnot)] at hpass
    cases hpass
  · intro hsub
    rw [if_neg (by rw [hall.mpr hsub]; decide)]
    rcases hany hsub with htrue | htrue <;> simp [htrue]

theorem Visiting.pop (hvis : Visiting getParents getChildren filterFunc startNode order state)
    (hstack : state.stack = node :: rest)
    (hpop : node ∈ order ∨ ¬ parentsBelow getParents startNode node ⊆ order) :
    Visiting getParents getChildren filterFunc startNode order { state with stack := rest } where
  __ := hvis
  stack := fun other hoth => hvis.stack other (hstack ▸ mem_cons_of_mem _ hoth)
  start := by
    have hst := hvis.start
    rw [hstack] at hst
    rcases hst with hst | hst
    · exact .inl hst
    · rcases mem_cons.mp hst with heq | hst
      · refine .inl (heq ▸ hpop.resolve_right fun hnot => hnot ?_)
        rw [parentsBelow, if_pos heq.symm]
        exact List.nil_subset order
      · exact .inr hst
  pending := by
    intro other hoth hne hsub
    have hpend := hvis.pending other hoth hne hsub
    rw [hstack] at hpend
    rcases hpend with hmem | hmem
    · exact .inl hmem
    · rcases mem_cons.mp hmem with heq | hmem
      · refine .inl (heq ▸ hpop.resolve_right fun hnot => hnot ?_)
        rwa [parentsBelow, if_neg (heq ▸ hoth), ← heq]
      · exact .inr hmem

theorem Visiting.visit (hlink : LinkedBelow getParents getChildren startNode)
    (hvis : Visiting getParents getChildren filterFunc startNode order state)
    (hstack : state.stack = node :: rest) (hnode : node ∉ order)
    (hrdy : parentsBelow getParents startNode node ⊆ order) :
    Visiting getParents getChildren filterFunc startNode (order ++ [node])
      { stack := getChildren node ++ rest
        yieldResults := state.yieldResults.insert node (filterFunc node)
        yielded := if filterFunc node then state.yielded ++ [node] else state.yielded
        graph := state.graph } where
  visited := by
    intro other
    rw [mem_insert, hvis.visited, mem_append, mem_singleton, or_comm]
  results := by
    intro other result hres
    by_cases heq : other = node
    · subst heq
      exact (some.inj ((lookup_insert_self _ _ _).symm.trans hres)).symm
    · rw [lookup_insert_of_ne heq] at hres
      exact hvis.results other result hres
  yielded := by
    rw [filter_append, ← hvis.yielded, List.filter_singleton]
    cases filterFunc node with
    | false => exact (append_nil _).symm
    | true => rfl
  nodup := nodup_append.mpr ⟨hvis.nodup, nodup_singleton node, fun other hoth last hlast heq =>
    hnode (mem_singleton.mp hlast ▸ heq ▸ hoth)⟩
  before := hvis.before.concat hrdy
  settled := by
    intro other hoth
    rcases mem_append.mp hoth with hoth | hoth
    · exact hvis.settled other hoth
    obtain rfl := mem_singleton.mp hoth
    by_cases hst : other = startNode
    · rw [hst]
      exact .start
    rw [parentsBelow, if_neg hst] at hrdy
    obtain ⟨parent, -, hch⟩ := (hvis.stack other (hstack ▸ mem_cons_self)).resolve_left hst
    exact .node hst (ne_nil_of_mem ((hlink parent other hst).mp hch)) fun parent hpar =>
      hvis.settled parent (hrdy hpar)
  stack := by
    intro other hoth
    rcases mem_append.mp hoth with hch | hoth
    · exact .inr ⟨node, mem_append_right _ mem_cons_self, hch⟩
    · refine (hvis.stack other (hstack ▸ mem_cons_of_mem _ hoth)).imp_right ?_
      rintro ⟨parent, hpar, hch⟩
      exact ⟨parent, mem_append_left _ hpar, hch⟩
  start := by
    have hst := hvis.start
    rw [hstack] at hst
    rcases hst with hst | hst
    · exact .inl (mem_append_left _ hst)
    · rcases mem_cons.mp hst with heq | hst
      · exact .inl (mem_append_right _ (mem_singleton.mpr heq))
      · exact .inr (mem_append_right _ hst)
  pending := by
    intro other hoth hne hsub
    by_cases hbef : getParents other ⊆ order
    · have hpend := hvis.pending other hoth hne hbef
      rw [hstack] at hpend
      rcases hpend with hmem | hmem
      · exact .inl (mem_append_left _ hmem)
      · rcases mem_cons.mp hmem with heq | hmem
        · exact .inl (mem_append_right _ (mem_singleton.mpr heq))
        · exact .inr (mem_append_right _ hmem)
    · -- the node is the parent that the other one was waiting for
      obtain ⟨parent, hpar, hout⟩ : ∃ parent ∈ getParents other, parent ∉ order := by
        by_contra hnone
        exact hbef fun parent hpar => by_contra fun hout => hnone ⟨parent, hpar, hout⟩
      obtain rfl := mem_singleton.mp ((mem_append.mp (hsub hpar)).resolve_left hout)
      exact .inr (mem_append_left _ ((hlink parent other hoth).mpr hpar))

def childrenToCome (getChildren : κ → List κ) (nodes : Finset κ) (yieldResults : Dict κ Bool) : Nat :=
  ∑ node ∈ nodes, if node ∈ yieldResults then 0 else (getChildren node).length

theorem childrenToCome_visit {nodes : Finset κ} (hnodes : ∀ node, getChildren node ≠ [] → node ∈ nodes)
    {yieldResults : Dict κ Bool} (hnode : node ∉ yieldResults) (shouldYield : Bool) :
    childrenToCome getChildren nodes (yieldResults.insert node shouldYield) + (getChildren node).length =
      childrenToCome getChildren nodes yieldResults := by
  have hrest : ∀ other, other ≠ node →
      (if other ∈ yieldResults.insert node shouldYield then 0 else (getChildren other).length) =
        if other ∈ yieldResults then 0 else (getChildren other).length := by
    intro other hoth
    simp only [mem_insert, hoth, false_or]
  have hhere : node ∈ yieldResults.insert node shouldYield := (mem_insert _).mpr (.inl rfl)
  unfold childrenToCome
  by_cases hmem : node ∈ nodes
  · rw [← Finset.add_sum_erase nodes _ hmem, ← Finset.add_sum_erase nodes _ hmem, if_pos hhere, if_neg hnode,
      Nat.zero_add, Nat.add_comm]
    exact congrArg _ (Finset.sum_congr rfl fun other hoth => hrest other (Finset.ne_of_mem_erase hoth))
  · have hleaf : getChildren node = [] := by
      by_contra hne
      exact hmem (hnodes node hne)
    rw [hleaf, length_nil, Nat.add_zero]
    refine Finset.sum_congr rfl fun other hoth => hrest other ?_
    rintro rfl
    exact hmem hoth

theorem Visiting.round (hyiel : yieldDescendants = true ∨ ∀ node, filterFunc node = true)
    (hlink : LinkedBelow getParents getChildren startNode) {nodes : Finset κ}
    (hnodes : ∀ node, getChildren node ≠ [] → node ∈ nodes)
    (hvis : Visiting getParents getChildren filterFunc startNode order state)
    (hact : active state = true) :
    ∃ next, Traversal.round (fixedGraph getParents getChildren filterFunc yieldDescendants) startNode state =
        .ok next ∧
      (∃ order, Visiting getParents getChildren filterFunc startNode order next) ∧
      next.stack.length + childrenToCome getChildren nodes next.yieldResults <
        state.stack.length + childrenToCome getChildren nodes state.yieldResults := by
  cases hstack : state.stack with
  | nil =>
    rw [active, hstack] at hact
    cases hact
  | cons node rest =>
    have hpass := passedOver_fixed hyiel hlink hvis (hstack ▸ mem_cons_self)
    rw [Traversal.round, hstack]
    dsimp only
    by_cases hrdy : parentsBelow getParents startNode node ⊆ order
    · rw [if_neg (not_eq_true _ ▸ hpass.mpr hrdy)]
      by_cases hnode : node ∈ order
      · rw [if_pos ((hvis.visited node).mpr hnode)]
        exact ⟨_, rfl, ⟨order, hvis.pop hstack (.inl hnode)⟩, Nat.add_lt_add_right (lt_succ_self _) _⟩
      · have hout : node ∉ state.yieldResults := fun hmem => hnode ((hvis.visited node).mp hmem)
        rw [if_neg hout]
        refine ⟨_, rfl, ⟨order ++ [node], hvis.visit hlink hstack hnode hrdy⟩, ?_⟩
        rw [← childrenToCome_visit hnodes hout (filterFunc node)]
        change (getChildren node ++ rest).length +
          childrenToCome getChildren nodes (state.yieldResults.insert node (filterFunc node)) < _
        rw [length_append, length_cons]
        omega
    · rw [if_pos (Bool.of_not_eq_false fun hfalse => hrdy (hpass.mp hfalse))]
      exact ⟨_, rfl, ⟨order, hvis.pop hstack (.inr hrdy)⟩, Nat.add_lt_add_right (lt_succ_self _) _⟩

theorem visiting_start (graph : Unit) :
    Visiting getParents getChildren filterFunc startNode [] (start startNode graph) where
  visited := fun node => iff_of_false (notMem_empty node) not_mem_nil
  results := fun node result hres => by cases hres
  yielded := rfl
  nodup := nodup_nil
  before := DependencyOrder.nil
  settled := fun node hnode => nomatch hnode
  stack := fun node hnode => .inl (mem_singleton.mp hnode)
  start := .inr mem_cons_self
  pending := fun node _ hne hsub => absurd (List.subset_nil.mp hsub) hne

end Traversal

/-- A topological order of the nodes below a start node. -/
structure TopologicalOrder (getParents : κ → List κ) (startNode : κ) (order : List κ) : Prop where
  nodup : order.Nodup
  before : DependencyOrder (parentsBelow getParents startNode) order
  mem_iff : ∀ node, node ∈ order ↔ Settled getParents startNode node

theorem TopologicalOrder.parents_before {getParents : κ → List κ} {startNode : κ} {order : List κ}
    (hord : TopologicalOrder getParents startNode order) (hst : getParents startNode = []) :
    DependencyOrder getParents order := by
  intro front node back heq
  have hbef := hord.before front node back heq
  unfold parentsBelow at hbef
  split at hbef
  · next hnode =>
      rw [hnode, hst]
      exact List.nil_subset front
  · exact hbef

/-- A topological traversal yields the settled nodes that its filter accepts in a topological order. -/
theorem traverseTopologically_yields {getParents getChildren : κ → List κ} {filterFunc : κ → Bool}
    {yieldDescendants : Bool} {startNode : κ} (hyiel : yieldDescendants = true ∨ ∀ node, filterFunc node = true)
    (hlink : LinkedBelow getParents getChildren startNode)
    (hfin : {parent | ∃ child, child ∈ getChildren parent}.Finite) :
    ∃ order bound last, TopologicalOrder getParents startNode order ∧ (∀ fuel, bound ≤ fuel →
        traverseGeneric (fixedGraph getParents getChildren filterFunc yieldDescendants) startNode () fuel =
          some (.ok last)) ∧
      last.yielded = order.filter filterFunc := by
  have hnodes : ∀ node, getChildren node ≠ [] → node ∈ hfin.toFinset := by
    intro node hne
    obtain ⟨child, hch⟩ := exists_mem_of_ne_nil _ hne
    exact hfin.mem_toFinset.mpr ⟨child, hch⟩
  obtain ⟨last, hleads, ⟨order, hvis⟩, hstop⟩ := whileLoop.of_invariant
    (fun state => ∃ order, Traversal.Visiting getParents getChildren filterFunc startNode order state)
    (fun state => state.stack.length + childrenToCome getChildren hfin.toFinset state.yieldResults)
    (fun state ⟨order, hvis⟩ hact => hvis.round hyiel hlink hnodes hact)
    (start startNode ()) ⟨[], visiting_start ()⟩
  obtain ⟨bound, hbound⟩ := hleads.returns hstop
  have hemp : last.stack = [] := by
    simpa [active] using hstop
  refine ⟨order, bound, last, ⟨hvis.nodup, hvis.before, fun node => ⟨hvis.settled node, ?_⟩⟩, hbound, hvis.yielded⟩
  intro hsett
  induction hsett with
  | start => exact hvis.start.resolve_right (hemp ▸ not_mem_nil)
  | node hnode hne _ ih => exact (hvis.pending _ hnode hne ih).resolve_right (hemp ▸ not_mem_nil)

/-! ## Finite graphs -/

def Traversal.visited (state : Traversal κ Unit) : List κ := state.yieldResults.keys.reverse

/-- A finite acyclic graph, whose links are recorded on both of their ends. -/
structure Dag (κ : Type) where
  nodes : Finset κ
  getParents : κ → List κ
  getChildren : κ → List κ
  linked : ∀ parent child, child ∈ getChildren parent ↔ parent ∈ getParents child
  mem_nodes : ∀ parent child, child ∈ getChildren parent → parent ∈ nodes ∧ child ∈ nodes
  acyclic : Acyclic fun parent child => child ∈ getChildren parent

namespace Dag

variable (dag : Dag κ) (startNode : κ) (filterFunc : κ → Bool)

/-- What has been yielded and visited between two rounds of a topological traversal. -/
structure ParentsVisited (state : Traversal κ Unit) : Prop where
  yielded : state.yielded = state.visited.filter filterFunc
  before : DependencyOrder (parentsBelow dag.getParents startNode) state.visited

variable {dag startNode filterFunc}

theorem ParentsVisited.round {state next : Traversal κ Unit} (hstate : dag.ParentsVisited startNode filterFunc state)
    (hround : state.round (fixedGraph dag.getParents dag.getChildren filterFunc true) startNode = .ok next) :
    dag.ParentsVisited startNode filterFunc next := by
  unfold Traversal.round at hround
  split at hround
  · exact ok.inj hround ▸ hstate
  · next node rest hstack =>
    split at hround
    · exact ok.inj hround ▸ ⟨hstate.yielded, hstate.before⟩
    · next hpas =>
      split at hround
      · exact ok.inj hround ▸ ⟨hstate.yielded, hstate.before⟩
      · next hnew =>
        have hvisi : (state.yieldResults.insert node (filterFunc node)).keys.reverse = state.visited ++ [node] := by
          rw [AList.keys_insert, List.erase_of_not_mem hnew, reverse_cons]
          rfl
        have hpars : parentsBelow dag.getParents startNode node ⊆ state.visited := by
          intro parent hpar
          unfold parentsBelow at hpar
          split at hpar
          · cases hpar
          · next hne =>
            have hall : ∀ parent ∈ dag.getParents node, parent ∈ state.yieldResults := by
              simpa [passedOver, fixedGraph, hne] using hpas
            exact List.mem_reverse.mpr (hall parent hpar)
        obtain rfl := ok.inj hround
        constructor
        · change _ = ((state.yieldResults.insert node (filterFunc node)).keys.reverse).filter filterFunc
          rw [hvisi, filter_append, ← hstate.yielded, List.filter_singleton]
          cases filterFunc node with
          | false => exact (append_nil _).symm
          | true => rfl
        · change DependencyOrder _ (state.yieldResults.insert node (filterFunc node)).keys.reverse
          exact hvisi ▸ hstate.before.concat hpars

omit [DecidableEq κ] in
theorem finite_sources (dag : Dag κ) : {parent | ∃ child, child ∈ dag.getChildren parent}.Finite :=
  dag.nodes.finite_toSet.subset fun parent ⟨child, hch⟩ => (dag.mem_nodes parent child hch).1

omit [DecidableEq κ] in
theorem parents_start (hreach : ∀ node ∈ dag.nodes, ReflTransGen (fun parent child => child ∈ dag.getChildren parent)
    startNode node) : dag.getParents startNode = [] := by
  refine List.eq_nil_iff_forall_not_mem.mpr fun parent hpar => ?_
  have hedge := (dag.linked parent startNode).mpr hpar
  exact dag.acyclic startNode (TransGen.tail' (hreach parent (dag.mem_nodes _ _ hedge).1) hedge)

omit [DecidableEq κ] in
theorem settled (hreach : ∀ node ∈ dag.nodes, ReflTransGen (fun parent child => child ∈ dag.getChildren parent)
    startNode node) {node : κ} (hnode : node ∈ dag.nodes) : Settled dag.getParents startNode node := by
  have hfin : {child | ∃ parent, child ∈ dag.getChildren parent}.Finite :=
    dag.nodes.finite_toSet.subset fun child ⟨parent, hedge⟩ => (dag.mem_nodes parent child hedge).2
  induction node using (dag.acyclic.wellFounded hfin).induction with
  | _ node ih =>
    rcases (hreach node hnode).cases_tail with rfl | ⟨parent, -, hedge⟩
    · exact .start
    · refine .node ?_ (ne_nil_of_mem ((dag.linked parent node).mp hedge)) fun other hother => ?_
      · rintro rfl
        exact not_mem_nil (parents_start hreach ▸ (dag.linked parent node).mp hedge)
      · have hother := (dag.linked other node).mpr hother
        exact ih other hother (dag.mem_nodes other node hother).1

/-- A post-order traversal yields what can be reached through accepted nodes, and a topological traversal that goes
on below nodes not yielded comes to all nodes and yields the accepted ones. -/
theorem traversals_complete (dag : Dag κ) (startNode : κ) (filterFunc : κ → Bool) :
    (∃ bound last, (∀ fuel, bound ≤ fuel →
        traversePostOrder startNode dag.getChildren filterFunc fuel = some (.ok last)) ∧
      last.visited.Nodup ∧ DependencyOrder (acceptedChildren dag.getChildren filterFunc) last.visited ∧
      ∀ node, node ∈ last.visited ↔ filterFunc startNode = true ∧ ReflTransGen (fun parent child =>
        child ∈ acceptedChildren dag.getChildren filterFunc parent) startNode node) ∧
    ((∀ node ∈ dag.nodes, ReflTransGen (fun parent child => child ∈ dag.getChildren parent) startNode node) →
      ∃ bound last, (∀ fuel, bound ≤ fuel → traverseGeneric
          (fixedGraph dag.getParents dag.getChildren filterFunc true) startNode () fuel = some (.ok last)) ∧
        last.yielded.Nodup ∧ (∀ node ∈ dag.nodes, node ∈ last.yielded ↔ filterFunc node = true) ∧
        last.yielded = last.visited.filter filterFunc ∧ DependencyOrder dag.getParents last.visited) := by
  constructor
  · cases hstart : filterFunc startNode with
    | false =>
      refine ⟨1, ⟨[], []⟩, fun fuel hfuel => ?_, nodup_nil, DependencyOrder.nil, fun node => ?_⟩
      · obtain ⟨fuel, rfl⟩ := Nat.exists_eq_add_of_le' hfuel
        exact traversePostOrder_rejected dag.getChildren hstart fuel
      · exact iff_of_false not_mem_nil fun hboth => absurd hboth.1 false_ne_true
    | true =>
      obtain ⟨bound, last, hbound, horder⟩ := traversePostOrder_yields dag.acyclic dag.finite_sources hstart
      exact ⟨bound, last, hbound, horder.nodup, horder.before,
        fun node => (horder.mem_iff node).trans (and_iff_right rfl).symm⟩
  · intro hreach
    obtain ⟨order, bound, last, horder, hbound, hyielded⟩ := @traverseTopologically_yields κ _ dag.getParents
      dag.getChildren filterFunc true startNode (.inl rfl) (fun parent child _ => dag.linked parent child)
      dag.finite_sources
    have hvisited : dag.ParentsVisited startNode filterFunc last :=
      whileLoop.returned (fun _ _ hstate => hstate.round) ⟨rfl, DependencyOrder.nil⟩ (hbound bound le_rfl)
    refine ⟨bound, last, hbound, hyielded ▸ horder.nodup.filter _, fun node hnode => ?_, hvisited.yielded, ?_⟩
    · rw [hyielded, mem_filter]
      exact and_iff_right ((horder.mem_iff node).mpr (settled hreach hnode))
    · have hparents : parentsBelow dag.getParents startNode = dag.getParents := by
        funext node
        unfold parentsBelow
        split
        · next heq => rw [heq, parents_start hreach]
        · rfl
      exact hparents ▸ hvisited.before

def diamond : Dag (Fin 4) where
  nodes := Finset.univ
  getParents node := [[], [0], [0], [1, 2]].get node
  getChildren node := [[1, 2], [3], [3], []].get node
  linked := by decide
  mem_nodes := fun _ _ _ => ⟨Finset.mem_univ _, Finset.mem_univ _⟩
  acyclic := Acyclic.of_rank (fun node => node.val) (by decide)

theorem diamond_traversals : ∃ bound last, (∀ fuel, bound ≤ fuel → traverseGeneric
      (fixedGraph diamond.getParents diamond.getChildren (fun node => node != 1) true) 0 () fuel = some (.ok last)) ∧
    last.yielded.Nodup ∧ (∀ node ∈ diamond.nodes, node ∈ last.yielded ↔ (node != 1) = true) ∧
    last.yielded = last.visited.filter (fun node => node != 1) ∧
    DependencyOrder diamond.getParents last.visited := by
  have hfirst : ReflTransGen (fun parent child => child ∈ diamond.getChildren parent) 0 1 := .single (by decide)
  exact (traversals_complete diamond 0 fun node => node != 1).2 fun
    | 0, _ => .refl
    | 1, _ => hfirst
    | 2, _ => .single (by decide)
    | 3, _ => hfirst.tail (by decide)

end Dag

namespace BlockStructure

variable {δ : Type}

/-- `topological_traversal`, run to its end. -/
def topologicalTraversal (blocks : BlockStructure κ δ) (fuel : Nat) (filterFunc : κ → Bool := fun _ => true)
    (yieldDescendantsOfUnyielded : Bool := false) : ExceptT PyError Option (List κ) := do
  let traversal : Traversal κ Unit ← traverseGeneric
    (fixedGraph blocks.getParents blocks.getChildren filterFunc yieldDescendantsOfUnyielded)
    blocks.rootBlockUsageKey () fuel
  return traversal.yielded

variable {blocks : BlockStructure κ δ}

section

variable (hcoll : blocks.Collected)
include hcoll

theorem Collected.root_parents : blocks.getParents blocks.rootBlockUsageKey = [] := by
  refine List.eq_nil_iff_forall_not_mem.mpr fun parent hpar => ?_
  have hedge : blocks.Edge parent blocks.rootBlockUsageKey := by
    refine count_pos_iff.mp ?_
    rw [hcoll.count_eq]
    exact count_pos_iff.mpr hpar
  exact hcoll.acyclic _ (TransGen.tail' (hcoll.rooted parent (mem_of_linksOf hedge)) hedge)

theorem Collected.edge_iff {parent child : κ} : blocks.Edge parent child ↔ parent ∈ blocks.getParents child := by
  change child ∈ blocks.getChildren parent ↔ _
  rw [← count_pos_iff, hcoll.count_eq, count_pos_iff]

theorem Collected.parents_eq_nil_iff {key : κ} (hkey : key ∈ blocks) :
    blocks.getParents key = [] ↔ key = blocks.rootBlockUsageKey := by
  constructor
  · intro hnone
    by_contra hne
    obtain ⟨parent, -, hedge⟩ := (ReflTransGen.cases_tail (hcoll.rooted key hkey)).resolve_left hne
    exact ne_nil_of_mem (hcoll.edge_iff.mp hedge) hnone
  · rintro rfl
    exact hcoll.root_parents

theorem Collected.settled {key : κ} (hkey : key ∈ blocks) :
    Settled blocks.getParents blocks.rootBlockUsageKey key := by
  have hfin : {child | ∃ parent, blocks.Edge parent child}.Finite :=
    Set.Finite.subset (List.finite_toSet blocks.blockRelations.keys) fun child ⟨parent, hedge⟩ =>
      hcoll.child_mem parent child hedge
  induction key using (hcoll.acyclic.wellFounded hfin).induction with
  | _ key ih =>
    by_cases hroot : key = blocks.rootBlockUsageKey
    · rw [hroot]
      exact .start
    · exact .node hroot (fun hnone => hroot ((hcoll.parents_eq_nil_iff hkey).mp hnone)) fun parent hpar =>
        ih parent (hcoll.edge_iff.mpr hpar) (mem_of_linksOf (hcoll.edge_iff.mpr hpar))

theorem Settled.mem {key : κ} (hsett : Settled blocks.getParents blocks.rootBlockUsageKey key) : key ∈ blocks := by
  cases hsett with
  | start => exact hcoll.root_mem
  | node _ hne _ =>
    obtain ⟨parent, hpar⟩ := exists_mem_of_ne_nil _ hne
    exact mem_of_linksOf hpar

end

theorem topologicalTraversal_yields {filterFunc : κ → Bool} {yieldDescendants : Bool}
    (hyiel : yieldDescendants = true ∨ ∀ node, filterFunc node = true)
    (hlink : LinkedBelow blocks.getParents blocks.getChildren blocks.rootBlockUsageKey) :
    ∃ order bound, TopologicalOrder blocks.getParents blocks.rootBlockUsageKey order ∧ ∀ fuel, bound ≤ fuel →
      blocks.topologicalTraversal fuel filterFunc yieldDescendants = some (.ok (order.filter filterFunc)) := by
  obtain ⟨order, bound, last, hord, hbound, hyield⟩ := traverseTopologically_yields hyiel hlink (finite_parents blocks)
  refine ⟨order, bound, hord, fun fuel hfuel => ?_⟩
  unfold topologicalTraversal
  rw [hbound fuel hfuel, ← hyield]
  rfl

theorem Collected.topologicalTraversal (hcoll : blocks.Collected) :
    ∃ order bound, (order.Nodup ∧ DependencyOrder blocks.getParents order ∧ ∀ key, key ∈ order ↔ key ∈ blocks) ∧
      ∀ fuel, bound ≤ fuel → blocks.topologicalTraversal fuel = some (.ok order) := by
  obtain ⟨order, bound, hord, hbound⟩ := @topologicalTraversal_yields κ _ δ blocks (fun _ => true) false
    (.inr fun _ => rfl) fun _ _ _ => hcoll.edge_iff
  refine ⟨order, bound, ⟨hord.nodup, hord.parents_before hcoll.root_parents,
    fun key => (hord.mem_iff key).trans ⟨Settled.mem hcoll, hcoll.settled⟩⟩, fun fuel hfuel => ?_⟩
  rw [hbound fuel hfuel, filter_true]

end BlockStructure

end EdxPlatform
