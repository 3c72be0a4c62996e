import Mathlib.Algebra.BigOperators.Fin
import Mathlib.Data.Set.Card
import EdxPlatform.Lib.Acyclic

/-!
# Routes

A route goes down from a node of a graph and says at each node to which of its children it goes on; two routes
may end in one node.
-/

namespace EdxPlatform

open Relation

variable {κ : Type}

def follow (getChildren : κ → List κ) (top : κ) : List Nat → Option κ
  | [] => some top
  | position :: route => (getChildren top)[position]?.bind fun child => follow getChildren child route

variable {getChildren : κ → List κ} {top child node : κ}

theorem follow_cons {position : Nat} {route : List Nat} : follow getChildren top (position :: route) = some node ↔
      ∃ child, (getChildren top)[position]? = some child ∧ follow getChildren child route = some node :=
  Option.bind_eq_some_iff

theorem exists_route_iff : (∃ route, follow getChildren top route = some node) ↔
      ReflTransGen (fun parent child => child ∈ getChildren parent) top node := by
  constructor
  · rintro ⟨route, hroute⟩
    induction route generalizing top with
    | nil =>
      cases hroute
      exact ReflTransGen.refl
    | cons position route ih =>
      obtain ⟨child, hch, hrest⟩ := follow_cons.mp hroute
      exact ReflTransGen.head (List.mem_of_getElem? hch) (ih hrest)
  · intro hrch
    induction hrch using ReflTransGen.head_induction_on with
    | refl => exact ⟨[], rfl⟩
    | head hstep _ ih =>
      obtain ⟨position, hpos⟩ := List.mem_iff_getElem?.mp hstep
      obtain ⟨route, hroute⟩ := ih
      exact ⟨position :: route, follow_cons.mpr ⟨_, hpos, hroute⟩⟩

/-- `routes` are all the routes from a node, with the nodes that they end in. -/
def AllRoutes (getChildren : κ → List κ) (top : κ) (routes : Finset (List Nat × κ)) : Prop :=
  ∀ route node, (route, node) ∈ routes ↔ follow getChildren top route = some node

def prepend (position : Nat) : List Nat × κ ↪ List Nat × κ where
  toFun route := (position :: route.1, route.2)
  inj' := fun _ _ heq => Prod.ext (List.cons.inj (Prod.mk.inj heq).1).2 (Prod.mk.inj heq).2

open Classical in
/-- The routes that go on with one of the routes from the child at each position. -/
noncomputable def routesBelow {positions : Nat} (routesOf : Fin positions → Finset (List Nat × κ)) :
    Finset (List Nat × κ) :=
  Finset.univ.biUnion fun position => (routesOf position).map (prepend position)

theorem mem_routesBelow {positions : Nat} {routesOf : Fin positions → Finset (List Nat × κ)} {route : List Nat} :
    (route, node) ∈ routesBelow routesOf ↔
      ∃ position rest, route = position.val :: rest ∧ (rest, node) ∈ routesOf position := by
  unfold routesBelow
  simp only [Finset.mem_biUnion, Finset.mem_univ, true_and, Finset.mem_map]
  constructor
  · rintro ⟨position, ⟨rest, other⟩, hmem, heq⟩
    obtain ⟨rfl, rfl⟩ := Prod.mk.inj heq
    exact ⟨position, rest, rfl, hmem⟩
  · rintro ⟨position, rest, rfl, hmem⟩
    exact ⟨position, (rest, node), hmem, rfl⟩

open Classical in
theorem sum_routesBelow {M : Type} [AddCommMonoid M] {positions : Nat}
    (routesOf : Fin positions → Finset (List Nat × κ)) (own : κ → M) :
    ∑ route ∈ routesBelow routesOf, own route.2 = ∑ position, ∑ route ∈ routesOf position, own route.2 := by
  unfold routesBelow
  rw [Finset.sum_biUnion]
  · exact Finset.sum_congr rfl fun position _ => Finset.sum_map _ _ _
  · intro first _ second _ hne
    refine Finset.disjoint_left.mpr fun route hfst hsec => hne (Fin.ext ?_)
    obtain ⟨_, _, rfl⟩ := Finset.mem_map.mp hfst
    obtain ⟨_, _, heq⟩ := Finset.mem_map.mp hsec
    exact (List.cons.inj (Prod.mk.inj heq).1).1.symm

open Classical in
theorem AllRoutes.step {routesOf : Fin (getChildren top).length → Finset (List Nat × κ)}
    (hrout : ∀ position, AllRoutes getChildren (getChildren top)[position] (routesOf position)) :
    AllRoutes getChildren top (insert ([], top) (routesBelow routesOf)) := by
  intro route node
  rw [Finset.mem_insert, mem_routesBelow]
  cases route with
  | nil =>
    constructor
    · rintro (heq | ⟨position, rest, heq, -⟩)
      · exact congrArg some (Prod.mk.inj heq).2.symm
      · cases heq
    · rintro ⟨⟩
      exact Or.inl rfl
  | cons position route =>
    rw [follow_cons]
    constructor
    · rintro (heq | ⟨position, rest, heq, hmem⟩)
      · cases heq
      · obtain ⟨rfl, rfl⟩ := List.cons.inj heq
        exact ⟨_, List.getElem?_eq_getElem position.isLt, (hrout position _ _).mp hmem⟩
    · rintro ⟨child, hpos, hroute⟩
      obtain ⟨hlt, rfl⟩ := List.getElem?_eq_some_iff.mp hpos
      exact Or.inr ⟨⟨position, hlt⟩, route, rfl, (hrout ⟨position, hlt⟩ _ _).mpr hroute⟩

/-- The total of a node is its own value and the totals of its children, each as often as it is a child. -/
def Accumulates {M : Type} [AddCommMonoid M] (getChildren : κ → List κ) (own total : κ → M) (node : κ) : Prop :=
  total node = own node + ((getChildren node).map total).sum

open Classical in
/-- The routes from a node are finitely many, and what is handed up to it adds up what lies at their ends. -/
theorem exists_allRoutes (hwf : WellFounded fun child parent => child ∈ getChildren parent) (top : κ) :
    ∃ routes : Finset (List Nat × κ), AllRoutes getChildren top routes ∧
      ∀ {M : Type} [AddCommMonoid M] (own total : κ → M),
        (∀ node, ReflTransGen (fun parent child => child ∈ getChildren parent) top node →
          Accumulates getChildren own total node) →
        total top = ∑ route ∈ routes, own route.2 := by
  induction top using hwf.induction with
  | _ top ih =>
    have hch : ∀ position : Fin (getChildren top).length, (getChildren top)[position] ∈ getChildren top :=
      fun position => List.getElem_mem position.isLt
    choose routesOf hrout hsums using fun position => ih _ (hch position)
    refine ⟨insert ([], top) (routesBelow routesOf), AllRoutes.step hrout, ?_⟩
    intro M _ own total htotal
    have hhere : ([], top) ∉ routesBelow routesOf := by
      rw [mem_routesBelow]
      rintro ⟨position, rest, heq, -⟩
      cases heq
    have hparts : ∀ position, total (getChildren top)[position] = ∑ route ∈ routesOf position, own route.2 :=
      fun position => hsums position own total fun node hrch => htotal node (ReflTransGen.head (hch position) hrch)
    rw [htotal top ReflTransGen.refl, Finset.sum_insert hhere, sum_routesBelow, ← Fin.sum_univ_fun_getElem]
    exact congrArg _ (Finset.sum_congr rfl fun position _ => hparts position)

open Classical in
theorem AllRoutes.ncard_eq {routes : Finset (List Nat × κ)} (hrout : AllRoutes getChildren top routes) (node : κ) :
    {route | follow getChildren top route = some node}.ncard = (routes.filter fun route => route.2 = node).card := by
  have himage : {route | follow getChildren top route = some node} =
      Prod.fst '' ((routes.filter fun route => route.2 = node : Finset _) : Set (List Nat × κ)) := by
    ext route
    constructor
    · intro hroute
      exact ⟨(route, node), Finset.mem_coe.mpr (Finset.mem_filter.mpr ⟨(hrout route node).mpr hroute, rfl⟩), rfl⟩
    · rintro ⟨⟨route, other⟩, hmem, rfl⟩
      obtain ⟨hin, heq⟩ := Finset.mem_filter.mp (Finset.mem_coe.mp hmem)
      exact heq ▸ (hrout route other).mp hin
  rw [himage, Set.InjOn.ncard_image, Set.ncard_coe_finset]
  intro first hfst second hsec heq
  exact Prod.ext heq ((Finset.mem_filter.mp (Finset.mem_coe.mp hfst)).2.trans
    (Finset.mem_filter.mp (Finset.mem_coe.mp hsec)).2.symm)

open Classical in
theorem sum_routes_eq {M : Type} [AddCommMonoid M] {routes : Finset (List Nat × κ)}
    (hrout : AllRoutes getChildren top routes) (own : κ → M) (ends : Finset κ)
    (hends : ∀ node, own node ≠ 0 → node ∈ ends) :
    ∑ route ∈ routes, own route.2 =
      ∑ node ∈ ends, {route | follow getChildren top route = some node}.ncard • own node := by
  calc ∑ route ∈ routes, own route.2
      = ∑ route ∈ routes.filter fun route => route.2 ∈ ends, own route.2 := by
        refine (Finset.sum_filter_of_ne fun route _ hne => hends _ hne).symm
    _ = ∑ node ∈ ends, ∑ route ∈ (routes.filter fun route => route.2 ∈ ends).filter fun route => route.2 = node,
          own route.2 :=
        (Finset.sum_fiberwise_of_maps_to (fun route hroute => (Finset.mem_filter.mp hroute).2) _).symm
    _ = _ := by
        refine Finset.sum_congr rfl fun node hnode => ?_
        rw [hrout.ncard_eq, Finset.filter_filter]
        have hsame : (routes.filter fun route => route.2 ∈ ends ∧ route.2 = node) =
            routes.filter fun route => route.2 = node :=
          Finset.filter_congr fun route _ => and_iff_right_of_imp fun heq => heq ▸ hnode
        rw [hsame]
        exact Finset.sum_eq_card_nsmul fun route hroute => congrArg own (Finset.mem_filter.mp hroute).2

end EdxPlatform
