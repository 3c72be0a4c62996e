import EdxPlatform.Lib.Dict

/-!
# Values computed in the order of dependencies

When every node comes after the nodes it depends on, one pass over the order computes a value for each node from
the values of the nodes it depends on.
-/

namespace EdxPlatform

variable {α β : Type}

def DependencyOrder (dependencies : α → List α) (order : List α) : Prop :=
  ∀ front node back, order = front ++ node :: back → dependencies node ⊆ front

namespace DependencyOrder

variable {dependencies : α → List α} {order front back : List α} {node : α}

theorem nil : DependencyOrder dependencies [] := by
  intro front node back heq
  exact absurd heq.symm (List.append_ne_nil_of_right_ne_nil front (cons_ne_nil node back))

theorem of_append (hord : DependencyOrder dependencies (front ++ back)) : DependencyOrder dependencies front := by
  rintro before node behind rfl
  exact hord before node (behind ++ back) (by rw [append_assoc, cons_append])

theorem concat (hord : DependencyOrder dependencies order) (hnode : dependencies node ⊆ order) :
    DependencyOrder dependencies (order ++ [node]) := by
  intro front other back heq
  rcases List.eq_nil_or_concat' back with rfl | ⟨behind, last, rfl⟩
  · obtain ⟨rfl, hoth⟩ := append_inj' heq rfl
    rwa [← (cons.inj hoth).1]
  · have hassoc : front ++ other :: (behind ++ [last]) = (front ++ other :: behind) ++ [last] := by
      rw [append_assoc, cons_append]
    obtain ⟨rfl, -⟩ := append_inj' (heq.trans hassoc) rfl
    exact hord front other behind rfl

theorem append {nodes : List α} (hord : DependencyOrder dependencies order)
    (hnodes : ∀ node ∈ nodes, dependencies node ⊆ order) : DependencyOrder dependencies (order ++ nodes) := by
  induction nodes using reverseRecOn with
  | nil => rwa [append_nil]
  | append_singleton nodes last ih =>
    rw [← append_assoc]
    exact (ih fun node hnode => hnodes node (mem_append_left _ hnode)).concat
      (List.Subset.trans (hnodes last (mem_append_right _ mem_cons_self)) (List.subset_append_left _ _))

theorem last (hord : DependencyOrder dependencies (order ++ [node])) : dependencies node ⊆ order :=
  hord order node [] rfl

theorem closed (hord : DependencyOrder dependencies order) (hnode : node ∈ order) : dependencies node ⊆ order := by
  obtain ⟨front, back, rfl⟩ := append_of_mem hnode
  exact fun other hoth => mem_append_left _ (hord front node back rfl hoth)

theorem tagged {τ : Type} (hord : DependencyOrder dependencies order) (tags : List τ) :
    DependencyOrder (fun node : α × τ => (dependencies node.1).map (·, node.2))
      (order.flatMap fun node => tags.map (node, ·)) := by
  induction order using reverseRecOn with
  | nil => exact nil
  | append_singleton order last ih =>
    rw [flatMap_append, flatMap_singleton]
    refine (ih hord.of_append).append ?_
    rintro node hnode dependency hdep
    obtain ⟨tag, htag, rfl⟩ := mem_map.mp hnode
    obtain ⟨other, hoth, rfl⟩ := mem_map.mp hdep
    exact mem_flatMap.mpr ⟨other, hord.last hoth, mem_map.mpr ⟨tag, htag, rfl⟩⟩

end DependencyOrder

variable [DecidableEq α]

abbrev NodeRule (α β : Type) := α → (α → Option β) → β

/-- The rule asks for nothing but the values of the nodes that a node depends on. -/
def NodeRule.Local (dependencies : α → List α) (rule : NodeRule α β) : Prop :=
  ∀ node known known', (∀ other ∈ dependencies node, known other = known' other) → rule node known = rule node known'

def computeStep (rule : NodeRule α β) (data : Dict α β) (node : α) : Dict α β :=
  data.insert node (rule node fun other => data.lookup other)

def computeAlong (rule : NodeRule α β) (order : List α) (data : Dict α β) : Dict α β :=
  order.foldl (computeStep rule) data

theorem computeAlong_lookup {dependencies : α → List α} {rule : NodeRule α β} (hlocal : rule.Local dependencies)
    {order : List α} (hord : DependencyOrder dependencies order) (data : Dict α β) {node : α} (hnode : node ∈ order) :
    (computeAlong rule order data).lookup node =
      some (rule node fun other => (computeAlong rule order data).lookup other) := by
  induction order using reverseRecOn generalizing node with
  | nil => cases hnode
  | append_singleton order last ih =>
    have hbef : ∀ other ∈ order, (computeAlong rule order data).lookup other =
        some (rule other fun dependency => (computeAlong rule order data).lookup dependency) :=
      fun other hoth => ih hord.of_append hoth
    have hlast := hord.last
    have hstep : computeAlong rule (order ++ [last]) data = computeStep rule (computeAlong rule order data) last :=
      foldl_append
    -- a node that comes again gets the value that it has
    have hsame : ∀ other ∈ order, (computeAlong rule (order ++ [last]) data).lookup other =
        (computeAlong rule order data).lookup other := by
      intro other hoth
      rw [hstep, computeStep]
      by_cases heq : other = last
      · rw [heq, lookup_insert_self, ← hbef last (heq ▸ hoth)]
      · rw [lookup_insert_of_ne heq]
    have hrule : ∀ other, dependencies other ⊆ order →
        rule other (fun dependency => (computeAlong rule (order ++ [last]) data).lookup dependency) =
          rule other fun dependency => (computeAlong rule order data).lookup dependency :=
      fun other hdepe => hlocal other _ _ fun dependency hdep => hsame dependency (hdepe hdep)
    by_cases hmem : node ∈ order
    · rw [hsame node hmem, hbef node hmem, hrule node (hord.of_append.closed hmem)]
    · obtain rfl := mem_singleton.mp ((mem_append.mp hnode).resolve_left hmem)
      rw [hrule node hlast, hstep, computeStep, lookup_insert_self]

/-- A pass that may stop: what each step makes of the values that a node depends on holds of all values. -/
theorem foldlM_along {m : Type → Type} [Monad m] [LawfulMonad m] {dependencies : α → List α}
    {step : Dict α β → α → m (Dict α β)} {P : α → β → Prop} {order : List α}
    (hord : DependencyOrder dependencies order)
    (hstep : ∀ data, ∀ node ∈ order,
      (∀ other ∈ dependencies node, ∃ value, data.lookup other = some value ∧ P other value) →
      ∃ value, step data node = pure (data.insert node value) ∧ P node value) (data : Dict α β) :
    ∃ last, order.foldlM step data = pure last ∧
      ∀ node ∈ order, ∃ value, last.lookup node = some value ∧ P node value := by
  induction order using reverseRecOn with
  | nil => exact ⟨data, rfl, fun node hnode => nomatch hnode⟩
  | append_singleton order node ih =>
    obtain ⟨before, hbef, hvals⟩ := ih hord.of_append fun data other hoth => hstep data other (mem_append_left _ hoth)
    obtain ⟨value, hval, hnode⟩ := hstep before node (mem_append_right _ mem_cons_self)
      fun other hoth => hvals other (hord.last hoth)
    refine ⟨before.insert node value, ?_, fun other hoth => ?_⟩
    · rw [List.foldlM_append, hbef, pure_bind, foldlM_cons, hval, pure_bind, List.foldlM_nil]
    · by_cases heq : other = node
      · exact ⟨value, heq ▸ lookup_insert_self _ _ _, heq ▸ hnode⟩
      · rw [lookup_insert_of_ne heq]
        exact hvals other ((mem_append.mp hoth).resolve_right fun hlast => heq (mem_singleton.mp hlast))

end EdxPlatform
