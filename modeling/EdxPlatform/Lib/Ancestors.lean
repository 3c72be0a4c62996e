import Mathlib.Order.Basic

/-!
# Ancestors in a tree

A tree is given by the parents of its nodes; the depth says that the way up ends.
-/

namespace EdxPlatform

structure Ancestry (κ : Type) where
  parent : κ → Option κ
  depth : κ → Nat
  parent_depth : ∀ child above, parent child = some above → depth above < depth child

namespace Ancestry

variable {κ : Type} (tree : Ancestry κ)

def lineage (key : κ) : List κ :=
  match _hparent : tree.parent key with
  | none => []
  | some above => above :: lineage above
termination_by tree.depth key
decreasing_by exact tree.parent_depth key above _hparent

end Ancestry

end EdxPlatform
