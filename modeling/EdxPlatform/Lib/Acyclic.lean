import Mathlib.Order.WellFoundedSet

/-!
# Acyclic relations

An acyclic relation on finitely many points can be recursed along in either
direction.
-/

namespace EdxPlatform

open Relation

variable {α : Type} {r : α → α → Prop}

def Acyclic (r : α → α → Prop) : Prop := ∀ a, ¬ TransGen r a a

theorem Acyclic.swap (hacyc : Acyclic r) : Acyclic (Function.swap r) :=
  fun a hcycle => hacyc a (transGen_swap.mp hcycle)

theorem Acyclic.mono {s : α → α → Prop} (hacyc : Acyclic r) (hle : ∀ a b, s a b → r a b) : Acyclic s :=
  fun a hcycle => hacyc a (TransGen.mono hle a a hcycle)

theorem Acyclic.of_rank (rank : α → Nat) (hrank : ∀ a b, r a b → rank a < rank b) : Acyclic r := by
  have hless : ∀ a b, TransGen r a b → rank a < rank b := by
    intro a b hpath
    induction hpath with
    | single hstep => exact hrank _ _ hstep
    | tail _ hstep ih => exact Nat.lt_trans ih (hrank _ _ hstep)
  exact fun a hcycle => Nat.lt_irrefl _ (hless a a hcycle)

/-- Induction from the ends of an acyclic relation: a point may use the claim
for all the points it leads to. -/
theorem Acyclic.wellFounded_swap (hacyc : Acyclic r) (hfin : {a | ∃ b, r a b}.Finite) :
    WellFounded (Function.swap r) := by
  have hstrict : IsStrictOrder α (fun a b => TransGen r b a) :=
    { irrefl := hacyc
      trans := fun _ _ _ hfst hsec => TransGen.trans hsec hfst }
  have hsour : {a | ∃ b, r a b}.WellFoundedOn (fun a b => TransGen r b a) := hfin.wellFoundedOn
  have hacc : ∀ a ∈ {a | ∃ b, r a b}, Acc (Function.swap r) a := by
    intro a ha
    refine hsour.induction ha (fun a _ ih => Acc.intro a fun b hstep => ?_)
    by_cases hb : ∃ c, r b c
    · exact ih b hb (TransGen.single hstep)
    · exact Acc.intro b fun c hc => absurd ⟨c, hc⟩ hb
  refine ⟨fun a => Acc.intro a fun b _ => ?_⟩
  by_cases hb : ∃ c, r b c
  · exact hacc b hb
  · exact Acc.intro b fun c hc => absurd ⟨c, hc⟩ hb

theorem Acyclic.wellFounded (hacyc : Acyclic r) (hfin : {b | ∃ a, r a b}.Finite) : WellFounded r :=
  hacyc.swap.wellFounded_swap hfin

open Classical in
theorem Acyclic.exists_rank (hacyc : Acyclic r) (nodes : Finset α) (hnodes : ∀ a b, r a b → a ∈ nodes) :
    ∃ rank : α → Nat, (∀ a b, r a b → rank a < rank b) ∧ ∀ a, rank a ≤ nodes.card := by
  refine ⟨fun b => (nodes.filter fun a => TransGen r a b).card, fun a b hedge => ?_,
    fun b => Finset.card_filter_le _ _⟩
  apply Finset.card_lt_card
  rw [Finset.ssubset_iff_of_subset]
  · exact ⟨a, Finset.mem_filter.mpr ⟨hnodes a b hedge, TransGen.single hedge⟩,
      fun hmem => hacyc a (Finset.mem_filter.mp hmem).2⟩
  · intro other hoth
    obtain ⟨hmem, hpath⟩ := Finset.mem_filter.mp hoth
    exact Finset.mem_filter.mpr ⟨hmem, hpath.tail hedge⟩

/-! ## Passing a point by -/

/-- `r` without `key`, the points before `key` joined to the points after it. -/
def bypass (r : α → α → Prop) (key a b : α) : Prop := (r a b ∧ a ≠ key ∧ b ≠ key) ∨ (r a key ∧ r key b)

theorem bypass_path {key a b : α} (hstep : bypass r key a b) : TransGen r a b := by
  rcases hstep with ⟨hstep, -⟩ | ⟨hin, hout⟩
  · exact .single hstep
  · exact .tail (.single hin) hout

theorem Acyclic.bypass (hacyc : Acyclic r) (key : α) : Acyclic (bypass r key) :=
  fun a hcycle => hacyc a (TransGen.lift' id (fun _ _ => bypass_path) a a hcycle)

/-- A path that comes to `key` goes on from the point before it. -/
theorem reaches_bypass {key a b : α} (hloop : ¬ r key key) (ha : a ≠ key) (hb : b ≠ key) :
    ReflTransGen (bypass r key) a b ↔ ReflTransGen r a b := by
  refine ⟨ReflTransGen.lift' id (fun _ _ hstep => (bypass_path hstep).to_reflTransGen) a b, fun hpath => ?_⟩
  have hall : (a ≠ key → ReflTransGen (bypass r key) a b) ∧
      (a = key → ∀ before, r before key → ReflTransGen (bypass r key) before b) := by
    clear ha
    induction hpath using ReflTransGen.head_induction_on with
    | refl => exact ⟨fun _ => .refl, fun heq => absurd heq hb⟩
    | @head first next hstep _ ih =>
      refine ⟨fun hfst => ?_, ?_⟩
      · by_cases hnxt : next = key
        · exact ih.2 hnxt first (hnxt ▸ hstep)
        · exact .head (.inl ⟨hstep, hfst, hnxt⟩) (ih.1 hnxt)
      · rintro rfl before hbef
        have hnxt : next ≠ first := fun heq => hloop (heq ▸ hstep)
        exact .head (.inr ⟨hbef, hstep⟩) (ih.1 hnxt)
  exact hall.1 ha

end EdxPlatform
