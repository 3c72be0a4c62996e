import Mathlib.Order.Lattice

/-!
# The latest entry below a point

Points of a graph may have an entry, with a time and a value.  The latest entry below a point is
found from its own entry and from the latest ones below its successors, and depends on nothing
but what the point leads to.
-/

namespace EdxPlatform

open Relation

variable {α τ υ : Type} {r s : α → α → Prop}

theorem reflTransGen_congr {a b : α} (hagree : ∀ b, ReflTransGen r a b → ∀ c, r b c ↔ s b c) :
    ReflTransGen r a b ↔ ReflTransGen s a b := by
  constructor
  · intro hpath
    induction hpath with
    | refl => exact .refl
    | tail hbef hstep ih => exact ih.tail ((hagree _ hbef _).mp hstep)
  · intro hpath
    induction hpath with
    | refl => exact .refl
    | tail _ hstep ih => exact ih.tail ((hagree _ ih _).mpr hstep)

variable [LinearOrder τ] {entry entry' : α → Option (τ × υ)}

/-- Below `a` there is an entry with the time `t` and the value `u`, and none is later. -/
structure Latest (r : α → α → Prop) (entry : α → Option (τ × υ)) (a : α) (t : τ) (u : υ) :
    Prop where
  attained : ∃ b, ReflTransGen r a b ∧ entry b = some (t, u)
  le : ∀ b, ReflTransGen r a b → ∀ found, entry b = some found → found.1 ≤ t

theorem Latest.congr {a : α} {t : τ} {u : υ} (hlast : Latest r entry a t u)
    (hagree : ∀ b, ReflTransGen r a b → (∀ c, r b c ↔ s b c) ∧ entry b = entry' b) :
    Latest s entry' a t u := by
  have hpaths : ∀ b, ReflTransGen r a b ↔ ReflTransGen s a b := fun b =>
    reflTransGen_congr fun c hpath => (hagree c hpath).1
  constructor
  · obtain ⟨b, hpath, hent⟩ := hlast.attained
    exact ⟨b, (hpaths b).mp hpath, (hagree b hpath).2 ▸ hent⟩
  · intro b hpath found hfnd
    have hold := (hpaths b).mpr hpath
    exact hlast.le b hold found ((hagree b hold).2 ▸ hfnd)

theorem Latest.of_successors {a : α} {t own : τ} {u value : υ} (hent : entry a = some (own, value))
    (hown : own ≤ t) (hsuc : ∀ b, r a b → ∃ t' u', Latest r entry b t' u' ∧ t' ≤ t)
    (hatt : (t, u) = (own, value) ∨ ∃ b, r a b ∧ Latest r entry b t u) :
    Latest r entry a t u := by
  constructor
  · rcases hatt with heq | ⟨b, hstep, hlast⟩
    · exact ⟨a, .refl, heq ▸ hent⟩
    · obtain ⟨c, hpath, hfnd⟩ := hlast.attained
      exact ⟨c, hpath.head hstep, hfnd⟩
  · intro c hpath found hfnd
    rcases ReflTransGen.cases_head hpath with rfl | ⟨b, hstep, hrest⟩
    · obtain rfl := Option.some.inj (hent.symm.trans hfnd)
      exact hown
    · obtain ⟨t', u', hlast, hle⟩ := hsuc b hstep
      exact (hlast.le c hrest found hfnd).trans hle

end EdxPlatform
