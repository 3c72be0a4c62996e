import Mathlib.Data.Nat.Notation

/-!
# While loops

`whileLoop condition body fuel` runs `while condition: body` for at most `fuel`
rounds.  The outer `Option` is `none` when the fuel does not suffice; an inner
error is an exception raised by the body, which leaves the loop.
-/

namespace EdxPlatform

variable {ε σ : Type}

def whileLoop (condition : σ → Bool) (body : σ → Except ε σ) : Nat → σ → Option (Except ε σ)
  | fuel, state =>
    if condition state then
      match fuel with
      | 0 => none
      | fuel + 1 =>
        match body state with
        | .error err => some (.error err)
        | .ok next => whileLoop condition body fuel next
    else some (.ok state)

namespace whileLoop

variable {condition : σ → Bool} {body : σ → Except ε σ} {state : σ}

theorem stop (hstop : condition state = false) (fuel : Nat) :
    whileLoop condition body fuel state = some (.ok state) := by
  unfold whileLoop
  rw [hstop]; rfl

variable {next : σ}

theorem step (hcond : condition state = true) (hbody : body state = .ok next) (fuel : Nat) :
    whileLoop condition body (fuel + 1) state = whileLoop condition body fuel next := by
  rw [whileLoop, if_pos hcond, hbody]

theorem mono {result : Except ε σ} : ∀ {fuel more : Nat} {state : σ},
    whileLoop condition body fuel state = some result → fuel ≤ more →
      whileLoop condition body more state = some result := by
  intro fuel
  induction fuel with
  | zero =>
    intro more state hres _
    unfold whileLoop at hres ⊢
    split at hres
    · cases hres
    · next hcond => rwa [if_neg hcond]
  | succ fuel ih =>
    intro more state hres hmore
    obtain ⟨more, rfl⟩ := Nat.exists_eq_add_of_le' (Nat.le_trans (Nat.le_add_left 1 fuel) hmore)
    unfold whileLoop at hres ⊢
    split at hres
    · next hcond =>
        rw [if_pos hcond]
        cases hbody : body state with
        | error err =>
          rw [hbody] at hres
          exact hres
        | ok next =>
          rw [hbody] at hres
          exact ih hres (Nat.le_of_succ_le_succ hmore)
    · next hcond => rwa [if_neg hcond]

/-- `Leads condition body first last`: the loop, started in `first`, passes
through `last`, after the same number of rounds whatever fuel is left. -/
def Leads (condition : σ → Bool) (body : σ → Except ε σ) (first last : σ) : Prop :=
  ∃ rounds, ∀ fuel, whileLoop condition body (fuel + rounds) first = whileLoop condition body fuel last

theorem Leads.refl (state : σ) : Leads condition body state state := ⟨0, fun _ => rfl⟩

theorem Leads.single (hcond : condition state = true)
    (hbody : body state = .ok next) : Leads condition body state next :=
  ⟨1, fun fuel => step hcond hbody fuel⟩

variable {first last : σ}

theorem Leads.trans {middle : σ} (hfst : Leads condition body first middle)
    (hlast : Leads condition body middle last) : Leads condition body first last := by
  obtain ⟨before, hbef⟩ := hfst
  obtain ⟨after, haft⟩ := hlast
  refine ⟨after + before, fun fuel => ?_⟩
  rw [← Nat.add_assoc, hbef, haft]

/-- A loop that leads to a state in which its condition fails returns that
state, with any fuel from some bound on. -/
theorem Leads.returns (hleads : Leads condition body first last) (hstop : condition last = false) :
    ∃ bound, ∀ fuel, bound ≤ fuel → whileLoop condition body fuel first = some (.ok last) := by
  obtain ⟨rounds, hroun⟩ := hleads
  refine ⟨rounds, fun fuel hfuel => ?_⟩
  obtain ⟨rest, rfl⟩ := Nat.exists_eq_add_of_le' hfuel
  rw [hroun, stop hstop]

theorem returned {Inv : σ → Prop} (hbody : ∀ state next, Inv state → body state = .ok next → Inv next) {fuel : Nat}
    (hstate : Inv state) (hlast : whileLoop condition body fuel state = some (.ok last)) : Inv last := by
  induction fuel generalizing state with
  | zero =>
    unfold whileLoop at hlast
    split at hlast
    · cases hlast
    · exact Except.ok.inj (Option.some.inj hlast) ▸ hstate
  | succ fuel ih =>
    unfold whileLoop at hlast
    split at hlast
    · cases hnext : body state with
      | error err =>
        rw [hnext] at hlast
        cases hlast
      | ok next =>
        rw [hnext] at hlast
        exact ih (hbody state next hstate hnext) hlast
    · exact Except.ok.inj (Option.some.inj hlast) ▸ hstate

/-- The total-correctness rule: an invariant that the body keeps while a measure
falls holds of a final state, which the loop reaches. -/
theorem of_invariant (Inv : σ → Prop) (measure : σ → Nat) (hbody : ∀ state, Inv state → condition state = true →
      ∃ next, body state = .ok next ∧ Inv next ∧ measure next < measure state) :
    ∀ state, Inv state → ∃ last, Leads condition body state last ∧ Inv last ∧ condition last = false := by
  intro state
  induction hmeas : measure state using Nat.strongRecOn generalizing state with
  | ind bound ih =>
    intro hinv
    cases hcond : condition state with
    | false => exact ⟨state, Leads.refl state, hinv, hcond⟩
    | true =>
      obtain ⟨next, hnxt, hinvNext, hless⟩ := hbody state hinv hcond
      obtain ⟨last, hleads, hlast⟩ := ih _ (hmeas ▸ hless) next rfl hinvNext
      exact ⟨last, (Leads.single hcond hnxt).trans hleads, hlast⟩

end whileLoop

theorem bind_settled {α β : Type} {first more : ExceptT ε Option α} {next nextMore : α → ExceptT ε Option β}
    (hfst : ∀ result, first.run = some result → more.run = some result)
    (hnxt : ∀ value result, (next value).run = some result → (nextMore value).run = some result) :
    ∀ result, (first >>= next).run = some result → (more >>= nextMore).run = some result := by
  intro result hres
  cases hrun : first.run with
  | none =>
    have : (first >>= next).run = none := by
      change Option.bind first.run _ = none
      rw [hrun]
      rfl
    exact absurd (this.symm.trans hres) (Option.some_ne_none result).symm
  | some outcome =>
    have hleft : (first >>= next).run = ExceptT.bindCont next outcome := by
      change Option.bind first.run _ = _
      rw [hrun]
      rfl
    have hrgt : (more >>= nextMore).run = ExceptT.bindCont nextMore outcome := by
      change Option.bind more.run _ = _
      rw [hfst outcome hrun]
      rfl
    rw [hleft] at hres
    rw [hrgt]
    cases outcome with
    | error err => exact hres
    | ok value => exact hnxt value result hres

end EdxPlatform
