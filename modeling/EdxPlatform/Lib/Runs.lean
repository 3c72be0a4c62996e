/-!
# Runs of a state machine

What holds in every state of a run, and what holds of every step of it.
-/

namespace EdxPlatform

variable {σ α : Type}

/-- The states of the run of `actions` from `state` all satisfy `P`. -/
def Always (step : σ → α → σ) (P : σ → Prop) : σ → List α → Prop
  | state, [] => P state
  | state, action :: actions => P state ∧ Always step P (step state action) actions

/-- Every action of the run satisfies `C` in the state in which it is taken. -/
def Each (step : σ → α → σ) (C : σ → α → Prop) : σ → List α → Prop
  | _, [] => True
  | state, action :: actions => C state action ∧ Each step C (step state action) actions

variable {step : σ → α → σ} {P : σ → Prop} {C : σ → α → Prop}

instance Always.decide [DecidablePred P] : ∀ (state : σ) (actions : List α), Decidable (Always step P state actions)
  | state, [] => inferInstanceAs (Decidable (P state))
  | state, action :: actions =>
    have := Always.decide (step state action) actions
    inferInstanceAs (Decidable (P state ∧ Always step P (step state action) actions))

instance Each.decide [∀ state action, Decidable (C state action)] :
    ∀ (state : σ) (actions : List α), Decidable (Each step C state actions)
  | _, [] => .isTrue trivial
  | state, action :: actions =>
    have := Each.decide (step state action) actions
    inferInstanceAs (Decidable (C state action ∧ Each step C (step state action) actions))

theorem Always.head {state : σ} {actions : List α} (halw : Always step P state actions) : P state := by
  cases actions with
  | nil => exact halw
  | cons => exact halw.1

theorem Always.imp {P' : σ → Prop} (himp : ∀ state, P state → P' state) {state : σ}
    {actions : List α} (halw : Always step P state actions) : Always step P' state actions := by
  induction actions generalizing state with
  | nil => exact himp state halw
  | cons action actions ih => exact ⟨himp state halw.1, ih halw.2⟩

/-- If a property follows from a stronger one, which the steps that satisfy a condition keep, and the
other steps break the property, then a run keeps it throughout exactly when all of its steps satisfy
the condition. -/
theorem always_iff_each_of_strong {Q : σ → Prop} (hstrong : ∀ state, Q state → P state)
    (hkeep : ∀ state action, Q state → C state action → Q (step state action))
    (hbreaks : ∀ state action, Q state → ¬ C state action → ¬ P (step state action))
    {state : σ} (hstt : Q state) (actions : List α) :
    Always step P state actions ↔ Each step C state actions := by
  induction actions generalizing state with
  | nil => exact iff_of_true (hstrong state hstt) trivial
  | cons action actions ih =>
    constructor
    · rintro ⟨-, hrest⟩
      have hcond : C state action := Classical.byContradiction fun hnot => hbreaks state action hstt hnot hrest.head
      exact ⟨hcond, (ih (hkeep state action hstt hcond)).mp hrest⟩
    · rintro ⟨hcond, hrest⟩
      exact ⟨hstrong state hstt, (ih (hkeep state action hstt hcond)).mpr hrest⟩

theorem always_iff_each_of_invariant {I : σ → Prop} (hinv : ∀ state action, I state → I (step state action))
    (hstep : ∀ state action, I state → P state → (P (step state action) ↔ C state action))
    {state : σ} (hstt : I state) (hprop : P state) (actions : List α) :
    Always step P state actions ↔ Each step C state actions :=
  always_iff_each_of_strong (Q := fun state => I state ∧ P state) (fun _ h => h.2)
    (fun state action h hcond => ⟨hinv state action h.1, (hstep state action h.1 h.2).mpr hcond⟩)
    (fun state action h hnot hnxt => hnot ((hstep state action h.1 h.2).mp hnxt)) ⟨hstt, hprop⟩ actions

/-- If a step keeps a property exactly when it satisfies a condition, then a run does. -/
theorem always_iff_each (hstep : ∀ state action, P state → (P (step state action) ↔ C state action))
    {state : σ} (hstt : P state) (actions : List α) :
    Always step P state actions ↔ Each step C state actions :=
  always_iff_each_of_invariant (I := fun _ => True) (fun _ _ _ => trivial)
    (fun state action _ => hstep state action) trivial hstt actions

/-- A step that keeps an invariant under a condition keeps it along every run
whose steps satisfy the condition. -/
theorem always_of_each {I : σ → Prop} (hstep : ∀ state action, I state → C state action → I (step state action))
    {state : σ} (hstt : I state) {actions : List α} (heach : Each step C state actions) :
    Always step I state actions := by
  induction actions generalizing state with
  | nil => exact hstt
  | cons action actions ih => exact ⟨hstt, ih (hstep _ _ hstt heach.1) heach.2⟩

theorem Each.imp_of_invariant {I : σ → Prop} {D : σ → α → Prop}
    (hinv : ∀ state action, I state → I (step state action))
    (himp : ∀ state action, I state → C state action → D state action)
    {state : σ} (hstt : I state) {actions : List α} (heach : Each step C state actions) :
    Each step D state actions := by
  induction actions generalizing state with
  | nil => trivial
  | cons action actions ih => exact ⟨himp state action hstt heach.1, ih (hinv state action hstt) heach.2⟩

end EdxPlatform
