import EdxPlatform.Lib.ShortNames

/-!
# Programs that change a state and may raise

Rules of pre- and postconditions for programs that keep the changed state when
they raise.  `R` is what holds of the state when an exception leaves the
program.
-/

namespace EdxPlatform

variable {ε σ α β : Type}

/-- Started in a state that satisfies `P`, the program satisfies `Q` if it
returns, and `R` if it raises. -/
def Triple (P : σ → Prop) (program : EStateM ε σ α) (Q : α → σ → Prop) (R : σ → Prop) : Prop :=
  ∀ state, P state → match program state with
    | .ok result next => Q result next
    | .error _ next => R next

def collect (body : α → EStateM ε σ β) : List α → EStateM ε σ (List β)
  | [] => pure []
  | value :: values => do
    let result ← body value
    let results ← collect body values
    pure (result :: results)

/-- Whether the program returns true for one of the values; it stops at the first of them. -/
def anyOf (body : α → EStateM ε σ Bool) : List α → EStateM ε σ Bool
  | [] => pure false
  | value :: values => do
    let result ← body value
    if result then pure true else anyOf body values

section

variable (program : EStateM ε σ α) (state : σ) (check : α → σ → Bool)

def returnsWith : Bool :=
  match program state with
  | .ok result next => check result next
  | .error _ _ => false

theorem exists_run (hret : returnsWith program state check = true) :
    ∃ result next, program state = .ok result next ∧ check result next = true := by
  unfold returnsWith at hret
  cases hprog : program state with
  | ok result next =>
    rw [hprog] at hret
    exact ⟨result, next, rfl, hret⟩
  | error error next =>
    rw [hprog] at hret
    cases hret

end

variable {P P' : σ → Prop} {Q : α → σ → Prop} {R R' : σ → Prop}

theorem run_bind (program : EStateM ε σ α) (next : α → EStateM ε σ β) (state : σ) :
    (program >>= next) state = match program state with
      | .ok result middle => next result middle
      | .error error middle => .error error middle := by
  change EStateM.bind program next state = _
  unfold EStateM.bind
  cases program state with
  | ok result middle => rfl
  | error error middle => rfl

def after (program : EStateM ε σ α) (state : σ) : σ :=
  match program state with
  | .ok _ next => next
  | .error _ next => next

variable {program : EStateM ε σ α} {state : σ}

theorem after_of_ok {next : σ} {result : α}
    (hprog : program state = .ok result next) : after program state = next := by
  unfold after
  rw [hprog]

variable {middle : σ}

theorem after_bind_of_ok {result : α} (hprog : program state = .ok result middle) (next : α → EStateM ε σ β) :
    after (program >>= next) state = after (next result) middle := by
  unfold after
  rw [run_bind, hprog]

theorem after_bind_of_error {error : ε} (hprog : program state = .error error middle) (next : α → EStateM ε σ β) :
    after (program >>= next) state = middle := by
  unfold after
  rw [run_bind, hprog]

theorem after_modify_bind (change : σ → σ) (next : PUnit → EStateM ε σ α) (state : σ) :
    after (modify change >>= next) state = after (next ⟨⟩) (change state) :=
  rfl

section

variable (next : σ → EStateM ε σ α) (state : σ)

theorem after_get_bind : after (get >>= next) state = after (next state) state := rfl

theorem run_get_bind : (get >>= next) state = next state state := rfl

end

theorem triple_of_run (hrun : match program state with
      | .ok result next => Q result next
      | .error _ next => R next) : Triple (· = state) program Q R := by
  rintro _ rfl
  exact hrun

section

variable {Q' : α → σ → Prop}

theorem triple_weaken (htrip : Triple P' program Q' R') (hpre : ∀ state, P state → P' state)
    (hpost : ∀ result state, Q' result state → Q result state)
    (hrais : ∀ state, R' state → R state) : Triple P program Q R := by
  intro state hstt
  have hrun := htrip state (hpre state hstt)
  cases hprog : program state with
  | ok result next => rw [hprog] at hrun; exact hpost result next hrun
  | error error next => rw [hprog] at hrun; exact hrais next hrun

theorem Triple.pre (htrip : Triple P' program Q R) (hpre : ∀ state, P state → P' state) : Triple P program Q R :=
  triple_weaken htrip hpre (fun _ _ h => h) fun _ h => h

theorem Triple.post (htrip : Triple P program Q' R)
    (hpost : ∀ result state, Q' result state → Q result state) : Triple P program Q R :=
  triple_weaken htrip (fun _ h => h) hpost fun _ h => h

theorem Triple.raise (htrip : Triple P program Q R') (hrais : ∀ state, R' state → R state) : Triple P program Q R :=
  triple_weaken htrip (fun _ h => h) (fun _ _ h => h) hrais

theorem triple_and (hfst : Triple P program Q R) (hsec : Triple P program Q' R') :
    Triple P program (fun result state => Q result state ∧ Q' result state) (fun state => R state ∧ R' state) := by
  intro state hstt
  have hrun := hfst state hstt
  have hoth := hsec state hstt
  cases hprog : program state with
  | ok result next => rw [hprog] at hrun hoth; exact ⟨hrun, hoth⟩
  | error error next => rw [hprog] at hrun hoth; exact ⟨hrun, hoth⟩

end

theorem triple_trivial : Triple P program (fun _ _ => True) (fun _ => True) := by
  intro state _
  cases program state with
  | ok result next => trivial
  | error error next => trivial

theorem triple_pure {result : α} (hpost : ∀ state, P state → Q result state) :
    Triple P (pure result : EStateM ε σ α) Q R :=
  hpost

theorem triple_throw {error : ε} (hrais : ∀ state, P state → R state) : Triple P (throw error : EStateM ε σ α) Q R :=
  hrais

theorem triple_bind {next : α → EStateM ε σ β} {M : α → σ → Prop} {Q : β → σ → Prop} (hprog : Triple P program M R)
    (hnxt : ∀ result, Triple (M result) (next result) Q R) :
    Triple P (program >>= next) Q R := by
  intro state hstt
  have hrun := hprog state hstt
  rw [run_bind]
  cases hfst : program state with
  | ok result middle => rw [hfst] at hrun; exact hnxt result middle hrun
  | error error middle => rw [hfst] at hrun; exact hrun

theorem triple_get {Q : σ → σ → Prop} (hpost : ∀ state, P state → Q state state) :
    Triple P (get : EStateM ε σ σ) Q R :=
  hpost

theorem triple_modify {change : σ → σ} {Q : Unit → σ → Prop} (hpost : ∀ state, P state → Q () (change state)) :
    Triple P (modify change : EStateM ε σ Unit) Q R :=
  hpost

theorem triple_ite {condition : Prop} [Decidable condition] {first second : EStateM ε σ α}
    (hfst : condition → Triple P first Q R)
    (hsec : ¬ condition → Triple P second Q R) :
    Triple P (if condition then first else second) Q R := by
  split
  · next h => exact hfst h
  · next h => exact hsec h

theorem triple_of_state (htrip : ∀ start, P start → Triple (· = start) program Q R) : Triple P program Q R :=
  fun state hstt => htrip state hstt state rfl

theorem triple_read {next : σ → EStateM ε σ α} (hnxt : ∀ state, P state → Triple (· = state) (next state) Q R) :
    Triple P (get >>= next) Q R :=
  fun state hstt => hnxt state hstt state rfl

variable {values : List α}

theorem triple_forM {I : σ → Prop} {body : α → EStateM ε σ PUnit}
    (hbody : ∀ value ∈ values, Triple I (body value) (fun _ => I) R) :
    Triple I (values.forM body) (fun _ => I) R := by
  induction values with
  | nil => exact triple_pure fun _ h => h
  | cons value values ih =>
    apply triple_bind (hbody value mem_cons_self)
    intro _
    exact ih fun other hoth => hbody other (mem_cons_of_mem value hoth)

variable {body : α → EStateM ε σ β}

theorem triple_collect {I : σ → Prop} {F : α → β → Prop} (hbody : ∀ value ∈ values, Triple I (body value)
      (fun result state => F value result ∧ I state) R) :
    Triple I (collect body values) (fun results state => List.Forall₂ F values results ∧ I state) R := by
  induction values with
  | nil => exact triple_pure fun _ h => ⟨.nil, h⟩
  | cons value values ih =>
    apply triple_bind (hbody value mem_cons_self)
    intro result
    apply triple_of_state
    rintro start ⟨hres, hst⟩
    apply triple_bind (triple_weaken (ih (forall_mem_cons.mp hbody).2)
      (by rintro _ rfl; exact hst) (fun _ _ h => h) fun _ h => h)
    intro results
    exact triple_pure fun state h => ⟨.cons hres h.1, h.2⟩

theorem triple_collect_each {F : α → Prop} (hbody : ∀ value ∈ values,
      Triple (fun _ => True) (body value) (fun _ _ => F value) (fun _ => True)) :
    Triple (fun _ => True) (collect body values) (fun _ _ => ∀ value ∈ values, F value) (fun _ => True) := by
  induction values with
  | nil => exact triple_pure fun _ _ _ h => nomatch h
  | cons value values ih =>
    apply triple_bind (hbody value mem_cons_self)
    intro result
    apply triple_of_state
    intro start hval
    apply triple_bind (triple_weaken (ih (forall_mem_cons.mp hbody).2)
      (fun _ _ => trivial) (fun _ _ h => h) fun _ h => h)
    exact fun _ => triple_pure fun _ hall => forall_mem_cons.mpr ⟨hval, hall⟩

theorem triple_collect_trace {τ : Type} {I : List τ → σ → Prop} {f : α → List τ} (hbody : ∀ value ∈ values, ∀ trace,
      Triple (I trace) (body value) (fun _ => I (trace ++ f value)) R) (trace : List τ) :
    Triple (I trace) (collect body values) (fun _ => I (trace ++ values.flatMap f)) R := by
  induction values generalizing trace with
  | nil => exact triple_pure fun _ h => by simpa using h
  | cons value values ih =>
    apply triple_bind (hbody value mem_cons_self trace)
    intro result
    apply triple_bind (ih (forall_mem_cons.mp hbody).2 (trace ++ f value))
    exact fun _ => triple_pure fun _ h => by simpa using h

/-- Started in a state that satisfies `I`, the program returns, in such a state again. -/
def Returns (I : σ → Prop) (program : EStateM ε σ α) (Q : α → Prop) : Prop :=
  ∀ state, I state → ∃ result next, program state = .ok result next ∧ I next ∧ Q result

section Returning

variable {I : σ → Prop}

theorem returns_bind {program : EStateM ε σ α} {next : α → EStateM ε σ β} {M : α → Prop}
    {Q : β → Prop} (hprog : Returns I program M)
    (hnxt : ∀ result, M result → Returns I (next result) Q) : Returns I (program >>= next) Q := by
  intro state hstt
  obtain ⟨result, middle, hrun, hmid, hres⟩ := hprog state hstt
  obtain ⟨last, final, hlast, hfinal, hpost⟩ := hnxt result hres middle hmid
  refine ⟨last, final, ?_, hfinal, hpost⟩
  rw [run_bind, hrun]
  exact hlast

theorem returns_weaken {program : EStateM ε σ α} {Q Q' : α → Prop} (hprog : Returns I program Q')
    (hpost : ∀ result, Q' result → Q result) : Returns I program Q := by
  intro state hstt
  obtain ⟨result, next, hrun, hnxt, hres⟩ := hprog state hstt
  exact ⟨result, next, hrun, hnxt, hpost result hres⟩

theorem returns_pure {result : α} {Q : α → Prop} (hres : Q result) : Returns I (pure result : EStateM ε σ α) Q :=
  fun state hstt => ⟨result, state, rfl, hstt, hres⟩

theorem returns_collect {body : α → EStateM ε σ β} {F : α → β → Prop} {values : List α}
    (hbody : ∀ value ∈ values, Returns I (body value) (F value)) :
    Returns I (collect body values) (List.Forall₂ F values) := by
  induction values with
  | nil => exact returns_pure .nil
  | cons value values ih =>
    refine returns_bind (hbody value mem_cons_self) fun result hres => ?_
    refine returns_bind (ih (forall_mem_cons.mp hbody).2) fun results hress => ?_
    exact returns_pure (.cons hres hress)

theorem returns_anyOf {body : α → EStateM ε σ Bool} {P : α → Prop} {values : List α}
    (hbody : ∀ value ∈ values, Returns I (body value) fun result => result = true ↔ P value) :
    Returns I (anyOf body values) fun result => result = true ↔ ∃ value ∈ values, P value := by
  induction values with
  | nil => exact returns_pure (by simp)
  | cons value values ih =>
    refine returns_bind (hbody value mem_cons_self) fun result hres => ?_
    cases result with
    | true => exact returns_pure (iff_of_true rfl ⟨value, mem_cons_self, hres.mp rfl⟩)
    | false =>
      have hval : ¬ P value := fun h => nomatch hres.mpr h
      intro state hstt
      obtain ⟨rest, next, hrun, hnxt, hrest⟩ := ih (forall_mem_cons.mp hbody).2 state hstt
      exact ⟨rest, next, hrun, hnxt, by simp [hrest, hval]⟩

end Returning

/-! ## Programs that raise certain exceptions only -/

/-- Started in a state that satisfies `P`, the program satisfies `Q` if it returns, and raises
an exception that satisfies `E` otherwise. -/
def Outcome (P : σ → Prop) (program : EStateM ε σ α) (Q : α → σ → Prop) (E : ε → Prop) : Prop :=
  ∀ state, P state → match program state with
    | .ok result next => Q result next
    | .error error _ => E error

section Outcomes

variable {E E' : ε → Prop} {program : EStateM ε σ α}

theorem outcome_weaken {Q' : α → σ → Prop} (hout : Outcome P' program Q' E') (hpre : ∀ state, P state → P' state)
    (hpost : ∀ result state, Q' result state → Q result state) (hrais : ∀ error, E' error → E error) :
    Outcome P program Q E := by
  intro state hstt
  have hrun := hout state (hpre state hstt)
  cases hprog : program state with
  | ok result next => rw [hprog] at hrun; exact hpost result next hrun
  | error error next => rw [hprog] at hrun; exact hrais error hrun

theorem outcome_pure {result : α} (hpost : ∀ state, P state → Q result state) :
    Outcome P (pure result : EStateM ε σ α) Q E :=
  hpost

theorem outcome_modify {change : σ → σ} {Q : Unit → σ → Prop} (hpost : ∀ state, P state → Q () (change state)) :
    Outcome P (modify change : EStateM ε σ Unit) Q E :=
  hpost

theorem outcome_throw {error : ε} (hrais : ∀ state, P state → E error) : Outcome P (throw error : EStateM ε σ α) Q E :=
  hrais

theorem outcome_bind {next : α → EStateM ε σ β} {M : α → σ → Prop} {Q : β → σ → Prop} (hprog : Outcome P program M E)
    (hnxt : ∀ result, Outcome (M result) (next result) Q E) : Outcome P (program >>= next) Q E := by
  intro state hstt
  have hrun := hprog state hstt
  rw [run_bind]
  cases hfst : program state with
  | ok result middle => rw [hfst] at hrun; exact hnxt result middle hrun
  | error error middle => rw [hfst] at hrun; exact hrun

theorem outcome_of_state (hout : ∀ start, P start → Outcome (· = start) program Q E) : Outcome P program Q E :=
  fun state hstt => hout state hstt state rfl

theorem outcome_read {next : σ → EStateM ε σ α}
    (hnxt : ∀ state, P state → Outcome (· = state) (next state) Q E) : Outcome P (get >>= next) Q E :=
  fun state hstt => hnxt state hstt state rfl

theorem outcome_collect {I : List α → List β → σ → Prop} {values : List α} {body : α → EStateM ε σ β}
    (hbody : ∀ before value after, values = before ++ value :: after → ∀ results,
      Outcome (I before results) (body value) (fun result => I (before ++ [value]) (results ++ [result])) E) :
    Outcome (I [] []) (collect body values) (I values) E := by
  have hloop : ∀ (after before : List α) (results : List β), values = before ++ after →
      Outcome (I before results) (collect body after) (fun more => I values (results ++ more)) E := by
    intro after
    induction after with
    | nil =>
      rintro before results rfl
      refine outcome_pure fun state hstt => ?_
      rwa [append_nil, append_nil]
    | cons value after ih =>
      intro before results heq
      apply outcome_bind (hbody before value after heq results)
      intro result
      apply outcome_bind (ih (before ++ [value]) (results ++ [result]) (by simpa using heq))
      intro more
      refine outcome_pure fun state hstt => ?_
      rwa [append_assoc] at hstt
  exact hloop values [] [] rfl

end Outcomes

end EdxPlatform
