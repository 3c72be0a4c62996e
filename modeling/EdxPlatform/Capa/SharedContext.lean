import EdxPlatform.Capa.CustomResponse

/-!
# Responses that share a context

Each response sets the marks and messages it reads back, but only a returned
dictionary sets the grade decimals.  A check function that returns a plain value
is scored with the decimals that the last dictionary left in the context.
-/

namespace EdxPlatform

namespace CustomResponse

def returnedDecimals (response : CustomResponse) : Option (List Rat) :=
  match response.cfnReturn with
  | .plain _ => none
  | .okDict ok _ gradeDecimal =>
    some (List.replicate response.inputs.length (okDecimal (okCorrectness ok) gradeDecimal))
  | .inputList _ inputs => some (inputs.map inputDecimal)

section

variable (response : CustomResponse) (gradeDecimals : Option (List Rat))

/-- The grade decimals in the context after the response, given those before it. -/
def decimalsAfter : Option (List Rat) :=
  if response.skipped then gradeDecimals else response.returnedDecimals.or gradeDecimals

def DecimalsAgree (inputs : List Input) (mark : Correctness) (decimals : List Rat) : Prop :=
  inputs.length ≤ decimals.length ∧ ∀ pair ∈ inputs.zip decimals,
    (pair.1.maxPoints : Rat) * pair.2 = markPoints pair.1.maxPoints mark

def Unaffected : Prop :=
  response.skipped = false → ∀ value, response.cfnReturn = .plain value →
    ∀ decimals, usableDecimals gradeDecimals = some decimals →
      DecimalsAgree response.inputs (valueCorrectness value) decimals

end

end CustomResponse

open CustomResponse

def AllUnaffected : Option (List Rat) → List CustomResponse → Prop
  | _, [] => True
  | gradeDecimals, response :: responses => response.Unaffected gradeDecimals ∧
    AllUnaffected (response.decimalsAfter gradeDecimals) responses

/-- The results that responses get when each is graded alone on a fresh context. -/
def gradeAlone (cleanMarkup : String → String) : List CustomResponse → CorrectMap → Except PyError CorrectMap
  | [], newcmap => .ok newcmap
  | responder :: responders, newcmap =>
    match (responder.getScore cleanMarkup {}).1 with
    | .error err => .error err
    | .ok results => gradeAlone cleanMarkup responders (newcmap.update results)

/-! ## One response -/

namespace CustomResponse

variable (cleanMarkup : String → String)

section

variable (response : CustomResponse)

def ownContext : Context :=
  executeCheckFunction cleanMarkup response.inputs.length response.cfnReturn
    { correct := List.replicate response.inputs.length .unknown
      messages := List.replicate response.inputs.length (some "") }

def ownMap : CorrectMap :=
  { overallMessage := cleanMessageHtml cleanMarkup
      (some (response.ownContext cleanMarkup).overallMessage) }

variable (response : CustomResponse)

theorem ownContext_lengths : (response.ownContext cleanMarkup).correct.length = response.inputs.length ∧
      (response.ownContext cleanMarkup).messages.length = response.inputs.length := by
  unfold ownContext executeCheckFunction
  cases hret : response.cfnReturn with
  | plain value => simp
  | okDict ok msg gradeDecimal =>
    dsimp only
    split <;> simp
  | inputList overallMessage inputs =>
    have hlen := response.inputList_length overallMessage inputs hret
    simp [hlen]

theorem getScore_eq (context : Context) (heva : response.skipped = false) :
    response.getScore cleanMarkup context = (setResults response.inputs (response.ownContext cleanMarkup).correct
        (response.ownContext cleanMarkup).messages
        (usableDecimals (response.returnedDecimals.or context.gradeDecimals))
        (response.ownMap cleanMarkup),
        { response.ownContext cleanMarkup with
          gradeDecimals := response.returnedDecimals.or context.gradeDecimals }) := by
  have hcon : executeCheckFunction cleanMarkup response.inputs.length response.cfnReturn { context with
        correct := replicate response.inputs.length .unknown
        messages := replicate response.inputs.length (some "")
        overallMessage := "" } =
      { response.ownContext cleanMarkup with
        gradeDecimals := response.returnedDecimals.or context.gradeDecimals } := by
    unfold ownContext returnedDecimals executeCheckFunction
    cases response.cfnReturn with
    | plain value => rfl
    | okDict ok msg gradeDecimal =>
      dsimp only
      split <;> rfl
    | inputList overallMessage inputs => rfl
  unfold getScore
  rw [heva]
  simp only [false_eq_true, if_false, hcon]
  rfl

theorem setResults_cases {inputs : List Input} {marks : List Correctness}
    {messages : List (Option String)} (hmks : marks.length = inputs.length)
    (hmsgs : messages.length = inputs.length) (decimals : Option (List Rat))
    (map : CorrectMap) :
    (∃ list, decimals = some list ∧ list.length < inputs.length ∧
      setResults inputs marks messages decimals map = .error .indexError) ∨
    (∃ result, setResults inputs marks messages decimals map = .ok result ∧
      ∀ answerId, answerId ∉ inputs.map Input.answerId → result.cmap.lookup answerId = map.cmap.lookup answerId) := by
  induction inputs generalizing marks messages decimals map with
  | nil => exact .inr ⟨map, by cases decimals <;> rfl, fun _ _ => rfl⟩
  | cons input inputs ih =>
    obtain ⟨mark, marks, rfl⟩ := List.exists_cons_of_length_eq_add_one hmks
    obtain ⟨msg, messages, rfl⟩ := List.exists_cons_of_length_eq_add_one hmsgs
    have hrest := ih (Nat.succ.inj hmks) (Nat.succ.inj hmsgs)
    have hkeep : ∀ (entry : AnswerResult) (result : CorrectMap), (∀ answerId, answerId ∉ inputs.map Input.answerId →
          result.cmap.lookup answerId = (map.set input.answerId entry).cmap.lookup answerId) →
        ∀ answerId, answerId ∉ (input :: inputs).map Input.answerId →
          result.cmap.lookup answerId = map.cmap.lookup answerId := by
      intro entry result hres answerId hout
      rw [map_cons, mem_cons, not_or] at hout
      rw [hres answerId hout.2]
      exact lookup_insert_of_ne hout.1 _ _
    rcases decimals with _ | _ | ⟨decimal, decimals⟩
    · rcases hrest none (map.set input.answerId ⟨mark, some (markPoints input.maxPoints mark), msg⟩) with
        ⟨list, hlist, -⟩ | ⟨result, hres, hlook⟩
      · cases hlist
      · exact .inr ⟨result, hres, hkeep _ result hlook⟩
    · exact .inl ⟨[], rfl, Nat.zero_lt_succ _, rfl⟩
    · rcases hrest (some decimals) (map.set input.answerId ⟨mark, some (input.maxPoints * decimal), msg⟩) with
        ⟨list, hlist, hless, herror⟩ | ⟨result, hres, hlook⟩
      · obtain rfl := some.inj hlist
        exact .inl ⟨decimal :: decimals, rfl, Nat.succ_lt_succ hless, herror⟩
      · exact .inr ⟨result, hres, hkeep _ result hlook⟩

def Differ (answerIds : List String) (results other : CorrectMap) : Prop :=
  ∃ answerId ∈ answerIds, ∃ result otherResult, results.cmap.lookup answerId = some result ∧
    other.cmap.lookup answerId = some otherResult ∧ result ≠ otherResult

/-- Decimals that agree with the mark change nothing; others make the scoring
fail or change the result of some input. -/
theorem setResults_decimals {inputs : List Input} (huniq : (inputs.map Input.answerId).Nodup)
    (mark : Correctness) {messages : List (Option String)}
    (hmsgs : messages.length = inputs.length) (decimals : List Rat) (map : CorrectMap) :
    (DecimalsAgree inputs mark decimals ∧
      setResults inputs (replicate inputs.length mark) messages (some decimals) map =
        setResults inputs (replicate inputs.length mark) messages none map) ∨
    (¬ DecimalsAgree inputs mark decimals ∧ ∀ result other,
      setResults inputs (replicate inputs.length mark) messages (some decimals) map = .ok result →
      setResults inputs (replicate inputs.length mark) messages none map = .ok other →
        Differ (inputs.map Input.answerId) result other) := by
  induction inputs generalizing messages decimals map with
  | nil => exact .inl ⟨⟨Nat.zero_le _, by simp⟩, rfl⟩
  | cons input inputs ih =>
    obtain ⟨msg, messages, rfl⟩ := List.exists_cons_of_length_eq_add_one hmsgs
    obtain ⟨hout, hrest⟩ := nodup_cons.mp huniq
    rcases decimals with _ | ⟨decimal, decimals⟩
    · refine .inr ⟨fun hagree => absurd hagree.1 (by simp), ?_⟩
      intro result other hres
      cases hres
    have hagree : DecimalsAgree (input :: inputs) mark (decimal :: decimals) ↔
        (input.maxPoints : Rat) * decimal = markPoints input.maxPoints mark ∧ DecimalsAgree inputs mark decimals := by
      unfold DecimalsAgree
      rw [zip_cons_cons, forall_mem_cons, length_cons, length_cons, Nat.succ_le_succ_iff]
      tauto
    rw [length_cons, List.replicate_succ, hagree]
    unfold setResults
    by_cases hpts : (input.maxPoints : Rat) * decimal = markPoints input.maxPoints mark
    · rw [hpts]
      rcases ih hrest (Nat.succ.inj hmsgs) decimals
        (map.set input.answerId ⟨mark, some (markPoints input.maxPoints mark), msg⟩) with
        ⟨hdecs, heq⟩ | ⟨hdecs, hdif⟩
      · exact .inl ⟨⟨rfl, hdecs⟩, heq⟩
      · refine .inr ⟨fun hboth => hdecs hboth.2, fun result other hres hoth => ?_⟩
        obtain ⟨answerId, hans, hne⟩ := hdif result other hres hoth
        exact ⟨answerId, mem_cons_of_mem _ hans, hne⟩
    · refine .inr ⟨fun hboth => hpts hboth.1, fun result other hres hoth => ?_⟩
      have hlook : ∀ (current : Option (List Rat)) (entry : AnswerResult) (final : CorrectMap),
          setResults inputs (replicate inputs.length mark) messages current
            (map.set input.answerId entry) = .ok final →
          final.cmap.lookup input.answerId = some entry := by
        intro current entry final hfinal
        rcases setResults_cases length_replicate (Nat.succ.inj hmsgs) current
          (map.set input.answerId entry) with ⟨_, -, -, herror⟩ | ⟨found, hfnd, hkeep⟩
        · cases herror.symm.trans hfinal
        · obtain rfl := ok.inj (hfnd.symm.trans hfinal)
          rw [hkeep input.answerId hout]
          exact lookup_insert_self _ _ _
      refine ⟨input.answerId, mem_cons_self, _, _, hlook _ _ _ hres, hlook _ _ _ hoth, fun heq => ?_⟩
      exact hpts (some.inj (congrArg AnswerResult.npoints heq))

def answerIds : List String := response.inputs.map Input.answerId

end

theorem getScore_gradeDecimals (response : CustomResponse) (context : Context) :
    (response.getScore cleanMarkup context).2.gradeDecimals = response.decimalsAfter context.gradeDecimals := by
  unfold decimalsAfter
  cases hskip : response.skipped with
  | true =>
    unfold getScore
    rw [hskip]
    rfl
  | false =>
    rw [getScore_eq cleanMarkup response context hskip]
    rfl

variable {response : CustomResponse}

theorem getScore_lookup {context : Context} {results : CorrectMap}
    (hress : (response.getScore cleanMarkup context).1 = .ok results) {answerId : String}
    (hout : answerId ∉ response.answerIds) : results.cmap.lookup answerId = none := by
  cases hskip : response.skipped with
  | true =>
    have hfold : ∀ (inputs : List Input) (entry : AnswerResult) (map : CorrectMap),
        answerId ∉ inputs.map Input.answerId →
          (inputs.foldl (fun map input => map.set input.answerId entry) map).cmap.lookup
            answerId = map.cmap.lookup answerId := by
      intro inputs entry
      induction inputs with
      | nil => exact fun map _ => rfl
      | cons input inputs ih =>
        intro map hout
        rw [map_cons, mem_cons, not_or] at hout
        rw [foldl_cons, ih _ hout.2]
        exact lookup_insert_of_ne hout.1 _ _
    unfold getScore at hress
    rw [hskip] at hress
    obtain rfl := ok.inj hress
    exact hfold _ _ _ hout
  | false =>
    rw [getScore_eq cleanMarkup response context hskip] at hress
    obtain ⟨hmks, hmsgs⟩ := response.ownContext_lengths cleanMarkup
    rcases setResults_cases hmks hmsgs (usableDecimals (response.returnedDecimals.or context.gradeDecimals))
        (response.ownMap cleanMarkup) with
      ⟨-, -, -, herror⟩ | ⟨found, hfnd, hkeep⟩
    · cases herror.symm.trans hress
    · obtain rfl := ok.inj (hfnd.symm.trans hress)
      exact hkeep answerId hout

theorem getScore_of_skipped (hskip : response.skipped = true) (context : Context) :
    ∃ own, (response.getScore cleanMarkup {}).1 = .ok own ∧ (response.getScore cleanMarkup context).1 = .ok own := by
  unfold getScore
  rw [hskip]
  exact ⟨_, rfl, rfl⟩

theorem getScore_of_plain (hskip : response.skipped = false)
    {value : PyValue} (hval : response.cfnReturn = .plain value) (context : Context) :
    ∃ own, (response.getScore cleanMarkup {}).1 = .ok own ∧ ((response.Unaffected context.gradeDecimals ∧
          (response.getScore cleanMarkup context).1 = .ok own) ∨
        (¬ response.Unaffected context.gradeDecimals ∧ ∀ results,
          (response.getScore cleanMarkup context).1 = .ok results → Differ response.answerIds results own)) := by
  obtain ⟨-, hmsgs⟩ := response.ownContext_lengths cleanMarkup
  have hnone : response.returnedDecimals = none := by
    unfold returnedDecimals
    rw [hval]
  have hcorr : (response.ownContext cleanMarkup).correct =
      replicate response.inputs.length (valueCorrectness value) := by
    unfold ownContext executeCheckFunction
    rw [hval]
  have huna : response.Unaffected context.gradeDecimals ↔
      ∀ decimals, usableDecimals context.gradeDecimals = some decimals →
        DecimalsAgree response.inputs (valueCorrectness value) decimals := by
    unfold Unaffected
    simp [hskip, hval]
  rw [getScore_eq cleanMarkup response {} hskip, getScore_eq cleanMarkup response context hskip]
  dsimp only
  rw [hnone, hcorr, none_or, none_or, huna]
  rcases setResults_cases (length_replicate (a := valueCorrectness value)) hmsgs
    none (response.ownMap cleanMarkup) with
    ⟨_, hcont, -⟩ | ⟨own, hown, -⟩
  · cases hcont
  refine ⟨own, hown, ?_⟩
  cases husa : usableDecimals context.gradeDecimals with
  | none => exact .inl ⟨fun _ h => absurd h (some_ne_none _).symm, hown⟩
  | some decimals =>
    rcases setResults_decimals response.ids_unique (valueCorrectness value) hmsgs
      decimals (response.ownMap cleanMarkup) with
      ⟨hagree, hsame⟩ | ⟨hdis, hdif⟩
    · exact .inl ⟨fun _ h => some.inj h ▸ hagree, hsame.trans hown⟩
    · exact .inr ⟨fun hall => hdis (hall decimals rfl), fun results hress => hdif results own hress hown⟩

theorem getScore_of_decimals (hskip : response.skipped = false)
    {decimals : List Rat} (hdecs : response.returnedDecimals = some decimals)
    (hlen : decimals.length = response.inputs.length) (context : Context) :
    ∃ own, (response.getScore cleanMarkup {}).1 = .ok own ∧ (response.getScore cleanMarkup context).1 = .ok own := by
  obtain ⟨hmks, hmsgs⟩ := response.ownContext_lengths cleanMarkup
  rw [getScore_eq cleanMarkup response {} hskip, getScore_eq cleanMarkup response context hskip]
  dsimp only
  rw [hdecs, some_or, some_or]
  rcases setResults_cases hmks hmsgs (usableDecimals (some decimals)) (response.ownMap cleanMarkup) with
    ⟨list, hlist, hless, -⟩ | ⟨own, hown, -⟩
  · exfalso
    unfold usableDecimals at hlist
    split at hlist
    · cases hlist
    · obtain rfl := some.inj hlist
      omega
  · exact ⟨own, hown, hown⟩

/-- A response alone is scored; within a shared context it gets the same result
exactly when the decimals left there do not affect it. -/
theorem getScore_cases (response : CustomResponse) (context : Context) :
    ∃ own, (response.getScore cleanMarkup {}).1 = .ok own ∧ ((response.Unaffected context.gradeDecimals ∧
          (response.getScore cleanMarkup context).1 = .ok own) ∨
        (¬ response.Unaffected context.gradeDecimals ∧ ∀ results,
          (response.getScore cleanMarkup context).1 = .ok results → Differ response.answerIds results own)) := by
  cases hskip : response.skipped with
  | true =>
    obtain ⟨own, hown, hsame⟩ := getScore_of_skipped cleanMarkup hskip context
    exact ⟨own, hown, .inl ⟨fun heval => Bool.noConfusion (hskip.symm.trans heval), hsame⟩⟩
  | false =>
    have hdec : ∀ decimals, response.returnedDecimals = some decimals → decimals.length = response.inputs.length →
        ∃ own, (response.getScore cleanMarkup {}).1 = .ok own ∧ response.Unaffected context.gradeDecimals ∧
          (response.getScore cleanMarkup context).1 = .ok own := by
      intro decimals hdecs hlen
      obtain ⟨own, hown, hsame⟩ := getScore_of_decimals cleanMarkup hskip hdecs hlen context
      refine ⟨own, hown, fun _ value hval => ?_, hsame⟩
      unfold returnedDecimals at hdecs
      rw [hval] at hdecs
      cases hdecs
    cases hret : response.cfnReturn with
    | plain value => exact getScore_of_plain cleanMarkup hskip hret context
    | okDict ok msg gradeDecimal =>
      obtain ⟨own, hown, hsame⟩ := hdec _ (by unfold returnedDecimals; rw [hret]) length_replicate
      exact ⟨own, hown, .inl hsame⟩
    | inputList overallMessage inputs =>
      obtain ⟨own, hown, hsame⟩ := hdec _ (by unfold returnedDecimals; rw [hret])
        ((length_map _).trans (response.inputList_length overallMessage inputs hret))
      exact ⟨own, hown, .inl hsame⟩

end CustomResponse

/-! ## All responses -/

variable {responses : List CustomResponse}

section

variable (cleanMarkup : String → String)

theorem gradeFrom_lookup {newcmap results : CorrectMap} {context : Context}
    (hress : (gradeFrom cleanMarkup responses newcmap context).1 = .ok results)
    {answerId : String} (hout : answerId ∉ responses.flatMap answerIds) :
    results.cmap.lookup answerId = newcmap.cmap.lookup answerId := by
  induction responses generalizing newcmap context with
  | nil => rw [← ok.inj hress]
  | cons response responses ih =>
    rw [flatMap_cons, mem_append, not_or] at hout
    unfold gradeFrom at hress
    cases hsco : response.getScore cleanMarkup context with
    | mk outcome next =>
      rw [hsco] at hress
      cases outcome with
      | error err => cases hress
      | ok found =>
        rw [ih hress hout.2]
        have hnone := getScore_lookup cleanMarkup (congrArg Prod.fst hsco) hout.1
        change (Dict.update newcmap.cmap found.cmap).lookup answerId = _
        rw [lookup_update, hnone, none_or]

theorem gradeAlone_lookup {newcmap results : CorrectMap}
    (hress : gradeAlone cleanMarkup responses newcmap = .ok results)
    {answerId : String} (hout : answerId ∉ responses.flatMap answerIds) :
    results.cmap.lookup answerId = newcmap.cmap.lookup answerId := by
  induction responses generalizing newcmap with
  | nil => rw [← ok.inj hress]
  | cons response responses ih =>
    rw [flatMap_cons, mem_append, not_or] at hout
    unfold gradeAlone at hress
    cases hsco : (response.getScore cleanMarkup {}).1 with
    | error err =>
      rw [hsco] at hress
      cases hress
    | ok found =>
      rw [hsco] at hress
      rw [ih hress hout.2]
      change (Dict.update newcmap.cmap found.cmap).lookup answerId = _
      rw [lookup_update, getScore_lookup cleanMarkup hsco hout.1, none_or]

theorem gradeAlone_ok (responses : List CustomResponse) (newcmap : CorrectMap) :
    ∃ results, gradeAlone cleanMarkup responses newcmap = .ok results := by
  induction responses generalizing newcmap with
  | nil => exact ⟨newcmap, rfl⟩
  | cons response responses ih =>
    obtain ⟨own, hown, -⟩ := response.getScore_cases cleanMarkup {}
    unfold gradeAlone
    rw [hown]
    exact ih _

theorem gradeFrom_eq_alone_iff (huniq : (responses.flatMap answerIds).Nodup) (newcmap : CorrectMap)
    (context : Context) :
    (gradeFrom cleanMarkup responses newcmap context).1 = gradeAlone cleanMarkup responses newcmap ↔
      AllUnaffected context.gradeDecimals responses := by
  induction responses generalizing newcmap context with
  | nil => exact iff_of_true rfl trivial
  | cons response responses ih =>
    rw [flatMap_cons, nodup_append] at huniq
    obtain ⟨-, hrest, hdisj⟩ := huniq
    obtain ⟨own, hown, hcases⟩ := response.getScore_cases cleanMarkup context
    have hdecs := response.getScore_gradeDecimals cleanMarkup context
    unfold gradeFrom gradeAlone AllUnaffected
    rw [hown, ← hdecs]
    cases hsco : response.getScore cleanMarkup context with
    | mk outcome next =>
      rw [hsco] at hcases
      rcases hcases with ⟨huna, hsame⟩ | ⟨haff, hdif⟩
      · obtain rfl := hsame
        simp only [huna, true_and]
        exact ih hrest _ next
      · refine iff_of_false (fun heq => ?_) fun hall => haff hall.1
        obtain ⟨expected, hexp⟩ := gradeAlone_ok cleanMarkup responses (newcmap.update own)
        cases outcome with
        | error err => cases heq.trans hexp
        | ok results =>
          dsimp only at heq
          rw [hexp] at heq
          obtain ⟨answerId, hans, found, wanted, hfnd, hwan, hne⟩ := hdif results rfl
          have hout : answerId ∉ responses.flatMap answerIds :=
            fun hmem => hdisj answerId hans answerId hmem rfl
          have hleft := gradeFrom_lookup cleanMarkup heq hout
          have hrgt := gradeAlone_lookup cleanMarkup hexp hout
          change _ = (Dict.update newcmap.cmap results.cmap).lookup answerId at hleft
          change _ = (Dict.update newcmap.cmap own.cmap).lookup answerId at hrgt
          rw [lookup_update, hfnd, some_or] at hleft
          rw [lookup_update, hwan, some_or] at hrgt
          exact hne (some_unique hleft hrgt)

end

/-- After any earlier gradings, grading all responses gives each the result it
gets alone exactly when each response whose check function returns a plain value
either is graded before any dictionary was returned, or gets the same points
from the decimals of the last one. -/
theorem gradeAnswers_eq_alone_iff (cleanMarkup : String → String)
    (earlier : List (List CustomResponse)) {responses : List CustomResponse}
    (hunique : (responses.flatMap answerIds).Nodup) :
    (gradeAnswers cleanMarkup responses (contextAfter cleanMarkup earlier)).1 = gradeAlone cleanMarkup responses {} ↔
      AllUnaffected (contextAfter cleanMarkup earlier).gradeDecimals responses :=
  gradeFrom_eq_alone_iff cleanMarkup hunique {} _

/-- A response of one box with a check function that returns `{'ok': False}`. -/
def firstResponse : CustomResponse where
  inputs := [⟨"i4x_1_2_1", 1, "wrong"⟩]
  emptyAnswerErr := false
  cfnReturn := .okDict (.bool false) none none
  inputs_ne_nil := by decide
  ids_unique := by decide
  inputList_length := by
    intro overallMessage entries hreturn
    cases hreturn

/-- A response of one box with a check function that returns `True`. -/
def secondResponse : CustomResponse where
  inputs := [⟨"i4x_1_3_1", 1, "right"⟩]
  emptyAnswerErr := false
  cfnReturn := .plain (.bool true)
  inputs_ne_nil := by decide
  ids_unique := by decide
  inputList_length := by
    intro overallMessage entries hreturn
    cases hreturn

theorem twoResponses_iff : (gradeAnswers id [firstResponse, secondResponse] (contextAfter id [])).1 =
        gradeAlone id [firstResponse, secondResponse] {} ↔
      AllUnaffected (contextAfter id []).gradeDecimals [firstResponse, secondResponse] :=
  gradeAnswers_eq_alone_iff id [] (by decide)

def resultFor (answerId : String) : Except PyError CorrectMap → Option AnswerResult
  | .ok results => results.cmap.lookup answerId
  | .error _ => none

/-- The second answer is correct and gets no points, where alone it gets one. -/
theorem secondResponse_loses_point : resultFor "i4x_1_3_1"
        (gradeAnswers id [firstResponse, secondResponse] (contextAfter id [])).1 =
      some ⟨.correct, some 0, some ""⟩ ∧
    resultFor "i4x_1_3_1" (gradeAlone id [firstResponse, secondResponse] {}) = some ⟨.correct, some 1, some ""⟩ := by
  refine ⟨by decide +kernel, by decide +kernel⟩

end EdxPlatform
