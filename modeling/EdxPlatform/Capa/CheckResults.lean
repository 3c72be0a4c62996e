import EdxPlatform.Capa.MaximumScore
import EdxPlatform.Capa.SharedContext

/-!
# Marks and points from a check function

One rule is documented for what a check function returns: a falsy value or the text `false` is incorrect, a
text with `partial` is partially correct, and any other truthy value is correct.  The mark and the points
are computed apart, and again for each of the accepted forms.
-/

namespace EdxPlatform

open CustomResponse

theorem okCorrectness_eq (ok : PyValue) : okCorrectness ok = valueCorrectness ok := by
  rw [okCorrectness, valueCorrectness]
  cases ok.truthy with
  | true => simp only [if_true, Bool.not_true, Bool.or_false, decide_eq_true_eq]
  | false => rw [if_neg false_ne_true, if_pos rfl, Bool.not_false, Bool.or_true, if_pos rfl]

/-- An entry of an input list is worth what its mark is worth: a truthy value has the text `true` or `false` or
one with `partial`, a falsy one neither `true` nor a text with `partial`. -/
def EntryKeepsRule (ok : PyValue) : Prop :=
  if ok.truthy then
    normalized ok = "true".toList ∨ normalized ok = "false".toList ∨ mentionsPartial (normalized ok) = true
  else normalized ok ≠ "true".toList ∧ mentionsPartial (normalized ok) = false

instance : DecidablePred EntryKeepsRule := fun ok =>
  inferInstanceAs (Decidable (if ok.truthy then
    normalized ok = "true".toList ∨ normalized ok = "false".toList ∨ mentionsPartial (normalized ok) = true
  else normalized ok ≠ "true".toList ∧ mentionsPartial (normalized ok) = false))

theorem defaultPc_ne_zero : defaultPc ≠ 0 := by
  simp [defaultPc]

/-- The decimal of an entry against its mark, by what is tested of the value: its truth, whether its text is
`true`, whether it is `false`, and whether it has `partial` in it. -/
theorem inputDecimal_iff (maxPoints : Int) (ok : PyValue) (msg : Option String) :
    (maxPoints : Rat) * inputDecimal ⟨ok, msg, none⟩ = markPoints maxPoints (valueCorrectness ok) ↔
      maxPoints = 0 ∨ EntryKeepsRule ok := by
  have htrue : mentionsPartial "true".toList = false := by decide
  have hfalse : mentionsPartial "false".toList = false := by decide
  have hne : "true".toList ≠ "false".toList := by decide
  rw [inputDecimal, valueCorrectness, EntryKeepsRule]
  dsimp only
  generalize normalized ok = text, "true".toList = trueText, "false".toList = falseText at *
  cases ok.truthy with
  | true =>
    by_cases htext : text = trueText
    · subst htext
      simp [htrue, hne, markPoints]
    · by_cases htext' : text = falseText
      · subst htext'
        simp [hfalse, hne.symm, markPoints]
      · cases hpar : mentionsPartial text with
        | true => simp [htext, htext', markPoints]
        | false => simp [htext, htext', markPoints, eq_comm]
  | false =>
    by_cases htext : text = trueText
    · subst htext
      simp [markPoints]
    · cases hpar : mentionsPartial text with
      | true => simp [htext, markPoints, defaultPc_ne_zero]
      | false => simp [htext, markPoints]

namespace CustomResponse

/-! ## The rule for all inputs -/

/-- The returned value has no `grade_decimal`. -/
def WithoutDecimals (response : CustomResponse) : Prop :=
  match response.cfnReturn with
  | .plain _ => True
  | .okDict _ _ gradeDecimal => gradeDecimal = none
  | .inputList _ entries => ∀ entry ∈ entries, entry.gradeDecimal = none

/-- The `ok` value for each of the inputs. -/
def okValues (response : CustomResponse) : List PyValue :=
  match response.cfnReturn with
  | .plain value => List.replicate response.inputs.length value
  | .okDict ok _ _ => List.replicate response.inputs.length ok
  | .inputList _ entries => entries.map InputDict.ok

variable (cleanMarkup : String → String)

section

variable (response : CustomResponse)

/-- In every form each input gets the mark that its `ok` value has by the rule, and the points that go with
the mark. -/
def FollowsRule (context : Context) : Prop :=
  ∃ results, (response.getScore cleanMarkup context).1 = .ok results ∧
    ∀ (index : Nat) input ok, response.inputs[index]? = some input → response.okValues[index]? = some ok →
      ∃ msg, results.cmap.lookup input.answerId =
        some ⟨valueCorrectness ok, some (markPoints input.maxPoints (valueCorrectness ok)), msg⟩

/-- An input without points or an entry that keeps the rule; for a plain value the decimals that an earlier
response left in the context, if there are any, are worth the mark. -/
def KeepsRule (context : Context) : Prop :=
  match response.cfnReturn with
  | .plain value => ∀ decimals, usableDecimals context.gradeDecimals = some decimals →
      DecimalsAgree response.inputs (valueCorrectness value) decimals
  | .okDict _ _ _ => True
  | .inputList _ entries => ∀ pair ∈ response.inputs.zip entries, pair.1.maxPoints = 0 ∨ EntryKeepsRule pair.2.ok

theorem ownContext_correct : (response.ownContext cleanMarkup).correct = response.okValues.map valueCorrectness := by
  rw [ownContext, okValues]
  cases response.cfnReturn with
  | plain value => simp [executeCheckFunction]
  | okDict ok msg gradeDecimal => simp [executeCheckFunction, okCorrectness_eq]
  | inputList overallMessage entries => simp [executeCheckFunction]

end

theorem followsRule_iff_loopPoints {response : CustomResponse} (hskipped : response.skipped = false)
    (context : Context) :
    response.FollowsRule cleanMarkup context ↔
      ∀ (index : Nat) input ok, response.inputs[index]? = some input → response.okValues[index]? = some ok →
        loopPoints (usableDecimals (response.returnedDecimals.or context.gradeDecimals)) index input.maxPoints
          (valueCorrectness ok) = some (markPoints input.maxPoints (valueCorrectness ok)) := by
  obtain ⟨hmks, hmsgs⟩ := response.ownContext_lengths cleanMarkup
  have hsco := response.getScore_eq cleanMarkup context hskipped
  rw [FollowsRule, hsco]
  dsimp only
  constructor
  · rintro ⟨results, hress, hrule⟩ index input ok hinput hok
    obtain ⟨mark, points, msg, hmark, hpts, hlook⟩ :=
      (setResults_ok response.ids_unique hress).found index input hinput
    obtain ⟨msg', hlook'⟩ := hrule index input ok hinput hok
    rw [ownContext_correct, getElem?_map, hok, map_some, some_inj] at hmark
    rw [hlook, some_inj, AnswerResult.mk.injEq, some_inj] at hlook'
    subst hmark
    rw [hpts, hlook'.2.1]
  · intro hloop
    rcases setResults_cases hmks hmsgs
        (usableDecimals (response.returnedDecimals.or context.gradeDecimals)) (response.ownMap cleanMarkup) with
      ⟨decimals, hdecs, hless, -⟩ | ⟨results, hress, -⟩
    · -- the loop would end at the first input without a decimal
      exfalso
      obtain ⟨ok, hok⟩ : ∃ ok, response.okValues[decimals.length]? = some ok := by
        rw [ownContext_correct, length_map] at hmks
        exact ⟨_, getElem?_eq_getElem (hmks ▸ hless)⟩
      have hpts := hloop decimals.length _ ok (getElem?_eq_getElem hless) hok
      rw [hdecs, loopPoints, List.getElem?_eq_none (Nat.le_refl _)] at hpts
      cases hpts
    · refine ⟨results, hress, ?_⟩
      intro index input ok hinput hok
      obtain ⟨mark, points, msg, hmark, hpts, hlook⟩ :=
        (setResults_ok response.ids_unique hress).found index input hinput
      rw [ownContext_correct, getElem?_map, hok, map_some, some_inj] at hmark
      subst hmark
      rw [hloop index input ok hinput hok] at hpts
      rw [some_inj] at hpts
      exact ⟨msg, by rw [hlook, hpts]⟩

theorem forall_mem_zip {α β : Type} {as : List α} {bs : List β} {property : α × β → Prop} :
    (∀ pair ∈ as.zip bs, property pair) ↔
      ∀ (index : Nat) a b, as[index]? = some a → bs[index]? = some b → property (a, b) := by
  constructor
  · intro hall index a b ha hb
    exact hall (a, b) (mem_of_getElem? (List.getElem?_zip_eq_some.mpr ⟨ha, hb⟩))
  · rintro hall ⟨a, b⟩ hpair
    obtain ⟨index, hidx⟩ := List.getElem?_of_mem hpair
    obtain ⟨ha, hb⟩ := List.getElem?_zip_eq_some.mp hidx
    exact hall index a b ha hb

theorem decimalsAgree_iff {inputs : List Input} {mark : Correctness} {decimals : List Rat} :
    DecimalsAgree inputs mark decimals ↔ ∀ (index : Nat) input, inputs[index]? = some input →
      loopPoints (some decimals) index input.maxPoints mark = some (markPoints input.maxPoints mark) := by
  rw [DecimalsAgree, forall_mem_zip]
  constructor
  · rintro ⟨hlen, hworth⟩ index input hinput
    have hlt : index < decimals.length := (getElem?_eq_some_iff.mp hinput).1.trans_le hlen
    have hdec := getElem?_eq_getElem hlt
    rw [loopPoints, hdec, map_some, hworth index input _ hinput hdec]
  · intro hloop
    constructor
    · by_contra hless
      rw [Nat.not_le] at hless
      have hpts := hloop decimals.length _ (getElem?_eq_getElem hless)
      rw [loopPoints, List.getElem?_eq_none (Nat.le_refl _)] at hpts
      cases hpts
    · intro index input decimal hinput hdec
      have hpts := hloop index input hinput
      rw [loopPoints, hdec] at hpts
      exact some.inj hpts

theorem usableDecimals_of_length {inputs : List Input} {decimals : List Rat}
    (hlen : decimals.length = inputs.length) (hne : inputs ≠ []) :
    usableDecimals (some decimals) = some decimals := by
  cases decimals with
  | nil => exact absurd (List.eq_nil_of_length_eq_zero hlen.symm) hne
  | cons decimal rest => rfl

theorem mul_okDecimal (maxPoints : Int) (mark : Correctness) :
    (maxPoints : Rat) * okDecimal mark none = markPoints maxPoints mark := by
  cases mark <;> simp [okDecimal, markPoints]

section Forms

variable {response : CustomResponse} (hskipped : response.skipped = false) (context : Context)

include hskipped

theorem followsRule_plain_iff {value : PyValue} (hret : response.cfnReturn = .plain value) :
    response.FollowsRule cleanMarkup context ↔ ∀ decimals, usableDecimals context.gradeDecimals = some decimals →
        DecimalsAgree response.inputs (valueCorrectness value) decimals := by
  have hdecs : response.returnedDecimals = none := by rw [returnedDecimals, hret]
  have hvals : response.okValues = replicate response.inputs.length value := by rw [okValues, hret]
  rw [followsRule_iff_loopPoints cleanMarkup hskipped, hdecs, hvals, none_or]
  cases usableDecimals context.gradeDecimals with
  | none => simp [loopPoints]
  | some decimals =>
    simp only [some_inj, forall_eq', decimalsAgree_iff, List.getElem?_replicate, Option.ite_none_right_eq_some]
    constructor
    · intro hloop index input hinput
      exact hloop index input value hinput ⟨(getElem?_eq_some_iff.mp hinput).1, rfl⟩
    · rintro hloop index input _ hinput ⟨-, rfl⟩
      exact hloop index input hinput

theorem followsRule_okDict {ok : PyValue} {msg : Option String}
    (hret : response.cfnReturn = .okDict ok msg none) : response.FollowsRule cleanMarkup context := by
  have hdecs : response.returnedDecimals =
      some (replicate response.inputs.length (okDecimal (valueCorrectness ok) none)) := by
    rw [returnedDecimals, hret, ← okCorrectness_eq]
  have hvals : response.okValues = replicate response.inputs.length ok := by rw [okValues, hret]
  rw [followsRule_iff_loopPoints cleanMarkup hskipped, hdecs, hvals, some_or,
    usableDecimals_of_length length_replicate response.inputs_ne_nil]
  intro index input value hinput hval
  have hlt := (getElem?_eq_some_iff.mp hinput).1
  obtain rfl : ok = value := by simpa [List.getElem?_replicate, hlt] using hval
  simp [loopPoints, hlt, mul_okDecimal]

theorem followsRule_inputList_iff {overallMessage : String} {entries : List InputDict}
    (hret : response.cfnReturn = .inputList overallMessage entries)
    (hwit : ∀ entry ∈ entries, entry.gradeDecimal = none) :
    response.FollowsRule cleanMarkup context ↔ ∀ pair ∈ response.inputs.zip entries,
      pair.1.maxPoints = 0 ∨ EntryKeepsRule pair.2.ok := by
  have hlen := response.inputList_length overallMessage entries hret
  have hdecs : response.returnedDecimals = some (entries.map inputDecimal) := by
    rw [returnedDecimals, hret]
  have hvals : response.okValues = entries.map InputDict.ok := by rw [okValues, hret]
  rw [followsRule_iff_loopPoints cleanMarkup hskipped, hdecs, hvals, some_or,
    usableDecimals_of_length (by simpa using hlen) response.inputs_ne_nil, forall_mem_zip]
  have hent (maxPoints : Int) {entry : InputDict} (hmem : entry ∈ entries) :
      (maxPoints : Rat) * inputDecimal entry = markPoints maxPoints (valueCorrectness entry.ok) ↔
        maxPoints = 0 ∨ EntryKeepsRule entry.ok := by
    have hnone : entry = ⟨entry.ok, entry.msg, none⟩ := by rw [← hwit entry hmem]
    rw [hnone]
    exact inputDecimal_iff maxPoints entry.ok entry.msg
  constructor
  · intro hloop index input entry hinput hidx
    have hpts := hloop index input entry.ok hinput (by rw [getElem?_map, hidx]; rfl)
    rw [loopPoints, getElem?_map, hidx] at hpts
    exact (hent input.maxPoints (mem_of_getElem? hidx)).mp (some.inj hpts)
  · intro hkeep index input ok hinput hok
    rw [getElem?_map, map_eq_some_iff] at hok
    obtain ⟨entry, hidx, rfl⟩ := hok
    rw [loopPoints, getElem?_map, hidx]
    exact congrArg some ((hent input.maxPoints (mem_of_getElem? hidx)).mpr (hkeep index input entry hinput hidx))

end Forms

/-- The forms agree on marks and points but for the entries of an input list whose text is not `true`, and for
decimals that another response has left. -/
theorem followsRule_iff (response : CustomResponse) (hskipped : response.skipped = false)
    (hwithout : response.WithoutDecimals) (context : Context) :
    response.FollowsRule cleanMarkup context ↔ response.KeepsRule context := by
  rw [KeepsRule]
  rw [WithoutDecimals] at hwithout
  cases hreturn : response.cfnReturn with
  | plain value => exact followsRule_plain_iff cleanMarkup hskipped context hreturn
  | okDict ok msg gradeDecimal =>
    rw [hreturn] at hwithout
    obtain rfl : gradeDecimal = none := hwithout
    exact iff_of_true (followsRule_okDict cleanMarkup hskipped context hreturn) trivial
  | inputList overallMessage entries =>
    rw [hreturn] at hwithout
    exact followsRule_inputList_iff cleanMarkup hskipped context hreturn hwithout

/-- One box worth a point, with the text under `ok`. -/
def listedOk (ok : PyValue) : CustomResponse where
  inputs := [⟨"1_2_1", 1, "42"⟩]
  emptyAnswerErr := false
  cfnReturn := .inputList "" [⟨ok, none, none⟩]
  inputs_ne_nil := by simp
  ids_unique := by simp
  inputList_length := by
    rintro overallMessage entries ⟨⟩
    rfl

/-- The box is marked correct and gets no point. -/
theorem listedYes_breaks_rule : ¬ (listedOk (.str "yes")).FollowsRule id {} := by
  rw [followsRule_iff_loopPoints id rfl]
  intro hloop
  have hpoints := hloop 0 ⟨"1_2_1", 1, "42"⟩ (.str "yes") rfl rfl
  exact absurd ((inputDecimal_iff 1 (.str "yes") none).mp (some.inj hpoints)) (by decide)

theorem listedTrue_iff : (listedOk (.bool true)).FollowsRule id {} ↔ (listedOk (.bool true)).KeepsRule {} :=
  followsRule_iff id (listedOk (.bool true)) rfl (fun _ hentry => by
    obtain rfl := mem_singleton.mp hentry
    rfl) {}

end CustomResponse

end EdxPlatform
