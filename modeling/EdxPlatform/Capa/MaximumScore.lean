import Mathlib.Algebra.BigOperators.Ring.Finset
import EdxPlatform.Capa.ScoreBounds

/-!
# Problems and their maximum score

From the responses to the problem: what each has found for its answers stays in
the merged map, and the score is the sum over all of them.
-/

namespace EdxPlatform

open Response CustomResponse CheckOutcome LoncapaProblem Response

theorem foldl_set {α : Type} (answerId : α → String) (result : α → AnswerResult) (values : List α) (map : CorrectMap) :
    (∀ other, other ∈ (values.foldl (fun map value => map.set (answerId value) (result value)) map).cmap ↔
      other ∈ map.cmap ∨ other ∈ values.map answerId) ∧
    (∀ other ∈ values.map answerId, ∃ value ∈ values, answerId value = other ∧ (values.foldl (fun map value =>
        map.set (answerId value) (result value)) map).cmap.lookup other = some (result value)) ∧
    (∀ other, other ∉ values.map answerId → (values.foldl (fun map value =>
        map.set (answerId value) (result value)) map).cmap.lookup other = map.cmap.lookup other) := by
  induction values generalizing map with
  | nil => simp
  | cons value values ih =>
    obtain ⟨hmem, hfnd, hkept⟩ := ih (map.set (answerId value) (result value))
    rw [foldl_cons]
    refine ⟨fun other => ?_, fun other hoth => ?_, fun other hoth => ?_⟩
    · rw [hmem, map_cons, mem_cons]
      unfold CorrectMap.set
      rw [mem_insert]
      tauto
    · by_cases hrest : other ∈ values.map answerId
      · obtain ⟨found, hin, hid, hlook⟩ := hfnd other hrest
        exact ⟨found, mem_cons_of_mem _ hin, hid, hlook⟩
      · rw [map_cons, mem_cons, or_iff_left hrest] at hoth
        refine ⟨value, mem_cons_self, hoth.symm, ?_⟩
        rw [hkept other hrest, hoth]
        exact lookup_insert_self _ _ _
    · rw [map_cons, mem_cons, not_or] at hoth
      rw [hkept other hoth.2]
      exact lookup_insert_of_ne hoth.1 _ _

namespace OptionResponse

theorem fieldResult_mark (answers : StudentAnswers) (field : InputField × Option String) :
    (fieldResult answers field).npoints = none ∧ ((fieldResult answers field).correctness = .correct ∨
        (fieldResult answers field).correctness = .incorrect) := by
  unfold fieldResult
  split
  · next answer correct _ _ =>
    by_cases heq : answer = correct <;> simp [heq]
  · simp

theorem npoints_fieldResult {answers : StudentAnswers} {field : InputField × Option String}
    (hcorrect : (fieldResult answers field).correctness = .correct) :
    CorrectMap.npoints (fieldResult answers field) = 1 := by
  unfold CorrectMap.npoints
  rw [(fieldResult_mark answers field).1, hcorrect]

theorem getScore_scored (response : OptionResponse) (answers : StudentAnswers) (left : Option (List Rat)) :
    (option response).Scored left (response.getScore answers).cmap := by
  obtain ⟨-, hfnd, -⟩ := foldl_set (fun field : InputField × Option String => field.1.id)
    (fieldResult answers) response.answerFields {}
  have hres : ∀ field ∈ response.answerFields, ∃ found,
      (response.getScore answers).cmap.lookup field.1.id = some (fieldResult answers found) := by
    intro field hfld
    obtain ⟨found, -, -, hlook⟩ := hfnd field.1.id (mem_map_of_mem hfld)
    exact ⟨found, hlook⟩
  constructor
  · intro entry hent
    obtain ⟨field, hfld, rfl⟩ := mem_map.mp hent
    obtain ⟨found, hlook⟩ := hres field hfld
    have hone : (1 : Rat) ≤ field.1.points := by exact_mod_cast field.1.points_pos
    refine ⟨_, hlook, ?_⟩
    rcases (fieldResult_mark answers found).2 with hcorrect | hinc
    · rw [npoints_fieldResult hcorrect]
      exact ⟨zero_le_one, hone⟩
    · unfold CorrectMap.npoints
      rw [(fieldResult_mark answers found).1, hinc]
      constructor
      · exact le_rfl
      · exact zero_le_one.trans hone
  · intro hcorrect
    have hpts : ∀ field ∈ response.answerFields, pointsAt (response.getScore answers).cmap field.1.id = 1 := by
      intro field hfld
      obtain ⟨found, hlook⟩ := hres field hfld
      obtain ⟨-, result, hres, hmark⟩ := hcorrect (field.1.id, field.1.points) (mem_map_of_mem hfld)
      obtain rfl := some_unique hlook hres
      unfold pointsAt
      rw [hlook]
      exact npoints_fieldResult hmark
    unfold AllPoints Response.WorthFull maxpoints
    constructor
    · intro hall field hfld
      have heq := hall _ (mem_map_of_mem hfld)
      dsimp only at heq
      rw [hpts field hfld] at heq
      exact_mod_cast heq.symm
    · intro hworth entry hent
      obtain ⟨field, hfld, rfl⟩ := mem_map.mp hent
      rw [hpts field hfld, hworth field hfld]
      rfl

end OptionResponse

def loopPoints (decimals : Option (List Rat)) (index : Nat) (maxPoints : Int) (mark : Correctness) : Option Rat :=
  match decimals with
  | none => some (markPoints maxPoints mark)
  | some decimals => (decimals[index]?).map fun decimal => maxPoints * decimal

/-- What the last loop has set when it ends. -/
structure ResultsSet (inputs : List Input) (marks : List Correctness)
    (decimals : Option (List Rat)) (map final : CorrectMap) : Prop where
  mem : ∀ other, other ∈ final.cmap ↔ other ∈ map.cmap ∨ other ∈ inputs.map Input.answerId
  kept : ∀ other, other ∉ inputs.map Input.answerId → final.cmap.lookup other = map.cmap.lookup other
  found : ∀ (index : Nat) input, inputs[index]? = some input → ∃ mark points msg,
    marks[index]? = some mark ∧ loopPoints decimals index input.maxPoints mark = some points ∧
      final.cmap.lookup input.answerId = some ⟨mark, some points, msg⟩

variable {decimals : Option (List Rat)} {cleanMarkup : String → String} {response : ScriptResponse}
  {marks : List Correctness}

theorem ResultsSet.cons {input : Input} {inputs : List Input} {mark : Correctness}
    {marks : List Correctness} {rest : Option (List Rat)} {map final : CorrectMap}
    {points : Rat} {msg : Option String}
    (hset : ResultsSet inputs marks rest (map.set input.answerId ⟨mark, some points, msg⟩) final)
    (hfst : input.answerId ∉ inputs.map Input.answerId)
    (hpts : loopPoints decimals 0 input.maxPoints mark = some points)
    (hshift : ∀ index maxPoints mark, loopPoints decimals (index + 1) maxPoints mark =
      loopPoints rest index maxPoints mark) :
    ResultsSet (input :: inputs) (mark :: marks) decimals map final := by
  constructor
  · intro other
    rw [hset.mem, map_cons, mem_cons]
    unfold CorrectMap.set
    rw [mem_insert]
    tauto
  · intro other hoth
    rw [map_cons, mem_cons, not_or] at hoth
    rw [hset.kept other hoth.2]
    exact lookup_insert_of_ne hoth.1 _ _
  · intro index found hidx
    cases index with
    | zero =>
      obtain rfl := some.inj hidx
      refine ⟨mark, points, msg, rfl, hpts, ?_⟩
      rw [hset.kept _ hfst]
      exact lookup_insert_self _ _ _
    | succ index =>
      obtain ⟨mark, points, msg, hmark, hloop, hlook⟩ := hset.found index found hidx
      exact ⟨mark, points, msg, hmark, (hshift index _ _).trans hloop, hlook⟩

theorem setResults_ok {inputs : List Input} {marks : List Correctness}
    {messages : List (Option String)} {map final : CorrectMap}
    (huniq : (inputs.map Input.answerId).Nodup)
    (hset : setResults inputs marks messages decimals map = .ok final) :
    ResultsSet inputs marks decimals map final := by
  induction inputs generalizing marks messages decimals map with
  | nil =>
    unfold setResults at hset
    obtain rfl := ok.inj hset
    exact ⟨by simp, by simp, by simp⟩
  | cons input inputs ih =>
    obtain ⟨hfst, hrest⟩ := nodup_cons.mp huniq
    unfold setResults at hset
    split at hset
    · next heq => cases heq
    · next heq =>
      obtain ⟨rfl, rfl⟩ := cons.inj heq
      exact (ih hrest hset).cons hfst rfl fun _ _ _ => rfl
    · next heq =>
      obtain ⟨rfl, rfl⟩ := cons.inj heq
      exact (ih hrest hset).cons hfst rfl fun _ _ _ => rfl
    · cases hset

def Shares (decimals : Option (List Rat)) : Prop :=
  ∀ list, decimals = some list → ∀ decimal ∈ list, 0 ≤ decimal ∧ decimal ≤ 1

theorem Shares.or {left : Option (List Rat)} (hdecs : Shares decimals)
    (hleft : Shares left) : Shares (decimals.or left) := by
  cases decimals with
  | none => exact hleft
  | some list => exact hdecs

theorem Shares.usable (hshr : Shares decimals) : Shares (usableDecimals decimals) := by
  unfold usableDecimals
  split
  · exact fun list hlist => absurd hlist (by simp)
  · exact hshr

theorem loopPoints_bounds (hshr : Shares decimals) {index : Nat} {maxPoints : Nat} {mark : Correctness} {points : Rat}
    (hpts : loopPoints decimals index maxPoints mark = some points) :
    0 ≤ points ∧ points ≤ maxPoints := by
  have hmax : (0 : Rat) ≤ maxPoints := by positivity
  cases decimals with
  | none =>
    obtain rfl := some.inj hpts
    unfold markPoints defaultPc
    cases mark <;> simp only [Int.cast_natCast] <;> constructor <;> linarith
  | some list =>
    obtain ⟨decimal, hdec, rfl⟩ := map_eq_some_iff.mp hpts
    obtain ⟨hnn, hle⟩ := hshr list rfl decimal (mem_of_getElem? hdec)
    simp only [Int.cast_natCast]
    exact ⟨mul_nonneg hmax hnn, mul_le_of_le_one_right hmax hle⟩

namespace ScriptResponse

theorem setDecimals_shares (response : ScriptResponse) : Shares response.setDecimals := by
  intro list hlist decimal hdec
  have hshare := response.decimals_share
  unfold setDecimals at hlist
  split at hlist
  · next ok msg gradeDecimal houtc =>
    obtain rfl := some.inj hlist
    obtain ⟨hcnt, rfl⟩ := List.mem_replicate.mp hdec
    unfold okDecimal
    cases gradeDecimal with
    | none => cases okCorrectness ok <;> norm_num [defaultPc]
    | some given =>
      refine hshare given ?_
      rw [houtc]
      exact List.mem_replicate.mpr ⟨hcnt, rfl⟩
  · next overallMessage entries houtc =>
    obtain rfl := some.inj hlist
    obtain ⟨entry, hent, rfl⟩ := mem_map.mp hdec
    unfold inputDecimal
    cases hgiven : entry.gradeDecimal with
    | none =>
      dsimp only
      split
      · norm_num
      split
      · norm_num [defaultPc]
      · norm_num
    | some given =>
      refine hshare given ?_
      rw [houtc, ← hgiven]
      exact mem_map_of_mem hent
  · next correct messages overallMessage gradeDecimals houtc =>
    refine hshare decimal ?_
    rw [houtc, hlist]
    exact mem_map_of_mem hdec
  · cases hlist

/-- What the check leaves in the context: decimals, or those left before, and the
marks that go with a returned value. -/
theorem executeCheckFunction_cases {context after : Context}
    (hexec : response.executeCheckFunction cleanMarkup context = .ok after) :
    after.gradeDecimals = response.setDecimals.or context.gradeDecimals ∧
      (∀ ok msg gradeDecimal, response.outcome = .returned (.okDict ok msg gradeDecimal) →
        after.correct = replicate response.inputs.length (okCorrectness ok)) ∧
      (∀ overallMessage entries, response.outcome = .returned (.inputList overallMessage entries) →
        after.correct = entries.map fun entry => valueCorrectness entry.ok) := by
  unfold executeCheckFunction at hexec
  unfold setDecimals
  cases houtc : response.outcome with
  | raised =>
    rw [houtc] at hexec
    cases hexec
  | returned cfnReturn =>
    rw [houtc] at hexec
    obtain rfl := ok.inj hexec
    cases cfnReturn with
    | plain value => exact ⟨rfl, by simp, by simp⟩
    | okDict ok msg gradeDecimal =>
      refine ⟨rfl, ?_, by simp⟩
      intro other _ _ heq
      cases heq
      rfl
    | inputList overallMessage entries =>
      refine ⟨rfl, by simp, ?_⟩
      intro _ other heq
      cases heq
      rfl
  | executed correct messages overallMessage gradeDecimals =>
    rw [houtc] at hexec
    obtain rfl := ok.inj hexec
    exact ⟨rfl, by simp, by simp⟩

/-- Every input has a correct mark, points in the last loop, and no author's decimal. -/
structure LoopCorrect (response : ScriptResponse) (marks : List Correctness)
    (decimals : Option (List Rat)) : Prop where
  mark : ∀ (index : Nat) field, response.inputs[index]? = some field → marks[index]? = some .correct
  points : ∀ (index : Nat) field, response.inputs[index]? = some field →
    (loopPoints decimals index field.points .correct).isSome = true
  given : ∀ (index : Nat) field decimal, response.inputs[index]? = some field →
    (response.outcome.authorDecimals response.inputs.length)[index]? ≠ some (some decimal)

def LoopFull (response : ScriptResponse) (decimals : Option (List Rat)) : Prop :=
  ∀ (index : Nat) field, response.inputs[index]? = some field →
    loopPoints decimals index field.points .correct = some (field.points : Rat)

theorem loopFull_none (response : ScriptResponse) : response.LoopFull none :=
  fun _ _ _ => rfl

theorem loopFull_some {decimals : List Rat} (hpts : ∀ (index : Nat) field, response.inputs[index]? = some field →
      (loopPoints (some decimals) index field.points .correct).isSome = true) :
    response.LoopFull (some decimals) ↔ ∀ decimal ∈ decimals.take response.inputs.length, decimal = 1 := by
  constructor
  · intro hfull decimal hdec
    obtain ⟨index, hidx⟩ := List.mem_iff_getElem?.mp hdec
    rw [getElem?_take] at hidx
    split at hidx
    · next hlt =>
      have hfld := hfull index response.inputs[index] (getElem?_eq_getElem hlt)
      have hpos : ((response.inputs[index]).points : Rat) ≠ 0 := by
        exact_mod_cast (response.inputs[index]).points_pos.ne'
      simp only [loopPoints, hidx, map_some, Option.some.injEq, Int.cast_natCast] at hfld
      exact mul_left_cancel₀ hpos (hfld.trans (mul_one _).symm)
    · cases hidx
  · intro hones index field hfld
    have hsome := hpts index field hfld
    simp only [loopPoints] at hsome ⊢
    cases hdec : decimals[index]? with
    | none =>
      rw [hdec] at hsome
      cases hsome
    | some decimal =>
      have hlt : index < response.inputs.length := (getElem?_eq_some_iff.mp hfld).1
      have hone := hones decimal (List.mem_iff_getElem?.mpr ⟨index, by
        rw [getElem?_take, if_pos hlt, hdec]⟩)
      rw [map_some, hone, mul_one]
      rfl

theorem inputDecimal_eq_one_iff {entry : InputDict} (hgiven : entry.gradeDecimal = none)
    (hcorrect : valueCorrectness entry.ok = .correct) :
    inputDecimal entry = 1 ↔ normalized entry.ok = "true".toList := by
  unfold inputDecimal
  rw [hgiven]
  dsimp only
  by_cases htrue : normalized entry.ok = "true".toList
  · simp [htrue]
  · rw [if_neg htrue]
    unfold valueCorrectness at hcorrect
    split at hcorrect
    · cases hcorrect
    split at hcorrect
    · cases hcorrect
    · next hcred =>
      rw [if_neg hcred]
      exact iff_of_false zero_ne_one htrue

theorem loopFull_usable {decimals : List Rat} (hpts : ∀ (index : Nat) field, response.inputs[index]? = some field →
      (loopPoints (usableDecimals (some decimals)) index field.points .correct).isSome = true) :
    response.LoopFull (usableDecimals (some decimals)) ↔
      ∀ decimal ∈ decimals.take response.inputs.length, decimal = 1 := by
  cases decimals with
  | nil => exact iff_of_true response.loopFull_none (by simp)
  | cons first rest => exact loopFull_some hpts

namespace LoopCorrect

variable {decimals : Option (List Rat)}

section

variable (hcorrect : response.LoopCorrect marks decimals)
include hcorrect

theorem okDecimal_eq_one {ok : PyValue} {msg : Option String} {gradeDecimal : Option Rat}
    (houtc : response.outcome = .returned (.okDict ok msg gradeDecimal))
    (hmks : marks = replicate response.inputs.length (okCorrectness ok))
    (hinp : 0 < response.inputs.length) :
    okDecimal (okCorrectness ok) gradeDecimal = 1 := by
  have hfst := getElem?_eq_getElem hinp
  have hok : okCorrectness ok = .correct := by
    have hmark := hcorrect.mark 0 _ hfst
    simpa [hmks, List.getElem?_replicate, hinp] using hmark
  have hnone : gradeDecimal = none := by
    cases gradeDecimal with
    | none => rfl
    | some given =>
      refine absurd ?_ (hcorrect.given 0 _ given hfst)
      simp [houtc, authorDecimals, hinp]
  rw [hok, hnone]
  rfl

theorem inputDecimal_eq_one_iff {overallMessage : String} {entries : List InputDict}
    (houtc : response.outcome = .returned (.inputList overallMessage entries))
    (hmks : marks = entries.map fun entry => valueCorrectness entry.ok) {entry : InputDict}
    (hent : entry ∈ entries.take response.inputs.length) :
    inputDecimal entry = 1 ↔ normalized entry.ok = "true".toList := by
  obtain ⟨index, hidx⟩ := List.mem_iff_getElem?.mp hent
  rw [getElem?_take] at hidx
  split at hidx
  · next hlt =>
    have hfld := getElem?_eq_getElem hlt
    have hval := hcorrect.mark index _ hfld
    rw [hmks, getElem?_map, hidx, map_some, Option.some.injEq] at hval
    refine ScriptResponse.inputDecimal_eq_one_iff ?_ hval
    cases hdec : entry.gradeDecimal with
    | none => rfl
    | some given =>
      refine absurd ?_ (hcorrect.given index _ given hfld)
      simp [houtc, authorDecimals, hidx, hdec]
  · cases hidx

theorem not_mem_executed {correct : List Correctness} {messages : List (Option String)}
    {overallMessage : String} {own : List Rat}
    (houtc : response.outcome = .executed correct messages overallMessage (some own))
    (decimal : Rat) : decimal ∉ own.take response.inputs.length := by
  intro hdec
  obtain ⟨index, hidx⟩ := List.mem_iff_getElem?.mp hdec
  rw [getElem?_take] at hidx
  split at hidx
  · next hlt =>
    refine hcorrect.given index _ decimal (getElem?_eq_getElem hlt) ?_
    simp [houtc, authorDecimals, hidx]
  · cases hidx

end

end LoopCorrect

/-- Correct inputs without an author's decimal have all their points exactly when
the response is worth it. -/
theorem loopFull_iff_worthFull {left : Option (List Rat)} {marks : List Correctness}
    (hran : response.outcome ≠ .raised)
    (hdict : ∀ ok msg gradeDecimal, response.outcome = .returned (.okDict ok msg gradeDecimal) →
      marks = replicate response.inputs.length (okCorrectness ok))
    (hlist : ∀ overallMessage entries, response.outcome = .returned (.inputList overallMessage entries) →
        marks = entries.map fun entry => valueCorrectness entry.ok)
    (hcorrect : response.LoopCorrect marks (usableDecimals (response.setDecimals.or left))) :
    response.LoopFull (usableDecimals (response.setDecimals.or left)) ↔ response.WorthFull left := by
  have hpts := hcorrect.points
  -- decimals that the response did not set
  have hleft : response.setDecimals = none → (response.LoopFull (usableDecimals (response.setDecimals.or left)) ↔
        ∀ decimals, left = some decimals → ∀ decimal ∈ decimals.take response.inputs.length, decimal = 1) := by
    intro hnone
    rw [hnone, none_or] at hpts ⊢
    cases left with
    | none => exact iff_of_true response.loopFull_none (fun _ heq => nomatch heq)
    | some decimals =>
      rw [loopFull_usable hpts]
      exact ⟨fun hones _ heq => some.inj heq ▸ hones, fun hones => hones decimals rfl⟩
  unfold WorthFull
  unfold setDecimals at hleft hpts ⊢
  cases houtc : response.outcome with
  | raised => exact absurd houtc hran
  | returned cfnReturn =>
    cases cfnReturn with
    | plain value =>
      rw [houtc] at hleft
      exact hleft rfl
    | okDict ok msg gradeDecimal =>
      rw [houtc] at hpts
      refine iff_of_true ((loopFull_usable hpts).mpr fun decimal hdec => ?_) trivial
      rw [List.take_replicate, Nat.min_self] at hdec
      obtain ⟨hcnt, rfl⟩ := List.mem_replicate.mp hdec
      exact hcorrect.okDecimal_eq_one houtc (hdict ok msg gradeDecimal houtc) (Nat.pos_of_ne_zero hcnt)
    | inputList overallMessage entries =>
      rw [houtc] at hpts
      refine (loopFull_usable hpts).trans ?_
      rw [← map_take, List.forall_mem_map]
      exact forall₂_congr fun entry hent => hcorrect.inputDecimal_eq_one_iff houtc
        (hlist overallMessage entries houtc) hent
  | executed correct messages overallMessage gradeDecimals =>
    rw [houtc] at hleft hpts
    cases gradeDecimals with
    | none => exact hleft rfl
    | some decimals =>
      refine iff_of_true ((loopFull_usable hpts).mpr fun decimal hdec => ?_) trivial
      exact absurd hdec (hcorrect.not_mem_executed houtc decimal)

theorem not_allCorrect_of_skips {submission : List Submitted} (hskips : skips submission = true)
    (hlen : submission.length = response.inputs.length) (msg : Option String) :
    ¬ (custom response).AllCorrect (response.inputs.foldl (fun map field =>
      map.set field.id ⟨.incorrect, none, msg⟩) ({} : CorrectMap)).cmap := by
  intro hcorrect
  obtain ⟨-, hfnd, -⟩ := foldl_set InputField.id (fun _ => (⟨.incorrect, none, msg⟩ : AnswerResult)) response.inputs {}
  match submission, hlen with
  | [], _ => cases hskips
  | [_], hlen =>
    obtain ⟨field, hfld⟩ := List.length_eq_one_iff.mp hlen.symm
    have hmem : field ∈ response.inputs := by simp [hfld]
    obtain ⟨-, result, hres, hmark⟩ := hcorrect (field.id, field.points) (mem_map_of_mem hmem)
    obtain ⟨_, -, -, hlook⟩ := hfnd field.id (mem_map_of_mem hmem)
    obtain rfl := some_unique hlook hres
    cases hmark
  | _ :: _ :: _, _ => cases hskips

end ScriptResponse

/-- What one response makes of the merged map and of the context. -/
structure Response.Graded (response : Response) (left after : Option (List Rat))
    (cmap : Dict String AnswerResult) : Prop where
  scored : response.Scored left cmap
  mem : ∀ answerId, answerId ∈ cmap ↔ answerId ∈ response.maxpoints.map Prod.fst
  shares : Shares after
  after_eq : response.AllCorrect cmap → after = response.decimalsAfter left

namespace ScriptResponse

theorem graded_of_skips {submission : List Submitted} (hskips : skips submission = true)
    (hlen : submission.length = response.inputs.length) (msg : Option String)
    {left : Option (List Rat)} (hshr : Shares left) :
    (custom response).Graded left left (response.inputs.foldl (fun map field =>
      map.set field.id ⟨.incorrect, none, msg⟩) ({} : CorrectMap)).cmap := by
  have hnot := response.not_allCorrect_of_skips hskips hlen msg
  obtain ⟨hmem, hfnd, -⟩ := foldl_set InputField.id
    (fun _ => (⟨.incorrect, none, msg⟩ : AnswerResult)) response.inputs {}
  refine ⟨⟨?_, fun hcorrect => absurd hcorrect hnot⟩, fun answerId => ?_, hshr, fun hcorrect => absurd hcorrect hnot⟩
  · intro entry hent
    obtain ⟨field, hfld, rfl⟩ := mem_map.mp hent
    obtain ⟨_, -, -, hlook⟩ := hfnd field.id (mem_map_of_mem hfld)
    refine ⟨_, hlook, le_rfl, ?_⟩
    simp [CorrectMap.npoints]
  · rw [hmem]
    simp [maxpoints]

theorem forall_maxpoints_iff {property : String × Nat → Prop} :
    (∀ entry ∈ (custom response).maxpoints, property entry) ↔
      ∀ (index : Nat) field, response.inputs[index]? = some field → property (field.id, field.points) := by
  rw [maxpoints, List.forall_mem_map]
  constructor
  · exact fun hall index field hidx => hall field (mem_of_getElem? hidx)
  · intro hall field hfld
    obtain ⟨index, hidx⟩ := List.mem_iff_getElem?.mp hfld
    exact hall index field hidx

/-- Every input has the mark and the points that the last loop reads for it. -/
def ReadsLoop (response : ScriptResponse) (marks : List Correctness) (decimals : Option (List Rat))
    (cmap : Dict String AnswerResult) : Prop :=
  ∀ (index : Nat) field, response.inputs[index]? = some field → ∃ mark points msg, marks[index]? = some mark ∧
      loopPoints decimals index field.points mark = some points ∧
      cmap.lookup field.id = some ⟨mark, some points, msg⟩

namespace ReadsLoop

variable {decimals : Option (List Rat)} {cmap : Dict String AnswerResult}
  (hreads : response.ReadsLoop marks decimals cmap)
  (hcorrect : (Response.custom response).AllCorrect cmap)

include hreads hcorrect

theorem points_of_allCorrect {index : Nat} {field : InputField} (hidx : response.inputs[index]? = some field) :
    marks[index]? = some .correct ∧
      loopPoints decimals index field.points .correct = some (pointsAt cmap field.id) := by
  obtain ⟨mark, points, msg, hmark, hpts, hlook⟩ := hreads index field hidx
  obtain ⟨-, result, hres, hmrk⟩ := forall_maxpoints_iff.mp hcorrect index field hidx
  obtain rfl := some_unique hlook hres
  obtain rfl : mark = .correct := hmrk
  refine ⟨hmark, hpts.trans ?_⟩
  unfold pointsAt
  rw [hlook]
  rfl

theorem loopCorrect : response.LoopCorrect marks decimals where
  mark := fun _ _ hidx => (hreads.points_of_allCorrect hcorrect hidx).1
  points := by
    intro index field hidx
    rw [(hreads.points_of_allCorrect hcorrect hidx).2]
    rfl
  given := by
    intro index field decimal hidx hgiven
    refine (forall_maxpoints_iff.mp hcorrect index field hidx).1 ⟨index, ?_, decimal, hgiven⟩
    rw [getElem?_map, hidx]
    rfl

theorem allPoints_iff : (custom response).AllPoints cmap ↔ response.LoopFull decimals := by
  rw [AllPoints, forall_maxpoints_iff, LoopFull]
  refine forall_congr' fun index => forall_congr' fun field => forall_congr' fun hidx => ?_
  rw [(hreads.points_of_allCorrect hcorrect hidx).2, some_inj]

end ReadsLoop

theorem graded_of_loop {context after : Context} {correctMap results : CorrectMap}
    {left : Option (List Rat)} (huniq : (response.inputs.map InputField.id).Nodup)
    (hleft : context.gradeDecimals = left) (hshr : Shares left) (hemp : correctMap.cmap = ∅)
    (hexec : response.executeCheckFunction cleanMarkup context = .ok after)
    (hset : setResults response.loopInputs after.correct after.messages
      (usableDecimals after.gradeDecimals) correctMap = .ok results) :
    (custom response).Graded left after.gradeDecimals results.cmap := by
  have hids : response.loopInputs.map Input.answerId = response.inputs.map InputField.id := by
    simp [loopInputs, comp_def]
  obtain ⟨hmem, -, hfnd⟩ := setResults_ok (hids ▸ huniq) hset
  obtain ⟨haft, hdict, hlist⟩ := executeCheckFunction_cases hexec
  rw [hleft] at haft
  have hran : response.outcome ≠ .raised := by
    intro hrais
    unfold executeCheckFunction at hexec
    rw [hrais] at hexec
    cases hexec
  have hafte : Shares after.gradeDecimals := by
    rw [haft]
    exact response.setDecimals_shares.or hshr
  have hreads : response.ReadsLoop after.correct (usableDecimals after.gradeDecimals)
      results.cmap := by
    intro index field hfld
    refine hfnd index ⟨field.id, field.points, ""⟩ ?_
    simp [loopInputs, hfld]
  refine ⟨⟨?_, fun hcorrect => ?_⟩, fun answerId => ?_, hafte, fun _ => haft⟩
  · rw [forall_maxpoints_iff]
    intro index field hidx
    obtain ⟨mark, points, msg, -, hpts, hlook⟩ := hreads index field hidx
    exact ⟨_, hlook, loopPoints_bounds hafte.usable hpts⟩
  · have hloop := hreads.loopCorrect hcorrect
    rw [hreads.allPoints_iff hcorrect, haft]
    rw [haft] at hloop
    exact loopFull_iff_worthFull hran hdict hlist hloop
  · rw [hmem, hids, hemp]
    simp [maxpoints]

theorem mapM_length {ε α β : Type} {values : List α} {f : α → Except ε β} {results : List β}
    (hmap : values.mapM f = .ok results) : results.length = values.length := by
  induction values generalizing results with
  | nil =>
    rw [List.mapM_nil] at hmap
    obtain rfl := ok.inj hmap
    rfl
  | cons value values ih =>
    rw [List.mapM_cons] at hmap
    obtain ⟨first, -, hmap⟩ := bind_ok hmap
    obtain ⟨rest, hrest, hmap⟩ := bind_ok hmap
    obtain rfl := ok.inj hmap
    rw [length_cons, length_cons, ih hrest]

theorem getScore_graded {answers : StudentAnswers} {context after : Context}
    {results : CorrectMap} (huniq : (response.inputs.map InputField.id).Nodup)
    (hshr : Shares context.gradeDecimals)
    (hgrade : response.getScore cleanMarkup answers context = .ok (results, after)) :
    (custom response).Graded context.gradeDecimals after.gradeDecimals results.cmap := by
  unfold getScore at hgrade
  obtain ⟨submission, hsubm, hgrade⟩ := bind_ok hgrade
  split at hgrade
  · next hskips =>
    obtain ⟨rfl, rfl⟩ := Prod.mk.inj (ok.inj hgrade)
    exact graded_of_skips hskips (mapM_length hsubm) _ hshr
  · dsimp only at hgrade
    obtain ⟨executed, hexec, hgrade⟩ := bind_ok hgrade
    split at hgrade
    · cases hgrade
    · next correctMap hset =>
      obtain ⟨rfl, rfl⟩ := Prod.mk.inj (ok.inj hgrade)
      refine graded_of_loop huniq ?_ hshr rfl hexec hset
      rfl

end ScriptResponse

section Problem

variable {ν : Type} {libraries : Libraries ν}

theorem mem_oneResult (answerId : String) (correctness : Correctness) (npoints : Option Rat) (other : String) :
    other ∈ (oneResult answerId correctness npoints).cmap ↔ other = answerId := by
  unfold oneResult CorrectMap.set
  rw [mem_insert]
  simp

theorem graded_oneResult {response : Response} {answerId : String} {maxPoints : Nat}
    (hmax : response.maxpoints = [(answerId, maxPoints)]) {left : Option (List Rat)}
    (haft : response.decimalsAfter left = left) (hshr : Shares left)
    {correctness : Correctness} {npoints : Option Rat}
    (hscd : response.Scored left (oneResult answerId correctness npoints).cmap) :
    response.Graded left left (oneResult answerId correctness npoints).cmap := by
  refine ⟨hscd, fun other => ?_, hshr, fun _ => haft.symm⟩
  rw [mem_oneResult, hmax]
  simp

theorem Response.getScore_graded {response : Response} {answers : StudentAnswers}
    {context after : Context} {results : CorrectMap}
    (huniq : (response.maxpoints.map Prod.fst).Nodup) (hshr : Shares context.gradeDecimals)
    (hgrade : response.getScore libraries answers context = .ok (results, after)) :
    response.Graded context.gradeDecimals after.gradeDecimals results.cmap := by
  cases response with
  | choice response =>
    obtain ⟨found, hfnd, hgrade⟩ := bind_ok hgrade
    obtain ⟨rfl, rfl⟩ := Prod.mk.inj (ok.inj hgrade)
    rcases ChoiceResponse.getScore_cases hfnd with
      ⟨⟨correctness, npoints, hmark, rfl⟩, hnot⟩ | ⟨hcred, htype, hhal⟩
    · have hworth : (choice response).WorthFull context.gradeDecimals ↔ response.field.points = 1 := or_iff_right hnot
      exact graded_oneResult rfl rfl hshr (scored_unscaled rfl hworth hmark)
    · have hscd := response.gradeViaHalves_scored hcred htype
      rcases hhal with ⟨studentAnswer, rfl⟩ | rfl
      · obtain ⟨hscd, correctness, npoints, heq⟩ := hscd studentAnswer context.gradeDecimals
        rw [heq] at hscd ⊢
        exact graded_oneResult rfl rfl hshr hscd
      · refine graded_oneResult rfl rfl hshr
          (scored_oneResult rfl le_rfl ?_ (fun hcorrect => Correctness.noConfusion hcorrect))
        simp [CorrectMap.npoints]
  | multipleChoice response =>
    obtain ⟨found, hfnd, hgrade⟩ := bind_ok hgrade
    obtain ⟨rfl, rfl⟩ := Prod.mk.inj (ok.inj hgrade)
    obtain ⟨correctness, npoints, hmark, rfl⟩ := MultipleChoiceResponse.getScore_mark hfnd
    exact graded_oneResult rfl rfl hshr (scored_unscaled rfl Iff.rfl hmark)
  | trueFalse response =>
    obtain ⟨found, hfnd, hgrade⟩ := bind_ok hgrade
    obtain ⟨rfl, rfl⟩ := Prod.mk.inj (ok.inj hgrade)
    obtain ⟨correctness, npoints, hmark, rfl⟩ := TrueFalseResponse.getScore_mark hfnd
    exact graded_oneResult rfl rfl hshr (scored_unscaled rfl Iff.rfl hmark)
  | option response =>
    obtain ⟨rfl, rfl⟩ := Prod.mk.inj (ok.inj hgrade)
    obtain ⟨hmem, -, -⟩ := foldl_set (fun field : InputField × Option String => field.1.id)
      (OptionResponse.fieldResult answers) response.answerFields {}
    refine ⟨response.getScore_scored answers _, fun answerId => (hmem answerId).trans ?_, hshr, fun _ => rfl⟩
    simp [maxpoints]
  | string response =>
    obtain ⟨found, hfnd, hgrade⟩ := bind_ok hgrade
    obtain ⟨rfl, rfl⟩ := Prod.mk.inj (ok.inj hgrade)
    obtain ⟨correctness, npoints, hmark, rfl⟩ := StringResponse.getScore_mark hfnd
    exact graded_oneResult rfl rfl hshr (scored_unscaled rfl Iff.rfl hmark)
  | numerical response =>
    obtain ⟨found, hfnd, hgrade⟩ := bind_ok hgrade
    obtain ⟨rfl, rfl⟩ := Prod.mk.inj (ok.inj hgrade)
    obtain ⟨correctness, npoints, hmark, rfl⟩ := NumericalResponse.getScore_mark hfnd
    exact graded_oneResult rfl rfl hshr (scored_unscaled rfl Iff.rfl hmark)
  | choiceText response =>
    obtain ⟨found, hfnd, hgrade⟩ := bind_ok hgrade
    obtain ⟨rfl, rfl⟩ := Prod.mk.inj (ok.inj hgrade)
    obtain ⟨correctness, npoints, hmark, rfl⟩ := ChoiceTextResponse.getScore_mark hfnd
    exact graded_oneResult rfl rfl hshr (scored_unscaled rfl Iff.rfl hmark)
  | annotationResponse response =>
    obtain ⟨found, hfnd, hgrade⟩ := bind_ok hgrade
    obtain ⟨rfl, rfl⟩ := Prod.mk.inj (ok.inj hgrade)
    obtain ⟨hscd, correctness, npoints, rfl⟩ := AnnotationResponse.getScore_scored hfnd context.gradeDecimals
    exact graded_oneResult rfl rfl hshr hscd
  | custom response =>
    refine ScriptResponse.getScore_graded ?_ hshr hgrade
    simpa [maxpoints, comp_def] using huniq

/-- All responses are worth their full points, each with the decimals left before it. -/
def AllWorthFull : Option (List Rat) → List Response → Prop
  | _, [] => True
  | left, response :: responses => response.WorthFull left ∧ AllWorthFull (response.decimalsAfter left) responses

theorem LoncapaProblem.gradeFrom_graded {answers : StudentAnswers} {responders : List Response}
    {newcmap final : CorrectMap} {context : Context}
    (huniq : ((responders.flatMap maxpoints).map Prod.fst).Nodup)
    (hshr : Shares context.gradeDecimals)
    (hgrade : gradeFrom libraries answers responders newcmap context = .ok final) :
    (∀ answerId, answerId ∈ final.cmap ↔ answerId ∈ newcmap.cmap ∨
      answerId ∈ (responders.flatMap maxpoints).map Prod.fst) ∧
    (∀ answerId, answerId ∉ (responders.flatMap maxpoints).map Prod.fst →
      final.cmap.lookup answerId = newcmap.cmap.lookup answerId) ∧
    (∀ response ∈ responders, ∀ entry ∈ response.maxpoints, ∃ result,
      final.cmap.lookup entry.1 = some result ∧ 0 ≤ CorrectMap.npoints result ∧ CorrectMap.npoints result ≤ entry.2) ∧
    ((∀ response ∈ responders, response.AllCorrect final.cmap) →
      ((∀ response ∈ responders, response.AllPoints final.cmap) ↔ AllWorthFull context.gradeDecimals responders)) := by
  induction responders generalizing newcmap context with
  | nil =>
    obtain rfl := ok.inj hgrade
    simp [AllWorthFull]
  | cons response responses ih =>
    obtain ⟨⟨results, after⟩, hress, hgrade⟩ := bind_ok hgrade
    rw [flatMap_cons, map_append, nodup_append] at huniq
    obtain ⟨hown, hrest, hdisj⟩ := huniq
    have hgrd := getScore_graded hown hshr hress
    obtain ⟨hmem, hkept, hboun, hfull⟩ := ih hrest hgrd.shares hgrade
    -- later responses leave the results of this one as they are
    have hsame : ∀ entry ∈ response.maxpoints, final.cmap.lookup entry.1 = results.cmap.lookup entry.1 := by
      intro entry hent
      have hin : entry.1 ∈ response.maxpoints.map Prod.fst := mem_map_of_mem hent
      obtain ⟨result, hres⟩ := mem_iff_lookup.mp ((hgrd.mem entry.1).mpr hin)
      rw [hkept entry.1 fun hlat => hdisj _ hin _ hlat rfl]
      unfold CorrectMap.update
      rw [lookup_update, hres]
      rfl
    have hscd := Response.Scored.congr hsame hgrd.scored
    refine ⟨fun answerId => ?_, fun answerId hout => ?_, ?_, fun hcorrect => ?_⟩
    · rw [hmem, flatMap_cons, map_append, mem_append, ← hgrd.mem]
      unfold CorrectMap.update Dict.update
      rw [AList.mem_union]
      tauto
    · rw [flatMap_cons, map_append, mem_append, not_or] at hout
      rw [hkept answerId hout.2]
      unfold CorrectMap.update
      rw [lookup_update, lookup_eq_none.mpr fun hin => hout.1 ((hgrd.mem answerId).mp hin)]
      rfl
    · rw [forall_mem_cons]
      exact ⟨hscd.bounds, hboun⟩
    · rw [forall_mem_cons] at hcorrect ⊢
      have haft := hgrd.after_eq ((allCorrect_congr hsame).mp hcorrect.1)
      rw [hscd.full hcorrect.1, hfull hcorrect.2, haft]
      exact Iff.rfl

theorem Response.maxpoints_pos (response : Response) : ∀ entry ∈ response.maxpoints, 0 < entry.2 := by
  cases response <;> simp only [maxpoints, mem_singleton, mem_map, forall_eq,
    forall_exists_index, and_imp, forall_apply_eq_imp_iff₂]
  all_goals first
    | exact InputField.points_pos _
    | exact fun _ _ => InputField.points_pos _
    | decide

theorem LoncapaProblem.getMaxScore_eq (problem : LoncapaProblem) :
    (problem.getMaxScore : Rat) = ((problem.responders.flatMap maxpoints).map fun entry => (entry.2 : Rat)).sum := by
  unfold getMaxScore
  induction problem.responders with
  | nil => rfl
  | cons response responses ih =>
    rw [map_cons, sum_cons, Nat.cast_add, ih, flatMap_cons, map_append, sum_append]
    unfold Response.getMaxScore
    rw [Nat.cast_list_sum, map_map]
    rfl

namespace GradedProblem

variable (graded : GradedProblem libraries)

def AllCorrect : Prop := ∀ response ∈ graded.problem.responders, response.AllCorrect graded.correctMap.cmap

/-- The score is within the maximum and reaches it when all answers are correct. -/
def ScoreIsFair : Prop :=
  0 ≤ graded.getScore ∧ graded.getScore ≤ graded.problem.getMaxScore ∧
    (graded.AllCorrect → graded.getScore = graded.problem.getMaxScore)

/-- There are answers if there is anything to answer, and every response is worth its
full points. -/
def WorthFull : Prop :=
  (graded.studentAnswers.entries.isEmpty = true → graded.problem.responders.flatMap Response.maxpoints = []) ∧
  AllWorthFull graded.problem.context.gradeDecimals graded.problem.responders

theorem pointsAt_bounds : ∀ entry ∈ graded.problem.responders.flatMap maxpoints,
      0 ≤ pointsAt graded.correctMap.cmap entry.1 ∧ pointsAt graded.correctMap.cmap entry.1 ≤ entry.2 := by
  obtain ⟨-, -, hboun, -⟩ := gradeFrom_graded graded.problem.ids_unique graded.problem.decimals_share graded.graded
  intro entry hent
  obtain ⟨response, hresp, hin⟩ := mem_flatMap.mp hent
  obtain ⟨result, hres, hpts⟩ := hboun response hresp entry hin
  unfold pointsAt
  rw [hres]
  exact hpts

theorem points_eq : graded.correctMap.points = ((graded.problem.responders.flatMap maxpoints).map
      fun entry => pointsAt graded.correctMap.cmap entry.1).sum := by
  obtain ⟨hmem, -, -, -⟩ := gradeFrom_graded graded.problem.ids_unique graded.problem.decimals_share graded.graded
  rw [points_eq_sum graded.problem.ids_unique fun answerId => ?_, map_map]
  · rfl
  · rw [hmem]
    simp

theorem points_eq_max_iff (hcorrect : graded.AllCorrect) : graded.correctMap.points = graded.problem.getMaxScore ↔
      AllWorthFull graded.problem.context.gradeDecimals graded.problem.responders := by
  obtain ⟨-, -, -, hfull⟩ := gradeFrom_graded graded.problem.ids_unique graded.problem.decimals_share graded.graded
  rw [← hfull hcorrect, graded.points_eq, getMaxScore_eq,
    sum_eq_sum_iff_of_le fun entry hent => (graded.pointsAt_bounds entry hent).2]
  simp only [mem_flatMap, forall_exists_index, and_imp]
  constructor
  · exact fun hall response hresp entry hent => hall entry response hresp hent
  · exact fun hall entry response hresp hent => hall response hresp entry hent

theorem points_bounds : 0 ≤ graded.correctMap.points ∧ graded.correctMap.points ≤ graded.problem.getMaxScore := by
  rw [graded.points_eq, getMaxScore_eq]
  constructor
  · refine List.sum_nonneg fun points hpts => ?_
    obtain ⟨entry, hent, rfl⟩ := mem_map.mp hpts
    exact (graded.pointsAt_bounds entry hent).1
  · exact List.sum_le_sum fun entry hent => (graded.pointsAt_bounds entry hent).2

theorem getMaxScore_eq_zero_iff : graded.problem.getMaxScore = 0 ↔
      graded.problem.responders.flatMap maxpoints = [] := by
  constructor
  · intro hzero
    by_contra hsome
    obtain ⟨entry, hent⟩ := exists_mem_of_ne_nil _ hsome
    obtain ⟨response, hresp, hin⟩ := mem_flatMap.mp hent
    have hpos := response.maxpoints_pos entry hin
    unfold LoncapaProblem.getMaxScore at hzero
    have hsco := List.sum_eq_zero_iff.mp hzero _ (mem_map_of_mem hresp)
    have hentr := List.sum_eq_zero_iff.mp hsco _ (mem_map_of_mem hin)
    omega
  · intro hnone
    have hmax := graded.problem.getMaxScore_eq
    rw [hnone, map_nil, sum_nil] at hmax
    exact_mod_cast hmax

/-- The score is always within the maximum.  With all answers correct it reaches the
maximum exactly if there are answers and every response is worth its full points. -/
theorem scoreIsFair_iff : graded.ScoreIsFair ↔ (graded.AllCorrect → graded.WorthFull) := by
  obtain ⟨hnonneg, hle⟩ := graded.points_bounds
  have hmax : (0 : Rat) ≤ graded.problem.getMaxScore := by positivity
  unfold ScoreIsFair WorthFull getScore
  by_cases hempty : graded.studentAnswers.entries.isEmpty = true
  · rw [if_pos hempty]
    refine (and_iff_right le_rfl).trans ((and_iff_right hmax).trans ?_)
    refine forall_congr' fun hcorrect => ?_
    rw [← graded.points_eq_max_iff hcorrect]
    constructor
    · intro hzero
      refine ⟨fun _ => graded.getMaxScore_eq_zero_iff.mp (by exact_mod_cast hzero.symm), ?_⟩
      rw [← hzero] at hle ⊢
      exact le_antisymm hle hnonneg
    · rintro ⟨hnone, -⟩
      exact_mod_cast (graded.getMaxScore_eq_zero_iff.mpr (hnone hempty)).symm
  · rw [if_neg hempty]
    refine (and_iff_right hnonneg).trans ((and_iff_right hle).trans ?_)
    refine forall_congr' fun hcorrect => ?_
    rw [graded.points_eq_max_iff hcorrect]
    exact (and_iff_right fun h => absurd h hempty).symm

end GradedProblem

end Problem

def noLibraries : Libraries Unit where
  evaluator _ := none
  complex _ := none
  zero := ()
  isComplex _ := false
  hasImag _ := false
  isnan _ := false
  real _ := ()
  less _ _ := false
  extend _ _ _ := ((), ())
  compareWithTolerance _ _ _ := none
  nearlyEqual _ _ := false
  float _ := none
  expandTolerance _ _ := none
  strip text := text
  lower text := text
  search _ _ _ := none
  loads _ := none
  cleanMarkup text := text

def threePointChoice : LoncapaProblem where
  responders := [.multipleChoice {
    field := { id := "i4x_2_1", points := 3, points_pos := by decide }
    correctChoices := ["choice_paris"]
    partialChoices := []
    hasPartialCredit := false
    creditType := [] }]
  ids_unique := by decide
  decimals_share := by simp

def chosenParis : GradedProblem noLibraries where
  problem := threePointChoice
  studentAnswers := (∅ : StudentAnswers).insert "i4x_2_1" (.text "choice_paris")
  correctMap := ({} : CorrectMap).update (oneResult "i4x_2_1" .correct none)
  graded := rfl

/-- The right choice scores one point of three. -/
theorem chosenParis_scores_one_of_three : ¬ ∀ graded : GradedProblem noLibraries, graded.ScoreIsFair := by
  intro hclaim
  have hcorrect : chosenParis.AllCorrect := by
    intro response hresponse entry hentry
    obtain rfl := mem_singleton.mp hresponse
    obtain rfl := mem_singleton.mp hentry
    exact ⟨id, ⟨.correct, none, some ""⟩, by decide, rfl⟩
  have hequal := (hclaim chosenParis).2.2 hcorrect
  revert hequal
  decide +kernel

end EdxPlatform
