import Mathlib.Tactic.Positivity
import EdxPlatform.Capa.ProblemScore

/-!
# Scores within the maximum

A score never exceeds what the problem is worth.  It falls short of that with all
answers correct where a response leaves the points of a correct answer open:
`get_npoints` then counts one point, whatever the field is worth.
-/

namespace EdxPlatform

open Response

theorem sum_eq_sum_iff_of_le {α : Type} {values : List α} {term bound : α → Rat}
    (hle : ∀ value ∈ values, term value ≤ bound value) :
    (values.map term).sum = (values.map bound).sum ↔ ∀ value ∈ values, term value = bound value := by
  induction values with
  | nil => simp
  | cons value values ih =>
    have hhead := hle value mem_cons_self
    have hrest := fun other hmem => hle other (mem_cons_of_mem value hmem)
    have htail : (values.map term).sum ≤ (values.map bound).sum := List.sum_le_sum hrest
    rw [map_cons, map_cons, sum_cons, sum_cons, forall_mem_cons, ← ih hrest]
    constructor
    · intro hsum
      constructor <;> linarith
    · rintro ⟨heq, hsum⟩
      rw [heq, hsum]

def pointsAt (cmap : Dict String AnswerResult) (answerId : String) : Rat :=
  ((cmap.lookup answerId).map CorrectMap.npoints).getD 0

theorem points_eq_sum {map : CorrectMap} {answerIds : List String} (hnod : answerIds.Nodup)
    (hmem : ∀ answerId, answerId ∈ map.cmap ↔ answerId ∈ answerIds) :
    map.points = (answerIds.map (pointsAt map.cmap)).sum := by
  have hperm : map.cmap.keys.Perm answerIds :=
    (List.perm_ext_iff_of_nodup map.cmap.nodupKeys hnod).mpr fun answerId => hmem answerId
  have hents : map.cmap.keys.map (pointsAt map.cmap) =
      map.cmap.entries.map fun entry => CorrectMap.npoints entry.2 := by
    unfold AList.keys List.keys
    rw [map_map]
    apply map_congr_left
    rintro ⟨answerId, result⟩ hent
    have hlook : map.cmap.lookup answerId = some result := mem_lookup_iff.mpr hent
    simp [pointsAt, hlook]
  unfold CorrectMap.points
  rw [← hents]
  exact (hperm.map _).sum_eq

namespace ScriptResponse

def setDecimals (response : ScriptResponse) : Option (List Rat) :=
  match response.outcome with
  | .returned (.okDict ok _ gradeDecimal) => some (List.replicate response.inputs.length
      (CustomResponse.okDecimal (okCorrectness ok) gradeDecimal))
  | .returned (.inputList _ entries) => some (entries.map CustomResponse.inputDecimal)
  | .executed _ _ _ gradeDecimals => gradeDecimals
  | _ => none

/-- Correct inputs without an author's decimal get all their points: an input list
has `True` for them, and a response that sets no decimals finds none left but ones. -/
def WorthFull (response : ScriptResponse) (left : Option (List Rat)) : Prop :=
  match response.outcome with
  | .returned (.inputList _ entries) =>
    ∀ entry ∈ entries.take response.inputs.length, normalized entry.ok = "true".toList
  | .returned (.plain _) | .executed _ _ _ none =>
    ∀ decimals, left = some decimals → ∀ decimal ∈ decimals.take response.inputs.length, decimal = 1
  | _ => True

end ScriptResponse

namespace Response

def Given (answerId : String) : Response → Prop
  | .custom response => ∃ index : Nat, (response.inputs.map InputField.id)[index]? = some answerId ∧
      ∃ decimal, (response.outcome.authorDecimals response.inputs.length)[index]? = some (some decimal)
  | _ => False

def WorthFull (left : Option (List Rat)) : Response → Prop
  | .choice response => response.hasPartialCredit = true ∧ response.creditType = ["halves"] ∨ response.field.points = 1
  | .multipleChoice response => response.field.points = 1
  | .trueFalse response => response.field.points = 1
  | .option response => ∀ field ∈ response.answerFields, field.1.points = 1
  | .string response => response.field.points = 1
  | .numerical response => response.field.points = 1
  | .choiceText response => response.field.points = 1
  | .annotationResponse _ => True
  | .custom response => response.WorthFull left

def decimalsAfter (left : Option (List Rat)) : Response → Option (List Rat)
  | .custom response => response.setDecimals.or left
  | _ => left

section

variable (response : Response) (cmap : Dict String AnswerResult)

/-- All answers of the response are marked correct, none by an author's decimal. -/
def AllCorrect : Prop :=
  ∀ entry ∈ response.maxpoints, ¬ response.Given entry.1 ∧
    ∃ result, cmap.lookup entry.1 = some result ∧ result.correctness = .correct

def AllPoints : Prop := ∀ entry ∈ response.maxpoints, pointsAt cmap entry.1 = entry.2

end

/-- The results of a response are within what its answers are worth, and reach it
when all are correct if the response is worth it. -/
structure Scored (response : Response) (left : Option (List Rat))
    (cmap : Dict String AnswerResult) : Prop where
  bounds : ∀ entry ∈ response.maxpoints, ∃ result, cmap.lookup entry.1 = some result ∧
    0 ≤ CorrectMap.npoints result ∧ CorrectMap.npoints result ≤ entry.2
  full : response.AllCorrect cmap → (response.AllPoints cmap ↔ response.WorthFull left)

section Congr

variable {response : Response} {cmap other : Dict String AnswerResult}
  (hsame : ∀ entry ∈ response.maxpoints, other.lookup entry.1 = cmap.lookup entry.1)

include hsame

theorem allCorrect_congr : response.AllCorrect other ↔ response.AllCorrect cmap := by
  refine forall₂_congr fun entry hent => ?_
  rw [hsame entry hent]

theorem allPoints_congr : response.AllPoints other ↔ response.AllPoints cmap := by
  refine forall₂_congr fun entry hent => ?_
  unfold pointsAt
  rw [hsame entry hent]

theorem Scored.congr {left : Option (List Rat)} (hscd : response.Scored left cmap) : response.Scored left other := by
  constructor
  · intro entry hent
    rw [hsame entry hent]
    exact hscd.bounds entry hent
  · rw [allPoints_congr hsame, allCorrect_congr hsame]
    exact hscd.full

end Congr

end Response

theorem scored_oneResult {response : Response} {answerId : String} {maxPoints : Nat}
    (hmax : response.maxpoints = [(answerId, maxPoints)]) {left : Option (List Rat)}
    {correctness : Correctness} {npoints : Option Rat}
    (hnn : 0 ≤ CorrectMap.npoints ⟨correctness, npoints, some ""⟩)
    (hle : CorrectMap.npoints ⟨correctness, npoints, some ""⟩ ≤ maxPoints)
    (hfull : correctness = .correct →
      (CorrectMap.npoints ⟨correctness, npoints, some ""⟩ = maxPoints ↔ response.WorthFull left)) :
    response.Scored left (oneResult answerId correctness npoints).cmap := by
  have hlook : (oneResult answerId correctness npoints).cmap.lookup answerId =
      some ⟨correctness, npoints, some ""⟩ := lookup_insert_self _ _ _
  constructor
  · intro entry hent
    rw [hmax, mem_singleton] at hent
    subst hent
    exact ⟨_, hlook, hnn, hle⟩
  · intro hcorr
    obtain ⟨-, result, hres, hmark⟩ := hcorr (answerId, maxPoints) (by simp [hmax])
    obtain rfl := some_unique hlook hres
    rw [← hfull hmark]
    unfold Response.AllPoints pointsAt
    simp [hmax, hlook]

/-- A mark whose points `get_npoints` counts as one if it is correct; other marks
come with points within the maximum. -/
inductive UnscaledMark (maxPoints : Rat) : Correctness → Option Rat → Prop where
  | correct : UnscaledMark maxPoints .correct none
  | incorrect (npoints : Option Rat) : npoints.getD 0 = 0 → UnscaledMark maxPoints .incorrect npoints
  | shared (points : Rat) : 0 ≤ points → points ≤ maxPoints → UnscaledMark maxPoints .partiallyCorrect (some points)

abbrev Unscaled (field : InputField) (results : CorrectMap) : Prop :=
  ∃ correctness npoints, UnscaledMark field.points correctness npoints ∧
    results = oneResult field.id correctness npoints

theorem scored_unscaled {response : Response} {field : InputField}
    (hmax : response.maxpoints = [(field.id, field.points)]) {left : Option (List Rat)}
    (hworth : response.WorthFull left ↔ field.points = 1)
    {correctness : Correctness} {npoints : Option Rat}
    (hmark : UnscaledMark field.points correctness npoints) :
    response.Scored left (oneResult field.id correctness npoints).cmap := by
  have hone : (1 : Rat) ≤ field.points := by exact_mod_cast field.points_pos
  cases hmark with
  | correct =>
    refine scored_oneResult hmax (by simp [CorrectMap.npoints]) (by simpa [CorrectMap.npoints] using hone) fun _ => ?_
    rw [hworth]
    simp only [CorrectMap.npoints]
    norm_cast
    exact eq_comm
  | incorrect npoints hzero =>
    have hpts : CorrectMap.npoints ⟨.incorrect, npoints, some ""⟩ = 0 := by
      cases npoints with
      | none => rfl
      | some points => exact hzero
    refine scored_oneResult hmax hpts.ge ?_ (fun hcorr => Correctness.noConfusion hcorr)
    rw [hpts]
    linarith
  | shared points hnn hle => exact scored_oneResult hmax hnn hle (fun hcorr => Correctness.noConfusion hcorr)

theorem roundTwo_nonneg {value : Rat} (hval : 0 ≤ value) : 0 ≤ roundTwo value := by
  unfold roundTwo
  have hfloor : 0 ≤ ⌊value * 100 + 1 / 2⌋ := Int.floor_nonneg.mpr (by linarith)
  have hcast : (0 : Rat) ≤ ⌊value * 100 + 1 / 2⌋ := by exact_mod_cast hfloor
  positivity

theorem roundTwo_le {value : Rat} {maxPoints : Nat} (hval : value ≤ maxPoints) : roundTwo value ≤ maxPoints := by
  unfold roundTwo
  have hfloor : ⌊value * 100 + 1 / 2⌋ < (maxPoints * 100 + 1 : Int) := by
    refine Int.floor_lt.mpr ?_
    push_cast
    linarith
  have hcast : (⌊value * 100 + 1 / 2⌋ : Rat) ≤ maxPoints * 100 := by
    exact_mod_cast Int.lt_add_one_iff.mp hfloor
  linarith

namespace ChoiceResponse

variable {response : ChoiceResponse} (studentAnswer : Finset String)

theorem gradeWithoutPartialCredit_mark :
    Unscaled response.field (response.gradeWithoutPartialCredit studentAnswer) := by
  unfold gradeWithoutPartialCredit
  dsimp only
  split
  · exact ⟨_, _, .correct, rfl⟩
  · exact ⟨_, _, .incorrect none rfl, rfl⟩

theorem edcCurrentGrade_le : (studentAnswer.filter (· ∈ response.correctChoices)).card +
        ((response.allChoices \ studentAnswer).filter (· ∈ response.incorrectChoices)).card ≤
      response.allChoices.card := by
  rw [← Finset.card_union_of_disjoint]
  · refine Finset.card_le_card (Finset.union_subset ?_ ?_)
    · intro name hname
      exact Finset.mem_union_left _ (Finset.mem_filter.mp hname).2
    · exact (Finset.filter_subset _ _).trans Finset.sdiff_subset
  · rw [Finset.disjoint_left]
    intro name hgood hblank
    exact (Finset.mem_sdiff.mp (Finset.mem_filter.mp hblank).1).2 (Finset.mem_filter.mp hgood).1

theorem gradeViaEveryDecisionCounts_mark {studentAnswer : Finset String} {results : CorrectMap}
    (hgrade : response.gradeViaEveryDecisionCounts studentAnswer = .ok results) :
    Unscaled response.field results := by
  have hle := response.edcCurrentGrade_le studentAnswer
  unfold gradeViaEveryDecisionCounts at hgrade
  dsimp only at hgrade
  generalize hcur : (studentAnswer.filter (· ∈ response.correctChoices)).card +
    ((response.allChoices \ studentAnswer).filter (· ∈ response.incorrectChoices)).card = current at hle hgrade
  split at hgrade
  · cases hgrade
  · next hchoic =>
    split at hgrade
    · exact ⟨_, _, .correct, (ok.inj hgrade).symm⟩
    split at hgrade
    · refine ⟨_, _, .shared _ ?_ ?_, (ok.inj hgrade).symm⟩
      · exact roundTwo_nonneg (by positivity)
      · refine roundTwo_le ?_
        have hpos : (0 : Rat) < response.allChoices.card := by
          exact_mod_cast Nat.pos_of_ne_zero hchoic
        have hcurr : (current : Rat) ≤ response.allChoices.card := by exact_mod_cast hle
        rw [div_le_iff₀ hpos]
        exact mul_le_mul_of_nonneg_left hcurr (by positivity)
    · exact ⟨_, _, .incorrect _ rfl, (ok.inj hgrade).symm⟩

theorem gradeViaHalves_scored (hcred : response.hasPartialCredit = true)
    (htype : response.creditType = ["halves"]) (studentAnswer : Finset String)
    (left : Option (List Rat)) :
    (choice response).Scored left (response.gradeViaHalves studentAnswer).cmap ∧
      ∃ correctness npoints, response.gradeViaHalves studentAnswer =
        oneResult response.field.id correctness npoints := by
  have hpts : (0 : Rat) ≤ response.field.points := by positivity
  have hmax : (choice response).maxpoints = [(response.field.id, response.field.points)] := rfl
  have hshare : ∀ share : Rat, 1 ≤ share →
      (choice response).Scored left (oneResult response.field.id .partiallyCorrect
        (some (roundTwo (response.field.points / share)))).cmap := by
    intro share hone
    refine scored_oneResult hmax (roundTwo_nonneg (by positivity)) (roundTwo_le ?_)
      (fun hcorr => Correctness.noConfusion hcorr)
    exact div_le_self hpts hone
  unfold gradeViaHalves
  dsimp only
  split
  · refine ⟨scored_oneResult hmax hpts le_rfl fun _ => ?_, _, _, rfl⟩
    exact iff_of_true rfl (.inl ⟨hcred, htype⟩)
  split
  · exact ⟨hshare 2 (by norm_num), _, _, rfl⟩
  split
  · exact ⟨hshare 4 (by norm_num), _, _, rfl⟩
  · exact ⟨scored_oneResult hmax le_rfl hpts (fun hcorr => Correctness.noConfusion hcorr), _, _, rfl⟩

theorem getScore_cases {answers : StudentAnswers} {results : CorrectMap}
    (hgrade : response.getScore answers = .ok results) :
    Unscaled response.field results ∧ ¬ (response.hasPartialCredit = true ∧ response.creditType = ["halves"]) ∨
    response.hasPartialCredit = true ∧ response.creditType = ["halves"] ∧
      ((∃ studentAnswer, results = response.gradeViaHalves studentAnswer) ∨
        results = oneResult response.field.id .incorrect none) := by
  by_cases hhal : response.hasPartialCredit = true ∧ response.creditType = ["halves"]
  · refine .inr ⟨hhal.1, hhal.2, ?_⟩
    unfold getScore at hgrade
    unfold getScore.graded at hgrade
    rw [hhal.1, hhal.2] at hgrade
    split at hgrade
    · cases hgrade
    · exact .inr (ok.inj hgrade).symm
    · exact .inl ⟨_, (ok.inj hgrade).symm⟩
    · exact .inl ⟨_, (ok.inj hgrade).symm⟩
  · refine .inl ⟨?_, hhal⟩
    have hgrd : ∀ studentAnswer, getScore.graded response studentAnswer = .ok results →
        Unscaled response.field results := by
      intro studentAnswer hgrd
      have hwit := response.gradeWithoutPartialCredit_mark studentAnswer
      unfold getScore.graded at hgrd
      split at hgrd
      · next hcred =>
        split at hgrd
        · exact response.gradeViaEveryDecisionCounts_mark hgrd
        · next htype => exact absurd ⟨hcred, htype⟩ hhal
        · rw [← ok.inj hgrd]
          exact hwit
        · cases hgrd
        · cases hgrd
      · rw [← ok.inj hgrd]
        exact hwit
    unfold getScore at hgrade
    split at hgrade
    · cases hgrade
    · exact ⟨_, _, .incorrect none rfl, (ok.inj hgrade).symm⟩
    · exact hgrd _ hgrade
    · exact hgrd _ hgrade

end ChoiceResponse

namespace MultipleChoiceResponse

variable {response : MultipleChoiceResponse}

theorem getScore_mark {answers : StudentAnswers} {results : CorrectMap}
    (hgrade : response.getScore answers = .ok results) :
    Unscaled response.field results := by
  have hone : (1 : Rat) ≤ response.field.points := by exact_mod_cast response.field.points_pos
  have hwit : Unscaled response.field (response.gradeWithoutPartialCredit answers) := by
    unfold gradeWithoutPartialCredit
    split
    · split
      · exact ⟨_, _, .correct, rfl⟩
      · exact ⟨_, _, .incorrect none rfl, rfl⟩
    · exact ⟨_, _, .incorrect none rfl, rfl⟩
  have hpts : Unscaled response.field (response.gradeViaPoints answers) := by
    unfold gradeViaPoints
    split
    · split
      · exact ⟨_, _, .correct, rfl⟩
      · split
        · next share _ => exact ⟨_, _, .shared share.value share.nonneg (share.le_one.trans hone), rfl⟩
        · exact ⟨_, _, .incorrect none rfl, rfl⟩
    · exact ⟨_, _, .incorrect none rfl, rfl⟩
  unfold getScore at hgrade
  split at hgrade
  · split at hgrade
    · rw [← ok.inj hgrade]
      exact hpts
    · rw [← ok.inj hgrade]
      exact hwit
    · cases hgrade
    · cases hgrade
  · rw [← ok.inj hgrade]
    exact hwit

end MultipleChoiceResponse

theorem TrueFalseResponse.getScore_mark {response : TrueFalseResponse} {answers : StudentAnswers}
    {results : CorrectMap} (hgrade : response.getScore answers = .ok results) :
    Unscaled response.field results := by
  have hgrd : ∀ names, Unscaled response.field (getScore.graded response names) := by
    intro names
    unfold getScore.graded
    split
    · exact ⟨_, _, .correct, rfl⟩
    · exact ⟨_, _, .incorrect none rfl, rfl⟩
  unfold getScore at hgrade
  split at hgrade
  · cases hgrade
  · rw [← ok.inj hgrade]
    exact hgrd _
  · rw [← ok.inj hgrade]
    exact hgrd _

section Libraries

variable {ν : Type} {libraries : Libraries ν}

theorem unscaled_ite (maxPoints : Rat) (correct : Bool) :
    UnscaledMark maxPoints (if correct then .correct else .incorrect) none := by
  cases correct with
  | true => exact .correct
  | false => exact .incorrect none rfl

theorem StringResponse.getScore_mark {response : StringResponse} {answers : StudentAnswers}
    {results : CorrectMap} (hgrade : response.getScore libraries answers = .ok results) :
    Unscaled response.field results := by
  unfold getScore at hgrade
  split at hgrade
  · exact ⟨_, _, .incorrect none rfl, (ok.inj hgrade).symm⟩
  · obtain ⟨correct, -, hres⟩ := bind_ok hgrade
    exact ⟨_, _, unscaled_ite _ correct, (ok.inj hres).symm⟩
  · cases hgrade

theorem ChoiceTextResponse.getScore_mark {response : ChoiceTextResponse}
    {answers : StudentAnswers} {results : CorrectMap}
    (hgrade : response.getScore libraries answers = .ok results) :
    Unscaled response.field results := by
  have hgrd : ∀ answerDict, getScore.graded libraries response answerDict = .ok results →
      Unscaled response.field results := by
    intro answerDict hgrd
    unfold getScore.graded at hgrd
    dsimp only at hgrd
    obtain ⟨inputsCorrect, -, hres⟩ := bind_ok hgrd
    exact ⟨_, _, unscaled_ite _ _, (ok.inj hres).symm⟩
  unfold getScore at hgrade
  split at hgrade
  · exact hgrd _ hgrade
  · exact hgrd _ hgrade
  · split at hgrade
    · cases hgrade
    · exact hgrd _ hgrade

namespace NumericalResponse

variable {response : NumericalResponse}

def Marked (mark : Correctness × Rat) : Prop := mark.1 ≠ .unknown ∧ 0 ≤ mark.2 ∧ mark.2 ≤ 1

theorem marked_of_half {correctness : Correctness} (hknown : correctness ≠ .unknown) : Marked (correctness, 1 / 2) :=
  ⟨hknown, by norm_num, by norm_num⟩

variable {partialRange studentFloat : ν}

theorem rangeMark_known {range : (Bool × String) × (Bool × String)} {correctness : Correctness}
    (hmark : response.rangeMark libraries partialRange studentFloat range = .ok correctness) :
    correctness ≠ .unknown := by
  have hite : ∀ (first second : Correctness), first ≠ .unknown → second ≠ .unknown →
      ∀ condition : Bool, (Except.ok (if condition then first else second) :
        Except GradeError Correctness) = .ok correctness → correctness ≠ .unknown := by
    intro first second hfst hsec condition heq
    rw [← ok.inj heq]
    cases condition with
    | true => exact hfst
    | false => exact hsec
  unfold rangeMark at hmark
  split at hmark
  · cases hmark
  obtain ⟨low, -, hmark⟩ := bind_ok hmark
  split at hmark
  · exact hite .correct .incorrect (by simp) (by simp) _ hmark
  obtain ⟨high, -, hmark⟩ := bind_ok hmark
  split at hmark
  · exact hite .correct .incorrect (by simp) (by simp) _ hmark
  dsimp only at hmark
  split at hmark
  · rw [← ok.inj hmark]
    simp
  split at hmark
  · exact hite .partiallyCorrect .incorrect (by simp) (by simp) _ hmark
  · rw [← ok.inj hmark]
    simp

variable {mark : Correctness × Rat}

theorem listMark_marked {correctFloat : ν} {expandedTolerance : String} {values : List ν}
    (hmark : response.listMark libraries studentFloat correctFloat expandedTolerance values =
      .ok mark) : Marked mark := by
  induction values with
  | nil =>
    rw [← ok.inj hmark]
    exact marked_of_half (by simp)
  | cons value values ih =>
    unfold listMark at hmark
    obtain ⟨near, -, hmark⟩ := bind_ok hmark
    split at hmark
    · rw [← ok.inj hmark]
      exact marked_of_half (by simp)
    split at hmark
    · obtain ⟨nearCorrect, -, hmark⟩ := bind_ok hmark
      split at hmark
      · rw [← ok.inj hmark]
        exact marked_of_half (by simp)
      obtain ⟨nearValue, -, hmark⟩ := bind_ok hmark
      split at hmark
      · rw [← ok.inj hmark]
        exact ⟨by simp, by norm_num, by norm_num⟩
      · exact ih hmark
    · exact ih hmark

theorem toleranceMark_marked {partialAnswers : Option (List ν)}
    (hmark : response.toleranceMark libraries partialRange studentFloat partialAnswers = .ok mark) : Marked mark := by
  have hhalf : ∀ correctness : Correctness, correctness ≠ .unknown →
      (Except.ok (correctness, 1 / 2) : Except GradeError (Correctness × Rat)) = .ok mark → Marked mark := by
    intro correctness hknown heq
    rw [← ok.inj heq]
    exact marked_of_half hknown
  unfold toleranceMark at hmark
  obtain ⟨correctFloat, -, hmark⟩ := bind_ok hmark
  obtain ⟨expandedTolerance, -, hmark⟩ := bind_ok hmark
  obtain ⟨near, -, hmark⟩ := bind_ok hmark
  split at hmark
  · exact hhalf .correct (by simp) hmark
  split at hmark
  · exact hhalf .incorrect (by simp) hmark
  split at hmark
  · split at hmark
    · cases hmark
    · exact listMark_marked hmark
  split at hmark
  · obtain ⟨nearExpanded, -, hmark⟩ := bind_ok hmark
    split at hmark
    · exact hhalf .partiallyCorrect (by simp) hmark
    · exact hhalf .incorrect (by simp) hmark
  · exact hhalf .incorrect (by simp) hmark

theorem mark_marked {answer : String} (hmark : response.mark libraries answer = .ok mark) : Marked mark := by
  unfold NumericalResponse.mark at hmark
  obtain ⟨studentFloat, -, hmark⟩ := bind_ok hmark
  obtain ⟨partialRange, -, hmark⟩ := bind_ok hmark
  obtain ⟨partialAnswers, -, hmark⟩ := bind_ok hmark
  split at hmark
  · obtain ⟨correctness, hrange, hmark⟩ := bind_ok hmark
    rw [← ok.inj hmark]
    exact marked_of_half (rangeMark_known hrange)
  · exact toleranceMark_marked hmark

theorem getScore_mark {answers : StudentAnswers} {results : CorrectMap}
    (hgrade : response.getScore libraries answers = .ok results) :
    Unscaled response.field results := by
  have hone : (1 : Rat) ≤ response.field.points := by exact_mod_cast response.field.points_pos
  unfold getScore at hgrade
  split at hgrade
  · exact ⟨_, _, .incorrect none rfl, (ok.inj hgrade).symm⟩
  split at hgrade
  · cases hgrade
  split at hgrade
  · obtain ⟨⟨correctness, partialScore⟩, hmark, hgrade⟩ := bind_ok hgrade
    obtain ⟨hknown, hnn, hle⟩ := mark_marked hmark
    dsimp only at hgrade hknown hnn hle
    cases correctness with
    | unknown => exact absurd rfl hknown
    | incorrect => exact ⟨_, _, .incorrect none rfl, (ok.inj hgrade).symm⟩
    | correct => exact ⟨_, _, .correct, (ok.inj hgrade).symm⟩
    | partiallyCorrect => exact ⟨_, _, .shared partialScore hnn (hle.trans hone), (ok.inj hgrade).symm⟩
  · cases hgrade

end NumericalResponse

namespace AnnotationResponse

variable {response : AnnotationResponse}

theorem getScore_scored {answers : StudentAnswers} {results : CorrectMap}
    (hgrade : response.getScore libraries answers = .ok results) (left : Option (List Rat)) :
    (annotationResponse response).Scored left results.cmap ∧
      ∃ correctness npoints, results = oneResult response.field.id correctness npoints := by
  have hmax : (annotationResponse response).maxpoints = [(response.field.id, 2)] := rfl
  unfold getScore at hgrade
  split at hgrade
  · obtain ⟨submitted, -, hgrade⟩ := bind_ok hgrade
    split at hgrade
    · rw [← ok.inj hgrade]
      exact ⟨scored_oneResult hmax le_rfl (by simp [CorrectMap.npoints])
        (fun hcorr => Correctness.noConfusion hcorr), _, _, rfl⟩
    split at hgrade
    · rw [← ok.inj hgrade]
      exact ⟨scored_oneResult hmax le_rfl (by simp [CorrectMap.npoints])
        (fun hcorr => Correctness.noConfusion hcorr), _, _, rfl⟩
    · next correctness points hscor =>
      rw [← ok.inj hgrade]
      refine ⟨?_, _, _, rfl⟩
      -- the three scorings of the table
      have hmem : (correctness, points) ∈ defaultScoring.map Prod.snd := by
        obtain ⟨choice, -, hlook⟩ := bind_eq_some_iff.mp hscor
        obtain ⟨before, after, hspl, -⟩ := List.lookup_eq_some_iff.mp hlook
        rw [hspl]
        simp
      simp only [defaultScoring, map_cons, map_nil, mem_cons, Prod.mk.injEq, not_mem_nil, or_false] at hmem
      rcases hmem with ⟨rfl, rfl⟩ | ⟨rfl, rfl⟩ | ⟨rfl, rfl⟩
      · exact scored_oneResult hmax (by simp [CorrectMap.npoints]) (by simp [CorrectMap.npoints])
          (fun hcorr => Correctness.noConfusion hcorr)
      · exact scored_oneResult hmax (by simp [CorrectMap.npoints]) (by simp [CorrectMap.npoints])
          (fun hcorr => Correctness.noConfusion hcorr)
      · exact scored_oneResult hmax (by simp [CorrectMap.npoints]) (by simp [CorrectMap.npoints])
          (fun _ => iff_of_true (by simp [CorrectMap.npoints]) trivial)
  · cases hgrade

end AnnotationResponse

end Libraries

end EdxPlatform
