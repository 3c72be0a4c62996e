import EdxPlatform.Capa.Responses

/-!
# The displayed choices of a multiple choice

A multiple choice names its choices, and with shuffle or an answer pool it displays them in another order or
only some of them.  Grading goes by the names, the pool by the attributes as they are written.
-/

namespace EdxPlatform

open MultipleChoiceResponse

/-- `text.replace(old, new)`, with what is still to be passed over of the last occurrence. -/
def replaceText (old new : List Char) : Nat → List Char → List Char
  | _, [] => []
  | skip + 1, _ :: rest => replaceText old new skip rest
  | 0, c :: rest =>
    if old.isPrefixOf (c :: rest) then new ++ replaceText old new (old.length - 1) rest
    else c :: replaceText old new 0 rest

variable (context : List (String × String))

/-- `contextualize_text`, with the variables of the context and their values as texts; the longest names come
first. -/
def contextualizeText (text : String) : String :=
  String.ofList ((context.mergeSort fun first second => second.1.length ≤ first.1.length).foldl
    (fun text entry => replaceText ('$' :: entry.1.toList) entry.2.toList 0 text) text.toList)

theorem replaceText_of_notMem {name new text : List Char} (htext : '$' ∉ text) :
    replaceText ('$' :: name) new 0 text = text := by
  induction text with
  | nil => rfl
  | cons c rest ih =>
    rw [mem_cons, not_or] at htext
    have hpre : ('$' :: name).isPrefixOf (c :: rest) = false := by
      simp [List.isPrefixOf, htext.1]
    rw [replaceText, hpre, ih htext.2]
    rfl

theorem contextualizeText_of_notMem {text : String}
    (htext : '$' ∉ text.toList) : contextualizeText context text = text := by
  rw [contextualizeText]
  generalize context.mergeSort _ = entries
  induction entries with
  | nil => exact String.ofList_toList
  | cons entry rest ih => rw [foldl_cons, replaceText_of_notMem htext, ih]

/-- `text.upper() == "TRUE"`. -/
def isTrueText (text : String) : Bool := text.toList.map Char.toUpper = "TRUE".toList

theorem contextualizeText_of_isTrueText {text : String}
    (htrue : isTrueText text = true) : contextualizeText context text = text := by
  apply contextualizeText_of_notMem
  intro hmem
  have hupper := mem_map_of_mem (f := Char.toUpper) hmem
  rw [of_decide_eq_true htrue] at hupper
  exact absurd hupper (by decide)

/-- A `choice` node as the author writes it. -/
structure AuthorChoice where
  name : Option String := none
  correct : String
  fixed : Option String := none
  explanationId : Option String := none

/-- A `choice` node with the name that `mc_setup_response` gives it, at its place in the document. -/
structure ChoiceNode where
  position : Nat
  name : String
  correct : String
  fixed : Option String := none
  explanationId : Option String := none
  deriving DecidableEq

/-- `mc_setup_response`, from a counter for the names and a place on. -/
def mcSetupResponse : Nat → Nat → List AuthorChoice → List ChoiceNode
  | _, _, [] => []
  | i, position, choice :: rest =>
    match choice.name with
    | some name =>
      ⟨position, "choice_" ++ name, choice.correct, choice.fixed, choice.explanationId⟩ ::
        mcSetupResponse i (position + 1) rest
    | none =>
      ⟨position, "choice_" ++ toString i, choice.correct, choice.fixed, choice.explanationId⟩ ::
        mcSetupResponse (i + 1) (position + 1) rest

/-- A `multiplechoiceresponse` node with its one `choicegroup`. -/
structure MultipleChoiceXml where
  field : InputField
  shuffle : Bool := false
  answerPool : Option String := none
  hasPartialCredit : Bool := false
  creditType : List String := []
  partialChoices : List (String × Share) := []
  choices : List AuthorChoice

namespace MultipleChoiceXml

variable (xml : MultipleChoiceXml)

def nodes : List ChoiceNode := mcSetupResponse 0 0 xml.choices

def isCorrect (choice : ChoiceNode) : Bool := isTrueText (contextualizeText context choice.correct)

/-- `setup_response`. -/
def setupResponse : MultipleChoiceResponse where
  field := xml.field
  correctChoices := (xml.nodes.filter (isCorrect context)).map fun choice => contextualizeText context choice.name
  partialChoices := xml.partialChoices
  hasPartialCredit := xml.hasPartialCredit
  creditType := xml.creditType

/-! ## Shuffle and answer pool -/

/-- What the generator of random numbers draws for a response. -/
structure Draws where
  randint : Nat → Nat
  shuffle : List ChoiceNode → List ChoiceNode
  shuffleAgain : List ChoiceNode → List ChoiceNode
  randint_le : ∀ upper, randint upper ≤ upper
  shuffle_perm : ∀ choices, (shuffle choices).Perm choices
  shuffleAgain_perm : ∀ choices, (shuffleAgain choices).Perm choices

/-- The head, the middle and the tail of the choices, where `at_head` tells that all so far were fixed. -/
def separate : Bool → List ChoiceNode → List ChoiceNode × List ChoiceNode × List ChoiceNode
  | _, [] => ([], [], [])
  | atHead, choice :: rest =>
    if atHead ∧ choice.fixed = some "true" then
      let (head, middle, tail) := separate true rest
      (choice :: head, middle, tail)
    else
      let (head, middle, tail) := separate false rest
      if choice.fixed = some "true" then (head, middle, choice :: tail) else (head, choice :: middle, tail)

/-- `shuffle_choices`. -/
def shuffleChoices (draws : Draws) (choices : List ChoiceNode) : List ChoiceNode :=
  let (head, middle, tail) := separate true choices
  head ++ draws.shuffle middle ++ tail

/-- `do_shuffle`. -/
def doShuffle (draws : Draws) (choices : List ChoiceNode) : Except GradeError (List ChoiceNode) :=
  if xml.shuffle then
    if xml.answerPool.isSome then .error .loncapaProblemError else .ok (shuffleChoices draws choices)
  else .ok choices

/-- The number of entries in `list[:stop]`, where a negative end counts from the end of the list. -/
def sliceCount (length : Nat) (stop : Int) : Nat := if 0 ≤ stop then stop.toNat else length - (-stop).toNat

/-- `list[:stop]` -/
def sliceTo {α : Type} (list : List α) (stop : Int) : List α := list.take (sliceCount list.length stop)

def marked (choice : ChoiceNode) : Bool := isTrueText choice.correct

/-- `sample_from_answer_pool`, without the id of the solution. -/
def sampleFromAnswerPool (draws : Draws) (numPool : Int) (choices : List ChoiceNode) :
    Except GradeError (List ChoiceNode) :=
  let correctChoices := choices.filter marked
  let incorrectChoices := choices.filter fun choice => !marked choice
  if correctChoices.length < 1 ∨ incorrectChoices.length < 1 then .error .loncapaProblemError
  else
    match correctChoices[draws.randint (correctChoices.length - 1)]? with
    | none => .error .unexpected
    | some correctChoice =>
      let numIncorrect := min (numPool - 1) incorrectChoices.length
      .ok (draws.shuffleAgain (correctChoice :: sliceTo (draws.shuffle incorrectChoices) numIncorrect))

/-- The size of the answer pool; without one, or with `0`, there is no pool. -/
inductive PoolSize where
  | noPool
  | noInteger
  | size (value : Int)
  deriving DecidableEq, Repr

variable (int : String → Option Int)

/-- The `answer-pool` attribute, where `int` gives the integer in a text or a `ValueError`. -/
def poolSize : PoolSize :=
  match xml.answerPool with
  | none => .noPool
  | some numStr =>
    if numStr = "0" then .noPool
    else
      match int numStr with
      | none => .noInteger
      | some value => .size value

/-- `do_answer_pool`. -/
def doAnswerPool (draws : Draws) (choices : List ChoiceNode) : Except GradeError (List ChoiceNode) :=
  match xml.poolSize int with
  | .noPool => .ok choices
  | .noInteger => .error .loncapaProblemError
  | .size numChoices => sampleFromAnswerPool draws numChoices choices

/-- `late_transforms`: the choices that are displayed. -/
def lateTransforms (draws : Draws) : Except GradeError (List ChoiceNode) := do
  let shuffled ← xml.doShuffle draws xml.nodes
  xml.doAnswerPool int draws shuffled

/-! ## What a displayed choice is graded -/

def gradedCorrect (response : MultipleChoiceResponse) (choice : ChoiceNode) : Bool :=
  match response.getScore ((∅ : StudentAnswers).insert response.field.id (.text choice.name)) with
  | .ok results => decide ((results.cmap.lookup response.field.id).map AnswerResult.correctness = some .correct)
  | .error _ => false

/-- The displayed choices are some of the author's, each graded by its own attribute; a pool shows one correct
choice and as many others as it has room for. -/
structure DisplaysRight (displayed : List ChoiceNode) : Prop where
  distinct : displayed.Nodup
  listed : ∀ choice ∈ displayed, choice ∈ xml.nodes
  graded : ∀ choice ∈ displayed, gradedCorrect (xml.setupResponse context) choice = isCorrect context choice
  pooled : ∀ n, xml.poolSize int = .size n → 1 ≤ n → displayed.countP (gradedCorrect (xml.setupResponse context)) = 1 ∧
      (displayed.countP fun choice => !gradedCorrect (xml.setupResponse context) choice : Int) =
        min (n - 1) (xml.nodes.countP fun choice => !isCorrect context choice)

/-- The choice may be among those displayed: a pool of one shows no choice that is not marked, and a pool of no
positive size leaves some of these out. -/
def MayShow (choice : ChoiceNode) : Prop :=
  match xml.poolSize int with
  | .size n => marked choice = true ∨ 2 ≤ n ∨ (n ≤ 0 ∧ 1 - n < (xml.nodes.countP fun choice => !marked choice : Int))
  | _ => True

/-- The names tell the correct choices from the others, and the pool knows every correct choice. -/
structure ClassesAgree : Prop where
  names : ∀ choice ∈ xml.nodes, xml.MayShow int choice →
    ((∃ other ∈ xml.nodes, isCorrect context other = true ∧ contextualizeText context other.name = choice.name) ↔
      isCorrect context choice = true)
  literal : ∀ n, xml.poolSize int = .size n → 2 ≤ n → ∀ choice ∈ xml.nodes, isCorrect context choice = true →
    marked choice = true

variable {context xml int}

section Name

variable (response : MultipleChoiceResponse) (name : String)

theorem lookup_insert_name :
    ((∅ : StudentAnswers).insert response.field.id (.text name)).lookup response.field.id = some (.text name) :=
  AList.lookup_insert _

theorem gradeWithoutPartialCredit_name : ∃ correctness npoints, response.gradeWithoutPartialCredit
        ((∅ : StudentAnswers).insert response.field.id (.text name)) =
        oneResult response.field.id correctness npoints ∧
      (correctness = .correct ↔ name ∈ response.correctChoices) := by
  rw [gradeWithoutPartialCredit, lookup_insert_name]
  by_cases hmem : name ∈ response.correctChoices
  · exact ⟨.correct, none, if_pos hmem, iff_of_true rfl hmem⟩
  · exact ⟨.incorrect, none, if_neg hmem, iff_of_false nofun hmem⟩

theorem gradeViaPoints_name : ∃ correctness npoints, response.gradeViaPoints
        ((∅ : StudentAnswers).insert response.field.id (.text name)) =
        oneResult response.field.id correctness npoints ∧
      (correctness = .correct ↔ name ∈ response.correctChoices) := by
  rw [gradeViaPoints, lookup_insert_name]
  by_cases hmem : name ∈ response.correctChoices
  · exact ⟨.correct, none, if_pos hmem, iff_of_true rfl hmem⟩
  · dsimp only
    rw [if_neg hmem]
    cases response.partialChoices.lookup name with
    | none => exact ⟨.incorrect, none, rfl, iff_of_false nofun hmem⟩
    | some creditAmount => exact ⟨.partiallyCorrect, some creditAmount.value, rfl, iff_of_false nofun hmem⟩

theorem getScore_cases {response : MultipleChoiceResponse}
    (hscheme : response.hasPartialCredit = false ∨ response.creditType = ["points"] ∨ response.creditType = ["false"])
    (answers : StudentAnswers) : response.getScore answers = .ok (response.gradeViaPoints answers) ∨
      response.getScore answers = .ok (response.gradeWithoutPartialCredit answers) := by
  rw [getScore]
  cases hpartialCredit : response.hasPartialCredit with
  | false => exact .inr rfl
  | true =>
    rcases hscheme with hfalse | htype | htype
    · rw [hpartialCredit] at hfalse
      cases hfalse
    · rw [htype]
      exact .inl rfl
    · rw [htype]
      exact .inr rfl

theorem getScore_name
    (hscheme : response.hasPartialCredit = false ∨ response.creditType = ["points"] ∨ response.creditType = ["false"]) :
    ∃ correctness npoints, response.getScore ((∅ : StudentAnswers).insert response.field.id (.text name)) =
        .ok (oneResult response.field.id correctness npoints) ∧
      (correctness = .correct ↔ name ∈ response.correctChoices) := by
  rcases getScore_cases hscheme ((∅ : StudentAnswers).insert response.field.id (.text name)) with hgrd | hgrd
  · obtain ⟨correctness, npoints, hres, hcorr⟩ := gradeViaPoints_name response name
    exact ⟨correctness, npoints, by rw [hgrd, hres], hcorr⟩
  · obtain ⟨correctness, npoints, hres, hcorr⟩ := gradeWithoutPartialCredit_name response name
    exact ⟨correctness, npoints, by rw [hgrd, hres], hcorr⟩

end Name

theorem gradedCorrect_iff (hscheme : xml.hasPartialCredit = false ∨ xml.creditType = ["points"] ∨
    xml.creditType = ["false"]) (choice : ChoiceNode) :
    gradedCorrect (xml.setupResponse context) choice = true ↔
      ∃ other ∈ xml.nodes, isCorrect context other = true ∧ contextualizeText context other.name = choice.name := by
  obtain ⟨correctness, npoints, hsco, hcorr⟩ := getScore_name (xml.setupResponse context) choice.name hscheme
  have hres : (oneResult (xml.setupResponse context).field.id correctness npoints).cmap.lookup
      (xml.setupResponse context).field.id = some ⟨correctness, npoints, some ""⟩ := lookup_insert_self _ _ _
  rw [gradedCorrect, hsco]
  dsimp only
  rw [hres, map_some, decide_eq_true_iff, some_inj, hcorr, setupResponse, mem_map]
  simp only [mem_filter, and_assoc]

variable {choice : ChoiceNode}

theorem isCorrect_of_marked (hmrk : marked choice = true) : isCorrect context choice = true := by
  rw [isCorrect, contextualizeText_of_isTrueText context hmrk]
  exact hmrk

theorem position_le_of_mem {i position : Nat} {choices : List AuthorChoice} {node : ChoiceNode}
    (hnode : node ∈ mcSetupResponse i position choices) : position ≤ node.position := by
  induction choices generalizing i position with
  | nil => cases hnode
  | cons choice rest ih =>
    rw [mcSetupResponse] at hnode
    split at hnode
    all_goals
      rcases mem_cons.mp hnode with rfl | hrest
      · exact Nat.le_refl _
      · exact Nat.le_of_succ_le (ih hrest)

theorem mcSetupResponse_nodup (i position : Nat) (choices : List AuthorChoice) :
    (mcSetupResponse i position choices).Nodup := by
  induction choices generalizing i position with
  | nil => exact nodup_nil
  | cons choice rest ih =>
    rw [mcSetupResponse]
    split
    all_goals
      refine nodup_cons.mpr ⟨fun hmem => ?_, ih _ _⟩
      exact absurd (position_le_of_mem hmem) (Nat.not_succ_le_self position)

theorem separate_perm (atHead : Bool) (choices : List ChoiceNode) :
    ((separate atHead choices).1 ++ (separate atHead choices).2.1 ++ (separate atHead choices).2.2).Perm choices := by
  induction choices generalizing atHead with
  | nil => exact List.Perm.refl _
  | cons choice rest ih =>
    rw [separate]
    split
    case isTrue => exact (ih true).cons choice
    case isFalse =>
      dsimp only
      split
      case isTrue => exact List.perm_middle.trans ((ih false).cons choice)
      case isFalse =>
        rw [append_assoc, cons_append]
        refine List.perm_middle.trans (List.Perm.cons choice ?_)
        rw [← append_assoc]
        exact ih false

theorem shuffleChoices_perm (draws : Draws) (choices : List ChoiceNode) :
    (shuffleChoices draws choices).Perm choices := by
  refine List.Perm.trans ?_ (separate_perm true choices)
  exact ((draws.shuffle_perm _).append_left _).append_right _

variable {draws : Draws} {shuffled : List ChoiceNode}

theorem doShuffle_perm (hshuf : xml.doShuffle draws xml.nodes = .ok shuffled) : shuffled.Perm xml.nodes := by
  rw [doShuffle] at hshuf
  split at hshuf
  case isTrue =>
    split at hshuf
    case isTrue => cases hshuf
    case isFalse =>
      obtain rfl := ok.inj hshuf
      exact shuffleChoices_perm draws xml.nodes
  case isFalse =>
    obtain rfl := ok.inj hshuf
    exact List.Perm.refl _

variable {n : Int}

theorem doShuffle_of_size (hsize : xml.poolSize int = .size n) (hshuf : xml.doShuffle draws xml.nodes = .ok shuffled) :
    shuffled = xml.nodes := by
  rw [doShuffle] at hshuf
  split at hshuf
  case isTrue =>
    have hpool : xml.answerPool.isSome = true := by
      cases hans : xml.answerPool with
      | none =>
        rw [poolSize, hans] at hsize
        cases hsize
      | some numStr => rfl
    rw [if_pos hpool] at hshuf
    cases hshuf
  case isFalse => exact (ok.inj hshuf).symm

variable {displayed : List ChoiceNode}

/-- Without a pool all choices are displayed; a pool shows one marked choice and a slice of the others. -/
theorem lateTransforms_cases (hdisp : xml.lateTransforms int draws = .ok displayed) :
    (xml.poolSize int = .noPool ∧ displayed.Perm xml.nodes) ∨
    (∃ n choice, xml.poolSize int = .size n ∧ (xml.nodes.filter fun choice => !marked choice) ≠ [] ∧
      (xml.nodes.filter marked)[draws.randint ((xml.nodes.filter marked).length - 1)]? = some choice ∧
      displayed = draws.shuffleAgain (choice :: sliceTo (draws.shuffle (xml.nodes.filter fun choice => !marked choice))
        (min (n - 1) (xml.nodes.filter fun choice => !marked choice).length))) := by
  rw [lateTransforms] at hdisp
  obtain ⟨shuffled, hshuf, hpool⟩ := bind_ok hdisp
  rw [doAnswerPool] at hpool
  cases hsize : xml.poolSize int with
  | noPool =>
    rw [hsize] at hpool
    obtain rfl := ok.inj hpool
    exact .inl ⟨rfl, doShuffle_perm hshuf⟩
  | noInteger =>
    rw [hsize] at hpool
    cases hpool
  | size n =>
    rw [hsize] at hpool
    obtain rfl := doShuffle_of_size hsize hshuf
    dsimp only at hpool
    rw [sampleFromAnswerPool] at hpool
    split at hpool
    case isTrue => cases hpool
    case isFalse hposs =>
      rw [not_or, Nat.not_lt, Nat.not_lt] at hposs
      split at hpool
      case h_1 => cases hpool
      case h_2 choice hchoice => exact .inr ⟨n, choice, rfl, length_pos_iff.mp hposs.2, hchoice, (ok.inj hpool).symm⟩

def drawsFor (index : Nat) (first : ChoiceNode) : Draws where
  randint := fun upper => min index upper
  shuffle := fun choices => if first ∈ choices then first :: choices.erase first else choices
  shuffleAgain := id
  randint_le := fun _ => Nat.min_le_right _ _
  shuffle_perm := by
    intro choices
    split
    case isTrue hmem => exact (List.perm_cons_erase hmem).symm
    case isFalse => exact List.Perm.refl _
  shuffleAgain_perm := fun _ => List.Perm.refl _

theorem sliceCount_pos_iff {length : Nat} (hlen : 0 < length) (n : Int) :
    0 < sliceCount length (min (n - 1) length) ↔ 2 ≤ n ∨ (n ≤ 0 ∧ 1 - n < (length : Int)) := by
  rw [sliceCount]
  split <;> omega

theorem sliceCount_of_pos (length : Nat) (hn : 1 ≤ n) :
    (sliceCount length (min (n - 1) length) : Int) = min (n - 1) length := by
  rw [sliceCount, if_pos (by omega)]
  omega

/-- A pool as it is displayed: a marked choice, and a part of the choices that are not marked. -/
structure PoolShown (xml : MultipleChoiceXml) (n : Int) (displayed : List ChoiceNode) (choice : ChoiceNode)
    (others : List ChoiceNode) : Prop where
  perm : displayed.Perm (choice :: others)
  choice_mem : choice ∈ xml.nodes
  choice_marked : marked choice = true
  others_subperm : others.Subperm (xml.nodes.filter fun choice => !marked choice)
  others_length : others.length = min (sliceCount (xml.nodes.countP fun choice => !marked choice)
    (min (n - 1) (xml.nodes.countP fun choice => !marked choice))) (xml.nodes.countP fun choice => !marked choice)
  others_pos : 0 < xml.nodes.countP fun choice => !marked choice

theorem displayed_cases (hdisp : xml.lateTransforms int draws = .ok displayed) :
    (xml.poolSize int = .noPool ∧ displayed.Perm xml.nodes) ∨
    (∃ n choice others, xml.poolSize int = .size n ∧ PoolShown xml n displayed choice others) := by
  rcases lateTransforms_cases hdisp with hall | ⟨n, choice, hsize, hne, hchoice, rfl⟩
  · exact .inl hall
  · obtain ⟨hmem, hmrk⟩ := mem_filter.mp (mem_of_getElem? hchoice)
    have hlen := (draws.shuffle_perm (xml.nodes.filter fun choice => !marked choice)).length_eq
    refine .inr ⟨n, choice, _, hsize, draws.shuffleAgain_perm _, hmem, hmrk, ?_, ?_, ?_⟩
    · exact (List.take_sublist _ _).subperm.trans (draws.shuffle_perm _).subperm
    · rw [sliceTo, List.length_take, hlen, List.countP_eq_length_filter]
    · rw [List.countP_eq_length_filter]
      exact length_pos_iff.mpr hne

namespace PoolShown

variable {n : Int} {displayed others : List ChoiceNode} {choice : ChoiceNode}
  (hshown : PoolShown xml n displayed choice others)

include hshown

variable {other : ChoiceNode}

theorem of_mem_others (hoth : other ∈ others) : other ∈ xml.nodes ∧ marked other = false := by
  have hmem := mem_filter.mp (hshown.others_subperm.subset hoth)
  exact ⟨hmem.1, by simpa using hmem.2⟩

theorem nodup : displayed.Nodup := by
  rw [hshown.perm.nodup_iff, nodup_cons]
  constructor
  · intro hmem
    have hunm := (hshown.of_mem_others hmem).2
    rw [hshown.choice_marked] at hunm
    cases hunm
  · obtain ⟨shown, hperm, hsub⟩ := hshown.others_subperm
    exact hperm.nodup_iff.mp (hsub.nodup ((mcSetupResponse_nodup 0 0 xml.choices).filter _))

theorem mem_nodes (hoth : other ∈ displayed) : other ∈ xml.nodes := by
  rcases mem_cons.mp (hshown.perm.mem_iff.mp hoth) with rfl | hoth
  · exact hshown.choice_mem
  · exact (hshown.of_mem_others hoth).1

theorem mayShow (hsize : xml.poolSize int = .size n) (hoth : other ∈ displayed) : xml.MayShow int other := by
  rw [MayShow, hsize]
  rcases mem_cons.mp (hshown.perm.mem_iff.mp hoth) with rfl | hoth
  · exact .inl hshown.choice_marked
  · have hlen := List.length_pos_of_mem hoth
    rw [hshown.others_length] at hlen
    exact .inr ((sliceCount_pos_iff hshown.others_pos n).mp (lt_of_lt_of_le hlen (Nat.min_le_left _ _)))

theorem others_length_of_pos (hn : 1 ≤ n) :
    (others.length : Int) = min (n - 1) (xml.nodes.countP fun choice => !marked choice) := by
  have hcnt := sliceCount_of_pos (xml.nodes.countP fun choice => !marked choice) hn
  have hlen := hshown.others_length
  omega

end PoolShown

namespace ClassesAgree

variable (hagree : xml.ClassesAgree context int)

include hagree

variable {choice : ChoiceNode}

theorem gradedCorrect_eq (hscheme : xml.hasPartialCredit = false ∨ xml.creditType = ["points"] ∨
    xml.creditType = ["false"]) (hmem : choice ∈ xml.nodes) (hmay : xml.MayShow int choice) :
    gradedCorrect (xml.setupResponse context) choice = isCorrect context choice := by
  rw [eq_iff_iff, gradedCorrect_iff hscheme]
  exact hagree.names choice hmem hmay

variable {n : Int} (hsize : xml.poolSize int = .size n)

include hsize

theorem isCorrect_eq_marked (hn : 2 ≤ n) (hmem : choice ∈ xml.nodes) : isCorrect context choice = marked choice := by
  rw [eq_iff_iff]
  exact ⟨hagree.literal n hsize hn choice hmem, isCorrect_of_marked⟩

theorem room_eq (hn : 1 ≤ n) : min (n - 1) (xml.nodes.countP fun choice => !marked choice : Int) =
    min (n - 1) (xml.nodes.countP fun choice => !isCorrect context choice : Int) := by
  by_cases hone : n = 1
  · omega
  · have hcnt : (xml.nodes.countP fun choice => !isCorrect context choice) =
        xml.nodes.countP fun choice => !marked choice := by
      refine List.countP_congr fun other hoth => ?_
      rw [hagree.isCorrect_eq_marked hsize (by omega) hoth]
    rw [hcnt]

theorem others_incorrect {displayed others : List ChoiceNode}
    (hshown : PoolShown xml n displayed choice others) (hn : 1 ≤ n) :
    ∀ other ∈ others, isCorrect context other = false := by
  intro other hoth
  have hlen := hshown.others_length_of_pos hn
  have hpos := List.length_pos_of_mem hoth
  rw [hagree.isCorrect_eq_marked hsize (by omega) (hshown.of_mem_others hoth).1, (hshown.of_mem_others hoth).2]

end ClassesAgree

theorem displaysRight_of_agree (hscheme : xml.hasPartialCredit = false ∨ xml.creditType = ["points"] ∨
    xml.creditType = ["false"]) (hagree : xml.ClassesAgree context int)
      (hdisp : xml.lateTransforms int draws = .ok displayed) :
    xml.DisplaysRight context int displayed := by
  rcases displayed_cases hdisp with ⟨hsize, hperm⟩ | ⟨n, choice, others, hsize, hshown⟩
  · refine ⟨hperm.nodup_iff.mpr (mcSetupResponse_nodup 0 0 xml.choices), fun choice => hperm.mem_iff.mp, ?_, ?_⟩
    · intro choice hchoice
      refine hagree.gradedCorrect_eq hscheme (hperm.mem_iff.mp hchoice) ?_
      rw [MayShow, hsize]
      trivial
    · intro n hsize'
      rw [hsize] at hsize'
      cases hsize'
  · have hrgt : ∀ other ∈ displayed,
        gradedCorrect (xml.setupResponse context) other = isCorrect context other := fun other hoth =>
      hagree.gradedCorrect_eq hscheme (hshown.mem_nodes hoth) (hshown.mayShow hsize hoth)
    refine ⟨hshown.nodup, fun other => hshown.mem_nodes, hrgt, ?_⟩
    intro m hsize' hm
    obtain rfl : n = m := by
      rw [hsize] at hsize'
      exact PoolSize.size.inj hsize'
    have hoths := hagree.others_incorrect hsize hshown hm
    constructor
    · rw [List.countP_congr (q := isCorrect context) fun other hoth => by rw [hrgt other hoth],
        hshown.perm.countP_eq, List.countP_cons_of_pos (isCorrect_of_marked hshown.choice_marked),
        List.countP_eq_zero.mpr (by simpa using hoths)]
    · rw [List.countP_congr (q := fun choice => !isCorrect context choice) fun other hoth => by rw [hrgt other hoth],
        hshown.perm.countP_eq, List.countP_cons_of_neg (by simp [isCorrect_of_marked hshown.choice_marked]),
        List.countP_eq_length.mpr (by simpa using hoths), hshown.others_length_of_pos hm,
        hagree.room_eq hsize hm]

def Accepted (xml : MultipleChoiceXml) (int : String → Option Int) : Prop :=
  ∀ draws, ∃ displayed, xml.lateTransforms int draws = .ok displayed

section

variable (haccd : xml.Accepted int) (hsize : xml.poolSize int = .size n) (hmem : choice ∈ xml.nodes)
include haccd hsize hmem

theorem Accepted.shows_marked (hmrk : marked choice = true) :
    ∃ draws displayed, xml.lateTransforms int draws = .ok displayed ∧ choice ∈ displayed := by
  have hfilt : choice ∈ xml.nodes.filter marked := mem_filter.mpr ⟨hmem, hmrk⟩
  have hidx := List.idxOf_lt_length_of_mem hfilt
  obtain ⟨displayed, hdisp⟩ := haccd (drawsFor ((xml.nodes.filter marked).idxOf choice) choice)
  refine ⟨_, displayed, hdisp, ?_⟩
  rcases lateTransforms_cases hdisp with ⟨hnone, -⟩ | ⟨n', shown, -, -, hshown, rfl⟩
  · rw [hsize] at hnone
    cases hnone
  · have hdrawn : (drawsFor ((xml.nodes.filter marked).idxOf choice) choice).randint
        ((xml.nodes.filter marked).length - 1) = (xml.nodes.filter marked).idxOf choice :=
      Nat.min_eq_left (by omega)
    rw [hdrawn, getElem?_eq_getElem hidx, List.getElem_idxOf hidx] at hshown
    rw [some.inj hshown]
    exact mem_cons_self

theorem Accepted.shows_unmarked (hunm : marked choice = false)
    (hroom : 2 ≤ n ∨ (n ≤ 0 ∧ 1 - n < (xml.nodes.countP fun choice => !marked choice : Int))) :
    ∃ draws other rest, xml.lateTransforms int draws = .ok (other :: choice :: rest) ∧ other ∈ xml.nodes ∧
      marked other = true := by
  have hfilt : choice ∈ xml.nodes.filter fun choice => !marked choice := mem_filter.mpr ⟨hmem, by rw [hunm]; rfl⟩
  obtain ⟨displayed, hdisp⟩ := haccd (drawsFor 0 choice)
  rcases lateTransforms_cases hdisp with ⟨hnone, -⟩ | ⟨n', other, hsize', -, hoth, rfl⟩
  · rw [hsize] at hnone
    cases hnone
  · obtain rfl : n = n' := by
      rw [hsize] at hsize'
      exact PoolSize.size.inj hsize'
    obtain ⟨hothermem, hothe⟩ := mem_filter.mp (mem_of_getElem? hoth)
    rw [List.countP_eq_length_filter] at hroom
    have hcnt := (sliceCount_pos_iff (List.length_pos_of_mem hfilt) n).mpr hroom
    have hlen := ((drawsFor 0 choice).shuffle_perm (xml.nodes.filter fun choice => !marked choice)).length_eq
    have hshuff : (drawsFor 0 choice).shuffle (xml.nodes.filter fun choice => !marked choice) =
        choice :: (xml.nodes.filter fun choice => !marked choice).erase choice := if_pos hfilt
    rw [sliceTo, hlen, hshuff, List.take_cons hcnt] at hdisp
    exact ⟨_, other, _, hdisp, hothermem, hothe⟩

end

theorem marked_of_displaysRight (haccd : xml.Accepted int)
    (hrgt : ∀ draws displayed, xml.lateTransforms int draws = .ok displayed →
      xml.DisplaysRight context int displayed) (hsize : xml.poolSize int = .size n) (hn : 2 ≤ n)
        (hmem : choice ∈ xml.nodes)
    (hcorr : isCorrect context choice = true) : marked choice = true := by
  by_contra hunm
  obtain ⟨draws, other, rest, hdisp, -, hoth⟩ := haccd.shows_unmarked hsize hmem (by simpa using hunm) (.inl hn)
  have hdispl := hrgt draws _ hdisp
  -- both are graded correct
  have hfst := hdispl.graded other mem_cons_self
  have hsec := hdispl.graded choice (mem_cons_of_mem other mem_cons_self)
  rw [isCorrect_of_marked hoth] at hfst
  rw [hcorr] at hsec
  have hcnt := (hdispl.pooled n hsize (by omega)).1
  rw [List.countP_cons_of_pos hfst, List.countP_cons_of_pos hsec] at hcnt
  omega

/-- For every seed the displayed choices are right exactly where the names and the attributes as they are written
make the same classes of the choices as their attributes do. -/
theorem displaysRight_iff (hscheme : xml.hasPartialCredit = false ∨ xml.creditType = ["points"] ∨
    xml.creditType = ["false"]) (haccepted : xml.Accepted int) :
    (∀ draws displayed, xml.lateTransforms int draws = .ok displayed → xml.DisplaysRight context int displayed) ↔
      xml.ClassesAgree context int := by
  refine ⟨fun hright => ?_, fun hagree _ _ hdisplayed => displaysRight_of_agree hscheme hagree hdisplayed⟩
  have hshown {draws : Draws} {displayed : List ChoiceNode} (hdisplayed : xml.lateTransforms int draws = .ok displayed)
      {choice : ChoiceNode} (hchoice : choice ∈ displayed) :
      (∃ other ∈ xml.nodes, isCorrect context other = true ∧ contextualizeText context other.name = choice.name) ↔
        isCorrect context choice = true := by
    rw [← gradedCorrect_iff hscheme, (hright draws displayed hdisplayed).graded choice hchoice]
  constructor
  · intro choice hmem hmay
    rw [MayShow] at hmay
    cases hsize : xml.poolSize int with
    | noPool =>
      obtain ⟨displayed, hdisplayed⟩ := haccepted (drawsFor 0 choice)
      rcases displayed_cases hdisplayed with ⟨-, hperm⟩ | ⟨n, -, -, hsize', -⟩
      · exact hshown hdisplayed (hperm.mem_iff.mpr hmem)
      · rw [hsize] at hsize'
        cases hsize'
    | noInteger =>
      obtain ⟨displayed, hdisplayed⟩ := haccepted (drawsFor 0 choice)
      rcases displayed_cases hdisplayed with ⟨hsize', -⟩ | ⟨n, -, -, hsize', -⟩ <;>
        · rw [hsize] at hsize'
          cases hsize'
    | size n =>
      rw [hsize] at hmay
      cases hmarked : marked choice with
      | true =>
        obtain ⟨draws, displayed, hdisplayed, hchoice⟩ := haccepted.shows_marked hsize hmem hmarked
        exact hshown hdisplayed hchoice
      | false =>
        have hroom := hmay.resolve_left (by simp [hmarked])
        obtain ⟨draws, other, rest, hdisplayed, -, -⟩ := haccepted.shows_unmarked hsize hmem hmarked hroom
        exact hshown hdisplayed (mem_cons_of_mem other mem_cons_self)
  · intro n hsize hn choice hmem hcorrect
    exact marked_of_displaysRight haccepted hright hsize hn hmem hcorrect

theorem accepted_of_pool (hshuff : xml.shuffle = false) (hsize : xml.poolSize int = .size n)
    (hmrk : xml.nodes.filter marked ≠ []) (hunm : (xml.nodes.filter fun choice => !marked choice) ≠ []) :
    xml.Accepted int := by
  intro draws
  have hlen := length_pos_iff.mpr hmrk
  have hlen' := length_pos_iff.mpr hunm
  have hidx : draws.randint ((xml.nodes.filter marked).length - 1) < (xml.nodes.filter marked).length := by
    have hle := draws.randint_le ((xml.nodes.filter marked).length - 1)
    omega
  have hkept : xml.doShuffle draws xml.nodes = .ok xml.nodes := by
    rw [doShuffle, hshuff]
    rfl
  refine ⟨draws.shuffleAgain ((xml.nodes.filter marked)[draws.randint ((xml.nodes.filter marked).length - 1)] ::
    sliceTo (draws.shuffle (xml.nodes.filter fun choice => !marked choice))
      (min (n - 1) (xml.nodes.filter fun choice => !marked choice).length)), ?_⟩
  rw [lateTransforms, hkept]
  change xml.doAnswerPool int draws xml.nodes = _
  rw [doAnswerPool, hsize]
  dsimp only
  rw [sampleFromAnswerPool]
  dsimp only
  rw [if_neg (by omega), getElem?_eq_getElem hidx]

def intOf (text : String) : Option Int :=
  if text = "2" then some 2 else if text = "3" then some 3 else none

/-- The second choice has the variable `t` as its correct attribute. -/
def variableXml (answerPool : String) (second : String) : MultipleChoiceXml where
  field := { id := "1_2_1" }
  answerPool := some answerPool
  choices := [{ correct := "true" }, { correct := second }, { correct := "false" }]

theorem variableXml_accepted {answerPool second : String}
    (hsize : (variableXml answerPool second).poolSize intOf = .size n) :
    (variableXml answerPool second).Accepted intOf := by
  have hfst : (variableXml answerPool second).nodes[0]? = some ⟨0, "choice_0", "true", none, none⟩ := rfl
  have hthird : (variableXml answerPool second).nodes[2]? = some ⟨2, "choice_2", "false", none, none⟩ := rfl
  apply accepted_of_pool rfl hsize
  · exact ne_nil_of_mem (mem_filter.mpr ⟨mem_of_getElem? hfst, by decide⟩)
  · exact ne_nil_of_mem (mem_filter.mpr ⟨mem_of_getElem? hthird, by decide⟩)

/-- Two of three displayed choices are graded correct. -/
theorem pool_shows_two_correct :
    ¬ ∀ draws displayed, (variableXml "3" "$t").lateTransforms intOf draws = .ok displayed →
      (variableXml "3" "$t").DisplaysRight [("t", "true")] intOf displayed := by
  intro hright
  have hfilled : contextualizeText [("t", "true")] "$t" = "true" := by
    rw [contextualizeText, List.mergeSort_singleton]
    decide
  have hcorrect : isCorrect [("t", "true")] ⟨1, "choice_1", "$t", none, none⟩ = true := by
    rw [isCorrect, hfilled]
    decide
  have hmarked := marked_of_displaysRight (variableXml_accepted rfl) hright (n := 3) rfl (by decide)
    (mem_of_getElem? (i := 1) rfl) hcorrect
  exact absurd hmarked (by decide)

theorem pool_of_two_right : (∀ draws displayed, (variableXml "2" "false").lateTransforms intOf draws = .ok displayed →
      (variableXml "2" "false").DisplaysRight [] intOf displayed) ↔
    (variableXml "2" "false").ClassesAgree [] intOf :=
  displaysRight_iff (.inl rfl) (variableXml_accepted rfl)

end MultipleChoiceXml

end EdxPlatform
