import EdxPlatform.Lib.Runs
import EdxPlatform.Capa.CodeResponse

/-!
# Replies and outstanding submissions

A reply that the response can read touches only the answers whose queue key it
carries.  One that is malformed is noticed before its key is looked at, and
wipes the entry of every queued answer of the problem.
-/

namespace EdxPlatform.CodeResponse

/-- What is on record of an answer: its mark, its points and its queue state. -/
structure Standing where
  correctness : Option Mark := none
  npoints : Option Json := none
  queuestate : Option QueueState := none

namespace EntryMap

section

variable (cmap : EntryMap)

def standing (answerId : String) : Standing :=
  match cmap.lookup answerId with
  | none => {}
  | some entry => ⟨entry.correctness, entry.npoints, entry.queuestate⟩

def Awaits (queuekey answerId : String) : Prop :=
  ∃ queuestate, (cmap.standing answerId).queuestate = some queuestate ∧ queuestate.key = queuekey

theorem standing_insert (answerId other : String) (entry : Entry) : standing (cmap.insert answerId entry) other =
      if other = answerId then ⟨entry.correctness, entry.npoints, entry.queuestate⟩
      else cmap.standing other := by
  unfold standing
  rw [lookup_insert]
  by_cases heq : other = answerId
  · rw [if_pos heq, if_pos heq]
  · rw [if_neg heq, if_neg heq]

theorem isRightQueuekey_iff (answerId queuekey : String) :
    cmap.isRightQueuekey answerId queuekey = true ↔ cmap.Awaits queuekey answerId := by
  unfold isRightQueuekey Awaits standing
  cases cmap.lookup answerId with
  | none => simp
  | some entry => simp [Option.any_eq_true]

end

end EntryMap

open EntryMap

theorem standing_malformed (queuekey : String) (answerIds : List String) (cmap : EntryMap) (answerId : String) :
    (answerIds.foldl (updateScore none queuekey) cmap).standing answerId =
      if answerId ∈ answerIds then {} else cmap.standing answerId := by
  induction answerIds generalizing cmap with
  | nil => simp
  | cons first rest ih =>
    rw [foldl_cons, ih]
    simp only [updateScore, standing_insert, mem_cons]
    by_cases hrest : answerId ∈ rest
    · simp [hrest]
    · by_cases hfst : answerId = first <;> simp [hrest, hfst]

/-- A readable reply leaves an answer as it stands, or consumes the queue state
that it carries the key of. -/
theorem standing_readable (result : ScoreResult) (queuekey : String) (answerIds : List String)
    (cmap : EntryMap) (answerId : String) :
    (answerIds.foldl (updateScore (some result) queuekey) cmap).standing answerId = cmap.standing answerId ∨
      cmap.Awaits queuekey answerId ∧ ((answerIds.foldl (updateScore (some result) queuekey) cmap).standing
          answerId).queuestate = none := by
  induction answerIds generalizing cmap with
  | nil => exact .inl rfl
  | cons first rest ih =>
    rw [foldl_cons]
    by_cases hrgt : cmap.isRightQueuekey first queuekey = true
    · have hupd : updateScore (some result) queuekey cmap first = cmap.insert first (gradedEntry result) := by
        simp [updateScore, hrgt]
      rw [hupd]
      have hgrd := standing_insert cmap first answerId (gradedEntry result)
      have hrest := ih (cmap.insert first (gradedEntry result))
      by_cases heq : answerId = first
      · -- the first answer is graded, and the rest of the responses leave it so
        rw [if_pos heq] at hgrd
        refine .inr ⟨heq ▸ (isRightQueuekey_iff cmap first queuekey).mp hrgt, ?_⟩
        rcases hrest with hsame | ⟨-, hcon⟩
        · rw [hsame, hgrd]
          rfl
        · exact hcon
      · rw [if_neg heq] at hgrd
        unfold Awaits at hrest ⊢
        rw [hgrd] at hrest
        exact hrest
    · have hkept : updateScore (some result) queuekey cmap first = cmap := by
        simp [updateScore, hrgt]
      rw [hkept]
      exact ih cmap

/-- What happens to a problem: a submission, or a reply to one. -/
inductive Event where
  | submission (answers : Answers) (deliver : String → Delivery)
  | reply (scoreMsg queuekey : String)

namespace CodeProblem

variable (problem : CodeProblem) (parsers : Parsers)

def next (state : State) : Event → State
  | .submission answers deliver => problem.gradeAnswers state answers deliver
  | .reply scoreMsg queuekey => problem.updateScore parsers state scoreMsg queuekey

def Malformed (scoreMsg : String) : Prop := parseScoreMsg parsers scoreMsg = .ok none

variable {scoreMsg : String}

theorem updateScore_malformed (hmal : Malformed parsers scoreMsg) (state : State) (queuekey answerId : String) :
    (problem.updateScore parsers state scoreMsg queuekey).correctMap.cmap.standing answerId =
      if answerId ∈ problem.codeAnswers then {} else state.correctMap.cmap.standing answerId := by
  unfold Malformed at hmal
  unfold updateScore
  rw [hmal]
  cases problem.codeAnswers with
  | nil => simp
  | cons first rest => exact standing_malformed queuekey (first :: rest) _ answerId

/-- Any other reply changes an answer only if it carries its key, and then the
answer waits for no further reply. -/
theorem updateScore_readable (hread : ¬ Malformed parsers scoreMsg) (state : State) (queuekey answerId : String) :
    (problem.updateScore parsers state scoreMsg queuekey).correctMap.cmap.standing answerId =
        state.correctMap.cmap.standing answerId ∨
      state.correctMap.cmap.Awaits queuekey answerId ∧
        ((problem.updateScore parsers state scoreMsg queuekey).correctMap.cmap.standing
          answerId).queuestate = none := by
  unfold Malformed at hread
  unfold updateScore
  cases problem.codeAnswers with
  | nil => exact .inl rfl
  | cons first rest =>
    cases hparse : parseScoreMsg parsers scoreMsg with
    | error => exact .inl rfl
    | ok result =>
      cases result with
      | none => exact absurd hparse hread
      | some result => exact standing_readable result queuekey (first :: rest) _ answerId

/-- A reply changes only answers whose outstanding key it carries, and a malformed
one changes none. -/
def RespectsKeys (state : State) : Event → Prop
  | .submission _ _ => True
  | .reply scoreMsg queuekey =>
    let before := state.correctMap.cmap
    let after := (problem.updateScore parsers state scoreMsg queuekey).correctMap.cmap
    (∀ answerId, ¬ before.Awaits queuekey answerId → after.standing answerId = before.standing answerId) ∧
    (Malformed parsers scoreMsg → ∀ answerId, after.standing answerId = before.standing answerId)

/-- A malformed reply finds no code answer with a mark, points or a queue state. -/
def Harmless (state : State) : Event → Prop
  | .submission _ _ => True
  | .reply scoreMsg _ => Malformed parsers scoreMsg →
    ∀ answerId ∈ problem.codeAnswers, state.correctMap.cmap.standing answerId = {}

theorem respectsKeys_iff (state : State) (event : Event) :
    problem.RespectsKeys parsers state event ↔ problem.Harmless parsers state event := by
  cases event with
  | submission => exact Iff.rfl
  | reply scoreMsg queuekey =>
    constructor
    · rintro ⟨-, hmal⟩ hbad answerId hcode
      have hwiped := problem.updateScore_malformed parsers hbad state queuekey answerId
      rw [if_pos hcode, hmal hbad answerId] at hwiped
      exact hwiped
    · intro hhar
      have hsame : Malformed parsers scoreMsg → ∀ answerId,
          (problem.updateScore parsers state scoreMsg queuekey).correctMap.cmap.standing
            answerId = state.correctMap.cmap.standing answerId := by
        intro hbad answerId
        rw [problem.updateScore_malformed parsers hbad]
        by_cases hcode : answerId ∈ problem.codeAnswers
        · rw [if_pos hcode, hhar hbad answerId hcode]
        · rw [if_neg hcode]
      refine ⟨fun answerId hawa => ?_, hsame⟩
      by_cases hbad : Malformed parsers scoreMsg
      · exact hsame hbad answerId
      · rcases problem.updateScore_readable parsers hbad state queuekey answerId with
          hkept | ⟨hcar, -⟩
        · exact hkept
        · exact absurd hcar hawa

/-- The state of a problem, and how many replies changed each of its answers since
the answers were last submitted. -/
structure Counted where
  state : State
  resolutions : String → Nat

open Classical in
/-- A submission that is graded starts the counts again. -/
noncomputable def countedNext (counted : Counted) (event : Event) : Counted :=
  let after := problem.next parsers counted.state event
  ⟨after, fun answerId =>
    match event with
    | .submission answers deliver =>
      if (problem.gradeResponders answers deliver).isSome then 0 else counted.resolutions answerId
    | .reply _ _ =>
      if after.correctMap.cmap.standing answerId =
          counted.state.correctMap.cmap.standing answerId then counted.resolutions answerId
      else counted.resolutions answerId + 1⟩

def AtMostOnce (counted : Counted) : Prop := ∀ answerId, counted.resolutions answerId ≤ 1

def Settled (counted : Counted) : Prop :=
  ∀ answerId, counted.resolutions answerId = 0 ∨ counted.resolutions answerId = 1 ∧
      (counted.state.correctMap.cmap.standing answerId).queuestate = none

theorem atMostOnce_of_settled (counted : Counted) (hsett : Settled counted) : AtMostOnce counted := by
  intro answerId
  rcases hsett answerId with hzero | ⟨hone, -⟩ <;> omega

variable {counted : Counted}

theorem settled_submission (hsett : Settled counted) (answers : Answers) (deliver : String → Delivery) :
    Settled (problem.countedNext parsers counted (.submission answers deliver)) := by
  intro answerId
  unfold countedNext next gradeAnswers
  cases hgrade : problem.gradeResponders answers deliver with
  | none => simpa [hgrade] using hsett answerId
  | some newcmap => simp [hgrade]

theorem settled_reply (hsett : Settled counted) {queuekey : String}
    (hres : problem.RespectsKeys parsers counted.state (.reply scoreMsg queuekey)) :
    Settled (problem.countedNext parsers counted (.reply scoreMsg queuekey)) := by
  intro answerId
  unfold countedNext next
  dsimp only
  by_cases hsame : (problem.updateScore parsers counted.state scoreMsg
      queuekey).correctMap.cmap.standing answerId = counted.state.correctMap.cmap.standing answerId
  · rw [if_pos hsame, hsame]
    exact hsett answerId
  · rw [if_neg hsame]
    have hread : ¬ Malformed parsers scoreMsg := fun hbad => hsame (hres.2 hbad answerId)
    rcases problem.updateScore_readable parsers hread counted.state queuekey answerId with
      hkept | ⟨⟨queuestate, hqueued, -⟩, hcon⟩
    · exact absurd hkept hsame
    · -- the answer was waiting, so no reply had changed it yet
      have hzero : counted.resolutions answerId = 0 := by
        rcases hsett answerId with hzero | ⟨-, hnone⟩
        · exact hzero
        · cases hnone.symm.trans hqueued
      exact .inr ⟨by omega, hcon⟩

theorem settled_next {event : Event} (hsett : Settled counted) (hhar : problem.Harmless parsers counted.state event) :
    Settled (problem.countedNext parsers counted event) := by
  cases event with
  | submission answers deliver => exact problem.settled_submission parsers hsett answers deliver
  | reply scoreMsg queuekey =>
    exact problem.settled_reply parsers hsett ((problem.respectsKeys_iff parsers counted.state _).mpr hhar)

/-- Replies change only answers whose outstanding key they carry, and resolve each
submission at most once, exactly in the runs in which every malformed reply finds
the code answers without mark, points and queue state. -/
theorem replies_resolve_own_submission_iff (state : State) (events : List Event) :
    (Each (problem.countedNext parsers) (fun counted event => problem.RespectsKeys parsers counted.state event)
        ⟨state, fun _ => 0⟩ events ∧
      Always (problem.countedNext parsers) AtMostOnce ⟨state, fun _ => 0⟩ events) ↔
    Each (problem.countedNext parsers) (fun counted event => problem.Harmless parsers counted.state event)
      ⟨state, fun _ => 0⟩ events := by
  have hiff : (fun (counted : Counted) event => problem.RespectsKeys parsers counted.state event) =
      fun counted event => problem.Harmless parsers counted.state event := by
    funext counted event
    exact propext (problem.respectsKeys_iff parsers counted.state event)
  rw [hiff]
  constructor
  · exact fun hboth => hboth.1
  · intro heach
    have hsettled : Settled ⟨state, fun _ => 0⟩ := fun _ => .inl rfl
    have halways := always_of_each (fun _ _ => problem.settled_next parsers) hsettled heach
    exact ⟨heach, halways.imp atMostOnce_of_settled⟩

def twoAnswers : CodeProblem where
  responders := [.code "i4x_2_1", .code "i4x_3_1"]
  hasQueue := true
  seed := "1"
  anonymousStudentId := "5afe5d9bb03796557ee2614f5c9611fb"
  makeHashkey := fun seed => seed

/-- Both answers are submitted; then a reply comes that is no JSON, with the key of
an earlier submission. -/
def staleMalformedReply : List Event :=
  [.submission (Dict.ofList [("i4x_2_1", "def f(): pass"), ("i4x_3_1", "def g(): pass")])
    fun _ => .queued "20160301120000" "2",
   .reply "" "20160301110000"]

/-- The stale reply ends the wait of both answers. -/
theorem stale_malformed_reply_drops_submissions :
    ¬ ∀ (problem : CodeProblem) (parsers : Parsers) (events : List Event), Each (problem.countedNext parsers)
        (fun counted event => problem.RespectsKeys parsers counted.state event)
        ⟨{}, fun _ => 0⟩ events ∧
      Always (problem.countedNext parsers) AtMostOnce ⟨{}, fun _ => 0⟩ events := by
  intro hclaim
  have hrun := (hclaim twoAnswers ⟨fun _ => none, fun _ => .parsed⟩ staleMalformedReply).1
  obtain ⟨-, ⟨-, hmalformed⟩, -⟩ := hrun
  have hsame := hmalformed rfl "i4x_2_1"
  have hmark := congrArg Standing.correctness hsame
  revert hmark
  simp only [countedNext, next]
  decide +kernel

end CodeProblem

end EdxPlatform.CodeResponse
