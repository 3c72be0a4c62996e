import Mathlib
import EdxPlatform.Calc.Numerals

/-!
# Reading operands

An operand is read as one node, which reduces to its value if the scope has all its names.
-/

namespace EdxPlatform.Calc

open OrderedChoice Handled Scope

/-! ## Levels of the grammar -/

def Level.rule : Level → Rule → Rule
  | .sum => sumTerm
  | .product => prodTerm
  | .parallel => parTerm
  | .power => powTerm
  | .atom => Calc.atom

def Level.follow : Level → List Char
  | .sum => [')']
  | .product => ['+', '-', ')']
  | .parallel => ['*', '/', '+', '-', ')']
  | .power => ['|', '*', '/', '+', '-', ')']
  | .atom => operatorChars

theorem operator_spec {c : Char} (hc : c ∈ operatorChars) : isBlank c = false ∧ c ≠ '(' ∧ isNameChar c = false := by
  have hspec := all_eq_true.mp operatorChars_spec c hc
  simp only [and_eq_true, not_eq_true', bne_iff_ne] at hspec
  obtain ⟨⟨⟨⟨⟨⟨_, _⟩, _⟩, hblank⟩, hopen⟩, hname⟩, _⟩ := hspec
  exact ⟨hblank, hopen, hname⟩

/-- A text, the names it uses and its value. -/
structure Phrase (K : Type) where
  text : List Char
  used : List Used
  value : Value K

section

variable {K : Type} (actions : NodeName → List (Handled K) → Option (Handled K))

theorem handleNodes_tokens (texts : List (List Char)) :
    handleNodes actions (texts.map .token) = some (texts.map .text) := by
  induction texts with
  | nil => rfl
  | cons text texts ih => simp [handleNodes, handleNode, ih]

theorem handleNodes_append (kids others : List Tree) :
    handleNodes actions (kids ++ others) = (handleNodes actions kids).bind fun handled =>
        (handleNodes actions others).map (handled ++ ·) := by
  induction kids with
  | nil => simp [handleNodes]
  | cons kid kids ih =>
    rw [cons_append, handleNodes, handleNodes, ih]
    cases handleNode actions kid with
    | none => rfl
    | some value =>
      cases handleNodes actions kids with
      | none => rfl
      | some values => simp [comp_def]

end

theorem evalNumber_texts {K : Type} [Field K] (texts : List (List Char)) : evalNumber (texts.map .text) =
      (superFloat texts.flatten).map fun value : K => .number (some value) := by
  have htexts : (texts.map (Handled.text (K := K))).mapM text? = some texts := by
    induction texts with
    | nil => rfl
    | cons text texts ih => simp [ih, text?]
  rw [evalNumber, htexts, bind_some]

section

variable {K : Type} [Field K] [DecidableEq K] (library : Library K) (scope : Scope K)

def Scope.meaning : Meaning K where
  ofVariable := fun name => (scope.allVariables.lookup (scope.casify name)).getD none
  ofFunction := fun name => (scope.allFunctions.lookup (scope.casify name)).getD fun _ => none
  power := library.power

/-- The phrase is read as the tree, which reduces to the value of the phrase. -/
structure Means (level : Level) (start : Bool) (phrase : Phrase K) (tree : Tree) : Prop where
  reads : ∀ depth, phrase.text.length ≤ depth →
    Reads (level.rule (expr depth)) (· ∈ level.follow) ⟨phrase.text, [tree], phrase.used⟩
  handles : (∀ name ∈ phrase.used, scope.isBad name = false) →
    handleNode (evaluateActions library scope) tree = some (.number phrase.value)
  visible : ∃ c ∈ phrase.text, isSpace c = false
  /-- At the start of a sum there is no sign that the sum could take. -/
  free : start = true → GoesOn NoSign phrase.text

variable {tree : Tree}

theorem handleNode_atom {value : Value K}
    (htree : handleNode (evaluateActions library scope) tree = some (.number value)) :
    handleNode (evaluateActions library scope) (.node .atom [tree]) = some (.number value) := by
  simp [handleNode, handleNodes, htree, evaluateActions, evalAtom, number?]

theorem means_number (sign : Option Sign) (literal : Literal) (start : Bool) (hst : start = true → sign = none) :
    ∃ tree, Means library scope .atom start
      ⟨signText sign ++ literal.text, [], some ((sign.getD .plus).apply literal.value)⟩ tree := by
  obtain ⟨hne, hfree⟩ := literal.mantissa_start
  refine ⟨.node .atom [.node .number ((numberTokens sign literal).map .token)],
    fun depth _ => ?_, fun _ => ?_, ?_, fun htrue => ?_⟩
  · exact (((reads_number sign literal).mono fun c hc => afterNumber_of_mem hc).orElse_left).group
  · refine handleNode_atom library scope ?_
    simp [handleNode, handleNodes_tokens, evaluateActions, evalNumber_texts, superFloat_numberTokens]
  · have hhead := List.head?_eq_some_head hne
    exact ⟨literal.mantissa.head hne, by simp [Literal.text], (hfree _ hhead).1⟩
  · rw [hst htrue]
    exact hfree.append hne

theorem refuses_number {input : List Char}
    (hinput : GoesOn (fun c => NoSign c ∧ NoMantissa c) input) : Refuses number input := by
  have hsign : optional plusMinus input = ⟨some ([], input), []⟩ :=
    (refuses_plusMinus (hinput.mono fun c hc => hc.1)).optional
  have hpoint : Refuses (exactly ['.'] : Rule) input := refuses_exactly fun hmem => (hinput _ hmem).2.2 rfl
  have hdigit : Refuses numberPart input := refuses_numberPart (hinput.mono fun c hc => hc.2.1)
  have hinner : Refuses innerNumber input :=
    (hdigit.andThen.orElse hpoint.andThen).combine (hinput.mono fun c hc => hc.1.not_isBlank)
  exact (refuses_andThen_rest hsign hinner.andThen).group

theorem isInitial_spec {c : Char} (hc : isInitial c) : NoSign c ∧ NoMantissa c := by
  have hne : ∀ d : Char, isInitial d = false → c ≠ d := fun d hd heq => by
    rw [heq, hd] at hc
    exact false_ne_true hc
  refine ⟨⟨?_, hne _ rfl, hne _ rfl⟩, ?_, hne _ rfl⟩
  · simp [isSpace, isBlank, hne ' ' rfl, hne '\n' rfl, hne '\t' rfl, hne '\r' rfl, hne '\x0b' rfl, hne '\x0c' rfl]
  · have halpha : c.isAlpha ∨ c = '_' := by simpa [isInitial] using hc
    rcases halpha with halpha | rfl
    · simp only [Char.isAlpha, Char.isUpper, Char.isLower, or_eq_true, and_eq_true, decide_eq_true_eq] at halpha
      simp only [NoDigit, Char.isDigit, Bool.and_eq_false_iff, decide_eq_false_iff_not]
      grind
    · rfl

theorem reads_innerVarname (name : Identifier) :
    Reads innerVarname (fun c => isNameChar c = false) ⟨name.name, [.token name.name], []⟩ :=
  (reads_word name.isInitial name.isNameChars).lexeme (cons_ne_nil _ _)
    (goesOn_cons.mpr (isInitial_spec name.isInitial).1.not_isBlank)

theorem refuses_innerVarname {c : Char} {rest : List Char} (hc : isBlank c = false ∧ isInitial c = false) :
    Refuses innerVarname (c :: rest) :=
  (refuses_word fun _ hmem => by cases hmem; exact hc.2).lexeme (goesOn_cons.mpr hc.1)

theorem means_variable (name : Identifier) (start : Bool) : ∃ tree, Means library scope .atom start
      ⟨name.name, [.variable name.name], (scope.meaning library).ofVariable name.name⟩ tree := by
  have hspec := isInitial_spec name.isInitial
  refine ⟨.node .atom [.node .variable [.token name.name]], fun depth _ => ?_, fun hdef => ?_,
    ⟨name.first, mem_cons_self, hspec.1.1⟩, fun _ => goesOn_cons.mpr hspec.1⟩
  · have hname := (reads_innerVarname name).mono fun c hc => (operator_spec hc).2.2
    have hread : Reads varname (· ∈ operatorChars)
        ⟨name.name, [.node .variable [.token name.name]], [.variable name.name]⟩ :=
      hname.group.recording
    refine ((hread.orElse_left.orElse_right fun rest hrest => ?_).orElse_right fun rest _ => ?_).group
    · -- No call: the name is not followed by a parenthesis.
      have hopen : Refuses (literal ['('] : Rule) rest :=
        refuses_literal (hrest.mono fun c hc => ⟨(operator_spec hc).1, (operator_spec hc).2.1⟩)
      exact (refuses_andThen_rest (hname rest hrest) hopen.suppress.andThen).group.recording
    · exact refuses_number (goesOn_cons.mpr hspec)
  · have hgood : scope.casify name.name ∈ scope.allVariables := by
      simpa [isBad] using hdef (.variable name.name) (mem_singleton.mpr rfl)
    obtain ⟨value, hval⟩ := mem_iff_lookup.mp hgood
    refine handleNode_atom library scope ?_
    simp [handleNode, handleNodes, evaluateActions, text?, meaning, hval]

variable {library scope} {phrase : Phrase K}

theorem Means.ne {level : Level} {start : Bool}
    (hmeans : Means library scope level start phrase tree) : phrase.text ≠ [] := by
  obtain ⟨c, hc, _⟩ := hmeans.visible
  exact ne_nil_of_mem hc

section

variable (hmeans : Means library scope .sum false phrase tree)
include hmeans

theorem Means.reads_inside (depth : Nat) (hdepth : phrase.text.length < depth) :
    Reads (expr depth) (· ∈ [')']) ⟨phrase.text, [tree], phrase.used⟩ := by
  cases depth with
  | zero => exact absurd hdepth (Nat.not_lt_zero _)
  | succ depth => exact hmeans.reads depth (Nat.le_of_lt_succ hdepth)

theorem Means.enclosed (start : Bool) : ∃ tree, Means library scope .atom start
      ⟨'(' :: (phrase.text ++ [')']), phrase.used, phrase.value⟩ tree := by
  refine ⟨.node .atom [.token ['('], tree, .token [')']], fun depth hdepth => ?_, fun hdef => ?_,
    ⟨'(', mem_cons_self, rfl⟩, fun _ => goesOn_cons.mpr ⟨rfl, by decide⟩⟩
  · have hins := hmeans.reads_inside depth (by simp at hdepth; omega)
    have hopen : Reads (literal ['(']) (fun _ => True) (⟨['('], [.token ['(']], []⟩ : Piece) := reads_literal rfl
    have hclose : Reads (literal [')']) (· ∈ operatorChars) (⟨[')'], [.token [')']], []⟩ : Piece) :=
      (reads_literal rfl).mono fun _ _ => trivial
    have hread : Reads (andThen (literal ['(']) (andThen (expr depth) (literal [')']))) (· ∈ operatorChars)
        ⟨'(' :: (phrase.text ++ [')']), [.token ['('], tree, .token [')']], phrase.used⟩ :=
      (hopen.andThen (hins.andThen hclose fun rest _ =>
        goesOn_cons.mpr (mem_singleton.mpr rfl)) fun _ _ _ _ => trivial).of_eq
        (by simp [Chunk.ext_iff])
    refine (((hread.orElse_right fun rest _ => ?_).orElse_right fun rest _ => ?_).orElse_right fun rest _ => ?_).group
    · exact (refuses_innerVarname ⟨rfl, rfl⟩).group.recording
    · exact (refuses_innerVarname ⟨rfl, rfl⟩).andThen.group.recording
    · exact refuses_number (goesOn_cons.mpr ⟨⟨rfl, by decide⟩, rfl, by decide⟩)
  · have htree := hmeans.handles hdef
    simp only [handleNode, handleNodes, htree]
    rfl

theorem Means.called (name : Identifier) (start : Bool) : ∃ tree, Means library scope .atom start
      ⟨name.name ++ '(' :: (phrase.text ++ [')']), phrase.used ++ [.function name.name],
        (scope.meaning library).ofFunction name.name phrase.value⟩ tree := by
  have hspec := isInitial_spec name.isInitial
  refine ⟨.node .atom [.node .function [.token name.name, tree]], fun depth hdepth => ?_,
    fun hdef => ?_, ⟨name.first, mem_cons_self, hspec.1.1⟩,
    fun _ => goesOn_cons.mpr hspec.1⟩
  · have hname := (reads_innerVarname name).mono fun c (hc : c = '(') => hc ▸ rfl
    have hins := hmeans.reads_inside depth (by simp at hdepth; omega)
    have hopen : Reads (suppress (literal ['('])) (fun _ => True) (⟨['('], [], []⟩ : Piece) :=
      (reads_literal rfl).suppress
    have hclose : Reads (suppress (literal [')'])) (· ∈ operatorChars) (⟨[')'], [], []⟩ : Piece) :=
      ((reads_literal rfl).mono fun _ _ => trivial).suppress
    have hread := (hname.andThen (hopen.andThen (hins.andThen hclose fun rest _ =>
      goesOn_cons.mpr (mem_singleton.mpr rfl)) fun _ _ _ _ => trivial)
      fun rest _ => goesOn_cons.mpr rfl).of_eq (show _ = (⟨name.name ++ '(' :: (phrase.text ++ [')']),
        [.token name.name, tree], phrase.used⟩ : Piece) by simp [Chunk.ext_iff])
    have hfun : Reads (function (expr depth)) (· ∈ operatorChars)
        ⟨name.name ++ '(' :: (phrase.text ++ [')']), [.node .function [.token name.name, tree]],
          phrase.used ++ [.function name.name]⟩ := hread.group.recording
    exact (hfun.orElse_left.orElse_right fun rest _ => refuses_number (goesOn_cons.mpr hspec)).group
  · have hgood : scope.casify name.name ∈ scope.allFunctions := by
      simpa [isBad] using hdef (.function name.name) (by simp)
    obtain ⟨apply, happly⟩ := mem_iff_lookup.mp hgood
    have htree := hmeans.handles fun used hused => hdef used (mem_append_left _ hused)
    refine handleNode_atom library scope ?_
    simp [handleNode, handleNodes, htree, evaluateActions, text?, number?, meaning, happly]

end

end

end EdxPlatform.Calc
