import EdxPlatform.Lib.ShortNames

/-!
# Rewriting a text from left to right

A rule says what can be replaced at a place of a text.  A text is read from left to right: where the rule
applies, what it matches is replaced and the reading goes on behind it, and elsewhere one character is kept.
-/

namespace EdxPlatform.Rewriting

variable {α : Type}

/-- What is replaced: the text before, the text matched, the text behind it, and what replaces the match. -/
abbrev Rule (α : Type) := List α → List α → List α → List α → Prop

namespace Rule

def At (rule : Rule α) (before text : List α) : Prop :=
  ∃ matched rest new, text = matched ++ rest ∧ rule before matched rest new

def Functional (rule : Rule α) : Prop :=
  ∀ ⦃before matched rest new matched' rest' new'⦄, matched ++ rest = matched' ++ rest' →
    rule before matched rest new → rule before matched' rest' new' → matched = matched' ∧ new = new'

def Quiet (rule : Rule α) (before front rest : List α) : Prop :=
  ∀ passed left, front = passed ++ left → left ≠ [] → ¬ rule.At (before ++ passed) (left ++ rest)

end Rule

/-- What becomes of a text. -/
inductive Replaced (rule : Rule α) : List α → List α → List α → Prop
  | done {before : List α} (hnone : ¬ rule.At before []) : Replaced rule before [] []
  | link {before matched rest new result text : List α} (htext : text = matched ++ rest)
      (hrule : rule before matched rest new) (hrest : Replaced rule (before ++ matched) rest result) :
      Replaced rule before text (new ++ result)
  | keep {before rest result : List α} {c : α} (hnone : ¬ rule.At before (c :: rest))
      (hrest : Replaced rule (before ++ [c]) rest result) : Replaced rule before (c :: rest) (c :: result)

/-- From one place to the next that is looked at. -/
inductive Next (rule : Rule α) : List α × List α → List α × List α → Prop
  | link {before matched rest new text : List α} (htext : text = matched ++ rest)
      (hrule : rule before matched rest new) : Next rule (before, text) (before ++ matched, rest)
  | keep {before rest : List α} {c : α} (hnone : ¬ rule.At before (c :: rest)) :
      Next rule (before, c :: rest) (before ++ [c], rest)

abbrev Visits (rule : Rule α) := Relation.ReflTransGen (Next rule)

variable {rule other : Rule α} {before text result : List α}

namespace Rule

variable {front rest : List α}

theorem Quiet.tail {c : α} (hquiet : rule.Quiet before (c :: front) rest) : rule.Quiet (before ++ [c]) front rest := by
  intro passed left hfront hleft
  rw [append_assoc]
  exact hquiet (c :: passed) left (congrArg (c :: ·) hfront) hleft

theorem Quiet.append {back : List α} (hfront : rule.Quiet before front (back ++ rest))
    (hback : rule.Quiet (before ++ front) back rest) : rule.Quiet before (front ++ back) rest := by
  intro passed left heq hleft
  rcases List.append_eq_append_iff.mp heq with ⟨more, rfl, rfl⟩ | ⟨more, rfl, rfl⟩
  · rw [← append_assoc]
    exact hback more left rfl hleft
  · by_cases hmore : more = []
    · subst hmore
      rw [append_nil] at hback
      have hnone := hback [] back rfl hleft
      rwa [append_nil] at hnone
    · rw [append_assoc]
      exact hfront passed more rfl hmore

theorem Quiet.head {c : α} (hquiet : rule.Quiet before (c :: front) rest) :
    ¬ rule.At before (c :: (front ++ rest)) := by
  have hnone := hquiet [] (c :: front) rfl (cons_ne_nil c front)
  rwa [append_nil] at hnone

end Rule

theorem Visits.split {start place : List α × List α} (hvis : Visits rule start place) :
    place.1 ++ place.2 = start.1 ++ start.2 := by
  induction hvis with
  | refl => rfl
  | tail _ hnxt ih =>
    rw [← ih]
    cases hnxt with
    | link htext hrule => rw [append_assoc, htext]
    | keep hnone => rw [append_assoc, singleton_append]

namespace Replaced

theorem front {kept rest : List α} (hrepd : Replaced rule before (kept ++ rest) result)
    (hquiet : rule.Quiet before kept rest) :
    ∃ result', result = kept ++ result' ∧ Replaced rule (before ++ kept) rest result' := by
  induction kept generalizing before result with
  | nil => exact ⟨result, rfl, (append_nil before).symm ▸ hrepd⟩
  | cons c kept ih =>
    cases hrepd with
    | link htext hrule hrest => exact absurd ⟨_, _, _, htext, hrule⟩ hquiet.head
    | keep hnone hrest =>
      obtain ⟨result', rfl, hbeh⟩ := ih hrest hquiet.tail
      exact ⟨result', rfl, by rwa [append_assoc] at hbeh⟩

theorem unique {result' : List α} (hfun : rule.Functional) (hrepd : Replaced rule before text result)
    (hrepd' : Replaced rule before text result') : result = result' := by
  induction hrepd generalizing result' with
  | done hnone =>
    generalize hemp : ([] : List α) = text at hrepd'
    cases hrepd' with
    | done => rfl
    | link htext hrule => exact absurd ⟨_, _, _, hemp.trans htext, hrule⟩ hnone
    | keep => cases hemp
  | link htext hrule hrest ih =>
    cases hrepd' with
    | done hnone => exact absurd ⟨_, _, _, htext, hrule⟩ hnone
    | link htext' hrule' hrest' =>
      obtain ⟨rfl, rfl⟩ := hfun (htext.symm.trans htext') hrule hrule'
      obtain rfl := append_cancel_left (htext.symm.trans htext')
      rw [ih hrest']
    | keep hnone => exact absurd ⟨_, _, _, htext, hrule⟩ hnone
  | keep hnone hrest ih =>
    cases hrepd' with
    | link htext hrule => exact absurd ⟨_, _, _, htext, hrule⟩ hnone
    | keep _ hrest' => rw [ih hrest']

theorem eq_of_none (hrepd : Replaced rule before text result)
    (hnone : ∀ place, Visits rule (before, text) place → ¬ rule.At place.1 place.2) : result = text := by
  induction hrepd with
  | done => rfl
  | link htext hrule => exact absurd ⟨_, _, _, htext, hrule⟩ (hnone _ .refl)
  | keep hhere hrest ih => rw [ih fun place hvis => hnone place (hvis.head (.keep hhere))]

theorem of_agree (hrepd : Replaced rule before text result) (hagree : ∀ place, Visits other (before, text) place →
      (other.At place.1 place.2 → rule.At place.1 place.2) ∧
      ∀ matched rest new, place.2 = matched ++ rest → rule place.1 matched rest new → other place.1 matched rest new) :
    Replaced other before text result := by
  induction hrepd with
  | done hnone => exact .done fun hat => hnone ((hagree _ .refl).1 hat)
  | link htext hrule hrest ih =>
    have hoth := (hagree _ .refl).2 _ _ _ htext hrule
    exact .link htext hoth (ih fun place hvis => hagree place (hvis.head (.link htext hoth)))
  | keep hnone hrest ih =>
    have hoth := fun hat => hnone ((hagree _ .refl).1 hat)
    exact .keep hoth (ih fun place hvis => hagree place (hvis.head (.keep hoth)))

end Replaced

end EdxPlatform.Rewriting
