import EdxPlatform.Lib.Rewriting

/-!
# Regular expressions with named groups

An expression is run by backtracking: it gives all the ways to match it at the beginning of a text in the
order in which they are tried, and the first of them is the match.
-/

namespace EdxPlatform.GroupedRegex

open Rewriting (Rule Replaced)

/-- A set of characters: one, those that `.` stands for, or a class. -/
inductive CharSet where
  | char (c : Char)
  | any
  | among (chars : List Char)
  | outside (chars : List Char)
  deriving DecidableEq

def CharSet.accepts : CharSet → Char → Bool
  | .char c, d => d == c
  | .any, d => d != '\n'
  | .among chars, d => chars.contains d
  | .outside chars, d => !chars.contains d

inductive Quantifier where
  | optional
  | star
  | plus
  deriving DecidableEq

inductive Expr where
  | empty
  | one (set : CharSet)
  | append (first second : Expr)
  | repeated (quantifier : Quantifier) (lazy : Bool) (body : Expr)
  | group (name : List Char) (body : Expr)
  | same (name : List Char)
  deriving DecidableEq

def sequence (parts : List Expr) : Expr := parts.foldr .append .empty

/-! ## Running an expression -/

/-- What the groups have matched, the latest first, and the text that is left. -/
structure Progress where
  groups : List (List Char × List Char) := []
  rest : List Char
  deriving DecidableEq

namespace Progress

def group (progress : Progress) (name : List Char) : Option (List Char) := progress.groups.lookup name

def taken (earlier later : Progress) : List Char := earlier.rest.take (earlier.rest.length - later.rest.length)

def close (name : List Char) (earlier later : Progress) : Progress :=
  { later with groups := (name, earlier.taken later) :: later.groups }

end Progress

open Progress

def prefer (lazy : Bool) (stop : Progress) (others : List Progress) : List Progress :=
  if lazy then stop :: others else others ++ [stop]

def iterate (lazy : Bool) (step : Progress → List Progress) : Nat → Progress → List Progress
  | 0, progress => [progress]
  | fuel + 1, progress =>
    prefer lazy progress (((step progress).filter fun later => later.rest.length < progress.rest.length).flatMap
      (iterate lazy step fuel))

def run : Expr → Progress → List Progress
  | .empty, progress => [progress]
  | .one set, progress =>
    match progress.rest with
    | [] => []
    | c :: rest => if set.accepts c then [{ progress with rest }] else []
  | .append first second, progress => (run first progress).flatMap (run second)
  | .repeated .optional lazy body, progress => prefer lazy progress (run body progress)
  | .repeated .star lazy body, progress => iterate lazy (run body) progress.rest.length progress
  | .repeated .plus lazy body, progress =>
    (run body progress).flatMap fun later => iterate lazy (run body) later.rest.length later
  | .group name body, progress => (run body progress).map (Progress.close name progress)
  | .same name, progress =>
    match progress.group name with
    | none => []
    | some text =>
      if text <+: progress.rest then [{ progress with rest := progress.rest.drop text.length }] else []

/-- `match` at the beginning of a text. -/
def matchAt (expr : Expr) (text : List Char) : Option Progress := (run expr { rest := text }).head?

/-- `sub`: the matches are replaced from left to right.  It raises what the replacement of a match raises. -/
def sub (expr : Expr) (replacement : Progress → Option (List Char)) (text : List Char) : Option (List Char) :=
  match text with
  | [] => some []
  | c :: tail =>
    match matchAt expr (c :: tail) with
    | none => (sub expr replacement tail).map (c :: ·)
    | some last =>
      if last.rest.length < (c :: tail).length then
        (replacement last).bind fun new => (sub expr replacement last.rest).map (new ++ ·)
      else (sub expr replacement tail).map (c :: ·)
termination_by text.length
decreasing_by
  · exact Nat.lt_succ_self _
  · assumption
  · exact Nat.lt_succ_self _

/-! ## What a run does -/

section

variable {set : CharSet} {lazy : Bool} {body : Expr} {progress : Progress} {name : List Char}

section

variable (groups : List (List Char × List Char))

theorem run_one_nil : run (.one set) ⟨groups, []⟩ = [] := rfl

theorem run_one_cons (c : Char) (rest : List Char) :
    run (.one set) ⟨groups, c :: rest⟩ = if set.accepts c then [⟨groups, rest⟩] else [] := rfl

end

theorem run_star : run (.repeated .star lazy body) progress =
    iterate lazy (run body) progress.rest.length progress := rfl

theorem run_plus : run (.repeated .plus lazy body) progress =
    (run body progress).flatMap fun later => iterate lazy (run body) later.rest.length later := rfl

theorem run_group : run (.group name body) progress = (run body progress).map (close name progress) := rfl

theorem run_same : run (.same name) progress = match progress.group name with
    | none => []
    | some text =>
      if text <+: progress.rest then [{ progress with rest := progress.rest.drop text.length }] else [] := rfl

section

variable (step : Progress → List Progress)

theorem iterate_zero : iterate lazy step 0 progress = [progress] := rfl

theorem iterate_succ (fuel : Nat) : iterate lazy step (fuel + 1) progress =
    prefer lazy progress (((step progress).filter fun later => later.rest.length < progress.rest.length).flatMap
      (iterate lazy step fuel)) := rfl

end

end

variable {others : List Progress} {progress : Progress}

theorem mem_prefer {lazy : Bool} {stop : Progress} :
    progress ∈ prefer lazy stop others ↔ progress = stop ∨ progress ∈ others := by
  cases lazy
  · rw [prefer, if_neg false_ne_true, mem_append, mem_singleton, or_comm]
  · rw [prefer, if_pos rfl, mem_cons]

variable {fuel : Nat} {later : Progress}

theorem iterate_keeps (keeps : Progress → Prop) {lazy : Bool} {step : Progress → List Progress}
    (hstep : ∀ earlier after, keeps earlier → after ∈ step earlier → keeps after)
    (hprog : keeps progress) (hlat : later ∈ iterate lazy step fuel progress) : keeps later := by
  induction fuel generalizing progress with
  | zero => exact mem_singleton.mp hlat ▸ hprog
  | succ fuel ih =>
    rcases mem_prefer.mp hlat with rfl | hlat
    · exact hprog
    · obtain ⟨next, hnxt, hlat⟩ := mem_flatMap.mp hlat
      exact ih (hstep progress next hprog (mem_of_mem_filter hnxt)) hlat

theorem run_suffix {expr : Expr} (hlat : later ∈ run expr progress) : later.rest <:+ progress.rest := by
  induction expr generalizing progress later with
  | empty => exact mem_singleton.mp hlat ▸ suffix_rfl
  | one set =>
    obtain ⟨groups, text⟩ := progress
    cases text with
    | nil => cases hlat
    | cons c rest =>
      rw [run_one_cons] at hlat
      split at hlat
      · exact mem_singleton.mp hlat ▸ suffix_cons c rest
      · cases hlat
  | append first second ihFirst ihSecond =>
    obtain ⟨middle, hmid, hlat⟩ := mem_flatMap.mp hlat
    exact (ihSecond hlat).trans (ihFirst hmid)
  | repeated quantifier lazy body ih =>
    have hite : ∀ {fuel : Nat} {earlier after : Progress}, after ∈ iterate lazy (run body) fuel earlier →
        after.rest <:+ earlier.rest := by
      intro fuel earlier after haft
      exact iterate_keeps (fun between => between.rest <:+ earlier.rest)
        (fun _ _ hkept hstep => (ih hstep).trans hkept) suffix_rfl haft
    cases quantifier with
    | optional =>
      rcases mem_prefer.mp hlat with rfl | hlat
      · exact suffix_rfl
      · exact ih hlat
    | star => exact hite hlat
    | plus =>
      obtain ⟨middle, hmid, hlat⟩ := mem_flatMap.mp hlat
      exact (hite hlat).trans (ih hmid)
  | group name body ih =>
    obtain ⟨last, hlast, rfl⟩ := mem_map.mp hlat
    have hsuf : last.rest <:+ progress.rest := ih hlast
    exact hsuf
  | same name =>
    rw [run_same] at hlat
    split at hlat
    · cases hlat
    · split at hlat
      · exact mem_singleton.mp hlat ▸ List.drop_suffix _ _
      · cases hlat

theorem run_sequence_append (front back : List Expr) (progress : Progress) :
    run (sequence (front ++ back)) progress = (run (sequence front) progress).flatMap (run (sequence back)) := by
  induction front generalizing progress with
  | nil => exact (flatMap_singleton (run (sequence back)) progress).symm
  | cons part front ih =>
    have hfront : run (sequence (front ++ back)) =
        fun middle => (run (sequence front) middle).flatMap (run (sequence back)) := funext ih
    calc run (sequence (part :: front ++ back)) progress
        = (run part progress).flatMap (run (sequence (front ++ back))) := rfl
      _ = ((run part progress).flatMap (run (sequence front))).flatMap (run (sequence back)) := by
          rw [hfront, List.flatMap_assoc]

theorem mem_run_sequence_append {front back : List Expr} : later ∈ run (sequence (front ++ back)) progress ↔
      ∃ middle ∈ run (sequence front) progress, later ∈ run (sequence back) middle := by
  rw [run_sequence_append, mem_flatMap]

theorem mem_run_sequence_cons {part : Expr} {parts : List Expr} : later ∈ run (sequence (part :: parts)) progress ↔
      ∃ middle ∈ run part progress, later ∈ run (sequence parts) middle :=
  mem_flatMap

theorem run_sequence_singleton (part : Expr) (progress : Progress) :
    run (sequence [part]) progress = run part progress :=
  List.flatMap_singleton' _

variable {last : Progress}

/-- The way that is tried first is the way of the first part that is tried first, if the rest matches there. -/
theorem run_sequence_first {part : Expr} {parts : List Expr} {middle : Progress}
    {others' : List Progress} (hpart : run part progress = middle :: others)
    (hparts : run (sequence parts) middle = last :: others') :
    ∃ more, run (sequence (part :: parts)) progress = last :: more := by
  refine ⟨others' ++ others.flatMap (run (sequence parts)), ?_⟩
  calc run (sequence (part :: parts)) progress
      = (run part progress).flatMap (run (sequence parts)) := rfl
    _ = last :: (others' ++ others.flatMap (run (sequence parts))) := by
        rw [hpart, flatMap_cons, hparts, cons_append]

theorem close_append {name read rest : List Char} {groups groups' : List (List Char × List Char)} :
    (⟨groups, read ++ rest⟩ : Progress).close name ⟨groups', rest⟩ = ⟨(name, read) :: groups', rest⟩ := by
  rw [close, taken, length_append, Nat.add_sub_cancel, List.take_left]

theorem mem_run_same {name rest text : List Char} {groups groups' : List (List Char × List Char)} :
    (⟨groups', rest⟩ : Progress) ∈ run (.same name) ⟨groups, text⟩ ↔
      groups' = groups ∧ ∃ taken, groups.lookup name = some taken ∧ text = taken ++ rest := by
  rw [run_same, group]
  cases groups.lookup name with
  | none => simp
  | some taken =>
    by_cases hpre : taken <+: text
    · obtain ⟨tail, rfl⟩ := hpre
      simp [eq_comm]
    · have hne : ∀ rest, text ≠ taken ++ rest := fun rest heq => hpre (heq ▸ prefix_append taken rest)
      simp [hne, hpre]

/-! ## Repeated characters -/

variable {set : CharSet} {groups groups' : List (List Char × List Char)} {text rest : List Char} {lazy : Bool}

theorem mem_run_one : (⟨groups', rest⟩ : Progress) ∈ run (.one set) ⟨groups, text⟩ ↔
    groups' = groups ∧ ∃ c, set.accepts c = true ∧ text = c :: rest := by
  cases text with
  | nil => simp [run_one_nil]
  | cons d tail =>
    by_cases hacc : set.accepts d = true
    · simp only [run_one_cons, if_pos hacc, mem_singleton, mk.injEq, cons.injEq]
      constructor
      · rintro ⟨hgrps, rfl⟩
        exact ⟨hgrps, d, hacc, rfl, rfl⟩
      · rintro ⟨hgrps, c, -, -, hrest⟩
        exact ⟨hgrps, hrest.symm⟩
    · simp only [run_one_cons, if_neg hacc, not_mem_nil, false_iff, not_and, not_exists]
      rintro - c hc heq
      exact hacc ((cons.inj heq).1 ▸ hc)

theorem iterate_one_step (fuel : Nat) {c : Char} (hacc : set.accepts c = true) :
    iterate lazy (run (.one set)) (fuel + 1) ⟨groups, c :: rest⟩ =
      prefer lazy ⟨groups, c :: rest⟩ (iterate lazy (run (.one set)) fuel ⟨groups, rest⟩) := by
  simp [iterate_succ, run_one_cons, hacc]

theorem iterate_one_stop (fuel : Nat) (hnone : ∀ c ∈ text.head?, set.accepts c = false) :
    iterate lazy (run (.one set)) fuel ⟨groups, text⟩ = [⟨groups, text⟩] := by
  cases fuel with
  | zero => rfl
  | succ fuel =>
    cases text with
    | nil => cases lazy <;> rfl
    | cons c text => cases lazy <;> simp [iterate_succ, run_one_cons, hnone c rfl, prefer]

theorem mem_iterate_one : (⟨groups', rest⟩ : Progress) ∈ iterate lazy (run (.one set)) fuel ⟨groups, text⟩ ↔
      groups' = groups ∧ ∃ taken, text = taken ++ rest ∧ (∀ c ∈ taken, set.accepts c = true) ∧
        taken.length ≤ fuel := by
  induction fuel generalizing text with
  | zero =>
    rw [iterate_zero, mem_singleton, mk.injEq]
    constructor
    · rintro ⟨hgrps, rfl⟩
      exact ⟨hgrps, [], rfl, forall_mem_nil _, Nat.le_refl 0⟩
    · rintro ⟨hgrps, taken, rfl, -, hlen⟩
      rw [List.eq_nil_of_length_eq_zero (Nat.le_zero.mp hlen)]
      exact ⟨hgrps, rfl⟩
  | succ fuel ih =>
    cases text with
    | nil =>
      rw [iterate_one_stop _ (by simp), mem_singleton, mk.injEq]
      constructor
      · rintro ⟨hgrps, rfl⟩
        exact ⟨hgrps, [], rfl, forall_mem_nil _, Nat.zero_le _⟩
      · rintro ⟨hgrps, taken, hnil, -⟩
        exact ⟨hgrps, (append_eq_nil_iff.mp hnil.symm).2⟩
    | cons c text =>
      by_cases hacc : set.accepts c = true
      · rw [iterate_one_step fuel hacc, mem_prefer, ih, mk.injEq]
        constructor
        · rintro (⟨hgrps, rfl⟩ | ⟨hgrps, taken, rfl, htaken, hlen⟩)
          · exact ⟨hgrps, [], rfl, forall_mem_nil _, Nat.zero_le _⟩
          · exact ⟨hgrps, c :: taken, rfl, forall_mem_cons.mpr ⟨hacc, htaken⟩, Nat.succ_le_succ hlen⟩
        · rintro ⟨hgrps, taken, htext, htaken, hlen⟩
          cases taken with
          | nil => exact .inl ⟨hgrps, htext.symm⟩
          | cons d taken =>
            obtain ⟨rfl, rfl⟩ := cons.inj htext
            exact .inr ⟨hgrps, taken, rfl, (forall_mem_cons.mp htaken).2, Nat.le_of_succ_le_succ hlen⟩
      · rw [iterate_one_stop _ (by simpa using hacc), mem_singleton, mk.injEq]
        constructor
        · rintro ⟨hgrps, rfl⟩
          exact ⟨hgrps, [], rfl, forall_mem_nil _, Nat.zero_le _⟩
        · rintro ⟨hgrps, taken, htext, htaken, -⟩
          cases taken with
          | nil => exact ⟨hgrps, htext.symm⟩
          | cons d taken =>
            obtain ⟨rfl, -⟩ := cons.inj htext
            exact absurd (htaken c mem_cons_self) hacc

theorem mem_run_star : (⟨groups', rest⟩ : Progress) ∈ run (.repeated .star lazy (.one set)) ⟨groups, text⟩ ↔
    groups' = groups ∧ ∃ taken, text = taken ++ rest ∧ ∀ c ∈ taken, set.accepts c = true := by
  rw [run_star, mem_iterate_one]
  refine and_congr_right fun _ => exists_congr fun taken => and_congr_right fun htext => and_iff_left ?_
  exact htext ▸ length_append ▸ Nat.le_add_right _ _

theorem mem_run_plus : (⟨groups', rest⟩ : Progress) ∈ run (.repeated .plus lazy (.one set)) ⟨groups, text⟩ ↔
    groups' = groups ∧ ∃ taken, taken ≠ [] ∧ text = taken ++ rest ∧ ∀ c ∈ taken, set.accepts c = true := by
  rw [run_plus, mem_flatMap]
  constructor
  · rintro ⟨⟨between, middle⟩, hmid, hlat⟩
    obtain ⟨rfl, c, hc, rfl⟩ := mem_run_one.mp hmid
    obtain ⟨hgrps, taken, rfl, htaken, -⟩ := mem_iterate_one.mp hlat
    exact ⟨hgrps, c :: taken, cons_ne_nil c taken, rfl, forall_mem_cons.mpr ⟨hc, htaken⟩⟩
  · rintro ⟨rfl, taken, hne, rfl, htaken⟩
    obtain ⟨c, taken, rfl⟩ := exists_cons_of_ne_nil hne
    obtain ⟨hc, htaken⟩ := forall_mem_cons.mp htaken
    refine ⟨⟨groups', taken ++ rest⟩, mem_run_one.mpr ⟨rfl, c, hc, rfl⟩, mem_iterate_one.mpr ?_⟩
    exact ⟨rfl, taken, rfl, htaken, length_append ▸ Nat.le_add_right _ _⟩

section

variable (set : CharSet) (groups : List (List Char × List Char))

theorem iterate_greedy {taken : List Char}
    (htaken : ∀ c ∈ taken, set.accepts c = true) (hrest : ∀ c ∈ rest.head?, set.accepts c = false)
    (hfuel : taken.length ≤ fuel) :
    ∃ others, iterate false (run (.one set)) fuel ⟨groups, taken ++ rest⟩ = ⟨groups, rest⟩ :: others := by
  induction taken generalizing fuel with
  | nil => exact ⟨[], iterate_one_stop fuel hrest⟩
  | cons c taken ih =>
    obtain ⟨hc, htaken⟩ := forall_mem_cons.mp htaken
    cases fuel with
    | zero => cases hfuel
    | succ fuel =>
      obtain ⟨others, hoths⟩ := ih htaken (Nat.le_of_succ_le_succ hfuel)
      rw [cons_append, iterate_one_step fuel hc, hoths]
      exact ⟨others ++ [⟨groups, c :: (taken ++ rest)⟩], rfl⟩

theorem iterate_lazy {taken rest : List Char} (follow : Progress → List Progress)
    (htaken : ∀ c ∈ taken, set.accepts c = true)
    (hshort : ∀ front back, taken = front ++ back → back ≠ [] → follow ⟨groups, back ++ rest⟩ = [])
    (hfol : follow ⟨groups, rest⟩ = last :: others) (hfuel : taken.length ≤ fuel) :
    ∃ more, (iterate true (run (.one set)) fuel ⟨groups, taken ++ rest⟩).flatMap follow = last :: more := by
  induction taken generalizing fuel with
  | nil =>
    cases fuel with
    | zero => exact ⟨others, (flatMap_singleton follow _).trans hfol⟩
    | succ fuel =>
      rw [iterate_succ, prefer, if_pos rfl, flatMap_cons, nil_append, hfol, cons_append]
      exact ⟨_, rfl⟩
  | cons c taken ih =>
    obtain ⟨hc, htaken⟩ := forall_mem_cons.mp htaken
    cases fuel with
    | zero => cases hfuel
    | succ fuel =>
      have hnone := hshort [] (c :: taken) rfl (cons_ne_nil c taken)
      rw [cons_append, iterate_one_step fuel hc, prefer, if_pos rfl, flatMap_cons, ← cons_append, hnone, nil_append]
      exact ih htaken (fun front back hback => hshort (c :: front) back (congrArg (c :: ·) hback))
        (Nat.le_of_succ_le_succ hfuel)

end

def replacing (expr : Expr) (replacement : Progress → Option (List Char)) : Rule Char :=
  fun _ matched rest new =>
    ∃ last, matchAt expr (matched ++ rest) = some last ∧ last.rest = rest ∧ replacement last = some new

variable {expr : Expr} {replacement : Progress → Option (List Char)}

theorem replacing_functional : (replacing expr replacement).Functional := by
  rintro before matched rest new matched' rest' new' htext ⟨last, hmat, rfl, hnew⟩ ⟨last', hmat', rfl, hnew'⟩
  obtain rfl := some.inj (hmat.symm.trans (htext ▸ hmat'))
  exact ⟨List.append_cancel_right htext, some_unique hnew hnew'⟩

theorem replacing_at (before : List Char) {new : List Char}
    (hmat : matchAt expr text = some last) (hnew : replacement last = some new) :
    ∃ matched, text = matched ++ last.rest ∧ replacing expr replacement before matched last.rest new := by
  obtain ⟨matched, hmatc⟩ := run_suffix (mem_of_mem_head? hmat)
  exact ⟨matched, hmatc.symm, last, by rw [hmatc]; exact hmat, rfl, hnew⟩

/-- A substitution replaces the matches from left to right, when they are not empty and have replacements. -/
theorem sub_replaced (hshor : ∀ text last, matchAt expr text = some last → last.rest.length < text.length)
    (hnew : ∀ text last, matchAt expr text = some last → ∃ new, replacement last = some new)
    (before text : List Char) :
    ∃ result, sub expr replacement text = some result ∧ Replaced (replacing expr replacement) before text result := by
  induction hlen : text.length using Nat.strongRecOn generalizing before text with
  | ind length ih =>
    subst hlen
    have hnone : matchAt expr text = none → ¬ (replacing expr replacement).At before text := by
      rintro hnone ⟨matched, rest, new, rfl, last, hmat, -⟩
      cases hnone.symm.trans hmat
    cases text with
    | nil =>
      refine ⟨[], sub.eq_1 expr replacement, .done (hnone ?_)⟩
      cases hmat : matchAt expr [] with
      | none => rfl
      | some last => exact absurd (hshor [] last hmat) (Nat.not_lt_zero _)
    | cons c tail =>
      rw [sub]
      cases hmat : matchAt expr (c :: tail) with
      | none =>
        obtain ⟨result, hres, hrepd⟩ := ih tail.length (lt_succ_self _) (before ++ [c]) tail rfl
        exact ⟨c :: result, congrArg (Option.map (c :: ·)) hres, .keep (hnone hmat) hrepd⟩
      | some last =>
        have hlast := hshor _ last hmat
        obtain ⟨new, hsome⟩ := hnew _ last hmat
        obtain ⟨matched, htext, hrule⟩ := replacing_at before hmat hsome
        obtain ⟨result, hres, hrepd⟩ := ih last.rest.length hlast (before ++ matched) last.rest rfl
        refine ⟨new ++ result, ?_, .link htext hrule hrepd⟩
        simp only [if_pos hlast, hsome, hres, bind_some, map_some]

theorem sub_raises (hrais : ∀ text last, matchAt expr text = some last → replacement last = none)
    (text : List Char) : sub expr replacement text = none ∨ sub expr replacement text = some text := by
  induction text with
  | nil => exact .inr (sub.eq_1 expr replacement)
  | cons c tail ih =>
    have htail : (sub expr replacement tail).map (c :: ·) = none ∨
        (sub expr replacement tail).map (c :: ·) = some (c :: tail) := by
      rcases ih with hnone | hsome
      · exact .inl (by rw [hnone, map_none])
      · exact .inr (by rw [hsome, map_some])
    rw [sub]
    cases hmat : matchAt expr (c :: tail) with
    | none => exact htail
    | some last =>
      simp only [hrais _ last hmat, bind_none]
      split
      · exact .inl rfl
      · exact htail

end EdxPlatform.GroupedRegex
