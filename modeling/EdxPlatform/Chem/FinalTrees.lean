import EdxPlatform.Chem.Chemcalc
import EdxPlatform.Lib.ShortNames

/-!
# What is left of a parse tree

The merged and cleaned tree of each production, and what `divide_chemical_expression` finds in it.
-/

namespace EdxPlatform.Chem

/-! ## Merging a chain -/

variable {tags : List String}

theorem isMerged_of_label_ne {label : String} {child : Tree} (hne : child.label ≠ label) :
    isMerged tags label child = false := by
  cases child with
  | leaf text => rfl
  | node other below => simp [isMerged, show other ≠ label from hne]

theorem isMerged_of_notMem {label : String} (hnot : label ∉ tags) (child : Tree) :
    isMerged tags label child = false := by
  cases child with
  | leaf text => rfl
  | node other below => simp [isMerged, hnot]

variable {children : List Tree}

theorem mergeLevel_plain {label : String} (hplain : ∀ child ∈ children, isMerged tags label child = false) :
    mergeLevel tags label children = children := by
  rw [mergeLevel, if_neg]
  simpa using hplain

theorem spliceChildren_append (tags : List String) (label : String) (trees others : List Tree) :
    spliceChildren tags label (trees ++ others) = spliceChildren tags label trees ++ spliceChildren tags label others :=
  flatMap_append

theorem spliceChildren_plain {label : String} (hplain : ∀ child ∈ children, isMerged tags label child = false) :
    spliceChildren tags label children = children := by
  induction children with
  | nil => rfl
  | cons child children ih =>
    rw [forall_mem_cons] at hplain
    rw [spliceChildren, flatMap_cons, if_neg (by simp [hplain.1]), ← spliceChildren, ih hplain.2]
    rfl

variable {first : List Tree}

section

variable {label : String}

theorem mergeLevel_append (hplain : ∀ child ∈ first, isMerged tags label child = false) (children : List Tree) :
    mergeLevel tags label (first ++ children) = first ++ mergeLevel tags label children := by
  have hany (others : List Tree) : (first ++ others).any (isMerged tags label) = others.any (isMerged tags label) := by
    rw [List.any_append, any_eq_false.mpr fun child hch => by simp [hplain child hch], Bool.false_or]
  induction children using mergeLevel.induct tags label with
  | case1 children hmgd ih =>
    rw [mergeLevel, if_pos (by rw [hany, hmgd]), spliceChildren_append, spliceChildren_plain hplain, ih]
    conv => rhs; rw [mergeLevel, if_pos hmgd]
  | case2 children hmgd => rw [mergeLevel, if_neg (by rw [hany]; exact hmgd), mergeLevel, if_neg hmgd]

theorem mergeChildren_plain (hplain : ∀ child ∈ children, isMerged tags label child = false) :
    mergeChildren tags (.node label children) = .node label (children.map (mergeChildren tags)) := by
  rw [mergeChildren_node, mergeLevel_plain hplain]

theorem mergeChildren_chain (hlabel : label ∈ tags)
    (hplain : ∀ child ∈ first, isMerged tags label child = false) (children : List Tree) :
    mergeChildren tags (.node label (first ++ [.node label children])) =
      .node label (first.map (mergeChildren tags) ++ (mergeChildren tags (.node label children)).children) := by
  have hmgd : isMerged tags label (.node label children) = true := by simp [isMerged, hlabel]
  have hsplice : spliceChildren tags label [.node label children] = children := by
    rw [spliceChildren, flatMap_singleton, if_pos hmgd]
    rfl
  rw [mergeChildren_node, mergeLevel, if_pos (by simp [hmgd]), spliceChildren_append, spliceChildren_plain hplain,
    hsplice, mergeLevel_append hplain, map_append, mergeChildren_node]
  rfl

theorem label_mergeChildren (tags : List String) (tree : Tree) : (mergeChildren tags tree).label = tree.label := by
  cases tree with
  | leaf text => rw [mergeChildren]
  | node label children =>
    rw [mergeChildren_node]
    rfl

theorem cleanFrom_of_label_ne {old : String} {tree : Tree} (hne : tree.label ≠ old) :
    cleanFrom (some old) tree = cleanParseTree tree := by
  rw [cleanParseTree]
  cases tree with
  | leaf text => rw [cleanFrom, cleanFrom]
  | node label children =>
    have hlabel : some label ≠ some old := fun heq => hne (some.inj heq)
    rw [cleanFrom_node, cleanFrom_node]
    simp only [hlabel, ne_eq, not_false_eq_true, and_true, reduceCtorEq]

theorem cleanParseTree_node (hnot : label ∉ dispatched) (children : List Tree) :
    cleanParseTree (.node label children) = .node label (children.map cleanParseTree) := by
  rw [cleanParseTree, cleanFrom_node, if_neg fun h => hnot h.1]
  rfl

theorem cleanParseTree_same (hmem : label ∈ dispatched) {below : List Tree}
    (hdisp : dispatch (.node label children) = .node label below) :
    cleanParseTree (.node label children) = .node label (below.map cleanParseTree) := by
  rw [cleanParseTree, cleanFrom_node, if_pos ⟨hmem, by simp⟩, hdisp, cleanFrom_node, if_neg fun h => h.2 rfl]
  rfl

theorem cleanParseTree_child (hmem : label ∈ dispatched) {child : Tree}
    (hdisp : dispatch (.node label children) = child) (hne : child.label ≠ label) :
    cleanParseTree (.node label children) = cleanParseTree child := by
  rw [cleanParseTree, cleanFrom_node, if_pos ⟨hmem, by simp⟩, hdisp, cleanFrom_of_label_ne hne]

end

theorem cleanParseTree_leaf (text : String) : cleanParseTree (.leaf text) = .leaf text := by
  rw [cleanParseTree, cleanFrom]

/-! ## The final tree -/

def Nonterminal.label : Nonterminal → String
  | .S => "S"
  | .multimolecule => "multimolecule"
  | .count => "count"
  | .molecule => "molecule"
  | .unphased => "unphased"
  | .element => "element"
  | .digit => "digit"
  | .phase => "phase"
  | .number => "number"
  | .group => "group"
  | .parenGroupRound => "paren_group_round"
  | .parenGroupSquare => "paren_group_square"
  | .plusMinus => "plus_minus"
  | .numberSuffix => "number_suffix"
  | .ionSuffix => "ion_suffix"
  | .suffix => "suffix"
  | .unsuffixed => "unsuffixed"
  | .suffixed => "suffixed"

namespace Parse

variable {nonterminal : Nonterminal}

section

variable (parsed : Parse nonterminal)

theorem label_toTree : parsed.toTree.label = nonterminal.label := by
  cases parsed <;> rfl

def digitText : Parse .digit → String
  | .digit text _ => text

def numberText : Parse .number → String
  | .lastDigit first => first.digitText
  | .moreDigits first rest => first.digitText ++ rest.numberText

def firstDigit : Parse .number → String
  | .lastDigit first => first.digitText
  | .moreDigits first _ => first.digitText

def final : {nonterminal : Nonterminal} → Parse nonterminal → Tree
  | _, .last first => .node "S" [first.final]
  | _, .more first rest => .node "S" (first.final :: .leaf "+" :: rest.final.children)
  | _, .counted first second => .node "multimolecule" [first.final, second.final]
  | _, .uncounted first => .node "multimolecule" [first.final]
  | _, .whole first => .node "count" [first.final]
  | _, .fraction first second => .node "count" [first.final, .leaf "/", second.final]
  | _, .unphased first => .node "molecule" [first.final]
  | _, .phased first second => .node "molecule" [first.final, second.final]
  | _, .ofGroup first => first.final
  | _, .ofRound first => first.final
  | _, .ofSquare first => first.final
  | _, .element text _ => .node "element" [.leaf text]
  | _, .digit text _ => .node "digit" [.leaf text]
  | _, .phase text _ => .node "phase" [.leaf text]
  | _, .lastDigit first => .node "number" [.leaf (numberText (.lastDigit first))]
  | _, .moreDigits first second => .node "number" [.leaf (numberText (.moreDigits first second))]
  | _, .lastMember first => .node "group" [first.final]
  | _, .moreMembers first rest => .node "group" (first.final :: rest.final.children)
  | _, .round first => .node "paren_group_round" first.final.children
  | _, .square first => .node "paren_group_square" first.final.children
  | _, .plus => .node "plus_minus" [.leaf "+"]
  | _, .minus => .node "plus_minus" [.leaf "-"]
  | _, .subscript first => .node "number_suffix" [.leaf first.numberText]
  | _, .charge first second =>
    .node "ion_suffix" (if first.firstDigit = "1" then [second.final] else [first.final, second.final])
  | _, .sign first => .node "ion_suffix" [first.final]
  | _, .ofNumber first => .node "suffix" [first.final]
  | _, .ofBoth first second => .node "suffix" [first.final, second.final]
  | _, .ofIon first => .node "suffix" [first.final]
  | _, .baseElement first => first.final
  | _, .baseRound first => first.final
  | _, .baseSquare first => first.final
  | _, .base first => first.final
  | _, .suffixed first second => .node "suffixed" [first.final, second.final]

def merged : Tree := mergeChildren mergedTags parsed.toTree

theorem label_merged : parsed.merged.label = nonterminal.label := by
  rw [merged, label_mergeChildren, label_toTree]

theorem isMerged_toTree {label : String} (parsed : Parse nonterminal) (hne : nonterminal.label ≠ label) :
    isMerged mergedTags label parsed.toTree = false :=
  isMerged_of_label_ne (by rwa [label_toTree])

section

variable (first : Parse .digit)

theorem merged_digit : first.merged = .node "digit" [.leaf first.digitText] := by
  cases first with
  | digit text hmem =>
    rw [merged, toTree, mergeChildren_plain fun child _ => isMerged_of_notMem (by decide) child, map_singleton,
      mergeChildren]
    rfl

theorem merged_lastDigit : (lastDigit first).merged = .node "number" [.node "digit" [.leaf first.digitText]] := by
  rw [merged, toTree, mergeChildren_plain fun child _ => isMerged_of_notMem (by decide) child, map_singleton,
    ← merged, merged_digit]

theorem merged_moreDigits (rest : Parse .number) :
    (moreDigits first rest).merged = .node "number" [.node "digit" [.leaf first.digitText], rest.merged] := by
  rw [merged, toTree, mergeChildren_plain fun child _ => isMerged_of_notMem (by decide) child, map_cons,
    map_singleton, ← merged, ← merged, merged_digit]

end

theorem unparseNumber_merged (number : Parse .number) : unparseNumber number.merged = number.numberText := by
  cases number with
  | lastDigit first => rw [merged_lastDigit, unparseNumber, numberText, Tree.text]
  | moreDigits first rest => rw [merged_moreDigits, unparseNumber, numberText, Tree.text, unparseNumber_merged rest]

theorem firstDigit_merged (number : Parse .number) : (number.merged.child 0).text = number.firstDigit := by
  cases number with
  | lastDigit first =>
    rw [merged_lastDigit, firstDigit]
    rfl
  | moreDigits first rest =>
    rw [merged_moreDigits, firstDigit]
    rfl

theorem toTree_eq : parsed.toTree = .node nonterminal.label parsed.toTree.children := by
  cases parsed <;> rfl

theorem merged_eq : parsed.merged = .node nonterminal.label parsed.merged.children := by
  rw [merged, toTree_eq, mergeChildren_node]
  rfl

theorem cleanParseTree_merge_plain {label : String} {children : List Tree}
    (hplain : ∀ child ∈ children, isMerged mergedTags label child = false) (hnot : label ∉ dispatched) :
    cleanParseTree (mergeChildren mergedTags (.node label children)) =
      .node label (children.map fun child => cleanParseTree (mergeChildren mergedTags child)) := by
  rw [mergeChildren_plain hplain, cleanParseTree_node hnot, map_map]
  rfl

theorem cleanParseTree_merge_node {label : String} (htag : label ∉ mergedTags) (hnot : label ∉ dispatched)
    (children : List Tree) :
    cleanParseTree (mergeChildren mergedTags (.node label children)) =
      .node label (children.map fun child => cleanParseTree (mergeChildren mergedTags child)) :=
  cleanParseTree_merge_plain (fun child _ => isMerged_of_notMem htag child) hnot

theorem cleanParseTree_merge_only {label : String} (htag : label ∉ mergedTags) (hmem : label ∈ dispatched)
    (parsed : Parse nonterminal) (hne : nonterminal.label ≠ label)
    (hdisp : dispatch (.node label [parsed.merged]) = parsed.merged) :
    cleanParseTree (mergeChildren mergedTags (.node label [parsed.toTree])) = cleanParseTree parsed.merged := by
  rw [mergeChildren_plain fun child _ => isMerged_of_notMem htag child, map_singleton, ← merged,
    cleanParseTree_child hmem hdisp (by rwa [label_merged])]

theorem map_cleanParseTree_children (hnot : nonterminal.label ∉ dispatched)
    (hclean : cleanParseTree parsed.merged = parsed.final) :
    parsed.merged.children.map cleanParseTree = parsed.final.children := by
  rw [← hclean, merged_eq, cleanParseTree_node hnot]
  rfl

theorem cleanParseTree_merge_chain (label : String) (htag : label ∈ mergedTags) (hnot : label ∉ dispatched)
    {first : List Tree} (hplain : ∀ child ∈ first, isMerged mergedTags label child = false)
    (rest : Parse nonterminal) (hlabel : nonterminal.label = label)
    (hrest : cleanParseTree rest.merged = rest.final) :
    cleanParseTree (mergeChildren mergedTags (.node label (first ++ [rest.toTree]))) = .node label
        ((first.map fun child => cleanParseTree (mergeChildren mergedTags child)) ++ rest.final.children) := by
  rw [toTree_eq rest, hlabel, mergeChildren_chain htag hplain, cleanParseTree_node hnot, map_append,
    map_map, ← map_cleanParseTree_children rest (by rwa [hlabel]) hrest, ← hlabel, ← toTree_eq, merged]
  rfl

theorem merge_leaf (text : String) : mergeChildren mergedTags (.leaf text) = .leaf text := by
  rw [mergeChildren]

theorem cleanParseTree_number (number : Parse .number) :
    cleanParseTree number.merged = .node "number" [.leaf number.numberText] := by
  have hdisp : dispatch number.merged = .node "number" [.leaf number.numberText] := by
    rw [dispatch, if_pos (show number.merged.label = "number" from label_merged number), unparseNumber_merged]
  rw [merged_eq] at hdisp ⊢
  rw [cleanParseTree_same (by decide) hdisp, map_singleton, cleanParseTree_leaf]
  rfl

theorem merge_node {label : String} (htag : label ∉ mergedTags) (children : List Tree) :
    mergeChildren mergedTags (.node label children) = .node label (children.map (mergeChildren mergedTags)) :=
  mergeChildren_plain fun child _ => isMerged_of_notMem htag child

theorem withoutOne_charge (number : Parse .number) (sign : Parse .plusMinus) :
    withoutOne [number.merged, sign.merged] =
      if number.firstDigit = "1" then [sign.merged] else [number.merged, sign.merged] := by
  rw [withoutOne, label_merged, firstDigit_merged]
  simp only [Nonterminal.label, true_and]

theorem withoutOne_sign (sign : Parse .plusMinus) : withoutOne [sign.merged] = [sign.merged] := by
  rw [withoutOne, label_merged, if_neg fun h => absurd h.1 (by decide)]

theorem cleanParseTree_merged : cleanParseTree parsed.merged = parsed.final := by
  induction parsed with
  | last first ih | lastMember first ih =>
    rw [merged, toTree, cleanParseTree_merge_plain _ (by decide), map_singleton, ← merged, ih]
    · rfl
    · rw [List.forall_mem_singleton]
      exact isMerged_toTree first (by decide)
  | more first rest ih ihRest =>
    have hspl : [first.toTree, .leaf "+", rest.toTree] = [first.toTree, .leaf "+"] ++ [rest.toTree] := rfl
    rw [merged, toTree, hspl, cleanParseTree_merge_chain "S" (by decide) (by decide) _ rest rfl ihRest,
      map_cons, map_singleton, ← merged, ih, merge_leaf, cleanParseTree_leaf]
    · rfl
    · simp only [forall_mem_cons, not_mem_nil, false_imp_iff, implies_true, and_true]
      exact ⟨isMerged_toTree first (by decide), rfl⟩
  | moreMembers member rest ih ihRest =>
    have hspl : [member.toTree, rest.toTree] = [member.toTree] ++ [rest.toTree] := rfl
    rw [merged, toTree, hspl, cleanParseTree_merge_chain "group" (by decide) (by decide) _ rest rfl ihRest,
      map_singleton, ← merged, ih]
    · rfl
    · rw [List.forall_mem_singleton]
      exact isMerged_toTree member (by decide)
  | lastDigit digit => exact cleanParseTree_number _
  | moreDigits digit rest => exact cleanParseTree_number _
  | counted count molecule ihCount ih =>
    rw [merged, toTree, cleanParseTree_merge_node (by decide) (by decide), map_cons, map_singleton, ← merged,
      ← merged, ihCount, ih]
    rfl
  | uncounted molecule ih =>
    rw [merged, toTree, cleanParseTree_merge_node (by decide) (by decide), map_singleton, ← merged, ih]
    rfl
  | whole number ih =>
    rw [merged, toTree, cleanParseTree_merge_node (by decide) (by decide), map_singleton, ← merged, ih]
    rfl
  | fraction numerator denominator ihNumerator ihDenominator =>
    rw [merged, toTree, cleanParseTree_merge_node (by decide) (by decide), map_cons, map_cons,
      map_singleton, ← merged, ← merged, ihNumerator, ihDenominator, merge_leaf, cleanParseTree_leaf]
    rfl
  | unphased molecule ih =>
    rw [merged, toTree, cleanParseTree_merge_node (by decide) (by decide), map_singleton, ← merged, ih]
    rfl
  | phased molecule phase ih ihPhase =>
    rw [merged, toTree, cleanParseTree_merge_node (by decide) (by decide), map_cons, map_singleton, ← merged,
      ← merged, ih, ihPhase]
    rfl
  | ofGroup group ih | ofRound group ih | ofSquare group ih | baseElement element ih | baseRound group ih
  | baseSquare group ih | base base ih =>
    rw [merged, toTree, cleanParseTree_merge_only (by decide) (by decide) _ (by decide) rfl, ih]
    rfl
  | element text hmem | digit text hmem | phase text hmem | plus | minus =>
    rw [merged, toTree, cleanParseTree_merge_node (by decide) (by decide), map_singleton, merge_leaf,
      cleanParseTree_leaf]
    rfl
  | round group ih | square group ih =>
    rw [merged, toTree, merge_node (by decide), map_cons, map_cons, map_singleton, merge_leaf,
      merge_leaf, ← merged, cleanParseTree_same (by decide) rfl, final,
        ← map_cleanParseTree_children group (by decide) ih]
    rfl
  | subscript number ih =>
    have hdisp : dispatch (.node "number_suffix" [number.merged]) =
        .node "number_suffix" [.leaf number.numberText] := by
      rw [← unparseNumber_merged]
      rfl
    rw [merged, toTree, merge_node (by decide), map_singleton, ← merged,
      cleanParseTree_same (by decide) hdisp, map_singleton, cleanParseTree_leaf]
    rfl
  | charge number sign ihNumber ih =>
    have hdisp : dispatch (.node "ion_suffix" [.leaf "^", number.merged, sign.merged]) =
        .node "ion_suffix" (if number.firstDigit = "1" then [sign.merged] else [number.merged, sign.merged]) := by
      rw [← withoutOne_charge]
      rfl
    rw [merged, toTree, merge_node (by decide), map_cons, map_cons, map_singleton, merge_leaf,
      ← merged, ← merged, cleanParseTree_same (by decide) hdisp, final]
    split_ifs
    · rw [map_singleton, ih]
    · rw [map_cons, map_singleton, ihNumber, ih]
  | sign sign ih =>
    have hdisp : dispatch (.node "ion_suffix" [.leaf "^", sign.merged]) = .node "ion_suffix" [sign.merged] := by
      conv => rhs; rw [← withoutOne_sign]
      rfl
    rw [merged, toTree, merge_node (by decide), map_cons, map_singleton, merge_leaf, ← merged,
      cleanParseTree_same (by decide) hdisp, map_singleton, ih]
    rfl
  | ofNumber number ih | ofIon ion ih =>
    rw [merged, toTree, cleanParseTree_merge_node (by decide) (by decide), map_singleton, ← merged, ih]
    rfl
  | ofBoth number ion ihNumber ih =>
    rw [merged, toTree, cleanParseTree_merge_node (by decide) (by decide), map_cons, map_singleton, ← merged,
      ← merged, ihNumber, ih]
    rfl
  | suffixed base suffix ihBase ih =>
    rw [merged, toTree, merge_node (by decide), map_cons, map_singleton, ← merged, ← merged,
      cleanParseTree_same (by decide) rfl, map_cons, map_singleton, ihBase, ih]
    rfl

end

end Parse

end EdxPlatform.Chem
