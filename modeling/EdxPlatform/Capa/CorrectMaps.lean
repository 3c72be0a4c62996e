import EdxPlatform.Lib.DisjointDicts
import EdxPlatform.Lib.Python

/-!
# Correct maps that are combined and stored

The results of the responders of a problem are combined into one correct map, which is stored
between requests as a dictionary of its entries.
-/

namespace EdxPlatform.StoredMaps

open Dict

/-- The properties of an entry of a correct map. -/
inductive Property where
  | correctness
  | npoints
  | msg
  | hint
  | hintmode
  | queuestate
  | answervariable
  deriving DecidableEq, Repr

/-- An entry has the properties that `set` writes; one that `set_property` creates has only those
that were set. -/
abbrev Entry := Property → Option Json

structure CorrectMap where
  cmap : Dict String Entry := ∅
  overallMessage : String := ""

/-- A dictionary from which a correct map is restored; old ones have no entries but marks. -/
inductive StoredMap where
  | entries (correctMap : Dict String Entry)
  | marks (correctMap : Dict String Json)

/-- The default of a property that `set` is not given. -/
def default : Property → Json
  | .msg | .hint => .string ""
  | _ => .null

/-- The entry that `set` writes. -/
def Entry.filled (properties : Entry) : Entry :=
  fun property => some ((properties property).getD (default property))

namespace CorrectMap

/-- `set`, with the properties that it is given. -/
def set (answerId : String) (properties : Entry) (map : CorrectMap) : CorrectMap :=
  { map with cmap := map.cmap.insert answerId properties.filled }

def setProperty (answerId : String) (property : Property) (value : Json) (map : CorrectMap) :
    CorrectMap :=
  let entry := (map.cmap.lookup answerId).getD fun _ => none
  { map with cmap := map.cmap.insert answerId (Function.update entry property (some value)) }

def getDict (map : CorrectMap) : StoredMap := .entries map.cmap

/-- `set_dict`, which starts with an empty map. -/
def setDict : StoredMap → CorrectMap
  | .marks correctMap => correctMap.entries.foldl (fun map entry =>
    map.set entry.1 (Function.update (fun _ => none) .correctness (some entry.2))) {}
  | .entries correctMap => correctMap.entries.foldl (fun map entry => map.set entry.1 entry.2) {}

def update (map other : CorrectMap) : CorrectMap where
  cmap := map.cmap.update other.cmap
  overallMessage := other.overallMessage

/-- Equal as dictionaries, with the same overall message. -/
structure Same (map other : CorrectMap) : Prop where
  entries : ∀ answerId, map.cmap.lookup answerId = other.cmap.lookup answerId
  overallMessage : map.overallMessage = other.overallMessage

def Complete (map : CorrectMap) : Prop :=
  ∀ answerId entry, map.cmap.lookup answerId = some entry → ∀ property, (entry property).isSome

end CorrectMap

/-- `evaluate_answers` of a response, on the answers and the old correct map. -/
abbrev Responder := Dict String String → CorrectMap → CorrectMap

/-- `_grade_answers` -/
def gradeAnswers (responders : List Responder) (studentAnswers : Dict String String)
    (oldcmap : CorrectMap) : CorrectMap :=
  responders.foldl (fun newcmap responder => newcmap.update (responder studentAnswers oldcmap)) {}

/-- `update_score`, by the changes that the responses make of a copy. -/
def updateScore (updates : List (CorrectMap → CorrectMap)) (correctMap : CorrectMap) : CorrectMap :=
  let cmap := updates.foldl (fun cmap update => update cmap) (({} : CorrectMap).update correctMap)
  .setDict cmap.getDict

theorem Entry.filled_eq_iff (entry : Entry) : entry.filled = entry ↔ ∀ property, (entry property).isSome := by
  constructor
  · intro hfil property
    rw [← hfil]
    rfl
  · intro hsome
    funext property
    obtain ⟨value, hval⟩ := isSome_iff_exists.mp (hsome property)
    simp only [Entry.filled, hval, getD_some]

namespace CorrectMap

theorem lookup_set (answerId : String) (properties : Entry) (map : CorrectMap) (other : String) :
    (map.set answerId properties).cmap.lookup other =
      if other = answerId then some properties.filled else map.cmap.lookup other :=
  lookup_insert answerId other properties.filled map.cmap

theorem complete_empty : Complete {} := by
  intro answerId entry hent
  cases hent

theorem Complete.set {map : CorrectMap} (hcom : map.Complete) (answerId : String)
    (properties : Entry) : (map.set answerId properties).Complete := by
  intro other entry hent
  rw [lookup_set] at hent
  split at hent
  · obtain rfl := some.inj hent
    exact fun property => rfl
  · exact hcom other entry hent

theorem foldl_set (entries : List (Sigma fun _ : String => Entry)) (map : CorrectMap) :
    entries.foldl (fun map entry => map.set entry.1 entry.2) map =
      { map with cmap := entries.foldl (fun cmap entry => cmap.insert entry.1 entry.2.filled) map.cmap } := by
  induction entries generalizing map with
  | nil => rfl
  | cons entry entries ih => exact ih _

theorem setDict_getDict (map : CorrectMap) : (setDict map.getDict).overallMessage = "" ∧
      ∀ answerId, (setDict map.getDict).cmap.lookup answerId = (map.cmap.lookup answerId).map Entry.filled := by
  have hfold := foldl_set map.cmap.entries {}
  refine ⟨congrArg CorrectMap.overallMessage hfold, fun answerId => ?_⟩
  rw [← lookup_ofList_map, ofList, List.foldl_map]
  exact congrArg (fun restored => restored.cmap.lookup answerId) hfold

/-- A map that is stored and restored is the same just if its entries are complete and it has no
overall message. -/
theorem same_setDict_getDict_iff (map : CorrectMap) :
    (setDict map.getDict).Same map ↔ map.Complete ∧ map.overallMessage = "" := by
  obtain ⟨hmes, hlook⟩ := map.setDict_getDict
  constructor
  · rintro ⟨hents, hove⟩
    refine ⟨fun answerId entry hent => ?_, hove.symm.trans hmes⟩
    have hfil := hents answerId
    rw [hlook, hent, map_some] at hfil
    exact entry.filled_eq_iff.mp (some.inj hfil)
  · rintro ⟨hcom, hove⟩
    refine ⟨fun answerId => ?_, hmes.trans hove.symm⟩
    rw [hlook]
    cases hent : map.cmap.lookup answerId with
    | none => rfl
    | some entry => rw [map_some, entry.filled_eq_iff.mpr (hcom answerId entry hent)]

end CorrectMap

/-! ## Combined results -/

section Grading

variable {responders : List Responder} {studentAnswers : Dict String String} {oldcmap : CorrectMap}

section

variable (responders : List Responder) (studentAnswers : Dict String String) (oldcmap : CorrectMap)

def results : List CorrectMap := responders.map fun responder => responder studentAnswers oldcmap

def DisjointResults : Prop := PairwiseDisjoint ((results responders studentAnswers oldcmap).map CorrectMap.cmap)

end

/-- The combined map has what each responder answers, in any order of the responders, and it can be
stored. -/
structure Combines (responders : List Responder) (studentAnswers : Dict String String)
    (oldcmap : CorrectMap) : Prop where
  entries : ∀ result ∈ results responders studentAnswers oldcmap, ∀ answerId entry,
    result.cmap.lookup answerId = some entry →
      (gradeAnswers responders studentAnswers oldcmap).cmap.lookup answerId = some entry
  message : (∃ result ∈ results responders studentAnswers oldcmap, result.overallMessage ≠ "") →
    ∃ result ∈ results responders studentAnswers oldcmap, result.overallMessage ≠ "" ∧
      (gradeAnswers responders studentAnswers oldcmap).overallMessage = result.overallMessage
  order : ∀ others, responders.Perm others →
    (gradeAnswers others studentAnswers oldcmap).Same (gradeAnswers responders studentAnswers oldcmap)
  stored : (CorrectMap.setDict (gradeAnswers responders studentAnswers oldcmap).getDict).Same
    (gradeAnswers responders studentAnswers oldcmap)

theorem cmap_gradeAnswers (responders : List Responder) (studentAnswers : Dict String String) (oldcmap : CorrectMap) :
    (gradeAnswers responders studentAnswers oldcmap).cmap =
      Dict.updateAll ∅ ((results responders studentAnswers oldcmap).map CorrectMap.cmap) := by
  suffices h : ∀ map : CorrectMap, (responders.foldl (fun newcmap responder =>
        newcmap.update (responder studentAnswers oldcmap)) map).cmap =
      Dict.updateAll map.cmap ((results responders studentAnswers oldcmap).map CorrectMap.cmap) from h {}
  induction responders with
  | nil => exact fun map => rfl
  | cons responder responders ih => exact fun map => ih _

theorem overallMessage_gradeAnswers
    (hmsgs : ∀ result ∈ results responders studentAnswers oldcmap, result.overallMessage = "") :
    (gradeAnswers responders studentAnswers oldcmap).overallMessage = "" := by
  suffices h : ∀ map : CorrectMap, map.overallMessage = "" → (responders.foldl (fun newcmap responder =>
        newcmap.update (responder studentAnswers oldcmap)) map).overallMessage = "" from h {} rfl
  induction responders with
  | nil => exact fun map hmap => hmap
  | cons responder responders ih =>
    obtain ⟨hfst, hrest⟩ := forall_mem_cons.mp hmsgs
    exact fun map hmap => ih hrest _ hfst

theorem lookup_gradeAnswers (hdisj : DisjointResults responders studentAnswers oldcmap)
    {result : CorrectMap} (hres : result ∈ results responders studentAnswers oldcmap)
    {answerId : String} {entry : Entry} (hent : result.cmap.lookup answerId = some entry) :
    (gradeAnswers responders studentAnswers oldcmap).cmap.lookup answerId = some entry := by
  rw [cmap_gradeAnswers]
  exact lookup_updateAll_of_mem hdisj (mem_map_of_mem hres) hent ∅

theorem exists_of_lookup_gradeAnswers {answerId : String} {entry : Entry}
    (hdisj : DisjointResults responders studentAnswers oldcmap)
    (hent : (gradeAnswers responders studentAnswers oldcmap).cmap.lookup answerId = some entry) :
    ∃ result ∈ results responders studentAnswers oldcmap, result.cmap.lookup answerId = some entry := by
  by_contra hnot
  have hnone : ∀ cmap ∈ (results responders studentAnswers oldcmap).map CorrectMap.cmap, answerId ∉ cmap := by
    intro cmap hcmap hmem
    obtain ⟨result, hres, rfl⟩ := mem_map.mp hcmap
    obtain ⟨other, hoth⟩ := mem_iff_lookup.mp hmem
    obtain rfl := some.inj ((lookup_gradeAnswers hdisj hres hoth).symm.trans hent)
    exact hnot ⟨result, hres, hoth⟩
  rw [cmap_gradeAnswers, lookup_updateAll_of_notMem hnone] at hent
  cases hent

/-- The results are combined and stored as they are just if no responder has an overall message, and
all entries are complete. -/
theorem combines_iff (hdisjoint : DisjointResults responders studentAnswers oldcmap) :
    Combines responders studentAnswers oldcmap ↔ ∀ result ∈ results responders studentAnswers oldcmap,
        result.overallMessage = "" ∧ result.Complete := by
  constructor
  · intro hcombines result hresult
    obtain ⟨hcomplete, hoverall⟩ := (CorrectMap.same_setDict_getDict_iff _).mp hcombines.stored
    refine ⟨?_, fun answerId entry hentry => ?_⟩
    · by_contra hmessage
      obtain ⟨other, -, hother, heq⟩ := hcombines.message ⟨result, hresult, hmessage⟩
      exact hother (heq.symm.trans hoverall)
    · exact hcomplete answerId entry (lookup_gradeAnswers hdisjoint hresult hentry)
  · intro hresults
    have hoverall := overallMessage_gradeAnswers fun result hresult => (hresults result hresult).1
    refine ⟨fun result hresult answerId entry => lookup_gradeAnswers hdisjoint hresult, ?_, ?_, ?_⟩
    · rintro ⟨result, hresult, hmessage⟩
      exact absurd (hresults result hresult).1 hmessage
    · intro others hperm
      refine ⟨fun answerId => ?_, ?_⟩
      · rw [cmap_gradeAnswers, cmap_gradeAnswers]
        exact (lookup_updateAll_perm hdisjoint ((hperm.map _).map _) ∅ answerId).symm
      · rw [hoverall]
        exact overallMessage_gradeAnswers fun result hresult => (hresults result ((hperm.map _).mem_iff.mpr hresult)).1
    · refine (CorrectMap.same_setDict_getDict_iff _).mpr ⟨fun answerId entry hentry => ?_, hoverall⟩
      obtain ⟨result, hresult, hfound⟩ := exists_of_lookup_gradeAnswers hdisjoint hentry
      exact (hresults result hresult).2 answerId entry hfound

end Grading

def answered (answerId message : String) : Responder := fun _ _ =>
  { ({} : CorrectMap).set answerId fun _ => none with overallMessage := message }

theorem disjoint_answered (message : String) :
    DisjointResults [answered "i4x_1_2_1" message, answered "i4x_1_3_1" ""] ∅ {} := by
  refine pairwise_cons.mpr ⟨fun other hoth key hkey hmem => ?_, List.pairwise_singleton _ _⟩
  obtain rfl := mem_singleton.mp hoth
  have hfst : key = "i4x_1_2_1" := mem_singleton.mp hkey
  have hsec : key = "i4x_1_3_1" := mem_singleton.mp hmem
  exact absurd (hfst.symm.trans hsec) (by decide)

theorem complete_answered (answerId message : String) (studentAnswers : Dict String String)
    (oldcmap : CorrectMap) : (answered answerId message studentAnswers oldcmap).Complete :=
  CorrectMap.Complete.set CorrectMap.complete_empty answerId _

theorem answered_combines : Combines [answered "i4x_1_2_1" "", answered "i4x_1_3_1" ""] ∅ {} := by
  refine (combines_iff (disjoint_answered "")).mpr (forall_mem_cons.mpr ⟨?_, ?_⟩)
  · exact ⟨rfl, complete_answered _ _ _ _⟩
  · exact List.forall_mem_singleton.mpr ⟨rfl, complete_answered _ _ _ _⟩

/-- The message of the first response is lost to the second one, which has none. -/
theorem answered_not_combines : DisjointResults [answered "i4x_1_2_1" "Well done", answered "i4x_1_3_1" ""] ∅ {} ∧
      ¬ Combines [answered "i4x_1_2_1" "Well done", answered "i4x_1_3_1" ""] ∅ {} := by
  refine ⟨disjoint_answered "Well done", fun hcombines => ?_⟩
  obtain ⟨result, -, hmessage, hgraded⟩ := hcombines.message ⟨_, mem_cons_self, by decide⟩
  exact hmessage hgraded.symm

end EdxPlatform.StoredMaps
