import EdxPlatform.Split.StructureDocuments

/-!
# The round trip of a structure

What `structure_from_mongo` makes of the document of a structure: the same structure, if children
are lists by then or contracts are disabled.
-/

namespace EdxPlatform.Split.Mongo

open Entries Document

/-! ## Structures and stored documents -/

/-- Whether there may be such a key: contracts do not let one with an empty type be made. -/
def Allowed (contracts : Bool) (key : BlockKey) : Prop := contracts = true → key.type ≠ ""

/-- The value of `children`. -/
def keyList (keys : List BlockKey) : Doc := .list (keys.map fun key => .atom (.key key))

/-- Blocks agree with their keys, and children are `BlockKey`s. -/
structure Structure.WellFormed (contracts : Bool) (struct : Structure) : Prop where
  root : Allowed contracts struct.root
  keys : ∀ key ∈ struct.blocks, Allowed contracts key
  types : ∀ key block, struct.blocks.lookup key = some block → block.blockType = text key.type
  children : ∀ key block value, struct.blocks.lookup key = some block →
    Entries.get "children" block.fields = some value →
      ∃ keys : List BlockKey, value = keyList keys ∧ ∀ child ∈ keys, Allowed contracts child

def Structure.Childless (struct : Structure) : Prop :=
  ∀ key block value, struct.blocks.lookup key = some block →
    Entries.get "children" block.fields = some value → value = keyList []

/-- A `BlockKey` as the database gives it back. -/
def listed : Doc → Doc
  | .atom (.key key) => .list [text key.type, text key.id]
  | document => document

def storedBlock : Doc → Doc := modifyKey "fields" (modifyKey "children" (mapElements listed))

def stored (document : Entries Atom) : Entries Atom :=
  Entries.modify "blocks" (mapElements storedBlock) (Entries.modify "root" listed document)

/-- The same structure, less what is only kept in memory. -/
structure Structure.Same (struct other : Structure) : Prop where
  root : other.root = struct.root
  others : other.others = struct.others
  blocks : ∀ key, other.blocks.lookup key = (struct.blocks.lookup key).map BlockData.unloaded

/-- Equal documents, up to the order in which a dictionary of blocks is gone through. -/
def SameDocument (document other : Entries Atom) : Prop :=
  ∃ root blocks again others, blocks.Perm again ∧ document = ("root", root) :: ("blocks", .list blocks) :: others ∧
    other = ("root", root) :: ("blocks", .list again) :: others

variable {contracts : Bool} {key : BlockKey}

section

variable (hall : Allowed contracts key)
include hall

theorem newBlockKey_run : newBlockKey contracts key.type key.id = .ok key := by
  unfold newBlockKey check
  cases contracts with
  | false => rfl
  | true =>
    have hne : key.type ≠ "" := hall rfl
    simp [hne]

theorem unpackKey_listed : unpackKey contracts (listed (.atom (.key key))) = .ok key := newBlockKey_run hall

theorem unpackKey_key : unpackKey contracts (.atom (.key key)) = .ok key := newBlockKey_run hall

end

section

variable (key : BlockKey) (block : BlockData)

theorem blockDocument_eq : blockDocument key block = .dict
      [("fields", .dict block.fields), ("block_type", block.blockType),
        ("definition", block.definition), ("defaults", block.defaults), ("asides", block.asides),
        ("edit_info", .dict block.editInfo.toStorable), ("block_id", text key.id)] := by
  simp [blockDocument, BlockData.toStorable, Entries.setDefault, Entries.get, Entries.set]

theorem fieldsOf_blockDocument : fieldsOf (blockDocument key block) = .ok block.fields := by
  rw [blockDocument_eq]
  rfl

end

theorem editInfo_roundTrip (editInfo : EditInfo) : EditInfo.fromStorable editInfo.toStorable =
      { editInfo with subtreeEditedOn := null, subtreeEditedBy := null } := by
  simp [EditInfo.fromStorable, EditInfo.toStorable, Entries.get]

variable {fields : Entries Atom}

theorem convertBlock_run {block : BlockData} (hall : Allowed contracts key) (htype : block.blockType = text key.type)
    (hflds : convertChildren contracts fields = .ok block.fields) :
    convertBlock contracts (blockDocument key { block with fields := fields }) = .ok (key, block.unloaded) := by
  have hkey : unpackKey contracts (.list [block.blockType, text key.id]) = .ok key := by
    rw [htype]
    exact newBlockKey_run hall
  have hdata : BlockData.fromStorable (Entries.set "fields" (.dict block.fields) (Entries.pop "block_id"
        [("fields", .dict fields), ("block_type", block.blockType),
          ("definition", block.definition), ("defaults", block.defaults), ("asides", block.asides),
          ("edit_info", .dict block.editInfo.toStorable), ("block_id", text key.id)])) =
      .ok block.unloaded := by
    simp [BlockData.fromStorable, Entries.pop, Entries.set, Entries.get, dictEntries,
      editInfo_roundTrip, BlockData.unloaded]
    rfl
  have hread := fieldsOf_blockDocument key { block with fields := fields }
  unfold convertBlock
  rw [hread, blockDocument_eq]
  simp only [dictEntries, bind, Except.bind, hflds, getItem, Entries.get]
  simp only [String.reduceEq, if_false, if_true, hkey, hdata]
  rfl

theorem storedBlock_blockDocument (key : BlockKey) (block : BlockData) :
    storedBlock (blockDocument key block) = blockDocument key { block with
      fields := Entries.modify "children" (mapElements listed) block.fields } := by
  rw [blockDocument_eq, blockDocument_eq]
  rfl

variable {struct : Structure}

def encoded (fields : BlockData → Entries Atom) (entry : Sigma fun _ : BlockKey => BlockData) : Doc :=
  blockDocument entry.1 { entry.2 with fields := fields entry.2 }

def documentOf (struct : Structure) (root : Doc) (fields : BlockData → Entries Atom) : Entries Atom :=
  ("root", root) :: ("blocks", .list (struct.blocks.entries.map (encoded fields))) :: struct.others

theorem check_of_respected {respected : Bool} (hres : respected = true) : check contracts respected = .ok () := by
  unfold check
  rw [hres, Bool.not_true, Bool.and_false]
  rfl

theorem all_isBlockKey (keys : List BlockKey) : isKeyList (keyList keys) = true := by
  simp [isKeyList, keyList, isBlockKey]

theorem structureToMongo_run (hwf : struct.WellFormed contracts) : structureToMongo contracts struct =
      .ok (documentOf struct (.atom (.key struct.root)) BlockData.fields) := by
  have hchec : struct.blocks.entries.forM (fun entry =>
      check contracts ((Entries.get "children" entry.2.fields).all isKeyList)) = .ok () := by
    refine forM_ok fun entry hent => check_of_respected ?_
    rw [Option.all_eq_true]
    intro value hval
    obtain ⟨keys, rfl, -⟩ := hwf.children _ _ value (mem_lookup_iff.mpr hent) hval
    exact all_isBlockKey keys
  unfold structureToMongo
  rw [hchec]
  rfl

theorem structureFromMongo_run (hwf : struct.WellFormed contracts) {root : Doc}
    (hpair : isPair root = true) (hroot : unpackKey contracts root = .ok struct.root)
    {fields : BlockData → Entries Atom}
    (hflds : ∀ key block, struct.blocks.lookup key = some block →
      check contracts ((Entries.get "children" (fields block)).all isChildList) = .ok () ∧
        convertChildren contracts (fields block) = .ok block.fields) :
    ∃ read, structureFromMongo contracts (documentOf struct root fields) = .ok read ∧ struct.Same read := by
  have hchec : (struct.blocks.entries.map (encoded fields)).forM (checkBlock contracts) = .ok () := by
    refine forM_ok fun block hblk => ?_
    obtain ⟨entry, hent, rfl⟩ := mem_map.mp hblk
    unfold checkBlock encoded
    rw [fieldsOf_blockDocument]
    exact (hflds _ _ (mem_lookup_iff.mpr hent)).1
  have hcon : (struct.blocks.entries.map (encoded fields)).mapM (convertBlock contracts) =
      .ok (struct.blocks.entries.map fun entry => (entry.1, entry.2.unloaded)) := by
    refine mapM_map_ok fun entry hent => ?_
    have hblk : struct.blocks.lookup entry.1 = some entry.2 := mem_lookup_iff.mpr hent
    exact convertBlock_run (hwf.keys _ (mem_of_lookup hblk)) (hwf.types _ _ hblk) (hflds _ _ hblk).2
  have hdicts : isDictList (.list (struct.blocks.entries.map (encoded fields))) = true := by
    unfold isDictList
    rw [all_eq_true]
    intro block hblk
    obtain ⟨entry, -, rfl⟩ := mem_map.mp hblk
    rfl
  have hoths : Entries.pop "blocks" (Entries.pop "root" (documentOf struct root fields)) =
      struct.others := by
    have hroots := pop_of_absent fun entry hent => (struct.separate entry hent).1
    have hblks := pop_of_absent fun entry hent => (struct.separate entry hent).2
    have hne : "blocks" ≠ "root" := by decide
    unfold documentOf
    rw [pop_cons, if_pos rfl, pop_cons, if_neg hne, hroots, pop_cons, if_pos rfl, hblks]
  refine ⟨{
    root := struct.root
    blocks := Dict.ofList (struct.blocks.entries.map fun entry => (entry.1, entry.2.unloaded))
    others := struct.others
    separate := struct.separate }, ?_, rfl, rfl, ?_⟩
  · unfold structureFromMongo
    have hread : getItem "blocks" (documentOf struct root fields) =
      .ok (.list (struct.blocks.entries.map (encoded fields))) := rfl
    have hgot : getItem "root" (documentOf struct root fields) = .ok root := rfl
    simp only [hread, hgot, bind, Except.bind, check_of_respected hpair, check_of_respected hdicts,
      listElements, hchec, hroot, hcon, hoths]
    rfl
  · exact fun key => Dict.lookup_ofList_map struct.blocks BlockData.unloaded key

theorem convertChildren_run {other : Entries Atom} {elements : List Doc} {keys : List BlockKey}
    (hoth : Entries.get "children" other = some (.list elements))
    (hele : elements.mapM (unpackKey contracts) = .ok keys)
    (hset : Entries.set "children" (keyList keys) other = fields) :
    convertChildren contracts other = .ok fields := by
  unfold convertChildren
  rw [hoth]
  simp only [listElements, bind, Except.bind, hele]
  exact congrArg Except.ok hset

theorem convertChildren_keys (hkids : ∀ value, Entries.get "children" fields = some value →
        ∃ keys : List BlockKey, value = keyList keys ∧ ∀ child ∈ keys, Allowed contracts child) :
    convertChildren contracts fields = .ok fields := by
  cases hget : Entries.get "children" fields with
  | none => unfold convertChildren; rw [hget]
  | some value =>
    obtain ⟨keys, rfl, hall⟩ := hkids value hget
    have hkeys := mapM_map_ok fun child hch => unpackKey_key (hall child hch)
    rw [List.map_id'] at hkeys
    exact convertChildren_run hget hkeys (set_get hget)

def storedFields (fields : Entries Atom) : Entries Atom := Entries.modify "children" (mapElements listed) fields

theorem get_storedFields (fields : Entries Atom) : Entries.get "children" (storedFields fields) =
    (Entries.get "children" fields).map (mapElements listed) := by
  unfold storedFields Entries.modify
  cases hget : Entries.get "children" fields with
  | none => exact hget
  | some value => exact get_set_self _ _ _

theorem convertChildren_stored (hkids : ∀ value, Entries.get "children" fields = some value →
        ∃ keys : List BlockKey, value = keyList keys ∧ ∀ child ∈ keys, Allowed contracts child) :
    check contracts ((Entries.get "children" (storedFields fields)).all isChildList) = .ok () ∧
      convertChildren contracts (storedFields fields) = .ok fields := by
  have hread := get_storedFields fields
  cases hget : Entries.get "children" fields with
  | none =>
    rw [hget] at hread
    have hsame : storedFields fields = fields := by
      unfold storedFields Entries.modify
      rw [hget]
    refine ⟨check_of_respected (by rw [hread]; rfl), ?_⟩
    unfold convertChildren
    rw [hread, hsame]
    rfl
  | some value =>
    obtain ⟨keys, rfl, hall⟩ := hkids value hget
    rw [hget] at hread
    have hls : (Entries.get "children" (storedFields fields)).all isChildList = true := by
      rw [hread]
      simp [keyList, mapElements, isChildList, isPairList, listed]
    have hkeys := mapM_map_ok fun child hch => unpackKey_listed (hall child hch)
    rw [List.map_id'] at hkeys
    refine ⟨check_of_respected hls, convertChildren_run (hread.trans ?_) hkeys ?_⟩
    · simp [keyList, mapElements]
    · unfold storedFields Entries.modify
      rw [hget]
      dsimp only
      rw [set_set, set_get hget]

/-! ## The round trip -/

theorem stored_documentOf (struct : Structure) :
    stored (documentOf struct (.atom (.key struct.root)) BlockData.fields) =
      documentOf struct (listed (.atom (.key struct.root))) fun block => storedFields block.fields := by
  have hblks : (struct.blocks.entries.map (encoded BlockData.fields)).map storedBlock =
      struct.blocks.entries.map (encoded fun block => storedFields block.fields) := by
    rw [map_map]
    exact map_congr_left fun entry _ => storedBlock_blockDocument entry.1 entry.2
  unfold documentOf
  rw [← hblks]
  rfl

theorem Structure.Same.wellFormed {other : Structure} (hsame : struct.Same other)
    (hwf : struct.WellFormed contracts) : other.WellFormed contracts := by
  have hfnd : ∀ key block, other.blocks.lookup key = some block →
      ∃ old, struct.blocks.lookup key = some old ∧ old.unloaded = block := fun key block hblk =>
    map_eq_some_iff.mp ((hsame.blocks key).symm.trans hblk)
  refine ⟨hsame.root ▸ hwf.root, fun key hkey => ?_, fun key block hblk => ?_, fun key block value hblk hval => ?_⟩
  · obtain ⟨block, hblk⟩ := mem_iff_lookup.mp hkey
    obtain ⟨old, hold, -⟩ := hfnd key block hblk
    exact hwf.keys key (mem_of_lookup hold)
  · obtain ⟨old, hold, rfl⟩ := hfnd key block hblk
    exact hwf.types key old hold
  · obtain ⟨old, hold, rfl⟩ := hfnd key block hblk
    exact hwf.children key old value hold hval

theorem encoded_unloaded (key : BlockKey) (block : BlockData) :
    encoded BlockData.fields ⟨key, block.unloaded⟩ = encoded BlockData.fields ⟨key, block⟩ := by
  unfold encoded
  rw [blockDocument_eq, blockDocument_eq]
  rfl

theorem Structure.Same.sameDocument {other : Structure} (hsame : struct.Same other) :
    SameDocument (documentOf struct (.atom (.key struct.root)) BlockData.fields)
      (documentOf other (.atom (.key other.root)) BlockData.fields) := by
  let unload : (Σ _ : BlockKey, BlockData) → Σ _ : BlockKey, BlockData := Sigma.map id fun _ => BlockData.unloaded
  have hnod : (struct.blocks.entries.map unload).NodupKeys :=
    struct.blocks.nodupKeys.map₂ (fun _ => BlockData.unloaded) _
  have hperm : (struct.blocks.entries.map unload).Perm other.blocks.entries := by
    refine List.lookup_ext hnod other.blocks.nodupKeys fun key block => ?_
    have hblks : other.blocks.entries.dlookup key =
        (struct.blocks.entries.dlookup key).map BlockData.unloaded := hsame.blocks key
    rw [List.dlookup_map₂, hblks]
  have henc : (struct.blocks.entries.map unload).map (encoded BlockData.fields) =
      struct.blocks.entries.map (encoded BlockData.fields) := by
    rw [map_map]
    exact map_congr_left fun entry _ => encoded_unloaded entry.1 entry.2
  refine ⟨_, _, _, _, henc ▸ hperm.map (encoded BlockData.fields), rfl, ?_⟩
  unfold documentOf
  rw [hsame.root, hsame.others]

/-- A structure is the same again after its document was read, and so is the document, up to the
order of its blocks.  Where contracts are enabled, children must be lists by then. -/
theorem structure_roundTrip (hwellFormed : struct.WellFormed contracts) :
    ∃ document, structureToMongo contracts struct = .ok document ∧
      ∀ read, read = stored document ∨ read = document ∧ (contracts = false ∨ struct.Childless) →
        ∃ other, structureFromMongo contracts read = .ok other ∧ struct.Same other ∧
          ∃ again, structureToMongo contracts other = .ok again ∧ SameDocument document again := by
  refine ⟨_, structureToMongo_run hwellFormed, fun read hread => ?_⟩
  have hresult : ∃ other, structureFromMongo contracts read = .ok other ∧ struct.Same other := by
    rcases hread with rfl | ⟨rfl, hunchecked⟩
    · rw [stored_documentOf]
      exact structureFromMongo_run hwellFormed rfl (unpackKey_listed hwellFormed.root)
        fun key block hblock => convertChildren_stored (hwellFormed.children key block · hblock)
    · refine structureFromMongo_run hwellFormed rfl (unpackKey_key hwellFormed.root)
        fun key block hblock => ⟨?_, convertChildren_keys (hwellFormed.children key block · hblock)⟩
      rcases hunchecked with rfl | hchildless
      · rfl
      · refine check_of_respected ((Option.all_eq_true _ _).mpr fun value hvalue => ?_)
        rw [hchildless key block value hblock hvalue]
        rfl
  obtain ⟨other, hother, hsame⟩ := hresult
  exact ⟨other, hother, hsame, _, structureToMongo_run (hsame.wellFormed hwellFormed), hsame.sameDocument⟩

def courseWithChapter : Structure where
  root := ⟨"course", "run"⟩
  blocks := Dict.ofList [(⟨"course", "run"⟩,
      { blockType := text "course"
        fields := [("display_name", text "Course"), ("children", keyList [⟨"chapter", "week1"⟩])] }),
      (⟨"chapter", "week1"⟩, { blockType := text "chapter" })]
  others := [("previous_version", null)]

theorem courseWithChapter_wellFormed : courseWithChapter.WellFormed true := by
  have hchap : Allowed true ⟨"chapter", "week1"⟩ := fun _ => by decide
  have hcrs : Allowed true ⟨"course", "run"⟩ := fun _ => by decide
  have hblks : ∀ key block, courseWithChapter.blocks.lookup key = some block →
      Allowed true key ∧ block.blockType = text key.type ∧
        ∀ value, Entries.get "children" block.fields = some value → value = keyList [⟨"chapter", "week1"⟩] := by
    intro key block hblk
    have hmem := Dict.mem_of_lookup_ofList hblk
    rw [List.mem_pair] at hmem
    rcases hmem with heq | heq
    · obtain ⟨rfl, rfl⟩ := Prod.mk.inj heq
      exact ⟨hcrs, rfl, fun value hval => (some.inj hval).symm⟩
    · obtain ⟨rfl, rfl⟩ := Prod.mk.inj heq
      exact ⟨hchap, rfl, fun value hval => nomatch hval⟩
  refine ⟨hcrs, fun key hkey => ?_, fun key block hblk => (hblks key block hblk).2.1,
    fun key block value hblk hval => ?_⟩
  · obtain ⟨block, hblk⟩ := mem_iff_lookup.mp hkey
    exact (hblks key block hblk).1
  · refine ⟨_, (hblks key block hblk).2.2 value hval, ?_⟩
    intro child hch
    rw [mem_singleton.mp hch]
    exact hchap

theorem courseWithChapter_roundTrip : ∃ document other, structureToMongo true courseWithChapter = .ok document ∧
      structureFromMongo true (stored document) = .ok other ∧ courseWithChapter.Same other := by
  obtain ⟨document, hdocument, hread⟩ := structure_roundTrip courseWithChapter_wellFormed
  obtain ⟨other, hother, hsame, -⟩ := hread _ (.inl rfl)
  exact ⟨document, other, hdocument, hother, hsame⟩

/-- The document of a structure cannot be read as it is while contracts are enabled. -/
theorem courseWithChapter_contract : courseWithChapter.WellFormed true ∧ ∃ document,
    structureToMongo true courseWithChapter = .ok document ∧
      structureFromMongo true document = .error .contractNotRespected :=
  ⟨courseWithChapter_wellFormed, _, rfl, rfl⟩

end EdxPlatform.Split.Mongo
