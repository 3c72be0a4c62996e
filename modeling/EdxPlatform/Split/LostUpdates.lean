import EdxPlatform.Split.ClientSteps

/-!
# Lost updates

Two bulk operations on one course both end without an exception.  The edits of
both are contained in the heads exactly if the operations were at no moment open
together, or one of them edited nothing.
-/

namespace EdxPlatform.Split

open SplitBulkWriteRecord World Database

/-- The open operations of clients that edit began with the index that is stored now,
and the edits of the operations that ended are contained. -/
structure Undisturbed (course : CourseKey) (quiet : Client → Prop) (world : World) : Prop where
  current : ∀ client record, (world.phase client).isOpen → (world.phase client).record = some record → ¬ quiet client →
    record.initialIndex = world.db.activeVersions.lookup course
  unedited : ∀ client record, quiet client → (world.phase client).record = some record →
    record.index = record.initialIndex
  contained : ∀ client record, world.phase client = .done record → EditsContained course world.db record

theorem flushIndex_of_unedited {db : Database} {record : SplitBulkWriteRecord}
    (hune : record.index = record.initialIndex) (now : Timestamp) :
    flushIndex db record now = db := by
  unfold flushIndex
  cases hinit : record.initialIndex with
  | none => rw [hune, hinit]
  | some index =>
    rw [hune, hinit]
    have hsame : index.same index := by
      unfold CourseIndex.same
      exact decide_eq_true ⟨rfl, Dict.same_iff.mpr fun _ => rfl, rfl⟩
    simp only [hsame, if_true]

theorem not_dirty_of_unedited {record : SplitBulkWriteRecord}
    (hune : record.index = record.initialIndex) (branch : Branch) :
    branch ∉ record.dirtyBranches := by
  rw [mem_dirtyBranches]
  rintro ⟨id, hhead, hne⟩
  unfold head at hhead
  rw [hune] at hhead
  exact hne hhead

variable {course : CourseKey}

namespace Undisturbed

variable {quiet : Client → Prop} {world : World} {client : Client} {record : SplitBulkWriteRecord}

theorem setPhase {db : Database} {phase : Phase} (hworld : Undisturbed course quiet world)
    (hidx : db.activeVersions = world.db.activeVersions)
    (hkeep : ∀ id struct, world.db.structures.lookup id = some struct → db.structures.lookup id = some struct)
    (hcur : ∀ record, phase.record = some record → ¬ quiet client →
      record.initialIndex = db.activeVersions.lookup course)
    (hune : ∀ record, quiet client → phase.record = some record → record.index = record.initialIndex)
    (hopen : phase.isOpen) :
    Undisturbed course quiet ({ world with db := db }.setPhase client phase) where
  current := by
    intro other record
    rw [phase_setPhase]
    split
    · next hoth => exact fun _ hrec hquiet => hcur record hrec (hoth ▸ hquiet)
    · intro hoth hrec hquiet
      exact (hworld.current other record hoth hrec hquiet).trans (congrArg (AList.lookup course) hidx).symm
  unedited := by
    intro other record hquiet
    rw [phase_setPhase]
    split
    · next hoth => exact hune record (hoth ▸ hquiet)
    · exact hworld.unedited other record hquiet
  contained := by
    intro other record
    rw [phase_setPhase]
    split
    · rintro rfl
      cases hopen
    · intro hdone
      apply (hworld.contained other record hdone).later hkeep
      intro branch head hhead
      refine ⟨head, ?_, .self⟩
      rw [← hhead]
      unfold headOf
      rw [hidx]

theorem updateIndex (hworld : Undisturbed course quiet world) (hval : world.Valid course)
    (hph : world.phase client = .inserted record)
    (halone : ∀ other, other ≠ client → (world.phase other).isOpen → ¬ quiet client → quiet other) (now : Timestamp) :
    Undisturbed course quiet ({ world with db := flushIndex world.db record now }.setPhase client (.done record)) := by
  have hrec := hval.record_of hph rfl
  by_cases hquiet : quiet client
  · have hune := hworld.unedited client record hquiet (by rw [hph]; rfl)
    rw [flushIndex_of_unedited hune]
    refine ⟨fun other record' => ?_, fun other record' => ?_, fun other record' => ?_⟩
    · rw [phase_setPhase]
      split
      · exact fun hopen => nomatch hopen
      · exact hworld.current other record'
    · rw [phase_setPhase]
      split
      · rintro - ⟨⟩
        exact hune
      · exact hworld.unedited other record'
    · rw [phase_setPhase]
      split
      · rintro ⟨⟩
        exact fun branch hdirty => absurd hdirty (not_dirty_of_unedited hune branch)
      · exact hworld.contained other record'
  · have hinit := hworld.current client record (by rw [hph]; rfl) (by rw [hph]; rfl) hquiet
    have hheads := hrec.headOf_flushIndex hinit now
    have hstrs := (structures_flushIndex world.db record now).1
    refine ⟨fun other record' => ?_, fun other record' => ?_, fun other record' => ?_⟩
    · rw [phase_setPhase]
      split
      · exact fun hopen => nomatch hopen
      · next hne => exact fun hopen _ hnot => absurd (halone other hne hopen hquiet) hnot
    · rw [phase_setPhase]
      split
      · next heq => exact fun hoth => absurd (heq ▸ hoth) hquiet
      · exact hworld.unedited other record'
    · rw [phase_setPhase]
      split
      · rintro ⟨⟩ branch hdirty
        obtain ⟨id, struct, hhead, hunsv, -⟩ := hrec.dirty hdirty
        refine ⟨id, struct, id, hhead, hunsv.1, ?_, (congrFun hheads branch).trans hhead, .self⟩
        exact hstrs ▸ hrec.saved id struct hunsv
      · intro hdone
        apply (hworld.contained other record' hdone).later
        · exact fun id struct h => hstrs ▸ h
        · intro branch head hhead
          have hst : record.initialHead branch = some head := by
            rw [← hhead]
            unfold initialHead headOf
            rw [hinit]
          rcases hrec.heads branch with hclean | ⟨id, struct, hid, hunsv, hprv⟩
          · exact ⟨head, (congrFun hheads branch).trans (hclean.trans hst), .self⟩
          · refine ⟨id, (congrFun hheads branch).trans hid, .previous ?_ (hprv.trans hst) .self⟩
            exact hstrs ▸ hrec.saved id struct hunsv

theorem step {next : World} {action : ClientStep} (hworld : Undisturbed course quiet world)
    (hval : world.Valid course) (hstep : StepTo course world client action next)
    (hquiet : ∀ branch change, action = .edit branch change → ¬ quiet client)
    (halone : (∀ other, (world.phase other).isOpen) → ∃ other, quiet other) :
    Undisturbed course quiet next := by
  cases hstep with
  | start =>
    apply hworld.setPhase rfl (fun _ _ h => h)
    · rintro _ ⟨⟩ -
      rfl
    · rintro _ - ⟨⟩
      rfl
    · rfl
  | @edit record branch change store hph hrun =>
    have hedit := hval.edited hph hrun
    apply hworld.setPhase hedit.activeVersions (fun _ _ h => hedit.structures ▸ h)
    · rintro _ ⟨⟩ hnot
      rw [hedit.initialIndex, hedit.activeVersions]
      exact hworld.current client record (by rw [hph]; rfl) (by rw [hph]; rfl) hnot
    · exact fun _ hclient => absurd hclient (hquiet branch change rfl)
    · rfl
  | @insertStructures record hph =>
    apply hworld.setPhase
    · rfl
    · intro id struct hid
      rw [lookup_flushDocuments, hid]
      rfl
    · rintro _ ⟨⟩ hnot
      exact hworld.current client record (by rw [hph]; rfl) (by rw [hph]; rfl) hnot
    · rintro _ hclient ⟨⟩
      exact hworld.unedited client record hclient (by rw [hph]; rfl)
    · rfl
  | @updateIndex record now hph =>
    apply hworld.updateIndex hval hph
    intro other hne hopen hnot
    obtain ⟨someone, hsom⟩ := halone fun any => by
      by_cases hany : any = client
      · rw [hany, hph]; rfl
      · rw [Client.eq_of_ne hne hany]; exact hopen
    by_cases hclient : someone = client
    · exact absurd (hclient ▸ hsom) hnot
    · exact Client.eq_of_ne hne hclient ▸ hsom

end Undisturbed

/-- Both operations began with the same heads, and the heads that are stored now are
these or those of an operation that ended. -/
structure Overlapping (course : CourseKey) (records : Client → SplitBulkWriteRecord)
    (world : World) : Prop where
  started : ∀ client, (world.phase client).record = some (records client)
  initial : ∀ client other, (records client).initialHead = (records other).initialHead
  heads : (∀ client, world.db.headOf course = (records client).initialHead) ∨
    ∃ client, world.phase client = .done (records client) ∧ world.db.headOf course = (records client).head

namespace Overlapping

variable {world : World} {client : Client} {records : Client → SplitBulkWriteRecord}

theorem setPhase {db : Database} {phase : Phase} {record : SplitBulkWriteRecord}
    (hworld : Overlapping course records world) (hopen : (world.phase client).isOpen)
    (hrec : phase.record = some record)
    (hinit : record.initialIndex = (records client).initialIndex)
    (hheads : db.headOf course = world.db.headOf course ∨ phase = .done record ∧ db.headOf course = record.head) :
    Overlapping course (Function.update records client record) ({ world with db := db }.setPhase client phase) := by
  have hold : ∀ other, (Function.update records client record other).initialHead = (records other).initialHead := by
    intro other
    rw [update_apply]
    split
    · next heq =>
        unfold initialHead
        rw [hinit, heq]
    · rfl
  refine ⟨fun other => ?_, fun one other => ?_, ?_⟩
  · rw [phase_setPhase, update_apply]
    split
    · exact hrec
    · exact hworld.started other
  · rw [hold, hold]
    exact hworld.initial one other
  · rcases hheads with hsame | ⟨rfl, hhead⟩
    · rcases hworld.heads with hst | ⟨other, hdone, hhead⟩
      · refine .inl fun other => ?_
        rw [hold]
        exact hsame.trans (hst other)
      · have hne : other ≠ client := by
          rintro rfl
          rw [hdone] at hopen
          cases hopen
        refine .inr ⟨other, ?_, ?_⟩
        · rw [phase_setPhase, if_neg hne, update_of_ne hne]
          exact hdone
        · rw [update_of_ne hne]
          exact hsame.trans hhead
    · refine .inr ⟨client, ?_, ?_⟩
      · rw [phase_setPhase, if_pos rfl, update_self]
      · rw [update_self]
        exact hhead

theorem step {next : World} {action : ClientStep} (hworld : Overlapping course records world)
    (hval : world.Valid course) (hstep : StepTo course world client action next) :
    ∃ records, Overlapping course records next := by
  have hrecs := hworld.started client
  cases hstep with
  | start hph =>
    rw [hph] at hrecs
    cases hrecs
  | @edit record branch change store hph hrun =>
    have hedit := hval.edited hph hrun
    rw [hph] at hrecs
    refine ⟨_, hworld.setPhase (by rw [hph]; rfl) rfl ?_ (.inl ?_)⟩
    · rw [hedit.initialIndex]
      exact congrArg initialIndex (some.inj hrecs)
    · funext branch
      unfold headOf
      rw [hedit.activeVersions]
  | @insertStructures record hph =>
    rw [hph] at hrecs
    refine ⟨_, hworld.setPhase (by rw [hph]; rfl) rfl ?_ (.inl ?_)⟩
    · exact congrArg initialIndex (some.inj hrecs)
    · exact headOf_flushDocuments course world.db record
  | @updateIndex record now hph =>
    have hcrs := (hval.record_of hph rfl).course
    rw [hph] at hrecs
    refine ⟨_, hworld.setPhase (by rw [hph]; rfl) rfl ?_ ?_⟩
    · exact congrArg initialIndex (some.inj hrecs)
    · rw [← hcrs]
      exact (headOf_flushIndex world.db record now).imp_right fun h => ⟨rfl, h⟩

theorem not_noLostUpdate (hworld : Overlapping course records world) (hval : world.Valid course)
    (hdirty : ∀ client, ∃ branch, branch ∈ (records client).dirtyBranches) :
    ¬ NoLostUpdate course world := by
  intro hcon
  have hvali : ∀ client, (records client).Valid course world.db true := by
    intro client
    obtain ⟨record, hdone, -⟩ := hcon client
    have hrec := hworld.started client
    rw [hdone] at hrec
    obtain rfl := some.inj hrec
    exact hval.record_of hdone rfl
  -- a version that a client made does not descend to the heads at the start
  have hlost : ∀ client branch version struct head, (records client).Unsaved version struct →
      (records client).initialHead branch = some head →
      ¬ InHistory world.db.structures version head := by
    intro client branch version struct head hunsv hhead hhis
    have hyoun := (hvali client).younger version struct hunsv branch head hhead
    exact absurd (hhis.le hval.db) (Nat.not_le.mpr hyoun)
  have hfnd : ∀ client, ∃ branch version struct head,
      (records client).Unsaved version struct ∧ world.db.headOf course branch = some head ∧
      InHistory world.db.structures version head := by
    intro client
    obtain ⟨branch, hbr⟩ := hdirty client
    obtain ⟨record, hdone, hedits⟩ := hcon client
    have hrec := hworld.started client
    rw [hdone] at hrec
    obtain rfl := some.inj hrec
    obtain ⟨version, struct, head, hver, -, -, hhead, hhis⟩ := hedits branch hbr
    obtain ⟨id, content, hid, hunsv, -⟩ := (hvali client).dirty hbr
    obtain rfl := some_unique hver hid
    exact ⟨branch, version, content, head, hunsv, hhead, hhis⟩
  rcases hworld.heads with hst | ⟨winner, -, hheads⟩
  · obtain ⟨branch, version, struct, head, hunsv, hhead, hhis⟩ := hfnd .first
    exact hlost .first branch version struct head hunsv ((congrFun (hst .first) branch).symm.trans hhead) hhis
  · obtain ⟨loser, hne⟩ : ∃ loser, loser ≠ winner := by
      cases winner
      · exact ⟨.second, by decide⟩
      · exact ⟨.first, by decide⟩
    obtain ⟨branch, version, struct, head, hunsv, hhead, hhis⟩ := hfnd loser
    rw [congrFun hheads branch] at hhead
    rcases (hvali winner).heads branch with hclean | ⟨id, content, hid, hmade, hprv⟩
    · refine hlost loser branch version struct head hunsv ?_ hhis
      rw [hworld.initial loser winner, ← hclean, hhead]
    · obtain rfl := some_unique hhead hid
      have hsaved := (hvali winner).saved head content hmade
      cases hhis with
      | self =>
        exact hval.apart loser winner _ _ hne (hworld.started loser) (hworld.started winner)
          version struct content hunsv hmade
      | @previous _ older saved hstr holder hhis =>
        obtain rfl := some_unique hstr hsaved
        refine hlost loser branch version struct older hunsv ?_ hhis
        rw [hworld.initial loser winner, ← hprv, holder]

end Overlapping

/-! ## Runs -/

section Runs

variable {world final : World} {steps : List (Client × ClientStep)}

theorem run_induction {I : World → Prop} (hstep : ∀ world client action next, (client, action) ∈ steps → I world →
      StepTo course world client action next → I next)
    (hworld : I world) (hrun : world.run course steps = some final) :
    I final := by
  unfold World.run at hrun
  induction steps generalizing world with
  | nil =>
    obtain rfl := some.inj hrun
    exact hworld
  | cons step steps ih =>
    rw [foldlM_cons] at hrun
    obtain ⟨next, hnxt, hrest⟩ := bind_eq_some_iff.mp hrun
    apply ih _ (hstep world step.1 step.2 next mem_cons_self hworld (stepTo_of_step hnxt)) hrest
    exact fun world client action next hmem => hstep world client action next (mem_cons_of_mem step hmem)

theorem World.Valid.run (hval : world.Valid course)
    (hrun : world.run course steps = some final) : final.Valid course :=
  run_induction (fun _ _ _ _ _ h hstep => h.step hstep) hval hrun

theorem Undisturbed.run {quiet : Client → Prop} (hworld : Undisturbed course quiet world)
    (hval : world.Valid course) (hrun : world.run course steps = some final)
    (hquiet : ∀ client branch change, (client, .edit branch change) ∈ steps → ¬ quiet client)
    (halone : OpenTogether course world steps → ∃ client, quiet client) :
    Undisturbed course quiet final := by
  unfold World.run at hrun
  induction steps generalizing world with
  | nil =>
    obtain rfl := some.inj hrun
    exact hworld
  | cons step steps ih =>
    rw [foldlM_cons] at hrun
    obtain ⟨next, hnxt, hrest⟩ := bind_eq_some_iff.mp hrun
    have hstep : StepTo course world step.1 step.2 next := stepTo_of_step hnxt
    apply ih (hworld.step hval hstep _ fun hopen => halone (.inl hopen)) (hval.step hstep) hrest
    · exact fun client branch change hmem => hquiet client branch change (mem_cons_of_mem step hmem)
    · exact fun htog => halone (.inr ⟨next, hnxt, htog⟩)
    · intro branch change hact
      apply hquiet step.1 branch change
      rw [← hact]
      exact mem_cons_self

theorem Overlapping.run {records : Client → SplitBulkWriteRecord}
    (hworld : Overlapping course records world) (hval : world.Valid course)
    (hrun : world.run course steps = some final) :
    ∃ records, Overlapping course records final := by
  apply (run_induction (I := fun world =>
    world.Valid course ∧ ∃ records, Overlapping course records world) _ ⟨hval, records, hworld⟩
    hrun).2
  rintro world client action next - ⟨hval, records, hworld⟩ hstep
  exact ⟨hval.step hstep, hworld.step hval hstep⟩

section

variable (hworld : Undisturbed course (fun _ => False) world)
include hworld

theorem Undisturbed.overlapping (hopen : ∀ client, (world.phase client).isOpen) :
    ∃ records, Overlapping course records world := by
  have hrecs : ∀ client, ∃ record, (world.phase client).record = some record := by
    intro client
    have hclient := hopen client
    cases hph : world.phase client with
    | idle => rw [hph] at hclient; cases hclient
    | editing record => exact ⟨record, rfl⟩
    | inserted record => exact ⟨record, rfl⟩
    | done record => exact ⟨record, rfl⟩
  choose records hrecs using hrecs
  have hinit : ∀ client, world.db.headOf course = (records client).initialHead := by
    intro client
    funext branch
    unfold headOf initialHead
    rw [hworld.current client (records client) (hopen client) (hrecs client) id]
  exact ⟨records, hrecs, fun client other => (hinit client).symm.trans (hinit other), .inl hinit⟩

theorem overlapping_of_openTogether (hval : world.Valid course) (hrun : world.run course steps = some final)
    (htog : OpenTogether course world steps) :
    ∃ records, Overlapping course records final := by
  induction steps generalizing world with
  | nil =>
    obtain rfl := some.inj hrun
    exact hworld.overlapping htog
  | cons step steps ih =>
    by_cases hopen : ∀ client, (world.phase client).isOpen
    · obtain ⟨records, hrecs⟩ := hworld.overlapping hopen
      exact hrecs.run hval hrun
    · obtain ⟨next, hnxt, hrest⟩ := htog.resolve_left hopen
      unfold World.run at hrun
      rw [foldlM_cons, hnxt] at hrun
      have hstep : StepTo course world step.1 step.2 next := stepTo_of_step hnxt
      exact ih (hworld.step hval hstep (fun _ _ _ => id) fun h => absurd h hopen) (hval.step hstep) hrun hrest

end

def World.Dirty (world : World) (client : Client) : Prop :=
  ∃ record, (world.phase client).record = some record ∧ ∃ branch, branch ∈ record.dirtyBranches

theorem World.Dirty.step {next : World} {client other : Client} {action : ClientStep}
    (hdirty : world.Dirty other) (hval : world.Valid course)
    (hstep : StepTo course world client action next) : next.Dirty other := by
  obtain ⟨record, hrec, branch, hbr⟩ := hdirty
  unfold World.Dirty
  by_cases hoth : other = client
  · subst hoth
    cases hstep with
    | start hph =>
      rw [hph] at hrec
      cases hrec
    | @edit old edited change store hph hrun =>
      rw [hph] at hrec
      obtain rfl := some.inj hrec
      rw [phase_setPhase, if_pos rfl]
      exact ⟨store.record, rfl, branch, ((hval.edited hph hrun).dirty branch).mpr (.inr hbr)⟩
    | insertStructures hph =>
      rw [hph] at hrec
      rw [phase_setPhase, if_pos rfl]
      exact ⟨record, hrec, branch, hbr⟩
    | updateIndex hph =>
      rw [hph] at hrec
      rw [phase_setPhase, if_pos rfl]
      exact ⟨record, hrec, branch, hbr⟩
  · cases hstep with
    | _ =>
      rw [phase_setPhase, if_neg hoth]
      exact ⟨record, hrec, branch, hbr⟩

theorem dirty_of_edits {client : Client} (hval : world.Valid course)
    (hrun : world.run course steps = some final) (hedits : Edits client steps) :
    final.Dirty client := by
  obtain ⟨branch, change, hmem⟩ := hedits
  unfold World.run at hrun
  induction steps generalizing world with
  | nil => cases hmem
  | cons step steps ih =>
    rw [foldlM_cons] at hrun
    obtain ⟨next, hnxt, hrest⟩ := bind_eq_some_iff.mp hrun
    have hstep : StepTo course world step.1 step.2 next := stepTo_of_step hnxt
    rcases mem_cons.mp hmem with rfl | hlat
    · refine (run_induction (I := fun world => world.Valid course ∧ world.Dirty client)
        (fun _ _ _ _ _ h hstep => ⟨h.1.step hstep, h.2.step h.1 hstep⟩)
        ⟨hval.step hstep, ?_⟩ hrest).2
      cases hstep with
      | @edit record _ _ store hph hrun =>
        refine ⟨store.record, by rw [phase_setPhase, if_pos rfl]; rfl, branch, ?_⟩
        exact ((hval.edited hph hrun).dirty branch).mpr (.inl rfl)
    · exact ih (hval.step hstep) hrest hlat

theorem initial_valid {db : Database} (hdb : db.Valid) : (initial db).Valid course where
  db := hdb
  records := fun _ _ hrec => nomatch hrec
  apart := fun _ _ _ _ _ hrec => nomatch hrec

theorem initial_undisturbed (db : Database) (quiet : Client → Prop) : Undisturbed course quiet (initial db) where
  current := fun _ _ hopen => nomatch hopen
  unedited := fun _ _ _ hrec => nomatch hrec
  contained := fun _ _ hdone => nomatch hdone

end Runs

/-- When both bulk operations ended, the heads contain the edits of both exactly if
the operations were not open together, or one of the clients edited nothing. -/
theorem noLostUpdate_iff {course : CourseKey} {db : Database} {final : World}
    {steps : List (Client × ClientStep)} (hdb : db.Valid)
    (hrun : (World.initial db).run course steps = some final)
    (hdone : ∀ client, ∃ record, final.phase client = .done record) :
    NoLostUpdate course final ↔ ¬ OpenTogether course (World.initial db) steps ∨ ∃ client, ¬ Edits client steps := by
  have hvalid : (World.initial db).Valid course := initial_valid hdb
  constructor
  · intro hcontained
    by_contra hnot
    obtain ⟨htogether, hedits⟩ := not_or.mp hnot
    obtain ⟨records, hoverlap⟩ := overlapping_of_openTogether
      (initial_undisturbed db fun _ => False) hvalid hrun (not_not.mp htogether)
    apply hoverlap.not_noLostUpdate (hvalid.run hrun) _ hcontained
    intro client
    have hclient : Edits client steps := not_not.mp fun h => hedits ⟨client, h⟩
    obtain ⟨record, hrecord, hdirty⟩ := dirty_of_edits hvalid hrun hclient
    obtain rfl := some.inj (hrecord.symm.trans (hoverlap.started client))
    exact hdirty
  · intro hcondition client
    have hfinal := (initial_undisturbed db fun client => ¬ Edits client steps).run hvalid hrun
      (fun client branch change hmem hquiet => hquiet ⟨branch, change, hmem⟩)
      fun htogether => hcondition.resolve_left (not_not.mpr htogether)
    obtain ⟨record, hphase⟩ := hdone client
    exact ⟨record, hphase, hfinal.contained client record hphase⟩

def twoBranches : Database :=
  { activeVersions := (∅ : Dict CourseKey CourseIndex).insert "course"
      { id := 0
        versions := ((∅ : Dict Branch ObjectId).insert "draft-branch" 1).insert "published-branch" 2
        lastUpdate := some 10 }
    structures := ((∅ : Dict ObjectId Structure).insert 1 { root := ⟨"course", "course"⟩ }).insert 2
      { root := ⟨"course", "course"⟩ }
    nextObjectId := 3 }

def addAbout (blocks : Blocks) : Blocks := blocks.insert ⟨"about", "overview"⟩ { definition := 0 }

def twoBranchesSteps : List (Client × ClientStep) :=
  [(.first, .start), (.second, .start),
    (.first, .edit "draft-branch" addAbout), (.second, .edit "published-branch" addAbout),
    (.first, .insertStructures), (.first, .updateIndex 11),
    (.second, .insertStructures), (.second, .updateIndex 12)]

theorem twoBranches_valid : twoBranches.Valid where
  allocated := by
    intro id struct hid
    simp only [twoBranches, lookup_insert] at hid ⊢
    split at hid
    · next heq => subst heq; decide
    · split at hid
      · next heq => subst heq; decide
      · cases hid
  previous := by
    intro id struct older hid holder
    simp only [twoBranches, lookup_insert] at hid
    split at hid
    · cases hid
      cases holder
    · split at hid
      · cases hid
        cases holder
      · cases hid
  heads := by
    intro course branch id hhead
    simp only [twoBranches, headOf, lookup_insert] at hhead ⊢
    split at hhead
    · simp only [bind_some, lookup_insert] at hhead
      split at hhead
      · cases hhead
        decide
      · split at hhead
        · cases hhead
          decide
        · cases hhead
    · cases hhead

theorem exists_done {phase : Phase} (hins : phase.isInserted) (hopen : ¬ phase.isOpen) :
    ∃ record, phase = .done record := by
  cases phase with
  | idle => cases hins
  | editing => cases hins
  | inserted => exact absurd rfl hopen
  | done record => exact ⟨record, rfl⟩

theorem twoBranches_run : ∃ final, (initial twoBranches).run "course" twoBranchesSteps = some final ∧
      (∀ client, ∃ record, final.phase client = .done record) ∧
      final.db.headOf "course" "published-branch" = some 2 ∧
      (final.db.structures.lookup 2).bind Structure.previousVersion = none ∧
      ∀ record, final.phase .second = .done record →
        "published-branch" ∈ record.dirtyBranches ∧ record.head "published-branch" = some 4 := by
  have hrun : ((initial twoBranches).run "course" twoBranchesSteps).any fun final =>
      ([Client.first, .second].all fun client => (final.phase client).isInserted && !(final.phase client).isOpen) &&
      (final.db.headOf "course" "published-branch" = some 2 &&
      ((final.db.structures.lookup 2).bind Structure.previousVersion = none &&
      (final.phase .second).record.all fun record =>
        "published-branch" ∈ record.dirtyBranches && record.head "published-branch" = some 4)) := by
    decide +kernel
  cases hfinal : (initial twoBranches).run "course" twoBranchesSteps with
  | none => rw [hfinal] at hrun; cases hrun
  | some final =>
    rw [hfinal] at hrun
    simp only [any_some, List.all_cons, List.all_nil, Bool.and_true, and_eq_true,
      decide_eq_true_eq, not_eq_true'] at hrun
    obtain ⟨⟨⟨hfst, hnotf⟩, hsec, hnots⟩, hhead, hprv, hrec⟩ := hrun
    refine ⟨final, rfl, fun client => ?_, hhead, hprv, fun record hph => ?_⟩
    · cases client with
      | first => exact exists_done hfst (by rw [hnotf]; decide)
      | second => exact exists_done hsec (by rw [hnots]; decide)
    · rw [hph] at hrec
      simpa [Phase.record] using hrec

theorem noLostUpdate_iff_twoBranches :
    ∃ final, (World.initial twoBranches).run "course" twoBranchesSteps = some final ∧
      (NoLostUpdate "course" final ↔ ¬ OpenTogether "course" (World.initial twoBranches) twoBranchesSteps ∨
          ∃ client, ¬ Edits client twoBranchesSteps) := by
  obtain ⟨final, hfinal, hdone, -⟩ := twoBranches_run
  exact ⟨final, hfinal, noLostUpdate_iff twoBranches_valid hfinal hdone⟩

/-- The update of an index that changed meanwhile matches nothing, which goes unnoticed. -/
theorem lostUpdate_twoBranches : ∃ final, (World.initial twoBranches).run "course" twoBranchesSteps = some final ∧
      (∀ client, ∃ record, final.phase client = .done record) ∧
      ¬ NoLostUpdate "course" final := by
  obtain ⟨final, hfinal, hdone, hhead, hprevious, hsecond⟩ := twoBranches_run
  refine ⟨final, hfinal, hdone, fun hcontained => ?_⟩
  obtain ⟨record, hphase, hedits⟩ := hcontained .second
  obtain ⟨hdirty, hversion⟩ := hsecond record hphase
  obtain ⟨version, struct, head, hmade, -, -, hstored, hhistory⟩ := hedits _ hdirty
  obtain rfl := some_unique hversion hmade
  obtain rfl := some_unique hhead hstored
  cases hhistory with
  | previous hstruct holder _ =>
    rw [hstruct, bind_some, holder] at hprevious
    cases hprevious

end EdxPlatform.Split
