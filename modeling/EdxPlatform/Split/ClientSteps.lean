import EdxPlatform.Split.VersionRules

/-!
# Steps of two clients

The world is valid when the records of both clients are, and no version was made
by both.  Every step of a client keeps it valid.
-/

namespace EdxPlatform.Split

/-! ## Steps of the clients -/

theorem Client.eq_of_ne {client other any : Client} (hoth : other ≠ client) (hany : any ≠ client) : any = other := by
  cases client <;> cases other <;> cases any <;> trivial

def Phase.record : Phase → Option SplitBulkWriteRecord
  | .idle => none
  | .editing record | .inserted record | .done record => some record

def Phase.isInserted : Phase → Bool
  | .idle | .editing _ => false
  | .inserted _ | .done _ => true

/-- The steps of a client, by how far it is. -/
inductive StepTo (course : CourseKey) (world : World) (client : Client) :
    ClientStep → World → Prop
  | start (hphase : world.phase client = .idle) : StepTo course world client .start
        (world.setPhase client (.editing (startBulk world.db course)))
  | edit {record : SplitBulkWriteRecord} {branch : Branch} {change : Blocks → Blocks}
      {store : Store} (hphase : world.phase client = .editing record)
      (hrun : editBranch course branch change { db := world.db, record := record } = .ok () store) :
      StepTo course world client (.edit branch change)
        ({ world with db := store.db }.setPhase client (.editing store.record))
  | insertStructures {record : SplitBulkWriteRecord} (hphase : world.phase client = .editing record) :
      StepTo course world client .insertStructures
        ({ world with db := flushDocuments world.db record }.setPhase client (.inserted record))
  | updateIndex {record : SplitBulkWriteRecord} {now : Timestamp} (hphase : world.phase client = .inserted record) :
      StepTo course world client (.updateIndex now)
        ({ world with db := flushIndex world.db record now }.setPhase client (.done record))

variable {course : CourseKey}

theorem stepTo_of_step {world next : World} {client : Client}
    {action : ClientStep} (hstep : world.step course (client, action) = some next) :
    StepTo course world client action next := by
  unfold World.step at hstep
  split at hstep
  · next hph hact =>
      cases hact
      cases hstep
      exact .start hph
  · next record branch change hph hact =>
      cases hact
      split at hstep
      · next result store hrun =>
          cases hstep
          exact .edit hph hrun
      · cases hstep
  · next record hph hact =>
      cases hact
      cases hstep
      exact .insertStructures hph
  · next record now hph hact =>
      cases hact
      cases hstep
      exact .updateIndex hph
  · cases hstep

theorem phase_setPhase (world : World) (client other : Client) (phase : Phase) :
    (world.setPhase client phase).phase other = if other = client then phase else world.phase other := by
  exact update_apply world.phase client phase other

/-- Both records are valid, and no version was made by both clients. -/
structure World.Valid (course : CourseKey) (world : World) : Prop where
  db : world.db.Valid
  records : ∀ client record, (world.phase client).record = some record →
    record.Valid course world.db (world.phase client).isInserted
  apart : ∀ client other record record', client ≠ other →
    (world.phase client).record = some record → (world.phase other).record = some record' →
    ∀ id struct struct', record.Unsaved id struct → ¬ record'.Unsaved id struct'

variable {db : Database}

theorem SplitBulkWriteRecord.Valid.frame {later : Database}
    {inserted : Bool} {record : SplitBulkWriteRecord} (hval : record.Valid course db inserted)
    (hlat : db.nextObjectId ≤ later.nextObjectId)
    (hstrs : ∀ id struct, record.Unsaved id struct → later.structures.lookup id = db.structures.lookup id) :
    record.Valid course later inserted :=
  { hval with
    initial := fun branch id h => lt_of_lt_of_le (hval.initial branch id h) hlat
    inDb := fun id h => lt_of_lt_of_le (hval.inDb id h) hlat
    allocated := fun id struct h => lt_of_lt_of_le (hval.allocated id struct h) hlat
    saved := fun id struct h => (hstrs id struct h).trans (hval.saved id struct h) }

theorem startBulk_valid (hdb : db.Valid) : (startBulk db course).Valid course db false where
  course := rfl
  initial := fun branch id hhead => hdb.heads course branch id hhead
  inDb := fun _ hmem => nomatch hmem
  allocated := fun _ _ hunsv => nomatch hunsv.1
  previous := fun _ _ hunsv => nomatch hunsv.1
  younger := fun _ _ hunsv => nomatch hunsv.1
  saved := fun _ _ hunsv => nomatch hunsv.1
  heads := fun _ => .inl rfl

/-- A step of one client keeps the world valid if it leaves the other record valid
and makes no version that the other client made. -/
theorem World.Valid.setPhase {world : World} {client : Client}
    {phase : Phase} (hval : world.Valid course) (hdb : db.Valid)
    (hrec : ∀ record, phase.record = some record → record.Valid course db phase.isInserted)
    (hoths : ∀ other record, other ≠ client → (world.phase other).record = some record →
      record.Valid course db (world.phase other).isInserted)
    (hapart : ∀ other record record', other ≠ client → phase.record = some record →
      (world.phase other).record = some record' →
      ∀ id struct struct', record.Unsaved id struct → ¬ record'.Unsaved id struct') :
    ({ world with db := db }.setPhase client phase).Valid course where
  db := hdb
  records := by
    intro other record
    rw [phase_setPhase]
    split
    · exact fun hph => hrec record hph
    · next hne => exact fun hph => hoths other record hne hph
  apart := by
    intro one other record record' hne
    rw [phase_setPhase, phase_setPhase]
    split
    · next hone =>
        rw [if_neg fun hoth => hne (hone.trans hoth.symm)]
        exact hapart other record record' fun hoth => hne (hone.trans hoth.symm)
    · next hone =>
        split
        · intro hph hph' id struct struct' hunsv hunsv'
          exact hapart one record' record hone hph' hph id struct' struct hunsv' hunsv
        · exact hval.apart one other record record' hne

namespace World.Valid

variable {world : World} {client : Client} {record : SplitBulkWriteRecord} (hval : world.Valid course)

theorem start (hval : world.Valid course) :
    (world.setPhase client (.editing (startBulk world.db course))).Valid course := by
  apply hval.setPhase hval.db
  · rintro record ⟨⟩
    exact startBulk_valid hval.db
  · exact fun other record _ hoth => hval.records other record hoth
  · rintro other record record' - ⟨⟩ -
    exact fun id struct struct' hunsv => nomatch hunsv.1

section

variable {phase : Phase} (hph : world.phase client = phase) (hrec : phase.record = some record)
include hval hph hrec

theorem record_of : record.Valid course world.db phase.isInserted := by
  subst hph
  exact hval.records client record hrec

theorem apart_of {other : Client} {record' : SplitBulkWriteRecord} (hne : other ≠ client)
    (hoth : (world.phase other).record = some record') :
    ∀ id struct struct', record.Unsaved id struct → ¬ record'.Unsaved id struct' := by
  subst hph
  exact hval.apart client other record record' (Ne.symm hne) hrec hoth

end

theorem edit {branch : Branch} {store : Store} (hval : world.Valid course) (hph : world.phase client = .editing record)
    (hedit : Edited course branch { db := world.db, record := record } store) :
    ({ world with db := store.db }.setPhase client (.editing store.record)).Valid course := by
  apply hval.setPhase
  · exact {
      allocated := fun id struct h => lt_of_lt_of_le (hval.db.allocated id struct (hedit.structures ▸ h)) hedit.later
      previous := fun id struct older h => hval.db.previous id struct older (hedit.structures ▸ h)
      heads := fun other branch id h => by
        unfold Database.headOf at h
        rw [hedit.activeVersions] at h
        exact lt_of_lt_of_le (hval.db.heads other branch id h) hedit.later }
  · rintro record ⟨⟩
    exact hedit.valid
  · intro other record' _ hoth
    apply (hval.records other record' hoth).frame hedit.later
    intro id struct _
    rw [hedit.structures]
  · rintro other record record' hne ⟨⟩ hoth id struct struct' hunsv hunsv'
    rcases hedit.unsaved id struct hunsv with ⟨old, hold⟩ | hnew
    · exact hval.apart_of hph rfl hne hoth id old struct' hold hunsv'
    · have hlt := (hval.records other record' hoth).allocated id struct' hunsv'
      exact absurd hlt (Nat.not_lt.mpr hnew)

theorem of_lookup_flushDocuments {db : Database} {id : ObjectId} {struct : Structure}
    (hid : (flushDocuments db record).structures.lookup id = some struct) :
    db.structures.lookup id = some struct ∨ record.Unsaved id struct := by
  rw [lookup_flushDocuments, or_eq_some_iff] at hid
  rcases hid with hdb | ⟨-, hnew⟩
  · exact .inl hdb
  · split at hnew
    · cases hnew
    · next hnotin => exact .inr ⟨hnew, hnotin⟩

section

include hval

theorem insertStructures (hph : world.phase client = .editing record) :
    ({ world with db := flushDocuments world.db record }.setPhase client (.inserted record)).Valid course := by
  have hrec := hval.record_of hph rfl
  apply hval.setPhase
  · exact {
      allocated := fun id struct hid => (of_lookup_flushDocuments hid).elim
        (hval.db.allocated id struct) (hrec.allocated id struct)
      previous := fun id struct older hid => (of_lookup_flushDocuments hid).elim
        (hval.db.previous id struct older) fun h => hrec.previous id struct h older
      heads := hval.db.heads }
  · rintro _ ⟨⟩
    exact { hrec with
      saved := fun id struct hunsv => by
        rw [lookup_flushDocuments, hrec.saved id struct hunsv, if_neg hunsv.2, hunsv.1]
        rfl }
  · intro other record' hne hoth
    have hlat : world.db.nextObjectId ≤ (flushDocuments world.db record).nextObjectId := le_rfl
    apply (hval.records other record' hoth).frame hlat
    intro id struct hunsv
    rw [lookup_flushDocuments]
    cases hnew : if id ∈ record.structuresInDb then none else record.structures.lookup id with
    | none => exact or_none
    | some made =>
      split at hnew
      · cases hnew
      · next hnotin => exact absurd hunsv (hval.apart_of hph rfl hne hoth id made struct ⟨hnew, hnotin⟩)
  · rintro other _ record' hne ⟨⟩ hoth
    exact hval.apart_of hph rfl hne hoth

theorem updateIndex (hph : world.phase client = .inserted record) (now : Timestamp) :
    ({ world with db := flushIndex world.db record now }.setPhase client (.done record)).Valid course := by
  have hrec := hval.record_of hph rfl
  obtain ⟨hstrs, hnxt⟩ := structures_flushIndex world.db record now
  have hframe : ∀ (inserted : Bool) (other : SplitBulkWriteRecord), other.Valid course world.db inserted →
      other.Valid course (flushIndex world.db record now) inserted := by
    intro inserted other hoth
    apply hoth.frame (le_of_eq hnxt.symm)
    intro id struct _
    rw [hstrs]
  apply hval.setPhase
  · exact {
      allocated := fun id struct h => by
        rw [hstrs] at h
        exact hnxt ▸ hval.db.allocated id struct h
      previous := fun id struct older h => by
        rw [hstrs] at h
        exact hval.db.previous id struct older h
      heads := fun other branch id h => by
        rw [hnxt]
        by_cases hoth : other = record.courseKey
        · subst hoth
          rcases headOf_flushIndex world.db record now with hsame | hhead
          · rw [hsame] at h
            exact hval.db.heads _ branch id h
          · rw [hhead] at h
            rcases hrec.heads branch with hclean | ⟨version, struct, hver, hnew, -⟩
            · exact hrec.initial branch id (hclean ▸ h)
            · obtain rfl := some_unique h hver
              exact hrec.allocated id struct hnew
        · rw [headOf_flushIndex_of_ne world.db record now hoth] at h
          exact hval.db.heads other branch id h }
  · rintro _ ⟨⟩
    exact hframe true record hrec
  · exact fun other record' _ hoth => hframe _ record' (hval.records other record' hoth)
  · rintro other _ record' hne ⟨⟩ hoth
    exact hval.apart_of hph rfl hne hoth

theorem edited (hph : world.phase client = .editing record)
    {branch : Branch} {change : Blocks → Blocks} {store : Store}
    (hrun : editBranch course branch change { db := world.db, record := record } =
      .ok () store) : Edited course branch { db := world.db, record := record } store := by
  have hrec := hval.record_of hph rfl
  have hedit : Triple (· = { db := world.db, record := record })
      (editBranch course branch change) (fun _ next => Edited course branch _ next) _ :=
    editBranch_triple hval.db hrec branch change
  have hstore := hedit _ rfl
  rw [hrun] at hstore
  exact hstore

end

theorem step {next : World} {action : ClientStep} (hval : world.Valid course)
    (hstep : StepTo course world client action next) : next.Valid course := by
  cases hstep with
  | start => exact hval.start
  | edit hph hrun => exact hval.edit hph (hval.edited hph hrun)
  | insertStructures hph => exact hval.insertStructures hph
  | updateIndex hph => exact hval.updateIndex hph _

end World.Valid

variable {id newer : ObjectId}

theorem InHistory.mono {structures later : Dict ObjectId Structure}
    (hkeep : ∀ id struct, structures.lookup id = some struct → later.lookup id = some struct)
    (hhis : InHistory structures id newer) : InHistory later id newer := by
  induction hhis with
  | self => exact .self
  | previous hstr hprv _ ih => exact .previous (hkeep _ _ hstr) hprv ih

theorem InHistory.trans {structures : Dict ObjectId Structure} {middle : ObjectId}
    (hfst : InHistory structures id middle) (hsec : InHistory structures middle newer) :
    InHistory structures id newer := by
  induction hsec with
  | self => exact hfst
  | previous hstr hprv _ ih => exact .previous hstr hprv ih

theorem InHistory.le (hdb : db.Valid) (hhis : InHistory db.structures id newer) : id ≤ newer := by
  induction hhis with
  | self => exact le_rfl
  | previous hstr hprv _ ih => exact le_trans ih (le_of_lt (hdb.previous _ _ _ hstr hprv))

theorem EditsContained.later {later : Database}
    {record : SplitBulkWriteRecord} (hcon : EditsContained course db record)
    (hkeep : ∀ id struct, db.structures.lookup id = some struct → later.structures.lookup id = some struct)
    (hheads : ∀ branch head, db.headOf course branch = some head →
      ∃ newer, later.headOf course branch = some newer ∧ InHistory later.structures head newer) :
    EditsContained course later record := by
  intro branch hdirty
  obtain ⟨version, struct, head, hver, hrec, hsaved, hhead, hhis⟩ := hcon branch hdirty
  obtain ⟨newer, hnewer, hdes⟩ := hheads branch head hhead
  exact ⟨version, struct, newer, hver, hrec, hkeep version struct hsaved, hnewer, (hhis.mono hkeep).trans hdes⟩

end EdxPlatform.Split
