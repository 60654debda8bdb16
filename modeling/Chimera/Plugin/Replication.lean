import Chimera.Foundations.KeyedLog
import Chimera.Oplog.Delivery
import Chimera.Plugin.KeyAgreement
import Chimera.Plugin.NamespaceIdentity
import Chimera.Translator.IdKeys

/-!
# Replicas of a collection

The triggers of a collection append one oplog row for every changed document row, with the whole
document, and a change stream renders these rows as events.  A client that has read the collection
once and then carries out the events of its stream, one after the other, has a replica: what it
holds is the collection as it was when the last event it was given had been committed.

The statements of any number of writers are steps here, together with commits, rollbacks, prune
passes and the statements of the streams.  The client may have read the collection at any time
after the position at which its stream began.  A stream selects by the text of a namespace, as the
collation of the oplog's column compares it, so that the events of a collection are told from those
of others only where the collation tells their texts apart.
-/

namespace Chimera

open Interaction KeyedLog SequencedLog StepSystem

/-! ## Triggers -/

/-- `JSON_OBJECT('_id', JSON_EXTRACT(doc, '$._id'))`. -/
def documentKey (doc : Json) : Json := Json.object [("_id", doc.extractId.getD .null)]

/-- A changed row, as its trigger sees it: the new row, or the old one where it is deleted. -/
inductive RowImage where
  | inserted (row : Row)
  | updated (row : Row)
  | deleted (row : Row)

/-- The row. -/
def RowImage.row : RowImage → Row
  | .inserted row | .updated row | .deleted row => row

/-- What is stored afterwards. -/
def RowImage.value : RowImage → Option Json
  | .inserted row | .updated row => some row.doc
  | .deleted _ => none

/-- The call of `oplog_append` in the trigger. -/
def RowImage.call (now gap : ℕ) : RowImage → AppendCall
  | .inserted row => ⟨now, gap, .i, row.ns.text, row.doc, none⟩
  | .updated row => ⟨now, gap, .u, row.ns.text, row.doc, some (documentKey row.doc)⟩
  | .deleted row => ⟨now, gap, .d, row.ns.text, documentKey row.doc, none⟩

/-- The rows that a statement changes, in the order in which their triggers fire. -/
def SqlServer.images (S : SqlServer) (rows : List Row) : Request → List RowImage
  | .insert row => [.inserted row]
  | .replace row =>
    (rows.filter (Row.isAt row.slot)).map fun r => .updated { r with doc := row.doc }
  | .delete ns key => (rows.filter (Row.isAt (ns, key))).map .deleted
  | .deleteWhere ns cond => (rows.filter (S.matches ns cond)).map .deleted
  | .tableExists _ | .select _ _ _ => []

/-- The calls of the triggers of a statement that begins at this time. -/
def triggerCalls (now : ℕ) (gap : ℕ → ℕ) (images : List RowImage) : List AppendCall :=
  images.mapIdx fun i image => image.call now (gap i)

/-! ## The system -/

/-- The oplog with its streams, and the collections. -/
structure ReplicatedServer where
  /-- The oplog, the streams and the connections. -/
  tail : TailSessions
  /-- The committed rows of the collections. -/
  rows : List Row
  /-- The rows as the transaction sees them that holds the clock row. -/
  working : List Row

/-- What can happen. -/
inductive ReplicationAction where
  /-- A statement of the connection's transaction, with the triggers it fires. -/
  | write (conn : ℕ) (q : Request) (now : ℕ) (gap : ℕ → ℕ)
  /-- A commit, a rollback, a statement of a prune pass or of a stream. -/
  | other (a : SessionAction)

namespace ReplicatedServer

/-- The current rows: a transaction that has changed rows holds the clock row to its end, so at most
one has. -/
def current (s : ReplicatedServer) : List Row :=
  if s.tail.server.lock.pending = [] then s.rows else s.working

/-- One action.  A statement that fails changes nothing, and neither does one whose triggers do not
get the clock row. -/
def step (S : SqlServer) (s : ReplicatedServer) : ReplicationAction → Option ReplicatedServer
  | .write conn q now gap =>
    match S.handler q s.current with
    | .error _ => none
    | .ok (_, rows) =>
      let calls := triggerCalls now gap (S.images s.current q)
      (runActions TailSessions.step s.tail (calls.map fun call => .server (.append conn call))).map
        fun tail => { s with tail := tail, working := rows }
  | .other (.server (.append _ _)) => none
  | .other (.server (.commit conn)) =>
    (s.tail.step (.server (.commit conn))).map fun tail =>
      { s with tail := tail, rows := s.current }
  | .other a => (s.tail.step a).map fun tail => { s with tail := tail }

end ReplicatedServer

/-! ## The client -/

/-- What a collection holds under its keys. -/
def contents (ns : Namespace) (rows : List Row) : Text → Option Json := fun key =>
  (rows.find? (Row.isAt (ns, key))).map Row.doc

/-- The member of an object. -/
def Json.field? (json : Json) (name : String) : Option Json :=
  match json with
  | .obj fields => (fields.find? fun f => decide (f.1 = name.toList)).map Prod.snd
  | _ => none

/-- The key of the document whose `_id` an event names. -/
def keyOf (L : Libbson) (json : Json) : Option Text :=
  match L.fromExtjson json with
  | .error _ => none
  | .ok key => (findField key idName).bind fun id => (encodeId id).toOption

/-- What an event says about the collection: under the key it names there is the full document, or
nothing after a delete. -/
def changeOf (L : Libbson) (event : Json) : Option (Change Text Json) := do
  let key ← keyOf L (← event.field? "documentKey")
  if event.field? "operationType" = some (Json.lit "delete") then return ⟨key, none⟩
  else return ⟨key, some (← event.field? "fullDocument")⟩

/-- What a changed row means for the collection. -/
def RowImage.change (ns : Namespace) (image : RowImage) : Option (Change Text Json) :=
  if image.row.ns = ns then some ⟨image.row.key, image.value⟩ else none

/-- A client carries out events, one after the other. -/
def follow (L : Libbson) (replica : Text → Option Json) (events : List Json) :
    Text → Option Json :=
  replay replica (events.filterMap (changeOf L))

/-- A stream on the collection selects the row: the column compares texts by its collation. -/
def concerns (fold : Text → Text) (ns : Namespace) (r : OplogRow) : Bool :=
  decide (fold r.ns = fold ns.text)

/-- What the events that a stream on the collection selects say about it. -/
def changesOf (L : Libbson) (fold : Text → Text) (ns : Namespace) (log : List OplogRow) :
    List (Change Text Json) :=
  (log.filter (concerns fold ns)).filterMap fun r => changeOf L (eventExpr r)

/-! ## What a statement does to a collection -/

section Statements

variable {L : Libbson} {S : SqlServer} {ns : Namespace} {rows rows' : List Row} {key : Text}
  {doc : Json} {row : Row}

/-- The collection holds the documents of its rows. -/
lemma contents_eq_some_iff (h : (slots rows).Nodup) :
    contents ns rows key = some doc ↔ ⟨ns, key, doc⟩ ∈ rows := by
  constructor
  · intro hdoc
    obtain ⟨row, hrow, rfl⟩ := Option.map_eq_some_iff.1 hdoc
    have hslot : row.slot = (ns, key) := Row.isAt_iff.1 (List.find?_some hrow)
    obtain ⟨rfl, rfl⟩ := Prod.mk.inj hslot
    exact List.mem_of_find?_eq_some hrow
  · intro hmem
    have hfound : (rows.find? (Row.isAt (ns, key))).isSome = true :=
      List.find?_isSome.2 ⟨_, hmem, Row.isAt_iff.2 rfl⟩
    obtain ⟨row, hrow⟩ := Option.isSome_iff_exists.1 hfound
    have hslot : row.slot = (ns, key) := Row.isAt_iff.1 (List.find?_some hrow)
    obtain rfl := eq_of_slot h hmem (List.mem_of_find?_eq_some hrow) hslot
    exact congrArg (Option.map Row.doc) hrow

/-- Rows in no slot of the collection's key leave it empty. -/
lemma contents_eq_none_iff : contents ns rows key = none ↔ ∀ row ∈ rows, row.slot ≠ (ns, key) := by
  simp [contents]

/-- Two lists of rows hold the same under a key when the same rows are in its slot. -/
lemma contents_congr (h : (slots rows).Nodup) (h' : (slots rows').Nodup)
    (hmem : ∀ doc, ⟨ns, key, doc⟩ ∈ rows' ↔ ⟨ns, key, doc⟩ ∈ rows) :
    contents ns rows' key = contents ns rows key := by
  refine Option.ext fun doc => ?_
  exact (contents_eq_some_iff h').trans ((hmem doc).trans (contents_eq_some_iff h).symm)

/-- A new row in a free slot. -/
lemma contents_insertRow (h : (slots rows).Nodup) (hfree : row.slot ∉ slots rows) :
    contents ns (insertRow row rows) =
      replay (contents ns rows) ([RowImage.inserted row].filterMap (RowImage.change ns)) := by
  have hperm := insertRow_perm row rows
  have hnodup : (slots (insertRow row rows)).Nodup :=
    ((hperm.map Row.slot).nodup_iff).2 (List.nodup_cons.2 ⟨hfree, h⟩)
  funext key
  by_cases hslot : row.slot = (ns, key)
  · obtain ⟨rfl, rfl⟩ := Prod.mk.inj hslot
    have hthere := (contents_eq_some_iff hnodup).2 (hperm.mem_iff.2 List.mem_cons_self)
    simp [RowImage.change, RowImage.row, RowImage.value, Change.apply, hthere]
  · have hsame : contents ns (insertRow row rows) key = contents ns rows key := by
      refine contents_congr h hnodup fun doc => ?_
      rw [hperm.mem_iff, List.mem_cons]
      refine ⟨fun hmem => hmem.resolve_left fun heq => hslot ?_, Or.inr⟩
      rw [← heq]
      rfl
    rw [hsame]
    by_cases hns : row.ns = ns
    · have hkey : key ≠ row.key := fun hkey => hslot (Prod.ext hns hkey.symm)
      simp [RowImage.change, RowImage.row, RowImage.value, Change.apply, hns, hkey]
    · simp [RowImage.change, RowImage.row, hns]

/-- Rows that are deleted. -/
lemma contents_filter (h : (slots rows).Nodup) (p : Row → Bool) :
    contents ns (rows.filter fun r => !p r) =
      replay (contents ns rows)
        (((rows.filter p).map RowImage.deleted).filterMap (RowImage.change ns)) := by
  have hnodup : (slots (rows.filter fun r => !p r)).Nodup :=
    h.sublist (List.filter_sublist.map _)
  have hlog : ∀ c, c ∈ ((rows.filter p).map RowImage.deleted).filterMap (RowImage.change ns) ↔
      ∃ r ∈ rows, p r = true ∧ r.ns = ns ∧ c = ⟨r.key, none⟩ := by
    intro c
    simp only [List.mem_filterMap, List.mem_map, List.mem_filter]
    constructor
    · rintro ⟨-, ⟨r, ⟨hr, hp⟩, rfl⟩, hc⟩
      simp only [RowImage.change] at hc
      split at hc
      · rename_i hns
        exact ⟨r, hr, hp, hns, (Option.some.inj hc).symm⟩
      · cases hc
    · rintro ⟨r, hr, hp, hns, rfl⟩
      exact ⟨_, ⟨r, ⟨hr, hp⟩, rfl⟩, if_pos hns⟩
  funext key
  rw [replay_apply]
  cases hlast : last key (((rows.filter p).map RowImage.deleted).filterMap
      (RowImage.change ns)) with
  | none =>
    refine contents_congr h hnodup fun doc => ?_
    rw [List.mem_filter]
    refine and_iff_left_of_imp fun hmem => ?_
    cases hp : p ⟨ns, key, doc⟩ with
    | false => rfl
    | true => exact absurd hlast (last_ne_none ((hlog ⟨key, none⟩).2 ⟨_, hmem, hp, rfl, rfl⟩))
  | some v =>
    obtain ⟨c, hc, rfl, rfl⟩ := exists_of_last hlast
    obtain ⟨r, hr, hp, rfl, rfl⟩ := (hlog c).1 hc
    refine contents_eq_none_iff.2 fun r' hr' hslot => ?_
    obtain ⟨hr', hp'⟩ := List.mem_filter.1 hr'
    obtain rfl : r' = r := eq_of_slot h hr hr' hslot
    simp [hp] at hp'

/-- A document that is replaced. -/
lemma contents_replaceRow (h : (slots rows).Nodup) :
    contents ns (replaceRow row rows) =
      replay (contents ns rows) (((rows.filter (Row.isAt row.slot)).map fun r =>
        RowImage.updated { r with doc := row.doc }).filterMap (RowImage.change ns)) := by
  by_cases hslot : row.slot ∈ slots rows
  · obtain ⟨r, hr, hrow⟩ := List.mem_map.1 hslot
    have himage : ({ r with doc := row.doc } : Row) = row := by
      obtain ⟨hns, hkey⟩ := Prod.mk.inj hrow
      cases row
      simp_all
    have hnodup : (slots (replaceRow row rows)).Nodup := (slots_replaceRow row rows).symm ▸ h
    have hthere : row ∈ replaceRow row rows := by
      refine List.mem_map.2 ⟨r, hr, ?_⟩
      rw [if_pos hrow, himage]
    rw [← hrow, filter_isAt h hr, List.map_singleton, himage]
    funext key
    by_cases hat : row.slot = (ns, key)
    · obtain ⟨rfl, rfl⟩ := Prod.mk.inj hat
      simp [RowImage.change, RowImage.row, RowImage.value, Change.apply,
        (contents_eq_some_iff hnodup).2 hthere]
    · have hsame : contents ns (replaceRow row rows) key = contents ns rows key := by
        refine contents_congr h hnodup fun doc => ⟨fun hmem => ?_, fun hmem => ?_⟩
        · refine ((mem_replaceRow hmem).resolve_right fun heq => hat ?_).1
          rw [← heq.1]
          rfl
        · exact mem_replaceRow_of_ne hmem fun heq => hat heq.symm
      rw [hsame]
      by_cases hns : row.ns = ns
      · have hkey : key ≠ row.key := fun hkey => hat (Prod.ext hns hkey.symm)
        simp [RowImage.change, RowImage.row, RowImage.value, Change.apply, hns, hkey]
      · simp [RowImage.change, RowImage.row, hns]
  · have hnone : rows.filter (Row.isAt row.slot) = [] := by
      refine List.filter_eq_nil_iff.2 fun r hr hat => hslot ?_
      exact Row.isAt_iff.1 hat ▸ List.mem_map_of_mem hr
    have hsame : replaceRow row rows = rows := by
      refine (List.map_congr_left fun r hr => if_neg fun heq => hslot ?_).trans (List.map_id rows)
      exact heq ▸ List.mem_map_of_mem hr
    rw [hnone, hsame]
    rfl

/-- A statement makes of a collection what its triggers say. -/
lemma contents_perform (h : (slots rows).Nodup) {q : Request} {answer : q.Answer}
    (hq : S.perform q rows = .ok (answer, rows')) :
    contents ns rows' =
      replay (contents ns rows) ((S.images rows q).filterMap (RowImage.change ns)) := by
  cases q with
  | tableExists ns' =>
    obtain ⟨-, rfl⟩ := Prod.mk.inj (Except.ok.inj hq)
    rfl
  | select ns' cond limit =>
    rw [SqlServer.perform] at hq
    split at hq
    · obtain ⟨-, rfl⟩ := Prod.mk.inj (Except.ok.inj hq)
      rfl
    · cases hq
  | insert row =>
    rw [SqlServer.perform] at hq
    split at hq
    · cases hq
    split at hq
    · cases hq
    rename_i hfree
    obtain ⟨-, rfl⟩ := Prod.mk.inj (Except.ok.inj hq)
    exact contents_insertRow h fun hslot => hfree (any_isAt.2 hslot)
  | replace row =>
    obtain ⟨-, rfl⟩ := Prod.mk.inj (Except.ok.inj hq)
    exact contents_replaceRow h
  | delete ns' key =>
    obtain ⟨-, rfl⟩ := Prod.mk.inj (Except.ok.inj hq)
    exact contents_filter h _
  | deleteWhere ns' cond =>
    rw [SqlServer.perform] at hq
    split at hq
    · obtain ⟨-, rfl⟩ := Prod.mk.inj (Except.ok.inj hq)
      exact contents_filter h _
    · cases hq

end Statements

/-! ## Statements that keep keys and documents in agreement -/

/-- The row holds a document under the key of its `_id`. -/
def StoredUnder (L : Libbson) (row : Row) (id : Value) : Prop :=
  ∃ doc, L.toExtjson doc = .ok row.doc ∧ findField doc idName = some id ∧
    encodeId id = .ok row.key

/-- A statement stores documents only under the keys of their `_id`. -/
def Request.Keyed (L : Libbson) : Request → Prop
  | .insert row => ∃ id, HasId L row id
  | .replace row => ∃ id, StoredUnder L row id
  | _ => True

/-- A statement on this collection; where the ids are left alone, it stores documents only under
the keys of their `_id`. -/
def Request.Within (L : Libbson) (ns : Namespace) (leaves : Prop) (q : Request) : Prop :=
  q.ns = ns ∧ (leaves → q.Keyed L)

section Statements

variable {L : Libbson} {S : SqlServer} {ns : Namespace} {leaves : Prop} {rows rows' : List Row}
  {row : Row} {id : Value}

/-- Looking for a table is a statement on the collection. -/
lemma within_requireExists : (requireExists ns).Asks (Request.Within L ns leaves) :=
  Asks.bind ⟨⟨rfl, fun _ => trivial⟩, fun _ => trivial⟩ fun _ => Asks.ite trivial trivial

/-- So is loading documents. -/
lemma within_load {filter : Doc} : (load L ns filter).Asks (Request.Within L ns leaves) :=
  Asks.bind within_requireExists fun _ => Asks.ofExcept_bind fun _ _ =>
    Asks.bind ⟨⟨rfl, fun _ => trivial⟩, fun _ => trivial⟩ fun _ => Asks.ofExcept _

/-- A document is inserted under the key of its `_id`. -/
lemma within_insertDocument {oid : BitVec 96} {document : Doc}
    (hnan : leaves → (withId oid document).1.isNaN = false) :
    (insertDocument L ns oid document).Asks (Request.Within L ns leaves) := by
  refine Asks.ofExcept_bind fun key hkey => Asks.ofExcept_bind fun json hjson => ?_
  refine Asks.bind ⟨⟨rfl, fun h => ?_⟩, fun _ => trivial⟩ fun _ => trivial
  have hid : findField (withId oid document).2 idName = some (withId oid document).1 := by
    unfold withId
    split
    · assumption
    · simp [findField]
  exact ⟨_, _, hjson, hid, hkey, exactScalar_of_encodeId hkey (hnan h)⟩

/-- An updated document goes back under the key of the `_id` it was loaded with. -/
lemma within_updateMatches {u : Doc} (hu : leaves → updateAvoids idName u = true)
    (documents : List Doc) (outcome : UpdateOutcome) :
    (updateMatches L ns u documents outcome).Asks (Request.Within L ns leaves) := by
  induction documents generalizing outcome with
  | nil => trivial
  | cons document documents ih =>
    unfold updateMatches
    split
    · trivial
    · rename_i id hid
      refine Asks.ofExcept_bind fun result hresult => ?_
      refine Asks.ofExcept_bind fun after hafter => ?_
      refine Asks.ofExcept_bind fun before _ => ?_
      refine Asks.ite (ih _) (Asks.ofExcept_bind fun key hkey => ?_)
      refine Asks.bind ⟨⟨rfl, fun h => ?_⟩, fun _ => trivial⟩ fun _ => ih _
      exact ⟨id, result, hafter, findField_id_applyUpdate (hu h) hid hresult, hkey⟩

/-- An update sends statements on the collection. -/
lemma within_updateDocuments {filter u : Doc} {multi upsert : Bool} {oid : BitVec 96}
    (hu : leaves → updateAvoids idName u = true)
    (hids : leaves → upsert = true → numericIds filter = true ∧ numericIds u = true) :
    (updateDocuments L ns filter u multi upsert oid).Asks (Request.Within L ns leaves) := by
  refine Asks.bind within_requireExists fun _ => Asks.bind within_load fun documents => ?_
  refine Asks.bind (within_updateMatches hu _ _) fun outcome => ?_
  split
  · rename_i hupsert
    refine Asks.ofExcept_bind fun result hresult => ?_
    refine Asks.bind (within_insertDocument fun h => ?_) fun _ => trivial
    obtain ⟨hq, hun⟩ := hids h (Bool.and_eq_true_iff.1 hupsert).2
    exact isNaN_upserted (hu h) hq hun hresult
  · trivial

/-- So does a removal. -/
lemma within_removeDocuments {filter : Doc} {justOne : Bool} :
    (removeDocuments L ns filter justOne).Asks (Request.Within L ns leaves) := by
  refine Asks.bind within_requireExists fun _ => Asks.ofExcept_bind fun cond _ => ?_
  refine Asks.ite ⟨⟨rfl, fun _ => trivial⟩, fun _ => trivial⟩ ?_
  refine Asks.bind ⟨⟨rfl, fun _ => trivial⟩, fun _ => trivial⟩ fun found => ?_
  cases found with
  | nil => trivial
  | cons row found => exact ⟨⟨rfl, fun _ => trivial⟩, fun _ => trivial⟩

/-- So does `findAndModify`. -/
lemma within_findAndModify {c : FindAndModify}
    (hc : leaves → (WriteCommand.findAndModify c).leavesIds = true) :
    (findAndModify L ns c).Asks (Request.Within L ns leaves) := by
  have hids (h : leaves) (hremove : ¬ c.remove = true) :
      updateAvoids idName (c.update.getD []) = true ∧ (c.upsert = true →
        numericIds c.query = true ∧ numericIds (c.update.getD []) = true) := by
    simpa [WriteCommand.leavesIds, hremove, imp_iff_not_or] using hc h
  have hfirst : (findFirst L ns c.query c.sort).Asks (Request.Within L ns leaves) := by
    refine Asks.bind ⟨⟨rfl, fun _ => trivial⟩, fun _ => trivial⟩ fun there => ?_
    refine Asks.ite (Asks.bind within_load fun documents => ?_) trivial
    exact Asks.ite trivial (Asks.ofExcept_bind fun sorted _ => trivial)
  have hbyId (id : Value) : (loadById L ns id).Asks (Request.Within L ns leaves) :=
    Asks.bind within_load fun _ => trivial
  refine Asks.bind hfirst fun documents => ?_
  cases documents with
  | cons document documents =>
    simp only
    split
    · trivial
    · rename_i id hid
      split
      · exact Asks.bind within_removeDocuments fun _ => trivial
      · rename_i hremove
        refine Asks.bind (within_updateDocuments (fun h => (hids h hremove).1)
          fun _ hupsert => absurd hupsert (by decide)) fun _ => ?_
        split
        · exact Asks.bind (hbyId _) fun _ => trivial
        · trivial
  | nil =>
    simp only
    split
    · rename_i hupsert
      obtain ⟨hkeeps, hupsert⟩ := Bool.and_eq_true_iff.1 hupsert
      have hremove : ¬ c.remove = true := by simpa using hkeeps
      refine Asks.bind (within_updateDocuments (fun h => (hids h hremove).1)
        fun h _ => (hids h hremove).2 hupsert) fun outcome => ?_
      split
      · exact Asks.bind (hbyId _) fun _ => trivial
      · trivial
    · trivial

/-- **What a write command sends.**  Whatever the answers are, a write command sends only
statements on its collection; and if it leaves ids alone, it stores documents only under the keys of
their `_id`. -/
theorem within_body (c : WriteCommand) :
    (c.body L ns).Asks (Request.Within L ns (c.leavesIds = true)) := by
  cases c with
  | insert document oid =>
    exact Asks.bind (within_insertDocument fun h => isNaN_withId h) fun _ => trivial
  | update q u multi upsert oid =>
    have hids (h : (WriteCommand.update q u multi upsert oid).leavesIds = true) :
        updateAvoids idName u = true ∧
          (upsert = true → numericIds q = true ∧ numericIds u = true) := by
      simpa [WriteCommand.leavesIds, imp_iff_not_or] using h
    exact Asks.bind (within_updateDocuments (fun h => (hids h).1) fun h => (hids h).2)
      fun _ => trivial
  | delete q justOne => exact Asks.bind within_removeDocuments fun _ => trivial
  | findAndModify c =>
    rw [WriteCommand.body]
    exact Asks.ite trivial (Asks.bind (within_findAndModify id) fun _ => trivial)

end Statements

/-! ## Events -/

/-- The key of a document is found in the `_id` that an event of it names. -/
def Libbson.KeepsKeys (L : Libbson) : Prop :=
  ∀ doc json id key, L.toExtjson doc = .ok json → findField doc idName = some id →
    id.exactScalar = true → encodeId id = .ok key → keyOf L (documentKey json) = some key

/-- The oplog row is one that the trigger appended for the image. -/
def RowImage.Logged (image : RowImage) (r : OplogRow) : Prop :=
  r.op = (image.call 0 0).op ∧ r.ns = image.row.ns.text ∧ r.o = (image.call 0 0).o ∧
    r.o2 = (image.call 0 0).o2

section Events

variable {L : Libbson} {S : SqlServer} {fold : Text → Text} {ns : Namespace}
  {rows rows' : List Row} {row : Row} {id : Value} {image : RowImage} {r : OplogRow} {q : Request}

/-- NaN shares its key with no number. -/
lemma exactScalar_of_encodeId_eq {v w : Value} {key : Text} (hv : v.exactScalar = true)
    (hkey : encodeId v = .ok key) (hkey' : encodeId w = .ok key) : w.exactScalar = true := by
  refine exactScalar_of_encodeId hkey' ?_
  by_contra hnan
  cases w with
  | double d =>
    replace hnan : d.isNaN = true := by simpa [Value.isNaN] using hnan
    have hexponent : d.exponentField = 2047 := by
      simp only [Binary64.isNaN, Bool.and_eq_true, decide_eq_true_eq] at hnan
      exact hnan.1
    have hfinite : d.isFinite = false := by rw [Binary64.isFinite, hexponent]; rfl
    have hintegral : integralDouble d = none := by
      rw [integralDouble, Binary64.isIntegral, hfinite]
      exact if_neg fun h => Bool.false_ne_true h.1
    have hkeyd : key = tagDouble :: encodeDouble d := by
      simp only [encodeId, hintegral] at hkey'
      exact (Except.ok.inj hkey').symm
    obtain ⟨_, -, hcode⟩ | ⟨_, -, hcode⟩ | ⟨_, -, hcode⟩ | ⟨e, rfl, -, hcode⟩ := encodeId_cases hv
    · cases (hcode.symm.trans (hkey.trans (congrArg _ hkeyd)))
    · cases (hcode.symm.trans (hkey.trans (congrArg _ hkeyd)))
    · cases (hcode.symm.trans (hkey.trans (congrArg _ hkeyd)))
    · have hsame : encodeDouble e = encodeDouble d :=
        (List.cons.inj (Except.ok.inj (hcode.symm.trans (hkey.trans (congrArg _ hkeyd))))).2
      obtain rfl : e = d := by
        rw [← decodeDouble_encodeDouble e, hsame, decodeDouble_encodeDouble]
      simp [Value.exactScalar, hnan] at hv
  | _ => cases hnan rfl

/-- A stored row is found under its key. -/
lemma HasId.keyOf (hL : L.KeepsKeys) (h : HasId L row id) :
    keyOf L (documentKey row.doc) = some row.key := by
  obtain ⟨doc, hdoc, hid, hkey, hexact⟩ := h
  exact hL doc row.doc id row.key hdoc hid hexact hkey

/-- What an event names the document by. -/
lemma eventExpr_documentKey (r : OplogRow) :
    (eventExpr r).field? "documentKey" = some (r.o2.getD (documentKey r.o)) := by
  obtain ⟨seq, ts, op, ns, o, o2⟩ := r
  cases op with
  | i | u | d => rfl

/-- The kind of an event. -/
lemma eventExpr_operationType (r : OplogRow) :
    (eventExpr r).field? "operationType" = some (Json.lit r.op.operationType) := rfl

/-- A delete is told by its kind. -/
lemma lit_operationType_iff {op : OplogOp} :
    some (Json.lit op.operationType) = some (Json.lit "delete") ↔ op = .d := by
  cases op with
  | i | u | d => simp [Json.lit, OplogOp.operationType]

/-- The document of an event that is no delete. -/
lemma eventExpr_fullDocument {r : OplogRow} (h : r.op ≠ .d) :
    (eventExpr r).field? "fullDocument" = some r.o := by
  obtain ⟨seq, ts, op, ns, o, o2⟩ := r
  cases op with
  | i | u => rfl
  | d => exact absurd rfl h

/-- The key of a document is that of its key document. -/
lemma documentKey_documentKey (doc : Json) : documentKey (documentKey doc) = documentKey doc := rfl

/-- An event says of the collection what happened to the row. -/
lemma changeOf_eventExpr (hL : L.KeepsKeys) (h : HasId L image.row id) (hr : image.Logged r) :
    changeOf L (eventExpr r) = some ⟨image.row.key, image.value⟩ := by
  have hkey := h.keyOf hL
  obtain ⟨hop, -, ho, ho2⟩ := hr
  have hnamed : r.o2.getD (documentKey r.o) = documentKey image.row.doc := by
    rw [ho, ho2]
    cases image with
    | inserted row | updated row => rfl
    | deleted row => exact documentKey_documentKey row.doc
  unfold changeOf
  rw [eventExpr_documentKey, eventExpr_operationType, hnamed]
  simp only [Option.bind_eq_bind, Option.bind_some, hkey, lit_operationType_iff]
  cases image with
  | inserted row | updated row =>
    have hlives : r.op ≠ .d := by
      rw [hop]
      nofun
    rw [if_neg hlives, eventExpr_fullDocument hlives, ho]
    rfl
  | deleted row =>
    have hgone : r.op = .d := hop
    rw [if_pos hgone]
    rfl

/-- A document is replaced by one with an `_id` for the same key. -/
lemma StoredUnder.hasId {r : Row} (h : StoredUnder L row id) {v : Value} (hr : HasId L r v)
    (hslot : r.slot = row.slot) : HasId L row id := by
  obtain ⟨doc, hdoc, hid, hkey⟩ := h
  obtain ⟨-, -, -, hkey', hexact⟩ := hr
  have hsame : r.key = row.key := (Prod.mk.inj hslot).2
  exact ⟨doc, hdoc, hid, hkey, exactScalar_of_encodeId_eq hexact (hsame ▸ hkey') hkey⟩

/-- Every row that a statement changes belongs to its collection, and is under the key of its
`_id`, before or after. -/
lemma hasId_of_mem_images (h : Agreement L rows) (hq : q.Keyed L)
    (himage : image ∈ S.images rows q) : image.row.ns = q.ns ∧ ∃ id, HasId L image.row id := by
  cases q with
  | tableExists _ | select _ _ _ => cases himage
  | insert row =>
    obtain rfl := List.mem_singleton.1 himage
    exact ⟨rfl, hq⟩
  | replace row =>
    obtain ⟨r, hr, rfl⟩ := List.mem_map.1 himage
    obtain ⟨hr, hat⟩ := List.mem_filter.1 hr
    have hslot : r.slot = row.slot := Row.isAt_iff.1 hat
    obtain ⟨id, hid⟩ := hq
    obtain ⟨v, hv⟩ := h.ids r hr
    have hrow : ({ r with doc := row.doc } : Row) = row := by
      obtain ⟨hns, hkey⟩ := Prod.mk.inj hslot
      cases row
      simp_all
    refine ⟨(Prod.mk.inj hslot).1, id, ?_⟩
    change HasId L { r with doc := row.doc } id
    rw [hrow]
    exact hid.hasId hv hslot
  | delete ns key =>
    obtain ⟨r, hr, rfl⟩ := List.mem_map.1 himage
    obtain ⟨hr, hat⟩ := List.mem_filter.1 hr
    exact ⟨(Prod.mk.inj (Row.isAt_iff.1 hat)).1, h.ids r hr⟩
  | deleteWhere ns cond =>
    obtain ⟨r, hr, rfl⟩ := List.mem_map.1 himage
    obtain ⟨hr, hmatches⟩ := List.mem_filter.1 hr
    exact ⟨of_decide_eq_true (Bool.and_eq_true_iff.1 hmatches).1, h.ids r hr⟩

/-- A statement that stores documents only under the keys of their `_id` keeps them in
agreement. -/
lemma Agreement.perform (h : Agreement L rows) (hq : q.Keyed L) {answer : q.Answer}
    (hok : S.perform q rows = .ok (answer, rows')) : Agreement L rows' := by
  have hremove (p : Row → Bool) : Agreement L (rows.filter p) :=
    (Carries.remove (Carries.refl h) List.filter_sublist).agreement
  cases q with
  | tableExists ns =>
    obtain ⟨-, rfl⟩ := Prod.mk.inj (Except.ok.inj hok)
    exact h
  | select ns cond limit =>
    rw [SqlServer.perform] at hok
    split at hok
    · obtain ⟨-, rfl⟩ := Prod.mk.inj (Except.ok.inj hok)
      exact h
    · cases hok
  | insert row =>
    rw [SqlServer.perform] at hok
    split at hok
    · cases hok
    split at hok
    · cases hok
    rename_i hfree
    obtain ⟨-, rfl⟩ := Prod.mk.inj (Except.ok.inj hok)
    obtain ⟨id, hid⟩ := hq
    exact ((Carries.refl h).insert hid fun hslot => hfree (any_isAt.2 hslot)).agreement
  | replace row =>
    obtain ⟨-, rfl⟩ := Prod.mk.inj (Except.ok.inj hok)
    obtain ⟨id, hid⟩ := hq
    refine ⟨fun r hr => ?_, (slots_replaceRow row rows).symm ▸ h.slots⟩
    obtain ⟨hr, -⟩ | ⟨rfl, hslot⟩ := mem_replaceRow hr
    · exact h.ids r hr
    · obtain ⟨r₀, hr₀, hrow⟩ := List.mem_map.1 hslot
      obtain ⟨v, hv⟩ := h.ids r₀ hr₀
      exact ⟨id, hid.hasId hv hrow⟩
  | delete ns key =>
    obtain ⟨-, rfl⟩ := Prod.mk.inj (Except.ok.inj hok)
    exact hremove _
  | deleteWhere ns cond =>
    rw [SqlServer.perform] at hok
    split at hok
    · obtain ⟨-, rfl⟩ := Prod.mk.inj (Except.ok.inj hok)
      exact hremove _
    · cases hok

/-- The changes of two stretches of the oplog. -/
lemma changesOf_append {log log' : List OplogRow} :
    changesOf L fold ns (log ++ log') = changesOf L fold ns log ++ changesOf L fold ns log' := by
  simp [changesOf]

/-- The events of a statement say of a collection what its triggers say, where the collation tells
the collection from the others. -/
lemma changesOf_logged (hL : L.KeepsKeys) {images : List RowImage} {new : List OplogRow}
    (hlogged : List.Forall₂ RowImage.Logged images new)
    (hids : ∀ image ∈ images, (fold image.row.ns.text = fold ns.text → image.row.ns = ns) ∧
      ∃ id, HasId L image.row id) :
    changesOf L fold ns new = images.filterMap (RowImage.change ns) := by
  induction hlogged with
  | nil => rfl
  | @cons image r images new hr _ ih =>
    have ih := ih fun image' h => hids image' (List.mem_cons_of_mem _ h)
    obtain ⟨htold, id, hid⟩ := hids image List.mem_cons_self
    rw [List.filterMap_cons, RowImage.change]
    by_cases hsame : image.row.ns = ns
    · have hmatch : concerns fold ns r = true := by simp [concerns, hr.2.1, hsame]
      simp only [if_pos hsame, changesOf, List.filter_cons, hmatch, if_true, List.filterMap_cons,
        changeOf_eventExpr hL hid hr]
      exact congrArg _ ih
    · have hother : concerns fold ns r = false := by
        refine decide_eq_false fun hfold => hsame (htold ?_)
        rwa [hr.2.1] at hfold
      simp only [if_neg hsame, changesOf, List.filter_cons, hother, Bool.false_eq_true, if_false]
      exact ih

end Events

end Chimera
