import Chimera.Foundations.Run
import Chimera.Plugin.Collection

/-!
# Keys and documents agree

Every row that the write commands store holds a document with an `_id`, under the primary key
that `encode_id` makes of it.  The invariant is proved for the statements of a command one after
the other, together with what it is for: every `UPDATE` of `replace_document` reaches exactly the
row that its document was loaded from.
-/

namespace Chimera

open Interaction StepSystem

/-! ## The invariant -/

/-- The row holds a document whose `_id` is `id`, under the key of that `_id`. -/
def HasId (L : Libbson) (row : Row) (id : Value) : Prop :=
  ∃ doc, L.toExtjson doc = .ok row.doc ∧ findField doc idName = some id ∧
    encodeId id = .ok row.key ∧ id.exactScalar = true

/-- Keys and documents agree, and no two rows are in one slot. -/
structure Agreement (L : Libbson) (rows : List Row) : Prop where
  /-- Every row is under the key of its document's `_id`. -/
  ids : ∀ row ∈ rows, ∃ id, HasId L row id
  /-- A slot holds one row. -/
  slots : (slots rows).Nodup

/-- A row that keeps its slot keeps its `_id`. -/
def KeepsIds (L : Libbson) (rows rows' : List Row) : Prop :=
  ∀ row ∈ rows, ∀ row' ∈ rows', row'.slot = row.slot → ∀ id, HasId L row id → HasId L row' id

/-- What holds between the statements of a command that started from `start`, until it removes a
row. -/
structure Carries (L : Libbson) (start rows : List Row) : Prop where
  /-- Keys and documents agree. -/
  agreement : Agreement L rows
  /-- The rows of the start have kept their `_id`. -/
  keeps : KeepsIds L start rows
  /-- The rows of the start are still there. -/
  stays : slots start ⊆ slots rows

/-- What holds when a command that started from `start` is done. -/
structure Settles (L : Libbson) (start rows : List Row) : Prop where
  /-- Keys and documents agree. -/
  agreement : Agreement L rows
  /-- The rows of the start that are still there have kept their `_id`. -/
  keeps : KeepsIds L start rows

/-- An `UPDATE` of one document reaches one row, and writes what an update makes of the document
that was loaded from this row. -/
def TouchesLoaded (L : Libbson) (row : Row) (rows seen : List Row) : Prop :=
  (∃ r, rows.filter (Row.isAt row.slot) = [r]) ∧
    ∃ loaded ∈ seen, loaded.slot = row.slot ∧ ∃ d u d', L.fromExtjson loaded.doc = .ok d ∧
      applyUpdate d u = .ok d' ∧ L.toExtjson d' = .ok row.doc

/-- Note the rows that a command has read. -/
def noteRows : (q : Request) → q.Answer → List Row → List Row
  | .select _ _ _, found, seen => List.append seen found
  | _, _, seen => seen

/-- The server, with the rows that a command has read. -/
def SqlServer.watched (S : SqlServer) :
    Handler TranslatorError Request Request.Answer (List Row × List Row) :=
  S.handler.watch noteRows

/-- Where a statement may be sent: an `UPDATE` only where it reaches the row it is meant for. -/
def MaySend (L : Libbson) : Request → List Row × List Row → Prop
  | .replace row, (rows, seen) => TouchesLoaded L row rows seen
  | _, _ => True

/-! ## What the commands are given -/

/-- The value is not a number. -/
def Value.isNaN : Value → Bool
  | .double d => d.isNaN
  | _ => false

/-- No field of the name `_id` is NaN. -/
def numericIds (doc : Doc) : Bool :=
  doc.all fun field => !decide (field.1 = idName) || !field.2.isNaN

/-- The command gives no NaN as an `_id`, in a document to insert, or in the filter or the
replacement of an upsert; and its operators leave `_id` alone. -/
def WriteCommand.leavesIds : WriteCommand → Bool
  | .insert document _ => numericIds document
  | .update q u _ upsert _ => updateAvoids idName u && (!upsert || numericIds q && numericIds u)
  | .delete _ _ => true
  | .findAndModify c =>
    c.remove || (updateAvoids idName (c.update.getD []) &&
      (!c.upsert || numericIds c.query && numericIds (c.update.getD [])))

/-! ## Rows and their `_id` -/

section Rows

variable {L : Libbson} {S : SqlServer} {start rows seen : List Row} {ns : Namespace}

/-- A document that is read from a row has the row's `_id`. -/
lemma HasId.read (hL : L.KeepsScalars) {row : Row} {id : Value} (h : HasId L row id) {d : Doc}
    (hd : L.fromExtjson row.doc = .ok d) : findField d idName = some id := by
  obtain ⟨doc, hdoc, hid, -, hexact⟩ := h
  exact hL doc row.doc d idName id hdoc hd hid hexact

/-- The `_id` of a key is a scalar that is spelled exactly, unless it is NaN. -/
lemma exactScalar_of_encodeId {v : Value} {key : Text} (h : encodeId v = .ok key)
    (hv : v.isNaN = false) : v.exactScalar = true := by
  cases v with
  | double d => simpa [Value.exactScalar, Value.isNaN] using hv
  | oid _ | utf8 _ | int32 _ | int64 _ => rfl
  | _ => cases h

/-- The `_id` of a document that has no NaN there. -/
lemma isNaN_of_findField {doc : Doc} {id : Value} (h : numericIds doc = true)
    (hid : findField doc idName = some id) : id.isNaN = false := by
  obtain ⟨field, hfield, rfl⟩ := Option.map_eq_some_iff.1 hid
  have hmem := List.mem_of_find?_eq_some hfield
  have hname : field.1 = idName := by simpa using List.find?_some hfield
  simpa [hname] using List.all_eq_true.1 h field hmem

/-- A slot with one row in it. -/
lemma filter_isAt {row : Row} (hslots : (slots rows).Nodup) (hrow : row ∈ rows) :
    rows.filter (Row.isAt row.slot) = [row] := by
  induction rows with
  | nil => cases hrow
  | cons r rows ih =>
    obtain ⟨hr, hrows⟩ := List.nodup_cons.1 hslots
    rcases List.mem_cons.1 hrow with rfl | hrow
    · have hnone : rows.filter (Row.isAt row.slot) = [] := by
        refine List.filter_eq_nil_iff.2 fun r hmem hat => hr ?_
        rw [← Row.isAt_iff.1 hat]
        exact List.mem_map_of_mem hmem
      rw [List.filter_cons_of_pos (Row.isAt_iff.2 rfl), hnone]
    · have hne : ¬ r.isAt row.slot = true := by
        intro hat
        refine hr ?_
        rw [Row.isAt_iff.1 hat]
        exact List.mem_map_of_mem hrow
      rw [List.filter_cons_of_neg hne, ih hrows hrow]

/-- Two rows in one slot are one row. -/
lemma eq_of_slot {row row' : Row} (hslots : (slots rows).Nodup) (hrow : row ∈ rows)
    (hrow' : row' ∈ rows) (h : row'.slot = row.slot) : row' = row := by
  have := filter_isAt hslots hrow
  rw [← h, filter_isAt hslots hrow'] at this
  exact List.head_eq_of_cons_eq this

/-- At the start of a command. -/
lemma Carries.refl (h : Agreement L rows) : Carries L rows rows where
  agreement := h
  keeps _ hrow _ hrow' hslot _ hid := eq_of_slot h.slots hrow hrow' hslot ▸ hid
  stays := List.Subset.refl _

/-- At the end of a command that removes nothing. -/
lemma Carries.settles (h : Carries L start rows) : Settles L start rows :=
  ⟨h.agreement, h.keeps⟩

/-- At the end of a command that goes on to read. -/
lemma Carries.settles_of_eq {rows' : List Row} (h : Carries L start rows) (hrows : rows' = rows) :
    Settles L start rows' := hrows ▸ h.settles

/-- Removing rows. -/
lemma Carries.remove {rows' : List Row} (h : Carries L start rows) (hsub : rows'.Sublist rows) :
    Settles L start rows' where
  agreement := {
    ids := fun row hrow => h.agreement.ids row (hsub.subset hrow)
    slots := h.agreement.slots.sublist (hsub.map _) }
  keeps row hrow row' hrow' := h.keeps row hrow row' (hsub.subset hrow')

/-- Inserting a row into a slot that is free. -/
lemma Carries.insert {row : Row} {id : Value} (h : Carries L start rows) (hid : HasId L row id)
    (hfree : row.slot ∉ slots rows) : Carries L start (insertRow row rows) := by
  have hperm := insertRow_perm row rows
  refine ⟨⟨fun r hr => ?_, ?_⟩, fun r hr r' hr' hslot id' hid' => ?_, fun slot hslot => ?_⟩
  · rcases List.mem_cons.1 (hperm.mem_iff.1 hr) with rfl | hr
    · exact ⟨id, hid⟩
    · exact h.agreement.ids r hr
  · exact ((hperm.map Row.slot).nodup_iff).2 (List.nodup_cons.2 ⟨hfree, h.agreement.slots⟩)
  · rcases List.mem_cons.1 (hperm.mem_iff.1 hr') with rfl | hr'
    · exact absurd (h.stays (hslot ▸ List.mem_map_of_mem hr)) hfree
    · exact h.keeps r hr r' hr' hslot id' hid'
  · exact ((hperm.map Row.slot).mem_iff).2 (List.mem_cons_of_mem _ (h.stays hslot))

/-- Replacing the document of a row by one with the same `_id`. -/
lemma Carries.replace {row loaded : Row} {id : Value} (h : Carries L start rows)
    (hloaded : loaded ∈ rows) (hslot : loaded.slot = row.slot)
    (hid : ∀ id', HasId L loaded id' → id' = id) (hrow : HasId L row id) :
    Carries L start (replaceRow row rows) := by
  refine ⟨⟨fun r hr => ?_, ?_⟩, fun r hr r' hr' hs id' hid' => ?_, ?_⟩
  · obtain ⟨hr, -⟩ | ⟨rfl, -⟩ := mem_replaceRow hr
    · exact h.agreement.ids r hr
    · exact ⟨id, hrow⟩
  · rw [slots_replaceRow]
    exact h.agreement.slots
  · obtain ⟨hr', -⟩ | ⟨rfl, -⟩ := mem_replaceRow hr'
    · exact h.keeps r hr r' hr' hs id' hid'
    · have := hid id' (h.keeps r hr loaded hloaded (hslot.trans hs) id' hid')
      exact this ▸ hrow
  · rw [slots_replaceRow]
    exact h.stays

end Rows

/-! ## Statements -/

section Statements

variable {L : Libbson} {S : SqlServer} {rows seen : List Row} {ns : Namespace}

/-- A statement that succeeds does what the server performs. -/
lemma watched_eq_ok {q : Request} {r : q.Answer} {s' : List Row × List Row}
    (h : S.watched q (rows, seen) = .ok (r, s')) :
    ∃ rows', S.perform q rows = .ok (r, rows') ∧ s' = (rows', noteRows q r seen) := by
  unfold SqlServer.watched Handler.watch SqlServer.handler at h
  simp only at h
  split at h
  · rename_i r' rows' hq
    split at hq
    · cases hq
    · obtain ⟨rfl, rfl⟩ := Prod.mk.inj (Except.ok.inj h)
      exact ⟨rows', hq, rfl⟩
  · cases h

/-- A look for a table changes nothing. -/
lemma meets_askExists {Post : Bool → List Row × List Row → Prop}
    (hpost : ∀ b, Post b (rows, seen)) :
    Meets S.watched (MaySend L) (askExists ns) (rows, seen) Post := by
  refine Meets.question trivial fun r s' h => ?_
  obtain ⟨rows', hq, rfl⟩ := watched_eq_ok h
  obtain ⟨-, rfl⟩ := Prod.mk.inj (Except.ok.inj hq)
  exact hpost r

/-- A `SELECT` finds rows of its table, in their order, and changes nothing. -/
lemma meets_askSelect {cond : Cond} {limit : Option ℕ}
    {Post : List Row → List Row × List Row → Prop}
    (hpost : ∀ found, found.Sublist rows → (∀ row ∈ found, row.ns = ns) →
      Post found (rows, seen ++ found)) :
    Meets S.watched (MaySend L) (askSelect ns cond limit) (rows, seen) Post := by
  refine Meets.question trivial fun r s' h => ?_
  obtain ⟨rows', hq, rfl⟩ := watched_eq_ok h
  simp only [SqlServer.perform] at hq
  split at hq
  · obtain ⟨rfl, rfl⟩ := Prod.mk.inj (Except.ok.inj hq)
    have hsub : (limit.elim (rows.filter (S.matches ns cond))
        (rows.filter (S.matches ns cond)).take).Sublist (rows.filter (S.matches ns cond)) := by
      cases limit with
      | none => exact .refl _
      | some n => exact List.take_sublist n _
    refine hpost _ (hsub.trans List.filter_sublist) fun row hrow => ?_
    have hmatch := (List.mem_filter.1 (hsub.subset hrow)).2
    simp only [SqlServer.matches, Bool.and_eq_true, decide_eq_true_eq] at hmatch
    exact hmatch.1
  · cases hq

/-- An `INSERT` adds a row to a slot that was free. -/
lemma meets_askInsert {row : Row} {Post : Unit → List Row × List Row → Prop}
    (hpost : row.slot ∉ slots rows → Post () (insertRow row rows, seen)) :
    Meets S.watched (MaySend L) (askInsert row) (rows, seen) Post := by
  refine Meets.question trivial fun r s' h => ?_
  obtain ⟨rows', hq, rfl⟩ := watched_eq_ok h
  simp only [SqlServer.perform] at hq
  split at hq
  · cases hq
  split at hq
  · cases hq
  · rename_i hfree
    obtain ⟨-, rfl⟩ := Prod.mk.inj (Except.ok.inj hq)
    exact hpost fun hslot => hfree (any_isAt.2 hslot)

/-- An `UPDATE` replaces the document in its slot. -/
lemma meets_askReplace {row : Row} {Post : Unit → List Row × List Row → Prop}
    (htouches : TouchesLoaded L row rows seen) (hpost : Post () (replaceRow row rows, seen)) :
    Meets S.watched (MaySend L) (askReplace row) (rows, seen) Post := by
  refine Meets.question htouches fun r s' h => ?_
  obtain ⟨rows', hq, rfl⟩ := watched_eq_ok h
  obtain ⟨-, rfl⟩ := Prod.mk.inj (Except.ok.inj hq)
  exact hpost

/-- A `DELETE` of a key keeps the other rows. -/
lemma meets_askDelete {key : Text} {Post : ℕ → List Row × List Row → Prop}
    (hpost : ∀ n rows', rows'.Sublist rows → Post n (rows', seen)) :
    Meets S.watched (MaySend L) (askDelete ns key) (rows, seen) Post := by
  refine Meets.question trivial fun r s' h => ?_
  obtain ⟨rows', hq, rfl⟩ := watched_eq_ok h
  obtain ⟨-, rfl⟩ := Prod.mk.inj (Except.ok.inj hq)
  exact hpost _ _ List.filter_sublist

/-- A `DELETE` of all matches keeps the other rows. -/
lemma meets_askDeleteWhere {cond : Cond} {Post : ℕ → List Row × List Row → Prop}
    (hpost : ∀ n rows', rows'.Sublist rows → Post n (rows', seen)) :
    Meets S.watched (MaySend L) (askDeleteWhere ns cond) (rows, seen) Post := by
  refine Meets.question trivial fun r s' h => ?_
  obtain ⟨rows', hq, rfl⟩ := watched_eq_ok h
  simp only [SqlServer.perform] at hq
  split at hq
  · obtain ⟨-, rfl⟩ := Prod.mk.inj (Except.ok.inj hq)
    exact hpost _ _ List.filter_sublist
  · cases hq

end Statements

/-! ## Operations -/

section Operations

variable {L : Libbson} {S : SqlServer} {start rows seen : List Row} {ns : Namespace}

/-- The table is there, or the command fails. -/
lemma meets_requireExists {Post : Unit → List Row × List Row → Prop}
    (hpost : Post () (rows, seen)) :
    Meets S.watched (MaySend L) (requireExists ns) (rows, seen) Post := by
  refine Meets.bind (meets_askExists fun b => ?_)
  cases b with
  | true => exact hpost
  | false => trivial

/-- A member of the one list has a partner in the other. -/
lemma exists_right_of_forall₂ {α β : Type} {r : α → β → Prop} {l : List α} {l' : List β}
    (h : List.Forall₂ r l l') {a : α} (ha : a ∈ l) : ∃ b ∈ l', r a b := by
  induction h with
  | nil => cases ha
  | @cons a' b l l' hab _ ih =>
    rcases List.mem_cons.1 ha with rfl | ha
    · exact ⟨b, List.mem_cons_self, hab⟩
    · obtain ⟨c, hc, hac⟩ := ih ha
      exact ⟨c, List.mem_cons_of_mem _ hc, hac⟩

/-- Loading reads the documents of rows of the table. -/
lemma meets_load {filter : Doc} {Post : List Doc → List Row × List Row → Prop}
    (hpost : ∀ found documents, found.Sublist rows → (∀ row ∈ found, row.ns = ns) →
      List.Forall₂ (fun row d => L.fromExtjson row.doc = .ok d) found documents →
      Post documents (rows, seen ++ found)) :
    Meets S.watched (MaySend L) (load L ns filter) (rows, seen) Post := by
  refine Meets.bind (meets_requireExists ?_)
  refine Meets.bind (Meets.ofExcept fun cond _ => ?_)
  refine Meets.bind (meets_askSelect fun found hsub hns => ?_)
  exact Meets.ofExcept fun documents hdocuments =>
    hpost found documents hsub hns (mapM_eq_ok_iff.1 hdocuments)

/-- Inserting a document keeps the invariant. -/
lemma meets_insertDocument {oid : BitVec 96} {document : Doc}
    (hnan : (withId oid document).1.isNaN = false) (h : Carries L start rows) :
    Meets S.watched (MaySend L) (insertDocument L ns oid document) (rows, seen)
      fun _ s => Carries L start s.1 := by
  refine Meets.bind (Meets.ofExcept fun key hkey => ?_)
  refine Meets.bind (Meets.ofExcept fun json hjson => ?_)
  refine Meets.bind (meets_askInsert fun hfree => ?_)
  refine Carries.insert h ⟨_, hjson, ?_, hkey, ?_⟩ hfree
  · unfold withId
    split
    · assumption
    · exact (findField_cons _ _ _ _).trans (if_pos rfl)
  · exact exactScalar_of_encodeId hkey hnan

/-- The documents of an update, one after the other.  What is still to be updated is what was
loaded, each document from a row of its own. -/
lemma meets_updateMatches (hL : L.KeepsScalars) {u : Doc} (hu : updateAvoids idName u = true)
    {found : List Row} {documents : List Doc} {outcome : UpdateOutcome}
    (hdocs : List.Forall₂ (fun row d => L.fromExtjson row.doc = .ok d) found documents)
    (hrows : ∀ row ∈ found, row ∈ rows) (hns : ∀ row ∈ found, row.ns = ns)
    (hseen : ∀ row ∈ found, row ∈ seen) (hslots : (slots found).Nodup)
    (h : Carries L start rows) :
    Meets S.watched (MaySend L) (updateMatches L ns u documents outcome) (rows, seen)
      fun _ s => Carries L start s.1 := by
  induction hdocs generalizing rows outcome with
  | nil => exact h
  | @cons loaded d found documents hd _ ih =>
    obtain ⟨hloaded, hslots'⟩ := List.nodup_cons.1 hslots
    have hns' : ∀ row ∈ found, row.ns = ns := fun r hr => hns r (List.mem_cons_of_mem _ hr)
    have hseen' : ∀ row ∈ found, row ∈ seen := fun r hr => hseen r (List.mem_cons_of_mem _ hr)
    have hmem : loaded ∈ rows := hrows loaded List.mem_cons_self
    obtain ⟨id, hid⟩ := h.agreement.ids loaded hmem
    have hread : findField d idName = some id := hid.read hL hd
    unfold updateMatches
    rw [hread]
    refine Meets.bind (Meets.ofExcept fun result hresult => ?_)
    refine Meets.bind (Meets.ofExcept fun after hafter => ?_)
    refine Meets.bind (Meets.ofExcept fun before _ => ?_)
    split
    · exact ih (fun r hr => hrows r (List.mem_cons_of_mem _ hr)) hns' hseen' hslots' h
    · refine Meets.bind (Meets.ofExcept fun key hkey => ?_)
      obtain ⟨doc, hdoc, hfield, hkey', hexact⟩ := hid
      obtain rfl : loaded.key = key := Except.ok.inj (hkey'.symm.trans hkey)
      have hslot : loaded.slot = (⟨ns, loaded.key, after⟩ : Row).slot :=
        Prod.ext (hns loaded List.mem_cons_self) rfl
      have hsame : ∀ id', HasId L loaded id' → id' = id := fun id' hid' =>
        Option.some.inj ((hid'.read hL hd).symm.trans hread)
      refine Meets.bind (meets_askReplace ⟨⟨loaded, ?_⟩, loaded, ?_, hslot, d, u, result, hd,
        hresult, hafter⟩ ?_)
      · rw [← hslot]
        exact filter_isAt h.agreement.slots hmem
      · exact hseen loaded List.mem_cons_self
      · refine ih (fun r hr => ?_) hns' hseen' hslots' (h.replace hmem hslot hsame
          ⟨result, hafter, findField_id_applyUpdate hu hread hresult, hkey, hexact⟩)
        refine mem_replaceRow_of_ne (hrows r (List.mem_cons_of_mem _ hr)) fun hr' => hloaded ?_
        rw [hslot, ← hr']
        exact List.mem_map_of_mem hr

/-- A document that an upsert starts from has no NaN as its `_id`. -/
lemma numericIds_upsertSeed {filter : Doc} (h : numericIds filter = true) :
    numericIds (upsertSeed filter) = true :=
  List.all_eq_true.2 fun field hfield =>
    List.all_eq_true.1 h field (List.mem_filter.1 hfield).1

/-- The document of an upsert has no NaN as its `_id`. -/
lemma isNaN_upserted {filter u result : Doc} {oid : BitVec 96}
    (hu : updateAvoids idName u = true) (hq : numericIds filter = true)
    (hun : numericIds u = true) (h : applyUpdate (upsertSeed filter) u = .ok result) :
    (withId oid result).1.isNaN = false := by
  unfold withId
  split
  · rename_i id hid
    cases hseed : findField (upsertSeed filter) idName with
    | some id₀ =>
      have hkept := findField_id_applyUpdate hu hseed h
      obtain rfl : id₀ = id := Option.some.inj (hkept.symm.trans hid)
      exact isNaN_of_findField (numericIds_upsertSeed hq) hseed
    | none =>
      unfold applyUpdate at h
      split at h
      · cases h
      split at h
      · obtain rfl := Except.ok.inj h
        have hreplacement : replacement (upsertSeed filter) u = u := by
          unfold replacement
          rw [show findField (upsertSeed filter) "_id".toList = none from hseed]
        rw [hreplacement] at hid
        exact isNaN_of_findField hun hid
      · rename_i hops
        have hnone := findField_applyOperators
          (paths_of_updateAvoids hu (by simpa using hops)) h
        rw [hseed, hid] at hnone
        cases hnone
  · rfl

/-- Updating documents keeps the invariant. -/
lemma meets_updateDocuments (hL : L.KeepsScalars) {filter u : Doc} {multi upsert : Bool}
    {oid : BitVec 96} (hu : updateAvoids idName u = true)
    (hids : upsert = true → numericIds filter = true ∧ numericIds u = true)
    (h : Carries L start rows) :
    Meets S.watched (MaySend L) (updateDocuments L ns filter u multi upsert oid) (rows, seen)
      fun _ s => Carries L start s.1 := by
  refine Meets.bind (meets_requireExists ?_)
  refine Meets.bind (meets_load fun found documents hsub hns hdocs => ?_)
  obtain ⟨found', hsub', hdocs'⟩ : ∃ found' : List Row, found'.Sublist found ∧
      List.Forall₂ (fun row d => L.fromExtjson row.doc = .ok d) found'
        (if multi then documents else documents.take 1) := by
    cases multi with
    | true => exact ⟨found, .refl _, hdocs⟩
    | false => exact ⟨found.take 1, List.take_sublist 1 _, List.forall₂_take 1 hdocs⟩
  refine Meets.bind (Meets.weaken (meets_updateMatches hL hu hdocs'
    (fun row hrow => (hsub'.trans hsub).subset hrow) (fun row hrow => hns row (hsub'.subset hrow))
    (fun row hrow => List.mem_append_right _ (hsub'.subset hrow))
    (h.agreement.slots.sublist ((hsub'.trans hsub).map _)) h) fun outcome s hs => ?_)
  split
  · rename_i hupsert
    obtain ⟨hq, hun⟩ := hids (Bool.and_eq_true_iff.1 hupsert).2
    refine Meets.bind (Meets.ofExcept fun result hresult => ?_)
    exact Meets.bind (Meets.weaken
      (meets_insertDocument (isNaN_upserted hu hq hun hresult) hs) fun _ _ hs' => hs')
  · exact hs

/-- Removing documents ends a command. -/
lemma meets_removeDocuments {filter : Doc} {justOne : Bool} (h : Carries L start rows) :
    Meets S.watched (MaySend L) (removeDocuments L ns filter justOne) (rows, seen)
      fun _ s => Settles L start s.1 := by
  refine Meets.bind (meets_requireExists ?_)
  refine Meets.bind (Meets.ofExcept fun cond _ => ?_)
  split
  · exact meets_askDeleteWhere fun n rows' hsub => h.remove hsub
  · refine Meets.bind (meets_askSelect fun found _ _ => ?_)
    cases found with
    | nil => exact h.settles
    | cons row found => exact meets_askDelete fun n rows' hsub => h.remove hsub

/-- Finding the document of a `findAndModify` only reads. -/
lemma meets_findFirst {query sort : Doc} :
    Meets S.watched (MaySend L) (findFirst L ns query sort) (rows, seen) fun _ s => s.1 = rows := by
  refine Meets.bind (meets_askExists fun b => ?_)
  cases b with
  | false => rfl
  | true =>
    refine Meets.bind (meets_load fun found documents _ _ _ => ?_)
    split
    · rfl
    · exact Meets.bind (Meets.ofExcept fun sorted _ => rfl)

/-- Loading by `_id` only reads. -/
lemma meets_loadById {id : Value} :
    Meets S.watched (MaySend L) (loadById L ns id) (rows, seen) fun _ s => s.1 = rows :=
  Meets.bind (meets_load fun _ _ _ _ _ => rfl)

end Operations

/-! ## Commands -/

section Commands

variable {L : Libbson} {S : SqlServer} {rows seen : List Row} {ns : Namespace}

/-- A document to insert has no NaN as its `_id`. -/
lemma isNaN_withId {oid : BitVec 96} {document : Doc} (h : numericIds document = true) :
    (withId oid document).1.isNaN = false := by
  unfold withId
  split
  · rename_i id hid
    exact isNaN_of_findField h hid
  · rfl

/-- `findAndModify` keeps the invariant. -/
lemma meets_findAndModify (hL : L.KeepsScalars) {c : FindAndModify}
    (hc : (WriteCommand.findAndModify c).leavesIds = true) (h : Agreement L rows) :
    Meets S.watched (MaySend L) (findAndModify L ns c) (rows, seen)
      fun _ s => Settles L rows s.1 := by
  have hids (hremove : ¬ c.remove = true) : updateAvoids idName (c.update.getD []) = true ∧
      (c.upsert = true → numericIds c.query = true ∧ numericIds (c.update.getD []) = true) := by
    simpa [WriteCommand.leavesIds, hremove, imp_iff_not_or] using hc
  refine Meets.bind (Meets.weaken meets_findFirst fun documents s hs => ?_)
  obtain ⟨rows', seen'⟩ := s
  obtain rfl : rows' = rows := hs
  have hstart := Carries.refl h
  cases documents with
  | cons document documents =>
    simp only
    split
    · trivial
    · rename_i id hid
      split
      · exact Meets.bind (Meets.weaken (meets_removeDocuments hstart) fun _ _ hs => hs)
      · rename_i hremove
        refine Meets.bind (Meets.weaken (meets_updateDocuments hL (hids hremove).1 nofun hstart)
          fun _ s hs => ?_)
        split
        · exact Meets.bind (Meets.weaken meets_loadById fun _ _ ht => hs.settles_of_eq ht)
        · exact hs.settles
  | nil =>
    simp only
    split
    · rename_i hupsert
      obtain ⟨hremove, hupsert⟩ := Bool.and_eq_true_iff.1 hupsert
      obtain ⟨hu, hnan⟩ := hids (by simpa using hremove)
      refine Meets.bind (Meets.weaken (meets_updateDocuments hL hu (fun _ => hnan hupsert) hstart)
        fun outcome s hs => ?_)
      split
      · exact Meets.bind (Meets.weaken meets_loadById fun _ _ ht => hs.settles_of_eq ht)
      · exact hs.settles
    · exact hstart.settles

/-- Every write command keeps the invariant. -/
lemma meets_body (hL : L.KeepsScalars) {c : WriteCommand} (hc : c.leavesIds = true)
    (h : Agreement L rows) :
    Meets S.watched (MaySend L) (c.body L ns) (rows, []) fun _ s => Settles L rows s.1 := by
  cases c with
  | insert document oid =>
    exact Meets.bind (Meets.weaken (meets_insertDocument (isNaN_withId hc) (Carries.refl h))
      fun _ _ hs => hs.settles)
  | update q u multi upsert oid =>
    obtain ⟨hu, hids⟩ : updateAvoids idName u = true ∧
        (upsert = true → numericIds q = true ∧ numericIds u = true) := by
      simpa [WriteCommand.leavesIds, imp_iff_not_or] using hc
    exact Meets.bind (Meets.weaken (meets_updateDocuments hL hu hids (Carries.refl h))
      fun _ _ hs => hs.settles)
  | delete q justOne =>
    exact Meets.bind (Meets.weaken (meets_removeDocuments (Carries.refl h)) fun _ _ hs => hs)
  | findAndModify c =>
    rw [WriteCommand.body]
    split
    · trivial
    · exact Meets.bind (Meets.weaken (meets_findAndModify hL hc h) fun _ _ hs => hs)

end Commands

/-! ## Runs of commands -/

/-- One write command as a transaction of its own: a failure is rolled back. -/
def commandStep (S : SqlServer) (L : Libbson) (rows : List Row)
    (action : Namespace × WriteCommand) :
    Option (List Row) :=
  match (action.2.body L action.1).run S.handler rows with
  | .ok (_, rows') => some rows'
  | .error _ => some rows

/-- The action leaves the `_id` of every document alone. -/
def LeavesIds (_ : List Row) (action : Namespace × WriteCommand) : Prop :=
  action.2.leavesIds = true

/-- A successful command keeps the invariant and the `_id` of every row. -/
lemma settles_of_run {S : SqlServer} {L : Libbson} (hL : L.KeepsScalars) {rows rows' : List Row}
    {ns : Namespace} {c : WriteCommand} {outcome : WriteOutcome} (hc : c.leavesIds = true)
    (h : Agreement L rows) (hrun : (c.body L ns).run S.handler rows = .ok (outcome, rows')) :
    Settles L rows rows' := by
  obtain ⟨seen, hwatched⟩ := run_watch S.handler noteRows [] hrun
  exact (meets_body hL hc h).run hwatched

/-- A command keeps the invariant, whether it succeeds or not. -/
lemma agreement_step {S : SqlServer} {L : Libbson} (hL : L.KeepsScalars) (rows : List Row)
    (action : Namespace × WriteCommand) (rows' : List Row) (h : Agreement L rows)
    (hc : LeavesIds rows action) (hstep : commandStep S L rows action = some rows') :
    Agreement L rows' := by
  unfold commandStep at hstep
  split at hstep
  · rename_i outcome rows₁ hrun
    obtain rfl := Option.some.inj hstep
    exact (settles_of_run hL hc h hrun).agreement
  · obtain rfl := Option.some.inj hstep
    exact h

/-- Two rows of one table with one `_id` are one row. -/
lemma Agreement.eq_of_id {L : Libbson} {rows : List Row} (h : Agreement L rows) {row row' : Row}
    (hrow : row ∈ rows) (hrow' : row' ∈ rows) (hns : row.ns = row'.ns) {id : Value}
    (hid : HasId L row id) (hid' : HasId L row' id) : row = row' := by
  obtain ⟨-, -, -, hkey, -⟩ := hid
  obtain ⟨-, -, -, hkey', -⟩ := hid'
  exact eq_of_slot h.slots hrow' hrow
    (Prod.ext hns (Except.ok.inj (hkey.symm.trans hkey')))

/-- **Key agreement.**  After every run of write commands that give no NaN as an `_id` and whose
update operators leave `_id` alone, every row holds a document under the key of its `_id`, and no
two documents of a collection share an `_id`.  The next such command leaves the `_id` of every row
as it is, and each `UPDATE` it sends reaches exactly the row its document was loaded from. -/
theorem key_agreement (S : SqlServer) {L : Libbson} (hL : L.KeepsScalars)
    {actions : List (Namespace × WriteCommand)} {rows : List Row}
    (hrun : Run (commandStep S L) LeavesIds [] actions rows) :
    (∀ row ∈ rows, ∃ id, HasId L row id) ∧
    (∀ row ∈ rows, ∀ row' ∈ rows, row.ns = row'.ns →
      ∀ id, HasId L row id → HasId L row' id → row = row') ∧
    ∀ (ns : Namespace) (c : WriteCommand), c.leavesIds = true →
      (∀ outcome rows', (c.body L ns).run S.handler rows = .ok (outcome, rows') →
        KeepsIds L rows rows') ∧
      ∀ row rows' seen, Asked S.watched (c.body L ns) (rows, []) (.replace row) (rows', seen) →
        TouchesLoaded L row rows' seen := by
  have hinv : Agreement L rows :=
    hrun.invariant (fun rows a rows' h hc hs => agreement_step hL rows a rows' h hc hs)
      ⟨nofun, List.nodup_nil⟩
  refine ⟨hinv.ids, fun row hrow row' hrow' hns id hid hid' =>
    hinv.eq_of_id hrow hrow' hns hid hid', fun ns c hc => ⟨fun outcome rows' hok => ?_,
    fun row rows' seen hasked => ?_⟩⟩
  · exact (settles_of_run hL hc hinv hok).keeps
  · exact (meets_body hL hc hinv).asked hasked

/-- An insert and an update of another field: the row is under the key of its `_id`, and the next
update reaches it. -/
theorem key_agreement_setField :
    let ns : Namespace := ⟨"app".toList, "items".toList⟩
    let document := [(idName, Value.utf8 "a".toList)]
    let update := [("$set".toList, Value.document [("x".toList, .utf8 "y".toList)])]
    ∃ row, Run (commandStep .ofStrings .ofStrings) LeavesIds []
        [(ns, .insert document 0), (ns, .update [] update false false 0)] [row] ∧
      (∃ id, HasId .ofStrings row id) ∧
      ∀ outcome rows', ((WriteCommand.update [] update true false 0).body .ofStrings ns).run
        (SqlServer.handler .ofStrings) [row] = .ok (outcome, rows') →
          KeepsIds .ofStrings [row] rows' := by
  intro ns document update
  obtain ⟨row, hrun⟩ : ∃ row, Run (commandStep .ofStrings .ofStrings) LeavesIds []
      [(ns, .insert document 0), (ns, .update [] update false false 0)] [row] :=
    ⟨⟨ns, tagString :: "a".toList, .obj [(idName, .str "a".toList), ("x".toList, .str "y".toList)]⟩,
      .cons rfl rfl (.cons rfl rfl (.nil _))⟩
  have hagree := key_agreement .ofStrings Libbson.ofStrings_keepsScalars hrun
  exact ⟨row, hrun, hagree.1 row (by simp), (hagree.2.2 ns _ rfl).1⟩

/-- Setting `_id` moves no row: the document is left under the key of its old `_id`. -/
theorem set_id_breaks_agreement :
    let ns : Namespace := ⟨"app".toList, "items".toList⟩
    let document := [(idName, Value.utf8 "a".toList)]
    let update := [("$set".toList, Value.document [(idName, .utf8 "b".toList)])]
    ∃ row, Steps (commandStep .ofStrings .ofStrings) []
        [(ns, .insert document 0), (ns, .update [] update false false 0)] [row] ∧
      ¬ ∃ id, HasId .ofStrings row id := by
  intro ns document update
  refine ⟨_, steps_of_runActions rfl, ?_⟩
  rintro ⟨id, doc, hdoc, hid, hkey, -⟩
  have hread := Libbson.ofStrings_roundTrip hdoc
  obtain rfl : [(idName, .utf8 "b".toList)] = doc := Except.ok.inj hread
  obtain rfl : .utf8 "b".toList = id := Option.some.inj hid
  exact absurd (Except.ok.inj hkey) (by decide)

end Chimera
