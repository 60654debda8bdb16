import Chimera.Plugin.Collection
import Chimera.Translator.ExtendedJson

/-!
# What is stored is read back

A document that an `insert` accepted is read back by every later `load` exactly when it is plain:
no document inside it looks like a scalar in Extended JSON.  A document that is not plain comes
back changed, or its text is refused, and then no `load` that meets it succeeds.
-/

namespace Chimera

open Interaction

/-- Every stored document decodes. -/
def Readable (L : Libbson) (rows : List Row) : Prop :=
  ∀ row ∈ rows, ∃ document, L.fromExtjson row.doc = .ok document

/-- The rows that a load decodes. -/
def selectRows (L : Libbson) (ns : Namespace) (filter : Doc) : SqlProgram (List Row) := do
  requireExists ns
  let cond ← ofExcept (compileDocument L filter)
  askSelect ns cond none

/-! ## Loads of documents that decode -/

section

variable {L : Libbson} {S : SqlServer} {ns : Namespace} {rows : List Row}

/-- A load selects rows and decodes them. -/
lemma load_run (filter : Doc) :
    (load L ns filter).run S.handler rows =
      (selectRows L ns filter >>= fun found =>
        ofExcept (found.mapM fun row => L.fromExtjson row.doc)).run S.handler rows := by
  unfold load selectRows
  simp only [run_bind, bind_assoc]

/-- A statement on a table that is there does what the server does. -/
lemma handler_eq_ok {q : Request} {rows' : List Row} {answer : q.Answer}
    (h : S.handler q rows = .ok (answer, rows')) : S.perform q rows = .ok (answer, rows') := by
  unfold SqlServer.handler at h
  split at h
  · cases h
  · exact h

/-- A look at the tables leaves the rows as they are. -/
lemma run_requireExists {rows' : List Row} {u : Unit}
    (h : (requireExists ns).run S.handler rows = .ok (u, rows')) : rows' = rows := by
  unfold requireExists at h
  obtain ⟨present, rows₁, hexists, hrest⟩ := run_bind_eq_ok.1 h
  have hperform := handler_eq_ok (run_question_eq_ok.1 hexists)
  obtain ⟨-, rfl⟩ := Prod.mk.inj (Except.ok.inj hperform)
  cases present with
  | true => exact (run_pure_eq_ok.1 hrest).2.symm
  | false => cases hrest

/-- The selection finds rows of the server and leaves them as they are. -/
lemma mem_of_selectRows {filter : Doc} {found rows' : List Row}
    (hrun : (selectRows L ns filter).run S.handler rows = .ok (found, rows')) :
    rows' = rows ∧ ∀ row ∈ found, row ∈ rows := by
  obtain ⟨u, rows₁, hexists, hrest⟩ := run_bind_eq_ok.1 hrun
  obtain ⟨cond, rows₂, hcond, hquestion⟩ := run_bind_eq_ok.1 hrest
  have hrows := run_requireExists hexists
  obtain ⟨-, rfl⟩ := run_ofExcept_eq_ok.1 hcond
  subst hrows
  have hselect := handler_eq_ok (run_question_eq_ok.1 hquestion)
  simp only [SqlServer.perform] at hselect
  split at hselect
  · obtain ⟨rfl, rfl⟩ := Prod.mk.inj (Except.ok.inj hselect)
    exact ⟨rfl, fun row hrow => List.mem_of_mem_filter hrow⟩
  · cases hselect

/-- Rows that decode one by one decode together. -/
lemma Readable.mapM (h : Readable L rows) :
    ∃ documents, (rows.mapM fun row => L.fromExtjson row.doc) = .ok documents := by
  induction rows with
  | nil => exact ⟨[], rfl⟩
  | cons row rows ih =>
    obtain ⟨document, hdocument⟩ := h row (List.mem_cons_self ..)
    obtain ⟨documents, hdocuments⟩ := ih fun r hr => h r (List.mem_cons_of_mem _ hr)
    refine ⟨document :: documents, ?_⟩
    simp only [List.mapM_cons, except_bind_eq_ok, except_pure_eq_ok]
    exact ⟨document, hdocument, documents, hdocuments, rfl⟩

/-- A load of documents that decode fails only when the selection of the rows does. -/
lemma Readable.load_eq_error (h : Readable L rows) {filter : Doc} {e : TranslatorError}
    (hrun : (load L ns filter).run S.handler rows = .error e) :
    (selectRows L ns filter).run S.handler rows = .error e := by
  rw [load_run, run_bind_eq_error] at hrun
  obtain hselect | ⟨found, rows', hselect, hdecode⟩ := hrun
  · exact hselect
  · obtain ⟨rfl, hmem⟩ := mem_of_selectRows hselect
    have hfound : Readable L found := fun row hrow => h row (hmem row hrow)
    obtain ⟨documents, hdocuments⟩ := hfound.mapM
    rw [hdocuments] at hdecode
    cases hdecode

end

/-! ## Documents that are inserted -/

section

variable {E : ExtendedJson} {S : SqlServer} {ns : Namespace} {rows rows' : List Row}
  {oid : BitVec 96} {document : Doc} {id : Value}

/-- What a successful insert stores. -/
lemma insertDocument_run {L : Libbson}
    (hrun : (insertDocument L ns oid document).run S.handler rows = .ok (id, rows')) :
    ∃ key json, id = (withId oid document).1 ∧ encodeId id = .ok key ∧
      L.toExtjson (withId oid document).2 = .ok json ∧ (ns, key) ∉ slots rows ∧
      rows' = insertRow ⟨ns, key, json⟩ rows := by
  obtain ⟨key, rows₁, hencode, hwrite⟩ := run_bind_eq_ok.1 hrun
  obtain ⟨hkey, rfl⟩ := run_ofExcept_eq_ok.1 hencode
  obtain ⟨json, rows₂, hserialize, hstore⟩ := run_bind_eq_ok.1 hwrite
  obtain ⟨hjson, rfl⟩ := run_ofExcept_eq_ok.1 hserialize
  obtain ⟨u, rows₃, hinsert, hpure⟩ := run_bind_eq_ok.1 hstore
  obtain ⟨rfl, rfl⟩ := run_pure_eq_ok.1 hpure
  have hperform := handler_eq_ok (run_question_eq_ok.1 hinsert)
  simp only [SqlServer.perform] at hperform
  split at hperform
  · cases hperform
  · split at hperform
    · cases hperform
    · rename_i hfree
      obtain ⟨-, rfl⟩ := Prod.mk.inj (Except.ok.inj hperform)
      refine ⟨key, json, rfl, hkey, hjson, ?_, rfl⟩
      intro hslot
      obtain ⟨row, hrow, hat⟩ := List.mem_map.1 hslot
      exact hfree (List.any_eq_true.2 ⟨row, hrow, Row.isAt_iff.2 hat⟩)

/-- The generated `_id` changes nothing about the rest of the document. -/
lemma plainFields_withId : E.plainFields (withId oid document).2 = E.plainFields document := by
  unfold withId
  split
  · rfl
  · rfl

/-- The generated `_id` can be stored. -/
lemma storableFields_withId (h : storableFields document = true) :
    storableFields (withId oid document).2 = true := by
  unfold withId
  split
  · exact h
  · exact h

/-- The text of a document is read back as the document exactly when the document is plain. -/
lemma fromExtjson_iff (hE : E.Lawful) {json : Json} (hstorable : storableFields document = true)
    (hjson : E.libbson.toExtjson document = .ok json) :
    E.libbson.fromExtjson json = .ok document ↔ E.plainFields document = true := by
  simp only [ExtendedJson.libbson] at hjson
  split at hjson
  · obtain rfl := Except.ok.inj hjson
    exact ExtendedJson.readFields_write_iff hE document hstorable
  · cases hjson

/-- **What insert accepts, load returns.**  A document of storable values that an insert accepts
gets a row of its own under its `_id`, and the text in that row decodes to the document exactly
when the document is plain.  A plain document does no harm to loads: when all other documents
decode, every load fails only where its selection of rows does. -/
theorem insert_load_iff (hE : E.Lawful) (hstorable : storableFields document = true)
    (hrun : (insertDocument E.libbson ns oid document).run S.handler rows = .ok (id, rows')) :
    ∃ row, row.ns = ns ∧ encodeId id = .ok row.key ∧ row.slot ∉ slots rows ∧
      rows' = insertRow row rows ∧ id = (withId oid document).1 ∧
      (E.libbson.fromExtjson row.doc = .ok (withId oid document).2 ↔
        E.plainFields document = true) ∧
      (E.plainFields document = true → Readable E.libbson rows → ∀ filter e,
        (load E.libbson ns filter).run S.handler rows' = .error e →
          (selectRows E.libbson ns filter).run S.handler rows' = .error e) := by
  obtain ⟨key, json, hid, hkey, hjson, hfree, rfl⟩ := insertDocument_run hrun
  have hiff : E.libbson.fromExtjson json = .ok (withId oid document).2 ↔
      E.plainFields document = true := by
    rw [fromExtjson_iff hE (storableFields_withId hstorable) hjson, plainFields_withId]
  refine ⟨⟨ns, key, json⟩, rfl, hkey, hfree, rfl, hid, hiff, ?_⟩
  intro hplain hreadable filter e hload
  have hafter : Readable E.libbson (insertRow ⟨ns, key, json⟩ rows) := by
    intro row hrow
    obtain rfl | hrow := List.mem_cons.1 ((insertRow_perm _ rows).mem_iff.1 hrow)
    · exact ⟨_, hiff.2 hplain⟩
    · exact hreadable row hrow
  exact hafter.load_eq_error hload

/-- A document with a sub-document that looks like no scalar is read back. -/
theorem insert_load_iff_plain :
    let E := ExtendedJson.byTypeKey
    let document := [(idName, Value.utf8 "a".toList),
      ("f".toList, .document [("g".toList, .utf8 "zz".toList)])]
    ∃ row, (insertDocument E.libbson default 0 document).run (SqlServer.handler .ofStrings) [] =
        .ok (.utf8 "a".toList, insertRow row []) ∧
      E.libbson.fromExtjson row.doc = .ok document := by
  intro E document
  have hrun : (insertDocument E.libbson default 0 document).run (SqlServer.handler .ofStrings) [] =
      .ok (.utf8 "a".toList, _) := rfl
  obtain ⟨row, -, -, -, hrows, -, hread, -⟩ :=
    insert_load_iff ExtendedJson.byTypeKey_lawful rfl hrun
  exact ⟨row, by rw [hrun, hrows], hread.2 rfl⟩

/-- A document with a sub-document whose key is reserved is accepted, and then every load of its
collection fails. -/
theorem insert_breaks_load :
    let E := ExtendedJson.byTypeKey
    let ns : Namespace := ⟨"app".toList, "items".toList⟩
    let document := [(idName, Value.utf8 "a".toList),
      ("f".toList, .document [("$oid".toList, .utf8 "zz".toList)])]
    E.Lawful ∧ storableFields document = true ∧ ∃ row e,
      (insertDocument E.libbson ns 0 document).run (SqlServer.handler .ofStrings) [] =
        .ok (.utf8 "a".toList, [row]) ∧
      (selectRows E.libbson ns []).run (SqlServer.handler .ofStrings) [row] =
        .ok ([row], [row]) ∧
      (load E.libbson ns []).run (SqlServer.handler .ofStrings) [row] = .error e := by
  intro E ns document
  exact ⟨ExtendedJson.byTypeKey_lawful, rfl, _, _, rfl, rfl, rfl⟩

end

end Chimera
