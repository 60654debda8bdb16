import Chimera.Plugin.KeyAgreement
import Chimera.Plugin.RoundTrip
import Chimera.Translator.Equality

/-!
# Re-selecting a document by its `_id`

`findAndModify` sorts the documents that match in memory, and sends its statement with the filter
`{_id: v}` of the first one.  A row is found by what the server makes of the text of its `_id`, and
is kept under the key that `encode_id` makes of the value.  The command acts on the document that it
reports when the two agree: no other document of the collection has an `_id` that the server takes
for `v`.
-/

namespace Chimera

open Interaction

/-! ## What the command is for -/

/-- The rows of a collection are under the keys of their documents, one row a key. -/
structure KeysMatch (L : Libbson) (ns : Namespace) (rows : List Row) : Prop where
  /-- Every row of the collection is under the key of its document's `_id`. -/
  ids : ∀ row ∈ rows, row.ns = ns → ∃ id, HasId L row id
  /-- A slot holds one row. -/
  slots : (slots rows).Nodup

/-- Of the rows of the collection, the filter `{_id: v}` selects exactly the row. -/
def Reselects (M : MariaDB) (L : Libbson) (rows : List Row) (row : Row) (v : Value) : Prop :=
  ∀ r ∈ rows, r.ns = row.ns → (Selects M L [(idName, v)] r.doc ↔ r = row)

/-- As `Reselects`, by the tree of the condition. -/
def Picks (M : MariaDB) (L : Libbson) (rows : List Row) (row : Row) (v : Value) : Prop :=
  ∀ r ∈ rows, r.ns = row.ns → (Selected M L [(idName, v)] r.doc ↔ r = row)

/-- The command acts on the row: it removes the row and reports its document; or it writes what the
update makes of the document and reports the document before or after.  No other row changes. -/
def FindAndModify.ActsOn (c : FindAndModify) (L : Libbson) (row : Row) (document : Doc)
    (rows rows' : List Row) (value : Option Doc) : Prop :=
  if c.remove then rows' = deleteRow row.slot rows ∧ value = some document
  else ∃ result json after, applyUpdate document (c.update.getD []) = .ok result ∧
    L.toExtjson result = .ok json ∧
    (after = json ∨ after = row.doc ∧ L.toExtjson document = .ok json) ∧
    rows' = replaceRow { row with doc := after } rows ∧
    if c.returnNew then ∃ d, L.fromExtjson after = .ok d ∧ value = some d
    else value = some document

/-- No other document of the collection has an `_id` that the server takes for `v`. -/
def MariaDB.Singles (M : MariaDB) (W : Spelling) (L : Libbson) (rows : List Row) (row : Row)
    (v : Value) : Prop :=
  ∀ other ∈ rows, other.ns = row.ns → other ≠ row → ∀ x, HasId L other x → ¬ M.Confuses W x v

/-- An update that is to be reported leaves the document an `_id` that reads as `v`. -/
def FindAndModify.LeavesFound (c : FindAndModify) (M : MariaDB) (W : Spelling) (L : Libbson)
    (document : Doc) (v : Value) : Prop :=
  c.remove = false → c.returnNew = true → ∀ result json before,
    applyUpdate document (c.update.getD []) = .ok result → L.toExtjson result = .ok json →
    L.toExtjson document = .ok before → json ≠ before →
      ∃ w, findField result idName = some w ∧ M.Disguises W (W.write w) v

/-- The value of a field of a document that was written can be written by itself, as the filter
compiler does. -/
def Libbson.WritesValues (L : Libbson) : Prop :=
  ∀ doc json name v, L.toExtjson doc = .ok json → findField doc name = some v →
    ∃ json', L.toExtjson [("v".toList, v)] = .ok json'

section

variable {L : Libbson} {W : Spelling} {S : SqlServer} {ns : Namespace} {rows rows' : List Row}
  {row : Row} {v : Value} {document : Doc}

/-! ## Selecting by `_id` -/

/-- The `_id` of a row is a scalar. -/
lemma HasId.isContainer {r : Row} {x : Value} (h : HasId L r x) : x.isContainer = false := by
  obtain ⟨-, -, -, -, hexact⟩ := h
  cases x with
  | document fields => cases hexact
  | array fields => cases hexact
  | _ => rfl

/-- The filter by the `_id` of a stored document is accepted. -/
lemma HasId.accepted (hwrites : L.WritesValues) (h : HasId L row v) (hv : v.matchable = true) :
    Accepted L [(idName, v)] := by
  obtain ⟨doc, hdoc, hid, -, -⟩ := h
  obtain ⟨json, hjson⟩ := hwrites doc row.doc idName v hdoc hid
  obtain ⟨literal, hliteral⟩ := exists_canonicalLiteral hjson
  obtain ⟨param, hparam⟩ := bindValue_matchable hv
  have hpath : splitPath idName = .ok [idName] := rfl
  unfold Accepted
  rw [compileDocument_sought (by decide) (isSought_of_matchable hv), hpath, hparam, hliteral]
  exact ⟨_, rfl⟩

/-- A stored document is selected by the value that stands at its `_id`. -/
lemma selected_id_iff (hM : S.M.Documented W) (hL : L.Spells W) (hv : v.matchable = true)
    (h : Accepted L [(idName, v)]) {doc : Doc} {json : Json} (hdoc : L.toExtjson doc = .ok json) :
    Selected S.M L [(idName, v)] json ↔
      ∃ x, findField doc idName = some x ∧ S.M.Disguises W (W.write x) v := by
  have hpath : splitDots idName = [idName] := by decide
  obtain rfl := hL doc json hdoc
  rw [selected_equals_iff hM hL hv h, hpath, jsonAt_writeFields]
  simp [passes_iff_disguises hM hv, jsonAt, Option.bind_eq_some_iff]

/-- A row is selected when its `_id` is `v` or the server takes it for `v`. -/
lemma HasId.selected_iff (hM : S.M.Documented W) (hL : L.Spells W) (hv : v.matchable = true)
    (h : Accepted L [(idName, v)]) {r : Row} {x : Value} (hr : HasId L r x) :
    Selected S.M L [(idName, v)] r.doc ↔ S.M.Confuses W x v ∨ x = v := by
  have hscalar := hr.isContainer
  obtain ⟨doc, hdoc, hid, -⟩ := hr
  rw [selected_id_iff hM hL hv h hdoc, hid, ← passes_scalar_iff hM hscalar hv,
    passes_iff_disguises hM hv]
  simp

/-- The text of the filter by `_id` selects what its tree selects. -/
lemma reselects_iff_picks (hv : v.matchable = true) (h : Accepted L [(idName, v)]) :
    Reselects S.M L rows row v ↔ Picks S.M L rows row v := by
  refine forall₂_congr fun r _ => imp_congr_right fun _ => ?_
  rw [selects_equals_iff (by decide) (isSought_of_matchable hv) h]

/-- **The filter by `_id` selects one row when no other `_id` is taken for the value.** -/
theorem picks_iff (hM : S.M.Documented W) (hL : L.Spells W) (hv : v.matchable = true)
    (h : Accepted L [(idName, v)]) (hkeys : KeysMatch L row.ns rows) (hrow : row ∈ rows)
    (hid : HasId L row v) : Picks S.M L rows row v ↔ S.M.Singles W L rows row v := by
  constructor
  · intro hselects other hother hns hne x hx hconfuses
    exact hne ((hselects other hother hns).1 ((hx.selected_iff hM hL hv h).2 (.inl hconfuses)))
  · intro hsingles r hr hns
    constructor
    · intro hselected
      obtain ⟨x, hx⟩ := hkeys.ids r hr hns
      rcases (hx.selected_iff hM hL hv h).1 hselected with hconfuses | rfl
      · by_contra hne
        exact hsingles r hr hns hne x hx hconfuses
      · obtain ⟨-, -, -, hkey, -⟩ := hx
        obtain ⟨-, -, -, hkey', -⟩ := hid
        exact eq_of_slot hkeys.slots hrow hr
          (Prod.ext hns (Except.ok.inj (hkey.symm.trans hkey')))
    · rintro rfl
      exact (hid.selected_iff hM hL hv h).2 (.inr rfl)

/-! ## Statements about one row -/

/-- A row meets a condition when its document is selected. -/
lemma matches_iff {filter : Doc} {cond : Cond} (hcond : compileDocument L filter = .ok cond)
    (hformed : cond.wellFormed = true) {r : Row} :
    S.matches ns cond r = true ↔ r.ns = ns ∧ Selected S.M L filter r.doc := by
  simp [SqlServer.matches, Selected, hcond, hformed]

/-- Rows that a condition picks out one row of. -/
lemma filter_eq_singleton {p : Row → Bool} (hslots : (slots rows).Nodup) (hrow : row ∈ rows)
    (hp : ∀ r ∈ rows, p r = true ↔ r = row) : rows.filter p = [row] := by
  have hslot : rows.filter p = rows.filter (Row.isAt row.slot) := by
    refine List.filter_congr fun r hr => ?_
    rw [Bool.eq_iff_iff, hp r hr, Row.isAt_iff]
    exact ⟨fun h => h ▸ rfl, eq_of_slot hslots hrow hr⟩
  rw [hslot, filter_isAt hslots hrow]

/-- What the filter by `_id` finds. -/
lemma Picks.filter_eq (h : Picks S.M L rows row v) (hslots : (slots rows).Nodup)
    (hrow : row ∈ rows) {cond : Cond} (hcond : compileDocument L [(idName, v)] = .ok cond)
    (hformed : cond.wellFormed = true) : rows.filter (S.matches row.ns cond) = [row] := by
  refine filter_eq_singleton hslots hrow fun r hr => ?_
  rw [matches_iff hcond hformed]
  constructor
  · rintro ⟨hns, hselected⟩
    exact (h r hr hns).1 hselected
  · rintro rfl
    exact ⟨rfl, (h r hr rfl).2 rfl⟩

/-- What the filter by `_id` finds once the document of the row is replaced. -/
lemma Picks.filter_replaced (h : Picks S.M L rows row v) (hslots : (slots rows).Nodup)
    (hrow : row ∈ rows) {cond : Cond} (hcond : compileDocument L [(idName, v)] = .ok cond)
    (hformed : cond.wellFormed = true) (after : Json) :
    (replaceRow { row with doc := after } rows).filter (S.matches row.ns cond) =
      if S.matches row.ns cond { row with doc := after } then [{ row with doc := after }]
      else [] := by
  have hreplaced : { row with doc := after } ∈ replaceRow { row with doc := after } rows :=
    List.mem_map.2 ⟨row, hrow, if_pos rfl⟩
  have hothers : ∀ r ∈ replaceRow { row with doc := after } rows, r ≠ { row with doc := after } →
      S.matches row.ns cond r = false := by
    intro r hr hne
    rcases mem_replaceRow hr with ⟨hmem, hslot⟩ | ⟨rfl, -⟩
    · rw [Bool.eq_false_iff, Ne, matches_iff hcond hformed]
      rintro ⟨hns, hselected⟩
      exact hslot ((h r hmem hns).1 hselected ▸ rfl)
    · exact absurd rfl hne
  split
  · next hmatches =>
    refine filter_eq_singleton ((slots_replaceRow _ _).symm ▸ hslots) hreplaced fun r hr => ?_
    constructor
    · intro hr'
      by_contra hne
      rw [hothers r hr hne] at hr'
      cases hr'
    · rintro rfl
      exact hmatches
  · next hmatches =>
    refine List.filter_eq_nil_iff.2 fun r hr hr' => ?_
    by_cases heq : r = { row with doc := after }
    · exact hmatches (heq ▸ hr')
    · rw [hothers r hr heq] at hr'
      cases hr'

/-- Replacing a document by itself changes no row. -/
lemma replaceRow_self (hslots : (slots rows).Nodup) (hrow : row ∈ rows) :
    replaceRow row rows = rows := by
  refine (List.map_congr_left fun r hr => ?_).trans (List.map_id rows)
  split
  · next hslot =>
    obtain rfl := eq_of_slot hslots hrow hr hslot
    rfl
  · rfl

/-! ## Runs -/

/-- A look for a table succeeds when the table is there. -/
lemma run_requireExists_iff {u : Unit} :
    (requireExists ns).run S.handler rows = .ok (u, rows') ↔
      S.present ns = true ∧ rows' = rows := by
  unfold requireExists
  rw [run_bind_eq_ok]
  constructor
  · rintro ⟨present, rows₁, hexists, hrest⟩
    have hperform := handler_eq_ok (run_question_eq_ok.1 hexists)
    obtain ⟨rfl, rfl⟩ := Prod.mk.inj (Except.ok.inj hperform)
    cases hpresent : S.present ns with
    | true =>
      rw [hpresent] at hrest
      exact ⟨rfl, (run_pure_eq_ok.1 hrest).2.symm⟩
    | false =>
      rw [hpresent] at hrest
      cases hrest
  · rintro ⟨hpresent, rfl⟩
    refine ⟨true, rows', run_question_eq_ok.2 ?_, run_pure_eq_ok.2 ⟨rfl, rfl⟩⟩
    rw [SqlServer.handler, SqlServer.misses, if_neg (by simp), SqlServer.perform, hpresent]

/-- A `SELECT` of a table that is there answers with the rows that meet its condition. -/
lemma run_askSelect_iff {cond : Cond} {limit : Option ℕ} {found : List Row}
    (hpresent : S.present ns = true) :
    (askSelect ns cond limit).run S.handler rows = .ok (found, rows') ↔
      cond.wellFormed = true ∧ found = limit.elim (rows.filter (S.matches ns cond))
        (rows.filter (S.matches ns cond)).take ∧ rows' = rows := by
  refine run_question_eq_ok.trans ?_
  rw [SqlServer.handler, if_neg (by simp [SqlServer.misses, Request.ns, hpresent]),
    SqlServer.perform]
  by_cases hformed : cond.wellFormed = true
  · rw [if_pos hformed]
    constructor
    · intro h
      obtain ⟨rfl, rfl⟩ := Prod.mk.inj (Except.ok.inj h)
      exact ⟨hformed, rfl, rfl⟩
    · rintro ⟨-, rfl, rfl⟩
      rfl
  · rw [if_neg hformed]
    constructor
    · intro h
      cases h
    · rintro ⟨h, -⟩
      exact absurd h hformed

/-- A load reads the rows that the filter selects. -/
lemma run_load_iff {filter : Doc} {documents : List Doc} :
    (load L ns filter).run S.handler rows = .ok (documents, rows') ↔
      S.present ns = true ∧ rows' = rows ∧ ∃ cond, compileDocument L filter = .ok cond ∧
        cond.wellFormed = true ∧
        (rows.filter (S.matches ns cond)).mapM (fun row => L.fromExtjson row.doc) =
          .ok documents := by
  unfold load
  simp only [run_bind_eq_ok, run_requireExists_iff, run_ofExcept_eq_ok]
  constructor
  · rintro ⟨-, _, ⟨hpresent, rfl⟩, cond, _, ⟨hcond, rfl⟩, found, _, hselect, hread, rfl⟩
    obtain ⟨hformed, rfl, rfl⟩ := (run_askSelect_iff hpresent).1 hselect
    exact ⟨hpresent, rfl, cond, hcond, hformed, hread⟩
  · rintro ⟨hpresent, rfl, cond, hcond, hformed, hread⟩
    exact ⟨(), rows', ⟨hpresent, rfl⟩, cond, rows', ⟨hcond, rfl⟩, _, rows',
      (run_askSelect_iff hpresent).2 ⟨hformed, rfl, rfl⟩, hread, rfl⟩

/-- A `DELETE` of one key in a table that is there. -/
lemma run_askDelete {key : Text} {n : ℕ}
    (hrun : (askDelete ns key).run S.handler rows = .ok (n, rows')) :
    rows' = deleteRow (ns, key) rows := by
  have hperform := handler_eq_ok (run_question_eq_ok.1 hrun)
  exact (Prod.mk.inj (Except.ok.inj hperform)).2.symm

/-- An `UPDATE` of one document in a table that is there. -/
lemma run_askReplace_iff {r : Row} {u : Unit} (hpresent : S.present r.ns = true) :
    (askReplace r).run S.handler rows = .ok (u, rows') ↔ rows' = replaceRow r rows := by
  refine run_question_eq_ok.trans ?_
  rw [SqlServer.handler, if_neg (by simp [SqlServer.misses, Request.ns, hpresent]),
    SqlServer.perform]
  constructor
  · intro h
    exact (Prod.mk.inj (Except.ok.inj h)).2.symm
  · rintro rfl
    rfl

/-- The removal of one document by its `_id`. -/
lemma Picks.run_remove (h : Picks S.M L rows row v) (hslots : (slots rows).Nodup)
    (hrow : row ∈ rows) {n : ℕ}
    (hrun : (removeDocuments L row.ns [(idName, v)] true).run S.handler rows = .ok (n, rows')) :
    rows' = deleteRow row.slot rows := by
  unfold removeDocuments at hrun
  simp only [run_bind_eq_ok, run_requireExists_iff, run_ofExcept_eq_ok] at hrun
  obtain ⟨-, _, ⟨hpresent, rfl⟩, cond, _, ⟨hcond, rfl⟩, hrun⟩ := hrun
  rw [if_neg (by simp), run_bind_eq_ok] at hrun
  obtain ⟨found, rows₁, hselect, hrun⟩ := hrun
  obtain ⟨hformed, rfl, rfl⟩ := (run_askSelect_iff hpresent).1 hselect
  have hfilter := h.filter_eq hslots hrow hcond hformed
  simp only [Option.elim_some, hfilter, List.take_succ_cons, List.take_nil] at hrun
  exact run_askDelete hrun

/-- The update of the document of a row. -/
lemma run_updateMatches_iff (hid : HasId L row v) (hfield : findField document idName = some v)
    (hpresent : S.present row.ns = true) {u : Doc} (start : UpdateOutcome) :
    (∃ outcome, (updateMatches L row.ns u [document] start).run S.handler rows =
      .ok (outcome, rows')) ↔
      ∃ result json before, applyUpdate document u = .ok result ∧ L.toExtjson result = .ok json ∧
        L.toExtjson document = .ok before ∧
        (json = before ∧ rows' = rows ∨
          json ≠ before ∧ rows' = replaceRow { row with doc := json } rows) := by
  obtain ⟨-, -, -, hkey, -⟩ := hid
  simp only [updateMatches, hfield, hkey]
  constructor
  · rintro ⟨outcome, hrun⟩
    simp only [run_bind_eq_ok, run_ofExcept_eq_ok] at hrun
    obtain ⟨result, _, ⟨hresult, rfl⟩, json, _, ⟨hjson, rfl⟩, before, _, ⟨hbefore, rfl⟩, hrun⟩ :=
      hrun
    refine ⟨result, json, before, hresult, hjson, hbefore, ?_⟩
    split at hrun
    · next heq => exact .inl ⟨heq, (run_pure_eq_ok.1 hrun).2.symm⟩
    · next hne =>
      simp only [run_bind_eq_ok, run_ofExcept_eq_ok] at hrun
      obtain ⟨key, _, ⟨hkey', rfl⟩, _, rows₁, hreplace, hrun⟩ := hrun
      obtain rfl := Except.ok.inj hkey'
      obtain rfl := (run_askReplace_iff (r := { row with doc := json }) hpresent).1 hreplace
      exact .inr ⟨hne, (run_pure_eq_ok.1 hrun).2.symm⟩
  · rintro ⟨result, json, before, hresult, hjson, hbefore, hrows⟩
    simp only [run_bind_eq_ok, run_ofExcept_eq_ok]
    rcases hrows with ⟨heq, rfl⟩ | ⟨hne, rfl⟩
    · refine ⟨{ start with matched := start.matched + 1 }, result, rows', ⟨hresult, rfl⟩, json,
        rows', ⟨hjson, rfl⟩, before, rows',
        ⟨hbefore, rfl⟩, ?_⟩
      rw [if_pos heq]
      exact run_pure_eq_ok.2 ⟨rfl, rfl⟩
    · refine ⟨⟨start.matched + 1, start.modified + 1, start.upsertedId⟩, result, rows,
        ⟨hresult, rfl⟩, json, rows, ⟨hjson, rfl⟩, before, rows,
        ⟨hbefore, rfl⟩, ?_⟩
      rw [if_neg hne]
      simp only [run_bind_eq_ok, run_ofExcept_eq_ok]
      exact ⟨row.key, rows, ⟨rfl, rfl⟩, (), _,
        (run_askReplace_iff (r := { row with doc := json }) hpresent).2 rfl,
        run_pure_eq_ok.2 ⟨rfl, rfl⟩⟩

/-- A load by `_id`. -/
lemma Picks.run_loadFound_iff (h : Picks S.M L rows row v) (hslots : (slots rows).Nodup)
    (hrow : row ∈ rows) (hdoc : L.fromExtjson row.doc = .ok document)
    (hpresent : S.present row.ns = true) {documents : List Doc} :
    (load L row.ns [(idName, v)]).run S.handler rows = .ok (documents, rows') ↔
      documents = [document] ∧ rows' = rows := by
  obtain ⟨cond, hcond, hformed, -⟩ := (h row hrow rfl).2 rfl
  have hread : ∀ cond', compileDocument L [(idName, v)] = .ok cond' → cond'.wellFormed = true →
      (rows.filter (S.matches row.ns cond')).mapM (fun row => L.fromExtjson row.doc) =
        .ok [document] := by
    intro cond' hcond' hformed'
    rw [h.filter_eq hslots hrow hcond' hformed', List.mapM_cons, hdoc]
    rfl
  rw [run_load_iff]
  constructor
  · rintro ⟨-, rfl, cond', hcond', hformed', hread'⟩
    exact ⟨Except.ok.inj (hread'.symm.trans (hread cond' hcond' hformed')), rfl⟩
  · rintro ⟨rfl, rfl⟩
    exact ⟨hpresent, rfl, cond, hcond, hformed, hread cond hcond hformed⟩

/-- The update of one document by its `_id`. -/
lemma Picks.run_update_iff (h : Picks S.M L rows row v) (hslots : (slots rows).Nodup)
    (hrow : row ∈ rows) (hid : HasId L row v) (hdoc : L.fromExtjson row.doc = .ok document)
    (hfield : findField document idName = some v) (hpresent : S.present row.ns = true) {u : Doc}
    (oid : BitVec 96) :
    (∃ outcome, (updateDocuments L row.ns [(idName, v)] u false false oid).run S.handler rows =
      .ok (outcome, rows')) ↔
      ∃ result json before, applyUpdate document u = .ok result ∧ L.toExtjson result = .ok json ∧
        L.toExtjson document = .ok before ∧
        (json = before ∧ rows' = rows ∨
          json ≠ before ∧ rows' = replaceRow { row with doc := json } rows) := by
  rw [← run_updateMatches_iff hid hfield hpresent ⟨0, 0, none⟩]
  refine exists_congr fun outcome => ?_
  unfold updateDocuments
  simp only [Bool.and_false, Bool.false_eq_true, if_false]
  rw [run_bind_eq_ok]
  constructor
  · rintro ⟨_, rows₁, hexists, hrest⟩
    obtain ⟨documents, rows₂, hload, hmatches⟩ := run_bind_eq_ok.1 hrest
    obtain ⟨outcome', rows₃, hupdate, hdone⟩ := run_bind_eq_ok.1 hmatches
    obtain ⟨-, rfl⟩ := run_requireExists_iff.1 hexists
    obtain ⟨rfl, rfl⟩ := (h.run_loadFound_iff hslots hrow hdoc hpresent).1 hload
    obtain ⟨rfl, rfl⟩ := run_pure_eq_ok.1 hdone
    exact hupdate
  · intro hupdate
    refine ⟨(), rows, run_requireExists_iff.2 ⟨hpresent, rfl⟩, run_bind_eq_ok.2
      ⟨[document], rows, (h.run_loadFound_iff hslots hrow hdoc hpresent).2 ⟨rfl, rfl⟩,
      run_bind_eq_ok.2 ⟨outcome, rows', hupdate, run_pure_eq_ok.2 ⟨rfl, rfl⟩⟩⟩⟩

/-- A search for the first document reads the tables only. -/
lemma run_findFirst {query sort : Doc} {documents : List Doc}
    (hrun : (findFirst L ns query sort).run S.handler rows = .ok (documents, rows'))
    (hfound : documents ≠ []) : S.present ns = true ∧ rows' = rows := by
  unfold findFirst at hrun
  obtain ⟨present, rows₁, hexists, hrest⟩ := run_bind_eq_ok.1 hrun
  have hperform := handler_eq_ok (run_question_eq_ok.1 hexists)
  obtain ⟨rfl, rfl⟩ := Prod.mk.inj (Except.ok.inj hperform)
  split at hrest
  · next hpresent =>
    obtain ⟨loaded, rows₂, hload, hsorts⟩ := run_bind_eq_ok.1 hrest
    have hloaded := (run_load_iff.1 hload).2.1
    refine ⟨hpresent, ?_⟩
    split at hsorts
    · exact (run_pure_eq_ok.1 hsorts).2.symm.trans hloaded
    · obtain ⟨sorted, rows₃, hsort, hdone⟩ := run_bind_eq_ok.1 hsorts
      have hsorted := (run_ofExcept_eq_ok.1 hsort).2
      exact (run_pure_eq_ok.1 hdone).2.symm.trans (hsorted.symm.trans hloaded)
  · exact absurd (run_pure_eq_ok.1 hrest).1.symm hfound

/-- What is loaded by `_id` once the document of the row is replaced. -/
lemma Picks.run_loadById_replaced (h : Picks S.M L rows row v) (hslots : (slots rows).Nodup)
    (hrow : row ∈ rows) (hpresent : S.present row.ns = true) (after : Json) {value : Option Doc} :
    (loadById L row.ns v).run S.handler (replaceRow { row with doc := after } rows) =
        .ok (value, rows') ↔
      rows' = replaceRow { row with doc := after } rows ∧
        ((Selected S.M L [(idName, v)] after ∧ ∃ d, L.fromExtjson after = .ok d ∧ value = some d) ∨
          ¬ Selected S.M L [(idName, v)] after ∧ value = none) := by
  obtain ⟨cond, hcond, hformed, -⟩ := (h row hrow rfl).2 rfl
  have hfilter := h.filter_replaced hslots hrow hcond hformed after
  have hmatches : S.matches row.ns cond { row with doc := after } = true ↔
      Selected S.M L [(idName, v)] after := by
    rw [matches_iff hcond hformed]
    simp
  unfold loadById
  rw [run_bind_eq_ok]
  by_cases hselected : Selected S.M L [(idName, v)] after
  · rw [if_pos (hmatches.2 hselected)] at hfilter
    constructor
    · rintro ⟨documents, rows₁, hload, hdone⟩
      obtain ⟨-, hrows₁, cond', hcond', hformed', hread⟩ := run_load_iff.1 hload
      obtain rfl := Except.ok.inj (hcond.symm.trans hcond')
      rw [hfilter, List.mapM_cons, except_bind_eq_ok] at hread
      obtain ⟨d, hd, hread⟩ := hread
      obtain rfl : [d] = documents := Except.ok.inj hread
      obtain ⟨rfl, rfl⟩ := run_pure_eq_ok.1 hdone
      exact ⟨hrows₁, .inl ⟨hselected, d, hd, rfl⟩⟩
    · rintro ⟨rfl, ⟨-, d, hd, rfl⟩ | ⟨hnot, -⟩⟩
      · refine ⟨[d], _, run_load_iff.2 ⟨hpresent, rfl, cond, hcond, hformed, ?_⟩,
          run_pure_eq_ok.2 ⟨rfl, rfl⟩⟩
        rw [hfilter, List.mapM_cons, hd]
        rfl
      · exact absurd hselected hnot
  · rw [if_neg (fun hm => hselected (hmatches.1 hm))] at hfilter
    constructor
    · rintro ⟨documents, rows₁, hload, hdone⟩
      obtain ⟨-, hrows₁, cond', hcond', hformed', hread⟩ := run_load_iff.1 hload
      obtain rfl := Except.ok.inj (hcond.symm.trans hcond')
      rw [hfilter] at hread
      obtain rfl : [] = documents := Except.ok.inj hread
      obtain ⟨rfl, rfl⟩ := run_pure_eq_ok.1 hdone
      exact ⟨hrows₁, .inr ⟨hselected, rfl⟩⟩
    · rintro ⟨rfl, ⟨hyes, -⟩ | ⟨-, rfl⟩⟩
      · exact absurd hyes hselected
      · refine ⟨[], _, run_load_iff.2 ⟨hpresent, rfl, cond, hcond, hformed, ?_⟩,
          run_pure_eq_ok.2 ⟨rfl, rfl⟩⟩
        rw [hfilter]
        rfl

/-- The statements of `findAndModify` once the first match is found. -/
lemma run_findAndModify_iff {c : FindAndModify} {rest : List Doc} {rows₀ : List Row}
    (hfirst : (findFirst L ns c.query c.sort).run S.handler rows = .ok (document :: rest, rows₀))
    (hfield : findField document idName = some v) (outcome : FindAndModifyOutcome) :
    (findAndModify L ns c).run S.handler rows = .ok (outcome, rows') ↔
      if c.remove then
        ∃ n, (removeDocuments L ns [(idName, v)] true).run S.handler rows = .ok (n, rows') ∧
          outcome = ⟨some document, 1, false, none⟩
      else ∃ updated rows₁ value,
        (updateDocuments L ns [(idName, v)] (c.update.getD []) false false c.oid).run S.handler
          rows = .ok (updated, rows₁) ∧
        (if c.returnNew then (loadById L ns v).run S.handler rows₁ = .ok (value, rows')
          else value = some document ∧ rows' = rows₁) ∧
        outcome = ⟨value, 1, true, none⟩ := by
  obtain ⟨-, hrows₀⟩ := run_findFirst hfirst (by simp)
  have hrun : (findAndModify L ns c).run S.handler rows =
      (if c.remove then (do
          let _ ← removeDocuments L ns [(idName, v)] true
          return ⟨some document, 1, false, none⟩)
        else (do
          let _ ← updateDocuments L ns [(idName, v)] (c.update.getD []) false false c.oid
          if c.returnNew then (do
            let value ← loadById L ns v
            return ⟨value, 1, true, none⟩)
          else return ⟨some document, 1, true, none⟩) :
        SqlProgram FindAndModifyOutcome).run S.handler rows := by
    unfold findAndModify
    rw [run_bind, hfirst, hrows₀]
    change Interaction.run _ _ _ = _
    simp only [hfield]
    rfl
  rw [hrun]
  split
  · rw [run_bind_eq_ok]
    constructor
    · rintro ⟨n, rows₁, hremove, hdone⟩
      obtain ⟨rfl, rfl⟩ := run_pure_eq_ok.1 hdone
      exact ⟨n, hremove, rfl⟩
    · rintro ⟨n, hremove, rfl⟩
      exact ⟨n, rows', hremove, run_pure_eq_ok.2 ⟨rfl, rfl⟩⟩
  · rw [run_bind_eq_ok]
    constructor
    · rintro ⟨updated, rows₁, hupdate, hrest⟩
      split at hrest
      · next hnew =>
        obtain ⟨value, rows₂, hvalue, hdone⟩ := run_bind_eq_ok.1 hrest
        obtain ⟨rfl, rfl⟩ := run_pure_eq_ok.1 hdone
        exact ⟨updated, rows₁, value, hupdate, by rwa [if_pos hnew], rfl⟩
      · next hnew =>
        obtain ⟨rfl, rfl⟩ := run_pure_eq_ok.1 hrest
        exact ⟨updated, rows₁, some document, hupdate, by rw [if_neg hnew]; exact ⟨rfl, rfl⟩, rfl⟩
    · rintro ⟨updated, rows₁, value, hupdate, hvalue, rfl⟩
      refine ⟨updated, rows₁, hupdate, ?_⟩
      split
      · next hnew =>
        rw [if_pos hnew] at hvalue
        exact run_bind_eq_ok.2 ⟨value, rows', hvalue, run_pure_eq_ok.2 ⟨rfl, rfl⟩⟩
      · next hnew =>
        rw [if_neg hnew] at hvalue
        obtain ⟨rfl, rfl⟩ := hvalue
        exact run_pure_eq_ok.2 ⟨rfl, rfl⟩

/-- **`findAndModify` acts on what it reports.**  A `findAndModify` that finds the document of a row
first re-selects exactly this row, and acts on it and on no other row, if and only if no other
document of the collection has an `_id` that the server takes for its own, and an update that is to
be reported leaves the document findable. -/
theorem findAndModify_acts_iff (hM : S.M.Documented W) (hL : L.Spells W) (hkeeps : L.KeepsScalars)
    (hwrites : L.WritesValues) (hkeys : KeysMatch L row.ns rows) (hrow : row ∈ rows)
    (hid : HasId L row v) (hv : v.matchable = true) (hdoc : L.fromExtjson row.doc = .ok document)
    {c : FindAndModify} {rest : List Doc} {rows₀ : List Row}
    (hfirst : (findFirst L row.ns c.query c.sort).run S.handler rows =
      .ok (document :: rest, rows₀)) :
    (Reselects S.M L rows row v ∧
      ∀ outcome rows', (findAndModify L row.ns c).run S.handler rows = .ok (outcome, rows') →
        c.ActsOn L row document rows rows' outcome.value) ↔
      S.M.Singles W L rows row v ∧ c.LeavesFound S.M W L document v := by
  have haccepted := hid.accepted hwrites hv
  have hfield := hid.read hkeeps hdoc
  have hpresent := (run_findFirst hfirst (by simp)).1
  rw [← picks_iff hM hL hv haccepted hkeys hrow hid, reselects_iff_picks hv haccepted]
  refine and_congr_right fun h => ⟨fun hacts hremove hnew result json before hresult hjson hbefore
    hne => ?_, fun hleaves outcome rows' hrun => ?_⟩
  · have hselected : Selected S.M L [(idName, v)] json := by
      by_contra hnot
      obtain ⟨updated, hupdate⟩ := (h.run_update_iff hkeys.slots hrow hid hdoc hfield hpresent
        c.oid).2 ⟨result, json, before, hresult, hjson, hbefore, .inr ⟨hne, rfl⟩⟩
      have hload := (h.run_loadById_replaced hkeys.slots hrow hpresent json).2
        ⟨rfl, .inr ⟨hnot, rfl⟩⟩
      have hrun := (run_findAndModify_iff hfirst hfield ⟨none, 1, true, none⟩).2 (by
        rw [if_neg (by simp [hremove])]
        exact ⟨updated, _, none, hupdate, by rwa [if_pos hnew], rfl⟩)
      have hacted := hacts _ _ hrun
      rw [FindAndModify.ActsOn, if_neg (by simp [hremove])] at hacted
      obtain ⟨_, _, _, _, _, _, _, hvalue⟩ := hacted
      rw [if_pos hnew] at hvalue
      obtain ⟨d, -, hvalue⟩ := hvalue
      cases hvalue
    exact (selected_id_iff hM hL hv haccepted hjson).1 hselected
  · have hstatements := (run_findAndModify_iff hfirst hfield outcome).1 hrun
    unfold FindAndModify.ActsOn
    split at hstatements
    · next hremove =>
      obtain ⟨n, hdelete, rfl⟩ := hstatements
      rw [if_pos hremove]
      exact ⟨h.run_remove hkeys.slots hrow hdelete, rfl⟩
    · next hremove =>
      obtain ⟨updated, rows₁, value, hupdate, hvalue, rfl⟩ := hstatements
      obtain ⟨result, json, before, hresult, hjson, hbefore, hrows⟩ :=
        (h.run_update_iff hkeys.slots hrow hid hdoc hfield hpresent c.oid).1
          ⟨updated, hupdate⟩
      rw [if_neg hremove]
      rcases hrows with ⟨rfl, rfl⟩ | ⟨hne, rfl⟩
      · have hself : replaceRow { row with doc := row.doc } rows₁ = rows₁ :=
          replaceRow_self hkeys.slots hrow
        refine ⟨result, json, row.doc, hresult, hjson, .inr ⟨rfl, hbefore⟩, ?_⟩
        rw [hself]
        split at hvalue
        · next hnew =>
          rw [if_pos hnew]
          rw [← hself, h.run_loadById_replaced hkeys.slots hrow hpresent row.doc, hself] at hvalue
          rcases hvalue with ⟨hrows', ⟨-, hread⟩ | ⟨hnot, -⟩⟩
          · exact ⟨hrows', hread⟩
          · exact absurd ((h row hrow rfl).2 rfl) hnot
        · next hnew =>
          rw [if_neg hnew]
          exact ⟨hvalue.2, hvalue.1⟩
      · refine ⟨result, json, json, hresult, hjson, .inl rfl, ?_⟩
        split at hvalue
        · next hnew =>
          rw [if_pos hnew]
          rw [h.run_loadById_replaced hkeys.slots hrow hpresent json] at hvalue
          rcases hvalue with ⟨hrows', ⟨-, hread⟩ | ⟨hnot, -⟩⟩
          · exact ⟨hrows', hread⟩
          · have hfound := hleaves (by simpa using hremove) hnew result json before hresult hjson
              hbefore hne
            exact absurd ((selected_id_iff hM hL hv haccepted hjson).2 hfound) hnot
        · next hnew =>
          rw [if_neg hnew]
          exact ⟨hvalue.2, hvalue.1⟩

end

/-! ## Documents of strings and integers -/

/-- The integer that a text spells. -/
def readInteger (s : Text) : ℤ :=
  if s.head? = some '-' then -digitsInFront s.tail else digitsInFront s

/-- A field that is spelled as a string or an integer. -/
def integerFromExtjson : Text × Json → Except TranslatorError (Text × Value)
  | (name, .str s) => .ok (name, .utf8 s)
  | (name, .obj [(_, .str s)]) => .ok (name, .int32 (Int32.ofInt (readInteger s)))
  | _ => .error (internalError "neither a string nor an integer".toList)

/-- A string or an integer. -/
def Value.isStringOrInteger : Value → Bool
  | .utf8 _ | .int32 _ => true
  | _ => false

/-- What libbson does to documents that hold strings and integers only. -/
def Libbson.ofIntegers : Libbson where
  toExtjson doc :=
    if doc.all fun field => field.2.isStringOrInteger then
      .ok (.obj (Spelling.plain.writeFields doc))
    else .error (internalError "neither a string nor an integer".toList)
  fromExtjson
    | .obj fields => fields.mapM integerFromExtjson
    | _ => .error (internalError "not a document".toList)

/-- The integer of an integer's text. -/
lemma readInteger_integerText (n : ℤ) : readInteger (integerText n) = n := by
  by_cases hn : n < 0
  · have htext : integerText n = '-' :: decimal n.natAbs := if_pos hn
    have hsign : ('-' :: decimal n.natAbs).head? = some '-' := rfl
    rw [htext, readInteger, if_pos hsign, List.tail_cons, digitsInFront_decimal]
    omega
  · have htext : integerText n = decimal n.natAbs := if_neg hn
    have hsign : (decimal n.natAbs).head? ≠ some '-' := fun h =>
      absurd (isDigit_of_head?_decimal h) (by decide)
    rw [htext, readInteger, if_neg hsign, digitsInFront_decimal]
    omega

/-- A string or an integer is read back as it was written. -/
lemma integerFromExtjson_write {name : Text} {v : Value} (hv : v.isStringOrInteger = true) :
    integerFromExtjson (name, Spelling.plain.write v) = .ok (name, v) := by
  cases v with
  | utf8 s => rfl
  | int32 n =>
    have hread : integerFromExtjson (name, Spelling.plain.write (.int32 n)) =
        .ok (name, .int32 (Int32.ofInt (readInteger (integerText n.toInt)))) := rfl
    rw [hread, readInteger_integerText, Int32.ofInt_toInt]
  | _ => cases hv

/-- What is written. -/
lemma Libbson.ofIntegers_toExtjson {doc : Doc} {json : Json}
    (h : Libbson.ofIntegers.toExtjson doc = .ok json) :
    (doc.all fun field => field.2.isStringOrInteger) = true ∧
      json = .obj (Spelling.plain.writeFields doc) := by
  unfold Libbson.ofIntegers at h
  dsimp only at h
  split at h
  · next hall => exact ⟨hall, (Except.ok.inj h).symm⟩
  · cases h

/-- A document of strings and integers is read back as it was written. -/
lemma Libbson.ofIntegers_roundTrip {doc : Doc} {json : Json}
    (h : Libbson.ofIntegers.toExtjson doc = .ok json) :
    Libbson.ofIntegers.fromExtjson json = .ok doc := by
  obtain ⟨hall, rfl⟩ := Libbson.ofIntegers_toExtjson h
  change (Spelling.plain.writeFields doc).mapM integerFromExtjson = .ok doc
  clear h
  induction doc with
  | nil => rfl
  | cons field doc ih =>
    obtain ⟨name, v⟩ := field
    obtain ⟨hv, hall⟩ : v.isStringOrInteger = true ∧
        (doc.all fun field => field.2.isStringOrInteger) = true := by
      simpa only [List.all_cons, Bool.and_eq_true] using hall
    rw [Spelling.writeFields, List.mapM_cons, integerFromExtjson_write hv, ih hall]
    rfl

/-- Documents of strings and integers keep their fields. -/
lemma Libbson.ofIntegers_keepsScalars : Libbson.ofIntegers.KeepsScalars := by
  intro doc json doc' name v hto hfrom hv _
  obtain rfl : doc = doc' := Except.ok.inj ((ofIntegers_roundTrip hto).symm.trans hfrom)
  exact hv

/-- Strings and integers are written in canonical Extended JSON. -/
lemma Libbson.ofIntegers_spells : Libbson.ofIntegers.Spells .plain := fun _ _ h =>
  (ofIntegers_toExtjson h).2

/-- Each field can be written alone. -/
lemma Libbson.ofIntegers_writesValues : Libbson.ofIntegers.WritesValues := by
  intro doc json name v hdoc hv
  obtain ⟨hall, -⟩ := ofIntegers_toExtjson hdoc
  obtain ⟨field, hfield, rfl⟩ := Option.map_eq_some_iff.1 hv
  have hvalue := List.all_eq_true.1 hall field (List.mem_of_find?_eq_some hfield)
  exact ⟨_, if_pos (by simpa using hvalue)⟩

/-- A server of collections of strings and integers. -/
def SqlServer.ofIntegers : SqlServer := ⟨.ofIntegers, fun _ => true, fun _ => []⟩

/-- The row of a document with a given `_id`. -/
def rowOf (ns : Namespace) (key : Text) (document : Doc) : Row :=
  ⟨ns, key, .obj (Spelling.plain.writeFields document)⟩

/-- The removal of the first of two documents, a string and an integer that it does not spell. -/
theorem findAndModify_acts_removal :
    let ns : Namespace := ⟨"app".toList, "items".toList⟩
    let document := [(idName, Value.utf8 "a".toList)]
    let row := rowOf ns (tagString :: "a".toList) document
    let other := rowOf ns (tagInt :: encodeInt 5) [(idName, .int32 5)]
    let c : FindAndModify := ⟨[], [], [], true, false, false, none, 0⟩
    Reselects .ofIntegers .ofIntegers [row, other] row (.utf8 "a".toList) ∧
      ∀ outcome rows', (findAndModify .ofIntegers ns c).run (SqlServer.handler .ofIntegers)
        [row, other] = .ok (outcome, rows') →
          c.ActsOn .ofIntegers row document [row, other] rows' outcome.value := by
  intro ns document row other c
  have hid : HasId .ofIntegers row (.utf8 "a".toList) := ⟨document, rfl, rfl, rfl, rfl⟩
  have hother : HasId .ofIntegers other (.int32 5) := ⟨[(idName, .int32 5)], rfl, rfl, rfl, rfl⟩
  have hkeys : KeysMatch .ofIntegers ns [row, other] := by
    refine ⟨fun r hr _ => ?_, by decide⟩
    rcases List.mem_cons.1 hr with rfl | hr
    · exact ⟨_, hid⟩
    · obtain rfl := List.mem_singleton.1 hr
      exact ⟨_, hother⟩
  have hsingles : MariaDB.ofIntegers.Singles .plain .ofIntegers [row, other] row
      (.utf8 "a".toList) := by
    intro r hr _ hne x hx
    have hr : r = other := by simpa [hne] using hr
    obtain ⟨doc, hdoc, hx, -⟩ := hx
    have hread := Libbson.ofIntegers_roundTrip hdoc
    rw [hr] at hread
    obtain rfl : [(idName, .int32 5)] = doc := Except.ok.inj hread
    obtain rfl : .int32 5 = x := Option.some.inj hx
    rintro (⟨_, _, _, hnumber, _⟩ | ⟨s, t, hs, ht, hcompare⟩)
    · cases hnumber
    · obtain rfl := Option.some.inj hs
      obtain rfl := Option.some.inj ht
      exact absurd hcompare (by decide)
  exact (findAndModify_acts_iff (S := .ofIntegers) (c := c) MariaDB.ofIntegers_documented
    Libbson.ofIntegers_spells Libbson.ofIntegers_keepsScalars Libbson.ofIntegers_writesValues hkeys
    List.mem_cons_self hid rfl rfl rfl).2 ⟨hsingles, fun hremove => by cases hremove⟩

/-- A removal that reports one document and removes another: the string that spells the integer. -/
theorem findAndModify_removes_other :
    let ns : Namespace := ⟨"app".toList, "items".toList⟩
    let document := [(idName, Value.int32 5), ("x".toList, .utf8 "a".toList)]
    let row := rowOf ns (tagInt :: encodeInt 5) document
    let other := rowOf ns (tagString :: "5".toList) [(idName, .utf8 "5".toList)]
    let c : FindAndModify := ⟨[("x".toList, .utf8 "a".toList)], [], [], true, false, false, none, 0⟩
    MariaDB.ofIntegers.Documented .plain ∧ Libbson.ofIntegers.Spells .plain ∧
      Libbson.ofIntegers.KeepsScalars ∧ KeysMatch .ofIntegers ns [other, row] ∧
      ∃ outcome, (findAndModify .ofIntegers ns c).run (SqlServer.handler .ofIntegers) [other, row] =
        .ok (outcome, [row]) ∧ outcome.value = some document := by
  intro ns document row other c
  have hkeys : KeysMatch .ofIntegers ns [other, row] := by
    refine ⟨fun r hr _ => ?_, by decide⟩
    rcases List.mem_cons.1 hr with rfl | hr
    · exact ⟨.utf8 "5".toList, [(idName, .utf8 "5".toList)], rfl, rfl, rfl, rfl⟩
    · obtain rfl := List.mem_singleton.1 hr
      exact ⟨.int32 5, document, rfl, rfl, rfl, rfl⟩
  refine ⟨MariaDB.ofIntegers_documented, Libbson.ofIntegers_spells,
    Libbson.ofIntegers_keepsScalars, hkeys, ?_⟩
  have hresult : ((findAndModify .ofIntegers ns c).run (SqlServer.handler .ofIntegers)
      [other, row]).toOption.map (fun p => (p.1.value, p.2)) = some (some document, [row]) := by
    decide +kernel
  cases hrun :
      (findAndModify .ofIntegers ns c).run (SqlServer.handler .ofIntegers) [other, row] with
  | error e =>
    rw [hrun] at hresult
    cases hresult
  | ok p =>
    rw [hrun] at hresult
    obtain ⟨hvalue, hrows⟩ := Prod.mk.inj (Option.some.inj hresult)
    exact ⟨p.1, by rw [← hrows], hvalue⟩

end Chimera
