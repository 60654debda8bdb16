import Chimera.Plugin.Reselection
import Chimera.Translator.MergePatch

/-!
# Projections

`chimera_add_projection` shows one field of a document as a column.  The triggers of a bidirectional
projection keep both alike: a column that was given a value is written into the document, in the
wrapper of its type, and otherwise the column is read out of the document.
-/

namespace Chimera

/-! ## Columns -/

/-- What `v_patch` writes under the field. -/
inductive PatchKind where
  /-- An object of one wrapper. -/
  | wrapper (key : Text)
  /-- The value as the server has it in JSON. -/
  | plain
deriving DecidableEq

/-- `REGEXP '^(…|…)'`. -/
def beginsWith (words : List String) (s : Text) : Bool :=
  words.any fun word => word.toList.isPrefixOf s

/-- The branches on `p_type`.  `REGEXP` compares without regard to case. -/
def patchKind (type : Text) : PatchKind :=
  let type := type.map Char.toUpper
  if beginsWith ["TINYINT", "SMALLINT", "MEDIUMINT", "INT"] type then
    .wrapper "$numberInt".toList
  else if beginsWith ["BIGINT"] type then .wrapper "$numberLong".toList
  else if beginsWith ["DOUBLE", "FLOAT", "DECIMAL", "NUMERIC"] type then
    .wrapper "$numberDouble".toList
  else .plain

/-- What the server does with the values of a column's type. -/
structure ColumnType (V : Type) where
  /-- A value in `CONCAT`. -/
  text : V → Text
  /-- A value in `JSON_OBJECT`. -/
  json : V → Json
  /-- A text that is assigned to the column; the assignment may be refused. -/
  store : Text → Option V

/-- A bidirectional projection. -/
structure ColumnProjection (V : Type) where
  /-- The server's JSON functions. -/
  M : MariaDB
  /-- The server's conversions of the column's type. -/
  column : ColumnType V
  /-- `p_field`. -/
  field : Text
  /-- `p_type`. -/
  type : Text

/-- A row in a trigger: its document and the projected column. -/
structure ProjectedRow (V : Type) where
  /-- The document. -/
  doc : Option Json
  /-- The column. -/
  value : Option V
deriving DecidableEq

/-- A member of the document. -/
def ProjectedRow.member {V : Type} (row : ProjectedRow V) (name : Text) : Option Json :=
  row.doc.bind fun doc => jsonAt doc [name]

/-! ## The triggers -/

/-- The members that `v_read` looks for under the field, in its order. -/
def readPaths : List Path :=
  [[], ["$numberInt".toList], ["$numberLong".toList], ["$numberDouble".toList],
    ["$date".toList, "$numberLong".toList], ["$oid".toList]]

namespace ColumnProjection

variable {V : Type} (P : ColumnProjection V)

/-- `v_read`. -/
def vRead (doc : Json) : Option Text :=
  readPaths.findSome? fun path => P.M.jsonValue doc (P.field :: path)

/-- `v_patch`; the concatenation is null when the column is. -/
def vPatch (value : Option V) : Option Json :=
  match patchKind P.type with
  | .wrapper key =>
    value.map fun v => .obj [(P.field, .obj [(key, .str (P.column.text v))])]
  | .plain => some (.obj [(P.field, (value.map P.column.json).getD .null)])

/-- `JSON_MERGE_PATCH(JSON_REMOVE(NEW.doc, v_path), v_patch)`. -/
def patched (doc : Option Json) (value : Option V) : Option Json := do
  let doc ← doc
  let patch ← P.vPatch value
  return mergePatch (some (jsonRemove doc P.field)) patch

/-- What is read is assigned to the column. -/
def assign : Option Text → Option (Option V)
  | none => some none
  | some s => (P.column.store s).map some

/-- The `BEFORE INSERT` trigger. -/
def beforeInsert (new : ProjectedRow V) : Option (ProjectedRow V) :=
  if new.value.isSome then some { new with doc := P.patched new.doc new.value }
  else (P.assign (new.doc.bind P.vRead)).map fun value => { new with value := value }

/-- The `BEFORE UPDATE` trigger. -/
def beforeUpdate [DecidableEq V] (old new : ProjectedRow V) : Option (ProjectedRow V) :=
  if new.value ≠ old.value then some { new with doc := P.patched new.doc new.value }
  else (P.assign (new.doc.bind P.vRead)).map fun value => { new with value := value }

/-- An insert is reconciled as an update of a row whose column is null. -/
theorem beforeInsert_eq_beforeUpdate [DecidableEq V] {old : ProjectedRow V} (h : old.value = none)
    (new : ProjectedRow V) : P.beforeInsert new = P.beforeUpdate old new := by
  rw [beforeInsert, beforeUpdate, h]
  exact if_congr Option.isSome_iff_ne_none rfl rfl

/-- `v_read` reads what the translator's `scalar_expr` reads. -/
lemma vRead_eq_scalarExpr (doc : Json) : P.vRead doc = P.M.scalarExpr doc [P.field] := rfl

/-! ## What the triggers are for -/

/-- The members under the field that give a value. -/
def spellings (doc : Json) : List Path :=
  readPaths.filter fun path => (P.M.jsonValue doc (P.field :: path)).isSome

/-- Document and column agree: the field reads as the column's value, and is spelled in one way, or
in none when the column is null. -/
structure Agrees (doc : Json) (value : Option V) : Prop where
  /-- The field reads as the column's value. -/
  reads : P.assign (P.vRead doc) = some value
  /-- A value is spelled in one way. -/
  oneSpelling : (P.spellings doc).length = if value.isSome then 1 else 0

/-- What an update has to leave, given the row before it and the row it asks for. -/
structure Reconciled (old new row : ProjectedRow V) : Prop where
  /-- There is a document, and it agrees with the column. -/
  document : ∃ doc, row.doc = some doc ∧ P.Agrees doc row.value
  /-- The other fields are as they were asked for. -/
  others : ∀ name ≠ P.field, row.member name = new.member name
  /-- Where both the field and the column were changed, the document wins. -/
  documentWins : new.member P.field ≠ old.member P.field → new.value ≠ old.value →
    P.assign (new.doc.bind P.vRead) = some row.value

/-- What is written under the field for a value of the column. -/
def written (v : V) : Option Json :=
  match patchKind P.type with
  | .wrapper key => some (.obj [(key, .str (P.column.text v))])
  | .plain => if P.column.json v = .null then none else some (mergePatch none (P.column.json v))

/-- The server reads the value back from what is written for it. -/
def ReadsBack (v : V) : Prop :=
  ∃ inner, P.written v = some inner ∧ P.Agrees (.obj [(P.field, inner)]) (some v)

/-- The condition on an update.  A column that stays is read from a field that is spelled in at most
one way.  A column that is changed is not null unless its type is a plain one, its value is read
back, and it is what the field says if that is changed too. -/
structure Reconcilable (old new : ProjectedRow V) : Prop where
  /-- The column stays. -/
  stays : new.value = old.value → ∀ doc, new.doc = some doc → (P.spellings doc).length ≤ 1
  /-- The column becomes null. -/
  null : new.value ≠ old.value → new.value = none → patchKind P.type = .plain
  /-- The column is changed to a value. -/
  value : new.value ≠ old.value → ∀ v, new.value = some v → P.ReadsBack v
  /-- Both are changed. -/
  both : new.member P.field ≠ old.member P.field → new.value ≠ old.value →
    P.assign (new.doc.bind P.vRead) = some new.value

/-! ## Reading the field -/

section Reading

variable {P}

/-- What is read under the field. -/
lemma jsonValue_under (doc : Json) (path : Path) : P.M.jsonValue doc (P.field :: path) =
    (jsonAt doc [P.field]).bind fun inner => P.M.jsonValue inner path :=
  P.M.jsonValue_append doc [P.field] path

/-- The field decides what is read. -/
lemma jsonValue_congr {doc doc' : Json} (h : jsonAt doc [P.field] = jsonAt doc' [P.field])
    (path : Path) : P.M.jsonValue doc (P.field :: path) = P.M.jsonValue doc' (P.field :: path) := by
  rw [jsonValue_under, jsonValue_under, h]

/-- The field decides whether document and column agree. -/
lemma Agrees.congr {doc doc' : Json} {value : Option V}
    (h : jsonAt doc [P.field] = jsonAt doc' [P.field]) :
    P.Agrees doc value ↔ P.Agrees doc' value := by
  have hread : P.vRead doc = P.vRead doc' := by
    unfold vRead
    exact congrArg readPaths.findSome? (funext (jsonValue_congr h))
  have hspell : P.spellings doc = P.spellings doc' := by
    unfold spellings
    exact congrArg (readPaths.filter ·) (funext fun path => by rw [jsonValue_congr h path])
  constructor
  · rintro ⟨hr, hs⟩
    exact ⟨hread ▸ hr, hspell ▸ hs⟩
  · rintro ⟨hr, hs⟩
    exact ⟨hread ▸ hr, hspell ▸ hs⟩

/-- Something is read when there is a spelling. -/
lemma vRead_isSome_iff (doc : Json) : (P.vRead doc).isSome = true ↔ P.spellings doc ≠ [] := by
  rw [vRead, List.findSome?_isSome_iff, Ne, spellings, List.filter_eq_nil_iff]
  push Not
  rfl

/-- Nothing is read when there is no spelling. -/
lemma vRead_eq_none_iff (doc : Json) : P.vRead doc = none ↔ P.spellings doc = [] := by
  rw [← not_iff_not, ← Ne, Option.ne_none_iff_isSome, vRead_isSome_iff]

/-- A column that was assigned is null exactly when nothing was read. -/
lemma assign_isSome {read : Option Text} {value : Option V} (h : P.assign read = some value) :
    value.isSome = read.isSome := by
  cases read with
  | none =>
    obtain rfl := Option.some.inj h
    rfl
  | some s =>
    obtain ⟨v, -, rfl⟩ := Option.map_eq_some_iff.1 h
    rfl

/-- What was read and assigned agrees, when there was at most one way to read it. -/
lemma agrees_assign_iff {doc : Json} {value : Option V} (h : P.assign (P.vRead doc) = some value) :
    P.Agrees doc value ↔ (P.spellings doc).length ≤ 1 := by
  have hsome : value.isSome = true ↔ P.spellings doc ≠ [] := by
    rw [assign_isSome h, vRead_isSome_iff]
  constructor
  · rintro ⟨-, hone⟩
    rw [hone]
    split <;> omega
  · intro hle
    refine ⟨h, ?_⟩
    split
    · next hvalue =>
      have hpos := List.length_pos_of_ne_nil (hsome.1 hvalue)
      omega
    · next hvalue =>
      rw [List.length_eq_zero_iff]
      by_contra hne
      exact hvalue (hsome.2 hne)

/-- A document without the field agrees with a column that is null. -/
lemma agrees_of_absent {doc : Json} (h : jsonAt doc [P.field] = none) (value : Option V) :
    P.Agrees doc value ↔ value = none := by
  have hpath (path : Path) : P.M.jsonValue doc (P.field :: path) = none := by
    rw [jsonValue_under, h, Option.bind_none]
  have hspell : P.spellings doc = [] := by
    rw [spellings, List.filter_eq_nil_iff]
    intro path _
    rw [hpath path]
    exact Bool.false_ne_true
  have hread : P.assign (P.vRead doc) = some none := by
    rw [(vRead_eq_none_iff doc).2 hspell]
    rfl
  constructor
  · rintro ⟨hvalue, -⟩
    rw [hread] at hvalue
    exact (Option.some.inj hvalue).symm
  · rintro rfl
    exact ⟨hread, by rw [hspell]; rfl⟩

/-- The field alone decides the agreement. -/
lemma agrees_of_member {doc inner : Json} (h : jsonAt doc [P.field] = some inner)
    (value : Option V) : P.Agrees doc value ↔ P.Agrees (.obj [(P.field, inner)]) value := by
  refine Agrees.congr ?_
  rw [h, jsonAt_root, Json.members, member_cons, if_pos rfl]

/-! ## What is written -/

/-- The patch for a value is the member that is written for it. -/
lemma vPatch_value (v : V) : ∃ inner, P.vPatch (some v) = some (.obj [(P.field, inner)]) ∧
    P.written v = if inner = .null then none else some (mergePatch none inner) := by
  unfold vPatch written
  cases patchKind P.type with
  | wrapper key =>
    refine ⟨.obj [(key, .str (P.column.text v))], rfl, ?_⟩
    have hne : Json.obj [(key, .str (P.column.text v))] ≠ .null := Json.noConfusion
    rw [if_neg hne]
    rfl
  | plain => exact ⟨P.column.json v, rfl, rfl⟩

/-- A patched document has what is written, and its other members. -/
lemma patched_value (doc : Json) (v : V) : ∃ doc', P.patched (some doc) (some v) = some doc' ∧
    jsonAt doc' [P.field] = P.written v ∧
    ∀ name ≠ P.field, jsonAt doc' [name] = jsonAt doc [name] := by
  obtain ⟨inner, hpatch, hwritten⟩ := P.vPatch_value v
  refine ⟨mergePatch (some (jsonRemove doc P.field)) (.obj [(P.field, inner)]), ?_, ?_, ?_⟩
  · rw [patched, hpatch]
    rfl
  · rw [jsonAt_replaced, hwritten]
  · intro name hname
    exact jsonAt_replaced_of_ne doc inner hname

/-- A plain column that becomes null removes the field. -/
lemma patched_null (h : patchKind P.type = .plain) (doc : Json) :
    ∃ doc', P.patched (some doc) none = some doc' ∧ jsonAt doc' [P.field] = none ∧
      ∀ name ≠ P.field, jsonAt doc' [name] = jsonAt doc [name] := by
  refine ⟨mergePatch (some (jsonRemove doc P.field)) (.obj [(P.field, .null)]), ?_, ?_, ?_⟩
  · rw [patched, vPatch, h]
    rfl
  · rw [jsonAt_replaced, if_pos rfl]
  · intro name hname
    exact jsonAt_replaced_of_ne doc .null hname

/-- A wrapped column that becomes null takes the whole document with it. -/
lemma patched_null_of_ne (h : patchKind P.type ≠ .plain) (doc : Option Json) :
    P.patched doc none = none := by
  have hpatch : P.vPatch none = none := by
    unfold vPatch
    cases hkind : patchKind P.type with
    | wrapper key => rfl
    | plain => exact absurd hkind h
  rw [patched, hpatch]
  cases doc <;> rfl

/-- The wrappers of `v_patch`. -/
lemma wrapper_mem {type key : Text} (h : patchKind type = .wrapper key) :
    key ∈ ["$numberInt", "$numberLong", "$numberDouble"].map String.toList := by
  unfold patchKind at h
  extract_lets type at h
  split_ifs at h <;> obtain rfl := PatchKind.wrapper.inj h <;> decide

/-- A value that is written in a wrapper is read back when the server reads its text back. -/
lemma readsBack_iff {key : Text} (h : patchKind P.type = .wrapper key) (v : V) :
    P.ReadsBack v ↔ P.column.store (P.column.text v) = some v := by
  have hwritten : P.written v = some (.obj [(key, .str (P.column.text v))]) := by
    rw [written, h]
  have hdoc (path : Path) : P.M.jsonValue (.obj [(P.field, .obj [(key, .str (P.column.text v))])])
      (P.field :: path) = P.M.jsonValue (.obj [(key, .str (P.column.text v))]) path := by
    rw [jsonValue_under, jsonAt_root, Json.members, member_cons, if_pos rfl, Option.bind_some]
  have hread : P.vRead (.obj [(P.field, .obj [(key, .str (P.column.text v))])]) =
      some (P.column.text v) := by
    simp only [vRead, hdoc]
    have hkey := wrapper_mem h
    simp only [List.map_cons, List.map_nil, List.mem_cons, List.not_mem_nil, or_false] at hkey
    rcases hkey with rfl | rfl | rfl <;> rfl
  have hspell : (P.spellings (.obj [(P.field, .obj [(key, .str (P.column.text v))])])).length =
      1 := by
    simp only [spellings, hdoc]
    have hkey := wrapper_mem h
    simp only [List.map_cons, List.map_nil, List.mem_cons, List.not_mem_nil, or_false] at hkey
    rcases hkey with rfl | rfl | rfl <;> rfl
  constructor
  · rintro ⟨inner, hinner, hreads, -⟩
    obtain rfl := Option.some.inj (hwritten.symm.trans hinner)
    rw [hread] at hreads
    obtain ⟨w, hw, heq⟩ := Option.map_eq_some_iff.1 hreads
    rw [hw, Option.some.inj heq]
  · intro hstore
    refine ⟨_, hwritten, ?_, hspell⟩
    rw [hread]
    exact congrArg (Option.map some) hstore

end Reading

/-! ## Updates -/

section Updates

variable {P} {old new row : ProjectedRow V} {doc : Json}

/-- A column that becomes null leaves a document only when its type is a plain one. -/
lemma reconciled_null_iff (hdoc : new.doc = some doc) (hnull : new.value = none) :
    (∃ doc', P.patched new.doc new.value = some doc' ∧ P.Agrees doc' new.value ∧
      ∀ name ≠ P.field, jsonAt doc' [name] = jsonAt doc [name]) ↔
      patchKind P.type = .plain := by
  rw [hdoc, hnull]
  constructor
  · rintro ⟨doc', hpatched, -⟩
    by_contra hkind
    rw [patched_null_of_ne hkind] at hpatched
    cases hpatched
  · intro hkind
    obtain ⟨doc', hpatched, habsent, hothers⟩ := patched_null hkind doc
    exact ⟨doc', hpatched, (agrees_of_absent habsent none).2 rfl, hothers⟩

/-- A column that is changed to a value agrees with the document when the value is read back. -/
lemma reconciled_value_iff (hdoc : new.doc = some doc) {v : V} (hvalue : new.value = some v) :
    (∃ doc', P.patched new.doc new.value = some doc' ∧ P.Agrees doc' new.value ∧
      ∀ name ≠ P.field, jsonAt doc' [name] = jsonAt doc [name]) ↔ P.ReadsBack v := by
  rw [hdoc, hvalue]
  obtain ⟨doc', hpatched, hfield, hothers⟩ := patched_value (P := P) doc v
  constructor
  · rintro ⟨doc'', hpatched', hagrees, -⟩
    obtain rfl := Option.some.inj (hpatched.symm.trans hpatched')
    cases hwritten : P.written v with
    | none =>
      rw [hwritten] at hfield
      cases (agrees_of_absent hfield (some v)).1 hagrees
    | some inner =>
      rw [hwritten] at hfield
      exact ⟨inner, hwritten, (agrees_of_member hfield (some v)).1 hagrees⟩
  · rintro ⟨inner, hwritten, hagrees⟩
    rw [hwritten] at hfield
    exact ⟨doc', hpatched, (agrees_of_member hfield (some v)).2 hagrees, hothers⟩

variable [DecidableEq V]

/-- An update that leaves the column alone reads it out of the document. -/
lemma beforeUpdate_stays (h : new.value = old.value) (hrow : P.beforeUpdate old new = some row) :
    P.assign (new.doc.bind P.vRead) = some row.value ∧ row.doc = new.doc := by
  rw [beforeUpdate, if_neg (not_not.2 h)] at hrow
  obtain ⟨value, hvalue, rfl⟩ := Option.map_eq_some_iff.1 hrow
  exact ⟨hvalue, rfl⟩

/-- An update that changes the column writes it into the document. -/
lemma beforeUpdate_changes (h : new.value ≠ old.value) (hrow : P.beforeUpdate old new = some row) :
    row = { new with doc := P.patched new.doc new.value } := by
  rw [beforeUpdate, if_pos h] at hrow
  exact (Option.some.inj hrow).symm

/-- **Document and column are reconciled.**  An update that the trigger lets pass leaves a document
and a column that agree, the other fields alone, and the document's value where both were changed,
exactly when it is reconcilable. -/
theorem reconciled_iff (hdoc : new.doc = some doc) (hrow : P.beforeUpdate old new = some row) :
    P.Reconciled old new row ↔ P.Reconcilable old new := by
  by_cases hvalue : new.value = old.value
  · obtain ⟨hassign, hrowdoc⟩ := beforeUpdate_stays hvalue hrow
    rw [hdoc] at hrowdoc
    have hread : P.assign (P.vRead doc) = some row.value := by rwa [hdoc] at hassign
    constructor
    · rintro ⟨⟨doc', hdoc', hagrees⟩, -, -⟩
      obtain rfl := Option.some.inj (hrowdoc.symm.trans hdoc')
      refine ⟨fun _ doc'' hdoc'' => ?_, absurd hvalue, absurd hvalue, fun _ => absurd hvalue⟩
      obtain rfl := Option.some.inj (hdoc.symm.trans hdoc'')
      exact (agrees_assign_iff hread).1 hagrees
    · rintro ⟨hstays, -, -, -⟩
      refine ⟨⟨doc, hrowdoc, (agrees_assign_iff hread).2 (hstays hvalue doc hdoc)⟩, ?_,
        fun _ hne => absurd hvalue hne⟩
      intro name _
      rw [ProjectedRow.member, ProjectedRow.member, hrowdoc, hdoc]
  · obtain rfl := beforeUpdate_changes hvalue hrow
    have hothers (doc' : Json) (hdoc' : P.patched new.doc new.value = some doc') :
        (∀ name ≠ P.field, (ProjectedRow.mk (P.patched new.doc new.value) new.value).member name =
            new.member name) ↔ ∀ name ≠ P.field, jsonAt doc' [name] = jsonAt doc [name] := by
      rw [hdoc] at hdoc'
      simp only [ProjectedRow.member, hdoc, hdoc', Option.bind_some]
    have hwritten : (∃ doc', P.patched new.doc new.value = some doc' ∧ P.Agrees doc' new.value ∧
        ∀ name ≠ P.field, jsonAt doc' [name] = jsonAt doc [name]) ↔
        (new.value = none → patchKind P.type = .plain) ∧
          ∀ v, new.value = some v → P.ReadsBack v := by
      cases hnew : new.value with
      | none =>
        rw [← hnew, reconciled_null_iff hdoc hnew]
        simp [hnew]
      | some v =>
        rw [← hnew, reconciled_value_iff hdoc hnew]
        simp [hnew]
    constructor
    · rintro ⟨⟨doc', hdoc', hagrees⟩, hkept, hwins⟩
      obtain ⟨hnull, hback⟩ := hwritten.1 ⟨doc', hdoc', hagrees, (hothers doc' hdoc').1 hkept⟩
      exact ⟨fun h => absurd h hvalue, fun _ => hnull, fun _ => hback, hwins⟩
    · rintro ⟨-, hnull, hback, hboth⟩
      obtain ⟨doc', hdoc', hagrees, hkept⟩ := hwritten.2 ⟨hnull hvalue, hback hvalue⟩
      exact ⟨⟨doc', hdoc', hagrees⟩, (hothers doc' hdoc').2 hkept, hboth⟩

end Updates

end ColumnProjection

/-! ## Columns of integers -/

/-- A column of integers, to which a text of anything else cannot be assigned. -/
def ColumnType.integers : ColumnType ℤ where
  text := integerText
  json := .int
  store s := if integerText (readInteger s) = s then some (readInteger s) else none

/-- The projection of the field `qty` as an `INT`. -/
def quantities : ColumnProjection ℤ where
  M := .ofStrings
  column := .integers
  field := "qty".toList
  type := "INT".toList

/-- A document with a quantity. -/
def quantity (n : ℤ) : Json :=
  .obj [("sku".toList, .str "bolt".toList),
    ("qty".toList, .obj [("$numberInt".toList, .str (integerText n))])]

/-- Every integer is read back. -/
lemma quantities_readsBack (n : ℤ) : quantities.ReadsBack n := by
  have hkind : patchKind quantities.type = .wrapper "$numberInt".toList := by decide
  refine (ColumnProjection.readsBack_iff hkind n).2 ?_
  change (if integerText (readInteger (integerText n)) = integerText n then _ else _) = _
  rw [readInteger_integerText, if_pos rfl]
  exact congrArg some (readInteger_integerText n)

/-- Three of them become seven, in the document too. -/
theorem reconciled_iff_quantity :
    quantities.Reconciled ⟨some (quantity 3), some 3⟩ ⟨some (quantity 3), some 7⟩
      ⟨some (quantity 7), some 7⟩ := by
  refine (ColumnProjection.reconciled_iff rfl (by decide)).2 ⟨nofun, nofun, ?_, ?_⟩
  · intro _ v _
    exact quantities_readsBack v
  · intro hne
    exact absurd rfl hne

/-- A column that becomes null takes the document with it, and where one statement changes both
sides the column wins. -/
theorem update_loses_document :
    (quantities.beforeUpdate ⟨some (quantity 3), some 3⟩ ⟨some (quantity 3), none⟩ =
        some ⟨none, none⟩ ∧
      ¬ quantities.Reconciled ⟨some (quantity 3), some 3⟩ ⟨some (quantity 3), none⟩
        ⟨none, none⟩) ∧
    quantities.beforeUpdate ⟨some (quantity 3), some 3⟩ ⟨some (quantity 5), some 7⟩ =
        some ⟨some (quantity 7), some 7⟩ ∧
      ¬ quantities.Reconciled ⟨some (quantity 3), some 3⟩ ⟨some (quantity 5), some 7⟩
        ⟨some (quantity 7), some 7⟩ := by
  refine ⟨⟨by decide, ?_⟩, by decide, ?_⟩
  · rintro ⟨⟨doc, hdoc, -⟩, -, -⟩
    cases hdoc
  · rintro ⟨-, -, hwins⟩
    exact absurd (hwins (by decide) (by decide)) (by decide)

end Chimera
