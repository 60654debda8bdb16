import Chimera.Plugin.MongoGateway
import Chimera.Plugin.ReadFrame

/-!
# Parts of a command that are not documents

A selector, an update and a document to insert have to be BSON documents.  The handlers read them
through views, which take arrays for documents, and some handlers take a part that has no view for
an absent one.  So a command with an ill-typed part is as good as one without the part, or as one
with a document in its place, and is refused exactly when that one is.
-/

namespace Chimera

open Interaction

/-! ## Being refused -/

/-- The statement changes a collection. -/
def Sql.changesTable : Sql → Bool
  | .table q => !q.isRead
  | _ => false

section Refusal

variable {S : Type}

/-- A server that also keeps the transaction of the connection's session. -/
def WireServer.watched (server : WireServer S) : WireServer (S × SessionTransaction) :=
  fun q (s, t) => ((server q s).1, (server q s).2, t.note q (server q s).1)

/-- Nothing has been committed that changes a collection. -/
def SessionTransaction.Clean (t : SessionTransaction) : Prop :=
  ∀ q ∈ t.committed, q.changesTable = false

/-- The command fails, and has changed no document. -/
def RefusedBy {α : Type} (server : WireServer S) (x : WireProgram α) (s : S) : Prop :=
  ∃ e s' t, x.serve server.watched (s, ⟨none, []⟩) = (.error e, s', t) ∧ t.Clean

/-- When the batch comes to the element, the element fails and has changed no document.  A batch
on a collection that is not `there` does not come to its elements. -/
def BatchKind.Refuses (server : WireServer S) (kind : BatchKind) (ctx : Ctx) (ns : Namespace)
    (there : Bool) (i : ℕ) (v : Value) (s : S) : Prop :=
  ∀ ordered b, ∃ b' s' t e,
    (if there then runBatch ctx.L ns ordered [(i, kind.element ctx i v)] b
      else pure b : WireProgram Batch).serve server.watched (s, ⟨none, []⟩) = (.ok b', s', t) ∧
    b'.outcomes = b.outcomes ∧ b'.errors = b.errors ++ [(i, e)] ∧ t.Clean

end Refusal

/-! ## How a part is read -/

/-- A document as a handler reads it that looks at a part through a view: an array is a document,
and what has no view is not there. -/
def readAs (part : Text) (body : Doc) : Doc :=
  match viewField body part with
  | some fields => body.map fun f => if f.1 = part then (part, .document fields) else f
  | none => body.filter fun f => !decide (f.1 = part)

/-- Replacing the fields of one name by one value. -/
lemma findField_replace (part name : Text) (v : Value) (body : Doc) :
    findField (body.map fun f => if f.1 = part then (part, v) else f) name =
      if name = part then (findField body name).map fun _ => v else findField body name := by
  induction body with
  | nil => simp
  | cons f body ih =>
    obtain ⟨k, w⟩ := f
    by_cases hk : k = part
    · subst hk
      by_cases hname : name = k
      · subst hname
        simp
      · simp [hname, Ne.symm hname, ih]
    · by_cases hname : k = name
      · subst hname
        simp [hk]
      · simp [hk, hname, ih]

/-- The other fields are what they are. -/
lemma findField_readAs {part name : Text} (hname : name ≠ part) (body : Doc) :
    findField (readAs part body) name = findField body name := by
  unfold readAs
  cases viewField body part with
  | some fields => rw [findField_replace, if_neg hname]
  | none => exact findField_filter_of_ne hname

/-- The view of the part is what it is. -/
lemma viewField_readAs (part name : Text) (body : Doc) :
    viewField (readAs part body) name = viewField body name := by
  by_cases hname : name = part
  · subst hname
    cases hview : viewField body name with
    | some fields =>
      obtain ⟨v, hv, -⟩ := Option.bind_eq_some_iff.1 hview
      have hread : readAs name body =
          body.map fun f => if f.1 = name then (name, .document fields) else f := by
        unfold readAs
        rw [hview]
      unfold viewField
      rw [hread, findField_replace, if_pos rfl, hv]
      rfl
    | none =>
      have hread : readAs name body = body.filter fun f => !decide (f.1 = name) := by
        unfold readAs
        rw [hview]
      have hnone : findField (body.filter fun f => !decide (f.1 = name)) name = none := by
        simp [findField]
      unfold viewField
      rw [hread, hnone]
      rfl
  · unfold viewField
    rw [findField_readAs hname]

/-- A flag in another field is what it is, -/
lemma flag_readAs {part name : Text} (hname : name ≠ part) (body : Doc) (fallback : Bool) :
    flag (readAs part body) name fallback = flag body name fallback := by
  unfold flag
  rw [findField_readAs hname]

/-- and so is a number. -/
lemma numberField_readAs {part name : Text} (hname : name ≠ part) (body : Doc) (fallback : ℤ) :
    numberField (readAs part body) name fallback = numberField body name fallback := by
  unfold numberField
  rw [findField_readAs hname]

/-- A command as its handler reads it. -/
def Ctx.readAs (ctx : Ctx) (part : Text) : Ctx := { ctx with body := Chimera.readAs part ctx.body }

namespace Ctx

variable (ctx : Ctx) (part : Text)

/-- The namespace is what it is. -/
@[simp] lemma ns_readAs : (ctx.readAs part).ns = ctx.ns := rfl

/-- So is the library, -/
@[simp] lemma L_readAs : (ctx.readAs part).L = ctx.L := rfl

/-- and so are the views of the command. -/
@[simp] lemma viewField_readAs (name : Text) :
    viewField (ctx.readAs part).body name = viewField ctx.body name :=
  Chimera.viewField_readAs part name ctx.body

/-- The documents of the command are what they are. -/
@[simp] lemma subDocument_readAs (name : Text) :
    (ctx.readAs part).subDocument name = ctx.subDocument name := by
  unfold subDocument
  rw [viewField_readAs]

variable {part} {name : Text}

/-- Flags in other fields are what they are, -/
lemma flag_readAs (hname : name ≠ part) (fallback : Bool) :
    flag (ctx.readAs part).body name fallback = flag ctx.body name fallback :=
  Chimera.flag_readAs hname ctx.body fallback

/-- and numbers, -/
lemma numberField_readAs (hname : name ≠ part) (fallback : ℤ) :
    numberField (ctx.readAs part).body name fallback = numberField ctx.body name fallback :=
  Chimera.numberField_readAs hname ctx.body fallback

/-- and texts. -/
lemma textField_readAs (hname : name ≠ part) :
    textField (ctx.readAs part).body name = textField ctx.body name := by
  unfold textField readAs
  rw [findField_readAs hname]

end Ctx

/-! ## Commands with one selector -/

/-- The commands whose selector is a field of the command. -/
inductive SelectorKind where
  | find
  | count
  | distinct
  | findAndModify
deriving DecidableEq

/-- The handler. -/
def SelectorKind.handler : SelectorKind → Ctx → WireProgram Doc
  | .find => cmdFind
  | .count => cmdCount
  | .distinct => cmdDistinct
  | .findAndModify => cmdFindAndModify

/-- The fields that have to be documents: the selector, and the update. -/
def SelectorKind.parts : SelectorKind → List Text
  | .find => ["filter".toList]
  | .count | .distinct => ["query".toList]
  | .findAndModify => ["query".toList, "update".toList]

/-- `find` on the oplog. -/
lemma findOplog_readAs (ctx : Ctx) (ns : Namespace) :
    findOplog (ctx.readAs "filter".toList) ns = findOplog ctx ns := by
  have hlimit := ctx.numberField_readAs
    (show "limit".toList ≠ "filter".toList by decide) 0
  have hbatch := ctx.numberField_readAs
    (show "batchSize".toList ≠ "filter".toList by decide) defaultBatchSize
  have htailable := ctx.flag_readAs
    (show "tailable".toList ≠ "filter".toList by decide) false
  have hawait := ctx.flag_readAs
    (show "awaitData".toList ≠ "filter".toList by decide) false
  unfold findOplog
  rw [ctx.L_readAs, ctx.subDocument_readAs, ctx.subDocument_readAs, hlimit, hbatch, htailable,
    hawait]

/-- `find` on a collection. -/
lemma findCollection_readAs (ctx : Ctx) (ns : Namespace) :
    findCollection (ctx.readAs "filter".toList) ns = findCollection ctx ns := by
  have hbatch := ctx.numberField_readAs
    (show "batchSize".toList ≠ "filter".toList by decide) defaultBatchSize
  unfold findCollection
  rw [hbatch]
  simp (disch := decide) only [Ctx.L_readAs, Ctx.subDocument_readAs, Ctx.flag_readAs,
    Ctx.numberField_readAs]

/-- **How a selector is read.**  A command is the same program as the command without the part that
has no view, or with the document in place of the array. -/
theorem SelectorKind.handler_readAs (kind : SelectorKind) (ctx : Ctx) {part : Text}
    (hpart : part ∈ kind.parts) : kind.handler (ctx.readAs part) = kind.handler ctx := by
  cases kind with
  | find =>
    obtain rfl : part = "filter".toList := List.mem_singleton.1 hpart
    unfold handler cmdFind
    simp only [Ctx.ns_readAs, findOplog_readAs, findCollection_readAs]
  | count =>
    obtain rfl : part = "query".toList := List.mem_singleton.1 hpart
    unfold handler cmdCount
    simp (disch := decide) only [Ctx.ns_readAs, Ctx.L_readAs, Ctx.subDocument_readAs,
      Ctx.numberField_readAs]
  | distinct =>
    obtain rfl : part = "query".toList := List.mem_singleton.1 hpart
    unfold handler cmdDistinct
    simp (disch := decide) only [Ctx.ns_readAs, Ctx.L_readAs, Ctx.subDocument_readAs,
      Ctx.textField_readAs]
  | findAndModify =>
    have harguments : (ctx.readAs part).findAndModify = ctx.findAndModify := by
      unfold Ctx.findAndModify
      rcases List.mem_cons.1 hpart with rfl | hpart
      · simp (disch := decide) only [Ctx.subDocument_readAs, Ctx.viewField_readAs, Ctx.flag_readAs]
        rfl
      · obtain rfl : part = "update".toList := List.mem_singleton.1 hpart
        simp (disch := decide) only [Ctx.subDocument_readAs, Ctx.viewField_readAs, Ctx.flag_readAs]
        rfl
    unfold handler cmdFindAndModify
    simp only [harguments, Ctx.ns_readAs, Ctx.L_readAs]

/-! ## Elements of a batch -/

/-- The parts of an element that have to be documents: of an insert the element itself, of the
others fields of it. -/
inductive ElementPart : BatchKind → Type
  | document : ElementPart .insert
  | updateSelector : ElementPart .update
  | update : ElementPart .update
  | deleteSelector : ElementPart .delete

/-- The name of the field. -/
def ElementPart.name {kind : BatchKind} : ElementPart kind → Option Text
  | .document => none
  | .updateSelector | .deleteSelector => some "q".toList
  | .update => some "u".toList

/-- What an element has in this part. -/
def ElementPart.of {kind : BatchKind} (part : ElementPart kind) (v : Value) : Option Value :=
  match part.name with
  | none => some v
  | some name => v.subdocument.bind fun spec => findField spec name

/-- The element with the document in place of an array. -/
def ElementPart.readAs {kind : BatchKind} (part : ElementPart kind) (v : Value) : Value :=
  match part.name, v.subdocument with
  | none, some fields => .document fields
  | some name, some spec => .document (Chimera.readAs name spec)
  | _, none => v

/-- An update, when a field of it is read as a document. -/
lemma updateElement_readAs {name : Text} (hname : name = "q".toList ∨ name = "u".toList)
    (oid : BitVec 96) {v : Value} {spec : Doc} (hv : v.subdocument = some spec) :
    updateElement oid (.document (readAs name spec)) = updateElement oid v := by
  have hmulti : "multi".toList ≠ name := by
    rintro rfl
    revert hname
    decide
  have hupsert : "upsert".toList ≠ name := by
    rintro rfl
    revert hname
    decide
  have hread : (Value.document (readAs name spec)).subdocument = some (readAs name spec) := rfl
  unfold updateElement
  simp only [hread, hv, viewField_readAs, flag_readAs hmulti, flag_readAs hupsert]

/-- A delete, when its selector is read as a document. -/
lemma deleteElement_readAs {v : Value} {spec : Doc} (hv : v.subdocument = some spec) :
    deleteElement (.document (readAs "q".toList spec)) = deleteElement v := by
  have hlimit : "limit".toList ≠ "q".toList := by decide
  have hread : (Value.document (readAs "q".toList spec)).subdocument =
      some (readAs "q".toList spec) := rfl
  unfold deleteElement
  simp only [hread, hv, viewField_readAs, numberField_readAs hlimit]

/-- **How an element is read.**  An element is the same transaction as the element with a document
in place of an array. -/
theorem element_readAs {kind : BatchKind} (part : ElementPart kind) (ctx : Ctx) (i : ℕ)
    (v : Value) : kind.element ctx i (part.readAs v) = kind.element ctx i v := by
  unfold ElementPart.readAs
  cases hv : v.subdocument with
  | none => cases part <;> rfl
  | some spec =>
    cases part with
    | document =>
      change insertElement _ (.document spec) = insertElement _ v
      unfold insertElement
      rw [hv]
      rfl
    | updateSelector => exact updateElement_readAs (.inl rfl) _ hv
    | update => exact updateElement_readAs (.inr rfl) _ hv
    | deleteSelector => exact deleteElement_readAs hv

/-- A part that has no view is refused by the element's own check. -/
theorem element_eq_error {kind : BatchKind} {part : ElementPart kind} {v w : Value}
    (hpart : part.of v = some w) (hw : w.subdocument = none) (ctx : Ctx) (i : ℕ) :
    ∃ e, kind.element ctx i v = .error e := by
  have hview : ∀ name, (v.subdocument.bind fun spec => findField spec name) = some w →
      ∃ spec, v.subdocument = some spec ∧ viewField spec name = none := by
    intro name h
    obtain ⟨spec, hspec, hfield⟩ := Option.bind_eq_some_iff.1 h
    refine ⟨spec, hspec, ?_⟩
    unfold viewField
    rw [hfield]
    exact hw
  cases part with
  | document =>
    obtain rfl := Option.some.inj hpart
    change ∃ e, insertElement _ v = .error e
    unfold insertElement
    rw [hw]
    exact ⟨_, rfl⟩
  | updateSelector =>
    obtain ⟨spec, hspec, hq⟩ := hview _ hpart
    change ∃ e, updateElement _ v = .error e
    unfold updateElement
    simp only [hspec, hq]
    exact ⟨_, rfl⟩
  | update =>
    obtain ⟨spec, hspec, hu⟩ := hview _ hpart
    change ∃ e, updateElement _ v = .error e
    unfold updateElement
    simp only [hspec, hu]
    cases viewField spec "q".toList with
    | none => exact ⟨_, rfl⟩
    | some q => exact ⟨_, rfl⟩
  | deleteSelector =>
    obtain ⟨spec, hspec, hq⟩ := hview _ hpart
    change ∃ e, deleteElement v = .error e
    unfold deleteElement
    simp only [hspec, hq]
    exact ⟨_, rfl⟩

/-! ## When ill-typed parts are refused -/

section Refusal

variable {S : Type}

/-- An element that its own check refuses is refused. -/
lemma refuses_of_error {kind : BatchKind} {ctx : Ctx} {ns : Namespace} {i : ℕ} {v : Value}
    {e : TranslatorError} (he : kind.element ctx i v = .error e) (server : WireServer S) (s : S) :
    kind.Refuses server ctx ns true i v s := by
  intro ordered b
  refine ⟨b.failed i e, s, ⟨none, []⟩, e, ?_, rfl, rfl, fun q hq => by cases hq⟩
  rw [if_pos rfl, he]
  cases ordered with
  | true => rfl
  | false => rfl

/-- Elements that are the same transaction are refused alike. -/
lemma refuses_congr {kind : BatchKind} {ctx : Ctx} {i : ℕ} {v v' : Value}
    (h : kind.element ctx i v' = kind.element ctx i v) (server : WireServer S) (ns : Namespace)
    (there : Bool) (s : S) :
    kind.Refuses server ctx ns there i v' s ↔ kind.Refuses server ctx ns there i v s := by
  unfold BatchKind.Refuses
  rw [h]

/-- A batch on a collection that is not there refuses no element. -/
lemma not_refuses {kind : BatchKind} {ctx : Ctx} {ns : Namespace} {i : ℕ} {v : Value}
    {server : WireServer S} {s : S} : ¬ kind.Refuses server ctx ns false i v s := by
  intro h
  obtain ⟨b', s', t, e, hserve, -, herrors, -⟩ := h true .empty
  obtain ⟨hok, -⟩ := Prod.mk.inj hserve
  obtain rfl : Batch.empty = b' := Except.ok.inj hok
  cases herrors

/-- **When ill-typed parts are refused.**  A command with one selector has a part that is not a
document: it fails, and nothing is returned or changed, if and only if the command fails so that is
left when the part is dropped or, for an array, replaced by the document with the same fields.  An
element of a batch has a part that is not a document: it is refused if and only if the batch comes
to its elements, and the part is not an array or the element with the document in place of the
array is refused. -/
theorem refused_iff (server : WireServer S) (s : S) (ctx : Ctx) :
    (∀ (kind : SelectorKind) (part : Text) (w : Value), part ∈ kind.parts →
      findField ctx.body part = some w → w.isDocument = false →
      (RefusedBy server (kind.handler ctx) s ↔
        RefusedBy server (kind.handler (ctx.readAs part)) s)) ∧
    ∀ (kind : BatchKind) (part : ElementPart kind) (ns : Namespace) (there : Bool) (i : ℕ)
      (v w : Value), part.of v = some w → w.isDocument = false →
      (kind.Refuses server ctx ns there i v s ↔
        there = true ∧
          (w.subdocument = none ∨ kind.Refuses server ctx ns there i (part.readAs v) s)) := by
  constructor
  · intro kind part w hpart _ _
    rw [kind.handler_readAs ctx hpart]
  · intro kind part ns there i v w hpart _
    cases there with
    | false => exact iff_of_false not_refuses fun h => by cases h.1
    | true =>
      rw [refuses_congr (element_readAs part ctx i v)]
      constructor
      · intro h
        exact ⟨rfl, .inr h⟩
      · rintro ⟨-, hw | h⟩
        · obtain ⟨e, he⟩ := element_eq_error hpart hw ctx i
          exact refuses_of_error he server s
        · exact h

end Refusal

/-- A command with the given fields, on the collection `items`. -/
def plainCommand (body : Doc) : Ctx where
  body := body
  db := "app".toList
  argument := "items".toList
  L := .ofStrings
  oids _ := 0

/-- A string among the documents to insert is refused, and so is a command without a key. -/
theorem refused_iff_string :
    BatchKind.insert.Refuses (rowServer .ofStrings) (plainCommand []) ⟨"app".toList, "items".toList⟩
        true 0 (.utf8 "a".toList) [] ∧
      RefusedBy (rowServer .ofStrings)
        (cmdDistinct (plainCommand [("query".toList, .utf8 "a".toList)])) [] := by
  constructor
  · exact ((refused_iff (rowServer .ofStrings) [] (plainCommand [])).2 .insert .document _ true 0
      (.utf8 "a".toList) (.utf8 "a".toList) rfl rfl).2 ⟨rfl, .inl rfl⟩
  · refine ((refused_iff (rowServer .ofStrings) []
      (plainCommand [("query".toList, .utf8 "a".toList)])).1 .distinct "query".toList
      (.utf8 "a".toList) (by decide) rfl rfl).2 ?_
    exact ⟨_, _, _, rfl, fun q hq => by cases hq⟩

/-- A `findAndModify` that removes, with a string for its query. -/
def removeAny : Ctx :=
  plainCommand [("findAndModify".toList, .utf8 "items".toList), ("query".toList, .utf8 "x".toList),
    ("remove".toList, .bool true)]

/-- The only document of a collection. -/
def onlyRow : Row :=
  ⟨⟨"app".toList, "items".toList⟩, tagString :: "a".toList, .obj [(idName, .str "a".toList)]⟩

/-- A string for a query is read as an empty query: the only document is removed. -/
theorem removeAny_removes :
    findField removeAny.body "query".toList = some (.utf8 "x".toList) ∧
      ¬ RefusedBy (rowServer .ofStrings) (cmdFindAndModify removeAny) [onlyRow] ∧
      ((cmdFindAndModify removeAny).serve (rowServer .ofStrings) [onlyRow]).2 = [] := by
  refine ⟨rfl, ?_, rfl⟩
  rintro ⟨e, s', t, hserve, -⟩
  cases (Prod.mk.inj hserve).1

end Chimera
