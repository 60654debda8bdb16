import Chimera.Oplog.History
import Chimera.Plugin.CursorRegistry

/-!
# Namespaces as texts

The oplog, the cursor registry, the change events and the SQL gateway know a namespace by its
text, and find its parts again at the first dot.  That the text says which namespace it is rests
on a convention that the validator does not enforce: a database name without a dot.  The oplog
compares texts by the collation of its column, which has to tell them apart.
-/

namespace Chimera

open SequencedLog

/-- `read_changestream`: the rows of a namespace after a position, by the collation of the column
`ns`. -/
def readChangestream (fold : Text → Text) (s : OplogServer) (ns : Namespace)
    (afterSeq limit : ℕ) : Except TranslatorError (List OplogRow) := do
  let page :=
    pageAfter OplogRow.seq (fun r => decide (fold r.ns = fold ns.text)) afterSeq limit s.rows
  requireChangeStreamHistory s afterSeq
  return page

/-- What is expected of the texts of the namespaces in use. -/
structure FaithfulTexts (fold : Text → Text) (used : Set Namespace) : Prop where
  /-- The text says which namespace it is. -/
  injective : ∀ a ∈ used, ∀ b ∈ used, a.text = b.text → a = b
  /-- The parts are found at the first dot. -/
  splits : ∀ a ∈ used, databaseOf a.text = a.db ∧ collectionOf a.text = a.collection
  /-- A change stream delivers no other table's rows, and its events name the table. -/
  streams : ∀ a ∈ used, ∀ b ∈ used, ∀ s afterSeq limit page,
    readChangestream fold s a afterSeq limit = .ok page → ∀ r ∈ page, r.ns = b.text →
      b = a ∧ databaseOf r.ns = b.db ∧ collectionOf r.ns = b.collection
  /-- A cursor serves only the namespace it was opened on. -/
  serves : ∀ a ∈ used, ∀ b ∈ used, ∀ R now id v n served entry, R.cursors id = some entry →
    entry.ns = a.text → v.toDouble.truncate = id →
    getMore R now b.db b.collection v n = .ok served →
      b = a
  /-- The gateway gets all documents of a find. -/
  drains : ∀ a ∈ used, ∀ R now documents n, 1 ≤ R.nextId → R.nextId < 2 ^ 53 →
    ∃ fuel, collectCursor a.db now fuel (findReply R now a documents n false) =
      some (.ok documents)

/-! ## The first dot -/

/-- Up to the first dot there is no dot. -/
lemma dot_not_mem_databaseOf (text : Text) : '.' ∉ databaseOf text := by
  intro h
  have hall := List.all_eq_true.1 (List.all_takeWhile (p := fun c => decide (c ≠ '.')) (l := text))
  exact of_decide_eq_true (hall _ h) rfl

variable {a b : Namespace}

/-- A database name without a dot is found again. -/
lemma databaseOf_text (h : '.' ∉ a.db) : databaseOf a.text = a.db := by
  have hall : ∀ c ∈ a.db, decide (c ≠ '.') = true := by
    intro c hc
    have hne : c ≠ '.' := fun heq => h (heq ▸ hc)
    exact decide_eq_true hne
  rw [databaseOf, Namespace.text, List.takeWhile_append_of_pos hall]
  simp

/-- Behind a database name without a dot is the collection. -/
lemma collectionOf_text (h : '.' ∉ a.db) : collectionOf a.text = a.collection := by
  have hall : ∀ c ∈ a.db, decide (c ≠ '.') = true := by
    intro c hc
    have hne : c ≠ '.' := fun heq => h (heq ▸ hc)
    exact decide_eq_true hne
  have hcontains : a.text.contains '.' = true := by simp [Namespace.text]
  rw [collectionOf, if_pos hcontains, Namespace.text, List.dropWhile_append_of_pos hall]
  simp

/-- Without dots in the database names the text is injective. -/
lemma eq_of_text_eq (ha : '.' ∉ a.db) (hb : '.' ∉ b.db) (h : a.text = b.text) : a = b := by
  have hdb : a.db = b.db := by
    calc a.db = databaseOf a.text := (databaseOf_text ha).symm
      _ = databaseOf b.text := by rw [h]
      _ = b.db := databaseOf_text hb
  have hcollection : a.collection = b.collection := by
    calc a.collection = collectionOf a.text := (collectionOf_text ha).symm
      _ = collectionOf b.text := by rw [h]
      _ = b.collection := collectionOf_text hb
  cases a
  cases b
  simp_all

/-! ## Cursors -/

/-- What a `getMore` needs to succeed. -/
lemma getMore_eq_ok {R R' : CursorRegistry} {now n : ℤ} {db collection : Text} {v : Value}
    {reply : CursorReply} (h : getMore R now db collection v n = .ok (reply, R')) :
    ∃ ns entry, parseNamespace db collection = .ok ns ∧
      R.cursors v.toDouble.truncate = some entry ∧ entry.ns = ns.text := by
  unfold getMore at h
  split at h
  · cases h
  simp only [except_bind_eq_ok] at h
  obtain ⟨ns, hns, ⟨batch, exhausted, R''⟩, hbatch, -⟩ := h
  unfold CursorRegistry.nextBatch at hbatch
  split at hbatch
  · cases hbatch
  rename_i entry hentry
  split at hbatch
  · cases hbatch
  rename_i hentryns
  exact ⟨ns, entry, hns, hentry, not_not.1 hentryns⟩

/-- An accepted namespace consists of its parts. -/
lemma eq_of_parseNamespace {db collection : Text} {ns : Namespace}
    (h : parseNamespace db collection = .ok ns) : ns = ⟨db, collection⟩ := by
  simp only [parseNamespace, except_bind_eq_ok, except_pure_eq_ok] at h
  obtain ⟨-, -, -, -, hns⟩ := h
  exact hns.symm

/-- The number of a cursor survives the double. -/
lemma toDouble_truncate_cursorId {id : ℤ} (h₁ : 1 ≤ id) (h₂ : id < 2 ^ 53) :
    (Value.int64 (Int64.ofInt id)).toDouble.truncate = id := by
  have hid : (Int64.ofInt id).toInt = id := Int64.toInt_ofInt_of_le (by omega) (by omega)
  have hdouble : (Value.int64 (Int64.ofInt id)).toDouble = Binary64.ofInt id := by
    rw [Value.toDouble, valueAsDouble, hid, Except.toOption, Option.getD_some]
  rw [hdouble]
  exact Binary64.truncate_ofInt (by omega)

/-- A batch of so many documents. -/
lemma nextBatch_of_entry {R : CursorRegistry} (now : ℤ) {id n : ℤ} {ns : Text}
    {entry : CursorEntry} (hn : 0 < n) (hentry : R.cursors id = some entry) (hns : entry.ns = ns) :
    ∃ R', R.nextBatch now id ns n = .ok (entry.remaining.take n.toNat,
        (entry.remaining.drop n.toNat).isEmpty, R') ∧
      (¬ (entry.remaining.drop n.toNat).isEmpty → R'.cursors id =
        some { entry with remaining := entry.remaining.drop n.toNat, lastUsed := now }) := by
  obtain ⟨R', hbatch, -, hcursors⟩ := CursorRegistry.nextBatch_run hentry hns now n
  rw [CursorEntry.wanted, if_pos hn] at hbatch hcursors
  refine ⟨R', hbatch, fun hleft => ?_⟩
  rw [hcursors, Function.update_self, if_neg hleft]

/-- **Draining.**  The gateway gets what is left of a cursor of a namespace without a dot in its
database name. -/
theorem collectCursor_of_entry (ha : parseNamespace a.db a.collection = .ok a)
    (hdot : '.' ∉ a.db) (now : ℤ) {id : ℤ} (h₁ : 1 ≤ id) (h₂ : id < 2 ^ 53) (R : CursorRegistry)
    (batch : List Doc) (entry : CursorEntry) (hentry : R.cursors id = some entry)
    (hns : entry.ns = a.text) :
    ∃ fuel, collectCursor a.db now fuel (⟨id, a.text, batch⟩, R) =
      some (.ok (batch ++ entry.remaining)) := by
  -- every round takes a batch from the cursor
  induction hlength : entry.remaining.length using Nat.strongRecOn generalizing R batch entry with
  | ind length ih =>
    have hid : ¬ id = 0 := by omega
    obtain ⟨R', hbatch, hleft⟩ :=
      nextBatch_of_entry now (show 0 < defaultBatchSize by decide) hentry hns
    have hmore : getMore R now a.db (collectionOf a.text) (.int64 (Int64.ofInt id))
        defaultBatchSize = .ok (⟨if (entry.remaining.drop 101).isEmpty then 0 else id, a.text,
          entry.remaining.take 101⟩, R') := by
      rw [getMore, if_neg (by simp [valueIsNumeric]), collectionOf_text hdot, ha,
        toDouble_truncate_cursorId h₁ h₂]
      simp only [except_bind_eq_ok, except_pure_eq_ok]
      exact ⟨a, rfl, _, hbatch, rfl⟩
    by_cases hempty : (entry.remaining.drop 101).isEmpty = true
    · refine ⟨2, ?_⟩
      have hall : entry.remaining.take 101 = entry.remaining :=
        List.take_of_length_le (List.drop_eq_nil_iff.1 (List.isEmpty_iff.1 hempty))
      simp only [collectCursor, if_neg hid, hmore, hempty, if_true, hall, Option.map_some]
      rfl
    · have hshort : (entry.remaining.drop 101).length < length := by
        have hpos : 0 < (entry.remaining.drop 101).length :=
          List.length_pos_iff.2 fun h => hempty (List.isEmpty_iff.2 h)
        rw [List.length_drop] at hpos ⊢
        omega
      obtain ⟨fuel, hfuel⟩ := ih _ hshort R' (entry.remaining.take 101) _ (hleft hempty) hns rfl
      refine ⟨fuel + 1, ?_⟩
      rw [if_neg hempty] at hmore
      have hparts : entry.remaining.take 101 ++ entry.remaining.drop defaultBatchSize.toNat =
          entry.remaining := List.take_append_drop 101 entry.remaining
      simp only [collectCursor, if_neg hid, hmore, hfuel, Option.map_some, hparts]
      rfl

/-- The gateway gets all documents of a find. -/
lemma collectCursor_findReply (ha : parseNamespace a.db a.collection = .ok a)
    (hdot : '.' ∉ a.db) (R : CursorRegistry) (now : ℤ) (documents : List Doc) (n : ℤ)
    (h₁ : 1 ≤ R.nextId) (h₂ : R.nextId < 2 ^ 53) :
    ∃ fuel, collectCursor a.db now fuel (findReply R now a documents n false) =
      some (.ok documents) := by
  obtain ⟨take, htake⟩ :
      ∃ take, take = min documents.length (if n < 0 then 0 else n.toNat) := ⟨_, rfl⟩
  by_cases hrest : (documents.drop take).isEmpty = true
  · refine ⟨1, ?_⟩
    have hall : documents.take take = documents :=
      List.take_of_length_le (List.drop_eq_nil_iff.1 (List.isEmpty_iff.1 hrest))
    simp [findReply, CursorRegistry.openCursor, collectCursor, ← htake, hrest, hall]
  · have hreply : findReply R now a documents n false = (⟨R.nextId, a.text, documents.take take⟩,
        (R.expireIdle now).register ⟨a.text, documents.drop take, now⟩) := by
      simp [findReply, CursorRegistry.openCursor, ← htake, hrest]
    have hentry : ((R.expireIdle now).register ⟨a.text, documents.drop take, now⟩).cursors
        R.nextId = some ⟨a.text, documents.drop take, now⟩ := Function.update_self _ _ _
    obtain ⟨fuel, hfuel⟩ :=
      collectCursor_of_entry ha hdot now h₁ h₂ _ (documents.take take) _ hentry rfl
    refine ⟨fuel, ?_⟩
    rw [hreply, hfuel, List.take_append_drop]

/-! ## Faithful texts -/

variable {fold : Text → Text}

/-- The rows that a change stream of a namespace delivers. -/
lemma ns_of_readChangestream {s : OplogServer} {afterSeq limit : ℕ} {page : List OplogRow}
    (h : readChangestream fold s a afterSeq limit = .ok page) {r : OplogRow} (hr : r ∈ page) :
    fold r.ns = fold a.text := by
  simp only [readChangestream, except_bind_eq_ok, except_pure_eq_ok] at h
  obtain ⟨-, -, rfl⟩ := h
  exact of_decide_eq_true (mem_of_mem_pageAfter hr).2.2

/-- An oplog that holds a single event, on a namespace with this text. -/
def OplogServer.oneDelete (ns : Text) : OplogServer :=
  { OplogServer.newOplog with
    rows := [⟨1, ⟨10, 1⟩, .d, ns, .obj [], none⟩]
    committed := [⟨1, ⟨10, 1⟩, .d, ns, .obj [], none⟩]
    clock := ⟨10, 1⟩
    autoIncrement := 2 }

/-- A change stream delivers the event, if the collation does not tell the texts apart. -/
lemma readChangestream_oneDelete (h : fold b.text = fold a.text) :
    readChangestream fold (OplogServer.oneDelete b.text) a 0 1 =
      .ok [⟨1, ⟨10, 1⟩, .d, b.text, .obj [], none⟩] := by
  have hpage : pageAfter OplogRow.seq (fun r => decide (fold r.ns = fold a.text)) 0 1
      (OplogServer.oneDelete b.text).rows = [⟨1, ⟨10, 1⟩, .d, b.text, .obj [], none⟩] := by
    simp [OplogServer.oneDelete, pageAfter, h]
  rw [readChangestream, hpage]
  rfl

/-- **Namespaces as texts.**  The texts of accepted namespaces are faithful exactly when none of
their database names has a dot and the collation of the oplog tells them apart. -/
theorem faithfulTexts_iff {used : Set Namespace}
    (haccepted : ∀ a ∈ used, parseNamespace a.db a.collection = .ok a) :
    FaithfulTexts fold used ↔ (∀ a ∈ used, '.' ∉ a.db) ∧
      ∀ a ∈ used, ∀ b ∈ used, fold a.text = fold b.text → a.text = b.text := by
  constructor
  · intro h
    refine ⟨fun a ha => ?_, fun a ha b hb htext => ?_⟩
    · have hdb := (h.splits a ha).1
      exact hdb ▸ dot_not_mem_databaseOf a.text
    · have hsame := (h.streams b hb a ha _ 0 1 _ (readChangestream_oneDelete htext) _
        List.mem_cons_self rfl).1
      rw [hsame]
  · rintro ⟨hdots, htold⟩
    refine ⟨fun a ha b hb htext => eq_of_text_eq (hdots a ha) (hdots b hb) htext,
      fun a ha => ⟨databaseOf_text (hdots a ha), collectionOf_text (hdots a ha)⟩, ?_, ?_,
      fun a ha R now documents n h₁ h₂ =>
        collectCursor_findReply (haccepted a ha) (hdots a ha) R now documents n h₁ h₂⟩
    · intro a ha b hb s afterSeq limit page hread r hr hns
      have htext : b.text = a.text :=
        htold b hb a ha ((congrArg fold hns).symm.trans (ns_of_readChangestream hread hr))
      rw [hns]
      exact ⟨eq_of_text_eq (hdots b hb) (hdots a ha) htext, databaseOf_text (hdots b hb),
        collectionOf_text (hdots b hb)⟩
    · intro a ha b hb R now id v n served entry hentry hns hv hserved
      obtain ⟨ns, entry', hparse, hentry', hns'⟩ := getMore_eq_ok hserved
      obtain rfl := eq_of_parseNamespace hparse
      rw [hv, hentry] at hentry'
      obtain rfl := Option.some.inj hentry'
      exact eq_of_text_eq (hdots _ hb) (hdots a ha) (hns'.symm.trans hns)

/-- Two collections of one database, one of them with a dot in its name, where the collation folds
capital letters. -/
theorem faithfulTexts_iff_app :
    FaithfulTexts (List.map Char.toLower)
      {⟨"app".toList, "items".toList⟩, ⟨"app".toList, "items.old".toList⟩} :=
  (faithfulTexts_iff (by
    rintro a (rfl | rfl)
    · rfl
    · rfl)).2 ⟨by
    rintro a (rfl | rfl)
    · decide
    · decide, by
    rintro a (rfl | rfl) b (rfl | rfl) h
    · rfl
    · exact absurd h (by decide)
    · exact absurd h (by decide)
    · rfl⟩

/-- Two accepted namespaces with one text: the dot of the first is in its database name, that of
the second in its collection name. -/
theorem not_faithfulTexts_dotted :
    let a : Namespace := ⟨"a.b".toList, "c".toList⟩
    let b : Namespace := ⟨"a".toList, "b.c".toList⟩
    parseNamespace a.db a.collection = .ok a ∧ parseNamespace b.db b.collection = .ok b ∧
      a.text = b.text ∧ ∀ fold, ¬ FaithfulTexts fold {a, b} := by
  intro a b
  refine ⟨rfl, rfl, rfl, fun fold h => ?_⟩
  have heq := h.injective a (Set.mem_insert a {b}) b (Set.mem_insert_of_mem a rfl) rfl
  exact absurd heq (by decide)

end Chimera
