import Chimera.Plugin.Catalog

/-!
# Creating indexes

What `createIndexes` makes of the indexes of a collection and of the catalog, entry by entry, and
that the command does just this to the server, whatever statements fail on the way, as long as no
failure comes between an `ALTER TABLE` and the statement that registers the index.
-/

namespace Chimera

open Interaction

/-! ## What the loop does -/

/-- The indexes on a table, and the catalog. -/
structure IndexState where
  /-- The indexes, in their order. -/
  indexes : List IndexSpec
  /-- The rows of `chimera_meta.indexes`. -/
  catalog : List IndexRow

namespace SchemaServer

variable (S : SchemaServer) (L : Libbson) (ns : Namespace)

/-- One index: it is there already, or it is added and registered. -/
def createSpec (spec : IndexSpec) (p : IndexState) : Except TranslatorError Unit × IndexState :=
  match spec.check with
  | .error e => (.error e, p)
  | .ok () =>
    if p.catalog.any (S.isEntry ns spec.name) then (.ok (), p)
    else
      match spec.paths with
      | .error e => (.error e, p)
      | .ok _ =>
        if S.blocks ns p.indexes spec then (.error (internalError S.detail), p)
        else
          match L.toExtjson spec.keyDocument with
          | .error e => (.error e, { p with indexes := p.indexes ++ [spec] })
          | .ok json =>
            (.ok (), ⟨p.indexes ++ [spec], S.put ⟨ns, spec.name, json, spec.unique⟩ p.catalog⟩)

/-- One entry of a request. -/
def createOne (v : Value) (p : IndexState) : Except TranslatorError Unit × IndexState :=
  match parseIndex v with
  | .error e => (.error e, p)
  | .ok spec => S.createSpec L ns spec p

/-- The entries of a request, up to the first that fails. -/
def createAll : List Value → IndexState → Except TranslatorError Unit × IndexState
  | [], p => (.ok (), p)
  | v :: rest, p =>
    match S.createOne L ns v p with
    | (.ok (), p') => createAll rest p'
    | (.error e, p') => (.error e, p')

/-- What `listIndexes` returns. -/
def listed (s : Schema) : Except TranslatorError (List IndexSpec) :=
  if s.present MetaTable.indexes.ns then
    ((S.listing ns s.catalog).mapM (decodeIndex L)).map
      (⟨"_id_".toList, [(idName, 1)], false⟩ :: ·)
  else .error (namespaceNotFound S.detail)

/-- The rows about a collection can be read. -/
def listable (catalog : List IndexRow) : Bool :=
  (catalog.filter (S.about ns)).all fun row =>
    (decodeIndex L (row.name, row.keySpec, row.unique)).toBool

/-- What `createIndexes` comes to, from an existing collection on: whether it succeeds, and what
it leaves. -/
def createResult (entries : List Value) (ready : Bool) (p : IndexState) : Bool × IndexState :=
  if ready && S.listable L ns p.catalog then
    match S.createAll L ns entries p with
    | (.ok (), p') => (S.listable L ns p'.catalog, p')
    | (.error _, p') => (false, p')
  else (false, p)

end SchemaServer

/-! ## States of the server -/

namespace Schema

/-- The table is one of the plugin's own. -/
def IsSystem (ns : Namespace) : Prop := ∃ table : MetaTable, ns = table.ns

/-- A table stays what it is, but one of the plugin's own may be created. -/
def Keeps (s t : Schema) (ns : Namespace) : Prop :=
  t.tables ns = s.tables ns ∨ IsSystem ns ∧ s.tables ns = none ∧ t.tables ns = some []

/-- Collections and catalog are the same. -/
structure Grows (s t : Schema) : Prop where
  /-- The catalog is the same. -/
  catalog : t.catalog = s.catalog
  /-- The tables are the same. -/
  tables : ∀ ns, s.Keeps t ns

/-- One collection has these indexes and the catalog these rows; the other collections are the
same. -/
structure Becomes (s : Schema) (ns : Namespace) (p : IndexState) (t : Schema) : Prop where
  /-- The indexes of the collection. -/
  table : t.tables ns = some p.indexes
  /-- The rows of the catalog. -/
  catalog : t.catalog = p.catalog
  /-- The other tables are the same. -/
  others : ∀ ns' ≠ ns, s.Keeps t ns'

variable {s t u : Schema} {ns : Namespace} {p p' : IndexState}

/-- A table stays what it is. -/
lemma Keeps.refl (s : Schema) (ns : Namespace) : s.Keeps s ns := .inl rfl

/-- One thing after the other. -/
lemma Keeps.trans (h : s.Keeps t ns) (h' : t.Keeps u ns) : s.Keeps u ns := by
  rcases h with h | ⟨hsystem, hnone, hnew⟩
  · rcases h' with h' | ⟨hsystem, hnone, hnew⟩
    · exact .inl (h'.trans h)
    · exact .inr ⟨hsystem, h.symm.trans hnone, hnew⟩
  · rcases h' with h' | ⟨-, hnone', -⟩
    · exact .inr ⟨hsystem, hnone, h'.trans hnew⟩
    · rw [hnew] at hnone'
      cases hnone'

/-- A table that is there stays. -/
lemma Keeps.of_present (h : s.Keeps t ns) (hs : s.present ns = true) :
    t.tables ns = s.tables ns := by
  rcases h with h | ⟨-, hnone, -⟩
  · exact h
  · rw [Schema.present, hnone] at hs
    cases hs

/-- A table that is there is there afterwards. -/
lemma Keeps.present (h : s.Keeps t ns) (hs : s.present ns = true) : t.present ns = true := by
  rw [Schema.present, h.of_present hs]
  exact hs

/-- A table that is not there has no indexes afterwards. -/
lemma Keeps.of_absent (h : s.Keeps t ns) (hs : s.present ns = false) :
    t.tables ns = none ∨ t.tables ns = some [] := by
  rcases h with h | ⟨-, -, hnew⟩
  · exact .inl (h.trans (Option.isSome_eq_false_iff.1 hs |> Option.isNone_iff_eq_none.1))
  · exact .inr hnew

/-- Nothing has happened. -/
lemma Grows.refl (s : Schema) : s.Grows s := ⟨rfl, Keeps.refl s⟩

/-- One thing after the other. -/
lemma Grows.trans (h : s.Grows t) (h' : t.Grows u) : s.Grows u :=
  ⟨h'.catalog.trans h.catalog, fun ns => (h.tables ns).trans (h'.tables ns)⟩

/-- A table is there when it has been given indexes, or was there before. -/
lemma present_setTable {ns' : Namespace} {indexes : List IndexSpec} :
    (s.setTable ns indexes).present ns' = true ↔ ns' = ns ∨ s.present ns' = true := by
  unfold present setTable
  by_cases heq : ns' = ns
  · simp [heq]
  · simp [heq]

/-- A table that is created is there, and the others are still there. -/
lemma present_ensure {ns' : Namespace} :
    (s.ensure ns).present ns' = true ↔ ns' = ns ∨ s.present ns' = true := by
  unfold ensure
  by_cases hthere : s.present ns = true
  · rw [if_pos hthere]
    refine ⟨.inr, ?_⟩
    rintro (rfl | h)
    · exact hthere
    · exact h
  · rw [if_neg hthere]
    exact present_setTable

/-- Other tables are the same when one is created. -/
lemma tables_ensure_of_ne {ns' : Namespace} (hne : ns' ≠ ns) :
    (s.ensure ns).tables ns' = s.tables ns' := by
  unfold ensure setTable
  split
  · rfl
  · exact Function.update_of_ne hne _ _

/-- A table of `chimera_meta` is created. -/
lemma grows_ensure (s : Schema) (table : MetaTable) : s.Grows (s.ensure table.ns) := by
  by_cases hthere : s.present table.ns = true
  · rw [ensure, if_pos hthere]
    exact .refl s
  · refine ⟨?_, fun ns => ?_⟩
    · rw [ensure, if_neg hthere, setTable]
    · by_cases heq : ns = table.ns
      · subst heq
        refine .inr ⟨⟨table, rfl⟩, ?_, ?_⟩
        · simpa [present] using hthere
        · rw [ensure, if_neg hthere]
          exact Function.update_self _ _ _
      · exact .inl (tables_ensure_of_ne heq)

/-- A collection is what it is. -/
lemma Becomes.refl (h : s.tables ns = some p.indexes) (hcatalog : s.catalog = p.catalog) :
    s.Becomes ns p s :=
  ⟨h, hcatalog, fun ns' _ => .refl s ns'⟩

/-- Tables of `chimera_meta` may be created before. -/
lemma Grows.becomes (h : s.Grows t) (h' : t.Becomes ns p u) : s.Becomes ns p u :=
  ⟨h'.table, h'.catalog, fun ns' hne => (h.tables ns').trans (h'.others ns' hne)⟩

/-- One thing after the other. -/
lemma Becomes.trans (h : s.Becomes ns p t) (h' : t.Becomes ns p' u) : s.Becomes ns p' u :=
  ⟨h'.table, h'.catalog, fun ns' hne => (h.others ns' hne).trans (h'.others ns' hne)⟩

/-- The collection is there. -/
lemma Becomes.there (h : s.Becomes ns p t) : t.present ns = true := by
  rw [Schema.present, h.table]
  rfl

/-- No table is lost. -/
lemma Becomes.keeps_present (h : s.Becomes ns p t) {ns' : Namespace}
    (hs : s.present ns' = true) : t.present ns' = true := by
  by_cases heq : ns' = ns
  · rw [heq]
    exact h.there
  · exact (h.others ns' heq).present hs

/-- Tables of `chimera_meta` may be created afterwards. -/
lemma Becomes.grows (h : s.Becomes ns p t) (h' : t.Grows u) : s.Becomes ns p u :=
  ⟨((h'.tables ns).of_present h.there).trans h.table, h'.catalog.trans h.catalog,
    fun ns' hne => (h.others ns' hne).trans (h'.tables ns')⟩

/-- A collection is created. -/
lemma Grows.becomes_ensure (h : s.Grows t) (habsent : s.present ns = false) :
    s.Becomes ns ⟨[], s.catalog⟩ (t.ensure ns) := by
  have hcatalog : (t.ensure ns).catalog = s.catalog := by
    rw [← h.catalog, ensure]
    split
    · rfl
    · rfl
  refine ⟨?_, hcatalog, fun ns' hne => (h.tables ns').trans (.inl (tables_ensure_of_ne hne))⟩
  rcases (h.tables ns).of_absent habsent with hnone | hnew
  · have habsent' : ¬ t.present ns = true := by simp [Schema.present, hnone]
    rw [Schema.ensure, if_neg habsent']
    exact Function.update_self _ _ _
  · have hthere : t.present ns = true := by simp [Schema.present, hnew]
    rw [Schema.ensure, if_pos hthere, hnew]

/-- The collection gets other indexes. -/
lemma Becomes.setTable (h : s.Becomes ns p t) (indexes : List IndexSpec) :
    s.Becomes ns { p with indexes := indexes } (t.setTable ns indexes) :=
  ⟨Function.update_self _ _ _, h.catalog,
    fun ns' hne => (h.others ns' hne).trans (.inl (Function.update_of_ne hne _ _))⟩

/-- The catalog gets other rows. -/
lemma Becomes.setCatalog (h : s.Becomes ns p t) (catalog : List IndexRow) :
    s.Becomes ns { p with catalog := catalog } { t with catalog := catalog } :=
  ⟨h.table, rfl, h.others⟩

end Schema

/-! ## Listing -/

section Listing

variable {S : SchemaServer} {L : Libbson} {ns : Namespace} {s : Schema}

/-- A list is read when each of its members is. -/
lemma toBool_mapM {α β : Type} (f : α → Except TranslatorError β) (l : List α) :
    (l.mapM f).toBool = l.all fun a => (f a).toBool := by
  induction l with
  | nil => rfl
  | cons a l ih =>
    rw [List.mapM_cons, List.all_cons, ← ih]
    cases f a with
    | error e => rfl
    | ok b =>
      cases l.mapM f with
      | error e => rfl
      | ok bs => rfl

/-- A list has the same members in another order. -/
lemma all_eq_of_perm {α : Type} {l l' : List α} (h : l.Perm l') (f : α → Bool) :
    l.all f = l'.all f := by
  rw [Bool.eq_iff_iff, List.all_eq_true, List.all_eq_true]
  exact ⟨fun hl a ha => hl a (h.mem_iff.2 ha), fun hl a ha => hl a (h.mem_iff.1 ha)⟩

/-- The indexes can be listed when the catalog is there and its rows can be read. -/
lemma toBool_listed (S : SchemaServer) (L : Libbson) (ns : Namespace) (s : Schema) :
    (S.listed L ns s).toBool =
    (s.present MetaTable.indexes.ns && S.listable L ns s.catalog) := by
  rw [SchemaServer.listed]
  by_cases hready : s.present MetaTable.indexes.ns = true
  · have hall : ((S.listing ns s.catalog).mapM (decodeIndex L)).toBool =
        S.listable L ns s.catalog := by
      rw [toBool_mapM, SchemaServer.listing, List.all_map, SchemaServer.listable]
      exact all_eq_of_perm (List.mergeSort_perm _ _) _
    rw [if_pos hready, hready, Bool.true_and, ← hall]
    cases (S.listing ns s.catalog).mapM (decodeIndex L) with
    | error e => rfl
    | ok specs => rfl
  · have hready' : s.present MetaTable.indexes.ns = false := by simpa using hready
    rw [if_neg hready, hready']
    rfl

end Listing

/-! ## Failures -/

/-- Failures that leave the statements alone that complete an index change. -/
def Spares (strikes : (q : SchemaQuestion) → q.Answer → Prop) : Prop :=
  ∀ q r, strikes q r → ¬ q.Completes ∧ ∃ e, q.fail e = some r

/-- There are failures. -/
def Struck (strikes : (q : SchemaQuestion) → q.Answer → Prop) : Prop := ∃ q r, strikes q r

section Failures

variable {S : SchemaServer} {L : Libbson} {ns : Namespace} {s t : Schema} {p : IndexState}
  {strikes : (q : SchemaQuestion) → q.Answer → Prop} {α : Type}

/-- The failures, as far as the questions of other commands are concerned. -/
def onWireStrikes (strikes : (q : SchemaQuestion) → q.Answer → Prop) (q : Question)
    (r : q.Answer) : Prop := strikes (.wire q) r

/-- A statement that is struck fails. -/
lemma Spares.eq_error (hspares : Spares strikes) {session : SessionKind} {q : Sql}
    {r : Except TranslatorError q.Result} (hr : strikes (.wire (.sql session q)) r) :
    ∃ e, r = .error e := by
  obtain ⟨-, e, he⟩ := hspares _ _ hr
  exact ⟨e, (Option.some.inj he).symm⟩

/-- What other commands do too. -/
lemma withstands_onWire {x : WireProgram α} {Post : Except TranslatorError α → Schema → Prop}
    (hx : x.Withstands S.wire (onWireStrikes strikes) s Post) :
    (onWire x).Withstands S.server strikes s Post := by
  induction x generalizing s with
  | done a => exact hx
  | fail e => exact hx
  | ask q next ih => exact ⟨ih _ hx.1, fun r hr => ih r (hx.2 r hr)⟩

/-- A statement of another command. -/
lemma withstands_statement (hspares : Spares strikes) {session : SessionKind} {q : Sql}
    {Post : Except TranslatorError q.Result → Schema → Prop}
    (hserver : Post (S.wire (.sql session q) s).1 (S.wire (.sql session q) s).2)
    (hstruck : Struck strikes → ∀ e, Post (.error e) s) :
    (statement session q).Withstands S.wire (onWireStrikes strikes) s Post := by
  refine ⟨?_, fun r hr => ?_⟩
  · revert hserver
    cases (S.wire (.sql session q) s).1 with
    | ok result => exact id
    | error e => exact id
  · obtain ⟨e, rfl⟩ := hspares.eq_error hr
    exact hstruck ⟨_, _, hr⟩ e

/-- A statement does what the server does, or it is struck. -/
lemma withstands_schemaSql (hspares : Spares strikes) {q : SchemaSql}
    {Post : Except TranslatorError q.Result → Schema → Prop}
    (hok : ∀ result t, S.perform q s = .ok (result, t) → Post (.ok result) t)
    (herror : ∀ e, S.perform q s = .error e → Post (.error e) s)
    (hstruck : ¬ (SchemaQuestion.sql q).Completes → Struck strikes → ∀ e, Post (.error e) s) :
    (schemaSql q).Withstands S.server strikes s Post := by
  refine ⟨?_, fun r hr => ?_⟩
  · cases hperform : S.perform q s with
    | error e =>
      have hserver : S.server (.sql q) s = (.error e, s) := by
        simp only [SchemaServer.server, hperform]
      rw [hserver]
      exact herror e hperform
    | ok p =>
      have hserver : S.server (.sql q) s = (.ok p.1, p.2) := by
        simp only [SchemaServer.server, hperform]
      rw [hserver]
      exact hok p.1 p.2 hperform
  · obtain ⟨hcompletes, e, he⟩ := hspares _ _ hr
    obtain rfl := Option.some.inj he
    exact hstruck hcompletes ⟨_, _, hr⟩ e

/-- A statement that succeeds unless it is struck. -/
lemma withstands_schemaSql_ok (hspares : Spares strikes) {q : SchemaSql} {result : q.Result}
    (hperform : S.perform q s = .ok (result, t))
    {Post : Except TranslatorError q.Result → Schema → Prop} (hok : Post (.ok result) t)
    (hstruck : ¬ (SchemaQuestion.sql q).Completes → Struck strikes → ∀ e, Post (.error e) s) :
    (schemaSql q).Withstands S.server strikes s Post := by
  refine withstands_schemaSql hspares (fun result' t' h => ?_) (fun e h => ?_) hstruck
  · rw [hperform] at h
    cases h
    exact hok
  · rw [hperform] at h
    cases h

/-- A statement that fails. -/
lemma withstands_schemaSql_error (hspares : Spares strikes) {q : SchemaSql} {e : TranslatorError}
    (hperform : S.perform q s = .error e)
    {Post : Except TranslatorError q.Result → Schema → Prop} (herror : Post (.error e) s)
    (hstruck : ¬ (SchemaQuestion.sql q).Completes → Struck strikes → ∀ e, Post (.error e) s) :
    (schemaSql q).Withstands S.server strikes s Post := by
  refine withstands_schemaSql hspares (fun result' t' h => ?_) (fun e' h => ?_) hstruck
  · rw [hperform] at h
    cases h
  · rw [hperform] at h
    cases h
    exact herror

/-- A look for the table. -/
lemma withstands_askExists (hspares : Spares strikes)
    {Post : Except TranslatorError Bool → Schema → Prop} (hserver : Post (.ok (s.present ns)) s)
    (hstruck : Struck strikes → ∀ e, Post (.error e) s) :
    (onCollection (askExists ns)).Withstands S.wire (onWireStrikes strikes) s Post := by
  refine ⟨hserver, fun r hr => ?_⟩
  obtain ⟨e, rfl⟩ := hspares.eq_error hr
  exact hstruck ⟨_, _, hr⟩ e

/-- A look for a table that has to be there, and is. -/
lemma withstands_requireExists (hspares : Spares strikes) (hthere : s.present ns = true)
    {Post : Except TranslatorError Unit → Schema → Prop} (hserver : Post (.ok ()) s)
    (hstruck : Struck strikes → ∀ e, Post (.error e) s) :
    (onCollection (requireExists ns)).Withstands S.wire (onWireStrikes strikes) s Post := by
  refine ⟨?_, fun r hr => ?_⟩
  · change Withstands _ _ ((onCollection ((if s.present ns = true then pure () else _) :
      SqlProgram Unit))) s Post
    rw [hthere]
    exact hserver
  · obtain ⟨e, rfl⟩ := hspares.eq_error hr
    exact hstruck ⟨_, _, hr⟩ e

/-! ## Creating a collection -/

/-- The definition is about the catalog. -/
def Definition.IsMeta (definition : Definition) : Prop :=
  ∀ ns, definition ≠ .createTable ns

/-- A definition about the catalog leaves the collections alone. -/
lemma grows_define (session : SessionKind) {definition : Definition} (h : definition.IsMeta) :
    s.Grows (S.wire (.sql session (.define definition)) s).2 := by
  cases definition with
  | createMetaTable table => exact Schema.grows_ensure s table
  | createTable ns => exact absurd rfl (h ns)
  | _ => cases session <;> exact .refl s

/-- Definitions about the catalog, one after the other. -/
lemma withstands_definitions (hspares : Spares strikes) {definitions : List Definition}
    (h : ∀ definition ∈ definitions, definition.IsMeta) :
    (statements .connection (definitions.map .define)).Withstands S.wire (onWireStrikes strikes) s
      fun result t => s.Grows t ∧
        ((result = .ok () ∧ ∀ table, .createMetaTable table ∈ definitions →
            t.present table.ns = true) ∨
          Struck strikes ∧ ∃ e, result = .error e) := by
  induction definitions generalizing s with
  | nil => exact ⟨.refl s, .inl ⟨rfl, fun table htable => by cases htable⟩⟩
  | cons definition rest ih =>
    have hmeta : definition.IsMeta := h definition List.mem_cons_self
    have hgrows := grows_define (S := S) (s := s) .connection hmeta
    refine Withstands.bind (withstands_statement hspares ?_ fun hstruck e =>
      ⟨.refl s, .inr ⟨hstruck, e, rfl⟩⟩)
    have hdefined : (S.wire (.sql .connection (.define definition)) s).1 = .ok () := by
      cases definition <;> rfl
    rw [hdefined]
    refine (ih fun d hd => h d (List.mem_cons_of_mem _ hd)).weaken fun result t ht => ?_
    refine ⟨hgrows.trans ht.1, ht.2.imp_left fun hok => ⟨hok.1, fun table htable => ?_⟩⟩
    rcases List.mem_cons.1 htable with rfl | hrest
    · exact (ht.1.tables _).present (Schema.present_ensure.2 (.inl rfl))
    · exact hok.2 table hrest

/-- The definitions of `Collection::bootstrap`. -/
def bootstrapDefinitions : List Definition :=
  [.createDatabase metaDatabase, .createMetaTable .collections, .createMetaTable .indexes,
    .createDatabase metaDatabase, .createMetaTable .projections, .createProcedure .addProjection]

/-- `Collection::bootstrap` sends its definitions. -/
lemma bootstrap_eq : bootstrap = statements .connection (bootstrapDefinitions.map .define) := rfl

/-- `Collection::bootstrap`. -/
lemma withstands_bootstrap (hspares : Spares strikes) :
    bootstrap.Withstands S.wire (onWireStrikes strikes) s fun result t => s.Grows t ∧
      ((result = .ok () ∧ t.present MetaTable.indexes.ns = true) ∨
        Struck strikes ∧ ∃ e, result = .error e) := by
  have hmeta : ∀ definition ∈ bootstrapDefinitions, definition.IsMeta := by
    intro definition hdefinition ns
    rintro rfl
    simp [bootstrapDefinitions] at hdefinition
  rw [bootstrap_eq]
  refine (withstands_definitions hspares hmeta).weaken fun result t ht => ?_
  exact ⟨ht.1, ht.2.imp_left fun hok => ⟨hok.1, hok.2 .indexes (by simp [bootstrapDefinitions])⟩⟩

/-- What happens on other sessions leaves the collections alone. -/
lemma grows_elsewhere {q : Question} (h : q.Elsewhere) : s.Grows (S.wire q s).2 := by
  cases q with
  | sql session q =>
    cases session with
    | connection => cases h
    | own =>
      cases q with
      | define definition =>
        cases definition with
        | createMetaTable table => exact Schema.grows_ensure s table
        | _ => exact .refl s
      | table q => cases q <;> exact .refl s
      | _ => exact .refl s
  | _ => exact .refl s

/-- The triggers of the oplog. -/
lemma withstands_installOplogTriggers (hspares : Spares strikes) :
    (installOplogTriggers ns).Withstands S.wire (onWireStrikes strikes) s fun result t =>
      s.Grows t ∧ (result = .ok () ∨ Struck strikes ∧ ∃ e, result = .error e) := by
  have hgrows : installOplogSchema.Withstands S.wire (onWireStrikes strikes) s fun _ t =>
      s.Grows t :=
    asks_installOplogSchema.withstands
      (fun _ _ hq ht => ht.trans (grows_elsewhere hq)) (.refl s)
  have hserve : installOplogSchema.serve S.wire s = (.ok (), s) := rfl
  refine Withstands.bind ((hgrows.and (.of_serve _)).weaken fun result t ht => ?_)
  cases result with
  | ok _ =>
    exact withstands_statement hspares ⟨ht.1, .inl rfl⟩ fun hstruck e =>
      ⟨ht.1, .inr ⟨hstruck, e, rfl⟩⟩
  | error e =>
    refine ⟨ht.1, .inr ⟨?_, e, rfl⟩⟩
    rcases ht.2 with heq | ⟨q, r, hr⟩
    · rw [hserve] at heq
      cases heq
    · exact ⟨_, _, hr⟩

/-- `Collection::create`, where the collection is there. -/
lemma withstands_createCollection_present (hspares : Spares strikes)
    (hthere : s.present ns = true) {Post : Except TranslatorError Unit → Schema → Prop}
    (hserver : Post (.ok ()) s) (hstruck : Struck strikes → ∀ e, Post (.error e) s) :
    (onWire (createCollection ns false)).Withstands S.server strikes s Post := by
  refine withstands_onWire ⟨?_, fun r hr => ?_⟩
  · change Withstands _ _ (if s.present ns = true then _ else _) s Post
    rw [hthere]
    exact hserver
  · obtain ⟨e, rfl⟩ := hspares.eq_error hr
    exact hstruck ⟨_, _, hr⟩ e

/-- `Collection::create`, where the collection is not there: it is there afterwards, without
indexes, unless a failure has struck. -/
lemma withstands_createCollection_absent (hspares : Spares strikes)
    (habsent : s.present ns = false) :
    (onWire (createCollection ns false)).Withstands S.server strikes s fun result t =>
      (s.Becomes ns ⟨[], s.catalog⟩ t ∧ result = .ok () ∧
          t.present MetaTable.indexes.ns = true) ∨
        Struck strikes ∧ (∃ e, result = .error e) ∧
          (s.Grows t ∨ s.Becomes ns ⟨[], s.catalog⟩ t ∧
            t.present MetaTable.indexes.ns = true) := by
  refine withstands_onWire ⟨?_, fun r hr => ?_⟩
  · change Withstands _ _ (if s.present ns = true then _ else _) s _
    rw [habsent]
    refine Withstands.bind ((withstands_bootstrap hspares).weaken fun result t ht => ?_)
    obtain ⟨hgrows, ⟨rfl, hready⟩ | ⟨hstruck, e, rfl⟩⟩ := ht
    · refine Withstands.bind (withstands_statement hspares ?_ fun hstruck e =>
        .inr ⟨hstruck, ⟨e, rfl⟩, .inl hgrows⟩)
      refine Withstands.bind (withstands_statement hspares ?_ fun hstruck e =>
        .inr ⟨hstruck, ⟨e, rfl⟩, .inl hgrows⟩)
      have hbecomes : s.Becomes ns ⟨[], s.catalog⟩ (t.ensure ns) :=
        hgrows.becomes_ensure habsent
      refine (withstands_installOplogTriggers hspares).weaken fun result u hu => ?_
      have hbecomes' := hbecomes.grows hu.1
      have hmeta := (hu.1.tables _).present (Schema.present_ensure.2 (.inr hready))
      obtain rfl | ⟨hstruck, he⟩ := hu.2
      · exact .inl ⟨hbecomes', rfl, hmeta⟩
      · exact .inr ⟨hstruck, he, .inr ⟨hbecomes', hmeta⟩⟩
    · exact .inr ⟨hstruck, ⟨e, rfl⟩, .inl hgrows⟩
  · obtain ⟨e, rfl⟩ := hspares.eq_error hr
    exact .inr ⟨⟨_, _, hr⟩, ⟨e, rfl⟩, .inl (.refl s)⟩

/-! ## Creating indexes -/

/-- `Collection::list_indexes`. -/
lemma withstands_listIndexes (hspares : Spares strikes) (hthere : s.present ns = true) :
    (onWire (listIndexes L ns)).Withstands S.server strikes s fun result t => t = s ∧
      (result = S.listed L ns s ∨ Struck strikes ∧ ∃ e, result = .error e) := by
  refine withstands_onWire (Withstands.bind (withstands_requireExists hspares hthere ?_
    fun hstruck e => ⟨rfl, .inr ⟨hstruck, e, rfl⟩⟩))
  refine Withstands.bind (withstands_statement hspares ?_
    fun hstruck e => ⟨rfl, .inr ⟨hstruck, e, rfl⟩⟩)
  rw [SchemaServer.listed]
  by_cases hready : s.present MetaTable.indexes.ns = true
  · have hrows : S.wire (.sql .connection (.indexes ns)) s = (.ok (S.listing ns s.catalog), s) := by
      simp only [SchemaServer.wire, hready]
      rfl
    rw [hrows, if_pos hready]
    refine Withstands.bind (Withstands.ofExcept ?_)
    cases (S.listing ns s.catalog).mapM (decodeIndex L) with
    | ok specs => exact ⟨rfl, .inl rfl⟩
    | error e => exact ⟨rfl, .inl rfl⟩
  · have hrows : S.wire (.sql .connection (.indexes ns)) s =
        (.error (namespaceNotFound S.detail), s) := by
      simp only [SchemaServer.wire, hready]
      rfl
    rw [hrows, if_neg hready]
    exact ⟨rfl, .inl rfl⟩

/-- **One index.**  `create_index` does to the server what the loop does to the collection, unless
a failure has struck; then it has done nothing. -/
lemma withstands_createIndex (hspares : Spares strikes)
    (hs : s.Becomes ns p s) (spec : IndexSpec) :
    (createIndex L ns spec).Withstands S.server strikes s fun result t =>
      (∃ p', S.createSpec L ns spec p = (result, p') ∧ s.Becomes ns p' t) ∨
        Struck strikes ∧ (∃ e, result = .error e) ∧ s.Becomes ns p t := by
  unfold createIndex SchemaServer.createSpec
  refine Withstands.bind (withstands_onWire (withstands_requireExists hspares hs.there ?_
    fun hstruck e => .inr ⟨hstruck, ⟨e, rfl⟩, hs⟩))
  refine Withstands.bind ((withstands_onWire (withstands_bootstrap hspares)).weaken
    fun result t ht => ?_)
  obtain ⟨hgrows, ⟨rfl, hready⟩ | ⟨hstruck, e, rfl⟩⟩ := ht
  · have ht := hs.grows hgrows
    refine Withstands.bind (Withstands.ofExcept ?_)
    cases spec.check with
    | error e => exact .inl ⟨p, rfl, ht⟩
    | ok _ =>
      have hlisted : S.perform (.indexListed ns spec.name) t =
          .ok (p.catalog.any (S.isEntry ns spec.name), t) := by
        rw [SchemaServer.perform, SchemaServer.onMeta, if_pos hready, ht.catalog]
      refine Withstands.bind (withstands_schemaSql_ok hspares hlisted ?_ fun _ hstruck e =>
        .inr ⟨hstruck, ⟨e, rfl⟩, ht⟩)
      dsimp only
      cases p.catalog.any (S.isEntry ns spec.name) with
      | true => exact .inl ⟨p, rfl, ht⟩
      | false =>
        refine Withstands.bind (Withstands.ofExcept ?_)
        cases spec.paths with
        | error e => exact .inl ⟨p, rfl, ht⟩
        | ok _ =>
          by_cases hblocks : S.blocks ns p.indexes spec = true
          · have hadd : S.perform (.addIndex ns spec) t = .error (internalError S.detail) := by
              simp only [SchemaServer.perform, ht.table, hblocks, if_true]
            refine Withstands.bind (withstands_schemaSql_error hspares hadd ?_ fun _ hstruck e =>
              .inr ⟨hstruck, ⟨e, rfl⟩, ht⟩)
            simp only [hblocks, if_true]
            exact .inl ⟨p, rfl, ht⟩
          · have hadd : S.perform (.addIndex ns spec) t =
                .ok ((), t.setTable ns (p.indexes ++ [spec])) := by
              simp only [SchemaServer.perform, ht.table, hblocks]
              rfl
            have hadded := ht.setTable (p.indexes ++ [spec])
            refine Withstands.bind (withstands_schemaSql_ok hspares hadd ?_ fun _ hstruck e =>
              .inr ⟨hstruck, ⟨e, rfl⟩, ht⟩)
            refine Withstands.bind (Withstands.ofExcept ?_)
            simp only [hblocks]
            cases L.toExtjson spec.keyDocument with
            | error e => exact .inl ⟨_, rfl, hadded⟩
            | ok json =>
              have hready' : (t.setTable ns (p.indexes ++ [spec])).present MetaTable.indexes.ns =
                  true := Schema.present_setTable.2 (.inr hready)
              have hregister : S.perform (.registerIndex ⟨ns, spec.name, json, spec.unique⟩)
                  (t.setTable ns (p.indexes ++ [spec])) =
                  .ok ((), { t.setTable ns (p.indexes ++ [spec]) with
                    catalog := S.put ⟨ns, spec.name, json, spec.unique⟩ p.catalog }) := by
                rw [SchemaServer.perform, SchemaServer.onMeta, if_pos hready', hadded.catalog]
              exact withstands_schemaSql_ok hspares hregister
                (.inl ⟨_, rfl, hadded.setCatalog _⟩) fun h => absurd trivial h
  · exact .inr ⟨hstruck, ⟨e, rfl⟩, hs.grows hgrows⟩

/-- A part of a request has been served: so many entries, one after the other. -/
def ServedPart (S : SchemaServer) (L : Libbson) (ns : Namespace) (entries : List Value)
    (p p' : IndexState) : Prop :=
  ∃ front back, entries = front ++ back ∧ S.createAll L ns front p = (.ok (), p')

/-- **The loop.**  The entries are created one after the other.  Where a failure strikes, some of
them have been created, and the others are as if they had not been asked for. -/
lemma withstands_createIndexes (hspares : Spares strikes)
    (entries : List Value) (hs : s.Becomes ns p s) :
    (createIndexes L ns entries).Withstands S.server strikes s fun result t =>
      (∃ p', S.createAll L ns entries p = (result, p') ∧ s.Becomes ns p' t) ∨
        Struck strikes ∧ (∃ e, result = .error e) ∧
          ∃ p', ServedPart S L ns entries p p' ∧ s.Becomes ns p' t := by
  induction entries generalizing s p with
  | nil => exact .inl ⟨p, rfl, hs⟩
  | cons v rest ih =>
    unfold createIndexes
    refine Withstands.bind (Withstands.ofExcept ?_)
    cases hparse : parseIndex v with
    | error e =>
      refine .inl ⟨p, ?_, hs⟩
      rw [SchemaServer.createAll, SchemaServer.createOne, hparse]
    | ok spec =>
      have hone : S.createOne L ns v p = S.createSpec L ns spec p := by
        rw [SchemaServer.createOne, hparse]
      refine Withstands.bind ((withstands_createIndex hspares hs spec).weaken
        fun result t ht => ?_)
      rw [← hone] at ht
      obtain ⟨p', hcreated, ht⟩ | ⟨hstruck, ⟨e, rfl⟩, ht⟩ := ht
      · cases result with
        | error e =>
          refine .inl ⟨p', ?_, ht⟩
          rw [SchemaServer.createAll, hcreated]
        | ok _ =>
          refine (ih (s := t) (p := p') (.refl ht.table ht.catalog)).weaken fun result u hu => ?_
          obtain ⟨q, hall, hu⟩ | ⟨hstruck, he, q, ⟨front, back, rfl, hall⟩, hu⟩ := hu
          · refine .inl ⟨q, ?_, ht.trans hu⟩
            rw [SchemaServer.createAll, hcreated]
            exact hall
          · refine .inr ⟨hstruck, he, q, ⟨v :: front, back, rfl, ?_⟩, ht.trans hu⟩
            rw [SchemaServer.createAll, hcreated]
            exact hall
      · exact .inr ⟨hstruck, ⟨e, rfl⟩, p, ⟨[], v :: rest, rfl, rfl⟩, ht⟩

/-- What `createIndexes` starts from: the indexes of the collection, if it is there. -/
def Schema.start (s : Schema) (ns : Namespace) : IndexState := ⟨(s.tables ns).getD [], s.catalog⟩

/-- The catalog is there, or will be when the collection is created. -/
def Schema.ready (s : Schema) (ns : Namespace) : Bool :=
  !s.present ns || s.present MetaTable.indexes.ns

/-- The collection comes to have these indexes, and the catalog these rows.  The catalog is there if
it was ready. -/
structure Schema.Creates (s : Schema) (ns : Namespace) (p : IndexState) (t : Schema) : Prop extends
    s.Becomes ns p t where
  /-- The catalog is there. -/
  ready : s.ready ns = true → t.present MetaTable.indexes.ns = true

/-- The end of `cmd_create_indexes`, once the collection is there. -/
lemma withstands_createListed (hspares : Spares strikes)
    (entries : List Value) (created : Bool) (hs : s.Becomes ns p s) :
    (do
      let before ← onWire (listIndexes L ns)
      createIndexes L ns entries
      let after ← onWire (listIndexes L ns)
      return [("createdCollectionAutomatically".toList, .bool created),
        ("numIndexesBefore".toList, int32Field before.length),
        ("numIndexesAfter".toList, int32Field after.length), ("ok".toList, .double okDouble)] :
      SchemaProgram Doc).Withstands S.server strikes s fun result t =>
      (∃ p', S.createResult L ns entries (s.present MetaTable.indexes.ns) p =
          (result.toBool, p') ∧ s.Becomes ns p' t) ∨
        Struck strikes ∧ (∃ e, result = .error e) ∧
          ∃ p', ServedPart S L ns entries p p' ∧ s.Becomes ns p' t := by
  have hlisted := toBool_listed S L ns s
  rw [hs.catalog] at hlisted
  unfold SchemaServer.createResult
  rw [← hlisted]
  refine Withstands.bind ((withstands_listIndexes hspares hs.there).weaken fun result t ht => ?_)
  obtain ⟨rfl, rfl | ⟨hstruck, e, rfl⟩⟩ := ht
  · cases hbefore : S.listed L ns t with
    | error e => exact .inl ⟨p, rfl, hs⟩
    | ok before =>
      rw [hbefore] at hlisted
      have hready : t.present MetaTable.indexes.ns = true := (Bool.and_eq_true_iff.1 hlisted.symm).1
      refine Withstands.bind ((withstands_createIndexes hspares entries hs).weaken
        fun result u hu => ?_)
      obtain ⟨p', hall, hu⟩ | ⟨hstruck, ⟨e, rfl⟩, p', hpart, hu⟩ := hu
      · cases result with
        | error e => exact .inl ⟨p', by simp only [Except.toBool, hall, if_true], hu⟩
        | ok _ =>
          have hafter := toBool_listed S L ns u
          rw [hu.keeps_present hready, Bool.true_and, hu.catalog] at hafter
          refine Withstands.bind ((withstands_listIndexes hspares hu.there).weaken
            fun result v hv => ?_)
          obtain ⟨rfl, rfl | ⟨hstruck, e, rfl⟩⟩ := hv
          · cases hlast : S.listed L ns v with
            | error e =>
              rw [hlast] at hafter
              exact .inl ⟨p', by simp only [Except.toBool, hall, if_true, ← hafter], hu⟩
            | ok after =>
              rw [hlast] at hafter
              exact .inl ⟨p', by simp only [Except.toBool, hall, if_true, ← hafter], hu⟩
          · exact .inr ⟨hstruck, ⟨e, rfl⟩, p', ⟨entries, [], (List.append_nil _).symm, hall⟩, hu⟩
      · exact .inr ⟨hstruck, ⟨e, rfl⟩, p', hpart, hu⟩
  · exact .inr ⟨hstruck, ⟨e, rfl⟩, p, ⟨[], entries, rfl, rfl⟩, hs⟩

/-- **`createIndexes`.**  The command creates the collection if need be, and then the entries one
after the other.  Where a failure strikes, the collection is there or not, and some of the entries
have been created. -/
theorem withstands_cmdCreateIndexes {ctx : Ctx} {entries : List (Text × Value)}
    (hspares : Spares strikes) (hbody : findField ctx.body "indexes".toList = some (.array entries))
    (hns : ctx.ns = .ok ns) :
    (Catalog.cmdCreateIndexes ctx).Withstands S.server strikes s fun result t =>
      (∃ p', S.createResult ctx.L ns (entries.map Prod.snd) (s.ready ns) (s.start ns) =
          (result.toBool, p') ∧ s.Creates ns p' t) ∨
        Struck strikes ∧ (∃ e, result = .error e) ∧ (s.Grows t ∨
          ∃ p', ServedPart S ctx.L ns (entries.map Prod.snd) (s.start ns) p' ∧
            s.Creates ns p' t) := by
  unfold Catalog.cmdCreateIndexes
  rw [hbody]
  refine Withstands.bind (Withstands.ofExcept ?_)
  rw [hns]
  refine Withstands.bind (withstands_onWire (withstands_askExists hspares ?_
    fun h e => .inr ⟨h, ⟨e, rfl⟩, .inl (.refl s)⟩))
  refine Withstands.bind ?_
  cases hthere : s.present ns with
  | true =>
    have hs : s.Becomes ns (s.start ns) s := by
      obtain ⟨indexes, hindexes⟩ := Option.isSome_iff_exists.1 hthere
      exact .refl (by rw [Schema.start, hindexes]; rfl) rfl
    have hready : s.ready ns = s.present MetaTable.indexes.ns := by
      rw [Schema.ready, hthere]
      rfl
    refine withstands_createCollection_present hspares hthere ?_
      fun h e => .inr ⟨h, ⟨e, rfl⟩, .inl (.refl s)⟩
    refine (withstands_createListed hspares _ _ hs).weaken fun result t ht => ?_
    rw [hready]
    obtain ⟨p', hresult, ht⟩ | ⟨h, he, p', hpart, ht⟩ := ht
    · exact .inl ⟨p', hresult, ht, fun h => ht.keeps_present (hready ▸ h)⟩
    · exact .inr ⟨h, he, .inr ⟨p', hpart, ht, fun h => ht.keeps_present (hready ▸ h)⟩⟩
  | false =>
    have hstart : s.start ns = ⟨[], s.catalog⟩ := by
      rw [Schema.start, Option.isNone_iff_eq_none.1 (Option.isSome_eq_false_iff.1 hthere)]
      rfl
    have hready : s.ready ns = true := by
      rw [Schema.ready, hthere]
      rfl
    refine (withstands_createCollection_absent hspares hthere).weaken fun result t ht => ?_
    rw [hstart, hready]
    obtain ⟨ht, rfl, hmeta⟩ | ⟨h, ⟨e, rfl⟩, hgrows | ⟨ht, hmeta⟩⟩ := ht
    · refine (withstands_createListed hspares _ _ (.refl ht.table ht.catalog)).weaken
        fun result u hu => ?_
      rw [hmeta] at hu
      obtain ⟨p', hresult, hu⟩ | ⟨h, he, p', hpart, hu⟩ := hu
      · exact .inl ⟨p', hresult, ht.trans hu, fun _ => hu.keeps_present hmeta⟩
      · exact .inr ⟨h, he, .inr ⟨p', hpart, ht.trans hu, fun _ => hu.keeps_present hmeta⟩⟩
    · exact .inr ⟨h, ⟨e, rfl⟩, .inl hgrows⟩
    · exact .inr ⟨h, ⟨e, rfl⟩, .inr ⟨_, ⟨[], _, rfl, rfl⟩, ht, fun _ => hmeta⟩⟩

/-- Without failures. -/
lemma spares_none : Spares fun _ _ => False := fun _ _ h => h.elim

/-- What `createIndexes` comes to without failures. -/
lemma serve_cmdCreateIndexes (S : SchemaServer) (s : Schema) {ctx : Ctx}
    {entries : List (Text × Value)}
    (hbody : findField ctx.body "indexes".toList = some (.array entries)) (hns : ctx.ns = .ok ns) :
    ∃ p', S.createResult ctx.L ns (entries.map Prod.snd) (s.ready ns) (s.start ns) =
        (((Catalog.cmdCreateIndexes ctx).serve S.server s).1.toBool, p') ∧
      s.Creates ns p' ((Catalog.cmdCreateIndexes ctx).serve S.server s).2 := by
  rcases (withstands_cmdCreateIndexes (S := S) (s := s) spares_none hbody hns).serve with
    h | ⟨⟨_, _, h⟩, _⟩
  · exact h
  · exact h.elim

/-- What `listIndexes` comes to without failures. -/
lemma serve_listIndexes (hthere : s.present ns = true) :
    (onWire (listIndexes L ns)).serve S.server s = (S.listed L ns s, s) := by
  obtain ⟨hstate, hresult | ⟨⟨_, _, h⟩, _⟩⟩ :=
    (withstands_listIndexes (S := S) (L := L) spares_none hthere).serve
  · exact Prod.ext hresult hstate
  · exact h.elim

end Failures

end Chimera
