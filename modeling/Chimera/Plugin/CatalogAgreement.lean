import Chimera.Plugin.IndexContract

/-!
# Catalog and tables

The rows of the catalog about a collection and the indexes on its table are the same, in the same
order: this is what every command on collections and indexes keeps, whatever statements fail, as
long as no failure comes between an `ALTER TABLE` and the statement that completes it, and as long
as the command is not led astray by rows that the catalog takes for rows about the collection.
-/

namespace Chimera

open Interaction

/-! ## The invariant -/

/-- The catalog takes the collections for one. -/
def SchemaServer.SameNs (S : SchemaServer) (ns ns' : Namespace) : Prop :=
  S.fold ns.db = S.fold ns'.db ∧ S.fold ns.collection = S.fold ns'.collection

/-- The row is the entry of the index. -/
structure Entry (L : Libbson) (ns : Namespace) (row : IndexRow) (spec : IndexSpec) : Prop where
  /-- The collection. -/
  ns_eq : row.ns = ns
  /-- The row reads as the index. -/
  decode_eq : row.decode L = .ok spec

/-- The names of the indexes differ, for the catalog and for the server. -/
def SchemaServer.Distinct (S : SchemaServer) (x y : IndexSpec) : Prop :=
  S.fold x.name ≠ S.fold y.name ∧ S.ident x.name ≠ S.ident y.name

/-- The rows about the collection are the entries of the indexes, in their order. -/
structure Matched (S : SchemaServer) (L : Libbson) (ns : Namespace) (p : IndexState) : Prop where
  /-- The entries. -/
  entries : List.Forall₂ (Entry L ns) (p.catalog.filter (S.about ns)) p.indexes
  /-- The names. -/
  distinct : p.indexes.Pairwise S.Distinct

/-- Every collection has its entries in the catalog, and the catalog is there. -/
structure CatalogAgrees (S : SchemaServer) (L : Libbson) (s : Schema) : Prop where
  /-- The entries of the collections. -/
  matched : ∀ ns, ¬ Schema.IsSystem ns → ∀ indexes, s.tables ns = some indexes →
    Matched S L ns ⟨indexes, s.catalog⟩
  /-- The catalog. -/
  ready : ∀ ns, ¬ Schema.IsSystem ns → s.present ns = true →
    s.present MetaTable.indexes.ns = true

/-- What is listed of every collection is the index on `_id` and the indexes on its table. -/
def InStep (S : SchemaServer) (L : Libbson) (s : Schema) : Prop :=
  ∀ ns, ¬ Schema.IsSystem ns → ∀ indexes, s.tables ns = some indexes →
    ∃ specs, ((onWire (listIndexes L ns)).serve S.server s).1 = .ok (idIndex :: specs) ∧
      specs.Perm indexes

section Entries

variable {S : SchemaServer} {L : Libbson} {ns ns' : Namespace} {row : IndexRow} {spec : IndexSpec}
  {s t : Schema} {p p' : IndexState} {catalog : List IndexRow}

/-- A row is about the collections that the catalog takes for its own. -/
lemma about_iff : S.about ns row = true ↔ S.SameNs row.ns ns := by
  rw [SchemaServer.about, SchemaServer.within, Bool.and_eq_true, decide_eq_true_iff,
    decide_eq_true_iff]
  rfl

/-- A row reads as an index of its name. -/
lemma name_of_decode (h : row.decode L = .ok spec) : spec.name = row.name := by
  rw [IndexRow.decode, decodeIndex] at h
  obtain ⟨keys, -, h⟩ := except_bind_eq_ok.1 h
  obtain rfl := Except.ok.inj h
  rfl

/-- **Listing.**  Where catalog and tables agree, every collection lists its indexes. -/
lemma CatalogAgrees.inStep (h : CatalogAgrees S L s) : InStep S L s := by
  intro ns hns indexes hindexes
  have hthere : s.present ns = true := by
    rw [Schema.present, hindexes]
    rfl
  have hrows : List.Forall₂ (fun row spec => IndexRow.decode L row = .ok spec)
      (s.catalog.filter (S.about ns)) indexes :=
    (h.matched ns hns indexes hindexes).entries.imp fun _ _ hentry => hentry.decode_eq
  obtain ⟨specs, hsorted, hperm⟩ := List.perm_comp_forall₂ (List.mergeSort_perm
    (s.catalog.filter (S.about ns)) fun a b => !decide (S.fold b.name < S.fold a.name)) hrows
  refine ⟨specs, ?_, hperm⟩
  have hlisting : (S.listing ns s.catalog).mapM (decodeIndex L) = .ok specs := by
    rw [mapM_eq_ok_iff, SchemaServer.listing, List.forall₂_map_left_iff]
    exact hsorted
  rw [serve_listIndexes hthere, SchemaServer.listed, if_pos (h.ready ns hns hthere), hlisting]
  rfl

/-! ## Creating indexes -/

/-- The row that registers an index is its entry, if the index can be read back. -/
lemma Registers.entry (h : Registers L ns spec row) (hstored : spec.stored L = .ok spec) :
    Entry L ns row spec :=
  ⟨h.ns_eq, h.decode.trans hstored⟩

/-- An index that can be read back can be written. -/
lemma exists_json_of_stored (h : spec.stored L = .ok spec) :
    ∃ json, L.toExtjson spec.keyDocument = .ok json := by
  rw [IndexSpec.stored] at h
  obtain ⟨json, hjson, -⟩ := except_bind_eq_ok.1 h
  exact ⟨json, hjson⟩

/-- A new index joins the others. -/
lemma Matched.append (h : Matched S L ns p) {v : Value} (hadds : S.Adds ns p v spec)
    (hrow : Registers L ns spec row) (hstored : spec.stored L = .ok spec) :
    Matched S L ns ⟨p.indexes ++ [spec], p.catalog ++ [row]⟩ := by
  have habout : S.about ns row = true := about_iff.2 (by rw [hrow.ns_eq]; exact ⟨rfl, rfl⟩)
  refine ⟨?_, List.pairwise_append.2 ⟨h.distinct, List.pairwise_singleton _ _, ?_⟩⟩
  · rw [List.filter_append, List.filter_cons_of_pos habout]
    exact List.rel_append h.entries (.cons (hrow.entry hstored) .nil)
  · intro other hother new hnew
    obtain rfl := List.mem_singleton.1 hnew
    constructor
    · -- otherwise its row would have the name
      intro hname
      obtain ⟨entry, hentry, hentry'⟩ := exists_right_of_forall₂ h.entries.flip hother
      obtain ⟨hmem, habout⟩ := List.mem_filter.1 hentry
      have huse : S.inUse ns p.catalog new.name = true := by
        refine List.any_eq_true.2 ⟨entry, hmem, ?_⟩
        rw [isEntry_of_ns hentry'.ns_eq, ← name_of_decode hentry'.decode_eq, hname]
        exact decide_eq_true rfl
      exact absurd (hadds.free.symm.trans huse) (by simp)
    · intro hident
      have hblocks : S.blocks ns p.indexes new = true := by
        rw [SchemaServer.blocks, Bool.or_eq_true]
        exact .inr (List.any_eq_true.2 ⟨other, hother, decide_eq_true hident⟩)
      have hhinders : S.hinders ns p.indexes new = true := by
        rw [SchemaServer.hinders, hblocks, Bool.or_true]
      exact absurd (hadds.unhindered.symm.trans hhinders) (by simp)

/-- **The loop keeps the entries.** -/
lemma Matched.createAll {entries : List Value} (h : Matched S L ns p)
    (hstored : ∀ spec ∈ S.fresh ns p.catalog (requested entries), spec.stored L = .ok spec) :
    Matched S L ns (S.createAll L ns entries p).2 := by
  induction entries generalizing p with
  | nil => exact h
  | cons v rest ih =>
    rw [SchemaServer.createAll]
    obtain ⟨⟨spec, hparse, -, huse⟩, hone⟩ | ⟨-, e, hone⟩ |
      ⟨spec, hadds, ⟨e, hjson, hone⟩ | ⟨row, hrow, hone⟩⟩ := createOne_cases S L ns v p
    · rw [requested_cons hparse, fresh_cons_of_inUse huse] at hstored
      rw [hone]
      exact ih h hstored
    · rw [hone]
      exact h
    · obtain ⟨others, hfresh⟩ := exists_fresh_cons (requested rest) hadds.free
      rw [requested_cons hadds.parse, hfresh] at hstored
      obtain ⟨json, hjson'⟩ := exists_json_of_stored (hstored spec List.mem_cons_self)
      rw [hjson] at hjson'
      cases hjson'
    · rw [requested_cons hadds.parse, fresh_cons_of_not_inUse hadds.free hrow.ns_eq hrow.name_eq,
        List.forall_mem_cons] at hstored
      rw [hone]
      exact ih (h.append hadds hrow hstored.1) hstored.2

/-- The loop leaves the rows of other collections alone. -/
lemma filter_createAll (entries : List Value) (p : IndexState) (hne : ¬ S.SameNs ns ns') :
    (S.createAll L ns entries p).2.catalog.filter (S.about ns') =
      p.catalog.filter (S.about ns') := by
  induction entries generalizing p with
  | nil => rfl
  | cons v rest ih =>
    rw [SchemaServer.createAll]
    obtain ⟨-, hone⟩ | ⟨-, e, hone⟩ | ⟨spec, -, ⟨e, -, hone⟩ | ⟨row, hrow, hone⟩⟩ :=
      createOne_cases S L ns v p
    · rw [hone]
      exact ih p
    · rw [hone]
    · rw [hone]
    · have habout : ¬ S.about ns' row = true := by
        rw [about_iff, hrow.ns_eq]
        exact hne
      rw [hone]
      dsimp only
      rw [ih, List.filter_append, List.filter_cons_of_neg habout, List.filter_nil, List.append_nil]

/-- What is new of a part of a request is new of the request. -/
lemma fresh_front_subset (front back : List Value) :
    S.fresh ns catalog (requested front) ⊆ S.fresh ns catalog (requested (front ++ back)) := by
  intro spec hspec
  rw [SchemaServer.fresh] at hspec ⊢
  rw [requested, List.filterMap_append, List.filter_append]
  have hfront : spec ∈ Representatives.collect S.sameName [] _ := hspec
  exact Representatives.collect_subset_append hfront

end Entries

/-! ## What the commands leave -/

section Commands

variable {S : SchemaServer} {ns : Namespace} {s : Schema} {ctx : Ctx}
  {strikes : (q : SchemaQuestion) → q.Answer → Prop}

/-- A part of a request has been served, and nothing else has happened. -/
def SchemaServer.PartOf (S : SchemaServer) (L : Libbson) (ns : Namespace) (entries : List Value)
    (p p' : IndexState) : Prop :=
  ∃ front back, entries = front ++ back ∧ (S.createAll L ns front p).2 = p'

/-- A `createIndexes` that is not about an array, or whose namespace is refused, does nothing. -/
lemma cmdCreateIndexes_cases (ctx : Ctx) :
    (∃ e, Catalog.cmdCreateIndexes ctx = .fail e) ∨ ∃ ns entries, ctx.ns = .ok ns ∧
      findField ctx.body "indexes".toList = some (.array entries) := by
  unfold Catalog.cmdCreateIndexes
  split
  · next entries hentries =>
    cases hns : ctx.ns with
    | error e => exact .inl ⟨e, rfl⟩
    | ok ns => exact .inr ⟨ns, entries, rfl, hentries⟩
  · exact .inl ⟨_, rfl⟩

/-- What `createIndexes` leaves: a part of the request has been served. -/
lemma withstands_createIndexes_part (hspares : Spares strikes) :
    (Catalog.cmdCreateIndexes ctx).Withstands S.server strikes s fun _ t => s.Grows t ∨
      ∃ ns entries p', ctx.ns = .ok ns ∧
        findField ctx.body "indexes".toList = some (.array entries) ∧
        S.PartOf ctx.L ns (entries.map Prod.snd) (s.start ns) p' ∧ s.Creates ns p' t := by
  rcases cmdCreateIndexes_cases ctx with ⟨e, hfail⟩ | ⟨ns, entries, hns, hbody⟩
  · rw [hfail]
    exact .inl (.refl s)
  · refine (withstands_cmdCreateIndexes hspares hbody hns).weaken fun result t ht => ?_
    obtain ⟨p', hresult, ht⟩ | ⟨-, -, ht | ⟨p', ⟨front, back, heq, hfront⟩, ht⟩⟩ := ht
    · refine .inr ⟨ns, entries, p', hns, hbody, ?_, ht⟩
      rw [SchemaServer.createResult] at hresult
      split at hresult
      · split at hresult
        · next _ q hall =>
          obtain rfl : q = p' := (Prod.ext_iff.1 hresult).2
          exact ⟨_, [], (List.append_nil _).symm, by rw [hall]⟩
        · next _ e q hall =>
          obtain rfl : q = p' := (Prod.ext_iff.1 hresult).2
          exact ⟨_, [], (List.append_nil _).symm, by rw [hall]⟩
      · obtain rfl : s.start ns = p' := (Prod.ext_iff.1 hresult).2
        exact ⟨[], _, rfl, rfl⟩
    · exact .inl ht
    · exact .inr ⟨ns, entries, p', hns, hbody, ⟨front, back, heq, by rw [hfront]⟩, ht⟩

/-- What `create` leaves: the collection, if it was not there. -/
lemma withstands_cmdCreate (hspares : Spares strikes) :
    (Catalog.cmdCreate ctx).Withstands S.server strikes s fun _ t => s.Grows t ∨
      ∃ ns, ctx.ns = .ok ns ∧ s.present ns = false ∧ s.Becomes ns ⟨[], s.catalog⟩ t ∧
        t.present MetaTable.indexes.ns = true := by
  refine Withstands.bind (Withstands.ofExcept ?_)
  cases hns : ctx.ns with
  | error e => exact .inl (.refl s)
  | ok ns =>
    refine Withstands.bind ?_
    cases hthere : s.present ns with
    | true =>
      exact withstands_createCollection_present hspares hthere (.inl (.refl s))
        fun _ _ => .inl (.refl s)
    | false =>
      refine (withstands_createCollection_absent hspares hthere).weaken fun result t ht => ?_
      obtain ⟨ht, rfl, hmeta⟩ | ⟨-, ⟨e, rfl⟩, hgrows | ⟨ht, hmeta⟩⟩ := ht
      · exact .inr ⟨ns, rfl, hthere, ht, hmeta⟩
      · exact .inl hgrows
      · exact .inr ⟨ns, rfl, hthere, ht, hmeta⟩

/-- A look for a table that has to be there, and is not. -/
lemma withstands_requireExists_absent (hspares : Spares strikes) (habsent : s.present ns = false)
    {Post : Except TranslatorError Unit → Schema → Prop} (herror : ∀ e, Post (.error e) s) :
    (onCollection (requireExists ns)).Withstands S.wire (onWireStrikes strikes) s Post := by
  refine ⟨?_, fun r hr => ?_⟩
  · change Withstands _ _ ((onCollection ((if s.present ns = true then pure () else _) :
      SqlProgram Unit))) s Post
    rw [habsent]
    exact herror _
  · obtain ⟨e, rfl⟩ := hspares.eq_error hr
    exact herror e

/-- `listIndexes` changes nothing, and where it succeeds the collection is there. -/
lemma withstands_listIndexes_same (hspares : Spares strikes) (L : Libbson) (ns : Namespace) :
    (onWire (listIndexes L ns)).Withstands S.server strikes s fun result t => t = s ∧
      ∀ specs, result = .ok specs → s.present ns = true ∧ S.listed L ns s = .ok specs := by
  cases hthere : s.present ns with
  | true =>
    refine (withstands_listIndexes hspares hthere).weaken fun result t ht => ⟨ht.1, ?_⟩
    rintro specs rfl
    rcases ht.2 with hlisted | ⟨-, e, he⟩
    · exact ⟨rfl, hlisted.symm⟩
    · cases he
  | false =>
    exact withstands_onWire (Withstands.bind (withstands_requireExists_absent hspares hthere
      fun e => ⟨rfl, fun specs h => by cases h⟩))

/-- A statement on the catalog finds its table and returns what it says. -/
lemma of_onMeta {α : Type} {table : MetaTable} {result result' : α × Schema}
    (h : S.onMeta table s result = .ok result') :
    s.present table.ns = true ∧ result' = result := by
  rw [SchemaServer.onMeta] at h
  split at h
  · next hthere => exact ⟨hthere, (Except.ok.inj h).symm⟩
  · cases h

/-- What `Collection::drop` leaves: the table may be gone, and then the rows about it too. -/
lemma withstands_dropCollection (hspares : Spares strikes) (ns : Namespace) :
    (dropCollection ns).Withstands S.server strikes s fun _ t => t = s ∨
      t = s.without (fun other => decide (other = ns)) ∨
      t = (s.without fun other => decide (other = ns)).forget (S.about ns) := by
  refine Withstands.bind (withstands_onWire (withstands_askExists hspares ?_
    fun _ _ => .inl rfl))
  refine Withstands.ite (fun hthere => ?_) fun _ => .inl rfl
  refine Withstands.bind (withstands_schemaSql hspares (fun result t ht => ?_)
    (fun _ _ => .inl rfl) fun _ _ _ => .inl rfl)
  rw [SchemaServer.perform, if_pos hthere] at ht
  obtain ⟨-, rfl⟩ := Prod.mk.inj (Except.ok.inj ht)
  refine Withstands.bind (withstands_schemaSql hspares (fun result t ht => ?_)
    (fun _ _ => .inr (.inl rfl)) fun _ _ _ => .inr (.inl rfl))
  obtain ⟨-, rfl⟩ := Prod.mk.inj (of_onMeta ht).2
  refine withstands_schemaSql hspares (fun result t ht => ?_)
    (fun _ _ => .inr (.inl rfl)) fun _ _ _ => .inr (.inl rfl)
  obtain ⟨-, rfl⟩ := Prod.mk.inj (of_onMeta ht).2
  exact .inr (.inr rfl)

/-- What `drop` leaves. -/
lemma withstands_cmdDrop (hspares : Spares strikes) :
    (Catalog.cmdDrop ctx).Withstands S.server strikes s fun _ t => t = s ∨
      ∃ ns, ctx.ns = .ok ns ∧ (t = s.without (fun other => decide (other = ns)) ∨
        t = (s.without fun other => decide (other = ns)).forget (S.about ns)) := by
  refine Withstands.bind (Withstands.ofExcept ?_)
  cases hns : ctx.ns with
  | error e => exact .inl rfl
  | ok ns =>
    refine Withstands.bind (withstands_onWire (withstands_askExists hspares ?_
      fun _ _ => .inl rfl))
    have hdrop (indexes : List IndexSpec) : (do
        dropCollection ns
        return [("nIndexesWas".toList, int32Field indexes.length),
          ("ns".toList, .utf8 (cString ns.text)), ("ok".toList, .double okDouble)] :
        SchemaProgram Doc).Withstands S.server strikes s fun _ t => t = s ∨
          ∃ ns', Except.ok ns = (.ok ns' : Except TranslatorError Namespace) ∧
            (t = s.without (fun other => decide (other = ns')) ∨
              t = (s.without fun other => decide (other = ns')).forget (S.about ns')) := by
      refine Withstands.bind ((withstands_dropCollection hspares ns).weaken fun result t ht => ?_)
      cases result with
      | error e => exact ht.imp_right fun ht => ⟨ns, rfl, ht⟩
      | ok _ => exact ht.imp_right fun ht => ⟨ns, rfl, ht⟩
    refine Withstands.ite (fun _ => ?_) fun _ => hdrop []
    refine Withstands.bind ((withstands_listIndexes_same hspares ctx.L ns).weaken
      fun result t ht => ?_)
    obtain ⟨rfl, -⟩ := ht
    cases result with
    | error e => exact .inl rfl
    | ok indexes => exact hdrop indexes

/-- What `dropDatabase` leaves: the tables of the database may be gone, and then the rows about
them too. -/
lemma withstands_cmdDropDatabase (hspares : Spares strikes) :
    (Catalog.cmdDropDatabase ctx).Withstands S.server strikes s fun _ t => ∃ u, s.Grows u ∧
      (t = u ∨ t = u.without (fun other => decide (other.db = ctx.db)) ∨
        t = (u.without fun other => decide (other.db = ctx.db)).forget (S.within ctx.db)) := by
  refine Withstands.bind ((withstands_onWire (withstands_bootstrap hspares)).weaken
    fun result u hu => ?_)
  obtain ⟨hgrows, ⟨rfl, -⟩ | ⟨-, e, rfl⟩⟩ := hu
  · refine Withstands.bind (Withstands.bind (Withstands.ofExcept ?_))
    cases validateIdentifier ctx.db "database name".toList with
    | error e => exact ⟨u, hgrows, .inl rfl⟩
    | ok _ =>
      refine Withstands.bind (withstands_schemaSql hspares (fun result t ht => ?_)
        (fun _ _ => ⟨u, hgrows, .inl rfl⟩) fun _ _ _ => ⟨u, hgrows, .inl rfl⟩)
      obtain ⟨-, rfl⟩ := Prod.mk.inj (Except.ok.inj ht)
      refine Withstands.bind (withstands_schemaSql hspares (fun result t ht => ?_)
        (fun _ _ => ⟨u, hgrows, .inr (.inl rfl)⟩) fun _ _ _ => ⟨u, hgrows, .inr (.inl rfl)⟩)
      obtain ⟨-, rfl⟩ := Prod.mk.inj (of_onMeta ht).2
      refine withstands_schemaSql hspares (fun result t ht => ?_)
        (fun _ _ => ⟨u, hgrows, .inr (.inl rfl)⟩) fun _ _ _ => ⟨u, hgrows, .inr (.inl rfl)⟩
      obtain ⟨-, rfl⟩ := Prod.mk.inj (of_onMeta ht).2
      exact ⟨u, hgrows, .inr (.inr rfl)⟩
  · exact ⟨u, hgrows, .inl rfl⟩

/-- An index has been dropped, and its row deleted. -/
def SchemaServer.unindexed (S : SchemaServer) (ns : Namespace) (name : Text)
    (indexes : List IndexSpec) (s : Schema) : Schema :=
  (s.setTable ns (indexes.filter fun other => !decide (S.ident other.name = S.ident name))).forget
    (S.isEntry ns name)

/-- `Collection::drop_index` drops the index and deletes its row, or it does nothing. -/
lemma withstands_dropIndex (hspares : Spares strikes) (L : Libbson) (ns : Namespace)
    (name : Text) :
    (dropIndex L ns name).Withstands S.server strikes s fun result t =>
      (t = s ∧ result ≠ .ok true) ∨ result = .ok true ∧
        ∃ indexes, s.tables ns = some indexes ∧ t = S.unindexed ns name indexes s := by
  have hnothing (e : TranslatorError) : (s = s ∧ (.error e : Except TranslatorError Bool) ≠
      .ok true) ∨ (.error e : Except TranslatorError Bool) = .ok true ∧
        ∃ indexes, s.tables ns = some indexes ∧ s = S.unindexed ns name indexes s :=
    .inl ⟨rfl, fun h => by cases h⟩
  refine Withstands.bind (withstands_onWire ?_)
  cases hthere : s.present ns with
  | false => exact withstands_requireExists_absent hspares hthere hnothing
  | true =>
    refine withstands_requireExists hspares hthere ?_ fun _ e => hnothing e
    refine Withstands.bind (withstands_schemaSql hspares (fun result t ht => ?_)
      (fun e _ => hnothing e) fun _ _ e => hnothing e)
    obtain ⟨hmeta, hresult⟩ := of_onMeta ht
    obtain ⟨rfl, rfl⟩ := Prod.mk.inj hresult
    dsimp only
    cases (t.catalog.find? (S.isEntry ns name)).map IndexRow.keySpec with
    | none => exact .inl ⟨rfl, fun h => by cases h⟩
    | some json =>
      refine Withstands.bind (Withstands.ofExcept ?_)
      cases L.fromExtjson json with
      | error e => exact hnothing e
      | ok keys =>
        refine Withstands.bind (withstands_schemaSql hspares (fun result u hu => ?_)
          (fun e _ => hnothing e) fun _ _ e => hnothing e)
        obtain ⟨indexes, hindexes⟩ := Option.isSome_iff_exists.1 hthere
        rw [SchemaServer.perform, hindexes] at hu
        dsimp only at hu
        split at hu
        · cases hu
        · obtain ⟨-, rfl⟩ := Prod.mk.inj (Except.ok.inj hu)
          have hforget : S.perform (.forgetIndex ns name) (t.setTable ns (indexes.filter
              fun other => !decide (S.ident other.name = S.ident name))) =
              .ok ((), S.unindexed ns name indexes t) :=
            if_pos (Schema.present_setTable.2 (.inr hmeta))
          exact Withstands.bind (withstands_schemaSql_ok hspares hforget
            (.inr ⟨rfl, indexes, hindexes, rfl⟩) fun h => absurd trivial h)

/-- `dropIndexes` over all indexes keeps what dropping one of them keeps. -/
lemma withstands_dropAllIndexes (hspares : Spares strikes) (L : Libbson) {P : Schema → Prop}
    {specs : List IndexSpec}
    (hstep : ∀ spec ∈ specs, spec.name ≠ "_id_".toList → ∀ s indexes, P s →
      s.tables ns = some indexes → P (S.unindexed ns spec.name indexes s)) (hs : P s) :
    (dropAllIndexes L ns specs).Withstands S.server strikes s fun _ t => P t := by
  induction specs generalizing s with
  | nil => exact hs
  | cons spec rest ih =>
    have hrest := fun spec' h => hstep spec' (List.mem_cons_of_mem _ h)
    unfold dropAllIndexes
    refine Withstands.ite (fun hname => ?_) fun _ => ih hrest hs
    refine Withstands.bind ((withstands_dropIndex hspares L ns spec.name).weaken
      fun result t ht => ?_)
    have hP : P t := by
      rcases ht with ⟨rfl, -⟩ | ⟨-, indexes, hindexes, rfl⟩
      · exact hs
      · exact hstep spec List.mem_cons_self hname s indexes hs hindexes
    cases result with
    | error e => exact hP
    | ok _ => exact ih hrest hP

/-- The name in a `dropIndexes`. -/
def Ctx.indexName (ctx : Ctx) : Text := textField ctx.body "index".toList

/-- `dropIndexes` keeps what dropping one index keeps. -/
lemma withstands_cmdDropIndexes (hspares : Spares strikes) {P : Schema → Prop}
    (hns : ctx.ns = .ok ns)
    (hall : s.present ns = true → ∀ listed, S.listed ctx.L ns s = .ok listed → ∀ spec ∈ listed,
      spec.name ≠ "_id_".toList → ∀ u indexes, P u → u.tables ns = some indexes →
        P (S.unindexed ns spec.name indexes u))
    (hnamed : ctx.indexName ≠ "*".toList → ∀ indexes, s.tables ns = some indexes →
      P (S.unindexed ns ctx.indexName indexes s)) (hs : P s) :
    (Catalog.cmdDropIndexes ctx).Withstands S.server strikes s fun _ t => P t := by
  refine Withstands.bind (Withstands.ofExcept ?_)
  rw [hns]
  refine Withstands.bind ((withstands_listIndexes_same hspares ctx.L ns).weaken
    fun result t ht => ?_)
  obtain ⟨rfl, hlisted⟩ := ht
  cases result with
  | error e => exact hs
  | ok before =>
    dsimp only
    refine Withstands.ite (fun hstar => ?_) fun hstar => Withstands.ite (fun _ => ?_) fun _ => hs
    · obtain ⟨hthere, hbefore⟩ := hlisted before rfl
      refine Withstands.bind ((withstands_dropAllIndexes hspares ctx.L
        (hall hthere before hbefore) hs).weaken fun result u hu => ?_)
      cases result with
      | error e => exact hu
      | ok _ => exact hu
    · refine Withstands.bind ((withstands_dropIndex hspares ctx.L ns _).weaken
        fun result u hu => ?_)
      have hP : P u := by
        rcases hu with ⟨rfl, -⟩ | ⟨-, indexes, hindexes, rfl⟩
        · exact hs
        · exact hnamed hstar indexes hindexes
      cases result with
      | error e => exact hP
      | ok found => exact Withstands.ite (fun _ => hP) fun _ => hP

/-- Where `dropIndexes` fails by name, it has done nothing. -/
lemma withstands_cmdDropIndexes_named (ctx : Ctx) (hspares : Spares strikes)
    (hname : ctx.indexName ≠ "*".toList) :
    (Catalog.cmdDropIndexes ctx).Withstands S.server strikes s fun result t =>
      (∃ e, result = .error e) → t = s := by
  refine Withstands.bind (Withstands.ofExcept ?_)
  cases ctx.ns with
  | error e => exact fun _ => rfl
  | ok ns =>
    refine Withstands.bind ((withstands_listIndexes_same hspares ctx.L ns).weaken
      fun result t ht => ?_)
    obtain ⟨rfl, -⟩ := ht
    cases result with
    | error e => exact fun _ => rfl
    | ok before =>
      dsimp only
      refine Withstands.ite (fun hstar => absurd hstar hname) fun _ =>
        Withstands.ite (fun _ => ?_) fun _ _ => rfl
      refine Withstands.bind ((withstands_dropIndex hspares ctx.L ns _).weaken
        fun result u hu => ?_)
      rcases hu with ⟨rfl, hfound⟩ | ⟨rfl, -⟩
      · cases result with
        | error e => exact fun _ => rfl
        | ok found => exact Withstands.ite (fun _ _ => rfl) fun _ _ => rfl
      · refine Withstands.ite (fun h => absurd h (by simp)) fun _ => ?_
        rintro ⟨e, he⟩
        cases he

end Commands

/-! ## What the commands keep -/

section Keeping

variable {S : SchemaServer} {L : Libbson} {ns ns' : Namespace} {s t : Schema} {p' : IndexState}
  {name : Text} {indexes : List IndexSpec}

/-- A collection without indexes has no rows. -/
lemma Matched.no_rows {catalog : List IndexRow} (h : Matched S L ns ⟨[], catalog⟩)
    {row : IndexRow} (hrow : row ∈ catalog) : ¬ S.about ns row = true := by
  intro habout
  have hnil := List.forall₂_nil_right_iff.1 h.entries
  have hmem := List.mem_filter.2 ⟨hrow, habout⟩
  rw [hnil] at hmem
  cases hmem

/-- The entries of a collection are what they were when its rows are. -/
lemma Matched.of_filter_eq {catalog catalog' : List IndexRow}
    (h : Matched S L ns ⟨indexes, catalog⟩)
    (hrows : catalog'.filter (S.about ns) = catalog.filter (S.about ns)) :
    Matched S L ns ⟨indexes, catalog'⟩ := by
  refine ⟨?_, h.distinct⟩
  dsimp only
  rw [hrows]
  exact h.entries

/-- Tables of `chimera_meta` may be created. -/
lemma CatalogAgrees.grows (h : CatalogAgrees S L s) (hgrows : s.Grows t) : CatalogAgrees S L t := by
  have htables (ns : Namespace) (hns : ¬ Schema.IsSystem ns) : t.tables ns = s.tables ns :=
    (hgrows.tables ns).resolve_right fun hsystem => hns hsystem.1
  refine ⟨fun ns hns indexes hindexes => ?_, fun ns hns hthere => ?_⟩
  · rw [htables ns hns] at hindexes
    rw [hgrows.catalog]
    exact h.matched ns hns indexes hindexes
  · rw [Schema.present, htables ns hns] at hthere
    exact (hgrows.tables _).present (h.ready ns hns hthere)

/-- One collection comes to have other indexes and other rows. -/
lemma CatalogAgrees.becomes (h : CatalogAgrees S L s) (ht : s.Becomes ns p' t)
    (hready : ¬ Schema.IsSystem ns → t.present MetaTable.indexes.ns = true)
    (hmatched : ¬ Schema.IsSystem ns → Matched S L ns p')
    (hothers : ∀ ns' ≠ ns, ¬ Schema.IsSystem ns' → s.present ns' = true →
      p'.catalog.filter (S.about ns') = s.catalog.filter (S.about ns')) :
    CatalogAgrees S L t := by
  have htables (ns' : Namespace) (hne : ns' ≠ ns) (hns' : ¬ Schema.IsSystem ns') :
      t.tables ns' = s.tables ns' :=
    (ht.others ns' hne).resolve_right fun hsystem => hns' hsystem.1
  refine ⟨fun ns' hns' indexes hindexes => ?_, fun ns' hns' hthere => ?_⟩
  · by_cases heq : ns' = ns
    · subst heq
      obtain rfl := Option.some.inj (ht.table.symm.trans hindexes)
      rw [ht.catalog]
      exact hmatched hns'
    · rw [htables ns' heq hns'] at hindexes
      have hthere : s.present ns' = true := by
        rw [Schema.present, hindexes]
        rfl
      rw [ht.catalog]
      exact (h.matched ns' hns' indexes hindexes).of_filter_eq (hothers ns' heq hns' hthere)
  · by_cases heq : ns' = ns
    · subst heq
      exact hready hns'
    · rw [Schema.present, htables ns' heq hns'] at hthere
      exact ht.keeps_present (h.ready ns' hns' hthere)

/-- Rows that are not deleted stay. -/
lemma filter_forget {catalog : List IndexRow} {deleted : IndexRow → Bool}
    (h : ∀ row ∈ catalog, S.about ns' row = true → deleted row = false) :
    (catalog.filter fun row => !deleted row).filter (S.about ns') =
      catalog.filter (S.about ns') := by
  rw [List.filter_filter]
  refine List.filter_congr fun row hrow => ?_
  cases habout : S.about ns' row with
  | false => rfl
  | true =>
    rw [h row hrow habout]
    rfl

/-- Tables are dropped, and rows deleted: the catalog only with the last collection, and rows only
about collections that are dropped or have no indexes. -/
lemma CatalogAgrees.without (h : CatalogAgrees S L s) {dropped : Namespace → Bool}
    {deleted : IndexRow → Bool}
    (hcatalog : dropped MetaTable.indexes.ns = true → ∀ ns', ¬ Schema.IsSystem ns' →
      s.tables ns' = none ∨ dropped ns' = true)
    (hdeleted : ∀ ns', ¬ Schema.IsSystem ns' → ∀ row ∈ s.catalog, S.about ns' row = true →
      deleted row = true →
        s.tables ns' = none ∨ s.tables ns' = some [] ∨ dropped ns' = true) :
    CatalogAgrees S L ((s.without dropped).forget deleted) := by
  have htables (ns' : Namespace) (hns' : ¬ Schema.IsSystem ns') (indexes : List IndexSpec)
      (hindexes : ((s.without dropped).forget deleted).tables ns' = some indexes) :
      s.tables ns' = some indexes ∧ dropped ns' = false ∧
        dropped MetaTable.indexes.ns = false := by
    change (if dropped ns' = true then none else s.tables ns') = some indexes at hindexes
    split at hindexes
    · cases hindexes
    · next hkept =>
      have hkept' : dropped ns' = false := by simpa using hkept
      refine ⟨hindexes, hkept', ?_⟩
      rw [Bool.eq_false_iff]
      intro hmeta
      rcases hcatalog hmeta ns' hns' with hnone | hgone
      · rw [hnone] at hindexes
        cases hindexes
      · exact hkept hgone
  refine ⟨fun ns' hns' indexes hindexes => ?_, fun ns' hns' hthere => ?_⟩
  · obtain ⟨hsame, hkept, hmeta⟩ := htables ns' hns' indexes hindexes
    refine (h.matched ns' hns' indexes hsame).of_filter_eq ?_
    have hrest : ((s.without dropped).forget deleted).catalog =
        s.catalog.filter fun row => !deleted row := by
      change (if dropped MetaTable.indexes.ns = true then [] else s.catalog).filter _ = _
      rw [hmeta]
      rfl
    rw [hrest]
    refine filter_forget fun row hrow habout => ?_
    rw [Bool.eq_false_iff]
    intro hgone
    rcases hdeleted ns' hns' row hrow habout hgone with hnone | hempty | hdropped
    · rw [hnone] at hsame
      cases hsame
    · exact (h.matched ns' hns' [] hempty).no_rows hrow habout
    · rw [hkept] at hdropped
      cases hdropped
  · obtain ⟨indexes, hindexes⟩ := Option.isSome_iff_exists.1 hthere
    obtain ⟨hsame, -, hmeta⟩ := htables ns' hns' indexes hindexes
    have hthere' : s.present ns' = true := by
      rw [Schema.present, hsame]
      rfl
    change (if dropped MetaTable.indexes.ns = true then none
      else s.tables MetaTable.indexes.ns).isSome = true
    rw [hmeta]
    exact h.ready ns' hns' hthere'

/-- No rows are deleted. -/
lemma forget_none (s : Schema) : (s.forget fun _ => false) = s := by
  exact congrArg (Schema.mk s.tables) (List.filter_eq_self.2 fun _ _ => rfl)

/-- An index and its row are dropped together where catalog and server take the same names for
one. -/
lemma Matched.unindex {catalog : List IndexRow} (h : Matched S L ns ⟨indexes, catalog⟩)
    (hspelled : ∀ row ∈ catalog, S.about ns row = true →
      (S.fold row.name = S.fold name ↔ S.ident row.name = S.ident name)) :
    Matched S L ns ⟨indexes.filter fun other => !decide (S.ident other.name = S.ident name),
      catalog.filter fun row => !S.isEntry ns name row⟩ := by
  refine ⟨?_, h.distinct.filter _⟩
  have hrows : (catalog.filter fun row => !S.isEntry ns name row).filter (S.about ns) =
      (catalog.filter (S.about ns)).filter fun row => !decide (S.fold row.name = S.fold name) := by
    rw [List.filter_filter, List.filter_filter]
    refine List.filter_congr fun row _ => ?_
    rw [SchemaServer.isEntry]
    cases S.about ns row <;> simp
  have hentries : List.Forall₂ (fun row spec =>
      (S.fold row.name = S.fold name ↔ S.ident row.name = S.ident name) ∧ Entry L ns row spec)
      (catalog.filter (S.about ns)) indexes := by
    refine (List.forall₂_and_left _ _).2 ⟨fun row hrow => ?_, h.entries⟩
    obtain ⟨hmem, habout⟩ := List.mem_filter.1 hrow
    exact hspelled row hmem habout
  rw [hrows]
  refine (List.rel_filter (fun row spec hentry => ?_) hentries).imp fun _ _ hentry => hentry.2
  have hname := name_of_decode hentry.2.decode_eq
  simp [hname, hentry.1]

/-- An index is dropped, and its row deleted. -/
lemma CatalogAgrees.unindexed (h : CatalogAgrees S L s) (hindexes : s.tables ns = some indexes)
    (halone : ∀ ns' ≠ ns, ¬ Schema.IsSystem ns' → S.SameNs ns ns' →
      s.tables ns' = none ∨ s.tables ns' = some [])
    (hspelled : ¬ Schema.IsSystem ns → ∀ row ∈ s.catalog, S.about ns row = true →
      (S.fold row.name = S.fold name ↔ S.ident row.name = S.ident name)) :
    CatalogAgrees S L (S.unindexed ns name indexes s) := by
  have hthere : s.present ns = true := by
    rw [Schema.present, hindexes]
    rfl
  have ht : s.Becomes ns ⟨indexes.filter fun other => !decide (S.ident other.name = S.ident name),
      s.catalog.filter fun row => !S.isEntry ns name row⟩ (S.unindexed ns name indexes s) :=
    ⟨Function.update_self _ _ _, rfl, fun ns' hne => .inl (Function.update_of_ne hne _ _)⟩
  refine h.becomes ht (fun hns => ht.keeps_present (h.ready ns hns hthere))
    (fun hns => (h.matched ns hns indexes hindexes).unindex (hspelled hns))
    fun ns' hne hns' hthere' => filter_forget fun row hrow habout => ?_
  rw [Bool.eq_false_iff]
  intro hentry
  have hboth : S.SameNs ns ns' := by
    have hrowNs := about_iff.1 (Bool.and_eq_true_iff.1 hentry).1
    have hrowNs' := about_iff.1 habout
    exact ⟨hrowNs.1.symm.trans hrowNs'.1, hrowNs.2.symm.trans hrowNs'.2⟩
  rcases halone ns' hne hns' hboth with hnone | hempty
  · rw [Schema.present, hnone] at hthere'
    cases hthere'
  · exact (h.matched ns' hns' [] hempty).no_rows hrow habout

end Keeping

end Chimera
