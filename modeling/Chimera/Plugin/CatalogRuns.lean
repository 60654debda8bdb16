import Chimera.Foundations.Run
import Chimera.Plugin.CatalogAgreement

/-!
# Catalog and tables, over whole runs

Any commands on collections and indexes, one after the other, with failures at any statements, and
tables dropped by plain SQL in between.  The indexes that are listed are the indexes of the table as
long as no failure strikes a statement that completes an index change, no collection is created over
rows that were left behind, and no command takes the names of other collections or indexes for its
own.
-/

namespace Chimera

open Interaction StepSystem

/-! ## The system -/

/-- A command on collections and indexes. -/
inductive CatalogCommand where
  | create
  | drop
  | dropDatabase
  | createIndexes
  | dropIndexes

/-- The handler of a command. -/
def CatalogCommand.program (ctx : Ctx) : CatalogCommand → SchemaProgram Doc
  | .create => Catalog.cmdCreate ctx
  | .drop => Catalog.cmdDrop ctx
  | .dropDatabase => Catalog.cmdDropDatabase ctx
  | .createIndexes => Catalog.cmdCreateIndexes ctx
  | .dropIndexes => Catalog.cmdDropIndexes ctx

/-- What happens to tables and catalog. -/
inductive CatalogAction where
  /-- A command, some of whose statements fail. -/
  | command (c : CatalogCommand) (ctx : Ctx) (fault : ℕ → Option TranslatorError)
  /-- A table is dropped by plain SQL. -/
  | dropTable (ns : Namespace)

/-- A server, and the BSON library of the plugin. -/
structure CatalogSystem where
  /-- The server. -/
  server : SchemaServer
  /-- The library. -/
  L : Libbson

/-- A server on which nothing has been created. -/
def Schema.empty : Schema := ⟨fun _ => none, []⟩

namespace CatalogSystem

variable (C : CatalogSystem) (s : Schema) (c : CatalogCommand) (ctx : Ctx)
  (fault : ℕ → Option TranslatorError)

/-- The command, with the library of the plugin. -/
def withLibrary : Ctx := { ctx with L := C.L }

/-- The handler, with the library of the plugin. -/
def program : SchemaProgram Doc := c.program (C.withLibrary ctx)

/-- The command, with failures: the reply and the state afterwards. -/
def run : Except TranslatorError Doc × Schema :=
  let result := (C.program c ctx).serve
    (withFaults C.server.server SchemaQuestion.fail fault) (s, 0)
  (result.1, result.2.1)

/-- One action. -/
def step : Schema → CatalogAction → Option Schema
  | s, .command c ctx fault => some (C.run s c ctx fault).2
  | s, .dropTable ns => some (s.without fun other => decide (other = ns))

/-- The failure strikes the question, and answers it so. -/
def Strikes (q : SchemaQuestion) (r : q.Answer) : Prop :=
  ∃ k e, (C.program c ctx).nthQuestion (withFaults C.server.server SchemaQuestion.fail fault) k
    (s, 0) = some q ∧ fault k = some e ∧ q.fail e = some r

/-! ## The condition -/

/-- The collection is there, or no row is about it. -/
def Unregistered (ns : Namespace) : Prop :=
  ¬ Schema.IsSystem ns → s.present ns = false → ∀ row ∈ s.catalog, ¬ C.server.about ns row = true

/-- The catalog takes no other collection for this one. -/
def Alone (ns : Namespace) : Prop :=
  ∀ ns' ≠ ns, ¬ Schema.IsSystem ns' → C.server.SameNs ns ns' → s.present ns' = false

/-- The catalog takes no other collection that has indexes for this one. -/
def AloneIndexed (ns : Namespace) : Prop :=
  ∀ ns' ≠ ns, ¬ Schema.IsSystem ns' → C.server.SameNs ns ns' →
    s.tables ns' = none ∨ s.tables ns' = some []

/-- The catalog is dropped only with the last collection. -/
def SparesCatalog (dropped : Namespace → Bool) : Prop :=
  dropped MetaTable.indexes.ns = true → ∀ ns', ¬ Schema.IsSystem ns' →
    s.tables ns' = none ∨ dropped ns' = true

/-- The condition on a command. -/
def CommandGuard : CatalogCommand → Prop
  | .create => ∀ ns, ctx.ns = .ok ns → C.Unregistered s ns
  | .drop => ∀ ns, ctx.ns = .ok ns →
      C.AloneIndexed s ns ∧ SparesCatalog s fun other => decide (other = ns)
  | .dropDatabase => SparesCatalog s (fun other => decide (other.db = ctx.db)) ∧
      ∀ ns', ¬ Schema.IsSystem ns' → C.server.fold ns'.db = C.server.fold ctx.db →
        ns'.db = ctx.db ∨ s.tables ns' = none ∨ s.tables ns' = some []
  | .createIndexes => ∀ ns entries, ctx.ns = .ok ns →
      findField ctx.body "indexes".toList = some (.array entries) →
        C.Unregistered s ns ∧ C.Alone s ns ∧ (¬ Schema.IsSystem ns →
          ∀ spec ∈ C.server.fresh ns s.catalog (requested (entries.map Prod.snd)),
            spec.stored C.L = .ok spec)
  | .dropIndexes => ∀ ns, ctx.ns = .ok ns →
      C.AloneIndexed s ns ∧ (ctx.indexName ≠ "*".toList → ¬ Schema.IsSystem ns →
        ∀ row ∈ s.catalog, C.server.about ns row = true →
          (C.server.fold row.name = C.server.fold ctx.indexName ↔
            C.server.ident row.name = C.server.ident ctx.indexName))

/-- The condition on an action. -/
def Guard : Schema → CatalogAction → Prop
  | s, .command c ctx fault =>
    (∀ q r, C.Strikes s c ctx fault q r → ¬ q.Completes) ∧ C.CommandGuard s ctx c
  | s, .dropTable ns => SparesCatalog s fun other => decide (other = ns)

/-- A `createIndexes`, or a `dropIndexes` by name, on a collection: if it fails where it would have
succeeded, it succeeds when it is sent again. -/
def Retried : Prop :=
  (c = .createIndexes ∨ c = .dropIndexes ∧ ctx.indexName ≠ "*".toList) →
    (∀ ns, ctx.ns = .ok ns → ¬ Schema.IsSystem ns) →
      (∃ e, (C.run s c ctx fault).1 = .error e) →
        (∃ reply, (C.run s c ctx fun _ => none).1 = .ok reply) →
          ∃ reply, (C.run (C.run s c ctx fault).2 c ctx fun _ => none).1 = .ok reply

end CatalogSystem

/-! ## One action -/

section Step

variable {C : CatalogSystem} {s : Schema} {c : CatalogCommand} {ctx : Ctx}
  {fault : ℕ → Option TranslatorError}

/-- The failures of an action that meets the condition. -/
lemma spares_strikes (h : ∀ q r, C.Strikes s c ctx fault q r → ¬ q.Completes) :
    Spares (C.Strikes s c ctx fault) := by
  intro q r hr
  obtain ⟨k, e, hq, hfault, hfail⟩ := hr
  exact ⟨h q r ⟨k, e, hq, hfault, hfail⟩, e, hfail⟩

/-- What a command withstands holds after it. -/
lemma run_of_withstands {Post : Except TranslatorError Doc → Schema → Prop}
    (h : (C.program c ctx).Withstands C.server.server (C.Strikes s c ctx fault) s Post) :
    Post (C.run s c ctx fault).1 (C.run s c ctx fault).2 := by
  refine h.serve_withFaults (n := 0) fun k q e r hq hfault hfail => ?_
  rw [Nat.zero_add] at hfault
  exact ⟨k, e, hq, hfault, hfail⟩

/-- A command without failures. -/
lemma run_undisturbed : C.run s c ctx (fun _ => none) =
    (C.program c ctx).serve C.server.server s := by
  obtain ⟨hreply, hstate⟩ :=
    serve_withFaults_none (s := s) SchemaQuestion.fail (C.program c ctx) 0
  exact Prod.ext hreply hstate

/-- `create` keeps catalog and tables in agreement. -/
lemma agrees_create (h : CatalogAgrees C.server C.L s)
    (hspares : Spares (C.Strikes s .create ctx fault)) (hguard : C.CommandGuard s ctx .create) :
    CatalogAgrees C.server C.L (C.run s .create ctx fault).2 := by
  rcases run_of_withstands (withstands_cmdCreate hspares) with
    hgrows | ⟨ns, hns, habsent, hbecomes, hmeta⟩
  · exact h.grows hgrows
  · refine h.becomes hbecomes (fun _ => hmeta) (fun hsystem => ⟨?_, .nil⟩) fun _ _ _ _ => rfl
    have hrows : s.catalog.filter (C.server.about ns) = [] :=
      List.filter_eq_nil_iff.2 (hguard ns hns hsystem habsent)
    dsimp only
    rw [hrows]
    exact .nil

/-- `createIndexes` keeps catalog and tables in agreement. -/
lemma agrees_createIndexes (h : CatalogAgrees C.server C.L s)
    (hspares : Spares (C.Strikes s .createIndexes ctx fault))
    (hguard : C.CommandGuard s ctx .createIndexes) :
    CatalogAgrees C.server C.L (C.run s .createIndexes ctx fault).2 := by
  rcases run_of_withstands (withstands_createIndexes_part hspares) with
    hgrows | ⟨ns, entries, p', hns, hbody, ⟨front, back, hsplit, rfl⟩, hcreates⟩
  · exact h.grows hgrows
  · obtain ⟨hunregistered, halone, hstored⟩ := hguard ns entries hns hbody
    refine h.becomes hcreates.toBecomes (fun hsystem => hcreates.ready ?_) (fun hsystem => ?_)
      fun ns' hne hsystem hthere => filter_createAll _ _ fun hsame => ?_
    · rw [Schema.ready]
      cases hthere : s.present ns with
      | true => exact h.ready ns hsystem hthere
      | false => rfl
    · have hstart : Matched C.server C.L ns (s.start ns) := by
        cases hthere : s.tables ns with
        | some indexes =>
          rw [Schema.start, hthere]
          exact h.matched ns hsystem indexes hthere
        | none =>
          have habsent : s.present ns = false := by
            rw [Schema.present, hthere]
            rfl
          have hrows : s.catalog.filter (C.server.about ns) = [] :=
            List.filter_eq_nil_iff.2 (hunregistered hsystem habsent)
          rw [Schema.start, hthere]
          refine ⟨?_, .nil⟩
          dsimp only
          rw [hrows]
          exact .nil
      refine hstart.createAll fun spec hspec => hstored hsystem spec ?_
      rw [hsplit]
      exact fresh_front_subset front back hspec
    · rw [halone ns' hne hsystem hsame] at hthere
      cases hthere

/-- `drop` keeps catalog and tables in agreement. -/
lemma agrees_drop (h : CatalogAgrees C.server C.L s)
    (hspares : Spares (C.Strikes s .drop ctx fault)) (hguard : C.CommandGuard s ctx .drop) :
    CatalogAgrees C.server C.L (C.run s .drop ctx fault).2 := by
  rcases run_of_withstands (withstands_cmdDrop hspares) with heq | ⟨ns, hns, heq | heq⟩
  · rw [heq]
    exact h
  · rw [heq, ← forget_none (s.without _)]
    exact h.without (hguard ns hns).2 fun _ _ _ _ _ hdeleted => by cases hdeleted
  · rw [heq]
    refine h.without (hguard ns hns).2 fun ns' hsystem row _ habout hdeleted => ?_
    have hrow := about_iff.1 hdeleted
    have hrow' := about_iff.1 habout
    by_cases heq : ns' = ns
    · exact .inr (.inr (decide_eq_true heq))
    · exact ((hguard ns hns).1 ns' heq hsystem
        ⟨hrow.1.symm.trans hrow'.1, hrow.2.symm.trans hrow'.2⟩).imp_right .inl

/-- `dropDatabase` keeps catalog and tables in agreement. -/
lemma agrees_dropDatabase (h : CatalogAgrees C.server C.L s)
    (hspares : Spares (C.Strikes s .dropDatabase ctx fault))
    (hguard : C.CommandGuard s ctx .dropDatabase) :
    CatalogAgrees C.server C.L (C.run s .dropDatabase ctx fault).2 := by
  obtain ⟨u, hgrows, hleft⟩ := run_of_withstands (withstands_cmdDropDatabase hspares)
  have hu := h.grows hgrows
  have htables (ns : Namespace) (hsystem : ¬ Schema.IsSystem ns) : u.tables ns = s.tables ns :=
    (hgrows.tables ns).resolve_right fun hnew => hsystem hnew.1
  have hcatalog : CatalogSystem.SparesCatalog u fun other => decide (other.db = ctx.db) := by
    intro hmeta ns hsystem
    rw [htables ns hsystem]
    exact hguard.1 hmeta ns hsystem
  rcases hleft with heq | heq | heq
  · rw [heq]
    exact hu
  · rw [heq, ← forget_none (u.without _)]
    exact hu.without hcatalog fun _ _ _ _ _ hdeleted => by cases hdeleted
  · rw [heq]
    refine hu.without hcatalog fun ns hsystem row _ habout hdeleted => ?_
    have hdb : C.server.fold ns.db = C.server.fold ctx.db :=
      (about_iff.1 habout).1.symm.trans (of_decide_eq_true hdeleted)
    rw [htables ns hsystem]
    rcases hguard.2 ns hsystem hdb with hdropped | hnone | hempty
    · exact .inr (.inr (decide_eq_true hdropped))
    · exact .inl hnone
    · exact .inr (.inl hempty)

/-- A `dropIndexes` whose namespace is refused does nothing. -/
lemma run_dropIndexes_of_error {e : TranslatorError} (hns : ctx.ns = .error e) :
    (C.run s .dropIndexes ctx fault).2 = s := by
  have hfail : C.program .dropIndexes ctx = .fail e := by
    change ofExcept ctx.ns >>= _ = _
    rw [hns]
    rfl
  rw [CatalogSystem.run, hfail]
  rfl

/-- The names that are listed are spelled as the server has them. -/
lemma spelled_of_listed (h : CatalogAgrees C.server C.L s) {ns : Namespace}
    (hsystem : ¬ Schema.IsSystem ns) {indexes : List IndexSpec}
    (hindexes : s.tables ns = some indexes) {listed : List IndexSpec}
    (hlisted : C.server.listed C.L ns s = .ok listed) {spec : IndexSpec} (hspec : spec ∈ listed)
    (hname : spec.name ≠ "_id_".toList) {row : IndexRow} (hrow : row ∈ s.catalog)
    (habout : C.server.about ns row = true) :
    C.server.fold row.name = C.server.fold spec.name ↔
      C.server.ident row.name = C.server.ident spec.name := by
  rcases (mem_of_listed hlisted).1 hspec with rfl | ⟨row', hrow', habout', hdecode⟩
  · exact absurd rfl hname
  · have hmatched := h.matched ns hsystem indexes hindexes
    have hname' := name_of_decode hdecode
    obtain ⟨x, hx, hentry⟩ := exists_right_of_forall₂ hmatched.entries
      (List.mem_filter.2 ⟨hrow, habout⟩)
    obtain ⟨y, hy, hentry'⟩ := exists_right_of_forall₂ hmatched.entries
      (List.mem_filter.2 ⟨hrow', habout'⟩)
    rw [hname', ← name_of_decode hentry.decode_eq, ← name_of_decode hentry'.decode_eq]
    by_cases heq : x = y
    · rw [heq]
      exact iff_of_true rfl rfl
    · have : Std.Symm C.server.Distinct :=
        ⟨fun _ _ hdistinct => ⟨hdistinct.1.symm, hdistinct.2.symm⟩⟩
      have hdistinct := hmatched.distinct.forall hx hy heq
      exact iff_of_false hdistinct.1 hdistinct.2

/-- `dropIndexes` keeps catalog and tables in agreement. -/
lemma agrees_dropIndexes (h : CatalogAgrees C.server C.L s)
    (hspares : Spares (C.Strikes s .dropIndexes ctx fault))
    (hguard : C.CommandGuard s ctx .dropIndexes) :
    CatalogAgrees C.server C.L (C.run s .dropIndexes ctx fault).2 := by
  cases hns : ctx.ns with
  | error e =>
    rw [run_dropIndexes_of_error hns]
    exact h
  | ok ns =>
    obtain ⟨halone, hspelled⟩ := hguard ns hns
    -- besides the agreement, no row is added, and the other tables stay
    let kept (u : Schema) : Prop := CatalogAgrees C.server C.L u ∧ u.catalog ⊆ s.catalog ∧
      ∀ ns' ≠ ns, u.tables ns' = s.tables ns'
    have hstep (name : Text) (u : Schema) (indexes : List IndexSpec) (hu : kept u)
        (hindexes : u.tables ns = some indexes)
        (hspelled : ¬ Schema.IsSystem ns → ∀ row ∈ s.catalog, C.server.about ns row = true →
          (C.server.fold row.name = C.server.fold name ↔
            C.server.ident row.name = C.server.ident name)) :
        kept (C.server.unindexed ns name indexes u) := by
      obtain ⟨hagrees, hrows, htables⟩ := hu
      refine ⟨hagrees.unindexed hindexes (fun ns' hne hsystem hsame => ?_)
        fun hsystem row hrow => hspelled hsystem row (hrows hrow), ?_, fun ns' hne => ?_⟩
      · rw [htables ns' hne]
        exact halone ns' hne hsystem hsame
      · exact List.Subset.trans (List.filter_subset_self _) hrows
      · exact (Function.update_of_ne hne _ _).trans (htables ns' hne)
    have hs : kept s := ⟨h, List.Subset.refl _, fun _ _ => rfl⟩
    have hrun := run_of_withstands (withstands_cmdDropIndexes (P := kept) hspares hns ?_ ?_ hs)
    · exact hrun.1
    · intro hthere listed hlisted spec hspec hname u indexes hu hindexes
      obtain ⟨indexes', hindexes'⟩ := Option.isSome_iff_exists.1 hthere
      exact hstep _ u indexes hu hindexes fun hsystem row hrow habout =>
        spelled_of_listed h hsystem hindexes' hlisted hspec hname hrow habout
    · intro hstar indexes hindexes
      exact hstep _ s indexes hs hindexes (hspelled hstar)

/-- Plain SQL keeps catalog and tables in agreement. -/
lemma agrees_dropTable (h : CatalogAgrees C.server C.L s) {ns : Namespace}
    (hguard : CatalogSystem.SparesCatalog s fun other => decide (other = ns)) :
    CatalogAgrees C.server C.L (s.without fun other => decide (other = ns)) := by
  rw [← forget_none (s.without _)]
  exact h.without hguard fun _ _ _ _ _ hdeleted => by cases hdeleted

/-- **One action.**  An action that meets the condition keeps catalog and tables in agreement. -/
theorem agrees_step {a : CatalogAction} {t : Schema} (h : CatalogAgrees C.server C.L s)
    (hguard : C.Guard s a) (hstep : C.step s a = some t) : CatalogAgrees C.server C.L t := by
  cases a with
  | dropTable ns =>
    obtain rfl := Option.some.inj hstep
    exact agrees_dropTable h hguard
  | command c ctx fault =>
    obtain rfl := Option.some.inj hstep
    have hspares := spares_strikes hguard.1
    cases c with
    | create => exact agrees_create h hspares hguard.2
    | drop => exact agrees_drop h hspares hguard.2
    | dropDatabase => exact agrees_dropDatabase h hspares hguard.2
    | createIndexes => exact agrees_createIndexes h hspares hguard.2
    | dropIndexes => exact agrees_dropIndexes h hspares hguard.2

/-! ## Trying again -/

/-- The loop over two lists. -/
lemma createAll_append {S : SchemaServer} {L : Libbson} {ns : Namespace} {front back : List Value}
    {p p' : IndexState} (h : S.createAll L ns front p = (.ok (), p')) :
    S.createAll L ns (front ++ back) p = S.createAll L ns back p' := by
  induction front generalizing p with
  | nil =>
    obtain rfl : p = p' := (Prod.ext_iff.1 h).2
    rfl
  | cons v rest ih =>
    rw [SchemaServer.createAll] at h
    rw [List.cons_append, SchemaServer.createAll]
    obtain ⟨result, q, hone⟩ : ∃ result q, S.createOne L ns v p = (result, q) := ⟨_, _, rfl⟩
    rw [hone] at h ⊢
    cases result with
    | error e => exact absurd (Prod.ext_iff.1 h).1 (by simp)
    | ok _ => exact ih h

/-- **A request that has been served in part.**  It succeeds when it is sent again. -/
lemma createResult_of_servedPart {S : SchemaServer} {L : Libbson} {ns : Namespace}
    {entries : List Value} {p p' q : IndexState} {ready : Bool}
    (h : S.createResult L ns entries ready p = (true, q)) (hpart : ServedPart S L ns entries p p') :
    S.createResult L ns entries true p' = (true, q) := by
  obtain ⟨front, back, rfl, hfront⟩ := hpart
  obtain ⟨hthrough, rows, hrows, hq⟩ := createResult_eq_true_iff.1 h
  have hall := createAll_eq_ok_iff.2 ⟨hthrough.valid, hthrough.unhindered, rows, hrows, hq⟩
  have hall' : S.createAll L ns (front ++ back) p' = (.ok (), q) := by
    rw [createAll_append (createAll_again hfront), ← createAll_append hfront]
    exact hall
  have hafter : S.listable L ns q.catalog = true := by
    rw [hq]
    exact (listable_append hrows).2 ⟨hthrough.listable, hthrough.stored⟩
  have hbefore : S.listable L ns p'.catalog = true := by
    obtain ⟨-, -, rows', hrows', rfl⟩ := createAll_eq_ok_iff.1 hfront
    exact (listable_append hrows').2 ⟨hthrough.listable, fun spec hspec =>
      hthrough.stored spec (fresh_front_subset front back hspec)⟩
  rw [SchemaServer.createResult, hbefore, hall']
  exact Prod.ext hafter rfl

/-- `createIndexes` succeeds when it is sent again. -/
lemma retried_createIndexes (hspares : Spares (C.Strikes s .createIndexes ctx fault)) :
    C.Retried s .createIndexes ctx fault := by
  rintro - hsystem ⟨e, he⟩ ⟨reply, hreply⟩
  rw [run_undisturbed] at hreply ⊢
  rcases cmdCreateIndexes_cases (C.withLibrary ctx) with ⟨e', hfail⟩ | ⟨ns, entries, hns, hbody⟩
  · change ((Catalog.cmdCreateIndexes (C.withLibrary ctx)).serve _ _).1 = _ at hreply
    rw [hfail] at hreply
    cases hreply
  · have hplain : ¬ Schema.IsSystem ns := hsystem ns hns
    obtain ⟨q, hresult, -⟩ := serve_cmdCreateIndexes C.server s hbody hns
    have hok : ((Catalog.cmdCreateIndexes (C.withLibrary ctx)).serve C.server.server s).1.toBool =
        true := toBool_eq_true_iff.2 ⟨reply, hreply⟩
    rw [hok] at hresult
    obtain ⟨q', hagain, -⟩ :=
      serve_cmdCreateIndexes C.server (C.run s .createIndexes ctx fault).2 hbody hns
    -- it remains to see that the request succeeds from the state that was left
    suffices h : (C.server.createResult C.L ns (entries.map Prod.snd)
        (Schema.ready (C.run s .createIndexes ctx fault).2 ns)
        (Schema.start (C.run s .createIndexes ctx fault).2 ns)).1 = true by
      refine toBool_eq_true_iff.1 (Eq.trans ?_ h)
      exact (congrArg Prod.fst hagain).symm
    have hready := (createResult_eq_true_iff.1 hresult).1.ready
    rcases run_of_withstands (withstands_cmdCreateIndexes hspares hbody hns) with
      ⟨p', hfailed, -⟩ | ⟨-, -, hgrows | ⟨p', hpart, hcreates⟩⟩
    · have hfalse : (C.run s .createIndexes ctx fault).1.toBool = true :=
        congrArg Prod.fst (hfailed.symm.trans hresult)
      rw [he] at hfalse
      cases hfalse
    · have htable := (hgrows.tables ns).resolve_right fun hnew => hplain hnew.1
      have hstart : Schema.start (C.run s .createIndexes ctx fault).2 ns = s.start ns := by
        rw [Schema.start, Schema.start, htable, hgrows.catalog]
      have hready' : Schema.ready (C.run s .createIndexes ctx fault).2 ns = true := by
        rw [Schema.ready, Bool.or_eq_true] at hready ⊢
        rw [Schema.present, htable]
        exact hready.imp_right fun hmeta => (hgrows.tables _).present hmeta
      rw [hready] at hresult
      rw [hstart, hready']
      exact congrArg Prod.fst hresult
    · have hready' : Schema.ready (C.run s .createIndexes ctx fault).2 ns = true := by
        rw [Schema.ready, hcreates.ready hready, Bool.or_true]
      rw [hcreates.start_eq, hready']
      exact congrArg Prod.fst (createResult_of_servedPart hresult hpart)

/-- `dropIndexes` by name succeeds when it is sent again: where it fails it has done nothing. -/
lemma retried_dropIndexes (hspares : Spares (C.Strikes s .dropIndexes ctx fault)) :
    C.Retried s .dropIndexes ctx fault := by
  rintro (h | ⟨-, hname⟩) - ⟨e, he⟩ hok
  · cases h
  · have hsame := run_of_withstands
      (withstands_cmdDropIndexes_named (C.withLibrary ctx) hspares hname)
    rw [hsame ⟨e, he⟩]
    exact hok

/-! ## Whole runs -/

/-- On a server on which nothing has been created, catalog and tables agree. -/
lemma agrees_empty (C : CatalogSystem) : CatalogAgrees C.server C.L .empty :=
  ⟨fun _ _ _ h => (by cases h), fun _ _ h => (by cases h)⟩

/-- **Catalog and tables stay in step.**  In every run whose actions meet the condition, what is
listed of a collection is the index on `_id` and the indexes on its table, and a command on its
indexes that a failure has broken off succeeds when it is sent again. -/
theorem catalog_in_step {actions : List CatalogAction} {s : Schema}
    (h : Run C.step C.Guard .empty actions s) :
    InStep C.server C.L s ∧ ∀ c ctx fault, C.Guard s (.command c ctx fault) →
      C.Retried s c ctx fault := by
  have hagrees : CatalogAgrees C.server C.L s :=
    h.invariant (fun _ _ _ hs hguard hstep => agrees_step hs hguard hstep) (agrees_empty C)
  refine ⟨hagrees.inStep, fun c ctx fault hguard => ?_⟩
  have hspares := spares_strikes hguard.1
  cases c with
  | createIndexes => exact retried_createIndexes hspares
  | dropIndexes => exact retried_dropIndexes hspares
  | _ =>
    rintro (hc | ⟨hc, -⟩)
    · cases hc
    · cases hc

end Step

/-! ## A failure before and a failure after the `ALTER TABLE` -/

/-- A system of the plain server. -/
def plainSystem : CatalogSystem := ⟨.plain, .ofIntegers⟩

/-- A failure at one statement. -/
def failureAt (n k : ℕ) : Option TranslatorError :=
  if k = n then some (internalError "lost connection".toList) else none

/-- The collection of the examples has been created. -/
def itemsCreated : Schema := (plainSystem.run .empty .create (createOnItems "a") fun _ => none).2

/-- An index has been asked for, and a statement has failed. -/
def indexBroken (n : ℕ) : Schema :=
  (plainSystem.run itemsCreated .createIndexes (createOnItems "a") (failureAt n)).2

/-- The collection has had an index, its table has been dropped by plain SQL, and it has been
created again. -/
def itemsRecreated : Schema :=
  (plainSystem.run ((plainSystem.run itemsCreated .createIndexes (createOnItems "a")
    fun _ => none).2.without fun other => decide (other = itemsNs)) .create (createOnItems "a")
    fun _ => none).2

/-- The collection is not one of the plugin's own tables. -/
lemma not_isSystem_itemsNs : ¬ Schema.IsSystem itemsNs := by
  rintro ⟨table, h⟩
  cases table <;> exact absurd h (by decide)

/-- The `ALTER TABLE` fails, and the command is sent again. -/
theorem catalog_in_step_alterFails :
    InStep .plain .ofIntegers (indexBroken 12) ∧ ∀ c ctx fault,
      plainSystem.Guard (indexBroken 12) (.command c ctx fault) →
        plainSystem.Retried (indexBroken 12) c ctx fault := by
  have hcreate : plainSystem.Guard .empty
      (.command .create (createOnItems "a") fun _ => none) := by
    refine ⟨?_, fun ns _ _ _ row hrow => by cases hrow⟩
    rintro q r ⟨k, e, -, hfault, -⟩
    cases hfault
  have hindex : plainSystem.Guard itemsCreated
      (.command .createIndexes (createOnItems "a") (failureAt 12)) := by
    have hcatalog : itemsCreated.catalog = [] := by decide +kernel
    refine ⟨?_, fun ns entries hns hbody => ⟨fun _ _ row hrow => ?_, fun ns' hne _ hsame => ?_,
      fun _ => ?_⟩⟩
    · rintro q r ⟨k, e, hq, hfault, -⟩
      have hk : k = 12 := by
        by_contra hne
        rw [failureAt, if_neg hne] at hfault
        cases hfault
      have hall : (((plainSystem.program .createIndexes (createOnItems "a")).nthQuestion
          (withFaults plainSystem.server.server SchemaQuestion.fail (failureAt 12)) 12
          (itemsCreated, 0)).all fun q => !decide q.Completes) = true := by decide +kernel
      rw [hk] at hq
      rw [hq] at hall
      simpa using hall
    · rw [hcatalog] at hrow
      cases hrow
    · exact absurd (congrArg₂ Namespace.mk hsame.1 hsame.2).symm hne
    · obtain rfl : itemsNs = ns := Except.ok.inj hns
      obtain rfl : indexEntries "a" = entries := by
        exact Value.array.inj (Option.some.inj hbody)
      have hfresh : SchemaServer.plain.fresh itemsNs itemsCreated.catalog
          (requested ((indexEntries "a").map Prod.snd)) = [indexOnA] := by decide +kernel
      intro spec hspec
      change spec ∈ SchemaServer.plain.fresh _ _ _ at hspec
      rw [hfresh, List.mem_singleton] at hspec
      rw [hspec]
      decide +kernel
  exact catalog_in_step (.cons hcreate rfl (.cons hindex rfl (.nil _)))

/-- A collection whose list is not as long as its indexes is out of step. -/
lemma not_inStep_of_length {s : Schema} (indexes : List IndexSpec) (n : ℕ)
    (htable : s.tables itemsNs = some indexes)
    (hlength : (((onWire (listIndexes .ofIntegers itemsNs)).serve SchemaServer.plain.server
      s).1.toOption.map List.length) = some n) (hne : n ≠ indexes.length + 1) :
    ¬ InStep .plain .ofIntegers s := by
  intro h
  obtain ⟨specs, hlisted, hperm⟩ := h itemsNs not_isSystem_itemsNs indexes htable
  rw [hlisted] at hlength
  have hspecs : specs.length + 1 = n := Option.some.inj hlength
  rw [hperm.length_eq] at hspecs
  exact hne hspecs.symm

/-- The statement after the `ALTER TABLE` fails: the index is there and is not listed, and the
command fails when it is sent again.  And a table that is dropped by plain SQL leaves the row of its
index behind: the next table of its name is listed with an index that it does not have. -/
theorem catalog_out_of_step :
    (Steps plainSystem.step .empty [.command .create (createOnItems "a") fun _ => none,
        .command .createIndexes (createOnItems "a") (failureAt 13)] (indexBroken 13) ∧
      ¬ InStep .plain .ofIntegers (indexBroken 13) ∧
      ¬ plainSystem.Retried itemsCreated .createIndexes (createOnItems "a") (failureAt 13)) ∧
    Steps plainSystem.step .empty [.command .create (createOnItems "a") fun _ => none,
        .command .createIndexes (createOnItems "a") fun _ => none, .dropTable itemsNs,
        .command .create (createOnItems "a") fun _ => none] itemsRecreated ∧
      ¬ InStep .plain .ofIntegers itemsRecreated := by
  refine ⟨⟨.cons trivial rfl (.cons trivial rfl (.nil _)), ?_, fun h => ?_⟩,
    .cons trivial rfl (.cons trivial rfl (.cons trivial rfl (.cons trivial rfl (.nil _)))), ?_⟩
  · exact not_inStep_of_length [indexOnA] 1 (by decide +kernel)
      (by decide +kernel) (by decide)
  · have hfails : (plainSystem.run itemsCreated .createIndexes (createOnItems "a")
        (failureAt 13)).1.toBool = false := by decide +kernel
    have hworks : (plainSystem.run itemsCreated .createIndexes (createOnItems "a")
        fun _ => none).1.toBool = true := by decide +kernel
    have hagain : (plainSystem.run (indexBroken 13) .createIndexes (createOnItems "a")
        fun _ => none).1.toBool = false := by decide +kernel
    have hplain (ns : Namespace) (hns : (createOnItems "a").ns = .ok ns) :
        ¬ Schema.IsSystem ns := by
      obtain rfl : itemsNs = ns := Except.ok.inj hns
      exact not_isSystem_itemsNs
    obtain ⟨reply, hreply⟩ := h (.inl rfl) hplain (toBool_eq_false_iff.1 hfails)
      (toBool_eq_true_iff.1 hworks)
    rw [indexBroken, hreply] at hagain
    cases hagain
  · exact not_inStep_of_length [] 2 (by decide +kernel) (by decide +kernel)
      (by decide)

end Chimera
