import Chimera.Foundations.Run
import Chimera.Oplog.Event
import Chimera.Plugin.Namespace
import Mathlib.Logic.Function.Basic

/-!
# Registered projections

`chimera_add_projection` checks its arguments, writes a row of `chimera_meta.projections`, and then
alters the table and creates the triggers.  Every statement commits by itself, and any of them may
fail.  A row stays true of its table as long as a call that registers a projection comes to its end,
no call changes what a row says, and no call takes the trigger names of another projection.
-/

namespace Chimera

open StepSystem

/-! ## The state -/

/-- The modes of a projection. -/
inductive ProjectionMode where
  | forward
  | bidirectional
deriving DecidableEq

/-- A row of `chimera_meta.projections`. -/
structure ProjectionRow where
  /-- `db_name` and `coll_name`. -/
  ns : Namespace
  /-- `column_name`. -/
  column : Text
  /-- The field. -/
  field : Text
  /-- The mode. -/
  mode : ProjectionMode
deriving DecidableEq

/-- A column of a table. -/
structure TableColumn where
  /-- Its name. -/
  name : Text
  /-- The field it is generated from, if it is generated. -/
  generated : Option Text
deriving DecidableEq

/-- When a `BEFORE` trigger fires. -/
inductive TriggerEvent where
  | insert
  | update
deriving DecidableEq

/-- A trigger that reconciles a column with a field. -/
structure ProjectionTrigger where
  /-- Its name, in the database of its table. -/
  name : Text
  /-- Its table. -/
  ns : Namespace
  /-- When it fires. -/
  event : TriggerEvent
  /-- The column. -/
  column : Text
  /-- The field. -/
  field : Text
  /-- The type that `v_patch` was built for. -/
  type : Text
deriving DecidableEq

/-- The projections of a server. -/
structure ProjectionState where
  /-- The rows of `chimera_meta.projections`. -/
  rows : List ProjectionRow
  /-- The tables, with their columns. -/
  columns : Namespace → Option (List TableColumn)
  /-- The triggers of all databases. -/
  triggers : List ProjectionTrigger

/-- How the server compares names, and its digest. -/
structure ProjectionServer where
  /-- By what the catalog compares its texts. -/
  fold : Text → Text
  /-- By what the names of columns are compared. -/
  ident : Text → Text
  /-- `MD5`. -/
  md5 : Text → Text

/-! ## The procedure -/

/-- The arguments of `chimera_add_projection`. -/
structure ProjectionCall where
  /-- `p_ns`. -/
  ns : Text
  /-- `p_field`. -/
  field : Text
  /-- `p_column`. -/
  column : Text
  /-- `p_type`. -/
  type : Text
  /-- `p_mode`. -/
  mode : Text

/-- `REGEXP '^[…]+$'`; the end of a line is the end of the text too. -/
def consistsOf (allowed : Char → Bool) (s : Text) : Bool :=
  let s := if s.getLast? = some '\n' then s.dropLast else s
  !s.isEmpty && s.all allowed

/-- `[A-Za-z0-9_$]`. -/
def isColumnChar (c : Char) : Bool := c.isAlphanum || c = '_' || c = '$'

/-- `[A-Za-z0-9_$-]`. -/
def isFieldChar (c : Char) : Bool := isColumnChar c || c = '-'

/-- `[A-Za-z0-9_$.-]`. -/
def isCollectionChar (c : Char) : Bool := isFieldChar c || c = '.'

/-- `[A-Za-z0-9_ ,()]`. -/
def isTypeChar (c : Char) : Bool :=
  c.isAlphanum || c = '_' || c = ' ' || c = ',' || c = '(' || c = ')'

namespace ProjectionCall

variable (c : ProjectionCall)

/-- `v_db` and `v_coll`. -/
def table : Namespace where
  db := databaseOf c.ns
  collection := c.ns.drop ((databaseOf c.ns).length + 1)

/-- The arguments can be concatenated into statements. -/
def identifiers : Bool :=
  !(databaseOf c.ns).isEmpty && (databaseOf c.ns).all isFieldChar && c.ns.contains '.' &&
    consistsOf isCollectionChar c.table.collection && consistsOf isFieldChar c.field &&
    consistsOf isColumnChar c.column && consistsOf isTypeChar c.type

/-- The mode, compared as the catalog compares. -/
def mode? (S : ProjectionServer) : Option ProjectionMode :=
  if S.fold c.mode = S.fold "forward".toList then some .forward
  else if S.fold c.mode = S.fold "bidirectional".toList then some .bidirectional
  else none

/-- The checks of the arguments. -/
def check (S : ProjectionServer) : Except Text ProjectionMode :=
  if !c.identifiers then .error "chimera_add_projection: unsupported identifier".toList
  else
    match c.mode? S with
    | some mode => .ok mode
    | none => .error "chimera_add_projection: mode must be forward or bidirectional".toList

end ProjectionCall

/-- A statement of the procedure. -/
inductive ProjectionSql where
  /-- `INSERT … ON DUPLICATE KEY UPDATE`. -/
  | register (row : ProjectionRow)
  /-- `ALTER TABLE … ADD COLUMN`. -/
  | addColumn (ns : Namespace) (type : Text) (column : TableColumn)
  /-- `GRANT UPDATE`. -/
  | grant (ns : Namespace) (column : Text)
  /-- `UPDATE … SET`, which backfills the column. -/
  | backfill (ns : Namespace) (column field : Text)
  /-- `CREATE OR REPLACE TRIGGER`. -/
  | createTrigger (trigger : ProjectionTrigger)

namespace ProjectionServer

variable (S : ProjectionServer)

/-- `v_stem`. -/
def stem (c : ProjectionCall) : Text := c.column.take 20 ++ '_' :: (S.md5 c.ns).take 8

/-- The name of a trigger. -/
def triggerName (c : ProjectionCall) : TriggerEvent → Text
  | .insert => "proj_bi_".toList ++ S.stem c
  | .update => "proj_bu_".toList ++ S.stem c

/-- The trigger that a call creates. -/
def trigger (c : ProjectionCall) (event : TriggerEvent) : ProjectionTrigger where
  name := S.triggerName c event
  ns := c.table
  event := event
  column := c.column
  field := c.field
  type := c.type

/-- The statements after the row is written. -/
def definitions (c : ProjectionCall) : ProjectionMode → List ProjectionSql
  | .forward => [.addColumn c.table c.type ⟨c.column, some c.field⟩]
  | .bidirectional => [.addColumn c.table c.type ⟨c.column, none⟩,
      .grant c.table c.column, .backfill c.table c.column c.field,
      .createTrigger (S.trigger c .insert), .createTrigger (S.trigger c .update)]

/-- The row a call writes. -/
def row (c : ProjectionCall) (mode : ProjectionMode) : ProjectionRow :=
  ⟨c.table, c.column, c.field, mode⟩

/-- Two rows have one primary key, as the catalog compares names. -/
def sameKey (r r' : ProjectionRow) : Bool :=
  decide (S.fold r.ns.db = S.fold r'.ns.db) &&
    decide (S.fold r.ns.collection = S.fold r'.ns.collection) &&
    decide (S.fold r.column = S.fold r'.column)

/-- The row is written, over the one of its key if there is one. -/
def upsert (row : ProjectionRow) (rows : List ProjectionRow) : List ProjectionRow :=
  if rows.any (S.sameKey row) then
    rows.map fun r => if S.sameKey row r then { r with field := row.field, mode := row.mode } else r
  else rows ++ [row]

/-- What a statement does; nothing where the server refuses it. -/
def perform (s : ProjectionState) : ProjectionSql → Option ProjectionState
  | .register row => some { s with rows := S.upsert row s.rows }
  | .addColumn ns _ column =>
    match s.columns ns with
    | none => none
    | some columns =>
      if columns.any fun other => decide (S.ident other.name = S.ident column.name) then none
      else some { s with columns := Function.update s.columns ns (some (columns ++ [column])) }
  | .grant ns _ | .backfill ns _ _ => if (s.columns ns).isSome then some s else none
  | .createTrigger trigger =>
    if (s.columns trigger.ns).isSome then
      some { s with triggers := (s.triggers.filter fun other =>
        !(decide (other.ns.db = trigger.ns.db) && decide (other.name = trigger.name))) ++
          [trigger] }
    else none

/-- Statements one after the other, up to the first that fails. -/
def runStatements : List ProjectionSql → (ℕ → Bool) → ProjectionState → ProjectionState
  | [], _, s => s
  | q :: qs, fault, s =>
    if fault 0 then s
    else
      match S.perform s q with
      | none => s
      | some s' => runStatements qs (fun k => fault (k + 1)) s'

/-- `chimera_add_projection`; the numbers of the statements that fail are given. -/
def addProjection (c : ProjectionCall) (fault : ℕ → Bool) (s : ProjectionState) : ProjectionState :=
  match c.check S with
  | .error _ => s
  | .ok mode => S.runStatements (.register (row c mode) :: S.definitions c mode) fault s

/-- One call. -/
def step (s : ProjectionState) (call : ProjectionCall × (ℕ → Bool)) : Option ProjectionState :=
  some (S.addProjection call.1 call.2 s)

/-! ## What a registration promises -/

/-- What stands behind a row: a column generated from the field, or a stored column with both
triggers of its own. -/
structure InForce (s : ProjectionState) (row : ProjectionRow) : Prop where
  /-- The column. -/
  column : ∃ columns, s.columns row.ns = some columns ∧ ∃ column ∈ columns,
    S.ident column.name = S.ident row.column ∧
      column.generated = if row.mode = .forward then some row.field else none
  /-- The triggers. -/
  triggers : row.mode = .bidirectional → ∀ event, ∃ trigger ∈ s.triggers, trigger.ns = row.ns ∧
    S.ident trigger.column = S.ident row.column ∧ trigger.field = row.field ∧
      trigger.event = event

/-- Every registered projection is in force. -/
def AllInForce (s : ProjectionState) : Prop := ∀ row ∈ s.rows, S.InForce s row

/-- The trigger belongs to the column that a call is about. -/
def Owns (c : ProjectionCall) (trigger : ProjectionTrigger) : Prop :=
  trigger.ns = c.table ∧ S.ident trigger.column = S.ident c.column

/-- A call leaves the triggers of others where they are. -/
def Spares (s : ProjectionState) (c : ProjectionCall) (s' : ProjectionState) : Prop :=
  ∀ trigger ∈ s.triggers, ¬ S.Owns c trigger → trigger ∈ s'.triggers

/-- The table is there without the column. -/
def Free (s : ProjectionState) (c : ProjectionCall) : Prop :=
  ∃ columns, s.columns c.table = some columns ∧
    ∀ column ∈ columns, S.ident column.name ≠ S.ident c.column

/-- The condition on a call that passes its checks and writes its row.  It completes, unless the
catalog has its row already; such a row says the same; and where it adds the column, the names of
its triggers are not those of triggers on another one. -/
structure Guard (s : ProjectionState) (call : ProjectionCall × (ℕ → Bool)) : Prop where
  /-- A projection that was not registered is added. -/
  completes : ∀ mode, call.1.check S = .ok mode → call.2 0 = false →
    s.rows.any (S.sameKey (row call.1 mode)) = false →
      S.Free s call.1 ∧ ∀ k ≤ (S.definitions call.1 mode).length, call.2 k = false
  /-- A registered projection is registered again as it was. -/
  again : ∀ mode, call.1.check S = .ok mode → call.2 0 = false →
    ∀ r ∈ s.rows, S.sameKey (row call.1 mode) r = true → r.field = call.1.field ∧ r.mode = mode
  /-- The names of the triggers are free, or belong to the column. -/
  names : call.1.check S = .ok .bidirectional → call.2 0 = false → S.Free s call.1 →
    ∀ trigger ∈ s.triggers, trigger.ns.db = call.1.table.db →
      (∃ event, trigger.name = S.triggerName call.1 event) → S.Owns call.1 trigger

/-! ## One statement -/

section Statements

variable {S} {s s' : ProjectionState} {q : ProjectionSql} {r : ProjectionRow}

/-- Definitions that are added to a table: rows stay, columns stay, and a trigger stays unless one
of its name is created. -/
structure Extends (s s' : ProjectionState) (replaced : ProjectionTrigger → Prop) : Prop where
  /-- The rows stay. -/
  rows : s'.rows = s.rows
  /-- The columns stay. -/
  columns : ∀ ns columns, s.columns ns = some columns → ∃ columns', s'.columns ns = some columns' ∧
    columns ⊆ columns'
  /-- The triggers stay. -/
  triggers : ∀ trigger ∈ s.triggers, ¬ replaced trigger → trigger ∈ s'.triggers

/-- Nothing is a definition of nothing. -/
lemma Extends.refl (s : ProjectionState) (replaced : ProjectionTrigger → Prop) :
    Extends s s replaced :=
  ⟨rfl, fun _ columns h => ⟨columns, h, List.Subset.refl columns⟩, fun _ h _ => h⟩

/-- Definitions one after the other. -/
lemma Extends.trans {t : ProjectionState} {replaced : ProjectionTrigger → Prop}
    (h : Extends s s' replaced) (h' : Extends s' t replaced) : Extends s t replaced := by
  refine ⟨h'.rows.trans h.rows, ?_, fun trigger hmem hnot =>
    h'.triggers trigger (h.triggers trigger hmem hnot) hnot⟩
  intro ns columns hcolumns
  obtain ⟨columns', hcolumns', hsub⟩ := h.columns ns columns hcolumns
  obtain ⟨columns'', hcolumns'', hsub'⟩ := h'.columns ns columns' hcolumns'
  exact ⟨columns'', hcolumns'', List.Subset.trans hsub hsub'⟩

/-- What is replaced may be more. -/
lemma Extends.mono {replaced replaced' : ProjectionTrigger → Prop} (h : Extends s s' replaced)
    (hsub : ∀ trigger, replaced trigger → replaced' trigger) : Extends s s' replaced' :=
  ⟨h.rows, h.columns, fun trigger hmem hnot => h.triggers trigger hmem fun hr =>
    hnot (hsub trigger hr)⟩

/-- A row stays in force when none of its triggers is replaced. -/
lemma InForce.extends {replaced : ProjectionTrigger → Prop} (hr : S.InForce s r)
    (h : Extends s s' replaced)
    (hkeep : ∀ trigger ∈ s.triggers, trigger.ns = r.ns →
      S.ident trigger.column = S.ident r.column → ¬ replaced trigger) : S.InForce s' r := by
  refine ⟨?_, fun hmode event => ?_⟩
  · obtain ⟨columns, hcolumns, column, hmem, hcolumn⟩ := hr.column
    obtain ⟨columns', hcolumns', hsub⟩ := h.columns _ _ hcolumns
    exact ⟨columns', hcolumns', column, hsub hmem, hcolumn⟩
  · obtain ⟨trigger, hmem, hns, hcolumn, hrest⟩ := hr.triggers hmode event
    exact ⟨trigger, h.triggers trigger hmem (hkeep trigger hmem hns hcolumn), hns, hcolumn, hrest⟩

/-- A statement that creates a trigger of this name in this database. -/
def ProjectionSql.replaces (trigger : ProjectionTrigger) : ProjectionSql → Prop
  | .createTrigger created => trigger.ns.db = created.ns.db ∧ trigger.name = created.name
  | _ => False

/-- A column is added to a table that is there and does not have it. -/
lemma perform_addColumn {ns : Namespace} {type : Text} {column : TableColumn} :
    S.perform s (.addColumn ns type column) = some s' ↔ ∃ columns, s.columns ns = some columns ∧
      (∀ other ∈ columns, S.ident other.name ≠ S.ident column.name) ∧
      s' = { s with columns := Function.update s.columns ns (some (columns ++ [column])) } := by
  rw [perform]
  cases hcolumns : s.columns ns with
  | none => simp
  | some columns =>
    dsimp only
    split
    · next hany =>
      refine iff_of_false (Option.some_ne_none _).symm ?_
      rintro ⟨columns', heq, hfree, -⟩
      obtain rfl := Option.some.inj heq
      obtain ⟨other, hmem, hother⟩ := List.any_eq_true.1 hany
      exact hfree other hmem (of_decide_eq_true hother)
    · next hany =>
      constructor
      · intro h
        refine ⟨columns, rfl, fun other hmem hother => hany ?_, (Option.some.inj h).symm⟩
        exact List.any_eq_true.2 ⟨other, hmem, decide_eq_true hother⟩
      · rintro ⟨columns', heq, -, rfl⟩
        obtain rfl := Option.some.inj heq
        rfl

/-- A trigger is created on a table that is there. -/
lemma perform_createTrigger {trigger : ProjectionTrigger} :
    S.perform s (.createTrigger trigger) = some s' ↔ (s.columns trigger.ns).isSome = true ∧
      s' = { s with triggers := (s.triggers.filter fun other =>
        !(decide (other.ns.db = trigger.ns.db) && decide (other.name = trigger.name))) ++
          [trigger] } := by
  rw [perform]
  split
  · next h => simp [h, eq_comm]
  · next h => simp [h]

/-- A grant and a backfill change nothing that is modelled. -/
lemma perform_eq_self {ns : Namespace} (h : S.perform s q = some s')
    (hq : (∃ column, q = .grant ns column) ∨ ∃ column field, q = .backfill ns column field) :
    s' = s := by
  rcases hq with ⟨column, rfl⟩ | ⟨column, field, rfl⟩
  all_goals
    rw [perform] at h
    split at h
    · exact (Option.some.inj h).symm
    · cases h

/-- A statement other than the first adds a definition. -/
lemma perform_extends (hq : ∀ row, q ≠ .register row) (h : S.perform s q = some s') :
    Extends s s' fun trigger => ProjectionSql.replaces trigger q := by
  cases q with
  | register row => exact absurd rfl (hq row)
  | addColumn ns type column =>
    obtain ⟨columns, hcolumns, -, rfl⟩ := perform_addColumn.1 h
    refine ⟨rfl, fun ns' columns' hcolumns' => ?_, fun _ hmem _ => hmem⟩
    by_cases hns : ns' = ns
    · subst hns
      obtain rfl := Option.some.inj (hcolumns.symm.trans hcolumns')
      exact ⟨columns ++ [column], Function.update_self .., List.subset_append_left _ _⟩
    · exact ⟨columns', (Function.update_of_ne hns _ _).trans hcolumns', List.Subset.refl _⟩
  | grant ns column =>
    obtain rfl := perform_eq_self h (.inl ⟨column, rfl⟩)
    exact .refl s' _
  | backfill ns column field =>
    obtain rfl := perform_eq_self h (.inr ⟨column, field, rfl⟩)
    exact .refl s' _
  | createTrigger trigger =>
    obtain ⟨-, rfl⟩ := perform_createTrigger.1 h
    refine ⟨rfl, fun _ columns h => ⟨columns, h, List.Subset.refl columns⟩, ?_⟩
    intro other hmem hnot
    refine List.mem_append_left _ (List.mem_filter.2 ⟨hmem, ?_⟩)
    simp only [Bool.not_eq_true', Bool.and_eq_false_iff, decide_eq_false_iff_not]
    exact not_and_or.1 hnot

/-- Statements other than the first add definitions. -/
lemma runStatements_extends {qs : List ProjectionSql} {fault : ℕ → Bool}
    (hqs : ∀ q ∈ qs, ∀ row, q ≠ .register row) :
    Extends s (S.runStatements qs fault s) fun trigger =>
      ∃ q ∈ qs, ProjectionSql.replaces trigger q := by
  induction qs generalizing s fault with
  | nil => exact .refl s _
  | cons q qs ih =>
    rw [runStatements]
    split
    · exact .refl s _
    · cases hperform : S.perform s q with
      | none => exact .refl s _
      | some s' =>
        have hfirst := perform_extends (hqs q List.mem_cons_self) hperform
        refine (hfirst.mono fun trigger h => ⟨q, List.mem_cons_self, h⟩).trans ?_
        refine (ih fun q' hq' => hqs q' (List.mem_cons_of_mem _ hq')).mono ?_
        rintro trigger ⟨q', hq', h⟩
        exact ⟨q', List.mem_cons_of_mem _ hq', h⟩

end Statements

/-! ## One call -/

section Calls

variable {S} {s s' : ProjectionState} {c : ProjectionCall} {mode : ProjectionMode}
  {fault : ℕ → Bool} {r : ProjectionRow}

/-- The row is written first, and by no later statement. -/
lemma definitions_ne_register : ∀ q ∈ S.definitions c mode, ∀ row, q ≠ .register row := by
  intro q hq row
  cases mode with
  | forward =>
    obtain rfl := List.mem_singleton.1 hq
    exact ProjectionSql.noConfusion
  | bidirectional =>
    simp only [definitions, List.mem_cons, List.not_mem_nil, or_false] at hq
    rcases hq with rfl | rfl | rfl | rfl | rfl <;> exact ProjectionSql.noConfusion

/-- A call replaces the triggers of its names, in its database. -/
lemma replaces_definitions {trigger : ProjectionTrigger}
    (h : ∃ q ∈ S.definitions c mode, ProjectionSql.replaces trigger q) :
    mode = .bidirectional ∧ trigger.ns.db = c.table.db ∧
      ∃ event, trigger.name = S.triggerName c event := by
  obtain ⟨q, hq, hreplaces⟩ := h
  cases mode with
  | forward =>
    obtain rfl := List.mem_singleton.1 hq
    cases hreplaces
  | bidirectional =>
    simp only [definitions, List.mem_cons, List.not_mem_nil, or_false] at hq
    rcases hq with rfl | rfl | rfl | rfl | rfl
    · cases hreplaces
    · cases hreplaces
    · cases hreplaces
    · exact ⟨rfl, hreplaces.1, .insert, hreplaces.2⟩
    · exact ⟨rfl, hreplaces.1, .update, hreplaces.2⟩

/-- The definitions of a call begin with the column. -/
lemma definitions_eq_cons : ∃ column rest, column.name = c.column ∧
    S.definitions c mode = .addColumn c.table c.type column :: rest := by
  cases mode with
  | forward => exact ⟨⟨c.column, some c.field⟩, [], rfl, rfl⟩
  | bidirectional => exact ⟨⟨c.column, none⟩, _, rfl, rfl⟩

/-- Where the column cannot be added, the definitions change nothing. -/
lemma runStatements_of_not_free (h : ¬ S.Free s c) :
    S.runStatements (S.definitions c mode) fault s = s := by
  obtain ⟨column, rest, hname, hdefinitions⟩ :
      ∃ column rest, column.name = c.column ∧
        S.definitions c mode = .addColumn c.table c.type column :: rest := definitions_eq_cons
  rw [hdefinitions, runStatements]
  split
  · rfl
  · cases hperform : S.perform s (.addColumn c.table c.type column) with
    | none => rfl
    | some s' =>
      obtain ⟨columns, hcolumns, hfree, -⟩ := perform_addColumn.1 hperform
      exact absurd ⟨columns, hcolumns, fun other hmem => hname ▸ hfree other hmem⟩ h

/-- A row stays in force when the names of the triggers are free where the column is. -/
lemma keeps_inForce (hr : S.InForce s r)
    (hnames : mode = .bidirectional → S.Free s c → ∀ trigger ∈ s.triggers,
      trigger.ns.db = c.table.db → (∃ event, trigger.name = S.triggerName c event) →
        S.Owns c trigger) :
    S.InForce (S.runStatements (S.definitions c mode) fault s) r := by
  by_cases hfree : S.Free s c
  · refine hr.extends (runStatements_extends definitions_ne_register) ?_
    intro trigger hmem hns hcolumn hreplaced
    obtain ⟨hmode, hdb, hname⟩ := replaces_definitions hreplaced
    obtain ⟨htable, hident⟩ := hnames hmode hfree trigger hmem hdb hname
    -- the row's own column would be in the way
    obtain ⟨columns, hcolumns, habsent⟩ := hfree
    obtain ⟨columns', hcolumns', column, hmem', heq, -⟩ := hr.column
    rw [← hns, htable, hcolumns] at hcolumns'
    obtain rfl := Option.some.inj hcolumns'
    exact habsent column hmem' (heq.trans (hcolumn.symm.trans hident))
  · rwa [runStatements_of_not_free hfree]

/-- The triggers of other columns stay. -/
lemma keeps_triggers
    (hnames : mode = .bidirectional → S.Free s c → ∀ trigger ∈ s.triggers,
      trigger.ns.db = c.table.db → (∃ event, trigger.name = S.triggerName c event) →
        S.Owns c trigger) :
    S.Spares s c (S.runStatements (S.definitions c mode) fault s) := by
  intro trigger hmem howns
  by_cases hfree : S.Free s c
  · refine (runStatements_extends definitions_ne_register).triggers trigger hmem fun hreplaced => ?_
    obtain ⟨hmode, hdb, hname⟩ := replaces_definitions hreplaced
    exact howns (hnames hmode hfree trigger hmem hdb hname)
  · rwa [runStatements_of_not_free hfree]

/-- A statement that is performed. -/
lemma runStatements_cons {q : ProjectionSql} {qs : List ProjectionSql} (hfault : fault 0 = false)
    (h : S.perform s q = some s') : S.runStatements (q :: qs) fault s =
      S.runStatements qs (fun k => fault (k + 1)) s' := by
  rw [runStatements, if_neg (by rw [hfault]; exact Bool.false_ne_true), h]

/-- The two triggers of a call have two names. -/
lemma triggerName_ne : S.triggerName c .insert ≠ S.triggerName c .update := by
  intro h
  have hprefix := (List.append_inj h (by decide)).1
  exact absurd hprefix (by decide)

/-- A trigger that is created is there, beside those of other names. -/
lemma create_ok (trigger : ProjectionTrigger) (h : (s.columns trigger.ns).isSome = true) :
    ∃ s', S.perform s (.createTrigger trigger) = some s' ∧ s'.columns = s.columns ∧
      trigger ∈ s'.triggers ∧
        ∀ other ∈ s.triggers, other.name ≠ trigger.name → other ∈ s'.triggers := by
  refine ⟨_, perform_createTrigger.2 ⟨h, rfl⟩, rfl,
    List.mem_append_right _ List.mem_cons_self, fun other hmem hne => ?_⟩
  refine List.mem_append_left _ (List.mem_filter.2 ⟨hmem, ?_⟩)
  rw [decide_eq_false hne, Bool.and_false]
  rfl

/-- Definitions that all succeed put the projection into force. -/
lemma runStatements_inForce (hfree : S.Free s c)
    (hfault : ∀ k < (S.definitions c mode).length, fault k = false) :
    S.InForce (S.runStatements (S.definitions c mode) fault s) (row c mode) := by
  obtain ⟨columns, hcolumns, habsent⟩ := hfree
  have hcolumn (column : TableColumn) (hname : column.name = c.column) :
      ∃ s₁, S.perform s (.addColumn c.table c.type column) = some s₁ ∧
        s₁.columns c.table = some (columns ++ [column]) :=
    ⟨_, perform_addColumn.2 ⟨columns, hcolumns, fun other h => hname ▸ habsent other h, rfl⟩,
      Function.update_self ..⟩
  cases mode with
  | forward =>
    obtain ⟨s₁, hadd, htable⟩ := hcolumn ⟨c.column, some c.field⟩ rfl
    rw [definitions, runStatements_cons (hfault 0 Nat.zero_lt_one) hadd]
    refine ⟨⟨_, htable, ⟨c.column, some c.field⟩,
      List.mem_append_right _ List.mem_cons_self, rfl, rfl⟩, ?_⟩
    intro h
    cases h
  | bidirectional =>
    obtain ⟨s₁, hadd, htable⟩ := hcolumn ⟨c.column, none⟩ rfl
    have hlength : (S.definitions c .bidirectional).length = 5 := rfl
    rw [hlength] at hfault
    have hsome : (s₁.columns c.table).isSome = true := by
      rw [htable]
      rfl
    have hgrant : S.perform s₁ (.grant c.table c.column) = some s₁ := by
      rw [perform, if_pos hsome]
    have hbackfill : S.perform s₁ (.backfill c.table c.column c.field) = some s₁ := by
      rw [perform, if_pos hsome]
    obtain ⟨s₂, hinsert, htable₂, hmem₂, -⟩ := create_ok (S := S) (S.trigger c .insert) hsome
    obtain ⟨s₃, hupdate, htable₃, hmem₃, hkeep⟩ :=
      create_ok (S := S) (S.trigger c .update) (htable₂ ▸ hsome : (s₂.columns _).isSome = true)
    rw [definitions, runStatements_cons (hfault 0 (by omega)) hadd,
      runStatements_cons (hfault 1 (by omega)) hgrant,
      runStatements_cons (hfault 2 (by omega)) hbackfill,
      runStatements_cons (hfault 3 (by omega)) hinsert,
      runStatements_cons (hfault 4 (by omega)) hupdate, runStatements]
    have hcolumns₃ : s₃.columns c.table = some (columns ++ [⟨c.column, none⟩]) := by
      rw [htable₃, htable₂, htable]
    refine ⟨⟨_, hcolumns₃, ⟨c.column, none⟩, List.mem_append_right _ List.mem_cons_self, rfl, rfl⟩,
      fun _ event => ⟨S.trigger c event, ?_, rfl, rfl, rfl, rfl⟩⟩
    cases event with
    | insert => exact hkeep _ hmem₂ triggerName_ne
    | update => exact hmem₃

/-- A row with a new key is added. -/
lemma upsert_of_absent {rows : List ProjectionRow} (h : rows.any (S.sameKey r) = false) :
    S.upsert r rows = rows ++ [r] := by
  rw [upsert, if_neg (by rw [h]; exact Bool.false_ne_true)]

/-- A row that says what is there changes nothing. -/
lemma upsert_of_again {rows : List ProjectionRow} (h : rows.any (S.sameKey r) = true)
    (hsame : ∀ r' ∈ rows, S.sameKey r r' = true → r'.field = r.field ∧ r'.mode = r.mode) :
    S.upsert r rows = rows := by
  rw [upsert, if_pos h]
  refine (List.map_congr_left fun r' hr' => ?_).trans (List.map_id rows)
  split
  · next hkey =>
    obtain ⟨hfield, hmode⟩ := hsame r' hr' hkey
    rw [← hfield, ← hmode]
    rfl
  · rfl

/-- A call that meets the condition keeps every registered projection in force, and the triggers of
other columns. -/
lemma addProjection_keeps (hall : S.AllInForce s) (hguard : S.Guard s (c, fault)) :
    S.AllInForce (S.addProjection c fault s) ∧ S.Spares s c (S.addProjection c fault s) := by
  unfold addProjection
  cases hcheck : c.check S with
  | error e => exact ⟨hall, fun trigger hmem _ => hmem⟩
  | ok mode =>
    dsimp only
    cases hfault : fault 0 with
    | true =>
      rw [runStatements, if_pos hfault]
      exact ⟨hall, fun trigger hmem _ => hmem⟩
    | false =>
      have hregister : S.perform s (.register (row c mode)) =
          some { s with rows := S.upsert (row c mode) s.rows } := rfl
      rw [runStatements_cons hfault hregister]
      have hnames (hmode : mode = .bidirectional) (hfree : S.Free s c) :
          ∀ trigger ∈ s.triggers, trigger.ns.db = c.table.db →
            (∃ event, trigger.name = S.triggerName c event) → S.Owns c trigger :=
        hguard.names (hmode ▸ hcheck) hfault hfree
      refine ⟨fun r hr => ?_,
        keeps_triggers (s := { s with rows := S.upsert (row c mode) s.rows }) hnames⟩
      rw [(runStatements_extends definitions_ne_register).rows] at hr
      have hkept (hr : r ∈ s.rows) : S.InForce (S.runStatements (S.definitions c mode)
          (fun k => fault (k + 1)) { s with rows := S.upsert (row c mode) s.rows }) r :=
        keeps_inForce ⟨(hall r hr).column, (hall r hr).triggers⟩ hnames
      cases hkey : s.rows.any (S.sameKey (row c mode)) with
      | true =>
        rw [upsert_of_again hkey (hguard.again mode hcheck hfault)] at hr
        exact hkept hr
      | false =>
        rw [upsert_of_absent hkey] at hr
        rcases List.mem_append.1 hr with hr | hr
        · exact hkept hr
        · obtain rfl := List.mem_singleton.1 hr
          obtain ⟨hfree, hfaults⟩ := hguard.completes mode hcheck hfault hkey
          exact runStatements_inForce hfree fun k hk => hfaults (k + 1) hk

end Calls

/-- **Registered projections stay in force.**  From a server without registered projections, in any
run of calls that meet the condition, each row corresponds to what is on its table, and a further
such call leaves the triggers of other columns where they are. -/
theorem projections_in_force {S : ProjectionServer} {s₀ s : ProjectionState}
    {calls : List (ProjectionCall × (ℕ → Bool))} (hempty : s₀.rows = [])
    (h : Run S.step S.Guard s₀ calls s) :
    S.AllInForce s ∧ ∀ call s', S.Guard s call → S.step s call = some s' →
      S.Spares s call.1 s' := by
  have hall : S.AllInForce s := by
    refine h.invariant (fun s call s' hs hguard hstep => ?_) ?_
    · obtain rfl := Option.some.inj hstep
      exact (addProjection_keeps hs hguard).1
    · intro r hr
      rw [hempty] at hr
      cases hr
  refine ⟨hall, fun call s' hguard hstep => ?_⟩
  obtain rfl := Option.some.inj hstep
  exact (addProjection_keeps hall hguard).2

end ProjectionServer

section Orders

open ProjectionServer

/-- A server whose digest is the one of `shop.orders`. -/
def orderServer : ProjectionServer where
  fold := fun s => s.map Char.toLower
  ident := fun s => s.map Char.toLower
  md5 := fun _ => "bff19b526d4d7e5b8734eb99585e7d95".toList

/-- The collection `orders` of the database `shop`, without projections. -/
def ordersUnprojected : ProjectionState where
  rows := []
  columns := fun ns => if ns = ⟨"shop".toList, "orders".toList⟩ then some [⟨"doc".toList, none⟩]
    else none
  triggers := []

/-- A projection of a field of `shop.orders` to a column of text. -/
def orderProjection (field column : String) (mode : String) : ProjectionCall :=
  ⟨"shop.orders".toList, field.toList, column.toList, "VARCHAR(64)".toList, mode.toList⟩

/-- A line of an address is registered. -/
def addressLine (n : String) : ProjectionCall :=
  orderProjection ("line" ++ n) ("customer_address_line" ++ n) "bidirectional"

/-- The two lines of an address are registered, and every statement succeeds. -/
def addressesProjected : ProjectionState :=
  orderServer.addProjection (addressLine "2") (fun _ => false)
    (orderServer.addProjection (addressLine "1") (fun _ => false) ordersUnprojected)

/-- A call whose row and triggers are new meets the condition. -/
lemma guard_of_new {s : ProjectionState} {c : ProjectionCall} (columns : List TableColumn)
    (hcolumns : s.columns c.table = some columns)
    (hfree : ∀ column ∈ columns, orderServer.ident column.name ≠ orderServer.ident c.column)
    (hrows : ∀ r ∈ s.rows, orderServer.fold r.column ≠ orderServer.fold c.column)
    (htriggers : s.triggers = []) : orderServer.Guard s (c, fun _ => false) := by
  refine ⟨fun _ _ _ _ => ⟨⟨columns, hcolumns, hfree⟩, fun _ _ => rfl⟩, ?_, ?_⟩
  · intro mode _ _ r hr hkey
    simp only [sameKey, Bool.and_eq_true, decide_eq_true_eq] at hkey
    exact absurd hkey.2.symm (hrows r hr)
  · intro _ _ _ trigger hmem
    rw [htriggers] at hmem
    cases hmem

/-- A column of each mode is added to the orders. -/
theorem projections_in_force_city :
    orderServer.AllInForce (orderServer.addProjection
      (orderProjection "city" "city" "bidirectional") (fun _ => false)
        (orderServer.addProjection (orderProjection "zip" "zip" "forward") (fun _ => false)
          ordersUnprojected)) := by
  have hzip : orderServer.Guard ordersUnprojected
      (orderProjection "zip" "zip" "forward", fun _ => false) := by
    refine guard_of_new [⟨"doc".toList, none⟩] rfl ?_ ?_ rfl
    · decide
    · decide
  have hcity : orderServer.Guard (orderServer.addProjection (orderProjection "zip" "zip" "forward")
      (fun _ => false) ordersUnprojected)
      (orderProjection "city" "city" "bidirectional", fun _ => false) := by
    refine guard_of_new [⟨"doc".toList, none⟩, ⟨"zip".toList, some "zip".toList⟩] rfl ?_ ?_ rfl
    · decide
    · decide
  have hempty : ordersUnprojected.rows = [] := rfl
  exact (projections_in_force hempty (.cons hzip rfl (.cons hcity rfl (.nil _)))).1

/-- The triggers of the second line are the ones that are left. -/
lemma triggers_addressesProjected : addressesProjected.triggers =
    [orderServer.trigger (addressLine "2") .insert,
      orderServer.trigger (addressLine "2") .update] := by
  decide +kernel

/-- The row of the first line is there. -/
lemma line1_mem_rows : ProjectionServer.row (addressLine "1") .bidirectional ∈
    addressesProjected.rows := by
  decide +kernel

/-- The lines of an address are two columns. -/
lemma addressLine_column_ne :
    orderServer.ident (addressLine "1").column ≠ orderServer.ident (addressLine "2").column := by
  decide +kernel

/-- A trigger that is left is not about the first line. -/
lemma column_ne_of_mem {trigger : ProjectionTrigger} (h : trigger ∈ addressesProjected.triggers) :
    orderServer.ident trigger.column ≠ orderServer.ident (addressLine "1").column := by
  rw [triggers_addressesProjected] at h
  simp only [List.mem_cons, List.not_mem_nil, or_false] at h
  rcases h with rfl | rfl
  · exact addressLine_column_ne.symm
  · exact addressLine_column_ne.symm

/-- The first line has its triggers at first. -/
lemma trigger_mem : orderServer.trigger (addressLine "1") .insert ∈
    (orderServer.addProjection (addressLine "1") (fun _ => false) ordersUnprojected).triggers := by
  decide +kernel

/-- The second of two columns that begin with the same twenty characters takes the triggers of the
first.  And a row is left behind where the table is not there. -/
theorem registered_not_in_force :
    (Steps orderServer.step ordersUnprojected
        [(addressLine "1", fun _ => false), (addressLine "2", fun _ => false)] addressesProjected ∧
      ¬ orderServer.AllInForce addressesProjected ∧
      ¬ orderServer.Spares (orderServer.addProjection (addressLine "1") (fun _ => false)
        ordersUnprojected) (addressLine "2") addressesProjected) ∧
    ∃ s, Steps orderServer.step { ordersUnprojected with columns := fun _ => none }
      [(orderProjection "city" "city" "forward", fun _ => false)] s ∧
        ¬ orderServer.AllInForce s := by
  refine ⟨⟨.cons trivial rfl (.cons trivial rfl (.nil _)), fun h => ?_, fun h => ?_⟩,
    _, .cons trivial rfl (.nil _), fun h => ?_⟩
  · obtain ⟨trigger, hmem, -, hcolumn, -⟩ := (h _ line1_mem_rows).triggers rfl .insert
    exact column_ne_of_mem hmem hcolumn
  · have hmem := h _ trigger_mem fun howns => addressLine_column_ne howns.2
    exact column_ne_of_mem hmem rfl
  · obtain ⟨columns, hcolumns, -⟩ := (h _ List.mem_cons_self).column
    cases hcolumns

end Orders

end Chimera
