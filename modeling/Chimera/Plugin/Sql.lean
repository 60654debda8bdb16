import Chimera.Foundations.Interaction
import Chimera.Plugin.Namespace
import Chimera.Translator.FilterSemantics

/-!
# Collection tables in SQL

The statements that the plugin sends to the server about collection tables, and what they do.
A row of a collection is its primary key and its document.  The tables of all collections are
kept in one list, in the order in which a scan of a primary key meets the rows of a table.
-/

namespace Chimera

/-- A row of a collection table. -/
structure Row where
  /-- The table. -/
  ns : Namespace
  /-- The primary key. -/
  key : Text
  /-- The stored document. -/
  doc : Json
deriving DecidableEq

/-- What identifies a row: its table and its primary key. -/
def Row.slot (row : Row) : Namespace × Text := (row.ns, row.key)

/-- The statements about collection tables. -/
inductive Request where
  /-- A look into `information_schema.TABLES`. -/
  | tableExists (ns : Namespace)
  /-- `SELECT … WHERE cond`, with `LIMIT` where there is a limit. -/
  | select (ns : Namespace) (cond : Cond) (limit : Option ℕ)
  /-- `INSERT`. -/
  | insert (row : Row)
  /-- `UPDATE … SET doc = … WHERE _id = …`. -/
  | replace (row : Row)
  /-- `DELETE … WHERE _id = …`. -/
  | delete (ns : Namespace) (key : Text)
  /-- `DELETE … WHERE cond`. -/
  | deleteWhere (ns : Namespace) (cond : Cond)

/-- What the plugin reads back from a statement. -/
def Request.Answer : Request → Type
  | .tableExists _ => Bool
  | .select _ _ _ => List Row
  | .insert _ | .replace _ => Unit
  | .delete _ _ | .deleteWhere _ _ => ℕ

/-- A part of the plugin that talks to the server. -/
abbrev SqlProgram := Interaction TranslatorError Request Request.Answer

/-- The server, as the collection tables are concerned. -/
structure SqlServer where
  /-- How it evaluates conditions. -/
  M : MariaDB
  /-- Which tables exist. -/
  present : Namespace → Bool
  /-- The text of the error that a statement fails with. -/
  detail : Request → Text

/-- The longest primary key: `VARBINARY(255)`. -/
def keyLimit : ℕ := 255

/-- The row is in the given slot. -/
def Row.isAt (slot : Namespace × Text) (row : Row) : Bool := decide (row.slot = slot)

/-- The row belongs to the table and meets the condition.  For plain names this is what the text of
the condition says (`truth_text`). -/
def SqlServer.matches (S : SqlServer) (ns : Namespace) (cond : Cond) (row : Row) : Bool :=
  decide (row.ns = ns) && decide (cond.eval S.M row.doc = some true)

/-- Put a row in front of the first row with a greater key. -/
def insertRow (row : Row) : List Row → List Row
  | [] => [row]
  | r :: rows => if row.key < r.key then row :: r :: rows else r :: insertRow row rows

/-- Replace the document of the row in a slot. -/
def replaceRow (row : Row) (rows : List Row) : List Row :=
  rows.map fun r => if r.slot = row.slot then { r with doc := row.doc } else r

/-- Remove the row in a slot. -/
def deleteRow (slot : Namespace × Text) (rows : List Row) : List Row :=
  rows.filter fun r => !r.isAt slot

/-- The namespace a statement is about. -/
def Request.ns : Request → Namespace
  | .tableExists ns | .select ns _ _ | .delete ns _ | .deleteWhere ns _ => ns
  | .insert row | .replace row => row.ns

/-- The statement reads. -/
def Request.isRead : Request → Bool
  | .tableExists _ | .select _ _ _ => true
  | _ => false

/-- What a statement on an existing table does. -/
def SqlServer.perform (S : SqlServer) : (q : Request) → List Row →
    Except TranslatorError (q.Answer × List Row)
  | .tableExists ns, rows => .ok (S.present ns, rows)
  | .select ns cond limit, rows =>
    if cond.wellFormed then
      let found := rows.filter (S.matches ns cond)
      .ok (limit.elim found found.take, rows)
    else .error (internalError (S.detail (.select ns cond limit)))
  | .insert row, rows =>
    if keyLimit < row.key.length then .error (internalError (S.detail (.insert row)))
    else if rows.any (Row.isAt row.slot) then .error (duplicateKey (S.detail (.insert row)))
    else .ok ((), insertRow row rows)
  | .replace row, rows => .ok ((), replaceRow row rows)
  | .delete ns key, rows => .ok (rows.countP (Row.isAt (ns, key)), deleteRow (ns, key) rows)
  | .deleteWhere ns cond, rows =>
    if cond.wellFormed then
      .ok (rows.countP (S.matches ns cond), rows.filter fun row => !S.matches ns cond row)
    else .error (internalError (S.detail (.deleteWhere ns cond)))

/-- The statement looks at a table that is not there. -/
def SqlServer.misses (S : SqlServer) : Request → Bool
  | .tableExists _ => false
  | q => !S.present q.ns

/-- The server as a handler of statements. -/
def SqlServer.handler (S : SqlServer) :
    Interaction.Handler TranslatorError Request Request.Answer (List Row) := fun q rows =>
  if S.misses q then .error (namespaceNotFound (S.detail q)) else S.perform q rows

/-- A server on which every table is there. -/
def SqlServer.ofStrings : SqlServer := ⟨.ofStrings, fun _ => true, fun _ => []⟩

/-! ## Slots -/

/-- The slots of a list of rows. -/
def slots (rows : List Row) : List (Namespace × Text) := rows.map Row.slot

/-- A row is in its slot. -/
@[simp] lemma Row.isAt_iff {slot : Namespace × Text} {row : Row} :
    row.isAt slot = true ↔ row.slot = slot := by
  simp [Row.isAt]

/-- Inserting a row adds it. -/
lemma insertRow_perm (row : Row) (rows : List Row) : (insertRow row rows).Perm (row :: rows) := by
  induction rows with
  | nil => exact .refl _
  | cons r rows ih =>
    unfold insertRow
    split
    · exact .refl _
    · exact (List.Perm.cons r ih).trans (List.Perm.swap row r rows)

/-- Replacing a document moves no row. -/
lemma slots_replaceRow (row : Row) (rows : List Row) :
    slots (replaceRow row rows) = slots rows := by
  simp only [slots, replaceRow, List.map_map]
  refine List.map_congr_left fun r _ => ?_
  simp only [Function.comp_apply]
  split <;> rfl

/-- The rows after a document was replaced. -/
lemma mem_replaceRow {row r : Row} {rows : List Row} (h : r ∈ replaceRow row rows) :
    (r ∈ rows ∧ r.slot ≠ row.slot) ∨ (r = row ∧ row.slot ∈ slots rows) := by
  obtain ⟨r₀, hr₀, hr⟩ := List.mem_map.1 h
  by_cases hslot : r₀.slot = row.slot
  · refine .inr ⟨?_, hslot ▸ List.mem_map_of_mem hr₀⟩
    rw [if_pos hslot] at hr
    subst hr
    obtain ⟨hns, hkey⟩ := Prod.mk.inj hslot
    cases r₀
    cases row
    simp_all
  · rw [if_neg hslot] at hr
    exact .inl ⟨hr ▸ hr₀, hr ▸ hslot⟩

/-- Replacing a document leaves the other rows alone. -/
lemma mem_replaceRow_of_ne {row r : Row} {rows : List Row} (hr : r ∈ rows)
    (hne : r.slot ≠ row.slot) : r ∈ replaceRow row rows :=
  List.mem_map.2 ⟨r, hr, if_neg hne⟩

/-- Some row of the list is in a slot. -/
lemma any_isAt {slot : Namespace × Text} {rows : List Row} :
    rows.any (Row.isAt slot) = true ↔ slot ∈ slots rows := by
  simp [slots, List.any_eq_true, List.mem_map]

end Chimera
