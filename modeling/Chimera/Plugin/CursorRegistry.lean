import Chimera.Foundations.Binary64Exact
import Chimera.Oplog.Event
import Chimera.Plugin.Namespace
import Chimera.Translator.FilterSemantics
import Mathlib.Logic.Function.Basic

/-!
# Buffered cursors

A find on an ordinary collection runs to completion.  What does not fit into its first batch
waits in a registry, under a number and the text of the namespace, and `getMore` takes batches
from it.  The SQL gateway follows a cursor to its end, since its caller could not.
-/

namespace Chimera

/-! ## The registry -/

/-- A number that no cursor has, or a cursor of another namespace. -/
def cursorNotFound (message : Text) : TranslatorError := ⟨43, "CursorNotFound".toList, message⟩

/-- `CursorRegistry::Entry`, for a cursor that does not tail. -/
structure CursorEntry where
  /-- The text of the namespace it was opened on. -/
  ns : Text
  /-- The documents that are still to come. -/
  remaining : List Doc
  /-- When it was last used. -/
  lastUsed : ℤ

/-- `CursorRegistry`. -/
structure CursorRegistry where
  /-- The open cursors. -/
  cursors : ℤ → Option CursorEntry
  /-- The number of the next cursor. -/
  nextId : ℤ
  /-- Numbers are not given twice. -/
  fresh : ∀ id, nextId ≤ id → cursors id = none

/-- `kIdleTimeoutSeconds`. -/
def idleTimeoutSeconds : ℤ := 600

/-- Keep the cursors that pass a test. -/
def CursorRegistry.keep (R : CursorRegistry) (p : ℤ → CursorEntry → Bool) : CursorRegistry where
  cursors id := (R.cursors id).filter (p id)
  nextId := R.nextId
  fresh id h := by rw [R.fresh id h, Option.filter_none]

/-- `expire_idle`. -/
def CursorRegistry.expireIdle (R : CursorRegistry) (now : ℤ) : CursorRegistry :=
  R.keep fun _ entry => !decide (entry.lastUsed < now - idleTimeoutSeconds)

/-- Register a cursor under the next number. -/
def CursorRegistry.register (R : CursorRegistry) (entry : CursorEntry) : CursorRegistry where
  cursors := Function.update R.cursors R.nextId (some entry)
  nextId := R.nextId + 1
  fresh id h := by
    have hne : id ≠ R.nextId := by omega
    rw [Function.update_of_ne hne]
    exact R.fresh id (by omega)

/-- `open`: the cursor's number, or zero when nothing is left over. -/
def CursorRegistry.openCursor (R : CursorRegistry) (now : ℤ) (ns : Text) (remaining : List Doc) :
    ℤ × CursorRegistry :=
  if remaining.isEmpty then (0, R)
  else (R.nextId, (R.expireIdle now).register ⟨ns, remaining, now⟩)

/-- Put back what is left of a cursor, or erase it. -/
def CursorRegistry.replace (R : CursorRegistry) (id : ℤ) (h : R.cursors id ≠ none)
    (entry : Option CursorEntry) : CursorRegistry where
  cursors := Function.update R.cursors id entry
  nextId := R.nextId
  fresh other hother := by
    have hne : other ≠ id := fun heq => h (heq ▸ R.fresh other hother)
    rw [Function.update_of_ne hne]
    exact R.fresh other hother

/-- `next_batch`: a batch, whether the cursor is exhausted, and the registry. -/
def CursorRegistry.nextBatch (R : CursorRegistry) (now id : ℤ) (ns : Text) (batchSize : ℤ) :
    Except TranslatorError (List Doc × Bool × CursorRegistry) :=
  match h : R.cursors id with
  | none => .error (cursorNotFound ("cursor id ".toList ++ integerText id ++
      " not found".toList))
  | some entry =>
    if entry.ns ≠ ns then
      .error (cursorNotFound ("cursor id ".toList ++ integerText id ++ " is not on ".toList ++ ns))
    else
      let wanted := if 0 < batchSize then batchSize.toNat else entry.remaining.length
      let rest := entry.remaining.drop wanted
      let left :=
        if rest.isEmpty then none else some { entry with remaining := rest, lastUsed := now }
      .ok (entry.remaining.take wanted, rest.isEmpty, R.replace id (by simp [h]) left)

/-- How many documents a batch of an entry takes. -/
def CursorEntry.wanted (entry : CursorEntry) (batchSize : ℤ) : ℕ :=
  if 0 < batchSize then batchSize.toNat else entry.remaining.length

/-- A batch of a cursor that is there. -/
lemma CursorRegistry.nextBatch_run {R : CursorRegistry} {id : ℤ} {ns : Text} {entry : CursorEntry}
    (hentry : R.cursors id = some entry) (hns : entry.ns = ns) (now n : ℤ) :
    ∃ R', R.nextBatch now id ns n = .ok (entry.remaining.take (entry.wanted n),
        (entry.remaining.drop (entry.wanted n)).isEmpty, R') ∧
      R'.nextId = R.nextId ∧ R'.cursors = Function.update R.cursors id
        (if (entry.remaining.drop (entry.wanted n)).isEmpty then none
          else some { entry with
            remaining := entry.remaining.drop (entry.wanted n), lastUsed := now }) := by
  unfold CursorRegistry.nextBatch
  split
  · rename_i hnone
    cases hnone.symm.trans hentry
  · rename_i entry' hentry'
    obtain rfl : entry' = entry := Option.some.inj (hentry'.symm.trans hentry)
    rw [if_neg (not_not.2 hns)]
    exact ⟨_, rfl, rfl, rfl⟩

/-- There is no batch without a cursor of that number on that namespace. -/
lemma CursorRegistry.nextBatch_refuses {R : CursorRegistry} {id : ℤ} {ns : Text}
    (h : ∀ entry, R.cursors id = some entry → entry.ns ≠ ns) (now n : ℤ) :
    ∃ message, R.nextBatch now id ns n = .error (cursorNotFound message) := by
  unfold CursorRegistry.nextBatch
  split
  · exact ⟨_, rfl⟩
  · rename_i entry hentry
    rw [if_pos (h entry hentry)]
    exact ⟨_, rfl⟩

/-- `kill`, and whether there was such a cursor. -/
def CursorRegistry.kill (R : CursorRegistry) (id : ℤ) : Bool × CursorRegistry :=
  ((R.cursors id).isSome, R.keep fun other _ => !decide (other = id))

/-! ## Replies -/

/-- The part of `cursor_reply` that drivers read. -/
structure CursorReply where
  /-- The number of the cursor, zero when there is nothing more. -/
  id : ℤ
  /-- The text of the namespace. -/
  ns : Text
  /-- `firstBatch` or `nextBatch`. -/
  batch : List Doc

/-- `kDefaultBatchSize`. -/
def defaultBatchSize : ℤ := 101

/-- The reply of `cmd_find`, once its documents are there. -/
def findReply (R : CursorRegistry) (now : ℤ) (ns : Namespace) (documents : List Doc)
    (batchSize : ℤ) (singleBatch : Bool) : CursorReply × CursorRegistry :=
  let take := min documents.length (if batchSize < 0 then 0 else batchSize.toNat)
  let first := documents.take take
  if singleBatch then (⟨0, ns.text, first⟩, R)
  else
    let opened := R.openCursor now ns.text (documents.drop take)
    (⟨opened.1, ns.text, first⟩, opened.2)

/-- `cmd_get_more`, for a cursor that does not tail.  Its number goes through a double. -/
def getMore (R : CursorRegistry) (now : ℤ) (db collection : Text) (id : Value) (batchSize : ℤ) :
    Except TranslatorError (CursorReply × CursorRegistry) :=
  if !valueIsNumeric id then
    .error (typeMismatch "getMore requires the cursor id as a 64-bit integer".toList)
  else do
    let cursorId := id.toDouble.truncate
    let ns ← parseNamespace db collection
    let (batch, exhausted, R') ← R.nextBatch now cursorId ns.text batchSize
    return (⟨if exhausted then 0 else cursorId, ns.text, batch⟩, R')

/-- The first `fuel` rounds of the gateway's `collect_cursor`, which asks for batches until the
cursor is exhausted. -/
def collectCursor (db : Text) (now : ℤ) :
    ℕ → CursorReply × CursorRegistry → Option (Except TranslatorError (List Doc))
  | 0, _ => none
  | fuel + 1, (reply, R) =>
    if reply.id = 0 then some (.ok reply.batch)
    else
      match getMore R now db (collectionOf reply.ns) (.int64 (Int64.ofInt reply.id))
        defaultBatchSize with
      | .error e => some (.error e)
      | .ok next => (collectCursor db now fuel next).map fun result =>
        result.map fun documents => reply.batch ++ documents

end Chimera
