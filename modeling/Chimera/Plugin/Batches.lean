import Chimera.Plugin.WriteCommands

/-!
# Commands that write in batches

`insert`, `update` and `delete` have one shape: they open the collection, run the elements of an
array one after the other, and reply with what the elements did.  What the elements are, and what
the reply counts, is what tells the three apart.
-/

namespace Chimera

open Interaction

/-- The commands that write in batches. -/
inductive BatchKind where
  | insert
  | update
  | delete
deriving DecidableEq

namespace BatchKind

/-- The handler. -/
def handler : BatchKind → Ctx → WireProgram Doc
  | .insert => cmdInsert
  | .update => cmdUpdate
  | .delete => cmdDelete

/-- The name of the command. -/
def name : BatchKind → Text
  | .insert => "insert".toList
  | .update => "update".toList
  | .delete => "delete".toList

/-- The field of the command that holds the elements. -/
def field : BatchKind → Text
  | .insert => "documents".toList
  | .update => "updates".toList
  | .delete => "deletes".toList

/-- An element. -/
def element (ctx : Ctx) : BatchKind → ℕ → Value → Except TranslatorError WriteCommand
  | .insert, i => insertElement (ctx.oids i)
  | .update, i => updateElement (ctx.oids i)
  | .delete, _ => deleteElement

/-- The elements of the command. -/
def elements (kind : BatchKind) (ctx : Ctx) (fields : Doc) :
    List (ℕ × Except TranslatorError WriteCommand) :=
  elementsOf (kind.element ctx) fields

/-- What comes before the elements, and whether they are run. -/
def opening (ns : Namespace) : BatchKind → WireProgram Bool
  | .insert | .update => do
    createCollection ns false
    return true
  | .delete => onCollection (askExists ns)

/-- The fields of the reply between the errors and the time. -/
def counts (b : Batch) : BatchKind → Doc
  | .insert => [("n".toList, int32Field b.outcomes.length), ("ok".toList, .double okDouble)]
  | .update =>
    let matched := (b.outcomes.map fun (_, outcome) => outcome.matched).sum
    let modified := (b.outcomes.map fun (_, outcome) => outcome.modifiedCount).sum
    let upserted := b.outcomes.filterMap fun (i, outcome) => outcome.upserted.map fun id => (i, id)
    [("n".toList, int32Field (matched + upserted.length)),
      ("nModified".toList, int32Field modified)] ++
      upsertedField upserted ++ [("ok".toList, .double okDouble)]
  | .delete =>
    let removed := (b.outcomes.map fun (_, outcome) => outcome.removedCount).sum
    [("n".toList, int32Field removed), ("ok".toList, .double okDouble)]

/-- The reply. -/
def reply (kind : BatchKind) (b : Batch) (time : Doc) : Doc :=
  writeErrorsField b.errors ++ kind.counts b ++ time

/-- The counts of a reply are in fields of their own, but for `ok`. -/
lemma findField_counts (kind : BatchKind) (b : Batch) :
    findField (kind.counts b) "ok".toList = some (.double okDouble) ∧
      findField (kind.counts b) "writeErrors".toList = none := by
  cases kind with
  | insert => exact ⟨rfl, rfl⟩
  | delete => exact ⟨rfl, rfl⟩
  | update =>
    simp only [counts, findField_append]
    rw [findField_upsertedField (by decide), findField_upsertedField (by decide)]
    exact ⟨rfl, rfl⟩

/-- Nor is the time one of the counts. -/
lemma findField_counts_time (kind : BatchKind) (b : Batch) :
    findField (kind.counts b) "operationTime".toList = none := by
  cases kind with
  | insert => rfl
  | delete => rfl
  | update =>
    simp only [counts, findField_append]
    rw [findField_upsertedField (by decide)]
    rfl

/-- The elements, when they are run. -/
def batch (kind : BatchKind) (ctx : Ctx) (ns : Namespace) (fields : Doc) (there : Bool) :
    WireProgram Batch :=
  if there then
    runBatch ctx.L ns (flag ctx.body "ordered".toList true) (kind.elements ctx fields) .empty
  else pure .empty

/-- Which batch command a document is, and the fields of its array of elements. -/
def ofCommand (body : Doc) : Option (BatchKind × Doc) :=
  match body with
  | [] => none
  | (command, _) :: _ =>
    match [BatchKind.insert, .update, .delete].find? fun kind => kind.name = command with
    | none => none
    | some kind =>
      match findField body kind.field with
      | some (.array fields) => some (kind, fields)
      | _ => none

/-- **The shape of a batch command.** -/
theorem handler_eq (kind : BatchKind) {ctx : Ctx} {fields : Doc}
    (hfield : findField ctx.body kind.field = some (.array fields)) :
    kind.handler ctx = do
      let ns ← ofExcept ctx.ns
      let there ← kind.opening ns
      let b ← kind.batch ctx ns fields there
      let time ← operationTimeField b.stamp
      return kind.reply b time := by
  cases kind with
  | insert =>
    have hdocuments : findField ctx.body "documents".toList = some (.array fields) := hfield
    change cmdInsert ctx = _
    unfold cmdInsert
    rw [hdocuments]
    refine congrArg (Interaction.bind _) (funext fun ns => ?_)
    have hopening : opening ns .insert = createCollection ns false >>= fun _ => pure true := rfl
    rw [hopening, bind_bind]
    rfl
  | update =>
    have hupdates : findField ctx.body "updates".toList = some (.array fields) := hfield
    change cmdUpdate ctx = _
    unfold cmdUpdate
    rw [hupdates]
    refine congrArg (Interaction.bind _) (funext fun ns => ?_)
    have hopening : opening ns .update = createCollection ns false >>= fun _ => pure true := rfl
    rw [hopening, bind_bind]
    simp only [reply, counts, List.append_assoc]
    rfl
  | delete =>
    have hdeletes : findField ctx.body "deletes".toList = some (.array fields) := hfield
    change cmdDelete ctx = _
    unfold cmdDelete
    rw [hdeletes]
    refine congrArg (Interaction.bind _) (funext fun ns => ?_)
    refine congrArg (Interaction.bind _) (funext fun there => ?_)
    cases there with
    | true => rfl
    | false => rfl

/-- Without an array of elements the command fails at once. -/
lemma handler_eq_fail (kind : BatchKind) {ctx : Ctx}
    (hfield : ∀ fields, findField ctx.body kind.field ≠ some (.array fields)) :
    ∃ e, kind.handler ctx = .fail e := by
  cases kind with
  | insert =>
    change ∃ e, cmdInsert ctx = .fail e
    unfold cmdInsert
    split
    · exact absurd ‹_› (hfield _)
    · exact ⟨_, rfl⟩
  | update =>
    change ∃ e, cmdUpdate ctx = .fail e
    unfold cmdUpdate
    split
    · exact absurd ‹_› (hfield _)
    · exact ⟨_, rfl⟩
  | delete =>
    change ∃ e, cmdDelete ctx = .fail e
    unfold cmdDelete
    split
    · exact absurd ‹_› (hfield _)
    · exact ⟨_, rfl⟩

end BatchKind

/-! ## Which elements fail -/

/-- A server that answers every question. -/
abbrev WireServer (S : Type) := (q : Question) → S → q.Answer × S

section Elements

variable {S : Type}

/-- A statement that can only have one result succeeds with it or fails. -/
lemma serve_sql (server : WireServer S) (q : Sql) {u : q.Result} (hu : ∀ v, v = u) (s : S) :
    ∃ t, (sql q).serve server s = (.ok u, t) ∨ ∃ e, (sql q).serve server s = (.error e, t) := by
  rcases (sql q).serve server s with ⟨e | v, t⟩
  · exact ⟨t, .inr ⟨e, rfl⟩⟩
  · exact ⟨t, .inl (by rw [hu v])⟩

/-- An element always ends, and what was captured before it makes no difference to how. -/
lemma serve_runAtomically {α : Type} (server : WireServer S) (body : WireProgram α) (s : S) :
    ∃ result t, ∀ stamp, ∃ stamp',
      (runAtomically body stamp).serve server s = (.ok (result, stamp'), t) := by
  unfold runAtomically
  simp only [serve_attempt_bind]
  obtain ⟨t₁, hbegun | ⟨e, hfailed⟩⟩ :=
    serve_sql server .startTransaction (u := ()) (fun _ => rfl) s
  · rw [hbegun]
    simp only [serve_attempt_bind]
    rcases (do return (← body, ← currentOperationTime) : WireProgram (α × Stamp)).serve server t₁
      with ⟨e | ⟨a, now⟩, t₂⟩
    · simp only [serve_attempt_bind]
      obtain ⟨t₃, hback | ⟨e', hback⟩⟩ := serve_sql server .rollback (u := ()) (fun _ => rfl) t₂
      · rw [hback]
        exact ⟨.error e, t₃, fun stamp => ⟨stamp, rfl⟩⟩
      · rw [hback]
        exact ⟨.error e', t₃, fun stamp => ⟨stamp, rfl⟩⟩
    · simp only [serve_attempt_bind]
      obtain ⟨t₃, hdone | ⟨e, hdone⟩⟩ := serve_sql server .commit (u := ()) (fun _ => rfl) t₂
      · rw [hdone]
        exact ⟨.ok a, t₃, fun _ => ⟨some now, rfl⟩⟩
      · rw [hdone]
        exact ⟨.error e, t₃, fun _ => ⟨some now, rfl⟩⟩
  · rw [hfailed]
    exact ⟨.error e, t₁, fun stamp => ⟨stamp, rfl⟩⟩

/-- Every element succeeds, one after the other. -/
def EverySucceeds (server : WireServer S) (L : Libbson) (ns : Namespace) :
    List (ℕ × Except TranslatorError WriteCommand) → S → Prop
  | [], _ => True
  | (_, .error _) :: _, _ => False
  | (_, .ok c) :: elements, s =>
    match (runAtomically (onCollection (c.body L ns)) none).serve server s with
    | (.ok (.ok _, _), t) => EverySucceeds server L ns elements t
    | _ => False

/-- A batch whose first write succeeds goes on with its outcome. -/
lemma serve_runBatch_ok {server : WireServer S} {L : Libbson} {ns : Namespace} (ordered : Bool)
    {c : WriteCommand} {b : Batch} {s t : S} {outcome : WriteOutcome} {stamp : Option Stamp}
    (i : ℕ) (elements : List (ℕ × Except TranslatorError WriteCommand))
    (h : (runAtomically (onCollection (c.body L ns)) b.stamp).serve server s =
      (.ok (.ok outcome, stamp), t)) :
    (runBatch L ns ordered ((i, .ok c) :: elements) b).serve server s =
      (runBatch L ns ordered elements
        { b with outcomes := b.outcomes ++ [(i, outcome)], stamp := stamp }).serve server t := by
  have hserve : (runBatch L ns ordered ((i, .ok c) :: elements) b).serve server s = _ :=
    serve_bind (runAtomically (onCollection (c.body L ns)) b.stamp) _
  rw [h] at hserve
  exact hserve

/-- A batch whose first write fails records the error, and goes on unless it is ordered. -/
lemma serve_runBatch_error {server : WireServer S} {L : Libbson} {ns : Namespace} (ordered : Bool)
    {c : WriteCommand} {b : Batch} {s t : S} {e : TranslatorError} {stamp : Option Stamp}
    (i : ℕ) (elements : List (ℕ × Except TranslatorError WriteCommand))
    (h : (runAtomically (onCollection (c.body L ns)) b.stamp).serve server s =
      (.ok (.error e, stamp), t)) :
    (runBatch L ns ordered ((i, .ok c) :: elements) b).serve server s =
      (if ordered then return { b.failed i e with stamp := stamp }
        else runBatch L ns ordered elements
          { b.failed i e with stamp := stamp }).serve server t := by
  have hserve : (runBatch L ns ordered ((i, .ok c) :: elements) b).serve server s = _ :=
    serve_bind (runAtomically (onCollection (c.body L ns)) b.stamp) _
  rw [h] at hserve
  exact hserve

/-- A batch always ends, and it ends without errors exactly when every element succeeds. -/
theorem serve_runBatch (server : WireServer S) (L : Libbson) (ns : Namespace) (ordered : Bool)
    (elements : List (ℕ × Except TranslatorError WriteCommand)) (b : Batch) (s : S) :
    ∃ b' t, (runBatch L ns ordered elements b).serve server s = (.ok b', t) ∧
      (b'.errors = [] ↔ b.errors = [] ∧ EverySucceeds server L ns elements s) := by
  induction elements generalizing b s with
  | nil => exact ⟨b, s, rfl, by simp [EverySucceeds]⟩
  | cons element elements ih =>
    obtain ⟨i, e | c⟩ := element
    · cases ordered with
      | true => exact ⟨b.failed i e, s, rfl, by simp [Batch.failed, EverySucceeds]⟩
      | false =>
        obtain ⟨b', t, hserve, hiff⟩ := ih (b.failed i e) s
        refine ⟨b', t, hserve, ?_⟩
        simpa [Batch.failed, EverySucceeds] using hiff
    · obtain ⟨result, t, hresult⟩ :=
        serve_runAtomically server (onCollection (c.body L ns)) s
      obtain ⟨stamp, hstamp⟩ := hresult b.stamp
      obtain ⟨stamp₀, hstamp₀⟩ := hresult none
      have hevery : EverySucceeds server L ns ((i, .ok c) :: elements) s ↔
          ∃ outcome, result = .ok outcome ∧ EverySucceeds server L ns elements t := by
        rw [EverySucceeds, hstamp₀]
        cases result with
        | ok outcome => simp
        | error e => simp
      rw [hevery]
      cases result with
      | ok outcome =>
        rw [serve_runBatch_ok ordered i elements hstamp]
        obtain ⟨b', u, hserve, hiff⟩ :=
          ih { b with outcomes := b.outcomes ++ [(i, outcome)], stamp := stamp } t
        exact ⟨b', u, hserve, by simpa using hiff⟩
      | error e =>
        rw [serve_runBatch_error ordered i elements hstamp]
        cases ordered with
        | true => exact ⟨_, t, rfl, by simp [Batch.failed]⟩
        | false =>
          obtain ⟨b', u, hserve, hiff⟩ := ih { b.failed i e with stamp := stamp } t
          exact ⟨b', u, hserve, by simpa [Batch.failed] using hiff⟩

end Elements

end Chimera
