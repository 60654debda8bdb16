import Chimera.Foundations.Run
import Chimera.Plugin.Batches

/-!
# The write fence

The reply of a write command carries a time, and a client that has read the oplog up to that time
has seen the write.  Commands on any number of connections run statement by statement, between
raw SQL writers and the pruner.  Every row of the oplog is appended under the lock of the clock
row, which is held to the end of the transaction, and the command reads the clock inside the
transaction; so the time is the stamp of the last row that its last successful element wrote.
-/

namespace Chimera

open Interaction StepSystem

/-! ## What a connection has read and committed -/

/-- What matters of the statements of a command so far. -/
structure Fence where
  /-- The clock, when reading it was the last statement on the connection. -/
  reading : Option Stamp
  /-- The clock that was read just before the last `COMMIT`. -/
  fenced : Option Stamp
  /-- The number of `COMMIT`s. -/
  commits : ℕ

/-- No statement yet. -/
def Fence.start : Fence := ⟨none, none, 0⟩

/-- Note a statement on the connection. -/
def Fence.note : (q : Question) → q.Answer → Fence → Fence
  | .sql .connection .clock, .ok now, f => { f with reading := some (now.getD ⟨0, 0⟩) }
  | .sql .connection .commit, .ok (), f => ⟨none, f.reading, f.commits + 1⟩
  | .sql .connection _, _, f => { f with reading := none }
  | _, _, f => f

/-- The answers that are considered: a `COMMIT` does not fail. -/
def Question.mayAnswer : (q : Question) → q.Answer → Prop
  | .sql .connection .commit, .error _ => False
  | _, _ => True

/-- The programs of this module, observed. -/
abbrev Fences {α : Type} (x : WireProgram α) (f : Fence)
    (Post : Except TranslatorError α → Fence → Prop) : Prop :=
  x.Ensures Question.mayAnswer Fence.note f Post

/-- Only a `COMMIT` moves the fence. -/
lemma Fence.note_of_noCommit {q : Question} (hq : q.NoCommit) (r : q.Answer) (f : Fence) :
    (note q r f).fenced = f.fenced ∧ (note q r f).commits = f.commits := by
  match q with
  | .connect | .inTransaction | .registry _ | .sql .own _ => exact ⟨rfl, rfl⟩
  | .sql .connection s =>
    cases s with
    | commit => exact absurd rfl hq
    | clock => cases r <;> exact ⟨rfl, rfl⟩
    | _ => exact ⟨rfl, rfl⟩

/-- A program without `COMMIT` leaves the fence where it is. -/
lemma fences_of_noCommit {α : Type} {x : WireProgram α} (hx : x.Asks Question.NoCommit)
    (f : Fence) : Fences x f fun _ f' => f'.fenced = f.fenced ∧ f'.commits = f.commits := by
  refine hx.ensures ?_ ⟨rfl, rfl⟩
  intro q r f' hq _ h
  obtain ⟨hfenced, hcommits⟩ := Fence.note_of_noCommit hq r f'
  exact ⟨hfenced.trans h.1, hcommits.trans h.2⟩

/-! ## Elements and batches -/

section

variable {α : Type} {f : Fence} {stamp : Option Stamp}

/-- The result of one transaction: with a result, the fence is at the clock that was read just
before the `COMMIT`; with an error, it has not moved. -/
def AfterTransaction (stamp : Option Stamp) (f : Fence) :
    Except TranslatorError (Except TranslatorError α × Option Stamp) → Fence → Prop
  | .ok (.ok _, stamp'), f' =>
    f'.commits = f.commits + 1 ∧ f'.fenced = stamp' ∧ stamp'.isSome = true
  | .ok (.error _, stamp'), f' =>
    f'.commits = f.commits ∧ f'.fenced = f.fenced ∧ stamp' = stamp
  | .error _, _ => False

/-- Reading the clock. -/
lemma fences_currentOperationTime :
    Fences currentOperationTime f fun result f' =>
      f'.fenced = f.fenced ∧ f'.commits = f.commits ∧
        ∀ now, result = .ok now → f'.reading = some now := by
  intro r _
  match r with
  | .error e => exact ⟨rfl, rfl, by rintro _ ⟨⟩⟩
  | .ok none => exact ⟨rfl, rfl, by rintro _ ⟨⟩; rfl⟩
  | .ok (some now) => exact ⟨rfl, rfl, by rintro _ ⟨⟩; rfl⟩

/-- The part of a transaction between `START TRANSACTION` and its end. -/
lemma fences_body (body : SqlProgram α) :
    Fences (do return (← onCollection body, ← currentOperationTime) : WireProgram (α × Stamp)) f
      fun result f' => f'.fenced = f.fenced ∧ f'.commits = f.commits ∧
        ∀ a now, result = .ok (a, now) → f'.reading = some now := by
  have hbody : (onCollection body).Asks Question.NoCommit :=
    asks_onCollection (asks_true body) fun q _ h => by cases h
  refine Ensures.bind ((fences_of_noCommit hbody f).weaken fun result f₁ h₁ => ?_)
  cases result with
  | error e => exact ⟨h₁.1, h₁.2, by rintro _ _ ⟨⟩⟩
  | ok a =>
    refine Ensures.bind (fences_currentOperationTime.weaken fun result f₂ h₂ => ?_)
    have hfenced : f₂.fenced = f.fenced := h₂.1.trans h₁.1
    have hcommits : f₂.commits = f.commits := h₂.2.1.trans h₁.2
    cases result with
    | error e => exact ⟨hfenced, hcommits, by rintro _ _ ⟨⟩⟩
    | ok now =>
      refine ⟨hfenced, hcommits, ?_⟩
      rintro _ _ ⟨⟩
      exact h₂.2.2 now rfl

/-- **One transaction.** -/
theorem fences_runAtomically (body : SqlProgram α) :
    Fences (runAtomically (onCollection body) stamp) f (AfterTransaction stamp f) := by
  refine Ensures.bind (Ensures.attempt fun r _ => ?_)
  match r with
  | .error e => exact ⟨rfl, rfl, rfl⟩
  | .ok () =>
    refine Ensures.bind (Ensures.attempt ((fences_body body).weaken fun result f₁ h₁ => ?_))
    match result with
    | .error e =>
      refine Ensures.bind (Ensures.attempt fun r _ => ?_)
      match r with
      | .error e' => exact ⟨h₁.2.1, h₁.1, rfl⟩
      | .ok () => exact ⟨h₁.2.1, h₁.1, rfl⟩
    | .ok (a, now) =>
      refine Ensures.bind (Ensures.attempt fun r hr => ?_)
      match r with
      | .error e => exact hr.elim
      | .ok () => exact ⟨congrArg (· + 1) h₁.2.1, h₁.2.2 a now rfl, rfl⟩

/-- The variables of a batch agree with the fence. -/
def Batch.Fenced (b : Batch) (f : Fence) : Prop :=
  b.stamp = f.fenced ∧ b.outcomes.length = f.commits ∧ (f.commits ≠ 0 → f.fenced.isSome = true)

/-- **A batch.**  After it, the captured stamp is the clock that was read just before the last
`COMMIT`, and as many elements have succeeded as there were `COMMIT`s. -/
theorem fences_runBatch {L : Libbson} {ns : Namespace} {ordered : Bool}
    {elements : List (ℕ × Except TranslatorError WriteCommand)} {b : Batch} (hb : b.Fenced f) :
    Fences (runBatch L ns ordered elements b) f fun result f' =>
      ∃ b', result = .ok b' ∧ b'.Fenced f' := by
  induction elements generalizing b f with
  | nil => exact ⟨b, rfl, hb⟩
  | cons element elements ih =>
    obtain ⟨i, e | c⟩ := element
    · unfold runBatch
      cases ordered with
      | true => exact ⟨_, rfl, hb⟩
      | false => exact ih hb
    · refine Ensures.bind ((fences_runAtomically (c.body L ns)).weaken fun result f' h => ?_)
      match result, h with
      | .ok (.ok outcome, stamp), ⟨hcommits, hfenced, hsome⟩ =>
        refine ih ⟨hfenced.symm, ?_, fun _ => hfenced ▸ hsome⟩
        simp only [List.length_append, List.length_singleton, hb.2.1, hcommits]
      | .ok (.error e, stamp), ⟨hcommits, hfenced, hstamp⟩ =>
        have hb' : Batch.Fenced { b.failed i e with stamp := stamp } f' :=
          ⟨hstamp.trans (hb.1.trans hfenced.symm), hb.2.1.trans hcommits.symm, by
            rw [hcommits, hfenced]; exact hb.2.2⟩
        cases ordered with
        | true => exact ⟨_, rfl, hb'⟩
        | false => exact ih hb'

/-! ## Replies -/

/-- The field of a reply that carries the time. -/
def timeName : Text := "operationTime".toList

/-- A stamp as a reply carries it. -/
def Stamp.value (ts : Stamp) : Value := .timestamp (UInt32.ofNat ts.t) (UInt32.ofNat ts.i)

/-- The command has committed nothing, or its reply carries the time of the fence. -/
def Reports (result : Except TranslatorError Doc) (f : Fence) : Prop :=
  ∀ reply, result = .ok reply → f.commits ≠ 0 →
    ∃ now, f.fenced = some now ∧ findField reply timeName = some now.value

/-- The last field of a reply. -/
lemma fences_operationTimeField {b : Batch} (hb : b.Fenced f) :
    Fences (operationTimeField b.stamp) f fun result f' =>
      ∀ time, result = .ok time → f'.commits ≠ 0 →
        ∃ now, f'.fenced = some now ∧ time = [(timeName, now.value)] := by
  obtain ⟨hstamp, -, hsome⟩ := hb
  unfold operationTimeField
  cases hcaptured : b.stamp with
  | some now =>
    rintro time ⟨⟩ -
    exact ⟨now, hstamp.symm.trans hcaptured, rfl⟩
  | none =>
    have hasks : (do
        let now ← currentOperationTimeOrInitialize
        return [("operationTime".toList,
          .timestamp (UInt32.ofNat now.t) (UInt32.ofNat now.i))] :
            WireProgram Doc).Asks Question.NoCommit :=
      Asks.bind (asks_currentOperationTimeOrInitialize.mono fun q hq => hq.noCommit)
        fun _ => trivial
    refine (fences_of_noCommit hasks f).weaken fun result f' h => ?_
    intro time _ hcommits
    have hfenced := hsome (h.2 ▸ hcommits)
    rw [← hstamp, hcaptured] at hfenced
    cases hfenced

/-- A reply that ends with the time, which none of its other fields is. -/
lemma reports_of_time {fields : Doc} {result : Except TranslatorError Doc}
    (hfields : findField fields timeName = none)
    (h : ∀ time, result = .ok time → f.commits ≠ 0 →
      ∃ now, f.fenced = some now ∧ time = [(timeName, now.value)]) :
    Reports (result.map fun time => fields ++ time) f := by
  rintro reply hreply hcommits
  cases result with
  | error e => cases hreply
  | ok time =>
    obtain ⟨now, hfenced, rfl⟩ := h time rfl hcommits
    obtain rfl := Except.ok.inj hreply
    refine ⟨now, hfenced, ?_⟩
    rw [findField_append, hfields]
    simp

/-- Creating a collection commits no transaction of the command. -/
lemma asks_createCollection (ns : Namespace) (errorIfExists : Bool) :
    (createCollection ns errorIfExists).Asks Question.NoCommit := by
  have hdefine : ∀ d, (sql (.define d)).Asks Question.NoCommit := fun d =>
    asks_statement (fun h => by cases h)
  refine Asks.bind (asks_onCollection (asks_true _) fun q _ h => by cases h) fun there => ?_
  refine Asks.ite (Asks.ite trivial trivial) ?_
  refine Asks.bind (asks_statements fun q hq => ?_) fun _ => ?_
  · rintro ⟨⟩
    simp at hq
  refine Asks.bind (hdefine _) fun _ => Asks.bind (hdefine _) fun _ => ?_
  refine Asks.bind (asks_installOplogSchema.mono fun q hq => hq.reads.noCommit) fun _ => ?_
  exact asks_statement (fun h => by cases h)

/-- A reply that is made of a batch. -/
lemma fences_reply {fields : Doc} (hfields : findField fields timeName = none) {b : Batch}
    (hb : b.Fenced f) :
    Fences (do return fields ++ (← operationTimeField b.stamp)) f Reports := by
  refine Ensures.bind ((fences_operationTimeField hb).weaken fun result f' h => ?_)
  have hreports := reports_of_time hfields h
  cases result with
  | ok time => exact hreports
  | error e => exact hreports

/-- What comes before the transactions of a command commits nothing. -/
lemma fences_prelude {x : WireProgram α} {k : α → WireProgram Doc}
    (hx : x.Asks Question.NoCommit)
    (hk : ∀ a f', f'.fenced = none → f'.commits = 0 → Fences (k a) f' Reports)
    (hfenced : f.fenced = none) (hcommits : f.commits = 0) : Fences (x >>= k) f Reports := by
  refine Ensures.bind ((fences_of_noCommit hx f).weaken fun result f' h => ?_)
  cases result with
  | ok a => exact hk a f' (h.1.trans hfenced) (h.2.trans hcommits)
  | error e => rintro reply ⟨⟩

/-- An empty batch. -/
lemma fenced_empty (hfenced : f.fenced = none) (hcommits : f.commits = 0) :
    Batch.empty.Fenced f :=
  ⟨hfenced.symm, hcommits.symm, fun h => absurd hcommits h⟩

/-- What opens a batch command commits nothing. -/
lemma asks_opening (kind : BatchKind) (ns : Namespace) :
    (kind.opening ns).Asks Question.NoCommit := by
  cases kind with
  | insert => exact Asks.bind (asks_createCollection ns false) fun _ => trivial
  | update => exact Asks.bind (asks_createCollection ns false) fun _ => trivial
  | delete => exact asks_onCollection (asks_true _) fun q _ h => by cases h

/-- The elements of a batch command. -/
lemma fences_batch {kind : BatchKind} {ctx : Ctx} {ns : Namespace} {fields : Doc} {there : Bool}
    (hfenced : f.fenced = none) (hcommits : f.commits = 0) :
    Fences (kind.batch ctx ns fields there) f fun result f' =>
      ∃ b, result = .ok b ∧ b.Fenced f' := by
  cases there with
  | true => exact fences_runBatch (fenced_empty hfenced hcommits)
  | false => exact ⟨.empty, rfl, fenced_empty hfenced hcommits⟩

/-- `insert`, `update` and `delete`. -/
lemma fences_handler (kind : BatchKind) (ctx : Ctx) :
    Fences (kind.handler ctx) .start Reports := by
  by_cases hfields : ∃ fields, findField ctx.body kind.field = some (.array fields)
  · obtain ⟨fields, hfields⟩ := hfields
    rw [kind.handler_eq hfields]
    refine fences_prelude (Asks.ofExcept _) (fun ns f₁ hfenced hcommits => ?_) rfl rfl
    refine fences_prelude (asks_opening kind ns) (fun there f₂ hfenced hcommits => ?_)
      hfenced hcommits
    refine Ensures.bind ((fences_batch hfenced hcommits).weaken fun result f' h => ?_)
    obtain ⟨b, rfl, hb⟩ := h
    refine fences_reply ?_ hb
    rw [findField_append, findField_writeErrorsField (by decide)]
    exact kind.findField_counts_time b
  · obtain ⟨e, he⟩ := kind.handler_eq_fail fun fields h => hfields ⟨fields, h⟩
    rw [he]
    rintro reply ⟨⟩

/-- `findAndModify`, from its transaction on. -/
lemma fences_findAndModify {L : Libbson} {ns : Namespace} (c : FindAndModify)
    (hcommits : f.commits = 0) :
    Fences (do
        let (result, stamp) ← runAtomically (onCollection (findAndModify L ns c)) none
        let outcome ← ofExcept result
        let shaped ← ofExcept (c.shaped outcome)
        let value : Value := match shaped with
          | some document => .document document
          | none => .null
        let time ← operationTimeField stamp
        return [("lastErrorObject".toList, outcome.lastError), ("value".toList, value),
          ("ok".toList, .double okDouble)] ++ time) f Reports := by
  refine Ensures.bind ((fences_runAtomically _).weaken fun result f' h => ?_)
  match result, h with
  | .ok (.error e, stamp), _ => rintro reply ⟨⟩
  | .ok (.ok outcome, stamp), ⟨hcommits', hfenced', hsome⟩ =>
    have hb : Batch.Fenced ⟨[(0, .modified outcome)], [], stamp⟩ f' :=
      ⟨hfenced'.symm, by simp [hcommits', hcommits], fun _ => hfenced' ▸ hsome⟩
    refine Ensures.bind (Ensures.ofExcept ?_)
    refine Ensures.bind (Ensures.ofExcept ?_)
    cases c.shaped outcome with
    | error e => rintro reply ⟨⟩
    | ok shaped => exact fences_reply rfl hb

/-- `findAndModify`. -/
lemma fences_cmdFindAndModify (ctx : Ctx) : Fences (cmdFindAndModify ctx) .start Reports := by
  unfold cmdFindAndModify
  refine Ensures.ite (fun _ => by rintro reply ⟨⟩) fun _ => ?_
  refine fences_prelude (Asks.ofExcept _) (fun ns f₁ hfenced hcommits => ?_) rfl rfl
  have hclock : currentOperationTimeOrInitialize.Asks Question.NoCommit :=
    asks_currentOperationTimeOrInitialize.mono fun q hq => hq.noCommit
  refine Ensures.ite (fun _ => ?_) fun _ => ?_
  · refine fences_prelude (asks_createCollection ns false) (fun _ f₂ hfenced hcommits => ?_)
      hfenced hcommits
    refine Ensures.ite (fun _ => ?_) fun _ => fences_findAndModify _ hcommits
    exact fences_prelude hclock (fun _ f₃ _ hcommits => fences_findAndModify _ hcommits)
      hfenced hcommits
  · refine Ensures.ite (fun _ => ?_) fun _ => fences_findAndModify _ hcommits
    exact fences_prelude hclock (fun _ f₃ _ hcommits => fences_findAndModify _ hcommits)
      hfenced hcommits

end

end Chimera
