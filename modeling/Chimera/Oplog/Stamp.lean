import Chimera.Translator.Json
import Mathlib.Data.Prod.Lex

/-!
# Oplog rows, their stamps, and the append procedure

Every write to a collection adds one row to the oplog, through the procedure `oplog_append`
that the triggers call.  The procedure advances the clock row under its lock and stamps the new
row with the clock: the second the statement started in, and a counter within the second.

The stamps are meant to be strictly increasing in sequence order.  Whether they are depends
only on the times the server reports (`appendSequence_stamps_increasing_iff`): the procedure
stores whatever `UNIX_TIMESTAMP()` says, and starts the counter over each time it differs from
the clock, also when it is smaller.
-/

namespace Chimera

/-- A stamp of the oplog clock: `ts_t` seconds and `ts_i`, a counter within the second. -/
structure Stamp where
  /-- The column `ts_t`. -/
  t : ℕ
  /-- The column `ts_i`. -/
  i : ℕ
deriving DecidableEq

namespace Stamp

/-- Stamps are ordered by second, then by counter. -/
instance : LinearOrder Stamp :=
  LinearOrder.lift' (fun s : Stamp => (toLex (s.t, s.i) : ℕ ×ₗ ℕ)) fun a b h => by
    cases a; cases b; simpa using h

/-- The strict order of stamps, column by column. -/
lemma lt_iff {a b : Stamp} : a < b ↔ a.t < b.t ∨ (a.t = b.t ∧ a.i < b.i) :=
  Prod.Lex.toLex_lt_toLex

/-- The order of stamps, column by column. -/
lemma le_iff {a b : Stamp} : a ≤ b ↔ a.t < b.t ∨ (a.t = b.t ∧ a.i ≤ b.i) :=
  Prod.Lex.toLex_le_toLex

/-- Comparing stamps never goes against the order of their seconds. -/
lemma t_le_of_le {a b : Stamp} (h : a ≤ b) : a.t ≤ b.t := by
  rcases le_iff.mp h with h | ⟨h, _⟩ <;> omega

end Stamp

/-- What a row of the oplog records: an insert, an update or a delete. -/
inductive OplogOp where
  | i
  | u
  | d
deriving DecidableEq

/-- A row of `chimera_meta.oplog`. -/
structure OplogRow where
  /-- The primary key, from `AUTO_INCREMENT`. -/
  seq : ℕ
  /-- The columns `ts_t` and `ts_i`. -/
  ts : Stamp
  /-- What was done. -/
  op : OplogOp
  /-- The collection, as `database.collection`. -/
  ns : Text
  /-- The document, or the key of a deleted one. -/
  o : Json
  /-- The key of an updated document. -/
  o2 : Option Json
deriving DecidableEq

/-- The largest value of an `INT UNSIGNED` column. -/
def maxIntUnsigned : ℕ := 4294967295

/-- The largest value of a `BIGINT UNSIGNED` column. -/
def maxBigintUnsigned : ℕ := 18446744073709551615

/-- One call of `oplog_append`: its arguments, and what the server supplies. -/
structure AppendCall where
  /-- `UNIX_TIMESTAMP()`: the time the triggering statement started at. -/
  now : ℕ
  /-- How many sequence numbers `AUTO_INCREMENT` passes over. -/
  gap : ℕ
  /-- The argument `p_op`. -/
  op : OplogOp
  /-- The argument `p_ns`. -/
  ns : Text
  /-- The argument `p_o`. -/
  o : Json
  /-- The argument `p_o2`. -/
  o2 : Option Json
deriving DecidableEq

/-- The clock row after the procedure's `UPDATE`, whose assignments run left to right. -/
def advanceClock (clock : Stamp) (now : ℕ) : Stamp :=
  { i := if clock.t = now then clock.i + 1 else 1, t := now }

/-- The procedure `oplog_append`: the new clock row and the row it inserts.  A value that does
not fit its column makes the statement fail. -/
def oplogAppend (clock : Stamp) (autoIncrement : ℕ) (call : AppendCall) :
    Option (Stamp × OplogRow) :=
  let stamp := advanceClock clock call.now
  let seq := autoIncrement + call.gap
  if stamp.t ≤ maxIntUnsigned ∧ stamp.i ≤ maxIntUnsigned ∧ seq ≤ maxBigintUnsigned then
    some (stamp, ⟨seq, stamp, call.op, call.ns, call.o, call.o2⟩)
  else none

/-- A sequence of appends, each of which goes through. -/
def appendSequence : Stamp → ℕ → List AppendCall → Option (Stamp × List OplogRow)
  | clock, _, [] => some (clock, [])
  | clock, autoIncrement, call :: calls => do
    let (clock', row) ← oplogAppend clock autoIncrement call
    let (clock'', rows) ← appendSequence clock' (row.seq + 1) calls
    return (clock'', row :: rows)

/-- What one append does. -/
lemma oplogAppend_eq_some {clock clock' : Stamp} {autoIncrement : ℕ} {call : AppendCall}
    {row : OplogRow} (h : oplogAppend clock autoIncrement call = some (clock', row)) :
    clock' = advanceClock clock call.now ∧ row.ts = clock' ∧
      row.seq = autoIncrement + call.gap := by
  simp only [oplogAppend] at h
  split at h
  · obtain ⟨rfl, rfl⟩ : _ = clock' ∧ _ = row := by simpa using h
    exact ⟨rfl, rfl, rfl⟩
  · simp at h

/-- The first append of a sequence, and the rest. -/
lemma appendSequence_cons {clock clock'' : Stamp} {autoIncrement : ℕ} {call : AppendCall}
    {calls : List AppendCall} {rows : List OplogRow}
    (h : appendSequence clock autoIncrement (call :: calls) = some (clock'', rows)) :
    ∃ clock' row rest, oplogAppend clock autoIncrement call = some (clock', row) ∧
      appendSequence clock' (row.seq + 1) calls = some (clock'', rest) ∧ rows = row :: rest := by
  simp only [appendSequence, Option.bind_eq_bind, Option.bind_eq_some_iff, Prod.exists,
    Option.pure_def, Option.some.injEq, Prod.mk.injEq] at h
  obtain ⟨clock', row, hrow, _, rest, hrest, rfl, rfl⟩ := h
  exact ⟨clock', row, rest, hrow, hrest, rfl⟩

/-- Advancing the clock is an increase exactly when the reported time is not before it. -/
lemma lt_advanceClock_iff {clock : Stamp} {now : ℕ} :
    clock < advanceClock clock now ↔ clock.t ≤ now := by
  rw [Stamp.lt_iff]
  by_cases h : clock.t = now
  · simp [advanceClock, h]
  · simp only [advanceClock, h, if_false, false_and, or_false]
    omega

/-- The rows of a sequence carry the times reported to its appends. -/
lemma appendSequence_times {clock clock' : Stamp} {autoIncrement : ℕ} {calls : List AppendCall}
    {rows : List OplogRow} (h : appendSequence clock autoIncrement calls = some (clock', rows)) :
    rows.map (fun r => r.ts.t) = calls.map AppendCall.now := by
  induction calls generalizing clock autoIncrement rows with
  | nil =>
    obtain ⟨-, rfl⟩ : clock = clock' ∧ [] = rows := by simpa [appendSequence] using h
    rfl
  | cons call calls ih =>
    obtain ⟨clock₁, row, rest, hrow, hrest, rfl⟩ := appendSequence_cons h
    obtain ⟨rfl, hts, -⟩ := oplogAppend_eq_some hrow
    simp [ih hrest, hts, advanceClock]

/-- When no reported time is before the one that precedes it, every stamp is beyond the clock
the sequence started from, and the stamps increase. -/
lemma appendSequence_increasing {clock clock' : Stamp} {autoIncrement : ℕ}
    {calls : List AppendCall} {rows : List OplogRow}
    (h : appendSequence clock autoIncrement calls = some (clock', rows))
    (hclock : ∀ call ∈ calls, clock.t ≤ call.now)
    (hcalls : calls.Pairwise fun a b => a.now ≤ b.now) :
    (∀ r ∈ rows, clock < r.ts) ∧ rows.Pairwise fun a b => a.ts < b.ts := by
  induction calls generalizing clock autoIncrement rows with
  | nil =>
    obtain ⟨-, rfl⟩ : clock = clock' ∧ [] = rows := by simpa [appendSequence] using h
    exact ⟨by simp, List.Pairwise.nil⟩
  | cons call calls ih =>
    obtain ⟨clock₁, row, rest, hrow, hrest, rfl⟩ := appendSequence_cons h
    obtain ⟨rfl, hts, -⟩ := oplogAppend_eq_some hrow
    obtain ⟨hhead, htail⟩ := List.pairwise_cons.mp hcalls
    have hlt : clock < advanceClock clock call.now :=
      lt_advanceClock_iff.mpr (hclock call List.mem_cons_self)
    obtain ⟨hbeyond, hincr⟩ := ih hrest hhead htail
    refine ⟨fun r hr => ?_, List.pairwise_cons.mpr ⟨fun r hr => ?_, hincr⟩⟩
    · rcases List.mem_cons.mp hr with rfl | hr
      · rwa [hts]
      · exact hlt.trans (hbeyond r hr)
    · rw [hts]
      exact hbeyond r hr

/-- **Stamps increase exactly when the reported times do not decrease.**  In a sequence of
appends under the clock lock, from any clock, the stamps are strictly increasing in sequence
order if and only if no append was reported an earlier time than the append before it. -/
theorem appendSequence_stamps_increasing_iff {clock clock' : Stamp} {autoIncrement : ℕ}
    {calls : List AppendCall} {rows : List OplogRow}
    (h : appendSequence clock autoIncrement calls = some (clock', rows)) :
    (rows.Pairwise fun a b => a.ts < b.ts) ↔ calls.Pairwise fun a b => a.now ≤ b.now := by
  constructor
  · intro hrows
    have htimes : (rows.map fun r => r.ts.t).Pairwise (· ≤ ·) :=
      List.pairwise_map.mpr (hrows.imp fun hab => Stamp.t_le_of_le hab.le)
    rw [appendSequence_times h] at htimes
    exact List.pairwise_map.mp htimes
  · intro hcalls
    cases calls with
    | nil =>
      obtain ⟨-, rfl⟩ : clock = clock' ∧ [] = rows := by simpa [appendSequence] using h
      exact List.Pairwise.nil
    | cons call calls =>
      obtain ⟨clock₁, row, rest, hrow, hrest, rfl⟩ := appendSequence_cons h
      obtain ⟨rfl, hts, -⟩ := oplogAppend_eq_some hrow
      obtain ⟨hhead, htail⟩ := List.pairwise_cons.mp hcalls
      obtain ⟨hbeyond, hincr⟩ := appendSequence_increasing hrest hhead htail
      exact List.pairwise_cons.mpr ⟨fun r hr => hts ▸ hbeyond r hr, hincr⟩

/-- An insert of an empty document, triggered by a statement that started at `now`. -/
def plainAppend (now : ℕ) : AppendCall :=
  { now := now, gap := 0, op := .i, ns := "a.b".toList, o := .obj [], o2 := none }

/-- The equivalence at two appends reported the same second. -/
theorem appendSequence_stamps_increasing_iff_same_second :
    ([⟨1, ⟨7, 1⟩, .i, "a.b".toList, .obj [], none⟩,
      ⟨2, ⟨7, 2⟩, .i, "a.b".toList, .obj [], none⟩] : List OplogRow).Pairwise
        (fun a b => a.ts < b.ts) ↔
      [plainAppend 7, plainAppend 7].Pairwise fun a b => a.now ≤ b.now :=
  appendSequence_stamps_increasing_iff
    (show appendSequence ⟨0, 0⟩ 1 [plainAppend 7, plainAppend 7] = some (⟨7, 2⟩, _) from rfl)

/-- A statement that started at 4 gets the clock after one that started at 5: its stamp goes
back, and the stamp after that repeats the first. -/
theorem appendSequence_stamps_repeat :
    ∃ clock rows, appendSequence ⟨0, 0⟩ 1 [plainAppend 5, plainAppend 4, plainAppend 5] =
        some (clock, rows) ∧
      ¬ (rows.Pairwise fun a b => a.ts < b.ts) ∧ ¬ (rows.map OplogRow.ts).Nodup := by
  refine ⟨_, _, rfl, ?_, ?_⟩
  · decide
  · decide

end Chimera
