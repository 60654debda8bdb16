import Chimera.Foundations.Run
import Chimera.Plugin.Batches
import Chimera.Plugin.NamespaceIdentity
import Chimera.Plugin.ReadCommands
import Mathlib.Data.List.Pairwise

/-!
# Cursors over whole runs

All connections share one registry.  A command calls it where it needs it, and between two calls
of one command the others go on: a `getMore` first looks for a tailing cursor and then, if there
is none, takes a batch.  A client that asks for the cursor it was given, on the namespace it was
given, gets the result list piece by piece; what it asks for is looked up under the number that
a double makes of it and under the text of the namespace.
-/

namespace Chimera

open Interaction StepSystem

/-! ## The shared registry -/

/-- `CursorRegistry::Entry`, for a cursor that tails. -/
structure TailingCursor where
  /-- The text of the namespace it was opened on. -/
  ns : Text
  /-- Where it is, and what it selects. -/
  tail : TailEntry
  /-- When it was last used. -/
  lastUsed : ℤ

/-- `CursorRegistry`, with the cursors that tail. -/
structure CursorTable where
  /-- The buffered cursors, and the number of the next cursor. -/
  buffered : CursorRegistry
  /-- The tailing cursors. -/
  tailing : ℤ → Option TailingCursor

/-- Give a number away without a buffered cursor. -/
def CursorRegistry.skip (R : CursorRegistry) : CursorRegistry where
  cursors := R.cursors
  nextId := R.nextId + 1
  fresh id h := R.fresh id ((Int.le_add_one le_rfl).trans h)

namespace CursorTable

variable (T : CursorTable) (now id : ℤ) (ns : Text)

/-- `expire_idle`. -/
def expireIdle : CursorTable where
  buffered := T.buffered.expireIdle now
  tailing id := (T.tailing id).filter fun c => !decide (c.lastUsed < now - idleTimeoutSeconds)

/-- `open`. -/
def openCursor (remaining : List Doc) : ℤ × CursorTable :=
  if remaining.isEmpty then (0, T)
  else
    let kept := T.expireIdle now
    (kept.buffered.nextId,
      { kept with buffered := kept.buffered.register ⟨ns, remaining, now⟩ })

/-- `open_tail`. -/
def openTail (tail : TailEntry) : ℤ × CursorTable :=
  let kept := T.expireIdle now
  (kept.buffered.nextId,
    { buffered := kept.buffered.skip
      tailing := Function.update kept.tailing kept.buffered.nextId (some ⟨ns, tail, now⟩) })

/-- `tail_state`. -/
def tailState : Option TailEntry × CursorTable :=
  match T.tailing id with
  | none => (none, T)
  | some c =>
    if c.ns ≠ ns then (none, T)
    else (some c.tail,
      { T with tailing := Function.update T.tailing id (some { c with lastUsed := now }) })

/-- `advance_tail`.  Nobody looks at the position of a cursor that does not tail. -/
def advanceTail (afterSeq : ℕ) : CursorTable :=
  { T with tailing := Function.update T.tailing id ((T.tailing id).map fun c =>
      { c with tail := { c.tail with afterSeq := afterSeq } }) }

/-- `next_batch`.  A tailing cursor holds no documents, and so it would be exhausted. -/
def nextBatch (batchSize : ℤ) : Except TranslatorError (List Doc × Bool × CursorTable) :=
  match T.tailing id with
  | some c =>
    if c.ns ≠ ns then
      .error (cursorNotFound ("cursor id ".toList ++ integerText id ++ " is not on ".toList ++ ns))
    else .ok ([], true, { T with tailing := Function.update T.tailing id none })
  | none => (T.buffered.nextBatch now id ns batchSize).map fun taken =>
      (taken.1, taken.2.1, { T with buffered := taken.2.2 })

/-- `kill`. -/
def kill : Bool × CursorTable :=
  ((T.buffered.kill id).1 || (T.tailing id).isSome,
    { buffered := (T.buffered.kill id).2, tailing := Function.update T.tailing id none })

/-- `kill_all`. -/
def killAll : CursorTable where
  buffered := T.buffered.keep fun _ _ => false
  tailing _ := none

/-- How the registry answers a call. -/
def answer : (call : RegistryCall) → call.Result × CursorTable
  | .openCursor ns remaining => T.openCursor now ns remaining
  | .openTail ns tail => T.openTail now ns tail
  | .tailState id ns => T.tailState now id ns
  | .advanceTail id afterSeq => ((), T.advanceTail id afterSeq)
  | .nextBatch id ns batchSize =>
    match T.nextBatch now id ns batchSize with
    | .error e => (.error e, T)
    | .ok (batch, exhausted, T') => (.ok (batch, exhausted), T')
  | .kill id => T.kill id

end CursorTable

/-! ## Moving documents out -/

/-- The loop of `next_batch`: up to the length of the batch, documents are moved out of their
places, which stay behind empty. -/
def moveOut (wanted : ℕ) (batch : List Doc) (places : List (Option Doc)) (offset : ℕ) :
    List Doc × List (Option Doc) × ℕ :=
  if h : batch.length < wanted ∧ offset < places.length then
    moveOut wanted (batch ++ [(places.get ⟨offset, h.2⟩).getD []]) (places.set offset none)
      (offset + 1)
  else (batch, places, offset)
termination_by places.length - offset
decreasing_by
  rw [List.length_set]
  omega

/-- The loop takes what is in front of the documents that have not been moved. -/
lemma moveOut_run {rest : List Doc} {wanted : ℕ} {batch : List Doc} {places : List (Option Doc)}
    {offset : ℕ} (h : places.drop offset = rest.map some) :
    ∃ places' offset', moveOut wanted batch places offset =
        (batch ++ rest.take (wanted - batch.length), places', offset') ∧
      places'.drop offset' = (rest.drop (wanted - batch.length)).map some := by
  induction rest generalizing batch places offset with
  | nil =>
    have hend : places.length ≤ offset := List.drop_eq_nil_iff.1 h
    refine ⟨places, offset, ?_, by rw [h, List.drop_nil]⟩
    rw [moveOut, dif_neg (by omega), List.take_nil, List.append_nil]
  | cons document rest ih =>
    have hlt : offset < places.length := by
      by_contra hge
      rw [List.drop_eq_nil_of_le (by omega)] at h
      cases h
    rw [List.drop_eq_getElem_cons hlt, List.map_cons] at h
    obtain ⟨hplace, hrest⟩ := List.cons.inj h
    by_cases hwanted : batch.length < wanted
    · have hmoved : (places.set offset none).drop (offset + 1) = rest.map some := by
        rw [List.drop_set_of_lt (Nat.lt_succ_self offset), hrest]
      obtain ⟨places', offset', hrun, hleft⟩ := @ih (batch ++ [document]) _ _ hmoved
      rw [List.length_append, List.length_singleton] at hrun hleft
      have hone : wanted - batch.length = wanted - (batch.length + 1) + 1 := by omega
      refine ⟨places', offset', ?_, by rw [hone, List.drop_succ_cons, hleft]⟩
      rw [moveOut, dif_pos ⟨hwanted, hlt⟩, List.get_eq_getElem, hplace, Option.getD_some, hrun,
        hone, List.take_succ_cons, List.append_assoc, List.singleton_append]
    · have hnone : wanted - batch.length = 0 := by omega
      refine ⟨places, offset, ?_, ?_⟩
      · rw [moveOut, dif_neg (by omega), hnone, List.take_zero, List.append_nil]
      · rw [hnone, List.drop_zero, List.drop_eq_getElem_cons hlt, hplace, hrest, List.map_cons]

/-- **The loop** of `next_batch` takes the batch that an entry has, keeps what the entry keeps, and
comes to the end when nothing is left. -/
theorem moveOut_entry (entry : CursorEntry) (batchSize : ℤ) {places : List (Option Doc)}
    {offset : ℕ} (h : places.drop offset = entry.remaining.map some) :
    ∃ places' offset',
      moveOut (if 0 < batchSize then batchSize.toNat else places.length) [] places offset =
        (entry.remaining.take (entry.wanted batchSize), places', offset') ∧
      places'.drop offset' = (entry.remaining.drop (entry.wanted batchSize)).map some ∧
      (places'.length ≤ offset' ↔
        (entry.remaining.drop (entry.wanted batchSize)).isEmpty = true) := by
  obtain ⟨places', offset', hrun, hleft⟩ :=
    @moveOut_run _ (if 0 < batchSize then batchSize.toNat else places.length) [] _ _ h
  rw [List.nil_append, List.length_nil, Nat.sub_zero] at hrun
  rw [List.length_nil, Nat.sub_zero] at hleft
  -- a batch that is not limited asks for as many as there were at first
  have hlength : entry.remaining.length ≤ places.length := by
    have := congrArg List.length h
    rw [List.length_drop, List.length_map] at this
    omega
  have hsame : entry.remaining.take (if 0 < batchSize then batchSize.toNat else places.length) =
        entry.remaining.take (entry.wanted batchSize) ∧
      entry.remaining.drop (if 0 < batchSize then batchSize.toNat else places.length) =
        entry.remaining.drop (entry.wanted batchSize) := by
    unfold CursorEntry.wanted
    split
    · exact ⟨rfl, rfl⟩
    · rw [List.take_of_length_le hlength, List.take_length, List.drop_eq_nil_of_le hlength,
        List.drop_length]
      exact ⟨rfl, rfl⟩
  rw [hsame.1] at hrun
  rw [hsame.2] at hleft
  refine ⟨places', offset', hrun, hleft, ?_⟩
  rw [← List.drop_eq_nil_iff, hleft, List.map_eq_nil_iff, List.isEmpty_iff]

/-! ## Requests -/

/-- The number of a cursor, as a client writes it. -/
def Value.cursorNumber : Value → ℤ
  | .int64 n => n.toInt
  | v => v.toDouble.truncate

/-- What a `getMore` asks for. -/
structure MoreRequest where
  /-- The number of the cursor that the client means. -/
  number : ℤ
  /-- The number it is looked up under. -/
  id : ℤ
  /-- The namespace. -/
  ns : Namespace
  /-- How many documents, where it is positive. -/
  batchSize : ℤ

/-- The front of `cmd_get_more`. -/
def moreRequest (db : Text) (body : Doc) : Except TranslatorError MoreRequest :=
  match findField body "getMore".toList with
  | none => .error (typeMismatch "getMore requires the cursor id as a 64-bit integer".toList)
  | some v =>
    if !valueIsNumeric v then
      .error (typeMismatch "getMore requires the cursor id as a 64-bit integer".toList)
    else do
      let ns ← parseNamespace db (textField body "collection".toList)
      return ⟨v.cursorNumber, v.toDouble.truncate, ns,
        (Int32.ofInt (numberField body "batchSize".toList defaultBatchSize)).toInt⟩

/-! ## The system -/

/-- A result list that a find or an aggregate has begun to deliver, and what has become of it.
The registry does not read this. -/
structure ServedCursor where
  /-- The number the cursor was given, zero where none was needed. -/
  number : ℤ
  /-- The namespace. -/
  ns : Namespace
  /-- The whole result. -/
  result : List Doc
  /-- What the first batch and the following ones have brought so far. -/
  delivered : List Doc
  /-- The number in the last reply. -/
  reported : ℤ
  /-- When it was last used. -/
  lastUsed : ℤ
  /-- It has been killed, or has expired. -/
  ended : Bool

/-- The cursor can be used. -/
def ServedCursor.live (r : ServedCursor) : Bool := !r.ended && !decide (r.reported = 0)

/-- The cursor may end. -/
def ServedCursor.endIf (b : Bool) (r : ServedCursor) : ServedCursor :=
  { r with ended := r.ended || b }

/-- The cursor has been idle for too long. -/
def ServedCursor.idle (now : ℤ) (r : ServedCursor) : Bool :=
  decide (r.lastUsed < now - idleTimeoutSeconds)

/-- The client means this cursor. -/
def MoreRequest.Means (p : MoreRequest) (r : ServedCursor) : Prop :=
  p.number = r.number ∧ p.ns = r.ns

/-- The registry takes the request to be for this cursor. -/
def MoreRequest.Finds (p : MoreRequest) (r : ServedCursor) : Prop :=
  p.id = r.number ∧ p.ns.text = r.ns.text

instance (p : MoreRequest) (r : ServedCursor) : Decidable (p.Means r) :=
  inferInstanceAs (Decidable (_ ∧ _))

instance (p : MoreRequest) (r : ServedCursor) : Decidable (p.Finds r) :=
  inferInstanceAs (Decidable (_ ∧ _))

/-- The client adds a batch to what it has. -/
def ServedCursor.fetch (p : MoreRequest) (now : ℤ) (batch : List Doc) (reported : ℤ)
    (r : ServedCursor) : ServedCursor :=
  if p.Means r then
    { r with delivered := r.delivered ++ batch, reported := reported, lastUsed := now }
  else r

/-- The registry, the connections, and what they have got. -/
structure CursorSystem where
  /-- The registry. -/
  table : CursorTable
  /-- The `getMore` of each connection that has found no tailing cursor. -/
  pending : ℕ → Option MoreRequest
  /-- The result lists. -/
  served : List ServedCursor
  /-- The numbers that have been given. -/
  given : List ℤ

/-- What can happen. -/
inductive CursorAction where
  /-- A find without `singleBatch`, or an aggregate, replies with its first batch. -/
  | first (now : ℤ) (ns : Namespace) (documents : List Doc) (batchSize : ℤ)
  /-- A tailing cursor is opened. -/
  | openTail (now : ℤ) (ns : Text) (tail : TailEntry)
  /-- A `getMore` looks for a tailing cursor. -/
  | getMore (conn : ℕ) (now : ℤ) (db : Text) (body : Doc)
  /-- It takes a batch from a buffered one. -/
  | nextBatch (conn : ℕ) (now : ℤ)
  /-- A tailing cursor moves on. -/
  | advanceTail (id : ℤ) (afterSeq : ℕ)
  /-- `killCursors` comes to one of its values. -/
  | kill (v : Value)
  /-- The listener stops. -/
  | killAll

namespace CursorSystem

/-- One action. -/
def step (s : CursorSystem) : CursorAction → Option CursorSystem
  | .first now ns documents batchSize =>
    let take := firstBatchSize documents batchSize
    let opened := s.table.openCursor now ns.text (documents.drop take)
    let record : ServedCursor :=
      ⟨opened.1, ns, documents, documents.take take, opened.1, now, false⟩
    if (documents.drop take).isEmpty then some { s with served := s.served ++ [record] }
    else some { s with
      table := opened.2
      served := s.served.map (fun r => r.endIf (r.idle now)) ++ [record]
      given := s.given ++ [opened.1] }
  | .openTail now ns tail =>
    let opened := s.table.openTail now ns tail
    some { s with
      table := opened.2
      served := s.served.map fun r => r.endIf (r.idle now)
      given := s.given ++ [opened.1] }
  | .getMore conn now db body =>
    match s.pending conn, moreRequest db body with
    | none, .ok p =>
      let found := s.table.tailState now p.id p.ns.text
      some { s with
        table := found.2
        pending := Function.update s.pending conn (if found.1.isSome then none else some p) }
    | _, _ => none
  | .nextBatch conn now =>
    match s.pending conn with
    | none => none
    | some p =>
      match s.table.nextBatch now p.id p.ns.text p.batchSize with
      | .error _ => some { s with pending := Function.update s.pending conn none }
      | .ok (batch, exhausted, T) => some { s with
          table := T
          pending := Function.update s.pending conn none
          served := s.served.map (.fetch p now batch (if exhausted then 0 else p.id)) }
  | .advanceTail id afterSeq => some { s with table := s.table.advanceTail id afterSeq }
  | .kill v =>
    if valueIsNumeric v then some { s with
      table := (s.table.kill v.toDouble.truncate).2
      served := s.served.map fun r => r.endIf (decide (v.cursorNumber = r.number)) }
    else none
  | .killAll => some { s with
      table := s.table.killAll
      served := s.served.map (.endIf true) }

/-- No cursor has been opened. -/
def start : CursorSystem where
  table := ⟨⟨fun _ => none, 1, fun _ _ => rfl⟩, fun _ => none⟩
  pending _ := none
  served := []
  given := []

/-- The registry takes the request to be for the live cursor that the client means, and for a
tailing one only if it has the number that the client means. -/
def Directs (s : CursorSystem) (p : MoreRequest) : Prop :=
  (∀ r ∈ s.served, r.live = true → (p.Finds r ↔ p.Means r)) ∧
    ∀ c ∈ s.table.tailing p.id, c.ns = p.ns.text → p.number = p.id

/-- The condition on an action: a batch is taken from the cursor that is meant, and the cursor
that is meant is killed. -/
def Directed (s : CursorSystem) : CursorAction → Prop
  | .nextBatch conn _ => ∀ p ∈ s.pending conn, s.Directs p
  | .kill v => ∀ r ∈ s.served, r.live = true →
      (v.toDouble.truncate = r.number ↔ v.cursorNumber = r.number)
  | _ => True

instance (s : CursorSystem) (p : MoreRequest) : Decidable (s.Directs p) :=
  inferInstanceAs (Decidable (_ ∧ ∀ c ∈ s.table.tailing p.id, c.ns = p.ns.text → p.number = p.id))

/-- The condition can be evaluated. -/
instance Directed.decidable (s : CursorSystem) : (a : CursorAction) → Decidable (s.Directed a)
  | .nextBatch conn _ => inferInstanceAs (Decidable (∀ p ∈ s.pending conn, s.Directs p))
  | .kill v => inferInstanceAs (Decidable (∀ r ∈ s.served, r.live = true →
      (v.toDouble.truncate = r.number ↔ v.cursorNumber = r.number)))
  | .first _ _ _ _ | .openTail _ _ _ | .getMore _ _ _ _ | .advanceTail _ _ | .killAll =>
    inferInstanceAs (Decidable True)

/-- Buffered cursors lose and repeat nothing. -/
structure LosesNothing (s : CursorSystem) : Prop where
  /-- What a client has got is a front part of the result. -/
  isPrefix : ∀ r ∈ s.served, r.delivered <+: r.result
  /-- The number in the last reply is zero when that is all. -/
  reported_zero : ∀ r ∈ s.served, r.reported = 0 ↔ r.delivered = r.result
  /-- As long as a cursor is neither killed nor expired, it has the next documents, and says when
  they are the last ones. -/
  serves : ∀ r ∈ s.served, r.live = true → ∀ now n,
    s.table.tailState now r.number r.ns.text = (none, s.table) ∧
    ∃ batch exhausted T, s.table.nextBatch now r.number r.ns.text n = .ok (batch, exhausted, T) ∧
      batch ≠ [] ∧ r.delivered ++ batch <+: r.result ∧
      (exhausted = true ↔ r.delivered ++ batch = r.result)
  /-- Numbers are given once. -/
  given : s.given.Nodup
  /-- A number that was given to a cursor has no other owner. -/
  owner : s.served.Pairwise fun r r' => r.number = r'.number → r.number = 0
  /-- A cursor that is exhausted, killed, expired or of another namespace is not found. -/
  refuses : ∀ r ∈ s.served, ∀ p, s.Directs p → p.number = r.number →
    r.live = false ∨ p.ns ≠ r.ns → ∀ now,
    s.table.tailState now p.id p.ns.text = (none, s.table) ∧
    ∃ message, s.table.nextBatch now p.id p.ns.text p.batchSize = .error (cursorNotFound message)

end CursorSystem

/-! ## The invariant -/

/-- What a client has got, and what was reported to it. -/
structure ServedCursor.Sound (r : ServedCursor) : Prop where
  /-- It is a front part of the result. -/
  isPrefix : r.delivered <+: r.result
  /-- Zero is reported when that is all. -/
  reported_zero : r.reported = 0 ↔ r.delivered = r.result
  /-- Otherwise it is the number of the cursor. -/
  reported : r.reported = 0 ∨ r.reported = r.number

/-- What waits in the registry is what the client has not got. -/
structure ServedCursor.Rests (r : ServedCursor) (entry : CursorEntry) : Prop where
  /-- The namespace. -/
  ns : entry.ns = r.ns.text
  /-- The time of the last use. -/
  lastUsed : entry.lastUsed = r.lastUsed
  /-- The documents. -/
  remaining : r.delivered ++ entry.remaining = r.result
  /-- There are some. -/
  more : entry.remaining ≠ []

/-- The invariant. -/
structure CursorSystem.Inv (s : CursorSystem) : Prop where
  /-- Every client has what it should have. -/
  sound : ∀ r ∈ s.served, r.Sound
  /-- What a live cursor has not delivered waits in the registry. -/
  rests : ∀ r ∈ s.served, r.live = true →
    ∃ entry, s.table.buffered.cursors r.number = some entry ∧ r.Rests entry
  /-- What waits in the registry belongs to a live cursor. -/
  owned : ∀ id entry, s.table.buffered.cursors id = some entry →
    ∃ r ∈ s.served, r.live = true ∧ r.number = id
  /-- No number has two owners. -/
  owner : s.served.Pairwise fun r r' => r.number = r'.number → r.number = 0
  /-- Numbers are given in ascending order. -/
  ascending : s.given.Pairwise (· < ·)
  /-- They are positive, and the next one is new. -/
  given : ∀ id ∈ s.given, 1 ≤ id ∧ id < s.table.buffered.nextId
  /-- The next number is positive. -/
  next_pos : 1 ≤ s.table.buffered.nextId
  /-- The owners' numbers have been given. -/
  numbers : ∀ r ∈ s.served, r.number = 0 ∨ r.number ∈ s.given
  /-- So have those of the tailing cursors, and they have no other owner. -/
  tails : ∀ id c, s.table.tailing id = some c → id ∈ s.given ∧ ∀ r ∈ s.served, r.number ≠ id

variable {s s' : CursorSystem} {r r' : ServedCursor} {p : MoreRequest} {a : CursorAction}

/-- Ending a cursor changes nothing about what was delivered. -/
lemma ServedCursor.Sound.endIf (h : r.Sound) (b : Bool) : (r.endIf b).Sound :=
  ⟨h.isPrefix, h.reported_zero, h.reported⟩

/-- A cursor that is still live was live before. -/
lemma ServedCursor.live_endIf {b : Bool} : (r.endIf b).live = true ↔ r.live = true ∧ b = false := by
  simp only [ServedCursor.live, ServedCursor.endIf, Bool.not_or, Bool.and_eq_true,
    Bool.not_eq_true']
  tauto

/-- A live cursor has a number. -/
lemma ServedCursor.Sound.number_ne_zero (h : r.Sound) (hlive : r.live = true) : r.number ≠ 0 := by
  have hreported : r.reported ≠ 0 := by
    simp only [ServedCursor.live, Bool.and_eq_true, Bool.not_eq_true', decide_eq_false_iff_not]
      at hlive
    exact hlive.2
  rcases h.reported with hzero | hnumber
  · exact absurd hzero hreported
  · exact hnumber ▸ hreported

namespace CursorSystem

/-- The start satisfies the invariant. -/
lemma inv_start : start.Inv where
  sound := nofun
  rests := nofun
  owned := nofun
  owner := .nil
  ascending := .nil
  given := nofun
  next_pos := le_rfl
  numbers := nofun
  tails := nofun

/-- An owner is known by its number. -/
lemma Inv.eq_of_number (hI : s.Inv) (hr : r ∈ s.served) (hr' : r' ∈ s.served)
    (h : r.number = r'.number) (hne : r.number ≠ 0) : r = r' := by
  by_contra hdiff
  have hsymm : Std.Symm fun r r' : ServedCursor => r.number = r'.number → r.number = 0 :=
    ⟨fun x y hxy heq => heq.trans (hxy heq.symm)⟩
  exact hne (hI.owner.forall hr hr' hdiff h)

/-- Nobody owns the next number. -/
lemma Inv.number_ne_next (hI : s.Inv) (hr : r ∈ s.served) :
    r.number ≠ s.table.buffered.nextId := by
  have hpos := hI.next_pos
  rcases hI.numbers r hr with hzero | hmem
  · omega
  · exact ne_of_lt (hI.given _ hmem).2

/-- Owners without their deliveries. -/
lemma pairwise_owner_map {f : ServedCursor → ServedCursor} (hf : ∀ r, (f r).number = r.number)
    {served : List ServedCursor}
    (h : served.Pairwise fun r r' => r.number = r'.number → r.number = 0) :
    (served.map f).Pairwise fun r r' => r.number = r'.number → r.number = 0 := by
  rw [List.pairwise_map]
  simpa only [hf] using h

/-- Cursors end, and leave the registry. -/
lemma Inv.ends (hI : s.Inv) {T : CursorTable} (ends : ServedCursor → Bool)
    (hnext : T.buffered.nextId = s.table.buffered.nextId)
    (hkept : ∀ id entry, T.buffered.cursors id = some entry →
      s.table.buffered.cursors id = some entry)
    (hends : ∀ r ∈ s.served, r.live = true → ∀ entry,
      s.table.buffered.cursors r.number = some entry → entry.lastUsed = r.lastUsed →
        T.buffered.cursors r.number = if ends r then none else some entry)
    (htails : ∀ id c, T.tailing id = some c → ∃ c', s.table.tailing id = some c') :
    ({ s with table := T, served := s.served.map fun r => r.endIf (ends r) } :
      CursorSystem).Inv where
  sound := by
    intro _ hmem
    obtain ⟨r, hr, rfl⟩ := List.mem_map.1 hmem
    exact (hI.sound r hr).endIf _
  rests := by
    intro _ hmem hlive
    obtain ⟨r, hr, rfl⟩ := List.mem_map.1 hmem
    obtain ⟨hlive, hstays⟩ := ServedCursor.live_endIf.1 hlive
    obtain ⟨entry, hentry, hrests⟩ := hI.rests r hr hlive
    have hthere := hends r hr hlive entry hentry hrests.lastUsed
    rw [if_neg (by simp [hstays])] at hthere
    exact ⟨entry, hthere, hrests.ns, hrests.lastUsed, hrests.remaining, hrests.more⟩
  owned := by
    intro id entry hentry
    obtain ⟨r, hr, hlive, rfl⟩ := hI.owned id entry (hkept id entry hentry)
    obtain ⟨entry', hentry', hrests⟩ := hI.rests r hr hlive
    have hthere := hends r hr hlive entry' hentry' hrests.lastUsed
    refine ⟨r.endIf (ends r), List.mem_map_of_mem hr, ServedCursor.live_endIf.2 ⟨hlive, ?_⟩, rfl⟩
    by_contra hgone
    rw [if_pos (Bool.not_eq_false _ ▸ hgone), hentry] at hthere
    cases hthere
  owner := pairwise_owner_map (f := fun r => r.endIf (ends r)) (fun _ => rfl) hI.owner
  ascending := hI.ascending
  given := fun id hid => hnext ▸ hI.given id hid
  next_pos := hnext ▸ hI.next_pos
  numbers := by
    intro _ hmem
    obtain ⟨r, hr, rfl⟩ := List.mem_map.1 hmem
    exact hI.numbers r hr
  tails := by
    intro id c hc
    obtain ⟨c', hc'⟩ := htails id c hc
    obtain ⟨hgiven, hnot⟩ := hI.tails id c' hc'
    refine ⟨hgiven, fun _ hmem => ?_⟩
    obtain ⟨r, hr, rfl⟩ := List.mem_map.1 hmem
    exact hnot r hr

/-- Idle cursors expire. -/
lemma Inv.expireIdle (hI : s.Inv) (now : ℤ) :
    ({ s with
      table := s.table.expireIdle now
      served := s.served.map fun r => r.endIf (r.idle now) } : CursorSystem).Inv := by
  refine hI.ends (T := s.table.expireIdle now) _ rfl ?_ ?_ ?_
  · intro id entry hentry
    exact (Option.filter_eq_some_iff.1 hentry).1
  · intro r hr hlive entry hentry hused
    change (s.table.buffered.cursors r.number).filter _ = _
    rw [hentry]
    rw [Option.filter_some, ServedCursor.idle, ← hused]
    by_cases hidle : entry.lastUsed < now - idleTimeoutSeconds
    · simp [hidle]
    · simp [hidle]
  · intro id c hc
    exact ⟨c, (Option.filter_eq_some_iff.1 hc).1⟩

/-- A change of the tailing cursors, and of what connections wait for. -/
lemma Inv.retail (hI : s.Inv) {tailing : ℤ → Option TailingCursor}
    (htails : ∀ id c, tailing id = some c → ∃ c', s.table.tailing id = some c')
    (pending : ℕ → Option MoreRequest) :
    ({ s with table := { s.table with tailing := tailing }, pending := pending } :
      CursorSystem).Inv where
  sound := hI.sound
  rests := hI.rests
  owned := hI.owned
  owner := hI.owner
  ascending := hI.ascending
  given := hI.given
  next_pos := hI.next_pos
  numbers := hI.numbers
  tails id c hc := (htails id c hc).elim fun c' hc' => hI.tails id c' hc'

/-- A number is given. -/
lemma Inv.give (hI : s.Inv) :
    (s.given ++ [s.table.buffered.nextId]).Pairwise (· < ·) ∧
      ∀ id ∈ s.given ++ [s.table.buffered.nextId],
        1 ≤ id ∧ id < s.table.buffered.nextId + 1 := by
  constructor
  · refine List.pairwise_append.2 ⟨hI.ascending, List.pairwise_singleton _ _, ?_⟩
    intro id hid id' hid'
    rw [List.mem_singleton.1 hid']
    exact (hI.given id hid).2
  · intro id hid
    rcases List.mem_append.1 hid with hid | hid
    · have := hI.given id hid
      omega
    · rw [List.mem_singleton.1 hid]
      exact ⟨hI.next_pos, by omega⟩

/-- A tailing cursor is registered. -/
lemma Inv.registerTail (hI : s.Inv) (c : TailingCursor) :
    ({ s with
      table :=
        { buffered := s.table.buffered.skip
          tailing := Function.update s.table.tailing s.table.buffered.nextId (some c) }
      given := s.given ++ [s.table.buffered.nextId] } : CursorSystem).Inv where
  sound := hI.sound
  rests := hI.rests
  owned := hI.owned
  owner := hI.owner
  ascending := hI.give.1
  given := hI.give.2
  next_pos := Int.le_add_one hI.next_pos
  numbers r hr := (hI.numbers r hr).imp_right (List.mem_append_left _)
  tails := by
    intro id c' hc'
    by_cases hid : id = s.table.buffered.nextId
    · subst hid
      exact ⟨List.mem_append_right _ (List.mem_singleton.2 rfl),
        fun r hr => hI.number_ne_next hr⟩
    · change Function.update _ _ _ id = _ at hc'
      rw [Function.update_of_ne hid] at hc'
      obtain ⟨hgiven, hnot⟩ := hI.tails id c' hc'
      exact ⟨List.mem_append_left _ hgiven, hnot⟩

/-- A result that fits into its first batch. -/
lemma Inv.complete (hI : s.Inv) (hsound : r.Sound) (hnumber : r.number = 0)
    (hlive : r.live = false) : ({ s with served := s.served ++ [r] } : CursorSystem).Inv where
  sound := by
    intro r' hr'
    rcases List.mem_append.1 hr' with hr' | hr'
    · exact hI.sound r' hr'
    · rwa [List.mem_singleton.1 hr']
  rests := by
    intro r' hr' hlive'
    rcases List.mem_append.1 hr' with hr' | hr'
    · exact hI.rests r' hr' hlive'
    · rw [List.mem_singleton.1 hr', hlive] at hlive'
      cases hlive'
  owned id entry hentry :=
    let ⟨r', hr', hlive'⟩ := hI.owned id entry hentry
    ⟨r', List.mem_append_left _ hr', hlive'⟩
  owner := by
    refine List.pairwise_append.2 ⟨hI.owner, List.pairwise_singleton _ _, ?_⟩
    intro r' _ r'' hr'' heq
    rw [List.mem_singleton.1 hr'', hnumber] at heq
    exact heq
  ascending := hI.ascending
  given := hI.given
  next_pos := hI.next_pos
  numbers := by
    intro r' hr'
    rcases List.mem_append.1 hr' with hr' | hr'
    · exact hI.numbers r' hr'
    · exact .inl (List.mem_singleton.1 hr' ▸ hnumber)
  tails := by
    intro id c hc
    obtain ⟨hgiven, hnot⟩ := hI.tails id c hc
    refine ⟨hgiven, fun r' hr' => ?_⟩
    rcases List.mem_append.1 hr' with hr' | hr'
    · exact hnot r' hr'
    · rw [List.mem_singleton.1 hr', hnumber]
      have := (hI.given id hgiven).1
      omega

/-- A buffered cursor is registered. -/
lemma Inv.register (hI : s.Inv) {entry : CursorEntry} (hsound : r.Sound) (hrests : r.Rests entry)
    (hnumber : r.number = s.table.buffered.nextId) (hlive : r.live = true) :
    ({ s with
      table := { s.table with buffered := s.table.buffered.register entry }
      served := s.served ++ [r]
      given := s.given ++ [s.table.buffered.nextId] } : CursorSystem).Inv where
  sound := by
    intro r' hr'
    rcases List.mem_append.1 hr' with hr' | hr'
    · exact hI.sound r' hr'
    · rwa [List.mem_singleton.1 hr']
  rests := by
    intro r' hr' hlive'
    change ∃ e, Function.update _ _ _ _ = _ ∧ _
    rcases List.mem_append.1 hr' with hr' | hr'
    · rw [Function.update_of_ne (hI.number_ne_next hr')]
      exact hI.rests r' hr' hlive'
    · obtain rfl := List.mem_singleton.1 hr'
      rw [hnumber, Function.update_self]
      exact ⟨entry, rfl, hrests⟩
  owned := by
    intro id entry' hentry
    change Function.update _ _ _ _ = _ at hentry
    by_cases hid : id = s.table.buffered.nextId
    · exact ⟨r, List.mem_append_right _ (List.mem_singleton.2 rfl), hlive, hnumber.trans hid.symm⟩
    · rw [Function.update_of_ne hid] at hentry
      obtain ⟨r', hr', howned⟩ := hI.owned id entry' hentry
      exact ⟨r', List.mem_append_left _ hr', howned⟩
  owner := by
    refine List.pairwise_append.2 ⟨hI.owner, List.pairwise_singleton _ _, ?_⟩
    intro r' hr' r'' hr'' heq
    rw [List.mem_singleton.1 hr'', hnumber] at heq
    exact absurd heq (hI.number_ne_next hr')
  ascending := hI.give.1
  given := hI.give.2
  next_pos := Int.le_add_one hI.next_pos
  numbers := by
    intro r' hr'
    rcases List.mem_append.1 hr' with hr' | hr'
    · exact (hI.numbers r' hr').imp_right (List.mem_append_left _)
    · rw [List.mem_singleton.1 hr', hnumber]
      exact .inr (List.mem_append_right _ (List.mem_singleton.2 rfl))
  tails := by
    intro id c hc
    obtain ⟨hgiven, hnot⟩ := hI.tails id c hc
    refine ⟨List.mem_append_left _ hgiven, fun r' hr' => ?_⟩
    rcases List.mem_append.1 hr' with hr' | hr'
    · exact hnot r' hr'
    · rw [List.mem_singleton.1 hr', hnumber]
      exact (ne_of_lt (hI.given id hgiven).2).symm

/-! ## Steps -/

/-- The first batch of a result is as long as it should be. -/
lemma sound_first {id now : ℤ} {ns : Namespace} {documents : List Doc} {take : ℕ}
    (h : id = 0 ↔ documents.drop take = []) :
    (⟨id, ns, documents, documents.take take, id, now, false⟩ : ServedCursor).Sound where
  isPrefix := List.take_prefix _ _
  reported_zero := by
    refine h.trans ⟨fun hnil => ?_, fun hall => ?_⟩
    · exact List.take_of_length_le (List.drop_eq_nil_iff.1 hnil)
    · have hparts := List.take_append_drop take documents
      rw [show documents.take take = documents from hall] at hparts
      exact List.append_right_eq_self.1 hparts
  reported := .inr rfl

/-- A first batch keeps the invariant. -/
lemma Inv.first (hI : s.Inv) {now batchSize : ℤ} {ns : Namespace} {documents : List Doc}
    (h : s.step (.first now ns documents batchSize) = some s') : s'.Inv := by
  simp only [step] at h
  split at h
  · next hempty =>
    obtain rfl := Option.some.inj h
    have hzero : (s.table.openCursor now ns.text
        (documents.drop (firstBatchSize documents batchSize))).1 = 0 := by
      rw [CursorTable.openCursor, if_pos hempty]
    refine hI.complete (sound_first ?_) hzero ?_
    · rw [hzero]
      exact iff_of_true rfl (List.isEmpty_iff.1 hempty)
    · simp [ServedCursor.live, hzero]
  · next hrest =>
    obtain rfl := Option.some.inj h
    have hnext := hI.next_pos
    have hne : documents.drop (firstBatchSize documents batchSize) ≠ [] :=
      fun hnil => hrest (List.isEmpty_iff.2 hnil)
    rw [CursorTable.openCursor, if_neg hrest]
    refine (hI.expireIdle now).register (sound_first ?_) ⟨rfl, rfl, ?_, hne⟩ rfl ?_
    · change s.table.buffered.nextId = 0 ↔ _
      exact iff_of_false (by omega) hne
    · exact List.take_append_drop _ _
    · have hpos : s.table.buffered.nextId ≠ 0 := by omega
      change (!false && !decide (s.table.buffered.nextId = 0)) = true
      rw [decide_eq_false hpos]
      rfl

/-- A lookup of a tailing cursor changes no other. -/
lemma tailState_table (T : CursorTable) (now id : ℤ) (ns : Text) :
    ∃ tailing, (T.tailState now id ns).2 = { T with tailing := tailing } ∧
      ∀ other c, tailing other = some c → ∃ c', T.tailing other = some c' := by
  unfold CursorTable.tailState
  split
  · exact ⟨T.tailing, rfl, fun _ c hc => ⟨c, hc⟩⟩
  · next c hthere =>
    split
    · exact ⟨T.tailing, rfl, fun _ c hc => ⟨c, hc⟩⟩
    · refine ⟨_, rfl, fun other c' hc' => ?_⟩
      by_cases hother : other = id
      · exact ⟨c, hother ▸ hthere⟩
      · rw [Function.update_of_ne hother] at hc'
        exact ⟨c', hc'⟩

/-- A batch comes from a buffered cursor of that number on that namespace, unless it is the end of
a tailing one. -/
lemma nextBatch_cases {T T' : CursorTable} {now id n : ℤ} {ns : Text} {batch : List Doc}
    {exhausted : Bool} (h : T.nextBatch now id ns n = .ok (batch, exhausted, T')) :
    (∃ c, T.tailing id = some c ∧ c.ns = ns ∧
      T' = { T with tailing := Function.update T.tailing id none }) ∨
    ∃ entry R', T.buffered.cursors id = some entry ∧ entry.ns = ns ∧
      batch = entry.remaining.take (entry.wanted n) ∧
      exhausted = (entry.remaining.drop (entry.wanted n)).isEmpty ∧
      T' = { T with buffered := R' } ∧ R'.nextId = T.buffered.nextId ∧
      R'.cursors = Function.update T.buffered.cursors id
        (if (entry.remaining.drop (entry.wanted n)).isEmpty then none
          else some { entry with
            remaining := entry.remaining.drop (entry.wanted n), lastUsed := now }) := by
  unfold CursorTable.nextBatch at h
  split at h
  · next c hthere =>
    split at h
    · cases h
    · next hns =>
      cases h
      exact .inl ⟨c, hthere, not_not.1 hns, rfl⟩
  · cases hbatch : T.buffered.nextBatch now id ns n with
    | error e =>
      rw [hbatch] at h
      cases h
    | ok taken =>
      rw [hbatch] at h
      cases h
      by_cases hthere : ∃ entry, T.buffered.cursors id = some entry ∧ entry.ns = ns
      · obtain ⟨entry, hentry, hns⟩ := hthere
        obtain ⟨R', hrun, hnext, hcursors⟩ := CursorRegistry.nextBatch_run hentry hns now n
        obtain rfl := Except.ok.inj (hbatch.symm.trans hrun)
        exact .inr ⟨entry, R', hentry, hns, rfl, rfl, rfl, hnext, hcursors⟩
      · obtain ⟨message, hrefused⟩ := CursorRegistry.nextBatch_refuses
          (fun entry hentry hns => hthere ⟨entry, hentry, hns⟩) now n
        cases hbatch.symm.trans hrefused

/-- A batch leaves the number alone. -/
lemma number_fetch {now reported : ℤ} {batch : List Doc} :
    (r.fetch p now batch reported).number = r.number := by
  unfold ServedCursor.fetch
  split
  · rfl
  · rfl

/-- A front part is all when nothing is left. -/
lemma eq_result_iff {front rest result : List Doc} (h : front ++ rest = result) :
    front = result ↔ rest = [] := by
  rw [← h, eq_comm, List.append_right_eq_self]

/-- A batch keeps a client's part sound, and what is left waits for the next one. -/
lemma fetch_owner (hr : r.Sound) (hlive : r.live = true) {entry : CursorEntry}
    (hrests : r.Rests entry) (hmeans : p.Means r) (hid : p.id = r.number) (now : ℤ) (n : ℕ) :
    let fetched := r.fetch p now (entry.remaining.take n)
      (if (entry.remaining.drop n).isEmpty then 0 else p.id)
    fetched.Sound ∧ (fetched.live = true ↔ entry.remaining.drop n ≠ []) ∧
      (entry.remaining.drop n ≠ [] →
        fetched.Rests { entry with remaining := entry.remaining.drop n, lastUsed := now }) := by
  intro fetched
  have hparts : (r.delivered ++ entry.remaining.take n) ++ entry.remaining.drop n = r.result := by
    rw [List.append_assoc, List.take_append_drop, hrests.remaining]
  have hne : p.id ≠ 0 := hid ▸ hr.number_ne_zero hlive
  have hended : r.ended = false := by
    simp only [ServedCursor.live, Bool.and_eq_true, Bool.not_eq_true'] at hlive
    exact hlive.1
  have hfetched : fetched = { r with
      delivered := r.delivered ++ entry.remaining.take n
      reported := if (entry.remaining.drop n).isEmpty then 0 else p.id
      lastUsed := now } := if_pos hmeans
  have hzero : fetched.reported = 0 ↔ entry.remaining.drop n = [] := by
    rw [hfetched]
    by_cases hempty : (entry.remaining.drop n).isEmpty = true
    · exact iff_of_true (if_pos hempty) (List.isEmpty_iff.1 hempty)
    · exact iff_of_false ((if_neg hempty).symm ▸ hne) fun h => hempty (List.isEmpty_iff.2 h)
  refine ⟨⟨?_, ?_, ?_⟩, ?_, fun hmore => ?_⟩
  · rw [hfetched]
    exact ⟨_, hparts⟩
  · rw [hzero, ← eq_result_iff hparts, hfetched]
  · by_cases hnil : entry.remaining.drop n = []
    · exact .inl (hzero.2 hnil)
    · refine .inr ?_
      rw [hfetched]
      exact (if_neg fun h => hnil (List.isEmpty_iff.1 h)).trans hid
  · have hkeeps : fetched.ended = false := by rw [hfetched, hended]
    rw [ServedCursor.live, hkeeps]
    simp [hzero]
  · rw [hfetched]
    exact ⟨hrests.ns, rfl, hparts, hmore⟩

/-- One cursor moves on, and its entry with it. -/
lemma Inv.advance (hI : s.Inv) (hr : r ∈ s.served) (hlive : r.live = true)
    {f : ServedCursor → ServedCursor} (hnumber : ∀ r, (f r).number = r.number)
    (hother : ∀ r' ∈ s.served, r'.number ≠ r.number → f r' = r') (hsound : (f r).Sound)
    {R : CursorRegistry} {left : Option CursorEntry}
    (hnext : R.nextId = s.table.buffered.nextId)
    (hcursors : R.cursors = Function.update s.table.buffered.cursors r.number left)
    (hrests : (f r).live = true → ∃ entry, left = some entry ∧ (f r).Rests entry)
    (hleft : left ≠ none → (f r).live = true) (pending : ℕ → Option MoreRequest) :
    ({ s with
      table := { s.table with buffered := R }
      pending := pending
      served := s.served.map f } : CursorSystem).Inv where
  sound := by
    intro _ hmem
    obtain ⟨r', hr', rfl⟩ := List.mem_map.1 hmem
    by_cases heq : r'.number = r.number
    · obtain rfl := hI.eq_of_number hr hr' heq.symm ((hI.sound r hr).number_ne_zero hlive)
      exact hsound
    · rw [hother r' hr' heq]
      exact hI.sound r' hr'
  rests := by
    intro _ hmem hlive'
    obtain ⟨r', hr', rfl⟩ := List.mem_map.1 hmem
    change ∃ entry, R.cursors _ = some entry ∧ _
    rw [hnumber, hcursors]
    by_cases heq : r'.number = r.number
    · obtain rfl := hI.eq_of_number hr hr' heq.symm ((hI.sound r hr).number_ne_zero hlive)
      rw [Function.update_self]
      exact hrests hlive'
    · rw [Function.update_of_ne heq]
      rw [hother r' hr' heq] at hlive' ⊢
      exact hI.rests r' hr' hlive'
  owned := by
    intro id entry hentry
    change R.cursors id = _ at hentry
    rw [hcursors] at hentry
    by_cases heq : id = r.number
    · rw [heq, Function.update_self] at hentry
      refine ⟨f r, List.mem_map_of_mem hr, hleft ?_, (hnumber r).trans heq.symm⟩
      rw [hentry]
      exact Option.some_ne_none entry
    · rw [Function.update_of_ne heq] at hentry
      obtain ⟨r', hr', hlive', rfl⟩ := hI.owned id entry hentry
      have hsame := hother r' hr' heq
      exact ⟨f r', List.mem_map_of_mem hr', by rwa [hsame], hnumber r'⟩
  owner := pairwise_owner_map hnumber hI.owner
  ascending := hI.ascending
  given := fun id hid => hnext ▸ hI.given id hid
  next_pos := hnext ▸ hI.next_pos
  numbers := by
    intro _ hmem
    obtain ⟨r', hr', rfl⟩ := List.mem_map.1 hmem
    rw [hnumber]
    exact hI.numbers r' hr'
  tails := by
    intro id c hc
    obtain ⟨hgiven, hnot⟩ := hI.tails id c hc
    refine ⟨hgiven, fun _ hmem => ?_⟩
    obtain ⟨r', hr', rfl⟩ := List.mem_map.1 hmem
    rw [hnumber]
    exact hnot r' hr'

/-- The batch that a directed request gets is the next one of the cursor that is meant. -/
lemma Inv.fetch (hI : s.Inv) (hp : s.Directs p) (conn : ℕ) (now : ℤ) {batch : List Doc}
    {exhausted : Bool} {T : CursorTable}
    (h : s.table.nextBatch now p.id p.ns.text p.batchSize = .ok (batch, exhausted, T)) :
    ({ s with
      table := T
      pending := Function.update s.pending conn none
      served := s.served.map (.fetch p now batch (if exhausted then 0 else p.id)) } :
      CursorSystem).Inv := by
  rcases nextBatch_cases h with ⟨c, hc, hns, rfl⟩ |
    ⟨entry, R, hentry, hns, rfl, rfl, rfl, hnext, hcursors⟩
  · -- nobody has the number of a tailing cursor
    have hnumber := hp.2 c hc hns
    have hsame : ∀ r ∈ s.served,
        r.fetch p now batch (if exhausted then 0 else p.id) = r := by
      intro r hr
      exact if_neg fun hmeans => (hI.tails p.id c hc).2 r hr (hmeans.1.symm.trans hnumber)
    rw [List.map_congr_left hsame, List.map_id']
    refine hI.retail (fun other c' hc' => ?_) _
    by_cases hother : other = p.id
    · exact ⟨c, hother ▸ hc⟩
    · rw [Function.update_of_ne hother] at hc'
      exact ⟨c', hc'⟩
  · obtain ⟨owner, howner, hlive, hid⟩ := hI.owned p.id entry hentry
    obtain ⟨entry', hentry', hrests⟩ := hI.rests owner howner hlive
    obtain rfl : entry' = entry := Option.some.inj (hentry'.symm.trans (hid ▸ hentry))
    have hmeans : p.Means owner :=
      (hp.1 owner howner hlive).1 ⟨hid.symm, hns.symm.trans hrests.ns⟩
    obtain ⟨hsound, hstays, hleft⟩ :=
      fetch_owner (hI.sound owner howner) hlive hrests hmeans hid.symm now
        (entry'.wanted p.batchSize)
    have hother : ∀ r ∈ s.served, r.number ≠ owner.number → ∀ batch reported,
        r.fetch p now batch reported = r := by
      intro r hr hne batch reported
      exact if_neg fun hother => hne (hother.1.symm.trans hmeans.1)
    refine hI.advance howner hlive (fun _ => number_fetch) (fun r hr hne => hother r hr hne _ _)
      hsound hnext (hid ▸ hcursors) (fun hlive' => ?_) (fun hthere => ?_) _
    · have hmore := hstays.1 hlive'
      exact ⟨_, if_neg fun h => hmore (List.isEmpty_iff.1 h), hleft hmore⟩
    · exact hstays.2 fun hnil => hthere (if_pos (List.isEmpty_iff.2 hnil))

/-- **One step** keeps the invariant. -/
theorem Inv.step (hI : s.Inv) (hguard : s.Directed a) (h : s.step a = some s') : s'.Inv := by
  cases a with
  | first now ns documents batchSize => exact hI.first h
  | openTail now ns tail =>
    obtain rfl := Option.some.inj h
    exact (hI.expireIdle now).registerTail _
  | getMore conn now db body =>
    simp only [CursorSystem.step] at h
    split at h
    · next p _ _ =>
      obtain rfl := Option.some.inj h
      obtain ⟨tailing, htable, htails⟩ := tailState_table s.table now p.id p.ns.text
      rw [htable]
      exact hI.retail htails _
    · cases h
  | nextBatch conn now =>
    simp only [CursorSystem.step] at h
    split at h
    · cases h
    · next p hp =>
      split at h
      · obtain rfl := Option.some.inj h
        exact hI.retail (fun id c hc => ⟨c, hc⟩) _
      · next batch exhausted T hbatch =>
        obtain rfl := Option.some.inj h
        exact hI.fetch (hguard p hp) conn now hbatch
  | advanceTail id afterSeq =>
    obtain rfl := Option.some.inj h
    refine hI.retail (fun other c hc => ?_) s.pending
    by_cases hother : other = id
    · subst hother
      rw [Function.update_self] at hc
      obtain ⟨c', hc', -⟩ := Option.map_eq_some_iff.1 hc
      exact ⟨c', hc'⟩
    · rw [Function.update_of_ne hother] at hc
      exact ⟨c, hc⟩
  | kill v =>
    simp only [CursorSystem.step] at h
    split at h
    · obtain rfl := Option.some.inj h
      refine hI.ends _ rfl ?_ ?_ ?_
      · intro id entry hentry
        exact (Option.filter_eq_some_iff.1 hentry).1
      · intro r hr hlive entry hentry _
        change (s.table.buffered.cursors r.number).filter _ = _
        have hiff := hguard r hr hlive
        rw [hentry, Option.filter_some]
        by_cases hnumber : v.cursorNumber = r.number
        · simp [hnumber, hiff.2 hnumber]
        · have hne : ¬ r.number = v.toDouble.truncate := fun h => hnumber (hiff.1 h.symm)
          simp [hnumber, hne]
      · intro id c hc
        by_cases hid : id = v.toDouble.truncate
        · change Function.update _ _ _ _ = _ at hc
          rw [hid, Function.update_self] at hc
          cases hc
        · change Function.update _ _ _ _ = _ at hc
          rw [Function.update_of_ne hid] at hc
          exact ⟨c, hc⟩
    · cases h
  | killAll =>
    obtain rfl := Option.some.inj h
    refine hI.ends (T := s.table.killAll) (fun _ => true) rfl ?_ ?_ nofun
    · intro id entry hentry
      exact (Option.filter_eq_some_iff.1 hentry).1
    · intro r hr hlive entry hentry _
      change (s.table.buffered.cursors r.number).filter _ = _
      rw [hentry]
      rfl

/-- Every run keeps the invariant. -/
lemma Inv.run {as : List CursorAction} (h : Run CursorSystem.step Directed s as s') (hI : s.Inv) :
    s'.Inv :=
  h.invariant (fun _ _ _ hI hguard hstep => hI.step hguard hstep) hI

/-! ## What is lost -/

/-- A request that finds no live cursor and no tailing one is refused. -/
lemma refused (hI : s.Inv) {id : ℤ} {ns : Text}
    (hlive : ∀ r ∈ s.served, r.live = true → r.number = id → r.ns.text ≠ ns)
    (htail : ∀ c, s.table.tailing id = some c → c.ns ≠ ns) (now n : ℤ) :
    s.table.tailState now id ns = (none, s.table) ∧
      ∃ message, s.table.nextBatch now id ns n = .error (cursorNotFound message) := by
  have hnone : ∀ entry, s.table.buffered.cursors id = some entry → entry.ns ≠ ns := by
    intro entry hentry
    obtain ⟨r, hr, hrlive, rfl⟩ := hI.owned id entry hentry
    obtain ⟨entry', hentry', hrests⟩ := hI.rests r hr hrlive
    obtain rfl : entry' = entry := Option.some.inj (hentry'.symm.trans hentry)
    exact hrests.ns ▸ hlive r hr hrlive rfl
  obtain ⟨message, hrefused⟩ := CursorRegistry.nextBatch_refuses hnone now n
  unfold CursorTable.tailState CursorTable.nextBatch
  cases hthere : s.table.tailing id with
  | none => exact ⟨rfl, message, by rw [hrefused]; rfl⟩
  | some c =>
    have hne := htail c hthere
    exact ⟨if_pos hne, _, if_pos hne⟩

/-- **The invariant says that nothing is lost.** -/
theorem Inv.losesNothing (hI : s.Inv) : s.LosesNothing where
  isPrefix r hr := (hI.sound r hr).isPrefix
  reported_zero r hr := (hI.sound r hr).reported_zero
  serves := by
    intro r hr hlive now n
    obtain ⟨entry, hentry, hrests⟩ := hI.rests r hr hlive
    have htail : s.table.tailing r.number = none := by
      cases hthere : s.table.tailing r.number with
      | none => rfl
      | some c => exact absurd rfl ((hI.tails r.number c hthere).2 r hr)
    obtain ⟨R, hbatch, -⟩ := CursorRegistry.nextBatch_run hentry hrests.ns now n
    have hparts : (r.delivered ++ entry.remaining.take (entry.wanted n)) ++
        entry.remaining.drop (entry.wanted n) = r.result := by
      rw [List.append_assoc, List.take_append_drop, hrests.remaining]
    have hwanted : entry.wanted n ≠ 0 := by
      unfold CursorEntry.wanted
      split
      · omega
      · exact fun h => hrests.more (List.length_eq_zero_iff.1 h)
    refine ⟨by rw [CursorTable.tailState, htail], _,
      (entry.remaining.drop (entry.wanted n)).isEmpty,
      { s.table with buffered := R }, ?_, ?_, ⟨_, hparts⟩, ?_⟩
    · rw [CursorTable.nextBatch, htail, hbatch]
      rfl
    · rw [Ne, List.take_eq_nil_iff, not_or]
      exact ⟨hwanted, hrests.more⟩
    · rw [List.isEmpty_iff, eq_result_iff hparts]
  given := hI.ascending.imp fun h => ne_of_lt h
  owner := hI.owner
  refuses := by
    intro r hr p hp hnumber hbad now
    refine refused hI (fun r' hr' hlive' hid hns => ?_) (fun c hc hns => ?_) now p.batchSize
    · -- the live cursor that is found is the one that is meant
      have hmeans := (hp.1 r' hr' hlive').1 ⟨hid.symm, hns.symm⟩
      have hne := (hI.sound r' hr').number_ne_zero hlive'
      obtain rfl := hI.eq_of_number hr' hr (hmeans.1.symm.trans hnumber) hne
      rcases hbad with hdead | hother
      · rw [hdead] at hlive'
        cases hlive'
      · exact hother hmeans.2
    · have hid := hp.2 c hc hns
      exact (hI.tails p.id c hc).2 r hr (hnumber.symm.trans hid)

/-- **Buffered cursors.**  In every run in which every `getMore` takes its batch from the cursor
that its client means, and every `killCursors` kills that cursor, buffered cursors lose and repeat
nothing: whatever the batch sizes are, and whatever other connections open, read and kill. -/
theorem buffered_cursors {as : List CursorAction} (h : Run CursorSystem.step Directed start as s) :
    s.LosesNothing :=
  (inv_start.run h).losesNothing

/-- A document with a number. -/
def numbered (n : Int32) : Doc := [("n".toList, .int32 n)]

/-- A `getMore` for the first cursor. -/
def moreOfFirst (collection : String) (batchSize : Int32) : Doc :=
  [("getMore".toList, .int64 1), ("collection".toList, .utf8 collection.toList),
    ("batchSize".toList, .int32 batchSize)]

/-- One client reads three documents, one at a time and then all that is left, while another opens
a cursor, a change stream is opened, and both of them are killed. -/
def twoClients : List CursorAction :=
  [.first 0 ⟨"app".toList, "items".toList⟩ [numbered 1, numbered 2, numbered 3] 1,
    .first 0 ⟨"app".toList, "items".toList⟩ [numbered 1, numbered 2] 0,
    .getMore 0 1 "app".toList (moreOfFirst "items" 1),
    .openTail 1 "app.items".toList ⟨[], 0, true, true⟩,
    .nextBatch 0 2, .kill (.int64 2), .kill (.int64 3),
    .getMore 1 3 "app".toList (moreOfFirst "items" 0), .nextBatch 1 3]

/-- The first client gets its three documents, and the second cursor is not found again. -/
theorem buffered_cursors_twoClients : ∃ s, Run CursorSystem.step Directed start twoClients s ∧
    s.LosesNothing ∧
      s.served.map (fun r => (r.delivered.length, r.reported)) = [(3, 0), (0, 2)] := by
  have h : (runActions (fun s a => if Directed s a then CursorSystem.step s a else none) start
      twoClients).any (fun s => decide
        (s.served.map (fun r => (r.delivered.length, r.reported)) = [(3, 0), (0, 2)])) = true := by
    decide +kernel
  obtain ⟨s, hs, hgot⟩ := Option.any_eq_true _ _ |>.1 h
  have hrun := run_of_runActions hs
  exact ⟨s, hrun, buffered_cursors hrun, of_decide_eq_true hgot⟩

/-- Two accepted namespaces with one text: a client of the second takes a batch from the cursor of
the first, whose owner then misses a document and is told that there are no more. -/
theorem buffered_cursors_dotted :
    let a : Namespace := ⟨"a.b".toList, "c".toList⟩
    let b : Namespace := ⟨"a".toList, "b.c".toList⟩
    parseNamespace a.db a.collection = .ok a ∧ parseNamespace b.db b.collection = .ok b ∧ a ≠ b ∧
      ∃ s, Steps CursorSystem.step start
        [.first 0 a [numbered 1, numbered 2, numbered 3] 1,
          .getMore 0 0 b.db (moreOfFirst "b.c" 1), .nextBatch 0 0,
          .getMore 1 0 a.db (moreOfFirst "c" 1), .nextBatch 1 0] s ∧
        (∃ r ∈ s.served, r.ns = a ∧ r.ended = false ∧ r.reported = 0 ∧
          r.delivered ≠ r.result) ∧ ¬ s.LosesNothing := by
  intro a b
  refine ⟨rfl, rfl, by decide, ?_⟩
  have h : (runActions CursorSystem.step start
      [.first 0 a [numbered 1, numbered 2, numbered 3] 1,
        .getMore 0 0 b.db (moreOfFirst "b.c" 1), .nextBatch 0 0,
        .getMore 1 0 a.db (moreOfFirst "c" 1), .nextBatch 1 0]).any (fun s =>
      s.served.any fun r => decide (r.ns = a ∧ r.ended = false ∧ r.reported = 0 ∧
        r.delivered.length ≠ r.result.length)) = true := by
    decide +kernel
  obtain ⟨s, hs, hgot⟩ := Option.any_eq_true _ _ |>.1 h
  obtain ⟨r, hr, hlost⟩ := List.any_eq_true.1 hgot
  obtain ⟨hns, hended, hreported, hlength⟩ := of_decide_eq_true hlost
  have hne : r.delivered ≠ r.result := fun heq => hlength (congrArg List.length heq)
  exact ⟨s, steps_of_runActions hs, ⟨r, hr, hns, hended, hreported, hne⟩,
    fun hall => hne ((hall.reported_zero r hr).1 hreported)⟩

/-- Where the database names have no dots and the number survives the double, a request is
directed. -/
lemma directs_of_dotless (hid : p.id = p.number) (hp : '.' ∉ p.ns.db)
    (hserved : ∀ r ∈ s.served, '.' ∉ r.ns.db) : s.Directs p := by
  refine ⟨fun r hr _ => ?_, fun _ _ _ => hid.symm⟩
  rw [MoreRequest.Finds, MoreRequest.Means, hid]
  refine and_congr_right fun _ => ⟨fun htext => ?_, fun hns => congrArg Namespace.text hns⟩
  exact eq_of_text_eq hp (hserved r hr) htext

end CursorSystem

/-! ## The commands -/

/-- The registry answers its calls, and another server the rest. -/
def registryServer {S : Type} (now : ℤ) (rest : WireServer S) : WireServer (CursorTable × S)
  | .registry call, (T, s) => ((T.answer now call).1, ((T.answer now call).2, s))
  | q, (T, s) => ((rest q s).1, (T, (rest q s).2))

/-- What a find on a collection returns, all in all. -/
def foundDocuments (ctx : Ctx) (ns : Namespace) : WireProgram (List Doc) := do
  let there ← onCollection (askExists ns)
  if there then do
      let found ← onCollection (load ctx.L ns (ctx.subDocument "filter".toList))
      ofExcept (shapeResults found (ctx.subDocument "sort".toList)
        (ctx.subDocument "projection".toList) (numberField ctx.body "skip".toList 0)
        (numberField ctx.body "limit".toList 0))
    else pure []

/-- The end of `cmd_find` and of `cmd_aggregate`: the first batch, and a cursor for the rest. -/
def replyFirst (ctx : Ctx) (ns : Text) (documents : List Doc) (single : Bool) :
    WireProgram Doc := do
  let take := firstBatchSize documents (numberField ctx.body "batchSize".toList defaultBatchSize)
  let id ← if single then pure (0 : ℤ) else registry (.openCursor ns (documents.drop take))
  return cursorReply id ns "firstBatch" (documents.take take) none

/-- A find looks up its documents, and replies. -/
lemma findCollection_eq (ctx : Ctx) (ns : Namespace) :
    findCollection ctx ns = foundDocuments ctx ns >>= fun documents =>
      replyFirst ctx ns.text documents (flag ctx.body "singleBatch".toList false ||
        decide (numberField ctx.body "limit".toList 0 < 0)) := by
  unfold findCollection foundDocuments
  rw [bind_bind]
  refine bind_congr fun there => ?_
  cases there with
  | true =>
    simp only [if_true, bind_bind]
    rfl
  | false => rfl

/-- The first batch and its cursor: what the run system does at once. -/
lemma serve_replyFirst {S : Type} (now : ℤ) (rest : WireServer S) (ctx : Ctx) (ns : Text)
    (documents : List Doc) {single : Bool} (T : CursorTable) (s : S) :
    let take := firstBatchSize documents (numberField ctx.body "batchSize".toList defaultBatchSize)
    let opened := T.openCursor now ns (documents.drop take)
    (single = true → (documents.drop take).isEmpty = true) →
    (replyFirst ctx ns documents single).serve (registryServer now rest) (T, s) =
      (.ok (cursorReply opened.1 ns "firstBatch" (documents.take take) none), (opened.2, s)) := by
  intro take opened hsingle
  cases single with
  | false => rfl
  | true =>
    have hnone : opened = (0, T) := if_pos (hsingle rfl)
    rw [hnone]
    rfl

/-- A `getMore` is read, looks for a tailing cursor, and else takes a batch. -/
lemma cmdGetMore_eq (ctx : ReadCtx) :
    cmdGetMore ctx = do
      let p ← ofExcept (moreRequest ctx.db ctx.body)
      match ← registry (.tailState p.id p.ns.text) with
      | some tail => tailBatch ctx p.id p.ns tail p.batchSize
      | none =>
        match ← registry (.nextBatch p.id p.ns.text p.batchSize) with
        | .error e => .fail e
        | .ok (batch, exhausted) =>
          return cursorReply (if exhausted then 0 else p.id) p.ns.text "nextBatch" batch none := by
  unfold cmdGetMore moreRequest
  cases findField ctx.body "getMore".toList with
  | none => rfl
  | some v =>
    dsimp only
    by_cases hnumeric : (!valueIsNumeric v) = true
    · rw [if_pos hnumeric, if_pos hnumeric]
      rfl
    · rw [if_neg hnumeric, if_neg hnumeric]
      cases parseNamespace ctx.db (textField ctx.body "collection".toList) with
      | error e => rfl
      | ok ns =>
        refine bind_congr (m := WireProgram)
          (x := registry (.tailState v.toDouble.truncate ns.text)) fun tail => ?_
        cases tail with
        | some tail => rfl
        | none =>
          refine bind_congr (m := WireProgram) fun taken => ?_
          cases taken with
          | error e => rfl
          | ok taken => rfl

end Chimera
