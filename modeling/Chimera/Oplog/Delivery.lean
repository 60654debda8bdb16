import Chimera.Oplog.Handover

/-!
# What tailing cursors deliver

A cursor delivers exactly the selected events between its start and its position, each once and
in order, in every interleaving of writers, prune passes, opens and `getMore` calls.

A `getMore` stores its position before it replies.  Where a change stream's fails in between, on the
operation time that its reply ends with, the page is lost (`changeStream_loses_page`).  The first
batch of a tailing find takes its position from a head sampled before the read, and may hold rows
that are newer than that (`find_repeats_entry`).
-/

namespace Chimera

open SequencedLog StepSystem

namespace TailSessions

variable {s : TailSessions} {a : SessionAction} {id start : ℕ} {rows : List OplogRow}
  {entry : RegistryEntry} {whole auto : Prop}

/-- The gateway has just been started on a new or a migrated oplog. -/
structure Started (s : TailSessions) : Prop where
  /-- Nothing has happened yet. -/
  initial : s.Initial
  /-- The oplog is new or migrated. -/
  installed : s.server.Installed
  /-- There are no cursors. -/
  cursors : ∀ id, s.cursors id = none

/-- The invariant holds at the start. -/
lemma Started.attends (hs : s.Started) (hwhole : whole → s.server.lost = []) (id : ℕ) :
    s.Attends whole auto id := by
  have hidle := hs.initial.idle
  have hnumbered : s.Numbered :=
    ⟨fun id _ => hs.cursors id, fun conn => by rw [hidle conn]; trivial⟩
  refine ⟨⟨hs.initial.settled hs.installed hnumbered, fun d hd => ?_, fun conn _ hconn => ?_⟩,
    fun h => ⟨hs.installed.quiescent.deleted_eq, hwhole h⟩, fun _ conn _ _ _ hfound => ?_,
    fun conn _ _ hcopy => ?_, fun _ _ hentry => ?_⟩
  · rw [hs.initial.delivered] at hd
    exact absurd hd List.not_mem_nil
  · rw [hidle conn] at hconn
    cases hconn
  · cases (hidle conn).symm.trans hfound
  · rw [hidle conn] at hcopy
    cases hcopy
  · cases (hs.cursors id).symm.trans hentry

/-- A `getMore` that reads in autocommit sees everything. -/
lemma InAutocommit.sees (h : InAutocommit id s a) : SeesSelected id s a := by
  cases a with
  | advance conn =>
    intro entry wanted head page hcommand
    exact .inl (h (by rw [hcommand]; rfl))
  | _ => trivial

/-- What a run makes of a change stream that is read in autocommit. -/
lemma Started.attends_stream {t : TailSessions} {as : List SessionAction} (hs : s.Started)
    (h : Run TailSessions.step
      (fun s a => OneAtATime id s a ∧ InAutocommit id s a ∧ Replies id s a) s as t) :
    t.Attends False True id :=
  h.invariant (P := Attends False True id)
    (fun _ _ _ hA hg hstep => hA.step
      ⟨hg.1, hg.2.1.sees, hg.2.2, fun _ => hg.2.1, False.elim, False.elim⟩ hstep)
    (hs.attends False.elim id)

/-- What a change stream has handed out is what it selects up to its position, all committed. -/
lemma Attends.spans_stream (hA : s.Attends False True id) {ns : Text}
    (hopened : s.opened id = .openingStream ns start) (hentry : s.cursors id = some entry)
    (hrows : s.HandedOut id rows) :
    s.Spans (fun r => decide (s.fold r.ns = s.fold ns)) start entry.tail.afterSeq rows ∧
      rows ⊆ s.server.committed := by
  obtain ⟨⟨registered, page, afterSeq, hregisters, hmoved⟩, hspans, hcommitted⟩ :=
    hA.cursor entry rows hentry hrows
  rw [hopened] at hregisters hspans
  cases hregisters
  obtain ⟨hns, hstream⟩ : entry.ns = ns ∧ entry.tail.changeStream = true := by
    rw [hmoved]
    exact ⟨rfl, rfl⟩
  have hselects : entry.selects s.fold = fun r => decide (s.fold r.ns = s.fold ns) := by
    funext r
    simp [RegistryEntry.selects, TailState.selects, hstream, hns]
  exact ⟨hselects ▸ hspans (.inr hstream) start rfl, hcommitted trivial hstream⟩

/-! ## Delivery -/

/-- **Change streams are complete.**  In every run of writers, prune passes, opens, kills and
`getMore` calls on any number of connections, each statement a step, from a new or a migrated oplog:
let the `getMore` calls on a change stream be made one at a time and in autocommit, let none of them
fail between storing its position and replying with a page, and let no other namespace with
committed events have a text that the collation does not tell from the stream's.  Then what the
stream has delivered, together with the page that it is about to reply with, is exactly the events
committed on its namespace after its start and up to its position, each once and in sequence
order. -/
theorem changeStream_delivers_exactly {s t : TailSessions} {as : List SessionAction}
    {id start : ℕ} {ns : Text} {entry : RegistryEntry} {due : List OplogRow} (hs : s.Started)
    (h : Run TailSessions.step
      (fun s a => OneAtATime id s a ∧ InAutocommit id s a ∧ Replies id s a) s as t)
    (hopened : t.opened id = .openingStream ns start) (hentry : t.cursors id = some entry)
    (hdue : t.Due id due)
    (hfold : ∀ r ∈ t.server.committed, t.fold r.ns = t.fold ns → r.ns = ns) :
    start ≤ entry.tail.afterSeq ∧
    (t.server.committed.Pairwise fun a b => a.seq < b.seq) ∧
    (t.deliveredBy id ++ due).map eventExpr = (t.server.committed.filter fun r =>
      decide (start < r.seq) && decide (r.seq ≤ entry.tail.afterSeq) &&
        decide (r.ns = ns)).map eventExpr := by
  have hA := hs.attends_stream h
  have hseq := (Sequenced.append_iff.1 hA.orderly.settled.sound.backed.server.sequenced).1
  obtain ⟨hspan, hcommitted⟩ := hA.spans_stream hopened hentry ⟨due, hdue, rfl⟩
  refine ⟨hspan.le, hseq, ?_⟩
  rw [hspan.eq_window hseq hcommitted, window]
  congr 1
  refine List.filter_congr fun r hr => ?_
  have hsame : t.fold r.ns = t.fold ns ↔ r.ns = ns := ⟨hfold r hr, congrArg t.fold⟩
  simp only [hsame]

/-- No other connection has a `getMore` under way. -/
def CalledBy (conn : ℕ) (s : TailSessions) : Prop :=
  ∀ other, (s.commands other).cursor ≠ none → other = conn

/-- The calls of a single connection are made one at a time. -/
lemma CalledBy.step {s' : TailSessions} {conn : ℕ} (hs : s.CalledBy conn)
    (ha : ∀ other ∈ a.caller, other = conn) (h : s.step a = some s') :
    s'.CalledBy conn ∧ ∀ id, OneAtATime id s a := by
  refine ⟨fun other hother => ?_, fun id => ?_⟩
  · obtain ⟨i, hi⟩ := Option.ne_none_iff_exists'.1 hother
    rcases cursor_step h hi with hold | ⟨⟨ns, batchSize, rfl⟩, -⟩
    · exact hs other (by rw [hold]; exact Option.some_ne_none i)
    · exact ha other rfl
  · cases a with
    | getMore other i ns batchSize =>
      obtain rfl := ha other rfl
      rintro - third hthird
      have hidle : s.commands other = .idle := by
        simp only [TailSessions.step] at h
        split at h
        · assumption
        · cases h
      obtain rfl := hs third (by rw [hthird]; exact Option.some_ne_none id)
      rw [hidle] at hthird
      cases hthird
    | _ => trivial

/-- So they are in a whole run. -/
lemma CalledBy.run {guard : TailSessions → SessionAction → Prop} {t : TailSessions} {conn : ℕ}
    {as : List SessionAction} (hs : s.CalledBy conn) (h : Run TailSessions.step guard s as t)
    (has : ∀ a ∈ as, ∀ other ∈ a.caller, other = conn) (id : ℕ) :
    Run TailSessions.step (fun s a => OneAtATime id s a ∧ guard s a) s as t := by
  have hcalled := (h.and_forall_mem has).strengthen (P := CalledBy conn)
    (G := fun s a => OneAtATime id s a) (fun s a s' hs hg hstep => ?_) hs
  · exact hcalled.mono fun s a hg => ⟨hg.2, hg.1.2⟩
  · obtain ⟨hs', hone⟩ := hs.step hg.1 hstep
    exact ⟨hs', hone id⟩

instance InAutocommit.decidable (id : ℕ) (s : TailSessions) :
    (a : SessionAction) → Decidable (InAutocommit id s a)
  | .advance conn => inferInstanceAs (Decidable ((s.commands conn).cursor = some id → _))
  | .server _ | .openView _ | .closeView _ | .resolveStart _ _ _ | .checkStart _ | .findHead _ _
  | .findSelect _ | .findOpen _ | .getMore _ _ _ _ | .sampleHead _ | .select _ | .check _
  | .park _ | .reply _ | .fail _ | .kill _ => .isTrue trivial

instance Replies.decidable (id : ℕ) (s : TailSessions) :
    (a : SessionAction) → Decidable (Replies id s a)
  | .fail conn => inferInstanceAs (Decidable ((s.commands conn).reply id = []))
  | .server _ | .openView _ | .closeView _ | .resolveStart _ _ _ | .checkStart _ | .findHead _ _
  | .findSelect _ | .findOpen _ | .getMore _ _ _ _ | .sampleHead _ | .select _ | .check _
  | .park _ | .advance _ | .reply _ | .kill _ => .isTrue trivial

instance BatchSettled.decidable (s : TailSessions) (conn : ℕ) :
    (command : TailCommand) → Decidable (s.BatchSettled conn command)
  | .finding req _ =>
    inferInstanceAs (Decidable (req.tailable = true → req.newestFirst = false → _ ∧ _))
  | .idle | .openingStream _ _ | .found _ _ _ | .sampling _ _ _ | .selecting _ _ _ _
  | .checking _ _ _ _ _ | .selected _ _ _ _ _ | .replying _ _ => .isTrue trivial

instance FirstBatchSettled.decidable (s : TailSessions) :
    (a : SessionAction) → Decidable (FirstBatchSettled s a)
  | .findSelect conn => inferInstanceAs (Decidable (s.BatchSettled conn (s.commands conn)))
  | .server _ | .openView _ | .closeView _ | .resolveStart _ _ _ | .checkStart _ | .findHead _ _
  | .findOpen _ | .getMore _ _ _ _ | .sampleHead _ | .select _ | .check _ | .park _ | .advance _
  | .reply _ | .fail _ | .kill _ => .isTrue trivial

/-- A new oplog without cursors is a start. -/
lemma fresh_started : fresh.Started :=
  ⟨fresh_initial, OplogServer.newOplog_installed, fun _ => rfl⟩

/-- At first no calls are under way. -/
lemma Started.calledBy (hs : s.Started) (conn : ℕ) : s.CalledBy conn := by
  intro other hother
  rw [hs.initial.idle other] at hother
  exact absurd rfl hother

/-- A change stream on `a.b`, opened at the head of a new oplog; two writers commit between the
statements of a `getMore`. -/
def streamRun : List SessionAction :=
  [.resolveStart 2 "a.b".toList .head, .checkStart 2, .server (.append 1 (plainAppend 10)),
    .getMore 2 1 "a.b".toList 2, .sampleHead 2, .server (.commit 1), .select 2,
    .server (.append 3 (plainAppend 11)), .check 2, .server (.commit 3), .advance 2, .reply 2]

/-- That change stream has delivered the first event, and is positioned after it. -/
theorem changeStream_delivers_exactly_streamRun :
    ∃ t entry, Run TailSessions.step
        (fun s a => OneAtATime 1 s a ∧ InAutocommit 1 s a ∧ Replies 1 s a) fresh streamRun t ∧
      t.cursors 1 = some entry ∧ entry.tail.afterSeq = 1 ∧
      t.deliveredBy 1 = [OplogServer.eventAt 1 10] ∧ t.server.committed.length = 2 ∧
      (t.deliveredBy 1 ++ []).map eventExpr = (t.server.committed.filter fun r =>
        decide (0 < r.seq) && decide (r.seq ≤ entry.tail.afterSeq) &&
          decide (r.ns = "a.b".toList)).map eventExpr := by
  obtain ⟨t, entry, hrun, hopened, hentry, hpos, hdelivered, hcommitted, hquiet, hfold⟩ :
      ∃ t entry,
      Run TailSessions.step (fun s a => InAutocommit 1 s a ∧ Replies 1 s a) fresh streamRun t ∧
      t.opened 1 = .openingStream "a.b".toList 0 ∧ t.cursors 1 = some entry ∧
      entry.tail.afterSeq = 1 ∧ t.deliveredBy 1 = [OplogServer.eventAt 1 10] ∧
      t.server.committed.length = 2 ∧ (∀ conn page, t.commands conn ≠ .replying 1 page) ∧
      ∀ ns, t.fold ns = ns := by
    refine ⟨_, _, run_of_runActions rfl, rfl, rfl, rfl, rfl, rfl, fun conn page => ?_,
      fun _ => rfl⟩
    simp [TailSessions.setCommand, TailSessions.register, fresh]
  have hone := (fresh_started.calledBy 2).run hrun
    (by simp [streamRun, SessionAction.caller]) 1
  exact ⟨t, entry, hone, hentry, hpos, hdelivered, hcommitted,
    (changeStream_delivers_exactly fresh_started hone hopened hentry (.inr ⟨rfl, hquiet⟩)
      fun r _ hr => by rwa [hfold, hfold] at hr).2.2⟩

/-- A call stores its position and then fails: the event at that position is not delivered. -/
theorem changeStream_loses_page :
    ¬ ∀ (s t : TailSessions) (as : List SessionAction) (id start : ℕ) (ns : Text)
        (entry : RegistryEntry) (due : List OplogRow), s.Started →
      Run TailSessions.step (fun s a => OneAtATime id s a ∧ InAutocommit id s a) s as t →
      t.opened id = .openingStream ns start → t.cursors id = some entry → t.Due id due →
      (t.deliveredBy id ++ due).map eventExpr = (t.server.committed.filter fun r =>
        decide (start < r.seq) && decide (r.seq ≤ entry.tail.afterSeq) &&
          decide (r.ns = ns)).map eventExpr := by
  intro h
  obtain ⟨t, entry, hrun, hopened, hentry, hdelivered, hevents, hquiet⟩ : ∃ t entry,
      Run TailSessions.step (InAutocommit 1) fresh
        (openAndWrite ++ [.getMore 2 1 "a.b".toList 101, .sampleHead 2, .select 2, .check 2,
          .advance 2, .fail 2]) t ∧
      t.opened 1 = .openingStream "a.b".toList 0 ∧ t.cursors 1 = some entry ∧
      t.deliveredBy 1 = [] ∧
      (t.server.committed.filter fun r => decide (0 < r.seq) &&
        decide (r.seq ≤ entry.tail.afterSeq) && decide (r.ns = "a.b".toList)).length = 1 ∧
      ∀ conn page, t.commands conn ≠ .replying 1 page := by
    refine ⟨_, _, run_of_runActions rfl, rfl, rfl, rfl, rfl, fun conn page => ?_⟩
    simp [TailSessions.setCommand, TailSessions.register, fresh]
  have hone := (fresh_started.calledBy 2).run hrun
    (by simp [openAndWrite, SessionAction.caller]) 1
  have hsame := congrArg List.length
    (h fresh t _ 1 0 _ entry [] fresh_started hone hopened hentry (.inr ⟨rfl, hquiet⟩))
  rw [hdelivered, List.length_map, List.length_map, hevents] at hsame
  cases hsame

/-- **Tailing finds deliver exactly once, when first batches are settled.**  In every run without
pruning in which each tailing find in natural order reads a settled first batch, and the `getMore`
calls on a cursor are made one at a time, see everything that it selects when they store a position
and do not fail before they reply: a cursor that a find in natural order has opened has delivered,
or is about to, matching entries up to its position, each once and in sequence order, and none of
them is left out. -/
theorem find_delivers_exactly {s t : TailSessions} {as : List SessionAction} {id head : ℕ}
    {req : FindRequest} {page due : List OplogRow} {entry : RegistryEntry} (hs : s.Started)
    (hlost : s.server.lost = [])
    (h : Run TailSessions.step (fun s a => a.prunes = false ∧ FirstBatchSettled s a ∧
      OneAtATime id s a ∧ SeesSelected id s a ∧ Replies id s a) s as t)
    (hopened : t.opened id = .found req head page) (hnatural : req.newestFirst = false)
    (hentry : t.cursors id = some entry) (hdue : t.Due id due) :
    ((t.deliveredBy id ++ due).Pairwise fun a b => a.seq < b.seq) ∧
    (∀ r ∈ t.deliveredBy id ++ due,
      req.filter (entryExpr r) = true ∧ r.seq ≤ entry.tail.afterSeq) ∧
    ∀ r ∈ t.server.committed, req.filter (entryExpr r) = true → r.seq ≤ entry.tail.afterSeq →
      r ∈ t.deliveredBy id ++ due := by
  have hA : t.Attends True False id := h.invariant (P := Attends True False id)
    (fun _ _ _ hA hg hstep => hA.step
      ⟨hg.2.2.1, hg.2.2.2.1, hg.2.2.2.2, False.elim, fun _ => hg.1, fun _ => hg.2.1⟩ hstep)
    (hs.attends (fun _ => hlost) id)
  obtain ⟨⟨registered, batch, afterSeq, hregisters, hmoved⟩, hspans, -⟩ :=
    hA.cursor entry _ hentry ⟨due, hdue, rfl⟩
  rw [hopened] at hregisters hspans
  cases hregisters
  have hspan := hspans (.inl trivial) 0 (by simp [TailCommand.origin, hnatural])
  have hselects (r : OplogRow) : entry.selects t.fold r = req.filter (entryExpr r) := by
    rw [hmoved]
    simp [RegistryEntry.selects, TailState.selects]
  have hsound := hA.orderly.settled.sound.backed
  have hpos : ∀ r ∈ t.server.committed, 0 < r.seq := fun r hr => by
    have hbase := (hsound.anchored.beyond r (List.mem_append_left _ hr)).resolve_left (by
      rw [(hA.intact trivial).2]
      exact List.not_mem_nil)
    omega
  refine ⟨hspan.ordered, fun r hr => ?_, fun r hr hmatch hle => ?_⟩
  · obtain ⟨-, hle, hsel⟩ := hspan.selected r hr
    exact ⟨hselects r ▸ hsel, hle⟩
  · exact hspan.complete r (List.mem_append_left _ hr) (hselects r ▸ hmatch) (hpos r hr) hle

/-- A tailing find of everything, in natural order. -/
def tailAll : FindRequest :=
  { ns := "local.oplog.rs".toList, filter := fun _ => true, newestFirst := false, limit := 0,
    batchSize := 101, tailable := true, awaitData := false }

/-- A `getMore` of a connection on that find. -/
def tailGetMore (conn : ℕ) : List SessionAction :=
  [.getMore conn 1 "local.oplog.rs".toList 101, .sampleHead conn, .select conn, .advance conn,
    .reply conn]

/-- A tailing find after one event, and a `getMore` after a second one is committed. -/
def tailRun : List SessionAction :=
  [.server (.append 1 (plainAppend 10)), .server (.commit 1), .findHead 2 tailAll, .findSelect 2,
    .findOpen 2, .server (.append 1 (plainAppend 11)), .server (.commit 1)] ++ tailGetMore 2

/-- That find has delivered both events, once each. -/
theorem find_delivers_exactly_tailRun :
    ∃ t entry, Run TailSessions.step (fun s a => a.prunes = false ∧ FirstBatchSettled s a ∧
        OneAtATime 1 s a ∧ SeesSelected 1 s a ∧ Replies 1 s a) fresh tailRun t ∧
      t.cursors 1 = some entry ∧ entry.tail.afterSeq = 2 ∧
      t.deliveredBy 1 = [OplogServer.eventAt 1 10, OplogServer.eventAt 2 11] ∧
      ((t.deliveredBy 1).Pairwise fun a b => a.seq < b.seq) ∧
      ∀ r ∈ t.server.committed, r.seq ≤ entry.tail.afterSeq → r ∈ t.deliveredBy 1 := by
  obtain ⟨t, entry, hrun, hopened, hentry, hpos, hdelivered, hquiet⟩ : ∃ t entry,
      Run TailSessions.step (fun s a => a.prunes = false ∧ FirstBatchSettled s a ∧
        InAutocommit 1 s a ∧ Replies 1 s a) fresh tailRun t ∧
      t.opened 1 = .found tailAll 1 [OplogServer.eventAt 1 10] ∧ t.cursors 1 = some entry ∧
      entry.tail.afterSeq = 2 ∧
      t.deliveredBy 1 = [OplogServer.eventAt 1 10, OplogServer.eventAt 2 11] ∧
      ∀ conn page, t.commands conn ≠ .replying 1 page := by
    refine ⟨_, _, run_of_runActions rfl, rfl, rfl, rfl, rfl, fun conn page => ?_⟩
    simp [TailSessions.setCommand, TailSessions.register, fresh]
  have hone := (fresh_started.calledBy 2).run hrun
    (by simp [tailRun, tailGetMore, SessionAction.caller]) 1
  have hrun' : Run TailSessions.step (fun s a => a.prunes = false ∧ FirstBatchSettled s a ∧
      OneAtATime 1 s a ∧ SeesSelected 1 s a ∧ Replies 1 s a) fresh tailRun t :=
    hone.mono fun _ _ h => ⟨h.2.1, h.2.2.1, h.1, h.2.2.2.1.sees, h.2.2.2.2⟩
  obtain ⟨hordered, -, hcomplete⟩ :=
    find_delivers_exactly fresh_started rfl hrun' hopened rfl hentry (.inr ⟨rfl, hquiet⟩)
  rw [List.append_nil] at hordered hcomplete
  exact ⟨t, entry, hrun', hentry, hpos, hdelivered, hordered,
    fun r hr hle => hcomplete r hr rfl hle⟩

/-- An event is committed between the head sample and the read of a tailing find: the find
delivers it, and the next `getMore` delivers it again. -/
theorem find_repeats_entry :
    ∃ t entry, Run TailSessions.step (fun _ a => a.prunes = false) fresh
        ([.findHead 2 tailAll, .server (.append 1 (plainAppend 10)), .server (.commit 1),
          .findSelect 2, .findOpen 2] ++ tailGetMore 2) t ∧
      t.opened 1 = .found tailAll 0 [OplogServer.eventAt 1 10] ∧ t.cursors 1 = some entry ∧
      t.server.committed = [OplogServer.eventAt 1 10] ∧
      t.deliveredBy 1 = [OplogServer.eventAt 1 10, OplogServer.eventAt 1 10] :=
  ⟨_, _, run_of_runActions rfl, rfl, rfl, rfl, rfl⟩

end TailSessions

end Chimera
