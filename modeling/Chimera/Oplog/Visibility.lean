import Chimera.Oplog.Sessions

/-!
# What tailing reads see of a transaction

A connection may read a tailing cursor while a transaction of its own is open, and sees the rows
that it has itself appended.  A rolled back event is delivered only where a page takes in rows of
the reading connection's own transaction.
-/

namespace Chimera

open SequencedLog StepSystem

namespace TailSessions

/-- No tailing command is under way and no transaction has a read view. -/
structure Initial (s : TailSessions) : Prop where
  /-- The oplog is sound. -/
  server : s.server.Inv
  /-- No transaction has a read view. -/
  views : ∀ conn, s.views conn = none
  /-- No tailing command is under way. -/
  idle : ∀ conn, s.commands conn = .idle
  /-- Nothing was delivered. -/
  delivered : s.delivered = []
  /-- Nothing was rolled back. -/
  rolledBack : s.rolledBack = []

/-- No tailing cursor has delivered an event whose transaction was rolled back. -/
def OnlyCommitted (s : TailSessions) : Prop := ∀ d ∈ s.delivered, d.2 ∉ s.rolledBack

/-! ## When a page takes in the connection's own rows -/

/-- A page of `wanted` rows that satisfy `p`, strictly after `a`, is full before it comes to a row
of `own`, or no such row satisfies `p`. -/
def OwnUnread (p : OplogRow → Bool) (a wanted : ℕ) (before own : List OplogRow) : Prop :=
  (∃ r ∈ own, a < r.seq ∧ p r = true) →
    wanted ≤ (before.filter fun r => decide (a < r.seq) && p r).length

/-- The read that the command performs next is not for a tailing cursor, or leaves out the rows
of its connection's own transaction. -/
def LeavesOut (fold : Text → Text) (rows own : List OplogRow) : TailCommand → Prop
  | .finding req _ => req.tailable = true →
    OwnUnread req.selects 0 req.wanted (if req.newestFirst then [] else rows) own
  | .selecting _ entry wanted _ =>
    OwnUnread (entry.selects fold) entry.tail.afterSeq wanted rows own
  | _ => True

/-- A read for a tailing cursor leaves out the rows of its connection's own transaction. -/
def OwnRowsUnread (s : TailSessions) : SessionAction → Prop
  | .findSelect conn | .select conn =>
    LeavesOut s.fold (s.base conn).rows (s.own conn) (s.commands conn)
  | _ => True

instance (p : OplogRow → Bool) (a wanted : ℕ) (before own : List OplogRow) :
    Decidable (OwnUnread p a wanted before own) :=
  inferInstanceAs (Decidable (_ → _))

instance LeavesOut.decidable (fold : Text → Text) (rows own : List OplogRow) :
    (command : TailCommand) → Decidable (LeavesOut fold rows own command)
  | .finding req _ => inferInstanceAs (Decidable (req.tailable = true → OwnUnread _ _ _ _ _))
  | .selecting _ _ _ _ => inferInstanceAs (Decidable (OwnUnread _ _ _ _ _))
  | .idle | .openingStream _ _ | .found _ _ _ | .sampling _ _ _ | .checking _ _ _ _ _
  | .selected _ _ _ _ _ | .replying _ _ => .isTrue trivial

instance OwnRowsUnread.decidable (s : TailSessions) :
    (a : SessionAction) → Decidable (s.OwnRowsUnread a)
  | .findSelect _ | .select _ => inferInstanceAs (Decidable (LeavesOut _ _ _ _))
  | .server _ | .openView _ | .closeView _ | .resolveStart _ _ _ | .checkStart _ | .findHead _ _
  | .findOpen _ | .getMore _ _ _ _ | .sampleHead _ | .check _ | .park _ | .advance _ | .reply _
  | .fail _ | .kill _ => .isTrue trivial

end TailSessions

/-! ## Sequence numbers that are used up -/

namespace OplogServer

variable {s s' : OplogServer}

/-- The row's sequence number has been given out, and no row has it. -/
def Gone (s : OplogServer) (r : OplogRow) : Prop :=
  r.seq < s.autoIncrement ∧ ∀ r' ∈ s.committed ++ s.lock.pending, r'.seq ≠ r.seq

/-- A connection's pending rows are pending. -/
lemma mem_pending_of_mem_pendingOf {lock : ClockLock} {conn : ℕ} {r : OplogRow}
    (h : r ∈ lock.pendingOf conn) : r ∈ lock.pending := by
  cases lock with
  | writer owner pending clock =>
    simp only [ClockLock.pendingOf] at h
    split at h
    · exact h
    · exact absurd h List.not_mem_nil
  | free => exact absurd h List.not_mem_nil
  | pruner => exact absurd h List.not_mem_nil

/-- A number that is used up stays used up as long as new rows take new numbers. -/
lemma Gone.of_fresh {r : OplogRow} (h : s.Gone r) (hle : s.autoIncrement ≤ s'.autoIncrement)
    (hrows : ∀ r' ∈ s'.committed ++ s'.lock.pending,
      r' ∈ s.committed ++ s.lock.pending ∨ s.autoIncrement ≤ r'.seq) : s'.Gone r := by
  obtain ⟨hlt, hne⟩ := h
  refine ⟨hlt.trans_le hle, fun r' hr' => ?_⟩
  rcases hrows r' hr' with hold | hnew
  · exact hne r' hold
  · exact (hlt.trans_le hnew).ne'

/-- An action appends rows with new numbers only. -/
lemma step_rows {a : ServerAction} (hstep : s.step a = some s') :
    s.autoIncrement ≤ s'.autoIncrement ∧ ∀ r ∈ s'.committed ++ s'.lock.pending,
      r ∈ s.committed ++ s.lock.pending ∨ s.autoIncrement ≤ r.seq := by
  cases a with
  | append conn call =>
    obtain ⟨-, clock, row, hseq, rfl⟩ := step_append hstep
    refine ⟨by dsimp only; omega, fun r hr => ?_⟩
    rcases List.mem_append.1 hr with hr | hr
    · exact .inl (List.mem_append_left _ hr)
    · rcases List.mem_append.1 hr with hr | hr
      · exact .inl (List.mem_append_right _ hr)
      · obtain rfl := List.mem_singleton.1 hr
        exact .inr (by omega)
  | commit conn =>
    obtain ⟨pending, clock, hlock, rfl⟩ := step_commit hstep
    refine ⟨le_rfl, fun r hr => .inl ?_⟩
    rw [hlock]
    simpa [ClockLock.pending] using hr
  | rollback conn =>
    obtain ⟨-, rfl⟩ := step_rollback hstep
    refine ⟨le_rfl, fun r hr => .inl ?_⟩
    exact List.mem_append_left _ (by simpa [ClockLock.pending] using hr)
  | pruneStart maxRows maxAge =>
    simp only [OplogServer.step] at hstep
    split at hstep
    · cases hstep
      exact ⟨le_rfl, fun r hr => .inl hr⟩
    · cases hstep
  | pruneStep now =>
    obtain ⟨hauto, hcommitted, -, hpending⟩ := pruneStatement_frame hstep
    refine ⟨hauto.ge, fun r hr => .inl ?_⟩
    rw [hcommitted] at hr
    exact (List.Sublist.append (List.Sublist.refl _) hpending).subset hr
  | pruneFail =>
    simp only [OplogServer.step] at hstep
    split at hstep
    · cases hstep
    · cases hstep
      exact ⟨le_rfl, fun r hr => .inl hr⟩

/-- A number that is used up stays used up. -/
lemma Gone.step {a : ServerAction} {r : OplogRow} (h : s.Gone r) (hstep : s.step a = some s') :
    s'.Gone r := by
  obtain ⟨hle, hrows⟩ := step_rows hstep
  exact h.of_fresh hle hrows

/-- A rollback uses up the numbers of its rows. -/
lemma Inv.gone_of_rollback {conn : ℕ} {r : OplogRow} (hI : s.Inv)
    (hstep : s.step (.rollback conn) = some s') (hr : r ∈ s.lock.pendingOf conn) : s'.Gone r := by
  have hpending := mem_pending_of_mem_pendingOf hr
  obtain ⟨-, -, hbeyond⟩ := Sequenced.append_iff.1 hI.sequenced
  obtain ⟨-, rfl⟩ := step_rollback hstep
  refine ⟨hI.fresh r (List.mem_append_right _ hpending), fun r' hr' => ?_⟩
  have hcommitted : r' ∈ s.committed := by simpa [ClockLock.pending] using hr'
  exact (hbeyond r' hcommitted r hpending).ne

/-- A row whose number is used up is not committed. -/
lemma Gone.not_mem {r : OplogRow} (h : s.Gone r) : r ∉ s.committed := fun hr =>
  h.2 r (List.mem_append_left _ hr) rfl

/-- What is committed stays committed. -/
lemma Inv.committed_subset {a : ServerAction} (hI : s.Inv) (hstep : s.step a = some s') :
    s.committed ⊆ s'.committed := by
  obtain ⟨new, hnew, -⟩ := (hI.later hstep).committed
  rw [hnew]
  exact List.subset_append_left _ _

end OplogServer

/-! ## The invariant -/

/-- The rows that a command has read for a tailing cursor. -/
def TailCommand.page : TailCommand → List OplogRow
  | .found req _ page => if req.tailable then page else []
  | .checking _ _ _ _ page | .selected _ _ _ _ page | .replying _ page => page
  | _ => []

/-- A first batch always wants a document. -/
lemma FindRequest.wanted_pos (req : FindRequest) : 0 < req.wanted := by
  unfold FindRequest.wanted
  split
  · omega
  · omega

namespace TailSessions

/-- A page that leaves out the connection's own rows has only rows that were before them. -/
lemma mem_of_mem_pageAfter_append {p : OplogRow → Bool} {a wanted : ℕ} {rows own : List OplogRow}
    {r : OplogRow} (hown : OwnUnread p a wanted rows own)
    (hr : r ∈ pageAfter OplogRow.seq p a wanted (rows ++ own)) : r ∈ rows := by
  rw [pageAfter, List.filter_append] at hr
  by_cases hselected : ∃ r ∈ own, a < r.seq ∧ p r = true
  · rw [List.take_append_of_le_length (hown hselected)] at hr
    exact List.mem_of_mem_filter (List.mem_of_mem_take hr)
  · have hnone : own.filter (fun r => decide (a < r.seq) && p r) = [] := by
      refine List.filter_eq_nil_iff.2 fun r hr hsel => hselected ⟨r, hr, ?_⟩
      simpa using hsel
    rw [hnone, List.append_nil] at hr
    exact List.mem_of_mem_filter (List.mem_of_mem_take hr)

/-- A first batch that leaves out the connection's own rows has only rows that were before them,
also when it reads the newest rows first. -/
lemma mem_of_mem_page {req : FindRequest} {rows own : List OplogRow} {r : OplogRow}
    (hown : OwnUnread req.selects 0 req.wanted (if req.newestFirst then [] else rows) own)
    (hr : r ∈ req.page (rows ++ own)) : r ∈ rows := by
  unfold FindRequest.page at hr
  cases hnewest : req.newestFirst with
  | false =>
    rw [hnewest] at hr hown
    exact mem_of_mem_pageAfter_append hown hr
  | true =>
    rw [hnewest, if_pos rfl] at hr hown
    obtain ⟨hmem, hseq, hsel⟩ := mem_of_mem_pageAfter hr
    rcases List.mem_append.1 (List.mem_reverse.1 hmem) with hrow | hrow
    · exact hrow
    · have hwanted : req.wanted ≤ 0 := hown ⟨r, hrow, hseq, hsel⟩
      exact absurd hwanted req.wanted_pos.not_ge

/-- What a tailing cursor has read or delivered is committed, and what was rolled back never
is. -/
structure Inv (s : TailSessions) : Prop where
  /-- The oplog is sound. -/
  server : s.server.Inv
  /-- A read view shows committed rows. -/
  views : ∀ conn view, s.views conn = some view → view.rows ⊆ s.server.committed
  /-- What a command has read for a cursor is committed. -/
  page : ∀ conn, (s.commands conn).page ⊆ s.server.committed
  /-- What was delivered is committed. -/
  delivered : ∀ d ∈ s.delivered, d.2 ∈ s.server.committed
  /-- What was rolled back has used up its sequence number. -/
  rolledBack : ∀ r ∈ s.rolledBack, s.server.Gone r

/-- The invariant holds initially. -/
lemma Initial.inv {s : TailSessions} (h : s.Initial) : s.Inv := by
  refine ⟨h.server, fun conn view hview => ?_, fun conn => ?_, ?_, ?_⟩
  · rw [h.views conn] at hview
    cases hview
  · rw [h.idle conn]
    exact List.nil_subset _
  · simp [h.delivered]
  · simp [h.rolledBack]

/-- What was rolled back is not committed, so it was not delivered. -/
lemma Inv.onlyCommitted {s : TailSessions} (hI : s.Inv) : s.OnlyCommitted := by
  intro d hd hrolled
  exact (hI.rolledBack d.2 hrolled).not_mem (hI.delivered d hd)

variable {s s' : TailSessions} {conn : ℕ}

/-- What a connection sees of other transactions is committed. -/
lemma Inv.base_subset (hI : s.Inv) (conn : ℕ) : (s.base conn).rows ⊆ s.server.committed := by
  unfold base
  cases hview : s.views conn with
  | none => exact hI.server.rows_sublist.subset
  | some view => exact hI.views conn view hview

/-- A command moves on to a page of committed rows. -/
lemma Inv.setCommand (hI : s.Inv) {command : TailCommand}
    (hpage : command.page ⊆ s.server.committed) : (s.setCommand conn command).Inv := by
  refine ⟨hI.server, hI.views, fun other => ?_, hI.delivered, hI.rolledBack⟩
  by_cases hother : other = conn
  · subst hother
    simpa [TailSessions.setCommand] using hpage
  · simpa [TailSessions.setCommand, Function.update_of_ne hother] using hI.page other

/-- The registry does not matter. -/
lemma Inv.withCursors (hI : s.Inv) (cursors : ℕ → Option RegistryEntry) (nextId : ℕ)
    (opened : ℕ → TailCommand) :
    ({ s with cursors := cursors, nextId := nextId, opened := opened } : TailSessions).Inv :=
  ⟨hI.server, hI.views, hI.page, hI.delivered, hI.rolledBack⟩

/-- Delivering a page of committed rows. -/
lemma Inv.deliver (hI : s.Inv) {page : List OplogRow} (hpage : page ⊆ s.server.committed)
    (id : ℕ) :
    ({ s with delivered := s.delivered ++ page.map fun r => (id, r) } : TailSessions).Inv := by
  refine ⟨hI.server, hI.views, hI.page, fun d hd => ?_, hI.rolledBack⟩
  rcases List.mem_append.1 hd with hd | hd
  · exact hI.delivered d hd
  · obtain ⟨r, hr, rfl⟩ := List.mem_map.1 hd
    exact hpage hr

/-- A new read view shows committed rows. -/
lemma Inv.openView (hI : s.Inv) :
    ({ s with views := Function.update s.views conn (some s.server) } : TailSessions).Inv := by
  refine ⟨hI.server, fun other view hview => ?_, hI.page, hI.delivered, hI.rolledBack⟩
  by_cases hother : other = conn
  · subst hother
    simp only [Function.update_self, Option.some.injEq] at hview
    subst hview
    exact hI.server.rows_sublist.subset
  · simp only [Function.update_of_ne hother] at hview
    exact hI.views other view hview

/-- A statement of a transaction or of the pruner keeps the invariant. -/
lemma Inv.serverStep (hI : s.Inv) {a : ServerAction} {server : OplogServer}
    (h : s.server.step a = some server) :
    ({ s with
      server := server, views := s.viewsAfter a, rolledBack := s.rolledBack ++ s.undone a } :
        TailSessions).Inv := by
  have hsubset := hI.server.committed_subset h
  refine ⟨hI.server.step h, ?_, ?_, ?_, ?_⟩
  · intro conn view hview
    exact List.Subset.trans (hI.views conn view (views_of_viewsAfter hview)) hsubset
  · intro conn
    exact List.Subset.trans (hI.page conn) hsubset
  · intro d hd
    exact hsubset (hI.delivered d hd)
  · intro r hr
    rcases List.mem_append.1 hr with hr | hr
    · exact (hI.rolledBack r hr).step h
    · cases a with
      | rollback conn => exact hI.server.gone_of_rollback h hr
      | append conn call => exact absurd hr List.not_mem_nil
      | commit conn => exact absurd hr List.not_mem_nil
      | pruneStart maxRows maxAge => exact absurd hr List.not_mem_nil
      | pruneStep now => exact absurd hr List.not_mem_nil
      | pruneFail => exact absurd hr List.not_mem_nil

/-- A command moves on to a page of committed rows, when it leaves out its connection's own rows
where it reads for a tailing cursor. -/
lemma Inv.page_move (hI : s.Inv) {a : SessionAction} {command : TailCommand}
    (hown : s.OwnRowsUnread a) (hmove : CommandMove s conn a (s.commands conn) command) :
    command.page ⊆ s.server.committed := by
  have hpage := hI.page conn
  generalize hbefore : s.commands conn = before at hmove hpage
  cases hmove with
  | resolves | refuses | heads | closes | begins | samples | loses | parks | fails =>
    exact List.nil_subset _
  | checks hok => exact hpage
  | @finds req head =>
    simp only [OwnRowsUnread, hbefore, LeavesOut] at hown
    intro r hr
    cases htailable : req.tailable with
    | false => simp [TailCommand.page, htailable] at hr
    | true =>
      simp only [TailCommand.page, htailable, if_true] at hr
      exact hI.base_subset conn (mem_of_mem_page (hown htailable) hr)
  | selects | selectsTail =>
    simp only [OwnRowsUnread, hbefore, LeavesOut] at hown
    exact fun r hr => hI.base_subset conn (mem_of_mem_pageAfter_append hown hr)

/-- **One step.**  Every action that leaves out its connection's own rows where it reads for a
tailing cursor keeps the invariant. -/
theorem Inv.step {a : SessionAction} (hI : s.Inv) (hown : s.OwnRowsUnread a)
    (h : s.step a = some s') : s'.Inv := by
  cases session_effect h with
  | server _ hstep heq =>
    subst heq
    exact hI.serverStep hstep
  | opensView _ heq =>
    subst heq
    exact hI.openView
  | closesView _ heq =>
    subst heq
    exact ⟨hI.server, fun other view hview => hI.views other view (eq_some_of_closed hview),
      hI.page, hI.delivered, hI.rolledBack⟩
  | keeps heq =>
    subst heq
    exact hI
  | moves hmove heq =>
    subst heq
    exact hI.setCommand (hI.page_move hown hmove)
  | @registers _ mover entry page hregisters heq =>
    subst heq
    have hpage : page ⊆ s.server.committed := by
      have hread := hI.page mover
      generalize s.commands mover = command at hregisters hread
      cases hregisters with
      | stream => exact List.nil_subset _
      | find htailable => simpa only [TailCommand.page, htailable, if_true] using hread
    have hidle : (s.setCommand mover .idle).Inv := hI.setCommand (List.nil_subset _)
    exact (hidle.withCursors _ _ _).deliver hpage s.nextId
  | @advances mover id wanted head entry page hcommand heq =>
    subst heq
    have hread := hI.page mover
    rw [hcommand] at hread
    have hreplying : (s.setCommand mover (.replying id page)).Inv := hI.setCommand hread
    exact hreplying.withCursors _ _ _
  | @replies mover id page hcommand heq =>
    subst heq
    have hread := hI.page mover
    rw [hcommand] at hread
    have hidle : (s.setCommand mover .idle).Inv := hI.setCommand (List.nil_subset _)
    exact hidle.deliver hread id
  | kills heq =>
    subst heq
    exact hI.withCursors _ _ _

/-- **Only committed events are delivered, where no page takes in its reader's own rows.**  In
every run of writers, gateway transactions, prune passes, opens and `getMore` calls on any number
of connections, each statement a step, in which every read for a tailing cursor leaves out the
rows of its connection's own open transaction: no event that a tailing cursor has delivered
belongs to a transaction that was rolled back. -/
theorem only_committed_delivered {s t : TailSessions} {as : List SessionAction} (hs : s.Initial)
    (h : Run TailSessions.step OwnRowsUnread s as t) : t.OnlyCommitted := by
  have hI : t.Inv := h.invariant (P := TailSessions.Inv)
    (fun _ _ _ hI hown hstep => hI.step hown hstep) hs.inv
  exact hI.onlyCommitted

/-! ## Two runs -/

/-- A new oplog, without cursors, whose collation tells all texts apart. -/
def fresh : TailSessions :=
  ⟨OplogServer.newOplog, id, fun _ => none, fun _ => none, 1, fun _ => .idle, fun _ => .idle, [],
    []⟩

/-- A new oplog is an initial state. -/
lemma fresh_initial : fresh.Initial :=
  ⟨OplogServer.newOplog_installed.quiescent.inv, fun _ => rfl, fun _ => rfl, rfl, rfl⟩

/-- A `getMore` of a connection on the change stream on `a.b`. -/
def streamGetMore (conn : ℕ) : List SessionAction :=
  [.getMore conn 1 "a.b".toList 101, .sampleHead conn, .select conn, .check conn, .advance conn,
    .reply conn]

/-- A writer has an event pending while another connection, in a transaction of its own, reads a
change stream; the event is rolled back, and the next one is committed and delivered. -/
def twoConnections : List SessionAction :=
  [.resolveStart 2 "a.b".toList .head, .checkStart 2, .server (.append 1 (plainAppend 10))] ++
    (.openView 2 :: streamGetMore 2) ++
    [.closeView 2, .server (.rollback 1), .server (.append 1 (plainAppend 11)),
      .server (.commit 1)] ++ streamGetMore 2

/-- In that run one event was delivered and one rolled back, and they differ. -/
theorem only_committed_delivered_twoConnections :
    ∃ t, Run TailSessions.step OwnRowsUnread fresh twoConnections t ∧
      t.delivered.length = 1 ∧ t.rolledBack.length = 1 ∧ t.OnlyCommitted := by
  obtain ⟨t, hrun, hdelivered, hrolled⟩ : ∃ t,
      Run TailSessions.step OwnRowsUnread fresh twoConnections t ∧
      t.delivered.length = 1 ∧ t.rolledBack.length = 1 :=
    ⟨_, run_of_runActions rfl, rfl, rfl⟩
  exact ⟨t, hrun, hdelivered, hrolled, only_committed_delivered fresh_initial hrun⟩

/-- A connection appends an event in a transaction of its own, reads it through a change stream
and rolls it back: the event was delivered. -/
theorem delivers_rolled_back :
    ¬ ∀ (as : List SessionAction) (s t : TailSessions), s.Initial →
      Steps TailSessions.step s as t → t.OnlyCommitted := by
  intro h
  have hrun : ∃ t, Steps TailSessions.step fresh
      ([.resolveStart 1 "a.b".toList .head, .checkStart 1, .server (.append 1 (plainAppend 10))] ++
        streamGetMore 1 ++ [.server (.rollback 1)]) t ∧
      t.delivered = [(1, OplogServer.eventAt 1 10)] ∧ t.rolledBack = [OplogServer.eventAt 1 10] :=
    ⟨_, steps_of_runActions rfl, rfl, rfl⟩
  obtain ⟨t, hrun, hdelivered, hrolled⟩ := hrun
  have honly := h _ _ t fresh_initial hrun
  exact honly (1, OplogServer.eventAt 1 10) (by simp [hdelivered]) (by simp [hrolled])

end TailSessions

end Chimera
