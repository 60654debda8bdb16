import Chimera.Oplog.Tokens

/-!
# What a cursor has handed out

Between its start and its position a cursor has handed out what it selects, each row once and in
order: what it has delivered, and the page that a call which has stored the position is about to
reply with.  This is an invariant of the runs in which the calls on the cursor are made one at a
time, a call that stores a position sees everything the cursor selects, and none fails before it
replies.  For a change stream it rests on the history check after each read; a tailing find has no
such check and is safe without pruning, when its first batch agrees with the head it sampled.
-/

namespace Chimera

open SequencedLog StepSystem

/-- Where a cursor begins that reads oldest first. -/
def TailCommand.origin : TailCommand → Option ℕ
  | .openingStream _ afterSeq => some afterSeq
  | .found req _ _ => if req.newestFirst then none else some 0
  | _ => none

/-- The cursor is the one that the open registered, moved on. -/
def RegistryEntry.MovedFrom (entry : RegistryEntry) (command : TailCommand) : Prop :=
  ∃ registered page afterSeq, command.Registers registered page ∧
    entry = { registered with tail := { registered.tail with afterSeq := afterSeq } }

/-- The page that a call on the cursor is about to reply with. -/
def TailCommand.reply (id : ℕ) : TailCommand → List OplogRow
  | .replying i page => if i = id then page else []
  | _ => []

/-- The actions of pruning passes. -/
def SessionAction.prunes : SessionAction → Bool
  | .server (.pruneStart _ _) | .server (.pruneStep _) | .server .pruneFail => true
  | _ => false

/-- The connection that sends a `getMore`. -/
def SessionAction.caller : SessionAction → Option ℕ
  | .getMore conn _ _ _ => some conn
  | _ => none

namespace TailSessions

/-- The rows a cursor has delivered. -/
def deliveredBy (s : TailSessions) (id : ℕ) : List OplogRow :=
  (s.delivered.filter fun d => decide (d.1 = id)).map Prod.snd

/-- The page that a call on the cursor, which has stored its position, is about to reply with; no
rows if there is no such call. -/
def Due (s : TailSessions) (id : ℕ) (due : List OplogRow) : Prop :=
  (∃ conn, s.commands conn = .replying id due) ∨
    due = [] ∧ ∀ conn page, s.commands conn ≠ .replying id page

/-! ## Conditions on a run -/

/-- When a `getMore` on the cursor begins, no other one is under way. -/
def OneAtATime (id : ℕ) (s : TailSessions) : SessionAction → Prop
  | .getMore _ i _ _ => i = id → ∀ conn, (s.commands conn).cursor ≠ some id
  | _ => True

/-- A `getMore` on the cursor reads in autocommit: its connection has no rows pending when it stores
its position, and had none since it began. -/
def InAutocommit (id : ℕ) (s : TailSessions) : SessionAction → Prop
  | .advance conn => (s.commands conn).cursor = some id → s.own conn = []
  | _ => True

/-- A `getMore` on the cursor that stores its position has nothing pending on its connection, or
sees everything committed that the cursor selects. -/
def SeesSelected (id : ℕ) (s : TailSessions) : SessionAction → Prop
  | .advance conn => ∀ entry wanted head page,
      s.commands conn = .selected id entry wanted head page → s.own conn = [] ∨
        ∀ r ∈ s.server.committed, entry.selects s.fold r = true → r ∈ (s.base conn).committed
  | _ => True

/-- No call on the cursor fails between storing its position and replying with a page. -/
def Replies (id : ℕ) (s : TailSessions) : SessionAction → Prop
  | .fail conn => (s.commands conn).reply id = []
  | _ => True

/-- The read of a first batch that is for a tailing cursor, in natural order, is settled: the
connection has nothing pending or sees everything committed that the find selects, and the batch
fills, or nothing that the find selects lies beyond the head it sampled. -/
def BatchSettled (s : TailSessions) (conn : ℕ) : TailCommand → Prop
  | .finding req head => req.tailable = true → req.newestFirst = false →
    (s.own conn = [] ∨
      ∀ r ∈ s.server.committed, req.selects r = true → r ∈ (s.base conn).committed) ∧
    (req.wanted ≤
        ((s.seen conn).rows.filter fun r => decide (0 < r.seq) && req.selects r).length ∨
      ∀ r ∈ (s.seen conn).rows, req.selects r = true → r.seq ≤ head)
  | _ => True

/-- A find that reads its first batch reads a settled one. -/
def FirstBatchSettled (s : TailSessions) : SessionAction → Prop
  | .findSelect conn => s.BatchSettled conn (s.commands conn)
  | _ => True

/-- The conditions that the invariant of a cursor needs: `whole` where the run does not prune, and
`auto` where `getMore` reads in autocommit. -/
structure Attended (whole auto : Prop) (id : ℕ) (s : TailSessions) (a : SessionAction) : Prop where
  oneAtATime : OneAtATime id s a
  sees : SeesSelected id s a
  replies : Replies id s a
  autocommit : auto → InAutocommit id s a
  prunes : whole → a.prunes = false
  settled : whole → FirstBatchSettled s a

/-! ## Stretches of the log -/

/-- The rows are what `p` selects beyond `start` and up to `pos`, in order, and no more of that is
to come. -/
structure Spans (s : TailSessions) (p : OplogRow → Bool) (start pos : ℕ) (rows : List OplogRow) :
    Prop where
  /-- The stretch is one. -/
  le : start ≤ pos
  /-- It is empty, or its last number has been given out. -/
  given : pos = start ∨ pos < s.server.autoIncrement
  /-- The rows are in order. -/
  ordered : Sequenced OplogRow.seq rows
  /-- They are selected and lie in the stretch. -/
  selected : ∀ r ∈ rows, start < r.seq ∧ r.seq ≤ pos ∧ p r = true
  /-- What is selected and lies in the stretch is among them. -/
  complete : ∀ r ∈ s.allRows, p r = true → start < r.seq → r.seq ≤ pos → r ∈ rows

variable {s s' : TailSessions} {a : SessionAction} {p : OplogRow → Bool} {id conn start mid pos : ℕ}
  {rows rows' page : List OplogRow} {entry : RegistryEntry}

/-- The empty stretch. -/
lemma spans_nil (s : TailSessions) (p : OplogRow → Bool) (start : ℕ) : s.Spans p start start [] :=
  ⟨le_rfl, .inl rfl, List.Pairwise.nil, nofun, fun _ _ _ hlt hle => absurd hlt hle.not_gt⟩

/-- Two stretches. -/
lemma Spans.append (h : s.Spans p start mid rows) (h' : s.Spans p mid pos rows') :
    s.Spans p start pos (rows ++ rows') := by
  refine ⟨h.le.trans h'.le, ?_, ?_, fun r hr => ?_, fun r hr hp hlt hle => ?_⟩
  · rcases h'.given with rfl | hgiven
    · exact h.given
    · exact .inr hgiven
  · refine Sequenced.append_iff.2 ⟨h.ordered, h'.ordered, fun r hr r' hr' => ?_⟩
    exact (h.selected r hr).2.1.trans_lt (h'.selected r' hr').1
  · rcases List.mem_append.1 hr with hr | hr
    · obtain ⟨hlt, hle, hp⟩ := h.selected r hr
      exact ⟨hlt, hle.trans h'.le, hp⟩
    · obtain ⟨hlt, hle, hp⟩ := h'.selected r hr
      exact ⟨h.le.trans_lt hlt, hle, hp⟩
  · rcases le_or_gt r.seq mid with hmid | hmid
    · exact List.mem_append_left _ (h.complete r hr hp hlt hmid)
    · exact List.mem_append_right _ (h'.complete r hr hp hmid hle)

/-- A stretch of committed rows is a window of the log. -/
lemma Spans.eq_window (h : s.Spans p start pos rows)
    (hseq : Sequenced OplogRow.seq s.server.committed) (hrows : rows ⊆ s.server.committed) :
    rows = window OplogRow.seq p start pos s.server.committed := by
  refine h.ordered.ext hseq.window fun r => ⟨fun hr => ?_, fun hr => ?_⟩
  · exact mem_window.2 ⟨hrows hr, h.selected r hr⟩
  · obtain ⟨hmem, hlt, hle, hp⟩ := mem_window.1 hr
    exact h.complete r (List.mem_append_left _ hmem) hp hlt hle

/-- A stretch stays what it is. -/
lemma Spans.step (h : s.Spans p start pos rows) (hs : s.step a = some s') :
    s'.Spans p start pos rows := by
  obtain ⟨hauto, hrows⟩ := allRows_step hs
  refine ⟨h.le, h.given.imp_right fun hlt => hlt.trans_le hauto, h.ordered, h.selected,
    fun r hr hp hlt hle => ?_⟩
  rcases hrows r hr with hold | hnew
  · exact h.complete r hold hp hlt hle
  · rcases h.given with rfl | hgiven
    · exact absurd hlt hle.not_gt
    · exact absurd (hnew.trans hle) hgiven.not_ge

/-- What a connection reads up to something that it can read is a stretch, if the connection has
nothing pending or sees what is committed. -/
lemma Backed.spans (hB : s.Backed)
    (hsees : s.own conn = [] ∨
      ∀ r ∈ s.server.committed, p r = true → r ∈ (s.base conn).committed)
    (hpage : page = window OplogRow.seq p start pos (s.readable conn).committed)
    (hle : start ≤ pos)
    (hreached : pos = start ∨ OplogServer.Reached (s.readable conn).committed pos) :
    s.Spans p start pos page := by
  have hseq := hB.readable_sequenced conn
  rcases hreached with rfl | ⟨r', hr', hle'⟩
  · rw [window_self] at hpage
    rw [hpage]
    exact spans_nil s p pos
  · have hlt := hB.server.fresh r' ((hB.readable_sublist conn).subset hr')
    refine ⟨hle, .inr (hle'.trans_lt hlt), hpage ▸ hseq.window, fun r hr => ?_,
      fun r hr hp hstart hpos => ?_⟩
    · rw [hpage] at hr
      exact (mem_window.1 hr).2
    · rw [hpage]
      refine mem_window.2 ⟨?_, hstart, hpos, hp⟩
      exact hB.readable_of_le hsees hr hp hr' (hpos.trans hle')

/-! ## What one action does to a cursor -/

/-- What a cursor has handed out, or is about to. -/
def HandedOut (s : TailSessions) (id : ℕ) (rows : List OplogRow) : Prop :=
  ∃ due, s.Due id due ∧ rows = s.deliveredBy id ++ due

/-- What an action may do to a cursor and to what it has handed out. -/
inductive CursorEffect (s : TailSessions) (id : ℕ) (opened : TailCommand) :
    SessionAction → RegistryEntry → List OplogRow → Prop
  /-- It leaves them alone. -/
  | keeps {a : SessionAction} {entry : RegistryEntry} {rows : List OplogRow}
      (hentry : s.cursors id = some entry) (hopened : opened = s.opened id)
      (hrows : s.HandedOut id rows) : CursorEffect s id opened a entry rows
  /-- It registers the cursor, and delivers its first batch. -/
  | registers {a : SessionAction} {conn : ℕ} {entry : RegistryEntry} {page : List OplogRow}
      (hregisters : (s.commands conn).Registers entry page) (hopened : opened = s.commands conn) :
      CursorEffect s id opened a entry page
  /-- It stores a position, and the page is due. -/
  | advances {conn wanted head : ℕ} {copy now : RegistryEntry} {rows page : List OplogRow}
      (hcommand : s.commands conn = .selected id copy wanted head page)
      (hnow : s.cursors id = some now) (hopened : opened = s.opened id)
      (hrows : s.HandedOut id rows) :
      CursorEffect s id opened (.advance conn)
        { now with tail :=
          { now.tail with afterSeq := copy.tail.nextAfter wanted head page } } (rows ++ page)

/-- What is known of the cursors and the calls in general. -/
structure Orderly (id : ℕ) (s : TailSessions) : Prop where
  /-- Every command knows what it has read, and every `getMore` has a cursor. -/
  settled : s.Settled
  /-- What was delivered was delivered by a cursor. -/
  delivered : ∀ d ∈ s.delivered, d.1 < s.nextId
  /-- At most one `getMore` is on the cursor. -/
  alone : ∀ conn conn', (s.commands conn).cursor = some id → (s.commands conn').cursor = some id →
    conn = conn'

/-- Nothing is due when no call replies. -/
lemma Due.eq_nil {due : List OplogRow} (h : s.Due id due)
    (hnone : ∀ conn page, s.commands conn ≠ .replying id page) : due = [] := by
  rcases h with ⟨conn, hconn⟩ | ⟨hnil, -⟩
  · exact absurd hconn (hnone conn due)
  · exact hnil

/-- A call that replies after a command has moved on is the one that moved, or was replying. -/
lemma replying_of_update {commands : ℕ → TailCommand} {command : TailCommand} {other : ℕ}
    (h : Function.update commands conn command other = .replying id page) :
    other = conn ∧ command = .replying id page ∨
      other ≠ conn ∧ commands other = .replying id page := by
  by_cases hother : other = conn
  · rw [hother, Function.update_self] at h
    exact .inl ⟨hother, h⟩
  · rw [Function.update_of_ne hother] at h
    exact .inr ⟨hother, h⟩

/-- A command that was not replying, and is not, does not change what is due. -/
lemma Due.of_update {command : TailCommand} {due : List OplogRow} (h : s'.Due id due)
    (hcommands : s'.commands = Function.update s.commands conn command)
    (hold : ∀ page, s.commands conn ≠ .replying id page)
    (hnew : ∀ page, command ≠ .replying id page) : s.Due id due := by
  rcases h with ⟨other, hpage⟩ | ⟨hnil, hnone⟩
  · rw [hcommands] at hpage
    rcases replying_of_update hpage with ⟨-, hmoved⟩ | ⟨-, hbefore⟩
    · exact absurd hmoved (hnew due)
    · exact .inl ⟨other, hbefore⟩
  · refine .inr ⟨hnil, fun other page hpage => ?_⟩
    by_cases hother : other = conn
    · exact hold page (hother ▸ hpage)
    · refine hnone other page ?_
      rw [hcommands, Function.update_of_ne hother, hpage]

/-- What a cursor has delivered after another delivery. -/
lemma deliveredBy_append {delivered : List (ℕ × OplogRow)} {i : ℕ}
    (h : s'.delivered = delivered ++ page.map fun r => (i, r))
    (hdelivered : s.delivered = delivered) :
    s'.deliveredBy id = s.deliveredBy id ++ if i = id then page else [] := by
  unfold deliveredBy
  rw [h, hdelivered, List.filter_append, List.map_append]
  congr 1
  by_cases hi : i = id
  · simp [hi, List.filter_map, Function.comp_def]
  · simp [hi, List.filter_map, Function.comp_def]

/-- A command that moves on does not change what is due, unless it fails with a page. -/
lemma Due.of_move {command : TailCommand} {due : List OplogRow} (hreplies : Replies id s a)
    (hmove : CommandMove s conn a (s.commands conn) command)
    (h : (s.setCommand conn command).Due id due) : s.Due id due := by
  have hnew : ∀ page, command ≠ .replying id page := by
    rintro page rfl
    generalize s.commands conn = before at hmove
    cases hmove
  by_cases hold : ∃ page, s.commands conn = .replying id page
  · obtain ⟨page, hpage⟩ := hold
    rw [hpage] at hmove
    cases hmove with
    | fails =>
      obtain rfl : page = [] := by simpa [Replies, hpage, TailCommand.reply] using hreplies
      rcases h with ⟨other, hother⟩ | ⟨rfl, -⟩
      · rcases replying_of_update hother with ⟨-, hidle⟩ | ⟨-, hbefore⟩
        · cases hidle
        · exact .inl ⟨other, hbefore⟩
      · exact .inl ⟨conn, hpage⟩
  · exact h.of_update rfl (fun page hpage => hold ⟨page, hpage⟩) hnew

/-- When a call has stored a position, its page is due, and nothing was due before. -/
lemma Orderly.due_advance (hO : s.Orderly id) {wanted head : ℕ} {due : List OplogRow}
    (hcommand : s.commands conn = .selected id entry wanted head page)
    (hcommands : s'.commands = Function.update s.commands conn (.replying id page))
    (h : s'.Due id due) : due = page ∧ s.Due id [] := by
  have honly : ∀ other page, s.commands other ≠ .replying id page := by
    intro other page hpage
    obtain rfl := hO.alone other conn (by rw [hpage]; rfl) (by rw [hcommand]; rfl)
    cases hcommand.symm.trans hpage
  refine ⟨?_, .inr ⟨rfl, honly⟩⟩
  rcases h with ⟨other, hother⟩ | ⟨-, hnone⟩
  · rw [hcommands] at hother
    rcases replying_of_update hother with ⟨-, hmoved⟩ | ⟨-, hbefore⟩
    · cases hmoved
      rfl
    · exact absurd hbefore (honly other due)
  · exact absurd (by rw [hcommands, Function.update_self]) (hnone conn page)

/-- When a call has replied, nothing is due. -/
lemma Orderly.due_reply (hO : s.Orderly id) {due : List OplogRow}
    (hcommand : s.commands conn = .replying id page)
    (hcommands : s'.commands = Function.update s.commands conn .idle) (h : s'.Due id due) :
    due = [] := by
  refine h.eq_nil fun other page' hother => ?_
  rw [hcommands] at hother
  rcases replying_of_update hother with ⟨-, hidle⟩ | ⟨hne, hbefore⟩
  · cases hidle
  · exact hne (hO.alone other conn (by rw [hbefore]; rfl) (by rw [hcommand]; rfl))

/-- **What one action does to a cursor.** -/
theorem cursorEffect (hO : s.Orderly id) (hreplies : Replies id s a) (h : s.step a = some s')
    (hentry : s'.cursors id = some entry) (hrows : s'.HandedOut id rows) :
    CursorEffect s id (s'.opened id) a entry rows := by
  obtain ⟨due, hdue, rfl⟩ := hrows
  cases session_effect h with
  | server _ _ heq | opensView _ heq | closesView _ heq | keeps heq =>
    subst heq
    exact .keeps hentry rfl ⟨due, hdue, rfl⟩
  | moves hmove heq =>
    subst heq
    exact .keeps hentry rfl ⟨due, hdue.of_move hreplies hmove, rfl⟩
  | @registers _ mover new page hregisters heq =>
    subst heq
    have hquiet : ∀ page, s.commands mover ≠ .replying id page := by
      intro page hpage
      rw [hpage] at hregisters
      cases hregisters
    have hbefore : s.Due id due := hdue.of_update rfl hquiet nofun
    rw [deliveredBy_append rfl rfl]
    by_cases hid : s.nextId = id
    · subst hid
      have hnone : due = [] := hbefore.eq_nil fun conn page hpage =>
        lt_irrefl _ (hO.settled.commands conn _ (by rw [hpage]; rfl))
      have hfirst : s.deliveredBy s.nextId = [] := by
        refine List.map_eq_nil_iff.2 (List.filter_eq_nil_iff.2 fun d hd hid => ?_)
        exact (hO.delivered d hd).ne (of_decide_eq_true hid)
      change Function.update s.cursors s.nextId (some new) s.nextId = some entry at hentry
      rw [Function.update_self] at hentry
      obtain rfl := Option.some.inj hentry
      rw [hnone, hfirst, if_pos rfl, List.nil_append, List.append_nil]
      exact .registers hregisters (Function.update_self _ _ _)
    · rw [if_neg hid, List.append_nil]
      exact .keeps ((Function.update_of_ne (Ne.symm hid) _ _).symm.trans hentry)
        (Function.update_of_ne (Ne.symm hid) _ _) ⟨due, hbefore, rfl⟩
  | @advances mover other wanted head copy page hcommand heq =>
    subst heq
    by_cases hid : id = other
    · subst hid
      obtain ⟨rfl, hbefore⟩ := hO.due_advance hcommand rfl hdue
      simp only [Function.update_self] at hentry
      obtain ⟨now, hnow, rfl⟩ := Option.map_eq_some_iff.1 hentry
      exact .advances hcommand hnow rfl ⟨[], hbefore, (List.append_nil _).symm⟩
    · simp only [Function.update_of_ne hid] at hentry
      refine .keeps hentry rfl ⟨due, hdue.of_update rfl (fun page hpage => ?_) fun page hpage => ?_,
        rfl⟩
      · cases hcommand.symm.trans hpage
      · exact hid (by cases hpage; rfl)
  | @replies mover other page hcommand heq =>
    subst heq
    rw [deliveredBy_append rfl rfl]
    by_cases hid : other = id
    · subst hid
      rw [hO.due_reply hcommand rfl hdue, if_pos rfl, List.append_nil]
      exact .keeps hentry rfl ⟨page, .inl ⟨mover, hcommand⟩, rfl⟩
    · rw [if_neg hid, List.append_nil]
      refine .keeps hentry rfl ⟨due, hdue.of_update rfl (fun page' hpage => ?_) nofun, rfl⟩
      exact hid (by cases hcommand.symm.trans hpage; rfl)
  | @kills other heq =>
    subst heq
    by_cases hid : id = other
    · rw [hid] at hentry
      cases (Function.update_self _ _ _).symm.trans hentry
    · exact .keeps ((Function.update_of_ne hid _ _).symm.trans hentry) rfl ⟨due, hdue, rfl⟩

/-- Every action leaves the calls orderly, when they are made one at a time. -/
lemma Orderly.step (hO : s.Orderly id) (hone : OneAtATime id s a) (h : s.step a = some s') :
    s'.Orderly id := by
  refine ⟨hO.settled.step h, fun d hd => ?_, fun conn conn' hconn hconn' => ?_⟩
  · cases session_effect h with
    | server _ _ heq | opensView _ heq | closesView _ heq | keeps heq | moves _ heq
    | advances _ heq | kills heq =>
      subst heq
      exact hO.delivered d hd
    | registers _ heq =>
      subst heq
      rcases List.mem_append.1 hd with hd | hd
      · exact (hO.delivered d hd).trans (Nat.lt_succ_self _)
      · obtain ⟨r, -, rfl⟩ := List.mem_map.1 hd
        exact Nat.lt_succ_self _
    | @replies mover other page hcommand heq =>
      subst heq
      rcases List.mem_append.1 hd with hd | hd
      · exact hO.delivered d hd
      · obtain ⟨r, -, rfl⟩ := List.mem_map.1 hd
        exact hO.settled.commands mover other (by rw [hcommand]; rfl)
  · rcases cursor_step h hconn with hold | ⟨⟨ns, batchSize, rfl⟩, -⟩
    · rcases cursor_step h hconn' with hold' | ⟨⟨ns', batchSize', rfl⟩, -⟩
      · exact hO.alone conn conn' hold hold'
      · exact absurd hold (hone rfl conn)
    · rcases cursor_step h hconn' with hold' | ⟨⟨ns', batchSize', hsame⟩, -⟩
      · exact absurd hold' (hone rfl conn')
      · cases hsame
        rfl

/-! ## The invariant of a cursor -/

/-- What holds of a cursor and of what it has handed out.  `whole` is that nothing has ever been
pruned, and `auto` that the cursor is read in autocommit. -/
structure Accounted (whole auto : Prop) (s : TailSessions) (opened : TailCommand)
    (entry : RegistryEntry) (rows : List OplogRow) : Prop where
  /-- The cursor is the one that was opened. -/
  moved : entry.MovedFrom opened
  /-- It has handed out what it selects up to its position. -/
  spans : whole ∨ entry.tail.changeStream = true → ∀ start, opened.origin = some start →
    s.Spans (entry.selects s.fold) start entry.tail.afterSeq rows
  /-- A change stream that is read in autocommit hands out what is committed. -/
  committed : auto → entry.tail.changeStream = true → rows ⊆ s.server.committed

/-- The invariant of a cursor. -/
structure Attends (whole auto : Prop) (id : ℕ) (s : TailSessions) : Prop where
  /-- The calls are orderly. -/
  orderly : s.Orderly id
  /-- Everything that was committed is stored. -/
  intact : whole → s.server.deleted = [] ∧ s.server.lost = []
  /-- A first batch that was read is everything up to the position its cursor is to have. -/
  found : whole → ∀ conn req head page, s.commands conn = .found req head page →
    req.tailable = true → req.newestFirst = false →
    s.Spans req.selects 0 (req.afterSeq head page) page
  /-- A copy of the cursor is what the cursor is. -/
  copies : ∀ conn copy now, (s.commands conn).copy = some (id, copy) → s.cursors id = some now →
    copy = now
  /-- The cursor has handed out what it should. -/
  cursor : ∀ entry rows, s.cursors id = some entry → s.HandedOut id rows →
    s.Accounted whole auto (s.opened id) entry rows

variable {whole auto : Prop}

/-- Where nothing has been pruned, a connection reads everything that it can. -/
lemma Backed.readable_whole (hB : s.Backed) (hintact : s.server.deleted = [] ∧ s.server.lost = [])
    (conn : ℕ) : (∀ r, ¬ (r ∈ (s.readable conn).deleted ∨ r ∈ (s.readable conn).lost)) ∧
      (s.readable conn).rows = (s.readable conn).committed := by
  obtain ⟨-, -, hlater⟩ := hB.base conn
  have hgone : ∀ r, ¬ (r ∈ (s.readable conn).deleted ∨ r ∈ (s.readable conn).lost) := by
    intro r hr
    have hnow := hlater.gone r hr
    rw [hintact.1, hintact.2] at hnow
    simp at hnow
  obtain ⟨hsub, hacc⟩ := hB.readable_rows conn
  have hseq := hB.readable_sequenced conn
  exact ⟨hgone, (hseq.sublist hsub).ext hseq fun r =>
    ⟨fun hr => hsub.subset hr, fun hr => (hacc r hr).resolve_right (hgone r)⟩⟩

/-- A settled first batch is everything up to the position its cursor is to have. -/
lemma Sound.spans_firstBatch (hS : s.Sound) (hintact : s.server.deleted = [] ∧ s.server.lost = [])
    {req : FindRequest} {head : ℕ} (hsettled : FirstBatchSettled s (.findSelect conn))
    (hcommand : s.commands conn = .finding req head) (htailable : req.tailable = true)
    (hnatural : req.newestFirst = false) :
    s.Spans req.selects 0 (req.afterSeq head (req.page (s.seen conn).rows))
      (req.page (s.seen conn).rows) := by
  simp only [FirstBatchSettled, hcommand, BatchSettled] at hsettled
  obtain ⟨hsees, hbatch⟩ := hsettled htailable hnatural
  have hhead := hS.informed conn
  rw [hcommand] at hhead
  obtain ⟨hwindow, hreached⟩ := firstBatch_eq_window (hS.backed.readable_sequenced conn)
    (hS.backed.readable_whole hintact conn).2 hhead hnatural hbatch
  exact hS.backed.spans hsees hwindow (Nat.zero_le _) hreached

/-- The page of a `getMore` that is about to store its position. -/
lemma Attends.spans_page (hA : s.Attends whole auto id) {wanted head : ℕ}
    (hsees : SeesSelected id s (.advance conn))
    (hcommand : s.commands conn = .selected id entry wanted head page)
    (hkind : whole ∨ entry.tail.changeStream = true) :
    s.Spans (entry.selects s.fold) entry.tail.afterSeq (entry.tail.nextAfter wanted head page)
        page ∧
      page ⊆ (s.readable conn).committed := by
  have hS := hA.orderly.settled.sound
  have hread := hS.informed conn
  rw [hcommand] at hread
  have hwhole : WholePage (s.readable conn) (entry.selects s.fold) entry.tail.afterSeq wanted head
      page := by
    rcases hread with hwhole | ⟨hfind, hread⟩
    · exact hwhole
    · have hintact := hA.intact (hkind.resolve_right (by rw [hfind]; exact Bool.false_ne_true))
      refine hread.whole (hS.backed.readable_sequenced conn) fun r hr => ?_
      exact absurd hr ((hS.backed.readable_whole hintact conn).1 r)
  obtain ⟨hwindow, hle, hreached⟩ := page_eq_window (hS.backed.readable_sequenced conn) hwhole
  refine ⟨hS.backed.spans (hsees entry wanted head page hcommand) hwindow hle hreached,
    fun r hr => ?_⟩
  rw [hwindow] at hr
  exact (mem_window.1 hr).1

/-- What is committed stays committed. -/
lemma Backed.committed_step (hB : s.Backed) (h : s.step a = some s') :
    s.server.committed ⊆ s'.server.committed := by
  cases session_effect h with
  | server _ hstep heq =>
    subst heq
    exact hB.server.committed_subset hstep
  | opensView _ heq | closesView _ heq | keeps heq | moves _ heq | registers _ heq
  | advances _ heq | replies _ heq | kills heq =>
    subst heq
    exact List.Subset.refl _

/-- A cursor that an action leaves alone has handed out what it should. -/
lemma Accounted.step {opened : TailCommand} (h : s.Accounted whole auto opened entry rows)
    (hB : s.Backed) (hs : s.step a = some s') : s'.Accounted whole auto opened entry rows := by
  refine ⟨h.moved, fun hkind start horigin => ?_, fun hauto hstream => ?_⟩
  · rw [fold_step hs]
    exact (h.spans hkind start horigin).step hs
  · exact List.Subset.trans (h.committed hauto hstream) (hB.committed_step hs)

/-- A cursor that was just registered has handed out what it should. -/
lemma Attends.registered (hA : s.Attends whole auto id)
    (hregisters : (s.commands conn).Registers entry page) :
    s.Accounted whole auto (s.commands conn) entry page := by
  generalize hbefore : s.commands conn = command at hregisters
  refine ⟨⟨entry, page, entry.tail.afterSeq, hregisters, rfl⟩, fun hkind start horigin => ?_,
    fun _ hstream => ?_⟩
  · cases hregisters with
    | stream =>
      obtain rfl := Option.some.inj horigin
      exact spans_nil _ _ _
    | @find req head _ htailable =>
      have hwhole : whole := hkind.resolve_right Bool.false_ne_true
      have hnatural : req.newestFirst = false := by
        by_contra hnewest
        simp [TailCommand.origin, hnewest] at horigin
      obtain rfl : 0 = start := by simpa [TailCommand.origin, hnatural] using horigin
      exact hA.found hwhole conn req head page hbefore htailable hnatural
  · cases hregisters with
    | stream => exact List.nil_subset _
    | find => cases hstream

/-- A cursor whose position was just stored has handed out what it should. -/
lemma Attends.advanced (hA : s.Attends whole auto id)
    (ha : Attended whole auto id s (.advance conn)) {wanted head : ℕ}
    (hcommand : s.commands conn = .selected id entry wanted head page)
    (hentry : s.cursors id = some entry) (hrows : s.HandedOut id rows) :
    s.Accounted whole auto (s.opened id)
      { entry with tail :=
        { entry.tail with afterSeq := entry.tail.nextAfter wanted head page } } (rows ++ page) := by
  obtain ⟨⟨registered, batch, afterSeq, hregisters, hmoved⟩, hspans, hcommitted⟩ :=
    hA.cursor entry rows hentry hrows
  refine ⟨⟨registered, batch, entry.tail.nextAfter wanted head page, hregisters, ?_⟩,
    fun hkind start horigin => ?_, fun hauto hstream => ?_⟩
  · rw [hmoved]
  · exact (hspans hkind start horigin).append (hA.spans_page ha.sees hcommand hkind).1
  · have hB := hA.orderly.settled.sound.backed
    have hown : s.own conn = [] := ha.autocommit hauto (by rw [hcommand]; rfl)
    have hread := (hA.spans_page ha.sees hcommand (.inr hstream)).2
    refine List.append_subset.2 ⟨hcommitted hauto hstream, fun r hr => ?_⟩
    obtain ⟨-, -, hlater⟩ := hB.base conn
    obtain ⟨new, hnew, -⟩ := hlater.committed
    have hmem : r ∈ (s.base conn).committed ++ s.own conn := hread hr
    rw [hown, List.append_nil] at hmem
    rw [hnew]
    exact List.mem_append_left _ hmem

/-- Nothing is pruned without a pruning action. -/
lemma intact_step (ha : a.prunes = false) (h : s.step a = some s')
    (hintact : s.server.deleted = [] ∧ s.server.lost = []) :
    s'.server.deleted = [] ∧ s'.server.lost = [] := by
  cases session_effect h with
  | @server b server _ hstep heq =>
    subst heq
    cases b with
    | append conn call =>
      obtain ⟨-, clock, row, -, rfl⟩ := OplogServer.step_append hstep
      exact hintact
    | commit conn =>
      obtain ⟨pending, clock, -, rfl⟩ := OplogServer.step_commit hstep
      exact hintact
    | rollback conn =>
      obtain ⟨-, rfl⟩ := OplogServer.step_rollback hstep
      exact hintact
    | pruneStart maxRows maxAge | pruneStep now | pruneFail => cases ha
  | opensView _ heq | closesView _ heq | keeps heq | moves _ heq | registers _ heq
  | advances _ heq | replies _ heq | kills heq =>
    subst heq
    exact hintact

/-- A first batch that was read stays one. -/
lemma Attends.found_step (hA : s.Attends whole auto id) (ha : Attended whole auto id s a)
    (h : s.step a = some s') (hwhole : whole) {req : FindRequest} {head : ℕ}
    (hcommand : s'.commands conn = .found req head page) (htailable : req.tailable = true)
    (hnatural : req.newestFirst = false) :
    s'.Spans req.selects 0 (req.afterSeq head page) page := by
  refine Spans.step ?_ h
  have heffect := commandEffect conn h
  rw [hcommand] at heffect
  generalize hafter : TailCommand.found req head page = after at heffect
  cases heffect with
  | keeps => exact hA.found hwhole conn req head page hafter.symm htailable hnatural
  | moves hmove =>
    generalize hbefore : s.commands conn = before at hmove
    cases hmove with
    | finds =>
      cases hafter
      exact hA.orderly.settled.sound.spans_firstBatch (hA.intact hwhole) (ha.settled hwhole) hbefore
        htailable hnatural
    | _ => cases hafter
  | registers | advances | replies => cases hafter

/-- Copies of the cursor stay what the cursor is. -/
lemma Attends.copies_step (hA : s.Attends whole auto id) (h : s.step a = some s')
    {copy now : RegistryEntry} (hcopy : (s'.commands conn).copy = some (id, copy))
    (hnow : s'.cursors id = some now) : copy = now := by
  have hbefore : s.cursors id = some now → copy = now := fun hnow =>
    (copy_step h hcopy).elim (fun hold => hA.copies conn copy now hold hnow)
      fun hentry => Option.some.inj (hentry.symm.trans hnow)
  cases registryEffect h with
  | keeps hcursors hnext => exact hbefore (hcursors ▸ hnow)
  | registers new hcursors hnext =>
    have hid : id ≠ s.nextId := by
      rintro rfl
      rcases copy_step h hcopy with hold | hentry
      · exact lt_irrefl _ (hA.orderly.settled.commands conn _ (TailCommand.cursor_of_copy hold))
      · exact lt_irrefl _ (hA.orderly.settled.numbered.lt_nextId hentry)
    rw [hcursors, Function.update_of_ne hid] at hnow
    exact hbefore hnow
  | @advances mover other wanted head entry page hcommand hcursors hnext =>
    by_cases hid : id = other
    · subst hid
      have hmover : conn = mover := by
        rcases cursor_step h (TailCommand.cursor_of_copy hcopy) with hold | ⟨⟨_, _, hnone⟩, -⟩
        · exact hA.orderly.alone conn mover hold (by rw [hcommand]; rfl)
        · cases hnone
      have hreplying : s'.commands mover = .replying id page := by
        simp only [TailSessions.step, hcommand] at h
        cases h
        exact Function.update_self _ _ _
      rw [hmover, hreplying] at hcopy
      cases hcopy
    · rw [hcursors, Function.update_of_ne hid] at hnow
      exact hbefore hnow
  | kills other hcursors hnext =>
    by_cases hid : id = other
    · rw [hcursors, hid, Function.update_self] at hnow
      cases hnow
    · rw [hcursors, Function.update_of_ne hid] at hnow
      exact hbefore hnow

/-- **One step.**  Every action that meets the conditions keeps the invariant of the cursor. -/
theorem Attends.step (hA : s.Attends whole auto id) (ha : Attended whole auto id s a)
    (h : s.step a = some s') : s'.Attends whole auto id := by
  refine ⟨hA.orderly.step ha.oneAtATime h, fun hwhole => ?_, fun hwhole conn req head page => ?_,
    fun conn copy now => hA.copies_step h, fun entry rows hafter hgiven => ?_⟩
  · exact intact_step (ha.prunes hwhole) h (hA.intact hwhole)
  · exact hA.found_step ha h hwhole
  · have hB := hA.orderly.settled.sound.backed
    have heffect := cursorEffect hA.orderly ha.replies h hafter hgiven
    generalize s'.opened id = opened at heffect ⊢
    cases heffect with
    | keeps hentry hopened hrows =>
      rw [hopened]
      exact (hA.cursor entry rows hentry hrows).step hB h
    | registers hregisters hopened =>
      rw [hopened]
      exact (hA.registered hregisters).step hB h
    | @advances conn wanted head copy now rows page hcommand hnow hopened hrows =>
      obtain rfl := hA.copies conn copy now (by rw [hcommand]; rfl) hnow
      rw [hopened]
      exact (hA.advanced ha hcommand hnow hrows).step hB h

end TailSessions

end Chimera
