import Chimera.Oplog.Positions

/-!
# Resuming with a token

A change stream that resumes with a token starts at the token's sequence number, whatever it is: the
open compares it only with what has been deleted.  A token beyond every number that was given out is
accepted too, as soon as the oplog holds a row, and the stream then passes over the events that are
committed until the oplog has caught up with it.

A stream misses nothing that is committed after its open when the token's number was given out
before, to no row that is still pending on its namespace; when no `getMore` on it stores a position
from inside a transaction that has appended rows and does not see everything that is committed; and
when no call fails between storing its position and replying with a page.
-/

namespace Chimera

open SequencedLog StepSystem

namespace TailSessions

/-- The cursor has delivered the row, or a call that has stored its position is about to. -/
def Delivers (s : TailSessions) (id : ℕ) (r : OplogRow) : Prop :=
  (id, r) ∈ s.delivered ∨ ∃ conn page, s.commands conn = .replying id page ∧ r ∈ page

/-- Positions and replies of a cursor are undisturbed.  A connection that stores a position has
nothing pending, or sees every event that is committed on the namespace; and no call fails between
storing its position and replying with a page. -/
def Undisturbed (id : ℕ) (s : TailSessions) : SessionAction → Prop
  | .advance conn => ∀ entry wanted head page,
      s.commands conn = .selected id entry wanted head page → s.own conn = [] ∨
        ∀ r ∈ s.server.committed, r.ns = entry.ns → r ∈ (s.base conn).committed
  | .fail conn => ∀ page, s.commands conn = .replying id page → page = []
  | _ => True

/-! ## What a cursor has taken in -/

variable {s s' : TailSessions} {a : SessionAction} {id conn p afterSeq : ℕ} {ns : Text}

/-- Every row of the namespace beyond `origin` and up to a position is delivered, and no row is
still to come at or before the position. -/
structure TakenIn (s : TailSessions) (id origin : ℕ) (ns : Text) (p : ℕ) : Prop where
  /-- The position's number has been given out. -/
  lt : p < s.server.autoIncrement
  /-- What lies before it is delivered. -/
  delivers : ∀ r ∈ s.allRows, r.ns = ns → origin < r.seq → r.seq ≤ p → s.Delivers id r

/-- A change stream on the namespace, at a position that it has taken in. -/
structure Streams (s : TailSessions) (id origin : ℕ) (ns : Text) (entry : RegistryEntry) :
    Prop where
  /-- It is on the namespace. -/
  ns_eq : entry.ns = ns
  /-- It is a change stream. -/
  stream : entry.tail.changeStream = true
  /-- It has taken in what lies before its position. -/
  takenIn : s.TakenIn id origin ns entry.tail.afterSeq

/-- What is known of a cursor that was opened at `origin`, when the rows `old` were committed. -/
structure Follows (s : TailSessions) (id origin : ℕ) (ns : Text) (old : List OplogRow) : Prop where
  /-- Every command knows what it has read. -/
  sound : s.Sound
  /-- The cursor's number has been given. -/
  known : id < s.nextId
  /-- The origin has been given out. -/
  origin_lt : origin < s.server.autoIncrement
  /-- What is new on the namespace lies beyond the origin. -/
  beyond : ∀ r ∈ s.allRows, r ∈ old ∨ (r.ns = ns → origin < r.seq)
  /-- The cursor, while it is there, has taken in what lies before its position. -/
  entry : ∀ entry, s.cursors id = some entry → s.Streams id origin ns entry
  /-- So has every copy of it. -/
  copies : ∀ conn entry, (s.commands conn).copy = some (id, entry) → s.Streams id origin ns entry

variable {origin : ℕ} {old : List OplogRow} {entry : RegistryEntry}

/-- How a state may follow another one, for what a cursor has taken in. -/
structure Extended (s s' : TailSessions) (id : ℕ) : Prop where
  /-- Numbers are only given out. -/
  autoIncrement_le : s.server.autoIncrement ≤ s'.server.autoIncrement
  /-- New rows have new numbers. -/
  rows : ∀ r ∈ s'.allRows, r ∈ s.allRows ∨ s.server.autoIncrement ≤ r.seq
  /-- What is delivered stays delivered. -/
  delivers : ∀ r, s.Delivers id r → s'.Delivers id r

/-- What is taken in stays taken in. -/
lemma TakenIn.extended (h : s.TakenIn id origin ns p) (he : s.Extended s' id) :
    s'.TakenIn id origin ns p := by
  refine ⟨h.lt.trans_le he.autoIncrement_le, fun r hr hns horigin hle => ?_⟩
  rcases he.rows r hr with hold | hnew
  · exact he.delivers r (h.delivers r hold hns horigin hle)
  · exact absurd (hnew.trans hle) h.lt.not_ge

/-- A change stream stays one. -/
lemma Streams.extended (h : s.Streams id origin ns entry) (he : s.Extended s' id) :
    s'.Streams id origin ns entry :=
  ⟨h.ns_eq, h.stream, h.takenIn.extended he⟩

/-! ## One step -/

/-- A command moves on, and what its connection was replying with is delivered. -/
lemma Delivers.of_update {command : TailCommand} {r : OplogRow} (h : s.Delivers id r)
    (hdelivered : s.delivered ⊆ s'.delivered)
    (hcommands : s'.commands = Function.update s.commands conn command)
    (hreplying : ∀ page, s.commands conn = .replying id page → r ∈ page → s'.Delivers id r) :
    s'.Delivers id r := by
  rcases h with h | ⟨other, page, hpage, hr⟩
  · exact .inl (hdelivered h)
  · by_cases hconn : other = conn
    · exact hreplying page (hconn ▸ hpage) hr
    · refine .inr ⟨other, page, ?_, hr⟩
      rwa [hcommands, Function.update_of_ne hconn]

/-- What is delivered stays delivered, when no reply fails. -/
lemma delivers_step {r : OplogRow} (hguard : Undisturbed id s a) (h : s.step a = some s')
    (hr : s.Delivers id r) : s'.Delivers id r := by
  cases session_effect h with
  | server _ _ heq | opensView _ heq | closesView _ heq | keeps heq | kills heq =>
    subst heq
    exact hr
  | moves hmove heq =>
    subst heq
    refine hr.of_update (List.Subset.refl _) rfl fun page hpage hrpage => ?_
    rw [hpage] at hmove
    cases hmove with
    | fails =>
      rw [hguard page hpage] at hrpage
      exact absurd hrpage List.not_mem_nil
  | registers hregisters heq =>
    subst heq
    refine hr.of_update (List.subset_append_left _ _) rfl fun page hpage _ => ?_
    rw [hpage] at hregisters
    cases hregisters
  | advances hcommand heq =>
    subst heq
    exact hr.of_update (List.Subset.refl _) rfl fun page hpage _ =>
      nomatch hcommand.symm.trans hpage
  | replies hcommand heq =>
    subst heq
    refine hr.of_update (List.subset_append_left _ _) rfl fun page hpage hrpage => ?_
    cases hcommand.symm.trans hpage
    exact .inl (List.mem_append_right _ (List.mem_map.2 ⟨r, hrpage, rfl⟩))

/-- New rows have numbers that had not been given out. -/
lemma allRows_step (h : s.step a = some s') :
    s.server.autoIncrement ≤ s'.server.autoIncrement ∧
      ∀ r ∈ s'.allRows, r ∈ s.allRows ∨ s.server.autoIncrement ≤ r.seq := by
  cases session_effect h with
  | server _ hstep heq =>
    subst heq
    exact OplogServer.step_rows hstep
  | opensView _ heq | closesView _ heq | keeps heq | moves _ heq | registers _ heq
  | advances _ heq | replies _ heq | kills heq =>
    subst heq
    exact ⟨le_rfl, fun r hr => .inl hr⟩

/-- A step extends what a cursor has taken in. -/
lemma extended_step (hguard : Undisturbed id s a) (h : s.step a = some s') : s.Extended s' id := by
  obtain ⟨hauto, hrows⟩ := allRows_step h
  exact ⟨hauto, hrows, fun r hr => delivers_step hguard h hr⟩

/-- A position that is stored has been taken in. -/
lemma Follows.takenIn_advance {wanted head : ℕ} {page : List OplogRow}
    (hF : s.Follows id origin ns old) (he : s.Extended s' id)
    (hguard : Undisturbed id s (.advance conn))
    (hcommand : s.commands conn = .selected id entry wanted head page)
    (hrows : s'.allRows = s.allRows)
    (hreplies : s'.commands conn = .replying id page) :
    s'.TakenIn id origin ns (entry.tail.nextAfter wanted head page) := by
  have hstreams : s.Streams id origin ns entry := hF.copies conn entry (by rw [hcommand]; rfl)
  have hknown := hF.sound.informed conn
  rw [hcommand] at hknown
  have hpage := hknown.resolve_right fun hfind =>
    Bool.false_ne_true (hfind.1.symm.trans hstreams.stream)
  have htaken := hstreams.takenIn.extended he
  obtain ⟨hwindow, -, hreached⟩ :=
    page_eq_window (hF.sound.backed.readable_sequenced conn) hpage
  rcases hreached with hstays | ⟨r', hr', hle'⟩
  · change s'.TakenIn id origin ns (entry.tail.nextAfter wanted head page)
    rwa [show entry.tail.nextAfter wanted head page = entry.tail.afterSeq from hstays]
  · have hlt : r'.seq < s.server.autoIncrement :=
      hF.sound.backed.server.fresh r' ((hF.sound.backed.readable_sublist conn).subset hr')
    refine ⟨hle'.trans_lt (hlt.trans_le he.autoIncrement_le), fun r hr hns horigin hle => ?_⟩
    by_cases hbefore : r.seq ≤ entry.tail.afterSeq
    · exact htaken.delivers r hr hns horigin hbefore
    -- the connection can read the row, so that the page holds it
    rw [hrows] at hr
    have hmem := hF.sound.backed.readable_of_le (hguard entry wanted head page hcommand) hr
      (hns.trans hstreams.ns_eq.symm) hr' (hle.trans hle')
    have hsel : entry.selects s.fold r = true := by
      simp [RegistryEntry.selects, TailState.selects, hstreams.stream, hns, hstreams.ns_eq]
    refine .inr ⟨conn, page, hreplies, ?_⟩
    rw [hwindow]
    exact mem_window.2 ⟨hmem, not_le.1 hbefore, hle, hsel⟩

/-- The cursor, while it is there, goes on having taken in what lies before its position. -/
lemma Follows.entry_step (hF : s.Follows id origin ns old) (hguard : Undisturbed id s a)
    (h : s.step a = some s') (hentry : s'.cursors id = some entry) :
    s'.Streams id origin ns entry := by
  have he := extended_step hguard h
  cases session_effect h with
  | server _ _ heq | opensView _ heq | closesView _ heq | keeps heq | moves _ heq
  | replies _ heq =>
    subst heq
    exact (hF.entry entry hentry).extended he
  | @registers _ conn new page _ heq =>
    subst heq
    change Function.update s.cursors s.nextId (some new) id = some entry at hentry
    rw [Function.update_of_ne hF.known.ne] at hentry
    exact (hF.entry entry hentry).extended he
  | @advances conn other wanted head copy page hcommand heq =>
    subst heq
    by_cases hother : id = other
    · subst hother
      simp only [Function.update_self] at hentry
      obtain ⟨now, hnow, rfl⟩ := Option.map_eq_some_iff.1 hentry
      have hstreams := hF.entry now hnow
      refine ⟨hstreams.ns_eq, hstreams.stream, ?_⟩
      exact hF.takenIn_advance he hguard hcommand rfl (Function.update_self _ _ _)
    · simp only [Function.update_of_ne hother] at hentry
      exact (hF.entry entry hentry).extended he
  | @kills other heq =>
    subst heq
    by_cases hother : id = other
    · simp only [hother, Function.update_self] at hentry
      cases hentry
    · simp only [Function.update_of_ne hother] at hentry
      exact (hF.entry entry hentry).extended he

/-- Numbers of cursors are only given. -/
lemma nextId_step (h : s.step a = some s') : s.nextId ≤ s'.nextId := by
  cases registryEffect h with
  | keeps _ hnext | advances _ _ hnext | kills _ _ hnext => exact hnext.ge
  | registers _ _ hnext => omega

/-- **One step.**  What is known of the cursor stays known. -/
theorem Follows.step (hF : s.Follows id origin ns old) (hguard : Undisturbed id s a)
    (h : s.step a = some s') : s'.Follows id origin ns old := by
  have he := extended_step hguard h
  refine ⟨hF.sound.step h, hF.known.trans_le (nextId_step h),
    hF.origin_lt.trans_le he.autoIncrement_le, fun r hr => ?_,
    fun entry hentry => hF.entry_step hguard h hentry, fun conn entry hcopy => ?_⟩
  · rcases he.rows r hr with hold | hnew
    · exact hF.beyond r hold
    · exact .inr fun _ => hF.origin_lt.trans_le hnew
  · rcases copy_step h hcopy with hold | hentry
    · exact (hF.copies conn entry hold).extended he
    · exact (hF.entry entry hentry).extended he

/-! ## The open -/

/-- What holds before a cursor is opened. -/
structure Settled (s : TailSessions) : Prop where
  /-- Every command knows what it has read. -/
  sound : s.Sound
  /-- Numbers of cursors are given once. -/
  numbered : s.Numbered
  /-- Every `getMore` is on a cursor whose number has been given. -/
  commands : ∀ conn id, (s.commands conn).cursor = some id → id < s.nextId

/-- A registered cursor has a number that was given. -/
lemma Numbered.lt_nextId (hN : s.Numbered) (h : s.cursors id = some entry) : id < s.nextId := by
  by_contra hle
  rw [hN.fresh id (Nat.le_of_not_lt hle)] at h
  cases h

/-- Every action keeps what holds before the open. -/
lemma Settled.step (hS : s.Settled) (h : s.step a = some s') : s'.Settled := by
  refine ⟨hS.sound.step h, hS.numbered.step h, fun conn id hid => ?_⟩
  refine lt_of_lt_of_le ?_ (nextId_step h)
  rcases cursor_step h hid with hold | ⟨-, entry, hentry⟩
  · exact hS.commands conn id hold
  · exact hS.numbered.lt_nextId hentry

/-- An initial state with a freshly installed oplog. -/
lemma Initial.settled (h : s.Initial) (hinstalled : s.server.Installed) (hN : s.Numbered) :
    s.Settled := by
  refine ⟨⟨⟨h.server, hinstalled.anchored, fun conn view hview => ?_⟩, fun conn => ?_⟩, hN,
    fun conn id hid => ?_⟩
  · exact nomatch (h.views conn).symm.trans hview
  · rw [h.idle conn]
    trivial
  · rw [h.idle conn] at hid
    cases hid

/-- What is known of a cursor that has just been opened. -/
lemma Settled.follows (hS : s.Settled) (hcommand : s.commands conn = .openingStream ns origin)
    (hok : requireChangeStreamHistory (s.seen conn) origin = .ok ())
    (hissued : origin < s.server.autoIncrement ∧
      ∀ r ∈ s.server.lock.pending, r.ns = ns → origin < r.seq)
    (h : s.step (.checkStart conn) = some s') :
    s'.Follows s.nextId origin ns s.server.committed := by
  have hsound := hS.sound.step h
  have hcopies : ∀ other entry, (s'.commands other).copy ≠ some (s.nextId, entry) := by
    intro other entry hcopy
    rcases copy_step h hcopy with hold | hentry
    · exact lt_irrefl _ (hS.commands other _ (TailCommand.cursor_of_copy hold))
    · exact absurd (hS.numbered.lt_nextId hentry) (lt_irrefl _)
  simp only [TailSessions.step, hcommand, hok] at h
  cases h
  refine ⟨hsound, Nat.lt_succ_self _, hissued.1, fun r hr => ?_, fun entry hentry => ?_,
    fun other entry hcopy => absurd hcopy (hcopies other entry)⟩
  · exact (List.mem_append.1 hr).imp_right fun hr => hissued.2 r hr
  · change Function.update s.cursors s.nextId (some _) s.nextId = some entry at hentry
    rw [Function.update_self] at hentry
    cases hentry
    exact ⟨rfl, rfl, hissued.1, fun r _ _ hlt hle => absurd hlt hle.not_gt⟩

/-- **A number that was given out is honoured.**  In every run of writers, prune passes, opens,
kills and `getMore` calls on any number of connections, each statement a step, from a new or a
migrated oplog: let a change stream be opened after a sequence number that has been given out, to
no row that is pending on the namespace.  As long as no `getMore` on it stores a position while its
connection has rows pending and does not see everything that is committed on the namespace, and no
call fails between storing its position and replying with a page, every event that is committed on
the namespace after the open, and lies at or before the cursor's position, has been delivered or is
on a page that is about to be. -/
theorem token_honoured {s₀ s s₁ t : TailSessions} {as bs : List SessionAction} {conn token : ℕ}
    {ns : Text} (hs : s₀.Initial) (hinstalled : s₀.server.Installed) (hN : s₀.Numbered)
    (h : Steps TailSessions.step s₀ as s) (hcommand : s.commands conn = .openingStream ns token)
    (hok : requireChangeStreamHistory (s.seen conn) token = .ok ())
    (hissued : token < s.server.autoIncrement ∧
      ∀ r ∈ s.server.lock.pending, r.ns = ns → token < r.seq)
    (hopen : s.step (.checkStart conn) = some s₁)
    (hrun : Run TailSessions.step (Undisturbed s.nextId) s₁ bs t) {entry : RegistryEntry}
    (hentry : t.cursors s.nextId = some entry) {r : OplogRow} (hr : r ∈ t.server.committed)
    (hnew : r ∉ s.server.committed) (hns : r.ns = ns) (hle : r.seq ≤ entry.tail.afterSeq) :
    (s.nextId, r) ∈ t.delivered ∨
      ∃ conn page, t.commands conn = .replying s.nextId page ∧ r ∈ page := by
  have hsettled : s.Settled := h.invariant (P := Settled)
    (fun _ _ _ hS _ hstep => hS.step hstep) (hs.settled hinstalled hN)
  have hfollows : t.Follows s.nextId token ns s.server.committed :=
    hrun.invariant (P := fun s' => s'.Follows s.nextId token ns s.server.committed)
      (fun _ _ _ hF hguard hstep => hF.step hguard hstep)
      (hsettled.follows hcommand hok hissued hopen)
  have hall : r ∈ t.allRows := List.mem_append_left _ hr
  have hbeyond : token < r.seq := (hfollows.beyond r hall).resolve_left hnew hns
  exact (hfollows.entry entry hentry).takenIn.delivers r hall hns hbeyond hle

instance Undisturbed.decidable (id : ℕ) (s : TailSessions) :
    (a : SessionAction) → Decidable (Undisturbed id s a)
  | .advance conn =>
    match h : s.commands conn with
    | .selected i entry _ _ _ =>
      decidable_of_iff (i = id → s.own conn = [] ∨
          ∀ r ∈ s.server.committed, r.ns = entry.ns → r ∈ (s.base conn).committed) (by
        simp only [Undisturbed, h]
        constructor
        · rintro hsees entry' _ _ _ ⟨⟩
          exact hsees rfl
        · rintro hsees rfl
          exact hsees _ _ _ _ rfl)
    | .idle | .openingStream _ _ | .finding _ _ | .found _ _ _ | .sampling _ _ _
    | .selecting _ _ _ _ | .checking _ _ _ _ _ | .replying _ _ =>
      .isTrue (by simp [Undisturbed, h])
  | .fail conn =>
    match h : s.commands conn with
    | .replying i page =>
      decidable_of_iff (i = id → page = []) (by
        simp only [Undisturbed, h]
        constructor
        · rintro hempty page' ⟨⟩
          exact hempty rfl
        · rintro hempty rfl
          exact hempty _ rfl)
    | .idle | .openingStream _ _ | .finding _ _ | .found _ _ _ | .sampling _ _ _
    | .selecting _ _ _ _ | .checking _ _ _ _ _ | .selected _ _ _ _ _ =>
      .isTrue (by simp [Undisturbed, h])
  | .server _ | .openView _ | .closeView _ | .resolveStart _ _ _ | .checkStart _ | .findHead _ _
  | .findSelect _ | .findOpen _ | .getMore _ _ _ _ | .sampleHead _ | .select _ | .check _
  | .park _ | .reply _ | .kill _ => .isTrue trivial

/-! ## Four runs -/

/-- An event is committed on `a.b`, and a change stream is about to be opened after a token. -/
def writeAndResume (token : ℕ) : List SessionAction :=
  [.server (.append 1 (plainAppend 10)), .server (.commit 1),
    .resolveStart 2 "a.b".toList (.token token)]

/-- Another event is committed, and the stream is read. -/
def writeAndRead : List SessionAction :=
  [.server (.append 1 (plainAppend 11)), .server (.commit 1)] ++ streamGetMore 2

/-- The token of the event is honoured: the next event is delivered. -/
theorem token_honoured_resumed : ∃ s s₁ t entry,
    Steps TailSessions.step fresh (writeAndResume 1) s ∧
    s.step (.checkStart 2) = some s₁ ∧
    Run TailSessions.step (Undisturbed 1) s₁ writeAndRead t ∧
    t.cursors 1 = some entry ∧ entry.tail.afterSeq = 2 ∧
    ((1, OplogServer.eventAt 2 11) ∈ t.delivered ∨
      ∃ conn page, t.commands conn = .replying 1 page ∧ OplogServer.eventAt 2 11 ∈ page) := by
  obtain ⟨s, s₁, t, entry, hsteps, hcommand, hok, hissued, hopen, hid, hrun, hentry, hpos, hr,
      hnew⟩ : ∃ s s₁ t entry, Steps TailSessions.step fresh (writeAndResume 1) s ∧
      s.commands 2 = .openingStream "a.b".toList 1 ∧
      requireChangeStreamHistory (s.seen 2) 1 = .ok () ∧
      (1 < s.server.autoIncrement ∧
        ∀ r ∈ s.server.lock.pending, r.ns = "a.b".toList → 1 < r.seq) ∧
      s.step (.checkStart 2) = some s₁ ∧ s.nextId = 1 ∧
      Run TailSessions.step (Undisturbed 1) s₁ writeAndRead t ∧
      t.cursors 1 = some entry ∧ entry.tail.afterSeq = 2 ∧
      OplogServer.eventAt 2 11 ∈ t.server.committed ∧
      OplogServer.eventAt 2 11 ∉ s.server.committed :=
    ⟨_, _, _, _, steps_of_runActions rfl, rfl, rfl, ⟨by decide, nofun⟩, rfl, rfl,
      run_of_runActions rfl, rfl, rfl, by decide, by decide⟩
  refine ⟨s, s₁, t, entry, hsteps, hopen, hrun, hentry, hpos, ?_⟩
  rw [← hid] at hrun hentry ⊢
  exact token_honoured fresh_initial OplogServer.newOplog_installed fresh_numbered hsteps hcommand
    hok hissued hopen hrun hentry hr hnew rfl hpos.ge

/-- A token that the oplog has not come to is accepted, and the stream passes over the events that
are committed next. -/
theorem token_passes_over :
    ¬ ∀ (s₀ s s₁ t : TailSessions) (as bs : List SessionAction) (conn token : ℕ) (ns : Text),
      s₀.Initial → s₀.server.Installed → s₀.Numbered → Steps TailSessions.step s₀ as s →
      s.commands conn = .openingStream ns token →
      requireChangeStreamHistory (s.seen conn) token = .ok () →
      s.step (.checkStart conn) = some s₁ → Steps TailSessions.step s₁ bs t →
      ∀ entry, t.cursors s.nextId = some entry → ∀ r ∈ t.server.committed,
        r ∉ s.server.committed → r.ns = ns → r.seq ≤ entry.tail.afterSeq →
        t.Delivers s.nextId r := by
  intro h
  obtain ⟨s, s₁, t, entry, hsteps, hcommand, hok, hopen, hrun, hentry, hpos, hr, hnew, hnone,
      hidle⟩ : ∃ s s₁ t entry, Steps TailSessions.step fresh (writeAndResume 5) s ∧
      s.commands 2 = .openingStream "a.b".toList 5 ∧
      requireChangeStreamHistory (s.seen 2) 5 = .ok () ∧
      s.step (.checkStart 2) = some s₁ ∧ Steps TailSessions.step s₁ writeAndRead t ∧
      t.cursors s.nextId = some entry ∧ entry.tail.afterSeq = 5 ∧
      OplogServer.eventAt 2 11 ∈ t.server.committed ∧
      OplogServer.eventAt 2 11 ∉ s.server.committed ∧ t.delivered = [] ∧
      ∀ conn, (t.commands conn).cursor = none := by
    refine ⟨_, _, _, _, steps_of_runActions rfl, rfl, rfl, rfl, steps_of_runActions rfl, rfl, rfl,
      by decide, by decide, rfl, fun conn => ?_⟩
    simp [TailSessions.setCommand, TailSessions.register, fresh, TailCommand.cursor]
  have hdelivers := h fresh s s₁ t _ _ 2 5 _ fresh_initial OplogServer.newOplog_installed
    fresh_numbered hsteps hcommand hok hopen hrun entry hentry _ hr hnew rfl (by
      rw [hpos]
      decide)
  rcases hdelivers with hdelivered | ⟨conn, page, hpage, -⟩
  · rw [hnone] at hdelivered
    exact absurd hdelivered List.not_mem_nil
  · have := hidle conn
    rw [hpage] at this
    cases this

/-- A call stores its position and then fails: the page is lost, and the next call does not read it
again. -/
theorem failed_reply_passes_over : ∃ t entry,
    Steps TailSessions.step fresh (writeAndResume 1 ++ .checkStart 2 ::
      [.server (.append 1 (plainAppend 11)), .server (.commit 1), .getMore 2 1 "a.b".toList 101,
        .sampleHead 2, .select 2, .check 2, .advance 2, .fail 2] ++ streamGetMore 2) t ∧
      t.cursors 1 = some entry ∧ entry.tail.afterSeq = 2 ∧
      OplogServer.eventAt 2 11 ∈ t.server.committed ∧ t.delivered = [] :=
  ⟨_, _, steps_of_runActions rfl, rfl, rfl, by decide, rfl⟩

/-- A connection that has fixed its read view appends an event of its own after another one was
committed: its stream delivers its own event and passes over the other one. -/
theorem older_view_passes_over : ∃ t entry,
    Steps TailSessions.step fresh (writeAndResume 1 ++ .checkStart 2 ::
      [.openView 2, .server (.append 1 (plainAppend 11)), .server (.commit 1),
        .server (.append 2 (plainAppend 12))] ++ streamGetMore 2) t ∧
      t.cursors 1 = some entry ∧ entry.tail.afterSeq = 3 ∧
      OplogServer.eventAt 2 11 ∈ t.server.committed ∧
      t.delivered = [(1, OplogServer.eventAt 3 12)] :=
  ⟨_, _, steps_of_runActions rfl, rfl, rfl, by decide, rfl⟩

end TailSessions

end Chimera
