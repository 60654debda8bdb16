import Chimera.Oplog.Reads

/-!
# What a step of the connections does

Everything that is proved about the connections and the cursors takes their steps apart in the same
way: an action moves on the server, a read view, the command of one connection or the registry
(`session_effect`).  While a command is under way, what its connection reads only becomes later
(`Backed.readable_later`), so that what it has read stays what it was.
-/

namespace Chimera

open SequencedLog

namespace OplogServer

variable {s s' t : OplogServer} {a : ServerAction} {conn : ℕ}

/-- A state is later than itself. -/
lemma Later.refl (s : OplogServer) : s.Later s :=
  ⟨⟨[], (List.append_nil _).symm, nofun⟩, fun _ h => h⟩

/-- A later state of a later state. -/
lemma Later.trans (h : s.Later s') (h' : s'.Later t) : s.Later t := by
  obtain ⟨new, hnew, hbeyond⟩ := h.committed
  obtain ⟨new', hnew', hbeyond'⟩ := h'.committed
  refine ⟨⟨new ++ new', by rw [hnew', hnew, List.append_assoc], fun r hr r' hr' => ?_⟩,
    fun r hr => h'.gone r (h.gone r hr)⟩
  rcases List.mem_append.1 hr' with hr' | hr'
  · exact hbeyond r hr r' hr'
  · refine hbeyond' r ?_ r' hr'
    rw [hnew]
    exact List.mem_append_left _ hr

/-- The pass changes the lock only between the pruner and nobody. -/
lemma Inv.pendingOf_pruneStatement {now : ℕ} (hI : s.Inv) (h : s.pruneStatement now = some s') :
    s'.lock.pendingOf conn = s.lock.pendingOf conn := by
  have hphase := hI.phase
  cases hp : s.pruning with
  | idle => simp [OplogServer.pruneStatement, hp] at h
  | lockClock plan =>
    simp only [OplogServer.pruneStatement, hp] at h
    split at h
    · next hfree =>
      cases h
      simp [ClockLock.pendingOf, hfree]
    · cases h
  | commit survivors removed history =>
    rw [hp] at hphase
    simp only [OplogServer.pruneStatement, hp] at h
    cases h
    simp [ClockLock.pendingOf, hphase.1]
  | rollback =>
    simp only [OplogServer.pruneStatement, hp] at h
    cases h
    by_cases hlock : s.lock = .pruner
    · simp [ClockLock.pendingOf, hlock]
    · simp only [hlock, if_false]
  | _ =>
    simp only [OplogServer.pruneStatement, hp] at h
    cases h
    rfl

/-- What another connection or the pruner does leaves the connection's pending rows alone; and while
it has such rows, nothing is committed. -/
lemma Inv.pendingOf_step (hI : s.Inv) (h : s.step a = some s') (hother : a.writer ≠ some conn) :
    s'.lock.pendingOf conn = s.lock.pendingOf conn ∧
      (s.lock.pendingOf conn = [] ∨ s'.committed = s.committed) := by
  cases a with
  | append writer call =>
    have hne : writer ≠ conn := fun heq => hother (congrArg some heq)
    simp only [OplogServer.step] at h
    split at h
    · next hlock =>
      obtain ⟨_, _, rfl⟩ := Option.map_eq_some_iff.1 h
      exact ⟨by simp [ClockLock.pendingOf, hlock, hne], .inr rfl⟩
    · next owner pending clock hlock =>
      split at h
      · next howner =>
        subst howner
        obtain ⟨_, _, rfl⟩ := Option.map_eq_some_iff.1 h
        exact ⟨by simp [ClockLock.pendingOf, hlock, hne], .inr rfl⟩
      · cases h
    · cases h
  | commit writer =>
    have hne : writer ≠ conn := fun heq => hother (congrArg some heq)
    obtain ⟨pending, clock, hlock, rfl⟩ := step_commit h
    have hnone : s.lock.pendingOf conn = [] := by simp [ClockLock.pendingOf, hlock, hne]
    exact ⟨by rw [hnone]; rfl, .inl hnone⟩
  | rollback writer =>
    have hne : writer ≠ conn := fun heq => hother (congrArg some heq)
    simp only [OplogServer.step] at h
    split at h
    · next owner pending clock hlock =>
      split at h
      · next howner =>
        subst howner
        cases h
        exact ⟨by simp [ClockLock.pendingOf, hlock, hne], .inr rfl⟩
      · cases h
    · cases h
  | pruneStart maxRows maxAge =>
    simp only [OplogServer.step] at h
    split at h <;> cases h
    exact ⟨rfl, .inr rfl⟩
  | pruneStep now =>
    obtain ⟨-, hcommitted, -⟩ := pruneStatement_frame h
    exact ⟨hI.pendingOf_pruneStatement h, .inr hcommitted⟩
  | pruneFail =>
    simp only [OplogServer.step] at h
    split at h <;> cases h
    exact ⟨rfl, .inr rfl⟩

/-- A connection that has pending rows is the only one that has. -/
lemma pendingOf_eq_pending {lock : ClockLock} (h : lock.pendingOf conn ≠ []) :
    lock.pendingOf conn = lock.pending := by
  cases lock with
  | writer owner pending clock =>
    simp only [ClockLock.pendingOf, ClockLock.pending] at h ⊢
    split at h
    · rw [if_pos ‹_›]
    · exact absurd rfl h
  | free | pruner => exact absurd rfl h

end OplogServer

/-- The cursor that an open registers, and the first batch that it delivers. -/
inductive TailCommand.Registers : TailCommand → RegistryEntry → List OplogRow → Prop
  /-- A change stream. -/
  | stream {ns : Text} {afterSeq : ℕ} :
      Registers (.openingStream ns afterSeq) ⟨ns, ⟨fun _ => true, afterSeq, true, true⟩⟩ []
  /-- A tailing find. -/
  | find {req : FindRequest} {head : ℕ} {page : List OplogRow} (htailable : req.tailable = true) :
      Registers (.found req head page)
        ⟨req.ns, ⟨req.filter, req.afterSeq head page, req.awaitData, false⟩⟩ page

/-- The cursor of a `getMore`. -/
def TailCommand.cursor : TailCommand → Option ℕ
  | .sampling id _ _ | .selecting id _ _ _ | .checking id _ _ _ _ | .selected id _ _ _ _
  | .replying id _ => some id
  | .idle | .openingStream _ _ | .finding _ _ | .found _ _ _ => none

/-- The cursor of a `getMore`, and the copy of it that was taken. -/
def TailCommand.copy : TailCommand → Option (ℕ × RegistryEntry)
  | .sampling id entry _ | .selecting id entry _ _ | .checking id entry _ _ _
  | .selected id entry _ _ _ => some (id, entry)
  | .idle | .openingStream _ _ | .finding _ _ | .found _ _ _ | .replying _ _ => none

/-- A `getMore` is on the cursor of which it has a copy. -/
lemma TailCommand.cursor_of_copy {command : TailCommand} {id : ℕ} {entry : RegistryEntry}
    (h : command.copy = some (id, entry)) : command.cursor = some id := by
  cases command with
  | sampling _ _ _ | selecting _ _ _ _ | checking _ _ _ _ _ | selected _ _ _ _ _ =>
    exact congrArg (Option.map Prod.fst) h
  | idle | openingStream _ _ | finding _ _ | found _ _ _ | replying _ _ => cases h

/-- What a command knows of the tables that it reads: a head that it has sampled was reached, a page
of a change stream whose history was checked is one of everything, and any other page is one of what
was stored. -/
def TailCommand.Informed (fold : Text → Text) (tables : OplogServer) : TailCommand → Prop
  | .finding _ head | .selecting _ _ _ head =>
    head = 0 ∨ OplogServer.Reached tables.committed head
  | .checking _ entry wanted head page =>
    ReadPage tables (entry.selects fold) entry.tail.afterSeq wanted head page
  | .selected _ entry wanted head page =>
    WholePage tables (entry.selects fold) entry.tail.afterSeq wanted head page ∨
      entry.tail.changeStream = false ∧
        ReadPage tables (entry.selects fold) entry.tail.afterSeq wanted head page
  | .idle | .openingStream _ _ | .found _ _ _ | .sampling _ _ _ | .replying _ _ => True

/-- What a command knows stays true. -/
lemma TailCommand.Informed.later {fold : Text → Text} {tables tables' : OplogServer}
    {command : TailCommand} (h : command.Informed fold tables) (hl : tables.Later tables') :
    command.Informed fold tables' := by
  cases command with
  | idle | openingStream _ _ | found _ _ _ | sampling _ _ _ | replying _ _ => trivial
  | finding req head | selecting id entry wanted head => exact Or.imp_right hl.reached h
  | checking id entry wanted head page => exact ReadPage.later h hl
  | selected id entry wanted head page =>
    exact h.imp (fun hwhole => hwhole.later hl) fun hread => ⟨hread.1, hread.2.later hl⟩

namespace TailSessions

/-! ## One action -/

/-- How an action moves the command of a connection on. -/
inductive CommandMove (s : TailSessions) (conn : ℕ) :
    SessionAction → TailCommand → TailCommand → Prop
  /-- The start of a change stream is resolved. -/
  | resolves {ns : Text} {start : ChangeStreamStart} {afterSeq : ℕ} :
      CommandMove s conn (.resolveStart conn ns start) .idle (.openingStream ns afterSeq)
  /-- The start is not in the retained history. -/
  | refuses {ns : Text} {afterSeq : ℕ} :
      CommandMove s conn (.checkStart conn) (.openingStream ns afterSeq) .idle
  /-- A find samples the head. -/
  | heads {req : FindRequest} :
      CommandMove s conn (.findHead conn req) .idle (.finding req (oplogHead (s.seen conn).rows))
  /-- It reads its first batch. -/
  | finds {req : FindRequest} {head : ℕ} : CommandMove s conn (.findSelect conn)
      (.finding req head) (.found req head (req.page (s.seen conn).rows))
  /-- It does not tail. -/
  | closes {req : FindRequest} {head : ℕ} {page : List OplogRow} :
      CommandMove s conn (.findOpen conn) (.found req head page) .idle
  /-- A `getMore` takes a copy of its cursor. -/
  | begins {id : ℕ} {ns : Text} {batchSize : ℤ} {entry : RegistryEntry}
      (hentry : s.cursors id = some entry) (hns : entry.ns = ns) :
      CommandMove s conn (.getMore conn id ns batchSize) .idle
        (.sampling id entry (max batchSize 1).toNat)
  /-- It samples the head. -/
  | samples {id wanted : ℕ} {entry : RegistryEntry} : CommandMove s conn (.sampleHead conn)
      (.sampling id entry wanted) (.selecting id entry wanted (oplogHead (s.seen conn).rows))
  /-- It reads a page, for a change stream. -/
  | selects {id wanted head : ℕ} {entry : RegistryEntry}
      (hstream : entry.tail.changeStream = true) :
      CommandMove s conn (.select conn) (.selecting id entry wanted head) (.checking id entry wanted
        head (pageAfter OplogRow.seq (entry.selects s.fold) entry.tail.afterSeq wanted
          (s.seen conn).rows))
  /-- It reads a page, for a tailing find. -/
  | selectsTail {id wanted head : ℕ} {entry : RegistryEntry}
      (hstream : entry.tail.changeStream = false) :
      CommandMove s conn (.select conn) (.selecting id entry wanted head) (.selected id entry wanted
        head (pageAfter OplogRow.seq (entry.selects s.fold) entry.tail.afterSeq wanted
          (s.seen conn).rows))
  /-- The retained history reaches back to the position. -/
  | checks {id wanted head : ℕ} {entry : RegistryEntry} {page : List OplogRow}
      (hok : requireChangeStreamHistory (s.seen conn) entry.tail.afterSeq = .ok ()) :
      CommandMove s conn (.check conn) (.checking id entry wanted head page)
        (.selected id entry wanted head page)
  /-- It does not. -/
  | loses {id wanted head : ℕ} {entry : RegistryEntry} {page : List OplogRow} :
      CommandMove s conn (.check conn) (.checking id entry wanted head page) .idle
  /-- The page is empty, and the `getMore` begins again. -/
  | parks {id wanted head : ℕ} {entry : RegistryEntry} {page : List OplogRow} :
      CommandMove s conn (.park conn) (.selected id entry wanted head page)
        (.sampling id entry wanted)
  /-- A statement fails. -/
  | fails {command : TailCommand} : CommandMove s conn (.fail conn) command .idle

/-- What an action may do. -/
inductive SessionEffect (s s' : TailSessions) : SessionAction → Prop
  /-- The server moves on. -/
  | server {a : ServerAction} {server : OplogServer} (hbusy : a.writer.any s.busy = false)
      (hstep : s.server.step a = some server)
      (h : s' = { s with
        server := server, views := s.viewsAfter a, rolledBack := s.rolledBack ++ s.undone a }) :
      SessionEffect s s' (.server a)
  /-- A read view is fixed. -/
  | opensView {conn : ℕ} (hview : s.views conn = none)
      (h : s' = { s with views := Function.update s.views conn (some s.server) }) :
      SessionEffect s s' (.openView conn)
  /-- A read view ends. -/
  | closesView {conn : ℕ} (hidle : s.busy conn = false)
      (h : s' = { s with views := Function.update s.views conn none }) :
      SessionEffect s s' (.closeView conn)
  /-- Nothing happens. -/
  | keeps {a : SessionAction} (h : s' = s) : SessionEffect s s' a
  /-- A command moves on. -/
  | moves {a : SessionAction} {conn : ℕ} {command : TailCommand}
      (hmove : CommandMove s conn a (s.commands conn) command)
      (h : s' = s.setCommand conn command) : SessionEffect s s' a
  /-- A cursor is registered. -/
  | registers {a : SessionAction} {conn : ℕ} {entry : RegistryEntry} {page : List OplogRow}
      (hregisters : (s.commands conn).Registers entry page)
      (h : s' = { (s.setCommand conn .idle).register entry (s.commands conn) with
        delivered := s.delivered ++ page.map fun r => (s.nextId, r) }) : SessionEffect s s' a
  /-- A position is stored. -/
  | advances {conn id wanted head : ℕ} {entry : RegistryEntry} {page : List OplogRow}
      (hcommand : s.commands conn = .selected id entry wanted head page)
      (h : s' = { s.setCommand conn (.replying id page) with
        cursors := Function.update s.cursors id ((s.cursors id).map fun now =>
          { now with tail :=
            { now.tail with afterSeq := entry.tail.nextAfter wanted head page } }) }) :
      SessionEffect s s' (.advance conn)
  /-- A page is delivered. -/
  | replies {conn id : ℕ} {page : List OplogRow} (hcommand : s.commands conn = .replying id page)
      (h : s' = { s.setCommand conn .idle with
        delivered := s.delivered ++ page.map fun r => (id, r) }) : SessionEffect s s' (.reply conn)
  /-- A cursor is removed. -/
  | kills {id : ℕ} (h : s' = { s with cursors := Function.update s.cursors id none }) :
      SessionEffect s s' (.kill id)

variable {s s' : TailSessions} {a : SessionAction}

/-- **What one action does.** -/
theorem session_effect (h : s.step a = some s') : SessionEffect s s' a := by
  cases a with
  | server a =>
    simp only [TailSessions.step] at h
    split at h
    · cases h
    · next hbusy =>
      obtain ⟨server, hstep, rfl⟩ := Option.map_eq_some_iff.1 h
      exact .server (Bool.not_eq_true _ ▸ hbusy) hstep rfl
  | openView conn =>
    simp only [TailSessions.step] at h
    split at h <;> cases h
    exact .opensView ‹_› rfl
  | closeView conn =>
    simp only [TailSessions.step] at h
    split at h
    · next hidle =>
      cases h
      exact .closesView hidle.1 rfl
    · cases h
  | resolveStart conn ns start =>
    simp only [TailSessions.step] at h
    split at h
    · next hcommand _ =>
      cases h
      exact .moves (hcommand ▸ .resolves) rfl
    · cases h
      exact .keeps rfl
    · cases h
  | checkStart conn =>
    simp only [TailSessions.step] at h
    split at h
    · next ns afterSeq hcommand =>
      split at h
      · cases h
        refine @SessionEffect.registers _ _ _ conn ⟨ns, ⟨fun _ => true, afterSeq, true, true⟩⟩ []
          (hcommand ▸ .stream) ?_
        rw [List.map_nil, List.append_nil, hcommand]
        rfl
      · cases h
        exact .moves (hcommand ▸ .refuses) rfl
    · cases h
  | findHead conn req =>
    simp only [TailSessions.step] at h
    split at h
    · next hcommand =>
      cases h
      exact .moves (hcommand ▸ .heads) rfl
    · cases h
  | findSelect conn =>
    simp only [TailSessions.step] at h
    split at h
    · next hcommand =>
      cases h
      exact .moves (hcommand ▸ .finds) rfl
    · cases h
  | findOpen conn =>
    simp only [TailSessions.step] at h
    split at h
    · next req head page hcommand =>
      split at h
      · next htailable =>
        cases h
        refine @SessionEffect.registers _ _ _ conn
          ⟨req.ns, ⟨req.filter, req.afterSeq head page, req.awaitData, false⟩⟩ page
          (hcommand ▸ .find htailable) ?_
        rw [hcommand]
      · cases h
        exact .moves (hcommand ▸ .closes) rfl
    · cases h
  | getMore conn id ns batchSize =>
    simp only [TailSessions.step] at h
    split at h
    · next hcommand hentry =>
      split at h
      · cases h
        exact .moves (hcommand ▸ .begins hentry ‹_›) rfl
      · cases h
    · cases h
  | sampleHead conn =>
    simp only [TailSessions.step] at h
    split at h
    · next hcommand =>
      cases h
      exact .moves (hcommand ▸ .samples) rfl
    · cases h
  | select conn =>
    simp only [TailSessions.step] at h
    split at h
    · next hcommand =>
      split at h
      · cases h
        exact .moves (hcommand ▸ .selects ‹_›) rfl
      · next hstream =>
        cases h
        exact .moves (hcommand ▸ .selectsTail (Bool.not_eq_true _ ▸ hstream)) rfl
    · cases h
  | check conn =>
    simp only [TailSessions.step] at h
    split at h
    · next hcommand =>
      split at h
      · next hok =>
        cases h
        exact .moves (hcommand ▸ .checks hok) rfl
      · cases h
        exact .moves (hcommand ▸ .loses) rfl
    · cases h
  | park conn =>
    simp only [TailSessions.step] at h
    split at h
    · next hcommand =>
      split at h
      · cases h
        exact .moves (hcommand ▸ .parks) rfl
      · cases h
    · cases h
  | advance conn =>
    simp only [TailSessions.step] at h
    split at h
    · next hcommand =>
      cases h
      exact .advances hcommand rfl
    · cases h
  | reply conn =>
    simp only [TailSessions.step] at h
    split at h
    · next hcommand =>
      cases h
      exact .replies hcommand rfl
    · cases h
  | fail conn =>
    simp only [TailSessions.step] at h
    split at h
    · cases h
      exact .moves .fails rfl
    · cases h
  | kill id =>
    cases h
    exact .kills rfl

/-- What an action may do to the registry. -/
inductive RegistryEffect (s s' : TailSessions) : SessionAction → Prop
  /-- It leaves the registry alone. -/
  | keeps {a : SessionAction} (hcursors : s'.cursors = s.cursors) (hnext : s'.nextId = s.nextId) :
      RegistryEffect s s' a
  /-- It registers a cursor. -/
  | registers {a : SessionAction} (entry : RegistryEntry)
      (hcursors : s'.cursors = Function.update s.cursors s.nextId (some entry))
      (hnext : s'.nextId = s.nextId + 1) : RegistryEffect s s' a
  /-- It stores a position. -/
  | advances {conn id wanted head : ℕ} {entry : RegistryEntry} {page : List OplogRow}
      (hcommand : s.commands conn = .selected id entry wanted head page)
      (hcursors : s'.cursors = Function.update s.cursors id ((s.cursors id).map fun now =>
        { now with tail := { now.tail with afterSeq := entry.tail.nextAfter wanted head page } }))
      (hnext : s'.nextId = s.nextId) : RegistryEffect s s' (.advance conn)
  /-- It removes a cursor. -/
  | kills {a : SessionAction} (id : ℕ) (hcursors : s'.cursors = Function.update s.cursors id none)
      (hnext : s'.nextId = s.nextId) : RegistryEffect s s' a

/-- What one action does to the registry. -/
lemma registryEffect (h : s.step a = some s') : RegistryEffect s s' a := by
  cases session_effect h with
  | server _ _ heq | opensView _ heq | closesView _ heq | keeps heq | moves _ heq
  | replies _ heq =>
    subst heq
    exact .keeps rfl rfl
  | registers _ heq =>
    subst heq
    exact .registers _ rfl rfl
  | advances hcommand heq =>
    subst heq
    exact .advances hcommand rfl rfl
  | kills heq =>
    subst heq
    exact .kills _ rfl rfl

/-- No action changes the collation. -/
lemma fold_step (h : s.step a = some s') : s'.fold = s.fold := by
  cases session_effect h with
  | server _ _ heq | opensView _ heq | closesView _ heq | keeps heq | moves _ heq
  | registers _ heq | advances _ heq | replies _ heq | kills heq =>
    subst heq
    rfl

/-- What an action may do to the command of a connection. -/
inductive CommandEffect (s : TailSessions) (conn : ℕ) (a : SessionAction) : TailCommand → Prop
  /-- It leaves the command alone. -/
  | keeps : CommandEffect s conn a (s.commands conn)
  /-- The command moves on. -/
  | moves {command : TailCommand} (hmove : CommandMove s conn a (s.commands conn) command) :
      CommandEffect s conn a command
  /-- An open ends with its cursor registered. -/
  | registers {entry : RegistryEntry} {page : List OplogRow}
      (hregisters : (s.commands conn).Registers entry page) : CommandEffect s conn a .idle
  /-- A `getMore` has stored a position. -/
  | advances {id wanted head : ℕ} {entry : RegistryEntry} {page : List OplogRow}
      (hcommand : s.commands conn = .selected id entry wanted head page) :
      CommandEffect s conn a (.replying id page)
  /-- It has replied. -/
  | replies {id : ℕ} {page : List OplogRow} (hcommand : s.commands conn = .replying id page) :
      CommandEffect s conn a .idle

variable {conn p : ℕ}

/-- What one action does to the command of a connection. -/
lemma commandEffect (conn : ℕ) (h : s.step a = some s') :
    CommandEffect s conn a (s'.commands conn) := by
  have hupdate {mover : ℕ} {command : TailCommand}
      (hself : conn = mover → CommandEffect s conn a command) :
      CommandEffect s conn a (Function.update s.commands mover command conn) := by
    by_cases hconn : conn = mover
    · rw [hconn, Function.update_self]
      exact hconn ▸ hself hconn
    · rw [Function.update_of_ne hconn]
      exact .keeps
  cases session_effect h with
  | server _ _ heq | opensView _ heq | closesView _ heq | keeps heq | kills heq =>
    subst heq
    exact .keeps
  | moves hmove heq =>
    subst heq
    refine hupdate fun hconn => ?_
    subst hconn
    exact .moves hmove
  | registers hregisters heq =>
    subst heq
    refine hupdate fun hconn => ?_
    subst hconn
    exact .registers hregisters
  | advances hcommand heq =>
    subst heq
    refine hupdate fun hconn => ?_
    subst hconn
    exact .advances hcommand
  | replies hcommand heq =>
    subst heq
    refine hupdate fun hconn => ?_
    subst hconn
    exact .replies hcommand

/-- A copy of a cursor is one that a `getMore` had, or one that it has just taken. -/
lemma copy_step {copy : ℕ × RegistryEntry} (h : s.step a = some s')
    (hcopy : (s'.commands conn).copy = some copy) :
    (s.commands conn).copy = some copy ∨ s.cursors copy.1 = some copy.2 := by
  have heffect := commandEffect conn h
  generalize s'.commands conn = after at heffect hcopy
  cases heffect with
  | keeps => exact .inl hcopy
  | moves hmove =>
    generalize s.commands conn = before at hmove
    cases hmove with
    | begins hentry hns =>
      obtain rfl := Option.some.inj hcopy
      exact .inr hentry
    | samples | selects | selectsTail | checks | parks => exact .inl hcopy
    | resolves | refuses | heads | finds | closes | loses | fails => cases hcopy
  | registers | advances | replies => cases hcopy

/-- The cursor of a `getMore` is one that it had, or one that is registered. -/
lemma cursor_step {id : ℕ} (h : s.step a = some s') (hid : (s'.commands conn).cursor = some id) :
    (s.commands conn).cursor = some id ∨
      (∃ ns batchSize, a = .getMore conn id ns batchSize) ∧ ∃ entry, s.cursors id = some entry := by
  have heffect := commandEffect conn h
  generalize s'.commands conn = after at heffect hid
  cases heffect with
  | keeps => exact .inl hid
  | moves hmove =>
    generalize s.commands conn = before at hmove
    cases hmove with
    | begins hentry hns =>
      obtain rfl := Option.some.inj hid
      exact .inr ⟨⟨_, _, rfl⟩, _, hentry⟩
    | samples | selects | selectsTail | checks | parks => exact .inl hid
    | resolves | refuses | heads | finds | closes | loses | fails => cases hid
  | advances hcommand =>
    rw [hcommand]
    exact .inl hid
  | registers | replies => cases hid

/-! ## Read views -/

/-- Closing a read view takes nothing in. -/
lemma eq_some_of_closed {views : ℕ → Option OplogServer} {other : ℕ} {view : OplogServer}
    (h : Function.update views conn none other = some view) : views other = some view := by
  by_cases hother : other = conn
  · subst hother
    simp at h
  · simpa [Function.update_of_ne hother] using h

/-- A read view that is there after an action on the server was there before. -/
lemma views_of_viewsAfter {a : ServerAction} {view : OplogServer}
    (h : s.viewsAfter a conn = some view) : s.views conn = some view := by
  cases a with
  | commit owner => exact eq_some_of_closed h
  | rollback owner => exact eq_some_of_closed h
  | append owner call => exact h
  | pruneStart maxRows maxAge => exact h
  | pruneStep now => exact h
  | pruneFail => exact h

/-- The rows that are committed or pending. -/
def allRows (s : TailSessions) : List OplogRow := s.server.committed ++ s.server.lock.pending

/-- The tables as a statement of the connection reads them, with the rows of its own transaction
among the committed ones. -/
def readable (s : TailSessions) (conn : ℕ) : OplogServer :=
  { s.seen conn with committed := (s.base conn).committed ++ s.own conn }

/-- The oplog is sound, and each read view shows it as it was. -/
structure Backed (s : TailSessions) : Prop where
  /-- The oplog is sound. -/
  server : s.server.Inv
  /-- Its rows are anchored. -/
  anchored : s.server.Anchored
  /-- A read view is an earlier state of the oplog. -/
  views : ∀ conn view, s.views conn = some view → view.Inv ∧ view.Anchored ∧ view.Later s.server

/-- What a connection reads of other transactions is an earlier state of the oplog. -/
lemma Backed.base (hB : s.Backed) (conn : ℕ) :
    (s.base conn).Inv ∧ (s.base conn).Anchored ∧ (s.base conn).Later s.server := by
  unfold TailSessions.base
  cases hview : s.views conn with
  | none => exact ⟨hB.server, hB.anchored, .refl _⟩
  | some view => exact hB.views conn view hview

/-- Read views stay earlier states. -/
lemma Backed.step (hB : s.Backed) (h : s.step a = some s') : s'.Backed := by
  cases session_effect h with
  | server hbusy hstep heq =>
    subst heq
    have hlater := hB.server.later hstep
    refine ⟨hB.server.step hstep, hB.anchored.step hB.server hstep, fun conn view hview => ?_⟩
    obtain ⟨hI, hA, hview⟩ := hB.views conn view (views_of_viewsAfter hview)
    exact ⟨hI, hA, hview.trans hlater⟩
  | @opensView conn hview heq =>
    subst heq
    refine ⟨hB.server, hB.anchored, fun other view hother => ?_⟩
    by_cases hconn : other = conn
    · rw [hconn] at hother
      obtain rfl : s.server = view := by simpa using hother
      exact ⟨hB.server, hB.anchored, .refl _⟩
    · simp only [Function.update_of_ne hconn] at hother
      exact hB.views other view hother
  | closesView _ heq =>
    subst heq
    exact ⟨hB.server, hB.anchored, fun other view hother =>
      hB.views other view (eq_some_of_closed hother)⟩
  | keeps heq | moves _ heq | registers _ heq | advances _ heq | replies _ heq | kills heq =>
    subst heq
    exact ⟨hB.server, hB.anchored, hB.views⟩

/-- While a connection is busy its pending rows stay what they are, and what it reads of other
transactions becomes later, but not while it has pending rows. -/
lemma Backed.base_step (hB : s.Backed) (h : s.step a = some s') (hbusy : s.busy conn = true) :
    s'.own conn = s.own conn ∧ (s.base conn).Later (s'.base conn) ∧
      (s.own conn = [] ∨ (s'.base conn).committed = (s.base conn).committed) := by
  cases session_effect h with
  | @server a server hidle hstep heq =>
    subst heq
    have hother : ∀ writer, a.writer = some writer → writer ≠ conn := by
      rintro writer hwriter rfl
      rw [hwriter] at hidle
      exact absurd (hidle.symm.trans hbusy) Bool.false_ne_true
    have hviews : s.viewsAfter a conn = s.views conn := by
      cases a with
      | commit writer | rollback writer => exact Function.update_of_ne (hother writer rfl).symm _ _
      | append writer call | pruneStart maxRows maxAge | pruneStep now | pruneFail => rfl
    obtain ⟨hpending, hcommitted⟩ :=
      hB.server.pendingOf_step hstep fun hwriter => hother conn hwriter rfl
    refine ⟨hpending, ?_⟩
    change ((s.views conn).getD s.server).Later ((s.viewsAfter a conn).getD server) ∧
      (s.own conn = [] ∨ ((s.viewsAfter a conn).getD server).committed =
        ((s.views conn).getD s.server).committed)
    rw [hviews]
    cases s.views conn with
    | none => exact ⟨hB.server.later hstep, hcommitted⟩
    | some view => exact ⟨.refl _, .inr rfl⟩
  | @opensView conn' hview heq =>
    subst heq
    have hbase : ((Function.update s.views conn' (some s.server) conn).getD s.server) =
        (s.views conn).getD s.server := by
      by_cases hconn : conn = conn'
      · rw [hconn, Function.update_self, hview, Option.getD_some, Option.getD_none]
      · rw [Function.update_of_ne hconn]
    refine ⟨rfl, ?_⟩
    unfold TailSessions.base
    rw [hbase]
    exact ⟨.refl _, .inr rfl⟩
  | @closesView conn' hidle heq =>
    subst heq
    have hconn : conn ≠ conn' := by
      rintro rfl
      exact absurd (hidle.symm.trans hbusy) Bool.false_ne_true
    have hbase : (Function.update s.views conn' none conn).getD s.server =
        (s.views conn).getD s.server := by
      rw [Function.update_of_ne hconn]
    refine ⟨rfl, ?_⟩
    unfold TailSessions.base
    rw [hbase]
    exact ⟨.refl _, .inr rfl⟩
  | keeps heq | moves _ heq | registers _ heq | advances _ heq | replies _ heq | kills heq =>
    subst heq
    exact ⟨rfl, .refl _, .inr rfl⟩

/-- What a busy connection reads only becomes later. -/
lemma Backed.readable_later (hB : s.Backed) (h : s.step a = some s') (hbusy : s.busy conn = true) :
    (s.readable conn).Later (s'.readable conn) := by
  obtain ⟨hown, hlater, hcommitted⟩ := hB.base_step h hbusy
  refine ⟨?_, hlater.gone⟩
  change ∃ new, (s'.base conn).committed ++ s'.own conn =
      (s.base conn).committed ++ s.own conn ++ new ∧
    ∀ r ∈ (s.base conn).committed ++ s.own conn, ∀ r' ∈ new, r.seq < r'.seq
  rw [hown]
  rcases hcommitted with hnone | hsame
  · rw [hnone, List.append_nil, List.append_nil]
    exact hlater.committed
  · rw [hsame]
    exact ⟨[], (List.append_nil _).symm, nofun⟩

/-- The rows of a connection's own transaction are pending. -/
lemma own_sublist (s : TailSessions) (conn : ℕ) : (s.own conn).Sublist s.server.lock.pending := by
  by_cases hown : s.own conn = []
  · rw [hown]
    exact List.nil_sublist _
  · exact (OplogServer.pendingOf_eq_pending hown) ▸ List.Sublist.refl (s.own conn)

/-- What a connection can read is committed or pending. -/
lemma Backed.readable_sublist (hB : s.Backed) (conn : ℕ) :
    (s.readable conn).committed.Sublist s.allRows := by
  obtain ⟨-, -, hlater⟩ := hB.base conn
  obtain ⟨new, hnew, -⟩ := hlater.committed
  refine List.Sublist.append ?_ (s.own_sublist conn)
  rw [hnew]
  exact List.sublist_append_left _ _

/-- What a connection can read is in sequence order. -/
lemma Backed.readable_sequenced (hB : s.Backed) (conn : ℕ) :
    Sequenced OplogRow.seq (s.readable conn).committed :=
  hB.server.sequenced.sublist (hB.readable_sublist conn)

/-- The rows that a connection reads are what it can read, up to what is gone. -/
lemma Backed.readable_rows (hB : s.Backed) (conn : ℕ) :
    (s.readable conn).rows.Sublist (s.readable conn).committed ∧
      ∀ r ∈ (s.readable conn).committed, r ∈ (s.readable conn).rows ∨
        r ∈ (s.readable conn).deleted ∨ r ∈ (s.readable conn).lost := by
  obtain ⟨hI, -, -⟩ := hB.base conn
  refine ⟨hI.rows_sublist.append (List.Sublist.refl _), fun r hr => ?_⟩
  rcases List.mem_append.1 hr with hr | hr
  · exact (hI.accounted r hr).imp_left (List.mem_append_left _)
  · exact .inl (List.mem_append_right _ hr)

/-- The head that a connection samples is not beyond what it can read. -/
lemma Backed.readable_head (hB : s.Backed) (conn : ℕ) : oplogHead (s.seen conn).rows = 0 ∨
    OplogServer.Reached (s.readable conn).committed (oplogHead (s.seen conn).rows) := by
  by_cases hzero : oplogHead (s.seen conn).rows = 0
  · exact .inl hzero
  · obtain ⟨r, hr, hseq⟩ := exists_seq_eq_oplogHead hzero
    exact .inr ⟨r, (hB.readable_rows conn).1.subset hr, hseq.ge⟩

/-- What is gone lies at or before a position whose history is there. -/
lemma Backed.readable_gone (hB : s.Backed) (conn : ℕ)
    (hok : requireChangeStreamHistory (s.seen conn) p = .ok ()) {r : OplogRow}
    (hr : r ∈ (s.readable conn).deleted ∨ r ∈ (s.readable conn).lost) : r.seq ≤ p := by
  obtain ⟨hI, hA, -⟩ := hB.base conn
  obtain ⟨hpruned, hbase⟩ := requireChangeStreamHistory_ok hok
  exact (hA.gone_le hI hr).trans (max_le hpruned hbase)

/-- A row up to something that a connection can read is something that it can read itself, if the
connection has nothing pending or sees what is committed. -/
lemma Backed.readable_of_le (hB : s.Backed) {q : OplogRow → Prop} {conn : ℕ} {r r' : OplogRow}
    (hsees : s.own conn = [] ∨ ∀ r ∈ s.server.committed, q r → r ∈ (s.base conn).committed)
    (hr : r ∈ s.allRows) (hq : q r) (hr' : r' ∈ (s.readable conn).committed)
    (hle : r.seq ≤ r'.seq) : r ∈ (s.readable conn).committed := by
  by_cases hown : s.own conn = []
  · obtain ⟨-, -, hlater⟩ := hB.base conn
    obtain ⟨new, hnew, hbeyond⟩ := hlater.committed
    obtain ⟨-, -, hpending⟩ := Sequenced.append_iff.1 hB.server.sequenced
    have hcommitted : (s.readable conn).committed = (s.base conn).committed := by
      change (s.base conn).committed ++ s.own conn = _
      rw [hown, List.append_nil]
    rw [hcommitted] at hr' ⊢
    have hmem' : r' ∈ s.server.committed := by
      rw [hnew]
      exact List.mem_append_left _ hr'
    rcases List.mem_append.1 hr with hr | hr
    · rw [hnew] at hr
      rcases List.mem_append.1 hr with hr | hr
      · exact hr
      · exact absurd hle (hbeyond r' hr' r hr).not_ge
    · exact absurd hle (hpending r' hmem' r hr).not_ge
  · rcases List.mem_append.1 hr with hr | hr
    · exact List.mem_append_left _ (hsees.resolve_left hown r hr hq)
    · refine List.mem_append_right _ ?_
      change r ∈ s.server.lock.pendingOf conn
      rwa [OplogServer.pendingOf_eq_pending hown]

/-! ## What commands know -/

/-- Read views are earlier states of a sound oplog, and every command knows what it has read. -/
structure Sound (s : TailSessions) : Prop where
  /-- Read views are earlier states of a sound oplog. -/
  backed : s.Backed
  /-- Every command knows what it has read. -/
  informed : ∀ conn, (s.commands conn).Informed s.fold (s.readable conn)

/-- A command that moves on knows what it has read. -/
lemma Sound.informed_move (hS : s.Sound) {command : TailCommand}
    (hmove : CommandMove s conn a (s.commands conn) command) :
    command.Informed s.fold (s.readable conn) := by
  have hknown := hS.informed conn
  generalize s.commands conn = before at hmove hknown
  cases hmove with
  | resolves | refuses | finds | closes | begins | loses | parks | fails => trivial
  | heads | samples => exact hS.backed.readable_head conn
  | selects hstream =>
    obtain ⟨hsub, hacc⟩ := hS.backed.readable_rows conn
    exact ⟨_, _, ⟨List.prefix_refl _, hknown⟩, hsub, hacc, rfl⟩
  | selectsTail hstream =>
    obtain ⟨hsub, hacc⟩ := hS.backed.readable_rows conn
    exact .inr ⟨hstream, _, _, ⟨List.prefix_refl _, hknown⟩, hsub, hacc, rfl⟩
  | checks hok =>
    refine .inl (ReadPage.whole (hS.backed.readable_sequenced conn) hknown fun r hr => ?_)
    exact hS.backed.readable_gone conn hok hr

/-- A command that is left alone goes on knowing what it has read. -/
lemma Sound.informed_same (hS : s.Sound) (conn : ℕ) (h : s.step a = some s')
    (hsame : s'.commands conn = s.commands conn) :
    (s'.commands conn).Informed s'.fold (s'.readable conn) := by
  rw [hsame, fold_step h]
  cases hbusy : s.busy conn with
  | true => exact (hS.informed conn).later (hS.backed.readable_later h hbusy)
  | false =>
    have hidle : s.commands conn = .idle := by
      unfold TailSessions.busy at hbusy
      split at hbusy
      · assumption
      · cases hbusy
    rw [hidle]
    trivial

/-- Every action leaves every command knowing what it has read. -/
lemma Sound.step (hS : s.Sound) (h : s.step a = some s') : s'.Sound := by
  refine ⟨hS.backed.step h, fun conn => ?_⟩
  have hsame := hS.informed_same conn h
  have hupdate {mover : ℕ} {command : TailCommand}
      (hcommands : s'.commands = Function.update s.commands mover command)
      (hself : conn = mover → command.Informed s'.fold (s'.readable conn)) :
      (s'.commands conn).Informed s'.fold (s'.readable conn) := by
    by_cases hconn : conn = mover
    · have hcommand : s'.commands conn = command := by
        rw [hcommands, hconn, Function.update_self]
      rw [hcommand]
      exact hself hconn
    · exact hsame (by rw [hcommands, Function.update_of_ne hconn])
  cases session_effect h with
  | server _ _ heq | opensView _ heq | closesView _ heq | keeps heq | kills heq =>
    subst heq
    exact hsame rfl
  | moves hmove heq =>
    subst heq
    refine hupdate rfl fun hconn => ?_
    subst hconn
    exact hS.informed_move hmove
  | registers _ heq | replies _ heq | advances _ heq =>
    subst heq
    exact hupdate rfl fun _ => trivial

end TailSessions

end Chimera
