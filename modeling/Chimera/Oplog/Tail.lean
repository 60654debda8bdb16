import Chimera.Oplog.Event
import Chimera.Oplog.History

/-!
# Tailing cursors

Change streams and tailing finds on `local.oplog.rs` are cursors over the oplog that keep a
position.  A `getMore` samples the head, reads a page, and moves the position to the last row
of a full page, or past everything the page did not have to contain.

A tailing `find`, the opening of a change stream and a `getMore` read the oplog on the session of
the connection that sends them.  Between commands that session may hold a transaction which
`chimeraSql` has opened.  Its reads see the rows the transaction has itself appended, over the
committed rows or over the read view that its first read has fixed.  This module is the system of
the oplog server, the registry of tailing cursors and all connections, in which every statement is
a step of its own and any connection may read any cursor.
-/

namespace Chimera

open SequencedLog

/-- `TailState`: what a tailing cursor selects, and where it has read up to. -/
structure TailState where
  /-- The compiled filter, on the entries as the client sees them. -/
  filter : Json → Bool
  /-- The position. -/
  afterSeq : ℕ
  /-- An empty `getMore` waits for a write. -/
  awaitData : Bool
  /-- The cursor is a change stream, which selects by namespace. -/
  changeStream : Bool

/-- The rows a cursor on the namespace selects.  `read_changestream` asks for `ns = ?`, and the
column compares texts by its collation. -/
def TailState.selects (tail : TailState) (fold : Text → Text) (ns : Text) (r : OplogRow) : Bool :=
  if tail.changeStream then decide (fold r.ns = fold ns) else tail.filter (entryExpr r)

/-- The arguments of a find on `local.oplog.rs`. -/
structure FindRequest where
  /-- The namespace. -/
  ns : Text
  /-- The compiled filter. -/
  filter : Json → Bool
  /-- The sort `{$natural: -1}` was asked for. -/
  newestFirst : Bool
  /-- The field `limit`. -/
  limit : ℤ
  /-- The field `batchSize`. -/
  batchSize : ℤ
  /-- The field `tailable`. -/
  tailable : Bool
  /-- The field `awaitData`. -/
  awaitData : Bool

/-- How many entries the first batch takes. -/
def FindRequest.wanted (req : FindRequest) : ℕ :=
  if req.limit > 0 then req.limit.toNat else (max req.batchSize 1).toNat

/-- The rows a find selects. -/
def FindRequest.selects (req : FindRequest) (r : OplogRow) : Bool := req.filter (entryExpr r)

/-- `read_oplog` from the beginning, oldest or newest first. -/
def FindRequest.page (req : FindRequest) (rows : List OplogRow) : List OplogRow :=
  if req.newestFirst then
    pageAfter OplogRow.seq req.selects 0 req.wanted rows.reverse
  else pageAfter OplogRow.seq req.selects 0 req.wanted rows

/-- The position `find_oplog` opens its cursor at. -/
def FindRequest.afterSeq (req : FindRequest) (head : ℕ) (page : List OplogRow) : ℕ :=
  if !req.newestFirst && decide (page.length ≥ req.wanted) then lastSeq OplogRow.seq 0 page
  else head

/-- The position a `getMore` moves its cursor to. -/
def TailState.nextAfter (tail : TailState) (wanted head : ℕ) (page : List OplogRow) : ℕ :=
  if page.length ≥ wanted then lastSeq OplogRow.seq tail.afterSeq page
  else max head (lastSeq OplogRow.seq tail.afterSeq page)

/-- A tailing cursor, as the registry keeps it. -/
structure RegistryEntry where
  /-- The namespace. -/
  ns : Text
  /-- The state. -/
  tail : TailState

/-- The rows the cursor selects. -/
def RegistryEntry.selects (entry : RegistryEntry) (fold : Text → Text) : OplogRow → Bool :=
  entry.tail.selects fold entry.ns

/-- Where the tailing command of a connection stands: the statement it performs next, and what it
has read so far. -/
inductive TailCommand where
  /-- No such command is under way. -/
  | idle
  /-- A change stream is being opened: its start is resolved, its history not yet checked. -/
  | openingStream (ns : Text) (afterSeq : ℕ)
  /-- A find has sampled the head. -/
  | finding (req : FindRequest) (head : ℕ)
  /-- A find has read its first batch. -/
  | found (req : FindRequest) (head : ℕ) (page : List OplogRow)
  /-- A `getMore` samples the head. -/
  | sampling (id : ℕ) (entry : RegistryEntry) (wanted : ℕ)
  /-- It reads a page. -/
  | selecting (id : ℕ) (entry : RegistryEntry) (wanted head : ℕ)
  /-- It checks the retained history. -/
  | checking (id : ℕ) (entry : RegistryEntry) (wanted head : ℕ) (page : List OplogRow)
  /-- It advances the cursor, or waits and begins again. -/
  | selected (id : ℕ) (entry : RegistryEntry) (wanted head : ℕ) (page : List OplogRow)
  /-- It replies. -/
  | replying (id : ℕ) (page : List OplogRow)

/-- The server, the cursors and the connections.  The last three fields record what happened and
are not read. -/
structure TailSessions where
  /-- The server. -/
  server : OplogServer
  /-- The collation of the oplog's column `ns`: what it has of a text when it compares.  No action
  changes it. -/
  fold : Text → Text
  /-- The read view of a connection's transaction. -/
  views : ℕ → Option OplogServer
  /-- The tailing cursors. -/
  cursors : ℕ → Option RegistryEntry
  /-- The identifier of the next cursor. -/
  nextId : ℕ
  /-- The tailing command of each connection. -/
  commands : ℕ → TailCommand
  /-- The open of each cursor, as it stood when the cursor was registered. -/
  opened : ℕ → TailCommand
  /-- The rows delivered, each with its cursor. -/
  delivered : List (ℕ × OplogRow)
  /-- The rows of the transactions that were rolled back. -/
  rolledBack : List OplogRow

/-- What can happen. -/
inductive SessionAction where
  /-- A statement of a transaction, of the pruner, or the end of a transaction that wrote. -/
  | server (a : ServerAction)
  /-- A transaction of the connection fixes its read view. -/
  | openView (conn : ℕ)
  /-- A transaction that has written nothing ends. -/
  | closeView (conn : ℕ)
  /-- An open of a change stream resolves its start. -/
  | resolveStart (conn : ℕ) (ns : Text) (start : ChangeStreamStart)
  /-- The open checks the retained history, and registers the cursor. -/
  | checkStart (conn : ℕ)
  /-- A find samples the head. -/
  | findHead (conn : ℕ) (req : FindRequest)
  /-- The find reads its first batch. -/
  | findSelect (conn : ℕ)
  /-- The find registers its cursor and delivers the first batch. -/
  | findOpen (conn : ℕ)
  /-- A `getMore` takes a copy of its cursor. -/
  | getMore (conn id : ℕ) (ns : Text) (batchSize : ℤ)
  /-- It samples the head. -/
  | sampleHead (conn : ℕ)
  /-- It reads a page. -/
  | select (conn : ℕ)
  /-- It checks the retained history. -/
  | check (conn : ℕ)
  /-- It finds its page empty, waits, and begins again. -/
  | park (conn : ℕ)
  /-- It advances the cursor, if it is still there. -/
  | advance (conn : ℕ)
  /-- It delivers its page. -/
  | reply (conn : ℕ)
  /-- The command's next statement fails. -/
  | fail (conn : ℕ)
  /-- A cursor is killed or expires. -/
  | kill (id : ℕ)

namespace TailSessions

/-- The committed rows that the connection's statements see: those of its read view, if it has
one. -/
def base (s : TailSessions) (conn : ℕ) : OplogServer := (s.views conn).getD s.server

/-- The rows the connection's own transaction has appended. -/
def own (s : TailSessions) (conn : ℕ) : List OplogRow := s.server.lock.pendingOf conn

/-- The tables as a statement of the connection reads them. -/
def seen (s : TailSessions) (conn : ℕ) : OplogServer :=
  { s.base conn with
    rows := (s.base conn).rows ++ s.own conn
    clock := (s.server.lock.clockOf conn).getD (s.base conn).clock }

/-- The connection is in the middle of a tailing command. -/
def busy (s : TailSessions) (conn : ℕ) : Bool :=
  match s.commands conn with
  | .idle => false
  | _ => true

/-- Move the command of a connection on. -/
def setCommand (s : TailSessions) (conn : ℕ) (command : TailCommand) : TailSessions :=
  { s with commands := Function.update s.commands conn command }

/-- Register a cursor for an open that has come so far. -/
def register (s : TailSessions) (entry : RegistryEntry) (command : TailCommand) : TailSessions :=
  { s with
    cursors := Function.update s.cursors s.nextId (some entry), nextId := s.nextId + 1
    opened := Function.update s.opened s.nextId command }

/-- The read views after an action on the server: they end with their transactions. -/
def viewsAfter (s : TailSessions) : ServerAction → ℕ → Option OplogServer
  | .commit conn | .rollback conn => Function.update s.views conn none
  | _ => s.views

/-- The rows that an action on the server undoes. -/
def undone (s : TailSessions) : ServerAction → List OplogRow
  | .rollback conn => s.own conn
  | _ => []

/-- One action. -/
def step (s : TailSessions) : SessionAction → Option TailSessions
  | .server a =>
    if a.writer.any s.busy then none
    else (s.server.step a).map fun server =>
      { s with
        server := server, views := s.viewsAfter a, rolledBack := s.rolledBack ++ s.undone a }
  | .openView conn =>
    if s.views conn = none then
      some { s with views := Function.update s.views conn (some s.server) }
    else none
  | .closeView conn =>
    if s.busy conn = false ∧ s.own conn = [] then
      some { s with views := Function.update s.views conn none }
    else none
  | .resolveStart conn ns start =>
    match s.commands conn, resolveChangeStreamStart (s.seen conn) start with
    | .idle, .ok afterSeq => some (s.setCommand conn (.openingStream ns afterSeq))
    | .idle, .error _ => some s
    | _, _ => none
  | .checkStart conn =>
    match s.commands conn with
    | .openingStream ns afterSeq =>
      match requireChangeStreamHistory (s.seen conn) afterSeq with
      | .ok () =>
        some ((s.setCommand conn .idle).register ⟨ns, ⟨fun _ => true, afterSeq, true, true⟩⟩
          (.openingStream ns afterSeq))
      | .error _ => some (s.setCommand conn .idle)
    | _ => none
  | .findHead conn req =>
    match s.commands conn with
    | .idle => some (s.setCommand conn (.finding req (oplogHead (s.seen conn).rows)))
    | _ => none
  | .findSelect conn =>
    match s.commands conn with
    | .finding req head => some (s.setCommand conn (.found req head (req.page (s.seen conn).rows)))
    | _ => none
  | .findOpen conn =>
    match s.commands conn with
    | .found req head page =>
      if req.tailable then
        let entry : RegistryEntry :=
          ⟨req.ns, ⟨req.filter, req.afterSeq head page, req.awaitData, false⟩⟩
        some { (s.setCommand conn .idle).register entry (.found req head page) with
          delivered := s.delivered ++ page.map fun r => (s.nextId, r) }
      else some (s.setCommand conn .idle)
    | _ => none
  | .getMore conn id ns batchSize =>
    match s.commands conn, s.cursors id with
    | .idle, some entry =>
      if entry.ns = ns then some (s.setCommand conn (.sampling id entry (max batchSize 1).toNat))
      else none
    | _, _ => none
  | .sampleHead conn =>
    match s.commands conn with
    | .sampling id entry wanted =>
      some (s.setCommand conn (.selecting id entry wanted (oplogHead (s.seen conn).rows)))
    | _ => none
  | .select conn =>
    match s.commands conn with
    | .selecting id entry wanted head =>
      let page :=
        pageAfter OplogRow.seq (entry.selects s.fold) entry.tail.afterSeq wanted (s.seen conn).rows
      if entry.tail.changeStream then
        some (s.setCommand conn (.checking id entry wanted head page))
      else some (s.setCommand conn (.selected id entry wanted head page))
    | _ => none
  | .check conn =>
    match s.commands conn with
    | .checking id entry wanted head page =>
      match requireChangeStreamHistory (s.seen conn) entry.tail.afterSeq with
      | .ok () => some (s.setCommand conn (.selected id entry wanted head page))
      | .error _ => some (s.setCommand conn .idle)
    | _ => none
  | .park conn =>
    match s.commands conn with
    | .selected id entry wanted _ page =>
      if page = [] ∧ entry.tail.awaitData then some (s.setCommand conn (.sampling id entry wanted))
      else none
    | _ => none
  | .advance conn =>
    match s.commands conn with
    | .selected id entry wanted head page =>
      let afterSeq := entry.tail.nextAfter wanted head page
      some { s.setCommand conn (.replying id page) with
        cursors := Function.update s.cursors id ((s.cursors id).map fun entry =>
          { entry with tail := { entry.tail with afterSeq := afterSeq } }) }
    | _ => none
  | .reply conn =>
    match s.commands conn with
    | .replying id page =>
      some { s.setCommand conn .idle with
        delivered := s.delivered ++ page.map fun r => (id, r) }
    | _ => none
  | .fail conn => if s.busy conn then some (s.setCommand conn .idle) else none
  | .kill id => some { s with cursors := Function.update s.cursors id none }

end TailSessions

end Chimera
