import Chimera.Plugin.CursorRuns
import Mathlib.Algebra.Order.BigOperators.Group.Finset
import Mathlib.Data.Finset.Insert

/-!
# The threads of the listener

The listener runs a thread that accepts connections, and one thread for each connection.  It keeps
the descriptors of the connections in a set, so that a shutdown can unblock the threads that wait
for their peers.  The descriptors belong to the whole process, which uses a number again as soon as
it is closed.

The threads and the rest of the process interleave here, at every call that the operating system or
another thread can see.
-/

namespace Chimera

open StepSystem

/-! ## The state -/

/-- Who has opened a descriptor. -/
inductive FdOwner where
  /-- The listener, to accept connections. -/
  | listener
  /-- The listener, for a connection. -/
  | connection (id : ℕ)
  /-- The rest of the process. -/
  | other
deriving DecidableEq

/-- An open descriptor. -/
structure Descriptor where
  /-- Who has opened it. -/
  owner : FdOwner
  /-- It was shut down: reading and writing do not wait any more. -/
  isShutDown : Bool
deriving DecidableEq

/-- Where the thread of a connection stands. -/
inductive ServePhase where
  /-- At the head of its loop. -/
  | looping
  /-- In `read_message`. -/
  | reading
  /-- Carrying out a command. -/
  | dispatching
  /-- In `write_all`. -/
  | writing
  /-- Behind its loop, before `forget`. -/
  | leaving
  /-- Before `close`. -/
  | closing
  /-- The thread has ended. -/
  | ended
deriving DecidableEq

/-- The thread of a connection. -/
structure ConnectionThread where
  /-- Its descriptor. -/
  fd : ℕ
  /-- Where it stands. -/
  phase : ServePhase

/-- Where the thread that accepts stands. -/
inductive AcceptPhase where
  /-- It was not started. -/
  | notStarted
  /-- At the head of its loop. -/
  | looping
  /-- In `poll` or `accept`. -/
  | polling
  /-- It has a connection, and not yet the mutex. -/
  | accepted (fd id : ℕ)
  /-- The thread has ended. -/
  | ended
deriving DecidableEq

/-- Where the call of `stop` stands. -/
inductive StopPhase where
  /-- There was none. -/
  | running
  /-- It waits for the thread that accepts. -/
  | joinAccept
  /-- It closes the descriptor that listens. -/
  | closeListener
  /-- It shuts the connections down. -/
  | shutDown
  /-- It waits for their threads. -/
  | joinConnections
  /-- It kills the cursors. -/
  | killCursors
  /-- It has returned. -/
  | stopped
deriving DecidableEq

/-- How far a call of `stop` has come. -/
def StopPhase.rank : StopPhase → ℕ
  | .running => 0
  | .joinAccept => 1
  | .closeListener => 2
  | .shutDown => 3
  | .joinConnections => 4
  | .killCursors => 5
  | .stopped => 6

/-- `Listener`, with the descriptors of the process and the cursor registry. -/
structure ListenerSystem where
  /-- `stopping_`. -/
  stopping : Bool
  /-- `listen_fd_`, where it is not negative. -/
  listenFd : Option ℕ
  /-- `next_connection_id_`. -/
  nextConnectionId : ℕ
  /-- `live_fds_`. -/
  liveFds : Finset ℕ
  /-- `accept_thread_`. -/
  acceptThread : AcceptPhase
  /-- `connection_threads_`, each under the number of its connection. -/
  connectionThreads : ℕ → Option ConnectionThread
  /-- The call of `stop`. -/
  stopCall : StopPhase
  /-- The open descriptors of the process. -/
  fds : ℕ → Option Descriptor
  /-- `CursorRegistry::instance()`. -/
  cursors : CursorTable

/-! ## The steps -/

/-- What can happen. -/
inductive ListenerAction where
  /-- `start`, which gets this descriptor for its socket, and goes through or fails. -/
  | start (fd : ℕ) (ok : Bool)
  /-- The head of the accepting loop. -/
  | acceptLoop
  /-- `poll` comes back with nothing, or one of its calls has to be repeated. -/
  | pollAgain
  /-- `poll` or `accept` fails. -/
  | acceptFails
  /-- `accept` returns this descriptor. -/
  | accept (fd : ℕ)
  /-- The accepting thread gets the mutex. -/
  | register
  /-- The head of the loop of a connection. -/
  | serveLoop (id : ℕ)
  /-- `read_message` returns a message. -/
  | message (id : ℕ)
  /-- The peer closes, or what it sent is no message. -/
  | readFails (id : ℕ)
  /-- `recv` finds its descriptor shut down. -/
  | readEnds (id : ℕ)
  /-- A command makes these calls of the registry, at these times, and returns its reply. -/
  | dispatch (id : ℕ) (calls : List (ℤ × RegistryCall))
  /-- Something else than a `TranslatorError` is thrown before there is a reply. -/
  | abandon (id : ℕ)
  /-- `write_all` has sent the reply. -/
  | written (id : ℕ)
  /-- The peer does not take the reply. -/
  | writeFails (id : ℕ)
  /-- `send` finds its descriptor shut down. -/
  | writeEnds (id : ℕ)
  /-- `forget` gets the mutex. -/
  | forget (id : ℕ)
  /-- The thread of a connection closes its descriptor and ends. -/
  | close (id : ℕ)
  /-- `stop` is called for the first time; later calls return at once. -/
  | stop
  /-- The call of `stop` takes its next step. -/
  | stopStep
  /-- The rest of the process opens a descriptor. -/
  | otherOpens (fd : ℕ)
  /-- The rest of the process closes one of its own. -/
  | otherCloses (fd : ℕ)

/-- The connection whose thread acts. -/
def ListenerAction.thread : ListenerAction → Option ℕ
  | .serveLoop id | .message id | .readFails id | .readEnds id | .dispatch id _ | .abandon id
  | .written id | .writeFails id | .writeEnds id | .forget id | .close id => some id
  | _ => none

namespace ListenerSystem

/-- Set an entry of the table of descriptors. -/
def setFd (s : ListenerSystem) (fd : ℕ) (d : Option Descriptor) : ListenerSystem :=
  { s with fds := Function.update s.fds fd d }

/-- Move the thread of a connection from one phase to another. -/
def moveThread (s : ListenerSystem) (id : ℕ) (old new : ServePhase) : Option ListenerSystem :=
  match s.connectionThreads id with
  | none => none
  | some t =>
    if t.phase = old then
      some { s with
        connectionThreads := Function.update s.connectionThreads id (some { t with phase := new }) }
    else none

/-- The descriptor of a connection was shut down. -/
def isShutDown (s : ListenerSystem) (id : ℕ) : Bool :=
  ((s.connectionThreads id).bind fun t => s.fds t.fd).any Descriptor.isShutDown

/-- `shutdown` of every descriptor in the set. -/
def shutDownLive (s : ListenerSystem) : ListenerSystem :=
  { s with fds := fun fd =>
      if fd ∈ s.liveFds then (s.fds fd).map fun d => { d with isShutDown := true } else s.fds fd }

/-- The next step of `stop`. -/
def stopStep (s : ListenerSystem) : Option ListenerSystem :=
  match s.stopCall with
  | .joinAccept =>
    if s.acceptThread = .notStarted ∨ s.acceptThread = .ended then
      some { s with stopCall := .closeListener }
    else none
  | .closeListener =>
    match s.listenFd with
    | none => some { s with stopCall := .shutDown }
    | some fd => some { s.setFd fd none with listenFd := none, stopCall := .shutDown }
  | .shutDown => some { s.shutDownLive with stopCall := .joinConnections }
  | .joinConnections =>
    if ∀ id < s.nextConnectionId, (s.connectionThreads id).all fun t => decide (t.phase = .ended)
    then some { s with connectionThreads := fun _ => none, stopCall := .killCursors }
    else none
  | .killCursors => some { s with cursors := s.cursors.killAll, stopCall := .stopped }
  | .running | .stopped => none

/-- One action. -/
def step (s : ListenerSystem) : ListenerAction → Option ListenerSystem
  | .start fd ok =>
    if s.acceptThread = .notStarted ∧ s.stopCall = .running ∧ s.fds fd = none then
      -- what a start that fails has opened, it has closed again
      some (if ok then
        { s.setFd fd (some ⟨.listener, false⟩) with listenFd := some fd, acceptThread := .looping }
      else s)
    else none
  | .acceptLoop =>
    if s.acceptThread = .looping then
      some { s with acceptThread := if s.stopping then .ended else .polling }
    else none
  | .pollAgain =>
    if s.acceptThread = .polling then some { s with acceptThread := .looping } else none
  | .acceptFails =>
    if s.acceptThread = .polling then some { s with acceptThread := .ended } else none
  | .accept fd =>
    if s.acceptThread = .polling ∧ s.fds fd = none then
      let id := s.nextConnectionId
      some { s.setFd fd (some ⟨.connection id, false⟩) with
        nextConnectionId := id + 1, acceptThread := .accepted fd id }
    else none
  | .register =>
    match s.acceptThread with
    | .accepted fd id =>
      if s.stopping then some { s.setFd fd none with acceptThread := .ended }
      else
        some { s with
          liveFds := insert fd s.liveFds, acceptThread := .looping
          connectionThreads := Function.update s.connectionThreads id (some ⟨fd, .looping⟩) }
    | _ => none
  | .serveLoop id => s.moveThread id .looping (if s.stopping then .leaving else .reading)
  | .message id => s.moveThread id .reading .dispatching
  | .readFails id => s.moveThread id .reading .leaving
  | .readEnds id => if s.isShutDown id then s.moveThread id .reading .leaving else none
  | .dispatch id calls =>
    (s.moveThread id .dispatching .writing).map fun s =>
      { s with cursors := calls.foldl (fun T call => (T.answer call.1 call.2).2) s.cursors }
  | .abandon id => s.moveThread id .dispatching .leaving
  | .written id => s.moveThread id .writing .looping
  | .writeFails id => s.moveThread id .writing .leaving
  | .writeEnds id => if s.isShutDown id then s.moveThread id .writing .leaving else none
  | .forget id =>
    match s.connectionThreads id with
    | none => none
    | some t => (s.moveThread id .leaving .closing).map fun s =>
        { s with liveFds := s.liveFds.erase t.fd }
  | .close id =>
    match s.connectionThreads id with
    | none => none
    | some t => (s.moveThread id .closing .ended).map fun s => s.setFd t.fd none
  | .stop =>
    if s.stopCall = .running then some { s with stopping := true, stopCall := .joinAccept }
    else none
  | .stopStep => s.stopStep
  | .otherOpens fd => if s.fds fd = none then some (s.setFd fd (some ⟨.other, false⟩)) else none
  | .otherCloses fd =>
    if (s.fds fd).any fun d => decide (d.owner = .other) then some (s.setFd fd none) else none

/-- A listener that was just made. -/
structure Initial (s : ListenerSystem) : Prop where
  /-- Nobody has called `stop`. -/
  running : s.stopping = false ∧ s.stopCall = .running
  /-- Nor `start`. -/
  notStarted : s.acceptThread = .notStarted ∧ s.listenFd = none
  /-- There was no connection. -/
  connections : s.liveFds = ∅ ∧ ∀ id, s.connectionThreads id = none
  /-- What is open, others have opened. -/
  others : ∀ fd d, s.fds fd = some d → d.owner = .other

/-! ## The invariant -/

end ListenerSystem

/-- The descriptor of the thread is in the set. -/
def ServePhase.isLive : ServePhase → Bool
  | .closing | .ended => false
  | _ => true

/-- How many steps a thread has to its end, at most, once the listener stops. -/
def ServePhase.weight : ServePhase → ℕ
  | .reading => 6
  | .dispatching => 5
  | .writing => 4
  | .looping => 3
  | .leaving => 2
  | .closing => 1
  | .ended => 0

/-- The same for the thread that accepts. -/
def AcceptPhase.weight : AcceptPhase → ℕ
  | .polling => 2
  | .looping | .accepted _ _ => 1
  | .notStarted | .ended => 0

/-- The action is one of the listener's own. -/
def ListenerAction.isOwn : ListenerAction → Bool
  | .otherOpens _ | .otherCloses _ => false
  | _ => true

/-- The action is one of the listener's own, and waits for no peer and no caller. -/
def ListenerAction.isAlone : ListenerAction → Bool
  | .acceptLoop | .pollAgain | .register | .serveLoop _ | .readEnds _ | .dispatch _ _
  | .writeEnds _ | .forget _ | .close _ | .stopStep => true
  | _ => false

/-- No cursor is open. -/
def CursorTable.IsEmpty (T : CursorTable) : Prop :=
  ∀ id, T.buffered.cursors id = none ∧ T.tailing id = none

namespace ListenerSystem

/-- The thread of a connection has moved on: behind its loop its descriptor is not in the set, and
at its end it is closed. -/
def advance (s : ListenerSystem) (id : ℕ) (t : ConnectionThread) (new : ServePhase)
    (cursors : CursorTable) : ListenerSystem :=
  { s with
    connectionThreads := Function.update s.connectionThreads id (some { t with phase := new })
    liveFds := if new.isLive = true then s.liveFds else s.liveFds.erase t.fd
    fds := if new = .ended then Function.update s.fds t.fd none else s.fds
    cursors := cursors }

/-- The descriptor is open, and its owner has opened it. -/
def Owns (s : ListenerSystem) (owner : FdOwner) (fd : ℕ) : Prop :=
  ∃ d, s.fds fd = some d ∧ d.owner = owner

/-- What holds in every state. -/
structure Inv (s : ListenerSystem) : Prop where
  /-- The flag is set by the call of `stop`. -/
  stopping_iff : s.stopping = true ↔ s.stopCall ≠ .running
  /-- Connections are numbered in order. -/
  fresh : ∀ id, s.nextConnectionId ≤ id → s.connectionThreads id = none
  /-- The thread of a connection has its descriptor until it ends. -/
  owned : ∀ id t, s.connectionThreads id = some t → t.phase ≠ .ended → s.Owns (.connection id) t.fd
  /-- The set holds the descriptors of the threads that have not come to `forget`. -/
  live : ∀ fd, fd ∈ s.liveFds ↔
    ∃ id t, s.connectionThreads id = some t ∧ t.fd = fd ∧ t.phase.isLive = true
  /-- The descriptor of a connection has a thread, or is about to have one. -/
  threaded : ∀ id fd, s.Owns (.connection id) fd → s.acceptThread = .accepted fd id ∨
    ∃ t, s.connectionThreads id = some t ∧ t.fd = fd ∧ t.phase ≠ .ended
  /-- A connection that was accepted has its descriptor, and no thread. -/
  accepted : ∀ fd id, s.acceptThread = .accepted fd id →
    s.Owns (.connection id) fd ∧ s.connectionThreads id = none ∧ id < s.nextConnectionId
  /-- The descriptor that listens is open. -/
  listening : ∀ fd, s.listenFd = some fd ↔ s.Owns .listener fd
  /-- Before `start` nothing listens. -/
  notStarted : s.acceptThread = .notStarted → s.listenFd = none
  /-- Once it is joined, the thread that accepts does nothing more. -/
  joined : 2 ≤ s.stopCall.rank → s.acceptThread = .notStarted ∨ s.acceptThread = .ended
  /-- Once its descriptor is closed, nothing listens. -/
  deaf : 3 ≤ s.stopCall.rank → s.listenFd = none
  /-- Once the connections are shut down, no thread waits for its peer. -/
  unblocked : 4 ≤ s.stopCall.rank → ∀ id t, s.connectionThreads id = some t →
    t.phase.isLive = true → ∃ d, s.fds t.fd = some d ∧ d.isShutDown = true
  /-- Once they are joined, there are no threads. -/
  quiet : 5 ≤ s.stopCall.rank → ∀ id, s.connectionThreads id = none
  /-- In the end there are no cursors. -/
  emptied : 6 ≤ s.stopCall.rank → s.cursors.IsEmpty

variable {s s' : ListenerSystem} {id fd : ℕ} {t : ConnectionThread} {old new : ServePhase}
  {owner : FdOwner} {a : ListenerAction}

/-- A descriptor has one owner. -/
lemma Owns.unique {owner' : FdOwner} (h : s.Owns owner fd) (h' : s.Owns owner' fd) :
    owner = owner' := by
  obtain ⟨d, hd, rfl⟩ := h
  obtain ⟨d', hd', rfl⟩ := h'
  rw [Option.some.inj (hd.symm.trans hd')]

/-- Where an entry of the table was set. -/
lemma setFd_self {d : Option Descriptor} : (s.setFd fd d).fds fd = d := Function.update_self _ _ _

/-- The other entries are as they were. -/
lemma setFd_of_ne {d : Option Descriptor} {fd' : ℕ} (h : fd' ≠ fd) :
    (s.setFd fd d).fds fd' = s.fds fd' :=
  Function.update_of_ne h _ _

/-- A descriptor that nobody has opened has no owner. -/
lemma not_owns_of_none (h : s.fds fd = none) : ¬ s.Owns owner fd := by
  rintro ⟨d, hd, -⟩
  rw [h] at hd
  cases hd

/-- Setting an entry of the table leaves an owner what it has, where neither the old entry nor the
new one is its own. -/
lemma owns_setFd {d : Option Descriptor} {fd' : ℕ} (hold : ¬ s.Owns owner fd)
    (hnew : ∀ x, d = some x → x.owner ≠ owner) :
    (s.setFd fd d).Owns owner fd' ↔ s.Owns owner fd' := by
  by_cases hsame : fd' = fd
  · subst hsame
    refine iff_of_false ?_ hold
    rintro ⟨x, hx, hown⟩
    exact hnew x (setFd_self.symm.trans hx) hown
  · rw [Owns, setFd_of_ne hsame, Owns]

/-- A descriptor that was just opened has its owner. -/
lemma owns_setFd_self : (s.setFd fd (some ⟨owner, false⟩)).Owns owner fd :=
  ⟨_, setFd_self, rfl⟩

/-- What moving a thread does. -/
lemma moveThread_eq_some (h : s.moveThread id old new = some s') :
    ∃ t, s.connectionThreads id = some t ∧ t.phase = old ∧
      s' = { s with
        connectionThreads :=
          Function.update s.connectionThreads id (some { t with phase := new }) } := by
  unfold moveThread at h
  split at h
  · cases h
  · rename_i t ht
    split at h
    · rename_i hphase
      exact ⟨t, ht, hphase, (Option.some.inj h).symm⟩
    · cases h

/-- A listener that was just made meets the invariant. -/
lemma Initial.inv (h : s.Initial) : s.Inv := by
  have hnone := h.connections.2
  have hnoOwner {owner : FdOwner} {fd : ℕ} (hown : s.Owns owner fd) : owner = .other := by
    obtain ⟨d, hd, rfl⟩ := hown
    exact h.others fd d hd
  have hrank : s.stopCall.rank = 0 := by rw [h.running.2]; rfl
  refine ⟨by simp [h.running.1, h.running.2], fun id _ => hnone id, ?_, fun fd => ?_, ?_, ?_,
    fun fd => ?_, fun _ => h.notStarted.2, ?_, ?_, ?_, ?_, ?_⟩
  · intro id t ht
    rw [hnone] at ht
    cases ht
  · rw [h.connections.1]
    simp [hnone]
  · intro id fd hown
    cases hnoOwner hown
  · intro fd id hacc
    rw [h.notStarted.1] at hacc
    cases hacc
  · rw [h.notStarted.2]
    exact iff_of_false nofun fun hown => by cases hnoOwner hown
  all_goals
    intro hle
    omega

/-- What setting a thread makes of the threads. -/
lemma update_eq_some_iff {f : ℕ → Option ConnectionThread} {x y : ConnectionThread} {id' : ℕ} :
    Function.update f id (some x) id' = some y ↔
      id' = id ∧ x = y ∨ id' ≠ id ∧ f id' = some y := by
  by_cases h : id' = id
  · subst h
    simp
  · simp [h]

/-- A thread is only there before the connections are joined. -/
lemma Inv.rank_lt (h : s.Inv) (ht : s.connectionThreads id = some t) : s.stopCall.rank < 5 := by
  by_contra hle
  have hnone := h.quiet (not_lt.1 hle) id
  rw [ht] at hnone
  cases hnone

/-- A thread that is there does not have the number of a connection that was just accepted. -/
lemma Inv.not_accepted (h : s.Inv) (ht : s.connectionThreads id = some t) :
    s.acceptThread ≠ .accepted fd id := by
  intro hacc
  have hnone := (h.accepted fd id hacc).2.1
  rw [ht] at hnone
  cases hnone

/-- Only closed descriptors lose their owner. -/
lemma owns_close {p : Prop} [Decidable p] {fd' : ℕ} :
    (∃ d, (if p then Function.update s.fds fd none else s.fds) fd' = some d ∧ d.owner = owner) ↔
      s.Owns owner fd' ∧ (p → fd' ≠ fd) := by
  by_cases hp : p
  · rw [if_pos hp]
    by_cases hfd : fd' = fd
    · subst hfd
      simp [hp]
    · rw [Function.update_of_ne hfd]
      exact (and_iff_left fun _ => hfd).symm
  · rw [if_neg hp]
    exact (and_iff_left fun h => absurd h hp).symm

/-- Moving the thread of a connection on keeps the invariant, when its descriptor leaves the set no
later than the thread its loop, and is closed with its end. -/
lemma Inv.setPhase (h : s.Inv) (ht : s.connectionThreads id = some t) (hold : t.phase ≠ .ended)
    (hnew : new.isLive = true → t.phase.isLive = true) (cursors : CursorTable) :
    (s.advance id t new cursors).Inv := by
  have hrank := h.rank_lt ht
  have hown : s.Owns (.connection id) t.fd := h.owned id t ht hold
  have hlives {phase : ServePhase} (hphase : phase.isLive = true) : phase ≠ .ended := by
    rintro rfl
    cases hphase
  -- nobody else has the descriptor
  have hother {owner : FdOwner} {fd : ℕ} (hown' : s.Owns owner fd)
      (hne : owner ≠ .connection id) : fd ≠ t.fd := by
    rintro rfl
    exact hne (hown'.unique hown)
  refine ⟨h.stopping_iff, fun id' hle => ?_, fun id' t' ht' hphase => ?_, fun fd => ?_,
    fun id' fd hown' => ?_, fun fd id' hacc => ?_, fun fd => ?_, h.notStarted, h.joined, h.deaf,
    fun hle id' t' ht' hlive => ?_, fun hle => ?_, fun hle => ?_⟩
  · have hne : id' ≠ id := by
      rintro rfl
      rw [h.fresh id' hle] at ht
      cases ht
    exact (Function.update_of_ne hne _ _).trans (h.fresh id' hle)
  · obtain ⟨rfl, rfl⟩ | ⟨hne, ht'⟩ := update_eq_some_iff.1 ht'
    · exact owns_close.2 ⟨hown, fun heq => absurd heq hphase⟩
    · have hown' := h.owned id' t' ht' hphase
      exact owns_close.2 ⟨hown', fun _ => hother hown' fun heq => hne (FdOwner.connection.inj heq)⟩
  · have hmem : fd ∈ (s.advance id t new cursors).liveFds ↔
        fd ∈ s.liveFds ∧ (fd = t.fd → new.isLive = true) := by
      rw [advance]
      split
      · rename_i hlive
        simp [hlive]
      · rename_i hlive
        rw [Finset.mem_erase, and_comm]
        exact and_congr_right' ⟨fun hne heq => absurd heq hne, fun himp heq => hlive (himp heq)⟩
    rw [hmem, h.live fd]
    constructor
    · rintro ⟨⟨id', t', ht', rfl, hlive⟩, hkept⟩
      by_cases hid : id' = id
      · subst hid
        obtain rfl := Option.some.inj (ht.symm.trans ht')
        exact ⟨id', _, update_eq_some_iff.2 (.inl ⟨rfl, rfl⟩), rfl, hkept rfl⟩
      · exact ⟨id', t', update_eq_some_iff.2 (.inr ⟨hid, ht'⟩), rfl, hlive⟩
    · rintro ⟨id', t', ht', rfl, hlive⟩
      obtain ⟨rfl, rfl⟩ | ⟨hne, ht'⟩ := update_eq_some_iff.1 ht'
      · exact ⟨⟨id', t, ht, rfl, hnew hlive⟩, fun _ => hlive⟩
      · have hfd := hother (h.owned id' t' ht' (hlives hlive)) fun heq =>
          hne (FdOwner.connection.inj heq)
        exact ⟨⟨id', t', ht', rfl, hlive⟩, fun heq => absurd heq hfd⟩
  · obtain ⟨hown', hopen⟩ := owns_close.1 hown'
    refine (h.threaded id' fd hown').imp_right fun hthread => ?_
    obtain ⟨t', ht', hfd, hphase⟩ := hthread
    by_cases hid : id' = id
    · subst hid
      obtain rfl := Option.some.inj (ht.symm.trans ht')
      exact ⟨_, update_eq_some_iff.2 (.inl ⟨rfl, rfl⟩), hfd, fun heq => hopen heq hfd.symm⟩
    · exact ⟨t', update_eq_some_iff.2 (.inr ⟨hid, ht'⟩), hfd, hphase⟩
  · obtain ⟨hown', hnone, hlt⟩ := h.accepted fd id' hacc
    have hne : id' ≠ id := by
      rintro rfl
      exact h.not_accepted ht hacc
    exact ⟨owns_close.2 ⟨hown', fun _ => hother hown' fun heq => hne (FdOwner.connection.inj heq)⟩,
      (Function.update_of_ne hne _ _).trans hnone, hlt⟩
  · refine (h.listening fd).trans (Iff.symm (owns_close.trans (and_iff_left_of_imp ?_)))
    exact fun hown' _ => hother hown' nofun
  · obtain ⟨rfl, rfl⟩ | ⟨hne, ht'⟩ := update_eq_some_iff.1 ht'
    · have hopen : new ≠ .ended := hlives hlive
      obtain ⟨d, hd, hshut⟩ := h.unblocked hle id' t ht (hnew hlive)
      exact ⟨d, (congrFun (if_neg hopen) t.fd).trans hd, hshut⟩
    · obtain ⟨d, hd, hshut⟩ := h.unblocked hle id' t' ht' hlive
      have hfd := hother (h.owned id' t' ht' (hlives hlive)) fun heq =>
        hne (FdOwner.connection.inj heq)
      refine ⟨d, Eq.trans ?_ hd, hshut⟩
      show (if new = .ended then Function.update s.fds t.fd none else s.fds) t'.fd = s.fds t'.fd
      split
      · exact Function.update_of_ne hfd _ _
      · rfl
  · exact absurd hle hrank.not_ge
  · exact absurd hle ((Nat.lt_succ_of_lt hrank).not_ge)

/-- A closed descriptor is not in the set. -/
lemma Inv.not_mem_of_not_live (h : s.Inv) (ht : s.connectionThreads id = some t)
    (hold : t.phase ≠ .ended) (hdead : t.phase.isLive = false) : t.fd ∉ s.liveFds := by
  rw [h.live]
  rintro ⟨id', t', ht', hfd, hlive⟩
  have hown' : s.Owns (.connection id') t'.fd := h.owned id' t' ht' fun hended => by
    rw [hended] at hlive
    cases hlive
  obtain rfl := FdOwner.connection.inj ((hfd ▸ hown').unique (h.owned id t ht hold))
  obtain rfl := Option.some.inj (ht.symm.trans ht')
  rw [hdead] at hlive
  cases hlive

/-- What an action of a connection's thread does: the thread moves on, by which its descriptor may
leave the set or be closed, and while the listener stops it never goes back. -/
lemma Inv.thread_step (h : s.Inv) (ha : a.thread = some id) (hs : s.step a = some s') :
    ∃ t new cursors, s.connectionThreads id = some t ∧ t.phase ≠ .ended ∧
      (new.isLive = true → t.phase.isLive = true) ∧
      (s.stopping = true → new.weight < t.phase.weight) ∧
      s' = s.advance id t new cursors := by
  have hmove {old new : ServePhase} {s₁ : ListenerSystem} (hold : old.isLive = true)
      (hnew : new.isLive = true) (hweight : s.stopping = true → new.weight < old.weight)
      (hs : s.moveThread id old new = some s₁) (cursors : CursorTable) :
      ∃ t new cursors', s.connectionThreads id = some t ∧ t.phase ≠ .ended ∧
        (new.isLive = true → t.phase.isLive = true) ∧
        (s.stopping = true → new.weight < t.phase.weight) ∧
        { s₁ with cursors := cursors } = s.advance id t new cursors' := by
    obtain ⟨t, ht, rfl, rfl⟩ := moveThread_eq_some hs
    refine ⟨t, new, cursors, ht, fun heq => ?_, fun _ => hold, hweight, ?_⟩
    · rw [heq] at hold
      cases hold
    · have hopen : new ≠ .ended := by
        rintro rfl
        cases hnew
      rw [advance, if_pos hnew, if_neg hopen]
  cases a with
  | serveLoop id' =>
    obtain rfl := Option.some.inj ha
    refine hmove rfl ?_ ?_ hs s'.cursors
    · split <;> rfl
    · intro hstop
      rw [if_pos hstop]
      decide
  | message id' | readFails id' | abandon id' | written id' | writeFails id' =>
    obtain rfl := Option.some.inj ha
    exact hmove rfl rfl (fun _ => by decide) hs s'.cursors
  | readEnds id' | writeEnds id' =>
    obtain rfl := Option.some.inj ha
    simp only [step] at hs
    split at hs
    · exact hmove rfl rfl (fun _ => by decide) hs s'.cursors
    · cases hs
  | dispatch id' calls =>
    obtain rfl := Option.some.inj ha
    obtain ⟨s₁, hs₁, rfl⟩ := Option.map_eq_some_iff.1 hs
    exact hmove rfl rfl (fun _ => by decide) hs₁ _
  | forget id' =>
    obtain rfl := Option.some.inj ha
    simp only [step] at hs
    split at hs
    · cases hs
    · rename_i t ht
      obtain ⟨s₁, hs₁, rfl⟩ := Option.map_eq_some_iff.1 hs
      obtain ⟨t', ht', hphase, rfl⟩ := moveThread_eq_some hs₁
      obtain rfl := Option.some.inj (ht.symm.trans ht')
      exact ⟨t, .closing, s.cursors, ht, by rw [hphase]; nofun, nofun,
        fun _ => by rw [hphase]; decide, rfl⟩
  | close id' =>
    obtain rfl := Option.some.inj ha
    simp only [step] at hs
    split at hs
    · cases hs
    · rename_i t ht
      obtain ⟨s₁, hs₁, rfl⟩ := Option.map_eq_some_iff.1 hs
      obtain ⟨t', ht', hphase, rfl⟩ := moveThread_eq_some hs₁
      obtain rfl := Option.some.inj (ht.symm.trans ht')
      have hold : t.phase ≠ .ended := by rw [hphase]; nofun
      have hgone : s.liveFds.erase t.fd = s.liveFds :=
        Finset.erase_eq_of_notMem (h.not_mem_of_not_live ht hold (by rw [hphase]; rfl))
      refine ⟨t, .ended, s.cursors, ht, hold, nofun, fun _ => by rw [hphase]; decide, ?_⟩
      rw [advance, if_neg nofun, if_pos rfl, hgone]
      rfl
  | _ => cases ha

/-- The accepting thread moves on, without a connection, before it is joined. -/
lemma Inv.setAccept (h : s.Inv) {phase : AcceptPhase} (hold : s.acceptThread ≠ .notStarted)
    (hold' : s.acceptThread ≠ .ended) (hnone : ∀ fd id, s.acceptThread ≠ .accepted fd id)
    (hnew : phase ≠ .notStarted) (hnew' : ∀ fd id, phase ≠ .accepted fd id) :
    ({ s with acceptThread := phase } : ListenerSystem).Inv := by
  refine ⟨h.stopping_iff, h.fresh, h.owned, h.live, fun id fd hown => ?_, fun fd id hacc => ?_,
    h.listening, fun hphase => absurd hphase hnew, fun hle => ?_, h.deaf, h.unblocked, h.quiet,
    h.emptied⟩
  · exact .inr ((h.threaded id fd hown).resolve_left (hnone fd id))
  · exact absurd hacc (hnew' fd id)
  · exact absurd (h.joined hle) (by simp [hold, hold'])

/-- Opening a descriptor, and closing one that is not the listener's, leaves what the listener
owns. -/
lemma Inv.setOther (h : s.Inv) (hfd : ∀ owner, s.Owns owner fd → owner = .other)
    {d : Option Descriptor} (hd : ∀ x, d = some x → x.owner = .other) : (s.setFd fd d).Inv := by
  have howns (owner : FdOwner) (hne : owner ≠ .other) (fd' : ℕ) :
      (s.setFd fd d).Owns owner fd' ↔ s.Owns owner fd' :=
    owns_setFd (fun hown => hne (hfd _ hown)) fun x hx hown => hne (hown.symm.trans (hd x hx))
  have hconnection (id fd' : ℕ) := howns (.connection id) (by simp) fd'
  refine ⟨h.stopping_iff, h.fresh, fun id t ht hphase => ?_, h.live, fun id fd' hown => ?_,
    fun fd' id hacc => ?_, fun fd' => ?_, h.notStarted, h.joined, h.deaf,
    fun hle id t ht hlive => ?_, h.quiet, h.emptied⟩
  · exact (hconnection id t.fd).2 (h.owned id t ht hphase)
  · exact h.threaded id fd' ((hconnection id fd').1 hown)
  · obtain ⟨hown, hrest⟩ := h.accepted fd' id hacc
    exact ⟨(hconnection id fd').2 hown, hrest⟩
  · exact (h.listening fd').trans (howns _ (by simp) fd').symm
  · obtain ⟨x, hx, hshut⟩ := h.unblocked hle id t ht hlive
    have hne : t.fd ≠ fd := by
      rintro rfl
      have hown := h.owned id t ht fun hended => by
        rw [hended] at hlive
        cases hlive
      cases hfd _ hown
    exact ⟨x, (Function.update_of_ne hne _ _).trans hx, hshut⟩

/-- A start keeps the invariant. -/
lemma Inv.start (h : s.Inv) (haccept : s.acceptThread = .notStarted)
    (hstop : s.stopCall = .running) (hfree : s.fds fd = none) :
    ({ s.setFd fd (some ⟨.listener, false⟩) with
      listenFd := some fd, acceptThread := .looping } : ListenerSystem).Inv := by
  have hrank : s.stopCall.rank = 0 := by rw [hstop]; rfl
  have hconnection (id fd' : ℕ) : (s.setFd fd (some ⟨.listener, false⟩)).Owns (.connection id) fd' ↔
      s.Owns (.connection id) fd' :=
    owns_setFd (not_owns_of_none hfree) fun x hx => by
      obtain rfl := Option.some.inj hx
      nofun
  refine ⟨h.stopping_iff, h.fresh, fun id t ht hphase => ?_, h.live, fun id fd' hown => ?_,
    nofun, fun fd' => ?_, nofun, ?_, ?_, ?_, ?_, ?_⟩
  · exact (hconnection id t.fd).2 (h.owned id t ht hphase)
  · refine .inr ((h.threaded id fd' ((hconnection id fd').1 hown)).resolve_left fun hacc => ?_)
    rw [haccept] at hacc
    cases hacc
  · constructor
    · intro hsame
      obtain rfl := Option.some.inj hsame
      exact owns_setFd_self
    · rintro ⟨x, hx, hown⟩
      by_contra hne
      have hsame : fd' ≠ fd := fun heq => hne (congrArg some heq.symm)
      have hold : s.Owns .listener fd' := ⟨x, (setFd_of_ne hsame).symm.trans hx, hown⟩
      rw [← h.listening, h.notStarted haccept] at hold
      cases hold
  all_goals
    intro hle
    exact absurd hle (by show ¬ _ ≤ s.stopCall.rank; omega)

/-- An accepted connection keeps the invariant. -/
lemma Inv.acceptFd (h : s.Inv) (haccept : s.acceptThread = .polling) (hfree : s.fds fd = none) :
    ({ s.setFd fd (some ⟨.connection s.nextConnectionId, false⟩) with
      nextConnectionId := s.nextConnectionId + 1
      acceptThread := .accepted fd s.nextConnectionId } : ListenerSystem).Inv := by
  have hrank : ¬ 2 ≤ s.stopCall.rank := by
    intro hle
    have hjoined := h.joined hle
    simp [haccept] at hjoined
  have hnothing (id fd : ℕ) : s.acceptThread ≠ .accepted fd id := by rw [haccept]; nofun
  have howns (owner : FdOwner) (hne : owner ≠ .connection s.nextConnectionId) (fd' : ℕ) :
      (s.setFd fd (some ⟨.connection s.nextConnectionId, false⟩)).Owns owner fd' ↔
        s.Owns owner fd' :=
    owns_setFd (not_owns_of_none hfree) fun x hx hown => by
      obtain rfl := Option.some.inj hx
      exact hne hown.symm
  have hnew : s.connectionThreads s.nextConnectionId = none := h.fresh _ le_rfl
  refine ⟨h.stopping_iff, fun id hle => h.fresh id ((Nat.le_succ _).trans hle),
    fun id t ht hphase => ?_, h.live, fun id fd' hown => ?_, ?_, fun fd' => ?_, nofun, ?_, ?_, ?_,
    ?_, ?_⟩
  · have hne : id ≠ s.nextConnectionId := by
      rintro rfl
      cases hnew.symm.trans ht
    exact (howns _ (by simpa using hne) t.fd).2 (h.owned id t ht hphase)
  · by_cases hid : id = s.nextConnectionId
    · subst hid
      obtain ⟨x, hx, hown⟩ := hown
      left
      by_cases hsame : fd' = fd
      · rw [hsame]
      · have hold : s.Owns (.connection s.nextConnectionId) fd' :=
          ⟨x, (setFd_of_ne hsame).symm.trans hx, hown⟩
        obtain ⟨t, ht, -⟩ := (h.threaded _ fd' hold).resolve_left (hnothing _ _)
        rw [hnew] at ht
        cases ht
    · have hold := (howns _ (by simpa using hid) fd').1 hown
      exact .inr ((h.threaded id fd' hold).resolve_left (hnothing _ _))
  · intro fd' id hacc
    obtain ⟨rfl, rfl⟩ := AcceptPhase.accepted.inj hacc
    exact ⟨owns_setFd_self, hnew, Nat.lt_succ_self _⟩
  · exact (h.listening fd').trans (howns _ (by simp) fd').symm
  all_goals
    intro hle
    exact absurd hle (by show ¬ _ ≤ s.stopCall.rank; omega)

/-- A connection that gets its thread keeps the invariant. -/
lemma Inv.register (h : s.Inv) (haccept : s.acceptThread = .accepted fd id) :
    ({ s with
      liveFds := insert fd s.liveFds, acceptThread := .looping
      connectionThreads := Function.update s.connectionThreads id (some ⟨fd, .looping⟩) } :
        ListenerSystem).Inv := by
  have hrank : ¬ 2 ≤ s.stopCall.rank := by
    intro hle
    have hjoined := h.joined hle
    simp [haccept] at hjoined
  obtain ⟨hown, hnone, hlt⟩ := h.accepted fd id haccept
  have hne {id' : ℕ} {t' : ConnectionThread} (ht' : s.connectionThreads id' = some t') :
      id' ≠ id := by
    rintro rfl
    cases hnone.symm.trans ht'
  refine ⟨h.stopping_iff, fun id' hle => ?_, fun id' t' ht' hphase => ?_, fun fd' => ?_,
    fun id' fd' hown' => ?_, nofun, h.listening, nofun, ?_, ?_, ?_, ?_, ?_⟩
  · have hne : id' ≠ id := fun heq => absurd hlt (heq ▸ hle).not_gt
    exact (Function.update_of_ne hne _ _).trans (h.fresh id' hle)
  · obtain ⟨rfl, rfl⟩ | ⟨-, ht'⟩ := update_eq_some_iff.1 ht'
    · exact hown
    · exact h.owned id' t' ht' hphase
  · rw [Finset.mem_insert, h.live fd']
    constructor
    · rintro (rfl | ⟨id', t', ht', rfl, hlive⟩)
      · exact ⟨id, _, update_eq_some_iff.2 (.inl ⟨rfl, rfl⟩), rfl, rfl⟩
      · exact ⟨id', t', update_eq_some_iff.2 (.inr ⟨hne ht', ht'⟩), rfl, hlive⟩
    · rintro ⟨id', t', ht', rfl, hlive⟩
      obtain ⟨rfl, rfl⟩ | ⟨-, ht'⟩ := update_eq_some_iff.1 ht'
      · exact .inl rfl
      · exact .inr ⟨id', t', ht', rfl, hlive⟩
  · obtain hacc | ⟨t', ht', hfd, hphase⟩ := h.threaded id' fd' hown'
    · obtain ⟨rfl, rfl⟩ := AcceptPhase.accepted.inj (haccept.symm.trans hacc)
      exact .inr ⟨_, update_eq_some_iff.2 (.inl ⟨rfl, rfl⟩), rfl, nofun⟩
    · exact .inr ⟨t', update_eq_some_iff.2 (.inr ⟨hne ht', ht'⟩), hfd, hphase⟩
  all_goals
    intro hle
    exact absurd hle (by show ¬ _ ≤ s.stopCall.rank; omega)

/-- A connection that is closed because the listener stops keeps the invariant. -/
lemma Inv.refuse (h : s.Inv) (haccept : s.acceptThread = .accepted fd id) :
    ({ s.setFd fd none with acceptThread := .ended } : ListenerSystem).Inv := by
  have hrank : ¬ 2 ≤ s.stopCall.rank := by
    intro hle
    have hjoined := h.joined hle
    simp [haccept] at hjoined
  obtain ⟨hown, hnone, hlt⟩ := h.accepted fd id haccept
  have howns (owner : FdOwner) (hne : owner ≠ .connection id) (fd' : ℕ) :
      (s.setFd fd none).Owns owner fd' ↔ s.Owns owner fd' :=
    owns_setFd (fun hown' => hne (hown'.unique hown)) nofun
  refine ⟨h.stopping_iff, h.fresh, fun id' t' ht' hphase => ?_, h.live, fun id' fd' hown' => ?_,
    nofun, fun fd' => ?_, nofun, ?_, ?_, ?_, ?_, ?_⟩
  · have hne : id' ≠ id := by
      rintro rfl
      cases hnone.symm.trans ht'
    exact (howns _ (by simpa using hne) _).2 (h.owned id' t' ht' hphase)
  · by_cases hid : id' = id
    · subst hid
      obtain ⟨x, hx, hown'⟩ := hown'
      have hfd : fd' ≠ fd := by
        rintro rfl
        cases setFd_self.symm.trans hx
      have hold : s.Owns (.connection id') fd' := ⟨x, (setFd_of_ne hfd).symm.trans hx, hown'⟩
      obtain hacc | ⟨t', ht', -⟩ := h.threaded id' fd' hold
      · exact absurd (AcceptPhase.accepted.inj (haccept.symm.trans hacc)).1.symm hfd
      · cases hnone.symm.trans ht'
    · have hold := (howns _ (by simpa using hid) fd').1 hown'
      obtain hacc | hthread := h.threaded id' fd' hold
      · exact absurd (AcceptPhase.accepted.inj (haccept.symm.trans hacc)).2.symm hid
      · exact .inr hthread
  · exact (h.listening fd').trans (howns _ (by simp) fd').symm
  all_goals
    intro hle
    exact absurd hle (by show ¬ _ ≤ s.stopCall.rank; omega)

/-- The call of `stop` keeps the invariant. -/
lemma Inv.stop (h : s.Inv) :
    ({ s with stopping := true, stopCall := .joinAccept } : ListenerSystem).Inv := by
  refine ⟨iff_of_true rfl nofun, h.fresh, h.owned, h.live, h.threaded, h.accepted, h.listening,
    h.notStarted, ?_, ?_, ?_, ?_, ?_⟩
  all_goals
    intro hle
    exact absurd hle (by show ¬ _ ≤ 1; omega)

/-- A shutdown leaves the owners of all descriptors. -/
lemma owns_shutDownLive : s.shutDownLive.Owns owner fd ↔ s.Owns owner fd := by
  simp only [Owns, shutDownLive]
  split
  · cases s.fds fd <;> simp
  · rfl

/-- The flag stays set while `stop` goes on. -/
lemma Inv.stopping (h : s.Inv) {phase : StopPhase} (hold : s.stopCall ≠ .running)
    (hnew : phase ≠ .running) : s.stopping = true ↔ phase ≠ .running :=
  iff_of_true (h.stopping_iff.2 hold) hnew

/-- The descriptor that listens is closed. -/
lemma Inv.closeListener (h : s.Inv) (hstop : s.stopCall = .closeListener)
    (hlisten : s.listenFd = some fd) :
    ({ s.setFd fd none with listenFd := none, stopCall := .shutDown } : ListenerSystem).Inv := by
  have hrank : s.stopCall.rank = 2 := by rw [hstop]; rfl
  have hown := (h.listening fd).1 hlisten
  have hconnection (id fd' : ℕ) : (s.setFd fd none).Owns (.connection id) fd' ↔
      s.Owns (.connection id) fd' :=
    owns_setFd (fun hown' => by cases hown'.unique hown) nofun
  refine ⟨h.stopping (by rw [hstop]; nofun) nofun, h.fresh, fun id t ht hphase => ?_, h.live,
    fun id fd' hown' => h.threaded id fd' ((hconnection id fd').1 hown'), fun fd' id hacc => ?_,
    fun fd' => iff_of_false nofun ?_, fun _ => rfl, fun _ => h.joined hrank.ge, fun _ => rfl, ?_,
    ?_, ?_⟩
  · exact (hconnection id t.fd).2 (h.owned id t ht hphase)
  · obtain ⟨hown', hrest⟩ := h.accepted fd' id hacc
    exact ⟨(hconnection id fd').2 hown', hrest⟩
  · rintro ⟨x, hx, hown'⟩
    have hfd : fd' ≠ fd := by
      rintro rfl
      cases setFd_self.symm.trans hx
    have hold : s.Owns .listener fd' := ⟨x, (setFd_of_ne hfd).symm.trans hx, hown'⟩
    rw [← h.listening, hlisten] at hold
    exact hfd (Option.some.inj hold).symm
  all_goals
    intro hle
    exact absurd hle (by show ¬ _ ≤ 3; omega)

/-- Every connection is shut down. -/
lemma Inv.shutDown (h : s.Inv) (hstop : s.stopCall = .shutDown) :
    ({ s.shutDownLive with stopCall := .joinConnections } : ListenerSystem).Inv := by
  have hrank : s.stopCall.rank = 3 := by rw [hstop]; rfl
  refine ⟨h.stopping (by rw [hstop]; nofun) nofun, h.fresh, fun id t ht hphase => ?_, h.live,
    fun id fd hown => h.threaded id fd (owns_shutDownLive.1 hown), fun fd id hacc => ?_,
    fun fd => (h.listening fd).trans owns_shutDownLive.symm, h.notStarted,
    fun _ => h.joined (by omega), fun _ => h.deaf hrank.ge, fun _ id t ht hlive => ?_, ?_, ?_⟩
  · exact owns_shutDownLive.2 (h.owned id t ht hphase)
  · obtain ⟨hown, hrest⟩ := h.accepted fd id hacc
    exact ⟨owns_shutDownLive.2 hown, hrest⟩
  · have hmem : t.fd ∈ s.liveFds := (h.live t.fd).2 ⟨id, t, ht, rfl, hlive⟩
    obtain ⟨d, hd, -⟩ := h.owned id t ht fun hended => by
      rw [hended] at hlive
      cases hlive
    refine ⟨{ d with isShutDown := true }, ?_, rfl⟩
    show (if t.fd ∈ s.liveFds then _ else _) = _
    rw [if_pos hmem, hd]
    rfl
  all_goals
    intro hle
    exact absurd hle (by show ¬ _ ≤ 4; omega)

/-- The threads of the connections are joined. -/
lemma Inv.join (h : s.Inv) (hstop : s.stopCall = .joinConnections)
    (hended : ∀ id t, s.connectionThreads id = some t → t.phase = .ended) :
    ({ s with connectionThreads := fun _ => none, stopCall := .killCursors } :
      ListenerSystem).Inv := by
  have hrank : s.stopCall.rank = 4 := by rw [hstop]; rfl
  have hjoined := h.joined (by omega)
  have hnothing (fd id : ℕ) : s.acceptThread ≠ .accepted fd id := by
    intro hacc
    simp [hacc] at hjoined
  refine ⟨h.stopping (by rw [hstop]; nofun) nofun, fun _ _ => rfl, nofun, fun fd => ?_,
    fun id fd hown => ?_, fun fd id hacc => absurd hacc (hnothing fd id), h.listening,
    h.notStarted, fun _ => hjoined, fun _ => h.deaf (by omega), fun _ _ _ ht => ?_,
    fun _ _ => rfl, ?_⟩
  · refine (h.live fd).trans (iff_of_false ?_ ?_)
    · rintro ⟨id, t, ht, -, hlive⟩
      rw [hended id t ht] at hlive
      cases hlive
    · rintro ⟨id, t, ht, -⟩
      cases ht
  · obtain ⟨t, ht, -, hphase⟩ := (h.threaded id fd hown).resolve_left (hnothing fd id)
    exact absurd (hended id t ht) hphase
  · cases ht
  · intro hle
    exact absurd hle (by show ¬ _ ≤ 5; omega)

/-- A step of `stop` keeps the invariant. -/
lemma Inv.stopStep (h : s.Inv) (hs : s.stopStep = some s') : s'.Inv := by
  cases hstop : s.stopCall with
  | running | stopped =>
    simp only [ListenerSystem.stopStep, hstop] at hs
    cases hs
  | joinAccept =>
    simp only [ListenerSystem.stopStep, hstop] at hs
    split at hs <;> cases hs
    rename_i hjoined
    refine ⟨h.stopping (by rw [hstop]; nofun) nofun, h.fresh, h.owned, h.live, h.threaded,
      h.accepted, h.listening, h.notStarted, fun _ => hjoined, ?_, ?_, ?_, ?_⟩
    all_goals
      intro hle
      exact absurd hle (by show ¬ _ ≤ 2; omega)
  | closeListener =>
    have hrank : s.stopCall.rank = 2 := by rw [hstop]; rfl
    simp only [ListenerSystem.stopStep, hstop] at hs
    split at hs <;> cases hs
    · rename_i hnone
      refine ⟨h.stopping (by rw [hstop]; nofun) nofun, h.fresh, h.owned, h.live, h.threaded,
        h.accepted, h.listening, h.notStarted, fun _ => h.joined hrank.ge, fun _ => hnone, ?_, ?_,
        ?_⟩
      all_goals
        intro hle
        exact absurd hle (by show ¬ _ ≤ 3; omega)
    · rename_i fd hlisten
      exact h.closeListener hstop hlisten
  | shutDown =>
    simp only [ListenerSystem.stopStep, hstop] at hs
    cases hs
    exact h.shutDown hstop
  | joinConnections =>
    simp only [ListenerSystem.stopStep, hstop] at hs
    split at hs <;> cases hs
    rename_i hall
    refine h.join hstop fun id t ht => ?_
    have hlt : id < s.nextConnectionId := by
      by_contra hle
      cases (h.fresh id (not_lt.1 hle)).symm.trans ht
    simpa [ht] using hall id hlt
  | killCursors =>
    have hrank : s.stopCall.rank = 5 := by rw [hstop]; rfl
    simp only [ListenerSystem.stopStep, hstop] at hs
    cases hs
    refine ⟨h.stopping (by rw [hstop]; nofun) nofun, h.fresh, h.owned, h.live, h.threaded,
      h.accepted, h.listening, h.notStarted, fun _ => h.joined (by omega),
      fun _ => h.deaf (by omega), fun _ => h.unblocked (by omega), fun _ => h.quiet hrank.ge,
      fun _ id => ⟨?_, rfl⟩⟩
    exact Option.filter_eq_none_iff.2 fun _ _ => nofun

/-- **Every action keeps the invariant.** -/
theorem Inv.step (h : s.Inv) (hs : s.step a = some s') : s'.Inv := by
  cases ha : a.thread with
  | some id =>
    obtain ⟨t, new, cursors, ht, hold, hnew, -, rfl⟩ := h.thread_step ha hs
    exact h.setPhase ht hold hnew cursors
  | none =>
    cases a with
    | start fd ok =>
      simp only [ListenerSystem.step] at hs
      split at hs <;> cases hs
      rename_i hfree
      cases ok with
      | false => exact h
      | true => exact h.start hfree.1 hfree.2.1 hfree.2.2
    | acceptLoop =>
      simp only [ListenerSystem.step] at hs
      split at hs <;> cases hs
      rename_i haccept
      refine h.setAccept (by rw [haccept]; nofun) (by rw [haccept]; nofun) (by rw [haccept]; nofun)
        ?_ ?_
      · split <;> nofun
      · split <;> nofun
    | pollAgain | acceptFails =>
      simp only [ListenerSystem.step] at hs
      split at hs <;> cases hs
      rename_i haccept
      exact h.setAccept (by rw [haccept]; nofun) (by rw [haccept]; nofun) (by rw [haccept]; nofun)
        nofun nofun
    | accept fd =>
      simp only [ListenerSystem.step] at hs
      split at hs <;> cases hs
      rename_i haccept
      exact h.acceptFd haccept.1 haccept.2
    | register =>
      simp only [ListenerSystem.step] at hs
      split at hs
      · rename_i fd id haccept
        split at hs <;> cases hs
        · exact h.refuse haccept
        · exact h.register haccept
      · cases hs
    | stop =>
      simp only [ListenerSystem.step] at hs
      split at hs <;> cases hs
      exact h.stop
    | stopStep => exact h.stopStep hs
    | otherOpens fd =>
      simp only [ListenerSystem.step] at hs
      split at hs <;> cases hs
      rename_i hfree
      exact h.setOther (fun _ hown => absurd hown (not_owns_of_none hfree))
        fun x hx => by cases hx; rfl
    | otherCloses fd =>
      simp only [ListenerSystem.step] at hs
      split at hs <;> cases hs
      rename_i hother
      refine h.setOther (fun owner hown => ?_) nofun
      obtain ⟨d, hd, rfl⟩ := hown
      simpa [hd] using hother
    | _ => cases ha

/-! ## Descriptors of others -/

/-- **The listener leaves descriptors of others alone.** -/
lemma Inv.fds_step (h : s.Inv) (ha : a.isOwn = true) (hs : s.step a = some s') {d : Descriptor}
    (hd : s.fds fd = some d) (hother : d.owner = .other) : s'.fds fd = some d := by
  have hother : s.Owns .other fd := ⟨d, hd, hother⟩
  have hset {s₁ : ListenerSystem} {fd' : ℕ} {x : Option Descriptor} (hne : fd' ≠ fd)
      (hs₁ : s₁.fds = (s.setFd fd' x).fds) : s₁.fds fd = some d := by
    rw [hs₁, setFd_of_ne (Ne.symm hne), hd]
  have hopen {fd' : ℕ} (hfree : s.fds fd' = none) : fd' ≠ fd := by
    rintro rfl
    cases hfree.symm.trans hd
  have howned {owner : FdOwner} {fd' : ℕ} (hown : s.Owns owner fd') (hne : owner ≠ .other) :
      fd' ≠ fd := by
    rintro rfl
    exact hne (hown.unique hother)
  cases hthread : a.thread with
  | some id =>
    obtain ⟨t, new, cursors, ht, hold, -, -, rfl⟩ := h.thread_step hthread hs
    have hne := howned (h.owned id t ht hold) nofun
    show (if new = .ended then Function.update s.fds t.fd none else s.fds) fd = some d
    split
    · exact (Function.update_of_ne (Ne.symm hne) _ _).trans hd
    · exact hd
  | none =>
    cases a with
    | start fd' ok =>
      simp only [ListenerSystem.step] at hs
      split at hs <;> cases hs
      rename_i hfree
      cases ok with
      | false => exact hd
      | true => exact hset (hopen hfree.2.2) rfl
    | acceptLoop | pollAgain | acceptFails | stop =>
      simp only [ListenerSystem.step] at hs
      split at hs <;> cases hs
      exact hd
    | accept fd' =>
      simp only [ListenerSystem.step] at hs
      split at hs <;> cases hs
      rename_i haccept
      exact hset (hopen haccept.2) rfl
    | register =>
      simp only [ListenerSystem.step] at hs
      split at hs
      · rename_i fd' id haccept
        split at hs <;> cases hs
        · exact hset (howned (h.accepted fd' id haccept).1 nofun) rfl
        · exact hd
      · cases hs
    | stopStep =>
      cases hstop : s.stopCall with
      | running | stopped =>
        simp only [ListenerSystem.step, ListenerSystem.stopStep, hstop] at hs
        cases hs
      | joinAccept | joinConnections =>
        simp only [ListenerSystem.step, ListenerSystem.stopStep, hstop] at hs
        split at hs <;> cases hs
        exact hd
      | closeListener =>
        simp only [ListenerSystem.step, ListenerSystem.stopStep, hstop] at hs
        split at hs <;> cases hs
        · exact hd
        · rename_i fd' hlisten
          exact hset (howned ((h.listening fd').1 hlisten) nofun) rfl
      | shutDown =>
        simp only [ListenerSystem.step, ListenerSystem.stopStep, hstop] at hs
        cases hs
        have hnot : fd ∉ s.liveFds := by
          rw [h.live]
          rintro ⟨id, t, ht, rfl, hlive⟩
          refine howned (h.owned id t ht fun hended => ?_) nofun rfl
          rw [hended] at hlive
          cases hlive
        show (if fd ∈ s.liveFds then _ else s.fds fd) = some d
        rw [if_neg hnot, hd]
      | killCursors =>
        simp only [ListenerSystem.step, ListenerSystem.stopStep, hstop] at hs
        cases hs
        exact hd
    | otherOpens _ | otherCloses _ => cases ha
    | _ => cases hthread

/-! ## Stopping -/

/-- How many steps the listener can still take, at most, once it stops. -/
def remaining (s : ListenerSystem) : ℕ :=
  s.acceptThread.weight + (6 - s.stopCall.rank) +
    ∑ id ∈ Finset.range s.nextConnectionId,
      (s.connectionThreads id).elim 0 fun t => t.phase.weight

/-- **While the listener stops, each of its steps brings it closer to its end.** -/
lemma Inv.remaining_step (h : s.Inv) (hstop : s.stopCall ≠ .running) (hs : s.step a = some s') :
    s'.stopCall ≠ .running ∧ s'.remaining + (if a.isOwn then 1 else 0) ≤ s.remaining := by
  have hstopping := h.stopping_iff.2 hstop
  cases hthread : a.thread with
  | some id =>
    obtain ⟨t, new, cursors, ht, -, -, hweight, rfl⟩ := h.thread_step hthread hs
    have hlt : id < s.nextConnectionId := by
      by_contra hle
      cases (h.fresh id (not_lt.1 hle)).symm.trans ht
    refine ⟨hstop, ?_⟩
    have hsum : ∑ id' ∈ Finset.range s.nextConnectionId,
        ((s.advance id t new cursors).connectionThreads id').elim 0 (fun t => t.phase.weight) <
          ∑ id' ∈ Finset.range s.nextConnectionId,
            (s.connectionThreads id').elim 0 fun t => t.phase.weight := by
      refine Finset.sum_lt_sum (fun id' _ => ?_) ⟨id, Finset.mem_range.2 hlt, ?_⟩
      · by_cases hid : id' = id
        · subst hid
          simpa [advance, ht] using (hweight hstopping).le
        · simp [advance, hid]
      · simpa [advance, ht] using hweight hstopping
    have hone : (if a.isOwn then 1 else 0) ≤ 1 := by split <;> omega
    have haccept : (s.advance id t new cursors).acceptThread = s.acceptThread := rfl
    have hcall : (s.advance id t new cursors).stopCall = s.stopCall := rfl
    have hnext : (s.advance id t new cursors).nextConnectionId = s.nextConnectionId := rfl
    simp only [remaining, haccept, hcall, hnext]
    omega
  | none =>
    have haccept {s₁ : ListenerSystem} (hlt : s₁.acceptThread.weight < s.acceptThread.weight)
        (hcall : s₁.stopCall = s.stopCall) (hnext : s₁.nextConnectionId = s.nextConnectionId)
        (hthreads : s₁.connectionThreads = s.connectionThreads) :
        s₁.remaining + 1 ≤ s.remaining := by
      simp only [remaining, hcall, hnext, hthreads]
      omega
    have hcall {s₁ : ListenerSystem} (haccept : s₁.acceptThread = s.acceptThread)
        (hlt : s.stopCall.rank < s₁.stopCall.rank) (hle : s₁.stopCall.rank ≤ 6)
        (hnext : s₁.nextConnectionId = s.nextConnectionId)
        (hthreads : s₁.connectionThreads = s.connectionThreads) :
        s₁.remaining + 1 ≤ s.remaining := by
      simp only [remaining, haccept, hnext, hthreads]
      omega
    cases a with
    | start fd' ok =>
      simp only [ListenerSystem.step] at hs
      split at hs <;> cases hs
      rename_i hfree
      exact absurd hfree.2.1 hstop
    | acceptLoop =>
      simp only [ListenerSystem.step] at hs
      split at hs <;> cases hs
      rename_i hphase
      refine ⟨hstop, haccept ?_ rfl rfl rfl⟩
      simp [hphase, AcceptPhase.weight]
    | pollAgain | acceptFails =>
      simp only [ListenerSystem.step] at hs
      split at hs <;> cases hs
      rename_i hphase
      refine ⟨hstop, haccept ?_ rfl rfl rfl⟩
      simp [hphase, AcceptPhase.weight]
    | accept fd' =>
      simp only [ListenerSystem.step] at hs
      split at hs <;> cases hs
      rename_i hphase
      refine ⟨hstop, ?_⟩
      have hnew := h.fresh s.nextConnectionId le_rfl
      simp only [remaining, setFd, hphase.1, AcceptPhase.weight, ListenerAction.isOwn, if_true,
        Finset.sum_range_succ, hnew, Option.elim_none]
      omega
    | register =>
      simp only [ListenerSystem.step] at hs
      split at hs
      · rename_i fd' id hphase
        rw [if_pos hstopping] at hs
        cases hs
        refine ⟨hstop, haccept ?_ rfl rfl rfl⟩
        simp [hphase, AcceptPhase.weight]
      · cases hs
    | stop =>
      simp only [ListenerSystem.step] at hs
      split at hs <;> cases hs
      rename_i hrunning
      exact absurd hrunning hstop
    | stopStep =>
      cases hphase : s.stopCall with
      | running | stopped =>
        simp only [ListenerSystem.step, ListenerSystem.stopStep, hphase] at hs
        cases hs
      | joinAccept =>
        simp only [ListenerSystem.step, ListenerSystem.stopStep, hphase] at hs
        split at hs <;> cases hs
        exact ⟨nofun, hcall rfl (by simp [hphase, StopPhase.rank])
          (by simp [StopPhase.rank]) rfl rfl⟩
      | closeListener =>
        simp only [ListenerSystem.step, ListenerSystem.stopStep, hphase] at hs
        split at hs <;> cases hs <;>
          exact ⟨nofun, hcall rfl (by simp [hphase, StopPhase.rank])
            (by simp [StopPhase.rank]) rfl rfl⟩
      | shutDown | killCursors =>
        simp only [ListenerSystem.step, ListenerSystem.stopStep, hphase] at hs
        cases hs
        exact ⟨nofun, hcall rfl (by simp [hphase, StopPhase.rank])
          (by simp [StopPhase.rank]) rfl rfl⟩
      | joinConnections =>
        simp only [ListenerSystem.step, ListenerSystem.stopStep, hphase] at hs
        split at hs <;> cases hs
        refine ⟨nofun, ?_⟩
        simp only [remaining, hphase, StopPhase.rank, ListenerAction.isOwn, if_true,
          Option.elim_none, Finset.sum_const_zero]
        omega
    | otherOpens fd' | otherCloses fd' =>
      simp only [ListenerSystem.step] at hs
      split at hs <;> cases hs
      exact ⟨hstop, le_rfl⟩
    | _ => cases hthread

/-- **The listener never waits in vain.**  While it stops, one of its steps is enabled that waits
for no peer. -/
lemma Inv.progress (h : s.Inv) (hstop : s.stopCall ≠ .running) (hstopped : s.stopCall ≠ .stopped) :
    ∃ a, a.isAlone = true ∧ (s.step a).isSome = true := by
  cases hphase : s.stopCall with
  | running => exact absurd hphase hstop
  | stopped => exact absurd hphase hstopped
  | joinAccept =>
    cases haccept : s.acceptThread with
    | notStarted | ended =>
      exact ⟨.stopStep, rfl,
        by simp [ListenerSystem.step, ListenerSystem.stopStep, hphase, haccept]⟩
    | looping => exact ⟨.acceptLoop, rfl, by simp [ListenerSystem.step, haccept]⟩
    | polling => exact ⟨.pollAgain, rfl, by simp [ListenerSystem.step, haccept]⟩
    | accepted fd id =>
      exact ⟨.register, rfl, by simp [ListenerSystem.step, haccept, h.stopping_iff.2 hstop]⟩
  | closeListener =>
    refine ⟨.stopStep, rfl, ?_⟩
    cases hlisten : s.listenFd with
    | none | some _ => simp [ListenerSystem.step, ListenerSystem.stopStep, hphase, hlisten]
  | shutDown | killCursors =>
    exact ⟨.stopStep, rfl, by simp [ListenerSystem.step, ListenerSystem.stopStep, hphase]⟩
  | joinConnections =>
    by_cases hall : ∀ id < s.nextConnectionId,
        (s.connectionThreads id).all (fun t => decide (t.phase = .ended)) = true
    · refine ⟨.stopStep, rfl, ?_⟩
      simp only [ListenerSystem.step, ListenerSystem.stopStep, hphase, if_pos hall, Option.isSome]
    · simp only [not_forall] at hall
      obtain ⟨id, -, hthread⟩ := hall
      obtain ⟨t, ht, hended⟩ : ∃ t, s.connectionThreads id = some t ∧ t.phase ≠ .ended := by
        cases ht : s.connectionThreads id with
        | none => simp [ht] at hthread
        | some t => exact ⟨t, rfl, by simpa [ht] using hthread⟩
      have hmove {old : ServePhase} (hold : t.phase = old) (new : ServePhase) :
          (s.moveThread id old new).isSome = true := by simp [moveThread, ht, hold]
      have hshut (hlive : t.phase.isLive = true) : s.isShutDown id = true := by
        obtain ⟨d, hd, hd'⟩ := h.unblocked (by rw [hphase]; exact le_rfl) id t ht hlive
        simp [isShutDown, ht, hd, hd']
      cases hold : t.phase with
      | looping => exact ⟨.serveLoop id, rfl, hmove hold _⟩
      | reading =>
        have hshut := hshut (by rw [hold]; rfl)
        exact ⟨.readEnds id, rfl, by simpa [ListenerSystem.step, hshut] using hmove hold .leaving⟩
      | dispatching =>
        exact ⟨.dispatch id [], rfl, by simpa [ListenerSystem.step] using hmove hold .writing⟩
      | writing =>
        have hshut := hshut (by rw [hold]; rfl)
        exact ⟨.writeEnds id, rfl, by simpa [ListenerSystem.step, hshut] using hmove hold .leaving⟩
      | leaving =>
        exact ⟨.forget id, rfl, by simpa [ListenerSystem.step, ht] using hmove hold .closing⟩
      | closing =>
        exact ⟨.close id, rfl, by simpa [ListenerSystem.step, ht] using hmove hold .ended⟩
      | ended => exact absurd hold hended

end ListenerSystem

open ListenerSystem

/-- A registry without cursors has given no number. -/
lemma noCursors (id : ℤ) (_ : 1 ≤ id) : (fun _ => none : ℤ → Option CursorEntry) id = none := rfl

/-- A process in which something else has descriptor 3 open. -/
def processStart : ListenerSystem where
  stopping := false
  listenFd := none
  nextConnectionId := 1
  liveFds := ∅
  acceptThread := .notStarted
  connectionThreads _ := none
  stopCall := .running
  fds fd := if fd = 3 then some ⟨.other, false⟩ else none
  cursors := ⟨⟨fun _ => none, 1, noCursors⟩, fun _ => none⟩

/-- Its listener was just made. -/
lemma processStart_initial : processStart.Initial := by
  refine ⟨⟨rfl, rfl⟩, ⟨rfl, rfl⟩, ⟨rfl, fun _ => rfl⟩, fun fd d hd => ?_⟩
  simp only [processStart] at hd
  split at hd <;> cases hd
  rfl

/-- A connection is accepted and closes, the process uses its number again, and another connection
waits for its peer when the listener is stopped. -/
def stopRun : List ListenerAction :=
  [.start 4 true, .acceptLoop, .accept 5, .register, .serveLoop 1, .readFails 1, .forget 1,
    .close 1, .otherOpens 5, .acceptLoop, .accept 6, .register, .serveLoop 2, .stop]

/-- **The listener touches no descriptor of others.**  In every interleaving of the accepting
thread, the threads of any number of connections and a call of `stop`, with the rest of a process
that uses the numbers of closed descriptors again: no step of the listener closes or shuts down a
descriptor that the rest of the process has opened, and whatever a shutdown meets belongs to a
connection. -/
theorem listener_leaves_others {s₀ s : ListenerSystem} {as : List ListenerAction}
    (hs₀ : s₀.Initial) (hs : Steps ListenerSystem.step s₀ as s) :
    (∀ a s', a.isOwn = true → s.step a = some s' → ∀ fd d, s.fds fd = some d →
      d.owner = .other → s'.fds fd = some d) ∧
    (∀ fd ∈ s.liveFds, ∃ id d, s.fds fd = some d ∧ d.owner = .connection id) := by
  have hI : s.Inv := hs.invariant (fun _ _ _ h _ hst => h.step hst) hs₀.inv
  refine ⟨fun a s' ha hst fd d hd hother => hI.fds_step ha hst hd hother, fun fd hfd => ?_⟩
  obtain ⟨id, t, ht, rfl, hlive⟩ := (hI.live fd).1 hfd
  obtain ⟨d, hd, hown⟩ := hI.owned id t ht fun hended => by
    rw [hended] at hlive
    cases hlive
  exact ⟨id, d, hd, hown⟩

/-- That process has its descriptors 3 and 5 after the shutdown of the connections. -/
theorem listener_leaves_others_stopRun :
    ∃ s, Steps ListenerSystem.step processStart
        (stopRun ++ [.acceptLoop, .stopStep, .stopStep]) s ∧
      s.stopCall = .shutDown ∧ s.fds 5 = some ⟨.other, false⟩ ∧
      ∃ s', s.step .stopStep = some s' ∧ s'.fds 3 = some ⟨.other, false⟩ ∧
        s'.fds 5 = some ⟨.other, false⟩ := by
  obtain ⟨s, hs, hcall, hthree, hfive, s', hs'⟩ : ∃ s,
      runActions ListenerSystem.step processStart
        (stopRun ++ [.acceptLoop, .stopStep, .stopStep]) = some s ∧ s.stopCall = .shutDown ∧
      s.fds 3 = some ⟨.other, false⟩ ∧ s.fds 5 = some ⟨.other, false⟩ ∧
      ∃ s', s.step .stopStep = some s' := ⟨_, rfl, rfl, rfl, rfl, _, rfl⟩
  have hleaves := (listener_leaves_others processStart_initial (steps_of_runActions hs)).1 .stopStep
    s' rfl hs'
  exact ⟨s, steps_of_runActions hs, hcall, hfive, s', hs', hleaves 3 _ hthree rfl,
    hleaves 5 _ hfive rfl⟩

/-- **`stop` returns, and leaves nothing behind.**  Once it is called, the listener takes a bounded
number of steps, whatever its peers and the rest of the process do; as long as it has not returned,
steps that wait for no peer lead to its return; and when it has returned, no thread is left, no
descriptor of the listener or of a connection is open, and no cursor. -/
theorem listener_stops {s₀ s : ListenerSystem} {as : List ListenerAction} (hs₀ : s₀.Initial)
    (hs : Steps ListenerSystem.step s₀ as s) (hstop : s.stopCall ≠ .running) :
    (∀ bs t, Steps ListenerSystem.step s bs t →
      bs.countP ListenerAction.isOwn ≤ s.remaining ∧
      (t.stopCall = .stopped → (∀ id, t.connectionThreads id = none) ∧ t.liveFds = ∅ ∧
        (∀ fd d, t.fds fd = some d → d.owner = .other) ∧ t.cursors.IsEmpty)) ∧
    ∃ bs t, Run ListenerSystem.step (fun _ a => a.isAlone = true) s bs t ∧
      t.stopCall = .stopped := by
  have hI : s.Inv := hs.invariant (fun _ _ _ h _ hst => h.step hst) hs₀.inv
  have hstep (s : ListenerSystem) (a : ListenerAction) (s' : ListenerSystem)
      (h : s.Inv ∧ s.stopCall ≠ .running) (hst : s.step a = some s') :
      (s'.Inv ∧ s'.stopCall ≠ .running) ∧
        s'.remaining + (if a.isOwn then 1 else 0) ≤ s.remaining := by
    obtain ⟨hstop', hle⟩ := h.1.remaining_step h.2 hst
    exact ⟨⟨h.1.step hst, hstop'⟩, hle⟩
  refine ⟨fun bs t ht => ⟨?_, fun hstopped => ?_⟩, ?_⟩
  · have hle := ht.countP_le (fun s a s' h _ hst => hstep s a s' h hst) ⟨hI, hstop⟩
    omega
  · have hIt : t.Inv := ht.invariant (fun _ _ _ h _ hst => h.step hst) hI
    have hrank : t.stopCall.rank = 6 := by rw [hstopped]; rfl
    have hquiet := hIt.quiet (by omega)
    refine ⟨hquiet, Finset.eq_empty_of_forall_notMem fun fd hfd => ?_, fun fd d hd => ?_,
      hIt.emptied hrank.ge⟩
    · obtain ⟨id, t', ht', -⟩ := (hIt.live fd).1 hfd
      cases (hquiet id).symm.trans ht'
    · have hown : t.Owns d.owner fd := ⟨d, hd, rfl⟩
      cases howner : d.owner with
      | other => rfl
      | listener =>
        rw [howner, ← hIt.listening, hIt.deaf (by omega)] at hown
        cases hown
      | connection id =>
        rw [howner] at hown
        obtain hacc | ⟨t', ht', -⟩ := hIt.threaded id fd hown
        · have hjoined := hIt.joined (by omega)
          simp [hacc] at hjoined
        · cases (hquiet id).symm.trans ht'
  · refine exists_run (P := fun s => s.Inv ∧ s.stopCall ≠ .running) (μ := remaining)
      (fun s h hgoal => ?_) ⟨hI, hstop⟩
    obtain ⟨a, ha, hsome⟩ := h.1.progress h.2 hgoal
    obtain ⟨s', hs'⟩ := Option.isSome_iff_exists.1 hsome
    obtain ⟨hs'', hle⟩ := hstep s a s' h hs'
    have hown : a.isOwn = true := by cases a <;> first | rfl | cases ha
    rw [if_pos hown] at hle
    exact ⟨a, s', ha, hs', hs'', hle⟩

/-- The listener of that process stops. -/
theorem listener_stops_stopRun :
    ∃ s, Steps ListenerSystem.step processStart stopRun s ∧
      ∃ bs t, Run ListenerSystem.step (fun _ a => a.isAlone = true) s bs t ∧
        t.stopCall = .stopped := by
  obtain ⟨s, hs, hcall⟩ : ∃ s, runActions ListenerSystem.step processStart stopRun = some s ∧
      s.stopCall = .joinAccept := ⟨_, rfl, rfl⟩
  have hrun := steps_of_runActions hs
  exact ⟨s, hrun, (listener_stops processStart_initial hrun (by rw [hcall]; nofun)).2⟩

end Chimera
