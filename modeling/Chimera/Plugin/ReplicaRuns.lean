import Chimera.Oplog.Tokens
import Chimera.Plugin.Replication
import Chimera.Translator.ResumeToken

/-!
# Runs of a replicated collection

In every run, the oplog says of a collection exactly what its rows have gone through, committed and
pending.  With the delivery of change streams, this makes the events of a stream an exact account of
the collection: a client that carries them out holds what was committed, also when it fails and
resumes after an event that it has carried out, and carries out later ones a second time.
-/

namespace Chimera

open Interaction KeyedLog SequencedLog StepSystem

/-- A write stores documents only under the keys of their `_id`, and the collation tells its
collection from this one. -/
def ReplicationAction.Keyed (L : Libbson) (fold : Text → Text) (ns : Namespace) :
    ReplicationAction → Prop
  | .write _ q _ _ => q.Keyed L ∧ (fold q.ns.text = fold ns.text → q.ns = ns)
  | .other _ => True

/-- Every write of the run keeps to the keys and away from collections that the collation takes for
this one. -/
def KeyedWrites (L : Libbson) (fold : Text → Text) (ns : Namespace) (_ : ReplicatedServer)
    (a : ReplicationAction) : Prop := a.Keyed L fold ns

/-- A write is a statement that a write command sends, whatever it has been answered before; the
command leaves ids alone, and the collation tells its collection from this one. -/
def ReplicationAction.Sent (L : Libbson) (fold : Text → Text) (ns : Namespace) :
    ReplicationAction → Prop
  | .write _ q _ _ => ∃ (ns' : Namespace) (c : WriteCommand)
      (record : Record Request Request.Answer)
      (next : q.Answer → SqlProgram WriteOutcome),
    Follows (c.body L ns') record (.ask q next) ∧ c.leavesIds = true ∧
      (fold ns'.text = fold ns.text → ns' = ns)
  | .other _ => True

/-- **Write commands that leave ids alone keep to the keys.** -/
theorem ReplicationAction.Sent.keyed {L : Libbson} {fold : Text → Text} {ns : Namespace}
    {a : ReplicationAction} (h : a.Sent L fold ns) : a.Keyed L fold ns := by
  cases a with
  | other _ => trivial
  | write conn q now gap =>
    obtain ⟨ns', c, record, next, hfollows, hleaves, htold⟩ := h
    obtain ⟨⟨hns, hkeyed⟩, -⟩ := (within_body c).follows hfollows
    exact ⟨hkeyed hleaves, fun hfold => hns ▸ htold (hns ▸ hfold)⟩

/-- The `getMore` calls on the cursor are made one at a time and in autocommit, and none of them
fails between storing its position and replying with a page. -/
def Followed (id : ℕ) (s : ReplicatedServer) : ReplicationAction → Prop
  | .other a => s.tail.OneAtATime id a ∧ s.tail.InAutocommit id a ∧ s.tail.Replies id a
  | .write _ _ _ _ => True

/-! ## What is appended -/

namespace OplogServer

variable {s s' : OplogServer} {conn now : ℕ} {call : AppendCall}

/-- An append leaves a row with what it was called with. -/
lemma step_append_row (h : s.step (.append conn call) = some s') :
    ∃ row, s'.lock.pending = s.lock.pending ++ [row] ∧ s'.committed = s.committed ∧
      (row.op = call.op ∧ row.ns = call.ns ∧ row.o = call.o ∧ row.o2 = call.o2) ∧
      row.seq ≤ maxBigintUnsigned := by
  have hrow {clock clock' : Stamp} {row : OplogRow}
      (happend : oplogAppend clock s.autoIncrement call = some (clock', row)) :
      (row.op = call.op ∧ row.ns = call.ns ∧ row.o = call.o ∧ row.o2 = call.o2) ∧
        row.seq ≤ maxBigintUnsigned := by
    simp only [oplogAppend] at happend
    split at happend
    · rename_i hfits
      obtain ⟨-, rfl⟩ := Prod.mk.inj (Option.some.inj happend)
      exact ⟨⟨rfl, rfl, rfl, rfl⟩, hfits.2.2⟩
    · cases happend
  simp only [step] at h
  split at h
  · next hlock =>
    obtain ⟨⟨clock, row⟩, happend, rfl⟩ := Option.map_eq_some_iff.1 h
    refine ⟨row, ?_, rfl, hrow happend⟩
    rw [hlock]
    rfl
  · next owner pending clock₀ hlock =>
    split at h
    · obtain ⟨⟨clock, row⟩, happend, rfl⟩ := Option.map_eq_some_iff.1 h
      refine ⟨row, ?_, rfl, hrow happend⟩
      rw [hlock]
      rfl
    · cases h
  · cases h

/-- A statement of the pass leaves what is pending alone. -/
lemma Inv.pending_pruneStatement (hI : s.Inv) (h : s.pruneStatement now = some s') :
    s'.lock.pending = s.lock.pending := by
  have hsame (conn : ℕ) : s'.lock.pendingOf conn = s.lock.pendingOf conn :=
    hI.pendingOf_pruneStatement h
  by_cases hold : s.lock.pending = []
  · have hsub := (pruneStatement_frame h).2.2.2
    rw [hold] at hsub ⊢
    exact List.sublist_nil.1 hsub
  · cases hlock : s.lock with
    | writer owner pending clock =>
      have howner : s'.lock.pendingOf owner = pending := by
        rw [hsame owner, hlock]
        simp [ClockLock.pendingOf]
      rw [hlock] at hold
      have hne : s'.lock.pendingOf owner ≠ [] := howner ▸ hold
      exact (pendingOf_eq_pending hne).symm.trans howner
    | free => exact absurd (by rw [hlock]; rfl) hold
    | pruner => exact absurd (by rw [hlock]; rfl) hold

end OplogServer

open OplogServer

/-- What an action on the server does. -/
lemma TailSessions.step_server {s s' : TailSessions} {a : ServerAction}
    (h : s.step (.server a) = some s') : ∃ server, s.server.step a = some server ∧
      s' = { s with
        server := server, views := s.viewsAfter a, rolledBack := s.rolledBack ++ s.undone a } := by
  simp only [TailSessions.step] at h
  split at h
  · cases h
  · obtain ⟨server, hstep, rfl⟩ := Option.map_eq_some_iff.1 h
    exact ⟨server, hstep, rfl⟩

/-- Any other action leaves the server alone. -/
lemma TailSessions.server_eq {s s' : TailSessions} {a : SessionAction} (h : s.step a = some s')
    (ha : ∀ b, a ≠ .server b) : s'.server = s.server := by
  cases TailSessions.session_effect h with
  | server _ _ _ => exact absurd rfl (ha _)
  | opensView _ heq | closesView _ heq | keeps heq | moves _ heq | registers _ heq
  | advances _ heq | replies _ heq | kills heq =>
    subst heq
    rfl

/-- The triggers of a statement leave one row for each changed row. -/
lemma appends_logged {s s' : TailSessions} {conn now : ℕ} {gap : ℕ → ℕ} {images : List RowImage}
    (h : runActions TailSessions.step s
      ((triggerCalls now gap images).map fun call => .server (.append conn call)) = some s') :
    s'.server.committed = s.server.committed ∧
      ∃ new, s'.server.lock.pending = s.server.lock.pending ++ new ∧
        (∀ r ∈ new, r.seq ≤ maxBigintUnsigned) ∧ List.Forall₂ RowImage.Logged images new := by
  induction images generalizing s gap with
  | nil =>
    obtain rfl := Option.some.inj h
    refine ⟨rfl, [], (List.append_nil _).symm, ?_, .nil⟩
    intro r hr
    exact absurd hr List.not_mem_nil
  | cons image images ih =>
    rw [triggerCalls, List.mapIdx_cons, List.map_cons, runActions] at h
    obtain ⟨s₁, hfirst, hrest⟩ := Option.bind_eq_some_iff.1 h
    obtain ⟨server, happend, rfl⟩ := TailSessions.step_server hfirst
    obtain ⟨row, hpending, hcommitted, hrow, hfits⟩ := step_append_row happend
    obtain ⟨hcommitted', new, hpending', hfits', hlogged⟩ := ih hrest
    refine ⟨hcommitted'.trans hcommitted, row :: new, ?_, ?_, .cons ?_ hlogged⟩
    · rw [hpending', hpending, List.append_assoc, List.singleton_append]
    · exact List.forall_mem_cons.2 ⟨hfits, hfits'⟩
    · cases image <;> exact hrow

/-! ## The connections -/

namespace ReplicatedServer

section Connections

variable {S : SqlServer} {s s' : ReplicatedServer} {G : TailSessions → SessionAction → Prop}

/-- What an action does that is no write: only a commit concerns the rows of the collections. -/
lemma step_other {b : SessionAction} (h : s.step S (.other b) = some s') :
    ∃ rows, s.tail.step b = some s'.tail ∧ s' = ⟨s'.tail, rows, s.working⟩ ∧
      ((∃ conn, b = .server (.commit conn)) ∧ rows = s.current ∨ rows = s.rows) := by
  unfold step at h
  split at h
  · next hwrite => cases hwrite
  · cases h
  · next conn hcommit =>
    cases hcommit
    obtain ⟨tail, htail, rfl⟩ := Option.map_eq_some_iff.1 h
    exact ⟨s.current, htail, rfl, .inl ⟨⟨conn, rfl⟩, rfl⟩⟩
  · next a _ _ hother =>
    cases hother
    obtain ⟨tail, htail, rfl⟩ := Option.map_eq_some_iff.1 h
    exact ⟨s.rows, htail, rfl, .inr rfl⟩

/-- An action is a run of the connections: one action of theirs, or the appends of a statement. -/
lemma step_tail {a : ReplicationAction} (hG : ∀ b, a = .other b → G s.tail b)
    (happends : ∀ tail conn call, G tail (.server (.append conn call)))
    (h : s.step S a = some s') : ∃ bs, Run TailSessions.step G s.tail bs s'.tail := by
  cases a with
  | write conn q now gap =>
    simp only [step] at h
    split at h
    · cases h
    obtain ⟨tail, hrun, rfl⟩ := Option.map_eq_some_iff.1 h
    have hwrites := (steps_of_runActions hrun).of_forall_mem
      (G := fun b => ∃ conn call, b = .server (.append conn call)) fun b hb => by
        obtain ⟨call, -, rfl⟩ := List.mem_map.1 hb
        exact ⟨conn, call, rfl⟩
    refine ⟨_, hwrites.mono fun tail b hb => ?_⟩
    obtain ⟨conn, call, rfl⟩ := hb
    exact happends tail conn call
  | other b =>
    obtain ⟨rows, htail, -⟩ := step_other h
    exact ⟨[b], .single (hG b rfl) htail⟩

/-- A run is one of the connections. -/
lemma run_tail {guard : ReplicatedServer → ReplicationAction → Prop}
    {as : List ReplicationAction} (hG : ∀ s b, guard s (.other b) → G s.tail b)
    (happends : ∀ tail conn call, G tail (.server (.append conn call)))
    (h : Run (ReplicatedServer.step S) guard s as s') :
    ∃ bs, Run TailSessions.step G s.tail bs s'.tail := by
  induction h with
  | nil s => exact ⟨[], .nil _⟩
  | cons hg hst _ ih =>
    obtain ⟨bs, hbs⟩ := step_tail (fun b hb => hG _ b (hb ▸ hg)) happends hst
    obtain ⟨cs, hcs⟩ := ih
    exact ⟨bs ++ cs, hbs.append hcs⟩

/-- Every action keeps the oplog sound, and the collation. -/
lemma backed_step {a : ReplicationAction} (hB : s.tail.Backed) (h : s.step S a = some s') :
    s'.tail.Backed ∧ s'.tail.fold = s.tail.fold := by
  obtain ⟨bs, hrun⟩ := step_tail (G := fun _ _ => True) (fun _ _ => trivial)
    (fun _ _ _ => trivial) h
  exact ⟨hrun.invariant (fun _ _ _ hB _ => hB.step) hB,
    hrun.invariant (P := fun tail => tail.fold = s.tail.fold)
      (fun _ _ _ hfold _ hstep => (TailSessions.fold_step hstep).trans hfold) rfl⟩

/-- A stretch that a stream has handed out stays one. -/
lemma spans_run {guard : ReplicatedServer → ReplicationAction → Prop}
    {as : List ReplicationAction} {p : OplogRow → Bool} {start pos : ℕ} {rows : List OplogRow}
    (h : Run (ReplicatedServer.step S) guard s as s') (hspan : s.tail.Spans p start pos rows) :
    s'.tail.Spans p start pos rows := by
  obtain ⟨bs, hrun⟩ := run_tail (G := fun _ _ => True) (fun _ _ _ => trivial)
    (fun _ _ _ => trivial) h
  exact hrun.invariant (P := fun tail => tail.Spans p start pos rows)
    (fun _ _ _ hspan _ => hspan.step) hspan

end Connections

end ReplicatedServer

/-! ## The invariant -/

namespace ReplicatedServer

/-- The oplog gives an exact account of the collection. -/
structure Tracks (L : Libbson) (fold : Text → Text) (ns : Namespace) (s : ReplicatedServer) :
    Prop where
  /-- The oplog is sound, and each read view shows it as it was. -/
  backed : s.tail.Backed
  /-- The collation of the oplog's column. -/
  fold_eq : s.tail.fold = fold
  /-- Sequence numbers fit their column. -/
  fits : ∀ r ∈ s.tail.server.committed ++ s.tail.server.lock.pending, r.seq ≤ maxBigintUnsigned
  /-- The committed rows are in agreement with their keys. -/
  stored : Agreement L s.rows
  /-- So are the current ones. -/
  changed : Agreement L s.current
  /-- The committed rows have gone through what is committed. -/
  reflects : Reflects (contents ns s.rows) (changesOf L fold ns s.tail.server.committed)
  /-- The current ones have gone through what is pending, too. -/
  pending : contents ns s.current =
    replay (contents ns s.rows) (changesOf L fold ns s.tail.server.lock.pending)

/-- A later state has gone through what was committed since. -/
def Grows (L : Libbson) (fold : Text → Text) (ns : Namespace) (s s' : ReplicatedServer) : Prop :=
  ∃ new, s'.tail.server.committed = s.tail.server.committed ++ new ∧
    contents ns s'.rows = replay (contents ns s.rows) (changesOf L fold ns new)

variable {L : Libbson} {S : SqlServer} {fold : Text → Text} {ns : Namespace}
  {s s' : ReplicatedServer} {tail : TailSessions}

/-- A state has gone through nothing since itself. -/
lemma Grows.refl (s : ReplicatedServer) : s.Grows L fold ns s :=
  ⟨[], (List.append_nil _).symm, rfl⟩

/-- What happened since an earlier state is what happened since a state in between, after what had
happened by then. -/
lemma Grows.trans {s'' : ReplicatedServer} (h : s.Grows L fold ns s')
    (h' : s'.Grows L fold ns s'') : s.Grows L fold ns s'' := by
  obtain ⟨new, hnew, hrows⟩ := h
  obtain ⟨new', hnew', hrows'⟩ := h'
  refine ⟨new ++ new', by rw [hnew', hnew, List.append_assoc], ?_⟩
  rw [hrows', hrows, changesOf_append, replay_append]

/-- What is committed is in sequence order. -/
lemma Tracks.sequenced (h : s.Tracks L fold ns) :
    Sequenced OplogRow.seq s.tail.server.committed :=
  (Sequenced.append_iff.1 h.backed.server.sequenced).1

/-- An action that leaves the oplog's rows alone, committed and pending, leaves the account
exact. -/
lemma Tracks.frame (h : s.Tracks L fold ns) (hB : tail.Backed) (hfold : tail.fold = s.tail.fold)
    (hcommitted : tail.server.committed = s.tail.server.committed)
    (hpending : tail.server.lock.pending = s.tail.server.lock.pending) :
    ({ s with tail := tail } : ReplicatedServer).Tracks L fold ns ∧
      s.Grows L fold ns { s with tail := tail } := by
  have hcurrent : ({ s with tail := tail } : ReplicatedServer).current = s.current := by
    simp only [current, hpending]
  refine ⟨⟨hB, hfold.trans h.fold_eq, ?_, h.stored, hcurrent ▸ h.changed, ?_, ?_⟩, [], ?_, rfl⟩
  · rw [hcommitted, hpending]
    exact h.fits
  · rw [hcommitted]
    exact h.reflects
  · rw [hcurrent, hpending]
    exact h.pending
  · rw [hcommitted, List.append_nil]

/-- A write leaves the account exact. -/
lemma Tracks.write (hL : L.KeepsKeys) (h : s.Tracks L fold ns) {conn now : ℕ} {gap : ℕ → ℕ}
    {q : Request} (hq : q.Keyed L ∧ (fold q.ns.text = fold ns.text → q.ns = ns))
    (hs : s.step S (.write conn q now gap) = some s') :
    s'.Tracks L fold ns ∧ s.Grows L fold ns s' := by
  obtain ⟨hB, hfold⟩ := backed_step h.backed hs
  simp only [step] at hs
  split at hs
  · cases hs
  rename_i answer rows hperform
  obtain ⟨tail, hrun, rfl⟩ := Option.map_eq_some_iff.1 hs
  obtain ⟨hcommitted, new, hpending, hfits, hlogged⟩ := appends_logged hrun
  have hok : S.perform q s.current = .ok (answer, rows) := by
    rw [SqlServer.handler] at hperform
    split at hperform
    · cases hperform
    · exact hperform
  have hids (image : RowImage) (himage : image ∈ S.images s.current q) :
      (fold image.row.ns.text = fold ns.text → image.row.ns = ns) ∧
        ∃ id, HasId L image.row id := by
    obtain ⟨himagens, hid⟩ := hasId_of_mem_images h.changed hq.1 himage
    exact ⟨himagens ▸ hq.2, hid⟩
  have hchanges := changesOf_logged hL hlogged hids
  have hrows : contents ns rows = replay (contents ns s.current)
      ((S.images s.current q).filterMap (RowImage.change ns)) :=
    contents_perform h.changed.slots hok
  -- nothing pending means that the statement changed nothing, and then its rows are the stored ones
  have hcurrent : ({ s with tail := tail, working := rows } : ReplicatedServer).current =
      if s.tail.server.lock.pending ++ new = [] then s.rows else rows := by
    simp only [current, hpending]
  have hpend : contents ns rows =
      replay (contents ns s.rows) (changesOf L fold ns (s.tail.server.lock.pending ++ new)) := by
    rw [hrows, h.pending, changesOf_append, replay_append, hchanges]
  have hagree : Agreement L rows := h.changed.perform hq.1 hok
  refine ⟨⟨hB, hfold.trans h.fold_eq, ?_, h.stored, ?_, ?_, ?_⟩, [], ?_, rfl⟩
  · show ∀ r ∈ tail.server.committed ++ tail.server.lock.pending, r.seq ≤ maxBigintUnsigned
    rw [hcommitted, hpending, ← List.append_assoc]
    exact List.forall_mem_append.2 ⟨h.fits, hfits⟩
  · rw [hcurrent]
    split
    · exact h.stored
    · exact hagree
  · rw [hcommitted]
    exact h.reflects
  · rw [hcurrent, hpending]
    split
    · next hnone =>
      rw [hnone]
      rfl
    · exact hpend
  · rw [hcommitted, List.append_nil]

/-- A commit makes the account of what is pending an account of what is committed. -/
lemma Tracks.commit (h : s.Tracks L fold ns) {conn : ℕ}
    (hs : s.step S (.other (.server (.commit conn))) = some s') :
    s'.Tracks L fold ns ∧ s.Grows L fold ns s' := by
  obtain ⟨hB, hfold⟩ := backed_step h.backed hs
  obtain ⟨tail, htail, rfl⟩ := Option.map_eq_some_iff.1 hs
  obtain ⟨server, hserver, rfl⟩ := TailSessions.step_server htail
  obtain ⟨pending, clock, hlock, rfl⟩ := step_commit hserver
  have hpend : s.tail.server.lock.pending = pending := by rw [hlock]; rfl
  have hrows : contents ns s.current =
      replay (contents ns s.rows) (changesOf L fold ns pending) := by
    rw [h.pending, hpend]
  refine ⟨⟨hB, hfold.trans h.fold_eq, ?_, h.changed, h.changed, ?_, rfl⟩, pending, rfl, hrows⟩
  · show ∀ r ∈ (s.tail.server.committed ++ pending) ++ [], r.seq ≤ maxBigintUnsigned
    rw [List.append_nil, ← hpend]
    exact h.fits
  · show Reflects (contents ns s.current)
      (changesOf L fold ns (s.tail.server.committed ++ pending))
    rw [hrows, changesOf_append]
    exact h.reflects.append

/-- A rollback leaves what is committed. -/
lemma Tracks.rollback (h : s.Tracks L fold ns) {conn : ℕ}
    (hs : s.step S (.other (.server (.rollback conn))) = some s') :
    s'.Tracks L fold ns ∧ s.Grows L fold ns s' := by
  obtain ⟨hB, hfold⟩ := backed_step h.backed hs
  obtain ⟨tail, htail, rfl⟩ := Option.map_eq_some_iff.1 hs
  obtain ⟨server, hserver, rfl⟩ := TailSessions.step_server htail
  obtain ⟨-, rfl⟩ := step_rollback hserver
  refine ⟨⟨hB, hfold.trans h.fold_eq, ?_, h.stored, h.stored, h.reflects, rfl⟩, [],
    (List.append_nil _).symm, rfl⟩
  show ∀ r ∈ s.tail.server.committed ++ [], r.seq ≤ maxBigintUnsigned
  rw [List.append_nil]
  exact fun r hr => h.fits r (List.mem_append_left _ hr)

/-- What a server action does that is no append, commit or rollback. -/
lemma Tracks.server (h : s.Tracks L fold ns) {a : ServerAction} (ha : a.writer = none)
    (htail : s.tail.step (.server a) = some tail) (hB : tail.Backed)
    (hfold : tail.fold = s.tail.fold) :
    ({ s with tail := tail } : ReplicatedServer).Tracks L fold ns ∧
      s.Grows L fold ns { s with tail := tail } := by
  obtain ⟨server, hserver, rfl⟩ := TailSessions.step_server htail
  cases a with
  | append _ _ | commit _ | rollback _ => cases ha
  | pruneStart maxRows maxAge =>
    simp only [OplogServer.step] at hserver
    split at hserver <;> cases hserver
    exact h.frame hB hfold rfl rfl
  | pruneStep now =>
    exact h.frame hB hfold (pruneStatement_frame hserver).2.1
      (h.backed.server.pending_pruneStatement hserver)
  | pruneFail =>
    simp only [OplogServer.step] at hserver
    split at hserver <;> cases hserver
    exact h.frame hB hfold rfl rfl

/-- **Every action leaves the account exact.** -/
theorem Tracks.step (hL : L.KeepsKeys) (h : s.Tracks L fold ns) {a : ReplicationAction}
    (ha : a.Keyed L fold ns) (hs : s.step S a = some s') :
    s'.Tracks L fold ns ∧ s.Grows L fold ns s' := by
  obtain ⟨hB, hfold⟩ := backed_step h.backed hs
  cases a with
  | write conn q now gap => exact h.write hL ha hs
  | other a =>
    cases a with
    | server a =>
      cases a with
      | append conn call => cases hs
      | commit conn => exact h.commit hs
      | rollback conn => exact h.rollback hs
      | pruneStart _ _ | pruneStep _ | pruneFail =>
        obtain ⟨tail, htail, rfl⟩ := Option.map_eq_some_iff.1 hs
        exact h.server rfl htail hB hfold
    | _ =>
      obtain ⟨rows, htail, heq, ⟨⟨conn, hcommit⟩, -⟩ | rfl⟩ := step_other hs
      · cases hcommit
      · have hserver := TailSessions.server_eq htail nofun
        rw [heq]
        exact h.frame hB hfold (by rw [hserver]) (by rw [hserver])

/-- A new server, with these rows in its collections. -/
def start (fold : Text → Text) (server : OplogServer) (rows : List Row) : ReplicatedServer :=
  ⟨⟨server, fold, fun _ => none, fun _ => none, 1, fun _ => .idle, fun _ => .idle, [], []⟩,
    rows, rows⟩

/-- The collections on a server that was just set up, whose rows have gone through its oplog. -/
structure Begun (L : Libbson) (fold : Text → Text) (ns : Namespace) (server : OplogServer)
    (rows : List Row) : Prop where
  /-- The oplog is new or migrated. -/
  installed : server.Installed
  /-- Its sequence numbers fit their column. -/
  fits : ∀ r ∈ server.committed, r.seq ≤ maxBigintUnsigned
  /-- The rows are in agreement with their keys. -/
  stored : Agreement L rows
  /-- The collection has gone through the oplog. -/
  reflects : Reflects (contents ns rows) (changesOf L fold ns server.committed)

/-- The gateway has just been started. -/
lemma started_start {server : OplogServer} (h : server.Installed) (fold : Text → Text)
    (rows : List Row) : (start fold server rows).tail.Started :=
  ⟨⟨h.quiescent.inv, fun _ => rfl, fun _ => rfl, rfl, rfl⟩, h, fun _ => rfl⟩

/-- The account is exact at first. -/
lemma Begun.tracks {server : OplogServer} {rows : List Row} (h : Begun L fold ns server rows) :
    (start fold server rows).Tracks L fold ns := by
  have hpending : (start fold server rows).tail.server.lock.pending = [] := by
    show server.lock.pending = []
    rw [h.installed.quiescent.lock_free]
    rfl
  have hcurrent : (start fold server rows).current = rows := if_pos hpending
  have hA : (start fold server rows).tail.Attends False True 0 :=
    (started_start h.installed fold rows).attends False.elim 0
  refine ⟨hA.orderly.settled.sound.backed, rfl, ?_, h.stored, ?_, h.reflects, ?_⟩
  · rw [hpending, List.append_nil]
    exact h.fits
  · rw [hcurrent]
    exact h.stored
  · rw [hpending, hcurrent]
    rfl

/-- **The account is exact in every state of every run.** -/
lemma Tracks.run {guard : ReplicatedServer → ReplicationAction → Prop} (hL : L.KeepsKeys)
    (h : s.Tracks L fold ns) {as : List ReplicationAction}
    (hs : Run (ReplicatedServer.step S) guard s as s')
    (hguard : ∀ s a, guard s a → KeyedWrites L fold ns s a) :
    s'.Tracks L fold ns ∧ s.Grows L fold ns s' :=
  ⟨hs.invariant (fun _ _ _ ht ha hst => (ht.step hL (hguard _ _ ha) hst).1) h,
    hs.relate (Grows L fold ns) Grows.refl (fun _ _ _ => Grows.trans)
      (fun _ _ _ ht ha hst => ht.step hL (hguard _ _ ha) hst) h⟩

/-- What a stream on the collection has handed out in a run in which it is followed. -/
lemma spans_of_followed {guard : ReplicatedServer → ReplicationAction → Prop}
    {server : OplogServer} {rows : List Row} {as : List ReplicationAction} {id a : ℕ}
    {entry : RegistryEntry} {due : List OplogRow} (hinstalled : server.Installed)
    (hs : Run (ReplicatedServer.step S) guard (.start fold server rows) as s)
    (hguard : ∀ s a, guard s a → Followed id s a) (hfold : s.tail.fold = fold)
    (hopened : s.tail.opened id = .openingStream ns.text a)
    (hentry : s.tail.cursors id = some entry) (hdue : s.tail.Due id due) :
    s.tail.Spans (concerns fold ns) a entry.tail.afterSeq (s.tail.deliveredBy id ++ due) ∧
      s.tail.deliveredBy id ++ due ⊆ s.tail.server.committed := by
  obtain ⟨bs, hrun⟩ := run_tail (G := fun tail b =>
      tail.OneAtATime id b ∧ tail.InAutocommit id b ∧ tail.Replies id b)
    (fun s b hg => hguard s (.other b) hg) (fun _ _ _ => ⟨trivial, trivial, trivial⟩) hs
  have hA := (started_start hinstalled fold rows).attends_stream hrun
  have hspans := hA.spans_stream hopened hentry ⟨due, hdue, rfl⟩
  rwa [hfold] at hspans

end ReplicatedServer

/-! ## Following a stream -/

section Following

variable {L : Libbson} {fold : Text → Text} {ns : Namespace} {s t u : ReplicatedServer}
  {a pos : ℕ} {rows : List OplogRow}

/-- What the events of some rows say. -/
def rowChanges (L : Libbson) (rows : List OplogRow) : List (Change Text Json) :=
  rows.filterMap fun r => changeOf L (eventExpr r)

/-- The changes of two stretches. -/
lemma rowChanges_append {rows rows' : List OplogRow} :
    rowChanges L (rows ++ rows') = rowChanges L rows ++ rowChanges L rows' :=
  List.filterMap_append

/-- A client that carries out the events of some rows goes through their changes. -/
lemma follow_map_eventExpr {replica : Text → Option Json} {rows : List OplogRow} :
    follow L replica (rows.map eventExpr) = replay replica (rowChanges L rows) := by
  rw [follow, List.filterMap_map]
  rfl

/-- What a stream has handed out that has come to a state, no further and no less, are the events
committed by then. -/
lemma eq_after {new : List OplogRow} (hu : u.Tracks L fold ns)
    (hnew : u.tail.server.committed = t.tail.server.committed ++ new)
    (hspan : u.tail.Spans (concerns fold ns) a pos rows) (hrows : rows ⊆ u.tail.server.committed)
    (hpos : ∀ r ∈ u.tail.server.committed, fold r.ns = fold ns.text →
      (r.seq ≤ pos ↔ r ∈ t.tail.server.committed)) :
    rows = after OplogRow.seq (concerns fold ns) a t.tail.server.committed := by
  have hseq := hu.sequenced
  have hprefix : t.tail.server.committed <+: u.tail.server.committed :=
    hnew ▸ List.prefix_append _ _
  rw [hspan.eq_window hseq hrows]
  refine hseq.window.ext ((hseq.sublist hprefix.sublist).filter _) fun r => ?_
  rw [mem_window, mem_after]
  constructor
  · rintro ⟨hr, hlt, hle, hp⟩
    exact ⟨(hpos r hr (of_decide_eq_true hp)).1 hle, hlt, hp⟩
  · rintro ⟨hr, hlt, hp⟩
    have hmem := hprefix.subset hr
    exact ⟨hmem, hlt, (hpos r hmem (of_decide_eq_true hp)).2 hr, hp⟩

/-- What a client has carried out, of the events that a stream has handed out, is the beginning of
the events after the start of the stream. -/
lemma exists_rows_of_prefix {done : List Json} (ht : t.Tracks L fold ns)
    (hspan : t.tail.Spans (concerns fold ns) a pos rows) (hrows : rows ⊆ t.tail.server.committed)
    (hdone : done <+: rows.map eventExpr) :
    ∃ carried rest, done = carried.map eventExpr ∧ carried ⊆ rows ∧
      after OplogRow.seq (concerns fold ns) a t.tail.server.committed = carried ++ rest := by
  obtain ⟨left, hleft⟩ := hdone
  obtain ⟨carried, rest, rfl, rfl, rfl⟩ := List.map_eq_append_iff.1 hleft.symm
  refine ⟨carried, rest ++ after OplogRow.seq (concerns fold ns) pos t.tail.server.committed, rfl,
    List.subset_append_left _ _, ?_⟩
  rw [← List.append_assoc, hspan.eq_window ht.sequenced hrows,
    window_append_after ht.sequenced hspan.le]

/-- The token of an event is the sequence number of its row. -/
lemma seq_of_token {r : OplogRow} {token : UInt64} (hfits : r.seq ≤ maxBigintUnsigned)
    (h : jsonAt (eventExpr r) ["_id".toList, "_data".toList] =
      some (.str (encodeResumeToken token))) : r.seq = token.toNat := by
  have hseq : (UInt64.ofNat r.seq).toNat = r.seq := UInt64.toNat_ofNat_of_lt' (by
    exact hfits.trans_lt (by decide))
  have hdata : jsonAt (eventExpr r) ["_id".toList, "_data".toList] =
      some (.str (paddedHex r.seq)) := rfl
  rw [hdata, ← hseq, paddedHex_eq] at h
  have hvalue := congrArg hexValue (Json.str.inj (Option.some.inj h))
  rwa [(encodeResumeToken_spec _).2.2, (encodeResumeToken_spec token).2.2, hseq] at hvalue

/-- Beginning with a collection as it was, the events committed since, and any that were committed
before, lead to the collection as it is. -/
lemma replay_after (hs : s.Tracks L fold ns) (ht : t.Tracks L fold ns) (hst : s.Grows L fold ns t)
    (hstart : ∀ r ∈ t.tail.server.committed, fold r.ns = fold ns.text → r.seq ≤ a →
      r ∈ s.tail.server.committed) :
    replay (contents ns s.rows)
      (rowChanges L (after OplogRow.seq (concerns fold ns) a t.tail.server.committed)) =
        contents ns t.rows := by
  obtain ⟨new, hnew, hrows⟩ := hst
  have hseq : Sequenced OplogRow.seq (s.tail.server.committed ++ new) := hnew ▸ ht.sequenced
  obtain ⟨hold, -, hbeyond⟩ := Sequenced.append_iff.1 hseq
  have hafter : after OplogRow.seq (concerns fold ns) a new = new.filter (concerns fold ns) := by
    refine List.filter_congr fun r hr => ?_
    by_cases hns : fold r.ns = fold ns.text
    · have hlt : a < r.seq := by
        by_contra hle
        have hmem := hstart r (hnew ▸ List.mem_append_right _ hr) hns (not_lt.1 hle)
        exact absurd (hbeyond r hmem r hr) (lt_irrefl _)
      simp [hlt]
    · simp [concerns, hns]
  obtain ⟨before, hbefore⟩ : after OplogRow.seq (concerns fold ns) a s.tail.server.committed <:+
      s.tail.server.committed.filter (concerns fold ns) := after_suffix hold
  have hreflects : Reflects (contents ns s.rows)
      (rowChanges L (after OplogRow.seq (concerns fold ns) a s.tail.server.committed)) := by
    refine hs.reflects.suffix ⟨rowChanges L before, ?_⟩
    rw [← rowChanges_append, hbefore]
    rfl
  rw [hnew, after_append, hafter, rowChanges_append]
  exact (replay_append_of_reflects hreflects).trans hrows.symm

end Following

/-- Documents of strings are found under their keys. -/
lemma Libbson.ofStrings_keepsKeys : Libbson.ofStrings.KeepsKeys := by
  intro doc json id key hto hid hexact hkey
  simp only [Libbson.ofStrings, except_bind_eq_ok, except_pure_eq_ok] at hto
  obtain ⟨fields, hfields, rfl⟩ := hto
  obtain ⟨s, rfl, hmember⟩ : ∃ s, id = .utf8 s ∧ (Json.obj fields).extractId = some (.str s) := by
    clear hexact hkey
    induction doc generalizing fields with
    | nil => cases hid
    | cons field doc ih =>
      obtain ⟨name, v⟩ := field
      simp only [List.mapM_cons, except_bind_eq_ok, except_pure_eq_ok] at hfields
      obtain ⟨member, hmember, members, hmembers, rfl⟩ := hfields
      cases v with
      | utf8 s =>
        obtain rfl := Except.ok.inj hmember
        by_cases hname : name = idName
        · subst hname
          obtain rfl : Value.utf8 s = id := by simpa [findField] using hid
          exact ⟨s, rfl, by simp [Json.extractId, idName]⟩
        · obtain ⟨s', hs', hmem⟩ := ih (by simpa [findField, hname] using hid) members hmembers
          refine ⟨s', hs', ?_⟩
          rw [← hmem]
          have hne : ¬ name = "_id".toList := hname
          simp only [Json.extractId, List.find?_cons, decide_eq_false hne]
      | _ => cases hmember
  have hdocument : documentKey (.obj fields) = .obj [(idName, .str s)] := by
    rw [documentKey, hmember]
    rfl
  rw [keyOf, hdocument]
  change ((encodeId (.utf8 s)).toOption) = some key
  rw [hkey]
  rfl

/-- A collection. -/
def replicaNs : Namespace := ⟨"a".toList, "b".toList⟩

/-- A document of it. -/
def replicaRow (x : String) : Row :=
  ⟨replicaNs, tagString :: "k".toList,
    .obj [(idName, .str "k".toList), ("x".toList, .str x.toList)]⟩

/-- A stream is opened on the collection, a document is inserted, and a `getMore` delivers it. -/
def followRun : List ReplicationAction :=
  [.other (.resolveStart 2 "a.b".toList .head), .other (.checkStart 2),
    .write 1 (.insert (replicaRow "1")) 10 fun _ => 0, .other (.server (.commit 1)),
    .other (.getMore 2 1 "a.b".toList 2), .other (.sampleHead 2), .other (.select 2),
    .other (.check 2), .other (.advance 2), .other (.reply 2)]

/-- A second stream is opened after the event of the insert, the document is replaced, and a
`getMore` delivers it. -/
def resumeRun : List ReplicationAction :=
  [.other (.resolveStart 2 "a.b".toList (.token 1)), .other (.checkStart 2),
    .write 1 (.replace (replicaRow "2")) 11 fun _ => 0, .other (.server (.commit 1)),
    .other (.getMore 2 2 "a.b".toList 2), .other (.sampleHead 2), .other (.select 2),
    .other (.check 2), .other (.advance 2), .other (.reply 2)]

/-- An insert sends the first statement, and an update of everything the second, after it has read
the document. -/
lemma sent_followRun : ∀ a ∈ followRun ++ resumeRun, a.Sent .ofStrings id replicaNs := by
  let document : Doc := [(idName, .utf8 "k".toList), ("x".toList, .utf8 "1".toList)]
  let update : Doc := [("$set".toList, .document [("x".toList, .utf8 "2".toList)])]
  have hinsert : (ReplicationAction.write 1 (.insert (replicaRow "1")) 10 fun _ => 0).Sent
      .ofStrings id replicaNs :=
    ⟨replicaNs, .insert document 0, [], _, .nil _, rfl, fun _ => rfl⟩
  have hreplace : (ReplicationAction.write 1 (.replace (replicaRow "2")) 11 fun _ => 0).Sent
      .ofStrings id replicaNs :=
    ⟨replicaNs, .update [] update false false 0, [⟨.tableExists replicaNs, true⟩,
      ⟨.tableExists replicaNs, true⟩, ⟨.select replicaNs _ none, [replicaRow "1"]⟩], _,
      .cons (.cons (.cons (.nil _))), rfl, fun _ => rfl⟩
  simp only [followRun, resumeRun, List.cons_append, List.nil_append, List.forall_mem_cons,
    ReplicationAction.Sent, true_and]
  exact ⟨hinsert, hreplace, List.forall_mem_nil _⟩

/-- An empty collection on a new oplog. -/
lemma begun_newOplog : ReplicatedServer.Begun .ofStrings id replicaNs newOplog [] :=
  ⟨newOplog_installed, nofun, ⟨nofun, List.nodup_nil⟩, reflects_nil⟩

/-- All `getMore` calls are those of one connection. -/
lemma called_followRun : ∀ a ∈ followRun, ∀ b, a = .other b → ∀ other ∈ b.caller, other = 2 := by
  simp [followRun, SessionAction.caller]

/-- So they are later. -/
lemma called_resumeRun : ∀ a ∈ resumeRun, ∀ b, a = .other b → ∀ other ∈ b.caller, other = 2 := by
  simp [resumeRun, SessionAction.caller]

/-- No call of these streams fails with a page, and their `getMore` calls have nothing pending. -/
def Undisturbed (id : ℕ) (s : ReplicatedServer) : ReplicationAction → Prop
  | .other a => s.tail.InAutocommit id a ∧ s.tail.Replies id a
  | .write _ _ _ _ => True

instance Undisturbed.decidable (id : ℕ) (s : ReplicatedServer) :
    (a : ReplicationAction) → Decidable (Undisturbed id s a)
  | .other a => inferInstanceAs (Decidable (s.tail.InAutocommit id a ∧ s.tail.Replies id a))
  | .write _ _ _ _ => .isTrue trivial

/-- The calls of a single connection are made one at a time, so that these streams are followed. -/
lemma followed_of_caller {S : SqlServer} {s t : ReplicatedServer} {as : List ReplicationAction}
    {guard : ReplicatedServer → ReplicationAction → Prop} {conn : ℕ}
    (hs : s.tail.CalledBy conn) (h : Run (ReplicatedServer.step S) guard s as t)
    (has : ∀ a ∈ as, ∀ b, a = .other b → ∀ other ∈ b.caller, other = conn) :
    t.tail.CalledBy conn ∧ Run (ReplicatedServer.step S) (fun s a => guard s a ∧
      ∀ id, Undisturbed id s a → Followed id s a) s as t := by
  have hstep : ∀ (s : ReplicatedServer) (a : ReplicationAction) (s' : ReplicatedServer),
      s.tail.CalledBy conn →
      ((∀ b, a = .other b → ∀ other ∈ b.caller, other = conn) ∧ guard s a) →
      s.step S a = some s' → s'.tail.CalledBy conn ∧
        (guard s a ∧ ∀ id, Undisturbed id s a → Followed id s a) := by
    intro s a s' hs hg hstep
    obtain ⟨bs, hrun⟩ := ReplicatedServer.step_tail
      (G := fun _ b => ∀ other ∈ b.caller, other = conn) hg.1 (fun _ _ _ _ h => by cases h) hstep
    refine ⟨hrun.invariant (fun _ _ _ hs hb hst => (hs.step hb hst).1) hs, hg.2, fun id hid => ?_⟩
    cases a with
    | write conn q now gap => trivial
    | other b =>
      obtain ⟨rows, htail, -⟩ := ReplicatedServer.step_other hstep
      exact ⟨(hs.step (hg.1 b rfl) htail).2 id, hid⟩
  have hguarded := h.and_forall_mem has
  exact ⟨hguarded.invariant (fun s a s' hs hg hst => (hstep s a s' hs hg hst).1) hs,
    (hguarded.strengthen hstep hs).mono fun _ _ hg => hg.2⟩

/-- **Replicas follow.**  In every run of any writers' transactions, prune passes, streams and other
connections: a client reads a collection (in `s`), and carries out the events of a change stream on
it that was opened no later.  When the stream has come to a state (`t`), the client holds the
collection as it was then, whatever has happened since, once it has carried out what the stream has
delivered and the page that it is about to reply with. -/
theorem replica_follows {L : Libbson} {S : SqlServer} {fold : Text → Text} {ns : Namespace}
    {server : OplogServer} {rows : List Row} {s t u : ReplicatedServer}
    {as bs cs : List ReplicationAction} {id start : ℕ} {entry : RegistryEntry}
    {due : List OplogRow} (hL : L.KeepsKeys)
    (hbegun : ReplicatedServer.Begun L fold ns server rows)
    (hs : Run (ReplicatedServer.step S) (fun s a => KeyedWrites L fold ns s a ∧ Followed id s a)
      (.start fold server rows) as s)
    (ht : Run (ReplicatedServer.step S) (fun s a => KeyedWrites L fold ns s a ∧ Followed id s a)
      s bs t)
    (hu : Run (ReplicatedServer.step S) (fun s a => KeyedWrites L fold ns s a ∧ Followed id s a)
      t cs u)
    (hopened : u.tail.opened id = .openingStream ns.text start)
    (hentry : u.tail.cursors id = some entry) (hdue : u.tail.Due id due)
    (hstart : ∀ r ∈ u.tail.server.committed, fold r.ns = fold ns.text → r.seq ≤ start →
      r ∈ s.tail.server.committed)
    (hpos : ∀ r ∈ u.tail.server.committed, fold r.ns = fold ns.text →
      (r.seq ≤ entry.tail.afterSeq ↔ r ∈ t.tail.server.committed)) :
    follow L (contents ns s.rows) ((u.tail.deliveredBy id ++ due).map eventExpr) =
      contents ns t.rows := by
  obtain ⟨hsTracks, -⟩ := hbegun.tracks.run hL hs fun _ _ hg => hg.1
  obtain ⟨htTracks, hst⟩ := hsTracks.run hL ht fun _ _ hg => hg.1
  obtain ⟨huTracks, new, hnew, -⟩ := htTracks.run hL hu fun _ _ hg => hg.1
  obtain ⟨hspan, hcommitted⟩ := ReplicatedServer.spans_of_followed hbegun.installed
    ((hs.append ht).append hu) (fun _ _ hg => hg.2) huTracks.fold_eq hopened hentry hdue
  rw [eq_after huTracks hnew hspan hcommitted hpos, follow_map_eventExpr]
  exact replay_after hsTracks htTracks hst fun r hr =>
    hstart r (hnew ▸ List.mem_append_left _ hr)

/-- The client of that stream, which began with nothing, holds the document. -/
theorem replica_follows_followRun :
    ∃ u, Run (ReplicatedServer.step .ofStrings)
        (fun s a => KeyedWrites .ofStrings id replicaNs s a ∧ Followed 1 s a)
        (.start id newOplog []) followRun u ∧
      contents replicaNs u.rows (tagString :: "k".toList) = some (replicaRow "1").doc ∧
      follow .ofStrings (contents replicaNs []) ((u.tail.deliveredBy 1 ++ []).map eventExpr) =
        contents replicaNs u.rows := by
  obtain ⟨u, hu, hopened, entry, hentry, hpos, hcommitted, hrows, hquiet⟩ : ∃ u,
      Run (ReplicatedServer.step .ofStrings) (Undisturbed 1) (.start id newOplog []) followRun u ∧
      u.tail.opened 1 = .openingStream replicaNs.text 0 ∧
      ∃ entry, u.tail.cursors 1 = some entry ∧ entry.tail.afterSeq = 1 ∧
        u.tail.server.committed.map OplogRow.seq = [1] ∧ u.rows = [replicaRow "1"] ∧
        ∀ conn page, u.tail.commands conn ≠ .replying 1 page := by
    refine ⟨_, run_of_runActions rfl, rfl, _, rfl, rfl, rfl, rfl, fun conn page => ?_⟩
    simp [TailSessions.setCommand, TailSessions.register, ReplicatedServer.start]
  have hcalled := (ReplicatedServer.started_start newOplog_installed id []).calledBy 2
  obtain ⟨-, hcalls⟩ := followed_of_caller hcalled hu called_followRun
  have hrun : Run (ReplicatedServer.step .ofStrings)
      (fun s a => KeyedWrites .ofStrings id replicaNs s a ∧ Followed 1 s a)
      (.start id newOplog []) followRun u :=
    (hcalls.and_forall_mem fun a ha => (sent_followRun a (List.mem_append_left _ ha)).keyed).mono
      fun s a hg => ⟨hg.1, hg.2.2 1 hg.2.1⟩
  have hseq (r : OplogRow) (hr : r ∈ u.tail.server.committed) : r.seq = 1 := by
    simpa [hcommitted] using List.mem_map_of_mem (f := OplogRow.seq) hr
  refine ⟨u, hrun, by rw [hrows]; rfl, ?_⟩
  refine replica_follows Libbson.ofStrings_keepsKeys begun_newOplog (.nil _) hrun (.nil _) hopened
    hentry (.inr ⟨rfl, hquiet⟩) (fun r hr _ hle => ?_) fun r hr _ => ?_
  · have hone := hseq r hr
    omega
  · rw [hpos]
    exact iff_of_true (hseq r hr).le hr

/-- **Replicas survive a crash of the client.**  A client that follows a stream fails, after it has
carried out some of the events the stream has delivered (`done`).  It resumes, with a second stream,
after any event it has carried out; it need not be the last one, so that some events are carried
out twice.  When the second stream has come to a state (`t`), the client holds the collection as it
was then. -/
theorem replica_resumes {L : Libbson} {S : SqlServer} {fold : Text → Text} {ns : Namespace}
    {server : OplogServer} {rows : List Row} {s v t u : ReplicatedServer}
    {as bs cs ds : List ReplicationAction} {id id' start : ℕ} {entry entry' : RegistryEntry}
    {due due' : List OplogRow} {done : List Json} {event : Json} {token : UInt64}
    (hL : L.KeepsKeys) (hbegun : ReplicatedServer.Begun L fold ns server rows)
    (hs : Run (ReplicatedServer.step S)
      (fun s a => KeyedWrites L fold ns s a ∧ Followed id s a ∧ Followed id' s a)
      (.start fold server rows) as s)
    (hv : Run (ReplicatedServer.step S)
      (fun s a => KeyedWrites L fold ns s a ∧ Followed id s a ∧ Followed id' s a) s bs v)
    (ht : Run (ReplicatedServer.step S) (fun s a => KeyedWrites L fold ns s a ∧ Followed id' s a)
      v cs t)
    (hu : Run (ReplicatedServer.step S) (fun s a => KeyedWrites L fold ns s a ∧ Followed id' s a)
      t ds u)
    (hopened : v.tail.opened id = .openingStream ns.text start)
    (hentry : v.tail.cursors id = some entry) (hdue : v.tail.Due id due)
    (hstart : ∀ r ∈ v.tail.server.committed, fold r.ns = fold ns.text → r.seq ≤ start →
      r ∈ s.tail.server.committed)
    (hdone : done <+: (v.tail.deliveredBy id).map eventExpr) (hevent : event ∈ done)
    (htoken : jsonAt event ["_id".toList, "_data".toList] = some (.str (encodeResumeToken token)))
    (hopened' : u.tail.opened id' = .openingStream ns.text token.toNat)
    (hentry' : u.tail.cursors id' = some entry') (hdue' : u.tail.Due id' due')
    (hpos : ∀ r ∈ u.tail.server.committed, fold r.ns = fold ns.text →
      (r.seq ≤ entry'.tail.afterSeq ↔ r ∈ t.tail.server.committed)) :
    follow L (follow L (contents ns s.rows) done)
      ((u.tail.deliveredBy id' ++ due').map eventExpr) = contents ns t.rows := by
  obtain ⟨hsTracks, -⟩ := hbegun.tracks.run hL hs fun _ _ hg => hg.1
  obtain ⟨hvTracks, hsv⟩ := hsTracks.run hL hv fun _ _ hg => hg.1
  obtain ⟨htTracks, hvt⟩ := hvTracks.run hL ht fun _ _ hg => hg.1
  obtain ⟨huTracks, new, hnew, -⟩ := htTracks.run hL hu fun _ _ hg => hg.1
  have hst := hsv.trans hvt
  obtain ⟨newv, hnewv, -⟩ := hvt
  have hseqt := htTracks.sequenced
  -- the first stream, which has handed out what it selects up to where it was
  obtain ⟨hspan, hcommitted⟩ := ReplicatedServer.spans_of_followed hbegun.installed
    (hs.append hv) (fun _ _ hg => hg.2.1) hvTracks.fold_eq hopened hentry hdue
  have hlater : v.tail.server.committed ⊆ t.tail.server.committed :=
    hnewv ▸ List.subset_append_left _ _
  have hgiven : done <+: (v.tail.deliveredBy id ++ due).map eventExpr := by
    rw [List.map_append]
    exact hdone.trans (List.prefix_append _ _)
  obtain ⟨carried, rest, rfl, hsub, hafter⟩ := exists_rows_of_prefix htTracks
    (ReplicatedServer.spans_run ht hspan) (List.Subset.trans hcommitted hlater) hgiven
  obtain ⟨r, hr, rfl⟩ := List.mem_map.1 hevent
  have hrv : r ∈ v.tail.server.committed := hcommitted (hsub hr)
  have htoken : r.seq = token.toNat :=
    seq_of_token (hvTracks.fits r (List.mem_append_left _ hrv)) htoken
  -- the second stream begins inside of what was carried out
  obtain ⟨again, hagain, hafter'⟩ := after_eq_append hseqt hafter hr
  have hwhole : Run (ReplicatedServer.step S)
      (fun s a => KeyedWrites L fold ns s a ∧ Followed id' s a) (.start fold server rows)
      (as ++ bs ++ cs ++ ds) u :=
    (((hs.append hv).mono fun _ _ hg => ⟨hg.1, hg.2.2⟩).append ht).append hu
  obtain ⟨hspan', hcommitted'⟩ := ReplicatedServer.spans_of_followed hbegun.installed hwhole
    (fun _ _ hg => hg.2) huTracks.fold_eq hopened' hentry' hdue'
  rw [eq_after huTracks hnew hspan' hcommitted' hpos, ← htoken, hafter', follow_map_eventExpr,
    follow_map_eventExpr, rowChanges_append]
  have hreflects : Reflects (replay (contents ns s.rows) (rowChanges L carried))
      (rowChanges L again) := by
    refine hsTracks.reflects.append.suffix (List.IsSuffix.trans ?_ (List.suffix_append _ _))
    exact hagain.filterMap _
  rw [replay_append_of_reflects hreflects, ← replay_append, ← rowChanges_append, ← hafter]
  refine replay_after hsTracks htTracks hst fun r' hr' hns' hle => ?_
  obtain hmem | hmem := List.mem_append.1 (hnewv ▸ hr')
  · exact hstart r' hmem hns' hle
  · -- what was committed after the first stream was opened is beyond its start
    have hlt : r.seq < r'.seq := by
      rw [hnewv] at hseqt
      exact (Sequenced.append_iff.1 hseqt).2.2 r hrv r' hmem
    have hbeyond : start < r.seq := (mem_after.1 (hafter ▸ List.mem_append_left _ hr)).2.1
    omega

/-- A client that fails after the insert, and resumes after it, holds the document that has replaced
it. -/
theorem replica_resumes_resumeRun :
    ∃ v u, Run (ReplicatedServer.step .ofStrings)
        (fun s a => KeyedWrites .ofStrings id replicaNs s a ∧ Followed 1 s a ∧ Followed 2 s a)
        (.start id newOplog []) followRun v ∧
      Run (ReplicatedServer.step .ofStrings)
        (fun s a => KeyedWrites .ofStrings id replicaNs s a ∧ Followed 2 s a) v resumeRun u ∧
      contents replicaNs u.rows (tagString :: "k".toList) = some (replicaRow "2").doc ∧
      follow .ofStrings
          (follow .ofStrings (contents replicaNs []) ((v.tail.deliveredBy 1).map eventExpr))
          ((u.tail.deliveredBy 2 ++ []).map eventExpr) = contents replicaNs u.rows := by
  obtain ⟨v, hv, hopened, entry, hentry, event, hdelivered, htoken, hcommitted, hquiet, u, hu,
      hopened', entry', hentry', hpos, hcommitted', hrows, hquiet'⟩ : ∃ v,
      Run (ReplicatedServer.step .ofStrings) (fun s a => Undisturbed 1 s a ∧ Undisturbed 2 s a)
        (.start id newOplog []) followRun v ∧
      v.tail.opened 1 = .openingStream replicaNs.text 0 ∧
      ∃ entry, v.tail.cursors 1 = some entry ∧
        ∃ event, (v.tail.deliveredBy 1).map eventExpr = [event] ∧
        jsonAt event ["_id".toList, "_data".toList] = some (.str (encodeResumeToken 1)) ∧
        v.tail.server.committed.map OplogRow.seq = [1] ∧
        (∀ conn page, v.tail.commands conn ≠ .replying 1 page) ∧
      ∃ u, Run (ReplicatedServer.step .ofStrings) (Undisturbed 2) v resumeRun u ∧
      u.tail.opened 2 = .openingStream replicaNs.text (1 : UInt64).toNat ∧
      ∃ entry', u.tail.cursors 2 = some entry' ∧ entry'.tail.afterSeq = 2 ∧
        u.tail.server.committed.map OplogRow.seq = [1, 2] ∧ u.rows = [replicaRow "2"] ∧
        ∀ conn page, u.tail.commands conn ≠ .replying 2 page := by
    refine ⟨_, run_of_runActions rfl, rfl, _, rfl, _, rfl, rfl, rfl, fun conn page => ?_,
      _, run_of_runActions rfl, rfl, _, rfl, rfl, rfl, rfl, fun conn page => ?_⟩
    · simp [TailSessions.setCommand, TailSessions.register, ReplicatedServer.start]
    · simp [TailSessions.setCommand, TailSessions.register, ReplicatedServer.start]
  have hcalled := (ReplicatedServer.started_start newOplog_installed id []).calledBy 2
  obtain ⟨hcalled', hcalls⟩ := followed_of_caller hcalled hv called_followRun
  obtain ⟨-, hcalls'⟩ := followed_of_caller hcalled' hu called_resumeRun
  have hfollow : Run (ReplicatedServer.step .ofStrings)
      (fun s a => KeyedWrites .ofStrings id replicaNs s a ∧ Followed 1 s a ∧ Followed 2 s a)
      (.start id newOplog []) followRun v :=
    (hcalls.and_forall_mem fun a ha => (sent_followRun a (List.mem_append_left _ ha)).keyed).mono
      fun s a hg => ⟨hg.1, hg.2.2 1 hg.2.1.1, hg.2.2 2 hg.2.1.2⟩
  have hresume : Run (ReplicatedServer.step .ofStrings)
      (fun s a => KeyedWrites .ofStrings id replicaNs s a ∧ Followed 2 s a) v resumeRun u :=
    (hcalls'.and_forall_mem fun a ha => (sent_followRun a (List.mem_append_right _ ha)).keyed).mono
      fun s a hg => ⟨hg.1, hg.2.2 2 hg.2.1⟩
  refine ⟨v, u, hfollow, hresume, by rw [hrows]; rfl, ?_⟩
  refine replica_resumes Libbson.ofStrings_keepsKeys begun_newOplog (.nil _) hfollow hresume
    (.nil _) hopened hentry (.inr ⟨rfl, hquiet⟩) (fun r hr _ hle => ?_) (List.prefix_refl _)
    (hdelivered ▸ List.mem_cons_self) htoken hopened' hentry' (.inr ⟨rfl, hquiet'⟩)
    fun r hr _ => ?_
  · have hone : r.seq = 1 := by
      simpa [hcommitted] using List.mem_map_of_mem (f := OplogRow.seq) hr
    omega
  · have htwo : r.seq = 1 ∨ r.seq = 2 := by
      simpa [hcommitted'] using List.mem_map_of_mem (f := OplogRow.seq) hr
    rw [hpos]
    exact iff_of_true (by omega) hr

end Chimera
