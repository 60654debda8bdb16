import Chimera.Plugin.Interleaving
import Chimera.Plugin.KeyAgreement
import Mathlib.Data.List.Permutation

/-!
# Serial orders of write commands

The commands that commit can be put in a serial order with the same rows at the end, as long as
no transaction that has written commits after its reads went stale.  A transaction that has
written is put where it commits: its locks keep the slots it wrote to as it found them, so that
its record replays on the rows of that moment.  A transaction that has only read is put where its
snapshot was taken.
-/

namespace Chimera

open Interaction StepSystem

/-! ## The content of a slot -/

/-- The rows in a slot. -/
def content (slot : Namespace × Text) (rows : List Row) : List Row := rows.filter (Row.isAt slot)

/-- A slot is taken when it has content. -/
lemma any_isAt_iff_content {slot : Namespace × Text} {rows : List Row} :
    rows.any (Row.isAt slot) = !(content slot rows).isEmpty := by
  induction rows with
  | nil => rfl
  | cons r rows ih =>
    by_cases h : r.isAt slot = true
    · simp [content, h]
    · simpa [content, h] using ih

/-- Inserting a row leaves the other slots alone. -/
lemma content_insertRow_of_ne {slot : Namespace × Text} {row : Row} (h : row.slot ≠ slot)
    (rows : List Row) : content slot (insertRow row rows) = content slot rows := by
  have hrow : row.isAt slot = false := by simpa [Row.isAt] using h
  induction rows with
  | nil => simp [insertRow, content, hrow]
  | cons r rows ih =>
    unfold insertRow
    split
    · simp [content, hrow]
    · simp only [content, List.filter_cons] at ih ⊢
      rw [ih]

/-- Inserting a row into an empty slot. -/
lemma content_insertRow_self {row : Row} {rows : List Row} (h : content row.slot rows = []) :
    content row.slot (insertRow row rows) = [row] := by
  have hperm := (insertRow_perm row rows).filter (Row.isAt row.slot)
  rw [List.filter_cons_of_pos (Row.isAt_iff.2 rfl)] at hperm
  rw [show rows.filter (Row.isAt row.slot) = [] from h] at hperm
  exact List.perm_singleton.1 hperm

/-- Replacing a document keeps every row where it is. -/
lemma content_replaceRow (slot : Namespace × Text) (row : Row) (rows : List Row) :
    content slot (replaceRow row rows) = replaceRow row (content slot rows) := by
  have hslot (r : Row) : (if r.slot = row.slot then { r with doc := row.doc } else r).isAt slot =
      r.isAt slot := by split <;> rfl
  simp only [content, replaceRow, List.filter_map]
  congr 1
  exact List.filter_congr fun r _ => hslot r

/-- Replacing a document in another slot changes nothing here. -/
lemma content_replaceRow_of_ne {slot : Namespace × Text} {row : Row} (h : row.slot ≠ slot)
    (rows : List Row) : content slot (replaceRow row rows) = content slot rows := by
  rw [content_replaceRow]
  refine (List.map_congr_left fun r hr => ?_).trans (List.map_id _)
  have hslot : r.slot = slot := Row.isAt_iff.1 (List.mem_filter.1 hr).2
  rw [if_neg fun heq => h (heq.symm.trans hslot), id]

/-- Replacing a document in a slot where no row is. -/
lemma replaceRow_of_empty {row : Row} {rows : List Row}
    (h : rows.any (Row.isAt row.slot) = false) : replaceRow row rows = rows := by
  refine (List.map_congr_left fun r hr => ?_).trans (List.map_id _)
  rw [List.any_eq_false] at h
  rw [if_neg fun heq => h r hr (Row.isAt_iff.2 heq), id]

/-- Deleting a row leaves the other slots alone. -/
lemma content_deleteRow_of_ne {slot slot' : Namespace × Text} (h : slot' ≠ slot)
    (rows : List Row) : content slot (deleteRow slot' rows) = content slot rows := by
  simp only [content, deleteRow, List.filter_filter]
  refine List.filter_congr fun r _ => ?_
  by_cases hr : r.slot = slot
  · simp [Row.isAt, hr, h.symm]
  · simp [Row.isAt, hr]

/-- Deleting a row empties its slot. -/
lemma content_deleteRow_self (slot : Namespace × Text) (rows : List Row) :
    content slot (deleteRow slot rows) = [] := by
  simp only [content, deleteRow, List.filter_filter]
  exact List.filter_eq_nil_iff.2 fun r _ => by simp

/-- Deleting from a slot where no row is. -/
lemma deleteRow_of_empty {slot : Namespace × Text} {rows : List Row}
    (h : rows.any (Row.isAt slot) = false) : deleteRow slot rows = rows := by
  rw [List.any_eq_false] at h
  refine List.filter_eq_self.2 fun r hr => ?_
  rw [Bool.not_eq_true']
  exact Bool.eq_false_iff.2 (h r hr)

/-! ## Effects are local -/

/-- A write that found no row changes nothing. -/
lemma Effect.apply_of_isMiss {e : Effect} (h : e.isMiss = true) (rows : List Row) :
    e.apply rows = rows := by
  cases e with
  | miss slot => rfl
  | _ => cases h

/-- An effect leaves the other slots alone. -/
lemma content_apply_of_ne {slot : Namespace × Text} {e : Effect} (h : e.slot ≠ slot)
    (rows : List Row) : content slot (e.apply rows) = content slot rows := by
  cases e with
  | store row =>
    simp only [Effect.apply]
    split
    · exact content_replaceRow_of_ne h rows
    · exact content_insertRow_of_ne h rows
  | drop slot' => exact content_deleteRow_of_ne h rows
  | miss slot' => rfl

/-- What an effect makes of a slot depends on the slot only. -/
lemma content_apply_congr {slot : Namespace × Text} (e : Effect) {rows rows' : List Row}
    (h : content slot rows = content slot rows') :
    content slot (e.apply rows) = content slot (e.apply rows') := by
  by_cases hslot : e.slot = slot
  · subst hslot
    cases e with
    | store row =>
      have h' : content row.slot rows = content row.slot rows' := h
      simp only [Effect.apply, Effect.slot, any_isAt_iff_content, h']
      split
      · rw [content_replaceRow, content_replaceRow, h']
      · rename_i hempty
        have hnil : content row.slot rows' = [] := by simpa using hempty
        rw [content_insertRow_self hnil, content_insertRow_self (h'.trans hnil)]
    | drop slot => rw [Effect.apply, Effect.apply, Effect.slot, content_deleteRow_self,
        content_deleteRow_self]
    | miss slot => exact h
  · rw [content_apply_of_ne hslot, content_apply_of_ne hslot, h]

/-- Effects that only miss in a slot leave it alone. -/
lemma content_applyEffects {slot : Namespace × Text} {effects : List Effect}
    (h : ∀ e ∈ effects, e.slot = slot → e.isMiss = true) (rows : List Row) :
    content slot (applyEffects effects rows) = content slot rows := by
  induction effects generalizing rows with
  | nil => rfl
  | cons e effects ih =>
    have hone : content slot (e.apply rows) = content slot rows := by
      by_cases hslot : e.slot = slot
      · rw [Effect.apply_of_isMiss (h e List.mem_cons_self hslot)]
      · exact content_apply_of_ne hslot rows
    exact (ih (fun e' he' => h e' (List.mem_cons_of_mem _ he')) _).trans hone

/-! ## Statements -/

/-- A read changes nothing. -/
lemma handler_read {S : SqlServer} {q : Request} {r : q.Answer} {rows rows' : List Row}
    (hq : q.isRead = true) (h : S.handler q rows = .ok (r, rows')) : rows' = rows := by
  unfold SqlServer.handler at h
  split at h
  · cases h
  · cases q with
    | tableExists ns => exact (Prod.mk.inj (Except.ok.inj h)).2.symm
    | select ns cond limit =>
      simp only [SqlServer.perform] at h
      split at h
      · exact (Prod.mk.inj (Except.ok.inj h)).2.symm
      · cases h
    | _ => cases hq

/-- The effect of a write depends on its slot only. -/
lemma effect_congr {q : Request} {e : Effect} {rows rows' : List Row}
    (h : q.effect rows = some e) (hcontent : content e.slot rows = content e.slot rows') :
    q.effect rows' = some e := by
  cases q with
  | insert row => exact h
  | replace row =>
    obtain rfl := Option.some.inj h
    have hslot : (if rows.any (Row.isAt row.slot) then Effect.store row
        else .miss row.slot).slot = row.slot := by split <;> rfl
    rw [hslot] at hcontent
    simp only [Request.effect, any_isAt_iff_content, hcontent]
  | delete ns key =>
    obtain rfl := Option.some.inj h
    have hslot : (if rows.any (Row.isAt (ns, key)) then Effect.drop (ns, key)
        else .miss (ns, key)).slot = (ns, key) := by split <;> rfl
    rw [hslot] at hcontent
    simp only [Request.effect, any_isAt_iff_content, hcontent]
  | _ => cases h

/-- A write by key carries out its effect. -/
lemma handler_write {S : SqlServer} {q : Request} {r : q.Answer} {e : Effect}
    {rows rows' : List Row} (he : q.effect rows = some e)
    (h : S.handler q rows = .ok (r, rows')) : rows' = e.apply rows := by
  unfold SqlServer.handler at h
  split at h
  · cases h
  · cases q with
    | insert row =>
      obtain rfl := Option.some.inj he
      simp only [SqlServer.perform] at h
      split at h
      · cases h
      split at h
      · cases h
      · rename_i hfree
        obtain ⟨-, rfl⟩ := Prod.mk.inj (Except.ok.inj h)
        rw [Effect.apply, if_neg hfree]
    | replace row =>
      obtain rfl := Option.some.inj he
      obtain ⟨-, rfl⟩ := Prod.mk.inj (Except.ok.inj h)
      split
      · rename_i htaken
        rw [Effect.apply, if_pos htaken]
      · rename_i hfree
        exact replaceRow_of_empty (by simpa using hfree)
    | delete ns key =>
      obtain rfl := Option.some.inj he
      obtain ⟨-, rfl⟩ := Prod.mk.inj (Except.ok.inj h)
      split
      · rfl
      · rename_i hfree
        exact deleteRow_of_empty (by simpa using hfree)
    | _ => cases he

/-- The answer to a write depends on its slot only. -/
lemma handler_write_congr {S : SqlServer} {q : Request} {r : q.Answer} {e : Effect}
    {rows rows' : List Row} (he : q.effect rows = some e)
    (hcontent : content e.slot rows = content e.slot rows')
    (h : S.handler q rows = .ok (r, e.apply rows)) :
    S.handler q rows' = .ok (r, e.apply rows') := by
  have he' := effect_congr he hcontent
  obtain ⟨t, ht⟩ : ∃ t, S.handler q rows' = .ok (r, t) := by
    unfold SqlServer.handler at h ⊢
    split at h
    · cases h
    · rename_i hmisses
      rw [if_neg hmisses]
      cases q with
      | insert row =>
        obtain rfl := Option.some.inj he
        simp only [SqlServer.perform, Effect.slot, any_isAt_iff_content] at h hcontent ⊢
        rw [← hcontent]
        split at h
        · cases h
        split at h
        · cases h
        · rename_i hlong hfree
          obtain ⟨rfl, -⟩ := Prod.mk.inj (Except.ok.inj h)
          exact ⟨_, by rw [if_neg hlong, if_neg hfree]⟩
      | replace row => exact ⟨_, rfl⟩
      | delete ns key =>
        obtain rfl := Option.some.inj he
        have hslot : (if rows.any (Row.isAt (ns, key)) then Effect.drop (ns, key)
            else .miss (ns, key)).slot = (ns, key) := by split <;> rfl
        rw [hslot] at hcontent
        obtain ⟨rfl, -⟩ := Prod.mk.inj (Except.ok.inj h)
        refine ⟨deleteRow (ns, key) rows', ?_⟩
        simp only [SqlServer.perform, List.countP_eq_length_filter]
        rw [show rows.filter (Row.isAt (ns, key)) = rows'.filter (Row.isAt (ns, key)) from hcontent]
      | _ => cases he
  rw [ht, handler_write he' ht]

/-! ## Records and their effects -/

/-- The writes of the record, carried out from the given rows, get the answers they got and have
the given effects. -/
inductive Linked (S : SqlServer) :
    List Row → Record Request Request.Answer → List Effect → Prop
  | nil (rows : List Row) : Linked S rows [] []
  | read {rows : List Row} {q : Request} {r : q.Answer} {record : Record Request Request.Answer}
      {effects : List Effect} (hq : q.isRead = true) (h : Linked S rows record effects) :
      Linked S rows (⟨q, r⟩ :: record) effects
  | write {rows : List Row} {q : Request} {r : q.Answer} {e : Effect}
      {record : Record Request Request.Answer} {effects : List Effect} (hq : q.isRead = false)
      (he : q.effect rows = some e) (hr : S.handler q rows = .ok (r, e.apply rows))
      (h : Linked S (e.apply rows) record effects) :
      Linked S rows (⟨q, r⟩ :: record) (e :: effects)

namespace Linked

variable {S : SqlServer} {rows rows' : List Row} {record : Record Request Request.Answer}
  {effects : List Effect}

/-- The writes depend on the slots they are to only. -/
lemma congr (h : Linked S rows record effects)
    (hcontent : ∀ e ∈ effects, content e.slot rows = content e.slot rows') :
    Linked S rows' record effects := by
  induction h generalizing rows' with
  | nil => exact .nil _
  | read hq _ ih => exact .read hq (ih hcontent)
  | write hq he hr _ ih =>
    have hhead := hcontent _ List.mem_cons_self
    refine .write hq (effect_congr he hhead) (handler_write_congr he hhead hr) (ih fun e he => ?_)
    exact content_apply_congr _ (hcontent e (List.mem_cons_of_mem _ he))

/-- One more read. -/
lemma snoc_read (h : Linked S rows record effects) {q : Request} (hq : q.isRead = true)
    (r : q.Answer) : Linked S rows (record ++ [⟨q, r⟩]) effects := by
  induction h with
  | nil => exact .read hq (.nil _)
  | read hq' _ ih => exact .read hq' ih
  | write hq' he hr _ ih => exact .write hq' he hr ih

/-- One more write. -/
lemma snoc_write (h : Linked S rows record effects) {q : Request} {r : q.Answer} {e : Effect}
    (hq : q.isRead = false) (he : q.effect (applyEffects effects rows) = some e)
    (hr : S.handler q (applyEffects effects rows) =
      .ok (r, e.apply (applyEffects effects rows))) :
    Linked S rows (record ++ [⟨q, r⟩]) (effects ++ [e]) := by
  induction h with
  | nil => exact .write hq he hr (.nil _)
  | read hq' _ ih => exact .read hq' (ih he hr)
  | write hq' he' hr' _ ih => exact .write hq' he' hr' (ih he hr)

/-- A record without writes has no effect. -/
lemma effects_eq_nil (h : Linked S rows record effects)
    (hquiet : record.any (fun exchange => !exchange.1.isRead) = false) : effects = [] := by
  induction h with
  | nil => rfl
  | read _ _ ih =>
    rw [List.any_cons, Bool.or_eq_false_iff] at hquiet
    exact ih hquiet.2
  | write hq _ _ _ _ => simp [hq] at hquiet

/-- A record whose reads stand replays. -/
lemma replays {ι : Type} {C : Clients ι} (h : Linked C.S rows record effects)
    (hreads : C.ReadsStand rows record) :
    Replays C.S.handler rows record (applyEffects effects rows) := by
  induction h with
  | nil => exact .nil _
  | read hq _ ih =>
    rw [Clients.ReadsStand, if_pos hq] at hreads
    exact .cons hreads.1 (ih hreads.2)
  | write hq _ hr _ ih =>
    rw [Clients.ReadsStand, if_neg (by simp [hq])] at hreads
    exact .cons hr (ih (hreads _ _ hr))

end Linked

namespace Clients

variable {ι : Type} {C : Clients ι}

/-! ## Serial runs -/

/-- Serial runs follow one another. -/
lemma serialRun_append {order order' : List ι} {rows rows' : List Row} :
    C.SerialRun (order ++ order') rows rows' ↔
      ∃ mid, C.SerialRun order rows mid ∧ C.SerialRun order' mid rows' := by
  induction order generalizing rows with
  | nil => simp [SerialRun]
  | cons i order ih =>
    simp only [List.cons_append, SerialRun, ih]
    constructor
    · rintro ⟨outcome, mid, hrun, hreports, mid', h, h'⟩
      exact ⟨mid', ⟨outcome, mid, hrun, hreports, h⟩, h'⟩
    · rintro ⟨mid', ⟨outcome, mid, hrun, hreports, h⟩, h'⟩
      exact ⟨outcome, mid, hrun, hreports, mid', h, h'⟩

/-- A serial run has one end. -/
lemma serialRun_unique {order : List ι} {rows rows₁ rows₂ : List Row}
    (h₁ : C.SerialRun order rows rows₁) (h₂ : C.SerialRun order rows rows₂) : rows₁ = rows₂ := by
  induction order generalizing rows with
  | nil => exact h₁.trans h₂.symm
  | cons i order ih =>
    obtain ⟨outcome, mid, hrun, -, h₁⟩ := h₁
    obtain ⟨outcome', mid', hrun', -, h₂⟩ := h₂
    obtain ⟨-, rfl⟩ := Prod.mk.inj (Except.ok.inj (hrun.symm.trans hrun'))
    exact ih h₁ h₂

/-- The serial run passes the given rows on its way. -/
def Passes (C : Clients ι) (order : List ι) (rows mid : List Row) : Prop :=
  ∃ before after, order = before ++ after ∧ C.SerialRun before rows mid

/-- A longer run passes what a shorter one does. -/
lemma Passes.append {order : List ι} {rows mid : List Row} (h : C.Passes order rows mid)
    (order' : List ι) : C.Passes (order ++ order') rows mid := by
  obtain ⟨before, after, rfl, hrun⟩ := h
  exact ⟨before, after ++ order', List.append_assoc _ _ _, hrun⟩

/-- **Putting in a command that changes nothing.**  The run has the same end, and passes all that
it passed. -/
theorem serialRun_insert {i : ι} {order : List ι} {rows rows' mid : List Row}
    {outcome : WriteOutcome} (h : C.SerialRun order rows rows') (hmid : C.Passes order rows mid)
    (hrun : (C.body i).run C.S.handler mid = .ok (outcome, mid))
    (hreports : (C.command i).2.reports outcome = true) :
    ∃ order', order'.Perm (i :: order) ∧ C.SerialRun order' rows rows' ∧
      ∀ other, C.Passes order rows other → C.Passes order' rows other := by
  obtain ⟨before, after, rfl, hbefore⟩ := hmid
  obtain ⟨mid', hbefore', hafter⟩ := serialRun_append.1 h
  obtain rfl := serialRun_unique hbefore hbefore'
  refine ⟨before ++ i :: after, List.perm_middle, serialRun_append.2
    ⟨mid, hbefore, outcome, mid, hrun, hreports, hafter⟩, ?_⟩
  rintro other ⟨before', after', heq, hother⟩
  obtain ⟨gap, rfl, rfl⟩ | ⟨gap, rfl, rfl⟩ := List.append_eq_append_iff.1 heq
  · obtain ⟨mid', hmid', hgap⟩ := serialRun_append.1 hother
    obtain rfl := serialRun_unique hbefore hmid'
    exact ⟨before ++ i :: gap, after', by simp, serialRun_append.2
      ⟨mid, hbefore, outcome, mid, hrun, hreports, hgap⟩⟩
  · exact ⟨before', gap ++ i :: after, by simp, hother⟩

/-! ## The invariant -/

/-- What is kept of a transaction that is under way. -/
structure SessionInv (C : Clients ι) (rows : List Row) (order : List ι) (committed : List Row)
    (i : ι) (session : Session) : Prop where
  /-- The answers lead the command to where it is. -/
  follows : Follows (C.body i) session.record session.program ∨ ∃ e, session.program = .fail e
  /-- On the committed rows, the writes would have the answers and effects they had. -/
  linked : Linked C.S committed session.record session.effects
  /-- As long as there are only reads, they replay on the snapshot. -/
  quiet : session.wrote = false → ∀ mid, (∀ σ, session.snapshot = some σ → mid = σ) →
    Replays C.S.handler mid session.record mid
  /-- The snapshot is on the way of the serial run. -/
  snapshot : ∀ σ, session.snapshot = some σ → C.Passes order rows σ

/-- The commands that have committed, in a serial order. -/
structure Inv (C : Clients ι) (rows : List Row) (T : Tables ι) (order : List ι) : Prop where
  /-- No command runs twice. -/
  nodup : order.Nodup
  /-- The order consists of the commands that have committed. -/
  mem_iff : ∀ i, i ∈ order ↔ ∃ outcome, T.status i = .committed outcome
  /-- They have reported success. -/
  reports : ∀ i outcome, T.status i = .committed outcome →
    (C.command i).2.reports outcome = true
  /-- One after the other, they lead to the committed rows. -/
  serial : C.SerialRun order rows T.committed
  /-- The transactions that are under way. -/
  sessions : ∀ i session, T.status i = .active session →
    SessionInv C rows order T.committed i session
  /-- No two of them hold locks that conflict. -/
  locks : ∀ i j session session', i ≠ j → T.status i = .active session →
    T.status j = .active session' → ∀ e ∈ session.effects, ∀ e' ∈ session'.effects,
      ¬ e.Conflicts e'

/-- Nothing has happened yet. -/
lemma Inv.start (rows : List Row) : Inv C rows (start rows) [] where
  nodup := .nil
  mem_iff i := by simp [Clients.start]
  reports i outcome h := by cases h
  serial := rfl
  sessions i session h := by cases h
  locks i j session session' _ h := by cases h

/-! ## Statements -/

/-- A table exists or not, whatever its rows are. -/
lemma handler_tableExists {S : SqlServer} (ns : Namespace) (rows : List Row) :
    S.handler (.tableExists ns) rows = .ok (S.present ns, rows) := rfl

/-- A transaction has written when it had before, or when its last statement does. -/
lemma wrote_answered {session : Session} {q : Request} {next : q.Answer → SqlProgram WriteOutcome}
    {r : q.Answer} {snapshot : Option (List Row)} {effects : List Effect} :
    Session.wrote { session.answered next r with snapshot := snapshot, effects := effects } =
      (session.wrote || !q.isRead) := by
  simp [Session.wrote, Session.answered]

namespace SessionInv

variable {rows committed : List Row} {order : List ι} {i : ι} {session : Session} {q : Request}
  {next : q.Answer → SqlProgram WriteOutcome} {r : q.Answer}

/-- A transaction begins. -/
lemma begin : SessionInv C rows order committed i ⟨C.body i, none, [], []⟩ where
  follows := .inl (.nil _)
  linked := .nil _
  quiet _ mid _ := .nil mid
  snapshot σ h := by cases h

/-- A statement fails. -/
lemma fail (h : SessionInv C rows order committed i session) (e : TranslatorError) :
    SessionInv C rows order committed i { session with program := .fail e } where
  follows := .inr ⟨e, rfl⟩
  linked := h.linked
  quiet := h.quiet
  snapshot := h.snapshot

/-- The answers lead to the statement that comes next. -/
lemma follows_ask (h : SessionInv C rows order committed i session)
    (hp : session.program = .ask q next) : Follows (C.body i) session.record (.ask q next) := by
  obtain hf | ⟨e, he⟩ := h.follows
  · exact hp ▸ hf
  · cases hp.symm.trans he

/-- A read. -/
lemma read (h : SessionInv C rows order committed i session)
    (hserial : C.SerialRun order rows committed) (hp : session.program = .ask q next)
    (hq : q.isRead = true) {rows' : List Row}
    (hr : C.S.handler q (session.view committed) = .ok (r, rows')) :
    SessionInv C rows order committed i
      { session.answered next r with snapshot := session.snapshotAfter committed q } where
  follows := .inl ((h.follows_ask hp).snoc r)
  linked := h.linked.snoc_read hq r
  quiet hquiet mid hmid := by
    rw [wrote_answered, Bool.or_eq_false_iff] at hquiet
    have hview : session.view committed = session.snapshot.getD committed := by
      rw [Session.view, h.linked.effects_eq_nil hquiet.1]
      rfl
    rw [hview] at hr
    cases q with
    | tableExists ns =>
      refine (h.quiet hquiet.1 mid hmid).append (.cons ?_ (.nil _))
      rw [handler_tableExists] at hr ⊢
      rw [(Prod.mk.inj (Except.ok.inj hr)).1]
    | select ns cond limit =>
      obtain rfl : mid = session.snapshot.getD committed := hmid _ rfl
      have hold : ∀ σ, session.snapshot = some σ → session.snapshot.getD committed = σ := by
        rintro σ hσ
        rw [hσ]
        rfl
      refine (h.quiet hquiet.1 _ hold).append (.cons ?_ (.nil _))
      rw [hr, handler_read rfl hr]
    | _ => cases hq
  snapshot σ hσ := by
    cases q with
    | tableExists ns => exact h.snapshot σ hσ
    | select ns cond limit =>
      obtain rfl := Option.some.inj hσ
      cases hsnap : session.snapshot with
      | none => exact ⟨order, [], (List.append_nil _).symm, hserial⟩
      | some σ => exact h.snapshot σ hsnap
    | _ => cases hq

/-- A write. -/
lemma write (h : SessionInv C rows order committed i session)
    (hp : session.program = .ask q next) (hq : q.isRead = false) {effect : Effect}
    (he : q.effect (session.current committed) = some effect) {rows' : List Row}
    (hr : C.S.handler q (session.current committed) = .ok (r, rows')) :
    SessionInv C rows order committed i
      { session.answered next r with effects := session.effects ++ [effect] } where
  follows := .inl ((h.follows_ask hp).snoc r)
  linked := h.linked.snoc_write hq he (handler_write he hr ▸ hr)
  quiet hquiet := by
    rw [wrote_answered, hq, Bool.not_false, Bool.or_true] at hquiet
    cases hquiet
  snapshot := h.snapshot

/-- Another transaction commits, with effects that do not conflict. -/
lemma congr (h : SessionInv C rows order committed i session) {order' : List ι}
    {effects : List Effect}
    (hlocks : ∀ e ∈ session.effects, ∀ e' ∈ effects, ¬ e.Conflicts e')
    (hpasses : ∀ mid, C.Passes order rows mid → C.Passes order' rows mid) :
    SessionInv C rows order' (applyEffects effects committed) i session where
  follows := h.follows
  linked := by
    refine h.linked.congr fun e he => (content_applyEffects (fun e' he' hslot => ?_) _).symm
    have hmiss : e.isMiss ∧ e'.isMiss := by
      by_contra hn
      exact hlocks e he e' he' ⟨hslot.symm, hn⟩
    exact hmiss.2
  quiet := h.quiet
  snapshot σ hσ := hpasses σ (h.snapshot σ hσ)

end SessionInv

/-! ## Steps -/

/-- Conflicts are mutual. -/
lemma conflicts_symm {e e' : Effect} (h : e.Conflicts e') : e'.Conflicts e :=
  ⟨h.1.symm, fun hn => h.2 hn.symm⟩

variable {rows : List Row} {order : List ι} {i : ι}

/-- **The place of a commit.**  A transaction that has written goes to the end of the order, and
one that has only read to where its snapshot was taken. -/
theorem exists_order_of_commit {session : Session} {outcome : WriteOutcome}
    {committed : List Row} (hserial : C.SerialRun order rows committed)
    (hs : SessionInv C rows order committed i session) (hp : session.program = .done outcome)
    (hreads : session.wrote = true → C.ReadsStand committed session.record)
    (hreports : (C.command i).2.reports outcome = true) :
    ∃ order', order'.Perm (i :: order) ∧
      C.SerialRun order' rows (session.current committed) ∧
      ∀ mid, C.Passes order rows mid → C.Passes order' rows mid := by
  have hfollows : Follows (C.body i) session.record (.done outcome) := by
    obtain hf | ⟨e, he⟩ := hs.follows
    · exact hp ▸ hf
    · cases hp.symm.trans he
  cases hwrote : session.wrote with
  | true =>
    have hrun := run_of_follows hfollows (hs.linked.replays (hreads hwrote))
    refine ⟨order ++ [i], List.perm_append_singleton i order, serialRun_append.2
      ⟨committed, hserial, outcome, _, hrun, hreports, rfl⟩, fun mid hmid => hmid.append [i]⟩
  | false =>
    have hcurrent : session.current committed = committed := by
      rw [Session.current, hs.linked.effects_eq_nil hwrote]
      rfl
    rw [hcurrent]
    cases hsnap : session.snapshot with
    | none =>
      have hrun := run_of_follows hfollows (hs.quiet hwrote committed fun σ hσ => by
        cases hsnap.symm.trans hσ)
      exact serialRun_insert hserial ⟨order, [], (List.append_nil _).symm, hserial⟩ hrun hreports
    | some σ =>
      have hrun := run_of_follows hfollows (hs.quiet hwrote σ fun σ' hσ' =>
        Option.some.inj (hsnap.symm.trans hσ'))
      exact serialRun_insert hserial (hs.snapshot σ hsnap) hrun hreports

variable [DecidableEq ι] {T T' : Tables ι}

/-- A connection moves on without a commit. -/
lemma Inv.move (h : Inv C rows T order) {status : Status}
    (hold : ∀ outcome, T.status i ≠ .committed outcome)
    (hnew : ∀ outcome, status ≠ .committed outcome)
    (hsession : ∀ session, status = .active session →
      SessionInv C rows order T.committed i session)
    (hlocks : ∀ session, status = .active session → ∀ j session', j ≠ i →
      T.status j = .active session' → ∀ e ∈ session.effects, ∀ e' ∈ session'.effects,
        ¬ e.Conflicts e') :
    Inv C rows (T.move i status) order where
  nodup := h.nodup
  mem_iff j := by
    rw [h.mem_iff, Tables.move]
    by_cases hj : j = i
    · subst hj
      simp [hold, hnew]
    · simp [hj]
  reports j outcome hj := by
    by_cases hji : j = i
    · subst hji
      exact absurd (by simpa [Tables.move] using hj) (hnew outcome)
    · exact h.reports j outcome (by simpa [Tables.move, hji] using hj)
  serial := h.serial
  sessions j session hj := by
    by_cases hji : j = i
    · subst hji
      exact hsession session (by simpa [Tables.move] using hj)
    · exact h.sessions j session (by simpa [Tables.move, hji] using hj)
  locks j k session session' hjk hj hk := by
    by_cases hji : j = i
    · subst hji
      exact hlocks session (by simpa [Tables.move] using hj) k session' (Ne.symm hjk)
        (by simpa [Tables.move, Ne.symm hjk] using hk)
    have hj' : T.status j = .active session := by simpa [Tables.move, hji] using hj
    by_cases hki : k = i
    · subst hki
      have hk' : status = .active session' := by simpa [Tables.move] using hk
      intro e he e' he' hconflict
      exact hlocks session' hk' j session hji hj' e' he' e he (conflicts_symm hconflict)
    · exact h.locks j k session session' hjk hj' (by simpa [Tables.move, hki] using hk)

/-- A transaction goes on with other effects or the same ones. -/
lemma Inv.move_active (h : Inv C rows T order) {session session' : Session}
    (hi : T.status i = .active session) (hinv : SessionInv C rows order T.committed i session')
    (hfree : ∀ e ∈ session'.effects, e ∈ session.effects ∨ ¬ Blocked T i e) :
    Inv C rows (T.move i (.active session')) order := by
  refine h.move (fun _ ho => Status.noConfusion (hi.symm.trans ho))
    (fun _ ho => Status.noConfusion ho)
    (fun _ hs => Status.active.inj hs ▸ hinv) fun _ hs j other hj hother e he e' he' hconflict => ?_
  obtain rfl := Status.active.inj hs
  obtain hmem | hnot := hfree e he
  · exact h.locks i j session other (Ne.symm hj) hi hother e hmem e' he' hconflict
  · exact hnot ⟨j, hj, other, by rw [hother]; rfl, e', he', hconflict⟩

/-- A transaction commits. -/
lemma Inv.commit (h : Inv C rows T order) {session : Session} {outcome : WriteOutcome}
    (hi : T.status i = .active session) (hp : session.program = .done outcome)
    (hreads : session.wrote = true → C.ReadsStand T.committed session.record)
    (hreports : (C.command i).2.reports outcome = true) :
    ∃ order', Inv C rows
      { T.move i (.committed outcome) with committed := session.current T.committed } order' := by
  obtain ⟨order', hperm, hserial, hpasses⟩ :=
    exists_order_of_commit h.serial (h.sessions i session hi) hp hreads hreports
  have hi' : ¬ ∃ outcome, T.status i = .committed outcome := by simp [hi]
  refine ⟨order', hperm.nodup_iff.2 (List.nodup_cons.2 ⟨fun hmem => hi' ((h.mem_iff i).1 hmem),
    h.nodup⟩), fun j => ?_, fun j outcome' hj => ?_, hserial, fun j other hj => ?_,
    fun j k other other' hjk hj hk => ?_⟩
  · rw [hperm.mem_iff, List.mem_cons, h.mem_iff, Tables.move]
    by_cases hji : j = i <;> simp [hji]
  · by_cases hji : j = i
    · subst hji
      obtain rfl : outcome = outcome' := by simpa [Tables.move] using hj
      exact hreports
    · exact h.reports j outcome' (by simpa [Tables.move, hji] using hj)
  · have hji : j ≠ i := by
      rintro rfl
      simp [Tables.move] at hj
    have hj' : T.status j = .active other := by simpa [Tables.move, hji] using hj
    exact (h.sessions j other hj').congr (h.locks j i other session hji hj' hi) hpasses
  · have hji : j ≠ i := by
      rintro rfl
      simp [Tables.move] at hj
    have hki : k ≠ i := by
      rintro rfl
      simp [Tables.move] at hk
    exact h.locks j k other other' hjk (by simpa [Tables.move, hji] using hj)
      (by simpa [Tables.move, hki] using hk)

variable [Fintype ι]

/-- What a statement of a transaction does. -/
lemma statement_cases {session : Session} {q : Request}
    {next : q.Answer → SqlProgram WriteOutcome} (h : C.statement T i session q next = some T') :
    (∃ e, T' = T.move i (.active { session with program := .fail e })) ∨
    (q.isRead = true ∧ ∃ r rows, C.S.handler q (session.view T.committed) = .ok (r, rows) ∧
      T' = T.move i (.active
        { session.answered next r with snapshot := session.snapshotAfter T.committed q })) ∨
    (q.isRead = false ∧ ∃ effect r rows, q.effect (session.current T.committed) = some effect ∧
      ¬ Blocked T i effect ∧ C.S.handler q (session.current T.committed) = .ok (r, rows) ∧
      T' = T.move i (.active
        { session.answered next r with effects := session.effects ++ [effect] })) := by
  unfold statement at h
  split at h
  · rename_i hread
    split at h
    · rename_i r rows hr
      exact .inr (.inl ⟨hread, r, rows, hr, (Option.some.inj h).symm⟩)
    · exact .inl ⟨_, (Option.some.inj h).symm⟩
  · rename_i hread
    split at h
    · cases h
    rename_i effect he
    split at h
    · cases h
    rename_i hfree
    split at h
    · rename_i r rows hr
      exact .inr (.inr ⟨by simpa using hread, effect, r, rows, he, hfree, hr,
        (Option.some.inj h).symm⟩)
    · exact .inl ⟨_, (Option.some.inj h).symm⟩

/-- A statement of a transaction. -/
lemma Inv.statement (h : Inv C rows T order) {session : Session} {q : Request}
    {next : q.Answer → SqlProgram WriteOutcome} (hi : T.status i = .active session)
    (hp : session.program = .ask q next) (hstep : C.statement T i session q next = some T') :
    Inv C rows T' order := by
  have hs := h.sessions i session hi
  obtain ⟨e, rfl⟩ | ⟨hq, r, rows', hr, rfl⟩ | ⟨hq, effect, r, rows', he, hfree, hr, rfl⟩ :=
    statement_cases hstep
  · exact h.move_active hi (hs.fail e) fun _ he => .inl he
  · exact h.move_active hi (hs.read h.serial hp hq hr) fun _ he => .inl he
  · refine h.move_active hi (hs.write hp hq he hr) fun e he => ?_
    obtain hmem | hlast := List.mem_append.1 he
    · exact .inl hmem
    · exact .inr (List.mem_singleton.1 hlast ▸ hfree)

/-- The invariant is kept by every step that meets the condition on commits. -/
lemma Inv.step (h : Inv C rows T order) {action : ClientAction ι}
    (hguard : C.CommitsUnchanged T action) (hstep : C.step T action = some T') :
    ∃ order', Inv C rows T' order' := by
  cases action with
  | begin i =>
    simp only [Clients.step] at hstep
    split at hstep
    · rename_i hready
      obtain rfl := Option.some.inj hstep
      refine ⟨order, h.move (by simp [hready]) (by simp) (fun session hs => ?_)
        fun session hs j other _ _ e he => ?_⟩
      · obtain rfl := Status.active.inj hs
        exact .begin
      · obtain rfl := Status.active.inj hs
        cases he
    · cases hstep
  | statement i =>
    simp only [Clients.step] at hstep
    split at hstep
    · rename_i session hi
      split at hstep
      · rename_i q next hp
        exact ⟨order, h.statement hi hp hstep⟩
      · cases hstep
    · cases hstep
  | commit i =>
    simp only [Clients.step] at hstep
    split at hstep
    · rename_i session hi
      split at hstep
      · rename_i outcome hp
        obtain rfl := Option.some.inj hstep
        obtain ⟨hreads, hreports⟩ := hguard session outcome hi hp
        exact h.commit hi hp hreads hreports
      · cases hstep
    · cases hstep
  | rollback i =>
    simp only [Clients.step] at hstep
    split at hstep
    · rename_i session hi
      split at hstep
      · obtain rfl := Option.some.inj hstep
        exact ⟨order, h.move (by simp [hi]) (by simp) (by simp) (by simp)⟩
      · cases hstep
    · cases hstep
  | abort i =>
    simp only [Clients.step] at hstep
    split at hstep
    · rename_i session hi
      split at hstep
      · obtain rfl := Option.some.inj hstep
        exact ⟨order, h.move (by simp [hi]) (by simp) (by simp) (by simp)⟩
      · cases hstep
    · cases hstep

/-! ## Runs -/

/-- **Serial order.**  Along every run in which each transaction that has written commits with
reads that still stand, the committed rows are those of a serial order of the commands that have
reported success. -/
theorem serial_order {actions : List (ClientAction ι)}
    (hrun : Run C.step C.CommitsUnchanged (start rows) actions T) :
    ∃ order : List ι, order.Nodup ∧ (∀ i, i ∈ order ↔ C.Succeeded T i) ∧
      C.SerialRun order rows T.committed := by
  obtain ⟨order, h⟩ := hrun.invariant (P := fun T => ∃ order, Inv C rows T order)
    (fun _ _ _ ⟨_, hinv⟩ hguard hstep => hinv.step hguard hstep) ⟨[], .start rows⟩
  refine ⟨order, h.nodup, fun i => (h.mem_iff i).trans ?_, h.serial⟩
  exact exists_congr fun outcome => ⟨fun hi => ⟨hi, h.reports i outcome hi⟩, And.left⟩

/-! ## Two updates of one document -/

/-- Two connections, each with an update of the document of `app.items` that sets a field of its
own. -/
def twoUpdates : Clients Bool where
  S := .ofStrings
  L := .ofStrings
  command i :=
    let field : Text := if i then "a".toList else "b".toList
    (⟨"app".toList, "items".toList⟩, .update []
      [("$set".toList, .document [(field, .utf8 "x".toList)])] false false 0)

/-- The document of `app.items`, with the given fields beside its `_id`. -/
def item (fields : List Text) : Row where
  ns := ⟨"app".toList, "items".toList⟩
  key := tagString :: "d".toList
  doc := .obj ((idName, .str "d".toList) :: fields.map fun field => (field, .str "x".toList))

/-- The statements of one of the two updates: the table is looked up twice, the document is loaded
and replaced. -/
def itemUpdate (i : Bool) : List (ClientAction Bool) := List.replicate 4 (.statement i)

/-- A read of the record still stands. -/
lemma readsStand_read {ι : Type} {C : Clients ι} {rows : List Row} {q : Request} {r : q.Answer}
    {record : Record Request Request.Answer} (hq : q.isRead = true)
    (hr : C.S.handler q rows = .ok (r, rows)) (h : C.ReadsStand rows record) :
    C.ReadsStand rows (⟨q, r⟩ :: record) := by
  rw [ReadsStand, if_pos hq]
  exact ⟨hr, h⟩

/-- The reads after a write still stand. -/
lemma readsStand_write {ι : Type} {C : Clients ι} {rows rows' : List Row} {q : Request}
    {r r' : q.Answer} {record : Record Request Request.Answer} (hq : q.isRead = false)
    (hr : C.S.handler q rows = .ok (r', rows')) (h : C.ReadsStand rows' record) :
    C.ReadsStand rows (⟨q, r⟩ :: record) := by
  rw [ReadsStand, if_neg (by simp [hq])]
  intro r'' rows'' hr''
  obtain ⟨-, rfl⟩ := Prod.mk.inj (Except.ok.inj (hr.symm.trans hr''))
  exact h

/-- One update commits before the other one starts: both fields are there at the end, as in a
serial order. -/
theorem serial_order_apart :
    ∃ T, Run twoUpdates.step twoUpdates.CommitsUnchanged (start [item []])
        (.begin true :: itemUpdate true ++ [.commit true] ++
          .begin false :: itemUpdate false ++ [.commit false]) T ∧
      T.committed = [item ["a".toList, "b".toList]] ∧
      ∃ order : List Bool, order.Nodup ∧ (∀ i, i ∈ order ↔ twoUpdates.Succeeded T i) ∧
        twoUpdates.SerialRun order [item []] T.committed := by
  obtain ⟨T, hrun, hrows⟩ : ∃ T, Run twoUpdates.step twoUpdates.CommitsUnchanged (start [item []])
      (.begin true :: itemUpdate true ++ [.commit true] ++
        .begin false :: itemUpdate false ++ [.commit false]) T ∧
      T.committed = [item ["a".toList, "b".toList]] := by
    refine ⟨_, .cons trivial rfl (.cons trivial rfl (.cons trivial rfl (.cons trivial rfl
      (.cons trivial rfl (.cons ?_ rfl (.cons trivial rfl (.cons trivial rfl (.cons trivial rfl
      (.cons trivial rfl (.cons trivial rfl (.cons ?_ rfl (.nil _)))))))))))), rfl⟩
    all_goals
      rintro session outcome ⟨⟩ ⟨⟩
      exact ⟨fun _ => readsStand_read rfl rfl (readsStand_read rfl rfl (readsStand_read rfl rfl
        (readsStand_write rfl rfl trivial))), rfl⟩
  exact ⟨T, hrun, hrows, serial_order hrun⟩

/-- The orders of two commands. -/
lemma eq_of_both {order : List Bool} (hnodup : order.Nodup) (hboth : ∀ i, i ∈ order) :
    order = [true, false] ∨ order = [false, true] := by
  have hperm : order.Perm [true, false] :=
    (List.perm_ext_iff_of_nodup hnodup (by decide)).2 fun i => by cases i <;> simp [hboth]
  simpa [List.permutations] using List.mem_permutations.2 hperm

/-- Both updates load the document before either writes it: the field of the first is lost, which
no serial order explains. -/
theorem lost_update :
    ∃ T, Steps twoUpdates.step (start [item []])
        ([.begin true, .begin false] ++ List.replicate 3 (.statement true) ++
          List.replicate 3 (.statement false) ++ [.statement true, .commit true] ++
          [.statement false, .commit false]) T ∧
      (∀ i, twoUpdates.Succeeded T i) ∧ T.committed = [item ["b".toList]] ∧
      ¬ ∃ order : List Bool, order.Nodup ∧ (∀ i, i ∈ order ↔ twoUpdates.Succeeded T i) ∧
        twoUpdates.SerialRun order [item []] T.committed := by
  obtain ⟨T, hrun, hsucceeded, hrows⟩ : ∃ T, Steps twoUpdates.step (start [item []])
      ([.begin true, .begin false] ++ List.replicate 3 (.statement true) ++
        List.replicate 3 (.statement false) ++ [.statement true, .commit true] ++
        [.statement false, .commit false]) T ∧
      (∀ i, twoUpdates.Succeeded T i) ∧ T.committed = [item ["b".toList]] :=
    ⟨_, steps_of_runActions rfl, fun i => by cases i <;> exact ⟨_, rfl, rfl⟩, rfl⟩
  refine ⟨T, hrun, hsucceeded, hrows, ?_⟩
  rintro ⟨order, hnodup, hmem, hserial⟩
  rw [hrows] at hserial
  -- in either order the second update starts from the document with the first one's field
  obtain rfl | rfl := eq_of_both hnodup fun i => (hmem i).2 (hsucceeded i)
  · obtain ⟨_, _, hfirst, -, _, _, hsecond, -, hend⟩ := hserial
    obtain rfl := (Prod.mk.inj (Except.ok.inj hfirst)).2
    obtain rfl := (Prod.mk.inj (Except.ok.inj hsecond)).2
    have hends : [item ["b".toList]] = [item ["a".toList, "b".toList]] := hend
    exact absurd hends (by decide)
  · obtain ⟨_, _, hfirst, -, _, _, hsecond, -, hend⟩ := hserial
    obtain rfl := (Prod.mk.inj (Except.ok.inj hfirst)).2
    obtain rfl := (Prod.mk.inj (Except.ok.inj hsecond)).2
    have hends : [item ["b".toList]] = [item ["b".toList, "a".toList]] := hend
    exact absurd hends (by decide)

end Clients

end Chimera
