import Chimera.Oplog.Visibility

/-!
# Positions of tailing cursors

A `getMore` copies the state of its cursor, reads, and stores the position it has come to.  Between
the copy and the store the registry is not held, so another `getMore` may store a position of its
own.  The second store then overwrites the first, whichever of the two is further on.

Positions never go back as long as no cursor has been moved past the position that a `getMore` read
when this `getMore` comes to store; and then nothing that a cursor has passed is read again.
-/

namespace Chimera

open SequencedLog StepSystem

/-- The command has read, and reads, beyond a position: the copy of its cursor is not before it, and
its page is a page of the copy. -/
def TailCommand.Beyond (a : ℕ) : TailCommand → Prop
  | .sampling _ entry _ | .selecting _ entry _ _ => a ≤ entry.tail.afterSeq
  | .checking _ entry _ _ page | .selected _ entry _ _ page => a ≤ entry.tail.afterSeq ∧
    ∃ p wanted rows, page = pageAfter OplogRow.seq p entry.tail.afterSeq wanted rows
  | .replying _ page => ∀ r ∈ page, a < r.seq
  | .idle | .openingStream _ _ | .finding _ _ | .found _ _ _ => True

/-- The connection begins a tailing command. -/
def SessionAction.Begins (conn : ℕ) : SessionAction → Prop
  | .resolveStart c _ _ | .findHead c _ | .getMore c _ _ _ => c = conn
  | _ => False

namespace TailSessions

/-- Numbers of cursors are given once, and what a `getMore` has read is a page. -/
structure Numbered (s : TailSessions) : Prop where
  /-- No cursor has the next number, or one after it. -/
  fresh : ∀ id, s.nextId ≤ id → s.cursors id = none
  /-- What a `getMore` has read is a page behind its copy. -/
  pages : ∀ conn, (s.commands conn).Beyond 0

/-- No cursor has gone back, and none has come again under an old number. -/
structure NotBack (s s' : TailSessions) : Prop where
  /-- Numbers are only given. -/
  nextId_le : s.nextId ≤ s'.nextId
  /-- A cursor with an old number is the cursor it was, and not before its position. -/
  position : ∀ id entry', id < s.nextId → s'.cursors id = some entry' →
    ∃ entry, s.cursors id = some entry ∧ entry.tail.afterSeq ≤ entry'.tail.afterSeq

/-- A `getMore` that stores a position finds its cursor no further than it was when the `getMore`
read its position. -/
def Unpassed (s : TailSessions) : SessionAction → Prop
  | .advance conn =>
    match s.commands conn with
    | .selected id entry _ _ _ => ∀ now ∈ s.cursors id, now.tail.afterSeq ≤ entry.tail.afterSeq
    | _ => True
  | _ => True

/-! ## One step -/

variable {s s' : TailSessions} {a : SessionAction}

/-- A page of a `getMore` lies beyond what its copy lies beyond. -/
lemma beyond_page {p wanted : ℕ} {q : OplogRow → Bool} {entry : RegistryEntry}
    {rows page : List OplogRow} (hp : p ≤ entry.tail.afterSeq)
    (hpage : page = pageAfter OplogRow.seq q entry.tail.afterSeq wanted rows) :
    ∀ r ∈ page, p < r.seq := by
  intro r hr
  rw [hpage] at hr
  exact hp.trans_lt (mem_of_mem_pageAfter hr).2.1

/-- A command that moves on goes on reading beyond the position it began at. -/
lemma beyond_move {conn p : ℕ} {command command' : TailCommand}
    (h : CommandMove s conn a command command') (hc : command.Beyond p)
    (hbegin : p = 0 ∨ ¬ a.Begins conn) : command'.Beyond p := by
  cases h with
  | begins hentry hns =>
    rcases hbegin with rfl | hother
    · exact Nat.zero_le _
    · exact absurd rfl hother
  | samples => exact hc
  | selects => exact ⟨hc, _, _, _, rfl⟩
  | selectsTail => exact ⟨hc, _, _, _, rfl⟩
  | checks => exact hc
  | parks => exact hc.1
  | resolves | refuses | heads | finds | closes | loses | fails => trivial

/-- A command that is under way goes on reading beyond the position it began at. -/
lemma beyond_step {conn p : ℕ} (h : s.step a = some s') (hc : (s.commands conn).Beyond p)
    (hbegin : p = 0 ∨ ¬ a.Begins conn) : (s'.commands conn).Beyond p := by
  have heffect := commandEffect conn h
  generalize s'.commands conn = after at heffect
  cases heffect with
  | keeps => exact hc
  | moves hmove => exact beyond_move hmove hc hbegin
  | registers | replies => trivial
  | advances hcommand =>
    rw [hcommand] at hc
    obtain ⟨hp, _, _, _, hpage⟩ := hc
    exact beyond_page hp hpage

/-- Every action keeps the numbers and the pages. -/
lemma Numbered.step (hN : s.Numbered) (h : s.step a = some s') : s'.Numbered := by
  refine ⟨?_, fun conn => beyond_step h (hN.pages conn) (.inl rfl)⟩
  intro id hid
  cases registryEffect h with
  | keeps hcursors hnext =>
    rw [hnext] at hid
    rw [hcursors]
    exact hN.fresh id hid
  | registers entry hcursors hnext =>
    rw [hnext] at hid
    rw [hcursors, Function.update_of_ne (by omega)]
    exact hN.fresh id (by omega)
  | @advances conn id' wanted head entry page hcommand hcursors hnext =>
    rw [hnext] at hid
    rw [hcursors]
    by_cases heq : id = id'
    · subst heq
      rw [Function.update_self, hN.fresh id hid, Option.map_none]
    · rw [Function.update_of_ne heq]
      exact hN.fresh id hid
  | kills id' hcursors hnext =>
    rw [hnext] at hid
    rw [hcursors]
    by_cases heq : id = id'
    · rw [heq, Function.update_self]
    · rw [Function.update_of_ne heq]
      exact hN.fresh id hid

/-- A state has not gone back behind itself. -/
lemma NotBack.refl (s : TailSessions) : s.NotBack s :=
  ⟨le_rfl, fun _ entry _ hentry => ⟨entry, hentry, le_rfl⟩⟩

/-- Going on twice. -/
lemma NotBack.trans {s t u : TailSessions} (h : s.NotBack t) (h' : t.NotBack u) : s.NotBack u := by
  refine ⟨h.nextId_le.trans h'.nextId_le, fun id entry' hid hentry' => ?_⟩
  obtain ⟨mid, hmid, hle'⟩ := h'.position id entry' (hid.trans_le h.nextId_le) hentry'
  obtain ⟨entry, hentry, hle⟩ := h.position id mid hid hmid
  exact ⟨entry, hentry, hle.trans hle'⟩

/-- A position that is stored is not before the copy. -/
lemma le_nextAfter {tail : TailState} {p : OplogRow → Bool} {wanted wanted' head : ℕ}
    {rows : List OplogRow} : tail.afterSeq ≤
      tail.nextAfter wanted head (pageAfter OplogRow.seq p tail.afterSeq wanted' rows) := by
  have hlast : tail.afterSeq ≤ lastSeq OplogRow.seq tail.afterSeq
      (pageAfter OplogRow.seq p tail.afterSeq wanted' rows) := le_lastSeq_pageAfter
  unfold TailState.nextAfter
  split
  · exact hlast
  · exact hlast.trans (le_max_right _ _)

/-- **One step.**  No cursor goes back in an action that stores no position behind one that has been
stored. -/
theorem notBack_step (hN : s.Numbered) (hguard : s.Unpassed a) (h : s.step a = some s') :
    s.NotBack s' := by
  cases registryEffect h with
  | keeps hcursors hnext =>
    refine ⟨hnext.ge, fun id entry' _ hentry' => ⟨entry', ?_, le_rfl⟩⟩
    rwa [hcursors] at hentry'
  | registers entry hcursors hnext =>
    refine ⟨by omega, fun id entry' hid hentry' => ⟨entry', ?_, le_rfl⟩⟩
    rwa [hcursors, Function.update_of_ne hid.ne] at hentry'
  | @advances conn id wanted head entry page hcommand hcursors hnext =>
    refine ⟨hnext.ge, fun other entry' _ hentry' => ?_⟩
    rw [hcursors] at hentry'
    by_cases hother : other = id
    · subst hother
      rw [Function.update_self] at hentry'
      obtain ⟨now, hnow, rfl⟩ := Option.map_eq_some_iff.1 hentry'
      refine ⟨now, hnow, ?_⟩
      simp only [Unpassed, hcommand] at hguard
      have hpage := hN.pages conn
      rw [hcommand] at hpage
      obtain ⟨-, _, _, _, rfl⟩ := hpage
      exact (hguard now hnow).trans le_nextAfter
    · rw [Function.update_of_ne hother] at hentry'
      exact ⟨entry', hentry', le_rfl⟩
  | kills id hcursors hnext =>
    refine ⟨hnext.ge, fun other entry' _ hentry' => ⟨entry', ?_, le_rfl⟩⟩
    rw [hcursors] at hentry'
    by_cases hother : other = id
    · rw [hother, Function.update_self] at hentry'
      cases hentry'
    · rwa [Function.update_of_ne hother] at hentry'

/-- A run keeps the numbers and the pages, and no cursor goes back in it. -/
lemma notBack_run {s t : TailSessions} {as : List SessionAction} (hs : s.Numbered)
    (h : Run TailSessions.step Unpassed s as t) : t.Numbered ∧ s.NotBack t := by
  constructor
  · exact h.invariant (P := Numbered) (fun _ _ _ hN _ hstep => hN.step hstep) hs
  · exact h.relate NotBack .refl (fun _ _ _ => .trans)
      (fun _ _ _ hN hguard hstep => ⟨Numbered.step hN hstep, notBack_step hN hguard hstep⟩) hs

/-- **Positions do not go back while no cursor is passed.**  In every run of writers, prune passes,
opens, kills and `getMore` calls on any number of connections, each statement a step, in which no
`getMore` comes to store a position when its cursor has been moved past the position that it read:
the position of a cursor never decreases; and a `getMore` that begins later delivers nothing that
the cursor had passed. -/
theorem positions_do_not_go_back {s t u : TailSessions} {as bs : List SessionAction}
    (hs : s.Numbered) (h : Run TailSessions.step Unpassed s as t)
    (h' : Run TailSessions.step Unpassed t bs u) {id : ℕ} {entry entry' : RegistryEntry}
    (ht : t.cursors id = some entry) (hu : u.cursors id = some entry') :
    entry.tail.afterSeq ≤ entry'.tail.afterSeq ∧
      ∀ conn ns batchSize v, u.step (.getMore conn id ns batchSize) = some v →
        ∀ cs w, Run TailSessions.step (fun _ a => ¬ a.Begins conn) v cs w →
          ∀ page, w.commands conn = .replying id page →
            ∀ r ∈ page, entry.tail.afterSeq < r.seq := by
  obtain ⟨hnumbered, -⟩ := notBack_run hs h
  obtain ⟨-, hback⟩ := notBack_run hnumbered h'
  have hid : id < t.nextId := by
    by_contra hle
    rw [hnumbered.fresh id (Nat.le_of_not_lt hle)] at ht
    cases ht
  obtain ⟨entry₀, hentry, hle⟩ := hback.position id entry' hid hu
  obtain rfl : entry = entry₀ := Option.some.inj (ht.symm.trans hentry)
  refine ⟨hle, fun conn ns batchSize v hstep cs w hrun page hpage => ?_⟩
  have hbegun : (v.commands conn).Beyond entry.tail.afterSeq := by
    simp only [TailSessions.step] at hstep
    split at hstep
    · next found _ hfound =>
      obtain rfl : entry' = found := Option.some.inj (hu.symm.trans hfound)
      split at hstep <;> cases hstep
      change (Function.update u.commands conn _ conn).Beyond entry.tail.afterSeq
      rw [Function.update_self]
      exact hle
    · cases hstep
  have hbeyond := hrun.invariant (P := fun s => (s.commands conn).Beyond entry.tail.afterSeq)
    (fun _ _ _ hc hguard hstep => beyond_step hstep hc (.inr hguard)) hbegun
  rwa [hpage] at hbeyond

instance Unpassed.decidable (s : TailSessions) : (a : SessionAction) → Decidable (s.Unpassed a)
  | .advance conn =>
    match h : s.commands conn with
    | .selected id entry _ _ _ =>
      decidable_of_iff (∀ now ∈ s.cursors id, now.tail.afterSeq ≤ entry.tail.afterSeq) (by
        simp only [Unpassed, h])
    | .idle | .openingStream _ _ | .finding _ _ | .found _ _ _ | .sampling _ _ _
    | .selecting _ _ _ _ | .checking _ _ _ _ _ | .replying _ _ =>
      .isTrue (by simp only [Unpassed, h])
  | .server _ | .openView _ | .closeView _ | .resolveStart _ _ _ | .checkStart _ | .findHead _ _
  | .findSelect _ | .findOpen _ | .getMore _ _ _ _ | .sampleHead _ | .select _ | .check _
  | .park _ | .reply _ | .fail _ | .kill _ => .isTrue trivial

/-! ## Two runs -/

/-- A new oplog has no cursors. -/
lemma fresh_numbered : fresh.Numbered := ⟨fun _ _ => rfl, fun _ => trivial⟩

/-- A change stream on `a.b` is opened, and an event is committed on it. -/
def openAndWrite : List SessionAction :=
  [.resolveStart 2 "a.b".toList .head, .checkStart 2, .server (.append 1 (plainAppend 10)),
    .server (.commit 1)]

/-- Two connections read the stream one after the other. -/
theorem positions_do_not_go_back_twice :
    ∃ t u entry entry', Run TailSessions.step Unpassed fresh openAndWrite t ∧
      Run TailSessions.step Unpassed t (streamGetMore 2 ++ streamGetMore 3) u ∧
      t.cursors 1 = some entry ∧ u.cursors 1 = some entry' ∧
      entry.tail.afterSeq = 0 ∧ entry'.tail.afterSeq = 1 ∧
      entry.tail.afterSeq ≤ entry'.tail.afterSeq := by
  obtain ⟨t, u, entry, entry', hrun, hrun', ht, hu, hold, hnew⟩ : ∃ t u entry entry',
      Run TailSessions.step Unpassed fresh openAndWrite t ∧
      Run TailSessions.step Unpassed t (streamGetMore 2 ++ streamGetMore 3) u ∧
      t.cursors 1 = some entry ∧ u.cursors 1 = some entry' ∧
      entry.tail.afterSeq = 0 ∧ entry'.tail.afterSeq = 1 :=
    ⟨_, _, _, _, run_of_runActions rfl, run_of_runActions rfl, rfl, rfl, rfl, rfl⟩
  exact ⟨t, u, entry, entry', hrun, hrun', ht, hu, hold, hnew,
    (positions_do_not_go_back fresh_numbered hrun hrun' ht hu).1⟩

/-- A `getMore` finds nothing; before it stores its position, an event is committed and another
`getMore` delivers it.  The first one then moves the cursor back, and the event is delivered
again. -/
theorem position_goes_back :
    ∃ t u v : TailSessions, Steps TailSessions.step fresh
        ([.resolveStart 2 "a.b".toList .head, .checkStart 2, .getMore 2 1 "a.b".toList 101,
          .sampleHead 2, .select 2, .check 2, .server (.append 1 (plainAppend 10)),
          .server (.commit 1)] ++ streamGetMore 3) t ∧
      Steps TailSessions.step t [.advance 2, .reply 2] u ∧
      Steps TailSessions.step u (streamGetMore 3) v ∧
      (t.cursors 1).map (fun entry => entry.tail.afterSeq) = some 1 ∧
      (u.cursors 1).map (fun entry => entry.tail.afterSeq) = some 0 ∧
      v.delivered = [(1, OplogServer.eventAt 1 10), (1, OplogServer.eventAt 1 10)] :=
  ⟨_, _, _, steps_of_runActions rfl, steps_of_runActions rfl, steps_of_runActions rfl, rfl, rfl,
    rfl⟩

end TailSessions

end Chimera
