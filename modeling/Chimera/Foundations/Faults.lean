import Chimera.Foundations.Interaction

/-!
# Programs on a server that fails now and then

A fault strikes a question: the question is answered by an error, and the server does nothing.
Which questions are struck is told by their numbers.  A property that a program withstands holds
at its end wherever the faults strike; one rule for each way to build a program proves it, and
the soundness theorem turns it into a fact about every run in which only questions are struck that
may be struck.
-/

namespace Interaction

variable {ε Q S α β : Type} {R : Q → Type}

/-- A server in front of which faults strike.  It counts the questions; `fail` says how a question
fails, if it can. -/
def withFaults (server : (q : Q) → S → R q × S) (fail : (q : Q) → ε → Option (R q))
    (fault : ℕ → Option ε) : (q : Q) → S × ℕ → R q × (S × ℕ) := fun q (s, n) =>
  match (fault n).bind (fail q) with
  | some r => (r, (s, n + 1))
  | none => ((server q s).1, ((server q s).2, n + 1))

/-- The question of a given number, counted from zero. -/
def nthQuestion (server : (q : Q) → S → R q × S) : ℕ → Interaction ε Q R α → S → Option Q
  | _, .done _, _ => none
  | _, .fail _, _ => none
  | 0, .ask q _, _ => some q
  | n + 1, .ask q next, s => nthQuestion server n (next (server q s).1) (server q s).2

/-- Wherever faults strike, of those that may, the program ends with `Post`. -/
def Withstands (server : (q : Q) → S → R q × S) (strikes : (q : Q) → R q → Prop) :
    Interaction ε Q R α → S → (Except ε α → S → Prop) → Prop
  | .done a, s, Post => Post (.ok a) s
  | .fail e, s, Post => Post (.error e) s
  | .ask q next, s, Post =>
    (next (server q s).1).Withstands server strikes (server q s).2 Post ∧
      ∀ r, strikes q r → (next r).Withstands server strikes s Post

section Withstands

variable {server : (q : Q) → S → R q × S} {strikes : (q : Q) → R q → Prop} {s : S}

/-- Weaken the postcondition. -/
lemma Withstands.weaken {x : Interaction ε Q R α} {Post Post' : Except ε α → S → Prop}
    (hx : x.Withstands server strikes s Post) (hpost : ∀ result t, Post result t → Post' result t) :
    x.Withstands server strikes s Post' := by
  induction x generalizing s with
  | done a => exact hpost _ s hx
  | fail e => exact hpost _ s hx
  | ask q next ih => exact ⟨ih _ hx.1, fun r hr => ih r (hx.2 r hr)⟩

/-- Sequencing: an error of the first part ends the sequence. -/
lemma Withstands.bind {x : Interaction ε Q R α} {f : α → Interaction ε Q R β}
    {Post : Except ε β → S → Prop}
    (hx : x.Withstands server strikes s fun result t =>
      match result with
      | .ok a => (f a).Withstands server strikes t Post
      | .error e => Post (.error e) t) :
    (x >>= f).Withstands server strikes s Post := by
  induction x generalizing s with
  | done a => exact hx
  | fail e => exact hx
  | ask q next ih => exact ⟨ih _ hx.1, fun r hr => ih r (hx.2 r hr)⟩

/-- A computation without questions. -/
lemma Withstands.ofExcept {x : Except ε α} {Post : Except ε α → S → Prop} (hpost : Post x s) :
    (ofExcept x : Interaction ε Q R α).Withstands server strikes s Post := by
  cases x with
  | ok a => exact hpost
  | error e => exact hpost

/-- A branch. -/
lemma Withstands.ite {c : Prop} [Decidable c] {x y : Interaction ε Q R α}
    {Post : Except ε α → S → Prop} (hx : c → x.Withstands server strikes s Post)
    (hy : ¬ c → y.Withstands server strikes s Post) :
    (if c then x else y).Withstands server strikes s Post := by
  by_cases hc : c
  · rw [if_pos hc]
    exact hx hc
  · rw [if_neg hc]
    exact hy hc

/-- What a program withstands together. -/
lemma Withstands.and {x : Interaction ε Q R α} {Post Post' : Except ε α → S → Prop}
    (hx : x.Withstands server strikes s Post) (hx' : x.Withstands server strikes s Post') :
    x.Withstands server strikes s fun result t => Post result t ∧ Post' result t := by
  induction x generalizing s with
  | done a => exact ⟨hx, hx'⟩
  | fail e => exact ⟨hx, hx'⟩
  | ask q next ih => exact ⟨ih _ hx.1 hx'.1, fun r hr => ih r (hx.2 r hr) (hx'.2 r hr)⟩

/-- What holds of every end is withstood. -/
lemma Withstands.of_forall {x : Interaction ε Q R α} {Post : Except ε α → S → Prop}
    (hpost : ∀ result t, Post result t) : x.Withstands server strikes s Post := by
  induction x generalizing s with
  | done a => exact hpost _ s
  | fail e => exact hpost _ s
  | ask q next ih => exact ⟨ih _, fun r _ => ih r⟩

/-- A program ends as the server has it, unless a fault has struck. -/
lemma Withstands.of_serve (x : Interaction ε Q R α) :
    x.Withstands server strikes s fun result t =>
      x.serve server s = (result, t) ∨ ∃ q r, strikes q r := by
  induction x generalizing s with
  | done a => exact .inl rfl
  | fail e => exact .inl rfl
  | ask q next ih =>
    exact ⟨ih _, fun r hr => Withstands.of_forall fun _ _ => .inr ⟨q, r, hr⟩⟩

/-- A program whose questions keep an invariant of the server withstands it. -/
lemma Asks.withstands {P : Q → Prop} {I : S → Prop} {x : Interaction ε Q R α} (hx : x.Asks P)
    (hserver : ∀ q t, P q → I t → I (server q t).2) (hs : I s) :
    x.Withstands server strikes s fun _ t => I t := by
  induction x generalizing s with
  | done a => exact hs
  | fail e => exact hs
  | ask q next ih =>
    exact ⟨ih _ (hx.2 _) (hserver q s hx.1 hs), fun r _ => ih r (hx.2 r) hs⟩

/-- Without faults the program ends as the server has it. -/
lemma Withstands.serve {x : Interaction ε Q R α} {Post : Except ε α → S → Prop}
    (hx : x.Withstands server strikes s Post) : Post (x.serve server s).1 (x.serve server s).2 := by
  induction x generalizing s with
  | done a => exact hx
  | fail e => exact hx
  | ask q next ih => exact ih _ hx.1

/-- **Soundness.**  A program ends with what it withstands, wherever faults strike that may. -/
theorem Withstands.serve_withFaults {fail : (q : Q) → ε → Option (R q)} {fault : ℕ → Option ε}
    {x : Interaction ε Q R α} {Post : Except ε α → S → Prop} {n : ℕ}
    (hx : x.Withstands server strikes s Post)
    (hfault : ∀ k q e r, x.nthQuestion (withFaults server fail fault) k (s, n) = some q →
      fault (n + k) = some e → fail q e = some r → strikes q r) :
    Post (x.serve (withFaults server fail fault) (s, n)).1
      (x.serve (withFaults server fail fault) (s, n)).2.1 := by
  induction x generalizing s n with
  | done a => exact hx
  | fail e => exact hx
  | ask q next ih =>
    have hnext : ∀ k q' e r, (next (withFaults server fail fault q (s, n)).1).nthQuestion
        (withFaults server fail fault) k (withFaults server fail fault q (s, n)).2 = some q' →
        fault (n + 1 + k) = some e → fail q' e = some r → strikes q' r := by
      intro k q' e r hq' he
      rw [Nat.add_right_comm] at he
      exact hfault (k + 1) q' e r hq' he
    rw [Interaction.serve]
    obtain hnone | ⟨r, hr⟩ := Option.eq_none_or_eq_some ((fault n).bind (fail q))
    · have hanswer : withFaults server fail fault q (s, n) =
          ((server q s).1, ((server q s).2, n + 1)) := by
        rw [withFaults, hnone]
      rw [hanswer] at hnext ⊢
      exact ih _ hx.1 hnext
    · have hanswer : withFaults server fail fault q (s, n) = (r, (s, n + 1)) := by
        rw [withFaults, hr]
      obtain ⟨e, he, hfail⟩ := Option.bind_eq_some_iff.1 hr
      rw [hanswer] at hnext ⊢
      exact ih r (hx.2 r (hfault 0 q e r rfl he hfail)) hnext

/-- Where no faults are there, programs end as the server has it. -/
lemma serve_withFaults_none (fail : (q : Q) → ε → Option (R q)) (x : Interaction ε Q R α) (n : ℕ) :
    (x.serve (withFaults server fail fun _ => none) (s, n)).1 = (x.serve server s).1 ∧
      (x.serve (withFaults server fail fun _ => none) (s, n)).2.1 = (x.serve server s).2 := by
  have hx : x.Withstands server (fun _ _ => False) s fun result t =>
      x.serve server s = (result, t) :=
    (Withstands.of_serve x).weaken fun _ _ h => h.resolve_right fun ⟨_, _, hstrikes⟩ => hstrikes
  have hend : x.serve server s = ((x.serve (withFaults server fail fun _ => none) (s, n)).1,
      (x.serve (withFaults server fail fun _ => none) (s, n)).2.1) :=
    hx.serve_withFaults fun _ _ _ _ _ hfault => by cases hfault
  exact ⟨(congrArg Prod.fst hend).symm, (congrArg Prod.snd hend).symm⟩

end Withstands

end Interaction
