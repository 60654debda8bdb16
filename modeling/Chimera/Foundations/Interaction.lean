import Mathlib.Tactic.Common

/-!
# Programs that ask questions

A program that talks to a server: it asks questions, goes on with the answers, and ends with a
result or an error.  A handler answers questions from a state.  The rules for postconditions
prove facts about every successful run; the replay theorem turns a record of questions and
answers, however it came about, into a run against a handler that gives the same answers.
-/

/-- A program with questions of type `Q`, whose answers have type `R q`. -/
inductive Interaction (ε : Type) (Q : Type) (R : Q → Type) (α : Type) : Type where
  | done (a : α)
  | fail (e : ε)
  | ask (q : Q) (next : R q → Interaction ε Q R α)

namespace Interaction

variable {ε Q S α β : Type} {R : Q → Type}

/-- Sequencing. -/
def bind : Interaction ε Q R α → (α → Interaction ε Q R β) → Interaction ε Q R β
  | .done a, f => f a
  | .fail e, _ => .fail e
  | .ask q next, f => .ask q fun r => (next r).bind f

instance : Monad (Interaction ε Q R) where
  pure := .done
  bind := bind

/-- A computation without questions. -/
def ofExcept : Except ε α → Interaction ε Q R α
  | .ok a => .done a
  | .error e => .fail e

/-- One question. -/
def question (q : Q) : Interaction ε Q R (R q) := .ask q .done

/-- Run to the end, and turn an error into a result: `try` with a `catch` for every error. -/
def attempt : Interaction ε Q R α → Interaction ε Q R (Except ε α)
  | .done a => .done (.ok a)
  | .fail e => .done (.error e)
  | .ask q next => .ask q fun r => (next r).attempt

/-- Answer every question by a program with questions of another type. -/
def substitute {Q' : Type} {R' : Q' → Type} (f : (q : Q) → Interaction ε Q' R' (R q)) :
    Interaction ε Q R α → Interaction ε Q' R' α
  | .done a => .done a
  | .fail e => .fail e
  | .ask q next => (f q).bind fun r => (next r).substitute f

/-- A handler answers a question and moves to a new state, or reports an error. -/
abbrev Handler (ε Q : Type) (R : Q → Type) (S : Type) := (q : Q) → S → Except ε (R q × S)

/-- Run a program against a handler. -/
def run (h : Handler ε Q R S) : Interaction ε Q R α → S → Except ε (α × S)
  | .done a, s => .ok (a, s)
  | .fail e, _ => .error e
  | .ask q next, s =>
    match h q s with
    | .ok (r, s') => (next r).run h s'
    | .error e => .error e

/-- A program that asks a question goes on with the answer. -/
lemma run_ask {h : Handler ε Q R S} {q : Q} {next : R q → Interaction ε Q R α} {s : S} :
    (Interaction.ask q next).run h s =
      match h q s with
      | .ok (r, s') => (next r).run h s'
      | .error e => .error e := by
  rw [run]

/-- The two parts of a sequence run one after the other. -/
lemma run_bind {h : Handler ε Q R S} {x : Interaction ε Q R α} {f : α → Interaction ε Q R β}
    {s : S} : (x >>= f).run h s = x.run h s >>= fun p => (f p.1).run h p.2 := by
  induction x generalizing s with
  | done a => rfl
  | fail e => rfl
  | ask q next ih =>
    change (Interaction.ask q fun r => next r >>= f).run h s = _
    rw [run_ask, run_ask]
    cases hq : h q s with
    | ok answer => exact ih answer.1
    | error e => rfl

/-- A sequence succeeds when its two parts do. -/
lemma run_bind_eq_ok {h : Handler ε Q R S} {x : Interaction ε Q R α}
    {f : α → Interaction ε Q R β} {s t : S} {b : β} :
    (x >>= f).run h s = .ok (b, t) ↔
      ∃ a u, x.run h s = .ok (a, u) ∧ (f a).run h u = .ok (b, t) := by
  rw [run_bind]
  cases hx : x.run h s with
  | error e =>
    constructor
    · intro hrun
      cases hrun
    · rintro ⟨a, u, hrun, -⟩
      cases hrun
  | ok p =>
    constructor
    · intro hrun
      exact ⟨p.1, p.2, rfl, hrun⟩
    · rintro ⟨a, u, heq, hrun⟩
      obtain rfl := Except.ok.inj heq
      exact hrun

/-- A sequence fails when one of its parts does. -/
lemma run_bind_eq_error {h : Handler ε Q R S} {x : Interaction ε Q R α}
    {f : α → Interaction ε Q R β} {s : S} {e : ε} :
    (x >>= f).run h s = .error e ↔
      x.run h s = .error e ∨ ∃ a u, x.run h s = .ok (a, u) ∧ (f a).run h u = .error e := by
  rw [run_bind]
  cases hx : x.run h s with
  | error e' =>
    change Except.error e' = .error e ↔ _
    simp
  | ok p =>
    constructor
    · intro hrun
      exact .inr ⟨p.1, p.2, rfl, hrun⟩
    · rintro (hrun | ⟨a, u, heq, hrun⟩)
      · cases hrun
      · obtain rfl := Except.ok.inj heq
        exact hrun

/-- A computation without questions leaves the state alone. -/
lemma run_ofExcept_eq_ok {h : Handler ε Q R S} {x : Except ε α} {s t : S} {a : α} :
    (ofExcept x : Interaction ε Q R α).run h s = .ok (a, t) ↔ x = .ok a ∧ s = t := by
  cases x with
  | ok b => simp [ofExcept, run]
  | error e => simp [ofExcept, run]

/-- One question runs as its handler answers it. -/
lemma run_question_eq_ok {h : Handler ε Q R S} {q : Q} {s t : S} {r : R q} :
    (question q : Interaction ε Q R (R q)).run h s = .ok (r, t) ↔ h q s = .ok (r, t) := by
  change (Interaction.ask q .done).run h s = _ ↔ _
  rw [run_ask]
  cases hq : h q s with
  | ok answer => simp [run, Prod.ext_iff]
  | error e => simp

/-- A result runs to itself. -/
lemma run_pure_eq_ok {h : Handler ε Q R S} {s t : S} {a b : α} :
    (pure a : Interaction ε Q R α).run h s = .ok (b, t) ↔ a = b ∧ s = t := by
  change Except.ok (a, s) = _ ↔ _
  simp

/-- The program, started in one state, comes to ask a question in another. -/
inductive Asked (h : Handler ε Q R S) : Interaction ε Q R α → S → Q → S → Prop
  | here {q : Q} {next : R q → Interaction ε Q R α} {s : S} : Asked h (.ask q next) s q s
  | later {q q' : Q} {r : R q} {next : R q → Interaction ε Q R α} {s s' t : S}
      (hq : h q s = .ok (r, s')) (hrest : Asked h (next r) s' q' t) :
      Asked h (.ask q next) s q' t

/-! ## Postconditions -/

/-- Every question is asked where it may be, and every successful run ends with `Post`. -/
def Meets (h : Handler ε Q R S) (may : Q → S → Prop) :
    Interaction ε Q R α → S → (α → S → Prop) → Prop
  | .done a, s, Post => Post a s
  | .fail _, _, _ => True
  | .ask q next, s, Post =>
    may q s ∧ ∀ r s', h q s = .ok (r, s') → Meets h may (next r) s' Post

section Meets

variable {h : Handler ε Q R S} {may : Q → S → Prop} {s : S}

/-- Weaken the postcondition. -/
lemma Meets.weaken {x : Interaction ε Q R α} {Post Post' : α → S → Prop}
    (hx : Meets h may x s Post) (hpost : ∀ a t, Post a t → Post' a t) :
    Meets h may x s Post' := by
  induction x generalizing s with
  | done a => exact hpost a s hx
  | fail e => trivial
  | ask q next ih => exact ⟨hx.1, fun r s' hq => ih r (hx.2 r s' hq)⟩

/-- Sequencing, with an assertion in between. -/
lemma Meets.bind {x : Interaction ε Q R α} {f : α → Interaction ε Q R β} {Post : β → S → Prop}
    (hx : Meets h may x s fun a t => Meets h may (f a) t Post) :
    Meets h may (x >>= f) s Post := by
  induction x generalizing s with
  | done a => exact hx
  | fail e => trivial
  | ask q next ih => exact ⟨hx.1, fun r s' hq => ih r (hx.2 r s' hq)⟩

/-- A computation without questions. -/
lemma Meets.ofExcept {x : Except ε α} {Post : α → S → Prop}
    (hpost : ∀ a, x = .ok a → Post a s) :
    Meets h may (ofExcept x : Interaction ε Q R α) s Post := by
  cases x with
  | ok a => exact hpost a rfl
  | error e => trivial

/-- One question. -/
lemma Meets.question {q : Q} {Post : R q → S → Prop} (hmay : may q s)
    (hpost : ∀ r s', h q s = .ok (r, s') → Post r s') :
    Meets h may (question q : Interaction ε Q R (R q)) s Post :=
  ⟨hmay, hpost⟩

/-- **Soundness.**  A successful run ends with the postcondition. -/
theorem Meets.run {x : Interaction ε Q R α} {Post : α → S → Prop} {a : α} {t : S}
    (hx : Meets h may x s Post) (hrun : x.run h s = .ok (a, t)) : Post a t := by
  induction x generalizing s with
  | done b =>
    obtain ⟨rfl, rfl⟩ := Prod.mk.inj (Except.ok.inj hrun)
    exact hx
  | fail e => cases hrun
  | ask q next ih =>
    unfold Interaction.run at hrun
    split at hrun
    · rename_i r s' hq
      exact ih r (hx.2 r s' hq) hrun
    · cases hrun

/-- **Soundness for questions.**  Every question is asked where it may be. -/
theorem Meets.asked {x : Interaction ε Q R α} {Post : α → S → Prop} {q : Q} {t : S}
    (hx : Meets h may x s Post) (hq : Asked h x s q t) : may q t := by
  induction hq with
  | here => exact hx.1
  | later hq _ ih => exact ih (hx.2 _ _ hq)

end Meets

/-! ## What holds whatever the answers are -/

/-- Every question of the program is one of `P`. -/
def Asks (P : Q → Prop) : Interaction ε Q R α → Prop
  | .done _ | .fail _ => True
  | .ask q next => P q ∧ ∀ r, (next r).Asks P

/-- Whatever answers that may be given are given, the program ends, by result or by error, with
`Post`.  An observer starts at `g` and notes every question with its answer. -/
def Ensures {G : Type} (may : (q : Q) → R q → Prop) (note : (q : Q) → R q → G → G) :
    Interaction ε Q R α → G → (Except ε α → G → Prop) → Prop
  | .done a, g, Post => Post (.ok a) g
  | .fail e, g, Post => Post (.error e) g
  | .ask q next, g, Post => ∀ r, may q r → (next r).Ensures may note (note q r g) Post

/-- Whatever the answers are, every question is one that an observer allows where it is, and the
program ends with `Post`. -/
def Obeys {G : Type} (may : G → Q → Prop) (note : (q : Q) → R q → G → G) :
    Interaction ε Q R α → G → (Except ε α → G → Prop) → Prop
  | .done a, g, Post => Post (.ok a) g
  | .fail e, g, Post => Post (.error e) g
  | .ask q next, g, Post => may g q ∧ ∀ r, (next r).Obeys may note (note q r g) Post

section Asks

variable {P : Q → Prop}

/-- A sequence asks what its parts ask. -/
lemma Asks.bind {x : Interaction ε Q R α} {f : α → Interaction ε Q R β} (hx : x.Asks P)
    (hf : ∀ a, (f a).Asks P) : (x >>= f).Asks P := by
  induction x with
  | done a => exact hf a
  | fail e => trivial
  | ask q next ih => exact ⟨hx.1, fun r => ih r (hx.2 r)⟩

/-- Catching errors asks nothing. -/
lemma Asks.attempt {x : Interaction ε Q R α} (hx : x.Asks P) : x.attempt.Asks P := by
  induction x with
  | done a => trivial
  | fail e => trivial
  | ask q next ih => exact ⟨hx.1, fun r => ih r (hx.2 r)⟩

/-- A computation without questions asks none. -/
lemma Asks.ofExcept (x : Except ε α) : (ofExcept x : Interaction ε Q R α).Asks P := by
  cases x with
  | ok a => trivial
  | error e => trivial

/-- After a computation without questions, the rest asks what it asks. -/
lemma Asks.ofExcept_bind {x : Except ε α} {f : α → Interaction ε Q R β}
    (hf : ∀ a, x = .ok a → (f a).Asks P) :
    ((Interaction.ofExcept x : Interaction ε Q R α) >>= f).Asks P := by
  cases x with
  | ok a => exact hf a rfl
  | error e => trivial

/-- A branch asks what its sides ask. -/
lemma Asks.ite {c : Prop} [Decidable c] {x y : Interaction ε Q R α} (hx : x.Asks P)
    (hy : y.Asks P) : (if c then x else y).Asks P := by
  by_cases hc : c
  · rwa [if_pos hc]
  · rwa [if_neg hc]

/-- A substitution asks what the programs ask that answer the questions. -/
lemma Asks.substitute {Q' : Type} {R' : Q' → Type} {P' : Q' → Prop}
    {f : (q : Q) → Interaction ε Q' R' (R q)} {x : Interaction ε Q R α} (hx : x.Asks P)
    (hf : ∀ q, P q → (f q).Asks P') : (x.substitute f).Asks P' := by
  induction x with
  | done a => trivial
  | fail e => trivial
  | ask q next ih => exact Asks.bind (hf q hx.1) fun r => ih r (hx.2 r)

/-- Every question is a question. -/
lemma asks_true (x : Interaction ε Q R α) : x.Asks fun _ => True := by
  induction x with
  | done a => trivial
  | fail e => trivial
  | ask q next ih => exact ⟨trivial, ih⟩

/-- What is asked of a smaller set is asked of a greater one. -/
lemma Asks.mono {P' : Q → Prop} (h : ∀ q, P q → P' q) {x : Interaction ε Q R α}
    (hx : x.Asks P) : x.Asks P' := by
  induction x with
  | done a => trivial
  | fail e => trivial
  | ask q next ih => exact ⟨h q hx.1, fun r => ih r (hx.2 r)⟩

end Asks

section Ensures

variable {G : Type} {may : (q : Q) → R q → Prop} {note : (q : Q) → R q → G → G} {g : G}

/-- Weaken the postcondition. -/
lemma Ensures.weaken {x : Interaction ε Q R α} {Post Post' : Except ε α → G → Prop}
    (hx : Ensures may note x g Post) (hpost : ∀ result g', Post result g' → Post' result g') :
    Ensures may note x g Post' := by
  induction x generalizing g with
  | done a => exact hpost _ g hx
  | fail e => exact hpost _ g hx
  | ask q next ih => exact fun r hr => ih r (hx r hr)

/-- Sequencing: an error of the first part ends the sequence. -/
lemma Ensures.bind {x : Interaction ε Q R α} {f : α → Interaction ε Q R β}
    {Post : Except ε β → G → Prop}
    (hx : Ensures may note x g fun result g' =>
      match result with
      | .ok a => Ensures may note (f a) g' Post
      | .error e => Post (.error e) g') :
    Ensures may note (x >>= f) g Post := by
  induction x generalizing g with
  | done a => exact hx
  | fail e => exact hx
  | ask q next ih => exact fun r hr => ih r (hx r hr)

/-- Catching errors. -/
lemma Ensures.attempt {x : Interaction ε Q R α} {Post : Except ε (Except ε α) → G → Prop}
    (hx : Ensures may note x g fun result g' => Post (.ok result) g') :
    Ensures may note x.attempt g Post := by
  induction x generalizing g with
  | done a => exact hx
  | fail e => exact hx
  | ask q next ih => exact fun r hr => ih r (hx r hr)

/-- A computation without questions. -/
lemma Ensures.ofExcept {x : Except ε α} {Post : Except ε α → G → Prop} (hpost : Post x g) :
    Ensures may note (ofExcept x : Interaction ε Q R α) g Post := by
  cases x with
  | ok a => exact hpost
  | error e => exact hpost

/-- A branch. -/
lemma Ensures.ite {c : Prop} [Decidable c] {x y : Interaction ε Q R α}
    {Post : Except ε α → G → Prop} (hx : c → Ensures may note x g Post)
    (hy : ¬ c → Ensures may note y g Post) : Ensures may note (if c then x else y) g Post := by
  by_cases hc : c
  · rw [if_pos hc]
    exact hx hc
  · rw [if_neg hc]
    exact hy hc

/-- A program that asks only what keeps an invariant of the observer keeps it. -/
lemma Asks.ensures {P : Q → Prop} {I : G → Prop} {x : Interaction ε Q R α} (hx : x.Asks P)
    (hnote : ∀ q r g, P q → may q r → I g → I (note q r g)) (hg : I g) :
    Ensures may note x g fun _ g' => I g' := by
  induction x generalizing g with
  | done a => exact hg
  | fail e => exact hg
  | ask q next ih => exact fun r hr => ih r (hx.2 r) (hnote q r g hx.1 hr hg)

end Ensures

section Obeys

variable {G : Type} {may : G → Q → Prop} {note : (q : Q) → R q → G → G} {g : G}

/-- Weaken the postcondition. -/
lemma Obeys.weaken {x : Interaction ε Q R α} {Post Post' : Except ε α → G → Prop}
    (hx : Obeys may note x g Post) (hpost : ∀ result g', Post result g' → Post' result g') :
    Obeys may note x g Post' := by
  induction x generalizing g with
  | done a => exact hpost _ g hx
  | fail e => exact hpost _ g hx
  | ask q next ih => exact ⟨hx.1, fun r => ih r (hx.2 r)⟩

/-- Sequencing: an error of the first part ends the sequence. -/
lemma Obeys.bind {x : Interaction ε Q R α} {f : α → Interaction ε Q R β}
    {Post : Except ε β → G → Prop}
    (hx : Obeys may note x g fun result g' =>
      match result with
      | .ok a => Obeys may note (f a) g' Post
      | .error e => Post (.error e) g') :
    Obeys may note (x >>= f) g Post := by
  induction x generalizing g with
  | done a => exact hx
  | fail e => exact hx
  | ask q next ih => exact ⟨hx.1, fun r => ih r (hx.2 r)⟩

/-- Catching errors. -/
lemma Obeys.attempt {x : Interaction ε Q R α} {Post : Except ε (Except ε α) → G → Prop}
    (hx : Obeys may note x g fun result g' => Post (.ok result) g') :
    Obeys may note x.attempt g Post := by
  induction x generalizing g with
  | done a => exact hx
  | fail e => exact hx
  | ask q next ih => exact ⟨hx.1, fun r => ih r (hx.2 r)⟩

/-- A program that asks only what an observer allows, and does not move for, obeys. -/
lemma Asks.obeys {P : Q → Prop} {x : Interaction ε Q R α} (hx : x.Asks P)
    (hmay : ∀ q, P q → may g q) (hnote : ∀ q r, P q → note q r g = g) :
    Obeys may note x g fun _ g' => g' = g := by
  induction x with
  | done a => rfl
  | fail e => rfl
  | ask q next ih =>
    refine ⟨hmay q hx.1, fun r => ?_⟩
    rw [hnote q r hx.1]
    exact ih r (hx.2 r)

end Obeys

/-! ## Servers that always answer -/

/-- Run a program against a server that answers every question.  The state is kept when the
program fails. -/
def serve (server : (q : Q) → S → R q × S) : Interaction ε Q R α → S → Except ε α × S
  | .done a, s => (.ok a, s)
  | .fail e, s => (.error e, s)
  | .ask q next, s => (next (server q s).1).serve server (server q s).2

section Serve

variable {server : (q : Q) → S → R q × S} {s : S}

/-- A result. -/
@[simp] lemma serve_pure (a : α) :
    (pure a : Interaction ε Q R α).serve server s = (.ok a, s) := rfl

/-- A failure. -/
@[simp] lemma serve_fail (e : ε) :
    (fail e : Interaction ε Q R α).serve server s = (.error e, s) := rfl

/-- A computation without questions. -/
@[simp] lemma serve_ofExcept (x : Except ε α) :
    (ofExcept x : Interaction ε Q R α).serve server s = (x, s) := by
  cases x with
  | ok a => rfl
  | error e => rfl

/-- The second part of a sequence runs when the first has a result. -/
lemma serve_bind (x : Interaction ε Q R α) (f : α → Interaction ε Q R β) :
    (x >>= f).serve server s =
      match x.serve server s with
      | (.ok a, t) => (f a).serve server t
      | (.error e, t) => (.error e, t) := by
  induction x generalizing s with
  | done a => rfl
  | fail e => rfl
  | ask q next ih => exact ih (server q s).1

/-- Programs that go on alike after the same first part. -/
lemma serve_bind_congr {x : Interaction ε Q R α} {f g : α → Interaction ε Q R β}
    (h : ∀ a t, (f a).serve server t = (g a).serve server t) :
    (x >>= f).serve server s = (x >>= g).serve server s := by
  rw [serve_bind, serve_bind]
  cases x.serve server s with
  | mk result t =>
    cases result with
    | ok a => exact h a t
    | error e => rfl

/-- Catching errors: what was an outcome is a result. -/
@[simp] lemma serve_attempt (x : Interaction ε Q R α) :
    x.attempt.serve server s = (.ok (x.serve server s).1, (x.serve server s).2) := by
  induction x generalizing s with
  | done a => rfl
  | fail e => rfl
  | ask q next ih => exact ih (server q s).1

/-- After a caught part, the rest runs with its outcome. -/
lemma serve_attempt_bind (x : Interaction ε Q R α) (f : Except ε α → Interaction ε Q R β) :
    (x.attempt >>= f).serve server s =
      (f (x.serve server s).1).serve server (x.serve server s).2 := by
  rw [serve_bind, serve_attempt]

/-- Sequences may be bracketed either way. -/
lemma bind_bind {γ : Type} (x : Interaction ε Q R α) (f : α → Interaction ε Q R β)
    (g : β → Interaction ε Q R γ) : x >>= f >>= g = x >>= fun a => f a >>= g := by
  induction x with
  | done a => rfl
  | fail e => rfl
  | ask q next ih => exact congrArg (ask q) (funext fun r => ih r)

end Serve

/-- A sequence is substituted in its two parts. -/
lemma substitute_bind {Q' : Type} {R' : Q' → Type} {f : (q : Q) → Interaction ε Q' R' (R q)}
    (x : Interaction ε Q R α) (g : α → Interaction ε Q R β) :
    (x >>= g).substitute f = x.substitute f >>= fun a => (g a).substitute f := by
  induction x with
  | done a => rfl
  | fail e => rfl
  | ask q next ih =>
    change (f q >>= fun r => (next r >>= g).substitute f) =
      (f q >>= fun r => (next r).substitute f) >>= fun a => (g a).substitute f
    rw [bind_bind]
    exact congrArg (f q >>= ·) (funext ih)

/-! ## Watching a handler -/

/-- A handler that also keeps what a watcher makes of the questions and answers. -/
def Handler.watch {G : Type} (h : Handler ε Q R S) (note : (q : Q) → R q → G → G) :
    Handler ε Q R (S × G) := fun q (s, g) =>
  match h q s with
  | .ok (r, s') => .ok (r, s', note q r g)
  | .error e => .error e

/-- Watching changes nothing. -/
lemma run_watch {G : Type} (h : Handler ε Q R S) (note : (q : Q) → R q → G → G)
    {x : Interaction ε Q R α} {s t : S} {a : α} (g : G) (hrun : x.run h s = .ok (a, t)) :
    ∃ g', x.run (h.watch note) (s, g) = .ok (a, t, g') := by
  induction x generalizing s g with
  | done b =>
    obtain ⟨rfl, rfl⟩ := Prod.mk.inj (Except.ok.inj hrun)
    exact ⟨g, rfl⟩
  | fail e => cases hrun
  | ask q next ih =>
    unfold Interaction.run at hrun ⊢
    unfold Handler.watch
    split at hrun
    · rename_i r s' hq
      simp only [hq]
      exact ih r (note q r g) hrun
    · cases hrun

/-! ## Records and replays -/

/-- A record of questions and answers. -/
abbrev Record (Q : Type) (R : Q → Type) := List ((q : Q) × R q)

/-- With the given answers to its questions, one program becomes the other. -/
inductive Follows : Interaction ε Q R α → Record Q R → Interaction ε Q R α → Prop
  | nil (x : Interaction ε Q R α) : Follows x [] x
  | cons {q : Q} {r : R q} {next : R q → Interaction ε Q R α} {record : Record Q R}
      {y : Interaction ε Q R α} (h : Follows (next r) record y) :
      Follows (.ask q next) (⟨q, r⟩ :: record) y

/-- The handler gives the recorded answers, one after the other. -/
inductive Replays (h : Handler ε Q R S) : S → Record Q R → S → Prop
  | nil (s : S) : Replays h s [] s
  | cons {q : Q} {r : R q} {record : Record Q R} {s s' t : S} (hq : h q s = .ok (r, s'))
      (hrest : Replays h s' record t) : Replays h s (⟨q, r⟩ :: record) t

/-- One more answer. -/
lemma Follows.snoc {x : Interaction ε Q R α} {record : Record Q R} {q : Q}
    {next : R q → Interaction ε Q R α} (h : Follows x record (.ask q next)) (r : R q) :
    Follows x (record ++ [⟨q, r⟩]) (next r) := by
  generalize hy : Interaction.ask q next = y at h
  induction h with
  | nil x =>
    subst hy
    exact .cons (.nil _)
  | cons _ ih => exact .cons (ih hy)

/-- What is left of a program asks what the program asks. -/
lemma Asks.follows {P : Q → Prop} {x y : Interaction ε Q R α} {record : Record Q R}
    (hx : x.Asks P) (h : Follows x record y) : y.Asks P := by
  induction h with
  | nil x => exact hx
  | cons _ ih => exact ih (hx.2 _)

/-- An observer that keeps the record. -/
def keep (q : Q) (r : R q) (record : Record Q R) : Record Q R := record ++ [⟨q, r⟩]

/-- **What is left of a program that obeys goes on obeying**, with the record where it is. -/
theorem Obeys.follows {may : Record Q R → Q → Prop} {Post : Except ε α → Record Q R → Prop}
    {x y : Interaction ε Q R α} {past record : Record Q R} (hx : x.Obeys may keep past Post)
    (hf : Follows x record y) : y.Obeys may keep (past ++ record) Post := by
  induction hf generalizing past with
  | nil x =>
    rw [List.append_nil]
    exact hx
  | @cons q r next record y _ ih =>
    have hrest := ih (hx.2 r)
    rwa [keep, List.append_assoc] at hrest

/-- Records replay one after the other. -/
lemma Replays.append {h : Handler ε Q R S} {s t u : S} {record record' : Record Q R}
    (hr : Replays h s record t) (hr' : Replays h t record' u) :
    Replays h s (record ++ record') u := by
  induction hr with
  | nil => exact hr'
  | cons hq _ ih => exact .cons hq (ih hr')

/-- **The replay theorem.**  A program that a record leads to its result has that result when it
is run against any handler that gives the recorded answers. -/
theorem run_of_follows {h : Handler ε Q R S} {x : Interaction ε Q R α} {record : Record Q R}
    {a : α} {s t : S} (hf : Follows x record (.done a)) (hr : Replays h s record t) :
    x.run h s = .ok (a, t) := by
  generalize hy : Interaction.done a = y at hf
  induction hf generalizing s with
  | nil x =>
    subst hy
    cases hr
    rfl
  | cons _ ih =>
    cases hr with
    | cons hq hrest =>
      rw [run, hq]
      exact ih hrest hy

end Interaction
