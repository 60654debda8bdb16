import Chimera.Foundations.Kleene
import Chimera.Foundations.SqlGrammar

/-!
# What SQL conditions mean

The value of an expression, over any server that says what its words, functions and comparisons
mean.  Null is a missing value.  A comparison with null is null, and the connectives are those of
three-valued logic.  The parameters are taken from a list, one for each placeholder from the left;
an expression takes a list of parameters when it uses up this list and nothing behind it.
-/

namespace SqlGrammar

/-- What a server makes of the parts of an expression.  Null is a value that is missing.  Where the
answer itself is missing, the server is not known to have one. -/
structure Server (V : Type) where
  /-- A column, or a number. -/
  word : List Char → Option (Option V)
  /-- A string literal. -/
  text : List Char → V
  /-- A function. -/
  call : List Char → List (Option V) → Option (Option V)
  /-- A cast of a value. -/
  cast : List Char → V → Option (Option V)
  /-- A sum or a product of two values. -/
  arith : Char → V → V → Option (Option V)
  /-- A comparison of two values. -/
  compare : List Char → V → V → Option Bool
  /-- A match of two values. -/
  regexp : V → V → Option Kleene
  /-- A truth value. -/
  ofBool : Bool → V
  /-- A value where a condition stands. -/
  holds : V → Option Bool

variable {V : Type}

/-- What needs a value is null on null. -/
def onValue {α : Type} (f : V → Option (Option α)) : Option V → Option (Option α)
  | some v => f v
  | none => some none

/-- What needs two values is null when one of them is. -/
def onValues {α : Type} (f : V → V → Option (Option α)) (x y : Option V) : Option (Option α) :=
  onValue (fun a => onValue (f a) y) x

/-- Null on the left. -/
lemma onValues_none {α : Type} (f : V → V → Option (Option α)) (y : Option V) :
    onValues f none y = some none := rfl

/-- Null on the right. -/
lemma onValues_some_none {α : Type} (f : V → V → Option (Option α)) (a : V) :
    onValues f (some a) none = some none := rfl

/-- A comparison. -/
def Server.compares (S : Server V) (op : List Char) : Option V → Option V → Option Kleene :=
  onValues fun a b => (S.compare op a b).map some

/-- A truth value as a value. -/
def Server.ofTruth (S : Server V) (t : Kleene) : Option V := t.map S.ofBool

/-- A value as a truth value. -/
def Server.truth (S : Server V) : Option V → Option Kleene := onValue fun v => (S.holds v).map some

/-- A computation that takes parameters from the front of a list, and may have no answer. -/
abbrev Taking (V α : Type) := StateT (List (Option V)) Option α

/-- The next parameter. -/
def nextParam : Taking V (Option V)
  | [] => none
  | p :: ps => some (p, ps)

/-- An answer that takes no parameter. -/
def answer {α : Type} (x : Option α) : Taking V α := fun ps => x.map fun a => (a, ps)

section Eval

variable (S : Server V)

mutual

/-- The value of an expression. -/
def Expr.eval : Expr → Taking V (Option V)
  | .word t => answer (S.word t)
  | .text t => return some (S.text t)
  | .param => nextParam
  | .call name args => do answer (S.call name (← Expr.evalAll args))
  | .cast e type => do answer (onValue (S.cast type) (← e.eval))
  | .arith op left right => do answer (onValues (S.arith op) (← left.eval) (← right.eval))
  | .compare op left right => do
    return S.ofTruth (← answer (S.compares op (← left.eval) (← right.eval)))
  | .isNull e => return S.ofTruth (some (← e.eval).isNone)
  | .regexp e pattern => do
    return S.ofTruth (← answer (onValues S.regexp (← e.eval) (← pattern.eval)))
  | .inList e negated members => do
    let x ← e.eval
    let found ← answer ((← Expr.evalAll members).mapM (S.compares "=".toList x))
    return S.ofTruth (if negated then Kleene.not (Kleene.disj found) else Kleene.disj found)
  | .not e => do return S.ofTruth (Kleene.not (← answer (S.truth (← e.eval))))
  | .and parts => do
    return S.ofTruth (Kleene.conj (← answer ((← Expr.evalAll parts).mapM S.truth)))
  | .or parts => do
    return S.ofTruth (Kleene.disj (← answer ((← Expr.evalAll parts).mapM S.truth)))
termination_by structural e => e

/-- The values of several expressions. -/
def Expr.evalAll : List Expr → Taking V (List (Option V))
  | [] => return []
  | e :: es => return (← e.eval) :: (← Expr.evalAll es)
termination_by structural es => es

end

/-- The truth value of a condition with all of its parameters. -/
def Expr.condition (e : Expr) (ps : List (Option V)) : Option Kleene :=
  ((e.eval S).run ps).bind fun (v, rest) => if rest.isEmpty then S.truth v else none

/-! ## What an expression takes -/

/-- The computation uses up the parameters, and nothing behind them, for its answer. -/
def Consumes {α : Type} (run : Taking V α) (ps : List (Option V)) (a : α) : Prop :=
  ∀ rest, run.run (ps ++ rest) = some (a, rest)

end Eval

section Consumes

variable {S : Server V} {α β : Type} {run : Taking V α} {ps qs : List (Option V)} {a : α}
  {x y : Option V} {e left right : Expr} {es : List Expr} {xs : List (Option V)}

/-- A result that takes no parameter. -/
lemma Consumes.pure (a : α) : Consumes (pure a : Taking V α) [] a := fun _ => rfl

/-- An answer that is there. -/
lemma Consumes.answer {r : Option α} (h : r = some a) : Consumes (answer r : Taking V α) [] a := by
  intro rest
  rw [h]
  rfl

/-- One computation after the other. -/
lemma Consumes.bind {next : α → Taking V β} {b : β} (h : Consumes run ps a)
    (hb : Consumes (next a) qs b) :
    Consumes (run >>= next) (ps ++ qs) b := by
  intro rest
  rw [StateT.run_bind, List.append_assoc, h]
  exact hb rest

/-- A computation after which nothing is taken. -/
lemma Consumes.then {next : α → Taking V β} {b : β} (h : Consumes run ps a)
    (hb : Consumes (next a) [] b) :
    Consumes (run >>= next) ps b := by
  have hboth := h.bind hb
  rwa [List.append_nil] at hboth

/-- The parameter. -/
lemma consumes_param (x : Option V) : Consumes (Expr.param.eval S) [x] x := fun _ => rfl

/-- A literal. -/
lemma consumes_text (t : List Char) : Consumes ((Expr.text t).eval S) [] (some (S.text t)) :=
  .pure _

/-- A word. -/
lemma consumes_word {t : List Char} (h : S.word t = some x) :
    Consumes ((Expr.word t).eval S) [] x :=
  .answer h

/-- A cast. -/
lemma consumes_cast {type : List Char} (h : Consumes (e.eval S) ps x)
    (hy : onValue (S.cast type) x = some y) : Consumes ((Expr.cast e type).eval S) ps y :=
  h.then (.answer hy)

/-- A sum or a product. -/
lemma consumes_arith {op : Char} {z : Option V} (hleft : Consumes (left.eval S) ps x)
    (hright : Consumes (right.eval S) qs y) (hz : onValues (S.arith op) x y = some z) :
    Consumes ((Expr.arith op left right).eval S) (ps ++ qs) z :=
  hleft.bind (hright.then (.answer hz))

/-- A comparison. -/
lemma consumes_compare {op : List Char} {t : Kleene} (hleft : Consumes (left.eval S) ps x)
    (hright : Consumes (right.eval S) qs y) (ht : S.compares op x y = some t) :
    Consumes ((Expr.compare op left right).eval S) (ps ++ qs) (S.ofTruth t) :=
  hleft.bind (hright.then ((Consumes.answer ht).then (.pure _)))

/-- A test for null. -/
lemma consumes_isNull (h : Consumes (e.eval S) ps x) :
    Consumes ((Expr.isNull e).eval S) ps (S.ofTruth (some x.isNone)) :=
  h.then (.pure _)

/-- A match. -/
lemma consumes_regexp {t : Kleene} (hleft : Consumes (left.eval S) ps x)
    (hright : Consumes (right.eval S) qs y) (ht : onValues S.regexp x y = some t) :
    Consumes ((Expr.regexp left right).eval S) (ps ++ qs) (S.ofTruth t) :=
  hleft.bind (hright.then ((Consumes.answer ht).then (.pure _)))

/-- A negation. -/
lemma consumes_not {t : Kleene} (h : Consumes (e.eval S) ps x) (ht : S.truth x = some t) :
    Consumes ((Expr.not e).eval S) ps (S.ofTruth (Kleene.not t)) :=
  h.then ((Consumes.answer ht).then (.pure _))

/-- No expressions. -/
lemma consumes_nil : Consumes (Expr.evalAll S []) [] [] := .pure _

/-- One more expression in front. -/
lemma consumes_cons (h : Consumes (e.eval S) ps x) (hs : Consumes (Expr.evalAll S es) qs xs) :
    Consumes (Expr.evalAll S (e :: es)) (ps ++ qs) (x :: xs) :=
  h.bind (hs.then (.pure _))

/-- A function. -/
lemma consumes_call {name : List Char} (h : Consumes (Expr.evalAll S es) ps xs)
    (hy : S.call name xs = some y) : Consumes ((Expr.call name es).eval S) ps y :=
  h.then (.answer hy)

/-- A list test. -/
lemma consumes_inList {negated : Bool} {found : List Kleene} (h : Consumes (e.eval S) ps x)
    (hs : Consumes (Expr.evalAll S es) qs xs)
    (hfound : xs.mapM (S.compares "=".toList x) = some found) :
    Consumes ((Expr.inList e negated es).eval S) (ps ++ qs)
      (S.ofTruth (if negated then Kleene.not (Kleene.disj found) else Kleene.disj found)) :=
  h.bind (hs.then ((Consumes.answer hfound).then (.pure _)))

/-- A conjunction. -/
lemma consumes_and {ts : List Kleene} (h : Consumes (Expr.evalAll S es) ps xs)
    (hts : xs.mapM S.truth = some ts) :
    Consumes ((Expr.and es).eval S) ps (S.ofTruth (Kleene.conj ts)) :=
  h.then ((Consumes.answer hts).then (.pure _))

/-- A disjunction. -/
lemma consumes_or {ts : List Kleene} (h : Consumes (Expr.evalAll S es) ps xs)
    (hts : xs.mapM S.truth = some ts) :
    Consumes ((Expr.or es).eval S) ps (S.ofTruth (Kleene.disj ts)) :=
  h.then ((Consumes.answer hts).then (.pure _))

/-- **The truth value of a condition** that takes its parameters. -/
lemma condition_eq {t : Kleene} (h : Consumes (e.eval S) ps x) (ht : S.truth x = some t) :
    e.condition S ps = some t := by
  have hrun := h []
  rw [List.append_nil] at hrun
  rw [Expr.condition, hrun]
  exact ht

/-- A truth value is one, where the server holds it to be one. -/
lemma truth_ofTruth (hS : ∀ b, S.holds (S.ofBool b) = some b) (t : Kleene) :
    S.truth (S.ofTruth t) = some t := by
  cases t with
  | none => rfl
  | some b =>
    change (S.holds (S.ofBool b)).map some = some (some b)
    rw [hS]
    rfl

end Consumes

/-! ## One parameter for each placeholder -/

mutual

/-- The placeholders of an expression. -/
def Expr.holes : Expr → ℕ
  | .word _ | .text _ => 0
  | .param => 1
  | .call _ args => Expr.holesAll args
  | .cast e _ | .isNull e | .not e => e.holes
  | .arith _ left right | .compare _ left right | .regexp left right => left.holes + right.holes
  | .inList e _ members => e.holes + Expr.holesAll members
  | .and parts | .or parts => Expr.holesAll parts
termination_by structural e => e

/-- The placeholders of several expressions. -/
def Expr.holesAll : List Expr → ℕ
  | [] => 0
  | e :: es => e.holes + Expr.holesAll es
termination_by structural es => es

end

/-- Of as many parameters the computation uses up all, and nothing behind them; or it has no answer,
whatever is behind them. -/
def ConsumesCount {α : Type} (run : Taking V α) (n : ℕ) : Prop :=
  ∀ ps : List (Option V), ps.length = n →
    (∃ a, Consumes run ps a) ∨ ∀ rest, run.run (ps ++ rest) = none

section ConsumesCount

variable {S : Server V} {α β : Type} {run : Taking V α} {m n : ℕ}

/-- A result takes no parameter. -/
lemma ConsumesCount.pure (a : α) : ConsumesCount (pure a : Taking V α) 0 := by
  intro ps hps
  obtain rfl := List.length_eq_zero_iff.1 hps
  exact .inl ⟨a, .pure a⟩

/-- An answer takes no parameter. -/
lemma ConsumesCount.answer (r : Option α) : ConsumesCount (answer r : Taking V α) 0 := by
  intro ps hps
  obtain rfl := List.length_eq_zero_iff.1 hps
  cases r with
  | none => exact .inr fun _ => rfl
  | some a => exact .inl ⟨a, .answer rfl⟩

/-- A parameter. -/
lemma ConsumesCount.param : ConsumesCount (nextParam : Taking V (Option V)) 1 := by
  intro ps hps
  obtain ⟨p, rfl⟩ := List.length_eq_one_iff.1 hps
  exact .inl ⟨p, fun _ => rfl⟩

/-- One computation after the other. -/
lemma ConsumesCount.bind {next : α → Taking V β} (h : ConsumesCount run m)
    (hnext : ∀ a, ConsumesCount (next a) n) : ConsumesCount (run >>= next) (m + n) := by
  intro ps hps
  have hsplit : ps = ps.take m ++ ps.drop m := (List.take_append_drop m ps).symm
  rw [hsplit]
  rcases h (ps.take m) (by rw [List.length_take]; omega) with ⟨a, ha⟩ | hnone
  · rcases hnext a (ps.drop m) (by rw [List.length_drop]; omega) with ⟨b, hb⟩ | hnone
    · exact .inl ⟨b, ha.bind hb⟩
    · refine .inr fun rest => ?_
      rw [StateT.run_bind, List.append_assoc, ha]
      exact hnone rest
  · refine .inr fun rest => ?_
    rw [StateT.run_bind, List.append_assoc, hnone]
    rfl

/-- A computation after which nothing is taken. -/
lemma ConsumesCount.then {next : α → Taking V β} (h : ConsumesCount run n)
    (hnext : ∀ a, ConsumesCount (next a) 0) : ConsumesCount (run >>= next) n := h.bind hnext

mutual

/-- An expression takes one parameter for each of its placeholders. -/
lemma consumesCount_eval (S : Server V) : ∀ e : Expr, ConsumesCount (e.eval S) e.holes
  | .word _ => .answer _
  | .text _ => .pure _
  | .param => .param
  | .call _ args => (consumesCount_evalAll S args).then fun _ => .answer _
  | .cast e _ => (consumesCount_eval S e).then fun _ => .answer _
  | .isNull e => (consumesCount_eval S e).then fun _ => .pure _
  | .not e => (consumesCount_eval S e).then fun _ => (ConsumesCount.answer _).then fun _ => .pure _
  | .arith _ left right => (consumesCount_eval S left).bind fun _ =>
      (consumesCount_eval S right).then fun _ => .answer _
  | .compare _ left right => (consumesCount_eval S left).bind fun _ =>
      (consumesCount_eval S right).then fun _ => (ConsumesCount.answer _).then fun _ => .pure _
  | .regexp e pattern => (consumesCount_eval S e).bind fun _ =>
      (consumesCount_eval S pattern).then fun _ => (ConsumesCount.answer _).then fun _ => .pure _
  | .inList e _ members => (consumesCount_eval S e).bind fun _ =>
      (consumesCount_evalAll S members).then fun _ => (ConsumesCount.answer _).then fun _ => .pure _
  | .and parts => (consumesCount_evalAll S parts).then fun _ =>
      (ConsumesCount.answer _).then fun _ => .pure _
  | .or parts => (consumesCount_evalAll S parts).then fun _ =>
      (ConsumesCount.answer _).then fun _ => .pure _
termination_by structural e => e

/-- So do several expressions. -/
lemma consumesCount_evalAll (S : Server V) : ∀ es : List Expr,
    ConsumesCount (Expr.evalAll S es) (Expr.holesAll es)
  | [] => .pure _
  | e :: es => (consumesCount_eval S e).bind fun _ =>
      (consumesCount_evalAll S es).then fun _ => .pure _
termination_by structural es => es

end

/-- The truth value of an expression that takes its parameters, or has none. -/
lemma condition_cases (S : Server V) {e : Expr} {ps : List (Option V)} (h : ps.length = e.holes) :
    (∃ x, Consumes (e.eval S) ps x ∧ e.condition S ps = S.truth x) ∨
      (∀ rest, (e.eval S).run (ps ++ rest) = none) ∧ e.condition S ps = none := by
  rcases consumesCount_eval S e ps h with ⟨x, hx⟩ | hnone
  · have hrun := hx []
    rw [List.append_nil] at hrun
    exact .inl ⟨x, hx, by rw [Expr.condition, hrun]; rfl⟩
  · have hrun := hnone []
    rw [List.append_nil] at hrun
    exact .inr ⟨hnone, by rw [Expr.condition, hrun]; rfl⟩

/-- The truth values of several conditions, each with its own parameters. -/
def conditions (S : Server V) : List (Expr × List (Option V)) → Option (List Kleene)
  | [] => some []
  | (e, ps) :: parts => (e.condition S ps).bind fun t => (conditions S parts).map (t :: ·)

/-- The values of several expressions, with their parameters one after the other. -/
lemma run_evalAll (S : Server V) {parts : List (Expr × List (Option V))}
    (h : ∀ part ∈ parts, part.2.length = part.1.holes) :
    (∃ xs, Consumes (Expr.evalAll S (parts.map Prod.fst)) (parts.flatMap Prod.snd) xs ∧
        xs.mapM S.truth = conditions S parts) ∨
      (∀ rest, (Expr.evalAll S (parts.map Prod.fst)).run (parts.flatMap Prod.snd ++ rest) = none) ∧
        conditions S parts = none := by
  induction parts with
  | nil => exact .inl ⟨[], .pure _, rfl⟩
  | cons part parts ih =>
    obtain ⟨e, ps⟩ := part
    obtain ⟨hpart, hparts⟩ := List.forall_mem_cons.1 h
    rw [List.map_cons, List.flatMap_cons, conditions]
    rcases condition_cases S hpart with ⟨x, hx, hcondition⟩ | ⟨hnone, hcondition⟩
    · rcases ih hparts with ⟨xs, hxs, hconditions⟩ | ⟨hnone, hconditions⟩
      · refine .inl ⟨x :: xs, consumes_cons hx hxs, ?_⟩
        rw [List.mapM_cons, hconditions, hcondition]
        cases S.truth x with
        | none => rfl
        | some t => cases conditions S parts <;> rfl
      · refine .inr ⟨fun rest => ?_, ?_⟩
        · rw [Expr.evalAll, StateT.run_bind, List.append_assoc, hx]
          change ((Expr.evalAll S (parts.map Prod.fst)).run _).bind _ = none
          rw [hnone]
          rfl
        · rw [hconditions]
          cases e.condition S ps <;> rfl
    · refine .inr ⟨fun rest => ?_, by rw [hcondition]; rfl⟩
      rw [Expr.evalAll, StateT.run_bind, List.append_assoc, hnone]
      rfl

/-- **A conjunction of conditions.**  Its truth value is the conjunction of theirs, with their
parameters one after the other. -/
theorem condition_and {S : Server V} (hS : ∀ b, S.holds (S.ofBool b) = some b)
    {parts : List (Expr × List (Option V))} (h : ∀ part ∈ parts, part.2.length = part.1.holes) :
    (Expr.and (parts.map Prod.fst)).condition S (parts.flatMap Prod.snd) =
      (conditions S parts).map Kleene.conj := by
  rcases run_evalAll S h with ⟨xs, hxs, hconditions⟩ | ⟨hnone, hconditions⟩
  · rw [← hconditions]
    cases hts : xs.mapM S.truth with
    | some ts => exact condition_eq (consumes_and hxs hts) (truth_ofTruth hS _)
    | none =>
      have hrun := hxs []
      rw [List.append_nil] at hrun
      rw [Expr.condition, Expr.eval, StateT.run_bind, hrun]
      change (((answer (xs.mapM S.truth) : Taking V (List Kleene)).run []).bind _).bind _ = none
      rw [hts]
      rfl
  · have hrun := hnone []
    rw [List.append_nil] at hrun
    rw [hconditions, Expr.condition, Expr.eval, StateT.run_bind, hrun]
    rfl

/-- Several conditions are all true when each of them is. -/
lemma conditions_true_iff (S : Server V) (parts : List (Expr × List (Option V))) :
    (conditions S parts).map Kleene.conj = some (some true) ↔
      ∀ part ∈ parts, part.1.condition S part.2 = some (some true) := by
  induction parts with
  | nil => exact iff_of_true rfl nofun
  | cons part parts ih =>
    obtain ⟨e, ps⟩ := part
    rw [List.forall_mem_cons, ← ih, conditions]
    cases e.condition S ps with
    | none => simp
    | some t =>
      cases conditions S parts with
      | none => simp
      | some ts => simp [Kleene.conj_eq_true]

end ConsumesCount

end SqlGrammar
