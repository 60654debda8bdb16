import Chimera.Foundations.QuotedText

/-!
# A grammar of SQL conditions

The part of SQL's expressions that conditions are written in: tests of expressions, joined by
`NOT`, `AND` and `OR`, which bind in this order, and kept together by parentheses.  The lexer
reads what is outside string literals word by word; the parser has one level for each binding
strength, and comes back to the weakest one inside parentheses.  Chains of one connective are kept
as lists, so that no grouping is lost and none is made up.
-/

namespace SqlGrammar

open QuotedText

/-! ## Tokens -/

/-- The words that are no names. -/
inductive Keyword where
  | and
  | or
  | not
  | is
  | null
  | isIn
  | regexp
  | cast
  | as
deriving DecidableEq

/-- The keywords and how they are written. -/
def keywords : List (List Char × Keyword) :=
  [("AND".toList, .and), ("OR".toList, .or), ("NOT".toList, .not), ("IS".toList, .is),
    ("NULL".toList, .null), ("IN".toList, .isIn), ("REGEXP".toList, .regexp),
    ("CAST".toList, .cast), ("AS".toList, .as)]

/-- A token. -/
inductive Token where
  | keyword (k : Keyword)
  | word (t : List Char)
  | text (t : List Char)
  | operator (t : List Char)
  | symbol (c : Char)
deriving DecidableEq

/-- What the lexer has begun to read. -/
inductive Pending where
  | nothing
  | word (t : List Char)
  | text (t : List Char)
  | operator (t : List Char)
deriving DecidableEq

/-- Keywords are found in either case. -/
def Token.ofWord (t : List Char) : Token :=
  match keywords.lookup (t.map Char.toUpper) with
  | some k => .keyword k
  | none => .word t

/-- The end of what has begun. -/
def Pending.flush : Pending → List Token
  | .nothing => []
  | .word t => [.ofWord t]
  | .text t => [.text t]
  | .operator t => [.operator t]

/-- Names and numbers are made of these. -/
def isWordChar (c : Char) : Bool := c.isAlphanum || c = '_'

/-- Comparison operators are made of these. -/
def isOperatorChar (c : Char) : Bool := c = '<' || c = '=' || c = '>' || c = '!'

/-- One event of the reader of literals. -/
def lexStep : Pending → Event → Pending × List Token
  | p, .opened => (.text [], p.flush)
  | .text t, .content c => (.text (t ++ [c]), [])
  | p, .content _ => (p, [])
  | p, .code c =>
    if isWordChar c then
      match p with
      | .word t => (.word (t ++ [c]), [])
      | p => (.word [c], p.flush)
    else if isOperatorChar c then
      match p with
      | .operator t => (.operator (t ++ [c]), [])
      | p => (.operator [c], p.flush)
    else if c = ' ' then (.nothing, p.flush)
    else (.nothing, p.flush ++ [.symbol c])

/-- The lexer. -/
def lexRun : Pending → List Event → Pending × List Token
  | p, [] => (p, [])
  | p, e :: rest =>
    ((lexRun (lexStep p e).1 rest).1, (lexStep p e).2 ++ (lexRun (lexStep p e).1 rest).2)

/-- The tokens of a text, unless it ends inside a literal. -/
def tokensOf (text : List Char) : Option (List Token) :=
  let (state, events) := scan .outside text
  if state = .outside ∨ state = .quoted then
    some ((lexRun .nothing events).2 ++ (lexRun .nothing events).1.flush)
  else none

/-! ## Expressions -/

/-- An expression. -/
inductive Expr where
  | word (t : List Char)
  | text (t : List Char)
  | param
  | call (name : List Char) (args : List Expr)
  | cast (e : Expr) (type : List Char)
  /-- A sum or a product, from the left. -/
  | arith (op : Char) (left right : Expr)
  | compare (op : List Char) (left right : Expr)
  | isNull (e : Expr)
  | regexp (e pattern : Expr)
  | inList (e : Expr) (negated : Bool) (members : List Expr)
  | not (e : Expr)
  | and (parts : List Expr)
  | or (parts : List Expr)
deriving Inhabited

/-- A parser: what it reads in front, and what is left. -/
abbrev Parser (α : Type) := List Token → Option (α × List Token)

/-- One or more phrases with a separator between them, at most so many. -/
def chain (separator : Token) (phrase : Parser Expr) : ℕ → Parser (List Expr)
  | 0, _ => none
  | n + 1, ts =>
    (phrase ts).bind fun (e, rest) =>
      match rest with
      | [] => some ([e], [])
      | t :: rest' =>
        if t = separator then (chain separator phrase n rest').map fun (es, rest) => (e :: es, rest)
        else some ([e], t :: rest')

/-- A chain as long as the tokens allow. -/
def chained (separator : Token) (phrase : Parser Expr) : Parser (List Expr) := fun ts =>
  chain separator phrase (ts.length + 1) ts

/-- A chain of one phrase is that phrase. -/
def joined (join : List Expr → Expr) : List Expr → Expr
  | [e] => e
  | es => join es

/-- Sums and products associate to the left. -/
def foldLeft (op : Char) : List Expr → Expr
  | [] => default
  | e :: es => es.foldl (Expr.arith op) e

/-- The comparison operators. -/
def comparisons : List (List Char) :=
  ["=", "<", ">", "<=", ">=", "<>", "!="].map String.toList

section Levels

variable (inner : Parser Expr)

/-- Expressions between a parenthesis that was opened and the one that closes it. -/
def closedList : Parser (List Expr) := fun ts =>
  (chained (.symbol ',') inner ts).bind fun
    | (es, .symbol ')' :: rest) => some (es, rest)
    | _ => none

/-- Names, literals, parameters, calls, casts, and expressions in parentheses. -/
def atom : Parser Expr
  | .symbol '?' :: ts => some (.param, ts)
  | .text t :: ts => some (.text t, ts)
  | .symbol '(' :: ts =>
    (inner ts).bind fun
      | (e, .symbol ')' :: rest) => some (e, rest)
      | _ => none
  | .keyword .cast :: .symbol '(' :: ts =>
    (inner ts).bind fun
      | (e, .keyword .as :: .word type :: .symbol ')' :: rest) => some (.cast e type, rest)
      | _ => none
  | .word name :: .symbol '(' :: ts =>
    (closedList inner ts).map fun (args, rest) => (.call name args, rest)
  | .word t :: ts => some (.word t, ts)
  | _ => none

/-- Products. -/
def product : Parser Expr := fun ts =>
  (chained (.symbol '*') (atom inner) ts).map fun (es, rest) => (foldLeft '*' es, rest)

/-- Sums. -/
def sum : Parser Expr := fun ts =>
  (chained (.symbol '+') (product inner) ts).map fun (es, rest) => (foldLeft '+' es, rest)

/-- What follows an expression that is tested. -/
def tested (e : Expr) : Parser Expr
  | .keyword .is :: .keyword .null :: rest => some (.isNull e, rest)
  | .keyword .regexp :: rest =>
    (sum inner rest).map fun (pattern, rest) => (.regexp e pattern, rest)
  | .keyword .isIn :: .symbol '(' :: rest =>
    (closedList inner rest).map fun (members, rest) => (.inList e false members, rest)
  | .keyword .not :: .keyword .isIn :: .symbol '(' :: rest =>
    (closedList inner rest).map fun (members, rest) => (.inList e true members, rest)
  | .operator op :: rest =>
    if op ∈ comparisons then
      (sum inner rest).map fun (right, rest) => (.compare op e right, rest)
    else none
  | rest => some (e, rest)

/-- Tests. -/
def test : Parser Expr := fun ts => (sum inner ts).bind fun (e, rest) => tested inner e rest

/-- Negations. -/
def negation : Parser Expr
  | .keyword .not :: ts => (negation ts).map fun (e, rest) => (.not e, rest)
  | ts => test inner ts

/-- Conjunctions. -/
def conjunction : Parser Expr := fun ts =>
  (chained (.keyword .and) (negation inner) ts).map fun (es, rest) => (joined .and es, rest)

/-- Disjunctions. -/
def disjunction : Parser Expr := fun ts =>
  (chained (.keyword .or) (conjunction inner) ts).map fun (es, rest) => (joined .or es, rest)

end Levels

/-- Expressions, with parentheses at most so deep. -/
def expr : ℕ → Parser Expr
  | 0 => fun _ => none
  | d + 1 => disjunction (expr d)

/-- The expression that a text spells. -/
def parse (text : List Char) : Option Expr :=
  (tokensOf text).bind fun ts =>
    match expr (ts.length + 1) ts with
    | some (e, []) => some e
    | _ => none

/-! ## The tokens of texts after one another -/

/-- The lexer reads two lists of events one after the other. -/
lemma lexRun_append (p : Pending) (es fs : List Event) :
    lexRun p (es ++ fs) = ((lexRun (lexRun p es).1 fs).1,
      (lexRun p es).2 ++ (lexRun (lexRun p es).1 fs).2) := by
  induction es generalizing p with
  | nil => rfl
  | cons e es ih => simp [lexRun, ih]

/-- The text ends where a token ends, outside literals. -/
def Ends (t : List Char) (ts : List Token) : Prop :=
  (scan .outside t).1 = .outside ∧ lexRun .nothing (scan .outside t).2 = (.nothing, ts)

instance (t : List Char) (ts : List Token) : Decidable (Ends t ts) :=
  inferInstanceAs (Decidable ((scan .outside t).1 = .outside ∧
    lexRun .nothing (scan .outside t).2 = (.nothing, ts)))

/-- The text begins with a character that belongs to no token before it. -/
def Breaks : List Char → Prop
  | [] => False
  | c :: _ => isWordChar c = false ∧ isOperatorChar c = false ∧ c ≠ '\''

instance : DecidablePred Breaks
  | [] => inferInstanceAs (Decidable False)
  | c :: _ => inferInstanceAs
    (Decidable (isWordChar c = false ∧ isOperatorChar c = false ∧ c ≠ '\''))

/-- What the lexer makes of the events of a text, from an end of a token on. -/
lemma tokensOf_eq_some {t : List Char} {ts : List Token} :
    tokensOf t = some ts ↔
      ((scan .outside t).1 = .outside ∨ (scan .outside t).1 = .quoted) ∧
        (lexRun .nothing (scan .outside t).2).2 ++
          (lexRun .nothing (scan .outside t).2).1.flush = ts := by
  unfold tokensOf
  rcases scan .outside t with ⟨s, es⟩
  by_cases hs : s = .outside ∨ s = .quoted <;> simp [hs]

/-- After the end of a token the tokens of what follows come. -/
lemma Ends.append {t u : List Char} {ts us : List Token} (ht : Ends t ts)
    (hu : tokensOf u = some us) : tokensOf (t ++ u) = some (ts ++ us) := by
  obtain ⟨hstate, hrun⟩ := ht
  rw [tokensOf_eq_some] at hu ⊢
  rw [scan_append, hstate, lexRun_append, hrun]
  exact ⟨hu.1, by rw [List.append_assoc, hu.2]⟩

/-- A character that breaks ends what has begun. -/
lemma lexStep_break {c : Char} (hword : isWordChar c = false) (hoperator : isOperatorChar c = false)
    (p : Pending) : lexStep p (.code c) =
      ((lexStep .nothing (.code c)).1, p.flush ++ (lexStep .nothing (.code c)).2) := by
  by_cases hc : c = ' '
  · subst hc
    cases p <;> rfl
  · cases p <;> simp [lexStep, hword, hoperator, hc, Pending.flush]

/-- A text that breaks is read on its own. -/
lemma tokensOf_append {t u : List Char} {ts us : List Token} (ht : tokensOf t = some ts)
    (hbreaks : Breaks u) (hu : tokensOf u = some us) : tokensOf (t ++ u) = some (ts ++ us) := by
  match u, hbreaks with
  | c :: rest, ⟨hword, hoperator, hquote⟩ =>
    rw [tokensOf_eq_some] at ht hu ⊢
    obtain ⟨hstate, rfl⟩ := ht
    have hscan : ∀ s, s = .outside ∨ s = .quoted →
        scan s (c :: rest) = scan .outside (c :: rest) := by
      rintro s (rfl | rfl)
      · rfl
      · exact scan_quoted (List.cons_ne_nil c rest) (by simpa using hquote)
    have hevents : (scan .outside (c :: rest)).2 = .code c :: (scan .outside rest).2 := by
      simp [scan, step, hquote]
    rw [scan_append, hscan _ hstate, lexRun_append]
    rw [hevents] at hu ⊢
    rw [lexRun, lexStep_break hword hoperator]
    rw [lexRun] at hu
    exact ⟨hu.1, by rw [← hu.2]; simp only [List.append_assoc]⟩

/-- The content of a literal is collected. -/
lemma lexRun_content (t content : List Char) :
    lexRun (.text t) (content.map .content) = (.text (t ++ content), []) := by
  induction content generalizing t with
  | nil => simp [lexRun]
  | cons c content ih => simp [lexRun, lexStep, ih]

/-- A quoted text is one token, with what the reader of literals makes of it. -/
lemma tokensOf_literal {t content : List Char}
    (h : scan .inside t = (.inside, content.map .content)) :
    tokensOf (Piece.literal t).text = some [.text content] := by
  have hscan : scan .outside (Piece.literal t).text =
      (.quoted, .opened :: content.map .content) := by
    have hquote : scan .outside ('\'' :: (t ++ ['\''])) =
        ((scan .inside (t ++ ['\''])).1, .opened :: (scan .inside (t ++ ['\''])).2) := rfl
    have hclose : scan .inside ['\''] = (.quoted, []) := rfl
    change scan .outside ('\'' :: (t ++ ['\''])) = _
    rw [hquote, scan_append, h, hclose, List.append_nil]
  rw [tokensOf_eq_some, hscan]
  refine ⟨Or.inr rfl, ?_⟩
  rw [lexRun]
  change [] ++ (lexRun (.text []) (content.map .content)).2 ++
    (lexRun (.text []) (content.map .content)).1.flush = _
  rw [lexRun_content]
  rfl

/-- Two fixed texts around one that is read. -/
lemma Ends.enclose {front t back : List Char} {fs ts bs : List Token} (hfront : Ends front fs)
    (ht : tokensOf t = some ts) (hbreaks : Breaks back) (hback : tokensOf back = some bs) :
    tokensOf (front ++ (t ++ back)) = some (fs ++ (ts ++ bs)) :=
  hfront.append (tokensOf_append ht hbreaks hback)

/-- A text that breaks also does with more behind it. -/
lemma Breaks.append {t : List Char} (h : Breaks t) (u : List Char) : Breaks (t ++ u) := by
  match t, h with
  | _ :: _, h => exact h

/-- Texts with a separator between them. -/
lemma tokensOf_intercalate {α : Type} {separator : List Char} {s : Token}
    {text : α → List Char} {tokens : α → List Token} (hbreaks : Breaks separator)
    (hends : Ends separator [s]) {xs : List α}
    (h : ∀ x ∈ xs, tokensOf (text x) = some (tokens x)) :
    tokensOf (separator.intercalate (xs.map text)) = some ([s].intercalate (xs.map tokens)) := by
  induction xs with
  | nil => rfl
  | cons x xs ih =>
    have hx := h x List.mem_cons_self
    have htail := ih fun y hy => h y (List.mem_cons_of_mem x hy)
    match xs with
    | [] =>
      rw [List.map_singleton, List.map_singleton, List.intercalate_singleton,
        List.intercalate_singleton]
      exact hx
    | y :: ys =>
      rw [List.map_cons, List.map_cons, List.map_cons, List.map_cons, List.intercalate_cons_cons,
        List.intercalate_cons_cons, List.append_assoc, List.append_assoc]
      exact tokensOf_append hx (hbreaks.append _) (hends.append htail)

/-! ## Chains -/

section Chains

variable {separator : Token} {phrase : Parser Expr}

/-- Whatever the parser leaves begins with no token of the list. -/
def Leaves (result : Option (Expr × List Token)) (stops : List Token) : Prop :=
  ∀ e rest t, result = some (e, rest) → rest.head? = some t → t ∉ stops

/-- A chain of one phrase. -/
lemma chained_eq {ts : List Token} (h : Leaves (phrase ts) [separator]) :
    chained separator phrase ts = (phrase ts).map fun (e, rest) => ([e], rest) := by
  rw [chained, chain]
  cases hphrase : phrase ts with
  | none => rfl
  | some result =>
    obtain ⟨e, rest⟩ := result
    match rest with
    | [] => rfl
    | t :: rest =>
      have ht : t ≠ separator := fun heq => h e _ t hphrase rfl (List.mem_singleton.2 heq)
      simp only [Option.bind_some, ht, if_false, Option.map_some]

/-- A chain of phrases that are read one by one, as long as none of them fails. -/
lemma chain_intercalate {α : Type} {tokens : α → List Token} {tree : α → Expr} {good : α → Bool}
    {rest : List Token} (hrest : rest.head? ≠ some separator) (x : α) (xs : List α) {n : ℕ}
    (hn : xs.length < n)
    (h : ∀ y ∈ x :: xs, ∀ rest', rest' = rest ∨ rest'.head? = some separator →
      phrase (tokens y ++ rest') = if good y then some (tree y, rest') else none) :
    chain separator phrase n ([separator].intercalate ((x :: xs).map tokens) ++ rest) =
      if (x :: xs).all good then some ((x :: xs).map tree, rest) else none := by
  induction xs generalizing x n with
  | nil =>
    obtain ⟨n, rfl⟩ : ∃ k, n = k + 1 := ⟨n - 1, by simp only [List.length_nil] at hn; omega⟩
    have hx := h x List.mem_cons_self rest (Or.inl rfl)
    rw [List.map_cons, List.map_nil, List.intercalate_singleton, chain, hx]
    by_cases hgood : good x = true
    · match rest with
      | [] => simp [hgood]
      | t :: rest =>
        have ht : t ≠ separator := fun heq => hrest (by rw [heq]; rfl)
        simp [hgood, ht]
    · simp [hgood]
  | cons y ys ih =>
    obtain ⟨n, rfl⟩ : ∃ k, n = k + 1 := ⟨n - 1, by omega⟩
    have hys : ys.length < n := by
      simp only [List.length_cons] at hn
      omega
    have htail := ih y hys fun z hz => h z (List.mem_cons_of_mem x hz)
    have hx := h x List.mem_cons_self
      (separator :: ([separator].intercalate ((y :: ys).map tokens) ++ rest)) (Or.inr rfl)
    have hsplit : [separator].intercalate ((x :: y :: ys).map tokens) ++ rest =
        tokens x ++ separator :: ([separator].intercalate ((y :: ys).map tokens) ++ rest) := by
      rw [List.map_cons, List.map_cons, List.intercalate_cons_cons, List.append_assoc,
        List.append_assoc, ← List.map_cons]
      rfl
    rw [hsplit, chain, hx]
    by_cases hgood : good x = true
    · rw [if_pos hgood, Option.bind_some]
      dsimp only
      rw [if_pos rfl, htail]
      by_cases hall : (y :: ys).all good = true
      · rw [if_pos hall, if_pos (by rw [List.all_cons, hgood, hall, Bool.and_self])]
        rfl
      · rw [if_neg hall, if_neg (by rwa [List.all_cons, hgood, Bool.true_and])]
        rfl
    · rw [if_neg hgood, if_neg (by rw [List.all_cons]; simp [hgood])]
      rfl

/-- Joined lists are at least as long as there are separators. -/
lemma length_intercalate (parts : List (List Token)) :
    parts.length ≤ ([separator].intercalate parts).length + 1 := by
  induction parts with
  | nil => simp
  | cons part parts ih =>
    match parts with
    | [] => simp
    | next :: parts =>
      rw [List.intercalate_cons_cons]
      simp only [List.length_append, List.length_cons, List.length_nil] at ih ⊢
      omega

/-- Each of the joined lists is at most as long as all of them. -/
lemma length_le_intercalate {part : List Token} {parts : List (List Token)} (h : part ∈ parts) :
    part.length ≤ ([separator].intercalate parts).length := by
  induction parts with
  | nil => simp at h
  | cons first parts ih =>
    match parts with
    | [] =>
      have heq : part = first := List.mem_singleton.1 h
      simp [heq]
    | next :: parts =>
      rw [List.intercalate_cons_cons]
      simp only [List.length_append, List.length_cons, List.length_nil] at ih ⊢
      rcases List.mem_cons.1 h with rfl | hmem
      · omega
      · have hle := ih hmem
        omega

/-- As `chain_intercalate`, with as many phrases as there are. -/
lemma chained_intercalate {α : Type} {tokens : α → List Token} {tree : α → Expr} {good : α → Bool}
    {rest : List Token} (hrest : rest.head? ≠ some separator) {xs : List α} (hxs : xs ≠ [])
    (h : ∀ y ∈ xs, ∀ rest', rest' = rest ∨ rest'.head? = some separator →
      phrase (tokens y ++ rest') = if good y then some (tree y, rest') else none) :
    chained separator phrase ([separator].intercalate (xs.map tokens) ++ rest) =
      if xs.all good then some (xs.map tree, rest) else none := by
  match xs, hxs with
  | x :: xs, _ =>
    refine chain_intercalate hrest x xs ?_ h
    have hlength := @length_intercalate separator ((x :: xs).map tokens)
    rw [List.length_map, List.length_cons] at hlength
    rw [List.length_append]
    omega

end Chains

/-! ## From one level to the next -/

/-- The tokens that end an expression. -/
def Closes (rest : List Token) : Prop :=
  ∀ t, rest.head? = some t → t ∈ [.symbol ')', .symbol ',', .keyword .as]

/-- The tokens that end a test: those that end an expression, and the connectives. -/
def Stops (rest : List Token) : Prop :=
  ∀ t, rest.head? = some t →
    t ∈ [.symbol ')', .symbol ',', .keyword .as, .keyword .and, .keyword .or]

/-- The end of an expression ends a test. -/
lemma Closes.stops {rest : List Token} (h : Closes rest) : Stops rest := by
  intro t ht
  have hmem := h t ht
  simp only [List.mem_cons, List.not_mem_nil, or_false] at hmem ⊢
  tauto

section Lifts

variable {inner : Parser Expr} {ts rest : List Token} {e : Expr}

/-- An atom that no product or sum continues. -/
lemma sum_eq (h : Leaves (atom inner ts) [.symbol '*', .symbol '+']) :
    sum inner ts = atom inner ts := by
  have hproduct : product inner ts = atom inner ts := by
    rw [product, chained_eq fun e rest t he ht hmem => h e rest t he ht (by simp_all)]
    cases atom inner ts <;> rfl
  rw [sum, chained_eq, hproduct]
  · cases atom inner ts <;> rfl
  · rw [hproduct]
    exact fun e rest t he ht hmem => h e rest t he ht (by simp_all)

/-- An expression in front of the end of a test. -/
lemma tested_of_stops (h : Stops rest) : tested inner e rest = some (e, rest) := by
  match rest with
  | [] => rfl
  | t :: rest =>
    have hmem := h t rfl
    simp only [List.mem_cons, List.not_mem_nil, or_false] at hmem
    rcases hmem with rfl | rfl | rfl | rfl | rfl <;> rfl

/-- A sum that ends a test. -/
lemma test_of_sum (h : sum inner ts = some (e, rest)) (hrest : Stops rest) :
    test inner ts = some (e, rest) := by
  rw [test, h, Option.bind_some]
  exact tested_of_stops hrest

/-- What does not begin with `NOT` is a test. -/
lemma negation_eq (h : ts.head? ≠ some (.keyword .not)) : negation inner ts = test inner ts := by
  match ts with
  | [] => rfl
  | t :: ts =>
    rw [negation]
    intro ts' heq
    exact h (congrArg List.head? heq)

/-- A negation that is all of a disjunction. -/
lemma disjunction_eq (h : Leaves (negation inner ts) [.keyword .and, .keyword .or]) :
    disjunction inner ts = negation inner ts := by
  have hconjunction : conjunction inner ts = negation inner ts := by
    rw [conjunction, chained_eq fun e rest t he ht hmem => h e rest t he ht (by simp_all)]
    cases negation inner ts <;> rfl
  rw [disjunction, chained_eq, hconjunction]
  · cases negation inner ts <;> rfl
  · rw [hconjunction]
    exact fun e rest t he ht hmem => h e rest t he ht (by simp_all)

/-- A conjunction that is a negation. -/
lemma conjunction_eq (h : Leaves (negation inner ts) [.keyword .and]) :
    conjunction inner ts = negation inner ts := by
  rw [conjunction, chained_eq h]
  cases negation inner ts <;> rfl

end Lifts

/-! ## Phrases -/

/-- The parser reads the phrase in front of the end of an expression. -/
def Reads (p : Parser Expr) (ts : List Token) (e : Expr) : Prop :=
  ∀ rest, Closes rest → p (ts ++ rest) = some (e, rest)

/-- The phrase is an atom that ends of itself. -/
def Atomic (inner : Parser Expr) (ts : List Token) (e : Expr) : Prop :=
  ∀ rest, atom inner (ts ++ rest) = some (e, rest)

/-- A closing parenthesis ends an expression. -/
lemma closes_parenthesis (rest : List Token) : Closes (.symbol ')' :: rest) := by
  intro t ht
  obtain rfl := Option.some.inj ht
  simp

/-- Nothing ends an expression. -/
lemma closes_nil : Closes [] := nofun

section Phrases

variable {inner : Parser Expr} {ts rest : List Token} {e : Expr} {d : ℕ}

/-- An atom is no negation. -/
lemma head_of_atom (h : atom inner ts = some (e, rest)) : ts.head? ≠ some (.keyword .not) := by
  intro hhead
  match ts with
  | t :: ts =>
    obtain rfl : t = .keyword .not := Option.some.inj hhead
    cases h

/-- An atom in front of what no sum continues. -/
lemma sum_of_atom (h : atom inner ts = some (e, rest))
    (hrest : ∀ t, rest.head? = some t → t ∉ [.symbol '*', .symbol '+']) :
    sum inner ts = some (e, rest) := by
  rw [sum_eq, h]
  intro e' rest' t he ht
  rw [h] at he
  obtain ⟨rfl, rfl⟩ := Prod.mk.inj (Option.some.inj he)
  exact hrest t ht

/-- What ends a test continues no sum. -/
lemma Stops.sum (hrest : Stops rest) :
    ∀ t, rest.head? = some t → t ∉ [.symbol '*', .symbol '+'] := by
  intro t ht hmem
  have hstop := hrest t ht
  simp only [List.mem_cons, List.not_mem_nil, or_false] at hstop hmem
  rcases hmem with rfl | rfl <;> simp at hstop

/-- An atom is a negation in front of the end of a test. -/
lemma negation_of_atom (h : atom inner ts = some (e, rest)) (hrest : Stops rest) :
    negation inner ts = some (e, rest) := by
  rw [negation_eq (head_of_atom h)]
  exact test_of_sum (sum_of_atom h hrest.sum) hrest

/-- What ends an expression is no connective. -/
lemma Closes.no_connective (hrest : Closes rest) :
    ∀ t, rest.head? = some t → t ∉ [.keyword .and, .keyword .or] := by
  intro t ht hmem
  have hclose := hrest t ht
  simp only [List.mem_cons, List.not_mem_nil, or_false] at hclose hmem
  rcases hmem with rfl | rfl <;> simp at hclose

/-- A negation is an expression where it ends. -/
lemma expr_of_negation (h : negation (expr d) ts = some (e, rest)) (hrest : Closes rest) :
    expr (d + 1) ts = some (e, rest) := by
  rw [expr, disjunction_eq, h]
  intro e' rest' t he ht hmem
  rw [h] at he
  obtain ⟨rfl, rfl⟩ := Prod.mk.inj (Option.some.inj he)
  exact hrest.no_connective t ht hmem

/-- No negation, no expression. -/
lemma expr_of_negation_none (h : negation (expr d) ts = none) : expr (d + 1) ts = none := by
  rw [expr, disjunction_eq, h]
  rw [h]
  exact nofun

/-- An atom is read as an expression. -/
lemma Atomic.reads (h : Atomic (expr d) ts e) : Reads (expr (d + 1)) ts e := fun rest hrest =>
  expr_of_negation (negation_of_atom (h rest) hrest.stops) hrest

/-- A name is an atom where no parenthesis follows. -/
lemma atom_word (t : List Char) (hrest : rest.head? ≠ some (.symbol '(')) :
    atom inner (.word t :: rest) = some (.word t, rest) := by
  match rest with
  | [] => rfl
  | t' :: rest =>
    rw [atom]
    intro rest' heq
    exact hrest (congrArg List.head? heq)

/-- What ends an expression is not another token. -/
lemma Closes.head_ne (hrest : Closes rest) {t : Token}
    (ht : t ∉ [.symbol ')', .symbol ',', .keyword .as]) : rest.head? ≠ some t := fun heq =>
  ht (hrest t heq)

/-- A name is read as an expression. -/
lemma reads_word (t : List Char) : Reads (expr (d + 1)) [.word t] (.word t) := by
  intro rest hrest
  have hatom : atom (expr d) (.word t :: rest) = some (.word t, rest) :=
    atom_word t (hrest.head_ne (by simp))
  exact expr_of_negation (negation_of_atom hatom hrest.stops) hrest

/-- A literal is an atom. -/
lemma atomic_text (t : List Char) : Atomic inner [.text t] (.text t) := fun _ => rfl

/-- A parameter is an atom. -/
lemma atomic_param : Atomic inner [.symbol '?'] .param := fun _ => rfl

/-- Expressions in parentheses, one after the other. -/
lemma closedList_intercalate {phrases : List (List Token × Expr)} (hne : phrases ≠ [])
    (h : ∀ phrase ∈ phrases, Reads inner phrase.1 phrase.2) (rest : List Token) :
    closedList inner ([.symbol ','].intercalate (phrases.map Prod.fst) ++ .symbol ')' :: rest) =
      some (phrases.map Prod.snd, rest) := by
  have hchain : chained (.symbol ',') inner
      ([.symbol ','].intercalate (phrases.map Prod.fst) ++ .symbol ')' :: rest) =
        if phrases.all (fun _ => true) then
          some (phrases.map Prod.snd, .symbol ')' :: rest) else none := by
    refine chained_intercalate (by simp) hne fun phrase hphrase rest' hrest' => ?_
    rw [if_pos rfl]
    refine h phrase hphrase rest' ?_
    rcases hrest' with rfl | hhead
    · exact closes_parenthesis rest
    · intro t ht
      rw [hhead] at ht
      obtain rfl := Option.some.inj ht
      simp
  rw [closedList, hchain, if_pos (by simp)]
  rfl

/-- A call is an atom. -/
lemma atomic_call (name : List Char) {phrases : List (List Token × Expr)} (hne : phrases ≠ [])
    (h : ∀ phrase ∈ phrases, Reads inner phrase.1 phrase.2) :
    Atomic inner (.word name :: .symbol '(' ::
      ([.symbol ','].intercalate (phrases.map Prod.fst) ++ [.symbol ')']))
      (.call name (phrases.map Prod.snd)) := by
  intro rest
  rw [List.cons_append, List.cons_append, List.append_assoc, List.cons_append, List.nil_append,
    atom, closedList_intercalate hne h]
  rfl

/-- A cast is an atom. -/
lemma atomic_cast (type : List Char) (h : Reads inner ts e) :
    Atomic inner (.keyword .cast :: .symbol '(' ::
      (ts ++ [.keyword .as, .word type, .symbol ')'])) (.cast e type) := by
  intro rest
  have hinner := h (.keyword .as :: .word type :: .symbol ')' :: rest) (by
    intro t ht
    obtain rfl := Option.some.inj ht
    simp)
  rw [List.cons_append, List.cons_append, List.append_assoc, atom]
  change (inner (ts ++ .keyword .as :: .word type :: .symbol ')' :: rest)).bind _ = _
  rw [hinner]
  rfl

/-- An expression in parentheses is an atom. -/
lemma atomic_group (h : Reads inner ts e) :
    Atomic inner (.symbol '(' :: (ts ++ [.symbol ')'])) e := by
  intro rest
  rw [List.cons_append, List.append_assoc, List.cons_append, List.nil_append, atom,
    h _ (closes_parenthesis rest)]
  rfl

/-- A product of atoms, where it ends. -/
lemma product_intercalate {phrases : List (List Token × Expr)} (hne : phrases ≠ [])
    (hrest : rest.head? ≠ some (.symbol '*'))
    (h : ∀ phrase ∈ phrases, ∀ rest', rest' = rest ∨ rest'.head? = some (.symbol '*') →
      atom inner (phrase.1 ++ rest') = some (phrase.2, rest')) :
    product inner ([.symbol '*'].intercalate (phrases.map Prod.fst) ++ rest) =
      some (foldLeft '*' (phrases.map Prod.snd), rest) := by
  have hchain : chained (.symbol '*') (atom inner)
      ([.symbol '*'].intercalate (phrases.map Prod.fst) ++ rest) =
        if phrases.all (fun _ => true) then some (phrases.map Prod.snd, rest) else none :=
    chained_intercalate hrest hne fun phrase hphrase rest' hrest' => by
      rw [if_pos rfl, h phrase hphrase rest' hrest']
  rw [product, hchain, if_pos (by simp)]
  rfl

/-- A sum of products, where it ends. -/
lemma sum_intercalate {phrases : List (List Token × Expr)} (hne : phrases ≠ [])
    (hrest : rest.head? ≠ some (.symbol '+'))
    (h : ∀ phrase ∈ phrases, ∀ rest', rest' = rest ∨ rest'.head? = some (.symbol '+') →
      product inner (phrase.1 ++ rest') = some (phrase.2, rest')) :
    sum inner ([.symbol '+'].intercalate (phrases.map Prod.fst) ++ rest) =
      some (foldLeft '+' (phrases.map Prod.snd), rest) := by
  have hchain : chained (.symbol '+') (product inner)
      ([.symbol '+'].intercalate (phrases.map Prod.fst) ++ rest) =
        if phrases.all (fun _ => true) then some (phrases.map Prod.snd, rest) else none :=
    chained_intercalate hrest hne fun phrase hphrase rest' hrest' => by
      rw [if_pos rfl, h phrase hphrase rest' hrest']
  rw [sum, hchain, if_pos (by simp)]
  rfl

/-- An atom times a number, plus another atom. -/
lemma reads_scaled {us : List Token} {b : Expr} (ha : Atomic (expr d) ts e) (n : List Char)
    (hb : Atomic (expr d) us b) :
    Reads (expr (d + 1)) (ts ++ .symbol '*' :: .word n :: .symbol '+' :: us)
      (.arith '+' (.arith '*' e (.word n)) b) := by
  intro rest hrest
  have hproduct : ∀ rest' : List Token, rest' = rest ∨ rest'.head? = some (.symbol '+') →
      product (expr d) ((ts ++ [.symbol '*', .word n]) ++ rest') =
        some (.arith '*' e (.word n), rest') := by
    intro rest' hrest'
    have hne : ∀ c, c = '*' ∨ c = '(' → rest'.head? ≠ some (.symbol c) := by
      rintro c hc
      rcases hrest' with rfl | hplus
      · refine hrest.head_ne ?_
        rcases hc with rfl | rfl <;> simp
      · rcases hc with rfl | rfl <;> simp [hplus]
    refine @product_intercalate (expr d) rest' [(ts, e), ([.word n], .word n)] (by simp)
      (hne '*' (Or.inl rfl)) ?_
    rintro phrase hphrase rest'' hrest''
    rcases List.mem_cons.1 hphrase with rfl | hphrase
    · exact ha rest''
    · obtain rfl := List.mem_singleton.1 hphrase
      refine atom_word n ?_
      rcases hrest'' with rfl | hstar
      · exact hne '(' (Or.inr rfl)
      · simp [hstar]
  have hlast : ∀ rest' : List Token, rest' = rest ∨ rest'.head? = some (.symbol '+') →
      product (expr d) (us ++ rest') = some (b, rest') := by
    intro rest' hrest'
    have hne : rest'.head? ≠ some (.symbol '*') := by
      rcases hrest' with rfl | hplus
      · exact hrest.head_ne (by simp)
      · simp [hplus]
    have hphrases := @product_intercalate (expr d) rest' [(us, b)] (by simp) hne
    rw [List.map_singleton, List.intercalate_singleton] at hphrases
    refine hphrases ?_
    rintro phrase hphrase rest'' -
    obtain rfl := List.mem_singleton.1 hphrase
    exact hb rest''
  have hsum : sum (expr d) (ts ++ .symbol '*' :: .word n :: .symbol '+' :: us ++ rest) =
      some (.arith '+' (.arith '*' e (.word n)) b, rest) := by
    have hphrases := @sum_intercalate (expr d) rest
      [(ts ++ [.symbol '*', .word n], .arith '*' e (.word n)), (us, b)] (by simp)
      (hrest.head_ne (by simp))
    have htokens : [Token.symbol '+'].intercalate
        ([(ts ++ [.symbol '*', .word n], Expr.arith '*' e (.word n)), (us, b)].map Prod.fst) =
          ts ++ .symbol '*' :: .word n :: .symbol '+' :: us := by
      simp [List.intercalate]
    rw [htokens] at hphrases
    refine hphrases ?_
    rintro phrase hphrase rest' hrest'
    rcases List.mem_cons.1 hphrase with rfl | hphrase
    · exact hproduct rest' hrest'
    · obtain rfl := List.mem_singleton.1 hphrase
      exact hlast rest' hrest'
  refine expr_of_negation ?_ hrest
  rw [negation_eq]
  · exact test_of_sum hsum hrest.stops
  · rw [List.append_assoc]
    exact head_of_atom (ha _)

/-- Nothing is read from a closing parenthesis on. -/
lemma expr_parenthesis (d : ℕ) : expr d (.symbol ')' :: ts) = none := by
  match d with
  | 0 => rfl
  | d + 1 =>
    refine expr_of_negation_none ?_
    rw [negation_eq (by simp), test, sum_eq]
    · rfl
    · exact nofun

/-- A list of no expressions is not read. -/
lemma closedList_nil : closedList (expr d) (.symbol ')' :: ts) = none := by
  rw [closedList, chained_eq, expr_parenthesis]
  · rfl
  · rw [expr_parenthesis]
    exact nofun

end Phrases

/-! ## Phrases that are read or refused -/

/-- What the parser makes of a phrase: it reads it, unless the phrase is no good. -/
def readIf (good : Bool) (e : Expr) (rest : List Token) : Option (Expr × List Token) :=
  if good then some (e, rest) else none

section Junctions

variable {inner : Parser Expr} {ts rest : List Token} {e : Expr} {d : ℕ} {good : Bool}

/-- What is left of a phrase is what follows it. -/
lemma leaves_readIf {stops : List Token} (h : ∀ t, rest.head? = some t → t ∉ stops) :
    Leaves (readIf good e rest) stops := by
  intro e' rest' t he ht
  cases good with
  | false => cases he
  | true =>
    obtain ⟨rfl, rfl⟩ := Prod.mk.inj (Option.some.inj he)
    exact h t ht

/-- A negation, where an expression ends. -/
lemma expr_of_readIf (h : negation (expr d) ts = readIf good e rest) (hrest : Closes rest) :
    expr (d + 1) ts = readIf good e rest := by
  rw [expr, disjunction_eq, h]
  rw [h]
  exact leaves_readIf hrest.no_connective

/-- A phrase in parentheses is a negation. -/
lemma negation_group (h : inner (ts ++ .symbol ')' :: rest) = readIf good e (.symbol ')' :: rest))
    (hrest : Stops rest) :
    negation inner (.symbol '(' :: (ts ++ [.symbol ')']) ++ rest) = readIf good e rest := by
  have hsplit : .symbol '(' :: (ts ++ [.symbol ')']) ++ rest =
      .symbol '(' :: (ts ++ .symbol ')' :: rest) := by
    rw [List.cons_append, List.append_assoc]
    rfl
  have hatom : atom inner (.symbol '(' :: (ts ++ .symbol ')' :: rest)) = readIf good e rest := by
    rw [atom, h]
    cases good <;> rfl
  rw [hsplit]
  cases good with
  | true => exact negation_of_atom hatom hrest
  | false =>
    have hatom : atom inner (.symbol '(' :: (ts ++ .symbol ')' :: rest)) = none := hatom
    rw [negation_eq (by simp), test, sum_eq, hatom]
    · rfl
    · rw [hatom]
      exact nofun

/-- The connectives of conditions. -/
inductive Connective where
  | and
  | or
deriving DecidableEq

/-- The keyword of a connective. -/
def Connective.keyword : Connective → Keyword
  | .and => .and
  | .or => .or

/-- Parts that are joined; a single part stands alone. -/
def Connective.join : Connective → List Expr → Expr
  | .and => joined .and
  | .or => joined .or

/-- A separator ends a test. -/
lemma stops_keyword (connective : Connective) {rest' : List Token}
    (h : rest'.head? = some (.keyword connective.keyword)) : Stops rest' := by
  intro t ht
  rw [h] at ht
  obtain rfl := Option.some.inj ht
  cases connective <;> simp [Connective.keyword]

/-- Negations that are joined by one connective, where the expression ends. -/
lemma expr_junction {α : Type} {tokens : α → List Token} {tree : α → Expr} {full : α → Bool}
    (connective : Connective) {xs : List α} (hxs : xs ≠ []) (hrest : Closes rest)
    (h : ∀ y ∈ xs, ∀ rest', Stops rest' →
      negation (expr d) (tokens y ++ rest') = readIf (full y) (tree y) rest') :
    expr (d + 1) ([.keyword connective.keyword].intercalate (xs.map tokens) ++ rest) =
      readIf (xs.all full) (connective.join (xs.map tree)) rest := by
  have hhead : rest.head? ≠ some (.keyword connective.keyword) :=
    hrest.head_ne (by cases connective <;> simp [Connective.keyword])
  have hpart : ∀ y ∈ xs, ∀ rest',
      rest' = rest ∨ rest'.head? = some (.keyword connective.keyword) →
        negation (expr d) (tokens y ++ rest') = readIf (full y) (tree y) rest' := by
    intro y hy rest' hrest'
    refine h y hy rest' ?_
    rcases hrest' with rfl | hkeyword
    · exact hrest.stops
    · exact stops_keyword connective hkeyword
  rw [expr]
  cases connective with
  | and =>
    have hchain : conjunction (expr d) ([.keyword .and].intercalate (xs.map tokens) ++ rest) =
        readIf (xs.all full) (joined .and (xs.map tree)) rest := by
      have hparts : chained (.keyword .and) (negation (expr d))
          ([.keyword .and].intercalate (xs.map tokens) ++ rest) =
            if xs.all full then some (xs.map tree, rest) else none :=
        chained_intercalate hhead hxs hpart
      rw [conjunction, hparts, readIf]
      split <;> rfl
    have hleaves : Leaves (conjunction (expr d)
        ([.keyword .and].intercalate (xs.map tokens) ++ rest)) [.keyword .or] := by
      rw [hchain]
      exact leaves_readIf fun t ht hmem => hrest.no_connective t ht (by simp_all)
    change disjunction (expr d) ([.keyword .and].intercalate (xs.map tokens) ++ rest) = _
    rw [disjunction, chained_eq hleaves, hchain, readIf, readIf]
    split <;> rfl
  | or =>
    have hconjunction : ∀ y ∈ xs, ∀ rest',
        rest' = rest ∨ rest'.head? = some (.keyword .or) →
          conjunction (expr d) (tokens y ++ rest') = readIf (full y) (tree y) rest' := by
      intro y hy rest' hrest'
      rw [conjunction_eq, hpart y hy rest' hrest']
      rw [hpart y hy rest' hrest']
      refine leaves_readIf fun t ht hmem => ?_
      obtain rfl := List.mem_singleton.1 hmem
      rcases hrest' with rfl | hkeyword
      · exact hrest.no_connective _ ht (by simp)
      · rw [hkeyword] at ht
        simp at ht
    have hparts : chained (.keyword .or) (conjunction (expr d))
        ([.keyword .or].intercalate (xs.map tokens) ++ rest) =
          if xs.all full then some (xs.map tree, rest) else none :=
      chained_intercalate hhead hxs hconjunction
    change disjunction (expr d) ([.keyword .or].intercalate (xs.map tokens) ++ rest) = _
    rw [disjunction, hparts, readIf]
    split <;> rfl

end Junctions

end SqlGrammar
