import Chimera.Foundations.SqlGrammar
import Chimera.Translator.Emit
import Chimera.Translator.Injection

/-!
# The Boolean tree of a filter

The SQL that the compiler emits, read back by SQL's grammar.  The compiler leaves parentheses out
around a single part, and around what binds more strongly than the connective beside it.  What the
grammar makes of the text is the tree of the filter's query, with the same conjunctions,
disjunctions and negations at the same places, unless a `$not` is given no operators at all: then
the text has empty parentheses, and is no SQL.
-/

namespace Chimera

open QuotedText SqlGrammar

/-! ## Tokens -/

/-- The content of the literal of a path: its names are quoted, and nothing is escaped any more. -/
def plainPath (path : Path) : Text :=
  '$' :: path.flatMap fun name => '.' :: '"' :: name ++ ['"']

/-- The tokens of a function of the document and a JSON path. -/
def pathCallTokens (name : String) (content : Text) : List Token :=
  [.word name.toList, .symbol '(', .word "doc".toList, .symbol ',', .text content, .symbol ')']

/-- The tokens of `scalar_expr`. -/
def scalarTokens (path : Path) : List Token :=
  .word "COALESCE".toList :: .symbol '(' :: ([.symbol ','].intercalate
    (scalarWrappers.map fun wrapper =>
      pathCallTokens "JSON_VALUE" (plainPath (path ++ wrapper))) ++ [.symbol ')'])

/-- The tokens of one half of a timestamp. -/
def ordinalTokens (path : Path) (name : Text) : List Token :=
  .keyword .cast :: .symbol '(' :: (pathCallTokens "JSON_VALUE"
    (plainPath (path ++ ["$timestamp".toList]) ++ '.' :: name) ++
      [.keyword .as, .word "UNSIGNED".toList, .symbol ')'])

/-- The tokens of an operand. -/
def Operand.tokens : Operand → List Token
  | .scalar path => scalarTokens path
  | .double path => .keyword .cast :: .symbol '(' :: (scalarTokens path ++
    [.keyword .as, .word "DOUBLE".toList, .symbol ')'])
  | .ordinal path => .symbol '(' :: (ordinalTokens path "t".toList ++
    .symbol '*' :: .word "4294967296".toList :: .symbol '+' :: ordinalTokens path "i".toList ++
      [.symbol ')'])

/-- An operator of SQL, without the spaces around it. -/
def CompareOp.symbol : CompareOp → Text
  | .eq => "=".toList
  | .gt => ">".toList
  | .ge => ">=".toList
  | .lt => "<".toList
  | .le => "<=".toList

/-- The connective of a joiner. -/
def Joiner.connective : Joiner → Connective
  | .and => .and
  | .or => .or

mutual

/-- The tokens of a condition. -/
def Cond.tokens : Cond → List Token
  | .one => [.word "1".toList]
  | .zero => [.word "0".toList]
  | .compare operand op _ => operand.tokens ++ [.operator op.symbol, .symbol '?']
  | .isNull path => scalarTokens path ++ [.keyword .is, .keyword .null]
  | .regexp path _ => scalarTokens path ++ [.keyword .regexp, .symbol '?']
  | .contains path _ => .word "JSON_CONTAINS".toList :: .symbol '(' ::
    ([.symbol ','].intercalate [pathCallTokens "JSON_EXTRACT" (plainPath path), [.symbol '?']] ++
      [.symbol ')'])
  | .jsonExists path negated =>
    (if negated then [.keyword .not] else []) ++ pathCallTokens "JSON_EXISTS" (plainPath path)
  | .inList path negated members =>
    scalarTokens path ++ (if negated then [.keyword .not, .keyword .isIn] else [.keyword .isIn]) ++
      .symbol '(' :: ([.symbol ','].intercalate (members.map fun _ => [.symbol '?']) ++
        [.symbol ')'])
  | .junction joiner parts => .symbol '(' ::
    ([.keyword joiner.connective.keyword].intercalate (Cond.tokensAll parts) ++ [.symbol ')'])
  | .not cond => .keyword .not :: .symbol '(' :: (cond.tokens ++ [.symbol ')'])
termination_by structural cond => cond

/-- The tokens of several conditions. -/
def Cond.tokensAll : List Cond → List (List Token)
  | [] => []
  | part :: parts => part.tokens :: Cond.tokensAll parts
termination_by structural parts => parts

end

/-! ## Trees -/

/-- A function of the document and a JSON path. -/
def pathCall (name : String) (content : Text) : Expr :=
  .call name.toList [.word "doc".toList, .text content]

/-- `scalar_expr`. -/
def scalarTree (path : Path) : Expr :=
  .call "COALESCE".toList (scalarWrappers.map fun wrapper =>
    pathCall "JSON_VALUE" (plainPath (path ++ wrapper)))

/-- One half of a timestamp. -/
def ordinalTree (path : Path) (name : Text) : Expr :=
  .cast (pathCall "JSON_VALUE" (plainPath (path ++ ["$timestamp".toList]) ++ '.' :: name))
    "UNSIGNED".toList

/-- `comparable`, as a tree. -/
def Operand.tree : Operand → Expr
  | .scalar path => scalarTree path
  | .double path => .cast (scalarTree path) "DOUBLE".toList
  | .ordinal path => .arith '+' (.arith '*' (ordinalTree path "t".toList)
    (.word "4294967296".toList)) (ordinalTree path "i".toList)

/-- A comparison with a parameter. -/
def compareTree (operand : Operand) (op : CompareOp) : Expr :=
  .compare op.symbol operand.tree .param

/-- `JSON_CONTAINS` of a path and a parameter. -/
def containsTree (path : Path) : Expr :=
  .call "JSON_CONTAINS".toList [pathCall "JSON_EXTRACT" (plainPath path), .param]

/-- `JSON_EXISTS` of a path, or its negation. -/
def existsTree (path : Path) (negated : Bool) : Expr :=
  if negated then .not (pathCall "JSON_EXISTS" (plainPath path))
  else pathCall "JSON_EXISTS" (plainPath path)

mutual

/-- The tree of a condition. -/
def Cond.tree : Cond → Expr
  | .one => .word "1".toList
  | .zero => .word "0".toList
  | .compare operand op _ => compareTree operand op
  | .isNull path => .isNull (scalarTree path)
  | .regexp path _ => .regexp (scalarTree path) .param
  | .contains path _ => containsTree path
  | .jsonExists path negated => existsTree path negated
  | .inList path negated members =>
    .inList (scalarTree path) negated (members.map fun _ => .param)
  | .junction joiner parts => joiner.connective.join (Cond.treeAll parts)
  | .not cond => .not cond.tree
termination_by structural cond => cond

/-- The trees of several conditions. -/
def Cond.treeAll : List Cond → List Expr
  | [] => []
  | part :: parts => part.tree :: Cond.treeAll parts
termination_by structural parts => parts

end

/-- The tree of a test. -/
def Test.tree (path : Path) : Test → Expr
  | .equals .null => .isNull (scalarTree path)
  | .equals (.regex _ _) => .regexp (scalarTree path) .param
  | .equals v => .or [compareTree (comparable path v) .eq, containsTree path]
  | .compares op v => compareTree (comparable path v) op
  | .oneOf negated [] => .word (if negated then "1".toList else "0".toList)
  | .oneOf negated vs => .inList (scalarTree path) negated (vs.map fun _ => .param)
  | .present wanted => existsTree path !wanted
  | .matches _ => .regexp (scalarTree path) .param
  | .holds _ => containsTree path

mutual

/-- The tree of a query: its connectives are those of the query, at the same places. -/
def Query.tree : Query → Expr
  | .everything => .word "1".toList
  | .conj queries => Connective.and.join (Query.treeAll queries)
  | .disj queries => Connective.or.join (Query.treeAll queries)
  | .neg query => .not query.tree
  | .test path t => t.tree path
termination_by structural query => query

/-- The trees of several queries. -/
def Query.treeAll : List Query → List Expr
  | [] => []
  | query :: queries => query.tree :: Query.treeAll queries
termination_by structural queries => queries

end

/-! ## Empty parentheses -/

mutual

/-- The condition has no junction without parts, and no empty list. -/
def Cond.full : Cond → Bool
  | .inList _ _ members => !members.isEmpty
  | .junction _ parts => !parts.isEmpty && Cond.allFull parts
  | .not cond => cond.full
  | _ => true
termination_by structural cond => cond

/-- So do all of them. -/
def Cond.allFull : List Cond → Bool
  | [] => true
  | part :: parts => part.full && Cond.allFull parts
termination_by structural parts => parts

end

mutual

/-- The query joins no empty list of queries.  An accepted filter has such a query only where a
`$not` has an empty document. -/
def Query.full : Query → Bool
  | .conj queries | .disj queries => !queries.isEmpty && Query.allFull queries
  | .neg query => query.full
  | _ => true
termination_by structural query => query

/-- So do all of them. -/
def Query.allFull : List Query → Bool
  | [] => true
  | query :: queries => query.full && Query.allFull queries
termination_by structural queries => queries

end

/-- No name in the path has a quote. -/
def Unquoted (path : Path) : Prop := ∀ name ∈ path, '\'' ∉ name

/-! ## Reading the tokens -/

section Reading

variable {d : ℕ} {path : Path}

/-- A function of the document and a path is an atom. -/
lemma atomic_pathCall (name : String) (content : Text) :
    Atomic (expr (d + 1)) (pathCallTokens name content) (pathCall name content) := by
  refine @atomic_call (expr (d + 1)) name.toList
    [([.word "doc".toList], .word "doc".toList), ([.text content], .text content)] (by simp) ?_
  intro phrase hphrase
  rcases List.mem_cons.1 hphrase with rfl | hphrase
  · exact reads_word _
  · obtain rfl := List.mem_singleton.1 hphrase
    exact (atomic_text content).reads

/-- `scalar_expr` is an atom. -/
lemma atomic_scalarTokens : Atomic (expr (d + 2)) (scalarTokens path) (scalarTree path) := by
  have hcall := @atomic_call (expr (d + 2)) "COALESCE".toList
    (scalarWrappers.map fun wrapper => (pathCallTokens "JSON_VALUE" (plainPath (path ++ wrapper)),
      pathCall "JSON_VALUE" (plainPath (path ++ wrapper)))) (by simp [scalarWrappers]) (by
    intro phrase hphrase
    obtain ⟨wrapper, -, rfl⟩ := List.mem_map.1 hphrase
    exact (atomic_pathCall _ _).reads)
  rw [List.map_map, List.map_map] at hcall
  exact hcall

/-- One half of a timestamp is an atom. -/
lemma atomic_ordinalTokens (name : Text) :
    Atomic (expr (d + 2)) (ordinalTokens path name) (ordinalTree path name) :=
  atomic_cast _ (atomic_pathCall _ _).reads

/-- An operand is an atom. -/
lemma atomic_operand (operand : Operand) :
    Atomic (expr (d + 3)) operand.tokens operand.tree := by
  cases operand with
  | scalar path => exact atomic_scalarTokens
  | double path => exact atomic_cast _ atomic_scalarTokens.reads
  | ordinal path =>
    have ht : Atomic (expr (d + 2)) (ordinalTokens path "t".toList)
      (ordinalTree path "t".toList) := atomic_ordinalTokens _
    have hi : Atomic (expr (d + 2)) (ordinalTokens path "i".toList)
      (ordinalTree path "i".toList) := atomic_ordinalTokens _
    exact atomic_group (reads_scaled ht _ hi)

variable {rest : List Token}

/-- A comparison of an operand with a parameter. -/
lemma negation_compare (operand : Operand) (op : CompareOp) (hrest : Stops rest) :
    negation (expr (d + 3)) (operand.tokens ++ [.operator op.symbol, .symbol '?'] ++ rest) =
      some (compareTree operand op, rest) := by
  have hoperand : Atomic (expr (d + 3)) operand.tokens operand.tree := atomic_operand operand
  have hsum := sum_of_atom (hoperand (.operator op.symbol :: .symbol '?' :: rest)) (by simp)
  have hparam : sum (expr (d + 3)) (.symbol '?' :: rest) = some (.param, rest) :=
    sum_of_atom (atomic_param rest) hrest.sum
  rw [List.append_assoc]
  change negation (expr (d + 3)) (operand.tokens ++ .operator op.symbol :: .symbol '?' :: rest) = _
  rw [negation_eq (head_of_atom (hoperand _)), test, hsum, Option.bind_some]
  dsimp only
  rw [tested, if_pos (by cases op <;> decide), hparam]
  rfl

/-- What is tested after `scalar_expr`. -/
lemma negation_scalar {ts : List Token} {t : Token} (ht : t ∉ [.symbol '*', .symbol '+']) :
    negation (expr (d + 2)) (scalarTokens path ++ t :: ts) =
      tested (expr (d + 2)) (scalarTree path) (t :: ts) := by
  have hatom : Atomic (expr (d + 2)) (scalarTokens path) (scalarTree path) := atomic_scalarTokens
  have hsum := sum_of_atom (hatom (t :: ts)) fun t' ht' => by
    obtain rfl := Option.some.inj ht'
    exact ht
  rw [negation_eq (head_of_atom (hatom _)), test, hsum, Option.bind_some]

/-- The members of a list test. -/
lemma closedList_params (members : List Param) (rest : List Token) :
    closedList (expr (d + 1)) ([.symbol ','].intercalate (members.map fun _ => [.symbol '?']) ++
      .symbol ')' :: rest) =
        if members.isEmpty then none else some (members.map fun _ => .param, rest) := by
  match members with
  | [] => exact closedList_nil
  | member :: members =>
    have hlist := @closedList_intercalate (expr (d + 1))
      ((member :: members).map fun _ => ([.symbol '?'], .param)) (by simp) (by
        intro phrase hphrase
        obtain ⟨member, -, rfl⟩ := List.mem_map.1 hphrase
        exact atomic_param.reads) rest
    rw [List.map_map, List.map_map] at hlist
    exact hlist

/-- A list test. -/
lemma negation_inList (negated : Bool) (members : List Param) :
    negation (expr (d + 2)) ((Cond.inList path negated members).tokens ++ rest) =
      readIf (!members.isEmpty) (Cond.inList path negated members).tree rest := by
  have hsplit : (Cond.inList path negated members).tokens ++ rest =
      scalarTokens path ++ ((if negated then [.keyword .not, .keyword .isIn]
        else [.keyword .isIn]) ++ .symbol '(' ::
          ([.symbol ','].intercalate (members.map fun _ => [.symbol '?']) ++
            .symbol ')' :: rest)) := by
    rw [Cond.tokens]
    simp only [List.append_assoc, List.cons_append, List.nil_append]
  rw [hsplit, Cond.tree]
  cases negated with
  | false =>
    change negation _ (scalarTokens path ++ .keyword .isIn :: .symbol '(' :: _) = _
    rw [negation_scalar (by simp), tested, closedList_params]
    cases members <;> rfl
  | true =>
    change negation _ (scalarTokens path ++ .keyword .not :: .keyword .isIn :: .symbol '(' :: _) = _
    rw [negation_scalar (by simp), tested, closedList_params]
    cases members <;> rfl

/-- A test for presence. -/
lemma negation_exists (negated : Bool) (hrest : Stops rest) :
    negation (expr (d + 1)) ((Cond.jsonExists path negated).tokens ++ rest) =
      some (existsTree path negated, rest) := by
  have hcall : negation (expr (d + 1))
      (pathCallTokens "JSON_EXISTS" (plainPath path) ++ rest) =
        some (pathCall "JSON_EXISTS" (plainPath path), rest) :=
    negation_of_atom (atomic_pathCall _ _ rest) hrest
  cases negated with
  | false => exact hcall
  | true =>
    change negation _ (.keyword .not :: (pathCallTokens "JSON_EXISTS" (plainPath path) ++ rest)) = _
    rw [negation, hcall]
    rfl

/-- A containment. -/
lemma atomic_contains (candidate : Json) :
    Atomic (expr (d + 2)) (Cond.contains path candidate).tokens (containsTree path) := by
  refine @atomic_call (expr (d + 2)) "JSON_CONTAINS".toList
    [(pathCallTokens "JSON_EXTRACT" (plainPath path), pathCall "JSON_EXTRACT" (plainPath path)),
      ([.symbol '?'], .param)] (by simp) ?_
  intro phrase hphrase
  rcases List.mem_cons.1 hphrase with rfl | hphrase
  · exact (atomic_pathCall _ _).reads
  · obtain rfl := List.mem_singleton.1 hphrase
    exact atomic_param.reads

/-- The tokens of several conditions. -/
lemma tokensAll_eq_map (conds : List Cond) : Cond.tokensAll conds = conds.map Cond.tokens := by
  induction conds with
  | nil => rfl
  | cons cond conds ih => rw [Cond.tokensAll, ih, List.map_cons]

/-- The trees of several conditions. -/
lemma treeAll_eq_map (conds : List Cond) : Cond.treeAll conds = conds.map Cond.tree := by
  induction conds with
  | nil => rfl
  | cons cond conds ih => rw [Cond.treeAll, ih, List.map_cons]

/-- All conditions are full. -/
lemma allFull_eq_all (conds : List Cond) : Cond.allFull conds = conds.all Cond.full := by
  induction conds with
  | nil => rfl
  | cons cond conds ih => rw [Cond.allFull, ih, List.all_cons]

/-- The shortest tokens that need parentheses. -/
lemma three_le_scalarTokens : 3 ≤ (scalarTokens path).length := by
  simp only [scalarTokens, List.length_cons, List.length_append]
  omega

/-- An operand is at least as long. -/
lemma three_le_operandTokens (operand : Operand) : 3 ≤ operand.tokens.length := by
  cases operand with
  | scalar path => exact three_le_scalarTokens
  | double path | ordinal path =>
    simp only [Operand.tokens, List.length_cons, List.length_append]
    omega

/-- A junction, when its parts are read. -/
lemma negation_junction (joiner : Joiner) (parts : List Cond)
    (h : ∀ part ∈ parts, ∀ rest', Stops rest' →
      negation (expr d) (part.tokens ++ rest') = readIf part.full part.tree rest')
    (hrest : Stops rest) :
    negation (expr (d + 1)) ((Cond.junction joiner parts).tokens ++ rest) =
      readIf (Cond.junction joiner parts).full (Cond.junction joiner parts).tree rest := by
  rw [Cond.tokens, Cond.full, Cond.tree, tokensAll_eq_map, treeAll_eq_map, allFull_eq_all]
  refine negation_group ?_ hrest
  match parts with
  | [] => exact expr_parenthesis (d + 1)
  | part :: parts =>
    exact expr_junction joiner.connective (List.cons_ne_nil _ _) (closes_parenthesis rest) h

mutual

/-- The grammar reads the tokens of a condition as its tree, unless it has empty parentheses. -/
lemma negation_tokens : ∀ (cond : Cond) (d : ℕ), cond.tokens.length ≤ d →
    ∀ rest, Stops rest →
      negation (expr d) (cond.tokens ++ rest) = readIf cond.full cond.tree rest
  | .one, _, _, rest, hrest =>
    negation_of_atom (atom_word _ (fun heq => by simpa using hrest _ heq)) hrest
  | .zero, _, _, rest, hrest =>
    negation_of_atom (atom_word _ (fun heq => by simpa using hrest _ heq)) hrest
  | .compare operand op _, d, hd, rest, hrest => by
    have hthree := three_le_operandTokens operand
    obtain ⟨k, rfl⟩ : ∃ k, d = k + 3 := ⟨d - 3, by
      rw [Cond.tokens, List.length_append] at hd
      omega⟩
    exact negation_compare operand op hrest
  | .isNull path, d, hd, rest, hrest => by
    have hthree := @three_le_scalarTokens path
    obtain ⟨k, rfl⟩ : ∃ k, d = k + 2 := ⟨d - 2, by
      rw [Cond.tokens, List.length_append] at hd
      omega⟩
    rw [Cond.tokens, List.append_assoc]
    exact negation_scalar (by simp)
  | .regexp path _, d, hd, rest, hrest => by
    have hthree := @three_le_scalarTokens path
    obtain ⟨k, rfl⟩ : ∃ k, d = k + 2 := ⟨d - 2, by
      rw [Cond.tokens, List.length_append] at hd
      omega⟩
    have hparam : sum (expr (k + 2)) (.symbol '?' :: rest) = some (.param, rest) :=
      sum_of_atom (atomic_param rest) hrest.sum
    rw [Cond.tokens, List.append_assoc]
    change negation _ (scalarTokens path ++ .keyword .regexp :: .symbol '?' :: rest) = _
    rw [negation_scalar (by simp), tested, hparam]
    rfl
  | .contains path candidate, d, hd, rest, hrest => by
    obtain ⟨k, rfl⟩ : ∃ k, d = k + 2 := ⟨d - 2, by
      simp only [Cond.tokens, List.length_cons, List.length_append] at hd
      omega⟩
    exact negation_of_atom (atomic_contains candidate rest) hrest
  | .jsonExists path negated, d, hd, rest, hrest => by
    obtain ⟨k, rfl⟩ : ∃ k, d = k + 1 := ⟨d - 1, by
      simp only [Cond.tokens, pathCallTokens, List.length_cons, List.length_append] at hd
      omega⟩
    exact negation_exists negated hrest
  | .inList path negated members, d, hd, rest, hrest => by
    have hthree := @three_le_scalarTokens path
    obtain ⟨k, rfl⟩ : ∃ k, d = k + 2 := ⟨d - 2, by
      simp only [Cond.tokens, List.length_append] at hd
      omega⟩
    exact negation_inList negated members
  | .junction joiner parts, d, hd, rest, hrest => by
    rw [Cond.tokens, List.length_cons, List.length_append, tokensAll_eq_map] at hd
    obtain ⟨k, rfl⟩ : ∃ k, d = k + 1 := ⟨d - 1, by omega⟩
    refine negation_junction joiner parts (fun part hpart => ?_) hrest
    refine negation_tokensAll parts k (fun part hpart => ?_) part hpart
    have hle := @length_le_intercalate (.keyword joiner.connective.keyword) _ _
      (List.mem_map_of_mem (f := Cond.tokens) hpart)
    omega
  | .not cond, d, hd, rest, hrest => by
    rw [Cond.tokens, List.length_cons, List.length_cons, List.length_append] at hd
    obtain ⟨k, rfl⟩ : ∃ k, d = k + 1 := ⟨d - 1, by omega⟩
    have hcond := negation_tokens cond k (by omega) (.symbol ')' :: rest)
      (closes_parenthesis rest).stops
    have hgroup := negation_group (expr_of_readIf hcond (closes_parenthesis rest)) hrest
    rw [Cond.tokens, List.cons_append, negation, hgroup, Cond.full, Cond.tree]
    cases cond.full <;> rfl
termination_by structural cond => cond

/-- So does it with each of several conditions. -/
lemma negation_tokensAll : ∀ (parts : List Cond) (d : ℕ),
    (∀ part ∈ parts, part.tokens.length ≤ d) → ∀ part ∈ parts, ∀ rest, Stops rest →
      negation (expr d) (part.tokens ++ rest) = readIf part.full part.tree rest
  | [], _, _, _, hpart => absurd hpart List.not_mem_nil
  | first :: parts, d, hd, part, hpart => by
    intro rest hrest
    by_cases heq : part = first
    · rw [heq]
      exact negation_tokens first d (hd first List.mem_cons_self) rest hrest
    · exact negation_tokensAll parts d (fun p hp => hd p (List.mem_cons_of_mem _ hp)) part
        ((List.mem_cons.1 hpart).resolve_left heq) rest hrest
termination_by structural parts => parts

end

end Reading

/-! ## Lexing the text -/

section Lexing

variable {path : Path}

/-- The lexer takes the escaping of a name off. -/
lemma scan_escapeMember {name : Text} (h : '\'' ∉ name) :
    scan .inside (escapeMember name) = (.inside, name.map .content) := by
  induction name with
  | nil => rfl
  | cons c name ih =>
    have hc : c ≠ '\'' := fun heq => h (heq ▸ List.mem_cons_self)
    have htail := ih fun hmem => h (List.mem_cons_of_mem c hmem)
    have hcons : escapeMember (c :: name) =
        (if c = '"' ∨ c = '\\' then ['\\', c] else [c]) ++ escapeMember name := rfl
    have hhead : scan .inside (if c = '"' ∨ c = '\\' then ['\\', c] else [c]) =
        (.inside, [.content c]) := by
      by_cases hquote : c = '"'
      · subst hquote
        rfl
      · by_cases hback : c = '\\'
        · subst hback
          rfl
        · simp [hquote, hback, scan, step, hc]
    rw [hcons, scan_append, hhead, htail]
    rfl

/-- The lexer takes the escaping of a path off. -/
lemma scan_toJsonPath (h : Unquoted path) :
    scan .inside (toJsonPath path) = (.inside, (plainPath path).map .content) := by
  have hnames : scan .inside (path.flatMap fun name => '.' :: '"' :: escapeMember name ++ ['"']) =
      (.inside, (path.flatMap fun name => '.' :: '"' :: name ++ ['"']).map .content) := by
    induction path with
    | nil => rfl
    | cons name path ih =>
      have hname := scan_escapeMember (h name List.mem_cons_self)
      have htail := ih fun n hn => h n (List.mem_cons_of_mem name hn)
      have hquote : scan .inside ['"'] = (.inside, [.content '"']) := rfl
      have hopen (t : Text) : scan .inside ('.' :: '"' :: t) =
          ((scan .inside t).1, .content '.' :: .content '"' :: (scan .inside t).2) := rfl
      rw [List.flatMap_cons, List.flatMap_cons, scan_append, List.cons_append, List.cons_append,
        hopen, scan_append, hname, hquote, htail]
      simp
  have hdollar (t : Text) : scan .inside ('$' :: t) =
      ((scan .inside t).1, .content '$' :: (scan .inside t).2) := rfl
  rw [toJsonPath, plainPath, hdollar, hnames]
  rfl

/-- A longer path, whose further names have no quote. -/
lemma Unquoted.append {more : Path} (h : Unquoted path) (hmore : Unquoted more) :
    Unquoted (path ++ more) := by
  intro name hname
  exact (List.mem_append.1 hname).elim (h name) (hmore name)

/-- A function of the document and a JSON path. -/
lemma tokensOf_pathCall {name : String} {jsonPath content : Text}
    (hname : tokensOf (name.toList ++ "(doc".toList) =
      some [.word name.toList, .symbol '(', .word "doc".toList])
    (hpath : scan .inside jsonPath = (.inside, content.map .content)) :
    tokensOf (name.toList ++ "(doc".toList ++ (",".toList ++
      ((Piece.literal jsonPath).text ++ ")".toList))) = some (pathCallTokens name content) := by
  have hcomma : Ends ",".toList [.symbol ','] := by decide
  have hclose : tokensOf ")".toList = some [.symbol ')'] := by decide
  have hbreaks : Breaks ",".toList := by decide
  exact tokensOf_append hname (hbreaks.append _)
    (hcomma.append (tokensOf_append (tokensOf_literal hpath) (by decide) hclose))

/-- `JSON_VALUE` of a path. -/
lemma tokensOf_jsonValue {jsonPath content : Text}
    (hpath : scan .inside jsonPath = (.inside, content.map .content)) :
    tokensOf (textOf (jsonValuePieces .doc jsonPath)) =
      some (pathCallTokens "JSON_VALUE" content) := by
  have htext : textOf (jsonValuePieces .doc jsonPath) = "JSON_VALUE".toList ++ "(doc".toList ++
      (",".toList ++ ((Piece.literal jsonPath).text ++ ")".toList)) := by
    have hfront : "JSON_VALUE(".toList ++ DocColumn.doc.text =
        "JSON_VALUE".toList ++ "(doc".toList := rfl
    simp only [jsonValuePieces, hfront, textOf_code, textOf_literal, textOf_nil, List.append_nil,
      Piece.text, List.append_assoc]
  rw [htext]
  exact tokensOf_pathCall (by decide) hpath

/-- The encodings of a value have no quotes in their names. -/
lemma unquoted_of_mem_scalarWrappers {wrapper : Path} (h : wrapper ∈ scalarWrappers) :
    Unquoted wrapper := by
  revert wrapper
  unfold Unquoted
  decide

/-- `scalar_expr`. -/
lemma tokensOf_valueText (h : Unquoted path) :
    tokensOf (valueText .doc path) = some (scalarTokens path) := by
  have hparts : tokensOf (",".toList.intercalate (scalarWrappers.map fun wrapper =>
      textOf (jsonValuePieces .doc (toJsonPath (path ++ wrapper))))) =
        some ([.symbol ','].intercalate (scalarWrappers.map fun wrapper =>
          pathCallTokens "JSON_VALUE" (plainPath (path ++ wrapper)))) :=
    tokensOf_intercalate (by decide) (by decide) fun wrapper hwrapper =>
      tokensOf_jsonValue (scan_toJsonPath (h.append (unquoted_of_mem_scalarWrappers hwrapper)))
  have htext : valueText .doc path = "COALESCE(".toList ++
      (",".toList.intercalate (scalarWrappers.map fun wrapper =>
        textOf (jsonValuePieces .doc (toJsonPath (path ++ wrapper)))) ++ ")".toList) := by
    simp only [valueText, scalarPieces, List.cons_append, textOf_code, textOf_append,
      textOf_separated, List.map_map, textOf_nil, List.append_nil]
    rfl
  have hfront : Ends "COALESCE(".toList [.word "COALESCE".toList, .symbol '('] := by decide
  have hclose : tokensOf ")".toList = some [.symbol ')'] := by decide
  rw [htext]
  exact hfront.enclose hparts (by decide) hclose

/-- One half of a timestamp. -/
lemma tokensOf_ordinalPart {c : Char} (hc : c ≠ '\'' ∧ c ≠ '\\') (h : Unquoted path) :
    tokensOf (textOf (ordinalPart .doc path [c])) = some (ordinalTokens path [c]) := by
  have hpath : scan .inside (toJsonPath (path ++ ["$timestamp".toList]) ++ '.' :: [c]) =
      (.inside, (plainPath (path ++ ["$timestamp".toList]) ++ '.' :: [c]).map .content) := by
    have hplain : Plain ['.', c] := by
      intro c' hc'
      rcases List.mem_cons.1 hc' with rfl | hc'
      · decide
      · rwa [List.mem_singleton.1 hc']
    rw [scan_append, scan_toJsonPath (h.append (by unfold Unquoted; decide)),
      scan_inside_plain hplain, List.map_append]
  have htext : textOf (ordinalPart .doc path [c]) = "CAST(".toList ++
      (textOf (jsonValuePieces .doc (toJsonPath (path ++ ["$timestamp".toList]) ++ '.' :: [c])) ++
        " AS UNSIGNED)".toList) := by
    simp only [ordinalPart, List.cons_append, textOf_code, textOf_append, textOf_nil,
      List.append_nil]
  have hfront : Ends "CAST(".toList [.keyword .cast, .symbol '('] := by decide
  have hback : tokensOf " AS UNSIGNED)".toList =
      some [.keyword .as, .word "UNSIGNED".toList, .symbol ')'] := by decide
  rw [htext]
  exact hfront.enclose (tokensOf_jsonValue hpath) (by decide) hback

/-- An operand. -/
lemma tokensOf_operand {operand : Operand} (h : Unquoted operand.path) :
    tokensOf (textOf (operand.pieces .doc)) = some operand.tokens := by
  cases operand with
  | scalar path => exact tokensOf_valueText h
  | double path =>
    have htext : textOf ((Operand.double path).pieces .doc) =
        "CAST(".toList ++ (valueText .doc path ++ " AS DOUBLE)".toList) := by
      simp only [Operand.pieces, valueText, List.cons_append, textOf_code, textOf_append,
        textOf_nil, List.append_nil]
    have hfront : Ends "CAST(".toList [.keyword .cast, .symbol '('] := by decide
    have hback : tokensOf " AS DOUBLE)".toList =
        some [.keyword .as, .word "DOUBLE".toList, .symbol ')'] := by decide
    rw [htext]
    exact hfront.enclose (tokensOf_valueText h) (by decide) hback
  | ordinal path =>
    have htext : textOf ((Operand.ordinal path).pieces .doc) =
        "(".toList ++ (textOf (ordinalPart .doc path "t".toList) ++
          (" * 4294967296 + ".toList ++ (textOf (ordinalPart .doc path "i".toList) ++
            ")".toList))) := by
      simp only [Operand.pieces, List.cons_append, textOf_code, textOf_append, textOf_nil,
        List.append_nil, List.append_assoc]
    have hfront : Ends "(".toList [.symbol '('] := by decide
    have hscale : Ends " * 4294967296 + ".toList
        [.symbol '*', .word "4294967296".toList, .symbol '+'] := by decide
    have hclose : tokensOf ")".toList = some [.symbol ')'] := by decide
    have hbreaks : Breaks " * 4294967296 + ".toList := by decide
    have ht : tokensOf (textOf (ordinalPart .doc path "t".toList)) =
        some (ordinalTokens path "t".toList) := tokensOf_ordinalPart (by decide) h
    have hi : tokensOf (textOf (ordinalPart .doc path "i".toList)) =
        some (ordinalTokens path "i".toList) := tokensOf_ordinalPart (by decide) h
    have hsum := hfront.enclose ht (hbreaks.append _) (hscale.enclose hi (by decide) hclose)
    rw [htext, hsum, Operand.tokens]
    simp only [List.append_assoc, List.cons_append, List.nil_append]

/-- A test that comes after `scalar_expr`. -/
lemma tokensOf_tested {back : Text} {ts : List Token} (hpath : Unquoted path)
    (hbreaks : Breaks back) (hback : tokensOf back = some ts) :
    tokensOf (valueText .doc path ++ back) = some (scalarTokens path ++ ts) :=
  tokensOf_append (tokensOf_valueText hpath) hbreaks hback

/-- A comparison. -/
lemma tokensOf_compare {operand : Operand} (op : CompareOp) (param : Param)
    (h : Unquoted operand.path) :
    tokensOf ((Cond.compare operand op param).text .doc) =
      some (Cond.compare operand op param).tokens := by
  have htext : (Cond.compare operand op param).text .doc =
      textOf (operand.pieces .doc) ++ (op.text ++ "?".toList) := by
    simp only [Cond.text, Cond.pieces, textOf_append, textOf_code, textOf_nil, List.append_nil]
  have hop : Ends op.text [.operator op.symbol] := by cases op <;> decide
  have hbreaks : Breaks op.text := by cases op <;> decide
  have hparam : tokensOf "?".toList = some [.symbol '?'] := by decide
  rw [htext]
  exact tokensOf_append (tokensOf_operand h) (hbreaks.append _) (hop.append hparam)

/-- A containment. -/
lemma tokensOf_contains (candidate : Json) (h : Unquoted path) :
    tokensOf ((Cond.contains path candidate).text .doc) =
      some (Cond.contains path candidate).tokens := by
  have htext : (Cond.contains path candidate).text .doc = "JSON_CONTAINS(".toList ++
      ("JSON_EXTRACT".toList ++ "(doc".toList ++ (",".toList ++
        ((Piece.literal (toJsonPath path)).text ++ ")".toList)) ++ ", ?)".toList) := by
    have hextract : "JSON_EXTRACT(".toList ++ DocColumn.doc.text =
        "JSON_EXTRACT".toList ++ "(doc".toList := rfl
    have hback : ", ?)".toList = ", ".toList ++ "?".toList ++ ")".toList := rfl
    rw [text_contains, extractText, hextract, hback]
    simp only [textOf_code, textOf_literal, textOf_nil, List.append_nil, Piece.text,
      List.append_assoc, List.cons_append, List.nil_append]
  have hfront : Ends "JSON_CONTAINS(".toList [.word "JSON_CONTAINS".toList, .symbol '('] := by
    decide
  have hback : tokensOf ", ?)".toList = some [.symbol ',', .symbol '?', .symbol ')'] := by decide
  have hextract : tokensOf ("JSON_EXTRACT".toList ++ "(doc".toList ++ (",".toList ++
      ((Piece.literal (toJsonPath path)).text ++ ")".toList))) =
        some (pathCallTokens "JSON_EXTRACT" (plainPath path)) :=
    tokensOf_pathCall (by decide) (scan_toJsonPath h)
  rw [htext, hfront.enclose hextract (by decide) hback, Cond.tokens]
  simp [List.intercalate]

/-- A test for presence. -/
lemma tokensOf_exists (negated : Bool) (h : Unquoted path) :
    tokensOf ((Cond.jsonExists path negated).text .doc) =
      some (Cond.jsonExists path negated).tokens := by
  have hcall : tokensOf ("JSON_EXISTS".toList ++ "(doc".toList ++ (",".toList ++
      ((Piece.literal (toJsonPath path)).text ++ ")".toList))) =
        some (pathCallTokens "JSON_EXISTS" (plainPath path)) :=
    tokensOf_pathCall (by decide) (scan_toJsonPath h)
  have htext (front : Text) : textOf [.code (front ++ "JSON_EXISTS(".toList ++ DocColumn.doc.text),
      .code ",".toList, .literal (toJsonPath path), .code ")".toList] =
        front ++ ("JSON_EXISTS".toList ++ "(doc".toList ++ (",".toList ++
          ((Piece.literal (toJsonPath path)).text ++ ")".toList))) := by
    have hexists : "JSON_EXISTS(".toList ++ DocColumn.doc.text =
        "JSON_EXISTS".toList ++ "(doc".toList := rfl
    simp only [List.append_assoc, hexists, textOf_code, textOf_literal, textOf_nil,
      List.append_nil, Piece.text]
  cases negated with
  | false =>
    have hexists : (Cond.jsonExists path false).text .doc = _ := htext []
    rw [hexists]
    exact hcall
  | true =>
    have hexists : (Cond.jsonExists path true).text .doc = _ := htext "NOT ".toList
    have hnot : Ends "NOT ".toList [.keyword .not] := by decide
    rw [hexists]
    exact hnot.append hcall

/-- A list test. -/
lemma tokensOf_inList (negated : Bool) (members : List Param) (h : Unquoted path) :
    tokensOf ((Cond.inList path negated members).text .doc) =
      some (Cond.inList path negated members).tokens := by
  have hparams : tokensOf (", ".toList.intercalate (members.map fun _ => "?".toList)) =
      some ([.symbol ','].intercalate (members.map fun _ => [.symbol '?'])) :=
    tokensOf_intercalate (by decide) (by decide) fun _ _ => by decide
  have hclose : tokensOf ")".toList = some [.symbol ')'] := by decide
  rw [text_inList, Cond.tokens]
  cases negated with
  | false =>
    have hin : Ends " IN (".toList [.keyword .isIn, .symbol '('] := by decide
    have hbreaks : Breaks " IN (".toList := by decide
    have hlist := tokensOf_tested h (hbreaks.append _) (hin.enclose hparams (by decide) hclose)
    simp only [Bool.false_eq_true, if_false, List.append_assoc] at hlist ⊢
    exact hlist
  | true =>
    have hin : Ends " NOT IN (".toList [.keyword .not, .keyword .isIn, .symbol '('] := by decide
    have hbreaks : Breaks " NOT IN (".toList := by decide
    have hlist := tokensOf_tested h (hbreaks.append _) (hin.enclose hparams (by decide) hclose)
    simp only [if_true, List.append_assoc] at hlist ⊢
    exact hlist

/-- A junction, when its parts are read. -/
lemma tokensOf_junction (joiner : Joiner) {parts : List Cond}
    (h : ∀ part ∈ parts, tokensOf (part.text .doc) = some part.tokens) :
    tokensOf ((Cond.junction joiner parts).text .doc) =
      some (Cond.junction joiner parts).tokens := by
  have hbreaks : Breaks joiner.text := by cases joiner <;> decide
  have hends : Ends joiner.text [.keyword joiner.connective.keyword] := by
    cases joiner <;> decide
  have hopen : Ends "(".toList [.symbol '('] := by decide
  have hclose : tokensOf ")".toList = some [.symbol ')'] := by decide
  rw [text_junction, Cond.tokens, tokensAll_eq_map, List.append_assoc]
  exact hopen.enclose (tokensOf_intercalate hbreaks hends h) (by decide) hclose

mutual

/-- The lexer reads the text of a condition as the condition's tokens. -/
lemma tokensOf_text : ∀ cond : Cond, (∀ path ∈ cond.paths, Unquoted path) →
    tokensOf (cond.text .doc) = some cond.tokens
  | .one, _ => by decide
  | .zero, _ => by decide
  | .compare operand op param, h => tokensOf_compare op param (h _ (List.mem_singleton.2 rfl))
  | .isNull path, h => by
    rw [text_isNull]
    exact tokensOf_tested (h path (List.mem_singleton.2 rfl)) (by decide) (by decide)
  | .regexp path pattern, h => by
    rw [text_regexp, List.append_assoc]
    exact tokensOf_tested (h path (List.mem_singleton.2 rfl)) (by decide) (by decide)
  | .contains path candidate, h => tokensOf_contains candidate (h path (List.mem_singleton.2 rfl))
  | .jsonExists path negated, h => tokensOf_exists negated (h path (List.mem_singleton.2 rfl))
  | .inList path negated members, h =>
    tokensOf_inList negated members (h path (List.mem_singleton.2 rfl))
  | .junction joiner parts, h => tokensOf_junction joiner (tokensOf_textAll parts h)
  | .not cond, h => by
    have hopen : Ends "NOT (".toList [.keyword .not, .symbol '('] := by decide
    have hclose : tokensOf ")".toList = some [.symbol ')'] := by decide
    rw [text_not, List.append_assoc]
    exact hopen.enclose (tokensOf_text cond h) (by decide) hclose
termination_by structural cond => cond

/-- So does it with each of several conditions. -/
lemma tokensOf_textAll : ∀ parts : List Cond, (∀ path ∈ Cond.pathsAll parts, Unquoted path) →
    ∀ part ∈ parts, tokensOf (part.text .doc) = some part.tokens
  | [], _, _, hpart => absurd hpart List.not_mem_nil
  | first :: parts, h, part, hpart => by
    by_cases heq : part = first
    · rw [heq]
      exact tokensOf_text first fun path hpath => h path (List.mem_append_left _ hpath)
    · exact tokensOf_textAll parts (fun path hpath => h path (List.mem_append_right _ hpath)) part
        ((List.mem_cons.1 hpart).resolve_left heq)
termination_by structural parts => parts

end

end Lexing

/-! ## The tree of the filter -/

/-- What the grammar makes of the text of a condition. -/
lemma parse_text {cond : Cond} (h : ∀ path ∈ cond.paths, Unquoted path) :
    parse (cond.text .doc) = if cond.full then some cond.tree else none := by
  have hread := negation_tokens cond cond.tokens.length le_rfl [] closes_nil.stops
  rw [List.append_nil] at hread
  rw [parse, tokensOf_text cond h, Option.bind_some, expr_of_readIf hread closes_nil]
  cases cond.full <;> rfl

/-- A condition and a query have one tree, and empty parentheses at the same places. -/
structure SameTree (cond : Cond) (query : Query) : Prop where
  tree : cond.tree = query.tree
  full : cond.full = query.full

section SameTree

variable {L : Libbson} {path : Path} {cond : Cond} {conds : List Cond} {queries : List Query}

/-- Parts with the same trees have the same list of trees. -/
lemma treeAll_of_sameTree (h : List.Forall₂ SameTree conds queries) :
    Cond.treeAll conds = Query.treeAll queries := by
  induction h with
  | nil => rfl
  | cons h _ ih => rw [Cond.treeAll, Query.treeAll, h.tree, ih]

/-- They are full together. -/
lemma allFull_of_sameTree (h : List.Forall₂ SameTree conds queries) :
    Cond.allFull conds = Query.allFull queries := by
  induction h with
  | nil => rfl
  | cons h _ ih => rw [Cond.allFull, Query.allFull, h.full, ih]

/-- Joined parts have the tree of the joined queries. -/
lemma sameTree_conjoin {joiner : Joiner} {query : Query}
    (h : List.Forall₂ SameTree conds queries)
    (htree : query.tree = joiner.connective.join (Query.treeAll queries))
    (hfull : query.full = (!queries.isEmpty && Query.allFull queries)) :
    SameTree (conjoin joiner conds) query := by
  have htrees := treeAll_of_sameTree h
  have hfulls := allFull_of_sameTree h
  cases h with
  | nil => exact ⟨htree.symm, hfull.symm⟩
  | cons h hs =>
    cases hs with
    | nil =>
      constructor
      · rw [htree, ← htrees]
        cases joiner <;> rfl
      · rw [hfull, ← hfulls]
        exact (Bool.and_true _).symm
    | cons h' hs =>
      constructor
      · rw [htree, ← htrees]
        rfl
      · rw [hfull, ← hfulls]
        rfl

/-- The tree of an equality. -/
lemma compileEq_sameTree {v : Value} (h : compileEq L path v = .ok cond) :
    SameTree cond (.test path (.equals v)) := by
  cases v with
  | null | regex _ _ =>
    obtain rfl := Except.ok.inj h
    exact ⟨rfl, rfl⟩
  | document _ | array _ => cases h
  | _ =>
    simp only [compileEq, except_bind_eq_ok, except_pure_eq_ok] at h
    obtain ⟨param, -, literal, -, rfl⟩ := h
    exact ⟨rfl, rfl⟩

/-- The tree of a comparison. -/
lemma compileCompare_sameTree {op : CompareOp} {v : Value}
    (h : compileCompare path op v = .ok cond) : SameTree cond (.test path (.compares op v)) := by
  simp only [compileCompare, except_bind_eq_ok, except_pure_eq_ok] at h
  obtain ⟨param, -, rfl⟩ := h
  exact ⟨rfl, rfl⟩

/-- The tree of a list test. -/
lemma compileIn_sameTree {v : Value} {negated : Bool} (h : compileIn path v negated = .ok cond) :
    SameTree cond (.test path (.oneOf negated v.members)) := by
  obtain ⟨hv, rfl⟩ | ⟨params, hne, hps, rfl⟩ := compileIn_cases h
  · rw [hv]
    cases negated <;> exact ⟨rfl, rfl⟩
  · have hconst : (params.map fun _ => Expr.param) = v.members.map fun _ => .param := by
      simp only [List.map_const', hps.length_eq]
    constructor
    · rw [Cond.tree, hconst, Query.tree, Test.tree]
      exact hne
    · have hparams : params ≠ [] := fun heq => hne (by simpa [heq] using hps)
      simpa [Cond.full, Query.full] using hparams

/-- The tree of a pattern. -/
lemma compileRegex_sameTree {v : Value} (h : compileRegex path v = .ok cond) :
    SameTree cond (regexQuery path v) := by
  cases v with
  | utf8 _ | regex _ _ =>
    obtain rfl := Except.ok.inj h
    exact ⟨rfl, rfl⟩
  | _ => cases h

/-- The tree of `$elemMatch`. -/
lemma compileElemMatch_sameTree {v : Value} (h : compileElemMatch L path v = .ok cond) :
    SameTree cond (.test path (.holds (v.subdocument.getD []))) := by
  cases v with
  | document fields =>
    simp only [compileElemMatch] at h
    split at h
    · cases h
    · obtain ⟨candidate, -, h⟩ := except_bind_eq_ok.1 h
      obtain rfl := Except.ok.inj h
      exact ⟨rfl, rfl⟩
  | _ => cases h

/-- The compiler keeps the tree of every query. -/
lemma sameTree_compileRelation (L : Libbson) : CompileRelation L SameTree where
  eq := compileEq_sameTree
  compare := compileCompare_sameTree
  inList := compileIn_sameTree
  presence := ⟨rfl, rfl⟩
  regex := compileRegex_sameTree
  elemMatch := compileElemMatch_sameTree
  not h := ⟨congrArg Expr.not h.tree, h.full⟩
  conj h := sameTree_conjoin h rfl rfl
  disj h := sameTree_conjoin h rfl rfl
  fields h := by
    cases h with
    | nil => exact ⟨rfl, rfl⟩
    | cons h hs => exact sameTree_conjoin (.cons h hs) rfl rfl

end SameTree

/-- **The text of a filter has the filter's tree.**  When no name that an accepted filter tests
has a quote, SQL's grammar reads the emitted text as the tree of the filter's query, with the same
connectives at the same places, if and only if the query joins no empty list: the filter has no
`$not` of an empty document. -/
theorem filter_parses_iff {L : Libbson} {filter : Doc} {out : SqlFilter}
    (hout : emitFilter L .doc filter = .ok out)
    (hpaths : ∀ path ∈ (filterQuery filter).paths, Unquoted path) :
    parse out.sql = some (filterQuery filter).tree ↔ (filterQuery filter).full = true := by
  rw [emitFilter_eq, compileFilter] at hout
  simp only [except_bind_eq_ok, except_pure_eq_ok] at hout
  obtain ⟨cond, hcond, rfl⟩ := hout
  have hquery := (sameTree_compileRelation L).document hcond
  have hunquoted : ∀ path ∈ cond.paths, Unquoted path := fun path hpath =>
    hpaths path ((((outlines_compileRelation L).document hcond).paths path).1 hpath)
  have hparse := parse_text hunquoted
  rw [hquery.full, hquery.tree] at hparse
  change parse (cond.text .doc) = _ ↔ _
  rw [hparse]
  cases (filterQuery filter).full <;> simp

/-- Logical operators in one another, with single parts among them. -/
theorem filter_parses_iff_nested :
    let presence (wanted : Bool) : Value := .document [("$exists".toList, .bool wanted)]
    let filter := [("$or".toList, Value.array (makeArray [.document [("a".toList, .utf8 "x".toList),
        ("b".toList, .document [("$not".toList, presence true)])],
      .document [("$and".toList, .array (makeArray [.document [("c".toList, .null)]]))]])),
      ("$nor".toList, .array (makeArray [.document []]))]
    ∃ out, emitFilter .ofStrings .doc filter = .ok out ∧
      parse out.sql = some (filterQuery filter).tree := by
  intro presence filter
  obtain ⟨out, hout⟩ : ∃ out, emitFilter .ofStrings .doc filter = .ok out := ⟨_, rfl⟩
  have hpaths : ∀ path ∈ (filterQuery filter).paths, Unquoted path := by
    have hquery : (filterQuery filter).paths = [["a".toList], ["b".toList], ["c".toList]] := rfl
    rw [hquery]
    unfold Unquoted
    decide
  exact ⟨out, hout, (filter_parses_iff hout hpaths).2 rfl⟩

/-- A `$not` of an empty document is accepted, and its parentheses stay empty. -/
theorem not_of_nothing_unparsed :
    let filter := [("a".toList, Value.document [("$not".toList, .document [])])]
    ∃ out, emitFilter .ofStrings .doc filter = .ok out ∧ out.sql = "NOT (())".toList ∧
      parse out.sql = none := by
  intro filter
  refine ⟨_, rfl, rfl, ?_⟩
  have hparse := @parse_text (.not (.junction .and [])) (by simp [Cond.paths, Cond.pathsAll])
  exact hparse

end Chimera
