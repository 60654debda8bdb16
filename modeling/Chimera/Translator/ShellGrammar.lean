import Chimera.Translator.Mongosh
import Mathlib.Data.List.TakeWhile

/-!
# The grammar of shell statements

A statement that the reader accepts is written in a way that it does not keep: the white space
before each token, the quote and the escapes of a string, the characters of a number.  A tree here
keeps all of that.  It has a text, which is the statement, and a value, which is the call.  The
reader gives the value of every tree for its text (`parseShellCall_text`).
-/

namespace Chimera

namespace Mongosh

/-! ## Tokens -/

/-- White space in front of a token. -/
structure Blank where
  /-- The characters. -/
  text : Text
  /-- They are white space. -/
  blank : text.all isSpace = true

/-- No white space. -/
def Blank.empty : Blank := ⟨[], rfl⟩

/-- One stretch of white space after another. -/
def Blank.append (b b' : Blank) : Blank where
  text := b.text ++ b'.text
  blank := by rw [List.all_append, b.blank, b'.blank, Bool.and_self]

/-- A bare word. -/
structure Name where
  /-- The characters. -/
  text : Text
  /-- There is one. -/
  nonempty : text ≠ []
  /-- They are those of an identifier. -/
  chars : text.all isNameChar = true

/-- A character of a string, as it is written. -/
inductive Piece where
  | plain (c : Char)
  | escape (c : Char)
deriving DecidableEq

/-- How a character is written. -/
def Piece.text : Piece → Text
  | .plain c => [c]
  | .escape c => ['\\', c]

/-- The character that is read. -/
def Piece.read : Piece → Char
  | .plain c => c
  | .escape c => unescape c

/-- A string in quotes. -/
structure Quoted where
  /-- The quote. -/
  quote : Char
  /-- The characters. -/
  pieces : List Piece
  /-- The quote is one of the two. -/
  isQuote : isQuote quote = true
  /-- A character that would end the string or begin an escape is not plain. -/
  plain : ∀ c, .plain c ∈ pieces → c ≠ quote ∧ c ≠ '\\'

/-- A string as it is written. -/
def Quoted.text (s : Quoted) : Text := s.quote :: (s.pieces.flatMap Piece.text ++ [s.quote])

/-- The string that is read. -/
def Quoted.value (s : Quoted) : Text := s.pieces.map Piece.read

/-- What `number` collects. -/
structure Run where
  /-- The first character. -/
  first : Char
  /-- The others. -/
  rest : Text
  /-- The first character made the reader look for a number. -/
  opens : first = '-' ∨ first.isDigit = true
  /-- The loop takes the others. -/
  chars : rest.all isNumberChar = true

/-- The characters of a number. -/
def Run.text (r : Run) : Text := r.first :: r.rest

/-- What is made of them. -/
def Run.value (r : Run) : Value :=
  if r.text.any isRealChar then .double (strtod r.text) else .int64 (strtoll r.text)

/-- The JSON literals. -/
inductive Literal where
  | bool (b : Bool)
  | null

/-- A literal as it is written. -/
def Literal.text : Literal → Text
  | .bool b => if b then "true".toList else "false".toList
  | .null => "null".toList

/-- A literal as it is read. -/
def Literal.value : Literal → Value
  | .bool b => .bool b
  | .null => .null

/-- The key of a field. -/
inductive Key where
  | bare (name : Name)
  | quoted (s : Quoted)

/-- A key as it is written. -/
def Key.text : Key → Text
  | .bare name => name.text
  | .quoted s => s.text

/-- A key as it is read. -/
def Key.value : Key → Text
  | .bare name => name.text
  | .quoted s => s.value

/-- The word in front of the text of an ObjectId. -/
def objectIdWord : Text := "ObjectId".toList

/-! ## Trees -/

mutual

/-- A value. -/
inductive Expr where
  | number (run : Run)
  | literal (literal : Literal)
  | string (s : Quoted)
  | objectId (opening before : Blank) (hex : Quoted) (closing : Blank)
      (valid : oidIsValid hex.value = true)
  | emptyObject (closing : Blank)
  | object (fields : Fields)
  | emptyArray (closing : Blank)
  | array (elements : Elements)

/-- The fields of an object, and what closes it. -/
inductive Fields where
  | last (before : Blank) (key : Key) (colon space : Blank) (v : Expr) (closing : Blank)
  | cons (before : Blank) (key : Key) (colon space : Blank) (v : Expr) (comma : Blank)
      (rest : Fields)

/-- The elements of an array or the arguments of a call, and what closes them. -/
inductive Elements where
  | last (space : Blank) (v : Expr) (closing : Blank)
  | cons (space : Blank) (v : Expr) (comma : Blank) (rest : Elements)

end

mutual

/-- A value as it is written. -/
def Expr.text : Expr → Text
  | .number run => run.text
  | .literal literal => literal.text
  | .string s => s.text
  | .objectId opening before hex closing _ => objectIdWord ++
      (opening.text ++ '(' :: (before.text ++ (hex.text ++ (closing.text ++ [')']))))
  | .emptyObject closing => '{' :: (closing.text ++ ['}'])
  | .object fields => '{' :: fields.text
  | .emptyArray closing => '[' :: (closing.text ++ [']'])
  | .array elements => '[' :: elements.text ']'
termination_by structural e => e

/-- The fields as they are written. -/
def Fields.text : Fields → Text
  | .last before key colon space v closing => before.text ++
      (key.text ++ (colon.text ++ ':' :: (space.text ++ (v.text ++ (closing.text ++ ['}'])))))
  | .cons before key colon space v comma rest => before.text ++
      (key.text ++ (colon.text ++ ':' :: (space.text ++ (v.text ++
        (comma.text ++ ',' :: rest.text)))))
termination_by structural fields => fields

/-- The elements as they are written. -/
def Elements.text (close : Char) : Elements → Text
  | .last space v closing => space.text ++ (v.text ++ (closing.text ++ [close]))
  | .cons space v comma rest => space.text ++ (v.text ++ (comma.text ++ ',' :: rest.text close))
termination_by structural elements => elements

end

mutual

/-- A value as it is read. -/
def Expr.value : Expr → Value
  | .number run => run.value
  | .literal literal => literal.value
  | .string s => .utf8 s.value
  | .objectId _ _ hex _ _ => .oid (oidOfString hex.value)
  | .emptyObject _ => .document []
  | .object fields => .document fields.value
  | .emptyArray _ => .array []
  | .array elements => .array (makeArray elements.values)
termination_by structural e => e

/-- The fields as they are read. -/
def Fields.value : Fields → Doc
  | .last _ key _ _ v _ => [(key.value, v.value)]
  | .cons _ key _ _ v _ rest => (key.value, v.value) :: rest.value
termination_by structural fields => fields

/-- The elements as they are read. -/
def Elements.values : Elements → List Value
  | .last _ v _ => [v.value]
  | .cons _ v _ rest => v.value :: rest.values
termination_by structural elements => elements

end

/-! ## Reading tokens -/

section Tokens

variable {size : ℕ} {rest : Text} {c d : Char} (b : Blank)

/-- A result is passed on. -/
lemma ok_bind {ε α β : Type} (a : α) (f : α → Except ε β) : (Except.ok a >>= f) = f a := rfl

/-- The text does not go on with a character of the given kind. -/
def Stops (kind : Char → Bool) (rest : Text) : Prop := ∀ c ∈ rest.head?, kind c = false

/-- Characters of a kind are taken up to where the text stops. -/
lemma takeWhile_stops {kind : Char → Bool} {word : Text} (h : word.all kind = true)
    (hrest : Stops kind rest) :
    (word ++ rest).takeWhile kind = word ∧ (word ++ rest).dropWhile kind = rest := by
  have hall : ∀ a ∈ word, kind a = true := List.all_eq_true.1 h
  rw [List.takeWhile_append_of_pos hall, List.dropWhile_append_of_pos hall]
  cases rest with
  | nil => exact ⟨List.append_nil _, rfl⟩
  | cons c rest =>
    have hc : ¬ kind c = true := by
      rw [hrest c rfl]
      exact Bool.false_ne_true
    rw [List.takeWhile_cons_of_neg hc, List.dropWhile_cons_of_neg hc, List.append_nil]
    exact ⟨rfl, rfl⟩

/-- The white space characters. -/
lemma isSpace_cases (h : isSpace c = true) :
    c = ' ' ∨ c = '\t' ∨ c = '\n' ∨ c = '\x0b' ∨ c = '\x0c' ∨ c = '\r' := by
  simp only [isSpace, Bool.or_eq_true, Bool.and_eq_true, decide_eq_true_eq] at h
  have hcases : c.toNat = 32 ∨ c.toNat = 9 ∨ c.toNat = 10 ∨ c.toNat = 11 ∨ c.toNat = 12 ∨
      c.toNat = 13 := by omega
  simp only [← Char.toNat_inj]
  exact hcases

/-- White space is no part of a word. -/
lemma isNameChar_of_isSpace (h : isSpace c = true) : isNameChar c = false := by
  rcases isSpace_cases h with rfl | rfl | rfl | rfl | rfl | rfl <;> rfl

/-- White space is no part of a number. -/
lemma isNumberChar_of_isSpace (h : isSpace c = true) : isNumberChar c = false := by
  rcases isSpace_cases h with rfl | rfl | rfl | rfl | rfl | rfl <;> rfl

/-- A quote is one of two characters. -/
lemma isQuote_iff : isQuote c = true ↔ c = '\'' ∨ c = '"' := by
  simp [isQuote]

/-- A quote is no white space. -/
lemma isSpace_of_isQuote (h : isQuote c = true) : isSpace c = false := by
  rcases isQuote_iff.1 h with rfl | rfl <;> rfl

/-- A character of a kind is not one of another kind. -/
lemma ne_of_kind {kind : Char → Bool} (h : kind c = true) (hd : kind d = false) : c ≠ d := by
  rintro rfl
  rw [h] at hd
  cases hd

/-- A character of a kind is no white space when no white space is of the kind. -/
lemma isSpace_of_kind {kind : Char → Bool} (hspace : ∀ c, isSpace c = true → kind c = false)
    (h : kind c = true) : isSpace c = false := by
  by_contra hc
  rw [hspace c (Bool.not_eq_false _ ▸ hc)] at h
  cases h

/-- A character of a kind is no quote when no quote is of the kind. -/
lemma isQuote_of_kind {kind : Char → Bool} (h : kind c = true)
    (hquotes : kind '\'' = false ∧ kind '"' = false) : isQuote c = false := by
  by_contra hc
  rcases isQuote_iff.1 (Bool.not_eq_false _ ▸ hc) with rfl | rfl
  · exact absurd rfl (ne_of_kind h hquotes.1)
  · exact absurd rfl (ne_of_kind h hquotes.2)

/-- White space ends a token whose characters are not white space. -/
lemma stops_blank {kind : Char → Bool} (hspace : ∀ c, isSpace c = true → kind c = false)
    (h : kind c = false) : Stops kind (b.text ++ c :: rest) := by
  intro d hd
  cases htext : b.text with
  | nil =>
    rw [htext] at hd
    rw [← Option.some.inj hd]
    exact h
  | cons d' blank =>
    rw [htext] at hd
    obtain rfl : d' = d := Option.some.inj hd
    refine hspace d' (List.all_eq_true.1 b.blank d' ?_)
    rw [htext]
    exact List.mem_cons_self

/-- White space is skipped. -/
lemma skipSpace_blank (h : isSpace c = false) : skipSpace (b.text ++ c :: rest) = c :: rest := by
  refine (takeWhile_stops b.blank fun d hd => ?_).2
  rw [← Option.some.inj hd]
  exact h

/-- White space at the end is skipped. -/
lemma skipSpace_blank_nil : skipSpace b.text = [] :=
  List.dropWhile_eq_nil_iff.2 (List.all_eq_true.1 b.blank)

/-- White space is in front of what is left when it is skipped. -/
lemma exists_skipSpace (s : Text) : ∃ b : Blank, s = b.text ++ skipSpace s :=
  ⟨⟨s.takeWhile isSpace, List.all_takeWhile⟩, List.takeWhile_append_dropWhile.symm⟩

/-- The next character is found behind white space. -/
lemma peek_blank (h : isSpace c = false) :
    peek size (b.text ++ c :: rest) = .ok (c, c :: rest) := by
  rw [peek, skipSpace_blank b h]

/-- The character that is expected is there. -/
lemma expect_blank (h : isSpace c = false) :
    expect size c (b.text ++ c :: rest) = .ok rest := by
  rw [expect, peek_blank b h]
  exact if_neg (not_not.2 rfl)

/-- The character is there. -/
lemma consume_blank (h : isSpace c = false) :
    consume c (b.text ++ c :: rest) = (true, rest) := by
  rw [consume, skipSpace_blank b h]
  exact if_pos rfl

/-- Another character is there. -/
lemma consume_blank_of_ne (h : isSpace d = false) (hne : d ≠ c) :
    consume c (b.text ++ d :: rest) = (false, d :: rest) := by
  rw [consume, skipSpace_blank b h]
  exact if_neg hne

/-- A word is no white space at its beginning. -/
lemma skipSpace_name (name : Name) :
    skipSpace (b.text ++ (name.text ++ rest)) = name.text ++ rest := by
  cases htext : name.text with
  | nil => exact absurd htext name.nonempty
  | cons c word =>
    refine skipSpace_blank b (isSpace_of_kind (fun _ => isNameChar_of_isSpace) ?_)
    exact List.all_eq_true.1 name.chars c (htext ▸ List.mem_cons_self)

/-- A word is read to its end. -/
lemma identifier_name (name : Name) (h : Stops isNameChar rest) :
    identifier size (b.text ++ (name.text ++ rest)) = .ok (name.text, rest) := by
  obtain ⟨htake, hdrop⟩ := takeWhile_stops name.chars h
  rw [identifier, skipSpace_name, htake, hdrop]
  refine if_neg fun hempty => name.nonempty (List.isEmpty_iff.1 hempty)

/-- The characters of a string are read up to its quote. -/
lemma quotedBody_pieces {quote : Char} {pieces : List Piece}
    (h : ∀ c, .plain c ∈ pieces → c ≠ quote ∧ c ≠ '\\') (hquote : quote ≠ '\\') :
    quotedBody size quote (pieces.flatMap Piece.text ++ quote :: rest) =
      .ok (pieces.map Piece.read, rest) := by
  induction pieces with
  | nil =>
    rw [List.flatMap_nil, List.nil_append, quotedBody.eq_def]
    exact if_pos rfl
  | cons piece pieces ih =>
    have hrest := ih fun c hc => h c (List.mem_cons_of_mem _ hc)
    cases piece with
    | plain c =>
      obtain ⟨hne, hbackslash⟩ := h c List.mem_cons_self
      have htext : (Piece.plain c :: pieces).flatMap Piece.text ++ quote :: rest =
          c :: (pieces.flatMap Piece.text ++ quote :: rest) := rfl
      rw [htext, quotedBody.eq_def]
      dsimp only
      rw [if_neg hne, if_pos hbackslash, hrest]
      rfl
    | escape c =>
      have htext : (Piece.escape c :: pieces).flatMap Piece.text ++ quote :: rest =
          '\\' :: c :: (pieces.flatMap Piece.text ++ quote :: rest) := rfl
      rw [htext, quotedBody.eq_def]
      dsimp only
      rw [if_neg hquote.symm, if_neg (not_not.2 rfl), hrest]
      rfl

/-- A string is read to its end. -/
lemma quotedString_quoted (s : Quoted) :
    quotedString size (b.text ++ (s.text ++ rest)) = .ok (s.value, rest) := by
  have hchars : isSpace s.quote = false ∧ s.quote ≠ '\\' :=
    ⟨isSpace_of_isQuote s.isQuote, ne_of_kind s.isQuote rfl⟩
  have htext : s.text ++ rest =
      s.quote :: (s.pieces.flatMap Piece.text ++ s.quote :: rest) := by
    simp [Quoted.text]
  rw [htext, quotedString, peek_blank b hchars.1]
  change (if (!isQuote s.quote) = true then _ else _) = _
  rw [s.isQuote]
  exact quotedBody_pieces s.plain hchars.2

/-- A number begins with a character of a number. -/
lemma Run.isNumberChar_first (r : Run) : isNumberChar r.first = true := by
  rcases r.opens with h | h
  · rw [h]
    rfl
  · simp [isNumberChar, h]

/-- A number is read to its end. -/
lemma number_run (r : Run) (h : Stops isNumberChar rest) :
    number (r.text ++ rest) = (r.value, rest) := by
  have hspace : isSpace r.first = false :=
    isSpace_of_kind (fun _ => isNumberChar_of_isSpace) r.isNumberChar_first
  have hdrop : (r.text ++ rest).drop r.text.length = rest := List.drop_left
  have hnumber (sign body : Text) (hsign : sign = (r.text ++ rest).take
        (if (r.text ++ rest).head? = some '-' ∨ (r.text ++ rest).head? = some '+' then 1 else 0))
      (hbody : ((r.text ++ rest).drop sign.length).takeWhile isNumberChar = body)
      (htext : sign ++ body = r.text) (hreal : body.any isRealChar = r.text.any isRealChar) :
      number (r.text ++ rest) = (r.value, rest) := by
    have hskip : skipSpace (r.text ++ rest) = r.text ++ rest := skipSpace_blank Blank.empty hspace
    rw [number, hskip, ← hsign, hbody, htext, hreal, hdrop]
    rfl
  rcases r.opens with hfirst | hdigit
  · refine hnumber ['-'] r.rest ?_ ?_ ?_ ?_
    · rw [if_pos (.inl (congrArg some hfirst)), Run.text, hfirst]
      rfl
    · exact (takeWhile_stops r.chars h).1
    · rw [Run.text, hfirst]
      rfl
    · rw [Run.text, hfirst]
      rfl
  · refine hnumber [] r.text ?_ ?_ rfl rfl
    · have hneither : ¬ ((r.text ++ rest).head? = some '-' ∨
          (r.text ++ rest).head? = some '+') := by
        rintro (heq | heq)
        · exact ne_of_kind hdigit (d := '-') rfl (Option.some.inj heq)
        · exact ne_of_kind hdigit (d := '+') rfl (Option.some.inj heq)
      rw [if_neg hneither]
      rfl
    · refine (takeWhile_stops ?_ h).1
      rw [Run.text, List.all_cons, r.isNumberChar_first, r.chars, Bool.and_self]

/-- A key is read to its end. -/
lemma key_key (k : Key) (h : Stops isNameChar rest) :
    key size (b.text ++ (k.text ++ rest)) = .ok (k.value, rest) := by
  cases k with
  | bare name =>
    have hskip : skipSpace (b.text ++ (name.text ++ rest)) = name.text ++ rest :=
      skipSpace_name b name
    cases htext : name.text with
    | nil => exact absurd htext name.nonempty
    | cons c word =>
      have hname : isNameChar c = true :=
        List.all_eq_true.1 name.chars c (htext ▸ List.mem_cons_self)
      have hquote : isQuote c = false := isQuote_of_kind hname ⟨rfl, rfl⟩
      have hpeek : peek size (name.text ++ rest) = .ok (c, name.text ++ rest) := by
        rw [htext]
        exact peek_blank Blank.empty (isSpace_of_kind (fun _ => isNameChar_of_isSpace) hname)
      change key size (b.text ++ (name.text ++ rest)) = _
      rw [key, hskip, hpeek]
      change (if isQuote c = true then _ else _) = _
      rw [hquote]
      exact identifier_name Blank.empty name h
  | quoted s =>
    have hspace : isSpace s.quote = false := isSpace_of_isQuote s.isQuote
    have hskip : skipSpace (b.text ++ (s.text ++ rest)) = s.text ++ rest :=
      skipSpace_blank b hspace
    have hpeek : peek size (s.text ++ rest) = .ok (s.quote, s.text ++ rest) :=
      peek_blank Blank.empty hspace
    change key size (b.text ++ (s.text ++ rest)) = _
    rw [key, hskip, hpeek]
    change (if isQuote s.quote = true then _ else _) = _
    rw [s.isQuote]
    exact quotedString_quoted Blank.empty s

/-- A JSON literal is read to its end. -/
lemma word_literal (literal : Literal) (h : Stops isNameChar rest) :
    word size (literal.text ++ rest) = .ok (literal.value, rest) := by
  have hword (s : String) (hs : s.toList ≠ [] ∧ s.toList.all isNameChar = true) :
      identifier size (s.toList ++ rest) = .ok (s.toList, rest) :=
    identifier_name Blank.empty ⟨s.toList, hs.1, hs.2⟩ h
  cases literal with
  | bool truth =>
    cases truth with
    | true =>
      change word size ("true".toList ++ rest) = _
      rw [word, hword "true" (by decide)]
      rfl
    | false =>
      change word size ("false".toList ++ rest) = _
      rw [word, hword "false" (by decide)]
      rfl
  | null =>
    change word size ("null".toList ++ rest) = _
    rw [word, hword "null" (by decide)]
    rfl

/-- An ObjectId is read to its end. -/
lemma word_objectId (opening before : Blank) (hex : Quoted) (closing : Blank)
    (valid : oidIsValid hex.value = true) :
    word size ((Expr.objectId opening before hex closing valid).text ++ rest) =
      .ok (.oid (oidOfString hex.value), rest) := by
  have htext : (Expr.objectId opening before hex closing valid).text ++ rest =
      objectIdWord ++ (opening.text ++ '(' :: (before.text ++
        (hex.text ++ (closing.text ++ ')' :: rest)))) := by
    simp only [Expr.text, List.append_assoc, List.cons_append, List.nil_append]
  have hname : identifier size (objectIdWord ++ (opening.text ++ '(' :: (before.text ++
      (hex.text ++ (closing.text ++ ')' :: rest))))) = .ok (objectIdWord, opening.text ++
        '(' :: (before.text ++ (hex.text ++ (closing.text ++ ')' :: rest)))) :=
    identifier_name Blank.empty ⟨objectIdWord, by decide, by decide⟩
      (stops_blank opening (fun _ => isNameChar_of_isSpace) (by decide))
  have hword : objectIdWord = "ObjectId".toList := rfl
  rw [htext, word, hname, ok_bind]
  dsimp only
  rw [if_neg (by decide), if_neg (by decide), if_pos hword,
    expect_blank opening (by decide), ok_bind, quotedString_quoted, ok_bind]
  dsimp only
  rw [expect_blank closing (by decide), ok_bind, valid]
  rfl

/-- A character that can come after a value. -/
def isSeparator (c : Char) : Bool := c = ',' || c = ')' || c = ']' || c = '}'

/-- The separators. -/
lemma isSeparator_iff : isSeparator c = true ↔ c = ',' ∨ c = ')' ∨ c = ']' ∨ c = '}' := by
  simp [isSeparator, or_assoc]

/-- A separator is no white space. -/
lemma isSpace_of_isSeparator (h : isSeparator c = true) : isSpace c = false := by
  rcases isSeparator_iff.1 h with rfl | rfl | rfl | rfl <;> rfl

/-- What may follow a value: neither a word nor a number goes on. -/
def Follows (rest : Text) : Prop := Stops isNameChar rest ∧ Stops isNumberChar rest

/-- A separator may follow, after white space. -/
lemma follows_blank (h : isSeparator c = true) : Follows (b.text ++ c :: rest) := by
  refine ⟨stops_blank b (fun _ => isNameChar_of_isSpace) ?_,
    stops_blank b (fun _ => isNumberChar_of_isSpace) ?_⟩
  all_goals rcases isSeparator_iff.1 h with rfl | rfl | rfl | rfl <;> rfl

end Tokens

/-! ## Reading trees -/

section Trees

variable {size fuel : ℕ} {rest : Text} (b : Blank)

/-- A number is read as a value. -/
lemma value_number (r : Run) (h : Stops isNumberChar rest) :
    value size (fuel + 1) (b.text ++ (r.text ++ rest)) = .ok (r.value, rest) := by
  have hfirst := r.isNumberChar_first
  have hspace : isSpace r.first = false :=
    isSpace_of_kind (fun _ => isNumberChar_of_isSpace) hfirst
  have hquote : isQuote r.first = false := isQuote_of_kind hfirst ⟨rfl, rfl⟩
  have hnumber : (r.first = '-' || r.first.isDigit) = true := by
    simpa only [Bool.or_eq_true, decide_eq_true_eq] using r.opens
  have hpeek : peek size (b.text ++ (r.text ++ rest)) = .ok (r.first, r.text ++ rest) :=
    peek_blank b hspace
  rw [value, hpeek, ok_bind]
  dsimp only
  rw [if_neg (ne_of_kind hfirst rfl), if_neg (ne_of_kind hfirst rfl),
    if_neg (by rw [hquote]; exact Bool.false_ne_true),
    if_pos hnumber, number_run r h]
  rfl

/-- A word is read as a value. -/
lemma value_word {c : Char} {text : Text} (h : isNameChar c = true) (hdigit : c.isDigit = false) :
    value size (fuel + 1) (b.text ++ c :: text) = word size (c :: text) := by
  have hquote : isQuote c = false := isQuote_of_kind h ⟨rfl, rfl⟩
  have hnumber : ¬ (c = '-' || c.isDigit) = true := by
    rw [hdigit, Bool.or_false, decide_eq_true_eq]
    exact ne_of_kind h rfl
  rw [value, peek_blank b (isSpace_of_kind (fun _ => isNameChar_of_isSpace) h), ok_bind]
  dsimp only
  rw [if_neg (ne_of_kind h rfl), if_neg (ne_of_kind h rfl),
    if_neg (by rw [hquote]; exact Bool.false_ne_true), if_neg hnumber]

/-- A string is read as a value. -/
lemma value_string (s : Quoted) :
    value size (fuel + 1) (b.text ++ (s.text ++ rest)) = .ok (.utf8 s.value, rest) := by
  have hpeek : peek size (b.text ++ (s.text ++ rest)) = .ok (s.quote, s.text ++ rest) :=
    peek_blank b (isSpace_of_isQuote s.isQuote)
  have hchars : s.quote ≠ '{' ∧ s.quote ≠ '[' :=
    ⟨ne_of_kind s.isQuote rfl, ne_of_kind s.isQuote rfl⟩
  rw [value, hpeek, ok_bind]
  dsimp only
  rw [if_neg hchars.1, if_neg hchars.2, if_pos s.isQuote]
  change (quotedString size (Blank.empty.text ++ (s.text ++ rest)) >>= _) = _
  rw [quotedString_quoted]
  rfl

/-- A literal begins with a letter. -/
lemma Literal.text_eq_cons (literal : Literal) : ∃ c text, literal.text = c :: text ∧
    isNameChar c = true ∧ c.isDigit = false := by
  cases literal with
  | bool truth =>
    cases truth with
    | true => exact ⟨'t', ['r', 'u', 'e'], by decide, rfl, rfl⟩
    | false => exact ⟨'f', ['a', 'l', 's', 'e'], by decide, rfl, rfl⟩
  | null => exact ⟨'n', ['u', 'l', 'l'], by decide, rfl, rfl⟩

/-- A value does not begin with white space, and not with a separator. -/
lemma Expr.text_eq_cons (e : Expr) : ∃ c text, e.text = c :: text ∧ isSpace c = false ∧
    isSeparator c = false := by
  have hname {c : Char} (h : isNameChar c = true) : isSpace c = false ∧ isSeparator c = false := by
    refine ⟨isSpace_of_kind (fun _ => isNameChar_of_isSpace) h, ?_⟩
    by_contra hc
    rcases isSeparator_iff.1 (Bool.not_eq_false _ ▸ hc) with rfl | rfl | rfl | rfl <;> cases h
  cases e with
  | number run =>
    refine ⟨run.first, run.rest, rfl, ?_⟩
    rcases run.opens with h | h
    · rw [h]
      decide
    · exact hname (by simp [isNameChar, Char.isAlphanum, h])
  | literal literal =>
    obtain ⟨c, text, htext, h, -⟩ := literal.text_eq_cons
    exact ⟨c, text, htext, hname h⟩
  | string s =>
    refine ⟨s.quote, _, rfl, isSpace_of_isQuote s.isQuote, ?_⟩
    rcases isQuote_iff.1 s.isQuote with h | h <;> rw [h] <;> rfl
  | objectId opening before hex closing valid =>
    have hword : objectIdWord = 'O' :: "bjectId".toList := by decide
    rw [Expr.text, hword]
    exact ⟨'O', _, rfl, hname rfl⟩
  | emptyObject closing => exact ⟨'{', _, rfl, by decide⟩
  | object fields => exact ⟨'{', _, rfl, by decide⟩
  | emptyArray closing => exact ⟨'[', _, rfl, by decide⟩
  | array elements => exact ⟨'[', _, rfl, by decide⟩

/-- A key does not begin with white space, and not with a brace. -/
lemma Key.text_eq_cons (k : Key) : ∃ c text, k.text = c :: text ∧ isSpace c = false ∧
    c ≠ '}' := by
  cases k with
  | bare name =>
    cases htext : name.text with
    | nil => exact absurd htext name.nonempty
    | cons c word =>
      have h : isNameChar c = true :=
        List.all_eq_true.1 name.chars c (htext ▸ List.mem_cons_self)
      exact ⟨c, word, htext, isSpace_of_kind (fun _ => isNameChar_of_isSpace) h,
        ne_of_kind h rfl⟩
  | quoted s => exact ⟨s.quote, _, rfl, isSpace_of_isQuote s.isQuote, ne_of_kind s.isQuote rfl⟩

/-- A literal is read as a value. -/
lemma value_literal (literal : Literal) (h : Stops isNameChar rest) :
    value size (fuel + 1) (b.text ++ (literal.text ++ rest)) = .ok (literal.value, rest) := by
  rw [← word_literal literal h]
  obtain ⟨c, text, htext, hname, hdigit⟩ := literal.text_eq_cons
  rw [htext]
  exact value_word b hname hdigit

variable (size) in
/-- What the fuel is enough for. -/
structure Reads (fuel : ℕ) : Prop where
  /-- A value. -/
  value : ∀ (e : Expr) (b : Blank) (rest : Text), 2 * e.text.length ≤ fuel → Follows rest →
    Mongosh.value size fuel (b.text ++ (e.text ++ rest)) = .ok (e.value, rest)
  /-- The fields of an object. -/
  fields : ∀ (fields : Fields) (rest : Text), 2 * fields.text.length + 1 ≤ fuel →
    fieldsOf size fuel (fields.text ++ rest) = .ok (fields.value, rest)
  /-- The elements of an array, or the arguments of a call. -/
  elements : ∀ (elements : Elements) (close : Char) (rest : Text), isSeparator close = true →
    close ≠ ',' → 2 * (elements.text close).length + 1 ≤ fuel →
      elementsOf size fuel close (elements.text close ++ rest) = .ok (elements.values, rest)

/-- An ObjectId is read as a value. -/
lemma value_objectId (opening before : Blank) (hex : Quoted) (closing : Blank)
    (valid : oidIsValid hex.value = true) :
    value size (fuel + 1)
        (b.text ++ ((Expr.objectId opening before hex closing valid).text ++ rest)) =
      .ok (.oid (oidOfString hex.value), rest) := by
  rw [← word_objectId opening before hex closing valid]
  have hword : objectIdWord = 'O' :: "bjectId".toList := by decide
  rw [Expr.text, hword]
  exact value_word b rfl rfl

/-- An object that holds nothing. -/
lemma value_emptyObject (closing : Blank) :
    value size (fuel + 1) (b.text ++ ('{' :: (closing.text ++ ['}']) ++ rest)) =
      .ok (.document [], rest) := by
  have htext : '{' :: (closing.text ++ ['}']) ++ rest = '{' :: (closing.text ++ '}' :: rest) := by
    simp only [List.cons_append, List.append_assoc, List.nil_append]
  rw [htext, value, peek_blank b (by decide), ok_bind]
  dsimp only
  rw [if_pos rfl]
  change (expect size '{' (Blank.empty.text ++ '{' :: (closing.text ++ '}' :: rest)) >>= _) = _
  rw [expect_blank Blank.empty (by decide), ok_bind, consume_blank closing (by decide)]
  rfl

/-- An array that holds nothing. -/
lemma value_emptyArray (closing : Blank) :
    value size (fuel + 1) (b.text ++ ('[' :: (closing.text ++ [']']) ++ rest)) =
      .ok (.array [], rest) := by
  have htext : '[' :: (closing.text ++ [']']) ++ rest = '[' :: (closing.text ++ ']' :: rest) := by
    simp only [List.cons_append, List.append_assoc, List.nil_append]
  rw [htext, value, peek_blank b (by decide), ok_bind]
  dsimp only
  rw [if_neg (by decide), if_pos rfl]
  change (expect size '[' (Blank.empty.text ++ '[' :: (closing.text ++ ']' :: rest)) >>= _) = _
  rw [expect_blank Blank.empty (by decide), ok_bind, consume_blank closing (by decide)]
  rfl

/-- A brace that is not closed at once is followed by fields. -/
lemma value_object {body body' : Text} (h : consume '}' body = (false, body')) :
    value size (fuel + 1) (b.text ++ '{' :: body) =
      (fieldsOf size fuel body').map fun result => (.document result.1, result.2) := by
  rw [value, peek_blank b (by decide), ok_bind]
  dsimp only
  rw [if_pos rfl]
  change (expect size '{' (Blank.empty.text ++ '{' :: body) >>= _) = _
  rw [expect_blank Blank.empty (by decide), ok_bind, h]
  cases fieldsOf size fuel body' with
  | error e => rfl
  | ok result => rfl

/-- A bracket that is not closed at once is followed by elements. -/
lemma value_array {body body' : Text} (h : consume ']' body = (false, body')) :
    value size (fuel + 1) (b.text ++ '[' :: body) =
      (elementsOf size fuel ']' body').map fun result =>
        (.array (makeArray result.1), result.2) := by
  rw [value, peek_blank b (by decide), ok_bind]
  dsimp only
  rw [if_neg (by decide), if_pos rfl]
  change (expect size '[' (Blank.empty.text ++ '[' :: body) >>= _) = _
  rw [expect_blank Blank.empty (by decide), ok_bind, h]
  cases elementsOf size fuel ']' body' with
  | error e => rfl
  | ok result => rfl

/-- Fields without the white space in front of them. -/
def Fields.trim : Fields → Fields
  | .last _ key colon space v closing => .last .empty key colon space v closing
  | .cons _ key colon space v comma rest => .cons .empty key colon space v comma rest

/-- Elements without the white space in front of them. -/
def Elements.trim : Elements → Elements
  | .last _ v closing => .last .empty v closing
  | .cons _ v comma rest => .cons .empty v comma rest

/-- The white space in front of fields is not part of their value. -/
lemma Fields.trim_spec (fields : Fields) : fields.trim.value = fields.value ∧
    fields.trim.text.length ≤ fields.text.length ∧
      ∀ rest, consume '}' (fields.text ++ rest) = (false, fields.trim.text ++ rest) := by
  have hconsume (before : Blank) (key : Key) (text : Text) :
      consume '}' (before.text ++ (key.text ++ text)) = (false, key.text ++ text) := by
    obtain ⟨c, word, htext, hspace, hne⟩ := key.text_eq_cons
    rw [htext]
    exact consume_blank_of_ne before hspace hne
  cases fields with
  | last before key colon space v closing =>
    refine ⟨rfl, ?_, fun rest => ?_⟩
    · simp [trim, Fields.text, Blank.empty]
    · simp only [trim, Fields.text, Blank.empty, List.append_assoc, List.nil_append, hconsume]
  | cons before key colon space v comma tail =>
    refine ⟨rfl, ?_, fun rest => ?_⟩
    · simp [trim, Fields.text, Blank.empty]
    · simp only [trim, Fields.text, Blank.empty, List.append_assoc, List.nil_append, hconsume]

/-- The white space in front of elements is not part of their values. -/
lemma Elements.trim_spec (elements : Elements) (close : Char) (hclose : isSeparator close = true) :
    elements.trim.values = elements.values ∧
      (elements.trim.text close).length ≤ (elements.text close).length ∧
        ∀ rest, consume close (elements.text close ++ rest) =
          (false, elements.trim.text close ++ rest) := by
  have hconsume (space : Blank) (e : Expr) (text : Text) :
      consume close (space.text ++ (e.text ++ text)) = (false, e.text ++ text) := by
    obtain ⟨c, word, htext, hspace, hseparator⟩ := e.text_eq_cons
    rw [htext]
    exact consume_blank_of_ne space hspace (ne_of_kind hclose hseparator).symm
  cases elements with
  | last space v closing =>
    refine ⟨rfl, ?_, fun rest => ?_⟩
    · simp [trim, Elements.text, Blank.empty]
    · simp only [trim, Elements.text, Blank.empty, List.append_assoc, List.nil_append, hconsume]
  | cons space v comma tail =>
    refine ⟨rfl, ?_, fun rest => ?_⟩
    · simp [trim, Elements.text, Blank.empty]
    · simp only [trim, Elements.text, Blank.empty, List.append_assoc, List.nil_append, hconsume]

/-- More fuel reads the next value. -/
lemma Reads.value_succ (h : Reads size fuel) (e : Expr) (b : Blank) (rest : Text)
    (hfuel : 2 * e.text.length ≤ fuel + 1) (hrest : Follows rest) :
    Mongosh.value size (fuel + 1) (b.text ++ (e.text ++ rest)) = .ok (e.value, rest) := by
  cases e with
  | number run => exact value_number b run hrest.2
  | literal literal => exact value_literal b literal hrest.1
  | string s => exact value_string b s
  | objectId opening before hex closing valid =>
    exact value_objectId b opening before hex closing valid
  | emptyObject closing => exact value_emptyObject b closing
  | emptyArray closing => exact value_emptyArray b closing
  | object fields =>
    obtain ⟨hvalue, hlength, hconsume⟩ := fields.trim_spec
    have hread : fieldsOf size fuel (fields.trim.text ++ rest) = .ok (fields.value, rest) := by
      rw [← hvalue]
      refine h.fields _ _ ?_
      rw [Expr.text, List.length_cons] at hfuel
      omega
    change Mongosh.value size (fuel + 1) (b.text ++ '{' :: (fields.text ++ rest)) = _
    rw [value_object b (hconsume rest), hread]
    rfl
  | array elements =>
    obtain ⟨hvalue, hlength, hconsume⟩ := elements.trim_spec ']' (by decide)
    have hread : elementsOf size fuel ']' (elements.trim.text ']' ++ rest) =
        .ok (elements.values, rest) := by
      rw [← hvalue]
      refine h.elements _ _ _ (by decide) (by decide) ?_
      rw [Expr.text, List.length_cons] at hfuel
      omega
    change Mongosh.value size (fuel + 1) (b.text ++ '[' :: (elements.text ']' ++ rest)) = _
    rw [value_array b (hconsume rest), hread]
    rfl

/-- More fuel reads the next field. -/
lemma Reads.fields_succ (h : Reads size fuel) (fields : Fields) (rest : Text)
    (hfuel : 2 * fields.text.length + 1 ≤ fuel + 1) :
    fieldsOf size (fuel + 1) (fields.text ++ rest) = .ok (fields.value, rest) := by
  have hkey (before : Blank) (k : Key) (colon : Blank) (text : Text) :
      key size (before.text ++ (k.text ++ (colon.text ++ ':' :: text))) =
        .ok (k.value, colon.text ++ ':' :: text) :=
    key_key before k (stops_blank colon (fun _ => isNameChar_of_isSpace) rfl)
  cases fields with
  | last before k colon space v closing =>
    have hlength : 2 * v.text.length ≤ fuel := by
      simp only [Fields.text, List.length_append, List.length_cons, List.length_nil] at hfuel
      omega
    have htext : (Fields.last before k colon space v closing).text ++ rest = before.text ++
        (k.text ++ (colon.text ++ ':' :: (space.text ++ (v.text ++ (closing.text ++
          '}' :: rest))))) := by
      simp only [Fields.text, List.append_assoc, List.cons_append, List.nil_append]
    rw [htext, fieldsOf, hkey, ok_bind]
    dsimp only
    rw [expect_blank colon (by decide), ok_bind,
      h.value v space _ hlength (follows_blank closing (by decide)), ok_bind]
    dsimp only
    rw [consume_blank_of_ne closing (by decide) (by decide), if_neg Bool.false_ne_true]
    change (expect size '}' (Blank.empty.text ++ '}' :: rest) >>= _) = _
    rw [expect_blank Blank.empty (by decide)]
    rfl
  | cons before k colon space v comma tail =>
    have hlength : 2 * v.text.length ≤ fuel ∧ 2 * tail.text.length + 1 ≤ fuel := by
      simp only [Fields.text, List.length_append, List.length_cons] at hfuel
      omega
    have htext : (Fields.cons before k colon space v comma tail).text ++ rest = before.text ++
        (k.text ++ (colon.text ++ ':' :: (space.text ++ (v.text ++ (comma.text ++
          ',' :: (tail.text ++ rest)))))) := by
      simp only [Fields.text, List.append_assoc, List.cons_append]
    rw [htext, fieldsOf, hkey, ok_bind]
    dsimp only
    rw [expect_blank colon (by decide), ok_bind,
      h.value v space _ hlength.1 (follows_blank comma (by decide)), ok_bind]
    dsimp only
    rw [consume_blank comma (by decide), if_pos rfl, h.fields tail rest hlength.2]
    rfl

/-- More fuel reads the next element. -/
lemma Reads.elements_succ (h : Reads size fuel) (elements : Elements) (close : Char) (rest : Text)
    (hclose : isSeparator close = true) (hne : close ≠ ',')
    (hfuel : 2 * (elements.text close).length + 1 ≤ fuel + 1) :
    elementsOf size (fuel + 1) close (elements.text close ++ rest) =
      .ok (elements.values, rest) := by
  cases elements with
  | last space v closing =>
    have hlength : 2 * v.text.length ≤ fuel := by
      simp only [Elements.text, List.length_append, List.length_cons, List.length_nil] at hfuel
      omega
    have htext : (Elements.last space v closing).text close ++ rest =
        space.text ++ (v.text ++ (closing.text ++ close :: rest)) := by
      simp only [Elements.text, List.append_assoc, List.cons_append, List.nil_append]
    rw [htext, elementsOf, h.value v space _ hlength (follows_blank closing hclose), ok_bind]
    dsimp only
    rw [consume_blank_of_ne closing (isSpace_of_isSeparator hclose) hne,
      if_neg Bool.false_ne_true]
    change (expect size close (Blank.empty.text ++ close :: rest) >>= _) = _
    rw [expect_blank Blank.empty (isSpace_of_isSeparator hclose)]
    rfl
  | cons space v comma tail =>
    have hlength : 2 * v.text.length ≤ fuel ∧ 2 * (tail.text close).length + 1 ≤ fuel := by
      simp only [Elements.text, List.length_append, List.length_cons] at hfuel
      omega
    have htext : (Elements.cons space v comma tail).text close ++ rest =
        space.text ++ (v.text ++ (comma.text ++ ',' :: (tail.text close ++ rest))) := by
      simp only [Elements.text, List.append_assoc, List.cons_append]
    rw [htext, elementsOf, h.value v space _ hlength.1 (follows_blank comma (by decide)), ok_bind]
    dsimp only
    rw [consume_blank comma (by decide), if_pos rfl,
      h.elements tail close rest hclose hne hlength.2]
    rfl

/-- **Every tree is read**, when the fuel is twice the length of its text. -/
theorem reads (size fuel : ℕ) : Reads size fuel := by
  induction fuel with
  | zero =>
    refine ⟨fun e b rest hfuel _ => ?_, fun fields rest hfuel => ?_,
      fun elements close rest _ _ hfuel => ?_⟩
    · obtain ⟨c, text, htext, -⟩ := e.text_eq_cons
      rw [htext, List.length_cons] at hfuel
      omega
    · omega
    · omega
  | succ fuel ih => exact ⟨ih.value_succ, ih.fields_succ, ih.elements_succ⟩

end Trees

/-! ## Statements -/

/-- The arguments of a call, and what closes them. -/
inductive Arguments where
  | none (closing : Blank)
  | some (elements : Elements)

/-- The arguments as they are written. -/
def Arguments.text : Arguments → Text
  | .none closing => closing.text ++ [')']
  | .some elements => elements.text ')'

/-- The arguments as they are read. -/
def Arguments.values : Arguments → List Value
  | .none _ => []
  | .some elements => elements.values

/-- The word at the beginning of a statement. -/
def dbWord : Text := "db".toList

/-- A call, from `db` to the parenthesis that closes its arguments. -/
structure Invocation where
  /-- In front of `db`. -/
  start : Blank
  /-- In front of the first point. -/
  dot : Blank
  /-- In front of the collection. -/
  space : Blank
  /-- The collection. -/
  collection : Name
  /-- In front of the second point. -/
  dot' : Blank
  /-- In front of the verb. -/
  space' : Blank
  /-- The verb. -/
  verb : Name
  /-- In front of the parenthesis. -/
  opening : Blank
  /-- The arguments. -/
  args : Arguments

/-- A call as it is written. -/
def Invocation.text (c : Invocation) : Text :=
  c.start.text ++ (dbWord ++ (c.dot.text ++ '.' :: (c.space.text ++ (c.collection.text ++
    (c.dot'.text ++ '.' :: (c.space'.text ++ (c.verb.text ++ (c.opening.text ++
      '(' :: c.args.text))))))))

/-- A call as it is read. -/
def Invocation.call (c : Invocation) : ShellCall where
  collection := c.collection.text
  verb := c.verb.text
  args := c.args.values

/-- A statement. -/
structure Statement extends Invocation where
  /-- In front of a semicolon, if there is one. -/
  semicolon : Option Blank
  /-- The end. -/
  finish : Blank

/-- What follows a call. -/
def Statement.tail (c : Statement) : Text :=
  match c.semicolon with
  | none => c.finish.text
  | some b => b.text ++ ';' :: c.finish.text

/-- A statement as it is written. -/
def Statement.text (c : Statement) : Text := c.toInvocation.text ++ c.tail

/-- The arguments of a call are read: there are none, or they are elements. -/
lemma consume_arguments (args : Arguments) (size fuel : ℕ) (rest : Text)
    (hfuel : 2 * args.text.length + 1 ≤ fuel) :
    consume ')' (args.text ++ rest) = (true, rest) ∧ args.values = [] ∨
      ∃ body, consume ')' (args.text ++ rest) = (false, body) ∧
        elementsOf size fuel ')' body = .ok (args.values, rest) := by
  cases args with
  | none closing =>
    have htext : (Arguments.none closing).text ++ rest = closing.text ++ ')' :: rest := by
      simp only [Arguments.text, List.append_assoc, List.cons_append, List.nil_append]
    rw [htext]
    exact .inl ⟨consume_blank closing (by decide), rfl⟩
  | some elements =>
    obtain ⟨hvalue, hlength, hconsume⟩ := elements.trim_spec ')' (by decide)
    have htext : (Arguments.some elements).text = elements.text ')' := rfl
    rw [htext] at hfuel ⊢
    refine .inr ⟨_, hconsume rest, ?_⟩
    rw [(reads size fuel).elements elements.trim ')' rest (by decide) (by decide) (by omega),
      hvalue]
    rfl

/-- A call is read, and then the statement has to end. -/
theorem parseShellCall_invocation (c : Invocation) (rest : Text) :
    parseShellCall (c.text ++ rest) =
      if eof (consume ';' rest).2 = true then .ok c.call
      else .error (failure (c.text ++ rest).length "trailing input after the statement"
        (skipSpace (consume ';' rest).2)) := by
  have htext : c.text ++ rest = c.start.text ++ (dbWord ++ (c.dot.text ++ '.' ::
      (c.space.text ++ (c.collection.text ++ (c.dot'.text ++ '.' :: (c.space'.text ++
        (c.verb.text ++ (c.opening.text ++ '(' :: (c.args.text ++ rest))))))))) := by
    simp only [Invocation.text, List.append_assoc, List.cons_append]
  have hlength : 2 * c.args.text.length + 1 ≤ 2 * (c.text ++ rest).length + 2 := by
    rw [htext]
    simp only [List.length_append, List.length_cons]
    omega
  have hstops (b : Blank) (d : Char) (hd : isNameChar d = false) (text : Text) :
      Stops isNameChar (b.text ++ d :: text) :=
    stops_blank b (fun _ => isNameChar_of_isSpace) hd
  have hname (size : ℕ) (b : Blank) (text : Text) (hrest : Stops isNameChar text) :
      identifier size (b.text ++ (dbWord ++ text)) = .ok (dbWord, text) :=
    identifier_name b ⟨dbWord, by decide, by decide⟩ hrest
  have hdb : dbWord = "db".toList := rfl
  generalize hsize : (c.text ++ rest).length = size at hlength ⊢
  rw [parseShellCall, hsize, htext, hname size c.start _ (hstops c.dot '.' (by decide) _), ok_bind]
  dsimp only
  rw [if_neg (not_not.2 hdb), expect_blank c.dot (by decide), ok_bind,
    identifier_name c.space c.collection (hstops c.dot' '.' (by decide) _), ok_bind]
  dsimp only
  rw [expect_blank c.dot' (by decide), ok_bind,
    identifier_name c.space' c.verb (hstops c.opening '(' (by decide) _), ok_bind]
  dsimp only
  rw [expect_blank c.opening (by decide), ok_bind]
  rcases consume_arguments c.args size (2 * size + 2) rest hlength with
    ⟨hconsume, hvalues⟩ | ⟨body, hconsume, hvalues⟩
  · rw [hconsume, if_pos rfl, Invocation.call, hvalues]
    change (if (!eof (consume ';' rest).2) = true then _ else _) = _
    cases eof (consume ';' rest).2 with
    | true => rfl
    | false => rfl
  · rw [hconsume, if_neg Bool.false_ne_true, hvalues, ok_bind, Invocation.call]
    change (if (!eof (consume ';' rest).2) = true then _ else _) = _
    cases eof (consume ';' rest).2 with
    | true => rfl
    | false => rfl

/-- What follows a call ends the statement. -/
lemma Statement.eof_tail (c : Statement) : eof (consume ';' c.tail).2 = true := by
  have hfinish : eof c.finish.text = true := by
    rw [eof, skipSpace_blank_nil]
    rfl
  rw [tail]
  cases c.semicolon with
  | none =>
    dsimp only
    rw [consume, skipSpace_blank_nil]
    rfl
  | some b =>
    dsimp only
    rw [consume_blank b (by decide)]
    exact hfinish

/-- **Every statement of the grammar is accepted**, as the call that it is. -/
theorem parseShellCall_text (c : Statement) : parseShellCall c.text = .ok c.call := by
  rw [Statement.text, parseShellCall_invocation, if_pos c.eof_tail]

end Mongosh

end Chimera
