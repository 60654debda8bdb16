import Chimera.Translator.Error

/-!
# The read-only guard and the server's lexer

The SQL gateway refuses a statement unless its first keyword reads.  `isReadOnlyStatement` finds
that keyword by skipping whitespace and comments; the server finds its first token in its own
way.  The two part at executable comments, whose text the server runs, at two hyphens that open no
comment, and at a keyword that goes on with other characters of an identifier.
-/

namespace Chimera

/-! ## Characters -/

/-- `std::isspace`. -/
def isSpace (c : Char) : Bool := c.toNat = 32 || (9 ≤ c.toNat && c.toNat ≤ 13)

/-- The control characters. -/
def isControl (c : Char) : Bool := c.toNat < 32 || c.toNat = 127

/-- The characters of an identifier: letters, digits, `_`, `$` and the bytes beyond ASCII. -/
def isIdentifierChar (c : Char) : Bool :=
  c.isAlphanum || c = '_' || c = '$' || 128 ≤ c.toNat

/-! ## The guard -/

mutual

/-- `skip_noise`: what is left behind whitespace and comments. -/
def skipNoise : Text → Text
  | [] => []
  | '/' :: '*' :: rest => skipBlock rest
  | '#' :: rest => skipLine rest
  | '-' :: '-' :: rest => skipLine rest
  | c :: rest => if isSpace c then skipNoise rest else c :: rest
termination_by structural text => text

/-- The rest of a block comment; without an end it is the rest of the statement. -/
def skipBlock : Text → Text
  | [] => []
  | '*' :: '/' :: rest => skipNoise rest
  | _ :: rest => skipBlock rest
termination_by structural text => text

/-- The rest of a line comment. -/
def skipLine : Text → Text
  | [] => []
  | '\n' :: rest => skipNoise rest
  | _ :: rest => skipLine rest
termination_by structural text => text

end

/-- The word that a text begins with, in upper case. -/
def leadingWord (text : Text) : Text := (text.takeWhile Char.isAlpha).map Char.toUpper

/-- `leading_keyword`. -/
def leadingKeyword (statement : Text) : Text := leadingWord (skipNoise statement)

/-- `kReadOnly`: the keywords of the statements that only read. -/
def readingKeywords : List Text :=
  ["SELECT".toList, "SHOW".toList, "DESCRIBE".toList, "DESC".toList, "EXPLAIN".toList]

/-- `is_read_only_statement`. -/
def isReadOnlyStatement (statement : Text) : Bool :=
  readingKeywords.contains (leadingKeyword statement)

/-! ## The server -/

/-- The first token of a statement, as far as it matters here. -/
inductive SqlToken where
  /-- A keyword or an identifier. -/
  | word (text : Text)
  /-- A token that begins with any other character. -/
  | symbol (c : Char)
  /-- A block comment without an end. -/
  | unterminated
  /-- There is none. -/
  | finish
deriving DecidableEq

/-- Two hyphens open a comment in front of whitespace, of a control character, and at the end. -/
def opensLineComment (rest : Text) : Bool := rest.head?.all fun c => isSpace c || isControl c

/-- How many characters the version number of an executable comment takes: five, six or none. -/
def versionDigits (text : Text) : ℕ :=
  if 6 ≤ (text.takeWhile Char.isDigit).length then 6
  else if (text.takeWhile Char.isDigit).length = 5 then 5
  else 0

mutual

/-- The server's lexer up to the first token, in or outside an executable comment, with some
characters of a version number still to skip. -/
def lexStatement : ℕ → Bool → Text → SqlToken
  | _, _, [] => .finish
  | n + 1, inside, _ :: rest => lexStatement n inside rest
  | 0, _, '/' :: '*' :: 'M' :: '!' :: rest => lexStatement (versionDigits rest) true rest
  | 0, _, '/' :: '*' :: '!' :: rest => lexStatement (versionDigits rest) true rest
  | 0, inside, '/' :: '*' :: rest => lexBlock inside rest
  | 0, inside, '#' :: rest => lexLine inside rest
  | 0, inside, '-' :: '-' :: rest =>
    if opensLineComment rest then lexLine inside rest else .symbol '-'
  | 0, true, '*' :: '/' :: rest => lexStatement 0 false rest
  | 0, inside, c :: rest =>
    if isSpace c then lexStatement 0 inside rest
    else if isIdentifierChar c then .word (c :: rest.takeWhile isIdentifierChar)
    else .symbol c
termination_by structural _ _ text => text

/-- The rest of a block comment. -/
def lexBlock (inside : Bool) : Text → SqlToken
  | [] => .unterminated
  | '*' :: '/' :: rest => lexStatement 0 inside rest
  | _ :: rest => lexBlock inside rest
termination_by structural text => text

/-- The rest of a line comment. -/
def lexLine (inside : Bool) : Text → SqlToken
  | [] => .finish
  | '\n' :: rest => lexStatement 0 inside rest
  | _ :: rest => lexLine inside rest
termination_by structural text => text

end

/-- The first token that the server executes. -/
def firstToken (statement : Text) : SqlToken := lexStatement 0 false statement

/-- The token is a keyword of a statement that only reads.  Keywords have no case. -/
def SqlToken.reads : SqlToken → Bool
  | .word text => readingKeywords.contains (text.map Char.toUpper)
  | _ => false

/-! ## Where the two agree -/

/-- The marks that open an executable comment. -/
def executableMarks : List Text := ["/*!".toList, "/*M!".toList]

/-- The text of an executable comment, behind its mark and its version number. -/
def unversioned (text : Text) : Text := text.drop (versionDigits text)

/-- What stands in a block comment that is not executable. -/
structure OrdinaryBody (body : Text) : Prop where
  /-- The comment does not end in it. -/
  open_end : ¬ ['*', '/'] <:+: body
  /-- It does not begin with an exclamation mark. -/
  no_mark : ¬ ['!'] <+: body
  /-- Nor with the other mark. -/
  no_maria_mark : ¬ ['M', '!'] <+: body

/-- Whitespace, and comments that are comments to the server too. -/
inductive SharedNoise : Text → Prop where
  | nil : SharedNoise []
  | space {c : Char} {noise : Text} (hspace : isSpace c = true) (h : SharedNoise noise) :
      SharedNoise (c :: noise)
  | block {body noise : Text} (hbody : OrdinaryBody body) (h : SharedNoise noise) :
      SharedNoise ('/' :: '*' :: (body ++ '*' :: '/' :: noise))
  | hash {line noise : Text} (hline : '\n' ∉ line) (h : SharedNoise noise) :
      SharedNoise ('#' :: (line ++ '\n' :: noise))
  | hyphens {line noise : Text} (hline : '\n' ∉ line)
      (hopens : opensLineComment (line ++ ['\n']) = true) (h : SharedNoise noise) :
      SharedNoise ('-' :: '-' :: (line ++ '\n' :: noise))

/-- The text begins with a word of letters that is a whole identifier. -/
def WholeWord (text : Text) : Prop :=
  ∃ word rest, text = word ++ rest ∧ word ≠ [] ∧ (∀ c ∈ word, c.isAlpha = true) ∧
    rest.head?.all (fun c => !isIdentifierChar c) = true

/-- In the text of an executable comment, or behind its end, a keyword that reads comes first:
behind noise, behind the mark of a further executable comment, or behind the end of this one. -/
inductive BeginsReading : Bool → Text → Prop where
  | word {inside : Bool} {noise text : Text} (hnoise : SharedNoise noise)
      (hword : WholeWord text) (hreads : leadingWord text ∈ readingKeywords) :
      BeginsReading inside (noise ++ text)
  | opened {inside : Bool} {noise mark text : Text} (hnoise : SharedNoise noise)
      (hmark : mark ∈ executableMarks) (h : BeginsReading true (unversioned text)) :
      BeginsReading inside (noise ++ (mark ++ text))
  | closed {noise text : Text} (hnoise : SharedNoise noise) (h : BeginsReading false text) :
      BeginsReading true (noise ++ '*' :: '/' :: text)

/-- What the guard skips is what the server skips, and the keyword is a whole identifier; or the
first comment that the server does not skip is executable, and begins with a keyword that reads. -/
inductive PlainFront : Text → Prop where
  | word {noise text : Text} (hnoise : SharedNoise noise) (hword : WholeWord text) :
      PlainFront (noise ++ text)
  | executable {noise mark text : Text} (hnoise : SharedNoise noise)
      (hmark : mark ∈ executableMarks) (h : BeginsReading true (unversioned text)) :
      PlainFront (noise ++ (mark ++ text))

/-! ## The word at the end -/

/-- Letters are characters of an identifier. -/
lemma isIdentifierChar_of_isAlpha {c : Char} (h : c.isAlpha = true) :
    isIdentifierChar c = true := by
  simp [isIdentifierChar, Char.isAlphanum, h]

/-- Upper case makes no letters. -/
lemma isAlpha_of_toUpper {c : Char} (h : c.toUpper.isAlpha = true) : c.isAlpha = true := by
  unfold Char.toUpper at h
  split at h
  · rename_i hlower
    have hislower : c.isLower = true :=
      Bool.and_eq_true_iff.2 ⟨decide_eq_true hlower.1, decide_eq_true hlower.2⟩
    exact Bool.or_eq_true_iff.2 (.inr hislower)
  · exact h

/-- The keywords are words of letters. -/
lemma isAlpha_of_mem_readingKeywords {word : Text} (h : word ∈ readingKeywords) :
    word ≠ [] ∧ ∀ c ∈ word, c.isAlpha = true := by
  have hall : ∀ word ∈ readingKeywords, word ≠ [] ∧ word.all Char.isAlpha = true := by decide
  exact ⟨(hall word h).1, List.all_eq_true.1 (hall word h).2⟩

/-- An identifier begins with the letters it begins with. -/
lemma takeWhile_isIdentifierChar (text : Text) :
    text.takeWhile isIdentifierChar = text.takeWhile Char.isAlpha ++
      (text.dropWhile Char.isAlpha).takeWhile isIdentifierChar := by
  induction text with
  | nil => rfl
  | cons c text ih =>
    by_cases h : c.isAlpha = true
    · have hident := isIdentifierChar_of_isAlpha h
      simp [h, hident, ih]
    · simp [h]

/-- **The word at the end.**  Where the guard finds a keyword that reads, the server's token reads
exactly when the keyword is the whole identifier. -/
theorem reads_word_iff {text : Text} (h : leadingWord text ∈ readingKeywords) :
    (SqlToken.word (text.takeWhile isIdentifierChar)).reads =
      (text.dropWhile Char.isAlpha).head?.all fun c => !isIdentifierChar c := by
  have hletters : (text.takeWhile Char.isAlpha).map Char.toUpper ∈ readingKeywords := h
  rw [SqlToken.reads, takeWhile_isIdentifierChar]
  cases htail : text.dropWhile Char.isAlpha with
  | nil => simpa using hletters
  | cons d tail =>
    have hd : ¬ d.isAlpha = true := by
      have hhead := List.head?_dropWhile_not Char.isAlpha text
      rw [htail] at hhead
      simpa using hhead
    by_cases hident : isIdentifierChar d = true
    · -- the identifier goes on with a character that no keyword has
      have hnot : ¬ (text.takeWhile Char.isAlpha ++
          (d :: tail).takeWhile isIdentifierChar).map Char.toUpper ∈ readingKeywords := by
        intro hmem
        have hall := (isAlpha_of_mem_readingKeywords hmem).2 d.toUpper (by simp [hident])
        exact hd (isAlpha_of_toUpper hall)
      simp only [List.head?_cons, Option.all_some, hident, Bool.not_true]
      rw [← Bool.not_eq_true, List.contains_iff_mem]
      exact hnot
    · simpa [hident] using hletters

/-- A text that begins with a whole word. -/
lemma WholeWord.takeWhile {text : Text} (h : WholeWord text) :
    ((text.dropWhile Char.isAlpha).head?.all fun c => !isIdentifierChar c) = true ∧
      ∃ c rest, text = c :: rest ∧ c.isAlpha = true := by
  obtain ⟨word, rest, rfl, hne, hletters, hrest⟩ := h
  have hstop : rest.dropWhile Char.isAlpha = rest := by
    cases rest with
    | nil => rfl
    | cons c rest =>
      have hc : ¬ c.isAlpha = true := fun hc => by
        simp [isIdentifierChar_of_isAlpha hc] at hrest
      exact List.dropWhile_cons_of_neg hc
  refine ⟨?_, ?_⟩
  · rw [List.dropWhile_append_of_pos hletters, hstop]
    exact hrest
  · cases word with
    | nil => exact absurd rfl hne
    | cons c word => exact ⟨c, word ++ rest, rfl, hletters c List.mem_cons_self⟩

/-- An identifier that is a keyword is a whole word. -/
lemma wholeWord_of_reads {text : Text}
    (h : (SqlToken.word (text.takeWhile isIdentifierChar)).reads = true) :
    WholeWord text ∧ leadingWord text ∈ readingKeywords := by
  have hmem : (text.takeWhile isIdentifierChar).map Char.toUpper ∈ readingKeywords := by
    simpa [SqlToken.reads] using h
  obtain ⟨hne, hall⟩ := isAlpha_of_mem_readingKeywords hmem
  have hletters : ∀ c ∈ text.takeWhile isIdentifierChar, c.isAlpha = true := fun c hc =>
    isAlpha_of_toUpper (hall _ (List.mem_map_of_mem hc))
  have hrest :
      ((text.dropWhile isIdentifierChar).head?.all fun c => !isIdentifierChar c) = true := by
    have hhead := List.head?_dropWhile_not isIdentifierChar text
    cases hdrop : (text.dropWhile isIdentifierChar).head? with
    | none => rfl
    | some c => simpa [hdrop] using hhead
  have hword : WholeWord text := ⟨_, _, List.takeWhile_append_dropWhile.symm,
    fun hnil => hne (by rw [hnil, List.map_nil]), hletters, hrest⟩
  have htake : text.takeWhile Char.isAlpha = text.takeWhile isIdentifierChar := by
    have hstop := hword.takeWhile.1
    rw [takeWhile_isIdentifierChar]
    cases htail : text.dropWhile Char.isAlpha with
    | nil => rw [List.takeWhile_nil, List.append_nil]
    | cons d tail =>
      rw [htail] at hstop
      have hd : ¬ isIdentifierChar d = true := by simpa using hstop
      rw [List.takeWhile_cons_of_neg hd, List.append_nil]
  exact ⟨hword, by rwa [leadingWord, htake]⟩

/-! ## Noise -/

section Noise

variable {inside : Bool} {c : Char} {body line noise text rest : Text}

/-- A block comment that goes on has not ended. -/
lemma not_end_of_cons (h : ¬ ['*', '/'] <:+: c :: body) (t : Text) (hc : c = '*')
    (hbody : body ++ '*' :: '/' :: rest = '/' :: t) : False := by
  subst hc
  cases body with
  | nil => cases hbody
  | cons d body =>
    obtain ⟨rfl, -⟩ := List.cons.inj hbody
    exact h ⟨[], body, rfl⟩

/-- The server skips the rest of a block comment. -/
lemma lexBlock_append (h : ¬ ['*', '/'] <:+: body) :
    lexBlock inside (body ++ '*' :: '/' :: rest) = lexStatement 0 inside rest := by
  induction body with
  | nil => rw [List.nil_append, lexBlock]
  | cons c body ih =>
    rw [List.cons_append, lexBlock]
    · exact ih fun hinside => h (hinside.trans (List.suffix_cons c body).isInfix)
    · exact fun t => not_end_of_cons h t

/-- So does the guard. -/
lemma skipBlock_append (h : ¬ ['*', '/'] <:+: body) :
    skipBlock (body ++ '*' :: '/' :: rest) = skipNoise rest := by
  induction body with
  | nil => rw [List.nil_append, skipBlock]
  | cons c body ih =>
    rw [List.cons_append, skipBlock]
    · exact ih fun hinside => h (hinside.trans (List.suffix_cons c body).isInfix)
    · exact fun t => not_end_of_cons h t

/-- A block comment without an end. -/
lemma lexBlock_unterminated (h : ¬ ['*', '/'] <:+: text) :
    lexBlock inside text = .unterminated := by
  induction text with
  | nil => rw [lexBlock]
  | cons c text ih =>
    rw [lexBlock]
    · exact ih fun hinside => h (hinside.trans (List.suffix_cons c text).isInfix)
    · rintro t rfl rfl
      exact h ⟨[], t, rfl⟩

/-- The server skips the rest of a line. -/
lemma lexLine_append (h : '\n' ∉ line) :
    lexLine inside (line ++ '\n' :: rest) = lexStatement 0 inside rest := by
  induction line with
  | nil => rw [List.nil_append, lexLine]
  | cons c line ih =>
    obtain ⟨hc, hline⟩ := not_or.1 (mt List.mem_cons.2 h)
    rw [List.cons_append, lexLine]
    · exact ih hline
    · exact fun heq => hc heq.symm

/-- So does the guard. -/
lemma skipLine_append (h : '\n' ∉ line) :
    skipLine (line ++ '\n' :: rest) = skipNoise rest := by
  induction line with
  | nil => rw [List.nil_append, skipLine]
  | cons c line ih =>
    obtain ⟨hc, hline⟩ := not_or.1 (mt List.mem_cons.2 h)
    rw [List.cons_append, skipLine]
    · exact ih hline
    · exact fun heq => hc heq.symm

/-- A comment on the last line. -/
lemma lexLine_unterminated (h : '\n' ∉ text) : lexLine inside text = .finish := by
  induction text with
  | nil => rw [lexLine]
  | cons c text ih =>
    obtain ⟨hc, htext⟩ := not_or.1 (mt List.mem_cons.2 h)
    rw [lexLine]
    · exact ih htext
    · exact fun heq => hc heq.symm

/-- An ordinary block comment. -/
lemma lexStatement_block (hM : ∀ t, text ≠ 'M' :: '!' :: t) (hbang : ∀ t, text ≠ '!' :: t) :
    lexStatement 0 inside ('/' :: '*' :: text) = lexBlock inside text := by
  rw [lexStatement]
  · exact fun t => hM t
  · exact fun t => hbang t

/-- An ordinary block comment does not begin with a mark. -/
lemma OrdinaryBody.not_marked (h : OrdinaryBody body) (rest : Text) :
    (∀ t, body ++ '*' :: '/' :: rest ≠ 'M' :: '!' :: t) ∧
      ∀ t, body ++ '*' :: '/' :: rest ≠ '!' :: t := by
  constructor
  · intro t heq
    rcases body with _ | ⟨c, _ | ⟨d, body⟩⟩
    · cases heq
    · cases heq
    · obtain ⟨hc, heq⟩ := List.cons.inj heq
      obtain ⟨hd, -⟩ := List.cons.inj heq
      exact h.no_maria_mark ⟨body, by rw [hc, hd]; rfl⟩
  · intro t heq
    cases body with
    | nil => cases heq
    | cons c body =>
      obtain ⟨rfl, -⟩ := List.cons.inj heq
      exact h.no_mark ⟨body, rfl⟩

/-- Whitespace. -/
lemma not_special_of_isSpace (h : isSpace c = true) : c ≠ '/' ∧ c ≠ '#' ∧ c ≠ '-' ∧ c ≠ '*' := by
  refine ⟨?_, ?_, ?_, ?_⟩
  all_goals
    rintro rfl
    exact absurd h (by decide)

/-- The server skips whitespace. -/
lemma lexStatement_space (h : isSpace c = true) :
    lexStatement 0 inside (c :: text) = lexStatement 0 inside text := by
  obtain ⟨hslash, hhash, hhyphen, hstar⟩ := not_special_of_isSpace h
  rw [lexStatement, if_pos h] <;> simp_all

/-- The guard skips whitespace. -/
lemma skipNoise_space (h : isSpace c = true) : skipNoise (c :: text) = skipNoise text := by
  obtain ⟨hslash, hhash, hhyphen, -⟩ := not_special_of_isSpace h
  rw [skipNoise, if_pos h] <;> simp_all

/-- **Noise to the server.**  It skips what is comment to both. -/
theorem SharedNoise.lexStatement_append (h : SharedNoise noise) (inside : Bool) (text : Text) :
    lexStatement 0 inside (noise ++ text) = lexStatement 0 inside text := by
  induction h with
  | nil => rfl
  | space hspace h ih =>
    rw [List.cons_append, lexStatement_space hspace]
    exact ih
  | block hbody h ih =>
    obtain ⟨hM, hbang⟩ := hbody.not_marked _
    rw [List.cons_append, List.cons_append, List.append_assoc, List.cons_append, List.cons_append,
      lexStatement_block hM hbang, lexBlock_append hbody.open_end]
    exact ih
  | hash hline h ih =>
    rw [List.cons_append, List.append_assoc, List.cons_append, lexStatement, lexLine_append hline]
    exact ih
  | @hyphens line noise hline hopens h ih =>
    have hopens' : opensLineComment (line ++ '\n' :: (noise ++ text)) = true := by
      cases line with
      | nil => rfl
      | cons c line => exact hopens
    rw [List.cons_append, List.cons_append, List.append_assoc, List.cons_append, lexStatement,
      if_pos hopens', lexLine_append hline]
    exact ih

/-- **Noise to the guard.**  It skips what is comment to both. -/
theorem SharedNoise.skipNoise_append (h : SharedNoise noise) (text : Text) :
    skipNoise (noise ++ text) = skipNoise text := by
  induction h with
  | nil => rfl
  | space hspace h ih =>
    rw [List.cons_append, skipNoise_space hspace]
    exact ih
  | block hbody h ih =>
    rw [List.cons_append, List.cons_append, List.append_assoc, List.cons_append, List.cons_append,
      skipNoise, skipBlock_append hbody.open_end]
    exact ih
  | hash hline h ih =>
    rw [List.cons_append, List.append_assoc, List.cons_append, skipNoise, skipLine_append hline]
    exact ih
  | hyphens hline hopens h ih =>
    rw [List.cons_append, List.cons_append, List.append_assoc, List.cons_append, skipNoise,
      skipLine_append hline]
    exact ih

/-- What a text can begin with behind all noise. -/
inductive Front : Text → Prop where
  | finish : Front []
  | executable {mark text : Text} (hmark : mark ∈ executableMarks) : Front (mark ++ text)
  | block {text : Text} (hM : ∀ t, text ≠ 'M' :: '!' :: t) (hbang : ∀ t, text ≠ '!' :: t)
      (hend : ¬ ['*', '/'] <:+: text) : Front ('/' :: '*' :: text)
  | hash {text : Text} (hline : '\n' ∉ text) : Front ('#' :: text)
  | hyphens {text : Text} (h : opensLineComment text = true → '\n' ∉ text) :
      Front ('-' :: '-' :: text)
  | other {c : Char} {text : Text} (hspace : isSpace c = false)
      (hblock : ∀ t, c = '/' → text ≠ '*' :: t) (hhash : c ≠ '#')
      (hhyphens : ∀ t, c = '-' → text ≠ '-' :: t) : Front (c :: text)

/-- A block comment ends somewhere, or nowhere. -/
lemma block_cases (text : Text) : ¬ ['*', '/'] <:+: text ∨
    ∃ body rest, text = body ++ '*' :: '/' :: rest ∧ ¬ ['*', '/'] <:+: body := by
  induction text with
  | nil => exact .inl (by simp)
  | cons c text ih =>
    by_cases hend : ['*', '/'] <+: c :: text
    · obtain ⟨rest, hrest⟩ := hend
      exact .inr ⟨[], rest, hrest.symm, by simp⟩
    · rcases ih with hnone | ⟨body, rest, rfl, hbody⟩
      · exact .inl fun h => (List.infix_cons_iff.1 h).elim hend hnone
      · refine .inr ⟨c :: body, rest, rfl, fun h => ?_⟩
        rcases List.infix_cons_iff.1 h with hstart | hinside
        · exact hend (hstart.trans (List.prefix_append (c :: body) _))
        · exact hbody hinside

/-- Noise comes first. -/
lemma SharedNoise.cons_front {p : Text}
    (hpiece : ∀ noise, SharedNoise noise → SharedNoise (p ++ noise))
    (h : ∃ noise rest, text = noise ++ rest ∧ SharedNoise noise ∧ Front rest) :
    ∃ noise rest, p ++ text = noise ++ rest ∧ SharedNoise noise ∧ Front rest := by
  obtain ⟨noise, rest, rfl, hnoise, hrest⟩ := h
  exact ⟨p ++ noise, rest, (List.append_assoc ..).symm, hpiece noise hnoise, hrest⟩

/-- **Every text** is noise, and something else behind it. -/
theorem exists_sharedNoise (text : Text) :
    ∃ noise rest, text = noise ++ rest ∧ SharedNoise noise ∧ Front rest := by
  induction hlength : text.length using Nat.strongRecOn generalizing text with
  | ind length ih =>
    subst hlength
    have hfront (h : Front text) :
        ∃ noise rest, text = noise ++ rest ∧ SharedNoise noise ∧ Front rest :=
      ⟨[], text, rfl, .nil, h⟩
    rcases text with _ | ⟨c, text⟩
    · exact hfront .finish
    by_cases hblock : ∃ t, c = '/' ∧ text = '*' :: t
    · obtain ⟨text, rfl, rfl⟩ := hblock
      by_cases hM : ∃ t, text = 'M' :: '!' :: t
      · obtain ⟨t, rfl⟩ := hM
        exact hfront (.executable (List.mem_cons_of_mem _ (List.mem_singleton_self _)))
      by_cases hbang : ∃ t, text = '!' :: t
      · obtain ⟨t, rfl⟩ := hbang
        exact hfront (.executable List.mem_cons_self)
      rcases block_cases text with hend | ⟨body, rest, rfl, hbody⟩
      · exact hfront (.block (not_exists.1 hM) (not_exists.1 hbang) hend)
      · have hordinary : OrdinaryBody body := by
          refine ⟨hbody, ?_, ?_⟩
          · rintro ⟨t, rfl⟩
            exact hbang ⟨_, rfl⟩
          · rintro ⟨t, rfl⟩
            exact hM ⟨_, rfl⟩
        have hpiece := SharedNoise.cons_front (p := '/' :: '*' :: (body ++ ['*', '/']))
          (fun noise hnoise => by simpa using SharedNoise.block hordinary hnoise)
          (ih rest.length (by simp; omega) rest rfl)
        simpa using hpiece
    by_cases hhash : c = '#'
    · subst hhash
      by_cases hline : '\n' ∈ text
      · obtain ⟨line, rest, rfl, hnot⟩ := List.eq_append_cons_of_mem hline
        have hpiece := SharedNoise.cons_front (p := '#' :: (line ++ ['\n']))
          (fun noise hnoise => by simpa using SharedNoise.hash hnot hnoise)
          (ih rest.length (by simp; omega) rest rfl)
        simpa using hpiece
      · exact hfront (.hash hline)
    by_cases hhyphens : ∃ t, c = '-' ∧ text = '-' :: t
    · obtain ⟨text, rfl, rfl⟩ := hhyphens
      by_cases hline : opensLineComment text = true ∧ '\n' ∈ text
      · obtain ⟨hopens, hline⟩ := hline
        obtain ⟨line, rest, rfl, hnot⟩ := List.eq_append_cons_of_mem hline
        have hopens' : opensLineComment (line ++ ['\n']) = true := by
          cases line with
          | nil => rfl
          | cons c line => exact hopens
        have hpiece := SharedNoise.cons_front (p := '-' :: '-' :: (line ++ ['\n']))
          (fun noise hnoise => by simpa using SharedNoise.hyphens hnot hopens' hnoise)
          (ih rest.length (by simp; omega) rest rfl)
        simpa using hpiece
      · exact hfront (.hyphens fun hopens hmem => hline ⟨hopens, hmem⟩)
    by_cases hspace : isSpace c = true
    · exact SharedNoise.cons_front (p := [c]) (fun noise hnoise => .space hspace hnoise)
        (ih text.length (by simp) text rfl)
    · exact hfront (.other (by simpa using hspace) (fun t hc ht => hblock ⟨t, hc, ht⟩) hhash
        fun t hc ht => hhyphens ⟨t, hc, ht⟩)

end Noise
/-! ## The two lexers side by side -/

section Sound

variable {inside : Bool} {mark text statement : Text}

/-- The characters of a version number are skipped. -/
lemma lexStatement_drop (n : ℕ) (inside : Bool) (text : Text) :
    lexStatement n inside text = lexStatement 0 inside (text.drop n) := by
  induction n generalizing text with
  | zero => rfl
  | succ n ih =>
    cases text with
    | nil => rw [List.drop_nil, lexStatement, lexStatement]
    | cons c text => rw [lexStatement, ih, List.drop_succ_cons]

/-- The server opens an executable comment. -/
lemma lexStatement_mark (hmark : mark ∈ executableMarks) :
    lexStatement 0 inside (mark ++ text) = lexStatement 0 true (unversioned text) := by
  rw [unversioned, ← lexStatement_drop]
  rcases List.mem_cons.1 hmark with rfl | hmark
  · exact lexStatement.eq_4 ..
  · rw [List.mem_singleton.1 hmark]
    exact lexStatement.eq_3 ..

/-- Its text is shorter than the comment. -/
lemma length_unversioned_lt {noise : Text} (hmark : mark ∈ executableMarks) :
    (unversioned text).length < (noise ++ (mark ++ text)).length := by
  have hpos : 0 < mark.length := by
    rcases List.mem_cons.1 hmark with rfl | hmark
    · decide
    · rw [List.mem_singleton.1 hmark]
      decide
  rw [unversioned, List.length_drop, List.length_append, List.length_append]
  omega

/-- The end of an executable comment. -/
lemma lexStatement_end : lexStatement 0 true ('*' :: '/' :: text) = lexStatement 0 false text := by
  rw [lexStatement]

/-- A letter is none of the characters that noise begins with. -/
lemma not_noise_of_isAlpha {c : Char} (h : c.isAlpha = true) :
    isSpace c = false ∧ c ≠ '/' ∧ c ≠ '#' ∧ c ≠ '-' ∧ c ≠ '*' := by
  have hrange : 65 ≤ c.toNat := by
    rcases Bool.or_eq_true_iff.1 h with hupper | hlower
    · exact UInt32.le_iff_toNat_le.1 (of_decide_eq_true hupper).1
    · have hlow := UInt32.le_iff_toNat_le.1 (of_decide_eq_true (Bool.and_eq_true_iff.1 hlower).1)
      exact Nat.le_trans (by decide) hlow
  refine ⟨?_, ?_, ?_, ?_, ?_⟩
  · simp only [isSpace, Bool.or_eq_false_iff, Bool.and_eq_false_iff, decide_eq_false_iff_not]
    omega
  all_goals
    rintro rfl
    exact absurd h (by decide)

/-- A word is the first token. -/
lemma WholeWord.lex_eq (h : WholeWord text) (inside : Bool) :
    lexStatement 0 inside text = .word (text.takeWhile isIdentifierChar) := by
  obtain ⟨-, c, rest, rfl, hletter⟩ := h.takeWhile
  have hident := isIdentifierChar_of_isAlpha hletter
  obtain ⟨hspace, hslash, hhash, hhyphen, hstar⟩ := not_noise_of_isAlpha hletter
  rw [lexStatement, hspace, hident, List.takeWhile_cons_of_pos hident] <;> simp_all

/-- A word is no noise. -/
lemma WholeWord.skip_eq (h : WholeWord text) : skipNoise text = text := by
  obtain ⟨-, c, rest, rfl, hletter⟩ := h.takeWhile
  obtain ⟨hspace, hslash, hhash, hhyphen, -⟩ := not_noise_of_isAlpha hletter
  rw [skipNoise, hspace] <;> simp_all

/-- A keyword is the first token, if it reads. -/
lemma WholeWord.reads (h : WholeWord text) (hreads : leadingWord text ∈ readingKeywords)
    (inside : Bool) : (lexStatement 0 inside text).reads = true := by
  rw [h.lex_eq, reads_word_iff hreads, h.takeWhile.1]

/-- **The server's first token**, in or outside an executable comment. -/
theorem reads_lexStatement_iff (inside : Bool) (text : Text) :
    (lexStatement 0 inside text).reads = true ↔ BeginsReading inside text := by
  constructor
  · intro hreads
    induction hlength : text.length using Nat.strongRecOn generalizing inside text with
    | ind length ih =>
      subst hlength
      obtain ⟨noise, rest, rfl, hnoise, hfront⟩ := exists_sharedNoise text
      rw [hnoise.lexStatement_append] at hreads
      cases hfront with
      | finish => cases hreads
      | executable hmark =>
        rw [lexStatement_mark hmark] at hreads
        exact .opened hnoise hmark (ih _ (length_unversioned_lt hmark) _ _ hreads rfl)
      | block hM hbang hend =>
        rw [lexStatement_block hM hbang, lexBlock_unterminated hend] at hreads
        cases hreads
      | hash hline =>
        rw [lexStatement, lexLine_unterminated hline] at hreads
        cases hreads
      | @hyphens rest hline =>
        rw [lexStatement] at hreads
        by_cases hopens : opensLineComment rest = true
        · rw [if_pos hopens, lexLine_unterminated (hline hopens)] at hreads
          cases hreads
        · rw [if_neg hopens] at hreads
          cases hreads
      | @other c rest hspace hblock hhash hhyphens =>
        by_cases hend : inside = true ∧ c = '*' ∧ ∃ t, rest = '/' :: t
        · obtain ⟨rfl, rfl, text, rfl⟩ := hend
          rw [lexStatement_end] at hreads
          exact .closed hnoise (ih _ (by simp; omega) _ _ hreads rfl)
        · have hspace' : ¬ isSpace c = true := by simp [hspace]
          have hlex : lexStatement 0 inside (c :: rest) =
              if isIdentifierChar c then .word (c :: rest.takeWhile isIdentifierChar)
              else .symbol c := by
            rw [lexStatement, if_neg hspace']
            all_goals simp_all
          rw [hlex] at hreads
          by_cases hident : isIdentifierChar c = true
          · rw [if_pos hident, ← List.takeWhile_cons_of_pos hident] at hreads
            obtain ⟨hword, hkeyword⟩ := wholeWord_of_reads hreads
            exact .word hnoise hword hkeyword
          · rw [if_neg hident] at hreads
            cases hreads
  · intro h
    induction h with
    | word hnoise hword hreads =>
      rw [hnoise.lexStatement_append, hword.reads hreads]
    | opened hnoise hmark _ ih =>
      rw [hnoise.lexStatement_append, lexStatement_mark hmark]
      exact ih
    | closed hnoise _ ih =>
      rw [hnoise.lexStatement_append, lexStatement_end]
      exact ih

/-- **The read-only guard.**  Of a statement that passes the guard, the first token that the server
executes reads exactly when the front of the statement is plain. -/
theorem isReadOnlyStatement_sound_iff (h : isReadOnlyStatement statement = true) :
    (firstToken statement).reads = true ↔ PlainFront statement := by
  have hkeyword : leadingWord (skipNoise statement) ∈ readingKeywords := by
    simpa [isReadOnlyStatement, leadingKeyword] using h
  rw [firstToken, reads_lexStatement_iff]
  constructor
  · intro hbegins
    cases hbegins with
    | word hnoise hword _ => exact .word hnoise hword
    | opened hnoise hmark hopened => exact .executable hnoise hmark hopened
  · intro hplain
    cases hplain with
    | word hnoise hword =>
      rw [hnoise.skipNoise_append, hword.skip_eq] at hkeyword
      exact .word hnoise hword hkeyword
    | executable hnoise hmark hopened => exact .opened hnoise hmark hopened

end Sound

/-- Plain comments of all three kinds, and a keyword in lower case. -/
theorem isReadOnlyStatement_sound_iff_comments :
    let statement := "/* a */ -- b\n# c\n\tselect 1".toList
    isReadOnlyStatement statement = true ∧
      ((firstToken statement).reads = true ↔ PlainFront statement) := by
  intro statement
  have h : isReadOnlyStatement statement = true := by decide
  exact ⟨h, isReadOnlyStatement_sound_iff h⟩

/-- The guard takes an executable comment for a comment: the statement passes, and the server
begins with what is in it. -/
theorem isReadOnlyStatement_executable_comment :
    let statement := "/*! DROP TABLE t */ SELECT 1".toList
    isReadOnlyStatement statement = true ∧ firstToken statement = .word "DROP".toList ∧
      ¬ (firstToken statement).reads = true := by
  decide

end Chimera
