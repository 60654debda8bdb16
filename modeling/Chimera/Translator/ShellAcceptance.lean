import Chimera.Translator.ShellGrammar

/-!
# What the shell reader accepts

Every function of the reader that succeeds has read a tree of the grammar.  So the statements that
are accepted are the texts of the grammar, and no others (`exists_statement`).
-/

namespace Chimera

namespace Mongosh

/-! ## What is read is a tree -/

section Accepted

variable {size fuel : ℕ} {s rest out : Text} {c : Char} {v : Value}

/-- The next character stands behind white space. -/
lemma peek_eq_ok (h : peek size s = .ok (c, rest)) :
    ∃ b : Blank, ∃ rest', s = b.text ++ rest ∧ rest = c :: rest' := by
  obtain ⟨b, hb⟩ := exists_skipSpace s
  rw [peek] at h
  cases hskip : skipSpace s with
  | nil =>
    rw [hskip] at h
    cases h
  | cons d text =>
    rw [hskip] at h hb
    obtain ⟨rfl, rfl⟩ := Prod.mk.inj (Except.ok.inj h)
    exact ⟨b, text, hb, rfl⟩

/-- The character that was expected stood behind white space. -/
lemma expect_eq_ok (h : expect size c s = .ok rest) : ∃ b : Blank, s = b.text ++ c :: rest := by
  obtain ⟨⟨d, text⟩, hpeek, hnext⟩ := except_bind_eq_ok.1 h
  obtain ⟨b, text', hs, rfl⟩ := peek_eq_ok hpeek
  dsimp only at hnext
  split at hnext
  · cases hnext
  · next hd =>
    obtain rfl := not_not.1 hd
    obtain rfl := Except.ok.inj hnext
    exact ⟨b, hs⟩

/-- The character stood behind white space, or only the white space is gone. -/
lemma consume_eq (c : Char) (s : Text) : ∃ b : Blank,
    consume c s = (true, (consume c s).2) ∧ s = b.text ++ c :: (consume c s).2 ∨
      consume c s = (false, (consume c s).2) ∧ s = b.text ++ (consume c s).2 := by
  obtain ⟨b, hb⟩ := exists_skipSpace s
  refine ⟨b, ?_⟩
  unfold consume
  cases hskip : skipSpace s with
  | nil =>
    rw [hskip] at hb
    exact .inr ⟨rfl, hb⟩
  | cons d text =>
    rw [hskip] at hb
    dsimp only
    split
    · next heq => exact .inl ⟨rfl, heq ▸ hb⟩
    · exact .inr ⟨rfl, hb⟩

/-- A word stood behind white space. -/
lemma identifier_eq_ok (h : identifier size s = .ok (out, rest)) :
    ∃ b : Blank, ∃ name : Name, out = name.text ∧ s = b.text ++ (name.text ++ rest) := by
  obtain ⟨b, hb⟩ := exists_skipSpace s
  rw [identifier] at h
  split at h
  · cases h
  · next hempty =>
    obtain ⟨rfl, rfl⟩ := Prod.mk.inj (Except.ok.inj h)
    refine ⟨b, ⟨(skipSpace s).takeWhile isNameChar, fun h => hempty (List.isEmpty_iff.2 h),
      List.all_takeWhile⟩, rfl, ?_⟩
    rw [List.takeWhile_append_dropWhile]
    exact hb

/-- The characters of a string stood in front of its quote. -/
lemma quotedBody_eq_ok {quote : Char} (h : quotedBody size quote s = .ok (out, rest)) :
    ∃ pieces : List Piece, (∀ c, .plain c ∈ pieces → c ≠ quote ∧ c ≠ '\\') ∧
      s = pieces.flatMap Piece.text ++ quote :: rest ∧ out = pieces.map Piece.read := by
  -- an escape takes two characters
  induction hlength : s.length using Nat.strongRecOn generalizing s out with
  | ind length ih =>
    cases s with
    | nil => cases h
    | cons c text =>
      rw [quotedBody.eq_def] at h
      dsimp only at h
      split at h
      · next heq =>
        obtain ⟨rfl, rfl⟩ := Prod.mk.inj (Except.ok.inj h)
        exact ⟨[], fun _ hmem => (List.not_mem_nil hmem).elim, congrArg (· :: _) heq, rfl⟩
      · next hquote =>
        split at h
        · next hbackslash =>
          obtain ⟨⟨read, left⟩, hrest, h⟩ := except_bind_eq_ok.1 h
          obtain ⟨rfl, rfl⟩ := Prod.mk.inj (Except.ok.inj h)
          obtain ⟨pieces, hplain, htext, rfl⟩ :=
            ih text.length (hlength ▸ Nat.lt_succ_self _) hrest rfl
          refine ⟨.plain c :: pieces, ?_, congrArg (c :: ·) htext, rfl⟩
          intro d hd
          rcases List.mem_cons.1 hd with heq | hmem
          · obtain rfl := Piece.plain.inj heq
            exact ⟨hquote, hbackslash⟩
          · exact hplain d hmem
        · next hbackslash =>
          obtain rfl := not_not.1 hbackslash
          cases text with
          | nil => cases h
          | cons escaped text =>
            obtain ⟨⟨read, left⟩, hrest, h⟩ := except_bind_eq_ok.1 h
            obtain ⟨rfl, rfl⟩ := Prod.mk.inj (Except.ok.inj h)
            obtain ⟨pieces, hplain, htext, rfl⟩ :=
              ih text.length (by simp only [List.length_cons] at hlength; omega) hrest rfl
            refine ⟨.escape escaped :: pieces, ?_, congrArg ('\\' :: escaped :: ·) htext, rfl⟩
            intro d hd
            rcases List.mem_cons.1 hd with heq | hmem
            · cases heq
            · exact hplain d hmem

/-- A string stood behind white space. -/
lemma quotedString_eq_ok (h : quotedString size s = .ok (out, rest)) :
    ∃ b : Blank, ∃ q : Quoted, out = q.value ∧ s = b.text ++ (q.text ++ rest) := by
  obtain ⟨⟨quote, text⟩, hpeek, h⟩ := except_bind_eq_ok.1 h
  obtain ⟨b, text', hs, rfl⟩ := peek_eq_ok hpeek
  dsimp only at h
  split at h
  · cases h
  · next hquote =>
    obtain ⟨pieces, hplain, htext, rfl⟩ := quotedBody_eq_ok h
    have hisQuote : isQuote quote = true := by simpa using hquote
    refine ⟨b, ⟨quote, pieces, hisQuote, hplain⟩, rfl, ?_⟩
    rw [hs]
    simp only [Quoted.text, List.tail_cons] at htext ⊢
    rw [htext]
    simp only [List.cons_append, List.append_assoc, List.nil_append]

/-- A number is what `number` collects. -/
lemma exists_run (h : c = '-' ∨ c.isDigit = true) (text : Text) :
    ∃ r : Run, c :: text = r.text ++ (number (c :: text)).2 ∧
      (number (c :: text)).1 = r.value := by
  obtain ⟨r, hr⟩ : ∃ r : Run, r = ⟨c, text.takeWhile isNumberChar, h, List.all_takeWhile⟩ :=
    ⟨_, rfl⟩
  have hsplit : c :: text = r.text ++ text.dropWhile isNumberChar := by
    rw [hr]
    exact congrArg (c :: ·) List.takeWhile_append_dropWhile.symm
  have hstops : Stops isNumberChar (text.dropWhile isNumberChar) := by
    intro d hd
    have hnot := List.head?_dropWhile_not isNumberChar text
    rw [hd] at hnot
    exact hnot
  rw [hsplit, number_run r hstops]
  exact ⟨r, rfl, rfl⟩

/-- A bare word stood behind white space: a literal or an ObjectId. -/
lemma word_eq_ok (h : word size s = .ok (v, rest)) :
    ∃ b : Blank, ∃ e : Expr, v = e.value ∧ s = b.text ++ (e.text ++ rest) := by
  obtain ⟨⟨out, text⟩, hname, h⟩ := except_bind_eq_ok.1 h
  obtain ⟨b, name, rfl, hs⟩ := identifier_eq_ok hname
  dsimp only at h
  refine ⟨b, ?_⟩
  split at h
  · next htruth =>
    obtain ⟨rfl, rfl⟩ := Prod.mk.inj (Except.ok.inj h)
    refine ⟨.literal (.bool (decide (name.text = "true".toList))), rfl, ?_⟩
    have htext : (Expr.literal (.bool (decide (name.text = "true".toList)))).text = name.text := by
      rw [Expr.text, Literal.text]
      rcases htruth with heq | heq
      · rw [heq]
        rfl
      · rw [heq]
        rfl
    rw [htext]
    exact hs
  · split at h
    · next hnull =>
      obtain ⟨rfl, rfl⟩ := Prod.mk.inj (Except.ok.inj h)
      rw [hnull] at hs
      exact ⟨.literal .null, rfl, hs⟩
    · split at h
      · next hword =>
        obtain ⟨text₁, hopen, hquoted⟩ := except_bind_eq_ok.1 h
        obtain ⟨⟨hex, text₂⟩, hquoted, hclose⟩ := except_bind_eq_ok.1 hquoted
        obtain ⟨text₃, hclose, hresult⟩ := except_bind_eq_ok.1 hclose
        obtain ⟨opening, rfl⟩ := expect_eq_ok hopen
        obtain ⟨before, q, rfl, rfl⟩ := quotedString_eq_ok hquoted
        obtain ⟨closing, rfl⟩ := expect_eq_ok hclose
        dsimp only at hresult
        split at hresult
        · cases hresult
        · next hvalid =>
          obtain ⟨rfl, rfl⟩ := Prod.mk.inj (Except.ok.inj hresult)
          have hvalid' : oidIsValid q.value = true := by simpa using hvalid
          refine ⟨.objectId opening before q closing hvalid', rfl, ?_⟩
          have htext : name.text = objectIdWord := hword
          rw [hs, htext]
          simp only [Expr.text, List.append_assoc, List.cons_append, List.nil_append]
      · cases h

/-- A key stood behind white space. -/
lemma key_eq_ok (h : key size s = .ok (out, rest)) :
    ∃ b : Blank, ∃ k : Key, out = k.value ∧ s = b.text ++ (k.text ++ rest) := by
  obtain ⟨b, hb⟩ := exists_skipSpace s
  obtain ⟨⟨c, text⟩, hpeek, h⟩ := except_bind_eq_ok.1 h
  obtain ⟨b', text', hs, -⟩ := peek_eq_ok hpeek
  have hblank (b'' : Blank) (text'' : Text) (htext : text = b''.text ++ text'') :
      s = ((b.append b').append b'').text ++ text'' := by
    rw [hb, hs, htext]
    simp only [Blank.append, List.append_assoc]
  dsimp only at h
  split at h
  · obtain ⟨b'', q, rfl, htext⟩ := quotedString_eq_ok h
    exact ⟨_, .quoted q, rfl, hblank b'' _ htext⟩
  · obtain ⟨b'', name, rfl, htext⟩ := identifier_eq_ok h
    exact ⟨_, .bare name, rfl, hblank b'' _ htext⟩

variable (size) in
/-- What is read with some fuel is a tree. -/
structure Sound (fuel : ℕ) : Prop where
  /-- A value. -/
  value : ∀ s v rest, Mongosh.value size fuel s = .ok (v, rest) →
    ∃ b : Blank, ∃ e : Expr, v = e.value ∧ s = b.text ++ (e.text ++ rest)
  /-- The fields of an object. -/
  fields : ∀ s doc rest, fieldsOf size fuel s = .ok (doc, rest) →
    ∃ fields : Fields, doc = fields.value ∧ s = fields.text ++ rest
  /-- The elements of an array, or the arguments of a call. -/
  elements : ∀ close s values rest, elementsOf size fuel close s = .ok (values, rest) →
    ∃ elements : Elements, values = elements.values ∧ s = elements.text close ++ rest

/-- Fields with more white space in front of them. -/
def Fields.spaced (b : Blank) : Fields → Fields
  | .last before key colon space v closing => .last (b.append before) key colon space v closing
  | .cons before key colon space v comma rest =>
    .cons (b.append before) key colon space v comma rest

/-- Elements with more white space in front of them. -/
def Elements.spaced (b : Blank) : Elements → Elements
  | .last space v closing => .last (b.append space) v closing
  | .cons space v comma rest => .cons (b.append space) v comma rest

/-- White space in front of fields is part of their text. -/
lemma Fields.spaced_spec (b : Blank) (fields : Fields) :
    (fields.spaced b).value = fields.value ∧ (fields.spaced b).text = b.text ++ fields.text := by
  cases fields with
  | last before key colon space v closing =>
    refine ⟨rfl, ?_⟩
    simp only [spaced, Fields.text, Blank.append, List.append_assoc]
  | cons before key colon space v comma rest =>
    refine ⟨rfl, ?_⟩
    simp only [spaced, Fields.text, Blank.append, List.append_assoc]

/-- White space in front of elements is part of their text. -/
lemma Elements.spaced_spec (b : Blank) (elements : Elements) (close : Char) :
    (elements.spaced b).values = elements.values ∧
      (elements.spaced b).text close = b.text ++ elements.text close := by
  cases elements with
  | last space v closing =>
    refine ⟨rfl, ?_⟩
    simp only [spaced, Elements.text, Blank.append, List.append_assoc]
  | cons space v comma rest =>
    refine ⟨rfl, ?_⟩
    simp only [spaced, Elements.text, Blank.append, List.append_assoc]

/-- What is read after a brace is an object. -/
lemma Sound.object (h : Sound size fuel) {text : Text}
    (hvalue : (do
      let (closed, rest) := consume '}' text
      if closed then return (Value.document [], rest)
      else
        let (fields, rest) ← fieldsOf size fuel rest
        return (.document fields, rest)) = Except.ok (v, rest)) :
    ∃ e : Expr, v = e.value ∧ '{' :: text = e.text ++ rest := by
  obtain ⟨b, ⟨hconsume, htext⟩ | ⟨hconsume, htext⟩⟩ := consume_eq '}' text
  · rw [hconsume] at hvalue
    obtain ⟨rfl, rfl⟩ := Prod.mk.inj (Except.ok.inj hvalue)
    refine ⟨.emptyObject b, rfl, ?_⟩
    simp only [Expr.text, List.cons_append, List.append_assoc, List.nil_append]
    exact congrArg _ htext
  · rw [hconsume] at hvalue
    obtain ⟨⟨doc, left⟩, hfields, hvalue⟩ := except_bind_eq_ok.1 hvalue
    obtain ⟨rfl, rfl⟩ := Prod.mk.inj (Except.ok.inj hvalue)
    obtain ⟨fields, rfl, hleft⟩ := h.fields _ _ _ hfields
    obtain ⟨hspaced, hspacedText⟩ := fields.spaced_spec b
    refine ⟨.object (fields.spaced b), congrArg _ hspaced.symm, ?_⟩
    rw [Expr.text, hspacedText, List.cons_append, List.append_assoc, ← hleft]
    exact congrArg _ htext

/-- What is read after a bracket is an array. -/
lemma Sound.array (h : Sound size fuel) {text : Text}
    (hvalue : (do
      let (closed, rest) := consume ']' text
      if closed then return (Value.array [], rest)
      else
        let (elements, rest) ← elementsOf size fuel ']' rest
        return (.array (makeArray elements), rest)) = Except.ok (v, rest)) :
    ∃ e : Expr, v = e.value ∧ '[' :: text = e.text ++ rest := by
  obtain ⟨b, ⟨hconsume, htext⟩ | ⟨hconsume, htext⟩⟩ := consume_eq ']' text
  · rw [hconsume] at hvalue
    obtain ⟨rfl, rfl⟩ := Prod.mk.inj (Except.ok.inj hvalue)
    refine ⟨.emptyArray b, rfl, ?_⟩
    simp only [Expr.text, List.cons_append, List.append_assoc, List.nil_append]
    exact congrArg _ htext
  · rw [hconsume] at hvalue
    obtain ⟨⟨values, left⟩, helements, hvalue⟩ := except_bind_eq_ok.1 hvalue
    obtain ⟨rfl, rfl⟩ := Prod.mk.inj (Except.ok.inj hvalue)
    obtain ⟨elements, rfl, hleft⟩ := h.elements _ _ _ _ helements
    obtain ⟨hspaced, hspacedText⟩ := elements.spaced_spec b ']'
    refine ⟨.array (elements.spaced b), ?_, ?_⟩
    · rw [Expr.value, hspaced]
    · rw [Expr.text, hspacedText, List.cons_append, List.append_assoc, ← hleft]
      exact congrArg _ htext

/-- What is read with more fuel is a value. -/
lemma Sound.value_succ (h : Sound size fuel)
    (hvalue : Mongosh.value size (fuel + 1) s = .ok (v, rest)) :
    ∃ b : Blank, ∃ e : Expr, v = e.value ∧ s = b.text ++ (e.text ++ rest) := by
  rw [Mongosh.value] at hvalue
  obtain ⟨⟨c, text⟩, hpeek, hread⟩ := except_bind_eq_ok.1 hvalue
  obtain ⟨b, text', rfl, rfl⟩ := peek_eq_ok hpeek
  -- a token begins where the character was found
  have hexpect (d : Char) (hd : isSpace d = false) :
      expect size d (d :: text') = .ok text' := expect_blank Blank.empty hd
  dsimp only at hread
  split at hread
  · next heq =>
    obtain rfl : c = '{' := heq
    rw [hexpect '{' (by decide), ok_bind] at hread
    obtain ⟨e, hv, htext⟩ := h.object hread
    exact ⟨b, e, hv, congrArg _ htext⟩
  · split at hread
    · next heq =>
      obtain rfl : c = '[' := heq
      rw [hexpect '[' (by decide), ok_bind] at hread
      obtain ⟨e, hv, htext⟩ := h.array hread
      exact ⟨b, e, hv, congrArg _ htext⟩
    · split at hread
      · obtain ⟨⟨out, left⟩, hquoted, hresult⟩ := except_bind_eq_ok.1 hread
        obtain ⟨rfl, rfl⟩ := Prod.mk.inj (Except.ok.inj hresult)
        obtain ⟨b', q, rfl, htext⟩ := quotedString_eq_ok hquoted
        refine ⟨b.append b', .string q, rfl, ?_⟩
        rw [htext, Blank.append, List.append_assoc]
        rfl
      · split at hread
        · next hnumber =>
          have hopens : c = '-' ∨ c.isDigit = true := by simpa using hnumber
          obtain ⟨r, htext, hr⟩ := exists_run hopens text'
          have hpair : number (c :: text') = (v, rest) := Except.ok.inj hread
          rw [hpair] at htext hr
          exact ⟨b, .number r, hr, congrArg _ htext⟩
        · obtain ⟨b', e, hv, htext⟩ := word_eq_ok hread
          refine ⟨b.append b', e, hv, ?_⟩
          rw [htext, Blank.append, List.append_assoc]

/-- What is read with more fuel are fields. -/
lemma Sound.fields_succ (h : Sound size fuel) {doc : Doc}
    (hfields : fieldsOf size (fuel + 1) s = .ok (doc, rest)) :
    ∃ fields : Fields, doc = fields.value ∧ s = fields.text ++ rest := by
  rw [fieldsOf] at hfields
  obtain ⟨⟨name, s₁⟩, hkey, hfields₁⟩ := except_bind_eq_ok.1 hfields
  obtain ⟨s₂, hcolon, hfields₂⟩ := except_bind_eq_ok.1 hfields₁
  obtain ⟨⟨v, s₃⟩, hvalue, hfields₃⟩ := except_bind_eq_ok.1 hfields₂
  obtain ⟨before, k, rfl, hs⟩ := key_eq_ok hkey
  obtain ⟨colon, hs₁⟩ := expect_eq_ok hcolon
  obtain ⟨space, e, rfl, hs₂⟩ := h.value _ _ _ hvalue
  dsimp only at hs₁ hfields₃
  obtain ⟨b, ⟨hconsume, hs₃⟩ | ⟨hconsume, hs₃⟩⟩ := consume_eq ',' s₃
  · rw [hconsume, if_pos rfl] at hfields₃
    obtain ⟨⟨doc', s₄⟩, htail, hresult⟩ := except_bind_eq_ok.1 hfields₃
    obtain ⟨rfl, rfl⟩ := Prod.mk.inj (Except.ok.inj hresult)
    obtain ⟨tail, rfl, hs₄⟩ := h.fields _ _ _ htail
    refine ⟨.cons before k colon space e b tail, rfl, ?_⟩
    rw [hs, hs₁, hs₂, hs₃, hs₄]
    simp only [Fields.text, List.append_assoc, List.cons_append]
  · rw [hconsume, if_neg Bool.false_ne_true] at hfields₃
    obtain ⟨s₄, hclose, hresult⟩ := except_bind_eq_ok.1 hfields₃
    obtain ⟨rfl, rfl⟩ := Prod.mk.inj (Except.ok.inj hresult)
    obtain ⟨b', hs₄⟩ := expect_eq_ok hclose
    refine ⟨.last before k colon space e (b.append b'), rfl, ?_⟩
    rw [hs, hs₁, hs₂, hs₃, hs₄]
    simp only [Fields.text, Blank.append, List.append_assoc, List.cons_append, List.nil_append]

/-- What is read with more fuel are elements. -/
lemma Sound.elements_succ (h : Sound size fuel) {close : Char} {values : List Value}
    (helements : elementsOf size (fuel + 1) close s = .ok (values, rest)) :
    ∃ elements : Elements, values = elements.values ∧ s = elements.text close ++ rest := by
  rw [elementsOf] at helements
  obtain ⟨⟨v, s₁⟩, hvalue, helements₁⟩ := except_bind_eq_ok.1 helements
  obtain ⟨space, e, rfl, hs⟩ := h.value _ _ _ hvalue
  dsimp only at helements₁
  obtain ⟨b, ⟨hconsume, hs₁⟩ | ⟨hconsume, hs₁⟩⟩ := consume_eq ',' s₁
  · rw [hconsume, if_pos rfl] at helements₁
    obtain ⟨⟨values', s₂⟩, htail, hresult⟩ := except_bind_eq_ok.1 helements₁
    obtain ⟨rfl, rfl⟩ := Prod.mk.inj (Except.ok.inj hresult)
    obtain ⟨tail, rfl, hs₂⟩ := h.elements _ _ _ _ htail
    refine ⟨.cons space e b tail, rfl, ?_⟩
    rw [hs, hs₁, hs₂]
    simp only [Elements.text, List.append_assoc, List.cons_append]
  · rw [hconsume, if_neg Bool.false_ne_true] at helements₁
    obtain ⟨s₂, hclose, hresult⟩ := except_bind_eq_ok.1 helements₁
    obtain ⟨rfl, rfl⟩ := Prod.mk.inj (Except.ok.inj hresult)
    obtain ⟨b', hs₂⟩ := expect_eq_ok hclose
    refine ⟨.last space e (b.append b'), rfl, ?_⟩
    rw [hs, hs₁, hs₂]
    simp only [Elements.text, Blank.append, List.append_assoc, List.cons_append, List.nil_append]

/-- **What is read is a tree.** -/
theorem sound (size fuel : ℕ) : Sound size fuel := by
  induction fuel with
  | zero =>
    refine ⟨fun s v rest h => ?_, fun s doc rest h => ?_, fun close s values rest h => ?_⟩
    · rw [Mongosh.value] at h
      cases h
    · rw [fieldsOf] at h
      cases h
    · rw [elementsOf] at h
      cases h
  | succ fuel ih =>
    exact ⟨fun _ _ _ => ih.value_succ, fun _ _ _ => ih.fields_succ, fun _ _ _ _ =>
      ih.elements_succ⟩

end Accepted

/-! ## Whole statements -/

/-- The end of a statement: white space, and a semicolon where there is one. -/
lemma exists_tail {rest : Text} (h : eof (consume ';' rest).2 = true) :
    ∃ semicolon : Option Blank, ∃ finish : Blank, rest = match semicolon with
      | none => finish.text
      | some b => b.text ++ ';' :: finish.text := by
  have hend (text : Text) (h : eof text = true) : ∃ finish : Blank, text = finish.text := by
    obtain ⟨b, hb⟩ := exists_skipSpace text
    refine ⟨b, ?_⟩
    rw [eof, List.isEmpty_iff] at h
    rw [hb, h, List.append_nil]
  obtain ⟨b, ⟨-, hrest⟩ | ⟨-, hrest⟩⟩ := consume_eq ';' rest
  · obtain ⟨finish, hfinish⟩ := hend _ h
    refine ⟨some b, finish, ?_⟩
    dsimp only
    rw [← hfinish]
    exact hrest
  · obtain ⟨finish, hfinish⟩ := hend _ h
    refine ⟨none, b.append finish, ?_⟩
    exact hrest.trans (congrArg (b.text ++ ·) hfinish)

/-- What is read between the parentheses are arguments. -/
lemma exists_arguments {size fuel : ℕ} {s rest : Text} {values : List Value}
    (h : (if (consume ')' s).1 = true then pure ([], (consume ')' s).2)
      else elementsOf size fuel ')' (consume ')' s).2) = Except.ok (values, rest)) :
    ∃ args : Arguments, values = args.values ∧ s = args.text ++ rest := by
  obtain ⟨b, ⟨hconsume, hs⟩ | ⟨hconsume, hs⟩⟩ := consume_eq ')' s
  · rw [hconsume, if_pos rfl] at h
    obtain ⟨rfl, rfl⟩ := Prod.mk.inj (Except.ok.inj h)
    refine ⟨.none b, rfl, ?_⟩
    simp only [Arguments.text, List.append_assoc, List.cons_append, List.nil_append]
    exact hs
  · rw [hconsume, if_neg Bool.false_ne_true] at h
    obtain ⟨elements, rfl, hleft⟩ := (sound size fuel).elements _ _ _ _ h
    obtain ⟨hspaced, hspacedText⟩ := elements.spaced_spec b ')'
    refine ⟨.some (elements.spaced b), hspaced.symm, ?_⟩
    rw [Arguments.text, hspacedText, List.append_assoc, ← hleft]
    exact hs

/-- **What is accepted is a statement of the grammar.** -/
theorem exists_statement {s : Text} {call : ShellCall} (h : parseShellCall s = .ok call) :
    ∃ c : Statement, c.text = s ∧ c.call = call := by
  obtain ⟨⟨db, s₁⟩, hname, h₁⟩ := except_bind_eq_ok.1 h
  obtain ⟨start, name, rfl, hs⟩ := identifier_eq_ok hname
  dsimp only at h₁
  split at h₁
  · cases h₁
  · next hdb =>
    obtain ⟨s₂, hdot, h₂⟩ := except_bind_eq_ok.1 h₁
    obtain ⟨⟨collection, s₃⟩, hcollection, h₃⟩ := except_bind_eq_ok.1 h₂
    obtain ⟨s₄, hdot', h₄⟩ := except_bind_eq_ok.1 h₃
    obtain ⟨⟨verb, s₅⟩, hverb, h₅⟩ := except_bind_eq_ok.1 h₄
    obtain ⟨s₆, hopen, h₆⟩ := except_bind_eq_ok.1 h₅
    obtain ⟨dot, hs₁⟩ := expect_eq_ok hdot
    obtain ⟨space, collection', rfl, hs₂⟩ := identifier_eq_ok hcollection
    obtain ⟨dot', hs₃⟩ := expect_eq_ok hdot'
    obtain ⟨space', verb', rfl, hs₄⟩ := identifier_eq_ok hverb
    obtain ⟨opening, hs₅⟩ := expect_eq_ok hopen
    dsimp only at hs₃ hs₅ h₆
    have hend (args : List Value) (s₇ : Text)
        (h : (if (!eof (consume ';' s₇).2) = true then
            (do
              Except.error (failure s.length "trailing input after the statement"
                (skipSpace (consume ';' s₇).2))
              pure (ShellCall.mk collection'.text verb'.text args))
          else pure (ShellCall.mk collection'.text verb'.text args)) = Except.ok call) :
        eof (consume ';' s₇).2 = true ∧ ShellCall.mk collection'.text verb'.text args = call := by
      split at h
      · cases h
      · next heof =>
        exact ⟨by simpa using heof, Except.ok.inj h⟩
    have hargs : ∃ values s₇, (if (consume ')' s₆).1 = true then pure ([], (consume ')' s₆).2)
          else elementsOf s.length (2 * s.length + 2) ')' (consume ')' s₆).2) =
            Except.ok (values, s₇) ∧ eof (consume ';' s₇).2 = true ∧
              ShellCall.mk collection'.text verb'.text values = call := by
      split at h₆
      · next hclosed =>
        refine ⟨[], (consume ')' s₆).2, ?_, hend _ _ h₆⟩
        rw [if_pos hclosed]
        rfl
      · next hclosed =>
        obtain ⟨⟨values, s₇⟩, helements, h₇⟩ := except_bind_eq_ok.1 h₆
        refine ⟨values, s₇, ?_, hend _ _ h₇⟩
        rw [if_neg hclosed]
        exact helements
    obtain ⟨values, s₇, hvalues, heof, rfl⟩ := hargs
    obtain ⟨args, rfl, hs₆⟩ := exists_arguments hvalues
    obtain ⟨semicolon, finish, hs₇⟩ := exists_tail heof
    have hname' : name.text = dbWord := not_not.1 hdb
    refine ⟨⟨⟨start, dot, space, collection', dot', space', verb', opening, args⟩, semicolon,
      finish⟩, ?_, rfl⟩
    have htail : Statement.tail ⟨⟨start, dot, space, collection', dot', space', verb', opening,
        args⟩, semicolon, finish⟩ = s₇ := hs₇.symm
    rw [Statement.text, htail, hs, hname', hs₁, hs₂, hs₃, hs₄, hs₅, hs₆]
    simp only [Invocation.text, List.append_assoc, List.cons_append]

end Mongosh

end Chimera
