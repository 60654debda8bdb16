import Mathlib.Data.List.Basic
import Mathlib.Tactic.Common

/-!
# Readers of untrusted bytes

A cursor walks over a buffer up to a bound, and a reader moves it.  Nothing keeps a reader from
looking outside the buffer, or from looping: these are outcomes of their own, next to the errors it
throws.  A reader *recognizes* a grammar when from every valid cursor it does neither, and succeeds
exactly on the words of the grammar in front of it.

Readers that recognize their grammars compose, so a parser is bounded and terminates when its parts
do, and accepts what they say one after the other.
-/

namespace ByteReader

/-- Why a reader stops without a result. -/
inductive Stop (ε : Type) where
  /-- It throws an error. -/
  | thrown (e : ε)
  /-- It looks at a byte outside the buffer, or a size wraps around below zero. -/
  | outside
  /-- Its rounds are used up. -/
  | unfinished
deriving DecidableEq

/-- A position in a buffer, and the bound up to which it is read. -/
structure ByteCursor where
  /-- The buffer. -/
  data : List UInt8
  /-- The bound. -/
  size : ℕ
  /-- The position. -/
  offset : ℕ
deriving DecidableEq

/-- A computation that moves a cursor. -/
abbrev Reader (ε : Type) := StateT ByteCursor (Except (Stop ε))

variable {ε α β : Type} {n : ℕ}

namespace ByteCursor

/-- The position is within the bound, and the bound within the buffer. -/
structure Valid (c : ByteCursor) : Prop where
  /-- The position is within the bound. -/
  offset_le : c.offset ≤ c.size
  /-- The bound is within the buffer. -/
  size_le : c.size ≤ c.data.length

/-- The bytes that are left. -/
def left (c : ByteCursor) : List UInt8 := (c.data.take c.size).drop c.offset

/-- The cursor some bytes further on. -/
def advance (c : ByteCursor) (count : ℕ) : ByteCursor := { c with offset := c.offset + count }

/-- As many bytes are left as the bound is away. -/
lemma Valid.length_left {c : ByteCursor} (h : c.Valid) : c.left.length = c.size - c.offset := by
  rw [left, List.length_drop, List.length_take, Nat.min_eq_left h.size_le]

/-- What is left behind a word. -/
lemma left_advance {c : ByteCursor} {w rest : List UInt8} (h : c.left = w ++ rest) :
    (c.advance w.length).left = rest := by
  have hleft : (c.advance w.length).left = c.left.drop w.length := by
    rw [left, left, List.drop_drop]
    rfl
  rw [hleft, h, List.drop_left]

/-- Behind a word of what is left, a cursor is valid. -/
lemma Valid.advance {c : ByteCursor} (h : c.Valid) {w rest : List UInt8}
    (hleft : c.left = w ++ rest) :
    (c.advance w.length).Valid := by
  have hlength := congrArg List.length hleft
  have hoffset := h.offset_le
  rw [h.length_left, List.length_append] at hlength
  have hle : c.offset + w.length ≤ c.size := by omega
  exact ⟨hle, h.size_le⟩

/-- Moving on twice. -/
lemma advance_advance (c : ByteCursor) (i j : ℕ) : (c.advance i).advance j = c.advance (i + j) := by
  simp [ByteCursor.advance, Nat.add_assoc]

/-- Moving on by nothing. -/
lemma advance_zero (c : ByteCursor) : c.advance 0 = c := rfl

/-- The byte at a position that is left. -/
lemma getElem?_data {c : ByteCursor} {w rest : List UInt8} {b : UInt8}
    (h : c.left = w ++ b :: rest) :
    c.data[c.offset + w.length]? = some b := by
  have hget : c.left[w.length]? = some b := by
    rw [h, List.getElem?_append_right (Nat.le_refl _), Nat.sub_self]
    rfl
  rw [left, List.getElem?_drop, List.getElem?_take] at hget
  split at hget
  · exact hget
  · cases hget

end ByteCursor

/-! ## The readers -/

/-- Throw an error. -/
def fail (e : ε) : Reader ε α := throw (.thrown e)

/-- How many bytes are left. -/
def remaining : Reader ε ℕ := fun c =>
  if c.size < c.offset then .error .outside else .ok (c.size - c.offset, c)

/-- The position. -/
def position : Reader ε ℕ := fun c => .ok (c.offset, c)

/-- Fail unless as many bytes are left as asked for. -/
def require (e : ε) (count : ℕ) : Reader ε Unit := do
  let left ← remaining
  if left < count then fail e

/-- The byte at a position. -/
def byteAt (i : ℕ) : Reader ε UInt8 := fun c =>
  match c.data[i]? with
  | some b => .ok (b, c)
  | none => .error .outside

/-- The bytes from a position on. -/
def bytesAt (i count : ℕ) : Reader ε (List UInt8) := fun c =>
  if c.data.length < i + count then .error .outside else .ok ((c.data.drop i).take count, c)

/-- The bound. -/
def bound : Reader ε ℕ := fun c => .ok (c.size, c)

/-- The first position from `i` on that holds a byte, or the bound.  The first number counts the
rounds. -/
def scanTo (b : UInt8) : ℕ → ℕ → Reader ε ℕ
  | 0, _ => throw .unfinished
  | rounds + 1, i => do
    let size ← bound
    if i < size then
      let here ← byteAt i
      if here ≠ b then scanTo b rounds (i + 1) else return i
    else return i

/-- Move on. -/
def skip (count : ℕ) : Reader ε Unit := fun c => .ok ((), c.advance count)

/-- Read one thing after the other up to a position, and fail where the last one passes it.  The
last argument counts the rounds. -/
def readUpTo (e : ε) (item : Reader ε α) (stop : ℕ) : ℕ → Reader ε (List α)
  | 0 => throw .unfinished
  | rounds + 1 => do
    let offset ← position
    if offset < stop then
      let a ← item
      let rest ← readUpTo e item stop rounds
      return a :: rest
    else if offset ≠ stop then fail e
    else return []

/-! ## What the readers find -/

section Runs

variable {c : ByteCursor}

/-- One reader after another, of which the first succeeds. -/
lemma bind_of_ok {p : Reader ε α} {f : α → Reader ε β} {a : α} {c' : ByteCursor}
    (h : p c = .ok (a, c')) : (p >>= f) c = f a c' := by
  change (p c >>= fun r => f r.1 r.2) = _
  rw [h]
  rfl

/-- One reader after another, of which the first stops. -/
lemma bind_of_error {p : Reader ε α} {f : α → Reader ε β} {stop : Stop ε}
    (h : p c = .error stop) : (p >>= f) c = .error stop := by
  change (p c >>= fun r => f r.1 r.2) = _
  rw [h]
  rfl

/-- Enough bytes are left, or not. -/
lemma require_run (hc : c.Valid) (e : ε) (count : ℕ) :
    require e count c = if c.left.length < count then .error (.thrown e) else .ok ((), c) := by
  have hoffset := hc.offset_le
  have hrun : (remaining c : Except (Stop ε) (ℕ × ByteCursor)) = .ok (c.left.length, c) := by
    rw [remaining, if_neg (by omega), hc.length_left]
  rw [require, bind_of_ok hrun]
  by_cases hlt : c.left.length < count
  · rw [if_pos hlt, if_pos hlt]
    rfl
  · rw [if_neg hlt, if_neg hlt]
    rfl

/-- The bytes at the position. -/
lemma bytesAt_run (hc : c.Valid) {count : ℕ} (h : count ≤ c.left.length) :
    (bytesAt c.offset count c : Except (Stop ε) (List UInt8 × ByteCursor)) =
      .ok (c.left.take count, c) := by
  have hoffset := hc.offset_le
  have hsize := hc.size_le
  have hlength := hc.length_left
  rw [bytesAt, if_neg (by omega), ByteCursor.left, List.drop_take, List.take_take, Nat.min_eq_left]
  omega

/-- A scan finds the end of what holds no such byte. -/
lemma scanTo_run (hc : c.Valid) (b : UInt8) {rounds i : ℕ} (h : c.size - i < rounds) :
    (scanTo b rounds i c : Except (Stop ε) (ℕ × ByteCursor)) =
      .ok (i + (((c.data.take c.size).drop i).takeWhile (· ≠ b)).length, c) := by
  induction rounds generalizing i with
  | zero => exact absurd h (Nat.not_lt_zero _)
  | succ rounds ih =>
    have hbound : (bound c : Except (Stop ε) (ℕ × ByteCursor)) = .ok (c.size, c) := rfl
    rw [scanTo, bind_of_ok hbound]
    by_cases hlt : i < c.size
    · have hdata : i < c.data.length := Nat.lt_of_lt_of_le hlt hc.size_le
      have hbyte : (byteAt i c : Except (Stop ε) (UInt8 × ByteCursor)) = .ok (c.data[i], c) := by
        rw [byteAt, List.getElem?_eq_getElem hdata]
      have htaken : i < (c.data.take c.size).length := by
        rw [List.length_take, Nat.min_eq_left hc.size_le]
        exact hlt
      rw [if_pos hlt, bind_of_ok hbyte, List.drop_eq_getElem_cons htaken, List.getElem_take]
      by_cases hb : c.data[i] ≠ b
      · rw [if_pos hb, ih (by omega), List.takeWhile_cons_of_pos (by simpa using hb)]
        rw [List.length_cons, Nat.add_assoc, Nat.add_comm 1]
      · rw [if_neg hb, List.takeWhile_cons_of_neg (by simpa using hb)]
        rfl
    · have hnil : (c.data.take c.size).drop i = [] := by
        rw [List.drop_eq_nil_iff, List.length_take, Nat.min_eq_left hc.size_le]
        omega
      rw [if_neg hlt, hnil]
      rfl

end Runs

/-! ## Grammars -/

/-- The words of a grammar and what they mean, at each position. -/
abbrev Grammar (α : Type) := ℕ → List UInt8 → α → Prop

/-- The reader recognizes the grammar where fewer than `n` bytes are left. -/
structure Recognizes (n : ℕ) (p : Reader ε α) (G : Grammar α) : Prop where
  /-- It neither looks outside the buffer nor runs out of rounds. -/
  safe : ∀ c : ByteCursor, c.Valid → c.left.length < n → ∀ stop, p c = .error stop →
    ∃ e, stop = .thrown e
  /-- It succeeds exactly on the words. -/
  ok_iff : ∀ c : ByteCursor, c.Valid → c.left.length < n → ∀ a c', p c = .ok (a, c') ↔
    ∃ w rest, c.left = w ++ rest ∧ G c.offset w a ∧ c' = c.advance w.length

/-- One word after another. -/
inductive Pieces (G : Grammar α) : Grammar (List α)
  | nil {offset : ℕ} : Pieces G offset [] []
  | cons {offset : ℕ} {w rest : List UInt8} {a : α} {as : List α} (head : G offset w a)
      (tail : Pieces G (offset + w.length) rest as) : Pieces G offset (w ++ rest) (a :: as)

/-- Pieces of a grammar that does not look at the position are words of it. -/
lemma pieces_iff {G : List UInt8 → α → Prop} {offset : ℕ} {w : List UInt8} {as : List α} :
    Pieces (fun _ => G) offset w as ↔ ∃ parts, List.Forall₂ G parts as ∧ w = parts.flatten := by
  constructor
  · intro h
    induction h with
    | nil => exact ⟨[], .nil, rfl⟩
    | @cons offset w rest a as head _ ih =>
      obtain ⟨parts, hparts, rfl⟩ := ih
      exact ⟨w :: parts, .cons head hparts, rfl⟩
  · rintro ⟨parts, hparts, rfl⟩
    induction hparts generalizing offset with
    | nil => exact .nil
    | cons head _ ih => exact .cons head ih

/-! ## Rules -/

namespace Recognizes

variable {p : Reader ε α} {f : α → Reader ε β} {G : Grammar α} {H : α → Grammar β}

/-- A reader that decides by what is left recognizes the words that it moves over. -/
lemma of_run {g : List UInt8 → Except ε (α × ℕ)} {W : List UInt8 → α → Prop}
    (hrun : ∀ c : ByteCursor, c.Valid → c.left.length < n → p c = match g c.left with
      | .error e => .error (.thrown e)
      | .ok (a, count) => .ok (a, c.advance count))
    (hg : ∀ bytes a count, g bytes = .ok (a, count) ↔
      ∃ w rest, bytes = w ++ rest ∧ W w a ∧ count = w.length) :
    Recognizes n p fun _ => W := by
  refine ⟨fun c hc hn stop h => ?_, fun c hc hn a c' => ?_⟩
  · rw [hrun c hc hn] at h
    cases hbytes : g c.left with
    | error e =>
      rw [hbytes] at h
      exact ⟨e, (Except.error.inj h).symm⟩
    | ok r =>
      rw [hbytes] at h
      cases h
  · rw [hrun c hc hn]
    constructor
    · intro h
      cases hbytes : g c.left with
      | error e =>
        rw [hbytes] at h
        cases h
      | ok r =>
        rw [hbytes] at h
        obtain ⟨rfl, rfl⟩ := Prod.mk.inj (Except.ok.inj h)
        obtain ⟨w, rest, hleft, hW, hcount⟩ := (hg _ _ _).1 hbytes
        exact ⟨w, rest, hleft, hW, by rw [hcount]⟩
    · rintro ⟨w, rest, hleft, hW, rfl⟩
      rw [(hg _ _ _).2 ⟨w, rest, hleft, hW, rfl⟩]

/-- Returning a value recognizes the empty word. -/
lemma pure (a : α) : Recognizes (ε := ε) n (Pure.pure a) fun _ w b => w = [] ∧ b = a := by
  refine ⟨fun c _ _ stop => nofun, fun c _ _ b c' => ?_⟩
  constructor
  · intro h
    obtain ⟨rfl, rfl⟩ := Prod.mk.inj (Except.ok.inj h)
    exact ⟨[], _, rfl, ⟨rfl, rfl⟩, rfl⟩
  · rintro ⟨w, rest, -, ⟨rfl, rfl⟩, rfl⟩
    rfl

/-- Failing recognizes nothing. -/
lemma fail (e : ε) : Recognizes n (ByteReader.fail e : Reader ε α) fun _ _ _ => False := by
  refine ⟨fun c _ _ stop h => ⟨e, (Except.error.inj h).symm⟩, fun c _ _ a c' => ?_⟩
  constructor
  · intro h
    cases h
  · rintro ⟨_, _, _, h, _⟩
    exact h.elim

/-- A grammar may be said in other words. -/
lemma congr {G' : Grammar α} (h : Recognizes n p G)
    (hG : ∀ offset w a, G offset w a ↔ G' offset w a) : Recognizes n p G' := by
  refine ⟨h.safe, fun c hc hn a c' => ?_⟩
  simp only [h.ok_iff c hc hn, hG]

/-- Fewer bytes may be left. -/
lemma mono {m : ℕ} (h : Recognizes n p G) (hm : m ≤ n) : Recognizes m p G :=
  ⟨fun c hc hn => h.safe c hc (Nat.lt_of_lt_of_le hn hm),
    fun c hc hn => h.ok_iff c hc (Nat.lt_of_lt_of_le hn hm)⟩

/-- **The rule of sequence.**  One reader after the other recognizes the words of the first,
followed by words of the second, which may count on the bytes that the first has read. -/
theorem bind_of_progress {m : ℕ} (hp : Recognizes n p G) (hf : ∀ a, Recognizes m (f a) (H a))
    (hprogress : ∀ offset w a, G offset w a → n ≤ m + w.length) :
    Recognizes n (p >>= f) fun offset w b =>
      ∃ u v a, w = u ++ v ∧ G offset u a ∧ H a (offset + u.length) v b := by
  have hnext : ∀ {c : ByteCursor} {u rest : List UInt8} {a : α}, c.left.length < n →
      c.left = u ++ rest → G c.offset u a → (c.advance u.length).left.length < m := by
    intro c u rest a hn hleft hG
    have hlength := congrArg List.length hleft
    have hbytes := hprogress _ _ _ hG
    rw [List.length_append] at hlength
    rw [ByteCursor.left_advance hleft]
    omega
  have hbind : ∀ c, (p >>= f) c = match p c with
      | .error stop => .error stop
      | .ok r => f r.1 r.2 := by
    intro c
    change (p c >>= fun r => f r.1 r.2) = _
    cases p c <;> rfl
  constructor
  · intro c hc hn stop h
    rw [hbind] at h
    cases hrun : p c with
    | error stop' =>
      rw [hrun] at h
      exact Except.error.inj h ▸ hp.safe c hc hn stop' hrun
    | ok r =>
      rw [hrun] at h
      obtain ⟨u, rest, hleft, hG, hr⟩ := (hp.ok_iff c hc hn r.1 r.2).1 hrun
      have hvalid := hc.advance hleft
      have hbound := hnext hn hleft hG
      rw [← hr] at hvalid hbound
      exact (hf r.1).safe _ hvalid hbound stop h
  · intro c hc hn b c''
    constructor
    · intro h
      rw [hbind] at h
      cases hrun : p c with
      | error stop =>
        rw [hrun] at h
        cases h
      | ok r =>
        rw [hrun] at h
        obtain ⟨a, c'⟩ := r
        obtain ⟨u, rest, hleft, hG, rfl⟩ := (hp.ok_iff c hc hn a c').1 hrun
        obtain ⟨v, rest', hleft', hH, rfl⟩ :=
          ((hf a).ok_iff _ (hc.advance hleft) (hnext hn hleft hG) b c'').1 h
        rw [ByteCursor.left_advance hleft] at hleft'
        refine ⟨u ++ v, rest', ?_, ⟨u, v, a, rfl, hG, hH⟩, ?_⟩
        · rw [hleft, hleft', List.append_assoc]
        · rw [ByteCursor.advance_advance, List.length_append]
    · rintro ⟨_, rest, hleft, ⟨u, v, a, rfl, hG, hH⟩, rfl⟩
      rw [List.append_assoc] at hleft
      have hrun := (hp.ok_iff c hc hn a _).2 ⟨u, _, hleft, hG, rfl⟩
      rw [hbind, hrun]
      refine ((hf a).ok_iff _ (hc.advance hleft) (hnext hn hleft hG) _ _).2
        ⟨v, rest, ByteCursor.left_advance hleft, hH, ?_⟩
      rw [ByteCursor.advance_advance, List.length_append]

/-- One reader after the other, where the second does not count on the first. -/
lemma bind (hp : Recognizes n p G) (hf : ∀ a, Recognizes n (f a) (H a)) :
    Recognizes n (p >>= f) fun offset w b =>
      ∃ u v a, w = u ++ v ∧ G offset u a ∧ H a (offset + u.length) v b :=
  hp.bind_of_progress hf fun _ _ _ _ => Nat.le_add_right _ _

/-- A test in front of a reader narrows its grammar. -/
lemma guard {P : Prop} [Decidable P] (e : ε) (h : ¬ P → Recognizes n p G) :
    Recognizes n (if P then ByteReader.fail e else p) fun offset w a =>
      ¬ P ∧ G offset w a := by
  by_cases hP : P
  · rw [if_pos hP]
    exact (Recognizes.fail e).congr fun _ _ _ => by simp [hP]
  · rw [if_neg hP]
    exact (h hP).congr fun _ _ _ => by simp [hP]

/-- The position is read off without reading a byte. -/
lemma position : Recognizes (ε := ε) n ByteReader.position fun offset w i =>
    w = [] ∧ i = offset := by
  refine ⟨fun c _ _ stop => nofun, fun c _ _ i c' => ?_⟩
  constructor
  · intro h
    obtain ⟨rfl, rfl⟩ := Prod.mk.inj (Except.ok.inj h)
    exact ⟨[], _, rfl, ⟨rfl, rfl⟩, rfl⟩
  · rintro ⟨w, rest, -, ⟨rfl, rfl⟩, rfl⟩
    rfl

/-- A test between two readers chooses between their grammars. -/
lemma ite {q : Reader ε α} {G' : Grammar α} {P : Prop} [Decidable P]
    (hp : Recognizes n p G) (hq : ¬ P → Recognizes n q G') :
    Recognizes n (if P then p else q) fun offset w a =>
      if P then G offset w a else G' offset w a := by
  by_cases hP : P
  · simp only [if_pos hP]
    exact hp
  · simp only [if_neg hP]
    exact hq hP

/-- The position decides what is read next. -/
lemma bind_position {f : ℕ → Reader ε β} {H : ℕ → Grammar β}
    (hf : ∀ i, Recognizes n (f i) (H i)) :
    Recognizes n (ByteReader.position >>= f) fun offset w b => H offset offset w b := by
  refine (position.bind hf).congr fun offset w b => ?_
  constructor
  · rintro ⟨_, v, _, rfl, ⟨rfl, rfl⟩, hH⟩
    exact hH
  · exact fun hH => ⟨[], w, offset, rfl, ⟨rfl, rfl⟩, hH⟩

/-- What a reader returns may be wrapped up. -/
lemma map (hp : Recognizes n p G) (g : α → β) :
    Recognizes n (p >>= fun a => Pure.pure (g a)) fun offset w b =>
      ∃ a, G offset w a ∧ b = g a := by
  refine (hp.bind fun a => pure (g a)).congr fun offset w b => ?_
  constructor
  · rintro ⟨u, _, a, rfl, hG, rfl, rfl⟩
    exact ⟨a, by rwa [List.append_nil], rfl⟩
  · rintro ⟨a, hG, rfl⟩
    exact ⟨w, [], a, (List.append_nil w).symm, hG, rfl, rfl⟩

/-- **The rule of repetition.**  Reading up to a position recognizes pieces that end there. -/
theorem readUpTo (e : ε) (hp : Recognizes n p G)
    (hprogress : ∀ offset w a, G offset w a → w ≠ []) (stop : ℕ) (rounds : ℕ) :
    Recognizes (min n rounds) (ByteReader.readUpTo e p stop rounds) fun offset w as =>
      Pieces G offset w as ∧ offset + w.length = stop := by
  induction rounds with
  | zero =>
    rw [Nat.min_zero]
    exact ⟨fun c _ hn => absurd hn (Nat.not_lt_zero _), fun c _ hn => absurd hn (Nat.not_lt_zero _)⟩
  | succ rounds ih =>
    have hitem := (hp.mono (Nat.min_le_left n (rounds + 1))).bind_of_progress
      (fun a => ih.map fun rest => a :: rest) fun offset w a hG => by
        have := List.length_pos_of_ne_nil (hprogress offset w a hG)
        omega
    have hstep := bind_position fun i => hitem.ite (P := i < stop) fun _ =>
      guard (P := i ≠ stop) e fun _ => pure []
    refine hstep.congr fun offset w as => ?_
    by_cases hlt : offset < stop
    · rw [if_pos hlt]
      constructor
      · rintro ⟨u, v, a, rfl, hG, rest, ⟨htail, hstop⟩, rfl⟩
        refine ⟨.cons hG htail, ?_⟩
        rw [List.length_append, ← Nat.add_assoc, hstop]
      · rintro ⟨hpieces, hstop⟩
        cases hpieces with
        | nil => exact absurd hstop (Nat.ne_of_lt hlt)
        | @cons _ u v a rest hG htail =>
          rw [List.length_append, ← Nat.add_assoc] at hstop
          exact ⟨u, v, a, rfl, hG, rest, ⟨htail, hstop⟩, rfl⟩
    · rw [if_neg hlt]
      constructor
      · rintro ⟨hstop, rfl, rfl⟩
        exact ⟨.nil, not_not.1 hstop⟩
      · rintro ⟨hpieces, hstop⟩
        cases hpieces with
        | nil => exact ⟨not_not.2 hstop, rfl, rfl⟩
        | @cons _ u v a rest hG htail =>
          have hpos := List.length_pos_of_ne_nil (hprogress offset u a hG)
          rw [List.length_append] at hstop
          omega

end Recognizes

end ByteReader
