import Mathlib.Data.Int.Order.Basic
import Mathlib.Data.List.Basic
import Mathlib.Data.List.Pairwise
import Mathlib.Order.Basic
import Mathlib.Order.Lattice
import Mathlib.Order.Nat
import Mathlib.Tactic.Common

/-!
# Comparisons

A comparison yields the sign of a difference, or fails.  It orders a class of elements when on the
class it never fails and is a total preorder: reflexive, transitive, and with opposite signs for
opposite arguments.  Such comparisons are built from the order of a key, by going on to a second
comparison where the first is a tie, by comparing lists element by element, and by turning a
comparison round.  Deciding whether one element sorts before another by the sign of a comparison
that orders them is a strict weak order.
-/

namespace Comparison

variable {α β ε : Type*}

/-- The comparison orders the elements of a class. -/
structure Orders (cmp : α → α → Except ε ℤ) (S : α → Prop) : Prop where
  /-- It does not fail. -/
  settles : ∀ a b, S a → S b → ∃ n, cmp a b = .ok n
  /-- Everything ties with itself. -/
  refl : ∀ a, S a → cmp a a = .ok 0
  /-- Opposite arguments have opposite signs. -/
  swap : ∀ a b m n, S a → S b → cmp a b = .ok m → cmp b a = .ok n → n.sign = -m.sign
  /-- It is transitive. -/
  trans : ∀ a b c l m n, S a → S b → S c → cmp a b = .ok l → cmp b c = .ok m → cmp a c = .ok n →
    l ≤ 0 → m ≤ 0 → n ≤ 0

namespace Orders

variable {cmp cmp' : α → α → Except ε ℤ} {S T : α → Prop}

/-- A comparison orders what belongs to a smaller class. -/
lemma mono (h : Orders cmp S) (hT : ∀ a, T a → S a) : Orders cmp T where
  settles a b ha hb := h.settles a b (hT a ha) (hT b hb)
  refl a ha := h.refl a (hT a ha)
  swap a b m n ha hb := h.swap a b m n (hT a ha) (hT b hb)
  trans a b c l m n ha hb hc := h.trans a b c l m n (hT a ha) (hT b hb) (hT c hc)

/-- A comparison that agrees with one that orders a class orders it too. -/
lemma congr (h : Orders cmp S) (heq : ∀ a b, S a → S b → cmp' a b = cmp a b) : Orders cmp' S where
  settles a b ha hb := heq a b ha hb ▸ h.settles a b ha hb
  refl a ha := heq a a ha ha ▸ h.refl a ha
  swap a b m n ha hb := heq a b ha hb ▸ heq b a hb ha ▸ h.swap a b m n ha hb
  trans a b c l m n ha hb hc :=
    heq a b ha hb ▸ heq b c hb hc ▸ heq a c ha hc ▸ h.trans a b c l m n ha hb hc

/-- The signs of opposite arguments. -/
lemma nonneg_iff (h : Orders cmp S) {a b : α} {m n : ℤ} (ha : S a) (hb : S b)
    (hm : cmp a b = .ok m) (hn : cmp b a = .ok n) : 0 ≤ m ↔ n ≤ 0 := by
  have hswap := h.swap a b m n ha hb hm hn
  rw [← Int.sign_nonneg_iff, ← Int.sign_nonpos_iff, hswap]
  omega

/-- Of three in order, the neighbours tie where the first and the last do. -/
lemma tie_of_tie (h : Orders cmp S) {a b c : α} {l m : ℤ} (ha : S a) (hb : S b) (hc : S c)
    (hl : cmp a b = .ok l) (hm : cmp b c = .ok m) (hn : cmp a c = .ok 0) (hl₀ : l ≤ 0)
    (hm₀ : m ≤ 0) : l = 0 ∧ m = 0 := by
  obtain ⟨l', hl'⟩ := h.settles b a hb ha
  obtain ⟨m', hm'⟩ := h.settles c b hc hb
  obtain ⟨n', hn'⟩ := h.settles c a hc ha
  have hn'₀ : n' ≤ 0 := (h.nonneg_iff ha hc hn hn').1 le_rfl
  -- the last is not above the first, so the middle is above neither
  have hl'₀ := h.trans b c a m n' l' hb hc ha hm hn' hl' hm₀ hn'₀
  have hm'₀ := h.trans c a b n' l m' hc ha hb hn' hl hm' hn'₀ hl₀
  exact ⟨le_antisymm hl₀ ((h.nonneg_iff ha hb hl hl').2 hl'₀),
    le_antisymm hm₀ ((h.nonneg_iff hb hc hm hm').2 hm'₀)⟩

/-- A tie is a tie both ways. -/
lemma tie_symm (h : Orders cmp S) {a b : α} (ha : S a) (hb : S b) (hab : cmp a b = .ok 0) :
    cmp b a = .ok 0 := by
  obtain ⟨n, hn⟩ := h.settles b a hb ha
  have hsign := h.swap a b 0 n ha hb hab hn
  rw [Int.sign_zero, Int.neg_zero, Int.sign_eq_zero_iff_zero] at hsign
  rw [hn, hsign]

/-- A class that is exhausted by classes growing in size is ordered where these are. -/
lemma of_levels {S : ℕ → α → Prop} (hmono : ∀ m n a, m ≤ n → S m a → S n a)
    (h : ∀ n, Orders cmp (S n)) : Orders cmp fun a => ∃ n, S n a where
  settles a b := by
    rintro ⟨m, ha⟩ ⟨n, hb⟩
    exact (h (max m n)).settles a b (hmono _ _ a (le_max_left m n) ha)
      (hmono _ _ b (le_max_right m n) hb)
  refl a := fun ⟨n, ha⟩ => (h n).refl a ha
  swap a b m n := by
    rintro ⟨i, ha⟩ ⟨j, hb⟩
    exact (h (max i j)).swap a b m n (hmono _ _ a (le_max_left i j) ha)
      (hmono _ _ b (le_max_right i j) hb)
  trans a b c l m n := by
    rintro ⟨i, ha⟩ ⟨j, hb⟩ ⟨k, hc⟩
    exact (h (max i (max j k))).trans a b c l m n (hmono _ _ a (le_max_left _ _) ha)
      (hmono _ _ b ((le_max_left j k).trans (le_max_right _ _)) hb)
      (hmono _ _ c ((le_max_right j k).trans (le_max_right _ _)) hc)

end Orders

/-! ## The order of a key -/

/-- The comparison by a key. -/
def byKey [LinearOrder β] (key : α → β) (a b : α) : Except ε ℤ :=
  .ok (if key a < key b then -1 else if key b < key a then 1 else 0)

/-- Comparing by a key orders everything. -/
lemma orders_byKey [LinearOrder β] (key : α → β) (S : α → Prop) :
    Orders (byKey key : α → α → Except ε ℤ) S where
  settles _ _ _ _ := ⟨_, rfl⟩
  refl a _ := by simp [byKey]
  swap a b m n _ _ hm hn := by
    obtain rfl := Except.ok.inj hm
    obtain rfl := Except.ok.inj hn
    rcases lt_trichotomy (key a) (key b) with h | h | h <;> simp [h, h.not_gt]
  trans a b c l m n _ _ _ hl hm hn hl₀ hm₀ := by
    have hle {x y : α} {k : ℤ} (hk : byKey (ε := ε) key x y = .ok k) : k ≤ 0 ↔ key x ≤ key y := by
      obtain rfl := Except.ok.inj hk
      rcases lt_trichotomy (key x) (key y) with h | h | h
      · simp [h, h.le]
      · simp [h]
      · simp [h, h.not_gt]
    exact (hle hn).2 (((hle hl).1 hl₀).trans ((hle hm).1 hm₀))

/-! ## Ties decided by a second comparison -/

/-- The first comparison, and the second where the first is a tie. -/
def andThen (cmp cmp' : α → α → Except ε ℤ) (a b : α) : Except ε ℤ :=
  match cmp a b with
  | .ok 0 => cmp' a b
  | result => result

variable {cmp cmp' : α → α → Except ε ℤ} {S : α → Prop} {a b : α} {n : ℤ}

/-- A tie is decided by the second comparison. -/
lemma andThen_of_tie (h : cmp a b = .ok 0) : andThen cmp cmp' a b = cmp' a b := by
  rw [andThen, h]
  rfl

/-- What the first comparison decides stays decided. -/
lemma andThen_of_ne (h : cmp a b = .ok n) (hn : n ≠ 0) : andThen cmp cmp' a b = .ok n := by
  rw [andThen, h]
  split
  · next heq => exact absurd (Except.ok.inj heq) hn
  · rfl

/-- What ties by both comparisons ties. -/
lemma andThen_tie_iff : andThen cmp cmp' a b = .ok 0 ↔ cmp a b = .ok 0 ∧ cmp' a b = .ok 0 := by
  constructor
  · intro h
    have htie : cmp a b = .ok 0 := by
      by_contra hne
      rw [andThen] at h
      split at h
      · exact hne ‹_›
      · exact hne h
    rw [andThen_of_tie htie] at h
    exact ⟨htie, h⟩
  · rintro ⟨htie, htie'⟩
    rw [andThen_of_tie htie, htie']

/-- Where the first comparison orders a class and the second the elements that tie with any one of
it, the two together order the class. -/
lemma Orders.andThen (h : Orders cmp S)
    (h' : ∀ a, S a → Orders cmp' fun b => S b ∧ cmp a b = .ok 0) :
    Orders (andThen cmp cmp') S where
  settles a b ha hb := by
    obtain ⟨n, hn⟩ := h.settles a b ha hb
    by_cases hzero : n = 0
    · obtain rfl := hzero
      rw [andThen_of_tie hn]
      exact (h' a ha).settles a b ⟨ha, h.refl a ha⟩ ⟨hb, hn⟩
    · exact ⟨n, andThen_of_ne hn hzero⟩
  refl a ha := by
    rw [andThen_of_tie (h.refl a ha)]
    exact (h' a ha).refl a ⟨ha, h.refl a ha⟩
  swap a b m n ha hb hm hn := by
    obtain ⟨k, hk⟩ := h.settles a b ha hb
    by_cases hzero : k = 0
    · obtain rfl := hzero
      rw [andThen_of_tie hk] at hm
      rw [andThen_of_tie (h.tie_symm ha hb hk)] at hn
      exact (h' a ha).swap a b m n ⟨ha, h.refl a ha⟩ ⟨hb, hk⟩ hm hn
    · obtain ⟨k', hk'⟩ := h.settles b a hb ha
      have hsign := h.swap a b k k' ha hb hk hk'
      have hzero' : k' ≠ 0 := by
        rintro rfl
        rw [Int.sign_zero] at hsign
        exact hzero (Int.sign_eq_zero_iff_zero.1 (by omega))
      rw [andThen_of_ne hk hzero] at hm
      rw [andThen_of_ne hk' hzero'] at hn
      obtain rfl := Except.ok.inj hm
      obtain rfl := Except.ok.inj hn
      exact hsign
  trans a b c l m n ha hb hc hl hm hn hl₀ hm₀ := by
    obtain ⟨x, hx⟩ := h.settles a b ha hb
    obtain ⟨y, hy⟩ := h.settles b c hb hc
    obtain ⟨z, hz⟩ := h.settles a c ha hc
    have hle {a b : α} {x l : ℤ} (hx : cmp a b = .ok x)
        (hl : Comparison.andThen cmp cmp' a b = .ok l) (hl₀ : l ≤ 0) : x ≤ 0 := by
      by_cases hzero : x = 0
      · exact hzero.le
      · rw [andThen_of_ne hx hzero] at hl
        exact Except.ok.inj hl ▸ hl₀
    have hx₀ := hle hx hl hl₀
    have hy₀ := hle hy hm hm₀
    have hz₀ := h.trans a b c x y z ha hb hc hx hy hz hx₀ hy₀
    by_cases hzero : z = 0
    · obtain rfl := hzero
      obtain ⟨rfl, rfl⟩ := h.tie_of_tie ha hb hc hx hy hz hx₀ hy₀
      rw [andThen_of_tie hx] at hl
      rw [andThen_of_tie hy] at hm
      rw [andThen_of_tie hz] at hn
      exact (h' a ha).trans a b c l m n ⟨ha, h.refl a ha⟩ ⟨hb, hx⟩ ⟨hc, hz⟩ hl hm hn hl₀ hm₀
    · rw [andThen_of_ne hz hzero] at hn
      exact Except.ok.inj hn ▸ hz₀

/-! ## Lists -/

/-- Compare two lists element by element, and then by their length. -/
def lex (cmp : α → α → Except ε ℤ) : List α → List α → Except ε ℤ
  | [], [] => .ok 0
  | [], _ :: _ => .ok (-1)
  | _ :: _, [] => .ok 1
  | a :: as, b :: bs =>
    match cmp a b with
    | .ok 0 => lex cmp as bs
    | result => result

/-- Lists that begin with a tie compare as the rest of them. -/
lemma lex_of_tie {as bs : List α} (h : cmp a b = .ok 0) :
    lex cmp (a :: as) (b :: bs) = lex cmp as bs := by
  rw [lex, h]
  rfl

/-- Lists compare as their first elements where these differ. -/
lemma lex_of_ne {as bs : List α} (h : cmp a b = .ok n) (hn : n ≠ 0) :
    lex cmp (a :: as) (b :: bs) = .ok n := by
  rw [lex, h]
  split
  · next heq => exact absurd (Except.ok.inj heq) hn
  · rfl

/-- The first elements of lists in order are in order. -/
lemma head_nonpos {as bs : List α} {l : ℤ} (h : cmp a b = .ok n)
    (hl : lex cmp (a :: as) (b :: bs) = .ok l) (hl₀ : l ≤ 0) : n ≤ 0 := by
  by_cases hzero : n = 0
  · exact hzero.le
  · rw [lex_of_ne h hzero] at hl
    exact Except.ok.inj hl ▸ hl₀

/-- **Lists.**  Where the elements are ordered, so are the lists of them. -/
theorem Orders.lex (h : Orders cmp S) : Orders (lex cmp) fun as => ∀ a ∈ as, S a where
  settles as bs ha hb := by
    induction as generalizing bs with
    | nil => cases bs <;> exact ⟨_, rfl⟩
    | cons a as ih =>
      cases bs with
      | nil => exact ⟨_, rfl⟩
      | cons b bs =>
        rw [List.forall_mem_cons] at ha hb
        obtain ⟨n, hn⟩ := h.settles a b ha.1 hb.1
        by_cases hzero : n = 0
        · obtain rfl := hzero
          rw [lex_of_tie hn]
          exact ih bs ha.2 hb.2
        · exact ⟨n, lex_of_ne hn hzero⟩
  refl as ha := by
    induction as with
    | nil => rfl
    | cons a as ih =>
      rw [List.forall_mem_cons] at ha
      rw [lex_of_tie (h.refl a ha.1)]
      exact ih ha.2
  swap as bs m n ha hb hm hn := by
    induction as generalizing bs with
    | nil =>
      cases bs <;> obtain rfl := Except.ok.inj hm <;> obtain rfl := Except.ok.inj hn <;> rfl
    | cons a as ih =>
      cases bs with
      | nil =>
        obtain rfl := Except.ok.inj hm
        obtain rfl := Except.ok.inj hn
        rfl
      | cons b bs =>
        rw [List.forall_mem_cons] at ha hb
        obtain ⟨k, hk⟩ := h.settles a b ha.1 hb.1
        by_cases hzero : k = 0
        · obtain rfl := hzero
          rw [lex_of_tie hk] at hm
          rw [lex_of_tie (h.tie_symm ha.1 hb.1 hk)] at hn
          exact ih bs ha.2 hb.2 hm hn
        · obtain ⟨k', hk'⟩ := h.settles b a hb.1 ha.1
          have hsign := h.swap a b k k' ha.1 hb.1 hk hk'
          have hzero' : k' ≠ 0 := by
            rintro rfl
            rw [Int.sign_zero] at hsign
            exact hzero (Int.sign_eq_zero_iff_zero.1 (by omega))
          rw [lex_of_ne hk hzero] at hm
          rw [lex_of_ne hk' hzero'] at hn
          obtain rfl := Except.ok.inj hm
          obtain rfl := Except.ok.inj hn
          exact hsign
  trans as bs cs l m n ha hb hc hl hm hn hl₀ hm₀ := by
    induction as generalizing bs cs with
    | nil =>
      cases cs with
      | nil => exact (Except.ok.inj hn).ge
      | cons c cs =>
        obtain rfl := Except.ok.inj hn
        omega
    | cons a as ih =>
      cases bs with
      | nil =>
        obtain rfl := Except.ok.inj hl
        omega
      | cons b bs =>
        cases cs with
        | nil =>
          obtain rfl := Except.ok.inj hm
          omega
        | cons c cs =>
          rw [List.forall_mem_cons] at ha hb hc
          obtain ⟨x, hx⟩ := h.settles a b ha.1 hb.1
          obtain ⟨y, hy⟩ := h.settles b c hb.1 hc.1
          obtain ⟨z, hz⟩ := h.settles a c ha.1 hc.1
          have hx₀ := head_nonpos hx hl hl₀
          have hy₀ := head_nonpos hy hm hm₀
          have hz₀ := h.trans a b c x y z ha.1 hb.1 hc.1 hx hy hz hx₀ hy₀
          by_cases hzero : z = 0
          · obtain rfl := hzero
            obtain ⟨rfl, rfl⟩ := h.tie_of_tie ha.1 hb.1 hc.1 hx hy hz hx₀ hy₀
            rw [lex_of_tie hx] at hl
            rw [lex_of_tie hy] at hm
            rw [lex_of_tie hz] at hn
            exact ih bs cs ha.2 hb.2 hc.2 hl hm hn
          · rw [lex_of_ne hz hzero] at hn
            exact Except.ok.inj hn ▸ hz₀

/-- Where elements tie when they are alike in some respect, lists tie when they are. -/
lemma lex_tie_iff {f : α → β} {as bs : List α}
    (h : ∀ a ∈ as, ∀ b ∈ bs, cmp a b = .ok 0 ↔ f a = f b) :
    lex cmp as bs = .ok 0 ↔ as.map f = bs.map f := by
  induction as generalizing bs with
  | nil => cases bs <;> simp [lex]
  | cons a as ih =>
    cases bs with
    | nil => simp [lex]
    | cons b bs =>
      have hhead := h a List.mem_cons_self b List.mem_cons_self
      have htail := ih fun x hx y hy =>
        h x (List.mem_cons_of_mem a hx) y (List.mem_cons_of_mem b hy)
      rw [List.map_cons, List.map_cons, List.cons.injEq, ← hhead, ← htail]
      constructor
      · intro hlex
        have htie : cmp a b = .ok 0 := by
          by_contra hne
          rw [lex] at hlex
          split at hlex
          · exact hne ‹_›
          · exact hne hlex
        exact ⟨htie, lex_of_tie htie ▸ hlex⟩
      · rintro ⟨htie, hlex⟩
        rw [lex_of_tie htie, hlex]

/-! ## The other way round, and elsewhere -/

/-- A comparison turned round. -/
def turned (cmp : α → α → Except ε ℤ) (a b : α) : Except ε ℤ := (cmp a b).map fun n => -n

/-- What a comparison turned round yields. -/
lemma turned_eq_ok : turned cmp a b = .ok n ↔ cmp a b = .ok (-n) := by
  unfold turned
  cases cmp a b with
  | error e => simp [Except.map]
  | ok m =>
    simp only [Except.map, Except.ok.injEq]
    omega

/-- Turning a comparison round keeps what it orders. -/
lemma Orders.turned (h : Orders cmp S) : Orders (turned cmp) S where
  settles a b ha hb := by
    obtain ⟨n, hn⟩ := h.settles a b ha hb
    exact ⟨-n, turned_eq_ok.2 (by rw [Int.neg_neg, hn])⟩
  refl a ha := turned_eq_ok.2 (by rw [Int.neg_zero, h.refl a ha])
  swap a b m n ha hb hm hn := by
    have hsign := h.swap a b (-m) (-n) ha hb (turned_eq_ok.1 hm) (turned_eq_ok.1 hn)
    rw [Int.sign_neg, Int.sign_neg] at hsign
    omega
  trans a b c l m n ha hb hc hl hm hn hl₀ hm₀ := by
    rw [turned_eq_ok] at hl hm hn
    obtain ⟨l', hl'⟩ := h.settles b a hb ha
    obtain ⟨m', hm'⟩ := h.settles c b hc hb
    obtain ⟨n', hn'⟩ := h.settles c a hc ha
    have hl'₀ := (h.nonneg_iff ha hb hl hl').1 (by omega)
    have hm'₀ := (h.nonneg_iff hb hc hm hm').1 (by omega)
    have hle := h.trans c b a m' l' n' hc hb ha hm' hl' hn' hm'₀ hl'₀
    have hn'₀ := (h.nonneg_iff ha hc hn hn').2 hle
    omega

/-- A comparison of what a function yields. -/
lemma Orders.comap {cmp : β → β → Except ε ℤ} {S : β → Prop} (h : Orders cmp S) (f : α → β) :
    Orders (fun a b => cmp (f a) (f b)) fun a => S (f a) where
  settles a b := h.settles (f a) (f b)
  refl a := h.refl (f a)
  swap a b m n := h.swap (f a) (f b) m n
  trans a b c l m n := h.trans (f a) (f b) (f c) l m n

/-! ## Sorting before -/

/-- Deciding which of two elements sorts first is a strict weak order on a class of elements. -/
structure StrictWeak (lt : α → α → Except ε Bool) (S : α → Prop) : Prop where
  /-- It does not fail. -/
  settles : ∀ a b, S a → S b → ∃ r, lt a b = .ok r
  /-- Nothing sorts before itself. -/
  irrefl : ∀ a, S a → lt a a = .ok false
  /-- It is transitive. -/
  trans : ∀ a b c, S a → S b → S c → lt a b = .ok true → lt b c = .ok true → lt a c = .ok true
  /-- What does not sort before something does not sort before what that does not sort before. -/
  negTrans : ∀ a b c, S a → S b → S c → lt a b = .ok false → lt b c = .ok false →
    lt a c = .ok false

/-- The first element sorts before the second when the comparison is negative. -/
def before (cmp : α → α → Except ε ℤ) (a b : α) : Except ε Bool :=
  (cmp a b).map fun n => decide (n < 0)

/-- What a comparison yields when one element does, or does not, sort before another. -/
lemma before_eq_ok {r : Bool} :
    before cmp a b = .ok r ↔ ∃ n, cmp a b = .ok n ∧ decide (n < 0) = r := by
  unfold before
  cases cmp a b <;> simp [Except.map]

/-- **Strict weak order.**  A comparison that orders a class yields a strict weak order on it. -/
theorem Orders.strictWeak (h : Orders cmp S) : StrictWeak (before cmp) S where
  settles a b ha hb := by
    obtain ⟨n, hn⟩ := h.settles a b ha hb
    exact ⟨_, before_eq_ok.2 ⟨n, hn, rfl⟩⟩
  irrefl a ha := before_eq_ok.2 ⟨0, h.refl a ha, rfl⟩
  trans a b c ha hb hc hab hbc := by
    obtain ⟨l, hl, hl₀⟩ := before_eq_ok.1 hab
    obtain ⟨m, hm, hm₀⟩ := before_eq_ok.1 hbc
    obtain ⟨n, hn⟩ := h.settles a c ha hc
    rw [decide_eq_true_eq] at hl₀ hm₀
    have hn₀ := h.trans a b c l m n ha hb hc hl hm hn hl₀.le hm₀.le
    refine before_eq_ok.2 ⟨n, hn, decide_eq_true (lt_of_le_of_ne hn₀ ?_)⟩
    rintro rfl
    exact hl₀.ne (h.tie_of_tie ha hb hc hl hm hn hl₀.le hm₀.le).1
  negTrans a b c ha hb hc hab hbc := by
    obtain ⟨l, hl, hl₀⟩ := before_eq_ok.1 hab
    obtain ⟨m, hm, hm₀⟩ := before_eq_ok.1 hbc
    obtain ⟨n, hn⟩ := h.settles a c ha hc
    obtain ⟨l', hl'⟩ := h.settles b a hb ha
    obtain ⟨m', hm'⟩ := h.settles c b hc hb
    obtain ⟨n', hn'⟩ := h.settles c a hc ha
    rw [decide_eq_false_iff_not, not_lt] at hl₀ hm₀
    have hl'₀ := (h.nonneg_iff ha hb hl hl').1 hl₀
    have hm'₀ := (h.nonneg_iff hb hc hm hm').1 hm₀
    have hn'₀ := h.trans c b a m' l' n' hc hb ha hm' hl' hn' hm'₀ hl'₀
    exact before_eq_ok.2 ⟨n, hn, decide_eq_false ((h.nonneg_iff ha hc hn hn').2 hn'₀).not_gt⟩

/-! ## Sorting -/

/-- The element does not sort after the other. -/
def notAfter (cmp : α → α → Except ε ℤ) (a b : α) : Bool := !((before cmp b a).toOption.getD false)

/-- An element of an ordered class does not sort after another when it does not compare above. -/
lemma notAfter_iff (h : Orders cmp S) (ha : S a) (hb : S b) (hab : cmp a b = .ok n) :
    notAfter cmp a b = true ↔ n ≤ 0 := by
  obtain ⟨m, hm⟩ := h.settles b a hb ha
  rw [notAfter, before_eq_ok.2 ⟨m, hm, rfl⟩, ← h.nonneg_iff hb ha hm hab]
  simp [Except.toOption]

/-- **Sorting.**  What is ordered is sorted. -/
theorem Orders.pairwise_mergeSort (h : Orders cmp S) {as : List α} (has : ∀ a ∈ as, S a) :
    (as.mergeSort (notAfter cmp)).Pairwise fun a b => notAfter cmp a b = true := by
  -- sort the elements together with their membership
  let le (a b : {a // S a}) : Bool := notAfter cmp a.1 b.1
  have hsorted : ((as.attachWith S has).mergeSort le).Pairwise fun a b => le a b = true := by
    refine List.pairwise_mergeSort (fun a b c hab hbc => ?_) (fun a b => ?_) _
    · obtain ⟨l, hl⟩ := h.settles a b a.2 b.2
      obtain ⟨m, hm⟩ := h.settles b c b.2 c.2
      obtain ⟨n, hn⟩ := h.settles a c a.2 c.2
      refine (notAfter_iff h a.2 c.2 hn).2 (h.trans a b c l m n a.2 b.2 c.2 hl hm hn ?_ ?_)
      · exact (notAfter_iff h a.2 b.2 hl).1 hab
      · exact (notAfter_iff h b.2 c.2 hm).1 hbc
    · obtain ⟨m, hm⟩ := h.settles a b a.2 b.2
      obtain ⟨n, hn⟩ := h.settles b a b.2 a.2
      rw [Bool.or_eq_true, notAfter_iff h a.2 b.2 hm, notAfter_iff h b.2 a.2 hn,
        ← h.nonneg_iff a.2 b.2 hm hn]
      exact le_total m 0
  have hmap := List.map_mergeSort (r := le) (s := notAfter cmp) (f := Subtype.val)
    (l := as.attachWith S has) fun _ _ _ _ => rfl
  rw [List.attachWith_map_subtype_val] at hmap
  rw [← hmap, List.pairwise_map]
  exact hsorted

/-- **The other way round.**  Where no two elements tie, sorting by the comparison turned round is
the reverse of sorting by the comparison. -/
theorem Orders.mergeSort_turned (h : Orders cmp S) {as : List α} (has : ∀ a ∈ as, S a)
    (hapart : as.Pairwise fun a b => cmp a b ≠ .ok 0) :
    as.mergeSort (notAfter (Comparison.turned cmp)) = (as.mergeSort (notAfter cmp)).reverse := by
  have hperm := List.mergeSort_perm as (notAfter cmp)
  have hmem {a : α} (ha : a ∈ as.mergeSort (notAfter cmp)) : S a := has a (hperm.mem_iff.1 ha)
  -- no two elements tie, in either order
  have hboth : as.Pairwise fun a b => cmp a b ≠ .ok 0 ∧ cmp b a ≠ .ok 0 := by
    refine hapart.imp_of_mem fun ha hb hne => ⟨hne, fun htie => hne ?_⟩
    exact h.tie_symm (has _ hb) (has _ ha) htie
  have huntied (a b : α) (ha : a ∈ as) (hb : b ∈ as) (htie : cmp a b = .ok 0) : a = b := by
    by_contra hne
    have : Std.Symm fun a b => cmp a b ≠ .ok 0 ∧ cmp b a ≠ .ok 0 := ⟨fun _ _ h => h.symm⟩
    exact (hboth.forall ha hb hne).1 htie
  have hreverse : (as.mergeSort (notAfter cmp)).reverse.Pairwise fun a b =>
      notAfter (Comparison.turned cmp) a b = true := by
    rw [List.pairwise_reverse]
    refine (h.pairwise_mergeSort has).imp_of_mem fun {a b} ha hb hab => ?_
    obtain ⟨m, hm⟩ := h.settles a b (hmem ha) (hmem hb)
    obtain ⟨n, hn⟩ := h.settles b a (hmem hb) (hmem ha)
    rw [notAfter_iff h (hmem ha) (hmem hb) hm] at hab
    rw [notAfter_iff h.turned (hmem hb) (hmem ha) (turned_eq_ok.2 (by rw [Int.neg_neg, hn]))]
    have := (h.nonneg_iff (hmem hb) (hmem ha) hn hm).2 hab
    omega
  refine List.Perm.eq_of_pairwise (fun a b ha hb hab hba => ?_) (h.turned.pairwise_mergeSort has)
    hreverse ?_
  · have ha : a ∈ as := (List.mergeSort_perm _ _).mem_iff.1 ha
    have hb : b ∈ as := hperm.mem_iff.1 (List.mem_reverse.1 hb)
    obtain ⟨m, hm⟩ := h.turned.settles a b (has a ha) (has b hb)
    obtain ⟨n, hn⟩ := h.turned.settles b a (has b hb) (has a ha)
    rw [notAfter_iff h.turned (has a ha) (has b hb) hm] at hab
    rw [notAfter_iff h.turned (has b hb) (has a ha) hn] at hba
    have hm₀ := (h.turned.nonneg_iff (has a ha) (has b hb) hm hn).2 hba
    obtain rfl : m = 0 := le_antisymm hab hm₀
    exact huntied a b ha hb (turned_eq_ok.1 hm)
  · exact (List.mergeSort_perm _ _).trans (hperm.symm.trans (List.reverse_perm _).symm)

end Comparison
