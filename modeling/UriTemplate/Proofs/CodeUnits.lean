import Mathlib.Data.List.Chain
import UriTemplate.Text.Surrogate

/-!
# Texts and their UTF-16 code units

Different texts may have the same code units: a code point beyond U+FFFF, and the two surrogates of its pair.

* `CodePoint.Pairs`, `Text.Joined` — two code points that make a pair, and texts without such neighbours;
* `Text.units_joinPairs`, `Text.joined_joinPairs` — joining pairs keeps the code units and leaves no pair;
* `Text.joinPairs_append` — a text may be joined in two parts, if no pair is cut;
* `Text.ofUnits`, `Text.joinPairs_ofUnits` — the joined text is known from the code units alone;
* `joinPairs_canonical` — among the texts with the same code units, the joined one is the only one without a pair.
-/

namespace UriTemplate

namespace CodePoint

/-- A high surrogate and a low one. -/
def Pairs (high low : CodePoint) : Prop := high.isHigh = true ∧ low.isLow = true

instance (high low : CodePoint) : Decidable (Pairs high low) := inferInstanceAs (Decidable (_ ∧ _))

variable {c high low : CodePoint}

theorem isHigh_iff : c.isHigh = true ↔ 0xD800 ≤ c.val ∧ c.val ≤ 0xDBFF := by
  simp [isHigh]

theorem isLow_iff : c.isLow = true ↔ 0xDC00 ≤ c.val ∧ c.val ≤ 0xDFFF := by
  simp [isLow]

theorem val_ofNat {n : Nat} (h : n < 0x110000) : (ofNat n).val = n := by
  rw [ofNat, dif_pos h]

theorem ofNat_val (c : CodePoint) : ofNat c.val = c := ext_val (val_ofNat c.isLt)

theorem Pairs.not_high (h : Pairs high low) : low.isHigh = false := by
  have hlow := isLow_iff.1 h.2
  rw [← Bool.not_eq_true, isHigh_iff]
  omega

/-! ## the units of a code point -/

theorem units_of_lt (h : c.val < 0x10000) : c.units = [c.val] := if_pos h

theorem val_ofPair (h : Pairs high low) :
    (ofPair high low).val = 0x10000 + (high.val - 0xD800) * 0x400 + (low.val - 0xDC00) := by
  have hhigh := isHigh_iff.1 h.1
  have hlow := isLow_iff.1 h.2
  exact val_ofNat (by omega)

/-- A pair has the units of the code point that it stands for. -/
theorem units_ofPair (h : Pairs high low) : (ofPair high low).units = [high.val, low.val] := by
  have hhigh := isHigh_iff.1 h.1
  have hlow := isLow_iff.1 h.2
  have hval := val_ofPair h
  have hbeyond : ¬ (ofPair high low).val < 0x10000 := by omega
  rw [units, if_neg hbeyond, List.cons.injEq, List.cons.injEq]
  exact ⟨by omega, by omega, rfl⟩

/-- A code point beyond U+FFFF is the one that its units stand for, read as surrogates. -/
theorem exists_pair (h : 0x10000 ≤ c.val) :
    ∃ high low, Pairs high low ∧ c.units = [high.val, low.val] ∧ ofPair high low = c := by
  have hlt := c.isLt
  let high : CodePoint := ⟨0xD800 + (c.val - 0x10000) / 0x400, by omega⟩
  let low : CodePoint := ⟨0xDC00 + (c.val - 0x10000) % 0x400, by omega⟩
  have hhigh : high.val = 0xD800 + (c.val - 0x10000) / 0x400 := rfl
  have hlow : low.val = 0xDC00 + (c.val - 0x10000) % 0x400 := rfl
  have hpair : Pairs high low := ⟨isHigh_iff.2 (by omega), isLow_iff.2 (by omega)⟩
  have hunits : c.units = [high.val, low.val] := if_neg (Nat.not_lt.2 h)
  refine ⟨high, low, hpair, hunits, ext_val ?_⟩
  rw [val_ofPair hpair]
  omega

/-- What stands for a pair is no surrogate. -/
theorem not_surrogate_ofPair (h : Pairs high low) : (ofPair high low).isHigh = false ∧ (ofPair high low).isLow = false := by
  have hval := val_ofPair h
  have hbeyond : 0x10000 ≤ (ofPair high low).val := by omega
  rw [← Bool.not_eq_true, ← Bool.not_eq_true, isHigh_iff, isLow_iff]
  omega

end CodePoint

namespace Text

open CodePoint

/-- No high surrogate has a low one right behind it. -/
def Joined (t : Text) : Prop := t.IsChain fun c d => ¬ Pairs c d

theorem units_cons (c : CodePoint) (t : Text) : units (c :: t) = c.units ++ units t := List.flatMap_cons

/-! ## joining pairs -/

theorem joinPairs_of_pair {high low : CodePoint} (h : Pairs high low) (t : Text) :
    joinPairs (high :: low :: t) = ofPair high low :: joinPairs t := by
  rw [joinPairs, if_pos (by simpa [Pairs] using h)]

/-- A code point that makes no pair with the one behind it is left. -/
theorem joinPairs_cons {c : CodePoint} {t : Text} (h : ∀ d ∈ t.head?, ¬ Pairs c d) :
    joinPairs (c :: t) = c :: joinPairs t := by
  cases t with
  | nil => rfl
  | cons d t => rw [joinPairs, if_neg (by simpa [Pairs] using h d rfl)]

/-- The cases of joining: the text is empty, it begins with a pair, or with a code point that is left. -/
theorem joinPairs_induction {P : Text → Prop} (nil : P [])
    (pair : ∀ high low t, Pairs high low → P t → P (high :: low :: t))
    (single : ∀ c t, (∀ d ∈ t.head?, ¬ Pairs c d) → P t → P (c :: t)) (t : Text) : P t := by
  match t with
  | [] => exact nil
  | [c] => exact single c [] (by simp) nil
  | c :: d :: t =>
    by_cases h : Pairs c d
    · exact pair c d t h (joinPairs_induction nil pair single t)
    · exact single c (d :: t) (by simpa using h) (joinPairs_induction nil pair single (d :: t))
termination_by t.length

/-- **Joining pairs keeps the code units.** -/
theorem units_joinPairs (t : Text) : t.joinPairs.units = t.units := by
  induction t using joinPairs_induction with
  | nil => rfl
  | pair high low t h ih =>
    have hhigh := isHigh_iff.1 h.1
    have hlow := isLow_iff.1 h.2
    rw [joinPairs_of_pair h, units_cons, units_ofPair h, ih, units_cons, units_cons, units_of_lt (by omega),
      units_of_lt (by omega)]
    rfl
  | single c t h ih => rw [joinPairs_cons h, units_cons, units_cons, ih]

/-- What a joined text begins with: the code point that the text begins with, or one that is no surrogate. -/
theorem head?_joinPairs {t : Text} {c : CodePoint} (h : c ∈ t.joinPairs.head?) : c ∈ t.head? ∨ c.isLow = false := by
  induction t using joinPairs_induction with
  | nil => cases h
  | pair high low t hpair =>
    rw [joinPairs_of_pair hpair] at h
    obtain rfl := Option.some.inj h
    exact .inr (not_surrogate_ofPair hpair).2
  | single d t hd =>
    rw [joinPairs_cons hd] at h
    exact .inl h

/-- **Joining pairs leaves no pair.** -/
theorem joined_joinPairs (t : Text) : t.joinPairs.Joined := by
  induction t using joinPairs_induction with
  | nil => exact .nil
  | pair high low t h ih =>
    rw [joinPairs_of_pair h]
    refine List.IsChain.cons ih fun d hd hpair => ?_
    rw [Pairs, (not_surrogate_ofPair h).1] at hpair
    cases hpair.1
  | single c t h ih =>
    rw [joinPairs_cons h]
    refine List.IsChain.cons ih fun d hd hpair => ?_
    rcases head?_joinPairs hd with hd | hlow
    · exact h d hd hpair
    · rw [Pairs, hlow] at hpair
      cases hpair.2

/-- **A text is left as it is exactly if it has no pair.** -/
theorem joinPairs_eq_self_iff (t : Text) : t.joinPairs = t ↔ t.Joined := by
  constructor
  · intro h
    rw [← h]
    exact joined_joinPairs t
  · intro h
    induction t with
    | nil => rfl
    | cons c t ih =>
      obtain ⟨hhead, htail⟩ := List.isChain_cons.1 h
      rw [joinPairs_cons hhead, ih htail]

/-- **A text may be joined in two parts**, unless a pair is cut. -/
theorem joinPairs_append {t u : Text} (h : ∀ c ∈ t.getLast?, ∀ d ∈ u.head?, ¬ Pairs c d) :
    joinPairs (t ++ u) = joinPairs t ++ joinPairs u := by
  induction t using joinPairs_induction with
  | nil => rfl
  | pair high low t hpair ih =>
    have hrest : ∀ c ∈ t.getLast?, ∀ d ∈ u.head?, ¬ Pairs c d := by
      intro c hc
      exact h c (by rw [List.getLast?_cons, List.getLast?_cons, hc]; rfl)
    rw [List.cons_append, List.cons_append, joinPairs_of_pair hpair, joinPairs_of_pair hpair, ih hrest, List.cons_append]
  | single c t hc ih =>
    have hrest : ∀ c ∈ t.getLast?, ∀ d ∈ u.head?, ¬ Pairs c d := by
      intro e he
      exact h e (by rw [List.getLast?_cons, he]; rfl)
    have hhead : ∀ d ∈ (t ++ u).head?, ¬ Pairs c d := by
      cases t with
      | nil => exact h c rfl
      | cons e t => exact hc
    rw [List.cons_append, joinPairs_cons hhead, joinPairs_cons hc, ih hrest, List.cons_append]

/-! ## reading code units -/

/-- The text whose code points are the given units, surrogates one by one. -/
def ofUnits (us : List Nat) : Text := us.map CodePoint.ofNat

theorem ofUnits_val_cons (c : CodePoint) (us : List Nat) : ofUnits (c.val :: us) = c :: ofUnits us := by
  rw [ofUnits, List.map_cons, ofNat_val]
  rfl

/-- The first unit of a text is that of a low surrogate only if the text begins with this surrogate. -/
theorem head?_ofUnits_units {t : Text} {c : CodePoint} (h : c ∈ (ofUnits t.units).head?) (hlow : c.isLow = true) :
    c ∈ t.head? := by
  cases t with
  | nil => cases h
  | cons d t =>
    by_cases hd : d.val < 0x10000
    · rw [units_cons, units_of_lt hd, List.singleton_append, ofUnits_val_cons] at h
      exact h
    · obtain ⟨high, low, hpair, hunits, -⟩ := exists_pair (Nat.not_lt.1 hd)
      rw [units_cons, hunits, List.cons_append, ofUnits_val_cons] at h
      obtain rfl := Option.some.inj h
      have hhigh := isHigh_iff.1 hpair.1
      have := isLow_iff.1 hlow
      omega

/-- **The joined text is known from the code units**: it is what they are read as. -/
theorem joinPairs_ofUnits (t : Text) : (ofUnits t.units).joinPairs = t.joinPairs := by
  induction t using joinPairs_induction with
  | nil => rfl
  | pair high low t h ih =>
    have hhigh := isHigh_iff.1 h.1
    have hlow := isLow_iff.1 h.2
    rw [units_cons, units_cons, units_of_lt (by omega), units_of_lt (by omega), List.singleton_append,
      List.singleton_append, ofUnits_val_cons, ofUnits_val_cons, joinPairs_of_pair h, joinPairs_of_pair h, ih]
  | single c t h ih =>
    rw [units_cons, joinPairs_cons h]
    by_cases hc : c.val < 0x10000
    · have hhead : ∀ d ∈ (ofUnits (units t)).head?, ¬ Pairs c d :=
        fun d hd hpair => h d (head?_ofUnits_units hd hpair.2) hpair
      rw [units_of_lt hc, List.singleton_append, ofUnits_val_cons, joinPairs_cons hhead, ih]
    · obtain ⟨high, low, hpair, hunits, hjoin⟩ := exists_pair (Nat.not_lt.1 hc)
      rw [hunits, List.cons_append, List.cons_append, List.nil_append, ofUnits_val_cons, ofUnits_val_cons,
        joinPairs_of_pair hpair, hjoin, ih]

theorem joinPairs_eq_joinPairs_iff (t u : Text) : t.joinPairs = u.joinPairs ↔ t.units = u.units := by
  constructor
  · intro h
    rw [← units_joinPairs t, h, units_joinPairs]
  · intro h
    rw [← joinPairs_ofUnits t, h, joinPairs_ofUnits]

end Text

/-- **Joining pairs is a canonical form for UTF-16.**  The joined text has the code units of the text and no pair, and no
other text has both.  So joining twice is joining once, texts without a pair are left, and so is every code point that
makes no pair with a neighbour, in its place; and texts are the same when they are joined exactly if they have the same
code units. -/
theorem joinPairs_canonical (t : Text) :
    (t.joinPairs.units = t.units ∧ t.joinPairs.Joined ∧ ∀ u : Text, u.units = t.units → u.Joined → u = t.joinPairs) ∧
    t.joinPairs.joinPairs = t.joinPairs ∧
    (t.joinPairs = t ↔ t.Joined) ∧
    (∀ (before after : Text) (c : CodePoint), t = before ++ c :: after → (∀ b ∈ before.getLast?, ¬ b.Pairs c) →
      (∀ d ∈ after.head?, ¬ c.Pairs d) →
      t.joinPairs = before.joinPairs ++ c :: after.joinPairs ∧ before.joinPairs.units = before.units) ∧
    ∀ u : Text, t.joinPairs = u.joinPairs ↔ t.units = u.units := by
  have hidempotent : t.joinPairs.joinPairs = t.joinPairs :=
    (Text.joinPairs_eq_self_iff _).2 (Text.joined_joinPairs t)
  refine ⟨⟨Text.units_joinPairs t, Text.joined_joinPairs t, fun u hunits hjoined => ?_⟩, hidempotent,
    Text.joinPairs_eq_self_iff t, ?_, Text.joinPairs_eq_joinPairs_iff t⟩
  · rw [← (Text.joinPairs_eq_self_iff u).2 hjoined, Text.joinPairs_eq_joinPairs_iff, hunits]
  · rintro before after c rfl hbefore hafter
    rw [Text.joinPairs_append (by simpa using hbefore), Text.joinPairs_cons hafter]
    exact ⟨rfl, Text.units_joinPairs before⟩

/-- Of two high surrogates in front of a low one, the second makes the pair. -/
example : Text.joinPairs [⟨0xD83D, by decide⟩, ⟨0xD83D, by decide⟩, ⟨0xDCA9, by decide⟩] =
    [⟨0xD83D, by decide⟩, ⟨0x1F4A9, by decide⟩] := by decide

end UriTemplate
