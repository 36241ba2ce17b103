import UriTemplate.Proofs.CodeUnits
import UriTemplate.Proofs.Decoding

/-!
# Well-formed UTF-8

Bytes are read whatever they are, and what is ill-formed is replaced.  The reader is right about what is well-formed.

* `Text.SurrogateFree` — texts without surrogates;
* `Utf8.Sequence`, `Utf8.WellFormed` — the bytes of one code point and of a text, by the ranges that the bytes lie in;
* `Utf8.sequence_utf8`, `Utf8.Sequence.utf8_number` — these are the bytes of the code points that are no surrogates;
* `Utf8.start_eq`, `Utf8.start_cases`, `Utf8.Pending.Completes` — what a byte begins, and what a sequence goes on with;
* `Utf8.pieces_append_of_sequence`, `Utf8.pieces_induction` — reading goes from sequence to sequence, or to the end of
  what is ill-formed;
* `Utf8.decodeReplacing_utf8`, `Utf8.utf8_decodeReplacing_iff` — texts are read back, and of all bytes those that are
  well-formed.
-/

namespace UriTemplate

/-- The text holds no surrogates. -/
def Text.SurrogateFree (t : Text) : Prop := ∀ c ∈ t, c.isSurrogate = false

theorem CodePoint.isSurrogate_iff {c : CodePoint} : c.isSurrogate = true ↔ 0xD800 ≤ c.val ∧ c.val ≤ 0xDFFF := by
  simp [isSurrogate]

/-- Without surrogates there are no pairs to be joined. -/
theorem Text.SurrogateFree.joinPairs_eq {t : Text} (h : t.SurrogateFree) : t.joinPairs = t := by
  induction t with
  | nil => rfl
  | cons c t ih =>
    obtain ⟨hc, ht⟩ := List.forall_mem_cons.1 h
    have hhigh : ¬ c.isHigh = true := by
      rw [← Bool.not_eq_true, CodePoint.isSurrogate_iff] at hc
      rw [CodePoint.isHigh_iff]
      omega
    rw [joinPairs_cons fun d _ hpair => hhigh hpair.1, ih ht]

namespace Utf8

open CodePoint

/-! ## sequences -/

/-- A byte behind the first one of a sequence. -/
def IsTail (b : UInt8) : Prop := 0x80 ≤ b.toNat ∧ b.toNat ≤ 0xBF

instance (b : UInt8) : Decidable (IsTail b) := inferInstanceAs (Decidable (_ ∧ _))

/-- The bytes of one code point.  Where the first byte leaves it open, the second one must not make an overlong form, a
surrogate or a number beyond U+10FFFF. -/
inductive Sequence : Bytes → Prop
  | one {a : UInt8} (first : a.toNat ≤ 0x7F) : Sequence [a]
  | two {a b : UInt8} (first : 0xC2 ≤ a.toNat ∧ a.toNat ≤ 0xDF) (second : IsTail b) : Sequence [a, b]
  | three {a b c : UInt8} (first : 0xE0 ≤ a.toNat ∧ a.toNat ≤ 0xEF) (second : IsTail b)
      (notOverlong : a.toNat = 0xE0 → 0xA0 ≤ b.toNat) (notSurrogate : a.toNat = 0xED → b.toNat ≤ 0x9F)
      (third : IsTail c) : Sequence [a, b, c]
  | four {a b c d : UInt8} (first : 0xF0 ≤ a.toNat ∧ a.toNat ≤ 0xF4) (second : IsTail b)
      (notOverlong : a.toNat = 0xF0 → 0x90 ≤ b.toNat) (notBeyond : a.toNat = 0xF4 → b.toNat ≤ 0x8F)
      (third : IsTail c) (fourth : IsTail d) : Sequence [a, b, c, d]

/-- Sequences one behind the other. -/
inductive WellFormed : Bytes → Prop
  | nil : WellFormed []
  | append {bs rest : Bytes} (first : Sequence bs) (others : WellFormed rest) : WellFormed (bs ++ rest)

theorem isTail_ofNat (n : Nat) : IsTail (.ofNat (0x80 + n % 64)) := by
  have hlt : n % 64 < 64 := Nat.mod_lt n (by decide)
  rw [IsTail, toNat_ofNat_of_lt (by omega)]
  omega

/-- **The bytes of a code point that is no surrogate are a sequence.** -/
theorem sequence_utf8 {c : CodePoint} (h : c.isSurrogate = false) : Sequence c.utf8 := by
  have hlt := c.isLt
  rw [← Bool.not_eq_true, isSurrogate_iff] at h
  unfold CodePoint.utf8
  dsimp only
  split
  · exact .one (by rw [toNat_ofNat_of_lt (by omega)]; omega)
  split
  · exact .two (by rw [toNat_ofNat_of_lt (by omega)]; omega) (isTail_ofNat _)
  split
  · refine .three ?_ (isTail_ofNat _) ?_ ?_ (isTail_ofNat _)
    · rw [toNat_ofNat_of_lt (by omega)]; omega
    · rw [toNat_ofNat_of_lt (by omega), toNat_ofNat_of_lt (by omega)]; omega
    · rw [toNat_ofNat_of_lt (by omega), toNat_ofNat_of_lt (by omega)]; omega
  · refine .four ?_ (isTail_ofNat _) ?_ ?_ (isTail_ofNat _) (isTail_ofNat _)
    · rw [toNat_ofNat_of_lt (by omega)]; omega
    · rw [toNat_ofNat_of_lt (by omega), toNat_ofNat_of_lt (by omega)]; omega
    · rw [toNat_ofNat_of_lt (by omega), toNat_ofNat_of_lt (by omega)]; omega

/-- The number that the bytes of a sequence make. -/
def number : Bytes → Nat
  | [a] => a.toNat
  | [a, b] => a.toNat % 32 * 64 + b.toNat % 64
  | [a, b, c] => (a.toNat % 16 * 64 + b.toNat % 64) * 64 + c.toNat % 64
  | [a, b, c, d] => ((a.toNat % 8 * 64 + b.toNat % 64) * 64 + c.toNat % 64) * 64 + d.toNat % 64
  | _ => 0

theorem ofNat_eq_of_toNat {n : Nat} {b : UInt8} (h : n = b.toNat) : UInt8.ofNat n = b := by
  rw [h, UInt8.ofNat_toNat]

/-- **The bytes of a sequence are those of the code point with their number, which is no surrogate.** -/
theorem Sequence.utf8_number {bs : Bytes} (h : Sequence bs) :
    (CodePoint.ofNat (number bs)).isSurrogate = false ∧ (CodePoint.ofNat (number bs)).utf8 = bs := by
  rw [← Bool.not_eq_true, isSurrogate_iff]
  cases h with
  | @one a first =>
    have hval : (CodePoint.ofNat (number [a])).val = a.toNat := CodePoint.val_ofNat (show a.toNat < _ by omega)
    refine ⟨by omega, ?_⟩
    rw [CodePoint.utf8, if_pos (by omega), hval, UInt8.ofNat_toNat]
  | @two a b first second =>
    unfold IsTail at second
    have hval : (CodePoint.ofNat (number [a, b])).val = a.toNat % 32 * 64 + b.toNat % 64 :=
      CodePoint.val_ofNat (show a.toNat % 32 * 64 + b.toNat % 64 < _ by omega)
    refine ⟨by omega, ?_⟩
    simp only [CodePoint.utf8, hval]
    rw [if_neg (by omega), if_pos (by omega), ofNat_eq_of_toNat (b := a) (by omega),
      ofNat_eq_of_toNat (b := b) (by omega)]
  | @three a b c first second notOverlong notSurrogate third =>
    unfold IsTail at second third
    have hval : (CodePoint.ofNat (number [a, b, c])).val = (a.toNat % 16 * 64 + b.toNat % 64) * 64 + c.toNat % 64 :=
      CodePoint.val_ofNat (show (a.toNat % 16 * 64 + b.toNat % 64) * 64 + c.toNat % 64 < _ by omega)
    refine ⟨by omega, ?_⟩
    simp only [CodePoint.utf8, hval]
    rw [if_neg (by omega), if_neg (by omega), if_pos (by omega), ofNat_eq_of_toNat (b := a) (by omega),
      ofNat_eq_of_toNat (b := b) (by omega), ofNat_eq_of_toNat (b := c) (by omega)]
  | @four a b c d first second notOverlong notBeyond third fourth =>
    unfold IsTail at second third fourth
    have hval : (CodePoint.ofNat (number [a, b, c, d])).val =
        ((a.toNat % 8 * 64 + b.toNat % 64) * 64 + c.toNat % 64) * 64 + d.toNat % 64 :=
      CodePoint.val_ofNat (show ((a.toNat % 8 * 64 + b.toNat % 64) * 64 + c.toNat % 64) * 64 + d.toNat % 64 < _ by omega)
    refine ⟨by omega, ?_⟩
    simp only [CodePoint.utf8, hval]
    rw [if_neg (by omega), if_neg (by omega), if_neg (by omega), ofNat_eq_of_toNat (b := a) (by omega),
      ofNat_eq_of_toNat (b := b) (by omega), ofNat_eq_of_toNat (b := c) (by omega), ofNat_eq_of_toNat (b := d) (by omega)]

/-! ## sequences that have begun -/

/-- What a byte begins, by its number. -/
theorem start_eq (a : UInt8) : start a =
    if a.toNat ≤ 0x7F then ([.codePoint (.ofNat a.toNat)], none)
    else if a.toNat ≤ 0xC1 then ([.illFormed 1 a .startByte], none)
    else if a.toNat ≤ 0xDF then ([], some ⟨a, a.toNat % 32, 1, 0, 0x80, 0xBF⟩)
    else if a.toNat = 0xE0 then ([], some ⟨a, a.toNat % 16, 1, 1, 0xA0, 0xBF⟩)
    else if a.toNat = 0xED then ([], some ⟨a, a.toNat % 16, 1, 1, 0x80, 0x9F⟩)
    else if a.toNat ≤ 0xEF then ([], some ⟨a, a.toNat % 16, 1, 1, 0x80, 0xBF⟩)
    else if a.toNat = 0xF0 then ([], some ⟨a, a.toNat % 8, 1, 2, 0x90, 0xBF⟩)
    else if a.toNat ≤ 0xF3 then ([], some ⟨a, a.toNat % 8, 1, 2, 0x80, 0xBF⟩)
    else if a.toNat = 0xF4 then ([], some ⟨a, a.toNat % 8, 1, 2, 0x80, 0x8F⟩)
    else ([.illFormed 1 a .startByte], none) := by
  simp only [start, UInt8.le_iff_toNat_le, ← UInt8.toNat_inj, UInt8.reduceToNat]

theorem start_of_one {a : UInt8} (h : a.toNat ≤ 0x7F) : start a = ([.codePoint (.ofNat a.toNat)], none) := by
  rw [start_eq, if_pos h]

theorem start_of_two {a : UInt8} (h : 0xC2 ≤ a.toNat ∧ a.toNat ≤ 0xDF) :
    start a = ([], some ⟨a, a.toNat % 32, 1, 0, 0x80, 0xBF⟩) := by
  rw [start_eq, if_neg (by omega), if_neg (by omega), if_pos h.2]

theorem start_of_three {a : UInt8} (h : 0xE0 ≤ a.toNat ∧ a.toNat ≤ 0xEF) :
    start a = ([], some ⟨a, a.toNat % 16, 1, 1, if a.toNat = 0xE0 then 0xA0 else 0x80,
      if a.toNat = 0xED then 0x9F else 0xBF⟩) := by
  rw [start_eq, if_neg (by omega), if_neg (by omega), if_neg (by omega)]
  by_cases hfirst : a.toNat = 0xE0
  · rw [if_pos hfirst, if_pos hfirst, if_neg (by omega)]
  by_cases hlast : a.toNat = 0xED
  · rw [if_neg hfirst, if_neg hfirst, if_pos hlast, if_pos hlast]
  · rw [if_neg hfirst, if_neg hfirst, if_neg hlast, if_neg hlast, if_pos h.2]

theorem start_of_four {a : UInt8} (h : 0xF0 ≤ a.toNat ∧ a.toNat ≤ 0xF4) :
    start a = ([], some ⟨a, a.toNat % 8, 1, 2, if a.toNat = 0xF0 then 0x90 else 0x80,
      if a.toNat = 0xF4 then 0x8F else 0xBF⟩) := by
  rw [start_eq, if_neg (by omega), if_neg (by omega), if_neg (by omega), if_neg (by omega), if_neg (by omega),
    if_neg (by omega)]
  by_cases hfirst : a.toNat = 0xF0
  · rw [if_pos hfirst, if_pos hfirst, if_neg (by omega)]
  by_cases hlast : a.toNat = 0xF4
  · rw [if_neg hfirst, if_neg hfirst, if_neg (by omega), if_pos hlast, if_pos hlast]
  · rw [if_neg hfirst, if_neg hfirst, if_pos (by omega), if_neg hlast]

theorem start_of_illFormed {a : UInt8} (h : 0x80 ≤ a.toNat ∧ a.toNat ≤ 0xC1 ∨ 0xF5 ≤ a.toNat) :
    start a = ([.illFormed 1 a .startByte], none) := by
  rw [start_eq, if_neg (by omega)]
  by_cases hcontinuation : a.toNat ≤ 0xC1
  · rw [if_pos hcontinuation]
  · rw [if_neg hcontinuation, if_neg (by omega), if_neg (by omega), if_neg (by omega), if_neg (by omega),
      if_neg (by omega), if_neg (by omega), if_neg (by omega)]

/-- What has begun when one more byte has been read. -/
def Pending.next (p : Pending) (b : UInt8) (missing : Nat) : Pending :=
  ⟨p.first, p.value * 64 + b.toNat % 64, p.length + 1, missing, 0x80, 0xBF⟩

/-- The bytes complete what has begun, and `n` is the number that they make of it. -/
inductive Pending.Completes : Pending → Bytes → Nat → Prop
  | last {p : Pending} {b : UInt8} (missing : p.missing = 0) (range : p.low ≤ b ∧ b ≤ p.high) :
    Completes p [b] (p.value * 64 + b.toNat % 64)
  | more {p : Pending} {b : UInt8} {k : Nat} {bs : Bytes} {n : Nat} (missing : p.missing = k + 1)
    (range : p.low ≤ b ∧ b ≤ p.high) (others : Completes (p.next b k) bs n) : Completes p (b :: bs) n

theorem piecesFrom_of_completes {p : Pending} {bs : Bytes} {n : Nat} (h : p.Completes bs n) (rest : Bytes) :
    piecesFrom (some p) (bs ++ rest) = .codePoint (.ofNat n) :: pieces rest := by
  induction h with
  | last missing range =>
    simp only [List.singleton_append, piecesFrom, range, missing, decide_true, Bool.and_self, if_true]
    rfl
  | more missing range _ ih =>
    simp only [List.cons_append, piecesFrom, range, missing, decide_true, Bool.and_self, if_true]
    exact ih

/-- **What has begun is completed, or it is a piece by itself.** -/
theorem piecesFrom_cases (p : Pending) (bs : Bytes) :
    (∃ tail rest n, bs = tail ++ rest ∧ p.Completes tail n) ∨
      ∃ length first reason rest, rest.length ≤ bs.length ∧
        piecesFrom (some p) bs = .illFormed length first reason :: pieces rest := by
  induction bs generalizing p with
  | nil => exact .inr ⟨_, _, _, [], Nat.le_refl _, rfl⟩
  | cons b bs ih =>
    by_cases range : p.low ≤ b ∧ b ≤ p.high
    · cases missing : p.missing with
      | zero => exact .inl ⟨[b], bs, _, rfl, .last missing range⟩
      | succ k =>
        have hnext : piecesFrom (some p) (b :: bs) = piecesFrom (some (p.next b k)) bs := by
          simp only [piecesFrom, range, missing, decide_true, Bool.and_self, if_true]
          rfl
        rcases ih (p.next b k) with ⟨tail, rest, n, rfl, hcompletes⟩ | ⟨length, first, reason, rest, hlength, hpieces⟩
        · exact .inl ⟨b :: tail, rest, n, rfl, .more missing range hcompletes⟩
        · exact .inr ⟨length, first, reason, rest, Nat.le_succ_of_le hlength, hnext.trans hpieces⟩
    · refine .inr ⟨p.length, p.first, .continuationByte, b :: bs, Nat.le_refl _, ?_⟩
      have hrange : (decide (p.low ≤ b) && decide (b ≤ p.high)) = false := by simpa using range
      simp only [piecesFrom, hrange, pieces]
      rfl

/-! ## reading sequences -/

theorem pieces_of_completes {a : UInt8} {tail : Bytes} {p : Pending} {n : Nat} (hstart : start a = ([], some p))
    (h : p.Completes tail n) (rest : Bytes) : pieces (a :: tail ++ rest) = .codePoint (.ofNat n) :: pieces rest := by
  rw [pieces, List.cons_append, piecesFrom, hstart]
  exact piecesFrom_of_completes h rest

theorem isTail_iff {b : UInt8} : IsTail b ↔ (0x80 : UInt8) ≤ b ∧ b ≤ 0xBF := by
  rw [UInt8.le_iff_toNat_le, UInt8.le_iff_toNat_le]
  rfl

/-- The range of the second byte is smaller behind some first bytes. -/
theorem second_range_iff {P Q : Prop} [Decidable P] [Decidable Q] {b : UInt8} (low high : UInt8)
    (hlow : 0x80 ≤ low.toNat) (hhigh : high.toNat ≤ 0xBF) : ((if P then low else 0x80) ≤ b ∧ b ≤ (if Q then high else 0xBF)) ↔
      IsTail b ∧ (P → low.toNat ≤ b.toNat) ∧ (Q → b.toNat ≤ high.toNat) := by
  unfold IsTail
  simp only [UInt8.le_iff_toNat_le]
  by_cases hP : P <;> by_cases hQ : Q <;>
    simp only [hP, hQ, if_true, if_false, true_imp_iff, false_imp_iff, and_true, true_and, UInt8.reduceToNat] <;> omega

/-- **A sequence is read as its code point.** -/
theorem pieces_append_of_sequence {bs : Bytes} (h : Sequence bs) (rest : Bytes) :
    pieces (bs ++ rest) = .codePoint (.ofNat (number bs)) :: pieces rest := by
  cases h with
  | one first =>
    rw [pieces, List.singleton_append, piecesFrom, start_of_one first]
    rfl
  | two first second => exact pieces_of_completes (start_of_two first) (.last rfl (isTail_iff.1 second)) rest
  | three first second notOverlong notSurrogate third =>
    have hsecond := (second_range_iff 0xA0 0x9F (by decide) (by decide)).2 ⟨second, notOverlong, notSurrogate⟩
    exact pieces_of_completes (start_of_three first) (.more rfl hsecond (.last rfl (isTail_iff.1 third))) rest
  | four first second notOverlong notBeyond third fourth =>
    have hsecond := (second_range_iff 0x90 0x8F (by decide) (by decide)).2 ⟨second, notOverlong, notBeyond⟩
    exact pieces_of_completes (start_of_four first)
      (.more rfl hsecond (.more rfl (isTail_iff.1 third) (.last rfl (isTail_iff.1 fourth)))) rest

/-- A byte is a sequence, or ill-formed, or the bytes that complete what it begins make a sequence with it. -/
theorem start_cases (a : UInt8) :
    Sequence [a] ∨ start a = ([.illFormed 1 a .startByte], none) ∨
      ∃ p, start a = ([], some p) ∧ ∀ tail n, p.Completes tail n → Sequence (a :: tail) := by
  have hlt : a.toNat < 256 := a.toNat_lt
  by_cases h1 : a.toNat ≤ 0x7F
  · exact .inl (.one h1)
  by_cases h2 : 0xC2 ≤ a.toNat ∧ a.toNat ≤ 0xDF
  · refine .inr (.inr ⟨_, start_of_two h2, fun tail n h => ?_⟩)
    obtain ⟨-, range⟩ | ⟨⟨⟩⟩ := h
    exact .two h2 (isTail_iff.2 range)
  by_cases h3 : 0xE0 ≤ a.toNat ∧ a.toNat ≤ 0xEF
  · refine .inr (.inr ⟨_, start_of_three h3, fun tail n h => ?_⟩)
    obtain ⟨⟨⟩⟩ | ⟨⟨⟩, range, ⟨-, range'⟩ | ⟨⟨⟩⟩⟩ := h
    obtain ⟨hsecond, notOverlong, notSurrogate⟩ := (second_range_iff 0xA0 0x9F (by decide) (by decide)).1 range
    exact .three h3 hsecond notOverlong notSurrogate (isTail_iff.2 range')
  by_cases h4 : 0xF0 ≤ a.toNat ∧ a.toNat ≤ 0xF4
  · refine .inr (.inr ⟨_, start_of_four h4, fun tail n h => ?_⟩)
    obtain ⟨⟨⟩⟩ | ⟨⟨⟩, range, ⟨⟨⟩⟩ | ⟨⟨⟩, range', ⟨-, range''⟩ | ⟨⟨⟩⟩⟩⟩ := h
    obtain ⟨hsecond, notOverlong, notBeyond⟩ := (second_range_iff 0x90 0x8F (by decide) (by decide)).1 range
    exact .four h4 hsecond notOverlong notBeyond (isTail_iff.2 range') (isTail_iff.2 range'')
  · exact .inr (.inl (start_of_illFormed (by omega)))

/-- **The first piece** of bytes is the code point of a sequence, or it is ill-formed. -/
theorem exists_first_piece (a : UInt8) (bs : Bytes) :
    (∃ first rest, a :: bs = first ++ rest ∧ Sequence first) ∨
      ∃ length byte reason rest, rest.length ≤ bs.length ∧
        pieces (a :: bs) = .illFormed length byte reason :: pieces rest := by
  rcases start_cases a with hone | hill | ⟨p, hstart, hsequence⟩
  · exact .inl ⟨[a], bs, rfl, hone⟩
  · refine .inr ⟨1, a, .startByte, bs, Nat.le_refl _, ?_⟩
    rw [pieces, piecesFrom, hill]
    rfl
  · rcases piecesFrom_cases p bs with ⟨tail, rest, n, rfl, hcompletes⟩ | ⟨length, byte, reason, rest, hlength, hpieces⟩
    · exact .inl ⟨a :: tail, rest, rfl, hsequence tail n hcompletes⟩
    · refine .inr ⟨length, byte, reason, rest, hlength, ?_⟩
      rw [pieces, piecesFrom, hstart]
      exact hpieces

/-- The cases of reading: there are no bytes, or they begin with a sequence, or with what is ill-formed. -/
theorem pieces_induction {P : Bytes → Prop} (nil : P [])
    (sequence : ∀ first rest, Sequence first → P rest → P (first ++ rest))
    (illFormed : ∀ bs length byte reason rest, pieces bs = .illFormed length byte reason :: pieces rest → P rest → P bs)
    (bs : Bytes) : P bs := by
  match bs with
  | [] => exact nil
  | a :: bs =>
    rcases exists_first_piece a bs with ⟨first, rest, heq, hfirst⟩ | ⟨length, byte, reason, rest, hlength, hpieces⟩
    · rw [heq]
      have hshorter : rest.length < (a :: bs).length := by
        rw [heq, List.length_append]
        have hpos : 0 < first.length := by cases hfirst <;> simp
        omega
      exact sequence first rest hfirst (pieces_induction nil sequence illFormed rest)
    · have hshorter : rest.length < (a :: bs).length := Nat.lt_succ_of_le hlength
      exact illFormed _ length byte reason rest hpieces (pieces_induction nil sequence illFormed rest)
termination_by bs.length
decreasing_by all_goals exact hshorter

/-! ## texts and bytes -/

theorem decodeReplacing_append_of_sequence {bs : Bytes} (h : Sequence bs) (rest : Bytes) :
    decodeReplacing (bs ++ rest) = .ofNat (number bs) :: decodeReplacing rest := by
  rw [decodeReplacing, pieces_append_of_sequence h]
  rfl

/-- What is read has no surrogates, whatever the bytes are. -/
theorem surrogateFree_decodeReplacing (bs : Bytes) : (decodeReplacing bs).SurrogateFree := by
  induction bs using pieces_induction with
  | nil => exact nofun
  | sequence first rest hfirst ih =>
    rw [decodeReplacing_append_of_sequence hfirst]
    exact List.forall_mem_cons.2 ⟨hfirst.utf8_number.1, ih⟩
  | illFormed bs length byte reason rest hpieces ih =>
    rw [decodeReplacing, hpieces]
    exact List.forall_mem_cons.2 ⟨rfl, ih⟩

theorem utf8_cons (c : CodePoint) (t : Text) : Text.utf8 (c :: t) = c.utf8 ++ t.utf8 := List.flatMap_cons

/-- **The bytes of a text without surrogates are well-formed.** -/
theorem wellFormed_utf8 {t : Text} (h : t.SurrogateFree) : WellFormed t.utf8 := by
  induction t with
  | nil => exact .nil
  | cons c t ih =>
    obtain ⟨hc, ht⟩ := List.forall_mem_cons.1 h
    exact .append (sequence_utf8 hc) (ih ht)

/-- **Well-formed bytes are those that are the bytes of what is read from them.** -/
theorem utf8_decodeReplacing_iff (bs : Bytes) : (decodeReplacing bs).utf8 = bs ↔ WellFormed bs := by
  constructor
  · intro h
    rw [← h]
    exact wellFormed_utf8 (surrogateFree_decodeReplacing bs)
  · intro h
    induction h with
    | nil => rfl
    | append first _ ih => rw [decodeReplacing_append_of_sequence first, utf8_cons, first.utf8_number.2, ih]

/-- **A text without surrogates is read back.** -/
theorem decodeReplacing_utf8 {t : Text} (h : t.SurrogateFree) : decodeReplacing t.utf8 = t := by
  have hbytes := congrArg decodePassing ((utf8_decodeReplacing_iff _).2 (wellFormed_utf8 h))
  rw [decodePassing_text, decodePassing_text] at hbytes
  exact Option.some.inj hbytes

end Utf8

end UriTemplate
