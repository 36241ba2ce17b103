import UriTemplate.PercentEncoding
import UriTemplate.Proofs.Grammar

/-!
# Decoding

* `percentDecode` — the bytes that a percent-encoded text stands for;
* `Utf8.decodePassing` — strict reading of UTF-8 in which surrogates are code points like others;
* `decodeText` — one after the other;
* `Policy.writes`, `writes_of_mem_encode` — the characters of an encoded text;
* `decodeText_encode` — decoding undoes encoding, up to surrogate pairs.
-/

namespace UriTemplate

/-! ## the decoders -/

/-- A percent sign and two hexadecimal digits stand for a byte, all other characters for their UTF-8 bytes. -/
def percentDecode : Text → Option Bytes
  | [] => some []
  | c :: t =>
    if c = '%' then
      match t with
      | a :: b :: t => do
        let high ← a.hexValue?
        let low ← b.hexValue?
        return .ofNat (high * 16 + low) :: (← percentDecode t)
      | _ => none
    else return c.utf8 ++ (← percentDecode t)

namespace Utf8

/-- The six bits of a continuation byte. -/
def continuation? (b : UInt8) : Option Nat := if 0x80 ≤ b.toNat && b.toNat < 0xC0 then some (b.toNat - 0x80) else none

/-- A code point from `least` on. -/
def codePoint? (least n : Nat) : Option CodePoint := if h : least ≤ n ∧ n < 0x110000 then some ⟨n, h.2⟩ else none

/-- The text that is written with these bytes.  Overlong forms and numbers beyond U+10FFFF are faults, surrogates are
not. -/
def decodePassing : Bytes → Option Text
  | [] => some []
  | a :: bs =>
    if a.toNat < 0x80 then return .ofNat a.toNat :: (← decodePassing bs)
    else if a.toNat < 0xC0 then none
    else if a.toNat < 0xE0 then
      match bs with
      | b :: bs => do
        let n := (a.toNat - 0xC0) * 64 + (← continuation? b)
        return (← codePoint? 0x80 n) :: (← decodePassing bs)
      | _ => none
    else if a.toNat < 0xF0 then
      match bs with
      | b :: c :: bs => do
        let n := ((a.toNat - 0xE0) * 64 + (← continuation? b)) * 64 + (← continuation? c)
        return (← codePoint? 0x800 n) :: (← decodePassing bs)
      | _ => none
    else
      match bs with
      | b :: c :: d :: bs => do
        let n := (((a.toNat - 0xF0) * 64 + (← continuation? b)) * 64 + (← continuation? c)) * 64 + (← continuation? d)
        return (← codePoint? 0x10000 n) :: (← decodePassing bs)
      | _ => none

end Utf8

/-- The text that is percent-encoded in a text, if it is in UTF-8. -/
def decodeText (t : Text) : Option Text := percentDecode t >>= Utf8.decodePassing

/-! ## UTF-8 -/

namespace Utf8

theorem toNat_ofNat_of_lt {n : Nat} (h : n < 256) : (UInt8.ofNat n).toNat = n := by
  rw [UInt8.toNat_ofNat', Nat.mod_eq_of_lt h]

theorem continuation?_ofNat (n : Nat) : continuation? (.ofNat (0x80 + n % 64)) = some (n % 64) := by
  have hlt : n % 64 < 64 := Nat.mod_lt n (by decide)
  rw [continuation?, toNat_ofNat_of_lt (by omega), if_pos (by simp; omega), Nat.add_sub_cancel_left]

theorem codePoint?_val {least : Nat} {c : CodePoint} (h : least ≤ c.val) {n : Nat} (hn : n = c.val) :
    codePoint? least n = some c := by
  subst hn
  rw [codePoint?, dif_pos ⟨h, c.isLt⟩]

theorem decodePassing_one {a : UInt8} (ha : a.toNat < 0x80) (bs : Bytes) :
    decodePassing (a :: bs) = (CodePoint.ofNat a.toNat :: ·) <$> decodePassing bs := by
  rw [decodePassing.eq_def (a :: bs)]
  simp only [if_pos ha]
  cases decodePassing bs <;> rfl

theorem decodePassing_two {a b : UInt8} (ha : 0xC0 ≤ a.toNat) (ha' : a.toNat < 0xE0) {k : Nat}
    (hb : continuation? b = some k) {x : CodePoint} (hx : codePoint? 0x80 ((a.toNat - 0xC0) * 64 + k) = some x)
    (bs : Bytes) : decodePassing (a :: b :: bs) = (x :: ·) <$> decodePassing bs := by
  rw [decodePassing.eq_def (a :: b :: bs)]
  simp only [if_neg (show ¬ a.toNat < 0x80 by omega), if_neg (show ¬ a.toNat < 0xC0 by omega), if_pos ha', hb,
    Option.bind_eq_bind, Option.bind_some, hx]
  cases decodePassing bs <;> rfl

theorem decodePassing_three {a b c : UInt8} (ha : 0xE0 ≤ a.toNat) (ha' : a.toNat < 0xF0) {k l : Nat}
    (hb : continuation? b = some k) (hc : continuation? c = some l) {x : CodePoint}
    (hx : codePoint? 0x800 (((a.toNat - 0xE0) * 64 + k) * 64 + l) = some x) (bs : Bytes) :
    decodePassing (a :: b :: c :: bs) = (x :: ·) <$> decodePassing bs := by
  rw [decodePassing.eq_def (a :: b :: c :: bs)]
  simp only [if_neg (show ¬ a.toNat < 0x80 by omega), if_neg (show ¬ a.toNat < 0xC0 by omega),
    if_neg (show ¬ a.toNat < 0xE0 by omega), if_pos ha', hb, hc, Option.bind_eq_bind, Option.bind_some, hx]
  cases decodePassing bs <;> rfl

theorem decodePassing_four {a b c d : UInt8} (ha : 0xF0 ≤ a.toNat) {k l m : Nat} (hb : continuation? b = some k)
    (hc : continuation? c = some l) (hd : continuation? d = some m) {x : CodePoint}
    (hx : codePoint? 0x10000 ((((a.toNat - 0xF0) * 64 + k) * 64 + l) * 64 + m) = some x) (bs : Bytes) :
    decodePassing (a :: b :: c :: d :: bs) = (x :: ·) <$> decodePassing bs := by
  rw [decodePassing.eq_def (a :: b :: c :: d :: bs)]
  simp only [if_neg (show ¬ a.toNat < 0x80 by omega), if_neg (show ¬ a.toNat < 0xC0 by omega),
    if_neg (show ¬ a.toNat < 0xE0 by omega), if_neg (show ¬ a.toNat < 0xF0 by omega), hb, hc, hd, Option.bind_eq_bind,
    Option.bind_some, hx]
  cases decodePassing bs <;> rfl

/-- **The bytes of a code point are read as this code point.** -/
theorem decodePassing_utf8 (c : CodePoint) (bs : Bytes) :
    decodePassing (c.utf8 ++ bs) = (c :: ·) <$> decodePassing bs := by
  have hlt := c.isLt
  have hzero : c.val / 64 ^ 0 = c.val := by simp
  have hone : c.val / 64 ^ 1 = c.val / 64 := by simp
  unfold CodePoint.utf8
  simp only [hzero, hone]
  split
  · have ha : (UInt8.ofNat c.val).toNat = c.val := toNat_ofNat_of_lt (by omega)
    have hc : CodePoint.ofNat c.val = c := by rw [CodePoint.ofNat, dif_pos hlt]
    rw [List.singleton_append, decodePassing_one (by omega), ha, hc]
  split
  · have ha : (UInt8.ofNat (0xC0 + c.val / 64)).toNat = 0xC0 + c.val / 64 := toNat_ofNat_of_lt (by omega)
    exact decodePassing_two (by omega) (by omega) (continuation?_ofNat _)
      (codePoint?_val (by omega) (by rw [ha]; omega)) bs
  split
  · have ha : (UInt8.ofNat (0xE0 + c.val / 64 ^ 2)).toNat = 0xE0 + c.val / 64 ^ 2 := toNat_ofNat_of_lt (by omega)
    exact decodePassing_three (by omega) (by omega) (continuation?_ofNat _) (continuation?_ofNat _)
      (codePoint?_val (by omega) (by rw [ha]; omega)) bs
  · have ha : (UInt8.ofNat (0xF0 + c.val / 64 ^ 3)).toNat = 0xF0 + c.val / 64 ^ 3 := toNat_ofNat_of_lt (by omega)
    exact decodePassing_four (by omega) (continuation?_ofNat _) (continuation?_ofNat _) (continuation?_ofNat _)
      (codePoint?_val (by omega) (by rw [ha]; omega)) bs

theorem decodePassing_text (t : Text) : decodePassing t.utf8 = some t := by
  induction t with
  | nil => rfl
  | cons c t ih =>
    rw [Text.utf8, List.flatMap_cons, decodePassing_utf8]
    exact congrArg ((c :: ·) <$> ·) ih

end Utf8

/-! ## percent triplets -/

theorem hexValue?_hexDigit : ∀ n < 16, (hexDigit n).hexValue? = some n := by decide

theorem percentDecode_triplet (b : UInt8) (t : Text) :
    percentDecode (triplet b ++ t) = (b :: ·) <$> percentDecode t := by
  have hb : b.toNat < 256 := b.toNat_lt
  have hbyte : UInt8.ofNat (b.toNat / 16 * 16 + b.toNat % 16) = b := by
    rw [Nat.div_add_mod', UInt8.ofNat_toNat]
  rw [triplet, List.cons_append, List.cons_append, List.cons_append, List.nil_append, percentDecode.eq_def]
  simp only [if_true, hexValue?_hexDigit _ (show b.toNat / 16 < 16 by omega),
    hexValue?_hexDigit _ (show b.toNat % 16 < 16 by omega), Option.bind_eq_bind, Option.bind_some, hbyte]
  cases percentDecode t <;> rfl

theorem percentDecode_triplets (bs : Bytes) (t : Text) :
    percentDecode (bs.flatMap triplet ++ t) = (bs ++ ·) <$> percentDecode t := by
  induction bs with
  | nil =>
    rw [List.flatMap_nil, List.nil_append]
    cases percentDecode t <;> rfl
  | cons b bs ih =>
    rw [List.flatMap_cons, List.append_assoc, percentDecode_triplet, ih]
    cases percentDecode t <;> rfl

theorem percentDecode_of_ne {c : CodePoint} (h : c ≠ '%') (t : Text) :
    percentDecode (c :: t) = (c.utf8 ++ ·) <$> percentDecode t := by
  rw [percentDecode.eq_def (c :: t)]
  simp only [if_neg h]
  cases percentDecode t <;> rfl

/-- **Percent-decoding undoes the encoding of code points**, also of two that would make a pair. -/
theorem percentDecode_flatMap (policy : Policy) (cs : Text) :
    percentDecode (cs.flatMap fun c => if policy.keeps c then [c] else c.triplets) = some cs.utf8 := by
  induction cs with
  | nil => rfl
  | cons c t ih =>
    have htail : ∀ bs : Bytes, (bs ++ ·) <$> some (Text.utf8 t) = some (bs ++ Text.utf8 t) := fun bs => rfl
    rw [List.flatMap_cons]
    cases hc : policy.keeps c with
    | true =>
      have hne : c ≠ '%' := by
        rintro rfl
        cases policy <;> exact absurd hc (by decide)
      rw [if_pos rfl, List.singleton_append, percentDecode_of_ne hne, ih, htail]
      rfl
    | false =>
      rw [if_neg (by decide), CodePoint.triplets, percentDecode_triplets, ih, htail]
      rfl

/-- **Percent-decoding undoes encoding.** -/
theorem percentDecode_encode (policy : Policy) (t : Text) :
    percentDecode (encode policy t) = some t.joinPairs.utf8 :=
  percentDecode_flatMap policy t.joinPairs

/-- **Decoding undoes encoding**, up to surrogate pairs. -/
theorem decodeText_encode (policy : Policy) (t : Text) : decodeText (encode policy t) = some t.joinPairs := by
  rw [decodeText, percentDecode_encode]
  exact Utf8.decodePassing_text _

/-- Encoded texts one behind the other are decoded one by one. -/
theorem decodeText_encode_append (policy : Policy) (t u : Text) :
    decodeText (encode policy t ++ encode policy u) = some (t.joinPairs ++ u.joinPairs) := by
  rw [encode, encode, ← List.flatMap_append, decodeText, percentDecode_flatMap]
  exact Utf8.decodePassing_text _

/-! ## the characters of an encoded text -/

/-- The characters that an encoded text is made of: those that are kept, the percent sign and the hexadecimal digits
behind it. -/
def Policy.writes (policy : Policy) (c : CodePoint) : Bool := policy.keeps c || c.isAny ['%']

theorem Policy.writes_hexDigit (policy : Policy) : ∀ n < 16, policy.writes (hexDigit n) = true := by
  cases policy <;> decide

theorem writes_of_mem_encode {policy : Policy} {t : Text} {c : CodePoint} (h : c ∈ encode policy t) :
    policy.writes c = true := by
  obtain ⟨d, -, hd⟩ := List.mem_flatMap.1 h
  split at hd
  · next hk =>
    obtain rfl := List.mem_singleton.1 hd
    rw [Policy.writes, hk, Bool.true_or]
  · obtain ⟨b, -, hb⟩ := List.mem_flatMap.1 hd
    have hlt : b.toNat < 256 := b.toNat_lt
    simp only [triplet, List.mem_cons, List.not_mem_nil, or_false] at hb
    rcases hb with rfl | rfl | rfl
    · cases policy <;> decide
    · exact policy.writes_hexDigit _ (by omega)
    · exact policy.writes_hexDigit _ (by omega)

end UriTemplate
