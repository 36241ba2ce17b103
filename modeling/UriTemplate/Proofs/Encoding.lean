import UriTemplate.Proofs.Decoding
import UriTemplate.Proofs.Splitting

/-!
# Encoded texts

What encoded texts are made of, and that they tell apart all texts but those that differ in surrogate pairs.

* `Policy.Covers` — the characters that a policy covers, said without its test;
* `EncodedText` — texts of covered characters and of triplets in upper case; `encode_encodedText` — encoded texts are;
* `encode_eq_flatMap`, `encode_singleton_eq_self_iff` — code points are encoded one by one, and the covered ones are left;
* `encode_lossless` — all of it, with the round trip of `decodeText_encode` and what follows from it.
-/

namespace UriTemplate

/-! ## the alphabet -/

/-- A decimal digit or one of the letters from `A` to `F`. -/
def CodePoint.isUpperHexDigit (c : CodePoint) : Bool := c.isDigit || (0x41 ≤ c.val && c.val ≤ 0x46)

/-- Unreserved characters are covered by both policies, reserved ones by one of them. -/
def Policy.Covers (policy : Policy) (c : CodePoint) : Prop :=
  c.isUnreserved = true ∨ policy = .reserved ∧ c.isReserved = true

theorem Policy.keeps_iff {policy : Policy} {c : CodePoint} : policy.keeps c = true ↔ policy.Covers c := by
  cases policy <;> simp [keeps, Covers]

/-- Covered characters, and percent signs with two upper-case hexadecimal digits behind each. -/
inductive EncodedText (policy : Policy) : Text → Prop
  | nil : EncodedText policy []
  | char {c : CodePoint} (covered : policy.Covers c) {t : Text} (rest : EncodedText policy t) :
    EncodedText policy (c :: t)
  | triplet {a b : CodePoint} (first : a.isUpperHexDigit) (second : b.isUpperHexDigit) {t : Text}
    (rest : EncodedText policy t) : EncodedText policy ('%' :: a :: b :: t)

namespace EncodedText

variable {policy : Policy}

theorem append {t u : Text} (ht : EncodedText policy t) (hu : EncodedText policy u) : EncodedText policy (t ++ u) := by
  induction ht with
  | nil => exact hu
  | char covered _ ih => exact .char covered ih
  | triplet first second _ ih => exact .triplet first second ih

theorem flatMap {α : Type} {f : α → Text} (h : ∀ a, EncodedText policy (f a)) (as : List α) :
    EncodedText policy (as.flatMap f) := by
  induction as with
  | nil => exact .nil
  | cons a as ih =>
    rw [List.flatMap_cons]
    exact (h a).append ih

end EncodedText

theorem isUpperHexDigit_hexDigit : ∀ n < 16, (hexDigit n).isUpperHexDigit = true := by decide

theorem triplet_encodedText (policy : Policy) (b : UInt8) : EncodedText policy (triplet b) := by
  have hb : b.toNat < 256 := b.toNat_lt
  exact .triplet (isUpperHexDigit_hexDigit _ (by omega)) (isUpperHexDigit_hexDigit _ (by omega)) .nil

/-- **Encoded texts are made of covered characters and triplets.** -/
theorem encode_encodedText (policy : Policy) (t : Text) : EncodedText policy (encode policy t) := by
  refine EncodedText.flatMap (fun c => ?_) _
  split
  · next hk => exact .char (Policy.keeps_iff.1 hk) .nil
  · exact EncodedText.flatMap (triplet_encodedText policy) _

/-! ## single code points -/

/-- A single code point is no pair. -/
theorem encode_singleton (policy : Policy) (c : CodePoint) :
    encode policy [c] = if policy.keeps c then [c] else c.triplets := List.append_nil _

theorem encode_eq_flatMap (policy : Policy) (t : Text) :
    encode policy t = t.joinPairs.flatMap fun c => encode policy [c] := by
  simp only [encode_singleton]
  rfl

theorem CodePoint.utf8_ne_nil (c : CodePoint) : c.utf8 ≠ [] := by
  unfold utf8
  simp only
  split
  · simp
  split
  · simp
  split <;> simp

/-- There are three characters or more for every byte. -/
theorem CodePoint.triplets_ne_singleton (c d : CodePoint) : c.triplets ≠ [d] := by
  obtain ⟨b, bs, h⟩ := List.exists_cons_of_ne_nil c.utf8_ne_nil
  rw [triplets, h]
  simp [triplet]

/-- **A code point is left as it is exactly if the policy covers it.** -/
theorem encode_singleton_eq_self_iff (policy : Policy) (c : CodePoint) :
    encode policy [c] = [c] ↔ policy.Covers c := by
  rw [encode_singleton, ← Policy.keeps_iff]
  split
  · next hk => simp [hk]
  · next hk => simp [hk, c.triplets_ne_singleton]

/-! ## characters that stand for themselves -/

theorem CodePoint.mem_triplets {c d : CodePoint} (h : d ∈ c.triplets) : d = '%' ∨ d.isUpperHexDigit = true := by
  obtain ⟨b, -, hd⟩ := List.mem_flatMap.1 h
  have hb : b.toNat < 256 := b.toNat_lt
  simp only [triplet, List.mem_cons, List.not_mem_nil, or_false] at hd
  rcases hd with rfl | rfl | rfl
  · exact .inl rfl
  · exact .inr (isUpperHexDigit_hexDigit _ (by omega))
  · exact .inr (isUpperHexDigit_hexDigit _ (by omega))

/-- A code point below the surrogates is no part of a pair, and no pair stands for it. -/
theorem Text.joinPairs_eq_append_cons {c : CodePoint} (hc : c.val < 0xD800) {t u v : Text}
    (h : t.joinPairs = u ++ c :: v) :
    ∃ t₁ t₂ : Text, t = t₁ ++ c :: t₂ ∧ t₁.joinPairs = u ∧ t₂.joinPairs = v := by
  -- the cases are those of `joinPairs`
  match t with
  | high :: low :: t =>
    by_cases hpair : (high.isHigh && low.isLow) = true
    · rw [joinPairs, if_pos hpair] at h
      cases u with
      | nil =>
        obtain ⟨rfl, -⟩ := List.cons.inj h
        simp only [CodePoint.isHigh, CodePoint.isLow, Bool.and_eq_true, decide_eq_true_eq] at hpair
        rw [CodePoint.ofPair, CodePoint.ofNat, dif_pos (by omega)] at hc
        simp only at hc
        omega
      | cons d u =>
        obtain ⟨rfl, hrest⟩ := List.cons.inj h
        obtain ⟨t₁, t₂, rfl, rfl, rfl⟩ := joinPairs_eq_append_cons hc hrest
        exact ⟨high :: low :: t₁, t₂, rfl, by rw [joinPairs, if_pos hpair], rfl⟩
    · rw [joinPairs, if_neg hpair] at h
      cases u with
      | nil =>
        obtain ⟨rfl, rfl⟩ := List.cons.inj h
        exact ⟨[], low :: t, rfl, rfl, rfl⟩
      | cons d u =>
        obtain ⟨rfl, hrest⟩ := List.cons.inj h
        obtain ⟨t₁, t₂, heq, rfl, rfl⟩ := joinPairs_eq_append_cons hc hrest
        refine ⟨high :: t₁, t₂, by rw [heq, List.cons_append], ?_, rfl⟩
        cases t₁ with
        | nil => rfl
        | cons e t₁ =>
          obtain ⟨rfl, -⟩ := List.cons.inj heq
          rw [joinPairs, if_neg hpair]
  | [d] =>
    -- there is nothing before `c` and nothing behind it
    obtain ⟨rfl, hcons⟩ | ⟨u', rfl, hnil⟩ := List.cons_eq_append_iff.1 h
    · obtain ⟨rfl, rfl⟩ := List.cons.inj hcons
      exact ⟨[], [], rfl, rfl, rfl⟩
    · exact absurd hnil.symm (List.append_ne_nil_of_right_ne_nil u' (List.cons_ne_nil c v))
  | [] => exact absurd h.symm (List.append_ne_nil_of_right_ne_nil u (List.cons_ne_nil c v))
termination_by t.length

/-- **A character that no triplet has in it stands for itself** wherever it stands in an encoded text. -/
theorem encode_eq_append_cons {policy : Policy} {c : CodePoint} (hc : c.val < 0xD800) (hpercent : c ≠ '%')
    (hhex : c.isUpperHexDigit = false) {t u v : Text} (h : encode policy t = u ++ c :: v) :
    ∃ t₁ t₂, t = t₁ ++ c :: t₂ ∧ u = encode policy t₁ ∧ v = encode policy t₂ := by
  obtain ⟨before, d, behind, u', v', hjoin, hd, rfl, rfl⟩ := Text.flatMap_eq_append_cons h
  have hself : d = c ∧ u' = [] ∧ v' = [] := by
    split at hd
    · cases u' with
      | nil =>
        obtain ⟨rfl, rfl⟩ := List.cons.inj hd
        exact ⟨rfl, rfl, rfl⟩
      | cons e u' => simp at hd
    · have hmem : c ∈ d.triplets := by simp [hd]
      rcases CodePoint.mem_triplets hmem with h | h
      · exact absurd h hpercent
      · rw [hhex] at h
        cases h
  obtain ⟨rfl, rfl, rfl⟩ := hself
  obtain ⟨t₁, t₂, rfl, rfl, rfl⟩ := Text.joinPairs_eq_append_cons hc hjoin
  exact ⟨t₁, t₂, rfl, List.append_nil _, rfl⟩

/-! ## what is lost -/

/-- **Nothing but the difference between a surrogate pair and its code point is lost.** -/
theorem encode_eq_encode_iff {policy : Policy} {t u : Text} :
    encode policy t = encode policy u ↔ t.joinPairs = u.joinPairs := by
  constructor
  · intro h
    have hdecode := congrArg decodeText h
    rwa [decodeText_encode, decodeText_encode, Option.some.injEq] at hdecode
  · intro h
    rw [encode, encode, h]

/-- **An encoded text is a spelling of the text with its pairs joined.**  It is made of covered characters and triplets,
and the code points are encoded one by one, those that the policy covers by themselves.  The bytes that it stands for are
the text in UTF-8; so two texts are encoded alike exactly if they are the same when their pairs are joined. -/
theorem encode_lossless (policy : Policy) (t : Text) :
    EncodedText policy (encode policy t) ∧
      (encode policy t = t.joinPairs.flatMap fun c => encode policy [c]) ∧
      (∀ c, encode policy [c] = [c] ↔ policy.Covers c) ∧
      (∃ bytes, percentDecode (encode policy t) = some bytes ∧ Utf8.decodePassing bytes = some t.joinPairs) ∧
      ∀ u, encode policy t = encode policy u ↔ t.joinPairs = u.joinPairs :=
  ⟨encode_encodedText policy t, encode_eq_flatMap policy t, encode_singleton_eq_self_iff policy,
    ⟨_, percentDecode_encode policy t, Utf8.decodePassing_text _⟩, fun _ => encode_eq_encode_iff⟩

end UriTemplate
