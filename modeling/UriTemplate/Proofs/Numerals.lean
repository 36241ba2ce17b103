import UriTemplate.Number.Numeral

/-!
# Decimal numerals, there and back

* `digitsValue_ofNat` — the value of a number's numeral is the number;
* `ofNat_digitsValue_iff` — a run of digits is the numeral of its value exactly if it has no leading zero.
-/

namespace UriTemplate

namespace Text

theorem ofNat_of_lt {n : Nat} (h : n < 10) : ofNat n = [CodePoint.ofChar n.digitChar] := by
  rw [ofNat, Nat.toDigits_of_lt_base h]
  rfl

/-- One more digit behind a numeral. -/
theorem ofNat_append_digit {n d : Nat} (hn : 0 < n) (hd : d < 10) : ofNat (n * 10 + d) = ofNat n ++ ofNat d := by
  rw [ofNat, ofNat, ofNat, Nat.mul_comm, ← Nat.toDigits_append_toDigits (by decide) hn hd]
  exact List.map_append

theorem ofNat_ne_nil (n : Nat) : ofNat n ≠ [] := by simp [ofNat, ofChars]

theorem isDigit_of_mem_ofNat {n : Nat} {c : CodePoint} (h : c ∈ ofNat n) : c.isDigit := by
  obtain ⟨d, hd, rfl⟩ := List.mem_map.1 h
  have hdigit := Nat.isDigit_of_mem_toDigits (by decide) (by decide) hd
  simp only [Char.isDigit, Bool.and_eq_true, decide_eq_true_eq, ge_iff_le, UInt32.le_iff_toNat_le] at hdigit
  rw [CodePoint.isDigit, Bool.and_eq_true, decide_eq_true_eq, decide_eq_true_eq]
  exact hdigit

theorem length_ofNat_le_iff {n k : Nat} (hk : 0 < k) : (ofNat n).length ≤ k ↔ n < 10 ^ k := by
  rw [ofNat, ofChars, List.length_map]
  exact Nat.length_toDigits_le_iff (by decide) hk

theorem length_ofNat_le {n k : Nat} (hk : 0 < k) (h : n < 10 ^ k) : (ofNat n).length ≤ k :=
  (length_ofNat_le_iff hk).2 h

/-- A numeral in two parts: all digits but the last, and the last one. -/
theorem ofNat_of_ge {n : Nat} (h : 10 ≤ n) : ofNat n = ofNat (n / 10) ++ ofNat (n % 10) := by
  rw [← ofNat_append_digit (by omega) (Nat.mod_lt n (by decide)), Nat.mul_comm, Nat.div_add_mod]

/-- The numeral of a positive number has no leading zero. -/
theorem head?_ofNat {n : Nat} (h : 1 ≤ n) : (ofNat n).head? ≠ some '0' := by
  induction n using Nat.strongRecOn with
  | _ n ih =>
    by_cases hlt : n < 10
    · rw [ofNat_of_lt hlt, List.head?_cons]
      intro heq
      have hval := congrArg CodePoint.val (Option.some.inj heq)
      rw [CodePoint.ofChar_val, CodePoint.ofChar_val, Nat.toNat_digitChar_of_lt_ten hlt] at hval
      have : '0'.toNat = 48 := rfl
      omega
    · rw [ofNat_of_ge (Nat.not_lt.1 hlt), List.head?_append, Option.or_of_isSome
        (List.isSome_head?.2 (ofNat_ne_nil _))]
      exact ih (n / 10) (by omega) (by omega)

end Text

open Text

theorem digitsValue_append_singleton (ds : Text) (c : CodePoint) :
    digitsValue (ds ++ [c]) = digitsValue ds * 10 + (c.val - 0x30) := by
  simp [digitsValue, List.foldl_append]

/-- **The value of a number's numeral is the number.** -/
theorem digitsValue_ofNat (n : Nat) : digitsValue (ofNat n) = n := by
  induction n using Nat.strongRecOn with
  | _ n ih =>
    by_cases hlt : n < 10
    · rw [ofNat_of_lt hlt]
      simp [digitsValue, Nat.toNat_digitChar_of_lt_ten hlt]
    · have hmod : n % 10 < 10 := Nat.mod_lt n (by decide)
      rw [ofNat_of_ge (Nat.not_lt.1 hlt), ofNat_of_lt hmod, digitsValue_append_singleton, ih (n / 10) (by omega),
        CodePoint.ofChar_val, Nat.toNat_digitChar_of_lt_ten hmod]
      omega

theorem ofNat_digit {c : CodePoint} (hc : c.isDigit) : ofNat (c.val - 0x30) = [c] := by
  simp only [CodePoint.isDigit, Bool.and_eq_true, decide_eq_true_eq] at hc
  have hlt : c.val - 0x30 < 10 := by omega
  rw [ofNat_of_lt hlt]
  congr 1
  apply CodePoint.ext_val
  rw [CodePoint.ofChar_val, Nat.toNat_digitChar_of_lt_ten hlt]
  omega

/-- Digits behind a number that is not zero go behind its numeral. -/
theorem ofNat_foldl {ds : Text} (hds : ∀ c ∈ ds, c.isDigit) {n : Nat} (hn : 0 < n) :
    ofNat (ds.foldl (fun n c => n * 10 + (c.val - 0x30)) n) = ofNat n ++ ds := by
  induction ds generalizing n with
  | nil => simp
  | cons c ds ih =>
    have hc := hds c (by simp)
    have hlt : c.val - 0x30 < 10 := by
      simp only [CodePoint.isDigit, Bool.and_eq_true, decide_eq_true_eq] at hc
      omega
    rw [List.foldl_cons, ih (fun d hd => hds d (List.mem_cons_of_mem _ hd)) (by omega), ofNat_append_digit hn hlt,
      ofNat_digit hc, List.append_assoc, List.singleton_append]

/-- **A run of digits is the numeral of its value exactly if it has no leading zero.** -/
theorem ofNat_digitsValue_iff {ds : Text} (hds : ∀ c ∈ ds, c.isDigit) (hpos : 1 ≤ digitsValue ds) :
    ofNat (digitsValue ds) = ds ↔ ds.head? ≠ some '0' := by
  constructor
  · intro h
    rw [← h]
    exact head?_ofNat hpos
  · intro h
    cases ds with
    | nil => cases hpos
    | cons c ds =>
      have hc := hds c (by simp)
      have hne : c.val ≠ 0x30 := fun e => h (congrArg some (CodePoint.ext_val e))
      simp only [CodePoint.isDigit, Bool.and_eq_true, decide_eq_true_eq] at hc
      rw [digitsValue, List.foldl_cons, ofNat_foldl (fun d hd => hds d (List.mem_cons_of_mem _ hd)) (by omega),
        Nat.zero_mul, Nat.zero_add, ofNat_digit (hds c (by simp)), List.singleton_append]

end UriTemplate
