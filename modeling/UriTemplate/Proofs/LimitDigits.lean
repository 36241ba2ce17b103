import Mathlib.Data.List.Basic
import UriTemplate.Proofs.Faults

/-!
# The digits of a limit

A character limit is a number from one to 9999, however many zeros stand in front of it.

* `significant` — the digits of a numeral without the zeros in front of them; `digitsValue_significant`,
  `length_significant_le_iff` — they denote the same number, and there are as many of them as it has;
* `unusableLimit_iff` — digits that make no limit have no significant one, or more than four;
* `Derivation.limits_elementsFrom` — the limits of references are those of the source;
* `limit_digits_up_to_zeros` — a limit is written with one to four digits behind any number of zeros.
-/

namespace UriTemplate

open Text

/-! ## significant digits -/

/-- Digits without the zeros in front of them. -/
def significant (digits : Text) : Text := digits.dropWhile fun c => c = '0'

theorem significant_zero_cons (digits : Text) : significant (('0' : CodePoint) :: digits) = significant digits :=
  List.dropWhile_cons_of_pos (by decide)

theorem significant_cons {c : CodePoint} (h : c ≠ '0') (digits : Text) : significant (c :: digits) = c :: digits :=
  List.dropWhile_cons_of_neg (by simpa using h)

theorem exists_zeros (digits : Text) :
    ∃ zeros, digits = List.replicate zeros ('0' : CodePoint) ++ significant digits := by
  induction digits with
  | nil => exact ⟨0, rfl⟩
  | cons c digits ih =>
    by_cases h : c = '0'
    · obtain ⟨zeros, hzeros⟩ := ih
      refine ⟨zeros + 1, ?_⟩
      rw [h, significant_zero_cons, List.replicate_succ, List.cons_append, ← hzeros]
    · exact ⟨0, (significant_cons h digits).symm⟩

theorem head?_significant (digits : Text) : (significant digits).head? ≠ some ('0' : CodePoint) := by
  induction digits with
  | nil => exact (Option.some_ne_none _).symm
  | cons c digits ih =>
    by_cases h : c = '0'
    · rwa [h, significant_zero_cons]
    · rw [significant_cons h]
      exact fun heq => h (Option.some.inj heq)

theorem digitsValue_significant (digits : Text) : digitsValue (significant digits) = digitsValue digits := by
  induction digits with
  | nil => rfl
  | cons c digits ih =>
    by_cases h : c = '0'
    · rw [h, significant_zero_cons, ih]
      rfl
    · rw [significant_cons h]

theorem le_foldl_digits (digits : Text) (n : Nat) : n ≤ digits.foldl (fun n c => n * 10 + (c.val - 0x30)) n := by
  induction digits generalizing n with
  | nil => exact Nat.le_refl n
  | cons c digits ih =>
    have hstep : n ≤ n * 10 + (c.val - 0x30) := by omega
    exact Nat.le_trans hstep (ih _)

section

variable {digits : Text} (hdigits : ∀ c ∈ digits, c.isDigit)
include hdigits

theorem isDigit_of_mem_significant {c : CodePoint} (h : c ∈ significant digits) : c.isDigit :=
  hdigits c ((List.dropWhile_sublist _).subset h)

/-- Only zeros denote zero. -/
theorem significant_eq_nil_iff : significant digits = [] ↔ digitsValue digits = 0 := by
  rw [← digitsValue_significant digits]
  constructor
  · intro h
    rw [h]
    rfl
  · intro h
    cases hsig : significant digits with
    | nil => rfl
    | cons c ds =>
      have hc := isDigit_of_mem_significant hdigits (c := c) (by simp [hsig])
      have hzero : c.val ≠ 0x30 := by
        intro hval
        have hhead := head?_significant digits
        rw [hsig] at hhead
        exact hhead (congrArg some (CodePoint.ext_val hval))
      simp only [CodePoint.isDigit, Bool.and_eq_true, decide_eq_true_eq] at hc
      have hle := le_foldl_digits ds (0 * 10 + (c.val - 0x30))
      rw [hsig, digitsValue, List.foldl_cons] at h
      omega

/-- **The significant digits are the numeral of the number**, unless it is zero. -/
theorem significant_eq_ofNat (hpos : 1 ≤ digitsValue digits) : significant digits = ofNat (digitsValue digits) := by
  rw [← digitsValue_significant] at hpos ⊢
  have hsig : ∀ c ∈ significant digits, c.isDigit := fun c hc => isDigit_of_mem_significant hdigits hc
  exact ((ofNat_digitsValue_iff hsig hpos).2 (head?_significant digits)).symm

theorem length_significant_le_iff {k : Nat} (hk : 0 < k) :
    (significant digits).length ≤ k ↔ digitsValue digits < 10 ^ k := by
  by_cases h : digitsValue digits = 0
  · rw [(significant_eq_nil_iff hdigits).2 h, h]
    exact iff_of_true (Nat.zero_le k) (Nat.pow_pos (by decide))
  · rw [significant_eq_ofNat hdigits (Nat.pos_iff_ne_zero.2 h), length_ofNat_le_iff hk]

/-- **Digits make a limit if one to four of them are significant.** -/
theorem unusableLimit_iff :
    UnusableLimit digits ↔ ¬ (1 ≤ (significant digits).length ∧ (significant digits).length ≤ 4) := by
  have hnil := significant_eq_nil_iff hdigits
  have hlength := length_significant_le_iff hdigits (by decide : 0 < 4)
  constructor
  · rintro (rfl | hzero | hhigh) ⟨hone, hfour⟩
    · cases hone
    · rw [hnil.2 hzero] at hone
      cases hone
    · have := hlength.1 hfour
      omega
  · intro h
    by_cases hzero : digitsValue digits = 0
    · exact .inr (.inl hzero)
    · refine .inr (.inr (Nat.lt_of_not_le fun hle => h ⟨?_, ?_⟩))
      · exact List.length_pos_iff.2 (mt hnil.1 hzero)
      · exact hlength.2 (by omega)

end

theorem Limit.significant_digits (l : Limit) :
    1 ≤ (significant l.digits).length ∧ (significant l.digits).length ≤ 4 := by
  have husable : ¬ UnusableLimit l.digits := by
    have hpos := l.value_pos
    have hle := l.value_le
    rintro (hnil | hzero | hhigh)
    · exact List.ne_nil_of_length_pos l.length_pos hnil
    · omega
    · omega
  rwa [unusableLimit_iff l.isDigit, not_not] at husable

/-! ## limits in the source -/

theorem VariableSpec.limit_reference (v : VariableSpec) :
    v.reference.limit.toList = v.modifier.limits.map fun l => (digitsValue l.digits : Int) := by
  obtain ⟨n, m⟩ := v
  cases m <;> rfl

/-- **The limits of references are those of the source**, in order. -/
theorem Derivation.limits_elementsFrom (d : Derivation) (start : Nat) :
    ((d.elementsFrom start).flatMap Element.references).filterMap (·.limit) =
      d.limits.map fun l => (digitsValue l.digits : Int) := by
  have hitem : ∀ i : Item, i.specs.flatMap (fun v => v.reference.limit.toList) =
      i.limits.map fun l => (digitsValue l.digits : Int) := by
    intro i
    cases i with
    | char => rfl
    | triplet => rfl
    | expression e =>
      rw [Item.limits, List.map_flatMap]
      exact List.flatMap_congr fun v _ => v.limit_reference
  calc ((d.elementsFrom start).flatMap Element.references).filterMap (·.limit)
    _ = d.flatMap fun i => i.specs.flatMap fun v => v.reference.limit.toList := by
      rw [d.references_elementsFrom, List.filterMap_eq_flatMap_toList, List.flatMap_map, List.flatMap_assoc]
    _ = d.limits.map fun l => (digitsValue l.digits : Int) := by
      simp only [hitem, limits, List.map_flatMap]

/-! ## where a limit is read -/

theorem takeWhile_isDigit {digits rest : Text} (hdigits : ∀ c ∈ digits, c.isDigit)
    (hrest : ∀ c ∈ rest.head?, c.isDigit = false) : (digits ++ rest).takeWhile CodePoint.isDigit = digits := by
  rw [List.takeWhile_append_of_pos hdigits]
  cases rest with
  | nil => rw [List.takeWhile_nil, List.append_nil]
  | cons c rest => rw [List.takeWhile_cons_of_neg (by simp [hrest c rfl]), List.append_nil]

/-- A fault in a limit, at its first digit, lies in the digits. -/
theorem FaultAt.unusableLimit {k : ParseErrorKind} {before behind : Text} (h : FaultAt k before behind)
    (hkind : k = .illegalCharacterLimit) (hcolon : before.getLast? = some (':' : CodePoint)) {digits rest : Text}
    (hbehind : behind = digits ++ rest) (hdigits : ∀ c ∈ digits, c.isDigit)
    (hrest : ∀ c ∈ rest.head?, c.isDigit = false) : UnusableLimit digits := by
  cases h with
  | limit o n hdigits' hrest' hunusable =>
    have htake := congrArg (List.takeWhile CodePoint.isDigit) hbehind
    rw [takeWhile_isDigit hdigits' hrest', takeWhile_isDigit hdigits hrest] at htake
    rwa [← htake]
  | behindLimit o n l =>
    -- what stands before it ends in a digit, and not in the colon
    obtain ⟨ds, c, hds⟩ := (List.eq_nil_or_concat l.digits).resolve_left (List.ne_nil_of_length_pos l.length_pos)
    have hc := l.isDigit c (by simp [hds])
    have hends : o.text ++ (n.text ++ (':' : CodePoint) :: l.digits) =
        o.text ++ (n.text ++ (':' : CodePoint) :: ds) ++ [c] := by simp [hds]
    rw [hends, List.getLast?_concat] at hcolon
    obtain rfl := Option.some.inj hcolon
    exact absurd hc (by decide)
  | _ => cases hkind

section

variable (o : Opening) (n : Name) {digits rest : Text} (hdigits : ∀ c ∈ digits, c.isDigit)
  (hrest : ∀ c ∈ rest.head?, c.isDigit = false)
include hdigits hrest

/-- **Digits are reported, at the first of them, exactly if they make no limit.** -/
theorem parse_limit_error_iff :
    (∃ e, Template.parse (o.text ++ (n.text ++ (':' : CodePoint) :: (digits ++ rest))) = .error (.malformed e) ∧
      e.kind = .illegalCharacterLimit ∧ e.offset = some (o.text ++ (n.text ++ [(':' : CodePoint)])).length) ↔
    digits.length ≤ 4300 ∧ UnusableLimit digits := by
  constructor
  · rintro ⟨e, hparse, hkind, hoffset⟩
    constructor
    · refine Nat.le_of_not_lt fun hlong => ?_
      rw [parse_limit_error o n hdigits hrest (readLimit_long hlong _)] at hparse
      cases hparse
    · obtain ⟨before, behind, hsource, hlength, hfault⟩ := ParseFailure.explains_of_parse hparse
      have hsplit : o.text ++ (n.text ++ (':' : CodePoint) :: (digits ++ rest)) =
          o.text ++ (n.text ++ [(':' : CodePoint)]) ++ (digits ++ rest) := by simp
      rw [hoffset, Option.getD_some] at hlength
      rw [hsplit] at hsource
      obtain ⟨rfl, rfl⟩ := List.append_inj hsource hlength.symm
      exact hfault.unusableLimit hkind (by simp) rfl hdigits hrest
  · rintro ⟨hshort, hunusable⟩
    cases hread : readLimit digits (o.text ++ (n.text ++ [(':' : CodePoint)])).length with
    | error f =>
      rcases readLimit_error hread with ⟨-, hlong⟩ | ⟨e, rfl, hkind, hoffset, -⟩
      · exact absurd hlong (Nat.not_lt.2 hshort)
      · exact ⟨e, parse_limit_error o n hdigits hrest hread, hkind, hoffset⟩
    | ok k =>
      obtain ⟨l, rfl⟩ := exists_limit hdigits hread
      exact absurd l.significant_digits ((unusableLimit_iff hdigits).1 hunusable)

theorem parse_limit_tooLong_iff :
    Template.parse (o.text ++ (n.text ++ (':' : CodePoint) :: (digits ++ rest))) = .error (.numeralTooLong digits.length) ↔
      4300 < digits.length := by
  constructor
  · intro h
    obtain ⟨-, -, -, -, -, -, -, -, hlong⟩ := (parse_eq_numeralTooLong_iff _ _).1 h
    exact hlong
  · exact fun hlong => parse_limit_error o n hdigits hrest (readLimit_long hlong _)

end

/-- Digits that make a limit are read. -/
theorem exists_parse_limit (o : Opening) (n : Name) {digits : Text} (hdigits : ∀ c ∈ digits, c.isDigit)
    (hshort : digits.length ≤ 4300) (husable : ¬ UnusableLimit digits) :
    ∃ t, Template.parse (o.text ++ (n.text ++ (':' : CodePoint) :: (digits ++ [('}' : CodePoint)]))) = .ok t := by
  unfold UnusableLimit at husable
  rw [not_or, not_or] at husable
  obtain ⟨hne, hzero, hhigh⟩ := husable
  let l : Limit := ⟨digits, hdigits, List.length_pos_iff.2 hne, hshort, Nat.pos_iff_ne_zero.2 hzero, Nat.not_lt.1 hhigh⟩
  obtain ⟨d, hd⟩ := o.exists_derivation ⟨n, .limit l⟩
  have htext : o.text ++ (n.text ++ (':' : CodePoint) :: (digits ++ [('}' : CodePoint)])) = d.text := by
    rw [← hd]
    simp [VariableSpec.text, Modifier.text, l]
  rw [htext]
  exact d.exists_parse

/-- **A limit is written with one to four digits, behind any number of zeros.**  In a text that is read, this is how each
limit of a reference is written.  Conversely, digits behind the colon of a limit are reported, at the first of them,
exactly if they are not of this form; the zeros count only if there are more digits than a numeral may have. -/
theorem limit_digits_up_to_zeros (source : Text) :
    (∀ t, Template.parse source = .ok t → ∃ d : Derivation, d.text = source ∧
      (t.elements.flatMap Element.references).filterMap (·.limit) =
        d.limits.map (fun l => (digitsValue l.digits : Int)) ∧
      ∀ l ∈ d.limits, (1 ≤ (significant l.digits).length ∧ (significant l.digits).length ≤ 4) ∧
        ∃ zeros, l.digits = List.replicate zeros ('0' : CodePoint) ++ significant l.digits) ∧
    ∀ (o : Opening) (n : Name) (digits rest : Text), source = o.text ++ (n.text ++ (':' : CodePoint) :: (digits ++ rest)) →
      (∀ c ∈ digits, c.isDigit) → (∀ c ∈ rest.head?, c.isDigit = false) →
      ((∃ e, Template.parse source = .error (.malformed e) ∧ e.kind = .illegalCharacterLimit ∧
          e.offset = some (o.text ++ (n.text ++ [(':' : CodePoint)])).length) ↔
        digits.length ≤ 4300 ∧ ¬ (1 ≤ (significant digits).length ∧ (significant digits).length ≤ 4)) ∧
      (Template.parse source = .error (.numeralTooLong digits.length) ↔ 4300 < digits.length) ∧
      (rest = "\x7d" → digits.length ≤ 4300 → 1 ≤ (significant digits).length → (significant digits).length ≤ 4 →
        ∃ t, Template.parse source = .ok t) := by
  refine ⟨fun t ht => ?_, ?_⟩
  · obtain ⟨d, htext, helements⟩ := exists_derivation ((Template.parse_eq_ok_iff source t).1 ht).2
    refine ⟨d, htext, ?_, fun l _ => ⟨l.significant_digits, exists_zeros l.digits⟩⟩
    rw [← helements]
    exact d.limits_elementsFrom 0
  · rintro o n digits rest rfl hdigits hrest
    rw [parse_limit_error_iff o n hdigits hrest, unusableLimit_iff hdigits]
    refine ⟨Iff.rfl, parse_limit_tooLong_iff o n hdigits hrest, ?_⟩
    rintro rfl hshort hone hfour
    refine exists_parse_limit o n hdigits hshort ?_
    rw [unusableLimit_iff hdigits, not_not]
    exact ⟨hone, hfour⟩

/-- Five zeros are reported, and three zeros in front of a number are read. -/
theorem limit_digits_up_to_zeros_padded :
    (∃ e, Template.parse ("{a:00000}" : Text) = .error (.malformed e) ∧ e.kind = .illegalCharacterLimit ∧
      e.offset = some 3) ∧ ∃ t, Template.parse ("{a:00012}" : Text) = .ok t := by
  let o : Opening := .bare []
  let n : Name := ⟨.char 'a' (by decide), []⟩
  obtain ⟨hzeros, -, -⟩ := (limit_digits_up_to_zeros "{a:00000}").2 o n "00000" "\x7d" rfl (by decide) (by decide)
  obtain ⟨-, -, hread⟩ := (limit_digits_up_to_zeros "{a:00012}").2 o n "00012" "\x7d" rfl (by decide) (by decide)
  exact ⟨hzeros.2 (by decide), hread rfl (by decide) (by decide) (by decide)⟩

/-- A limit of five digits that is read. -/
theorem limit_digits_five :
    let t : Template := ⟨"{a:00001}", [.expression ⟨"{a:00001}", 0, 9⟩ .simple [{ name := "a", limit := some 1 }]]⟩
    Template.parse ("{a:00001}" : Text) = .ok t ∧ (∀ c ∈ ("00001" : Text), c.isDigit) ∧ ("00001" : Text).length = 5 ∧
      ("{a:00001}" : Text) = (Opening.bare []).text ++ (("a" : Text) ++ (':' : CodePoint) :: (("00001" : Text) ++ "\x7d")) ∧
      ¬ ∃ e, Template.parse ("{a:00001}" : Text) = .error (.malformed e) := by
  intro t
  have hparse : Template.parse ("{a:00001}" : Text) = .ok t := rfl
  refine ⟨hparse, by decide, rfl, rfl, ?_⟩
  rintro ⟨e, he⟩
  rw [hparse] at he
  cases he

end UriTemplate
