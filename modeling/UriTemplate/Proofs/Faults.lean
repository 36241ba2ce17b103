import UriTemplate.Proofs.Beginnings

/-!
# Where the fault is

A text that is not read has a fault at the place that is reported, and none before it.

* `FaultAt` — what is wrong with a text behind its beginning, for every kind of error;
* `LongLimit` — a limit with more digits than a numeral may have;
* `ParseFailure.Explains` — the text has the fault that the failure reports;
* `Reader.Behind.step_error`, `Reader.Behind.finish_error`, `Reader.Behind.readAll_error` — one step, the end of the
  text, and all steps;
* `parse_error_fault` — errors point at faults, and what stands before one is a beginning of a template;
* `parse_limit_error` — digits that make no limit are reported, whatever follows them;
* `parse_eq_numeralTooLong_iff` — the texts that are not read and have no error either.
-/

namespace UriTemplate

open CodePoint

/-! ## faults -/

/-- Two hexadecimal digits come first. -/
def HexPair (t : Text) : Prop := ∃ (a b : CodePoint) (r : Text), t = a :: b :: r ∧ a.isHexDigit ∧ b.isHexDigit

/-- A name ends at the character. -/
def EndsName (c : CodePoint) : Prop := c = ',' ∨ c = '}' ∨ c = ':' ∨ c = '*'

/-- The number of a character limit is missing, too low or too high. -/
def UnusableLimit (digits : Text) : Prop := digits = [] ∨ digitsValue digits = 0 ∨ 9999 < digitsValue digits

/-- What is wrong at the beginning of `rest` in a text that begins with `before`. -/
inductive FaultAt : ParseErrorKind → Text → Text → Prop
  /-- A character that may not stand in a literal. -/
  | literal (d : Derivation) {c : CodePoint} (hc : c.isLiteral = false) (hbrace : c ≠ '{') (hpercent : c ≠ '%')
      (rest : Text) : FaultAt .illegalCharacter d.text (c :: rest)
  /-- A character that may not stand in a name, nor, behind the brace, be the operator. -/
  | name (o : Opening) (p : PartialName) {c : CodePoint} (hc : c.isNameChar = false) (hdot : c ≠ '.')
      (hpercent : c ≠ '%') (hend : ¬ EndsName c) (hop : o.Bare → p = .empty → Operator.ofChar? c = none) (rest : Text) :
      FaultAt .illegalCharacter (o.text ++ p.text) (c :: rest)
  | literalPercent (d : Derivation) {rest : Text} (h : ¬ HexPair rest) :
      FaultAt .illegalPercentEncoding d.text (('%' : CodePoint) :: rest)
  | namePercent (o : Opening) (p : PartialName) {rest : Text} (h : ¬ HexPair rest) :
      FaultAt .illegalPercentEncoding (o.text ++ p.text) (('%' : CodePoint) :: rest)
  /-- A dot at the beginning of a name.  Directly behind the brace it would be the operator. -/
  | leadingDot (o : Opening) (h : ¬ o.Bare) (rest : Text) : FaultAt .illegalDot o.text (('.' : CodePoint) :: rest)
  | doubledDot (o : Opening) (n : Name) (rest : Text) :
      FaultAt .illegalDot (o.text ++ (n.text ++ [('.' : CodePoint)])) (('.' : CodePoint) :: rest)
  | trailingDot (o : Opening) (n : Name) {c : CodePoint} (hc : EndsName c) (rest : Text) :
      FaultAt .illegalDot (o.text ++ n.text) (('.' : CodePoint) :: c :: rest)
  | emptyName (o : Opening) {c : CodePoint} (hc : EndsName c) (rest : Text) :
      FaultAt .emptyVariableName o.text (c :: rest)
  /-- All the digits behind a colon, which make no limit. -/
  | limit (o : Opening) (n : Name) {digits rest : Text} (hdigits : ∀ c ∈ digits, c.isDigit)
      (hrest : ∀ c ∈ rest.head?, c.isDigit = false) (h : UnusableLimit digits) :
      FaultAt .illegalCharacterLimit (o.text ++ (n.text ++ [(':' : CodePoint)])) (digits ++ rest)
  /-- A character that may not follow a limit. -/
  | behindLimit (o : Opening) (n : Name) (l : Limit) {c : CodePoint} (hdigit : c.isDigit = false) (hcomma : c ≠ ',')
      (hbrace : c ≠ '}') (rest : Text) :
      FaultAt .illegalCharacterLimit (o.text ++ (n.text ++ (':' : CodePoint) :: l.digits)) (c :: rest)
  /-- A character that may not follow an asterisk. -/
  | behindExplode (o : Opening) (n : Name) {c : CodePoint} (hcomma : c ≠ ',') (hbrace : c ≠ '}') (rest : Text) :
      FaultAt .illegalExplodeModifier (o.text ++ (n.text ++ [('*' : CodePoint)])) (c :: rest)
  | withinName (o : Opening) (p : PartialName) : FaultAt .unterminatedExpression (o.text ++ p.text) []
  | behindVariable (o : Opening) (v : VariableSpec) : FaultAt .unterminatedExpression (o.text ++ v.text) []

/-- Nothing before a fault is wrong. -/
theorem FaultAt.begins {k : ParseErrorKind} {before rest : Text} (h : FaultAt k before rest) : Begins before := by
  cases h with
  | literal d => exact d.begins
  | name o p => exact o.begins_name p
  | literalPercent d => exact d.begins
  | namePercent o p => exact o.begins_name p
  | leadingDot o => exact o.begins
  | doubledDot o n =>
    have hbegins := o.begins_name (.units n true)
    rwa [PartialName.text_units_true] at hbegins
  | trailingDot o n =>
    have hbegins := o.begins_name (.units n false)
    rwa [PartialName.text_units_false] at hbegins
  | emptyName o => exact o.begins
  | limit o n => exact o.begins_colon n
  | behindLimit o n l => exact o.begins_variable ⟨n, .limit l⟩
  | behindExplode o n => exact o.begins_variable ⟨n, .explode⟩
  | withinName o p => exact o.begins_name p
  | behindVariable o v => exact o.begins_variable v

/-- Only what is missing lies at the end of the text. -/
theorem FaultAt.of_end {k : ParseErrorKind} {before rest : Text} (h : FaultAt k before rest) (hrest : rest = []) :
    k = .unterminatedExpression ∨ ∃ (o : Opening) (n : Name), before = o.text ++ (n.text ++ [(':' : CodePoint)]) := by
  cases h with
  | limit o n => exact .inr ⟨o, n, rfl⟩
  | withinName | behindVariable => exact .inl rfl
  | _ => cases hrest

/-- The text has a limit with `k` digits, more than a numeral may have, and nothing is wrong before it. -/
def LongLimit (source : Text) (k : Nat) : Prop :=
  ∃ (o : Opening) (n : Name) (digits rest : Text),
    source = o.text ++ (n.text ++ (':' : CodePoint) :: (digits ++ rest)) ∧ (∀ c ∈ digits, c.isDigit) ∧
    (∀ c ∈ rest.head?, c.isDigit = false) ∧ digits.length = k ∧ 4300 < k

/-- The text has the fault that the failure reports, where the failure reports it. -/
def ParseFailure.Explains : ParseFailure → Text → Prop
  | .malformed e, t =>
    ∃ before rest, t = before ++ rest ∧ before.length = e.offset.getD t.length ∧ FaultAt e.kind before rest
  | .numeralTooLong k, t => LongLimit t k

/-! ## failures of one step -/

theorem ParseFailure.explains_of_offset {e : ParseError} {before rest : Text} (h : FaultAt e.kind before rest)
    (hoffset : e.offset = some before.length) : (ParseFailure.malformed e).Explains (before ++ rest) :=
  ⟨before, rest, rfl, by rw [hoffset, Option.getD_some], h⟩

theorem endsName_iff {c : CodePoint} : c.isAny [',', '}', ':', '*'] = true ↔ EndsName c := by
  simp [EndsName]

theorem TripletDigits.not_hexPair {digit : Bool} {digits rest : Text} (h : TripletDigits digit digits)
    (hrest : ∀ c ∈ rest.head?, c.isHexDigit = false) : ¬ HexPair (digits ++ rest) := by
  rintro ⟨a, b, r, htext, ha, hb⟩
  obtain ⟨hlength, -⟩ := h
  cases digit with
  | false =>
    obtain rfl : digits = [] := List.eq_nil_of_length_eq_zero hlength
    rw [List.nil_append] at htext
    have := hrest a (by rw [htext]; rfl)
    rw [ha] at this
    cases this
  | true =>
    obtain ⟨d, rfl⟩ := List.length_eq_one_iff.1 hlength
    obtain ⟨rfl, rfl⟩ := List.cons.inj htext
    have := hrest b rfl
    rw [hb] at this
    cases this

theorem readLimit_error {digits : Text} {start : Nat} {f : ParseFailure} (h : readLimit digits start = .error f) :
    (f = .numeralTooLong digits.length ∧ 4300 < digits.length) ∨
    (∃ e, f = .malformed e ∧ e.kind = .illegalCharacterLimit ∧ e.offset = some start ∧ UnusableLimit digits) := by
  unfold readLimit at h
  split at h
  · next hnil => exact .inr ⟨_, (Except.error.inj h).symm, rfl, rfl, .inl hnil⟩
  split at h
  · next hlong => exact .inl ⟨(Except.error.inj h).symm, hlong⟩
  split at h
  · next hhigh => exact .inr ⟨_, (Except.error.inj h).symm, rfl, rfl, .inr (.inr hhigh)⟩
  split at h
  · next hzero => exact .inr ⟨_, (Except.error.inj h).symm, rfl, rfl, .inr (.inl hzero)⟩
  · cases h

/-- What is wrong with the digits of a limit, all of which have been read. -/
theorem explains_limit (o : Opening) (n : Name) {digits rest : Text} {start : Nat} {f : ParseFailure}
    (hdigits : ∀ c ∈ digits, c.isDigit) (hrest : ∀ c ∈ rest.head?, c.isDigit = false)
    (h : readLimit digits start = .error f) (hstart : start = (o.text ++ (n.text ++ [(':' : CodePoint)])).length) :
    f.Explains (o.text ++ (n.text ++ (':' : CodePoint) :: digits) ++ rest) := by
  rcases readLimit_error h with ⟨rfl, hlong⟩ | ⟨e, rfl, hkind, hoffset, hlimit⟩
  · refine ⟨o, n, digits, rest, ?_, hdigits, hrest, rfl, hlong⟩
    simp
  · have hfault : FaultAt e.kind (o.text ++ (n.text ++ [(':' : CodePoint)])) (digits ++ rest) :=
      hkind ▸ .limit o n hdigits hrest hlimit
    have hexplains := ParseFailure.explains_of_offset hfault (hstart ▸ hoffset)
    simpa using hexplains

namespace Reader

variable {s : Reader} {t : Text} {c : CodePoint} {f : ParseFailure}

/-- What is wrong with a triplet of which the percent sign and `digits` have been read. -/
theorem explains_percent {digit : Bool} {before digits rest : Text} (hdigits : TripletDigits digit digits)
    (hoffset : s.offset = (before ++ ('%' : CodePoint) :: digits).length)
    (h : FaultAt .illegalPercentEncoding before (('%' : CodePoint) :: (digits ++ rest))) :
    (s.tripletFault digit).Explains (before ++ ('%' : CodePoint) :: digits ++ rest) := by
  have hstart : s.offset - (if digit then 2 else 1) = before.length := by
    have hlength := hdigits.1
    rw [hoffset, List.length_append, List.length_cons]
    cases digit <;> simp only [if_true, Bool.false_eq_true, if_false] at hlength ⊢ <;> omega
  have hexplains := ParseFailure.explains_of_offset (e := .percent (s.offset - (if digit then 2 else 1))) h
    (congrArg some hstart)
  rw [List.append_assoc]
  exact hexplains

theorem nameStep_error {op : Operator} {before : List VariableReference} {o : Opening} {p : PartialName}
    (hoffset : s.offset = (o.text ++ p.text).length) (hop : o.Bare → p = .empty → Operator.ofChar? c = none)
    (h : s.nameStep op before p.text.reverse c = .error f) (rest : Text) :
    f.Explains (o.text ++ p.text ++ c :: rest) := by
  unfold nameStep at h
  split at h
  · next hend =>
    rw [endsName_iff] at hend
    split at h
    · next hnil =>
      obtain rfl := Except.error.inj h
      obtain rfl := p.eq_empty_of_reverse hnil
      rw [PartialName.text, List.append_nil] at hoffset ⊢
      exact ParseFailure.explains_of_offset (.emptyName o hend rest) (congrArg some hoffset)
    · next d r hread =>
      split at h
      · next hd =>
        obtain rfl := Except.error.inj h
        obtain ⟨n, rfl⟩ := PartialName.eq_units_of_dot (hd ▸ hread)
        have hfault : FaultAt .illegalDot (o.text ++ n.text) (('.' : CodePoint) :: c :: rest) :=
          .trailingDot o n hend rest
        have hstart : s.offset - 1 = (o.text ++ n.text).length := by
          rw [hoffset, PartialName.text_units_true]
          simp only [List.length_append, List.length_singleton]
          omega
        have hexplains := ParseFailure.explains_of_offset (e := .dot (s.offset - 1)) hfault (congrArg some hstart)
        simpa using hexplains
      split at h
      · cases h
      split at h <;> cases h
  next hend =>
  split at h
  · next hdot =>
    split at h
    · next hread =>
      obtain rfl := Except.error.inj h
      subst hdot
      rw [List.reverse_eq_nil_iff] at hread
      rcases hread with hnil | hread
      · obtain rfl := p.eq_empty_of_reverse (List.reverse_eq_nil_iff.2 hnil)
        have hbare : ¬ o.Bare := fun hb => absurd (hop hb rfl) (by decide)
        rw [PartialName.text, List.append_nil] at hoffset ⊢
        exact ParseFailure.explains_of_offset (.leadingDot o hbare rest) (congrArg some hoffset)
      · obtain ⟨r, hr⟩ := List.head?_eq_some_iff.1 hread
        obtain ⟨n, rfl⟩ := PartialName.eq_units_of_dot hr
        rw [PartialName.text_units_true] at hoffset ⊢
        exact ParseFailure.explains_of_offset (.doubledDot o n rest) (congrArg some hoffset)
    · cases h
  next hdot =>
  split at h
  · cases h
  next hpercent =>
  split at h
  · cases h
  next hc =>
  obtain rfl := Except.error.inj h
  have hfault : FaultAt .illegalCharacter (o.text ++ p.text) (c :: rest) :=
    .name o p (by simpa using hc) hdot hpercent (fun he => hend (endsName_iff.2 he)) hop rest
  exact ParseFailure.explains_of_offset hfault (congrArg some hoffset)

/-- What is wrong with a triplet of a name, behind its first digit or before it. -/
theorem explains_nameTriplet {o : Opening} {digit : Bool} {read rest : Text} (hoffset : s.offset = t.length)
    (ht : (ReferencePlace.triplet read digit).Behind o t) (hrest : ∀ c ∈ rest.head?, c.isHexDigit = false) :
    (s.tripletFault digit).Explains (t ++ rest) := by
  obtain ⟨p, digits, hdigits, -, rfl⟩ := ht
  rw [← List.append_assoc] at hoffset ⊢
  exact explains_percent hdigits hoffset (.namePercent o p (hdigits.not_hexPair hrest))

/-- What is wrong with a triplet of a literal. -/
theorem explains_literalTriplet {digit : Bool} {rest : Text} (hoffset : s.offset = t.length)
    (ht : (Place.triplet digit).Behind t) (hrest : ∀ c ∈ rest.head?, c.isHexDigit = false) :
    (s.tripletFault digit).Explains (t ++ rest) := by
  obtain ⟨d, digits, hdigits, rfl⟩ := ht
  exact explains_percent hdigits hoffset (.literalPercent d (hdigits.not_hexPair hrest))

/-- What is wrong with the digits of a limit. -/
theorem explains_digits {o : Opening} {name digits rest : Text} (hoffset : s.offset = t.length)
    (ht : (ReferencePlace.limit name digits).Behind o t) (hrest : ∀ c ∈ rest.head?, c.isDigit = false)
    (h : readLimit digits.reverse (s.offset - digits.length) = .error f) : f.Explains (t ++ rest) := by
  obtain ⟨n, -, hdigits, rfl⟩ := ht
  refine explains_limit o n (by simpa using hdigits) hrest h ?_
  rw [hoffset]
  simp only [List.length_append, List.length_cons, List.length_reverse, List.length_nil]
  omega

theorem referenceStep_error {op : Operator} {before : List VariableReference} {place : ReferencePlace} {o : Opening}
    (hoffset : s.offset = t.length) (hbare : o.Bare → place ≠ .name []) (ht : place.Behind o t)
    (h : s.referenceStep op before place c = .error f) (rest : Text) : f.Explains (t ++ c :: rest) := by
  cases place with
  | name read =>
    obtain ⟨p, hread, rfl⟩ := ht
    obtain rfl : read = p.text.reverse := by rw [← hread, List.reverse_reverse]
    refine nameStep_error hoffset ?_ h rest
    rintro hb rfl
    exact absurd rfl (hbare hb)
  | triplet read digit =>
    rw [referenceStep] at h
    split at h
    · cases h
    · next hc =>
      obtain rfl := Except.error.inj h
      exact explains_nameTriplet hoffset ht (by simpa using hc)
  | limit name digits =>
    rw [referenceStep] at h
    split at h
    · cases h
    next hc =>
    have hnext : ∀ d ∈ (c :: rest).head?, d.isDigit = false := by simpa using hc
    cases hlimit : readLimit digits.reverse (s.offset - digits.length) with
    | error e =>
      rw [hlimit] at h
      obtain rfl := Except.error.inj h
      exact explains_digits hoffset ht hnext hlimit
    | ok k =>
      rw [hlimit] at h
      simp only [bind, Except.bind] at h
      split at h
      · cases h
      · next hends =>
        obtain rfl := Except.error.inj h
        obtain ⟨n, -, hdigits, rfl⟩ := ht
        obtain ⟨l, hl⟩ := exists_limit (by simpa using hdigits) hlimit
        rw [ends_iff, not_or] at hends
        rw [← hl] at hoffset ⊢
        have hfault := FaultAt.behindLimit o n l (by simpa using hc) hends.1 hends.2 rest
        exact ParseFailure.explains_of_offset hfault (congrArg some hoffset)
  | exploded name =>
    obtain ⟨n, -, rfl⟩ := ht
    rw [referenceStep] at h
    split at h
    · cases h
    · next hends =>
      obtain rfl := Except.error.inj h
      rw [ends_iff, not_or] at hends
      exact ParseFailure.explains_of_offset (.behindExplode o n hends.1 hends.2 rest) (congrArg some hoffset)

/-- **A character that cannot be read is a fault**, or shows one in what has been read before it. -/
theorem Behind.step_error (hs : s.Behind t) (h : s.step c = .error f) (rest : Text) : f.Explains (t ++ c :: rest) := by
  obtain ⟨ht, hoffset⟩ := hs
  unfold Reader.step at h
  split at h
  · next hplace =>
    rw [hplace] at ht
    obtain ⟨d, rfl⟩ := ht
    split at h
    · cases h
    next hbrace =>
    split at h
    · cases h
    next hpercent =>
    split at h
    · cases h
    next hc =>
    obtain rfl := Except.error.inj h
    have hfault := FaultAt.literal d (by simpa using hc) hbrace hpercent rest
    exact ParseFailure.explains_of_offset hfault (congrArg some hoffset)
  · next digit hplace =>
    rw [hplace] at ht
    split at h
    · cases h
    · next hc =>
      obtain rfl := Except.error.inj h
      exact explains_literalTriplet hoffset ht (by simpa using hc)
  · next hplace =>
    rw [hplace] at ht
    obtain ⟨d, rfl⟩ := ht
    split at h
    · cases h
    · next hop =>
      have hlength : s.offset = ((Opening.bare d).text ++ PartialName.empty.text).length := by
        rw [PartialName.text, List.append_nil]
        exact hoffset
      have hexplains := nameStep_error (o := .bare d) (p := .empty) hlength (fun _ _ => hop) h rest
      rwa [PartialName.text, List.append_nil] at hexplains
  · next op before place hplace =>
    rw [hplace] at ht
    obtain ⟨o, -, hbare, ht⟩ := ht
    exact referenceStep_error hoffset hbare ht h rest

/-- An end that comes too early. -/
theorem explains_unterminated {t : Text} (h : FaultAt .unterminatedExpression t []) :
    (ParseFailure.malformed .unterminated).Explains t :=
  ⟨t, [], (List.append_nil t).symm, rfl, h⟩

theorem Behind.finish_error (hs : s.Behind t) (h : s.finish = .error f) : f.Explains t := by
  obtain ⟨ht, hoffset⟩ := hs
  have hend : ∀ p : CodePoint → Bool, ∀ c ∈ ([] : Text).head?, p c = false := by simp
  unfold Reader.finish at h
  split at h
  · cases h
  · next digit hplace =>
    rw [hplace] at ht
    obtain rfl := Except.error.inj h
    have hexplains := explains_literalTriplet hoffset ht (hend isHexDigit)
    rwa [List.append_nil] at hexplains
  · next hplace =>
    rw [hplace] at ht
    obtain ⟨d, rfl⟩ := ht
    obtain rfl := Except.error.inj h
    have hfault := FaultAt.withinName (.bare d) .empty
    rw [PartialName.text, List.append_nil] at hfault
    exact explains_unterminated hfault
  · next op before place hplace =>
    rw [hplace] at ht
    obtain ⟨o, -, -, ht⟩ := ht
    split at h
    · next read digit =>
      obtain rfl := Except.error.inj h
      have hexplains := explains_nameTriplet hoffset ht (hend isHexDigit)
      rwa [List.append_nil] at hexplains
    · next name digits =>
      cases hlimit : readLimit digits.reverse (s.offset - digits.length) with
      | error e =>
        rw [hlimit] at h
        obtain rfl := Except.error.inj h
        have hexplains := explains_digits hoffset ht (hend isDigit) hlimit
        rwa [List.append_nil] at hexplains
      | ok k =>
        rw [hlimit] at h
        obtain rfl := Except.error.inj h
        obtain ⟨n, -, hdigits, rfl⟩ := ht
        obtain ⟨l, hl⟩ := exists_limit (by simpa using hdigits) hlimit
        rw [← hl]
        exact explains_unterminated (.behindVariable o ⟨n, .limit l⟩)
    · next read =>
      obtain ⟨p, -, rfl⟩ := ht
      obtain rfl := Except.error.inj h
      exact explains_unterminated (.withinName o p)
    · next name =>
      obtain ⟨n, -, rfl⟩ := ht
      obtain rfl := Except.error.inj h
      exact explains_unterminated (.behindVariable o ⟨n, .explode⟩)

/-- **Reading fails only at a fault.** -/
theorem Behind.readAll_error {rest : Text} (hs : s.Behind t) (h : s.readAll rest = .error f) :
    f.Explains (t ++ rest) := by
  induction rest generalizing s t with
  | nil =>
    rw [List.append_nil]
    exact hs.finish_error h
  | cons c rest ih =>
    cases hstep : s.step c with
    | error e =>
      rw [readAll, run, List.foldlM_cons, hstep] at h
      obtain rfl := Except.error.inj h
      exact hs.step_error hstep rest
    -- what has been read grows by `c`, and the rest is read behind it
    | ok s' =>
      rw [readAll_cons hstep] at h
      have hexplains := ih (hs.step hstep) h
      rwa [List.append_assoc] at hexplains

end Reader

theorem ParseFailure.explains_of_parse {source : Text} {f : ParseFailure} (h : Template.parse source = .error f) :
    f.Explains source := by
  rw [Template.parse_eq_error_iff] at h
  exact Reader.Behind.start.readAll_error h

theorem ParseError.offset_eq_none_iff (e : ParseError) : e.offset = none ↔ e.kind = .unterminatedExpression := by
  cases e <;> simp [offset, kind]

/-- **Errors point at faults.**  An error has an offset unless an expression lacks its end.  The offset lies in the
text, and at its end only behind the colon of a limit.  What stands before it can be gone on with to a template, and
what stands there is wrong in the way that the kind of the error says. -/
theorem parse_error_fault {source : Text} {e : ParseError} (h : Template.parse source = .error (.malformed e)) :
    (e.offset = none ↔ e.kind = .unterminatedExpression) ∧
    (∀ n, e.offset = some n → n ≤ source.length ∧
      (n = source.length → ∃ (o : Opening) (name : Name), source = o.text ++ (name.text ++ [(':' : CodePoint)]))) ∧
    ∃ before rest, source = before ++ rest ∧ before.length = e.offset.getD source.length ∧ Begins before ∧
      FaultAt e.kind before rest := by
  obtain ⟨before, rest, rfl, hlength, hfault⟩ := ParseFailure.explains_of_parse h
  refine ⟨e.offset_eq_none_iff, ?_, before, rest, rfl, hlength, hfault.begins, hfault⟩
  intro n hn
  rw [hn, Option.getD_some] at hlength
  subst hlength
  refine ⟨by simp, fun hend => ?_⟩
  have hrest : rest = [] := by simpa using hend
  rcases hfault.of_end hrest with hkind | ⟨o, name, rfl⟩
  · rw [e.offset_eq_none_iff.2 hkind] at hn
    cases hn
  · exact ⟨o, name, by rw [hrest, List.append_nil]⟩

/-- The dot of `{a,b.}`, before the brace. -/
theorem parse_error_fault_dot :
    Template.parse "{a,b.}" = .error (.malformed (.dot 4)) ∧
    ∃ before rest, ("{a,b.}" : Text) = before ++ rest ∧ before.length = 4 ∧ Begins before ∧
      FaultAt .illegalDot before rest := by
  have h : Template.parse "{a,b.}" = .error (.malformed (.dot 4)) := by rfl
  exact ⟨h, (parse_error_fault h).2.2⟩

/-! ## texts without an error -/

theorem readLimit_long {digits : Text} (h : 4300 < digits.length) (start : Nat) :
    readLimit digits start = .error (.numeralTooLong digits.length) := by
  have hne : digits ≠ [] := List.ne_nil_of_length_pos (Nat.zero_lt_of_lt h)
  have htooLong : digits.length > maxDigits := h
  rw [readLimit, if_neg hne, if_pos htooLong]

/-- The digits of a limit are looked at when all of them have been read, whatever follows them. -/
theorem Reader.readAll_limit {s : Reader} {op : Operator} {before : List VariableReference} {name digits rest : Text}
    {f : ParseFailure} (hplace : s.place = .reference op before (.limit name digits))
    (hrest : ∀ c ∈ rest.head?, c.isDigit = false)
    (h : readLimit digits.reverse (s.offset - digits.length) = .error f) : s.readAll rest = .error f := by
  cases rest with
  | nil =>
    show s.finish = .error f
    rw [finish, hplace]
    simp only [h]
    rfl
  | cons c rest =>
    have hc : c.isDigit = false := hrest c rfl
    have hstep : s.step c = .error f := by
      rw [step, hplace]
      simp only [referenceStep, hc, h]
      rfl
    rw [readAll, run, List.foldlM_cons, hstep]
    rfl

/-- **Digits that make no limit are reported**, whatever follows them. -/
theorem parse_limit_error (o : Opening) (n : Name) {digits rest : Text} {f : ParseFailure}
    (hdigits : ∀ c ∈ digits, c.isDigit) (hrest : ∀ c ∈ rest.head?, c.isDigit = false)
    (h : readLimit digits (o.text ++ (n.text ++ [(':' : CodePoint)])).length = .error f) :
    Template.parse (o.text ++ (n.text ++ (':' : CodePoint) :: (digits ++ rest))) = .error f := by
  obtain ⟨s, before, hrun, hplace⟩ := o.exists_run_name n
  have hoffset : s.offset = (o.text ++ n.text).length := (Reader.offset_of_run hrun).trans (Nat.zero_add _)
  have hcolon : s.step ':' = .ok (s.takeAll [':'] (.reference o.operator before (.limit n.text []))) := by
    rw [Reader.step_name_end hplace (by simp), if_pos rfl]
  have hrunDigits := Reader.run_digits (s := s.takeAll [':'] (.reference o.operator before (.limit n.text []))) digits
    hdigits rfl
  rw [List.append_nil, Reader.takeAll_takeAll] at hrunDigits
  rw [Template.parse_eq_error_iff, Reader.parseElements_eq, ← List.append_assoc, Reader.readAll_append hrun,
    Reader.readAll_cons hcolon, Reader.readAll_append hrunDigits]
  refine Reader.readAll_limit rfl hrest ?_
  have hstart : s.offset + ([(':' : CodePoint)] ++ digits).length - digits.length =
      (o.text ++ (n.text ++ [(':' : CodePoint)])).length := by
    rw [hoffset]
    simp only [List.length_append, List.length_singleton]
    omega
  rwa [Reader.takeAll_offset, List.length_reverse, List.reverse_reverse, hstart]

theorem LongLimit.parse {source : Text} {k : Nat} (h : LongLimit source k) :
    Template.parse source = .error (.numeralTooLong k) := by
  obtain ⟨o, n, digits, rest, rfl, hdigits, hrest, rfl, hlong⟩ := h
  exact parse_limit_error o n hdigits hrest (readLimit_long hlong _)

theorem parse_eq_numeralTooLong_iff (source : Text) (k : Nat) :
    Template.parse source = .error (.numeralTooLong k) ↔ LongLimit source k :=
  ⟨fun h => ParseFailure.explains_of_parse h, LongLimit.parse⟩

/-- **When a text is neither read nor malformed**: exactly if one of its limits has more digits than a numeral may have
and nothing is wrong before that.  Then it has no elements either. -/
theorem parse_outcome (source : Text) :
    (((∃ t, Template.parse source = .ok t) ∨ ∃ e, Template.parse source = .error (.malformed e)) ↔
      ∀ k, ¬ LongLimit source k) ∧
    (∀ k, Template.parse source = .error (.numeralTooLong k) ↔ LongLimit source k) ∧
    ∀ f, parseElements source = .error f ↔ Template.parse source = .error f := by
  refine ⟨⟨?_, ?_⟩, parse_eq_numeralTooLong_iff source, fun f => (Template.parse_eq_error_iff source f).symm⟩
  · rintro (⟨t, ht⟩ | ⟨e, he⟩) k hlong
    · rw [hlong.parse] at ht
      cases ht
    · rw [hlong.parse] at he
      cases he
  · intro hshort
    cases hparse : Template.parse source with
    | ok t => exact .inl ⟨t, rfl⟩
    | error f =>
      cases f with
      | malformed e => exact .inr ⟨e, rfl⟩
      | numeralTooLong k => exact absurd ((parse_eq_numeralTooLong_iff source k).1 hparse) (hshort k)

/-- A limit of 4301 digits `1`. -/
theorem parse_not_outcome_limit :
    ¬ ((∃ t, Template.parse (("\x7ba:" : Text) ++ (List.replicate 4301 ('1' : CodePoint) ++ ("\x7d" : Text))) = .ok t) ∨
      ∃ e, Template.parse (("\x7ba:" : Text) ++ (List.replicate 4301 ('1' : CodePoint) ++ ("\x7d" : Text))) =
        .error (.malformed e)) := by
  have hdigits : ∀ c ∈ List.replicate 4301 ('1' : CodePoint), c.isDigit := by
    intro c hc
    rw [List.eq_of_mem_replicate hc]
    decide
  have hlong : LongLimit (("\x7ba:" : Text) ++ (List.replicate 4301 ('1' : CodePoint) ++ ("\x7d" : Text))) 4301 :=
    ⟨.bare [], ⟨.char 'a' (by decide), []⟩, List.replicate 4301 ('1' : CodePoint), "\x7d", rfl, hdigits, by decide,
      List.length_replicate, by decide⟩
  rw [hlong.parse]
  rintro (⟨t, ht⟩ | ⟨e, he⟩)
  · cases ht
  · cases he

end UriTemplate
