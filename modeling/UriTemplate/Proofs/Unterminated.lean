import Mathlib.Data.List.TakeWhile
import UriTemplate.Proofs.LimitDigits
import UriTemplate.Proofs.Tiling

/-!
# Expressions that are cut off

A text may end within an expression that only lacks its end.

* `EndsInExpression`, `EndsInTriplet`, `EndsInZeros` — where a text can end;
* `Begins.exists_run` — the beginning of a template is read to its end, and what is missing may follow;
* `readLimit_of_append` — the digits of a limit, the rest of which is missing;
* `Reader.Behind.finish_cases`, `parse_unterminated_iff` — what is reported when the text ends.
-/

namespace UriTemplate

open CodePoint

/-! ## where a text ends -/

/-- An expression is opened and not closed. -/
def EndsInExpression (t : Text) : Prop :=
  ∃ before inner, t = before ++ ('{' : CodePoint) :: inner ∧ ('}' : CodePoint) ∉ inner

/-- A percent sign lacks one or both of its digits. -/
def EndsInTriplet (t : Text) : Prop := ∃ before digits, t = before ++ ('%' : CodePoint) :: digits ∧ digits.length < 2

/-- Nothing but zeros stands behind a colon. -/
def EndsInZeros (t : Text) : Prop :=
  ∃ before zeros, t = before ++ (':' : CodePoint) :: zeros ∧ ∀ c ∈ zeros, c = ('0' : CodePoint)

theorem endsInTriplet_iff {t : Text} : EndsInTriplet t ↔ ('%' : CodePoint) ∈ t.reverse.take 2 := by
  constructor
  · rintro ⟨before, digits, rfl, hlength⟩
    rcases digits with _ | ⟨c, _ | ⟨d, digits⟩⟩
    · simp
    · simp
    · simp only [List.length_cons] at hlength
      omega
  · intro h
    rcases hreverse : t.reverse with _ | ⟨c, _ | ⟨d, r⟩⟩
    · simp [hreverse] at h
    · obtain rfl : t = [c] := by simpa using hreverse
      obtain rfl : c = '%' := by simpa [eq_comm] using h
      exact ⟨[], [], rfl, by decide⟩
    · obtain rfl : t = r.reverse ++ [d, c] := by
        have ht := congrArg List.reverse hreverse
        simpa using ht
      simp only [hreverse, List.take_succ_cons, List.take_zero, List.mem_cons, List.not_mem_nil, or_false] at h
      rcases h with rfl | rfl
      · exact ⟨r.reverse ++ [d], [], by simp, by decide⟩
      · exact ⟨r.reverse, [c], by simp, by simp⟩

/-- In a sequence of items every expression is closed. -/
theorem Derivation.not_endsInExpression (d : Derivation) : ¬ EndsInExpression d.text := by
  rintro ⟨before, inner, htext, hinner⟩
  obtain ⟨ds, i, ds', u, v, rfl, hitem, rfl, rfl⟩ := Text.flatMap_eq_append_cons htext
  rw [List.mem_append, not_or] at hinner
  cases i with
  | char c hl hbrace hpercent =>
    have hmem : ('{' : CodePoint) ∈ [c] := by
      have : [c] = u ++ ('{' : CodePoint) :: v := hitem
      simp [this]
    exact hbrace (List.mem_singleton.1 hmem).symm
  | triplet p =>
    have hmem : ('{' : CodePoint) ∈ p.text := by
      have : p.text = u ++ ('{' : CodePoint) :: v := hitem
      simp [this]
    exact Text.not_mem_of_class p.text_isNameText (by decide) hmem
  | expression e =>
    obtain ⟨body, hbody, hopen, -⟩ := e.exists_inner
    have htext : ('{' : CodePoint) :: (body ++ [('}' : CodePoint)]) = u ++ ('{' : CodePoint) :: v := by
      rw [← List.cons_append, ← hbody]
      exact hitem
    -- the brace that opens it is its first character, so the one that closes it comes behind
    cases u with
    | nil =>
      obtain ⟨-, rfl⟩ := List.cons.inj htext
      exact hinner.1 (by simp)
    | cons c u =>
      obtain ⟨-, htail⟩ := List.cons.inj htext
      have hmem : ('{' : CodePoint) ∈ body ++ [('}' : CodePoint)] := by simp [htail]
      rcases List.mem_append.1 hmem with h | h
      · exact hopen h
      · exact absurd (List.mem_singleton.1 h) (by decide)

theorem PartialName.text_isNameText (p : PartialName) : ∀ c ∈ p.text, c.isNameText := by
  intro c hc
  cases p with
  | empty => simp [PartialName.text] at hc
  | units n dotted =>
    rcases List.mem_append.1 hc with h | h
    · exact n.text_isNameText c h
    · cases dotted with
      | false => simp at h
      | true =>
        obtain rfl := List.mem_singleton.1 h
        decide

/-- The last character of what stands before a variable is neither a colon nor a zero. -/
theorem Opening.exists_last (o : Opening) :
    ∃ t c, o.text = t ++ [c] ∧ c ≠ (':' : CodePoint) ∧ c ≠ ('0' : CodePoint) := by
  rcases List.eq_nil_or_concat o.specs with hnil | ⟨specs, v, hspecs⟩
  · have hsymbol : ∀ op ∈ Operator.all, ∃ t c, ('{' : CodePoint) :: op.symbol = t ++ [c] ∧ c ≠ (':' : CodePoint) ∧
        c ≠ ('0' : CodePoint) := by
      intro op hop
      refine ⟨(('{' : CodePoint) :: op.symbol).dropLast, (('{' : CodePoint) :: op.symbol).getLast
        (List.cons_ne_nil _ _), (List.dropLast_concat_getLast _).symm, ?_⟩
      revert op
      decide
    obtain ⟨t, c, ht, hc⟩ := hsymbol o.operator o.operator_mem
    refine ⟨o.items.text ++ t, c, ?_, hc⟩
    rw [text, hnil, List.append_assoc, ← ht]
    simp [variablesText]
  · refine ⟨o.items.text ++ ('{' : CodePoint) :: (o.operator.symbol ++ (variablesText specs ++ v.text)), ',', ?_,
      by decide, by decide⟩
    simp [text, hspecs, variablesText]

theorem not_endsInZeros_concat {t : Text} {c : CodePoint} (hcolon : c ≠ ':') (hzero : c ≠ '0') :
    ¬ EndsInZeros (t ++ [c]) := by
  rintro ⟨before, zeros, htext, hzeros⟩
  rcases Text.append_eq_append_cons htext with ⟨u, -, hc⟩ | ⟨v, -, rfl⟩
  · cases u with
    | nil => exact hcolon (List.cons.inj hc).1
    | cons d u => simp at hc
  · exact hzero (hzeros c (by simp))

/-- No colon stands in a name, and what stands before the name does not end in zeros. -/
theorem Opening.not_endsInZeros (o : Opening) (p : PartialName) : ¬ EndsInZeros (o.text ++ p.text) := by
  rintro ⟨before, zeros, htext, hzeros⟩
  rcases Text.append_eq_append_cons htext with ⟨u, -, hp⟩ | ⟨v, ho, rfl⟩
  · have hnot : (':' : CodePoint) ∉ p.text := Text.not_mem_of_class p.text_isNameText (by decide)
    exact hnot (by simp [hp])
  · obtain ⟨t, c, hlast, hcolon, hzero⟩ := o.exists_last
    have hends : EndsInZeros o.text := ⟨before, v, ho, fun d hd => hzeros d (List.mem_append_left _ hd)⟩
    rw [hlast] at hends
    exact not_endsInZeros_concat hcolon hzero hends

theorem TripletDigits.length_lt {digit : Bool} {digits : Text} (h : TripletDigits digit digits) :
    digits.length < 2 := by
  have hlength := h.1
  split at hlength <;> omega

/-! ## what has been read of a beginning -/

namespace Reader

variable {s s' : Reader} {t : Text}

theorem Behind.run (h : s.Behind t) {u : Text} (hrun : s.run u = .ok s') : s'.Behind (t ++ u) := by
  induction u generalizing s t with
  | nil =>
    obtain rfl := Except.ok.inj hrun
    rwa [List.append_nil]
  | cons c u ih =>
    cases hstep : s.step c with
    | error e =>
      rw [Reader.run, List.foldlM_cons, hstep] at hrun
      cases hrun
    | ok s₁ =>
      rw [run_cons hstep] at hrun
      have hbehind := ih (h.step hstep) hrun
      rwa [List.append_assoc] at hbehind

end Reader

/-- **The beginning of a template is read to its end**, and may be followed from there. -/
theorem Begins.exists_run {t : Text} (h : Begins t) :
    ∃ s : Reader, ({} : Reader).run t = .ok s ∧ s.Behind t ∧ ∃ more, s.place.Completes more := by
  obtain ⟨more, t', hparse⟩ := h
  have hread := ((Template.parse_eq_ok_iff (t ++ more) t').1 hparse).2
  rw [Reader.parseElements_eq] at hread
  cases hrun : ({} : Reader).run t with
  | error e =>
    rw [Reader.readAll, Reader.run, List.foldlM_append] at hread
    rw [Reader.run] at hrun
    rw [hrun] at hread
    cases hread
  | ok s =>
    rw [Reader.readAll_append hrun] at hread
    exact ⟨s, rfl, Reader.Behind.start.run hrun, more, Reader.completes_of_readAll hread⟩

/-! ## limits that are cut off -/

theorem significant_eq_nil_iff_zeros {digits : Text} :
    significant digits = [] ↔ ∀ c ∈ digits, c = ('0' : CodePoint) := by
  rw [significant, List.dropWhile_eq_nil_iff]
  simp

/-- What is reported of a colon with zeros behind it, or with nothing. -/
def zerosError (zeros : Text) (start : Nat) : ParseError :=
  if zeros = [] then .limitMissing start else .limitZero zeros start

theorem digitsValue_le_append (digits more : Text) : digitsValue digits ≤ digitsValue (digits ++ more) := by
  rw [digitsValue, digitsValue, List.foldl_append]
  exact le_foldl_digits more _

/-- Digits that can be gone on with to a limit make one, unless they are zeros. -/
theorem readLimit_of_append {digits more : Text} {start n : Nat} (hdigits : ∀ c ∈ digits, c.isDigit)
    (h : readLimit (digits ++ more) start = .ok n) (start' : Nat) :
    ((∀ c ∈ digits, c = ('0' : CodePoint)) ∧ readLimit digits start' = .error (.malformed (zerosError digits start'))) ∨
    (¬ (∀ c ∈ digits, c = ('0' : CodePoint)) ∧ ∃ k, readLimit digits start' = .ok k) := by
  have hshort : ¬ digits.length > maxDigits ∧ ¬ digitsValue digits > maxLimit := by
    have hvalue := digitsValue_le_append digits more
    unfold readLimit at h
    split at h
    · cases h
    split at h
    · cases h
    next hlong =>
    split at h
    · cases h
    next hhigh =>
    rw [List.length_append] at hlong
    omega
  rw [← significant_eq_nil_iff_zeros, significant_eq_nil_iff hdigits]
  by_cases hzero : digitsValue digits = 0
  · refine .inl ⟨hzero, ?_⟩
    unfold readLimit zerosError
    rw [if_neg hshort.1, if_neg hshort.2, if_pos hzero]
    split <;> rfl
  · have hne : digits ≠ [] := by
      rintro rfl
      exact hzero rfl
    refine .inr ⟨hzero, digitsValue digits, ?_⟩
    rw [readLimit, if_neg hne, if_neg hshort.1, if_neg hshort.2, if_neg hzero]

theorem colon_not_mem_zeros {zeros : Text} (h : ∀ c ∈ zeros, c = ('0' : CodePoint)) : (':' : CodePoint) ∉ zeros := by
  intro hmem
  exact absurd (h _ hmem) (by decide)

/-- What stands behind the last colon is all that can be zeros behind a colon. -/
theorem zeros_unique {before before' zeros zeros' : Text} (hzeros : ∀ c ∈ zeros, c = ('0' : CodePoint))
    (hzeros' : (':' : CodePoint) ∉ zeros')
    (h : before ++ (':' : CodePoint) :: zeros = before' ++ (':' : CodePoint) :: zeros') :
    before = before' ∧ zeros = zeros' := by
  have hcolon := colon_not_mem_zeros hzeros
  have hreverse := congrArg List.reverse h
  simp only [List.reverse_append, List.reverse_cons, List.append_assoc, List.singleton_append] at hreverse
  obtain ⟨hz, hb⟩ := Text.append_cons_inj (by simpa using hcolon) (by simpa using hzeros') hreverse
  exact ⟨List.reverse_inj.1 hb, List.reverse_inj.1 hz⟩

/-! ## the end of the text -/

/-- **Where a text is cut off within an expression**, the end of the expression is missed; only the digits of a limit
are looked at before. -/
theorem Reader.Behind.finish_cases {s : Reader} {t more : Text} (hs : s.Behind t) (hmore : s.place.Completes more)
    (hinside : EndsInExpression t) (htriplet : ¬ EndsInTriplet t) :
    (¬ EndsInZeros t ∧ s.finish = .error (.malformed .unterminated)) ∨
    ∃ before zeros, t = before ++ (':' : CodePoint) :: zeros ∧ (∀ c ∈ zeros, c = ('0' : CodePoint)) ∧
      s.finish = .error (.malformed (zerosError zeros (before ++ [(':' : CodePoint)]).length)) := by
  obtain ⟨ht, hoffset⟩ := hs
  unfold Reader.finish
  generalize s.place = place at ht hmore
  cases place with
  | literal =>
    obtain ⟨d, rfl⟩ := ht
    exact absurd hinside d.not_endsInExpression
  | triplet digit =>
    obtain ⟨d, digits, hdigits, rfl⟩ := ht
    exact absurd ⟨d.text, digits, rfl, TripletDigits.length_lt hdigits⟩ htriplet
  | opened =>
    obtain ⟨d, rfl⟩ := ht
    exact .inl ⟨not_endsInZeros_concat (by decide) (by decide), rfl⟩
  | reference op before place =>
    obtain ⟨o, -, -, ht⟩ := ht
    cases place with
    | name read =>
      obtain ⟨p, -, rfl⟩ := ht
      exact .inl ⟨o.not_endsInZeros p, rfl⟩
    | triplet read digit =>
      obtain ⟨p, digits, hdigits, -, rfl⟩ := ht
      refine absurd ⟨o.text ++ p.text, digits, ?_, TripletDigits.length_lt hdigits⟩ htriplet
      rw [List.append_assoc]
    | limit name digits =>
      obtain ⟨n, -, hdigits, rfl⟩ := ht
      obtain ⟨more', -, start, k, -, hlimit, -, -⟩ := hmore
      have hdigits' : ∀ c ∈ digits.reverse, c.isDigit := by simpa using hdigits
      have hstart : s.offset - digits.length = (o.text ++ n.text ++ [(':' : CodePoint)]).length := by
        rw [hoffset]
        simp only [List.length_append, List.length_cons, List.length_reverse, List.length_nil]
        omega
      rw [← List.append_assoc]
      dsimp only
      rw [hstart]
      rcases readLimit_of_append hdigits' hlimit (o.text ++ n.text ++ [(':' : CodePoint)]).length with
        ⟨hzeros, herror⟩ | ⟨hnot, k, hok⟩
      · exact .inr ⟨_, _, rfl, hzeros, by rw [herror]; rfl⟩
      · refine .inl ⟨?_, by rw [hok]; rfl⟩
        rintro ⟨before, zeros, heq, hzeros⟩
        have hcolon : (':' : CodePoint) ∉ digits.reverse := Text.not_mem_of_class hdigits' (by decide)
        obtain ⟨-, rfl⟩ := zeros_unique hzeros hcolon heq.symm
        exact hnot hzeros
    | exploded name =>
      obtain ⟨n, -, rfl⟩ := ht
      rw [← List.append_assoc]
      exact .inl ⟨not_endsInZeros_concat (by decide) (by decide), rfl⟩

/-- **An expression that is cut off.**  A text that ends within an expression and not within a percent triplet, and that
can be gone on with to a template, is reported to lack the end of the expression, without an offset, unless it ends in a
colon or in zeros behind one.  Then the limit is reported, with the offset behind the colon. -/
theorem parse_unterminated_iff {t : Text} (hinside : EndsInExpression t) (htriplet : ¬ EndsInTriplet t)
    (hbegins : Begins t) :
    ((∃ e, Template.parse t = .error (.malformed e) ∧ e.kind = .unterminatedExpression ∧ e.offset = none) ↔
      ¬ EndsInZeros t) ∧
    ∀ before zeros, t = before ++ (':' : CodePoint) :: zeros → (∀ c ∈ zeros, c = ('0' : CodePoint)) →
      Template.parse t = .error (.malformed (zerosError zeros (before ++ [(':' : CodePoint)]).length)) := by
  obtain ⟨s, hrun, hbehind, more, hmore⟩ := hbegins.exists_run
  have hparse : ∀ {f : ParseFailure}, s.finish = .error f → Template.parse t = .error f := by
    intro f hf
    rw [Template.parse_eq_error_iff, Reader.parseElements_eq, Reader.readAll, hrun]
    exact hf
  rcases hbehind.finish_cases hmore hinside htriplet with ⟨hnot, hfinish⟩ | ⟨before, zeros, rfl, hzeros, hfinish⟩
  · refine ⟨⟨fun _ => hnot, fun _ => ⟨.unterminated, hparse hfinish, rfl, rfl⟩⟩, ?_⟩
    intro before zeros htext hzeros
    exact absurd ⟨before, zeros, htext, hzeros⟩ hnot
  · constructor
    · constructor
      · rintro ⟨e, he, hkind, -⟩
        rw [hparse hfinish] at he
        cases he
        unfold zerosError at hkind
        split at hkind <;> cases hkind
      · intro hnot
        exact absurd ⟨before, zeros, rfl, hzeros⟩ hnot
    · intro before' zeros' htext hzeros'
      obtain ⟨rfl, rfl⟩ := zeros_unique hzeros (colon_not_mem_zeros hzeros') htext
      exact hparse hfinish

/-- A name that is cut off behind a dot, in the second variable. -/
theorem parse_unterminated_iff_dot :
    let t : Text := "%2F\x7b?a:10,b%20."
    EndsInExpression t ∧ ¬ EndsInTriplet t ∧ Begins t ∧ ¬ EndsInZeros t ∧
      ∃ e, Template.parse t = .error (.malformed e) ∧ e.kind = .unterminatedExpression ∧ e.offset = none := by
  intro t
  have hinside : EndsInExpression t := ⟨"%2F", "?a:10,b%20.", rfl, by decide⟩
  have htriplet : ¬ EndsInTriplet t := by
    rw [endsInTriplet_iff]
    decide
  have hparse : ∃ t', Template.parse (t ++ ("c\x7d" : Text)) = .ok t' := ⟨_, rfl⟩
  have hzeros : ¬ EndsInZeros (("%2F\x7b?a:10,b%20" : Text) ++ [('.' : CodePoint)]) :=
    not_endsInZeros_concat (by decide) (by decide)
  exact ⟨hinside, htriplet, ⟨_, hparse⟩, hzeros, (parse_unterminated_iff hinside htriplet ⟨_, hparse⟩).1.2 hzeros⟩

/-- A colon at the end, with nothing behind it yet. -/
theorem parse_not_unterminated_colon :
    let t : Text := "\x7ba:"
    (∀ t', Template.parse t ≠ .ok t') ∧ EndsInExpression t ∧ ¬ EndsInTriplet t ∧ Begins t ∧
      Template.parse t = .error (.malformed (.limitMissing 3)) ∧
      ¬ ∃ e, Template.parse t = .error (.malformed e) ∧ e.kind = .unterminatedExpression ∧ e.offset = none := by
  intro t
  have hparse : Template.parse t = .error (.malformed (.limitMissing 3)) := rfl
  have htriplet : ¬ EndsInTriplet t := by
    rw [endsInTriplet_iff]
    decide
  refine ⟨?_, ⟨[], "a:", rfl, by decide⟩, htriplet, ⟨"1\x7d", _, rfl⟩, hparse, ?_⟩
  · intro t' ht'
    rw [hparse] at ht'
    cases ht'
  · rintro ⟨e, he, hkind, -⟩
    rw [hparse] at he
    cases he
    cases hkind

end UriTemplate
