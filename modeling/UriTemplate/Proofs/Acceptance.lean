import UriTemplate.Proofs.Reading

/-!
# What a reader accepts

For every place in a template, the texts that lead from there to the end of one.

* `AfterVariable`, `AfterUnit` — what may follow a variable, and a unit of a name;
* `ReferencePlace.Completes`, `Place.Completes` — what may follow a place;
* `Reader.nameStep_cases`, `Reader.Stepped` — all that one step within a name, and any one step, can do;
* `Reader.completes_of_step`, `Reader.completes_of_readAll` — one step, and all steps to the end;
* `parseElements_eq_ok_iff` — a text is read exactly if it has a derivation, which is then the only one.
-/

namespace UriTemplate

open CodePoint

/-! ## what may follow -/

/-- The rest of a template behind a variable. -/
inductive AfterVariable : Text → Prop
  | close (d : Derivation) : AfterVariable (('}' : CodePoint) :: d.text)
  | comma (v : VariableSpec) {t : Text} (h : AfterVariable t) : AfterVariable ((',' : CodePoint) :: (v.text ++ t))

theorem AfterVariable.exists_listed {t : Text} (h : AfterVariable t) (v : VariableSpec) :
    ∃ (vs : List VariableSpec) (d : Derivation), v.text ++ t = v.listed vs ++ ('}' : CodePoint) :: d.text := by
  induction h generalizing v with
  | close d => exact ⟨[], d, by rw [VariableSpec.listed_nil]⟩
  | comma w _ ih =>
    obtain ⟨vs, d, h⟩ := ih w
    exact ⟨w :: vs, d, by rw [h, VariableSpec.listed_cons, List.append_assoc, List.cons_append]⟩

/-- The rest of a template behind a unit of a name. -/
def AfterUnit (t : Text) : Prop :=
  ∃ (us : List DottedUnit) (m : Modifier) (r : Text),
    t = us.flatMap DottedUnit.text ++ (m.text ++ r) ∧ AfterVariable r

/-- The rest of a template from the beginning of a variable on. -/
def AtVariable (t : Text) : Prop := ∃ (v : VariableSpec) (r : Text), t = v.text ++ r ∧ AfterVariable r

theorem AfterUnit.cons {t : Text} (h : AfterUnit t) (u : DottedUnit) : AfterUnit (u.text ++ t) := by
  obtain ⟨us, m, r, rfl, hr⟩ := h
  exact ⟨u :: us, m, r, by rw [List.flatMap_cons, List.append_assoc], hr⟩

theorem AfterUnit.atVariable {t : Text} (h : AfterUnit t) (u : NameUnit) : AtVariable (u.text ++ t) := by
  obtain ⟨us, m, r, rfl, hr⟩ := h
  refine ⟨⟨⟨u, us⟩, m⟩, r, ?_, hr⟩
  rw [VariableSpec.text, Name.text, List.append_assoc, List.append_assoc]

theorem AfterVariable.afterUnit {t : Text} (h : AfterVariable t) (m : Modifier) : AfterUnit (m.text ++ t) :=
  ⟨[], m, t, rfl, h⟩

theorem AtVariable.exists_expression {op : Operator} (hop : op ∈ Operator.all) {t : Text} (h : AtVariable t) :
    ∃ (e : ExpressionSpec) (d : Derivation), ('{' : CodePoint) :: (op.symbol ++ t) = e.text ++ d.text := by
  obtain ⟨v, r, rfl, hr⟩ := h
  obtain ⟨vs, d, h⟩ := hr.exists_listed v
  refine ⟨⟨op, hop, v, vs⟩, d, ?_⟩
  rw [h]
  simp [ExpressionSpec.text, ExpressionSpec.body]

/-- What may follow a place within a variable. -/
def ReferencePlace.Completes : ReferencePlace → Text → Prop
  | .name [], t => AtVariable t
  | .name (c :: _), t => if c = '.' then ∃ (u : NameUnit) (r : Text), t = u.text ++ r ∧ AfterUnit r else AfterUnit t
  | .triplet _ false, t => ∃ (a b : CodePoint) (r : Text), a.isHexDigit ∧ b.isHexDigit ∧ t = a :: b :: r ∧ AfterUnit r
  | .triplet _ true, t => ∃ (b : CodePoint) (r : Text), b.isHexDigit ∧ t = b :: r ∧ AfterUnit r
  | .limit _ digits, t =>
    ∃ (more r : Text) (start n : Nat), (∀ c ∈ more, c.isDigit) ∧ readLimit (digits.reverse ++ more) start = .ok n ∧
      t = more ++ r ∧ AfterVariable r
  | .exploded _, t => AfterVariable t

/-- What may follow a place. -/
def Place.Completes : Place → Text → Prop
  | .literal, t => ∃ d : Derivation, t = d.text
  | .triplet false, t =>
    ∃ (a b : CodePoint) (d : Derivation), a.isHexDigit ∧ b.isHexDigit ∧ t = a :: b :: d.text
  | .triplet true, t => ∃ (b : CodePoint) (d : Derivation), b.isHexDigit ∧ t = b :: d.text
  | .opened, t => ∃ (e : ExpressionSpec) (d : Derivation), ('{' : CodePoint) :: t = e.text ++ d.text
  | .reference _ _ place, t => place.Completes t

theorem ReferencePlace.completes_name {c : CodePoint} (hc : c ≠ '.') (read t : Text) :
    (ReferencePlace.name (c :: read)).Completes t ↔ AfterUnit t := by
  rw [Completes, if_neg hc]

theorem ReferencePlace.completes_dot (read t : Text) :
    (ReferencePlace.name ('.' :: read)).Completes t ↔ ∃ (u : NameUnit) (r : Text), t = u.text ++ r ∧ AfterUnit r := by
  rw [Completes, if_pos rfl]

/-- A unit may follow wherever a name may go on. -/
theorem ReferencePlace.completes_unit (read : Text) (u : NameUnit) {t : Text} (h : AfterUnit t) :
    (ReferencePlace.name read).Completes (u.text ++ t) := by
  cases read with
  | nil => exact h.atVariable u
  | cons c read =>
    rw [Completes]
    split
    · exact ⟨u, t, rfl, h⟩
    · exact h.cons ⟨false, u⟩

theorem exists_limit {digits : Text} {start n : Nat} (hd : ∀ c ∈ digits, c.isDigit)
    (h : readLimit digits start = .ok n) : ∃ l : Limit, l.digits = digits := by
  unfold readLimit at h
  split at h
  · cases h
  next h1 =>
  split at h
  · cases h
  next h2 =>
  split at h
  · cases h
  next h3 =>
  split at h
  · cases h
  next h4 =>
  exact ⟨⟨digits, hd, List.length_pos_iff.2 h1, Nat.not_lt.1 h2, Nat.pos_iff_ne_zero.2 h4, Nat.not_lt.1 h3⟩, rfl⟩

namespace Operator

theorem symbol_of_ofChar? {c : CodePoint} {op : Operator} (h : ofChar? c = some op) : op ∈ all ∧ op.symbol = [c] := by
  obtain ⟨e, he, rfl⟩ := Option.map_eq_some_iff.1 h
  have hmem := List.mem_of_find?_eq_some he
  have hc : c = e.1 := by simpa using List.find?_some he
  rw [hc]
  exact (by decide : ∀ e ∈ table, e.2.1 ∈ all ∧ e.2.1.symbol = [(e.1 : CodePoint)]) e hmem

end Operator

/-! ## one step -/

namespace Reader

variable {s s' : Reader}

theorem complete_place (s : Reader) (op : Operator) (before : List VariableReference) (v : VariableReference)
    (c : CodePoint) :
    (s.complete op before v c).place = if c = ',' then .reference op (v :: before) (.name []) else .literal := by
  unfold complete
  split <;> rfl

/-- **All that a step within a name can do.** -/
theorem nameStep_cases {op : Operator} {before : List VariableReference} {read : Text} {c : CodePoint}
    (h : s.nameStep op before read c = .ok s') :
    ((c = ',' ∨ c = '}') ∧ EndsInUnit read ∧ s' = s.complete op before { name := read.reverse } c) ∨
    (c = ':' ∧ EndsInUnit read ∧ s' = s.take c (.reference op before (.limit read.reverse []))) ∨
    (c = '*' ∧ EndsInUnit read ∧ s' = s.take c (.reference op before (.exploded read.reverse))) ∨
    (c = '.' ∧ EndsInUnit read ∧ s' = s.take c (.reference op before (.name (c :: read)))) ∨
    (c = '%' ∧ s' = s.take c (.reference op before (.triplet (c :: read) false))) ∨
    (c.isNameChar ∧ s' = s.take c (.reference op before (.name (c :: read)))) := by
  unfold nameStep at h
  split at h
  · next hc =>
    cases read with
    | nil => cases h
    | cons d r =>
      simp only at h
      split at h
      · cases h
      next hd =>
      have hread : EndsInUnit (d :: r) := ⟨d, r, rfl, hd⟩
      split at h
      · next hcolon => exact .inr (.inl ⟨hcolon, hread, (Except.ok.inj h).symm⟩)
      next hcolon =>
      split at h
      · next hstar => exact .inr (.inr (.inl ⟨hstar, hread, (Except.ok.inj h).symm⟩))
      next hstar =>
      refine .inl ⟨?_, hread, (Except.ok.inj h).symm⟩
      simpa [hcolon, hstar] using hc
  split at h
  · next hdot =>
    split at h
    · cases h
    next hread =>
    rw [not_or] at hread
    obtain ⟨d, r, rfl⟩ := List.exists_cons_of_ne_nil hread.1
    exact .inr (.inr (.inr (.inl ⟨hdot, ⟨d, r, rfl, by simpa using hread.2⟩, (Except.ok.inj h).symm⟩)))
  split at h
  · next hp => exact .inr (.inr (.inr (.inr (.inl ⟨hp, (Except.ok.inj h).symm⟩))))
  split at h
  · next hc => exact .inr (.inr (.inr (.inr (.inr ⟨hc, (Except.ok.inj h).symm⟩))))
  · cases h

/-- All that one more character can do, by the place of the reader.  For names see `nameStep_cases`. -/
inductive Stepped (s : Reader) (c : CodePoint) : Place → Reader → Prop
  | brace (hc : c = '{') :
      Stepped s c .literal { offset := s.offset + 1, elements := s.closed, current := [c], place := .opened }
  | percent (hc : c = '%') : Stepped s c .literal (s.take c (.triplet false))
  | literal (hc : c.isLiteral) (hbrace : c ≠ '{') (hpercent : c ≠ '%') : Stepped s c .literal (s.take c .literal)
  | firstDigit (hc : c.isHexDigit) : Stepped s c (.triplet false) (s.take c (.triplet true))
  | secondDigit (hc : c.isHexDigit) : Stepped s c (.triplet true) (s.take c .literal)
  | operator {op : Operator} (hop : Operator.ofChar? c = some op) :
      Stepped s c .opened (s.take c (.reference op [] (.name [])))
  | opened {s' : Reader} (hop : Operator.ofChar? c = none) (h : s.nameStep .simple [] [] c = .ok s') :
      Stepped s c .opened s'
  | name {op : Operator} {before : List VariableReference} {read : Text} {s' : Reader}
      (h : s.nameStep op before read c = .ok s') : Stepped s c (.reference op before (.name read)) s'
  | nameFirstDigit {op : Operator} {before : List VariableReference} {read : Text} (hc : c.isHexDigit) :
      Stepped s c (.reference op before (.triplet read false)) (s.take c (.reference op before (.triplet (c :: read) true)))
  | nameSecondDigit {op : Operator} {before : List VariableReference} {read : Text} (hc : c.isHexDigit) :
      Stepped s c (.reference op before (.triplet read true)) (s.take c (.reference op before (.name (c :: read))))
  | limitDigit {op : Operator} {before : List VariableReference} {name digits : Text} (hc : c.isDigit) :
      Stepped s c (.reference op before (.limit name digits)) (s.take c (.reference op before (.limit name (c :: digits))))
  | limitEnd {op : Operator} {before : List VariableReference} {name digits : Text} {limit : Nat}
      (hlimit : readLimit digits.reverse (s.offset - digits.length) = .ok limit) (hc : c = ',' ∨ c = '}') :
      Stepped s c (.reference op before (.limit name digits)) (s.complete op before { name, limit := some limit } c)
  | explodeEnd {op : Operator} {before : List VariableReference} {name : Text} (hc : c = ',' ∨ c = '}') :
      Stepped s c (.reference op before (.exploded name)) (s.complete op before { name, explode := true } c)

theorem stepped_of_referenceStep {op : Operator} {before : List VariableReference} {place : ReferencePlace}
    {c : CodePoint} (h : s.referenceStep op before place c = .ok s') : Stepped s c (.reference op before place) s' := by
  cases place with
  | name read => exact .name h
  | triplet read digit =>
    rw [referenceStep] at h
    split at h
    · next hc =>
      obtain rfl := Except.ok.inj h
      cases digit with
      | false => exact .nameFirstDigit hc
      | true => exact .nameSecondDigit hc
    · cases h
  | limit name digits =>
    rw [referenceStep] at h
    split at h
    · next hc =>
      obtain rfl := Except.ok.inj h
      exact .limitDigit hc
    · cases hlimit : readLimit digits.reverse (s.offset - digits.length) with
      | error e =>
        rw [hlimit] at h
        cases h
      | ok n =>
        rw [hlimit] at h
        simp only [bind, Except.bind] at h
        split at h
        · next hc =>
          obtain rfl := Except.ok.inj h
          exact .limitEnd hlimit (ends_iff.1 hc)
        · cases h
  | exploded name =>
    rw [referenceStep] at h
    split at h
    · next hc =>
      obtain rfl := Except.ok.inj h
      exact .explodeEnd (ends_iff.1 hc)
    · cases h

theorem stepped_of_step {c : CodePoint} (h : s.step c = .ok s') : Stepped s c s.place s' := by
  unfold step at h
  split at h
  · next hs =>
    rw [hs]
    split at h
    · next hc =>
      obtain rfl := Except.ok.inj h
      exact .brace hc
    next hbrace =>
    split at h
    · next hc =>
      obtain rfl := Except.ok.inj h
      exact .percent hc
    next hpercent =>
    split at h
    · next hc =>
      obtain rfl := Except.ok.inj h
      exact .literal hc hbrace hpercent
    · cases h
  · next digit hs =>
    rw [hs]
    split at h
    · next hc =>
      obtain rfl := Except.ok.inj h
      cases digit with
      | false => exact .firstDigit hc
      | true => exact .secondDigit hc
    · cases h
  · next hs =>
    rw [hs]
    split at h
    · next op hop =>
      obtain rfl := Except.ok.inj h
      exact .operator hop
    · next hop => exact .opened hop h
  · next op before place hs =>
    rw [hs]
    exact stepped_of_referenceStep h

/-- Behind the end of a variable, the rest of a template is what follows the variable. -/
theorem afterVariable_of_complete {op : Operator} {before : List VariableReference} {v : VariableReference}
    {c : CodePoint} (hc : c = ',' ∨ c = '}') {t : Text} (h : (s.complete op before v c).place.Completes t) :
    AfterVariable (c :: t) := by
  rw [complete_place] at h
  rcases hc with rfl | rfl
  · obtain ⟨w, r, rfl, hr⟩ := (h : AtVariable t)
    exact .comma w hr
  · obtain ⟨d, rfl⟩ := (h : ∃ d : Derivation, t = d.text)
    exact .close d

theorem completes_of_nameStep {op : Operator} {before : List VariableReference} {read : Text} {c : CodePoint} {t : Text}
    (h : s.nameStep op before read c = .ok s') (ht : s'.place.Completes t) :
    (ReferencePlace.name read).Completes (c :: t) := by
  rcases nameStep_cases h with ⟨hc, ⟨d, r, rfl, hd⟩, rfl⟩ | ⟨rfl, ⟨d, r, rfl, hd⟩, rfl⟩ | ⟨rfl, ⟨d, r, rfl, hd⟩, rfl⟩ |
    ⟨rfl, ⟨d, r, rfl, hd⟩, rfl⟩ | ⟨rfl, rfl⟩ | ⟨hc, rfl⟩
  · rw [ReferencePlace.completes_name hd]
    exact (afterVariable_of_complete hc ht).afterUnit .none
  · rw [ReferencePlace.completes_name hd]
    obtain ⟨more, r, start, n, hmore, hn, rfl, hr⟩ := ht
    obtain ⟨l, rfl⟩ := exists_limit hmore hn
    exact hr.afterUnit (.limit l)
  · rw [ReferencePlace.completes_name hd]
    exact AfterVariable.afterUnit ht .explode
  · rw [ReferencePlace.completes_name hd]
    obtain ⟨u, r', rfl, hr⟩ := (ReferencePlace.completes_dot (d :: r) t).1 ht
    exact hr.cons ⟨true, u⟩
  · obtain ⟨a, b, r, ha, hb, rfl, hr⟩ := ht
    exact ReferencePlace.completes_unit read (.triplet ⟨a, b, ha, hb⟩) hr
  · have hafter := (ReferencePlace.completes_name (ne_of_class hc (by decide)) read t).1 ht
    exact ReferencePlace.completes_unit read (.char c hc) hafter

theorem completes_of_step {c : CodePoint} {t : Text} (h : s.step c = .ok s') (ht : s'.place.Completes t) :
    s.place.Completes (c :: t) := by
  have hstep := stepped_of_step h
  generalize s.place = place at hstep ⊢
  cases hstep with
  | brace hc =>
    obtain ⟨e, d, he⟩ := ht
    exact ⟨.expression e :: d, by rw [hc, he]; rfl⟩
  | percent hc =>
    obtain ⟨a, b, d, ha, hb, rfl⟩ := ht
    exact ⟨.triplet ⟨a, b, ha, hb⟩ :: d, by rw [hc]; rfl⟩
  | literal hc hbrace hpercent =>
    obtain ⟨d, rfl⟩ := ht
    exact ⟨.char c hc hbrace hpercent :: d, rfl⟩
  | firstDigit hc =>
    obtain ⟨b, d, hb, rfl⟩ := ht
    exact ⟨c, b, d, hc, hb, rfl⟩
  | secondDigit hc =>
    obtain ⟨d, rfl⟩ := ht
    exact ⟨c, d, hc, rfl⟩
  | operator hop =>
    obtain ⟨hmem, hsym⟩ := Operator.symbol_of_ofChar? hop
    have hexpression := AtVariable.exists_expression hmem ht
    rwa [hsym] at hexpression
  | opened hop hname =>
    have hvariable : AtVariable (c :: t) := completes_of_nameStep hname ht
    exact hvariable.exists_expression (by decide : Operator.simple ∈ Operator.all)
  | name hname => exact completes_of_nameStep hname ht
  | nameFirstDigit hc =>
    obtain ⟨b, r, hb, rfl, hr⟩ := ht
    exact ⟨c, b, r, hc, hb, rfl, hr⟩
  | @nameSecondDigit op before read hc =>
    have hafter := (ReferencePlace.completes_name (ne_of_class hc (by decide)) read t).1 ht
    exact ⟨c, t, hc, rfl, hafter⟩
  | limitDigit hc =>
    obtain ⟨more, r, start, n, hmore, hn, rfl, hr⟩ := ht
    refine ⟨c :: more, r, start, n, List.forall_mem_cons.2 ⟨hc, hmore⟩, ?_, rfl, hr⟩
    rwa [List.reverse_cons, List.append_assoc] at hn
  | @limitEnd op before name digits n hlimit hc =>
    refine ⟨[], c :: t, s.offset - digits.length, n, by simp, ?_, rfl, afterVariable_of_complete hc ht⟩
    rw [List.append_nil]
    exact hlimit
  | explodeEnd hc => exact afterVariable_of_complete hc ht

theorem place_of_finish {es : List Element} (h : s.finish = .ok es) : s.place = .literal := by
  unfold finish at h
  split at h
  · assumption
  · cases h
  · cases h
  · split at h
    · cases h
    · next digits _ =>
      cases hlimit : readLimit digits.reverse (s.offset - digits.length) <;> rw [hlimit] at h <;> cases h
    · cases h
    · cases h

/-- What a reader accepts may follow its place. -/
theorem completes_of_readAll {t : Text} {es : List Element} (h : s.readAll t = .ok es) : s.place.Completes t := by
  induction t generalizing s with
  | nil =>
    rw [place_of_finish h]
    exact ⟨[], rfl⟩
  | cons c t ih =>
    cases hstep : s.step c with
    | error e =>
      rw [readAll, run, List.foldlM_cons, hstep] at h
      cases h
    -- the rest may follow the reader behind `c`, so `c` and the rest may follow this one
    | ok s' => exact completes_of_step hstep (ih (by rwa [readAll_cons hstep] at h))

end Reader

theorem exists_derivation {t : Text} {es : List Element} (h : parseElements t = .ok es) :
    ∃ d : Derivation, d.text = t ∧ d.elements = es := by
  obtain ⟨d, rfl⟩ := Reader.completes_of_readAll (s := {}) h
  rw [parseElements_text] at h
  exact ⟨d, rfl, Except.ok.inj h⟩

/-- **A text is read exactly if it has a derivation.**  The elements are those of the derivation, and the text has
no other one. -/
theorem parseElements_eq_ok_iff (t : Text) (es : List Element) :
    parseElements t = .ok es ↔
      ∃ d : Derivation, d.text = t ∧ d.elements = es ∧ ∀ d' : Derivation, d'.text = t → d' = d := by
  constructor
  · intro h
    obtain ⟨d, rfl, rfl⟩ := exists_derivation h
    exact ⟨d, rfl, rfl, fun d' hd => Derivation.text_inj hd⟩
  · rintro ⟨d, rfl, rfl, -⟩
    exact parseElements_text d

end UriTemplate
