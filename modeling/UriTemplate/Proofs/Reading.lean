import UriTemplate.Proofs.Unambiguous

/-!
# Reading the text of a derivation

The reader accepts every text of the grammar and gives the elements of its derivation.

* `Reader.readAll` — what a reader makes of the rest of a text;
* `Reader.takeAll` — the reader after some more characters of the current element;
* `Reader.run_name`, `Reader.run_variable`, `Reader.run_expression` — one lemma for each production;
* `Reader.readAll_text` — a reader between two items, before the text of a derivation.
-/

namespace UriTemplate

open CodePoint

namespace Reader

/-! ## runs -/

/-- The elements of a text whose beginning has been read. -/
def readAll (s : Reader) (t : Text) : Except ParseFailure (List Element) := do (← s.run t).finish

theorem parseElements_eq (t : Text) : parseElements t = ({ : Reader }).readAll t := rfl

@[simp] theorem run_nil (s : Reader) : s.run [] = .ok s := rfl

theorem run_cons {s s' : Reader} {c : CodePoint} (h : s.step c = .ok s') (t : Text) : s.run (c :: t) = s'.run t := by
  rw [run, List.foldlM_cons, h]
  rfl

theorem run_append {s s' : Reader} {t : Text} (h : s.run t = .ok s') (u : Text) : s.run (t ++ u) = s'.run u := by
  rw [run, List.foldlM_append]
  rw [run] at h
  rw [h]
  rfl

theorem readAll_cons {s s' : Reader} {c : CodePoint} (h : s.step c = .ok s') (t : Text) :
    s.readAll (c :: t) = s'.readAll t := by
  rw [readAll, run_cons h, readAll]

theorem readAll_append {s s' : Reader} {t : Text} (h : s.run t = .ok s') (u : Text) :
    s.readAll (t ++ u) = s'.readAll u := by
  rw [readAll, run_append h, readAll]

/-! ## more of the current element -/

/-- The reader after `t`, which belongs to the current element. -/
def takeAll (s : Reader) (t : Text) (place : Place) : Reader :=
  { s with offset := s.offset + t.length, current := t.reverse ++ s.current, place }

variable (s : Reader)

theorem take_eq (c : CodePoint) (p : Place) : s.take c p = s.takeAll [c] p := rfl

@[simp] theorem takeAll_place (t : Text) (p : Place) : (s.takeAll t p).place = p := rfl

@[simp] theorem takeAll_offset (t : Text) (p : Place) : (s.takeAll t p).offset = s.offset + t.length := rfl

@[simp] theorem takeAll_elements (t : Text) (p : Place) : (s.takeAll t p).elements = s.elements := rfl

@[simp] theorem takeAll_current (t : Text) (p : Place) : (s.takeAll t p).current = t.reverse ++ s.current := rfl

@[simp] theorem takeAll_takeAll (t u : Text) (p q : Place) :
    (s.takeAll t p).takeAll u q = s.takeAll (t ++ u) q := by
  simp [takeAll, Nat.add_assoc]

/-! ## names -/

/-- What has been read of a name ends in a unit, not in a dot. -/
def EndsInUnit (read : Text) : Prop := ∃ c r, read = c :: r ∧ c ≠ '.'

theorem endsInUnit_append (u : NameUnit) (read : Text) : EndsInUnit (u.text.reverse ++ read) := by
  cases u with
  | char c hc => exact ⟨c, read, rfl, ne_of_class hc (by decide)⟩
  | triplet p => exact ⟨p.second, _, rfl, ne_of_class p.second_hex (by decide)⟩

theorem nameStep_nameChar {c : CodePoint} (hc : c.isNameChar) (op : Operator) (before : List VariableReference)
    (read : Text) :
    s.nameStep op before read c = .ok (s.takeAll [c] (.reference op before (.name (c :: read)))) := by
  have h1 : c.isAny [',', '}', ':', '*'] = false := by
    simp [ne_of_class hc (by decide : isNameChar ',' = false), ne_of_class hc (by decide : isNameChar '}' = false),
      ne_of_class hc (by decide : isNameChar ':' = false), ne_of_class hc (by decide : isNameChar '*' = false)]
  have h2 : c ≠ '.' := ne_of_class hc (by decide)
  have h3 : c ≠ '%' := ne_of_class hc (by decide)
  simp [nameStep, h1, h2, h3, hc, take_eq]

theorem nameStep_percent (op : Operator) (before : List VariableReference) (read : Text) :
    s.nameStep op before read '%' = .ok (s.takeAll ['%'] (.reference op before (.triplet ('%' :: read) false))) := by
  unfold nameStep
  rw [if_neg (by decide), if_neg (by decide), if_pos rfl]
  rfl

theorem nameStep_dot {read : Text} (h : EndsInUnit read) (op : Operator) (before : List VariableReference) :
    s.nameStep op before read '.' = .ok (s.takeAll ['.'] (.reference op before (.name ('.' :: read)))) := by
  obtain ⟨c, r, rfl, hc⟩ := h
  unfold nameStep
  rw [if_neg (by decide), if_pos rfl, if_neg (by simp [hc])]
  rfl

variable {s} {op : Operator} {before : List VariableReference}

theorem step_name {read : Text} (h : s.place = .reference op before (.name read)) (c : CodePoint) :
    s.step c = s.nameStep op before read c := by
  rw [step, h]
  rfl

theorem step_triplet_hex {read : Text} {digit : Bool} {c : CodePoint} (hc : c.isHexDigit)
    (h : s.place = .reference op before (.triplet read digit)) :
    s.step c = .ok (s.takeAll [c]
      (.reference op before (if digit then .name (c :: read) else .triplet (c :: read) true))) := by
  simp [step, h, referenceStep, hc, take_eq]

theorem run_unit {read : Text} (u : NameUnit) (h : s.place = .reference op before (.name read)) :
    s.run u.text = .ok (s.takeAll u.text (.reference op before (.name (u.text.reverse ++ read)))) := by
  cases u with
  | char c hc =>
    rw [NameUnit.text, run_cons ((step_name h c).trans (s.nameStep_nameChar hc op before read))]
    rfl
  | triplet p =>
    rw [NameUnit.text, Triplet.text, run_cons ((step_name h _).trans (s.nameStep_percent op before read)),
      run_cons (step_triplet_hex p.first_hex rfl), run_cons (step_triplet_hex p.second_hex rfl)]
    simp

theorem run_dottedUnit {read : Text} (u : DottedUnit) (hr : EndsInUnit read)
    (h : s.place = .reference op before (.name read)) :
    s.run u.text = .ok (s.takeAll u.text (.reference op before (.name (u.text.reverse ++ read)))) := by
  obtain ⟨d, u⟩ := u
  cases d with
  | false => exact run_unit u h
  | true =>
    show s.run (('.' : CodePoint) :: u.text) = _
    rw [run_cons ((step_name h _).trans (s.nameStep_dot hr op before)), run_unit u rfl]
    simp [DottedUnit.text]

theorem endsInUnit_dottedUnit (u : DottedUnit) (read : Text) : EndsInUnit (u.text.reverse ++ read) := by
  rw [DottedUnit.text, List.reverse_append, List.append_assoc]
  exact endsInUnit_append _ _

/-- The units of a name behind its first one. -/
theorem run_units (us : List DottedUnit) {read : Text} (hr : EndsInUnit read)
    (h : s.place = .reference op before (.name read)) :
    s.run (us.flatMap DottedUnit.text) = .ok (s.takeAll (us.flatMap DottedUnit.text)
      (.reference op before (.name ((us.flatMap DottedUnit.text).reverse ++ read)))) := by
  induction us generalizing s read with
  | nil =>
    rw [List.flatMap_nil, run_nil]
    simp [takeAll, ← h]
  | cons u us ih =>
    rw [List.flatMap_cons, run_append (run_dottedUnit u hr h), ih (endsInUnit_dottedUnit u read) rfl]
    simp

theorem endsInUnit_name (n : Name) : EndsInUnit n.text.reverse := by
  obtain ⟨u, us⟩ := n
  rcases List.eq_nil_or_concat us with rfl | ⟨us, v, rfl⟩
  · simpa [Name.text] using endsInUnit_append u []
  · have := endsInUnit_dottedUnit v ((u.text ++ us.flatMap DottedUnit.text).reverse)
    simpa [Name.text] using this

theorem run_name (n : Name) (h : s.place = .reference op before (.name [])) :
    s.run n.text = .ok (s.takeAll n.text (.reference op before (.name n.text.reverse))) := by
  rw [Name.text, run_append (run_unit n.head h), run_units n.tail (endsInUnit_append _ _) rfl]
  simp

/-! ## variables -/

theorem Limit.readLimit (l : Limit) (start : Nat) : readLimit l.digits start = .ok (digitsValue l.digits) := by
  have h1 : l.digits ≠ [] := List.ne_nil_of_length_pos l.length_pos
  have h2 : ¬ l.digits.length > maxDigits := Nat.not_lt.2 l.length_le
  have h3 : ¬ digitsValue l.digits > maxLimit := Nat.not_lt.2 l.value_le
  have h4 : digitsValue l.digits ≠ 0 := Nat.pos_iff_ne_zero.1 l.value_pos
  rw [UriTemplate.readLimit, if_neg h1, if_neg h2, if_neg h3, if_neg h4]

theorem step_digit {name digits : Text} {c : CodePoint} (hc : c.isDigit)
    (h : s.place = .reference op before (.limit name digits)) :
    s.step c = .ok (s.takeAll [c] (.reference op before (.limit name (c :: digits)))) := by
  simp [step, h, referenceStep, hc, take_eq]

theorem run_digits {name digits : Text} (ds : Text) (hds : ∀ c ∈ ds, c.isDigit)
    (h : s.place = .reference op before (.limit name digits)) :
    s.run ds = .ok (s.takeAll ds (.reference op before (.limit name (ds.reverse ++ digits)))) := by
  induction ds generalizing s digits with
  | nil => simp [takeAll, ← h]
  | cons c ds ih =>
    rw [run_cons (step_digit (hds c (by simp)) h), ih (fun d hd => hds d (List.mem_cons_of_mem _ hd)) rfl]
    simp

theorem run_limit {name : Text} (l : Limit) (h : s.place = .reference op before (.limit name [])) :
    s.run l.digits = .ok (s.takeAll l.digits (.reference op before (.limit name l.digits.reverse))) := by
  simpa using run_digits l.digits l.isDigit h

theorem ends_iff {c : CodePoint} : ends c = true ↔ c = ',' ∨ c = '}' := by
  simp [ends]

/-- The step behind a name, before its modifier or the end of the variable. -/
theorem step_unit_end {read : Text} (hr : EndsInUnit read) (h : s.place = .reference op before (.name read))
    {c : CodePoint} (hc : c = ',' ∨ c = '}' ∨ c = ':' ∨ c = '*') :
    s.step c =
      if c = ':' then .ok (s.takeAll [c] (.reference op before (.limit read.reverse [])))
      else if c = '*' then .ok (s.takeAll [c] (.reference op before (.exploded read.reverse)))
      else .ok (s.complete op before { name := read.reverse } c) := by
  obtain ⟨d, r, rfl, hd⟩ := hr
  rw [step_name h]
  unfold nameStep
  rw [if_pos (by simpa using hc)]
  simp only [if_neg hd, take_eq]

theorem step_name_end {n : Name} (h : s.place = .reference op before (.name n.text.reverse)) {c : CodePoint}
    (hc : c = ',' ∨ c = '}' ∨ c = ':' ∨ c = '*') :
    s.step c =
      if c = ':' then .ok (s.takeAll [c] (.reference op before (.limit n.text [])))
      else if c = '*' then .ok (s.takeAll [c] (.reference op before (.exploded n.text)))
      else .ok (s.complete op before { name := n.text } c) := by
  have hstep := step_unit_end (endsInUnit_name n) h hc
  rwa [List.reverse_reverse] at hstep

theorem step_limit_end {l : Limit} {name : Text} {c : CodePoint} (hc : c = ',' ∨ c = '}')
    (h : s.place = .reference op before (.limit name l.digits.reverse)) :
    s.step c = .ok (s.complete op before { name, limit := some (digitsValue l.digits) } c) := by
  have hdigit : c.isDigit = false := by rcases hc with rfl | rfl <;> decide
  rw [step, h]
  simp only [referenceStep, hdigit, List.reverse_reverse, Limit.readLimit, ends_iff.2 hc]
  rfl

theorem step_exploded_end {name : Text} {c : CodePoint} (hc : c = ',' ∨ c = '}')
    (h : s.place = .reference op before (.exploded name)) :
    s.step c = .ok (s.complete op before { name, explode := true } c) := by
  rw [step, h]
  simp only [referenceStep, ends_iff.2 hc, if_true]

theorem complete_takeAll (s : Reader) (t : Text) (p q : Place) (v : VariableReference) (c : CodePoint) :
    (s.takeAll t p).complete op before v c = (s.takeAll t q).complete op before v c := by
  unfold complete
  split <;> rfl

/-- A variable with the comma or brace behind it. -/
theorem run_variable (v : VariableSpec) {c : CodePoint} (hc : c = ',' ∨ c = '}')
    (h : s.place = .reference op before (.name [])) :
    s.run (v.text ++ [c]) = .ok ((s.takeAll v.text s.place).complete op before v.reference c) := by
  obtain ⟨n, m⟩ := v
  have hcolon : c ≠ ':' := by rcases hc with rfl | rfl <;> decide
  have hstar : c ≠ '*' := by rcases hc with rfl | rfl <;> decide
  rw [VariableSpec.text, List.append_assoc, run_append (run_name n h)]
  cases m with
  | none =>
    rw [Modifier.text, List.nil_append, run_cons ((step_name_end rfl (hc.imp_right .inl)).trans
      (by rw [if_neg hcolon, if_neg hstar])), run_nil, List.append_nil, complete_takeAll]
    rfl
  | explode =>
    rw [Modifier.text, List.singleton_append, run_cons ((step_name_end rfl (by simp)).trans
      (by rw [if_neg (by decide), if_pos rfl])), run_cons (step_exploded_end hc rfl), run_nil, takeAll_takeAll,
      complete_takeAll]
    rfl
  | limit l =>
    rw [Modifier.text, List.cons_append, run_cons ((step_name_end rfl (by simp)).trans (by rw [if_pos rfl])),
      run_append (run_limit l rfl), run_cons (step_limit_end hc rfl), run_nil, takeAll_takeAll, takeAll_takeAll]
    exact congrArg _ (complete_takeAll s _ _ _ _ c)

/-! ## expressions -/

/-- The reader behind the expression that it has begun, of which `t` was missing. -/
def closeExpression (s : Reader) (t : Text) (op : Operator) (references : List VariableReference) : Reader where
  offset := s.offset + t.length
  elements := .expression ⟨s.current.reverse ++ t, s.offset - s.current.length, s.offset + t.length⟩ op references
    :: s.elements

theorem closeExpression_takeAll (t u : Text) (p : Place) (references : List VariableReference) :
    (s.takeAll t p).closeExpression u op references = s.closeExpression (t ++ u) op references := by
  have h : s.offset + t.length - (t.length + s.current.length) = s.offset - s.current.length := by omega
  simp [closeExpression, Nat.add_assoc, h]

theorem complete_comma (t : Text) (p : Place) (v : VariableReference) :
    (s.takeAll t p).complete op before v ',' =
      s.takeAll (t ++ [(',' : CodePoint)]) (.reference op (v :: before) (.name [])) := by
  rw [complete, if_pos rfl, take_eq, takeAll_takeAll]

theorem complete_brace (t : Text) (p : Place) (v : VariableReference) :
    (s.takeAll t p).complete op before v '}' =
      s.closeExpression (t ++ [('}' : CodePoint)]) op (before.reverse ++ [v]) := by
  rw [complete, if_neg (by decide), ← closeExpression_takeAll t _ p]
  simp [closeExpression, take, span]

/-- The variables of an expression, with the closing brace. -/
theorem run_variables (v : VariableSpec) (vs : List VariableSpec) (h : s.place = .reference op before (.name [])) :
    s.run (v.listed vs ++ [('}' : CodePoint)]) =
      .ok (s.closeExpression (v.listed vs ++ [('}' : CodePoint)]) op
        (before.reverse ++ (v :: vs).map VariableSpec.reference)) := by
  induction vs generalizing s before v with
  | nil =>
    rw [VariableSpec.listed_nil, run_variable v (.inr rfl) h, complete_brace]
    rfl
  | cons w vs ih =>
    have htext : v.listed (w :: vs) ++ [('}' : CodePoint)] =
        (v.text ++ [(',' : CodePoint)]) ++ (w.listed vs ++ [('}' : CodePoint)]) := by
      simp [VariableSpec.listed_cons]
    rw [htext, run_append (run_variable v (.inl rfl) h), complete_comma, ih w rfl, closeExpression_takeAll]
    simp

/-- The operator of an expression, before the first character of its first name. -/
theorem run_operator (hop : op ∈ Operator.all) {c : CodePoint} (hc : c.isNameChar = true ∨ c = '%') (t : Text)
    (h : s.place = .opened) :
    s.run (op.symbol ++ c :: t) = (s.takeAll op.symbol (.reference op [] (.name []))).run (c :: t) := by
  rcases Operator.ofChar?_symbol hop with ⟨rfl, hsym⟩ | ⟨d, hsym, hd⟩
  · have hstep : s.step c = (s.takeAll [] (.reference .simple [] (.name []))).step c := by
      rw [step, h]
      simp only [Operator.ofChar?_eq_none hc]
      rfl
    rw [hsym, List.nil_append, run, run, List.foldlM_cons, List.foldlM_cons, hstep]
  · have hstep : s.step d = .ok (s.takeAll [d] (.reference op [] (.name []))) := by
      rw [step, h]
      simp only [hd]
      rfl
    rw [hsym, List.singleton_append, run_cons hstep]

theorem step_brace (h : s.place = .literal) : s.step '{' =
    .ok { offset := s.offset + 1, elements := s.closed, current := [('{' : CodePoint)], place := .opened } := by
  rw [step, h]
  rfl

theorem run_expression (e : ExpressionSpec) (h : s.place = .literal) :
    s.run e.text = .ok {
      offset := s.offset + e.text.length
      elements := .expression ⟨e.text, s.offset, s.offset + e.text.length⟩ e.operator e.references :: s.closed } := by
  obtain ⟨c, r, hbody, hc⟩ := e.exists_body_head
  have htext : e.operator.symbol ++ e.body ++ [('}' : CodePoint)] =
      e.operator.symbol ++ c :: (r ++ [('}' : CodePoint)]) := by
    rw [hbody, List.append_assoc, List.cons_append]
  rw [ExpressionSpec.text, List.cons_append, List.cons_append, run_cons (step_brace h), htext,
    run_operator e.operator_mem hc _ rfl, ← List.cons_append, ← hbody, ExpressionSpec.body, run_variables _ _ rfl,
    closeExpression_takeAll]
  simp [closeExpression, ExpressionSpec.references, ExpressionSpec.specs, Nat.add_assoc, Nat.add_comm]

/-! ## templates -/

theorem step_literal {c : CodePoint} (hc : c.isLiteral) (hb : c ≠ '{') (hp : c ≠ '%') (h : s.place = .literal) :
    s.step c = .ok (s.takeAll [c] .literal) := by
  rw [step, h]
  simp only [if_neg hb, if_neg hp, hc, if_true, take_eq]

theorem step_percent (h : s.place = .literal) : s.step '%' = .ok (s.takeAll ['%'] (.triplet false)) := by
  rw [step, h]
  rfl

theorem step_hex {c : CodePoint} {digit : Bool} (hc : c.isHexDigit) (h : s.place = .triplet digit) :
    s.step c = .ok (s.takeAll [c] (if digit then .literal else .triplet true)) := by
  rw [step, h]
  simp only [hc, if_true, take_eq]

theorem run_triplet (p : Triplet) (h : s.place = .literal) : s.run p.text = .ok (s.takeAll p.text .literal) := by
  rw [Triplet.text, run_cons (step_percent h), run_cons (step_hex p.first_hex rfl),
    run_cons (step_hex p.second_hex rfl), run_nil, takeAll_takeAll, takeAll_takeAll]
  rfl

/-- The elements with the literal that is being read, as `Derivation.glue` puts them together. -/
theorem closed_eq (hs : s.current.length ≤ s.offset) :
    s.closed.reverse =
      s.elements.reverse ++ Derivation.glue (s.offset - s.current.length) s.current.reverse [] := by
  unfold closed
  by_cases h : s.current = []
  · rw [if_pos h, h, List.reverse_nil, Derivation.glue_nil, List.append_nil]
  · rw [if_neg h, Derivation.glue_of_not_literal (by simpa using h) (by simp), List.reverse_cons, span]
    simp only [List.length_reverse, Nat.sub_add_cancel hs]

/-- **Between two items, the rest of a derivation is read as its elements.**  What is being read is the literal text
since the last expression; `Derivation.glue` puts it in front of what follows. -/
theorem readAll_text (d : Derivation) (h : s.place = .literal) (hs : s.current.length ≤ s.offset) :
    s.readAll d.text = .ok (s.elements.reverse ++
      Derivation.glue (s.offset - s.current.length) s.current.reverse (d.elementsFrom s.offset)) := by
  induction d generalizing s with
  | nil =>
    rw [Derivation.text_nil, readAll, run_nil, Derivation.elementsFrom, ← closed_eq hs]
    show s.finish = _
    rw [finish, h]
  | cons i d ih =>
    -- a piece of literal text moves from the derivation into what is being read
    have piece : ∀ t : Text, s.run t = .ok (s.takeAll t .literal) →
        s.readAll (t ++ Derivation.text d) = .ok (s.elements.reverse ++ Derivation.glue (s.offset - s.current.length)
          s.current.reverse (Derivation.glue s.offset t (Derivation.elementsFrom (s.offset + t.length) d))) := by
      intro t ht
      have hle : (s.takeAll t .literal).current.length ≤ (s.takeAll t .literal).offset := by simp; omega
      have hstart : s.offset + t.length - (t.length + s.current.length) = s.offset - s.current.length := by omega
      have hglue := Derivation.glue_glue (s.offset - s.current.length) s.current.reverse t
        (Derivation.elementsFrom (s.offset + t.length) d)
      rw [List.length_reverse, Nat.sub_add_cancel hs] at hglue
      rw [readAll_append ht, ih rfl hle, hglue]
      simp [hstart]
    rw [Derivation.text_cons]
    cases i with
    | char c hl hb hp => exact piece [c] (run_cons (step_literal hl hb hp h) [])
    | triplet p => exact piece p.text (run_triplet p h)
    | expression e =>
      have hlit : ∀ t r, Element.expression ⟨e.text, s.offset, s.offset + e.text.length⟩ e.operator e.references ::
          Derivation.elementsFrom (s.offset + e.text.length) d ≠ Element.literal t :: r := by simp
      rw [Item.text, readAll_append (run_expression e h), ih rfl (Nat.zero_le _), Derivation.elementsFrom]
      simp only [List.reverse_cons, closed_eq hs]
      by_cases hc : s.current = []
      · simp [hc]
      · rw [Derivation.glue_of_not_literal (by simpa using hc) (by simp),
          Derivation.glue_of_not_literal (by simpa using hc) hlit]
        simp

end Reader

/-- Every text of the grammar is read, as the elements of its derivation. -/
theorem parseElements_text (d : Derivation) : parseElements d.text = .ok d.elements := by
  rw [Reader.parseElements_eq, Reader.readAll_text d rfl (Nat.le_refl _)]
  rfl

end UriTemplate
