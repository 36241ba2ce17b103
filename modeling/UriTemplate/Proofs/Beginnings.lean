import UriTemplate.Proofs.Concatenation

/-!
# What has been read

For every place in a template, the texts that lead from the beginning of one to there.

* `Opening`, `PartialName` — what stands before a variable, and the beginning of a name;
* `Begins` — the beginnings of templates; `Opening.begins_variable`, `Opening.begins_name`, `Opening.begins_colon` — a
  variable can be gone on with wherever it is cut off;
* `ReferencePlace.Behind`, `Place.Behind` — the texts that end at a place;
* `Reader.behind_of_step`, `Reader.Behind.step` — one more character leads to the text with it;
* `Opening.exists_run_name` — conversely, every beginning of a variable leads to a place in its name.
-/

namespace UriTemplate

open CodePoint

/-! ## beginnings of variables -/

/-- What stands before a variable: a sequence of items, a brace with the operator, and the variables before this one,
each with its comma. -/
structure Opening where
  items : Derivation
  operator : Operator
  operator_mem : operator ∈ Operator.all
  specs : List VariableSpec

namespace Opening

/-- Variables with a comma behind each. -/
def variablesText (vs : List VariableSpec) : Text := vs.flatMap fun v => v.text ++ [(',' : CodePoint)]

def text (o : Opening) : Text := o.items.text ++ ('{' : CodePoint) :: (o.operator.symbol ++ variablesText o.specs)

/-- The opening behind one more variable. -/
def push (o : Opening) (v : VariableSpec) : Opening := { o with specs := o.specs ++ [v] }

/-- Nothing stands between the brace and the variable. -/
def Bare (o : Opening) : Prop := o.operator = .simple ∧ o.specs = []

theorem text_push (o : Opening) (v : VariableSpec) : (o.push v).text = o.text ++ (v.text ++ [(',' : CodePoint)]) := by
  simp [push, text, variablesText]

theorem not_bare_push (o : Opening) (v : VariableSpec) : ¬ (o.push v).Bare := by
  intro h
  exact List.append_ne_nil_of_right_ne_nil o.specs (List.cons_ne_nil v []) h.2

theorem atVariable (vs : List VariableSpec) {t : Text} (h : AtVariable t) : AtVariable (variablesText vs ++ t) := by
  induction vs with
  | nil => exact h
  | cons v vs ih =>
    obtain ⟨w, r, htext, hr⟩ := ih
    refine ⟨v, (',' : CodePoint) :: (w.text ++ r), ?_, .comma w hr⟩
    rw [← htext]
    simp [variablesText]

/-- A variable and a brace close what has been opened. -/
theorem exists_derivation (o : Opening) (v : VariableSpec) :
    ∃ d : Derivation, o.text ++ (v.text ++ [('}' : CodePoint)]) = d.text := by
  have hclose : AtVariable (v.text ++ [('}' : CodePoint)]) := ⟨v, _, rfl, .close []⟩
  obtain ⟨e, d, he⟩ := (atVariable o.specs hclose).exists_expression o.operator_mem
  refine ⟨o.items ++ (.expression e :: d), ?_⟩
  rw [Derivation.text_append, Derivation.text_cons, Item.text, ← he, text, List.append_assoc, List.cons_append,
    List.append_assoc]

end Opening

/-- The beginning of a name: nothing, or units with or without a dot behind them. -/
inductive PartialName
  | empty
  | units (n : Name) (dotted : Bool)

namespace PartialName

def text : PartialName → Text
  | empty => []
  | units n dotted => n.text ++ if dotted then [('.' : CodePoint)] else []

/-- One more unit. -/
def push (u : NameUnit) : PartialName → Name
  | empty => ⟨u, []⟩
  | units n dotted => ⟨n.head, n.tail ++ [⟨dotted, u⟩]⟩

theorem text_push (p : PartialName) (u : NameUnit) : (p.push u).text = p.text ++ u.text := by
  cases p with
  | empty => simp [push, text, Name.text]
  | units n dotted => simp [push, text, Name.text, DottedUnit.text]

theorem eq_empty_of_reverse {p : PartialName} (h : p.text.reverse = []) : p = empty := by
  cases p with
  | empty => rfl
  | units n dotted =>
    obtain ⟨c, r, hn, -⟩ := Reader.endsInUnit_name n
    rw [text, List.reverse_append, hn] at h
    exact absurd h (List.append_ne_nil_of_right_ne_nil _ (List.cons_ne_nil c r))

/-- What ends in a unit is a name. -/
theorem eq_units_of_endsInUnit {p : PartialName} (h : Reader.EndsInUnit p.text.reverse) : ∃ n, p = units n false := by
  obtain ⟨c, r, hread, hc⟩ := h
  cases p with
  | empty => simp [text] at hread
  | units n dotted =>
    cases dotted with
    | false => exact ⟨n, rfl⟩
    | true =>
      simp only [text, if_true, List.reverse_append, List.reverse_singleton, List.singleton_append,
        List.cons.injEq] at hread
      exact absurd hread.1.symm hc

/-- What ends in a dot is a name with a dot behind it. -/
theorem eq_units_of_dot {p : PartialName} {r : Text} (h : p.text.reverse = ('.' : CodePoint) :: r) :
    ∃ n, p = units n true := by
  cases p with
  | empty => simp [text] at h
  | units n dotted =>
    cases dotted with
    | true => exact ⟨n, rfl⟩
    | false =>
      obtain ⟨c, r', hn, hc⟩ := Reader.endsInUnit_name n
      simp only [text, Bool.false_eq_true, if_false, List.append_nil, hn, List.cons.injEq] at h
      exact absurd h.1 hc

@[simp] theorem text_units_false (n : Name) : (units n false).text = n.text := by simp [text]

@[simp] theorem text_units_true (n : Name) : (units n true).text = n.text ++ [('.' : CodePoint)] := by simp [text]

end PartialName

/-! ## beginnings of templates -/

/-- The text can be gone on with to a template. -/
def Begins (t : Text) : Prop := ∃ more t', Template.parse (t ++ more) = .ok t'

theorem Derivation.exists_parse (d : Derivation) : ∃ t', Template.parse d.text = .ok t' := ⟨_, d.parse_text⟩

theorem Derivation.begins (d : Derivation) : Begins d.text := by
  refine ⟨[], ?_⟩
  rw [List.append_nil]
  exact d.exists_parse

namespace Opening

variable (o : Opening)

theorem begins_variable (v : VariableSpec) : Begins (o.text ++ v.text) := by
  obtain ⟨d, hd⟩ := o.exists_derivation v
  refine ⟨[('}' : CodePoint)], ?_⟩
  rw [List.append_assoc, hd]
  exact d.exists_parse

/-- The letter that a name may go on with. -/
def letter : NameUnit := .char 'a' (by decide)

/-- A name can be gone on with wherever it is cut off. -/
theorem begins_name (p : PartialName) : Begins (o.text ++ p.text) := by
  obtain ⟨more, t', h⟩ := o.begins_variable ⟨p.push letter, .none⟩
  refine ⟨letter.text ++ more, t', ?_⟩
  rw [← h, VariableSpec.text, Modifier.text, p.text_push]
  simp

theorem begins : Begins o.text := by
  have h := o.begins_name .empty
  rwa [PartialName.text, List.append_nil] at h

/-- A colon can be gone on with to a limit. -/
theorem begins_colon (n : Name) : Begins (o.text ++ (n.text ++ [(':' : CodePoint)])) := by
  let l : Limit := ⟨['1'], by decide, by decide, by decide, by decide, by decide⟩
  obtain ⟨more, t', h⟩ := o.begins_variable ⟨n, .limit l⟩
  refine ⟨l.digits ++ more, t', ?_⟩
  rw [← h, VariableSpec.text, Modifier.text]
  simp

end Opening

/-! ## places -/

/-- The digits of a triplet that have been read: one of them, or none yet. -/
def TripletDigits (digit : Bool) (digits : Text) : Prop :=
  digits.length = (if digit then 1 else 0) ∧ ∀ c ∈ digits, c.isHexDigit

/-- The text ends at this place within a variable behind the opening. -/
def ReferencePlace.Behind (o : Opening) : ReferencePlace → Text → Prop
  | .name read, t => ∃ p : PartialName, read.reverse = p.text ∧ t = o.text ++ p.text
  | .triplet read digit, t =>
    ∃ (p : PartialName) (digits : Text), TripletDigits digit digits ∧
      read.reverse = p.text ++ ('%' : CodePoint) :: digits ∧ t = o.text ++ (p.text ++ ('%' : CodePoint) :: digits)
  | .limit m digits, t =>
    ∃ n : Name, m = n.text ∧ (∀ c ∈ digits, c.isDigit) ∧ t = o.text ++ (n.text ++ (':' : CodePoint) :: digits.reverse)
  | .exploded m, t => ∃ n : Name, m = n.text ∧ t = o.text ++ (n.text ++ [('*' : CodePoint)])

/-- The text ends at this place of a template. -/
def Place.Behind : Place → Text → Prop
  | .literal, t => ∃ d : Derivation, t = d.text
  | .triplet digit, t =>
    ∃ (d : Derivation) (digits : Text), TripletDigits digit digits ∧ t = d.text ++ ('%' : CodePoint) :: digits
  | .opened, t => ∃ d : Derivation, t = d.text ++ [('{' : CodePoint)]
  | .reference op _ place, t =>
    ∃ o : Opening, o.operator = op ∧ (o.Bare → place ≠ .name []) ∧ place.Behind o t

theorem TripletDigits.nil : TripletDigits false [] := ⟨rfl, by simp⟩

theorem TripletDigits.singleton {digits : Text} (h : TripletDigits false digits) {c : CodePoint} (hc : c.isHexDigit) :
    digits = [] ∧ TripletDigits true [c] := by
  have hnil : digits = [] := List.eq_nil_of_length_eq_zero h.1
  exact ⟨hnil, rfl, by simpa using hc⟩

/-- The second digit makes a triplet. -/
theorem TripletDigits.exists_triplet {digits : Text} (h : TripletDigits true digits) {c : CodePoint}
    (hc : c.isHexDigit) : ∃ p : Triplet, p.text = ('%' : CodePoint) :: (digits ++ [c]) := by
  obtain ⟨hlength, hhex⟩ := h
  obtain ⟨a, rfl⟩ := List.length_eq_one_iff.1 hlength
  exact ⟨⟨a, c, hhex a (by simp), hc⟩, rfl⟩

/-- The opening behind a brace without an operator. -/
def Opening.bare (d : Derivation) : Opening := ⟨d, .simple, by decide, []⟩

namespace Reader

variable {s s' : Reader} {t : Text} {c : CodePoint}

/-- Behind a variable and its comma or brace. -/
theorem behind_complete {op : Operator} {before : List VariableReference} {r : VariableReference} {o : Opening}
    (ho : o.operator = op) (hc : c = ',' ∨ c = '}') {v : VariableSpec} (ht : t = o.text ++ v.text) :
    (s.complete op before r c).place.Behind (t ++ [c]) := by
  rw [complete_place, ht, List.append_assoc]
  rcases hc with rfl | rfl
  · refine ⟨o.push v, ho, fun hbare => absurd hbare (o.not_bare_push v), .empty, rfl, ?_⟩
    rw [PartialName.text, List.append_nil, o.text_push v]
  · exact o.exists_derivation v

theorem behind_of_nameStep {op : Operator} {before : List VariableReference} {read : Text} {o : Opening}
    (ho : o.operator = op) (h : s.nameStep op before read c = .ok s') (ht : (ReferencePlace.name read).Behind o t) :
    s'.place.Behind (t ++ [c]) := by
  obtain ⟨p, hread, rfl⟩ := ht
  obtain rfl : read = p.text.reverse := by rw [← hread, List.reverse_reverse]
  rcases nameStep_cases h with ⟨hc, hunit, rfl⟩ | ⟨rfl, hunit, rfl⟩ | ⟨rfl, hunit, rfl⟩ | ⟨rfl, hunit, rfl⟩ | ⟨rfl, rfl⟩ |
    ⟨hc, rfl⟩
  · obtain ⟨n, rfl⟩ := PartialName.eq_units_of_endsInUnit hunit
    have hvariable : o.text ++ (PartialName.units n false).text = o.text ++ (VariableSpec.mk n .none).text := by
      simp [VariableSpec.text, Modifier.text]
    exact behind_complete ho hc hvariable
  · obtain ⟨n, rfl⟩ := PartialName.eq_units_of_endsInUnit hunit
    exact ⟨o, ho, fun _ => by simp, n, by simp, by simp, by simp⟩
  · obtain ⟨n, rfl⟩ := PartialName.eq_units_of_endsInUnit hunit
    exact ⟨o, ho, fun _ => by simp, n, by simp, by simp⟩
  · obtain ⟨n, rfl⟩ := PartialName.eq_units_of_endsInUnit hunit
    exact ⟨o, ho, fun _ => by simp, .units n true, by simp, by simp⟩
  · exact ⟨o, ho, fun _ => by simp, p, [], .nil, by simp, by simp⟩
  · have hpush := p.text_push (.char c hc)
    refine ⟨o, ho, fun _ => by simp, .units (p.push (.char c hc)) false, ?_, ?_⟩
    · simp [hpush, NameUnit.text]
    · simp [hpush, NameUnit.text]

/-- **One more character leads from a beginning of a template to another one.** -/
theorem behind_of_step (h : s.step c = .ok s') (ht : s.place.Behind t) : s'.place.Behind (t ++ [c]) := by
  have hstep := stepped_of_step h
  generalize s.place = place at hstep ht
  cases hstep with
  | brace hc =>
    obtain ⟨d, rfl⟩ := ht
    exact ⟨d, by rw [hc]⟩
  | percent hc =>
    obtain ⟨d, rfl⟩ := ht
    exact ⟨d, [], .nil, by rw [hc]⟩
  | literal hc hbrace hpercent =>
    obtain ⟨d, rfl⟩ := ht
    refine ⟨d ++ [.char c hc hbrace hpercent], ?_⟩
    rw [Derivation.text_append]
    rfl
  | firstDigit hc =>
    obtain ⟨d, digits, hdigits, rfl⟩ := ht
    obtain ⟨rfl, hone⟩ := hdigits.singleton hc
    exact ⟨d, [c], hone, by simp⟩
  | secondDigit hc =>
    obtain ⟨d, digits, hdigits, rfl⟩ := ht
    obtain ⟨p, hp⟩ := hdigits.exists_triplet hc
    refine ⟨d ++ [.triplet p], ?_⟩
    rw [Derivation.text_append, List.append_assoc, List.cons_append, ← hp]
    simp [Item.text]
  | @operator op hop =>
    obtain ⟨d, rfl⟩ := ht
    obtain ⟨hmem, hsym⟩ := Operator.symbol_of_ofChar? hop
    have hbare : op ≠ .simple := by
      rintro rfl
      exact List.cons_ne_nil c [] hsym.symm
    refine ⟨⟨d, op, hmem, []⟩, rfl, fun h => absurd h.1 hbare, .empty, rfl, ?_⟩
    simp [Opening.text, Opening.variablesText, hsym, PartialName.text]
  | opened hop hname =>
    obtain ⟨d, rfl⟩ := ht
    exact behind_of_nameStep (o := .bare d) rfl hname ⟨.empty, rfl, (List.append_nil _).symm⟩
  | name hname =>
    obtain ⟨o, ho, -, ht⟩ := ht
    exact behind_of_nameStep ho hname ht
  | nameFirstDigit hc =>
    obtain ⟨o, ho, -, p, digits, hdigits, hread, rfl⟩ := ht
    obtain ⟨rfl, hone⟩ := hdigits.singleton hc
    exact ⟨o, ho, fun _ => by simp, p, [c], hone, by simp [hread], by simp⟩
  | nameSecondDigit hc =>
    obtain ⟨o, ho, -, p, digits, hdigits, hread, rfl⟩ := ht
    obtain ⟨q, hq⟩ := hdigits.exists_triplet hc
    have hpush := p.text_push (.triplet q)
    refine ⟨o, ho, fun _ => by simp, .units (p.push (.triplet q)) false, ?_, ?_⟩
    · simp [hpush, NameUnit.text, hq, hread]
    · simp [hpush, NameUnit.text, hq]
  | limitDigit hc =>
    obtain ⟨o, ho, -, n, rfl, hdigits, rfl⟩ := ht
    exact ⟨o, ho, fun _ => by simp, n, rfl, List.forall_mem_cons.2 ⟨hc, hdigits⟩, by simp⟩
  | @limitEnd op before name digits k hlimit hc =>
    obtain ⟨o, ho, -, n, rfl, hdigits, rfl⟩ := ht
    obtain ⟨l, hl⟩ := exists_limit (by simpa using hdigits) hlimit
    have hvariable : o.text ++ (n.text ++ (':' : CodePoint) :: digits.reverse) =
        o.text ++ (VariableSpec.mk n (.limit l)).text := by
      rw [VariableSpec.text, Modifier.text, hl]
    exact behind_complete ho hc hvariable
  | explodeEnd hc =>
    obtain ⟨o, ho, -, n, rfl, rfl⟩ := ht
    exact behind_complete ho hc (v := ⟨n, .explode⟩) rfl

theorem offset_complete (s : Reader) (op : Operator) (before : List VariableReference) (r : VariableReference)
    (c : CodePoint) : (s.complete op before r c).offset = s.offset + 1 := by
  unfold complete
  split <;> rfl

theorem offset_of_nameStep {op : Operator} {before : List VariableReference} {read : Text}
    (h : s.nameStep op before read c = .ok s') : s'.offset = s.offset + 1 := by
  rcases nameStep_cases h with ⟨-, -, rfl⟩ | ⟨-, -, rfl⟩ | ⟨-, -, rfl⟩ | ⟨-, -, rfl⟩ | ⟨-, rfl⟩ | ⟨-, rfl⟩
  · exact offset_complete s op before _ c
  all_goals rfl

theorem offset_of_step (h : s.step c = .ok s') : s'.offset = s.offset + 1 := by
  have hstep := stepped_of_step h
  generalize s.place = place at hstep
  cases hstep with
  | opened hop hname => exact offset_of_nameStep hname
  | name hname => exact offset_of_nameStep hname
  | limitEnd => exact offset_complete s _ _ _ c
  | explodeEnd => exact offset_complete s _ _ _ c
  | _ => rfl

theorem offset_of_run (h : s.run t = .ok s') : s'.offset = s.offset + t.length := by
  induction t generalizing s with
  | nil =>
    obtain rfl := Except.ok.inj h
    rfl
  | cons c t ih =>
    cases hstep : s.step c with
    | error e =>
      rw [run, List.foldlM_cons, hstep] at h
      cases h
    | ok s₁ =>
      rw [run_cons hstep] at h
      rw [ih h, offset_of_step hstep, List.length_cons]
      omega

/-- The reader has read the text. -/
structure Behind (s : Reader) (t : Text) : Prop where
  place : s.place.Behind t
  offset : s.offset = t.length

theorem Behind.start : ({} : Reader).Behind [] := ⟨⟨[], rfl⟩, rfl⟩

theorem Behind.step (h : s.Behind t) (hstep : s.step c = .ok s') : s'.Behind (t ++ [c]) where
  place := behind_of_step hstep h.place
  offset := by rw [offset_of_step hstep, h.offset, List.length_append, List.length_singleton]

/-! ## readers behind the beginning of a variable -/

/-- The variables before this one, with their commas. -/
theorem exists_run_variables (vs : List VariableSpec) {op : Operator} {before : List VariableReference}
    (h : s.place = .reference op before (.name [])) :
    ∃ s' before', s.run (Opening.variablesText vs) = .ok s' ∧ s'.place = .reference op before' (.name []) := by
  induction vs generalizing s before with
  | nil => exact ⟨s, before, rfl, h⟩
  | cons v vs ih =>
    have hv := run_variable v (.inl rfl) h
    rw [complete_comma] at hv
    obtain ⟨s', before', hrun, hplace⟩ := ih (s := s.takeAll _ _) rfl
    refine ⟨s', before', ?_, hplace⟩
    rw [Opening.variablesText, List.flatMap_cons, run_append hv]
    exact hrun

end Reader

namespace Opening

/-- Variables and a name begin as a name does. -/
theorem exists_nameHead (vs : List VariableSpec) (n : Name) :
    ∃ c r, variablesText vs ++ n.text = c :: r ∧ (c.isNameChar = true ∨ c = '%') := by
  have hunit : ∀ (u : NameUnit) (t : Text), ∃ c r, u.text ++ t = c :: r ∧ (c.isNameChar = true ∨ c = '%') := by
    intro u t
    cases u with
    | char c hc => exact ⟨c, t, rfl, .inl hc⟩
    | triplet p => exact ⟨'%', _, rfl, .inr rfl⟩
  cases vs with
  | nil => exact hunit n.head _
  | cons v vs =>
    obtain ⟨c, r, htext, hc⟩ := hunit v.name.head (v.name.tail.flatMap DottedUnit.text ++
      (v.modifier.text ++ ((',' : CodePoint) :: (variablesText vs ++ n.text))))
    refine ⟨c, r, ?_, hc⟩
    rw [← htext]
    simp [variablesText, VariableSpec.text, Name.text]

/-- **A reader behind an opening and a name** stands in that name. -/
theorem exists_run_name (o : Opening) (n : Name) :
    ∃ s before, ({} : Reader).run (o.text ++ n.text) = .ok s ∧
      s.place = .reference o.operator before (.name n.text.reverse) := by
  obtain ⟨s₁, hitems, hliteral, -⟩ := Reader.exists_run_text o.items (s := {}) rfl
  obtain ⟨c, r, hhead, hc⟩ := exists_nameHead o.specs n
  obtain ⟨s₂, before, hvariables, hname⟩ := Reader.exists_run_variables o.specs
    (s := (Reader.takeAll ⟨s₁.offset + 1, s₁.closed, ['{'], .opened⟩ o.operator.symbol
      (.reference o.operator [] (.name [])))) rfl
  refine ⟨s₂.takeAll n.text (.reference o.operator before (.name n.text.reverse)), before, ?_, rfl⟩
  calc ({} : Reader).run (o.text ++ n.text)
    _ = ({} : Reader).run (o.items.text ++ ('{' : CodePoint) :: (o.operator.symbol ++ c :: r)) := by
      rw [text, ← hhead]
      simp
    _ = (Reader.takeAll ⟨s₁.offset + 1, s₁.closed, ['{'], .opened⟩ o.operator.symbol
          (.reference o.operator [] (.name []))).run (variablesText o.specs ++ n.text) := by
      rw [Reader.run_append hitems, Reader.run_cons (Reader.step_brace hliteral),
        Reader.run_operator o.operator_mem hc r rfl, hhead]
    _ = .ok (s₂.takeAll n.text (.reference o.operator before (.name n.text.reverse))) := by
      rw [Reader.run_append hvariables, Reader.run_name n hname]

end Opening

end UriTemplate
