import UriTemplate.Proofs.Descents

/-!
# The way of the cursor

Reading with a cursor comes to an end for every text, gives what reading character by character gives, and goes forward
all the way.

* `Point.closed`, `Point.opened`, `Point.close` — points around an expression;
* `Descends.references`, `Descends.expression`, `Descends.elements` — one lemma for each part of a template;
* `descend_orderly` — the record of a descent is orderly and complete, for every text.
-/

namespace UriTemplate

/-! ## points around an expression -/

namespace Point

variable {t u v r : Text} {p q : Point} {place : Place} {l : Loop}

/-- The elements with the literal that is being read, if it is not empty. -/
def closed (p : Point) : List Element :=
  if p.current = [] then p.elements else p.elements ++ [.literal ⟨p.current, p.before.length, p.behind.length⟩]

theorem reader_closed (p : Point) : p.reader.closed = p.closed.reverse := by
  unfold Reader.closed closed
  by_cases hcurrent : p.current = []
  · rw [if_pos hcurrent, if_pos (by simp [reader, hcurrent])]
    rfl
  · have hstart : p.before.length + p.current.length - p.current.length = p.before.length := by omega
    rw [if_neg hcurrent, if_neg (by simp [reader, hcurrent])]
    simp [reader, Reader.span, behind, hstart]

/-- The point behind the opening brace of an expression. -/
def opened (p : Point) (r : Text) : Point where
  before := p.behind
  current := [('{' : CodePoint)]
  rest := r
  elements := p.closed
  place := .opened
  passes := p.passes

theorem goes_opened (hplace : p.place = .literal) (hrest : p.rest = ('{' : CodePoint) :: r)
    (hpass : p.Within .elements []) : p.Goes [('{' : CodePoint)] (p.opened r) where
  behind := rfl
  rest := hrest
  run := by
    rw [Reader.run_cons (Reader.step_brace hplace), Reader.run_nil, reader_closed]
    simp [reader, opened, behind, Nat.add_assoc]
  byPass := ⟨_, _, hpass, .element _⟩
  passes := rfl
  noted := List.nil_subset _

/-- The point behind the expression of which `u` was missing. -/
def close (p : Point) (u r : Text) (op : Operator) (references : List VariableReference) : Point where
  before := p.behind ++ u
  current := []
  rest := r
  elements := p.elements ++ [.expression ⟨p.current ++ u, p.before.length, (p.behind ++ u).length⟩ op references]
  place := .literal
  passes := p.passes

theorem Grows.close (h : q.Grows u place p) (v r : Text) (op : Operator) (references : List VariableReference) :
    p.close v r op references = q.close (u ++ v) r op references := by
  simp only [Point.close, h.behind, h.before, h.current, h.elements, h.passes, List.append_assoc]

@[simp] theorem close_behind (p : Point) (u r : Text) (op : Operator) (references : List VariableReference) :
    (p.close u r op references).behind = p.behind ++ u := List.append_nil _

theorem goes_close {op : Operator} {before : List VariableReference} {v : VariableReference} {x : VariableSpec}
    (hrest : p.rest = ('}' : CodePoint) :: r) (hstep : p.reader.step '}' = .ok (p.reader.complete op before v '}'))
    (hpass : p.Within .variables x.text) :
    p.Goes [('}' : CodePoint)] ((p.close [('}' : CodePoint)] r op (before.reverse ++ [v])).knowing p.noted) where
  behind := close_behind p _ r op (before.reverse ++ [v])
  rest := hrest
  run := by
    have hstart : p.before.length + (p.current.length + 1) - (p.current.length + 1) = p.before.length := by omega
    rw [Reader.run_cons hstep, Reader.run_nil, Reader.complete, if_neg (by decide), knowing_reader]
    simp [Reader.take, Reader.span, Point.reader, Point.close, Point.behind, Nat.add_assoc, hstart]
  byPass := ⟨_, _, hpass, .variableEnd x (.inr rfl)⟩
  passes := rfl
  noted := fun _ => id

theorem goes_comma {op : Operator} {before : List VariableReference} {v : VariableReference} {x : VariableSpec}
    (hrest : p.rest = (',' : CodePoint) :: r) (hstep : p.reader.step ',' = .ok (p.reader.complete op before v ','))
    (hpass : p.Within .variables x.text) :
    p.Goes [(',' : CodePoint)] ((p.take [(',' : CodePoint)] r (.reference op (v :: before) (.name []))).knowing p.noted) :=
  { goes_take hrest hstep hpass (.variableEnd x (.inl rfl)) with noted := fun _ => id }

end Point

/-- What a brace and variables with a comma behind each make with another variable and a closing brace. -/
theorem exists_expression_text {op : Operator} (hop : op ∈ Operator.all) (xs : List VariableSpec) (x : VariableSpec) :
    ∃ e : ExpressionSpec, e.text =
      ('{' : CodePoint) :: (op.symbol ++ (Opening.variablesText xs ++ (x.text ++ [('}' : CodePoint)]))) := by
  have hlisted : ∃ (y : VariableSpec) (ys : List VariableSpec), y.listed ys = Opening.variablesText xs ++ x.text := by
    induction xs with
    | nil => exact ⟨x, [], VariableSpec.listed_nil x⟩
    | cons z xs ih =>
      obtain ⟨y, ys, h⟩ := ih
      refine ⟨z, y :: ys, ?_⟩
      rw [VariableSpec.listed_cons, h]
      simp [Opening.variablesText]
  obtain ⟨y, ys, h⟩ := hlisted
  refine ⟨⟨op, hop, y, ys⟩, ?_⟩
  rw [ExpressionSpec.text, ExpressionSpec.body, h]
  simp

namespace Descends

variable {t : Text} {p q : Point} {r : Text} {c : CodePoint} {op : Operator}

/-! ## expressions -/

theorem natCast_length_concat_sub_one (b : Text) (c : CodePoint) : ((b ++ [c]).length : Int) - 1 = b.length := by
  rw [List.length_append, List.length_singleton, Int.natCast_add]
  exact Int.add_sub_cancel _ _

/-- One pass over the variables: there is a comma behind the variable, or the brace, and then nothing else is moved
over. -/
theorem nextReference {before : List VariableReference} (hplace : q.place = inName op before.reverse [])
    (hbusy : .name ∉ q.busy) :
    Descends t (Descent.nextReference before) (q.enter .variables) fun r p' => q.Finishes t .variables r.isLeft p' ∧
      ∃ x : VariableSpec, r.elim
        (fun vs => (q.enter .variables).Grows (x.text ++ [(',' : CodePoint)]) (inName op vs.reverse []) p' ∧
          p'.busy = [])
        (fun vs => ∃ rest, p'.leave = q.close (x.text ++ [('}' : CodePoint)]) rest op vs) := by
  have hfree : .name ∉ (q.enter .variables).busy := by simpa [Point.enter] using hbusy
  refine (reference (p := q.enter .variables) hplace hfree Point.within_enter).bind ?_
  rintro v p' ⟨⟨x, c, r, hgrows, hrest, hc | hc, hstep⟩, hnoted⟩
  · subst hc
    have hgo := Point.goes_comma hrest hstep (hgrows.within Point.within_enter)
    have hgrows' := hgrows.take [(',' : CodePoint)] r (.reference op (v :: before.reverse) (.name []))
    refine (Leads.accept (hgo.note _) (by decide)).bind (pure ⟨?_, x, ?_, rfl⟩)
    · refine ⟨⟨_, hgrows'.behind, .comma x⟩, hgrows'.passes, by simp, fun _ => ?_, by simp⟩
      rw [hgo.behind, natCast_length_concat_sub_one]
      exact hnoted
    · rw [List.reverse_append]
      exact ⟨hgrows'.before, hgrows'.current, hgrows'.elements, hgrows'.place, hgrows'.passes⟩
  · subst hc
    have hgo := Point.goes_close hrest hstep (hgrows.within Point.within_enter)
    rw [List.reverse_reverse] at hgo
    refine (Leads.not_accept hrest (by decide)).bind ((Leads.advance (hgo.note _)).bind (of_fits fun hp => ?_))
    have hclose := hgrows.close [('}' : CodePoint)] r op (before ++ [v])
    refine (Leads.note (e := .closes [('}' : CodePoint)]) rfl fun _ => ⟨rfl, ?_⟩).bind (pure ⟨?_, x, r, ?_⟩)
    · have hpart := hp.part hgo.behind
      rw [hgo.behind] at hpart ⊢
      rw [natCast_length_concat_sub_one]
      exact hpart.symm
    · refine ⟨⟨_, ?_, .brace x⟩, hgrows.passes, by simp, fun _ => ?_, fun _ _ => List.mem_cons_self⟩
      · exact (congrArg Point.behind hclose).trans (Point.close_behind _ _ _ _ _)
      · refine List.mem_cons_of_mem _ ?_
        rw [Point.note_behind, hgo.behind, natCast_length_concat_sub_one]
        exact hnoted
    · exact congrArg Point.leave hclose

theorem references (hplace : p.place = inName op [] []) (hbusy : p.busy = []) (hbehind : p.behind ≠ [])
    (hpass : p.Within .elements (('{' : CodePoint) :: op.symbol)) :
    Descends t Descent.references p fun vs p' => ∃ (xs : List VariableSpec) (x : VariableSpec) (r : Text),
      p' = p.close (Opening.variablesText xs ++ (x.text ++ [('}' : CodePoint)])) r op vs := by
  refine loop (fun vs q => q.busy = [] ∧ ∃ xs, p.Grows (Opening.variablesText xs) (inName op vs.reverse []) q) ?_
    ⟨hbusy, [], Point.Grows.refl hplace⟩
  rintro vs q hq ⟨hfree, xs, hxs⟩
  have hpositive := List.length_pos_iff.2 hbehind
  have hlength := hxs.length_behind
  refine ⟨true, q, Leads.pure, rfl, by simp, fun _ => ⟨by simp [hfree], (hxs.within hpass).loop, ?_, ?_⟩⟩
  · rw [if_pos rfl]
    omega
  · refine (nextReference hxs.place (by simp [hfree])).mono ?_
    rintro r q' ⟨hfinishes, x, hr⟩
    refine ⟨?_, hfinishes⟩
    cases r with
    | inl ws =>
      obtain ⟨hgrows, hnone⟩ := hr
      refine ⟨hnone, xs ++ [x], ?_⟩
      have hgrows := hxs.pass hgrows
      rwa [show Opening.variablesText xs ++ (x.text ++ [(',' : CodePoint)]) = Opening.variablesText (xs ++ [x]) by
        simp [Opening.variablesText]] at hgrows
    | inr ws =>
      obtain ⟨rest, hleave⟩ := hr
      exact ⟨xs, x, rest, hleave.trans (hxs.close _ _ _ _)⟩

/-- The operator, behind the opening brace; without one the reader is at the beginning of a name. -/
theorem operator (hplace : p.place = .opened) (hbusy : p.busy = []) (hpass : p.Within .elements [('{' : CodePoint)]) :
    Descends t Descent.operator p fun op p' =>
      op ∈ Operator.all ∧ p.Grows op.symbol (inName op [] []) p' ∧ p'.busy = [] := by
  have hsimple : Operator.simple ∈ Operator.all := by decide
  cases hrest : p.rest with
  | nil =>
    refine Leads.current.bind ?_
    rw [hrest]
    refine replace (inName .simple [] []) ?_ (pure ⟨hsimple, ⟨rfl, (List.append_nil _).symm, rfl, rfl, rfl⟩, hbusy⟩)
    rw [hrest]
    rw [Reader.readAll_nil, Reader.readAll_nil, Reader.finish, Reader.finish, Point.reader_place p, hplace]
    rfl
  | cons c r =>
    refine (Leads.current_cons hrest).bind ?_
    simp only [Option.bind_some]
    cases hop : Operator.ofChar? c with
    | some op =>
      obtain ⟨hmem, hsymbol⟩ := Operator.symbol_of_ofChar? hop
      have hgo := Point.goes_take hrest (Reader.step_opened_operator (s := p.reader) hplace hop) hpass (.operator hop)
      refine (Leads.advance (hgo.note _)).bind (pure ⟨hmem, ?_, rfl⟩)
      rw [hsymbol]
      exact Point.grows_take _ _ _
    | none =>
      refine forget (replace (inName .simple [] []) ?_
        (pure ⟨hsimple, ⟨rfl, (List.append_nil _).symm, rfl, rfl, rfl⟩, hbusy⟩))
      rw [hrest]
      exact Reader.readAll_congr (Reader.step_opened_simple (s := p.reader) hplace hop).symm

/-- An expression, with everything that is known behind it. -/
theorem expression (hplace : p.place = .literal) (hrest : p.rest = ('{' : CodePoint) :: r)
    (hpass : p.Within .elements []) :
    Descends t Descent.expression p.look fun e p' => ∃ x : ExpressionSpec, p'.before = p.behind ++ x.text ∧
      p'.current = [] ∧ p'.elements = p.closed ++ [e] ∧ p'.place = .literal ∧ p'.busy = [] ∧ p'.passes = p.passes := by
  have hopen := Point.goes_opened hplace hrest hpass
  have hopened : (p.opened r).Within .elements [('{' : CodePoint)] := by
    obtain ⟨b, outside, hpasses, hbehind⟩ := hpass
    refine ⟨b, outside, hpasses, ?_⟩
    rw [hopen.behind, hbehind, List.append_assoc]
    rfl
  refine Leads.position.bind ((Leads.advance (hopen.note _)).bind ?_)
  refine (operator rfl rfl hopened).bind ?_
  rintro op p₁ ⟨hop, hsymbol, hfree⟩
  have hbehind : p₁.behind ≠ [] := by
    rw [hsymbol.behind]
    simp [Point.opened, Point.behind]
  refine (references hsymbol.place hfree hbehind (hsymbol.within hopened)).bind ?_
  rintro vs _ ⟨xs, x, r', rfl⟩
  obtain ⟨e, he⟩ := exists_expression_text hop xs x
  rw [hsymbol.close]
  generalize op.symbol ++ (Opening.variablesText xs ++ (x.text ++ [('}' : CodePoint)])) = u at he ⊢
  have hbefore : ((p.opened r).close u r' op vs).before = p.behind ++ e.text := by
    rw [he]
    simp [Point.close, Point.opened, Point.behind]
  have hbehind : ((p.opened r).close u r' op vs).behind = p.behind ++ e.text := by
    rw [Point.close_behind]
    exact hbefore
  refine Leads.position.bind ((Leads.slice hbehind).bind (pure ⟨e, hbefore, rfl, ?_, rfl, rfl, rfl⟩))
  rw [Int.toNat_natCast, Int.toNat_natCast, Point.look_behind, hbehind, he]
  simp [Point.close, Point.opened, Point.behind]

/-! ## templates -/

theorem closeLiteral : Leads t (Descent.closeLiteral p.before.length p.elements) p p.closed p := by
  refine Leads.position.trans ?_
  have hlength : p.behind.length = p.before.length + p.current.length := List.length_append
  by_cases hcurrent : p.current = []
  · rw [if_neg (by rw [hlength, hcurrent]; simp), Point.closed, if_pos hcurrent]
    exact Leads.pure
  · have hpositive := List.length_pos_iff.2 hcurrent
    rw [if_pos (by omega), Point.closed, if_neg hcurrent]
    exact (Leads.slice rfl).trans Leads.pure

/-- Between two elements or in a literal; `x` is what a descent keeps there. -/
structure AtElement (x : Int × List Element) (p : Point) : Prop where
  kept : x = ((p.before.length : Int), p.elements)
  place : p.place = .literal
  busy : p.busy = []
  passes : p.passes = []

/-- One pass over the elements. -/
theorem element {x : Int × List Element} (hx : AtElement x p) (hrest : p.rest = c :: r) :
    Descends t (Descent.element x) (p.enter .elements) fun y p' =>
      AtElement y p'.leave ∧ p.Finishes t .elements true p' := by
  obtain ⟨rfl, hplace, -, hnone⟩ := hx
  have hpass : (p.enter .elements).Within .elements [] := Point.within_enter
  have hleave : (p.enter .elements).passes.tail = [] := hnone
  have hstep : ∀ (i : Item) (r' : Text), AtElement ((p.before.length : Int), p.elements)
      ((p.enter .elements).take i.text r' .literal).leave ∧
        p.Finishes t .elements true ((p.enter .elements).take i.text r' .literal) := by
    intro i r'
    exact ⟨⟨rfl, rfl, rfl, hleave⟩, ⟨i.text, Point.take_behind _ _ _ _, .item i⟩, rfl, by simp, by simp, by simp⟩
  refine of_fits fun hp => (Leads.current_cons (p := p.enter .elements) hrest).bind ?_
  simp only [Option.some.injEq, Option.any_some]
  by_cases hbrace : c = '{'
  · rw [if_pos hbrace]
    subst hbrace
    refine closeLiteral.bind ((expression (p := p.enter .elements) hplace hrest hpass).bind ?_)
    rintro e p' ⟨s, hbefore, hcurrent, helements, hplace', hfree, hpasses⟩
    have hbehind : p'.behind = p'.before := by rw [Point.behind, hcurrent, List.append_nil]
    refine Leads.position.bind (pure ⟨⟨?_, hplace', hfree, ?_⟩, ⟨s.text, ?_, .item (.expression s)⟩, hpasses, by simp,
      by simp, by simp⟩)
    · rw [hbehind]
      exact congrArg _ helements.symm
    · exact (congrArg List.tail hpasses).trans hnone
    · exact hbehind.trans hbefore
  rw [if_neg hbrace]
  by_cases hpercent : c = '%'
  · rw [if_pos hpercent]
    subst hpercent
    have hlast : ∀ s : Reader, s.place = .triplet false → ∀ c d : CodePoint, c.isHexDigit → d.isHexDigit →
        s.run [c, d] = .ok (s.takeAll [c, d] .literal) := by
      intro s hs c d hc hd
      rw [Reader.run_cons (Reader.step_hex hc hs), Reader.run_cons (Reader.step_hex hd rfl)]
      simp
    refine (percentTriplet (p := p.enter .elements) hrest hpass (.element _) .elementDigits (.inl rfl)
      (Reader.step_percent hplace) hlast).bind ?_
    rintro _ _ ⟨x, r', rfl⟩
    exact pure (hstep (.triplet x) r')
  rw [if_neg hpercent]
  by_cases hliteral : c.isLiteral = true
  · rw [if_pos hliteral]
    have hreads := Reader.step_literal hliteral hbrace hpercent (s := (p.enter .elements).reader) hplace
    have hgo := Point.goes_take (p := p.enter .elements) hrest hreads hpass (.element c)
    exact (Leads.advance (hgo.note _)).bind (pure (hstep (.char c hliteral hbrace hpercent) r))
  · rw [if_neg hliteral]
    have hstep : (p.enter .elements).reader.step c = .error (.malformed (.character p.behind.length)) := by
      rw [Reader.step, Point.reader_place]
      simp only [Point.enter, hplace, if_neg hbrace, if_neg hpercent, if_neg hliteral]
      rfl
    have hfails := hp.fails_of_step hrest hstep (ParseFailure.foundAt_of_offset rfl (Int.le_refl _))
    exact forget (Leads.position.bind (fail hfails))

theorem items (h : AtElement (0, []) p) :
    Descends t Descent.items p fun x p' => AtElement x p' ∧ p'.rest = [] := by
  refine loop AtElement ?_ h
  rintro x p hp hx
  refine ⟨!p.rest.isEmpty, p, Leads.atEnd.trans Leads.pure, rfl, ?_, ?_⟩
  · intro hend
    exact ⟨hx, by simpa using hend⟩
  · intro hgo
    have hne : p.rest ≠ [] := by simpa using hgo
    obtain ⟨c, r, hrest⟩ := List.exists_cons_of_ne_nil hne
    refine ⟨by simp [hx.busy], by rw [hx.passes]; rfl, hp.length_behind_lt hne, ?_⟩
    exact (element hx hrest).bind fun y p' hy => pure hy

theorem elements (h : AtElement (0, []) p) :
    Descends t Descent.elements p fun es p' => parseElements t = .ok es ∧ p'.rest = [] ∧ p'.passes = [] := by
  refine (items h).bind ?_
  rintro _ p ⟨⟨rfl, hplace, -, hnone⟩, hrest⟩
  refine of_fits fun hp => closeLiteral.mono ?_
  rintro _ _ ⟨rfl, rfl⟩
  refine ⟨?_, hrest, hnone⟩
  rw [← hp.reads, hrest]
  rw [Reader.readAll_nil, Reader.finish, Point.reader_place, hplace]
  simp only [Point.reader_closed, List.reverse_reverse]

end Descends

/-- **The cursor goes forward to the end.**  For every text the descent ends, with the elements of the text or its first
fault, and what happened on the way is in order: the cursor stays in the text and does not go back, the passes of each
loop move it on and are no more than there are characters, a variable ends at a comma or a brace, an expression is
closed by its brace, and no character is read that the text does not have.  Nothing of it is missing in the record. -/
theorem descend_orderly (t : Text) : ∃ history, descend t = some (parseElements t, history) ∧ Orderly t history ∧
    Complete t (parseElements t) history := by
  let p : Point := { before := [], current := [], rest := t, elements := [], place := .literal }
  have hstart : ({ cursor := { text := t } } : Walk).At t p :=
    ⟨⟨rfl, rfl⟩, rfl, ⟨.nil, rfl⟩, rfl, by simp, List.nil_subset _⟩
  obtain ⟨r, w, hrun, hr⟩ := Descends.elements (t := t) (p := p) ⟨rfl, rfl, rfl, rfl⟩ _ hstart
  have hdescend : descend t = some (r, w.history.reverse) := by rw [descend, hrun]; rfl
  cases r with
  | ok es =>
    obtain ⟨p', hw, hes, hrest, hpasses⟩ := hr
    rw [hes]
    refine ⟨_, hdescend, hw.sound.record.orderly, hw.sound.record.complete ⟨?_, hw.passes.trans hpasses⟩⟩
    rw [hw.standing, ← hw.fits.text, hrest, List.append_nil]
  | error f =>
    obtain ⟨hsound, hf, hfound⟩ := hr
    rw [hf]
    refine ⟨_, hdescend, hsound.record.orderly, hsound.record.complete ?_⟩
    rw [hsound.stands]
    exact hfound

namespace Descent

variable {α : Type} [Nonempty α] {l : Loop} {test : Descent Bool} {body : α → Descent (α ⊕ α)} {a a' : α}
  {w w' w'' : Walk}

theorem run_loop_again (htest : test.run.run w = some (.ok true, w'))
    (hpass : (pass l (body a)).run.run w' = some (.ok (.inl a'), w'')) :
    (loop l test body a).run.run w = (loop l test body a').run.run w'' := by
  rw [loop, repeatM_eq_of_monadTail]
  exact (run_bind ((run_bind htest).trans hpass)).trans rfl

theorem run_loop_last (htest : test.run.run w = some (.ok true, w'))
    (hpass : (pass l (body a)).run.run w' = some (.ok (.inr a'), w'')) :
    (loop l test body a).run.run w = some (.ok a', w'') := by
  rw [loop, repeatM_eq_of_monadTail]
  exact (run_bind ((run_bind htest).trans hpass)).trans rfl

theorem run_loop_done (htest : test.run.run w = some (.ok false, w')) :
    (loop l test body a).run.run w = some (.ok a, w') := by
  rw [loop, repeatM_eq_of_monadTail]
  exact (run_bind ((run_bind htest).trans rfl)).trans rfl

end Descent

open Descent in
/-- Over the name of `\x7ba\x7d` there are two passes, and the second one ends where it has begun. -/
theorem descend_rests_behind_name : ∃ history,
    descend "\x7ba\x7d" = some (parseElements "\x7ba\x7d", history) ∧ ⟨.ends .name 2 false, 2⟩ ∈ history := by
  let rest : Moment := ⟨.ends .name 2 false, 2⟩
  let e : Element := .expression ⟨"\x7ba\x7d", 0, 3⟩ .simple [{ name := "a" }]
  have hname : ∀ h, ∃ w, name.run.run ⟨⟨"\x7ba\x7d", 1⟩, h⟩ = some (.ok "a", w) ∧ w.cursor = ⟨"\x7ba\x7d", 2⟩ ∧
      rest ∈ w.history := by
    intro h
    exact ⟨_, (run_bind rfl).trans ((run_bind ((run_loop_again rfl rfl).trans (run_loop_last rfl rfl))).trans rfl), rfl,
      List.mem_cons_of_mem _ List.mem_cons_self⟩
  have hvariable : ∀ h, ∃ w, (pass .variables (nextReference [])).run.run ⟨⟨"\x7ba\x7d", 1⟩, h⟩ =
      some (.ok (.inr [{ name := "a" }]), w) ∧ w.cursor = ⟨"\x7ba\x7d", 3⟩ ∧ rest ∈ w.history := by
    intro h
    obtain ⟨⟨_, h'⟩, hname, rfl, hrest⟩ := hname (⟨.begins .variables, 1⟩ :: h)
    refine ⟨_, (run_bind rfl).trans ((run_bind rfl).trans ((run_bind
      ((run_bind ((run_bind hname).trans rfl)).trans rfl)).trans rfl)), rfl, ?_⟩
    simp [Walk.noted, Walk.moved, hrest]
  have hexpression : ∀ h, ∃ w, expression.run.run ⟨⟨"\x7ba\x7d", 0⟩, h⟩ = some (.ok e, w) ∧
      w.cursor = ⟨"\x7ba\x7d", 3⟩ ∧ rest ∈ w.history := by
    intro h
    obtain ⟨⟨_, h'⟩, hvariable, rfl, hrest⟩ := hvariable (⟨.reads 1, 1⟩ :: ⟨.moves, 1⟩ :: h)
    have hreferences : references.run.run _ = some (.ok [{ name := "a" }], _) := run_loop_last rfl hvariable
    exact ⟨_, (run_bind rfl).trans ((run_bind rfl).trans ((run_bind rfl).trans ((run_bind hreferences).trans rfl))), rfl,
      hrest⟩
  obtain ⟨⟨_, h'⟩, hexpression, rfl, hrest⟩ := hexpression [⟨.reads 0, 0⟩, ⟨.begins .elements, 0⟩]
  have hliteral : (closeLiteral 0 []).run.run ⟨⟨"\x7ba\x7d", 0⟩, [⟨.reads 0, 0⟩, ⟨.begins .elements, 0⟩]⟩ =
      some (.ok [], _) := rfl
  have helement : (element (0, [])).run.run ⟨⟨"\x7ba\x7d", 0⟩, [⟨.begins .elements, 0⟩]⟩ =
      some (.ok (3, [e]), ⟨⟨"\x7ba\x7d", 3⟩, h'⟩) :=
    (run_bind rfl).trans ((run_bind hliteral).trans ((run_bind hexpression).trans rfl))
  have hitems : items.run.run ⟨⟨"\x7ba\x7d", 0⟩, []⟩ =
      some (.ok (3, [e]), ⟨⟨"\x7ba\x7d", 3⟩, ⟨.ends .elements 0 true, 3⟩ :: h'⟩) :=
    (run_loop_again rfl ((run_bind rfl).trans ((run_bind rfl).trans
      ((run_bind ((run_bind helement).trans rfl)).trans rfl)))).trans (run_loop_done rfl)
  have helements : Descent.elements.run.run { cursor := { text := "\x7ba\x7d" } } = some (.ok [e], _) :=
    (run_bind hitems).trans rfl
  refine ⟨_, by rw [descend, helements]; rfl, ?_⟩
  exact List.mem_reverse.2 (List.mem_cons_of_mem _ hrest)

end UriTemplate
