import UriTemplate.Proofs.Absence
import UriTemplate.Proofs.Interruption

/-!
# Expressions that are split at a comma

An expression asks for the values of its references one after the other, and so do two expressions that share the
references between them.  What they write differs only where the second one begins.

* `collectReferences_append` — references one behind the other;
* `Operator.Continues` — an operator that goes on where another one has stopped: `.`, `/`, `;` and `&` go on from
  themselves, and `&` goes on from `?`;
* `Operator.Continues.assemble_split` — what the second expression writes, behind units of the first one and behind
  nothing;
* `exists_emitElement_run` — an expression and its two halves, in one world;
* `expressions_split_at_commas` — whole templates of this kind.
-/

namespace UriTemplate

/-! ## references one behind the other -/

theorem collectReferences_append (resolve : Resolver) (op : Operator) (rs ss : List VariableReference) :
    collectReferences resolve op (rs ++ ss) =
      collectReferences resolve op rs >>= fun _ => collectReferences resolve op ss := by
  simp only [collectReferences_eq_forM, List.forM_append]

/-! ## operators that go on -/

/-- The first operator writes its units like the second one, and begins with what stands between the units of that one. -/
structure Operator.Continues (op' op : Operator) : Prop where
  first : op'.first = some op.separator
  separator : op'.separator = op.separator
  policy : op'.policy = op.policy
  named : op'.named = op.named
  emptyEquals : op'.emptyEquals = op.emptyEquals

theorem Operator.queryContinuation_continues : queryContinuation.Continues query := ⟨rfl, rfl, rfl, rfl, rfl⟩

namespace Operator.Continues

variable {op op' : Operator}

theorem of_first (h : op.first = some op.separator) : op.Continues op := ⟨h, rfl, rfl, rfl, rfl⟩

theorem labelOf (h : op'.Continues op) : op'.labelOf = op.labelOf := by
  funext name
  rw [Operator.labelOf, Operator.labelOf, h.named]

/-- References yield the same units. -/
theorem collectReferences (h : op'.Continues op) (resolve : Resolver) (rs : List VariableReference) :
    UriTemplate.collectReferences resolve op' rs = UriTemplate.collectReferences resolve op rs := by
  have hvalue : ∀ r, collectValue op' r = collectValue op r := by
    intro r
    funext v
    cases v <;> simp only [collectValue, h.labelOf]
  have hreference : collectReference resolve op' = collectReference resolve op := by
    funext r
    rw [collectReference, collectReference, hvalue]
  rw [collectReferences_eq_forM, collectReferences_eq_forM, hreference]

/-- Units are written alike. -/
theorem written (h : op'.Continues op) (u : ExpansionUnit) : u.written op' = u.written op := by
  have htext : op'.valueText = op.valueText := by
    funext leaves
    rw [valueText, valueText, h.policy]
  have hsign : op'.equalsSign = op.equalsSign := by
    funext value
    rw [equalsSign, equalsSign, h.emptyEquals]
  have hlabel : op'.labelText? u.label = op.labelText? u.label := by
    cases u.label <;> simp only [labelText?, htext]
  rw [ExpansionUnit.written, ExpansionUnit.written, hlabel, htext, hsign]

/-- **What goes on behind a text** is written by the other operator; if there is no text, the same operator begins. -/
theorem assemble_split (h : op'.Continues op) (texts us : List Text) :
    op.assemble (texts ++ us) = op.assemble texts ++ (if texts = [] then op else op').assemble us := by
  by_cases htexts : texts = []
  · rw [if_pos htexts, htexts, List.nil_append, assemble_nil, List.nil_append]
  · have hcontinued : (!texts.isEmpty) = true := by simpa using htexts
    have hadded : op.added true us = op'.assemble us := by
      rw [added, assemble, h.first, h.separator]
      rfl
    rw [if_neg htexts, assemble_append, hcontinued, hadded]

end Operator.Continues

/-! ## expressions and their halves -/

section

variable (resolve : Resolver) {op op' : Operator} (rs ss : List VariableReference) (s s₁ s₂ s₃ : Span) (w : World)

/-- **An expression and its two halves.**  The first half writes some units, and the second half has more to write unless
the first one has failed.  The expression writes all of them. -/
theorem exists_emitElement_run (h : op'.Continues op) :
    ∃ (r₁ r : Except Fault Unit) (texts us : List Text) (w₁ w' : World), ∀ base,
      emitElement resolve (.expression s₁ op rs) (.ofSink base w) = (r₁, .ofSink (base ++ op.assemble texts) w₁) ∧
      emitElement resolve (.expression s op (rs ++ ss)) (.ofSink base w) =
        (r, .ofSink (base ++ op.assemble (texts ++ us)) w') ∧
      emitElements resolve [.expression s₂ op rs, .expression s₃ op' ss] (.ofSink base w) =
        (r, .ofSink (base ++ (op.assemble texts ++ op'.assemble us)) w') := by
  obtain ⟨r₁, units, w₁, hfirst⟩ := collectReferences_appends resolve op rs w
  have hfirst' := hfirst []
  rw [List.nil_append] at hfirst'
  cases r₁ with
  | error e =>
    have hwhole : collectReferences resolve op (rs ++ ss) { world := w } = (.error e, ⟨units, w₁⟩) := by
      rw [collectReferences_append, bind_of_error hfirst']
    -- behind a fault, nothing more is written on either side
    refine ⟨.error e, .error e, units.map (·.written op), [], w₁, w₁, fun base => ?_⟩
    have hemit := fun s => emitElement_expression resolve s op rs base w
    have hemit' := emitElement_expression resolve s op (rs ++ ss) base w
    simp only [hfirst'] at hemit
    rw [hwhole] at hemit'
    rw [List.append_nil, Operator.assemble_nil, List.append_nil]
    exact ⟨hemit s₁, hemit', bind_of_error (hemit s₂)⟩
  | ok =>
    obtain ⟨r, more, w', hsecond⟩ := collectReferences_appends resolve op ss w₁
    have hsecond' := hsecond []
    rw [List.nil_append] at hsecond'
    have hwhole : collectReferences resolve op (rs ++ ss) { world := w } = (r, ⟨units ++ more, w'⟩) := by
      rw [collectReferences_append, bind_of_ok hfirst', hsecond]
    refine ⟨.ok (), r, units.map (·.written op), more.map (·.written op), w₁, w', fun base => ?_⟩
    have hemit := fun s => emitElement_expression resolve s op rs base w
    have hemit' := emitElement_expression resolve s op (rs ++ ss) base w
    have hemit'' := emitElement_expression resolve s₃ op' ss (base ++ op.assemble (units.map (·.written op))) w₁
    simp only [hfirst'] at hemit
    rw [hwhole, Yield.output, List.map_append] at hemit'
    rw [h.collectReferences, hsecond', Yield.output] at hemit''
    simp only [h.written] at hemit''
    refine ⟨hemit s₁, hemit', (bind_of_ok (hemit s₂)).trans ?_⟩
    rw [← List.append_assoc]
    cases r with
    | error e => exact bind_of_error hemit''
    | ok => exact bind_of_ok hemit''

end

/-! ## templates -/

theorem VariableSpec.listed_append (x : VariableSpec) (xs : List VariableSpec) (y : VariableSpec) (ys : List VariableSpec) :
    x.listed (xs ++ y :: ys) = x.listed xs ++ (',' : CodePoint) :: y.listed ys := by
  induction xs generalizing x with
  | nil => rw [List.nil_append, listed_cons, listed_nil]
  | cons z xs ih => rw [List.cons_append, listed_cons, listed_cons, ih, List.append_assoc, List.cons_append]

/-- What a template writes into a sink is what it expands to. -/
theorem Template.expand_of_expandTo {t : Template} {sources : List Source} {named : Table Text Value} {w w' : World}
    {r : Except Fault Unit} {out : Text} (h : t.expandTo sources named (.ofSink [] w) = (r, .ofSink out w')) :
    t.expand sources named w = (r.map fun _ => out, w') := by
  have hempty : ({ world := w } : Output) = .ofSink [] w := rfl
  rw [expand, hempty, h]
  simp only [Output.sink_ofSink]
  rfl

/-- **Templates of an expression and of its two halves**: what they write into a sink. -/
theorem Operator.Continues.exists_templates {op op' : Operator} (h : op'.Continues op) (hop : op ∈ Operator.all)
    (hop' : op' ∈ Operator.all) (x : VariableSpec) (xs : List VariableSpec) (y : VariableSpec) (ys : List VariableSpec) :
    ∃ whole front parts : Template,
      Template.parse (op.braced (x.listed xs ++ (',' : CodePoint) :: y.listed ys)) = .ok whole ∧
      Template.parse (op.braced (x.listed xs)) = .ok front ∧
      Template.parse (op.braced (x.listed xs) ++ op'.braced (y.listed ys)) = .ok parts ∧
      whole.names = parts.names ∧
      ∀ sources named w, ∃ (r₁ r : Except Fault Unit) (texts us : List Text) (w₁ w' : World), ∀ base,
        front.expandTo sources named (.ofSink base w) = (r₁, .ofSink (base ++ op.assemble texts) w₁) ∧
        whole.expandTo sources named (.ofSink base w) = (r, .ofSink (base ++ op.assemble (texts ++ us)) w') ∧
        parts.expandTo sources named (.ofSink base w) =
          (r, .ofSink (base ++ (op.assemble texts ++ op'.assemble us)) w') := by
  let e : ExpressionSpec := ⟨op, hop, x, xs⟩
  let f : ExpressionSpec := ⟨op', hop', y, ys⟩
  let ef : ExpressionSpec := ⟨op, hop, x, xs ++ y :: ys⟩
  have htext : ef.text = op.braced (x.listed xs ++ (',' : CodePoint) :: y.listed ys) := by
    rw [ef.text_eq_braced, ExpressionSpec.body, VariableSpec.listed_append]
  have hreferences : ef.references = e.references ++ f.references := by
    simp only [ExpressionSpec.references, ExpressionSpec.specs, e, f, ef, List.map_cons, List.map_append, List.cons_append]
  obtain ⟨s, hwhole⟩ := ef.parse_text
  obtain ⟨s₁, hfront⟩ := e.parse_text
  obtain ⟨s₁', s₂, hparts⟩ := ExpressionSpec.parse_text_append e f
  rw [htext, hreferences] at hwhole
  refine ⟨_, _, _, hwhole, hfront, hparts, ?_, fun sources named w => ?_⟩
  · simp [Template.names, Element.names, Element.references]
  · cases hresolve : Resolver.ofSources sources named with
    | error fault =>
      refine ⟨.error fault, .error fault, [], [], w, w, fun base => ?_⟩
      simp only [Template.expandTo, hresolve, List.append_nil, Operator.assemble_nil]
      exact ⟨rfl, rfl, rfl⟩
    | ok resolve =>
      obtain ⟨r₁, r, texts, us, w₁, w', hrun⟩ :=
        exists_emitElement_run resolve e.references f.references s s₁ s₁' s₂ w h
      refine ⟨r₁, r, texts, us, w₁, w', fun base => ?_⟩
      simp only [Template.expandTo_of_resolver hresolve, emitElements_singleton]
      exact hrun base

namespace Operator

variable {op : Operator} {first : Text} (h : op.first = some first) {texts : List Text}
include h

theorem assemble_of_ne_nil (htexts : texts ≠ []) : op.assemble texts = first ++ Text.join op.separator texts := by
  rw [assemble, if_neg htexts, h, Option.getD_some]

/-- An operator with a prefix writes nothing only if there are no units. -/
theorem assemble_eq_nil_iff (hfirst : first ≠ []) : op.assemble texts = [] ↔ texts = [] := by
  by_cases htexts : texts = []
  · simp [htexts]
  · simp [assemble_of_ne_nil h htexts, hfirst, htexts]

end Operator

/-- **Expressions may be split at any comma.**  If an operator's prefix is its separator, the expression and its two halves
write the same text into every sink, and the world is the same behind both: the same names were asked for, one after the
other.  This holds for failures too, with what was written before.  A query's second half goes on with `&`.  If the first
half by itself writes anything, which it does as soon as it has a unit, the two results are equal; otherwise both are
empty, or they differ in their first character. -/
theorem expressions_split_at_commas (x : VariableSpec) (xs : List VariableSpec) (y : VariableSpec)
    (ys : List VariableSpec) :
    (∀ op ∈ Operator.all, op.first = some op.separator → ∃ whole parts : Template,
      Template.parse (op.braced (x.listed xs ++ (',' : CodePoint) :: y.listed ys)) = .ok whole ∧
      Template.parse (op.braced (x.listed xs) ++ op.braced (y.listed ys)) = .ok parts ∧
      whole.names = parts.names ∧
      ∀ sources named, whole.expandTo sources named = parts.expandTo sources named ∧
        whole.expand sources named = parts.expand sources named) ∧
    ∃ whole front parts : Template,
      Template.parse (Operator.query.braced (x.listed xs ++ (',' : CodePoint) :: y.listed ys)) = .ok whole ∧
      Template.parse (Operator.query.braced (x.listed xs)) = .ok front ∧
      Template.parse (Operator.query.braced (x.listed xs) ++ Operator.queryContinuation.braced (y.listed ys)) =
        .ok parts ∧
      whole.names = parts.names ∧
      ∀ sources named w, ∃ (r₁ r : Except Fault Unit) (out₁ out out' : Text) (w₁ w' : World),
        (∀ base,
          front.expandTo sources named (.ofSink base w) = (r₁, .ofSink (base ++ out₁) w₁) ∧
          whole.expandTo sources named (.ofSink base w) = (r, .ofSink (base ++ out) w') ∧
          parts.expandTo sources named (.ofSink base w) = (r, .ofSink (base ++ out') w')) ∧
        whole.expand sources named w = (r.map fun _ => out, w') ∧
        parts.expand sources named w = (r.map fun _ => out', w') ∧
        (out₁ ≠ [] → out = out') ∧
        (out₁ = [] → out = [] ∧ out' = [] ∨
          ∃ rest, out = ('?' : CodePoint) :: rest ∧ out' = ('&' : CodePoint) :: rest) := by
  constructor
  · intro op hop hfirst
    have hcontinues := Operator.Continues.of_first hfirst
    obtain ⟨whole, front, parts, hwhole, -, hparts, hnames, hrun⟩ := hcontinues.exists_templates hop hop x xs y ys
    have hexpandTo : ∀ sources named, whole.expandTo sources named = parts.expandTo sources named := by
      intro sources named
      funext o
      obtain ⟨r₁, r, texts, us, w₁, w', hbase⟩ := hrun sources named o.world
      obtain ⟨-, hboth, hhalves⟩ := hbase o.sink
      rw [hcontinues.assemble_split, ite_self] at hboth
      rw [← o.ofSink_sink, hboth, hhalves]
    refine ⟨whole, parts, hwhole, hparts, hnames, fun sources named => ⟨hexpandTo sources named, ?_⟩⟩
    funext w
    rw [Template.expand, Template.expand, hexpandTo]
  · have hcontinues := Operator.queryContinuation_continues
    obtain ⟨whole, front, parts, hwhole, hfront, hparts, hnames, hrun⟩ :=
      hcontinues.exists_templates (by decide) (by decide) x xs y ys
    refine ⟨whole, front, parts, hwhole, hfront, hparts, hnames, fun sources named w => ?_⟩
    obtain ⟨r₁, r, texts, us, w₁, w', hbase⟩ := hrun sources named w
    obtain ⟨-, hboth, hhalves⟩ := hbase []
    refine ⟨r₁, r, _, _, _, w₁, w', hbase, Template.expand_of_expandTo hboth, Template.expand_of_expandTo hhalves, ?_, ?_⟩
    · intro hout
      rw [ne_eq, Operator.assemble_eq_nil_iff rfl (by decide)] at hout
      rw [hcontinues.assemble_split, if_neg hout]
    · intro hout
      rw [Operator.assemble_eq_nil_iff rfl (by decide)] at hout
      rw [hout, List.nil_append, Operator.assemble_nil, List.nil_append]
      by_cases hus : us = []
      · rw [hus]
        exact .inl ⟨rfl, rfl⟩
      · right
        have hfirst : Operator.query.first = some [('?' : CodePoint)] := rfl
        have hfirst' : Operator.queryContinuation.first = some [('&' : CodePoint)] := rfl
        exact ⟨_, Operator.assemble_of_ne_nil hfirst hus, Operator.assemble_of_ne_nil hfirst' hus⟩

/-- A list behind a value, and behind nothing. -/
theorem expressions_split_at_commas_list :
    let named : Table Text Value := [("x", .text "1"), ("l", .list [.text "2", .list [.null], .text "3"])]
    ∃ whole parts whole' parts' : Template,
      Template.parse ("{/x,l*}" : Text) = .ok whole ∧ Template.parse ("{/x}{/l*}" : Text) = .ok parts ∧
      whole.expand [] named {} = (.ok "/1/2/3", {}) ∧ parts.expand [] named {} = (.ok "/1/2/3", {}) ∧
      Template.parse ("{?u,l*}" : Text) = .ok whole' ∧ Template.parse ("{?u}{&l*}" : Text) = .ok parts' ∧
      whole'.expand [] named {} = (.ok "?l=2&l=3", {}) ∧ parts'.expand [] named {} = (.ok "&l=2&l=3", {}) := by
  intro named
  let x : VariableSpec := ⟨⟨.char 'x' rfl, []⟩, .none⟩
  let u : VariableSpec := ⟨⟨.char 'u' rfl, []⟩, .none⟩
  let l : VariableSpec := ⟨⟨.char 'l' rfl, []⟩, .explode⟩
  obtain ⟨hsame, -⟩ := expressions_split_at_commas x [] l []
  obtain ⟨-, hquery⟩ := expressions_split_at_commas u [] l []
  obtain ⟨whole, parts, hwhole, hparts, -, hexpand⟩ := hsame .pathSegment (by decide) rfl
  obtain ⟨whole', front, parts', hwhole', hfront, hparts', -, hrun⟩ := hquery
  have htext : whole.expand [] named {} = (.ok "/1/2/3", {}) := by
    obtain rfl := Except.ok.inj hwhole
    rfl
  have htext' : whole'.expand [] named {} = (.ok "?l=2&l=3", {}) := by
    obtain rfl := Except.ok.inj hwhole'
    rfl
  refine ⟨whole, parts, whole', parts', hwhole, hparts, htext, ?_, hwhole', hparts', htext', ?_⟩
  · rw [← (hexpand [] named).2, htext]
  · obtain ⟨r₁, r, out₁, out, out', w₁, w', hbase, hout, hout', -, hnone⟩ := hrun [] named {}
    have hfirst : out₁ = [] := by
      obtain rfl := Except.ok.inj hfront
      have hsink := congrArg Output.sink (Prod.mk.inj (hbase []).1).2
      rwa [Output.sink_ofSink, List.nil_append, eq_comm] at hsink
    rw [htext'] at hout
    obtain ⟨hr, rfl⟩ := Prod.mk.inj hout
    cases r with
    | error e => cases hr
    | ok =>
      obtain rfl := Except.ok.inj hr
      obtain ⟨⟨⟩, -⟩ | ⟨rest, hrest, rfl⟩ := hnone hfirst
      obtain rfl := List.tail_eq_of_cons_eq hrest
      exact hout'

end UriTemplate
