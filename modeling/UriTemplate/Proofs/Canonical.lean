import UriTemplate.Proofs.Acceptance
import UriTemplate.Proofs.Numerals
import UriTemplate.Expansion

/-!
# Canonical spelling

Elements are printed, and what is printed is read again.

* `LiteralText`, `VariableReference.Spellable`, `Spellable` — literal texts, and the references and elements that have
  a spelling;
* `relaid` — elements as they stand one behind the other, each with its own spelling;
* `Spellable.exists_derivation`, `Derivation.spellable` — spellable elements and derivations are the same thing;
* `Derivation.references_elementsFrom` — the references of the elements that a derivation stands for;
* `Derivation.canonical` — a derivation with the shortest numerals for its limits;
* `parse_canonical` — reading undoes printing, and printing undoes reading up to leading zeros.
-/

namespace UriTemplate

/-! ## what can be printed -/

/-- Literal characters and percent triplets. -/
inductive LiteralText : Text → Prop
  | nil : LiteralText []
  | char {c : CodePoint} (isLiteral : c.isLiteral) (ne_brace : c ≠ '{') (ne_percent : c ≠ '%') {t : Text}
    (rest : LiteralText t) : LiteralText (c :: t)
  | triplet (p : Triplet) {t : Text} (rest : LiteralText t) : LiteralText (p.text ++ t)

/-- A reference with a name of the grammar, and with a limit from 1 to 9999 or the mark of explosion, or neither. -/
def VariableReference.Spellable (v : VariableReference) : Prop :=
  (∃ n : Name, v.name = n.text) ∧ ∀ l, v.limit = some l → 1 ≤ l ∧ l ≤ 9999 ∧ v.explode = false

/-- Literals that are not empty, with no two side by side, and expressions with one of the eight operators and at
least one reference. -/
inductive Spellable : List Element → Prop
  | nil : Spellable []
  | literal (s : Span) (ne_nil : s.text ≠ []) (isLiteral : LiteralText s.text) {es : List Element}
    (apart : ∀ s' r, es ≠ .literal s' :: r) (rest : Spellable es) : Spellable (.literal s :: es)
  | expression (s : Span) {op : Operator} (operator_mem : op ∈ Operator.all) {vs : List VariableReference}
    (ne_nil : vs ≠ []) (references : ∀ v ∈ vs, v.Spellable) {es : List Element} (rest : Spellable es) :
    Spellable (.expression s op vs :: es)

/-! ## what is read again -/

/-- An element with a new span: its own spelling, from `start` on. -/
def Element.respelled (start : Nat) : Element → Element
  | .literal s => .literal ⟨s.text, start, start + s.text.length⟩
  | .bare s => .bare ⟨s.text, start, start + s.text.length⟩
  | .expression s op vs =>
    .expression ⟨(expression s op vs).render, start, start + (expression s op vs).render.length⟩ op vs

/-- Elements one behind the other, each with its own spelling, from `start` on. -/
def relaid (start : Nat) : List Element → List Element
  | [] => []
  | e :: es => e.respelled start :: relaid (start + e.render.length) es

/-- The text of a template in its shortest spelling. -/
def Template.canonical (t : Template) : Text := t.elements.flatMap Element.render

@[simp] theorem Element.render_respelled (e : Element) (start : Nat) : (e.respelled start).render = e.render := by
  cases e <;> rfl

theorem flatMap_render_relaid (es : List Element) (start : Nat) :
    (relaid start es).flatMap Element.render = es.flatMap Element.render := by
  induction es generalizing start with
  | nil => rfl
  | cons e es ih => rw [relaid, List.flatMap_cons, List.flatMap_cons, Element.render_respelled, ih]

/-- Spans make no difference to an expansion. -/
theorem emitElements_relaid (resolve : Resolver) (es : List Element) (start : Nat) :
    emitElements resolve (relaid start es) = emitElements resolve es := by
  induction es generalizing start with
  | nil => rfl
  | cons e es ih =>
    rw [relaid, emitElements, emitElements, ih]
    cases e <;> rfl

namespace Derivation

/-! ## from elements to derivations -/

theorem exists_literal {t : Text} (h : LiteralText t) :
    ∃ items : Derivation, items.text = t ∧
      ∀ (d : Derivation) (start : Nat),
        elementsFrom start (items ++ d) = glue start t (elementsFrom (start + t.length) d) := by
  induction h with
  | nil => exact ⟨[], rfl, fun d start => by simp⟩
  | @char c hl hb hp t _ ih =>
    obtain ⟨items, htext, hitems⟩ := ih
    refine ⟨.char c hl hb hp :: items, by rw [text_cons, htext]; rfl, fun d start => ?_⟩
    have hglue := glue_glue start [c] t (elementsFrom (start + 1 + t.length) d)
    rw [List.cons_append, elementsFrom, hitems, List.length_cons, Nat.add_comm t.length 1, ← Nat.add_assoc]
    exact hglue
  | @triplet p t _ ih =>
    obtain ⟨items, htext, hitems⟩ := ih
    refine ⟨.triplet p :: items, by rw [text_cons, htext]; rfl, fun d start => ?_⟩
    have hglue := glue_glue start p.text t (elementsFrom (start + 3 + t.length) d)
    rw [List.cons_append, elementsFrom, hitems, List.length_append, ← Nat.add_assoc]
    exact hglue

end Derivation

/-- The limit with the numeral of `n` for its digits. -/
def Limit.ofNat (n : Nat) (h1 : 1 ≤ n) (h2 : n ≤ 9999) : Limit where
  digits := Text.ofNat n
  isDigit _ hc := Text.isDigit_of_mem_ofNat hc
  length_pos := List.length_pos_iff.2 (Text.ofNat_ne_nil n)
  length_le := Nat.le_trans (Text.length_ofNat_le (by decide : 0 < 4) (by omega)) (by decide)
  value_pos := by rwa [digitsValue_ofNat]
  value_le := by rwa [digitsValue_ofNat]

theorem VariableReference.Spellable.exists_spec {v : VariableReference} (h : v.Spellable) :
    ∃ w : VariableSpec, w.reference = v ∧ w.text = v.render := by
  obtain ⟨name, limit, explode⟩ := v
  obtain ⟨⟨n, rfl⟩, hlimit⟩ := h
  cases limit with
  | none =>
    cases explode with
    | false => exact ⟨⟨n, .none⟩, rfl, List.append_nil _⟩
    | true => exact ⟨⟨n, .explode⟩, rfl, rfl⟩
  | some l =>
    obtain ⟨h1, h2, hexplode⟩ := hlimit l rfl
    obtain rfl : explode = false := hexplode
    obtain ⟨k, rfl⟩ := Int.eq_ofNat_of_zero_le (by omega : 0 ≤ l)
    refine ⟨⟨n, .limit (.ofNat k (by omega) (by omega))⟩, ?_, rfl⟩
    simp [VariableSpec.reference, Limit.ofNat, digitsValue_ofNat]

theorem exists_specs {vs : List VariableReference} (h : ∀ v ∈ vs, v.Spellable) :
    ∃ ws : List VariableSpec, ws.map VariableSpec.reference = vs ∧
      ws.map VariableSpec.text = vs.map VariableReference.render := by
  induction vs with
  | nil => exact ⟨[], rfl, rfl⟩
  | cons v vs ih =>
    obtain ⟨w, href, htext⟩ := (h v (by simp)).exists_spec
    obtain ⟨ws, hrefs, htexts⟩ := ih fun v' hv => h v' (List.mem_cons_of_mem _ hv)
    exact ⟨w :: ws, by simp [href, hrefs], by simp [htext, htexts]⟩

/-- **Spellable elements are the elements of a derivation**, whose text is what is printed. -/
theorem Spellable.exists_derivation {es : List Element} (h : Spellable es) :
    ∃ d : Derivation, d.text = es.flatMap Element.render ∧ ∀ start, d.elementsFrom start = relaid start es := by
  induction h with
  | nil => exact ⟨[], rfl, fun _ => rfl⟩
  | @literal s hne hs es apart _ ih =>
    obtain ⟨d, htext, hd⟩ := ih
    obtain ⟨items, hitems, hfrom⟩ := Derivation.exists_literal hs
    refine ⟨items ++ d, by rw [Derivation.text_append, hitems, htext]; rfl, fun start => ?_⟩
    -- a literal next to this one would become part of it
    have happart : ∀ s' r, relaid (start + s.text.length) es ≠ .literal s' :: r := by
      intro s' r heq
      cases es with
      | nil => cases heq
      | cons e es =>
        cases e with
        | literal s₂ => exact apart s₂ es rfl
        | expression => cases (List.cons.inj heq).1
        | bare => cases (List.cons.inj heq).1
    rw [hfrom, hd, Derivation.glue_of_not_literal hne happart]
    rfl
  | @expression s op hop vs hne hvs es _ ih =>
    obtain ⟨d, htext, hd⟩ := ih
    obtain ⟨ws, rfl, htexts⟩ := exists_specs hvs
    cases ws with
    | nil => exact absurd rfl hne
    | cons w ws =>
      have he : (ExpressionSpec.mk op hop w ws).text = (Element.expression s op ((w :: ws).map VariableSpec.reference)).render := by
        rw [Element.render, ← htexts]
        rfl
      refine ⟨.expression ⟨op, hop, w, ws⟩ :: d, ?_, fun start => ?_⟩
      · rw [Derivation.text_cons, htext, List.flatMap_cons, ← he]
        rfl
      · rw [Derivation.elementsFrom, hd, he]
        rfl

/-! ## from derivations to elements -/

theorem LiteralText.append {t u : Text} (ht : LiteralText t) (hu : LiteralText u) : LiteralText (t ++ u) := by
  induction ht with
  | nil => exact hu
  | char hl hb hp _ ih => exact .char hl hb hp ih
  | triplet p _ ih =>
    rw [List.append_assoc]
    exact .triplet p ih

theorem VariableSpec.spellable_reference (v : VariableSpec) : v.reference.Spellable := by
  obtain ⟨n, m⟩ := v
  cases m with
  | none => exact ⟨⟨n, rfl⟩, fun l hl => by cases hl⟩
  | explode => exact ⟨⟨n, rfl⟩, fun l hl => by cases hl⟩
  | limit k =>
    refine ⟨⟨n, rfl⟩, fun l hl => ?_⟩
    obtain rfl := Option.some.inj hl
    have h1 := k.value_pos
    have h2 := k.value_le
    exact ⟨by omega, by omega, rfl⟩

theorem Spellable.bare_not_mem {es : List Element} (h : Spellable es) (s : Span) : .bare s ∉ es := by
  induction h with
  | nil => simp
  | literal _ _ _ _ _ ih => simpa using ih
  | expression _ _ _ _ _ ih => simpa using ih

theorem Spellable.literal_mem {es : List Element} (h : Spellable es) {s : Span} (hmem : .literal s ∈ es) :
    LiteralText s.text := by
  induction h with
  | nil => cases hmem
  | literal s' _ hs _ _ ih =>
    rcases List.mem_cons.1 hmem with heq | hmem
    · cases heq
      exact hs
    · exact ih hmem
  | expression _ _ _ _ _ ih => exact ih (by simpa using hmem)

theorem Spellable.expression_mem {es : List Element} (h : Spellable es) {s : Span} {op : Operator}
    {rs : List VariableReference} (hmem : .expression s op rs ∈ es) : op ∈ Operator.all ∧ ∀ r ∈ rs, r.Spellable := by
  induction h with
  | nil => cases hmem
  | literal _ _ _ _ _ ih => exact ih (by simpa using hmem)
  | expression _ hop _ hvs _ ih =>
    rcases List.mem_cons.1 hmem with heq | hmem
    · cases heq
      exact ⟨hop, hvs⟩
    · exact ih hmem

/-- Literal text in front of spellable elements. -/
theorem Spellable.glue {es : List Element} (h : Spellable es) {t : Text} (ht : LiteralText t) (start : Nat) :
    Spellable (Derivation.glue start t es) := by
  by_cases hnil : t = []
  · rwa [hnil, Derivation.glue_nil]
  by_cases hlit : ∃ s r, es = .literal s :: r
  · obtain ⟨s, r, rfl⟩ := hlit
    rw [Derivation.glue_literal hnil]
    cases h with
    | literal _ _ hs apart rest => exact .literal _ (by simp [hnil]) (ht.append hs) apart rest
  · have happart : ∀ s r, es ≠ .literal s :: r := fun s r e => hlit ⟨s, r, e⟩
    rw [Derivation.glue_of_not_literal hnil happart]
    exact .literal _ hnil ht happart h

namespace Derivation

/-- **The elements of a derivation are spellable.** -/
theorem spellable (d : Derivation) (start : Nat) : Spellable (d.elementsFrom start) := by
  induction d generalizing start with
  | nil => exact .nil
  | cons i d ih =>
    cases i with
    | char c hl hb hp => exact (ih _).glue (.char hl hb hp .nil) start
    | triplet p => exact (ih _).glue (by simpa using LiteralText.triplet p .nil) start
    | expression e =>
      refine .expression _ e.operator_mem (by simp [ExpressionSpec.references, ExpressionSpec.specs]) ?_ (ih _)
      intro v hv
      obtain ⟨w, -, rfl⟩ := List.mem_map.1 hv
      exact w.spellable_reference

theorem flatMap_render_glue (start : Nat) (t : Text) (es : List Element) :
    (glue start t es).flatMap Element.render = t ++ es.flatMap Element.render := by
  by_cases ht : t = []
  · rw [ht, glue_nil, List.nil_append]
  by_cases h : ∃ s r, es = .literal s :: r
  · obtain ⟨s, r, rfl⟩ := h
    rw [glue_literal ht, List.flatMap_cons, List.flatMap_cons]
    exact List.append_assoc ..
  · rw [glue_of_not_literal ht fun s r e => h ⟨s, r, e⟩, List.flatMap_cons]
    rfl

end Derivation

/-! ## references in the source -/

/-- The variables of an item. -/
def Item.specs : Item → List VariableSpec
  | .expression e => e.specs
  | .char .. | .triplet _ => []

namespace Derivation

theorem references_glue (start : Nat) (t : Text) (es : List Element) :
    (glue start t es).flatMap Element.references = es.flatMap Element.references := by
  unfold glue
  split
  · rfl
  · split <;> rfl

/-- The references of the elements are the variables of the derivation, in order. -/
theorem references_elementsFrom (d : Derivation) (start : Nat) :
    (d.elementsFrom start).flatMap Element.references = (d.flatMap Item.specs).map VariableSpec.reference := by
  induction d generalizing start with
  | nil => rfl
  | cons i d ih =>
    cases i with
    | char c hl hb hp => rw [elementsFrom, references_glue, ih]; rfl
    | triplet p => rw [elementsFrom, references_glue, ih]; rfl
    | expression e =>
      rw [elementsFrom, List.flatMap_cons, ih, List.flatMap_cons, List.map_append]
      rfl

end Derivation

/-! ## the shortest numerals -/

def Limit.canonical (l : Limit) : Limit := .ofNat (digitsValue l.digits) l.value_pos l.value_le

def Modifier.canonical : Modifier → Modifier
  | .limit l => .limit l.canonical
  | m => m

def VariableSpec.canonical (v : VariableSpec) : VariableSpec := { v with modifier := v.modifier.canonical }

def ExpressionSpec.canonical (e : ExpressionSpec) : ExpressionSpec :=
  { e with first := e.first.canonical, rest := e.rest.map VariableSpec.canonical }

def Item.canonical : Item → Item
  | .expression e => .expression e.canonical
  | i => i

def Derivation.canonical (d : Derivation) : Derivation := d.map Item.canonical

def Modifier.limits : Modifier → List Limit
  | .limit l => [l]
  | _ => []

def Item.limits : Item → List Limit
  | .expression e => e.specs.flatMap fun v => v.modifier.limits
  | _ => []

/-- The character limits of a derivation. -/
def Derivation.limits (d : Derivation) : List Limit := d.flatMap Item.limits

theorem map_eq_self_iff {α : Type} {f : α → α} {l : List α} : l.map f = l ↔ ∀ a ∈ l, f a = a := by
  simpa using List.map_inj_left (f := f) (g := id) (l := l)

theorem Limit.canonical_eq_iff (l : Limit) : l.canonical = l ↔ l.digits.head? ≠ some '0' := by
  rw [← ofNat_digitsValue_iff l.isDigit l.value_pos]
  cases l
  simp [Limit.canonical, Limit.ofNat]

theorem Modifier.canonical_eq_iff (m : Modifier) :
    m.canonical = m ↔ ∀ l ∈ m.limits, l.digits.head? ≠ some '0' := by
  cases m with
  | none => simp [canonical, limits]
  | explode => simp [canonical, limits]
  | limit l => simpa [canonical, limits] using l.canonical_eq_iff

theorem VariableSpec.canonical_eq_iff (v : VariableSpec) :
    v.canonical = v ↔ ∀ l ∈ v.modifier.limits, l.digits.head? ≠ some '0' := by
  rw [← Modifier.canonical_eq_iff]
  cases v
  simp [canonical]

theorem ExpressionSpec.canonical_eq_iff (e : ExpressionSpec) :
    e.canonical = e ↔ ∀ v ∈ e.specs, v.canonical = v := by
  cases e
  simp [canonical, specs, map_eq_self_iff]

theorem Item.canonical_eq_iff (i : Item) : i.canonical = i ↔ ∀ l ∈ i.limits, l.digits.head? ≠ some '0' := by
  cases i with
  | char => simp [canonical, limits]
  | triplet => simp [canonical, limits]
  | expression e =>
    simp only [canonical, limits, expression.injEq, e.canonical_eq_iff, VariableSpec.canonical_eq_iff, List.mem_flatMap]
    constructor
    · rintro h l ⟨v, hv, hl⟩
      exact h v hv l hl
    · intro h v hv l hl
      exact h l ⟨v, hv, hl⟩

namespace Derivation

theorem canonical_eq_iff (d : Derivation) : d.canonical = d ↔ ∀ l ∈ d.limits, l.digits.head? ≠ some '0' := by
  simp only [canonical, limits, map_eq_self_iff, Item.canonical_eq_iff, List.mem_flatMap]
  constructor
  · rintro h l ⟨i, hi, hl⟩
    exact h i hi l hl
  · intro h i hi l hl
    exact h l ⟨i, hi, hl⟩

end Derivation

theorem VariableSpec.text_canonical (v : VariableSpec) : v.canonical.text = v.reference.render := by
  obtain ⟨n, m⟩ := v
  cases m with
  | none => exact List.append_nil _
  | explode => rfl
  | limit l => rfl

theorem ExpressionSpec.text_canonical (e : ExpressionSpec) (s : Span) :
    e.canonical.text = (Element.expression s e.operator e.references).render := by
  have htexts : (e.canonical.first :: e.canonical.rest).map VariableSpec.text =
      e.references.map VariableReference.render := by
    simp [canonical, references, specs, VariableSpec.text_canonical]
  rw [text, body, VariableSpec.listed, htexts]
  rfl

namespace Derivation

/-- The elements of a derivation are printed as its canonical spelling. -/
theorem text_canonical (d : Derivation) (start : Nat) :
    d.canonical.text = (d.elementsFrom start).flatMap Element.render := by
  induction d generalizing start with
  | nil => rfl
  | cons i d ih =>
    have hcons : canonical (i :: d) = i.canonical :: canonical d := rfl
    rw [hcons, text_cons]
    cases i with
    | char c hl hb hp => rw [elementsFrom, flatMap_render_glue, ← ih]; rfl
    | triplet p => rw [elementsFrom, flatMap_render_glue, ← ih]; rfl
    | expression e =>
      rw [elementsFrom, List.flatMap_cons, ← ih, ← e.text_canonical]
      rfl

end Derivation

theorem parseElements_render {es : List Element} (h : Spellable es) :
    parseElements (es.flatMap Element.render) = .ok (relaid 0 es) := by
  obtain ⟨d, htext, hd⟩ := h.exists_derivation
  rw [← htext, parseElements_text, Derivation.elements, hd]

theorem Template.parse_eq_ok_iff (source : Text) (t : Template) :
    parse source = .ok t ↔ t.source = source ∧ parseElements source = .ok t.elements := by
  unfold parse
  cases h : parseElements source with
  | error e => simp [bind, Except.bind]
  | ok es =>
    obtain ⟨s, es'⟩ := t
    simp only [bind, Except.bind, pure, Except.pure, Except.ok.injEq, Template.mk.injEq, and_congr_left_iff]
    exact fun _ => eq_comm

/-- The template of a derivation. -/
theorem Derivation.parse_text (d : Derivation) : Template.parse d.text = .ok ⟨d.text, d.elements⟩ :=
  (Template.parse_eq_ok_iff _ _).2 ⟨rfl, parseElements_text d⟩

/-- The template of an expression. -/
theorem ExpressionSpec.parse_text (e : ExpressionSpec) :
    ∃ s, Template.parse e.text = .ok ⟨e.text, [.expression s e.operator e.references]⟩ := by
  have h := Derivation.parse_text [.expression e]
  rw [Derivation.text_cons, Derivation.text_nil, List.append_nil] at h
  exact ⟨_, h⟩

/-- The template of two expressions. -/
theorem ExpressionSpec.parse_text_append (e f : ExpressionSpec) :
    ∃ s s', Template.parse (e.text ++ f.text) =
      .ok ⟨e.text ++ f.text, [.expression s e.operator e.references, .expression s' f.operator f.references]⟩ := by
  have h := Derivation.parse_text [.expression e, .expression f]
  rw [Derivation.text_cons, Derivation.text_cons, Derivation.text_nil, List.append_nil] at h
  exact ⟨_, _, h⟩

/-- What was read can be printed. -/
theorem Template.spellable {source : Text} {t : Template} (h : parse source = .ok t) : Spellable t.elements := by
  obtain ⟨d, -, hd⟩ := exists_derivation ((parse_eq_ok_iff source t).1 h).2
  rw [← hd]
  exact d.spellable 0

/-- **Reading undoes printing, and printing undoes reading up to leading zeros.**  Spellable elements are read again
from their spellings, with spans that are running offsets.  The spelling of a template that was read is read as the
same elements, it expands to the same texts, and is its own spelling; it is the source exactly if no limit of the
source's derivation has a leading zero. -/
theorem parse_canonical :
    (∀ es, Spellable es → parseElements (es.flatMap Element.render) = .ok (relaid 0 es)) ∧
    ∀ source t, Template.parse source = .ok t →
      ∃ t', Template.parse t.canonical = .ok t' ∧ t'.elements = relaid 0 t.elements ∧
        (∀ sources named, t'.expandTo sources named = t.expandTo sources named ∧
          t'.expand sources named = t.expand sources named) ∧
        t'.canonical = t.canonical ∧
        ∃ d : Derivation, d.text = source ∧ (t.canonical = source ↔ ∀ l ∈ d.limits, l.digits.head? ≠ some '0') := by
  refine ⟨fun es h => parseElements_render h, fun source t h => ?_⟩
  obtain ⟨rfl, hparse⟩ := (Template.parse_eq_ok_iff source t).1 h
  obtain ⟨d, htext, hd⟩ := exists_derivation hparse
  have hto : ∀ sources named,
      (Template.mk t.canonical (relaid 0 t.elements)).expandTo sources named = t.expandTo sources named := by
    intro sources named
    simp only [Template.expandTo, emitElements_relaid]
  refine ⟨⟨t.canonical, relaid 0 t.elements⟩, ?_, rfl, fun sources named => ⟨hto sources named, ?_⟩,
    flatMap_render_relaid _ _, d, htext, ?_⟩
  · exact (Template.parse_eq_ok_iff _ _).2 ⟨rfl, parseElements_render (Template.spellable h)⟩
  · funext world
    simp only [Template.expand, hto]
  · have hcanonical : t.canonical = d.canonical.text := by rw [d.text_canonical 0, Template.canonical, ← hd]; rfl
    rw [hcanonical, ← htext, ← d.canonical_eq_iff]
    exact ⟨fun heq => Derivation.text_inj heq, fun heq => by rw [heq]⟩

theorem parse_canonical_leading_zeros :
    ∃ t t' : Template, Template.parse ("a%2F{+x.y:0012,z*}b" : Text) = .ok t ∧
      t.canonical = ("a%2F{+x.y:12,z*}b" : Text) ∧ Template.parse ("a%2F{+x.y:12,z*}b" : Text) = .ok t' ∧
      t'.elements = relaid 0 t.elements := by
  obtain ⟨t', hparse, helements, -⟩ := parse_canonical.2 "a%2F{+x.y:0012,z*}b" _ rfl
  exact ⟨_, t', rfl, by decide, hparse, helements⟩

end UriTemplate
