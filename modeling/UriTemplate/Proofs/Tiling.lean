import UriTemplate.Proofs.Canonical

/-!
# Elements tile their source

What is read covers the source without gaps and without overlaps.

* `Text.slice` — the part of a text between two offsets;
* `Tiles` — elements that cover a text from an offset to its end;
* `Apart`, `Element.Braced` — no two literals side by side, and braces only at the ends of expressions;
* `Derivation.tiles`, `Spellable.apart`, `Derivation.braced` — one lemma for each, along a derivation;
* `elements_tile_source` — the elements of a template tile its source, and so they determine it.
-/

namespace UriTemplate

/-! ## slices -/

namespace Text

/-- The part of a text between two offsets. -/
def slice (t : Text) (start stop : Nat) : Text := (t.take stop).drop start

variable (t : Text) {i j k : Nat}

theorem slice_append_drop (h : i ≤ j) : t.slice i j ++ t.drop j = t.drop i := by
  have hdrop : t.drop j = (t.drop i).drop (j - i) := by rw [List.drop_drop, Nat.add_sub_cancel' h]
  rw [slice, List.drop_take, hdrop, List.take_append_drop]

theorem slice_append_slice (hij : i ≤ j) (hjk : j ≤ k) : t.slice i j ++ t.slice j k = t.slice i k := by
  have hslice : slice (t.take k) i j = t.slice i j := by rw [slice, slice, List.take_take, Nat.min_eq_left hjk]
  rw [← hslice]
  exact slice_append_drop (t.take k) hij

/-- A part that is not empty ends behind its beginning. -/
theorem lt_of_slice_ne_nil (h : t.slice i j ≠ []) : i < j := by
  refine Nat.not_le.1 fun hle => h ?_
  rw [slice, List.drop_eq_nil_of_le]
  exact Nat.le_trans (List.length_take_le j t) hle

theorem slice_append (s u : Text) : slice (s ++ (t ++ u)) s.length (s.length + t.length) = t := by
  rw [slice, List.take_length_add_append, List.drop_left, List.take_left]

end Text

/-! ## tilings -/

/-- The elements cover the source from `start` to its end.  Each of them begins where the one before it ends, is not
empty, and has what stands between its offsets for its text. -/
def Tiles (source : Text) : Nat → List Element → Prop
  | start, [] => start = source.length
  | start, e :: es =>
    e.span.start = start ∧ e.span.text ≠ [] ∧ e.span.text = source.slice e.span.start e.span.stop ∧
      Tiles source e.span.stop es

namespace Tiles

variable {source : Text} {start : Nat}

/-- A piece of literal text in front of a tiling. -/
theorem glue {t : Text} (ht : source.slice start (start + t.length) = t) {es : List Element}
    (h : Tiles source (start + t.length) es) : Tiles source start (Derivation.glue start t es) := by
  by_cases hnil : t = []
  · subst hnil
    exact h
  by_cases hlit : ∃ s r, es = .literal s :: r
  · obtain ⟨s, r, rfl⟩ := hlit
    rw [Derivation.glue_literal hnil]
    obtain ⟨hstart, hne, htext, hrest⟩ := h
    simp only [Element.span] at hstart hne htext hrest
    have hlt : s.start < s.stop := source.lt_of_slice_ne_nil (htext ▸ hne)
    refine ⟨rfl, by simp [Element.span, hnil], ?_, hrest⟩
    calc t ++ s.text
        = source.slice start (start + t.length) ++ source.slice (start + t.length) s.stop := by rw [ht, htext, hstart]
      _ = source.slice start s.stop := source.slice_append_slice (by omega) (by omega)
  · rw [Derivation.glue_of_not_literal hnil fun s r e => hlit ⟨s, r, e⟩]
    exact ⟨rfl, hnil, ht.symm, h⟩

/-- **The texts of a tiling are the source.** -/
theorem flatMap_text {es : List Element} (h : Tiles source start es) :
    (es.flatMap fun e => e.span.text) = source.drop start := by
  induction es generalizing start with
  | nil => rw [List.flatMap_nil, (h : start = source.length), List.drop_length]
  | cons e es ih =>
    obtain ⟨rfl, hne, htext, hrest⟩ := h
    have hlt : e.span.start < e.span.stop := source.lt_of_slice_ne_nil (htext ▸ hne)
    rw [List.flatMap_cons, ih hrest, htext, source.slice_append_drop (Nat.le_of_lt hlt)]

end Tiles

theorem Item.text_ne_nil (i : Item) : i.text ≠ [] := item_prefixFree.ne_nil i

/-- The elements of a derivation tile its text, whatever stands before it. -/
theorem Derivation.tiles (d : Derivation) (before : Text) :
    Tiles (before ++ d.text) before.length (d.elementsFrom before.length) := by
  induction d generalizing before with
  | nil => simp [Tiles, elementsFrom]
  | cons i d ih =>
    have hslice := Text.slice_append i.text before (text d)
    have hrest := ih (before ++ i.text)
    rw [List.append_assoc, List.length_append] at hrest
    rw [text_cons]
    cases i with
    | char c hl hb hp => exact Tiles.glue hslice hrest
    | triplet p => exact Tiles.glue hslice hrest
    | expression e => exact ⟨rfl, Item.text_ne_nil (.expression e), hslice.symm, hrest⟩

/-! ## literals and braces -/

/-- No two literals stand side by side. -/
def Apart (es : List Element) : Prop := ∀ before s s' behind, es ≠ before ++ .literal s :: .literal s' :: behind

theorem Apart.cons {e : Element} {es : List Element} (h : Apart es)
    (he : ∀ s s' r, e = .literal s → es ≠ .literal s' :: r) : Apart (e :: es) := by
  intro before s s' behind heq
  cases before with
  | nil =>
    obtain ⟨hhead, htail⟩ := List.cons.inj heq
    exact he s s' behind hhead htail
  | cons e' before => exact h before s s' behind (List.cons.inj heq).2

theorem Spellable.apart {es : List Element} (h : Spellable es) : Apart es := by
  induction h with
  | nil => intro before s s' behind heq; simp at heq
  | literal s _ _ apart _ ih => exact ih.cons fun _ s' r _ => apart s' r
  | expression s _ _ _ _ ih => exact ih.cons fun _ _ _ heq => by cases heq

/-- A literal has no braces in its text; an expression has one at each end and no others. -/
def Element.Braced : Element → Prop
  | .literal s => ('{' : CodePoint) ∉ s.text ∧ ('}' : CodePoint) ∉ s.text
  | .expression s _ _ =>
    ∃ inner, s.text = ('{' : CodePoint) :: inner ++ [('}' : CodePoint)] ∧ ('{' : CodePoint) ∉ inner ∧
      ('}' : CodePoint) ∉ inner
  | .bare _ => False

theorem LiteralText.brace_not_mem {t : Text} (h : LiteralText t) : ('{' : CodePoint) ∉ t ∧ ('}' : CodePoint) ∉ t := by
  induction h with
  | nil => simp
  | @char c hl hb hp t _ ih =>
    have hclose : c ≠ '}' := CodePoint.ne_of_class hl (by decide)
    exact ⟨by simp [ih.1, Ne.symm hb], by simp [ih.2, Ne.symm hclose]⟩
  | @triplet p t _ ih =>
    have hopen : ('{' : CodePoint) ∉ p.text := Text.not_mem_of_class p.text_isNameText (by decide)
    have hclose : ('}' : CodePoint) ∉ p.text := Text.not_mem_of_class p.text_isNameText (by decide)
    exact ⟨by simp [ih.1, hopen], by simp [ih.2, hclose]⟩

theorem ExpressionSpec.exists_inner (e : ExpressionSpec) :
    ∃ inner, e.text = ('{' : CodePoint) :: inner ++ [('}' : CodePoint)] ∧ ('{' : CodePoint) ∉ inner ∧
      ('}' : CodePoint) ∉ inner := by
  have hopen : ('{' : CodePoint) ∉ e.operator.symbol :=
    (by decide : ∀ op ∈ Operator.all, ('{' : CodePoint) ∉ op.symbol) _ e.operator_mem
  have hclose : ('}' : CodePoint) ∉ e.operator.symbol := Operator.symbol_ne_brace e.operator_mem
  refine ⟨e.operator.symbol ++ e.body, rfl, ?_, ?_⟩
  · simp [hopen, e.not_mem_body (c := '{') (by decide) (by decide)]
  · simp [hclose, e.not_mem_body (c := '}') (by decide) (by decide)]

namespace Derivation

theorem braced_glue {t : Text} (ht : LiteralText t) {es : List Element} (h : ∀ e ∈ es, e.Braced) (start : Nat) :
    ∀ e ∈ glue start t es, e.Braced := by
  by_cases hnil : t = []
  · rwa [hnil, glue_nil]
  by_cases hlit : ∃ s r, es = .literal s :: r
  · obtain ⟨s, r, rfl⟩ := hlit
    rw [glue_literal hnil]
    obtain ⟨hs, hr⟩ := List.forall_mem_cons.1 h
    refine List.forall_mem_cons.2 ⟨?_, hr⟩
    exact ⟨by simp [ht.brace_not_mem.1, hs.1], by simp [ht.brace_not_mem.2, hs.2]⟩
  · rw [glue_of_not_literal hnil fun s r e => hlit ⟨s, r, e⟩]
    exact List.forall_mem_cons.2 ⟨ht.brace_not_mem, h⟩

theorem braced (d : Derivation) (start : Nat) : ∀ e ∈ d.elementsFrom start, e.Braced := by
  induction d generalizing start with
  | nil => simp [elementsFrom]
  | cons i d ih =>
    cases i with
    | char c hl hb hp => exact braced_glue (.char hl hb hp .nil) (ih _) start
    | triplet p => exact braced_glue (by simpa using LiteralText.triplet p .nil) (ih _) start
    | expression e => exact List.forall_mem_cons.2 ⟨e.exists_inner, ih _⟩

end Derivation

/-! ## templates -/

/-- **The elements of a template tile its source.**  They lie one behind the other from its beginning to its end, and no
two literals are neighbours.  Braces are where expressions begin and end and nowhere else.  So the source is what their
texts make together, and templates have the same elements exactly if they are the same. -/
theorem elements_tile_source {source : Text} {t : Template} (h : Template.parse source = .ok t) :
    Tiles source 0 t.elements ∧ Apart t.elements ∧ (∀ e ∈ t.elements, e.Braced) ∧
      (t.elements.flatMap fun e => e.span.text) = source ∧
      ∀ source' t', Template.parse source' = .ok t' →
        (t.elements = t'.elements ↔ (t == t') = true) ∧ ((t == t') = true ↔ source = source') := by
  have htiles : ∀ source t, Template.parse source = .ok t → Tiles source 0 t.elements := by
    intro source t h
    obtain ⟨d, rfl, hd⟩ := exists_derivation ((Template.parse_eq_ok_iff source t).1 h).2
    rw [← hd]
    exact d.tiles []
  have hbraced : ∀ e ∈ t.elements, e.Braced := by
    obtain ⟨d, -, hd⟩ := exists_derivation ((Template.parse_eq_ok_iff source t).1 h).2
    rw [← hd]
    exact d.braced 0
  have hsource := (htiles source t h).flatMap_text
  refine ⟨htiles source t h, (Template.spellable h).apart, hbraced, hsource, fun source' t' h' => ?_⟩
  have hbeq : (t == t') = true ↔ source = source' := by
    rw [← ((Template.parse_eq_ok_iff source t).1 h).1, ← ((Template.parse_eq_ok_iff source' t').1 h').1]
    exact beq_iff_eq (a := t.source)
  refine ⟨?_, hbeq⟩
  rw [hbeq]
  constructor
  · intro helements
    rw [helements, (htiles source' t' h').flatMap_text] at hsource
    exact hsource.symm
  · rintro rfl
    rw [Except.ok.inj (h.symm.trans h')]

/-- Neighbouring expressions and a triplet.  Another numeral for the same limit makes other elements. -/
theorem elements_tile_source_neighbours :
    let b : VariableReference := { name := "b", limit := some 7 }
    let t : Template := ⟨"{a}{?b:07}%2F", [.expression ⟨"{a}", 0, 3⟩ .simple [{ name := "a" }],
      .expression ⟨"{?b:07}", 3, 10⟩ .query [b], .literal ⟨"%2F", 10, 13⟩]⟩
    let t' : Template := ⟨"{a}{?b:7}%2F", [.expression ⟨"{a}", 0, 3⟩ .simple [{ name := "a" }],
      .expression ⟨"{?b:7}", 3, 9⟩ .query [b], .literal ⟨"%2F", 9, 12⟩]⟩
    Template.parse ("{a}{?b:07}%2F" : Text) = .ok t ∧ Template.parse ("{a}{?b:7}%2F" : Text) = .ok t' ∧
      Tiles ("{a}{?b:07}%2F" : Text) 0 t.elements ∧ t.elements ≠ t'.elements := by
  intro b t t'
  have hparse : Template.parse ("{a}{?b:07}%2F" : Text) = .ok t := rfl
  have hparse' : Template.parse ("{a}{?b:7}%2F" : Text) = .ok t' := rfl
  obtain ⟨htiles, -, -, -, heq⟩ := elements_tile_source hparse
  have hne : t.elements ≠ t'.elements := by
    rw [Ne, (heq _ t' hparse').1, (heq _ t' hparse').2]
    decide
  exact ⟨hparse, hparse', htiles, hne⟩

end UriTemplate
