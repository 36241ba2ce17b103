import UriTemplate.Proofs.Shifting
import UriTemplate.Proofs.Stateless

/-!
# Templates one behind the other

Reading and expanding a text whose beginning is a template of its own.

* `concatElements` — elements one behind the other, where two literals that meet become one;
* `Derivation.elementsFrom_append`, `Reader.exists_run_text` — what is read of a derivation before another text;
* `Emit.Appends`, `expandElements_append` — expansions add to what is in the sink, so they follow one another;
* `parse_append` — elements, faults and expansions of two texts one behind the other.
-/

namespace UriTemplate

/-! ## elements one behind the other -/

/-- Elements one behind the other.  A literal at the end of the first ones and one at the beginning of the others are
one literal. -/
def concatElements : List Element → List Element → List Element
  | [], fs => fs
  | [.literal s], .literal s' :: fs => .literal ⟨s.text ++ s'.text, s.start, s'.stop⟩ :: fs
  | e :: es, fs => e :: concatElements es fs

theorem concatElements_cons_cons (e e' : Element) (es fs : List Element) :
    concatElements (e :: e' :: es) fs = e :: concatElements (e' :: es) fs := by
  cases e <;> rfl

namespace Derivation

/-- A piece of literal text stays in front. -/
theorem concatElements_glue (start : Nat) (t : Text) (es fs : List Element) :
    concatElements (glue start t es) fs = glue start t (concatElements es fs) := by
  by_cases ht : t = []
  · rw [ht, glue_nil, glue_nil]
  cases es with
  | nil =>
    cases fs with
    | nil => simp [glue, ht, concatElements]
    | cons f fs => cases f <;> simp [glue, ht, concatElements]
  | cons e es =>
    cases es with
    | nil =>
      cases fs with
      | nil => cases e <;> simp [glue, ht, concatElements]
      | cons f fs => cases e <;> cases f <;> simp [glue, ht, concatElements]
    | cons e' es => cases e <;> simp [glue, ht, concatElements_cons_cons]

theorem elementsFrom_append (d d' : Derivation) (start : Nat) :
    elementsFrom start (d ++ d') = concatElements (d.elementsFrom start) (d'.elementsFrom (start + d.text.length)) := by
  induction d generalizing start with
  | nil => rfl
  | cons i d ih =>
    have htail : elementsFrom (start + i.text.length) (d ++ d') =
        concatElements (elementsFrom (start + i.text.length) d) (d'.elementsFrom (start + (text (i :: d)).length)) := by
      rw [ih, text_cons, List.length_append, Nat.add_assoc]
    cases i with
    | char c hl hb hp => exact (congrArg _ htail).trans (concatElements_glue ..).symm
    | triplet p => exact (congrArg _ htail).trans (concatElements_glue ..).symm
    | expression e => exact congrArg _ htail

end Derivation

/-- **Behind a derivation, a reader is where it was before it.** -/
theorem Reader.exists_run_text (d : Derivation) {s : Reader} (h : s.place = .literal) :
    ∃ s', s.run d.text = .ok s' ∧ s'.place = .literal ∧ s'.offset = s.offset + d.text.length := by
  induction d generalizing s with
  | nil => exact ⟨s, run_nil s, h, rfl⟩
  | cons i d ih =>
    have hitem : ∃ s₁, s.run i.text = .ok s₁ ∧ s₁.place = .literal ∧ s₁.offset = s.offset + i.text.length := by
      cases i with
      | char c hl hb hp => exact ⟨_, run_cons (step_literal hl hb hp h) [], rfl, rfl⟩
      | triplet p => exact ⟨_, run_triplet p h, rfl, rfl⟩
      | expression e => exact ⟨_, run_expression e h, rfl, rfl⟩
    obtain ⟨s₁, hrun, hplace, hoffset⟩ := hitem
    obtain ⟨s', hrest, hplace', hoffset'⟩ := ih hplace
    refine ⟨s', ?_, hplace', ?_⟩
    · rw [Derivation.text_cons, run_append hrun, hrest]
    · rw [hoffset', hoffset, Derivation.text_cons, List.length_append, Nat.add_assoc]

/-- What is wrong with a text is wrong with it behind a template too. -/
theorem parseElements_append_error (d : Derivation) {b : Text} {e : ParseFailure} (h : parseElements b = .error e) :
    parseElements (d.text ++ b) = .error (e.shift d.text.length) := by
  obtain ⟨s, hrun, hplace, hoffset⟩ := Reader.exists_run_text d (s := {}) rfl
  have hshifted : Reader.Shifted d.text.length {} s := ⟨hplace, hoffset, Nat.zero_le _⟩
  rw [Reader.parseElements_eq, Reader.readAll_append hrun]
  exact Reader.readAll_shift hshifted h

theorem Template.parse_eq_error_iff (source : Text) (e : ParseFailure) :
    parse source = .error e ↔ parseElements source = .error e := by
  unfold parse
  cases parseElements source <;> simp [bind, Except.bind, pure, Except.pure]

/-! ## expansions one behind the other -/

/-- What the action does and writes does not depend on what there is in the sink. -/
def Emit.Appends {α : Type} (m : Emit α) : Prop :=
  ∀ w, ∃ r t w', ∀ base, m (.ofSink base w) = (r, .ofSink (base ++ t) w')

namespace Emit.Appends

variable {α β : Type}

theorem pure (a : α) : Emit.Appends (Pure.pure a) :=
  fun w => ⟨.ok a, [], w, fun base => by rw [List.append_nil]; rfl⟩

theorem write (t : Text) : Emit.Appends (Emit.write t) :=
  fun w => ⟨.ok (), t, w, fun base => by rw [← Output.write_ofSink]; rfl⟩

theorem bind {m : Emit α} {f : α → Emit β} (hm : Appends m) (hf : ∀ a, Appends (f a)) : Appends (m >>= f) := by
  intro w
  obtain ⟨r, t, w₁, hrun⟩ := hm w
  cases r with
  | error e => exact ⟨.error e, t, w₁, fun base => bind_of_error (hrun base)⟩
  | ok a =>
    obtain ⟨r, u, w₂, hrest⟩ := hf a w₁
    refine ⟨r, t ++ u, w₂, fun base => ?_⟩
    rw [bind_of_ok (hrun base), hrest, List.append_assoc]

end Emit.Appends

variable (resolve : Resolver)

theorem emitElement_appends (e : Element) : Emit.Appends (emitElement resolve e) := by
  cases e with
  | literal s => exact .write s.text
  | bare s => exact fun w => ⟨.error .bareElement, [], w, fun base => by rw [List.append_nil]; rfl⟩
  | expression s op rs => exact fun w => ⟨_, _, _, fun base => emitElement_expression resolve s op rs base w⟩

theorem emitElements_appends (es : List Element) : Emit.Appends (emitElements resolve es) := by
  induction es with
  | nil => exact .pure ()
  | cons e es ih => exact (emitElement_appends resolve e).bind fun _ => ih

theorem emitElements_singleton (e : Element) : emitElements resolve [e] = emitElement resolve e := bind_pure _

theorem emitElements_append (es fs : List Element) :
    emitElements resolve (es ++ fs) = emitElements resolve es >>= fun _ => emitElements resolve fs := by
  induction es with
  | nil => rfl
  | cons e es ih =>
    rw [List.cons_append, emitElements, emitElements, ih]
    simp only [bind_assoc]

/-- One literal is written like its two parts. -/
theorem emitElements_concatElements (es fs : List Element) :
    emitElements resolve (concatElements es fs) = emitElements resolve (es ++ fs) := by
  fun_induction concatElements es fs with
  | case1 => rfl
  | case2 s s' fs =>
    have hwrite : Emit.write (s.text ++ s'.text) = Emit.write s.text >>= fun _ => Emit.write s'.text := by
      funext o
      show (Except.ok (), o.write (s.text ++ s'.text)) = (Except.ok (), (o.write s.text).write s'.text)
      rw [Output.write_write]
    show (Emit.write (s.text ++ s'.text) >>= fun _ => emitElements resolve fs) =
      Emit.write s.text >>= fun _ => Emit.write s'.text >>= fun _ => emitElements resolve fs
    rw [hwrite, bind_assoc]
  | case3 fs e es _ ih => rw [List.cons_append, emitElements, emitElements, ih]

variable {resolve}

theorem expandElements_run {es : List Element} {w w' : World} {r : Except Fault Unit} {t : Text}
    (h : emitElements resolve es (.ofSink [] w) = (r, .ofSink t w')) :
    expandElements resolve es w = (r.map fun _ => t, w') := by
  have hempty : ({ world := w } : Output) = .ofSink [] w := rfl
  unfold expandElements
  rw [hempty, h]
  simp only [Output.sink_ofSink]
  rfl

variable (resolve)

/-- **The expansion of elements one behind the other** is the expansion of the first ones and then that of the others,
in the world that the first ones leave behind. -/
theorem expandElements_append (es fs : List Element) :
    expandElements resolve (es ++ fs) = do
      return (← expandElements resolve es) ++ (← expandElements resolve fs) := by
  funext w
  obtain ⟨r, t, w₁, hes⟩ := emitElements_appends resolve es w
  have hexpand := expandElements_run (hes [])
  cases r with
  | error e =>
    have happend : emitElements resolve (es ++ fs) (.ofSink [] w) = (.error e, .ofSink ([] ++ t) w₁) := by
      rw [emitElements_append, bind_of_error (hes [])]
    rw [bind_of_error hexpand, expandElements_run happend]
    rfl
  | ok =>
    obtain ⟨r, u, w₂, hfs⟩ := emitElements_appends resolve fs w₁
    have happend : emitElements resolve (es ++ fs) (.ofSink [] w) = (r, .ofSink (t ++ u) w₂) := by
      rw [emitElements_append, bind_of_ok (hes []), List.nil_append, hfs]
    have hexpand' := expandElements_run (hfs [])
    rw [bind_of_ok hexpand, expandElements_run happend]
    cases r with
    | error e => rw [bind_of_error hexpand']; rfl
    | ok => rw [bind_of_ok hexpand']; rfl

/-- Without state, both expansions may begin in one world. -/
theorem expandElements_append_of_stateless {resolve : Resolver} (h : resolve.Stateless) {es fs : List Element}
    {w w₁ w₂ : World} {x y : Text} (hx : expandElements resolve es w = (.ok x, w₁))
    (hy : expandElements resolve fs w = (.ok y, w₂)) : expandElements resolve (es ++ fs) w = (.ok (x ++ y), w) := by
  obtain rfl : w₁ = w := (congrArg Prod.snd hx).symm.trans (expandElements_keeps h es w)
  obtain rfl : w₂ = w₁ := (congrArg Prod.snd hy).symm.trans (expandElements_keeps h fs w₁)
  rw [expandElements_append, bind_of_ok hx, bind_of_ok hy]
  rfl

/-- Offsets make no difference to an expansion. -/
theorem emitElements_map_shift (n : Nat) (es : List Element) :
    emitElements resolve (es.map (Element.shift n)) = emitElements resolve es := by
  induction es with
  | nil => rfl
  | cons e es ih =>
    rw [List.map_cons, emitElements, emitElements, ih]
    cases e <;> rfl

theorem expandElements_concatElements (n : Nat) (es fs : List Element) :
    expandElements resolve (concatElements es (fs.map (Element.shift n))) = expandElements resolve (es ++ fs) := by
  unfold expandElements
  rw [emitElements_concatElements, emitElements_append, emitElements_append, emitElements_map_shift]

namespace Template

variable {resolve} {sources : List Source} {named : Table Text Value}

theorem expand_of_resolver (h : Resolver.ofSources sources named = .ok resolve) (t : Template) :
    t.expand sources named = expandElements resolve t.elements := by
  funext w
  unfold expand expandTo
  rw [h]
  rfl

theorem expand_of_unusable {e : Fault} (h : Resolver.ofSources sources named = .error e) (t : Template) :
    t.expand sources named = throw e := by
  funext w
  unfold expand expandTo
  rw [h]
  rfl

end Template

/-! ## texts one behind the other -/

/-- **Reading and expanding agree with putting texts one behind the other**, if the first one is a template.  If the
second one is a template, so is the whole text, with the elements of both; it expands to the expansion of the first one
with the expansion of the second one behind it.  A resolver without state of its own may as well be asked anew for the
second one.  What is wrong with the second text is wrong with the whole one, so many characters further on. -/
theorem parse_append {a : Text} {ta : Template} (ha : Template.parse a = .ok ta) (b : Text) :
    (∀ tb, Template.parse b = .ok tb →
      ∃ t, Template.parse (a ++ b) = .ok t ∧
        t.elements = concatElements ta.elements (tb.elements.map (Element.shift a.length)) ∧
        ∀ sources named,
          (t.expand sources named = do return (← ta.expand sources named) ++ (← tb.expand sources named)) ∧
          ∀ resolve, Resolver.ofSources sources named = .ok resolve → resolve.Stateless →
            ∀ w x y w₁ w₂, ta.expand sources named w = (.ok x, w₁) → tb.expand sources named w = (.ok y, w₂) →
              t.expand sources named w = (.ok (x ++ y), w)) ∧
    (∀ e, Template.parse b = .error (.malformed e) →
      ∃ e', Template.parse (a ++ b) = .error (.malformed e') ∧ e'.kind = e.kind ∧ e'.text = e.text ∧
        e'.offset = e.offset.map (· + a.length)) ∧
    ∀ k, Template.parse b = .error (.numeralTooLong k) → Template.parse (a ++ b) = .error (.numeralTooLong k) := by
  obtain ⟨d, rfl, hd⟩ := exists_derivation ((Template.parse_eq_ok_iff a ta).1 ha).2
  have herror : ∀ e, Template.parse b = .error e →
      Template.parse (d.text ++ b) = .error (e.shift d.text.length) := by
    intro e he
    rw [Template.parse_eq_error_iff] at he ⊢
    exact parseElements_append_error d he
  refine ⟨fun tb hb => ?_, fun e he => ⟨_, herror _ he, e.kind_shift _, e.text_shift _, e.offset_shift _⟩,
    fun k he => herror _ he⟩
  obtain ⟨d', rfl, hd'⟩ := exists_derivation ((Template.parse_eq_ok_iff b tb).1 hb).2
  have helements : Derivation.elements (d ++ d') =
      concatElements ta.elements (tb.elements.map (Element.shift d.text.length)) := by
    rw [← hd, ← hd', Derivation.elements, Derivation.elementsFrom_append, Derivation.elementsFrom_add]
    rfl
  have hparse : Template.parse (d.text ++ d'.text) = .ok ⟨d.text ++ d'.text, Derivation.elements (d ++ d')⟩ := by
    rw [← Derivation.text_append, Template.parse_eq_ok_iff]
    exact ⟨rfl, parseElements_text _⟩
  refine ⟨_, hparse, helements, fun sources named => ⟨?_, ?_⟩⟩
  · cases hresolve : Resolver.ofSources sources named with
    | error e =>
      simp only [Template.expand_of_unusable hresolve]
      rfl
    | ok resolve =>
      simp only [Template.expand_of_resolver hresolve]
      rw [helements, expandElements_concatElements, expandElements_append]
  · intro resolve hresolve hstateless w x y w₁ w₂ hx hy
    rw [Template.expand_of_resolver hresolve] at hx hy ⊢
    rw [helements, expandElements_concatElements, expandElements_append_of_stateless hstateless hx hy]

/-- Two literals become one where the texts meet, and the dot at fault is found behind the first text. -/
theorem parse_append_meeting_literals :
    let ta : Template := ⟨"{a}x", [.expression ⟨"{a}", 0, 3⟩ .simple [{ name := "a" }], .literal ⟨"x", 3, 4⟩]⟩
    let tb : Template := ⟨"y{?b}", [.literal ⟨"y", 0, 1⟩, .expression ⟨"{?b}", 1, 5⟩ .query [{ name := "b" }]]⟩
    let named : Table Text Value := [("a", .text "1"), ("b", .list [.text "2", .text "3"])]
    Template.parse ("{a}x" : Text) = .ok ta ∧ Template.parse ("y{?b}" : Text) = .ok tb ∧
      Template.parse ("y{b..c}" : Text) = .error (.malformed (.dot 4)) ∧
      ∃ t, Template.parse ("{a}xy{?b}" : Text) = .ok t ∧ t.expand [] named {} = (.ok ("1x" ++ "y?b=2,3"), {}) ∧
        ∃ e, Template.parse ("{a}xy{b..c}" : Text) = .error (.malformed e) ∧ e.kind = .illegalDot ∧ e.offset = some 8 := by
  intro ta tb named
  have ha : Template.parse ("{a}x" : Text) = .ok ta := rfl
  have hb : Template.parse ("y{?b}" : Text) = .ok tb := rfl
  have hb' : Template.parse ("y{b..c}" : Text) = .error (.malformed (.dot 4)) := rfl
  have hstateless : (Resolver.ofTable named).Stateless :=
    Resolver.stateless_ofTable (by simp [named, Value.Rereadable, Value.RereadableItems])
  obtain ⟨t, ht, -, hexpand⟩ := (parse_append ha _).1 tb hb
  obtain ⟨e, he, hkind, -, hoffset⟩ := (parse_append ha _).2.1 _ hb'
  have hx : ta.expand [] named {} = (.ok ("1x" : Text), {}) := rfl
  have hy : tb.expand [] named {} = (.ok ("y?b=2,3" : Text), {}) := rfl
  exact ⟨ha, hb, hb', t, ht, (hexpand [] named).2 _ rfl hstateless {} _ _ _ _ hx hy, e, he, hkind, hoffset⟩

end UriTemplate
