import UriTemplate.Proofs.Decoding
import UriTemplate.Proofs.Specification

/-!
# Values add no structure

The expansion of a path or a query can be taken apart again: whatever the values are, there is one unit for every part
between two separators, and every unit gives its label and the leaves of its value.

* `Yields` — what holds of all units that a collector yields; `collectReferences_yields` — the labels of units;
* `ExpansionUnit.Readable` — how a unit is taken apart;
* `CodePoint.isValueText` — the characters of names, keys and values;
* `expression_readable` — expansions of expressions are taken apart.
-/

namespace UriTemplate

/-! ## where units come from -/

/-- What holds of the units so far holds of all units behind the collector, if it fails too. -/
def Yields (P : ExpansionUnit → Prop) {α : Type} (collect : Collect α) : Prop :=
  ∀ y : Yield, (∀ u ∈ y.units, P u) → ∀ u ∈ (collect y).2.units, P u

namespace Yields

variable {P : ExpansionUnit → Prop} {α β : Type}

theorem pure (x : α) : Yields P (Pure.pure x : Collect α) := fun _ h => h

theorem bind {x : Collect α} {f : α → Collect β} (hx : Yields P x) (hf : ∀ a, Yields P (f a)) : Yields P (x >>= f) := by
  intro y hy
  have hall := hx y hy
  cases hr : x y with
  | mk r y' =>
    rw [hr] at hall
    cases r with
    | error e => rwa [bind_of_error hr]
    | ok a =>
      rw [bind_of_ok hr]
      exact hf a y' hall

theorem perform (a : Act α) : Yields P (Collect.perform a) := fun _ h => h

theorem yield {label : Label} {leaves : List Text} (h : leaves ≠ [] → P ⟨label, leaves⟩) :
    Yields P (Collect.yield label leaves) := by
  intro y hy u hu
  rw [Collect.yield_run] at hu
  rcases List.mem_append.1 hu with hu | hu
  · exact hy u hu
  · split at hu
    · cases hu
    · next hne =>
      obtain rfl := List.mem_singleton.1 hu
      exact h hne

end Yields

/-- The label is one that references may give: a name of one of them, if the operator writes names, or a key. -/
def Label.IsFrom (op : Operator) (rs : List VariableReference) : Label → Prop
  | .none => op.named = false
  | .name n => ∃ r ∈ rs, r.name = n
  | .key _ => True

/-- The unit has leaves, and a label that the references may give. -/
def ExpansionUnit.IsFrom (op : Operator) (rs : List VariableReference) (u : ExpansionUnit) : Prop :=
  u.leaves ≠ [] ∧ u.label.IsFrom op rs

section

variable {op : Operator} {rs : List VariableReference}

theorem labelOf_isFrom {r : VariableReference} (hr : r ∈ rs) : (op.labelOf r.name).IsFrom op rs := by
  rw [Operator.labelOf]
  cases h : op.named with
  | false => exact h
  | true => exact ⟨r, hr, rfl⟩

theorem collectItems_yields {label : Label} (h : label.IsFrom op rs) (vs : List Value) :
    Yields (ExpansionUnit.IsFrom op rs) (collectItems label vs) := by
  induction vs with
  | nil => exact .pure ()
  | cons v vs ih => exact (Yields.perform _).bind fun leaves => (Yields.yield fun hne => ⟨hne, h⟩).bind fun _ => ih

theorem collectPairs_yields (es : List (Value × Value)) :
    Yields (ExpansionUnit.IsFrom op rs) (collectPairs es) := by
  induction es with
  | nil => exact .pure ()
  | cons e es ih =>
    obtain ⟨key, v⟩ := e
    refine (Yields.perform _).bind fun leaves => ?_
    split
    · exact (Yields.perform _).bind fun key => (Yields.yield fun hne => ⟨hne, trivial⟩).bind fun _ => ih
    · exact ih

theorem collectValue_yields {r : VariableReference} (hr : r ∈ rs) (v : Value) :
    Yields (ExpansionUnit.IsFrom op rs) (collectValue op r v) := by
  have hone : ∀ leaves, Yields (ExpansionUnit.IsFrom op rs) (Collect.yield (op.labelOf r.name) leaves) :=
    fun leaves => .yield fun hne => ⟨hne, labelOf_isFrom hr⟩
  cases v with
  | null => exact .pure ()
  | scalar s => exact (Yields.perform _).bind fun text => hone _
  | sequence kind vs =>
    rw [collectValue]
    split
    · exact (Yields.perform _).bind fun vs => collectItems_yields (labelOf_isFrom hr) vs
    · exact (Yields.perform _).bind hone
  | mapping es =>
    rw [collectValue]
    split
    · exact collectPairs_yields es
    · exact (Yields.perform _).bind hone

/-- **Units have leaves, and labels that their references give.** -/
theorem collectReferences_yields (resolve : Resolver) {rs' : List VariableReference} (h : ∀ r ∈ rs', r ∈ rs) :
    Yields (ExpansionUnit.IsFrom op rs) (collectReferences resolve op rs') := by
  induction rs' with
  | nil => exact .pure ()
  | cons r rs' ih =>
    refine Yields.bind ?_ fun _ => ih fun r' hr' => h r' (List.mem_cons_of_mem _ hr')
    exact (Yields.perform _).bind fun v => collectValue_yields (h r (by simp)) v

end

/-! ## characters -/

/-- The characters of names, keys and values: unreserved ones, triplets, and commas between leaves. -/
def CodePoint.isValueText (c : CodePoint) : Bool := c.isUnreserved || c.isAny ['%', ',']

theorem CodePoint.isValueText_of_isNameText {c : CodePoint} (h : c.isNameText) : c.isValueText := by
  simp only [isNameText, isNameChar, isValueText, isUnreserved, isAny_cons, isAny_nil, Bool.or_eq_true] at h ⊢
  grind

theorem Policy.isValueText_of_writes {c : CodePoint} (h : Policy.unreserved.writes c = true) : c.isValueText := by
  simp only [writes, keeps, CodePoint.isValueText, CodePoint.isAny_cons, CodePoint.isAny_nil, Bool.or_eq_true] at h ⊢
  grind

section

variable {op : Operator} (hpolicy : op.policy = .unreserved)

include hpolicy

theorem isValueText_of_mem_valueText {leaves : List Text} {c : CodePoint} (h : c ∈ op.valueText leaves) :
    c.isValueText := by
  cases leaves with
  | nil => cases h
  | cons l ls =>
    have hjoin : op.valueText (l :: ls) = Text.join "," ((l :: ls).map (encode op.policy)) := rfl
    rw [hjoin, hpolicy] at h
    rcases Text.mem_intercalate h with h | ⟨t, ht, hc⟩
    · obtain rfl : c = ',' := List.mem_singleton.1 h
      decide
    · obtain ⟨leaf, -, rfl⟩ := List.mem_map.1 ht
      exact Policy.isValueText_of_writes (writes_of_mem_encode hc)

/-- **Cutting a value at its commas and decoding the parts gives the leaves.** -/
theorem mapM_decodeText_valueText {leaves : List Text} (h : leaves ≠ []) :
    (Text.split ',' (op.valueText leaves)).mapM decodeText = some (leaves.map Text.joinPairs) := by
  obtain ⟨l, ls, rfl⟩ := List.exists_cons_of_ne_nil h
  have hjoin : op.valueText (l :: ls) = Text.join [(',' : CodePoint)] ((l :: ls).map (encode op.policy)) := rfl
  have hcomma : ∀ t ∈ (l :: ls).map (encode op.policy), (',' : CodePoint) ∉ t := by
    intro t ht
    obtain ⟨leaf, -, rfl⟩ := List.mem_map.1 ht
    rw [hpolicy]
    exact Text.not_mem_of_class (p := Policy.unreserved.writes) (fun c hc => writes_of_mem_encode hc) (by decide)
  rw [hjoin, Text.split_join (by simp) hcomma, List.mapM_map]
  have hdecode : decodeText ∘ encode op.policy = fun t => some (Text.joinPairs t) := by
    funext t
    exact decodeText_encode op.policy t
  rw [hdecode]
  exact List.mapM_pure

end

/-! ## units -/

/-- The parts of a text before and after the first occurrence of `c`; all of it and nothing if there is none. -/
def Text.cutFirst (c : CodePoint) (t : Text) : Text × Text := (t.splitFirst c).getD (t, [])

/-- How a unit is taken apart.  `first` stands in front of the units of an expression, and `separator` between them. -/
structure ExpansionUnit.Readable (op : Operator) (first separator : CodePoint) (u : ExpansionUnit) : Prop where
  /-- Nothing in the unit can be taken for a delimiter of the expansion or of the URI around it. -/
  not_mem : ∀ c ∈ [first, separator, '#', '[', ']'], c ∉ u.written op
  /-- The label stands before the first equals sign, and the value behind it. -/
  labelled : ∀ label, op.labelText? u.label = some label →
    (u.written op).cutFirst '=' = (label, op.valueText u.leaves)
  /-- A unit without a label has no equals sign, and is its value. -/
  unlabelled : op.labelText? u.label = none → ('=' : CodePoint) ∉ u.written op ∧ u.written op = op.valueText u.leaves
  /-- The leaves stand between the commas of the value. -/
  leaves : (Text.split ',' (op.valueText u.leaves)).mapM decodeText = some (u.leaves.map Text.joinPairs)

theorem ExpansionUnit.readable {op : Operator} (hpolicy : op.policy = .unreserved) {first separator : CodePoint}
    (hfirst : first.isValueText = false ∧ first ≠ '=') (hseparator : separator.isValueText = false ∧ separator ≠ '=')
    {u : ExpansionUnit} (hlabel : ∀ label, op.labelText? u.label = some label → ∀ c ∈ label, c.isValueText)
    (hne : u.leaves ≠ []) : u.Readable op first separator := by
  have hvalue : ∀ c ∈ op.valueText u.leaves, c.isValueText := fun c hc => isValueText_of_mem_valueText hpolicy hc
  have hequals : ('=' : CodePoint).isValueText = false := by decide
  have hchars : ∀ c ∈ u.written op, c.isValueText = true ∨ c = '=' := by
    intro c hc
    cases hl : op.labelText? u.label with
    | none =>
      rw [u.written_of_none hl] at hc
      exact .inl (hvalue c hc)
    | some label =>
      rw [u.written_of_some hl, List.mem_append, List.mem_append] at hc
      rcases hc with (hc | hc) | hc
      · exact .inl (hlabel label hl c hc)
      · exact .inr (op.eq_of_mem_equalsSign hc)
      · exact .inl (hvalue c hc)
  refine ⟨?_, ?_, ?_, mapM_decodeText_valueText hpolicy hne⟩
  · intro c hc hmem
    have hnot : c.isValueText = false ∧ c ≠ '=' := by
      simp only [List.mem_cons, List.not_mem_nil, or_false] at hc
      rcases hc with rfl | rfl | rfl | rfl | rfl
      · exact hfirst
      · exact hseparator
      · decide
      · decide
      · decide
    rcases hchars c hmem with h | h
    · rw [hnot.1] at h
      cases h
    · exact hnot.2 h
  · intro label hl
    have hnot : ('=' : CodePoint) ∉ label := Text.not_mem_of_class (hlabel label hl) hequals
    rw [u.written_of_some hl, Operator.equalsSign, Text.cutFirst]
    by_cases hsign : (op.emptyEquals || op.valueText u.leaves ≠ []) = true
    · rw [if_pos hsign, List.append_assoc]
      show (Text.splitFirst '=' (label ++ ('=' : CodePoint) :: op.valueText u.leaves)).getD _ = _
      rw [Text.splitFirst_append_cons hnot, Option.getD_some]
    · have hempty : op.valueText u.leaves = [] := by
        simp only [Bool.or_eq_true, decide_eq_true_eq, not_or, ne_eq, Classical.not_not] at hsign
        exact hsign.2
      rw [if_neg hsign, hempty, List.append_nil, List.append_nil, Text.splitFirst_of_not_mem hnot]
      rfl
  · intro hl
    rw [u.written_of_none hl]
    exact ⟨Text.not_mem_of_class hvalue hequals, rfl⟩

/-! ## expressions -/

/-- The operators of paths and queries, whose values are encoded in full. -/
def Operator.structured : List Operator := [pathSegment, pathParameter, query, queryContinuation]

theorem Operator.structured_cases {op : Operator} (h : op ∈ structured) :
    op.policy = .unreserved ∧ ∃ first separator : CodePoint, op.first = some [first] ∧ op.separator = [separator] ∧
      (first.isValueText = false ∧ first ≠ '=') ∧ (separator.isValueText = false ∧ separator ≠ '=') := by
  simp only [structured, List.mem_cons, List.not_mem_nil, or_false] at h
  rcases h with rfl | rfl | rfl | rfl
  · exact ⟨rfl, '/', '/', rfl, rfl, by decide, by decide⟩
  · exact ⟨rfl, ';', ';', rfl, rfl, by decide, by decide⟩
  · exact ⟨rfl, '?', '&', rfl, rfl, by decide, by decide⟩
  · exact ⟨rfl, '&', '&', rfl, rfl, by decide, by decide⟩

/-- The expansion of an expression, from the units that it yields. -/
theorem expandElements_expression (resolve : Resolver) (s : Span) (op : Operator) (rs : List VariableReference)
    (w : World) :
    expandElements resolve [.expression s op rs] w =
      ((collectReferences resolve op rs { world := w }).1.map fun _ =>
          op.assemble ((collectReferences resolve op rs { world := w }).2.units.map (·.written op)),
        (collectReferences resolve op rs { world := w }).2.world) := by
  have hemit := emitElement_expression resolve s op rs [] w
  unfold expandElements
  cases hc : collectReferences resolve op rs { world := w } with
  | mk r y =>
    rw [hc] at hemit
    have hrun : emitElements resolve [.expression s op rs] { world := w } = (r, y.output op []) := by
      rw [emitElements]
      cases r with
      | error e => exact bind_of_error hemit
      | ok => exact bind_of_ok hemit
    have hsink : (y.output op []).sink = op.assemble (y.units.map (·.written op)) := by
      rw [Yield.output, Output.sink_ofSink, List.nil_append]
    rw [hrun, ← hsink]
    rfl

/-- A template's names are text of names and values, and so are the labels that they give. -/
theorem labelText_isValueText {source : Text} {t : Template} (hparse : Template.parse source = .ok t) {s : Span}
    {op : Operator} {rs : List VariableReference} (hmem : .expression s op rs ∈ t.elements)
    (hpolicy : op.policy = .unreserved) {l : Label} (hl : l.IsFrom op rs) :
    ∀ label, op.labelText? l = some label → ∀ c ∈ label, c.isValueText := by
  intro label hlabel c hc
  cases l with
  | none => cases hlabel
  | name n =>
    obtain ⟨r, hr, rfl⟩ := hl
    obtain ⟨⟨name, hname⟩, -⟩ := ((Template.spellable hparse).expression_mem hmem).2 r hr
    obtain rfl := Option.some.inj hlabel
    rw [hname] at hc
    exact CodePoint.isValueText_of_isNameText (name.text_isNameText c hc)
  | key leaves =>
    obtain rfl := Option.some.inj hlabel
    exact isValueText_of_mem_valueText hpolicy hc

/-- **No value adds structure.**  What an expression of a path or a query expands to, unless there is a fault, is empty
if it has no units.  Else it begins with the operator's character, and cutting the rest at the separator gives the units
that the references yield, one by one.  Each of them has a label of its own references and can be taken apart.  For values
that may be read again and convert, there is no fault, and the units are those of the values. -/
theorem expression_readable {source : Text} {t : Template} (hparse : Template.parse source = .ok t) {s : Span}
    {op : Operator} {rs : List VariableReference} (hmem : .expression s op rs ∈ t.elements) (hop : op ∈ Operator.structured)
    (resolve : Resolver) (w : World) :
    ∃ (first separator : CodePoint) (result : Except Fault Unit) (y : Yield) (out : Text),
      op.first = some [first] ∧ op.separator = [separator] ∧
      collectReferences resolve op rs { world := w } = (result, y) ∧
      expandElements resolve [.expression s op rs] w = (result.map fun _ => out, y.world) ∧
      (y.units = [] → out = []) ∧
      (y.units ≠ [] → ∃ rest, out = first :: rest ∧ Text.split separator rest = y.units.map (·.written op)) ∧
      (∀ u ∈ y.units, u.label.IsFrom op rs ∧ u.Readable op first separator) ∧
      ∀ values w', (rs.map (·.name)).mapM resolve w = (.ok values, w') → (∀ v ∈ values, v.Rereadable) →
        (∀ v ∈ values, v.Converts) → result = .ok () ∧ y.units = unitsOf op rs values := by
  obtain ⟨hpolicy, first, separator, hfirst, hseparator, hf, hs⟩ := Operator.structured_cases hop
  have hexpand := expandElements_expression resolve s op rs w
  have hyields : Yields (ExpansionUnit.IsFrom op rs) (collectReferences resolve op rs) :=
    collectReferences_yields resolve fun r hr => hr
  have hfrom := hyields { world := w } (by simp)
  cases hc : collectReferences resolve op rs { world := w } with
  | mk result y =>
    rw [hc] at hexpand hfrom
    have hreadable : ∀ u ∈ y.units, u.Readable op first separator := fun u hu =>
      ExpansionUnit.readable hpolicy hf hs (labelText_isValueText hparse hmem hpolicy (hfrom u hu).2) (hfrom u hu).1
    refine ⟨first, separator, result, y, op.assemble (y.units.map (·.written op)), hfirst, hseparator, rfl, hexpand,
      ?_, ?_, fun u hu => ⟨(hfrom u hu).2, hreadable u hu⟩, ?_⟩
    · intro hnil
      rw [hnil]
      rfl
    · intro hne
      have hmap : y.units.map (·.written op) ≠ [] := by simpa using hne
      refine ⟨Text.join [separator] (y.units.map (·.written op)), ?_, Text.split_join hmap ?_⟩
      · rw [Operator.assemble, if_neg hmap, hfirst, hseparator]
        rfl
      · intro part hpart
        obtain ⟨u, hu, rfl⟩ := List.mem_map.1 hpart
        exact (hreadable u hu).not_mem separator (by simp)
    · intro values w' hvalues hr hconv
      have h : collectReferences resolve op rs { world := w } = (.ok (), ⟨unitsOf op rs values, w'⟩) :=
        collectReferences_run hvalues hr hconv
      obtain ⟨hresult, rfl⟩ := Prod.mk.inj (hc.symm.trans h)
      exact ⟨hresult, rfl⟩

/-- The delimiters in these values end up in triplets. -/
theorem expression_readable_query :
    let resolve := Resolver.ofTable [("a", .text "x&y=#"), ("m", .mapping [(.text "k=", .list [.text "1,2", .text "3"])])]
    let rs : List VariableReference := [{ name := "a" }, { name := "m", explode := true }]
    let e : Element := .expression ⟨"{?a,m*}", 0, 7⟩ .query rs
    let units : List ExpansionUnit := [⟨.name "a", ["x&y=#"]⟩, ⟨.key ["k="], ["1,2", "3"]⟩]
    Template.parse ("{?a,m*}" : Text) = .ok ⟨"{?a,m*}", [e]⟩ ∧
      expandElements resolve [e] {} = (.ok ("?a=x%26y%3D%23&k%3D=1%2C2,3" : Text), {}) ∧
      ∃ first separator : CodePoint, ∀ u ∈ units, u.Readable .query first separator := by
  intro resolve rs e units
  have hparse : Template.parse ("{?a,m*}" : Text) = .ok ⟨"{?a,m*}", [e]⟩ := rfl
  have hmem : .expression ⟨"{?a,m*}", 0, 7⟩ .query rs ∈ [e] := List.mem_singleton.2 rfl
  have hyield : collectReferences resolve .query rs {} = (.ok (), ⟨units, {}⟩) := rfl
  obtain ⟨first, separator, _, y, _, -, -, hunits, -, -, -, hreadable, -⟩ :=
    expression_readable hparse hmem (by decide) resolve {}
  obtain ⟨-, rfl⟩ := Prod.mk.inj (hyield.symm.trans hunits)
  exact ⟨hparse, rfl, first, separator, fun u hu => (hreadable u hu).2⟩

/-- A surrogate pair is written as the code point that it stands for, and is read again as this one. -/
theorem expression_readable_surrogate_pair :
    let high : CodePoint := ⟨0xD83D, by decide⟩
    let low : CodePoint := ⟨0xDCA9, by decide⟩
    let resolve := Resolver.ofTable [("a", .text [high, low])]
    let e : Element := .expression ⟨"{?a}", 0, 4⟩ .query [{ name := "a" }]
    Template.parse ("{?a}" : Text) = .ok ⟨"{?a}", [e]⟩ ∧
      collectReferences resolve .query [{ name := "a" }] {} = (.ok (), ⟨[⟨.name "a", [[high, low]]⟩], {}⟩) ∧
      expandElements resolve [e] {} = (.ok ("?a=%F0%9F%92%A9" : Text), {}) ∧
      (Text.split ',' ("%F0%9F%92%A9" : Text)).mapM decodeText = some [[⟨0x1F4A9, by decide⟩]] ∧
      (Text.split ',' ("%F0%9F%92%A9" : Text)).mapM decodeText ≠ some [[high, low]] := by
  intro high low resolve e
  have hyield : collectReferences resolve .query [{ name := "a" }] {} = (.ok (), ⟨[⟨.name "a", [[high, low]]⟩], {}⟩) :=
    rfl
  have htext : Operator.query.assemble [(ExpansionUnit.mk (.name "a") [[high, low]]).written .query] =
      "?a=%F0%9F%92%A9" := by decide
  have hexpand : expandElements resolve [e] {} = (.ok ("?a=%F0%9F%92%A9" : Text), {}) := by
    rw [expandElements_expression, hyield, ← htext]
    rfl
  have hvalue : Text.split ',' ("%F0%9F%92%A9" : Text) = [encode .unreserved [high, low]] := by decide
  have hpair : Text.joinPairs [high, low] = [⟨0x1F4A9, by decide⟩] := by decide
  have hdecode : (Text.split ',' ("%F0%9F%92%A9" : Text)).mapM decodeText = some [[⟨0x1F4A9, by decide⟩]] := by
    rw [hvalue, List.mapM_cons, List.mapM_nil, decodeText_encode, hpair]
    rfl
  refine ⟨rfl, hyield, hexpand, hdecode, ?_⟩
  rw [hdecode]
  decide

end UriTemplate
