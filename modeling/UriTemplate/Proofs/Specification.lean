import UriTemplate.Proofs.Canonical
import UriTemplate.Proofs.Units

/-!
# The expansion that is specified

For values that may be read again, an expansion is a function of the template and the values of its references.

* `VariableReference.units`, `unitsOf` — the units of a reference to a value, and of several ones;
* `expansion` — the text of a template, for a given way to write a unit;
* `ExpansionUnit.specified` — the specified way: a pair of an exploded mapping has an equals sign in it, unless it is a
  path parameter without a value;
* `NoEmptyPair` — no pair of an exploded mapping has an empty text, where names are not written;
* `emitElements_eq` — what is written is `expansion ExpansionUnit.written`;
* `expansion_eq_iff`, `expand_eq_specified_iff` — it is what is specified exactly if there is no such pair.
-/

namespace UriTemplate

/-! ## units of values -/

/-- The units of a reference to a value.  A limit applies to a single value only. -/
def VariableReference.units (op : Operator) (r : VariableReference) : Value → List ExpansionUnit
  | .null => []
  | .scalar s => [⟨op.labelOf r.name, [limitTo r.limit (Value.scalarText s)]⟩]
  | .sequence kind vs =>
    if r.explode then (vs.filter (!·.vacuous)).map fun v => ⟨op.labelOf r.name, v.leaves⟩
    else if (Value.sequence kind vs).vacuous then []
    else [⟨op.labelOf r.name, (Value.sequence kind vs).leaves⟩]
  | .mapping es =>
    if r.explode then (es.filter (!·.2.vacuous)).map fun e => ⟨.key e.1.leaves, e.2.leaves⟩
    else if (Value.mapping es).vacuous then []
    else [⟨op.labelOf r.name, (Value.mapping es).leaves⟩]

/-- The units of references to values, one value for each. -/
def unitsOf (op : Operator) (rs : List VariableReference) (vs : List Value) : List ExpansionUnit :=
  (rs.zip vs).flatMap fun p => p.1.units op p.2

/-- The text of elements whose references have the given values, in order; `text` is how a unit is written. -/
def expansion (text : ExpansionUnit → Operator → Text) : List Element → List Value → Text
  | [], _ => []
  | .literal s :: es, vs => s.text ++ expansion text es vs
  | .expression _ op rs :: es, vs =>
    op.assemble ((unitsOf op rs vs).map fun u => text u op) ++ expansion text es (vs.drop rs.length)
  | .bare _ :: es, vs => expansion text es vs

/-- A unit as it is specified: an equals sign stands between the key and the value of a pair.  It is missing only if
the operator is the one of path parameters and the value is empty. -/
def ExpansionUnit.specified (u : ExpansionUnit) (op : Operator) : Text :=
  match u.label with
  | .key leaves =>
    op.valueText leaves ++ (if op = .pathParameter ∧ op.valueText u.leaves = [] then [] else "=") ++
      op.valueText u.leaves
  | _ => u.written op

/-- The unit is a pair of an exploded mapping, and the text of its value is empty. -/
def ExpansionUnit.IsEmptyPair (u : ExpansionUnit) (op : Operator) : Prop :=
  (∃ key, u.label = .key key) ∧ op.valueText u.leaves = []

/-- There is no such pair under an operator that writes no names. -/
def NoEmptyPair : List Element → List Value → Prop
  | [], _ => True
  | .expression _ op rs :: es, vs =>
    (op.named = false → ∀ u ∈ unitsOf op rs vs, ¬ u.IsEmptyPair op) ∧ NoEmptyPair es (vs.drop rs.length)
  | _ :: es, vs => NoEmptyPair es vs

/-! ## what is written -/

section

variable {op : Operator} {y : Yield}

theorem collectItems_run (label : Label) {vs : List Value} (hr : Value.RereadableItems vs) (hc : Value.ConvertsItems vs) :
    collectItems label vs y =
      (.ok (), { y with units := y.units ++ (vs.filter (!·.vacuous)).map fun v => ⟨label, v.leaves⟩ }) := by
  induction vs generalizing y with
  | nil =>
    rw [List.filter_nil, List.map_nil, List.append_nil]
    rfl
  | cons v vs ih =>
    rw [collectItems, v.readLeaves_eq_pure hr.1 hc.1, bind_of_ok (Collect.perform_pure_run _), bind_of_ok (Collect.yield_run _ _),
      ih hr.2 hc.2]
    cases h : v.vacuous with
    | true => simp [h, v.leaves_eq_nil_iff.2 h]
    | false => simp [h, v.leaves_ne_nil h]

theorem collectPairs_run {es : List (Value × Value)} (hr : Value.RereadableEntries es) (hc : Value.ConvertsEntries es) :
    collectPairs es y =
      (.ok (), { y with units := y.units ++ (es.filter (!·.2.vacuous)).map fun e => ⟨.key e.1.leaves, e.2.leaves⟩ }) := by
  induction es generalizing y with
  | nil =>
    rw [List.filter_nil, List.map_nil, List.append_nil]
    rfl
  | cons e es ih =>
    obtain ⟨key, v⟩ := e
    obtain ⟨hrkey, hrv, hres⟩ := hr
    obtain ⟨hckey, hcv, hces⟩ := hc
    rw [collectPairs, v.readLeaves_eq_pure hrv hcv, bind_of_ok (Collect.perform_pure_run _)]
    cases h : v.vacuous with
    | true =>
      rw [if_neg (fun hne => hne (v.leaves_eq_nil_iff.2 h))]
      refine (ih hres hces).trans ?_
      simp [h]
    | false =>
      rw [if_pos (v.leaves_ne_nil h), key.readLeaves_eq_pure hrkey (hckey h), bind_of_ok (Collect.perform_pure_run _),
        bind_of_ok (Collect.yield_run _ _)]
      refine (ih hres hces).trans ?_
      simp [h, v.leaves_ne_nil h]

/-- A sequence that may be read again gives all of its items, whichever they are. -/
theorem SequenceKind.read_of_rereadable {kind : SequenceKind} {vs : List Value}
    (h : (Value.sequence kind vs).Rereadable) : Value.RereadableItems vs ∧ ∀ items, kind.read items = pure items := by
  cases kind with
  | stream => exact absurd h id
  | list => exact ⟨h, fun _ => rfl⟩
  | tuple => exact ⟨h, fun _ => rfl⟩
  | set => exact ⟨h, fun _ => rfl⟩
  | range => exact ⟨h, fun _ => rfl⟩

/-- A value that may be read again yields its units, and leaves the world as it is. -/
theorem collectValue_run (r : VariableReference) {v : Value} (hr : v.Rereadable) (hc : v.Converts) :
    collectValue op r v y = (.ok (), { y with units := y.units ++ r.units op v }) := by
  cases v with
  | null =>
    rw [VariableReference.units, List.append_nil]
    rfl
  | scalar s =>
    obtain ⟨t, ht⟩ := hc
    rw [collectValue, VariableReference.units, Value.scalarText, ht]
    exact (bind_of_ok (Collect.perform_pure_run t)).trans (Collect.yield_run _ _)
  | sequence kind vs =>
    obtain ⟨hrvs, hread⟩ := SequenceKind.read_of_rereadable hr
    rw [collectValue, VariableReference.units]
    split
    · rw [hread, bind_of_ok (Collect.perform_pure_run _), collectItems_run _ hrvs hc]
    · rw [Value.readLeaves_eq_pure _ hr hc, bind_of_ok (Collect.perform_pure_run _), Collect.yield_run]
      simp only [Value.leaves_eq_nil_iff]
  | mapping es =>
    rw [collectValue, VariableReference.units]
    split
    · exact collectPairs_run hr hc
    · rw [Value.readLeaves_eq_pure _ hr hc, bind_of_ok (Collect.perform_pure_run _), Collect.yield_run]
      simp only [Value.leaves_eq_nil_iff]

theorem collectReferences_run {resolve : Resolver} {rs : List VariableReference} {vs : List Value} {w : World}
    (hvalues : (rs.map (·.name)).mapM resolve y.world = (.ok vs, w)) (hr : ∀ v ∈ vs, v.Rereadable)
    (hc : ∀ v ∈ vs, v.Converts) :
    collectReferences resolve op rs y = (.ok (), ⟨y.units ++ unitsOf op rs vs, w⟩) := by
  induction rs generalizing y vs with
  | nil =>
    obtain ⟨hvs, hw⟩ := Prod.mk.inj hvalues
    rw [unitsOf, List.zip_nil_left, List.flatMap_nil, List.append_nil, ← hw]
    rfl
  | cons r rs ih =>
    rw [List.map_cons, List.mapM_cons] at hvalues
    obtain ⟨v, w₁, hv, hrest⟩ := bind_eq_ok hvalues
    obtain ⟨vs', w₂, hvs, hpure⟩ := bind_eq_ok hrest
    obtain ⟨hcons, rfl⟩ := Prod.mk.inj hpure
    obtain rfl := Except.ok.inj hcons
    have hunits : unitsOf op (r :: rs) (v :: vs') = r.units op v ++ unitsOf op rs vs' := rfl
    have hreference : collectReference resolve op r y = (.ok (), ⟨y.units ++ r.units op v, w₁⟩) := by
      rw [collectReference, bind_of_ok (Collect.perform_run hv)]
      exact collectValue_run r (hr v (by simp)) (hc v (by simp))
    rw [collectReferences, bind_of_ok hreference]
    refine (ih (y := ⟨y.units ++ r.units op v, w₁⟩) hvs (fun v' h => hr v' (List.mem_cons_of_mem _ h))
      (fun v' h => hc v' (List.mem_cons_of_mem _ h))).trans ?_
    rw [hunits, List.append_assoc]

end

/-- **What is written**, if the references have these values. -/
theorem emitElements_eq {resolve : Resolver} {es : List Element} (hbare : ∀ s, .bare s ∉ es) {vs : List Value}
    {w w' : World} (hvalues : (es.flatMap Element.names).mapM resolve w = (.ok vs, w')) (hr : ∀ v ∈ vs, v.Rereadable)
    (hc : ∀ v ∈ vs, v.Converts) (base : Text) :
    emitElements resolve es (.ofSink base w) = (.ok (), .ofSink (base ++ expansion ExpansionUnit.written es vs) w') := by
  induction es generalizing vs w base with
  | nil =>
    obtain ⟨-, hw⟩ := Prod.mk.inj hvalues
    rw [expansion, List.append_nil, ← hw]
    rfl
  | cons e es ih =>
    have hbare' : ∀ s, .bare s ∉ es := fun s h => hbare s (List.mem_cons_of_mem _ h)
    cases e with
    | bare s => exact absurd (by simp) (hbare s)
    | literal s =>
      have hwrite : emitElement resolve (.literal s) (.ofSink base w) = (.ok (), .ofSink (base ++ s.text) w) := by
        rw [← Output.write_ofSink]
        rfl
      rw [emitElements, bind_of_ok hwrite, ih hbare' hvalues hr hc, expansion, List.append_assoc]
    | expression s op rs =>
      rw [List.flatMap_cons, List.mapM_append] at hvalues
      obtain ⟨vs₁, w₁, h₁, hrest⟩ := bind_eq_ok hvalues
      obtain ⟨vs₂, w₂, h₂, hpure⟩ := bind_eq_ok hrest
      obtain ⟨happend, rfl⟩ := Prod.mk.inj hpure
      obtain rfl := Except.ok.inj happend
      have hlength : rs.length = vs₁.length := by
        rw [length_of_mapM h₁, Element.names, List.length_map]
        rfl
      -- the first values are those of this expression, and its references take no more of them
      have hunits : unitsOf op rs (vs₁ ++ vs₂) = unitsOf op rs vs₁ := by
        have hzip : (rs ++ []).zip (vs₁ ++ vs₂) = rs.zip vs₁ ++ [].zip vs₂ := List.zip_append hlength
        rw [List.append_nil, List.zip_nil_left, List.append_nil] at hzip
        rw [unitsOf, hzip]
        rfl
      have hyield : collectReferences resolve op rs { world := w } = (.ok (), ⟨unitsOf op rs vs₁, w₁⟩) :=
        collectReferences_run h₁ (fun v h => hr v (List.mem_append_left _ h)) (fun v h => hc v (List.mem_append_left _ h))
      have hwrite := emitElement_expression resolve s op rs base w
      rw [hyield] at hwrite
      rw [emitElements, bind_of_ok hwrite, expansion, hunits, hlength, List.drop_left, ← List.append_assoc]
      exact ih hbare' h₂ (fun v h => hr v (List.mem_append_right _ h)) (fun v h => hc v (List.mem_append_right _ h)) _

/-! ## what is specified -/

namespace ExpansionUnit

variable {op : Operator} {u : ExpansionUnit}

theorem specified_eq_written (hop : op ∈ Operator.all) (h : op.named = false → ¬ u.IsEmptyPair op) :
    u.specified op = u.written op := by
  obtain ⟨label, leaves⟩ := u
  cases label with
  | none => rfl
  | name n => rfl
  | key ls =>
    rw [specified, written, Operator.labelText?, Operator.equalsSign]
    by_cases hvalue : op.valueText leaves = []
    · have hnamed : op.named = true := by
        cases hn : op.named with
        | true => rfl
        | false => exact absurd ⟨⟨ls, rfl⟩, hvalue⟩ (h hn)
      have hsign : ∀ op ∈ Operator.all, op.named = true → (op = .pathParameter ↔ op.emptyEquals = false) := by decide
      simp only [hvalue, hsign op hop hnamed]
      cases op.emptyEquals <;> rfl
    · simp [hvalue]

/-- A pair with an empty text is one equals sign short. -/
theorem length_specified (hop : op ∈ Operator.all) (hnamed : op.named = false) (h : u.IsEmptyPair op) :
    (u.specified op).length = (u.written op).length + 1 := by
  obtain ⟨label, leaves⟩ := u
  obtain ⟨⟨ls, rfl⟩, hvalue⟩ := h
  have hunnamed : ∀ op ∈ Operator.all, op.named = false → op ≠ .pathParameter ∧ op.emptyEquals = false := by decide
  obtain ⟨hpath, hempty⟩ := hunnamed op hop hnamed
  have hsign : ("=" : Text).length = 1 := rfl
  change op.valueText leaves = [] at hvalue
  simp [specified, written, Operator.labelText?, Operator.equalsSign, hvalue, hpath, hempty, hsign]

theorem length_written_le (hop : op ∈ Operator.all) : (u.written op).length ≤ (u.specified op).length := by
  by_cases h : op.named = false ∧ u.IsEmptyPair op
  · rw [length_specified hop h.1 h.2]
    exact Nat.le_succ _
  · have heq : u.specified op = u.written op := specified_eq_written hop fun hnamed hpair => h ⟨hnamed, hpair⟩
    exact Nat.le_of_eq (congrArg List.length heq.symm)

end ExpansionUnit

/-- Longer parts make a longer text. -/
theorem Text.length_join_map {α : Type} (s : Text) {f g : α → Text} {us : List α}
    (h : ∀ u ∈ us, (f u).length ≤ (g u).length) :
    (join s (us.map f)).length ≤ (join s (us.map g)).length ∧
      ((join s (us.map f)).length = (join s (us.map g)).length → ∀ u ∈ us, (f u).length = (g u).length) := by
  induction us with
  | nil => simp
  | cons u us ih =>
    have hu := h u (by simp)
    obtain ⟨hle, heq⟩ := ih fun v hv => h v (List.mem_cons_of_mem _ hv)
    cases us with
    | nil => simpa using hu
    | cons v us =>
      simp only [List.map_cons, join_cons_cons, List.length_append] at hle heq ⊢
      refine ⟨by omega, fun hlen => ?_⟩
      intro w hw
      rcases List.mem_cons.1 hw with rfl | hw
      · omega
      · exact heq (by omega) w hw

theorem Operator.length_assemble_map {α : Type} (op : Operator) {f g : α → Text} {us : List α}
    (h : ∀ u ∈ us, (f u).length ≤ (g u).length) :
    (op.assemble (us.map f)).length ≤ (op.assemble (us.map g)).length ∧
      ((op.assemble (us.map f)).length = (op.assemble (us.map g)).length → ∀ u ∈ us, (f u).length = (g u).length) := by
  cases us with
  | nil => simp
  | cons u us =>
    obtain ⟨hle, heq⟩ := Text.length_join_map op.separator h
    rw [assemble, if_neg (by simp), assemble, if_neg (by simp), List.length_append, List.length_append]
    exact ⟨by omega, fun hlen => heq (by omega)⟩

/-- Without an empty pair, every unit is written as specified. -/
theorem expansion_eq {es : List Element} (hop : ∀ s op rs, .expression s op rs ∈ es → op ∈ Operator.all)
    {vs : List Value} (h : NoEmptyPair es vs) :
    expansion ExpansionUnit.written es vs = expansion ExpansionUnit.specified es vs := by
  induction es generalizing vs with
  | nil => rfl
  | cons e es ih =>
    have hop' : ∀ s op rs, .expression s op rs ∈ es → op ∈ Operator.all :=
      fun s op rs hmem => hop s op rs (List.mem_cons_of_mem _ hmem)
    cases e with
    | literal s => rw [expansion, expansion, ih hop' h]
    | bare s => exact ih hop' h
    | expression s op rs =>
      have hunits : (unitsOf op rs vs).map (fun u => u.written op) = (unitsOf op rs vs).map fun u => u.specified op := by
        refine List.map_congr_left fun u hu => ?_
        exact (ExpansionUnit.specified_eq_written (hop s op rs (by simp)) fun hn => h.1 hn u hu).symm
      rw [expansion, expansion, hunits, ih hop' h.2]

/-- What is written is too short by as many characters as there are empty pairs. -/
theorem length_expansion_le {es : List Element} (hop : ∀ s op rs, .expression s op rs ∈ es → op ∈ Operator.all)
    (vs : List Value) :
    (expansion ExpansionUnit.written es vs).length ≤ (expansion ExpansionUnit.specified es vs).length ∧
      ((expansion ExpansionUnit.written es vs).length = (expansion ExpansionUnit.specified es vs).length →
        NoEmptyPair es vs) := by
  induction es generalizing vs with
  | nil => exact ⟨Nat.le_refl _, fun _ => trivial⟩
  | cons e es ih =>
    have hop' : ∀ s op rs, .expression s op rs ∈ es → op ∈ Operator.all :=
      fun s op rs hmem => hop s op rs (List.mem_cons_of_mem _ hmem)
    cases e with
    | literal s =>
      obtain ⟨hle, heq⟩ := ih hop' vs
      simp only [expansion, List.length_append]
      exact ⟨by omega, fun hlen => heq (by omega)⟩
    | bare s => exact ih hop' vs
    | expression s op rs =>
      have hmem := hop s op rs (by simp)
      obtain ⟨hle, heq⟩ := ih hop' (vs.drop rs.length)
      have hunit : ∀ u ∈ unitsOf op rs vs, (u.written op).length ≤ (u.specified op).length :=
        fun u _ => ExpansionUnit.length_written_le hmem
      obtain ⟨hunits, hsame⟩ := op.length_assemble_map hunit
      simp only [expansion, List.length_append]
      refine ⟨by omega, fun hlen => ⟨fun hnamed u hu hpair => ?_, heq (by omega)⟩⟩
      have hshort := ExpansionUnit.length_specified hmem hnamed hpair
      have := hsame (by omega) u hu
      omega

theorem expansion_eq_iff {es : List Element} (hop : ∀ s op rs, .expression s op rs ∈ es → op ∈ Operator.all)
    (vs : List Value) :
    expansion ExpansionUnit.written es vs = expansion ExpansionUnit.specified es vs ↔ NoEmptyPair es vs :=
  ⟨fun h => (length_expansion_le hop vs).2 (congrArg List.length h), expansion_eq hop⟩

theorem Template.expand_eq {t : Template} {source : Text} (hparse : parse source = .ok t) {sources : List Source}
    {named : Table Text Value} {resolve : Resolver} (hresolve : Resolver.ofSources sources named = .ok resolve)
    {values : List Value} {w w' : World} (hvalues : t.names.mapM resolve w = (.ok values, w'))
    (hr : ∀ v ∈ values, v.Rereadable) (hc : ∀ v ∈ values, v.Converts) :
    t.expand sources named w = (.ok (expansion ExpansionUnit.written t.elements values), w') := by
  have h := emitElements_eq (Template.spellable hparse).bare_not_mem hvalues hr hc []
  rw [List.nil_append] at h
  have hto : t.expandTo sources named { world := w } =
      (.ok (), .ofSink (expansion ExpansionUnit.written t.elements values) w') := by
    rw [expandTo, hresolve]
    exact h
  unfold Template.expand
  rw [hto]
  exact congrArg (fun t => (Except.ok t, w')) (Output.sink_ofSink _ w')

/-- **An expansion is what is specified exactly if it writes no empty pair.**  The values are those that the resolver
gives for the references, in the order of the source; they may be read again, and their single values have a text. -/
theorem expand_eq_specified_iff {source : Text} {t : Template} (hparse : Template.parse source = .ok t)
    {sources : List Source} {named : Table Text Value} {resolve : Resolver}
    (hresolve : Resolver.ofSources sources named = .ok resolve) {values : List Value} {w w' : World}
    (hvalues : t.names.mapM resolve w = (.ok values, w')) (hr : ∀ v ∈ values, v.Rereadable)
    (hc : ∀ v ∈ values, v.Converts) :
    t.expand sources named w = (.ok (expansion ExpansionUnit.written t.elements values), w') ∧
      (t.expand sources named w = (.ok (expansion ExpansionUnit.specified t.elements values), w') ↔
        NoEmptyPair t.elements values) := by
  have h := t.expand_eq hparse hresolve hvalues hr hc
  refine ⟨h, ?_⟩
  rw [h, ← expansion_eq_iff (fun s op rs h => ((Template.spellable hparse).expression_mem h).1) values]
  exact ⟨fun heq => Except.ok.inj (Prod.mk.inj heq).1, fun heq => by rw [heq]⟩

/-- A path parameter without a value is written as specified. -/
theorem expand_eq_specified_path_parameters :
    let m : Value := .mapping [(.text "a", .text []), (.text "b", .list [.null, .text "c"])]
    let l : Value := .list [.text "x", .text "y"]
    let t : Template := ⟨"{;m*,l}", [.expression ⟨"{;m*,l}", 0, 7⟩ .pathParameter
      [{ name := "m", explode := true }, { name := "l" }]]⟩
    Template.parse ("{;m*,l}" : Text) = .ok t ∧
      t.expand [.value (.mapping [(.text "m", m), (.text "l", l)])] [] {} =
        (.ok (expansion ExpansionUnit.specified t.elements [m, l]), {}) ∧
      expansion ExpansionUnit.specified t.elements [m, l] = (";a;b=c;l=x,y" : Text) := by
  intro m l t
  have hparse : Template.parse ("{;m*,l}" : Text) = .ok t := rfl
  have hvalues : t.names.mapM (Resolver.ofEntries [(.text "m", m), (.text "l", l)]) {} = (.ok [m, l], {}) := rfl
  refine ⟨hparse, (expand_eq_specified_iff hparse rfl hvalues ?_ ?_).2.2 ?_, by decide⟩
  · simp [m, l, Value.Rereadable, Value.RereadableItems, Value.RereadableEntries]
  · simp [m, l, Value.Converts, Value.ConvertsItems, Value.ConvertsEntries, Scalar.toText]
  · exact ⟨fun hnamed => absurd hnamed (by decide), trivial⟩

/-- The equals sign of `a=` is missing if `m` is `{a: ""}`. -/
theorem expand_ne_specified_empty_pair :
    let m : Value := .mapping [(.text "a", .text [])]
    let t : Template := ⟨"{m*}", [.expression ⟨"{m*}", 0, 4⟩ .simple [{ name := "m", explode := true }]]⟩
    Template.parse ("{m*}" : Text) = .ok t ∧ Resolver.ofSources [] [(("m" : Text), m)] = .ok (.ofTable [("m", m)]) ∧
      t.names.mapM (Resolver.ofTable [("m", m)]) {} = (.ok [m], {}) ∧ m.Rereadable ∧ m.Converts ∧
      t.expand [] [("m", m)] {} = (.ok ("a" : Text), {}) ∧
      expansion ExpansionUnit.specified t.elements [m] = ("a=" : Text) := by
  refine ⟨rfl, rfl, rfl, ?_, ?_, rfl, by decide⟩
  · simp [Value.Rereadable, Value.RereadableEntries]
  · simp [Value.Converts, Value.ConvertsEntries, Scalar.toText]

end UriTemplate
