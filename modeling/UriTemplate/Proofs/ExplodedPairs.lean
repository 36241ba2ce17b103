import UriTemplate.Proofs.Absence
import UriTemplate.Proofs.Flattening

/-!
# Pairs of exploded mappings

Where a mapping is exploded, every pair whose value is not vacuous is written as a unit of its own.

* `pairUnits` — the units of pairs;
* `emitPairs_cons`, `emitPairs_append` — what one pair writes, and what the pairs up to one of them do;
* `ExpansionUnit.written_eq_specified_iff` — an equals sign is missing only in an empty pair whose operator writes no
  names;
* `exploded_pair_written` — a pair is written behind the ones before it, as specified unless it is such a pair.
-/

namespace UriTemplate

open Value

variable (op : Operator)

/-- The units of pairs, which are labelled by their keys. -/
def pairUnits (es : List (Value × Value)) : List ExpansionUnit :=
  (es.filter (!·.2.vacuous)).map fun e => ⟨.key e.1.leaves, e.2.leaves⟩

theorem pairUnits_append (es fs : List (Value × Value)) : pairUnits (es ++ fs) = pairUnits es ++ pairUnits fs := by
  rw [pairUnits, List.filter_append, List.map_append]
  rfl

theorem pairUnits_eq_nil_iff (es : List (Value × Value)) : pairUnits es = [] ↔ vacuousEntries es = true := by
  simp [pairUnits, vacuousEntries_iff]

theorem isEmpty_written (es : List (Value × Value)) :
    ((pairUnits es).map (·.written op)).isEmpty = vacuousEntries es := by
  rw [Bool.eq_iff_iff, List.isEmpty_iff, List.map_eq_nil_iff, pairUnits_eq_nil_iff]

theorem VariableReference.units_of_explode {r : VariableReference} (h : r.explode = true) (es : List (Value × Value)) :
    r.units op (.mapping es) = pairUnits es := by
  rw [units, if_pos h]
  rfl

/-! ## what pairs write -/

theorem Operator.added_singleton (continued : Bool) (t : Text) :
    op.added continued [t] = (if continued then op.separator else op.first.getD []) ++ t := by
  rw [added, if_neg (List.cons_ne_nil _ _), Text.join_singleton]

theorem Operator.added_append (continued : Bool) (texts us : List Text) :
    op.added continued (texts ++ us) =
      op.added continued texts ++ op.added (continued || !texts.isEmpty) us := by
  by_cases htexts : texts = []
  · simp [htexts, added]
  by_cases hus : us = []
  · simp [hus, added]
  have hcontinued : (continued || !texts.isEmpty) = true := by simp [htexts]
  rw [added, added, added, if_neg (by simp [htexts]), if_neg htexts, if_neg hus, Text.join_append htexts hus, hcontinued,
    if_pos rfl]
  simp only [List.append_assoc]

/-- Pairs with null for their value are passed over. -/
theorem emitPairs_filter (continued : Bool) (es : List (Value × Value)) :
    emitPairs op continued (es.filter (!·.2.isNull)) = emitPairs op continued es := by
  induction es generalizing continued with
  | nil => rfl
  | cons e es ih =>
    obtain ⟨key, v⟩ := e
    cases h : v.isNull with
    | true =>
      cases v with
      | null => exact ih continued
      | scalar s => cases h
      | sequence kind vs => cases h
      | mapping fs => cases h
    | false =>
      rw [List.filter_cons_of_pos (by simp [h]), emitPairs, emitPairs]
      simp only [ih]

theorem Reads.emit_run {α : Type} {ids : List Nat} {a : Act α} {x : α} (h : Reads ids a x) {w : World} (hw : w.Fresh ids)
    (sink : Text) : ∃ used ⊆ ids, Emit.perform a (.ofSink sink w) = (.ok x, .ofSink sink (w.drain used)) := by
  obtain ⟨used, hused, hrun⟩ := h w hw
  exact ⟨used, hused, Emit.perform_run hrun⟩

section

variable {w : World} (continued : Bool) (rest : List (Value × Value)) (base : Text)

/-- **What one pair writes**: nothing if its value is vacuous, else its unit. -/
theorem emitPairs_cons {key v : Value} (hc : ConvertsEntries [(key, v)]) (hfresh : w.Fresh (streamsEntries [(key, v)])) :
    ∃ used ⊆ streamsEntries [(key, v)], emitPairs op continued ((key, v) :: rest) (.ofSink base w) =
      emitPairs op (continued || !vacuousEntries [(key, v)]) rest
        (.ofSink (base ++ op.added continued ((pairUnits [(key, v)]).map (·.written op))) (w.drain used)) := by
  obtain ⟨hckey, hcv, -⟩ := hc
  have hstreams : streamsEntries [(key, v)] = v.streams ++ key.streams := by
    rw [streamsEntries, streamsEntries, List.append_nil]
  have hvacuous : vacuousEntries [(key, v)] = v.vacuous := by
    rw [vacuousEntries, vacuousEntries, Bool.and_true]
  rw [hstreams] at hfresh ⊢
  rw [hvacuous]
  obtain ⟨used, hused, hvalue⟩ := (reads_serialize_leaves op.policy hcv).emit_run
    (hfresh.of_sublist (List.sublist_append_left _ _)) base
  cases h : v.vacuous with
  | true =>
    refine ⟨used, List.subset_append_of_subset_left _ hused, ?_⟩
    rw [(v.leaves_eq_nil_iff).2 h] at hvalue
    rw [emitPairs, bind_of_ok hvalue, (pairUnits_eq_nil_iff _).2 (hvacuous.trans h)]
    simp [encoded, commaJoined, Operator.added]
  | false =>
    obtain ⟨used', hused', hkey⟩ := (reads_serialize_leaves op.policy (hckey h)).emit_run (hfresh.drain hused) base
    obtain ⟨text, htext⟩ := exists_encoded _ (v.leaves_ne_nil h)
    have hunit : pairUnits [(key, v)] = [⟨.key key.leaves, v.leaves⟩] := by simp [pairUnits, h]
    have hvalueText : op.valueText v.leaves = text := by rw [Operator.valueText, htext, Option.getD_some]
    refine ⟨used' ++ used, World.subset_drained hused hused', ?_⟩
    rw [htext] at hvalue
    rw [emitPairs, bind_of_ok hvalue]
    refine (bind_of_ok hkey).trans ((bind_of_ok (emitUnit_run op _ _ _ _ _)).trans ?_)
    rw [Output.write_ofSink, World.drain_drain, hunit, List.map_singleton, Operator.added_singleton,
      ExpansionUnit.written_of_some _ rfl, hvalueText, if_pos rfl, Bool.not_false, Bool.or_true]
    rfl

/-- **What pairs write**: their units, one behind the other. -/
theorem emitPairs_append {es : List (Value × Value)} (hc : ConvertsEntries es) (hfresh : w.Fresh (streamsEntries es)) :
    ∃ used ⊆ streamsEntries es, emitPairs op continued (es ++ rest) (.ofSink base w) =
      emitPairs op (continued || !vacuousEntries es) rest
        (.ofSink (base ++ op.added continued ((pairUnits es).map (·.written op))) (w.drain used)) := by
  induction es generalizing continued base w with
  | nil =>
    refine ⟨[], List.Subset.refl _, ?_⟩
    simp [vacuousEntries, pairUnits, Operator.added, World.drain]
  | cons e es ih =>
    obtain ⟨key, v⟩ := e
    have hstreams : streamsEntries ((key, v) :: es) = streamsEntries [(key, v)] ++ streamsEntries es := by
      simp [streamsEntries]
    rw [hstreams] at hfresh ⊢
    have hone : ConvertsEntries [(key, v)] := ⟨hc.1, hc.2.1, trivial⟩
    obtain ⟨used, hused, hpair⟩ := emitPairs_cons op continued (es ++ rest) base hone
      (hfresh.of_sublist (List.sublist_append_left _ _))
    obtain ⟨used', hused', hpairs⟩ := ih (continued || !vacuousEntries [(key, v)])
      (base ++ op.added continued ((pairUnits [(key, v)]).map (·.written op))) hc.2.2 (hfresh.drain hused)
    have hunits : pairUnits ((key, v) :: es) = pairUnits [(key, v)] ++ pairUnits es := pairUnits_append [(key, v)] es
    have hvacuous : vacuousEntries ((key, v) :: es) = (vacuousEntries [(key, v)] && vacuousEntries es) := by
      simp [vacuousEntries]
    refine ⟨used' ++ used, World.subset_drained hused hused', ?_⟩
    rw [List.cons_append, hpair, hpairs, hunits, List.map_append, Operator.added_append, isEmpty_written, hvacuous,
      Bool.not_and, Bool.or_assoc, List.append_assoc, World.drain_drain]

end

/-! ## the equals sign -/

namespace ExpansionUnit

variable {op : Operator} {u : ExpansionUnit}

/-- **An equals sign is missing only in an empty pair** whose operator writes no names. -/
theorem written_eq_specified_iff (hop : op ∈ Operator.all) :
    u.written op = u.specified op ↔ ¬ (op.named = false ∧ u.IsEmptyPair op) := by
  constructor
  · rintro heq ⟨hnamed, hpair⟩
    have hlength := length_specified hop hnamed hpair
    rw [← heq] at hlength
    omega
  · intro h
    exact (specified_eq_written hop fun hnamed hpair => h ⟨hnamed, hpair⟩).symm

/-- Then the key is all that is written. -/
theorem written_of_emptyPair (hop : op ∈ Operator.all) (hnamed : op.named = false) {key leaves : List Text}
    (hvalue : op.valueText leaves = []) : (ExpansionUnit.mk (.key key) leaves).written op = op.valueText key ∧
      (ExpansionUnit.mk (.key key) leaves).specified op = op.valueText key ++ "=" := by
  have hunnamed : ∀ op ∈ Operator.all, op.named = false → op ≠ .pathParameter ∧ op.emptyEquals = false := by decide
  obtain ⟨hpath, hempty⟩ := hunnamed op hop hnamed
  constructor
  · rw [written_of_some _ rfl, hvalue, Operator.equalsSign, hempty]
    simp
  · simp [specified, hvalue, hpath]

end ExpansionUnit

/-- **Every pair of an exploded mapping is written**, unless its value is vacuous: behind the units of the pairs before
it, with the separator, or the character of the operator, in front.  Its key, an equals sign and its value are written as
specified, with one exception: if the operator writes no names and the value has an empty text, the key is all that is
written. -/
theorem exploded_pair_written {op : Operator} (hop : op ∈ Operator.all) {r : VariableReference} (hexplode : r.explode = true)
    {resolve : Resolver} {w w₁ : World} {before after : List (Value × Value)} {key v : Value}
    (hresolve : resolve r.name w = (.ok (.mapping (before ++ (key, v) :: after)), w₁)) (hv : v.vacuous = false)
    (hc : ConvertsEntries (before ++ [(key, v)])) (hfresh : w₁.Fresh (streamsEntries (before ++ [(key, v)])))
    (continued : Bool) (base : Text) :
    let pair : ExpansionUnit := ⟨.key key.leaves, v.leaves⟩
    (∃ used ⊆ streamsEntries (before ++ [(key, v)]),
      emitReference resolve op continued r (.ofSink base w) =
        emitPairs op true after
          (.ofSink (base ++ op.added continued ((r.units op (.mapping before)).map (·.written op)) ++
            ((if continued || !vacuousEntries before then op.separator else op.first.getD []) ++ pair.written op))
          (w₁.drain used))) ∧
    (pair.written op = pair.specified op ↔ ¬ (op.named = false ∧ op.valueText v.leaves = [])) ∧
    (op.named = false → op.valueText v.leaves = [] →
      pair.written op = op.valueText key.leaves ∧ pair.specified op = op.valueText key.leaves ++ "=") := by
  intro pair
  refine ⟨?_, ?_, fun hnamed hvalue => ExpansionUnit.written_of_emptyPair hop hnamed hvalue⟩
  · obtain ⟨used, hused, hrun⟩ := emitPairs_append op continued after base hc hfresh
    refine ⟨used, hused, ?_⟩
    have hclassify : classify (.mapping (before ++ (key, v) :: after)) =
        pure (.ofPairs (before ++ (key, v) :: after)) := rfl
    have hunit : pairUnits [(key, v)] = [pair] := by simp [pairUnits, hv, pair]
    have hvacuous : vacuousEntries (before ++ [(key, v)]) = false := by
      rw [← Bool.not_eq_true, vacuousEntries_iff]
      intro h
      rw [h (key, v) (by simp)] at hv
      cases hv
    rw [emitReference_eq, bind_of_ok (Emit.perform_run hresolve), hclassify, Emit.perform_pure, pure_bind,
      emitClassified_ofPairs hexplode, emitPairs_filter, List.append_cons]
    refine hrun.trans ?_
    rw [hvacuous, Bool.not_false, Bool.or_true, pairUnits_append, hunit, List.map_append, Operator.added_append, isEmpty_written,
      r.units_of_explode op hexplode, List.map_singleton, Operator.added_singleton, ← List.append_assoc]
  · rw [ExpansionUnit.written_eq_specified_iff hop]
    have hpair : pair.IsEmptyPair op ↔ op.valueText v.leaves = [] := and_iff_right ⟨key.leaves, rfl⟩
    rw [hpair]

/-- A path parameter behind one without a value; its key is a pair, and its value a stream. -/
theorem exploded_pair_written_path_parameter :
    let before : List (Value × Value) := [(.text "gone", .null), (.text "e", .text [])]
    let key : Value := .sequence .tuple [.text "k", .null]
    let v : Value := .sequence (.stream 7) [.text "x/", .list [.null, .text "y"]]
    let after : List (Value × Value) := [(.text "b", .bool true)]
    let m : Value := .mapping (before ++ (key, v) :: after)
    v.vacuous = false ∧ ConvertsEntries (before ++ [(key, v)]) ∧
      World.Fresh {} (streamsEntries (before ++ [(key, v)])) ∧
      ∃ used, emitReference (.ofTable [("m", m)]) .pathParameter false { name := "m", explode := true }
          (.ofSink ("/p" : Text) {}) =
        emitPairs .pathParameter true after (.ofSink ("/p;e;k=x%2F,y" : Text) (World.drain {} used)) := by
  intro before key v after m
  have hv : v.vacuous = false := rfl
  have hc : ConvertsEntries (before ++ [(key, v)]) := by
    simp [before, key, v, Value.Converts, ConvertsItems, ConvertsEntries, Scalar.toText]
  have hfresh : World.Fresh {} (streamsEntries (before ++ [(key, v)])) := ⟨by decide, by decide⟩
  let r : VariableReference := { name := "m", explode := true }
  have hexplode : r.explode = true := rfl
  have hop : Operator.pathParameter ∈ Operator.all := by decide
  have hresolve : Resolver.ofTable [("m", m)] r.name {} = (.ok m, {}) := rfl
  obtain ⟨⟨used, -, hrun⟩, -⟩ := exploded_pair_written hop hexplode hresolve hv hc hfresh false ("/p" : Text)
  refine ⟨hv, hc, hfresh, used, hrun.trans ?_⟩
  congr 2

/-- The equals sign behind `a` is missing in the path segments of `{a: "", b: "1"}`. -/
theorem exploded_pair_without_equals :
    let m : Value := .mapping [(.text "a", .text []), (.text "b", .text "1")]
    let r : VariableReference := { name := "m", explode := true }
    let t : Template := ⟨"{/m*}", [.expression ⟨"{/m*}", 0, 5⟩ .pathSegment [r]]⟩
    Template.parse ("{/m*}" : Text) = .ok t ∧ t.expand [] [("m", m)] {} = (.ok ("/a/b=1" : Text), {}) ∧
      (r.units .pathSegment m).map (·.written .pathSegment) = [("a" : Text), ("b=1" : Text)] ∧
      (r.units .pathSegment m).map (·.specified .pathSegment) = [("a=" : Text), ("b=1" : Text)] ∧
      Operator.pathSegment.assemble [("a=" : Text), ("b=1" : Text)] = ("/a=/b=1" : Text) :=
  ⟨rfl, rfl, by decide, by decide, by decide⟩

end UriTemplate
