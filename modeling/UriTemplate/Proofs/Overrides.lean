import UriTemplate.Proofs.Absence
import UriTemplate.Proofs.Chains
import UriTemplate.Proofs.Layers

/-!
# Values over the defaults of a catalog

The values of a call are put over the defaults of a catalog in two ways.  An expansion by the catalog merges them, so that
null hides a default; an expansion of its template with named values goes on to the default in the place of null.

* `Catalog.mergedValue`, `Catalog.expand_entries` — the values of an expansion by the catalog;
* `Catalog.chainedValue`, `Catalog.ofSources_defaults` — those of an expansion with named values over the defaults;
* `Catalog.Hides`, `Catalog.emitReference_eq_iff` — where null hides a default, and that this is all the difference;
* `catalog_overrides` — how the two expansions are related.
-/

namespace UriTemplate

/-- References that yield the same write the same. -/
theorem emitReference_congr {resolve resolve' : Resolver} {op : Operator} {r : VariableReference}
    (h : collectReference resolve op r = collectReference resolve' op r) (continued : Bool) :
    emitReference resolve op continued r = emitReference resolve' op continued r := by
  funext o
  rw [← o.ofSink_sink]
  obtain ⟨result, t, w, hrun⟩ := Emit.Appends.reference op r resolve continued o.world
  -- behind one unit, or none, both write what the references yield
  let y : Yield := ⟨if continued then [⟨.none, []⟩] else [], o.world⟩
  have hy : y.continued = continued := by cases continued <;> rfl
  have hwrites := (Writes.reference resolve r : Writes op _ _) [] y
  have hwrites' := (Writes.reference resolve' r : Writes op _ _) [] y
  rw [h, ← hwrites', hy] at hwrites
  have hsame := hwrites.symm.trans (hrun _)
  rw [hrun, (Emit.Appends.reference op r resolve' continued).run hsame]

/-- A value that is not vacuous is written, or it fails. -/
theorem emitReference_ne_of_not_vacuous {resolve : Resolver} (op : Operator) (r : VariableReference) {v : Value}
    {w w' : World} (hv : resolve r.name w = (.ok v, w')) (hr : v.Rereadable) (hvacuous : v.vacuous = false) (base : Text) :
    (emitReference resolve op false r (.ofSink base w)).1 ≠ .ok false := by
  cases hfault : v.fault? with
  | none =>
    rw [emitReference_run op r hv hr (v.converts_iff.2 hfault), hvacuous]
    rintro ⟨⟩
  | some f =>
    have hvalue : ∃ y, collectValue op r v ⟨[], w'⟩ = (.error f, y) := collectValue_of_fault r hr hfault
    obtain ⟨y, hy⟩ := hvalue
    have hcollect : collectReference resolve op r ⟨[], w⟩ = (.error f, y) :=
      (bind_of_ok (Collect.perform_run hv)).trans hy
    have houtput : Yield.output op base ⟨[], w⟩ = .ofSink base w := by
      rw [Yield.output, List.map_nil, Operator.assemble_nil, List.append_nil]
    have hwrites := (Writes.reference resolve r : Writes op _ _) base ⟨[], w⟩
    rw [hcollect, houtput] at hwrites
    have hresult : (emitReference resolve op false r (.ofSink base w)).1 = .error f :=
      congrArg Prod.fst hwrites
    rw [hresult]
    rintro ⟨⟩

namespace Catalog

variable (c : Catalog) (d : Table Text Value)

/-! ## the values of both expansions -/

/-- The value of the call, which may be null, or else the default. -/
def mergedValue (name : Text) : Value := (d.get? name).getD (c.defaults.valueOf name)

/-- The value of the call, unless it is null, or else the default. -/
def chainedValue (name : Text) : Value :=
  if (d.valueOf name).isNull then c.defaults.valueOf name else d.valueOf name

/-- The default has something to write, but the value of the call is null. -/
def Hides (name : Text) : Prop := d.get? name = some .null ∧ (c.defaults.valueOf name).vacuous = false

variable {c d}

theorem ofSources_merged (hd : d.keys.Nodup) :
    Resolver.ofSources [.value (.mapping (c.merged d.entries))] [] = .ok fun name => return c.mergedValue d name := by
  have hmerged : c.merged d.entries = (c.defaults.update d).entries := Table.update_entries c.defaults d
  rw [hmerged, Resolver.ofSources_entries]
  congr 1
  funext name
  rw [Table.valueOf_update hd, mergedValue]
  cases d.get? name <;> rfl

theorem ofSources_defaults :
    Resolver.ofSources [.value (.mapping c.defaults.entries)] d = .ok fun name => return c.chainedValue d name := by
  have hdefaults : Resolver.ofPositional [.value (.mapping c.defaults.entries)] = .ok (some (.ofTable c.defaults)) := by
    rw [← Resolver.ofEntries_text]
    rfl
  rw [Resolver.ofSources_of_positional hdefaults]
  congr 1
  funext name
  rw [chainedValue]
  split <;> rfl

/-- **The values of an expansion by the catalog.** -/
theorem expand_entries {name : Text} {t : Template} (hget : c.get name = .ok t) (hd : d.keys.Nodup) :
    c.expand name d.entries = t.expand [.function fun x => return c.mergedValue d x] [] := by
  rw [expand, hget]
  exact t.expand_congr (ofSources_merged hd)

/-- **The values of an expansion with named values over the defaults.** -/
theorem expand_named (t : Template) :
    t.expand [.value (.mapping c.defaults.entries)] d = t.expand [.function fun x => return c.chainedValue d x] [] :=
  t.expand_congr ofSources_defaults

/-- **The values are the same**, apart from null over a default. -/
theorem mergedValue_eq_chainedValue {name : Text} (h : d.get? name ≠ some .null) :
    c.mergedValue d name = c.chainedValue d name := by
  unfold mergedValue chainedValue Table.valueOf
  cases hget : d.get? name with
  | none => rfl
  | some v =>
    have hnull : v.isNull = false := by
      rw [← Bool.not_eq_true]
      intro hnull
      rw [hget, Value.eq_null_of_isNull hnull] at h
      exact h rfl
    rw [Option.getD_some, Option.getD_some, hnull]
    rfl

theorem mergedValue_of_null {name : Text} (h : d.get? name = some .null) : c.mergedValue d name = .null := by
  rw [mergedValue, h]
  rfl

theorem chainedValue_of_null {name : Text} (h : d.get? name = some .null) :
    c.chainedValue d name = c.defaults.valueOf name := by
  rw [chainedValue, Table.valueOf, h]
  rfl

/-- Without null among the values of the call, both ways are one. -/
theorem chainedValue_eq_mergedValue_filter (hd : d.keys.Nodup) (name : Text) :
    c.chainedValue d name = c.mergedValue (d.filter fun e => !e.2.isNull) name := by
  rw [chainedValue, mergedValue, Table.get?_filter hd (!·.isNull), Table.valueOf]
  cases hget : d.get? name with
  | none => rfl
  | some v =>
    rw [Option.getD_some]
    cases hnull : v.isNull <;> simp [Option.filter, hnull]

/-! ## where they differ -/

variable (hr : ∀ e ∈ c.defaults, e.2.Rereadable) {merged chained : Resolver}
  (hmerged : ∀ x w, merged x w = (.ok (c.mergedValue d x), w))
  (hchained : ∀ x w, chained x w = (.ok (c.chainedValue d x), w)) (op : Operator) (r : VariableReference)

include hr hmerged hchained

/-- **Where null hides no default**, a reference yields the same. -/
theorem collectReference_eq_of_not_hides (h : ¬ c.Hides d r.name) :
    collectReference merged op r = collectReference chained op r := by
  have hvalue : collectValue op r (c.mergedValue d r.name) = collectValue op r (c.chainedValue d r.name) := by
    by_cases hnull : d.get? r.name = some .null
    · have hvacuous : (c.defaults.valueOf r.name).vacuous = true := by
        rw [← Bool.not_eq_false]
        exact fun hvacuous => h ⟨hnull, hvacuous⟩
      rw [mergedValue_of_null hnull, chainedValue_of_null hnull,
        collectValue_of_vacuous op r hvacuous (Table.rereadable_valueOf hr r.name)]
      rfl
    · rw [mergedValue_eq_chainedValue hnull]
  funext y
  rw [collectReference, collectReference, bind_of_ok (Collect.perform_run (hmerged r.name y.world)),
    bind_of_ok (Collect.perform_run (hchained r.name y.world)), hvalue]

/-- **A reference writes the same in both expansions exactly if null hides no default.** -/
theorem emitReference_eq_iff :
    (∀ continued, emitReference merged op continued r = emitReference chained op continued r) ↔ ¬ c.Hides d r.name := by
  constructor
  · rintro hsame ⟨hnull, hvacuous⟩
    have hnone := hmerged r.name {}
    have hdefault := hchained r.name {}
    rw [mergedValue_of_null hnull] at hnone
    rw [chainedValue_of_null hnull] at hdefault
    refine emitReference_ne_of_not_vacuous op r hdefault (Table.rereadable_valueOf hr r.name) hvacuous [] ?_
    rw [← hsame, emitReference_run op r hnone trivial trivial]
    rfl
  · intro h
    exact emitReference_congr (collectReference_eq_of_not_hides hr hmerged hchained op r h)

end Catalog

/-- **The values of a call over the defaults of a catalog.**  An expansion by the catalog gives a variable the value of the
call, which may be null, and its default otherwise.  An expansion of the template with named values over the defaults is
the one by the catalog without null among the values, so both are the same if there is none.  They differ only if the
template has a variable whose value is null in the call, and whose default has something to write; only references to
such variables are written differently, and all of them are. -/
theorem catalog_overrides {c : Catalog} {name : Text} {t : Template} (hget : c.get name = .ok t) {d : Table Text Value}
    (hd : d.keys.Nodup) (hr : ∀ e ∈ c.defaults, e.2.Rereadable) :
    ((∀ e ∈ d, e.2.isNull = false) →
      c.expand name d.entries = t.expand [.value (.mapping c.defaults.entries)] d) ∧
    c.expand name d.entries =
      t.expand [.function fun x => return (d.get? x).getD (c.defaults.valueOf x)] [] ∧
    t.expand [.value (.mapping c.defaults.entries)] d =
      c.expand name (Table.entries (d.filter fun e => !e.2.isNull)) ∧
    (c.expand name d.entries ≠ t.expand [.value (.mapping c.defaults.entries)] d →
      ∃ x ∈ t.names, d.get? x = some .null ∧ (c.defaults.valueOf x).vacuous = false) ∧
    ∀ merged chained, Resolver.ofSources [.value (.mapping (c.merged d.entries))] [] = .ok merged →
      Resolver.ofSources [.value (.mapping c.defaults.entries)] d = .ok chained →
        ∀ op (r : VariableReference),
          (∀ continued, emitReference merged op continued r = emitReference chained op continued r) ↔
            ¬ (d.get? r.name = some .null ∧ (c.defaults.valueOf r.name).vacuous = false) := by
  have hfilter : t.expand [.value (.mapping c.defaults.entries)] d =
      c.expand name (Table.entries (d.filter fun e => !e.2.isNull)) := by
    have hd' := Table.nodup_keys_filter hd (!·.isNull)
    rw [Catalog.expand_named, Catalog.expand_entries hget hd', funext (Catalog.chainedValue_eq_mergedValue_filter hd)]
  refine ⟨fun hnull => ?_, Catalog.expand_entries hget hd, hfilter, fun hne => ?_, fun merged chained hmerged hchained => ?_⟩
  · rw [hfilter, List.filter_eq_self.2]
    simpa using hnull
  · by_contra hnone
    refine hne ?_
    rw [Catalog.expand_entries hget hd, Catalog.expand_named]
    refine expandElements_congr fun op r hmem => ?_
    refine Catalog.collectReference_eq_of_not_hides hr (fun _ _ => rfl) (fun _ _ => rfl) op r fun h => hnone ?_
    exact ⟨r.name, Template.name_mem_names hmem, h⟩
  · obtain rfl := Except.ok.inj ((Catalog.ofSources_merged hd).symm.trans hmerged)
    obtain rfl := Except.ok.inj (Catalog.ofSources_defaults.symm.trans hchained)
    exact Catalog.emitReference_eq_iff hr (fun _ _ => rfl) fun _ _ => rfl

/-- Null hides the default of `x`; that of `z` has nothing to write anyway. -/
theorem catalog_overrides_null :
    let t : Template := ⟨"{x,y}{?z*}", [.expression ⟨"{x,y}", 0, 5⟩ .simple [{ name := "x" }, { name := "y" }],
      .expression ⟨"{?z*}", 5, 10⟩ .query [{ name := "z", explode := true }]]⟩
    let c : Catalog := { templates := [("s", t)], defaults := [("x", .text "1"), ("y", .text "2"), ("z", .list [.null])] }
    let d : Table Text Value := [("x", .null), ("y", .text "3"), ("z", .null)]
    let present : Table Text Value := [("y", .text "3")]
    Template.parse ("{x,y}{?z*}" : Text) = .ok t ∧ c.get "s" = .ok t ∧
      c.expand "s" d.entries {} = (.ok ("3" : Text), {}) ∧
      t.expand [.value (.mapping c.defaults.entries)] d {} = (.ok ("1,3" : Text), {}) ∧
      t.expand [.value (.mapping c.defaults.entries)] d = c.expand "s" present.entries ∧
      ∃ x ∈ t.names, d.get? x = some .null ∧ (c.defaults.valueOf x).vacuous = false := by
  intro t c d present
  have hget : c.get "s" = .ok t := rfl
  have hd : d.keys.Nodup := by decide
  have hr : ∀ e ∈ c.defaults, e.2.Rereadable := by
    simp [c, Value.Rereadable, Value.RereadableItems]
  have hmerged : c.expand "s" d.entries {} = (.ok ("3" : Text), {}) := rfl
  have hchained : t.expand [.value (.mapping c.defaults.entries)] d {} = (.ok ("1,3" : Text), {}) := rfl
  obtain ⟨-, -, hpresent, hdiffer, -⟩ := catalog_overrides hget hd hr
  refine ⟨rfl, hget, hmerged, hchained, hpresent, hdiffer fun hsame => ?_⟩
  have htexts : ("3" : Text) = "1,3" :=
    Except.ok.inj (congrArg Prod.fst ((hmerged.symm.trans (congrFun hsame {})).trans hchained))
  exact absurd htexts (by decide)

end UriTemplate
