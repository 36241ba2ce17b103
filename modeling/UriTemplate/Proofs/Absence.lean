import UriTemplate.Proofs.Concatenation

/-!
# Absent values

What has nothing to write makes no difference, wherever it stands in a value.

* `Value.Thinned` — a value without some of its vacuous members; `Value.pruned` — one without any of them;
* `Value.readLeaves_of_vacuous`, `Value.readLeaves_of_thinned` — vacuous members have no leaves to be read;
* `Value.StandsFor`, `collectValue_of_standsFor` — a thinned value, or null for a vacuous one, yields the same units;
* `Resolver.Thinned`, `Resolver.pruned` — resolvers that give such values instead;
* `VariableReference.units_eq_nil_iff`, `emitReference_run` — conversely, only vacuous values yield no unit;
* `expand_of_thinned` — expansions with such resolvers are the same.
-/

namespace UriTemplate

/-! ## values without vacuous members -/

namespace Value

mutual
/-- The second value is the first one without some of the vacuous members of sequences, and some of the pairs with
vacuous values, in it at any depth. -/
inductive Thinned : Value → Value → Prop
  | null : Thinned null null
  | scalar (s : Scalar) : Thinned (scalar s) (scalar s)
  | sequence (kind : SequenceKind) {vs vs' : List Value} (h : ThinnedItems vs vs') :
      Thinned (sequence kind vs) (sequence kind vs')
  | mapping {es es' : List (Value × Value)} (h : ThinnedEntries es es') : Thinned (mapping es) (mapping es')
inductive ThinnedItems : List Value → List Value → Prop
  | nil : ThinnedItems [] []
  | keep {v v' : Value} {vs vs' : List Value} (hv : Thinned v v') (h : ThinnedItems vs vs') :
      ThinnedItems (v :: vs) (v' :: vs')
  | drop {v : Value} {vs vs' : List Value} (hv : v.vacuous = true) (h : ThinnedItems vs vs') : ThinnedItems (v :: vs) vs'
inductive ThinnedEntries : List (Value × Value) → List (Value × Value) → Prop
  | nil : ThinnedEntries [] []
  | keep {k k' v v' : Value} {es es' : List (Value × Value)} (hk : Thinned k k') (hv : Thinned v v')
      (h : ThinnedEntries es es') : ThinnedEntries ((k, v) :: es) ((k', v') :: es')
  | drop {k v : Value} {es es' : List (Value × Value)} (hv : v.vacuous = true) (h : ThinnedEntries es es') :
      ThinnedEntries ((k, v) :: es) es'
end

mutual
/-- The value without the vacuous members of sequences, and without the pairs with vacuous values, at every depth. -/
def pruned : Value → Value
  | null => null
  | scalar s => scalar s
  | sequence kind vs => sequence kind (prunedItems vs)
  | mapping es => mapping (prunedEntries es)
def prunedItems : List Value → List Value
  | [] => []
  | v :: vs => if v.vacuous then prunedItems vs else pruned v :: prunedItems vs
def prunedEntries : List (Value × Value) → List (Value × Value)
  | [] => []
  | (k, v) :: es => if v.vacuous then prunedEntries es else (pruned k, pruned v) :: prunedEntries es
end

mutual
theorem thinned_pruned (v : Value) : Thinned v v.pruned := by
  cases v with
  | null => exact .null
  | scalar s => exact .scalar s
  | sequence kind vs => exact .sequence kind (thinnedItems_prunedItems vs)
  | mapping es => exact .mapping (thinnedEntries_prunedEntries es)
theorem thinnedItems_prunedItems (vs : List Value) : ThinnedItems vs (prunedItems vs) := by
  cases vs with
  | nil => exact .nil
  | cons v vs =>
    have hvs := thinnedItems_prunedItems vs
    rw [prunedItems]
    split
    · next hv => exact .drop hv hvs
    · exact .keep (thinned_pruned v) hvs
theorem thinnedEntries_prunedEntries (es : List (Value × Value)) : ThinnedEntries es (prunedEntries es) := by
  match es with
  | [] => exact .nil
  | (k, v) :: es =>
    have hes := thinnedEntries_prunedEntries es
    rw [prunedEntries]
    split
    · next hv => exact .drop hv hes
    · exact .keep (thinned_pruned k) (thinned_pruned v) hes
end

/-- Nothing but vacuous items can be left out altogether. -/
theorem ThinnedItems.of_vacuous {vs : List Value} (h : vacuousItems vs = true) : ThinnedItems vs [] := by
  induction vs with
  | nil => exact .nil
  | cons v vs ih =>
    rw [vacuousItems, Bool.and_eq_true] at h
    exact .drop h.1 (ih h.2)

theorem ThinnedEntries.of_vacuous {es : List (Value × Value)} (h : vacuousEntries es = true) : ThinnedEntries es [] := by
  induction es with
  | nil => exact .nil
  | cons e es ih =>
    rw [vacuousEntries, Bool.and_eq_true] at h
    exact .drop h.1 (ih h.2)

/-! ## reading them -/

mutual
theorem readLeaves_of_vacuous (v : Value) (h : v.vacuous = true) (hr : v.Rereadable) : readLeaves v = pure [] := by
  cases v with
  | null => rfl
  | scalar s => cases h
  | sequence kind vs =>
    obtain ⟨hvs, hread⟩ := SequenceKind.read_of_rereadable hr
    rw [readLeaves_sequence, hread, pure_bind]
    exact readLeavesItems_of_vacuous vs h hvs
  | mapping es => exact readLeavesEntries_of_vacuous es h hr
theorem readLeavesItems_of_vacuous (vs : List Value) (h : vacuousItems vs = true) (hr : RereadableItems vs) :
    readLeavesItems vs = pure [] := by
  cases vs with
  | nil => rfl
  | cons v vs =>
    rw [vacuousItems, Bool.and_eq_true] at h
    rw [readLeavesItems, readLeaves_of_vacuous v h.1 hr.1, readLeavesItems_of_vacuous vs h.2 hr.2]
    rfl
theorem readLeavesEntries_of_vacuous (es : List (Value × Value)) (h : vacuousEntries es = true)
    (hr : RereadableEntries es) : readLeavesEntries es = pure [] := by
  match es with
  | [] => rfl
  | (k, v) :: es =>
    rw [vacuousEntries, Bool.and_eq_true] at h
    rw [readLeavesEntries, readLeaves_of_vacuous v h.1 hr.2.1, pure_bind, if_pos rfl]
    exact readLeavesEntries_of_vacuous es h.2 hr.2.2
end

mutual
/-- **Vacuous members make no difference to the leaves.** -/
theorem readLeaves_of_thinned (v v' : Value) (h : Thinned v v') (hr : v.Rereadable) : readLeaves v = readLeaves v' := by
  cases h with
  | null => rfl
  | scalar s => rfl
  | sequence kind hvs =>
    obtain ⟨hitems, hread⟩ := SequenceKind.read_of_rereadable hr
    rw [readLeaves_sequence, readLeaves_sequence, hread, hread, pure_bind, pure_bind]
    exact readLeavesItems_of_thinned _ _ hvs hitems
  | mapping hes => exact readLeavesEntries_of_thinned _ _ hes hr
theorem readLeavesItems_of_thinned (vs vs' : List Value) (h : ThinnedItems vs vs') (hr : RereadableItems vs) :
    readLeavesItems vs = readLeavesItems vs' := by
  cases h with
  | nil => rfl
  | keep hv hvs =>
    rw [readLeavesItems, readLeavesItems, readLeaves_of_thinned _ _ hv hr.1, readLeavesItems_of_thinned _ _ hvs hr.2]
  | drop hv hvs =>
    rw [readLeavesItems, readLeaves_of_vacuous _ hv hr.1, readLeavesItems_of_thinned _ _ hvs hr.2, pure_bind]
    exact bind_pure _
theorem readLeavesEntries_of_thinned (es es' : List (Value × Value)) (h : ThinnedEntries es es')
    (hr : RereadableEntries es) : readLeavesEntries es = readLeavesEntries es' := by
  cases h with
  | nil => rfl
  | keep hk hv hes =>
    obtain ⟨hrk, hrv, hres⟩ := hr
    rw [readLeavesEntries, readLeavesEntries, readLeaves_of_thinned _ _ hk hrk, readLeaves_of_thinned _ _ hv hrv,
      readLeavesEntries_of_thinned _ _ hes hres]
  | drop hv hes =>
    obtain ⟨-, hrv, hres⟩ := hr
    rw [readLeavesEntries, readLeaves_of_vacuous _ hv hrv, pure_bind, if_pos rfl]
    exact readLeavesEntries_of_thinned _ _ hes hres
end

/-- What may stand for a value: the value without some of its vacuous members, or null if it is vacuous itself. -/
def StandsFor (v' v : Value) : Prop := Thinned v v' ∨ (v.vacuous = true ∧ v' = null)

/-- Null for a vacuous value, and for other ones the value without its vacuous members. -/
def withoutVacuous (v : Value) : Value := if v.vacuous then null else v.pruned

theorem withoutVacuous_standsFor (v : Value) : v.withoutVacuous.StandsFor v := by
  unfold withoutVacuous
  split
  · next h => exact .inr ⟨h, rfl⟩
  · exact .inl v.thinned_pruned

end Value

/-! ## the units of such values -/

open Value

theorem collectItems_of_thinned (label : Label) {vs vs' : List Value} (h : ThinnedItems vs vs')
    (hr : RereadableItems vs) : collectItems label vs = collectItems label vs' := by
  induction vs generalizing vs' with
  | nil =>
    cases h
    rfl
  | cons v vs ih =>
    cases h with
    | keep hv hvs => rw [collectItems, collectItems, readLeaves_of_thinned _ _ hv hr.1, ih hvs hr.2]
    | drop hv hvs =>
      rw [collectItems, readLeaves_of_vacuous _ hv hr.1, ← ih hvs hr.2]
      rfl

theorem collectPairs_of_thinned {es es' : List (Value × Value)} (h : ThinnedEntries es es')
    (hr : RereadableEntries es) : collectPairs es = collectPairs es' := by
  induction es generalizing es' with
  | nil =>
    cases h
    rfl
  | cons e es ih =>
    cases h with
    | keep hk hv hes =>
      obtain ⟨hrk, hrv, hres⟩ := hr
      rw [collectPairs, collectPairs, readLeaves_of_thinned _ _ hk hrk, readLeaves_of_thinned _ _ hv hrv, ih hes hres]
    | drop hv hes =>
      obtain ⟨-, hrv, hres⟩ := hr
      rw [collectPairs, readLeaves_of_vacuous _ hv hrv, ← ih hes hres]
      rfl

variable (op : Operator) (r : VariableReference)

theorem collectValue_of_thinned {v v' : Value} (h : Thinned v v') (hr : v.Rereadable) :
    collectValue op r v = collectValue op r v' := by
  have hleaves := readLeaves_of_thinned v v' h hr
  cases h with
  | null => rfl
  | scalar s => rfl
  | sequence kind hvs =>
    obtain ⟨hitems, hread⟩ := SequenceKind.read_of_rereadable hr
    have hcollect := collectItems_of_thinned (op.labelOf r.name) hvs hitems
    rw [collectValue, collectValue, hread, hread, hleaves]
    split
    · exact hcollect
    · rfl
  | mapping hes =>
    rw [collectValue, collectValue, hleaves, collectPairs_of_thinned hes hr]

/-- A vacuous value yields nothing. -/
theorem collectValue_of_vacuous {v : Value} (h : v.vacuous = true) (hr : v.Rereadable) :
    collectValue op r v = pure () := by
  cases v with
  | null => rfl
  | scalar s => cases h
  | sequence kind vs =>
    obtain ⟨-, hread⟩ := SequenceKind.read_of_rereadable hr
    -- its units are those of a sequence without items
    rw [collectValue_of_thinned op r (.sequence kind (.of_vacuous h)) hr, collectValue, readLeaves_sequence, hread]
    split <;> rfl
  | mapping es =>
    rw [collectValue_of_thinned op r (.mapping (.of_vacuous h)) hr, collectValue]
    split <;> rfl

/-- **What stands for a value yields the same units.** -/
theorem collectValue_of_standsFor {v v' : Value} (h : v'.StandsFor v) (hr : v.Rereadable) :
    collectValue op r v = collectValue op r v' := by
  rcases h with h | ⟨h, rfl⟩
  · exact collectValue_of_thinned op r h hr
  · exact collectValue_of_vacuous op r h hr

/-! ## resolvers that give such values -/

namespace Resolver

/-- Whatever the resolver gives may be read again. -/
def Rereadable (resolve : Resolver) : Prop := ∀ name w v w', resolve name w = (.ok v, w') → v.Rereadable

/-- The first resolver gives what may stand for the values of the second one.  Both fail alike, and leave the same world
behind. -/
def StandsFor (resolve' resolve : Resolver) : Prop :=
  ∀ name w, (∃ e w', resolve name w = (.error e, w') ∧ resolve' name w = (.error e, w')) ∨
    ∃ v v' w', resolve name w = (.ok v, w') ∧ resolve' name w = (.ok v', w') ∧ v'.StandsFor v

/-- The resolver that gives null for vacuous values, and other ones without their vacuous members. -/
def pruned (resolve : Resolver) : Resolver := fun name => do return (← resolve name).withoutVacuous

theorem pruned_standsFor (resolve : Resolver) : resolve.pruned.StandsFor resolve := by
  intro name w
  cases h : resolve name w with
  | mk result w' =>
    cases result with
    | error e => exact .inl ⟨e, w', rfl, bind_of_error h⟩
    | ok v => exact .inr ⟨v, v.withoutVacuous, w', rfl, bind_of_ok h, v.withoutVacuous_standsFor⟩

end Resolver

theorem collectReference_of_standsFor {resolve resolve' : Resolver} (h : resolve'.StandsFor resolve)
    (hr : resolve.Rereadable) : collectReference resolve op r = collectReference resolve' op r := by
  have hrelated : resolve.Related (fun v v' => v'.StandsFor v ∧ v.Rereadable) resolve' := by
    intro name w
    refine (h name w).imp_right ?_
    rintro ⟨v, v', w', hv, hv', hstands⟩
    exact ⟨v, v', w', hv, hv', hstands, hr _ _ _ _ hv⟩
  exact collectReference_of_related hrelated fun v v' hv => collectValue_of_standsFor op r hv.1 hv.2

/-! ## what a reference writes -/

namespace Value

theorem vacuousItems_iff (vs : List Value) : vacuousItems vs = true ↔ ∀ v ∈ vs, v.vacuous = true := by
  induction vs with
  | nil => simp [vacuousItems]
  | cons v vs ih => simp [vacuousItems, ih]

theorem vacuousEntries_iff (es : List (Value × Value)) : vacuousEntries es = true ↔ ∀ e ∈ es, e.2.vacuous = true := by
  induction es with
  | nil => simp [vacuousEntries]
  | cons e es ih => simp [vacuousEntries, ih]

end Value

/-- **Only vacuous values yield no unit.** -/
theorem VariableReference.units_eq_nil_iff (v : Value) : r.units op v = [] ↔ v.vacuous = true := by
  cases v with
  | null => simp [units, vacuous]
  | scalar s => simp [units, vacuous]
  | sequence kind vs =>
    rw [units, vacuous]
    split
    · simp [vacuousItems_iff]
    · simp
  | mapping es =>
    rw [units, vacuous]
    split
    · simp [vacuousEntries_iff]
    · simp

namespace Emit.Appends

variable {α : Type}

theorem perform (a : Act α) : Emit.Appends (Emit.perform a) := by
  intro w
  refine ⟨(a w).1, [], (a w).2, fun base => ?_⟩
  rw [List.append_nil]
  rfl

theorem unit (continued named : Bool) (name text : Text) : Emit.Appends (emitUnit op continued named name text) := by
  intro w
  let first := if continued then op.separator else op.first.getD []
  refine ⟨.ok (), first ++ ((if named then name ++ op.equalsSign text else []) ++ text), w, fun base => ?_⟩
  rw [emitUnit_run, Output.write_ofSink]

theorem items (name : Text) (continued : Bool) (vs : List Value) : Emit.Appends (emitItems op name continued vs) := by
  induction vs generalizing continued with
  | nil => exact .pure _
  | cons v vs ih =>
    refine (perform _).bind fun text => ?_
    cases text with
    | none => exact ih continued
    | some text => exact (unit op _ _ _ _).bind fun _ => ih true

theorem pairs (continued : Bool) (es : List (Value × Value)) : Emit.Appends (emitPairs op continued es) := by
  induction es generalizing continued with
  | nil => exact .pure _
  | cons e es ih =>
    refine (perform _).bind fun text => ?_
    cases text with
    | none => exact ih continued
    | some text => exact (perform _).bind fun _ => (unit op _ _ _ _).bind fun _ => ih true

theorem one (continued : Bool) (v : Classified) : Emit.Appends (emitOne op r continued v) := by
  refine (perform _).bind fun text => ?_
  cases text with
  | none => exact .pure _
  | some text => exact (unit op _ _ _ _).bind fun _ => .pure _

theorem reference (resolve : Resolver) (continued : Bool) : Emit.Appends (emitReference resolve op continued r) := by
  rw [emitReference_eq]
  refine (perform _).bind fun v => (perform _).bind fun classified => ?_
  unfold emitClassified
  split
  · exact pairs op continued _
  · exact items op r.name continued _
  · exact one op r continued _

/-- One run is enough to know the others, with another text in the sink. -/
theorem run {m : Emit α} (hm : Emit.Appends m) {base t : Text} {w w' : World} {result : Except Fault α}
    (h : m (.ofSink base w) = (result, .ofSink (base ++ t) w')) (base' : Text) :
    m (.ofSink base' w) = (result, .ofSink (base' ++ t) w') := by
  obtain ⟨result', t', w'', hruns⟩ := hm w
  obtain ⟨rfl, houtput⟩ := Prod.mk.inj ((hruns base).symm.trans h)
  have hsink := congrArg Output.sink houtput
  rw [Output.sink_ofSink, Output.sink_ofSink] at hsink
  obtain rfl : w'' = w' := congrArg Output.world houtput
  rw [hruns, List.append_cancel_left hsink]

end Emit.Appends

namespace Operator

/-- What more texts add to an expression. -/
def added (op : Operator) (continued : Bool) (texts : List Text) : Text :=
  if texts = [] then [] else (if continued then op.separator else op.first.getD []) ++ Text.join op.separator texts

theorem assemble_append (texts us : List Text) :
    op.assemble (texts ++ us) = op.assemble texts ++ op.added (!texts.isEmpty) us := by
  unfold added assemble
  by_cases htexts : texts = []
  · simp [htexts]
  by_cases hus : us = []
  · simp [hus]
  rw [if_neg (by simp [htexts]), if_neg htexts, if_neg hus, Text.join_append htexts hus]
  simp [htexts]

end Operator

/-- **What a reference writes.**  A vacuous value writes nothing.  Any other one writes what separates it from the unit
before, or opens the expression, and then its units. -/
theorem emitReference_run {resolve : Resolver} {v : Value} {w w' : World} (hv : resolve r.name w = (.ok v, w'))
    (hr : v.Rereadable) (hc : v.Converts) (continued : Bool) (base : Text) :
    emitReference resolve op continued r (.ofSink base w) =
      (.ok (continued || !v.vacuous),
        .ofSink (base ++ op.added continued ((r.units op v).map (·.written op))) w') := by
  -- after one unit, or none, the collector knows what is written
  let y : Yield := ⟨if continued then [⟨.none, []⟩] else [], w⟩
  have hy : y.continued = continued := by cases continued <;> rfl
  have hcollect : collectReference resolve op r y = (.ok (), ⟨y.units ++ r.units op v, w'⟩) := by
    rw [collectReference, bind_of_ok (Collect.perform_run hv)]
    exact collectValue_run r hr hc
  have hunits : (r.units op v).isEmpty = v.vacuous := by
    rw [Bool.eq_iff_iff, List.isEmpty_iff, r.units_eq_nil_iff op v]
  have hcontinued : Yield.continued ⟨y.units ++ r.units op v, w'⟩ = (continued || !v.vacuous) := by
    rw [← hunits, ← hy, Yield.continued, Yield.continued]
    cases y.units <;> simp
  have hafter : Yield.output op [] ⟨y.units ++ r.units op v, w'⟩ =
      .ofSink (op.assemble (y.units.map (·.written op)) ++ op.added continued ((r.units op v).map (·.written op))) w' := by
    rw [Yield.output, List.nil_append, List.map_append, Operator.assemble_append, ← hy, Yield.continued]
    simp
  have hrun : emitReference resolve op continued r (.ofSink (op.assemble (y.units.map (·.written op))) w) =
      (.ok (continued || !v.vacuous),
        .ofSink (op.assemble (y.units.map (·.written op)) ++
          op.added continued ((r.units op v).map (·.written op))) w') := by
    have hwrites := (Writes.reference resolve r : Writes op _ _) [] y
    rw [hcollect, hy] at hwrites
    rw [← hafter, ← hcontinued]
    exact hwrites
  exact (Emit.Appends.reference op r resolve continued).run hrun base

/-! ## expansions -/

/-- **Absence is uniform.**  Leaving vacuous members out of the values that a resolver gives, at any depth, and null for
vacuous values make no difference to an expansion, nor to what it does to the world.  Conversely a reference writes
nothing only for a vacuous value.  Any other one opens the expression or is separated from the unit before, and neither
an empty text nor a sequence that holds one is vacuous. -/
theorem expand_absence_uniform {sources : List Source} {named : Table Text Value} {resolve : Resolver}
    (hresolve : Resolver.ofSources sources named = .ok resolve) (hr : resolve.Rereadable) (t : Template) :
    t.expand [.function resolve.pruned] [] = t.expand sources named ∧
    (∀ sources' named' resolve', Resolver.ofSources sources' named' = .ok resolve' → resolve'.StandsFor resolve →
      t.expand sources' named' = t.expand sources named) ∧
    (∀ op (r : VariableReference) v w w' continued base, resolve r.name w = (.ok v, w') → v.Converts →
      emitReference resolve op continued r (.ofSink base w) =
        (.ok (continued || !v.vacuous),
          .ofSink (base ++ op.added continued ((r.units op v).map (·.written op))) w') ∧
      (r.units op v = [] ↔ v.vacuous = true)) ∧
    (Value.text []).vacuous = false ∧ ∀ kind vs, .text [] ∈ vs → (Value.sequence kind vs).vacuous = false := by
  have hthinned : ∀ sources' named' resolve', Resolver.ofSources sources' named' = .ok resolve' →
      resolve'.StandsFor resolve → t.expand sources' named' = t.expand sources named := by
    intro sources' named' resolve' hresolve' hstands
    rw [Template.expand_of_resolver hresolve, Template.expand_of_resolver hresolve']
    exact expandElements_congr fun op r _ => (collectReference_of_standsFor op r hstands hr).symm
  refine ⟨hthinned _ _ _ rfl resolve.pruned_standsFor, hthinned, ?_, rfl, ?_⟩
  · intro op r v w w' continued base hv hc
    exact ⟨emitReference_run op r hv (hr _ _ _ _ hv) hc continued base, r.units_eq_nil_iff op v⟩
  · intro kind vs hmem
    rw [Value.vacuous, ← Bool.not_eq_true, vacuousItems_iff]
    intro h
    cases h _ hmem

/-- Empty lists in a list and in a mapping. -/
theorem expand_absence_uniform_nested :
    let l : Value := .list [.list [], .text "a", .list [.null]]
    let m : Value := .mapping [(.text "k", .list []), (.text "b", .list [.text [], .null])]
    let t : Template := ⟨"{?l*,m}", [.expression ⟨"{?l*,m}", 0, 7⟩ .query [{ name := "l", explode := true },
      { name := "m" }]]⟩
    let named : Table Text Value := [("l", l), ("m", m)]
    Template.parse ("{?l*,m}" : Text) = .ok t ∧ l.withoutVacuous = .list [.text "a"] ∧
      m.withoutVacuous = .mapping [(.text "b", .list [.text []])] ∧
      t.expand [.function (Resolver.ofTable named).pruned] [] {} = (.ok ("?l=a&m=b," : Text), {}) ∧
      t.expand [.function (Resolver.ofTable named).pruned] [] = t.expand [] named ∧
      emitReference (.ofTable named) .query true { name := "m" } (.ofSink "?l=a" {}) =
        (.ok true, .ofSink ("?l=a" ++ "&m=b,") {}) := by
  intro l m t named
  have hstateless : (Resolver.ofTable named).Stateless :=
    Resolver.stateless_ofTable (by simp [named, l, m, Value.Rereadable, Value.RereadableItems, Value.RereadableEntries])
  have hr : (Resolver.ofTable named).Rereadable := by
    intro name w v w' hv
    exact (hstateless name w).2 v (congrArg Prod.fst hv)
  have hc : m.Converts := by simp [m, Value.Converts, Value.ConvertsItems, Value.ConvertsEntries, Scalar.toText]
  have hresolve : Resolver.ofSources [] named = .ok (.ofTable named) := rfl
  obtain ⟨hpruned, -, hreference, -⟩ := expand_absence_uniform hresolve hr t
  exact ⟨rfl, rfl, rfl, rfl, hpruned, (hreference .query { name := "m" } m {} {} true "?l=a" rfl hc).1⟩

end UriTemplate
