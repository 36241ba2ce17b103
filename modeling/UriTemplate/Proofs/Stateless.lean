import UriTemplate.Proofs.Specification

/-!
# Resolvers without state

* `Keeps` — an action that leaves a part of the state as it is, if it fails too;
* `Resolver.Stateless` — resolvers that leave the world as it is, and whose values may be read again;
* `Value.readLeaves_keeps`, `collectValue_keeps` — what reading a value, or collecting its units, leaves as it is;
* `collectReferences_keeps`, `expandElements_keeps` — references to such values and expansions with such resolvers
  change nothing.
-/

namespace UriTemplate

/-! ## actions that change nothing -/

section

variable {ε σ τ α β : Type} {part : σ → τ}

/-- The action leaves this part of the state as it is, also if it fails. -/
def Keeps (part : σ → τ) (x : ExceptT ε (StateM σ) α) : Prop := ∀ s, part (x s).2 = part s

theorem Keeps.pure (a : α) : Keeps part (Pure.pure a : ExceptT ε (StateM σ) α) := fun _ => rfl

/-- The second action has to be looked at only for results of the first one. -/
theorem Keeps.bind_on_ok {x : ExceptT ε (StateM σ) α} {f : α → ExceptT ε (StateM σ) β} (hx : Keeps part x)
    (hf : ∀ s a s', x s = (.ok a, s') → Keeps part (f a)) : Keeps part (x >>= f) := by
  intro s
  have hs := hx s
  cases hr : x s with
  | mk r s' =>
    rw [hr] at hs
    cases r with
    | error e => rwa [bind_of_error hr]
    | ok a => rw [bind_of_ok hr, hf s a s' hr s', hs]

theorem Keeps.bind {x : ExceptT ε (StateM σ) α} {f : α → ExceptT ε (StateM σ) β} (hx : Keeps part x)
    (hf : ∀ a, Keeps part (f a)) : Keeps part (x >>= f) :=
  hx.bind_on_ok fun _ a _ _ => hf a

end

/-- A resolver without state of its own.  It leaves the world as it is, and what it gives may be read again. -/
def Resolver.Stateless (resolve : Resolver) : Prop :=
  ∀ name w, (resolve name w).2 = w ∧ ∀ v, (resolve name w).1 = .ok v → v.Rereadable

/-- A table of values that may be read again. -/
theorem Resolver.stateless_ofTable {values : Table Text Value} (h : ∀ e ∈ values, e.2.Rereadable) :
    (ofTable values).Stateless := by
  refine fun name w => ⟨rfl, fun v hv => ?_⟩
  obtain rfl : (values.get? name).getD .null = v := Except.ok.inj hv
  cases hget : values.get? name with
  | none => exact trivial
  | some v =>
    obtain ⟨before, behind, hvalues, -⟩ := List.lookup_eq_some_iff.1 hget
    exact h (name, v) (by rw [hvalues]; simp)

/-! ## reading values -/

section

variable {τ : Type} {part : World → τ}

theorem Act.keeps_ofExcept {α : Type} (x : Except Fault α) : Keeps part (Act.ofExcept x) := by
  cases x <;> exact fun _ => rfl

namespace Value

-- what reading uses up are streams: there are none, or this part of the world has nothing to do with them
mutual
theorem readLeaves_keeps (v : Value) (h : v.Rereadable ∨ ∀ id, Keeps part (Act.drain id)) :
    Keeps part v.readLeaves := by
  cases v with
  | null => exact .pure _
  | scalar s => exact (Act.keeps_ofExcept _).bind fun _ => .pure _
  | sequence kind vs =>
    cases kind with
    | stream n =>
      rcases h with h | h
      · exact absurd h id
      · refine (h n).bind fun fresh => ?_
        split
        · exact readLeavesItems_keeps vs (.inr h)
        · exact .pure _
    | list => exact readLeavesItems_keeps vs h
    | tuple => exact readLeavesItems_keeps vs h
    | set => exact readLeavesItems_keeps vs h
    | range => exact readLeavesItems_keeps vs h
  | mapping es => exact readLeavesEntries_keeps es h
theorem readLeavesItems_keeps (vs : List Value) (h : RereadableItems vs ∨ ∀ id, Keeps part (Act.drain id)) :
    Keeps part (readLeavesItems vs) := by
  cases vs with
  | nil => exact .pure _
  | cons v vs =>
    refine (readLeaves_keeps v (h.imp_left And.left)).bind fun _ => ?_
    exact (readLeavesItems_keeps vs (h.imp_left And.right)).bind fun _ => .pure _
theorem readLeavesEntries_keeps (es : List (Value × Value))
    (h : RereadableEntries es ∨ ∀ id, Keeps part (Act.drain id)) : Keeps part (readLeavesEntries es) := by
  match es with
  | [] => exact .pure _
  | (key, v) :: es =>
    have hes := readLeavesEntries_keeps es (h.imp_left fun h => h.2.2)
    refine (readLeaves_keeps v (h.imp_left fun h => h.2.1)).bind fun texts => ?_
    split
    · exact hes
    · exact (readLeaves_keeps key (h.imp_left And.left)).bind fun _ => hes.bind fun _ => .pure _
end

end Value

theorem SequenceKind.keeps_read (h : ∀ id, Keeps part (Act.drain id)) (kind : SequenceKind) (vs : List Value) :
    Keeps part (kind.read vs) := by
  cases kind with
  | stream id =>
    refine (h id).bind fun fresh => ?_
    split <;> exact .pure _
  | list => exact .pure _
  | tuple => exact .pure _
  | set => exact .pure _
  | range => exact .pure _

/-! ## collecting units -/

theorem Collect.keeps_perform {α : Type} {a : Act α} (h : Keeps part a) :
    Keeps (fun y : Yield => part y.world) (Collect.perform a) :=
  fun y => h y.world

theorem Collect.keeps_yield (label : Label) (leaves : List Text) :
    Keeps (fun y : Yield => part y.world) (Collect.yield label leaves) := by
  intro y
  rw [Collect.yield_run]

theorem collectItems_keeps (label : Label) {vs : List Value}
    (h : Value.RereadableItems vs ∨ ∀ id, Keeps part (Act.drain id)) :
    Keeps (fun y : Yield => part y.world) (collectItems label vs) := by
  induction vs with
  | nil => exact .pure _
  | cons v vs ih =>
    refine (Collect.keeps_perform (v.readLeaves_keeps (h.imp_left And.left))).bind fun _ => ?_
    exact (Collect.keeps_yield _ _).bind fun _ => ih (h.imp_left And.right)

theorem collectPairs_keeps {es : List (Value × Value)}
    (h : Value.RereadableEntries es ∨ ∀ id, Keeps part (Act.drain id)) :
    Keeps (fun y : Yield => part y.world) (collectPairs es) := by
  induction es with
  | nil => exact .pure _
  | cons e es ih =>
    obtain ⟨key, v⟩ := e
    refine (Collect.keeps_perform (v.readLeaves_keeps (h.imp_left fun h => h.2.1))).bind fun leaves => ?_
    have hes := ih (h.imp_left fun h => h.2.2)
    split
    · refine (Collect.keeps_perform (key.readLeaves_keeps (h.imp_left And.left))).bind fun _ => ?_
      exact (Collect.keeps_yield _ _).bind fun _ => hes
    · exact hes

theorem collectValue_keeps (op : Operator) (r : VariableReference) {v : Value}
    (h : v.Rereadable ∨ ∀ id, Keeps part (Act.drain id)) :
    Keeps (fun y : Yield => part y.world) (collectValue op r v) := by
  have hleaves := Collect.keeps_perform (v.readLeaves_keeps h)
  cases v with
  | null => exact .pure _
  | scalar s => exact (Collect.keeps_perform (Act.keeps_ofExcept _)).bind fun _ => Collect.keeps_yield _ _
  | sequence kind vs =>
    rw [collectValue]
    split
    · rcases h with h | h
      · obtain ⟨hvs, hread⟩ := SequenceKind.read_of_rereadable h
        rw [hread]
        exact collectItems_keeps _ (.inl hvs)
      · exact (Collect.keeps_perform (kind.keeps_read h vs)).bind fun items => collectItems_keeps _ (.inr h)
    · exact hleaves.bind fun _ => Collect.keeps_yield _ _
  | mapping es =>
    rw [collectValue]
    split
    · exact collectPairs_keeps h
    · exact hleaves.bind fun _ => Collect.keeps_yield _ _

end

variable {resolve : Resolver}

theorem collectReferences_keeps (h : resolve.Stateless) (op : Operator) (rs : List VariableReference) :
    Keeps Yield.world (collectReferences resolve op rs) := by
  induction rs with
  | nil => exact .pure _
  | cons r rs ih =>
    have hresolve : Keeps id (resolve r.name) := fun w => (h r.name w).1
    refine ((Collect.keeps_perform hresolve).bind_on_ok fun y v y' hv => ?_).bind fun _ => ih
    have hvalue : (resolve r.name y.world).1 = .ok v := congrArg Prod.fst hv
    exact collectValue_keeps op r (.inl ((h r.name y.world).2 v hvalue))

/-! ## expansions -/

theorem emitElement_keeps (h : resolve.Stateless) (e : Element) : Keeps Output.world (emitElement resolve e) := by
  intro o
  cases e with
  | literal s => rfl
  | bare s => rfl
  | expression s op rs =>
    rw [← o.ofSink_sink, emitElement_expression]
    exact collectReferences_keeps h op rs { world := o.world }

theorem emitElements_keeps (h : resolve.Stateless) (es : List Element) : Keeps Output.world (emitElements resolve es) := by
  induction es with
  | nil => exact .pure _
  | cons e es ih => exact (emitElement_keeps h e).bind fun _ => ih

/-- **An expansion changes nothing if the resolver has no state of its own.** -/
theorem expandElements_keeps (h : resolve.Stateless) (es : List Element) : Keeps id (expandElements resolve es) :=
  fun w => emitElements_keeps h es { world := w }

end UriTemplate
