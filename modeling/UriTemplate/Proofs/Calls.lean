import UriTemplate.Binding
import UriTemplate.Proofs.Concatenation

/-!
# The calls of a resolver

An expansion asks for the value of every reference, in the order of the source, and for nothing else.

* `Asks` — an action that adds names to a log: all of the given ones, or the first ones of them if it fails;
* `Asks.of_keeps`, `Asks.bind` — actions that ask for nothing, and one action after another one;
* `Resolver.Calls`, `Resolver.Calls.reference`, `Resolver.Calls.expand` — what a resolver asks for, and references and
  expansions with it; `emitElements_asks`, `expandElements_asks` — elements ask for their names;
* `Item.names`, `Template.exists_names` — the names of a template as they are written in its source;
* `Template.mem_declaredNames`, `Template.pairwise_declaredNames` — the names without repetitions, in the order of their
  first places;
* `expansion_calls` — the calls, the names that a template and its bindings have, and what an expansion depends on.
-/

namespace UriTemplate

/-! ## logs -/

section

variable {ε σ τ α β : Type} {log : σ → List Text} {names more : List Text}

/-- The action adds names to the log: these ones in this order if it succeeds, and the first ones of them if it
fails. -/
def Asks (log : σ → List Text) (names : List Text) (x : ExceptT ε (StateM σ) α) : Prop :=
  ∀ s, ∃ calls, log (x s).2 = log s ++ calls ∧ calls <+: names ∧ ∀ a, (x s).1 = .ok a → calls = names

theorem Asks.of_keeps {x : ExceptT ε (StateM σ) α} (h : Keeps log x) : Asks log [] x :=
  fun s => ⟨[], by rw [h s, List.append_nil], List.nil_prefix, fun _ _ => rfl⟩

theorem Asks.pure (a : α) : Asks log [] (Pure.pure a : ExceptT ε (StateM σ) α) := .of_keeps (.pure a)

/-- **One action after another one** asks for the names of the first one and then for those of the second one. -/
theorem Asks.bind {x : ExceptT ε (StateM σ) α} {f : α → ExceptT ε (StateM σ) β} (hx : Asks log names x)
    (hf : ∀ a, Asks log more (f a)) : Asks log (names ++ more) (x >>= f) := by
  intro s
  obtain ⟨calls, hlog, hprefix, hok⟩ := hx s
  cases hr : x s with
  | mk r s' =>
    rw [hr] at hlog hok
    cases r with
    | error e =>
      rw [bind_of_error hr]
      exact ⟨calls, hlog, hprefix.trans (List.prefix_append names more), nofun⟩
    | ok a =>
      obtain rfl := hok a rfl
      obtain ⟨calls', hlog', hprefix', hok'⟩ := hf a s'
      rw [bind_of_ok hr]
      refine ⟨calls ++ calls', ?_, (List.prefix_append_right_inj calls).2 hprefix', ?_⟩
      · rw [hlog', hlog, List.append_assoc]
      · intro b hb
        rw [hok' b hb]

end

/-! ## references and elements -/

theorem Act.drain_keeps_asked (stream : Nat) : Keeps World.asked (Act.drain stream) := by
  have hget : Keeps World.asked (get : Act World) := fun _ => rfl
  have hmodify : Keeps World.asked (modify fun w => { w with drained := stream :: w.drained } : Act Unit) :=
    fun _ => rfl
  refine hget.bind fun w => ?_
  split
  · exact .pure false
  · exact hmodify.bind fun _ => .pure true

theorem Resolver.noting_asks {resolve : Resolver} (h : ∀ name, Keeps World.asked (resolve name)) (name : Text) :
    Asks World.asked [name] (resolve.noting name) := by
  have hnote : Asks World.asked [name] (Act.note name) :=
    fun _ => ⟨[name], rfl, List.prefix_rfl, fun _ _ => rfl⟩
  exact hnote.bind fun _ => .of_keeps (h name)

/-- The names that an expression has asked for when it has come so far. -/
def Yield.asked (y : Yield) : List Text := y.world.asked

/-- The names that an expansion has asked for when it has come so far. -/
def Output.asked (o : Output) : List Text := o.world.asked

/-- What the resolver asks for when it is asked for a name. -/
def Resolver.Calls (resolve : Resolver) (calls : Text → List Text) : Prop :=
  ∀ name, Asks World.asked (calls name) (resolve name)

namespace Resolver.Calls

variable {resolve : Resolver} {calls : Text → List Text} (h : resolve.Calls calls)

include h

/-- A reference makes the calls for its name, whatever is done with the value. -/
theorem reference (op : Operator) (r : VariableReference) :
    Asks Yield.asked (calls r.name) (collectReference resolve op r) := by
  have hname : Asks Yield.asked (calls r.name) (Collect.perform (resolve r.name)) := fun y => h r.name y.world
  have hvalue : ∀ v, Asks Yield.asked [] (collectValue op r v) :=
    fun v => .of_keeps (collectValue_keeps op r (.inr Act.drain_keeps_asked))
  have hreference := hname.bind hvalue
  rwa [List.append_nil] at hreference

theorem references (op : Operator) (rs : List VariableReference) :
    Asks Yield.asked ((rs.map (·.name)).flatMap calls) (collectReferences resolve op rs) := by
  induction rs with
  | nil => exact .pure ()
  | cons r rs ih => exact (h.reference op r).bind fun _ => ih

theorem element (e : Element) : Asks Output.asked (e.names.flatMap calls) (emitElement resolve e) := by
  cases e with
  | literal s => exact .of_keeps fun _ => rfl
  | bare s => exact .of_keeps fun _ => rfl
  | expression s op rs =>
    intro o
    rw [← o.ofSink_sink, emitElement_expression]
    exact h.references op rs { world := o.world }

theorem elements (es : List Element) :
    Asks Output.asked ((es.flatMap Element.names).flatMap calls) (emitElements resolve es) := by
  induction es with
  | nil => exact .pure ()
  | cons e es ih =>
    rw [List.flatMap_cons, List.flatMap_append]
    exact (h.element e).bind fun _ => ih

theorem expandElements (es : List Element) :
    Asks World.asked ((es.flatMap Element.names).flatMap calls) (expandElements resolve es) := by
  intro w
  obtain ⟨calls, hlog, hprefix, hok⟩ := h.elements es { world := w }
  refine ⟨calls, hlog, hprefix, fun text htext => ?_⟩
  have hmap : (emitElements resolve es { world := w }).1.map
      (fun _ => (emitElements resolve es { world := w }).2.sink) = .ok text := htext
  cases hresult : (emitElements resolve es { world := w }).1 with
  | ok => exact hok () hresult
  | error e =>
    rw [hresult] at hmap
    cases hmap

/-- **An expansion makes the calls for the names of the template.** -/
theorem expand (t : Template) {sources : List Source} {named : Table Text Value}
    (hresolve : ofSources sources named = .ok resolve) :
    Asks Output.asked (t.names.flatMap calls) (t.expandTo sources named) ∧
      Asks World.asked (t.names.flatMap calls) (t.expand sources named) := by
  constructor
  · unfold Template.expandTo
    rw [hresolve]
    exact h.elements t.elements
  · rw [Template.expand_of_resolver hresolve]
    exact h.expandElements t.elements

end Resolver.Calls

section

variable {resolve : Resolver} (h : ∀ name, Keeps World.asked (resolve name))

include h

theorem emitElements_asks (es : List Element) :
    Asks Output.asked (es.flatMap Element.names) (emitElements resolve.noting es) := by
  have hcalls : resolve.noting.Calls fun name => [name] := Resolver.noting_asks h
  have helements := hcalls.elements es
  rwa [List.flatMap_singleton'] at helements

theorem expandElements_asks (es : List Element) :
    Asks World.asked (es.flatMap Element.names) (expandElements resolve.noting es) := by
  have hcalls : resolve.noting.Calls fun name => [name] := Resolver.noting_asks h
  have helements := hcalls.expandElements es
  rwa [List.flatMap_singleton'] at helements

end

/-! ## names -/

/-- The names in an item, as they are written. -/
def Item.names : Item → List Text
  | .expression e => e.specs.map fun v => v.name.text
  | .char .. | .triplet _ => []

theorem VariableSpec.name_reference (v : VariableSpec) : v.reference.name = v.name.text := by
  obtain ⟨n, m⟩ := v
  cases m <;> rfl

theorem Derivation.names_elementsFrom (d : Derivation) (start : Nat) :
    (d.elementsFrom start).flatMap Element.names = d.flatMap Item.names := by
  have hitem : ∀ i : Item, i.specs.map (fun v => v.reference.name) = i.names := by
    intro i
    cases i with
    | char => rfl
    | triplet => rfl
    | expression e =>
      rw [Item.specs, Item.names]
      exact List.map_congr_left fun v _ => v.name_reference
  calc (d.elementsFrom start).flatMap Element.names
    _ = ((d.elementsFrom start).flatMap Element.references).map (·.name) := List.map_flatMap.symm
    _ = d.flatMap fun i => i.specs.map fun v => v.reference.name := by
      rw [d.references_elementsFrom, List.map_map, List.map_flatMap]
      rfl
    _ = d.flatMap Item.names := by simp only [hitem]

namespace Template

/-- The names of a template are those in its source. -/
theorem exists_names {source : Text} {t : Template} (h : parse source = .ok t) :
    ∃ d : Derivation, d.text = source ∧ t.names = d.flatMap Item.names := by
  obtain ⟨d, hd, helements⟩ := exists_derivation ((parse_eq_ok_iff source t).1 h).2
  refine ⟨d, hd, ?_⟩
  rw [names, ← helements]
  exact d.names_elementsFrom 0

theorem mem_declaredNames (t : Template) (name : Text) : name ∈ t.declaredNames ↔ name ∈ t.names :=
  List.mem_eraseDups

theorem name_mem_names {t : Template} {r : VariableReference} (h : r ∈ t.elements.flatMap Element.references) :
    r.name ∈ t.names := by
  obtain ⟨e, he, hr⟩ := List.mem_flatMap.1 h
  exact List.mem_flatMap.2 ⟨e, he, List.mem_map_of_mem hr⟩

theorem mentions_iff (t : Template) (name : Text) : t.mentions name = true ↔ name ∈ t.names :=
  List.contains_iff_mem

/-- The distinct members stand in the order of their first places. -/
def FirstPlaces (names : List Text) : Prop :=
  names.eraseDups.Pairwise fun a b => names.idxOf a < names.idxOf b

theorem FirstPlaces.concat {names : List Text} (h : FirstPlaces names) (name : Text) : FirstPlaces (names ++ [name]) := by
  have hbefore : ∀ a ∈ names.eraseDups, (names ++ [name]).idxOf a = names.idxOf a := by
    intro a ha
    rw [List.idxOf_append, if_pos (List.mem_eraseDups.1 ha)]
  have hpairwise : names.eraseDups.Pairwise fun a b => (names ++ [name]).idxOf a < (names ++ [name]).idxOf b := by
    refine h.imp_of_mem fun ha hb hlt => ?_
    rwa [hbefore _ ha, hbefore _ hb]
  unfold FirstPlaces
  rw [List.eraseDups_append, List.cons_removeAll]
  by_cases hname : name ∈ names
  · rw [if_neg (by simpa using hname)]
    simpa using hpairwise
  · rw [if_pos (by simpa using hname)]
    refine List.pairwise_append.2 ⟨hpairwise, by simp [List.eraseDups_cons], ?_⟩
    intro a ha b hb
    obtain rfl : b = name := by simpa using hb
    rw [hbefore a ha, List.idxOf_append, if_neg hname, List.idxOf_cons_self, Nat.zero_add]
    exact List.idxOf_lt_length_of_mem (List.mem_eraseDups.1 ha)

theorem FirstPlaces.append {names : List Text} (h : FirstPlaces names) (more : List Text) :
    FirstPlaces (names ++ more) := by
  induction more generalizing names with
  | nil => rwa [List.append_nil]
  | cons name more ih =>
    rw [List.append_cons]
    exact ih (h.concat name)

/-- The declared names stand in the order in which they occur first. -/
theorem pairwise_declaredNames (t : Template) :
    t.declaredNames.Pairwise fun a b => t.names.idxOf a < t.names.idxOf b := by
  have hnil : FirstPlaces [] := .nil
  exact hnil.append t.names

end Template

namespace Binding

variable {α : Type}

theorem template_of_set {b b' : Binding α} {name : Text} {value : α} (h : b.set name value = .ok b') :
    b'.template = b.template := by
  unfold set at h
  split at h
  · obtain rfl := Except.ok.inj h
    rfl
  · cases h

/-- Bindings keep the template that they are made for. -/
theorem template_of_ofValues {t : Template} {values : List (Text × α)} {b : Binding α}
    (h : ofValues t values = .ok b) : b.template = t := by
  have hfold : ∀ {values : List (Text × α)} {b₀ b : Binding α},
      values.foldlM (fun b e => b.set e.1 e.2) b₀ = .ok b → b.template = b₀.template := by
    intro values
    induction values with
    | nil =>
      intro b₀ b h
      obtain rfl := Except.ok.inj h
      rfl
    | cons e values ih =>
      intro b₀ b h
      rw [List.foldlM_cons] at h
      cases hset : b₀.set e.1 e.2 with
      | error f =>
        rw [hset] at h
        cases h
      | ok b₁ =>
        rw [hset] at h
        rw [ih h, template_of_set hset]
  exact hfold h

end Binding

/-! ## calls -/

/-- **The calls of a resolver.**  The names of a template are those in its source, in the order in which they stand
there.  A resolver is asked for exactly these names in this order; if the expansion fails, it has been asked for the
first ones of them.  It may fail, and what it answers may depend on all the calls before, which it finds in the log.  The
template declares these names, each at its first place, and it has them, and its bindings do, and no others.  Resolvers
that agree on them give the same expansion or the same fault. -/
theorem expansion_calls {source : Text} {t : Template} (hparse : Template.parse source = .ok t) :
    (∃ d : Derivation, d.text = source ∧ t.names = d.flatMap Item.names) ∧
    (∀ sources named (resolve : Resolver), Resolver.ofSources sources named = .ok resolve.noting →
      (∀ name, Keeps World.asked (resolve name)) →
        Asks Output.asked t.names (t.expandTo sources named) ∧ Asks World.asked t.names (t.expand sources named)) ∧
    ((∀ name, name ∈ t.declaredNames ↔ name ∈ t.names) ∧
      t.declaredNames.Pairwise fun a b => t.names.idxOf a < t.names.idxOf b) ∧
    (∀ name, (t.mentions name = true ↔ name ∈ t.names) ∧
      ∀ (b : Binding Value), b.template = t → (b.declares name = true ↔ name ∈ t.names)) ∧
    (∀ values (b : Binding Value), Binding.ofValues t values = .ok b → b.template = t) ∧
    (∀ sources named resolve sources' named' resolve', Resolver.ofSources sources named = .ok resolve →
      Resolver.ofSources sources' named' = .ok resolve' → (∀ name ∈ t.declaredNames, resolve name = resolve' name) →
        t.expand sources named = t.expand sources' named') := by
  refine ⟨Template.exists_names hparse, ?_, ⟨t.mem_declaredNames, t.pairwise_declaredNames⟩, ?_,
    fun _ _ h => Binding.template_of_ofValues h, ?_⟩
  · intro sources named resolve hresolve hkeeps
    constructor
    · unfold Template.expandTo
      rw [hresolve]
      exact emitElements_asks hkeeps t.elements
    · rw [Template.expand_of_resolver hresolve]
      exact expandElements_asks hkeeps t.elements
  · intro name
    refine ⟨t.mentions_iff name, ?_⟩
    rintro b rfl
    exact b.template.mentions_iff name
  · intro sources named resolve sources' named' resolve' hresolve hresolve' hagree
    rw [Template.expand_of_resolver hresolve, Template.expand_of_resolver hresolve']
    refine expandElements_congr fun op r hr => ?_
    have hname : r.name ∈ t.declaredNames := (t.mem_declaredNames r.name).2 (Template.name_mem_names hr)
    unfold collectReference
    rw [hagree r.name hname]

/-- A resolver that counts its calls and fails at the second one. -/
theorem expansion_calls_failing :
    let resolve : Resolver := fun name => do
      if (← get).asked.length = 2 then throw (.raised { message := name }) else return .text name
    let t : Template := ⟨"{x,y}{x}", [.expression ⟨"{x,y}", 0, 5⟩ .simple [{ name := "x" }, { name := "y" }],
      .expression ⟨"{x}", 5, 8⟩ .simple [{ name := "x" }]]⟩
    Template.parse ("{x,y}{x}" : Text) = .ok t ∧
      t.expand [.function resolve.noting] [] {} = (.error (.raised { message := "y" }), { asked := ["x", "y"] }) ∧
      Asks World.asked ["x", "y", "x"] (t.expand [.function resolve.noting] []) := by
  intro resolve t
  have hparse : Template.parse ("{x,y}{x}" : Text) = .ok t := rfl
  have hkeeps : ∀ name, Keeps World.asked (resolve name) := by
    intro name
    have hget : Keeps World.asked (get : Act World) := fun _ => rfl
    refine hget.bind fun w => ?_
    split
    · exact fun _ => rfl
    · exact .pure _
  exact ⟨hparse, rfl, ((expansion_calls hparse).2.1 [.function resolve.noting] [] resolve rfl hkeeps).2⟩

end UriTemplate
