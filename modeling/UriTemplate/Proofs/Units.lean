import UriTemplate.Proofs.Actions
import UriTemplate.Proofs.Leaves

/-!
# Units

An expression writes units: the leaves of a value, of a member or of a pair, some with a label.  What it writes is known
from the units alone.

* `Label`, `ExpansionUnit`, `ExpansionUnit.written` — a unit and its text;
* `Operator.assemble` — the texts of units behind the operator's first character, with its separator between them;
* `Yield`, `Collect`, `collectReference`, `collectReferences` — an expression that gives units instead of text;
* `Writes` — an emitter writes what a collector yields; `emitReferences_eq`, `emitElement_expression` — expressions do;
* `expandElements_congr` — an expansion depends on no more than what the references yield;
* `Resolver.Related`, `collectReference_of_related` — resolvers that give related values.
-/

namespace UriTemplate

/-- What stands before the value of a unit: nothing, the name of the variable as it is written, or the leaves of a
key. -/
inductive Label
  | none
  | name (n : Text)
  | key (leaves : List Text)
deriving DecidableEq

/-- A unit of an expression, before it is encoded. -/
structure ExpansionUnit where
  label : Label
  leaves : List Text
deriving DecidableEq

namespace Operator

variable (op : Operator)

/-- The label of a unit that is not labelled by a key. -/
def labelOf (name : Text) : Label := if op.named then .name name else .none

/-- The serialized text of leaves. -/
def valueText (leaves : List Text) : Text := (encoded op.policy leaves).getD []

/-- The text of a label, if there is one. -/
def labelText? : Label → Option Text
  | .none => .none
  | .name n => some n
  | .key leaves => some (op.valueText leaves)

/-- The equals sign behind a label. -/
def equalsSign (value : Text) : Text := if op.emptyEquals || value ≠ [] then "=" else []

theorem eq_of_mem_equalsSign {value : Text} {c : CodePoint} (h : c ∈ op.equalsSign value) : c = '=' := by
  unfold equalsSign at h
  split at h
  · exact List.mem_singleton.1 h
  · cases h

/-- Texts in front of which the operator has been written, and between which its separator stands. -/
def assemble (texts : List Text) : Text :=
  if texts = [] then [] else op.first.getD [] ++ Text.join op.separator texts

@[simp] theorem assemble_nil : op.assemble [] = [] := rfl

theorem assemble_append_singleton (texts : List Text) (t : Text) :
    op.assemble (texts ++ [t]) =
      op.assemble texts ++ ((if texts = [] then op.first.getD [] else op.separator) ++ t) := by
  by_cases h : texts = []
  · subst h
    simp [assemble]
  · rw [assemble, if_neg (by simp), assemble, if_neg h, if_neg h, Text.join_append h (by simp), Text.join_singleton,
      List.append_assoc, List.append_assoc]

end Operator

namespace ExpansionUnit

variable (u : ExpansionUnit) {op : Operator}

/-- The text of a unit. -/
def written (op : Operator) : Text :=
  match op.labelText? u.label with
  | none => op.valueText u.leaves
  | some label => label ++ op.equalsSign (op.valueText u.leaves) ++ op.valueText u.leaves

theorem written_of_none (h : op.labelText? u.label = none) : u.written op = op.valueText u.leaves := by
  rw [written, h]

theorem written_of_some {label : Text} (h : op.labelText? u.label = some label) :
    u.written op = label ++ op.equalsSign (op.valueText u.leaves) ++ op.valueText u.leaves := by
  rw [written, h]

end ExpansionUnit

/-! ## collecting units -/

/-- What an expression has yielded so far, and the world. -/
structure Yield where
  units : List ExpansionUnit := []
  world : World := {}

/-- An action that yields units. -/
abbrev Collect (α : Type) := ExceptT Fault (StateM Yield) α

namespace Collect

/-- Yields a unit, unless there are no leaves. -/
def yield (label : Label) (leaves : List Text) : Collect Unit :=
  if leaves = [] then return else modify fun y => { y with units := y.units ++ [⟨label, leaves⟩] }

/-- An action that yields nothing. -/
def perform {α : Type} (a : Act α) : Collect α := fun y =>
  let (result, world) := a y.world
  (result, { y with world })

variable {α β : Type} {y : Yield}

theorem yield_run (label : Label) (leaves : List Text) :
    yield label leaves y =
      (.ok (), { y with units := y.units ++ if leaves = [] then [] else [⟨label, leaves⟩] }) := by
  unfold yield
  by_cases h : leaves = []
  · rw [if_pos h, if_pos h, List.append_nil]
    rfl
  · rw [if_neg h, if_neg h]
    rfl

theorem perform_run {a : Act α} {r : Except Fault α} {w : World} (h : a y.world = (r, w)) :
    perform a y = (r, { y with world := w }) := by
  unfold perform
  rw [h]

theorem perform_pure_run (x : α) : perform (pure x) y = (.ok x, y) := rfl

theorem perform_bind (a : Act α) (f : α → Act β) : perform (a >>= f) = perform a >>= fun x => perform (f x) := by
  funext y
  cases ha : a y.world with
  | mk r w =>
    cases r with
    | error e => rw [bind_of_error (perform_run ha), perform_run (bind_of_error ha)]
    | ok x =>
      rw [bind_of_ok (perform_run ha), perform, bind_of_ok ha]
      rfl

end Collect

/-- One unit for every item with leaves. -/
def collectItems (label : Label) : List Value → Collect Unit
  | [] => return
  | v :: vs => do
    Collect.yield label (← Collect.perform v.readLeaves)
    collectItems label vs

/-- One unit for every pair whose value has leaves. -/
def collectPairs : List (Value × Value) → Collect Unit
  | [] => return
  | (key, v) :: pairs => do
    let leaves ← Collect.perform v.readLeaves
    if leaves ≠ [] then Collect.yield (.key (← Collect.perform key.readLeaves)) leaves
    collectPairs pairs

/-- The units of a reference to a value: those of its members if they are written one by one, else one for all of its
leaves. -/
def collectValue (op : Operator) (r : VariableReference) : Value → Collect Unit
  | .null => return
  | .scalar s => do
    let text ← Collect.perform (Act.ofExcept s.toText)
    Collect.yield (op.labelOf r.name) [limitTo r.limit text]
  | .sequence kind items => do
    if r.explode then collectItems (op.labelOf r.name) (← Collect.perform (kind.read items))
    else Collect.yield (op.labelOf r.name) (← Collect.perform (Value.sequence kind items).readLeaves)
  | .mapping entries => do
    if r.explode then collectPairs entries
    else Collect.yield (op.labelOf r.name) (← Collect.perform (Value.mapping entries).readLeaves)

def collectReference (resolve : Resolver) (op : Operator) (r : VariableReference) : Collect Unit := do
  collectValue op r (← Collect.perform (resolve r.name))

def collectReferences (resolve : Resolver) (op : Operator) : List VariableReference → Collect Unit
  | [] => return
  | r :: rs => do
    collectReference resolve op r
    collectReferences resolve op rs

/-! ## emitting what is collected -/

namespace Yield

/-- Whether a unit has been yielded. -/
def continued (y : Yield) : Bool := !y.units.isEmpty

/-- The output of an expression that has yielded these units; `base` is what was written before it. -/
def output (op : Operator) (base : Text) (y : Yield) : Output :=
  .ofSink (base ++ op.assemble (y.units.map (·.written op))) y.world

end Yield

/-- **The emitter writes what the collector yields**, up to a fault too, and answers whether there is a unit. -/
def Writes (op : Operator) (emit : Bool → Emit Bool) (collect : Collect Unit) : Prop :=
  ∀ (base : Text) (y : Yield),
    emit y.continued (y.output op base) =
      ((collect y).1.map fun _ => (collect y).2.continued, (collect y).2.output op base)

theorem Output.write_write (o : Output) (t u : Text) : (o.write t).write u = o.write (t ++ u) := by
  simp [Output.write]

theorem Output.write_ofSink (sink t : Text) (w : World) : (Output.ofSink sink w).write t = .ofSink (sink ++ t) w := by
  simp [Output.write, Output.ofSink]

theorem emitUnit_run (op : Operator) (continued named : Bool) (name text : Text) (o : Output) :
    emitUnit op continued named name text o =
      (.ok (), o.write ((if continued then op.separator else op.first.getD []) ++
        ((if named then name ++ op.equalsSign text else []) ++ text))) := by
  unfold emitUnit Operator.equalsSign
  cases named with
  | false =>
    rw [← Output.write_write]
    cases continued <;> rfl
  | true =>
    simp only [reduceIte, ← Output.write_write]
    cases continued <;> cases op.emptyEquals || text ≠ [] <;> rfl

namespace Yield

variable (op : Operator) (base : Text) (y : Yield)

theorem perform_output {α : Type} {a : Act α} {r : Except Fault α} {w : World} (h : a y.world = (r, w)) :
    Emit.perform a (y.output op base) = (r, Yield.output op base { y with world := w }) :=
  Emit.perform_run h

/-- One more unit. -/
theorem output_append (u : ExpansionUnit) :
    Yield.output op base { y with units := y.units ++ [u] } =
      (y.output op base).write ((if y.continued then op.separator else op.first.getD []) ++ u.written op) := by
  have hfirst : (if y.units.map (·.written op) = [] then op.first.getD [] else op.separator) =
      if y.continued then op.separator else op.first.getD [] := by
    cases h : y.units <;> simp [continued, h]
  rw [output, List.map_append, List.map_singleton, Operator.assemble_append_singleton, hfirst]
  simp [output, Output.ofSink, Output.write]

end Yield

theorem readLeaves_sequence (kind : SequenceKind) (vs : List Value) :
    (Value.sequence kind vs).readLeaves = kind.read vs >>= Value.readLeavesItems := by
  cases kind with
  | stream id =>
    show (Act.drain id >>= fun b => if b then Value.readLeavesItems vs else pure []) =
      (Act.drain id >>= fun b => if b then pure vs else pure []) >>= Value.readLeavesItems
    rw [bind_assoc]
    congr 1
    funext b
    cases b <;> rfl
  | list => rfl
  | tuple => rfl
  | set => rfl
  | range => rfl

/-- Writes a classified value as one unit. -/
def emitOne (op : Operator) (r : VariableReference) (continued : Bool) (v : Classified) : Emit Bool := do
  match ← Emit.perform (serializeClassified op.policy r.limit v) with
  | none => return continued
  | some text =>
    emitUnit op continued op.named r.name text
    return true

/-- What `emitReference` does with a classified value. -/
def emitClassified (op : Operator) (r : VariableReference) (continued : Bool) (v : Classified) : Emit Bool :=
  match v, r.explode with
  | .mapping pairs, true => emitPairs op continued pairs
  | .sequence items, true => emitItems op r.name continued items
  | v, _ => emitOne op r continued v

theorem emitReference_eq (resolve : Resolver) (op : Operator) (continued : Bool) (r : VariableReference) :
    emitReference resolve op continued r =
      Emit.perform (resolve r.name) >>= fun v => Emit.perform (classify v) >>= emitClassified op r continued := by
  rw [emitReference, Emit.perform_bind, bind_assoc]
  rfl

theorem emitClassified_of_not_explode {op : Operator} {r : VariableReference} (h : r.explode = false) (continued : Bool)
    (v : Classified) : emitClassified op r continued v = emitOne op r continued v := by
  unfold emitClassified
  rw [h]
  cases v <;> rfl

theorem emitClassified_ofItems {op : Operator} {r : VariableReference} (h : r.explode = true) (continued : Bool)
    (vs : List Value) :
    emitClassified op r continued (.ofItems vs) = emitItems op r.name continued (vs.filter (!·.isNull)) := by
  unfold Classified.ofItems emitClassified
  rw [h]
  cases vs.filter (!·.isNull) <;> rfl

theorem emitClassified_ofPairs {op : Operator} {r : VariableReference} (h : r.explode = true) (continued : Bool)
    (es : List (Value × Value)) :
    emitClassified op r continued (.ofPairs es) = emitPairs op continued (es.filter (!·.2.isNull)) := by
  unfold Classified.ofPairs emitClassified
  rw [h]
  cases es.filter (!·.2.isNull) <;> rfl

theorem collectItems_filter (label : Label) (vs : List Value) :
    collectItems label (vs.filter (!·.isNull)) = collectItems label vs := by
  induction vs with
  | nil => rfl
  | cons v vs ih =>
    cases h : v.isNull with
    | true =>
      rw [List.filter_cons_of_neg (by simp [h]), ih, collectItems, Value.readLeaves_of_isNull h]
      rfl
    | false => rw [List.filter_cons_of_pos (by simp [h]), collectItems, collectItems, ih]

theorem collectPairs_filter (es : List (Value × Value)) :
    collectPairs (es.filter (!·.2.isNull)) = collectPairs es := by
  induction es with
  | nil => rfl
  | cons e es ih =>
    obtain ⟨key, v⟩ := e
    cases h : v.isNull with
    | true =>
      rw [List.filter_cons_of_neg (by simp [h]), ih, collectPairs, Value.readLeaves_of_isNull h]
      rfl
    | false => rw [List.filter_cons_of_pos (by simp [h]), collectPairs, collectPairs, ih]

namespace Writes

variable {op : Operator}

theorem pure : Writes op (fun c => Pure.pure c) (Pure.pure ()) := fun _ _ => rfl

/-- Both perform the same action first. -/
theorem perform {α : Type} (a : Act α) {emit : α → Bool → Emit Bool} {collect : α → Collect Unit}
    (h : ∀ x, Writes op (emit x) (collect x)) :
    Writes op (fun c => Emit.perform a >>= fun x => emit x c) (Collect.perform a >>= collect) := by
  intro base y
  show (Emit.perform a >>= fun x => emit x y.continued) (y.output op base) = _
  cases ha : a y.world with
  | mk r w =>
    cases r with
    | error e =>
      rw [bind_of_error (y.perform_output op base ha), bind_of_error (Collect.perform_run ha)]
      rfl
    | ok x =>
      rw [bind_of_ok (y.perform_output op base ha), bind_of_ok (Collect.perform_run ha)]
      exact h x base { y with world := w }

/-- The emitter writes a unit that the collector yields. -/
theorem unit {label : Label} {leaves : List Text} (hne : leaves ≠ []) {named : Bool} {name text : Text}
    (hlabel : op.labelText? label = if named then some name else none) (htext : encoded op.policy leaves = some text)
    {emit : Bool → Emit Bool} {collect : Collect Unit} (h : Writes op emit collect) :
    Writes op (fun c => emitUnit op c named name text >>= fun _ => emit true)
      (Collect.yield label leaves >>= fun _ => collect) := by
  intro base y
  have hwritten : (if named then name ++ op.equalsSign text else []) ++ text =
      (ExpansionUnit.mk label leaves).written op := by
    have hvalue : op.valueText leaves = text := by rw [Operator.valueText, htext, Option.getD_some]
    rw [ExpansionUnit.written, hlabel, hvalue]
    cases named <;> rfl
  have hyield : Collect.yield label leaves y = (.ok (), { y with units := y.units ++ [⟨label, leaves⟩] }) := by
    rw [Collect.yield_run, if_neg hne]
  show (emitUnit op y.continued named name text >>= fun _ => emit true) (y.output op base) = _
  rw [bind_of_ok (emitUnit_run op _ named name text _), hwritten, ← Yield.output_append, bind_of_ok hyield]
  have hcontinued : (Yield.mk (y.units ++ [⟨label, leaves⟩]) y.world).continued = true := by simp [Yield.continued]
  have := h base ⟨y.units ++ [⟨label, leaves⟩], y.world⟩
  rwa [hcontinued] at this

/-- Leaves that are read and encoded by the emitter, and read by the collector. -/
theorem encoded {a : Act (List Text)} {emit : Option Text → Bool → Emit Bool} {collect : List Text → Collect Unit}
    (h : ∀ leaves, Writes op (emit (UriTemplate.encoded op.policy leaves)) (collect leaves)) :
    Writes op (fun c => Emit.perform (UriTemplate.encoded op.policy <$> a) >>= fun text => emit text c)
      (Collect.perform a >>= collect) := by
  have hmap : ∀ c, (Emit.perform (UriTemplate.encoded op.policy <$> a) >>= fun text => emit text c) =
      Emit.perform a >>= fun leaves => emit (UriTemplate.encoded op.policy leaves) c := by
    intro c
    rw [Emit.perform_map, map_eq_pure_bind, bind_assoc]
    rfl
  simp only [hmap]
  exact perform a h

theorem items (label : Label) (name : Text) (hlabel : op.labelOf name = label) (vs : List Value) :
    Writes op (fun c => emitItems op name c vs) (collectItems label vs) := by
  induction vs with
  | nil => exact pure
  | cons v vs ih =>
    simp only [emitItems, collectItems, serialize_eq]
    refine encoded fun leaves => ?_
    by_cases h : leaves = []
    · subst h
      exact ih
    · obtain ⟨text, htext⟩ := exists_encoded _ h
      rw [htext]
      refine unit h ?_ htext ih
      rw [← hlabel, Operator.labelOf]
      cases op.named <;> rfl

theorem pairs (es : List (Value × Value)) : Writes op (fun c => emitPairs op c es) (collectPairs es) := by
  induction es with
  | nil => exact pure
  | cons e es ih =>
    obtain ⟨key, v⟩ := e
    simp only [emitPairs, collectPairs, serialize_eq]
    refine encoded fun leaves => ?_
    by_cases h : leaves = []
    · subst h
      exact ih
    · obtain ⟨text, htext⟩ := exists_encoded _ h
      rw [htext, if_pos h]
      -- only now is the key read, on both sides
      exact encoded fun key => unit h rfl htext ih

/-- One unit for a classified value. -/
theorem one (r : VariableReference) (v : Classified) :
    Writes op (fun c => emitOne op r c v) (Collect.perform (v.readLeaves r.limit) >>= Collect.yield (op.labelOf r.name)) := by
  simp only [emitOne, serializeClassified_eq]
  refine encoded fun leaves => ?_
  by_cases h : leaves = []
  · subst h
    exact pure
  · obtain ⟨text, htext⟩ := exists_encoded _ h
    rw [htext, ← bind_pure (Collect.yield _ _)]
    refine unit h ?_ htext pure
    rw [Operator.labelOf]
    cases op.named <;> rfl

theorem value (r : VariableReference) (v : Value) :
    Writes op (fun c => Emit.perform (classify v) >>= emitClassified op r c) (collectValue op r v) := by
  cases v with
  | null => exact pure
  | scalar s =>
    simp only [classify, collectValue, Emit.perform_bind, bind_assoc, Emit.perform_pure, pure_bind]
    exact perform _ fun text => one r (.scalar text)
  | sequence kind vs =>
    simp only [classify, collectValue, Emit.perform_bind, bind_assoc, Emit.perform_pure, pure_bind]
    cases hexplode : r.explode with
    | true =>
      refine perform _ fun vs => ?_
      simp only [emitClassified_ofItems hexplode]
      rw [← collectItems_filter]
      exact items _ _ rfl _
    | false =>
      simp only [readLeaves_sequence, Collect.perform_bind, bind_assoc]
      refine perform _ fun vs => ?_
      simp only [emitClassified_of_not_explode hexplode]
      rw [← readLeaves_ofItems r.limit]
      exact one r _
  | mapping es =>
    simp only [classify, collectValue, Emit.perform_pure, pure_bind]
    cases hexplode : r.explode with
    | true =>
      simp only [emitClassified_ofPairs hexplode]
      rw [if_pos trivial, ← collectPairs_filter]
      exact pairs _
    | false =>
      simp only [emitClassified_of_not_explode hexplode]
      have h : (Value.mapping es).readLeaves = (Classified.ofPairs es).readLeaves r.limit := (readLeaves_ofPairs _ es).symm
      rw [h]
      exact one r _

theorem reference (resolve : Resolver) (r : VariableReference) :
    Writes op (fun c => emitReference resolve op c r) (collectReference resolve op r) := by
  simp only [emitReference_eq, collectReference]
  exact perform _ fun v => value r v

end Writes

/-- **References write the units that they yield.** -/
theorem emitReferences_eq (resolve : Resolver) (op : Operator) (rs : List VariableReference) (base : Text) (y : Yield) :
    emitReferences resolve op y.continued rs (y.output op base) =
      ((collectReferences resolve op rs y).1, (collectReferences resolve op rs y).2.output op base) := by
  induction rs generalizing y with
  | nil => rfl
  | cons r rs ih =>
    have hr := (Writes.reference resolve r : Writes op _ _) base y
    rw [emitReferences, collectReferences]
    cases hc : collectReference resolve op r y with
    | mk result y' =>
      rw [hc] at hr
      cases result with
      | error e => rw [bind_of_error hr, bind_of_error hc]
      | ok => rw [bind_of_ok hr, bind_of_ok hc, ih]

/-- **An expression writes its units**, with the operator in front of them and the separator between them. -/
theorem emitElement_expression (resolve : Resolver) (s : Span) (op : Operator) (rs : List VariableReference) (base : Text)
    (w : World) :
    emitElement resolve (.expression s op rs) (.ofSink base w) =
      ((collectReferences resolve op rs { world := w }).1,
        (collectReferences resolve op rs { world := w }).2.output op base) := by
  have h := emitReferences_eq resolve op rs base { world := w }
  rwa [Yield.output, List.map_nil, Operator.assemble_nil, List.append_nil] at h

/-! ## resolvers whose references yield the same -/

theorem Output.ofSink_sink (o : Output) : Output.ofSink o.sink o.world = o := by
  simp [Output.ofSink, Output.sink]

section

variable {resolve resolve' : Resolver}

theorem collectReferences_congr {op : Operator} {rs : List VariableReference}
    (h : ∀ r ∈ rs, collectReference resolve op r = collectReference resolve' op r) :
    collectReferences resolve op rs = collectReferences resolve' op rs := by
  induction rs with
  | nil => rfl
  | cons r rs ih =>
    have hrest := ih fun q hq => h q (List.mem_cons_of_mem _ hq)
    rw [collectReferences, collectReferences, h r (by simp), hrest]

theorem emitElement_congr {e : Element}
    (h : ∀ op, ∀ r ∈ e.references, collectReference resolve op r = collectReference resolve' op r) :
    emitElement resolve e = emitElement resolve' e := by
  cases e with
  | literal s => rfl
  | bare s => rfl
  | expression s op rs =>
    have hrs : collectReferences resolve op rs = collectReferences resolve' op rs := collectReferences_congr (h op)
    funext o
    rw [← o.ofSink_sink, emitElement_expression, emitElement_expression, hrs]

/-- **Only what the references yield makes a difference**, to what is written and to a fault. -/
theorem expandElements_congr {es : List Element}
    (h : ∀ op, ∀ r ∈ es.flatMap Element.references, collectReference resolve op r = collectReference resolve' op r) :
    expandElements resolve es = expandElements resolve' es := by
  have hemit : emitElements resolve es = emitElements resolve' es := by
    induction es with
    | nil => rfl
    | cons e es ih =>
      have he := emitElement_congr fun op r hr => h op r (List.mem_append_left _ hr)
      have hes := ih fun op r hr => h op r (List.mem_append_right _ hr)
      rw [emitElements, emitElements, he, hes]
  unfold expandElements
  rw [hemit]

/-- The resolvers give related values.  Both fail alike, and leave the same world behind. -/
def Resolver.Related (R : Value → Value → Prop) (resolve resolve' : Resolver) : Prop :=
  ∀ name w, (∃ e w', resolve name w = (.error e, w') ∧ resolve' name w = (.error e, w')) ∨
    ∃ v v' w', resolve name w = (.ok v, w') ∧ resolve' name w = (.ok v', w') ∧ R v v'

theorem collectReference_of_related {R : Value → Value → Prop} {op : Operator} {r : VariableReference}
    (h : Resolver.Related R resolve resolve') (hvalue : ∀ v v', R v v' → collectValue op r v = collectValue op r v') :
    collectReference resolve op r = collectReference resolve' op r := by
  funext y
  unfold collectReference
  rcases h r.name y.world with ⟨e, w', he, he'⟩ | ⟨v, v', w', hv, hv', hrelated⟩
  · rw [bind_of_error (Collect.perform_run he), bind_of_error (Collect.perform_run he')]
  · rw [bind_of_ok (Collect.perform_run hv), bind_of_ok (Collect.perform_run hv'), hvalue v v' hrelated]

end

end UriTemplate
