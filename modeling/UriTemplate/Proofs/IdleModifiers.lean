import Mathlib.Data.List.Forall2
import UriTemplate.Proofs.Calls
import UriTemplate.Proofs.ExplodedPairs
import UriTemplate.Proofs.Interruption
import UriTemplate.Proofs.Structure

/-!
# Modifiers that make no difference

A limit is meant for single values, and `*` for sequences and mappings.  Where commas stand between the members of a
sequence anyway, `*` makes no difference to it either.

* `Modifier.Idle`, `Resolver.Interchangeable` — a modifier that makes no difference to a value, and references that differ
  in such modifiers only;
* `exists_collectItems_run`, `encoded_flatten` — items that are collected one by one have the leaves of them all, and with
  commas between them they have the same text;
* `Operator.SameText`, `Collect.Alike` — units that make the same text, and collectors that differ in no more than that;
* `Operator.SameText.of_groups` — between commas, one unit for each item and one for all of them;
* `collectValue_alike_bare`, `collectReferences_alike` — references with idle modifiers;
* `idle_modifiers` — a template whose idle modifiers are exchanged.
-/

namespace UriTemplate

/-- What the modifier asks for makes no difference to the value.  A limit makes none to a sequence or mapping, `*` makes
none to a single value, nor to a sequence if its members have commas between them in any case. -/
def Modifier.Idle (op : Operator) : Modifier → Value → Prop
  | .none, _ => True
  | .explode, .mapping _ => False
  | .explode, .sequence .. => op.separator = [(',' : CodePoint)]
  | .explode, _ => True
  | .limit _, .scalar _ => False
  | .limit _, _ => True

/-- Two references to one variable.  If their modifiers are not the same, both are idle for every value that the resolver
gives for it. -/
def Resolver.Interchangeable (resolve : Resolver) (op : Operator) (v v' : VariableSpec) : Prop :=
  v'.name = v.name ∧ (v' = v ∨ ∀ w x w', resolve v.name.text w = (.ok x, w') →
    v.modifier.Idle op x ∧ v'.modifier.Idle op x)

/-- A table has one value for a name. -/
theorem Resolver.Interchangeable.ofTable {named : Table Text Value} {op : Operator} {v v' : VariableSpec}
    (hname : v'.name = v.name) (h : v.modifier.Idle op ((named.get? v.name.text).getD .null))
    (h' : v'.modifier.Idle op ((named.get? v.name.text).getD .null)) :
    (Resolver.ofTable named).Interchangeable op v v' := by
  refine ⟨hname, .inr fun w x w' hx => ?_⟩
  obtain rfl := Except.ok.inj (congrArg Prod.fst hx)
  exact ⟨h, h'⟩

/-! ## items one by one -/

/-- **Items that are collected one by one** are read like the whole sequence, and their units share its leaves. -/
theorem exists_collectItems_run (label : Label) (vs : List Value) (w : World) :
    ∃ (r : Except Fault (List Text)) (groups : List (List Text)) (w' : World),
      Value.readLeavesItems vs w = (r, w') ∧
      (∀ base, collectItems label vs ⟨base, w⟩ = (r.map fun _ => (), ⟨base ++ groups.map (ExpansionUnit.mk label), w'⟩)) ∧
      [] ∉ groups ∧ ∀ leaves, r = .ok leaves → groups.flatten = leaves := by
  induction vs generalizing w with
  | nil =>
    refine ⟨.ok [], [], w, rfl, fun base => ?_, List.not_mem_nil, ?_⟩
    · rw [List.map_nil, List.append_nil]
      rfl
    · rintro leaves ⟨⟩
      rfl
  | cons v vs ih =>
    cases hv : v.readLeaves w with
    | mk r w₁ =>
      cases r with
      | error e =>
        refine ⟨.error e, [], w₁, bind_of_error hv, fun base => ?_, List.not_mem_nil, nofun⟩
        rw [List.map_nil, List.append_nil]
        exact bind_of_error (Collect.perform_run hv)
      | ok leaves =>
        obtain ⟨r, groups, w', hread, hcollect, hne, hflatten⟩ := ih w₁
        have hread' : Value.readLeavesItems (v :: vs) w = (r.map (leaves ++ ·), w') := by
          rw [Value.readLeavesItems, bind_of_ok hv]
          cases r with
          | error e => exact bind_of_error hread
          | ok more => exact bind_of_ok hread
        have hcollect' : ∀ base, collectItems label (v :: vs) ⟨base, w⟩ = ((r.map (leaves ++ ·)).map fun _ => (),
            ⟨base ++ (if leaves = [] then [] else [⟨label, leaves⟩]) ++ groups.map (.mk label), w'⟩) := by
          intro base
          rw [collectItems, bind_of_ok (Collect.perform_run hv), bind_of_ok (Collect.yield_run label leaves), hcollect]
          cases r <;> rfl
        have hflatten' : ∀ all, r.map (leaves ++ ·) = .ok all → leaves ++ groups.flatten = all := by
          intro all hall
          cases r with
          | error e => cases hall
          | ok more =>
            rw [hflatten more rfl]
            exact Except.ok.inj hall
        -- an item without leaves has no unit
        by_cases hleaves : leaves = []
        · refine ⟨_, groups, w', hread', fun base => ?_, hne, fun all hall => ?_⟩
          · rw [hcollect', if_pos hleaves, List.append_nil]
          · rw [← hflatten' all hall, hleaves, List.nil_append]
        · refine ⟨_, leaves :: groups, w', hread', fun base => ?_, fun hmem => ?_, hflatten'⟩
          · rw [hcollect', if_neg hleaves, List.append_assoc]
            rfl
          · obtain hnil | hmem := List.mem_cons.1 hmem
            · exact hleaves hnil.symm
            · exact hne hmem

/-- With commas between them, groups of leaves have the text of all the leaves. -/
theorem encoded_flatten (policy : Policy) {groups : List (List Text)} (h : [] ∉ groups) :
    encoded policy groups.flatten = commaJoined (groups.map fun leaves => (encoded policy leaves).getD []) := by
  induction groups with
  | nil => rfl
  | cons leaves groups ih =>
    obtain ⟨hne, hrest⟩ := not_or.1 (mt List.mem_cons.2 h)
    obtain ⟨text, htext⟩ := exists_encoded _ (Ne.symm hne)
    rw [List.flatten_cons, encoded_append, ih hrest, List.map_cons, htext, ← List.singleton_append, commaJoined_append,
      Option.getD_some, ← Option.toList_some, commaJoined_toList]

/-! ## units that make the same text -/

/-- The units make the same text, wherever they stand in an expression. -/
structure Operator.SameText (op : Operator) (us us' : List ExpansionUnit) : Prop where
  isEmpty : us.isEmpty = us'.isEmpty
  added : ∀ continued, op.added continued (us.map (·.written op)) = op.added continued (us'.map (·.written op))

namespace Operator

variable {op : Operator} {us us' vs vs' : List ExpansionUnit}

theorem SameText.refl (us : List ExpansionUnit) : op.SameText us us := ⟨rfl, fun _ => rfl⟩

theorem SameText.symm (h : op.SameText us us') : op.SameText us' us :=
  ⟨h.isEmpty.symm, fun continued => (h.added continued).symm⟩

theorem SameText.trans (h : op.SameText us us') (h' : op.SameText us' vs) : op.SameText us vs :=
  ⟨h.isEmpty.trans h'.isEmpty, fun continued => (h.added continued).trans (h'.added continued)⟩

theorem SameText.append (h : op.SameText us us') (h' : op.SameText vs vs') : op.SameText (us ++ vs) (us' ++ vs') := by
  constructor
  · have hempty : ∀ ts us : List ExpansionUnit, (ts ++ us).isEmpty = (ts.isEmpty && us.isEmpty) := by
      intro ts us
      cases ts <;> rfl
    rw [hempty, hempty, h.isEmpty, h'.isEmpty]
  · intro continued
    simp only [List.map_append, added_append, List.isEmpty_map, h.added, h.isEmpty, h'.added]

theorem SameText.assemble (h : op.SameText us us') :
    op.assemble (us.map (·.written op)) = op.assemble (us'.map (·.written op)) := h.added false

/-- With commas for separators, it is enough to join the texts. -/
theorem added_of_comma (hcomma : op.separator = [(',' : CodePoint)]) (continued : Bool) (texts : List Text) :
    op.added continued texts =
      ((commaJoined texts).map ((if continued then op.separator else op.first.getD []) ++ ·)).getD [] := by
  cases texts with
  | nil => rfl
  | cons t texts =>
    rw [added, if_neg (List.cons_ne_nil _ _), hcomma]
    rfl

theorem SameText.of_commaJoined (hcomma : op.separator = [(',' : CodePoint)])
    (h : commaJoined (us.map (·.written op)) = commaJoined (us'.map (·.written op))) : op.SameText us us' := by
  constructor
  · cases us <;> cases us' <;> first | rfl | cases h
  · intro continued
    rw [added_of_comma hcomma, added_of_comma hcomma, h]

/-- **Between commas, leaves make the same text in groups and as a whole.** -/
theorem SameText.of_groups (hcomma : op.separator = [(',' : CodePoint)]) {groups : List (List Text)} (h : [] ∉ groups) :
    op.SameText (groups.map (.mk .none)) (if groups.flatten = [] then [] else [⟨.none, groups.flatten⟩]) := by
  have hwritten : ∀ leaves, (ExpansionUnit.mk .none leaves).written op = (encoded op.policy leaves).getD [] :=
    fun leaves => ExpansionUnit.written_of_none _ rfl
  have hgroups : commaJoined ((groups.map (ExpansionUnit.mk .none)).map (·.written op)) =
      encoded op.policy groups.flatten := by
    rw [encoded_flatten op.policy h, List.map_map]
    exact congrArg _ (List.map_congr_left fun leaves _ => hwritten leaves)
  refine .of_commaJoined hcomma ?_
  rw [hgroups]
  by_cases hleaves : groups.flatten = []
  · rw [if_pos hleaves, hleaves]
    rfl
  · obtain ⟨text, htext⟩ := exists_encoded _ hleaves
    rw [if_neg hleaves, List.map_singleton, hwritten, htext]
    exact (commaJoined_toList (some text)).symm

end Operator

/-! ## collectors that make the same text -/

/-- The collectors do the same, and what they have yielded in the end makes the same text. -/
def Collect.Alike (op : Operator) (m m' : Collect Unit) : Prop :=
  ∀ w, ∃ (r : Except Fault Unit) (us us' : List ExpansionUnit) (w' : World),
    (∀ base, m ⟨base, w⟩ = (r, ⟨base ++ us, w'⟩)) ∧ (∀ base, m' ⟨base, w⟩ = (r, ⟨base ++ us', w'⟩)) ∧
      (r = .ok () → op.SameText us us')

namespace Collect.Alike

variable {op : Operator} {m m' m'' n n' : Collect Unit}

theorem refl (h : Appends m) : Alike op m m := by
  intro w
  obtain ⟨r, us, w', hrun⟩ := h w
  exact ⟨r, us, us, w', hrun, hrun, fun _ => .refl us⟩

theorem symm (h : Alike op m m') : Alike op m' m := by
  intro w
  obtain ⟨r, us, us', w', hm, hm', hsame⟩ := h w
  exact ⟨r, us', us, w', hm', hm, fun hr => (hsame hr).symm⟩

theorem trans (h : Alike op m m') (h' : Alike op m' m'') : Alike op m m'' := by
  intro w
  obtain ⟨r, us, us', w', hm, hm', hsame⟩ := h w
  obtain ⟨r₁, us₁, us'', w₁, hm₁, hm'', hsame'⟩ := h' w
  have hrun := (hm' []).symm.trans (hm₁ [])
  rw [List.nil_append, List.nil_append] at hrun
  cases hrun
  exact ⟨r, us, us'', w', hm, hm'', fun hr => (hsame hr).trans (hsame' hr)⟩

/-- The action is the same; its results are all that has to be looked at. -/
theorem perform {α : Type} (a : Act α) {f f' : α → Collect Unit}
    (h : ∀ w x w', a w = (.ok x, w') → Alike op (f x) (f' x)) :
    Alike op (Collect.perform a >>= f) (Collect.perform a >>= f') := by
  intro w
  cases ha : a w with
  | mk r w₁ =>
    have hperform : ∀ base, Collect.perform a ⟨base, w⟩ = (r, ⟨base, w₁⟩) := fun base => perform_run ha
    cases r with
    | error e =>
      refine ⟨.error e, [], [], w₁, fun base => ?_, fun base => ?_, nofun⟩
      · rw [bind_of_error (hperform base), List.append_nil]
      · rw [bind_of_error (hperform base), List.append_nil]
    | ok x =>
      obtain ⟨r, us, us', w', hf, hf', hsame⟩ := h w x w₁ ha w₁
      refine ⟨r, us, us', w', fun base => ?_, fun base => ?_, hsame⟩
      · rw [bind_of_ok (hperform base), hf]
      · rw [bind_of_ok (hperform base), hf']

theorem seq (hm : Alike op m m') (hn : Alike op n n') : Alike op (m >>= fun _ => n) (m' >>= fun _ => n') := by
  intro w
  obtain ⟨r, us, us', w₁, hrun, hrun', hsame⟩ := hm w
  cases r with
  | error e =>
    -- the units before the fault need not make the same text
    exact ⟨.error e, us, us', w₁, fun base => bind_of_error (hrun base), fun base => bind_of_error (hrun' base), nofun⟩
  | ok =>
    obtain ⟨r, more, more', w₂, hnext, hnext', hsame'⟩ := hn w₁
    refine ⟨r, us ++ more, us' ++ more', w₂, fun base => ?_, fun base => ?_, fun hr => (hsame rfl).append (hsame' hr)⟩
    · rw [bind_of_ok (hrun base), hnext, List.append_assoc]
    · rw [bind_of_ok (hrun' base), hnext', List.append_assoc]

end Collect.Alike

/-! ## references with idle modifiers -/

section

variable {op : Operator}

/-- Items that are collected one by one, and the sequence as a whole. -/
theorem collectItems_alike (hcomma : op.separator = [(',' : CodePoint)]) (vs : List Value) :
    Collect.Alike op (collectItems .none vs) (Collect.perform (Value.readLeavesItems vs) >>= Collect.yield .none) := by
  intro w
  obtain ⟨r, groups, w', hread, hcollect, hne, hflatten⟩ := exists_collectItems_run .none vs w
  have hperform : ∀ base, Collect.perform (Value.readLeavesItems vs) ⟨base, w⟩ = (r, ⟨base, w'⟩) :=
    fun base => Collect.perform_run hread
  cases r with
  | error e =>
    refine ⟨.error e, _, [], w', hcollect, fun base => ?_, nofun⟩
    rw [bind_of_error (hperform base), List.append_nil]
  | ok leaves =>
    obtain rfl := hflatten leaves rfl
    refine ⟨.ok (), _, _, w', hcollect, fun base => ?_, fun _ => .of_groups hcomma hne⟩
    rw [bind_of_ok (hperform base), Collect.yield_run]

variable (hop : op ∈ Operator.all)
include hop

/-- **An idle modifier might as well be missing.** -/
theorem collectValue_alike_bare (v : VariableSpec) {x : Value} (h : v.modifier.Idle op x) :
    Collect.Alike op (collectValue op v.reference x) (collectValue op { name := v.name.text } x) := by
  obtain ⟨name, modifier⟩ := v
  have hrefl : Collect.Alike op _ _ := .refl (collectValue_appends op { name := name.text } x)
  cases modifier with
  | none => exact hrefl
  | limit l =>
    cases x with
    | null => exact hrefl
    | scalar s => exact h.elim
    | sequence kind vs => exact hrefl
    | mapping es => exact hrefl
  | explode =>
    cases x with
    | null => exact hrefl
    | scalar s => exact hrefl
    | mapping es => exact h.elim
    | sequence kind vs =>
      have hnamed : ∀ op ∈ Operator.all, op.separator = [(',' : CodePoint)] → op.named = false := by decide
      have hlabel : op.labelOf name.text = .none := by rw [Operator.labelOf, hnamed op hop h]; rfl
      show Collect.Alike op (Collect.perform (kind.read vs) >>= collectItems (op.labelOf name.text))
        (Collect.perform (Value.sequence kind vs).readLeaves >>= Collect.yield (op.labelOf name.text))
      rw [hlabel, readLeaves_sequence, Collect.perform_bind, bind_assoc]
      exact .perform _ fun _ items _ _ => collectItems_alike h items

/-- References that differ in idle modifiers only. -/
theorem collectReferences_alike {resolve : Resolver} {vs vs' : List VariableSpec}
    (h : List.Forall₂ (resolve.Interchangeable op) vs vs') :
    Collect.Alike op (collectReferences resolve op (vs.map VariableSpec.reference))
      (collectReferences resolve op (vs'.map VariableSpec.reference)) := by
  induction h with
  | nil => exact .refl (.pure ())
  | @cons v v' vs vs' hv _ ih =>
    obtain ⟨hname, rfl | hidle⟩ := hv
    · exact .seq (.refl (collectReference_appends resolve op v'.reference)) ih
    · refine .seq ?_ ih
      rw [collectReference, collectReference, v.name_reference, v'.name_reference, hname]
      refine .perform _ fun w x w' hx => ?_
      obtain ⟨hv, hv'⟩ := hidle w x w' hx
      have hbare := collectValue_alike_bare hop v' hv'
      rw [hname] at hbare
      exact (collectValue_alike_bare hop v hv).trans hbare.symm

end

/-! ## templates -/

/-- What is alike expands to the same text. -/
theorem expandElements_alike {resolve : Resolver} {op : Operator} {rs rs' : List VariableReference}
    (h : Collect.Alike op (collectReferences resolve op rs) (collectReferences resolve op rs')) (s s' : Span) :
    expandElements resolve [.expression s op rs] = expandElements resolve [.expression s' op rs'] := by
  funext w
  obtain ⟨r, us, us', w', hrun, hrun', hsame⟩ := h w
  rw [expandElements_expression, expandElements_expression, hrun, hrun']
  cases r with
  | error e => rfl
  | ok => simp only [List.nil_append, (hsame rfl).assemble]

/-- Derivations one behind the other expand one after the other. -/
theorem Derivation.expandElements_append (resolve : Resolver) (d d' : Derivation) :
    expandElements resolve (elements (d ++ d')) = do
      return (← expandElements resolve d.elements) ++ (← expandElements resolve d'.elements) := by
  rw [elements, elementsFrom_append, elementsFrom_add, expandElements_concatElements,
    UriTemplate.expandElements_append]
  rfl

/-- **Idle modifiers may be put in and left out.**  Two expressions have the same operator and the same variables, and where
their modifiers are not the same, both are idle for every value that the resolver gives for the variable.  Templates that
differ in nothing but these expressions have the same expansions: the same text or the same fault, and the same world
behind it. -/
theorem idle_modifiers {op : Operator} (hop : op ∈ Operator.all) {resolve : Resolver} {x x' : VariableSpec}
    {xs xs' : List VariableSpec} (h : List.Forall₂ (resolve.Interchangeable op) (x :: xs) (x' :: xs'))
    (before after : Derivation) :
    ∃ t t' : Template, Template.parse (before.text ++ op.braced (x.listed xs) ++ after.text) = .ok t ∧
      Template.parse (before.text ++ op.braced (x'.listed xs') ++ after.text) = .ok t' ∧
      ∀ sources named, Resolver.ofSources sources named = .ok resolve →
        t.expand sources named = t'.expand sources named := by
  have hparse : ∀ e : ExpressionSpec, Template.parse (before.text ++ e.text ++ after.text) =
      .ok ⟨before.text ++ e.text ++ after.text, Derivation.elements (before ++ [.expression e] ++ after)⟩ := by
    intro e
    have h := Derivation.parse_text (before ++ [.expression e] ++ after)
    rwa [Derivation.text_append, Derivation.text_append, Derivation.text_cons, Derivation.text_nil, List.append_nil] at h
  let e : ExpressionSpec := ⟨op, hop, x, xs⟩
  let e' : ExpressionSpec := ⟨op, hop, x', xs'⟩
  have hexpand : expandElements resolve (Derivation.elements [.expression e]) =
      expandElements resolve (Derivation.elements [.expression e']) :=
    expandElements_alike (collectReferences_alike hop h) _ _
  refine ⟨_, _, hparse e, hparse e', fun sources named hresolve => ?_⟩
  rw [Template.expand_of_resolver hresolve, Template.expand_of_resolver hresolve]
  simp only [Derivation.expandElements_append, hexpand]

/-- A list with nothing in two of its places, a mapping and a single value. -/
theorem idle_modifiers_nested_list :
    let named : Table Text Value := [("l", .list [.null, .list [.text "1", .list []], .list [.null], .text "2"]),
      ("m", .mapping [(.text "k", .text "v")]), ("s", .text "3")]
    ∃ t t' : Template, Template.parse ("a{+l*,m:3,s*}b" : Text) = .ok t ∧ Template.parse ("a{+l,m,s}b" : Text) = .ok t' ∧
      t.expand [] named {} = (.ok "a1,2,k,v,3b", {}) ∧ t'.expand [] named {} = (.ok "a1,2,k,v,3b", {}) := by
  intro named
  let l : Name := ⟨.char 'l' rfl, []⟩
  let m : Name := ⟨.char 'm' rfl, []⟩
  let s : Name := ⟨.char 's' rfl, []⟩
  have hl : (Resolver.ofTable named).Interchangeable .reserved ⟨l, .explode⟩ ⟨l, .none⟩ := .ofTable rfl rfl trivial
  have hm : (Resolver.ofTable named).Interchangeable .reserved ⟨m, .limit (.ofNat 3 (by decide) (by decide))⟩ ⟨m, .none⟩ :=
    .ofTable rfl trivial trivial
  have hs : (Resolver.ofTable named).Interchangeable .reserved ⟨s, .explode⟩ ⟨s, .none⟩ := .ofTable rfl trivial trivial
  obtain ⟨t, t', ht, ht', hexpand⟩ := idle_modifiers (by decide) (.cons hl (.cons hm (.cons hs .nil)))
    [.char 'a' rfl (by decide) (by decide)] [.char 'b' rfl (by decide) (by decide)]
  have htext : t'.expand [] named {} = (.ok "a1,2,k,v,3b", {}) := by
    obtain rfl := Except.ok.inj ht'
    rfl
  exact ⟨t, t', ht, ht', by rw [hexpand [] named rfl, htext], htext⟩

end UriTemplate
