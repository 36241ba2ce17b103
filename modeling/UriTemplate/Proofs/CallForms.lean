import UriTemplate.Binding
import UriTemplate.Proofs.Conversion
import UriTemplate.Proofs.Tables

/-!
# The forms of a call

A template may be given its values in many ways: as a mapping, by name, by a function or a document, as a chain of pairs,
or through a binding.  They all come to the same.

* `Resolver.Answers` — the values that a resolver gives, whatever else it does;
* `Resolver.ofEntries_text`, `Resolver.chain_pairs` — mappings and chains of pairs give those of a table;
* `Template.exists_result` — the result is the same with every such resolver;
* `Binding.ofValues_eq`, `Binding.ofValues_eq_ok` — assigning values, and a binding of declared names;
* `CallForm`, `call_forms_agree` — the ways to give the values of a table, and that they agree.
-/

namespace UriTemplate

/-! ## what a resolver answers -/

/-- The value of a name, null if it has none. -/
def Table.valueOf (d : Table Text Value) (name : Text) : Value := (d.get? name).getD .null

/-- What null and all values of a table have in common. -/
theorem Table.valueOf_of_forall {d : Table Text Value} {P : Value → Prop} (hnull : P .null) (h : ∀ e ∈ d, P e.2)
    (name : Text) : P (d.valueOf name) := by
  unfold valueOf
  cases hget : d.get? name with
  | none => exact hnull
  | some v => exact h _ (mem_of_get? hget)

theorem Table.rereadable_valueOf {d : Table Text Value} (hr : ∀ e ∈ d, e.2.Rereadable) (name : Text) :
    (d.valueOf name).Rereadable :=
  valueOf_of_forall trivial hr name

namespace Resolver

/-- The resolver gives these values, whatever it does to the world. -/
def Answers (resolve : Resolver) (value : Text → Value) : Prop := ∀ name w, (resolve name w).1 = .ok (value name)

theorem ofTable_answers (d : Table Text Value) : (ofTable d).Answers d.valueOf := fun _ _ => rfl

/-- The texts among the keys of a mapping are looked up like names. -/
theorem ofEntries_text (d : Table Text Value) : ofEntries (d.map fun e => (.text e.1, e.2)) = ofTable d := by
  have hget : ∀ name : Text, Table.get? (d.map fun e => (Value.text e.1, e.2)) (.text name) = d.get? name := by
    intro name
    induction d with
    | nil => rfl
    | cons e d ih =>
      have hkey : ∀ a b : Text, (Value.text a == Value.text b) = (a == b) := by
        intro a b
        show (Scalar.text a == Scalar.text b) = (a == b)
        rw [Bool.eq_iff_iff, beq_iff_eq, beq_iff_eq, Scalar.text.injEq]
      unfold Table.get? at ih ⊢
      rw [List.map_cons, List.lookup_cons, hkey, ih]
      rfl
  funext name
  rw [ofEntries, hget]
  rfl

/-- **A chain of pairs** with distinct names is a table, in any order. -/
theorem chain_pairs {d entries : Table Text Value} (hd : d.keys.Nodup) (h : entries.Perm d) :
    chain (entries.map fun e => pair e.1 e.2) = ofTable d := by
  have hnodup : entries.keys.Nodup := (h.map Prod.fst).nodup_iff.2 hd
  have hchain : chain (entries.map fun e => pair e.1 e.2) = ofTable entries := by
    clear h
    induction entries with
    | nil => rfl
    | cons e entries ih =>
      obtain ⟨k, v⟩ := e
      obtain ⟨hk, hentries⟩ := List.nodup_cons.1 hnodup
      funext name
      rw [List.map_cons, chain, ih hentries]
      unfold ofTable pair
      dsimp only
      rw [Table.get?_cons, pure_bind]
      by_cases hname : name = k
      · rw [if_pos hname, if_pos hname]
        cases hnull : v.isNull with
        | true =>
          -- the other pairs have nothing to give for this name either
          have hv : v = .null := by
            cases v <;> first | rfl | cases hnull
          rw [hname, Table.get?_eq_none hk, hv]
          rfl
        | false => rfl
      · rw [if_neg hname, if_neg hname]
        rfl
  rw [hchain]
  funext name
  unfold ofTable
  rw [Table.get?_of_perm h hd]

section

variable {resolve : Resolver} {value : Text → Value}

theorem Answers.mapM (h : resolve.Answers value) (names : List Text) (w : World) :
    ∃ w', names.mapM resolve w = (.ok (names.map value), w') := by
  induction names generalizing w with
  | nil => exact ⟨w, rfl⟩
  | cons name names ih =>
    obtain ⟨w', hrest⟩ := ih (resolve name w).2
    have hname : resolve name w = (.ok (value name), (resolve name w).2) := Prod.ext (h name w) rfl
    refine ⟨w', ?_⟩
    rw [List.mapM_cons, bind_of_ok hname, bind_of_ok hrest]
    rfl

end

end Resolver

/-! ## one result -/

namespace Template

variable {source : Text} {t : Template}

/-- **Every resolver that gives these values gives the same result**: the text, or the fault if a value does not
convert. -/
theorem exists_result (hparse : parse source = .ok t) {value : Text → Value} (hr : ∀ name, (value name).Rereadable) :
    ∃ result, ∀ sources named resolve, Resolver.ofSources sources named = .ok resolve → resolve.Answers value →
      ∀ w, (t.expand sources named w).1 = result := by
  have hvalues : ∀ v ∈ t.names.map value, v.Rereadable := List.forall_mem_map.2 fun name _ => hr name
  cases hfault : (t.names.map value).findSome? Value.fault? with
  | none =>
    refine ⟨.ok (expansion ExpansionUnit.written t.elements (t.names.map value)), ?_⟩
    intro sources named resolve hresolve hanswers w
    obtain ⟨w', hmapM⟩ := hanswers.mapM t.names w
    rw [t.expand_eq hparse hresolve hmapM hvalues ((Value.findSome?_fault?_eq_none_iff _).1 hfault)]
  | some f =>
    refine ⟨.error f, fun sources named resolve hresolve hanswers w => ?_⟩
    obtain ⟨w', hmapM⟩ := hanswers.mapM t.names w
    exact expand_of_fault hparse hresolve hmapM hvalues hfault

/-- Sources matter only for their resolver. -/
theorem expand_congr {sources sources' : List Source} {named named' : Table Text Value}
    (h : Resolver.ofSources sources named = Resolver.ofSources sources' named') (t : Template) :
    t.expand sources named = t.expand sources' named' := by
  unfold expand expandTo
  rw [h]

end Template

theorem expand_of_parse {source : Text} {t : Template} (hparse : Template.parse source = .ok t) (sources : List Source)
    (named : Table Text Value) : expand source sources named = t.expand sources named := by
  rw [expand, hparse]

/-! ## bindings -/

namespace Binding

variable {α : Type}

/-- **Assigning values one after another.**  It fails at the first name that is not declared. -/
theorem foldlM_set_eq (b : Binding α) (values : Table Text α) :
    values.foldlM (fun b e => b.set e.1 e.2) b =
      match values.keys.find? fun name => !b.declares name with
      | none => .ok { b with values := b.values.update values }
      | some name => .error (.unknownVariable name) := by
  induction values generalizing b with
  | nil => rfl
  | cons e values ih =>
    rw [List.foldlM_cons, Table.keys_cons, List.find?_cons]
    unfold set
    cases h : b.declares e.1 with
    | true => exact ih { b with values := b.values.put e.1 e.2 }
    | false => rfl

theorem ofValues_eq (t : Template) (values : Table Text α) :
    ofValues t values =
      match values.keys.find? fun name => !t.mentions name with
      | none => .ok ⟨t, Table.ofList values⟩
      | some name => .error (.unknownVariable name) :=
  foldlM_set_eq { template := t } values

/-- **A binding of declared names** has these values. -/
theorem ofValues_eq_ok {t : Template} {values : Table Text α} (hd : values.keys.Nodup)
    (hdeclared : ∀ name ∈ values.keys, t.mentions name = true) : ofValues t values = .ok ⟨t, values⟩ := by
  have hnone : (values.keys.find? fun name => !t.mentions name) = none := by
    refine List.find?_eq_none.2 fun name hname => ?_
    simp [hdeclared name hname]
  have hlist : Table.ofList values = values := Table.update_of_nodup hd
  rw [ofValues_eq, hnone, hlist]

end Binding

/-! ## call forms -/

/-- The ways to call an expansion with the values of a table. -/
inductive CallForm (d : Table Text Value) : List Source → Table Text Value → Prop
  | mapping : CallForm d [.value (.mapping (d.map fun e => (.text e.1, e.2)))] []
  | named : CallForm d [] d
  | function {call : Resolver} (h : call.Answers d.valueOf) (text : Except Raised Text) : CallForm d [.function call text] []
  | document {resolve : Resolver} (h : resolve.Answers d.valueOf) (text : Except Raised Text) :
    CallForm d [.document resolve text] []
  /-- A document may be called as well, and give other values then. -/
  | callableDocument {resolve : Resolver} (h : resolve.Answers d.valueOf) (call : Resolver) (text : Except Raised Text) :
    CallForm d [.callableDocument resolve call text] []
  | pairs {entries : Table Text Value} (h : entries.Perm d) (text : Except Raised Text) :
    CallForm d [.function (.chain (entries.map fun e => .pair e.1 e.2)) text] []

theorem CallForm.exists_resolver {d : Table Text Value} (hd : d.keys.Nodup) {sources : List Source}
    {named : Table Text Value} (h : CallForm d sources named) :
    ∃ resolve, Resolver.ofSources sources named = .ok resolve ∧ resolve.Answers d.valueOf := by
  cases h with
  | mapping =>
    refine ⟨.ofEntries (d.map fun e => (.text e.1, e.2)), rfl, ?_⟩
    rw [Resolver.ofEntries_text]
    exact Resolver.ofTable_answers d
  | named =>
    cases d with
    | nil => exact ⟨.null, rfl, fun _ _ => rfl⟩
    | cons e d => exact ⟨.ofTable (e :: d), rfl, Resolver.ofTable_answers _⟩
  | function h text => exact ⟨_, rfl, h⟩
  | document h text => exact ⟨_, rfl, h⟩
  | callableDocument h call text => exact ⟨_, rfl, h⟩
  | pairs h text =>
    refine ⟨_, rfl, ?_⟩
    rw [Resolver.chain_pairs hd h]
    exact Resolver.ofTable_answers d

/-- **All call forms agree.**  The values of a table may be given as a mapping, by name, by a function or a document, which
may be callable as well, or by a chain of pairs in any order; the template may be expanded itself, or its source; and if
all names are declared, a binding may be made of them.  The result is the same text or the same fault.  A name and a value,
or a pair of them, are a mapping with one entry, and no values at all, or null, are a mapping without entries. -/
theorem call_forms_agree {source : Text} {t : Template} (hparse : Template.parse source = .ok t)
    {d : Table Text Value} (hd : d.keys.Nodup) (hr : ∀ e ∈ d, e.2.Rereadable) :
    (∃ result,
      (∀ sources named, CallForm d sources named →
        ∀ w, (t.expand sources named w).1 = result ∧ (expand source sources named w).1 = result) ∧
      ((∀ name ∈ d.keys, t.mentions name = true) →
        ∃ b, Binding.ofValues t d = .ok b ∧ ∀ w, (b.expand w).1 = result)) ∧
    (∀ name v, t.expand [.value (.text name), .value v] [] = t.expand [.value (.mapping [(.text name, v)])] [] ∧
      t.expand [.value (.sequence .tuple [.text name, v])] [] = t.expand [.value (.mapping [(.text name, v)])] []) ∧
    t.expand [] [] = t.expand [.value (.mapping [])] [] ∧
    t.expand [.value .null] [] = t.expand [.value (.mapping [])] [] := by
  have hpair : ∀ name v, Resolver.ofEntries [(.text name, v)] = Resolver.pair name v := by
    intro name v
    refine (Resolver.ofEntries_text [(name, v)]).trans (funext fun asked => ?_)
    unfold Resolver.ofTable Resolver.pair
    rw [Table.get?_cons]
    split <;> rfl
  refine ⟨?_, fun name v => ⟨?_, ?_⟩, rfl, rfl⟩
  · obtain ⟨result, hresult⟩ := Template.exists_result hparse (Table.rereadable_valueOf hr)
    have hforms : ∀ sources named, CallForm d sources named → ∀ w, (t.expand sources named w).1 = result := by
      intro sources named h
      obtain ⟨resolve, hresolve, hanswers⟩ := h.exists_resolver hd
      exact hresult sources named resolve hresolve hanswers
    refine ⟨result, fun sources named h w => ⟨hforms sources named h w, ?_⟩, fun hdeclared => ?_⟩
    · rw [expand_of_parse hparse]
      exact hforms sources named h w
    · exact ⟨⟨t, d⟩, Binding.ofValues_eq_ok hd hdeclared, hforms _ _ .mapping⟩
  · refine Template.expand_congr ?_ t
    show Except.ok (Resolver.pair name v) = .ok (Resolver.ofEntries [(.text name, v)])
    rw [hpair]
  · refine Template.expand_congr ?_ t
    show Except.ok (Resolver.pair name v) = .ok (Resolver.ofEntries [(.text name, v)])
    rw [hpair]

/-- A document that gives other values when it is called. -/
theorem call_forms_agree_callable_document :
    let d : Table Text Value := [("x", .text "1"), ("y", .list [.text "2", .null, .text "3"])]
    let called : Resolver := fun name => return .text (("called-" : Text) ++ name)
    let t : Template := ⟨"{x}{?y*}", [.expression ⟨"{x}", 0, 3⟩ .simple [{ name := "x" }],
      .expression ⟨"{?y*}", 3, 8⟩ .query [{ name := "y", explode := true }]]⟩
    Template.parse ("{x}{?y*}" : Text) = .ok t ∧ d.keys.Nodup ∧ (∀ e ∈ d, e.2.Rereadable) ∧
      (∀ w, (t.expand [.callableDocument (.ofTable d) called] [] w).1 = .ok ("1?y=2&y=3" : Text)) ∧
      ∃ b, Binding.ofValues t d = .ok b ∧ ∀ w, (b.expand w).1 = .ok ("1?y=2&y=3" : Text) := by
  intro d called t
  have hparse : Template.parse ("{x}{?y*}" : Text) = .ok t := rfl
  have hd : d.keys.Nodup := by decide
  have hr : ∀ e ∈ d, e.2.Rereadable := by simp [d, Value.Rereadable, Value.RereadableItems]
  obtain ⟨⟨result, hforms, hbinding⟩, -⟩ := call_forms_agree hparse hd hr
  have hresult : result = .ok ("1?y=2&y=3" : Text) := (hforms _ _ .named {}).1.symm
  obtain ⟨b, hb, hexpand⟩ := hbinding (by decide)
  subst hresult
  exact ⟨hparse, hd, hr, fun w => (hforms _ _ (.callableDocument (Resolver.ofTable_answers d) called _) w).1, b, hb, hexpand⟩

end UriTemplate
