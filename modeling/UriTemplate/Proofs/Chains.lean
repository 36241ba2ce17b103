import UriTemplate.Proofs.CallForms
import UriTemplate.Proofs.Calls

/-!
# Chains of resolvers

A chain asks one resolver after another one, up to the first value that is not null.  How chains are nested makes no
difference: resolvers are asked in the same order, and the same ones are not asked at all.

* `Resolver.chain_singleton`, `Resolver.chain_append`, `Resolver.chain_pair` — chains of chains;
* `Resolver.Nested`, `Resolver.Nested.resolver_eq_chain` — chains in chains at any depth;
* `Resolver.chain_append_null` — null is neutral;
* `Resolver.ofSources_of_positional` — the resolver of a call asks its sources for what has no named value;
* `chains_form_monoid` — the laws of chains, and the calls of an expansion with sources and named values.
-/

namespace UriTemplate

theorem Value.eq_null_of_isNull {v : Value} (h : v.isNull = true) : v = .null := by
  cases v with
  | null => rfl
  | scalar | sequence | mapping => cases h

namespace Resolver

/-! ## chains of chains -/

theorem chain_cons (r : Resolver) (rs : List Resolver) (name : Text) :
    chain (r :: rs) name = r name >>= fun v => if v.isNull then chain rs name else return v := rfl

/-- **A chain by itself** is the resolver in it. -/
theorem chain_singleton (r : Resolver) : chain [r] = r := by
  funext name
  have hpure : (fun v : Value => if v.isNull then chain [] name else return v) = pure := by
    funext v
    split
    · next h => rw [Value.eq_null_of_isNull h]; rfl
    · rfl
  rw [chain_cons, hpure, bind_pure]

/-- **A chain goes on with another one** if all of its values are null, and does not ask it otherwise. -/
theorem chain_append (rs ss : List Resolver) (name : Text) :
    chain (rs ++ ss) name = chain rs name >>= fun v => if v.isNull then chain ss name else return v := by
  induction rs with
  | nil => rw [List.nil_append, chain, null, pure_bind]; rfl
  | cons r rs ih =>
    rw [List.cons_append, chain_cons, chain_cons, bind_assoc]
    congr 1
    funext v
    cases h : v.isNull with
    | true => rw [if_pos rfl, if_pos rfl, ih]
    | false => rw [if_neg Bool.false_ne_true, if_neg Bool.false_ne_true, pure_bind, h]; rfl

/-- **A chain of two chains** is the chain of all resolvers in them. -/
theorem chain_pair (rs ss : List Resolver) : chain [chain rs, chain ss] = chain (rs ++ ss) := by
  funext name
  rw [chain_cons, chain_singleton, chain_append]

/-- Resolvers in chains, which may stand in chains themselves. -/
inductive Nested
  | one (r : Resolver)
  | chained (ns : List Nested)

namespace Nested

mutual
/-- The resolver of nested chains. -/
def resolver : Nested → Resolver
  | one r => r
  | chained ns => chain (resolvers ns)
def resolvers : List Nested → List Resolver
  | [] => []
  | n :: ns => resolver n :: resolvers ns
end

mutual
/-- The resolvers in nested chains, from left to right. -/
def members : Nested → List Resolver
  | one r => [r]
  | chained ns => membersOf ns
def membersOf : List Nested → List Resolver
  | [] => []
  | n :: ns => members n ++ membersOf ns
end

mutual
/-- **Nested chains** are one chain of all resolvers in them. -/
theorem resolver_eq_chain (n : Nested) : n.resolver = chain n.members := by
  cases n with
  | one r => exact (chain_singleton r).symm
  | chained ns => exact chain_resolvers ns
theorem chain_resolvers (ns : List Nested) : chain (resolvers ns) = chain (membersOf ns) := by
  cases ns with
  | nil => rfl
  | cons n ns =>
    funext name
    rw [resolvers, membersOf, chain_cons, chain_append, resolver_eq_chain n, chain_resolvers ns]
end

end Nested

/-- **Null is neutral** anywhere in a chain. -/
theorem chain_append_null (rs ss : List Resolver) : chain (rs ++ null :: ss) = chain (rs ++ ss) := by
  have hnull : chain (null :: ss) = chain ss := rfl
  funext name
  rw [chain_append, chain_append, hnull]

/-! ## sources and named values -/

/-- **The resolver of a call with sources.**  It asks them for a name that has no named value, or null for one. -/
theorem ofSources_of_positional {sources : List Source} {r : Resolver} (h : ofPositional sources = .ok (some r))
    (named : Table Text Value) :
    ofSources sources named =
      .ok fun name => if (named.valueOf name).isNull then r name else return named.valueOf name := by
  unfold ofSources
  rw [h]
  cases named with
  | nil => rfl
  | cons e named =>
    refine congrArg Except.ok ?_
    have hlast := chain_singleton r
    funext name
    show chain [ofTable (e :: named), r] name = _
    rw [chain_cons, hlast]
    rfl

end Resolver

open Resolver

/-- Sources that note what they are asked for are asked for the names without a named value. -/
theorem calls_of_positional {r : Resolver} (h : ∀ name, Keeps World.asked (r name)) (named : Table Text Value) :
    Calls (fun name => if (named.valueOf name).isNull then r.noting name else return named.valueOf name)
      fun name => [name].filter fun n => (named.valueOf n).isNull := by
  intro name
  show Asks World.asked ([name].filter fun n => (named.valueOf n).isNull)
    (if (named.valueOf name).isNull then r.noting name else return named.valueOf name)
  cases hnull : (named.valueOf name).isNull with
  | true =>
    have hcalls : ([name].filter fun n => (named.valueOf n).isNull) = [name] := by simp [hnull]
    rw [hcalls, if_pos rfl]
    exact noting_asks h name
  | false =>
    have hcalls : ([name].filter fun n => (named.valueOf n).isNull) = [] := by simp [hnull]
    rw [hcalls, if_neg Bool.false_ne_true]
    exact .pure _

/-- **Chains form a monoid**, whatever the resolvers in them do: chains in chains, at any depth, are one chain of all
resolvers in them, and null is neutral.  The results are the same and so are the worlds, with all calls in them.  A call
with sources and named values asks the sources for a name exactly if its named value is null or missing.  So an expansion
asks them for these names of the template, in the order of the source, and if it fails, for the first ones of them. -/
theorem chains_form_monoid :
    (∀ rs ss : List Resolver, chain [chain rs, chain ss] = chain (rs ++ ss)) ∧
    (∀ n : Nested, n.resolver = chain n.members) ∧
    chain [] = null ∧ (∀ r, chain [r] = r) ∧ (∀ rs ss, chain (rs ++ null :: ss) = chain (rs ++ ss)) ∧
    (∀ sources r named, ofPositional sources = .ok (some r) →
      ofSources sources named =
        .ok fun name => if (named.valueOf name).isNull then r name else return named.valueOf name) ∧
    (∀ sources (r : Resolver) named (t : Template), ofPositional sources = .ok (some r.noting) →
      (∀ name, Keeps World.asked (r name)) →
        Asks Output.asked (t.names.filter fun n => (named.valueOf n).isNull) (t.expandTo sources named) ∧
        Asks World.asked (t.names.filter fun n => (named.valueOf n).isNull) (t.expand sources named)) := by
  refine ⟨chain_pair, Nested.resolver_eq_chain, rfl, chain_singleton, chain_append_null,
    fun sources r named h => ofSources_of_positional h named, fun sources r named t h hkeeps => ?_⟩
  have hasks := (calls_of_positional hkeeps named).expand t (ofSources_of_positional h named)
  rwa [← List.filter_flatMap, List.flatMap_singleton'] at hasks

/-- Resolvers that mark their calls, in chains; and named values that are empty, zero or false, which are no null: a document
is asked for the other names, some of them twice. -/
theorem chains_form_monoid_falsy :
    let mark (m : Text) (v : Value) : Resolver := fun name => do
      Act.note (m ++ name)
      return v
    let n : Nested := .chained [.chained [.one (mark "1" .null), .chained [], .one (mark "2" (.bool false))],
      .one (mark "3" (.int 1))]
    let r : Resolver := fun name => return .text name
    let named : Table Text Value := [("a", .text []), ("b", .int 0), ("c", .bool false), ("d", .list []), ("e", .null)]
    let rs : List VariableReference := [{ name := "a" }, { name := "e" }, { name := "b" }, { name := "c" }, { name := "f" },
      { name := "d" }, { name := "e" }]
    let t : Template := ⟨"{a,e,b,c,f,d,e}", [.expression ⟨"{a,e,b,c,f,d,e}", 0, 15⟩ .simple rs]⟩
    n.resolver "x" {} = (.ok (.bool false), { asked := ["1x", "2x"] }) ∧
      n.resolver = chain [mark "1" .null, mark "2" (.bool false), mark "3" (.int 1)] ∧
      Template.parse ("{a,e,b,c,f,d,e}" : Text) = .ok t ∧
      (t.expand [.document r.noting] named {}).2 = { asked := ["e", "f", "e"] } ∧
      Asks World.asked ["e", "f", "e"] (t.expand [.document r.noting] named) := by
  intro mark n r named rs t
  have hkeeps : ∀ name, Keeps World.asked (r name) := fun name => .pure _
  obtain ⟨-, hnested, -, -, -, -, hasks⟩ := chains_form_monoid
  exact ⟨rfl, hnested n, rfl, by decide +kernel, (hasks [.document r.noting] r named t rfl hkeeps).2⟩

end UriTemplate
