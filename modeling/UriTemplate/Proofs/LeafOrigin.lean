import UriTemplate.Proofs.Structure

/-!
# Where leaves are from

The leaves that an expression yields are leaves of values that the resolver gave for its variables.

* `Value.HasLeaf` — the texts in a value; `Value.hasLeaf_of_readLeaves` — nothing else is read of it;
* `ExpansionUnit.texts` — the leaves of a unit, those of its key among them;
* `LeafFrom` — texts of the values of references; `collectReferences_leafFrom` — the texts of units are of this kind.
-/

namespace UriTemplate

/-! ## leaves of values -/

/-- The text is written for a single value in this value, or for an absent key in it. -/
inductive Value.HasLeaf : Value → Text → Prop
  | scalar {s : Scalar} {t : Text} (text : s.toText = .ok t) : HasLeaf (.scalar s) t
  | item {kind : SequenceKind} {vs : List Value} {v : Value} (mem : v ∈ vs) {t : Text} (leaf : HasLeaf v t) :
    HasLeaf (.sequence kind vs) t
  | key {es : List (Value × Value)} {e : Value × Value} (mem : e ∈ es) {t : Text} (leaf : HasLeaf e.1 t) :
    HasLeaf (.mapping es) t
  | value {es : List (Value × Value)} {e : Value × Value} (mem : e ∈ es) {t : Text} (leaf : HasLeaf e.2 t) :
    HasLeaf (.mapping es) t
  | absentKey {es : List (Value × Value)} {e : Value × Value} (mem : e ∈ es) : HasLeaf (.mapping es) []

theorem Act.eq_ok_of_ofExcept {α : Type} {x : Except Fault α} {a : α} {w w' : World}
    (h : Act.ofExcept x w = (.ok a, w')) : x = .ok a := by
  cases x with
  | error e => cases h
  | ok b => exact congrArg Except.ok (Except.ok.inj (Prod.mk.inj h).1)

/-- Reading a sequence gives its items, or none if it is used up. -/
theorem SequenceKind.read_cases {kind : SequenceKind} {vs vs' : List Value} {w w' : World}
    (h : kind.read vs w = (.ok vs', w')) : vs' = vs ∨ vs' = [] := by
  cases kind with
  | stream id =>
    obtain ⟨b, w₁, -, hrest⟩ := bind_eq_ok h
    cases b with
    | false => exact .inr (pure_eq_ok hrest).1.symm
    | true => exact .inl (pure_eq_ok hrest).1.symm
  | list => exact .inl (pure_eq_ok h).1.symm
  | tuple => exact .inl (pure_eq_ok h).1.symm
  | set => exact .inl (pure_eq_ok h).1.symm
  | range => exact .inl (pure_eq_ok h).1.symm

namespace Value

mutual
/-- **What is read of a value are its leaves.** -/
theorem hasLeaf_of_readLeaves (v : Value) {w w' : World} {ls : List Text} (h : v.readLeaves w = (.ok ls, w')) :
    ∀ t ∈ ls, v.HasLeaf t := by
  cases v with
  | null =>
    obtain ⟨rfl, -⟩ := pure_eq_ok h
    simp
  | scalar s =>
    obtain ⟨t, w₁, ht, hrest⟩ := bind_eq_ok h
    obtain ⟨rfl, -⟩ := pure_eq_ok hrest
    exact List.forall_mem_singleton.2 (.scalar (Act.eq_ok_of_ofExcept ht))
  | sequence kind vs =>
    rw [readLeaves_sequence] at h
    obtain ⟨vs', w₁, hread, hrest⟩ := bind_eq_ok h
    rcases SequenceKind.read_cases hread with rfl | rfl
    · intro t ht
      obtain ⟨v, hv, hleaf⟩ := hasLeaf_of_readLeavesItems vs' hrest t ht
      exact .item hv hleaf
    · obtain ⟨rfl, -⟩ := pure_eq_ok hrest
      simp
  | mapping es =>
    intro t ht
    obtain ⟨e, he, hleaf | hleaf | rfl⟩ := hasLeaf_of_readLeavesEntries es h t ht
    · exact .key he hleaf
    · exact .value he hleaf
    · exact .absentKey he
theorem hasLeaf_of_readLeavesItems (vs : List Value) {w w' : World} {ls : List Text}
    (h : readLeavesItems vs w = (.ok ls, w')) : ∀ t ∈ ls, ∃ v ∈ vs, v.HasLeaf t := by
  match vs with
  | [] =>
    obtain ⟨rfl, -⟩ := pure_eq_ok h
    simp
  | v :: vs =>
    obtain ⟨ms, w₁, hv, hrest⟩ := bind_eq_ok h
    obtain ⟨ns, w₂, hvs, hls⟩ := bind_eq_ok hrest
    obtain ⟨rfl, -⟩ := pure_eq_ok hls
    refine List.forall_mem_append.2 ⟨fun t ht => ⟨v, by simp, hasLeaf_of_readLeaves v hv t ht⟩, fun t ht => ?_⟩
    obtain ⟨u, hu, hleaf⟩ := hasLeaf_of_readLeavesItems vs hvs t ht
    exact ⟨u, List.mem_cons_of_mem _ hu, hleaf⟩
theorem hasLeaf_of_readLeavesEntries (es : List (Value × Value)) {w w' : World} {ls : List Text}
    (h : readLeavesEntries es w = (.ok ls, w')) : ∀ t ∈ ls, ∃ e ∈ es, e.1.HasLeaf t ∨ e.2.HasLeaf t ∨ t = [] := by
  match es with
  | [] =>
    obtain ⟨rfl, -⟩ := pure_eq_ok h
    simp
  | (key, v) :: es =>
    have hbehind : ∀ {w₁ w₂ : World} {ms : List Text}, readLeavesEntries es w₁ = (.ok ms, w₂) →
        ∀ t ∈ ms, ∃ e ∈ (key, v) :: es, e.1.HasLeaf t ∨ e.2.HasLeaf t ∨ t = [] := by
      intro w₁ w₂ ms hes t ht
      obtain ⟨e, he, hleaf⟩ := hasLeaf_of_readLeavesEntries es hes t ht
      exact ⟨e, List.mem_cons_of_mem _ he, hleaf⟩
    obtain ⟨texts, w₁, hv, hrest⟩ := bind_eq_ok h
    split at hrest
    · exact hbehind hrest
    · obtain ⟨keys, w₂, hkey, hrest⟩ := bind_eq_ok hrest
      obtain ⟨ms, w₃, hes, hls⟩ := bind_eq_ok hrest
      obtain ⟨rfl, -⟩ := pure_eq_ok hls
      refine List.forall_mem_append.2 ⟨List.forall_mem_append.2 ⟨fun t ht => ?_, fun t ht => ?_⟩, hbehind hes⟩
      · refine ⟨(key, v), by simp, ?_⟩
        unfold keyLeaves at ht
        split at ht
        · exact .inr (.inr (List.mem_singleton.1 ht))
        · exact .inl (hasLeaf_of_readLeaves key hkey t ht)
      · exact ⟨(key, v), by simp, .inr (.inl (hasLeaf_of_readLeaves v hv t ht))⟩
end

end Value

/-! ## leaves of units -/

/-- The leaves of a key. -/
def Label.leaves : Label → List Text
  | .none | .name _ => []
  | .key leaves => leaves

/-- The leaves of a unit, first those of its key. -/
def ExpansionUnit.texts (u : ExpansionUnit) : List Text := u.label.leaves ++ u.leaves

/-- The action is followed only by what may follow its results. -/
theorem Yields.perform_bind {P : ExpansionUnit → Prop} {α β : Type} {a : Act α} {f : α → Collect β}
    (h : ∀ w x w', a w = (.ok x, w') → Yields P (f x)) : Yields P (Collect.perform a >>= f) := by
  intro y hy
  cases ha : a y.world with
  | mk r w =>
    cases r with
    | error e =>
      rw [bind_of_error (Collect.perform_run ha)]
      exact hy
    | ok x =>
      rw [bind_of_ok (Collect.perform_run ha)]
      exact h _ x w ha _ hy

section

variable {P : Text → Prop}

theorem yield_texts {label : Label} {leaves : List Text} (hlabel : ∀ t ∈ label.leaves, P t) (h : ∀ t ∈ leaves, P t) :
    Yields (fun u => ∀ t ∈ u.texts, P t) (Collect.yield label leaves) :=
  .yield fun _ => List.forall_mem_append.2 ⟨hlabel, h⟩

theorem collectItems_texts {label : Label} (hlabel : ∀ t ∈ label.leaves, P t) {vs : List Value}
    (h : ∀ v ∈ vs, ∀ t, v.HasLeaf t → P t) : Yields (fun u => ∀ t ∈ u.texts, P t) (collectItems label vs) := by
  induction vs with
  | nil => exact .pure ()
  | cons v vs ih =>
    obtain ⟨hv, hvs⟩ := List.forall_mem_cons.1 h
    refine .perform_bind fun w leaves w' hread => ?_
    have hleaves : ∀ t ∈ leaves, P t := fun t ht => hv t (v.hasLeaf_of_readLeaves hread t ht)
    exact (yield_texts hlabel hleaves).bind fun _ => ih hvs

theorem collectPairs_texts {es : List (Value × Value)} (h : ∀ e ∈ es, ∀ t, e.1.HasLeaf t ∨ e.2.HasLeaf t → P t) :
    Yields (fun u => ∀ t ∈ u.texts, P t) (collectPairs es) := by
  induction es with
  | nil => exact .pure ()
  | cons e es ih =>
    obtain ⟨key, v⟩ := e
    obtain ⟨hpair, hes⟩ := List.forall_mem_cons.1 h
    refine .perform_bind fun w leaves w' hread => ?_
    have hleaves : ∀ t ∈ leaves, P t := fun t ht => hpair t (.inr (v.hasLeaf_of_readLeaves hread t ht))
    split
    · refine .perform_bind fun w keys w' hkey => ?_
      have hkeys : ∀ t ∈ keys, P t := fun t ht => hpair t (.inl (key.hasLeaf_of_readLeaves hkey t ht))
      exact Yields.bind (yield_texts hkeys hleaves) fun _ => ih hes
    · exact ih hes

theorem collectValue_texts (op : Operator) (r : VariableReference) {v : Value}
    (h : ∀ t, v.HasLeaf t → P t ∧ P (limitTo r.limit t)) :
    Yields (fun u => ∀ t ∈ u.texts, P t) (collectValue op r v) := by
  have hlabel : ∀ t ∈ (op.labelOf r.name).leaves, P t := by
    unfold Operator.labelOf
    split <;> simp [Label.leaves]
  have hone : Yields (fun u => ∀ t ∈ u.texts, P t)
      (Collect.perform v.readLeaves >>= Collect.yield (op.labelOf r.name)) :=
    .perform_bind fun w leaves w' hread =>
      yield_texts hlabel fun t ht => (h t (v.hasLeaf_of_readLeaves hread t ht)).1
  cases v with
  | null => exact .pure ()
  | scalar s =>
    refine .perform_bind fun w text w' htext => yield_texts hlabel (List.forall_mem_singleton.2 ?_)
    exact (h text (.scalar (Act.eq_ok_of_ofExcept htext))).2
  | sequence kind vs =>
    rw [collectValue]
    split
    · refine .perform_bind fun w vs' w' hread => collectItems_texts hlabel fun v hv t ht => ?_
      rcases SequenceKind.read_cases hread with rfl | rfl
      · exact (h t (.item hv ht)).1
      · cases hv
    · exact hone
  | mapping es =>
    rw [collectValue]
    split
    · refine collectPairs_texts fun e he t ht => ?_
      rcases ht with ht | ht
      · exact (h t (.key he ht)).1
      · exact (h t (.value he ht)).1
    · exact hone

end

/-- A leaf of a value that the resolver gives for one of the references, in some state of the world, or what the limit of
the reference leaves of such a leaf. -/
def LeafFrom (resolve : Resolver) (rs : List VariableReference) (t : Text) : Prop :=
  ∃ r ∈ rs, ∃ v w w', resolve r.name w = (.ok v, w') ∧ ∃ leaf, v.HasLeaf leaf ∧ (t = leaf ∨ t = limitTo r.limit leaf)

/-- **The leaves that references yield are leaves of their values.** -/
theorem collectReferences_leafFrom (resolve : Resolver) (op : Operator) {rs rs' : List VariableReference}
    (h : ∀ r ∈ rs', r ∈ rs) :
    Yields (fun u => ∀ t ∈ u.texts, LeafFrom resolve rs t) (collectReferences resolve op rs') := by
  induction rs' with
  | nil => exact .pure ()
  | cons r rs' ih =>
    obtain ⟨hr, hrs⟩ := List.forall_mem_cons.1 h
    refine Yields.bind (.perform_bind fun w v w' hresolve => ?_) fun _ => ih hrs
    refine collectValue_texts op r fun t ht => ?_
    exact ⟨⟨r, hr, v, w, w', hresolve, t, ht, .inl rfl⟩, ⟨r, hr, v, w, w', hresolve, t, ht, .inr rfl⟩⟩

end UriTemplate
