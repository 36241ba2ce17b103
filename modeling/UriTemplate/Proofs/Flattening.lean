import UriTemplate.Proofs.Units

/-!
# Serialization flattens

What a value is serialized to is known from its leaves, however they are grouped.  Streams in the value may be read once,
so no two parts of it may be the same stream, and none of them may be used up before.

* `Value.streams`, `World.Fresh` — the streams in a value, and worlds in which they are there to be read;
* `Reads` — an action that gives a result and uses up nothing but the given streams;
* `Value.reads_leaves` — reading a value gives its leaves;
* `Value.leaves_regroup`, `Value.leaves_of_null` — brackets around items, and null among them, make no difference to the
  leaves;
* `serialize_flattens` — a composite value is serialized to its leaves, each one encoded, with commas between them.
-/

namespace UriTemplate

/-! ## streams that are there to be read -/

/-- The stream that a sequence of this kind is, if it is one. -/
def SequenceKind.streams : SequenceKind → List Nat
  | .stream id => [id]
  | _ => []

namespace Value

mutual
/-- The streams in a value, in keys too. -/
def streams : Value → List Nat
  | null | scalar _ => []
  | sequence kind items => kind.streams ++ streamsItems items
  | mapping entries => streamsEntries entries
def streamsItems : List Value → List Nat
  | [] => []
  | v :: vs => streams v ++ streamsItems vs
def streamsEntries : List (Value × Value) → List Nat
  | [] => []
  | (key, v) :: es => streams v ++ (streams key ++ streamsEntries es)
end

end Value

namespace World

/-- The world after streams are used up. -/
def drain (w : World) (ids : List Nat) : World := { w with drained := ids ++ w.drained }

theorem drain_drain (w : World) (ids more : List Nat) : (w.drain ids).drain more = w.drain (more ++ ids) := by
  rw [drain, drain, drain, List.append_assoc]

/-- The streams are different from each other, and none of them is used up. -/
structure Fresh (w : World) (ids : List Nat) : Prop where
  nodup : ids.Nodup
  unused : ∀ id ∈ ids, id ∉ w.drained

/-- What is used up by one action after another one is among the streams of both. -/
theorem subset_drained {ids more used used' : List Nat} (hused : used ⊆ ids) (hused' : used' ⊆ more) :
    used' ++ used ⊆ ids ++ more :=
  List.append_subset.2 ⟨List.subset_append_of_subset_right ids hused', List.subset_append_of_subset_left more hused⟩

namespace Fresh

variable {w : World} {ids more : List Nat}

theorem of_sublist (h : w.Fresh more) (hsub : ids.Sublist more) : w.Fresh ids :=
  ⟨h.nodup.sublist hsub, fun id hid => h.unused id (hsub.subset hid)⟩

/-- Using up some streams leaves the other ones. -/
theorem drain (h : w.Fresh (ids ++ more)) {used : List Nat} (hused : used ⊆ ids) : (w.drain used).Fresh more := by
  obtain ⟨-, hmore, hdistinct⟩ := List.nodup_append.1 h.nodup
  refine ⟨hmore, fun id hid hdrained => ?_⟩
  rcases List.mem_append.1 hdrained with hmem | hmem
  · exact hdistinct id (hused hmem) id hid rfl
  · exact h.unused id (List.mem_append_right _ hid) hmem

end Fresh

end World

/-! ## reading -/

theorem Act.drain_of_unused {w : World} {id : Nat} (h : id ∉ w.drained) : Act.drain id w = (.ok true, w.drain [id]) := by
  have hget : (get : Act World) w = (.ok w, w) := rfl
  have hcontains : w.drained.contains id = false := by simpa using h
  rw [Act.drain, bind_of_ok hget, hcontains]
  rfl

theorem Act.drain_of_used {w : World} {id : Nat} (h : id ∈ w.drained) : Act.drain id w = (.ok false, w) := by
  have hget : (get : Act World) w = (.ok w, w) := rfl
  have hcontains : w.drained.contains id = true := by simpa using h
  rw [Act.drain, bind_of_ok hget, hcontains]
  rfl

/-- While the streams are there to be read, the action gives `x` and uses up none but these. -/
def Reads {α : Type} (ids : List Nat) (a : Act α) (x : α) : Prop :=
  ∀ w : World, w.Fresh ids → ∃ used ⊆ ids, a w = (.ok x, w.drain used)

namespace Reads

variable {α β : Type} {ids more : List Nat} {a : Act α} {x : α}

theorem pure (x : α) : Reads [] (Pure.pure x) x := fun _ _ => ⟨[], List.Subset.refl _, rfl⟩

theorem of_sublist (h : Reads ids a x) (hsub : ids.Sublist more) : Reads more a x := by
  intro w hw
  obtain ⟨used, hused, hrun⟩ := h w (hw.of_sublist hsub)
  exact ⟨used, List.Subset.trans hused hsub.subset, hrun⟩

theorem bind {f : α → Act β} {y : β} (ha : Reads ids a x) (hf : Reads more (f x) y) :
    Reads (ids ++ more) (a >>= f) y := by
  intro w hw
  obtain ⟨used, hused, hrun⟩ := ha w (hw.of_sublist (List.sublist_append_left _ _))
  obtain ⟨used', hused', hrun'⟩ := hf (w.drain used) (hw.drain hused)
  refine ⟨used' ++ used, World.subset_drained hused hused', ?_⟩
  rw [bind_of_ok hrun, hrun', World.drain_drain]

theorem map (h : Reads ids a x) (f : α → β) : Reads ids (f <$> a) (f x) := by
  rw [map_eq_pure_bind, ← List.append_nil ids]
  exact h.bind (.pure (f x))

/-- The items of a sequence. -/
theorem items (kind : SequenceKind) (vs : List Value) : Reads kind.streams (kind.read vs) vs := by
  cases kind with
  | stream id =>
    intro w hw
    exact ⟨[id], List.Subset.refl _, bind_of_ok (Act.drain_of_unused (hw.unused id (List.mem_singleton_self id)))⟩
  | list => exact .pure vs
  | tuple => exact .pure vs
  | set => exact .pure vs
  | range => exact .pure vs

end Reads

namespace Value

-- a key is read only if its value has leaves: otherwise its streams are left
mutual
/-- **Reading a value gives its leaves.** -/
theorem reads_leaves (v : Value) (hc : v.Converts) : Reads v.streams v.readLeaves v.leaves := by
  cases v with
  | null => exact .pure []
  | scalar s =>
    obtain ⟨t, ht⟩ := hc
    rw [readLeaves, leaves, scalarText, ht]
    exact .pure [t]
  | sequence kind vs =>
    rw [readLeaves_sequence]
    exact (Reads.items kind vs).bind (reads_leavesItems vs hc)
  | mapping es => exact reads_leavesEntries es hc
theorem reads_leavesItems (vs : List Value) (hc : ConvertsItems vs) :
    Reads (streamsItems vs) (readLeavesItems vs) (leavesItems vs) := by
  cases vs with
  | nil => exact .pure []
  | cons v vs => exact (reads_leaves v hc.1).bind ((reads_leavesItems vs hc.2).map _)
theorem reads_leavesEntries (es : List (Value × Value)) (hc : ConvertsEntries es) :
    Reads (streamsEntries es) (readLeavesEntries es) (leavesEntries es) := by
  match es with
  | [] => exact .pure []
  | (key, v) :: es =>
    have hes := reads_leavesEntries es hc.2.2
    refine (reads_leaves v hc.2.1).bind ?_
    rw [leavesEntries]
    by_cases h : leaves v = []
    · rw [if_pos h, if_pos h]
      exact hes.of_sublist (List.sublist_append_right _ _)
    · have hvacuous : vacuous v = false := by
        rwa [leaves_eq_nil_iff, Bool.not_eq_true] at h
      rw [if_neg h, if_neg h]
      exact (reads_leaves key (hc.1 hvacuous)).bind (hes.map _)
end

/-! ## leaves and groups -/

theorem leavesItems_append (vs us : List Value) : leavesItems (vs ++ us) = leavesItems vs ++ leavesItems us := by
  induction vs with
  | nil => rfl
  | cons v vs ih => rw [List.cons_append, leavesItems, leavesItems, ih, List.append_assoc]

/-- **Brackets around some of the items make no difference.** -/
theorem leaves_regroup (kind inner : SequenceKind) (before vs after : List Value) :
    (sequence kind (before ++ sequence inner vs :: after)).leaves = (sequence kind (before ++ (vs ++ after))).leaves := by
  rw [leaves, leaves, leavesItems_append, leavesItems_append, leavesItems_append, leavesItems, leaves]

theorem leaves_of_null (kind : SequenceKind) (before after : List Value) :
    (sequence kind (before ++ null :: after)).leaves = (sequence kind (before ++ after)).leaves := by
  rw [leaves, leaves, leavesItems_append, leavesItems_append, leavesItems, leaves, List.nil_append]

end Value

/-! ## serialization -/

/-- A limit applies to a single value only. -/
theorem serialize_of_composite (policy : Policy) (limit : Option Int) {v : Value} (h : v.isScalar = false) :
    serialize policy limit v = serialize policy none v := by
  cases v with
  | null => cases h
  | scalar s => cases h
  | sequence kind vs => rfl
  | mapping es => rfl

/-- **Without a limit, a value is serialized to its encoded leaves.** -/
theorem reads_serialize_leaves (policy : Policy) {v : Value} (hc : v.Converts) :
    Reads v.streams (serialize policy none v) (encoded policy v.leaves) := by
  rw [serialize_eq]
  exact (v.reads_leaves hc).map _

theorem reads_serialize_composite (policy : Policy) (limit : Option Int) {v : Value} (hv : v.isScalar = false)
    (hc : v.Converts) : Reads v.streams (serialize policy limit v) (encoded policy v.leaves) := by
  rw [serialize_of_composite policy limit hv]
  exact reads_serialize_leaves policy hc

/-- What a value is serialized to. -/
def serialized (policy : Policy) (limit : Option Int) (v : Value) : Option Text :=
  if v.isScalar then encoded policy (v.leaves.map (limitTo limit)) else encoded policy v.leaves

theorem reads_serialize (policy : Policy) (limit : Option Int) {v : Value} (hc : v.Converts) :
    Reads v.streams (serialize policy limit v) (serialized policy limit v) := by
  cases hv : v.isScalar with
  | false =>
    rw [serialized, hv]
    exact reads_serialize_composite policy limit hv hc
  | true =>
    cases v with
    | null => exact .pure none
    | scalar s =>
      obtain ⟨t, ht⟩ := hc
      rw [serialize, ht, serialized, if_pos hv, Value.leaves, Value.scalarText, ht, List.map_singleton, encoded_singleton]
      exact .pure _
    | sequence kind vs => cases hv
    | mapping es => cases hv

/-- **Serialization flattens.**  Nothing is what a value without leaves is serialized to, and no other one.  A single value
is serialized to the encoding of its limited text; a composite one to its leaves, each one encoded, with commas between
them, whatever the limit.  So composite values with the same leaves are serialized to the same text. -/
theorem serialize_flattens (policy : Policy) (limit : Option Int) {v : Value} (hc : v.Converts) {w : World}
    (hfresh : w.Fresh v.streams) :
    ∃ text, ∃ used ⊆ v.streams, serialize policy limit v w = (.ok text, w.drain used) ∧
      (text = none ↔ v.leaves = []) ∧
      (∀ s, v = .scalar s → ∃ t, s.toText = .ok t ∧ v.leaves = [t] ∧ text = some (encode policy (limitTo limit t))) ∧
      (v.isScalar = false → v.leaves ≠ [] → text = some (Text.join "," (v.leaves.map (encode policy)))) ∧
      (v.isScalar = false → ∀ (v' : Value) (limit' : Option Int) (w' : World), v'.isScalar = false → v'.Converts →
        w'.Fresh v'.streams → v'.leaves = v.leaves → (serialize policy limit' v' w').1 = .ok text) := by
  obtain ⟨used, hused, hrun⟩ := reads_serialize policy limit hc w hfresh
  refine ⟨_, used, hused, hrun, ?_, ?_, ?_, ?_⟩
  · unfold serialized
    split
    · rw [encoded_eq_none_iff, List.map_eq_nil_iff]
    · exact encoded_eq_none_iff
  · rintro s rfl
    obtain ⟨t, ht⟩ := hc
    have hleaves : (Value.scalar s).leaves = [t] := by rw [Value.leaves, Value.scalarText, ht]
    refine ⟨t, ht, hleaves, ?_⟩
    have hscalar : (Value.scalar s).isScalar = true := rfl
    rw [serialized, if_pos hscalar, hleaves, List.map_singleton, encoded_singleton]
  · intro hv hne
    rw [serialized, hv, if_neg Bool.false_ne_true, encoded]
    cases h : v.leaves with
    | nil => exact absurd h hne
    | cons l ls => rfl
  · intro hv v' limit' w' hv' hc' hfresh' hleaves
    obtain ⟨used', -, hrun'⟩ := reads_serialize_composite policy limit' hv' hc' w' hfresh'
    rw [hrun', serialized, hv, if_neg Bool.false_ne_true, hleaves]

/-- A key that is a pair, a stream with null and a list in it, and a pair whose value is an empty list. -/
theorem serialize_flattens_nested :
    let v : Value := .mapping [
      (.sequence .tuple [.text "k", .null], .sequence (.stream 7) [.text "x,y", .null, .list [.text "z"]]),
      (.text "left", .list []), (.null, .bool true)]
    let flat : Value := .list [.text "k", .text "x,y", .text "z", .text [], .text "true"]
    v.leaves = flat.leaves ∧ v.Converts ∧ World.Fresh { drained := [3] } v.streams ∧
      (serialize .unreserved (some 1) v { drained := [3] }).1 = .ok (some ("k,x%2Cy,z,,true" : Text)) ∧
      (serialize .unreserved none flat {}).1 = .ok (some ("k,x%2Cy,z,,true" : Text)) := by
  intro v flat
  have hleaves : v.leaves = flat.leaves := by decide
  have hc : v.Converts := by
    simp [v, Value.Converts, Value.ConvertsItems, Value.ConvertsEntries, Scalar.toText]
  have hcflat : flat.Converts := by simp [flat, Value.Converts, Value.ConvertsItems, Scalar.toText]
  have hfresh : World.Fresh { drained := [3] } v.streams := ⟨by decide, by decide⟩
  have hfreshflat : World.Fresh {} flat.streams := ⟨by decide, by decide⟩
  obtain ⟨text, used, -, hrun, -, -, htext, hsame⟩ := serialize_flattens .unreserved (some 1) hc hfresh
  have hjoin : text = some ("k,x%2Cy,z,,true" : Text) := (htext rfl (by decide)).trans (by decide)
  have hresult := congrArg Prod.fst hrun
  rw [hjoin] at hresult
  have hflat := hsame rfl flat none {} rfl hcflat hfreshflat hleaves.symm
  rw [hjoin] at hflat
  exact ⟨hleaves, hc, hfresh, hresult, hflat⟩

end UriTemplate
