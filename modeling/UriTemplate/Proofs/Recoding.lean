import UriTemplate.Proofs.Cuts
import UriTemplate.Proofs.Tables
import UriTemplate.Proofs.WellFormed

/-!
# Texts and their bytes

A text may be given as its bytes: they are read back before they are encoded.

* `Value.Recoded` — a value with the bytes of texts in place of some of the texts in it;
* `Value.readLeaves_of_recoded`, `collectValue_of_recoded` — such a value has the same leaves and yields the same units;
* `Resolver.related_ofTable` — tables with related values;
* `exists_expand_bytes` — what a variable by itself expands to, if its value is made of bytes;
* `bytes_stand_for_texts` — expansions are the same, and of all bytes the well-formed ones are written as they are.
-/

namespace UriTemplate

/-! ## values with bytes in place of texts -/

namespace Value

mutual
/-- The second value is the first one with the bytes of texts in place of some of the texts in it, at any depth.  A text
with surrogates is left as it is. -/
inductive Recoded : Value → Value → Prop
  | null : Recoded null null
  | scalar (s : Scalar) : Recoded (scalar s) (scalar s)
  | bytes {t : Text} (h : t.SurrogateFree) : Recoded (text t) (scalar (.bytes t.utf8))
  | byteArray {t : Text} (h : t.SurrogateFree) : Recoded (text t) (scalar (.byteArray t.utf8))
  | sequence (kind : SequenceKind) {vs vs' : List Value} (h : RecodedItems vs vs') :
      Recoded (sequence kind vs) (sequence kind vs')
  | mapping {es es' : List (Value × Value)} (h : RecodedEntries es es') : Recoded (mapping es) (mapping es')
inductive RecodedItems : List Value → List Value → Prop
  | nil : RecodedItems [] []
  | cons {v v' : Value} {vs vs' : List Value} (hv : Recoded v v') (h : RecodedItems vs vs') :
      RecodedItems (v :: vs) (v' :: vs')
inductive RecodedEntries : List (Value × Value) → List (Value × Value) → Prop
  | nil : RecodedEntries [] []
  | cons {k k' v v' : Value} {es es' : List (Value × Value)} (hk : Recoded k k') (hv : Recoded v v')
      (h : RecodedEntries es es') : RecodedEntries ((k, v) :: es) ((k', v') :: es')
end

end Value

/-- **The bytes of a text have the text that they are the bytes of.** -/
theorem Scalar.toText_utf8 {t : Text} (h : t.SurrogateFree) :
    (Scalar.bytes t.utf8).toText = (Scalar.text t).toText ∧ (Scalar.byteArray t.utf8).toText = (Scalar.text t).toText :=
  ⟨congrArg Except.ok (Utf8.decodeReplacing_utf8 h), congrArg Except.ok (Utf8.decodeReplacing_utf8 h)⟩

namespace Value

mutual
/-- **Bytes have the leaves of the texts.**  Streams are used up alike, and what fails does so alike. -/
theorem readLeaves_of_recoded (v v' : Value) (h : Recoded v v') : readLeaves v = readLeaves v' := by
  cases h with
  | null => rfl
  | scalar s => rfl
  | bytes ht => rw [readLeaves, readLeaves, (Scalar.toText_utf8 ht).1]
  | byteArray ht => rw [readLeaves, readLeaves, (Scalar.toText_utf8 ht).2]
  | sequence kind hvs =>
    have hitems := readLeavesItems_of_recoded _ _ hvs
    cases kind with
    | stream id => rw [readLeaves, readLeaves, hitems]
    | list => exact hitems
    | tuple => exact hitems
    | set => exact hitems
    | range => exact hitems
  | mapping hes => exact readLeavesEntries_of_recoded _ _ hes
theorem readLeavesItems_of_recoded (vs vs' : List Value) (h : RecodedItems vs vs') :
    readLeavesItems vs = readLeavesItems vs' := by
  cases h with
  | nil => rfl
  | cons hv hvs =>
    rw [readLeavesItems, readLeavesItems, readLeaves_of_recoded _ _ hv, readLeavesItems_of_recoded _ _ hvs]
theorem readLeavesEntries_of_recoded (es es' : List (Value × Value)) (h : RecodedEntries es es') :
    readLeavesEntries es = readLeavesEntries es' := by
  cases h with
  | nil => rfl
  | cons hk hv hes =>
    rw [readLeavesEntries, readLeavesEntries, readLeaves_of_recoded _ _ hk, readLeaves_of_recoded _ _ hv,
      readLeavesEntries_of_recoded _ _ hes]
end

end Value

/-! ## the units of such values -/

open Value

theorem collectItems_of_recoded (label : Label) {vs vs' : List Value} (h : RecodedItems vs vs') :
    collectItems label vs = collectItems label vs' := by
  induction vs generalizing vs' with
  | nil =>
    cases h
    rfl
  | cons v vs ih =>
    obtain _ | ⟨hv, hvs⟩ := h
    rw [collectItems, collectItems, readLeaves_of_recoded _ _ hv, ih hvs]

theorem collectPairs_of_recoded {es es' : List (Value × Value)} (h : RecodedEntries es es') :
    collectPairs es = collectPairs es' := by
  induction es generalizing es' with
  | nil =>
    cases h
    rfl
  | cons e es ih =>
    obtain _ | ⟨hk, hv, hes⟩ := h
    rw [collectPairs, collectPairs, readLeaves_of_recoded _ _ hk, readLeaves_of_recoded _ _ hv, ih hes]

/-- The items that are read from a sequence, and from one with bytes in it. -/
theorem collectItems_read_of_recoded (label : Label) (kind : SequenceKind) {vs vs' : List Value}
    (h : RecodedItems vs vs') :
    (do collectItems label (← Collect.perform (kind.read vs))) =
      (do collectItems label (← Collect.perform (kind.read vs'))) := by
  have hitems := collectItems_of_recoded label h
  cases kind with
  | stream id =>
    -- the items are the same ones, or the stream is used up
    simp only [SequenceKind.read, Collect.perform_bind, bind_assoc]
    congr 1
    funext fresh
    cases fresh with
    | true => exact hitems
    | false => rfl
  | list => exact hitems
  | tuple => exact hitems
  | set => exact hitems
  | range => exact hitems

/-- **Bytes yield the units of the texts**, with any operator, modifier and limit. -/
theorem collectValue_of_recoded (op : Operator) (r : VariableReference) {v v' : Value} (h : Recoded v v') :
    collectValue op r v = collectValue op r v' := by
  have hleaves := readLeaves_of_recoded v v' h
  cases h with
  | null => rfl
  | scalar s => rfl
  | bytes ht => rw [collectValue, collectValue, (Scalar.toText_utf8 ht).1]
  | byteArray ht => rw [collectValue, collectValue, (Scalar.toText_utf8 ht).2]
  | sequence kind hvs =>
    rw [collectValue, collectValue, hleaves]
    split
    · exact collectItems_read_of_recoded _ kind hvs
    · rfl
  | mapping hes =>
    rw [collectValue, collectValue, hleaves, collectPairs_of_recoded hes]

/-! ## expansions -/

/-- Tables with the same keys and related values. -/
theorem Resolver.related_ofTable {R : Value → Value → Prop} (hnull : R .null .null) {d d' : Table Text Value}
    (h : List.Forall₂ (fun e e' => e.1 = e'.1 ∧ R e.2 e'.2) d d') : (ofTable d).Related R (ofTable d') := by
  refine fun name w => .inr ⟨(d.get? name).getD .null, (d'.get? name).getD .null, w, rfl, rfl, ?_⟩
  induction h with
  | nil => exact hnull
  | @cons e e' d d' he _ ih =>
    obtain ⟨⟨key, v⟩, ⟨_, v'⟩⟩ := e, e'
    obtain ⟨rfl, hv⟩ := he
    rw [Table.get?_cons, Table.get?_cons]
    split
    · exact hv
    · exact ih

/-- **What a variable by itself expands to**, if its value is made of bytes.  What is ill-formed in them is replaced. -/
theorem exists_expand_bytes (x : Name) :
    ∃ t, Template.parse (Operator.simple.braced x.text) = .ok t ∧
      ∀ b s, s = Scalar.bytes b ∨ s = Scalar.byteArray b → ∀ sources named resolve w w',
        Resolver.ofSources sources named = .ok resolve → resolve x.text w = (.ok (.scalar s), w') →
          t.expand sources named w = (.ok (encode .unreserved (Utf8.decodeReplacing b)), w') := by
  have hsimple : Operator.simple ∈ Operator.all := by decide
  obtain ⟨t, hparse, hexpand⟩ := VariableSpec.exists_expand_scalar hsimple ⟨x, .none⟩
  have hbare : (VariableSpec.mk x .none).text = x.text := List.append_nil _
  rw [hbare] at hparse
  refine ⟨t, hparse, fun b s hs sources named resolve w w' hresolve hx => ?_⟩
  have htext : s.toText = .ok (Utf8.decodeReplacing b) := by
    rcases hs with rfl | rfl <;> rfl
  rw [hexpand sources named resolve s _ w w' hresolve htext hx, ExpansionUnit.written_labelOf]
  rfl

/-- **Bytes stand for texts.**  A resolver may give the bytes of texts in place of the texts, alone or in a value, at any
depth: a template expands to the same text or the same fault, and it does the same to the world.  Bytes by themselves are
written so that they are decoded to themselves exactly if they are well-formed. -/
theorem bytes_stand_for_texts :
    (∀ (t : Template) sources named resolve sources' named' resolve', Resolver.ofSources sources named = .ok resolve →
      Resolver.ofSources sources' named' = .ok resolve' → resolve.Related Value.Recoded resolve' →
        t.expand sources' named' = t.expand sources named) ∧
    ∀ x : Name, ∃ t, Template.parse (Operator.simple.braced x.text) = .ok t ∧
      ∀ b s, s = Scalar.bytes b ∨ s = Scalar.byteArray b → ∀ sources named resolve w w',
        Resolver.ofSources sources named = .ok resolve → resolve x.text w = (.ok (.scalar s), w') →
          ∃ text, t.expand sources named w = (.ok text, w') ∧ (percentDecode text = some b ↔ Utf8.WellFormed b) := by
  constructor
  · intro t sources named resolve sources' named' resolve' hresolve hresolve' hrelated
    rw [Template.expand_of_resolver hresolve, Template.expand_of_resolver hresolve']
    exact expandElements_congr fun op r _ =>
      (collectReference_of_related hrelated fun _ _ hv => collectValue_of_recoded op r hv).symm
  · intro x
    obtain ⟨t, hparse, hexpand⟩ := exists_expand_bytes x
    refine ⟨t, hparse, fun b s hs sources named resolve w w' hresolve hx => ?_⟩
    refine ⟨_, hexpand b s hs sources named resolve w w' hresolve hx, ?_⟩
    rw [percentDecode_encode, (Utf8.surrogateFree_decodeReplacing b).joinPairs_eq, Option.some.injEq]
    exact Utf8.utf8_decodeReplacing_iff b

/-- An accented letter by itself, in a list and in a mapping of the list, and a surrogate that is given as bytes. -/
theorem bytes_stand_for_texts_nested :
    let accent : Text := [⟨0xE9, by decide⟩]
    let texts : Table Text Value := [("x", .text accent), ("l", .list [.text accent, .mapping [(.text "k", .text accent)]])]
    let bytes : Table Text Value := [("x", .scalar (.bytes [0xC3, 0xA9])),
      ("l", .list [.scalar (.byteArray [0xC3, 0xA9]), .mapping [(.text "k", .scalar (.bytes [0xC3, 0xA9]))]])]
    let t : Template := ⟨"{?x:1,l*}", [.expression ⟨"{?x:1,l*}", 0, 9⟩ .query [{ name := "x", limit := some 1 },
      { name := "l", explode := true }]]⟩
    let surrogate : Table Text Value := [("x", .scalar (.bytes [0xED, 0xA0, 0x80]))]
    Template.parse ("{?x:1,l*}" : Text) = .ok t ∧
      t.expand [] bytes = t.expand [] texts ∧
      t.expand [] bytes {} = (.ok ("?x=%C3%A9&l=%C3%A9&l=k,%C3%A9" : Text), {}) ∧
      ∃ u, Template.parse ("{x}" : Text) = .ok u ∧
        (∃ text, u.expand [] bytes {} = (.ok text, {}) ∧ percentDecode text = some [0xC3, 0xA9]) ∧
        ∃ text, u.expand [] surrogate {} = (.ok text, {}) ∧ percentDecode text ≠ some [0xED, 0xA0, 0x80] := by
  intro accent texts bytes t surrogate
  obtain ⟨hsame, hbytes⟩ := bytes_stand_for_texts
  have hfree : accent.SurrogateFree := List.forall_mem_singleton.2 rfl
  have hrelated : (Resolver.ofTable texts).Related Value.Recoded (.ofTable bytes) :=
    Resolver.related_ofTable .null <| .cons ⟨rfl, .bytes hfree⟩ <| .cons ⟨rfl, .sequence .list <|
      .cons (.byteArray hfree) <| .cons (.mapping <| .cons (.scalar _) (.bytes hfree) .nil) .nil⟩ .nil
  obtain ⟨u, hparse, hexpand⟩ := hbytes ⟨.char 'x' rfl, []⟩
  obtain ⟨accented, haccented, hwell⟩ :=
    hexpand [0xC3, 0xA9] _ (.inl rfl) [] bytes (.ofTable bytes) {} {} rfl rfl
  obtain ⟨replaced, hreplaced, hill⟩ :=
    hexpand [0xED, 0xA0, 0x80] _ (.inl rfl) [] surrogate (.ofTable surrogate) {} {} rfl rfl
  have hsequence : Utf8.WellFormed [0xC3, 0xA9] := .append (.two (by decide) (by decide)) .nil
  have hsurrogate : ¬ Utf8.WellFormed [0xED, 0xA0, 0x80] := by
    rw [← Utf8.utf8_decodeReplacing_iff]
    decide
  exact ⟨rfl, hsame t [] texts _ [] bytes _ rfl rfl hrelated, rfl, u, hparse, ⟨accented, haccented, hwell.2 hsequence⟩,
    replaced, hreplaced, fun h => hsurrogate (hill.1 h)⟩

end UriTemplate
