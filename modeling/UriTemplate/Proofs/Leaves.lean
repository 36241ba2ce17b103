import UriTemplate.Proofs.Splitting
import UriTemplate.Serialize

/-!
# The leaves of a value

A value is serialized in two steps: its single values are read, and what was read is encoded and joined with commas.

* `Value.vacuous` — values that have nothing to write;
* `Value.leaves` — the texts of the single values in a value, from left to right; `Value.readLeaves` — reading them,
  which may use up streams and may fail;
* `Value.Rereadable`, `Value.Converts` — values without streams, and values whose single values have a text;
* `encoded` — leaves as one text;
* `serialize_eq`, `serializeClassified_eq` — serialization is reading and encoding.
-/

namespace UriTemplate

/-- What stands for a key: its leaves, or an empty text if it has none. -/
def keyLeaves (leaves : List Text) : List Text := if leaves = [] then [[]] else leaves

namespace Value

mutual
/-- Null, and what is made of nothing else at any depth. -/
def vacuous : Value → Bool
  | null => true
  | scalar _ => false
  | sequence _ items => vacuousItems items
  | mapping entries => vacuousEntries entries
def vacuousItems : List Value → Bool
  | [] => true
  | v :: vs => vacuous v && vacuousItems vs
def vacuousEntries : List (Value × Value) → Bool
  | [] => true
  | (_, v) :: es => vacuous v && vacuousEntries es
end

/-- The text of a single value, if it has one. -/
def scalarText (s : Scalar) : Text :=
  match s.toText with
  | .ok t => t
  | .error _ => []

mutual
/-- The texts of the single values.  In a mapping keys and values take turns, and a pair counts only if its value has
leaves. -/
def leaves : Value → List Text
  | null => []
  | scalar s => [scalarText s]
  | sequence _ items => leavesItems items
  | mapping entries => leavesEntries entries
def leavesItems : List Value → List Text
  | [] => []
  | v :: vs => leaves v ++ leavesItems vs
def leavesEntries : List (Value × Value) → List Text
  | [] => []
  | (key, v) :: es =>
    if leaves v = [] then leavesEntries es else keyLeaves (leaves key) ++ leaves v ++ leavesEntries es
end

mutual
/-- Reads the leaves, in the order in which an expansion does: the value of a pair comes before its key. -/
def readLeaves : Value → Act (List Text)
  | null => return []
  | scalar s => return [← Act.ofExcept s.toText]
  | sequence kind items => do
    match kind with
    | .stream id => if ← Act.drain id then readLeavesItems items else return []
    | _ => readLeavesItems items
  | mapping entries => readLeavesEntries entries
def readLeavesItems : List Value → Act (List Text)
  | [] => return []
  | v :: vs => return (← readLeaves v) ++ (← readLeavesItems vs)
def readLeavesEntries : List (Value × Value) → Act (List Text)
  | [] => return []
  | (key, v) :: es => do
    let texts ← readLeaves v
    if texts = [] then readLeavesEntries es
    else return keyLeaves (← readLeaves key) ++ texts ++ (← readLeavesEntries es)
end

mutual
/-- No stream occurs in the value, so that it may be read again. -/
def Rereadable : Value → Prop
  | null | scalar _ => True
  | sequence (.stream _) _ => False
  | sequence _ items => RereadableItems items
  | mapping entries => RereadableEntries entries
def RereadableItems : List Value → Prop
  | [] => True
  | v :: vs => Rereadable v ∧ RereadableItems vs
def RereadableEntries : List (Value × Value) → Prop
  | [] => True
  | (key, v) :: es => Rereadable key ∧ Rereadable v ∧ RereadableEntries es
end

mutual
/-- Every single value has a text; the keys of vacuous values do not matter. -/
def Converts : Value → Prop
  | null => True
  | scalar s => ∃ t, s.toText = .ok t
  | sequence _ items => ConvertsItems items
  | mapping entries => ConvertsEntries entries
def ConvertsItems : List Value → Prop
  | [] => True
  | v :: vs => Converts v ∧ ConvertsItems vs
def ConvertsEntries : List (Value × Value) → Prop
  | [] => True
  | (key, v) :: es => (vacuous v = false → Converts key) ∧ Converts v ∧ ConvertsEntries es
end

/-! ## vacuous values have no leaves -/

mutual
/-- **Vacuous values are those without leaves.** -/
theorem leaves_eq_nil_iff (v : Value) : leaves v = [] ↔ vacuous v = true := by
  cases v with
  | null => simp [leaves, vacuous]
  | scalar s => simp [leaves, vacuous]
  | sequence kind items => rw [leaves, vacuous]; exact leavesItems_eq_nil_iff items
  | mapping entries => rw [leaves, vacuous]; exact leavesEntries_eq_nil_iff entries
theorem leavesItems_eq_nil_iff (vs : List Value) : leavesItems vs = [] ↔ vacuousItems vs = true := by
  cases vs with
  | nil => simp [leavesItems, vacuousItems]
  | cons v vs =>
    rw [leavesItems, vacuousItems, List.append_eq_nil_iff, Bool.and_eq_true, leaves_eq_nil_iff v,
      leavesItems_eq_nil_iff vs]
theorem leavesEntries_eq_nil_iff (es : List (Value × Value)) : leavesEntries es = [] ↔ vacuousEntries es = true := by
  match es with
  | [] => simp [leavesEntries, vacuousEntries]
  | (key, v) :: es =>
    have hv := leaves_eq_nil_iff v
    rw [leavesEntries, vacuousEntries, Bool.and_eq_true, ← hv, ← leavesEntries_eq_nil_iff es]
    by_cases h : leaves v = []
    · simp [h]
    · simp [h]
end

theorem leaves_ne_nil (v : Value) (h : vacuous v = false) : leaves v ≠ [] := by
  intro hnil
  rw [leaves_eq_nil_iff, h] at hnil
  cases hnil

/-! ## reading -/

mutual
/-- Without streams and with a text for every single value, reading changes nothing and gives the leaves. -/
theorem readLeaves_eq_pure (v : Value) (hr : Rereadable v) (hc : Converts v) : readLeaves v = pure (leaves v) := by
  cases v with
  | null => rfl
  | scalar s =>
    obtain ⟨t, ht⟩ := hc
    rw [readLeaves, leaves, scalarText, ht]
    rfl
  | sequence kind items =>
    rw [leaves]
    cases kind with
    | stream => exact absurd hr id
    | list => exact readLeavesItems_eq_pure items hr hc
    | tuple => exact readLeavesItems_eq_pure items hr hc
    | set => exact readLeavesItems_eq_pure items hr hc
    | range => exact readLeavesItems_eq_pure items hr hc
  | mapping entries =>
    rw [readLeaves, leaves]
    exact readLeavesEntries_eq_pure entries hr hc
theorem readLeavesItems_eq_pure (vs : List Value) (hr : RereadableItems vs) (hc : ConvertsItems vs) :
    readLeavesItems vs = pure (leavesItems vs) := by
  cases vs with
  | nil => rfl
  | cons v vs =>
    rw [readLeavesItems, leavesItems, readLeaves_eq_pure v hr.1 hc.1, readLeavesItems_eq_pure vs hr.2 hc.2]
    rfl
theorem readLeavesEntries_eq_pure (es : List (Value × Value)) (hr : RereadableEntries es) (hc : ConvertsEntries es) :
    readLeavesEntries es = pure (leavesEntries es) := by
  match es with
  | [] => rfl
  | (key, v) :: es =>
    have hes := readLeavesEntries_eq_pure es hr.2.2 hc.2.2
    rw [readLeavesEntries, leavesEntries, readLeaves_eq_pure v hr.2.1 hc.2.1, hes, pure_bind]
    by_cases h : leaves v = []
    · rw [if_pos h, if_pos h]
    · have hvacuous : vacuous v = false := by
        rwa [leaves_eq_nil_iff, Bool.not_eq_true] at h
      rw [if_neg h, if_neg h, readLeaves_eq_pure key hr.1 (hc.1 hvacuous)]
      rfl
end

end Value

/-! ## serialization -/

/-- Leaves as one text, if there are any. -/
def encoded (policy : Policy) (leaves : List Text) : Option Text := commaJoined (leaves.map (encode policy))

/-- Two texts with a comma between them, if both are there. -/
def commaAppend : Option Text → Option Text → Option Text
  | none, u => u
  | t, none => t
  | some t, some u => some (t ++ (',' : CodePoint) :: u)

theorem commaJoined_append (ts us : List Text) :
    commaJoined (ts ++ us) = commaAppend (commaJoined ts) (commaJoined us) := by
  cases ts with
  | nil => rfl
  | cons t ts =>
    cases us with
    | nil => rw [List.append_nil]; rfl
    | cons u us =>
      have h := Text.join_append (s := ",") (List.cons_ne_nil t ts) (List.cons_ne_nil u us)
      rw [List.append_assoc] at h
      exact congrArg some h

theorem commaJoined_toList (t : Option Text) : commaJoined t.toList = t := by
  cases t with
  | none => rfl
  | some t => exact congrArg some (Text.join_singleton "," t)

theorem commaJoined_cons_cons (t u : Text) (ts : List Text) :
    commaJoined (t :: u :: ts) = commaAppend (commaAppend (some t) (some u)) (commaJoined ts) := by
  have htu := commaJoined_append [t, u] ts
  rw [← commaJoined_toList (some t), ← commaJoined_toList (some u), ← commaJoined_append]
  exact htu

theorem encoded_append (policy : Policy) (ls ms : List Text) :
    encoded policy (ls ++ ms) = commaAppend (encoded policy ls) (encoded policy ms) := by
  rw [encoded, List.map_append, commaJoined_append]
  rfl

theorem encoded_eq_none_iff {policy : Policy} {ls : List Text} : encoded policy ls = none ↔ ls = [] := by
  cases ls <;> simp [encoded, commaJoined]

theorem exists_encoded (policy : Policy) {ls : List Text} (h : ls ≠ []) : ∃ text, encoded policy ls = some text :=
  Option.ne_none_iff_exists'.1 (mt encoded_eq_none_iff.1 h)

theorem encoded_singleton (policy : Policy) (t : Text) : encoded policy [t] = some (encode policy t) := by
  simp [encoded, commaJoined]

/-- An absent key is an empty text. -/
theorem encoded_keyLeaves (policy : Policy) (ls : List Text) :
    encoded policy (keyLeaves ls) = some ((encoded policy ls).getD []) := by
  unfold keyLeaves
  split
  · next h => rw [h]; rfl
  · next h =>
    cases he : encoded policy ls with
    | none => exact absurd (encoded_eq_none_iff.1 he) h
    | some t => rfl

open Value

mutual
/-- **Serialization is reading and encoding.** -/
theorem serialize_eq (policy : Policy) (v : Value) : serialize policy none v = encoded policy <$> readLeaves v := by
  cases v with
  | null => rfl
  | scalar s =>
    rw [serialize, readLeaves, map_eq_pure_bind, bind_assoc]
    congr 1
    funext t
    rw [pure_bind, encoded_singleton]
    rfl
  | sequence kind items =>
    have hitems := serializeItems_eq policy items
    cases kind with
    | stream id =>
      show (Act.drain id >>= fun b => if b then commaJoined <$> serializeItems policy items else pure none) =
        encoded policy <$> (Act.drain id >>= fun b => if b then readLeavesItems items else pure [])
      rw [map_bind]
      congr 1
      funext b
      cases b with
      | true => exact hitems
      | false => rfl
    | list => exact hitems
    | tuple => exact hitems
    | set => exact hitems
    | range => exact hitems
  | mapping entries =>
    rw [serialize, readLeaves]
    exact serializePairs_eq policy entries
theorem serializeItems_eq (policy : Policy) (vs : List Value) :
    commaJoined <$> serializeItems policy vs = encoded policy <$> readLeavesItems vs := by
  cases vs with
  | nil => rfl
  | cons v vs =>
    calc commaJoined <$> serializeItems policy (v :: vs)
        = (do return commaAppend (← serialize policy none v) (← commaJoined <$> serializeItems policy vs)) := by
          simp only [serializeItems, map_eq_pure_bind, bind_assoc, pure_bind, commaJoined_append, commaJoined_toList]
      _ = (do return commaAppend (← encoded policy <$> readLeaves v) (← encoded policy <$> readLeavesItems vs)) := by
          rw [serialize_eq policy v, serializeItems_eq policy vs]
      _ = encoded policy <$> readLeavesItems (v :: vs) := by
          simp only [readLeavesItems, map_eq_pure_bind, bind_assoc, pure_bind, encoded_append]
theorem serializePairs_eq (policy : Policy) (es : List (Value × Value)) :
    commaJoined <$> serializePairs policy es = encoded policy <$> readLeavesEntries es := by
  match es with
  | [] => rfl
  | (key, v) :: es =>
    have hes := serializePairs_eq policy es
    rw [serializePairs, readLeavesEntries, serialize_eq policy v, map_bind, map_bind, map_eq_pure_bind, bind_assoc]
    congr 1
    funext texts
    rw [pure_bind]
    by_cases h : texts = []
    · rw [if_pos h, h]
      exact hes
    · obtain ⟨text, htext⟩ := exists_encoded _ h
      rw [if_neg h, htext]
      calc commaJoined <$> (do
              return (← serialize policy none key).getD [] :: text :: (← serializePairs policy es))
          = (do
              let k ← serialize policy none key
              return commaAppend (commaAppend (some (k.getD [])) (some text)) (← commaJoined <$> serializePairs policy es))
            := by simp only [map_eq_pure_bind, bind_assoc, pure_bind, commaJoined_cons_cons]
        _ = (do
              let k ← encoded policy <$> readLeaves key
              return commaAppend (commaAppend (some (k.getD [])) (some text)) (← encoded policy <$> readLeavesEntries es))
            := by rw [serialize_eq policy key, hes]
        _ = encoded policy <$> (do return keyLeaves (← readLeaves key) ++ texts ++ (← readLeavesEntries es)) := by
            simp only [map_eq_pure_bind, bind_assoc, pure_bind, encoded_append, encoded_keyLeaves, htext]
end

/-! ## classified values -/

/-- Reads the leaves of a classified value.  A limit applies to a single value only. -/
def Classified.readLeaves (limit : Option Int) : Classified → Act (List Text)
  | .absent => return []
  | .scalar t => return [limitTo limit t]
  | .sequence items => readLeavesItems items
  | .mapping pairs => readLeavesEntries pairs

theorem serializeClassified_eq (policy : Policy) (limit : Option Int) (c : Classified) :
    serializeClassified policy limit c = encoded policy <$> c.readLeaves limit := by
  cases c with
  | absent => rfl
  | scalar t =>
    rw [serializeClassified, ← encoded_singleton]
    rfl
  | sequence items => exact serializeItems_eq policy items
  | mapping pairs => exact serializePairs_eq policy pairs

theorem Value.readLeaves_of_isNull {v : Value} (h : v.isNull = true) : v.readLeaves = pure [] := by
  cases v with
  | null => rfl
  | scalar => cases h
  | sequence => cases h
  | mapping => cases h

/-- Null members have no leaves. -/
theorem readLeaves_ofItems (limit : Option Int) (vs : List Value) :
    (Classified.ofItems vs).readLeaves limit = readLeavesItems vs := by
  have hfilter : readLeavesItems (vs.filter (!·.isNull)) = readLeavesItems vs := by
    induction vs with
    | nil => rfl
    | cons v vs ih =>
      cases h : v.isNull with
      | true =>
        rw [List.filter_cons_of_neg (by simp [h]), ih, readLeavesItems, readLeaves_of_isNull h, pure_bind]
        exact (bind_pure _).symm
      | false => rw [List.filter_cons_of_pos (by simp [h]), readLeavesItems, readLeavesItems, ih]
  unfold Classified.ofItems
  split
  · next h =>
    rw [← hfilter, h]
    rfl
  · exact hfilter

/-- Pairs with a null for their value have no leaves. -/
theorem readLeaves_ofPairs (limit : Option Int) (es : List (Value × Value)) :
    (Classified.ofPairs es).readLeaves limit = readLeavesEntries es := by
  have hfilter : readLeavesEntries (es.filter (!·.2.isNull)) = readLeavesEntries es := by
    induction es with
    | nil => rfl
    | cons e es ih =>
      obtain ⟨key, v⟩ := e
      cases h : v.isNull with
      | true =>
        rw [List.filter_cons_of_neg (by simp [h]), ih, readLeavesEntries, readLeaves_of_isNull h, pure_bind, if_pos rfl]
      | false => rw [List.filter_cons_of_pos (by simp [h]), readLeavesEntries, readLeavesEntries, ih]
  unfold Classified.ofPairs
  split
  · next h =>
    rw [← hfilter, h]
    rfl
  · exact hfilter

end UriTemplate
