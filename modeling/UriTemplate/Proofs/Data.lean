import UriTemplate.Document
import UriTemplate.Proofs.Interruption
import UriTemplate.Proofs.KeyTexts
import UriTemplate.Proofs.OptionValues

/-!
# Data

Values from JSON files and from options are data: they have no streams in them, and no objects.

* `Value.IsData` — what data is; `Value.IsData.rereadable` — it may be read again;
* `Value.IsData.eq_of_holdsFault`, `Value.IsData.eq_of_breaks` — the only single values in data without a text are integers
  that are too long;
* `Json.isData_of_read`, `ValueOptions.isData_of_read` — JSON values and the values of options are data;
* `DocumentReader.OnlyRejects`, `DocumentReader.BlamesValues`, `DocumentReader.GivesData` — what may be known of a reader of
  documents.
-/

namespace UriTemplate

/-- Nothing in the value is a stream or an object. -/
inductive Value.IsData : Value → Prop
  | null : IsData .null
  | scalar {s : Scalar} (known : ∀ t, s ≠ .object t) : IsData (.scalar s)
  | sequence {kind : SequenceKind} {vs : List Value} (kept : ∀ id, kind ≠ .stream id) (items : ∀ v ∈ vs, IsData v) :
    IsData (.sequence kind vs)
  | mapping {es : List (Value × Value)} (keys : ∀ e ∈ es, IsData e.1) (values : ∀ e ∈ es, IsData e.2) :
    IsData (.mapping es)

/-! ## readers of documents -/

namespace DocumentReader

variable (reader : DocumentReader)

/-- If the reader breaks off, it is because a text or a number is not what it should be. -/
def BlamesValues : Prop := ∀ text r, reader text = .error (.raised r) → r.kind = .value

/-- Documents stand for data. -/
def GivesData : Prop := ∀ text v, reader text = .ok v → v.IsData

end DocumentReader

/-! ## data that has no text -/

namespace Value

theorem IsData.text (t : Text) : (Value.text t).IsData := .scalar nofun

theorem rereadableItems_of_forall {vs : List Value} (h : ∀ v ∈ vs, v.Rereadable) : RereadableItems vs := by
  induction vs with
  | nil => trivial
  | cons v vs ih =>
    obtain ⟨hv, hvs⟩ := List.forall_mem_cons.1 h
    exact ⟨hv, ih hvs⟩

theorem rereadableEntries_of_forall {es : List (Value × Value)} (h : ∀ e ∈ es, e.1.Rereadable ∧ e.2.Rereadable) :
    RereadableEntries es := by
  induction es with
  | nil => trivial
  | cons e es ih =>
    obtain ⟨⟨hkey, hv⟩, hes⟩ := List.forall_mem_cons.1 h
    exact ⟨hkey, hv, ih hes⟩

theorem IsData.rereadable {v : Value} (h : v.IsData) : v.Rereadable := by
  induction h with
  | null => trivial
  | scalar => trivial
  | @sequence kind vs kept items ih =>
    have hitems := rereadableItems_of_forall ih
    cases kind with
    | stream id => exact absurd rfl (kept id)
    | _ => exact hitems
  | mapping keys values ihk ihv => exact rereadableEntries_of_forall fun e he => ⟨ihk e he, ihv e he⟩

theorem IsData.eq_of_holdsFault {v : Value} (hd : v.IsData) {f : Fault} (h : v.HoldsFault f) : f = .integerTooLong := by
  induction h with
  | int long => rfl
  | object r =>
    cases hd with
    | scalar known => exact absurd rfl (known _)
  | item mem fault ih =>
    cases hd with
    | sequence kept items => exact ih (items _ mem)
  | key mem fault ih =>
    cases hd with
    | mapping keys values => exact ih (keys _ mem)
  | value mem fault ih =>
    cases hd with
    | mapping keys values => exact ih (values _ mem)

/-- **Reading data breaks off only at an integer that is too long.** -/
theorem IsData.eq_of_breaks {v : Value} (hd : v.IsData) {w w' : World} {e : Fault} (h : v.Breaks w e w') :
    e = .integerTooLong := by
  induction h with
  | @text s e w fault =>
    cases hd with
    | scalar known =>
      rcases s.toText_cases with ⟨t, ht⟩ | ⟨i, rfl, long⟩ | ⟨r, rfl⟩
      · cases ht.symm.trans fault
      · cases (intText_of_long long).symm.trans fault
        rfl
      · exact absurd rfl (known _)
  | item read done fault ih =>
    cases hd with
    | sequence kept items =>
      rcases SequenceKind.read_cases read with hvs | hnil
      · exact ih (items _ (by rw [← hvs]; simp))
      · simp at hnil
  | @value before after key v _ _ _ _ _ done fault ih =>
    cases hd with
    | mapping keys values => exact ih (values (key, v) (by simp))
  | @key before after key v _ _ _ _ _ _ _ done value written fault ih =>
    cases hd with
    | mapping keys values => exact ih (keys (key, v) (by simp))

end Value

/-! ## JSON -/

/-- An entry of a table into which a value was put. -/
theorem Table.mem_put {κ ν : Type} [BEq κ] {table : Table κ ν} {key : κ} {value : ν} {e : κ × ν}
    (h : e ∈ table.put key value) : e ∈ table ∨ ((e.1 = key ∨ e.1 ∈ table.keys) ∧ e.2 = value) := by
  induction table with
  | nil =>
    obtain rfl := List.mem_singleton.1 h
    exact .inr ⟨.inl rfl, rfl⟩
  | cons a table ih =>
    rw [put] at h
    split at h
    · rcases List.mem_cons.1 h with rfl | h
      · exact .inr ⟨.inr (by simp [keys]), rfl⟩
      · exact .inl (List.mem_cons_of_mem _ h)
    · rcases List.mem_cons.1 h with rfl | h
      · exact .inl List.mem_cons_self
      · rcases ih h with h | ⟨hkey, hvalue⟩
        · exact .inl (List.mem_cons_of_mem _ h)
        · exact .inr ⟨hkey.imp id fun h => List.mem_cons_of_mem _ h, hvalue⟩

/-- Keys and values that a table has are those that were put in. -/
theorem Table.forall_put {κ ν : Type} [BEq κ] {P : κ → Prop} {Q : ν → Prop} {table : Table κ ν} {key : κ} {value : ν}
    (ht : ∀ e ∈ table, P e.1 ∧ Q e.2) (hkey : P key) (hvalue : Q value) : ∀ e ∈ table.put key value, P e.1 ∧ Q e.2 := by
  intro e he
  rcases Table.mem_put he with he | ⟨hfirst | hfirst, hsecond⟩
  · exact ht e he
  · exact ⟨hfirst ▸ hkey, hsecond ▸ hvalue⟩
  · obtain ⟨a, ha, heq⟩ := List.mem_map.1 hfirst
    exact ⟨heq ▸ (ht a ha).1, hsecond ▸ hvalue⟩

theorem Table.forall_update {κ ν : Type} [BEq κ] {P : κ → Prop} {Q : ν → Prop} {es table : Table κ ν}
    (hes : ∀ e ∈ es, P e.1 ∧ Q e.2) (ht : ∀ e ∈ table, P e.1 ∧ Q e.2) : ∀ e ∈ table.update es, P e.1 ∧ Q e.2 := by
  induction es generalizing table with
  | nil => exact ht
  | cons p es ih =>
    obtain ⟨hp, hes⟩ := List.forall_mem_cons.1 hes
    rw [Table.update_cons]
    exact ih hes (Table.forall_put ht hp.1 hp.2)

theorem Table.forall_mem_update {κ ν : Type} [BEq κ] {Q : ν → Prop} {es table : Table κ ν} (hes : ∀ e ∈ es, Q e.2)
    (ht : ∀ e ∈ table, Q e.2) : ∀ e ∈ table.update es, Q e.2 := by
  have hall : ∀ e ∈ table.update es, True ∧ Q e.2 :=
    Table.forall_update (P := fun _ => True) (fun e he => ⟨trivial, hes e he⟩) fun e he => ⟨trivial, ht e he⟩
  exact fun e he => (hall e he).2

theorem Table.forall_mem_ofList {κ ν : Type} [BEq κ] {Q : ν → Prop} {es : Table κ ν} (hes : ∀ e ∈ es, Q e.2) :
    ∀ e ∈ Table.ofList es, Q e.2 := Table.forall_mem_update hes nofun

theorem Table.exists_mem_of_get? {κ ν : Type} [BEq κ] {table : Table κ ν} {key : κ} {value : ν}
    (h : table.get? key = some value) : ∃ k, (k, value) ∈ table := by
  induction table with
  | nil => cases h
  | cons e table ih =>
    obtain ⟨k, v⟩ := e
    rw [get?, List.lookup_cons] at h
    split at h
    · cases h
      exact ⟨k, List.mem_cons_self⟩
    · obtain ⟨k', hmem⟩ := ih h
      exact ⟨k', List.mem_cons_of_mem _ hmem⟩

theorem Value.isData_ofEntries {es : List (Value × Value)} (h : ∀ e ∈ es, e.1.IsData ∧ e.2.IsData) :
    (Value.ofEntries es).IsData := by
  have hall : ∀ e ∈ Table.update [] es, e.1.IsData ∧ e.2.IsData :=
    Table.forall_update h (List.forall_mem_nil _)
  exact .mapping (fun e he => (hall e he).1) fun e he => (hall e he).2

namespace Json

theorem isData_of_words {w : String × Value} (h : w ∈ words) : w.2.IsData := by
  simp only [words, List.mem_cons, List.not_mem_nil, or_false] at h
  rcases h with rfl | rfl | rfl | rfl | rfl | rfl
  · exact .null
  all_goals exact .scalar nofun

theorem isData_of_number {t rest : Text} {v : Value} (h : number t = .ok (v, rest)) : v.IsData := by
  unfold number at h
  extract_lets negative t' digits at h
  split at h
  · cases h
  · dsimp only at h
    split at h
    · split at h
      · cases h
      · cases h
        exact .scalar nofun
    · split at h
      · cases h
        exact .scalar nofun
      · cases h

/-- Values, items and entries of JSON are data, by the fuel that they are read with. -/
theorem isData_of_fuel (fuel : Nat) :
    (∀ t v rest, value fuel t = .ok (v, rest) → v.IsData) ∧
    (∀ t vs rest, items fuel t = .ok (vs, rest) → ∀ v ∈ vs, v.IsData) ∧
    ∀ t es rest, entries fuel t = .ok (es, rest) → ∀ e ∈ es, e.1.IsData ∧ e.2.IsData := by
  induction fuel with
  | zero =>
    refine ⟨fun t v rest h => ?_, fun t vs rest h => ?_, fun t es rest h => ?_⟩
    · rw [value] at h
      cases h
    · rw [items] at h
      cases h
    · rw [entries] at h
      cases h
  | succ fuel ih =>
    obtain ⟨ihv, ihi, ihe⟩ := ih
    refine ⟨fun t v rest h => ?_, fun t vs rest h => ?_, fun t es rest h => ?_⟩
    · cases t with
      | nil =>
        unfold value at h
        cases h
      | cons c t =>
        rw [value] at h
        split at h
        · obtain ⟨⟨text, t₁⟩, -, h⟩ := Except.bind_eq_ok_iff.1 h
          cases h
          exact .text text
        split at h
        · dsimp only at h
          split at h
          · cases h
            exact .sequence nofun (by simp)
          · obtain ⟨⟨vs, t₁⟩, hitems, h⟩ := Except.bind_eq_ok_iff.1 h
            cases h
            exact .sequence nofun (ihi _ _ _ hitems)
        split at h
        · dsimp only at h
          split at h
          · cases h
            exact .mapping (by simp) (by simp)
          · obtain ⟨⟨es, t₁⟩, hentries, h⟩ := Except.bind_eq_ok_iff.1 h
            cases h
            exact Value.isData_ofEntries (ihe _ _ _ hentries)
        split at h
        · rename_i found hfound
          obtain ⟨w, hw, hmap⟩ := List.exists_of_findSome?_eq_some hfound
          obtain ⟨r, -, rfl⟩ := Option.map_eq_some_iff.1 hmap
          cases h
          exact isData_of_words hw
        · exact isData_of_number h
    · rw [items] at h
      obtain ⟨⟨v, t₁⟩, hv, h⟩ := Except.bind_eq_ok_iff.1 h
      dsimp only at h
      split at h
      · cases h
        exact List.forall_mem_singleton.2 (ihv _ _ _ hv)
      · obtain ⟨⟨us, t₂⟩, hus, h⟩ := Except.bind_eq_ok_iff.1 h
        cases h
        exact List.forall_mem_cons.2 ⟨ihv _ _ _ hv, ihi _ _ _ hus⟩
      · cases h
    · rw [entries] at h
      split at h
      · cases h
      · obtain ⟨⟨name, t₁⟩, -, h⟩ := Except.bind_eq_ok_iff.1 h
        dsimp only at h
        split at h
        · cases h
        · obtain ⟨⟨v, t₂⟩, hv, h⟩ := Except.bind_eq_ok_iff.1 h
          dsimp only at h
          split at h
          · cases h
            exact List.forall_mem_singleton.2 ⟨.text name, ihv _ _ _ hv⟩
          · obtain ⟨⟨es', t₃⟩, hes, h⟩ := Except.bind_eq_ok_iff.1 h
            cases h
            exact List.forall_mem_cons.2 ⟨⟨.text name, ihv _ _ _ hv⟩, ihe _ _ _ hes⟩
          · cases h

/-- **JSON values are data.** -/
theorem isData_of_read {t : Text} {v : Value} (h : read t = .ok v) : v.IsData := by
  have h := document_of_read h
  unfold document at h
  split at h
  · cases h
  · obtain ⟨⟨u, rest⟩, hvalue, h⟩ := Except.bind_eq_ok_iff.1 h
    dsimp only at h
    split at h
    · cases h
      exact (isData_of_fuel _).1 _ _ _ hvalue
    · cases h

end Json

/-! ## options -/

namespace CommandLine

theorem isData_listValue (text : Text) : (listValue text).IsData := by
  unfold listValue
  split
  · exact .sequence nofun (by simp)
  · exact .sequence nofun (List.forall_mem_map.2 fun t _ => .text t)

theorem isData_of_mapValue {text : Text} {v : Value} (h : mapValue text = .ok v) : v.IsData := by
  obtain ⟨pairs, -, h⟩ := Except.bind_eq_ok_iff.1 h
  cases h
  exact .mapping (List.forall_mem_map.2 fun e _ => .text e.1) (List.forall_mem_map.2 fun e _ => .text e.2)

theorem forall_isData_assignAll {read : Text → Except Fault Value} (hread : ∀ text v, read text = .ok v → v.IsData)
    {values values' : Table Text Value} (hvalues : ∀ e ∈ values, e.2.IsData) {specs : List (Option Text)}
    (h : assignAll read values specs = .ok values') : ∀ e ∈ values', e.2.IsData := by
  induction specs generalizing values with
  | nil =>
    obtain rfl : values = values' := Except.ok.inj h
    exact hvalues
  | cons spec specs ih =>
    rw [assignAll_cons, Except.bind_eq_ok_iff] at h
    obtain ⟨⟨n, text⟩, -, h⟩ := h
    obtain ⟨v, hv, h⟩ := Except.bind_eq_ok_iff.1 h
    refine ih (fun e he => ?_) h
    rcases Table.mem_put he with he | ⟨-, heq⟩
    · exact hvalues e he
    · exact heq ▸ hread text v hv

theorem forall_isData_objectValues {v : Value} (hv : v.IsData) {values : Table Text Value}
    (h : objectValues v = .ok values) : ∀ e ∈ values, e.2.IsData := by
  cases hv with
  | mapping keys data =>
    cases h
    intro e he
    obtain ⟨p, hp, heq⟩ := List.mem_filterMap.1 he
    split at heq
    · cases heq
      exact data p hp
    · cases heq
  | null => cases h
  | scalar => cases h
  | sequence => cases h

theorem forall_isData_jsonValues {content : Bytes} {values : Table Text Value} (h : jsonValues content = .ok values) :
    ∀ e ∈ values, e.2.IsData := by
  unfold jsonValues at h
  split at h
  · cases h
  · split at h
    · cases h
    · cases h
    · exact forall_isData_objectValues (Json.isData_of_read ‹_›) h

/-- **The values of options are data.** -/
theorem ValueOptions.isData_of_read {o : ValueOptions} {fs : FileSystem} {input : Bytes} {values : Table Text Value}
    (h : o.read fs input = .ok values) : ∀ e ∈ values, e.2.IsData := by
  rw [read_eq, Except.bind_eq_ok_iff] at h
  obtain ⟨document, hdocument, h⟩ := h
  obtain ⟨single, hsingle, h⟩ := Except.bind_eq_ok_iff.1 h
  obtain ⟨listed, hlisted, h⟩ := Except.bind_eq_ok_iff.1 h
  have hjson : ∀ e ∈ document, e.2.IsData := by
    unfold ValueOptions.document at hdocument
    split at hdocument
    · cases hdocument
      exact nofun
    · cases hdocument
      exact nofun
    · obtain ⟨content, -, hvalues⟩ := Except.bind_eq_ok_iff.1 hdocument
      exact forall_isData_jsonValues hvalues
  have hsingles := forall_isData_assignAll (fun text v hv => Except.ok.inj hv ▸ .text text) hjson hsingle
  have hlists := forall_isData_assignAll (fun text v hv => Except.ok.inj hv ▸ isData_listValue text) hsingles hlisted
  exact forall_isData_assignAll (fun _ _ hv => isData_of_mapValue hv) hlists h

end CommandLine

end UriTemplate
