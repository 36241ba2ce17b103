import UriTemplate.CommandLine.Values
import UriTemplate.Proofs.Tables

/-!
# Values of options

The options of an expansion are read kind by kind into one table, over the values of a JSON file.

* `Except.bind_eq_ok_iff`, `Except.bind_eq_error_iff` — one step after another one;
* `assignAll_get?`, `assignAll_error` — what the specifications of one kind assign, and what they fail with;
* `Json.read_mapping` — the names of an object are texts, and none of them is repeated;
* `ValueOptions.document` — the values of the JSON file; `ValueOptions.read_eq` — the layers above it.
-/

namespace UriTemplate

section

variable {ε α β : Type} {x : Except ε α} {f : α → Except ε β}

theorem Except.bind_eq_ok_iff {b : β} : x >>= f = .ok b ↔ ∃ a, x = .ok a ∧ f a = .ok b := by
  cases x with
  | ok a => exact ⟨fun h => ⟨a, rfl, h⟩, fun ⟨_, ha, h⟩ => by cases ha; exact h⟩
  | error e => exact ⟨nofun, fun ⟨_, ha, _⟩ => nomatch ha⟩

theorem Except.bind_eq_error_iff {e : ε} :
    x >>= f = .error e ↔ x = .error e ∨ ∃ a, x = .ok a ∧ f a = .error e := by
  cases x with
  | ok a =>
    constructor
    · exact fun h => .inr ⟨a, rfl, h⟩
    · rintro (h | ⟨_, ⟨⟩, h⟩)
      · cases h
      · exact h
  | error e' =>
    constructor
    · rintro ⟨⟩
      exact .inl rfl
    · rintro (⟨⟨⟩⟩ | ⟨_, h, -⟩)
      · rfl
      · cases h

end

namespace CommandLine

/-! ## specifications -/

/-- What a specification assigns to the name, if it assigns anything to it. -/
def assigned? (read : Text → Except Fault Value) (name : Text) (spec : Option Text) : Option Value :=
  match assignment (spec.getD missing) with
  | .ok (n, text) => if name = n then (read text).toOption else none
  | .error _ => none

/-- What the last one of the specifications with this name assigns to it. -/
def lastAssigned? (read : Text → Except Fault Value) (name : Text) : List (Option Text) → Option Value
  | [] => none
  | spec :: specs => (lastAssigned? read name specs).or (assigned? read name spec)

section

variable {read : Text → Except Fault Value} {values values' : Table Text Value} {specs : List (Option Text)}

theorem assignAll_cons (spec : Option Text) :
    assignAll read values (spec :: specs) = (do
      let e ← assignment (spec.getD missing)
      let v ← read e.2
      assignAll read (values.put e.1 v) specs) := by
  unfold assignAll
  rw [List.foldlM_cons, bind_assoc]
  refine congrArg (assignment (spec.getD missing) >>= ·) (funext fun e => ?_)
  rw [bind_assoc]
  exact congrArg (read e.2 >>= ·) (funext fun v => pure_bind _ _)

/-- **The last specification counts**, and what was there is left for the other names. -/
theorem assignAll_get? (h : assignAll read values specs = .ok values') (name : Text) :
    values'.get? name = (lastAssigned? read name specs).or (values.get? name) := by
  induction specs generalizing values with
  | nil =>
    obtain rfl : values = values' := Except.ok.inj h
    rfl
  | cons spec specs ih =>
    rw [assignAll_cons, Except.bind_eq_ok_iff] at h
    obtain ⟨⟨n, text⟩, hspec, h⟩ := h
    obtain ⟨v, hv, h⟩ := Except.bind_eq_ok_iff.1 h
    rw [ih h, lastAssigned?, assigned?, hspec, Table.get?_put, Option.or_assoc]
    simp only [hv]
    split <;> rfl

theorem nodup_keys_assignAll (h : assignAll read values specs = .ok values') (hd : values.keys.Nodup) :
    values'.keys.Nodup := by
  induction specs generalizing values with
  | nil =>
    obtain rfl : values = values' := Except.ok.inj h
    exact hd
  | cons spec specs ih =>
    rw [assignAll_cons, Except.bind_eq_ok_iff] at h
    obtain ⟨e, -, h⟩ := h
    obtain ⟨v, -, h⟩ := Except.bind_eq_ok_iff.1 h
    exact ih h (Table.nodup_keys_put hd e.1 v)

theorem assignment_error {spec : Text} {f : Fault} (h : assignment spec = .error f) : ∃ e, f = .option e := by
  unfold assignment at h
  split at h
  · exact ⟨_, (Except.error.inj h).symm⟩
  · split at h
    · exact ⟨_, (Except.error.inj h).symm⟩
    · cases h

theorem assignAll_error (hread : ∀ text f, read text = .error f → ∃ e, f = .option e) {f : Fault}
    (h : assignAll read values specs = .error f) : ∃ e, f = .option e := by
  induction specs generalizing values with
  | nil => cases h
  | cons spec specs ih =>
    rw [assignAll_cons, Except.bind_eq_error_iff] at h
    rcases h with h | ⟨e, -, h⟩
    · exact assignment_error h
    · rcases Except.bind_eq_error_iff.1 h with h | ⟨v, -, h⟩
      · exact hread _ _ h
      · exact ih h

end

theorem mapM_assignment_error {specs : List Text} {f : Fault} (h : specs.mapM assignment = .error f) :
    ∃ e, f = .option e := by
  induction specs with
  | nil => cases h
  | cons spec specs ih =>
    rw [List.mapM_cons, Except.bind_eq_error_iff] at h
    rcases h with h | ⟨e, -, h⟩
    · exact assignment_error h
    · rcases Except.bind_eq_error_iff.1 h with h | ⟨es, -, h⟩
      · exact ih h
      · cases h

theorem mapValue_error {value : Text} {f : Fault} (h : mapValue value = .error f) : ∃ e, f = .option e := by
  rcases Except.bind_eq_error_iff.1 h with h | ⟨pairs, -, h⟩
  · exact mapM_assignment_error h
  · cases h

end CommandLine

/-! ## tables with texts for keys -/

namespace Table

/-- The table as the entries of a mapping. -/
def entries (d : Table Text Value) : List (Value × Value) := d.map fun e => (.text e.1, e.2)

theorem put_entries (d : Table Text Value) (name : Text) (v : Value) :
    put d.entries (.text name) v = (d.put name v).entries := by
  have hkey : ∀ a b : Text, (Value.text a == Value.text b) = (a == b) := by
    intro a b
    show (Scalar.text a == Scalar.text b) = (a == b)
    rw [Bool.eq_iff_iff, beq_iff_eq, beq_iff_eq, Scalar.text.injEq]
  induction d with
  | nil => rfl
  | cons e d ih =>
    have hcons : entries (e :: d) = (.text e.1, e.2) :: entries d := rfl
    rw [hcons, put, put, hkey, ih]
    split <;> rfl

theorem update_entries (d new : Table Text Value) : update d.entries new.entries = (d.update new).entries := by
  induction new generalizing d with
  | nil => rfl
  | cons e new ih =>
    have hcons : entries (e :: new) = (.text e.1, e.2) :: entries new := rfl
    rw [hcons, update_cons, update_cons, put_entries, ih]

end Table

/-! ## JSON objects -/

namespace Json

theorem exists_entries {fuel : Nat} {t rest : Text} {es : List (Value × Value)} (h : entries fuel t = .ok (es, rest)) :
    ∃ d : Table Text Value, es = d.entries := by
  induction fuel generalizing t es with
  | zero =>
    unfold entries at h
    cases h
  | succ fuel ih =>
    unfold entries at h
    split at h
    · cases h
    · obtain ⟨⟨name, t₁⟩, -, h⟩ := Except.bind_eq_ok_iff.1 h
      dsimp only at h
      split at h
      · cases h
      · obtain ⟨⟨v, t₂⟩, -, h⟩ := Except.bind_eq_ok_iff.1 h
        dsimp only at h
        split at h
        · cases h
          exact ⟨[(name, v)], rfl⟩
        · obtain ⟨⟨vs, t₃⟩, hentries, h⟩ := Except.bind_eq_ok_iff.1 h
          cases h
          obtain ⟨d, rfl⟩ := ih hentries
          exact ⟨(name, v) :: d, rfl⟩
        · cases h

theorem word_ne_mapping {w : String × Value} (h : w ∈ words) (es : List (Value × Value)) : w.2 ≠ .mapping es := by
  have hall : ∀ w ∈ words, w.2.typeName ≠ "dict" := by decide
  intro heq
  exact hall w h (by rw [heq]; rfl)

theorem number_ne_mapping {t rest : Text} {es : List (Value × Value)} : number t ≠ .ok (.mapping es, rest) := by
  intro h
  unfold number at h
  extract_lets negative t' digits at h
  split at h
  · cases h
  · dsimp only at h
    split at h
    · split at h <;> cases h
    · split at h <;> cases h

/-- **The names of an object** are texts, and none of them is repeated. -/
theorem value_mapping {fuel : Nat} {t rest : Text} {es : List (Value × Value)}
    (h : value fuel t = .ok (.mapping es, rest)) : ∃ d : Table Text Value, es = d.entries ∧ d.keys.Nodup := by
  unfold value at h
  split at h
  · cases h
  · cases h
  · split at h
    · obtain ⟨⟨name, t₁⟩, -, h⟩ := Except.bind_eq_ok_iff.1 h
      cases h
    · split at h
      · dsimp only at h
        split at h
        · cases h
        · obtain ⟨⟨vs, t₁⟩, -, h⟩ := Except.bind_eq_ok_iff.1 h
          cases h
      · split at h
        · dsimp only at h
          split at h
          · cases h
            exact ⟨[], rfl, List.nodup_nil⟩
          · obtain ⟨⟨es', t₁⟩, hentries, h⟩ := Except.bind_eq_ok_iff.1 h
            cases h
            obtain ⟨d, rfl⟩ := exists_entries hentries
            exact ⟨Table.ofList d, Table.update_entries [] d, Table.nodup_keys_ofList d⟩
        · split at h
          · -- none of the words stands for a mapping
            rename_i found hfound
            obtain ⟨w, hw, hmap⟩ := List.exists_of_findSome?_eq_some hfound
            obtain ⟨r, -, rfl⟩ := Option.map_eq_some_iff.1 hmap
            exact absurd (Prod.mk.inj (Except.ok.inj h)).1 (word_ne_mapping hw es)
          · exact absurd h number_ne_mapping

theorem document_of_read {t : Text} {v : Value} (h : read t = .ok v) : document t = .ok v := by
  unfold read at h
  cases hdocument : document t with
  | error s =>
    rw [hdocument] at h
    cases h
  | ok w =>
    rw [hdocument] at h
    exact congrArg Except.ok (Except.ok.inj h)

theorem read_mapping {t : Text} {es : List (Value × Value)} (h : read t = .ok (.mapping es)) :
    ∃ d : Table Text Value, es = d.entries ∧ d.keys.Nodup := by
  have h := document_of_read h
  unfold document at h
  split at h
  · cases h
  · obtain ⟨⟨v, rest⟩, hvalue, h⟩ := Except.bind_eq_ok_iff.1 h
    dsimp only at h
    split at h
    · cases h
      exact value_mapping hvalue
    · cases h

end Json

namespace CommandLine

/-! ## the JSON file -/

theorem objectValues_entries (d : Table Text Value) : objectValues (.mapping d.entries) = .ok d := by
  rw [objectValues, Table.entries, List.filterMap_map]
  exact congrArg Except.ok List.filterMap_some

/-- The values of an object are those under its names. -/
theorem jsonValues_ok {content : Bytes} {values : Table Text Value} (h : jsonValues content = .ok values) :
    values.keys.Nodup := by
  unfold jsonValues at h
  split at h
  · cases h
  · split at h
    · cases h
    · cases h
    · rename_i v hread
      cases v with
      | mapping es =>
        obtain ⟨d, rfl, hd⟩ := Json.read_mapping hread
        rw [objectValues_entries] at h
        cases h
        exact hd
      | null => cases h
      | scalar s => cases h
      | sequence kind items => cases h

theorem jsonValues_error {content : Bytes} {f : Fault} (h : jsonValues content = .error f) : f.isReported = true := by
  unfold jsonValues at h
  split at h
  · cases h
    rfl
  · split at h
    · cases h
      rfl
    · cases h
      rfl
    · rename_i v hread
      cases v with
      | mapping es => cases h
      | null => cases h; rfl
      | scalar s => cases h; rfl
      | sequence kind items => cases h; rfl

namespace ValueOptions

/-- The values of the JSON file, or none if there is no such option. -/
def document (o : ValueOptions) (fs : FileSystem) (input : Bytes) : Except Fault (Table Text Value) :=
  match o.json with
  | none | some [] => .ok []
  | some place => jsonContent fs input place >>= jsonValues

/-- **The layers of the values**: the JSON file, single values, lists, mappings. -/
theorem read_eq (o : ValueOptions) (fs : FileSystem) (input : Bytes) :
    o.read fs input = (do
      let values ← o.document fs input
      let values ← assignAll (fun v => .ok (.text v)) values o.defines
      let values ← assignAll (fun v => .ok (listValue v)) values o.lists
      assignAll mapValue values o.maps) := by
  unfold read document
  cases o.json with
  | none => rfl
  | some place =>
    cases place with
    | nil => rfl
    | cons c place => exact (bind_assoc _ _ _).symm

/-- **What the options give a name**: what the last mapping, list or single value assigns to it, in this order of
precedence, else what the JSON file has for it. -/
def mentioned? (o : ValueOptions) (document : Table Text Value) (name : Text) : Option Value :=
  (lastAssigned? mapValue name o.maps).or ((lastAssigned? (fun v => .ok (listValue v)) name o.lists).or
    ((lastAssigned? (fun v => .ok (.text v)) name o.defines).or (document.get? name)))

section

variable {o : ValueOptions} {fs : FileSystem} {input : Bytes} {values : Table Text Value} {f : Fault}

theorem nodup_keys_document (h : o.document fs input = .ok values) : values.keys.Nodup := by
  unfold document at h
  split at h
  · cases h
    exact List.nodup_nil
  · cases h
    exact List.nodup_nil
  · obtain ⟨content, -, h⟩ := Except.bind_eq_ok_iff.1 h
    exact jsonValues_ok h

theorem read_get? (h : o.read fs input = .ok values) :
    ∃ document, o.document fs input = .ok document ∧ values.keys.Nodup ∧
      ∀ name, values.get? name = o.mentioned? document name := by
  rw [read_eq, Except.bind_eq_ok_iff] at h
  obtain ⟨document, hdocument, h⟩ := h
  obtain ⟨single, hsingle, h⟩ := Except.bind_eq_ok_iff.1 h
  obtain ⟨listed, hlisted, h⟩ := Except.bind_eq_ok_iff.1 h
  refine ⟨document, hdocument, ?_, fun name => ?_⟩
  · have hd := nodup_keys_document hdocument
    exact nodup_keys_assignAll h (nodup_keys_assignAll hlisted (nodup_keys_assignAll hsingle hd))
  · rw [assignAll_get? h, assignAll_get? hlisted, assignAll_get? hsingle]
    rfl

/-! ## faults -/

/-- The JSON file is a directory, or its path is too long. -/
inductive Unreadable (o : ValueOptions) (fs : FileSystem) : Fault → Prop
  | directory {place : Text} (named : o.json = some place) (nonempty : place ≠ []) (file : place ≠ "-")
    (entry : fs.entry? (Path.ofText place) = some .directory) : Unreadable o fs (.isDirectory (Path.ofText place).render)
  | tooLong {place : Text} (named : o.json = some place) (nonempty : place ≠ []) (file : place ≠ "-")
    (entry : fs.entry? (Path.ofText place) = some .tooLong) : Unreadable o fs (.pathTooLong (Path.ofText place).render)

theorem jsonContent_error {place : Text} (named : o.json = some place) (nonempty : place ≠ [])
    (h : jsonContent fs input place = .error f) : f.isReported = true ∨ o.Unreadable fs f := by
  unfold jsonContent at h
  split at h
  · cases h
  · rename_i file
    dsimp only at h
    split at h
    · cases h
    · cases h
    · cases h
      exact .inr (.directory named nonempty file ‹_›)
    · cases h
      exact .inr (.tooLong named nonempty file ‹_›)
    · cases h
      exact .inl rfl

theorem document_error (h : o.document fs input = .error f) : f.isReported = true ∨ o.Unreadable fs f := by
  unfold document at h
  split at h
  · cases h
  · cases h
  · rename_i place nonempty named
    rcases Except.bind_eq_error_iff.1 h with h | ⟨content, -, h⟩
    · exact jsonContent_error named nonempty h
    · exact .inl (jsonValues_error h)

/-- Faults in options and in JSON are reported, unless the JSON file cannot be read at all. -/
theorem read_error (h : o.read fs input = .error f) : f.isReported = true ∨ o.Unreadable fs f := by
  have hoption : (∃ e, f = .option e) → f.isReported = true ∨ o.Unreadable fs f := by
    rintro ⟨e, rfl⟩
    exact .inl rfl
  rw [read_eq, Except.bind_eq_error_iff] at h
  rcases h with h | ⟨document, -, h⟩
  · exact document_error h
  · rcases Except.bind_eq_error_iff.1 h with h | ⟨single, -, h⟩
    · exact hoption (assignAll_error (fun _ _ hread => by cases hread) h)
    · rcases Except.bind_eq_error_iff.1 h with h | ⟨listed, -, h⟩
      · exact hoption (assignAll_error (fun _ _ hread => by cases hread) h)
      · exact hoption (assignAll_error (fun _ _ => mapValue_error) h)

theorem Unreadable.not_isReported (h : o.Unreadable fs f) : f.isReported = false := by
  cases h <;> rfl

theorem Unreadable.read_eq (h : o.Unreadable fs f) : o.read fs input = .error f := by
  have hdocument : ∀ {place : Text}, o.json = some place → place ≠ [] → jsonContent fs input place = .error f →
      o.document fs input = .error f := by
    intro place named nonempty hcontent
    unfold document
    rw [named]
    cases place with
    | nil => exact absurd rfl nonempty
    | cons c place => exact Except.bind_eq_error_iff.2 (.inl hcontent)
  rw [ValueOptions.read_eq, Except.bind_eq_error_iff]
  cases h with
  | directory named nonempty file entry =>
    refine .inl (hdocument named nonempty ?_)
    rw [jsonContent, if_neg file]
    simp only [entry]
  | tooLong named nonempty file entry =>
    refine .inl (hdocument named nonempty ?_)
    rw [jsonContent, if_neg file]
    simp only [entry]

end

end ValueOptions

end CommandLine

end UriTemplate
