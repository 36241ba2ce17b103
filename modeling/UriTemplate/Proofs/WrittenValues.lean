import Mathlib.Data.List.TakeWhile
import Mathlib.Tactic.MkIffOfInductiveProp
import UriTemplate.Proofs.OptionValues
import UriTemplate.Proofs.Splitting

/-!
# Option values as they are written

A value is given to a name with an equals sign between them, and the items of a list or of a mapping have commas between
them.  What is written in this way is read back, and what has no name is refused.

* `Text.trim_eq_self`, `Text.trim_eq_nil_iff` — what is left of a text when its ends are trimmed;
* `assigned`, `listed`, `paired` — how values are written; `assignment_assigned`, `listValue_listed`,
  `mapValue_paired` — how each is read back;
* `Nameless`, `assignment_eq_error_iff` — what is refused, and why;
* `assignAll_assigned`, `assignAll_cases` — specifications of one kind, one after another;
* `Written`, `ValueOptions.Refuses`, `option_values_read_back` — all options of an expansion.
-/

namespace UriTemplate

/-! ## trimmed texts -/

namespace Text

variable {p : CodePoint → Bool} {t : Text}

theorem dropWhile_eq_self (h : ∀ c ∈ t.head?, p c = false) : t.dropWhile p = t := by
  cases t with
  | nil => rfl
  | cons c t => exact List.dropWhile_cons_of_neg (by simp [h c rfl])

theorem trim_eq_self (hhead : ∀ c ∈ t.head?, p c = false) (hlast : ∀ c ∈ t.getLast?, p c = false) : t.trim p = t := by
  have hreverse : ∀ c ∈ t.reverse.head?, p c = false := by
    intro c hc
    rw [List.head?_reverse] at hc
    exact hlast c hc
  rw [trim, dropWhile_eq_self hhead, dropWhile_eq_self hreverse, List.reverse_reverse]

theorem trim_eq_nil_iff : t.trim p = [] ↔ ∀ c ∈ t, p c = true := by
  rw [trim, List.reverse_eq_nil_iff, List.dropWhile_eq_nil_iff]
  constructor
  · intro h
    rw [← List.dropWhile_eq_nil_iff, List.eq_nil_iff_forall_not_mem]
    intro c hc
    -- the first character that is left would not satisfy `p`
    have hhead := List.head?_dropWhile_not p t
    cases hdrop : t.dropWhile p with
    | nil => simp [hdrop] at hc
    | cons d r =>
      rw [hdrop] at hhead
      have hd := h d (by simp [hdrop])
      simp [hd] at hhead
  · intro h c hc
    exact h c ((List.dropWhile_sublist p).subset (List.mem_reverse.1 hc))

theorem join_eq_nil_iff {s : Text} (hs : s ≠ []) {ts : List Text} : join s ts = [] ↔ ts = [] ∨ ts = [[]] := by
  cases ts with
  | nil => simp
  | cons t ts =>
    cases ts with
    | nil => simp
    | cons u ts => simp [hs]

end Text

/-- Reading one after another ends at the first fault. -/
theorem Except.mapM_cases {ε α β : Type} (f : α → Except ε β) (as : List α) :
    ((∃ bs, as.mapM f = .ok bs) ∧ ∀ a ∈ as, ∃ b, f a = .ok b) ∨
    ∃ a ∈ as, ∃ e, f a = .error e ∧ as.mapM f = .error e := by
  induction as with
  | nil => exact .inl ⟨⟨[], rfl⟩, by simp⟩
  | cons a as ih =>
    rw [List.mapM_cons]
    cases ha : f a with
    | error e => exact .inr ⟨a, by simp, e, ha, rfl⟩
    | ok b =>
      rcases ih with ⟨⟨bs, hbs⟩, hall⟩ | ⟨a', hmem, e, he, herror⟩
      · refine .inl ⟨⟨b :: bs, ?_⟩, ?_⟩
        · rw [hbs]
          rfl
        · rw [List.forall_mem_cons]
          exact ⟨⟨b, ha⟩, hall⟩
      · refine .inr ⟨a', List.mem_cons_of_mem a hmem, e, he, ?_⟩
        rw [herror]
        rfl

namespace CommandLine

/-! ## one value -/

/-- A name and what is assigned to it, with an equals sign between them. -/
def assigned (name value : Text) : Text := name ++ ('=' : CodePoint) :: value

/-- Items with commas between them. -/
def listed (items : List Text) : Text := Text.join [(',' : CodePoint)] items

/-- Assignments with commas between them. -/
def paired (pairs : List (Text × Text)) : Text := listed (pairs.map fun e => assigned e.1 e.2)

/-- A text that is read as a name in front of an equals sign: there is something in it, but no equals sign, and no blank
at either end. -/
@[mk_iff]
structure IsName (t : Text) : Prop where
  ne_nil : t ≠ []
  equals_not_mem : ('=' : CodePoint) ∉ t
  head : ∀ c ∈ t.head?, c.isBlank = false
  last : ∀ c ∈ t.getLast?, c.isBlank = false

/-- Items that are told apart.  A single empty one looks like none. -/
@[mk_iff]
structure IsList (items : List Text) : Prop where
  ne_singleton : items ≠ [[]]
  comma_not_mem : ∀ t ∈ items, (',' : CodePoint) ∉ t

/-- Pairs that are told apart, with their keys. -/
@[mk_iff]
structure IsMapping (pairs : List (Text × Text)) : Prop where
  nodup : (Table.keys pairs).Nodup
  isName : ∀ e ∈ pairs, IsName e.1
  comma_not_mem_key : ∀ e ∈ pairs, (',' : CodePoint) ∉ e.1
  comma_not_mem : ∀ e ∈ pairs, (',' : CodePoint) ∉ e.2

instance (t : Text) : Decidable (IsName t) := decidable_of_iff _ (isName_iff t).symm

instance (items : List Text) : Decidable (IsList items) := decidable_of_iff _ (isList_iff items).symm

instance (pairs : List (Text × Text)) : Decidable (IsMapping pairs) := decidable_of_iff _ (isMapping_iff pairs).symm

theorem IsName.strip_eq {t : Text} (h : IsName t) : t.strip = t := Text.trim_eq_self h.head h.last

theorem assigned_ne_nil (name value : Text) : assigned name value ≠ [] :=
  List.append_ne_nil_of_right_ne_nil _ (List.cons_ne_nil _ _)

/-- **A name and its value are read back**, whatever stands in the value. -/
theorem assignment_assigned {name : Text} (h : IsName name) (value : Text) :
    assignment (assigned name value) = .ok (name, value) := by
  rw [assignment, assigned, Text.splitFirst_append_cons h.equals_not_mem]
  simp only [h.strip_eq, if_neg h.ne_nil]

theorem listValue_listed {items : List Text} (h : IsList items) :
    listValue (listed items) = .list (items.map .text) := by
  have hcomma : [(',' : CodePoint)] ≠ [] := List.cons_ne_nil _ _
  unfold listValue listed
  cases items with
  | nil => rfl
  | cons t ts =>
    rw [if_neg, Text.split_join (List.cons_ne_nil t ts) h.comma_not_mem]
    rw [Text.join_eq_nil_iff hcomma]
    rintro (hnil | hsingle)
    · cases hnil
    · exact h.ne_singleton hsingle

theorem mapM_assignment_assigned {pairs : List (Text × Text)} (h : ∀ e ∈ pairs, IsName e.1) :
    (pairs.map fun e => assigned e.1 e.2).mapM assignment = .ok pairs := by
  induction pairs with
  | nil => rfl
  | cons e pairs ih =>
    obtain ⟨he, hpairs⟩ := List.forall_mem_cons.1 h
    rw [List.map_cons, List.mapM_cons, assignment_assigned he, ih hpairs]
    rfl

/-- The items of a written mapping are its pairs. -/
theorem split_paired {pairs : List (Text × Text)} (h : IsMapping pairs) :
    (Text.split ',' (paired pairs)).filter (· ≠ []) = pairs.map fun e => assigned e.1 e.2 := by
  cases hpairs : pairs with
  | nil => rfl
  | cons e rest =>
    rw [← hpairs, paired, listed, Text.split_join]
    · rw [List.filter_eq_self]
      intro t ht
      obtain ⟨e, -, rfl⟩ := List.mem_map.1 ht
      simpa using assigned_ne_nil e.1 e.2
    · simp [hpairs]
    · intro t ht
      obtain ⟨e, he, rfl⟩ := List.mem_map.1 ht
      have hkey := h.comma_not_mem_key e he
      have hvalue := h.comma_not_mem e he
      simp only [assigned, List.mem_append, List.mem_cons, not_or]
      exact ⟨hkey, by decide, hvalue⟩

theorem mapValue_paired {pairs : List (Text × Text)} (h : IsMapping pairs) :
    mapValue (paired pairs) = .ok (.mapping (pairs.map fun e => (.text e.1, .text e.2))) := by
  have htable : Table.ofList pairs = [] ++ pairs := Table.update_of_nodup h.nodup
  rw [mapValue, split_paired h, mapM_assignment_assigned h.isName]
  simp only [bind, Except.bind, pure, Except.pure, htable, List.nil_append]

/-! ## what is refused -/

/-- Without an equals sign, or with nothing but blanks in front of the first one, there is no name. -/
inductive Nameless : Text → OptionError → Prop
  | noEquals {spec : Text} (h : ('=' : CodePoint) ∉ spec) : Nameless spec (.noEquals spec)
  | blank {name value : Text} (h : ('=' : CodePoint) ∉ name) (hblank : ∀ c ∈ name, c.isBlank = true) :
      Nameless (assigned name value) (.emptyName (assigned name value))

theorem exists_assigned {spec : Text} (h : ('=' : CodePoint) ∈ spec) :
    ∃ name value, spec = assigned name value ∧ ('=' : CodePoint) ∉ name := by
  obtain ⟨name, value, hspec, hname⟩ := List.eq_append_cons_of_mem h
  exact ⟨name, value, hspec, hname⟩

theorem nameless_assigned_iff {name value : Text} (hname : ('=' : CodePoint) ∉ name) {e : OptionError} :
    Nameless (assigned name value) e ↔ (∀ c ∈ name, c.isBlank = true) ∧ e = .emptyName (assigned name value) := by
  constructor
  · intro h
    generalize hspec : assigned name value = spec at h
    cases h with
    | noEquals hnot => exact absurd (by simp [← hspec, assigned]) hnot
    | blank hname' hblank =>
      obtain ⟨rfl, -⟩ := Text.append_cons_inj hname hname' hspec
      exact ⟨hblank, rfl⟩
  · rintro ⟨hblank, rfl⟩
    exact .blank hname hblank

/-- **A specification is refused exactly if it has no name.** -/
theorem assignment_eq_error_iff {spec : Text} {f : Fault} :
    assignment spec = .error f ↔ ∃ e, f = .option e ∧ Nameless spec e := by
  by_cases hmem : ('=' : CodePoint) ∈ spec
  · obtain ⟨name, value, rfl, hname⟩ := exists_assigned hmem
    simp only [nameless_assigned_iff hname]
    rw [assignment, assigned, Text.splitFirst_append_cons hname]
    simp only [Text.strip, Text.trim_eq_nil_iff]
    split
    · next hblank =>
      constructor
      · intro h
        exact ⟨_, (Except.error.inj h).symm, hblank, rfl⟩
      · rintro ⟨e, rfl, -, rfl⟩
        rfl
    · next hblank => simp [hblank]
  · rw [assignment, Text.splitFirst_of_not_mem hmem]
    constructor
    · intro h
      exact ⟨_, (Except.error.inj h).symm, .noEquals hmem⟩
    · rintro ⟨e, rfl, hnameless⟩
      cases hnameless with
      | noEquals => rfl
      | blank => exact absurd (by simp [assigned]) hmem

/-- The value that is read stands behind the first equals sign. -/
theorem snd_of_assignment {name value : Text} (hname : ('=' : CodePoint) ∉ name) {e : Text × Text}
    (h : assignment (assigned name value) = .ok e) : e.2 = value := by
  rw [assignment, assigned, Text.splitFirst_append_cons hname] at h
  simp only at h
  split at h
  · cases h
  · rw [← Except.ok.inj h]

/-- A mapping is refused exactly if one of its items is that is not empty. -/
theorem mapValue_cases (value : Text) :
    ((∃ v, mapValue value = .ok v) ∧ ∀ item ∈ Text.split ',' value, item ≠ [] → ∀ e, ¬ Nameless item e) ∨
    ∃ item ∈ Text.split ',' value, item ≠ [] ∧ ∃ e, Nameless item e ∧ mapValue value = .error (.option e) := by
  rcases Except.mapM_cases assignment ((Text.split ',' value).filter (· ≠ [])) with
    ⟨⟨pairs, hpairs⟩, hall⟩ | ⟨item, hitem, f, hf, herror⟩
  · refine .inl ⟨⟨_, by rw [mapValue, hpairs]; rfl⟩, ?_⟩
    intro item hitem hne e hnameless
    obtain ⟨p, hp⟩ := hall item (List.mem_filter.2 ⟨hitem, by simpa using hne⟩)
    rw [assignment_eq_error_iff.2 ⟨e, rfl, hnameless⟩] at hp
    cases hp
  · obtain ⟨hmem, hne⟩ := List.mem_filter.1 hitem
    obtain ⟨e, rfl, hnameless⟩ := assignment_eq_error_iff.1 hf
    refine .inr ⟨item, hmem, by simpa using hne, e, hnameless, ?_⟩
    rw [mapValue, herror]
    rfl

/-! ## specifications of one kind -/

/-- The name and the value of one specification. -/
def entry (read : Text → Except Fault Value) (spec : Option Text) : Except Fault (Text × Value) := do
  let e ← assignment (spec.getD missing)
  return (e.1, ← read e.2)

section

variable {read : Text → Except Fault Value} {values : Table Text Value}

theorem entry_assigned {name value : Text} (h : IsName name) {v : Value} (hread : read value = .ok v) :
    entry read (some (assigned name value)) = .ok (name, v) := by
  unfold entry
  rw [Option.getD_some, assignment_assigned h]
  simp only [bind, Except.bind, pure, Except.pure, hread]

/-- Why a specification is not read. -/
theorem entry_eq_error {spec : Option Text} {f : Fault} (h : entry read spec = .error f) :
    (∃ e, f = .option e ∧ Nameless (spec.getD missing) e) ∨
    ∃ name value, spec.getD missing = assigned name value ∧ ('=' : CodePoint) ∉ name ∧ read value = .error f := by
  rcases Except.bind_eq_error_iff.1 h with h | ⟨e, he, h⟩
  · exact .inl (assignment_eq_error_iff.1 h)
  · rcases Except.bind_eq_error_iff.1 h with h | ⟨v, -, h⟩
    · have hmem : ('=' : CodePoint) ∈ spec.getD missing := by
        by_contra hnot
        rw [assignment_eq_error_iff.2 ⟨_, rfl, .noEquals hnot⟩] at he
        cases he
      obtain ⟨name, value, hspec, hname⟩ := exists_assigned hmem
      rw [hspec] at he
      rw [snd_of_assignment hname he] at h
      exact .inr ⟨name, value, hspec, hname, h⟩
    · cases h

/-- Specifications are read one by one, and what they assign is put in. -/
theorem assignAll_eq (specs : List (Option Text)) :
    assignAll read values specs = (do return values.update (← specs.mapM (entry read))) := by
  induction specs generalizing values with
  | nil => rfl
  | cons spec specs ih =>
    rw [assignAll_cons, List.mapM_cons, entry]
    cases assignment (spec.getD missing) with
    | error f => rfl
    | ok e =>
      simp only [bind, Except.bind]
      cases read e.2 with
      | error f => rfl
      | ok v =>
        simp only [pure, Except.pure]
        rw [ih]
        cases specs.mapM (entry read) <;> rfl

/-- **What is written for several names is put in, one after another.** -/
theorem assignAll_assigned {α : Type} (write : α → Text) (value : α → Value) {es : List (Text × α)}
    (hname : ∀ e ∈ es, IsName e.1) (hread : ∀ e ∈ es, read (write e.2) = .ok (value e.2)) :
    assignAll read values (es.map fun e => some (assigned e.1 (write e.2))) =
      .ok (values.update (es.map fun e => (e.1, value e.2))) := by
  have hentries : (es.map fun e => some (assigned e.1 (write e.2))).mapM (entry read) =
      .ok (es.map fun e => (e.1, value e.2)) := by
    induction es with
    | nil => rfl
    | cons e es ih =>
      rw [List.forall_mem_cons] at hname hread
      rw [List.map_cons, List.mapM_cons, entry_assigned hname.1 hread.1, ih hname.2 hread.2]
      rfl
  rw [assignAll_eq, hentries]
  rfl

theorem assignAll_cases (read : Text → Except Fault Value) (values : Table Text Value) (specs : List (Option Text)) :
    ((∃ values', assignAll read values specs = .ok values') ∧ ∀ spec ∈ specs, ∃ e, entry read spec = .ok e) ∨
    ∃ spec ∈ specs, ∃ f, entry read spec = .error f ∧ assignAll read values specs = .error f := by
  rcases Except.mapM_cases (entry read) specs with ⟨⟨es, hes⟩, hall⟩ | ⟨spec, hspec, f, hf, herror⟩
  · refine .inl ⟨⟨values.update es, ?_⟩, hall⟩
    rw [assignAll_eq, hes]
    rfl
  · refine .inr ⟨spec, hspec, f, hf, ?_⟩
    rw [assignAll_eq, herror]
    rfl

end

/-! ## all options -/

/-- Values as they are meant to be given: single ones, lists and mappings, each kind in order. -/
structure Written where
  defines : List (Text × Text) := []
  lists : List (Text × List Text) := []
  maps : List (Text × List (Text × Text)) := []

namespace Written

variable (w : Written)

/-- The names are read as names, and the items of lists and mappings are told apart. -/
@[mk_iff]
structure Legible : Prop where
  defines : ∀ e ∈ w.defines, IsName e.1
  lists : ∀ e ∈ w.lists, IsName e.1 ∧ IsList e.2
  maps : ∀ e ∈ w.maps, IsName e.1 ∧ IsMapping e.2

instance : Decidable w.Legible := decidable_of_iff _ (legible_iff w).symm

/-- The options that say so, over the values of a JSON file. -/
def options (json : Option Text) : ValueOptions where
  defines := w.defines.map fun e => some (assigned e.1 e.2)
  lists := w.lists.map fun e => some (assigned e.1 (listed e.2))
  maps := w.maps.map fun e => some (assigned e.1 (paired e.2))
  json := json

/-- The values, put in after those of the JSON file. -/
def values (document : Table Text Value) : Table Text Value :=
  ((document.update (w.defines.map fun e => (e.1, .text e.2))).update
    (w.lists.map fun e => (e.1, .list (e.2.map .text)))).update
      (w.maps.map fun e => (e.1, .mapping (e.2.map fun p => (.text p.1, .text p.2))))

variable {w}

theorem Legible.read_eq (h : w.Legible) {json : Option Text} {fs : FileSystem} {input : Bytes}
    {document : Table Text Value} (hdocument : (w.options json).document fs input = .ok document) :
    (w.options json).read fs input = .ok (w.values document) := by
  have hdefines : ∀ values : Table Text Value,
      assignAll (fun v => .ok (.text v)) values (w.options json).defines =
        .ok (values.update (w.defines.map fun e => (e.1, .text e.2))) := by
    intro values
    exact assignAll_assigned id .text h.defines fun _ _ => rfl
  have hlists : ∀ values : Table Text Value,
      assignAll (fun v => .ok (listValue v)) values (w.options json).lists =
        .ok (values.update (w.lists.map fun e => (e.1, .list (e.2.map .text)))) := by
    intro values
    apply assignAll_assigned listed fun items => .list (items.map .text)
    · intro e he
      exact (h.lists e he).1
    · intro e he
      rw [listValue_listed (h.lists e he).2]
  have hmaps : ∀ values : Table Text Value,
      assignAll mapValue values (w.options json).maps =
        .ok (values.update (w.maps.map fun e => (e.1, .mapping (e.2.map fun p => (.text p.1, .text p.2))))) := by
    intro values
    apply assignAll_assigned paired fun pairs => .mapping (pairs.map fun p => (.text p.1, .text p.2))
    · intro e he
      exact (h.maps e he).1
    · intro e he
      exact mapValue_paired (h.maps e he).2
  rw [ValueOptions.read_eq, hdocument]
  simp only [bind, Except.bind, hdefines, hlists, hmaps]
  rfl

end Written

namespace ValueOptions

/-- The options have a specification, or an item of a mapping, without a name. -/
inductive Refuses (o : ValueOptions) : OptionError → Prop
  | spec {spec : Option Text} {e : OptionError} (h : spec ∈ o.defines ∨ spec ∈ o.lists ∨ spec ∈ o.maps)
      (nameless : Nameless (spec.getD missing) e) : Refuses o e
  | item {spec : Option Text} {name value item : Text} {e : OptionError} (h : spec ∈ o.maps)
      (hspec : spec.getD missing = assigned name value) (hname : ('=' : CodePoint) ∉ name)
      (hitem : item ∈ Text.split ',' value) (nonempty : item ≠ []) (nameless : Nameless item e) : Refuses o e

variable {o : ValueOptions}

theorem not_nameless_of_entry {read : Text → Except Fault Value} {spec : Option Text} {p : Text × Value}
    (h : entry read spec = .ok p) (e : OptionError) : ¬ Nameless (spec.getD missing) e := by
  intro hnameless
  obtain ⟨n, hn, -⟩ := Except.bind_eq_ok_iff.1 h
  rw [assignment_eq_error_iff.2 ⟨e, rfl, hnameless⟩] at hn
  cases hn

/-- If specifications of all kinds are read, none is refused. -/
theorem not_refuses (hdefines : ∀ spec ∈ o.defines, ∃ p, entry (fun v => .ok (.text v)) spec = .ok p)
    (hlists : ∀ spec ∈ o.lists, ∃ p, entry (fun v => .ok (listValue v)) spec = .ok p)
    (hmaps : ∀ spec ∈ o.maps, ∃ p, entry mapValue spec = .ok p) (e : OptionError) : ¬ o.Refuses e := by
  intro h
  cases h with
  | spec h nameless =>
    rcases h with h | h | h
    · obtain ⟨p, hp⟩ := hdefines _ h
      exact not_nameless_of_entry hp e nameless
    · obtain ⟨p, hp⟩ := hlists _ h
      exact not_nameless_of_entry hp e nameless
    · obtain ⟨p, hp⟩ := hmaps _ h
      exact not_nameless_of_entry hp e nameless
  | @item spec name value item _ h hspec hname hitem nonempty nameless =>
    obtain ⟨p, hp⟩ := hmaps _ h
    obtain ⟨n, hn, hread⟩ := Except.bind_eq_ok_iff.1 hp
    obtain ⟨v, hv, -⟩ := Except.bind_eq_ok_iff.1 hread
    rw [hspec] at hn
    rw [snd_of_assignment hname hn] at hv
    rcases mapValue_cases value with ⟨-, hall⟩ | ⟨-, -, -, e', -, herror⟩
    · exact hall item hitem nonempty e nameless
    · rw [herror] at hv
      cases hv

/-- **Options are refused for a missing name only.** -/
theorem read_cases {fs : FileSystem} {input : Bytes} {document : Table Text Value}
    (hdocument : o.document fs input = .ok document) :
    ((∃ values, o.read fs input = .ok values) ∧ ∀ e, ¬ o.Refuses e) ∨
    ∃ e, o.read fs input = .error (.option e) ∧ o.Refuses e := by
  rw [read_eq, hdocument]
  simp only [bind, Except.bind]
  rcases assignAll_cases (fun v => .ok (.text v)) document o.defines with
    ⟨⟨single, hsingle⟩, hdefines⟩ | ⟨spec, hspec, f, hf, herror⟩
  · rw [hsingle]
    simp only
    rcases assignAll_cases (fun v => .ok (listValue v)) single o.lists with
      ⟨⟨listed, hlisted⟩, hlists⟩ | ⟨spec, hspec, f, hf, herror⟩
    · rw [hlisted]
      simp only
      rcases assignAll_cases mapValue listed o.maps with ⟨hvalues, hmaps⟩ | ⟨spec, hspec, f, hf, herror⟩
      · exact .inl ⟨hvalues, not_refuses hdefines hlists hmaps⟩
      · rw [herror]
        rcases entry_eq_error hf with ⟨e, rfl, hnameless⟩ | ⟨name, value, hvalue, hname, hread⟩
        · exact .inr ⟨e, rfl, .spec (.inr (.inr hspec)) hnameless⟩
        · rcases mapValue_cases value with ⟨⟨v, hv⟩, -⟩ | ⟨item, hitem, hne, e, hnameless, hmap⟩
          · rw [hv] at hread
            cases hread
          · rw [hmap] at hread
            cases hread
            exact .inr ⟨e, rfl, .item hspec hvalue hname hitem hne hnameless⟩
    · rw [herror]
      rcases entry_eq_error hf with ⟨e, rfl, hnameless⟩ | ⟨name, value, -, -, hread⟩
      · exact .inr ⟨e, rfl, .spec (.inr (.inl hspec)) hnameless⟩
      · cases hread
  · rw [herror]
    rcases entry_eq_error hf with ⟨e, rfl, hnameless⟩ | ⟨name, value, -, -, hread⟩
    · exact .inr ⟨e, rfl, .spec (.inl hspec) hnameless⟩
    · cases hread

end ValueOptions

/-- **Option values are read back.**  Single values, lists and mappings that are written under legible names are put in
one after another, over the values of the JSON file, whatever stands in the values.  Conversely, the options are refused
exactly if a specification, or an item of a mapping that is not empty, has no equals sign or nothing but blanks in front
of the first one, and then for one of these; unless the JSON file is refused before. -/
theorem option_values_read_back (fs : FileSystem) (input : Bytes) :
    (∀ (w : Written) (json : Option Text) (document : Table Text Value), w.Legible →
      (w.options json).document fs input = .ok document → (w.options json).read fs input = .ok (w.values document)) ∧
    ∀ o : ValueOptions,
      (∀ document, o.document fs input = .ok document →
        ((∃ values, o.read fs input = .ok values) ∧ ∀ e, ¬ o.Refuses e) ∨
        ∃ e, o.read fs input = .error (.option e) ∧ o.Refuses e) ∧
      ∀ f, o.document fs input = .error f → o.read fs input = .error f := by
  refine ⟨fun w json document hw hdocument => hw.read_eq hdocument, fun o => ⟨?_, ?_⟩⟩
  · intro document hdocument
    exact ValueOptions.read_cases hdocument
  · intro f hf
    rw [ValueOptions.read_eq, hf]
    rfl

/-- Equals signs, commas and blanks in values, empty values, an empty list, a list of two empty items, and a mapping
with an item that has no name. -/
theorem option_values_read_back_mixed :
    let fs : FileSystem := .ofFiles (Path.ofText "/") [] []
    let w : Written :=
      { defines := [("x", " a=b, c "), ("y", "")], lists := [("l", []), ("y", ["", ""])],
        maps := [("m", [("k", ""), ("a b", "v=w")])] }
    let o : ValueOptions := { defines := [some "x=1"], maps := [some "m=k=v,, =w"] }
    (w.options none).read fs [] = .ok [("x", .text " a=b, c "), ("y", .list [.text "", .text ""]), ("l", .list []),
      ("m", .mapping [(.text "k", .text ""), (.text "a b", .text "v=w")])] ∧
    ∃ e, o.read fs [] = .error (.option e) ∧ o.Refuses e := by
  intro fs w o
  have hw : w.Legible := by decide
  obtain ⟨hread, hrefuse⟩ := option_values_read_back fs []
  refine ⟨hread w none [] hw rfl, ?_⟩
  have hrefuses : o.Refuses (.emptyName " =w") := by
    have hnameless : Nameless (assigned " " "w") (.emptyName (assigned " " "w")) := .blank (by decide) (by decide)
    exact .item (List.mem_singleton_self (some ("m=k=v,, =w" : Text))) (rfl : _ = assigned "m" "k=v,, =w")
      (by decide) (by decide) (by decide) hnameless
  rcases (hrefuse o).1 _ rfl with ⟨-, hnone⟩ | h
  · exact absurd hrefuses (hnone _)
  · exact h

end CommandLine

end UriTemplate
