import UriTemplate.Proofs.Concatenation

/-!
# Values without a text

With values that may be read again, an expansion fails only where a single value has no text: an integer of too many
digits, or an object that gives none.

* `Value.HasFault` — there is such a single value, in a place where it is written; `Value.fault?` — the fault of the first
  one in the order of reading;
* `Value.converts_iff`, `Value.fault?_eq_none_iff` — values without a fault;
* `Value.readLeaves_of_fault`, `collectValue_of_fault` — reading a value fails with its first fault, whether its members
  are written one by one or not;
* `emitElements_of_fault` — so does an expansion that comes to it;
* `expand_outcome` — the outcome of an expansion by the values of its references.
-/

namespace UriTemplate

/-! ## single values -/

theorem intText_of_long {i : Int} (h : 10 ^ maxDigits ≤ i.natAbs) : intText i = .error .integerTooLong := by
  rw [intText, if_neg (Nat.not_lt.2 h)]

/-- The first integer that is too long. -/
theorem le_natAbs_ten_pow : 10 ^ maxDigits ≤ ((10 : Int) ^ maxDigits).natAbs := by
  have hten : (10 : Int).natAbs = 10 := rfl
  exact Nat.le_of_eq (by rw [Int.natAbs_pow, hten])

/-- Every single value has a text, apart from long integers and objects that give none. -/
theorem Scalar.toText_cases (s : Scalar) :
    (∃ t, s.toText = .ok t) ∨ (∃ i, s = .int i ∧ 10 ^ maxDigits ≤ i.natAbs) ∨ ∃ r, s = .object (.error r) := by
  cases s with
  | int i =>
    by_cases h : i.natAbs < 10 ^ maxDigits
    · exact .inl ⟨Text.ofInt i, by rw [toText, intText, if_pos h]⟩
    · exact .inr (.inl ⟨i, rfl, Nat.not_lt.1 h⟩)
  | object t =>
    cases t with
    | ok t => exact .inl ⟨t, rfl⟩
    | error r => exact .inr (.inr ⟨r, rfl⟩)
  | bool b => exact .inl ⟨_, rfl⟩
  | text t => exact .inl ⟨_, rfl⟩
  | float x => exact .inl ⟨_, rfl⟩
  | bytes data => exact .inl ⟨_, rfl⟩
  | byteArray data => exact .inl ⟨_, rfl⟩
  | timestamp t => exact .inl ⟨_, rfl⟩

/-- Why a single value has no text. -/
def Scalar.fault? (s : Scalar) : Option Fault :=
  match s.toText with
  | .ok _ => none
  | .error f => some f

theorem Scalar.fault?_eq_none_iff (s : Scalar) : s.fault? = none ↔ ∃ t, s.toText = .ok t := by
  unfold fault?
  cases s.toText <;> simp

theorem Scalar.fault?_eq_some_iff {s : Scalar} {f : Fault} : s.fault? = some f ↔ s.toText = .error f := by
  unfold fault?
  cases s.toText <;> simp

namespace Value

/-- A single value without a text stands in the value where it is written: at any depth, but not in the key of a pair
whose value is vacuous. -/
inductive HasFault : Value → Fault → Prop
  | int {i : Int} (long : 10 ^ maxDigits ≤ i.natAbs) : HasFault (.int i) .integerTooLong
  | object (r : Raised) : HasFault (.scalar (.object (.error r))) (.raised r)
  | item {kind : SequenceKind} {vs : List Value} {v : Value} {f : Fault} (mem : v ∈ vs) (fault : HasFault v f) :
    HasFault (.sequence kind vs) f
  | value {es : List (Value × Value)} {e : Value × Value} {f : Fault} (mem : e ∈ es) (fault : HasFault e.2 f) :
    HasFault (.mapping es) f
  | key {es : List (Value × Value)} {e : Value × Value} {f : Fault} (mem : e ∈ es) (written : e.2.vacuous = false)
    (fault : HasFault e.1 f) : HasFault (.mapping es) f

theorem HasFault.cases {v : Value} {f : Fault} (h : v.HasFault f) : f = .integerTooLong ∨ ∃ r, f = .raised r := by
  induction h with
  | int long => exact .inl rfl
  | object r => exact .inr ⟨r, rfl⟩
  | item _ _ ih => exact ih
  | value _ _ ih => exact ih
  | key _ _ _ ih => exact ih

mutual
/-- The fault of the first single value without a text.  The value of a pair comes before its key. -/
def fault? : Value → Option Fault
  | null => none
  | scalar s => s.fault?
  | sequence _ vs => faultItems? vs
  | mapping es => faultEntries? es
def faultItems? : List Value → Option Fault
  | [] => none
  | v :: vs => (fault? v).or (faultItems? vs)
def faultEntries? : List (Value × Value) → Option Fault
  | [] => none
  | (key, v) :: es => (fault? v).or ((if vacuous v then none else fault? key).or (faultEntries? es))
end

theorem fault?_of_long {i : Int} (h : 10 ^ maxDigits ≤ i.natAbs) : (Value.int i).fault? = some .integerTooLong := by
  rw [fault?, Scalar.fault?_eq_some_iff, Scalar.toText, intText_of_long h]

theorem hasFault_scalar_iff {s : Scalar} {f : Fault} : (scalar s).HasFault f ↔ s.fault? = some f := by
  rw [Scalar.fault?_eq_some_iff]
  constructor
  · intro h
    cases h with
    | int long => exact intText_of_long long
    | object r => rfl
  · intro h
    rcases s.toText_cases with ⟨t, ht⟩ | ⟨i, rfl, long⟩ | ⟨r, rfl⟩
    · cases ht.symm.trans h
    · cases (intText_of_long long).symm.trans h
      exact .int long
    · cases h
      exact .object r

theorem hasFault_sequence_iff {kind : SequenceKind} {vs : List Value} {f : Fault} :
    (sequence kind vs).HasFault f ↔ ∃ v ∈ vs, v.HasFault f := by
  constructor
  · intro h
    cases h with
    | item mem fault => exact ⟨_, mem, fault⟩
  · rintro ⟨v, mem, fault⟩
    exact .item mem fault

theorem hasFault_mapping_iff {es : List (Value × Value)} {f : Fault} :
    (mapping es).HasFault f ↔ ∃ e ∈ es, e.2.HasFault f ∨ (e.2.vacuous = false ∧ e.1.HasFault f) := by
  constructor
  · intro h
    cases h with
    | value mem fault => exact ⟨_, mem, .inl fault⟩
    | key mem written fault => exact ⟨_, mem, .inr ⟨written, fault⟩⟩
  · rintro ⟨e, mem, fault | ⟨written, fault⟩⟩
    · exact .value mem fault
    · exact .key mem written fault

mutual
/-- **A value converts unless there is a fault in it.** -/
theorem converts_iff (v : Value) : v.Converts ↔ v.fault? = none := by
  cases v with
  | null => exact ⟨fun _ => rfl, fun _ => trivial⟩
  | scalar s => exact s.fault?_eq_none_iff.symm
  | sequence kind vs => exact convertsItems_iff vs
  | mapping es => exact convertsEntries_iff es
theorem convertsItems_iff (vs : List Value) : ConvertsItems vs ↔ faultItems? vs = none := by
  match vs with
  | [] => simp [ConvertsItems, faultItems?]
  | v :: vs => rw [ConvertsItems, faultItems?, Option.or_eq_none_iff, converts_iff v, convertsItems_iff vs]
theorem convertsEntries_iff (es : List (Value × Value)) : ConvertsEntries es ↔ faultEntries? es = none := by
  match es with
  | [] => simp [ConvertsEntries, faultEntries?]
  | (key, v) :: es =>
    rw [ConvertsEntries, faultEntries?, Option.or_eq_none_iff, Option.or_eq_none_iff, converts_iff key, converts_iff v,
      convertsEntries_iff es, and_left_comm]
    cases v.vacuous <;> simp
end

mutual
/-- The first fault is one of the faults. -/
theorem hasFault_of_fault? (v : Value) {f : Fault} (h : v.fault? = some f) : v.HasFault f := by
  cases v with
  | null => cases h
  | scalar s => exact hasFault_scalar_iff.2 h
  | sequence kind vs => exact hasFault_sequence_iff.2 (exists_hasFault_items vs h)
  | mapping es => exact hasFault_mapping_iff.2 (exists_hasFault_entries es h)
theorem exists_hasFault_items (vs : List Value) {f : Fault} (h : faultItems? vs = some f) :
    ∃ v ∈ vs, v.HasFault f := by
  match vs with
  | [] => cases h
  | v :: vs =>
    rw [faultItems?, Option.or_eq_some_iff] at h
    rcases h with hv | ⟨-, hvs⟩
    · exact ⟨v, List.mem_cons_self, hasFault_of_fault? v hv⟩
    · obtain ⟨u, hu, hfault⟩ := exists_hasFault_items vs hvs
      exact ⟨u, List.mem_cons_of_mem _ hu, hfault⟩
theorem exists_hasFault_entries (es : List (Value × Value)) {f : Fault} (h : faultEntries? es = some f) :
    ∃ e ∈ es, e.2.HasFault f ∨ (e.2.vacuous = false ∧ e.1.HasFault f) := by
  match es with
  | [] => cases h
  | (key, v) :: es =>
    rw [faultEntries?, Option.or_eq_some_iff, Option.or_eq_some_iff] at h
    rcases h with hv | ⟨-, hkey | ⟨-, hes⟩⟩
    · exact ⟨_, List.mem_cons_self, .inl (hasFault_of_fault? v hv)⟩
    · cases hvacuous : v.vacuous with
      | true => rw [hvacuous] at hkey; cases hkey
      | false =>
        rw [hvacuous] at hkey
        exact ⟨_, List.mem_cons_self, .inr ⟨hvacuous, hasFault_of_fault? key hkey⟩⟩
    · obtain ⟨e, he, hfault⟩ := exists_hasFault_entries es hes
      exact ⟨e, List.mem_cons_of_mem _ he, hfault⟩
end

mutual
theorem not_hasFault_of_converts (v : Value) (hc : v.Converts) (f : Fault) : ¬ v.HasFault f := by
  cases v with
  | null => exact nofun
  | scalar s =>
    rw [hasFault_scalar_iff, s.fault?_eq_none_iff.2 hc]
    exact nofun
  | sequence kind vs =>
    rw [hasFault_sequence_iff]
    rintro ⟨v, hv, hfault⟩
    exact not_hasFault_items vs hc v hv f hfault
  | mapping es =>
    rw [hasFault_mapping_iff]
    rintro ⟨e, he, hfault⟩
    exact not_hasFault_entries es hc e he f hfault
theorem not_hasFault_items (vs : List Value) (hc : ConvertsItems vs) : ∀ v ∈ vs, ∀ f, ¬ v.HasFault f := by
  match vs with
  | [] => exact nofun
  | v :: vs => exact List.forall_mem_cons.2 ⟨not_hasFault_of_converts v hc.1, not_hasFault_items vs hc.2⟩
theorem not_hasFault_entries (es : List (Value × Value)) (hc : ConvertsEntries es) :
    ∀ e ∈ es, ∀ f, ¬ (e.2.HasFault f ∨ (e.2.vacuous = false ∧ e.1.HasFault f)) := by
  match es with
  | [] => exact nofun
  | (key, v) :: es =>
    obtain ⟨hkey, hv, hes⟩ := hc
    refine List.forall_mem_cons.2 ⟨fun f => ?_, not_hasFault_entries es hes⟩
    rintro (hfault | ⟨written, hfault⟩)
    · exact not_hasFault_of_converts v hv f hfault
    · exact not_hasFault_of_converts key (hkey written) f hfault
end

/-- **A value has a first fault** if it has any. -/
theorem fault?_eq_none_iff (v : Value) : v.fault? = none ↔ ∀ f, ¬ v.HasFault f := by
  constructor
  · intro h
    exact not_hasFault_of_converts v (v.converts_iff.2 h)
  · intro h
    cases hfault : v.fault? with
    | none => rfl
    | some f => exact absurd (v.hasFault_of_fault? hfault) (h f)

/-! ## reading them -/

mutual
/-- **Reading a value fails with its first fault.** -/
theorem readLeaves_of_fault (v : Value) (hr : v.Rereadable) {f : Fault} (h : v.fault? = some f) :
    readLeaves v = throw f := by
  cases v with
  | null => cases h
  | scalar s =>
    rw [readLeaves, Scalar.fault?_eq_some_iff.1 h]
    rfl
  | sequence kind vs =>
    obtain ⟨hvs, hread⟩ := SequenceKind.read_of_rereadable hr
    rw [readLeaves_sequence, hread, pure_bind]
    exact readLeavesItems_of_fault vs hvs h
  | mapping es => exact readLeavesEntries_of_fault es hr h
theorem readLeavesItems_of_fault (vs : List Value) (hr : RereadableItems vs) {f : Fault}
    (h : faultItems? vs = some f) : readLeavesItems vs = throw f := by
  match vs with
  | [] => cases h
  | v :: vs =>
    rw [faultItems?, Option.or_eq_some_iff] at h
    rw [readLeavesItems]
    rcases h with hv | ⟨hv, hvs⟩
    · rw [readLeaves_of_fault v hr.1 hv]
      rfl
    · rw [readLeaves_eq_pure v hr.1 (v.converts_iff.2 hv), pure_bind, readLeavesItems_of_fault vs hr.2 hvs]
      rfl
theorem readLeavesEntries_of_fault (es : List (Value × Value)) (hr : RereadableEntries es) {f : Fault}
    (h : faultEntries? es = some f) : readLeavesEntries es = throw f := by
  match es with
  | [] => cases h
  | (key, v) :: es =>
    obtain ⟨hrkey, hrv, hres⟩ := hr
    rw [faultEntries?, Option.or_eq_some_iff, Option.or_eq_some_iff] at h
    rw [readLeavesEntries]
    rcases h with hv | ⟨hv, h⟩
    · rw [readLeaves_of_fault v hrv hv]
      rfl
    rw [readLeaves_eq_pure v hrv (v.converts_iff.2 hv), pure_bind]
    cases hvacuous : v.vacuous with
    | true =>
      simp only [hvacuous, if_true, reduceCtorEq, true_and, false_or] at h
      rw [if_pos (v.leaves_eq_nil_iff.2 hvacuous)]
      exact readLeavesEntries_of_fault es hres h
    | false =>
      simp only [hvacuous, Bool.false_eq_true, if_false] at h
      rw [if_neg (v.leaves_ne_nil hvacuous)]
      rcases h with hkey | ⟨hkey, hes⟩
      · rw [readLeaves_of_fault key hrkey hkey]
        rfl
      · rw [readLeaves_eq_pure key hrkey (key.converts_iff.2 hkey), pure_bind, readLeavesEntries_of_fault es hres hes]
        rfl
end

end Value

/-! ## expansions that come to them -/

open Value

section

variable {op : Operator} {y : Yield} {f : Fault}

theorem Collect.perform_throw {α : Type} (e : Fault) : (Collect.perform (throw e) : Collect α) y = (.error e, y) := rfl

theorem collectItems_of_fault (label : Label) {vs : List Value} (hr : RereadableItems vs) (h : faultItems? vs = some f) :
    ∃ y', collectItems label vs y = (.error f, y') := by
  induction vs generalizing y with
  | nil => cases h
  | cons v vs ih =>
    rw [faultItems?, Option.or_eq_some_iff] at h
    rw [collectItems]
    rcases h with hv | ⟨hv, hvs⟩
    · rw [readLeaves_of_fault v hr.1 hv, bind_of_error (Collect.perform_throw _)]
      exact ⟨_, rfl⟩
    · rw [readLeaves_eq_pure v hr.1 (v.converts_iff.2 hv), bind_of_ok (Collect.perform_pure_run _),
        bind_of_ok (Collect.yield_run _ _)]
      exact ih hr.2 hvs

theorem collectPairs_of_fault {es : List (Value × Value)} (hr : RereadableEntries es) (h : faultEntries? es = some f) :
    ∃ y', collectPairs es y = (.error f, y') := by
  induction es generalizing y with
  | nil => cases h
  | cons e es ih =>
    obtain ⟨key, v⟩ := e
    obtain ⟨hrkey, hrv, hres⟩ := hr
    rw [faultEntries?, Option.or_eq_some_iff, Option.or_eq_some_iff] at h
    rw [collectPairs]
    rcases h with hv | ⟨hv, h⟩
    · rw [readLeaves_of_fault v hrv hv, bind_of_error (Collect.perform_throw _)]
      exact ⟨_, rfl⟩
    rw [readLeaves_eq_pure v hrv (v.converts_iff.2 hv), bind_of_ok (Collect.perform_pure_run _)]
    cases hvacuous : v.vacuous with
    | true =>
      simp only [hvacuous, if_true, reduceCtorEq, true_and, false_or] at h
      rw [if_neg (fun hne => hne (v.leaves_eq_nil_iff.2 hvacuous))]
      exact ih hres h
    | false =>
      simp only [hvacuous, Bool.false_eq_true, if_false] at h
      rw [if_pos (v.leaves_ne_nil hvacuous)]
      rcases h with hkey | ⟨hkey, hes⟩
      · rw [readLeaves_of_fault key hrkey hkey, bind_of_error (Collect.perform_throw _)]
        exact ⟨_, rfl⟩
      · rw [readLeaves_eq_pure key hrkey (key.converts_iff.2 hkey), bind_of_ok (Collect.perform_pure_run _),
          bind_of_ok (Collect.yield_run _ _)]
        exact ih hres hes

/-- **A value with a fault yields it**, with or without units before it. -/
theorem collectValue_of_fault (r : VariableReference) {v : Value} (hr : v.Rereadable) (h : v.fault? = some f) :
    ∃ y', collectValue op r v y = (.error f, y') := by
  have hleaves : ∃ y', (Collect.perform v.readLeaves >>= Collect.yield (op.labelOf r.name)) y = (.error f, y') := by
    rw [readLeaves_of_fault v hr h, bind_of_error (Collect.perform_throw _)]
    exact ⟨_, rfl⟩
  cases v with
  | null => cases h
  | scalar s =>
    rw [collectValue, Scalar.fault?_eq_some_iff.1 h]
    exact ⟨_, bind_of_error (Collect.perform_throw _)⟩
  | sequence kind vs =>
    obtain ⟨hvs, hread⟩ := SequenceKind.read_of_rereadable hr
    rw [collectValue]
    split
    · rw [hread, bind_of_ok (Collect.perform_pure_run _)]
      exact collectItems_of_fault _ hvs h
    · exact hleaves
  | mapping es =>
    rw [collectValue]
    split
    · exact collectPairs_of_fault hr h
    · exact hleaves

theorem collectReferences_of_fault {resolve : Resolver} {rs : List VariableReference} {vs : List Value} {w : World}
    (hvalues : (rs.map (·.name)).mapM resolve y.world = (.ok vs, w)) (hr : ∀ v ∈ vs, v.Rereadable)
    (h : vs.findSome? Value.fault? = some f) : ∃ y', collectReferences resolve op rs y = (.error f, y') := by
  induction rs generalizing y vs with
  | nil =>
    obtain ⟨rfl, -⟩ := pure_eq_ok hvalues
    cases h
  | cons r rs ih =>
    rw [List.map_cons, List.mapM_cons] at hvalues
    obtain ⟨v, w₁, hv, hrest⟩ := bind_eq_ok hvalues
    obtain ⟨vs', w₂, hvs, hpure⟩ := bind_eq_ok hrest
    obtain ⟨rfl, rfl⟩ := pure_eq_ok hpure
    obtain ⟨hrv, hrvs⟩ := List.forall_mem_cons.1 hr
    rw [List.findSome?_cons] at h
    rw [collectReferences, collectReference]
    cases hfault : v.fault? with
    | none =>
      rw [hfault] at h
      have hreference : collectReference resolve op r y = (.ok (), ⟨y.units ++ r.units op v, w₁⟩) := by
        rw [collectReference, bind_of_ok (Collect.perform_run hv)]
        exact collectValue_run r hrv (v.converts_iff.2 hfault)
      rw [← collectReference, bind_of_ok hreference]
      exact ih hvs hrvs h
    | some f' =>
      rw [hfault] at h
      cases h
      have hvalue : ∃ y', collectValue op r v { y with world := w₁ } = (.error f, y') :=
        collectValue_of_fault r hrv hfault
      obtain ⟨y', hy'⟩ := hvalue
      rw [bind_of_error ((bind_of_ok (Collect.perform_run hv)).trans hy')]
      exact ⟨_, rfl⟩

end

theorem Value.findSome?_fault?_eq_none_iff (vs : List Value) :
    vs.findSome? Value.fault? = none ↔ ∀ v ∈ vs, v.Converts := by
  simp only [List.findSome?_eq_none_iff, Value.converts_iff]

theorem Value.exists_hasFault_of_findSome? {vs : List Value} {f : Fault} (h : vs.findSome? Value.fault? = some f) :
    ∃ v ∈ vs, v.HasFault f := by
  obtain ⟨v, hv, hfault⟩ := List.exists_of_findSome?_eq_some h
  exact ⟨v, hv, v.hasFault_of_fault? hfault⟩

/-- **An expansion fails with the first fault of its values.** -/
theorem emitElements_of_fault {resolve : Resolver} {es : List Element} (hbare : ∀ s, .bare s ∉ es)
    {vs : List Value} {w w' : World} (hvalues : (es.flatMap Element.names).mapM resolve w = (.ok vs, w'))
    (hr : ∀ v ∈ vs, v.Rereadable) {f : Fault} (h : vs.findSome? Value.fault? = some f) (base : Text) :
    ∃ o, emitElements resolve es (.ofSink base w) = (.error f, o) := by
  induction es generalizing vs w base with
  | nil =>
    obtain ⟨rfl, -⟩ := pure_eq_ok hvalues
    cases h
  | cons e es ih =>
    have hbare' : ∀ s, .bare s ∉ es := fun s h => hbare s (List.mem_cons_of_mem _ h)
    cases e with
    | bare s => exact absurd (by simp) (hbare s)
    | literal s =>
      have hwrite : emitElement resolve (.literal s) (.ofSink base w) = (.ok (), .ofSink (base ++ s.text) w) := by
        rw [← Output.write_ofSink]
        rfl
      rw [emitElements, bind_of_ok hwrite]
      exact ih hbare' hvalues hr h _
    | expression s op rs =>
      rw [List.flatMap_cons, List.mapM_append] at hvalues
      obtain ⟨vs₁, w₁, h₁, hrest⟩ := bind_eq_ok hvalues
      obtain ⟨vs₂, w₂, h₂, hpure⟩ := bind_eq_ok hrest
      obtain ⟨rfl, rfl⟩ := pure_eq_ok hpure
      obtain ⟨hr₁, hr₂⟩ := List.forall_mem_append.1 hr
      have hwrite := emitElement_expression resolve s op rs base w
      rw [List.findSome?_append, Option.or_eq_some_iff] at h
      rw [emitElements]
      rcases h with h₁' | ⟨hnone, h₂'⟩
      · have hcollect : ∃ y, collectReferences resolve op rs { world := w } = (.error f, y) :=
          collectReferences_of_fault h₁ hr₁ h₁'
        obtain ⟨y, hy⟩ := hcollect
        rw [hy] at hwrite
        rw [bind_of_error hwrite]
        exact ⟨_, rfl⟩
      · -- this expression is written, so the value is one of those behind it
        have hyield : collectReferences resolve op rs { world := w } = (.ok (), ⟨unitsOf op rs vs₁, w₁⟩) :=
          collectReferences_run h₁ hr₁ ((Value.findSome?_fault?_eq_none_iff vs₁).1 hnone)
        rw [hyield] at hwrite
        rw [bind_of_ok hwrite]
        exact ih hbare' h₂ hr₂ h₂' _

/-- A resolver that always answers gives a value for every name of a list. -/
theorem Resolver.exists_mapM {resolve : Resolver} {P : Value → Prop}
    (h : ∀ name w, ∃ v w', resolve name w = (.ok v, w') ∧ P v) (names : List Text) (w : World) :
    ∃ vs w', names.mapM resolve w = (.ok vs, w') ∧ ∀ v ∈ vs, P v := by
  induction names generalizing w with
  | nil => exact ⟨[], w, rfl, by simp⟩
  | cons name names ih =>
    obtain ⟨v, w₁, hv, hPv⟩ := h name w
    obtain ⟨vs, w₂, hvs, hPvs⟩ := ih w₁
    refine ⟨v :: vs, w₂, ?_, List.forall_mem_cons.2 ⟨hPv, hPvs⟩⟩
    rw [List.mapM_cons, bind_of_ok hv, bind_of_ok hvs]
    rfl

section

variable {source : Text} {t : Template} (hparse : Template.parse source = .ok t) {sources : List Source}
  {named : Table Text Value} {resolve : Resolver} (hresolve : Resolver.ofSources sources named = .ok resolve)

include hparse hresolve

/-- An expansion with a value that has a fault. -/
theorem Template.expand_of_fault {values : List Value} {w w' : World}
    (hvalues : t.names.mapM resolve w = (.ok values, w')) (hr : ∀ v ∈ values, v.Rereadable) {f : Fault}
    (h : values.findSome? Value.fault? = some f) : (t.expand sources named w).1 = .error f := by
  obtain ⟨o, ho⟩ := emitElements_of_fault (Template.spellable hparse).bare_not_mem hvalues hr h []
  rw [Template.expand_of_resolver hresolve]
  unfold expandElements
  have hrun : emitElements resolve t.elements { world := w } = (.error f, o) := ho
  rw [hrun]
  rfl

/-- **The outcome of an expansion.**  The resolver always gives a value, and one that may be read again.  The expansion is
a text if no single value in the values of the references is without one.  Otherwise it fails with the first such fault.
If no object is without a text, the only fault is an integer that is too long. -/
theorem expand_outcome (hanswers : ∀ name w, ∃ v w', resolve name w = (.ok v, w') ∧ v.Rereadable) (w : World) :
    ∃ values w', t.names.mapM resolve w = (.ok values, w') ∧
      ((∃ text, t.expand sources named w = (.ok text, w')) ↔ ∀ v ∈ values, ∀ f, ¬ v.HasFault f) ∧
      (∀ f, (t.expand sources named w).1 = .error f ↔ values.findSome? Value.fault? = some f) ∧
      ((∀ v ∈ values, ∀ r, ¬ v.HasFault (.raised r)) →
        ((∃ text, t.expand sources named w = (.ok text, w')) ↔ ∀ v ∈ values, ¬ v.HasFault .integerTooLong) ∧
        ((t.expand sources named w).1 = .error .integerTooLong ↔ ∃ v ∈ values, v.HasFault .integerTooLong)) := by
  obtain ⟨values, w', hvalues, hr⟩ := Resolver.exists_mapM hanswers t.names w
  refine ⟨values, w', hvalues, ?_⟩
  have hfaults : values.findSome? Value.fault? = none ↔ ∀ v ∈ values, ∀ f, ¬ v.HasFault f := by
    simp only [List.findSome?_eq_none_iff, Value.fault?_eq_none_iff]
  -- objects apart, there is one fault only
  have honly : (∀ v ∈ values, ∀ r, ¬ v.HasFault (.raised r)) →
      ((∀ v ∈ values, ∀ f, ¬ v.HasFault f) ↔ ∀ v ∈ values, ¬ v.HasFault .integerTooLong) := by
    intro hobjects
    refine ⟨fun h v hv => h v hv _, fun h v hv f hfault => ?_⟩
    rcases hfault.cases with rfl | ⟨r, rfl⟩
    · exact h v hv hfault
    · exact hobjects v hv r hfault
  cases h : values.findSome? Value.fault? with
  | none =>
    have hexpand := t.expand_eq hparse hresolve hvalues hr ((Value.findSome?_fault?_eq_none_iff values).1 h)
    have hnone := hfaults.1 h
    rw [hexpand]
    refine ⟨⟨fun _ => hnone, fun _ => ⟨_, rfl⟩⟩, fun f => ⟨nofun, nofun⟩, fun _ => ⟨?_, nofun, ?_⟩⟩
    · exact ⟨fun _ v hv => hnone v hv _, fun _ => ⟨_, rfl⟩⟩
    · rintro ⟨v, hv, hfault⟩
      exact absurd hfault (hnone v hv _)
  | some f =>
    have hexpand := Template.expand_of_fault hparse hresolve hvalues hr h
    have hnot : ¬ ∃ text, t.expand sources named w = (.ok text, w') := by
      rintro ⟨text, htext⟩
      rw [htext] at hexpand
      cases hexpand
    have hsome : ¬ ∀ v ∈ values, ∀ f, ¬ v.HasFault f := by
      rw [← hfaults, h]
      exact nofun
    refine ⟨⟨fun htext => absurd htext hnot, fun hnone => absurd hnone hsome⟩, fun f' => ?_, fun hobjects => ?_⟩
    · rw [hexpand, Except.error.injEq, Option.some.injEq]
    · have hlong := (not_congr (honly hobjects)).1 hsome
      obtain ⟨v, hv, hfault⟩ := Value.exists_hasFault_of_findSome? h
      have hinteger : f = .integerTooLong := by
        rcases hfault.cases with hf | ⟨r, rfl⟩
        · exact hf
        · exact absurd hfault (hobjects v hv r)
      subst hinteger
      exact ⟨⟨fun htext => absurd htext hnot, fun hnone => absurd hnone hlong⟩, fun _ => ⟨v, hv, hfault⟩, fun _ => hexpand⟩

end

/-- A long integer for the key of a pair without a value is not written. -/
theorem expand_outcome_key :
    let m : Value := .mapping [(.int (10 ^ maxDigits), .list [.null]), (.int (-7), .scalar (.bytes [0xC3, 0xA9]))]
    let named : Table Text Value := [("m", m), ("b", .bool true)]
    let t : Template := ⟨"{m*}{/b}", [.expression ⟨"{m*}", 0, 4⟩ .simple [{ name := "m", explode := true }],
      .expression ⟨"{/b}", 4, 8⟩ .pathSegment [{ name := "b" }]]⟩
    Template.parse ("{m*}{/b}" : Text) = .ok t ∧ Resolver.ofSources [] named = .ok (.ofTable named) ∧
      (∀ name w, ∃ v w', Resolver.ofTable named name w = (.ok v, w') ∧ v.Rereadable) ∧
      ∃ text, t.expand [] named {} = (.ok text, {}) := by
  intro m named t
  have hparse : Template.parse ("{m*}{/b}" : Text) = .ok t := rfl
  have hresolve : Resolver.ofSources [] named = .ok (.ofTable named) := rfl
  have hstateless : (Resolver.ofTable named).Stateless :=
    Resolver.stateless_ofTable (by simp [named, m, Value.Rereadable, Value.RereadableItems, Value.RereadableEntries])
  have hanswers : ∀ name w, ∃ v w', Resolver.ofTable named name w = (.ok v, w') ∧ v.Rereadable :=
    fun name w => ⟨_, w, rfl, (hstateless name w).2 _ rfl⟩
  refine ⟨hparse, hresolve, hanswers, ?_⟩
  have hvalues : t.names.mapM (Resolver.ofTable named) {} = (.ok [m, .bool true], {}) := rfl
  obtain ⟨values, w', hvalues', hok, -⟩ := expand_outcome hparse hresolve hanswers {}
  cases hvalues.symm.trans hvalues'
  have hshort : ∃ u, intText (-7) = .ok u := by
    have hlt : (-7 : Int).natAbs < 10 ^ maxDigits :=
      Nat.lt_of_lt_of_le (by decide : 7 < 10 ^ 1) (Nat.pow_le_pow_right (by decide) (by decide))
    exact ⟨_, by rw [intText, if_pos hlt]⟩
  refine hok.2 fun v hv => v.not_hasFault_of_converts ?_
  revert v
  refine List.forall_mem_cons.2 ⟨?_, List.forall_mem_singleton.2 ⟨_, rfl⟩⟩
  simpa [m, Value.Converts, Value.ConvertsItems, Value.ConvertsEntries, Value.vacuous, Value.vacuousItems,
    Scalar.toText] using hshort

/-- The integer `10 ^ maxDigits` has one digit too many. -/
theorem expand_not_text_long_integer :
    let t : Template := ⟨"{x}", [.expression ⟨"{x}", 0, 3⟩ .simple [{ name := "x" }]]⟩
    let named : Table Text Value := [("x", .int (10 ^ maxDigits))]
    Template.parse ("{x}" : Text) = .ok t ∧ Resolver.ofSources [] named = .ok (.ofTable named) ∧
      t.names.mapM (Resolver.ofTable named) {} = (.ok [.int (10 ^ maxDigits)], {}) ∧
      t.expand [] named {} = (.error .integerTooLong, {}) := by
  intro t named
  have hfault := Value.fault?_of_long le_natAbs_ten_pow
  have hstateless : (Resolver.ofTable named).Stateless := Resolver.stateless_ofTable (by simp [named, Value.Rereadable])
  have hparse : Template.parse ("{x}" : Text) = .ok t := rfl
  have hresolve : Resolver.ofSources [] named = .ok (.ofTable named) := rfl
  have hvalues : t.names.mapM (Resolver.ofTable named) {} = (.ok [.int (10 ^ maxDigits)], {}) := rfl
  refine ⟨hparse, hresolve, hvalues, Prod.ext ?_ ?_⟩
  · have hfirst : ∀ {v : Value} {f : Fault}, v.fault? = some f → [v].findSome? Value.fault? = some f := by
      intro v f h
      rw [List.findSome?_cons, h]
    exact Template.expand_of_fault hparse hresolve hvalues (by simp [Value.Rereadable]) (hfirst hfault)
  · rw [Template.expand_of_resolver hresolve]
    exact expandElements_keeps hstateless t.elements {}

end UriTemplate
