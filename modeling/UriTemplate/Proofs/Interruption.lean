import UriTemplate.Proofs.Conversion
import UriTemplate.Proofs.LeafOrigin

/-!
# Expansions that break off

An expansion is written while the values are read.  If it fails, what has been written is known: it is the expansion of
the elements before the one that failed, and the units which that one had completed.

* `Collect.Appends` — a collector adds units to those that are there, whichever they are;
* `Value.Breaks`, `Value.readLeaves_eq_error_iff` — where the reading of a value breaks off: the value of a pair is read
  before its key;
* `Value.Fails`, `collectValue_eq_error_iff` — where a value fails that is written, and the units before that place;
* `Interrupted`, `collectReferences_eq_error_iff` — where an expression fails: at the call of the resolver for a
  reference, or in the value that it gives;
* `BreaksOff`, `emitElements_of_breaksOff`, `exists_breaksOff` — where an expansion fails;
* `expansion_streams` — expanding into a sink and into a text are the same, to the end or up to a fault.
-/

namespace UriTemplate

/-! ## collectors and the units before -/

/-- What the action does and yields does not depend on the units that there are. -/
def Collect.Appends {α : Type} (m : Collect α) : Prop :=
  ∀ w, ∃ r us w', ∀ base, m ⟨base, w⟩ = (r, ⟨base ++ us, w'⟩)

namespace Collect.Appends

variable {α β : Type}

theorem pure (a : α) : Collect.Appends (Pure.pure a) :=
  fun w => ⟨.ok a, [], w, fun base => by rw [List.append_nil]; rfl⟩

theorem perform (a : Act α) : Collect.Appends (Collect.perform a) :=
  fun w => ⟨(a w).1, [], (a w).2, fun base => by rw [List.append_nil]; rfl⟩

theorem yield (label : Label) (leaves : List Text) : Collect.Appends (Collect.yield label leaves) :=
  fun w => ⟨.ok (), _, w, fun _ => Collect.yield_run label leaves⟩

theorem bind {m : Collect α} {f : α → Collect β} (hm : Appends m) (hf : ∀ a, Appends (f a)) : Appends (m >>= f) := by
  intro w
  obtain ⟨r, us, w₁, hrun⟩ := hm w
  cases r with
  | error e => exact ⟨.error e, us, w₁, fun base => bind_of_error (hrun base)⟩
  | ok a =>
    obtain ⟨r, more, w₂, hrest⟩ := hf a w₁
    refine ⟨r, us ++ more, w₂, fun base => ?_⟩
    rw [bind_of_ok (hrun base), hrest, List.append_assoc]

theorem forM {as : List α} {f : α → Collect Unit} (hf : ∀ a, Appends (f a)) : Appends (forM as f) := by
  induction as with
  | nil => exact pure ()
  | cons a as ih =>
    rw [List.forM_cons]
    exact (hf a).bind fun _ => ih

/-- One run is enough to know the others. -/
theorem run {m : Collect α} (hm : Appends m) {r : Except Fault α} {us : List ExpansionUnit} {w w' : World}
    (h : m { world := w } = (r, ⟨us, w'⟩)) (base : List ExpansionUnit) : m ⟨base, w⟩ = (r, ⟨base ++ us, w'⟩) := by
  obtain ⟨r', us', w'', hrun⟩ := hm w
  have hempty := hrun []
  rw [h, List.nil_append] at hempty
  cases hempty
  exact hrun base

end Collect.Appends

/-- Collects the units of one item. -/
def collectItem (label : Label) (v : Value) : Collect Unit := do
  Collect.yield label (← Collect.perform v.readLeaves)

/-- Collects the unit of one pair. -/
def collectPair (e : Value × Value) : Collect Unit := do
  let leaves ← Collect.perform e.2.readLeaves
  if leaves ≠ [] then Collect.yield (.key (← Collect.perform e.1.readLeaves)) leaves

theorem collectItems_eq_forM (label : Label) (vs : List Value) : collectItems label vs = forM vs (collectItem label) := by
  induction vs with
  | nil => rfl
  | cons v vs ih => rw [collectItems, ih, List.forM_cons, collectItem, bind_assoc]

theorem collectPairs_eq_forM (es : List (Value × Value)) : collectPairs es = forM es collectPair := by
  induction es with
  | nil => rfl
  | cons e es ih =>
    obtain ⟨key, v⟩ := e
    rw [collectPairs, ih, List.forM_cons, collectPair, bind_assoc]
    congr 1
    funext leaves
    split <;> simp

theorem collectReferences_eq_forM (resolve : Resolver) (op : Operator) (rs : List VariableReference) :
    collectReferences resolve op rs = forM rs (collectReference resolve op) := by
  induction rs with
  | nil => rfl
  | cons r rs ih => rw [collectReferences, ih, List.forM_cons]

theorem emitElements_eq_forM (resolve : Resolver) (es : List Element) :
    emitElements resolve es = forM es (emitElement resolve) := by
  induction es with
  | nil => rfl
  | cons e es ih => rw [emitElements, ih, List.forM_cons]

theorem collectItem_appends (label : Label) (v : Value) : Collect.Appends (collectItem label v) :=
  (Collect.Appends.perform _).bind fun _ => .yield _ _

theorem collectPair_appends (e : Value × Value) : Collect.Appends (collectPair e) := by
  refine (Collect.Appends.perform _).bind fun leaves => ?_
  split
  · exact (Collect.Appends.perform _).bind fun _ => .yield _ _
  · exact .pure ()

theorem collectValue_appends (op : Operator) (r : VariableReference) (v : Value) :
    Collect.Appends (collectValue op r v) := by
  cases v with
  | null => exact .pure ()
  | scalar s => exact (Collect.Appends.perform _).bind fun _ => .yield _ _
  | sequence kind vs =>
    rw [collectValue]
    split
    · refine (Collect.Appends.perform _).bind fun items => ?_
      rw [collectItems_eq_forM]
      exact .forM (collectItem_appends _)
    · exact (Collect.Appends.perform _).bind fun _ => .yield _ _
  | mapping es =>
    rw [collectValue]
    split
    · rw [collectPairs_eq_forM]
      exact .forM collectPair_appends
    · exact (Collect.Appends.perform _).bind fun _ => .yield _ _

theorem collectReference_appends (resolve : Resolver) (op : Operator) (r : VariableReference) :
    Collect.Appends (collectReference resolve op r) :=
  (Collect.Appends.perform _).bind fun v => collectValue_appends op r v

theorem collectReferences_appends (resolve : Resolver) (op : Operator) (rs : List VariableReference) :
    Collect.Appends (collectReferences resolve op rs) := by
  rw [collectReferences_eq_forM]
  exact .forM (collectReference_appends resolve op)

/-! ## where the reading of a value breaks off -/

theorem Act.exists_drain (id : Nat) (w : World) : ∃ fresh w₁, Act.drain id w = (.ok fresh, w₁) := by
  have hget : (get : Act World) w = (.ok w, w) := rfl
  unfold Act.drain
  rw [bind_of_ok hget]
  cases w.drained.contains id <;> exact ⟨_, _, rfl⟩

/-- Reading the items of a sequence does not fail. -/
theorem SequenceKind.exists_read (kind : SequenceKind) (vs : List Value) (w : World) :
    ∃ items w₁, kind.read vs w = (.ok items, w₁) := by
  have hpure : ∃ items w₁, (pure vs : Act (List Value)) w = (.ok items, w₁) := ⟨vs, w, rfl⟩
  cases kind with
  | stream id =>
    obtain ⟨fresh, w₁, hdrain⟩ := Act.exists_drain id w
    have hread : SequenceKind.read (.stream id) vs w =
        (if fresh then pure vs else pure [] : Act (List Value)) w₁ := bind_of_ok hdrain
    rw [hread]
    cases fresh <;> exact ⟨_, _, rfl⟩
  | list => exact hpure
  | tuple => exact hpure
  | set => exact hpure
  | range => exact hpure

/-- Reads the leaves of a pair. -/
def Value.readEntry (e : Value × Value) : Act (List Text) := do
  let texts ← e.2.readLeaves
  if texts = [] then return [] else return keyLeaves (← e.1.readLeaves) ++ texts

/-- **Where the reading of a value breaks off**, and the fault: at a single value that has no text, when all that comes
before it is read.  Items and pairs come from left to right, but the value of a pair comes before its key, and the key is
read only if the value has leaves. -/
inductive Value.Breaks : Value → World → Fault → World → Prop
  | text {s : Scalar} {e : Fault} {w : World} (fault : s.toText = .error e) : Breaks (.scalar s) w e w
  | item {kind : SequenceKind} {vs before after : List Value} {v : Value} {leaves : List (List Text)} {e : Fault}
      {w w₁ w₂ w' : World} (read : kind.read vs w = (.ok (before ++ v :: after), w₁))
      (done : before.mapM readLeaves w₁ = (.ok leaves, w₂)) (fault : Breaks v w₂ e w') :
      Breaks (.sequence kind vs) w e w'
  | value {before after : List (Value × Value)} {key v : Value} {leaves : List (List Text)} {e : Fault}
      {w w₁ w' : World} (done : before.mapM readEntry w = (.ok leaves, w₁)) (fault : Breaks v w₁ e w') :
      Breaks (.mapping (before ++ (key, v) :: after)) w e w'
  | key {before after : List (Value × Value)} {key v : Value} {leaves : List (List Text)} {texts : List Text} {e : Fault}
      {w w₁ w₂ w' : World} (done : before.mapM readEntry w = (.ok leaves, w₁))
      (value : v.readLeaves w₁ = (.ok texts, w₂)) (written : texts ≠ []) (fault : Breaks key w₂ e w') :
      Breaks (.mapping (before ++ (key, v) :: after)) w e w'

namespace Value

theorem readLeavesItems_eq_mapM (vs : List Value) : readLeavesItems vs = List.flatten <$> vs.mapM readLeaves := by
  induction vs with
  | nil => rfl
  | cons v vs ih =>
    rw [readLeavesItems, ih, List.mapM_cons]
    simp only [map_eq_pure_bind, bind_assoc, pure_bind, List.flatten_cons]

theorem readLeavesEntries_eq_mapM (es : List (Value × Value)) :
    readLeavesEntries es = List.flatten <$> es.mapM readEntry := by
  induction es with
  | nil => rfl
  | cons e es ih =>
    obtain ⟨key, v⟩ := e
    rw [readLeavesEntries, ih, List.mapM_cons, readEntry]
    simp only [map_eq_pure_bind, bind_assoc, pure_bind]
    congr 1
    funext texts
    split <;> simp

section

variable {w w' : World} {e : Fault}

theorem map_eq_error_iff {α β : Type} {f : α → β} {a : Act α} :
    (f <$> a) w = (.error e, w') ↔ a w = (.error e, w') := by
  rw [map_eq_pure_bind, bind_eq_error_iff]
  exact ⟨fun h => h.resolve_right nofun, .inl⟩

theorem readLeaves_scalar_eq_error_iff {s : Scalar} :
    (scalar s).readLeaves w = (.error e, w') ↔ s.toText = .error e ∧ w = w' := by
  rw [readLeaves]
  cases s.toText with
  | ok t => exact ⟨nofun, nofun⟩
  | error f =>
    constructor
    · rintro ⟨⟩
      exact ⟨rfl, rfl⟩
    · rintro ⟨⟨⟩, rfl⟩
      rfl

theorem readEntry_eq_error_iff {key v : Value} :
    readEntry (key, v) w = (.error e, w') ↔
      v.readLeaves w = (.error e, w') ∨
        ∃ texts w₁, v.readLeaves w = (.ok texts, w₁) ∧ texts ≠ [] ∧ key.readLeaves w₁ = (.error e, w') := by
  have hbind : readEntry (key, v) = v.readLeaves >>= fun texts =>
      if texts = [] then pure [] else key.readLeaves >>= fun ks => pure (keyLeaves ks ++ texts) := rfl
  rw [hbind, bind_eq_error_iff]
  refine or_congr_right (exists_congr fun texts => exists_congr fun w₁ => and_congr_right fun _ => ?_)
  split
  · next hnil => exact ⟨nofun, fun h => absurd hnil h.1⟩
  · next hne =>
    rw [bind_eq_error_iff]
    exact ⟨fun h => ⟨hne, h.resolve_right nofun⟩, fun h => .inl h.2⟩

mutual
/-- Reading fails only where it breaks off. -/
theorem breaks_of_readLeaves (v : Value) {w w' : World} {e : Fault} (h : v.readLeaves w = (.error e, w')) :
    v.Breaks w e w' := by
  cases v with
  | null => cases h
  | scalar s =>
    obtain ⟨ht, rfl⟩ := readLeaves_scalar_eq_error_iff.1 h
    exact .text ht
  | sequence kind vs =>
    rw [readLeaves_sequence, bind_eq_error_iff] at h
    obtain ⟨items, w₁, hread⟩ := kind.exists_read vs w
    rcases h with h | ⟨items', w₂, hread', h⟩
    · cases hread.symm.trans h
    cases hread.symm.trans hread'
    rw [readLeavesItems_eq_mapM, map_eq_error_iff, mapM_eq_error_iff] at h
    obtain ⟨before, v, after, leaves, w₂, hitems, hdone, hv⟩ := h
    rcases SequenceKind.read_cases hread with hvs | rfl
    · have hsplit : kind.read vs w = (.ok (before ++ v :: after), w₁) := by rw [hread, ← hitems]
      have hmem : v ∈ vs := by rw [← hvs, hitems]; simp
      exact .item hsplit hdone (breaks_of_items vs v hmem _ _ _ hv)
    · simp at hitems
  | mapping es =>
    rw [readLeaves, readLeavesEntries_eq_mapM, map_eq_error_iff, mapM_eq_error_iff] at h
    obtain ⟨before, ⟨key, v⟩, after, leaves, w₁, hes, hdone, h⟩ := h
    obtain ⟨hkey, hv⟩ := breaks_of_entries es (key, v) (by simp [hes])
    rw [hes]
    rcases readEntry_eq_error_iff.1 h with h | ⟨texts, w₂, hvalue, hne, h⟩
    · exact .value hdone (hv _ _ _ h)
    · exact .key hdone hvalue hne (hkey _ _ _ h)
theorem breaks_of_items (vs : List Value) :
    ∀ v ∈ vs, ∀ w w' e, v.readLeaves w = (.error e, w') → v.Breaks w e w' := by
  match vs with
  | [] => exact nofun
  | v :: vs => exact List.forall_mem_cons.2 ⟨fun _ _ _ h => breaks_of_readLeaves v h, breaks_of_items vs⟩
theorem breaks_of_entries (es : List (Value × Value)) :
    ∀ p ∈ es, (∀ w w' e, p.1.readLeaves w = (.error e, w') → p.1.Breaks w e w') ∧
      ∀ w w' e, p.2.readLeaves w = (.error e, w') → p.2.Breaks w e w' := by
  match es with
  | [] => exact nofun
  | (key, v) :: es =>
    refine List.forall_mem_cons.2 ⟨⟨fun _ _ _ h => ?_, fun _ _ _ h => ?_⟩, breaks_of_entries es⟩
    · exact breaks_of_readLeaves key h
    · exact breaks_of_readLeaves v h
end

/-- **Reading a value fails where it breaks off.** -/
theorem readLeaves_eq_error_iff {v : Value} : v.readLeaves w = (.error e, w') ↔ v.Breaks w e w' := by
  refine ⟨breaks_of_readLeaves v, fun h => ?_⟩
  induction h with
  | text fault => rw [readLeaves, fault]; rfl
  | item read done fault ih =>
    rw [readLeaves_sequence, bind_of_ok read, readLeavesItems_eq_mapM, map_eq_error_iff, mapM_eq_error_iff]
    exact ⟨_, _, _, _, _, rfl, done, ih⟩
  | value done fault ih =>
    rw [readLeaves, readLeavesEntries_eq_mapM, map_eq_error_iff, mapM_eq_error_iff]
    exact ⟨_, _, _, _, _, rfl, done, readEntry_eq_error_iff.2 (.inl ih)⟩
  | key done value written fault ih =>
    rw [readLeaves, readLeavesEntries_eq_mapM, map_eq_error_iff, mapM_eq_error_iff]
    exact ⟨_, _, _, _, _, rfl, done, readEntry_eq_error_iff.2 (.inr ⟨_, _, value, written, ih⟩)⟩

/-- What breaks a reading off is an integer that is too long, or an object without a text. -/
theorem Breaks.cases {v : Value} (h : v.Breaks w e w') : e = .integerTooLong ∨ ∃ r, e = .raised r := by
  induction h with
  | @text s e w fault =>
    rcases s.toText_cases with ⟨t, ht⟩ | ⟨i, rfl, long⟩ | ⟨r, rfl⟩
    · cases ht.symm.trans fault
    · cases (intText_of_long long).symm.trans fault
      exact .inl rfl
    · cases fault
      exact .inr ⟨r, rfl⟩
  | item _ _ _ ih => exact ih
  | value _ _ ih => exact ih
  | key _ _ _ _ ih => exact ih

end

end Value

/-! ## where a value fails -/

/-- Reading a pair fails.  Its value comes first, and its key is read only if the value has leaves. -/
def PairFails (key v : Value) (w : World) (e : Fault) (w' : World) : Prop :=
  v.Breaks w e w' ∨ ∃ leaves w₁, v.readLeaves w = (.ok leaves, w₁) ∧ leaves ≠ [] ∧ key.Breaks w₁ e w'

/-- **Where a value fails that is written**, and the units that were complete by then.  A value that is written as one unit
has none.  If members are written one by one, these are the units of the members before the one that fails. -/
inductive Value.Fails (op : Operator) (r : VariableReference) (w : World) :
    Value → List ExpansionUnit → Fault → World → Prop
  | whole {v : Value} {e : Fault} {w' : World} (one : r.explode = false ∨ v.isScalar = true)
      (fault : v.Breaks w e w') : Fails op r w v [] e w'
  | item {kind : SequenceKind} {vs before after : List Value} {v : Value} {units : List ExpansionUnit} {e : Fault}
      {w₁ w₂ w' : World} (explode : r.explode = true) (read : kind.read vs w = (.ok (before ++ v :: after), w₁))
      (done : collectItems (op.labelOf r.name) before { world := w₁ } = (.ok (), ⟨units, w₂⟩))
      (fault : v.Breaks w₂ e w') : Fails op r w (.sequence kind vs) units e w'
  | pair {before after : List (Value × Value)} {key v : Value} {units : List ExpansionUnit} {e : Fault} {w₁ w' : World}
      (explode : r.explode = true) (done : collectPairs before { world := w } = (.ok (), ⟨units, w₁⟩))
      (fault : PairFails key v w₁ e w') : Fails op r w (.mapping (before ++ (key, v) :: after)) units e w'

section

variable {y y' : Yield} {e : Fault}

theorem Collect.perform_eq_error_iff {α : Type} {a : Act α} :
    Collect.perform a y = (.error e, y') ↔ ∃ w', a y.world = (.error e, w') ∧ y' = { y with world := w' } := by
  cases ha : a y.world with
  | mk r w =>
    rw [Collect.perform_run ha]
    constructor
    · rintro ⟨⟩
      exact ⟨w, rfl, rfl⟩
    · rintro ⟨w', ⟨⟩, rfl⟩
      rfl

theorem Collect.yield_ne_error (label : Label) (leaves : List Text) : Collect.yield label leaves y ≠ (.error e, y') := by
  rw [Collect.yield_run]
  rintro ⟨⟩

/-- One unit fails with the reading of its leaves. -/
theorem Collect.perform_yield_eq_error_iff {α : Type} {a : Act α} {label : Label} {leaves : α → List Text} :
    (Collect.perform a >>= fun x => Collect.yield label (leaves x)) y = (.error e, y') ↔
      ∃ w', a y.world = (.error e, w') ∧ y' = { y with world := w' } := by
  rw [bind_eq_error_iff, Collect.perform_eq_error_iff]
  constructor
  · rintro (h | ⟨x, y₁, -, h⟩)
    · exact h
    · exact absurd h (Collect.yield_ne_error _ _)
  · exact .inl

theorem collectPair_eq_error_iff {p : Value × Value} :
    collectPair p y = (.error e, y') ↔ ∃ w', PairFails p.1 p.2 y.world e w' ∧ y' = { y with world := w' } := by
  obtain ⟨key, v⟩ := p
  have hbind : collectPair (key, v) = Collect.perform v.readLeaves >>= fun leaves =>
      if leaves ≠ [] then Collect.perform key.readLeaves >>= fun k => Collect.yield (.key k) leaves else pure () := rfl
  rw [hbind, bind_eq_error_iff, Collect.perform_eq_error_iff]
  simp only [PairFails, ← Value.readLeaves_eq_error_iff]
  constructor
  · rintro (⟨w', h, rfl⟩ | ⟨leaves, y₁, hv, h⟩)
    · exact ⟨w', .inl h, rfl⟩
    · cases hread : v.readLeaves y.world with
      | mk r w₁ =>
        rw [Collect.perform_run hread] at hv
        cases hv
        split at h
        · next hne =>
          rw [bind_eq_error_iff, Collect.perform_eq_error_iff] at h
          rcases h with ⟨w', h, rfl⟩ | ⟨k, y₂, -, h⟩
          · exact ⟨w', .inr ⟨leaves, w₁, rfl, hne, h⟩, rfl⟩
          · exact absurd h (Collect.yield_ne_error _ _)
        · cases h
  · rintro ⟨w', h | ⟨leaves, w₁, hv, hne, hkey⟩, rfl⟩
    · exact .inl ⟨w', h, rfl⟩
    · refine .inr ⟨leaves, _, Collect.perform_run hv, ?_⟩
      rw [if_pos hne, bind_of_error (Collect.perform_run hkey)]

end

section

variable {op : Operator} {r : VariableReference} {w w' : World} {units : List ExpansionUnit} {e : Fault}

theorem collectItems_eq_error_iff {label : Label} {vs : List Value} :
    collectItems label vs { world := w } = (.error e, ⟨units, w'⟩) ↔
      ∃ before v after w₁, vs = before ++ v :: after ∧
        collectItems label before { world := w } = (.ok (), ⟨units, w₁⟩) ∧ v.Breaks w₁ e w' := by
  simp only [collectItems_eq_forM, ← Value.readLeaves_eq_error_iff]
  rw [forM_eq_error_iff]
  constructor
  · rintro ⟨before, v, after, ⟨us, w₁⟩, rfl, hdone, h⟩
    obtain ⟨w₂, hfault, hy⟩ := Collect.perform_yield_eq_error_iff.1 h
    cases hy
    exact ⟨before, v, after, w₁, rfl, hdone, hfault⟩
  · rintro ⟨before, v, after, w₁, rfl, hdone, hfault⟩
    exact ⟨before, v, after, ⟨units, w₁⟩, rfl, hdone, Collect.perform_yield_eq_error_iff.2 ⟨w', hfault, rfl⟩⟩

theorem collectPairs_eq_error_iff {es : List (Value × Value)} :
    collectPairs es { world := w } = (.error e, ⟨units, w'⟩) ↔
      ∃ before key v after w₁, es = before ++ (key, v) :: after ∧
        collectPairs before { world := w } = (.ok (), ⟨units, w₁⟩) ∧ PairFails key v w₁ e w' := by
  simp only [collectPairs_eq_forM]
  rw [forM_eq_error_iff]
  constructor
  · rintro ⟨before, ⟨key, v⟩, after, ⟨us, w₁⟩, rfl, hdone, h⟩
    obtain ⟨w₂, hfault, hy⟩ := collectPair_eq_error_iff.1 h
    cases hy
    exact ⟨before, key, v, after, w₁, rfl, hdone, hfault⟩
  · rintro ⟨before, key, v, after, w₁, rfl, hdone, hfault⟩
    exact ⟨before, (key, v), after, ⟨units, w₁⟩, rfl, hdone, collectPair_eq_error_iff.2 ⟨w', hfault, rfl⟩⟩

/-- **A value fails** where the collector of its units does. -/
theorem collectValue_eq_error_iff {v : Value} :
    collectValue op r v { world := w } = (.error e, ⟨units, w'⟩) ↔ v.Fails op r w units e w' := by
  -- a value that is one unit has yielded none when its leaves fail
  have hone : ∀ {label : Label} {v : Value},
      (Collect.perform v.readLeaves >>= Collect.yield label) { world := w } = (.error e, ⟨units, w'⟩) ↔
        units = [] ∧ v.Breaks w e w' := by
    intro label v
    rw [← Value.readLeaves_eq_error_iff]
    refine Collect.perform_yield_eq_error_iff.trans ?_
    constructor
    · rintro ⟨w₁, h, ⟨⟩⟩
      exact ⟨rfl, h⟩
    · rintro ⟨rfl, h⟩
      exact ⟨w', h, rfl⟩
  cases v with
  | null =>
    constructor
    · rintro ⟨⟩
    · rintro ⟨-, ⟨⟩⟩
  | scalar s =>
    -- the text is read, cut and then yielded
    have hread : (Value.scalar s).Breaks w e w' ↔ Act.ofExcept s.toText w = (.error e, w') := by
      rw [← Value.readLeaves_eq_error_iff, Value.readLeaves, bind_eq_error_iff]
      exact ⟨fun h => h.resolve_right nofun, .inl⟩
    rw [collectValue, Collect.perform_yield_eq_error_iff]
    constructor
    · rintro ⟨w₁, h, ⟨⟩⟩
      exact .whole (.inr rfl) (hread.2 h)
    · rintro ⟨-, h⟩
      exact ⟨w', hread.1 h, rfl⟩
  | sequence kind vs =>
    rw [collectValue]
    cases hexplode : r.explode with
    | false =>
      rw [if_neg Bool.false_ne_true, hone]
      constructor
      · rintro ⟨rfl, h⟩
        exact .whole (.inl hexplode) h
      · intro h
        cases h with
        | whole one fault => exact ⟨rfl, fault⟩
        | item explode => exact absurd (hexplode.symm.trans explode) Bool.false_ne_true
    | true =>
      obtain ⟨items, w₁, hread⟩ := kind.exists_read vs w
      rw [if_pos rfl, bind_of_ok (Collect.perform_run hread), collectItems_eq_error_iff]
      constructor
      · rintro ⟨before, v, after, w₂, rfl, hdone, hfault⟩
        exact .item hexplode hread hdone hfault
      · intro h
        cases h with
        | whole one fault => exact absurd one (by simp [hexplode, Value.isScalar])
        | item explode read done fault =>
          cases hread.symm.trans read
          exact ⟨_, _, _, _, rfl, done, fault⟩
  | mapping es =>
    rw [collectValue]
    cases hexplode : r.explode with
    | false =>
      rw [if_neg Bool.false_ne_true, hone]
      constructor
      · rintro ⟨rfl, h⟩
        exact .whole (.inl hexplode) h
      · intro h
        cases h with
        | whole one fault => exact ⟨rfl, fault⟩
        | pair explode => exact absurd (hexplode.symm.trans explode) Bool.false_ne_true
    | true =>
      rw [if_pos rfl, collectPairs_eq_error_iff]
      constructor
      · rintro ⟨before, key, v, after, w₁, rfl, hdone, hfault⟩
        exact .pair hexplode hdone hfault
      · intro h
        cases h with
        | whole one fault => exact absurd one (by simp [hexplode, Value.isScalar])
        | pair explode done fault => exact ⟨_, _, _, _, _, rfl, done, fault⟩

end

/-! ## where an expression fails -/

/-- **Where an expression fails**, and the units that were complete by then.  The references before are done.  Then the
resolver fails for the next one, or the value that it gives does. -/
inductive Interrupted (resolve : Resolver) (op : Operator) (w : World) :
    List VariableReference → List ExpansionUnit → Fault → World → Prop
  | call {before after : List VariableReference} {r : VariableReference} {units : List ExpansionUnit} {e : Fault}
      {w₁ w' : World} (done : collectReferences resolve op before { world := w } = (.ok (), ⟨units, w₁⟩))
      (fault : resolve r.name w₁ = (.error e, w')) : Interrupted resolve op w (before ++ r :: after) units e w'
  | value {before after : List VariableReference} {r : VariableReference} {units more : List ExpansionUnit} {v : Value}
      {e : Fault} {w₁ w₂ w' : World}
      (done : collectReferences resolve op before { world := w } = (.ok (), ⟨units, w₁⟩))
      (answer : resolve r.name w₁ = (.ok v, w₂)) (fault : v.Fails op r w₂ more e w') :
      Interrupted resolve op w (before ++ r :: after) (units ++ more) e w'

/-- **An expression fails** where the collector of its units does. -/
theorem collectReferences_eq_error_iff {resolve : Resolver} {op : Operator} {rs : List VariableReference} {w w' : World}
    {units : List ExpansionUnit} {e : Fault} :
    collectReferences resolve op rs { world := w } = (.error e, ⟨units, w'⟩) ↔ Interrupted resolve op w rs units e w' := by
  constructor
  · intro h
    rw [collectReferences_eq_forM, forM_eq_error_iff] at h
    obtain ⟨before, r, after, ⟨us, w₁⟩, rfl, hdone, h⟩ := h
    rw [← collectReferences_eq_forM] at hdone
    rw [collectReference, bind_eq_error_iff, Collect.perform_eq_error_iff] at h
    rcases h with ⟨w₂, hcall, ⟨⟩⟩ | ⟨v, y, hv, h⟩
    · exact .call hdone hcall
    · cases hanswer : resolve r.name w₁ with
      | mk result w₂ =>
        rw [Collect.perform_run (y := ⟨us, w₁⟩) hanswer] at hv
        cases hv
        obtain ⟨result, more, w₃, hrun⟩ := collectValue_appends op r v w₂
        cases (hrun us).symm.trans h
        exact .value hdone hanswer (collectValue_eq_error_iff.1 (hrun []))
  · intro h
    cases h with
    | call done fault =>
      rw [collectReferences_eq_forM] at done ⊢
      refine forM_eq_error_iff.2 ⟨_, _, _, _, rfl, done, ?_⟩
      exact bind_of_error (Collect.perform_run fault)
    | @value before after r units more v e w₁ w₂ w' done answer fault =>
      rw [collectReferences_eq_forM] at done ⊢
      refine forM_eq_error_iff.2 ⟨_, _, _, _, rfl, done, ?_⟩
      have hvalue := (collectValue_appends op r v).run (collectValue_eq_error_iff.2 fault) units
      exact (bind_of_ok (Collect.perform_run answer)).trans hvalue

/-! ## where an expansion fails -/

/-- **Where an expansion fails.**  The elements before are expanded to `o`, and the next one is an expression of `op` that
has completed `units`. -/
def BreaksOff (resolve : Resolver) (es : List Element) (w : World) (o : Text) (op : Operator)
    (units : List ExpansionUnit) (e : Fault) (w' : World) : Prop :=
  ∃ before s rs after w₁, es = before ++ .expression s op rs :: after ∧
    expandElements resolve before w = (.ok o, w₁) ∧ Interrupted resolve op w₁ rs units e w'

section

variable {resolve : Resolver} {es : List Element} {w w' : World} {e : Fault}

theorem Output.ofSink_inj {sink sink' : Text} : Output.ofSink sink w = .ofSink sink' w' ↔ sink = sink' ∧ w = w' := by
  constructor
  · intro h
    have hsink := congrArg Output.sink h
    rw [Output.sink_ofSink, Output.sink_ofSink] at hsink
    exact ⟨hsink, congrArg Output.world h⟩
  · rintro ⟨rfl, rfl⟩
    rfl

variable (resolve es w)

/-- Elements are written and expanded alike. -/
theorem exists_emitElements_run :
    ∃ r text w', (∀ base, emitElements resolve es (.ofSink base w) = (r, .ofSink (base ++ text) w')) ∧
      expandElements resolve es w = (r.map fun _ => text, w') := by
  obtain ⟨r, text, w', hrun⟩ := emitElements_appends resolve es w
  exact ⟨r, text, w', hrun, expandElements_run (hrun [])⟩

variable {resolve es w}

theorem emitElements_of_breaksOff {o : Text} {op : Operator} {units : List ExpansionUnit}
    (h : BreaksOff resolve es w o op units e w') (base : Text) :
    emitElements resolve es (.ofSink base w) =
      (.error e, .ofSink (base ++ o ++ op.assemble (units.map (·.written op))) w') := by
  obtain ⟨before, s, rs, after, w₁, rfl, hbefore, hinterrupted⟩ := h
  obtain ⟨r, text, w₂, hemit, hexpand⟩ := exists_emitElements_run resolve before w
  rw [hexpand] at hbefore
  cases r with
  | error e => cases hbefore
  | ok =>
    obtain ⟨hok, rfl⟩ := Prod.mk.inj hbefore
    obtain rfl := Except.ok.inj hok
    have hexpression := emitElement_expression resolve s op rs (base ++ text) w₂
    rw [collectReferences_eq_error_iff.2 hinterrupted] at hexpression
    rw [emitElements_append, bind_of_ok (hemit base), emitElements, bind_of_error hexpression]
    rfl

theorem exists_breaksOff (hbare : ∀ s, .bare s ∉ es) (h : expandElements resolve es w = (.error e, w')) :
    ∃ o op units, BreaksOff resolve es w o op units e w' := by
  obtain ⟨r, text, w₂, hemit, hexpand⟩ := exists_emitElements_run resolve es w
  rw [hexpand] at h
  cases r with
  | ok => cases h
  | error e' =>
    cases h
    have hfail := hemit []
    rw [emitElements_eq_forM, forM_eq_error_iff] at hfail
    obtain ⟨before, x, after, out, rfl, hdone, hx⟩ := hfail
    rw [← emitElements_eq_forM] at hdone
    obtain ⟨r, o, w₁, hbefore, hexpand'⟩ := exists_emitElements_run resolve before w
    cases (hbefore []).symm.trans hdone
    cases x with
    | literal s => cases hx
    | bare s => exact absurd (by simp) (hbare s)
    | expression s op rs =>
      rw [emitElement_expression] at hx
      cases hcollect : collectReferences resolve op rs { world := w₁ } with
      | mk result y =>
        rw [hcollect] at hx
        obtain ⟨rfl, houtput⟩ := Prod.mk.inj hx
        obtain rfl : y.world = w' := congrArg Output.world houtput
        exact ⟨o, op, y.units, before, s, rs, after, w₁, rfl, hexpand', collectReferences_eq_error_iff.1 hcollect⟩

end

/-- Behind the last unit of an expression nothing else is written. -/
theorem Operator.exists_assemble_eq (op : Operator) {texts : List Text} {t : Text} (h : texts.getLast? = some t) :
    ∃ front, op.assemble texts = front ++ t := by
  obtain ⟨texts, rfl⟩ := List.getLast?_eq_some_iff.1 h
  rw [op.assemble_append_singleton, ← List.append_assoc]
  exact ⟨_, rfl⟩

namespace Template

theorem expandTo_of_resolver {resolve : Resolver} {sources : List Source} {named : Table Text Value}
    (h : Resolver.ofSources sources named = .ok resolve) (t : Template) :
    t.expandTo sources named = emitElements resolve t.elements := by
  unfold expandTo
  rw [h]

end Template

/-- **Expanding into a sink and into a text are the same.**  If there is an expansion, it stands behind what was in the
sink.  If the sources are unusable, both fail at once, and nothing is written or done.  Otherwise both fail exactly if the
expansion breaks off at a call of the resolver, or at a single value without a text, before which all is done; both fail
with the fault of that place, the first one from left to right, but in the value of a pair before its key.  What stands in
the sink then are the expansion of the elements before the expression that failed, and the units that this one had
completed, with the operator in front and its separator between them.  They end with the text of the last one, so no
name, equals sign or separator stands there without its value. -/
theorem expansion_streams {source : Text} {t : Template} (hparse : Template.parse source = .ok t) (sources : List Source)
    (named : Table Text Value) (sink : Text) (w : World) :
    (∀ o w', t.expand sources named w = (.ok o, w') ↔
      t.expandTo sources named (.ofSink sink w) = (.ok (), .ofSink (sink ++ o) w')) ∧
    (∀ e, Resolver.ofSources sources named = .error e →
      t.expand sources named w = (.error e, w) ∧
      t.expandTo sources named (.ofSink sink w) = (.error e, .ofSink sink w)) ∧
    ∀ resolve, Resolver.ofSources sources named = .ok resolve → ∀ e w',
      (t.expand sources named w = (.error e, w') ↔ ∃ o op units, BreaksOff resolve t.elements w o op units e w') ∧
      ∀ o op units, BreaksOff resolve t.elements w o op units e w' →
        t.expandTo sources named (.ofSink sink w) =
          (.error e, .ofSink (sink ++ o ++ op.assemble (units.map (·.written op))) w') ∧
        ∀ u, units.getLast? = some u → ∃ front, op.assemble (units.map (·.written op)) = front ++ u.written op := by
  have hunusable : ∀ e, Resolver.ofSources sources named = .error e →
      t.expand sources named w = (.error e, w) ∧
      t.expandTo sources named (.ofSink sink w) = (.error e, .ofSink sink w) := by
    intro e he
    rw [Template.expand_of_unusable he, Template.expandTo, he]
    exact ⟨rfl, rfl⟩
  refine ⟨fun o w' => ?_, hunusable, fun resolve hresolve e w' => ⟨?_, fun o op units hbreaks => ⟨?_, ?_⟩⟩⟩
  · cases hresolve : Resolver.ofSources sources named with
    | error e =>
      obtain ⟨hexpand, hto⟩ := hunusable e hresolve
      rw [hexpand, hto]
      constructor <;> rintro ⟨⟩
    | ok resolve =>
      rw [Template.expand_of_resolver hresolve, Template.expandTo_of_resolver hresolve]
      obtain ⟨r, text, w₁, hemit, hexpand⟩ := exists_emitElements_run resolve t.elements w
      rw [hexpand, hemit]
      cases r with
      | error e => constructor <;> rintro ⟨⟩
      | ok =>
        constructor
        · rintro ⟨⟩
          rfl
        · intro h
          obtain ⟨htext, rfl⟩ := Output.ofSink_inj.1 (Prod.mk.inj h).2
          rw [List.append_cancel_left htext]
          rfl
  · rw [Template.expand_of_resolver hresolve]
    constructor
    · exact exists_breaksOff (Template.spellable hparse).bare_not_mem
    · rintro ⟨o, op, units, hbreaks⟩
      obtain ⟨r, text, w₁, hemit, hexpand⟩ := exists_emitElements_run resolve t.elements w
      obtain ⟨rfl, houtput⟩ := Prod.mk.inj ((hemit []).symm.trans (emitElements_of_breaksOff hbreaks []))
      rw [hexpand, (Output.ofSink_inj.1 houtput).2]
      rfl
  · rw [Template.expandTo_of_resolver hresolve]
    exact emitElements_of_breaksOff hbreaks sink
  · intro u hu
    exact op.exists_assemble_eq (by rw [List.getLast?_map, hu]; rfl)

/-- The second item of a list is vacuous, and the third one is too long. -/
theorem expansion_streams_long_integer :
    let l : Value := .list [.text "2", .list [.null], .int (10 ^ maxDigits), .text "3"]
    let named : Table Text Value := [("a", .text "1"), ("l", l)]
    let rs : List VariableReference := [{ name := "a" }, { name := "l", explode := true }]
    let t : Template :=
      ⟨"x{?a,l*}y", [.literal ⟨"x", 0, 1⟩, .expression ⟨"{?a,l*}", 1, 8⟩ .query rs, .literal ⟨"y", 8, 9⟩]⟩
    Template.parse ("x{?a,l*}y" : Text) = .ok t ∧
      t.expand [] named {} = (.error .integerTooLong, {}) ∧
      t.expandTo [] named (.ofSink "<" {}) = (.error .integerTooLong, .ofSink ("<" ++ "x" ++ "?a=1&l=2") {}) := by
  intro l named rs t
  have hparse : Template.parse ("x{?a,l*}y" : Text) = .ok t := rfl
  have hlong : intText (10 ^ maxDigits) = .error .integerTooLong := intText_of_long le_natAbs_ten_pow
  have hbreaks : (Value.int (10 ^ maxDigits)).Breaks {} .integerTooLong {} := .text hlong
  have hitems : SequenceKind.list.read [.text "2", .list [.null], .int (10 ^ maxDigits), .text "3"] {} =
      (.ok ([.text "2", .list [.null]] ++ .int (10 ^ maxDigits) :: [.text "3"]), {}) := rfl
  have hitemsDone : collectItems (Operator.query.labelOf "l") [.text "2", .list [.null]] { world := {} } =
      (.ok (), ⟨[⟨.name "l", ["2"]⟩], {}⟩) := rfl
  have hvalue : l.Fails .query { name := "l", explode := true } {} [⟨.name "l", ["2"]⟩] .integerTooLong {} :=
    .item rfl hitems hitemsDone hbreaks
  have hdone : collectReferences (.ofTable named) .query [{ name := "a" }] { world := {} } =
      (.ok (), ⟨[⟨.name "a", ["1"]⟩], {}⟩) := rfl
  have hinterrupted : Interrupted (.ofTable named) .query {} ([{ name := "a" }] ++ [{ name := "l", explode := true }])
      ([⟨.name "a", ["1"]⟩] ++ [⟨.name "l", ["2"]⟩]) .integerTooLong {} := .value hdone rfl hvalue
  have hbreaks : BreaksOff (.ofTable named) t.elements {} "x" .query ([⟨.name "a", ["1"]⟩] ++ [⟨.name "l", ["2"]⟩])
      .integerTooLong {} := ⟨[.literal ⟨"x", 0, 1⟩], _, rs, [.literal ⟨"y", 8, 9⟩], {}, rfl, rfl, hinterrupted⟩
  obtain ⟨-, -, hfault⟩ := expansion_streams hparse [] named "<" {}
  obtain ⟨hiff, hsink⟩ := hfault (.ofTable named) rfl .integerTooLong {}
  exact ⟨hparse, hiff.2 ⟨_, _, _, hbreaks⟩, (hsink _ _ _ hbreaks).1⟩

/-- Neither the key of a pair nor its value has a text.  The fault is that of the value, which stands on the right. -/
theorem expansion_not_left_to_right :
    let left : Raised := { message := "key" }
    let right : Raised := { message := "value" }
    let m : Value := .mapping [(.scalar (.object (.error left)), .scalar (.object (.error right)))]
    let t : Template := ⟨"{m}", [.expression ⟨"{m}", 0, 3⟩ .simple [{ name := "m" }]]⟩
    Template.parse ("{m}" : Text) = .ok t ∧ (Scalar.object (.error left)).toText = .error (.raised left) ∧
      t.expand [] [("m", m)] {} = (.error (.raised right), {}) ∧
      t.expandTo [] [("m", m)] (.ofSink "<" {}) = (.error (.raised right), .ofSink "<" {}) ∧
      Fault.raised right ≠ .raised left :=
  ⟨rfl, rfl, rfl, rfl, by decide⟩

end UriTemplate
