import Mathlib.Data.List.Nodup
import Mathlib.Data.List.Pairwise
import UriTemplate.Proofs.CallForms
import UriTemplate.Proofs.Calls
import UriTemplate.Proofs.Flattening

/-!
# Streams among the values

A stream that is the value of a name is read to its end by the first reference to the name, and there is nothing left for
other ones.

* `Value.readOut`, `collectValue_readOut` — a stream might as well be read out before anything is done with it;
* `Table.seenAt`, `Table.seen` — what references see, one after another; `Resolver.firstOnly` — a resolver that gives that;
* `Table.UsedUp` — the streams that are used up when some names have been referenced;
* `Resolver.readingOut_run`, `Resolver.mapM_readingOut_run` — what one reference does, and what references do in turn;
* `expand_streams_once` — the expansion with such values.
-/

namespace UriTemplate

/-! ## reading streams out -/

namespace Value

/-- A stream as a list of what is left in it, which uses it up; null if it is used up already. -/
def readOut : Value → Act Value
  | .sequence (.stream id) items => do if ← Act.drain id then return .list items else return .null
  | v => return v

theorem readOut_of_rereadable {v : Value} (h : v.Rereadable) : v.readOut = pure v := by
  cases v with
  | sequence kind items =>
    cases kind with
    | stream => exact absurd h id
    | list => rfl
    | tuple => rfl
    | set => rfl
    | range => rfl
  | null => rfl
  | scalar s => rfl
  | mapping es => rfl

end Value

/-- **Whatever is done with a stream, it is read to its end, once.** -/
theorem collectValue_stream (op : Operator) (r : VariableReference) (id : Nat) (items : List Value) :
    collectValue op r (.sequence (.stream id) items) =
      Collect.perform (Value.sequence (.stream id) items).readOut >>= collectValue op r := by
  have hread : Collect.perform (Value.sequence (.stream id) items).readOut >>= collectValue op r =
      Collect.perform (Act.drain id) >>= fun fresh => collectValue op r (if fresh then .list items else .null) := by
    rw [Value.readOut, Collect.perform_bind, bind_assoc]
    congr 1
    funext fresh
    cases fresh <;> rfl
  rw [hread, collectValue, readLeaves_sequence, SequenceKind.read]
  simp only [Collect.perform_bind, bind_assoc]
  cases hexplode : r.explode with
  | true =>
    rw [if_pos rfl]
    congr 1
    funext fresh
    cases fresh with
    | true =>
      rw [if_pos rfl, if_pos rfl, collectValue, hexplode]
      rfl
    | false => rfl
  | false =>
    rw [if_neg Bool.false_ne_true]
    congr 1
    funext fresh
    cases fresh with
    | true =>
      rw [if_pos rfl, if_pos rfl, collectValue, hexplode]
      rfl
    | false => exact (if_pos rfl : Collect.yield (op.labelOf r.name) [] = pure ())

/-- A stream, or any other value, might be read out first. -/
theorem collectValue_readOut (op : Operator) (r : VariableReference) (v : Value) :
    collectValue op r v = Collect.perform v.readOut >>= collectValue op r := by
  cases v with
  | sequence kind items =>
    cases kind with
    | stream id => exact collectValue_stream op r id items
    | list => rfl
    | tuple => rfl
    | set => rfl
    | range => rfl
  | null => rfl
  | scalar s => rfl
  | mapping es => rfl


/-! ## what references see -/

/-- A value that may be read again, or a stream of such values. -/
def Value.ReadableOnce (v : Value) : Prop :=
  v.Rereadable ∨ ∃ id items, v = .sequence (.stream id) items ∧ RereadableItems items

namespace Table

section

variable (d : Table Text Value)

/-- The value of the name is this stream. -/
def IsStream (name : Text) (id : Nat) : Prop := ∃ items, d.get? name = some (.sequence (.stream id) items)

/-- What a reference to `name` sees behind references to other names: of a stream its items, or nothing if the name has
been referenced before. -/
def seenAt (before : List Text) (name : Text) : Value :=
  match d.valueOf name with
  | .sequence (.stream _) items => if name ∈ before then .null else .list items
  | v => v

/-- What references see, one after another. -/
def seen : List Text → List Text → List Value
  | _, [] => []
  | before, name :: names => d.seenAt before name :: seen (before ++ [name]) names

/-- The streams of these names are used up in the second world, and those that were so in the first one. -/
def UsedUp (names : List Text) (w w' : World) : Prop :=
  ∀ id, id ∈ w'.drained ↔ id ∈ w.drained ∨ ∃ name ∈ names, d.IsStream name id

end

variable {d : Table Text Value}

theorem isStream_iff {name : Text} {id : Nat} (h : d.IsStream name id) (id' : Nat) : d.IsStream name id' ↔ id' = id := by
  constructor
  · rintro ⟨items', hget'⟩
    obtain ⟨items, hget⟩ := h
    rw [hget] at hget'
    cases hget'
    rfl
  · rintro rfl
    exact h

theorem IsStream.exists_mem {name : Text} {id : Nat} (h : d.IsStream name id) : ∃ e ∈ d, e.1 = name ∧ id ∈ e.2.streams := by
  obtain ⟨items, hget⟩ := h
  exact ⟨_, mem_of_get? hget, rfl, List.mem_append_left _ (List.mem_singleton_self id)⟩

/-- One more reference uses up the stream of its name, if it has one. -/
theorem UsedUp.concat {names : List Text} {w w₁ w₂ : World} (h : d.UsedUp names w w₁) {name : Text}
    (hname : ∀ id, id ∈ w₂.drained ↔ id ∈ w₁.drained ∨ d.IsStream name id) : d.UsedUp (names ++ [name]) w w₂ := by
  intro id
  rw [hname id, h id]
  simp [or_and_right, exists_or, or_assoc]

/-- Different names have different streams. -/
theorem IsStream.name_eq {w : World} (hfresh : w.Fresh (d.flatMap fun e => e.2.streams)) {name name' : Text} {id : Nat}
    (h : d.IsStream name id) (h' : d.IsStream name' id) : name = name' := by
  obtain ⟨e, hmem, rfl, he⟩ := h.exists_mem
  obtain ⟨e', hmem', rfl, he'⟩ := h'.exists_mem
  by_contra hne
  have hsymm : Std.Symm (Function.onFun List.Disjoint fun e : Text × Value => e.2.streams) :=
    ⟨fun _ _ hdisjoint _ hx hy => hdisjoint hy hx⟩
  have hdisjoint := (List.nodup_flatMap.1 hfresh.nodup).2.forall hmem hmem' fun heq => hne (congrArg Prod.fst heq)
  exact hdisjoint he he'

/-- At first no stream of the table is used up. -/
theorem IsStream.unused {w : World} (hfresh : w.Fresh (d.flatMap fun e => e.2.streams)) {name : Text} {id : Nat}
    (h : d.IsStream name id) : id ∉ w.drained := by
  obtain ⟨e, hmem, -, he⟩ := h.exists_mem
  exact hfresh.unused id (List.mem_flatMap.2 ⟨e, hmem, he⟩)

theorem valueOf_cases (hd : ∀ e ∈ d, e.2.ReadableOnce) (name : Text) :
    (d.valueOf name).Rereadable ∨
      ∃ id items, d.valueOf name = .sequence (.stream id) items ∧ d.IsStream name id ∧ Value.RereadableItems items := by
  unfold valueOf
  cases hget : d.get? name with
  | none => exact .inl trivial
  | some v =>
    obtain hr | ⟨id, items, rfl, hr⟩ := hd _ (mem_of_get? hget)
    · exact .inl hr
    · exact .inr ⟨id, items, rfl, ⟨items, hget⟩, hr⟩

theorem seenAt_of_rereadable {name : Text} (h : (d.valueOf name).Rereadable) (before : List Text) :
    d.seenAt before name = d.valueOf name := by
  unfold seenAt
  split
  · next hvalue =>
    rw [hvalue] at h
    exact absurd h id
  · rfl

theorem seenAt_of_stream {name : Text} {id : Nat} {items : List Value}
    (h : d.valueOf name = .sequence (.stream id) items) (before : List Text) :
    d.seenAt before name = if name ∈ before then .null else .list items := by
  unfold seenAt
  rw [h]

/-- What is seen may be read again. -/
theorem rereadable_seenAt (hd : ∀ e ∈ d, e.2.ReadableOnce) (before : List Text) (name : Text) :
    (d.seenAt before name).Rereadable := by
  obtain hr | ⟨id, items, hvalue, -, hr⟩ := valueOf_cases hd name
  · rwa [seenAt_of_rereadable hr]
  · rw [seenAt_of_stream hvalue]
    split
    · exact trivial
    · exact hr

theorem converts_seenAt {name : Text} (h : (d.valueOf name).Converts) (before : List Text) :
    (d.seenAt before name).Converts := by
  unfold seenAt
  split
  · next hvalue =>
    rw [hvalue] at h
    split
    · exact trivial
    · exact h
  · exact h

theorem forall_mem_seen {P : Value → Prop} {names : List Text}
    (h : ∀ name ∈ names, ∀ before, P (d.seenAt before name)) (before : List Text) : ∀ v ∈ d.seen before names, P v := by
  induction names generalizing before with
  | nil => exact nofun
  | cons name names ih =>
    obtain ⟨hname, hnames⟩ := List.forall_mem_cons.1 h
    exact List.forall_mem_cons.2 ⟨hname before, ih hnames _⟩

end Table

namespace Resolver

/-- The resolver that gives what references see, by the names that it has been asked for before. -/
def firstOnly (d : Table Text Value) : Resolver := fun name => do
  let before := (← get).asked
  Act.note name
  return d.seenAt before name

theorem mapM_firstOnly_run (d : Table Text Value) (names : List Text) (w : World) :
    names.mapM (firstOnly d) w = (.ok (d.seen w.asked names), { w with asked := w.asked ++ names }) := by
  induction names generalizing w with
  | nil =>
    rw [List.append_nil]
    rfl
  | cons name names ih =>
    have hname : firstOnly d name w = (.ok (d.seenAt w.asked name), { w with asked := w.asked ++ [name] }) := rfl
    rw [List.mapM_cons, bind_of_ok hname, bind_of_ok (ih _), Table.seen, List.append_cons w.asked name names]
    rfl

/-! ## one reference after another -/

/-- The resolver that reads streams out. -/
def readingOut (d : Table Text Value) : Resolver := fun name => (d.valueOf name).readOut

theorem collectReference_readingOut (d : Table Text Value) (op : Operator) (r : VariableReference) :
    collectReference (ofTable d) op r = collectReference (readingOut d) op r := by
  have hvalue : Collect.perform (ofTable d r.name) >>= collectValue op r = collectValue op r (d.valueOf r.name) := rfl
  rw [collectReference, hvalue, collectValue_readOut]
  rfl

variable {d : Table Text Value} {w w₁ : World} (hd : ∀ e ∈ d, e.2.ReadableOnce)
  (hfresh : w.Fresh (d.flatMap fun e => e.2.streams))

include hd hfresh

/-- **What one reference does**, behind references to other names: the stream of its name is used up afterwards. -/
theorem readingOut_run {before : List Text} (hused : d.UsedUp before w w₁) (name : Text) :
    ∃ w₂, readingOut d name w₁ = (.ok (d.seenAt before name), w₂) ∧ d.UsedUp (before ++ [name]) w w₂ := by
  unfold readingOut
  obtain hr | ⟨id, items, hvalue, hstream, -⟩ := Table.valueOf_cases hd name
  · -- the name has no stream
    have hnone : ∀ id, ¬ d.IsStream name id := by
      rintro id ⟨items, hget⟩
      rw [Table.valueOf, hget] at hr
      exact hr
    rw [Table.seenAt_of_rereadable hr, Value.readOut_of_rereadable hr]
    exact ⟨w₁, rfl, hused.concat fun id => (or_iff_left (hnone id)).symm⟩
  · have hiff : id ∈ w₁.drained ↔ name ∈ before := by
      rw [hused id, or_iff_right (hstream.unused hfresh)]
      refine ⟨?_, fun h => ⟨name, h, hstream⟩⟩
      rintro ⟨name', hname', hstream'⟩
      rwa [hstream.name_eq hfresh hstream']
    rw [Table.seenAt_of_stream hvalue, hvalue, Value.readOut]
    by_cases hname : name ∈ before
    · rw [bind_of_ok (Act.drain_of_used (hiff.2 hname)), if_pos hname]
      refine ⟨w₁, rfl, hused.concat fun id' => ?_⟩
      rw [Table.isStream_iff hstream]
      exact (or_iff_left_of_imp fun h => h ▸ hiff.2 hname).symm
    · rw [bind_of_ok (Act.drain_of_unused (mt hiff.1 hname)), if_neg hname]
      refine ⟨w₁.drain [id], rfl, hused.concat fun id' => ?_⟩
      rw [Table.isStream_iff hstream, World.drain, List.singleton_append, List.mem_cons, or_comm]

/-- **What references do in turn.** -/
theorem mapM_readingOut_run {before : List Text} (hused : d.UsedUp before w w₁) (names : List Text) :
    ∃ w₂, names.mapM (readingOut d) w₁ = (.ok (d.seen before names), w₂) ∧ d.UsedUp (before ++ names) w w₂ := by
  induction names generalizing before w₁ with
  | nil =>
    rw [List.append_nil]
    exact ⟨w₁, rfl, hused⟩
  | cons name names ih =>
    obtain ⟨w₂, hname, hused₂⟩ := readingOut_run hd hfresh hused name
    obtain ⟨w₃, hnames, hused₃⟩ := ih hused₂
    refine ⟨w₃, ?_, ?_⟩
    · rw [List.mapM_cons, bind_of_ok hname, bind_of_ok hnames, Table.seen]
      rfl
    · rwa [← List.append_cons] at hused₃

end Resolver

/-! ## expansions -/

/-- **Streams are read by the first reference to their name.**  Some values of a table are streams, each of its own, and
all others may be read again.  The expansion is the one in which the first reference to the name of a stream, whatever its
operator, modifier and limit are, sees a list of its items, and every later one null.  Afterwards the streams of the names
in the template are used up, and no others. -/
theorem expand_streams_once {source : Text} {t : Template} (hparse : Template.parse source = .ok t)
    {sources : List Source} {named d : Table Text Value} (hresolve : Resolver.ofSources sources named = .ok (.ofTable d))
    (hd : ∀ e ∈ d, e.2.ReadableOnce) {w : World} (hfresh : w.Fresh (d.flatMap fun e => e.2.streams))
    (hc : ∀ name ∈ t.names, (d.valueOf name).Converts) :
    ∃ text w', t.expand sources named w = (.ok text, w') ∧
      (∀ id, id ∈ w'.drained ↔ id ∈ w.drained ∨ ∃ name ∈ t.names, d.IsStream name id) ∧
      text = expansion ExpansionUnit.written t.elements (d.seen [] t.names) ∧
      (t.expand [.function (.firstOnly d)] [] {}).1 = .ok text ∧
      ∀ sources' named' resolve' w₁ w₁', Resolver.ofSources sources' named' = .ok resolve' →
        t.names.mapM resolve' w₁ = (.ok (d.seen [] t.names), w₁') → t.expand sources' named' w₁ = (.ok text, w₁') := by
  have hr : ∀ v ∈ d.seen [] t.names, v.Rereadable :=
    Table.forall_mem_seen (fun name _ before => Table.rereadable_seenAt hd before name) []
  have hc' : ∀ v ∈ d.seen [] t.names, v.Converts :=
    Table.forall_mem_seen (fun name hname before => Table.converts_seenAt (hc name hname) before) []
  have hseen : ∀ sources' named' resolve' w₁ w₁', Resolver.ofSources sources' named' = .ok resolve' →
      t.names.mapM resolve' w₁ = (.ok (d.seen [] t.names), w₁') →
      t.expand sources' named' w₁ = (.ok (expansion ExpansionUnit.written t.elements (d.seen [] t.names)), w₁') :=
    fun _ _ _ _ _ hresolve' hvalues => Template.expand_eq hparse hresolve' hvalues hr hc'
  have hreading : t.expand sources named = t.expand [.function (.readingOut d)] [] := by
    have hreading : Resolver.ofSources [.function (.readingOut d)] [] = .ok (.readingOut d) := rfl
    rw [Template.expand_of_resolver hresolve, Template.expand_of_resolver hreading]
    exact expandElements_congr fun op r _ => Resolver.collectReference_readingOut d op r
  have hstart : d.UsedUp [] w w := fun id => by simp
  obtain ⟨w', hvalues, hused⟩ := Resolver.mapM_readingOut_run hd hfresh hstart t.names
  refine ⟨_, w', ?_, hused, rfl, ?_, hseen⟩
  · rw [hreading]
    exact hseen _ _ _ _ _ rfl hvalues
  · rw [hseen [.function (.firstOnly d)] [] _ _ _ rfl (Resolver.mapM_firstOnly_run d t.names {})]

/-- Two streams: one is referenced in two expressions, the other one twice in the same expression. -/
theorem expand_streams_once_twice :
    let d : Table Text Value := [("g", .sequence (.stream 0) [.text "a", .null, .text "2"]), ("k", .text "b"),
      ("h", .sequence (.stream 1) [.list [.text "c", .text "d"]]), ("i", .sequence (.stream 2) [.text "e"])]
    let t : Template := ⟨"{k,g:1}{?g*,k}{;h*,h}", [
      .expression ⟨"{k,g:1}", 0, 7⟩ .simple [{ name := "k" }, { name := "g", limit := some 1 }],
      .expression ⟨"{?g*,k}", 7, 14⟩ .query [{ name := "g", explode := true }, { name := "k" }],
      .expression ⟨"{;h*,h}", 14, 21⟩ .pathParameter [{ name := "h", explode := true }, { name := "h" }]]⟩
    Template.parse ("{k,g:1}{?g*,k}{;h*,h}" : Text) = .ok t ∧
      t.expand [] d {} = (.ok ("b,a,2?k=b;h=c,d" : Text), { drained := [1, 0] }) ∧
      (t.expand [.function (.firstOnly d)] [] {}).1 = .ok ("b,a,2?k=b;h=c,d" : Text) ∧
      ∃ w', t.expand [] d {} = (.ok ("b,a,2?k=b;h=c,d" : Text), w') ∧ 0 ∈ w'.drained ∧ 1 ∈ w'.drained := by
  intro d t
  have hparse : Template.parse ("{k,g:1}{?g*,k}{;h*,h}" : Text) = .ok t := rfl
  have hd : ∀ e ∈ d, e.2.ReadableOnce := by
    simp [d, Value.ReadableOnce, Value.Rereadable, Value.RereadableItems]
  have hfresh : World.Fresh {} (d.flatMap fun e => e.2.streams) :=
    ⟨by decide, fun _ _ => List.not_mem_nil⟩
  have hc : ∀ e ∈ d, e.2.Converts := by
    simp [d, Value.Converts, Value.ConvertsItems, Scalar.toText]
  have hresolve : Resolver.ofSources [] d = .ok (.ofTable d) := rfl
  have hexpand : t.expand [] d {} = (.ok ("b,a,2?k=b;h=c,d" : Text), { drained := [1, 0] }) := rfl
  obtain ⟨text, w', htext, hused, -, hfirst, -⟩ := expand_streams_once hparse hresolve hd hfresh
    fun name _ => Table.valueOf_of_forall trivial hc name
  obtain ⟨hok, rfl⟩ := Prod.mk.inj (htext.symm.trans hexpand)
  obtain rfl := Except.ok.inj hok
  exact ⟨hparse, hexpand, hfirst, _, hexpand, (hused 0).2 (.inr ⟨"g", by decide, _, rfl⟩),
    (hused 1).2 (.inr ⟨"h", by decide, _, rfl⟩)⟩

end UriTemplate
