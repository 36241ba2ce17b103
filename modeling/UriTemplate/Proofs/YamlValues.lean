import UriTemplate.Proofs.YamlGraphs
import UriTemplate.Yaml.Document

/-!
# Values of YAML documents

YAML documents stand for data: nothing in their values is a stream or an object.

* `Yaml.isData_of_scalarValue` — single values are data, whatever their type;
* `Item.IsData`, `Building.IsData` — what nodes have become is data, and `Building.IsData.valueOf` so are their values;
* `Build.Gives` — a computation keeps a building of data and gives what is wanted, with a rule for each way of putting
  computations together;
* `Gives.filling` — items, members and entries, by induction on the fuel;
* `isData_of_read`, `reader_givesData` — the value of a document is data;
* `reader_eq_rejected_iff` — the reader rejects the texts that are not well formed, and no other ones.
-/

namespace UriTemplate.Yaml

/-! ## single values -/

theorem isData_of_truthValue {t : Text} {v : Value} (h : truthValue t = .ok v) : v.IsData := by
  unfold truthValue at h
  extract_lets word among at h
  split at h
  · cases h
    exact .scalar nofun
  split at h
  · cases h
    exact .scalar nofun
  · cases h

theorem isData_of_integer {version : Version} {t : Text} {v : Value} (h : integer version t = .ok v) : v.IsData := by
  obtain ⟨⟨negative, u⟩, -, h⟩ := Except.bind_eq_ok_iff.1 h
  obtain ⟨n, -, h⟩ := Except.bind_eq_ok_iff.1 h
  cases h
  exact .scalar nofun

theorem isData_of_float {version : Version} {t : Text} {v : Value} (h : float version t = .ok v) : v.IsData := by
  obtain ⟨⟨negative, u⟩, -, h⟩ := Except.bind_eq_ok_iff.1 h
  obtain ⟨x, -, h⟩ := Except.bind_eq_ok_iff.1 h
  cases h
  exact .scalar nofun

theorem isData_of_binary {t : Text} {v : Value} (h : binary t = .ok v) : v.IsData := by
  unfold binary at h
  split at h
  · cases h
  · obtain ⟨data, -, h⟩ := Except.bind_eq_ok_iff.1 h
    cases h
    exact .scalar nofun

theorem isData_of_timestamp {t : Text} {v : Value} (h : timestamp t = .ok v) : v.IsData := by
  obtain ⟨result, -, h⟩ := Except.bind_eq_ok_iff.1 h
  cases result with
  | ok time =>
    cases h
    exact .scalar nofun
  | error e => cases h

theorem isData_of_scalarValue {version : Version} {type : NodeType} {t : Text} {v : Value}
    (h : scalarValue version type t = .ok v) : v.IsData := by
  cases type with
  | null =>
    cases h
    exact .null
  | bool => exact isData_of_truthValue h
  | int => exact isData_of_integer h
  | float => exact isData_of_float h
  | binary => exact isData_of_binary h
  | timestamp => exact isData_of_timestamp h
  | text =>
    cases h
    exact .text t
  | sequence | mapping | set | orderedMapping | pairs | merge | default | unknown => cases h

/-! ## items and their values -/

/-- The single values in an item are data. -/
inductive Item.IsData : Item → Prop
  | single {place : Place} {v : Value} (data : v.IsData) : IsData (.single place v)
  | collection (place : Place) : IsData (.collection place)
  | tuple {items : List Item} (data : ∀ i ∈ items, IsData i) : IsData (.tuple items)

def Members.IsData : Members → Prop
  | .items is => ∀ i ∈ is, i.IsData
  | .entries es => ∀ e ∈ es, e.1.IsData ∧ e.2.IsData

structure Slot.IsData (slot : Slot) : Prop where
  item : ∀ i ∈ slot.item, i.IsData
  members : slot.members.IsData

namespace Building

/-- Whatever the nodes have become is data. -/
def IsData (s : Building) : Prop := ∀ place, (s.slot place).IsData

theorem isData_default : (default : Slot).IsData := ⟨nofun, List.forall_mem_nil _⟩

variable {s : Building}

theorem IsData.modify (hs : s.IsData) (place : Place) {f : Slot → Slot}
    (hf : ∀ slot : Slot, slot.IsData → (f slot).IsData) : IsData { s with slots := s.slots.modify place f } := by
  intro other
  have hslot := hs other
  unfold Building.slot at hslot ⊢
  rw [getElem!_def, Array.getElem?_modify]
  rw [getElem!_def] at hslot
  cases hfound : s.slots[other]? with
  | none =>
    rw [Option.map_none, ite_self]
    exact isData_default
  | some slot =>
    rw [hfound] at hslot
    by_cases hplace : place = other
    · rw [if_pos hplace]
      exact hf slot hslot
    · rw [if_neg hplace]
      exact hslot

theorem IsData.itemsAt (hs : s.IsData) (place : Place) : ∀ i ∈ s.itemsAt place, i.IsData := by
  have hmembers := (hs place).members
  unfold Building.itemsAt
  cases hm : (s.slot place).members with
  | items items =>
    rw [hm] at hmembers
    exact hmembers
  | entries entries =>
    rw [hm] at hmembers
    intro i hi
    obtain ⟨e, he, rfl⟩ := List.mem_map.1 hi
    exact (hmembers e he).1

/-- Items of data have values that are data, however deep they are looked into. -/
theorem IsData.valueOf (hs : s.IsData) (fuel : Nat) (around : List Place) {item : Item} (h : item.IsData) :
    (s.valueOf fuel around item).IsData := by
  induction fuel generalizing around item with
  | zero => exact .null
  | succ fuel ih =>
    cases h with
    | single data => exact data
    | tuple data =>
      refine .sequence nofun ?_
      intro v hv
      obtain ⟨i, hi, rfl⟩ := List.mem_map.1 hv
      exact ih around (data i hi)
    | collection place =>
      have hmembers := (hs place).members
      have hitems : ∀ {kind : SequenceKind} {items : List Item}, (∀ id, kind ≠ .stream id) → (∀ i ∈ items, i.IsData) →
          (Value.sequence kind (items.map (s.valueOf fuel (place :: around)))).IsData := by
        intro kind items hkind hitems
        refine .sequence hkind ?_
        intro v hv
        obtain ⟨i, hi, rfl⟩ := List.mem_map.1 hv
        exact ih _ (hitems i hi)
      rw [Building.valueOf]
      split
      · exact .null
      · dsimp only
        split
        · exact hitems nofun (hs.itemsAt place)
        · rename_i items hm _
          rw [hm] at hmembers
          exact hitems nofun hmembers
        · rename_i entries hm _
          rw [hm] at hmembers
          refine .mapping ?_ ?_
          · intro e he
            obtain ⟨p, hp, rfl⟩ := List.mem_map.1 he
            exact ih _ (hmembers p hp).1
          · intro e he
            obtain ⟨p, hp, rfl⟩ := List.mem_map.1 he
            exact ih _ (hmembers p hp).2

end Building

/-! ## computations -/

/-- From a building of data the computation leaves one, and gives what `post` says. -/
def Build.Gives {α : Type} (m : Build α) (post : α → Prop) : Prop :=
  ∀ s s' a, Building.IsData s → m.run s = .ok (a, s') → s'.IsData ∧ post a

namespace Build.Gives

variable {α β : Type} {m : Build α} {post : α → Prop}

theorem pure {a : α} (h : post a) : Gives (Pure.pure a) post := by
  intro s s' b hs hrun
  cases hrun
  exact ⟨hs, h⟩

theorem throw {e : Failure} : Gives (MonadExcept.throw e : Build α) post := by
  intro s s' b hs hrun
  cases hrun

theorem bind {f : α → Build β} {post' : β → Prop} (h : Gives m post) (hf : ∀ a, post a → Gives (f a) post') :
    Gives (m >>= f) post' := by
  intro s s' b hs hrun
  rw [StateT.run_bind, Except.bind_eq_ok_iff] at hrun
  obtain ⟨⟨a, s₁⟩, hm, hrun⟩ := hrun
  obtain ⟨hs₁, ha⟩ := h s s₁ a hs hm
  exact hf a ha s₁ s' b hs₁ hrun

theorem ofExcept {e : Except Failure α} (h : ∀ a, e = .ok a → post a) : Gives (liftM e : Build α) post := by
  intro s s' a hs hrun
  cases e with
  | error f => cases hrun
  | ok b =>
    cases hrun
    exact ⟨hs, h a rfl⟩

theorem get : Gives MonadState.get Building.IsData := by
  intro s s' a hs hrun
  cases hrun
  exact ⟨hs, hs⟩

theorem set {s : Building} (h : s.IsData) : Gives (MonadStateOf.set s : Build PUnit) fun _ => True := by
  intro s₁ s' a hs hrun
  cases hrun
  exact ⟨h, trivial⟩

theorem change {f : Building → Building} (h : ∀ s : Building, s.IsData → (f s).IsData) :
    Gives (modify f : Build PUnit) fun _ => True := by
  intro s s' a hs hrun
  cases hrun
  exact ⟨h s hs, trivial⟩

theorem throw_bind {e : Failure} {f : α → Build β} {post' : β → Prop} : Gives (MonadExcept.throw e >>= f) post' := by
  intro s s' b hs hrun
  cases hrun

/-- What is malformed in any case gives nothing. -/
theorem bind_malformed {post' : β → Prop} : Gives (m >>= fun _ => Build.malformed) post' := by
  intro s s' b hs hrun
  rw [StateT.run_bind, Except.bind_eq_ok_iff] at hrun
  obtain ⟨⟨a, s₁⟩, -, hrun⟩ := hrun
  cases hrun

theorem mapM {f : α → Build β} {post : β → Prop} {as : List α} (h : ∀ a ∈ as, Gives (f a) post) :
    Gives (as.mapM f) fun bs => ∀ b ∈ bs, post b := by
  induction as with
  | nil => exact pure (List.forall_mem_nil _)
  | cons a as ih =>
    obtain ⟨ha, has⟩ := List.forall_mem_cons.1 h
    rw [List.mapM_cons]
    refine ha.bind fun b hb => (ih has).bind fun bs hbs => pure ?_
    exact List.forall_mem_cons.2 ⟨hb, hbs⟩

theorem foldlM {f : β → α → Build β} {inv : β → Prop} {as : List α} (h : ∀ b, inv b → ∀ a ∈ as, Gives (f b a) inv)
    {b : β} (hb : inv b) : Gives (as.foldlM f b) inv := by
  induction as generalizing b with
  | nil => exact pure hb
  | cons a as ih =>
    rw [List.foldlM_cons]
    refine (h b hb a List.mem_cons_self).bind fun c hc => ih ?_ hc
    exact fun b hb a ha => h b hb a (List.mem_cons_of_mem _ ha)

theorem forM {f : α → Build PUnit} {as : List α} (h : ∀ a ∈ as, Gives (f a) fun _ => True) :
    Gives (as.forM f) fun _ => True := by
  induction as with
  | nil => exact pure trivial
  | cons a as ih =>
    obtain ⟨ha, has⟩ := List.forall_mem_cons.1 h
    exact ha.bind fun _ _ => ih has

theorem findM? {f : α → Build Bool} {as : List α} (h : ∀ a ∈ as, Gives (f a) fun _ => True) :
    Gives (as.findM? f) fun _ => True := by
  induction as with
  | nil => exact pure trivial
  | cons a as ih =>
    obtain ⟨ha, has⟩ := List.forall_mem_cons.1 h
    rw [List.findM?]
    refine ha.bind fun found _ => ?_
    cases found with
    | true => exact pure trivial
    | false => exact ih has

/-! ### slots -/

variable (place : Place)

theorem slot : Gives (Build.slot place) Slot.IsData := get.bind fun _ hs => pure (hs place)

theorem update {f : Slot → Slot} (hf : ∀ slot : Slot, slot.IsData → (f slot).IsData) :
    Gives (Build.update place f) fun _ => True := change fun _ hs => hs.modify place hf

theorem typeOf : Gives (Build.typeOf place) fun _ => True := (slot place).bind fun _ _ => pure trivial

theorem entriesOf : Gives (Build.entriesOf place) fun _ => True := by
  refine (slot place).bind fun slot _ => ?_
  cases slot.node.content with
  | mapping entries => exact pure trivial
  | scalar | sequence => exact throw

theorem itemsOf : Gives (Build.itemsOf place) fun _ => True := by
  refine (slot place).bind fun slot _ => ?_
  cases slot.node.content with
  | sequence items => exact pure trivial
  | scalar | mapping => exact throw

theorem entryOf : Gives (Build.entryOf place) fun _ => True := by
  refine (entriesOf place).bind fun entries _ => ?_
  split
  · exact pure trivial
  · exact throw

theorem setEntries (entries : List (Place × Place)) : Gives (Build.setEntries place entries) fun _ => True :=
  update place fun _ h => ⟨h.item, h.members⟩

/-! ### merged entries -/

theorem nameDefaults (entries : List (Place × Place)) : Gives (Build.nameDefaults entries) fun _ => True := by
  induction entries with
  | nil => exact pure trivial
  | cons e entries ih =>
    rw [Build.nameDefaults]
    refine (typeOf e.1).bind fun type _ => ?_
    dsimp only
    split
    · refine (update e.1 ?_).bind fun _ _ => ih
      exact fun _ h => ⟨h.item, h.members⟩
    · exact ih

theorem firstMerge? (entries : List (Place × Place)) : Gives (Build.firstMerge? entries) fun _ => True := by
  induction entries with
  | nil => exact pure trivial
  | cons e entries ih =>
    rw [Build.firstMerge?]
    refine (typeOf e.1).bind fun type _ => ?_
    split
    · exact pure trivial
    · exact ih.bind fun _ _ => pure trivial

/-- Merging, by the fuel. -/
theorem merging (fuel : Nat) : (∀ place, Gives (Build.flatten fuel place) fun _ => True) ∧
    ∀ place merged, Gives (Build.takeMerges fuel place merged) fun _ => True := by
  induction fuel with
  | zero =>
    refine ⟨fun place => ?_, fun place merged => ?_⟩
    · rw [Build.flatten]
      exact throw
    · rw [Build.takeMerges]
      exact throw
  | succ fuel ih =>
    obtain ⟨ihflatten, ihtake⟩ := ih
    refine ⟨fun place => ?_, fun place merged => ?_⟩
    · rw [Build.flatten]
      refine (ihtake place []).bind fun merged _ => (entriesOf place).bind fun own _ =>
        (nameDefaults own).bind fun _ _ => ?_
      split
      · refine (update place ?_).bind fun _ _ => setEntries place _
        exact fun _ h => ⟨h.item, h.members⟩
      · exact pure trivial
    · rw [Build.takeMerges]
      refine (entriesOf place).bind fun entries _ => (firstMerge? entries).bind fun found _ => ?_
      cases found with
      | none => exact pure trivial
      | some found =>
        obtain ⟨source, rest⟩ := found
        dsimp only
        split
        · exact throw_bind
        · refine (setEntries place rest).bind fun _ _ => (slot source).bind fun slot _ => ?_
          cases slot.node.content with
          | mapping entries =>
            exact (ihflatten source).bind fun _ _ => (entriesOf source).bind fun merged _ => ihtake place merged
          | sequence items =>
            have hitem : ∀ item ∈ items, Gives (do
                let _ ← Build.entriesOf item
                Build.flatten fuel item
                Build.entriesOf item) fun _ => True :=
              fun item _ => (entriesOf item).bind fun _ _ => (ihflatten item).bind fun _ _ => entriesOf item
            exact (mapM hitem).bind fun _ _ => (pure trivial).bind fun merged (_ : True) => ihtake place merged
          | scalar => exact throw_bind

/-! ### single values -/

theorem textOf (fuel : Nat) : Gives (Build.textOf fuel place) fun _ => True := by
  induction fuel generalizing place with
  | zero => exact throw
  | succ fuel ih =>
    rw [Build.textOf]
    refine (slot place).bind fun slot _ => ?_
    cases slot.node.content with
    | scalar => exact pure trivial
    | sequence => exact throw
    | mapping entries =>
      have hdefault : ∀ e ∈ entries, Gives (return decide ((← Build.typeOf e.1) = .default)) fun _ => True :=
        fun e _ => (typeOf e.1).bind fun _ _ => pure trivial
      refine (findM? hdefault).bind fun found _ => ?_
      cases found with
      | some e => exact ih e.2
      | none => exact throw

theorem single : Gives (Build.single place) Item.IsData := by
  refine get.bind fun s _ => ?_
  dsimp only
  split
  · exact throw
  · exact throw
  · refine (textOf place _).bind fun text _ => ?_
    exact (ofExcept fun v hv => isData_of_scalarValue hv).bind fun v hv => pure (.single hv)

/-! ### collections -/

theorem asKey {item : Item} (h : item.IsData) : Gives (Build.asKey item) Item.IsData := by
  cases h with
  | single data => exact pure (.single data)
  | tuple data => exact pure (.tuple data)
  | collection place =>
    refine (typeOf place).bind fun type _ => ?_
    split
    · exact get.bind fun s hs => pure (.tuple (hs.itemsAt place))
    · exact get.bind fun s hs => pure (.tuple (hs.itemsAt place))
    · exact throw

theorem checkKey (key : Item) : Gives (Build.checkKey key) fun _ => True := by
  refine get.bind fun s _ => ?_
  split
  · exact throw
  · exact pure trivial

theorem repeated (key value before : Item) : Gives (Build.repeated key value before) fun _ => False :=
  get.bind fun _ _ => bind_malformed

/-! ### the mutual recursion -/

/-- Keys and members are data. -/
def AllData (entries : Table Item Item) : Prop := ∀ e ∈ entries, e.1.IsData ∧ e.2.IsData

theorem setMembers {members : Members} (h : members.IsData) :
    Gives (Build.update place fun slot => { slot with members }) fun _ => True :=
  update place fun _ hslot => ⟨hslot.item, h⟩

section

variable {place} {deep : Bool} {fuel : Nat} (hitem : ∀ deep place, Gives (Build.item deep fuel place) Item.IsData)
  (hfill : ∀ deep place, Gives (Build.fill deep fuel place) fun _ => True)
  (hentry : ∀ deep checked table e, AllData table → Gives (Build.entry deep checked fuel table e) AllData)

include hfill in
theorem item_succ : Gives (Build.item deep (fuel + 1) place) Item.IsData := by
  rw [Build.item]
  refine get.bind fun s hs => ?_
  split
  · rename_i item hfound
    exact pure ((hs place).item item hfound)
  split
  · exact pure (.single .null)
  have hset : ∀ item : Item, item.IsData →
      Gives (Build.update place fun slot => { slot with item := some item }) fun _ => True := by
    intro item h
    refine update place fun slot hslot => ⟨?_, hslot.members⟩
    intro i hi
    obtain rfl : item = i := Option.some.inj hi
    exact h
  refine bind ?_ fun item h => (hset item h).bind fun _ _ => pure h
  split
  · exact single place
  split
  · refine (set ?_).bind fun _ _ => (hfill true place).bind fun _ _ => (change ?_).bind fun _ _ => pure ?_
    · exact hs
    · exact fun _ h => h
    · exact .collection place
  · refine (set ?_).bind fun _ _ => pure ?_
    · exact hs
    · exact .collection place

include hitem in
theorem pair (e : Place × Place) : Gives (do
    let key ← Build.item deep fuel e.1
    return .tuple [key, ← Build.item deep fuel e.2]) Item.IsData := by
  refine (hitem deep e.1).bind fun key hkey => (hitem deep e.2).bind fun value hvalue => pure (.tuple ?_)
  intro i hi
  rcases List.mem_cons.1 hi with rfl | hi
  · exact hkey
  · exact List.mem_singleton.1 hi ▸ hvalue

include hitem hentry in
theorem fill_succ : Gives (Build.fill deep (fuel + 1) place) fun _ => True := by
  rw [Build.fill]
  refine (typeOf place).bind fun type _ => ?_
  extract_lets store
  have hstore : ∀ members : Members, members.IsData → Gives (store members) fun _ => True :=
    fun members h => setMembers place h
  split
  · refine (itemsOf place).bind fun items _ => (mapM fun p _ => hitem deep p).bind fun found hfound => ?_
    exact (pure hfound).bind hstore
  · refine (itemsOf place).bind fun items _ => (mapM fun p _ => ?_).bind fun found hfound => (pure hfound).bind hstore
    exact (entryOf p).bind fun e _ => pair hitem e
  · have hadd : ∀ entries : Table Item Item, AllData entries → ∀ p, Gives (do
        let e ← Build.entryOf p
        let key ← Build.item deep fuel e.1
        Build.checkKey key
        if (Table.get? entries key).isSome then MonadExcept.throw Failure.repeatedKey
        return entries ++ [(key, ← Build.item deep fuel e.2)]) AllData := by
      intro entries h p
      refine (entryOf p).bind fun e _ => (hitem deep e.1).bind fun key hkey => (checkKey key).bind fun _ _ => ?_
      dsimp only
      split
      · exact throw_bind
      · refine (hitem deep e.2).bind fun value hvalue => pure (List.forall_mem_append.2 ⟨h, ?_⟩)
        exact List.forall_mem_singleton.2 ⟨hkey, hvalue⟩
    refine (itemsOf place).bind fun items _ => ?_
    refine (foldlM (fun entries h p _ => hadd entries h p) (List.forall_mem_nil _)).bind fun entries h => ?_
    exact (pure (show (Members.entries entries).IsData from h)).bind hstore
  · refine get.bind fun s _ => ((merging _).1 place).bind fun _ _ => (slot place).bind fun slot _ => ?_
    refine (foldlM (fun table h e _ => hentry deep false table e h) (List.forall_mem_nil _)).bind fun table ht => ?_
    refine (entriesOf place).bind fun entries _ => ?_
    refine (foldlM (fun table h e _ => hentry deep _ table e h) (List.forall_mem_nil _)).bind fun own hown => ?_
    have hall : (Members.entries (table.update own)).IsData := Table.forall_update hown ht
    exact (pure hall).bind hstore

include hitem in
theorem entry_succ {checked : Bool} {table : Table Item Item} {e : Place × Place} (ht : AllData table) :
    Gives (Build.entry deep checked (fuel + 1) table e) AllData := by
  rw [Build.entry]
  refine (hitem true e.1).bind fun first hfirst => (asKey hfirst).bind fun key hkey =>
    (hitem deep e.2).bind fun value hvalue => (checkKey key).bind fun _ _ => ?_
  have hput : AllData (table.put key value) := Table.forall_put ht hkey hvalue
  dsimp only
  split
  · split
    · exact (repeated _ _ _).bind fun _ h => h.elim
    · exact pure hput
  · exact pure hput

end

/-- **Items, members and entries are data**, by the fuel. -/
theorem filling (fuel : Nat) :
    (∀ deep place, Gives (Build.item deep fuel place) Item.IsData) ∧
    (∀ deep place, Gives (Build.fill deep fuel place) fun _ => True) ∧
    ∀ deep checked table e, AllData table → Gives (Build.entry deep checked fuel table e) AllData := by
  induction fuel with
  | zero =>
    refine ⟨fun deep place => ?_, fun deep place => ?_, fun deep checked table e _ => ?_⟩
    · rw [Build.item]
      exact throw
    · rw [Build.fill]
      exact throw
    · rw [Build.entry]
      exact throw
  | succ fuel ih =>
    obtain ⟨hitem, hfill, hentry⟩ := ih
    exact ⟨fun _ _ => item_succ hfill, fun _ _ => fill_succ hitem hentry, fun _ _ _ _ ht => entry_succ hitem ht⟩

theorem levels (fuel : Nat) : Gives (Build.levels fuel) fun _ => True := by
  induction fuel with
  | zero => exact throw
  | succ fuel ih =>
    rw [Build.levels]
    refine get.bind fun s hs => ?_
    split
    · refine (set ?_).bind fun _ _ => (forM ?_).bind fun _ _ => ih
      · exact hs
      · exact fun place _ => (filling _).2.1 false place
    · exact pure trivial

theorem value : Gives (Build.value place) Value.IsData := by
  refine get.bind fun s _ => ((filling _).1 false place).bind fun item h => (levels _).bind fun _ _ => ?_
  exact get.bind fun s hs => pure (hs.valueOf _ _ h)

end Build.Gives

/-! ## documents -/

theorem Graph.isData_of_value {g : Graph} {v : Value} (h : g.value = .ok v) : v.IsData := by
  unfold Graph.value at h
  extract_lets size at h
  have hbegin : Building.IsData { slots := g.nodes.map fun node => { node }, version := g.version, size } := by
    intro place
    unfold Building.slot
    rw [getElem!_def, Array.getElem?_map]
    cases g.nodes[place]? with
    | none => exact Building.isData_default
    | some node => exact ⟨by simp, List.forall_mem_nil _⟩
  obtain ⟨s, hrun⟩ := exists_run_of_run' h
  exact (Build.Gives.value g.root _ s v hbegin hrun).2

theorem isData_of_read {t : Text} {v : Value} (h : read t = .ok v) : v.IsData := by
  obtain ⟨g, -, h⟩ := Except.bind_eq_ok_iff.1 h
  cases g with
  | none =>
    cases h
    exact .null
  | some g => exact g.isData_of_value h

/-- **YAML documents stand for data.** -/
theorem reader_givesData : reader.GivesData := by
  intro t v h
  unfold reader at h
  cases hread : read t with
  | ok u =>
    rw [hread] at h
    cases h
    exact isData_of_read hread
  | error f =>
    rw [hread] at h
    cases h

theorem Failure.toDocumentFault_eq_rejected_iff {f : Failure} {m : Text} :
    f.toDocumentFault = .rejected m ↔ f = .malformed ∧ m = "the text is not well formed" := by
  constructor
  · intro h
    cases f with
    | malformed =>
      cases h
      exact ⟨rfl, rfl⟩
    | calendar e => cases e <;> cases h
    | noSuchCharacter small => cases small <;> cases h
    | _ => cases h
  · rintro ⟨rfl, rfl⟩
    rfl

theorem reader_eq_rejected_iff {t m : Text} :
    reader t = .error (.rejected m) ↔ read t = .error .malformed ∧ m = "the text is not well formed" := by
  unfold reader
  cases hread : read t with
  | ok v => exact iff_of_false nofun nofun
  | error f =>
    change (.error f.toDocumentFault : Except DocumentFault Value) = .error (.rejected m) ↔ _
    rw [Except.error.injEq, Except.error.injEq]
    exact Failure.toDocumentFault_eq_rejected_iff

end UriTemplate.Yaml
