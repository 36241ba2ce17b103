import UriTemplate.Session
import UriTemplate.Proofs.Actions
import UriTemplate.Proofs.Tables

/-!
# What a step of a session can do

* `Session.Quiet`, `Session.FailsQuietly` — actions that change neither the names nor the values and tables that there are,
  always or when they fail;
* `Session.Step.target?` — the name under which a step stores something;
* `Session.View`, `Session.view?` — what a name stands for, with the table of a binding in place of the place of it;
* `Session.Separated` — no two bindings have one table; `Session.Puts` — only what one name stands for is changed;
* `Session.effect_error` — a step that fails changes nothing that a name stands for, apart from the content of a sink;
* `Session.Step.Regular` — steps that change no value in place, and make no binding without looking at the names;
* `Session.Stored`, `Session.effect_ok`, `Session.effect_other` — what a regular step stores, and that the other names stay.
-/

namespace UriTemplate

namespace Session

/-! ## quiet actions -/

section

variable {α β : Type}

/-- The names and the tables are the same, and there may be more values. -/
structure Extends (s s' : Session) : Prop where
  objects : s'.objects = s.objects
  tables : s'.tables = s.tables
  values : s.values <+: s'.values

theorem Extends.refl (s : Session) : Extends s s := ⟨rfl, rfl, List.prefix_rfl⟩

theorem Extends.trans {s s₁ s₂ : Session} (h : Extends s s₁) (h' : Extends s₁ s₂) : Extends s s₂ :=
  ⟨h'.objects.trans h.objects, h'.tables.trans h.tables, h.values.trans h'.values⟩

/-- The action changes no name, no table and none of the values that there are. -/
def Quiet (m : Run α) : Prop := ∀ s, Extends s (m s).2

/-- If the action fails, it has changed no name, no table and none of the values. -/
def FailsQuietly (m : Run α) : Prop := ∀ s e s', m s = (.error e, s') → Extends s s'

namespace Quiet

theorem pure (a : α) : Quiet (Pure.pure a) := Extends.refl

theorem throw (e : Fault) : Quiet (MonadExcept.throw e : Run α) := Extends.refl

theorem get : Quiet MonadState.get := Extends.refl

theorem bind {m : Run α} {f : α → Run β} (hm : Quiet m) (hf : ∀ a, Quiet (f a)) : Quiet (m >>= f) := by
  intro s
  have h := hm s
  cases hr : m s with
  | mk r s₁ =>
    rw [hr] at h
    cases r with
    | error e => rwa [bind_of_error hr]
    | ok a =>
      rw [bind_of_ok hr]
      exact h.trans (hf a s₁)

theorem mapM {f : α → Run β} (hf : ∀ a, Quiet (f a)) (as : List α) : Quiet (as.mapM f) := by
  induction as with
  | nil => exact .pure _
  | cons a as ih =>
    rw [List.mapM_cons]
    exact (hf a).bind fun _ => ih.bind fun _ => .pure _

theorem failsQuietly {m : Run α} (h : Quiet m) : FailsQuietly m := by
  intro s e s' hs
  have hext := h s
  rwa [hs] at hext

/-- If the first action fails, nothing is changed. -/
theorem bind_cases {m : Run α} (hm : Quiet m) (f : α → Run β) (s : Session) :
    (∃ e s', (m >>= f) s = (.error e, s') ∧ Extends s s') ∨
      ∃ a s', m s = (.ok a, s') ∧ Extends s s' ∧ (m >>= f) s = f a s' := by
  have h := hm s
  cases hr : m s with
  | mk r s' =>
    rw [hr] at h
    cases r with
    | error e => exact .inl ⟨e, s', bind_of_error hr, h⟩
    | ok a => exact .inr ⟨a, s', rfl, h, bind_of_ok hr⟩

/-- Nothing is changed before the last action. -/
theorem bind_failsQuietly {m : Run α} {f : α → Run β} (hm : Quiet m) (hf : ∀ a, FailsQuietly (f a)) :
    FailsQuietly (m >>= f) := by
  intro s e s' h
  rcases bind_eq_error_iff.1 h with h | ⟨a, s₁, ha, h⟩
  · exact hm.failsQuietly s e s' h
  · have hext := hm s
    rw [ha] at hext
    exact hext.trans (hf a s₁ e s' h)

theorem object (id : Text) : Quiet (object id) := get.bind fun s => by split <;> exact Extends.refl

theorem getTemplate (id : Text) : Quiet (getTemplate id) := (object id).bind fun o => by cases o <;> exact Extends.refl

theorem bindingAt (t : Template) (place : Place) : Quiet (bindingAt t place) := Extends.refl

theorem locate (id : Text) : Quiet (locate id) := by
  refine (object id).bind fun o => ?_
  cases o with
  | binding t place => exact (bindingAt t place).bind fun _ => .pure _
  | _ => exact .throw _

theorem getBinding (id : Text) : Quiet (getBinding id) := (locate id).bind fun _ => .pure _

theorem getSink (id : Text) : Quiet (getSink id) := (object id).bind fun o => by cases o <;> exact Extends.refl

theorem getRef (id : Text) : Quiet (getRef id) := (object id).bind fun o => by cases o <;> exact Extends.refl

theorem share (source : Source) : Quiet (share source) := fun _ => ⟨rfl, rfl, List.prefix_append _ _⟩

theorem deref (ref : Ref) : Quiet (deref ref) := Extends.refl

theorem dereferenced (b : Binding Ref) : Quiet (dereferenced b) := Extends.refl

theorem liftExcept (x : Except Fault α) : Quiet (liftExcept x) := by
  cases x <;> exact Extends.refl

theorem perform (a : Act α) : Quiet (perform a) := fun _ => ⟨rfl, rfl, List.prefix_rfl⟩

theorem parse (source : Text) : Quiet (parse source) := by
  unfold Session.parse
  split <;> exact Extends.refl

theorem operand (o : Operand) : Quiet (operand o) := by
  cases o with
  | given source => exact share source
  | held id => exact getRef id

theorem shareAll (values : List (Text × Value)) : Quiet (shareAll values) :=
  .mapM (fun _ => (share _).bind fun _ => .pure _) values

theorem all (values : CallValues) : Quiet values.all := by
  unfold CallValues.all
  split
  · exact .pure _
  · exact (getRef _).bind fun ref => (deref ref).bind fun _ => .pure _

theorem expand (id : Text) (values : CallValues) : Quiet (expand id values) := by
  refine (object id).bind fun o => ?_
  cases o with
  | template t => exact (all values).bind fun _ => perform _
  | binding t place => exact (bindingAt t place).bind fun b => (dereferenced b).bind fun _ => perform _
  | _ => exact .throw _

theorem textOf (id : Text) : Quiet (textOf id) := by
  refine (object id).bind fun o => ?_
  cases o with
  | template t => exact .pure _
  | binding t place => exact (bindingAt t place).bind fun b => (dereferenced b).bind fun _ => perform _
  | _ => exact .throw _

theorem display (id : Text) : Quiet (display id) := by
  refine (object id).bind fun o => ?_
  cases o with
  | template t => exact .pure _
  | binding t place => exact (bindingAt t place).bind fun b => (dereferenced b).bind fun _ => liftExcept _
  | _ => exact .throw _

theorem contains (id : Text) (name : Value) : Quiet (contains id name) := by
  refine (object id).bind fun o => ?_
  split
  case h_5 => split <;> exact Extends.refl
  all_goals exact Extends.refl

end Quiet

namespace FailsQuietly

theorem store (id : Text) (o : Object) : FailsQuietly (store id o) := by
  rintro s e s' ⟨⟩

theorem update (ref : Ref) (source : Source) : FailsQuietly (update ref source) := by
  rintro s e s' ⟨⟩

theorem replaceTable (place : Place) (values : Table Text Ref) : FailsQuietly (replaceTable place values) := by
  rintro s e s' ⟨⟩

theorem store_allocate (id : Text) (b : Binding Ref) : FailsQuietly (do Session.store id (← allocate b)) := by
  rintro s e s' ⟨⟩

theorem bind_pure {m : Run α} (hm : FailsQuietly m) (g : α → β) : FailsQuietly (m >>= fun a => Pure.pure (g a)) := by
  intro s e s' h
  rcases bind_eq_error_iff.1 h with h | ⟨a, s₁, -, ⟨⟩⟩
  exact hm s e s' h

end FailsQuietly

/-- What is stored last is not stored if anything fails. -/
theorem Quiet.store_failsQuietly {m : Run α} (hm : Quiet m) (id : Text) (f : α → Object) (r : α → Reply) :
    FailsQuietly (do let a ← m; store id (f a); return r a) :=
  hm.bind_failsQuietly fun a => (FailsQuietly.store id (f a)).bind_pure _

theorem Quiet.allocate_failsQuietly {m : Run α} (hm : Quiet m) (id : Text) (f : α → Binding Ref) (r : Reply) :
    FailsQuietly (do let a ← m; store id (← allocate (f a)); return r) := by
  refine hm.bind_failsQuietly fun a => ?_
  have h := (FailsQuietly.store_allocate id (f a)).bind_pure fun _ => r
  rwa [bind_assoc] at h

end

/-! ## steps that fail -/

/-- The name that a step stores something under. -/
def Step.target? : Step → Option Text
  | .template id _ | .sink id | .write id _ | .expandTo id _ _ | .value id _ | .reparse id _ | .bind id _ _ | .bound id _ _ |
    .copy id _ | .expander id _ | .set id _ _ | .clear id => some id
  | .content _ | .put _ _ _ | .run _ _ | .expand _ _ | .get _ _ | .append _ _ _ | .contains _ _ | .textOf _ | .display _ |
    .size _ => none

/-- The step changes no value in place, and it makes no binding without a look at the names. -/
def Step.Regular : Step → Prop
  | .put _ _ _ | .append _ _ _ | .bound _ _ _ => False
  | _ => True

/-- A regular step that stores nothing changes nothing. -/
theorem quiet_effect {x : Step} (hx : x.Regular) (htarget : x.target? = none) : Quiet (effect x) := by
  cases x with
  | content id => exact (Quiet.getSink id).bind fun _ => .pure _
  | put id name value => exact hx.elim
  | run id template =>
    refine (Quiet.object id).bind fun o => ?_
    cases o with
    | expander source => exact (Quiet.parse template).bind fun _ => (Quiet.perform _).bind fun _ => .pure _
    | _ => exact .throw _
  | expand id values => exact (Quiet.expand id values).bind fun _ => .pure _
  | get id name =>
    refine (Quiet.getBinding id).bind fun b => (Quiet.liftExcept (b.get name)).bind fun ref? => ?_
    cases ref? with
    | none => exact .pure _
    | some ref => exact (Quiet.deref ref).bind fun _ => .pure _
  | append id name value => exact hx.elim
  | contains id name => exact (Quiet.contains id name).bind fun _ => .pure _
  | textOf id => exact (Quiet.textOf id).bind fun _ => .pure _
  | display id => exact (Quiet.display id).bind fun _ => .pure _
  | size id => exact (Quiet.getTemplate id).bind fun _ => .pure _
  | _ => cases htarget -- the other steps store something

/-- **A step that fails changes nothing**, apart from the world, and from the sink if it writes to one. -/
theorem failsQuietly_effect {x : Step} (h : ∀ sink template values, x ≠ .expandTo sink template values) :
    FailsQuietly (effect x) := by
  cases x with
  | template id source => exact Quiet.store_failsQuietly (.parse source) id _ _
  | sink id => exact (FailsQuietly.store id _).bind_pure _
  | write id text => exact Quiet.store_failsQuietly (.getSink id) id _ _
  | expandTo sink template values => exact absurd rfl (h sink template values)
  | value id source => exact Quiet.store_failsQuietly (.share source) id _ _
  | put id name value =>
    refine FailsQuietly.bind_pure ?_ _
    refine (Quiet.getRef id).bind_failsQuietly fun ref => (Quiet.deref ref).bind_failsQuietly fun source => ?_
    split
    · exact .update ref _
    · exact (Quiet.throw _).failsQuietly
  | reparse id template =>
    refine (Quiet.getTemplate template).bind_failsQuietly fun t => ?_
    exact Quiet.store_failsQuietly (.parse t.source) id _ _
  | bind id template values =>
    refine (Quiet.getTemplate template).bind_failsQuietly fun t => (Quiet.shareAll values).bind_failsQuietly fun refs => ?_
    exact Quiet.allocate_failsQuietly (.liftExcept _) id _ _
  | bound id template values =>
    refine (Quiet.getTemplate template).bind_failsQuietly fun t => ?_
    exact Quiet.allocate_failsQuietly (.shareAll values) id _ _
  | copy id binding => exact Quiet.allocate_failsQuietly (.getBinding binding) id _ _
  | expander id source =>
    refine (Quiet.liftExcept (Resolver.ofSource source)).bind_failsQuietly fun _ => ?_
    exact (FailsQuietly.store id _).bind_pure _
  | set id name o =>
    refine (Quiet.locate id).bind_failsQuietly fun ⟨place, b⟩ => (Quiet.operand o).bind_failsQuietly fun ref => ?_
    exact (Quiet.liftExcept _).bind_failsQuietly fun b => (FailsQuietly.replaceTable place _).bind_pure _
  | append id name value =>
    refine FailsQuietly.bind_pure ?_ _
    refine (Quiet.getBinding id).bind_failsQuietly fun b => (Quiet.liftExcept (b.get name)).bind_failsQuietly fun ref? => ?_
    cases ref? with
    | none => exact (Quiet.throw _).failsQuietly
    | some ref =>
      refine (Quiet.deref ref).bind_failsQuietly fun source => ?_
      split
      · exact .update ref _
      · exact (Quiet.throw _).failsQuietly
  | clear id =>
    exact (Quiet.locate id).bind_failsQuietly fun ⟨place, b⟩ => (FailsQuietly.replaceTable place _).bind_pure _
  | _ => exact (quiet_effect (by trivial) rfl).failsQuietly

/-! ## what names stand for -/

/-- What a name stands for, with the table of a binding as it is at the time. -/
inductive View
  | template (t : Template)
  | binding (b : Binding Ref)
  | sink (content : Text)
  | value (ref : Ref)
  | expander (source : Source)

/-- An object, with its table. -/
def Object.view (tables : List (Table Text Ref)) : Object → View
  | .template t => .template t
  | .binding t place => .binding { template := t, values := tables.getD place [] }
  | .sink content => .sink content
  | .value ref => .value ref
  | .expander source => .expander source

def view? (s : Session) (id : Text) : Option View := (s.objects.get? id).map (Object.view s.tables)

/-- **No two bindings have one table**, and each has one. -/
structure Separated (s : Session) : Prop where
  placed : ∀ id t place, s.objects.get? id = some (.binding t place) → place < s.tables.length
  apart : ∀ id id' t t' place, s.objects.get? id = some (.binding t place) →
    s.objects.get? id' = some (.binding t' place) → id = id'

/-- One name stands for something else then, and nothing else is changed that a name stands for. -/
structure Puts (s s' : Session) (id : Text) (v : View) : Prop where
  separated : s'.Separated
  view : ∀ n, s'.view? n = if n = id then some v else s.view? n

section

variable {s s' : Session} {id : Text}

theorem Extends.view (h : Extends s s') (n : Text) : s'.view? n = s.view? n := by
  rw [view?, h.objects, h.tables, view?]

theorem Extends.separated (h : Extends s s') (hs : s.Separated) : s'.Separated where
  placed := by
    rw [h.objects, h.tables]
    exact hs.placed
  apart := by
    rw [h.objects]
    exact hs.apart

theorem view?_put (hobjects : s'.objects = s.objects.put id o) (n : Text) :
    s'.view? n = if n = id then some (o.view s'.tables) else (s.objects.get? n).map (Object.view s'.tables) := by
  rw [view?, hobjects, Table.get?_put]
  split <;> rfl

/-- An object without a table is stored. -/
theorem Puts.store (hs : s.Separated) {o : Object} (ho : ∀ t place, o ≠ .binding t place)
    (hobjects : s'.objects = s.objects.put id o) (htables : s'.tables = s.tables) : Puts s s' id (o.view s.tables) where
  separated := by
    have hold : ∀ {n t place}, s'.objects.get? n = some (.binding t place) →
        s.objects.get? n = some (.binding t place) := by
      intro n t place h
      rw [hobjects, Table.get?_put] at h
      split at h
      · exact absurd (Option.some.inj h) (ho t place)
      · exact h
    constructor
    · intro n t place h
      rw [htables]
      exact hs.placed n t place (hold h)
    · intro n n' t t' place h h'
      exact hs.apart n n' t t' place (hold h) (hold h')
  view n := by rw [view?_put hobjects, htables, view?]

/-- A binding is stored with a new table. -/
theorem Puts.allocate (hs : s.Separated) {b : Binding Ref}
    (hobjects : s'.objects = s.objects.put id (.binding b.template s.tables.length))
    (htables : s'.tables = s.tables ++ [b.values]) : Puts s s' id (.binding b) where
  separated := by
    -- the new place is behind those of the other bindings
    have hcases : ∀ {n t place}, s'.objects.get? n = some (.binding t place) →
        (n = id ∧ place = s.tables.length) ∨ (s.objects.get? n = some (.binding t place) ∧ place < s.tables.length) := by
      intro n t place h
      rw [hobjects, Table.get?_put] at h
      split at h
      · cases h
        exact .inl ⟨‹_›, rfl⟩
      · exact .inr ⟨h, hs.placed n t place h⟩
    constructor
    · intro n t place h
      rw [htables, List.length_append, List.length_singleton]
      rcases hcases h with ⟨-, rfl⟩ | ⟨-, hlt⟩
      · exact Nat.lt_succ_self _
      · exact Nat.lt_succ_of_lt hlt
    · intro n n' t t' place h h'
      rcases hcases h with ⟨rfl, hplace⟩ | ⟨hold, hlt⟩ <;> rcases hcases h' with ⟨rfl, hplace'⟩ | ⟨hold', hlt'⟩
      · rfl
      · exact absurd (hplace ▸ hlt') (Nat.lt_irrefl _)
      · exact absurd (hplace' ▸ hlt) (Nat.lt_irrefl _)
      · exact hs.apart n n' t t' place hold hold'
  view n := by
    rw [view?_put hobjects, htables]
    split
    · simp [Object.view]
    · rw [view?]
      cases hget : s.objects.get? n with
      | none => rfl
      | some o =>
        cases o with
        | binding t place =>
          have hlt := hs.placed n t place hget
          simp only [Option.map_some, Object.view, List.getD_eq_getElem?_getD, List.getElem?_append_left hlt]
        | _ => rfl

/-- The table of a binding is changed. -/
theorem Puts.replace (hs : s.Separated) {t : Template} {place : Place} (hb : s.objects.get? id = some (.binding t place))
    {values : Table Text Ref} (hobjects : s'.objects = s.objects) (htables : s'.tables = s.tables.set place values) :
    Puts s s' id (.binding { template := t, values }) where
  separated := by
    constructor
    · intro n t place h
      rw [htables, List.length_set]
      exact hs.placed n t place (hobjects ▸ h)
    · intro n n' t t' place h h'
      exact hs.apart n n' t t' place (hobjects ▸ h) (hobjects ▸ h')
  view n := by
    have hplace := hs.placed id t place hb
    rw [view?, hobjects, htables]
    split
    · next hn =>
      rw [hn, hb, Option.map_some, Object.view, List.getD_eq_getElem?_getD, List.getElem?_set_self hplace]
      rfl
    · next hn =>
      rw [view?]
      cases hget : s.objects.get? n with
      | none => rfl
      | some o =>
        cases o with
        | binding t' place' =>
          have hne : place ≠ place' := by
            rintro rfl
            exact hn (hs.apart n id t' t place hget hb)
          simp only [Option.map_some, Object.view, List.getD_eq_getElem?_getD, List.getElem?_set_ne hne]
        | _ => rfl

end

/-! ## looking at the names -/

section

variable {s s' : Session} {id : Text} {α : Type} {a : α}

theorem pure_eq_ok_iff {b : α} : (pure b : Run α) s = (.ok a, s') ↔ b = a ∧ s = s' :=
  ⟨pure_eq_ok, fun h => by rw [h.1, h.2]; rfl⟩

theorem wrongObject_ne_ok : (wrongObject id : Run α) s ≠ (.ok a, s') := nofun

theorem object_run (id : Text) (s : Session) :
    object id s =
      match s.objects.get? id with
      | some o => (.ok o, s)
      | none => (.error (.raised { message := ("No object " : Text) ++ id }), s) := by
  show (match s.objects.get? id with | some o => return o | none => throw _ : Run Object) s = _
  cases s.objects.get? id <;> rfl

theorem object_of_get? {o : Object} (h : s.objects.get? id = some o) : object id s = (.ok o, s) := by
  rw [object_run, h]

/-- What a name stands for, if it is an object of the kind that is looked for. -/
theorem object_bind_eq_ok_iff {k : Object → Run α} {kind : α → Object}
    (hk : ∀ o s s' a, k o s = (.ok a, s') ↔ o = kind a ∧ s = s') :
    (object id >>= k) s = (.ok a, s') ↔ s.objects.get? id = some (kind a) ∧ s = s' := by
  cases hget : s.objects.get? id with
  | none =>
    have herror := object_run id s
    rw [hget] at herror
    rw [bind_of_error herror]
    constructor
    · rintro ⟨⟩
    · rintro ⟨⟨⟩, -⟩
  | some o => rw [bind_of_ok (object_of_get? hget), hk, Option.some.injEq]

theorem view?_eq_some_iff {v : View} :
    s.view? id = some v ↔ ∃ o, s.objects.get? id = some o ∧ o.view s.tables = v := Option.map_eq_some_iff

/-- Only one object has that view. -/
theorem view?_eq_iff_of_object {o : Object} {v : View} (h : ∀ o', o'.view s.tables = v ↔ o' = o) :
    s.view? id = some v ↔ s.objects.get? id = some o := by
  rw [view?_eq_some_iff]
  constructor
  · rintro ⟨o', ho, hv⟩
    rwa [← (h o').1 hv]
  · exact fun ho => ⟨o, ho, (h o).2 rfl⟩

theorem getTemplate_eq_ok_iff {t : Template} :
    getTemplate id s = (.ok t, s') ↔ s.view? id = some (.template t) ∧ s = s' := by
  rw [view?_eq_iff_of_object (o := .template t) fun o => by cases o <;> simp [Object.view]]
  exact object_bind_eq_ok_iff fun o _ _ _ => by cases o <;> simp [pure_eq_ok_iff, wrongObject_ne_ok]

theorem getSink_eq_ok_iff {content : Text} :
    getSink id s = (.ok content, s') ↔ s.objects.get? id = some (.sink content) ∧ s = s' :=
  object_bind_eq_ok_iff fun o _ _ _ => by cases o <;> simp [pure_eq_ok_iff, wrongObject_ne_ok]

theorem getRef_eq_ok_iff {ref : Ref} : getRef id s = (.ok ref, s') ↔ s.view? id = some (.value ref) ∧ s = s' := by
  rw [view?_eq_iff_of_object (o := .value ref) fun o => by cases o <;> simp [Object.view]]
  exact object_bind_eq_ok_iff fun o _ _ _ => by cases o <;> simp [pure_eq_ok_iff, wrongObject_ne_ok]

/-- The binding that a name stands for has its table at a place. -/
theorem view?_eq_binding_iff {b : Binding Ref} :
    s.view? id = some (.binding b) ↔
      ∃ place, s.objects.get? id = some (.binding b.template place) ∧ s.tables.getD place [] = b.values := by
  rw [view?_eq_some_iff]
  constructor
  · rintro ⟨o, ho, hv⟩
    cases o <;> cases hv
    exact ⟨_, ho, rfl⟩
  · rintro ⟨place, hget, hvalues⟩
    exact ⟨_, hget, by rw [Object.view, hvalues]⟩

theorem locate_of_get? {t : Template} {place : Place} (h : s.objects.get? id = some (.binding t place)) :
    locate id s = (.ok (place, { template := t, values := s.tables.getD place [] }), s) :=
  bind_of_ok (object_of_get? h)

theorem locate_eq_ok {place : Place} {b : Binding Ref} (h : locate id s = (.ok (place, b), s')) :
    s.objects.get? id = some (.binding b.template place) ∧ s.tables.getD place [] = b.values ∧ s = s' := by
  obtain ⟨o, s₁, ho, h⟩ := bind_eq_ok h
  cases hget : s.objects.get? id with
  | none =>
    rw [object_run, hget] at ho
    cases ho
  | some o' =>
    rw [object_of_get? hget] at ho
    cases ho
    cases o with
    | binding t p =>
      cases h
      exact ⟨rfl, rfl, rfl⟩
    | _ => cases h

theorem getBinding_eq_ok_iff {b : Binding Ref} :
    getBinding id s = (.ok b, s') ↔ s.view? id = some (.binding b) ∧ s = s' := by
  rw [view?_eq_binding_iff]
  constructor
  · intro h
    obtain ⟨⟨place, b'⟩, s₁, hlocate, h⟩ := bind_eq_ok h
    obtain ⟨rfl, rfl⟩ := pure_eq_ok h
    obtain ⟨hget, hvalues, rfl⟩ := locate_eq_ok hlocate
    exact ⟨⟨place, hget, hvalues⟩, rfl⟩
  · rintro ⟨⟨place, hget, hvalues⟩, rfl⟩
    refine (bind_of_ok (locate_of_get? hget)).trans ?_
    rw [hvalues]
    rfl

theorem liftExcept_eq_ok_iff {x : Except Fault α} : liftExcept x s = (.ok a, s') ↔ x = .ok a ∧ s = s' := by
  cases x with
  | ok b => exact pure_eq_ok_iff.trans (by rw [Except.ok.injEq])
  | error e =>
    constructor
    · rintro ⟨⟩
    · rintro ⟨⟨⟩, -⟩

theorem parse_eq_ok {source : Text} {t : Template} (h : parse source s = (.ok t, s')) :
    Template.parse source = .ok t ∧ s = s' := by
  unfold parse at h
  cases ht : Template.parse source with
  | ok u =>
    rw [ht] at h
    obtain ⟨rfl, rfl⟩ := pure_eq_ok h
    exact ⟨rfl, rfl⟩
  | error e =>
    rw [ht] at h
    cases h

theorem store_eq_ok {o : Object} {r r' : Reply} (h : (do store id o; return r' : Run Reply) s = (.ok r, s')) :
    s' = { s with objects := s.objects.put id o } := by
  cases h
  rfl

theorem allocate_eq_ok {b : Binding Ref} {r r' : Reply}
    (h : (do store id (← allocate b); return r' : Run Reply) s = (.ok r, s')) :
    s' = { s with objects := s.objects.put id (.binding b.template s.tables.length), tables := s.tables ++ [b.values] } := by
  cases h
  rfl

theorem replaceTable_eq_ok {place : Place} {values : Table Text Ref} {r r' : Reply}
    (h : (do replaceTable place values; return r' : Run Reply) s = (.ok r, s')) :
    s' = { s with tables := s.tables.set place values } := by
  cases h
  rfl

end

/-- **Expanding into a sink** changes the content of the sink, even if it fails, or nothing. -/
theorem expandTo_run (sink template : Text) (values : CallValues) (s : Session) :
    (∃ e s', expandTo sink template values s = (.error e, s') ∧ Extends s s') ∨
      ∃ r s' content content', expandTo sink template values s = (r, s') ∧ s.values <+: s'.values ∧
        s.objects.get? sink = some (.sink content) ∧ s'.objects = s.objects.put sink (.sink content') ∧
        s'.tables = s.tables := by
  unfold expandTo
  rcases (Quiet.getSink sink).bind_cases _ s with herror | ⟨content, s₁, hget, -, hrun⟩
  · exact .inl herror
  obtain ⟨hsink, rfl⟩ := getSink_eq_ok_iff.1 hget
  rw [hrun]
  rcases (Quiet.getTemplate template).bind_cases _ s with herror | ⟨t, s₁, hget, -, hrun⟩
  · exact .inl herror
  obtain ⟨-, rfl⟩ := getTemplate_eq_ok_iff.1 hget
  rw [hrun]
  rcases (Quiet.all values).bind_cases _ s with herror | ⟨sources, s₁, -, hext, hrun⟩
  · exact .inl herror
  rw [hrun, bind_of_ok (rfl : (get : Run Session) s₁ = (.ok s₁, s₁))]
  cases t.expandTo sources values.named (.ofSink content s₁.world) with
  | mk result output =>
    -- what was written is stored before the fault, if there is one, is passed on
    have hlift : ∀ s', liftExcept result s' = (result, s') := by
      cases result <;> exact fun _ => rfl
    refine .inr ⟨result, { s₁ with objects := s₁.objects.put sink (.sink output.sink), world := output.world }, content,
      output.sink, hlift _, hext.values, hsink, by rw [hext.objects], hext.tables⟩

/-- **A step that fails changes nothing that a name stands for**, apart from a sink it wrote to, and none of the values. -/
theorem effect_error {x : Step} {s s' : Session} (hs : s.Separated) {e : Fault} (h : effect x s = (.error e, s')) :
    s.values <+: s'.values ∧ s'.Separated ∧ ∀ id v, (∀ content, v ≠ .sink content) →
      (s'.view? id = some v ↔ s.view? id = some v) := by
  by_cases hx : ∃ sink template values, x = .expandTo sink template values
  · obtain ⟨sink, template, values, rfl⟩ := hx
    have hexpand : expandTo sink template values s = (.error e, s') := by
      rcases bind_eq_error_iff.1 h with hexpand | ⟨-, s₁, -, ⟨⟩⟩
      exact hexpand
    rcases expandTo_run sink template values s with
      ⟨_, s₁, hrun, hext⟩ | ⟨_, s₁, content, content', hrun, hvalues, hsink, hobjects, htables⟩
    · cases hexpand.symm.trans hrun
      exact ⟨hext.values, hext.separated hs, fun id v _ => by rw [hext.view]⟩
    · cases hexpand.symm.trans hrun
      obtain ⟨hseparated, hview⟩ := Puts.store hs (o := .sink content') (by rintro _ _ ⟨⟩) hobjects htables
      refine ⟨hvalues, hseparated, fun id v hv => ?_⟩
      rw [hview]
      split
      · rename_i hid
        rw [hid, view?, hsink, Option.map_some, Option.some.injEq, Option.some.injEq]
        exact iff_of_false (fun h => hv _ h.symm) fun h => hv _ h.symm
      · rfl
  · have hext := failsQuietly_effect (fun sink template values hx' => hx ⟨sink, template, values, hx'⟩) s e s' h
    exact ⟨hext.values, hext.separated hs, fun id v _ => by rw [hext.view]⟩

/-! ## what is stored -/

section

variable {s s' : Session} {id : Text}

/-- The place of a value that is given with a step or held.  `values` are those after the step. -/
def Operand.At (s : Session) (values : List Source) : Operand → Ref → Prop
  | .given source, ref => values[ref]? = some source
  | .held id, ref => s.view? id = some (.value ref)

theorem operand_eq_ok {o : Operand} {ref : Ref} (h : operand o s = (.ok ref, s')) :
    Extends s s' ∧ o.At s s'.values ref := by
  cases o with
  | given source =>
    cases h
    exact ⟨⟨rfl, rfl, List.prefix_append _ _⟩, by simp [Operand.At]⟩
  | held id =>
    obtain ⟨href, rfl⟩ := getRef_eq_ok_iff.1 h
    exact ⟨.refl s, href⟩

theorem getElem?_eq_some_mono {α : Type} {as bs : List α} {a : α} {i : Nat} (h : as <+: bs) (hi : as[i]? = some a) :
    bs[i]? = some a := by
  obtain ⟨more, rfl⟩ := h
  obtain ⟨hlt, -⟩ := List.getElem?_eq_some_iff.1 hi
  rw [List.getElem?_append_left hlt, hi]

/-- Each name stands with the place of its value. -/
theorem shareAll_eq_ok {entries : List (Text × Value)} {refs : List (Text × Ref)}
    (h : shareAll entries s = (.ok refs, s')) :
    Extends s s' ∧ refs.map (fun e => (e.1, s'.values[e.2]?)) = entries.map fun e => (e.1, some (.value e.2)) := by
  unfold shareAll at h
  induction entries generalizing s refs with
  | nil =>
    obtain ⟨rfl, rfl⟩ := pure_eq_ok h
    exact ⟨.refl s, rfl⟩
  | cons e entries ih =>
    rw [List.mapM_cons] at h
    obtain ⟨⟨name, ref⟩, s₁, hshare, h⟩ := bind_eq_ok h
    obtain ⟨refs', s₂, hrest, h⟩ := bind_eq_ok h
    obtain ⟨rfl, rfl⟩ := pure_eq_ok h
    obtain ⟨hext, hrefs⟩ := ih hrest
    cases hshare
    have hvalue : s₂.values[s.values.length]? = some (.value e.2) := getElem?_eq_some_mono hext.values (by simp)
    have hs : Extends s { s with values := s.values ++ [.value e.2] } := ⟨rfl, rfl, List.prefix_append _ _⟩
    exact ⟨hs.trans hext, by rw [List.map_cons, List.map_cons, hrefs, hvalue]⟩

/-- What a step stores.  `values` are those after the step. -/
inductive Stored (s : Session) (values : List Source) : Step → View → Prop
  | template {id source : Text} {t : Template} (h : Template.parse source = .ok t) :
    Stored s values (.template id source) (.template t)
  | reparse {id template : Text} {t u : Template} (ht : s.view? template = some (.template t))
    (h : Template.parse t.source = .ok u) : Stored s values (.reparse id template) (.template u)
  | sink {id : Text} : Stored s values (.sink id) (.sink [])
  | write {id text content : Text} : Stored s values (.write id text) (.sink content)
  | expandTo {id template content : Text} {args : CallValues} : Stored s values (.expandTo id template args) (.sink content)
  | expander {id : Text} {source : Source} : Stored s values (.expander id source) (.expander source)
  | value {id : Text} {source : Source} {ref : Ref} (h : values[ref]? = some source) :
    Stored s values (.value id source) (.value ref)
  | bind {id template : Text} {entries : List (Text × Value)} {t : Template} {refs : List (Text × Ref)} {b : Binding Ref}
    (ht : s.view? template = some (.template t))
    (hrefs : refs.map (fun e => (e.1, values[e.2]?)) = entries.map fun e => (e.1, some (.value e.2)))
    (h : Binding.ofValues t refs = .ok b) : Stored s values (.bind id template entries) (.binding b)
  | copy {id binding : Text} {b : Binding Ref} (h : s.view? binding = some (.binding b)) :
    Stored s values (.copy id binding) (.binding b)
  | set {id name : Text} {o : Operand} {b b' : Binding Ref} {ref : Ref} (hb : s.view? id = some (.binding b))
    (ho : o.At s values ref) (h : b.set name ref = .ok b') : Stored s values (.set id name o) (.binding b')
  | clear {id : Text} {b : Binding Ref} (h : s.view? id = some (.binding b)) :
    Stored s values (.clear id) (.binding b.clear)

theorem Binding.template_of_set {b b' : Binding Ref} {name : Text} {ref : Ref} (h : b.set name ref = .ok b') :
    b'.template = b.template := by
  unfold Binding.set at h
  split at h
  · rw [← Except.ok.inj h]
  · cases h

/-- **What a regular step does** if it succeeds and stores something. -/
theorem effect_ok {x : Step} {r : Reply} (hs : s.Separated) (hx : x.Regular) (hid : x.target? = some id)
    (h : effect x s = (.ok r, s')) : s.values <+: s'.values ∧ ∃ v, Stored s s'.values x v ∧ Puts s s' id v := by
  cases x with
  | template id source =>
    obtain rfl := Option.some.inj hid
    obtain ⟨t, s₁, hparse, h⟩ := bind_eq_ok h
    obtain ⟨ht, rfl⟩ := parse_eq_ok hparse
    rw [store_eq_ok h]
    exact ⟨List.prefix_rfl, _, .template ht, .store hs (o := .template t) (by rintro _ _ ⟨⟩) rfl rfl⟩
  | sink id =>
    obtain rfl := Option.some.inj hid
    rw [store_eq_ok h]
    exact ⟨List.prefix_rfl, _, .sink, .store hs (o := .sink []) (by rintro _ _ ⟨⟩) rfl rfl⟩
  | write id text =>
    obtain rfl := Option.some.inj hid
    obtain ⟨content, s₁, hget, h⟩ := bind_eq_ok h
    obtain ⟨-, rfl⟩ := getSink_eq_ok_iff.1 hget
    rw [store_eq_ok h]
    exact ⟨List.prefix_rfl, _, .write, .store hs (o := .sink (content ++ text)) (by rintro _ _ ⟨⟩) rfl rfl⟩
  | expandTo sink template values =>
    obtain rfl := Option.some.inj hid
    obtain ⟨⟨⟩, s₁, hexpand, h⟩ := bind_eq_ok h
    obtain ⟨-, rfl⟩ := pure_eq_ok h
    rcases expandTo_run sink template values s with
      ⟨e, s₂, herror, -⟩ | ⟨r, s₂, -, content, hrun, hvalues, -, hobjects, htables⟩
    · cases hexpand.symm.trans herror
    · cases hexpand.symm.trans hrun
      exact ⟨hvalues, _, .expandTo, .store hs (o := .sink content) (by rintro _ _ ⟨⟩) hobjects htables⟩
  | value id source =>
    obtain rfl := Option.some.inj hid
    obtain ⟨ref, s₁, hshare, h⟩ := bind_eq_ok h
    cases hshare
    rw [store_eq_ok h]
    refine ⟨List.prefix_append _ _, _, .value List.getElem?_concat_length, ?_⟩
    exact .store hs (o := .value s.values.length) (by rintro _ _ ⟨⟩) rfl rfl
  | reparse id template =>
    obtain rfl := Option.some.inj hid
    obtain ⟨t, s₁, hget, h⟩ := bind_eq_ok h
    obtain ⟨ht, rfl⟩ := getTemplate_eq_ok_iff.1 hget
    obtain ⟨u, s₁, hparse, h⟩ := bind_eq_ok h
    obtain ⟨hu, rfl⟩ := parse_eq_ok hparse
    rw [store_eq_ok h]
    exact ⟨List.prefix_rfl, _, .reparse ht hu, .store hs (o := .template u) (by rintro _ _ ⟨⟩) rfl rfl⟩
  | bind id template entries =>
    obtain rfl := Option.some.inj hid
    obtain ⟨t, s₁, hget, h⟩ := bind_eq_ok h
    obtain ⟨ht, rfl⟩ := getTemplate_eq_ok_iff.1 hget
    obtain ⟨refs, s₁, hshare, h⟩ := bind_eq_ok h
    obtain ⟨hext, hrefs⟩ := shareAll_eq_ok hshare
    obtain ⟨b, s₂, hlift, h⟩ := bind_eq_ok h
    obtain ⟨hb, rfl⟩ := liftExcept_eq_ok_iff.1 hlift
    rw [allocate_eq_ok h]
    refine ⟨hext.values, _, .bind ht hrefs hb, .allocate hs ?_ ?_⟩
    · rw [hext.objects, hext.tables]
    · rw [hext.tables]
  | copy id binding =>
    obtain rfl := Option.some.inj hid
    obtain ⟨b, s₁, hget, h⟩ := bind_eq_ok h
    obtain ⟨hb, rfl⟩ := getBinding_eq_ok_iff.1 hget
    rw [allocate_eq_ok h]
    exact ⟨List.prefix_rfl, _, .copy hb, .allocate hs rfl rfl⟩
  | expander id source =>
    obtain rfl := Option.some.inj hid
    obtain ⟨_, s₁, hlift, h⟩ := bind_eq_ok h
    obtain ⟨-, rfl⟩ := liftExcept_eq_ok_iff.1 hlift
    rw [store_eq_ok h]
    exact ⟨List.prefix_rfl, _, .expander, .store hs (o := .expander source) (by rintro _ _ ⟨⟩) rfl rfl⟩
  | set id name o =>
    obtain rfl := Option.some.inj hid
    obtain ⟨⟨place, b⟩, s₁, hlocate, h⟩ := bind_eq_ok h
    obtain ⟨hplace, hvalues, rfl⟩ := locate_eq_ok hlocate
    obtain ⟨ref, s₁, hoperand, h⟩ := bind_eq_ok h
    obtain ⟨hext, href⟩ := operand_eq_ok hoperand
    obtain ⟨b', s₂, hlift, h⟩ := bind_eq_ok h
    obtain ⟨hset, rfl⟩ := liftExcept_eq_ok_iff.1 hlift
    rw [replaceTable_eq_ok h]
    refine ⟨hext.values, _, .set (view?_eq_binding_iff.2 ⟨place, hplace, hvalues⟩) href hset, ?_⟩
    rw [← Binding.template_of_set hset] at hplace
    exact .replace hs hplace hext.objects (by rw [hext.tables])
  | clear id =>
    obtain rfl := Option.some.inj hid
    obtain ⟨⟨place, b⟩, s₁, hlocate, h⟩ := bind_eq_ok h
    obtain ⟨hplace, hvalues, rfl⟩ := locate_eq_ok hlocate
    rw [replaceTable_eq_ok h]
    exact ⟨List.prefix_rfl, _, .clear (view?_eq_binding_iff.2 ⟨place, hplace, hvalues⟩), .replace hs hplace rfl rfl⟩
  | bound id template entries => exact hx.elim
  | _ => cases hid

/-- **Other names** stand for what they stood for. -/
theorem effect_other {x : Step} {r : Reply} (hs : s.Separated) (hx : x.Regular) (hid : x.target? ≠ some id)
    (h : effect x s = (.ok r, s')) : s.values <+: s'.values ∧ s'.Separated ∧ s'.view? id = s.view? id := by
  cases htarget : x.target? with
  | none =>
    have hext := quiet_effect hx htarget s
    rw [h] at hext
    exact ⟨hext.values, hext.separated hs, hext.view id⟩
  | some target =>
    obtain ⟨hvalues, v, -, hputs⟩ := effect_ok hs hx htarget h
    have hne : id ≠ target := fun heq => hid (heq ▸ htarget)
    exact ⟨hvalues, hputs.separated, by rw [hputs.view, if_neg hne]⟩

end

end Session

end UriTemplate
