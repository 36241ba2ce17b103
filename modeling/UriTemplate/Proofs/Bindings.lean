import UriTemplate.Proofs.History

/-!
# Bindings are independent maps

A binding is a map of its own from names to values, although it shares its values with others.

* `BindingRecorded.step_get`, `BindingRecorded.step_textOf` — a binding reads as its history says, and expands to that;
* `step_set`, `step_bind` — when an assignment fails, and when a binding cannot be made;
* `binding_after` — what is done to others leaves a binding as it is;
* `bindings_refine_maps` — the whole of it, after any regular steps.
-/

namespace UriTemplate

namespace Session

section

variable {past : History} {s : Session} {id : Text} {b : Binding Ref}

/-- The value at a place. -/
def valueAt (s : Session) (ref : Ref) : Value := (s.values.getD ref (.value .null)).asValue

/-- What the history says is at the place that is stored for the name. -/
theorem BindingRecorded.valueOf (h : BindingRecorded past s.values id b) (name : Text) :
    past.valueOf id name = ((b.values.get? name).map s.valueAt).getD .null := by
  have hname := h.assigned name
  unfold History.valueOf
  cases hget : b.values.get? name with
  | none =>
    rw [hget] at hname
    rw [Option.map_eq_none_iff.1 hname.symm]
    rfl
  | some ref =>
    rw [hget] at hname
    obtain ⟨source, hassigned, hsource⟩ := Option.map_eq_some_iff.1 hname.symm
    have hplace : s.values[ref]? = some source := hsource.symm
    rw [hassigned, Option.map_some, Option.map_some, valueAt, List.getD_eq_getElem?_getD, hplace]
    rfl

/-- **Reading** gives the value last assigned. -/
theorem BindingRecorded.step_get (h : BindingRecorded past s.values id b) (hb : s.view? id = some (.binding b))
    (name : Text) :
    s.step (.get id name) =
      (if b.template.mentions name = true then .ok (.value (past.valueOf id name)) else .error (.unknownVariable name), s) := by
  refine (bind_of_ok (getBinding_eq_ok_iff.2 ⟨hb, rfl⟩)).trans ?_
  unfold Binding.get Binding.declares
  split
  · refine (bind_of_ok rfl).trans ?_
    rw [h.valueOf name]
    cases b.values.get? name <;> rfl
  · rfl

/-- **An expansion** is that of the template with the values last assigned. -/
theorem BindingRecorded.expand_eq (h : BindingRecorded past s.values id b) :
    (b.map s.valueAt).expand = b.template.expand [.function fun name => return past.valueOf id name] [] := by
  unfold Binding.expand Binding.map
  refine Template.expand_congr ?_ b.template
  have hentries : Resolver.ofEntries ((b.values.map fun e => (e.1, s.valueAt e.2)).map fun e => (.text e.1, e.2)) =
      fun name => return past.valueOf id name := by
    rw [Resolver.ofEntries_text]
    funext name
    rw [h.valueOf name, ← Table.get?_map]
    rfl
  exact congrArg Except.ok hentries

theorem map_perform_run (f : Text → Reply) (a : Act Text) (s : Session) :
    ((f <$> perform a) s).1 = (a s.world).1.map f := by
  rw [map_eq_pure_bind]
  cases ha : a s.world with
  | mk r w =>
    have hrun : perform a s = (r, { s with world := w }) := by
      unfold perform
      rw [ha]
    cases r with
    | error e => rw [bind_of_error hrun]; rfl
    | ok text => rw [bind_of_ok hrun]; rfl

theorem exists_place (hb : s.view? id = some (.binding b)) :
    ∃ place, s.objects.get? id = some (.binding b.template place) ∧ bindingAt b.template place s = (.ok b, s) := by
  obtain ⟨place, hget, hvalues⟩ := view?_eq_binding_iff.1 hb
  refine ⟨place, hget, ?_⟩
  show (Except.ok (Binding.mk b.template (s.tables.getD place [])), s) = _
  rw [hvalues]

theorem textOf_of_view? (hb : s.view? id = some (.binding b)) :
    textOf id s = perform (b.map s.valueAt).expand s := by
  obtain ⟨place, hget, hat⟩ := exists_place hb
  exact (bind_of_ok (object_of_get? hget)).trans (bind_of_ok hat)

theorem BindingRecorded.step_textOf (h : BindingRecorded past s.values id b) (hb : s.view? id = some (.binding b)) :
    s.step (.textOf id) =
      (Reply.text <$> perform (b.template.expand [.function fun name => return past.valueOf id name] [])) s := by
  have hrun := textOf_of_view? hb
  rw [h.expand_eq] at hrun
  rw [map_eq_pure_bind]
  exact bind_run_congr hrun

theorem step_expand (hb : s.view? id = some (.binding b)) (values : CallValues) :
    s.step (.expand id values) = s.step (.textOf id) := by
  obtain ⟨place, hget, hat⟩ := exists_place hb
  have hexpand : expand id values s = perform (b.map s.valueAt).expand s :=
    (bind_of_ok (object_of_get? hget)).trans (bind_of_ok hat)
  exact bind_run_congr (hexpand.trans (textOf_of_view? hb).symm)

theorem step_contains (hb : s.view? id = some (.binding b)) (name : Text) :
    s.step (.contains id (.text name)) = (.ok (.bool (b.template.mentions name)), s) := by
  obtain ⟨place, hget, -⟩ := view?_eq_binding_iff.1 hb
  have hcontains : contains id (.text name) s = (.ok (b.template.mentions name), s) := bind_of_ok (object_of_get? hget)
  exact bind_of_ok hcontains

/-- The operand is a value, or the name of one. -/
def Operand.Usable (s : Session) : Operand → Prop
  | .given _ => True
  | .held id => ∃ ref, s.view? id = some (.value ref)

theorem Operand.Usable.exists_run {o : Operand} (h : o.Usable s) : ∃ ref s', operand o s = (.ok ref, s') := by
  cases o with
  | given source => exact ⟨_, _, rfl⟩
  | held id =>
    obtain ⟨ref, href⟩ := h
    exact ⟨ref, s, getRef_eq_ok_iff.2 ⟨href, rfl⟩⟩

/-- **An assignment** fails exactly if the name is not declared. -/
theorem step_set (hb : s.view? id = some (.binding b)) (name : Text) {o : Operand} (ho : o.Usable s) :
    (s.step (.set id name o)).1 =
      if b.template.mentions name = true then .ok .nothing else .error (.unknownVariable name) := by
  obtain ⟨ref, s', href⟩ := ho.exists_run
  obtain ⟨place, hget, hvalues⟩ := view?_eq_binding_iff.1 hb
  have hlocate : locate id s = (.ok (place, b), s) := by
    rw [locate_of_get? hget, hvalues]
  have hrun : s.step (.set id name o) =
      (do let b' ← liftExcept (b.set name ref); replaceTable place b'.values; return .nothing : Run Reply) s' :=
    (bind_of_ok hlocate).trans (bind_of_ok href)
  rw [hrun]
  unfold Binding.set Binding.declares
  split <;> rfl

theorem exists_shareAll (entries : List (Text × Value)) (s : Session) :
    ∃ refs s', shareAll entries s = (.ok refs, s') := by
  unfold shareAll
  induction entries generalizing s with
  | nil => exact ⟨[], s, rfl⟩
  | cons e entries ih =>
    obtain ⟨refs, s', hrest⟩ := ih { s with values := s.values ++ [.value e.2] }
    refine ⟨(e.1, s.values.length) :: refs, s', ?_⟩
    rw [List.mapM_cons]
    exact (bind_of_ok rfl).trans (bind_of_ok hrest)

/-- **A binding** cannot be made if one of the names is not declared; the first one of them is reported. -/
theorem step_bind (hs : s.Separated) {template : Text} {t : Template} (ht : s.view? template = some (.template t)) (id : Text)
    (entries : Table Text Value) :
    match entries.keys.find? fun name => !t.mentions name with
    | some name => (s.step (.bind id template entries)).1 = .error (.unknownVariable name)
    | none => ∃ b s', s.step (.bind id template entries) = (.ok .nothing, s') ∧
        s'.view? id = some (.binding b) ∧ b.template = t := by
  obtain ⟨refs, s', hshare⟩ := exists_shareAll entries s
  have hrun : s.step (.bind id template entries) =
      (do let b ← liftExcept (Binding.ofValues t refs); store id (← allocate b); return .nothing : Run Reply) s' :=
    (bind_of_ok (getTemplate_eq_ok_iff.2 ⟨ht, rfl⟩)).trans (bind_of_ok hshare)
  obtain ⟨hext, hrefs⟩ := shareAll_eq_ok hshare
  have hkeys : Table.keys refs = entries.keys := by
    have hnames := congrArg (List.map Prod.fst) hrefs
    rwa [List.map_map, List.map_map] at hnames
  rw [hrun, Binding.ofValues_eq, hkeys]
  cases entries.keys.find? fun name => !t.mentions name with
  | some name => rfl
  | none =>
    refine ⟨⟨t, Table.ofList refs⟩, _, rfl, ?_, rfl⟩
    rw [(Puts.allocate (hext.separated hs) rfl rfl).view, if_pos rfl]

/-! ## steps on other objects -/

/-- Steps that fail, or store something under other names, leave a binding as it is. -/
theorem binding_after (hs : s.Separated) (hb : s.view? id = some (.binding b)) {steps : List Step} (hsteps : ∀ x ∈ steps, x.Regular)
    (hspares : (s.history steps).Spares id) : (s.after steps).view? id = some (.binding b) := by
  induction steps generalizing s with
  | nil => exact hb
  | cons x xs ih =>
    obtain ⟨hx, hxs⟩ := List.forall_mem_cons.1 hsteps
    rw [history_cons] at hspares
    obtain ⟨hrest, hfirst⟩ := List.forall_mem_append.1 hspares
    have hstep : (s.step x).2.Separated ∧ (s.step x).2.view? id = some (.binding b) := by
      cases hrun : s.step x with
      | mk r s' =>
        cases r with
        | error e =>
          obtain ⟨-, hseparated, hview⟩ := effect_error hs hrun
          exact ⟨hseparated, (hview id _ (by rintro _ ⟨⟩)).2 hb⟩
        | ok r =>
          rw [hrun] at hfirst
          rcases hfirst _ (List.mem_singleton_self _) with ⟨fault, ⟨⟩⟩ | hid
          obtain ⟨-, hseparated, hview⟩ := effect_other hs hx hid hrun
          exact ⟨hseparated, hview.trans hb⟩
    exact ih hstep.1 hstep.2 hxs hrest

end

/-- **Bindings are independent maps.**  After any steps that change no value in place, and make bindings by binding and
copying, a binding stands for the map that its history tells: the values assigned last, since it was made or cleared.  Only
declared names have values.  An assignment or a reading fails exactly if the name is not declared, and a binding cannot be
made exactly if one of its names is not; a step that fails changes no binding and makes none.  Reading gives the value
assigned last, or null, and the text of a binding is the expansion of its template with these values.  No two bindings have
one table, so steps that fail or store something under other names change neither what a binding reads nor what it expands
to. -/
theorem bindings_refine_maps {steps : List Step} (hsteps : ∀ x ∈ steps, x.Regular) :
    let s := after {} steps
    let past := history {} steps
    s.Separated ∧
    (∀ id b, s.view? id = some (.binding b) →
      past.template? id = some b.template ∧
      (∀ name ∈ b.values.keys, b.template.mentions name = true) ∧
      (∀ name o, o.Usable s → (s.step (.set id name o)).1 =
        if b.template.mentions name = true then .ok .nothing else .error (.unknownVariable name)) ∧
      (∀ name, s.step (.get id name) =
        (if b.template.mentions name = true then .ok (.value (past.valueOf id name)) else .error (.unknownVariable name), s)) ∧
      (∀ name, s.step (.contains id (.text name)) = (.ok (.bool (b.template.mentions name)), s)) ∧
      s.step (.textOf id) =
        (Reply.text <$> perform (b.template.expand [.function fun name => return past.valueOf id name] [])) s ∧
      (∀ values, s.step (.expand id values) = s.step (.textOf id)) ∧
      ∀ more, (∀ x ∈ more, x.Regular) → (s.history more).Spares id →
        (s.after more).view? id = some (.binding b) ∧
        (∀ name, ((s.after more).step (.get id name)).1 = (s.step (.get id name)).1) ∧
        ((∀ name, (past.valueOf id name).Rereadable) →
          ((s.after more).step (.textOf id)).1 = (s.step (.textOf id)).1)) ∧
    (∀ id template t (entries : Table Text Value), s.view? template = some (.template t) →
      match entries.keys.find? fun name => !t.mentions name with
      | some name => (s.step (.bind id template entries)).1 = .error (.unknownVariable name)
      | none => ∃ b s', s.step (.bind id template entries) = (.ok .nothing, s') ∧
          s'.view? id = some (.binding b) ∧ b.template = t) ∧
    (∀ x e, (s.step x).1 = .error e →
      ∀ id b, (s.step x).2.view? id = some (.binding b) ↔ s.view? id = some (.binding b)) := by
  intro s past
  have hrecorded : Recorded past s := recorded_after hsteps
  have hs := hrecorded.separated
  refine ⟨hs, fun id b hb => ?_, fun id template t entries ht => step_bind hs ht id entries, fun x e he id b => ?_⟩
  · have hbinding : BindingRecorded past s.values id b := hrecorded.view id _ hb
    refine ⟨hbinding.template, hbinding.declared, fun name o ho => step_set hb name ho, hbinding.step_get hb,
      step_contains hb, hbinding.step_textOf hb, step_expand hb, fun more hmore hspares => ?_⟩
    have hlater := binding_after hs hb hmore hspares
    have hbinding' : BindingRecorded (s.history more ++ past) (s.after more).values id b :=
      (hrecorded.after hmore).view id _ hlater
    have hvalues : History.valueOf (s.history more ++ past) id = past.valueOf id :=
      (History.AgreeAt.append past hspares).valueOf
    refine ⟨hlater, fun name => ?_, fun hr => ?_⟩
    · rw [hbinding'.step_get hlater, hbinding.step_get hb, hvalues]
    · -- the text does not depend on what the steps did to the world
      obtain ⟨result, hresult⟩ := Template.exists_result hbinding.parse hr
      have htext := hresult [.function fun name => return past.valueOf id name] [] _ rfl fun _ _ => rfl
      rw [hbinding'.step_textOf hlater, hbinding.step_textOf hb, hvalues, map_perform_run, map_perform_run, htext, htext]
  · have hrun : effect x s = (.error e, (s.step x).2) := Prod.ext he rfl
    exact (effect_error hs hrun).2.2 id _ (by rintro _ ⟨⟩)

/-- A copy is changed, and then asked for a name that is not declared. -/
theorem bindings_refine_maps_copy :
    let t : Template := ⟨"{x}", [.expression ⟨"{x}", 0, 3⟩ .simple [{ name := "x" }]]⟩
    let steps : List Step := [.template "t" "{x}", .bind "b" "t" [("x", .text "1")], .copy "c" "b",
      .set "c" "x" (.given (.value (.text "2"))), .set "c" "z" (.given (.value .null))]
    let s := after {} steps
    (∀ x ∈ steps, x.Regular) ∧
      s.objects.get? "b" = some (.binding t 0) ∧ s.view? "b" = some (.binding ⟨t, [("x", 0)]⟩) ∧
      s.objects.get? "c" = some (.binding t 1) ∧ s.view? "c" = some (.binding ⟨t, [("x", 1)]⟩) ∧
      s.step (.get "b" "x") = (.ok (.value (.text "1")), s) ∧ s.step (.get "c" "x") = (.ok (.value (.text "2")), s) ∧
      s.step (.get "c" "z") = (.error (.unknownVariable "z"), s) ∧ (s.step (.textOf "c")).1 = .ok (.text "2") := by
  intro t steps s
  have hsteps : ∀ x ∈ steps, x.Regular := by simp [steps, Step.Regular]
  have hb : s.view? "b" = some (.binding ⟨t, [("x", 0)]⟩) := rfl
  have hc : s.view? "c" = some (.binding ⟨t, [("x", 1)]⟩) := rfl
  obtain ⟨-, hbindings, -, -⟩ := bindings_refine_maps hsteps
  obtain ⟨-, -, -, hget, -⟩ := hbindings "b" _ hb
  obtain ⟨-, -, -, hget', -, htext, -⟩ := hbindings "c" _ hc
  have hone : (history {} steps).valueOf "b" "x" = .text "1" := rfl
  have htwo : (history {} steps).valueOf "c" "x" = .text "2" := rfl
  refine ⟨hsteps, rfl, hb, rfl, hc, ?_, ?_, hget' "z", ?_⟩
  · rw [← hone]
    exact hget "x"
  · rw [← htwo]
    exact hget' "x"
  · rw [htext]
    rfl

end Session

end UriTemplate
