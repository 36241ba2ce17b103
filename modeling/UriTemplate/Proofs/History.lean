import UriTemplate.Proofs.CallForms
import UriTemplate.Proofs.Steps

/-!
# Bindings and their history

What a session holds can be told from the steps that there have been, as long as no value is changed in place: that values
are shared does not show.

* `Session.after`, `Session.history` — the session after some steps, and these steps with the replies to them;
* `History.template?`, `History.held?`, `History.assigned?` — what the history says of a name: the template, the value, and
  the value last assigned to a variable of a binding;
* `Recorded`, `Recorded.step`, `recorded_after` — what a session holds is what its history says.
-/

namespace UriTemplate

namespace Session

/-! ## histories -/

/-- The session after some steps. -/
def after (s : Session) : List Step → Session
  | [] => s
  | x :: xs => (s.step x).2.after xs

/-- Steps with the replies to them, the last step first. -/
abbrev History := List (Step × Except Fault Reply)

/-- The history of a session that has run some steps. -/
def history (s : Session) (steps : List Step) : History := (steps.zip (s.run steps)).reverse

theorem length_run (s : Session) (xs : List Step) : (s.run xs).length = xs.length := by
  induction xs generalizing s with
  | nil => rfl
  | cons x xs ih => exact congrArg (· + 1) (ih (s.step x).2)

theorem run_append (s : Session) (xs ys : List Step) : s.run (xs ++ ys) = s.run xs ++ (s.after xs).run ys := by
  induction xs generalizing s with
  | nil => rfl
  | cons x xs ih => exact congrArg ((s.step x).1 :: ·) (ih (s.step x).2)

theorem history_append (s : Session) (xs ys : List Step) :
    s.history (xs ++ ys) = (s.after xs).history ys ++ s.history xs := by
  unfold history
  rw [run_append, List.zip_append (s.length_run xs).symm, List.reverse_append]

theorem history_cons (s : Session) (x : Step) (xs : List Step) :
    s.history (x :: xs) = (s.step x).2.history xs ++ [(x, (s.step x).1)] :=
  history_append s [x] xs

namespace History

/-- The template that stands under a name, or that the binding which stands there is made of. -/
def template? : History → Text → Option Template
  | [], _ => none
  | (_, .error _) :: past, id => template? past id
  | (x, .ok _) :: past, id =>
    if x.target? = some id then
      match x with
      | .template _ source => (Template.parse source).toOption
      | .reparse _ template | .bind _ template _ => template? past template
      | .copy _ binding => template? past binding
      | .set _ _ _ | .clear _ => template? past id
      | _ => none
    else template? past id

/-- The value that is held under a name. -/
def held? : History → Text → Option Source
  | [], _ => none
  | (_, .error _) :: past, id => held? past id
  | (x, .ok _) :: past, id =>
    if x.target? = some id then
      match x with
      | .value _ source => some source
      | _ => none
    else held? past id

def operand? (past : History) : Operand → Option Source
  | .given source => some source
  | .held id => past.held? id

/-- The value last assigned to a variable of a binding since the binding was made or cleared.  A copy has the values that
the other binding had then. -/
def assigned? : History → Text → Text → Option Source
  | [], _, _ => none
  | (_, .error _) :: past, id, name => assigned? past id name
  | (x, .ok _) :: past, id, name =>
    if x.target? = some id then
      match x with
      | .bind _ _ entries => (Table.get? entries.reverse name).map .value
      | .copy _ binding => assigned? past binding name
      | .set _ changed o => if name = changed then operand? past o else assigned? past id name
      | _ => none
    else assigned? past id name

/-- The value of a variable of a binding, null if none is assigned. -/
def valueOf (past : History) (id name : Text) : Value := ((past.assigned? id name).map Source.asValue).getD .null

/-- Both histories say the same of a name. -/
structure AgreeAt (past past' : History) (id : Text) : Prop where
  template : past'.template? id = past.template? id
  held : past'.held? id = past.held? id
  assigned : past'.assigned? id = past.assigned? id

theorem AgreeAt.refl (past : History) (id : Text) : AgreeAt past past id := ⟨rfl, rfl, rfl⟩

theorem AgreeAt.trans {past past' past'' : History} {id : Text} (h : AgreeAt past past' id) (h' : AgreeAt past' past'' id) :
    AgreeAt past past'' id :=
  ⟨h'.template.trans h.template, h'.held.trans h.held, h'.assigned.trans h.assigned⟩

theorem AgreeAt.error (past : History) (x : Step) (e : Fault) (id : Text) : AgreeAt past ((x, .error e) :: past) id :=
  ⟨rfl, rfl, rfl⟩

/-- What is stored under other names makes no difference. -/
theorem AgreeAt.other (past : History) {x : Step} {id : Text} (h : x.target? ≠ some id) (r : Reply) :
    AgreeAt past ((x, .ok r) :: past) id :=
  ⟨if_neg h, if_neg h, funext fun _ => if_neg h⟩

/-- No step that succeeded has stored something under the name. -/
def Spares (past : History) (id : Text) : Prop := ∀ e ∈ past, (∃ fault, e.2 = .error fault) ∨ e.1.target? ≠ some id

theorem AgreeAt.append (past : History) {newer : History} {id : Text} (h : newer.Spares id) :
    AgreeAt past (newer ++ past) id := by
  induction newer with
  | nil => exact .refl past id
  | cons e newer ih =>
    obtain ⟨x, r⟩ := e
    obtain ⟨he, hnewer⟩ := List.forall_mem_cons.1 h
    refine (ih hnewer).trans ?_
    cases r with
    | error fault => exact .error _ x fault id
    | ok r =>
      rcases he with ⟨fault, ⟨⟩⟩ | hid
      exact .other _ hid r

theorem AgreeAt.valueOf {past past' : History} {id : Text} (h : AgreeAt past past' id) :
    past'.valueOf id = past.valueOf id := by
  funext name
  unfold History.valueOf
  rw [h.assigned]

end History

/-! ## what a session holds -/

/-- The binding is as the history says. -/
structure BindingRecorded (past : History) (values : List Source) (id : Text) (b : Binding Ref) : Prop where
  template : past.template? id = some b.template
  /-- The template is one that can be read. -/
  parse : Template.parse b.template.source = .ok b.template
  /-- The names with a value are declared. -/
  declared : ∀ name ∈ b.values.keys, b.declares name = true
  /-- The stored places are those of the assigned values. -/
  assigned : ∀ name, (b.values.get? name).map (values[·]?) = (past.assigned? id name).map some

/-- What the name stands for is as the history says. -/
def ViewRecorded (past : History) (values : List Source) (id : Text) : View → Prop
  | .template t => past.template? id = some t ∧ Template.parse t.source = .ok t
  | .value ref => ∃ source, past.held? id = some source ∧ values[ref]? = some source
  | .binding b => BindingRecorded past values id b
  | .sink _ | .expander _ => True

/-- The session holds what its history says, and no two bindings in it have one table. -/
structure Recorded (past : History) (s : Session) : Prop where
  separated : s.Separated
  view : ∀ id v, s.view? id = some v → ViewRecorded past s.values id v

theorem BindingRecorded.mono {past past' : History} {values values' : List Source} {id : Text} {b : Binding Ref}
    (h : BindingRecorded past values id b) (hpast : History.AgreeAt past past' id) (hvalues : values <+: values') :
    BindingRecorded past' values' id b where
  template := hpast.template.trans h.template
  parse := h.parse
  declared := h.declared
  assigned := by
    intro name
    have hname := h.assigned name
    rw [hpast.assigned, ← hname]
    cases hget : b.values.get? name with
    | none => rfl
    | some ref =>
      rw [hget] at hname
      obtain ⟨source, -, hsource⟩ := Option.map_eq_some_iff.1 hname.symm
      have hplace : values[ref]? = some source := hsource.symm
      exact congrArg some ((getElem?_eq_some_mono hvalues hplace).trans hplace.symm)

theorem ViewRecorded.mono {past past' : History} {values values' : List Source} {id : Text} {v : View}
    (h : ViewRecorded past values id v) (hpast : History.AgreeAt past past' id) (hvalues : values <+: values') :
    ViewRecorded past' values' id v := by
  cases v with
  | template t => exact ⟨hpast.template.trans h.1, h.2⟩
  | binding b => exact BindingRecorded.mono h hpast hvalues
  | sink content => trivial
  | value ref =>
    obtain ⟨source, hheld, hsource⟩ := h
    exact ⟨source, hpast.held.trans hheld, getElem?_eq_some_mono hvalues hsource⟩
  | expander source => trivial

/-- The value of an operand. -/
theorem Recorded.exists_source {past : History} {s : Session} (h : Recorded past s) {values : List Source}
    (hvalues : s.values <+: values) {o : Operand} {ref : Ref} (ho : o.At s values ref) :
    ∃ source, past.operand? o = some source ∧ values[ref]? = some source := by
  cases o with
  | given source => exact ⟨source, rfl, ho⟩
  | held id =>
    obtain ⟨source, hheld, hsource⟩ := h.view id _ ho
    exact ⟨source, hheld, getElem?_eq_some_mono hvalues hsource⟩

/-! ## what a step stores -/

section

variable {past : History} {s : Session} {values : List Source} {id : Text} {b : Binding Ref}

theorem BindingRecorded.bind {template : Text} {entries : List (Text × Value)} {t : Template} {refs : List (Text × Ref)}
    (ht : ViewRecorded past s.values template (.template t))
    (hrefs : refs.map (fun e => (e.1, values[e.2]?)) = entries.map fun e => (e.1, some (.value e.2)))
    (hb : Binding.ofValues t refs = .ok b) (r : Reply) :
    BindingRecorded ((.bind id template entries, .ok r) :: past) values id b := by
  obtain ⟨htemplate, hparse⟩ := ht
  rw [Binding.ofValues_eq] at hb
  split at hb
  · rename_i hdeclared
    obtain rfl := Except.ok.inj hb
    refine ⟨?_, hparse, fun name hname => ?_, fun name => ?_⟩
    · simpa [History.template?, Step.target?] using htemplate
    · rcases (Table.mem_keys_update [] refs name).1 hname with hname | hname
      · have hmentions := List.find?_eq_none.1 hdeclared name hname
        rwa [Bool.not_eq_true', Bool.not_eq_false] at hmentions
      · cases hname
    · -- of several values for one name the last one counts, in the table as in the history
      have hget : Table.get? (Table.ofList refs) name = Table.get? refs.reverse name := by
        rw [Table.ofList, Table.get?_update]
        exact Option.or_none
      have hassigned : History.assigned? ((.bind id template entries, .ok r) :: past) id name =
          (Table.get? entries.reverse name).map .value := by
        simp [History.assigned?, Step.target?]
      rw [hget, hassigned, ← Table.get?_map, List.map_reverse, hrefs, ← List.map_reverse,
        Table.get?_map fun v : Value => some (Source.value v), Option.map_map]
      rfl
  · cases hb

theorem BindingRecorded.copy {binding : Text} (h : BindingRecorded past values binding b) (r : Reply) :
    BindingRecorded ((.copy id binding, .ok r) :: past) values id b where
  template := by simpa [History.template?, Step.target?] using h.template
  parse := h.parse
  declared := h.declared
  assigned name := by simpa [History.assigned?, Step.target?] using h.assigned name

theorem BindingRecorded.set {b' : Binding Ref} {name : Text} {o : Operand} {ref : Ref} {source : Source}
    (h : BindingRecorded past values id b) (ho : past.operand? o = some source) (href : values[ref]? = some source)
    (hset : b.set name ref = .ok b') (r : Reply) : BindingRecorded ((.set id name o, .ok r) :: past) values id b' := by
  unfold Binding.set at hset
  split at hset
  · rename_i hname
    obtain rfl := Except.ok.inj hset
    refine ⟨?_, h.parse, fun other hother => ?_, fun other => ?_⟩
    · simpa [History.template?, Step.target?] using h.template
    · rcases (Table.mem_keys_put b.values name ref other).1 hother with rfl | hother
      · exact hname
      · exact h.declared other hother
    · have hassigned : History.assigned? ((.set id name o, .ok r) :: past) id other =
          if other = name then past.operand? o else past.assigned? id other := by
        simp [History.assigned?, Step.target?]
      rw [hassigned, Table.get?_put]
      split
      · rw [ho, Option.map_some, Option.map_some, href]
      · exact h.assigned other
  · cases hset

theorem BindingRecorded.clear (h : BindingRecorded past values id b) (r : Reply) :
    BindingRecorded ((.clear id, .ok r) :: past) values id b.clear where
  template := by
    have htemplate : past.template? id = some b.clear.template := h.template
    simpa [History.template?, Step.target?] using htemplate
  parse := h.parse
  declared name hname := by cases hname
  assigned name := by simp [History.assigned?, Step.target?, Binding.clear, Table.get?]

/-- What a step stores is what the history says then. -/
theorem Stored.recorded {x : Step} {v : View} (hstored : Stored s values x v) (h : Recorded past s)
    (hvalues : s.values <+: values) (hid : x.target? = some id) (r : Reply) :
    ViewRecorded ((x, .ok r) :: past) values id v := by
  cases hstored with
  | @template _ source t ht =>
    obtain rfl := Option.some.inj hid
    obtain ⟨hsource, -⟩ := (Template.parse_eq_ok_iff source t).1 ht
    refine ⟨?_, hsource ▸ ht⟩
    simp [History.template?, Step.target?, ht, Except.toOption]
  | @reparse _ template t u ht hu =>
    obtain rfl := Option.some.inj hid
    obtain ⟨htemplate, hparse⟩ := h.view template _ ht
    obtain rfl := Except.ok.inj (hparse.symm.trans hu)
    refine ⟨?_, hparse⟩
    simpa [History.template?, Step.target?] using htemplate
  | sink => trivial
  | write => trivial
  | expandTo => trivial
  | expander => trivial
  | @value _ source ref hsource =>
    obtain rfl := Option.some.inj hid
    exact ⟨source, by simp [History.held?, Step.target?], hsource⟩
  | @bind _ template entries t refs b ht hrefs hb =>
    obtain rfl := Option.some.inj hid
    exact .bind (h.view template _ ht) hrefs hb r
  | @copy _ binding b hb =>
    obtain rfl := Option.some.inj hid
    have hbinding : BindingRecorded past s.values binding b := h.view binding _ hb
    exact (hbinding.mono (.refl past binding) hvalues).copy r
  | @set _ name o b b' ref hb ho hset =>
    obtain rfl := Option.some.inj hid
    have hbinding : BindingRecorded past s.values _ b := h.view _ _ hb
    obtain ⟨source, hoperand, href⟩ := h.exists_source hvalues ho
    exact (hbinding.mono (.refl past _) hvalues).set hoperand href hset r
  | @clear _ b hb =>
    obtain rfl := Option.some.inj hid
    have hbinding : BindingRecorded past s.values _ b := h.view _ _ hb
    exact (hbinding.mono (.refl past _) hvalues).clear r

end

/-- **One step.**  The session holds what its history says after the step too. -/
theorem Recorded.step {past : History} {s s' : Session} {x : Step} {r : Except Fault Reply} (h : Recorded past s)
    (hx : x.Regular) (hrun : s.step x = (r, s')) : Recorded ((x, r) :: past) s' := by
  cases r with
  | error e =>
    obtain ⟨hvalues, hseparated, hview⟩ := effect_error h.separated hrun
    refine ⟨hseparated, fun id v hv => ?_⟩
    cases v with
    | sink content => trivial -- an expansion that fails may have written to it
    | _ => exact (h.view id _ ((hview id _ (by rintro _ ⟨⟩)).1 hv)).mono (.error past x e id) hvalues
  | ok r =>
    -- the table of a binding is changed in place, and that of no other binding is the same
    refine ⟨?_, fun id v hv => ?_⟩
    · cases htarget : x.target? with
      | none =>
        have hext : Extends s (s.step x).2 := quiet_effect hx htarget s
        rw [hrun] at hext
        exact hext.separated h.separated
      | some target =>
        obtain ⟨-, _, -, hputs⟩ := effect_ok h.separated hx htarget hrun
        exact hputs.separated
    · by_cases htarget : x.target? = some id
      · obtain ⟨hvalues, stored, hstored, hputs⟩ := effect_ok h.separated hx htarget hrun
        rw [hputs.view, if_pos rfl] at hv
        obtain rfl := Option.some.inj hv
        exact hstored.recorded h hvalues htarget r
      · obtain ⟨hvalues, -, hview⟩ := effect_other h.separated hx htarget hrun
        rw [hview] at hv
        exact (h.view id v hv).mono (.other past htarget r) hvalues

/-- **A whole run.** -/
theorem Recorded.after {past : History} {s : Session} (h : Recorded past s) {steps : List Step}
    (hsteps : ∀ x ∈ steps, x.Regular) : Recorded (s.history steps ++ past) (s.after steps) := by
  induction steps generalizing past s with
  | nil => exact h
  | cons x xs ih =>
    obtain ⟨hx, hxs⟩ := List.forall_mem_cons.1 hsteps
    rw [history_cons, List.append_assoc]
    exact ih (h.step hx rfl) hxs

theorem recorded_after {steps : List Step} (hsteps : ∀ x ∈ steps, x.Regular) :
    Recorded (history {} steps) (after {} steps) := by
  have hempty : Recorded [] {} := ⟨⟨nofun, nofun⟩, nofun⟩
  have h := hempty.after hsteps
  rwa [List.append_nil] at h

end Session

end UriTemplate
