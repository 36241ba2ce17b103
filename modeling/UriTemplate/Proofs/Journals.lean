import UriTemplate.Catalog.Load
import UriTemplate.Proofs.Actions

/-!
# What journals are kept of

* `Journal.ofExcept_run`, `Journal.parse_run` — runs of single steps; `Journal.bind_ofExcept_ok`,
  `Journal.bind_ofExcept_error`, `Journal.bind_log` — what comes after a step;
* `Journal.Appends` — what a computation gives does not depend on the journal that there is, and what it notes comes
  behind that;
* `Catalog.sectionEntries?`, `Catalog.ofEntries_eq` — building a catalog, step by step;
* `Catalog.load_appends` — loading a catalog only adds to the journal.
-/

namespace UriTemplate

namespace Journal

variable {α β : Type}

theorem ofExcept_run (x : Except Fault α) (j : List JournalEntry) : ofExcept x j = (x, j) := by
  cases x <;> rfl

section

variable {x : Except Fault α} {f : α → Journal β} {j : List JournalEntry}

theorem bind_ofExcept_ok {a : α} (h : x = .ok a) : (ofExcept x >>= f) j = f a j := by
  rw [h]
  exact bind_of_ok (ofExcept_run _ j)

theorem bind_ofExcept_error {e : Fault} (h : x = .error e) : (ofExcept x >>= f) j = (.error e, j) := by
  rw [h]
  exact bind_of_error (ofExcept_run _ j)

theorem bind_log {f : Unit → Journal β} (e : JournalEntry) : (log e >>= f) j = f () (j ++ [e]) := rfl

end

/-- What is noted of a text that is to be read as a template. -/
def parseEntries (source : Text) : List JournalEntry :=
  match Template.parse source with
  | .ok t => [.parsed source t.elements.length]
  | .error _ => []

theorem parse_run (source : Text) (j : List JournalEntry) :
    (liftM (Journal.parse source).run : Journal (Except ParseFailure Template)) j =
      (.ok (Template.parse source), j ++ parseEntries source) := by
  show (match Journal.parse source j with | (r, j') => (Except.ok r, j')) = _
  unfold Journal.parse parseEntries
  cases Template.parse source with
  | ok t => rfl
  | error e => rw [List.append_nil]

/-! ## adding to the journal -/

/-- The result does not depend on the journal that there is, and what is noted comes behind that. -/
def Appends (m : Journal α) : Prop := ∀ j, m j = ((m []).1, j ++ (m []).2)

namespace Appends

theorem pure (a : α) : Appends (Pure.pure a) := by
  intro j
  show (Except.ok a, j) = (Except.ok a, j ++ [])
  rw [List.append_nil]

theorem ofExcept (x : Except Fault α) : Appends (ofExcept x) := by
  intro j
  rw [ofExcept_run, ofExcept_run, List.append_nil]

theorem throw (e : Fault) : Appends (MonadExcept.throw e : Journal α) := ofExcept (.error e)

theorem log (e : JournalEntry) : Appends (log e) := fun _ => rfl

theorem parse (source : Text) : Appends (liftM (Journal.parse source).run : Journal (Except ParseFailure Template)) := by
  intro j
  rw [parse_run, parse_run, List.nil_append]

theorem bind {m : Journal α} {f : α → Journal β} (hm : Appends m) (hf : ∀ a, Appends (f a)) : Appends (m >>= f) := by
  intro j
  have hj := hm j
  cases hnil : m [] with
  | mk r entries =>
    rw [hnil] at hj
    cases r with
    | error e => rw [bind_of_error hnil, bind_of_error hj]
    | ok a => rw [bind_of_ok hnil, bind_of_ok hj, hf a (j ++ entries), hf a entries, List.append_assoc]

end Appends

end Journal

/-! ## catalogs -/

namespace Catalog

open Journal (Appends)

theorem noteUnknownKeys_appends (place : Text) (entries : List (Value × Value)) :
    Appends (noteUnknownKeys place entries) := by
  unfold noteUnknownKeys
  split
  · exact .pure _
  · exact (Appends.ofExcept _).bind fun _ => .log _

theorem addTemplate_appends (place : Text) (templates : Table Text Template) (key source : Value) :
    Appends (addTemplate place templates key source) := by
  unfold addTemplate
  split
  · refine (Appends.parse _).bind fun result => ?_
    split
    · exact (Appends.ofExcept _).bind fun _ => .pure _
    · exact (Appends.ofExcept _).bind fun _ => .throw _
    · exact .throw _
  · exact (Appends.ofExcept _).bind fun _ => .throw _

theorem addTemplates_appends (place : Text) (templates : Table Text Template) (entries : List (Value × Value)) :
    Appends (addTemplates place templates entries) := by
  induction entries generalizing templates with
  | nil => exact .pure _
  | cons e entries ih => exact (addTemplate_appends place templates e.1 e.2).bind ih

/-- The entries of a section.  A section that is missing or null has none; what is no mapping is no section. -/
def sectionEntries? (entries : List (Value × Value)) (key : String) : Option (List (Value × Value)) :=
  match section? entries key with
  | none => some []
  | some (.mapping es) => some es
  | some _ => none

/-- What the entries of the sections make. -/
def build (place : Text) (path : Option Text) (templates defaults : List (Value × Value)) : Journal Catalog := do
  let templates ← addTemplates place [] templates
  let names ← Journal.ofExcept (defaults.mapM fun e => e.1.keyText)
  return { templates, defaults := Table.ofList (names.zip (defaults.map (·.2))), path }

/-- **The steps of building a catalog.** -/
theorem ofEntries_eq (entries : List (Value × Value)) (path : Option Text) :
    ofEntries entries path = (do
      noteUnknownKeys (path.getD "<catalog>") entries
      match sectionEntries? entries "templates", sectionEntries? entries "variables" with
      | none, _ => throw (.catalog (.templatesNotMapping (path.getD "<catalog>")))
      | some _, none => throw (.catalog (.variablesNotMapping (path.getD "<catalog>")))
      | some templates, some defaults => build (path.getD "<catalog>") path templates defaults) := by
  unfold ofEntries sectionEntries?
  refine congrArg (noteUnknownKeys (path.getD "<catalog>") entries >>= ·) (funext fun _ => ?_)
  cases section? entries "templates" with
  | none =>
    cases section? entries "variables" with
    | none => rfl
    | some vs => cases vs <;> rfl
  | some ts =>
    cases ts with
    | mapping ts =>
      cases section? entries "variables" with
      | none => rfl
      | some vs => cases vs <;> rfl
    | null => rfl
    | scalar s => rfl
    | sequence kind items => rfl

theorem ofEntries_appends (entries : List (Value × Value)) (path : Option Text) : Appends (ofEntries entries path) := by
  rw [ofEntries_eq]
  refine (noteUnknownKeys_appends _ entries).bind fun _ => ?_
  split
  · exact .throw _
  · exact .throw _
  · exact (addTemplates_appends _ _ _).bind fun _ => (Appends.ofExcept _).bind fun _ => .pure _

/-- **Loading a catalog only adds to the journal.** -/
theorem load_appends (reader : DocumentReader) (fs : FileSystem) (path : Path) : Appends (load reader fs path) := by
  unfold load
  split
  · refine (Appends.ofExcept _).bind fun entries => (ofEntries_appends entries _).bind fun c => ?_
    exact (Appends.log _).bind fun _ => .pure _
  · exact .throw _
  · exact .throw _
  · exact .throw _
  · exact .throw _

end Catalog

end UriTemplate
