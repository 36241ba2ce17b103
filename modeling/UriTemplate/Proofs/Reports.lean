import UriTemplate.CommandLine.Run
import UriTemplate.Proofs.Failing
import UriTemplate.Proofs.Loading
import UriTemplate.Proofs.OptionValues

/-!
# Reports of runs

A run of the program comes to a text or to a fault.  The text is written out as a whole, and most faults become one line.

* `Invocation.report`, `Invocation.outcome_eq` — what a run leaves, from what it has come to;
* `Invocation.ReachesCatalog`, `Invocation.Crashes` — the runs that look for the catalog, and those that end without a
  report;
* `Invocation.output_failsOnly`, `Invocation.Crashes.output_eq` — there are no other ones;
* `run_outcome` — what every run leaves that has an invocation.
-/

namespace UriTemplate

open Catalog (LoadFault)

namespace CommandLine

namespace Invocation

variable (i : Invocation) (env : Environment)

/-! ## what a run leaves -/

/-- The lines of the journal that are shown. -/
def journalLines (entries : List JournalEntry) : Text :=
  (entries.filter fun e => i.verbose || env.debug.any (· ≠ []) || e.isWarning).flatMap (·.line)

/-- What a run leaves that has come to a text to write out, or to a fault. -/
def leave (result : Except Fault Text) (entries : List JournalEntry) : Outcome :=
  match result with
  | .ok text => .finished 0 text (i.journalLines env entries).escaped
  | .error f =>
    if f.isReported then .finished 2 [] (i.journalLines env entries ++ f.message.stripEnd ++ ("\n" : Text)).escaped
    else .failed f

/-- The text with a line feed behind it, as it is written out. -/
def writtenOut (text : Text) : Except Fault Text :=
  match Utf8.encode (text ++ ("\n" : Text)) with
  | .ok _ => .ok (text ++ ("\n" : Text))
  | .error r => .error (.unencodable r)

/-- What a run leaves that has come to this result. -/
def report (result : Except Fault Text) (entries : List JournalEntry) : Outcome :=
  i.leave env (result >>= writtenOut) entries

theorem outcome_eq : i.outcome env = i.report env (i.output env []).1 (i.output env []).2 := by
  have hleave : ∀ p : Except Fault Text × List JournalEntry,
      (i.output env >>= fun text =>
        match Utf8.encode (text ++ ("\n" : Text)) with
        | .ok _ => pure (text ++ ("\n" : Text))
        | .error r => throw (.unencodable r) : Journal Text) [] = p → i.outcome env = i.leave env p.1 p.2 := by
    rintro _ rfl
    rfl
  cases hout : i.output env [] with
  | mk result entries =>
    refine hleave (result >>= writtenOut, entries) ?_
    cases result with
    | error f => exact bind_of_error hout
    | ok text =>
      refine (bind_of_ok hout).trans ?_
      show _ = (writtenOut text, entries)
      unfold writtenOut
      cases Utf8.encode (text ++ ("\n" : Text)) <;> rfl

theorem leave_reported {f : Fault} (h : f.isReported = true) (entries : List JournalEntry) :
    i.leave env (.error f) entries =
      .finished 2 [] ((i.journalLines env entries).escaped ++ f.message.stripEnd.escaped ++ ("\n" : Text)) := by
  rw [leave, if_pos h, Text.escaped, List.flatMap_append, List.flatMap_append]
  rfl

theorem leave_eq_failed_iff {result : Except Fault Text} {entries : List JournalEntry} {f : Fault} :
    i.leave env result entries = .failed f ↔ result = .error f ∧ f.isReported = false := by
  cases result with
  | ok text => exact ⟨nofun, fun h => nomatch h.1⟩
  | error f' =>
    rw [leave]
    split
    · rename_i h
      refine ⟨nofun, ?_⟩
      rintro ⟨⟨⟩, h'⟩
      exact absurd h (by rw [h']; nofun)
    · rename_i h
      rw [Outcome.failed.injEq, Except.error.injEq]
      exact ⟨fun heq => ⟨heq, by rw [← heq]; simpa using h⟩, And.left⟩

theorem writtenOut_cases (text : Text) :
    (∃ bytes, Utf8.encode (text ++ ("\n" : Text)) = .ok bytes ∧ writtenOut text = .ok (text ++ ("\n" : Text))) ∨
      ∃ r, Utf8.encode (text ++ ("\n" : Text)) = .error r ∧ writtenOut text = .error (.unencodable r) := by
  unfold writtenOut
  cases Utf8.encode (text ++ ("\n" : Text)) with
  | ok bytes => exact .inl ⟨bytes, rfl, rfl⟩
  | error r => exact .inr ⟨r, rfl, rfl⟩

/-- A text that can be written out is the output. -/
theorem report_ok {text : Text} {bytes : Bytes} (h : Utf8.encode (text ++ ("\n" : Text)) = .ok bytes)
    (entries : List JournalEntry) :
    i.report env (.ok text) entries = .finished 0 (text ++ ("\n" : Text)) (i.journalLines env entries).escaped := by
  show i.leave env (writtenOut text) entries = _
  rw [writtenOut, h]
  rfl

/-! ## what a run may come to -/

/-- The run looks for the catalog.  An expansion does so when its values have been read. -/
inductive ReachesCatalog : Prop
  | list (command : i.command = .list)
  | parse {argument name : Text} (command : i.command = .parse argument) (named : catalogName? argument = some name)
  | names {argument name : Text} (command : i.command = .names argument) (named : catalogName? argument = some name)
  | expand {argument name : Text} {o : ValueOptions} {values : Table Text Value}
    (command : i.command = .expand argument o) (named : catalogName? argument = some name)
    (read : o.read env.files env.input = .ok values)

/-- **The runs that end without a report**: the JSON file is a directory or has a path that is too long, or the path of the
catalog is too long. -/
inductive Crashes : Fault → Prop
  | json {argument : Text} {o : ValueOptions} {f : Fault} (command : i.command = .expand argument o)
    (unreadable : o.Unreadable env.files f) : Crashes f
  | catalogPath (reached : i.ReachesCatalog env) (tooLong : env.files.entry? (i.catalogPath env) = some .tooLong) :
    Crashes (.pathTooLong (i.catalogPath env).render)

variable {i env}

theorem Crashes.not_isReported {f : Fault} (h : i.Crashes env f) : f.isReported = false := by
  cases h with
  | json command unreadable => exact unreadable.not_isReported
  | catalogPath => rfl

/-! ## there are no other faults without a report -/

/-- The faults that are reported, and those that a run may end with. -/
def Expected (i : Invocation) (env : Environment) (f : Fault) : Prop := f.isReported = true ∨ i.Crashes env f

theorem ofExcept_failsOnly {α : Type} {P : Fault → Prop} {x : Except Fault α} (h : ∀ f, x = .error f → P f) :
    FailsOnly P (Journal.ofExcept x) := by
  intro j f j' herror
  rw [Journal.ofExcept_run] at herror
  exact h f (Prod.mk.inj herror).1

theorem parse_run (source : Text) (j : List JournalEntry) :
    Invocation.parse source j =
      ((Template.parse source).mapError Fault.ofParseFailure, j ++ Journal.parseEntries source) := by
  rw [Invocation.parse, bind_of_ok (Journal.parse_run source j)]
  cases Template.parse source <;> rfl

theorem parse_failsOnly (source : Text) : FailsOnly (i.Expected env) (Invocation.parse source) := by
  intro j f j' herror
  rw [parse_run] at herror
  cases hparse : Template.parse source with
  | ok t =>
    rw [hparse] at herror
    cases herror
  | error e =>
    rw [hparse] at herror
    cases herror
    cases e <;> exact .inl rfl

theorem parse_of_run {source : Text} {t : Template} {j j' : List JournalEntry}
    (h : Invocation.parse source j = (.ok t, j')) : Template.parse source = .ok t := by
  rw [parse_run] at h
  cases hparse : Template.parse source with
  | ok u =>
    rw [hparse] at h
    cases h
    rfl
  | error e =>
    rw [hparse] at h
    cases h

/-- An expansion with data only comes to integers that are too long. -/
theorem expansion_failsOnly {source : Text} {t : Template} (hparse : Template.parse source = .ok t)
    {entries : List (Value × Value)} (hdata : ∀ e ∈ entries, e.2.IsData) :
    FailsOnly (i.Expected env) (expansion (t.expand [.value (.mapping entries)] [])) := by
  refine ofExcept_failsOnly fun f hf => ?_
  have hresolve : Resolver.ofSources [.value (.mapping entries)] [] = .ok (Resolver.ofEntries entries) := rfl
  have hanswers : ∀ name w v w', Resolver.ofEntries entries name w = (.ok v, w') → v.IsData := by
    rintro name w v w' ⟨⟩
    cases hfound : Table.get? entries (.text name) with
    | none => exact .null
    | some v =>
      obtain ⟨k, hmem⟩ := Table.exists_mem_of_get? hfound
      exact hdata _ hmem
  rw [Template.expand_error (fun _ _ _ _ h => by cases h) hanswers hparse hresolve hf]
  exact .inl rfl

section

variable (hblames : env.reader.BlamesValues) (hgives : env.reader.GivesData)

include hblames hgives

theorem catalog_failsOnly (hreach : i.ReachesCatalog env) : FailsOnly (i.Expected env) (i.catalog env) := by
  intro j f j' herror
  have hf : (Catalog.load env.reader env.files (i.catalogPath env) j).1 = .error f := congrArg Prod.fst herror
  rcases Catalog.load_cases env.reader env.files (i.catalogPath env) j with
    ⟨_, _, _, _, _, _, -, -, -, -, -, hok⟩ | ⟨e, he⟩ | ⟨f', hfault, hf'⟩ | ⟨r, hraises, hr⟩
  · cases hok.symm.trans hf
  · cases he.symm.trans hf
    exact .inl rfl
  · cases hf'.symm.trans hf
    cases hfault with
    | path tooLong => exact .inr (.catalogPath hreach tooLong)
    | bytes => exact .inl rfl
    | mapping file read cut built =>
      obtain ⟨hkeys, hvalues⟩ := Catalog.isData_of_readDocument hgives read
      obtain ⟨f', j', hrun, hcut⟩ := Catalog.ofEntries_of_cutShort _ [] cut
      rw [hrun] at built
      cases built
      rcases hcut.isLongNumeral hkeys hvalues with rfl | ⟨k, rfl⟩ <;> exact .inl rfl
  · -- the reader only blames values, and that is reported
    cases hr.symm.trans hf
    obtain ⟨content, text, -, -, hraised⟩ := hraises
    exact .inl (decide_eq_true (hblames text r hraised))

theorem template_failsOnly {argument : Text}
    (hreach : ∀ name, catalogName? argument = some name → i.ReachesCatalog env) :
    FailsOnly (i.Expected env) (i.template env argument) := by
  unfold template
  split
  · rename_i name hname
    refine (catalog_failsOnly hblames hgives (hreach name hname)).bind fun c => ofExcept_failsOnly fun f hf => ?_
    exact .inl (Catalog.isReported_of_get_error hf)
  · exact parse_failsOnly argument

theorem expand_failsOnly {argument : Text} {o : ValueOptions} (hcommand : i.command = .expand argument o) :
    FailsOnly (i.Expected env) (i.expand env argument o) := by
  unfold expand
  refine FailsOnly.bind_on_ok (ofExcept_failsOnly fun f hf => ?_) fun j values j' hvalues => ?_
  · exact (ValueOptions.read_error hf).imp id (.json hcommand)
  · have hread : o.read env.files env.input = .ok values := by
      rw [Journal.ofExcept_run] at hvalues
      exact (Prod.mk.inj hvalues).1
    have hentries : ∀ e ∈ values.map fun e => (Value.text e.1, e.2), e.2.IsData :=
      List.forall_mem_map.2 (ValueOptions.isData_of_read hread)
    have hlog : FailsOnly (i.Expected env) (Journal.log (.expanding argument (Text.sort values.keys))) := by
      intro j f j' h
      cases h
    refine hlog.bind fun _ => ?_
    dsimp only
    split
    · rename_i name hname
      refine FailsOnly.bind_on_ok (catalog_failsOnly hblames hgives (.expand hcommand hname hread)) fun j c j' hload => ?_
      unfold Catalog.expand
      split
      · rename_i t hget
        have hload := congrArg Prod.fst hload
        refine expansion_failsOnly (Catalog.parse_of_load hload hget) (Table.forall_mem_update hentries ?_)
        exact List.forall_mem_map.2 (Catalog.isData_of_load hgives hload)
      · rename_i f hget
        refine ofExcept_failsOnly fun f' hf => ?_
        cases hf
        exact .inl (Catalog.isReported_of_get_error hget)
    · exact FailsOnly.bind_on_ok (parse_failsOnly argument) fun j t j' hrun =>
        expansion_failsOnly (parse_of_run hrun) hentries

/-- **A run comes to a fault that is reported, or ends without a report.** -/
theorem output_failsOnly : FailsOnly (i.Expected env) (i.output env) := by
  unfold output
  split
  · exact expand_failsOnly hblames hgives ‹_›
  · exact (template_failsOnly hblames hgives fun name hname => .parse ‹_› hname).bind fun _ => .pure _
  · exact (template_failsOnly hblames hgives fun name hname => .names ‹_› hname).bind fun _ => .pure _
  · exact (catalog_failsOnly hblames hgives (.list ‹_›)).bind fun _ => .pure _

end

theorem template_of_catalog_error {f : Fault} (h : ∀ j, (i.catalog env j).1 = .error f) {argument name : Text}
    (hname : catalogName? argument = some name) (j : List JournalEntry) : (i.template env argument j).1 = .error f := by
  unfold template
  rw [hname]
  exact fst_bind_of_error (h j)

theorem ReachesCatalog.output_eq {f : Fault} (hreach : i.ReachesCatalog env)
    (h : ∀ j, (i.catalog env j).1 = .error f) : (i.output env []).1 = .error f := by
  unfold output
  cases hreach with
  | list command =>
    rw [command]
    exact fst_bind_of_error (h [])
  | parse command named =>
    rw [command]
    exact fst_bind_of_error (template_of_catalog_error h named [])
  | names command named =>
    rw [command]
    exact fst_bind_of_error (template_of_catalog_error h named [])
  | @expand argument name o values command named read =>
    rw [command]
    dsimp only
    rw [Invocation.expand, Journal.bind_ofExcept_ok read, Journal.bind_log, named]
    exact fst_bind_of_error (h _)

theorem Crashes.output_eq {f : Fault} (h : i.Crashes env f) : (i.output env []).1 = .error f := by
  have hcatalog : LoadFault env.reader env.files (i.catalogPath env) f → ∀ j, (i.catalog env j).1 = .error f :=
    fun hfault j => hfault.load_eq j
  cases h with
  | @json argument o f command unreadable =>
    have hvalues : (Journal.ofExcept (o.read env.files env.input) []).1 = .error f := by
      rw [Journal.ofExcept_run, unreadable.read_eq]
    unfold output
    rw [command]
    exact fst_bind_of_error hvalues
  | catalogPath reached tooLong => exact reached.output_eq (hcatalog (.path tooLong))

end Invocation

open Invocation

/-- **What a run leaves.**  Documents stand for data, and if the reader breaks off, it blames a text or a number.  If
arguments describe an invocation, the run ends without a report exactly for the faults of `Crashes`.  Otherwise it has
come to a text that can be written out, and this is the output, with a line feed behind it; or it has come to a fault, or
to a text that cannot be written out, and then there is no output, and what is reported stands in a line behind those of
the journal. -/
theorem run_outcome {args : List Text} {env : Environment} {i : Invocation} (hargs : ofArguments args = .ok i)
    (hblames : env.reader.BlamesValues) (hgives : env.reader.GivesData) :
    let result := (i.output env []).1
    let lines : Text := (i.journalLines env (i.output env []).2).escaped
    (∀ f, run args env = .failed f ↔ i.Crashes env f) ∧
    ((∀ f, ¬ i.Crashes env f) →
      (∃ text bytes, result = .ok text ∧ Utf8.encode (text ++ ("\n" : Text)) = .ok bytes ∧
        run args env = .finished 0 (text ++ ("\n" : Text)) lines) ∨
      ∃ f, f.isReported = true ∧
        (result = .error f ∨ ∃ text r, result = .ok text ∧ Utf8.encode (text ++ ("\n" : Text)) = .error r ∧
          f = .unencodable r) ∧
        run args env = .finished 2 [] (lines ++ f.message.stripEnd.escaped ++ ("\n" : Text))) := by
  intro result lines
  have hrun : run args env = i.report env result (i.output env []).2 := by
    rw [run, hargs]
    exact i.outcome_eq env
  have herror : ∀ {f}, result = .error f → f.isReported = true ∨ i.Crashes env f := fun h =>
    output_failsOnly hblames hgives [] _ _ (Prod.ext h rfl)
  rw [hrun]
  refine ⟨fun f => (i.leave_eq_failed_iff env).trans ⟨?_, ?_⟩, fun hnone => ?_⟩
  · -- a fault that is not reported does not come from writing the text out
    rintro ⟨hf, hunreported⟩
    rcases Except.bind_eq_error_iff.1 hf with hresult | ⟨text, -, hwritten⟩
    · exact (herror hresult).resolve_left (by rw [hunreported]; nofun)
    · rcases writtenOut_cases text with ⟨bytes, -, hok⟩ | ⟨r, -, hunencodable⟩
      · cases hok.symm.trans hwritten
      · cases hunencodable.symm.trans hwritten
        cases hunreported
  · intro hcrash
    exact ⟨Except.bind_eq_error_iff.2 (.inl hcrash.output_eq), hcrash.not_isReported⟩
  · unfold report
    cases hresult : result with
    | error f =>
      have hreported := (herror hresult).resolve_right (hnone f)
      exact .inr ⟨f, hreported, .inl rfl, i.leave_reported env hreported _⟩
    | ok text =>
      have hbind : (Except.ok text >>= writtenOut) = writtenOut text := rfl
      rw [hbind]
      rcases writtenOut_cases text with ⟨bytes, hencode, hok⟩ | ⟨r, hencode, hunencodable⟩
      · exact .inl ⟨text, bytes, rfl, hencode, by rw [hok]; rfl⟩
      · refine .inr ⟨.unencodable r, rfl, .inr ⟨text, r, rfl, hencode, rfl⟩, ?_⟩
        rw [hunencodable]
        exact i.leave_reported env rfl _

/-- A single value on the command line for a template of the catalog. -/
theorem run_outcome_define :
    let args : List Text := ["expand", "@s", "-D", "x=a b"]
    let text : Text := "templates: \x7bs: '\x7bx\x7d'\x7d"
    let document : Value := .mapping [(.text "templates", .mapping [(.text "s", .text "\x7bx\x7d")])]
    let reader : DocumentReader := fun t => if t = text then .ok document else .error (.rejected "no document")
    let env : Environment := { files := .ofFiles (Path.ofText "/") [("uri-templates.yaml", text.utf8)] [], reader }
    let i : Invocation := { command := .expand "@s" { defines := [some "x=a b"] } }
    ofArguments args = .ok i ∧ reader.BlamesValues ∧ reader.GivesData ∧ run args env = .finished 0 "a%20b\n" [] ∧
      ∀ f, ¬ i.Crashes env f := by
  intro args text document reader env i
  have hargs : ofArguments args = .ok i := rfl
  have hblames : reader.BlamesValues := by
    intro t r h
    by_cases ht : t = text <;> simp [reader, ht] at h
  have hdocument : document.IsData := by
    refine .mapping (List.forall_mem_singleton.2 (.text _)) (List.forall_mem_singleton.2 ?_)
    exact .mapping (List.forall_mem_singleton.2 (.text _)) (List.forall_mem_singleton.2 (.text _))
  have hgives : reader.GivesData := by
    intro t v h
    by_cases ht : t = text
    · simp only [reader, if_pos ht] at h
      cases h
      exact hdocument
    · simp only [reader, if_neg ht] at h
      cases h
  have hrun : run args env = .finished 0 "a%20b\n" [] := by
    simp only [args, env, reader]
    decide +kernel
  refine ⟨hargs, hblames, hgives, hrun, fun f hcrash => ?_⟩
  have hfailed := ((run_outcome hargs hblames hgives).1 f).2 hcrash
  rw [hrun] at hfailed
  cases hfailed

set_option maxRecDepth 4000 in
/-- Under a name of 256 letters there is no file, and looking for it is not reported. -/
theorem run_crashes_long_name :
    let args : List Text := ["expand", "{x}", "--json", List.replicate 256 'a']
    let env : Environment := { files := .ofFiles (Path.ofText "/") [] [], reader := fun _ => .ok .null }
    (∃ i, ofArguments args = .ok i) ∧ env.reader.BlamesValues ∧ env.reader.GivesData ∧
      ∃ path, run args env = .failed (.pathTooLong path) := by
  intro args env
  refine ⟨⟨_, rfl⟩, nofun, ?_, ⟨_, rfl⟩⟩
  rintro text v ⟨⟩
  exact .null

end CommandLine

end UriTemplate
