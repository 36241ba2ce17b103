import UriTemplate.Proofs.CallForms
import UriTemplate.Proofs.Calls
import UriTemplate.Proofs.CommandLines
import UriTemplate.Proofs.Reports

/-!
# Layers of values

An expansion of a template of the catalog takes values from the options, and from the catalog for variables that no
option mentions.

* `Value.orAbsent`, `collectValue_orAbsent` — empty lists and mappings are as good as null;
* `ValueOptions.chosen`, `Catalog.expand_eq` — the value of a variable, and the expansion with these values;
* `Reordered` — command lines that give the same values for each option, in the same order;
* `layered_values` — what an expansion prints.
-/

namespace UriTemplate

/-! ## absent values -/

namespace Value

/-- Null in place of an empty list or an empty mapping. -/
def orAbsent : Value → Value
  | .list [] => .null
  | .mapping [] => .null
  | v => v

end Value

theorem Value.orAbsent_orAbsent (v : Value) : v.orAbsent.orAbsent = v.orAbsent := by
  cases v with
  | sequence kind vs => cases kind <;> cases vs <;> rfl
  | mapping es => cases es <;> rfl
  | null => rfl
  | scalar s => rfl

theorem Collect.yield_nil (label : Label) : Collect.yield label [] = pure () := if_pos rfl

theorem collectValue_orAbsent (op : Operator) (r : VariableReference) (v : Value) :
    collectValue op r v.orAbsent = collectValue op r v := by
  unfold Value.orAbsent
  split
  · funext y
    unfold collectValue
    cases r.explode with
    | true => rfl
    | false => exact (congrFun (Collect.yield_nil (op.labelOf r.name)) y).symm
  · funext y
    unfold collectValue
    cases r.explode with
    | true => rfl
    | false => exact (congrFun (Collect.yield_nil (op.labelOf r.name)) y).symm
  · rfl

/-- Only the values of the variables of a template make a difference, and it does not matter how a value is absent. -/
theorem Template.expand_eq_of_orAbsent {t : Template} {sources sources' : List Source} {value value' : Text → Value}
    (h : Resolver.ofSources sources [] = .ok fun name => return value name)
    (h' : Resolver.ofSources sources' [] = .ok fun name => return value' name)
    (hsame : ∀ name ∈ t.names, (value name).orAbsent = (value' name).orAbsent) :
    t.expand sources [] = t.expand sources' [] := by
  rw [Template.expand_of_resolver h, Template.expand_of_resolver h']
  refine expandElements_congr fun op r hr => ?_
  unfold collectReference
  funext y
  have hvalue : collectValue op r (value r.name) = collectValue op r (value' r.name) := by
    rw [← collectValue_orAbsent, hsame r.name (Template.name_mem_names hr), collectValue_orAbsent]
  exact congrFun hvalue y

/-! ## the layers -/

/-- The entries of a table give its values. -/
theorem Resolver.ofSources_entries (d : Table Text Value) :
    ofSources [.value (.mapping d.entries)] [] = .ok fun name => return d.valueOf name := by
  show Except.ok (ofEntries d.entries) = _
  rw [Table.entries, ofEntries_text]
  rfl

/-- The values of a call lie over the defaults. -/
theorem Table.valueOf_update {defaults values : Table Text Value} (hd : values.keys.Nodup) (name : Text) :
    (defaults.update values).valueOf name = ((values.get? name).or (defaults.get? name)).getD .null := by
  rw [valueOf, get?_update, get?_of_perm (List.reverse_perm values) hd]

namespace CommandLine

/-- **The value of a variable**: what the options give it, else the default value of the catalog, else none. -/
def ValueOptions.chosen (o : ValueOptions) (document defaults : Table Text Value) (name : Text) : Value :=
  ((o.mentioned? document name).or (defaults.get? name)).getD .null

namespace Invocation

/-- The expansion with values that have been read. -/
def expandWith (i : Invocation) (env : Environment) (argument : Text) (entries : List (Value × Value)) :
    Journal Text := do
  match catalogName? argument with
  | some name => expansion ((← i.catalog env).expand name entries)
  | none => expansion ((← parse argument).expand [.value (.mapping entries)] [])

section

variable {i : Invocation} {env : Environment} {argument : Text} {o : ValueOptions} {values : Table Text Value}
  (hcommand : i.command = .expand argument o) (hread : o.read env.files env.input = .ok values)

include hcommand hread

theorem output_of_read : ∃ j, i.output env [] = i.expandWith env argument values.entries j := by
  unfold output
  rw [hcommand]
  exact ⟨_, (Journal.bind_ofExcept_ok hread).trans (Journal.bind_log _)⟩

/-- The result of an expansion of a template of the catalog. -/
theorem output_of_named {name : Text} {c : Catalog} {t : Template} (hname : catalogName? argument = some name)
    (hcatalog : (i.catalog env []).1 = .ok c) (hget : c.get name = .ok t) :
    (i.output env []).1 = (t.expand [.value (.mapping (c.merged values.entries))] [] {}).1 := by
  obtain ⟨j, hrun⟩ := output_of_read hcommand hread
  have hload : i.catalog env j = (.ok c, j ++ (i.catalog env []).2) := by
    rw [← hcatalog]
    exact Catalog.load_appends env.reader env.files (i.catalogPath env) j
  rw [hrun, expandWith, hname]
  dsimp only
  rw [bind_of_ok hload, Catalog.expand, hget, expansion, Journal.ofExcept_run]

/-- The result of an expansion of a text. -/
theorem output_of_text {t : Template} (hname : catalogName? argument = none)
    (hparse : Template.parse argument = .ok t) :
    (i.output env []).1 = (t.expand [.value (.mapping values.entries)] [] {}).1 := by
  obtain ⟨j, hrun⟩ := output_of_read hcommand hread
  have hparsed : parse argument j = (.ok t, j ++ Journal.parseEntries argument) := by
    rw [parse_run, hparse]
    rfl
  rw [hrun, expandWith, hname]
  dsimp only
  rw [bind_of_ok hparsed, expansion, Journal.ofExcept_run]

end

end Invocation

/-- **The values of an expansion** of a template of the catalog are those of the layers. -/
theorem expand_merged {o : ValueOptions} {fs : FileSystem} {input : Bytes} {values : Table Text Value}
    (hread : o.read fs input = .ok values) (c : Catalog) (t : Template) :
    ∃ document, o.document fs input = .ok document ∧ (∀ name, values.get? name = o.mentioned? document name) ∧
      t.expand [.value (.mapping (c.merged values.entries))] [] =
        t.expand [.function fun name => return (o.chosen document c.defaults name).orAbsent] [] := by
  obtain ⟨document, hdocument, hd, hvalues⟩ := ValueOptions.read_get? hread
  refine ⟨document, hdocument, hvalues, ?_⟩
  have hmerged : c.merged values.entries = (c.defaults.update values).entries := Table.update_entries c.defaults values
  rw [hmerged]
  refine Template.expand_eq_of_orAbsent (Resolver.ofSources_entries _) rfl fun name _ => ?_
  rw [Table.valueOf_update hd, hvalues, Value.orAbsent_orAbsent]
  rfl

/-- Defaults that no option lets show through do not matter. -/
theorem expand_merged_of_mentioned {values : Table Text Value} (hd : values.keys.Nodup) {c : Catalog} {t : Template}
    (h : ∀ name ∈ t.names, name ∈ c.defaults.keys → (values.get? name).isSome) :
    t.expand [.value (.mapping values.entries)] [] = t.expand [.value (.mapping (c.merged values.entries))] [] := by
  have hmerged : c.merged values.entries = (c.defaults.update values).entries := Table.update_entries c.defaults values
  rw [hmerged]
  have hresolve := Resolver.ofSources_entries
  refine Template.expand_eq_of_orAbsent (hresolve values) (hresolve _) fun name hname => ?_
  rw [Table.valueOf_update hd, Table.valueOf]
  cases hvalue : values.get? name with
  | some v => rfl
  | none =>
    have hdefault : c.defaults.get? name = none := by
      refine Table.get?_eq_none fun hmem => ?_
      have hsome := h name hname hmem
      rw [hvalue] at hsome
      cases hsome
    rw [hdefault]
    rfl

open Invocation

/-- **Layers of values.**  The expansion of a template of the catalog is the one with the values of the layers: of all
that mention a variable, the last mapping on the command line, else the last list, else the last single value, else the
JSON file, else the catalog.  Null, an empty list and an empty mapping leave the variable out, and nothing shows
through.  The order of options of different kinds makes no difference.  The text of the template in place of its name
has the same result if the options mention all variables of the template that the catalog has a value for. -/
theorem layered_values {args : List Text} {env : Environment} {i : Invocation} {name : Text} {o : ValueOptions}
    (hargs : ofArguments args = .ok i) (hcommand : i.command = .expand (('@' : CodePoint) :: name) o) {c : Catalog}
    (hcatalog : (i.catalog env []).1 = .ok c) {t : Template} (hget : c.get name = .ok t) {values : Table Text Value}
    (hread : o.read env.files env.input = .ok values) :
    ∃ document, o.document env.files env.input = .ok document ∧
      let result := (t.expand [.function fun n => return (o.chosen document c.defaults n).orAbsent] [] {}).1
      (∃ entries, run args env = i.report env result entries ∧
        ∀ text bytes, result = .ok text → Utf8.encode (text ++ ("\n" : Text)) = .ok bytes →
          run args env = .finished 0 (text ++ ("\n" : Text)) (i.journalLines env entries).escaped) ∧
      (∀ args', Reordered args args' → run args' env = run args env) ∧
      ∀ args', ofArguments args' = .ok { i with command := .expand t.source o } → catalogName? t.source = none →
        (∀ n ∈ t.names, n ∈ c.defaults.keys → (o.mentioned? document n).isSome) →
        ∃ entries, run args' env = i.report env result entries := by
  have hrun : ∀ {args' i'}, ofArguments args' = .ok i' →
      run args' env = i'.report env (i'.output env []).1 (i'.output env []).2 := by
    intro args' i' hargs'
    rw [run, hargs']
    exact i'.outcome_eq env
  obtain ⟨document, hdocument, hvalues, hexpand⟩ := expand_merged hread c t
  have hreport : run args env = i.report env
      (t.expand [.function fun n => return (o.chosen document c.defaults n).orAbsent] [] {}).1 (i.output env []).2 := by
    rw [hrun hargs, output_of_named hcommand hread rfl hcatalog hget, hexpand]
  refine ⟨document, hdocument, ⟨(i.output env []).2, hreport, fun text bytes htext hencode => ?_⟩, ?_, ?_⟩
  · rw [hreport, htext, i.report_ok env hencode]
  · intro args' hreordered
    rw [run, run, hreordered.ofArguments_eq]
  · intro args' hargs' hname hmentioned
    obtain ⟨_, -, hd, -⟩ := ValueOptions.read_get? hread
    have hparse : Template.parse t.source = .ok t := Catalog.parse_of_load hcatalog hget
    have hsame := expand_merged_of_mentioned hd fun n hn hdefault => by
      rw [hvalues]
      exact hmentioned n hn hdefault
    refine ⟨(Invocation.output { i with command := .expand t.source o } env []).2, ?_⟩
    rw [hrun hargs', output_of_text rfl hread hname hparse, hsame, hexpand]
    rfl

/-- A document with one template, and default values. -/
def searchText : Text := "templates: \x7bs: '\x7b?q*,lang,z\x7d'\x7d\nvariables: \x7blang: en, z: 1\x7d\n"

/-- What the document stands for. -/
def searchDocument : Value := .mapping [
  (.text "templates", .mapping [(.text "s", .text "\x7b?q*,lang,z\x7d")]),
  (.text "variables", .mapping [(.text "lang", .text "en"), (.text "z", .int 1)])]

/-- A catalog of one template, and a JSON object on the standard input. -/
def searchEnvironment : Environment where
  files := .ofFiles (Path.ofText "/") [("c.yaml", searchText.utf8)] []
  reader t := if t = searchText then .ok searchDocument else .error (.rejected "no document")
  input := Text.utf8 "\x7b\"z\": null, \"lang\": \"fr\"\x7d"
  config := some "c.yaml"

def searchOptions : ValueOptions :=
  { defines := [some "lang=de", some "q=x"], lists := [some "q=a,b"], json := some "-" }

def searchInvocation : Invocation := { command := .expand "@s" searchOptions }

/-- The catalog of the example, its template, and the values of the options. -/
theorem search_found :
    ∃ c t values, (searchInvocation.catalog searchEnvironment []).1 = .ok c ∧ c.get "s" = .ok t ∧
      searchOptions.read searchEnvironment.files searchEnvironment.input = .ok values ∧
      t.source = "\x7b?q*,lang,z\x7d" := by
  have hcheck : ((searchInvocation.catalog searchEnvironment []).1.toOption.bind fun c =>
      (c.get "s").toOption.bind fun t =>
        (searchOptions.read searchEnvironment.files searchEnvironment.input).toOption.map fun _ => t.source) =
      some ("\x7b?q*,lang,z\x7d" : Text) := by
    decide +kernel
  cases hcatalog : (searchInvocation.catalog searchEnvironment []).1 with
  | error f => rw [hcatalog] at hcheck; cases hcheck
  | ok c =>
    cases hget : c.get "s" with
    | error f => rw [hcatalog, Except.toOption, Option.bind_some, hget] at hcheck; cases hcheck
    | ok t =>
      cases hread : searchOptions.read searchEnvironment.files searchEnvironment.input with
      | error f => rw [hcatalog, Except.toOption, Option.bind_some, hget, hread] at hcheck; cases hcheck
      | ok values =>
        rw [hcatalog, Except.toOption, Option.bind_some, hget, hread] at hcheck
        exact ⟨c, t, values, rfl, hget, rfl, Option.some.inj hcheck⟩

/-- The list of `q` counts more than the text, the text of `lang` more than those in the JSON object and in the catalog,
and the null of `z` hides what the catalog has. -/
theorem layered_values_search :
    let before : List Text := ["-D", "lang=de"]
    let behind : List Text := ["--list", "q=a,b", "-D", "q=x", "--json=-"]
    let behind' : List Text := ["--json=-", "-D", "lang=de", "--define=q=x", "-L", "q=a,b"]
    let named : Text := "@s"
    let source : Text := "\x7b?q*,lang,z\x7d"
    let outcome : Outcome := .finished 0 "?q=a&q=b&lang=de\n" []
    run ("expand" :: (before ++ named :: behind)) searchEnvironment = outcome ∧
      run ("expand" :: named :: behind') searchEnvironment = outcome ∧
      ∃ result entries entries', searchInvocation.report searchEnvironment result entries = outcome ∧
        run ("expand" :: (before ++ source :: behind)) searchEnvironment =
          searchInvocation.report searchEnvironment result entries' := by
  intro before behind behind' named source outcome
  have hbefore : List.Forall₂ Spelling [(.define, "lang=de")] [["-D", "lang=de"]] :=
    .cons (.apart (by decide) (by decide)) .nil
  have hjson : Spelling (.json, "-") [("--json" : Text) ++ ('=' : CodePoint) :: ("-" : Text)] := .joined (by decide)
  have hbehind : List.Forall₂ Spelling [(.list, "q=a,b"), (.define, "q=x"), (.json, "-")]
      [["--list", "q=a,b"], ["-D", "q=x"], ["--json=-"]] :=
    .cons (.apart (by decide) (by decide)) (.cons (.apart (by decide) (by decide)) (.cons hjson .nil))
  have hdefine : Spelling (.define, "q=x") [("--define" : Text) ++ ('=' : CodePoint) :: ("q=x" : Text)] :=
    .joined (by decide)
  have hbehind' : List.Forall₂ Spelling [(.json, "-"), (.define, "lang=de"), (.define, "q=x"), (.list, "q=a,b")]
      [["--json=-"], ["-D", "lang=de"], ["--define=q=x"], ["-L", "q=a,b"]] :=
    .cons hjson (.cons (.apart (by decide) (by decide)) (.cons hdefine (.cons (.apart (by decide) (by decide)) .nil)))
  have hnamed : named.head? ≠ some '-' := by decide
  have hsource : source.head? ≠ some '-' := by decide
  have hargs : ofArguments ("expand" :: (before ++ named :: behind)) = .ok searchInvocation :=
    ofArguments_spelled hbefore hbehind hnamed
  have hreordered : Reordered ("expand" :: (before ++ named :: behind)) ("expand" :: named :: behind') :=
    .of_spelled hbefore hbehind hnamed .nil hbehind' (by intro flag; cases flag <;> rfl)
  have hargs' : ofArguments ("expand" :: (before ++ source :: behind)) =
      .ok { searchInvocation with command := .expand source searchOptions } :=
    ofArguments_spelled hbefore hbehind hsource
  obtain ⟨c, t, values, hcatalog, hget, hread, ht⟩ := search_found
  have hcommand : searchInvocation.command = .expand (('@' : CodePoint) :: ("s" : Text)) searchOptions := rfl
  obtain ⟨document, hdocument, ⟨entries, hrun, -⟩, hsame, htext⟩ := layered_values hargs hcommand hcatalog hget hread
  have hrunNamed : run ("expand" :: (before ++ named :: behind)) searchEnvironment = outcome := by
    simp only [before, behind, named, outcome]
    decide +kernel
  have hmentioned : ∀ n ∈ t.names, (searchOptions.mentioned? document n).isSome := by
    have hparse : Template.parse source = .ok t :=
      (congrArg Template.parse ht).symm.trans (Catalog.parse_of_load hcatalog hget)
    have hnames : (Template.parse source).toOption.map (·.names) = some [("q" : Text), "lang", "z"] := by
      simp only [source]
      decide +kernel
    have hnull : ((searchOptions.document searchEnvironment.files searchEnvironment.input).toOption.map fun d =>
        (d.get? "z").isSome) = some true := by decide +kernel
    rw [hparse] at hnames
    rw [hdocument] at hnull
    have hall : t.names = [("q" : Text), "lang", "z"] := Option.some.inj hnames
    have hz : (searchOptions.mentioned? document "z").isSome := Option.some.inj hnull
    rw [hall]
    exact List.forall_mem_cons.2 ⟨rfl, List.forall_mem_cons.2 ⟨rfl, List.forall_mem_singleton.2 hz⟩⟩
  obtain ⟨entries', hrunSource⟩ := htext _ (by rw [ht]; exact hargs') (by rw [ht]; rfl) fun n hn _ => hmentioned n hn
  exact ⟨hrunNamed, (hsame _ hreordered).trans hrunNamed, _, entries, entries', hrun.symm.trans hrunNamed, hrunSource⟩

end CommandLine

end UriTemplate
