import UriTemplate.Proofs.Data
import UriTemplate.Proofs.Entries

/-!
# Loading catalogs

A catalog file is decoded, read as a document and built, entry by entry.  Errors in the document, in the sections and in
the templates are faults of the catalog; other faults pass through.

* `Catalog.LoadFault` — the faults that are none of the catalog, each with the way to it;
* `Catalog.load_of_file`, `Catalog.readDocument_cases` — the steps of loading;
* `Catalog.load_cases` — what becomes of loading, with any reader;
* `Catalog.isData_of_load`, `Catalog.rereadable_of_load` — if documents stand for data, so do default values, which may
  be read again;
* `catalog_outcome` — with a reader that only rejects, there are no other faults than these.
-/

namespace UriTemplate

namespace Catalog

/-- **The faults of loading that are none of the catalog**: the path is too long, the bytes are no text, or the mapping of
the document is cut short. -/
inductive LoadFault (reader : DocumentReader) (fs : FileSystem) (path : Path) : Fault → Prop
  | path (tooLong : fs.entry? path = some .tooLong) : LoadFault reader fs path (.pathTooLong path.render)
  | bytes {content : Bytes} {e : Utf8.Fault} (file : fs.entry? path = some (.file content))
    (decoded : readText content = .error e) : LoadFault reader fs path (.undecodable e)
  | mapping {content : Bytes} {entries : List (Value × Value)} {f : Fault}
    (file : fs.entry? path = some (.file content)) (read : readDocument reader path.render content = .ok entries)
    (cut : CutShort entries) (built : (ofEntries entries (some path.render) []).1 = .error f) :
    LoadFault reader fs path f

/-- The reader breaks off at the text of the file. -/
def ReaderRaises (reader : DocumentReader) (fs : FileSystem) (path : Path) (r : Raised) : Prop :=
  ∃ content text, fs.entry? path = some (.file content) ∧ readText content = .ok text ∧ reader text = .error (.raised r)

section

variable {reader : DocumentReader} {fs : FileSystem} {path : Path} {content : Bytes}

theorem load_of_file (h : fs.entry? path = some (.file content)) :
    load reader fs path = (do
      let catalog ← ofEntries (← Journal.ofExcept (readDocument reader path.render content)) path.render
      Journal.log (.loaded catalog.templates.length path.render)
      return catalog) := by
  unfold load
  rw [h]

/-- A document that is no mapping is as good as an empty one or is reported. -/
theorem readDocument_of_value (place : Text) {text : Text} {v : Value} (hdecoded : readText content = .ok text)
    (hread : reader text = .ok v) :
    (∃ entries, readDocument reader place content = .ok entries) ∨
      ∃ error, readDocument reader place content = .error (.catalog error) := by
  have hother : ∀ {r : Except Fault (List (Value × Value))},
      (r = if isBlankDocument v then .ok [] else .error (.catalog (.notMapping place))) →
      (∃ entries, r = .ok entries) ∨ ∃ error, r = .error (.catalog error) := by
    rintro r rfl
    split
    · exact .inl ⟨[], rfl⟩
    · exact .inr ⟨_, rfl⟩
  unfold readDocument
  rw [hdecoded]
  simp only [hread]
  cases v with
  | mapping entries => exact .inl ⟨entries, rfl⟩
  | null => exact hother rfl
  | scalar s => exact hother rfl
  | sequence kind items => exact hother rfl

/-- What becomes of the content of a file. -/
theorem readDocument_cases (reader : DocumentReader) (place : Text) (content : Bytes) :
    (∃ entries, readDocument reader place content = .ok entries) ∨
      (∃ error, readDocument reader place content = .error (.catalog error)) ∨
      (∃ e, readText content = .error e ∧ readDocument reader place content = .error (.undecodable e)) ∨
      ∃ text r, readText content = .ok text ∧ reader text = .error (.raised r) ∧
        readDocument reader place content = .error (.raised r) := by
  cases hdecoded : readText content with
  | error e => exact .inr (.inr (.inl ⟨e, rfl, by rw [readDocument, hdecoded]⟩))
  | ok text =>
    cases hread : reader text with
    | ok v =>
      rcases readDocument_of_value place hdecoded hread with hok | herror
      · exact .inl hok
      · exact .inr (.inl herror)
    | error failure =>
      cases failure with
      | rejected message =>
        refine .inr (.inl ⟨.unreadable place message, ?_⟩)
        rw [readDocument, hdecoded]
        simp only [hread]
      | raised r =>
        refine .inr (.inr (.inr ⟨text, r, rfl, hread, ?_⟩))
        rw [readDocument, hdecoded]
        simp only [hread]

/-- Building the catalog of a file is the last step of loading it. -/
theorem load_of_entries {entries : List (Value × Value)} (hfile : fs.entry? path = some (.file content))
    (hread : readDocument reader path.render content = .ok entries) (j : List JournalEntry) :
    (load reader fs path j).1 = (ofEntries entries (some path.render) []).1 := by
  rw [load_of_file hfile, Journal.bind_ofExcept_ok hread]
  have happends := ofEntries_appends entries (some path.render) j
  cases hbuilt : (ofEntries entries (some path.render) []).1 with
  | ok c =>
    rw [hbuilt] at happends
    rw [bind_of_ok happends]
    rfl
  | error f =>
    rw [hbuilt] at happends
    rw [bind_of_error happends]

/-- A document that cannot be read ends the loading. -/
theorem load_of_fault {f : Fault} (hfile : fs.entry? path = some (.file content))
    (hread : readDocument reader path.render content = .error f) (j : List JournalEntry) :
    (load reader fs path j).1 = .error f := by
  rw [load_of_file hfile, Journal.bind_ofExcept_error hread]

/-- **What becomes of loading**: a catalog, a fault of the catalog, one of the other faults, or a fault of the reader. -/
theorem load_cases (reader : DocumentReader) (fs : FileSystem) (path : Path) (j : List JournalEntry) :
    (∃ content entries ts vs templates defaults, fs.entry? path = some (.file content) ∧
      readDocument reader path.render content = .ok entries ∧ sectionEntries? entries "variables" = some vs ∧
      List.Forall₂ TemplateEntry ts templates ∧ List.Forall₂ DefaultEntry vs defaults ∧
      (load reader fs path j).1 = .ok (ofNamed templates defaults path.render)) ∨
    (∃ error, (load reader fs path j).1 = .error (.catalog error)) ∨
    (∃ f, LoadFault reader fs path f ∧ (load reader fs path j).1 = .error f) ∨
    ∃ r, ReaderRaises reader fs path r ∧ (load reader fs path j).1 = .error (.raised r) := by
  cases hentry : fs.entry? path with
  | none => exact .inr (.inl ⟨_, by rw [load, hentry]; rfl⟩)
  | some entry =>
    cases entry with
    | directory => exact .inr (.inl ⟨_, by rw [load, hentry]; rfl⟩)
    | device content => exact .inr (.inl ⟨_, by rw [load, hentry]; rfl⟩)
    | tooLong => exact .inr (.inr (.inl ⟨_, .path hentry, by rw [load, hentry]; rfl⟩))
    | file content =>
      rcases readDocument_cases reader path.render content with ⟨entries, hread⟩ | ⟨error, hread⟩ | ⟨e, hdecoded, hread⟩ |
        ⟨text, r, hdecoded, hraised, hread⟩
      · have hload := load_of_entries hentry hread j
        rcases ofEntries_cases entries (some path.render) [] with
          ⟨ts, vs, templates, defaults, _, -, hvs, ht, hv, hrun⟩ | ⟨_, _, hrun⟩ | hcut
        · exact .inl ⟨content, entries, ts, vs, templates, defaults, rfl, hread, hvs, ht, hv, by rw [hload, hrun]⟩
        · exact .inr (.inl ⟨_, by rw [hload, hrun]⟩)
        · obtain ⟨f, j', hrun, -⟩ := ofEntries_of_cutShort (some path.render) [] hcut
          exact .inr (.inr (.inl ⟨f, .mapping hentry hread hcut (by rw [hrun]), by rw [hload, hrun]⟩))
      · exact .inr (.inl ⟨error, load_of_fault hentry hread j⟩)
      · exact .inr (.inr (.inl ⟨_, .bytes hentry hdecoded, load_of_fault hentry hread j⟩))
      · exact .inr (.inr (.inr ⟨r, ⟨content, text, hentry, hdecoded, hraised⟩, load_of_fault hentry hread j⟩))

/-- The templates of a catalog that has been loaded have been parsed. -/
theorem parse_of_load {c : Catalog} {j : List JournalEntry} (h : (load reader fs path j).1 = .ok c) {name : Text}
    {t : Template} (hget : c.get name = .ok t) : Template.parse t.source = .ok t := by
  rcases load_cases reader fs path j with ⟨_, _, _, _, _, _, -, -, -, ht, -, hok⟩ | ⟨_, herror⟩ | ⟨f, -, herror⟩ |
    ⟨r, -, herror⟩
  · obtain rfl := Except.ok.inj (hok.symm.trans h)
    exact parse_of_get ht hget
  · cases herror.symm.trans h
  · cases herror.symm.trans h
  · cases herror.symm.trans h

/-! ### readers that give data -/

/-- The sections of a mapping of data are data. -/
theorem isData_of_sectionEntries {entries es : List (Value × Value)} (hvalues : ∀ e ∈ entries, e.2.IsData)
    {key : String} (h : sectionEntries? entries key = some es) :
    (∀ e ∈ es, e.1.IsData) ∧ ∀ e ∈ es, e.2.IsData := by
  unfold sectionEntries? section? at h
  cases hfound : Table.get? entries (.text key) with
  | none =>
    rw [hfound] at h
    cases h
    exact ⟨List.forall_mem_nil _, List.forall_mem_nil _⟩
  | some v =>
    rw [hfound] at h
    obtain ⟨k, hmem⟩ := Table.exists_mem_of_get? hfound
    have hv : v.IsData := hvalues _ hmem
    cases hv with
    | null =>
      cases h
      exact ⟨List.forall_mem_nil _, List.forall_mem_nil _⟩
    | mapping keys values =>
      cases h
      exact ⟨keys, values⟩
    | scalar => cases h
    | sequence => cases h

theorem KeyOf.isData {entries : List (Value × Value)} (hkeys : ∀ e ∈ entries, e.1.IsData)
    (hvalues : ∀ e ∈ entries, e.2.IsData) {key : Value} (h : KeyOf entries key) : key.IsData := by
  cases h with
  | unknown mem =>
    obtain ⟨e, he, rfl⟩ := List.mem_map.1 (List.mem_of_mem_filter mem)
    exact hkeys e he
  | member held mem => exact (isData_of_sectionEntries hvalues held).1 _ mem

/-- Faults of numerals that are too long to be read or written. -/
def IsLongNumeral (f : Fault) : Prop := f = .integerTooLong ∨ ∃ k, f = .numeralTooLong k

/-- Only numerals cut a mapping of data short. -/
theorem CutFault.isLongNumeral {entries : List (Value × Value)} (hkeys : ∀ e ∈ entries, e.1.IsData)
    (hvalues : ∀ e ∈ entries, e.2.IsData) {f : Fault} (h : CutFault entries f) : IsLongNumeral f := by
  rcases h with hlimit | ⟨key, hkey, hfault⟩
  · exact .inr hlimit
  · exact .inl ((hkey.isData hkeys hvalues).eq_of_holdsFault hfault)

theorem isData_of_readDocument (hdata : reader.GivesData) {place : Text} {entries : List (Value × Value)}
    (h : readDocument reader place content = .ok entries) :
    (∀ e ∈ entries, e.1.IsData) ∧ ∀ e ∈ entries, e.2.IsData := by
  unfold readDocument at h
  split at h
  · cases h
  · rename_i text hdecoded
    split at h
    · cases h
    · cases h
    · rename_i es hread
      cases h
      cases hdata _ _ hread with
      | mapping keys values => exact ⟨keys, values⟩
    · split at h
      · cases h
        exact ⟨List.forall_mem_nil _, List.forall_mem_nil _⟩
      · cases h

/-- The default values of a catalog are data. -/
theorem isData_of_load (hdata : reader.GivesData) {c : Catalog} {j : List JournalEntry}
    (h : (load reader fs path j).1 = .ok c) : ∀ e ∈ c.defaults, e.2.IsData := by
  rcases load_cases reader fs path j with ⟨content, entries, ts, vs, templates, defaults, -, hread, hvs, -, hv, hok⟩ |
    ⟨_, herror⟩ | ⟨f, -, herror⟩ | ⟨r, -, herror⟩
  · obtain rfl := Except.ok.inj (hok.symm.trans h)
    have hsection := (isData_of_sectionEntries (isData_of_readDocument hdata hread).2 hvs).2
    have hdefaults : ∀ e ∈ defaults, e.2.IsData := by
      clear hok h hvs
      induction hv with
      | nil => exact List.forall_mem_nil _
      | cons he _ ih =>
        obtain ⟨hhead, htail⟩ := List.forall_mem_cons.1 hsection
        exact List.forall_mem_cons.2 ⟨he.value ▸ hhead, ih htail⟩
    exact Table.forall_mem_ofList hdefaults
  · cases herror.symm.trans h
  · cases herror.symm.trans h
  · cases herror.symm.trans h

/-- Catalogs that have been loaded can be used again and again. -/
theorem rereadable_of_load (hdata : reader.GivesData) {c : Catalog} {j : List JournalEntry}
    (h : (load reader fs path j).1 = .ok c) : ∀ e ∈ c.defaults, e.2.Rereadable :=
  fun e he => (isData_of_load hdata h e he).rereadable

theorem LoadFault.load_eq {f : Fault} (h : LoadFault reader fs path f) (j : List JournalEntry) :
    (load reader fs path j).1 = .error f := by
  cases h with
  | path tooLong => rw [load, tooLong]; rfl
  | bytes file decoded => exact load_of_fault file (by rw [readDocument, decoded]) j
  | mapping file read cut built => rw [load_of_entries file read, built]

end

end Catalog

open Catalog

end UriTemplate
