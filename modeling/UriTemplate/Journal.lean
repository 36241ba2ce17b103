import UriTemplate.Fault
import UriTemplate.Template.Basic

/-!
# Journals

* `JournalEntry` — what is worth a line in the journal of a run, with its wording;
* `Journal` — a computation that may fail and keeps a journal, also of what it did before it failed.
-/

namespace UriTemplate

inductive JournalEntry
  | expanding (template : Text) (names : List Text)
  | parsed (source : Text) (elements : Nat)
  | loaded (templates : Nat) (path : Text)
  | ignoredKeys (place : Text) (keys : List Text)
deriving DecidableEq

namespace JournalEntry

/-- Only entries that point at a mistake are not for debugging. -/
def isWarning : JournalEntry → Bool
  | ignoredKeys .. => true
  | _ => false

def message : JournalEntry → Text
  | expanding template names =>
    ("Expanding " : Text) ++ template.quoted ++ (" with variables [" : Text)
      ++ Text.join ", " (names.map Text.quoted) ++ ("]" : Text)
  | parsed source n =>
    ("Parsed URI template " : Text) ++ source.quoted ++ (" into " : Text) ++ Text.ofNat n ++ (" element(s)" : Text)
  | loaded n path => ("Loaded " : Text) ++ Text.ofNat n ++ (" template(s) from " : Text) ++ path
  | ignoredKeys place keys =>
    ("Ignoring unknown keys in " : Text) ++ place ++ (": " : Text) ++ Text.join ", " keys

/-- The line of an entry. -/
def line (e : JournalEntry) : Text :=
  (if e.isWarning then ("[WARNING] " : Text) else ("[DEBUG] " : Text)) ++ e.message ++ ("\n" : Text)

end JournalEntry

abbrev Journal (α : Type) := ExceptT Fault (StateM (List JournalEntry)) α

namespace Journal

def log (e : JournalEntry) : Journal Unit := modify (· ++ [e])

def ofExcept {α : Type} : Except Fault α → Journal α
  | .ok a => return a
  | .error e => throw e

/-- Parses a template and notes the success. -/
def parse (source : Text) : ExceptT ParseFailure (StateM (List JournalEntry)) Template := fun entries =>
  match Template.parse source with
  | .ok t => (.ok t, entries ++ [.parsed source t.elements.length])
  | .error e => (.error e, entries)

end Journal

end UriTemplate
