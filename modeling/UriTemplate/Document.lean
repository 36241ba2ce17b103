import UriTemplate.Value.Basic

/-!
# Documents

A catalog is written as a document, which is a text that stands for a value.  How documents are read is left open: the
reader is one of the things that a run is given.

* `DocumentReader` — a reader of documents, `DocumentFault` — how it fails.
-/

namespace UriTemplate

inductive DocumentFault
  /-- The text is no document, and what the reader says about it. -/
  | rejected (message : Text)
  /-- The reader breaks off with a fault of its own. -/
  | raised (r : Raised)
deriving DecidableEq

abbrev DocumentReader := Text → Except DocumentFault Value

end UriTemplate
