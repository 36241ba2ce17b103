import UriTemplate.Proofs.Concatenation
import UriTemplate.Proofs.LeafOrigin

/-!
# Where the text of an expansion comes from

An expansion is a sequence of pieces, and each of them is from one place: a literal of the template, the delimiters of an
operator, the name of a variable, or one of the texts that a value or a key is made of.

* `Piece`, `Piece.text` — the pieces, and what is written of them;
* `Operator.pieces`, `flatMap_text_pieces` — the pieces of units, whose text is what the operator makes of the units;
* `readUnits`, `readPieces`, `expandElements_eq_readPieces` — an expansion that gives pieces instead of text;
* `Piece.IsFrom`, `readPieces_isFrom` — where pieces are from.
-/

namespace UriTemplate

/-! ## pieces -/

/-- A part of an expansion. -/
inductive Piece
  /-- A literal of the template. -/
  | literal (t : Text)
  /-- What the operator puts in front of its units, between them, or into them. -/
  | delimiter (op : Operator) (t : Text)
  /-- The name of a variable, as it is written in the template. -/
  | name (op : Operator) (t : Text)
  /-- A text that a value or a key is made of, before it is encoded. -/
  | leaf (op : Operator) (t : Text)
deriving DecidableEq

/-- What is written of a piece. -/
def Piece.text : Piece → Text
  | literal t | delimiter _ t | name _ t => t
  | leaf op t => encode op.policy t

namespace Operator

variable (op : Operator)

/-- Leaves with commas between them. -/
def leafPieces (leaves : List Text) : List Piece :=
  List.intercalate [.delimiter op ","] (leaves.map fun t => [.leaf op t])

theorem flatMap_text_leafPieces (leaves : List Text) :
    (op.leafPieces leaves).flatMap Piece.text = op.valueText leaves := by
  have hleaf : (fun t => List.flatMap Piece.text [Piece.leaf op t]) = encode op.policy := by
    funext t
    exact List.append_nil _
  rw [leafPieces, Text.flatMap_intercalate, List.map_map]
  show Text.join "," (leaves.map fun t => List.flatMap Piece.text [Piece.leaf op t]) = _
  rw [hleaf]
  cases leaves <;> rfl

end Operator

/-- A label, if there is one, with what stands between it and the value. -/
def Label.pieces (op : Operator) (equals : Text) : Label → List Piece
  | .none => []
  | .name n => [.name op n, .delimiter op equals]
  | .key leaves => op.leafPieces leaves ++ [.delimiter op equals]

def ExpansionUnit.pieces (op : Operator) (u : ExpansionUnit) : List Piece :=
  u.label.pieces op (op.equalsSign (op.valueText u.leaves)) ++ op.leafPieces u.leaves

theorem ExpansionUnit.flatMap_text_pieces (op : Operator) (u : ExpansionUnit) :
    (u.pieces op).flatMap Piece.text = u.written op := by
  obtain ⟨label, leaves⟩ := u
  rw [pieces, List.flatMap_append, op.flatMap_text_leafPieces]
  cases label with
  | none => rfl
  | name n =>
    rw [written_of_some _ rfl]
    simp [Label.pieces, Piece.text]
  | key key =>
    rw [written_of_some _ rfl, Label.pieces, List.flatMap_append, op.flatMap_text_leafPieces]
    simp [Piece.text]

/-- Units behind what the operator begins with, with its separator between them. -/
def Operator.pieces (op : Operator) (units : List ExpansionUnit) : List Piece :=
  if units = [] then []
  else .delimiter op (op.first.getD []) :: List.intercalate [.delimiter op op.separator] (units.map (·.pieces op))

/-- **The pieces of units make what an operator makes of the units.** -/
theorem Operator.flatMap_text_pieces (op : Operator) (units : List ExpansionUnit) :
    (op.pieces units).flatMap Piece.text = op.assemble (units.map (·.written op)) := by
  by_cases h : units = []
  · rw [h]
    rfl
  have hunits : ((List.map (·.pieces op) units).map fun ps => ps.flatMap Piece.text) = units.map (·.written op) := by
    rw [List.map_map]
    exact List.map_congr_left fun u _ => u.flatMap_text_pieces op
  have hseparator : List.flatMap Piece.text [.delimiter op op.separator] = op.separator := List.append_nil _
  rw [pieces, if_neg h, assemble, if_neg (by simpa using h), List.flatMap_cons, Text.flatMap_intercalate, hunits,
    hseparator]
  rfl

/-! ## reading pieces -/

/-- The units that an expression yields. -/
def readUnits (resolve : Resolver) (op : Operator) (rs : List VariableReference) : Act (List ExpansionUnit) := fun w =>
  let (result, y) := collectReferences resolve op rs { world := w }
  (result.map fun _ => y.units, y.world)

/-- The pieces of an element. -/
def Element.readPieces (resolve : Resolver) : Element → Act (List Piece)
  | .literal s => return [.literal s.text]
  | .expression _ op rs => op.pieces <$> readUnits resolve op rs
  | .bare _ => throw .bareElement

/-- The pieces of elements, one behind the other. -/
def readPieces (resolve : Resolver) : List Element → Act (List Piece)
  | [] => return []
  | e :: es => do return (← e.readPieces resolve) ++ (← readPieces resolve es)

theorem readUnits_of_collect {resolve : Resolver} {op : Operator} {rs : List VariableReference} {w : World}
    {r : Except Fault Unit} {y : Yield} (h : collectReferences resolve op rs { world := w } = (r, y)) :
    readUnits resolve op rs w = (r.map fun _ => y.units, y.world) := by
  rw [readUnits, h]

section

variable (resolve : Resolver)

theorem expandElements_singleton (e : Element) :
    expandElements resolve [e] = (fun ps => ps.flatMap Piece.text) <$> e.readPieces resolve := by
  funext w
  cases e with
  | literal s =>
    show (Except.ok ((Output.write { world := w } s.text).sink), w) = (Except.ok (s.text ++ []), w)
    rw [Output.sink_write, List.append_nil]
    rfl
  | bare s => rfl
  | expression s op rs =>
    rw [expandElements_expression, Element.readPieces, ← comp_map, map_eq_pure_bind]
    cases hc : collectReferences resolve op rs { world := w } with
    | mk r y =>
      have hunits := readUnits_of_collect hc
      cases r with
      | error e => exact (bind_of_error hunits).symm
      | ok =>
        rw [bind_of_ok hunits, Function.comp_apply, op.flatMap_text_pieces]
        rfl

/-- **An expansion writes its pieces**, and does the same to the world as reading them. -/
theorem expandElements_eq_readPieces (es : List Element) :
    expandElements resolve es = (fun ps => ps.flatMap Piece.text) <$> readPieces resolve es := by
  induction es with
  | nil => rfl
  | cons e es ih =>
    rw [← List.singleton_append, expandElements_append, expandElements_singleton, ih]
    simp only [readPieces, map_eq_pure_bind, bind_assoc, pure_bind, List.flatMap_append, List.singleton_append]

end

/-! ## where pieces are from -/

/-- All that an operator may write by itself. -/
def Operator.delimiters (op : Operator) : List Text := [op.first.getD [], op.separator, ",", "=", []]

/-- The piece is from these elements.  It is one of their literals, or it is from one of their expressions, whose operator
it has: a delimiter of the operator, the name of a variable, or a leaf of the value that the resolver gives for one. -/
def Piece.IsFrom (resolve : Resolver) (es : List Element) : Piece → Prop
  | literal t => ∃ s, .literal s ∈ es ∧ s.text = t
  | delimiter op t => (∃ s rs, .expression s op rs ∈ es) ∧ t ∈ op.delimiters
  | name op t => ∃ s rs, .expression s op rs ∈ es ∧ ∃ r ∈ rs, r.name = t
  | leaf op t => ∃ s rs, .expression s op rs ∈ es ∧ LeafFrom resolve rs t

section

variable {resolve : Resolver} {es : List Element} {s : Span} {op : Operator} {rs : List VariableReference}
  (hmem : .expression s op rs ∈ es)

include hmem

theorem leafPieces_isFrom {leaves : List Text} (h : ∀ t ∈ leaves, LeafFrom resolve rs t) :
    ∀ p ∈ op.leafPieces leaves, p.IsFrom resolve es := by
  intro p hp
  rcases Text.mem_intercalate hp with hp | ⟨ps, hps, hp⟩
  · obtain rfl := List.mem_singleton.1 hp
    exact ⟨⟨s, rs, hmem⟩, by simp [Operator.delimiters]⟩
  · obtain ⟨t, ht, rfl⟩ := List.mem_map.1 hps
    obtain rfl := List.mem_singleton.1 hp
    exact ⟨s, rs, hmem, h t ht⟩

theorem equalsSign_isFrom (value : Text) : (Piece.delimiter op (op.equalsSign value)).IsFrom resolve es := by
  refine ⟨⟨s, rs, hmem⟩, ?_⟩
  unfold Operator.equalsSign
  split <;> simp [Operator.delimiters]

theorem ExpansionUnit.pieces_isFrom {u : ExpansionUnit} (hu : u.IsFrom op rs)
    (htexts : ∀ t ∈ u.texts, LeafFrom resolve rs t) : ∀ p ∈ u.pieces op, p.IsFrom resolve es := by
  obtain ⟨label, leaves⟩ := u
  obtain ⟨hlabel, hleaves⟩ := List.forall_mem_append.1 htexts
  refine List.forall_mem_append.2 ⟨?_, leafPieces_isFrom hmem hleaves⟩
  cases label with
  | none => simp [Label.pieces]
  | name n =>
    have hname : (Piece.name op n).IsFrom resolve es := ⟨s, rs, hmem, hu.2⟩
    simpa [Label.pieces] using ⟨hname, equalsSign_isFrom hmem _⟩
  | key key =>
    refine List.forall_mem_append.2 ⟨leafPieces_isFrom hmem hlabel, ?_⟩
    simpa using equalsSign_isFrom hmem _

theorem Operator.pieces_isFrom {units : List ExpansionUnit} (hunits : ∀ u ∈ units, u.IsFrom op rs)
    (htexts : ∀ u ∈ units, ∀ t ∈ u.texts, LeafFrom resolve rs t) : ∀ p ∈ op.pieces units, p.IsFrom resolve es := by
  intro p hp
  unfold pieces at hp
  split at hp
  · cases hp
  rcases List.mem_cons.1 hp with rfl | hp
  · exact ⟨⟨s, rs, hmem⟩, by simp [delimiters]⟩
  rcases Text.mem_intercalate hp with hp | ⟨ps, hps, hp⟩
  · obtain rfl := List.mem_singleton.1 hp
    exact ⟨⟨s, rs, hmem⟩, by simp [delimiters]⟩
  · obtain ⟨u, hu, rfl⟩ := List.mem_map.1 hps
    exact u.pieces_isFrom hmem (hunits u hu) (htexts u hu) p hp

end

variable {resolve : Resolver}

/-- What holds of all units that the references yield. -/
theorem of_mem_readUnits {P : ExpansionUnit → Prop} {op : Operator} {rs : List VariableReference}
    (hyields : Yields P (collectReferences resolve op rs)) {w w' : World} {units : List ExpansionUnit}
    (h : readUnits resolve op rs w = (.ok units, w')) : ∀ u ∈ units, P u := by
  have hall := hyields { world := w } (by simp)
  cases hc : collectReferences resolve op rs { world := w } with
  | mk r y =>
    rw [readUnits_of_collect hc] at h
    rw [hc] at hall
    cases r with
    | error e => cases h
    | ok =>
      obtain ⟨rfl, -⟩ := pure_eq_ok h
      exact hall

theorem Element.readPieces_isFrom {es : List Element} {e : Element} (he : e ∈ es) {w w' : World} {ps : List Piece}
    (h : e.readPieces resolve w = (.ok ps, w')) : ∀ p ∈ ps, p.IsFrom resolve es := by
  cases e with
  | literal s =>
    obtain ⟨rfl, -⟩ := pure_eq_ok h
    exact List.forall_mem_singleton.2 ⟨s, he, rfl⟩
  | bare s => cases h
  | expression s op rs =>
    rw [readPieces, map_eq_pure_bind] at h
    obtain ⟨units, w₁, hunits, hps⟩ := bind_eq_ok h
    obtain ⟨rfl, -⟩ := pure_eq_ok hps
    have hfrom := of_mem_readUnits (collectReferences_yields resolve fun _ hr => hr) hunits
    have htexts := of_mem_readUnits (collectReferences_leafFrom resolve op fun _ hr => hr) hunits
    exact op.pieces_isFrom he hfrom htexts

/-- **Every piece of an expansion is from one of the elements.** -/
theorem readPieces_isFrom {es es' : List Element} (hes : ∀ e ∈ es', e ∈ es) {w w' : World} {ps : List Piece}
    (h : readPieces resolve es' w = (.ok ps, w')) : ∀ p ∈ ps, p.IsFrom resolve es := by
  induction es' generalizing w w' ps with
  | nil =>
    obtain ⟨rfl, -⟩ := pure_eq_ok h
    simp
  | cons e es' ih =>
    obtain ⟨hhead, htail⟩ := List.forall_mem_cons.1 hes
    obtain ⟨qs, w₁, hqs, hrest⟩ := bind_eq_ok h
    obtain ⟨rs, w₂, hrs, hps⟩ := bind_eq_ok hrest
    obtain ⟨rfl, -⟩ := pure_eq_ok hps
    exact List.forall_mem_append.2 ⟨Element.readPieces_isFrom hhead hqs, ih htail hrs⟩

end UriTemplate
