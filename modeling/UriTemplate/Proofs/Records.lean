import Mathlib.Data.List.Perm.Subperm
import UriTemplate.Proofs.Grammar
import UriTemplate.Template.Descent

/-!
# Records

What the record of a descent may hold, and what it says when nothing is left out of it.

* `Loop.outer`, `Loop.Moves`, `Loop.Covers` — what the passes of a loop run in, move over at once, and move over in all;
* `standing`, `underWay` — where a record has come to: the place of the cursor and the passes that have begun;
* `Moment.Follows`, `Record` — what may happen next, and records that are made in this way;
* `Orderly` — the cursor goes forward, and nothing is done out of place;
* `Complete` — every move, character, pass and closing on the way to the result is in the record;
* `Record.orderly`, `Record.complete` — a record is both.
-/

namespace UriTemplate

open Cursor (part)

/-! ## passes -/

namespace Loop

/-- The loop in whose passes a loop runs. -/
def outer : Loop → Option Loop
  | .elements => none
  | .variables => some .elements
  | .name | .digits => some .variables

/-- What a pass moves over at once behind `before`, which it has moved over already; the passes of a loop that runs in
it do the rest. -/
inductive Moves : Loop → (before : Text) → Text → Prop
  /-- A character of a literal, or the first one of a triplet or of an expression. -/
  | element (c : CodePoint) : Moves .elements [] [c]
  | elementDigits (p : Triplet) : Moves .elements [('%' : CodePoint)] [p.first, p.second]
  | operator {c : CodePoint} {op : Operator} (h : Operator.ofChar? c = some op) : Moves .elements [('{' : CodePoint)] [c]
  | modifier (n : Name) {c : CodePoint} (hc : c = ':' ∨ c = '*') : Moves .variables n.text [c]
  | variableEnd (v : VariableSpec) {c : CodePoint} (hc : c = ',' ∨ c = '}') : Moves .variables v.text [c]
  /-- A character of a name, or the first one of a triplet. -/
  | unit (c : CodePoint) : Moves .name [] [c]
  | unitDigits (p : Triplet) : Moves .name [('%' : CodePoint)] [p.first, p.second]
  | digit {c : CodePoint} (hc : c.isDigit) : Moves .digits [] [c]

/-- What a whole pass moves over; another one is to follow if `again`. -/
inductive Covers : Loop → (again : Bool) → Text → Prop
  | item (i : Item) : Covers .elements true i.text
  | comma (v : VariableSpec) : Covers .variables true (v.text ++ [(',' : CodePoint)])
  | brace (v : VariableSpec) : Covers .variables false (v.text ++ [('}' : CodePoint)])
  | unit (u : NameUnit) : Covers .name true u.text
  | dot : Covers .name true [('.' : CodePoint)]
  /-- The look at the character that ends a name. -/
  | nothing : Covers .name false []
  | digit {c : CodePoint} (hc : c.isDigit) : Covers .digits true [c]

end Loop

/-! ## what may happen -/

/-- Where the cursor stands when something has happened, the latest first. -/
def standing : List Moment → Int
  | [] => 0
  | m :: _ => m.position

/-- The passes that have begun and have not ended yet, the innermost first, with the places where they began. -/
def underWay : List Moment → List (Loop × Int)
  | [] => []
  | m :: earlier =>
    match m.event with
    | .begins l => (l, m.position) :: underWay earlier
    | .ends .. => (underWay earlier).tail
    | _ => underWay earlier

/-- A character at which a name ends stands at a position. -/
def EndsNameAt (t : Text) (position : Int) : Prop := ∃ c ∈ t[position.toNat]?, c.isAny [',', '}', ':', '*']

/-- A character at which a variable ends stands at a position. -/
def EndsVariableAt (t : Text) (position : Int) : Prop := ∃ c ∈ t[position.toNat]?, c = ',' ∨ c = '}'

/-- The cursor is moved on to `stop`, behind what has been read. -/
structure MovesOn (t : Text) (earlier : List Moment) (stop : Int) : Prop where
  onward : standing earlier < stop
  inside : stop ≤ t.length
  byPass : ∃ l start outside, underWay earlier = (l, start) :: outside ∧
    l.Moves (part t start (standing earlier)) (part t (standing earlier) stop)
  read : ∀ k, standing earlier ≤ k → k < stop → ∃ i, ⟨.reads k, i⟩ ∈ earlier

/-- The pass that is under way, which began at `start`, comes to its end at `stop`. -/
structure Finishes (t : Text) (earlier : List Moment) (l : Loop) (start : Int) (again : Bool) (stop : Int) : Prop where
  innermost : ∃ outside, underWay earlier = (l, start) :: outside
  covers : l.Covers again (part t start stop)
  forward : start < stop ∨ l = .name ∧ again = false ∧ start = stop ∧ EndsNameAt t stop
  variableEnd : l = .variables → ⟨.passesVariable, stop - 1⟩ ∈ earlier
  closing : l = .variables → again = false → ⟨.closes [('}' : CodePoint)], stop⟩ ∈ earlier

/-- What may happen when something has happened. -/
def Moment.Follows (t : Text) (earlier : List Moment) (m : Moment) : Prop :=
  match m.event with
  | .moves => m.position = standing earlier ∨ MovesOn t earlier m.position
  | .reads i => 0 ≤ i ∧ i < t.length
  | .begins l => (underWay earlier).head?.map Prod.fst = l.outer ∧
    (if l = .variables then 0 < m.position else m.position < t.length)
  | .ends l start again => Finishes t earlier l start again m.position
  | .passesVariable => EndsVariableAt t m.position
  | .closes u => u = [('}' : CodePoint)] ∧ u = part t (m.position - 1) m.position
  | .breaksOff => False

/-- The latest first. -/
inductive Record (t : Text) : List Moment → Prop
  | nil : Record t []
  | cons {m : Moment} {earlier : List Moment} (before : Record t earlier)
      (stays : m.event ≠ .moves → m.position = standing earlier) (follows : m.Follows t earlier)
      (apart : ∀ l, m.event = .begins l → ∀ n ∈ earlier, n.event = .begins l → n.position < m.position) :
      Record t (m :: earlier)

/-! ## what a record says -/

/-- `m` happens when `earlier` has happened, the latest first. -/
def HappensAfter (history earlier : List Moment) (m : Moment) : Prop := m :: earlier <:+ history.reverse

/-- The passes of a loop. -/
def passes (l : Loop) (history : List Moment) : List Moment := history.filter fun m => m.event = .begins l

/-- Where a fault is found: not before its place, and the one without a place at the end of the text; digits that are too
many, behind them. -/
def ParseFailure.FoundAt (t : Text) (position : Int) : ParseFailure → Prop
  | .malformed e => (e.offset.getD t.length : Int) ≤ position
  | .numeralTooLong n => ∃ digits, digits.length = n ∧ (∀ c ∈ digits, c.isDigit) ∧ part t (position - n) position = digits

theorem ParseFailure.foundAt_of_offset {t : Text} {position : Int} {e : ParseError} {n : Nat} (he : e.offset = some n)
    (hn : n ≤ position) : (malformed e).FoundAt t position := by
  rw [FoundAt, he]
  exact hn

/-- The cursor goes forward, and nothing is done out of place. -/
structure Orderly (t : Text) (history : List Moment) : Prop where
  /-- The cursor does not leave the text. -/
  within : ∀ m ∈ history, 0 ≤ m.position ∧ m.position ≤ t.length
  /-- The cursor does not go back. -/
  ascending : history.Pairwise fun m n => m.position ≤ n.position
  /-- A pass that comes to its end has moved the cursor on.  Only the look at the character that ends a name has nothing
  to move over; no other pass follows it. -/
  forward : ∀ (l : Loop) (again : Bool) (start stop : Int), ⟨.ends l start again, stop⟩ ∈ history →
    start < stop ∨ l = .name ∧ again = false ∧ start = stop ∧ EndsNameAt t stop
  /-- Every pass of a loop, also one that ends in a fault, begins behind the beginning of the one before. -/
  separate : ∀ l, (passes l history).Pairwise fun m n => m.position < n.position
  /-- There are no more passes of a loop than characters. -/
  bounded : ∀ l, (passes l history).length ≤ t.length
  /-- A variable that has been read ends at a comma or a brace. -/
  variableEnd : ∀ i : Int, ⟨.passesVariable, i⟩ ∈ history → EndsVariableAt t i
  /-- What is moved over to close an expression is the closing brace. -/
  closing : ∀ (u : Text) (i : Int), ⟨.closes u, i⟩ ∈ history → u = [('}' : CodePoint)] ∧ u = part t (i - 1) i
  /-- The text does not end behind a name that has been read. -/
  notBrokenOff : ∀ i : Int, ⟨.breaksOff, i⟩ ∉ history
  /-- No character is read that the text does not have. -/
  inside : ∀ i j : Int, ⟨.reads i, j⟩ ∈ history → 0 ≤ i ∧ i < t.length

/-- Nothing is left out on the way from the beginning of the text to the result. -/
structure Complete (t : Text) (result : Except ParseFailure (List Element)) (history : List Moment) : Prop where
  /-- Only a move takes the cursor elsewhere. -/
  tracked : ∀ earlier m, HappensAfter history earlier m → m.event ≠ .moves → m.position = standing earlier
  /-- What is moved over has been read, and belongs to the innermost pass that is under way. -/
  moved : ∀ earlier stop, HappensAfter history earlier ⟨.moves, stop⟩ → stop = standing earlier ∨ MovesOn t earlier stop
  /-- A pass begins in one of the loop around. -/
  nested : ∀ earlier l i, HappensAfter history earlier ⟨.begins l, i⟩ →
    (underWay earlier).head?.map Prod.fst = l.outer
  /-- The pass that ends is the innermost one.  It has moved over one part of a template, and a variable that it has
  moved over has been read and, if it is the last one, its expression closed. -/
  finished : ∀ earlier l start again stop, HappensAfter history earlier ⟨.ends l start again, stop⟩ →
    Finishes t earlier l start again stop
  /-- The elements are found at the end of the text, behind the last pass; a fault, where it is. -/
  arrived : match result with
    | .ok _ => standing history.reverse = t.length ∧ underWay history.reverse = []
    | .error f => f.FoundAt t (standing history.reverse)

namespace Record

variable {t : Text} {history : List Moment} {m : Moment}

theorem of_suffix (h : Record t history) {later : List Moment} (hlater : later <:+ history) : Record t later := by
  induction h with
  | nil =>
    rw [List.suffix_nil.1 hlater]
    exact nil
  | cons before stays follows apart ih =>
    rcases List.suffix_cons_iff.1 hlater with rfl | hlater
    · exact before.cons stays follows apart
    · exact ih hlater

/-- The cursor is not moved back, and not beyond the text. -/
theorem standing_le (h : Record t (m :: history)) (hinside : standing history ≤ t.length) :
    standing history ≤ m.position ∧ m.position ≤ t.length := by
  cases h with
  | cons _ stays follows _ =>
    by_cases hm : m.event = .moves
    · rw [Moment.Follows, hm] at follows
      rcases follows with hstay | hmove
      · omega
      · exact ⟨Int.le_of_lt hmove.onward, hmove.inside⟩
    · have hstay := stays hm
      omega

theorem within (h : Record t history) : 0 ≤ standing history ∧ standing history ≤ t.length := by
  induction h with
  | nil => exact ⟨Int.le_refl _, Int.natCast_nonneg _⟩
  | cons before stays follows apart ih =>
    have hle := (before.cons stays follows apart).standing_le ih.2
    exact ⟨Int.le_trans ih.1 hle.1, hle.2⟩

/-- Whatever has happened has happened between the beginning and the place of the cursor. -/
theorem reached (h : Record t history) : ∀ m ∈ history, 0 ≤ m.position ∧ m.position ≤ standing history := by
  induction h with
  | nil => simp
  | cons before stays follows apart ih =>
    have hle := ((before.cons stays follows apart).standing_le before.within.2).1
    intro n hn
    rcases List.mem_cons.1 hn with rfl | hn
    · exact ⟨Int.le_trans before.within.1 hle, Int.le_refl _⟩
    · exact ⟨(ih n hn).1, Int.le_trans (ih n hn).2 hle⟩

theorem descending (h : Record t history) : history.Pairwise fun later earlier => earlier.position ≤ later.position := by
  induction h with
  | nil => exact .nil
  | cons before stays follows apart ih =>
    have hle := ((before.cons stays follows apart).standing_le before.within.2).1
    exact List.pairwise_cons.2 ⟨fun n hn => Int.le_trans (before.reached n hn).2 hle, ih⟩

theorem separate (h : Record t history) (l : Loop) :
    (passes l history).Pairwise fun later earlier => earlier.position < later.position := by
  induction h with
  | nil => exact .nil
  | @cons m earlier before stays follows apart ih =>
    by_cases hm : m.event = .begins l
    · rw [passes, List.filter_cons_of_pos (by simpa using hm)]
      refine List.pairwise_cons.2 ⟨?_, ih⟩
      intro n hn
      exact apart l hm n (List.mem_of_mem_filter hn) (by simpa using (List.mem_filter.1 hn).2)
    · rwa [passes, List.filter_cons_of_neg (by simpa using hm)]

theorem follows_of_mem (h : Record t history) (hm : m ∈ history) :
    ∃ earlier, m :: earlier <:+ history ∧ m.Follows t earlier := by
  obtain ⟨later, earlier, rfl⟩ := List.append_of_mem hm
  have hsuffix : m :: earlier <:+ later ++ m :: earlier := List.suffix_append _ _
  refine ⟨earlier, hsuffix, ?_⟩
  cases h.of_suffix hsuffix with
  | cons _ _ follows _ => exact follows

end Record

/-- There are at most `n` integers in ascending order among `n`. -/
theorem length_le_of_ascending (start : Int) {xs : List Int} {n : Nat} (h : xs.Pairwise (· < ·))
    (hxs : ∀ x ∈ xs, start ≤ x ∧ x < start + n) : xs.length ≤ n := by
  have hnodup : (xs.map fun x => (x - start).toNat).Nodup := by
    rw [List.Nodup, List.pairwise_map]
    refine h.imp_of_mem ?_
    intro x y hx hy hlt
    have hx := hxs x hx
    have hy := hxs y hy
    omega
  have hsubset : (xs.map fun x => (x - start).toNat) ⊆ List.range n := by
    intro k hk
    obtain ⟨x, hx, rfl⟩ := List.mem_map.1 hk
    have hx := hxs x hx
    rw [List.mem_range]
    omega
  have hlength := (List.subperm_of_subset hnodup hsubset).length_le
  rwa [List.length_map, List.length_range] at hlength

namespace Record

variable {t : Text} {history : List Moment}

/-- The first variable of an expression begins behind the brace, everything else ahead of some character. -/
theorem passes_bounded (h : Record t history) (l : Loop) : (passes l history).length ≤ t.length := by
  rw [← List.length_map Moment.position, ← List.length_reverse]
  refine length_le_of_ascending (if l = .variables then 1 else 0) ?_ ?_
  · exact List.pairwise_reverse.2 (List.pairwise_map.2 (h.separate l))
  · intro x hx
    obtain ⟨⟨e, i⟩, hm, rfl⟩ := List.mem_map.1 (List.mem_reverse.1 hx)
    obtain ⟨hm, hevent⟩ := List.mem_filter.1 hm
    obtain rfl : e = .begins l := by simpa using hevent
    obtain ⟨earlier, -, hfollows⟩ := h.follows_of_mem hm
    have hbegins : if l = .variables then 0 < i else i < t.length := hfollows.2
    have hreached : 0 ≤ i ∧ i ≤ standing history := h.reached _ hm
    have hwithin := h.within
    show _ ≤ i ∧ i < _
    by_cases hl : l = .variables
    · rw [if_pos hl] at hbegins ⊢
      omega
    · rw [if_neg hl] at hbegins ⊢
      omega

theorem orderly (h : Record t history) : Orderly t history.reverse := by
  have hfollows : ∀ m ∈ history.reverse, ∃ earlier, m.Follows t earlier := by
    intro m hm
    obtain ⟨earlier, -, hm⟩ := h.follows_of_mem (List.mem_reverse.1 hm)
    exact ⟨earlier, hm⟩
  refine ⟨?_, List.pairwise_reverse.2 h.descending, ?_, ?_, ?_, ?_, ?_, ?_, ?_⟩
  · intro m hm
    have hreached := h.reached m (List.mem_reverse.1 hm)
    exact ⟨hreached.1, Int.le_trans hreached.2 h.within.2⟩
  · intro l again start stop hm
    obtain ⟨earlier, hends⟩ := hfollows _ hm
    exact hends.forward
  · intro l
    rw [passes, List.filter_reverse]
    exact List.pairwise_reverse.2 (h.separate l)
  · intro l
    rw [passes, List.filter_reverse, List.length_reverse]
    exact h.passes_bounded l
  · intro i hm
    obtain ⟨earlier, hvariable⟩ := hfollows _ hm
    exact hvariable
  · intro u i hm
    obtain ⟨earlier, hcloses⟩ := hfollows _ hm
    exact hcloses
  · intro i hm
    obtain ⟨earlier, hbroken⟩ := hfollows _ hm
    exact hbroken
  · intro i j hm
    obtain ⟨earlier, hreads⟩ := hfollows _ hm
    exact hreads

theorem happens (h : Record t history) {earlier : List Moment} {m : Moment}
    (hm : HappensAfter history.reverse earlier m) :
    (m.event ≠ .moves → m.position = standing earlier) ∧ m.Follows t earlier := by
  rw [HappensAfter, List.reverse_reverse] at hm
  cases h.of_suffix hm with
  | cons _ stays follows _ => exact ⟨stays, follows⟩

theorem complete (h : Record t history) {result : Except ParseFailure (List Element)}
    (hresult : match result with
      | .ok _ => standing history = t.length ∧ underWay history = []
      | .error f => f.FoundAt t (standing history)) : Complete t result history.reverse where
  tracked _ _ hm := (h.happens hm).1
  moved _ _ hm := (h.happens hm).2
  nested _ _ _ hm := (h.happens hm).2.1
  finished _ _ _ _ _ hm := (h.happens hm).2
  arrived := by rwa [List.reverse_reverse]

end Record

end UriTemplate
