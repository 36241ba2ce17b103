import Mathlib.Data.List.Basic
import UriTemplate.Proofs.Faults
import UriTemplate.Proofs.Walks

/-!
# Reading variables with a cursor

A descent reads a variable as a reader does, and comes to the comma or the brace behind it.

* `Reader.readAll_not_hexPair`, `Reader.nameStep_end` — what a reader does where a descent has to decide;
* `Point.Grows`, `Point.Completes` — points of one element, up to the end of a variable;
* `Descends.percentTriplet`, `Descends.name`, `Descends.limit`, `Descends.reference` — one lemma for each part.
-/

namespace UriTemplate

/-! ## what readers do -/

/-- In a percent triplet, behind its first digit if `digit`. -/
def Place.InTriplet (digit : Bool) (place : Place) : Prop :=
  place = .triplet digit ∨ ∃ op before read, place = .reference op before (.triplet read digit)

namespace Reader

variable {s : Reader} {op : Operator} {before : List VariableReference} {c : CodePoint} {r : Text}

theorem readAll_nil (s : Reader) : s.readAll [] = s.finish := rfl

theorem readAll_of_step_error {f : ParseFailure} (h : s.step c = .error f) : s.readAll (c :: r) = .error f := by
  rw [readAll, run, List.foldlM_cons, h]
  rfl

theorem step_not_hex {digit : Bool} (h : s.place.InTriplet digit) (hc : c.isHexDigit = false) :
    s.step c = .error (s.tripletFault digit) := by
  rcases h with h | ⟨op, before, read, h⟩
  · simp [step, h, hc]
  · simp [step, h, referenceStep, hc]

theorem step_first_digit (h : s.place.InTriplet false) (hc : c.isHexDigit) :
    ∃ place : Place, place.InTriplet true ∧ s.step c = .ok (s.takeAll [c] place) := by
  rcases h with h | ⟨op, before, read, h⟩
  · exact ⟨.triplet true, .inl rfl, step_hex hc h⟩
  · exact ⟨_, .inr ⟨op, before, c :: read, rfl⟩, step_triplet_hex hc h⟩

theorem finish_triplet {digit : Bool} (h : s.place.InTriplet digit) : s.finish = .error (s.tripletFault digit) := by
  rcases h with h | ⟨op, before, read, h⟩
  · rw [finish, h]
  · rw [finish, h]

/-- Behind a percent sign without two digits ahead, nothing else is reported. -/
theorem readAll_not_hexPair (h : s.place.InTriplet false)
    (hr : ∀ c d u, r = c :: d :: u → c.isHexDigit = true → d.isHexDigit = false) :
    s.readAll r = .error (.malformed (.percent (s.offset - 1))) := by
  cases r with
  | nil => exact finish_triplet h
  | cons c r =>
    cases hc : c.isHexDigit with
    | false => exact readAll_of_step_error (step_not_hex h hc)
    | true =>
      obtain ⟨place, hplace, hstep⟩ := step_first_digit h hc
      have hfault : (s.takeAll [c] place).tripletFault true = .malformed (.percent (s.offset - 1)) := by
        simp only [tripletFault, takeAll_offset, List.length_singleton, if_true]
        congr 2
      rw [readAll_cons hstep, ← hfault]
      cases r with
      | nil => exact finish_triplet hplace
      | cons d u => exact readAll_of_step_error (step_not_hex hplace (hr c d u rfl hc))

theorem endsInUnit_reverse {n : Text} (hn : n ≠ []) (hlast : n.getLast? ≠ some ('.' : CodePoint)) :
    EndsInUnit n.reverse := by
  rcases List.eq_nil_or_concat n with rfl | ⟨m, c, rfl⟩
  · exact absurd rfl hn
  · refine ⟨c, m.reverse, by simp, ?_⟩
    rintro rfl
    exact hlast (by simp)

theorem nameStep_dot_fault {n : Text} (h : n = [] ∨ n.getLast? = some ('.' : CodePoint)) :
    s.nameStep op before n.reverse '.' = .error (.malformed (.dot s.offset)) := by
  unfold nameStep
  rw [if_neg (by decide), if_pos rfl, if_pos]
  rwa [List.reverse_eq_nil_iff, List.head?_reverse]

/-- What a reader says in a name at a character that ends it. -/
theorem nameStep_end (hc : c.isAny [',', '}', ':', '*'] = true) :
    s.nameStep op before [] c = .error (.malformed (.emptyName s.offset)) ∧
    ∀ read, s.nameStep op before ('.' :: read) c = .error (.malformed (.dot (s.offset - 1))) := by
  constructor
  · rw [nameStep, if_pos hc]
  · intro read
    rw [nameStep, if_pos hc]
    rfl

theorem finish_limit {n digits : Text} {i : Nat} (h : s.place = .reference op before (.limit n digits))
    (hlimit : readLimit digits.reverse (s.offset - digits.length) = .ok i) :
    s.finish = .error (.malformed .unterminated) := by
  rw [finish, h]
  simp only [hlimit]
  rfl

theorem step_limit {n digits : Text} {i : Nat} (h : s.place = .reference op before (.limit n digits))
    (hlimit : readLimit digits.reverse (s.offset - digits.length) = .ok i) (hc : c.isDigit = false) :
    s.step c = if ends c then .ok (s.complete op before { name := n, limit := some i } c)
      else .error (.malformed (.limitNotLast s.offset)) := by
  rw [step, h]
  simp only [referenceStep, hc, hlimit]
  rfl

theorem step_exploded {n : Text} (h : s.place = .reference op before (.exploded n)) :
    s.step c = if ends c then .ok (s.complete op before { name := n, explode := true } c)
      else .error (.malformed (.explodeNotLast s.offset)) := by
  rw [step, h]
  rfl

theorem step_opened_operator (h : s.place = .opened) (hop : Operator.ofChar? c = some op) :
    s.step c = .ok (s.takeAll [c] (.reference op [] (.name []))) := by
  rw [step, h]
  simp only [hop]
  rfl

theorem step_opened_simple (h : s.place = .opened) (hop : Operator.ofChar? c = none) :
    s.step c = s.nameStep .simple [] [] c := by
  rw [step, h]
  simp only [hop]

theorem readAll_congr {s' : Reader} (h : s.step c = s'.step c) : s.readAll (c :: r) = s'.readAll (c :: r) := by
  rw [readAll, readAll, run, run, List.foldlM_cons, List.foldlM_cons, h]

theorem nameStep_other (hend : c.isAny [',', '}', ':', '*'] = false) (hdot : c ≠ '.') (hpercent : c ≠ '%')
    (hname : c.isNameChar = false) (read : Text) :
    s.nameStep op before read c = .error (.malformed (.nameCharacter s.offset)) := by
  simp [nameStep, hend, hdot, hpercent, hname]

end Reader

/-! ## points of one element -/

namespace Point

variable {t u v r : Text} {p q : Point} {c : CodePoint} {l : Loop}

theorem Fits.fails_of_step {f : ParseFailure} (h : p.Fits t) (hrest : p.rest = c :: r)
    (hstep : p.reader.step c = .error f) (hfound : f.FoundAt t p.behind.length) : p.Fails t f where
  fault := by
    rw [← h.reads, hrest]
    exact Reader.readAll_of_step_error hstep
  found := hfound

theorem Fits.fails_at_end (h : p.Fits t) (hrest : p.rest = [])
    (hfinish : p.reader.finish = .error (.malformed .unterminated)) : p.Fails t (.malformed .unterminated) where
  fault := by
    rw [← h.reads, hrest]
    exact hfinish
  found := by
    rw [ParseFailure.FoundAt, ← h.text, hrest, List.append_nil]
    exact Int.le_refl _

/-- From `q` on, `u` has been read of the same element and in the same passes. -/
structure Grows (q : Point) (u : Text) (place : Place) (p : Point) : Prop where
  before : p.before = q.before
  current : p.current = q.current ++ u
  elements : p.elements = q.elements
  place : p.place = place
  passes : p.passes = q.passes

variable {place place' : Place}

theorem Grows.refl (h : p.place = place) : p.Grows [] place p := ⟨rfl, (List.append_nil _).symm, rfl, h, rfl⟩

theorem Grows.behind (h : q.Grows u place p) : p.behind = q.behind ++ u := by
  rw [Point.behind, h.before, h.current, ← List.append_assoc]
  rfl

theorem Grows.length_behind (h : q.Grows u place p) : p.behind.length = q.behind.length + u.length := by
  rw [h.behind, List.length_append]

theorem Grows.getLast?_behind (h : q.Grows u place p) (hu : u ≠ []) : p.behind.getLast? = u.getLast? := by
  rw [h.behind, List.getLast?_append_of_ne_nil _ hu]

theorem Grows.within (h : q.Grows u place p) (hq : q.Within l v) : p.Within l (v ++ u) := by
  obtain ⟨b, outside, hpasses, hbehind⟩ := hq
  exact ⟨b, outside, h.passes.trans hpasses, by rw [h.behind, hbehind, List.append_assoc]⟩

theorem Grows.self (h : q.Grows u place p) : q.Grows u p.place p := ⟨h.before, h.current, h.elements, rfl, h.passes⟩

theorem Grows.note (h : q.Grows u place p) (e : Event) : q.Grows u place (p.note e) :=
  ⟨h.before, h.current, h.elements, h.place, h.passes⟩

theorem Grows.take (h : q.Grows u place p) (v r : Text) (place' : Place) :
    q.Grows (u ++ v) place' (p.take v r place') where
  before := h.before
  current := by
    show p.current ++ v = _
    rw [h.current, List.append_assoc]
  elements := h.elements
  place := rfl
  passes := h.passes

theorem Grows.trans (h : q.Grows u place p) {p' : Point} (h' : p.Grows v place' p') : q.Grows (u ++ v) place' p' where
  before := h'.before.trans h.before
  current := by rw [h'.current, h.current, List.append_assoc]
  elements := h'.elements.trans h.elements
  place := h'.place
  passes := h'.passes.trans h.passes

/-- What has been read in a pass has been read when the pass is over. -/
theorem Grows.pass (h : q.Grows u place p) {p' : Point} (h' : (p.enter l).Grows v place' p') :
    q.Grows (u ++ v) place' p'.leave where
  before := h'.before.trans h.before
  current := by
    show p'.current = _
    rw [h'.current, ← List.append_assoc, ← h.current]
    rfl
  elements := h'.elements.trans h.elements
  place := h'.place
  passes := by
    show p'.passes.tail = _
    rw [h'.passes]
    exact h.passes

/-- Since `q`, the variable `v` has been read, and there is a comma or a brace behind it. -/
def Completes (q : Point) (op : Operator) (before : List VariableReference) (v : VariableReference) (p : Point) :
    Prop :=
  ∃ (s : VariableSpec) (c : CodePoint) (r : Text), q.Grows s.text p.place p ∧ p.rest = c :: r ∧ (c = ',' ∨ c = '}') ∧
    p.reader.step c = .ok (p.reader.complete op before v c)

theorem grows_take (u r : Text) (place : Place) : p.Grows u place (p.take u r place) := ⟨rfl, rfl, rfl, rfl, rfl⟩

end Point

/-! ## triplets and names -/

namespace Descends

variable {t : Text} {p q : Point} {b r : Text} {n : PartialName} {c : CodePoint} {op : Operator}
  {before : List VariableReference}

theorem percentTriplet {l : Loop} {first : Place} {last : CodePoint → CodePoint → Place}
    (hrest : p.rest = ('%' : CodePoint) :: r) (hpass : p.Within l []) (hmoves : l.Moves [] [('%' : CodePoint)])
    (hdigits : ∀ x : Triplet, l.Moves [('%' : CodePoint)] [x.first, x.second]) (hfirst : first.InTriplet false)
    (hopen : p.reader.step '%' = .ok (p.reader.takeAll ['%'] first))
    (hlast : ∀ s : Reader, s.place = first → ∀ c d : CodePoint, c.isHexDigit → d.isHexDigit →
      s.run [c, d] = .ok (s.takeAll [c, d] (last c d))) :
    Descends t Descent.percentTriplet p.look fun _ p' =>
      ∃ (x : Triplet) (r' : Text), p' = p.take x.text r' (last x.first x.second) := by
  have hgo := Point.goes_take hrest hopen hpass hmoves
  refine Leads.position.bind ((Leads.advance (hgo.note _)).bind ?_)
  by_cases hpair : ∃ c d r', r = c :: d :: r' ∧ c.isHexDigit = true ∧ d.isHexDigit = true
  · obtain ⟨c, d, r', rfl, hc, hd⟩ := hpair
    have hdigits : (p.take ['%'] (c :: d :: r') first).Goes [c, d] (p.take ['%', c, d] r' (last c d)) := by
      refine ⟨by simp, rfl, ?_, ⟨l, _, hpass.take _ _ _, hdigits ⟨c, d, hc, hd⟩⟩, rfl, List.nil_subset _⟩
      rw [Point.take_reader, hlast _ rfl c d hc hd, Reader.takeAll_takeAll, Point.take_reader]
      rfl
    exact (Leads.acceptHexPair hdigits hc hd).bind (pure ⟨⟨c, d, hc, hd⟩, r', rfl⟩)
  · have hnot : ∀ c d u, r = c :: d :: u → c.isHexDigit = true → d.isHexDigit = false := by
      intro c d u hr hc
      cases hd : d.isHexDigit with
      | false => rfl
      | true => exact absurd ⟨c, d, u, hr, hc, hd⟩ hpair
    refine of_fits fun hp => (Leads.not_acceptHexPair hnot).bind (fail ⟨?_, ?_⟩)
    · rw [← hp.reads, Point.take_reader, Int.toNat_natCast]
      exact Reader.readAll_not_hexPair hfirst hnot
    · refine ParseFailure.foundAt_of_offset rfl ?_
      rw [Int.toNat_natCast, Point.take_behind, List.length_append]
      exact Int.ofNat_le.2 (Nat.le_add_right _ _)

/-- The place in a name of which `n` has been read. -/
abbrev inName (op : Operator) (before : List VariableReference) (n : Text) : Place :=
  .reference op before (.name n.reverse)

theorem nameDot (hplace : p.place = inName op before n.text) (hbehind : p.behind = b ++ n.text)
    (hrest : p.rest = ('.' : CodePoint) :: r) (hpass : p.Within .name []) :
    Descends t (Descent.nameDot b.length) p.look fun _ p' =>
      ∃ m : Name, n = .units m false ∧ p' = p.take ['.'] r (inName op before (n.text ++ [('.' : CodePoint)])) := by
  refine of_fits fun hp => Leads.position.bind ?_
  have hstep : p.reader.step '.' = p.reader.nameStep op before n.text.reverse '.' := Reader.step_name hplace _
  have hlength : p.look.behind.length = b.length + n.text.length := by
    rw [← List.length_append, ← hbehind]
    rfl
  have hfail : n.text = [] ∨ n.text.getLast? = some ('.' : CodePoint) →
      p.look.Fails t (.malformed (.dot (p.look.behind.length : Int).toNat)) := by
    intro h
    exact hp.fails_of_step hrest (hstep.trans (Reader.nameStep_dot_fault h))
      (ParseFailure.foundAt_of_offset rfl (Int.le_refl _))
  by_cases hn : n.text = []
  · have hstart : (p.look.behind.length : Int) = b.length := by rw [hlength, hn]; rfl
    rw [if_pos hstart]
    exact fail (hfail (.inl hn))
  · have hpositive := List.length_pos_iff.2 hn
    have hlast : p.look.behind.getLast? = n.text.getLast? := by
      rw [← List.getLast?_append_of_ne_nil b hn, ← hbehind]
      rfl
    rw [if_neg (by omega)]
    refine Leads.previous.bind (failIf ?_ ?_)
    · intro hdot
      rw [hlast] at hdot
      exact hfail (.inr (of_decide_eq_true hdot))
    · intro hdot
      rw [hlast] at hdot
      have hunit := Reader.endsInUnit_reverse hn (of_decide_eq_false hdot)
      obtain ⟨m, hm⟩ := PartialName.eq_units_of_endsInUnit hunit
      rw [Reader.nameStep_dot _ hunit] at hstep
      refine (Leads.advance ((Point.goes_take hrest hstep hpass (.unit _)).note _)).bind (pure ⟨m, hm, ?_⟩)
      rw [inName, List.reverse_append]
      rfl

/-- One pass over a name: it grows, or it has come to its end. -/
theorem nameUnit (hplace : p.place = inName op before n.text) (hbehind : p.behind = b ++ n.text)
    (hrest : p.rest = c :: r) (hpass : p.Within .name []) :
    Descends t (Descent.nameUnit b.length) p fun again p' =>
      if again then ∃ (m : PartialName) (u : Text), m.text = n.text ++ u ∧ Loop.Covers .name true u ∧
        p.Grows u (inName op before m.text) p' ∧ p'.busy = []
      else p' = p ∧ c.isAny [',', '}', ':', '*'] = true := by
  have hstep : p.reader.step c = p.reader.nameStep op before n.text.reverse c := Reader.step_name hplace _
  refine of_fits fun hp => (Leads.current_cons hrest).bind ?_
  simp only [Option.all_some, Option.any_some, Option.some.injEq]
  cases hend : c.isAny [',', '}', ':', '*'] with
  | true => exact forget (pure ⟨rfl, rfl⟩)
  | false =>
    rw [if_neg (by simp)]
    by_cases hdot : c = '.'
    · rw [if_pos hdot]
      subst hdot
      refine (nameDot hplace hbehind hrest hpass).bind ?_
      rintro _ _ ⟨m, rfl, rfl⟩
      rw [PartialName.text_units_false, ← PartialName.text_units_true]
      exact pure ⟨.units m true, _, PartialName.text_units_true m, .dot, Point.grows_take _ _ _, rfl⟩
    rw [if_neg hdot]
    by_cases hpercent : c = '%'
    · rw [if_pos hpercent]
      subst hpercent
      rw [Reader.nameStep_percent] at hstep
      have hlast : ∀ s : Reader, s.place = .reference op before (.triplet ('%' :: n.text.reverse) false) →
          ∀ c d : CodePoint, c.isHexDigit → d.isHexDigit →
            s.run [c, d] = .ok (s.takeAll [c, d] (inName op before (n.text ++ [('%' : CodePoint), c, d]))) := by
        intro s hs c d hc hd
        rw [Reader.run_cons (Reader.step_triplet_hex hc hs), Reader.run_cons (Reader.step_triplet_hex hd rfl)]
        simp [inName]
      refine (percentTriplet hrest hpass (.unit _) .unitDigits (.inr ⟨_, _, _, rfl⟩) hstep hlast).bind ?_
      rintro _ _ ⟨x, r', rfl⟩
      have htext : (PartialName.units (n.push (.triplet x)) false).text = n.text ++ x.text := by
        rw [PartialName.text_units_false, PartialName.text_push]
        rfl
      refine pure ⟨_, _, htext, .unit (.triplet x), ?_, rfl⟩
      rw [htext]
      exact Point.grows_take _ _ _
    rw [if_neg hpercent]
    by_cases hname : c.isNameChar = true
    · rw [if_pos hname]
      rw [Reader.nameStep_nameChar _ hname] at hstep
      have htext : (PartialName.units (n.push (.char c hname)) false).text = n.text ++ [c] := by
        rw [PartialName.text_units_false, PartialName.text_push]
        rfl
      refine (Leads.advance ((Point.goes_take hrest hstep hpass (.unit c)).note _)).bind ?_
      refine pure ⟨_, _, htext, .unit (.char c hname), ?_, rfl⟩
      rw [htext, inName, List.reverse_append]
      exact Point.grows_take _ _ _
    · rw [if_neg hname]
      rw [Reader.nameStep_other hend hdot hpercent (Bool.eq_false_iff.2 hname)] at hstep
      have hfails := hp.fails_of_step hrest hstep (ParseFailure.foundAt_of_offset rfl (Int.le_refl _))
      exact forget (Leads.position.bind (fail hfails))

/-- The name that has been read so far grows with every pass. -/
theorem nameUnits (hplace : q.place = inName op before []) (hbusy : .name ∉ q.busy) (hpass : q.Within .variables []) :
    Descends t (Descent.nameUnits q.behind.length) q fun _ p' => ∃ n : PartialName,
      q.Grows n.text (inName op before n.text) p' ∧
        (p'.rest = [] ∨ ∃ c r, p'.rest = c :: r ∧ c.isAny [',', '}', ':', '*'] = true) := by
  refine loop (fun _ p => .name ∉ p.busy ∧ ∃ n : PartialName, q.Grows n.text (inName op before n.text) p) ?_
    ⟨hbusy, .empty, Point.Grows.refl hplace⟩
  rintro _ p hp ⟨hfree, n, hn⟩
  refine ⟨!p.rest.isEmpty, p, Leads.atEnd.trans Leads.pure, rfl, ?_, ?_⟩
  · intro hend
    exact ⟨n, hn, .inl (by simpa using hend)⟩
  · intro hgo
    have hne : p.rest ≠ [] := by simpa using hgo
    obtain ⟨c, r, hrest⟩ := List.exists_cons_of_ne_nil hne
    refine ⟨hfree, (hn.within hpass).loop, hp.length_behind_lt hne, ?_⟩
    refine (nameUnit (p := p.enter .name) hn.place hn.behind hrest Point.within_enter).bind ?_
    rintro again p' hunit
    cases again with
    | true =>
      obtain ⟨m, u, htext, hcovers, hgrows, hnone⟩ := hunit
      refine pure ⟨⟨?_, m, ?_⟩, ⟨u, hgrows.behind, hcovers⟩, hgrows.passes, nofun, nofun, nofun⟩
      · show .name ∉ p'.busy
        rw [hnone]
        exact List.not_mem_nil
      · have hgrows := hn.pass hgrows
        rwa [← htext] at hgrows
    | false =>
      obtain ⟨rfl, hc⟩ := hunit
      refine pure ⟨⟨n, ?_, .inr ⟨c, r, hrest, hc⟩⟩, ⟨[], (List.append_nil _).symm, .nothing⟩, rfl, ?_, nofun, nofun⟩
      · exact ⟨hn.before, hn.current, hn.elements, hn.place, hn.passes⟩
      · intro _ _
        exact ⟨c, hp.getElem? hrest, hc⟩

/-- A name that has been read is not empty and does not end in a dot, and something ends it. -/
theorem name (hplace : q.place = inName op before []) (hbusy : .name ∉ q.busy) (hpass : q.Within .variables []) :
    Descends t Descent.name q fun n p' => ∃ m : Name, n = m.text ∧ q.Grows m.text (inName op before m.text) p' ∧
      ∃ c r, p'.rest = c :: r ∧ c.isAny [',', '}', ':', '*'] = true := by
  refine Leads.position.bind ((nameUnits hplace hbusy hpass).bind ?_)
  rintro _ p ⟨n, hn, hnext⟩
  refine of_fits fun hp => Leads.atEnd.bind (failIf ?_ ?_)
  · intro hend
    have hfinish : p.reader.finish = .error (.malformed .unterminated) := by
      rw [Reader.finish, Point.reader_place, hn.place]
    exact hp.fails_at_end (by simpa using hend) hfinish
  intro hend
  have hne : p.rest ≠ [] := by simpa using hend
  obtain ⟨c, r, hrest, hc⟩ := hnext.resolve_left hne
  have hstep : p.reader.step c = p.reader.nameStep op before n.text.reverse c := Reader.step_name hn.place _
  have hlength := hn.length_behind
  refine Leads.position.bind (failIf ?_ ?_)
  · intro hstart
    have hstart := of_decide_eq_true hstart
    have hempty : n.text = [] := List.length_eq_zero_iff.1 (by omega)
    rw [hempty] at hstep
    exact hp.fails_of_step hrest (hstep.trans (Reader.nameStep_end hc).1)
      (ParseFailure.foundAt_of_offset rfl (Int.le_refl _))
  intro hstart
  have hne : n.text ≠ [] := by
    intro hempty
    exact of_decide_eq_false hstart (by rw [hlength, hempty]; rfl)
  have hlast := hn.getLast?_behind hne
  refine Leads.previous.bind (failIf ?_ ?_)
  · intro hdot
    rw [hlast] at hdot
    obtain ⟨m, hm⟩ := List.getLast?_eq_some_iff.1 (of_decide_eq_true hdot)
    rw [hm, List.reverse_append] at hstep
    have hoffset : ((p.behind.length : Int) - 1).toNat = p.behind.length - 1 := by omega
    rw [hoffset]
    refine hp.fails_of_step hrest (hstep.trans ((Reader.nameStep_end hc).2 _)) ?_
    exact ParseFailure.foundAt_of_offset rfl (Int.ofNat_le.2 (Nat.sub_le _ _))
  · intro hdot
    rw [hlast] at hdot
    obtain ⟨m, rfl⟩ := PartialName.eq_units_of_endsInUnit (Reader.endsInUnit_reverse hne (of_decide_eq_false hdot))
    rw [PartialName.text_units_false] at hn
    exact (Leads.slice hn.behind).bind (pure ⟨m, rfl, hn, c, r, hrest, hc⟩)

/-! ## limits -/

/-- The place in a limit of which `digits` have been read. -/
abbrev inLimit (op : Operator) (before : List VariableReference) (n digits : Text) : Place :=
  .reference op before (.limit n digits.reverse)

variable {m k : Text}

/-- One pass over the digits. -/
theorem digit (hplace : p.place = inLimit op before m k) (hrest : p.rest = c :: r) (hc : c.isDigit)
    (hpass : p.Within .digits []) :
    Leads t (Descent.move fun d => ((.inl () : Unit ⊕ Unit), d.seek (d.position + 1))) p.look (.inl ())
      (p.take [c] r (inLimit op before m (k ++ [c]))) := by
  have hstep := Reader.step_digit hc (s := p.reader) hplace
  have hnext : inLimit op before m (k ++ [c]) = .reference op before (.limit m (c :: k.reverse)) := by
    rw [inLimit, List.reverse_append]
    rfl
  rw [hnext]
  refine Leads.move ((Point.goes_take hrest hstep hpass (.digit hc)).note _) Leads.read_look ?_
  show _ = (_, Cursor.between (p.take [c] r _).behind r)
  rw [Point.take_behind]
  show (_, (Cursor.between p.behind p.rest).seek _) = _
  rw [hrest]
  exact Prod.ext rfl (Cursor.seek_between _ _ [c] rfl)

theorem digits (hplace : q.place = inLimit op before m []) (hbusy : .digits ∉ q.busy) {v : Text}
    (hpass : q.Within .variables v) :
    Descends t Descent.digits q fun _ p' => ∃ k, q.Grows k (inLimit op before m k) p' ∧ (∀ c ∈ k, c.isDigit) ∧
      ∀ c ∈ p'.rest.head?, c.isDigit = false := by
  refine loop (fun _ p => .digits ∉ p.busy ∧ ∃ k, q.Grows k (inLimit op before m k) p ∧ ∀ c ∈ k, c.isDigit) ?_
    ⟨hbusy, [], Point.Grows.refl hplace, by simp⟩
  rintro _ p hp ⟨hfree, k, hk, hdigits⟩
  cases hrest : p.rest with
  | nil =>
    have hatEnd := Leads.atEnd (t := t) (p := p)
    rw [hrest] at hatEnd
    exact ⟨false, p, hatEnd.trans Leads.pure, rfl, fun _ => ⟨k, hk, hdigits, by simp [hrest]⟩, by simp⟩
  | cons c r =>
    refine ⟨c.isDigit, p.look, (Leads.not_atEnd hrest).trans ((Leads.current_cons hrest).trans Leads.pure), rfl, ?_, ?_⟩
    · intro hc
      refine ⟨k, hk.note _, hdigits, ?_⟩
      show ∀ d ∈ p.rest.head?, d.isDigit = false
      simp [hrest, hc]
    · intro hc
      refine ⟨hfree, (hk.within hpass).loop, hp.length_behind_lt (by simp [hrest]), ?_⟩
      have hplace : (p.enter .digits).place = inLimit op before m k := hk.place
      refine (digit (p := p.enter .digits) hplace hrest hc Point.within_enter).mono ?_
      rintro _ _ ⟨rfl, rfl⟩
      refine ⟨⟨by simp [Point.take, Point.leave], k ++ [c], ?_, ?_⟩,
        ⟨[c], Point.take_behind _ _ _ _, .digit hc⟩, rfl, nofun, nofun, nofun⟩
      · exact hk.pass (Point.grows_take _ _ _)
      · intro d hd
        rcases List.mem_append.1 hd with hd | hd
        · exact hdigits d hd
        · rwa [List.mem_singleton.1 hd]

theorem takeDigits (hplace : q.place = inLimit op before m []) (hbusy : .digits ∉ q.busy) {v : Text}
    (hpass : q.Within .variables v) :
    Descends t Descent.takeDigits q fun k p' => q.Grows k (inLimit op before m k) p' ∧ (∀ c ∈ k, c.isDigit) ∧
      ∀ c ∈ p'.rest.head?, c.isDigit = false := by
  refine Leads.position.bind ((digits hplace hbusy hpass).bind ?_)
  rintro _ p ⟨k, hk, hdigits⟩
  exact Leads.position.bind ((Leads.slice hk.behind).bind (pure ⟨hk, hdigits⟩))

/-- Digits that make no limit are found where they begin, and too many of them behind the last one. -/
theorem readLimit_foundAt {start : Nat} {f : ParseFailure} (h : readLimit k start = .error f) {position : Nat}
    (hposition : position = start + k.length) (hdigits : ∀ c ∈ k, c.isDigit)
    (hpart : Cursor.part t start position = k) : f.FoundAt t position := by
  have hstart : (start : Int) ≤ position := by omega
  unfold readLimit at h
  split at h
  · cases h
    exact ParseFailure.foundAt_of_offset rfl hstart
  split at h
  · cases h
    have hbegin : (position : Int) - k.length = start := by omega
    exact ⟨k, rfl, hdigits, by rw [hbegin, hpart]⟩
  split at h
  · cases h
    exact ParseFailure.foundAt_of_offset rfl hstart
  split at h
  · cases h
    exact ParseFailure.foundAt_of_offset rfl hstart
  · cases h

theorem limit (hplace : q.place = inLimit op before m []) (hbusy : .digits ∉ q.busy) {v : Text}
    (hpass : q.Within .variables v) :
    Descends t Descent.limit q fun i p' => ∃ l : Limit, q.Grows l.digits (inLimit op before m l.digits) p' ∧
      (∀ c ∈ p'.rest.head?, c.isDigit = false) ∧
      readLimit l.digits.reverse.reverse (p'.reader.offset - l.digits.reverse.length) = .ok i := by
  refine Leads.position.bind ((takeDigits hplace hbusy hpass).bind ?_)
  rintro k p ⟨hk, hdigits, hhead⟩
  have hlimit : readLimit k.reverse.reverse (p.reader.offset - k.reverse.length) = readLimit k q.behind.length := by
    rw [Point.reader_offset, hk.behind, List.length_append, List.length_reverse, Nat.add_sub_cancel,
      List.reverse_reverse]
  rw [Int.toNat_natCast]
  cases hread : readLimit k q.behind.length with
  | ok i =>
    obtain ⟨l, rfl⟩ := exists_limit hdigits hread
    exact pure ⟨l, hk, hhead, hlimit.trans hread⟩
  | error f =>
    refine of_fits fun hp => throw ⟨?_, ?_⟩
    · rw [← hp.reads]
      exact Reader.readAll_limit hk.place hhead (hlimit.trans hread)
    · exact readLimit_foundAt hread hk.length_behind hdigits (hp.part hk.behind)

/-! ## variables -/

theorem expectEnd {e : Nat → ParseError} (he : ∀ n, (e n).offset = some n)
    (hend : p.reader.finish = .error (.malformed .unterminated))
    (hnot : ∀ c r, p.rest = c :: r → Reader.ends c = false →
      p.reader.step c = .error (.malformed (e p.behind.length))) :
    Descends t (Descent.expectEnd e) p fun _ p' => p' = p ∧ ∃ c r, p.rest = c :: r ∧ Reader.ends c = true := by
  refine of_fits fun hp => Leads.atEnd.bind (failIf ?_ ?_)
  · intro hempty
    exact hp.fails_at_end (by simpa using hempty) hend
  intro hempty
  obtain ⟨c, r, hrest⟩ := List.exists_cons_of_ne_nil (by simpa using hempty : p.rest ≠ [])
  refine (Leads.current_cons hrest).bind (forget (Leads.position.bind ((check ?_).mono ?_)))
  · intro hc
    exact hp.fails_of_step hrest (hnot c r hrest (by simpa using hc))
      (ParseFailure.foundAt_of_offset (he _) (Int.le_refl _))
  · rintro _ _ ⟨rfl, hc⟩
    exact ⟨rfl, c, r, hrest, by simpa using hc⟩

variable {x : Name}

theorem modifiedLimit (h : q.Grows x.text (inName op before x.text) p) (hpass : q.Within .variables [])
    (hrest : p.rest = (':' : CodePoint) :: r) :
    Descends t (Descent.modified x.text) p fun v p' => q.Completes op before v p' := by
  have hstep := Reader.step_unit_end (s := p.reader) (Reader.endsInUnit_name x) h.place (.inr (.inr (.inl rfl)))
  rw [List.reverse_reverse, if_pos rfl] at hstep
  have hwithin : p.Within .variables x.text := h.within hpass
  have hgo := Point.goes_take hrest hstep hwithin (.modifier x (.inl rfl))
  refine (Leads.accept (hgo.note _) (by decide)).bind ?_
  have hlimit := limit (t := t) (q := p.take [':'] r (inLimit op before x.text [])) rfl (by simp [Point.take])
    (hwithin.take _ _ _)
  refine hlimit.bind ?_
  rintro i p' ⟨l, hl, hhead, hread⟩
  have hdigit : ∀ c r, p'.rest = c :: r → c.isDigit = false := by
    intro c r hrest'
    exact hhead c (by rw [hrest', List.head?_cons, Option.mem_some_iff])
  refine (expectEnd (fun _ => rfl) (Reader.finish_limit hl.place hread) ?_).bind ?_
  · intro c r hrest' hc
    rw [Reader.step_limit hl.place hread (hdigit c r hrest'), hc]
    rfl
  · rintro _ _ ⟨rfl, c, r', hrest', hc⟩
    have hgrows := (h.take [':'] r (inLimit op before x.text [])).trans hl
    refine pure ⟨⟨x, .limit l⟩, c, r', ?_, hrest', Reader.ends_iff.1 hc, ?_⟩
    · rw [List.append_assoc] at hgrows
      exact hgrows.self
    · rw [Reader.step_limit hl.place hread (hdigit c r' hrest'), if_pos hc]

theorem modifiedExplode (h : q.Grows x.text (inName op before x.text) p) (hpass : q.Within .variables [])
    (hrest : p.rest = ('*' : CodePoint) :: r) :
    Descends t (Descent.modified x.text) p fun v p' => q.Completes op before v p' := by
  have hstep := Reader.step_unit_end (s := p.reader) (Reader.endsInUnit_name x) h.place (.inr (.inr (.inr rfl)))
  rw [List.reverse_reverse, if_neg (by decide), if_pos rfl] at hstep
  have hgo := Point.goes_take hrest hstep (h.within hpass) (.modifier x (.inr rfl))
  refine (Leads.not_accept hrest (by decide)).bind (forget ?_)
  refine (Leads.accept (hgo.note _) (by decide)).bind ((expectEnd (fun _ => rfl) rfl ?_).bind ?_)
  · intro c r' _ hc
    rw [Reader.step_exploded rfl, hc]
    rfl
  · rintro _ _ ⟨rfl, c, r', hrest', hc⟩
    refine pure ⟨⟨x, .explode⟩, c, r', (h.take ['*'] r (.reference op before (.exploded x.text))), hrest',
      Reader.ends_iff.1 hc, ?_⟩
    rw [Reader.step_exploded rfl, if_pos hc]

theorem unmodified (h : q.Grows x.text (inName op before x.text) p) (hrest : p.rest = c :: r)
    (hc : c = ',' ∨ c = '}') : Descends t (Descent.modified x.text) p fun v p' => q.Completes op before v p' := by
  have hstep := Reader.step_unit_end (s := p.reader) (Reader.endsInUnit_name x) h.place (hc.imp_right .inl)
  have hcolon : c ∉ (":" : Text) := by rcases hc with rfl | rfl <;> decide
  have hstar : c ∉ ("*" : Text) := by rcases hc with rfl | rfl <;> decide
  rw [List.reverse_reverse, if_neg (by rcases hc with rfl | rfl <;> decide),
    if_neg (by rcases hc with rfl | rfl <;> decide)] at hstep
  refine (Leads.not_accept hrest hcolon).bind (forget ((Leads.not_accept hrest hstar).bind (forget ?_)))
  refine (Leads.not_atEnd hrest).bind (pure ⟨⟨x, .none⟩, c, r, ?_, hrest, hc, hstep⟩)
  rw [VariableSpec.text, Modifier.text, List.append_nil]
  exact h.self

/-- The modifier behind a name, if there is one, and what ends the variable. -/
theorem modified (h : q.Grows x.text (inName op before x.text) p) (hpass : q.Within .variables [])
    (hrest : p.rest = c :: r) (hc : c.isAny [',', '}', ':', '*'] = true) :
    Descends t (Descent.modified x.text) p fun v p' => q.Completes op before v p' := by
  have hcases : c = ',' ∨ c = '}' ∨ c = ':' ∨ c = '*' := by simpa using hc
  rcases hcases with hcomma | hbrace | rfl | rfl
  · exact unmodified h hrest (.inl hcomma)
  · exact unmodified h hrest (.inr hbrace)
  · exact modifiedLimit h hpass hrest
  · exact modifiedExplode h hpass hrest

theorem reference (hplace : p.place = inName op before []) (hbusy : .name ∉ p.busy) (hpass : p.Within .variables []) :
    Descends t Descent.reference p fun v p' =>
      p.Completes op before v p' ∧ ⟨.passesVariable, p'.behind.length⟩ ∈ p'.noted := by
  refine (name hplace hbusy hpass).bind ?_
  rintro _ p' ⟨x, rfl, hgrows, c, r, hrest, hc⟩
  refine (modified hgrows hpass hrest hc).bind ?_
  rintro v p'' ⟨s, c, r, hgrows', hrest', hc', hstep⟩
  refine of_fits fun hp => ?_
  refine (Leads.note (e := .passesVariable) rfl fun _ => ⟨c, hp.getElem? hrest', hc'⟩).bind (pure ⟨?_, ?_⟩)
  · exact ⟨s, c, r, hgrows'.note _, hrest', hc', hstep⟩
  · exact List.mem_cons_self

end Descends

end UriTemplate
