import UriTemplate.Proofs.Reading
import UriTemplate.Proofs.Records
import UriTemplate.Proofs.Unambiguous

/-!
# Walks

What a descent may do from where it stands, said without its record: the record stays in order by itself.

* `Cursor.between` — a cursor by what lies behind it and ahead of it;
* `Walk.Sound` — the record is one, and tells where the cursor stands;
* `Point`, `Walk.At` — where a descent stands, together with a reader that has come as far;
* `Descends` — a computation ends, with a result or with the fault of the text, and leaves a sound walk;
* `Descends.bind`, `Descends.pass`, `Descends.loop` — how computations are put together; a loop ends since its passes
  move on;
* `Leads.current_cons`, `Leads.advance`, `Leads.accept` — what reads a character and what moves the cursor.
-/

namespace UriTemplate

/-! ## cursors -/

namespace Cursor

/-- The cursor behind the first and ahead of the second text. -/
def between (behind rest : Text) : Cursor := ⟨behind ++ rest, behind.length⟩

variable (behind rest : Text)

theorem at?_between (n : Nat) : (between behind rest).at? (behind.length + n) = rest[n]? := by
  unfold at? between
  rw [if_neg (by omega)]
  have hindex : ((behind.length : Int) + n).toNat = behind.length + n := by omega
  simp only [hindex]
  rw [List.getElem?_append_right (by omega), Nat.add_sub_cancel_left]

@[simp] theorem current_between : (between behind rest).current = rest.head? := by
  have h := at?_between behind rest 0
  rwa [Int.natCast_zero, Int.add_zero, ← List.head?_eq_getElem?] at h

@[simp] theorem peek_between : (between behind rest).peek 1 = rest[1]? := at?_between behind rest 1

@[simp] theorem previous_between : (between behind rest).previous = behind.getLast? := by
  rcases List.eq_nil_or_concat behind with rfl | ⟨b, c, rfl⟩
  · rfl
  · have h := at?_between b (c :: rest) 0
    have htext : between (b ++ [c]) rest = (between b (c :: rest)).seek ((b ++ [c]).length) := by
      simp [between, seek]
    have hlength : (b ++ [c]).length = b.length + 1 := List.length_append
    have hposition : ((b ++ [c]).length : Int) ≠ 0 := by omega
    have hindex : ((b ++ [c]).length : Int) - 1 = (b.length : Int) + (0 : Nat) := by omega
    rw [List.concat_eq_append, htext]
    show (if ((b ++ [c]).length : Int) = 0 then none
      else (between b (c :: rest)).at? (((b ++ [c]).length : Int) - 1)) = (b ++ [c]).getLast?
    rw [if_neg hposition, hindex, h]
    simp

@[simp] theorem isAtEnd_between : (between behind rest).isAtEnd = rest.isEmpty := by
  cases rest with
  | nil => simp [isAtEnd, between]
  | cons c rest =>
    simp only [isAtEnd, between, List.isEmpty_cons, decide_eq_false_iff_not, List.length_append, List.length_cons]
    omega

/-- Moving behind the beginning `u` of what is ahead. -/
theorem seek_between (u : Text) {position : Int} (h : position = behind.length + u.length) :
    (between behind (u ++ rest)).seek position = between (behind ++ u) rest := by
  simp [between, seek, h]

theorem slice_between (u : Text) : (between (behind ++ u) rest).slice behind.length (behind ++ u).length = u := by
  have hstart : ¬ ((behind.length : Int) < 0) := by omega
  have hstop : ¬ (((behind ++ u).length : Int) < 0) := by omega
  simp only [slice, part, between, if_neg hstart, if_neg hstop, Int.toNat_natCast, List.take_left, List.drop_left]

theorem advance_between (c : CodePoint) :
    (between behind (c :: rest)).advance 1 = ([c], between (behind ++ [c]) rest) := by
  have hstop : min ((between behind (c :: rest)).position + 1) (between behind (c :: rest)).text.length =
      ((behind ++ [c]).length : Int) := by
    simp only [between, List.length_append, List.length_cons, List.length_nil]
    omega
  have hslice : (between behind (c :: rest)).slice behind.length (behind ++ [c]).length = [c] := by
    have h := slice_between behind rest [c]
    rwa [between, List.append_assoc] at h
  rw [advance]
  simp only [hstop]
  exact Prod.ext hslice (seek_between behind rest [c] (by rw [List.length_append, Int.natCast_add]))

end Cursor

/-! ## walks -/

/-- Nothing is noted that may not happen, and the record tells where the cursor stands. -/
structure Walk.Sound (t : Text) (w : Walk) : Prop where
  record : Record t w.history
  stands : standing w.history = w.cursor.position

/-! ## points -/

/-- Where a descent stands: behind `before` and the part `current` of an element, with `elements` completed. -/
structure Point where
  before : Text
  current : Text
  rest : Text
  elements : List Element
  place : Place
  /-- The passes under way, the innermost first, with the places where they began. -/
  passes : List (Loop × Int) := []
  /-- The loops of which a pass may have begun just here. -/
  busy : List Loop := []
  /-- Something of what has happened. -/
  noted : List Moment := []

namespace Point

variable (p : Point)

def behind : Text := p.before ++ p.current

/-- The reader that has come as far. -/
def reader : Reader where
  offset := p.behind.length
  elements := p.elements.reverse
  current := p.current.reverse
  place := p.place

/-- The point behind more of the current element. -/
def take (u rest : Text) (place : Place) : Point :=
  { p with current := p.current ++ u, rest, place, busy := [], noted := [] }

def note (e : Event) : Point := { p with noted := ⟨e, p.behind.length⟩ :: p.noted }

/-- The same point, with the character ahead read. -/
def look : Point := p.note (.reads p.behind.length)

def enter (l : Loop) : Point := { p with passes := (l, (p.behind.length : Int)) :: p.passes, busy := l :: p.busy }

/-- The same point, with `noted` and nothing else known to have happened. -/
def knowing (noted : List Moment) : Point := { p with noted }

def leave : Point := { p with passes := p.passes.tail, noted := [] }

@[simp] theorem take_behind (u rest : Text) (place : Place) : (p.take u rest place).behind = p.behind ++ u := by
  simp [behind, take]

@[simp] theorem note_behind (e : Event) : (p.note e).behind = p.behind := rfl

@[simp] theorem look_behind : p.look.behind = p.behind := rfl

@[simp] theorem knowing_reader (noted : List Moment) : (p.knowing noted).reader = p.reader := rfl

@[simp] theorem reader_place : p.reader.place = p.place := rfl

@[simp] theorem reader_offset : p.reader.offset = p.behind.length := rfl

@[simp] theorem take_reader (u rest : Text) (place : Place) :
    (p.take u rest place).reader = p.reader.takeAll u place := by
  simp [reader, Reader.takeAll, take, behind, Nat.add_assoc]

@[simp] theorem take_take (u v rest rest' : Text) (place place' : Place) :
    (p.take u rest place).take v rest' place' = p.take (u ++ v) rest' place' := by
  simp only [take, List.append_assoc]

/-- What is ahead of the point makes the text what it is. -/
structure Fits (t : Text) : Prop where
  text : p.behind ++ p.rest = t
  reads : p.reader.readAll p.rest = parseElements t

/-- In a pass that has moved over `v`. -/
def Within (l : Loop) (v : Text) : Prop :=
  ∃ b outside, p.passes = (l, ((b : Text).length : Int)) :: outside ∧ p.behind = b ++ v

/-- From one point to another one, over `u`. -/
structure Goes (u : Text) (p' : Point) : Prop where
  behind : p'.behind = p.behind ++ u
  rest : p.rest = u ++ p'.rest
  run : p.reader.run u = .ok p'.reader
  byPass : ∃ l v, p.Within l v ∧ l.Moves v u
  passes : p'.passes = p.passes
  noted : p'.noted ⊆ p.noted

/-- The text has this fault, and the point is where it is found. -/
structure Fails (t : Text) (f : ParseFailure) : Prop where
  fault : parseElements t = .error f
  found : f.FoundAt t p.behind.length

variable {p} {p' : Point} {t u v r : Text} {l : Loop} {c : CodePoint}

/-- The position of a point is within the text. -/
theorem Fits.length_behind_le (h : p.Fits t) : p.behind.length ≤ t.length := by
  rw [← h.text, List.length_append]
  omega

theorem Fits.length_behind_lt (h : p.Fits t) (hrest : p.rest ≠ []) : p.behind.length < t.length := by
  rw [← h.text, List.length_append]
  exact Nat.lt_add_of_pos_right (List.length_pos_iff.2 hrest)

theorem Fits.getElem? (h : p.Fits t) (hrest : p.rest = c :: r) : t[p.behind.length]? = some c := by
  rw [← h.text, hrest, List.getElem?_append_right (Nat.le_refl _), Nat.sub_self]
  rfl

theorem Fits.part (h : p.Fits t) {b : Text} (hbehind : p.behind = b ++ u) :
    Cursor.part t b.length p.behind.length = u := by
  rw [← h.text, hbehind]
  exact Cursor.slice_between b p.rest u

theorem Goes.fits (h : p.Goes u p') (hp : p.Fits t) : p'.Fits t where
  text := by rw [h.behind, List.append_assoc, ← h.rest, hp.text]
  reads := by rw [← hp.reads, h.rest, Reader.readAll_append h.run]

theorem Goes.note (h : p.Goes u p') (e : Event) : (p.note e).Goes u p' where
  behind := h.behind
  rest := h.rest
  run := h.run
  byPass := h.byPass
  passes := h.passes
  noted := fun _ hm => List.mem_cons_of_mem _ (h.noted hm)

theorem goes_take {place : Place} (hrest : p.rest = c :: r)
    (hstep : p.reader.step c = .ok (p.reader.takeAll [c] place)) (hpass : p.Within l v) (hmoves : l.Moves v [c]) :
    p.Goes [c] (p.take [c] r place) where
  behind := p.take_behind _ _ _
  rest := hrest
  run := by
    rw [take_reader, Reader.run_cons hstep]
    rfl
  byPass := ⟨l, v, hpass, hmoves⟩
  passes := rfl
  noted := List.nil_subset _

theorem within_enter : (p.enter l).Within l [] := ⟨p.behind, p.passes, rfl, (List.append_nil _).symm⟩

theorem Within.take (h : p.Within l v) (u r : Text) (place : Place) : (p.take u r place).Within l (v ++ u) := by
  obtain ⟨b, outside, hpasses, hbehind⟩ := h
  exact ⟨b, outside, hpasses, by rw [take_behind, hbehind, List.append_assoc]⟩

/-- The loop of the innermost pass. -/
theorem Within.loop (h : p.Within l v) : p.passes.head?.map Prod.fst = some l := by
  obtain ⟨b, outside, hpasses, -⟩ := h
  rw [hpasses]
  rfl

end Point

theorem Loop.Moves.ne_nil {l : Loop} {v u : Text} (h : l.Moves v u) : u ≠ [] := by
  cases h <;> simp

/-- Only the look at the end of a name moves over nothing. -/
theorem Loop.Covers.eq_nil {l : Loop} {again : Bool} {u : Text} (h : l.Covers again u) (hu : u = []) :
    l = .name ∧ again = false := by
  cases h with
  | item i => exact absurd hu (item_prefixFree.ne_nil i)
  | unit x => exact absurd hu (nameUnit_prefixFree.ne_nil x)
  | nothing => exact ⟨rfl, rfl⟩
  | comma | brace | dot | digit => simp at hu

/-- A walk that has come to a point. -/
structure Walk.At (t : Text) (p : Point) (w : Walk) : Prop where
  fits : p.Fits t
  cursor : w.cursor = .between p.behind p.rest
  sound : w.Sound t
  passes : underWay w.history = p.passes
  free : ∀ l ∉ p.busy, ∀ m ∈ w.history, m.event = .begins l → m.position < p.behind.length
  noted : p.noted ⊆ w.history

/-- Events that are neither moves nor the beginnings and ends of passes. -/
def Event.isPlain : Event → Bool
  | .moves | .begins _ | .ends .. => false
  | _ => true

theorem underWay_cons_of_isPlain {e : Event} (he : e.isPlain) (i : Int) (earlier : List Moment) :
    underWay (⟨e, i⟩ :: earlier) = underWay earlier := by
  cases e with
  | moves | begins | ends => cases he
  | reads | passesVariable | closes | breaksOff => rfl

namespace Walk.At

variable {t u : Text} {p p' : Point} {w : Walk} {l : Loop}

theorem position (hw : w.At t p) : w.cursor.position = p.behind.length := by
  rw [hw.cursor]
  rfl

theorem standing (hw : w.At t p) : standing w.history = p.behind.length := hw.sound.stands.trans hw.position

theorem text (hw : w.At t p) : w.cursor.text = t := by
  rw [hw.cursor, ← hw.fits.text]
  rfl

theorem sound_noted (hw : w.At t p) {e : Event} (hfollows : Moment.Follows t w.history ⟨e, p.behind.length⟩)
    (hfree : ∀ l, e = .begins l → l ∉ p.busy) : (w.noted e).Sound t where
  record := by
    refine hw.sound.record.cons (fun _ => hw.sound.stands.symm) (by rwa [hw.position]) ?_
    intro l hl m hm hml
    rw [hw.position]
    exact hw.free l (hfree l hl) m hm hml
  stands := rfl

theorem noted_plain (hw : w.At t p) {e : Event} (he : e.isPlain)
    (hfollows : Moment.Follows t w.history ⟨e, p.behind.length⟩) : (w.noted e).At t (p.note e) where
  fits := ⟨hw.fits.text, hw.fits.reads⟩
  cursor := hw.cursor
  sound := by
    refine hw.sound_noted hfollows ?_
    rintro l rfl
    cases he
  passes := (underWay_cons_of_isPlain he _ _).trans hw.passes
  free := by
    intro l hl m hm hml
    rcases List.mem_cons.1 hm with rfl | hm
    · obtain rfl : e = .begins l := hml
      cases he
    · exact hw.free l hl m hm hml
  noted := by
    intro m hm
    rcases List.mem_cons.1 hm with rfl | hm
    · rw [Walk.noted, hw.position]
      exact List.mem_cons_self
    · exact List.mem_cons_of_mem _ (hw.noted hm)

theorem entered (hw : w.At t p) (hl : l ∉ p.busy) (houter : p.passes.head?.map Prod.fst = l.outer)
    (hbegin : if l = .variables then 0 < p.behind.length else p.behind.length < t.length) :
    (w.noted (.begins l)).At t (p.enter l) where
  fits := ⟨hw.fits.text, hw.fits.reads⟩
  cursor := hw.cursor
  sound := by
    refine hw.sound_noted ⟨by rw [hw.passes, houter], ?_⟩ ?_
    · show if l = .variables then (0 : Int) < p.behind.length else (p.behind.length : Int) < t.length
      split at hbegin
      · next hl => rw [if_pos hl]; omega
      · next hl => rw [if_neg hl]; omega
    · rintro l' hl'
      cases hl'
      exact hl
  passes := by
    show (l, w.cursor.position) :: underWay w.history = (l, (p.behind.length : Int)) :: p.passes
    rw [hw.passes, hw.position]
  free := by
    intro l' hl' m hm hml
    rw [Point.enter, List.mem_cons, not_or] at hl'
    rcases List.mem_cons.1 hm with rfl | hm
    · cases hml
      exact absurd rfl hl'.1
    · exact hw.free l' hl'.2 m hm hml
  noted := fun m hm => List.mem_cons_of_mem _ (hw.noted hm)

theorem left (hw : w.At t p) {start : Int} {again : Bool}
    (hfinishes : Finishes t w.history l start again p.behind.length) : (w.noted (.ends l start again)).At t p.leave where
  fits := ⟨hw.fits.text, hw.fits.reads⟩
  cursor := hw.cursor
  sound := hw.sound_noted hfinishes (by simp)
  passes := congrArg List.tail hw.passes
  free := by
    intro l' hl' m hm hml
    rcases List.mem_cons.1 hm with rfl | hm
    · cases hml
    · exact hw.free l' hl' m hm hml
  noted := List.nil_subset _

/-- Whatever has begun so far has begun before the place to which the cursor moves. -/
theorem moved (hw : w.At t p) (hgo : p.Goes u p')
    (hread : ∀ k < u.length, ∃ i, ⟨.reads (p.behind.length + k), i⟩ ∈ p.noted) :
    (w.moved (.between p'.behind p'.rest)).At t p' := by
  obtain ⟨l, v, ⟨b, outside, hpasses, hbehind⟩, hmoves⟩ := hgo.byPass
  have hlength : p'.behind.length = p.behind.length + u.length := by rw [hgo.behind, List.length_append]
  have hpositive : 0 < u.length := List.length_pos_iff.2 hmoves.ne_nil
  have hfits := hgo.fits hw.fits
  have hmovesOn : MovesOn t w.history p'.behind.length := by
    refine ⟨?_, Int.ofNat_le.2 hfits.length_behind_le, ⟨l, b.length, outside, hw.passes.trans hpasses, ?_⟩, ?_⟩
    · rw [hw.standing, hlength]
      omega
    · rw [hw.standing, hw.fits.part hbehind, hfits.part hgo.behind]
      exact hmoves
    · intro k hle hlt
      rw [hw.standing] at hle
      obtain ⟨n, rfl⟩ := Int.le.dest hle
      obtain ⟨i, hi⟩ := hread n (by omega)
      exact ⟨i, hw.noted hi⟩
  refine ⟨hfits, rfl, ⟨?_, rfl⟩, hw.passes.trans hgo.passes.symm, ?_, ?_⟩
  · exact hw.sound.record.cons (fun h => absurd rfl h) (.inr hmovesOn) (fun _ h => nomatch h)
  · intro l _ m hm hml
    rcases List.mem_cons.1 hm with rfl | hm
    · cases hml
    · have hreached := (hw.sound.record.reached m hm).2
      rw [hw.standing] at hreached
      omega
  · exact fun m hm => List.mem_cons_of_mem _ (hw.noted (hgo.noted hm))

theorem stayed (hw : w.At t p) : (w.moved (.between p.behind p.rest)).At t p where
  fits := hw.fits
  cursor := rfl
  sound := by
    refine ⟨hw.sound.record.cons (fun h => absurd rfl h) (.inl ?_) (fun _ h => nomatch h), rfl⟩
    exact hw.standing.symm
  passes := hw.passes
  free := by
    intro l hl m hm hml
    rcases List.mem_cons.1 hm with rfl | hm
    · cases hml
    · exact hw.free l hl m hm hml
  noted := fun m hm => List.mem_cons_of_mem _ (hw.noted hm)

/-- What has happened need not be remembered. -/
theorem forget {e : Event} (hw : w.At t (p.note e)) : w.At t p where
  fits := ⟨hw.fits.text, hw.fits.reads⟩
  cursor := hw.cursor
  sound := hw.sound
  passes := hw.passes
  free := hw.free
  noted := fun _ hm => hw.noted (List.mem_cons_of_mem _ hm)

end Walk.At

/-! ## computations -/

theorem Descent.run_bind {α β : Type} {m : Descent α} {f : α → Descent β} {a : α} {w w' : Walk}
    (h : m.run.run w = some (.ok a, w')) : (m >>= f).run.run w = (f a).run.run w' := by
  simp only [ExceptT.run_bind, StateT.run_bind, h]
  rfl

/-- From a point, a computation ends: with a result at another point, or with the fault of the text, where it is. -/
def Descends (t : Text) {α : Type} (m : Descent α) (p : Point) (post : α → Point → Prop) : Prop :=
  ∀ w : Walk, w.At t p → ∃ r w', m.run.run w = some (r, w') ∧
    match r with
    | .ok a => ∃ p', w'.At t p' ∧ post a p'
    | .error f => w'.Sound t ∧ parseElements t = .error f ∧ f.FoundAt t w'.cursor.position

namespace Descends

variable {t : Text} {α β : Type} {p : Point} {m : Descent α} {post : α → Point → Prop}

theorem of_fits (h : p.Fits t → Descends t m p post) : Descends t m p post := fun w hw => h hw.fits w hw

theorem pure {a : α} (h : post a p) : Descends t (Pure.pure a) p post := fun w hw => ⟨.ok a, w, rfl, p, hw, h⟩

theorem throw {f : ParseFailure} (h : p.Fails t f) : Descends t (MonadExcept.throw f) p post := by
  intro w hw
  refine ⟨.error f, w, rfl, hw.sound, h.fault, ?_⟩
  rw [hw.position]
  exact h.found

theorem fail {e : ParseError} (h : p.Fails t (.malformed e)) : Descends t (Descent.fail e) p post := throw h

theorem mono {post' : α → Point → Prop} (h : Descends t m p post) (hpost : ∀ a p', post a p' → post' a p') :
    Descends t m p post' := by
  intro w hw
  obtain ⟨r, w', hrun, hr⟩ := h w hw
  refine ⟨r, w', hrun, ?_⟩
  cases r with
  | ok a =>
    obtain ⟨p', hw', ha⟩ := hr
    exact ⟨p', hw', hpost a p' ha⟩
  | error f => exact hr

theorem forget {e : Event} (h : Descends t m p post) : Descends t m (p.note e) post := fun w hw => h w hw.forget

theorem bind {f : α → Descent β} {post' : β → Point → Prop} (h : Descends t m p post)
    (hf : ∀ a p', post a p' → Descends t (f a) p' post') : Descends t (m >>= f) p post' := by
  intro w hw
  obtain ⟨r, w', hrun, hr⟩ := h w hw
  cases r with
  | ok a =>
    obtain ⟨p', hw', ha⟩ := hr
    obtain ⟨r, w'', hrun', hr'⟩ := hf a p' ha w' hw'
    exact ⟨r, w'', (Descent.run_bind hrun).trans hrun', hr'⟩
  | error f =>
    refine ⟨.error f, w', ?_, hr⟩
    simp only [ExceptT.run_bind, StateT.run_bind, hrun]
    rfl

/-- A test for a fault of the text. -/
theorem check {c : Bool} {e : ParseError} (h : c = true → p.Fails t (.malformed e)) :
    Descends t (Descent.failIf c e) p fun _ p' => p' = p ∧ c = false := by
  cases c with
  | true => exact fail (h rfl)
  | false => exact pure ⟨rfl, rfl⟩

theorem failIf {c : Bool} {e : ParseError} {f : Unit → Descent α}
    (hfault : c = true → p.Fails t (.malformed e)) (hf : c = false → Descends t (f ()) p post) :
    Descends t (Descent.failIf c e >>= f) p post := by
  refine (check hfault).bind ?_
  rintro _ _ ⟨rfl, hc⟩
  exact hf hc

/-- The reader may be at another place, if that makes no difference for what is ahead. -/
theorem replace (place : Place) (h : ({ p with place } : Point).reader.readAll p.rest = p.reader.readAll p.rest)
    (hm : Descends t m { p with place } post) : Descends t m p post :=
  fun w hw => hm w ⟨⟨hw.fits.text, h.trans hw.fits.reads⟩, hw.cursor, hw.sound, hw.passes, hw.free, hw.noted⟩

end Descends

/-- A computation leads to one result at one point. -/
def Leads (t : Text) {α : Type} (m : Descent α) (p : Point) (a : α) (p' : Point) : Prop :=
  Descends t m p fun b q => b = a ∧ q = p'

namespace Leads

variable {t u r : Text} {α β : Type} {p p' : Point} {m : Descent α} {a : α} {c d : CodePoint}

theorem of_fits {a : α} (h : p.Fits t → Leads t m p a p') : Leads t m p a p' := Descends.of_fits h

theorem pure : Leads t (Pure.pure a) p a p := Descends.pure ⟨rfl, rfl⟩

theorem bind {f : α → Descent β} {post : β → Point → Prop} (h : Leads t m p a p')
    (hf : Descends t (f a) p' post) : Descends t (m >>= f) p post := by
  refine Descends.bind h ?_
  rintro _ _ ⟨rfl, rfl⟩
  exact hf

theorem trans {f : α → Descent β} {b : β} {q : Point} (h : Leads t m p a p') (hf : Leads t (f a) p' b q) :
    Leads t (m >>= f) p b q := h.bind hf

/-! ### the cursor -/

theorem cursor : Leads t Descent.cursor p (.between p.behind p.rest) p :=
  fun w hw => ⟨.ok w.cursor, w, rfl, p, hw, hw.cursor, rfl⟩

theorem position : Leads t Descent.position p p.behind.length p := cursor.trans pure

theorem atEnd : Leads t Descent.atEnd p p.rest.isEmpty p := by
  refine cursor.trans ?_
  rw [Cursor.isAtEnd_between]
  exact pure

theorem not_atEnd (hrest : p.rest = c :: r) : Leads t Descent.atEnd p false p := by
  have h := atEnd (t := t) (p := p)
  rw [hrest] at h
  exact h

/-- The part between an earlier position and the cursor. -/
theorem slice {b : Text} (hbehind : p.behind = b ++ u) : Leads t (Descent.slice b.length p.behind.length) p u p := by
  refine cursor.trans ?_
  rw [hbehind, Cursor.slice_between]
  exact pure

theorem note {e : Event} (he : e.isPlain) (hfollows : ∀ earlier, Moment.Follows t earlier ⟨e, p.behind.length⟩) :
    Leads t (Descent.note e) p () (p.note e) :=
  fun w hw => ⟨.ok (), w.noted e, rfl, p.note e, hw.noted_plain he (hfollows _), rfl, rfl⟩

theorem enter {l : Loop} (hl : l ∉ p.busy) (houter : p.passes.head?.map Prod.fst = l.outer)
    (hbegin : if l = .variables then 0 < p.behind.length else p.behind.length < t.length) :
    Leads t (Descent.note (.begins l)) p () (p.enter l) :=
  fun w hw => ⟨.ok (), w.noted (.begins l), rfl, p.enter l, hw.entered hl houter hbegin, rfl, rfl⟩

theorem read_inside {i : Int} {o : Option CodePoint} (h : 0 ≤ i ∧ i < t.length) :
    Leads t (Descent.read true i o) p o (p.note (.reads i)) := (note (e := .reads i) rfl fun _ => h).trans pure

theorem read {inside : Bool} {i : Int} {o : Option CodePoint} (h : inside = true → 0 ≤ i ∧ i < t.length) :
    Leads t (Descent.read inside i o) p o p := by
  cases inside with
  | true => exact (note (e := .reads i) rfl fun _ => h rfl).bind pure.forget
  | false => exact pure

theorem current : Leads t Descent.current p p.rest.head? p := by
  refine of_fits fun hp => cursor.trans ?_
  rw [Cursor.current_between]
  refine read ?_
  intro h
  have h := of_decide_eq_true h
  simp only [Cursor.between, hp.text] at h ⊢
  omega

theorem current_cons (hrest : p.rest = c :: r) : Leads t Descent.current p (some c) p.look := by
  refine of_fits fun hp => cursor.trans ?_
  have hinside : p.behind.length < t.length := hp.length_behind_lt (by simp [hrest])
  have hlt : decide ((Cursor.between p.behind p.rest).position < (Cursor.between p.behind p.rest).text.length) =
      true := by
    simp only [Cursor.between, hp.text, decide_eq_true_eq]
    omega
  rw [hlt, Cursor.current_between, hrest]
  exact read_inside ⟨Int.natCast_nonneg _, Int.ofNat_lt.2 hinside⟩

theorem peek_cons (hrest : p.rest = c :: d :: r) :
    Leads t (Descent.peek 1) p (some d) (p.note (.reads (p.behind.length + 1))) := by
  refine of_fits fun hp => cursor.trans ?_
  have hlength : t.length = p.behind.length + (r.length + 2) := by
    rw [← hp.text, hrest, List.length_append]
    rfl
  have hlt : decide ((Cursor.between p.behind p.rest).position + 1 < (Cursor.between p.behind p.rest).text.length) =
      true := by
    simp only [Cursor.between, hp.text, decide_eq_true_eq]
    omega
  rw [hlt, Cursor.peek_between, hrest]
  refine read_inside (i := (p.behind.length : Int) + 1) ⟨?_, ?_⟩ <;> omega

theorem peek : Leads t (Descent.peek 1) p p.rest[1]? p := by
  refine of_fits fun hp => cursor.trans ?_
  rw [Cursor.peek_between]
  refine read ?_
  intro h
  have h := of_decide_eq_true h
  simp only [Cursor.between, hp.text] at h ⊢
  omega

theorem previous : Leads t Descent.previous p p.behind.getLast? p := by
  refine of_fits fun hp => cursor.trans ?_
  rw [Cursor.previous_between]
  refine read ?_
  intro h
  have h := of_decide_eq_true h
  have hle := hp.length_behind_le
  simp only [Cursor.between] at h ⊢
  omega

/-- A move to another point. -/
theorem move {f : Cursor → α × Cursor} (hgo : p.Goes u p')
    (hread : ∀ k < u.length, ∃ i, ⟨.reads (p.behind.length + k), i⟩ ∈ p.noted)
    (hf : f (.between p.behind p.rest) = (a, .between p'.behind p'.rest)) : Leads t (Descent.move f) p a p' := by
  refine cursor.trans ?_
  rw [hf]
  exact fun w hw => ⟨.ok a, _, rfl, p', hw.moved hgo hread, rfl, rfl⟩

/-- A move that leaves the cursor where it is. -/
theorem stay {f : Cursor → α × Cursor} (hf : f (.between p.behind p.rest) = (a, .between p.behind p.rest)) :
    Leads t (Descent.move f) p a p := by
  refine cursor.trans ?_
  rw [hf]
  exact fun w hw => ⟨.ok a, _, rfl, p, hw.stayed, rfl, rfl⟩

theorem read_look : ∀ k < [c].length, ∃ i, ⟨.reads (p.behind.length + k), i⟩ ∈ p.look.noted := by
  intro k hk
  obtain rfl : k = 0 := Nat.lt_one_iff.1 hk
  exact ⟨p.behind.length, List.mem_cons_self⟩

theorem advance (hgo : p.look.Goes [c] p') : Leads t Descent.advance p.look [c] p' := by
  refine move hgo read_look ?_
  rw [hgo.rest, hgo.behind]
  exact Cursor.advance_between _ _ _

theorem accept {allowed : Text} (hgo : p.look.Goes [c] p') (hc : c ∈ allowed) :
    Leads t (Descent.accept allowed) p true p' := by
  have hrest : p.rest = [c] ++ p'.rest := hgo.rest
  refine (current_cons hrest).trans (move hgo read_look ?_)
  have hany : (p.rest.head?.any (allowed.contains ·)) = true := by simpa [hrest] using hc
  show Cursor.accept (.between p.behind p.rest) allowed = _
  rw [Cursor.accept, Cursor.current_between, if_pos hany, hrest, hgo.behind]
  exact Prod.ext rfl (Cursor.seek_between _ _ [c] rfl)

theorem not_accept {allowed : Text} (hrest : p.rest = c :: r) (hc : c ∉ allowed) :
    Leads t (Descent.accept allowed) p false p.look := by
  refine (current_cons hrest).trans (stay ?_)
  have hany : ¬ (p.rest.head?.any (allowed.contains ·)) = true := by simpa [hrest] using hc
  show Cursor.accept (.between p.behind p.rest) allowed = _
  rw [Cursor.accept, Cursor.current_between, if_neg hany]
  rfl

theorem secondDigit (o : Option CodePoint) : ∃ e, Leads t (Descent.secondDigit o) p e p := by
  unfold Descent.secondDigit
  split
  · exact ⟨_, peek⟩
  · exact ⟨_, pure⟩

theorem acceptHexPair (hgo : p.Goes [c, d] p') (hc : c.isHexDigit) (hd : d.isHexDigit) :
    Leads t Descent.acceptHexPair p true p' := by
  have hrest : p.rest = [c, d] ++ p'.rest := hgo.rest
  have hsecond : Leads t (Descent.secondDigit (some c)) p.look (some d)
      (p.look.note (.reads (p.behind.length + 1))) := by
    rw [Descent.secondDigit, Option.any_some, if_pos hc]
    exact peek_cons (p := p.look) hrest
  refine (current_cons hrest).trans (hsecond.trans (move ((hgo.note _).note _) ?_ ?_))
  · intro k hk
    rcases Nat.lt_succ_iff_lt_or_eq.1 hk with hk | rfl
    · obtain rfl : k = 0 := Nat.lt_one_iff.1 hk
      exact ⟨p.behind.length, List.mem_cons_of_mem _ List.mem_cons_self⟩
    · exact ⟨p.behind.length, List.mem_cons_self⟩
  · have hpair : (p.rest.head?.any (·.isHexDigit) && p.rest[1]?.any (·.isHexDigit)) = true := by
      simp [hrest, hc, hd]
    show Cursor.acceptHexPair (.between p.behind p.rest) = _
    rw [Cursor.acceptHexPair, Cursor.current_between, Cursor.peek_between, if_pos hpair, hrest, hgo.behind]
    exact Prod.ext rfl (Cursor.seek_between _ _ [c, d] rfl)

theorem not_acceptHexPair (h : ∀ c d r, p.rest = c :: d :: r → c.isHexDigit = true → d.isHexDigit = false) :
    Leads t Descent.acceptHexPair p false p := by
  obtain ⟨_, hsecond⟩ := secondDigit (t := t) (p := p) p.rest.head?
  refine current.trans (hsecond.trans (stay ?_))
  have hpair : ¬ (p.rest.head?.any (·.isHexDigit) && p.rest[1]?.any (·.isHexDigit)) = true := by
    rcases hrest : p.rest with _ | ⟨c, _ | ⟨d, r⟩⟩
    · simp
    · simp
    · intro hpair
      have hpair : c.isHexDigit = true ∧ d.isHexDigit = true := by simpa using hpair
      rw [h c d r hrest hpair.1] at hpair
      exact Bool.noConfusion hpair.2
  rw [Cursor.acceptHexPair, Cursor.current_between, Cursor.peek_between, if_neg hpair]

end Leads

/-! ### loops -/

/-- A pass that began at `p` has come to its end at `p'`. -/
structure Point.Finishes (t : Text) (p : Point) (l : Loop) (again : Bool) (p' : Point) : Prop where
  covers : ∃ u, p'.behind = p.behind ++ u ∧ l.Covers again u
  passes : p'.passes = (l, (p.behind.length : Int)) :: p.passes
  nameEnd : l = .name → again = false → EndsNameAt t p'.behind.length
  variableEnd : l = .variables → ⟨.passesVariable, p'.behind.length - 1⟩ ∈ p'.noted
  closing : l = .variables → again = false → ⟨.closes [('}' : CodePoint)], p'.behind.length⟩ ∈ p'.noted

namespace Descends

variable {t : Text} {α : Type} {p : Point}

/-- A pass behind which another one is to follow has moved the cursor on. -/
theorem pass {l : Loop} {body : Descent (α ⊕ α)} {post : α ⊕ α → Point → Prop} (hl : l ∉ p.busy)
    (houter : p.passes.head?.map Prod.fst = l.outer)
    (hbegin : if l = .variables then 0 < p.behind.length else p.behind.length < t.length)
    (hbody : Descends t body (p.enter l) fun r p' => post r p'.leave ∧ p.Finishes t l r.isLeft p') :
    Descends t (Descent.pass l body) p fun r p' =>
      post r p' ∧ (r.isLeft = true → p.behind.length < p'.behind.length) := by
  refine Leads.position.bind ((Leads.enter hl houter hbegin).bind (hbody.bind ?_))
  rintro r p' ⟨hpost, hend⟩
  obtain ⟨u, hbehind, hcovers⟩ := hend.covers
  have hlength : p'.behind.length = p.behind.length + u.length := by rw [hbehind, List.length_append]
  have hforward : u ≠ [] → p.behind.length < p'.behind.length := by
    intro hu
    have hpositive := List.length_pos_iff.2 hu
    omega
  have hfinishes : ∀ w : Walk, w.At t p' →
      UriTemplate.Finishes t w.history l p.behind.length r.isLeft p'.behind.length := by
    intro w hw
    refine ⟨⟨p.passes, hw.passes.trans hend.passes⟩, by rwa [hw.fits.part hbehind], ?_,
      fun h => hw.noted (hend.variableEnd h), fun h hagain => hw.noted (hend.closing h hagain)⟩
    by_cases hu : u = []
    · obtain ⟨hname, hagain⟩ := hcovers.eq_nil hu
      exact .inr ⟨hname, hagain, by simp [hlength, hu], hend.nameEnd hname hagain⟩
    · exact .inl (Int.ofNat_lt.2 (hforward hu))
  have hleave : Leads t (Descent.note (.ends l p.behind.length r.isLeft)) p' () p'.leave :=
    fun w hw => ⟨.ok (), _, rfl, p'.leave, hw.left (hfinishes w hw), rfl, rfl⟩
  refine hleave.bind (pure ⟨hpost, ?_⟩)
  intro hleft
  refine hforward ?_
  intro hu
  have hright := (hcovers.eq_nil hu).2
  rw [hleft] at hright
  cases hright

/-- **A loop ends**: what is ahead gets less with every pass behind which another one is to follow. -/
theorem loop [Nonempty α] {l : Loop} {test : Descent Bool} {body : α → Descent (α ⊕ α)}
    {post : α → Point → Prop} (inv : α → Point → Prop)
    (hstep : ∀ a p, p.Fits t → inv a p → ∃ go q, Leads t test p go q ∧ q.behind = p.behind ∧ (go = false → post a q) ∧
      (go = true → l ∉ q.busy ∧ q.passes.head?.map Prod.fst = l.outer ∧
        (if l = .variables then 0 < q.behind.length else q.behind.length < t.length) ∧
        Descends t (body a) (q.enter l) fun r p' => r.elim (inv · p'.leave) (post · p'.leave) ∧
          q.Finishes t l r.isLeft p'))
    {a : α} (h : inv a p) : Descends t (Descent.loop l test body a) p post := by
  -- by induction on the length of what is ahead
  generalize hn : p.rest.length = n
  induction n using Nat.strongRecOn generalizing a p with
  | ind n ih =>
    refine of_fits fun hp => ?_
    obtain ⟨go, q, htest, hbehind, hstop, hgo⟩ := hstep a p hp h
    rw [Descent.loop, repeatM_eq_of_monadTail]
    cases go with
    | false =>
      have hleave : Leads t (do if ← test then Descent.pass l (body a) else Pure.pure (.inr a)) p (.inr a) q :=
        htest.trans Leads.pure
      exact hleave.bind (pure (hstop rfl))
    | true =>
      obtain ⟨hl, houter, hbegin, hbody⟩ := hgo rfl
      have hpass : Descends t (Descent.pass l (body a)) q fun r p' => r.elim (inv · p') (post · p') ∧
          (r.isLeft = true → q.behind.length < p'.behind.length) := pass hl houter hbegin hbody
      refine (htest.bind hpass).bind ?_
      rintro r p' ⟨hr, hlt⟩
      cases r with
      | inl a' =>
        refine of_fits fun hp' => ih p'.rest.length ?_ hr rfl
        have hlt := hlt rfl
        rw [hbehind] at hlt
        have hlength := congrArg List.length (hp.text.trans hp'.text.symm)
        rw [List.length_append, List.length_append] at hlength
        omega
      | inr a' => exact pure hr

end Descends

end UriTemplate
