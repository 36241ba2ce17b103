import UriTemplate.Proofs.Acceptance

/-!
# Reading further on

Where a text begins makes no difference to how it is read, but for the offsets.

* `Element.shift`, `ParseError.shift`, `ParseFailure.shift` — elements and failures `n` characters further on;
* `Derivation.elementsFrom_add` — the elements of a derivation that begins further on;
* `Reader.Shifted`, `Reader.Follows` — two readers at one place, and two results of theirs;
* `Reader.Shifted.step`, `Reader.Shifted.run`, `Reader.Shifted.finish` — they stay at one place, or fail alike.
-/

namespace UriTemplate

/-! ## elements and failures further on -/

def Span.shift (n : Nat) (s : Span) : Span := ⟨s.text, s.start + n, s.stop + n⟩

/-- The element `n` characters further on. -/
def Element.shift (n : Nat) : Element → Element
  | .literal s => .literal (s.shift n)
  | .expression s op vs => .expression (s.shift n) op vs
  | .bare s => .bare (s.shift n)

namespace ParseError

/-- The same error `n` characters further on. -/
def shift (n : Nat) : ParseError → ParseError
  | character k => character (k + n)
  | nameCharacter k => nameCharacter (k + n)
  | percent k => percent (k + n)
  | dot k => dot (k + n)
  | emptyName k => emptyName (k + n)
  | limitMissing k => limitMissing (k + n)
  | limitTooHigh digits k => limitTooHigh digits (k + n)
  | limitZero digits k => limitZero digits (k + n)
  | limitNotLast k => limitNotLast (k + n)
  | explodeNotLast k => explodeNotLast (k + n)
  | unterminated => unterminated

variable (n : Nat) (e : ParseError)

@[simp] theorem kind_shift : (e.shift n).kind = e.kind := by cases e <;> rfl

@[simp] theorem text_shift : (e.shift n).text = e.text := by cases e <;> rfl

@[simp] theorem offset_shift : (e.shift n).offset = e.offset.map (· + n) := by cases e <;> rfl

end ParseError

def ParseFailure.shift (n : Nat) : ParseFailure → ParseFailure
  | .malformed e => .malformed (e.shift n)
  | .numeralTooLong digits => .numeralTooLong digits

namespace Derivation

theorem map_shift_glue (n start : Nat) (t : Text) (es : List Element) :
    (glue start t es).map (Element.shift n) = glue (start + n) t (es.map (Element.shift n)) := by
  by_cases ht : t = []
  · rw [ht, glue_nil, glue_nil]
  have hlength : start + t.length + n = start + n + t.length := by omega
  cases es with
  | nil => simp [glue, ht, Element.shift, Span.shift, hlength]
  | cons e es => cases e <;> simp [glue, ht, Element.shift, Span.shift, hlength]

theorem elementsFrom_add (d : Derivation) (start n : Nat) :
    d.elementsFrom (start + n) = (d.elementsFrom start).map (Element.shift n) := by
  induction d generalizing start with
  | nil => rfl
  | cons i d ih =>
    cases i with
    | char c hl hb hp => rw [elementsFrom, elementsFrom, map_shift_glue, ← ih, Nat.add_right_comm]
    | triplet p => rw [elementsFrom, elementsFrom, map_shift_glue, ← ih, Nat.add_right_comm]
    | expression e =>
      rw [elementsFrom, elementsFrom, List.map_cons, ← ih, Nat.add_right_comm]
      rfl

end Derivation

/-! ## readers further on -/

theorem readLimit_add (digits : Text) (start n : Nat) :
    readLimit digits (start + n) = (readLimit digits start).mapError (ParseFailure.shift n) := by
  unfold readLimit
  split
  · rfl
  split
  · rfl
  split
  · rfl
  split <;> rfl

/-- The number of characters that a fault at this place may lie behind the reader. -/
def ReferencePlace.lookback : ReferencePlace → Nat
  | .name [] => 0
  | .name (_ :: _) => 1
  | .triplet _ digit => if digit then 2 else 1
  | .limit _ digits => digits.length
  | .exploded _ => 0

def Place.lookback : Place → Nat
  | .literal | .opened => 0
  | .triplet digit => if digit then 2 else 1
  | .reference _ _ place => place.lookback

namespace Reader

/-- The reader `r` stands where `s` does, `n` characters further on. -/
structure Shifted (n : Nat) (s r : Reader) : Prop where
  place : r.place = s.place
  offset : r.offset = s.offset + n
  /-- No fault of `s` lies before the text. -/
  lookback : s.place.lookback ≤ s.offset

/-- Both go on from one place, or fail for one reason. -/
inductive Follows (n : Nat) : Except ParseFailure Reader → Except ParseFailure Reader → Prop
  | ok {s r : Reader} (h : Shifted n s r) : Follows n (.ok s) (.ok r)
  | error (e : ParseFailure) : Follows n (.error e) (.error (e.shift n))

theorem Follows.of_ok {n : Nat} {s : Reader} {y : Except ParseFailure Reader} (h : Follows n (.ok s) y) :
    ∃ r, y = .ok r ∧ Shifted n s r := by
  cases h with
  | ok h => exact ⟨_, rfl, h⟩

theorem Follows.of_error {n : Nat} {e : ParseFailure} {y : Except ParseFailure Reader} (h : Follows n (.error e) y) :
    y = .error (e.shift n) := by
  cases h
  rfl

namespace Shifted

variable {n : Nat} {s r : Reader} (h : Shifted n s r)

include h

theorem take {c : CodePoint} {p : Place} (hp : p.lookback ≤ s.offset + 1) : Shifted n (s.take c p) (r.take c p) where
  place := rfl
  offset := by
    show r.offset + 1 = s.offset + 1 + n
    rw [h.offset]
    omega
  lookback := hp

theorem complete (op : Operator) (before : List VariableReference) (v : VariableReference) (c : CodePoint) :
    Shifted n (s.complete op before v c) (r.complete op before v c) := by
  have htake : ∀ p : Place, p.lookback = 0 → Shifted n (s.take c p) (r.take c p) :=
    fun p hp => h.take (hp ▸ Nat.zero_le _)
  unfold Reader.complete
  split
  · exact htake _ rfl
  · have hliteral := htake .literal rfl
    exact ⟨rfl, hliteral.offset, Nat.zero_le _⟩

theorem tripletFault {digit : Bool} (hd : (if digit then 2 else 1) ≤ s.offset) :
    r.tripletFault digit = (s.tripletFault digit).shift n := by
  unfold Reader.tripletFault
  rw [h.offset, Nat.sub_add_comm hd]
  rfl

theorem nameStep (op : Operator) (before : List VariableReference) {read : Text}
    (hread : (ReferencePlace.name read).lookback ≤ s.offset) (c : CodePoint) :
    Follows n (s.nameStep op before read c) (r.nameStep op before read c) := by
  unfold Reader.nameStep
  rw [h.offset]
  split
  · cases read with
    | nil => exact .error _
    | cons d t =>
      have hdot : s.offset + n - 1 = s.offset - 1 + n := Nat.sub_add_comm hread
      simp only [hdot]
      split
      · exact .error _
      split
      · exact .ok (h.take (Nat.zero_le _))
      split
      · exact .ok (h.take (Nat.zero_le _))
      · exact .ok (h.complete ..)
  split
  · split
    · exact .error _
    · exact .ok (h.take (Nat.le_add_left ..))
  split
  · exact .ok (h.take (Nat.le_add_left ..))
  split
  · exact .ok (h.take (Nat.le_add_left ..))
  · exact .error _

theorem referenceStep (op : Operator) (before : List VariableReference) {place : ReferencePlace}
    (hplace : place.lookback ≤ s.offset) (c : CodePoint) :
    Follows n (s.referenceStep op before place c) (r.referenceStep op before place c) := by
  cases place with
  | name read => exact h.nameStep op before hplace c
  | triplet read digit =>
    rw [Reader.referenceStep, Reader.referenceStep, h.tripletFault hplace]
    split
    · refine .ok (h.take ?_)
      cases digit with
      | true => exact Nat.le_add_left ..
      | false => exact Nat.succ_le_succ hplace
    · exact .error _
  | limit name digits =>
    have hstart : s.offset + n - digits.length = s.offset - digits.length + n := Nat.sub_add_comm hplace
    rw [Reader.referenceStep, Reader.referenceStep, h.offset, hstart, readLimit_add]
    split
    · exact .ok (h.take (Nat.succ_le_succ hplace))
    · cases readLimit digits.reverse (s.offset - digits.length) with
      | error e => exact .error e
      | ok limit =>
        show Follows n
          (if ends c then .ok (s.complete op before { name, limit := some limit } c)
            else .error (.malformed (.limitNotLast s.offset)))
          (if ends c then .ok (r.complete op before { name, limit := some limit } c)
            else .error (.malformed (.limitNotLast (s.offset + n))))
        split
        · exact .ok (h.complete ..)
        · exact .error _
  | exploded name =>
    rw [Reader.referenceStep, Reader.referenceStep, h.offset]
    split
    · exact .ok (h.complete ..)
    · exact .error _

/-- **One step keeps two readers at one place**, or they fail alike. -/
theorem step (c : CodePoint) : Follows n (s.step c) (r.step c) := by
  have hback := h.lookback
  unfold Reader.step
  rw [h.place]
  cases hplace : s.place with
  | literal =>
    simp only [h.offset]
    split
    · refine .ok ⟨rfl, ?_, Nat.zero_le _⟩
      show s.offset + n + 1 = s.offset + 1 + n
      omega
    split
    · exact .ok (h.take (Nat.le_add_left ..))
    split
    · exact .ok (h.take (Nat.zero_le _))
    · exact .error _
  | triplet digit =>
    rw [hplace] at hback
    simp only [h.tripletFault hback]
    split
    · refine .ok (h.take ?_)
      cases digit with
      | true => exact Nat.zero_le _
      | false => exact Nat.succ_le_succ hback
    · exact .error _
  | opened =>
    simp only
    split
    · exact .ok (h.take (Nat.zero_le _))
    · exact h.nameStep _ _ (Nat.zero_le _) c
  | reference op before place =>
    rw [hplace] at hback
    exact h.referenceStep op before hback c

theorem run (t : Text) : Follows n (s.run t) (r.run t) := by
  induction t generalizing s r with
  | nil => exact .ok h
  | cons c t ih =>
    have hstep := h.step c
    unfold Reader.run
    rw [List.foldlM_cons, List.foldlM_cons]
    cases hs : s.step c with
    | error e =>
      rw [hs] at hstep
      rw [hstep.of_error]
      exact .error e
    | ok s' =>
      rw [hs] at hstep
      obtain ⟨r', hr, h'⟩ := hstep.of_ok
      rw [hr]
      exact ih h'

/-- At the end of the text both fail for one reason, if one of them does. -/
theorem finish {e : ParseFailure} (he : s.finish = .error e) : r.finish = .error (e.shift n) := by
  have hback := h.lookback
  unfold Reader.finish at he ⊢
  rw [h.place]
  cases hplace : s.place with
  | literal => rw [hplace] at he; cases he
  | triplet digit =>
    rw [hplace] at he hback
    obtain rfl := Except.error.inj he
    exact congrArg _ (h.tripletFault hback)
  | opened =>
    rw [hplace] at he
    obtain rfl := Except.error.inj he
    rfl
  | reference op before place =>
    rw [hplace] at he hback
    cases place with
    | name read =>
      obtain rfl := Except.error.inj he
      rfl
    | triplet read digit =>
      obtain rfl := Except.error.inj he
      exact congrArg _ (h.tripletFault hback)
    | limit name digits =>
      have hstart : s.offset + n - digits.length = s.offset - digits.length + n := Nat.sub_add_comm hback
      simp only [h.offset, hstart, readLimit_add] at he ⊢
      revert he
      cases readLimit digits.reverse (s.offset - digits.length) with
      | error e' =>
        intro he
        obtain rfl := Except.error.inj he
        rfl
      | ok limit =>
        intro he
        obtain rfl := Except.error.inj he
        rfl
    | exploded name =>
      obtain rfl := Except.error.inj he
      rfl

end Shifted

/-- A text that is not read is not read further on either. -/
theorem readAll_shift {n : Nat} {s r : Reader} (h : Shifted n s r) {t : Text} {e : ParseFailure}
    (he : s.readAll t = .error e) : r.readAll t = .error (e.shift n) := by
  have hrun := h.run t
  rw [readAll] at he ⊢
  cases hs : s.run t with
  | error e' =>
    rw [hs] at hrun he
    obtain rfl := Except.error.inj he
    rw [hrun.of_error]
    rfl
  | ok s' =>
    rw [hs] at hrun he
    obtain ⟨r', hr, h'⟩ := hrun.of_ok
    rw [hr]
    exact h'.finish he

end Reader

end UriTemplate
