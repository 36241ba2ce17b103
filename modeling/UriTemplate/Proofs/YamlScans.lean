import UriTemplate.Proofs.OptionValues
import UriTemplate.Yaml.Token

/-!
# Scans of YAML texts

Whatever is read of a YAML text, the position only goes forward, and every token takes a character.  So the fuel of a
loop is bookkeeping: it does not matter which one is given, if it is greater than the number of characters left.

* `Position.Reaches` — a position is another one, or some characters on;
* `Onward` — a reader goes forward if it gives something, with a rule for each way of putting readers together;
* `fuel_congr` — loops that call themselves with less and less to do;
* `plainText_eq`, `quotedText_eq`, `blockLines_congr` and others — scalars, whatever the fuel;
* `Scan.token_onward`, `Scan.all_congr`, `exists_tokens_eq` — tokens, one by one and all of them.
-/

namespace UriTemplate.Yaml

theorem require_eq_ok_iff {α : Type} {x : Option α} {a : α} : require x = .ok a ↔ x = some a := by
  cases x with
  | none => exact iff_of_false nofun nofun
  | some b => rw [require, Except.ok.injEq, Option.some.injEq]

namespace Position

/-- `q` is `p`, or some characters on. -/
def Reaches (p q : Position) : Prop := ∃ n, q = p.advance n

variable {p q r : Position}

theorem advance_advance (p : Position) (m n : Nat) : (p.advance m).advance n = p.advance (m + n) := by
  induction n with
  | zero => rfl
  | succ n ih =>
    have hnext : ∀ (p : Position) (k : Nat), p.advance (k + 1) = (p.advance k).next := fun _ _ => rfl
    rw [hnext, ih, ← Nat.add_assoc, hnext]

theorem Reaches.refl (p : Position) : p.Reaches p := ⟨0, rfl⟩

theorem Reaches.trans (h : p.Reaches q) (h' : q.Reaches r) : p.Reaches r := by
  obtain ⟨m, rfl⟩ := h
  obtain ⟨n, rfl⟩ := h'
  exact ⟨m + n, advance_advance p m n⟩

theorem Reaches.advance (h : p.Reaches q) (n : Nat) : p.Reaches (q.advance n) := h.trans ⟨n, rfl⟩

theorem Reaches.next (h : p.Reaches q) : p.Reaches q.next := h.advance 1

theorem Reaches.skip (h : p.Reaches q) (f : CodePoint → Bool) : p.Reaches (q.skip f) := h.advance _

theorem Reaches.skipSpaces (h : p.Reaches q) : p.Reaches q.skipSpaces := h.skip _

theorem Reaches.skipComment (h : p.Reaches q) : p.Reaches q.skipComment := by
  unfold Position.skipComment
  split
  · exact h.skip _
  · exact h

theorem Reaches.endLine (h : p.Reaches q) (hend : q.endLine? = some r) : p.Reaches r := by
  unfold endLine? at hend
  extract_lets q' at hend
  split at hend
  · cases hend
    exact h.skipSpaces.skipComment.next
  · cases hend

@[simp] theorem next_rest (p : Position) : p.next.rest = p.rest.tail := by
  unfold Position.next
  cases h : p.rest with
  | nil => exact h
  | cons c rest =>
    dsimp only
    split <;> rfl

@[simp] theorem next_size (p : Position) : p.next.size = p.size := by
  unfold Position.next
  cases p.rest with
  | nil => rfl
  | cons c rest =>
    dsimp only
    split <;> rfl

theorem advance_rest (p : Position) (n : Nat) : (p.advance n).rest = p.rest.drop n := by
  induction n with
  | zero => rfl
  | succ n ih =>
    show (p.advance n).next.rest = _
    rw [next_rest, ih, List.tail_drop]

theorem advance_size (p : Position) (n : Nat) : (p.advance n).size = p.size := by
  induction n with
  | zero => rfl
  | succ n ih =>
    show (p.advance n).next.size = _
    rw [next_size, ih]

theorem Reaches.length_le (h : p.Reaches q) : q.rest.length ≤ p.rest.length := by
  obtain ⟨n, rfl⟩ := h
  rw [advance_rest, List.length_drop]
  omega

theorem Reaches.size_eq (h : p.Reaches q) : q.size = p.size := by
  obtain ⟨n, rfl⟩ := h
  exact p.advance_size n

theorem Reaches.length_lt {c : CodePoint} (hc : p.current = some c) (h : p.next.Reaches q) :
    q.rest.length < p.rest.length := by
  obtain ⟨rest, hrest⟩ := List.head?_eq_some_iff.1 hc
  have hle := h.length_le
  rw [next_rest, hrest, List.tail_cons] at hle
  rw [hrest, List.length_cons]
  omega

/-- The text that is left is shorter by the character that was passed last. -/
theorem Reaches.length_next_lt {c : CodePoint} (hc : q.current = some c) (h : p.Reaches q) :
    q.next.rest.length < p.rest.length :=
  Nat.lt_of_lt_of_le (Reaches.length_lt hc (.refl _)) h.length_le

theorem reaches_advance_of_pos {n : Nat} (hn : 0 < n) : p.next.Reaches (p.advance n) := by
  obtain ⟨m, rfl⟩ := Nat.exists_eq_add_of_lt hn
  refine ⟨m, ?_⟩
  rw [Nat.zero_add, Nat.add_comm]
  exact (advance_advance p 1 m).symm

theorem reaches_skip_of_current {c : CodePoint} {f : CodePoint → Bool} (hc : p.current = some c) (hf : f c) :
    p.next.Reaches (p.skip f) := by
  obtain ⟨rest, hrest⟩ := List.head?_eq_some_iff.1 hc
  refine reaches_advance_of_pos ?_
  rw [hrest, List.takeWhile_cons_of_pos hf]
  exact Nat.succ_pos _

theorem skip_of_current {c : CodePoint} {f : CodePoint → Bool} (hc : p.current = some c) (hf : ¬ f c) :
    p.skip f = p := by
  obtain ⟨rest, hrest⟩ := List.head?_eq_some_iff.1 hc
  rw [Position.skip, hrest, List.takeWhile_cons_of_neg hf]
  rfl

/-- At every position of a text the fuel that loops are given is greater than the number of characters left. -/
theorem length_lt_fuel {t : Text} (h : Reaches { rest := t } p) : p.rest.length < p.size + 1 := by
  rw [h.size_eq]
  exact Nat.lt_succ_of_le h.length_le

end Position

/-- A result has a position that `q` reaches. -/
def Onward {α : Type} (q : Position) (g : α → Position) (x : Except Failure α) : Prop :=
  ∀ a, x = .ok a → q.Reaches (g a)

namespace Onward

variable {α β : Type} {q : Position} {g : α → Position} {g' : β → Position} {x : Except Failure α}

theorem ok {a : α} (h : q.Reaches (g a)) : Onward q g (.ok a) := by
  rintro b ⟨⟩
  exact h

theorem error {e : Failure} : Onward q g (.error e) := nofun

theorem bind_of {f : α → Except Failure β} (hf : ∀ a, x = .ok a → Onward q g' (f a)) :
    Onward q g' (x >>= f) := by
  intro b hb
  obtain ⟨a, ha, hb⟩ := Except.bind_eq_ok_iff.1 hb
  exact hf a ha b hb

theorem bind {f : α → Except Failure β} (h : Onward q g x)
    (hf : ∀ a, q.Reaches (g a) → Onward q g' (f a)) : Onward q g' (x >>= f) :=
  bind_of fun a ha => hf a (h a ha)

theorem ite {P : Prop} [Decidable P] {x y : Except Failure α} (hx : P → Onward q g x)
    (hy : ¬ P → Onward q g y) : Onward q g (if P then x else y) := by
  split
  · exact hx ‹_›
  · exact hy ‹_›

end Onward

theorem bind_congr_of_ok {ε α β : Type} {x : Except ε α} {f g : α → Except ε β} (h : ∀ a, x = .ok a → f a = g a) :
    x >>= f = x >>= g := by
  cases x with
  | error e => rfl
  | ok a => exact h a rfl

/-- Two fuels give the same if both are greater than the measure, which gets smaller with every call. -/
theorem fuel_congr {α β : Type} (f : Nat → α → β) (μ : α → Nat)
    (hstep : ∀ n n' x, (∀ y, μ y < μ x → f n y = f n' y) → f (n + 1) x = f (n' + 1) x) {n n' : Nat} {x : α}
    (hn : μ x < n) (hn' : μ x < n') : f n x = f n' x := by
  induction n generalizing n' x with
  | zero => omega
  | succ n ih =>
    cases n' with
    | zero => omega
    | succ n' => exact hstep n n' x fun y hy => ih (by omega) (by omega)

open Position

/-! ## plain scalars -/

/-- The part of a plain scalar that begins at a position. -/
def plainPart (v : Version) (inFlow : Bool) (p : Position) : Text :=
  if p.looksAt ['#'] then [] else plainRun v inFlow p.rest

section

variable {v : Version} {inFlow : Bool} {indent : Int} {p q : Position}

theorem plainBreaks_reaches (fuel : Nat) (h : q.Reaches p) (breaks : Text) :
    q.Reaches (plainBreaks fuel p breaks).2 := by
  induction fuel generalizing p breaks with
  | zero => exact h
  | succ fuel ih =>
    rw [plainBreaks]
    split
    · exact h
    · dsimp only
      split
      · split
        · exact ih h.skipSpaces.next _
        · exact h.skipSpaces
      · exact h.skipSpaces

theorem plainGap_reaches (h : q.Reaches p) : q.Reaches (plainGap p).2.1 := by
  unfold plainGap
  dsimp only
  split
  · split
    · exact plainBreaks_reaches _ h.skipSpaces.next _
    · exact h.skipSpaces
  · exact h.skipSpaces

theorem plainText_go_succ (fuel : Nat) (parts : List Text) (gap : Text) (broken : Bool) :
    plainText.go v inFlow indent (fuel + 1) p parts gap broken =
      if plainPart v inFlow p = [] then (assemble parts, p, broken)
      else
        let parts := plainPart v inFlow p :: gap :: parts
        let q := plainGap (p.advance (plainPart v inFlow p).length)
        if q.1 = [] || q.2.1.looksAt ['#'] || (!inFlow && (q.2.1.column : Int) < indent + 1) then
          (assemble parts, q.2.1, q.2.2)
        else plainText.go v inFlow indent fuel q.2.1 parts q.1 q.2.2 := by
  rw [plainText.go, plainPart]

theorem plainText_go_reaches (fuel : Nat) (h : q.Reaches p) (parts : List Text) (gap : Text) (broken : Bool) :
    q.Reaches (plainText.go v inFlow indent fuel p parts gap broken).2.1 := by
  induction fuel generalizing p parts gap broken with
  | zero => exact h
  | succ fuel ih =>
    rw [plainText_go_succ]
    split
    · exact h
    · have hgap := plainGap_reaches (h.advance (plainPart v inFlow p).length)
      dsimp only
      split
      · exact hgap
      · exact ih hgap _ _ _

theorem plainPart_of_ne_nil (h : plainPart v inFlow p ≠ []) : ∃ c, p.current = some c := by
  unfold plainPart at h
  split at h
  · exact absurd rfl h
  · cases hrest : p.rest with
    | nil =>
      rw [hrest] at h
      exact absurd rfl h
    | cons c rest => exact ⟨c, by rw [Position.current, hrest]; rfl⟩

theorem plainGap_forward (h : plainPart v inFlow p ≠ []) :
    p.next.Reaches (plainGap (p.advance (plainPart v inFlow p).length)).2.1 :=
  plainGap_reaches (reaches_advance_of_pos (List.length_pos_iff.2 h))

/-- A plain scalar takes a character if a part begins there. -/
theorem plainText_forward (h : plainPart v inFlow p ≠ []) : p.next.Reaches (plainText v inFlow indent p).2.1 := by
  rw [plainText, plainText_go_succ, if_neg h]
  dsimp only
  split
  · exact plainGap_forward h
  · exact plainText_go_reaches _ (plainGap_forward h) _ _ _

theorem plainBreaks_congr {n n' : Nat} (hn : p.rest.length < n) (hn' : p.rest.length < n') (breaks : Text) :
    plainBreaks n p breaks = plainBreaks n' p breaks := by
  refine fuel_congr (fun n (x : Position × Text) => plainBreaks n x.1 x.2) (fun x => x.1.rest.length)
    (x := (p, breaks)) ?_ hn hn'
  rintro n n' ⟨p, breaks⟩ ih
  dsimp only
  rw [plainBreaks, plainBreaks]
  split
  · rfl
  · dsimp only
    split
    · rename_i c hc
      split
      · exact ih (p.skipSpaces.next, _) ((Reaches.refl p).skipSpaces.length_next_lt hc)
      · rfl
    · rfl

theorem plainText_go_congr {n n' : Nat} (hn : p.rest.length < n) (hn' : p.rest.length < n') (parts : List Text)
    (gap : Text) (broken : Bool) :
    plainText.go v inFlow indent n p parts gap broken = plainText.go v inFlow indent n' p parts gap broken := by
  refine fuel_congr (fun n (x : Position × List Text × Text × Bool) =>
    plainText.go v inFlow indent n x.1 x.2.1 x.2.2.1 x.2.2.2) (fun x => x.1.rest.length)
    (x := (p, parts, gap, broken)) ?_ hn hn'
  rintro n n' ⟨p, parts, gap, broken⟩ ih
  dsimp only
  rw [plainText_go_succ, plainText_go_succ]
  split
  · rfl
  · rename_i hpart
    obtain ⟨c, hc⟩ := plainPart_of_ne_nil hpart
    dsimp only
    split
    · rfl
    · exact ih (_, _, _, _) (Reaches.length_lt hc (plainGap_forward hpart))

theorem plainText_eq {t : Text} (h : Reaches { rest := t } p) {n : Nat} (hn : p.rest.length < n) :
    plainText v inFlow indent p = plainText.go v inFlow indent n p [] [] false :=
  plainText_go_congr (length_lt_fuel h) hn [] [] false

end

/-! ## quoted scalars -/

section

variable {p q : Position}

theorem quotedBreaks_onward (fuel : Nat) (h : q.Reaches p) (breaks : Text) :
    Onward q Prod.snd (quotedBreaks fuel p breaks) := by
  induction fuel generalizing p breaks with
  | zero => exact .error
  | succ fuel ih =>
    rw [quotedBreaks]
    split
    · exact .error
    · dsimp only
      split
      · split
        · exact ih (h.skip _).next _
        · exact .ok (h.skip _)
      · exact .ok (h.skip _)

/-- A gap ends behind its blanks, or behind the line breaks that follow them. -/
theorem quotedGap_onward (h : q.Reaches (p.skip isSpace)) : Onward q Prod.snd (quotedGap p) := by
  unfold quotedGap
  dsimp only
  split
  · exact .error
  · split
    · exact (quotedBreaks_onward _ h.next _).bind fun x hx => .ok hx
    · exact .ok h

theorem escapeText_onward (h : q.Reaches p) : Onward q Prod.snd (escapeText p) := by
  unfold escapeText
  split
  · exact .error
  · split
    · exact .ok h.next
    · exact .bind_of fun _ _ => .bind_of fun _ _ => .ok (h.advance _)
    · split
      · exact quotedBreaks_onward _ h.next _
      · exact .error

theorem quotedText_go_onward {double : Bool} {quote : CodePoint} (fuel : Nat) (h : q.Reaches p) (parts : List Text) :
    Onward q Prod.snd (quotedText.go double quote fuel p parts) := by
  induction fuel generalizing p parts with
  | zero =>
    unfold quotedText.go
    exact .error
  | succ fuel ih =>
    unfold quotedText.go
    cases p.rest with
    | nil => exact .error
    | cons c after =>
      dsimp only
      split
      · exact (quotedGap_onward (h.skip _)).bind fun _ h => ih h _
      split
      · exact (escapeText_onward h.next).bind fun _ h => ih h _
      split
      · split
        · exact ih (h.advance 2) _
        · exact .ok h.next
      · exact ih h.next _

theorem quotedText_onward (double : Bool) (h : q.Reaches p) : Onward q Prod.snd (quotedText double p) :=
  quotedText_go_onward _ h _

theorem quotedBreaks_congr {n n' : Nat} (hn : p.rest.length < n) (hn' : p.rest.length < n') (breaks : Text) :
    quotedBreaks n p breaks = quotedBreaks n' p breaks := by
  refine fuel_congr (fun n (x : Position × Text) => quotedBreaks n x.1 x.2) (fun x => x.1.rest.length)
    (x := (p, breaks)) ?_ hn hn'
  rintro n n' ⟨p, breaks⟩ ih
  dsimp only
  rw [quotedBreaks, quotedBreaks]
  split
  · rfl
  · dsimp only
    split
    · rename_i c hc
      split
      · exact ih ((p.skip isSpace).next, _) (((Reaches.refl p).skip _).length_next_lt hc)
      · rfl
    · rfl

/-- A blank at the beginning of a gap is taken. -/
theorem quotedGap_forward {c : CodePoint} (hc : p.current = some c) (hgap : isSpace c || isBreak c) :
    Onward p.next Prod.snd (quotedGap p) := by
  by_cases hspace : isSpace c = true
  · exact quotedGap_onward (reaches_skip_of_current hc hspace)
  · have hbreak : isBreak c = true := by simpa [hspace] using hgap
    unfold quotedGap
    dsimp only
    rw [skip_of_current hc hspace, hc]
    dsimp only
    rw [if_pos hbreak]
    exact (quotedBreaks_onward _ (.refl _) _).bind fun x hx => .ok hx

theorem quotedText_go_congr {double : Bool} {quote : CodePoint} {n n' : Nat} (hn : p.rest.length < n)
    (hn' : p.rest.length < n') (parts : List Text) :
    quotedText.go double quote n p parts = quotedText.go double quote n' p parts := by
  refine fuel_congr (fun n (x : Position × List Text) => quotedText.go double quote n x.1 x.2)
    (fun x => x.1.rest.length) (x := (p, parts)) ?_ hn hn'
  rintro n n' ⟨p, parts⟩ ih
  dsimp only
  unfold quotedText.go
  cases hrest : p.rest with
  | nil => rfl
  | cons c after =>
    have hc : p.current = some c := by rw [Position.current, hrest]; rfl
    dsimp only
    split
    · rename_i hgap
      refine bind_congr_of_ok fun x hx => ?_
      exact ih (x.2, _) ((quotedGap_forward hc hgap x hx).length_lt hc)
    split
    · refine bind_congr_of_ok fun x hx => ?_
      exact ih (x.2, _) ((escapeText_onward (.refl _) x hx).length_lt hc)
    split
    · split
      · exact ih (p.advance 2, _) ((reaches_advance_of_pos (Nat.succ_pos 1)).length_lt hc)
      · rfl
    · exact ih (_, _) (Reaches.length_lt hc (.refl _))

theorem quotedText_eq {t : Text} (h : Reaches { rest := t } p) {double : Bool} {n : Nat} (hn : p.rest.length < n) :
    quotedText double p = quotedText.go double (if double then '\"' else '\'') n p [] :=
  quotedText_go_congr (length_lt_fuel h) hn []

end

/-! ## blocks -/

section

variable {p q : Position}

theorem blockHeader_onward (h : q.Reaches p) : Onward q (·.2.2) (blockHeader p) := by
  unfold blockHeader
  extract_lets chomping? increment?
  have hchomping : ∀ {p r : Position} {c : Chomping}, q.Reaches p → chomping? p = some (c, r) → q.Reaches r := by
    intro p r c h hr
    dsimp only [chomping?] at hr
    split at hr
    · cases hr
      exact h.next
    split at hr
    · cases hr
      exact h.next
    · cases hr
  have hincrement : ∀ {p r : Position} {n : Nat}, q.Reaches p → increment? p = some (n, r) → q.Reaches r := by
    intro p r n h hr
    dsimp only [increment?] at hr
    split at hr
    · split at hr
      · cases hr
        exact h.next
      · cases hr
    · cases hr
  have hrest : ∀ (chomping : Chomping) (increment : Option Nat) {r : Position}, q.Reaches r → Onward q (·.2.2) (do
      if increment = some 0 || !isWordEnd r.current then throw Failure.malformed
      return (chomping, increment, ← require r.endLine?)) := by
    intro chomping increment r hr
    split
    · exact .error
    · exact .bind_of fun s hs => .ok (hr.endLine (require_eq_ok_iff.1 hs))
  cases hfirst : chomping? p with
  | some first =>
    have hr := hchomping h hfirst
    cases hsecond : increment? first.2 with
    | some second =>
      simp only [hsecond]
      exact hrest _ _ (hincrement hr hsecond)
    | none =>
      simp only [hsecond]
      exact hrest _ _ hr
  | none =>
    cases hsecond : increment? p with
    | some second =>
      have hr := hincrement h hsecond
      cases hthird : chomping? second.2 with
      | some third =>
        simp only [hthird]
        exact hrest _ _ (hchomping hr hthird)
      | none =>
        simp only [hthird]
        exact hrest _ _ hr
    | none => exact hrest _ _ h

theorem blockBreaks_reaches (column fuel : Nat) (h : q.Reaches p) (breaks : Text) :
    q.Reaches (blockBreaks column fuel p breaks).2 := by
  induction fuel generalizing p breaks with
  | zero => exact h
  | succ fuel ih =>
    rw [blockBreaks]
    split
    · split
      · exact ih (h.advance _).next _
      · exact h.advance _
    · exact h.advance _

theorem blockLead_reaches {lead : BlockLead} (fuel : Nat) (h : q.Reaches lead.position) :
    q.Reaches (blockLead fuel lead).position := by
  induction fuel generalizing lead with
  | zero => exact h
  | succ fuel ih =>
    rw [blockLead]
    split
    · split
      · exact ih h.skipSpaces.next
      · exact h.skipSpaces
    · exact h.skipSpaces

theorem blockColumn_onward {indent : Int} {increment : Option Nat} (h : q.Reaches p) :
    Onward q (·.2.2) (blockColumn indent increment p) := by
  unfold blockColumn
  dsimp only
  split
  · exact .ok (blockBreaks_reaches _ _ h _)
  · split
    · exact .error
    · exact .ok (blockLead_reaches _ h)

theorem blockLines_reaches {fold untilMarker : Bool} {column : Nat} {lines : BlockLines} (fuel : Nat)
    (h : q.Reaches lines.position) : q.Reaches (blockLines fold untilMarker column fuel lines).position := by
  induction fuel generalizing lines with
  | zero => exact h
  | succ fuel ih =>
    rw [blockLines]
    dsimp only
    have hbreaks := fun k => blockBreaks_reaches column k
      (h.advance (lines.position.rest.takeWhile (!isBreak ·)).length).next []
    split
    · exact ih (hbreaks _)
    · exact hbreaks _

theorem blockText_onward {fold : Bool} {indent : Int} (h : q.Reaches p) :
    Onward q Prod.snd (blockText fold indent p) := by
  unfold blockText
  refine (blockHeader_onward h).bind fun header hheader => (blockColumn_onward hheader).bind fun lead hlead => .ok ?_
  dsimp only
  split
  · exact blockLines_reaches _ hlead
  · exact hlead

theorem blockBreaks_congr {column n n' : Nat} (hn : p.rest.length < n) (hn' : p.rest.length < n') (breaks : Text) :
    blockBreaks column n p breaks = blockBreaks column n' p breaks := by
  refine fuel_congr (fun n (x : Position × Text) => blockBreaks column n x.1 x.2) (fun x => x.1.rest.length)
    (x := (p, breaks)) ?_ hn hn'
  rintro n n' ⟨p, breaks⟩ ih
  dsimp only
  rw [blockBreaks, blockBreaks]
  split
  · rename_i c hc
    split
    · exact ih (_, _) (((Reaches.refl p).advance _).length_next_lt hc)
    · rfl
  · rfl

theorem blockLead_congr {lead : BlockLead} {n n' : Nat} (hn : lead.position.rest.length < n)
    (hn' : lead.position.rest.length < n') : blockLead n lead = blockLead n' lead := by
  refine fuel_congr blockLead (fun lead => lead.position.rest.length) ?_ hn hn'
  intro n n' lead ih
  rw [blockLead, blockLead]
  split
  · rename_i c hc
    split
    · exact ih _ ((Reaches.refl _).skipSpaces.length_next_lt hc)
    · rfl
  · rfl

theorem blockLines_congr {fold untilMarker : Bool} {column : Nat} {lines : BlockLines} {n n' : Nat}
    (hn : lines.position.rest.length < n) (hn' : lines.position.rest.length < n') :
    blockLines fold untilMarker column n lines = blockLines fold untilMarker column n' lines := by
  refine fuel_congr (blockLines fold untilMarker column) (fun lines => lines.position.rest.length) ?_ hn hn'
  intro n n' lines ih
  rw [blockLines, blockLines]
  dsimp only
  have hbreaks := fun k => blockBreaks_reaches column k
    (reaches_advance_of_pos (p := lines.position) (Nat.succ_pos (lines.position.rest.takeWhile (!isBreak ·)).length)) []
  split
  · rename_i hon
    simp only [Bool.and_eq_true, decide_eq_true_eq] at hon
    obtain ⟨⟨-, hne⟩, -⟩ := hon
    have hrest : lines.position.rest ≠ [] := by
      intro hnil
      refine hne (List.eq_nil_of_length_eq_zero (Nat.le_zero.1 (Nat.le_trans (hbreaks _).length_le ?_)))
      rw [next_rest, hnil]
      exact Nat.le_refl _
    obtain ⟨c, rest, hc⟩ := List.exists_cons_of_ne_nil hrest
    have hcurrent : lines.position.current = some c := by rw [Position.current, hc]; rfl
    exact ih _ ((hbreaks _).length_lt hcurrent)
  · rfl

end

/-! ## directives and tags -/

section

variable {p q : Position} {v : Version}

theorem readVersionNumber_onward (h : q.Reaches p) : Onward q Prod.snd (readVersionNumber p) := by
  unfold readVersionNumber
  extract_lets digits
  split
  · exact .error
  split
  · exact .error
  · exact .ok (h.advance _)

theorem readVersion_onward (h : q.Reaches p) : Onward q Prod.snd (readVersion p) := by
  refine (readVersionNumber_onward h.skipSpaces).bind fun major h => ?_
  dsimp only
  split
  · exact .error
  · refine (readVersionNumber_onward h.next).bind fun minor h => ?_
    split
    · exact .ok h
    · exact .error

theorem readUri_onward (h : q.Reaches p) : Onward q Prod.snd (readUri v p) := by
  unfold readUri
  extract_lets uri
  split
  · exact .error
  · exact .ok (h.advance _)

theorem readHandle_onward (h : q.Reaches p.next) : Onward q Prod.snd (readHandle p) := by
  unfold readHandle
  split
  · exact .error
  split
  · exact .ok h
  · dsimp only
    split
    · exact .ok (h.advance _).next
    · exact .error

theorem readDeclaration_onward (h : q.Reaches p) : Onward q (·.2.2) (readDeclaration v p) := by
  refine (readHandle_onward h.skipSpaces.next).bind fun handle h => ?_
  dsimp only
  split
  · exact .error
  · refine (readUri_onward h.skipSpaces).bind fun uri h => ?_
    split
    · exact .ok h
    · exact .error

theorem readDirective_onward (h : q.Reaches p.next) : Onward q Prod.snd (readDirective v p) := by
  unfold readDirective
  extract_lets p' name p''
  have hname : q.Reaches p'' := h.advance _
  split
  · exact .error
  · refine .bind (g := Prod.snd) ?_ fun x hx => .bind_of fun r hr => .ok (hx.endLine (require_eq_ok_iff.1 hr))
    split
    · exact (readVersion_onward hname).bind fun _ h => .ok h
    split
    · exact (readDeclaration_onward hname).bind fun _ h => .ok h
    · exact .ok (hname.skip _)

theorem readTag_onward (h : q.Reaches p.next) : Onward q Prod.snd (readTag v p) := by
  unfold readTag
  have hshort : q.Reaches (if p.next.looksAt ['!'] = true then (("!!" : Text), p.next) else ("!", p)).2.next := by
    split
    · exact h.next
    · exact h
  generalize (if p.next.looksAt ['!'] = true then (("!!" : Text), p.next) else ("!", p)) = short at hshort ⊢
  refine .bind (g := Prod.snd) ?_ fun x hx => ?_
  · split
    · refine (readUri_onward hshort.next).bind fun uri h => ?_
      dsimp only
      split
      · exact .ok h.next
      · exact .error
    split
    · exact .ok hshort
    · have huri : ∀ (handle : Text) {r : Position}, q.Reaches r → Onward q Prod.snd (do
          let uri ← readUri v r
          return ((⟨some handle, unescaped uri.1⟩ : TagName), uri.2)) :=
        fun _ _ hr => (readUri_onward hr).bind fun _ h => .ok h
      dsimp only
      split
      · exact (readHandle_onward hshort).bind fun handle h => huri _ h
      · exact huri _ hshort
  · dsimp only
    split
    · exact .ok hx
    · exact .error

end

/-! ## tokens -/

namespace Scan

variable {s s' : Scan} {q : Position} {c : CodePoint}

theorem unwind_position (s : Scan) (column : Int) : (s.unwind column).position = s.position := by
  unfold unwind
  split <;> rfl

theorem openBlock_position (s : Scan) (column : Nat) (t : Token) (place : Nat) :
    (s.openBlock column t place).position = s.position := by
  unfold openBlock
  split <;> rfl

theorem opened_position (s : Scan) (column : Nat) (t : Token) (place : Nat) :
    (if s.inFlow then s else s.openBlock column t place).position = s.position := by
  split
  · rfl
  · exact s.openBlock_position _ _ _

/-- Only the possible keys change. -/
theorem eq_of_dropKey (h : s.dropKey = .ok s') : ∃ keys, s' = { s with keys } := by
  unfold dropKey at h
  split at h
  · split at h
    · cases h
    · cases h
      exact ⟨_, rfl⟩
  · cases h
    exact ⟨_, rfl⟩

theorem eq_of_saveKey (h : s.saveKey = .ok s') : ∃ keys, s' = { s with keys } := by
  unfold saveKey at h
  split at h
  · cases h
    exact ⟨_, rfl⟩
  · obtain ⟨s₁, hdrop, h⟩ := Except.bind_eq_ok_iff.1 h
    obtain ⟨keys, rfl⟩ := eq_of_dropKey hdrop
    cases h
    exact ⟨_, rfl⟩

theorem eq_of_dropStale (h : s.dropStale = .ok s') : ∃ keys, s' = { s with keys } := by
  unfold dropStale at h
  extract_lets stale at h
  split at h
  · cases h
  · cases h
    exact ⟨_, rfl⟩

theorem position_of_dropKey (h : s.dropKey = .ok s') : s'.position = s.position := by
  obtain ⟨keys, rfl⟩ := eq_of_dropKey h
  rfl

theorem position_of_saveKey (h : s.saveKey = .ok s') : s'.position = s.position := by
  obtain ⟨keys, rfl⟩ := eq_of_saveKey h
  rfl

theorem position_of_closeAll (h : s.closeAll = .ok s') : s'.position = s.position := by
  obtain ⟨s₁, hdrop, h⟩ := Except.bind_eq_ok_iff.1 h
  cases h
  exact (position_of_dropKey hdrop).trans (s.unwind_position _)

/-- Whether a key may stand there does not matter for the position. -/
theorem reaches_of_position_eq (h : q.Reaches s.position.next) (hs : s'.position = s.position) :
    q.Reaches s'.position.next := by rwa [hs]

/-! ### single tokens -/

section

variable (h : q.Reaches s.position.next)

include h

theorem marker_onward {t : Token} : Onward q position (s.marker t) := by
  refine .bind_of fun s' hs => .ok ?_
  exact (reaches_of_position_eq h (position_of_closeAll hs)).advance 2

theorem directive_onward : Onward q position s.directive := by
  refine .bind_of fun s' hs => ?_
  exact (readDirective_onward (reaches_of_position_eq h (position_of_closeAll hs))).bind fun _ h => .ok h

theorem openFlow_onward {mapping : Bool} : Onward q position (s.openFlow mapping) :=
  .bind_of fun _ hs => .ok (reaches_of_position_eq h (position_of_saveKey hs))

theorem closeFlow_onward {t : Token} : Onward q position (s.closeFlow t) :=
  .bind_of fun _ hs => .ok (reaches_of_position_eq h (position_of_dropKey hs))

theorem flowEntry_onward : Onward q position s.flowEntry :=
  .bind_of fun _ hs => .ok (reaches_of_position_eq h (position_of_dropKey hs))

theorem blockEntry_onward : Onward q position s.blockEntry := by
  unfold blockEntry
  extract_lets opened more
  have hopened : opened.position = s.position := s.opened_position _ _ _
  refine .ite (fun _ => .error) fun _ => .bind_of fun s' hs => .ok ?_
  exact reaches_of_position_eq h ((position_of_dropKey hs).trans hopened)

theorem explicitKey_onward : Onward q position s.explicitKey := by
  unfold explicitKey
  extract_lets opened more
  have hopened : opened.position = s.position := s.opened_position _ _ _
  refine .ite (fun _ => .error) fun _ => .bind_of fun s' hs => .ok ?_
  exact reaches_of_position_eq h ((position_of_dropKey hs).trans hopened)

theorem colon_onward : Onward q position s.colon := by
  unfold colon
  split
  · exact .ok (reaches_of_position_eq h (opened_position _ _ _ _))
  · extract_lets opened more
    have hopened : opened.position = s.position := s.opened_position _ _ _
    refine .ite (fun _ => .error) fun _ => .bind_of fun s' hs => .ok ?_
    exact reaches_of_position_eq h ((position_of_dropKey (s := opened.allowKey _) hs).trans hopened)

theorem anchor_onward {make : Text → Token} : Onward q position (s.anchor make) := by
  refine .bind_of fun s' hs => ?_
  dsimp only
  split
  · exact .error
  · exact .ok ((reaches_of_position_eq h (position_of_saveKey hs)).advance _)

theorem tag_onward : Onward q position s.tag := by
  refine .bind_of fun s' hs => ?_
  exact (readTag_onward (reaches_of_position_eq h (position_of_saveKey hs))).bind fun _ h => .ok h

theorem block_onward {fold : Bool} : Onward q position (s.block fold) := by
  refine .bind_of fun s' hs => ?_
  have hposition : s'.position = s.position := position_of_dropKey (s := s.allowKey true) hs
  exact (blockText_onward (reaches_of_position_eq h hposition)).bind fun _ h => .ok h

theorem quoted_onward {double : Bool} : Onward q position (s.quoted double) := by
  refine .bind_of fun s' hs => ?_
  exact (quotedText_onward double (reaches_of_position_eq h (position_of_saveKey hs))).bind fun _ h => .ok h

end

theorem plain_onward (h : plainPart s.version s.inFlow s.position ≠ []) : Onward s.position.next position s.plain := by
  refine .bind_of fun s' hs => ?_
  obtain ⟨keys, rfl⟩ := eq_of_saveKey hs
  exact .ok (plainText_forward h)

theorem isPlainStart_cases (h : s.isPlainStart c) :
    c = '-' ∨ c = ':' ∨ c = '?' ∨ (c ≠ ':' ∧ c ≠ '?') ∧
      isGap (some c) = false ∧ c.isAny ['#'] = false ∧ c.isAny [',', '[', ']', '{', '}'] = false := by
  unfold isPlainStart at h
  extract_lets gap at h
  by_cases hhyphen : c = '-'
  · exact .inl hhyphen
  by_cases hcolon : c = ':'
  · exact .inr (.inl hcolon)
  by_cases hquestion : c = '?'
  · exact .inr (.inr (.inl hquestion))
  rw [if_neg hhyphen, if_neg hcolon, if_neg hquestion, Bool.and_eq_true, Bool.not_eq_true', Bool.not_eq_true'] at h
  refine .inr (.inr (.inr ⟨⟨hcolon, hquestion⟩, h.1, ?_⟩))
  have hany := h.2
  simp only [CodePoint.isAny, List.any_cons, List.any_nil, Bool.or_false, Bool.or_eq_false_iff] at hany ⊢
  obtain ⟨h₁, h₂, h₃, h₄, h₅, h₆, -⟩ := hany
  exact ⟨h₆, h₁, h₂, h₃, h₄, h₅⟩

section

variable {pending : Bool} (hstart : s.isPlainStart c)
  (hkey : ¬ (c = '?' && (s.inFlow || isGap (s.position.peek 1)))) (hcolon : ¬ (c = ':' && s.isColon pending))

include hstart hkey hcolon

theorem not_endsPlain : endsPlain s.version s.inFlow c (s.position.peek 1) = false := by
  rcases isPlainStart_cases hstart with rfl | rfl | rfl | ⟨⟨hother, hother'⟩, hgap, -, hany⟩
  · have hhyphen : isGap (some '-') = false ∧ CodePoint.isAny '-' [',', '[', ']', '{', '}'] = false := by decide
    rw [endsPlain, if_neg (by decide), if_neg (by decide), hhyphen.1, hhyphen.2, Bool.and_false, Bool.or_false]
  · have hcolon : s.isColon pending = false := by simpa using hcolon
    rw [endsPlain, if_pos rfl]
    unfold isColon at hcolon
    extract_lets gap at hcolon
    split at hcolon
    · exact hcolon
    · simp only [Bool.or_eq_false_iff] at hcolon
      exact hcolon.1.1
  · have hflow : s.inFlow = false := by
      simp only [decide_true, Bool.true_and, Bool.or_eq_true, not_or, Bool.not_eq_true] at hkey
      exact hkey.1
    rw [endsPlain, if_neg (by decide), if_pos rfl, hflow, Bool.false_and]
  · rw [endsPlain, if_neg hother, if_neg hother', hgap, hany, Bool.and_false, Bool.or_false]

/-- A plain scalar has a part where it begins. -/
theorem plainPart_ne_nil (hc : s.position.current = some c) : plainPart s.version s.inFlow s.position ≠ [] := by
  obtain ⟨rest, hrest⟩ := List.head?_eq_some_iff.1 hc
  have hends := not_endsPlain hstart hkey hcolon
  have hafter : s.position.peek 1 = rest.head? := by
    rw [Position.peek, hrest, List.getElem?_cons_succ, List.head?_eq_getElem?]
  have hhash : s.position.looksAt ['#'] = false := by
    rw [looksAt, hc, Option.any_some]
    rcases isPlainStart_cases hstart with rfl | rfl | rfl | ⟨-, -, hhash, -⟩
    · decide
    · decide
    · decide
    · exact hhash
  rw [plainPart, hhash, if_neg Bool.false_ne_true, hrest, plainRun, ← hafter, hends, if_neg Bool.false_ne_true]
  exact List.cons_ne_nil _ _

end

/-- **Every token takes a character.** -/
theorem token_onward {pending : Bool} (hc : s.position.current = some c) :
    Onward s.position.next position (s.token c pending) := by
  have h := Reaches.refl s.position.next
  unfold token
  extract_lets gap atMarker
  refine .ite (fun _ => directive_onward h) fun _ => .ite (fun _ => marker_onward h) fun _ =>
    .ite (fun _ => marker_onward h) fun _ => .ite (fun _ => openFlow_onward h) fun _ =>
    .ite (fun _ => openFlow_onward h) fun _ => .ite (fun _ => closeFlow_onward h) fun _ =>
    .ite (fun _ => closeFlow_onward h) fun _ => .ite (fun _ => flowEntry_onward h) fun _ =>
    .ite (fun _ => blockEntry_onward h) fun _ => .ite (fun _ => explicitKey_onward h) fun hkey =>
    .ite (fun _ => colon_onward h) fun hcolon => .ite (fun _ => anchor_onward h) fun _ =>
    .ite (fun _ => anchor_onward h) fun _ => .ite (fun _ => tag_onward h) fun _ =>
    .ite (fun _ => block_onward h) fun _ => .ite (fun _ => block_onward h) fun _ =>
    .ite (fun _ => quoted_onward h) fun _ => .ite (fun _ => quoted_onward h) fun _ =>
    .ite (fun hstart => plain_onward (plainPart_ne_nil hstart hkey hcolon hc)) fun _ => .error

theorem skipBlanks_reaches (fuel : Nat) (h : q.Reaches s.position) : q.Reaches (skipBlanks fuel s).position := by
  induction fuel generalizing s with
  | zero => exact h
  | succ fuel ih =>
    rw [skipBlanks]
    split
    · exact ih (h.skip _).skipComment.next
    · exact (h.skip _).skipComment

theorem skipBlanks_congr {n n' : Nat} (hn : s.position.rest.length < n) (hn' : s.position.rest.length < n') :
    skipBlanks n s = skipBlanks n' s := by
  refine fuel_congr skipBlanks (fun s => s.position.rest.length) ?_ hn hn'
  intro n n' s ih
  rw [skipBlanks, skipBlanks]
  split
  · rename_i hbreak
    obtain ⟨c, hc, -⟩ := (Option.any_eq_true _ _).1 hbreak
    exact ih _ (((Reaches.refl _).skip _).skipComment.length_next_lt hc)
  · rfl

/-- If the text goes on, the next token makes it shorter. -/
theorem length_lt_of_next {pending : Bool} (h : s.next pending = .ok (s', false)) :
    s'.position.rest.length < s.position.rest.length := by
  unfold next at h
  obtain ⟨s₁, hstale, h⟩ := Except.bind_eq_ok_iff.1 h
  have hreaches : s.position.Reaches (s₁.unwind s₁.column).position := by
    obtain ⟨keys, rfl⟩ := eq_of_dropStale hstale
    rw [unwind_position]
    exact skipBlanks_reaches _ (.refl _)
  dsimp only at h
  split at h
  · obtain ⟨s₂, -, h⟩ := Except.bind_eq_ok_iff.1 h
    cases h
  · rename_i c hc
    obtain ⟨s₂, htoken, h⟩ := Except.bind_eq_ok_iff.1 h
    cases h
    exact Nat.lt_of_lt_of_le ((token_onward hc _ htoken).length_lt hc) hreaches.length_le

/-- **The fuel of a scan is bookkeeping.** -/
theorem all_congr {n n' : Nat} (hn : s.position.rest.length < n) (hn' : s.position.rest.length < n') :
    all n s = all n' s := by
  refine fuel_congr all (fun s => s.position.rest.length) ?_ hn hn'
  intro n n' s ih
  rw [all, all]
  cases hstale : s.dropStale with
  | error e => rfl
  | ok s₁ =>
    dsimp only
    cases hnext : s₁.settle.next !s₁.settle.keys.isEmpty with
    | error e => rfl
    | ok result =>
      obtain ⟨s₂, ended⟩ := result
      cases ended with
      | true => rfl
      | false =>
        have hposition : s₁.settle.position = s.position := by
          obtain ⟨keys, rfl⟩ := eq_of_dropStale hstale
          rfl
        have hlt := length_lt_of_next hnext
        rw [hposition] at hlt
        exact ih s₂ hlt

end Scan

/-- The fuel of the scan of a text may be anything greater than its length. -/
theorem exists_tokens_eq {t : Text} (h : t.all isAllowed = true) : ∃ u, (u = t ∨ u = t.tail) ∧
    ∀ n, u.length < n → tokens t = Scan.all n { position := { rest := u } } := by
  have hall : ∀ u : Text, ∀ n, u.length < n →
      Scan.all (u.length + 1) { position := { rest := u } } = Scan.all n { position := { rest := u } } :=
    fun u n hn => Scan.all_congr (Nat.lt_succ_self u.length) hn
  unfold tokens
  rw [h, if_neg (by decide)]
  cases t with
  | nil => exact ⟨[], .inl rfl, hall []⟩
  | cons c rest =>
    by_cases hmark : c.val = 0xFEFF
    · refine ⟨rest, .inr rfl, ?_⟩
      dsimp only
      rw [if_pos hmark]
      exact hall rest
    · refine ⟨c :: rest, .inl rfl, ?_⟩
      dsimp only
      rw [if_neg hmark]
      exact hall (c :: rest)

end UriTemplate.Yaml
