import UriTemplate.Proofs.Calls
import UriTemplate.Proofs.CodeUnits
import UriTemplate.Proofs.Encoding

/-!
# Cutting texts

A text may be cut anywhere but within a surrogate pair: its parts are then encoded on their own.  A character limit cuts a
text at such a place.

* `Text.joinPairs_append_iff`, `encode_append_iff` — when two texts are joined, and encoded, one by one;
* `encode_take_append_drop` — the code points in front of a place, and those behind it, are encoded by themselves;
* `limitTo_limitTo` — of two limits the lower one counts;
* `VariableSpec.exists_expand_scalar` — what a variable by itself expands to, if its value is a single one;
* `limit_cuts_code_points` — a limit takes whole code points off the end of an expansion.
-/

namespace UriTemplate

open CodePoint

/-! ## texts that meet -/

namespace CodePoint

theorem Pairs.not_low {high low : CodePoint} (h : Pairs high low) : high.isLow = false := by
  have hhigh := isHigh_iff.1 h.1
  rw [← Bool.not_eq_true, isLow_iff]
  omega

end CodePoint

/-- A high surrogate at the end of the first text, and a low one at the beginning of the second. -/
def Text.PairAcross (t u : Text) : Prop := ∃ high low, high ∈ t.getLast? ∧ low ∈ u.head? ∧ Pairs high low

namespace Text

theorem Joined.not_pairAcross {t u : Text} (h : Joined (t ++ u)) : ¬ PairAcross t u := by
  rintro ⟨high, low, hhigh, hlow, hpair⟩
  exact (List.isChain_append.1 h).2.2 high hhigh low hlow hpair

/-- **Texts are joined one by one exactly if no pair is made where they meet.** -/
theorem joinPairs_append_iff (t u : Text) : joinPairs (t ++ u) = joinPairs t ++ joinPairs u ↔ ¬ PairAcross t u := by
  constructor
  · rintro h ⟨high, low, hhigh, hlow, hpair⟩
    obtain ⟨t, rfl⟩ := List.getLast?_eq_some_iff.1 hhigh
    obtain ⟨u, rfl⟩ := List.head?_eq_some_iff.1 hlow
    -- by themselves the two surrogates are left, but what is joined has no pair
    have hlast : joinPairs (t ++ [high]) = joinPairs t ++ [high] := by
      refine joinPairs_append fun c _ d hd hpair' => ?_
      obtain rfl := Option.some.inj hd
      rw [Pairs, hpair.not_low] at hpair'
      cases hpair'.2
    have hhead : joinPairs (low :: u) = low :: joinPairs u := by
      refine joinPairs_cons fun d _ hpair' => ?_
      rw [Pairs, hpair.not_high] at hpair'
      cases hpair'.1
    have hjoined := joined_joinPairs (t ++ [high] ++ low :: u)
    rw [h] at hjoined
    exact hjoined.not_pairAcross ⟨high, low, by simp [hlast], by simp [hhead], hpair⟩
  · intro h
    exact joinPairs_append fun high hhigh low hlow hpair => h ⟨high, low, hhigh, hlow, hpair⟩

end Text

/-- **Texts are encoded one by one exactly if no surrogate pair is made where they meet**: the first one does not end in a
high surrogate, or the second one does not begin with a low one. -/
theorem encode_append_iff (policy : Policy) (t u : Text) :
    encode policy (t ++ u) = encode policy t ++ encode policy u ↔
      ¬ ∃ high low, high ∈ t.getLast? ∧ low ∈ u.head? ∧ high.isHigh = true ∧ low.isLow = true := by
  have hpairs : encode policy (t ++ u) = encode policy t ++ encode policy u ↔
      Text.joinPairs (t ++ u) = Text.joinPairs t ++ Text.joinPairs u := by
    constructor
    · intro h
      have hdecode := congrArg decodeText h
      rwa [decodeText_encode, decodeText_encode_append, Option.some.injEq] at hdecode
    · intro h
      rw [encode, h, List.flatMap_append]
      rfl
  rw [hpairs]
  exact Text.joinPairs_append_iff t u

/-- Two surrogates make six triplets, their pair makes four. -/
example :
    let high : Text := [⟨0xD83D, by decide⟩]
    let low : Text := [⟨0xDCA9, by decide⟩]
    encode .unreserved high ++ encode .unreserved low = "%ED%A0%BD%ED%B2%A9" ∧
      encode .unreserved (high ++ low) = "%F0%9F%92%A9" := by decide

/-! ## texts that are cut -/

namespace Text

theorem Joined.append_left {t u : Text} (h : Joined (t ++ u)) : t.Joined := (List.isChain_append.1 h).1

theorem Joined.append_right {t u : Text} (h : Joined (t ++ u)) : u.Joined := (List.isChain_append.1 h).2.1

variable (t : Text) (n : Nat)

/-- The code points of a text, up to a place and from there on. -/
theorem joined_take_append_drop : Joined (t.joinPairs.take n ++ t.joinPairs.drop n) := by
  rw [List.take_append_drop]
  exact joined_joinPairs t

theorem joinPairs_take : joinPairs (t.joinPairs.take n) = t.joinPairs.take n :=
  (joinPairs_eq_self_iff _).2 (joined_take_append_drop t n).append_left

theorem joinPairs_drop : joinPairs (t.joinPairs.drop n) = t.joinPairs.drop n :=
  (joinPairs_eq_self_iff _).2 (joined_take_append_drop t n).append_right

theorem joinPairs_eq_nil_iff : t.joinPairs = [] ↔ t = [] := by
  induction t using joinPairs_induction with
  | nil => exact Iff.rfl
  | pair high low t h => simp [joinPairs_of_pair h]
  | single c t h => simp [joinPairs_cons h]

end Text

/-- Joining pairs makes no difference to the encoding. -/
theorem encode_joinPairs (policy : Policy) (t : Text) : encode policy t.joinPairs = encode policy t :=
  encode_eq_encode_iff.2 ((Text.joinPairs_eq_self_iff _).2 (Text.joined_joinPairs t))

/-- **Between two code points the encoded text may be cut too.** -/
theorem encode_take_append_drop (policy : Policy) (t : Text) (n : Nat) :
    encode policy (t.joinPairs.take n) ++ encode policy (t.joinPairs.drop n) = encode policy t := by
  have hmeet := (encode_append_iff policy _ _).2 (Text.joined_take_append_drop t n).not_pairAcross
  rw [← hmeet, List.take_append_drop, encode_joinPairs]

theorem encode_eq_nil_iff (policy : Policy) (t : Text) : encode policy t = [] ↔ t = [] := by
  have hnil : encode policy [] = [] := rfl
  rw [← Text.joinPairs_eq_nil_iff t, ← hnil]
  exact encode_eq_encode_iff

/-! ## limits -/

/-- **Of two limits the lower one counts.** -/
theorem limitTo_limitTo (t : Text) (a b : Nat) :
    limitTo (some b) (limitTo (some a) t) = limitTo (some (min a b : Nat)) t := by
  show (Text.joinPairs (t.joinPairs.take a)).take b = t.joinPairs.take (min a b)
  rw [Text.joinPairs_take, List.take_take, Nat.min_comm]

/-- The text of a unit that is not labelled by a key, if it has one leaf. -/
theorem ExpansionUnit.written_labelOf (op : Operator) (name leaf : Text) :
    (ExpansionUnit.mk (op.labelOf name) [leaf]).written op =
      (if op.named then name ++ op.equalsSign (encode op.policy leaf) else []) ++ encode op.policy leaf := by
  have hvalue : op.valueText [leaf] = encode op.policy leaf := by
    rw [Operator.valueText, encoded_singleton, Option.getD_some]
  rw [written, Operator.labelOf, hvalue]
  cases op.named <;> rfl

/-- **What a variable by itself expands to**, if its value is a single one. -/
theorem VariableSpec.exists_expand_scalar {op : Operator} (hop : op ∈ Operator.all) (v : VariableSpec) :
    ∃ template, Template.parse (op.braced v.text) = .ok template ∧
      ∀ sources named resolve s t w w', Resolver.ofSources sources named = .ok resolve → s.toText = .ok t →
        resolve v.name.text w = (.ok (.scalar s), w') →
        template.expand sources named w =
          (.ok (op.first.getD [] ++
            (ExpansionUnit.mk (op.labelOf v.name.text) [limitTo v.reference.limit t]).written op), w') := by
  let e : ExpressionSpec := ⟨op, hop, v, []⟩
  have htext : e.text = op.braced v.text := by
    rw [e.text_eq_braced, ExpressionSpec.body, listed_nil]
  obtain ⟨span, hparse⟩ := e.parse_text
  rw [htext] at hparse
  refine ⟨_, hparse, fun sources named resolve s t w w' hresolve ht hx => ?_⟩
  have hvalues : [v.reference.name].mapM resolve w = (.ok [.scalar s], w') := by
    rw [v.name_reference, List.mapM_cons, bind_of_ok hx]
    rfl
  have hunits : unitsOf op [v.reference] [.scalar s] = [⟨op.labelOf v.name.text, [limitTo v.reference.limit t]⟩] := by
    rw [unitsOf, List.zip_cons_cons, List.zip_nil_left, List.flatMap_cons, List.flatMap_nil, List.append_nil]
    rw [VariableReference.units, v.name_reference, Value.scalarText, ht]
  have hexpansion : expansion ExpansionUnit.written [.expression span op e.references] [.scalar s] =
      op.assemble ((unitsOf op [v.reference] [.scalar s]).map (·.written op)) ++ [] := rfl
  rw [Template.expand_eq hparse hresolve hvalues (by simp [Value.Rereadable]) (by simpa [Value.Converts] using ⟨t, ht⟩)]
  rw [hexpansion, hunits, List.map_singleton, List.append_nil, Operator.assemble, if_neg (List.cons_ne_nil _ _),
    Text.join_singleton]

/-- **A limit takes whole code points off the end of an expansion.**  A variable by itself is written with and without a
limit, and its value has the text `t`.  Both expansions begin alike, and so many code points of the text stand behind this
beginning as the limit allows, a surrogate pair being one of them.  What the limit cuts off stands for the other code
points by itself, so neither a triplet nor the bytes of a code point are split; it is nothing exactly if the text is no
longer than the limit.  A limit on what is limited already counts if it is lower. -/
theorem limit_cuts_code_points (t : Text) :
    (∀ op ∈ Operator.all, ∀ (x : Name) (l : Limit), ∃ (limited whole : Template) (front cut rest : Text),
      Template.parse (op.braced (x.text ++ (':' : CodePoint) :: l.digits)) = .ok limited ∧
      Template.parse (op.braced x.text) = .ok whole ∧
      front = op.first.getD [] ++ (if op.named then x.text ++ op.equalsSign t else []) ∧
      decodeText cut = some (t.joinPairs.take (digitsValue l.digits)) ∧
      decodeText rest = some (t.joinPairs.drop (digitsValue l.digits)) ∧
      (rest = [] ↔ t.joinPairs.length ≤ digitsValue l.digits) ∧
      ∀ sources named resolve s w w', Resolver.ofSources sources named = .ok resolve → s.toText = .ok t →
        resolve x.text w = (.ok (.scalar s), w') →
        limited.expand sources named w = (.ok (front ++ cut), w') ∧
          whole.expand sources named w = (.ok (front ++ cut ++ rest), w')) ∧
    ∀ a b : Nat, limitTo (some b) (limitTo (some a) t) = limitTo (some (min a b : Nat)) t := by
  refine ⟨fun op hop x l => ?_, limitTo_limitTo t⟩
  obtain ⟨limited, hlimited, hexpand⟩ := VariableSpec.exists_expand_scalar hop ⟨x, .limit l⟩
  obtain ⟨whole, hwhole, hexpand'⟩ := VariableSpec.exists_expand_scalar hop ⟨x, .none⟩
  let n := digitsValue l.digits
  have hlimit : limitTo (VariableSpec.mk x (.limit l)).reference.limit t = t.joinPairs.take n := rfl
  have hnone : limitTo (VariableSpec.mk x .none).reference.limit t = t := rfl
  have hbare : (VariableSpec.mk x .none).text = x.text := List.append_nil _
  rw [hbare] at hwhole
  -- the limit is at least one, so the value is empty on both sides or on neither
  have hsign : ∀ u : Text, (u = [] ↔ t = []) → op.equalsSign (encode op.policy u) = op.equalsSign t := by
    intro u hu
    simp only [Operator.equalsSign, ne_eq, encode_eq_nil_iff, hu]
  have htake : t.joinPairs.take n = [] ↔ t = [] := by
    have hpos : n ≠ 0 := Nat.ne_of_gt l.value_pos
    rw [List.take_eq_nil_iff, or_iff_right hpos, Text.joinPairs_eq_nil_iff]
  refine ⟨limited, whole, op.first.getD [] ++ (if op.named then x.text ++ op.equalsSign t else []),
    encode op.policy (t.joinPairs.take n), encode op.policy (t.joinPairs.drop n), hlimited, hwhole, rfl, ?_, ?_, ?_, ?_⟩
  · rw [decodeText_encode, Text.joinPairs_take]
  · rw [decodeText_encode, Text.joinPairs_drop]
  · rw [encode_eq_nil_iff, List.drop_eq_nil_iff]
  · intro sources named resolve s w w' hresolve ht hx
    rw [hexpand sources named resolve s t w w' hresolve ht hx, hexpand' sources named resolve s t w w' hresolve ht hx]
    rw [ExpansionUnit.written_labelOf, ExpansionUnit.written_labelOf, hlimit, hnone, hsign _ htake, hsign t Iff.rfl,
      List.append_assoc, List.append_assoc, List.append_assoc, encode_take_append_drop]
    exact ⟨rfl, rfl⟩

/-- A pair, a letter with an accent, and a surrogate by itself, which the limit cuts off. -/
theorem limit_cuts_code_points_pair :
    let t : Text := [⟨0xD83D, by decide⟩, ⟨0xDCA9, by decide⟩, ⟨0xE9, by decide⟩, ⟨0xD83D, by decide⟩]
    let named : Table Text Value := [("x", .text t)]
    ∃ (limited whole : Template) (cut rest : Text), Template.parse ("{?x:2}" : Text) = .ok limited ∧
      Template.parse ("{?x}" : Text) = .ok whole ∧ limited.expand [] named {} = (.ok ("?x=" ++ cut), {}) ∧
      whole.expand [] named {} = (.ok ("?x=" ++ cut ++ rest), {}) ∧
      decodeText cut = some [⟨0x1F4A9, by decide⟩, ⟨0xE9, by decide⟩] ∧ decodeText rest = some [⟨0xD83D, by decide⟩] ∧
      limitTo (some (1 : Nat)) (limitTo (some (2 : Nat)) t) = [⟨0x1F4A9, by decide⟩] := by
  intro t named
  let x : Name := ⟨.char 'x' rfl, []⟩
  obtain ⟨hlimit, hlower⟩ := limit_cuts_code_points t
  obtain ⟨limited, whole, front, cut, rest, hlimited, hwhole, rfl, hcut, hrest, -, hexpand⟩ :=
    hlimit .query (by decide) x (.ofNat 2 (by decide) (by decide))
  have hx : Resolver.ofTable named x.text {} = (.ok (.scalar (.text t)), {}) := rfl
  obtain ⟨hlimitedText, hwholeText⟩ := hexpand [] named (.ofTable named) (.text t) {} {} rfl rfl hx
  exact ⟨limited, whole, cut, rest, hlimited, hwhole, hlimitedText, hwholeText, hcut, hrest, hlower 2 1⟩

end UriTemplate
