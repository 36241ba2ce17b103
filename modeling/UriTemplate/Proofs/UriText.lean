import UriTemplate.Proofs.Encoding
import UriTemplate.Proofs.Pieces

/-!
# Expansions are text of URIs

Literals, delimiters, names and encoded values have no characters that a URI may not have, and no percent sign without
its digits; so neither has what is made of them.  An apostrophe is allowed in a URI, but not in a template.

* `CodePoint.isExcluded`, `UriSafe` — what is kept out of URIs;
* `UriText` — text without it; `literalText_iff` — the literals of templates are such text without apostrophes;
* `Piece.literalText_or_leaf`, `Piece.uriText` — the pieces of expansions;
* `ApostrophesFromLeaves`, `apostrophesFromLeaves` — where apostrophes are from;
* `Template.Constant`, `UriText.parse_eq_ok`, `parse_apostrophe` — text of a URI that is read as a template;
* `expand_uriSafe` — all of it for what a template expands to.
-/

namespace UriTemplate

open CodePoint

/-! ## text of URIs -/

/-- Controls, the space, braces and a few other characters. -/
def CodePoint.isExcluded (c : CodePoint) : Bool :=
  c.val ≤ 0x20 || (0x7F ≤ c.val && c.val ≤ 0x9F) || c.isAny ['{', '}', '\"', '<', '>', '\\', '^', '`', '|']

/-- There are no excluded characters, and two hexadecimal digits behind every percent sign. -/
structure UriSafe (t : Text) : Prop where
  not_excluded : ∀ c ∈ t, c.isExcluded = false
  digits : ∀ before behind : Text, t = before ++ ('%' : CodePoint) :: behind →
    ∃ a b rest, behind = a :: b :: rest ∧ a.isHexDigit ∧ b.isHexDigit

/-- Characters that are not excluded, and percent triplets. -/
inductive UriText : Text → Prop
  | nil : UriText []
  | char {c : CodePoint} (allowed : c.isExcluded = false) (ne_percent : c ≠ '%') {t : Text} (rest : UriText t) :
    UriText (c :: t)
  | triplet (p : Triplet) {t : Text} (rest : UriText t) : UriText (p.text ++ t)

/-- What may stand in a literal may stand in a URI, and the other way round but for the apostrophe. -/
theorem isLiteral_iff {c : CodePoint} : (c.isLiteral = true ∧ c ≠ '{') ↔ (c.isExcluded = false ∧ c ≠ '\'') := by
  simp only [isLiteral, isExcluded, isAny_cons, isAny_nil, Bool.not_eq_true', Bool.or_eq_false_iff,
    decide_eq_false_iff_not]
  grind

theorem isExcluded_of_covers {policy : Policy} {c : CodePoint} (h : policy.Covers c) :
    c.isExcluded = false ∧ c ≠ '%' := by
  have hclass : c.isUnreserved = true ∨ c.isReserved = true := h.imp_right And.right
  simp only [isUnreserved, isReserved, isLetter, isUpper, isLower, isDigit, isExcluded, isAny, eq_ofChar_iff,
    List.any_cons, List.any_nil, Char.reduceToNat, Bool.or_false, Bool.or_eq_true, Bool.and_eq_true, Bool.or_eq_false_iff,
    Bool.and_eq_false_imp, decide_eq_true_eq, decide_eq_false_iff_not, beq_iff_eq, beq_eq_false_iff_ne, ne_eq]
    at hclass ⊢
  omega

theorem isHexDigit_of_isUpperHexDigit {c : CodePoint} (h : c.isUpperHexDigit) : c.isHexDigit := by
  unfold isHexDigit hexValue?
  rcases Bool.or_eq_true_iff.1 h with h | h
  · rw [if_pos h]
    rfl
  · simp only [h]
    split <;> rfl

theorem isUnreserved_of_isNameText {c : CodePoint} (h : c.isNameText) : c.isUnreserved = true ∨ c = '%' := by
  simp only [isNameText, isNameChar, isUnreserved, isAny_cons, isAny_nil, Bool.or_eq_true] at h ⊢
  grind

theorem isExcluded_of_isNameText {c : CodePoint} (h : c.isNameText) : c.isExcluded = false := by
  rcases isUnreserved_of_isNameText h with h | rfl
  · have hcovers : Policy.unreserved.Covers c := .inl h
    exact (isExcluded_of_covers hcovers).1
  · decide

namespace UriText

theorem append {t u : Text} (ht : UriText t) (hu : UriText u) : UriText (t ++ u) := by
  induction ht with
  | nil => exact hu
  | char allowed ne_percent _ ih => exact .char allowed ne_percent ih
  | triplet p _ ih =>
    rw [List.append_assoc]
    exact .triplet p ih

theorem flatMap {α : Type} {f : α → Text} {as : List α} (h : ∀ a ∈ as, UriText (f a)) : UriText (as.flatMap f) := by
  induction as with
  | nil => exact .nil
  | cons a as ih =>
    rw [List.flatMap_cons]
    exact (h a (by simp)).append (ih fun b hb => h b (List.mem_cons_of_mem _ hb))

theorem safe {t : Text} (h : UriText t) : UriSafe t := by
  induction h with
  | nil => exact ⟨by simp, by simp⟩
  | @char c allowed ne_percent t _ ih =>
    refine ⟨List.forall_mem_cons.2 ⟨allowed, ih.not_excluded⟩, fun before behind h => ?_⟩
    rcases Text.append_eq_append_cons (s := [c]) h with ⟨before', -, ht⟩ | ⟨rest, hc, -⟩
    · exact ih.digits before' behind ht
    · have hmem : ('%' : CodePoint) ∈ [c] := by simp [hc]
      exact absurd (List.mem_singleton.1 hmem).symm ne_percent
  | @triplet p t _ ih =>
    refine ⟨List.forall_mem_append.2 ⟨fun c hc => ?_, ih.not_excluded⟩, fun before behind h => ?_⟩
    · exact isExcluded_of_isNameText (p.text_isNameText c hc)
    rcases Text.append_eq_append_cons h with ⟨before', -, ht⟩ | ⟨rest, hp, rfl⟩
    · exact ih.digits before' behind ht
    · have hfirst : p.first ≠ '%' := ne_of_class p.first_hex (by decide)
      have hsecond : p.second ≠ '%' := ne_of_class p.second_hex (by decide)
      cases before with
      | nil =>
        obtain ⟨-, rfl⟩ := List.cons.inj hp
        exact ⟨p.first, p.second, t, rfl, p.first_hex, p.second_hex⟩
      | cons d before =>
        have hmem : ('%' : CodePoint) ∈ [p.first, p.second] := by simp [(List.cons.inj hp).2]
        simp [hfirst.symm, hsecond.symm] at hmem

end UriText

theorem EncodedText.uriText {policy : Policy} {t : Text} (h : EncodedText policy t) : UriText t := by
  induction h with
  | nil => exact .nil
  | char covered _ ih => exact .char (isExcluded_of_covers covered).1 (isExcluded_of_covers covered).2 ih
  | triplet first second _ ih =>
    exact .triplet ⟨_, _, isHexDigit_of_isUpperHexDigit first, isHexDigit_of_isUpperHexDigit second⟩ ih

/-! ## literals -/

theorem apostrophe_not_mem_triplet (p : Triplet) : ('\'' : CodePoint) ∉ p.text :=
  Text.not_mem_of_class p.text_isNameText (by decide)

/-- **The literals of templates are the text of URIs that has no apostrophe.** -/
theorem literalText_iff {t : Text} : LiteralText t ↔ UriText t ∧ ('\'' : CodePoint) ∉ t := by
  constructor
  · intro h
    induction h with
    | nil => exact ⟨.nil, by simp⟩
    | char isLiteral ne_brace ne_percent _ ih =>
      obtain ⟨allowed, ne_apostrophe⟩ := isLiteral_iff.1 ⟨isLiteral, ne_brace⟩
      exact ⟨.char allowed ne_percent ih.1, by simp [ne_apostrophe.symm, ih.2]⟩
    | triplet p _ ih => exact ⟨.triplet p ih.1, by simp [apostrophe_not_mem_triplet p, ih.2]⟩
  · rintro ⟨h, hnot⟩
    induction h with
    | nil => exact .nil
    | char allowed ne_percent _ ih =>
      rw [List.mem_cons, not_or] at hnot
      obtain ⟨isLiteral, ne_brace⟩ := isLiteral_iff.2 ⟨allowed, Ne.symm hnot.1⟩
      exact .char isLiteral ne_brace ne_percent (ih hnot.2)
    | triplet p _ ih =>
      rw [List.mem_append, not_or] at hnot
      exact .triplet p (ih hnot.2)

/-- No triplet has an apostrophe in it, so text of a URI may be cut there. -/
theorem UriText.before_apostrophe {t before behind : Text} (h : UriText t)
    (ht : t = before ++ ('\'' : CodePoint) :: behind) : UriText before := by
  induction h generalizing before with
  | nil => simp at ht
  | @char c allowed ne_percent t _ ih =>
    cases before with
    | nil => exact .nil
    | cons d before =>
      obtain ⟨rfl, hrest⟩ := List.cons.inj ht
      exact .char allowed ne_percent (ih hrest)
  | @triplet p t _ ih =>
    rcases Text.append_eq_append_cons ht with ⟨before, rfl, hrest⟩ | ⟨rest, hp, -⟩
    · exact .triplet p (ih hrest)
    · exact absurd (by simp [hp]) (apostrophe_not_mem_triplet p)

theorem LiteralText.of_forall {t : Text} (h : ∀ c ∈ t, c.isLiteral = true ∧ c ≠ '{' ∧ c ≠ '%') : LiteralText t := by
  induction t with
  | nil => exact .nil
  | cons c t ih =>
    obtain ⟨⟨isLiteral, ne_brace, ne_percent⟩, ht⟩ := List.forall_mem_cons.1 h
    exact .char isLiteral ne_brace ne_percent (ih ht)

theorem NameUnit.uriText (u : NameUnit) : UriText u.text := by
  cases u with
  | char c hc =>
    have hne : c ≠ '%' := ne_of_class hc (by decide)
    exact .char (isExcluded_of_isNameText (isNameText_of_isNameChar hc)) hne .nil
  | triplet p => exact .triplet p .nil

theorem Name.literalText (n : Name) : LiteralText n.text := by
  refine literalText_iff.2 ⟨n.head.uriText.append (UriText.flatMap fun u _ => ?_), ?_⟩
  · refine UriText.append ?_ u.unit.uriText
    split
    · exact .char (by decide) (by decide) .nil
    · exact .nil
  · exact Text.not_mem_of_class n.text_isNameText (by decide)

theorem Operator.literalText_of_mem_delimiters {op : Operator} (hop : op ∈ all) {t : Text} (ht : t ∈ op.delimiters) :
    LiteralText t := by
  have hall : ∀ op ∈ all, ∀ t ∈ op.delimiters, ∀ c ∈ t, c.isLiteral = true ∧ c ≠ '{' ∧ c ≠ '%' := by decide
  exact .of_forall (hall op hop t ht)

/-! ## pieces -/

/-- Only two operators leave the reserved characters of values as they are. -/
theorem Operator.policy_cases {op : Operator} (h : op ∈ all) :
    op.policy = .unreserved ∨ op = reserved ∨ op = fragment :=
  (by decide : ∀ op ∈ all, op.policy = .unreserved ∨ op = reserved ∨ op = fragment) op h

section

variable {resolve : Resolver} {es : List Element} (hes : Spellable es) {p : Piece} (hp : p.IsFrom resolve es)

include hes hp

/-- **All pieces could be literals but the leaves under the operators of reserved characters.** -/
theorem Piece.literalText_or_leaf :
    LiteralText p.text ∨ ∃ op t, p = .leaf op t ∧ (op = .reserved ∨ op = .fragment) := by
  cases p with
  | literal t =>
    obtain ⟨s, hs, rfl⟩ := hp
    exact .inl (hes.literal_mem hs)
  | delimiter op t =>
    obtain ⟨⟨s, rs, he⟩, ht⟩ := hp
    exact .inl (Operator.literalText_of_mem_delimiters (hes.expression_mem he).1 ht)
  | name op t =>
    obtain ⟨s, rs, he, r, hr, rfl⟩ := hp
    obtain ⟨⟨n, hn⟩, -⟩ := (hes.expression_mem he).2 r hr
    rw [hn]
    exact .inl n.literalText
  | leaf op t =>
    obtain ⟨s, rs, he, -⟩ := hp
    rcases Operator.policy_cases (hes.expression_mem he).1 with hpolicy | hop
    · refine .inl (literalText_iff.2 ⟨(encode_encodedText op.policy t).uriText, ?_⟩)
      rw [text, hpolicy]
      exact Text.not_mem_of_class (p := Policy.unreserved.writes) (fun c hc => writes_of_mem_encode hc) (by decide)
    · exact .inr ⟨op, t, rfl, hop⟩

theorem Piece.uriText : UriText p.text := by
  rcases Piece.literalText_or_leaf hes hp with h | ⟨op, t, rfl, -⟩
  · exact (literalText_iff.1 h).1
  · exact (encode_encodedText op.policy t).uriText

end

/-- Every apostrophe that is written stands in a leaf under one of the operators of reserved characters.  What is written
before it and behind it is what stands before it and behind it in the leaf. -/
def ApostrophesFromLeaves (ps : List Piece) : Prop :=
  ∀ before behind : Text, ps.flatMap Piece.text = before ++ ('\'' : CodePoint) :: behind →
    ∃ ps₁ op t₁ t₂ ps₂, ps = ps₁ ++ .leaf op (t₁ ++ ('\'' : CodePoint) :: t₂) :: ps₂ ∧
      (op = .reserved ∨ op = .fragment) ∧ before = ps₁.flatMap Piece.text ++ encode op.policy t₁ ∧
      behind = encode op.policy t₂ ++ ps₂.flatMap Piece.text

theorem apostrophesFromLeaves {resolve : Resolver} {es : List Element} (hes : Spellable es) {ps : List Piece}
    (hps : ∀ p ∈ ps, p.IsFrom resolve es) : ApostrophesFromLeaves ps := by
  intro before behind h
  obtain ⟨ps₁, p, ps₂, u, v, rfl, hp, rfl, rfl⟩ := Text.flatMap_eq_append_cons h
  rcases Piece.literalText_or_leaf hes (hps p (by simp)) with hliteral | ⟨op, t, rfl, hop⟩
  · exact absurd (by simp [hp]) (literalText_iff.1 hliteral).2
  · obtain ⟨t₁, t₂, rfl, rfl, rfl⟩ := encode_eq_append_cons (by decide) (by decide) (by decide) hp
    exact ⟨ps₁, op, t₁, t₂, ps₂, rfl, hop, rfl, rfl⟩

/-! ## text of URIs as templates -/

/-- The template has no expressions and at most one element, and it expands to this text with all sources. -/
structure Template.Constant (t : Template) (out : Text) : Prop where
  no_expression : t.expressions = []
  length_le : t.elements.length ≤ 1
  expand_eq : ∀ sources named resolve, Resolver.ofSources sources named = .ok resolve →
    ∀ w, t.expand sources named w = (.ok out, w)

/-- A template that is a single literal, or empty. -/
theorem constant_glue (source t : Text) : (Template.mk source (Derivation.glue 0 t [])).Constant t := by
  by_cases ht : t = []
  · subst ht
    refine ⟨rfl, by simp, fun sources named resolve hresolve w => ?_⟩
    rw [Template.expand_of_resolver hresolve]
    rfl
  · rw [Derivation.glue_of_not_literal ht (by simp)]
    refine ⟨rfl, by simp, fun sources named resolve hresolve w => ?_⟩
    rw [Template.expand_of_resolver hresolve, expandElements_singleton]
    show (Except.ok (t ++ []), w) = (Except.ok t, w)
    rw [List.append_nil]

theorem parse_literalText {t : Text} (h : LiteralText t) : ∃ t', Template.parse t = .ok t' ∧ t'.Constant t := by
  obtain ⟨d, rfl, hd⟩ := Derivation.exists_literal h
  have helements : d.elements = Derivation.glue 0 d.text [] := by
    have := hd [] 0
    rwa [List.append_nil] at this
  refine ⟨⟨d.text, d.elements⟩, d.parse_text, ?_⟩
  rw [helements]
  exact constant_glue _ _

theorem parse_apostrophe {t : Text} (h : UriText t) (hmem : ('\'' : CodePoint) ∈ t) :
    Template.parse t = .error (.malformed (.character (t.idxOf ('\'' : CodePoint)))) := by
  obtain ⟨before, behind, rfl, hbefore⟩ := List.eq_append_cons_of_mem hmem
  obtain ⟨d, rfl, -⟩ := Derivation.exists_literal (literalText_iff.2 ⟨h.before_apostrophe rfl, hbefore⟩)
  have herror : parseElements (('\'' : CodePoint) :: behind) = .error (.malformed (.character 0)) := rfl
  have hindex : (d.text ++ ('\'' : CodePoint) :: behind).idxOf ('\'' : CodePoint) = 0 + d.text.length := by
    rw [List.idxOf_append, if_neg hbefore, List.idxOf_cons_self]
  rw [Template.parse_eq_error_iff, hindex]
  exact parseElements_append_error d herror

/-- **Text of a URI is a template exactly if there is no apostrophe in it**, and then it is constant. -/
theorem UriText.parse_eq_ok {t : Text} (h : UriText t) :
    ((∃ t', Template.parse t = .ok t') ↔ ('\'' : CodePoint) ∉ t) ∧ ∀ t', Template.parse t = .ok t' → t'.Constant t := by
  by_cases hmem : ('\'' : CodePoint) ∈ t
  · have hfault : ∀ t', Template.parse t ≠ .ok t' := by
      intro t' ht'
      rw [parse_apostrophe h hmem] at ht'
      cases ht'
    exact ⟨⟨fun ⟨t', ht'⟩ => absurd ht' (hfault t'), fun hnot => absurd hmem hnot⟩, fun t' ht' => absurd ht' (hfault t')⟩
  · obtain ⟨t', ht', hconstant⟩ := parse_literalText (literalText_iff.2 ⟨h, hmem⟩)
    refine ⟨⟨fun _ => hmem, fun _ => ⟨t', ht'⟩⟩, fun t'' ht'' => ?_⟩
    rwa [← Except.ok.inj (ht'.symm.trans ht'')]

/-! ## expansions -/

/-- **What a template expands to is text of a URI.**  It is made of pieces of the template and of values, and every
apostrophe in it is an apostrophe of a leaf under one of the operators of reserved characters.  It is a template itself
exactly if there is no apostrophe in it.  Then it is a literal, unless it is empty, and expands to itself.  Else its first
apostrophe is what is wrong with it. -/
theorem expand_uriSafe {source : Text} {t : Template} (hparse : Template.parse source = .ok t) {sources : List Source}
    {named : Table Text Value} {w w' : World} {out : Text} (hexpand : t.expand sources named w = (.ok out, w')) :
    UriSafe out ∧
      (∃ resolve ps, Resolver.ofSources sources named = .ok resolve ∧ readPieces resolve t.elements w = (.ok ps, w') ∧
        ps.flatMap Piece.text = out ∧ (∀ p ∈ ps, p.IsFrom resolve t.elements) ∧ ApostrophesFromLeaves ps) ∧
      ((∃ t', Template.parse out = .ok t') ↔ ('\'' : CodePoint) ∉ out) ∧
      (∀ t', Template.parse out = .ok t' → t'.Constant out) ∧
      (('\'' : CodePoint) ∈ out →
        ∃ e, Template.parse out = .error (.malformed e) ∧ e.kind = .illegalCharacter ∧
          e.offset = some (out.idxOf ('\'' : CodePoint))) := by
  have hes := Template.spellable hparse
  cases hresolve : Resolver.ofSources sources named with
  | error e =>
    rw [Template.expand_of_unusable hresolve] at hexpand
    cases hexpand
  | ok resolve =>
    rw [Template.expand_of_resolver hresolve, expandElements_eq_readPieces, map_eq_pure_bind] at hexpand
    obtain ⟨ps, w₁, hps, hout⟩ := bind_eq_ok hexpand
    obtain ⟨rfl, rfl⟩ := pure_eq_ok hout
    have hfrom : ∀ p ∈ ps, p.IsFrom resolve t.elements := readPieces_isFrom (fun _ he => he) hps
    have huri : UriText (ps.flatMap Piece.text) := UriText.flatMap fun p hp => Piece.uriText hes (hfrom p hp)
    obtain ⟨hiff, hconstant⟩ := huri.parse_eq_ok
    exact ⟨huri.safe, ⟨resolve, ps, rfl, hps, rfl, hfrom, apostrophesFromLeaves hes hfrom⟩, hiff, hconstant,
      fun hmem => ⟨_, parse_apostrophe huri hmem, rfl, rfl⟩⟩

/-- The reserved characters of a value are left as they are by one operator and encoded by the other one. -/
theorem expand_uriSafe_apostrophe :
    let t : Template := ⟨"a{+x}{?y}", [.literal ⟨"a", 0, 1⟩, .expression ⟨"{+x}", 1, 5⟩ .reserved [{ name := "x" }],
      .expression ⟨"{?y}", 5, 9⟩ .query [{ name := "y" }]]⟩
    let named : Table Text Value := [("x", .text "it's"), ("y", .text "o'k")]
    Template.parse ("a{+x}{?y}" : Text) = .ok t ∧ t.expand [] named {} = (.ok ("ait's?y=o%27k" : Text), {}) ∧
      UriSafe ("ait's?y=o%27k" : Text) ∧
      ∃ e, Template.parse ("ait's?y=o%27k" : Text) = .error (.malformed e) ∧ e.kind = .illegalCharacter ∧
        e.offset = some 3 := by
  intro t named
  have hparse : Template.parse ("a{+x}{?y}" : Text) = .ok t := rfl
  have hexpand : t.expand [] named {} = (.ok ("ait's?y=o%27k" : Text), {}) := rfl
  obtain ⟨hsafe, -, -, -, hfault⟩ := expand_uriSafe hparse hexpand
  exact ⟨hparse, hexpand, hsafe, hfault (by decide)⟩

end UriTemplate
