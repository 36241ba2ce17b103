import UriTemplate.Proofs.Grammar
import UriTemplate.Proofs.Splitting

/-!
# The grammar is unambiguous

Every production is prefix-free or ends before a character that it cannot hold, so a text has one derivation at most.

* `CodePoint.isNameText`, `CodePoint.isSpecText` — the characters of names and of variables;
* `nameUnit_prefixFree`, `dottedUnit_prefixFree`, `item_prefixFree` — units, dotted units and items;
* `Name.text_inj`, `VariableSpec.text_inj`, `ExpressionSpec.cut` — names, variables and expressions;
* `Derivation.text_inj` — a text has one derivation.
-/

namespace UriTemplate

/-! ## characters of names and variables -/

namespace CodePoint

/-- The characters that a name is written with. -/
def isNameText (c : CodePoint) : Bool := c.isNameChar || c.isAny ['.', '%']

/-- The characters that a variable is written with. -/
def isSpecText (c : CodePoint) : Bool := c.isNameText || c.isAny [':', '*']

theorem isNameChar_of_isDigit {c : CodePoint} (h : c.isDigit) : c.isNameChar := by
  simp [isNameChar, h]

theorem isNameChar_of_isHexDigit {c : CodePoint} (h : c.isHexDigit) : c.isNameChar := by
  unfold isHexDigit hexValue? at h
  simp only [isNameChar, isLetter, isUpper, isLower, Bool.or_eq_true, Bool.and_eq_true, decide_eq_true_eq]
  split at h
  · next hd => exact .inl (.inr hd)
  · split at h
    · next hu => simp only [Bool.and_eq_true, decide_eq_true_eq] at hu; omega
    · split at h
      · next hl => simp only [Bool.and_eq_true, decide_eq_true_eq] at hl; omega
      · simp at h

theorem isNameText_of_isNameChar {c : CodePoint} (h : c.isNameChar) : c.isNameText := by
  simp [isNameText, h]

theorem isSpecText_of_isNameText {c : CodePoint} (h : c.isNameText) : c.isSpecText := by
  simp [isSpecText, h]

end CodePoint

open CodePoint

theorem Triplet.text_isNameText (p : Triplet) : ∀ c ∈ p.text, c.isNameText := by
  intro c hc
  simp only [Triplet.text, List.mem_cons, List.not_mem_nil, or_false] at hc
  rcases hc with rfl | rfl | rfl
  · decide
  · exact isNameText_of_isNameChar (isNameChar_of_isHexDigit p.first_hex)
  · exact isNameText_of_isNameChar (isNameChar_of_isHexDigit p.second_hex)

theorem NameUnit.text_isNameText (u : NameUnit) : ∀ c ∈ u.text, c.isNameText := by
  cases u with
  | char c hc =>
    intro d hd
    obtain rfl := List.mem_singleton.1 hd
    exact isNameText_of_isNameChar hc
  | triplet p => exact p.text_isNameText

theorem DottedUnit.text_isNameText (u : DottedUnit) : ∀ c ∈ u.text, c.isNameText := by
  intro c hc
  rcases List.mem_append.1 hc with h | h
  · cases hd : u.dotted with
    | false => simp [hd] at h
    | true =>
      simp only [hd, if_true, List.mem_singleton] at h
      subst h
      decide
  · exact u.unit.text_isNameText c h

theorem Name.text_isNameText (n : Name) : ∀ c ∈ n.text, c.isNameText := by
  intro c hc
  rcases List.mem_append.1 hc with h | h
  · exact n.head.text_isNameText c h
  · obtain ⟨u, -, hu⟩ := List.mem_flatMap.1 h
    exact u.text_isNameText c hu

theorem VariableSpec.text_isSpecText (v : VariableSpec) : ∀ c ∈ v.text, c.isSpecText := by
  intro c hc
  rcases List.mem_append.1 hc with h | h
  · exact isSpecText_of_isNameText (v.name.text_isNameText c h)
  · cases hm : v.modifier with
    | none => simp [hm, Modifier.text] at h
    | explode =>
      simp only [hm, Modifier.text, List.mem_singleton] at h
      subst h
      decide
    | limit l =>
      simp only [hm, Modifier.text, List.mem_cons] at h
      rcases h with rfl | h
      · decide
      · exact isSpecText_of_isNameText (isNameText_of_isNameChar (isNameChar_of_isDigit (l.isDigit c h)))

theorem VariableSpec.comma_not_mem (v : VariableSpec) : (',' : CodePoint) ∉ v.text :=
  Text.not_mem_of_class v.text_isSpecText (by decide)

/-! ## names -/

theorem Triplet.cut {p q : Triplet} {s t : Text} (h : p.text ++ s = q.text ++ t) : p = q ∧ s = t := by
  cases p
  cases q
  simp only [Triplet.text, List.cons_append, List.nil_append, List.cons.injEq, true_and] at h
  obtain ⟨rfl, rfl, rfl⟩ := h
  exact ⟨rfl, rfl⟩

theorem nameUnit_prefixFree : Text.PrefixFree NameUnit.text where
  ne_nil u := by cases u <;> simp [NameUnit.text, Triplet.text]
  cut u v s t h := by
    cases u with
    | char c hc =>
      cases v with
      | char d hd =>
        simp only [NameUnit.text, List.cons_append, List.nil_append, List.cons.injEq] at h
        obtain ⟨rfl, rfl⟩ := h
        exact ⟨rfl, rfl⟩
      | triplet q =>
        simp only [NameUnit.text, Triplet.text, List.cons_append, List.nil_append, List.cons.injEq] at h
        exact absurd h.1 (ne_of_class hc (by decide))
    | triplet p =>
      cases v with
      | char d hd =>
        simp only [NameUnit.text, Triplet.text, List.cons_append, List.nil_append, List.cons.injEq] at h
        exact absurd h.1.symm (ne_of_class hd (by decide))
      | triplet q =>
        obtain ⟨rfl, rfl⟩ := Triplet.cut h
        exact ⟨rfl, rfl⟩

/-- A unit begins with a character of its own, or with a percent sign. -/
theorem NameUnit.exists_head (u : NameUnit) :
    ∃ c r, u.text = c :: r ∧ (c.isNameChar = true ∨ c = '%') := by
  cases u with
  | char c hc => exact ⟨c, [], rfl, .inl hc⟩
  | triplet p => exact ⟨'%', _, rfl, .inr rfl⟩

theorem NameUnit.ne_dot (u : NameUnit) (s t : Text) : u.text ++ s ≠ ('.' : CodePoint) :: t := by
  obtain ⟨c, r, hu, hc⟩ := u.exists_head
  rw [hu]
  intro h
  obtain ⟨rfl, -⟩ := List.cons.inj h
  rcases hc with hc | hc
  · exact absurd hc (by decide)
  · exact absurd hc (by decide)

theorem dottedUnit_prefixFree : Text.PrefixFree DottedUnit.text where
  ne_nil u h := nameUnit_prefixFree.ne_nil u.unit (List.append_eq_nil_iff.1 h).2
  cut u v s t h := by
    obtain ⟨d, u⟩ := u
    obtain ⟨e, v⟩ := v
    cases d <;> cases e
    · obtain ⟨rfl, rfl⟩ := nameUnit_prefixFree.cut _ _ _ _ h
      exact ⟨rfl, rfl⟩
    · exact absurd h (u.ne_dot _ _)
    · exact absurd h.symm (v.ne_dot _ _)
    · obtain ⟨rfl, rfl⟩ := nameUnit_prefixFree.cut _ _ _ _ (List.cons.inj h).2
      exact ⟨rfl, rfl⟩

theorem Name.text_inj {m n : Name} (h : m.text = n.text) : m = n := by
  obtain ⟨u, us⟩ := m
  obtain ⟨v, vs⟩ := n
  obtain ⟨rfl, htail⟩ := nameUnit_prefixFree.cut _ _ _ _ h
  obtain rfl : us = vs := dottedUnit_prefixFree.flatMap_inj htail
  rfl

/-! ## variables and expressions -/

theorem Modifier.text_inj {m n : Modifier} (h : m.text = n.text) : m = n := by
  cases m <;> cases n <;> simp_all [Modifier.text, eq_ofChar_iff]
  next l k =>
  cases l
  cases k
  simp_all

/-- The name ends where the modifier begins. -/
theorem VariableSpec.takeWhile_text (v : VariableSpec) : v.text.takeWhile isNameText = v.name.text := by
  rw [VariableSpec.text, List.takeWhile_append_of_pos v.name.text_isNameText]
  cases v.modifier with
  | none => simp [Modifier.text]
  | explode => rw [Modifier.text, List.takeWhile_cons_of_neg (by decide), List.append_nil]
  | limit l => rw [Modifier.text, List.takeWhile_cons_of_neg (by decide), List.append_nil]

theorem VariableSpec.text_inj {v w : VariableSpec} (h : v.text = w.text) : v = w := by
  have hname : v.name.text = w.name.text := by rw [← v.takeWhile_text, h, w.takeWhile_text]
  have hmod : v.modifier.text = w.modifier.text := by
    rw [VariableSpec.text, VariableSpec.text, hname] at h
    exact List.append_cancel_left h
  obtain ⟨n, m⟩ := v
  obtain ⟨n', m'⟩ := w
  obtain rfl : n = n' := Name.text_inj hname
  obtain rfl : m = m' := Modifier.text_inj hmod
  rfl

theorem VariableSpec.listed_nil (v : VariableSpec) : v.listed [] = v.text := Text.join_singleton _ _

theorem VariableSpec.listed_cons (v w : VariableSpec) (vs : List VariableSpec) :
    v.listed (w :: vs) = v.text ++ (',' : CodePoint) :: w.listed vs := by
  rw [listed, List.map_cons, List.map_cons, Text.join_cons_cons, List.append_assoc]
  rfl

theorem VariableSpec.exists_listed_eq (v : VariableSpec) (vs : List VariableSpec) :
    ∃ r, v.listed vs = v.name.head.text ++ r := by
  cases vs with
  | nil => exact ⟨_, by rw [listed_nil, text, Name.text, List.append_assoc]⟩
  | cons w vs => exact ⟨_, by rw [listed_cons, text, Name.text, List.append_assoc, List.append_assoc]⟩

namespace ExpressionSpec

variable (e : ExpressionSpec)

theorem specs_inj {e f : ExpressionSpec} (h : e.body = f.body) : e.specs = f.specs := by
  have hcomma : ∀ vs : List VariableSpec, ∀ t ∈ vs.map VariableSpec.text, (',' : CodePoint) ∉ t := by
    intro vs t ht
    obtain ⟨v, -, rfl⟩ := List.mem_map.1 ht
    exact v.comma_not_mem
  have hmap := Text.join_inj (by simp) (by simp) (hcomma _) (hcomma _) h
  exact (List.map_inj_right fun _ _ => VariableSpec.text_inj).1 hmap

/-- The body begins with a character that is no operator. -/
theorem exists_body_head : ∃ c r, e.body = c :: r ∧ (c.isNameChar = true ∨ c = '%') := by
  obtain ⟨c, r, hu, hc⟩ := e.first.name.head.exists_head
  obtain ⟨r', hr⟩ := e.first.exists_listed_eq e.rest
  rw [hu] at hr
  exact ⟨c, _, hr, hc⟩

end ExpressionSpec

namespace Operator

/-- The operator that a text begins with. -/
def ofHead : Text → Operator
  | [] => simple
  | c :: _ => (ofChar? c).getD simple

theorem ofChar?_eq_none {c : CodePoint} (h : c.isNameChar = true ∨ c = '%') : ofChar? c = none := by
  have hne : ∀ e ∈ table, c ≠ e.1 := by
    intro e he
    rcases h with h | rfl
    · exact ne_of_class h ((by decide : ∀ e ∈ table, isNameChar e.1 = false) e he)
    · exact (by decide : ∀ e ∈ table, ('%' : CodePoint) ≠ e.1) e he
  rw [ofChar?, Option.map_eq_none_iff, List.find?_eq_none]
  intro e he
  simpa using hne e he

theorem ofChar?_symbol {op : Operator} (h : op ∈ all) :
    (op = simple ∧ op.symbol = []) ∨ ∃ c, op.symbol = [c] ∧ ofChar? c = some op := by
  simp only [all, List.mem_cons, List.not_mem_nil, or_false] at h
  rcases h with rfl | rfl | rfl | rfl | rfl | rfl | rfl | rfl
  · exact .inl ⟨rfl, rfl⟩
  all_goals exact .inr ⟨_, rfl, by decide⟩

theorem ofHead_symbol {op : Operator} (h : op ∈ all) {c : CodePoint} (hc : c.isNameChar = true ∨ c = '%') (t : Text) :
    ofHead (op.symbol ++ c :: t) = op := by
  rcases ofChar?_symbol h with ⟨rfl, hs⟩ | ⟨d, hs, hd⟩
  · rw [hs, List.nil_append, ofHead, ofChar?_eq_none hc]
    rfl
  · rw [hs, List.singleton_append, ofHead, hd]
    rfl

theorem symbol_ne_brace {op : Operator} (h : op ∈ all) : ('}' : CodePoint) ∉ op.symbol :=
  (by decide : ∀ op ∈ all, ('}' : CodePoint) ∉ op.symbol) op h

end Operator

namespace ExpressionSpec

/-- Variables and commas are all that there is in a body. -/
theorem not_mem_body (e : ExpressionSpec) {c : CodePoint} (hspec : c.isSpecText = false) (hcomma : c ≠ ',') :
    c ∉ e.body := by
  intro h
  rcases Text.mem_intercalate h with h | ⟨t, ht, hc⟩
  · exact hcomma (List.mem_singleton.1 h)
  · obtain ⟨v, -, rfl⟩ := List.mem_map.1 ht
    exact Text.not_mem_of_class v.text_isSpecText hspec hc

theorem cut {e f : ExpressionSpec} {s t : Text} (h : e.text ++ s = f.text ++ t) : e = f ∧ s = t := by
  have hbrace : ∀ e : ExpressionSpec, ('}' : CodePoint) ∉ e.operator.symbol ++ e.body := by
    intro e he
    rcases List.mem_append.1 he with he | he
    · exact Operator.symbol_ne_brace e.operator_mem he
    · exact e.not_mem_body (by decide) (by decide) he
  simp only [text, List.cons_append, List.append_assoc, List.nil_append, List.cons.injEq, true_and] at h
  rw [← List.append_assoc, ← List.append_assoc] at h
  obtain ⟨hinner, rfl⟩ := Text.append_cons_inj (hbrace e) (hbrace f) h
  have hop : e.operator = f.operator := by
    obtain ⟨c, r, he, hc⟩ := e.exists_body_head
    obtain ⟨d, r', hf, hd⟩ := f.exists_body_head
    rw [he, hf] at hinner
    rw [← Operator.ofHead_symbol e.operator_mem hc r, hinner, Operator.ofHead_symbol f.operator_mem hd r']
  rw [hop] at hinner
  have hvars := specs_inj (List.append_cancel_left hinner)
  obtain ⟨op, hmem, v, vs⟩ := e
  obtain ⟨op', hmem', w, ws⟩ := f
  obtain ⟨rfl, rfl⟩ := List.cons.inj hvars
  subst hop
  exact ⟨rfl, rfl⟩

end ExpressionSpec

/-! ## templates -/

/-- The first character tells the three kinds of items apart. -/
theorem item_prefixFree : Text.PrefixFree Item.text where
  ne_nil i := by cases i <;> simp [Item.text, Triplet.text, ExpressionSpec.text]
  cut i j s t h := by
    cases i with
    | char c hl hb hp =>
      cases j with
      | char d _ _ _ =>
        obtain ⟨rfl, rfl⟩ := List.cons.inj h
        exact ⟨rfl, rfl⟩
      | triplet q => exact absurd (List.cons.inj h).1 hp
      | expression f => exact absurd (List.cons.inj h).1 hb
    | triplet p =>
      cases j with
      | char d _ _ hd => exact absurd (List.cons.inj h).1.symm hd
      | triplet q =>
        obtain ⟨rfl, rfl⟩ := Triplet.cut h
        exact ⟨rfl, rfl⟩
      | expression f => exact absurd (List.cons.inj h).1 (by decide)
    | expression e =>
      cases j with
      | char d _ hd _ => exact absurd (List.cons.inj h).1.symm hd
      | triplet q => exact absurd (List.cons.inj h).1 (by decide)
      | expression f =>
        obtain ⟨rfl, rfl⟩ := ExpressionSpec.cut h
        exact ⟨rfl, rfl⟩

/-- **A text has one derivation at most.** -/
theorem Derivation.text_inj {d d' : Derivation} (h : d.text = d'.text) : d = d' :=
  item_prefixFree.flatMap_inj h

end UriTemplate
