import UriTemplate.Text.Basic

/-!
# Texts around separators

* `Text.split_join` — cutting at a separator undoes joining, if no part has the separator in it;
* `Text.splitFirst_append_cons` — the first occurrence of a character cuts a text in one way only;
* `Text.flatMap_eq_append_cons` — a character of texts one behind the other stands in one of them;
* `Text.PrefixFree` — texts that can be told apart from the left; sequences of them are read in one way only
  (`PrefixFree.flatMap_inj`).
-/

namespace UriTemplate

/-- A class of characters keeps out those that are not in it. -/
theorem CodePoint.ne_of_class {p : CodePoint → Bool} {c d : CodePoint} (hc : p c = true) (hd : p d = false) : c ≠ d := by
  rintro rfl
  rw [hc] at hd
  cases hd

namespace Text

theorem not_mem_of_class {p : CodePoint → Bool} {t : Text} {d : CodePoint} (h : ∀ c ∈ t, p c = true)
    (hd : p d = false) : d ∉ t :=
  fun hm => CodePoint.ne_of_class (h d hm) hd rfl

/-! ## join -/

@[simp] theorem join_nil (s : Text) : join s [] = [] := rfl

@[simp] theorem join_singleton (s t : Text) : join s [t] = t := List.intercalate_singleton

@[simp] theorem join_cons_cons (s t u : Text) (ts : List Text) :
    join s (t :: u :: ts) = t ++ s ++ join s (u :: ts) :=
  List.intercalate_cons_cons

theorem join_append {s : Text} {ts us : List Text} (ht : ts ≠ []) (hu : us ≠ []) :
    join s (ts ++ us) = join s ts ++ s ++ join s us := by
  induction ts with
  | nil => exact absurd rfl ht
  | cons t ts ih =>
    cases ts with
    | nil =>
      obtain ⟨u, us, rfl⟩ := List.exists_cons_of_ne_nil hu
      simp
    | cons t' ts =>
      have h := ih (by simp)
      simp only [List.cons_append] at h
      simp only [List.cons_append, join_cons_cons, h, List.append_assoc]

theorem mem_intercalate {α : Type} {s : List α} {ts : List (List α)} {c : α} (h : c ∈ s.intercalate ts) :
    c ∈ s ∨ ∃ t ∈ ts, c ∈ t := by
  induction ts with
  | nil => simp at h
  | cons t ts ih =>
    cases ts with
    | nil => exact .inr ⟨t, by simp, by simpa using h⟩
    | cons u ts =>
      rw [List.intercalate_cons_cons, List.mem_append, List.mem_append] at h
      rcases h with (h | h) | h
      · exact .inr ⟨t, by simp, h⟩
      · exact .inl h
      · rcases ih h with h | ⟨v, hv, hc⟩
        · exact .inl h
        · exact .inr ⟨v, List.mem_cons_of_mem _ hv, hc⟩

theorem flatMap_intercalate {α β : Type} (f : α → List β) (s : List α) (ts : List (List α)) :
    (s.intercalate ts).flatMap f = (s.flatMap f).intercalate (ts.map (·.flatMap f)) := by
  induction ts with
  | nil => rfl
  | cons t ts ih =>
    cases ts with
    | nil => simp
    | cons u ts =>
      simp only [List.map_cons, List.intercalate_cons_cons, List.flatMap_append] at ih ⊢
      rw [ih]

/-! ## split -/

theorem split_cons_of_ne {c d : CodePoint} (h : d ≠ c) {t p : Text} {ps : List Text} (ht : split c t = p :: ps) :
    split c (d :: t) = (d :: p) :: ps := by
  rw [split, if_neg h, ht]

theorem split_of_not_mem {c : CodePoint} {t : Text} (h : c ∉ t) : split c t = [t] := by
  induction t with
  | nil => rfl
  | cons d t ih =>
    rw [List.mem_cons, not_or] at h
    exact split_cons_of_ne (Ne.symm h.1) (ih h.2)

theorem split_append_cons {c : CodePoint} {t : Text} (h : c ∉ t) (u : Text) :
    split c (t ++ c :: u) = t :: split c u := by
  induction t with
  | nil => rw [List.nil_append, split, if_pos rfl]
  | cons d t ih =>
    rw [List.mem_cons, not_or] at h
    exact split_cons_of_ne (Ne.symm h.1) (ih h.2)

/-- **Cutting undoes joining.** -/
theorem split_join {c : CodePoint} {ts : List Text} (hne : ts ≠ []) (h : ∀ t ∈ ts, c ∉ t) :
    split c (join [c] ts) = ts := by
  induction ts with
  | nil => exact absurd rfl hne
  | cons t ts ih =>
    have ht := h t (by simp)
    cases ts with
    | nil => rw [join_singleton, split_of_not_mem ht]
    | cons u ts =>
      rw [join_cons_cons, List.append_assoc, List.singleton_append, split_append_cons ht,
        ih (by simp) (fun v hv => h v (List.mem_cons_of_mem _ hv))]

theorem join_inj {c : CodePoint} {ts us : List Text} (hts : ts ≠ []) (hus : us ≠ []) (ht : ∀ t ∈ ts, c ∉ t)
    (hu : ∀ t ∈ us, c ∉ t) (h : join [c] ts = join [c] us) : ts = us := by
  rw [← split_join hts ht, h, split_join hus hu]

/-! ## the first occurrence -/

theorem splitFirst_of_not_mem {c : CodePoint} {t : Text} (h : c ∉ t) : splitFirst c t = none := by
  induction t with
  | nil => rfl
  | cons d t ih =>
    rw [List.mem_cons, not_or] at h
    rw [splitFirst, if_neg (Ne.symm h.1), ih h.2]
    rfl

theorem splitFirst_append_cons {c : CodePoint} {t : Text} (h : c ∉ t) (u : Text) :
    splitFirst c (t ++ c :: u) = some (t, u) := by
  induction t with
  | nil => rw [List.nil_append, splitFirst, if_pos rfl]
  | cons d t ih =>
    rw [List.mem_cons, not_or] at h
    rw [List.cons_append, splitFirst, if_neg (Ne.symm h.1), ih h.2]
    rfl

theorem append_cons_inj {c : CodePoint} {s t u v : Text} (hs : c ∉ s) (ht : c ∉ t) (h : s ++ c :: u = t ++ c :: v) :
    s = t ∧ u = v := by
  have := congrArg (splitFirst c) h
  rw [splitFirst_append_cons hs, splitFirst_append_cons ht] at this
  simpa using this

/-! ## where a character stands -/

/-- A character of two texts stands in the second one or in the first one. -/
theorem append_eq_append_cons {c : CodePoint} {s t u v : Text} (h : s ++ t = u ++ c :: v) :
    (∃ u', u = s ++ u' ∧ t = u' ++ c :: v) ∨ ∃ v', s = u ++ c :: v' ∧ v = v' ++ t := by
  rcases List.append_eq_append_iff.1 h with ⟨u', hu, ht⟩ | ⟨s', hs, hcons⟩
  · exact .inl ⟨u', hu, ht⟩
  · cases s' with
    | nil => exact .inl ⟨[], by simpa using hs.symm, hcons.symm⟩
    | cons d s' =>
      obtain ⟨rfl, hv⟩ := List.cons.inj hcons
      exact .inr ⟨s', hs, hv⟩

/-- A character of texts that stand one behind the other stands in one of them. -/
theorem flatMap_eq_append_cons {α : Type} {f : α → Text} {c : CodePoint} {as : List α} {s t : Text}
    (h : as.flatMap f = s ++ c :: t) :
    ∃ before a behind u v, as = before ++ a :: behind ∧ f a = u ++ c :: v ∧ s = before.flatMap f ++ u ∧
      t = v ++ behind.flatMap f := by
  induction as generalizing s with
  | nil => simp at h
  | cons a as ih =>
    rw [List.flatMap_cons] at h
    rcases append_eq_append_cons h with ⟨s', rfl, hrest⟩ | ⟨v, ha, rfl⟩
    · obtain ⟨before, b, behind, u, v, rfl, hb, rfl, rfl⟩ := ih hrest
      exact ⟨a :: before, b, behind, u, v, rfl, hb, by rw [List.flatMap_cons, List.append_assoc], rfl⟩
    · exact ⟨[], a, as, s, v, rfl, ha, rfl, rfl⟩

/-! ## prefix-free texts -/

/-- No text of the family is empty, and none is the beginning of another one. -/
structure PrefixFree {α : Type} (f : α → Text) : Prop where
  ne_nil : ∀ a, f a ≠ []
  cut : ∀ a b s t, f a ++ s = f b ++ t → a = b ∧ s = t

/-- **A sequence of prefix-free texts is read in one way only.** -/
theorem PrefixFree.flatMap_inj {α : Type} {f : α → Text} (hf : PrefixFree f) :
    ∀ {as bs : List α}, as.flatMap f = bs.flatMap f → as = bs
  | [], [], _ => rfl
  | [], b :: bs, h => by simp [hf.ne_nil b] at h
  | a :: as, [], h => by simp [hf.ne_nil a] at h
  | a :: as, b :: bs, h => by
    rw [List.flatMap_cons, List.flatMap_cons] at h
    obtain ⟨rfl, hrest⟩ := hf.cut a b _ _ h
    rw [hf.flatMap_inj hrest]

end Text

end UriTemplate
