import UriTemplate.Proofs.Conversion

/-!
# Texts of keys

What is no text may be a key too, and is shown as one.

* `Value.HoldsFault` — there is a single value in the value that cannot be shown;
* `Value.display_cases`, `Value.keyText_cases` — a value is shown, and is the text of a key, unless it holds one;
* `Value.mapM_keyText_cases` — the texts of several keys.
-/

namespace UriTemplate

namespace Value

/-- An integer of too many digits, or an object without a text, stands somewhere in the value, keys of mappings
included. -/
inductive HoldsFault : Value → Fault → Prop
  | int {i : Int} (long : 10 ^ maxDigits ≤ i.natAbs) : HoldsFault (.int i) .integerTooLong
  | object (r : Raised) : HoldsFault (.scalar (.object (.error r))) (.raised r)
  | item {kind : SequenceKind} {vs : List Value} {v : Value} {f : Fault} (mem : v ∈ vs) (fault : HoldsFault v f) :
    HoldsFault (.sequence kind vs) f
  | key {es : List (Value × Value)} {e : Value × Value} {f : Fault} (mem : e ∈ es) (fault : HoldsFault e.1 f) :
    HoldsFault (.mapping es) f
  | value {es : List (Value × Value)} {e : Value × Value} {f : Fault} (mem : e ∈ es) (fault : HoldsFault e.2 f) :
    HoldsFault (.mapping es) f

theorem HoldsFault.cases {v : Value} {f : Fault} (h : v.HoldsFault f) : f = .integerTooLong ∨ ∃ r, f = .raised r := by
  induction h with
  | int long => exact .inl rfl
  | object r => exact .inr ⟨r, rfl⟩
  | item _ _ ih => exact ih
  | key _ _ ih => exact ih
  | value _ _ ih => exact ih

/-- Nothing keeps the value from being shown. -/
def Showable (v : Value) : Prop := ∀ f, ¬ v.HoldsFault f

theorem display_scalar_cases (s : Scalar) :
    (∃ t, s.display = .ok t ∧ (scalar s).Showable) ∨ ∃ f, s.display = .error f ∧ (scalar s).HoldsFault f := by
  cases s with
  | int i =>
    by_cases h : i.natAbs < 10 ^ maxDigits
    · refine .inl ⟨Text.ofInt i, by rw [Scalar.display, intText, if_pos h], ?_⟩
      rintro f ⟨long⟩
      exact absurd h (Nat.not_lt.2 long)
    · exact .inr ⟨_, intText_of_long (Nat.not_lt.1 h), .int (Nat.not_lt.1 h)⟩
  | object t =>
    cases t with
    | ok t => exact .inl ⟨t, rfl, by rintro _ ⟨⟩⟩
    | error r => exact .inr ⟨_, rfl, .object r⟩
  | bool b => exact .inl ⟨_, rfl, by rintro _ ⟨⟩⟩
  | text t => exact .inl ⟨_, rfl, by rintro _ ⟨⟩⟩
  | float x => exact .inl ⟨_, rfl, by rintro _ ⟨⟩⟩
  | bytes data => exact .inl ⟨_, rfl, by rintro _ ⟨⟩⟩
  | byteArray data => exact .inl ⟨_, rfl, by rintro _ ⟨⟩⟩
  | timestamp t => exact .inl ⟨_, rfl, by rintro _ ⟨⟩⟩

mutual
/-- **A value is shown unless it holds a fault.** -/
theorem display_cases (v : Value) :
    (∃ t, v.display = .ok t ∧ v.Showable) ∨ ∃ f, v.display = .error f ∧ v.HoldsFault f := by
  cases v with
  | null => exact .inl ⟨_, rfl, nofun⟩
  | scalar s => exact display_scalar_cases s
  | sequence kind vs =>
    rw [display]
    rcases displayItems_cases vs with ⟨ts, hts, hall⟩ | ⟨f, herror, v, mem, fault⟩
    · rw [hts]
      refine .inl ⟨_, rfl, ?_⟩
      rintro f ⟨⟩
      exact hall _ ‹_› f ‹_›
    · rw [herror]
      exact .inr ⟨f, rfl, .item mem fault⟩
  | mapping es =>
    rw [display]
    rcases displayEntries_cases es with ⟨ts, hts, hall⟩ | ⟨f, herror, e, mem, fault | fault⟩
    · rw [hts]
      refine .inl ⟨_, rfl, ?_⟩
      rintro f ⟨⟩
      · exact (hall _ ‹_›).1 f ‹_›
      · exact (hall _ ‹_›).2 f ‹_›
    · rw [herror]
      exact .inr ⟨f, rfl, .key mem fault⟩
    · rw [herror]
      exact .inr ⟨f, rfl, .value mem fault⟩
theorem displayItems_cases (vs : List Value) :
    (∃ ts, displayItems vs = .ok ts ∧ ∀ v ∈ vs, v.Showable) ∨
      ∃ f, displayItems vs = .error f ∧ ∃ v ∈ vs, v.HoldsFault f := by
  match vs with
  | [] => exact .inl ⟨[], rfl, by simp⟩
  | v :: vs =>
    rw [displayItems]
    rcases display_cases v with ⟨t, ht, hv⟩ | ⟨f, herror, fault⟩
    · rw [ht]
      rcases displayItems_cases vs with ⟨ts, hts, hvs⟩ | ⟨f, herror, u, mem, fault⟩
      · rw [hts]
        exact .inl ⟨_, rfl, List.forall_mem_cons.2 ⟨hv, hvs⟩⟩
      · rw [herror]
        exact .inr ⟨f, rfl, u, List.mem_cons_of_mem _ mem, fault⟩
    · rw [herror]
      exact .inr ⟨f, rfl, v, by simp, fault⟩
theorem displayEntries_cases (es : List (Value × Value)) :
    (∃ ts, displayEntries es = .ok ts ∧ ∀ e ∈ es, e.1.Showable ∧ e.2.Showable) ∨
      ∃ f, displayEntries es = .error f ∧ ∃ e ∈ es, e.1.HoldsFault f ∨ e.2.HoldsFault f := by
  match es with
  | [] => exact .inl ⟨[], rfl, by simp⟩
  | (key, v) :: es =>
    rw [displayEntries]
    rcases display_cases key with ⟨t, ht, hkey⟩ | ⟨f, herror, fault⟩
    · rw [ht]
      rcases display_cases v with ⟨u, hu, hv⟩ | ⟨f, herror, fault⟩
      · rw [hu]
        rcases displayEntries_cases es with ⟨ts, hts, hes⟩ | ⟨f, herror, e, mem, fault⟩
        · rw [hts]
          exact .inl ⟨_, rfl, List.forall_mem_cons.2 ⟨⟨hkey, hv⟩, hes⟩⟩
        · rw [herror]
          exact .inr ⟨f, rfl, e, List.mem_cons_of_mem _ mem, fault⟩
      · rw [herror]
        exact .inr ⟨f, rfl, (key, v), by simp, .inr fault⟩
    · rw [herror]
      exact .inr ⟨f, rfl, (key, v), by simp, .inl fault⟩
end

/-- **A key has a text unless it holds a fault.** -/
theorem keyText_cases (v : Value) :
    (∃ t, v.keyText = .ok t ∧ v.Showable) ∨ ∃ f, v.keyText = .error f ∧ v.HoldsFault f := by
  unfold keyText
  split
  · exact .inl ⟨_, rfl, nofun⟩
  · exact .inl ⟨_, rfl, nofun⟩
  · exact display_cases v

theorem exists_keyText_iff (v : Value) : (∃ t, v.keyText = .ok t) ↔ v.Showable := by
  rcases v.keyText_cases with ⟨t, ht, hshow⟩ | ⟨f, herror, fault⟩
  · exact ⟨fun _ => hshow, fun _ => ⟨t, ht⟩⟩
  · refine ⟨?_, fun h => absurd fault (h f)⟩
    rintro ⟨t, ht⟩
    cases herror.symm.trans ht

theorem exists_keyText_error_iff (v : Value) : (∃ f, v.keyText = .error f) ↔ ∃ f, v.HoldsFault f := by
  rcases v.keyText_cases with ⟨t, ht, hshow⟩ | ⟨f, herror, fault⟩
  · constructor
    · rintro ⟨f, hf⟩
      cases ht.symm.trans hf
    · rintro ⟨f, hf⟩
      exact absurd hf (hshow f)
  · exact ⟨fun _ => ⟨f, fault⟩, fun _ => ⟨f, herror⟩⟩

theorem holdsFault_of_keyText {v : Value} {f : Fault} (h : v.keyText = .error f) : v.HoldsFault f := by
  rcases v.keyText_cases with ⟨t, ht, -⟩ | ⟨f', herror, fault⟩
  · cases ht.symm.trans h
  · cases herror.symm.trans h
    exact fault

/-- Several keys have texts unless one of them holds a fault. -/
theorem mapM_keyText_cases {α : Type} (key : α → Value) (as : List α) :
    (∃ ts, as.mapM (fun a => (key a).keyText) = .ok ts ∧ ∀ a ∈ as, (key a).Showable) ∨
      ∃ f, as.mapM (fun a => (key a).keyText) = .error f ∧ ∃ a ∈ as, (key a).HoldsFault f := by
  induction as with
  | nil => exact .inl ⟨[], rfl, by simp⟩
  | cons a as ih =>
    rw [List.mapM_cons]
    rcases (key a).keyText_cases with ⟨t, ht, ha⟩ | ⟨f, herror, fault⟩
    · rw [ht]
      rcases ih with ⟨ts, hts, has⟩ | ⟨f, herror, b, mem, fault⟩
      · rw [hts]
        exact .inl ⟨_, rfl, List.forall_mem_cons.2 ⟨ha, has⟩⟩
      · rw [herror]
        exact .inr ⟨f, rfl, b, List.mem_cons_of_mem _ mem, fault⟩
    · rw [herror]
      exact .inr ⟨f, rfl, a, by simp, fault⟩

end Value

end UriTemplate
