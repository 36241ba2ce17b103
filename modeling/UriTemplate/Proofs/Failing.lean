import UriTemplate.Proofs.Data

/-!
# What actions fail with

* `FailsOnly` — whatever the action fails with is of a kind; `FailsOnly.bind_on_ok` — one action after another one;
* `Value.Fails.eq`, `Interrupted.eq` — only integers can be too long in references and in expressions, if their values are
  data;
* `Template.expand_error` — an expansion with a resolver that always gives data fails because of one of them.
-/

namespace UriTemplate

section

variable {ε σ α β : Type} {P : ε → Prop}

/-- Whatever the action fails with is of this kind. -/
def FailsOnly (P : ε → Prop) (x : ExceptT ε (StateM σ) α) : Prop := ∀ s e s', x s = (.error e, s') → P e

namespace FailsOnly

theorem pure (a : α) : FailsOnly P (Pure.pure a : ExceptT ε (StateM σ) α) := by
  intro s e s' h
  cases h

/-- The second action has to be looked at only for results of the first one. -/
theorem bind_on_ok {x : ExceptT ε (StateM σ) α} {f : α → ExceptT ε (StateM σ) β} (hx : FailsOnly P x)
    (hf : ∀ s a s', x s = (.ok a, s') → FailsOnly P (f a)) : FailsOnly P (x >>= f) := by
  intro s e s' h
  rcases bind_eq_error_iff.1 h with h | ⟨a, s₁, ha, h⟩
  · exact hx s e s' h
  · exact hf s a s₁ ha s₁ e s' h

theorem bind {x : ExceptT ε (StateM σ) α} {f : α → ExceptT ε (StateM σ) β} (hx : FailsOnly P x)
    (hf : ∀ a, FailsOnly P (f a)) : FailsOnly P (x >>= f) :=
  hx.bind_on_ok fun _ a _ _ => hf a

end FailsOnly

end

/-! ## expansions -/

theorem PairFails.eq {key v : Value} (hkey : key.IsData) (hv : v.IsData) {w w' : World} {e : Fault}
    (h : PairFails key v w e w') : e = .integerTooLong := by
  rcases h with h | ⟨leaves, w₁, -, -, h⟩
  · exact hv.eq_of_breaks h
  · exact hkey.eq_of_breaks h

theorem Value.Fails.eq {op : Operator} {r : VariableReference} {w w' : World} {v : Value} (hv : v.IsData)
    {units : List ExpansionUnit} {e : Fault} (h : v.Fails op r w units e w') : e = .integerTooLong := by
  cases h with
  | whole one fault => exact hv.eq_of_breaks fault
  | item explode read done fault =>
    cases hv with
    | sequence kept items =>
      rcases SequenceKind.read_cases read with hvs | hnil
      · exact (items _ (by rw [← hvs]; simp)).eq_of_breaks fault
      · simp at hnil
  | @pair before after key v _ _ _ _ explode done fault =>
    cases hv with
    | mapping keys values => exact fault.eq (keys (key, v) (by simp)) (values (key, v) (by simp))

section

variable {resolve : Resolver} (hanswers : ∀ name w e w', resolve name w ≠ (.error e, w'))
  (hdata : ∀ name w v w', resolve name w = (.ok v, w') → v.IsData)

include hanswers hdata

theorem Interrupted.eq {op : Operator} {w w' : World} {rs : List VariableReference} {units : List ExpansionUnit}
    {e : Fault} (h : Interrupted resolve op w rs units e w') : e = .integerTooLong := by
  cases h with
  | call done fault => exact absurd fault (hanswers _ _ _ _)
  | value done answer fault => exact fault.eq (hdata _ _ _ _ answer)

/-- **An expansion with a resolver that always gives data** fails only because an integer is too long. -/
theorem Template.expand_error {source : Text} {t : Template} (hparse : Template.parse source = .ok t)
    {sources : List Source} {named : Table Text Value} (hresolve : Resolver.ofSources sources named = .ok resolve)
    {w : World} {e : Fault} (h : (t.expand sources named w).1 = .error e) : e = .integerTooLong := by
  rw [Template.expand_of_resolver hresolve] at h
  cases hexpand : expandElements resolve t.elements w with
  | mk result w' =>
    rw [hexpand] at h
    obtain rfl : result = .error e := h
    obtain ⟨o, op, units, before, s, rs, after, w₁, -, -, hinterrupted⟩ :=
      exists_breaksOff (Template.spellable hparse).bare_not_mem hexpand
    exact hinterrupted.eq hanswers hdata

end

end UriTemplate
