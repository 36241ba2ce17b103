import UriTemplate.Expansion

/-!
# Runs of actions

* `bind_of_ok`, `bind_of_error`, `bind_eq_ok`, `bind_eq_error_iff`, `pure_eq_ok`, `length_of_mapM` — one action after
  another one;
* `forM_eq_error_iff`, `mapM_eq_error_iff` — where a loop fails;
* `Emit.perform_pure`, `Emit.perform_bind`, `Emit.perform_map` — performing an action is no different from writing
  nothing at each of its steps.
-/

namespace UriTemplate

section

variable {ε σ α β : Type} {x : ExceptT ε (StateM σ) α} {f : α → ExceptT ε (StateM σ) β} {s s' : σ}

theorem bind_of_ok {a : α} (h : x s = (.ok a, s')) : (x >>= f) s = f a s' := by
  show (match x s with | (r, s') => ExceptT.bindCont f r s') = f a s'
  rw [h]
  rfl

theorem bind_of_error {e : ε} (h : x s = (.error e, s')) : (x >>= f) s = (.error e, s') := by
  show (match x s with | (r, s') => ExceptT.bindCont f r s') = (.error e, s')
  rw [h]
  rfl

theorem fst_bind_of_error {e : ε} (h : (x s).1 = .error e) : ((x >>= f) s).1 = .error e := by
  cases hx : x s with
  | mk r s₁ =>
    rw [hx] at h
    obtain rfl : r = .error e := h
    rw [bind_of_error hx]

theorem bind_run_congr {y : ExceptT ε (StateM σ) α} (h : x s = y s) : (x >>= f) s = (y >>= f) s := by
  show (match x s with | (r, s') => ExceptT.bindCont f r s') = (match y s with | (r, s') => ExceptT.bindCont f r s')
  rw [h]

/-- If two actions succeed one after the other, each of them does. -/
theorem bind_eq_ok {b : β} (h : (x >>= f) s = (.ok b, s')) :
    ∃ (a : α) (s₁ : σ), x s = (.ok a, s₁) ∧ f a s₁ = (.ok b, s') := by
  cases hx : x s with
  | mk r s₁ =>
    cases r with
    | ok a => exact ⟨a, s₁, rfl, by rw [← h, bind_of_ok hx]⟩
    | error e =>
      rw [bind_of_error hx] at h
      cases h

/-- If two actions fail one after the other, it is because of one of them. -/
theorem bind_eq_error_iff {e : ε} :
    (x >>= f) s = (.error e, s') ↔
      x s = (.error e, s') ∨ ∃ (a : α) (s₁ : σ), x s = (.ok a, s₁) ∧ f a s₁ = (.error e, s') := by
  cases hx : x s with
  | mk r s₁ =>
    cases r with
    | ok a =>
      rw [bind_of_ok hx]
      constructor
      · intro h
        exact .inr ⟨a, s₁, rfl, h⟩
      · rintro (h | ⟨a', s₂, h, herror⟩)
        · cases h
        · cases h
          exact herror
    | error e' =>
      rw [bind_of_error hx]
      constructor
      · rintro ⟨⟩
        exact .inl rfl
      · rintro (h | ⟨a', s₂, h, -⟩)
        · cases h
          rfl
        · cases h

theorem pure_eq_ok {a b : α} (h : (pure a : ExceptT ε (StateM σ) α) s = (.ok b, s')) : a = b ∧ s = s' := by
  obtain ⟨hresult, hstate⟩ := Prod.mk.inj h
  exact ⟨Except.ok.inj hresult, hstate⟩

/-- **Where a loop fails.**  It fails at the first item whose action fails; the actions of the items before are done, and
those of the items behind it are not. -/
theorem forM_eq_error_iff {f : α → ExceptT ε (StateM σ) PUnit} {as : List α} {e : ε} :
    forM as f s = (.error e, s') ↔
      ∃ before a after s₁, as = before ++ a :: after ∧ forM before f s = (.ok ⟨⟩, s₁) ∧ f a s₁ = (.error e, s') := by
  induction as generalizing s with
  | nil =>
    constructor
    · rintro ⟨⟩
    · rintro ⟨before, a, after, s₁, has, -⟩
      simp at has
  | cons a as ih =>
    rw [List.forM_cons, bind_eq_error_iff]
    constructor
    · rintro (h | ⟨⟨⟩, s₁, h, hrest⟩)
      · exact ⟨[], a, as, s, rfl, rfl, h⟩
      · obtain ⟨before, a', after, s₂, rfl, hdone, herror⟩ := ih.1 hrest
        exact ⟨a :: before, a', after, s₂, rfl, by rw [List.forM_cons, bind_of_ok h, hdone], herror⟩
    · rintro ⟨before, a', after, s₂, has, hdone, herror⟩
      cases before with
      | nil =>
        obtain ⟨rfl, -⟩ := List.cons.inj has
        obtain ⟨-, rfl⟩ := pure_eq_ok hdone
        exact .inl herror
      | cons b before =>
        obtain ⟨rfl, rfl⟩ := List.cons.inj has
        rw [List.forM_cons] at hdone
        obtain ⟨⟨⟩, s₁, h, hbefore⟩ := bind_eq_ok hdone
        exact .inr ⟨⟨⟩, s₁, h, ih.2 ⟨before, a', after, s₂, rfl, hbefore, herror⟩⟩

/-- The same for a loop that collects results. -/
theorem mapM_eq_error_iff {as : List α} {e : ε} :
    as.mapM f s = (.error e, s') ↔
      ∃ before a after bs s₁, as = before ++ a :: after ∧ before.mapM f s = (.ok bs, s₁) ∧ f a s₁ = (.error e, s') := by
  induction as generalizing s with
  | nil =>
    constructor
    · rintro ⟨⟩
    · rintro ⟨before, a, after, bs, s₁, has, -⟩
      simp at has
  | cons a as ih =>
    have hlast : ∀ (b : β) s₁, (as.mapM f >>= fun bs => pure (b :: bs)) s₁ = (.error e, s') ↔
        as.mapM f s₁ = (.error e, s') := by
      intro b s₁
      rw [bind_eq_error_iff]
      exact ⟨fun h => h.resolve_right nofun, .inl⟩
    rw [List.mapM_cons, bind_eq_error_iff]
    simp only [hlast]
    constructor
    · rintro (h | ⟨b, s₁, h, hrest⟩)
      · exact ⟨[], a, as, [], s, rfl, rfl, h⟩
      · obtain ⟨before, a', after, bs, s₂, rfl, hdone, herror⟩ := ih.1 hrest
        refine ⟨a :: before, a', after, b :: bs, s₂, rfl, ?_, herror⟩
        rw [List.mapM_cons, bind_of_ok h, bind_of_ok hdone]
        rfl
    · rintro ⟨before, a', after, bs, s₂, has, hdone, herror⟩
      cases before with
      | nil =>
        obtain ⟨rfl, -⟩ := List.cons.inj has
        obtain ⟨-, rfl⟩ := pure_eq_ok hdone
        exact .inl herror
      | cons a₁ before =>
        obtain ⟨rfl, rfl⟩ := List.cons.inj has
        rw [List.mapM_cons] at hdone
        obtain ⟨b, s₁, h, hrest⟩ := bind_eq_ok hdone
        obtain ⟨bs', s₃, hbefore, hpure⟩ := bind_eq_ok hrest
        obtain ⟨-, rfl⟩ := pure_eq_ok hpure
        exact .inr ⟨b, s₁, h, ih.2 ⟨before, a', after, bs', _, rfl, hbefore, herror⟩⟩

end

/-- There is one result for every action of a list. -/
theorem length_of_mapM {α β : Type} {f : α → Act β} {as : List α} {bs : List β} {w w' : World}
    (h : as.mapM f w = (.ok bs, w')) : bs.length = as.length := by
  induction as generalizing bs w w' with
  | nil =>
    obtain ⟨hnil, -⟩ := Prod.mk.inj h
    rw [← Except.ok.inj hnil]
    rfl
  | cons a as ih =>
    rw [List.mapM_cons] at h
    obtain ⟨b, w₁, -, hrest⟩ := bind_eq_ok h
    obtain ⟨bs', w₂, has, hpure⟩ := bind_eq_ok hrest
    obtain ⟨hcons, -⟩ := Prod.mk.inj hpure
    rw [← Except.ok.inj hcons, List.length_cons, List.length_cons, ih has]

namespace Emit

variable {α β : Type}

theorem perform_run {a : Act α} {o : Output} {r : Except Fault α} {w : World} (h : a o.world = (r, w)) :
    perform a o = (r, { o with world := w }) := by
  unfold perform
  rw [h]

theorem perform_pure (x : α) : perform (pure x) = pure x := rfl

theorem perform_bind (a : Act α) (f : α → Act β) : perform (a >>= f) = perform a >>= fun x => perform (f x) := by
  funext o
  cases ha : a o.world with
  | mk r w =>
    cases r with
    | error e => rw [bind_of_error (perform_run ha), perform_run (bind_of_error ha)]
    | ok x =>
      rw [bind_of_ok (perform_run ha), perform, bind_of_ok ha]
      rfl

theorem perform_map (f : α → β) (a : Act α) : perform (f <$> a) = f <$> perform a := by
  rw [map_eq_pure_bind, map_eq_pure_bind, perform_bind]
  rfl

end Emit

end UriTemplate
