import Mathlib.Data.List.Forall2

/-! # Computations that can fail

What success and failure of a computation say about its parts. -/

namespace BlockOutline.Fallible

variable {ε ε' α β σ : Type}

@[simp] theorem pure_eq_ok_iff {a b : α} : (pure a : Except ε α) = .ok b ↔ a = b := by
  simp [pure, Except.pure]

theorem bind_eq_ok_iff {x : Except ε α} {f : α → Except ε β} {b : β} :
    x >>= f = .ok b ↔ ∃ a, x = .ok a ∧ f a = .ok b := by
  cases x <;> simp [bind, Except.bind]

theorem bind_eq_ok_mono {x : Except ε α} {f g : α → Except ε β} {b : β} (h : x >>= f = .ok b)
    (hfg : ∀ a, f a = .ok b → g a = .ok b) : x >>= g = .ok b := by
  obtain ⟨a, ha, hf⟩ := bind_eq_ok_iff.mp h
  exact bind_eq_ok_iff.mpr ⟨a, ha, hfg a hf⟩

theorem bind_eq_error_iff {x : Except ε α} {f : α → Except ε β} {e : ε} :
    x >>= f = .error e ↔ x = .error e ∨ ∃ a, x = .ok a ∧ f a = .error e := by
  cases x <;> simp [bind, Except.bind]

theorem map_eq_ok_iff {f : α → β} {x : Except ε α} {b : β} :
    f <$> x = .ok b ↔ ∃ a, x = .ok a ∧ f a = b := by
  cases x <;> simp [Functor.map, Except.map]

@[simp] theorem mapError_eq_ok_iff {f : ε → ε'} {x : Except ε α} {a : α} :
    x.mapError f = .ok a ↔ x = .ok a := by
  cases x <;> simp [Except.mapError]

theorem mapError_eq_error_iff {f : ε → ε'} {x : Except ε α} {e : ε'} :
    x.mapError f = .error e ↔ ∃ e', x = .error e' ∧ f e' = e := by
  cases x <;> simp [Except.mapError]

/-- What every step of a run keeps, the whole run keeps. -/
theorem foldlM_preserves (Keeps : σ → Prop) {step : σ → α → Except ε σ} {xs : List α}
    (hstep : ∀ s s', ∀ x ∈ xs, Keeps s → step s x = .ok s' → Keeps s') {s s' : σ} (hs : Keeps s)
    (h : xs.foldlM step s = .ok s') : Keeps s' := by
  induction xs generalizing s with
  | nil =>
      cases h
      exact hs
  | cons x xs ih =>
      rw [List.foldlM_cons, bind_eq_ok_iff] at h
      obtain ⟨next, hnext, h⟩ := h
      refine ih ?_ (hstep s next x (by simp) hs hnext) h
      intro s s' y hy
      exact hstep s s' y (by simp [hy])

theorem foldlM_concat_eq_ok_iff {step : σ → α → Except ε σ} {xs : List α} {x : α} {s s' : σ} :
    (xs ++ [x]).foldlM step s = .ok s' ↔ ∃ last, xs.foldlM step s = .ok last ∧ step last x = .ok s' := by
  simp [List.foldlM_append, bind_eq_ok_iff]

/-- If every step can be judged by its entry alone, so can the whole run. -/
theorem foldlM_isOk_iff {Good : α → Prop} {step : σ → α → Except ε σ} {xs : List α}
    (hstep : ∀ s, ∀ x ∈ xs, (∃ s', step s x = .ok s') ↔ Good x) (s : σ) :
    (∃ s', xs.foldlM step s = .ok s') ↔ ∀ x ∈ xs, Good x := by
  induction xs generalizing s with
  | nil => simp
  | cons x xs ih =>
      have hrest := ih fun s y hy => hstep s y (by simp [hy])
      simp only [List.foldlM_cons, bind_eq_ok_iff, List.mem_cons, forall_eq_or_imp]
      constructor
      · rintro ⟨s', next, hnext, h⟩
        exact ⟨(hstep s x (by simp)).mp ⟨next, hnext⟩, (hrest next).mp ⟨s', h⟩⟩
      · rintro ⟨hx, hxs⟩
        obtain ⟨next, hnext⟩ := (hstep s x (by simp)).mpr hx
        obtain ⟨s', h⟩ := (hrest next).mpr hxs
        exact ⟨s', next, hnext, h⟩

/-- A run whose every step another run can follow is followed to its end. -/
theorem foldlM_simulates {τ : Type} (view : σ → τ) {step : σ → α → Except ε σ}
    {step' : τ → α → Except ε τ} {xs : List α}
    (hstep : ∀ s s', ∀ x ∈ xs, step s x = .ok s' → step' (view s) x = .ok (view s')) {s s' : σ}
    (h : xs.foldlM step s = .ok s') : xs.foldlM step' (view s) = .ok (view s') := by
  induction xs generalizing s with
  | nil =>
      cases h
      rfl
  | cons x xs ih =>
      rw [List.foldlM_cons, bind_eq_ok_iff] at h
      obtain ⟨next, hnext, h⟩ := h
      rw [List.foldlM_cons, bind_eq_ok_iff]
      refine ⟨view next, hstep s next x List.mem_cons_self hnext, ih ?_ h⟩
      intro s s' y hy
      exact hstep s s' y (List.mem_cons_of_mem x hy)

/-- A run fails where one of its steps does. -/
theorem exists_step_of_foldlM_eq_error {step : σ → α → Except ε σ} {xs : List α} {s : σ} {e : ε}
    (h : xs.foldlM step s = .error e) : ∃ s', ∃ x ∈ xs, step s' x = .error e := by
  induction xs generalizing s with
  | nil => cases h
  | cons x xs ih =>
      rw [List.foldlM_cons] at h
      cases hnext : step s x with
      | error e' =>
          rw [hnext] at h
          cases h
          exact ⟨s, x, List.mem_cons_self, hnext⟩
      | ok next =>
          rw [hnext] at h
          obtain ⟨s', y, hy, hstep⟩ := ih h
          exact ⟨s', y, List.mem_cons_of_mem x hy, hstep⟩

theorem mapM_eq_ok_iff {f : α → Except ε β} {xs : List α} {ys : List β} :
    xs.mapM f = .ok ys ↔ List.Forall₂ (fun x y => f x = .ok y) xs ys := by
  induction xs generalizing ys with
  | nil => rw [List.mapM_nil, pure_eq_ok_iff, List.forall₂_nil_left_iff, eq_comm]
  | cons x xs ih =>
      simp only [List.mapM_cons, bind_eq_ok_iff, pure_eq_ok_iff, ih, List.forall₂_cons_left_iff]
      constructor
      · rintro ⟨y, hy, rest, hrest, rfl⟩
        exact ⟨y, rest, hy, hrest, rfl⟩
      · rintro ⟨y, rest, hy, hrest, rfl⟩
        exact ⟨y, hy, rest, hrest, rfl⟩

end BlockOutline.Fallible
