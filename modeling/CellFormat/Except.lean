/-!
# Steps in a row

When a computation of two or more steps, each of which may fail, comes to a result, and when it fails.
-/

namespace CellFormat

variable {ε α β : Type} {e : ε}

theorem bind_eq_ok_iff {x : Except ε α} {f : α → Except ε β} {b : β} :
    x >>= f = .ok b ↔ ∃ a, x = .ok a ∧ f a = .ok b := by
  cases x with
  | ok a => exact ⟨fun h => ⟨a, rfl, h⟩, fun ⟨_, ha, h⟩ => by cases ha; exact h⟩
  | error e => exact ⟨nofun, fun ⟨_, ha, _⟩ => nomatch ha⟩

theorem bind_eq_error_iff {x : Except ε α} {f : α → Except ε β} :
    x >>= f = .error e ↔ x = .error e ∨ ∃ a, x = .ok a ∧ f a = .error e := by
  cases x with
  | ok a =>
      refine ⟨fun h => .inr ⟨a, rfl, h⟩, fun h => ?_⟩
      rcases h with h | ⟨_, ha, h⟩
      · cases h
      · cases ha
        exact h
  | error e' =>
      constructor
      · intro h
        cases h
        exact .inl rfl
      · rintro (h | ⟨a, ha, -⟩)
        · cases h
          rfl
        · cases ha

@[simp] theorem toOption_bind (x : Except ε α) (f : α → Except ε β) :
    (x >>= f).toOption = x.toOption.bind fun a => (f a).toOption := by
  cases x <;> rfl

@[simp] theorem toOption_map (x : Except ε α) (f : α → β) : (x.map f).toOption = x.toOption.map f := by
  cases x <;> rfl

/-! ### Lists of steps -/

variable {as : List α} {f : α → Except ε β}

theorem exists_of_mapM_eq_ok {bs : List β} (h : as.mapM f = .ok bs) : ∀ a ∈ as, ∃ b, f a = .ok b := by
  induction as generalizing bs with
  | nil => exact nofun
  | cons a as ih =>
      rw [List.mapM_cons] at h
      obtain ⟨b, hhead, hrest⟩ := bind_eq_ok_iff.1 h
      obtain ⟨others, htail, -⟩ := bind_eq_ok_iff.1 hrest
      intro x hx
      rcases List.mem_cons.1 hx with rfl | hx
      · exact ⟨b, hhead⟩
      · exact ih htail x hx

theorem exists_of_mapM_eq_error (h : as.mapM f = .error e) :
    ∃ before a behind, as = before ++ a :: behind ∧ (∀ x ∈ before, ∃ b, f x = .ok b) ∧ f a = .error e := by
  induction as with
  | nil => cases h
  | cons a as ih =>
      rw [List.mapM_cons] at h
      rcases bind_eq_error_iff.1 h with hhead | ⟨b, hok, hrest⟩
      · exact ⟨[], a, as, rfl, List.forall_mem_nil _, hhead⟩
      · rcases bind_eq_error_iff.1 hrest with htail | ⟨bs, -, hbs⟩
        · obtain ⟨before, x, behind, rfl, hbefore, herror⟩ := ih htail
          exact ⟨a :: before, x, behind, rfl, List.forall_mem_cons.2 ⟨⟨b, hok⟩, hbefore⟩, herror⟩
        · cases hbs

end CellFormat
