/-
# Calculations that may fail

When a calculation in several steps gives a result, each step gave one.
-/

namespace Tariff

variable {ε α β : Type}

/-- Two steps give a result just if the first does and the second does with that. The lemmas below take such
steps apart. -/
theorem bind_eq_ok_iff {x : Except ε α} {f : α → Except ε β} {b : β} :
    x >>= f = .ok b ↔ ∃ a, x = .ok a ∧ f a = .ok b := by
  rcases x with e | a
  · simp [bind, Except.bind]
  · simp [bind, Except.bind]

/-- Two steps fail just if the first does or the second does with the result of the first. -/
theorem bind_eq_error_iff {x : Except ε α} {f : α → Except ε β} {e : ε} :
    x >>= f = .error e ↔ x = .error e ∨ ∃ a, x = .ok a ∧ f a = .error e := by
  rcases x with e' | a
  · simp [bind, Except.bind]
  · simp [bind, Except.bind]

/-- That two steps fail, whatever the fault. -/
theorem exists_bind_eq_error_iff {x : Except ε α} {f : α → Except ε β} :
    (∃ e, x >>= f = .error e) ↔ (∃ e, x = .error e) ∨ ∃ a, x = .ok a ∧ ∃ e, f a = .error e := by
  rcases x with e' | a
  · simp [bind, Except.bind]
  · simp [bind, Except.bind]

theorem ok_bind (a : α) (f : α → Except ε β) : (Except.ok a : Except ε α) >>= f = f a := rfl

theorem error_bind (e : ε) (f : α → Except ε β) :
    (Except.error e : Except ε α) >>= f = .error e := rfl

/-- A step under one condition and then a step under another, with one failure for both. -/
theorem ite_bind {p q : Prop} [Decidable p] [Decidable q] {a : α} {b : β} {e : ε}
    {f : α → Except ε β} (hf : f a = if q then .ok b else .error e) :
    (if p then .ok a else .error e) >>= f = if p ∧ q then .ok b else .error e := by
  by_cases h : p
  · rw [if_pos h, ok_bind, hf]
    simp only [h, true_and]
  · rw [if_neg h, if_neg fun hpq => h hpq.1, error_bind]

/-- A step behind a condition can be put in where the condition holds. -/
theorem ite_bind_ok {p : Prop} [Decidable p] {a : α} {b : β} {e : ε} {f : α → Except ε β}
    (hf : f a = .ok b) : (if p then .ok a else .error e) >>= f = if p then .ok b else .error e := by
  by_cases h : p
  · rw [if_pos h, if_pos h, ok_bind, hf]
  · rw [if_neg h, if_neg h, error_bind]

/-- A calculation fails where its first step does, if the others give results. -/
theorem bind_eq_error_iff_of_isOk {x : Except ε α} {f : α → Except ε β} (hf : ∀ a, (f a).isOk)
    {e : ε} : x >>= f = .error e ↔ x = .error e := by
  rw [bind_eq_error_iff]
  refine or_iff_left ?_
  rintro ⟨a, -, ha⟩
  simpa [ha, Except.isOk, Except.toBool] using hf a

/-- Only the first of two steps fails, if the second never does. -/
theorem exists_bind_eq_error_iff_of_isOk {x : Except ε α} {f : α → Except ε β}
    (hf : ∀ a, (f a).isOk) : (∃ e, x >>= f = .error e) ↔ ∃ e, x = .error e :=
  exists_congr fun _ => bind_eq_error_iff_of_isOk hf

theorem isOk_iff {x : Except ε α} : x.isOk ↔ ∃ a, x = .ok a := by
  rcases x with e | a
  · simp [Except.isOk, Except.toBool]
  · simp [Except.isOk, Except.toBool]

/-- A calculation of which something is known gives a result. -/
theorem exists_of_toOption_map {x : Except ε α} {f : α → β} {b : β} (h : x.toOption.map f = some b) :
    ∃ a, x = .ok a ∧ f a = b := by
  rcases x with e | a
  · cases h
  · exact ⟨a, rfl, Option.some.inj h⟩

theorem map_eq_ok_iff {x : Except ε α} {f : α → β} {b : β} : x.map f = .ok b ↔ ∃ a, x = .ok a ∧ f a = b := by
  rcases x with e | a
  · simp [Except.map]
  · simp [Except.map]

/-- What is left without faults is the result. -/
theorem toOption_eq_some_iff {x : Except ε α} {a : α} : x.toOption = some a ↔ x = .ok a := by
  rcases x with e | b
  · simp [Except.toOption]
  · simp [Except.toOption]

/-- Nothing is left just if there was a fault. -/
theorem toOption_eq_none_iff {x : Except ε α} : x.toOption = none ↔ ∃ e, x = .error e := by
  rcases x with e | b
  · simp [Except.toOption]
  · simp [Except.toOption]

/-- Two calculations that give the same results, if any. -/
theorem toOption_congr {x y : Except ε α} (h : ∀ a, x = .ok a ↔ y = .ok a) : x.toOption = y.toOption := by
  rcases x with e | a
  · rcases y with e' | b
    · rfl
    · cases (h b).2 rfl
  · rw [(h a).1 rfl]

/-- What a calculation fails with. -/
def failure? : Except ε α → Option ε
  | .error e => some e
  | .ok _ => none

/-- The fault that is looked for is the one that was given. -/
theorem failure?_eq_some_iff {x : Except ε α} {e : ε} : failure? x = some e ↔ x = .error e := by
  rcases x with e' | a
  · simp [failure?]
  · simp [failure?]

end Tariff
