import Mathlib

/-!
# Results of steps that may fail

When a sequence of steps gives a value, and when it stops with an error.
-/

namespace PartialEntity.Result

variable {ε α β : Type}

theorem bind_eq_ok_iff {first : Except ε α} {next : α → Except ε β} {result : β} :
    (first >>= next) = .ok result ↔ ∃ value, first = .ok value ∧ next value = .ok result := by
  cases first with
  | error stop => exact iff_of_false nofun fun ⟨_, hfirst, _⟩ => nomatch hfirst
  | ok value =>
    constructor
    · exact fun h => ⟨value, rfl, h⟩
    · rintro ⟨other, hfirst, h⟩
      cases hfirst
      exact h

theorem bind_eq_error_iff {first : Except ε α} {next : α → Except ε β} {stop : ε} :
    (first >>= next) = .error stop ↔
      first = .error stop ∨ ∃ value, first = .ok value ∧ next value = .error stop := by
  cases first with
  | error other =>
    constructor
    · exact fun h => .inl (congrArg Except.error (Except.error.inj h))
    · rintro (h | ⟨_, h, -⟩)
      · exact congrArg Except.error (Except.error.inj h)
      · cases h
  | ok value =>
    constructor
    · exact fun h => .inr ⟨value, rfl, h⟩
    · rintro (h | ⟨other, hfirst, h⟩)
      · cases h
      · cases hfirst
        exact h

theorem map_eq_ok_iff {first : Except ε α} {f : α → β} {result : β} :
    f <$> first = .ok result ↔ ∃ value, first = .ok value ∧ f value = result := by
  cases first with
  | error stop => exact iff_of_false nofun fun ⟨_, hfirst, _⟩ => nomatch hfirst
  | ok value =>
    constructor
    · exact fun h => ⟨value, rfl, Except.ok.inj h⟩
    · rintro ⟨other, hfirst, rfl⟩
      cases hfirst
      rfl

theorem map_some_eq_ok_iff {first : Except ε α} {value : α} :
    some <$> first = .ok (some value) ↔ first = .ok value := by
  simp only [map_eq_ok_iff, Option.some.injEq, exists_eq_right]

end PartialEntity.Result
