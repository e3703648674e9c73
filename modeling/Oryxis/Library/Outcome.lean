/-
This file takes computations apart that may fail: one after another succeeds where both do, and a
step whose result is only rewritten succeeds where the step does.
-/

namespace Oryxis.Library

variable {Failure Value Result : Type}

variable {first : Except Failure Value} {result : Result}

theorem bind_eq_ok {next : Value → Except Failure Result} :
    (first >>= next) = .ok result ↔ ∃ value, first = .ok value ∧ next value = .ok result := by
  cases first with
  | error failure =>
    refine iff_of_false (fun impossible => by cases impossible) ?_
    rintro ⟨value, impossible, -⟩
    cases impossible
  | ok value =>
    constructor
    · exact fun same => ⟨value, rfl, same⟩
    · rintro ⟨other, same, went⟩
      cases same
      exact went

theorem map_eq_ok {rewrite : Value → Result} :
    first.map rewrite = .ok result ↔ ∃ value, first = .ok value ∧ rewrite value = result := by
  cases first with
  | error failure =>
    refine iff_of_false (fun impossible => by cases impossible) ?_
    rintro ⟨value, impossible, -⟩
    cases impossible
  | ok value =>
    constructor
    · exact fun same => ⟨value, rfl, Except.ok.inj same⟩
    · rintro ⟨other, same, rfl⟩
      cases same
      rfl

end Oryxis.Library
