import ModuleBundler.Failure
import ModuleBundler.Log

/-!
Steps of a build that log what they do. What was logged stays when a step fails; the steps after it
do not happen.
-/
namespace ModuleBundler

structure Logged (α : Type) where
  log : Log
  outcome : Except Failure α

namespace Logged

def pure (value : α) : Logged α := ⟨[], .ok value⟩

def bind (step : Logged α) (next : α → Logged β) : Logged β :=
  match step.outcome with
  | .error failure => ⟨step.log, .error failure⟩
  | .ok value =>
    let rest := next value
    ⟨step.log ++ rest.log, rest.outcome⟩

instance : Monad Logged where
  pure := Logged.pure
  bind := Logged.bind

def ofExcept (outcome : Except Failure α) : Logged α := ⟨[], outcome⟩

def fail (failure : Failure) : Logged α := ⟨[], .error failure⟩

def note (severity : Severity) (text : Text) : Logged Unit := ⟨[⟨severity, text⟩], .ok ()⟩

theorem outcome_pure (value : α) : (Pure.pure value : Logged α).outcome = .ok value := rfl

-- Logging changes no outcome.
theorem outcome_bind (step : Logged α) (next : α → Logged β) :
    (step >>= next).outcome = step.outcome >>= fun value => (next value).outcome := by
  cases h : step.outcome <;> simp [Bind.bind, Logged.bind, Except.bind, h]

theorem outcome_ofExcept (outcome : Except Failure α) : (ofExcept outcome).outcome = outcome := rfl

theorem outcome_note (severity : Severity) (text : Text) :
    (note severity text).outcome = .ok () := rfl

end Logged

-- An outcome is settled by its value alone, which can be compared where failures cannot.
theorem ok_of_toOption {outcome : Except ε α} (found : outcome.toOption = some value) :
    outcome = .ok value := by
  cases outcome with
  | error fault => cases found
  | ok value => exact congrArg Except.ok (Option.some.inj found)

-- The same where only a part of the value is compared.
theorem ok_of_toOption_map {outcome : Except ε α} {read : α → β}
    (found : outcome.toOption.map read = some part) : ∃ value, outcome = .ok value ∧ read value = part := by
  obtain ⟨value, given, same⟩ := Option.map_eq_some_iff.mp found
  exact ⟨value, ok_of_toOption given, same⟩

theorem ok_of_bind {first : Except ε α} {next : α → Except ε β} (read : (first >>= next) = .ok result) :
    ∃ found, first = .ok found ∧ next found = .ok result := by
  cases first with
  | error fault => cases read
  | ok found => exact ⟨found, rfl, read⟩

end ModuleBundler
