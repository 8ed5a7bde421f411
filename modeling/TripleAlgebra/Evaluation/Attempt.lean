import TripleAlgebra.Solutions.Basic

/-! Steps that have effects on a store and may fail. -/
namespace TripleAlgebra

/-- The effects up to the result or failure. -/
structure Attempt (α : Type) where
  effects : List Effect
  outcome : Except Problem α

namespace Attempt
variable {α β : Type}

def pure (a : α) : Attempt α := ⟨[], .ok a⟩

def bind (x : Attempt α) (f : α → Attempt β) : Attempt β :=
  match x.outcome with
  | .ok a => ⟨x.effects ++ (f a).effects, (f a).outcome⟩
  | .error e => ⟨x.effects, .error e⟩

instance : Monad Attempt where
  pure := pure
  bind := bind

theorem bind_of_ok {x : Attempt α} {f : α → Attempt β} {a : α} (h : x.outcome = .ok a) :
    x >>= f = ⟨x.effects ++ (f a).effects, (f a).outcome⟩ := by
  change x.bind f = _
  simp [Attempt.bind, h]

theorem bind_of_error {x : Attempt α} {f : α → Attempt β} {e : Problem}
    (h : x.outcome = .error e) : x >>= f = ⟨x.effects, .error e⟩ := by
  change x.bind f = _
  simp [Attempt.bind, h]

def fail (e : Problem) : Attempt α := ⟨[], .error e⟩

def perform (as : List Act) : Attempt Unit := ⟨as.flatMap Act.effects, .ok ()⟩

end Attempt
end TripleAlgebra
