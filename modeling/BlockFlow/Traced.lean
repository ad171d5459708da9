/-! Computations that leave a trace and may fail. The trace up to a failure is kept. -/

namespace BlockFlow

structure Traced (ω ε α : Type) where
  trace : List ω
  outcome : Except ε α

namespace Traced

variable {ω ε α β : Type}

def pure (a : α) : Traced ω ε α := ⟨[], .ok a⟩

def bind (x : Traced ω ε α) (f : α → Traced ω ε β) : Traced ω ε β :=
  match x.outcome with
  | .ok a =>
    let next := f a
    ⟨x.trace ++ next.trace, next.outcome⟩
  | .error e => ⟨x.trace, .error e⟩

instance : Monad (Traced ω ε) where
  pure := pure
  bind := bind

/-- Adds one entry to the trace. -/
def emit (entry : ω) : Traced ω ε Unit := ⟨[entry], .ok ()⟩

def fail (e : ε) : Traced ω ε α := ⟨[], .error e⟩

instance : LawfulMonad (Traced ω ε) := LawfulMonad.mk' (Traced ω ε)
  (by intro α x; obtain ⟨trace, _ | _⟩ := x <;> simp [Functor.map, bind, pure])
  (by intro α β a f; simp [Bind.bind, Pure.pure, bind, pure])
  (by
    intro α β γ x f g
    obtain ⟨trace, _ | a⟩ := x
    · simp [Bind.bind, bind]
    · cases h : (f a).outcome <;> simp [Bind.bind, bind, h])

@[simp] theorem outcome_pure (a : α) : (Pure.pure a : Traced ω ε α).outcome = .ok a := rfl

@[simp] theorem trace_pure (a : α) : (Pure.pure a : Traced ω ε α).trace = [] := rfl

end Traced

end BlockFlow
