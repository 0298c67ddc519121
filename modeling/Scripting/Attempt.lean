/-!
# Computations that may fail or run out of fuel

An `Attempt` works on a state and ends in one of three ways: with a value, with an error, or with
its fuel used up. The state reached is kept on failure as well, since what a failed computation
has already done stays done. Running out of fuel is no outcome of the language, so it is kept
apart from every error and nothing can recover from it.
-/

namespace Scripting

/-- How a computation ends. -/
inductive Outcome (σ ε α : Type) where
  | done (value : α) (state : σ)
  | failed (error : ε) (state : σ)
  | exhausted

/-- A computation with state `σ`, errors `ε` and result `α`. -/
def Attempt (σ ε α : Type) : Type := σ → Outcome σ ε α

namespace Attempt

variable {σ ε α β : Type}

/-- Runs a computation from a state. -/
@[always_inline, inline]
def run (p : Attempt σ ε α) (s : σ) : Outcome σ ε α := p s

/-- Gives a value and does nothing. -/
@[always_inline, inline]
protected def pure (a : α) : Attempt σ ε α := fun s => .done a s

/-- Goes on with the value of the first computation, if it has one. -/
@[always_inline, inline]
protected def bind (p : Attempt σ ε α) (f : α → Attempt σ ε β) : Attempt σ ε β := fun s =>
  match p s with
  | .done a t => f a t
  | .failed e t => .failed e t
  | .exhausted => .exhausted

instance : Monad (Attempt σ ε) where
  pure := Attempt.pure
  bind := Attempt.bind

/-- Ends with an error. -/
@[always_inline, inline]
def fail (e : ε) : Attempt σ ε α := fun s => .failed e s

/-- Ends for want of fuel. -/
@[always_inline, inline]
def outOfFuel : Attempt σ ε α := fun _ => .exhausted

/-- The current state. -/
@[always_inline, inline]
def get : Attempt σ ε σ := fun s => .done s s

/-- Changes the state. -/
@[always_inline, inline]
def modify (f : σ → σ) : Attempt σ ε Unit := fun s => .done () (f s)

/-- Changes the state and gives a value, or fails and leaves the state as it is. -/
@[always_inline, inline]
def update (f : σ → Except ε (α × σ)) : Attempt σ ε α := fun s =>
  match f s with
  | .ok (a, t) => .done a t
  | .error e => .failed e s

/-- Turns an error into a result. -/
@[always_inline, inline]
def capture (p : Attempt σ ε α) : Attempt σ ε (Except ε α) := fun s =>
  match p s with
  | .done a t => .done (.ok a) t
  | .failed e t => .done (.error e) t
  | .exhausted => .exhausted

/-- Runs a computation on a stack of its own. This has no effect on the result: it only lets
recursion go deeper than one stack allows. -/
@[noinline]
def onFreshStack (p : Attempt σ ε α) : Attempt σ ε α := fun s =>
  (Task.spawn (fun _ => p s) .dedicated).get

/-- Moves to a fresh stack every 2048 levels of fuel. -/
@[always_inline, inline]
def deepen (fuel : Nat) (p : Attempt σ ε α) : Attempt σ ε α :=
  if fuel % 2048 = 0 then onFreshStack p else p

@[simp] theorem onFreshStack_eq (p : Attempt σ ε α) : onFreshStack p = p := rfl

@[simp] theorem deepen_eq (fuel : Nat) (p : Attempt σ ε α) : deepen fuel p = p := by
  simp [deepen]

@[simp] theorem pure_run (a : α) (s : σ) : (pure a : Attempt σ ε α) s = .done a s := rfl

theorem bind_run (p : Attempt σ ε α) (f : α → Attempt σ ε β) (s : σ) :
    (p >>= f) s = match p s with
      | .done a t => f a t
      | .failed e t => .failed e t
      | .exhausted => .exhausted := rfl

theorem bind_assoc {γ : Type} (p : Attempt σ ε α) (f : α → Attempt σ ε β)
    (g : β → Attempt σ ε γ) : p >>= f >>= g = p >>= fun a => f a >>= g := by
  funext s
  simp only [bind_run]
  cases p s <;> rfl

end Attempt

end Scripting
