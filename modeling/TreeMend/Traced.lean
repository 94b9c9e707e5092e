/-!
# Computations that leave a trace

A computation may fail, and it leaves a trace of what it came by, in order, up to the point where
it failed.  The trace does not depend on whether anyone looks at it.

## Main definitions

* `Traced` — a computation with a trace that may fail.
* `Traced.record`, `Traced.fail`, `Traced.ofExcept` — the three ways to start one.

## Main results

* `Traced.outcome_bind`, `Traced.trace_bind` — what follows a computation runs if and only if that
  has a value, and its trace comes after.
-/

namespace TreeMend

/-- A computation that leaves a trace of `τ` and may fail with an `ε`. -/
structure Traced (τ ε α : Type) where
  /-- What the computation came by, in order. -/
  trace : List τ
  /-- The value, or why there is none. -/
  outcome : Except ε α
  deriving Repr

namespace Traced

variable {τ ε α β : Type}

/-- Continue with the value of `x`, if it has one. -/
protected def bind (x : Traced τ ε α) (f : α → Traced τ ε β) : Traced τ ε β :=
  match x.outcome with
  | .error e => ⟨x.trace, .error e⟩
  | .ok a => let y := f a; ⟨x.trace ++ y.trace, y.outcome⟩

instance : Monad (Traced τ ε) where
  pure a := ⟨[], .ok a⟩
  bind := Traced.bind

/-- Leave entries in the trace. -/
def recordAll (ts : List τ) : Traced τ ε Unit := ⟨ts, .ok ()⟩

/-- Leave an entry in the trace. -/
def record (t : τ) : Traced τ ε Unit := recordAll [t]

/-- Fail. -/
def fail (e : ε) : Traced τ ε α := ⟨[], .error e⟩

/-- A computation without a trace. -/
def ofExcept (x : Except ε α) : Traced τ ε α := ⟨[], x⟩

/-- The same computation with another account of why it failed. -/
def mapError {ε' : Type} (f : ε → ε') (x : Traced τ ε α) : Traced τ ε' α :=
  ⟨x.trace, x.outcome.mapError f⟩

@[simp] theorem outcome_pure (a : α) : (pure a : Traced τ ε α).outcome = .ok a := rfl

@[simp] theorem trace_pure (a : α) : (pure a : Traced τ ε α).trace = [] := rfl

@[simp] theorem outcome_record (t : τ) : (record t : Traced τ ε Unit).outcome = .ok () := rfl

@[simp] theorem trace_record (t : τ) : (record t : Traced τ ε Unit).trace = [t] := rfl

@[simp] theorem outcome_fail (e : ε) : (fail e : Traced τ ε α).outcome = .error e := rfl

@[simp] theorem outcome_ofExcept (x : Except ε α) :
    (ofExcept x : Traced τ ε α).outcome = x := rfl

@[simp] theorem outcome_mapError {ε' : Type} (f : ε → ε') (x : Traced τ ε α) :
    (x.mapError f).outcome = x.outcome.mapError f := rfl

@[simp] theorem trace_mapError {ε' : Type} (f : ε → ε') (x : Traced τ ε α) :
    (x.mapError f).trace = x.trace := rfl

@[simp] theorem outcome_bind (x : Traced τ ε α) (f : α → Traced τ ε β) :
    (x >>= f).outcome = x.outcome.bind fun a => (f a).outcome := by
  change (Traced.bind x f).outcome = _
  unfold Traced.bind
  cases x.outcome <;> rfl

theorem trace_bind (x : Traced τ ε α) (f : α → Traced τ ε β) :
    (x >>= f).trace = x.trace ++ match x.outcome with
      | .error _ => []
      | .ok a => (f a).trace := by
  change (Traced.bind x f).trace = _
  unfold Traced.bind
  cases x.outcome <;> simp

end Traced

end TreeMend
