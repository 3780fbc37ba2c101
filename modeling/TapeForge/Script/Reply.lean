import TapeForge.Op.Basic

/-!
# Replies

A call comes back with a value or with an error, it panics, or it never comes back. A panic ends one
call after the other until one of them recovers it.
-/

namespace TapeForge

/-- What a panic carries: an error, or a value that is none. -/
inductive Panic where
  | error (why : Op.BuildError)
  | other (what : String)
  deriving Repr, DecidableEq

/-- What becomes of a call. -/
inductive Reply (ε α : Type) where
  | ok (a : α)
  | error (e : ε)
  | panic (p : Panic)
  | endless
  deriving Repr, DecidableEq

namespace Reply

variable {ε ε' α β : Type}

/-- Goes on with the value of a call, if there is one. -/
protected def bind (r : Reply ε α) (f : α → Reply ε β) : Reply ε β :=
  match r with
  | .ok a => f a
  | .error e => .error e
  | .panic p => .panic p
  | .endless => .endless

instance : Monad (Reply ε) where
  pure := .ok
  bind := .bind

instance : LawfulMonad (Reply ε) :=
  LawfulMonad.mk' (Reply ε)
    (fun r => by cases r <;> rfl)
    (fun _ _ => rfl)
    (fun r _ _ => by cases r <;> rfl)

def mapError (f : ε → ε') : Reply ε α → Reply ε' α
  | .ok a => .ok a
  | .error e => .error (f e)
  | .panic p => .panic p
  | .endless => .endless

/-- The reply of what can only fail. -/
def of : Except ε α → Reply ε α
  | .ok a => .ok a
  | .error e => .error e

/-- The reply of what panics where it fails. -/
def orPanic : Except Op.BuildError α → Reply ε α
  | .ok a => .ok a
  | .error why => .panic (.error why)

/-- Recovers a panic that carries an error. Any other panic goes on. -/
def recover (f : Op.BuildError → ε) : Reply ε α → Reply ε α
  | .panic (.error why) => .error (f why)
  | r => r

end Reply

end TapeForge
