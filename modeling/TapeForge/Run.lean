/-!
# Runs

A run repeats one total step. Programs need not stop, so a run is given a number of steps and may
end `pending`; more steps never change how a run ended.
-/

namespace TapeForge

/-- What one step does to a state: go on, halt, or fail and keep the state of the failure. -/
inductive Stage (ε σ : Type) where
  | next (s : σ)
  | halt (s : σ)
  | fail (e : ε) (s : σ)

/-- How a run of boundedly many steps ends. -/
inductive Outcome (ε σ : Type) where
  | done (s : σ)
  | failed (e : ε) (s : σ)
  | pending (s : σ)
  deriving Repr, Inhabited

namespace Outcome

def state {ε σ : Type} : Outcome ε σ → σ
  | done s => s
  | failed _ s => s
  | pending s => s

def error? {ε σ : Type} : Outcome ε σ → Option ε
  | failed e _ => some e
  | _ => none

def map {ε σ τ : Type} (f : σ → τ) : Outcome ε σ → Outcome ε τ
  | done s => done (f s)
  | failed e s => failed e (f s)
  | pending s => pending (f s)

def mapError {ε φ σ : Type} (f : ε → φ) : Outcome ε σ → Outcome φ σ
  | done s => done s
  | failed e s => failed (f e) s
  | pending s => pending s

/-- Goes on with the state of a run that is done. -/
def andThen {ε σ : Type} (r : Outcome ε σ) (f : σ → Outcome ε σ) : Outcome ε σ :=
  match r with
  | done s => f s
  | failed e s => failed e s
  | pending s => pending s

end Outcome

/-- Repeats `step`, at most `fuel` times. -/
@[specialize]
def iterate {ε σ : Type} (step : σ → Stage ε σ) : Nat → σ → Outcome ε σ
  | 0, s => .pending s
  | fuel + 1, s =>
    match step s with
    | .next s => iterate step fuel s
    | .halt s => .done s
    | .fail e s => .failed e s

end TapeForge
