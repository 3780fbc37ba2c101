import TapeForge.Command.Parameter

/-!
# Tables of commands

A command has an action, commands of its own that become visible after it, or both. A table binds
names to commands, each name to one command. Tokens are run from the left: each names a command,
whose action takes the tokens after it as arguments.
-/

namespace TapeForge

namespace Command

inductive ActionError where
  | help
  | failed (why : String)
  deriving Repr, DecidableEq

def ActionError.message : ActionError → String
  | help => "help requested"
  | failed why => why

/-- What a command does with its arguments to a state. An action that fails may still have changed
the state. -/
structure Action (σ : Type) where
  params : List ParamType
  run : List Value → σ → σ × Option ActionError

/-- Names bound to one thing; nothing at all may be bound to names. -/
structure Entry (α : Type) where
  names : List Bytes
  bound : Option α

end Command

inductive Command (σ : Type) where
  | mk (action : Option (Command.Action σ)) (subs : List (Command.Entry (Command σ)))
      (description : Bytes)

namespace Command

section

variable {σ : Type}

def action : Command σ → Option (Action σ)
  | mk a _ _ => a

def subs : Command σ → List (Entry (Command σ))
  | mk _ s _ => s

def description : Command σ → Bytes
  | mk _ _ d => d

def arity (c : Command σ) : Nat :=
  match c.action with
  | some a => a.params.length
  | none => 0

/-- A command that does one thing and takes arguments of the given types. -/
def ofAction (params : List ParamType) (run : List Value → σ → σ × Option ActionError) :
    Command σ :=
  mk (some ⟨params, run⟩) [] []

end

abbrev Table (σ : Type) := List (Entry (Command σ))

/-- Why tokens cannot be run. `unbound` is a name that is bound to nothing. -/
inductive Failure where
  | unknown (name : Bytes)
  | unbound (name : Bytes)
  | argument (name : Bytes) (why : ArgFault)
  | action (name : Bytes) (why : ActionError)
  | duplicatedSub (name sub : Bytes)

def Failure.message : Failure → String
  | unknown name => "unknown command: " ++ name.toText
  | unbound name => "unbound command: " ++ name.toText
  | argument name why => name.toText ++ ": " ++ why.message
  | action name why => name.toText ++ ": " ++ why.message
  | duplicatedSub name sub => "duplicated sub command: " ++ name.toText ++ " " ++ sub.toText

namespace Table

variable {σ : Type}

def find? (t : Table σ) (name : Bytes) : Option (Option (Command σ)) :=
  (List.find? (fun e => e.names.contains name) t).map Entry.bound

/-- The names from the left up to the first that is bound in the table or stands twice, and that
one. -/
def freeNames (t : Table σ) : List Bytes → List Bytes → List Bytes × Option Bytes
  | taken, [] => (taken.reverse, none)
  | taken, x :: xs =>
    if (t.find? x).isSome || taken.contains x then (taken.reverse, some x)
    else freeNames t (x :: taken) xs

/-- Binds a command to its names, one after the other, as far as they are free. The name at which
this stops is returned. -/
def define (t : Table σ) (names : List Bytes) (c : Command σ) : Table σ × Option Bytes :=
  let (free, clash) := freeNames t [] names
  (if free.isEmpty then t else t ++ [⟨free, some c⟩], clash)

def duplicated (name : Bytes) : String := "duplicated command " ++ name.toText

/-- The commands that stay visible after the command `name` ran; its own must have new names. -/
def extend (t : Table σ) (name : Bytes) (subs : Table σ) : Except Failure (Table σ) :=
  match (subs.flatMap Entry.names).find? (fun x => (t.find? x).isSome) with
  | some x => .error (.duplicatedSub name x)
  | none => .ok (t ++ subs)

/-- The command that a token names. A token `name=value` is split if the whole of it is no command
and `name` is one. -/
def resolve (t : Table σ) (token : Bytes) :
    Option (Bytes × Option (Command σ) × Option Bytes) :=
  let whole := Bytes.trim token
  match t.find? whole with
  | some c => some (whole, c, none)
  | none =>
    match Bytes.cut 61 whole with
    | none => none
    -- Neither part is trimmed again.
    | some (name, value) => (t.find? name).map fun c => (name, c, some value)

/-- The size of tokens: their bytes, and one for each. -/
def budget (tokens : List Bytes) : Nat := tokens.foldr (fun t n => t.length + 1 + n) 0

theorem budget_cons (t : Bytes) (ts : List Bytes) :
    budget (t :: ts) = t.length + 1 + budget ts := by
  rw [budget, List.foldr_cons, budget]

theorem budget_drop_le (n : Nat) (ts : List Bytes) : budget (ts.drop n) ≤ budget ts := by
  induction ts generalizing n with
  | nil => simp
  | cons t ts ih =>
    cases n with
    | zero => simp
    | succ n =>
      have := ih n
      simp only [List.drop_succ_cons, budget_cons]
      omega

/-- A value split from a token is shorter than the token. -/
theorem length_lt_of_resolve {t : Table σ} {token name value : Bytes} {c : Option (Command σ)}
    (h : t.resolve token = some (name, c, some value)) : value.length < token.length := by
  have hle := Bytes.length_trim_le token
  simp only [resolve] at h
  split at h
  · simp at h
  · split at h
    · simp at h
    · next x y hcut =>
      obtain ⟨c', _, hc⟩ := Option.map_eq_some_iff.1 h
      simp only [Prod.mk.injEq, Option.some.injEq] at hc
      have := congrArg List.length (Bytes.cut_eq_some hcut)
      simp only [List.length_append, List.length_cons] at this
      rw [hc.2.2] at this
      omega

def perform (name : Bytes) (c : Command σ) (tokens : List Bytes) (s : σ) : σ × Option Failure :=
  match c.action with
  | none => (s, none)
  | some a =>
    match takeArgs a.params tokens with
    | .error e => (s, some (.argument name e))
    | .ok vs =>
      let (s, e) := a.run vs s
      (s, e.map (.action name))

/-- Runs tokens from the left. The first failure ends the run; what was done before it stays. -/
def execute (t : Table σ) (s : σ) (tokens : List Bytes) : σ × Option Failure :=
  match tokens with
  | [] => (s, none)
  | token :: rest =>
    match _resolved : t.resolve token with
    | none => (s, some (.unknown (Bytes.trim token)))
    | some (name, none, _) => (s, some (.unbound name))
    | some (name, some c, value) =>
      -- A value split from the token is the first of the tokens behind it.
      let args := value.toList ++ rest
      match perform name c args s with
      | (s, some e) => (s, some e)
      | (s, none) =>
        match t.extend name c.subs with
        | .error e => (s, some e)
        | .ok visible => execute visible s (args.drop c.arity)
termination_by budget tokens
decreasing_by
  have hdrop := budget_drop_le c.arity (value.toList ++ rest)
  cases value with
  | none =>
    simp only [Option.toList_none, List.nil_append] at hdrop ⊢
    rw [budget_cons]
    omega
  | some v =>
    have := length_lt_of_resolve _resolved
    simp only [Option.toList_some, List.singleton_append, budget_cons] at hdrop ⊢
    omega

end Table

end Command

end TapeForge
