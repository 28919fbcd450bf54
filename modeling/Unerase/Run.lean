/-!
Computations that carry a state and may stop early. The state survives an
early stop: what was done before the stop has been done.
-/

namespace Unerase

/-- A computation that, from a state, gives a value or stops with an `ε`, and in
both cases leaves a state. -/
def Run (ε σ α : Type) : Type :=
  σ → Except ε α × σ

namespace Run

variable {ε σ α β : Type}

/-- Gives a value and leaves the state as it is. -/
def value (a : α) : Run ε σ α :=
  fun s => (.ok a, s)

/-- Runs `x` and then what follows from its value. Nothing follows an early
stop. -/
def andThen (x : Run ε σ α) (f : α → Run ε σ β) : Run ε σ β :=
  fun s =>
    match x s with
    | (.ok a, s') => f a s'
    | (.error e, s') => (.error e, s')

instance : Monad (Run ε σ) where
  pure := value
  bind := andThen

/-- Stops without a change of the state. -/
def stop (e : ε) : Run ε σ α :=
  fun s => (.error e, s)

/-- Gives the state as the value. -/
def state : Run ε σ σ :=
  fun s => (.ok s, s)

/-- Changes the state. -/
def update (f : σ → σ) : Run ε σ Unit :=
  fun s => (.ok (), f s)

/-- A result that does not depend on the state. -/
def ofExcept (r : Except ε α) : Run ε σ α :=
  fun s => (r, s)

/-- Runs `x` and hands out how it ended instead of stopping with it. -/
def attempt (x : Run ε σ α) : Run ε σ (Except ε α) :=
  fun s =>
    match x s with
    | (r, s') => (.ok r, s')

theorem bind_apply (x : Run ε σ α) (f : α → Run ε σ β) (s : σ) :
    (x >>= f) s =
      match x s with
      | (.ok a, s') => f a s'
      | (.error e, s') => (.error e, s') := rfl

private theorem andThen_value (x : Run ε σ α) : andThen x value = x := by
  funext s
  show (match x s with
    | (.ok a, s') => (.ok a, s')
    | (.error e, s') => (.error e, s')) = x s
  split <;> simp_all

private theorem andThen_assoc {γ : Type} (x : Run ε σ α) (f : α → Run ε σ β)
    (g : β → Run ε σ γ) :
    andThen (andThen x f) g = andThen x fun a => andThen (f a) g := by
  funext s
  simp only [andThen]
  cases x s with
  | mk r s' => cases r <;> rfl

instance : LawfulMonad (Run ε σ) :=
  LawfulMonad.mk' (Run ε σ) andThen_value (fun _ _ => rfl) andThen_assoc

end Run

/-- Reasons for which a walk over a program ends before it is complete. -/
inductive Fault (ε : Type) where
  /-- The one who directs the walk has stopped it. -/
  | error (e : ε)
  /-- A position is used that a list of the given length does not have. -/
  | outOfBounds (length index : Nat)
  /-- A body refers back to itself, so that its walk has no end. -/
  | endless
deriving DecidableEq

namespace Fault

/-- What a fault says, given what an error says. -/
def message {ε : Type} (describe : ε → String) : Fault ε → String
  | error e => describe e
  | outOfBounds length index =>
      s!"index out of bounds: the len is {length} but the index is {index}"
  | endless => "a body refers back to itself"

end Fault

end Unerase
