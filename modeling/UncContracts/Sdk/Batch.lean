import Mathlib.Algebra.BigOperators.Group.List.Basic
import UncContracts.Sdk.Env

/-!
# Batches of actions

A contract acts on another account by a batch of actions, which succeeds or fails as a whole, and
may await the outcome with a callback. The tokens of a batch leave the contract with it and come
back if it fails.

## Main definitions

* `Batch`: a batch of actions with its callback
* `Batch.amount`: the tokens that a batch carries
-/

namespace UncContracts

/-- An action on an account, with call arguments in `α`. A code is given by its file. -/
inductive BatchAction (α : Type)
  | createAccount
  | deployContract (code : String)
  | transfer (amount : ℕ)
  | functionCall (methodName : String) (args : α) (deposit gas : ℕ)
  deriving DecidableEq, Repr

/-- A batch of actions on an account, with the callback that awaits it. -/
structure Batch (α κ : Type) where
  receiverId : AccountId
  actions : List (BatchAction α)
  callback : Option κ := none
  deriving DecidableEq, Repr

variable {α κ : Type}

/-- The tokens that an action carries. -/
def BatchAction.amount : BatchAction α → ℕ
  | transfer amount => amount
  | functionCall _ _ deposit _ => deposit
  | createAccount | deployContract _ => 0

/-- Whether an action creates the account. -/
def BatchAction.createsAccount : BatchAction α → Bool
  | createAccount => true
  | _ => false

/-- The tokens that a batch carries. -/
def Batch.amount (b : Batch α κ) : ℕ := (b.actions.map BatchAction.amount).sum

/-- Whether a batch creates its account. -/
def Batch.createsAccount (b : Batch α κ) : Bool := b.actions.any BatchAction.createsAccount

end UncContracts
