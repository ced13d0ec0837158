import Mathlib.Algebra.Order.Ring.Nat
import UncContracts.Foundation.Panic

/-!
# The host environment

What a contract call reads from its host: the accounts that take part in it, the tokens it
carries, the balances of the contract and the clock. Token amounts are `u128`, epochs, heights
and timestamps `u64`; both are naturals here. An environment carries the bound of its balances.

## Main definitions

* `Env`: the environment of a call
* `saturatingAdd`: addition of token amounts, which stops at the largest `u128`
* `asU128`: the conversion of the result of a wider computation
* `isValidAccountId`, `parseAccountId`: the syntax of account ids
-/

namespace UncContracts

open Foundation

/-- An account id. -/
abbrev AccountId := String

/-- A public key, by its base58 text. -/
abbrev PublicKey := String

/-- The largest `u32`. -/
def u32Max : ℕ := 2 ^ 32 - 1

/-- The largest `u64`. -/
def u64Max : ℕ := 2 ^ 64 - 1

/-- The largest `u128`. -/
def u128Max : ℕ := 2 ^ 128 - 1

/-- `saturating_add` of token amounts. `saturating_sub` is the subtraction of naturals. -/
def saturatingAdd (a b : ℕ) : ℕ := min (a + b) u128Max

theorem saturatingAdd_of_le {a b : ℕ} (h : a + b ≤ u128Max) : saturatingAdd a b = a + b :=
  Nat.min_eq_left h

theorem saturatingAdd_le_add (a b : ℕ) : saturatingAdd a b ≤ a + b := Nat.min_le_left _ _

theorem saturatingAdd_le_max (a b : ℕ) : saturatingAdd a b ≤ u128Max := Nat.min_le_right _ _

/-- `as_u128` of a `U256`. -/
def asU128 (a : ℕ) : Exec ℕ :=
  if a ≤ u128Max then .ok a else .error "Integer overflow when casting to u128"

@[simp] theorem asU128_eq_ok {a b : ℕ} : asU128 a = .ok b ↔ a ≤ u128Max ∧ a = b := by
  unfold asU128
  split <;> simp [*]

/-- The environment of a contract call. -/
structure Env where
  currentAccountId : AccountId
  predecessorAccountId : AccountId
  signerAccountPk : PublicKey
  attachedDeposit : ℕ
  accountBalance : ℕ
  accountLockedBalance : ℕ
  epochHeight : ℕ
  blockHeight : ℕ
  blockTimestamp : ℕ
  attachedDeposit_le : attachedDeposit ≤ u128Max := by decide
  accountBalance_le : accountBalance ≤ u128Max := by decide
  accountLockedBalance_le : accountLockedBalance ≤ u128Max := by decide
  deriving DecidableEq, Repr

/-- `assert_one_atto` of the SDK. The text of its panic is the SDK's, and nothing depends on it. -/
def Env.assertOneAtto (env : Env) : Exec Unit :=
  ensure (env.attachedDeposit = 1) "Requires attached deposit of exactly 1 attoUNC"

@[simp] theorem Env.assertOneAtto_eq_ok {env : Env} {u : Unit} :
    env.assertOneAtto = .ok u ↔ env.attachedDeposit = 1 := ensure_eq_ok

/-- The characters of an account id: lower case letters and digits, with single separators
between them. The flag says whether a separator may not come next. -/
def accountIdChars : Bool → List Char → Bool
  | afterSeparator, [] => !afterSeparator
  | afterSeparator, c :: cs =>
    if c.isLower || c.isDigit then accountIdChars false cs
    else if c = '-' || c = '_' || c = '.' then !afterSeparator && accountIdChars true cs
    else false

/-- `env::is_valid_account_id`: two to sixty-four characters of an account id. -/
def isValidAccountId (id : AccountId) : Bool :=
  2 ≤ id.length && id.length ≤ 64 && accountIdChars true id.toList

/-- `AccountId::from_str`. -/
def parseAccountId (id : String) : Option AccountId := if isValidAccountId id then some id else none

theorem parseAccountId_eq_some {id : String} {accountId : AccountId} :
    parseAccountId id = some accountId ↔ isValidAccountId id ∧ id = accountId := by
  unfold parseAccountId
  split <;> simp [*]

end UncContracts
