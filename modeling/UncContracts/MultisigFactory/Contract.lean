import UncContracts.Foundation.Panic
import UncContracts.Sdk.Batch
import UncContracts.Sdk.Serde

/-!
# The multisig factory

The factory creates multisigs on its sub-accounts. The new account gets the attached deposit and
the multisig's code, and its `new` is called, in one batch that nothing awaits.

## Main definitions

* `MultisigMember`: the members of a new multisig, with their JSON values
* `create`: the batch that creates a multisig
-/

namespace UncContracts.MultisigFactory

open Foundation

/-- The code of a multisig, by its file. -/
def CODE : String := "res/multisig.wasm"

/-- This gas is spent on the call and the account creation, the rest goes to the `new` call. -/
def CREATE_CALL_GAS : ℕ := 50000000000000

/-- A member of a new multisig. -/
inductive MultisigMember
  | accessKey (publicKey : PublicKey)
  | account (accountId : AccountId)
  deriving DecidableEq, Repr

/-- The JSON value of a member: the fields of its variant, untagged. -/
def MultisigMember.toJson : MultisigMember → Json
  | accessKey publicKey => .object [("public_key", .string publicKey)]
  | account accountId => .object [("account_id", .string accountId)]

/-- The arguments of the `new` call. -/
def createArguments (members : List MultisigMember) (numConfirmations : ℕ) : Json :=
  .object [("members", .array (members.map MultisigMember.toJson)),
    ("num_confirmations", .number numConfirmations 0)]

/-- Creates a multisig on a sub-account. The factory has no callbacks. -/
def create (env : Env) (prepaidGas : ℕ) (name : AccountId) (members : List MultisigMember)
    (numConfirmations : ℕ) : Exec (Batch Json Empty) := do
  let accountId ← expect (parseAccountId (name ++ "." ++ env.currentAccountId))
    "called `Result::unwrap()` on an `Err` value"
  return {
    receiverId := accountId
    actions := [.createAccount, .deployContract CODE, .transfer env.attachedDeposit,
      .functionCall "new" (createArguments members numConfirmations) 0
        (prepaidGas - CREATE_CALL_GAS)] }

end UncContracts.MultisigFactory
