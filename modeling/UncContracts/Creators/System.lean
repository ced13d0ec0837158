import Mathlib.Logic.Function.Basic
import UncContracts.Airdrop.Contract
import UncContracts.Creators.LockupFactory
import UncContracts.MultisigFactory.Contract

/-!
# The contracts that create accounts

The multisig factory, the lockup factory and the airdrop create accounts with the deposits attached
to the calls. A batch that fails returns its tokens to the contract that issued it, and the outcome
of a batch goes to the callback that awaits it, where there is one. Calls and outcomes interleave
in any way.

## Main definitions

* `Creation`: the calls that create accounts
* `World`, `system`: the contracts with the tokens they hold and what is in flight, as a machine
* `bounces`: a transfer back to a caller fails
-/

namespace UncContracts.Creators

open Foundation

open Lockup (VestingScheduleOrHash)

/-- The contracts that create accounts. -/
inductive Creator
  | multisigFactory
  | lockupFactory
  | airdrop
  deriving DecidableEq, Repr

/-- The callbacks of the contracts. The multisig factory has none. -/
inductive Callback
  | onLockupCreate (callback : LockupFactory.OnLockupCreate)
  | airdrop (callback : Airdrop.Callback)
  deriving DecidableEq, Repr

/-- What the host knows of a batch: its account, the tokens that it carries, whether it creates
the account, and the callback that awaits it. -/
structure Sent where
  receiverId : AccountId
  amount : ℕ
  createsAccount : Bool
  callback : Option Callback
  deriving DecidableEq, Repr

/-- A batch of one of the factories, as the host knows it. -/
def Sent.ofBatch {α κ : Type} (callback : κ → Callback) (b : Batch α κ) : Sent where
  receiverId := b.receiverId
  amount := b.amount
  createsAccount := b.createsAccount
  callback := b.callback.map callback

/-- The tokens that an action of the airdrop carries. -/
def amountOf : Airdrop.Action → ℕ
  | .transfer amount => amount
  | _ => 0

/-- A batch of the airdrop, as the host knows it. -/
def Sent.ofPromise (p : Airdrop.Promise) : Sent where
  receiverId := p.receiverId
  amount := (p.actions.map amountOf).sum
  createsAccount := p.actions.any (· = .createAccount)
  callback := p.callback.map .airdrop

/-- A call that creates an account, with its arguments. -/
inductive Creation
  /-- `MultisigFactory::create`. -/
  | multisig (prepaidGas : ℕ) (name : AccountId) (members : List MultisigFactory.MultisigMember)
      (numConfirmations : ℕ)
  /-- `LockupFactory::create`. -/
  | lockup (ownerAccountId : AccountId) (lockupDuration : ℕ) (lockupTimestamp : Option ℕ)
      (vestingSchedule : Option VestingScheduleOrHash) (releaseDuration : Option ℕ)
      (whitelistAccountId : Option AccountId)
  /-- `AirDrop::create_account`. -/
  | account (newAccountId : AccountId) (newPublicKey : PublicKey)
  /-- `AirDrop::create_account_advanced`. -/
  | accountAdvanced (newAccountId : AccountId) (options : Airdrop.CreateAccountOptions)

/-- The contract that is called. -/
def Creation.creator : Creation → Creator
  | multisig .. => .multisigFactory
  | lockup .. => .lockupFactory
  | account .. | accountAdvanced .. => .airdrop

/-- A deposit attached to a call, with the account to create. -/
structure Deposit where
  creator : Creator
  callerId : AccountId
  amount : ℕ
  newAccountId : AccountId
  deriving DecidableEq, Repr

/-- What is in flight, for one of the deposits. -/
inductive Receipt
  | batch (depositId : ℕ) (creator : Creator) (sent : Sent)
  | callback (depositId : ℕ) (creator : Creator) (callback : Callback) (success : Bool)
  deriving DecidableEq, Repr

/-- Tokens that arrived at an account by a batch for one of the deposits. -/
structure Payment where
  depositId : ℕ
  receiverId : AccountId
  amount : ℕ
  deriving DecidableEq, Repr

/-- The contracts with the tokens they hold, what is in flight, the deposits so far, and the
payments so far. -/
structure World where
  accountId : Creator → AccountId
  lockupFactory : LockupFactory
  airdrop : Airdrop.AirDrop
  balance : Creator → ℕ
  deposits : List Deposit
  receipts : List Receipt
  payments : List Payment

/-- What may happen next. -/
inductive Label
  /-- A call that creates an account. -/
  | call (env : Env) (creation : Creation)
  /-- The execution of a batch, which may fail. -/
  | deliver (i : ℕ) (success : Bool)
  /-- The execution of a callback. -/
  | resume (i : ℕ) (env : Env)

namespace World

variable (sha256 : List UInt8 → Lockup.Hash) (w : World)

/-- The account that a call is to create. -/
def newAccountId : Creation → AccountId
  | .multisig _ name _ _ => name ++ "." ++ w.accountId .multisigFactory
  | .lockup ownerAccountId .. =>
    LockupFactory.lockupAccountId sha256 (w.accountId .lockupFactory) ownerAccountId
  | .account newAccountId _ => newAccountId
  | .accountAdvanced newAccountId _ => newAccountId

/-- The call of a contract: the airdrop after it, and the batches that it issues. -/
def create (env : Env) : Creation → Exec (Airdrop.AirDrop × List Sent)
  | .multisig prepaidGas name members numConfirmations => do
    let b ← MultisigFactory.create env prepaidGas name members numConfirmations
    return (w.airdrop, [.ofBatch Empty.elim b])
  | .lockup ownerAccountId lockupDuration lockupTimestamp vestingSchedule releaseDuration
      whitelistAccountId => do
    let b ← w.lockupFactory.create sha256 env ownerAccountId lockupDuration lockupTimestamp
      vestingSchedule releaseDuration whitelistAccountId
    return (w.airdrop, [.ofBatch .onLockupCreate b])
  | .account newAccountId newPublicKey => do
    let (airdrop, promises) ← w.airdrop.createAccount env newAccountId newPublicKey
    return (airdrop, promises.map .ofPromise)
  | .accountAdvanced newAccountId options => do
    let (airdrop, promises) ← w.airdrop.createAccountAdvanced env newAccountId options
    return (airdrop, promises.map .ofPromise)

/-- The execution of a callback: the airdrop after it, and the batches that it issues. -/
def runCallback (env : Env) (success : Bool) : Callback → Exec (Airdrop.AirDrop × List Sent)
  | .onLockupCreate callback => do
    let (_, batches) ← LockupFactory.onLockupCreate env [success] callback
    return (w.airdrop, batches.map (.ofBatch .onLockupCreate))
  | .airdrop callback => do
    let (airdrop, promises) ← w.airdrop.call env [success] (.callback callback)
    return (airdrop, promises.map .ofPromise)

/-- The world after batches were issued: their tokens leave the contract. A contract cannot issue
more than it holds. -/
def issue (depositId : ℕ) (creator : Creator) (airdrop : Airdrop.AirDrop) (sents : List Sent) :
    Exec World := do
  let rest ← checkedSub (w.balance creator) (sents.map Sent.amount).sum
  return { w with
    airdrop
    balance := Function.update w.balance creator rest
    receipts := w.receipts ++ sents.map (.batch depositId creator) }

/-- The world after a callback. -/
def resume (depositId : ℕ) (creator : Creator) (env : Env) (success : Bool)
    (callback : Callback) : Exec World := do
  let (airdrop, sents) ← w.runCallback env success callback
  w.issue depositId creator airdrop sents

/-- The world with the deposit of a call. -/
def deposit (env : Env) (creation : Creation) : World :=
  { w with
    balance := Function.update w.balance creation.creator
      (w.balance creation.creator + env.attachedDeposit)
    deposits := w.deposits ++
      [{ creator := creation.creator
         callerId := env.predecessorAccountId
         amount := env.attachedDeposit
         newAccountId := w.newAccountId sha256 creation }] }

/-- The world after a batch. If it fails, its tokens go back to the contract that issued it. -/
def delivered (depositId : ℕ) (creator : Creator) (sent : Sent) (success : Bool) : World :=
  let receipts := w.receipts ++
    sent.callback.toList.map fun callback => .callback depositId creator callback success
  if success then
    { w with receipts, payments := w.payments ++ [⟨depositId, sent.receiverId, sent.amount⟩] }
  else
    { w with
      receipts
      balance := Function.update w.balance creator (w.balance creator + sent.amount) }

end World

/-- The contracts as a machine. A callback that panics takes back what it did. -/
def system (sha256 : List UInt8 → Lockup.Hash) : Machine World Label String where
  step w l :=
    match l with
    | .call env creation => do
      ensure (env.currentAccountId = w.accountId creation.creator)
        "The receipt is for another account"
      let (airdrop, sents) ← w.create sha256 env creation
      (w.deposit sha256 env creation).issue w.deposits.length creation.creator airdrop sents
    | .deliver i success => do
      let (receipt, receipts) ← expect (takeAt w.receipts i) "No such receipt"
      match receipt with
      | .batch depositId creator sent =>
        return { w with receipts }.delivered depositId creator sent success
      | .callback .. => .error "A callback runs at its contract"
    | .resume i env => do
      let (receipt, receipts) ← expect (takeAt w.receipts i) "No such receipt"
      match receipt with
      | .batch .. => .error "Only callbacks run at their contracts"
      | .callback depositId creator callback success => do
        ensure (env.currentAccountId = w.accountId creator) "The receipt is for another account"
        ensure (env.predecessorAccountId = w.accountId creator) "A contract calls its callbacks"
        ensure (env.attachedDeposit = 0) "The callbacks take no deposit"
        match { w with receipts }.resume depositId creator env success callback with
        | .ok w => return w
        | .error _ => return { w with receipts }

/-- The step fails a batch that creates no account, which is a transfer back to a caller. -/
def bounces (x : Step World Label) : Bool :=
  match x.label with
  | .deliver i false =>
    match x.before.receipts[i]? with
    | some (.batch _ _ sent) => !sent.createsAccount
    | _ => false
  | _ => false

end UncContracts.Creators
