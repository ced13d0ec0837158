import UncContracts.Creators.System

/-!
# What the creating contracts do

A call that creates an account issues one batch, which carries the whole deposit. The batches of
the lockup factory and of the airdrop are awaited by callbacks that know the caller and the
deposit, and transfer the deposit back if the batch failed. The batch of the multisig factory is
awaited by nothing.

## Main definitions

* `Awaited`, `Sound`: what the receipts in flight know of their deposits
* `Moves`: what a step does

## Main results

* `moves_of_step`: with sound receipts and enough tokens, every step is one of the moves
-/

namespace UncContracts.Creators

open Foundation

/-- A callback that returns the deposit to its caller. -/
inductive Refunds (d : Deposit) : Callback → Prop
  | lockupFactory {lockupAccountId : AccountId} (hcreator : d.creator = .lockupFactory) :
    Refunds d (.onLockupCreate ⟨lockupAccountId, d.amount, d.callerId⟩)
  | airdrop (hcreator : d.creator = .airdrop) :
    Refunds d (.airdrop (.onAccountCreated d.callerId d.amount))

/-- What awaits the creation for a deposit: nothing at the multisig factory. -/
inductive Awaited (d : Deposit) : Option Callback → Prop
  | none (hcreator : d.creator = .multisigFactory) : Awaited d none
  | some {callback : Callback} (hrefunds : Refunds d callback) : Awaited d (some callback)

/-- The batch that creates the account for a deposit. -/
structure IsCreation (d : Deposit) (sent : Sent) : Prop where
  receiver : sent.receiverId = d.newAccountId
  amount : sent.amount = d.amount
  creates : sent.createsAccount = true
  awaited : Awaited d sent.callback

/-- The batch that returns a deposit to its caller. -/
def refund (d : Deposit) : Sent := ⟨d.callerId, d.amount, false, none⟩

/-- A receipt creates the account for its deposit, awaits that, or returns the deposit. -/
inductive Sound (deposits : List Deposit) : Receipt → Prop
  | creation {id : ℕ} {d : Deposit} {sent : Sent} (hd : deposits[id]? = some d)
    (hcreation : IsCreation d sent) : Sound deposits (.batch id d.creator sent)
  | refund {id : ℕ} {d : Deposit} (hd : deposits[id]? = some d)
    (hcreator : d.creator ≠ .multisigFactory) : Sound deposits (.batch id d.creator (refund d))
  | callback {id : ℕ} {d : Deposit} {callback : Callback} {success : Bool}
    (hd : deposits[id]? = some d) (hrefunds : Refunds d callback) :
    Sound deposits (.callback id d.creator callback success)

/-- The tokens that a callback pays if the batch that it awaits failed. -/
def Callback.amount : Callback → ℕ
  | onLockupCreate callback => callback.attachedDeposit
  | airdrop (.onAccountCreated _ amount) => amount
  | airdrop (.onAccountCreatedAndClaimed amount) => amount

/-- The tokens that a contract holds until a callback pays them. -/
def Receipt.heldBy (creator : Creator) : Receipt → ℕ
  | .callback _ c awaiting false => if c = creator then awaiting.amount else 0
  | _ => 0

theorem Refunds.amount {d : Deposit} {callback : Callback} (h : Refunds d callback) :
    callback.amount = d.amount := by
  cases h <;> rfl

theorem Refunds.creator_ne {d : Deposit} {callback : Callback} (h : Refunds d callback) :
    d.creator ≠ .multisigFactory := by
  cases h with
  | lockupFactory hcreator =>
    rw [hcreator]
    nofun
  | airdrop hcreator =>
    rw [hcreator]
    nofun

/-! ## The contracts -/

section Contracts

variable {sha256 : List UInt8 → Lockup.Hash} {w : World} {env : Env} {creation : Creation}
  {airdrop : Airdrop.AirDrop} {sents : List Sent} {d : Deposit} {callback : Callback}

/-- The deposit of a call. -/
def depositOf (sha256 : List UInt8 → Lockup.Hash) (w : World) (env : Env) (creation : Creation) :
    Deposit where
  creator := creation.creator
  callerId := env.predecessorAccountId
  amount := env.attachedDeposit
  newAccountId := w.newAccountId sha256 creation

/-- Actions that carry no tokens. -/
theorem sum_amountOf_map {α : Type} {f : α → Airdrop.Action} (hf : ∀ a, amountOf (f a) = 0)
    (l : List α) : ((l.map f).map amountOf).sum = 0 := by
  apply List.sum_eq_zero
  simp [hf]

/-- A call issues one batch, with the whole deposit. -/
theorem create_eq_ok (hself : env.currentAccountId = w.accountId creation.creator)
    (h : w.create sha256 env creation = .ok (airdrop, sents)) :
    airdrop = w.airdrop ∧ ∃ sent, sents = [sent] ∧
      IsCreation (depositOf sha256 w env creation) sent := by
  cases creation with
  | multisig prepaidGas name members numConfirmations =>
    simp only [World.create, MultisigFactory.create, bind_eq_ok, expect_eq_ok, pure_eq_ok,
      parseAccountId_eq_some, Prod.mk.injEq] at h
    obtain ⟨b, ⟨id, ⟨-, rfl⟩, rfl⟩, rfl, rfl⟩ := h
    -- The batch of the multisig factory has no callback.
    refine ⟨rfl, _, rfl, ?_, ?_, rfl, .none rfl⟩
    · exact congrArg (name ++ "." ++ ·) hself
    · simp [Sent.ofBatch, Batch.amount, BatchAction.amount, depositOf]
  | lockup ownerAccountId lockupDuration lockupTimestamp vestingSchedule releaseDuration
      whitelistAccountId =>
    simp only [World.create, LockupFactory.create, bind_eq_ok, ensure_eq_ok, expect_eq_ok,
      pure_eq_ok, parseAccountId_eq_some, Prod.mk.injEq] at h
    obtain ⟨b, ⟨-, -, id, ⟨-, rfl⟩, rfl⟩, rfl, rfl⟩ := h
    refine ⟨rfl, _, rfl, ?_, ?_, rfl, .some (.lockupFactory rfl)⟩
    · exact congrArg (LockupFactory.lockupAccountId sha256 · ownerAccountId) hself
    · simp [Sent.ofBatch, Batch.amount, BatchAction.amount, depositOf]
  | account newAccountId newPublicKey =>
    simp only [World.create, Airdrop.AirDrop.createAccount, bind_eq_ok, ensure_eq_ok, pure_eq_ok,
      Prod.mk.injEq, Prod.exists] at h
    obtain ⟨_, _, ⟨-, -, rfl, rfl⟩, rfl, rfl⟩ := h
    refine ⟨rfl, _, rfl, rfl, ?_, rfl, .some (.airdrop rfl)⟩
    simp [Sent.ofPromise, Airdrop.AirDrop.creation, amountOf, depositOf]
  | accountAdvanced newAccountId options =>
    simp only [World.create, Airdrop.AirDrop.createAccountAdvanced, bind_eq_ok, ensure_eq_ok,
      pure_eq_ok, Prod.mk.injEq, Prod.exists] at h
    obtain ⟨_, _, ⟨-, -, rfl, rfl⟩, rfl, rfl⟩ := h
    refine ⟨rfl, _, rfl, rfl, ?_, rfl, .some (.airdrop rfl)⟩
    simp only [Sent.ofPromise, List.map_append, List.sum_append, depositOf]
    rw [sum_amountOf_map fun _ => rfl, sum_amountOf_map fun _ => rfl, sum_amountOf_map fun _ => rfl]
    simp [amountOf]

/-- A callback returns the deposit if the batch failed, and issues nothing otherwise. -/
theorem runCallback_eq_ok (hself : env.predecessorAccountId = env.currentAccountId)
    (hdeposit : env.attachedDeposit = 0) (h : Refunds d callback) (success : Bool) :
    w.runCallback env success callback =
      .ok (w.airdrop, if success then [] else [refund d]) := by
  cases h with
  | lockupFactory hcreator =>
    cases success <;>
      simp [World.runCallback, LockupFactory.onLockupCreate, LockupFactory.isPromiseSuccess, hself,
        ensure, Sent.ofBatch, Batch.amount, Batch.createsAccount, BatchAction.amount,
        BatchAction.createsAccount, refund, ok_bind, pure, Except.pure]
  | airdrop hcreator =>
    cases success <;>
      simp [World.runCallback, Airdrop.AirDrop.call, Airdrop.AirDrop.onAccountCreated,
        Airdrop.isPromiseSuccess, hself, hdeposit, ensure, Sent.ofPromise, amountOf, refund,
        ok_bind, pure, Except.pure]

end Contracts

/-! ## The steps -/

/-- What a step does, where the receipts are sound, the contracts hold what they have to pay, and the
transfers back to the callers succeed. -/
inductive Moves (sha256 : List UInt8 → Lockup.Hash) (w : World) : Label → World → Prop
  | called {env : Env} {creation : Creation} {d : Deposit} {sent : Sent}
    (hd : d = depositOf sha256 w env creation) (hcreation : IsCreation d sent) :
    Moves sha256 w (.call env creation)
      { w with
        deposits := w.deposits ++ [d]
        receipts := w.receipts ++ [.batch w.deposits.length d.creator sent] }
  | paid {i id : ℕ} {creator : Creator} {sent : Sent} {rest : List Receipt}
    (htake : takeAt w.receipts i = some (.batch id creator sent, rest)) :
    Moves sha256 w (.deliver i true) ({ w with receipts := rest }.delivered id creator sent true)
  | failed {i id : ℕ} {creator : Creator} {sent : Sent} {rest : List Receipt}
    (htake : takeAt w.receipts i = some (.batch id creator sent, rest))
    (hcreates : sent.createsAccount = true) :
    Moves sha256 w (.deliver i false)
      ({ w with receipts := rest }.delivered id creator sent false)
  | done {i id : ℕ} {env : Env} {creator : Creator} {callback : Callback} {rest : List Receipt}
    (htake : takeAt w.receipts i = some (.callback id creator callback true, rest)) :
    Moves sha256 w (.resume i env) { w with receipts := rest }
  | refunded {i id : ℕ} {env : Env} {d : Deposit} {callback : Callback} {rest : List Receipt}
    (htake : takeAt w.receipts i = some (.callback id d.creator callback false, rest))
    (hd : w.deposits[id]? = some d) (hrefunds : Refunds d callback)
    (hbalance : d.amount ≤ w.balance d.creator) :
    Moves sha256 w (.resume i env)
      { w with
        balance := Function.update w.balance d.creator (w.balance d.creator - d.amount)
        receipts := rest ++ [.batch id d.creator (refund d)] }

section Steps

variable {sha256 : List UInt8 → Lockup.Hash} {w w' : World} {l : Label} {env : Env} {i : ℕ}
  {d : Deposit} {callback : Callback} {id : ℕ} {success : Bool}

/-- What a world holds for the callbacks in flight, contract by contract. -/
def World.held (w : World) (creator : Creator) : ℕ := (w.receipts.map (Receipt.heldBy creator)).sum

/-- A callback in flight returns the deposit, if the contract holds it. -/
theorem resume_eq_ok (hself : env.predecessorAccountId = env.currentAccountId)
    (hdeposit : env.attachedDeposit = 0) (hrefunds : Refunds d callback)
    (hbalance : success = false → d.amount ≤ w.balance d.creator) :
    w.resume id d.creator env success callback = .ok (if success then w else
      { w with
        balance := Function.update w.balance d.creator (w.balance d.creator - d.amount)
        receipts := w.receipts ++ [.batch id d.creator (refund d)] }) := by
  rw [World.resume, runCallback_eq_ok hself hdeposit hrefunds, ok_bind]
  cases success with
  | true => simp [World.issue, checkedSub, ok_bind, pure, Except.pure]
  | false =>
    simp [World.issue, checkedSub, ok_bind, pure, Except.pure, refund, hbalance rfl]

/-- **The moves.** With sound receipts, and the tokens of the callbacks in flight, every accepted
step is one of the moves, unless a transfer back to a caller fails. -/
theorem moves_of_step (hsound : ∀ r ∈ w.receipts, Sound w.deposits r)
    (hheld : ∀ creator, w.held creator ≤ w.balance creator)
    (hstep : (system sha256).step w l = .ok w') (harrives : bounces ⟨w, l, w'⟩ = false) :
    Moves sha256 w l w' := by
  cases l with
  | call env creation =>
    obtain ⟨_, hself, hstep⟩ := bind_eq_ok.mp hstep
    obtain ⟨⟨airdrop, sents⟩, hcreate, hstep⟩ := bind_eq_ok.mp hstep
    obtain ⟨rfl, sent, rfl, hcreation⟩ := create_eq_ok (ensure_eq_ok.mp hself) hcreate
    obtain ⟨rest, hrest, hstep⟩ := bind_eq_ok.mp hstep
    obtain ⟨-, rfl⟩ := checkedSub_eq_ok.mp hrest
    cases pure_eq_ok.mp hstep
    have hamount : sent.amount = env.attachedDeposit := hcreation.amount
    have hmoves := Moves.called rfl hcreation
    have hbalance : Function.update (w.deposit sha256 env creation).balance creation.creator
        ((w.deposit sha256 env creation).balance creation.creator -
          ([sent].map Sent.amount).sum) = w.balance := by
      simp [World.deposit, hamount]
    rw [hbalance]
    exact hmoves
  | deliver i success =>
    obtain ⟨⟨receipt, rest⟩, htake, hstep⟩ := bind_eq_ok.mp hstep
    have htake := expect_eq_ok.mp htake
    cases receipt with
    | batch id creator sent =>
      cases pure_eq_ok.mp hstep
      cases success with
      | true => exact .paid htake
      | false =>
        refine .failed htake ?_
        simpa [bounces, (takeAt_eq_some.mp htake).1] using harrives
    | callback id creator callback success => cases hstep
  | resume i env =>
    obtain ⟨⟨receipt, rest⟩, htake, hstep⟩ := bind_eq_ok.mp hstep
    have htake := expect_eq_ok.mp htake
    cases receipt with
    | batch id creator sent => cases hstep
    | callback id creator callback success =>
      obtain ⟨_, hcurrent, hstep⟩ := bind_eq_ok.mp hstep
      obtain ⟨_, hpredecessor, hstep⟩ := bind_eq_ok.mp hstep
      obtain ⟨_, hdeposit, hstep⟩ := bind_eq_ok.mp hstep
      have hself := (ensure_eq_ok.mp hpredecessor).trans (ensure_eq_ok.mp hcurrent).symm
      cases hsound _ ((mem_of_takeAt htake).mpr (.inl rfl)) with
      | @callback _ d _ _ hd hrefunds =>
        -- The runtime returned the deposit to the contract with the failure, so it can be paid.
        have hbalance : success = false → d.amount ≤ w.balance d.creator := by
          rintro rfl
          refine le_trans ?_ (hheld d.creator)
          rw [World.held, sum_of_takeAt htake, Receipt.heldBy, if_pos rfl, hrefunds.amount]
          exact Nat.le_add_right _ _
        rw [resume_eq_ok (w := { w with receipts := rest }) hself (ensure_eq_ok.mp hdeposit)
          hrefunds hbalance] at hstep
        cases pure_eq_ok.mp hstep
        cases success with
        | true => exact .done htake
        | false => exact .refunded htake hd hrefunds (hbalance rfl)

end Steps

end UncContracts.Creators
