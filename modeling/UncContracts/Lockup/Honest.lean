import UncContracts.Lockup.Locked
import UncContracts.Lockup.Queries

/-!
# The lockup's tokens

Where the tokens of the lockup are: on the account, at the staking pool, and in flight. An honest
pool holds what is deposited to it, gives back what is withdrawn from it, and returns the deposit of
a call that fails.

## Main definitions

* `World.inFlight`: the deposits, withdrawals and payouts in flight
* `honest`: a step in which the called accounts are honest
* `World.claimable`: the known deposit, up to the callback that is to update it
* `Receipt.Sent`: a receipt is as the methods of the lockup send it

## Main results

* `sent_step`: every step keeps the receipts as the methods send them
-/

namespace UncContracts.Lockup

open Foundation LockupContract

/-- The tokens that a receipt carries, other than those that the owner transferred. A payout is in
flight until it is booked. -/
def Receipt.inFlight : Receipt → ℕ
  | .promise (.functionCall _ _ attachedDeposit _) => attachedDeposit
  | .promise (.transfer _ amount (some _)) => amount
  | .callback (.onWithdrawUnvestedAmount amount _) (.successful _) => amount
  | .credit amount => amount
  | .refund (some _) amount => amount
  | _ => 0

/-- The deposit that a callback is to add to the known one. -/
def Receipt.toAdd : Receipt → ℕ
  | .callback (.onStakingPoolDeposit amount) (.successful _) => amount
  | .callback (.onStakingPoolDepositAndStake amount) (.successful _) => amount
  | _ => 0

/-- The withdrawal that a callback is to take off the known deposit. -/
def Receipt.toTake : Receipt → ℕ
  | .callback (.onStakingPoolWithdraw amount) (.successful _) => amount
  | _ => 0

namespace World

variable (w : World)

/-- The deposits, withdrawals and payouts in flight. -/
def inFlight : ℕ := (w.receipts.map Receipt.inFlight).sum

/-- The known deposit, up to the callback that is to update it. -/
def claimable : ℕ :=
  w.contract.getKnownDepositedBalance + (w.receipts.map Receipt.toAdd).sum -
    (w.receipts.map Receipt.toTake).sum

/-- The tokens that the selected pool holds for the lockup. -/
def heldAtPool : ℕ :=
  match w.contract.getStakingPoolAccountId with
  | some pool => w.held pool
  | none => 0

end World

/-- The called accounts are honest: a deposit is held, a withdrawal is given back and takes no more
off, a call that fails returns its deposit, and otherwise what is held does not shrink. -/
def honest (w : World) : Label → Bool
  | .deliver i outcome =>
    match w.receipts[i]? with
    | some (.promise (.functionCall receiverId method deposit _)) =>
      match outcome.result with
      | .failed => w.held receiverId ≤ outcome.held ∧ deposit ≤ outcome.sent
      | .successful _ =>
        match method with
        | .withdraw amount =>
          w.held receiverId ≤ outcome.held + amount ∧ amount ≤ outcome.sent
        | _ => w.held receiverId + deposit ≤ outcome.held
    | _ => true
  | .hold accountId held => w.held accountId ≤ held
  | _ => true

/-- A receipt is as the methods of the lockup send it, given the selected pool. -/
def Receipt.Sent (pool : Option AccountId) : Receipt → Prop
  | .promise (.functionCall receiverId method deposit c) =>
    match c with
    | .onStakingPoolDeposit amount =>
      pool = some receiverId ∧ method = .deposit ∧ deposit = amount
    | .onStakingPoolDepositAndStake amount =>
      pool = some receiverId ∧ method = .depositAndStake ∧ deposit = amount
    | .onStakingPoolWithdraw amount =>
      pool = some receiverId ∧ method = .withdraw amount ∧ deposit = 0
    | _ => deposit = 0 ∧ ∀ amount, method ≠ .withdraw amount
  | .promise (.transfer receiverId amount (some c)) =>
    c = .onWithdrawUnvestedAmount amount receiverId
  | _ => True

section Sent

variable {sha256 : List UInt8 → Hash} {env : Env} {s t : LockupContract} {method : Method}
  {p : Option Promise} {callback : Callback} {result : PromiseResult}
  {pool pool' : Option AccountId} {r : Receipt} {w w' : World} {l : Label}

/-- Only operations at the pool depend on the pool. -/
theorem Receipt.Sent.of_not_pool (h : r.Sent pool)
    (hc : ∀ c, r.pending = some c → c.isPool = false) : r.Sent pool' := by
  cases r with
  | promise q =>
    cases q with
    | functionCall receiver m deposit c =>
      have hpool := hc c rfl
      cases c <;> first | exact h | cases hpool
    | transfer receiver amount c => cases c <;> exact h
    | addFullAccessKey receiver key => trivial
  | _ => trivial

/-- The promises of the methods. -/
theorem sent_called {q : Promise} (hcall : Called sha256 env s method t (some q)) :
    (Receipt.promise q).Sent s.getStakingPoolAccountId := by
  cases hcall with
  | pool hsome hidle hvesting hp hbalance =>
    cases method <;> simp only [Method.poolPromise, Option.some.injEq, reduceCtorEq] at hp <;>
      subst hp <;> simp [Receipt.Sent, getStakingPoolAccountId, hsome]
  | prepare stage hsome hidle hvesting =>
    cases stage <;> simp [Receipt.Sent, Stage.onQuery, Stage.query]
  | _ => simp [Receipt.Sent]

/-- A receipt that joins is as the methods send it. -/
theorem sent_joined (hunanswered : ∀ r ∈ w.receipts, r.Unanswered w.accountId)
    (hjoin : Joined sha256 w l r) : r.Sent w.contract.getStakingPoolAccountId := by
  cases hjoin with
  | called hhost hcall => exact sent_called hcall
  | resumed htake hresume =>
    have hmem := (mem_of_takeAt htake).mpr (.inl rfl)
    cases (resumed_unanswered hresume (hunanswered _ hmem)).2
  | _ => trivial

/-- Every step keeps the receipts as the methods send them. -/
theorem sent_step (h : ∀ r ∈ w.receipts, r.Sent w.contract.getStakingPoolAccountId)
    (hflight : SingleFlight w.contract w.pending)
    (hunanswered : ∀ r ∈ w.receipts, r.Unanswered w.accountId)
    (hstep : (system sha256).step w l = .ok w') :
    ∀ r ∈ w'.receipts, r.Sent w'.contract.getStakingPoolAccountId := by
  have hmoves := moves_of_step hstep
  intro r hr
  have hsent : r.Sent w.contract.getStakingPoolAccountId := by
    rcases joined_of_moves hmoves hr with hr | hjoin
    · exact h r hr
    · exact sent_joined hunanswered hjoin
  rcases getStakingPoolAccountId_of_moves hmoves with hsame | hidle
  · rwa [hsame]
  refine hsent.of_not_pool ?_
  intro c hc
  exact ((singleFlight_step hflight hstep).expected c
    (List.mem_filterMap.mpr ⟨r, hr, hc⟩)).isPool_eq_false hidle

end Sent

end UncContracts.Lockup
