import Mathlib.Logic.Function.Basic
import UncContracts.Foundation.InFlight
import UncContracts.Foundation.Machine
import UncContracts.Lockup.Effects

/-!
# The lockup in its environment

The lockup's account with its tokens, the receipts in flight, and what the other accounts hold for
it. Receipts are executed in any order: a call at another account succeeds or fails there, and its
callback then runs at the lockup, where a panic takes back what the callback did. A call that the
lockup sends to itself fails, since it has none of those methods. What the holder of a full access
key does to the account is not part of it.

## Main definitions

* `Receipt`, `World`, `Label`: what is in flight, the state of the system and what may happen next
* `system`: the machine
* `Moves`: what one step does
* `Joined`: a receipt that a step adds

## Main results

* `moves_of_step`: every step is one of the moves
* `joined_of_moves`: the receipts after a step
* `pending_of_deliver`: a delivery leaves the contract and what is awaited
-/

namespace UncContracts.Lockup

open Foundation

/-- What is in flight. -/
inductive Receipt
  | promise (p : Promise)
  /-- A callback, with the outcome it awaited. -/
  | callback (callback : Callback) (result : PromiseResult)
  /-- Tokens that a called contract sends to the lockup. -/
  | credit (amount : ℕ)
  /-- Tokens of a failed transfer on their way back, with the callback of the transfer. -/
  | refund (callback : Option Callback) (amount : ℕ)
  deriving DecidableEq, Repr

/-- The callback that a receipt carries on. -/
def Receipt.pending : Receipt → Option Callback
  | .promise p => p.callback
  | .callback c _ => some c
  | .credit _ => none
  | .refund _ _ => none

/-- The lockup in its environment. -/
structure World where
  /-- The account of the lockup. -/
  accountId : AccountId
  contract : LockupContract
  /-- The tokens on the account. -/
  balance : ℕ
  /-- The tokens that each account holds for the lockup. -/
  held : AccountId → ℕ
  receipts : List Receipt
  /-- The time of the last block that the lockup saw. -/
  now : ℕ

/-- What an account does when a receipt is executed there: the outcome, the tokens that it then
holds for the lockup, and those that it sends to it. -/
structure Outcome where
  result : PromiseResult
  held : ℕ
  sent : ℕ
  deriving DecidableEq, Repr

/-- What may happen next. -/
inductive Label
  /-- A call by another account. -/
  | call (env : Env) (method : Method)
  /-- The execution of a receipt other than a callback. -/
  | deliver (i : ℕ) (outcome : Outcome)
  /-- The execution of a callback. -/
  | resume (i : ℕ) (env : Env)
  /-- Tokens from elsewhere. -/
  | receive (amount : ℕ)
  /-- Another account holds more or less for the lockup, by itself. -/
  | hold (accountId : AccountId) (held : ℕ)
  deriving DecidableEq, Repr

namespace World

variable (w : World)

/-- The world of a new lockup. -/
def initial (env : Env) (contract : LockupContract) (held : AccountId → ℕ) : World :=
  { accountId := env.currentAccountId
    contract
    balance := env.accountBalance
    held
    receipts := []
    now := env.blockTimestamp }

/-- The callbacks that are awaited. -/
def pending : List Callback := w.receipts.filterMap Receipt.pending

/-- The environment is that of the lockup's account, now or later. -/
def Hosts (env : Env) : Prop :=
  env.currentAccountId = w.accountId ∧ env.accountBalance = w.balance ∧ w.now ≤ env.blockTimestamp

instance (env : Env) : Decidable (w.Hosts env) := inferInstanceAs (Decidable (_ ∧ _))

/-- The tokens that a promise takes, if there is one. -/
def tokensOf (p : Option Promise) : ℕ := (p.map Promise.tokens).getD 0

/-- The world after a method of the lockup, with its promise in flight. -/
def issued (env : Env) (contract : LockupContract) (receipts : List Receipt)
    (p : Option Promise) : World :=
  { w with
    contract
    balance := w.balance - tokensOf p
    receipts := receipts ++ (p.map Receipt.promise).toList
    now := env.blockTimestamp }

/-- Issues the promise of a method. -/
def issue (env : Env) (contract : LockupContract) (receipts : List Receipt)
    (p : Option Promise) : Exec World := do
  ensure (tokensOf p ≤ w.balance) "Not enough balance to issue the promise"
  return w.issued env contract receipts p

/-- The tokens that a called contract sends, if any. -/
def credits (sent : ℕ) : List Receipt := if sent = 0 then [] else [.credit sent]

/-- The execution of a receipt that has left the queue. -/
def deliver (outcome : Outcome) (receipts : List Receipt) : Receipt → Exec World
  | .promise (.functionCall receiverId _ _ callback) => do
    ensure (receiverId ≠ w.accountId ∨ outcome.result = .failed) "Contract method is not found"
    return { w with
      held := Function.update w.held receiverId outcome.held
      receipts := receipts ++ .callback callback outcome.result :: credits outcome.sent }
  | .promise (.transfer receiverId amount callback) =>
    let awaited := (callback.map fun callback => .callback callback outcome.result).toList
    if outcome.result.isSuccess then
      return { w with
        balance := if receiverId = w.accountId then w.balance + amount else w.balance
        receipts := receipts ++ awaited }
    else
      return { w with receipts := receipts ++ .refund callback amount :: awaited }
  | .promise (.addFullAccessKey _ _) => return { w with receipts }
  | .callback _ _ => .error "A callback runs at the lockup"
  | .credit amount => return { w with balance := w.balance + amount, receipts }
  | .refund _ amount => return { w with balance := w.balance + amount, receipts }

/-- The execution of a callback that has left the queue. A panic leaves the contract alone. -/
def resume (env : Env) (receipts : List Receipt) : Receipt → Exec World
  | .callback callback result =>
    match w.contract.resume env callback result with
    | .ok (contract, p) => w.issue env contract receipts p
    | .error _ => return { w with receipts, now := env.blockTimestamp }
  | _ => .error "Only callbacks run at the lockup"

end World

/-- The lockup in its environment as a machine. -/
def system (sha256 : List UInt8 → Hash) : Machine World Label String where
  step w l :=
    match l with
    | .call env method => do
      ensure (w.Hosts env) "The receipt is for another account"
      ensure (env.predecessorAccountId ≠ w.accountId) "The lockup calls by its receipts"
      let (contract, p) ← w.contract.call env sha256 method
      w.issue env contract w.receipts p
    | .deliver i outcome => do
      let (receipt, receipts) ← expect (takeAt w.receipts i) "No such receipt"
      w.deliver outcome receipts receipt
    | .resume i env => do
      let (receipt, receipts) ← expect (takeAt w.receipts i) "No such receipt"
      ensure (w.Hosts env) "The receipt is for another account"
      ensure (env.predecessorAccountId = w.accountId) "The lockup calls its callbacks"
      w.resume env receipts receipt
    | .receive amount => return { w with balance := w.balance + amount }
    | .hold accountId held => return { w with held := Function.update w.held accountId held }

/-! ## What a step does -/

/-- What one step does. -/
inductive Moves (sha256 : List UInt8 → Hash) (w : World) : Label → World → Prop
  | called {env : Env} {method : Method} {contract : LockupContract} {p : Option Promise}
    (hhost : w.Hosts env) (hcall : Called sha256 env w.contract method contract p)
    (htokens : World.tokensOf p ≤ w.balance) :
    Moves sha256 w (.call env method) (w.issued env contract w.receipts p)
  | resumed {i : ℕ} {env : Env} {callback : Callback} {result : PromiseResult}
    {contract : LockupContract} {p : Option Promise} {rest : List Receipt}
    (htake : takeAt w.receipts i = some (.callback callback result, rest)) (hhost : w.Hosts env)
    (hresume : Resumed w.contract callback result contract p)
    (htokens : World.tokensOf p ≤ w.balance) :
    Moves sha256 w (.resume i env) (w.issued env contract rest p)
  | panicked {i : ℕ} {env : Env} {callback : Callback} {result : PromiseResult} {e : String}
    {rest : List Receipt} (htake : takeAt w.receipts i = some (.callback callback result, rest))
    (hhost : w.Hosts env) (hself : env.predecessorAccountId = w.accountId)
    (hpanic : w.contract.resume env callback result = .error e) :
    Moves sha256 w (.resume i env) { w with receipts := rest, now := env.blockTimestamp }
  | answered {i : ℕ} {outcome : Outcome} {receiverId : AccountId} {method : ExternalMethod}
    {deposit : ℕ} {callback : Callback} {rest : List Receipt}
    (htake : takeAt w.receipts i =
      some (.promise (.functionCall receiverId method deposit callback), rest))
    (hself : receiverId = w.accountId → outcome.result = .failed) :
    Moves sha256 w (.deliver i outcome) { w with
      held := Function.update w.held receiverId outcome.held
      receipts := rest ++ .callback callback outcome.result :: World.credits outcome.sent }
  | transferred {i : ℕ} {outcome : Outcome} {receiverId : AccountId} {amount : ℕ}
    {callback : Option Callback} {rest : List Receipt}
    (htake : takeAt w.receipts i = some (.promise (.transfer receiverId amount callback), rest))
    (hsuccess : outcome.result.isSuccess = true) :
    Moves sha256 w (.deliver i outcome) { w with
      balance := if receiverId = w.accountId then w.balance + amount else w.balance
      receipts := rest ++
        (callback.map fun callback => .callback callback outcome.result).toList }
  | bounced {i : ℕ} {outcome : Outcome} {receiverId : AccountId} {amount : ℕ}
    {callback : Option Callback} {rest : List Receipt}
    (htake : takeAt w.receipts i = some (.promise (.transfer receiverId amount callback), rest))
    (hfailure : outcome.result = .failed) :
    Moves sha256 w (.deliver i outcome) { w with
      receipts := rest ++ .refund callback amount ::
        (callback.map fun callback => .callback callback outcome.result).toList }
  | keyAdded {i : ℕ} {outcome : Outcome} {receiverId : AccountId} {publicKey : PublicKey}
    {rest : List Receipt}
    (htake : takeAt w.receipts i = some (.promise (.addFullAccessKey receiverId publicKey), rest)) :
    Moves sha256 w (.deliver i outcome) { w with receipts := rest }
  | credited {i : ℕ} {outcome : Outcome} {receipt : Receipt} {amount : ℕ} {rest : List Receipt}
    (htake : takeAt w.receipts i = some (receipt, rest))
    (hreceipt : receipt = .credit amount ∨ ∃ callback, receipt = .refund callback amount) :
    Moves sha256 w (.deliver i outcome)
      { w with balance := w.balance + amount, receipts := rest }
  | received {amount : ℕ} :
    Moves sha256 w (.receive amount) { w with balance := w.balance + amount }
  | holds {accountId : AccountId} {held : ℕ} :
    Moves sha256 w (.hold accountId held)
      { w with held := Function.update w.held accountId held }

section Steps

variable {sha256 : List UInt8 → Hash} {w w' : World}

theorem moves_of_issue {env : Env} {contract : LockupContract} {receipts : List Receipt}
    {p : Option Promise} (h : w.issue env contract receipts p = .ok w') :
    World.tokensOf p ≤ w.balance ∧ w' = w.issued env contract receipts p := by
  simp only [World.issue, bind_eq_ok, ensure_eq_ok, pure_eq_ok] at h
  obtain ⟨_, htokens, rfl⟩ := h
  exact ⟨htokens, rfl⟩

theorem moves_of_deliver {i : ℕ} {outcome : Outcome} {receipt : Receipt} {rest : List Receipt}
    (htake : takeAt w.receipts i = some (receipt, rest))
    (h : w.deliver outcome rest receipt = .ok w') : Moves sha256 w (.deliver i outcome) w' := by
  cases receipt with
  | promise p =>
    cases p with
    | functionCall receiverId method deposit callback =>
      simp only [World.deliver, bind_eq_ok, ensure_eq_ok, pure_eq_ok] at h
      obtain ⟨_, hself, rfl⟩ := h
      exact .answered htake fun hreceiver => hself.resolve_left fun hne => hne hreceiver
    | transfer receiverId amount callback =>
      simp only [World.deliver] at h
      split at h
      · next hsuccess =>
        cases pure_eq_ok.mp h
        exact .transferred htake hsuccess
      · next hfailure =>
        cases pure_eq_ok.mp h
        refine .bounced htake ?_
        cases hresult : outcome.result with
        | successful value => simp [hresult, PromiseResult.isSuccess] at hfailure
        | failed => rfl
    | addFullAccessKey receiverId publicKey =>
      cases pure_eq_ok.mp h
      exact .keyAdded htake
  | callback callback result => cases h
  | credit amount =>
    cases pure_eq_ok.mp h
    exact .credited htake (.inl rfl)
  | refund callback amount =>
    cases pure_eq_ok.mp h
    exact .credited htake (.inr ⟨callback, rfl⟩)

/-- Every step is one of the moves. -/
theorem moves_of_step {l : Label} (h : (system sha256).step w l = .ok w') :
    Moves sha256 w l w' := by
  cases l with
  | call env method =>
    simp only [system, bind_eq_ok, ensure_eq_ok] at h
    obtain ⟨_, hhost, _, hother, ⟨contract, p⟩, hcall, hissue⟩ := h
    obtain ⟨htokens, rfl⟩ := moves_of_issue hissue
    exact .called hhost (called_of_call (hhost.1 ▸ hother) hcall) htokens
  | deliver i outcome =>
    simp only [system, bind_eq_ok, expect_eq_ok] at h
    obtain ⟨⟨receipt, rest⟩, htake, hdeliver⟩ := h
    exact moves_of_deliver htake hdeliver
  | resume i env =>
    simp only [system, bind_eq_ok, expect_eq_ok, ensure_eq_ok] at h
    obtain ⟨⟨receipt, rest⟩, htake, _, hhost, _, hself, h⟩ := h
    cases receipt with
    | callback callback result =>
      simp only [World.resume] at h
      split at h
      · next contract p hresume =>
        obtain ⟨htokens, rfl⟩ := moves_of_issue h
        exact .resumed htake hhost (resumed_of_resume hresume) htokens
      · next e hpanic =>
        cases pure_eq_ok.mp h
        exact .panicked htake hhost hself hpanic
    | _ => cases h
  | receive amount =>
    cases pure_eq_ok.mp h
    exact .received
  | hold accountId held =>
    cases pure_eq_ok.mp h
    exact .holds

/-- An accepted call of another account is a step. -/
theorem step_of_call {env : Env} {method : Method} {contract : LockupContract} {p : Option Promise}
    (hhost : w.Hosts env) (hother : env.predecessorAccountId ≠ w.accountId)
    (hcall : w.contract.call env sha256 method = .ok (contract, p))
    (htokens : World.tokensOf p ≤ w.balance) :
    (system sha256).step w (.call env method) = .ok (w.issued env contract w.receipts p) := by
  simp only [system, World.issue, bind_eq_ok, ensure_eq_ok, pure_eq_ok]
  exact ⟨(), hhost, (), hother, (contract, p), hcall, (), htokens, rfl⟩

/-! ## What a step adds -/

/-- A receipt that a step adds to those in flight. -/
inductive Joined (sha256 : List UInt8 → Hash) (w : World) : Label → Receipt → Prop
  | called {env : Env} {method : Method} {contract : LockupContract} {p : Promise}
    (hhost : w.Hosts env) (hcall : Called sha256 env w.contract method contract (some p)) :
    Joined sha256 w (.call env method) (.promise p)
  | resumed {i : ℕ} {env : Env} {callback : Callback} {result : PromiseResult}
    {contract : LockupContract} {p : Promise} {rest : List Receipt}
    (htake : takeAt w.receipts i = some (.callback callback result, rest))
    (hresume : Resumed w.contract callback result contract (some p)) :
    Joined sha256 w (.resume i env) (.promise p)
  | answered {i : ℕ} {outcome : Outcome} {receiverId : AccountId} {method : ExternalMethod}
    {deposit : ℕ} {callback : Callback} {rest : List Receipt}
    (htake : takeAt w.receipts i =
      some (.promise (.functionCall receiverId method deposit callback), rest))
    (hself : receiverId = w.accountId → outcome.result = .failed) :
    Joined sha256 w (.deliver i outcome) (.callback callback outcome.result)
  | transferred {i : ℕ} {outcome : Outcome} {receiverId : AccountId} {amount : ℕ}
    {callback : Callback} {rest : List Receipt}
    (htake : takeAt w.receipts i =
      some (.promise (.transfer receiverId amount (some callback)), rest)) :
    Joined sha256 w (.deliver i outcome) (.callback callback outcome.result)
  | credit {l : Label} {amount : ℕ} : Joined sha256 w l (.credit amount)
  | refund {l : Label} {callback : Option Callback} {amount : ℕ} :
    Joined sha256 w l (.refund callback amount)

theorem mem_credits {sent : ℕ} {r : Receipt} (h : r ∈ World.credits sent) :
    ∃ amount, r = .credit amount := by
  unfold World.credits at h
  split at h
  · cases h
  · exact ⟨sent, List.mem_singleton.mp h⟩

/-- Every receipt in flight after a step was in flight before, or is added by the step. -/
theorem joined_of_moves {l : Label} (h : Moves sha256 w l w') {r : Receipt} (hr : r ∈ w'.receipts) :
    r ∈ w.receipts ∨ Joined sha256 w l r := by
  have hstay : ∀ {i : ℕ} {taken : Receipt} {rest : List Receipt},
      takeAt w.receipts i = some (taken, rest) → ∀ r ∈ rest, r ∈ w.receipts :=
    fun htake r hr => (mem_of_takeAt htake).mpr (.inr hr)
  cases h with
  | @called env method contract p hhost hcall htokens =>
    rcases List.mem_append.mp hr with hr | hr
    · exact .inl hr
    · obtain ⟨p, rfl, rfl⟩ := Option.map_eq_some_iff.mp (Option.mem_toList.mp hr)
      exact .inr (.called hhost hcall)
  | resumed htake hhost hresume htokens =>
    rcases List.mem_append.mp hr with hr | hr
    · exact .inl (hstay htake r hr)
    · obtain ⟨p, rfl, rfl⟩ := Option.map_eq_some_iff.mp (Option.mem_toList.mp hr)
      exact .inr (.resumed htake hresume)
  | panicked htake hhost hself hpanic => exact .inl (hstay htake r hr)
  | answered htake hself =>
    rcases List.mem_append.mp hr with hr | hr
    · exact .inl (hstay htake r hr)
    · rcases List.mem_cons.mp hr with rfl | hr
      · exact .inr (.answered htake hself)
      · obtain ⟨amount, rfl⟩ := mem_credits hr
        exact .inr .credit
  | transferred htake hsuccess =>
    rcases List.mem_append.mp hr with hr | hr
    · exact .inl (hstay htake r hr)
    · obtain ⟨callback, rfl, rfl⟩ := Option.map_eq_some_iff.mp (Option.mem_toList.mp hr)
      exact .inr (.transferred htake)
  | bounced htake hfailure =>
    rcases List.mem_append.mp hr with hr | hr
    · exact .inl (hstay htake r hr)
    · rcases List.mem_cons.mp hr with rfl | hr
      · exact .inr .refund
      · obtain ⟨callback, rfl, rfl⟩ := Option.map_eq_some_iff.mp (Option.mem_toList.mp hr)
        exact .inr (.transferred htake)
  | keyAdded htake => exact .inl (hstay htake r hr)
  | credited htake hreceipt => exact .inl (hstay htake r hr)
  | received => exact .inl hr
  | holds => exact .inl hr

theorem accountId_of_moves {l : Label} (h : Moves sha256 w l w') : w'.accountId = w.accountId := by
  cases h <;> rfl

/-! ## The selected pool -/

/-- A step keeps the selected pool, or the owner leaves an idle one with no known deposit, or a pool
is selected with the approval of the whitelist. -/
theorem pool_of_moves {l : Label} (h : Moves sha256 w l w') :
    w'.contract.getStakingPoolAccountId = w.contract.getStakingPoolAccountId ∨
      (∃ env information, l = .call env .unselectStakingPool ∧
        w.contract.stakingInformation = some information ∧ information.status = .idle ∧
        information.depositAmount = 0 ∧ w'.contract.stakingInformation = none) ∨
      ∃ pool, w.contract.stakingInformation = none ∧
        w'.contract.stakingInformation = some ⟨pool, .idle, 0⟩ ∧
        Receipt.callback (.onWhitelistIsWhitelisted pool) (.successful (.bool true)) ∈
          w.receipts := by
  have hkept : ∀ {t : LockupContract} {before : StakingInformation},
      w.contract.stakingInformation = some before →
      t.getStakingPoolAccountId = some before.stakingPoolAccountId →
      t.getStakingPoolAccountId = w.contract.getStakingPoolAccountId := by
    intro t before hbefore ht
    rw [ht, LockupContract.getStakingPoolAccountId, hbefore]
    rfl
  cases h with
  | called hhost hcall htokens =>
    cases hcall with
    | @unselect information hsome hidle hdeposit hvesting =>
      exact .inr (.inl ⟨_, information, rfl, hsome, hidle, hdeposit, rfl⟩)
    | pool hbefore => exact .inl (hkept hbefore rfl)
    | prepare stage hbefore => exact .inl (hkept hbefore rfl)
    | _ => exact .inl rfl
  | resumed htake hhost hresume htokens =>
    cases hresume with
    | @selected pool hnone hvesting =>
      exact .inr (.inr ⟨pool, hnone, rfl, (mem_of_takeAt htake).mpr (.inl rfl)⟩)
    | settled hbefore => exact .inl (hkept hbefore rfl)
    | refreshed hbefore => exact .inl (hkept hbefore rfl)
    | nothingUnstaked hbefore => exact .inl (hkept hbefore rfl)
    | nothingToMove stage hbefore => exact .inl (hkept hbefore rfl)
    | moved stage hbefore => exact .inl (hkept hbefore rfl)
    | notMoved stage hbefore => exact .inl (hkept hbefore rfl)
    | _ => exact .inl rfl
  | _ => exact .inl rfl

/-- A step that does not keep the selected pool ends with an idle one, or with none. -/
theorem getStakingPoolAccountId_of_moves {l : Label} (h : Moves sha256 w l w') :
    w'.contract.getStakingPoolAccountId = w.contract.getStakingPoolAccountId ∨
      ∀ information, w'.contract.stakingInformation = some information →
        information.status = .idle := by
  rcases pool_of_moves h with hsame | ⟨-, -, -, -, -, -, hnone⟩ | ⟨pool, -, hsome, -⟩
  · exact .inl hsame
  · refine .inr ?_
    intro information hsome
    cases hnone.symm.trans hsome
  · refine .inr ?_
    intro information hsome'
    cases hsome.symm.trans hsome'
    rfl

/-! ## What is awaited -/

/-- Tokens on their way await nothing. -/
theorem pending_credits (sent : ℕ) : (World.credits sent).filterMap Receipt.pending = [] := by
  unfold World.credits
  split <;> rfl

theorem pending_of_takeAt {i : ℕ} {r : Receipt} {rest : List Receipt}
    (h : takeAt w.receipts i = some (r, rest)) :
    w.pending.Perm (r.pending.toList ++ rest.filterMap Receipt.pending) := by
  have hperm := (takeAt_perm h).filterMap Receipt.pending
  cases hr : r.pending with
  | none => rwa [List.filterMap_cons_none hr] at hperm
  | some c => rwa [List.filterMap_cons_some hr] at hperm

/-- A method makes its promise awaited. -/
theorem pending_issued (env : Env) (contract : LockupContract) (receipts : List Receipt)
    (p : Option Promise) : (w.issued env contract receipts p).pending.Perm
      ((p.bind Promise.callback).toList ++ receipts.filterMap Receipt.pending) := by
  have hp : (p.map Receipt.promise).toList.filterMap Receipt.pending =
      (p.bind Promise.callback).toList := by
    cases p with
    | none => rfl
    | some p => cases hc : p.callback <;> simp [Receipt.pending, hc]
  simp only [World.pending, World.issued, List.filterMap_append, hp]
  exact List.perm_append_comm

/-- A delivery leaves the contract and what is awaited. -/
theorem pending_of_deliver {i : ℕ} {outcome : Outcome}
    (h : Moves sha256 w (.deliver i outcome) w') :
    w'.contract = w.contract ∧ w'.accountId = w.accountId ∧ w.pending.Perm w'.pending := by
  have hjoin : ∀ {r : Receipt} {rest new : List Receipt}, takeAt w.receipts i = some (r, rest) →
      new.filterMap Receipt.pending = r.pending.toList →
      w.pending.Perm ((rest ++ new).filterMap Receipt.pending) := by
    intro r rest new htake hnew
    rw [List.filterMap_append, hnew]
    exact (pending_of_takeAt htake).trans List.perm_append_comm
  cases h with
  | answered htake hself =>
    refine ⟨rfl, rfl, hjoin htake ?_⟩
    simp [Receipt.pending, Promise.callback, pending_credits]
  | @transferred _ _ _ _ callback _ htake hsuccess =>
    refine ⟨rfl, rfl, hjoin htake ?_⟩
    cases callback <;> rfl
  | @bounced _ _ _ _ callback _ htake hfailure =>
    refine ⟨rfl, rfl, hjoin htake ?_⟩
    cases callback <;> rfl
  | keyAdded htake => exact ⟨rfl, rfl, pending_of_takeAt htake⟩
  | credited htake hreceipt =>
    refine ⟨rfl, rfl, ?_⟩
    have hperm := pending_of_takeAt htake
    rcases hreceipt with rfl | ⟨callback, rfl⟩ <;> exact hperm

end Steps

end UncContracts.Lockup
