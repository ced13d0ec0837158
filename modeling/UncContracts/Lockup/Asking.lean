import UncContracts.Lockup.Queries

/-!
# The lockup asks in vain

A refresh and a withdrawal of everything begin with a query for a balance at the staking pool. The
query goes to the lockup itself and fails there, and its callback panics. The pool is left busy,
and nothing that may happen afterwards makes it idle or changes the known deposit.

## Main definitions

* `Asking`: the pool is busy, and only queries are awaited there
* `Askable`: the owner may begin an operation at an idle pool

## Main results

* `asking_run`: an operation that began with a query never ends
* `Askable.step`: the call is accepted, and its query is in flight
* `Askable.completes`: the query and its callback run to their end
-/

namespace UncContracts.Lockup

open Foundation LockupContract

/-- The pool is busy, and only queries are awaited there. -/
structure Asking (pool : AccountId) (deposit : ℕ) (w : World) : Prop where
  flight : SingleFlight w.contract w.pending
  unanswered : ∀ r ∈ w.receipts, r.Unanswered w.accountId
  busy : w.contract.stakingInformation = some ⟨pool, .busy, deposit⟩
  queries : ∀ c ∈ w.pending, c.isPool = true → c.isQuery = true

section Asking

variable {sha256 : List UInt8 → Hash} {env : Env} {s t : LockupContract} {method : Method}
  {p : Option Promise} {w w' : World} {l : Label} {pool : AccountId} {deposit : ℕ}

/-- Only queries are awaited at a pool that was idle when one was issued. -/
theorem isQuery_of_issued {contract : LockupContract} (hflight : SingleFlight w.contract w.pending)
    (hidle : ∀ information, w.contract.stakingInformation = some information →
      information.status = .idle)
    (hquery : ∀ c, p.bind Promise.callback = some c → c.isQuery = true) :
    ∀ c ∈ (w.issued env contract w.receipts p).pending, c.isPool = true → c.isQuery = true := by
  intro c hc hpool
  rcases List.mem_append.mp ((pending_issued _ _ _ _).mem_iff.mp hc) with hc | hc
  · exact hquery c (Option.mem_toList.mp hc)
  · cases ((hflight.expected c hc).isPool_eq_false hidle).symm.trans hpool

/-- While the pool is busy, a call leaves it so and asks nothing of it. -/
theorem busy_called {information : StakingInformation}
    (hsome : s.stakingInformation = some information) (hbusy : information.status = .busy)
    (hcall : Called sha256 env s method t p) :
    t.stakingInformation = s.stakingInformation ∧
      ∀ c, p.bind Promise.callback = some c → c.isPool = false := by
  cases hcall with
  | select hnone => cases hnone.symm.trans hsome
  | unselect hsome' hidle hdeposit hvesting =>
    cases hsome.symm.trans hsome'
    cases hbusy.symm.trans hidle
  | pool hsome' hidle hvesting hp hbalance =>
    cases hsome.symm.trans hsome'
    cases hbusy.symm.trans hidle
  | checkVote =>
    refine ⟨rfl, ?_⟩
    rintro c ⟨⟩
    rfl
  | transfer hidle hlocked hpos howners hbalance =>
    cases hbusy.symm.trans (hidle information hsome)
  | addKey =>
    refine ⟨rfl, ?_⟩
    rintro c ⟨⟩
  | terminate hvesting hamount hpos hstatus =>
    refine ⟨rfl, ?_⟩
    rintro c ⟨⟩
  | prepare stage hsome' hidle hvesting =>
    cases hsome.symm.trans hsome'
    cases hbusy.symm.trans hidle
  | payout hvesting hamount hpos =>
    refine ⟨rfl, ?_⟩
    rintro c ⟨⟩
    rfl

/-- The callback of a payout is the only one that does not panic. -/
theorem Asking.resumed {i : ℕ} {callback : Callback} {result : PromiseResult} {rest : List Receipt}
    (h : Asking pool deposit w)
    (htake : takeAt w.receipts i = some (.callback callback result, rest))
    (hresume : Resumed w.contract callback result t p) :
    callback.isPayout = true ∧ t.stakingInformation = w.contract.stakingInformation ∧
      p = none := by
  have hpending : callback ∈ w.pending :=
    (pending_of_takeAt htake).mem_iff.mpr (List.mem_append_left _ (by simp [Receipt.pending]))
  obtain ⟨hquery, rfl⟩ := resumed_unanswered hresume
    (h.unanswered _ ((mem_of_takeAt htake).mpr (.inl rfl)))
  have hpool : callback.isPool = false := by
    rw [← Bool.not_eq_true]
    intro hpool
    cases hquery.symm.trans (h.queries callback hpending hpool)
  cases hresume with
  | selected hnone hvesting => cases hnone.symm.trans h.busy
  | settled hsome hdeposit => cases (isPool_of_settled hdeposit).1.symm.trans hpool
  | paid hmax hvesting => exact ⟨rfl, rfl, rfl⟩
  | notPaid hvesting => exact ⟨rfl, rfl, rfl⟩
  | moved stage => cases (onMove_isPool stage _).symm.trans hpool
  | notMoved stage => cases (onMove_isPool stage _).symm.trans hpool
  | nothingToMove stage => cases (onQuery_isPool stage).symm.trans hpool
  | _ => cases hquery

/-- Nothing answers the query. -/
theorem asking_step (h : Asking pool deposit w) (hstep : (system sha256).step w l = .ok w') :
    Asking pool deposit w' := by
  have hflight := singleFlight_step h.flight hstep
  have hunanswered := unanswered_step h.unanswered hstep
  have hmoves := moves_of_step hstep
  cases l with
  | call env method =>
    cases hmoves with
    | called hhost hcall htokens =>
      obtain ⟨hsame, hnew⟩ := busy_called h.busy rfl hcall
      refine ⟨hflight, hunanswered, hsame.trans h.busy, ?_⟩
      intro c hc hpool
      rcases List.mem_append.mp ((pending_issued _ _ _ _).mem_iff.mp hc) with hc | hc
      · cases (hnew c (Option.mem_toList.mp hc)).symm.trans hpool
      · exact h.queries c hc hpool
  | deliver i outcome =>
    obtain ⟨hcontract, -, hperm⟩ := pending_of_deliver hmoves
    refine ⟨hflight, hunanswered, ?_, fun c hc => h.queries c (hperm.mem_iff.mpr hc)⟩
    rw [hcontract]
    exact h.busy
  | resume i env =>
    cases hmoves with
    | resumed htake hhost hresume htokens =>
      obtain ⟨-, hsame, rfl⟩ := h.resumed htake hresume
      refine ⟨hflight, hunanswered, hsame.trans h.busy, ?_⟩
      intro c hc
      rcases List.mem_append.mp ((pending_issued _ _ _ _).mem_iff.mp hc) with hc | hc
      · cases hc
      · exact h.queries c ((pending_of_takeAt htake).mem_iff.mpr (List.mem_append_right _ hc))
    | panicked htake hhost hself hpanic =>
      refine ⟨hflight, hunanswered, h.busy, ?_⟩
      intro c hc
      exact h.queries c ((pending_of_takeAt htake).mem_iff.mpr (List.mem_append_right _ hc))
  | receive amount =>
    cases hmoves
    exact ⟨hflight, hunanswered, h.busy, h.queries⟩
  | hold accountId held =>
    cases hmoves
    exact ⟨hflight, hunanswered, h.busy, h.queries⟩

/-- Nothing answers the query, ever. -/
theorem asking_run (h : Asking pool deposit w) (ls : List Label) :
    Asking pool deposit ((system sha256).run w ls) :=
  Machine.run_invariant (I := Asking pool deposit) (G := fun _ _ => True)
    (fun _ _ _ hw _ hstep => asking_step hw hstep) (fun _ _ => trivial) h

end Asking

/-! ## An operation that begins with a query -/

/-- The operations that ask for a balance at the pool. -/
def Method.asks : Method → Bool
  | .refreshStakingPoolBalance | .withdrawAllFromStakingPool => true
  | _ => false

/-- The owner may begin an operation: the pool is idle, and there is no termination. -/
structure Askable (pool : AccountId) (deposit : ℕ) (w : World) (env : Env) : Prop where
  idle : w.contract.stakingInformation = some ⟨pool, .idle, deposit⟩
  vesting : w.contract.getTerminationStatus = none
  hosts : w.Hosts env
  owner : env.predecessorAccountId = w.contract.ownerAccountId
  other : env.predecessorAccountId ≠ w.accountId
  deposit : env.attachedDeposit = 0

section Askable

variable {sha256 : List UInt8 → Hash} {env : Env} {s : LockupContract} {method : Method}
  {callback : Callback} {w w' : World} {pool : AccountId} {deposit : ℕ}

/-- The query of such an operation, with the callback that awaits it. -/
def query (pool : AccountId) : Method → ExternalMethod × Callback
  | .refreshStakingPoolBalance => (.getAccountTotalBalance pool, .onGetAccountTotalBalance)
  | _ => (.getAccountUnstakedBalance pool, .onGetAccountUnstakedBalanceToWithdrawByOwner)

theorem isQuery_query : (query pool method).2.isQuery = true := by cases method <;> rfl

/-- The callback of a query that failed panics. -/
theorem resume_failed (hquery : callback.isQuery = true) :
    ∃ e, s.resume env callback .failed = .error e := by
  cases callback with
  | onGetAccountTotalBalance | onGetAccountUnstakedBalanceToWithdrawByOwner
  | onGetAccountStakedBalanceToUnstake | onGetAccountUnstakedBalanceToWithdraw
  | onGetResultFromTransferPoll => exact ⟨_, rfl⟩
  | _ => cases hquery

/-- The contract and the receipts once the operation has begun. -/
def World.asked (w : World) (env : Env) (pool : AccountId) (deposit : ℕ) (method : Method) : World :=
  w.issued env (w.contract.withPool ⟨pool, .idle, deposit⟩ .busy) w.receipts
    (some (.functionCall w.accountId (query pool method).1 0 (query pool method).2))

/-- The call is accepted, and its query goes to the lockup itself. -/
theorem Askable.step (h : Askable pool deposit w env) (hmethod : method.asks = true) :
    (system sha256).step w (.call env method) = .ok (w.asked env pool deposit method) := by
  obtain ⟨hidle, hvesting, hhosts, howner, hother, hdeposit⟩ := h
  refine step_of_call hhosts hother ?_ (Nat.zero_le _)
  have hcall : ∀ promise : AccountId → Promise, w.contract.callStakingPool env none 0 promise =
      .ok (w.contract.withPool ⟨pool, .idle, deposit⟩ .busy, promise pool) := by
    intro promise
    simp only [callStakingPool, assertOwner, assertNoTermination, bind_eq_ok, ensure_eq_ok,
      expect_eq_ok, assertStakingPoolIsIdle_eq_ok, setStakingPoolStatus_eq_ok, pure_eq_ok]
    exact ⟨(), howner, (), by simp, (), ⟨_, hidle, rfl⟩, (), hvesting, (), Nat.zero_le _, _,
      ⟨_, hidle, rfl⟩, _, rfl, rfl⟩
  cases method with
  | refreshStakingPoolBalance =>
    simp only [call, refreshStakingPoolBalance, hcall, bind_eq_ok, ensure_eq_ok, pure_eq_ok]
    exact ⟨(), hdeposit, _, rfl, by rw [hhosts.1]; rfl⟩
  | withdrawAllFromStakingPool =>
    simp only [call, withdrawAllFromStakingPool, hcall, bind_eq_ok, ensure_eq_ok, pure_eq_ok]
    exact ⟨(), hdeposit, _, rfl, by rw [hhosts.1]; rfl⟩
  | _ => cases hmethod

/-- An operation that began with a query asks in vain. -/
theorem Askable.asking (h : Askable pool deposit w env) (hmethod : method.asks = true)
    (hflight : SingleFlight w.contract w.pending)
    (hunanswered : ∀ r ∈ w.receipts, r.Unanswered w.accountId) :
    Asking pool deposit (w.asked env pool deposit method) := by
  have hstep : (system id).step w (.call env method) = .ok _ := h.step hmethod
  refine ⟨singleFlight_step hflight hstep, unanswered_step hunanswered hstep, rfl,
    isQuery_of_issued hflight ?_ ?_⟩
  · intro information hsome
    cases h.idle.symm.trans hsome
    rfl
  · rintro c ⟨⟩
    exact isQuery_query

/-- The query fails at the lockup, which holds what it held. -/
def World.failure (w : World) : Outcome := ⟨.failed, w.held w.accountId, 0⟩

/-- The lockup calls its callbacks. -/
def selfCall (env : Env) : Env := { env with predecessorAccountId := env.currentAccountId }

theorem takeAt_concat {α : Type} (l : List α) (a : α) : takeAt (l ++ [a]) l.length = some (a, l) := by
  rw [takeAt_eq_some, List.getElem?_concat_length, List.eraseIdx_append_of_length_le le_rfl]
  simp

/-- The query and its callback are executed, and nothing of the operation is left in flight. -/
theorem Askable.completes (h : Askable pool deposit w env) :
    ∃ w₁ w₂, (system sha256).step (w.asked env pool deposit method)
        (.deliver w.receipts.length w.failure) = .ok w₁ ∧
      (system sha256).step w₁ (.resume w.receipts.length (selfCall env)) = .ok w₂ ∧
      w₂.receipts = w.receipts := by
  obtain ⟨e, he⟩ : ∃ e, (w.contract.withPool ⟨pool, .idle, deposit⟩ .busy).resume (selfCall env)
      (query pool method).2 .failed = .error e := resume_failed isQuery_query
  -- The query fails at the lockup, and its callback joins what is in flight.
  have hdeliver : (system sha256).step (w.asked env pool deposit method)
      (.deliver w.receipts.length w.failure) = .ok { w.asked env pool deposit method with
        held := Function.update w.held w.accountId (w.held w.accountId)
        receipts := w.receipts ++ [.callback (query pool method).2 .failed] } := by
    simp only [system, bind_eq_ok, expect_eq_ok]
    refine ⟨_, takeAt_concat .., ?_⟩
    simp only [World.deliver, bind_eq_ok, ensure_eq_ok, pure_eq_ok]
    exact ⟨(), .inr rfl, rfl⟩
  have hresumed : (system sha256).step { w.asked env pool deposit method with
        held := Function.update w.held w.accountId (w.held w.accountId)
        receipts := w.receipts ++ [.callback (query pool method).2 .failed] }
      (.resume w.receipts.length (selfCall env)) = .ok { w.asked env pool deposit method with
        held := Function.update w.held w.accountId (w.held w.accountId)
        receipts := w.receipts } := by
    simp only [system, bind_eq_ok, expect_eq_ok, ensure_eq_ok]
    refine ⟨_, takeAt_concat .., (), ⟨h.hosts.1, h.hosts.2.1, le_rfl⟩, (), h.hosts.1, ?_⟩
    have hresume : ({ w.asked env pool deposit method with
        held := Function.update w.held w.accountId (w.held w.accountId)
        receipts := w.receipts ++ [.callback (query pool method).2 .failed] } : World).contract.resume
          (selfCall env) (query pool method).2 .failed = .error e := he
    simp only [World.resume, hresume]
    rfl
  exact ⟨_, _, hdeliver, hresumed, rfl⟩

end Askable

end UncContracts.Lockup
