import UncContracts.Lockup.SingleFlight

/-!
# Queries of the lockup

The lockup sends its queries to itself, where they fail: the balances at the pool and the result of
the poll are never known. A callback of a query therefore panics, and the calls that would follow
one are never issued.

## Main definitions

* `Receipt.Unanswered`: a query goes to the lockup itself, and fails

## Main results

* `unanswered_run`: no query of the lockup is ever answered
* `resumed_unanswered`: a callback that does not panic awaited no query
-/

namespace UncContracts.Lockup

open Foundation LockupContract

/-- The callback awaits the move of a balance for a termination. -/
def Callback.isMove : Callback → Bool
  | onStakingPoolUnstakeForTermination _ | onStakingPoolWithdrawForTermination _ => true
  | _ => false

/-- A query goes to the lockup itself and fails, so that no balance is moved for a termination. -/
def Receipt.Unanswered (me : AccountId) (r : Receipt) : Prop :=
  (∀ c, r.pending = some c → c.isMove = false) ∧
    match r with
    | .promise (.functionCall receiverId _ _ c) => c.isQuery = true → receiverId = me
    | .promise (.transfer _ _ (some c)) => c.isQuery = false
    | .callback c result => c.isQuery = true → result = .failed
    | _ => True

section Unanswered

variable {sha256 : List UInt8 → Hash} {env : Env} {s t : LockupContract} {method : Method}
  {p : Option Promise} {callback : Callback} {result : PromiseResult} {me : AccountId}
  {w w' : World} {l : Label}

/-- The queries are called at the current account. -/
theorem unanswered_called {q : Promise} (hcall : Called sha256 env s method t (some q)) :
    (Receipt.promise q).Unanswered env.currentAccountId := by
  cases hcall with
  | pool hsome hidle hvesting hp hbalance =>
    cases method <;> simp only [Method.poolPromise, Option.some.injEq, reduceCtorEq] at hp <;>
      subst hp <;> simp [Receipt.Unanswered, Receipt.pending, Promise.callback, Callback.isMove,
        Callback.isQuery]
  | prepare stage hsome hidle hvesting =>
    cases stage <;> simp [Receipt.Unanswered, Receipt.pending, Promise.callback, Callback.isMove,
      Stage.onQuery]
  | _ =>
    simp [Receipt.Unanswered, Receipt.pending, Promise.callback, Callback.isMove,
      Callback.isQuery]

/-- A callback that does not panic awaited no query, and issues nothing. -/
theorem resumed_unanswered (hresume : Resumed s callback result t p)
    (h : (Receipt.callback callback result).Unanswered me) :
    callback.isQuery = false ∧ p = none := by
  obtain ⟨hmove, hquery⟩ := h
  cases hresume with
  | selected hnone hvesting => exact ⟨rfl, rfl⟩
  | settled hsome hdeposit =>
    refine ⟨?_, rfl⟩
    cases callback <;> simp_all [Callback.settled, Callback.isQuery]
  | paid hmax hvesting => exact ⟨rfl, rfl⟩
  | notPaid hvesting => exact ⟨rfl, rfl⟩
  | moved stage hsome hvesting => cases stage <;> cases hmove _ rfl
  | notMoved stage hsome hvesting => cases stage <;> cases hmove _ rfl
  | moving stage hsome hpos => cases stage <;> cases hquery rfl
  | nothingToMove stage hsome hvesting => cases stage <;> cases hquery rfl
  | _ => cases hquery rfl

/-- A query that joins goes to the lockup itself, and the reply to one is a failure. -/
theorem unanswered_joined {r : Receipt} (h : ∀ r ∈ w.receipts, r.Unanswered w.accountId)
    (hjoin : Joined sha256 w l r) : r.Unanswered w.accountId := by
  cases hjoin with
  | called hhost hcall =>
    rw [← hhost.1]
    exact unanswered_called hcall
  | resumed htake hresume =>
    have hmem := (mem_of_takeAt htake).mpr (.inl rfl)
    cases (resumed_unanswered hresume (h _ hmem)).2
  | answered htake hself =>
    obtain ⟨hmove, hquery⟩ := h _ ((mem_of_takeAt htake).mpr (.inl rfl))
    exact ⟨hmove, fun hc => hself (hquery hc)⟩
  | transferred htake =>
    obtain ⟨hmove, hquery⟩ := h _ ((mem_of_takeAt htake).mpr (.inl rfl))
    refine ⟨hmove, ?_⟩
    intro hc
    cases hquery.symm.trans hc
  | credit => exact ⟨by rintro c ⟨⟩, trivial⟩
  | refund => exact ⟨by rintro c ⟨⟩, trivial⟩

theorem unanswered_step (h : ∀ r ∈ w.receipts, r.Unanswered w.accountId)
    (hstep : (system sha256).step w l = .ok w') :
    ∀ r ∈ w'.receipts, r.Unanswered w'.accountId := by
  have hmoves := moves_of_step hstep
  intro r hr
  rw [accountId_of_moves hmoves]
  rcases joined_of_moves hmoves hr with hr | hjoin
  · exact h r hr
  · exact unanswered_joined h hjoin

/-- No query of the lockup is ever answered. -/
theorem unanswered_run (env : Env) (s : LockupContract) (held : AccountId → ℕ) (ls : List Label) :
    ∀ r ∈ ((system sha256).run (World.initial env s held) ls).receipts,
      r.Unanswered ((system sha256).run (World.initial env s held) ls).accountId :=
  Machine.run_invariant (I := fun w => ∀ r ∈ w.receipts, r.Unanswered w.accountId)
    (G := fun _ _ => True) (fun _ _ _ hw _ hstep => unanswered_step hw hstep)
    (fun _ _ => trivial) (by rintro r ⟨⟩)

end Unanswered

end UncContracts.Lockup
