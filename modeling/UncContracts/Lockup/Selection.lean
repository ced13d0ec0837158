import UncContracts.Lockup.Progress

/-!
# The selected pool

The lockup selects a pool after the whitelist replied that it is whitelisted, and leaves it only by
the owner's call, with nothing deposited and nothing in flight. While an operation at the pool is in
flight, the pool is selected and busy, so no callback finds the contract in another state than the
one it was sent from.

## Main definitions

* `Approves`: a step in which the whitelist replies that a pool is whitelisted
* `Receipt.Vetted`: a question to the whitelist, or a reply that it gave
* `mismatches`: the panics of a callback that finds the contract in another state

## Main results

* `resume_avoids`: an expected callback does not find the contract in another state
* `vetted_run`: in every run, the selected pool was approved
* `single_flight`: one operation at a time, at the pool that was approved
-/

namespace UncContracts.Lockup

open Foundation LockupContract

/-- The whitelist replies, to a question of the lockup, that the pool is whitelisted. -/
def Approves (whitelist pool : AccountId) (x : Step World Label) : Prop :=
  ∃ i outcome rest, x.label = .deliver i outcome ∧ outcome.result = .successful (.bool true) ∧
    takeAt x.before.receipts i = some (.promise (.functionCall whitelist (.isWhitelisted pool) 0
      (.onWhitelistIsWhitelisted pool)), rest)

/-- A question about a pool is put to the whitelist, and a positive reply is the whitelist's. -/
def Receipt.Vetted (whitelist : AccountId) (hist : List (Step World Label)) : Receipt → Prop
  | .promise p => ∀ pool, p.callback = some (.onWhitelistIsWhitelisted pool) →
      p = .functionCall whitelist (.isWhitelisted pool) 0 (.onWhitelistIsWhitelisted pool)
  | .callback (.onWhitelistIsWhitelisted pool) (.successful (.bool true)) =>
    ∃ x ∈ hist, Approves whitelist pool x
  | _ => True

/-- The questions are put to the whitelist, and the selected pool is one that it approved. -/
structure Vetted (whitelist : AccountId) (hist : List (Step World Label)) (w : World) : Prop where
  asks : w.contract.stakingPoolWhitelistAccountId = whitelist
  receipts : ∀ r ∈ w.receipts, r.Vetted whitelist hist
  approved : ∀ pool, w.contract.getStakingPoolAccountId = some pool →
    ∃ x ∈ hist, Approves whitelist pool x

/-! ## The pool is approved -/

section Approved

variable {sha256 : List UInt8 → Hash} {env : Env} {s t : LockupContract} {method : Method}
  {p : Option Promise} {callback : Callback} {result : PromiseResult} {whitelist : AccountId}
  {hist : List (Step World Label)} {w w' : World} {l : Label} {r : Receipt}

theorem Receipt.Vetted.append (h : r.Vetted whitelist hist) (x : Step World Label) :
    r.Vetted whitelist (hist ++ [x]) := by
  unfold Receipt.Vetted at h ⊢
  split
  · exact h
  · obtain ⟨y, hy, happroves⟩ := h
    exact ⟨y, List.mem_append_left _ hy, happroves⟩
  · trivial

/-- The contract asks its own whitelist. -/
theorem vetted_called {q : Promise} (hcall : Called sha256 env s method t (some q)) :
    (Receipt.promise q).Vetted s.stakingPoolWhitelistAccountId hist := by
  intro pool hpool
  cases hcall with
  | select hnone =>
    cases hpool
    rfl
  | pool hsome hidle hvesting hp hbalance =>
    obtain ⟨c, hc, hispool, -⟩ := poolPromise_callback hp
    cases hc.symm.trans hpool
    cases hispool
  | prepare stage hsome hidle hvesting => cases stage <;> cases hpool
  | _ => cases hpool

/-- A callback asks no whitelist. -/
theorem vetted_resumed {q : Promise} (hresume : Resumed s callback result t (some q)) :
    (Receipt.promise q).Vetted whitelist hist := by
  intro pool hpool
  cases hresume with
  | withdrawing hsome hpos => cases hpool
  | moving stage hsome hpos => cases stage <;> cases hpool

theorem called_whitelist (hcall : Called sha256 env s method t p) :
    t.stakingPoolWhitelistAccountId = s.stakingPoolWhitelistAccountId := by
  cases hcall <;> rfl

theorem resumed_whitelist (hresume : Resumed s callback result t p) :
    t.stakingPoolWhitelistAccountId = s.stakingPoolWhitelistAccountId := by
  cases hresume <;> rfl

/-- A receipt that joins is vetted: a reply is that of the step, to a question that was put to the
whitelist. -/
theorem vetted_joined (h : Vetted whitelist hist w) (hjoin : Joined sha256 w l r) :
    r.Vetted whitelist (hist ++ [⟨w, l, w'⟩]) := by
  have hreply : ∀ {i : ℕ} {outcome : Outcome} {q : Promise} {c : Callback} {rest : List Receipt},
      l = .deliver i outcome → takeAt w.receipts i = some (.promise q, rest) →
      q.callback = some c →
      (Receipt.callback c outcome.result).Vetted whitelist (hist ++ [⟨w, l, w'⟩]) := by
    intro i outcome q c rest hl htake hc
    unfold Receipt.Vetted
    split
    · trivial
    · next pool heq =>
      obtain ⟨rfl, hresult⟩ := Receipt.callback.inj heq
      have hasked := h.receipts _ ((mem_of_takeAt htake).mpr (.inl rfl)) pool hc
      rw [hasked] at htake
      exact ⟨⟨w, l, w'⟩, List.mem_append_right _ (List.mem_singleton.mpr rfl),
        i, outcome, rest, hl, hresult, htake⟩
    · trivial
  cases hjoin with
  | called hhost hcall =>
    rw [← h.asks]
    exact vetted_called hcall
  | resumed htake hresume => exact vetted_resumed hresume
  | answered htake hself => exact hreply rfl htake rfl
  | transferred htake => exact hreply rfl htake rfl
  | credit => trivial
  | refund => trivial

theorem vetted_step (h : Vetted whitelist hist w) (hstep : (system sha256).step w l = .ok w') :
    Vetted whitelist (hist ++ [⟨w, l, w'⟩]) w' := by
  have hmoves := moves_of_step hstep
  refine ⟨?_, ?_, ?_⟩
  · rw [← h.asks]
    cases hmoves with
    | called hhost hcall htokens => exact called_whitelist hcall
    | resumed htake hhost hresume htokens => exact resumed_whitelist hresume
    | _ => rfl
  · intro r hr
    rcases joined_of_moves hmoves hr with hr | hjoin
    · exact (h.receipts r hr).append _
    · exact vetted_joined h hjoin
  · intro pool hpool
    have happroved : ∃ x ∈ hist, Approves whitelist pool x := by
      rcases pool_of_moves hmoves with
        hsame | ⟨-, -, -, -, -, -, hnone⟩ | ⟨pool', -, hsome, hreply⟩
      · exact h.approved pool (hsame ▸ hpool)
      · simp [getStakingPoolAccountId, hnone] at hpool
      · rw [getStakingPoolAccountId, hsome] at hpool
        cases hpool
        exact h.receipts _ hreply
    obtain ⟨x, hx, happroves⟩ := happroved
    exact ⟨x, List.mem_append_left _ hx, happroves⟩

/-- In every run, the selected pool is one that the whitelist approved. -/
theorem vetted_run {vesting : Option VestingScheduleOrHash} (hnew : s.IsNew env vesting)
    (held : AccountId → ℕ) (ls : List Label) :
    Vetted s.stakingPoolWhitelistAccountId ((system sha256).steps (World.initial env s held) ls)
      ((system sha256).run (World.initial env s held) ls) := by
  refine Machine.run_induction (M := system sha256)
    (P := fun hist w => Vetted s.stakingPoolWhitelistAccountId hist w) ?_
    (fun hist w l w' h hstep => vetted_step h hstep) ls
  refine ⟨rfl, ?_, ?_⟩
  · rintro r ⟨⟩
  · intro pool hpool
    simp [World.initial, getStakingPoolAccountId, (new_cases hnew).1] at hpool

end Approved

/-! ## The pool is left by its owner -/

/-- The pool is left by a call of its owner, with no known deposit and no operation in flight. -/
theorem left_of_moves {sha256 : List UInt8 → Hash} {w w' : World} {l : Label}
    {information : StakingInformation} (hflight : SingleFlight w.contract w.pending)
    (h : Moves sha256 w l w') (hsome : w.contract.stakingInformation = some information)
    (hleft : w'.contract.getStakingPoolAccountId ≠ some information.stakingPoolAccountId) :
    (∃ env, l = .call env .unselectStakingPool) ∧ information.depositAmount = 0 ∧
      ∀ c ∈ w.pending, c.isPool = false := by
  rcases pool_of_moves h with
    hsame | ⟨env, before, hl, hbefore, hidle, hdeposit, -⟩ | ⟨-, hnone, -, -⟩
  · refine absurd ?_ hleft
    rw [hsame, getStakingPoolAccountId, hsome]
    rfl
  · cases hsome.symm.trans hbefore
    refine ⟨⟨env, hl⟩, hdeposit, ?_⟩
    intro c hc
    refine (hflight.expected c hc).isPool_eq_false ?_
    intro information' hsome'
    cases hsome.symm.trans hsome'
    exact hidle
  · cases hnone.symm.trans hsome

/-! ## The callbacks find what they expect -/

/-- The panics of a callback that finds the contract in another state. -/
def mismatches : List String :=
  ["Staking pool should be selected", "called `Option::unwrap()` on a `None` value",
    "The vesting information is not at the terminating stage"]

section Callbacks

variable {env : Env} {s : LockupContract} {callback : Callback} {result : PromiseResult}

theorem parse_avoids {α : Type} {ofValue : Value → Option α} :
    Avoids (· ∈ mismatches) (result.parse ofValue) := by
  cases result with
  | successful value => exact .expect fun h => absurd h (by decide)
  | failed => exact .error (by decide)

theorem assertSelf_avoids : Avoids (· ∈ mismatches) (assertSelf env) :=
  .ensure fun h => absurd h (by decide)

theorem setStakingPoolStatus_avoids {status : TransactionStatus}
    (h : s.stakingInformation.isSome = true) :
    Avoids (· ∈ mismatches) (s.setStakingPoolStatus status) :=
  .bind (.expect fun _ => h) fun _ _ => .pure _

theorem setTerminationStatus_avoids {status : TerminationStatus}
    (h : s.getTerminationStatus ≠ none) :
    Avoids (· ∈ mismatches) (s.setTerminationStatus status) := by
  unfold setTerminationStatus
  cases hvesting : s.vestingInformation with
  | terminating information => exact .pure _
  | _ => exact absurd (getTerminationStatus_eq_none.mpr (by simp [hvesting])) h

/-- A callback of the owner's operations needs the pool. -/
theorem onStakingPoolOperation_avoids {update : StakingInformation → Exec StakingInformation}
    (h : env.predecessorAccountId = env.currentAccountId → s.stakingInformation.isSome = true)
    (hupdate : ∀ information, Avoids (· ∈ mismatches) (update information)) :
    Avoids (· ∈ mismatches) (s.onStakingPoolOperation env result update) := by
  refine .bind assertSelf_avoids fun _ hself => ?_
  refine .bind (setStakingPoolStatus_avoids (h (ensure_eq_ok.mp hself))) fun s' hs' => ?_
  obtain ⟨information, -, rfl⟩ := setStakingPoolStatus_eq_ok.mp hs'
  refine .ite ?_ (.pure _)
  refine .bind (.expect fun _ => rfl) fun _ _ => ?_
  exact .bind (hupdate _) fun _ _ => .pure _

theorem deposited_avoids {amount : ℕ} (information : StakingInformation) :
    Avoids (· ∈ mismatches) (deposited amount information) :=
  .bind (.checkedAdd (by decide)) fun _ _ => .pure _

/-- A callback that waited for a balance needs the pool, and the termination. -/
theorem onGetBalanceForTermination_avoids {next : TerminationStatus}
    {promise : AccountId → ℕ → Promise}
    (h : env.predecessorAccountId = env.currentAccountId → s.stakingInformation.isSome = true ∧
      s.getTerminationStatus ≠ none) :
    Avoids (· ∈ mismatches) (s.onGetBalanceForTermination env result next promise) := by
  refine .bind parse_avoids fun balance _ => ?_
  refine .bind assertSelf_avoids fun _ hself => ?_
  obtain ⟨hsome, hstatus⟩ := h (ensure_eq_ok.mp hself)
  refine .ite (.bind (.expect fun _ => hsome) fun _ _ => .pure _) ?_
  refine .bind (setStakingPoolStatus_avoids hsome) fun s' hs' => ?_
  obtain ⟨information, -, rfl⟩ := setStakingPoolStatus_eq_ok.mp hs'
  exact .bind (setTerminationStatus_avoids hstatus) fun _ _ => .pure _

theorem onMovedForTermination_avoids {next before : TerminationStatus}
    {update : StakingInformation → StakingInformation}
    (h : env.predecessorAccountId = env.currentAccountId → s.stakingInformation.isSome = true ∧
      s.getTerminationStatus ≠ none) :
    Avoids (· ∈ mismatches) (s.onMovedForTermination env result next before update) := by
  refine .bind assertSelf_avoids fun _ hself => ?_
  obtain ⟨hsome, hstatus⟩ := h (ensure_eq_ok.mp hself)
  refine .bind (setStakingPoolStatus_avoids hsome) fun s' hs' => ?_
  obtain ⟨information, -, rfl⟩ := setStakingPoolStatus_eq_ok.mp hs'
  refine .ite ?_ (.bind (setTerminationStatus_avoids hstatus) fun _ _ => .pure _)
  refine .bind (setTerminationStatus_avoids hstatus) fun s'' hs'' => ?_
  obtain ⟨termination, -, rfl⟩ := setTerminationStatus_eq_ok.mp hs''
  exact .bind (.expect fun _ => rfl) fun _ _ => .pure _

/-- A callback that is expected, or is not called by the lockup itself, does not find the contract
in another state. -/
theorem resume_avoids
    (h : env.predecessorAccountId = env.currentAccountId → Expected s callback) :
    Avoids (· ∈ mismatches) (s.resume env callback result) := by
  have hpool : callback.isPool = true → env.predecessorAccountId = env.currentAccountId →
      s.stakingInformation.isSome = true := by
    intro hpool hself
    obtain ⟨information, hsome, -⟩ := (h hself).busy hpool
    simp [hsome]
  have hstage : ∀ stage, callback.stage = some stage →
      env.predecessorAccountId = env.currentAccountId →
      s.stakingInformation.isSome = true ∧ s.getTerminationStatus ≠ none := by
    intro stage hstage hself
    refine ⟨hpool (isPool_of_stage hstage) hself, ?_⟩
    simp [(h hself).during stage hstage]
  cases callback with
  | onWhitelistIsWhitelisted pool =>
    refine .bind ?_ fun _ _ => .pure _
    refine .bind parse_avoids fun _ _ => ?_
    refine .bind assertSelf_avoids fun _ _ => ?_
    refine .bind (.ensure fun h => absurd h (by decide)) fun _ _ => ?_
    refine .bind (.ensure fun h => absurd h (by decide)) fun _ _ => ?_
    exact .bind (.ensure fun h => absurd h (by decide)) fun _ _ => .pure _
  | onGetResultFromTransferPoll =>
    refine .bind ?_ fun _ _ => .pure _
    refine .bind parse_avoids fun pollResult _ => ?_
    refine .bind assertSelf_avoids fun _ _ => ?_
    refine .bind (.ensure fun h => absurd h (by decide)) fun _ _ => ?_
    cases pollResult <;> exact .pure _
  | onGetAccountTotalBalance =>
    refine .bind ?_ fun _ _ => .pure _
    refine .bind parse_avoids fun _ _ => ?_
    refine .bind assertSelf_avoids fun _ hself => ?_
    have hsome := hpool rfl (ensure_eq_ok.mp hself)
    refine .bind (setStakingPoolStatus_avoids hsome) fun s' hs' => ?_
    obtain ⟨information, -, rfl⟩ := setStakingPoolStatus_eq_ok.mp hs'
    exact .bind (.expect fun _ => rfl) fun _ _ => .pure _
  | onGetAccountUnstakedBalanceToWithdrawByOwner =>
    refine .bind ?_ fun _ _ => .pure _
    refine .bind parse_avoids fun _ _ => ?_
    refine .bind assertSelf_avoids fun _ hself => ?_
    have hsome := hpool rfl (ensure_eq_ok.mp hself)
    refine .ite (.bind (.expect fun _ => hsome) fun _ _ => .pure _) ?_
    exact .bind (setStakingPoolStatus_avoids hsome) fun _ _ => .pure _
  | onWithdrawUnvestedAmount amount receiver =>
    refine .bind ?_ fun _ _ => .pure _
    refine .bind assertSelf_avoids fun _ hself => ?_
    obtain ⟨u, hvesting, -⟩ := (h (ensure_eq_ok.mp hself)).paying amount receiver rfl
    refine .ite ?_ (.bind (setTerminationStatus_avoids ?_) fun _ _ => .pure _)
    · exact .bind (.checkedAdd (by decide)) fun _ _ => .ite (.pure _) (.pure _)
    · simp [getTerminationStatus_eq_some.mpr ⟨u, hvesting⟩]
  | onGetAccountStakedBalanceToUnstake =>
    exact .bind (onGetBalanceForTermination_avoids (hstage .unstaking rfl)) fun _ _ => .pure _
  | onGetAccountUnstakedBalanceToWithdraw =>
    exact .bind (onGetBalanceForTermination_avoids (hstage .withdrawing rfl)) fun _ _ => .pure _
  | onStakingPoolUnstakeForTermination amount =>
    exact .bind (onMovedForTermination_avoids (hstage .unstaking rfl)) fun _ _ => .pure _
  | onStakingPoolWithdrawForTermination amount =>
    exact .bind (onMovedForTermination_avoids (hstage .withdrawing rfl)) fun _ _ => .pure _
  | onStakingPoolDeposit amount =>
    exact .bind (onStakingPoolOperation_avoids (hpool rfl) deposited_avoids) fun _ _ => .pure _
  | onStakingPoolDepositAndStake amount =>
    exact .bind (onStakingPoolOperation_avoids (hpool rfl) deposited_avoids) fun _ _ => .pure _
  | _ =>
    exact .bind (onStakingPoolOperation_avoids (hpool rfl) fun _ => .pure _) fun _ _ => .pure _

end Callbacks

/-! ## One operation at a time -/

/-- At most one operation at the pool is in flight, while it is the pool is selected and busy, the
stages of a termination at the pool have one, and no callback finds the contract in another state:
neither one in flight nor one that another account calls. -/
structure OneOperation (w : World) : Prop where
  single : w.pending.countP Callback.isPool ≤ 1
  busy : ∀ c ∈ w.pending, c.isPool = true →
    ∃ information, w.contract.stakingInformation = some information ∧ information.status = .busy
  selected : ∀ status, w.contract.getTerminationStatus = some status →
    status ∈ [TerminationStatus.vestingTerminatedWithDeficit, .unstakingInProgress,
      .everythingUnstaked, .withdrawingFromStakingPoolInProgress] →
    w.contract.stakingInformation.isSome
  panics : ∀ env callback result, w.Hosts env → Receipt.callback callback result ∈ w.receipts ∨
    env.predecessorAccountId ≠ w.accountId →
    ∀ e ∈ mismatches, w.contract.resume env callback result ≠ .error e

theorem SingleFlight.oneOperation {w : World} (h : SingleFlight w.contract w.pending) :
    OneOperation w := by
  refine ⟨h.pool_le, fun c hc => (h.expected c hc).busy, ?_, ?_⟩
  · intro status hstatus hmem
    have hselected : ∀ stage : Stage, status = stage.before ∨ status = stage.during →
        w.contract.stakingInformation.isSome := by
      rintro stage (rfl | rfl)
      · exact h.selected stage (.inl hstatus)
      · exact h.selected stage (.inr hstatus)
    simp only [List.mem_cons, List.not_mem_nil, or_false] at hmem
    rcases hmem with rfl | rfl | rfl | rfl
    · exact hselected .unstaking (.inl rfl)
    · exact hselected .unstaking (.inr rfl)
    · exact hselected .withdrawing (.inl rfl)
    · exact hselected .withdrawing (.inr rfl)
  · intro env callback result hhost hcase e he hpanic
    refine resume_avoids ?_ e hpanic he
    intro hself
    rcases hcase with hmem | hother
    · exact h.expected callback (List.mem_filterMap.mpr ⟨_, hmem, rfl⟩)
    · exact absurd (hself.trans hhost.1) hother

/-- **Single flight.** In every run of a new lockup, at most one operation at the pool is in flight,
at the pool that its whitelist approved; and a pool is left by the owner's call only, with no known
deposit and nothing in flight. -/
theorem single_flight (sha256 : List UInt8 → Hash) (env : Env)
    (vesting : Option VestingScheduleOrHash) (s : LockupContract) (hnew : s.IsNew env vesting)
    (held : AccountId → ℕ) (ls : List Label) :
    OneOperation ((system sha256).run (World.initial env s held) ls) ∧
      (∀ pool,
        ((system sha256).run (World.initial env s held) ls).contract.getStakingPoolAccountId =
          some pool →
        ∃ x ∈ (system sha256).steps (World.initial env s held) ls,
          Approves s.stakingPoolWhitelistAccountId pool x) ∧
      ∀ x ∈ (system sha256).steps (World.initial env s held) ls,
        ∀ information, x.before.contract.stakingInformation = some information →
          x.after.contract.getStakingPoolAccountId ≠ some information.stakingPoolAccountId →
          (∃ env, x.label = .call env .unselectStakingPool) ∧ information.depositAmount = 0 ∧
            ∀ c ∈ x.before.pending, c.isPool = false := by
  refine ⟨(singleFlight_run hnew held ls).oneOperation, (vetted_run hnew held ls).approved, ?_⟩
  intro x hx information hsome hleft
  obtain ⟨pre, post, -, hbefore, hstep⟩ := Machine.mem_steps_iff.mp hx
  refine left_of_moves ?_ (moves_of_step hstep) hsome hleft
  rw [hbefore]
  exact singleFlight_run hnew held pre

theorem single_flight_sampleSelect :
    OneOperation ((system id).run (World.initial
        (sampleEnv "creator" (MIN_BALANCE_FOR_STORAGE + 4000000) 0) sampleLockup fun _ => 0)
        (sampleSelect ++ sampleDeposit)) ∧
      ∃ x ∈ (system id).steps (World.initial
          (sampleEnv "creator" (MIN_BALANCE_FOR_STORAGE + 4000000) 0) sampleLockup fun _ => 0)
          (sampleSelect ++ sampleDeposit), Approves "whitelist" "pool" x := by
  obtain ⟨hone, happroved, -⟩ := single_flight id _ none sampleLockup isNew_sampleLockup
    (fun _ => 0) (sampleSelect ++ sampleDeposit)
  exact ⟨hone, happroved "pool" (by decide)⟩

end UncContracts.Lockup
