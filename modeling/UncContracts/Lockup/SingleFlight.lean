import UncContracts.Lockup.System

/-!
# One operation in flight

At most one operation of the lockup at its staking pool is in flight, and at most one payout of
unvested tokens. The callback that is awaited finds the contract as the operation left it: the pool
busy, and the termination at the stage that the operation belongs to.

## Main definitions

* `Expected`: the contract is as a callback expects it
* `SingleFlight`: at most one operation is awaited, and what is awaited is expected

## Main results

* `singleFlight_step`, `singleFlight_run`: the invariant holds after every run
-/

namespace UncContracts.Lockup

open Foundation LockupContract

/-- The callback awaits a payout of unvested tokens. -/
def Callback.isPayout : Callback → Bool
  | onWithdrawUnvestedAmount _ _ => true
  | _ => false

/-- The contract is as a callback expects it. -/
structure Expected (s : LockupContract) (callback : Callback) : Prop where
  busy : callback.isPool = true →
    ∃ information, s.stakingInformation = some information ∧ information.status = .busy
  during : ∀ stage, callback.stage = some stage → s.getTerminationStatus = some stage.during
  paying : ∀ amount receiver, callback = .onWithdrawUnvestedAmount amount receiver →
    ∃ unvested, s.vestingInformation = .terminating ⟨unvested, .withdrawingFromAccountInProgress⟩ ∧
      amount ≤ unvested

/-- At most one operation at the pool and one payout are awaited, and both are expected. -/
structure SingleFlight (s : LockupContract) (pending : List Callback) : Prop where
  pool_le : pending.countP Callback.isPool ≤ 1
  payout_le : pending.countP Callback.isPayout ≤ 1
  expected : ∀ c ∈ pending, Expected s c
  /-- A termination that is to use the pool has one. -/
  selected : ∀ stage : Stage, s.getTerminationStatus = some stage.before ∨
    s.getTerminationStatus = some stage.during → s.stakingInformation.isSome

/-! ## What is expected -/

section Expected

variable {s t : LockupContract} {callback : Callback}

/-- A callback that belongs to a stage belongs to an operation at the pool. -/
theorem isPool_of_stage {stage : Stage} (h : callback.stage = some stage) :
    callback.isPool = true := by
  cases callback <;> simp_all [Callback.stage, Callback.isPool]

theorem isPayout_of_isPool (h : callback.isPool = true) : callback.isPayout = false := by
  cases callback <;> simp_all [Callback.isPool, Callback.isPayout]

theorem isPool_of_settled {success : Bool} {deposit deposit' : ℕ}
    (h : callback.settled success deposit = some deposit') :
    callback.isPool = true ∧ callback.stage = none := by
  cases callback <;> simp_all [Callback.settled, Callback.isPool, Callback.stage]

theorem onQuery_isPool (stage : Stage) : stage.onQuery.isPool = true := by cases stage <;> rfl

theorem onQuery_stage (stage : Stage) : stage.onQuery.stage = some stage := by cases stage <;> rfl

theorem onMove_isPool (stage : Stage) (amount : ℕ) : (stage.onMove amount).isPool = true := by
  cases stage <;> rfl

theorem onMove_stage (stage : Stage) (amount : ℕ) : (stage.onMove amount).stage = some stage := by
  cases stage <;> rfl

/-- Neither the pool nor the vesting changes. -/
theorem Expected.of_same (h : Expected s callback)
    (hpool : t.stakingInformation = s.stakingInformation)
    (hvesting : t.vestingInformation = s.vestingInformation) : Expected t callback := by
  refine ⟨?_, ?_, ?_⟩
  · rw [hpool]
    exact h.busy
  · unfold getTerminationStatus
    rw [hvesting]
    exact h.during
  · rw [hvesting]
    exact h.paying

/-- Callbacks that are not of the pool do not read it. -/
theorem Expected.of_not_pool (h : Expected s callback) (hc : callback.isPool = false)
    (hvesting : callback.isPayout = true → t.vestingInformation = s.vestingInformation) :
    Expected t callback := by
  refine ⟨?_, ?_, ?_⟩
  · intro hpool
    cases hc.symm.trans hpool
  · intro stage hstage
    cases hc.symm.trans (isPool_of_stage hstage)
  · rintro amount receiver rfl
    rw [hvesting rfl]
    exact h.paying amount receiver rfl

/-- The vesting changes outside the stages and the payouts. -/
theorem Expected.of_vesting (h : Expected s callback)
    (hpool : t.stakingInformation = s.stakingInformation) (hstage : callback.stage = none)
    (hpayout : callback.isPayout = false) : Expected t callback := by
  refine ⟨?_, ?_, ?_⟩
  · rw [hpool]
    exact h.busy
  · intro stage hsome
    cases hstage.symm.trans hsome
  · rintro amount receiver rfl
    cases hpayout

/-- No operation at the pool is awaited while the pool is idle or none is selected. -/
theorem Expected.isPool_eq_false (h : Expected s callback)
    (hidle : ∀ information, s.stakingInformation = some information →
      information.status = .idle) : callback.isPool = false := by
  rw [← Bool.not_eq_true]
  intro hpool
  obtain ⟨information, hsome, hbusy⟩ := h.busy hpool
  cases hbusy.symm.trans (hidle information hsome)

/-- No operation of a stage is awaited outside the stages. -/
theorem Expected.stage_eq_none (h : Expected s callback)
    (hstatus : ∀ stage : Stage, s.getTerminationStatus ≠ some stage.during) :
    callback.stage = none := by
  rw [Option.eq_none_iff_forall_ne_some]
  intro stage hstage
  exact hstatus stage (h.during stage hstage)

/-- No payout is awaited unless one is in progress. -/
theorem Expected.isPayout_eq_false (h : Expected s callback)
    (hstatus : s.getTerminationStatus ≠ some .withdrawingFromAccountInProgress) :
    callback.isPayout = false := by
  rw [← Bool.not_eq_true]
  intro hpayout
  cases callback with
  | onWithdrawUnvestedAmount amount receiver =>
    obtain ⟨unvested, hvesting, -⟩ := h.paying amount receiver rfl
    exact hstatus (getTerminationStatus_eq_some.mpr ⟨unvested, hvesting⟩)
  | _ => cases hpayout

/-- An operation that belongs to no stage and is no payout is expected by a busy pool. -/
theorem expected_busy {information : StakingInformation}
    (hsome : s.stakingInformation = some information) (hbusy : information.status = .busy)
    (hstage : callback.stage = none) (hpayout : callback.isPayout = false) :
    Expected s callback := by
  refine ⟨fun _ => ⟨information, hsome, hbusy⟩, ?_, ?_⟩
  · intro stage hsome
    cases hstage.symm.trans hsome
  · rintro amount receiver rfl
    cases hpayout

/-- A callback that is neither of the pool nor of a payout expects nothing. -/
theorem expected_free (hpool : callback.isPool = false) (hpayout : callback.isPayout = false) :
    Expected s callback := by
  refine ⟨?_, ?_, ?_⟩
  · intro hpool'
    cases hpool.symm.trans hpool'
  · intro stage hstage
    cases hpool.symm.trans (isPool_of_stage hstage)
  · rintro amount receiver rfl
    cases hpayout

end Expected

/-! ## Callbacks come and go -/

section Pending

variable {s t : LockupContract} {callback c : Callback} {pending pending' : List Callback}

theorem SingleFlight.perm (h : SingleFlight s pending) (hperm : pending.Perm pending') :
    SingleFlight s pending' := by
  refine ⟨?_, ?_, ?_, h.selected⟩
  · rw [← hperm.countP_eq]
    exact h.pool_le
  · rw [← hperm.countP_eq]
    exact h.payout_le
  · intro c hc
    exact h.expected c (hperm.mem_iff.mpr hc)

theorem SingleFlight.tail (h : SingleFlight s (callback :: pending)) : SingleFlight s pending := by
  refine ⟨?_, ?_, ?_, h.selected⟩
  · exact Nat.le_trans (List.sublist_cons_self callback pending).countP_le h.pool_le
  · exact Nat.le_trans (List.sublist_cons_self callback pending).countP_le h.payout_le
  · intro c hc
    exact h.expected c (List.mem_cons_of_mem callback hc)

/-- A callback joins that is the only one of its kind. -/
theorem SingleFlight.cons (h : SingleFlight s pending) (hexpected : Expected s callback)
    (hpool : callback.isPool = true → ∀ c ∈ pending, c.isPool = false)
    (hpayout : callback.isPayout = true → ∀ c ∈ pending, c.isPayout = false) :
    SingleFlight s (callback :: pending) := by
  have hcount : ∀ kind : Callback → Bool, pending.countP kind ≤ 1 →
      (kind callback = true → ∀ c ∈ pending, kind c = false) →
        (callback :: pending).countP kind ≤ 1 := by
    intro kind hle hnone
    by_cases hkind : kind callback = true
    · have hzero : pending.countP kind = 0 := List.countP_eq_zero.mpr fun c hc => by
        simp [hnone hkind c hc]
      rw [List.countP_cons_of_pos hkind]
      omega
    · rw [List.countP_cons_of_neg hkind]
      exact hle
  refine ⟨hcount _ h.pool_le hpool, hcount _ h.payout_le hpayout, ?_, h.selected⟩
  intro c hc
  rcases List.mem_cons.mp hc with rfl | hc
  · exact hexpected
  · exact h.expected c hc

/-- What is left beside one of a kind is not of the kind. -/
theorem kind_eq_false {kind : Callback → Bool} (h : (callback :: pending).countP kind ≤ 1)
    (hkind : kind callback = true) (hc : c ∈ pending) : kind c = false := by
  rw [List.countP_cons_of_pos hkind] at h
  have hzero : pending.countP kind = 0 := by omega
  rw [← Bool.not_eq_true]
  exact List.countP_eq_zero.mp hzero c hc

/-- The contract changes to one that is as the awaited callbacks expect it. -/
theorem SingleFlight.of_expected (h : SingleFlight s pending)
    (hexpected : ∀ c ∈ pending, Expected s c → Expected t c)
    (hselected : ∀ stage : Stage, t.getTerminationStatus = some stage.before ∨
      t.getTerminationStatus = some stage.during → t.stakingInformation.isSome) :
    SingleFlight t pending :=
  ⟨h.pool_le, h.payout_le, fun c hc => hexpected c hc (h.expected c hc), hselected⟩

/-- No operation is awaited from a pool that is idle. -/
theorem SingleFlight.isPool_eq_false {information : StakingInformation} (h : SingleFlight s pending)
    (hsome : s.stakingInformation = some information) (hidle : information.status = .idle) :
    ∀ c ∈ pending, c.isPool = false := by
  intro c hc
  refine (h.expected c hc).isPool_eq_false ?_
  intro information' hsome'
  cases hsome.symm.trans hsome'
  exact hidle

/-- An operation at the pool ends: the pool is idle again, and where a stage ends with it, the
termination moves on. -/
theorem SingleFlight.settle {information : StakingInformation}
    (h : SingleFlight s (callback :: pending)) (hpool : callback.isPool = true)
    (ht : t.stakingInformation = some information)
    (hvesting : t.vestingInformation = s.vestingInformation ∨ callback.stage ≠ none) :
    SingleFlight t pending := by
  refine h.tail.of_expected ?_ ?_
  · intro c hc hexpected
    refine hexpected.of_not_pool (kind_eq_false h.pool_le hpool hc) ?_
    intro hpayout
    refine hvesting.resolve_right ?_
    intro hsome
    obtain ⟨stage, hstage⟩ := Option.ne_none_iff_exists'.mp hsome
    have hduring := (h.expected callback List.mem_cons_self).during stage hstage
    have hnone := hexpected.isPayout_eq_false (by
      rw [hduring]
      cases stage <;> simp [Stage.during])
    cases hnone.symm.trans hpayout
  · intro _ _
    rw [ht]
    rfl

/-- A payout ends, and with it the stage in which it was. -/
theorem SingleFlight.paid (h : SingleFlight s (callback :: pending))
    (hpayout : callback.isPayout = true) (hpool : t.stakingInformation = s.stakingInformation)
    (hstatus : t.getTerminationStatus ∈ [none, some .readyToWithdraw]) :
    SingleFlight t pending := by
  refine h.tail.of_expected ?_ ?_
  · intro c hc hexpected
    refine hexpected.of_vesting hpool (hexpected.stage_eq_none ?_)
      (kind_eq_false h.payout_le hpayout hc)
    cases callback with
    | onWithdrawUnvestedAmount amount receiver =>
      obtain ⟨u, hvesting, -⟩ := (h.expected _ List.mem_cons_self).paying amount receiver rfl
      rw [getTerminationStatus_eq_some.mpr ⟨u, hvesting⟩]
      intro stage
      cases stage <;> simp [Stage.during]
    | _ => cases hpayout
  · intro stage hstage
    cases stage <;> rcases hstage with hstage | hstage <;>
      simp [hstage, Stage.before, Stage.during] at hstatus

end Pending

/-! ## Every step keeps one operation in flight -/

section Steps

variable {sha256 : List UInt8 → Hash} {env : Env} {s t : LockupContract} {method : Method}
  {p : Option Promise} {pending : List Callback} {callback : Callback} {result : PromiseResult}

/-- The callbacks of the owner's operations. -/
theorem poolPromise_callback {me pool : AccountId} {q : Promise}
    (h : method.poolPromise me pool = some q) :
    ∃ c, q.callback = some c ∧ c.isPool = true ∧ c.stage = none := by
  cases method <;> simp only [Method.poolPromise, Option.some.injEq, reduceCtorEq] at h
  all_goals
    subst h
    exact ⟨_, rfl, rfl, rfl⟩

theorem singleFlight_called (h : SingleFlight s pending)
    (hcall : Called sha256 env s method t p) :
    SingleFlight t ((p.bind Promise.callback).toList ++ pending) := by
  cases hcall with
  | select hnone => exact h.cons (expected_free rfl rfl) (by rintro ⟨⟩) (by rintro ⟨⟩)
  | checkVote => exact h.cons (expected_free rfl rfl) (by rintro ⟨⟩) (by rintro ⟨⟩)
  | transfer hidle hlocked hpos howners hbalance => exact h
  | addKey => exact h
  | unselect hsome hidle hdeposit hvesting =>
    refine h.of_expected ?_ ?_
    · intro c hc hexpected
      exact hexpected.of_not_pool (h.isPool_eq_false hsome hidle c hc) fun _ => rfl
    · intro stage hstage
      rcases hstage with hstage | hstage <;> cases hvesting.symm.trans hstage
  | pool hsome hidle hvesting hp hbalance =>
    have hnone := h.isPool_eq_false hsome hidle
    obtain ⟨c, hc, hpool, hstage⟩ := poolPromise_callback hp
    have hpayout := isPayout_of_isPool hpool
    rw [Option.bind_some, hc]
    refine (h.of_expected ?_ ?_).cons (expected_busy rfl rfl hstage hpayout) (fun _ => hnone) ?_
    · intro c' hc' hexpected
      exact hexpected.of_not_pool (hnone c' hc') fun _ => rfl
    · intro _ _
      rfl
    · simp [hpayout]
  | terminate hvesting hamount hpos hstatus =>
    -- The vesting was not terminated, so neither a stage nor a payout is awaited.
    have hnone : s.getTerminationStatus = none := by
      rw [getTerminationStatus_eq_none]
      intro information heq
      simp [assertVesting, heq] at hvesting
    refine h.of_expected ?_ ?_
    · intro c hc hexpected
      refine hexpected.of_vesting rfl (hexpected.stage_eq_none ?_)
        (hexpected.isPayout_eq_false ?_) <;> simp [hnone]
    · intro stage hstage
      rcases hstatus with rfl | ⟨-, hsome⟩
      · cases stage <;> simp [withTermination, getTerminationStatus, Stage.before,
          Stage.during] at hstage
      · exact hsome
  | prepare stage hsome hidle hvesting =>
    have hstatus := getTerminationStatus_eq_some.mpr ⟨_, hvesting⟩
    have hnone := h.isPool_eq_false hsome hidle
    refine (h.of_expected ?_ ?_).cons ?_ (fun _ => hnone) ?_
    · intro c hc hexpected
      have hpayout : c.isPayout = false := hexpected.isPayout_eq_false (by
        rw [hstatus]
        cases stage <;> simp [Stage.before])
      refine hexpected.of_not_pool (hnone c hc) ?_
      simp [hpayout]
    · intro _ _
      rfl
    · refine ⟨fun _ => ⟨_, rfl, rfl⟩, ?_, ?_⟩
      · intro stage' hstage'
        cases stage <;> cases hstage' <;> rfl
      · intro amount receiver heq
        cases stage <;> cases heq
    · cases stage <;> rintro ⟨⟩
  | payout hvesting hamount hpos =>
    have hstatus := getTerminationStatus_eq_some.mpr ⟨_, hvesting⟩
    have hnone : ∀ c ∈ pending, c.isPayout = false := by
      intro c hc
      exact (h.expected c hc).isPayout_eq_false (by simp [hstatus])
    refine (h.of_expected ?_ ?_).cons ?_ (by rintro ⟨⟩) (fun _ => hnone)
    · intro c hc hexpected
      refine hexpected.of_vesting rfl (hexpected.stage_eq_none ?_) (hnone c hc)
      intro stage
      rw [hstatus]
      cases stage <;> simp [Stage.during]
    · intro stage hstage
      cases stage <;> simp [withTermination, getTerminationStatus, Stage.before,
        Stage.during] at hstage
    · refine ⟨?_, ?_, ?_⟩
      · rintro ⟨⟩
      · rintro stage ⟨⟩
      · rintro amount' receiver' ⟨⟩
        exact ⟨_, rfl, hamount ▸ Nat.min_le_left _ _⟩

theorem singleFlight_resumed (h : SingleFlight s (callback :: pending))
    (hresume : Resumed s callback result t p) :
    SingleFlight t ((p.bind Promise.callback).toList ++ pending) := by
  have hexpected := h.expected callback List.mem_cons_self
  cases hresume with
  | selected hnone hvesting =>
    refine h.tail.of_expected ?_ ?_
    · intro c hc hc'
      refine hc'.of_not_pool (hc'.isPool_eq_false ?_) fun _ => rfl
      -- While no pool was selected, no callback of a pool could be waited for.
      intro information hsome
      cases hnone.symm.trans hsome
    · intro _ _
      rfl
  | settled hsome hdeposit => exact h.settle (isPool_of_settled hdeposit).1 rfl (.inl rfl)
  | voted hdisabled => exact h.tail.of_expected (fun _ _ hc => hc.of_same rfl rfl) h.selected
  | notVoted => exact h.tail
  | refreshed hsome => exact h.settle rfl rfl (.inl rfl)
  | withdrawing hsome hpos =>
    obtain ⟨information, hsome, hbusy⟩ := hexpected.busy rfl
    exact h.tail.cons (expected_busy hsome hbusy rfl rfl)
      (fun _ c hc => kind_eq_false h.pool_le rfl hc) (by rintro ⟨⟩)
  | nothingUnstaked hsome => exact h.settle rfl rfl (.inl rfl)
  | moving stage hsome hpos =>
    have hpool := onQuery_isPool stage
    refine h.tail.cons ?_ (fun _ c hc => kind_eq_false h.pool_le hpool hc) ?_
    · refine ⟨fun _ => hexpected.busy hpool, ?_, ?_⟩
      · intro stage' hstage'
        cases (onMove_stage stage _).symm.trans hstage'
        exact hexpected.during stage (onQuery_stage stage)
      · intro amount receiver heq
        cases stage <;> cases heq
    · cases stage <;> rintro ⟨⟩
  | nothingToMove stage hsome hvesting =>
    exact h.settle (onQuery_isPool stage) rfl (.inr (by simp [onQuery_stage]))
  | moved stage hsome hvesting =>
    exact h.settle (onMove_isPool stage _) rfl (.inr (by simp [onMove_stage]))
  | notMoved stage hsome hvesting =>
    exact h.settle (onMove_isPool stage _) rfl (.inr (by simp [onMove_stage]))
  | paid hmax hvesting =>
    refine h.paid rfl rfl ?_
    rcases hvesting with ⟨-, rfl⟩ | ⟨-, rfl⟩ <;> simp [getTerminationStatus]
  | notPaid hvesting => exact h.paid rfl rfl (by simp [withTermination, getTerminationStatus])

/-- Every step keeps at most one operation in flight. -/
theorem singleFlight_step {w w' : World} {l : Label} (h : SingleFlight w.contract w.pending)
    (hstep : (system sha256).step w l = .ok w') : SingleFlight w'.contract w'.pending := by
  have hmoves := moves_of_step hstep
  cases l with
  | call env method =>
    cases hmoves with
    | called hhost hcall htokens =>
      exact (singleFlight_called h hcall).perm (pending_issued _ _ _ _).symm
  | deliver i outcome =>
    obtain ⟨hcontract, -, hperm⟩ := pending_of_deliver hmoves
    rw [hcontract]
    exact h.perm hperm
  | resume i env =>
    cases hmoves with
    | resumed htake hhost hresume htokens =>
      exact (singleFlight_resumed (h.perm (pending_of_takeAt htake)) hresume).perm
        (pending_issued _ _ _ _).symm
    | panicked htake hhost hself hpanic => exact (h.perm (pending_of_takeAt htake)).tail
  | receive amount =>
    cases hmoves
    exact h
  | hold accountId held =>
    cases hmoves
    exact h

/-- A new lockup awaits nothing. -/
theorem singleFlight_new {vesting : Option VestingScheduleOrHash} (h : s.IsNew env vesting) :
    SingleFlight s [] := by
  refine ⟨by simp, by simp, by simp, ?_⟩
  intro stage hstage
  rw [new_getTerminationStatus h] at hstage
  rcases hstage with hstage | hstage <;> cases hstage

/-- In every run at most one operation at the pool and one payout are in flight. -/
theorem singleFlight_run {vesting : Option VestingScheduleOrHash} (h : s.IsNew env vesting)
    (held : AccountId → ℕ) (ls : List Label) :
    SingleFlight ((system sha256).run (World.initial env s held) ls).contract
      ((system sha256).run (World.initial env s held) ls).pending :=
  Machine.run_invariant (I := fun w => SingleFlight w.contract w.pending) (G := fun _ _ => True)
    (fun _ _ _ hw _ hstep => singleFlight_step hw hstep) (fun _ _ => trivial) (singleFlight_new h)

end Steps

end UncContracts.Lockup
