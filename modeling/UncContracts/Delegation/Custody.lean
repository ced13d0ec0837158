import UncContracts.Delegation.Approval
import UncContracts.Lockup.Custody

/-!
# Custody in the delegation network

The tokens that a lockup may not transfer are covered by its account, by what the selected pool owes
it and by what is in flight, in every run of the network: no account is assumed honest. The pools
of the network are honest because they run the staking pool contract, and an account without one is
never sent tokens, since the whitelist approves only accounts with a pool. What is left to assume
is that the calls of the pools saturate nothing and leave a share, and that only accounts with a
pool are whitelisted.

## Main definitions

* `Fair`: an answer that the lockup relies on
* `Careful`: a step in which the pools saturate nothing and leave a share, and only pools are listed
* `Secure`: what every careful step keeps
* `Covered`: the tokens of the network cover what is locked

## Main results

* `hosted_fair`: a pool answers as the lockup relies on
* `secure_step`: every careful step keeps the network secure
* `custody_in_network`: the tokens cover what is locked after every careful run
-/

namespace UncContracts.Delegation

open Foundation
open Lockup (World ExternalMethod PromiseResult Receipt Outcome LockupContract poolAnswer honest
  Vetted Approves)
open StakingPool (StakingContract Sound Gentle claim paid payments)
open Whitelist (WhitelistContract)

/-! ## The execution of a call at a pool -/

/-- The answer to a call is one that the lockup relies on: what is deposited is held, what is
withdrawn is given back, and the deposit of a call that fails is returned. -/
def Fair (method : ExternalMethod) (deposit held : ℕ) (outcome : Outcome) : Prop :=
  match outcome.result with
  | .failed => held ≤ outcome.held ∧ deposit ≤ outcome.sent
  | .successful _ =>
    match method with
    | .withdraw amount => held ≤ outcome.held + amount ∧ amount ≤ outcome.sent
    | _ => held + deposit ≤ outcome.held

/-- What a pool does to a call: it answers a query, the call fails, or it is executed. -/
inductive Hosted (s : StakingContract) (env : Env) (method : ExternalMethod) :
    StakingContract → PromiseResult → ℕ → Prop
  | queried (result : PromiseResult) (hquery : method.ofPool = none) :
    Hosted s env method s result 0
  | failed : Hosted s env method s .failed env.attachedDeposit
  | called {t : StakingContract} {promises : List StakingPool.Promise} (m : StakingPool.Method)
    (hmethod : method.ofPool = some m) (hcall : s.call ⟨env, m⟩ = .ok (t, promises)) :
    Hosted s env method t (.successful .other) (paid (payments promises))

section Hosted

variable {s t : StakingContract} {env : Env} {method : ExternalMethod} {result : PromiseResult}
  {sent : ℕ}

/-- All transfers of a call go to its caller. -/
theorem transferredTo_of_call {c : StakingPool.Call} {promises : List StakingPool.Promise}
    (h : s.call c = .ok (t, promises)) :
    Lockup.transferredTo c.env.predecessorAccountId promises = paid (payments promises) := by
  have hreceiver := StakingPool.receiver_of_payments h
  clear h
  unfold Lockup.transferredTo paid payments
  induction promises with
  | nil => rfl
  | cons p ps ih =>
    cases p with
    | transfer receiver amount =>
      simp only [payments, List.filterMap_cons, StakingPool.Promise.payment,
        List.forall_mem_cons] at hreceiver
      simp only [List.map_cons, List.sum_cons, List.filterMap_cons, StakingPool.Promise.payment,
        if_pos hreceiver.1, ih hreceiver.2]
    | stake amount key callback =>
      rw [List.filterMap_cons_none rfl]
      simpa using ih hreceiver
    | vote votingAccountId isVote =>
      rw [List.filterMap_cons_none rfl]
      simpa using ih hreceiver

theorem hosted_of_poolAnswer (h : poolAnswer s env method = (t, result, sent)) :
    Hosted s env method t result sent := by
  unfold poolAnswer at h
  split at h
  · cases h
    exact .queried _ rfl
  · cases h
    exact .queried _ rfl
  · cases h
    exact .queried _ rfl
  · split at h
    · next m hmethod =>
      split at h
      · next u promises hcall =>
        cases h
        rw [transferredTo_of_call hcall]
        exact .called m hmethod hcall
      · cases h
        exact .failed
    · cases h
      exact .failed

theorem hosted_spec (h : hosted s env method = (t, result, sent)) :
    Hosted s env method t result sent := by
  unfold hosted at h
  generalize hanswer : poolAnswer s env method = answer at h
  obtain ⟨u, answered, tokens⟩ := answer
  dsimp only at h
  split at h
  · cases h
    exact hosted_of_poolAnswer hanswer
  · cases h
    exact .failed

/-- A pool whose calls are gentle answers fairly. -/
theorem hosted_fair (hs : Sound s) (hgentle : ∀ m ∈ method.ofPool, Gentle s ⟨env, m⟩)
    (hquery : method.ofPool = none → env.attachedDeposit = 0)
    (h : Hosted s env method t result sent) :
    Fair method env.attachedDeposit (claim s env.predecessorAccountId)
      ⟨result, claim t env.predecessorAccountId, sent⟩ := by
  cases h with
  | queried result hnone =>
    have hzero := hquery hnone
    cases result with
    | failed => exact ⟨le_rfl, hzero.le⟩
    | successful value =>
      cases method with
      | withdraw amount => cases hnone
      | _ => exact (Nat.add_le_add_left hzero.le _)
  | failed => exact ⟨le_rfl, le_rfl⟩
  | @called _ promises m hmethod hcall =>
    have hclaim := StakingPool.claim_of_call hs (hgentle m hmethod) hcall
    cases method with
    | withdraw amount =>
      cases hmethod
      have hpaid : paid (payments promises) = amount := by
        rw [StakingPool.payments_of_withdraw rfl hcall]
        simp [paid]
      refine ⟨?_, hpaid.ge⟩
      rw [hpaid] at hclaim
      exact (Nat.le_add_right _ _).trans hclaim
    | _ =>
      cases hmethod
      all_goals
        rw [StakingPool.payments_eq_nil rfl hcall] at hclaim
        exact hclaim

end Hosted

/-! ## What the steps keep -/

/-- The pools saturate nothing and leave a share, and only accounts with a pool are whitelisted. -/
def Careful (n : Network) : Label → Prop
  | .execute i env => ∀ call ∈ callIn n.lockup i, ∀ s ∈ n.pools call.1, ∀ m ∈ call.2.1.ofPool,
    Gentle s ⟨env, m⟩
  | .pool accountId c => ∀ s ∈ n.pools accountId, Gentle s c
  | .whitelist _ (.addStakingPool stakingPoolAccountId) => (n.pools stakingPoolAccountId).isSome
  | _ => True

instance (n : Network) : (l : Label) → Decidable (Careful n l)
  | .execute i env => inferInstanceAs (Decidable (∀ call ∈ callIn n.lockup i,
      ∀ s ∈ n.pools call.1, ∀ m ∈ call.2.1.ofPool, Gentle s ⟨env, m⟩))
  | .pool accountId c => inferInstanceAs (Decidable (∀ s ∈ n.pools accountId, Gentle s c))
  | .whitelist _ (.addStakingPool id) => inferInstanceAs (Decidable ((n.pools id).isSome = true))
  | .whitelist _ (.removeStakingPool _) | .whitelist _ (.addFactory _)
  | .whitelist _ (.removeFactory _) | .lockup _ | .answer _ _ _ | .consult _ | .deploy _ _ _ _ =>
    .isTrue trivial

/-- The whitelisted accounts, and those that the whitelist approved for the lockup, have a pool. -/
structure Listed (n : Network) : Prop where
  whitelisted : ∀ id ∈ n.whitelist.whitelist, (n.pools id).isSome
  approved : ∃ hist, Vetted n.whitelistId hist n.lockup ∧
    ∀ x ∈ hist, ∀ id, Approves n.whitelistId id x → (n.pools id).isSome

/-- What every careful step keeps. -/
structure Secure (n : Network) : Prop where
  custody : Lockup.Custody n.lockup
  agrees : Agrees n
  sound : ∀ id s, n.pools id = some s → Sound s
  listed : Listed n

section Steps

variable {sha256 : List UInt8 → Lockup.Hash} {n n' : Network} {l : Label}

/-- The selected account has a pool. -/
theorem Listed.selected (h : Listed n) {id : AccountId}
    (hselected : n.lockup.contract.getStakingPoolAccountId = some id) : (n.pools id).isSome := by
  obtain ⟨hist, hvetted, happroved⟩ := h.approved
  obtain ⟨x, hx, happroves⟩ := hvetted.approved id hselected
  exact happroved x hx id happroves

/-- A pool is never removed. -/
theorem pools_of_moves (h : Moves sha256 n l n') {id : AccountId} (hid : (n.pools id).isSome) :
    (n'.pools id).isSome := by
  have hupdate : ∀ (other : AccountId) (t : StakingContract),
      (Function.update n.pools other (some t) id).isSome := by
    intro other t
    rw [Function.update_apply]
    split
    · rfl
    · exact hid
  cases h with
  | executed => exact hupdate _ _
  | called => exact hupdate _ _
  | deployed => exact hupdate _ _
  | _ => exact hid

theorem Listed.step (h : Listed n) (hagrees : Agrees n) (hcareful : Careful n l)
    (hmoves : Moves sha256 n l n') : Listed n' := by
  have hid : n'.whitelistId = n.whitelistId := by cases hmoves <;> rfl
  refine ⟨?_, ?_⟩
  · intro id hmem
    apply pools_of_moves hmoves
    rcases whitelist_of_moves hmoves hmem with hmem | ⟨predecessor, hl, -⟩
    · exact h.whitelisted id hmem
    · cases hl
      exact hcareful
  · obtain ⟨hist, hvetted, happroved⟩ := h.approved
    rw [hid]
    rcases lockup_of_moves hagrees hmoves with hsame | ⟨l', hstep, hconsults⟩
    · refine ⟨hist, by rwa [hsame], ?_⟩
      intro x hx id happroves
      exact pools_of_moves hmoves (happroved x hx id happroves)
    · refine ⟨_, Lockup.vetted_step hvetted hstep, ?_⟩
      intro x hx id happroves
      apply pools_of_moves hmoves
      rcases List.mem_append.mp hx with hx | hx
      · exact happroved x hx id happroves
      · cases List.mem_singleton.mp hx
        obtain ⟨_, _, _, hmem⟩ := hconsults id happroves
        exact h.whitelisted id hmem

theorem sound_of_moves (h : ∀ id s, n.pools id = some s → Sound s) (hmoves : Moves sha256 n l n') :
    ∀ id s, n'.pools id = some s → Sound s := by
  have hupdate : ∀ (other : AccountId) (t : StakingContract), Sound t →
      ∀ id s, Function.update n.pools other (some t) id = some s → Sound s := by
    intro other t ht id s hs
    rw [Function.update_apply] at hs
    split at hs
    · cases hs
      exact ht
    · exact h id s hs
  cases hmoves with
  | executed hcall hpool hme hhosted hstep =>
    apply hupdate
    cases hosted_spec hhosted with
    | queried => exact h _ _ hpool
    | failed => exact h _ _ hpool
    | called m hmethod hcall =>
      exact (h _ _ hpool).step (StakingPool.step_of_call hcall)
  | called hpool hother hcall hstep => exact hupdate _ _ ((h _ _ hpool).step hcall)
  | deployed hnone hself hwhitelist hnew => exact hupdate _ _ (.of_fresh hnew.fresh)
  | _ => exact h

/-! ## The accounts are honest -/

theorem honest_of_undirected {w : World} {l : Lockup.Label} (h : Undirected w l) :
    honest w l = true := by
  cases l with
  | deliver i outcome =>
    simp only [honest]
    split
    · next receiverId method deposit callback hget =>
      cases (callIn_eq_some.mpr ⟨callback, hget⟩).symm.trans h
    · rfl
  | hold => exact h.elim
  | _ => rfl

/-- A call is answered honestly. -/
theorem honest_of_answer {w : World} {i : ℕ} {outcome : Outcome} {receiverId : AccountId}
    {method : ExternalMethod} {deposit : ℕ} (hcall : callIn w i = some (receiverId, method, deposit))
    (h : Fair method deposit (w.held receiverId) outcome) : honest w (.deliver i outcome) = true := by
  obtain ⟨callback, hget⟩ := callIn_eq_some.mp hcall
  obtain ⟨result, held, sent⟩ := outcome
  cases result with
  | failed => simpa [honest, hget, Fair] using h
  | successful value => cases method <;> simpa [honest, hget, Fair] using h

/-- A call of an account without a pool is sent no tokens and asks for none. -/
theorem Secure.deposit_eq_zero (h : Secure n) {i : ℕ} {receiverId : AccountId}
    {method : ExternalMethod} {deposit : ℕ}
    (hcall : callIn n.lockup i = some (receiverId, method, deposit))
    (hnone : n.pools receiverId = none) : deposit = 0 ∧ ∀ amount, method ≠ .withdraw amount := by
  obtain ⟨callback, hget⟩ := callIn_eq_some.mp hcall
  have hsent := h.custody.sent _ (List.mem_of_getElem? hget)
  have hunselected : n.lockup.contract.getStakingPoolAccountId ≠ some receiverId := by
    intro hselected
    simpa [hnone] using h.listed.selected hselected
  cases callback with
  | onStakingPoolDeposit => exact absurd hsent.1 hunselected
  | onStakingPoolDepositAndStake => exact absurd hsent.1 hunselected
  | onStakingPoolWithdraw => exact absurd hsent.1 hunselected
  | _ => exact hsent

/-- An account without a pool is honest, whatever it answers. -/
theorem Secure.honest_of_none (h : Secure n) {i : ℕ} {result : PromiseResult} {sent : ℕ}
    {receiverId : AccountId} {method : ExternalMethod} {deposit : ℕ}
    (hcall : callIn n.lockup i = some (receiverId, method, deposit))
    (hnone : n.pools receiverId = none) : honest n.lockup (.deliver i ⟨result, 0, sent⟩) = true := by
  obtain ⟨rfl, hmethod⟩ := h.deposit_eq_zero hcall hnone
  apply honest_of_answer hcall
  rw [h.agrees.held, claimAt_of_none hnone]
  cases result with
  | failed => exact ⟨le_rfl, Nat.zero_le _⟩
  | successful value =>
    cases method with
    | withdraw amount => exact absurd rfl (hmethod amount)
    | _ => exact le_rfl

/-- A query to a pool is sent no tokens. -/
theorem Secure.deposit_of_query (h : Secure n) {i : ℕ} {receiverId : AccountId}
    {method : ExternalMethod} {deposit : ℕ}
    (hcall : callIn n.lockup i = some (receiverId, method, deposit))
    (hquery : method.ofPool = none) : deposit = 0 := by
  obtain ⟨callback, hget⟩ := callIn_eq_some.mp hcall
  have hsent := h.custody.sent _ (List.mem_of_getElem? hget)
  cases callback with
  | onStakingPoolDeposit =>
    obtain ⟨-, rfl, -⟩ := hsent
    cases hquery
  | onStakingPoolDepositAndStake =>
    obtain ⟨-, rfl, -⟩ := hsent
    cases hquery
  | onStakingPoolWithdraw =>
    obtain ⟨-, rfl, -⟩ := hsent
    cases hquery
  | _ => exact hsent.1

/-- Every careful step keeps the custody of the lockup, since its accounts are honest. -/
theorem Secure.custody_step (h : Secure n) (hcareful : Careful n l) (hmoves : Moves sha256 n l n') :
    Lockup.Custody n'.lockup := by
  cases hmoves with
  | lockup hundirected hstep =>
    exact Lockup.custody_step h.custody (honest_of_undirected hundirected) hstep
  | answered hcall hforeign hstep =>
    exact Lockup.custody_step h.custody (h.honest_of_none hcall hforeign.1) hstep
  | consulted hcall hstep =>
    exact Lockup.custody_step h.custody (h.honest_of_none hcall h.agrees.apart) hstep
  | @executed _ env receiverId method s t result sent _ hcall hpool hme hhosted hstep =>
    refine Lockup.custody_step h.custody (honest_of_answer hcall ?_) hstep
    have hfair := hosted_fair (h.sound _ _ hpool)
      (hcareful (receiverId, method, env.attachedDeposit) hcall s hpool)
      (h.deposit_of_query hcall) (hosted_spec hhosted)
    rwa [h.agrees.held, claimAt_of_pool hpool, ← hme]
  | @called accountId c s t _ hpool hother hcall hstep =>
    refine Lockup.custody_step h.custody ?_ hstep
    have hclaim := StakingPool.claim_of_other (h.sound _ _ hpool) (hcareful s hpool) hcall
      (Ne.symm hother)
    simpa [honest, h.agrees.held, claimAt_of_pool hpool] using hclaim
  | listed hcall => exact h.custody
  | deployed hnone hself hwhitelist hnew => exact h.custody

/-- Every careful step keeps the network secure. -/
theorem secure_step (h : Secure n) (hcareful : Careful n l)
    (hstep : (system sha256).step n l = .ok n') : Secure n' := by
  have hmoves := moves_of_step hstep
  exact ⟨h.custody_step hcareful hmoves, h.agrees.step hmoves, sound_of_moves h.sound hmoves,
    h.listed.step h.agrees hcareful hmoves⟩

end Steps

/-! ## Runs -/

/-- The tokens on the account, what the selected pool owes the lockup, and the tokens in flight cover
the locked amount, now and later, and a transfer leaves what is locked. -/
structure Covered (n : Network) : Prop where
  locked_le : ∀ env : Env, n.lockup.now ≤ env.blockTimestamp →
    ∃ locked, n.lockup.contract.getLockedAmount env = .ok locked ∧
      locked ≤ n.lockup.balance + n.claimAtPool + n.lockup.inFlight
  transfer_le : ∀ env amount receiver t p, n.lockup.Hosts env →
    n.lockup.contract.transfer env amount receiver = .ok (t, p) →
    ∃ locked, n.lockup.contract.getLockedAmount env = .ok locked ∧
      amount + locked ≤ n.lockup.balance + n.claimAtPool

section Runs

variable {n : Network} {env : Env} {vesting : Option Lockup.VestingScheduleOrHash}
  {s : LockupContract}

theorem Secure.covered (h : Secure n) : Covered n := by
  have hclaim : n.lockup.heldAtPool = n.claimAtPool := by
    unfold World.heldAtPool Network.claimAtPool
    split <;> simp only [*, h.agrees.held]
  have hsecured := h.custody.secured
  exact ⟨by rw [← hclaim]; exact hsecured.locked_le, by rw [← hclaim]; exact hsecured.transfer_le⟩

theorem Opening.secure (h : Opening env s n) (hnew : s.IsNew env vesting)
    (hvesting : ∀ v, vesting = some v →
      ∃ schedule, v = .vestingSchedule schedule ∧ schedule.assertValid = .ok ()) : Secure n := by
  refine ⟨?_, h.agrees, ?_, ⟨h.whitelisted, [], h.vetted hnew, by rintro x ⟨⟩⟩⟩
  · rw [h.lockup]
    exact Lockup.custody_new hnew hvesting _
  · intro id t ht
    obtain ⟨s₀, calls, hdeployed, rfl⟩ := h.pools id t ht
    exact StakingPool.sound_run hdeployed calls

end Runs

/-- **Custody in the network.** With no vesting or a valid public schedule, in every run in which the
calls of the pools saturate nothing and leave a share and only accounts with a pool are whitelisted,
the tokens of the network cover what is locked, whatever the other accounts do. -/
theorem custody_in_network (sha256 : List UInt8 → Lockup.Hash) (env : Env)
    (vesting : Option Lockup.VestingScheduleOrHash) (s : LockupContract)
    (hnew : s.IsNew env vesting) (hvesting : ∀ v, vesting = some v →
      ∃ schedule, v = .vestingSchedule schedule ∧ schedule.assertValid = .ok ())
    (n : Network) (hopening : Opening env s n) (ls : List Label)
    (hcareful : ∀ x ∈ (system sha256).steps n ls, Careful x.before x.label) :
    Covered ((system sha256).run n ls) :=
  (Machine.run_invariant (I := Secure) (G := Careful)
    (fun _ _ _ h hl hstep => secure_step h hl hstep) hcareful
    (hopening.secure hnew hvesting)).covered

theorem custody_in_network_sampleDelegating : Covered ((system id).run sampleNetwork sampleDelegating) :=
  custody_in_network id _ _ Lockup.sampleVesting Lockup.isNew_sampleVesting
    (by
      rintro v ⟨⟩
      exact ⟨_, rfl, by decide⟩)
    sampleNetwork opening_sampleNetwork sampleDelegating (by decide +kernel)

end UncContracts.Delegation
