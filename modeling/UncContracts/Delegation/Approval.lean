import UncContracts.Delegation.Network
import UncContracts.Lockup.Recovery
import UncContracts.Lockup.Selection
import UncContracts.Whitelist.History

/-!
# Approval in the delegation network

The pool that a lockup selected was on the whitelist when the whitelist answered for it, and it was
put there by the foundation or by a factory that was whitelisted then, unless it was there from the
beginning. No other account has a say in it, whatever it calls or answers.

## Main definitions

* `Opening`: the network when the lockup is initialized
* `Consults`, `Adds`: the steps in which a pool is approved, and in which it is whitelisted

## Main results

* `lockup_of_moves`: the lockup's view of a step
* `selected_was_listed`: where the selected pool comes from
-/

namespace UncContracts.Delegation

open Foundation
open Lockup (World ExternalMethod PromiseResult LockupContract Vetted Approves)
open StakingPool (StakingContract)
open Whitelist (WhitelistContract)

/-- The network when the lockup is initialized: the pools have run since they were deployed, and the
whitelisted accounts have one. -/
structure Opening (env : Env) (s : LockupContract) (n : Network) : Prop where
  lockup : n.lockup = World.initial env s n.claimAt
  asks : n.whitelistId = s.stakingPoolWhitelistAccountId
  pools : ∀ id t, n.pools id = some t →
    ∃ s₀ calls, StakingPool.Deployed s₀ ∧ t = StakingPool.pool.run s₀ calls
  self : n.pools n.lockup.accountId = none
  apart : n.pools n.whitelistId = none
  whitelisted : ∀ id ∈ n.whitelist.whitelist, (n.pools id).isSome

/-- The whitelist is asked for a pool that is on it. -/
def Consults (id : AccountId) (x : Step Network Label) : Prop :=
  ∃ i, x.label = .consult i ∧
    callIn x.before.lockup i = some (x.before.whitelistId, .isWhitelisted id, 0) ∧
    id ∈ x.before.whitelist.whitelist

/-- A pool is whitelisted by one that may do so. -/
def Adds (id : AccountId) (x : Step Network Label) : Prop :=
  ∃ predecessor, x.label = .whitelist predecessor (.addStakingPool id) ∧
    x.before.whitelist.Authorizes predecessor (.addStakingPool id)

section Steps

variable {sha256 : List UInt8 → Lockup.Hash} {n n' : Network} {l : Label}

theorem callIn_of_approves {w w' : World} {l : Lockup.Label} {whitelistId id : AccountId}
    (h : Approves whitelistId id ⟨w, l, w'⟩) : ∃ i outcome, l = .deliver i outcome ∧
      outcome.result = .successful (.bool true) ∧
      callIn w i = some (whitelistId, .isWhitelisted id, 0) := by
  obtain ⟨i, outcome, rest, hl, hresult, htake⟩ := h
  exact ⟨i, outcome, hl, hresult, callIn_eq_some.mpr ⟨_, (takeAt_eq_some.mp htake).1⟩⟩

/-- The whitelist tells what is on it. -/
theorem mem_whitelist_of_answer {s : WhitelistContract} {id : AccountId}
    (h : whitelistAnswer s (.isWhitelisted id) = .successful (.bool true)) : id ∈ s.whitelist := by
  simp only [whitelistAnswer] at h
  split at h
  · next b hanswer =>
    simp only [WhitelistContract.isWhitelisted, bind_eq_ok, ensure_eq_ok, pure_eq_ok] at hanswer
    obtain ⟨_, -, rfl⟩ := hanswer
    simpa using h
  · cases h

/-- The lockup's view of a step: none, or a step of the lockup, in which only the whitelist approves
pools, and only those on it. -/
theorem lockup_of_moves (hagrees : Agrees n) (h : Moves sha256 n l n') :
    n'.lockup = n.lockup ∨ ∃ l', (Lockup.system sha256).step n.lockup l' = .ok n'.lockup ∧
      ∀ id, Approves n.whitelistId id ⟨n.lockup, l', n'.lockup⟩ → Consults id ⟨n, l, n'⟩ := by
  cases h with
  | lockup hundirected hstep =>
    refine .inr ⟨_, hstep, ?_⟩
    intro id happroves
    obtain ⟨i, outcome, rfl, -, hcall⟩ := callIn_of_approves happroves
    cases hcall.symm.trans hundirected
  | answered hcall hforeign hstep =>
    refine .inr ⟨_, hstep, ?_⟩
    intro id happroves
    obtain ⟨i, outcome, hl, hresult, hask⟩ := callIn_of_approves happroves
    cases hl
    obtain ⟨rfl, -⟩ := Prod.mk.inj (Option.some.inj (hcall.symm.trans hask))
    rw [hforeign.2 rfl] at hcall
    cases ((answered_of_deliver hcall hstep).2 rfl).symm.trans hresult
  | @consulted i method _ _ _ hcall hstep =>
    refine .inr ⟨_, hstep, ?_⟩
    intro id happroves
    obtain ⟨i, outcome, hl, hresult, hask⟩ := callIn_of_approves happroves
    cases hl
    obtain ⟨-, hmethod⟩ := Prod.mk.inj (Option.some.inj (hcall.symm.trans hask))
    obtain ⟨rfl, -⟩ := Prod.mk.inj hmethod
    exact ⟨i, rfl, hask, mem_whitelist_of_answer hresult⟩
  | executed hcall hpool hme hhosted hstep =>
    refine .inr ⟨_, hstep, ?_⟩
    intro id happroves
    obtain ⟨i, outcome, hl, -, hask⟩ := callIn_of_approves happroves
    cases hl
    obtain ⟨rfl, -⟩ := Prod.mk.inj (Option.some.inj (hcall.symm.trans hask))
    cases hagrees.apart.symm.trans hpool
  | called hpool hother hcall hstep =>
    refine .inr ⟨_, hstep, ?_⟩
    intro id happroves
    obtain ⟨i, outcome, hl, -⟩ := callIn_of_approves happroves
    cases hl
  | listed => exact .inl rfl
  | deployed => exact .inl rfl

/-- An account joins the whitelist when one that may do so adds it. -/
theorem whitelist_of_moves (h : Moves sha256 n l n') {id : AccountId}
    (hid : id ∈ n'.whitelist.whitelist) : id ∈ n.whitelist.whitelist ∨ Adds id ⟨n, l, n'⟩ := by
  cases h with
  | @listed predecessor method _ _ hcall =>
    obtain ⟨-, hauthorized, hlists⟩ := Whitelist.lists_of_call hcall
    have hmem := (hlists.pool id).mp hid
    cases hlisting : method.lists id with
    | none =>
      rw [hlisting] at hmem
      exact .inl hmem
    | some listed =>
      rw [hlisting] at hmem
      cases hmem
      obtain rfl := Whitelist.eq_of_lists_true hlisting
      exact .inr ⟨predecessor, rfl, hauthorized⟩
  | _ => exact .inl hid

end Steps

/-! ## Runs -/

/-- What is approved and what is whitelisted, by the history of the network. -/
structure Traced (n₀ : Network) (hist : List (Step Network Label)) (n : Network) : Prop where
  agrees : Agrees n
  whitelistId : n.whitelistId = n₀.whitelistId
  approved : ∃ trace, Vetted n.whitelistId trace n.lockup ∧
    ∀ x ∈ trace, ∀ id, Approves n.whitelistId id x → ∃ y ∈ hist, Consults id y
  whitelisted : ∀ id ∈ n.whitelist.whitelist,
    id ∈ n₀.whitelist.whitelist ∨ ∃ y ∈ hist, Adds id y

section Runs

variable {sha256 : List UInt8 → Lockup.Hash} {n₀ n n' : Network} {l : Label}
  {hist : List (Step Network Label)}

theorem Traced.step (h : Traced n₀ hist n) (hstep : (system sha256).step n l = .ok n') :
    Traced n₀ (hist ++ [⟨n, l, n'⟩]) n' := by
  have hmoves := moves_of_step hstep
  have hid : n'.whitelistId = n.whitelistId := by cases hmoves <;> rfl
  have hearlier : ∀ {P : Step Network Label → Prop}, (∃ y ∈ hist, P y) →
      ∃ y ∈ hist ++ [⟨n, l, n'⟩], P y := by
    rintro P ⟨y, hy, hP⟩
    exact ⟨y, List.mem_append_left _ hy, hP⟩
  have hnow : ∀ {P : Step Network Label → Prop}, P ⟨n, l, n'⟩ →
      ∃ y ∈ hist ++ [⟨n, l, n'⟩], P y := fun hP =>
    ⟨_, List.mem_append_right _ (List.mem_singleton.mpr rfl), hP⟩
  refine ⟨h.agrees.step hmoves, hid.trans h.whitelistId, ?_, ?_⟩
  · obtain ⟨trace, hvetted, happroved⟩ := h.approved
    rw [hid]
    rcases lockup_of_moves h.agrees hmoves with hsame | ⟨l', hlockup, hconsults⟩
    · refine ⟨trace, by rwa [hsame], ?_⟩
      intro x hx id happroves
      exact hearlier (happroved x hx id happroves)
    · refine ⟨_, Lockup.vetted_step hvetted hlockup, ?_⟩
      intro x hx id happroves
      rcases List.mem_append.mp hx with hx | hx
      · exact hearlier (happroved x hx id happroves)
      · cases List.mem_singleton.mp hx
        exact hnow (hconsults id happroves)
  · intro id hmem
    rcases whitelist_of_moves hmoves hmem with hmem | hadds
    · exact (h.whitelisted id hmem).imp_right hearlier
    · exact .inr (hnow hadds)

theorem Opening.agrees {env : Env} {s : LockupContract} (h : Opening env s n) : Agrees n := by
  refine ⟨?_, h.self, h.apart⟩
  intro id
  rw [h.lockup]
  rfl

/-- Nothing is in flight at first, and no pool is selected. -/
theorem Opening.vetted {env : Env} {vesting : Option Lockup.VestingScheduleOrHash}
    {s : LockupContract} (h : Opening env s n) (hnew : s.IsNew env vesting) :
    Vetted n.whitelistId [] n.lockup := by
  rw [h.lockup, h.asks]
  let w := World.initial env s n.claimAt
  show Vetted _ ((Lockup.system id).steps w []) ((Lockup.system id).run w [])
  exact Lockup.vetted_run hnew _ []

theorem traced_run {env : Env} {vesting : Option Lockup.VestingScheduleOrHash} {s : LockupContract}
    (h : Opening env s n) (hnew : s.IsNew env vesting) (ls : List Label) :
    Traced n ((system sha256).steps n ls) ((system sha256).run n ls) := by
  refine Machine.run_induction (M := system sha256) (P := Traced n) ?_
    (fun hist a l b ih hstep => ih.step hstep) ls
  exact ⟨h.agrees, rfl, ⟨[], h.vetted hnew, by rintro x ⟨⟩⟩, fun id hmem => .inl hmem⟩

end Runs

/-- **Where the selected pool comes from.** In every run, the pool that the lockup selected was on
the whitelist when the whitelist answered for it, and had been put there by the foundation or a
factory that was whitelisted at that time, unless it was there from the beginning. -/
theorem selected_was_listed (sha256 : List UInt8 → Lockup.Hash) (env : Env)
    (vesting : Option Lockup.VestingScheduleOrHash) (s : LockupContract)
    (hnew : s.IsNew env vesting) (n : Network) (hopening : Opening env s n) (ls : List Label)
    (id : AccountId) (hselected :
      ((system sha256).run n ls).lockup.contract.getStakingPoolAccountId = some id) :
    ∃ pre i post, ls = pre ++ .consult i :: post ∧
      callIn ((system sha256).run n pre).lockup i =
        some (n.whitelistId, .isWhitelisted id, 0) ∧
      id ∈ ((system sha256).run n pre).whitelist.whitelist ∧
      (id ∈ n.whitelist.whitelist ∨ ∃ y ∈ (system sha256).steps n pre, Adds id y) := by
  obtain ⟨trace, hvetted, happroved⟩ := (traced_run hopening hnew ls).approved
  obtain ⟨x, hx, happroves⟩ := hvetted.approved id hselected
  obtain ⟨y, hy, i, hlabel, hcall, hmem⟩ := happroved x hx id happroves
  obtain ⟨pre, post, rfl, hbefore, -⟩ := Machine.mem_steps_iff.mp hy
  have htraced : Traced n ((system sha256).steps n pre) ((system sha256).run n pre) :=
    traced_run hopening hnew pre
  rw [hbefore] at hcall hmem
  exact ⟨pre, i, post, by rw [hlabel], htraced.whitelistId ▸ hcall, hmem,
    htraced.whitelisted id hmem⟩

/-! ## A small network -/

/-- A new lockup and a new whitelist, and no pools. -/
def sampleNetwork : Network where
  lockup := World.initial (Lockup.sampleEnv "creator" (Lockup.MIN_BALANCE_FOR_STORAGE + 4000000) 0
    Lockup.sampleBalance_le) Lockup.sampleVesting fun _ => 0
  whitelistId := "whitelist"
  whitelist := ⟨"foundation", ∅, ∅⟩
  pools := fun _ => none

theorem opening_sampleNetwork : Opening (Lockup.sampleEnv "creator"
    (Lockup.MIN_BALANCE_FOR_STORAGE + 4000000) 0 Lockup.sampleBalance_le) Lockup.sampleVesting
    sampleNetwork :=
  ⟨rfl, rfl, by rintro id t ⟨⟩, rfl, rfl, by rintro id ⟨⟩⟩

/-- The foundation whitelists a pool, and the lockup selects it, deposits to it and stakes there, while
Alice deposits and stakes as well. -/
def sampleDelegating : List Label :=
  [.deploy (StakingPool.smallEnv "factory" 0) "owner" "key" ⟨1, 10⟩,
    .whitelist "foundation" (.addStakingPool "pool"),
    .lockup (.call (Lockup.sampleEnv "owner" (Lockup.MIN_BALANCE_FOR_STORAGE + 4000000) 1
      Lockup.sampleBalance_le) (.selectStakingPool "pool")),
    .consult 0,
    .lockup (.resume 0 (Lockup.sampleEnv "lockup" (Lockup.MIN_BALANCE_FOR_STORAGE + 4000000) 2
      Lockup.sampleBalance_le)),
    .pool "pool" ⟨StakingPool.smallEnv "alice" 10, .depositAndStake⟩,
    .lockup (.call (Lockup.sampleEnv "owner" (Lockup.MIN_BALANCE_FOR_STORAGE + 4000000) 3
      Lockup.sampleBalance_le) (.depositAndStake 3000000)),
    .execute 0 (StakingPool.smallEnv "lockup" 3000000),
    .lockup (.resume 0 (Lockup.sampleEnv "lockup" (Lockup.MIN_BALANCE_FOR_STORAGE + 1000000) 4
      Lockup.sampleRest_le))]

theorem selected_was_listed_sampleDelegating :
    ∃ pre i post, sampleDelegating = pre ++ .consult i :: post ∧
      callIn ((system id).run sampleNetwork pre).lockup i =
        some ("whitelist", .isWhitelisted "pool", 0) ∧
      "pool" ∈ ((system id).run sampleNetwork pre).whitelist.whitelist ∧
      ("pool" ∈ sampleNetwork.whitelist.whitelist ∨
        ∃ y ∈ (system id).steps sampleNetwork pre, Adds "pool" y) :=
  selected_was_listed id _ _ Lockup.sampleVesting Lockup.isNew_sampleVesting sampleNetwork
    opening_sampleNetwork sampleDelegating "pool" (by decide +kernel)

end UncContracts.Delegation
