import UncContracts.Social.Unreachable

/-!
# Pools in every run

The pools agree with their accounts in every run. Whether a pool can also tell what it has available
is decided by its deposits: the bytes that a pool pays for are cut to a word, so that a deposit may
leave it with fewer than are in use from it. As long as no deposit does, no call falls below zero.

## Main definitions

* `Contract.Accounted`: the pools agree with their accounts
* `Contract.Countable`: pools tell what they have available, and no call falls below zero
* `Contract.CountsPools`: what is kept as long as deposits leave enough
* `DepositCounts`: a deposit leaves its pool the bytes that are in use

## Main results

* `pools_run`: the pools of every run, and when they can tell what they have available
-/

namespace UncContracts.Social

open Foundation

/-- The pools agree with their accounts, and use no more than they pay for. -/
def Contract.Accounted (layout : Layout) (cost : ℕ) (c : Contract) : Prop :=
  ∀ id pool, c.sharedStoragePools.lookup id = some pool →
    pool.sharedBytes = c.bytesFrom AccountSharedStorage.maxBytes id ∧
    pool.usedBytes = layout.pool id + c.bytesFrom AccountSharedStorage.usedBytes id ∧
    pool.usedBytes ≤ pool.storageBalance / cost

/-- Every pool tells what it has available, and no call falls below zero. -/
structure Contract.Countable (host : Host) (c : Contract) : Prop where
  available : ∀ id pool, c.sharedStoragePools.lookup id = some pool →
    ∃ m, pool.availableBytes host = .ok m
  calls : ∀ env method, c.call host env method ≠ .error SUBTRACT_OVERFLOW

/-- A deposit to a pool, if the call is one, leaves it the bytes that are in use from it. A new pool
has its own record in use. -/
def DepositCounts (layout : Layout) (cost : ℕ) (c : Contract) (call : Call) : Prop :=
  match call.method with
  | .sharedStoragePoolDeposit ownerId =>
    let id := ownerId.getD call.env.predecessorAccountId
    let pool := poolAt c.sharedStoragePools id
    pool.usedBytes + (if id ∈ c.sharedStoragePools then 0 else layout.pool id) ≤
      saturatingAdd pool.storageBalance call.env.attachedDeposit / cost % 2 ^ 64
  | _ => True

instance (layout : Layout) (cost : ℕ) (c : Contract) (call : Call) :
    Decidable (DepositCounts layout cost c call) :=
  match call with
  | ⟨_, .sharedStoragePoolDeposit _⟩ => Nat.decLe _ _
  | ⟨_, .set _ _⟩ | ⟨_, .grantWritePermission _ _ _⟩ | ⟨_, .storageDeposit _ _⟩
  | ⟨_, .storageWithdraw _⟩ | ⟨_, .storageUnregister _⟩ | ⟨_, .shareStorage _ _⟩
  | ⟨_, .setStatus _⟩ => .isTrue trivial

section Counting

variable {layout : Layout} {cost : ℕ} {c c' : Contract}
  {call : Call}

theorem Contract.Balanced.accounted (h : c.Balanced layout) (hpaid : c.Paid (layout.host cost)) :
    c.Accounted layout cost := by
  intro id pool hpool
  have hused := h.used id
  have hshared := h.shared id
  have hpaid : _ ≤ _ / cost := hpaid.paid id
  rw [if_pos (mem_pools_of_lookup hpool)] at hused
  rw [poolAt_of_lookup hpool] at hused hshared hpaid
  exact ⟨hshared, hused, hpaid⟩

/-- The pool of a deposit has available what it uses, if the deposit counts. -/
theorem DepositCounts.available (h : DepositCounts layout cost c call) :
    ∀ pool ∈ call.method.depositedPool (layout.host cost) call.env c,
      pool.usedBytes ≤ pool.storageBalance / cost % 2 ^ 64 := by
  intro pool hpool
  obtain ⟨env, method⟩ := call
  cases method with
  | sharedStoragePoolDeposit ownerId =>
    cases hpool
    have hcounts : _ + _ ≤ _ := h
    show _ + (layout.usage _ - layout.usage c) ≤ _
    rw [layout.usage_setPool, Nat.add_sub_cancel_left]
    exact hcounts
  | _ => cases hpool

/-- A deposit counts if its pool has available afterwards what it uses. -/
theorem depositCounts_of_available (hstep : (system (layout.host cost)).step c call = .ok c')
    (h : c'.Available (layout.host cost)) : DepositCounts layout cost c call := by
  obtain ⟨env, method⟩ := call
  obtain ⟨transfers, hcall⟩ := step_eq_ok.mp hstep
  simp only [Contract.call, bind_eq_ok, ensure_eq_ok] at hcall
  obtain ⟨_, -, _, -, hcall⟩ := hcall
  cases method with
  | sharedStoragePoolDeposit ownerId =>
    simp only [bind_eq_ok, pure_eq_ok, Prod.mk.injEq] at hcall
    obtain ⟨c₂, hdeposit, rfl, -⟩ := hcall
    obtain ⟨-, pool, pool₁, pool', c₃, hpool, hpool₁, rfl, hpool', rfl⟩ :=
      pooled_of_sharedStoragePoolDeposit hdeposit
    have hused := h (ownerId.getD env.predecessorAccountId)
    simp only [Contract.internalSetSharedStoragePool, AList.insert_insert, poolAt_insert_self]
      at hused
    have hrecord := usedBytes_of_deposit hpool'
    have hbalance : pool'.storageBalance = saturatingAdd pool.storageBalance env.attachedDeposit := by
      rw [hpool', hpool₁]
    rw [hrecord, hbalance, hpool] at hused
    exact hused
  | _ => trivial

/-- What a contract whose pools have available what they use keeps. -/
structure Contract.CountsPools (layout : Layout) (cost : ℕ) (c : Contract) : Prop where
  sound : c.Sound
  covered : c.Covered (layout.host cost)
  balanced : c.Balanced layout
  available : c.Available (layout.host cost)

theorem countsPools_new (layout : Layout) (cost : ℕ) (start : Env) :
    (Contract.new start).CountsPools layout cost := by
  refine ⟨Contract.sound_new start, ?_, Contract.balanced_new layout start, ?_⟩
  · rintro n a ⟨⟩
  · exact fun _ => Nat.zero_le _

theorem keeps_countsPools (layout : Layout) (cost : ℕ) :
    Keeps (· = SUBTRACT_OVERFLOW) (layout.host cost) (fun _ => True)
      (fun pool => pool.usedBytes ≤ pool.storageBalance / (layout.host cost).storageByteCost % 2 ^ 64)
      (Contract.CountsPools layout cost) := by
  refine ⟨?_, ?_, ?_, ?_⟩
  · rintro msg rfl
    exact List.mem_cons_self ..
  · intro c h
    refine ⟨h.sound, fun _ => h.covered, fun _ => h.available, fun _ n a s => h.balanced.shares, ?_, ?_⟩
    · exact fun hmsg => absurd hmsg (by decide)
    · exact fun hmsg => absurd hmsg (by decide)
  · intro env c c' deposit transfers hmove h
    exact ⟨hmove.sound h.sound, hmove.covered h.covered, hmove.balanced h.balanced h.sound,
      hmove.available h.available⟩
  · exact fun hmsg => absurd hmsg (by decide)

theorem Contract.CountsPools.countable (h : c.CountsPools layout cost) :
    c.Countable (layout.host cost) := by
  refine ⟨?_, ?_⟩
  · intro id pool hpool
    have hle := h.available id
    rw [poolAt_of_lookup hpool] at hle
    exact ⟨_, checkedSub_eq_ok.mpr ⟨hle, rfl⟩⟩
  · intro env method herror
    exact call_avoids (keeps_countsPools layout cost) h (fun _ _ => trivial) _ herror rfl

theorem Contract.Countable.all_available (h : c.Countable (layout.host cost)) :
    c.Available (layout.host cost) := by
  intro id
  cases hlookup : c.sharedStoragePools.lookup id with
  | none => simp [poolAt, hlookup, SharedStoragePool.new]
  | some pool =>
    obtain ⟨m, hm⟩ := h.available id pool hlookup
    rw [poolAt_of_lookup hlookup]
    exact (checkedSub_eq_ok.mp hm).1

end Counting

/-! ## Runs -/

section Runs

variable {layout : Layout} {cost : ℕ} {start : Env} {calls : List Call}

theorem accounted_run (hcost : 0 < cost)
    (hmin : ∀ id, layout.pool id * cost ≤ MINIMUM_SHARED_STORAGE_BALANCE) :
    ((system (layout.host cost)).run (.new start) calls).Accounted layout cost := by
  have h : ((system (layout.host cost)).run (.new start) calls).Balanced layout ∧
      ((system (layout.host cost)).run (.new start) calls).Paid (layout.host cost) := by
    refine (Machine.run_invariant (M := system (layout.host cost))
      (I := fun c => c.Sound ∧ c.Balanced layout ∧ c.Paid (layout.host cost)) (G := fun _ _ => True) ?_
      (fun _ _ => trivial) ⟨Contract.sound_new start, Contract.balanced_new layout start,
        Contract.paid_new _ start⟩).2
    rintro c call c' ⟨hsound, hbalanced, hpaid⟩ - hstep
    obtain ⟨transfers, hmoves⟩ := moves_of_step (L := fun _ => True) (P := fun _ => True) hsound
      (fun _ _ => trivial) (fun _ _ => trivial) hstep
    exact ⟨hmoves.sound hsound, hmoves.balanced hbalanced hsound, hmoves.paid hcost hmin hpaid⟩
  exact h.1.accounted h.2

/-- The pools of a run whose deposits count have available what they use. -/
theorem countable_run (h : ∀ x ∈ (system (layout.host cost)).steps (.new start) calls,
    DepositCounts layout cost x.before x.label) :
    ((system (layout.host cost)).run (.new start) calls).Countable (layout.host cost) := by
  refine Contract.CountsPools.countable ?_
  refine Machine.run_invariant (M := system (layout.host cost)) (G := DepositCounts layout cost) ?_ h
    (countsPools_new layout cost start)
  intro c call c' hc hcounts hstep
  obtain ⟨transfers, hmoves⟩ := moves_of_step hc.sound (fun _ _ => trivial) hcounts.available hstep
  exact (keeps_countsPools layout cost).moves hmoves hc

end Runs

theorem sampleLayout_pool_le (id : AccountId) :
    sampleLayout.pool id * 10 ^ 19 ≤ MINIMUM_SHARED_STORAGE_BALANCE := by
  show 100 * 10 ^ 19 ≤ MINIMUM_SHARED_STORAGE_BALANCE
  decide

/-- An account makes a deposit to its pool. -/
def samplePoolDeposit (deposit : ℕ) (h : deposit ≤ u128Max) : Call where
  env := sampleEnv "alice" deposit h
  method := .sharedStoragePoolDeposit none

/-- A pool of ten million bytes, of which another account gets some. -/
def samplePoolCalls : List Call :=
  [sampleLive, samplePoolDeposit (10 ^ 26) (by decide),
    ⟨sampleEnv "alice" 0 (Nat.zero_le _), .shareStorage "bob" 2000⟩]

/-- **Shared pools.** In every contract that calls lead to, the pools agree with their accounts and
use no more than they pay for. They tell what they have available, and no call falls below zero, for
as long as every deposit leaves its pool the bytes that are in use from it. -/
theorem pools_run (layout : Layout) (cost : ℕ) (hcost : 0 < cost)
    (hmin : ∀ id, layout.pool id * cost ≤ MINIMUM_SHARED_STORAGE_BALANCE) (start : Env)
    (calls : List Call) :
    ((system (layout.host cost)).run (.new start) calls).Accounted layout cost ∧
      ((∀ ls, ls <+: calls →
        ((system (layout.host cost)).run (.new start) ls).Countable (layout.host cost)) ↔
          ∀ x ∈ (system (layout.host cost)).steps (.new start) calls,
            DepositCounts layout cost x.before x.label) := by
  refine ⟨accounted_run hcost hmin, ?_, ?_⟩
  · intro h x hx
    obtain ⟨pre, post, rfl, hbefore, hstep⟩ := Machine.mem_steps_iff.mp hx
    refine depositCounts_of_available hstep (Contract.Countable.all_available ?_)
    have hafter := h (pre ++ [x.label]) ⟨post, by simp⟩
    rw [Machine.run_append, ← hbefore, Machine.run_cons, Machine.exec_of_ok hstep] at hafter
    exact hafter
  · intro h ls hls
    exact countable_run (Machine.guard_of_prefix hls h)

theorem pools_run_samplePoolCalls :
    (0 < 10 ^ 19 ∧ ∀ id, sampleLayout.pool id * 10 ^ 19 ≤ MINIMUM_SHARED_STORAGE_BALANCE) ∧
      ((system (sampleLayout.host (10 ^ 19))).run (.new (sampleEnv "social" 0 (by decide)))
        samplePoolCalls).Accounted sampleLayout (10 ^ 19) ∧
      ∀ ls, ls <+: samplePoolCalls → ((system (sampleLayout.host (10 ^ 19))).run
        (.new (sampleEnv "social" 0 (by decide))) ls).Countable (sampleLayout.host (10 ^ 19)) := by
  have hpools := pools_run sampleLayout (10 ^ 19) (by decide) sampleLayout_pool_le
    (sampleEnv "social" 0 (by decide)) samplePoolCalls
  exact ⟨⟨by decide, sampleLayout_pool_le⟩, hpools.1, hpools.2.mpr (by decide +kernel)⟩

/-- A deposit for `2 ^ 64` bytes leaves a pool with none of them. -/
theorem not_pools_run :
    ¬ ∀ (layout : Layout) (cost : ℕ) (start : Env) (calls : List Call), 0 < cost →
      (∀ id, layout.pool id * cost ≤ MINIMUM_SHARED_STORAGE_BALANCE) →
      ((system (layout.host cost)).run (.new start) calls).Accounted layout cost ∧
        ((system (layout.host cost)).run (.new start) calls).Countable (layout.host cost) := by
  intro h
  have hcountable := (h sampleLayout (10 ^ 19) (sampleEnv "social" 0 (by decide))
    [samplePoolDeposit (2 ^ 64 * 10 ^ 19) (by decide)] (by decide) sampleLayout_pool_le).2
  obtain ⟨m, hm⟩ := hcountable.available "alice"
    { storageBalance := 2 ^ 64 * 10 ^ 19, usedBytes := 100, sharedBytes := 0 } (by decide +kernel)
  exact absurd (checkedSub_eq_ok.mp hm).1 (by decide)

end UncContracts.Social
