import UncContracts.Social.Deposits
import UncContracts.Social.Sharing
import UncContracts.Social.Views

/-!
# Registration

An account is registered with the least balance, which is zero, and what else is attached goes back
to the caller. The node, the key and the record of the account are written in the window of its
tracker, and saving it asks for a balance that pays for the bytes that were measured.

## Main definitions

* `Host.Charges`: a host charges for a new account
* `Contract.Registers`: a registration succeeds at the least balance

## Main results

* `registers_iff`: a registration succeeds only if nothing is measured
* `registration_run`: with a host that charges, no registration succeeds
-/

namespace UncContracts.Social

open Foundation

/-- The contract and its host when the window of a new account has been written. -/
def Contract.registered (env : Env) (c : Contract) (id : AccountId) : Contract :=
  ({ c with nodeCount := c.nodeCount + 1 } : Contract).opened env id (Account.new c.nodeCount)

/-- The host charges for the node, the key and the record of a new account. -/
def Host.Charges (host : Host) : Prop :=
  ∀ (env : Env) (c : Contract) (id : AccountId), c.rootNode.children.get id = none →
    c.accounts.lookup c.nodeCount = none → c.nodes.lookup c.nodeCount = none →
    host.storageUsage { c with nodeCount := c.nodeCount + 1 } < host.storageUsage (c.registered env id)

/-- A registration succeeds. The account that is registered is covered, it keeps the least balance,
and the rest goes back to the caller. -/
def Contract.Registers (host : Host) (env : Env) (c : Contract) (id : AccountId) : Prop :=
  ∃ c' transfers balance account,
    c.storageDeposit host env (some id) (some true) = .ok (c', transfers, balance) ∧
    c'.internalGetAccount id = .ok (some account) ∧
    account.assertStorageCovered host = .ok () ∧
    account.storageBalance = storageBalanceBounds.min ∧
    (∀ t ∈ transfers, t.receiverId = env.predecessorAccountId) ∧
    transferred transfers = env.attachedDeposit - storageBalanceBounds.min

section Registering

variable {host : Host} {env : Env} {c : Contract} {id : AccountId}

/-- An account without a balance is saved only if its tracker has seen no change. -/
theorem settle_new_isOk (hcost : 0 < host.storageByteCost) {n : NodeId} {added released : ℕ}
    (hone : added = 0 ∨ released = 0) :
    (∃ r, c.settle host { Account.new n with storageTracker :=
      { bytesAdded := added, bytesReleased := released } } = .ok r) ↔ added = 0 ∧ released = 0 := by
  constructor
  · rintro ⟨r, h⟩
    unfold Contract.settle at h
    dsimp only at h
    split at h
    · next hlt =>
      obtain rfl : released = 0 := by omega
      simp only [bind_eq_ok, checkedAdd_eq_ok, Contract.chargePool, Account.new] at h
      obtain ⟨_, ⟨-, rfl⟩, _, ⟨⟩, _, hcovered, -⟩ := h
      have hprice := (assertStorageCovered_eq_ok.mp hcovered).2
      simp only [saturatingMul, Account.sharedUsedBytes, Option.map_none, Option.getD_none,
        Nat.zero_add, Nat.sub_zero, Nat.le_zero, Nat.min_eq_zero_iff, Nat.mul_eq_zero] at hprice
      rcases hprice with (hadded | hzero) | hmax
      · exact absurd hadded hlt.ne'
      · exact absurd hzero hcost.ne'
      · cases hmax
    · next hle =>
      split at h
      · next hlt =>
        simp only [bind_eq_ok, ensure_eq_ok] at h
        obtain ⟨_, hused, -⟩ := h
        have hnone : released - added ≤ 0 := hused
        omega
      · next hge =>
        omega
  · rintro ⟨rfl, rfl⟩
    exact ⟨_, rfl⟩

/-- A new account without a balance is saved as it is if its tracker has seen no change. -/
theorem internalInitialSetAccount_of_same {n : NodeId} (hrecord : c.accounts.lookup n = none)
    (husage : host.storageUsage (c.opened env id (Account.new n)) = host.storageUsage c) :
    c.internalInitialSetAccount host env id (Account.new n) = .ok (c.opened env id (Account.new n)) := by
  have hstop : ({ initialStorageUsage := some (host.storageUsage c) } : StorageTracker).stop
      (host.storageUsage (c.opened env id (Account.new n))) = .ok {} := by
    rw [husage, StorageTracker.stop_eq_ok, Nat.sub_self]
    exact ⟨⟨Nat.zero_le _, Nat.zero_le _⟩, rfl⟩
  have hsave : (c.opened env id (Account.new n)).internalSetAccount host (Account.new n) =
      .ok (c.opened env id (Account.new n), true) := by
    rw [internalSetAccount_idle rfl]
    simp [Contract.opened, Account.new]
  simp only [Contract.internalInitialSetAccount, bind_eq_ok, ensure_eq_ok, pure_eq_ok]
  refine ⟨_, StorageTracker.start_empty _, _, rfl, _, internalSetAccount_idle rfl, (), ?_, {}, hstop,
    _, hsave, rfl⟩
  simp [Contract.internalSetNode, Account.new, hrecord]

/-- **Registration.** A registration succeeds only if there is a node id left, and the host measures
no change. -/
theorem registers_iff (hcost : 0 < host.storageByteCost) (hlive : c.status = .live)
    (hid : c.internalGetAccount id = .ok none) (hrecord : c.accounts.lookup c.nodeCount = none) :
    c.Registers host env id ↔ c.nodeCount + 1 ≤ u32Max ∧ host.storageUsage (c.registered env id) =
      host.storageUsage { c with nodeCount := c.nodeCount + 1 } := by
  have hnew := internalGetAccount_eq_none.mp hid
  constructor
  · -- The balance stays zero, so that no byte can be paid for.
    rintro ⟨c', transfers, balance, account, hdeposit, -⟩
    simp only [Contract.storageDeposit, bind_eq_ok, ensure_eq_ok, Option.getD_some, hid,
      Except.ok.injEq, exists_eq_left', Contract.internalCreateAccount] at hdeposit
    obtain ⟨_, -, ⟨c₁, transfers₁⟩, ⟨_, -, ⟨c₂, n⟩, hcreate, c₃, hset, -⟩, -⟩ := hdeposit
    obtain ⟨hcount, rfl, rfl⟩ := createNodeId_eq_ok.mp hcreate
    obtain ⟨-, -, hsave⟩ := (internalInitialSetAccount_isOk rfl).mp ⟨c₃, hset⟩
    obtain ⟨hadded, hreleased⟩ := (settle_new_isOk hcost (by omega)).mp
      ((internalSetAccount_isOk rfl).mp hsave)
    refine ⟨hcount, ?_⟩
    exact Nat.le_antisymm (Nat.le_of_sub_eq_zero hadded) (Nat.le_of_sub_eq_zero hreleased)
  · rintro ⟨hcount, husage⟩
    have hcreate : c.createNodeId = .ok ({ c with nodeCount := c.nodeCount + 1 }, c.nodeCount) :=
      createNodeId_eq_ok.mpr ⟨hcount, rfl, rfl⟩
    have hget : (c.registered env id).internalGetAccount id =
        .ok (some (Account.new c.nodeCount)) := by
      rw [internalGetAccount_eq_some]
      refine ⟨_, UnorderedMap.get_insert_self, ?_⟩
      exact accountAt_of_stored (a := Account.new c.nodeCount) (AList.lookup_insert _)
    have hbalance : (c.registered env id).internalStorageBalanceOf host id =
        .ok (some { total := 0, available := 0 }) := by
      rw [Contract.internalStorageBalanceOf, hget, ok_bind]
      simp [Account.ownBytes, Account.new, checkedSub]
    have hcovered : (Account.new c.nodeCount).assertStorageCovered host = .ok () := by
      simp [assertStorageCovered_eq_ok, Account.new, Account.sharedUsedBytes, saturatingMul]
    refine ⟨c.registered env id, if 0 < env.attachedDeposit then
      [⟨env.predecessorAccountId, env.attachedDeposit⟩] else [], { total := 0, available := 0 }, _, ?_,
      hget, hcovered, rfl, ?_, ?_⟩
    · simp only [Contract.storageDeposit, Contract.assertLive, bind_eq_ok, ensure_eq_ok,
        Option.getD_some, hid, Except.ok.injEq, exists_eq_left', Contract.internalCreateAccount, hcreate,
        pure_eq_ok, Prod.mk.injEq, expect_eq_ok]
      refine ⟨(), hlive, _, ⟨(), Nat.zero_le _, _, internalInitialSetAccount_of_same hrecord husage, rfl⟩,
        _, hbalance, _, rfl, rfl, ?_, rfl⟩
      simp
    · intro t ht
      split at ht
      · rw [List.mem_singleton.mp ht]
      · cases ht
    · split
      · rfl
      · next hzero => rw [Nat.eq_zero_of_not_pos hzero, Nat.zero_sub, transferred, List.map_nil, List.sum_nil]

end Registering

/-- A host that charges for records charges for a new account, if any of its records takes bytes. -/
theorem Layout.charges (layout : Layout) (cost : ℕ) (hbytes : 0 < layout.node) :
    (layout.host cost).Charges := by
  intro env c id hnew hrecord hnode
  have husage := layout.usage_opened { c with nodeCount := c.nodeCount + 1 } env (Account.new c.nodeCount)
    hnew
  rw [Account.new, Map.amount_of_lookup_none hrecord, Map.amount_of_lookup_none hnode] at husage
  show layout.usage _ < layout.usage _
  simp only [Contract.registered, Account.new]
  omega

/-- **No registration succeeds** with a host that charges for a new account. Without such a host, one
succeeds if there is a node id left and nothing is measured. -/
theorem registration_run (host : Host) (start env : Env) (calls : List Call) (id : AccountId)
    (hcost : 0 < host.storageByteCost)
    (hlive : ((system host).run (.new start) calls).status = .live)
    (hnew : ((system host).run (.new start) calls).internalGetAccount id = .ok none) :
    let c := (system host).run (.new start) calls
    (c.Registers host env id ↔ c.nodeCount + 1 ≤ u32Max ∧ host.storageUsage (c.registered env id) =
        host.storageUsage { c with nodeCount := c.nodeCount + 1 }) ∧
      (host.Charges → ¬ c.Registers host env id) := by
  intro c
  have hsound := (sound_covered_run host start calls).1
  have hiff : c.Registers host env id ↔ _ :=
    registers_iff hcost hlive hnew hsound.lookup_nodeCount
  refine ⟨hiff, ?_⟩
  intro hcharges hregisters
  have hnode : c.nodes.lookup c.nodeCount = none := by
    rw [AList.lookup_eq_none, hsound.mem_nodes]
    exact fun h => lt_irrefl _ h.2
  have hlt := hcharges env c id (internalGetAccount_eq_none.mp hnew) hsound.lookup_nodeCount hnode
  exact hlt.ne' (hiff.mp hregisters).2


/-- An account is to be registered by another one, which attaches a deposit. -/
def sampleRegistration : Env := sampleEnv "bob" (10 ^ 23) sampleDeposit_le

theorem registration_run_sampleRegistration :
    ¬ ((system (sampleLayout.host (10 ^ 19))).run (.new (sampleEnv "social" 0 (Nat.zero_le _)))
      [sampleLive]).Registers (sampleLayout.host (10 ^ 19)) sampleRegistration "alice" :=
  (registration_run (sampleLayout.host (10 ^ 19)) (sampleEnv "social" 0 (Nat.zero_le _))
    sampleRegistration [sampleLive] "alice" (by decide) (by decide +kernel)
      (internalGetAccount_eq_none.mpr (by decide +kernel))).2
    (sampleLayout.charges (10 ^ 19) (by decide))

/-- A deposit for ten thousand bytes is not enough for three hundred of them, as none of it is kept. -/
theorem not_registration_run :
    ¬ ∀ (host : Host) (start env : Env) (calls : List Call) (id : AccountId),
      0 < host.storageByteCost → ((system host).run (.new start) calls).status = .live →
      isValidAccountId id = true →
      ((system host).run (.new start) calls).internalGetAccount id = .ok none →
      storageBalanceBounds.min ≤ env.attachedDeposit →
      ((system host).run (.new start) calls).Registers host env id := by
  intro h
  have hregisters := h (sampleLayout.host (10 ^ 19)) (sampleEnv "social" 0 (Nat.zero_le _))
    sampleRegistration [sampleLive] "alice" (by decide) (by decide +kernel) (by decide)
    (internalGetAccount_eq_none.mpr (by decide +kernel)) (Nat.zero_le _)
  obtain ⟨c', transfers, balance, account, hdeposit, -⟩ := hregisters
  have herror : ((system (sampleLayout.host (10 ^ 19))).run (.new (sampleEnv "social" 0 (Nat.zero_le _)))
      [sampleLive]).storageDeposit (sampleLayout.host (10 ^ 19)) sampleRegistration (some "alice")
        (some true) = .error "Not enough storage balance" := by
    decide +kernel
  cases herror.symm.trans hdeposit

end UncContracts.Social
