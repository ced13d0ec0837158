import UncContracts.Social.Sharing

/-!
# Accounts from before shared storage

A record from before there was shared storage becomes an account of a byte more when it is loaded.
The balance stays, and was to grow by the price of the byte.

## Main definitions

* `AccountV0.Paid`: a record pays for the bytes that it has in use
* `AccountV0.StaysUsable`: the account of a record is covered and has available what the record had

## Main results

* `internalStorageWithdraw_isOk`: what is available can be withdrawn
* `staysUsable_iff`: the accounts that stay usable
-/

namespace UncContracts.Social

open Foundation

namespace AccountV0

/-- A record pays for the bytes that it has in use. -/
def Paid (host : Host) (v : AccountV0) : Prop := v.usedBytes * host.storageByteCost ≤ v.storageBalance

/-- What a record has available. -/
def available (host : Host) (v : AccountV0) : ℕ := v.storageBalance - v.usedBytes * host.storageByteCost

/-- The account of a record is covered and has available what the record had. No write that takes as
much storage as it releases fails, and no withdrawal of what was available. -/
def StaysUsable (host : Host) (v : AccountV0) : Prop :=
  ∃ account, (VAccount.v0 v).toAccount = .ok account ∧ account.assertStorageCovered host = .ok () ∧
    ∀ (c : Contract) (id : AccountId) (n : NodeId), c.rootNode.children.get id = some (.node n) →
      c.accounts.lookup n = some (.v0 v) →
      c.internalStorageBalanceOf host id =
        .ok (some { total := v.storageBalance, available := v.available host }) ∧
      (∀ bytes, ∃ r, c.internalSetAccount host { account with
        nodeId := n, storageTracker := { bytesAdded := bytes, bytesReleased := bytes } } = .ok r) ∧
      ∀ env amount, amount ≤ v.available host →
        ∃ r, c.internalStorageWithdraw host env id (some amount) = .ok r

end AccountV0

section Legacy

variable {host : Host} {env : Env} {c : Contract} {id : AccountId} {n : NodeId} {v : AccountV0}
  {account : Account}

/-- The account of a record has a byte more. -/
theorem toAccount_v0 : (VAccount.v0 v).toAccount = .ok account ↔ v.usedBytes + 1 ≤ u64Max ∧
    account = { storageBalance := v.storageBalance, usedBytes := v.usedBytes + 1, nodeId := 0,
                storageTracker := {}, sharedStorage := none } := by
  simp only [VAccount.toAccount, bind_eq_ok, checkedAdd_eq_ok, pure_eq_ok]
  constructor
  · rintro ⟨_, ⟨hle, rfl⟩, rfl⟩
    exact ⟨hle, rfl⟩
  · rintro ⟨hle, rfl⟩
    exact ⟨_, ⟨hle, rfl⟩, rfl⟩

theorem internalGetAccount_v0 (hn : c.rootNode.children.get id = some (.node n))
    (hr : c.accounts.lookup n = some (.v0 v)) (hle : v.usedBytes + 1 ≤ u64Max) :
    c.internalGetAccount id = .ok (some {
      storageBalance := v.storageBalance, usedBytes := v.usedBytes + 1, nodeId := n
      storageTracker := {}, sharedStorage := none }) :=
  internalGetAccount_eq_some.mpr
    ⟨n, hn, accountAt_eq_ok.mpr ⟨_, _, hr, toAccount_v0.mpr ⟨hle, rfl⟩, rfl⟩⟩

/-- What an account has available, beside the bytes that it pays for itself. -/
theorem internalStorageBalanceOf_eq (hget : c.internalGetAccount id = .ok (some account))
    (hshared : account.sharedUsedBytes ≤ account.usedBytes) :
    c.internalStorageBalanceOf host id = .ok (some {
      total := account.storageBalance
      available := account.storageBalance -
        saturatingMul (account.usedBytes - account.sharedUsedBytes) host.storageByteCost }) := by
  have hown : account.ownBytes = .ok (account.usedBytes - account.sharedUsedBytes) :=
    checkedSub_eq_ok.mpr ⟨hshared, rfl⟩
  rw [Contract.internalStorageBalanceOf, hget, ok_bind]
  simp only [hown, ok_bind]
  rfl

/-- An account that is saved is read back. -/
theorem internalGetAccount_saved (account' : Account)
    (hget : c.internalGetAccount id = .ok (some account)) (hnode : account'.nodeId = account.nodeId)
    (htracker : account'.storageTracker = {}) :
    ({ c with accounts := c.accounts.insert account'.nodeId account'.stored } :
      Contract).internalGetAccount id = .ok (some account') := by
  obtain ⟨m, hm, hat⟩ := internalGetAccount_eq_some.mp hget
  obtain ⟨r, a, -, -, rfl⟩ := accountAt_eq_ok.mp hat
  obtain rfl : account'.nodeId = m := hnode
  refine internalGetAccount_eq_some.mpr ⟨_, hm, ?_⟩
  rw [accountAt_of_stored (AList.lookup_insert _), ← htracker]

/-- **Withdrawals.** What an account has available can be withdrawn. -/
theorem internalStorageWithdraw_isOk (hget : c.internalGetAccount id = .ok (some account))
    (htracker : account.storageTracker = {}) (hshared : account.sharedUsedBytes ≤ account.usedBytes)
    {amount : ℕ} (hamount : amount ≤ account.storageBalance -
      saturatingMul (account.usedBytes - account.sharedUsedBytes) host.storageByteCost) :
    ∃ r, c.internalStorageWithdraw host env id (some amount) = .ok r := by
  have hbalance : c.internalStorageBalanceOf host id = .ok (some _) :=
    internalStorageBalanceOf_eq hget hshared
  rw [Contract.internalStorageWithdraw, hbalance, ok_bind]
  simp only [Option.getD_some, exists_bind_eq_ok, ensure_eq_ok]
  refine ⟨(), hamount, ?_⟩
  split
  · have hsaved := internalGetAccount_saved
      { account with storageBalance := account.storageBalance - amount } hget rfl htracker
    simp only [exists_bind_eq_ok]
    exact ⟨_, internalUnwrapAccount_eq_ok.mpr hget, _, internalSetAccount_idle htracker, _,
      internalStorageBalanceOf_eq hsaved hshared, _, rfl, _, rfl⟩
  · rw [exists_bind_eq_ok]
    exact ⟨_, rfl, _, rfl⟩

/-- As much storage is released as is added. -/
theorem internalSetAccount_neutral {bytes : ℕ}
    (htracker : account.storageTracker = { bytesAdded := bytes, bytesReleased := bytes }) :
    ∃ r, c.internalSetAccount host account = .ok r := by
  have hrest : account.storageTracker.initialStorageUsage = none := by rw [htracker]
  rw [internalSetAccount_isOk hrest, Contract.settle, htracker]
  simp only [lt_irrefl, if_false]
  exact ⟨_, rfl⟩

end Legacy

/-- A contract with an account from before shared storage. -/
def sampleLegacy (v : AccountV0) : Contract where
  accounts := (∅ : Map NodeId VAccount).insert 1 (.v0 v)
  permissions := ∅
  rootNode := { nodeId := 0, blockHeight := 0, children := UnorderedMap.empty.insert "alice" (.node 1) }
  nodes := (∅ : Map NodeId Node).insert 1 { nodeId := 0, blockHeight := 0, children := .empty }
  nodeCount := 2
  status := .live
  sharedStoragePools := ∅

/-- **Accounts from before shared storage** stay usable if there is room for a byte more, and the byte
has no price: the bytes cost nothing, or are priced at the largest amount already. -/
theorem staysUsable_iff (host : Host) (v : AccountV0) (hbalance : v.storageBalance ≤ u128Max)
    (hpaid : v.Paid host) :
    v.StaysUsable host ↔ v.usedBytes < u64Max ∧
      (host.storageByteCost = 0 ∨ v.usedBytes * host.storageByteCost = u128Max) := by
  have hprice : (v.usedBytes + 1) * host.storageByteCost =
      v.usedBytes * host.storageByteCost + host.storageByteCost := Nat.succ_mul _ _
  unfold AccountV0.Paid at hpaid
  constructor
  · rintro ⟨account, haccount, hcovered, h⟩
    obtain ⟨hle, rfl⟩ := toAccount_v0.mp haccount
    refine ⟨hle, ?_⟩
    obtain ⟨-, hcovered⟩ := assertStorageCovered_eq_ok.mp hcovered
    obtain ⟨hbalanceOf, -⟩ := h (sampleLegacy v) "alice" 1 rfl rfl
    rw [internalStorageBalanceOf_eq (internalGetAccount_v0 rfl rfl hle) (Nat.zero_le _)] at hbalanceOf
    simp only [Except.ok.injEq, Option.some.injEq, StorageBalance.mk.injEq, true_and] at hbalanceOf
    have hsame : v.storageBalance - saturatingMul (v.usedBytes + 1) host.storageByteCost =
      v.storageBalance - v.usedBytes * host.storageByteCost := hbalanceOf
    have hle' : saturatingMul (v.usedBytes + 1) host.storageByteCost ≤ v.storageBalance := hcovered
    rw [saturatingMul, hprice] at hsame hle'
    omega
  · rintro ⟨hlt, hfree⟩
    have hsame : saturatingMul (v.usedBytes + 1) host.storageByteCost =
        v.usedBytes * host.storageByteCost := by
      rw [saturatingMul, hprice]
      omega
    refine ⟨_, toAccount_v0.mpr ⟨hlt, rfl⟩, ?_, ?_⟩
    · exact assertStorageCovered_eq_ok.mpr ⟨Nat.zero_le _, hsame.trans_le hpaid⟩
    · intro c id n hn hr
      have hget := internalGetAccount_v0 hn hr hlt
      have havailable : v.storageBalance - saturatingMul (v.usedBytes + 1) host.storageByteCost =
          v.available host := by
        rw [hsame, AccountV0.available]
      refine ⟨?_, ?_, ?_⟩
      · rw [internalStorageBalanceOf_eq hget (Nat.zero_le _), ← havailable]
        rfl
      · exact fun bytes => internalSetAccount_neutral rfl
      · intro env amount hamount
        exact internalStorageWithdraw_isOk hget rfl (Nat.zero_le _) (havailable ▸ hamount)

/-- A record that pays for a hundred bytes, and has nothing available. -/
def sampleAccountV0 : AccountV0 := { storageBalance := 100 * 10 ^ 19, usedBytes := 100 }

theorem staysUsable_iff_sampleAccountV0 :
    ¬ sampleAccountV0.StaysUsable ⟨fun _ => 0, 10 ^ 19⟩ :=
  mt (staysUsable_iff ⟨fun _ => 0, 10 ^ 19⟩ sampleAccountV0 (by decide)
    (show 100 * 10 ^ 19 ≤ 100 * 10 ^ 19 from le_rfl)).mp (by decide)

/-- The account of the record does not pay for its last byte. -/
theorem not_staysUsable :
    ¬ ∀ (host : Host) (v : AccountV0), v.usedBytes ≤ u64Max → v.storageBalance ≤ u128Max →
      v.Paid host → v.StaysUsable host := by
  intro h
  obtain ⟨account, haccount, hcovered, -⟩ := h ⟨fun _ => 0, 10 ^ 19⟩ sampleAccountV0 (by decide) (by decide)
    (show 100 * 10 ^ 19 ≤ 100 * 10 ^ 19 from le_rfl)
  obtain ⟨-, rfl⟩ := toAccount_v0.mp haccount
  have hprice := (assertStorageCovered_eq_ok.mp hcovered).2
  exact absurd hprice (by decide)

end UncContracts.Social
