import UncContracts.Social.Calls
import UncContracts.Social.Layout

/-!
# When pools take deposits and share their storage

A pool takes every deposit from the minimum on. It shares storage with an account as long as it has
the bytes available, and the account pays for its record, that takes more or less with the id of its
pool. The checks are read off here for a host that charges for records.

## Main definitions

* `SharedStoragePool.MayShare`: a pool may share bytes with an account
* `Account.Affords`: an account can be saved when its record changes

## Main results

* `sharedStoragePoolDeposit_isOk`: when a deposit to a pool is accepted
* `settle_isOk`: when the bytes that an account takes and releases are settled
* `shareStorage_isOk_some`, `shareStorage_isOk_none`: when a pool shares storage
-/

namespace UncContracts.Social

open Foundation

/-! ## Trackers -/

namespace StorageTracker

variable {t : StorageTracker} {u u' : ℕ}

theorem start_empty (u : ℕ) :
    ({} : StorageTracker).start u = .ok { initialStorageUsage := some u } := rfl

/-- What a tracker sees in a window has to fit in a word. -/
theorem stop_eq_ok : ({ initialStorageUsage := some u } : StorageTracker).stop u' = .ok t ↔
    (u' - u ≤ u64Max ∧ u - u' ≤ u64Max) ∧ t = { bytesAdded := u' - u, bytesReleased := u - u' } := by
  simp only [stop, bind_eq_ok, expect_eq_ok, Option.some.injEq, exists_eq_left']
  split
  · next hle =>
    simp only [bind_eq_ok, checkedAdd_eq_ok, Nat.zero_add, pure_eq_ok, Nat.sub_eq_zero_of_le hle]
    constructor
    · rintro ⟨_, ⟨hadd, rfl⟩, rfl⟩
      exact ⟨⟨hadd, Nat.zero_le _⟩, rfl⟩
    · rintro ⟨⟨hadd, -⟩, rfl⟩
      exact ⟨_, ⟨hadd, rfl⟩, rfl⟩
  · next hlt =>
    have hle := Nat.le_of_not_le hlt
    simp only [bind_eq_ok, checkedAdd_eq_ok, Nat.zero_add, pure_eq_ok, Nat.sub_eq_zero_of_le hle]
    constructor
    · rintro ⟨_, ⟨hrelease, rfl⟩, rfl⟩
      exact ⟨⟨Nat.zero_le _, hrelease⟩, rfl⟩
    · rintro ⟨⟨-, hrelease⟩, rfl⟩
      exact ⟨_, ⟨hrelease, rfl⟩, rfl⟩

/-- An empty tracker takes over what another one has seen. -/
theorem consume_eq_ok {added released : ℕ} {p : StorageTracker × StorageTracker} :
    ({} : StorageTracker).consume { bytesAdded := added, bytesReleased := released } = .ok p ↔
      added ≤ u64Max ∧ p = ({ bytesAdded := added, bytesReleased := released }, {}) := by
  simp only [consume, bind_eq_ok, checkedAdd_eq_ok, ensure_eq_ok, Nat.zero_add, pure_eq_ok]
  constructor
  · rintro ⟨_, ⟨hadded, rfl⟩, _, -, rfl⟩
    exact ⟨hadded, rfl⟩
  · rintro ⟨hadded, rfl⟩
    exact ⟨_, ⟨hadded, rfl⟩, (), trivial, rfl⟩

end StorageTracker

/-! ## Deposits to a pool -/

section Deposits

/-- A deposit to a pool is accepted from the minimum on. A new pool has its record in use. -/
theorem sharedStoragePoolDeposit_isOk (layout : Layout) (cost : ℕ) (env : Env) (c : Contract)
    (ownerId : Option AccountId) :
    (∃ c', c.sharedStoragePoolDeposit (layout.host cost) env ownerId = .ok c') ↔
      MINIMUM_SHARED_STORAGE_BALANCE ≤ env.attachedDeposit ∧
        (ownerId.getD env.predecessorAccountId ∉ c.sharedStoragePools →
          layout.pool (ownerId.getD env.predecessorAccountId) ≤ u64Max) := by
  simp only [Contract.sharedStoragePoolDeposit, exists_bind_eq_ok, ensure_eq_ok,
    StorageTracker.start_empty, Except.ok.injEq, exists_eq_left', Layout.host,
    StorageTracker.stop_eq_ok, Layout.usage_setPool]
  constructor
  · rintro ⟨_, hdeposit, _, ⟨⟨hadd, -⟩, -⟩, -⟩
    refine ⟨hdeposit, ?_⟩
    intro hnew
    rw [if_neg hnew] at hadd
    omega
  · rintro ⟨hdeposit, hnew⟩
    by_cases hmem : ownerId.getD env.predecessorAccountId ∈ c.sharedStoragePools
    · simp only [if_pos hmem, Nat.add_zero, Nat.sub_self]
      exact ⟨(), hdeposit, _, ⟨⟨Nat.zero_le _, Nat.zero_le _⟩, rfl⟩, _, rfl, _, rfl, (), rfl, _, rfl⟩
    · have hbytes := hnew hmem
      have hlookup := AList.lookup_eq_none.mpr hmem
      simp only [if_neg hmem, Nat.add_sub_cancel_left, hlookup, Option.getD_none]
      refine ⟨(), hdeposit, _, ⟨⟨hbytes, by omega⟩, rfl⟩, ?_⟩
      split
      · simp only [bind_eq_ok, Contract.internalUnwrapSharedStoragePool, expect_eq_ok,
          checkedAdd_eq_ok, pure_eq_ok]
        refine ⟨_, ⟨_, AList.lookup_insert _, _, ⟨?_, rfl⟩, rfl⟩, _, rfl, (), rfl, _, rfl⟩
        show 0 + (layout.pool _ - (layout.usage c - (layout.usage c + layout.pool _))) ≤ u64Max
        omega
      · exact ⟨_, rfl, _, rfl, (), rfl, _, rfl⟩

end Deposits

/-! ## Settling -/

section Settling

variable {host : Host} {c : Contract} {account : Account} {s : AccountSharedStorage}
  {pool : SharedStoragePool} {availableBytes n : ℕ}

/-- The bytes of a pool fit in a word. -/
theorem SharedStoragePool.le_of_available (h : pool.availableBytes host = .ok availableBytes) :
    pool.usedBytes + availableBytes ≤ u64Max := by
  rw [availableBytes_eq_ok.mp h]
  exact Nat.le_of_lt_succ (Nat.mod_lt _ (by decide))

/-- A pool that has the bytes gives an account what it may take yet. -/
theorem chargePool_of_available (account : Account) (hs : account.sharedStorage = some s)
    (hpool : c.sharedStoragePools.lookup s.poolId = some pool)
    (havailable : pool.availableBytes host = .ok availableBytes) (hused : s.usedBytes ≤ s.maxBytes)
    (hmax : s.maxBytes ≤ u64Max) (hbytes : s.maxBytes - s.usedBytes ≤ availableBytes) :
    ∃ c', c.chargePool host account n = .ok (c', { account with
      sharedStorage := some { s with usedBytes := s.usedBytes + min (s.maxBytes - s.usedBytes) n } }) := by
  have hword := SharedStoragePool.le_of_available havailable
  simp only [Contract.chargePool, hs, Contract.internalUnwrapSharedStoragePool, hpool,
    AccountSharedStorage.availableBytes, havailable, bind_eq_ok, expect_eq_ok, Option.some.injEq,
    checkedSub_eq_ok, pure_eq_ok, exists_eq_left', Except.ok.injEq, hused, true_and,
    Nat.min_eq_left hbytes]
  split
  · simp only [bind_eq_ok, checkedAdd_eq_ok, pure_eq_ok, Prod.mk.injEq]
    exact ⟨_, _, ⟨by omega, rfl⟩, _, ⟨by omega, rfl⟩, rfl, rfl⟩
  · next hzero =>
    refine ⟨c, ?_⟩
    rw [Nat.eq_zero_of_not_pos hzero, Nat.add_zero, ← hs]
    rfl

/-- An account has in its pool what it gives back. -/
theorem releasePool_of_used (account : Account) (hs : account.sharedStorage = some s)
    (hpool : c.sharedStoragePools.lookup s.poolId = some pool) (hused : s.usedBytes ≤ pool.usedBytes) :
    ∃ r, c.releasePool account n = .ok r := by
  simp only [Contract.releasePool, hs, Contract.internalUnwrapSharedStoragePool, hpool]
  split
  · simp only [bind_eq_ok, expect_eq_ok, Option.some.injEq, exists_eq_left', ensure_eq_ok, pure_eq_ok]
    exact ⟨_, (), (Nat.min_le_left _ _).trans hused, rfl⟩
  · exact ⟨_, rfl⟩

/-- An account can be saved after its record, which took some bytes before, takes others: it has the
bytes that are released, and pays for those that it takes from no pool. -/
structure Account.Affords (host : Host) (account : Account) (s : AccountSharedStorage)
    (before after : ℕ) : Prop where
  released_le_max : before - after ≤ u64Max
  released_le_used : before - after ≤ account.usedBytes
  used_le_max : before < after → account.usedBytes + (after - before) ≤ u64Max
  shared_le_used : before < after → s.usedBytes + min (s.maxBytes - s.usedBytes) (after - before) ≤
    account.usedBytes + (after - before)
  covered : before < after → saturatingMul (account.usedBytes + (after - before) -
    (s.usedBytes + min (s.maxBytes - s.usedBytes) (after - before))) host.storageByteCost ≤
      account.storageBalance

/-- **Settling** the bytes that a record takes or releases. -/
theorem settle_isOk (account : Account) {before after : ℕ} (hs : account.sharedStorage = some s)
    (hpool : c.sharedStoragePools.lookup s.poolId = some pool)
    (havailable : pool.availableBytes host = .ok availableBytes) (hused : s.usedBytes ≤ s.maxBytes)
    (hmax : s.maxBytes ≤ u64Max) (hbytes : s.maxBytes - s.usedBytes ≤ availableBytes)
    (hreleased : after < before → s.usedBytes ≤ pool.usedBytes) (hword : before - after ≤ u64Max) :
    (∃ r, c.settle host { account with storageTracker :=
      { bytesAdded := after - before, bytesReleased := before - after } } = .ok r) ↔
      account.Affords host s before after := by
  simp only [Contract.settle]
  rcases Nat.lt_trichotomy before after with hlt | rfl | hlt
  · have hzero := Nat.sub_eq_zero_of_le hlt.le
    have hpos := Nat.sub_pos_of_lt hlt
    rw [hzero, if_pos hpos, Nat.sub_zero]
    simp only [exists_bind_eq_ok, checkedAdd_eq_ok]
    obtain ⟨c₁, hcharge⟩ := chargePool_of_available (c := c) (n := after - before)
      { account with
        usedBytes := account.usedBytes + (after - before)
        storageTracker := { bytesAdded := after - before, bytesReleased := 0 } } hs hpool
      havailable hused hmax hbytes
    constructor
    · rintro ⟨_, ⟨hle, rfl⟩, ⟨c₂, account₂⟩, hcharge₂, _, hcovered, -⟩
      cases hcharge.symm.trans hcharge₂
      have hpays := assertStorageCovered_eq_ok.mp hcovered
      exact ⟨hword, by omega, fun _ => hle, fun _ => hpays.1, fun _ => hpays.2⟩
    · intro h
      refine ⟨_, ⟨h.used_le_max hlt, rfl⟩, _, hcharge, (), ?_, _, rfl⟩
      exact assertStorageCovered_eq_ok.mpr ⟨h.shared_le_used hlt, h.covered hlt⟩
  · rw [if_neg (lt_irrefl _), if_neg (lt_irrefl _)]
    refine iff_of_true ⟨_, rfl⟩ ⟨hword, by omega, ?_, ?_, ?_⟩
    all_goals exact fun hlt => absurd hlt (lt_irrefl _)
  · have hzero := Nat.sub_eq_zero_of_le hlt.le
    have hpos := Nat.sub_pos_of_lt hlt
    have hnot := Nat.not_lt_of_le hlt.le
    rw [hzero, if_neg (Nat.not_lt_zero _), if_pos hpos, Nat.sub_zero]
    simp only [exists_bind_eq_ok, ensure_eq_ok]
    constructor
    · rintro ⟨_, hle, -⟩
      exact ⟨hword, hle, fun h => absurd h hnot, fun h => absurd h hnot, fun h => absurd h hnot⟩
    · intro h
      obtain ⟨r, hrelease⟩ := releasePool_of_used (c := c) (n := before - after)
        { account with storageTracker :=
          { bytesAdded := 0, bytesReleased := before - after } } hs hpool (hreleased hlt)
      exact ⟨(), h.released_le_used, r, hrelease, _, rfl⟩

/-- An account is saved if its tracker is settled and at rest. -/
theorem internalSetAccount_isOk (hrest : account.storageTracker.initialStorageUsage = none) :
    (∃ r, c.internalSetAccount host account = .ok r) ↔ ∃ r, c.settle host account = .ok r := by
  simp only [Contract.internalSetAccount, exists_bind_eq_ok]
  constructor
  · rintro ⟨r, hsettle, -⟩
    exact ⟨r, hsettle⟩
  · rintro ⟨⟨c₁, account₁⟩, hsettle⟩
    obtain ⟨-, haccount, -⟩ := settle_saves hsettle
    have hdrop : account₁.storageTracker.initialStorageUsage = none := by rw [haccount, hrest]
    refine ⟨_, hsettle, (), ?_, _, rfl⟩
    simp [StorageTracker.drop, StorageTracker.isEmpty, hdrop]

end Settling

/-! ## Shares -/

/-- A pool may share bytes with an account that has storage from a pool, or from none. -/
def SharedStoragePool.MayShare (host : Host) (pools : Map AccountId SharedStoragePool)
    (poolId : AccountId) (pool : SharedStoragePool) (maxBytes : ℕ) : Option AccountSharedStorage → Prop
  | none => pool.sharedBytes + maxBytes ≤ u64Max
  | some current => current.usedBytes ≤ maxBytes ∧
    if current.poolId = poolId then
      current.maxBytes < maxBytes ∧ pool.sharedBytes + (maxBytes - current.maxBytes) ≤ u64Max
    else ∃ currentPool availableBytes, pools.lookup current.poolId = some currentPool ∧
      current.availableBytes host currentPool = .ok availableBytes ∧
      current.usedBytes + availableBytes + MIN_STORAGE_BYTES ≤ maxBytes ∧
      current.usedBytes ≤ currentPool.usedBytes ∧ current.maxBytes ≤ currentPool.sharedBytes ∧
      pool.sharedBytes + maxBytes ≤ u64Max

section Shares

variable {host : Host} {c c₁ : Contract} {account : Account} {shared : AccountSharedStorage}
  {pool : SharedStoragePool} {poolId : AccountId} {maxBytes availableBytes : ℕ}
  {pools pools' : Map AccountId SharedStoragePool} {o : Option AccountSharedStorage}

theorem shareMore_isOk {current : AccountSharedStorage}
    (havailable : pool.availableBytes host = .ok availableBytes) (hmax : maxBytes ≤ availableBytes) :
    (∃ r, c.shareMore host poolId pool current maxBytes = .ok r) ↔
      pool.MayShare host c.sharedStoragePools poolId maxBytes (some current) := by
  have hword := SharedStoragePool.le_of_available havailable
  simp only [Contract.shareMore, SharedStoragePool.MayShare, exists_bind_eq_ok, ensure_eq_ok]
  split
  · simp only [exists_bind_eq_ok, ensure_eq_ok, checkedSub_eq_ok, checkedAdd_eq_ok]
    constructor
    · rintro ⟨_, hused, _, hlt, _, ⟨-, rfl⟩, _, ⟨hfits, -⟩, -⟩
      exact ⟨hused, hlt, hfits⟩
    · rintro ⟨hused, hlt, hfits⟩
      exact ⟨(), hused, (), hlt, _, ⟨hlt.le, rfl⟩, _, ⟨hfits, rfl⟩, _, rfl⟩
  · have hnew : ({ maxBytes, usedBytes := 0, poolId } : AccountSharedStorage).availableBytes host pool =
        .ok maxBytes := by
      simp [AccountSharedStorage.availableBytes, havailable, checkedSub, Nat.min_eq_left hmax]
    simp only [exists_bind_eq_ok, ensure_eq_ok, checkedSub_eq_ok, checkedAdd_eq_ok, hnew,
      Contract.internalUnwrapSharedStoragePool, expect_eq_ok, Except.ok.injEq, exists_eq_left']
    constructor
    · rintro ⟨_, hused, currentPool, hcurrent, _, hbytes, _, ⟨-, rfl⟩, _, ⟨-, rfl⟩, _, hneeded, _,
        ⟨hpoolUsed, -⟩, _, ⟨hpoolShared, -⟩, _, -, _, ⟨hfits, -⟩, -⟩
      exact ⟨hused, currentPool, _, hcurrent, hbytes, hneeded, hpoolUsed, hpoolShared, hfits⟩
    · rintro ⟨hused, currentPool, _, hcurrent, hbytes, hneeded, hpoolUsed, hpoolShared, hfits⟩
      exact ⟨(), hused, currentPool, hcurrent, _, hbytes, _, ⟨by omega, rfl⟩, _, ⟨by omega, rfl⟩, (),
        hneeded, _, ⟨hpoolUsed, rfl⟩, _, ⟨hpoolShared, rfl⟩, _, ⟨by omega, rfl⟩, _, ⟨hfits, rfl⟩, _,
        rfl⟩

theorem share_isOk (havailable : pool.availableBytes host = .ok availableBytes)
    (hmax : maxBytes ≤ availableBytes) :
    (∃ r, (match account.sharedStorage with
      | some current => c.shareMore host poolId pool current maxBytes
      | none => do
        let sharedBytes ← checkedAdd u64Max pool.sharedBytes maxBytes
        pure (c.internalSetSharedStoragePool poolId { pool with sharedBytes },
          { maxBytes, usedBytes := 0, poolId })
      : Exec (Contract × AccountSharedStorage)) = .ok r) ↔
      pool.MayShare host c.sharedStoragePools poolId maxBytes account.sharedStorage := by
  split
  · next current hcurrent =>
    rw [hcurrent]
    exact shareMore_isOk havailable hmax
  · next hnone =>
    simp only [hnone, SharedStoragePool.MayShare, exists_bind_eq_ok, checkedAdd_eq_ok]
    constructor
    · rintro ⟨_, ⟨hfits, -⟩, -⟩
      exact hfits
    · intro hfits
      exact ⟨_, ⟨hfits, rfl⟩, _, rfl⟩

/-- The bytes in use stay when storage is shared with an account, and are those that it had. -/
theorem shared_of_share (h : (match account.sharedStorage with
      | some current => c.shareMore host poolId pool current maxBytes
      | none => do
        let sharedBytes ← checkedAdd u64Max pool.sharedBytes maxBytes
        pure (c.internalSetSharedStoragePool poolId { pool with sharedBytes },
          { maxBytes, usedBytes := 0, poolId })
      : Exec (Contract × AccountSharedStorage)) = .ok (c₁, shared)) :
    shared = { maxBytes, usedBytes := account.sharedUsedBytes, poolId } := by
  unfold Account.sharedUsedBytes
  split at h
  · next current hcurrent =>
    rw [hcurrent]
    simp only [Contract.shareMore, bind_eq_ok] at h
    obtain ⟨_, -, h⟩ := h
    split at h
    · simp only [bind_eq_ok, pure_eq_ok, Prod.mk.injEq] at h
      obtain ⟨_, -, _, -, _, -, -, rfl⟩ := h
      rfl
    · simp only [bind_eq_ok, pure_eq_ok, Prod.mk.injEq] at h
      obtain ⟨_, -, _, -, _, -, _, -, _, -, _, -, _, -, _, -, _, -, _, -, -, rfl⟩ := h
      rfl
  · next hnone =>
    rw [hnone]
    simp only [bind_eq_ok, pure_eq_ok, Prod.mk.injEq] at h
    obtain ⟨_, -, -, rfl⟩ := h
    rfl

/-- A pool that had the bytes available which it shares still has those that are not in use. -/
theorem Shares.available (h : Shares host pools o pools' shared)
    (hpool : pools.lookup shared.poolId = some pool)
    (havailable : pool.availableBytes host = .ok availableBytes)
    (hmax : shared.maxBytes ≤ availableBytes) (hpos : 0 < shared.maxBytes) :
    shared.usedBytes ≤ shared.maxBytes ∧ ∃ pool' availableBytes',
      pools'.lookup shared.poolId = some pool' ∧ pool'.availableBytes host = .ok availableBytes' ∧
      shared.maxBytes - shared.usedBytes ≤ availableBytes' ∧
      (o.map AccountSharedStorage.poolId ≠ some shared.poolId → shared.usedBytes ≤ pool'.usedBytes) ∧
      pool.sharedBytes < pool'.sharedBytes := by
  have hword := SharedStoragePool.availableBytes_eq_ok.mp havailable
  cases h with
  | @first poolId pool₁ maxBytes hpool₁ =>
    cases hpool.symm.trans hpool₁
    refine ⟨Nat.zero_le _, _, availableBytes, AList.lookup_insert _, havailable, hmax, ?_, ?_⟩
    · exact fun _ => Nat.zero_le _
    · exact Nat.lt_add_of_pos_right hpos
  | @more current pool₁ maxBytes hpool₁ hused hlt =>
    cases hpool.symm.trans hpool₁
    refine ⟨hused, _, availableBytes, AList.lookup_insert _, havailable, ?_, ?_, ?_⟩
    · exact (Nat.sub_le _ _).trans hmax
    · exact fun hne => absurd rfl hne
    · exact Nat.lt_add_of_pos_right (Nat.sub_pos_of_lt hlt)
  | @moved current poolId pool₁ currentPool maxBytes _ hpool₁ hne hcurrent hused hcurrentUsed
      hcurrentShared havailable₁ hbytes =>
    cases hpool.symm.trans hpool₁
    refine ⟨hused, _, availableBytes - current.usedBytes, AList.lookup_insert _, ?_, ?_, ?_, ?_⟩
    · rw [SharedStoragePool.availableBytes_eq_ok]
      dsimp only at hmax hused ⊢
      omega
    · exact Nat.sub_le_sub_right hmax _
    · exact fun _ => Nat.le_add_left _ _
    · exact Nat.lt_add_of_pos_right hpos

end Shares

/-! ## Shares of the storage of a pool -/

section Accounts

variable {layout : Layout} {cost : ℕ} {host : Host} {env : Env} {c : Contract} {id poolId : AccountId}
  {account account' : Account} {s : AccountSharedStorage} {before after maxBytes availableBytes : ℕ}
  {pool : SharedStoragePool}

/-- A new account is saved in its window. -/
theorem internalInitialSetAccount_isOk (htracker : account.storageTracker = {}) :
    (∃ c', c.internalInitialSetAccount host env id account = .ok c') ↔
      c.accounts.lookup account.nodeId = none ∧
        (host.storageUsage (c.opened env id account) - host.storageUsage c ≤ u64Max ∧
          host.storageUsage c - host.storageUsage (c.opened env id account) ≤ u64Max) ∧
        ∃ r, (c.opened env id account).internalSetAccount host { account with storageTracker :=
          { bytesAdded := host.storageUsage (c.opened env id account) - host.storageUsage c
            bytesReleased := host.storageUsage c - host.storageUsage (c.opened env id account) } } =
          .ok r := by
  simp only [Contract.internalInitialSetAccount, exists_bind_eq_ok, htracker,
    StorageTracker.start_empty, Except.ok.injEq, exists_eq_left', ensure_eq_ok]
  constructor
  · rintro ⟨node, hnode, ⟨c₁, existed⟩, htemp, _, hexisted, t, hstop, r, hset, -⟩
    cases hnode
    rw [internalSetAccount_idle rfl] at htemp
    obtain ⟨rfl, rfl⟩ := Prod.mk.inj (Except.ok.inj htemp)
    obtain ⟨hword, rfl⟩ := StorageTracker.stop_eq_ok.mp hstop
    refine ⟨?_, hword, r, hset⟩
    simpa [Contract.internalSetNode, Account.new] using hexisted
  · rintro ⟨hnew, hword, r, hset⟩
    refine ⟨_, rfl, _, internalSetAccount_idle rfl, (), ?_, _,
      StorageTracker.stop_eq_ok.mpr ⟨hword, rfl⟩, r, hset, _, rfl⟩
    simp [Contract.internalSetNode, Account.new, hnew]

/-- The record of an account that has storage from a pool already takes what it took. -/
theorem amount_of_pool (hid : c.internalGetAccount id = .ok (some account))
    (hpool : account.sharedStorage.map AccountSharedStorage.poolId = some poolId) :
    c.accounts.amount layout.accountBytes account.nodeId = layout.account (some poolId) := by
  obtain ⟨n, -, hat⟩ := internalGetAccount_eq_some.mp hid
  obtain ⟨r, a, hr, ha, rfl⟩ := accountAt_eq_ok.mp hat
  rw [Map.amount_of_lookup hr]
  cases r with
  | current b =>
    cases ha
    exact congrArg layout.account hpool
  | v0 v =>
    simp only [VAccount.toAccount, bind_eq_ok, pure_eq_ok] at ha
    obtain ⟨_, -, rfl⟩ := ha
    cases hpool

theorem Account.Affords.added_le_max (h : account.Affords host s before after) :
    after - before ≤ u64Max := by
  by_cases hlt : before < after
  · exact (Nat.le_add_left _ _).trans (h.used_le_max hlt)
  · rw [Nat.sub_eq_zero_of_le (Nat.le_of_not_lt hlt)]
    exact Nat.zero_le _

theorem Account.Affords.congr (h : account.Affords host s before after)
    (hused : account'.usedBytes = account.usedBytes)
    (hbalance : account'.storageBalance = account.storageBalance) :
    account'.Affords host s before after := by
  refine ⟨h.released_le_max, ?_, ?_, ?_, ?_⟩
  · rw [hused]
    exact h.released_le_used
  · rw [hused]
    exact h.used_le_max
  · rw [hused]
    exact h.shared_le_used
  · rw [hused, hbalance]
    exact h.covered

/-- An account that has got shared storage is saved if it affords its record. -/
theorem saveShared_isOk {pools : Map AccountId SharedStoragePool} {c₁ : Contract}
    (hid : c.internalGetAccount id = .ok (some account))
    (hshares : Shares (layout.host cost) c.sharedStoragePools account.sharedStorage pools s)
    (hpool : c.sharedStoragePools.lookup s.poolId = some pool)
    (havailable : pool.availableBytes (layout.host cost) = .ok availableBytes)
    (hmax : s.maxBytes ≤ availableBytes) (hpos : 0 < s.maxBytes)
    (hbefore : before = c.accounts.amount layout.accountBytes account.nodeId)
    (hafter : after = layout.account (some s.poolId)) (hword : before - after ≤ u64Max)
    (hc : c₁.sharedStoragePools = pools) :
    (∃ r, c₁.internalSetAccount (layout.host cost) { account with
      sharedStorage := some s
      storageTracker := { bytesAdded := after - before, bytesReleased := before - after } } = .ok r) ↔
      account.Affords (layout.host cost) s before after := by
  obtain ⟨hused, pool', available', hpool', havailable', hbytes, hreleased, -⟩ :=
    hshares.available hpool havailable hmax hpos
  have hword' := SharedStoragePool.le_of_available havailable
  rw [internalSetAccount_isOk rfl, settle_isOk { account with sharedStorage := some s } rfl
    (hc ▸ hpool') havailable' hused (by omega) hbytes ?_ hword]
  · exact ⟨fun h => h.congr rfl rfl, fun h => h.congr rfl rfl⟩
  · intro hlt
    refine hreleased ?_
    intro hsame
    rw [hbefore, hafter, amount_of_pool hid hsame] at hlt
    exact lt_irrefl _ hlt

/-- Shared storage is written to the record of an account, which is read back with it. The window
sees how the record changes. -/
theorem tracked_of_shared (layout : Layout) (cost : ℕ) (hid : c.internalGetAccount id = .ok (some account))
    (htracker : account.storageTracker = {}) (pools : Map AccountId SharedStoragePool)
    (s : AccountSharedStorage) (hbefore : before = c.accounts.amount layout.accountBytes account.nodeId)
    (hafter : after = layout.account (some s.poolId)) : ∃ c₁ : Contract,
      ({ c with sharedStoragePools := pools } : Contract).internalSetAccount (layout.host cost)
        { account with sharedStorage := some s } =
          .ok (c₁, (c.accounts.lookup account.nodeId).isSome) ∧
      c₁.sharedStoragePools = pools ∧ c₁.internalUnwrapAccount id =
        .ok { account with sharedStorage := some s } ∧
      ∀ t, ({ initialStorageUsage := some ((layout.host cost).storageUsage
        { c with sharedStoragePools := pools }) } : StorageTracker).stop
          ((layout.host cost).storageUsage c₁) = .ok t ↔
            (after - before ≤ u64Max ∧ before - after ≤ u64Max) ∧
              t = { bytesAdded := after - before, bytesReleased := before - after } := by
  refine ⟨_, internalSetAccount_idle htracker, rfl, ?_, ?_⟩
  · obtain ⟨n, hn, hat⟩ := internalGetAccount_eq_some.mp hid
    obtain ⟨r, a, hr, ha, rfl⟩ := accountAt_eq_ok.mp hat
    rw [internalUnwrapAccount_eq_ok, internalGetAccount_eq_some]
    refine ⟨n, hn, ?_⟩
    rw [accountAt_of_stored (AList.lookup_insert _)]
    dsimp only at htracker ⊢
    rw [htracker]
  · intro t
    have husage := layout.usage_insertAccount { c with sharedStoragePools := pools } account.nodeId
      { account with sharedStorage := some s }.stored
    have hbytes : layout.accountBytes { account with sharedStorage := some s }.stored =
        layout.account (some s.poolId) := rfl
    have hadded : (layout.host cost).storageUsage { c with
        sharedStoragePools := pools
        accounts := c.accounts.insert account.nodeId { account with sharedStorage := some s }.stored } -
          (layout.host cost).storageUsage { c with sharedStoragePools := pools } = after - before := by
      simp only [Layout.host] at husage ⊢
      omega
    have hreleased : (layout.host cost).storageUsage { c with sharedStoragePools := pools } -
        (layout.host cost).storageUsage { c with
          sharedStoragePools := pools
          accounts := c.accounts.insert account.nodeId { account with sharedStorage := some s }.stored } =
            before - after := by
      simp only [Layout.host] at husage ⊢
      omega
    rw [StorageTracker.stop_eq_ok, hadded, hreleased]

/-- Storage is shared with an account that there is, if the account affords its record. -/
theorem shareStorage_isOk_some (hid : c.internalGetAccount id = .ok (some account))
    (htracker : account.storageTracker = {}) (hmin : MIN_STORAGE_BYTES ≤ maxBytes)
    (hpool : c.sharedStoragePools.lookup env.predecessorAccountId = some pool)
    (havailable : pool.availableBytes (layout.host cost) = .ok availableBytes)
    (hmax : maxBytes ≤ availableBytes) :
    (∃ c', c.shareStorage (layout.host cost) env id maxBytes = .ok c') ↔
      pool.MayShare (layout.host cost) c.sharedStoragePools env.predecessorAccountId maxBytes
        account.sharedStorage ∧
      account.Affords (layout.host cost)
        { maxBytes, usedBytes := account.sharedUsedBytes, poolId := env.predecessorAccountId }
        (c.accounts.amount layout.accountBytes account.nodeId)
        (layout.account (some env.predecessorAccountId)) := by
  have hpos : 0 < maxBytes := lt_of_lt_of_le (by decide) hmin
  simp only [Contract.shareStorage, exists_bind_eq_ok, ensure_eq_ok, hid, Except.ok.injEq,
    exists_eq_left', Contract.internalUnwrapSharedStoragePool, hpool, expect_eq_ok, havailable,
    Option.some.injEq, StorageTracker.start_empty]
  constructor
  · rintro ⟨_, -, _, -, ⟨c₁, shared⟩, hshare, ⟨c₂, existed⟩, hidle, t₁, hstop, account₂, hget, ⟨t₂, t₃⟩,
      hconsume, r, hset, -⟩
    obtain ⟨pools, rfl, hshares⟩ := shares_of_share hpool hshare
    obtain rfl := shared_of_share hshare
    obtain ⟨c₃, hidle₃, hpools, hget₃, hstop₃⟩ := tracked_of_shared layout cost
      hid htracker pools { maxBytes, usedBytes := account.sharedUsedBytes, poolId := env.predecessorAccountId }
      rfl rfl
    cases hidle₃.symm.trans hidle
    cases hget₃.symm.trans hget
    obtain ⟨⟨-, hword⟩, rfl⟩ := (hstop₃ t₁).mp hstop
    simp only [htracker, StorageTracker.consume_eq_ok, Prod.mk.injEq] at hconsume
    obtain ⟨-, rfl, -⟩ := hconsume
    refine ⟨(share_isOk havailable hmax).mp ⟨_, hshare⟩, ?_⟩
    exact (saveShared_isOk hid hshares hpool havailable hmax hpos rfl rfl hword hpools).mp ⟨r, hset⟩
  · rintro ⟨hmay, haffords⟩
    obtain ⟨⟨c₁, shared⟩, hshare⟩ := (share_isOk havailable hmax).mpr hmay
    obtain ⟨pools, rfl, hshares⟩ := shares_of_share hpool hshare
    obtain rfl := shared_of_share hshare
    obtain ⟨c₂, hidle, hpools, hget, hstop⟩ := tracked_of_shared layout cost hid
      htracker pools { maxBytes, usedBytes := account.sharedUsedBytes, poolId := env.predecessorAccountId }
      rfl rfl
    obtain ⟨r, hset⟩ := (saveShared_isOk hid hshares hpool havailable hmax hpos rfl rfl
      haffords.released_le_max hpools).mpr haffords
    have hadded := haffords.added_le_max
    refine ⟨(), hmin, (), hmax, _, hshare, _, hidle, _,
      (hstop _).mpr ⟨⟨hadded, haffords.released_le_max⟩, rfl⟩, _, hget,
      ({ bytesAdded := _, bytesReleased := _ }, {}), ?_, r, hset, (), rfl, _, rfl⟩
    simp only [htracker, StorageTracker.consume_eq_ok]
    exact ⟨hadded, trivial⟩

/-- An account that is made with shared storage affords its record, its key and its node. -/
theorem openShared_isOk (layout : Layout) (cost : ℕ) (env : Env) (id : AccountId) (account : Account)
    (pool : SharedStoragePool) (haccount : account = { Account.new account.nodeId with sharedStorage := some s })
    (hnew : c.rootNode.children.get id = none)
    (hpool : c.sharedStoragePools.lookup s.poolId = some pool)
    (havailable : pool.availableBytes (layout.host cost) = .ok availableBytes)
    (hused : s.usedBytes = 0) (hmax : s.maxBytes ≤ availableBytes) :
    (∃ c', c.internalInitialSetAccount (layout.host cost) env id account = .ok c') ↔
      c.accounts.lookup account.nodeId = none ∧ account.Affords (layout.host cost) s
        (c.nodes.amount layout.nodeBytes account.nodeId)
        (layout.account (some s.poolId) + layout.entry id (.node account.nodeId) + layout.node) := by
  have hs : account.sharedStorage = some s := by rw [haccount]
  have htracker : account.storageTracker = {} := by
    rw [haccount]
    rfl
  rw [internalInitialSetAccount_isOk htracker]
  refine and_congr_right ?_
  intro hrecord
  have hword := SharedStoragePool.le_of_available havailable
  have husage := layout.usage_opened c env account hnew
  rw [Map.amount_of_lookup_none hrecord, Nat.add_zero, hs, Option.map_some] at husage
  have hadded : (layout.host cost).storageUsage (c.opened env id account) -
      (layout.host cost).storageUsage c = layout.account (some s.poolId) +
        layout.entry id (.node account.nodeId) + layout.node -
          c.nodes.amount layout.nodeBytes account.nodeId := by
    simp only [Layout.host]
    omega
  have hreleased : (layout.host cost).storageUsage c -
      (layout.host cost).storageUsage (c.opened env id account) =
        c.nodes.amount layout.nodeBytes account.nodeId - (layout.account (some s.poolId) +
          layout.entry id (.node account.nodeId) + layout.node) := by
    simp only [Layout.host]
    omega
  rw [hadded, hreleased, internalSetAccount_isOk rfl]
  have hle : s.usedBytes ≤ s.maxBytes := hused ▸ Nat.zero_le _
  have hbytes : s.maxBytes - s.usedBytes ≤ availableBytes := (Nat.sub_le _ _).trans hmax
  have hpoolUsed : s.usedBytes ≤ pool.usedBytes := hused ▸ Nat.zero_le _
  constructor
  · rintro ⟨⟨-, hfits⟩, hset⟩
    exact (settle_isOk (c := c.opened env id account) account hs hpool havailable hle (by omega) hbytes
      (fun _ => hpoolUsed) hfits).mp hset
  · intro h
    refine ⟨⟨h.added_le_max, h.released_le_max⟩, ?_⟩
    exact (settle_isOk (c := c.opened env id account) account hs hpool havailable hle (by omega) hbytes
      (fun _ => hpoolUsed) h.released_le_max).mpr h

/-- Storage is shared with a new account, if the account affords its record, its key and its node. -/
theorem shareStorage_isOk_none (hid : c.internalGetAccount id = .ok none)
    (hmin : MIN_STORAGE_BYTES ≤ maxBytes)
    (hpool : c.sharedStoragePools.lookup env.predecessorAccountId = some pool)
    (havailable : pool.availableBytes (layout.host cost) = .ok availableBytes)
    (hmax : maxBytes ≤ availableBytes) :
    (∃ c', c.shareStorage (layout.host cost) env id maxBytes = .ok c') ↔
      pool.MayShare (layout.host cost) c.sharedStoragePools env.predecessorAccountId maxBytes none ∧
      c.nodeCount + 1 ≤ u32Max ∧ c.accounts.lookup c.nodeCount = none ∧
      (Account.new c.nodeCount).Affords (layout.host cost)
        { maxBytes, usedBytes := 0, poolId := env.predecessorAccountId }
        (c.nodes.amount layout.nodeBytes c.nodeCount)
        (layout.account (some env.predecessorAccountId) + layout.entry id (.node c.nodeCount) +
          layout.node) := by
  have hpos : 0 < maxBytes := lt_of_lt_of_le (by decide) hmin
  have hword := SharedStoragePool.le_of_available havailable
  have hshared : ∀ sharedBytes, ({ maxBytes, usedBytes := 0, poolId := env.predecessorAccountId } :
      AccountSharedStorage).availableBytes (layout.host cost) { pool with sharedBytes } =
        .ok maxBytes := by
    intro sharedBytes
    have hbytes : ({ pool with sharedBytes } : SharedStoragePool).availableBytes (layout.host cost) =
        .ok availableBytes := havailable
    simp [AccountSharedStorage.availableBytes, hbytes, checkedSub, Nat.min_eq_left hmax]
  simp only [Contract.shareStorage, exists_bind_eq_ok, ensure_eq_ok, hid, Except.ok.injEq,
    exists_eq_left', Contract.internalUnwrapSharedStoragePool, hpool, expect_eq_ok, havailable,
    Option.some.injEq, checkedAdd_eq_ok, Contract.internalCreateAccountFromSharedStorage,
    Contract.internalSetSharedStoragePool, AList.lookup_insert, hshared]
  have hopen := openShared_isOk layout cost env id
    { Account.new c.nodeCount with sharedStorage := some ⟨maxBytes, 0, env.predecessorAccountId⟩ }
    { pool with sharedBytes := pool.sharedBytes + maxBytes }
    (c := { c with
      nodeCount := c.nodeCount + 1
      sharedStoragePools := c.sharedStoragePools.insert env.predecessorAccountId
        { pool with sharedBytes := pool.sharedBytes + maxBytes } })
    rfl (internalGetAccount_eq_none.mp hid) (AList.lookup_insert _) havailable rfl hmax
  constructor
  · rintro ⟨_, -, _, -, _, ⟨hfits, rfl⟩, _, -, _, -, ⟨c₁, n⟩, hcreate, hset⟩
    obtain ⟨hcount, rfl, rfl⟩ := createNodeId_eq_ok.mp hcreate
    obtain ⟨hrecord, haffords⟩ := hopen.mp hset
    exact ⟨hfits, hcount, hrecord, haffords.congr rfl rfl⟩
  · rintro ⟨hfits, hcount, hrecord, haffords⟩
    obtain ⟨c', hset⟩ := hopen.mpr ⟨hrecord, haffords.congr rfl rfl⟩
    exact ⟨(), hmin, (), hmax, _, ⟨hfits, rfl⟩, (), hmin, (), hmin, _,
      createNodeId_eq_ok.mpr ⟨hcount, rfl, rfl⟩, c', hset⟩

/-- What a pool checks before it shares storage with any account. -/
theorem guards_of_shareStorage {c' : Contract}
    (h : c.shareStorage host env id maxBytes = .ok c') : MIN_STORAGE_BYTES ≤ maxBytes ∧
      (∃ o, c.internalGetAccount id = .ok o) ∧ ∃ pool availableBytes,
        c.sharedStoragePools.lookup env.predecessorAccountId = some pool ∧
        pool.availableBytes host = .ok availableBytes ∧ maxBytes ≤ availableBytes := by
  simp only [Contract.shareStorage, bind_eq_ok, ensure_eq_ok] at h
  obtain ⟨_, hmin, o, hid, pool, hpool, available, havailable, _, hmax, -⟩ := h
  exact ⟨hmin, ⟨o, hid⟩, pool, available, expect_eq_ok.mp hpool, havailable, hmax⟩

/-- Settling an account leaves the bytes that the pools share. -/
theorem Settled.sharedBytes {pools pools' : Map AccountId SharedStoragePool}
    {o o' : Option AccountSharedStorage} (h : Settled host pools o pools' o') (id : AccountId) :
    (pools'.lookup id).map SharedStoragePool.sharedBytes =
      (pools.lookup id).map SharedStoragePool.sharedBytes := by
  have hinsert : ∀ {poolId pool pool'}, pools.lookup poolId = some pool →
      pool'.sharedBytes = pool.sharedBytes →
        ((pools.insert poolId pool').lookup id).map SharedStoragePool.sharedBytes =
          (pools.lookup id).map SharedStoragePool.sharedBytes := by
    intro poolId pool pool' hpool hsame
    by_cases heq : id = poolId
    · rw [heq, AList.lookup_insert, hpool, Option.map_some, Option.map_some, hsame]
    · rw [AList.lookup_insert_ne heq]
  cases h with
  | same s => rfl
  | charged hpool => exact hinsert hpool rfl
  | released hpool => exact hinsert hpool rfl

/-- A pool shares more after it has shared storage. -/
theorem sharedBytes_of_shareStorage {c' : Contract}
    (h : c.shareStorage host env id maxBytes = .ok c') : ∃ pool pool',
      c.sharedStoragePools.lookup env.predecessorAccountId = some pool ∧
      c'.sharedStoragePools.lookup env.predecessorAccountId = some pool' ∧
        pool.sharedBytes < pool'.sharedBytes := by
  simp only [Contract.shareStorage, bind_eq_ok, ensure_eq_ok] at h
  obtain ⟨_, hmin, o, -, pool, hpool, available, havailable, _, hmax, h⟩ := h
  simp only [Contract.internalUnwrapSharedStoragePool, expect_eq_ok] at hpool
  have hpos : 0 < maxBytes := lt_of_lt_of_le (by decide) hmin
  suffices hgrows : ∃ (pools : Map AccountId SharedStoragePool) (pool₁ : SharedStoragePool),
      pools.lookup env.predecessorAccountId = some pool₁ ∧ pool.sharedBytes < pool₁.sharedBytes ∧
        (c'.sharedStoragePools.lookup env.predecessorAccountId).map SharedStoragePool.sharedBytes =
          (pools.lookup env.predecessorAccountId).map SharedStoragePool.sharedBytes by
    obtain ⟨pools, pool₁, hpool₁, hlt, hshared⟩ := hgrows
    rw [hpool₁, Option.map_some, Option.map_eq_some_iff] at hshared
    obtain ⟨pool', hpool', heq⟩ := hshared
    exact ⟨pool, pool', hpool, hpool', heq ▸ hlt⟩
  cases o with
  | none =>
    simp only [bind_eq_ok, checkedAdd_eq_ok, Contract.internalCreateAccountFromSharedStorage] at h
    obtain ⟨_, ⟨-, rfl⟩, _, -, _, -, _, -, _, -, ⟨c₁, n⟩, hcreate, hset⟩ := h
    obtain ⟨-, rfl, rfl⟩ := createNodeId_eq_ok.mp hcreate
    obtain ⟨-, _, hsaves⟩ := internalInitialSetAccount_saves rfl hset
    exact ⟨_, _, AList.lookup_insert _, Nat.lt_add_of_pos_right hpos, hsaves.settled.sharedBytes _⟩
  | some account =>
    simp only [bind_eq_ok, pure_eq_ok] at h
    obtain ⟨⟨c₁, shared⟩, hshare, _, -, ⟨c₂, _⟩, hidle, _, -, _, -, _, -, ⟨c₃, _⟩, hsave, _, -, rfl⟩ := h
    obtain ⟨pools, rfl, hshares⟩ := shares_of_share hpool hshare
    obtain rfl := shared_of_share hshare
    obtain ⟨-, pool', -, hpool', -, -, -, hlt⟩ := hshares.available hpool havailable hmax hpos
    obtain ⟨-, -, _, hsaves₂⟩ := internalSetAccount_saves hidle
    obtain ⟨-, -, _, hsaves₃⟩ := internalSetAccount_saves hsave
    exact ⟨pools, pool', hpool', hlt, (hsaves₃.settled.sharedBytes _).trans
      (hsaves₂.settled.sharedBytes _)⟩

end Accounts

end UncContracts.Social
