import Mathlib.Order.Bounds.Basic
import UncContracts.Social.StorageAccounting
import UncContracts.Social.PoolAccounting
import UncContracts.Social.Sharing
import UncContracts.Social.Views

/-!
# What the storage view tells

An account may take the bytes that it pays for and those that are left for it in its pool. The view
subtracts the bytes that it has in use from the low word of its balance, without the price of a byte,
and is right about an account whose balance happens to be such a number.

## Main definitions

* `Contract.HasPools`: shared storage comes from a pool that there is
* `Account.leftBytes`, `Account.paidBytes`: the bytes left in the pool, and those that are paid for
* `Contract.TellsStorage`: the view returns the most bytes that the account may take
* `Account.CountsBytes`: the balance of an account counts bytes

## Main results

* `internalSetAccount_adds_iff`: when an account may take some bytes
* `accountStorage_run`: the accounts that the view is right about
-/

namespace UncContracts.Social

open Foundation

/-- Shared storage comes from a pool that there is. -/
def Contract.HasPools (c : Contract) : Prop :=
  ∀ n (a : Account) s, c.accounts.lookup n = some a.stored → a.sharedStorage = some s →
    s.poolId ∈ c.sharedStoragePools

section Pools

variable {host : Host} {env : Env} {L : String → Prop} {P : SharedStoragePool → Prop}
  {c c' : Contract} {account account' : Account} {deposit : ℕ} {transfers : List Transfer}
  {pools pools' : Map AccountId SharedStoragePool} {o o' : Option AccountSharedStorage}
  {s : AccountSharedStorage}

/-- Saving an account leaves the pools that there are. -/
theorem Saves.hasPools (hsaves : Saves host c account c' account')
    (hshared : ∀ s, account.sharedStorage = some s → s.poolId ∈ c.sharedStoragePools)
    (hothers : ∀ m (a : Account) s, m ≠ account.nodeId → c.accounts.lookup m = some a.stored →
      a.sharedStorage = some s → s.poolId ∈ c.sharedStoragePools) : c'.HasPools := by
  intro m a s hm hs
  rw [hsaves.settled.tally.mem]
  rw [hsaves.frame] at hm
  by_cases heq : m = account.nodeId
  · subst heq
    rw [AList.lookup_insert, Option.some.injEq] at hm
    simp only [Account.stored, VAccount.current.injEq, Account.mk.injEq] at hm
    have hid := hsaves.settled.poolId
    rw [hm.2.2.2.2, hs, Option.map_some] at hid
    obtain ⟨t, ht, hpool⟩ := Option.map_eq_some_iff.mp hid.symm
    exact hpool ▸ hshared t ht
  · rw [AList.lookup_insert_ne heq] at hm
    exact hothers m a s heq hm hs

theorem Shares.mem_pools (h : Shares host pools o pools' s) : s.poolId ∈ pools' := by
  rw [h.tally.mem]
  cases h with
  | first hpool => exact mem_pools_of_lookup hpool
  | more hpool => exact mem_pools_of_lookup hpool
  | moved hpool => exact mem_pools_of_lookup hpool

theorem Opens.mem_pools (h : Opens pools pools' (some s)) : s.poolId ∈ pools' := by
  cases h with
  | shared hpool => simp

/-- **A move keeps shared storage in pools that there are.** -/
theorem Move.hasPools (hmove : Move host env L P c c' deposit transfers) (h : c.HasPools) : c'.HasPools := by
  cases hmove with
  | @updated n a a' _ _ c₁ _ t ha hedits hbalance htracker hsaves =>
    have haccounts : c₁.accounts = c.accounts := by rw [hedits.frame]
    have hpools : c₁.sharedStoragePools = c.sharedStoragePools := by rw [hedits.frame]
    refine hsaves.hasPools ?_ ?_
    · exact fun s hs => hpools ▸ h n a s ha hs
    · exact fun m b s _ hm hs => hpools ▸ h m b s (haccounts ▸ hm) hs
  | @created id a' _ shared pools _ _ t hid hnew hopens hc htracker hsaves =>
    subst hc
    refine hsaves.hasPools ?_ ?_
    · rintro s rfl
      exact hopens.mem_pools
    · intro m b s hm hlookup hs
      have htally : Tally host _ _ _ _ := hopens.tally
      simp only [Contract.opened] at hlookup ⊢
      rw [AList.lookup_insert_ne hm] at hlookup
      exact (htally.mem _).mpr (h m b s hlookup hs)
  | @withdrawn n a a' amount _ ha hamount hsaves =>
    refine hsaves.hasPools ?_ ?_
    · exact fun s hs => h n a s ha hs
    · exact fun m b s _ hm hs => h m b s hm hs
  | returned => exact h
  | pooled hpool hdeposit hpool₁ hc hpool' hP =>
    subst hc
    intro m a s hm hs
    simp only [Contract.internalSetSharedStoragePool, AList.mem_insert]
    exact .inr (.inr (h m a s hm hs))
  | @shared n a a' s pools c₁ _ t ha hshares hc htracker hsaves =>
    subst hc
    refine hsaves.hasPools ?_ ?_
    · intro s' hs'
      cases hs'
      exact hshares.mem_pools
    · intro m b s' hm hlookup hs'
      rw [AList.lookup_insert_ne (show m ≠ n from hm)] at hlookup
      exact (hshares.tally.mem _).mpr (h m b s' hlookup hs')
  | changed => exact h

theorem Moves.hasPools (hmoves : Moves host env L P c c' deposit transfers) (h : c.HasPools) : c'.HasPools := by
  induction hmoves with
  | refl => exact h
  | tail _ hmove ih => exact hmove.hasPools ih

end Pools

/-! ## The bytes that an account may take -/

/-- The bytes that are left for an account in its pool. -/
def Account.leftBytes (host : Host) (pools : Map AccountId SharedStoragePool) (account : Account) : ℕ :=
  match account.sharedStorage with
  | none => 0
  | some s => min (s.maxBytes - s.usedBytes)
      ((poolAt pools s.poolId).storageBalance / host.storageByteCost % 2 ^ 64 -
        (poolAt pools s.poolId).usedBytes)

/-- The bytes that the balance of an account pays for. No price exceeds the largest amount. -/
def Account.paidBytes (host : Host) (account : Account) : ℕ :=
  if u128Max ≤ account.storageBalance then u64Max else account.storageBalance / host.storageByteCost

/-- The pool of an account can tell what it has available. -/
def Account.PoolCounts (host : Host) (pools : Map AccountId SharedStoragePool) (account : Account) :
    Prop :=
  ∀ s, account.sharedStorage = some s → (poolAt pools s.poolId).usedBytes ≤
    (poolAt pools s.poolId).storageBalance / host.storageByteCost % 2 ^ 64

section Bytes

variable {host : Host} {c : Contract} {account : Account} {s : AccountSharedStorage}
  {pool : SharedStoragePool} {n : ℕ}

/-- What the pool of an account has available is what is left for the account. -/
theorem availableBytes_eq (hs : account.sharedStorage = some s)
    (hpool : c.sharedStoragePools.lookup s.poolId = some pool) (hmax : s.usedBytes ≤ s.maxBytes)
    (hcounts : account.PoolCounts host c.sharedStoragePools) :
    s.availableBytes host pool = .ok (account.leftBytes host c.sharedStoragePools) := by
  have hused := hcounts s hs
  rw [poolAt_of_lookup hpool] at hused
  have hbytes : pool.availableBytes host = .ok _ := checkedSub_eq_ok.mpr ⟨hused, rfl⟩
  simp [AccountSharedStorage.availableBytes, checkedSub_eq_ok.mpr ⟨hmax, rfl⟩, hbytes,
    Account.leftBytes, hs, poolAt_of_lookup hpool]

/-- The pool of an account has the account's bytes in use. -/
def Account.PoolHolds (pools : Map AccountId SharedStoragePool) (account : Account) : Prop :=
  ∀ s, account.sharedStorage = some s → ∃ pool, pools.lookup s.poolId = some pool ∧
    s.usedBytes ≤ pool.usedBytes

/-- An account takes from its pool what is left for it. -/
theorem chargePool_takes (account : Account)
    (hmax : ∀ s, account.sharedStorage = some s → s.usedBytes ≤ s.maxBytes)
    (hholds : account.PoolHolds c.sharedStoragePools)
    (hcounts : account.PoolCounts host c.sharedStoragePools) (n : ℕ) :
    ∃ r, c.chargePool host account n = .ok r ∧ r.2.usedBytes = account.usedBytes ∧
      r.2.storageBalance = account.storageBalance ∧ r.2.sharedUsedBytes =
        account.sharedUsedBytes + min (account.leftBytes host c.sharedStoragePools) n := by
  cases hs : account.sharedStorage with
  | none =>
    refine ⟨(c, account), ?_, rfl, rfl, ?_⟩
    · simp [Contract.chargePool, hs]
    · simp [Account.sharedUsedBytes, Account.leftBytes, hs]
  | some s =>
    obtain ⟨pool, hpool, hused⟩ := hholds s hs
    have hbytes := availableBytes_eq hs hpool (hmax s hs) hcounts
    obtain ⟨-, m, hm, hmin⟩ := availableBytes_eq_ok hbytes
    have hword := SharedStoragePool.le_of_available hm
    have hshared : account.sharedUsedBytes = s.usedBytes := by
      rw [Account.sharedUsedBytes, hs, Option.map_some, Option.getD_some]
    simp only [Contract.chargePool, hs, Contract.internalUnwrapSharedStoragePool, hpool, hbytes,
      bind_eq_ok, expect_eq_ok, Option.some.injEq, Except.ok.injEq, exists_eq_left', hshared]
    split
    · simp only [bind_eq_ok, checkedAdd_eq_ok, pure_eq_ok]
      refine ⟨_, ⟨_, ⟨by omega, rfl⟩, _, ⟨by omega, rfl⟩, rfl⟩, rfl, rfl, ?_⟩
      rw [Account.sharedUsedBytes, Option.map_some, Option.getD_some]
    · next hzero =>
      refine ⟨(c, account), rfl, rfl, rfl, ?_⟩
      rw [hshared, Nat.eq_zero_of_not_pos hzero, Nat.add_zero]

/-- A price is covered if the bytes are among those that are paid for. -/
theorem saturatingMul_le_iff (hcost : 0 < host.storageByteCost) (account : Account) {bytes : ℕ}
    (hbytes : bytes ≤ u64Max) :
    saturatingMul bytes host.storageByteCost ≤ account.storageBalance ↔
      bytes ≤ account.paidBytes host := by
  unfold saturatingMul Account.paidBytes
  split
  · next hall => exact iff_of_true ((Nat.min_le_right _ _).trans hall) hbytes
  · next hlt =>
    rw [Nat.le_div_iff_mul_le hcost]
    omega

/-- **The bytes that an account may take** with no new deposit. -/
theorem internalSetAccount_adds_iff (hcost : 0 < host.storageByteCost) (hcovered : account.Covered host)
    (hholds : account.PoolHolds c.sharedStoragePools)
    (hcounts : account.PoolCounts host c.sharedStoragePools) :
    (∃ r, c.internalSetAccount host { account with storageTracker := { bytesAdded := n } } = .ok r) ↔
      n ≤ min (u64Max - account.usedBytes) (account.leftBytes host c.sharedStoragePools +
        (account.paidBytes host - (account.usedBytes - account.sharedUsedBytes))) := by
  have hused := hcovered.used_le_max
  have hshared := hcovered.shared_le_used
  have hpaid := (saturatingMul_le_iff hcost account (by omega)).mp hcovered.covered
  rw [internalSetAccount_isOk rfl, Contract.settle]
  dsimp only
  rcases Nat.eq_zero_or_pos n with rfl | hpos
  · simp only [lt_irrefl, if_false]
    exact iff_of_true ⟨_, rfl⟩ (Nat.zero_le _)
  · rw [if_pos hpos, Nat.sub_zero]
    simp only [exists_bind_eq_ok, checkedAdd_eq_ok]
    obtain ⟨⟨c₁, account₁⟩, hcharge, husedBytes, hbalance, hsharedBytes⟩ := chargePool_takes
      { account with usedBytes := account.usedBytes + n, storageTracker := { bytesAdded := n } }
      hcovered.shared_le_max hholds hcounts n
    have hleft : Account.leftBytes host c.sharedStoragePools
        { account with usedBytes := account.usedBytes + n, storageTracker := { bytesAdded := n } } =
          account.leftBytes host c.sharedStoragePools := rfl
    have hown : Account.sharedUsedBytes
        { account with usedBytes := account.usedBytes + n, storageTracker := { bytesAdded := n } } =
          account.sharedUsedBytes := rfl
    simp only [hleft, hown] at husedBytes hbalance hsharedBytes
    have hprice : account.usedBytes + n ≤ u64Max →
        (account₁.assertStorageCovered host = .ok () ↔ account.usedBytes + n -
          (account.sharedUsedBytes + min (account.leftBytes host c.sharedStoragePools) n) ≤
            account.paidBytes host) := by
      intro hle
      rw [← saturatingMul_le_iff hcost account (by omega), assertStorageCovered_eq_ok, husedBytes, hbalance,
        hsharedBytes]
      exact and_iff_right (by omega)
    constructor
    · rintro ⟨_, ⟨hle, rfl⟩, ⟨c₂, account₂⟩, hcharge₂, _, hassert, -⟩
      cases hcharge.symm.trans hcharge₂
      have hbytes := (hprice hle).mp hassert
      omega
    · intro hn
      refine ⟨_, ⟨by omega, rfl⟩, _, hcharge, (), (hprice (by omega)).mpr (by omega), _, rfl⟩

/-- The view has what is left for an account in its pool, if the pool counts. -/
theorem availableSharedBytes_eq_ok (hmax : ∀ s, account.sharedStorage = some s → s.usedBytes ≤ s.maxBytes)
    (hholds : account.PoolHolds c.sharedStoragePools) {m : ℕ} :
    c.availableSharedBytes host account = .ok m ↔
      account.PoolCounts host c.sharedStoragePools ∧ account.leftBytes host c.sharedStoragePools = m := by
  unfold Contract.availableSharedBytes
  cases hs : account.sharedStorage with
  | none =>
    have hcounts : account.PoolCounts host c.sharedStoragePools := by
      intro s hsome
      cases hs.symm.trans hsome
    simp [Account.leftBytes, hs, hcounts]
  | some s =>
    obtain ⟨pool, hpool, -⟩ := hholds s hs
    simp only [Contract.internalUnwrapSharedStoragePool, bind_eq_ok, expect_eq_ok, hpool,
      Option.some.injEq, exists_eq_left']
    constructor
    · intro h
      have hcounts : account.PoolCounts host c.sharedStoragePools := by
        intro s' hs'
        obtain rfl : s = s' := Option.some.inj (hs.symm.trans hs')
        obtain ⟨-, m', hm', -⟩ := availableBytes_eq_ok h
        rw [poolAt_of_lookup hpool]
        exact (checkedSub_eq_ok.mp hm').1
      rw [availableBytes_eq hs hpool (hmax s hs) hcounts] at h
      exact ⟨hcounts, Except.ok.inj h⟩
    · rintro ⟨hcounts, rfl⟩
      exact availableBytes_eq hs hpool (hmax s hs) hcounts

/-- **What the view tells**: the low word of the balance, less the bytes that the account pays for, and
what is left in its pool. -/
theorem getAccountStorage_eq_ok {id : AccountId} {view : StorageView}
    (hget : c.internalGetAccount id = .ok (some account)) (hcovered : account.Covered host)
    (hholds : account.PoolHolds c.sharedStoragePools) :
    c.getAccountStorage host id = .ok (some view) ↔
      account.PoolCounts host c.sharedStoragePools ∧
      account.usedBytes - account.sharedUsedBytes ≤ account.storageBalance % 2 ^ 64 ∧
      account.storageBalance % 2 ^ 64 - (account.usedBytes - account.sharedUsedBytes) +
        account.leftBytes host c.sharedStoragePools ≤ u64Max ∧
      { usedBytes := account.usedBytes
        availableBytes := account.storageBalance % 2 ^ 64 -
          (account.usedBytes - account.sharedUsedBytes) +
            account.leftBytes host c.sharedStoragePools } = view := by
  have hown : account.ownBytes = .ok (account.usedBytes - account.sharedUsedBytes) :=
    checkedSub_eq_ok.mpr ⟨hcovered.shared_le_used, rfl⟩
  rw [Contract.getAccountStorage, hget, ok_bind]
  simp only [bind_eq_ok, availableSharedBytes_eq_ok hcovered.shared_le_max hholds, hown, Except.ok.injEq,
    exists_eq_left', checkedSub_eq_ok, checkedAdd_eq_ok, pure_eq_ok, Option.some.injEq]
  constructor
  · rintro ⟨_, ⟨hcounts, rfl⟩, _, ⟨hle, rfl⟩, _, ⟨hfits, rfl⟩, rfl⟩
    exact ⟨hcounts, hle, hfits, rfl⟩
  · rintro ⟨hcounts, hle, hfits, rfl⟩
    exact ⟨_, ⟨hcounts, rfl⟩, _, ⟨hle, rfl⟩, _, ⟨hfits, rfl⟩, rfl⟩

end Bytes

/-- The view returns the most bytes that a registered account may take with no new deposit. -/
def Contract.TellsStorage (host : Host) (c : Contract) (id : AccountId) (account : Account) : Prop :=
  ∃ view, c.getAccountStorage host id = .ok (some view) ∧
    IsGreatest {n | ∃ r, c.internalSetAccount host
      { account with storageTracker := { bytesAdded := n } } = .ok r} view.availableBytes

/-- The balance of an account counts bytes: its low word is the number of bytes that it pays for, unless
these and the shared ones are more than a word counts. The pool of the account counts as well. -/
structure Account.CountsBytes (host : Host) (pools : Map AccountId SharedStoragePool)
    (account : Account) : Prop where
  pool : account.PoolCounts host pools
  own : account.usedBytes - account.sharedUsedBytes ≤ account.storageBalance % 2 ^ 64
  bytes : account.storageBalance % 2 ^ 64 + (account.sharedUsedBytes + account.leftBytes host pools) =
    min (account.paidBytes host + (account.sharedUsedBytes + account.leftBytes host pools)) u64Max

section Telling

variable {host : Host} {c : Contract} {account : Account} {id : AccountId}

/-- The bytes of a balance, less those in use and more those that are left in a pool, are the most that
may be taken just if the balance counts bytes. -/
theorem most_iff {balance paid used shared left most : ℕ} (hused : used ≤ most) (hshared : shared ≤ used)
    (hpaid : used - shared ≤ paid) (hown : used - shared ≤ balance) :
    balance - (used - shared) + left = min (most - used) (left + (paid - (used - shared))) ↔
      balance + (shared + left) = min (paid + (shared + left)) most := by
  omega

/-- The view is right about an account whose balance counts bytes, and about no other. -/
theorem tellsStorage_iff (hcost : 0 < host.storageByteCost)
    (hget : c.internalGetAccount id = .ok (some account)) (hcovered : account.Covered host)
    (hholds : account.PoolHolds c.sharedStoragePools) :
    c.TellsStorage host id account ↔ account.CountsBytes host c.sharedStoragePools := by
  have hused := hcovered.used_le_max
  have hshared := hcovered.shared_le_used
  have hpaid := (saturatingMul_le_iff hcost account (by omega)).mp hcovered.covered
  -- The account may take the bytes up to the most that it pays for, and that a word counts.
  have hgreatest : account.PoolCounts host c.sharedStoragePools → ∀ m,
      IsGreatest {n | ∃ r, c.internalSetAccount host
        { account with storageTracker := { bytesAdded := n } } = .ok r} m ↔
          m = min (u64Max - account.usedBytes) (account.leftBytes host c.sharedStoragePools +
            (account.paidBytes host - (account.usedBytes - account.sharedUsedBytes))) := by
    intro hcounts m
    have hset : {n | ∃ r, c.internalSetAccount host
        { account with storageTracker := { bytesAdded := n } } = .ok r} =
          Set.Iic (min (u64Max - account.usedBytes) (account.leftBytes host c.sharedStoragePools +
            (account.paidBytes host - (account.usedBytes - account.sharedUsedBytes)))) := by
      ext n
      exact internalSetAccount_adds_iff hcost hcovered hholds hcounts
    rw [hset]
    constructor
    · exact fun h => h.unique isGreatest_Iic
    · rintro rfl
      exact isGreatest_Iic
  constructor
  · rintro ⟨view, hview, hmost⟩
    obtain ⟨hcounts, hown, hfits, rfl⟩ := (getAccountStorage_eq_ok hget hcovered hholds).mp hview
    exact ⟨hcounts, hown, (most_iff hused hshared hpaid hown).mp ((hgreatest hcounts _).mp hmost)⟩
  · rintro ⟨hcounts, hown, hbytes⟩
    have hmost := (most_iff hused hshared hpaid hown).mpr hbytes
    refine ⟨_, (getAccountStorage_eq_ok hget hcovered hholds).mpr ⟨hcounts, hown, ?_, rfl⟩,
      (hgreatest hcounts _).mpr hmost⟩
    rw [hmost]
    exact (Nat.min_le_left _ _).trans (Nat.sub_le _ _)

end Telling

theorem hasPools_run (host : Host) (start : Env) (calls : List Call) :
    ((system host).run (.new start) calls).HasPools := by
  have h : ((system host).run (.new start) calls).Sound ∧
      ((system host).run (.new start) calls).HasPools := by
    refine Machine.run_invariant (M := system host) (I := fun c => c.Sound ∧ c.HasPools)
      (G := fun _ _ => True) ?_ (fun _ _ => trivial) ⟨Contract.sound_new start, ?_⟩
    · rintro c call c' ⟨hsound, hpools⟩ - h
      obtain ⟨transfers, hmoves⟩ := moves_of_step (L := fun _ => True) (P := fun _ => True) hsound
        (fun _ _ => trivial) (fun _ _ => trivial) h
      exact ⟨hmoves.sound hsound, hmoves.hasPools hpools⟩
    · intro n a s h
      cases h
  exact h.2

/-- **Storage views.** In every contract that calls lead to, the view of the storage of an account is
right just if its balance counts bytes. -/
theorem accountStorage_run (layout : Layout) (cost : ℕ) (hcost : 0 < cost) (start : Env)
    (calls : List Call) (id : AccountId) (account : Account)
    (hget : ((system (layout.host cost)).run (.new start) calls).internalGetAccount id =
      .ok (some account)) :
    let c := (system (layout.host cost)).run (.new start) calls
    c.TellsStorage (layout.host cost) id account ↔
      account.CountsBytes (layout.host cost) c.sharedStoragePools := by
  intro c
  obtain ⟨hsound, hcovered⟩ := sound_covered_run (layout.host cost) start calls
  obtain ⟨n, -, hat⟩ := internalGetAccount_eq_some.mp hget
  obtain ⟨r, a, hr, ha, rfl⟩ := accountAt_eq_ok.mp hat
  obtain ⟨b, rfl⟩ := hsound.records n r hr
  cases ha
  have hcov := hcovered n b hr
  refine tellsStorage_iff hcost hget ⟨hcov.used_le_max, hcov.shared_le_used, hcov.shared_le_max,
    hcov.covered⟩ ?_
  intro s hs
  have hmem : s.poolId ∈ c.sharedStoragePools := hasPools_run (layout.host cost) start calls n b s hr hs
  obtain ⟨pool, hpool⟩ := Option.isSome_iff_exists.mp (AList.lookup_isSome.mpr hmem)
  have hused := ((tracked_run layout cost start calls).balanced.shares hr hs).1
  rw [poolAt_of_lookup hpool] at hused
  exact ⟨pool, hpool, hused⟩

/-- An account that pays for ten thousand bytes, and uses three hundred. -/
def sampleDepositor : Account := { Account.new 1 with storageBalance := 10 ^ 23, usedBytes := 300 }

/-- The account makes its deposit. -/
def sampleDepositCalls : List Call := [sampleLive, sampleDeposit (10 ^ 23) sampleDeposit_le]

/-- An account with two thousand bytes from a pool and no balance, which uses three hundred. -/
def sampleMember : Account :=
  { Account.new 1 with usedBytes := 300, sharedStorage := some ⟨2000, 300, "alice"⟩ }

theorem accountStorage_run_sampleDepositor :
    (¬ ((system (sampleLayout.host (10 ^ 19))).run (.new (sampleEnv "social" 0 (Nat.zero_le _)))
        sampleDepositCalls).TellsStorage (sampleLayout.host (10 ^ 19)) "alice" sampleDepositor) ∧
      ((system (sampleLayout.host (10 ^ 19))).run (.new (sampleEnv "social" 0 (Nat.zero_le _)))
        samplePoolCalls).TellsStorage (sampleLayout.host (10 ^ 19)) "bob" sampleMember := by
  constructor
  · intro h
    have hcounts := (accountStorage_run sampleLayout (10 ^ 19) (by decide)
      (sampleEnv "social" 0 (Nat.zero_le _)) sampleDepositCalls "alice" sampleDepositor
      (by decide +kernel)).mp h
    exact absurd hcounts.bytes (by decide)
  · refine (accountStorage_run sampleLayout (10 ^ 19) (by decide)
      (sampleEnv "social" 0 (Nat.zero_le _)) samplePoolCalls "bob" sampleMember
      (by decide +kernel)).mpr ⟨?_, by decide, by decide +kernel⟩
    intro s hs
    cases hs
    decide +kernel

/-- The view tells that 9700 bytes are the low word of what they cost. -/
theorem not_accountStorage_run :
    ¬ ∀ (layout : Layout) (cost : ℕ) (start : Env) (calls : List Call) (id : AccountId)
      (account : Account), 0 < cost →
      ((system (layout.host cost)).run (.new start) calls).internalGetAccount id = .ok (some account) →
      ((system (layout.host cost)).run (.new start) calls).TellsStorage (layout.host cost) id account := by
  intro h
  obtain ⟨view, hview, hmost, -⟩ := h sampleLayout (10 ^ 19) (sampleEnv "social" 0 (Nat.zero_le _))
    sampleDepositCalls "alice" sampleDepositor (by decide) (by decide +kernel)
  have hbytes : ((system (sampleLayout.host (10 ^ 19))).run (.new (sampleEnv "social" 0 (Nat.zero_le _)))
      sampleDepositCalls).getAccountStorage (sampleLayout.host (10 ^ 19)) "alice" =
        .ok (some { usedBytes := 300, availableBytes := 200376420520689364 }) := by
    decide +kernel
  obtain rfl := Option.some.inj (Except.ok.inj (hbytes.symm.trans hview))
  obtain ⟨r, hr⟩ := hmost
  have hrefused : ((system (sampleLayout.host (10 ^ 19))).run (.new (sampleEnv "social" 0 (Nat.zero_le _)))
      sampleDepositCalls).internalSetAccount (sampleLayout.host (10 ^ 19))
        { sampleDepositor with storageTracker := { bytesAdded := 200376420520689364 } } =
          .error "Not enough storage balance" := by
    decide +kernel
  cases hrefused.symm.trans hr

end UncContracts.Social
