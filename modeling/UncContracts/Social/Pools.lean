import UncContracts.Social.Coverage
import UncContracts.Social.Layout

/-!
# The accounting of shared pools

A pool counts the bytes that it shares with accounts and those that they use, next to the bytes of
its own record. Each move of bytes between a pool and an account is counted at both of them, so that
the pool agrees with the sums over its accounts.

## Main definitions

* `poolAt`: the pool of an owner
* `bytesIn`: what an account has from a pool
* `Tally`: pools and an account that change by the same bytes
* `Contract.Balanced`: the pools agree with their accounts
* `Contract.Paid`: the pools use no more than they pay for

## Main results

* `Move.balanced`: a move keeps the pools balanced
* `Move.paid`: the pools pay for what is in use after a move
-/

namespace UncContracts.Social

open Foundation

/-- The shared storage of an account, from its record. -/
def VAccount.sharedStorage : VAccount → Option AccountSharedStorage
  | .v0 _ => none
  | .current account => account.sharedStorage

/-- The pool of an owner, which is empty if there is none. -/
def poolAt (pools : Map AccountId SharedStoragePool) (id : AccountId) : SharedStoragePool :=
  (pools.lookup id).getD .new

/-- What an account has from a pool. -/
def bytesIn (f : AccountSharedStorage → ℕ) (id : AccountId) : Option AccountSharedStorage → ℕ
  | none => 0
  | some s => if s.poolId = id then f s else 0

/-- What the accounts have from a pool. -/
def Contract.bytesFrom (c : Contract) (f : AccountSharedStorage → ℕ) (id : AccountId) : ℕ :=
  c.accounts.total fun r => bytesIn f id r.sharedStorage

/-- Pools and an account that change by the same bytes. A pool that gives bytes has them
available. -/
structure Tally (host : Host) (pools : Map AccountId SharedStoragePool)
    (o : Option AccountSharedStorage) (pools' : Map AccountId SharedStoragePool)
    (o' : Option AccountSharedStorage) : Prop where
  mem : ∀ id, id ∈ pools' ↔ id ∈ pools
  balance : ∀ id, (poolAt pools' id).storageBalance = (poolAt pools id).storageBalance
  shared : ∀ id, (poolAt pools' id).sharedBytes + bytesIn AccountSharedStorage.maxBytes id o =
    (poolAt pools id).sharedBytes + bytesIn AccountSharedStorage.maxBytes id o'
  used : ∀ id, (poolAt pools' id).usedBytes + bytesIn AccountSharedStorage.usedBytes id o =
    (poolAt pools id).usedBytes + bytesIn AccountSharedStorage.usedBytes id o'
  available : ∀ id, (poolAt pools' id).usedBytes ≤ (poolAt pools id).usedBytes ∨
    (poolAt pools' id).usedBytes ≤ (poolAt pools id).storageBalance / host.storageByteCost % 2 ^ 64

/-- The pools agree with their accounts. A pool has its own record in use, too. -/
structure Contract.Balanced (layout : Layout) (c : Contract) : Prop where
  shared : ∀ id, (poolAt c.sharedStoragePools id).sharedBytes =
    c.bytesFrom AccountSharedStorage.maxBytes id
  used : ∀ id, (poolAt c.sharedStoragePools id).usedBytes =
    (if id ∈ c.sharedStoragePools then layout.pool id else 0) +
      c.bytesFrom AccountSharedStorage.usedBytes id

/-- The pools use no more than they pay for. -/
structure Contract.Paid (host : Host) (c : Contract) : Prop where
  paid : ∀ id, (poolAt c.sharedStoragePools id).usedBytes ≤
    (poolAt c.sharedStoragePools id).storageBalance / host.storageByteCost
  balance_le : ∀ id, (poolAt c.sharedStoragePools id).storageBalance ≤ u128Max

/-- Every pool has what it uses among the bytes that it pays for, in the word that counts them. -/
def Contract.Available (host : Host) (c : Contract) : Prop :=
  ∀ id, (poolAt c.sharedStoragePools id).usedBytes ≤
    (poolAt c.sharedStoragePools id).storageBalance / host.storageByteCost % 2 ^ 64

section Tallies

variable {host : Host} {pools pools' : Map AccountId SharedStoragePool}
  {o o' : Option AccountSharedStorage} {s : AccountSharedStorage} {pool pool' : SharedStoragePool}
  {id id' : AccountId} {m : ℕ}

theorem poolAt_of_lookup (h : pools.lookup id = some pool) : poolAt pools id = pool := by
  simp [poolAt, h]

@[simp] theorem poolAt_insert_self : poolAt (pools.insert id pool) id = pool := by
  simp [poolAt]

theorem poolAt_insert_of_ne (h : id' ≠ id) : poolAt (pools.insert id pool) id' = poolAt pools id' := by
  simp [poolAt, AList.lookup_insert_ne h]

theorem poolAt_of_notMem (h : id ∉ pools) : poolAt pools id = .new := by
  simp [poolAt, AList.lookup_eq_none.mpr h]

@[simp] theorem bytesIn_none (f : AccountSharedStorage → ℕ) (id : AccountId) :
    bytesIn f id none = 0 := rfl

theorem bytesIn_self (f : AccountSharedStorage → ℕ) (s : AccountSharedStorage) :
    bytesIn f s.poolId (some s) = f s := if_pos rfl

theorem bytesIn_of_ne {f : AccountSharedStorage → ℕ} (h : id ≠ s.poolId) :
    bytesIn f id (some s) = 0 := if_neg h.symm

/-- One pool changes together with an account that has bytes from it or from none. -/
theorem Tally.of_insert (hpool : pools.lookup id = some pool) (hs : s.poolId = id)
    (ho : ∀ f id', id' ≠ id → bytesIn f id' o = 0)
    (hbalance : pool'.storageBalance = pool.storageBalance)
    (hshared : pool'.sharedBytes + bytesIn AccountSharedStorage.maxBytes id o =
      pool.sharedBytes + s.maxBytes)
    (hused : pool'.usedBytes + bytesIn AccountSharedStorage.usedBytes id o =
      pool.usedBytes + s.usedBytes)
    (havailable : pool'.usedBytes ≤ pool.usedBytes ∨
      pool'.usedBytes ≤ pool.storageBalance / host.storageByteCost % 2 ^ 64) :
    Tally host pools o (pools.insert id pool') (some s) := by
  subst hs
  have hat := poolAt_of_lookup hpool
  refine ⟨?_, ?_, ?_, ?_, ?_⟩
  · intro id'
    rw [AList.mem_insert]
    exact ⟨fun h => h.elim (fun heq => heq ▸ mem_pools_of_lookup hpool) fun h => h, .inr⟩
  all_goals
    intro id'
    by_cases heq : id' = s.poolId
    · subst heq
      simp only [poolAt_insert_self, hat, bytesIn_self]
      assumption
  · rw [poolAt_insert_of_ne heq]
  · rw [poolAt_insert_of_ne heq, ho _ id' heq, bytesIn_of_ne heq]
  · rw [poolAt_insert_of_ne heq, ho _ id' heq, bytesIn_of_ne heq]
  · rw [poolAt_insert_of_ne heq]
    exact .inl le_rfl

theorem Tally.refl (host : Host) (pools : Map AccountId SharedStoragePool)
    (o : Option AccountSharedStorage) : Tally host pools o pools o :=
  ⟨fun _ => .rfl, fun _ => rfl, fun _ => rfl, fun _ => rfl, fun _ => .inl le_rfl⟩

theorem Settled.tally (h : Settled host pools o pools' o') : Tally host pools o pools' o' := by
  cases h with
  | same => exact .refl host pools _
  | @charged s pool available bytes hpool hmax havailable hbytes =>
    have hpays := SharedStoragePool.availableBytes_eq_ok.mp havailable
    refine Tally.of_insert (s := { s with usedBytes := s.usedBytes + bytes }) hpool rfl ?_ rfl ?_ ?_ ?_
    · intro f id hne
      exact bytesIn_of_ne hne
    · rw [bytesIn_self]
    · rw [bytesIn_self]
      show pool.usedBytes + bytes + s.usedBytes = pool.usedBytes + (s.usedBytes + bytes)
      omega
    · exact .inr (by show pool.usedBytes + bytes ≤ _; omega)
  | @released s pool bytes hpool hused hbytes =>
    refine Tally.of_insert (s := { s with usedBytes := s.usedBytes - bytes }) hpool rfl ?_ rfl ?_ ?_ ?_
    · intro f id hne
      exact bytesIn_of_ne hne
    · rw [bytesIn_self]
    · rw [bytesIn_self]
      show pool.usedBytes - bytes + s.usedBytes = pool.usedBytes + (s.usedBytes - bytes)
      omega
    · exact .inl (Nat.sub_le _ _)

theorem Opens.tally (h : Opens pools pools' o') : Tally host pools none pools' o' := by
  cases h with
  | own => exact .refl host pools none
  | @shared poolId pool maxBytes hpool =>
    exact Tally.of_insert (s := { maxBytes, usedBytes := 0, poolId }) hpool rfl (fun _ _ _ => rfl)
      rfl rfl rfl (.inl le_rfl)

theorem Shares.tally (h : Shares host pools o pools' s) : Tally host pools o pools' (some s) := by
  cases h with
  | @first poolId pool maxBytes hpool =>
    exact Tally.of_insert (s := { maxBytes, usedBytes := 0, poolId }) hpool rfl (fun _ _ _ => rfl)
      rfl rfl rfl (.inl le_rfl)
  | @more current pool maxBytes hpool hused hmax =>
    refine Tally.of_insert (s := { current with maxBytes }) hpool rfl ?_ rfl ?_ ?_ (.inl le_rfl)
    · intro f id hne
      exact bytesIn_of_ne hne
    · rw [bytesIn_self]
      show pool.sharedBytes + (maxBytes - current.maxBytes) + current.maxBytes =
        pool.sharedBytes + maxBytes
      omega
    · rw [bytesIn_self]
  | @moved current poolId pool currentPool maxBytes available hpool hne hcurrent hused hcurrentUsed
      hcurrentShared havailable hbytes =>
    have hpays := SharedStoragePool.availableBytes_eq_ok.mp havailable
    have hat := poolAt_of_lookup hpool
    have hatCurrent := poolAt_of_lookup hcurrent
    refine ⟨?_, ?_, ?_, ?_, ?_⟩
    · intro id
      rw [AList.mem_insert, AList.mem_insert]
      constructor
      · rintro (rfl | rfl | hmem)
        · exact mem_pools_of_lookup hpool
        · exact mem_pools_of_lookup hcurrent
        · exact hmem
      · exact fun hmem => .inr (.inr hmem)
    -- The pool that takes the account, the pool that gives it up, and the others.
    all_goals
      intro id
      by_cases heq : id = poolId
      · subst heq
        simp only [poolAt_insert_self, hat, bytesIn, if_neg hne, if_true] <;> omega
      · rw [poolAt_insert_of_ne heq]
        by_cases heq' : id = current.poolId
        · subst heq'
          simp only [poolAt_insert_self, hatCurrent, bytesIn, if_neg (Ne.symm heq), if_true] <;>
            omega
        · simp only [poolAt_insert_of_ne heq', bytesIn, if_neg (Ne.symm heq), if_neg (Ne.symm heq')] <;>
            omega

end Tallies

section Moves

variable {layout : Layout} {cost : ℕ} {host : Host} {env : Env} {L : String → Prop}
  {P : SharedStoragePool → Prop} {c c' : Contract} {n : NodeId} {a account account' : Account}
  {deposit : ℕ} {transfers : List Transfer} {r : VAccount} {s : AccountSharedStorage}

/-! ## The sums over the accounts -/

theorem Contract.balanced_new (layout : Layout) (env : Env) : (Contract.new env).Balanced layout :=
  ⟨fun _ => rfl, fun _ => rfl⟩

/-- An account has its bytes among those that the pool counts. -/
theorem Contract.Balanced.shares (h : c.Balanced layout)
    (ha : c.accounts.lookup n = some a.stored) (hs : a.sharedStorage = some s) :
    s.usedBytes ≤ (poolAt c.sharedStoragePools s.poolId).usedBytes ∧
      s.maxBytes ≤ (poolAt c.sharedStoragePools s.poolId).sharedBytes := by
  have hbytes : ∀ f, f s ≤ c.bytesFrom f s.poolId := by
    intro f
    have hle := Map.amount_le_total (fun r => bytesIn f s.poolId r.sharedStorage) c.accounts n
    rw [Map.amount_of_lookup ha] at hle
    have hshared : a.stored.sharedStorage = some s := hs
    rw [hshared, bytesIn_self] at hle
    exact hle
  rw [h.used, h.shared]
  exact ⟨(hbytes _).trans (Nat.le_add_left _ _), hbytes _⟩

/-- The pools stay balanced when an account is written together with them. -/
theorem Contract.Balanced.tally (h : c.Balanced layout) (host : Host)
    (ht : Tally host c.sharedStoragePools ((c.accounts.lookup n).bind VAccount.sharedStorage)
      c'.sharedStoragePools r.sharedStorage)
    (haccounts : c'.accounts = c.accounts.insert n r) : c'.Balanced layout := by
  have hbytes : ∀ f id, c'.bytesFrom f id +
      bytesIn f id ((c.accounts.lookup n).bind VAccount.sharedStorage) =
        c.bytesFrom f id + bytesIn f id r.sharedStorage := by
    intro f id
    have hsum := Map.total_insert (fun r => bytesIn f id r.sharedStorage) c.accounts n r
    rw [← haccounts] at hsum
    cases hlookup : c.accounts.lookup n with
    | none => simpa [Contract.bytesFrom, Map.amount, hlookup] using hsum
    | some r' => simpa [Contract.bytesFrom, Map.amount, hlookup] using hsum
  refine ⟨?_, ?_⟩
  · intro id
    have hshared := ht.shared id
    have hold := h.shared id
    have hnew := hbytes AccountSharedStorage.maxBytes id
    omega
  · intro id
    have hused := ht.used id
    have hold := h.used id
    have hnew := hbytes AccountSharedStorage.usedBytes id
    simp only [ht.mem]
    omega

/-- Saving an account keeps the pools balanced. -/
theorem Saves.balanced (hsaves : Saves host c account c' account') (h : c.Balanced layout)
    (hr : c.accounts.lookup account.nodeId = some r)
    (hshared : r.sharedStorage = account.sharedStorage) : c'.Balanced layout := by
  refine h.tally (n := account.nodeId) (r := account'.stored) host ?_ (by rw [hsaves.frame])
  rw [hr, Option.bind_some, hshared]
  exact hsaves.settled.tally

/-- What a deposit leaves in use from its pool. -/
theorem usedBytes_of_deposit {id : AccountId} {pool pool₁ pool' : SharedStoragePool}
    (hpool' : pool' = { pool₁ with
      usedBytes := pool.usedBytes + ((layout.host cost).storageUsage
        (c.internalSetSharedStoragePool id pool₁) - (layout.host cost).storageUsage c) }) :
    pool'.usedBytes = pool.usedBytes + if id ∈ c.sharedStoragePools then 0 else layout.pool id := by
  rw [hpool']
  show pool.usedBytes + (layout.usage _ - layout.usage c) = _
  rw [layout.usage_setPool, Nat.add_sub_cancel_left]

/-- A deposit keeps the pools balanced. -/
theorem Contract.Balanced.pooled {id : AccountId} {pool pool₁ pool' : SharedStoragePool}
    (h : c.Balanced layout) (hpool : pool = poolAt c.sharedStoragePools id)
    (hshared : pool'.sharedBytes = pool.sharedBytes)
    (hused : pool'.usedBytes = pool.usedBytes +
      if id ∈ c.sharedStoragePools then 0 else layout.pool id) :
    ((c.internalSetSharedStoragePool id pool₁).internalSetSharedStoragePool id pool').Balanced
      layout := by
  simp only [Contract.internalSetSharedStoragePool, AList.insert_insert]
  refine ⟨?_, ?_⟩
  all_goals
    intro id'
    by_cases heq : id' = id
  · subst heq
    rw [poolAt_insert_self, hshared, hpool, h.shared]
    rfl
  · simp only [poolAt_insert_of_ne heq]
    exact h.shared id'
  · subst heq
    have hold := h.used id'
    rw [← hpool] at hold
    rw [poolAt_insert_self, hused, hold]
    simp only [AList.mem_insert, true_or, if_true]
    split
    · exact Nat.add_zero _
    · rw [Nat.zero_add]
      exact Nat.add_comm _ _
  · simp only [poolAt_insert_of_ne heq, AList.mem_insert, heq, false_or]
    exact h.used id'

/-- **A move keeps the pools balanced.** -/
theorem Move.balanced (hmove : Move (layout.host cost) env L P c c' deposit transfers)
    (h : c.Balanced layout) (hsound : c.Sound) : c'.Balanced layout := by
  cases hmove with
  | @updated n a a' _ _ c₁ _ t ha hedits hbalance htracker hsaves =>
    have haccounts : c₁.accounts = c.accounts := by rw [hedits.frame]
    have hpools : c₁.sharedStoragePools = c.sharedStoragePools := by rw [hedits.frame]
    have h₁ : c₁.Balanced layout := by
      refine ⟨?_, ?_⟩
      all_goals
        simp only [hpools, Contract.bytesFrom, haccounts]
      · exact h.shared
      · exact h.used
    exact hsaves.balanced h₁ (haccounts ▸ ha) rfl
  | @created id a' _ shared pools _ _ t hid hnew hopens hc htracker hsaves =>
    subst hc
    refine hsaves.balanced (h.tally (n := c.nodeCount) (layout.host cost) ?_ rfl)
      (AList.lookup_insert _) rfl
    rw [hsound.lookup_nodeCount]
    exact hopens.tally
  | @withdrawn n a a' amount _ ha hamount hsaves => exact hsaves.balanced h ha rfl
  | returned => exact h
  | @pooled ownerId pool pool₁ pool' c₁ hpool hdeposit hpool₁ hc hpool' hP =>
    subst hc
    exact h.pooled hpool (by rw [hpool', hpool₁]) (usedBytes_of_deposit hpool')
  | @shared n a a' s pools c₁ _ t ha hshares hc htracker hsaves =>
    subst hc
    refine hsaves.balanced (h.tally (n := n) (layout.host cost) ?_ rfl)
      (AList.lookup_insert _) rfl
    rw [ha]
    exact hshares.tally
  | changed => exact ⟨h.shared, h.used⟩

theorem Moves.balanced (hmoves : Moves (layout.host cost) env L P c c' deposit transfers)
    (h : c.Balanced layout) (hsound : c.Sound) : c'.Balanced layout := by
  induction hmoves with
  | refl => exact h
  | tail hmoves hmove ih => exact hmove.balanced ih (hmoves.sound hsound)

/-! ## What the pools pay for -/

theorem Contract.paid_new (host : Host) (env : Env) : (Contract.new env).Paid host :=
  ⟨fun _ => Nat.zero_le _, fun _ => Nat.zero_le _⟩

/-- An account takes no more from the pools than they pay for. -/
theorem Contract.Paid.tally {o o' : Option AccountSharedStorage} (h : c.Paid host)
    (ht : Tally host c.sharedStoragePools o c'.sharedStoragePools o') : c'.Paid host := by
  refine ⟨?_, ?_⟩
  · intro id
    rw [ht.balance]
    rcases ht.available id with hle | hle
    · exact hle.trans (h.paid id)
    · exact hle.trans (Nat.mod_le _ _)
  · intro id
    rw [ht.balance]
    exact h.balance_le id

/-- A deposit pays for the record of its pool. -/
theorem Contract.Paid.pooled {id : AccountId} {pool pool₁ pool' : SharedStoragePool}
    (h : c.Paid (layout.host cost)) (hcost : 0 < cost)
    (hmin : layout.pool id * cost ≤ MINIMUM_SHARED_STORAGE_BALANCE)
    (hpool : pool = poolAt c.sharedStoragePools id)
    (hdeposit : MINIMUM_SHARED_STORAGE_BALANCE ≤ env.attachedDeposit)
    (hbalance : pool'.storageBalance = saturatingAdd pool.storageBalance env.attachedDeposit)
    (hused : pool'.usedBytes = pool.usedBytes +
      if id ∈ c.sharedStoragePools then 0 else layout.pool id) :
    ((c.internalSetSharedStoragePool id pool₁).internalSetSharedStoragePool id pool').Paid
      (layout.host cost) := by
  simp only [Contract.internalSetSharedStoragePool, AList.insert_insert]
  refine ⟨?_, ?_⟩
  all_goals
    intro id'
    by_cases heq : id' = id
  · subst heq
    rw [poolAt_insert_self, hused, hbalance]
    by_cases hmem : id' ∈ c.sharedStoragePools
    · have hle : pool.storageBalance ≤ saturatingAdd pool.storageBalance env.attachedDeposit :=
        le_min (Nat.le_add_right _ _) (hpool ▸ h.balance_le id')
      rw [if_pos hmem, Nat.add_zero]
      refine le_trans ?_ (Nat.div_le_div_right hle)
      rw [hpool]
      exact h.paid id'
    · rw [if_neg hmem, hpool, poolAt_of_notMem hmem]
      have hsaturated : saturatingAdd SharedStoragePool.new.storageBalance env.attachedDeposit =
          env.attachedDeposit := by
        show saturatingAdd 0 env.attachedDeposit = _
        rw [saturatingAdd_of_le ((Nat.zero_add _).trans_le env.attachedDeposit_le)]
        exact Nat.zero_add _
      show _ ≤ _ / cost
      rw [hsaturated, Nat.le_div_iff_mul_le hcost]
      show (0 + layout.pool id') * cost ≤ _
      rw [Nat.zero_add]
      exact hmin.trans hdeposit
  · simp only [poolAt_insert_of_ne heq]
    exact h.paid id'
  · subst heq
    rw [poolAt_insert_self, hbalance]
    exact saturatingAdd_le_max _ _
  · simp only [poolAt_insert_of_ne heq]
    exact h.balance_le id'

/-- **The pools pay for what is in use** after a move, if the least deposit pays for the record of a
pool. -/
theorem Move.paid (hmove : Move (layout.host cost) env L P c c' deposit transfers)
    (hcost : 0 < cost) (hmin : ∀ id, layout.pool id * cost ≤ MINIMUM_SHARED_STORAGE_BALANCE)
    (h : c.Paid (layout.host cost)) : c'.Paid (layout.host cost) := by
  cases hmove with
  | @updated n a a' _ _ c₁ _ t ha hedits hbalance htracker hsaves =>
    have hpools : c₁.sharedStoragePools = c.sharedStoragePools := by rw [hedits.frame]
    have h₁ : c₁.Paid (layout.host cost) := by
      refine ⟨?_, ?_⟩
      · rw [hpools]
        exact h.paid
      · rw [hpools]
        exact h.balance_le
    exact h₁.tally hsaves.settled.tally
  | @created id a' _ shared pools _ _ t hid hnew hopens hc htracker hsaves =>
    subst hc
    refine Contract.Paid.tally ?_ hsaves.settled.tally
    exact h.tally hopens.tally
  | withdrawn ha hamount hsaves => exact h.tally hsaves.settled.tally
  | returned => exact h
  | @pooled ownerId pool pool₁ pool' c₁ hpool hdeposit hpool₁ hc hpool' hP =>
    subst hc
    exact h.pooled hcost (hmin ownerId) hpool hdeposit (by rw [hpool', hpool₁])
      (usedBytes_of_deposit hpool')
  | @shared n a a' s pools c₁ _ t ha hshares hc htracker hsaves =>
    subst hc
    refine Contract.Paid.tally ?_ hsaves.settled.tally
    exact h.tally hshares.tally
  | changed => exact ⟨h.paid, h.balance_le⟩

theorem Moves.paid (hmoves : Moves (layout.host cost) env L P c c' deposit transfers)
    (hcost : 0 < cost) (hmin : ∀ id, layout.pool id * cost ≤ MINIMUM_SHARED_STORAGE_BALANCE)
    (h : c.Paid (layout.host cost)) : c'.Paid (layout.host cost) := by
  induction hmoves with
  | refl => exact h
  | tail _ hmove ih => exact hmove.paid hcost hmin ih

end Moves

section Available

variable {host : Host} {env : Env} {L : String → Prop} {c c' : Contract} {deposit : ℕ}
  {transfers : List Transfer}

/-- What an account takes from a pool is available there. -/
theorem Tally.all_available {pools pools' : Map AccountId SharedStoragePool}
    {o o' : Option AccountSharedStorage} (ht : Tally host pools o pools' o')
    (h : ∀ id, (poolAt pools id).usedBytes ≤
      (poolAt pools id).storageBalance / host.storageByteCost % 2 ^ 64) (id : AccountId) :
    (poolAt pools' id).usedBytes ≤
      (poolAt pools' id).storageBalance / host.storageByteCost % 2 ^ 64 := by
  rw [ht.balance]
  rcases ht.available id with hle | hle
  · exact hle.trans (h id)
  · exact hle

/-- A move keeps what the pools use available, if a deposit to a pool does. -/
theorem Move.available (hmove : Move host env L (fun pool => pool.usedBytes ≤
      pool.storageBalance / host.storageByteCost % 2 ^ 64) c c' deposit transfers)
    (h : c.Available host) : c'.Available host := by
  cases hmove with
  | @updated n a a' _ _ c₁ _ t ha hedits hbalance htracker hsaves =>
    have hpools : c₁.sharedStoragePools = c.sharedStoragePools := by rw [hedits.frame]
    exact hsaves.settled.tally.all_available (hpools ▸ h)
  | created hid hnew hopens hc htracker hsaves =>
    subst hc
    exact hsaves.settled.tally.all_available (hopens.tally.all_available h)
  | withdrawn ha hamount hsaves => exact hsaves.settled.tally.all_available h
  | returned => exact h
  | @pooled ownerId pool pool₁ pool' c₁ hpool hdeposit hpool₁ hc hpool' hP =>
    subst hc
    intro id
    simp only [Contract.internalSetSharedStoragePool, AList.insert_insert]
    by_cases heq : id = ownerId
    · subst heq
      rw [poolAt_insert_self]
      exact hP
    · rw [poolAt_insert_of_ne heq]
      exact h id
  | shared ha hshares hc htracker hsaves =>
    subst hc
    exact hsaves.settled.tally.all_available (hshares.tally.all_available h)
  | changed => exact h

end Available

end UncContracts.Social
