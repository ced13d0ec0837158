import UncContracts.Social.Methods

/-!
# Saving an account

What saving an account does to its record and to its shared pool, for any bytes that its tracker
has seen, and when an account that is saved pays for what it uses.

## Main definitions

* `Account.Covered`: an account pays for the bytes that it does not have from a pool
* `Settled`: the bytes that a pool gives to an account, or takes back
* `Saves`: the record and the pools after an account is saved

## Main results

* `StorageTracker.window`: what a tracker sees in a window
* `internalSetAccount_saves`: saving an account
* `internalInitialSetAccount_saves`: saving a new account
-/

namespace UncContracts.Social

open Foundation

/-! ## Trackers -/

namespace StorageTracker

variable {t t₁ t₂ : StorageTracker} {u u' : ℕ}

theorem start_spec (h : t.start u = .ok t₁) :
    t.initialStorageUsage = none ∧ t₁ = { t with initialStorageUsage := some u } := by
  simp only [start, bind_eq_ok, ensure_eq_ok, pure_eq_ok] at h
  obtain ⟨_, hnone, rfl⟩ := h
  exact ⟨hnone, rfl⟩

/-- A tracker that stops adds what was measured since it started. -/
theorem stop_spec (h : t.stop u' = .ok t₁) : ∃ initial, t.initialStorageUsage = some initial ∧
    t₁ = { bytesAdded := t.bytesAdded + (u' - initial)
           bytesReleased := t.bytesReleased + (initial - u') } := by
  simp only [stop, bind_eq_ok, expect_eq_ok] at h
  obtain ⟨initial, hinitial, h⟩ := h
  refine ⟨initial, hinitial, ?_⟩
  split at h
  · next hle =>
    simp only [bind_eq_ok, checkedAdd_eq_ok, pure_eq_ok] at h
    obtain ⟨_, ⟨-, rfl⟩, rfl⟩ := h
    simp [Nat.sub_eq_zero_of_le hle]
  · next hlt =>
    simp only [bind_eq_ok, checkedAdd_eq_ok, pure_eq_ok] at h
    obtain ⟨_, ⟨-, rfl⟩, rfl⟩ := h
    simp [Nat.sub_eq_zero_of_le (Nat.le_of_not_le hlt)]

/-- What a tracker sees in a window. -/
theorem window (h : t.start u = .ok t₁) (h' : t₁.stop u' = .ok t₂) :
    t.initialStorageUsage = none ∧ t₂ = { bytesAdded := t.bytesAdded + (u' - u)
                                          bytesReleased := t.bytesReleased + (u - u') } := by
  obtain ⟨hnone, rfl⟩ := start_spec h
  obtain ⟨_, ⟨⟩, rfl⟩ := stop_spec h'
  exact ⟨hnone, rfl⟩

/-- A tracker that consumes another one adds what that one has added, and replaces what was released. -/
theorem consume_spec {other : StorageTracker} {p : StorageTracker × StorageTracker}
    (h : t.consume other = .ok p) : other.initialStorageUsage = none ∧
      p = ({ t with bytesAdded := t.bytesAdded + other.bytesAdded
                    bytesReleased := other.bytesReleased }, {}) := by
  simp only [consume, bind_eq_ok, checkedAdd_eq_ok, ensure_eq_ok, pure_eq_ok] at h
  obtain ⟨_, ⟨-, rfl⟩, _, hnone, rfl⟩ := h
  exact ⟨hnone, by rw [hnone]⟩

end StorageTracker

/-! ## Shared pools -/

/-- The bytes that an account has from its pool. -/
def Account.sharedUsedBytes (account : Account) : ℕ :=
  (account.sharedStorage.map AccountSharedStorage.usedBytes).getD 0

/-- An account has no more bytes from its pool than it uses and may have, and pays for the rest. -/
structure Account.Covered (host : Host) (account : Account) : Prop where
  used_le_max : account.usedBytes ≤ u64Max
  shared_le_used : account.sharedUsedBytes ≤ account.usedBytes
  shared_le_max : ∀ s, account.sharedStorage = some s → s.usedBytes ≤ s.maxBytes
  covered : saturatingMul (account.usedBytes - account.sharedUsedBytes) host.storageByteCost ≤
    account.storageBalance

/-- What settling does to the shared storage of an account and to the pools. -/
inductive Settled (host : Host) (pools : Map AccountId SharedStoragePool) :
    Option AccountSharedStorage → Map AccountId SharedStoragePool → Option AccountSharedStorage →
    Prop
  | same (s : Option AccountSharedStorage) : Settled host pools s pools s
  | charged {s : AccountSharedStorage} {pool : SharedStoragePool} {availableBytes bytes : ℕ}
    (hpool : pools.lookup s.poolId = some pool) (hmax : s.usedBytes + bytes ≤ s.maxBytes)
    (havailable : pool.availableBytes host = .ok availableBytes) (hbytes : bytes ≤ availableBytes) :
    Settled host pools (some s) (pools.insert s.poolId
      { pool with usedBytes := pool.usedBytes + bytes }) (some { s with usedBytes := s.usedBytes + bytes })
  | released {s : AccountSharedStorage} {pool : SharedStoragePool} {bytes : ℕ}
    (hpool : pools.lookup s.poolId = some pool) (hused : bytes ≤ s.usedBytes)
    (hbytes : bytes ≤ pool.usedBytes) :
    Settled host pools (some s) (pools.insert s.poolId
      { pool with usedBytes := pool.usedBytes - bytes }) (some { s with usedBytes := s.usedBytes - bytes })

/-- The record and the pools after an account is saved. -/
structure Saves (host : Host) (c : Contract) (account : Account) (c' : Contract)
    (account' : Account) : Prop where
  frame : c' = { c with accounts := c.accounts.insert account.nodeId account'.stored
                        sharedStoragePools := c'.sharedStoragePools }
  balance : account'.storageBalance = account.storageBalance
  usedBytes : account'.usedBytes + account.storageTracker.bytesReleased =
    account.usedBytes + account.storageTracker.bytesAdded
  settled : Settled host c.sharedStoragePools account.sharedStorage c'.sharedStoragePools
    account'.sharedStorage
  covered : account.Covered host → account'.Covered host

section Saving

variable {host : Host} {env : Env} {c c' : Contract} {account account' : Account}

theorem assertStorageCovered_eq_ok {u : Unit} : account.assertStorageCovered host = .ok u ↔
    account.sharedUsedBytes ≤ account.usedBytes ∧
      saturatingMul (account.usedBytes - account.sharedUsedBytes) host.storageByteCost ≤
        account.storageBalance := by
  simp only [Account.assertStorageCovered, Account.ownBytes, bind_eq_ok, checkedSub_eq_ok,
    ensure_eq_ok, Account.sharedUsedBytes]
  constructor
  · rintro ⟨_, ⟨hle, rfl⟩, hcovered⟩
    exact ⟨hle, hcovered⟩
  · rintro ⟨hle, hcovered⟩
    exact ⟨_, ⟨hle, rfl⟩, hcovered⟩

theorem SharedStoragePool.availableBytes_eq_ok {pool : SharedStoragePool} {n : ℕ} :
    pool.availableBytes host = .ok n ↔
      pool.usedBytes + n = pool.storageBalance / host.storageByteCost % 2 ^ 64 := by
  simp only [SharedStoragePool.availableBytes, checkedSub_eq_ok]
  omega

/-- The bytes that an account may still take, from its limit and from its pool. -/
theorem availableBytes_eq_ok {s : AccountSharedStorage} {pool : SharedStoragePool} {n : ℕ}
    (h : s.availableBytes host pool = .ok n) : s.usedBytes ≤ s.maxBytes ∧
      ∃ m, pool.availableBytes host = .ok m ∧ n = min (s.maxBytes - s.usedBytes) m := by
  simp only [AccountSharedStorage.availableBytes, bind_eq_ok, checkedSub_eq_ok, pure_eq_ok] at h
  obtain ⟨_, ⟨hle, rfl⟩, m, hm, rfl⟩ := h
  exact ⟨hle, m, hm, rfl⟩

theorem chargePool_settled {n : ℕ} (h : c.chargePool host account n = .ok (c', account')) :
    c' = { c with sharedStoragePools := c'.sharedStoragePools } ∧
      account' = { account with sharedStorage := account'.sharedStorage } ∧
      Settled host c.sharedStoragePools account.sharedStorage c'.sharedStoragePools
        account'.sharedStorage ∧
      ∀ s, account'.sharedStorage = some s → s.usedBytes ≤ s.maxBytes := by
  unfold Contract.chargePool at h
  split at h
  · next hnone =>
    cases h
    exact ⟨rfl, rfl, .same _, fun s hs => by cases hnone.symm.trans hs⟩
  · next s hsome =>
    simp only [bind_eq_ok, Contract.internalUnwrapSharedStoragePool, expect_eq_ok] at h
    obtain ⟨pool, hpool, available, havailable, h⟩ := h
    obtain ⟨hmax, m, hm, rfl⟩ := availableBytes_eq_ok havailable
    split at h
    · simp only [bind_eq_ok, checkedAdd_eq_ok, pure_eq_ok, Prod.mk.injEq] at h
      obtain ⟨_, ⟨-, rfl⟩, _, ⟨-, rfl⟩, rfl, rfl⟩ := h
      have hle : s.usedBytes + min (min (s.maxBytes - s.usedBytes) m) n ≤ s.maxBytes := by omega
      refine ⟨rfl, rfl, ?_, ?_⟩
      · rw [hsome]
        exact .charged hpool hle hm (by omega)
      · intro s' hs'
        cases hs'
        exact hle
    · cases h
      refine ⟨rfl, rfl, .same _, ?_⟩
      intro s' hs'
      cases hsome.symm.trans hs'
      exact hmax

theorem releasePool_settled {n : ℕ} (h : c.releasePool account n = .ok (c', account')) :
    c' = { c with sharedStoragePools := c'.sharedStoragePools } ∧
      account' = { account with sharedStorage := account'.sharedStorage } ∧
      Settled host c.sharedStoragePools account.sharedStorage c'.sharedStoragePools
        account'.sharedStorage ∧
      (∀ s', account'.sharedStorage = some s' → ∃ s, account.sharedStorage = some s ∧
        s'.maxBytes = s.maxBytes ∧ s'.usedBytes ≤ s.usedBytes) ∧
      account'.sharedUsedBytes = account.sharedUsedBytes - n := by
  unfold Contract.releasePool at h
  split at h
  · next hnone =>
    cases h
    refine ⟨rfl, rfl, .same _, ?_, ?_⟩
    · intro s hs
      cases hnone.symm.trans hs
    · simp [Account.sharedUsedBytes, hnone]
  · next s hsome =>
    have hshared : s.usedBytes - min s.usedBytes n = s.usedBytes - n := by omega
    dsimp only at h
    split at h
    · simp only [bind_eq_ok, Contract.internalUnwrapSharedStoragePool, expect_eq_ok, ensure_eq_ok,
        pure_eq_ok, Prod.mk.injEq] at h
      obtain ⟨pool, hpool, _, hbytes, rfl, rfl⟩ := h
      refine ⟨rfl, rfl, ?_, ?_, ?_⟩
      · rw [hsome]
        exact .released hpool (Nat.min_le_left _ _) hbytes
      · intro s' hs'
        cases hs'
        exact ⟨s, hsome, rfl, Nat.sub_le _ _⟩
      · simp [Account.sharedUsedBytes, hsome, hshared]
    · next hzero =>
      cases h
      have hmin : min s.usedBytes n = 0 := Nat.eq_zero_of_not_pos hzero
      rw [hmin, Nat.sub_zero] at hshared ⊢
      refine ⟨rfl, rfl, ?_, ?_, ?_⟩
      · rw [hsome]
        exact .same _
      · intro s' hs'
        cases hs'
        exact ⟨s, hsome, rfl, le_rfl⟩
      · simp [Account.sharedUsedBytes, hsome, ← hshared]

theorem settle_saves (h : c.settle host account = .ok (c', account')) :
    c' = { c with sharedStoragePools := c'.sharedStoragePools } ∧
      account' = { account with usedBytes := account'.usedBytes
                                sharedStorage := account'.sharedStorage } ∧
      account'.usedBytes + account.storageTracker.bytesReleased =
        account.usedBytes + account.storageTracker.bytesAdded ∧
      Settled host c.sharedStoragePools account.sharedStorage c'.sharedStoragePools
        account'.sharedStorage ∧
      (account.Covered host → account'.Covered host) := by
  unfold Contract.settle at h
  dsimp only at h
  split at h
  · next hlt =>
    simp only [bind_eq_ok, checkedAdd_eq_ok, assertStorageCovered_eq_ok, pure_eq_ok,
      Prod.mk.injEq] at h
    obtain ⟨_, ⟨hle, rfl⟩, ⟨c₁, account₁⟩, hcharge, _, hcovered, rfl, rfl⟩ := h
    dsimp only at hcovered ⊢
    obtain ⟨hc, haccount, hsettled, hmax⟩ := chargePool_settled hcharge
    have hused : account₁.usedBytes = account.usedBytes +
        (account.storageTracker.bytesAdded - account.storageTracker.bytesReleased) := by
      rw [haccount]
    refine ⟨hc, by rw [haccount], by omega, hsettled, fun _ => ?_⟩
    exact ⟨hused ▸ hle, hcovered.1, hmax, hcovered.2⟩
  · split at h
    · next hlt =>
      simp only [bind_eq_ok, ensure_eq_ok, pure_eq_ok, Prod.mk.injEq] at h
      obtain ⟨_, hle, ⟨c₁, account₁⟩, hrelease, rfl, rfl⟩ := h
      dsimp only
      obtain ⟨hc, haccount, hsettled, hmax, hshared⟩ := releasePool_settled hrelease
      have hused : account₁.usedBytes = account.usedBytes := by rw [haccount]
      have hbalance : account₁.storageBalance = account.storageBalance := by rw [haccount]
      refine ⟨hc, by rw [haccount], by omega, hsettled, ?_⟩
      intro hcovered
      have hle' := hcovered.shared_le_used
      refine ⟨(Nat.sub_le _ _).trans (hused ▸ hcovered.used_le_max), ?_, ?_, ?_⟩
      · show account₁.sharedUsedBytes ≤ _
        rw [hshared, hused]
        exact Nat.sub_le_sub_right hle' _
      · intro s' hs'
        obtain ⟨s, hs, hmax', hused⟩ := hmax s' hs'
        exact hmax' ▸ hused.trans (hcovered.shared_le_max s hs)
      · refine le_trans ?_ (hbalance.symm ▸ hcovered.covered)
        refine min_le_min_right _ (Nat.mul_le_mul_right _ ?_)
        show account₁.usedBytes - (account.storageTracker.bytesReleased -
          account.storageTracker.bytesAdded) - account₁.sharedUsedBytes ≤ _
        rw [hshared, hused]
        omega
    · next hge hle =>
      cases h
      exact ⟨rfl, rfl, by omega, .same _, id⟩

/-- **Saving an account.** -/
theorem internalSetAccount_saves {existed : Bool}
    (h : c.internalSetAccount host account = .ok (c', existed)) :
    account.storageTracker.initialStorageUsage = none ∧
      existed = (c.accounts.lookup account.nodeId).isSome ∧
      ∃ account', Saves host c account c' account' := by
  simp only [Contract.internalSetAccount, bind_eq_ok, pure_eq_ok, Prod.mk.injEq] at h
  obtain ⟨⟨c₁, account₁⟩, hsettle, _, hdrop, rfl, rfl⟩ := h
  obtain ⟨hc, haccount, hused, hsettled, hcovered⟩ := settle_saves hsettle
  have hid : account₁.nodeId = account.nodeId := by rw [haccount]
  have hbalance : account₁.storageBalance = account.storageBalance := by rw [haccount]
  have haccounts : c₁.accounts = c.accounts := by rw [hc]
  refine ⟨?_, ?_, account₁, ?_, hbalance, hused, hsettled, hcovered⟩
  · simp only [StorageTracker.drop, ensure_eq_ok, StorageTracker.isEmpty] at hdrop
    have htracker : account₁.storageTracker = account.storageTracker := by rw [haccount]
    simpa [htracker] using hdrop
  · rw [haccounts, hid]
  · rw [hc, hid]

/-! ## Reading an account -/

variable {id : AccountId} {n : NodeId}

theorem accountAt_eq_ok : c.accountAt n = .ok account ↔ ∃ r a, c.accounts.lookup n = some r ∧
    r.toAccount = .ok a ∧ account = { a with nodeId := n } := by
  simp only [Contract.accountAt, bind_eq_ok, expect_eq_ok, pure_eq_ok]
  constructor
  · rintro ⟨r, hr, a, ha, rfl⟩
    exact ⟨r, a, hr, ha, rfl⟩
  · rintro ⟨r, a, hr, ha, rfl⟩
    exact ⟨r, hr, a, ha, rfl⟩

theorem accountAt_of_stored {a : Account} (h : c.accounts.lookup n = some a.stored) :
    c.accountAt n = .ok { a with nodeId := n, storageTracker := {} } :=
  accountAt_eq_ok.mpr ⟨_, _, h, rfl, rfl⟩

theorem internalGetAccount_eq_some : c.internalGetAccount id = .ok (some account) ↔
    ∃ n, c.rootNode.children.get id = some (.node n) ∧ c.accountAt n = .ok account := by
  unfold Contract.internalGetAccount
  constructor
  · intro h
    split at h
    · cases h
    · next n hn =>
      simp only [bind_eq_ok, pure_eq_ok, Option.some.injEq] at h
      obtain ⟨_, ha, rfl⟩ := h
      exact ⟨n, hn, ha⟩
    · cases h
  · rintro ⟨n, hn, ha⟩
    simp [hn, ha]

theorem internalGetAccount_eq_none : c.internalGetAccount id = .ok none ↔
    c.rootNode.children.get id = none := by
  unfold Contract.internalGetAccount
  constructor
  · intro h
    split at h
    · next hnone => exact hnone
    · simp only [bind_eq_ok, pure_eq_ok] at h
      obtain ⟨_, -, ⟨⟩⟩ := h
    · cases h
  · intro h
    simp [h]

theorem internalUnwrapAccount_eq_ok : c.internalUnwrapAccount id = .ok account ↔
    c.internalGetAccount id = .ok (some account) := by
  simp only [Contract.internalUnwrapAccount, bind_eq_ok, expect_eq_ok]
  constructor
  · rintro ⟨a, ha, rfl⟩
    exact ha
  · intro h
    exact ⟨_, h, rfl⟩

/-! ## Withdrawals -/

/-- A withdrawal changes accounts and pools alone. -/
theorem frame_of_internalStorageWithdraw {amount : Option ℕ} {transfers : List Transfer}
    {balance : StorageBalance}
    (h : c.internalStorageWithdraw host env id amount = .ok (c', transfers, balance)) :
    c' = { c with accounts := c'.accounts, sharedStoragePools := c'.sharedStoragePools } := by
  simp only [Contract.internalStorageWithdraw, bind_eq_ok] at h
  obtain ⟨o, -, h⟩ := h
  cases o with
  | none => cases h
  | some available =>
    simp only [bind_eq_ok] at h
    obtain ⟨_, -, h⟩ := h
    split at h
    · simp only [bind_eq_ok, pure_eq_ok, Prod.mk.injEq] at h
      obtain ⟨account, -, ⟨c₁, existed⟩, hsave, _, -, _, -, rfl, -⟩ := h
      obtain ⟨-, -, account', hsaves⟩ := internalSetAccount_saves hsave
      rw [hsaves.frame]
    · simp only [bind_eq_ok, pure_eq_ok, Prod.mk.injEq] at h
      obtain ⟨_, -, _, -, rfl, -⟩ := h
      rfl

theorem frame_of_refundUnused {options : SetOptions} {key : String} {deposit : ℕ}
    {transfers : List Transfer}
    (h : c.refundUnused host env options key deposit = .ok (c', transfers)) :
    c' = { c with accounts := c'.accounts, sharedStoragePools := c'.sharedStoragePools } := by
  simp only [Contract.refundUnused] at h
  split at h
  · simp only [bind_eq_ok] at h
    obtain ⟨accountId, -, o, -, h⟩ := h
    cases o with
    | none =>
      cases pure_eq_ok.mp h
      rfl
    | some balance =>
      simp only [bind_eq_ok, pure_eq_ok, Prod.mk.injEq] at h
      obtain ⟨⟨c₁, transfers₁, balance₁⟩, hwithdraw, rfl, -⟩ := h
      exact frame_of_internalStorageWithdraw hwithdraw
  · cases pure_eq_ok.mp h
    rfl

/-! ## A new account -/

/-- The contract when the window of a new account ends: with its node, its key and a record. -/
def Contract.opened (env : Env) (c : Contract) (id : AccountId) (account : Account) : Contract :=
  { c with
    nodes := c.nodes.insert account.nodeId
      { nodeId := 0, blockHeight := env.blockHeight, children := .empty }
    rootNode := { c.rootNode with
      blockHeight := env.blockHeight
      children := c.rootNode.children.insert id (.node account.nodeId) }
    accounts := c.accounts.insert account.nodeId
      { Account.new account.nodeId with sharedStorage := account.sharedStorage }.stored }

/-- Without bytes in its tracker an account is saved as it is. -/
theorem internalSetAccount_idle (h : account.storageTracker = {}) :
    c.internalSetAccount host account = .ok
      ({ c with accounts := c.accounts.insert account.nodeId account.stored },
        (c.accounts.lookup account.nodeId).isSome) := by
  simp [Contract.internalSetAccount, Contract.settle, h, StorageTracker.drop,
    StorageTracker.isEmpty, ensure]

/-- **Saving a new account.** -/
theorem internalInitialSetAccount_saves (htracker : account.storageTracker = {})
    (h : c.internalInitialSetAccount host env id account = .ok c') :
    c.accounts.lookup account.nodeId = none ∧ ∃ account',
      Saves host (c.opened env id account) { account with storageTracker :=
        { bytesAdded := host.storageUsage (c.opened env id account) - host.storageUsage c
          bytesReleased := host.storageUsage c - host.storageUsage (c.opened env id account) } }
        c' account' := by
  simp only [Contract.internalInitialSetAccount, bind_eq_ok] at h
  obtain ⟨t₁, hstart, node, hnode, ⟨c₂, existed⟩, htemp, _, hexisted, t₂, hstop, ⟨c₃, b⟩, hset, h⟩ := h
  cases hnode
  rw [internalSetAccount_idle rfl] at htemp
  obtain ⟨rfl, rfl⟩ := Prod.mk.inj (Except.ok.inj htemp)
  cases pure_eq_ok.mp h
  have hwindow := (StorageTracker.window hstart hstop).2
  simp only [htracker, Nat.zero_add] at hwindow
  subst hwindow
  obtain ⟨-, -, account', hsaves⟩ := internalSetAccount_saves hset
  refine ⟨?_, account', hsaves⟩
  simpa [Contract.internalSetNode, Account.new] using hexisted

end Saving

end UncContracts.Social
