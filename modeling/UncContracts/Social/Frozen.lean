import UncContracts.Social.PoolAccounting
import UncContracts.Social.Sharing
import UncContracts.Social.Status

/-!
# Contracts that are not live

A contract that is not live refuses every public call that would change its data, but for two of
them: deposits to a pool and shares of one do not look at the status. Such a call changes a pool
whenever its own checks accept it, unless the pool has as many tokens as fit in a word.

## Main definitions

* `SameData`: the data of two contracts is the same
* `Contract.AtRest`: accounts are stored without what their trackers have seen
* `DepositWrites`, `ShareWrites`, `Call.Writes`: the calls that change the data of a contract that is
  not live

## Main results

* `sameData_exec_iff`: the data of a contract that is not live stays, if and only if a call does not
  write
* `frozen_iff`: what is read from a contract that is not live, over a run, and that no contract
  returns to Genesis
-/

namespace UncContracts.Social

open Foundation

/-- The data of two contracts is the same, whatever their status is. -/
structure SameData (c c' : Contract) : Prop where
  accounts : ∀ n, c'.accounts.lookup n = c.accounts.lookup n
  nodes : ∀ n, c'.nodes.lookup n = c.nodes.lookup n
  rootNode : c'.rootNode = c.rootNode
  nodeCount : c'.nodeCount = c.nodeCount
  permissions : ∀ n, c'.permissions.lookup n = c.permissions.lookup n
  sharedStoragePools : ∀ id, c'.sharedStoragePools.lookup id = c.sharedStoragePools.lookup id

/-- Accounts are stored without what their trackers have seen. -/
def Contract.AtRest (c : Contract) : Prop :=
  ∀ n a, c.accounts.lookup n = some (.current a) → a.storageTracker = {}

/-- A deposit to a pool is accepted, and adds to the pool. -/
def DepositWrites (layout : Layout) (env : Env) (c : Contract) (ownerId : AccountId) : Prop :=
  MINIMUM_SHARED_STORAGE_BALANCE ≤ env.attachedDeposit ∧
    match c.sharedStoragePools.lookup ownerId with
    | none => layout.pool ownerId ≤ u64Max
    | some pool => pool.storageBalance ≠ u128Max

/-- A pool shares storage with an account that there is, or that is made. -/
def ShareWrites (layout : Layout) (cost : ℕ) (env : Env) (c : Contract) (accountId : AccountId)
    (maxBytes : ℕ) : Prop :=
  MIN_STORAGE_BYTES ≤ maxBytes ∧ ∃ pool availableBytes,
    c.sharedStoragePools.lookup env.predecessorAccountId = some pool ∧
    pool.availableBytes (layout.host cost) = .ok availableBytes ∧ maxBytes ≤ availableBytes ∧
    match c.internalGetAccount accountId with
    | .error _ => False
    | .ok none =>
      pool.MayShare (layout.host cost) c.sharedStoragePools env.predecessorAccountId maxBytes none ∧
      c.nodeCount + 1 ≤ u32Max ∧ c.accounts.lookup c.nodeCount = none ∧
      (Account.new c.nodeCount).Affords (layout.host cost)
        { maxBytes, usedBytes := 0, poolId := env.predecessorAccountId }
        (c.nodes.amount layout.nodeBytes c.nodeCount)
        (layout.account (some env.predecessorAccountId) +
          layout.entry accountId (.node c.nodeCount) + layout.node)
    | .ok (some account) =>
      pool.MayShare (layout.host cost) c.sharedStoragePools env.predecessorAccountId maxBytes
        account.sharedStorage ∧
      account.Affords (layout.host cost)
        { maxBytes, usedBytes := account.sharedUsedBytes, poolId := env.predecessorAccountId }
        (c.accounts.amount layout.accountBytes account.nodeId)
        (layout.account (some env.predecessorAccountId))

/-- The calls that write without a look at the status. -/
def Call.Writes (layout : Layout) (cost : ℕ) (c : Contract) (call : Call) : Prop :=
  (∀ id ∈ call.env.predecessorAccountId :: call.method.accountIds, isValidAccountId id = true) ∧
    match call.method with
    | .sharedStoragePoolDeposit ownerId =>
      DepositWrites layout call.env c (ownerId.getD call.env.predecessorAccountId)
    | .shareStorage accountId maxBytes =>
      call.env.attachedDeposit = 0 ∧ ShareWrites layout cost call.env c accountId maxBytes
    | _ => False

namespace SameData

variable {c c' c'' : Contract}

theorem refl (c : Contract) : SameData c c := ⟨fun _ => rfl, fun _ => rfl, rfl, rfl, fun _ => rfl, fun _ => rfl⟩

theorem trans (h : SameData c c') (h' : SameData c' c'') : SameData c c'' := by
  refine ⟨?_, ?_, ?_, ?_, ?_, ?_⟩
  · exact fun n => (h'.accounts n).trans (h.accounts n)
  · exact fun n => (h'.nodes n).trans (h.nodes n)
  · exact h'.rootNode.trans h.rootNode
  · exact h'.nodeCount.trans h.nodeCount
  · exact fun n => (h'.permissions n).trans (h.permissions n)
  · exact fun id => (h'.sharedStoragePools id).trans (h.sharedStoragePools id)

theorem atRest (h : SameData c c') (hrest : c.AtRest) : c'.AtRest := by
  intro n a ha
  exact hrest n a ((h.accounts n).symm.trans ha)

theorem internalGetAccount (h : SameData c c') (id : AccountId) :
    c'.internalGetAccount id = c.internalGetAccount id := by
  simp only [Contract.internalGetAccount, Contract.accountAt, h.rootNode, h.accounts]

theorem amount_accounts (h : SameData c c') (f : VAccount → ℕ) (n : NodeId) :
    c'.accounts.amount f n = c.accounts.amount f n := by
  rw [Map.amount, Map.amount, h.accounts]

theorem amount_nodes (h : SameData c c') (f : Node → ℕ) (n : NodeId) :
    c'.nodes.amount f n = c.nodes.amount f n := by
  rw [Map.amount, Map.amount, h.nodes]

theorem mayShare (h : SameData c c') {host : Host} {poolId : AccountId} {pool : SharedStoragePool}
    {maxBytes : ℕ} {o : Option AccountSharedStorage} :
    pool.MayShare host c'.sharedStoragePools poolId maxBytes o ↔
      pool.MayShare host c.sharedStoragePools poolId maxBytes o := by
  cases o with
  | none => rfl
  | some current => simp only [SharedStoragePool.MayShare, h.sharedStoragePools]

/-- Whether a call writes depends on the data only. -/
theorem writes (h : SameData c c') {layout : Layout} {cost : ℕ} {call : Call} :
    call.Writes layout cost c' ↔ call.Writes layout cost c := by
  have hfree : c.accounts.lookup c'.nodeCount = c.accounts.lookup c.nodeCount := by rw [h.nodeCount]
  simp only [Call.Writes, DepositWrites, ShareWrites, h.sharedStoragePools, h.internalGetAccount,
    h.nodeCount, h.accounts, hfree, h.amount_accounts, h.amount_nodes, h.mayShare]

end SameData

section Frozen

variable {layout : Layout} {cost : ℕ} {host : Host} {env : Env} {c c' : Contract} {id : AccountId}

/-! ## Deposits to a pool -/

theorem saturatingAdd_eq_left {a b : ℕ} (hb : 0 < b) : saturatingAdd a b = a ↔ a = u128Max := by
  unfold saturatingAdd
  omega

/-- A deposit that is accepted adds to its pool, unless the pool is full. -/
theorem sameData_of_deposit_iff {ownerId : Option AccountId}
    (h : c.sharedStoragePoolDeposit (layout.host cost) env ownerId = .ok c') :
    SameData c c' ↔ ∃ pool, c.sharedStoragePools.lookup
      (ownerId.getD env.predecessorAccountId) = some pool ∧ pool.storageBalance = u128Max := by
  obtain ⟨hdeposit, pool, pool₁, pool', c₁, hpool, hpool₁, hc₁, hpool', rfl⟩ :=
    pooled_of_sharedStoragePoolDeposit h
  have hpos : 0 < env.attachedDeposit := lt_of_lt_of_le (by decide) hdeposit
  obtain ⟨id, hid⟩ : ∃ id, id = ownerId.getD env.predecessorAccountId := ⟨_, rfl⟩
  rw [← hid] at hpool hc₁ ⊢
  constructor
  · intro hsame
    have hlookup : c.sharedStoragePools.lookup id = some pool' :=
      (hsame.sharedStoragePools id).symm.trans (AList.lookup_insert _)
    rw [hlookup, Option.getD_some] at hpool
    refine ⟨pool', hlookup, (saturatingAdd_eq_left hpos).mp ?_⟩
    calc saturatingAdd pool'.storageBalance env.attachedDeposit = pool₁.storageBalance := by
          rw [hpool₁, hpool]
      _ = pool'.storageBalance := by rw [hpool']
  · rintro ⟨pool₂, hlookup, hfull⟩
    rw [hlookup, Option.getD_some] at hpool
    subst hpool
    have hsame : pool₁ = pool := by
      rw [hpool₁, (saturatingAdd_eq_left hpos).mpr hfull]
    have husage : (layout.host cost).storageUsage c₁ - (layout.host cost).storageUsage c = 0 := by
      rw [hc₁]
      simp only [Layout.host, layout.usage_setPool, if_pos (mem_pools_of_lookup hlookup)]
      omega
    have hsame' : pool' = pool := by rw [hpool', husage, hsame, Nat.add_zero]
    refine ⟨?_, ?_, ?_, ?_, ?_, ?_⟩
    all_goals rw [hc₁]
    · exact fun _ => rfl
    · exact fun _ => rfl
    · rfl
    · rfl
    · exact fun _ => rfl
    · intro id'
      simp only [Contract.internalSetSharedStoragePool, AList.insert_insert, hsame']
      by_cases heq : id' = id
      · rw [heq, AList.lookup_insert, hlookup]
      · rw [AList.lookup_insert_ne heq]

/-- When a deposit changes data. -/
theorem depositWrites_iff (cost : ℕ) {ownerId : Option AccountId} :
    (∃ c', c.sharedStoragePoolDeposit (layout.host cost) env ownerId = .ok c' ∧ ¬ SameData c c') ↔
      DepositWrites layout env c (ownerId.getD env.predecessorAccountId) := by
  have hisOk := sharedStoragePoolDeposit_isOk layout cost env c ownerId
  unfold DepositWrites
  cases hlookup : c.sharedStoragePools.lookup (ownerId.getD env.predecessorAccountId) with
  | none =>
    have hnew := AList.lookup_eq_none.mp hlookup
    rw [forall_prop_of_true hnew] at hisOk
    rw [← hisOk]
    refine exists_congr fun c' => and_iff_left_of_imp ?_
    intro h hsame
    obtain ⟨pool, hpool, -⟩ := (sameData_of_deposit_iff h).mp hsame
    cases hlookup.symm.trans hpool
  | some pool =>
    have hold := not_not_intro (mem_pools_of_lookup hlookup)
    constructor
    · rintro ⟨c', h, hsame⟩
      refine ⟨(hisOk.mp ⟨c', h⟩).1, ?_⟩
      intro hfull
      exact hsame ((sameData_of_deposit_iff h).mpr ⟨pool, hlookup, hfull⟩)
    · rintro ⟨hdeposit, hfull⟩
      obtain ⟨c', h⟩ := hisOk.mpr ⟨hdeposit, fun hnew => absurd hnew hold⟩
      refine ⟨c', h, ?_⟩
      intro hsame
      obtain ⟨pool', hpool', hfull'⟩ := (sameData_of_deposit_iff h).mp hsame
      cases hlookup.symm.trans hpool'
      exact hfull hfull'

/-! ## Shares of the storage of a pool -/

theorem Contract.AtRest.storageTracker {account : Account} (h : c.AtRest)
    (hid : c.internalGetAccount id = .ok (some account)) : account.storageTracker = {} := by
  obtain ⟨n, -, hat⟩ := internalGetAccount_eq_some.mp hid
  obtain ⟨r, a, hr, ha, rfl⟩ := accountAt_eq_ok.mp hat
  cases r with
  | current b =>
    cases ha
    exact h n a hr
  | v0 v =>
    simp only [VAccount.toAccount, bind_eq_ok, pure_eq_ok] at ha
    obtain ⟨_, -, rfl⟩ := ha
    rfl

theorem Contract.Sound.atRest (h : c.Sound) : c.AtRest := by
  intro n a ha
  obtain ⟨b, hb⟩ := h.records n _ ha
  cases hb
  rfl

/-- When a share changes data. -/
theorem shareWrites_iff {accountId : AccountId} {maxBytes : ℕ} (hrest : c.AtRest) :
    (∃ c', c.shareStorage (layout.host cost) env accountId maxBytes = .ok c' ∧ ¬ SameData c c') ↔
      ShareWrites layout cost env c accountId maxBytes := by
  have hgrows : (∃ c', c.shareStorage (layout.host cost) env accountId maxBytes = .ok c' ∧
      ¬ SameData c c') ↔ ∃ c', c.shareStorage (layout.host cost) env accountId maxBytes = .ok c' := by
    refine exists_congr fun c' => and_iff_left_of_imp ?_
    intro h hsame
    obtain ⟨pool, pool', hpool, hpool', hlt⟩ := sharedBytes_of_shareStorage h
    rw [hsame.sharedStoragePools, hpool] at hpool'
    cases hpool'
    exact lt_irrefl _ hlt
  rw [hgrows]
  unfold ShareWrites
  constructor
  · intro hisOk
    obtain ⟨c', h⟩ := hisOk
    obtain ⟨hmin, ⟨o, hid⟩, pool, available, hpool, havailable, hmax⟩ := guards_of_shareStorage h
    refine ⟨hmin, pool, available, hpool, havailable, hmax, ?_⟩
    rw [hid]
    cases o with
    | none => exact (shareStorage_isOk_none hid hmin hpool havailable hmax).mp ⟨c', h⟩
    | some account =>
      exact (shareStorage_isOk_some hid (hrest.storageTracker hid) hmin hpool havailable hmax).mp ⟨c', h⟩
  · rintro ⟨hmin, pool, available, hpool, havailable, hmax, h⟩
    cases hid : c.internalGetAccount accountId with
    | error e => simp only [hid] at h
    | ok o =>
      rw [hid] at h
      cases o with
      | none => exact (shareStorage_isOk_none hid hmin hpool havailable hmax).mpr h
      | some account =>
        exact (shareStorage_isOk_some hid (hrest.storageTracker hid) hmin hpool havailable hmax).mpr h

/-! ## Calls -/

/-- The calls that are accepted by a contract that is not live are those that forget to ask. -/
theorem step_of_not_live {call : Call} (hstatus : c.status ≠ .live)
    (hpublic : ∀ status, call.method ≠ .setStatus status)
    (h : (system host).step c call = .ok c') :
    (∀ id ∈ call.env.predecessorAccountId :: call.method.accountIds, isValidAccountId id = true) ∧
      ((∃ ownerId, call.method = .sharedStoragePoolDeposit ownerId ∧
          c.sharedStoragePoolDeposit host call.env ownerId = .ok c') ∨
        ∃ accountId maxBytes, call.method = .shareStorage accountId maxBytes ∧
          call.env.attachedDeposit = 0 ∧ c.shareStorage host call.env accountId maxBytes = .ok c') := by
  obtain ⟨transfers, hcall⟩ := step_eq_ok.mp h
  have hlive : ∀ u, c.assertLive ≠ .ok u := by
    intro u hu
    exact hstatus (ensure_eq_ok.mp hu)
  simp only [Contract.call, bind_eq_ok, ensure_eq_ok] at hcall
  obtain ⟨_, hids, _, hpayable, hcall⟩ := hcall
  refine ⟨hids, ?_⟩
  cases hmethod : call.method with
  | set data options =>
    simp only [hmethod, Contract.set, bind_eq_ok] at hcall
    obtain ⟨u, hu, -⟩ := hcall
    exact absurd hu (hlive u)
  | grantWritePermission predecessorId publicKey keys =>
    simp only [hmethod, Contract.grantWritePermission, bind_eq_ok] at hcall
    obtain ⟨u, hu, -⟩ := hcall
    exact absurd hu (hlive u)
  | storageDeposit accountId registrationOnly =>
    simp only [hmethod, Contract.storageDeposit, bind_eq_ok] at hcall
    obtain ⟨_, ⟨u, hu, -⟩, -⟩ := hcall
    exact absurd hu (hlive u)
  | storageWithdraw amount =>
    simp only [hmethod, Contract.storageWithdraw, bind_eq_ok] at hcall
    obtain ⟨_, ⟨u, hu, -⟩, -⟩ := hcall
    exact absurd hu (hlive u)
  | storageUnregister force =>
    simp only [hmethod, Contract.storageUnregister, bind_eq_ok] at hcall
    obtain ⟨_, ⟨u, hu, -⟩, -⟩ := hcall
    exact absurd hu (hlive u)
  | sharedStoragePoolDeposit ownerId =>
    simp only [hmethod, bind_eq_ok, pure_eq_ok, Prod.mk.injEq] at hcall
    obtain ⟨_, hdeposit, rfl, -⟩ := hcall
    exact .inl ⟨ownerId, rfl, hdeposit⟩
  | shareStorage accountId maxBytes =>
    simp only [hmethod, bind_eq_ok, pure_eq_ok, Prod.mk.injEq] at hcall
    obtain ⟨_, hshare, rfl, -⟩ := hcall
    have hzero := hpayable.resolve_right (by simp [hmethod, Method.isPayable])
    exact .inr ⟨accountId, maxBytes, rfl, hzero, hshare⟩
  | setStatus status => exact absurd hmethod (hpublic status)

/-- When a call changes the data of a contract that is not live. -/
theorem writes_iff {call : Call} (hrest : c.AtRest) (hstatus : c.status ≠ .live)
    (hpublic : ∀ status, call.method ≠ .setStatus status) :
    (∃ c', (system (layout.host cost)).step c call = .ok c' ∧ ¬ SameData c c') ↔
      call.Writes layout cost c := by
  constructor
  · rintro ⟨c', hstep, hsame⟩
    obtain ⟨hids, ⟨ownerId, hmethod, hdeposit⟩ | ⟨accountId, maxBytes, hmethod, hzero, hshare⟩⟩ :=
      step_of_not_live hstatus hpublic hstep
    · refine ⟨hids, ?_⟩
      rw [hmethod]
      exact (depositWrites_iff _).mp ⟨c', hdeposit, hsame⟩
    · refine ⟨hids, ?_⟩
      rw [hmethod]
      exact ⟨hzero, (shareWrites_iff hrest).mp ⟨c', hshare, hsame⟩⟩
  · rintro ⟨hids, h⟩
    split at h
    · next ownerId hmethod =>
      obtain ⟨c', hdeposit, hsame⟩ := (depositWrites_iff cost).mpr h
      refine ⟨c', step_eq_ok.mpr ⟨[], ?_⟩, hsame⟩
      simp only [Contract.call, bind_eq_ok, ensure_eq_ok, hmethod]
      exact ⟨(), hmethod ▸ hids, (), .inr rfl, c', hdeposit, rfl⟩
    · next accountId maxBytes hmethod =>
      obtain ⟨c', hshare, hsame⟩ := (shareWrites_iff hrest).mpr h.2
      refine ⟨c', step_eq_ok.mpr ⟨[], ?_⟩, hsame⟩
      simp only [Contract.call, bind_eq_ok, ensure_eq_ok, hmethod]
      exact ⟨(), hmethod ▸ hids, (), .inl h.1, c', hshare, rfl⟩
    · cases h

/-- **A frozen contract.** The data of a contract that is not live stays, if and only if a call does
not write to a pool. -/
theorem sameData_exec_iff {call : Call} (hrest : c.AtRest) (hstatus : c.status ≠ .live)
    (hpublic : ∀ status, call.method ≠ .setStatus status) :
    SameData c ((system (layout.host cost)).exec c call) ↔ ¬ call.Writes layout cost c := by
  rw [← writes_iff hrest hstatus hpublic]
  cases hstep : (system (layout.host cost)).step c call with
  | ok c₁ =>
    rw [Machine.exec_of_ok hstep]
    constructor
    · rintro hsame ⟨c', heq, hnot⟩
      cases heq
      exact hnot hsame
    · intro h
      by_contra hnot
      exact h ⟨c₁, rfl, hnot⟩
  | error e =>
    rw [Machine.exec_of_error hstep]
    refine iff_of_true (.refl c) ?_
    rintro ⟨c', heq, -⟩
    cases heq

/-- Public calls keep the status. -/
theorem status_exec {call : Call} (hpublic : ∀ status, call.method ≠ .setStatus status) :
    ((system host).exec c call).status = c.status := by
  cases hstep : (system host).step c call with
  | ok c₁ =>
    rw [Machine.exec_of_ok hstep]
    obtain ⟨transfers, hcall⟩ := step_eq_ok.mp hstep
    exact (status_of_call hcall).resolve_right fun h => hpublic _ h.1
  | error e => rw [Machine.exec_of_error hstep]

/-- What is read from a contract page by page is what there was, if none of the calls in between
writes. -/
theorem sameData_run {calls : List Call} (hrest : c.AtRest) (hstatus : c.status ≠ .live)
    (hpublic : ∀ call ∈ calls, ∀ status, call.method ≠ .setStatus status)
    (hcalls : ∀ call ∈ calls, ¬ call.Writes layout cost c) :
    SameData c ((system (layout.host cost)).run c calls) := by
  induction calls generalizing c with
  | nil => exact .refl c
  | cons call calls ih =>
    simp only [List.forall_mem_cons] at hpublic hcalls
    have hsame := (sameData_exec_iff hrest hstatus hpublic.1).mpr hcalls.1
    refine hsame.trans (ih (hsame.atRest hrest) ?_ hpublic.2 ?_)
    · rwa [status_exec hpublic.1]
    · intro other hother
      rw [hsame.writes]
      exact hcalls.2 other hother

end Frozen

/-! ## Sample calls -/

/-- The contract is made ready to be read. -/
def sampleReadOnly : Contract :=
  (system (sampleLayout.host (10 ^ 19))).run (.new (sampleEnv "social" 0 (Nat.zero_le _)))
    [⟨sampleEnv "social" 0 (Nat.zero_le _), .setStatus .readOnly⟩]

theorem sampleRefused_le : 1 ≤ u128Max := by decide

/-- Data is written, and a deposit is less than a pool takes. -/
def sampleRefused : List Call :=
  [⟨sampleEnv "alice" 0 (Nat.zero_le _), .set (.object [("alice", .string "hi")]) none⟩,
    samplePoolDeposit 1 sampleRefused_le]

/-- **Frozen contracts.** While a contract is in Genesis or read only, a public call leaves its data,
if and only if it writes neither a deposit to a pool nor a share of one. So does every run of such
calls, and no contract returns to Genesis. -/
theorem frozen_iff (layout : Layout) (cost : ℕ) (c : Contract) :
    (c.AtRest → c.status ≠ .live →
      (∀ call : Call, (∀ status, call.method ≠ .setStatus status) →
        (SameData c ((system (layout.host cost)).exec c call) ↔ ¬ call.Writes layout cost c)) ∧
      ∀ calls : List Call, (∀ call ∈ calls, ∀ status, call.method ≠ .setStatus status) →
        (∀ call ∈ calls, ¬ call.Writes layout cost c) →
          SameData c ((system (layout.host cost)).run c calls)) ∧
      (c.status ≠ .genesis → ∀ (host : Host) (labels : List Label),
        ((upgradable host).run c labels).status ≠ .genesis) := by
  refine ⟨?_, ?_⟩
  · intro hrest hstatus
    exact ⟨fun call hpublic => sameData_exec_iff hrest hstatus hpublic,
      fun calls hpublic hcalls => sameData_run hrest hstatus hpublic hcalls⟩
  · intro hstatus host labels
    exact left_genesis_run hstatus labels

theorem frozen_iff_sampleReadOnly :
    (SameData sampleReadOnly
        ((system (sampleLayout.host (10 ^ 19))).run sampleReadOnly sampleRefused) ∧
      ¬ SameData sampleReadOnly ((system (sampleLayout.host (10 ^ 19))).exec sampleReadOnly
        (samplePoolDeposit (10 ^ 26) (by decide)))) ∧
      ((upgradable (sampleLayout.host (10 ^ 19))).run sampleReadOnly
        [.genesis (sampleEnv "social" 0 (Nat.zero_le _)) (.genesisInitNodeCount 5)]).status ≠
          .genesis := by
  have hrest : sampleReadOnly.AtRest := (sound_run _ _ _).atRest
  obtain ⟨hdata, hgenesis⟩ := frozen_iff sampleLayout (10 ^ 19) sampleReadOnly
  obtain ⟨hexec, hrun⟩ := hdata hrest (by decide +kernel)
  refine ⟨⟨hrun sampleRefused ?_ ?_, ?_⟩, hgenesis (by decide +kernel) _ _⟩
  · simp [sampleRefused, samplePoolDeposit]
  · simp only [sampleRefused, List.forall_mem_cons]
    refine ⟨fun h => h.2, fun h => ?_, by simp⟩
    exact absurd h.2.1 (by decide)
  · rw [hexec _ (by simp [samplePoolDeposit]), not_not]
    have hnew : sampleReadOnly.sharedStoragePools.lookup "alice" = none := by decide +kernel
    refine ⟨by decide, ?_⟩
    show DepositWrites sampleLayout (sampleEnv "alice" (10 ^ 26) _) sampleReadOnly "alice"
    rw [DepositWrites, hnew]
    exact ⟨by decide, by decide⟩

/-- A contract that is read only takes a deposit to a pool. -/
theorem not_frozen_iff :
    ¬ ∀ (layout : Layout) (cost : ℕ) (start : Env) (calls : List Call) (call : Call),
      ((system (layout.host cost)).run (.new start) calls).status ≠ .live →
      (∀ status, call.method ≠ .setStatus status) →
      SameData ((system (layout.host cost)).run (.new start) calls)
        ((system (layout.host cost)).exec
          ((system (layout.host cost)).run (.new start) calls) call) := by
  intro h
  have hsame := h sampleLayout (10 ^ 19) (sampleEnv "social" 0 (Nat.zero_le _))
    [⟨sampleEnv "social" 0 (Nat.zero_le _), .setStatus .readOnly⟩]
    (samplePoolDeposit (10 ^ 26) (by decide)) (by decide +kernel) (by simp [samplePoolDeposit])
  exact absurd (hsame.sharedStoragePools "alice") (by decide +kernel)

end UncContracts.Social
