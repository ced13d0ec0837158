import Mathlib.Order.Interval.Finset.Nat
import UncContracts.Social.Layout

/-!
# Exact accounting of storage

With a host that charges for records, the storage that a state takes is what the new contract takes,
what the accounts have in use and the records of the pools. An account has in use what its record
and its tree take, so that it has never fewer bytes than it releases.

## Main definitions

* `Contract.treeBytes`: what the nodes and the permissions of an account take
* `Contract.Exact`: the storage of a state is accounted for
* `Contract.Backed`: every account has in use what its record and its tree take
* `Windows`: what an account releases is in use by it

## Main results

* `Move.exact`: a move keeps the accounting exact
* `Move.backed`: a move keeps every account backed
-/

namespace UncContracts.Social

open Foundation HasTarget
open scoped BigOperators

/-- The bytes in use by the account of a stored record. -/
def VAccount.usedBytes : VAccount → ℕ
  | .v0 v => v.usedBytes
  | .current account => account.usedBytes

/-- The storage of a state is accounted for. -/
def Contract.Exact (layout : Layout) (c : Contract) : Prop :=
  layout.usage c = layout.state + c.accounts.total VAccount.usedBytes +
    c.sharedStoragePools.keyTotal layout.pool

section Exact

variable {layout : Layout} {cost : ℕ} {env : Env} {L : String → Prop} {P : SharedStoragePool → Prop}
  {c c' : Contract} {account account' : Account} {deposit : ℕ} {transfers : List Transfer}
  {host : Host} {pools pools' : Map AccountId SharedStoragePool} {o o' : Option AccountSharedStorage}
  {s : AccountSharedStorage} {r : VAccount}

theorem Opens.keyTotal (h : Opens pools pools' o') (f : AccountId → ℕ) :
    pools'.keyTotal f = pools.keyTotal f := by
  cases h with
  | own => rfl
  | shared hpool => exact keyTotal_insert_of_lookup f hpool

theorem Shares.keyTotal (h : Shares host pools o pools' s) (f : AccountId → ℕ) :
    pools'.keyTotal f = pools.keyTotal f := by
  cases h with
  | first hpool => exact keyTotal_insert_of_lookup f hpool
  | more hpool => exact keyTotal_insert_of_lookup f hpool
  | @moved current poolId pool currentPool _ _ hpool hne hcurrent =>
    have hpool' : (pools.insert current.poolId { currentPool with
        usedBytes := currentPool.usedBytes - current.usedBytes
        sharedBytes := currentPool.sharedBytes - current.maxBytes }).lookup poolId = some pool := by
      rw [AList.lookup_insert_ne (Ne.symm hne)]
      exact hpool
    exact (keyTotal_insert_of_lookup f hpool').trans (keyTotal_insert_of_lookup f hcurrent)

/-- What an account has in use changes by what its tracker has seen when it is saved. -/
theorem Saves.usedTotal (h : Saves host c account c' account')
    (hr : c.accounts.lookup account.nodeId = some r) (hused : r.usedBytes = account.usedBytes) :
    c'.accounts.total VAccount.usedBytes + account.storageTracker.bytesReleased =
      c.accounts.total VAccount.usedBytes + account.storageTracker.bytesAdded := by
  have hsum := Map.total_insert VAccount.usedBytes c.accounts account.nodeId account'.stored
  rw [Map.amount_of_lookup hr, hused] at hsum
  have hbytes : account'.stored.usedBytes + account.storageTracker.bytesReleased =
      account.usedBytes + account.storageTracker.bytesAdded := h.usedBytes
  rw [h.frame]
  simp only
  omega

/-- **Saving an account** accounts for the bytes between the contract before and the one in which it
is saved. -/
theorem Saves.exact {c₀ : Contract} (hsaves : Saves host c account c' account')
    (h : c₀.Exact layout) (hr : c.accounts.lookup account.nodeId = some r)
    (hshared : layout.accountBytes r = layout.accountBytes account.stored)
    (hused : r.usedBytes = account.usedBytes)
    (htotal : c.accounts.total VAccount.usedBytes = c₀.accounts.total VAccount.usedBytes)
    (hpools : c.sharedStoragePools.keyTotal layout.pool = c₀.sharedStoragePools.keyTotal layout.pool)
    (htracker : account.storageTracker.bytesAdded + layout.usage c₀ =
      account.storageTracker.bytesReleased + layout.usage c) : c'.Exact layout := by
  have husage := hsaves.usage layout hr hshared
  have htotal' := hsaves.usedTotal hr hused
  have hpools' := hsaves.settled.keyTotal layout.pool
  simp only [Contract.Exact] at h ⊢
  omega

/-- **A move keeps the accounting exact.** -/
theorem Move.exact (hmove : Move (layout.host cost) env L P c c' deposit transfers)
    (h : c.Exact layout) (hsound : c.Sound) : c'.Exact layout := by
  cases hmove with
  | @updated n a a' _ balance c₁ _ t ha hedits hbalance htracker hsaves =>
    have haccounts : c₁.accounts = c.accounts := by rw [hedits.frame]
    have hpools : c₁.sharedStoragePools = c.sharedStoragePools := by rw [hedits.frame]
    have ha₁ : c₁.accounts.lookup n = some a.stored := haccounts ▸ ha
    exact hsaves.exact h ha₁ rfl rfl (by rw [haccounts]) (by rw [hpools]) htracker
  | @created id a' _ shared pools _ _ t hid hnew hopens hc htracker hsaves =>
    subst hc
    have hfresh : c.accounts.amount VAccount.usedBytes c.nodeCount = 0 :=
      Map.amount_of_lookup_none hsound.lookup_nodeCount
    have hsum := Map.total_insert VAccount.usedBytes c.accounts c.nodeCount
      { Account.new c.nodeCount with sharedStorage := shared }.stored
    rw [hfresh] at hsum
    have hpools := hopens.keyTotal layout.pool
    -- Opening the account is inside the window of its tracker.
    have h₀ : ({ c with nodeCount := c.nodeCount + 1, sharedStoragePools := pools } :
        Contract).Exact layout := by
      simp only [Contract.Exact, Layout.usage, hpools] at h ⊢
      exact h
    exact hsaves.exact h₀ (AList.lookup_insert _) rfl rfl hsum rfl htracker
  | @withdrawn n a a' amount _ ha hamount hsaves => exact hsaves.exact h ha rfl rfl rfl rfl rfl
  | returned => exact h
  | @pooled ownerId pool pool₁ pool' c₁ hpool hdeposit hpool₁ hc hpool' hP =>
    subst hc
    simp only [Contract.internalSetSharedStoragePool, AList.insert_insert]
    have husage := layout.usage_setPool c ownerId pool'
    simp only [Contract.internalSetSharedStoragePool, Contract.Exact] at husage h ⊢
    rw [husage, h]
    split
    · next hmem => rw [Map.keyTotal_insert_of_mem layout.pool hmem, Nat.add_zero]
    · next hmem =>
      rw [Map.keyTotal_insert_of_notMem layout.pool hmem]
      omega
  | @shared n a a' s pools c₁ _ t ha hshares hc htracker hsaves =>
    subst hc
    have hsum := Map.total_insert VAccount.usedBytes c.accounts n
      { a with sharedStorage := some s }.stored
    rw [Map.amount_of_lookup ha] at hsum
    have hpools := hshares.keyTotal layout.pool
    have h₀ : ({ c with sharedStoragePools := pools } : Contract).Exact layout := by
      simp only [Contract.Exact, Layout.usage, hpools] at h ⊢
      exact h
    exact hsaves.exact h₀ (AList.lookup_insert _) rfl rfl (Nat.add_right_cancel hsum) rfl htracker
  | changed => exact h

end Exact

/-! ## What an account takes -/

open Classical in
/-- What the nodes and the permissions of an account take. -/
noncomputable def Contract.treeBytes (layout : Layout) (c : Contract) (n : NodeId) : ℕ :=
  (∑ m ∈ (Finset.Ioo 0 c.nodeCount).filter (c.forest.Below n), c.nodes.amount layout.nodeBytes m) +
    c.permissions.amount (UnorderedMap.total layout.permission) n

/-- Every account has in use what its record and its tree take. -/
def Contract.Backed (layout : Layout) (c : Contract) : Prop :=
  ∀ n r, c.accounts.lookup n = some r → layout.accountBytes r + c.treeBytes layout n ≤ r.usedBytes

/-- The storage that an account releases, by a change in its tree or of its record, is storage that
it has in use. -/
structure Windows (host : Host) (c : Contract) : Prop where
  edited : ∀ (L : String → Prop) n a c', c.accounts.lookup n = some (Account.stored a) →
    Edits L c n c' → host.storageUsage c ≤ host.storageUsage c' + a.usedBytes
  opened : ∀ env id pools shared, c.rootNode.children.get id = none →
    host.storageUsage { c with nodeCount := c.nodeCount + 1, sharedStoragePools := pools } ≤
      host.storageUsage (({ c with nodeCount := c.nodeCount + 1, sharedStoragePools := pools } :
        Contract).opened env id { Account.new c.nodeCount with sharedStorage := shared })
  shared : ∀ n a s pools, c.accounts.lookup n = some (Account.stored a) →
    host.storageUsage { c with sharedStoragePools := pools } ≤
      host.storageUsage { c with
        sharedStoragePools := pools
        accounts := c.accounts.insert n { a with sharedStorage := some s }.stored } + a.usedBytes

section Trees

variable {layout : Layout} {cost : ℕ} {env : Env} {L : String → Prop} {P : SharedStoragePool → Prop}
  {c c' c₁ : Contract} {m n : NodeId} {account account' : Account} {deposit : ℕ}
  {transfers : List Transfer} {host : Host}

/-- Nodes with the same entries take the same. -/
theorem Contract.Sound.nodeBytes_congr (h : c.Sound) (h' : c'.Sound) (hpos : 0 < m)
    (hlt : m < c.nodeCount) (hlt' : m < c'.nodeCount)
    (hentry : ∀ k, c'.forest.entry m k = c.forest.entry m k) :
    c'.nodes.amount layout.nodeBytes m = c.nodes.amount layout.nodeBytes m := by
  obtain ⟨node, hnode⟩ := Option.isSome_iff_exists.mp
    (AList.lookup_isSome.mpr ((h.mem_nodes m).mpr ⟨hpos, hlt⟩))
  obtain ⟨node', hnode'⟩ := Option.isSome_iff_exists.mp
    (AList.lookup_isSome.mpr ((h'.mem_nodes m).mpr ⟨hpos, hlt'⟩))
  rw [Map.amount_of_lookup hnode, Map.amount_of_lookup hnode']
  refine congrArg (layout.node + ·) (UnorderedMap.total_congr layout.entry ?_)
  intro k
  rw [← Contract.forest_entry_of_lookup hpos.ne' hnode,
    ← Contract.forest_entry_of_lookup hpos.ne' hnode']
  exact hentry k

open Classical in
/-- The nodes of a sound contract, as those of an account and the others. -/
theorem Contract.Sound.nodesTotal (h : c.Sound) (layout : Layout) (n : NodeId) :
    c.nodes.total layout.nodeBytes =
      ∑ m ∈ (Finset.Ioo 0 c.nodeCount).filter (c.forest.Below n),
        c.nodes.amount layout.nodeBytes m +
      ∑ m ∈ (Finset.Ioo 0 c.nodeCount).filter (¬ c.forest.Below n ·),
        c.nodes.amount layout.nodeBytes m := by
  rw [Finset.sum_filter_add_sum_filter_not]
  refine Map.total_eq_sum _ _ ?_
  intro m
  rw [Finset.mem_Ioo, h.mem_nodes]

/-- What is below a node, after changes in the tree of an account. -/
theorem Edits.below_iff (hedits : Edits L c n c') (h : c.Sound) (hn : n ∈ c.accounts) (r : NodeId)
    (hm : m < c.nodeCount) : c'.forest.Below r m ↔ c.forest.Below r m := by
  have hlt : n < c.forest.count := (h.account_lt_count hn).2
  have hkept := hedits.writes.entry_of_target h.grown hlt
  constructor
  · intro hbelow
    exact h.rooted.below_of_kept (hedits.sound h hn).grown hkept hbelow hm
  · intro hbelow
    exact hbelow.mono hkept

/-- Changes in the tree of an account are changes of what it takes. -/
theorem Edits.usage (hedits : Edits L c n c') (layout : Layout) (h : c.Sound)
    (hn : n ∈ c.accounts) :
    layout.usage c' + c.treeBytes layout n = layout.usage c + c'.treeBytes layout n := by
  classical
  have h' := hedits.sound h hn
  have hlt : n < c.forest.count := (h.account_lt_count hn).2
  have hle : c.nodeCount ≤ c'.nodeCount := hedits.count_le
  have hroot : c'.rootNode = c.rootNode := by rw [hedits.frame]
  have haccounts : c'.accounts = c.accounts := by rw [hedits.frame]
  have hpools : c'.sharedStoragePools = c.sharedStoragePools := by rw [hedits.frame]
  have hrest : ∑ m ∈ (Finset.Ioo 0 c'.nodeCount).filter (¬ c'.forest.Below n ·),
      c'.nodes.amount layout.nodeBytes m =
        ∑ m ∈ (Finset.Ioo 0 c.nodeCount).filter (¬ c.forest.Below n ·),
          c.nodes.amount layout.nodeBytes m := by
    have hset : (Finset.Ioo 0 c'.nodeCount).filter (¬ c'.forest.Below n ·) =
        (Finset.Ioo 0 c.nodeCount).filter (¬ c.forest.Below n ·) := by
      ext m
      simp only [Finset.mem_filter, Finset.mem_Ioo]
      constructor
      · rintro ⟨⟨hpos, hm⟩, hnot⟩
        have hold : m < c.nodeCount := by
          by_contra hge
          exact hnot (hedits.writes.below_of_new h.grown hlt m (Nat.le_of_not_lt hge) hm)
        exact ⟨⟨hpos, hold⟩, fun hbelow => hnot ((hedits.below_iff h hn n hold).mpr hbelow)⟩
      · rintro ⟨⟨hpos, hm⟩, hnot⟩
        exact ⟨⟨hpos, hm.trans_le hle⟩, fun hbelow => hnot ((hedits.below_iff h hn n hm).mp hbelow)⟩
    rw [hset]
    refine Finset.sum_congr rfl ?_
    intro m hm
    simp only [Finset.mem_filter, Finset.mem_Ioo] at hm
    obtain ⟨⟨hpos, hm⟩, hnot⟩ := hm
    refine h.nodeBytes_congr h' hpos hm (hm.trans_le hle) ?_
    intro k
    exact hedits.writes.entry_eq h.grown hlt fun hbelow =>
      hnot ((hedits.below_iff h hn n hm).mp hbelow)
  have hnodes := h.nodesTotal layout n
  have hnodes' := h'.nodesTotal layout n
  have hpermissions := Map.total_congr_of_ne (UnorderedMap.total layout.permission)
    hedits.permissions
  simp only [Layout.usage, Contract.treeBytes, hroot, haccounts, hpools]
  omega

/-- Changes in the tree of an account leave what the others take. -/
theorem Edits.treeBytes_of_ne (hedits : Edits L c n c') (h : c.Sound) (hn : n ∈ c.accounts)
    (hm : m ∈ c.accounts) (hne : m ≠ n) : c'.treeBytes layout m = c.treeBytes layout m := by
  classical
  have h' := hedits.sound h hn
  have hlt : n < c.forest.count := (h.account_lt_count hn).2
  have hle : c.nodeCount ≤ c'.nodeCount := hedits.count_le
  have haccounts : c'.accounts = c.accounts := by rw [hedits.frame]
  -- No node is below both accounts.
  have hapart : ∀ t, c'.forest.Below m t → ¬ c'.forest.Below n t := by
    intro t ht ht'
    exact hne (h'.eq_of_below (haccounts ▸ hm) (haccounts ▸ hn) ht ht')
  have hset : (Finset.Ioo 0 c'.nodeCount).filter (c'.forest.Below m) =
      (Finset.Ioo 0 c.nodeCount).filter (c.forest.Below m) := by
    ext t
    simp only [Finset.mem_filter, Finset.mem_Ioo]
    constructor
    · rintro ⟨⟨hpos, ht⟩, hbelow⟩
      have hold : t < c.nodeCount := by
        by_contra hge
        exact hapart t hbelow
          (hedits.writes.below_of_new h.grown hlt t (Nat.le_of_not_lt hge) ht)
      exact ⟨⟨hpos, hold⟩, (hedits.below_iff h hn m hold).mp hbelow⟩
    · rintro ⟨⟨hpos, ht⟩, hbelow⟩
      exact ⟨⟨hpos, ht.trans_le hle⟩, (hedits.below_iff h hn m ht).mpr hbelow⟩
  have hsum : ∑ t ∈ (Finset.Ioo 0 c.nodeCount).filter (c.forest.Below m),
      c'.nodes.amount layout.nodeBytes t =
        ∑ t ∈ (Finset.Ioo 0 c.nodeCount).filter (c.forest.Below m),
          c.nodes.amount layout.nodeBytes t := by
    refine Finset.sum_congr rfl ?_
    intro t ht
    simp only [Finset.mem_filter, Finset.mem_Ioo] at ht
    obtain ⟨⟨hpos, ht⟩, hbelow⟩ := ht
    refine h.nodeBytes_congr h' hpos ht (ht.trans_le hle) ?_
    intro k
    exact hedits.writes.entry_eq h.grown hlt
      (hapart t ((hedits.below_iff h hn m ht).mpr hbelow))
  have hpermissions : c'.permissions.amount (UnorderedMap.total layout.permission) m =
      c.permissions.amount (UnorderedMap.total layout.permission) m := by
    rw [Map.amount, Map.amount, hedits.permissions m hne]
  rw [Contract.treeBytes, Contract.treeBytes, hset, hsum, hpermissions]

/-! ### New accounts -/

variable {id : AccountId} {shared : Option AccountSharedStorage}
  {pools : Map AccountId SharedStoragePool}

/-- What a new account takes. -/
theorem Contract.Sound.usage_opened (h : c.Sound) (layout : Layout) (env : Env)
    (pools : Map AccountId SharedStoragePool) (shared : Option AccountSharedStorage)
    (hnew : c.rootNode.children.get id = none) :
    layout.usage (({ c with nodeCount := c.nodeCount + 1, sharedStoragePools := pools } :
      Contract).opened env id { Account.new c.nodeCount with sharedStorage := shared }) =
    layout.usage { c with nodeCount := c.nodeCount + 1, sharedStoragePools := pools } +
      layout.accountBytes { Account.new c.nodeCount with sharedStorage := shared }.stored +
      layout.entry id (.node c.nodeCount) + layout.node := by
  have hnode : c.nodes.lookup c.nodeCount = none := by
    refine AList.lookup_eq_none.mpr fun hmem => ?_
    exact absurd ((h.mem_nodes _).mp hmem).2 (Nat.lt_irrefl _)
  have hopened := layout.usage_opened
    { c with nodeCount := c.nodeCount + 1, sharedStoragePools := pools } env
    { Account.new c.nodeCount with sharedStorage := shared } hnew
  have hrecord : layout.accountBytes { Account.new c.nodeCount with sharedStorage := shared }.stored =
      layout.account (shared.map AccountSharedStorage.poolId) := rfl
  simp only [Account.new] at hopened ⊢
  rw [Map.amount_of_lookup_none h.lookup_nodeCount, Map.amount_of_lookup_none hnode] at hopened
  simp only [Account.new] at hrecord
  omega

/-- A new account takes a node. -/
theorem Contract.Sound.treeBytes_opened (h : c.Sound) (layout : Layout) (env : Env)
    (pools : Map AccountId SharedStoragePool) (shared : Option AccountSharedStorage)
    (hid : isValidAccountId id = true) (hnew : c.rootNode.children.get id = none) :
    (({ c with nodeCount := c.nodeCount + 1, sharedStoragePools := pools } : Contract).opened env id
      { Account.new c.nodeCount with sharedStorage := shared }).treeBytes layout c.nodeCount =
        layout.node := by
  classical
  have h' := h.opened env shared pools hid hnew
  have hset : (Finset.Ioo 0 (c.nodeCount + 1)).filter ((({ c with
      nodeCount := c.nodeCount + 1, sharedStoragePools := pools } : Contract).opened env id
      { Account.new c.nodeCount with sharedStorage := shared }).forest.Below c.nodeCount) =
        {c.nodeCount} := by
    ext t
    simp only [Finset.mem_filter, Finset.mem_Ioo, Finset.mem_singleton]
    constructor
    · rintro ⟨⟨-, ht⟩, hbelow⟩
      exact Nat.le_antisymm (Nat.le_of_lt_succ ht) (h'.grown.le_of_below hbelow)
    · rintro rfl
      exact ⟨⟨h.count_pos, Nat.lt_succ_self _⟩, .refl _ _⟩
  have hpermissions : c.permissions.lookup c.nodeCount = none := by
    refine AList.lookup_eq_none.mpr fun hmem => ?_
    exact absurd (h.account_lt_count (h.granters _ hmem)).2 (Nat.lt_irrefl _)
  rw [Contract.treeBytes]
  simp only [Contract.opened] at hset ⊢
  rw [hset, Finset.sum_singleton, Map.amount_of_lookup_none hpermissions, Nat.add_zero]
  exact Map.amount_of_lookup (AList.lookup_insert _)

/-- A new account leaves what the others take. -/
theorem Contract.Sound.treeBytes_opened_of_mem (h : c.Sound) (layout : Layout) (env : Env)
    (hid : isValidAccountId id = true) (hnew : c.rootNode.children.get id = none)
    (hm : m ∈ c.accounts) :
    (({ c with nodeCount := c.nodeCount + 1, sharedStoragePools := pools } : Contract).opened env id
      { Account.new c.nodeCount with sharedStorage := shared }).treeBytes layout m =
        c.treeBytes layout m := by
  classical
  have h' := h.opened env shared pools hid hnew
  have hforest := Contract.forest_opened env id shared pools h.count_pos
  have hlt := (h.account_lt_count hm).2
  have hkept : ∀ m k v n, c.forest.entry m k = some v → target v = some n →
      (({ c with nodeCount := c.nodeCount + 1, sharedStoragePools := pools } : Contract).opened env id
        { Account.new c.nodeCount with sharedStorage := shared }).forest.entry m k = some v := by
    intro m k v n hentry htarget
    rw [hforest]
    refine h.grown.link_entry_of_target ?_ m k v n hentry htarget
    intro v hv
    simp [Contract.forest, hnew] at hv
  have hset : (Finset.Ioo 0 (c.nodeCount + 1)).filter ((({ c with
      nodeCount := c.nodeCount + 1, sharedStoragePools := pools } : Contract).opened env id
      { Account.new c.nodeCount with sharedStorage := shared }).forest.Below m) =
        (Finset.Ioo 0 c.nodeCount).filter (c.forest.Below m) := by
    ext t
    simp only [Finset.mem_filter, Finset.mem_Ioo]
    constructor
    · rintro ⟨⟨hpos, ht⟩, hbelow⟩
      rcases Nat.lt_succ_iff_lt_or_eq.mp ht with hold | rfl
      · exact ⟨⟨hpos, hold⟩, h.rooted.below_of_kept h'.grown hkept hbelow hold⟩
      · refine absurd ?_ hlt.ne
        refine h'.eq_of_below ?_ ?_ hbelow (.refl _ _)
        · exact (AList.mem_insert _).mpr (.inr hm)
        · exact (AList.mem_insert _).mpr (.inl rfl)
    · rintro ⟨⟨hpos, ht⟩, hbelow⟩
      exact ⟨⟨hpos, ht.trans (Nat.lt_succ_self _)⟩, hbelow.mono hkept⟩
  rw [Contract.treeBytes, Contract.treeBytes]
  simp only [Contract.opened] at hset ⊢
  rw [hset]
  refine congrArg (· + _) (Finset.sum_congr rfl ?_)
  intro t ht
  simp only [Finset.mem_filter, Finset.mem_Ioo] at ht
  have hne : t ≠ (Account.new c.nodeCount).nodeId := ht.1.2.ne
  rw [Map.amount, Map.amount, AList.lookup_insert_ne hne]

end Trees

/-! ## What accounts have in use -/

section Backed

variable {layout : Layout} {cost : ℕ} {env : Env} {L : String → Prop} {P : SharedStoragePool → Prop}
  {c c' : Contract} {n : NodeId} {a account account' : Account} {deposit : ℕ}
  {transfers : List Transfer} {host : Host}

/-- The record of an account takes the same after other storage is shared with it, or more or less
by the id of the pool. -/
theorem Layout.usage_shared (layout : Layout) (hlookup : c.accounts.lookup n = some a.stored)
    (s : AccountSharedStorage) (pools : Map AccountId SharedStoragePool) :
    layout.usage { c with
      sharedStoragePools := pools
      accounts := c.accounts.insert n { a with sharedStorage := some s }.stored } +
        layout.accountBytes a.stored =
      layout.usage { c with sharedStoragePools := pools } +
        layout.accountBytes { a with sharedStorage := some s }.stored := by
  have hsum := layout.usage_insertAccount { c with sharedStoragePools := pools } n
    { a with sharedStorage := some s }.stored
  rwa [Map.amount_of_lookup hlookup] at hsum

/-- An account that is backed has what it releases. -/
theorem Contract.Backed.windows (h : c.Backed layout) (hsound : c.Sound) :
    Windows (layout.host cost) c := by
  refine ⟨?_, ?_, ?_⟩
  · intro L n a c' ha hedits
    have husage := hedits.usage layout hsound (mem_accounts_of_lookup ha)
    have hused : _ + c.treeBytes layout n ≤ a.usedBytes := h n _ ha
    show layout.usage c ≤ layout.usage c' + a.usedBytes
    omega
  · intro env id pools shared hnew
    show layout.usage _ ≤ layout.usage _
    rw [hsound.usage_opened layout env pools shared hnew]
    omega
  · intro n a s pools ha
    have husage := layout.usage_shared ha s pools
    have hused : layout.accountBytes a.stored + _ ≤ a.usedBytes := h n _ ha
    simp only [Layout.host]
    omega

/-- Saving an account keeps the others backed, and the account if its tracker has seen the storage
that it takes. -/
theorem Saves.backed (hsaves : Saves host c account c' account')
    (hothers : ∀ m r, m ≠ account.nodeId → c.accounts.lookup m = some r →
      layout.accountBytes r + c.treeBytes layout m ≤ r.usedBytes)
    (hself : layout.accountBytes account.stored + c.treeBytes layout account.nodeId +
      account.storageTracker.bytesReleased ≤ account.usedBytes + account.storageTracker.bytesAdded) :
    c'.Backed layout := by
  have htree : ∀ m, c'.treeBytes layout m = c.treeBytes layout m := by
    intro m
    rw [hsaves.frame]
    rfl
  intro m r hr
  rw [htree]
  rw [hsaves.frame] at hr
  by_cases heq : m = account.nodeId
  · subst heq
    rw [AList.lookup_insert, Option.some.injEq] at hr
    have hbytes : layout.accountBytes account'.stored = layout.accountBytes account.stored :=
      congrArg layout.account hsaves.settled.poolId
    have hused := hsaves.usedBytes
    rw [← hr, hbytes]
    show _ ≤ account'.usedBytes
    omega
  · rw [AList.lookup_insert_ne heq] at hr
    exact hothers m r heq hr

/-- **A move keeps every account backed.** -/
theorem Move.backed (hmove : Move (layout.host cost) env L P c c' deposit transfers)
    (h : c.Backed layout) (hsound : c.Sound) : c'.Backed layout := by
  cases hmove with
  | @updated n a a' _ balance c₁ _ t ha hedits hbalance htracker hsaves =>
    have hn := mem_accounts_of_lookup ha
    have haccounts : c₁.accounts = c.accounts := by rw [hedits.frame]
    have husage := hedits.usage layout hsound hn
    have hused : layout.accountBytes a.stored + c.treeBytes layout n ≤ a.usedBytes := h n _ ha
    have htracker : t.bytesAdded + layout.usage c = t.bytesReleased + layout.usage c₁ := htracker
    refine hsaves.backed ?_ ?_
    · intro m r hm hr
      rw [haccounts] at hr
      rw [hedits.treeBytes_of_ne hsound hn (mem_accounts_of_lookup hr) hm]
      exact h m r hr
    · show layout.accountBytes a.stored + c₁.treeBytes layout n + t.bytesReleased ≤
        a.usedBytes + t.bytesAdded
      omega
  | @created id a' _ shared pools _ _ t hid hnew hopens hc htracker hsaves =>
    subst hc
    have husage := hsound.usage_opened layout env pools shared hnew
    have htree := hsound.treeBytes_opened layout env pools shared hid hnew
    have htracker : t.bytesAdded + layout.usage _ = t.bytesReleased + layout.usage _ := htracker
    refine hsaves.backed ?_ ?_
    · intro m r hm hr
      simp only [Contract.opened] at hr
      rw [AList.lookup_insert_ne hm] at hr
      rw [hsound.treeBytes_opened_of_mem layout env hid hnew (mem_accounts_of_lookup hr)]
      exact h m r hr
    · show layout.accountBytes { Account.new c.nodeCount with sharedStorage := shared }.stored +
        Contract.treeBytes layout _ c.nodeCount + t.bytesReleased ≤ 0 + t.bytesAdded
      omega
  | @withdrawn n a a' amount _ ha hamount hsaves =>
    have hused : layout.accountBytes a.stored + c.treeBytes layout n ≤ a.usedBytes := h n _ ha
    exact hsaves.backed (fun m r _ hr => h m r hr) hused
  | returned => exact h
  | pooled hpool hdeposit hpool₁ hc hpool' hP =>
    subst hc
    exact h
  | @shared n a a' s pools c₁ _ t ha hshares hc htracker hsaves =>
    subst hc
    have husage := layout.usage_shared ha s pools
    have hused : layout.accountBytes a.stored + c.treeBytes layout n ≤ a.usedBytes := h n _ ha
    have htracker : t.bytesAdded + layout.usage _ = t.bytesReleased + layout.usage _ := htracker
    refine hsaves.backed ?_ ?_
    · intro m r hm hr
      rw [AList.lookup_insert_ne (show m ≠ n from hm)] at hr
      exact h m r hr
    · show layout.accountBytes { a with sharedStorage := some s }.stored + c.treeBytes layout n +
        t.bytesReleased ≤ a.usedBytes + t.bytesAdded
      omega
  | changed => exact h

end Backed

end UncContracts.Social
