import UncContracts.Social.Settling
import UncContracts.Social.Tree

/-!
# The moves of the social contract

Each call is a sequence of moves: an account is made, changed together with its tree, shared with or
withdrawn from, or a pool takes a deposit. What holds of every contract that calls lead to is kept
by each move, so that what is kept by calls is said once for each of them.

## Main definitions

* `Contract.Sound`: the nodes are a forest in which every account has a tree and a record
* `Edits`: changes in the tree and the permissions of an account
* `Move`, `Moves`: the moves, with the deposits that they credit and the transfers that they issue

## Main results

* `Move.sound`: a move keeps a contract sound
-/

namespace UncContracts.Social

open Foundation HasTarget

/-- What holds of every contract that calls lead to. -/
structure Contract.Sound (c : Contract) : Prop where
  grown : c.forest.Grown
  rooted : c.forest.Rooted
  count_pos : 0 < c.nodeCount
  keys : ∀ n k v, c.forest.entry n k = some v → PlainKey k
  mem_nodes : ∀ n, n ∈ c.nodes ↔ 0 < n ∧ n < c.nodeCount
  root : ∀ id v, c.rootNode.children.get id = some v →
    isValidAccountId id = true ∧ ∃ n, v = .node n ∧ n ∈ c.accounts
  accounts : ∀ n, n ∈ c.accounts → ∃ id, c.rootNode.children.get id = some (.node n)
  records : ∀ n r, c.accounts.lookup n = some r → ∃ a : Account, r = a.stored
  permissions : ∀ n key nodeIds, (c.permissionsOf n).get key = some (.granted nodeIds) →
    ∀ i ∈ nodeIds, c.forest.Below n i
  granters : ∀ n, n ∈ c.permissions → n ∈ c.accounts

/-- Changes in the tree and the permissions of the account of a node. -/
structure Edits (L : String → Prop) (c : Contract) (n : NodeId) (c' : Contract) : Prop where
  frame : c' = { c with nodes := c'.nodes, nodeCount := c'.nodeCount, permissions := c'.permissions }
  writes : c.forest.Writes n True (fun _ => False) PlainKey L c'.forest
  count_le : c.nodeCount ≤ c'.nodeCount
  mem_nodes : ∀ t, t ∈ c'.nodes ↔ t ∈ c.nodes ∨ c.nodeCount ≤ t ∧ t < c'.nodeCount
  permissions : ∀ m, m ≠ n → c'.permissions.lookup m = c.permissions.lookup m
  granted : ∀ key nodeIds, (c'.permissionsOf n).get key = some (.granted nodeIds) →
    ∀ i ∈ nodeIds, c'.forest.Below n i

/-- How the pools change when an account is made. -/
inductive Opens (pools : Map AccountId SharedStoragePool) :
    Map AccountId SharedStoragePool → Option AccountSharedStorage → Prop
  | own : Opens pools pools none
  | shared {poolId : AccountId} {pool : SharedStoragePool} {maxBytes : ℕ}
    (hpool : pools.lookup poolId = some pool) :
    Opens pools (pools.insert poolId { pool with sharedBytes := pool.sharedBytes + maxBytes })
      (some { maxBytes, usedBytes := 0, poolId })

/-- How the pools change when storage is shared with an account. -/
inductive Shares (host : Host) (pools : Map AccountId SharedStoragePool) :
    Option AccountSharedStorage → Map AccountId SharedStoragePool → AccountSharedStorage → Prop
  | first {poolId : AccountId} {pool : SharedStoragePool} {maxBytes : ℕ}
    (hpool : pools.lookup poolId = some pool) :
    Shares host pools none (pools.insert poolId
      { pool with sharedBytes := pool.sharedBytes + maxBytes }) { maxBytes, usedBytes := 0, poolId }
  | more {current : AccountSharedStorage} {pool : SharedStoragePool} {maxBytes : ℕ}
    (hpool : pools.lookup current.poolId = some pool) (hused : current.usedBytes ≤ maxBytes)
    (hmax : current.maxBytes < maxBytes) :
    Shares host pools (some current) (pools.insert current.poolId
      { pool with sharedBytes := pool.sharedBytes + (maxBytes - current.maxBytes) })
      { current with maxBytes }
  | moved {current : AccountSharedStorage} {poolId : AccountId} {pool currentPool : SharedStoragePool}
    {maxBytes availableBytes : ℕ} (hpool : pools.lookup poolId = some pool)
    (hne : current.poolId ≠ poolId) (hcurrent : pools.lookup current.poolId = some currentPool)
    (hused : current.usedBytes ≤ maxBytes)
    (hcurrentUsed : current.usedBytes ≤ currentPool.usedBytes)
    (hcurrentShared : current.maxBytes ≤ currentPool.sharedBytes)
    (havailable : pool.availableBytes host = .ok availableBytes)
    (hbytes : current.usedBytes ≤ availableBytes) :
    Shares host pools (some current)
      ((pools.insert current.poolId
        { currentPool with
          usedBytes := currentPool.usedBytes - current.usedBytes
          sharedBytes := currentPool.sharedBytes - current.maxBytes }).insert poolId
        { pool with
          usedBytes := pool.usedBytes + current.usedBytes
          sharedBytes := pool.sharedBytes + maxBytes })
      { maxBytes, usedBytes := current.usedBytes, poolId }

/-- The account that is read from a record. -/
def Account.loaded (a : Account) (n : NodeId) : Account := { a with nodeId := n, storageTracker := {} }

/-- A move, with the deposit that it credits and the transfers that it issues. New nodes are made
under some keys, and the pools take deposits only as some of them. -/
inductive Move (host : Host) (env : Env) (L : String → Prop) (P : SharedStoragePool → Prop) (c : Contract) :
    Contract → ℕ → List Transfer → Prop
  /-- An account is saved with a deposit and with changes in its tree. -/
  | updated {n : NodeId} {a a' : Account} {deposit storageBalance : ℕ} {c₁ c' : Contract}
    {t : StorageTracker} (ha : c.accounts.lookup n = some a.stored) (hedits : Edits L c n c₁)
    (hbalance : storageBalance = saturatingAdd a.storageBalance deposit ∨
      deposit = 0 ∧ storageBalance = a.storageBalance)
    (htracker : t.bytesAdded + host.storageUsage c = t.bytesReleased + host.storageUsage c₁)
    (hsaves : Saves host c₁ { a.loaded n with storageBalance, storageTracker := t } c' a') :
    Move host env L P c c' deposit []
  /-- An account is made, with a deposit or with shared storage. -/
  | created {id : AccountId} {a' : Account} {deposit : ℕ} {shared : Option AccountSharedStorage}
    {pools : Map AccountId SharedStoragePool} {c₀ c' : Contract} {t : StorageTracker}
    (hid : isValidAccountId id = true) (hnew : c.rootNode.children.get id = none)
    (hopens : Opens c.sharedStoragePools pools shared)
    (hc : c₀ = { c with nodeCount := c.nodeCount + 1, sharedStoragePools := pools })
    (htracker : t.bytesAdded + host.storageUsage c₀ = t.bytesReleased +
      host.storageUsage (c₀.opened env id { Account.new c.nodeCount with sharedStorage := shared }))
    (hsaves : Saves host
      (c₀.opened env id { Account.new c.nodeCount with sharedStorage := shared })
      { Account.new c.nodeCount with
        storageBalance := deposit, sharedStorage := shared, storageTracker := t } c' a') :
    Move host env L P c c' deposit []
  | withdrawn {n : NodeId} {a a' : Account} {amount : ℕ} {c' : Contract}
    (ha : c.accounts.lookup n = some a.stored)
    (hamount : amount ≤ a.storageBalance -
      saturatingMul (a.usedBytes - a.sharedUsedBytes) host.storageByteCost)
    (hsaves : Saves host c { a.loaded n with storageBalance := a.storageBalance - amount } c' a') :
    Move host env L P c c' 0 [⟨env.predecessorAccountId, amount⟩]
  /-- A deposit goes back. -/
  | returned {deposit : ℕ} : Move host env L P c c deposit [⟨env.predecessorAccountId, deposit⟩]
  | pooled {ownerId : AccountId} {pool pool₁ pool' : SharedStoragePool} {c₁ : Contract}
    (hpool : pool = (c.sharedStoragePools.lookup ownerId).getD .new)
    (hdeposit : MINIMUM_SHARED_STORAGE_BALANCE ≤ env.attachedDeposit)
    (hpool₁ : pool₁ = { pool with
      storageBalance := saturatingAdd pool.storageBalance env.attachedDeposit })
    (hc : c₁ = c.internalSetSharedStoragePool ownerId pool₁)
    (hpool' : pool' = { pool₁ with
      usedBytes := pool.usedBytes + (host.storageUsage c₁ - host.storageUsage c) })
    (hP : P pool') :
    Move host env L P c (c₁.internalSetSharedStoragePool ownerId pool') env.attachedDeposit []
  | shared {n : NodeId} {a a' : Account} {s : AccountSharedStorage}
    {pools : Map AccountId SharedStoragePool} {c₁ c' : Contract} {t : StorageTracker}
    (ha : c.accounts.lookup n = some a.stored)
    (hshares : Shares host c.sharedStoragePools a.sharedStorage pools s)
    (hc : c₁ = { c with
      sharedStoragePools := pools
      accounts := c.accounts.insert n { a with sharedStorage := some s }.stored })
    (htracker : t.bytesAdded + host.storageUsage { c with sharedStoragePools := pools } =
      t.bytesReleased + host.storageUsage c₁)
    (hsaves : Saves host c₁ { a.loaded n with sharedStorage := some s, storageTracker := t } c' a') :
    Move host env L P c c' 0 []
  | changed {status : ContractStatus} : Move host env L P c { c with status } 0 []

/-- A sequence of moves, with the deposits that they credit and the transfers that they issue. -/
inductive Moves (host : Host) (env : Env) (L : String → Prop) (P : SharedStoragePool → Prop) (c : Contract) :
    Contract → ℕ → List Transfer → Prop
  | refl : Moves host env L P c c 0 []
  | tail {c₁ c' : Contract} {deposit deposit' : ℕ} {transfers transfers' : List Transfer}
    (h : Moves host env L P c c₁ deposit transfers) (hmove : Move host env L P c₁ c' deposit' transfers') :
    Moves host env L P c c' (deposit + deposit') (transfers ++ transfers')

section Sound

variable {host : Host} {env : Env} {L : String → Prop} {P : SharedStoragePool → Prop}
  {c c' c₁ : Contract} {n m : NodeId}
  {a account account' : Account} {deposit : ℕ} {transfers : List Transfer}

theorem Contract.sound_new (env : Env) : (Contract.new env).Sound := by
  have hentry : ∀ n k, (Contract.new env).forest.entry n k = none := by
    intro n k
    simp [Contract.forest, Contract.new]
  have hgrown : (Contract.new env).forest.Grown :=
    ⟨fun m k _ _ h => by simp [hentry] at h, fun m k _ _ h => by simp [hentry] at h,
      fun m k _ _ _ _ _ h => by simp [hentry] at h, fun n k _ => hentry n k⟩
  refine ⟨hgrown, ?_, Nat.one_pos, ?_, ?_, ?_, ?_, ?_, ?_, ?_⟩
  · intro n hn
    rw [Nat.lt_one_iff.mp hn]
    exact .refl _ 0
  · intro n k v h
    simp [hentry] at h
  · intro n
    constructor
    · intro h
      exact absurd h (AList.notMem_empty n)
    · rintro ⟨hpos, hlt⟩
      exact absurd hlt (Nat.not_lt.mpr hpos)
  · intro id v h
    cases h
  · intro n h
    exact absurd h (AList.notMem_empty n)
  · intro n r h
    cases h
  · intro n key nodeIds h
    cases h
  · intro n h
    exact absurd h (AList.notMem_empty n)

/-! ## Moves keep contracts sound -/

theorem Contract.Sound.lt_count (h : c.Sound) {id : AccountId}
    (hid : c.rootNode.children.get id = some (.node n)) : 0 < n ∧ n < c.nodeCount :=
  ⟨h.grown.lt_target 0 id _ n hid rfl, h.grown.target_lt 0 id _ n hid rfl⟩

theorem Contract.Sound.account_lt_count (h : c.Sound) (hn : n ∈ c.accounts) :
    0 < n ∧ n < c.nodeCount := by
  obtain ⟨id, hid⟩ := h.accounts n hn
  exact h.lt_count hid

/-- The next node has no account yet. -/
theorem Contract.Sound.lookup_nodeCount (h : c.Sound) : c.accounts.lookup c.nodeCount = none := by
  refine AList.lookup_eq_none.mpr fun hmem => ?_
  exact absurd (h.account_lt_count hmem).2 (Nat.lt_irrefl _)

/-- A contract is as sound as one with the same nodes, accounts and permissions. -/
theorem Contract.Sound.congr (h : c.Sound) (hroot : c'.rootNode.children = c.rootNode.children)
    (hnodes : c'.nodes = c.nodes) (hcount : c'.nodeCount = c.nodeCount)
    (hpermissions : c'.permissions = c.permissions) (haccounts : ∀ n, n ∈ c'.accounts ↔ n ∈ c.accounts)
    (hrecords : ∀ n r, c'.accounts.lookup n = some r → ∃ a : Account, r = a.stored) : c'.Sound := by
  have hforest : c'.forest = c.forest := by
    refine Forest.ext ?_ hcount
    funext n k
    simp only [Contract.forest, hroot, hnodes]
  refine ⟨hforest ▸ h.grown, hforest ▸ h.rooted, hcount ▸ h.count_pos, hforest ▸ h.keys, ?_, ?_, ?_,
    hrecords, ?_, ?_⟩
  · intro n
    rw [hnodes, hcount]
    exact h.mem_nodes n
  · intro id v hv
    rw [hroot] at hv
    obtain ⟨hvalid, n, hn, hmem⟩ := h.root id v hv
    exact ⟨hvalid, n, hn, (haccounts n).mpr hmem⟩
  · intro n hn
    rw [hroot]
    exact h.accounts n ((haccounts n).mp hn)
  · intro n key nodeIds hget
    rw [hforest]
    refine h.permissions n key nodeIds ?_
    simpa only [Contract.permissionsOf, hpermissions] using hget
  · intro n hn
    rw [hpermissions] at hn
    exact (haccounts n).mpr (h.granters n hn)

/-- Saving an account leaves the nodes. -/
theorem Saves.forest_eq (hsaves : Saves host c account c' account') : c'.forest = c.forest := by
  rw [hsaves.frame]
  rfl

/-- An account that has a record is saved. -/
theorem Saves.sound (hsaves : Saves host c account c' account') (h : c.Sound)
    (haccount : account.nodeId ∈ c.accounts) : c'.Sound := by
  rw [hsaves.frame]
  refine h.congr rfl rfl rfl rfl ?_ ?_
  · intro n
    simp only [AList.mem_insert]
    exact ⟨fun hn => hn.elim (fun heq => heq ▸ haccount) id, .inr⟩
  · intro n r hr
    by_cases hn : n = account.nodeId
    · subst hn
      rw [AList.lookup_insert] at hr
      exact ⟨account', (Option.some.inj hr).symm⟩
    · rw [AList.lookup_insert_ne hn] at hr
      exact h.records n r hr

theorem Edits.refl (h : c.Sound) (n : NodeId) : Edits L c n c := by
  refine ⟨rfl, .refl, le_rfl, ?_, fun _ _ => rfl, h.permissions n⟩
  intro t
  refine ⟨.inl, ?_⟩
  rintro (ht | ⟨hge, hlt⟩)
  · exact ht
  · exact absurd hlt (Nat.not_lt.mpr hge)

theorem Edits.sound (hedits : Edits L c n c') (h : c.Sound) (hn : n ∈ c.accounts) : c'.Sound := by
  have hlt : n < c.forest.count := (h.account_lt_count hn).2
  have hkeep := hedits.writes.entry_of_target h.grown hlt
  have hroot : c'.rootNode = c.rootNode := by rw [hedits.frame]
  have haccounts : c'.accounts = c.accounts := by rw [hedits.frame]
  refine ⟨hedits.writes.grown h.grown hlt, hedits.writes.rooted h.grown hlt h.rooted,
    h.count_pos.trans_le hedits.count_le, hedits.writes.keys h.keys, ?_, ?_, ?_, ?_, ?_, ?_⟩
  · intro t
    have hle := hedits.count_le
    have hpos := h.count_pos
    rw [hedits.mem_nodes, h.mem_nodes]
    constructor
    · rintro (⟨hp, hl⟩ | ⟨hg, hl⟩)
      · exact ⟨hp, hl.trans_le hle⟩
      · exact ⟨hpos.trans_le hg, hl⟩
    · rintro ⟨hp, hl⟩
      rcases Nat.lt_or_ge t c.nodeCount with hlt | hge
      · exact .inl ⟨hp, hlt⟩
      · exact .inr ⟨hge, hl⟩
  · rw [hroot, haccounts]
    exact h.root
  · rw [hroot, haccounts]
    exact h.accounts
  · rw [haccounts]
    exact h.records
  · intro m key nodeIds hget
    by_cases hm : m = n
    · subst hm
      exact hedits.granted key nodeIds hget
    · intro i hi
      simp only [Contract.permissionsOf, hedits.permissions m hm] at hget
      exact (h.permissions m key nodeIds hget i hi).mono hkeep
  · intro m hm
    rw [haccounts]
    by_cases hmn : m = n
    · exact hmn ▸ hn
    · refine h.granters m (AList.lookup_isSome.mp ?_)
      rw [← hedits.permissions m hmn]
      exact AList.lookup_isSome.mpr hm

/-- A new account makes a new node under its id at the root. -/
theorem Contract.forest_opened (env : Env) (id : AccountId) (shared : Option AccountSharedStorage)
    (pools : Map AccountId SharedStoragePool) (hpos : 0 < c.nodeCount) :
    (({ c with nodeCount := c.nodeCount + 1, sharedStoragePools := pools } : Contract).opened env id
      { Account.new c.nodeCount with sharedStorage := shared }).forest =
        c.forest.link 0 id (.node c.nodeCount) fun _ => none := by
  refine Forest.ext ?_ rfl
  funext m k
  by_cases hm : m = 0
  · subst hm
    have hne : 0 ≠ c.forest.count := hpos.ne
    by_cases hk : k = id
    · subst hk
      simp [Contract.forest, Contract.opened, Forest.link, hpos.ne, Account.new]
    · simp [Contract.forest, Contract.opened, Forest.link, hk, hpos.ne,
        UnorderedMap.get_insert_of_ne hk]
  · by_cases hcount : m = c.nodeCount
    · subst hcount
      simp [Contract.forest, Contract.opened, Forest.link, hm, Account.new]
    · simp [Contract.forest, Contract.opened, Forest.link, hm, hcount, Account.new,
        AList.lookup_insert_ne hcount]

/-- The contract is sound when the window of a new account ends. -/
theorem Contract.Sound.opened {id : AccountId} (h : c.Sound) (env : Env)
    (shared : Option AccountSharedStorage) (pools : Map AccountId SharedStoragePool)
    (hid : isValidAccountId id = true) (hnew : c.rootNode.children.get id = none) :
    (({ c with nodeCount := c.nodeCount + 1, sharedStoragePools := pools } : Contract).opened env id
      { Account.new c.nodeCount with sharedStorage := shared }).Sound := by
  have hplain : PlainKey id := isSpecialKey_of_isValidAccountId hid
  have hlink : c.forest.Writes 0 True (fun _ => False) PlainKey (fun _ => True)
      (c.forest.link 0 id (.node c.nodeCount) fun _ => none) := by
    refine .link .refl ⟨.refl _ 0, .inl trivial⟩ ⟨hplain, trivial⟩ ?_ rfl (by rintro j u ⟨⟩)
    intro v hv
    simp [Contract.forest, hnew] at hv
  have hkeep := hlink.entry_of_target h.grown h.count_pos
  have hforest := Contract.forest_opened env id shared pools h.count_pos
  refine ⟨hforest ▸ hlink.grown h.grown h.count_pos, hforest ▸ hlink.rooted h.grown h.count_pos h.rooted,
    Nat.succ_pos _, hforest ▸ hlink.keys h.keys, ?_, ?_, ?_, ?_, ?_, ?_⟩
  · intro n
    have hpos := h.count_pos
    simp only [Contract.opened, Account.new, AList.mem_insert, h.mem_nodes]
    constructor
    · rintro (rfl | ⟨hp, hl⟩)
      · exact ⟨hpos, Nat.lt_succ_self _⟩
      · exact ⟨hp, hl.trans (Nat.lt_succ_self _)⟩
    · rintro ⟨hp, hl⟩
      rcases Nat.lt_succ_iff_lt_or_eq.mp hl with hl | rfl
      · exact .inr ⟨hp, hl⟩
      · exact .inl rfl
  · intro id' v hv
    simp only [Contract.opened, Account.new, AList.mem_insert] at hv ⊢
    by_cases hne : id' = id
    · subst hne
      rw [UnorderedMap.get_insert_self] at hv
      exact ⟨hid, c.nodeCount, (Option.some.inj hv).symm, .inl rfl⟩
    · rw [UnorderedMap.get_insert_of_ne hne] at hv
      obtain ⟨hvalid, n, hn, hmem⟩ := h.root id' v hv
      exact ⟨hvalid, n, hn, .inr hmem⟩
  · intro n hn
    simp only [Contract.opened, Account.new, AList.mem_insert] at hn ⊢
    rcases hn with rfl | hn
    · exact ⟨id, UnorderedMap.get_insert_self⟩
    · obtain ⟨id', hid'⟩ := h.accounts n hn
      refine ⟨id', ?_⟩
      rw [UnorderedMap.get_insert_of_ne ?_]
      · exact hid'
      · rintro rfl
        cases hnew.symm.trans hid'
  · intro n r hr
    simp only [Contract.opened, Account.new] at hr
    by_cases hn : n = c.nodeCount
    · subst hn
      rw [AList.lookup_insert] at hr
      exact ⟨_, (Option.some.inj hr).symm⟩
    · rw [AList.lookup_insert_ne hn] at hr
      exact h.records n r hr
  · intro n key nodeIds hget i hi
    rw [hforest]
    exact (h.permissions n key nodeIds hget i hi).mono hkeep
  · intro n hn
    exact (AList.mem_insert _).mpr (.inr (h.granters n hn))

theorem mem_accounts_of_lookup {r : VAccount} (h : c.accounts.lookup n = some r) :
    n ∈ c.accounts := AList.lookup_isSome.mp (Option.isSome_of_eq_some h)

/-- The contract is sound with a new record of an account and other pools. -/
theorem Contract.Sound.sharing (h : c.Sound) (hn : n ∈ c.accounts) (a : Account)
    (pools : Map AccountId SharedStoragePool) :
    ({ c with sharedStoragePools := pools, accounts := c.accounts.insert n a.stored } :
      Contract).Sound := by
  refine h.congr rfl rfl rfl rfl ?_ ?_
  · intro m
    simp only [AList.mem_insert]
    exact ⟨fun hm => hm.elim (fun heq => heq ▸ hn) id, .inr⟩
  · intro m r hr
    by_cases hm : m = n
    · subst hm
      rw [AList.lookup_insert] at hr
      exact ⟨_, (Option.some.inj hr).symm⟩
    · rw [AList.lookup_insert_ne hm] at hr
      exact h.records m r hr

/-- **A move keeps a contract sound.** -/
theorem Move.sound (h : Move host env L P c c' deposit transfers) (hsound : c.Sound) : c'.Sound := by
  cases h with
  | @updated n a a' _ _ c₁ _ t ha hedits hbalance htracker hsaves =>
    have hn : n ∈ c.accounts := mem_accounts_of_lookup ha
    have haccounts : c₁.accounts = c.accounts := by rw [hedits.frame]
    exact hsaves.sound (hedits.sound hsound hn) (haccounts ▸ hn)
  | created hid hnew hopens hc htracker hsaves =>
    subst hc
    exact hsaves.sound (hsound.opened _ _ _ hid hnew) ((AList.mem_insert _).mpr (.inl rfl))
  | @withdrawn n a a' amount _ ha hamount hsaves =>
    exact hsaves.sound hsound (mem_accounts_of_lookup ha)
  | returned => exact hsound
  | pooled hpool hdeposit hpool₁ hc hpool' hP =>
    subst hc
    exact hsound.congr rfl rfl rfl rfl (fun _ => .rfl) hsound.records
  | @shared n a a' s pools c₁ _ t ha hshares hc htracker hsaves =>
    have hn : n ∈ c.accounts := mem_accounts_of_lookup ha
    subst hc
    exact hsaves.sound (hsound.sharing hn _ _) ((AList.mem_insert _).mpr (.inl rfl))
  | changed => exact hsound.congr rfl rfl rfl rfl (fun _ => .rfl) hsound.records

theorem Moves.sound (h : Moves host env L P c c' deposit transfers) (hsound : c.Sound) : c'.Sound := by
  induction h with
  | refl => exact hsound
  | tail _ hmove ih => exact hmove.sound ih

theorem Moves.single (h : Move host env L P c c' deposit transfers) :
    Moves host env L P c c' deposit transfers := by
  simpa using Moves.tail .refl h

theorem Moves.trans {c'' : Contract} {deposit' : ℕ} {transfers' : List Transfer}
    (h : Moves host env L P c c' deposit transfers) (h' : Moves host env L P c' c'' deposit' transfers') :
    Moves host env L P c c'' (deposit + deposit') (transfers ++ transfers') := by
  induction h' with
  | refl => simpa using h
  | tail _ hmove ih =>
    rw [← Nat.add_assoc, ← List.append_assoc]
    exact ih.tail hmove

end Sound

/-! ## The trees of accounts -/

section Trees

variable {c : Contract} {m n r r' : NodeId} {id id' : AccountId}

/-- A node lies in the tree of one account. -/
theorem Contract.Sound.account_unique (h : c.Sound)
    (hid : c.rootNode.children.get id = some (.node r))
    (hid' : c.rootNode.children.get id' = some (.node r')) (hr : c.forest.Below r n)
    (hr' : c.forest.Below r' n) : id = id' ∧ r = r' := by
  have heq : r = r' := by
    rcases h.grown.below_total hr hr' with hbelow | hbelow
    · exact h.grown.eq_of_siblings (m := 0) hid rfl hid' rfl hbelow
    · exact (h.grown.eq_of_siblings (m := 0) hid' rfl hid rfl hbelow).symm
  subst heq
  exact ⟨(h.grown.unique 0 id _ 0 id' _ r hid rfl hid' rfl).2, rfl⟩

/-- Every node but the root lies in the tree of an account. -/
theorem Contract.Sound.exists_account (h : c.Sound) (hn : n < c.nodeCount) (hpos : 0 < n) :
    ∃ id r, c.rootNode.children.get id = some (.node r) ∧ c.forest.Below r n := by
  rcases Relation.ReflTransGen.cases_head (h.rooted n hn) with rfl | ⟨r, ⟨id, v, hid, hv⟩, hr⟩
  · exact absurd hpos (Nat.lt_irrefl 0)
  · rw [target_eq_some.mp hv] at hid
    exact ⟨id, r, hid, hr⟩

/-- The trees of two accounts have no node in common. -/
theorem Contract.Sound.eq_of_below (h : c.Sound) (hr : r ∈ c.accounts) (hr' : r' ∈ c.accounts)
    (hn : c.forest.Below r n) (hn' : c.forest.Below r' n) : r = r' := by
  obtain ⟨id, hid⟩ := h.accounts r hr
  obtain ⟨id', hid'⟩ := h.accounts r' hr'
  exact (h.account_unique hid hid' hn hn').2

end Trees

end UncContracts.Social
