import UncContracts.Social.Moves

/-!
# The calls of the social contract

Every call of a sound contract is a sequence of moves.

## Main definitions

* `Method.nodeKeys`: the keys of a call that new nodes may be made under
* `Method.credited`: the deposit that a call credits

## Main results

* `edits_of_recursiveSet`, `edits_of_grantKeys`: writing data and granting keys edit a tree
* `moves_of_call`: every call is a sequence of moves
-/

namespace UncContracts.Social

open Foundation HasTarget

/-- The keys of a call that new nodes may be made under: those that lead to an object, and those on
the way to what is granted. -/
def Method.nodeKeys : Method → List String
  | set data _ => data.objectKeys
  | grantWritePermission _ _ keys => keys.flatMap fun key => (splitPath key).tail
  | _ => []

/-- The deposit that a call credits: all of it, apart from the one that a withdrawal is signed
with. -/
def Method.credited (env : Env) : Method → ℕ
  | storageWithdraw _ => 0
  | _ => env.attachedDeposit

/-- The pool that a call deposits to, after the call. -/
def Method.depositedPool (host : Host) (env : Env) (c : Contract) : Method → Option SharedStoragePool
  | sharedStoragePoolDeposit ownerId =>
    let ownerId := ownerId.getD env.predecessorAccountId
    let pool := (c.sharedStoragePools.lookup ownerId).getD .new
    let storageBalance := saturatingAdd pool.storageBalance env.attachedDeposit
    let c₁ := c.internalSetSharedStoragePool ownerId { pool with storageBalance }
    some { pool with
      storageBalance
      usedBytes := pool.usedBytes + (host.storageUsage c₁ - host.storageUsage c) }
  | _ => none

section Accounts

variable {host : Host} {env : Env} {L : String → Prop} {P : SharedStoragePool → Prop}
  {c c' c₁ c₂ : Contract} {n : NodeId}
  {a account : Account} {id : AccountId} {transfers : List Transfer}

/-- The account that is read is the one that was stored. -/
theorem Contract.Sound.loaded (h : c.Sound)
    (hget : c.internalGetAccount id = .ok (some account)) : ∃ (n : NodeId) (a : Account),
      c.rootNode.children.get id = some (.node n) ∧ c.accounts.lookup n = some a.stored ∧
      account = a.loaded n := by
  obtain ⟨n, hn, haccount⟩ := internalGetAccount_eq_some.mp hget
  obtain ⟨r, a, hr, ha, rfl⟩ := accountAt_eq_ok.mp haccount
  obtain ⟨a', rfl⟩ := h.records n r hr
  cases ha
  exact ⟨n, a', hn, hr, rfl⟩

/-! ## New accounts -/

/-- The account of a node id that is made with a record of its own is read back. -/
theorem moves_of_internalInitialSetAccount {deposit : ℕ} {shared : Option AccountSharedStorage}
    {pools : Map AccountId SharedStoragePool} (hid : isValidAccountId id = true)
    (hnew : c.rootNode.children.get id = none) (hopens : Opens c.sharedStoragePools pools shared)
    (h : ({ c with nodeCount := c.nodeCount + 1, sharedStoragePools := pools } :
        Contract).internalInitialSetAccount host env id
      { Account.new c.nodeCount with storageBalance := deposit, sharedStorage := shared } = .ok c') :
    Move host env L P c c' deposit [] := by
  obtain ⟨-, a', hsaves⟩ := internalInitialSetAccount_saves rfl h
  refine .created hid hnew hopens rfl ?_ hsaves
  simp only
  exact (Nat.sub_add_eq_max ..).trans ((Nat.max_comm ..).trans (Nat.sub_add_eq_max ..).symm)

theorem moves_of_internalCreateAccount {deposit : ℕ} {registrationOnly : Bool}
    (hid : isValidAccountId id = true) (hnew : c.rootNode.children.get id = none)
    (h : c.internalCreateAccount host env id deposit registrationOnly = .ok (c', transfers)) :
    Moves host env L P c c' deposit transfers ∧ (registrationOnly = false → transfers = []) := by
  simp only [Contract.internalCreateAccount, bind_eq_ok, ensure_eq_ok, pure_eq_ok,
    Prod.mk.injEq] at h
  obtain ⟨_, -, ⟨c₁, n⟩, hcreate, c₂, hset, rfl, rfl⟩ := h
  obtain ⟨-, rfl, rfl⟩ := createNodeId_eq_ok.mp hcreate
  cases registrationOnly with
  | false => exact ⟨.single (moves_of_internalInitialSetAccount hid hnew .own hset), by simp⟩
  | true =>
    refine ⟨?_, by rintro ⟨⟩⟩
    have hcreated : Move host env L P c c₂ 0 [] :=
      moves_of_internalInitialSetAccount hid hnew .own hset
    by_cases hpos : 0 < deposit
    · simpa [hpos] using (Moves.single .returned).tail hcreated
    · rw [Nat.eq_zero_of_not_pos hpos]
      exact .single hcreated

/-- A deposit goes to an account that is there, or one is made and saved with it. -/
theorem internalUnwrapAccountOrCreate_cases {deposit : ℕ}
    (h : c.internalUnwrapAccountOrCreate host env id deposit = .ok (c', transfers, account)) :
    (c' = c ∧ ∃ n, c.rootNode.children.get id = some (.node n)) ∨
      c.rootNode.children.get id = none ∧ ∃ saved a : Account,
        Saves host (({ c with nodeCount := c.nodeCount + 1 } : Contract).opened env id
          (Account.new c.nodeCount)) saved c' a := by
  simp only [Contract.internalUnwrapAccountOrCreate, bind_eq_ok, ensure_eq_ok] at h
  obtain ⟨_, -, o, hget, h⟩ := h
  cases o with
  | some account' =>
    obtain ⟨n, hn, -⟩ := internalGetAccount_eq_some.mp hget
    cases pure_eq_ok.mp h
    exact .inl ⟨rfl, n, hn⟩
  | none =>
    simp only [bind_eq_ok, Contract.internalCreateAccount, ensure_eq_ok, pure_eq_ok,
      Prod.mk.injEq] at h
    obtain ⟨⟨c₁, transfers₁⟩, ⟨_, -, ⟨c₂, n⟩, hcreate, c₃, hset, rfl, -⟩, _, -, rfl, -⟩ := h
    obtain ⟨-, rfl, rfl⟩ := createNodeId_eq_ok.mp hcreate
    obtain ⟨-, a, hsaves⟩ := internalInitialSetAccount_saves rfl hset
    exact .inr ⟨internalGetAccount_eq_none.mp hget, _, a, hsaves⟩

/-- The account that a deposit goes to, with the part of it that is not saved yet. -/
theorem moves_of_internalUnwrapAccountOrCreate (L : String → Prop) (P : SharedStoragePool → Prop)
    {deposit : ℕ} (hsound : c.Sound)
    (h : c.internalUnwrapAccountOrCreate host env id deposit = .ok (c', transfers, account)) :
    isValidAccountId id = true ∧
      ∃ (credited rest : ℕ) (n : NodeId) (a : Account) (storageBalance : ℕ),
      Moves host env L P c c' credited transfers ∧ credited + rest = deposit ∧
      c'.rootNode.children.get id = some (.node n) ∧ c'.accounts.lookup n = some a.stored ∧
      (storageBalance = saturatingAdd a.storageBalance rest ∨
        rest = 0 ∧ storageBalance = a.storageBalance) ∧
      account = { a.loaded n with storageBalance } := by
  simp only [Contract.internalUnwrapAccountOrCreate, bind_eq_ok, ensure_eq_ok] at h
  obtain ⟨_, hid, o, hget, h⟩ := h
  refine ⟨hid, ?_⟩
  cases o with
  | some account' =>
    obtain ⟨n, a, hn, ha, rfl⟩ := hsound.loaded hget
    cases pure_eq_ok.mp h
    exact ⟨0, deposit, n, a, _, .refl, Nat.zero_add _, hn, ha, .inl rfl, rfl⟩
  | none =>
    simp only [bind_eq_ok, internalUnwrapAccount_eq_ok, pure_eq_ok, Prod.mk.injEq] at h
    obtain ⟨⟨c₁, transfers₁⟩, hcreate, account', hget', rfl, rfl, rfl⟩ := h
    have hmoves := (moves_of_internalCreateAccount (L := L) (P := P) hid
      (internalGetAccount_eq_none.mp hget) hcreate).1
    obtain ⟨n, a, hn, ha, rfl⟩ := (hmoves.sound hsound).loaded hget'
    exact ⟨deposit, 0, n, a, _, hmoves, rfl, hn, ha, .inr ⟨rfl, rfl⟩, rfl⟩

end Accounts

/-! ## Changes in a tree -/

section Trees

variable {host : Host} {env : Env} {L : String → Prop} {P : SharedStoragePool → Prop}
  {c c' c₁ c₂ : Contract} {n : NodeId}
  {node node' : Node} {ok : Bool} {W : Finset NodeId} {value : Json} {account account' : Account}
  {id : AccountId}

theorem Contract.Sound.mem_of_entry (h : c.Sound) {m t : NodeId} {k : String}
    (hentry : c.forest.entry m k = some (.node t)) : t ∈ c.nodes := by
  have hlt := h.grown.lt_target m k _ t hentry rfl
  exact (h.mem_nodes t).mpr ⟨(Nat.zero_le m).trans_lt hlt, h.grown.target_lt m k _ t hentry rfl⟩

/-- A stored node of a sound contract reads like its forest. -/
theorem Contract.Sound.reads (h : c.Sound) (hn : 0 < n) (hnode : c.internalUnwrapNode n = .ok node) :
    node.nodeId = n ∧ Reads c.forest c node ∧ InMemory c.forest c node := by
  obtain ⟨stored, hlookup, rfl⟩ := internalUnwrapNode_eq_ok.mp hnode
  have hlt := ((h.mem_nodes n).mp (AList.lookup_isSome.mp (Option.isSome_of_eq_some hlookup))).2
  have hentry : c.forest.entry n = stored.children.get :=
    Contract.forest_entry_of_lookup hn.ne' hlookup
  exact ⟨rfl, ⟨h.grown, rfl, hn, hlt, hentry, fun _ _ => rfl, fun _ _ _ _ => h.mem_of_entry⟩,
    ⟨h.grown, rfl, hn, hlt, hentry, fun _ _ => rfl, fun _ _ _ ht => .inl (h.mem_of_entry ht)⟩⟩

/-- The forest that a reader will see is the one of the contract, when all nodes are saved. -/
theorem WroteValue.forest_eq {G : Forest String NodeValue} (hG : WroteValue c.forest c node ok W L c' G)
    (hreads : Reads c.forest c node) : G = c'.forest := by
  refine Forest.ext ?_ hG.count
  funext m
  rcases Nat.lt_or_ge m node.nodeId with hm | hm
  · rw [hG.grows.forest_entry hm]
    funext k
    exact hG.writes.entry_eq_of_lt hreads.grown hreads.lt_count hm
  · exact hG.entry m hm

/-- What writing a value below a stored node does to the forest of a sound contract. -/
theorem wroteValue_of_recursiveSet (hsound : c.Sound) (hn : 0 < n)
    (hnode : c.internalUnwrapNode n = .ok node) (hL : ∀ k ∈ value.objectKeys, L k)
    (h : Contract.recursiveSet env c node value ok W = .ok c') :
    WroteValue c.forest c node ok W L c' c'.forest := by
  obtain ⟨-, hreads, -⟩ := hsound.reads hn hnode
  obtain ⟨G, hG⟩ := recursiveSet_writes value hL hreads h
  exact hG.forest_eq hreads ▸ hG

/-- **Writing a value edits a tree.** -/
theorem edits_of_recursiveSet (hsound : c.Sound) (hn : n ∈ c.accounts)
    (hnode : c.internalUnwrapNode n = .ok node) (hL : ∀ k ∈ value.objectKeys, L k)
    (h : Contract.recursiveSet env c node value ok W = .ok c') : Edits L c n c' := by
  have hpos := (hsound.account_lt_count hn).1
  obtain ⟨hid, hreads, -⟩ := hsound.reads hpos hnode
  have hwrote := wroteValue_of_recursiveSet hsound hpos hnode hL h
  have hpermissions : c'.permissions = c.permissions := by rw [hwrote.grows.frame]
  refine ⟨?_, hid ▸ hwrote.writes.of_root _, hwrote.grows.count_le, ?_, ?_, ?_⟩
  · rw [hpermissions]
    exact hwrote.grows.frame
  · intro t
    rw [hwrote.mem]
    constructor
    · rintro (ht | rfl | ht)
      · exact .inl ht
      · exact .inl ((hsound.mem_nodes _).mpr ⟨hreads.pos, hreads.lt_count⟩)
      · exact .inr ht
    · rintro (ht | ht)
      · exact .inl ht
      · exact .inr (.inr ht)
  · intro m _
    rw [hpermissions]
  · intro key nodeIds hget i hi
    simp only [Contract.permissionsOf, hpermissions] at hget
    exact (hsound.permissions n key nodeIds hget i hi).mono
      (hwrote.writes.entry_of_target hsound.grown hreads.lt_count)

theorem Edits.trans (h : Edits L c n c₁) (h' : Edits L c₁ n c₂) : Edits L c n c₂ := by
  refine ⟨?_, h.writes.trans h'.writes, h.count_le.trans h'.count_le, ?_, ?_, h'.granted⟩
  · rw [h'.frame, h.frame]
  · intro t
    rw [h'.mem_nodes, h.mem_nodes]
    exact or_between_trans h.count_le h'.count_le
  · intro m hm
    rw [h'.permissions m hm, h.permissions m hm]

/-- Granting a key edits a tree, and what is granted lies in it. The tracker sees the change. -/
theorem edits_of_grantKey {key : String} {i : NodeId} (hsound : c.Sound)
    (hn : account.nodeId ∈ c.accounts) (hL : ∀ k ∈ (splitPath key).tail, L k)
    (h : c.grantKey host env id account key = .ok (c', account', i)) :
    Edits L c account.nodeId c' ∧ c'.forest.Below account.nodeId i ∧ ∃ t,
      account' = { account with storageTracker := t } ∧
      t.bytesAdded + account.storageTracker.bytesReleased + host.storageUsage c =
        account.storageTracker.bytesAdded + t.bytesReleased + host.storageUsage c' := by
  simp only [Contract.grantKey, bind_eq_ok, ensure_eq_ok, pure_eq_ok, Prod.mk.injEq] at h
  obtain ⟨t₁, hstart, _, -, _, -, node, hnode, ⟨c₁, node₁⟩, hwalk, t₂, hstop, rfl, rfl, rfl⟩ := h
  have hpos := (hsound.account_lt_count hn).1
  obtain ⟨hid, -, hmemory⟩ := hsound.reads hpos hnode
  obtain ⟨G, hG⟩ := walk_writes hL hmemory hwalk
  have hforest : (c₁.internalSetNode env node₁).forest = G := hG.inMemory.saved
  have hpermissions : (c₁.internalSetNode env node₁).permissions = c.permissions := by
    show c₁.permissions = c.permissions
    rw [hG.frame]
  refine ⟨⟨?_, hforest ▸ hid ▸ hG.writes, hG.count_le, ?_, ?_, ?_⟩, hforest ▸ hid ▸ hG.below, _, rfl, ?_⟩
  · rw [Contract.internalSetNode, hG.frame]
  · intro t
    rw [mem_internalSetNode, or_comm, show (c₁.internalSetNode env node₁).nodeCount = c₁.nodeCount
      from rfl, hG.mem]
    constructor
    · rintro (ht | rfl | ht)
      · exact .inl ht
      · exact .inl ((hsound.mem_nodes _).mpr ⟨hmemory.pos, hmemory.lt_count⟩)
      · exact .inr ht
    · rintro (ht | ht)
      · exact .inl ht
      · exact .inr (.inr ht)
  · intro m _
    rw [hpermissions]
  · intro key nodeIds hget i hi
    simp only [Contract.permissionsOf, hpermissions] at hget
    rw [hforest]
    exact (hsound.permissions _ key nodeIds hget i hi).mono
      (hG.writes.entry_of_target hsound.grown hmemory.lt_count)
  · rw [(StorageTracker.window hstart hstop).2]
    simp only
    omega

/-- **Granting keys edits a tree.** -/
theorem edits_of_grantKeys {keys : List String} {nodeIds nodeIds' : Finset NodeId}
    (hsound : c.Sound) (hn : account.nodeId ∈ c.accounts)
    (hL : ∀ key ∈ keys, ∀ k ∈ (splitPath key).tail, L k)
    (hnodeIds : ∀ i ∈ nodeIds, c.forest.Below account.nodeId i)
    (h : Contract.grantKeys host env id c account keys nodeIds = .ok (c', account', nodeIds')) :
    Edits L c account.nodeId c' ∧ (∀ i ∈ nodeIds', c'.forest.Below account.nodeId i) ∧ ∃ t,
      account' = { account with storageTracker := t } ∧
      t.bytesAdded + account.storageTracker.bytesReleased + host.storageUsage c =
        account.storageTracker.bytesAdded + t.bytesReleased + host.storageUsage c' := by
  induction keys generalizing c account nodeIds with
  | nil =>
    cases h
    exact ⟨.refl hsound _, hnodeIds, _, rfl, by omega⟩
  | cons key keys ih =>
    simp only [Contract.grantKeys, bind_eq_ok] at h
    obtain ⟨⟨c₁, account₁, i⟩, hkey, h⟩ := h
    obtain ⟨hedits, hbelow, t, haccount, ht⟩ := edits_of_grantKey hsound hn (hL key (by simp)) hkey
    have hid : account₁.nodeId = account.nodeId := by rw [haccount]
    have htracker : account₁.storageTracker = t := by rw [haccount]
    have hlt : account.nodeId < c.forest.count := (hsound.account_lt_count hn).2
    have hn₁ : account₁.nodeId ∈ c₁.accounts := by
      rw [hedits.frame, hid]
      exact hn
    have hnodeIds₁ : ∀ j ∈ insert i nodeIds, c₁.forest.Below account₁.nodeId j := by
      intro j hj
      rw [hid]
      rcases Finset.mem_insert.mp hj with rfl | hj
      · exact hbelow
      · exact (hnodeIds j hj).mono (hedits.writes.entry_of_target hsound.grown hlt)
    obtain ⟨hedits', hbelow', t', rfl, ht'⟩ := ih (hedits.sound hsound hn) hn₁
      (fun key hkey => hL key (List.mem_cons_of_mem _ hkey)) hnodeIds₁ h
    rw [hid] at hedits' hbelow'
    rw [htracker] at ht'
    refine ⟨hedits.trans hedits', hbelow', t', by rw [haccount], ?_⟩
    omega

/-- Setting a permission edits the permissions of an account. -/
theorem edits_of_internalSetPermission {key : PermissionKey} {nodeIds : Finset NodeId}
    (hsound : c.Sound) (hnodeIds : ∀ i ∈ nodeIds, c.forest.Below account.nodeId i)
    (h : c.internalSetPermission host account key (.granted nodeIds) = .ok (c', account')) :
    Edits L c account.nodeId c' ∧ ∃ t, account' = { account with storageTracker := t } ∧
      t.bytesAdded + account.storageTracker.bytesReleased + host.storageUsage c =
        account.storageTracker.bytesAdded + t.bytesReleased + host.storageUsage c' := by
  simp only [Contract.internalSetPermission, bind_eq_ok, pure_eq_ok, Prod.mk.injEq] at h
  obtain ⟨t₁, hstart, t₂, hstop, rfl, rfl⟩ := h
  refine ⟨⟨rfl, .refl, le_rfl, ?_, ?_, ?_⟩, _, rfl, ?_⟩
  · intro t
    refine ⟨.inl, ?_⟩
    rintro (ht | ⟨hge, hlt⟩)
    · exact ht
    · exact absurd hlt (Nat.not_lt.mpr hge)
  · intro m hm
    exact AList.lookup_insert_ne hm
  · intro key' nodeIds' hget i hi
    simp only [Contract.permissionsOf, AList.lookup_insert, Option.getD_some] at hget
    have hold : ∀ key' nodeIds', (c.permissionsOf account.nodeId).get key' =
        some (.granted nodeIds') → ∀ i ∈ nodeIds', c.forest.Below account.nodeId i :=
      hsound.permissions account.nodeId
    split at hget
    · exact hold key' nodeIds' (UnorderedMap.get_remove_eq_some.mp hget).1 i hi
    · by_cases heq : key' = key
      · subst heq
        cases UnorderedMap.get_insert_self.symm.trans hget
        exact hnodeIds i hi
      · rw [UnorderedMap.get_insert_of_ne heq] at hget
        exact hold key' nodeIds' hget i hi
  · rw [(StorageTracker.window hstart hstop).2]
    simp only
    omega

end Trees

/-! ## Calls -/

section Calls

variable {host : Host} {env : Env} {L : String → Prop} {P : SharedStoragePool → Prop}
  {c c' : Contract} {id : AccountId}
  {transfers : List Transfer}

theorem moves_of_setAccount {value : Json} {deposit : ℕ} (hsound : c.Sound)
    (hL : ∀ k ∈ value.objectKeys, L k)
    (h : c.setAccount host env id value deposit = .ok (c', transfers)) :
    Moves host env L P c c' deposit transfers := by
  simp only [Contract.setAccount, bind_eq_ok, pure_eq_ok, Prod.mk.injEq] at h
  obtain ⟨⟨c₁, transfers₁, account⟩, hcreate, node, hnode, t₁, hstart, c₂, hset, t₂, hstop,
    ⟨c₃, existed⟩, hsave, rfl, rfl⟩ := h
  obtain ⟨-, credited, rest, n, a, balance, hmoves, rfl, hn, ha, hbalance, rfl⟩ :=
    moves_of_internalUnwrapAccountOrCreate L P hsound hcreate
  have hsound₁ := hmoves.sound hsound
  have hedits := edits_of_recursiveSet hsound₁ (mem_accounts_of_lookup ha) hnode hL hset
  obtain ⟨-, -, a', hsaves⟩ := internalSetAccount_saves hsave
  have hwindow := (StorageTracker.window hstart hstop).2
  have hmove : Move host env L P c₁ c₃ rest [] := by
    refine .updated ha hedits hbalance ?_ hsaves
    rw [hwindow]
    simp only [Account.loaded]
    omega
  simpa using hmoves.tail hmove

theorem internalStorageBalanceOf_eq_some {balance : StorageBalance} (hsound : c.Sound)
    (h : c.internalStorageBalanceOf host id = .ok (some balance)) :
    ∃ (n : NodeId) (a : Account), c.rootNode.children.get id = some (.node n) ∧
      c.accounts.lookup n = some a.stored ∧ a.sharedUsedBytes ≤ a.usedBytes ∧ balance =
        { total := a.storageBalance
          available := a.storageBalance -
            saturatingMul (a.usedBytes - a.sharedUsedBytes) host.storageByteCost } := by
  simp only [Contract.internalStorageBalanceOf, bind_eq_ok] at h
  obtain ⟨o, hget, h⟩ := h
  cases o with
  | none => cases h
  | some account =>
    obtain ⟨n, a, hn, ha, rfl⟩ := hsound.loaded hget
    simp only [Account.ownBytes, bind_eq_ok, checkedSub_eq_ok, pure_eq_ok, Option.some.injEq] at h
    obtain ⟨_, ⟨hle, rfl⟩, rfl⟩ := h
    exact ⟨n, a, hn, ha, hle, rfl⟩

/-- What an account has available is withdrawn from it. -/
theorem move_of_withdraw {before : StorageBalance} {account : Account} {amount : ℕ} {existed : Bool}
    (hsound : c.Sound) (hbalance : c.internalStorageBalanceOf host id = .ok (some before))
    (hamount : amount ≤ before.available) (hget : c.internalUnwrapAccount id = .ok account)
    (hsave : c.internalSetAccount host { account with
      storageBalance := account.storageBalance - amount } = .ok (c', existed)) :
    Move host env L P c c' 0 [⟨env.predecessorAccountId, amount⟩] := by
  obtain ⟨n, a, hn, ha, hown, rfl⟩ := internalStorageBalanceOf_eq_some hsound hbalance
  obtain ⟨n', b, hn', hb, rfl⟩ := hsound.loaded (internalUnwrapAccount_eq_ok.mp hget)
  cases hn.symm.trans hn'
  obtain ⟨-, -, a', hsaves⟩ := internalSetAccount_saves hsave
  -- The record that is read is the one whose balance was read.
  have hsame : b.stored = a.stored := Option.some.inj (hb.symm.trans ha)
  simp only [Account.stored, VAccount.current.injEq, Account.mk.injEq] at hsame
  obtain ⟨hsameBalance, hsameUsed, -, -, hsameShared⟩ := hsame
  refine .withdrawn hb ?_ hsaves
  simpa [hsameBalance, hsameUsed, Account.sharedUsedBytes, hsameShared] using hamount

theorem moves_of_internalStorageWithdraw {amount : Option ℕ} {balance : StorageBalance}
    (hsound : c.Sound)
    (h : c.internalStorageWithdraw host env id amount = .ok (c', transfers, balance)) :
    Moves host env L P c c' 0 transfers := by
  simp only [Contract.internalStorageWithdraw, bind_eq_ok] at h
  obtain ⟨o, hbalance, h⟩ := h
  cases o with
  | none => cases h
  | some before =>
    simp only [bind_eq_ok, ensure_eq_ok] at h
    obtain ⟨_, hamount, h⟩ := h
    split at h
    · simp only [bind_eq_ok, expect_eq_ok, pure_eq_ok, Prod.mk.injEq] at h
      obtain ⟨account, hget, ⟨c₁, existed⟩, hsave, o, -, _, -, rfl, rfl, -⟩ := h
      exact .single (move_of_withdraw hsound hbalance hamount hget hsave)
    · simp only [bind_eq_ok, pure_eq_ok, Prod.mk.injEq] at h
      obtain ⟨o, -, _, -, rfl, rfl, -⟩ := h
      exact .refl

theorem moves_of_refundUnused {options : SetOptions} {deposit : ℕ} (hsound : c.Sound)
    (h : c.refundUnused host env options id deposit = .ok (c', transfers)) :
    Moves host env L P c c' 0 transfers := by
  simp only [Contract.refundUnused] at h
  split at h
  · simp only [bind_eq_ok] at h
    obtain ⟨accountId, -, o, -, h⟩ := h
    cases o with
    | none =>
      cases h
      exact .refl
    | some balance =>
      simp only [bind_eq_ok, pure_eq_ok, Prod.mk.injEq] at h
      obtain ⟨⟨c₁, transfers₁, balance₁⟩, hwithdraw, rfl, rfl⟩ := h
      exact moves_of_internalStorageWithdraw hsound hwithdraw
  · cases h
    exact .refl

/-- A run over the data writes the first account, gives back what the account left of the deposit, and
goes on with the others without a deposit. -/
theorem setAccounts_cons {options : SetOptions} {key : String} {value : Json}
    {data : List (String × Json)} {deposit rest : ℕ}
    (h : Contract.setAccounts host env options c ((key, value) :: data) deposit =
      .ok (c', transfers, rest)) :
    ∃ c₁ created c₂ refunded transfers₃,
      c.setAccount host env key value deposit = .ok (c₁, created) ∧
      c₁.refundUnused host env options key deposit = .ok (c₂, refunded) ∧
      Contract.setAccounts host env options c₂ data 0 = .ok (c', transfers₃, rest) ∧
      transfers = created ++ refunded ++ transfers₃ := by
  simp only [Contract.setAccounts, bind_eq_ok, pure_eq_ok, Prod.mk.injEq] at h
  obtain ⟨⟨c₁, created⟩, hset, ⟨c₂, refunded⟩, hrefund, ⟨c₃, transfers₃, rest₃⟩, hrest, rfl, rfl,
    rfl⟩ := h
  exact ⟨c₁, created, c₂, refunded, transfers₃, hset, hrefund, hrest, rfl⟩

theorem moves_of_setAccounts {options : SetOptions} {data : List (String × Json)}
    {deposit rest : ℕ} (hsound : c.Sound) (hL : ∀ k ∈ Json.objectKeysOf data, L k)
    (h : Contract.setAccounts host env options c data deposit = .ok (c', transfers, rest)) :
    ∃ credited, Moves host env L P c c' credited transfers ∧ credited + rest = deposit := by
  induction data generalizing c deposit transfers with
  | nil =>
    cases h
    exact ⟨0, .refl, Nat.zero_add _⟩
  | cons e data ih =>
    obtain ⟨key, value⟩ := e
    obtain ⟨c₁, created, c₂, refunded, transfers₃, hset, hrefund, hrest, rfl⟩ :=
      setAccounts_cons h
    simp only [Json.objectKeysOf, List.mem_append] at hL
    have hfirst : Moves host env L P c c₁ deposit created :=
      moves_of_setAccount hsound (fun k hk => hL k (.inr (.inl hk))) hset
    have hsound₁ := hfirst.sound hsound
    have hsecond : Moves host env L P c₁ c₂ 0 refunded := moves_of_refundUnused hsound₁ hrefund
    obtain ⟨credited, hmoves, hcredited⟩ := ih (hsecond.sound hsound₁)
      (fun k hk => hL k (.inr (.inr hk))) hrest
    refine ⟨deposit, ?_, by omega⟩
    have hall := (hfirst.trans hsecond).trans hmoves
    rwa [show deposit + 0 + credited = deposit by omega] at hall

theorem sound_of_setAccount {value : Json} {deposit : ℕ} (hsound : c.Sound)
    (h : c.setAccount host env id value deposit = .ok (c', transfers)) : c'.Sound :=
  (moves_of_setAccount (L := fun _ => True) (P := fun _ => True) hsound (fun _ _ => trivial)
    h).sound hsound

theorem sound_of_refundUnused {options : SetOptions} {deposit : ℕ} (hsound : c.Sound)
    (h : c.refundUnused host env options id deposit = .ok (c', transfers)) : c'.Sound :=
  (moves_of_refundUnused (L := fun _ => True) (P := fun _ => True) hsound h).sound hsound

theorem sound_of_setAccounts {options : SetOptions} {data : List (String × Json)}
    {deposit rest : ℕ} (hsound : c.Sound)
    (h : Contract.setAccounts host env options c data deposit = .ok (c', transfers, rest)) :
    c'.Sound := by
  obtain ⟨_, hmoves, -⟩ := moves_of_setAccounts (L := fun _ => True) (P := fun _ => True) hsound
    (fun _ _ => trivial) h
  exact hmoves.sound hsound

theorem moves_of_set {data : Json} {options : Option SetOptions} (hsound : c.Sound)
    (hL : ∀ k ∈ data.objectKeys, L k) (h : c.set host env data options = .ok (c', transfers)) :
    Moves host env L P c c' env.attachedDeposit transfers := by
  simp only [Contract.set, bind_eq_ok, ensure_eq_ok, expect_eq_ok, pure_eq_ok, Prod.mk.injEq] at h
  obtain ⟨_, -, fields, hdata, ⟨c₁, transfers₁, rest⟩, hset, _, hrest, rfl, rfl⟩ := h
  obtain rfl := Json.asObject_eq_some.mp hdata
  obtain ⟨credited, hmoves, hcredited⟩ := moves_of_setAccounts hsound hL hset
  dsimp only at hrest
  rwa [show credited = env.attachedDeposit by omega] at hmoves

theorem moves_of_grantWritePermission {predecessorId : Option AccountId}
    {publicKey : Option PublicKey} {keys : List String} (hsound : c.Sound)
    (hL : ∀ key ∈ keys, ∀ k ∈ (splitPath key).tail, L k)
    (h : c.grantWritePermission host env predecessorId publicKey keys = .ok (c', transfers)) :
    Moves host env L P c c' env.attachedDeposit transfers := by
  simp only [Contract.grantWritePermission, bind_eq_ok, ensure_eq_ok, pure_eq_ok,
    Prod.mk.injEq] at h
  obtain ⟨_, -, _, -, key, -, ⟨c₁, transfers₁, account⟩, hcreate, ⟨c₂, account₂, nodeIds⟩, hkeys,
    ⟨c₃, account₃⟩, hpermission, ⟨c₄, existed⟩, hsave, rfl, rfl⟩ := h
  obtain ⟨-, credited, rest, n, a, balance, hmoves, hcredited, hn, ha, hbalance, rfl⟩ :=
    moves_of_internalUnwrapAccountOrCreate L P hsound hcreate
  have hsound₁ := hmoves.sound hsound
  have hmem : n ∈ c₁.accounts := mem_accounts_of_lookup ha
  dsimp only at hkeys hpermission hsave
  have hbefore : ∀ i ∈ (((c₁.permissionsOf n).get key).getD (.granted ∅)).1,
      c₁.forest.Below n i := by
    intro i hi
    cases hget : (c₁.permissionsOf n).get key with
    | none =>
      rw [hget] at hi
      exact absurd hi (Finset.notMem_empty i)
    | some permission =>
      rw [hget] at hi
      exact hsound₁.permissions n key _ hget i hi
  obtain ⟨hedits, hnodeIds, t, rfl, ht⟩ := edits_of_grantKeys hsound₁ hmem hL hbefore hkeys
  have hsound₂ := hedits.sound hsound₁ hmem
  obtain ⟨hedits', t', rfl, ht'⟩ := edits_of_internalSetPermission hsound₂ (by exact hnodeIds) hpermission
  obtain ⟨-, -, a', hsaves⟩ := internalSetAccount_saves hsave
  have hmove : Move host env L P c₁ c₄ rest [] := by
    refine .updated ha (hedits.trans hedits') hbalance ?_ hsaves
    simp only [Account.loaded] at ht ht'
    omega
  simpa [hcredited] using hmoves.tail hmove

/-- A deposit goes to an account that there is or to a new one. -/
theorem moves_of_deposit {o : Option Account} {registrationOnly : Bool} (hsound : c.Sound)
    (hid : isValidAccountId id = true) (h : (match o with
      | some account => do
        if registrationOnly ∧ 0 < env.attachedDeposit then
          pure (c, [⟨env.predecessorAccountId, env.attachedDeposit⟩])
        else
          let storageBalance := saturatingAdd account.storageBalance env.attachedDeposit
          let (c, _) ← c.internalSetAccount host { account with storageBalance }
          pure (c, [])
      | none => c.internalCreateAccount host env id env.attachedDeposit registrationOnly
      : Exec (Contract × List Transfer)) = .ok (c', transfers))
    (hget : c.internalGetAccount id = .ok o) :
    Moves host env L P c c' env.attachedDeposit transfers := by
  cases o with
  | none => exact (moves_of_internalCreateAccount hid (internalGetAccount_eq_none.mp hget) h).1
  | some account =>
    obtain ⟨n, a, hn, ha, rfl⟩ := hsound.loaded hget
    dsimp only at h
    split at h
    · cases h
      exact .single .returned
    · simp only [bind_eq_ok, pure_eq_ok, Prod.mk.injEq] at h
      obtain ⟨⟨c₂, existed⟩, hsave, rfl, rfl⟩ := h
      obtain ⟨-, -, a', hsaves⟩ := internalSetAccount_saves hsave
      exact .single (.updated ha (.refl hsound n) (.inl rfl) rfl hsaves)

theorem moves_of_storageDeposit {accountId : Option AccountId} {registrationOnly : Option Bool}
    {balance : StorageBalance} (hsound : c.Sound)
    (hid : isValidAccountId (accountId.getD env.predecessorAccountId) = true)
    (h : c.storageDeposit host env accountId registrationOnly = .ok (c', transfers, balance)) :
    Moves host env L P c c' env.attachedDeposit transfers := by
  simp only [Contract.storageDeposit, bind_eq_ok, expect_eq_ok, pure_eq_ok, Prod.mk.injEq] at h
  obtain ⟨_, -, o, hget, ⟨c₁, transfers₁⟩, hdeposit, _, -, _, -, rfl, rfl, -⟩ := h
  exact moves_of_deposit hsound hid hdeposit hget

/-- What a deposit does to its pool. -/
theorem pooled_of_sharedStoragePoolDeposit {ownerId : Option AccountId}
    (h : c.sharedStoragePoolDeposit host env ownerId = .ok c') :
    MINIMUM_SHARED_STORAGE_BALANCE ≤ env.attachedDeposit ∧ ∃ (pool pool₁ pool' : SharedStoragePool)
      (c₁ : Contract), pool = (c.sharedStoragePools.lookup
        (ownerId.getD env.predecessorAccountId)).getD .new ∧
      pool₁ = { pool with
        storageBalance := saturatingAdd pool.storageBalance env.attachedDeposit } ∧
      c₁ = c.internalSetSharedStoragePool (ownerId.getD env.predecessorAccountId) pool₁ ∧
      pool' = { pool₁ with
        usedBytes := pool.usedBytes + (host.storageUsage c₁ - host.storageUsage c) } ∧
      c' = c₁.internalSetSharedStoragePool (ownerId.getD env.predecessorAccountId) pool' := by
  simp only [Contract.sharedStoragePoolDeposit, bind_eq_ok, ensure_eq_ok] at h
  obtain ⟨_, hdeposit, t₁, hstart, t₂, hstop, c₁, hset, t₃, -, _, -, h⟩ := h
  cases pure_eq_ok.mp h
  obtain ⟨pool, hpool⟩ : ∃ pool, pool = (c.sharedStoragePools.lookup
    (ownerId.getD env.predecessorAccountId)).getD .new := ⟨_, rfl⟩
  rw [← hpool] at hset hstop
  obtain ⟨pool', hpool'⟩ : ∃ pool', pool' = { pool with
    storageBalance := saturatingAdd pool.storageBalance env.attachedDeposit } := ⟨_, rfl⟩
  rw [← hpool'] at hset hstop
  obtain ⟨c₂, hc₂⟩ : ∃ c₂, c₂ = c.internalSetSharedStoragePool
    (ownerId.getD env.predecessorAccountId) pool' := ⟨_, rfl⟩
  rw [← hc₂] at hset hstop
  have hlookup : c₂.sharedStoragePools.lookup (ownerId.getD env.predecessorAccountId) = some pool' := by
    rw [hc₂]
    exact AList.lookup_insert _
  have hused : pool'.usedBytes = pool.usedBytes := by rw [hpool']
  obtain ⟨-, rfl⟩ := StorageTracker.window hstart hstop
  simp only [Nat.zero_add] at hset
  refine ⟨hdeposit, pool, pool', _, c₂, hpool, hpool', hc₂, rfl, ?_⟩
  split at hset
  · next hlt =>
    simp only [bind_eq_ok, Contract.internalUnwrapSharedStoragePool, hlookup, expect_eq_ok,
      Option.some.injEq, checkedAdd_eq_ok, pure_eq_ok] at hset
    obtain ⟨_, rfl, _, ⟨-, rfl⟩, rfl⟩ := hset
    rw [hused, show host.storageUsage c₂ - host.storageUsage c -
      (host.storageUsage c - host.storageUsage c₂) = host.storageUsage c₂ - host.storageUsage c
      by omega]
  · next hle =>
    rw [← pure_eq_ok.mp hset, show host.storageUsage c₂ - host.storageUsage c = 0 by omega,
      Nat.add_zero, ← hused, hc₂]
    simp only [Contract.internalSetSharedStoragePool, AList.insert_insert]

theorem move_of_sharedStoragePoolDeposit {ownerId : Option AccountId}
    (hP : ∀ pool ∈ (Method.sharedStoragePoolDeposit ownerId).depositedPool host env c, P pool)
    (h : c.sharedStoragePoolDeposit host env ownerId = .ok c') :
    Move host env L P c c' env.attachedDeposit [] := by
  obtain ⟨hdeposit, pool, pool₁, pool', c₁, hpool, hpool₁, hc₁, hpool', rfl⟩ :=
    pooled_of_sharedStoragePoolDeposit h
  refine .pooled hpool hdeposit hpool₁ hc₁ hpool' (hP _ ?_)
  simp only [Method.depositedPool, Option.mem_some_iff, hpool', hc₁, hpool₁, hpool]

theorem shares_of_shareMore {poolId : AccountId} {pool : SharedStoragePool}
    {current shared : AccountSharedStorage} {maxBytes : ℕ}
    (hpool : c.sharedStoragePools.lookup poolId = some pool)
    (h : c.shareMore host poolId pool current maxBytes = .ok (c', shared)) :
    c' = { c with sharedStoragePools := c'.sharedStoragePools } ∧
      Shares host c.sharedStoragePools (some current) c'.sharedStoragePools shared := by
  simp only [Contract.shareMore, bind_eq_ok, ensure_eq_ok] at h
  obtain ⟨_, hused, h⟩ := h
  split at h
  · next heq =>
    subst heq
    simp only [bind_eq_ok, ensure_eq_ok, checkedSub_eq_ok, checkedAdd_eq_ok, pure_eq_ok,
      Prod.mk.injEq] at h
    obtain ⟨_, hmax, _, ⟨-, rfl⟩, _, ⟨-, rfl⟩, rfl, rfl⟩ := h
    exact ⟨rfl, .more hpool hused hmax⟩
  · next hne =>
    simp only [bind_eq_ok, ensure_eq_ok, checkedSub_eq_ok, checkedAdd_eq_ok, pure_eq_ok,
      Contract.internalUnwrapSharedStoragePool, expect_eq_ok, Prod.mk.injEq] at h
    obtain ⟨currentPool, hcurrent, currentAvailable, -, newAvailable, hnew, _, ⟨-, rfl⟩, _, ⟨-, rfl⟩,
      _, hbytes, _, ⟨hcurrentUsed, rfl⟩, _, ⟨hcurrentShared, rfl⟩, _, ⟨-, rfl⟩, _, ⟨-, rfl⟩, rfl,
      rfl⟩ := h
    obtain ⟨-, m, hm, rfl⟩ := availableBytes_eq_ok hnew
    refine ⟨rfl, .moved hpool hne hcurrent hused hcurrentUsed hcurrentShared hm ?_⟩
    omega

/-- Storage is shared with an account for the first time, or again. -/
theorem shares_of_share {poolId : AccountId} {pool : SharedStoragePool} {account : Account}
    {shared : AccountSharedStorage} {maxBytes : ℕ}
    (hpool : c.sharedStoragePools.lookup poolId = some pool)
    (h : (match account.sharedStorage with
      | some current => c.shareMore host poolId pool current maxBytes
      | none => do
        let sharedBytes ← checkedAdd u64Max pool.sharedBytes maxBytes
        pure (c.internalSetSharedStoragePool poolId { pool with sharedBytes },
          { maxBytes, usedBytes := 0, poolId })
      : Exec (Contract × AccountSharedStorage)) = .ok (c', shared)) :
    ∃ pools, c' = { c with sharedStoragePools := pools } ∧
      Shares host c.sharedStoragePools account.sharedStorage pools shared := by
  split at h
  · next current hcurrent =>
    rw [hcurrent]
    exact ⟨_, shares_of_shareMore hpool h⟩
  · next hnone =>
    simp only [bind_eq_ok, checkedAdd_eq_ok, pure_eq_ok, Prod.mk.injEq] at h
    obtain ⟨_, ⟨-, rfl⟩, rfl, rfl⟩ := h
    rw [hnone]
    exact ⟨_, rfl, .first hpool⟩

/-- The account with its new shared storage is read back. -/
theorem loaded_of_shared {a account : Account} {n : NodeId} {s : AccountSharedStorage}
    {pools : Map AccountId SharedStoragePool} (hn : c.rootNode.children.get id = some (.node n))
    (hget : ({ c with
      sharedStoragePools := pools
      accounts := c.accounts.insert n { a with sharedStorage := some s }.stored } :
        Contract).internalUnwrapAccount id = .ok account) :
    account = { a with sharedStorage := some s }.loaded n := by
  obtain ⟨n', hn', hat⟩ := internalGetAccount_eq_some.mp (internalUnwrapAccount_eq_ok.mp hget)
  cases hn.symm.trans hn'
  exact Except.ok.inj (hat.symm.trans (accountAt_of_stored (AList.lookup_insert _)))

theorem move_of_shareStorage {maxBytes : ℕ} (hsound : c.Sound) (hid : isValidAccountId id = true)
    (h : c.shareStorage host env id maxBytes = .ok c') : Move host env L P c c' 0 [] := by
  simp only [Contract.shareStorage, bind_eq_ok, ensure_eq_ok] at h
  obtain ⟨_, -, o, hget, pool, hpool, _, -, _, -, h⟩ := h
  simp only [Contract.internalUnwrapSharedStoragePool, expect_eq_ok] at hpool
  cases o with
  | none =>
    simp only [bind_eq_ok, checkedAdd_eq_ok, Contract.internalCreateAccountFromSharedStorage,
      ensure_eq_ok] at h
    obtain ⟨_, ⟨-, rfl⟩, _, -, _, -, _, -, _, -, ⟨c₁, n⟩, hcreate, hset⟩ := h
    obtain ⟨-, rfl, rfl⟩ := createNodeId_eq_ok.mp hcreate
    exact moves_of_internalInitialSetAccount hid (internalGetAccount_eq_none.mp hget)
      (.shared hpool) hset
  | some account =>
    obtain ⟨n, a, hn, ha, rfl⟩ := hsound.loaded hget
    simp only [bind_eq_ok] at h
    obtain ⟨⟨c₁, shared⟩, hshare, t₁, hstart, ⟨c₂, existed⟩, hidle, t₂, hstop, account₂, hget₂,
      ⟨t₃, t₄⟩, hconsume, ⟨c₃, existed₃⟩, hsave, _, -, h⟩ := h
    cases pure_eq_ok.mp h
    obtain ⟨pools, rfl, hshares⟩ := shares_of_share hpool hshare
    have hc : c₂ = { c with
        sharedStoragePools := pools
        accounts := c.accounts.insert n { a with sharedStorage := some shared }.stored } := by
      rw [internalSetAccount_idle rfl] at hidle
      exact (Prod.mk.inj (Except.ok.inj hidle)).1.symm
    subst hc
    obtain rfl := loaded_of_shared hn hget₂
    obtain ⟨-, ⟨⟩⟩ := StorageTracker.consume_spec hconsume
    obtain ⟨-, -, a', hsaves⟩ := internalSetAccount_saves hsave
    have hwindow := (StorageTracker.window hstart hstop).2
    refine .shared ha hshares rfl ?_ hsaves
    rw [hwindow]
    simp only [Account.loaded]
    omega

/-- **Every call is a sequence of moves.** -/
theorem moves_of_call {method : Method} (hsound : c.Sound) (hL : ∀ k ∈ method.nodeKeys, L k)
    (hP : ∀ pool ∈ method.depositedPool host env c, P pool)
    (h : c.call host env method = .ok (c', transfers)) :
    Moves host env L P c c' (method.credited env) transfers := by
  simp only [Contract.call, bind_eq_ok, ensure_eq_ok] at h
  obtain ⟨_, hids, _, hpayable, h⟩ := h
  cases method with
  | set data options => exact moves_of_set hsound hL h
  | grantWritePermission predecessorId publicKey keys =>
    refine moves_of_grantWritePermission hsound ?_ h
    intro key hkey k hk
    exact hL k (List.mem_flatMap.mpr ⟨key, hkey, hk⟩)
  | storageDeposit accountId registrationOnly =>
    simp only [bind_eq_ok, pure_eq_ok, Prod.mk.injEq] at h
    obtain ⟨⟨c₁, transfers₁, balance⟩, hdeposit, rfl, rfl⟩ := h
    refine moves_of_storageDeposit hsound ?_ hdeposit
    cases accountId with
    | none => exact hids _ (List.mem_cons_self ..)
    | some id => exact hids id (by simp [Method.accountIds])
  | storageWithdraw amount =>
    simp only [bind_eq_ok, pure_eq_ok, Prod.mk.injEq, Contract.storageWithdraw] at h
    obtain ⟨⟨c₁, transfers₁, balance⟩, ⟨_, -, _, -, hwithdraw⟩, rfl, rfl⟩ := h
    exact moves_of_internalStorageWithdraw hsound hwithdraw
  | storageUnregister force =>
    simp only [bind_eq_ok, Contract.storageUnregister] at h
    obtain ⟨_, ⟨_, -, ⟨⟩⟩, -⟩ := h
  | sharedStoragePoolDeposit ownerId =>
    simp only [bind_eq_ok, pure_eq_ok, Prod.mk.injEq] at h
    obtain ⟨c₁, hdeposit, rfl, rfl⟩ := h
    exact .single (move_of_sharedStoragePoolDeposit hP hdeposit)
  | shareStorage accountId maxBytes =>
    simp only [bind_eq_ok, pure_eq_ok, Prod.mk.injEq] at h
    obtain ⟨c₁, hshare, rfl, rfl⟩ := h
    have hzero : env.attachedDeposit = 0 := hpayable.resolve_right (by simp [Method.isPayable])
    have hmove := move_of_shareStorage (L := L) (P := P) hsound (hids accountId (by simp [Method.accountIds]))
      hshare
    simpa [Method.credited, hzero] using Moves.single hmove
  | setStatus status =>
    simp only [bind_eq_ok, ensure_eq_ok, pure_eq_ok, Prod.mk.injEq, Contract.setStatus] at h
    obtain ⟨_, ⟨_, -, _, -, rfl⟩, rfl, rfl⟩ := h
    have hzero : env.attachedDeposit = 0 := hpayable.resolve_right (by simp [Method.isPayable])
    simpa [Method.credited, hzero] using Moves.single (.changed (L := L) (P := P))

theorem step_eq_ok {call : Call} : (system host).step c call = .ok c' ↔
    ∃ transfers, c.call host call.env call.method = .ok (c', transfers) := by
  simp only [system, bind_eq_ok, pure_eq_ok]
  constructor
  · rintro ⟨⟨c₁, transfers⟩, hcall, rfl⟩
    exact ⟨transfers, hcall⟩
  · rintro ⟨transfers, hcall⟩
    exact ⟨_, hcall, rfl⟩

theorem moves_of_step {call : Call} (hsound : c.Sound) (hL : ∀ k ∈ call.method.nodeKeys, L k)
    (hP : ∀ pool ∈ call.method.depositedPool host call.env c, P pool)
    (h : (system host).step c call = .ok c') :
    ∃ transfers, Moves host call.env L P c c' (call.method.credited call.env) transfers := by
  obtain ⟨transfers, hcall⟩ := step_eq_ok.mp h
  exact ⟨transfers, moves_of_call hsound hL hP hcall⟩

/-- Calls keep a contract sound. -/
theorem sound_step {call : Call} (hsound : c.Sound) (h : (system host).step c call = .ok c') :
    c'.Sound := by
  obtain ⟨transfers, hmoves⟩ := moves_of_step (L := fun _ => True) (P := fun _ => True) hsound
    (fun _ _ => trivial) (fun _ _ => trivial) h
  exact hmoves.sound hsound

theorem sound_run (host : Host) (env : Env) (calls : List Call) :
    ((system host).run (.new env) calls).Sound := by
  refine Machine.run_invariant (M := system host) (I := Contract.Sound) (G := fun _ _ => True) ?_
    (fun _ _ => trivial) (Contract.sound_new env)
  intro c call c' hsound _ h
  exact sound_step hsound h

end Calls

/-! ## Sample calls -/

def sampleEnv (predecessorAccountId : AccountId) (attachedDeposit : ℕ)
    (h : attachedDeposit ≤ u128Max) : Env where
  currentAccountId := "social"
  predecessorAccountId
  signerAccountPk := "key"
  attachedDeposit
  accountBalance := attachedDeposit
  accountLockedBalance := 0
  epochHeight := 0
  blockHeight := 0
  blockTimestamp := 0
  attachedDeposit_le := h
  accountBalance_le := h
  accountLockedBalance_le := Nat.zero_le _

/-- A host that takes a hundred bytes for a record, at the price of a byte of the host. -/
def sampleHost : Host where
  storageUsage c := 100 * (c.accounts.entries.length + c.nodes.entries.length +
    c.rootNode.children.entries.length + c.sharedStoragePools.entries.length)
  storageByteCost := 10 ^ 19

/-- The contract goes live. -/
def sampleLive : Call := ⟨sampleEnv "social" 0 (Nat.zero_le _), .setStatus .live⟩

theorem sampleDeposit_le : 10 ^ 23 ≤ u128Max := by decide

end UncContracts.Social
