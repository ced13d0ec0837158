import UncContracts.Social.Calls

/-!
# Registration and storage

The calls about storage leave the nodes and the permissions of the contract, apart from an account
that is new. The same holds of the account that a `set` or a grant makes for its caller.

## Main definitions

* `Registers`: nodes and permissions stay, or an account is registered

## Main results

* `registers_of_internalUnwrapAccountOrCreate`: the account of a caller is found or registered
* `registers_of_call`: calls other than `set` and grants register an account at most
-/

namespace UncContracts.Social

open Foundation HasTarget

/-- The nodes and the permissions stay, or they are those with a new account. -/
inductive Registers (env : Env) (c c' : Contract) : Prop
  | same (hnodes : c'.nodes = c.nodes) (hforest : c'.forest = c.forest)
    (hpermissions : c'.permissions = c.permissions)
  | opened {id : AccountId} {shared : Option AccountSharedStorage}
    {pools : Map AccountId SharedStoragePool} (hid : isValidAccountId id = true)
    (hnew : c.rootNode.children.get id = none)
    (hnodes : c'.nodes = c.nodes.insert c.nodeCount
      { nodeId := 0, blockHeight := env.blockHeight, children := .empty })
    (hforest : c'.forest = (({ c with nodeCount := c.nodeCount + 1, sharedStoragePools := pools } :
      Contract).opened env id { Account.new c.nodeCount with sharedStorage := shared }).forest)
    (hpermissions : c'.permissions = c.permissions)

/-- A call neither writes data nor grants a permission. -/
def Method.IsStorage : Method → Prop
  | .set _ _ | .grantWritePermission _ _ _ => False
  | _ => True

section Calls

variable {host : Host} {env : Env} {c c' : Contract} {id : AccountId} {account account' : Account}
  {transfers : List Transfer}

theorem Saves.permissions_eq (hsaves : Saves host c account c' account') :
    c'.permissions = c.permissions := by
  rw [hsaves.frame]

theorem Saves.nodes_eq (hsaves : Saves host c account c' account') : c'.nodes = c.nodes := by
  rw [hsaves.frame]

theorem registers_of_saves (hsaves : Saves host c account c' account') : Registers env c c' :=
  .same hsaves.nodes_eq hsaves.forest_eq hsaves.permissions_eq

/-- A permission is kept beside the nodes. -/
theorem forest_eq_of_internalSetPermission {key : PermissionKey} {permission : Permission}
    (h : c.internalSetPermission host account key permission = .ok (c', account')) :
    c'.forest = c.forest := by
  simp only [Contract.internalSetPermission, bind_eq_ok, pure_eq_ok, Prod.mk.injEq] at h
  obtain ⟨_, -, _, -, rfl, -⟩ := h
  rfl

theorem nodes_eq_of_internalSetPermission {key : PermissionKey} {permission : Permission}
    (h : c.internalSetPermission host account key permission = .ok (c', account')) :
    c'.nodes = c.nodes := by
  simp only [Contract.internalSetPermission, bind_eq_ok, pure_eq_ok, Prod.mk.injEq] at h
  obtain ⟨_, -, _, -, rfl, -⟩ := h
  rfl

theorem registers_of_internalInitialSetAccount {shared : Option AccountSharedStorage} {deposit : ℕ}
    {pools : Map AccountId SharedStoragePool} (hid : isValidAccountId id = true)
    (hnew : c.rootNode.children.get id = none)
    (h : ({ c with nodeCount := c.nodeCount + 1, sharedStoragePools := pools } :
        Contract).internalInitialSetAccount host env id
      { Account.new c.nodeCount with storageBalance := deposit, sharedStorage := shared } = .ok c') :
    Registers env c c' := by
  obtain ⟨-, a, hsaves⟩ := internalInitialSetAccount_saves rfl h
  exact .opened hid hnew hsaves.nodes_eq hsaves.forest_eq hsaves.permissions_eq

theorem registers_of_internalCreateAccount {deposit : ℕ} {registrationOnly : Bool}
    (hid : isValidAccountId id = true) (hnew : c.rootNode.children.get id = none)
    (h : c.internalCreateAccount host env id deposit registrationOnly = .ok (c', transfers)) :
    Registers env c c' := by
  simp only [Contract.internalCreateAccount, bind_eq_ok, ensure_eq_ok, pure_eq_ok,
    Prod.mk.injEq] at h
  obtain ⟨_, -, ⟨c₁, n⟩, hcreate, c₂, hset, rfl, -⟩ := h
  obtain ⟨-, rfl, rfl⟩ := createNodeId_eq_ok.mp hcreate
  exact registers_of_internalInitialSetAccount hid hnew hset

/-- The account that a deposit goes to is found or registered. -/
theorem registers_of_internalUnwrapAccountOrCreate {deposit : ℕ} (hsound : c.Sound)
    (h : c.internalUnwrapAccountOrCreate host env id deposit = .ok (c', transfers, account)) :
    Registers env c c' := by
  have hvalid := (moves_of_internalUnwrapAccountOrCreate (fun _ => True) (fun _ => True) hsound h).1
  rcases internalUnwrapAccountOrCreate_cases h with ⟨rfl, -⟩ | ⟨hnew, _, _, hsaves⟩
  · exact .same rfl rfl rfl
  · exact @Registers.opened _ c _ _ none c.sharedStoragePools hvalid hnew hsaves.nodes_eq
      hsaves.forest_eq hsaves.permissions_eq

theorem registers_of_storageDeposit {accountId : Option AccountId} {registrationOnly : Option Bool}
    {balance : StorageBalance}
    (hid : isValidAccountId (accountId.getD env.predecessorAccountId) = true)
    (h : c.storageDeposit host env accountId registrationOnly = .ok (c', transfers, balance)) :
    Registers env c c' := by
  simp only [Contract.storageDeposit, bind_eq_ok, expect_eq_ok, pure_eq_ok, Prod.mk.injEq] at h
  obtain ⟨_, -, o, hget, ⟨c₁, transfers₁⟩, hdeposit, _, -, _, -, rfl, -⟩ := h
  cases o with
  | none =>
    exact registers_of_internalCreateAccount hid (internalGetAccount_eq_none.mp hget) hdeposit
  | some account =>
    dsimp only at hdeposit
    split at hdeposit
    · cases hdeposit
      exact .same rfl rfl rfl
    · simp only [bind_eq_ok, pure_eq_ok, Prod.mk.injEq] at hdeposit
      obtain ⟨⟨c₂, existed⟩, hsave, rfl, -⟩ := hdeposit
      obtain ⟨-, -, a, hsaves⟩ := internalSetAccount_saves hsave
      exact registers_of_saves hsaves

theorem registers_of_shareStorage {maxBytes : ℕ} (hid : isValidAccountId id = true)
    (h : c.shareStorage host env id maxBytes = .ok c') : Registers env c c' := by
  simp only [Contract.shareStorage, bind_eq_ok, ensure_eq_ok] at h
  obtain ⟨_, -, o, hget, pool, hpool, _, -, _, -, h⟩ := h
  simp only [Contract.internalUnwrapSharedStoragePool, expect_eq_ok] at hpool
  cases o with
  | none =>
    simp only [bind_eq_ok, checkedAdd_eq_ok, Contract.internalCreateAccountFromSharedStorage,
      ensure_eq_ok] at h
    obtain ⟨_, -, _, -, _, -, _, -, _, -, ⟨c₁, n⟩, hcreate, hset⟩ := h
    obtain ⟨-, rfl, rfl⟩ := createNodeId_eq_ok.mp hcreate
    exact registers_of_internalInitialSetAccount hid (internalGetAccount_eq_none.mp hget) hset
  | some account =>
    simp only [bind_eq_ok] at h
    obtain ⟨⟨c₁, shared⟩, hshare, _, -, ⟨c₂, existed⟩, hfirst, _, -, account₂, -, ⟨t₃, t₄⟩, -,
      ⟨c₃, existed₃⟩, hsecond, _, -, h⟩ := h
    cases pure_eq_ok.mp h
    obtain ⟨pools, rfl, -⟩ := shares_of_share hpool hshare
    obtain ⟨-, -, a₁, hsaves₁⟩ := internalSetAccount_saves hfirst
    obtain ⟨-, -, a₂, hsaves₂⟩ := internalSetAccount_saves hsecond
    exact .same (hsaves₂.nodes_eq.trans hsaves₁.nodes_eq) (hsaves₂.forest_eq.trans hsaves₁.forest_eq)
      (hsaves₂.permissions_eq.trans hsaves₁.permissions_eq)

/-- **Calls about storage** register an account at most. -/
theorem registers_of_call {method : Method} (hstorage : method.IsStorage)
    (h : c.call host env method = .ok (c', transfers)) : Registers env c c' := by
  simp only [Contract.call, bind_eq_ok, ensure_eq_ok] at h
  obtain ⟨_, hids, _, -, h⟩ := h
  cases method with
  | set data options => exact hstorage.elim
  | grantWritePermission predecessorId publicKey keys => exact hstorage.elim
  | storageDeposit accountId registrationOnly =>
    simp only [bind_eq_ok, pure_eq_ok, Prod.mk.injEq] at h
    obtain ⟨⟨c₁, transfers₁, balance⟩, hdeposit, rfl, -⟩ := h
    refine registers_of_storageDeposit ?_ hdeposit
    cases accountId with
    | none => exact hids _ (List.mem_cons_self ..)
    | some id => exact hids id (by simp [Method.accountIds])
  | storageWithdraw amount =>
    simp only [bind_eq_ok, pure_eq_ok, Prod.mk.injEq, Contract.storageWithdraw] at h
    obtain ⟨⟨c₁, transfers₁, balance⟩, ⟨_, -, _, -, hwithdraw⟩, rfl, -⟩ := h
    rw [frame_of_internalStorageWithdraw hwithdraw]
    exact .same rfl rfl rfl
  | storageUnregister force =>
    simp only [bind_eq_ok, Contract.storageUnregister] at h
    obtain ⟨_, ⟨_, -, ⟨⟩⟩, -⟩ := h
  | sharedStoragePoolDeposit ownerId =>
    simp only [bind_eq_ok, pure_eq_ok, Prod.mk.injEq] at h
    obtain ⟨c₁, hdeposit, rfl, -⟩ := h
    obtain ⟨-, _, _, _, c₂, -, -, rfl, -, rfl⟩ := pooled_of_sharedStoragePoolDeposit hdeposit
    exact .same rfl rfl rfl
  | shareStorage accountId maxBytes =>
    simp only [bind_eq_ok, pure_eq_ok, Prod.mk.injEq] at h
    obtain ⟨c₁, hshare, rfl, -⟩ := h
    exact registers_of_shareStorage (hids accountId (by simp [Method.accountIds])) hshare
  | setStatus status =>
    simp only [bind_eq_ok, ensure_eq_ok, pure_eq_ok, Prod.mk.injEq, Contract.setStatus] at h
    obtain ⟨_, ⟨_, -, _, -, rfl⟩, rfl, -⟩ := h
    exact .same rfl rfl rfl

end Calls

end UncContracts.Social
