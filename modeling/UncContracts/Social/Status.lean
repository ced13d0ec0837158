import UncContracts.Social.Calls
import UncContracts.Social.Genesis

/-!
# The status of the social contract

Only `set_status` changes the status, and it refuses to set it to Genesis. A contract that has left
Genesis therefore never returns to it, whatever is called and whatever its data is.

## Main results

* `status_of_call`: a call sets the status, or keeps it
* `left_genesis_run`: no run returns to Genesis
-/

namespace UncContracts.Social

open Foundation

section Status

variable {host : Host} {env : Env} {c c' : Contract} {account account' : Account} {node node' : Node}
  {id : AccountId} {transfers : List Transfer} {W : Finset NodeId} {ok : Bool}

theorem Saves.status_eq (h : Saves host c account c' account') : c'.status = c.status := by
  rw [h.frame]

/-! ## Writing data -/

mutual

theorem status_of_recursiveSet (value : Json) {ok : Bool} {c c' : Contract} {node : Node}
    (h : Contract.recursiveSet env c node value ok W = .ok c') : c'.status = c.status := by
  match value with
  | .object obj =>
    obtain ⟨c₁, node₁, hfields, rfl⟩ := recursiveSet_object h
    exact (status_of_setFields obj hfields : c₁.status = c.status)
  | .string s =>
    simp only [Contract.recursiveSet, bind_eq_ok, pure_eq_ok] at h
    obtain ⟨_, -, _, -, rfl⟩ := h
    rfl
  | .null =>
    simp only [Contract.recursiveSet, bind_eq_ok, pure_eq_ok] at h
    obtain ⟨_, -, _, -, rfl⟩ := h
    rfl
  | .bool _ | .number _ _ | .array _ => cases h

theorem status_of_setFields (obj : List (String × Json)) {ok : Bool} {c c' : Contract}
    {node node' : Node} (h : Contract.setFields env c node obj ok W = .ok (c', node')) :
    c'.status = c.status := by
  match obj with
  | [] =>
    cases h
    rfl
  | (key, value) :: obj =>
    obtain ⟨-, c₁, node₁, hfield, hrest⟩ := setFields_cons h
    refine (status_of_setFields obj hrest).trans ?_
    cases hfield with
    | leaf => rfl
    | into hentry hchild hset => exact status_of_recursiveSet value hset
    | fresh hok hobject hentry hcount hchild hset =>
      exact (status_of_recursiveSet value hset).trans rfl

end

theorem status_of_walk {path : List String} (h : Contract.walk env c node path = .ok (c', node')) :
    c'.status = c.status := by
  induction path generalizing c node with
  | nil =>
    cases h
    rfl
  | cons key path ih =>
    simp only [Contract.walk, bind_eq_ok] at h
    obtain ⟨_, -, h⟩ := h
    split at h
    · simp only [bind_eq_ok] at h
      obtain ⟨⟨c₁, nodeId⟩, hid, child, -, hwalk⟩ := h
      obtain ⟨-, rfl, -⟩ := createNodeId_eq_ok.mp hid
      exact (ih hwalk).trans rfl
    · simp only [bind_eq_ok] at h
      obtain ⟨child, -, hwalk⟩ := h
      exact (ih hwalk).trans rfl
    · simp only [bind_eq_ok] at h
      obtain ⟨_, -, ⟨c₁, nodeId⟩, hid, child, -, hwalk⟩ := h
      obtain ⟨-, rfl, -⟩ := createNodeId_eq_ok.mp hid
      exact (ih hwalk).trans rfl

/-! ## Accounts -/

theorem status_of_internalSetAccount {existed : Bool}
    (h : c.internalSetAccount host account = .ok (c', existed)) : c'.status = c.status := by
  obtain ⟨-, -, _, hsaves⟩ := internalSetAccount_saves h
  exact hsaves.status_eq

theorem status_of_internalInitialSetAccount (htracker : account.storageTracker = {})
    (h : c.internalInitialSetAccount host env id account = .ok c') : c'.status = c.status := by
  obtain ⟨-, _, hsaves⟩ := internalInitialSetAccount_saves htracker h
  exact hsaves.status_eq.trans rfl

theorem status_of_internalCreateAccount {deposit : ℕ} {registrationOnly : Bool}
    (h : c.internalCreateAccount host env id deposit registrationOnly = .ok (c', transfers)) :
    c'.status = c.status := by
  simp only [Contract.internalCreateAccount, bind_eq_ok, pure_eq_ok, Prod.mk.injEq] at h
  obtain ⟨_, -, ⟨c₁, nodeId⟩, hid, c₂, hset, rfl, -⟩ := h
  obtain ⟨-, rfl, -⟩ := createNodeId_eq_ok.mp hid
  exact (status_of_internalInitialSetAccount rfl hset).trans rfl

theorem status_of_internalUnwrapAccountOrCreate {deposit : ℕ}
    (h : c.internalUnwrapAccountOrCreate host env id deposit = .ok (c', transfers, account)) :
    c'.status = c.status := by
  rcases internalUnwrapAccountOrCreate_cases h with ⟨rfl, -⟩ | ⟨-, _, _, hsaves⟩
  · rfl
  · exact hsaves.status_eq.trans rfl

theorem status_of_internalStorageWithdraw {amount : Option ℕ} {balance : StorageBalance}
    (h : c.internalStorageWithdraw host env id amount = .ok (c', transfers, balance)) :
    c'.status = c.status := by
  rw [frame_of_internalStorageWithdraw h]

/-! ## Methods -/

theorem status_of_setAccount {key : String} {value : Json} {deposit : ℕ}
    (h : c.setAccount host env key value deposit = .ok (c', transfers)) : c'.status = c.status := by
  simp only [Contract.setAccount, bind_eq_ok, pure_eq_ok, Prod.mk.injEq] at h
  obtain ⟨⟨c₁, _, account⟩, hunwrap, node, -, t₁, -, c₂, hset, t₂, -, ⟨c₃, _⟩, hsave, rfl, -⟩ := h
  calc c₃.status = c₂.status := status_of_internalSetAccount hsave
    _ = c₁.status := status_of_recursiveSet value hset
    _ = c.status := status_of_internalUnwrapAccountOrCreate hunwrap

theorem status_of_refundUnused {options : SetOptions} {key : String} {deposit : ℕ}
    (h : c.refundUnused host env options key deposit = .ok (c', transfers)) :
    c'.status = c.status := by
  rw [frame_of_refundUnused h]

theorem status_of_setAccounts {options : SetOptions} {data : List (String × Json)}
    {deposit rest : ℕ} (h : Contract.setAccounts host env options c data deposit =
      .ok (c', transfers, rest)) : c'.status = c.status := by
  induction data generalizing c deposit transfers rest with
  | nil =>
    cases h
    rfl
  | cons entry data ih =>
    obtain ⟨c₁, _, c₂, _, _, hset, hrefund, hrest, -⟩ := setAccounts_cons h
    calc c'.status = c₂.status := ih hrest
      _ = c₁.status := status_of_refundUnused hrefund
      _ = c.status := status_of_setAccount hset

theorem status_of_grantKeys {keys : List String} {nodeIds nodeIds' : Finset NodeId}
    (h : Contract.grantKeys host env id c account keys nodeIds = .ok (c', account', nodeIds')) :
    c'.status = c.status := by
  induction keys generalizing c account nodeIds with
  | nil =>
    cases h
    rfl
  | cons key keys ih =>
    simp only [Contract.grantKeys, Contract.grantKey, bind_eq_ok, pure_eq_ok] at h
    obtain ⟨⟨c₁, account₁, n⟩, ⟨_, -, _, -, _, -, _, -, ⟨c₂, node⟩, hwalk, _, -, heq⟩, hrest⟩ := h
    have hsaved : c₁.status = c₂.status := by
      rw [← (Prod.mk.inj heq).1]
      rfl
    exact (ih hrest).trans (hsaved.trans (status_of_walk hwalk))

theorem status_of_grantWritePermission {predecessorId : Option AccountId}
    {publicKey : Option PublicKey} {keys : List String}
    (h : c.grantWritePermission host env predecessorId publicKey keys = .ok (c', transfers)) :
    c'.status = c.status := by
  simp only [Contract.grantWritePermission, bind_eq_ok, pure_eq_ok, Prod.mk.injEq] at h
  obtain ⟨_, -, _, -, key, -, ⟨c₁, _, account₁⟩, hunwrap, h⟩ := h
  obtain ⟨⟨c₂, account₂, nodeIds⟩, hgrant, ⟨c₃, account₃⟩, hset, ⟨c₄, _⟩, hsave, rfl, -⟩ := h
  simp only [Contract.internalSetPermission, bind_eq_ok, pure_eq_ok, Prod.mk.injEq] at hset
  obtain ⟨_, -, _, -, rfl, -⟩ := hset
  calc c₄.status = c₂.status := (status_of_internalSetAccount hsave).trans rfl
    _ = c₁.status := status_of_grantKeys hgrant
    _ = c.status := status_of_internalUnwrapAccountOrCreate hunwrap

theorem status_of_storageDeposit {accountId : Option AccountId} {registrationOnly : Option Bool}
    {balance : StorageBalance}
    (h : c.storageDeposit host env accountId registrationOnly = .ok (c', transfers, balance)) :
    c'.status = c.status := by
  simp only [Contract.storageDeposit, bind_eq_ok, pure_eq_ok, Prod.mk.injEq] at h
  obtain ⟨_, -, o, -, ⟨c₁, _⟩, hdeposit, _, -, _, -, rfl, -⟩ := h
  cases o with
  | none => exact status_of_internalCreateAccount hdeposit
  | some account =>
    dsimp only at hdeposit
    split at hdeposit
    · cases pure_eq_ok.mp hdeposit
      rfl
    · simp only [bind_eq_ok, pure_eq_ok, Prod.mk.injEq] at hdeposit
      obtain ⟨⟨c₂, _⟩, hset, rfl, -⟩ := hdeposit
      exact status_of_internalSetAccount hset

theorem status_of_sharedStoragePoolDeposit {ownerId : Option AccountId}
    (h : c.sharedStoragePoolDeposit host env ownerId = .ok c') : c'.status = c.status := by
  obtain ⟨-, _, _, _, _, -, -, rfl, -, rfl⟩ := pooled_of_sharedStoragePoolDeposit h
  rfl

theorem status_of_shareStorage {maxBytes : ℕ}
    (h : c.shareStorage host env id maxBytes = .ok c') : c'.status = c.status := by
  simp only [Contract.shareStorage, bind_eq_ok] at h
  obtain ⟨_, -, o, -, pool, hpool, _, -, _, -, h⟩ := h
  simp only [Contract.internalUnwrapSharedStoragePool, expect_eq_ok] at hpool
  cases o with
  | none =>
    simp only [bind_eq_ok, Contract.internalCreateAccountFromSharedStorage] at h
    obtain ⟨_, -, _, -, _, -, _, -, _, -, ⟨c₁, nodeId⟩, hid, hset⟩ := h
    obtain ⟨-, rfl, -⟩ := createNodeId_eq_ok.mp hid
    exact (status_of_internalInitialSetAccount rfl hset).trans rfl
  | some account =>
    simp only [bind_eq_ok, pure_eq_ok] at h
    obtain ⟨⟨c₁, shared⟩, hshare, _, -, ⟨c₂, _⟩, hidle, _, -, _, -, _, -, ⟨c₃, _⟩, hsave, _, -, rfl⟩ := h
    obtain ⟨pools, rfl, -⟩ := shares_of_share hpool hshare
    calc c₃.status = c₂.status := status_of_internalSetAccount hsave
      _ = c.status := (status_of_internalSetAccount hidle).trans rfl

/-- A call sets the status, and not to Genesis, or keeps it. -/
theorem status_of_call {method : Method} (h : c.call host env method = .ok (c', transfers)) :
    c'.status = c.status ∨ method = .setStatus c'.status ∧ c'.status ≠ .genesis := by
  simp only [Contract.call, bind_eq_ok] at h
  obtain ⟨_, -, _, -, h⟩ := h
  cases method with
  | set data options =>
    simp only [Contract.set, bind_eq_ok, pure_eq_ok, Prod.mk.injEq] at h
    obtain ⟨_, -, _, -, ⟨c₁, _, _⟩, hset, _, -, rfl, -⟩ := h
    exact .inl (status_of_setAccounts hset)
  | grantWritePermission predecessorId publicKey keys =>
    exact .inl (status_of_grantWritePermission h)
  | storageDeposit accountId registrationOnly =>
    simp only [bind_eq_ok, pure_eq_ok, Prod.mk.injEq] at h
    obtain ⟨⟨c₁, _, _⟩, hdeposit, rfl, -⟩ := h
    exact .inl (status_of_storageDeposit hdeposit)
  | storageWithdraw amount =>
    simp only [Contract.storageWithdraw, bind_eq_ok, pure_eq_ok, Prod.mk.injEq] at h
    obtain ⟨⟨c₁, _, _⟩, ⟨_, -, _, -, hwithdraw⟩, rfl, -⟩ := h
    exact .inl (status_of_internalStorageWithdraw hwithdraw)
  | storageUnregister force =>
    simp only [bind_eq_ok, Contract.storageUnregister] at h
    obtain ⟨_, ⟨_, -, ⟨⟩⟩, -⟩ := h
  | sharedStoragePoolDeposit ownerId =>
    simp only [bind_eq_ok, pure_eq_ok, Prod.mk.injEq] at h
    obtain ⟨_, hdeposit, rfl, -⟩ := h
    exact .inl (status_of_sharedStoragePoolDeposit hdeposit)
  | shareStorage accountId maxBytes =>
    simp only [bind_eq_ok, pure_eq_ok, Prod.mk.injEq] at h
    obtain ⟨_, hshare, rfl, -⟩ := h
    exact .inl (status_of_shareStorage hshare)
  | setStatus status =>
    simp only [bind_eq_ok, ensure_eq_ok, pure_eq_ok, Prod.mk.injEq, Contract.setStatus] at h
    obtain ⟨_, ⟨_, -, _, hne, rfl⟩, rfl, -⟩ := h
    exact .inr ⟨rfl, hne⟩

/-! ## Runs -/

/-- The methods that fill a contract are refused outside Genesis, and the state is the same after an
upgrade of the code. -/
theorem callGenesis_of_ne_genesis {method : GenesisMethod} (hstatus : c.status ≠ .genesis)
    (h : c.callGenesis env method = .ok c') : c' = c := by
  simp only [Contract.callGenesis, bind_eq_ok] at h
  obtain ⟨_, -, _, -, _, -, h⟩ := h
  cases method with
  | migrateState => exact (pure_eq_ok.mp h).symm
  | genesisInitNodeCount nodeCount =>
    simp only [Contract.genesisInitNodeCount, Contract.assertGenesis, bind_eq_ok, ensure_eq_ok] at h
    obtain ⟨_, hgenesis, -⟩ := h
    exact absurd hgenesis hstatus
  | genesisInitNodes nodes =>
    simp only [Contract.genesisInitNodes, Contract.assertGenesis, bind_eq_ok, ensure_eq_ok] at h
    obtain ⟨_, hgenesis, -⟩ := h
    exact absurd hgenesis hstatus
  | genesisInitAccounts accounts =>
    simp only [Contract.genesisInitAccounts, Contract.assertGenesis, bind_eq_ok, ensure_eq_ok] at h
    obtain ⟨_, hgenesis, -⟩ := h
    exact absurd hgenesis hstatus

theorem left_genesis_step {l : Label} (hstatus : c.status ≠ .genesis)
    (h : (upgradable host).step c l = .ok c') : c'.status ≠ .genesis := by
  cases l with
  | call call =>
    obtain ⟨transfers, hcall⟩ := step_eq_ok.mp h
    rcases status_of_call hcall with heq | ⟨-, hne⟩
    · rwa [heq]
    · exact hne
  | genesis env method =>
    rwa [callGenesis_of_ne_genesis hstatus h]

/-- No run of calls returns to Genesis. -/
theorem left_genesis_run (hstatus : c.status ≠ .genesis) (ls : List Label) :
    ((upgradable host).run c ls).status ≠ .genesis :=
  Machine.run_invariant (I := fun c => c.status ≠ .genesis) (G := fun _ _ => True)
    (fun _ _ _ h _ hstep => left_genesis_step h hstep) (fun _ _ => trivial) hstatus

end Status

end UncContracts.Social
