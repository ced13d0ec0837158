import UncContracts.Social.Coverage

/-!
# Storage deposits

A deposit is credited to one account or to one pool, or goes back to the one who attached it. What
accounts and pools hold is what was credited, less what the contract has transferred. The tokens of
the contract's account pay for all of it, so that no balance is as large as to stop at the largest
amount of tokens.

## Main definitions

* `Contract.deposits`: what accounts and pools hold
* `World`, `world`: the contract with the tokens of its account

## Main results

* `Move.deposits`: what accounts and pools hold after a move
* `deposits_run`: deposits are conserved over every run
* `balances_of_setAccounts`: a `set` refunds no more than its deposit, and no balance falls
-/

namespace UncContracts.Social

open Foundation

/-- The balance of a stored record. -/
def VAccount.storageBalance : VAccount → ℕ
  | .v0 v => v.storageBalance
  | .current account => account.storageBalance

/-- What accounts and pools hold. -/
def Contract.deposits (c : Contract) : ℕ :=
  c.accounts.total VAccount.storageBalance +
    c.sharedStoragePools.total SharedStoragePool.storageBalance

/-- The amount of transfers. -/
def transferred (transfers : List Transfer) : ℕ := (transfers.map Transfer.amount).sum

@[simp] theorem transferred_append (transfers transfers' : List Transfer) :
    transferred (transfers ++ transfers') = transferred transfers + transferred transfers' := by
  simp [transferred]

section Moves

variable {host : Host} {env : Env} {L : String → Prop} {P : SharedStoragePool → Prop}
  {c c' : Contract} {n : NodeId} {a account account' : Account} {deposit : ℕ}
  {transfers : List Transfer} {pools pools' : Map AccountId SharedStoragePool}
  {o o' : Option AccountSharedStorage} {s : AccountSharedStorage} {r : VAccount}

/-- Writing a pool with the same balance leaves what pools hold. -/
theorem poolDeposits_insert {id : AccountId} {pool pool' : SharedStoragePool}
    (hpool : pools.lookup id = some pool) (h : pool'.storageBalance = pool.storageBalance) :
    Map.total SharedStoragePool.storageBalance (pools.insert id pool') =
      Map.total SharedStoragePool.storageBalance pools := by
  have hsum := Map.total_insert SharedStoragePool.storageBalance pools id pool'
  rw [Map.amount_of_lookup hpool, h] at hsum
  exact Nat.add_right_cancel hsum

theorem Settled.deposits (h : Settled host pools o pools' o') :
    pools'.total SharedStoragePool.storageBalance = pools.total SharedStoragePool.storageBalance := by
  cases h with
  | same => rfl
  | charged hpool => exact poolDeposits_insert hpool rfl
  | released hpool => exact poolDeposits_insert hpool rfl

theorem Opens.deposits (h : Opens pools pools' o') :
    pools'.total SharedStoragePool.storageBalance = pools.total SharedStoragePool.storageBalance := by
  cases h with
  | own => rfl
  | shared hpool => exact poolDeposits_insert hpool rfl

theorem Shares.deposits (h : Shares host pools o pools' s) :
    pools'.total SharedStoragePool.storageBalance = pools.total SharedStoragePool.storageBalance := by
  cases h with
  | first hpool => exact poolDeposits_insert hpool rfl
  | more hpool => exact poolDeposits_insert hpool rfl
  | @moved current poolId pool currentPool _ _ hpool hne hcurrent =>
    have hpool' : (pools.insert current.poolId { currentPool with
        usedBytes := currentPool.usedBytes - current.usedBytes
        sharedBytes := currentPool.sharedBytes - current.maxBytes }).lookup poolId = some pool := by
      rw [AList.lookup_insert_ne (Ne.symm hne)]
      exact hpool
    exact (poolDeposits_insert hpool' rfl).trans (poolDeposits_insert hcurrent rfl)

/-- What an account holds counts when it is saved. -/
theorem Saves.deposits (h : Saves host c account c' account') :
    c'.deposits + c.accounts.amount VAccount.storageBalance account.nodeId =
      c.deposits + account.storageBalance := by
  have hsum := Map.total_insert VAccount.storageBalance c.accounts account.nodeId account'.stored
  have hbalance : account'.stored.storageBalance = account.storageBalance := h.balance
  have hpools := h.settled.deposits
  rw [h.frame]
  simp only [Contract.deposits]
  omega

/-- **What accounts and pools hold after a move**, if no balance stops at the largest amount. -/
theorem Move.deposits (hmove : Move host env L P c c' deposit transfers)
    (hfits : c.deposits + deposit ≤ u128Max) (hsound : c.Sound) :
    c'.deposits + transferred transfers = c.deposits + deposit := by
  cases hmove with
  | @updated n a a' _ balance c₁ _ t ha hedits hbalance htracker hsaves =>
    have haccounts : c₁.accounts = c.accounts := by rw [hedits.frame]
    have hdeposits : c₁.deposits = c.deposits := by rw [hedits.frame]; rfl
    have hsum := hsaves.deposits
    have hamount : c.accounts.amount VAccount.storageBalance n = a.storageBalance :=
      Map.amount_of_lookup ha
    have hle := Map.amount_le_total VAccount.storageBalance c.accounts n
    -- No balance saturates, as all of them fit together.
    have hbalance' : balance = a.storageBalance + deposit := by
      rcases hbalance with rfl | ⟨rfl, rfl⟩
      · refine saturatingAdd_of_le ?_
        simp only [Contract.deposits] at hfits
        omega
      · rfl
    simp only [haccounts, Account.loaded, hdeposits] at hsum
    simp only [transferred, List.map_nil, List.sum_nil]
    omega
  | @created id a' _ shared pools _ _ t hid hnew hopens hc htracker hsaves =>
    subst hc
    have hsum := hsaves.deposits
    have hopened := Map.total_insert VAccount.storageBalance c.accounts c.nodeCount
      { Account.new c.nodeCount with sharedStorage := shared }.stored
    have hfresh : c.accounts.amount VAccount.storageBalance c.nodeCount = 0 :=
      Map.amount_of_lookup_none hsound.lookup_nodeCount
    have hempty : Map.amount VAccount.storageBalance (c.accounts.insert c.nodeCount
        { Account.new c.nodeCount with sharedStorage := shared }.stored) c.nodeCount = 0 :=
      Map.amount_of_lookup (AList.lookup_insert _)
    have hzero : { Account.new c.nodeCount with
      sharedStorage := shared }.stored.storageBalance = 0 := rfl
    have hpools := hopens.deposits
    simp only [Contract.opened, Account.new, Contract.deposits] at hsum hopened hempty hzero ⊢
    simp only [transferred, List.map_nil, List.sum_nil]
    omega
  | @withdrawn n a a' amount _ ha hamount hsaves =>
    have hsum := hsaves.deposits
    have hbalance : c.accounts.amount VAccount.storageBalance n = a.storageBalance :=
      Map.amount_of_lookup ha
    simp only [Account.loaded] at hsum
    simp only [transferred, List.map_cons, List.map_nil, List.sum_cons, List.sum_nil]
    omega
  | returned => simp [transferred]
  | @pooled ownerId pool pool₁ pool' c₁ hpool hdeposit hpool₁ hc hpool' hP =>
    subst hc
    have hsum := Map.total_insert SharedStoragePool.storageBalance c.sharedStoragePools ownerId pool'
    have hle := Map.amount_le_total SharedStoragePool.storageBalance c.sharedStoragePools ownerId
    have hamount : c.sharedStoragePools.amount SharedStoragePool.storageBalance ownerId =
        pool.storageBalance := by
      rw [hpool]
      cases hlookup : c.sharedStoragePools.lookup ownerId with
      | none => simp [Map.amount, hlookup, SharedStoragePool.new]
      | some pool => simp [Map.amount, hlookup]
    have hbalance : pool'.storageBalance = pool.storageBalance + env.attachedDeposit := by
      rw [hpool', hpool₁]
      refine saturatingAdd_of_le ?_
      simp only [Contract.deposits] at hfits
      omega
    simp only [Contract.internalSetSharedStoragePool, AList.insert_insert, Contract.deposits,
      transferred, List.map_nil, List.sum_nil]
    omega
  | @shared n a a' s pools c₁ _ t ha hshares hc htracker hsaves =>
    subst hc
    have hsum := hsaves.deposits
    have hshared := Map.total_insert VAccount.storageBalance c.accounts n
      { a with sharedStorage := some s }.stored
    have hold : c.accounts.amount VAccount.storageBalance n = a.storageBalance :=
      Map.amount_of_lookup ha
    have hnew : Map.amount VAccount.storageBalance (c.accounts.insert n
        { a with sharedStorage := some s }.stored) n = a.storageBalance :=
      Map.amount_of_lookup (AList.lookup_insert _)
    have hstored : { a with sharedStorage := some s }.stored.storageBalance = a.storageBalance := rfl
    have hpools := hshares.deposits
    simp only [Contract.deposits, Account.loaded] at hsum hnew ⊢
    simp only [transferred, List.map_nil, List.sum_nil]
    omega
  | changed => simp [Contract.deposits, transferred]

theorem Moves.deposits (hmoves : Moves host env L P c c' deposit transfers)
    (hfits : c.deposits + deposit ≤ u128Max) (hsound : c.Sound) :
    c'.deposits + transferred transfers = c.deposits + deposit := by
  induction hmoves with
  | refl => rfl
  | @tail c₁ c' deposit₁ deposit' transfers₁ transfers' h hmove ih =>
    have hfirst := ih (by omega)
    have hsecond := hmove.deposits (by omega) (h.sound hsound)
    rw [transferred_append]
    omega

end Moves

/-! ## Balances after a `set` -/

/-- What the account of a node holds. -/
def Contract.balanceAt (c : Contract) (n : NodeId) : ℕ := c.accounts.amount VAccount.storageBalance n

/-- One account takes a deposit or gives some of its balance, and the others stay. -/
structure Credits (c : Contract) (n : NodeId) (gain loss : ℕ) (c' : Contract) : Prop where
  others : ∀ m, m ≠ n → c'.accounts.lookup m = c.accounts.lookup m
  mem : n ∈ c'.accounts
  balance : c'.balanceAt n + loss = c.balanceAt n + gain

section Sets

variable {host : Host} {env : Env} {c c' c₁ : Contract} {n : NodeId} {id : AccountId}
  {account account' : Account} {deposit : ℕ} {transfers : List Transfer}

/-- Saving an account changes what it holds alone. -/
theorem Saves.credits {gain loss : ℕ} (h : Saves host c₁ account c' account')
    (hothers : ∀ m, m ≠ account.nodeId → c₁.accounts.lookup m = c.accounts.lookup m)
    (hbalance : account.storageBalance + loss = c.balanceAt account.nodeId + gain) :
    Credits c account.nodeId gain loss c' := by
  have haccounts : c'.accounts = c₁.accounts.insert account.nodeId account'.stored := by
    rw [h.frame]
  refine ⟨?_, ?_, ?_⟩
  · intro m hm
    rw [haccounts, AList.lookup_insert_ne hm]
    exact hothers m hm
  · rw [haccounts]
    exact (AList.mem_insert _).mpr (.inl rfl)
  · have hnew : c'.balanceAt account.nodeId = account'.storageBalance := by
      rw [Contract.balanceAt, haccounts]
      exact Map.amount_of_lookup (AList.lookup_insert _)
    rw [hnew, h.balance]
    exact hbalance

theorem Contract.balanceAt_le_deposits (c : Contract) (n : NodeId) : c.balanceAt n ≤ c.deposits :=
  (Map.amount_le_total _ _ _).trans (Nat.le_add_right _ _)

/-- The account that a deposit goes to holds it, in memory. -/
theorem balance_of_internalUnwrapAccountOrCreate (hsound : c.Sound)
    (hfits : c.deposits + deposit ≤ u128Max)
    (h : c.internalUnwrapAccountOrCreate host env id deposit = .ok (c', transfers, account)) :
    transfers = [] ∧ account.storageBalance = c.balanceAt account.nodeId + deposit ∧
      ∀ m, m ≠ account.nodeId → c'.accounts.lookup m = c.accounts.lookup m := by
  simp only [Contract.internalUnwrapAccountOrCreate, bind_eq_ok, ensure_eq_ok] at h
  obtain ⟨_, hid, o, hget, h⟩ := h
  cases o with
  | some account' =>
    obtain ⟨n, a, hn, ha, rfl⟩ := hsound.loaded hget
    obtain ⟨rfl, rfl, rfl⟩ : c = c' ∧ [] = transfers ∧ _ := by
      simpa only [pure_eq_ok, Prod.mk.injEq] using h
    have hamount : c.balanceAt n = a.storageBalance := Map.amount_of_lookup ha
    have hle := c.balanceAt_le_deposits n
    refine ⟨rfl, ?_, fun _ _ => rfl⟩
    show saturatingAdd a.storageBalance deposit = c.balanceAt n + deposit
    rw [saturatingAdd_of_le (by omega), hamount]
  | none =>
    have hnew := internalGetAccount_eq_none.mp hget
    simp only [bind_eq_ok, internalUnwrapAccount_eq_ok, pure_eq_ok, Prod.mk.injEq,
      Contract.internalCreateAccount, ensure_eq_ok] at h
    obtain ⟨⟨c₁, transfers₁⟩, ⟨_, -, ⟨c₀, n⟩, hcreate, c₂, hset, rfl, rfl⟩, account', hget', rfl, rfl,
      rfl⟩ := h
    obtain ⟨-, rfl, rfl⟩ := createNodeId_eq_ok.mp hcreate
    have hmove : Move host env (fun _ => True) (fun _ => True) c c₁ deposit [] :=
      moves_of_internalInitialSetAccount hid hnew .own hset
    obtain ⟨-, a', hsaves⟩ := internalInitialSetAccount_saves rfl hset
    obtain ⟨m, b, hm, hb, rfl⟩ := (hmove.sound hsound).loaded hget'
    have haccounts : c₁.accounts = (c.accounts.insert c.nodeCount (Account.new c.nodeCount).stored).insert
        c.nodeCount a'.stored := by
      rw [hsaves.frame]
      rfl
    have hroot : c₁.rootNode.children.get id = some (.node c.nodeCount) := by
      rw [hsaves.frame]
      exact UnorderedMap.get_insert_self
    cases hm.symm.trans hroot
    have hfresh : c.balanceAt c.nodeCount = 0 :=
      Map.amount_of_lookup_none hsound.lookup_nodeCount
    refine ⟨by simp, ?_, ?_⟩
    · show b.storageBalance = c.balanceAt c.nodeCount + deposit
      rw [haccounts, AList.lookup_insert, Option.some.injEq] at hb
      simp only [Account.stored, VAccount.current.injEq, Account.mk.injEq] at hb
      rw [hfresh, Nat.zero_add, ← hb.1]
      exact hsaves.balance
    · intro m hne
      have hne : m ≠ c.nodeCount := hne
      rw [haccounts, AList.lookup_insert_ne hne, AList.lookup_insert_ne hne]

/-- An account of the data takes the deposit. -/
theorem credits_of_setAccount {value : Json} (hsound : c.Sound)
    (hfits : c.deposits + deposit ≤ u128Max)
    (h : c.setAccount host env id value deposit = .ok (c', transfers)) :
    transfers = [] ∧ ∃ n, c'.rootNode.children.get id = some (.node n) ∧ Credits c n deposit 0 c' := by
  simp only [Contract.setAccount, bind_eq_ok, pure_eq_ok, Prod.mk.injEq] at h
  obtain ⟨⟨c₁, transfers₁, account⟩, hcreate, node, hnode, t₁, hstart, c₂, hset, t₂, hstop,
    ⟨c₃, existed⟩, hsave, rfl, rfl⟩ := h
  obtain ⟨rfl, hbalance, hothers⟩ := balance_of_internalUnwrapAccountOrCreate hsound hfits hcreate
  obtain ⟨-, credited, rest, n, a, balance, hmoves, -, hn, ha, -, haccount⟩ :=
    moves_of_internalUnwrapAccountOrCreate (fun _ => True) (fun _ => True) hsound hcreate
  have hid : account.nodeId = n := by rw [haccount]; rfl
  have hedits := edits_of_recursiveSet (L := fun _ => True) (hmoves.sound hsound)
    (hid ▸ mem_accounts_of_lookup ha) hnode (fun _ _ => trivial) hset
  have haccounts : c₂.accounts = c₁.accounts := by rw [hedits.frame]
  have hroot : c₂.rootNode = c₁.rootNode := by rw [hedits.frame]
  obtain ⟨-, -, a', hsaves⟩ := internalSetAccount_saves hsave
  refine ⟨rfl, account.nodeId, ?_, hsaves.credits ?_ hbalance⟩
  · have hroot' : c₃.rootNode = c₂.rootNode := by rw [hsaves.frame]
    rw [hroot', hroot, hid]
    exact hn
  · intro m hm
    rw [haccounts]
    exact hothers m hm

/-- A refund takes no more than the deposit from the account of a key. -/
theorem credits_of_refundUnused {options : SetOptions} (hsound : c.Sound)
    (hn : c.rootNode.children.get id = some (.node n)) (hmem : n ∈ c.accounts)
    (h : c.refundUnused host env options id deposit = .ok (c', transfers)) :
    transferred transfers ≤ deposit ∧ Credits c n 0 (transferred transfers) c' := by
  have hrefl : Credits c n 0 0 c := ⟨fun _ _ => rfl, hmem, rfl⟩
  simp only [Contract.refundUnused] at h
  split at h
  · simp only [bind_eq_ok, expect_eq_ok] at h
    obtain ⟨accountId, hparse, o, -, h⟩ := h
    obtain ⟨-, rfl⟩ := parseAccountId_eq_some.mp hparse
    cases o with
    | none =>
      cases pure_eq_ok.mp h
      exact ⟨Nat.zero_le _, hrefl⟩
    | some balance =>
      simp only [bind_eq_ok, pure_eq_ok, Prod.mk.injEq, Contract.internalStorageWithdraw] at h
      obtain ⟨⟨c₁, transfers₁, balance₁⟩, ⟨o, hbalance, h⟩, rfl, rfl⟩ := h
      cases o with
      | none => cases h
      | some before =>
        obtain ⟨n', a, hn', ha, -, rfl⟩ := internalStorageBalanceOf_eq_some hsound hbalance
        cases hn.symm.trans hn'
        simp only [bind_eq_ok, ensure_eq_ok, Option.getD_some] at h
        obtain ⟨_, hamount, h⟩ := h
        split at h
        · simp only [bind_eq_ok, internalUnwrapAccount_eq_ok, expect_eq_ok, pure_eq_ok,
            Prod.mk.injEq] at h
          obtain ⟨account, hget, ⟨c₂, existed⟩, hsave, o, -, _, -, rfl, rfl, -⟩ := h
          obtain ⟨n', b, hn', hb, rfl⟩ := hsound.loaded hget
          cases hn.symm.trans hn'
          obtain ⟨-, -, a', hsaves⟩ := internalSetAccount_saves hsave
          have hsame : c.balanceAt n = a.storageBalance := Map.amount_of_lookup ha
          have hsame' : c.balanceAt n = b.storageBalance := Map.amount_of_lookup hb
          simp only [transferred, List.map_cons, List.map_nil, List.sum_cons, List.sum_nil,
            Nat.add_zero]
          refine ⟨Nat.min_le_right _ _, hsaves.credits (fun _ _ => rfl) ?_⟩
          show b.storageBalance - _ + _ = c.balanceAt n + 0
          omega
        · simp only [bind_eq_ok, pure_eq_ok, Prod.mk.injEq] at h
          obtain ⟨o, -, _, -, rfl, rfl, -⟩ := h
          exact ⟨Nat.zero_le _, hrefl⟩
  · cases pure_eq_ok.mp h
    exact ⟨Nat.zero_le _, hrefl⟩

/-- The accounts of the data give back no more than the deposit, and no balance falls. -/
theorem balances_of_setAccounts {options : SetOptions} {data : List (String × Json)} {rest : ℕ}
    (hsound : c.Sound) (hfits : c.deposits + deposit ≤ u128Max)
    (h : Contract.setAccounts host env options c data deposit = .ok (c', transfers, rest)) :
    transferred transfers ≤ deposit ∧
      ∀ m, m ∈ c.accounts → m ∈ c'.accounts ∧ c.balanceAt m ≤ c'.balanceAt m := by
  induction data generalizing c deposit transfers with
  | nil =>
    cases h
    exact ⟨Nat.zero_le _, fun m hm => ⟨hm, le_rfl⟩⟩
  | cons entry data ih =>
    obtain ⟨key, value⟩ := entry
    obtain ⟨c₁, created, c₂, refunded, transfers₃, hset, hrefund, hrest, rfl⟩ :=
      setAccounts_cons h
    have hmoves : Moves host env (fun _ => True) (fun _ => True) c c₁ deposit created :=
      moves_of_setAccount hsound (fun _ _ => trivial) hset
    have hsound₁ := hmoves.sound hsound
    have hrefunds : Moves host env (fun _ => True) (fun _ => True) c₁ c₂ 0 refunded :=
      moves_of_refundUnused hsound₁ hrefund
    have hdeposits := hmoves.deposits hfits hsound
    have hdeposits₂ := hrefunds.deposits (by omega) hsound₁
    obtain ⟨rfl, n, hn, hcredits⟩ := credits_of_setAccount hsound hfits hset
    obtain ⟨hle, hgives⟩ := credits_of_refundUnused hsound₁ hn hcredits.mem hrefund
    obtain ⟨hnone, hkept⟩ := ih (hrefunds.sound hsound₁) (by omega) hrest
    refine ⟨?_, ?_⟩
    · rw [List.nil_append, transferred_append]
      show transferred refunded + transferred transfers₃ ≤ deposit
      omega
    · intro m hm
      have hfirst : m ∈ c₂.accounts ∧ c.balanceAt m ≤ c₂.balanceAt m := by
        by_cases heq : m = n
        · subst heq
          have htook := hcredits.balance
          have hgave := hgives.balance
          exact ⟨hgives.mem, by omega⟩
        · have hsame := (hgives.others m heq).trans (hcredits.others m heq)
          refine ⟨?_, ?_⟩
          · rw [← AList.lookup_isSome, hsame]
            exact AList.lookup_isSome.mpr hm
          · simp only [Contract.balanceAt, Map.amount, hsame, le_rfl]
      obtain ⟨hmem, hle'⟩ := hkept m hfirst.1
      exact ⟨hmem, hfirst.2.trans hle'⟩

end Sets

/-! ## The tokens of the contract -/

/-- The contract and the tokens of its account. -/
structure World where
  contract : Contract
  tokens : ℕ

/-- A call is made, or tokens come without one: a reward, or a transfer that failed. -/
inductive Event
  | call (call : Call)
  | received (amount : ℕ)

/-- The contract with the tokens of its account. A call sees them next to its deposit, and transfers
are paid from them. -/
def world (host : Host) : Machine World Event String where
  step w
    | .call call => do
      ensure (call.env.accountBalance = w.tokens + call.env.attachedDeposit)
        "The account has another balance"
      let (contract, transfers) ← w.contract.call host call.env call.method
      let tokens ← checkedSub call.env.accountBalance (transferred transfers)
      return { contract, tokens }
    | .received amount => return { w with tokens := w.tokens + amount }

/-- The deposit that a step credits. -/
def creditedBy (x : Step World Event) : ℕ :=
  match x.label with
  | .call call => call.method.credited call.env
  | .received _ => 0

/-- What the contract transfers in a step. -/
def transferredBy (host : Host) (x : Step World Event) : ℕ :=
  match x.label with
  | .call call =>
    match x.before.contract.call host call.env call.method with
    | .ok (_, transfers) => transferred transfers
    | .error _ => 0
  | .received _ => 0

section World

variable {host : Host} {w w' : World}

theorem credited_le (env : Env) (method : Method) : method.credited env ≤ env.attachedDeposit := by
  cases method with
  | storageWithdraw amount => exact Nat.zero_le _
  | _ => exact le_rfl

/-- The tokens pay for what accounts and pools hold, and a step changes both by the same. -/
theorem deposits_step {event : Event} (hsound : w.contract.Sound)
    (htokens : w.contract.deposits ≤ w.tokens) (h : (world host).step w event = .ok w') :
    w'.contract.Sound ∧ w'.contract.deposits ≤ w'.tokens ∧
      w'.contract.deposits + transferredBy host ⟨w, event, w'⟩ =
        w.contract.deposits + creditedBy ⟨w, event, w'⟩ := by
  cases event with
  | received amount =>
    cases pure_eq_ok.mp h
    exact ⟨hsound, htokens.trans (Nat.le_add_right _ _), rfl⟩
  | call call =>
    simp only [world, bind_eq_ok, ensure_eq_ok, checkedSub_eq_ok, pure_eq_ok] at h
    obtain ⟨_, hbalance, ⟨c, transfers⟩, hcall, _, ⟨hle, rfl⟩, rfl⟩ := h
    have hmoves := moves_of_call (L := fun _ => True) (P := fun _ => True) hsound
      (fun _ _ => trivial) (fun _ _ => trivial) hcall
    have hcredited := credited_le call.env call.method
    have hmax := call.env.accountBalance_le
    have hdeposits := hmoves.deposits (by omega) hsound
    refine ⟨hmoves.sound hsound, ?_, ?_⟩
    · show c.deposits ≤ call.env.accountBalance - transferred transfers
      omega
    · simp only [transferredBy, creditedBy, hcall]
      exact hdeposits

end World

/-- **Deposits are conserved.** What accounts and pools hold after a run is what was credited in its
steps, less what was transferred. A `set` then transfers no more than its own deposit, and the
balance of no account falls in it. -/
theorem deposits_run (host : Host) (start : Env) (tokens : ℕ) (events : List Event) :
    let steps := (world host).steps ⟨.new start, tokens⟩ events
    let w := (world host).run ⟨.new start, tokens⟩ events
    w.contract.deposits + (steps.map (transferredBy host)).sum = (steps.map creditedBy).sum ∧
      ∀ env data options w', (world host).step w (.call ⟨env, .set data options⟩) = .ok w' →
        transferredBy host ⟨w, .call ⟨env, .set data options⟩, w'⟩ ≤ env.attachedDeposit ∧
        ∀ n account, w.contract.accountAt n = .ok account → ∃ account',
          w'.contract.accountAt n = .ok account' ∧
            account.storageBalance ≤ account'.storageBalance := by
  intro steps w
  -- The tokens of the contract cover the deposits, so no balance saturates in a step.
  have hrun : w.contract.Sound ∧ w.contract.deposits ≤ w.tokens ∧
      w.contract.deposits + (steps.map (transferredBy host)).sum = (steps.map creditedBy).sum := by
    refine Machine.run_induction (M := world host) (P := fun hist w => w.contract.Sound ∧
      w.contract.deposits ≤ w.tokens ∧
        w.contract.deposits + (hist.map (transferredBy host)).sum = (hist.map creditedBy).sum)
      ⟨Contract.sound_new start, Nat.zero_le _, rfl⟩ ?_ events
    rintro hist w event w' ⟨hsound, htokens, hsum⟩ h
    obtain ⟨hsound', htokens', hstep⟩ := deposits_step hsound htokens h
    refine ⟨hsound', htokens', ?_⟩
    simp only [List.map_append, List.map_cons, List.map_nil, List.sum_append, List.sum_cons,
      List.sum_nil, Nat.add_zero]
    omega
  obtain ⟨hsound, htokens, hsum⟩ := hrun
  refine ⟨hsum, ?_⟩
  intro env data options w' h
  obtain ⟨hsound', -, -⟩ := deposits_step hsound htokens h
  simp only [world, bind_eq_ok, ensure_eq_ok, checkedSub_eq_ok, pure_eq_ok] at h
  obtain ⟨_, hbalance, ⟨c, transfers⟩, hcall, _, ⟨hle, rfl⟩, rfl⟩ := h
  have hset := hcall
  simp only [Contract.call, bind_eq_ok, ensure_eq_ok, Contract.set, expect_eq_ok, pure_eq_ok,
    Prod.mk.injEq] at hset
  obtain ⟨_, -, _, -, _, -, obj, hobj, ⟨c₂, transfers₂, rest⟩, hset, _, -, rfl, rfl⟩ := hset
  have hmax := env.accountBalance_le
  obtain ⟨hrefunds, hkept⟩ := balances_of_setAccounts hsound (by omega) hset
  refine ⟨?_, ?_⟩
  · simp only [transferredBy, hcall]
    exact hrefunds
  · intro n account haccount
    obtain ⟨r, a, hr, ha, rfl⟩ := accountAt_eq_ok.mp haccount
    obtain ⟨b, rfl⟩ := hsound.records n r hr
    cases ha
    obtain ⟨hmem, hbalances⟩ := hkept n (mem_accounts_of_lookup hr)
    obtain ⟨r', hr'⟩ := Option.isSome_iff_exists.mp (AList.lookup_isSome.mpr hmem)
    obtain ⟨b', rfl⟩ := hsound'.records n r' hr'
    refine ⟨_, accountAt_of_stored hr', ?_⟩
    have hold : w.contract.balanceAt n = b.storageBalance := Map.amount_of_lookup hr
    have hnew : c₂.balanceAt n = b'.storageBalance := Map.amount_of_lookup hr'
    show b.storageBalance ≤ b'.storageBalance
    omega

/-- A new account writes with a deposit, and what it does not use of it goes back. -/
def sampleRefund : Call where
  env := sampleEnv "alice" (10 ^ 23) sampleDeposit_le
  method := .set (.object [("alice", .object [("x", .string "y")])]) (some ⟨some true⟩)

theorem deposits_run_sampleRefund :
    let w := (world sampleHost).run ⟨.new (sampleEnv "social" 0 (by decide)), 0⟩
      [.call sampleLive]
    transferredBy sampleHost ⟨w, .call sampleRefund,
      (world sampleHost).exec w (.call sampleRefund)⟩ ≤ 10 ^ 23 :=
  ((deposits_run sampleHost (sampleEnv "social" 0 (by decide)) 0 [.call sampleLive]).2
    sampleRefund.env _ _ _ (Machine.step_eq_exec (by decide +kernel))).1

end UncContracts.Social
