import UncContracts.Foundation.Holdings
import UncContracts.WUnc.Contract

/-!
# A token of the library

A fungible token that keeps its balances in a map and does what the library documents. Its accounts
are the keys of the map.

## Main definitions

* `Ledger`: the balances and the supply
* `standard`: the token on a ledger

## Main results

* `standard_documented`: the token does what is documented
-/

namespace UncContracts.WUnc

open Foundation

/-- The balances of the registered accounts, and their supply. -/
structure Ledger where
  balances : Map AccountId ℕ
  totalSupply : ℕ

namespace Ledger

/-- The storage of an account costs the same at all times. -/
def storageBalance : ℕ := 125 * 10 ^ 19

variable (t : Ledger)

/-- The ledger with a balance written. -/
def write (accountId : AccountId) (balance totalSupply : ℕ) : Ledger :=
  ⟨t.balances.insert accountId balance, totalSupply⟩

def balanceOf (accountId : AccountId) : Exec ℕ :=
  expect (t.balances.lookup accountId) "The account is not registered"

def register (accountId : AccountId) : Exec Ledger := do
  ensure (accountId ∉ t.balances) "The account is already registered"
  return t.write accountId 0 t.totalSupply

def deposit (accountId : AccountId) (amount : ℕ) : Exec Ledger := do
  let balance ← t.balanceOf accountId
  let balance ← checkedAdd u128Max balance amount
  let totalSupply ← checkedAdd u128Max t.totalSupply amount
  return t.write accountId balance totalSupply

def withdraw (accountId : AccountId) (amount : ℕ) : Exec Ledger := do
  let balance ← t.balanceOf accountId
  let balance ← checkedSub balance amount
  let totalSupply ← checkedSub t.totalSupply amount
  return t.write accountId balance totalSupply

def transfer (env : Env) (receiverId : AccountId) (amount : ℕ) : Exec Ledger := do
  env.assertOneAtto
  ensure (env.predecessorAccountId ≠ receiverId) "Sender and receiver should be different"
  ensure (0 < amount) "The amount should be a positive number"
  let t ← t.withdraw env.predecessorAccountId amount
  t.deposit receiverId amount

/-- The amount that the receiver of a transfer call did not use. -/
def unusedAmount (amount : ℕ) : PromiseResult → ℕ
  | .successful (some unused) => min amount unused
  | .successful none => amount
  | .failed => amount

/-- Returns some tokens to the sender, or burns them if it is not registered. -/
def giveBack (senderId : AccountId) (amount refundAmount : ℕ) : Exec (Ledger × ℕ × ℕ) :=
  match t.balances.lookup senderId with
  | some balance => do
    let balance ← checkedAdd u128Max balance refundAmount
    return (t.write senderId balance t.totalSupply, amount - refundAmount, 0)
  | none => do
    let totalSupply ← checkedSub t.totalSupply refundAmount
    return ({ t with totalSupply }, amount, refundAmount)

/-- The unused amount goes back to the sender as far as the receiver still has it. -/
def resolve (result : PromiseResult) (senderId receiverId : AccountId) (amount : ℕ) :
    Exec (Ledger × ℕ × ℕ) :=
  match t.balances.lookup receiverId with
  | none => return (t, amount, 0)
  | some balance =>
    let refundAmount := min balance (unusedAmount amount result)
    if refundAmount = 0 then return (t, amount, 0)
    else (t.write receiverId (balance - refundAmount) t.totalSupply).giveBack senderId amount
      refundAmount

/-- The transfer of some tokens back to the caller, if there are any. -/
def refund (env : Env) (amount : ℕ) : List Transfer :=
  if 0 < amount then [⟨env.predecessorAccountId, amount⟩] else []

def storageDeposit (env : Env) (accountId : Option AccountId) :
    Exec (Ledger × StorageBalance × List Transfer) := do
  let amount := env.attachedDeposit
  let accountId := accountId.getD env.predecessorAccountId
  if accountId ∈ t.balances then return (t, ⟨storageBalance, 0⟩, refund env amount)
  else do
    ensure (storageBalance ≤ amount)
      "The attached deposit is less than the minimum storage balance"
    let t ← t.register accountId
    return (t, ⟨storageBalance, 0⟩, refund env (amount - storageBalance))

def storageWithdraw (env : Env) (amount : Option ℕ) : Exec (Ledger × StorageBalance) := do
  env.assertOneAtto
  ensure (env.predecessorAccountId ∈ t.balances) "The account is not registered"
  ensure (amount.getD 0 = 0) "The amount is greater than the available storage balance"
  return (t, ⟨storageBalance, 0⟩)

def storageUnregister (env : Env) (force : Option Bool) :
    Exec (Ledger × Option (AccountId × ℕ) × List Transfer) := do
  env.assertOneAtto
  let accountId := env.predecessorAccountId
  match t.balances.lookup accountId with
  | none => return (t, none, [])
  | some balance => do
    ensure (balance = 0 ∨ force.getD false)
      "Can't unregister the account with the positive balance without force"
    let totalSupply ← checkedSub t.totalSupply balance
    return (⟨t.balances.erase accountId, totalSupply⟩, some (accountId, balance),
      [⟨accountId, storageBalance + 1⟩])

end Ledger

/-- The token on a ledger. -/
def standard : FungibleToken Ledger where
  new _ := ⟨∅, 0⟩
  accounts t := t.balances.keys.toFinset
  ftTotalSupply := Ledger.totalSupply
  storageBalanceMin _ := Ledger.storageBalance
  internalRegisterAccount accountId t := t.register accountId
  internalDeposit accountId amount t := t.deposit accountId amount
  internalWithdraw accountId amount t := t.withdraw accountId amount
  ftTransfer env receiverId amount _ t := t.transfer env receiverId amount
  ftTransferCall env receiverId amount _ _ t := t.transfer env receiverId amount
  internalFtResolveTransfer result senderId receiverId amount t :=
    t.resolve result senderId receiverId amount
  storageDeposit env accountId _ t := t.storageDeposit env accountId
  storageWithdraw env amount t := t.storageWithdraw env amount
  internalStorageUnregister env force t := t.storageUnregister env force

/-! ## What the token does -/

section Documented

variable {t t' : Ledger} {accountId : AccountId} {env : Env} {amount : ℕ}

theorem mem_accounts : accountId ∈ standard.accounts t ↔ accountId ∈ t.balances :=
  List.mem_toFinset

theorem mem_of_lookup {balance : ℕ} (h : t.balances.lookup accountId = some balance) :
    accountId ∈ standard.accounts t := by
  rw [mem_accounts, ← AList.lookup_isSome, h]
  rfl

/-- A write registers its account. -/
theorem leaves_write (balance totalSupply : ℕ) :
    standard.Leaves t (t.write accountId balance totalSupply)
      (insert accountId (standard.accounts t)) := by
  refine ⟨?_, rfl⟩
  ext id
  rw [Finset.mem_insert, mem_accounts, mem_accounts]
  exact AList.mem_insert t.balances

/-- A write to an account that is registered keeps the accounts. -/
theorem leaves_write_of_mem (h : accountId ∈ standard.accounts t) (balance totalSupply : ℕ) :
    standard.Leaves t (t.write accountId balance totalSupply) (standard.accounts t) := by
  have hwrite : standard.Leaves t (t.write accountId balance totalSupply)
      (insert accountId (standard.accounts t)) := leaves_write balance totalSupply
  rwa [Finset.insert_eq_self.mpr h] at hwrite

theorem register_effect (h : t.register accountId = .ok t') :
    standard.Leaves t t' (insert accountId (standard.accounts t)) ∧
      t'.totalSupply = t.totalSupply := by
  simp only [Ledger.register, bind_eq_ok, ensure_eq_ok, pure_eq_ok] at h
  obtain ⟨_, -, rfl⟩ := h
  exact ⟨leaves_write _ _, rfl⟩

theorem deposit_effect (h : t.deposit accountId amount = .ok t') :
    standard.Leaves t t' (standard.accounts t) ∧ t'.totalSupply = t.totalSupply + amount := by
  simp only [Ledger.deposit, bind_eq_ok, checkedAdd_eq_ok, pure_eq_ok] at h
  obtain ⟨balance, hbalance, _, -, _, ⟨-, rfl⟩, rfl⟩ := h
  exact ⟨leaves_write_of_mem (mem_of_lookup (expect_eq_ok.mp hbalance)) _ _, rfl⟩

theorem withdraw_effect (h : t.withdraw accountId amount = .ok t') :
    standard.Leaves t t' (standard.accounts t) ∧ t'.totalSupply + amount = t.totalSupply := by
  simp only [Ledger.withdraw, bind_eq_ok, checkedSub_eq_ok, pure_eq_ok] at h
  obtain ⟨balance, hbalance, _, -, _, ⟨hle, rfl⟩, rfl⟩ := h
  exact ⟨leaves_write_of_mem (mem_of_lookup (expect_eq_ok.mp hbalance)) _ _, Nat.sub_add_cancel hle⟩

theorem transfer_effect {receiverId : AccountId} (h : t.transfer env receiverId amount = .ok t') :
    standard.Leaves t t' (standard.accounts t) ∧ t'.totalSupply ≤ t.totalSupply := by
  simp only [Ledger.transfer, bind_eq_ok, ensure_eq_ok] at h
  obtain ⟨_, -, _, -, _, -, u, hwithdraw, hdeposit⟩ := h
  obtain ⟨⟨haccounts, -⟩, hless⟩ := withdraw_effect hwithdraw
  obtain ⟨⟨haccounts', -⟩, hmore⟩ := deposit_effect hdeposit
  exact ⟨⟨haccounts'.trans haccounts, rfl⟩, by omega⟩

theorem giveBack_effect {senderId : AccountId} {refundAmount used burned : ℕ}
    (h : t.giveBack senderId amount refundAmount = .ok (t', used, burned)) :
    standard.Leaves t t' (standard.accounts t) ∧ t'.totalSupply ≤ t.totalSupply := by
  unfold Ledger.giveBack at h
  split at h
  · next balance hbalance =>
    simp only [bind_eq_ok, checkedAdd_eq_ok, pure_eq_ok, Prod.mk.injEq] at h
    obtain ⟨_, -, rfl, -⟩ := h
    exact ⟨leaves_write_of_mem (mem_of_lookup hbalance) _ _, le_rfl⟩
  · simp only [bind_eq_ok, checkedSub_eq_ok, pure_eq_ok, Prod.mk.injEq] at h
    obtain ⟨_, ⟨-, rfl⟩, rfl, -⟩ := h
    exact ⟨⟨rfl, rfl⟩, Nat.sub_le _ _⟩

theorem resolve_effect {result : PromiseResult} {senderId receiverId : AccountId}
    {used burned : ℕ} (h : t.resolve result senderId receiverId amount = .ok (t', used, burned)) :
    standard.Leaves t t' (standard.accounts t) ∧ t'.totalSupply ≤ t.totalSupply := by
  unfold Ledger.resolve at h
  split at h
  · cases pure_eq_ok.mp h
    exact ⟨⟨rfl, rfl⟩, le_rfl⟩
  · next balance hbalance =>
    dsimp only at h
    split at h
    · cases pure_eq_ok.mp h
      exact ⟨⟨rfl, rfl⟩, le_rfl⟩
    · obtain ⟨⟨haccounts, -⟩, hsupply⟩ := giveBack_effect h
      rw [(leaves_write_of_mem (mem_of_lookup hbalance) _ _).accounts_eq] at haccounts
      exact ⟨⟨haccounts, rfl⟩, hsupply⟩

theorem paid_refund (env : Env) (amount : ℕ) : paid (Ledger.refund env amount) = amount := by
  unfold Ledger.refund
  split
  · exact paid_singleton _ _
  · rw [paid_nil]
    omega

theorem storageDeposit_effect {receiver : Option AccountId} {balance : StorageBalance}
    {transfers : List Transfer} (h : t.storageDeposit env receiver = .ok (t', balance, transfers)) :
    t'.totalSupply = t.totalSupply ∧
      (standard.Leaves t t' (standard.accounts t) ∧ paid transfers = env.attachedDeposit ∨
        standard.Leaves t t' (insert (receiver.getD env.predecessorAccountId)
          (standard.accounts t)) ∧
        paid transfers + Ledger.storageBalance = env.attachedDeposit) := by
  unfold Ledger.storageDeposit at h
  dsimp only at h
  split at h
  · cases pure_eq_ok.mp h
    exact ⟨rfl, .inl ⟨⟨rfl, rfl⟩, paid_refund _ _⟩⟩
  · simp only [bind_eq_ok, ensure_eq_ok, pure_eq_ok, Prod.mk.injEq] at h
    obtain ⟨_, henough, u, hregister, rfl, -, rfl⟩ := h
    obtain ⟨hleaves, hsupply⟩ := register_effect hregister
    refine ⟨hsupply, .inr ⟨hleaves, ?_⟩⟩
    rw [paid_refund]
    omega

theorem storageWithdraw_effect {amount : Option ℕ} {balance : StorageBalance}
    (h : t.storageWithdraw env amount = .ok (t', balance)) : t' = t := by
  simp only [Ledger.storageWithdraw, bind_eq_ok, ensure_eq_ok, pure_eq_ok, Prod.mk.injEq] at h
  obtain ⟨_, -, _, -, _, -, rfl, -⟩ := h
  rfl

theorem storageUnregister_none {force : Option Bool} {transfers : List Transfer}
    (h : t.storageUnregister env force = .ok (t', none, transfers)) :
    t' = t ∧ transfers = [] := by
  simp only [Ledger.storageUnregister, bind_eq_ok] at h
  obtain ⟨_, -, h⟩ := h
  split at h
  · cases pure_eq_ok.mp h
    exact ⟨rfl, rfl⟩
  · simp only [bind_eq_ok, pure_eq_ok, Prod.mk.injEq, reduceCtorEq, false_and, and_false,
      exists_false] at h

theorem storageUnregister_some {force : Option Bool} {balance : ℕ} {transfers : List Transfer}
    (h : t.storageUnregister env force = .ok (t', some (accountId, balance), transfers)) :
    accountId ∈ standard.accounts t ∧
      standard.Leaves t t' ((standard.accounts t).erase accountId) ∧
      t'.totalSupply + balance = t.totalSupply ∧
      paid transfers = Ledger.storageBalance + env.attachedDeposit := by
  simp only [Ledger.storageUnregister, bind_eq_ok, Env.assertOneAtto_eq_ok] at h
  obtain ⟨_, hone, h⟩ := h
  split at h
  · cases pure_eq_ok.mp h
  · next balance' hbalance =>
    simp only [bind_eq_ok, ensure_eq_ok, checkedSub_eq_ok, pure_eq_ok, Prod.mk.injEq,
      Option.some.injEq] at h
    obtain ⟨_, -, _, ⟨hle, rfl⟩, rfl, ⟨rfl, rfl⟩, rfl⟩ := h
    refine ⟨mem_of_lookup hbalance, ⟨?_, rfl⟩, Nat.sub_add_cancel hle, ?_⟩
    · ext id
      rw [Finset.mem_erase, mem_accounts, mem_accounts]
      exact AList.mem_erase
    · rw [paid_singleton, hone]

end Documented

/-- The token does what is documented. -/
theorem standard_documented : standard.Documented where
  new_accounts _ := rfl
  new_supply _ := rfl
  register _ _ _ h := register_effect h
  deposit _ _ _ _ h := deposit_effect h
  withdraw _ _ _ _ h := withdraw_effect h
  transfer _ _ _ _ _ _ h := transfer_effect h
  transferCall _ _ _ _ _ _ _ h := transfer_effect h
  resolve _ _ _ _ _ _ _ _ h := resolve_effect h
  storageDeposit _ _ _ _ _ _ _ h := storageDeposit_effect h
  storageWithdraw _ _ _ _ _ h := by
    cases storageWithdraw_effect h
    exact ⟨⟨rfl, rfl⟩, rfl⟩
  unregister_none _ _ _ _ _ h := by
    obtain ⟨rfl, rfl⟩ := storageUnregister_none h
    exact ⟨⟨rfl, rfl⟩, rfl, rfl⟩
  unregister_some _ _ _ _ _ _ _ h := storageUnregister_some h

end UncContracts.WUnc
