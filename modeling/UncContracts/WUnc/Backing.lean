import UncContracts.WUnc.Standard

/-!
# The backing of the wrapped token

The native tokens that calls brought in, less those that were sent out, cover every wrapped token and
the storage balance of every account. The supply and the storage balances are the contract's
liabilities: a call raises them, with what it sends, by at most what is attached to it.

## Main definitions

* `liabilities`: the wrapped tokens and the storage balances
* `received`, `sent`: the native tokens that the steps of a run took in and sent out
* `Backed`: the reserve covers the liabilities

## Main results

* `liabilities_of_call`: what a call does to the liabilities
* `reserve_covers_run`: the reserve covers the liabilities in every run
-/

namespace UncContracts.WUnc

open Foundation

variable {T : Type} {ft : FungibleToken T}

/-! ## The storage balances -/

/-- The storage balances of the registered accounts. -/
def FungibleToken.storageHeld (ft : FungibleToken T) (t : T) : ℕ :=
  ft.storageBalanceMin t * (ft.accounts t).card

namespace FungibleToken.Leaves

variable {t t' : T} {accountId : AccountId}

theorem storageHeld_eq (h : ft.Leaves t t' (ft.accounts t)) :
    ft.storageHeld t' = ft.storageHeld t := by
  unfold storageHeld
  rw [h.accounts_eq, h.min_eq]

theorem storageHeld_insert (h : ft.Leaves t t' (insert accountId (ft.accounts t))) :
    ft.storageHeld t' ≤ ft.storageHeld t + ft.storageBalanceMin t := by
  unfold storageHeld
  rw [h.accounts_eq, h.min_eq, ← Nat.mul_succ]
  apply Nat.mul_le_mul_left
  exact Finset.card_insert_le accountId (ft.accounts t)

theorem storageHeld_erase (h : ft.Leaves t t' ((ft.accounts t).erase accountId))
    (hmem : accountId ∈ ft.accounts t) :
    ft.storageHeld t' + ft.storageBalanceMin t = ft.storageHeld t := by
  unfold storageHeld
  rw [h.accounts_eq, h.min_eq, ← Nat.mul_succ, Nat.succ_eq_add_one,
    Finset.card_erase_add_one hmem]

end FungibleToken.Leaves

/-! ## What a call does to the liabilities -/

/-- The wrapped tokens, and the storage balances that are paid back. -/
def liabilities (ft : FungibleToken T) (s : Contract T) : ℕ :=
  ft.ftTotalSupply s.token + ft.storageHeld s.token

section Calls

variable {env : Env} {s s' : Contract T}

/-- A registration is paid from the attached tokens. -/
theorem liabilities_registerOwner (h : ft.Documented) {ownerId : AccountId} {supply supply' : ℕ}
    (hok : s.registerOwner ft ownerId supply = .ok (s', supply')) :
    liabilities ft s' + supply' ≤ liabilities ft s + supply := by
  unfold Contract.registerOwner at hok
  split at hok
  · simp only [bind_eq_ok, ensure_eq_ok, pure_eq_ok, Prod.mk.injEq] at hok
    obtain ⟨_, henough, token, hregister, rfl, rfl⟩ := hok
    obtain ⟨hleaves, hsupply⟩ := h.register _ _ _ hregister
    have hheld := hleaves.storageHeld_insert
    have hmin := hleaves.min_eq
    unfold liabilities
    dsimp only
    omega
  · cases pure_eq_ok.mp hok
    exact le_rfl

theorem liabilities_uncDeposit (h : ft.Documented) (hok : s.uncDeposit ft env = .ok s') :
    liabilities ft s' ≤ liabilities ft s + env.attachedDeposit := by
  simp only [Contract.uncDeposit, bind_eq_ok, ensure_eq_ok, pure_eq_ok, Prod.exists] at hok
  obtain ⟨_, hpos, registered, supply, hregister, token, hdeposit, rfl⟩ := hok
  have hregistered := liabilities_registerOwner h hregister
  obtain ⟨hleaves, hsupply⟩ := h.deposit _ _ _ _ hdeposit
  have hheld := hleaves.storageHeld_eq
  unfold liabilities at hregistered ⊢
  dsimp only
  omega

theorem liabilities_uncWithdraw (h : ft.Documented) {amount : ℕ} {transfer : Transfer}
    (hok : s.uncWithdraw ft env amount = .ok (s', transfer)) :
    liabilities ft s' + transfer.amount = liabilities ft s + env.attachedDeposit := by
  simp only [Contract.uncWithdraw, Env.assertOneAtto_eq_ok, bind_eq_ok,
    checkedAdd_eq_ok, pure_eq_ok, Prod.mk.injEq] at hok
  obtain ⟨_, hone, token, hwithdraw, _, ⟨-, rfl⟩, rfl, rfl⟩ := hok
  obtain ⟨hleaves, hsupply⟩ := h.withdraw _ _ _ _ hwithdraw
  have hheld := hleaves.storageHeld_eq
  unfold liabilities
  dsimp only
  omega

theorem liabilities_ftResolveTransfer (h : ft.Documented) {senderId receiverId : AccountId}
    {amount used : ℕ} {result : PromiseResult}
    (hok : s.ftResolveTransfer ft env senderId receiverId amount result = .ok (s', used)) :
    liabilities ft s' ≤ liabilities ft s := by
  simp only [Contract.ftResolveTransfer, bind_eq_ok, ensure_eq_ok, pure_eq_ok, Prod.exists,
    Prod.mk.injEq] at hok
  obtain ⟨_, -, token, used', burned, hresolve, rfl, rfl⟩ := hok
  obtain ⟨hleaves, hsupply⟩ := h.resolve _ _ _ _ _ _ _ _ hresolve
  exact Nat.add_le_add hsupply hleaves.storageHeld_eq.le

/-- A closed account takes its balance and its storage balance off the liabilities; only the latter
is paid back. -/
theorem liabilities_storageUnregister (h : ft.Documented) {force : Option Bool} {closed : Bool}
    {transfers : List Transfer}
    (hok : s.storageUnregister ft env force = .ok (s', closed, transfers)) :
    liabilities ft s' + paid transfers ≤ liabilities ft s + env.attachedDeposit := by
  simp only [Contract.storageUnregister, bind_eq_ok, Prod.exists] at hok
  obtain ⟨token, account, transfers', hunregister, hok⟩ := hok
  cases account with
  | none =>
    simp only [pure_eq_ok, Prod.mk.injEq] at hok
    obtain ⟨rfl, -, rfl⟩ := hok
    obtain ⟨hleaves, hsupply, hpaid⟩ := h.unregister_none _ _ _ _ _ hunregister
    have hheld := hleaves.storageHeld_eq
    unfold liabilities
    dsimp only
    omega
  | some account =>
    simp only [pure_eq_ok, Prod.mk.injEq] at hok
    obtain ⟨rfl, -, rfl⟩ := hok
    obtain ⟨hmem, hleaves, hsupply, hpaid⟩ := h.unregister_some _ _ _ _ _ _ _ hunregister
    have hheld := hleaves.storageHeld_erase hmem
    unfold liabilities
    dsimp only
    omega

theorem liabilities_storageDeposit (h : ft.Documented) {accountId : Option AccountId}
    {registrationOnly : Option Bool} {token : T} {balance : StorageBalance}
    {transfers : List Transfer}
    (hok : ft.storageDeposit env accountId registrationOnly s.token =
      .ok (token, balance, transfers)) :
    liabilities ft ⟨token⟩ + paid transfers ≤ liabilities ft s + env.attachedDeposit := by
  obtain ⟨hsupply, ⟨hleaves, hpaid⟩ | ⟨hleaves, hpaid⟩⟩ := h.storageDeposit _ _ _ _ _ _ _ hok
  · have hheld := hleaves.storageHeld_eq
    unfold liabilities
    dsimp only
    omega
  · have hheld := hleaves.storageHeld_insert
    unfold liabilities
    dsimp only
    omega

/-- A call raises the liabilities, with what it sends, by at most what is attached to it. -/
theorem liabilities_of_call (h : ft.Documented) {method : Method} {transfers : List Transfer}
    (hok : s.call ft env method = .ok (s', transfers)) :
    liabilities ft s' + paid transfers ≤ liabilities ft s + env.attachedDeposit := by
  cases method with
  | uncDeposit =>
    simp only [Contract.call, bind_eq_ok, pure_eq_ok, Prod.mk.injEq] at hok
    obtain ⟨_, hdeposit, rfl, rfl⟩ := hok
    exact liabilities_uncDeposit h hdeposit
  | uncWithdraw amount =>
    simp only [Contract.call, bind_eq_ok, pure_eq_ok, Prod.exists, Prod.mk.injEq] at hok
    obtain ⟨_, transfer, hwithdraw, rfl, rfl⟩ := hok
    exact (liabilities_uncWithdraw h hwithdraw).le
  | ftTransfer receiverId amount memo =>
    simp only [Contract.call, bind_eq_ok, pure_eq_ok, Prod.mk.injEq] at hok
    obtain ⟨token, htransfer, rfl, rfl⟩ := hok
    obtain ⟨hleaves, hsupply⟩ := h.transfer _ _ _ _ _ _ htransfer
    exact (Nat.add_le_add hsupply hleaves.storageHeld_eq.le).trans (Nat.le_add_right _ _)
  | ftTransferCall receiverId amount memo msg =>
    simp only [Contract.call, bind_eq_ok, pure_eq_ok, Prod.mk.injEq] at hok
    obtain ⟨token, htransfer, rfl, rfl⟩ := hok
    obtain ⟨hleaves, hsupply⟩ := h.transferCall _ _ _ _ _ _ _ htransfer
    exact (Nat.add_le_add hsupply hleaves.storageHeld_eq.le).trans (Nat.le_add_right _ _)
  | ftResolveTransfer senderId receiverId amount result =>
    simp only [Contract.call, bind_eq_ok, pure_eq_ok, Prod.exists, Prod.mk.injEq] at hok
    obtain ⟨_, used, hresolve, rfl, rfl⟩ := hok
    exact (liabilities_ftResolveTransfer h hresolve).trans (Nat.le_add_right _ _)
  | storageDeposit accountId registrationOnly =>
    simp only [Contract.call, bind_eq_ok, pure_eq_ok, Prod.exists, Prod.mk.injEq] at hok
    obtain ⟨token, balance, _, hdeposit, rfl, rfl⟩ := hok
    exact liabilities_storageDeposit h hdeposit
  | storageWithdraw amount =>
    simp only [Contract.call, bind_eq_ok, pure_eq_ok, Prod.exists, Prod.mk.injEq] at hok
    obtain ⟨token, balance, hwithdraw, rfl, rfl⟩ := hok
    obtain ⟨hleaves, hsupply⟩ := h.storageWithdraw _ _ _ _ _ hwithdraw
    exact (Nat.add_le_add hsupply.le hleaves.storageHeld_eq.le).trans (Nat.le_add_right _ _)
  | storageUnregister force =>
    simp only [Contract.call, bind_eq_ok, pure_eq_ok, Prod.exists, Prod.mk.injEq] at hok
    obtain ⟨_, closed, _, hunregister, rfl, rfl⟩ := hok
    exact liabilities_storageUnregister h hunregister

end Calls

/-! ## Runs -/

/-- The native tokens that steps took in: what was attached to the accepted calls. -/
def received (hist : List (Step (Contract T) Label)) : ℕ :=
  (hist.map fun x => x.label.env.attachedDeposit).sum

/-- The native tokens that a step sends. -/
def sentBy (ft : FungibleToken T) (x : Step (Contract T) Label) : ℕ :=
  match x.before.call ft x.label.env x.label.method with
  | .ok (_, transfers) => paid transfers
  | .error _ => 0

/-- The native tokens that steps sent, also by transfers that fail and return them. -/
def sent (ft : FungibleToken T) (hist : List (Step (Contract T) Label)) : ℕ :=
  (hist.map (sentBy ft)).sum

/-- What was received and not sent covers the wrapped tokens and the storage balances, and every
withdrawal that the token accepts. -/
structure Backed (ft : FungibleToken T) (hist : List (Step (Contract T) Label)) (s : Contract T) :
    Prop where
  covered : ft.ftTotalSupply s.token + ft.storageBalanceMin s.token * (ft.accounts s.token).card ≤
    received hist - sent ft hist
  sent_le : sent ft hist ≤ received hist
  redeemable : ∀ env amount s' transfer, s.uncWithdraw ft env amount = .ok (s', transfer) →
    transfer.amount ≤ received hist - sent ft hist + env.attachedDeposit

theorem liabilities_step (h : ft.Documented) (x : Step (Contract T) Label)
    (hstep : (wrapped ft).step x.before x.label = .ok x.after) :
    liabilities ft x.after + sentBy ft x ≤
      liabilities ft x.before + x.label.env.attachedDeposit := by
  unfold sentBy
  simp only [wrapped] at hstep
  cases hcall : x.before.call ft x.label.env x.label.method with
  | ok result =>
    obtain ⟨s', transfers⟩ := result
    rw [hcall] at hstep
    have hafter : s' = x.after := Except.ok.inj hstep
    rw [← hafter]
    exact liabilities_of_call h hcall
  | error e =>
    rw [hcall] at hstep
    cases hstep

/-- **Backing.** In every run from a new contract, the native tokens that calls brought in, less
those that were sent out, cover the wrapped tokens and the storage balances of the registered
accounts. -/
theorem reserve_covers_run (ft : FungibleToken T) (h : ft.Documented) (calls : List Label) :
    Backed ft ((wrapped ft).steps (Contract.new ft) calls)
      ((wrapped ft).run (Contract.new ft) calls) := by
  -- The liabilities are a potential that every call pays for.
  have hpotential := Machine.potential_le (M := wrapped ft) (liabilities_step h) (Contract.new ft)
    calls
  have hnew : liabilities ft (Contract.new ft) = 0 := by
    unfold liabilities FungibleToken.storageHeld Contract.new
    rw [h.new_accounts, h.new_supply, Finset.card_empty, Nat.mul_zero]
  have hcovered : liabilities ft ((wrapped ft).run (Contract.new ft) calls) +
      sent ft ((wrapped ft).steps (Contract.new ft) calls) ≤
      received ((wrapped ft).steps (Contract.new ft) calls) := by
    unfold sent received
    omega
  refine ⟨Nat.le_sub_of_add_le hcovered, Nat.le_of_add_left_le hcovered, ?_⟩
  intro env amount s' transfer hok
  have hwithdraw := liabilities_uncWithdraw h hok
  omega

/-- A call with tokens attached. -/
def sampleCall (predecessor : AccountId) (attachedDeposit : ℕ) (h : attachedDeposit ≤ u128Max)
    (method : Method) : Label where
  env :=
    { currentAccountId := "wrap"
      predecessorAccountId := predecessor
      signerAccountPk := "pk"
      attachedDeposit
      accountBalance := 0
      accountLockedBalance := 0
      epochHeight := 1
      blockHeight := 1
      blockTimestamp := 1
      attachedDeposit_le := h
      accountBalance_le := Nat.zero_le _
      accountLockedBalance_le := Nat.zero_le _ }
  method

theorem sampleDeposit_le : 10 ^ 25 ≤ u128Max := by decide

theorem sampleStorage_le : 10 ^ 24 ≤ u128Max := by decide

theorem sampleAtto_le : 1 ≤ u128Max := by decide

/-- Alice wraps tokens and transfers some to Bob, whose contract uses less of them than it was sent.
Alice closes her account by force before the transfer is resolved, and Bob withdraws. -/
def sampleCalls : List Label :=
  [sampleCall "alice" (10 ^ 25) sampleDeposit_le .uncDeposit,
    sampleCall "bob" (10 ^ 24) sampleStorage_le (.storageDeposit none none),
    sampleCall "alice" 1 sampleAtto_le (.ftTransferCall "bob" (10 ^ 24) none "swap"),
    sampleCall "alice" 1 sampleAtto_le (.storageUnregister (some true)),
    sampleCall "wrap" 0 (Nat.zero_le _)
      (.ftResolveTransfer "alice" "bob" (10 ^ 24) (.successful (some 1000))),
    sampleCall "bob" 1 sampleAtto_le (.uncWithdraw (10 ^ 23))]

theorem reserve_covers_run_sampleCalls :
    Backed standard ((wrapped standard).steps (Contract.new standard) sampleCalls)
      ((wrapped standard).run (Contract.new standard) sampleCalls) :=
  reserve_covers_run standard standard_documented sampleCalls

end UncContracts.WUnc
