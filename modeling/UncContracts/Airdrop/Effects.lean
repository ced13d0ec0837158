import UncContracts.Airdrop.Contract

/-!
# What the airdrop does

Each step of the airdrop is one of a few moves: of the balances of the keys, of the access keys and
of what is in flight.

## Main definitions

* `Moves`: what one step does
* `Promise.transferred`, `Receipt.claimed`: the amounts that a batch transfers, and that a receipt
  carries of the claims of a key
* `Receipt.adds`, `Promise.deletes`: the access keys that a batch adds and deletes

## Main results

* `moves_of_step`: every step is one of the moves
* `mem_outcome`: a batch keeps the access keys that it does not delete
-/

namespace UncContracts.Airdrop

open Foundation

/-! ## Batches -/

/-- The amount that an action transfers. -/
def Action.amount : Action → ℕ
  | transfer amount => amount
  | _ => 0

/-- The amount that a batch transfers. -/
def Promise.transferred (p : Promise) : ℕ := (p.actions.map Action.amount).sum

/-- The key that an action deletes. -/
def Action.deletes : Action → Option PublicKey
  | deleteKey key => some key
  | _ => none

/-- The keys that a batch deletes. -/
def Promise.deletes (p : Promise) : List PublicKey := p.actions.filterMap Action.deletes

/-- The method takes the balance of the signer's key. -/
def Method.isClaim : Method → Bool
  | claim _ | createAccountAndClaim _ _ => true
  | _ => false

/-- The receipt belongs to a claim of a key. -/
def Receipt.isClaimOf (key : PublicKey) : Receipt → Bool
  | promise _ signerAccountPk origin => origin.isClaim && signerAccountPk == key
  | callback (.onAccountCreatedAndClaimed _) _ signerAccountPk => signerAccountPk == key
  | callback (.onAccountCreated _ _) _ _ => false

/-- The amount of a claim of a key that a receipt carries: to be transferred, or to be put back. -/
def Receipt.claimed (key : PublicKey) : Receipt → ℕ
  | promise p signerAccountPk origin =>
    if origin.isClaim ∧ signerAccountPk = key then p.transferred else 0
  | callback (.onAccountCreatedAndClaimed amount) false signerAccountPk =>
    if signerAccountPk = key then amount else 0
  | callback _ _ _ => 0

/-- The receipt adds a key to an account. -/
def Receipt.adds (me : AccountId) (key : PublicKey) : Receipt → Bool
  | promise p _ _ =>
    match p.actions with
    | [.addAccessKeyAllowance publicKey _ _ _] => p.receiverId = me ∧ publicKey = key
    | _ => false
  | callback _ _ _ => false

/-- A claim to an account is awaited by no callback, one to a new account by the callback that may
put the amount back, and the other batches are not awaited by it. -/
def Receipt.Shaped : Receipt → Prop
  | promise p _ (.claim _) => p.callback = none
  | promise p _ (.createAccountAndClaim _ _) =>
    p.callback = some (.onAccountCreatedAndClaimed p.transferred)
  | promise p _ _ => ∀ amount, p.callback ≠ some (.onAccountCreatedAndClaimed amount)
  | callback _ _ _ => True

namespace World

variable (w : World)

/-- The amounts of the claims of a key in flight. -/
def inFlight (key : PublicKey) : ℕ := (w.receipts.map (Receipt.claimed key)).sum

/-- A key is on the account of the contract, or is about to be added. -/
def HasKey (key : PublicKey) : Prop :=
  key ∈ w.keys ∨ ∃ r ∈ w.receipts, r.adds w.accountId key = true

end World

section Batches

variable {keys keys' : Finset PublicKey} {key : PublicKey} {w : World} {p : Promise}

theorem mem_of_foldlM {actions : List Action} (hmem : key ∈ keys)
    (hdeletes : key ∉ actions.filterMap Action.deletes)
    (h : actions.foldlM Action.onOwn keys = some keys') : key ∈ keys' := by
  induction actions generalizing keys with
  | nil =>
    cases h
    exact hmem
  | cons action actions ih =>
    rw [List.foldlM_cons, Option.bind_eq_bind, Option.bind_eq_some_iff] at h
    obtain ⟨keys₁, haction, h⟩ := h
    have hmem₁ : key ∈ keys₁ := by
      cases action with
      | deleteKey key' =>
        simp only [List.filterMap_cons, Action.deletes, List.mem_cons, not_or] at hdeletes
        simp only [Action.onOwn] at haction
        split at haction <;> cases haction
        exact Finset.mem_erase.mpr ⟨hdeletes.1, hmem⟩
      | createAccount => cases haction
      | transfer amount =>
        cases haction
        exact hmem
      | deployContract code =>
        cases haction
        exact hmem
      | addFullAccessKey key' =>
        simp only [Action.onOwn] at haction
        split at haction <;> cases haction
        exact Finset.mem_insert_of_mem hmem
      | addAccessKeyAllowance key' allowance receiver names =>
        simp only [Action.onOwn] at haction
        split at haction <;> cases haction
        exact Finset.mem_insert_of_mem hmem
    refine ih hmem₁ ?_ h
    intro hrest
    apply hdeletes
    cases hd : action.deletes with
    | none => rwa [List.filterMap_cons_none hd]
    | some key' =>
      rw [List.filterMap_cons_some hd]
      exact List.mem_cons_of_mem key' hrest

/-- A batch keeps the access keys that it does not delete. -/
theorem mem_outcome {success : Bool} (hmem : key ∈ w.keys)
    (hdeletes : p.receiverId = w.accountId → key ∉ p.deletes) :
    key ∈ (w.outcome p success).2 := by
  unfold World.outcome
  split
  · next hreceiver =>
    split
    · next keys h => exact mem_of_foldlM hmem (hdeletes hreceiver) h
    · exact hmem
  · exact hmem

/-- A batch that adds a key leaves it on the account, whether it was there or not. -/
theorem mem_outcome_of_adds {success : Bool} {signer : PublicKey} {origin : Method}
    (h : (Receipt.promise p signer origin).adds w.accountId key = true) :
    key ∈ (w.outcome p success).2 := by
  simp only [Receipt.adds] at h
  split at h
  · next publicKey allowance receiver names hactions =>
    obtain ⟨hreceiver, rfl⟩ := of_decide_eq_true h
    unfold World.outcome
    rw [if_pos hreceiver]
    by_cases hmem : publicKey ∈ w.keys
    · simp [Promise.onOwn, hactions, Action.onOwn, hmem]
    · simp [Promise.onOwn, hactions, Action.onOwn, hmem]
  · cases h

end Batches

/-! ## What a step does -/

/-- The batch that adds a key to the account of the contract. -/
def addKey (me : AccountId) (key : PublicKey) : Promise where
  receiverId := me
  actions := [.addAccessKeyAllowance key (.ofAmount ACCESS_KEY_ALLOWANCE) me ACCESS_KEY_METHOD_NAMES]

/-- The batch that deletes a key of the account of the contract. -/
def removeKey (me : AccountId) (key : PublicKey) : Promise where
  receiverId := me
  actions := [.deleteKey key]

/-- What one step does. -/
inductive Moves (w : World) : Label → World → Prop
  | sent {env : Env} {key : PublicKey} (hself : env.currentAccountId = w.accountId)
    (hdeposit : ACCESS_KEY_ALLOWANCE < env.attachedDeposit) :
    Moves w (.call env (.send key)) (w.issued env (.send key)
      ⟨w.contract.accounts.insert key (saturatingAdd (w.contract.balanceOf key)
        env.attachedDeposit - ACCESS_KEY_ALLOWANCE)⟩ w.receipts [addKey w.accountId key])
  | claimed {env : Env} {accountId : AccountId} {amount : ℕ}
    (hlookup : w.contract.accounts.lookup env.signerAccountPk = some amount) :
    Moves w (.call env (.claim accountId)) (w.issued env (.claim accountId)
      ⟨w.contract.accounts.erase env.signerAccountPk⟩ w.receipts
      [removeKey w.accountId env.signerAccountPk, { receiverId := accountId
                                                    actions := [.transfer amount] }])
  | claimedNew {env : Env} {newAccountId : AccountId} {newPublicKey : PublicKey} {amount : ℕ}
    (hlookup : w.contract.accounts.lookup env.signerAccountPk = some amount) :
    Moves w (.call env (.createAccountAndClaim newAccountId newPublicKey))
      (w.issued env (.createAccountAndClaim newAccountId newPublicKey)
        ⟨w.contract.accounts.erase env.signerAccountPk⟩ w.receipts
        [AirDrop.creation newAccountId newPublicKey amount (.onAccountCreatedAndClaimed amount)])
  | created {env : Env} {method : Method} {p : Promise} {predecessor : AccountId} {amount : ℕ}
    (hclaim : method.isClaim = false) (hsend : ∀ key, method ≠ .send key)
    (hp : p.callback = some (.onAccountCreated predecessor amount)) :
    Moves w (.call env method) (w.issued env method w.contract w.receipts [p])
  | delivered {i : ℕ} {success : Bool} {p : Promise} {signer : PublicKey} {origin : Method}
    {rest : List Receipt} (htake : takeAt w.receipts i = some (.promise p signer origin, rest)) :
    Moves w (.deliver i success) (w.delivered p signer rest success)
  | finished {i : ℕ} {env : Env} {amount : ℕ} {signer : PublicKey} {rest : List Receipt}
    (htake : takeAt w.receipts i =
      some (.callback (.onAccountCreatedAndClaimed amount) true signer, rest)) :
    Moves w (.resume i env) (w.issued env (.callback (.onAccountCreatedAndClaimed amount))
      w.contract rest [removeKey w.accountId env.signerAccountPk])
  | restored {i : ℕ} {env : Env} {amount : ℕ} {rest : List Receipt}
    (htake : takeAt w.receipts i =
      some (.callback (.onAccountCreatedAndClaimed amount) false env.signerAccountPk, rest)) :
    Moves w (.resume i env) (w.issued env (.callback (.onAccountCreatedAndClaimed amount))
      ⟨w.contract.accounts.insert env.signerAccountPk amount⟩ rest [])
  | refunded {i : ℕ} {env : Env} {predecessor : AccountId} {amount : ℕ} {success : Bool}
    {signer : PublicKey} {promises : List Promise} {rest : List Receipt}
    (htake : takeAt w.receipts i =
      some (.callback (.onAccountCreated predecessor amount) success signer, rest))
    (hp : ∀ p ∈ promises, p.callback = none) :
    Moves w (.resume i env) (w.issued env (.callback (.onAccountCreated predecessor amount))
      w.contract rest promises)

section Steps

variable {w w' : World} {l : Label}

theorem remove_eq_ok {s t : AirDrop} {env : Env} {amount : ℕ} :
    s.remove env = .ok (t, amount) ↔ s.accounts.lookup env.signerAccountPk = some amount ∧
      t = ⟨s.accounts.erase env.signerAccountPk⟩ := by
  simp only [AirDrop.remove, bind_eq_ok, expect_eq_ok, pure_eq_ok, Prod.mk.injEq]
  constructor
  · rintro ⟨_, hlookup, rfl, rfl⟩
    exact ⟨hlookup, rfl⟩
  · rintro ⟨hlookup, rfl⟩
    exact ⟨amount, hlookup, rfl, rfl⟩

theorem isPromiseSuccess_single {success b : Bool} :
    isPromiseSuccess [success] = .ok b ↔ success = b := by
  simp only [isPromiseSuccess, bind_eq_ok, ensure_eq_ok, pure_eq_ok]
  constructor
  · rintro ⟨_, -, h⟩
    exact h
  · exact fun h => ⟨(), rfl, h⟩

/-- Without awaited results the callbacks panic. -/
theorem isPromiseSuccess_nil {b : Bool} : isPromiseSuccess [] ≠ .ok b := by
  simp only [isPromiseSuccess, ne_eq, bind_eq_ok, ensure_eq_ok]
  rintro ⟨_, ⟨⟩, -⟩

theorem moves_of_call {env : Env} {method : Method} {contract : AirDrop} {promises : List Promise}
    (hself : env.currentAccountId = w.accountId)
    (h : w.contract.call env [] method = .ok (contract, promises)) :
    Moves w (.call env method) (w.issued env method contract w.receipts promises) := by
  simp only [AirDrop.call, bind_eq_ok, ensure_eq_ok] at h
  obtain ⟨_, -, h⟩ := h
  cases method with
  | send key =>
    simp only [AirDrop.send, bind_eq_ok, ensure_eq_ok, pure_eq_ok] at h
    obtain ⟨_, hdeposit, h⟩ := h
    obtain ⟨rfl, rfl⟩ := Prod.mk.inj h
    rw [hself]
    exact .sent hself hdeposit
  | claim accountId =>
    simp only [AirDrop.claim, bind_eq_ok, ensure_eq_ok, pure_eq_ok] at h
    obtain ⟨_, -, _, -, ⟨s, amount⟩, hremove, h⟩ := h
    obtain ⟨hlookup, rfl⟩ := remove_eq_ok.mp hremove
    obtain ⟨rfl, rfl⟩ := Prod.mk.inj h
    rw [hself]
    exact .claimed hlookup
  | createAccountAndClaim newAccountId newPublicKey =>
    simp only [AirDrop.createAccountAndClaim, bind_eq_ok, ensure_eq_ok, pure_eq_ok] at h
    obtain ⟨_, -, _, -, ⟨s, amount⟩, hremove, h⟩ := h
    obtain ⟨hlookup, rfl⟩ := remove_eq_ok.mp hremove
    obtain ⟨rfl, rfl⟩ := Prod.mk.inj h
    exact .claimedNew hlookup
  | createAccount newAccountId newPublicKey =>
    simp only [AirDrop.createAccount, bind_eq_ok, ensure_eq_ok, pure_eq_ok] at h
    obtain ⟨_, -, h⟩ := h
    obtain ⟨rfl, rfl⟩ := Prod.mk.inj h
    exact .created rfl (by rintro key ⟨⟩) rfl
  | createAccountAdvanced newAccountId options =>
    simp only [AirDrop.createAccountAdvanced, bind_eq_ok, ensure_eq_ok, pure_eq_ok] at h
    obtain ⟨_, -, h⟩ := h
    obtain ⟨rfl, rfl⟩ := Prod.mk.inj h
    exact .created rfl (by rintro key ⟨⟩) rfl
  | callback c =>
    -- A call from outside has no promise result, so that the callbacks panic.
    cases c with
    | onAccountCreated predecessor amount =>
      simp only [AirDrop.onAccountCreated, bind_eq_ok] at h
      obtain ⟨_, -, b, hsuccess, -⟩ := h
      exact absurd hsuccess isPromiseSuccess_nil
    | onAccountCreatedAndClaimed amount =>
      simp only [AirDrop.onAccountCreatedAndClaimed, bind_eq_ok] at h
      obtain ⟨_, -, b, hsuccess, -⟩ := h
      exact absurd hsuccess isPromiseSuccess_nil

/-- The callbacks do not panic when the contract calls them. -/
theorem resume_ok (s : AirDrop) (c : Callback) (success : Bool) {env : Env}
    (hself : env.predecessorAccountId = env.currentAccountId) (hdeposit : env.attachedDeposit = 0) :
    ∃ x, s.call env [success] (.callback c) = .ok x := by
  simp only [AirDrop.call, exists_bind_eq_ok, ensure_eq_ok]
  refine ⟨(), .inl hdeposit, ?_⟩
  cases c with
  | onAccountCreated predecessor amount =>
    simp only [AirDrop.onAccountCreated, exists_bind_eq_ok, ensure_eq_ok]
    refine ⟨(), hself, success, isPromiseSuccess_single.mpr rfl, ?_⟩
    cases success <;> exact ⟨_, rfl⟩
  | onAccountCreatedAndClaimed amount =>
    simp only [AirDrop.onAccountCreatedAndClaimed, exists_bind_eq_ok, ensure_eq_ok]
    refine ⟨(), hself, success, isPromiseSuccess_single.mpr rfl, ?_⟩
    cases success <;> exact ⟨_, rfl⟩

theorem moves_of_resume {i : ℕ} {env : Env} {c : Callback} {success : Bool} {contract : AirDrop}
    {promises : List Promise} {rest : List Receipt}
    (htake : takeAt w.receipts i = some (.callback c success env.signerAccountPk, rest))
    (hself : env.currentAccountId = w.accountId)
    (h : w.contract.call env [success] (.callback c) = .ok (contract, promises)) :
    Moves w (.resume i env) (w.issued env (.callback c) contract rest promises) := by
  simp only [AirDrop.call, bind_eq_ok, ensure_eq_ok] at h
  obtain ⟨_, -, h⟩ := h
  cases c with
  | onAccountCreated predecessor amount =>
    simp only [AirDrop.onAccountCreated, bind_eq_ok, isPromiseSuccess_single] at h
    obtain ⟨_, -, b, rfl, h⟩ := h
    cases success with
    | true =>
      obtain ⟨rfl, rfl⟩ := Prod.mk.inj (pure_eq_ok.mp h)
      exact .refunded htake (by rintro p ⟨⟩)
    | false =>
      obtain ⟨rfl, rfl⟩ := Prod.mk.inj (pure_eq_ok.mp h)
      refine .refunded htake ?_
      intro p hp
      cases List.mem_singleton.mp hp
      rfl
  | onAccountCreatedAndClaimed amount =>
    simp only [AirDrop.onAccountCreatedAndClaimed, bind_eq_ok, isPromiseSuccess_single] at h
    obtain ⟨_, -, b, rfl, h⟩ := h
    cases success with
    | true =>
      obtain ⟨rfl, rfl⟩ := Prod.mk.inj (pure_eq_ok.mp h)
      rw [hself]
      exact .finished htake
    | false =>
      obtain ⟨rfl, rfl⟩ := Prod.mk.inj (pure_eq_ok.mp h)
      exact .restored htake

/-- Every step is one of the moves. -/
theorem moves_of_step (h : system.step w l = .ok w') : Moves w l w' := by
  cases l with
  | call env method =>
    simp only [system, bind_eq_ok, ensure_eq_ok, pure_eq_ok] at h
    obtain ⟨_, hself, ⟨contract, promises⟩, hcall, rfl⟩ := h
    exact moves_of_call hself hcall
  | deliver i success =>
    simp only [system, bind_eq_ok, expect_eq_ok] at h
    obtain ⟨⟨receipt, rest⟩, htake, h⟩ := h
    cases receipt with
    | promise p signer origin =>
      cases pure_eq_ok.mp h
      exact .delivered htake
    | callback c success signer => cases h
  | resume i env =>
    simp only [system, bind_eq_ok, expect_eq_ok] at h
    obtain ⟨⟨receipt, rest⟩, htake, h⟩ := h
    cases receipt with
    | promise p signer origin => cases h
    | callback c success signer =>
      simp only [bind_eq_ok, ensure_eq_ok] at h
      obtain ⟨_, hself, _, hpredecessor, _, rfl, _, hdeposit, h⟩ := h
      obtain ⟨⟨contract, promises⟩, hcall⟩ := resume_ok w.contract c success
        (hpredecessor.trans hself.symm) hdeposit
      rw [hcall] at h
      cases pure_eq_ok.mp h
      exact moves_of_resume htake hself hcall

end Steps

end UncContracts.Airdrop
