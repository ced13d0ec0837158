import UncContracts.LockableToken.Contract

/-!
# The ledger of the lockable token

What each method does to the accounts. A method rewrites the account of an owner for one other
account, the escrow: the unlocked balance, the escrow's allowance and what it has locked. A transfer
then credits the new owner.

## Main definitions

* `Account.held`, `FunToken.heldTotal`: the tokens of an account and of all accounts
* `Sound`: the invariant of the contract
* `Rewrites`: an account is rewritten for one escrow
* `Effect`: what a successful call does

## Main results

* `exact_call`: from a sound state a call does the same with overflow checks
* `effect_of_call`: what a successful call does
* `Sound.effect`: it keeps the contract sound
-/

namespace UncContracts.LockableToken

open Foundation

/-! ## Accounts -/

namespace Account

variable (a : Account) (e : AccountId) (n : ℕ)

/-- All tokens that are locked, whoever locked them. -/
def lockedTotal : ℕ := a.lockedValues.sum

/-- The tokens of an account, locked and unlocked. -/
def held : ℕ := a.balance + a.lockedTotal

@[simp] theorem setAllowance_balance : (a.setAllowance e n).balance = a.balance := by
  unfold setAllowance
  split <;> rfl

@[simp] theorem setAllowance_lockedBalances :
    (a.setAllowance e n).lockedBalances = a.lockedBalances := by
  unfold setAllowance
  split <;> rfl

@[simp] theorem setLockedBalance_balance : (a.setLockedBalance e n).balance = a.balance := by
  unfold setLockedBalance
  split <;> rfl

@[simp] theorem setLockedBalance_allowances :
    (a.setLockedBalance e n).allowances = a.allowances := by
  unfold setLockedBalance
  split <;> rfl

@[simp] theorem getAllowance_setAllowance : (a.setAllowance e n).getAllowance e = n := by
  unfold setAllowance getAllowance
  split
  · simp
  · rw [AList.lookup_erase, Option.getD_none]
    omega

@[simp] theorem getLockedBalance_setLockedBalance :
    (a.setLockedBalance e n).getLockedBalance e = n := by
  unfold setLockedBalance getLockedBalance
  split
  · simp
  · rw [AList.lookup_erase, Option.getD_none]
    omega

@[simp] theorem getLockedBalance_setAllowance (q : AccountId) :
    (a.setAllowance e n).getLockedBalance q = a.getLockedBalance q := by
  simp [getLockedBalance]

@[simp] theorem getAllowance_setLockedBalance (q : AccountId) :
    (a.setLockedBalance e n).getAllowance q = a.getAllowance q := by
  simp [getAllowance]

@[simp] theorem lockedTotal_setAllowance : (a.setAllowance e n).lockedTotal = a.lockedTotal := by
  simp [lockedTotal, lockedValues]

variable {e} {q : AccountId}

theorem getAllowance_setAllowance_of_ne (h : q ≠ e) :
    (a.setAllowance e n).getAllowance q = a.getAllowance q := by
  unfold setAllowance getAllowance
  split
  · rw [AList.lookup_insert_ne h]
  · rw [AList.lookup_erase_ne h]

theorem getLockedBalance_setLockedBalance_of_ne (h : q ≠ e) :
    (a.setLockedBalance e n).getLockedBalance q = a.getLockedBalance q := by
  unfold setLockedBalance getLockedBalance
  split
  · rw [AList.lookup_insert_ne h]
  · rw [AList.lookup_erase_ne h]

variable (e)

theorem amount_lockedBalances : a.lockedBalances.amount id e = a.getLockedBalance e := by
  unfold Map.amount getLockedBalance
  cases a.lockedBalances.lookup e <;> rfl

/-- A locked balance is written into the total. -/
theorem lockedTotal_setLockedBalance :
    (a.setLockedBalance e n).lockedTotal + a.getLockedBalance e = a.lockedTotal + n := by
  rw [← amount_lockedBalances]
  unfold setLockedBalance
  split
  · exact Map.total_insert id a.lockedBalances e n
  · next hzero =>
    obtain rfl : n = 0 := by omega
    exact Map.total_erase id a.lockedBalances e

theorem getLockedBalance_le_lockedTotal : a.getLockedBalance e ≤ a.lockedTotal := by
  rw [← amount_lockedBalances]
  exact Map.amount_le_total id a.lockedBalances e

end Account

namespace FunToken

variable (s : FunToken) (o : AccountId) (a : Account)

/-- The tokens of all accounts. -/
def heldTotal : ℕ := Map.total Account.held s.accounts

@[simp] theorem insertAccount_totalSupply : (s.insertAccount o a).totalSupply = s.totalSupply := rfl

@[simp] theorem getAccount_insertAccount : (s.insertAccount o a).getAccount o = a := by
  simp [insertAccount, getAccount]

theorem getAccount_insertAccount_of_ne {p : AccountId} (h : p ≠ o) :
    (s.insertAccount o a).getAccount p = s.getAccount p := by
  unfold insertAccount getAccount
  rw [AList.lookup_insert_ne h]

theorem amount_accounts : s.accounts.amount Account.held o = (s.getAccount o).held := by
  unfold Map.amount getAccount
  cases s.accounts.lookup o <;> rfl

theorem heldTotal_insertAccount :
    (s.insertAccount o a).heldTotal + (s.getAccount o).held = s.heldTotal + a.held := by
  rw [← amount_accounts]
  exact Map.total_insert Account.held s.accounts o a

theorem held_le_heldTotal : (s.getAccount o).held ≤ s.heldTotal := by
  rw [← amount_accounts]
  exact Map.amount_le_total Account.held s.accounts o

end FunToken

/-- All tokens are held by somebody, no owner has an allowance for itself, and what an escrow may
still spend of an owner and what it has locked fit in a `u128`. -/
structure Sound (s : FunToken) : Prop where
  supply : s.heldTotal = s.totalSupply
  fits : s.totalSupply ≤ u128Max
  own : ∀ o, (s.getAccount o).getAllowance o = 0
  authority : ∀ o e, (s.getAccount o).getAllowance e + (s.getAccount o).getLockedBalance e ≤ u128Max

namespace Sound

variable {s : FunToken} (hs : Sound s)

include hs

theorem held_le (o : AccountId) : (s.getAccount o).held ≤ u128Max :=
  (s.held_le_heldTotal o).trans (hs.supply.le.trans hs.fits)

theorem balance_add_le (o e : AccountId) :
    (s.getAccount o).balance + (s.getAccount o).getLockedBalance e ≤ u128Max :=
  (Nat.add_le_add_left ((s.getAccount o).getLockedBalance_le_lockedTotal e) _).trans (hs.held_le o)

end Sound

/-! ## The copy of an account -/

/-- From `a` to `b` an account is rewritten for the escrow `e`: these are its unlocked balance and
the escrow's allowance and locked balance then. Other escrows are left alone. -/
structure Rewrites (a b : Account) (e : AccountId) (balance allowance locked : ℕ) : Prop where
  balance_eq : b.balance = balance
  allowance_eq : b.getAllowance e = allowance
  locked_eq : b.getLockedBalance e = locked
  allowance_other : ∀ q, q ≠ e → b.getAllowance q = a.getAllowance q
  locked_other : ∀ q, q ≠ e → b.getLockedBalance q = a.getLockedBalance q
  lockedTotal : b.lockedTotal + a.getLockedBalance e = a.lockedTotal + locked

namespace Rewrites

variable {a b c : Account} {e : AccountId} {balance allowance locked n : ℕ}

theorem refl (a : Account) (e : AccountId) :
    Rewrites a a e a.balance (a.getAllowance e) (a.getLockedBalance e) :=
  ⟨rfl, rfl, rfl, fun _ _ => rfl, fun _ _ => rfl, rfl⟩

theorem withBalance (h : Rewrites a b e balance allowance locked) (n : ℕ) :
    Rewrites a { b with balance := n } e n allowance locked :=
  ⟨rfl, h.allowance_eq, h.locked_eq, h.allowance_other, h.locked_other, h.lockedTotal⟩

theorem setAllowance (h : Rewrites a b e balance allowance locked) (n : ℕ) :
    Rewrites a (b.setAllowance e n) e balance n locked := by
  refine ⟨?_, ?_, ?_, ?_, ?_, ?_⟩
  · rw [Account.setAllowance_balance, h.balance_eq]
  · rw [Account.getAllowance_setAllowance]
  · rw [Account.getLockedBalance_setAllowance, h.locked_eq]
  · intro q hq
    rw [Account.getAllowance_setAllowance_of_ne _ _ hq, h.allowance_other q hq]
  · intro q hq
    rw [Account.getLockedBalance_setAllowance, h.locked_other q hq]
  · rw [Account.lockedTotal_setAllowance, h.lockedTotal]

theorem setLockedBalance (h : Rewrites a b e balance allowance locked) (n : ℕ) :
    Rewrites a (b.setLockedBalance e n) e balance allowance n := by
  refine ⟨?_, ?_, ?_, ?_, ?_, ?_⟩
  · rw [Account.setLockedBalance_balance, h.balance_eq]
  · rw [Account.getAllowance_setLockedBalance, h.allowance_eq]
  · rw [Account.getLockedBalance_setLockedBalance]
  · intro q hq
    rw [Account.getAllowance_setLockedBalance, h.allowance_other q hq]
  · intro q hq
    rw [Account.getLockedBalance_setLockedBalance_of_ne _ _ hq, h.locked_other q hq]
  · have hwrite := b.lockedTotal_setLockedBalance e n
    have htotal := h.lockedTotal
    rw [h.locked_eq] at hwrite
    omega

end Rewrites

/-! ## The parts of the methods -/

section Copies

variable {σ : Type} {e o : AccountId} {a b c : Account} {n r : ℕ} {s t : σ}

/-- What a caller other than the owner pays out of its allowance. -/
def charge (e o : AccountId) (n : ℕ) : ℕ := if e ≠ o then n else 0

theorem charge_self (o : AccountId) (n : ℕ) : charge o o n = 0 := if_neg (not_not.mpr rfl)

theorem charge_le (e o : AccountId) (n : ℕ) : charge e o n ≤ n := by
  unfold charge
  split
  · exact le_rfl
  · exact Nat.zero_le _

theorem exact_useAllowance (h : a.getAllowance e ≤ u128Max) (s : σ) :
    Exact (fun m => useAllowance m e o a n) s := by
  refine Exact.ite ?_ ?_
  · intro _
    refine .require ?_
    intro hle
    exact .bind (.sub hle h _) fun _ _ _ => .const _ _
  · intro _
    exact .const _ _

theorem rewrites_of_useAllowance {balance allowance locked : ℕ}
    (hb : Rewrites a b e balance allowance locked)
    (h : (useAllowance .checked e o b n).run s = .ok c t) :
    charge e o n ≤ allowance ∧
      Rewrites a c e balance (allowance - charge e o n) locked ∧ s = t := by
  unfold useAllowance at h
  unfold charge
  split at h
  · rename_i hne
    simp only [run_bind_eq_ok, run_require_eq_ok, Arithmetic.run_sub_eq_ok, run_pure_eq_ok] at h
    obtain ⟨-, -, ⟨hle, rfl⟩, -, -, ⟨-, rfl, rfl⟩, rfl, rfl⟩ := h
    rw [hb.allowance_eq] at hle ⊢
    rw [if_pos hne]
    exact ⟨hle, hb.setAllowance _, rfl⟩
  · rename_i hne
    obtain ⟨rfl, rfl⟩ := run_pure_eq_ok.mp h
    rw [if_neg hne]
    exact ⟨Nat.zero_le _, hb, rfl⟩

theorem exact_returnAllowance (h : a.getAllowance e + n ≤ u128Max) (s : σ) :
    Exact (fun m => returnAllowance m e o a n) s := by
  refine Exact.ite ?_ ?_
  · intro _
    exact .bind (.add h _) fun _ _ _ => .const _ _
  · intro _
    exact .const _ _

theorem rewrites_of_returnAllowance {balance allowance locked : ℕ}
    (hb : Rewrites a b e balance allowance locked)
    (h : (returnAllowance .checked e o b n).run s = .ok c t) :
    Rewrites a c e balance (allowance + charge e o n) locked ∧ s = t := by
  unfold returnAllowance at h
  unfold charge
  split at h
  · rename_i hne
    simp only [run_bind_eq_ok, Arithmetic.run_add_eq_ok, run_pure_eq_ok] at h
    obtain ⟨-, -, ⟨-, rfl, rfl⟩, rfl, rfl⟩ := h
    rw [hb.allowance_eq, if_pos hne]
    exact ⟨hb.setAllowance _, rfl⟩
  · rename_i hne
    obtain ⟨rfl, rfl⟩ := run_pure_eq_ok.mp h
    rw [if_neg hne]
    exact ⟨hb, rfl⟩

theorem exact_useLocked (hlocked : a.getLockedBalance e ≤ u128Max) (hn : n ≤ u128Max) (s : σ) :
    Exact (fun m => useLocked m e a n) s := by
  refine Exact.ite ?_ ?_
  · intro hle
    exact .bind (.sub hle hlocked _) fun _ _ _ => .const _ _
  · intro hle
    exact .bind (.sub (Nat.le_of_not_le hle) hn _) fun _ _ _ => .const _ _

/-- What is locked is used first. -/
theorem rewrites_of_useLocked (h : (useLocked .checked e a n).run s = .ok (b, r) t) :
    Rewrites a b e a.balance (a.getAllowance e) (a.getLockedBalance e - n) ∧
      r = n - a.getLockedBalance e ∧ s = t := by
  unfold useLocked at h
  dsimp only at h
  split at h
  · rename_i hle
    simp only [run_bind_eq_ok, Arithmetic.run_sub_eq_ok, run_pure_eq_ok] at h
    obtain ⟨-, -, ⟨-, rfl, rfl⟩, h, rfl⟩ := h
    obtain ⟨rfl, rfl⟩ := Prod.mk.inj h
    exact ⟨(Rewrites.refl a e).setLockedBalance _, by omega, rfl⟩
  · rename_i hle
    simp only [run_bind_eq_ok, Arithmetic.run_sub_eq_ok, run_pure_eq_ok] at h
    obtain ⟨-, -, ⟨-, rfl, rfl⟩, h, rfl⟩ := h
    obtain ⟨rfl, rfl⟩ := Prod.mk.inj h
    have hzero : a.getLockedBalance e - n = 0 := by omega
    rw [hzero]
    exact ⟨(Rewrites.refl a e).setLockedBalance _, rfl, rfl⟩

theorem exact_useUnlocked (hbalance : a.balance ≤ u128Max) (h : a.getAllowance e ≤ u128Max)
    (s : σ) : Exact (fun m => useUnlocked m e o a n) s := by
  refine Exact.ite ?_ ?_
  · intro _
    refine .require ?_
    intro hle
    refine .bind (.sub hle hbalance _) ?_
    intro balance _ _
    exact exact_useAllowance (show ({ a with balance } : Account).getAllowance e ≤ _ from h) _
  · intro _
    exact .const _ _

theorem rewrites_of_useUnlocked {balance allowance locked : ℕ}
    (hb : Rewrites a b e balance allowance locked)
    (h : (useUnlocked .checked e o b n).run s = .ok c t) :
    n ≤ balance ∧ charge e o n ≤ allowance ∧
      Rewrites a c e (balance - n) (allowance - charge e o n) locked ∧ s = t := by
  unfold useUnlocked at h
  split at h
  · simp only [run_bind_eq_ok, run_require_eq_ok, Arithmetic.run_sub_eq_ok] at h
    obtain ⟨_, _, ⟨hle, rfl⟩, _, _, ⟨-, rfl, rfl⟩, h⟩ := h
    rw [hb.balance_eq] at hle
    obtain ⟨hcharge, hc, rfl⟩ := rewrites_of_useAllowance (hb.withBalance _) h
    rw [hb.balance_eq] at hc
    exact ⟨hle, hcharge, hc, rfl⟩
  · rename_i hzero
    obtain ⟨rfl, rfl⟩ := run_pure_eq_ok.mp h
    obtain rfl : n = 0 := by omega
    have hfree : charge e o 0 = 0 := by
      unfold charge
      split <;> rfl
    rw [hfree]
    exact ⟨Nat.zero_le _, Nat.zero_le _, hb, rfl⟩

end Copies

/-! ## Calls -/

/-- The account of `r` is credited. -/
def FunToken.credit (s : FunToken) (r : AccountId) (x : ℕ) : FunToken :=
  s.insertAccount r { s.getAccount r with balance := (s.getAccount r).balance + x }

/-- The call transfers `x` tokens of `o` to `r`. -/
def Transfers (c : Call) (o r : AccountId) (x : U128) : Prop :=
  c.method = .transferFrom o r x ∨ c.method = .transfer r x ∧ o = c.predecessorId

/-- What a successful call does. The caller `e` rewrites the account of an owner `o`, or its own
account for an escrow; a transfer then credits the new owner. -/
inductive Effect (s : FunToken) (c : Call) (t : FunToken) : Prop
  | allowed (e : AccountId) (x : U128) (b : Account)
      (hmethod : c.method = .setAllowance e x) (hne : e ≠ c.predecessorId)
      (hle : (s.getAccount c.predecessorId).getLockedBalance e ≤ x)
      (h : Rewrites (s.getAccount c.predecessorId) b e (s.getAccount c.predecessorId).balance
        (x - (s.getAccount c.predecessorId).getLockedBalance e)
        ((s.getAccount c.predecessorId).getLockedBalance e))
      (ht : t = s.insertAccount c.predecessorId b)
  | locked (o : AccountId) (x : U128) (b : Account)
      (hmethod : c.method = .lock o x) (hpos : (x : ℕ) ≠ 0) (hle : x ≤ (s.getAccount o).balance)
      (hcharge : charge c.predecessorId o x ≤ (s.getAccount o).getAllowance c.predecessorId)
      (h : Rewrites (s.getAccount o) b c.predecessorId ((s.getAccount o).balance - x)
        ((s.getAccount o).getAllowance c.predecessorId - charge c.predecessorId o x)
        ((s.getAccount o).getLockedBalance c.predecessorId + x))
      (ht : t = s.insertAccount o b)
  | unlocked (o : AccountId) (x : U128) (b : Account)
      (hmethod : c.method = .unlock o x) (hpos : (x : ℕ) ≠ 0)
      (hle : x ≤ (s.getAccount o).getLockedBalance c.predecessorId)
      (h : Rewrites (s.getAccount o) b c.predecessorId ((s.getAccount o).balance + x)
        ((s.getAccount o).getAllowance c.predecessorId + charge c.predecessorId o x)
        ((s.getAccount o).getLockedBalance c.predecessorId - x))
      (ht : t = s.insertAccount o b)
  | transferred (o r : AccountId) (x remaining : ℕ) (b : Account) (x' : U128) (hx : x = x')
      (hmethod : Transfers c o r x') (hpos : x ≠ 0)
      (hremaining : remaining = x - (s.getAccount o).getLockedBalance c.predecessorId)
      (hle : remaining ≤ (s.getAccount o).balance)
      (hcharge : charge c.predecessorId o remaining ≤
        (s.getAccount o).getAllowance c.predecessorId)
      (h : Rewrites (s.getAccount o) b c.predecessorId ((s.getAccount o).balance - remaining)
        ((s.getAccount o).getAllowance c.predecessorId - charge c.predecessorId o remaining)
        ((s.getAccount o).getLockedBalance c.predecessorId - x))
      (ht : t = (s.insertAccount o b).credit r x)

section Effects

variable {s t : FunToken} {p o r : AccountId} {x : U128}

theorem U128.le (x : U128) : (x : ℕ) ≤ u128Max := Nat.le_of_lt_succ x.isLt

theorem effect_of_setAllowance {e : AccountId}
    (h : (setAllowance .checked p e x).run s = .ok () t) : Effect s ⟨p, .setAllowance e x⟩ t := by
  simp only [setAllowance, run_bind_eq_ok, run_require_eq_ok, run_get_eq_ok,
    Arithmetic.run_sub_eq_ok, run_modify_eq_ok] at h
  obtain ⟨_, _, ⟨hne, rfl⟩, _, _, ⟨rfl, rfl⟩, _, _, ⟨hle, rfl⟩, _, _, ⟨-, rfl, rfl⟩, rfl⟩ := h
  exact .allowed e x _ rfl hne hle ((Rewrites.refl _ e).setAllowance _) rfl

theorem effect_of_lock (h : (lock .checked p o x).run s = .ok () t) :
    Effect s ⟨p, .lock o x⟩ t := by
  simp only [lock, run_bind_eq_ok, run_require_eq_ok, run_get_eq_ok, Arithmetic.run_sub_eq_ok,
    Arithmetic.run_add_eq_ok, run_modify_eq_ok] at h
  obtain ⟨_, _, ⟨hpos, rfl⟩, _, _, ⟨rfl, rfl⟩, _, _, ⟨hle, rfl⟩, _, _, ⟨-, rfl, rfl⟩, b, _, huse,
    _, _, ⟨-, rfl, rfl⟩, rfl⟩ := h
  obtain ⟨hcharge, hb, rfl⟩ :=
    rewrites_of_useAllowance ((Rewrites.refl (s.getAccount o) p).withBalance _) huse
  have hlocked := hb.setLockedBalance (b.getLockedBalance p + x)
  rw [hb.locked_eq] at hlocked ⊢
  exact .locked o x _ rfl hpos hle hcharge hlocked rfl

theorem effect_of_unlock (h : (unlock .checked p o x).run s = .ok () t) :
    Effect s ⟨p, .unlock o x⟩ t := by
  simp only [unlock, run_bind_eq_ok, run_require_eq_ok, run_get_eq_ok, Arithmetic.run_sub_eq_ok,
    Arithmetic.run_add_eq_ok, run_modify_eq_ok] at h
  obtain ⟨_, _, ⟨hpos, rfl⟩, _, _, ⟨rfl, rfl⟩, _, _, ⟨hle, rfl⟩, _, _, ⟨-, rfl, rfl⟩, b, _, hreturn,
    _, _, ⟨-, rfl, rfl⟩, rfl⟩ := h
  obtain ⟨hb, rfl⟩ :=
    rewrites_of_returnAllowance ((Rewrites.refl (s.getAccount o) p).setLockedBalance _) hreturn
  have hbalance := hb.withBalance (b.balance + x)
  rw [hb.balance_eq] at hbalance ⊢
  exact .unlocked o x _ rfl hpos hle hbalance rfl

theorem effect_of_transferFrom {c : Call} (hmethod : Transfers c o r x)
    (h : (transferFrom .checked c.predecessorId o r x).run s = .ok () t) : Effect s c t := by
  simp only [transferFrom, run_bind_eq_ok, run_require_eq_ok, run_get_eq_ok,
    Arithmetic.run_add_eq_ok, run_modify_eq_ok] at h
  obtain ⟨_, _, ⟨hpos, rfl⟩, _, _, ⟨rfl, rfl⟩, ⟨a, remaining⟩, _, hlocked, b, _, hunlocked, _, _,
    rfl, _, _, ⟨rfl, rfl⟩, _, _, ⟨-, rfl, rfl⟩, rfl⟩ := h
  obtain ⟨ha, hremaining, rfl⟩ := rewrites_of_useLocked hlocked
  obtain ⟨hle, hcharge, hb, rfl⟩ := rewrites_of_useUnlocked ha hunlocked
  exact .transferred o r x remaining b x rfl hmethod hpos hremaining hle hcharge hb rfl

/-- **What a successful call does**, in the build with overflow checks. -/
theorem effect_of_checked {c : Call} (h : (call .checked c).run s = .ok () t) : Effect s c t := by
  obtain ⟨p, method⟩ := c
  cases method with
  | setAllowance e x => exact effect_of_setAllowance h
  | lock o x => exact effect_of_lock h
  | unlock o x => exact effect_of_unlock h
  | transferFrom o r x => exact effect_of_transferFrom (.inl rfl) h
  | transfer r x => exact effect_of_transferFrom (.inr ⟨rfl, rfl⟩) h

end Effects

/-! ## Reading a rewritten account -/

section Reading

variable {s : FunToken} {o e p q r : AccountId} {b : Account} {balance allowance locked x : ℕ}

namespace Rewrites

/-- Nothing but the entries of the escrow in the owner's account is rewritten. -/
theorem keeps (h : Rewrites (s.getAccount o) b e balance allowance locked)
    (hne : ¬ (p = o ∧ q = e)) :
    ((s.insertAccount o b).getAccount p).getAllowance q = (s.getAccount p).getAllowance q ∧
      ((s.insertAccount o b).getAccount p).getLockedBalance q =
        (s.getAccount p).getLockedBalance q := by
  by_cases hp : p = o
  · have hq : q ≠ e := fun hq => hne ⟨hp, hq⟩
    rw [hp, FunToken.getAccount_insertAccount]
    exact ⟨h.allowance_other q hq, h.locked_other q hq⟩
  · rw [FunToken.getAccount_insertAccount_of_ne _ _ _ hp]
    exact ⟨rfl, rfl⟩

theorem held {a : Account} (h : Rewrites a b e balance allowance locked) :
    b.held + a.balance + a.getLockedBalance e = a.held + balance + locked := by
  have hlocked := h.lockedTotal
  unfold Account.held
  rw [h.balance_eq]
  omega

end Rewrites

@[simp] theorem credit_totalSupply : (s.credit r x).totalSupply = s.totalSupply := rfl

/-- A credit changes one balance. -/
theorem getAccount_credit :
    (s.credit r x).getAccount p =
      { s.getAccount p with balance := (s.getAccount p).balance + if p = r then x else 0 } := by
  unfold FunToken.credit
  by_cases hp : p = r
  · rw [hp, FunToken.getAccount_insertAccount, if_pos rfl]
  · rw [FunToken.getAccount_insertAccount_of_ne _ _ _ hp, if_neg hp]
    rfl

@[simp] theorem credit_getAllowance :
    ((s.credit r x).getAccount p).getAllowance q = (s.getAccount p).getAllowance q := by
  rw [getAccount_credit]
  rfl

@[simp] theorem credit_getLockedBalance :
    ((s.credit r x).getAccount p).getLockedBalance q = (s.getAccount p).getLockedBalance q := by
  rw [getAccount_credit]
  rfl

theorem held_credit :
    ((s.credit r x).getAccount p).held = (s.getAccount p).held + if p = r then x else 0 := by
  rw [getAccount_credit]
  exact Nat.add_right_comm _ _ _

theorem heldTotal_credit : (s.credit r x).heldTotal = s.heldTotal + x := by
  have htotal := s.heldTotal_insertAccount r
    { s.getAccount r with balance := (s.getAccount r).balance + x }
  have hheld : ({ s.getAccount r with balance := (s.getAccount r).balance + x } : Account).held =
      (s.getAccount r).held + x := Nat.add_right_comm _ _ _
  unfold FunToken.credit
  omega

end Reading

/-! ## Soundness -/

namespace Sound

variable {s t : FunToken} {o e r : AccountId} {b : Account} {balance allowance locked x : ℕ}

/-- The authority of a rewritten escrow, if the owner has not granted itself any. -/
theorem authority_of_rewrites (hs : Sound s)
    (h : Rewrites (s.getAccount o) b e balance allowance locked)
    (hsum : allowance + locked ≤ u128Max) (p q : AccountId) :
    ((s.insertAccount o b).getAccount p).getAllowance q +
      ((s.insertAccount o b).getAccount p).getLockedBalance q ≤ u128Max := by
  by_cases hpq : p = o ∧ q = e
  · obtain ⟨rfl, rfl⟩ := hpq
    rw [FunToken.getAccount_insertAccount, h.allowance_eq, h.locked_eq]
    exact hsum
  · obtain ⟨hallowance, hlocked⟩ := h.keeps hpq
    rw [hallowance, hlocked]
    exact hs.authority p q

theorem own_of_rewrites (hs : Sound s)
    (h : Rewrites (s.getAccount o) b e balance allowance locked) (hown : e = o → allowance = 0)
    (p : AccountId) : ((s.insertAccount o b).getAccount p).getAllowance p = 0 := by
  by_cases hpq : p = o ∧ p = e
  · obtain ⟨rfl, rfl⟩ := hpq
    rw [FunToken.getAccount_insertAccount, h.allowance_eq]
    exact hown rfl
  · rw [(h.keeps hpq).1]
    exact hs.own p

/-- A rewrite that keeps the tokens of the account. -/
theorem of_rewrites (hs : Sound s) (h : Rewrites (s.getAccount o) b e balance allowance locked)
    (hheld : balance + locked = (s.getAccount o).balance + (s.getAccount o).getLockedBalance e)
    (hown : e = o → allowance = 0) (hsum : allowance + locked ≤ u128Max) :
    Sound (s.insertAccount o b) := by
  refine ⟨?_, hs.fits, hs.own_of_rewrites h hown, hs.authority_of_rewrites h hsum⟩
  have htotal := s.heldTotal_insertAccount o b
  have hkept := h.held
  have hsupply := hs.supply
  show (s.insertAccount o b).heldTotal = s.totalSupply
  omega

/-- A rewrite that takes `x` tokens off the account, which are credited. -/
theorem of_credit (hs : Sound s) (h : Rewrites (s.getAccount o) b e balance allowance locked)
    (hheld : balance + locked + x =
      (s.getAccount o).balance + (s.getAccount o).getLockedBalance e)
    (hown : e = o → allowance = 0) (hsum : allowance + locked ≤ u128Max) :
    Sound ((s.insertAccount o b).credit r x) := by
  refine ⟨?_, hs.fits, ?_, ?_⟩
  · have htotal := s.heldTotal_insertAccount o b
    have hkept := h.held
    have hsupply := hs.supply
    rw [heldTotal_credit, credit_totalSupply, FunToken.insertAccount_totalSupply]
    omega
  · intro p
    rw [credit_getAllowance]
    exact hs.own_of_rewrites h hown p
  · intro p q
    rw [credit_getAllowance, credit_getLockedBalance]
    exact hs.authority_of_rewrites h hsum p q

/-- **One call.** A successful call keeps the contract sound. -/
theorem effect (hs : Sound s) {c : Call} (h : Effect s c t) : Sound t := by
  cases h with
  | allowed e x b _ hne hle h ht =>
    have hx := U128.le x
    rw [ht]
    refine hs.of_rewrites h rfl ?_ ?_
    · intro he
      exact absurd he hne
    · omega
  | locked o x b _ _ hle hcharge h ht =>
    have hauthority := hs.authority o c.predecessorId
    have hheld := hs.balance_add_le o c.predecessorId
    have hown : c.predecessorId = o → (s.getAccount o).getAllowance c.predecessorId = 0 := by
      rintro rfl
      exact hs.own _
    rw [ht]
    refine hs.of_rewrites h (by omega) ?_ ?_
    · intro he
      rw [hown he, Nat.zero_sub]
    · by_cases he : c.predecessorId = o
      · have hzero := hown he
        omega
      · have hpaid : charge c.predecessorId o x = x := if_pos he
        omega
  | unlocked o x b _ _ hle h ht =>
    have hauthority := hs.authority o c.predecessorId
    have hcharge := charge_le c.predecessorId o x
    rw [ht]
    refine hs.of_rewrites h (by omega) ?_ (by omega)
    rintro rfl
    rw [charge_self, hs.own]
  | transferred o r x remaining b x' _ _ _ hremaining hle hcharge h ht =>
    have hauthority := hs.authority o c.predecessorId
    rw [ht]
    refine hs.of_credit h (by omega) ?_ (by omega)
    rintro rfl
    rw [hs.own, Nat.zero_sub]

end Sound

/-! ## Nothing wraps -/

section Exactness

variable {s t : FunToken} {p o r : AccountId} {x : U128}

theorem exact_setAllowance (e : AccountId) (s : FunToken) :
    Exact (fun m => setAllowance m p e x) s := by
  refine .require fun _ => ?_
  refine .get ?_
  refine .require ?_
  intro hle
  exact .bind (.sub hle (U128.le x) _) fun _ _ _ => .const _ _

theorem exact_lock (hs : Sound s) : Exact (fun m => lock m p o x) s := by
  refine .require fun _ => ?_
  refine .get ?_
  refine .require ?_
  intro hle
  have hbalance := hs.balance_add_le o p
  have hauthority := hs.authority o p
  refine .bind (.sub hle (by omega) _) ?_
  intro balance _ hsub
  obtain ⟨-, rfl, rfl⟩ := Arithmetic.run_sub_eq_ok.mp hsub
  refine .bind (exact_useAllowance ?_ _) ?_
  · show (s.getAccount o).getAllowance p ≤ u128Max
    omega
  · intro b _ huse
    obtain ⟨-, hb, rfl⟩ :=
      rewrites_of_useAllowance ((Rewrites.refl (s.getAccount o) p).withBalance _) huse
    refine .bind (.add ?_ _) fun _ _ _ => .const _ _
    rw [hb.locked_eq]
    omega

theorem exact_unlock (hs : Sound s) : Exact (fun m => unlock m p o x) s := by
  refine .require fun _ => ?_
  refine .get ?_
  refine .require ?_
  intro hle
  have hbalance := hs.balance_add_le o p
  have hauthority := hs.authority o p
  refine .bind (.sub hle (by omega) _) ?_
  intro rest _ hsub
  obtain ⟨-, rfl, rfl⟩ := Arithmetic.run_sub_eq_ok.mp hsub
  refine .bind (exact_returnAllowance ?_ _) ?_
  · rw [Account.getAllowance_setLockedBalance]
    omega
  · intro b _ hreturn
    obtain ⟨hb, rfl⟩ :=
      rewrites_of_returnAllowance ((Rewrites.refl (s.getAccount o) p).setLockedBalance _) hreturn
    refine .bind (.add ?_ _) fun _ _ _ => .const _ _
    rw [hb.balance_eq]
    omega

theorem exact_transferFrom (hs : Sound s) : Exact (fun m => transferFrom m p o r x) s := by
  refine .require fun _ => ?_
  refine .get ?_
  have hbalance := hs.balance_add_le o p
  have hauthority := hs.authority o p
  refine .bind (exact_useLocked (by omega) (U128.le x) _) ?_
  rintro ⟨a, remaining⟩ _ hlocked
  obtain ⟨ha, hremaining, rfl⟩ := rewrites_of_useLocked hlocked
  refine .bind (exact_useUnlocked ?_ ?_ _) ?_
  · rw [ha.balance_eq]
    omega
  · rw [ha.allowance_eq]
    omega
  · intro b _ hunlocked
    obtain ⟨hle, -, hb, rfl⟩ := rewrites_of_useUnlocked ha hunlocked
    refine .bind (.const _ _) ?_
    intro _ _ hinsert
    obtain rfl := run_modify_eq_ok.mp hinsert
    refine .get ?_
    -- The owner holds the transferred tokens no more: they and those of the new owner are in supply.
    refine .bind (.add ?_ _) fun _ _ _ => .const _ _
    have hkept := hb.held
    have htotal := s.heldTotal_insertAccount o b
    have hnew := (s.insertAccount o b).held_le_heldTotal r
    have hheld : ((s.insertAccount o b).getAccount r).balance ≤
        ((s.insertAccount o b).getAccount r).held := Nat.le_add_right _ _
    have hsupply := hs.supply
    have hfits := hs.fits
    omega

/-- **Nothing wraps.** From a sound state a call does the same in the build with overflow
checks. -/
theorem exact_call (hs : Sound s) (c : Call) : Exact (fun m => call m c) s := by
  obtain ⟨p, method⟩ := c
  cases method with
  | setAllowance e x => exact exact_setAllowance e s
  | lock o x => exact exact_lock hs
  | unlock o x => exact exact_unlock hs
  | transferFrom o r x => exact exact_transferFrom hs
  | transfer r x => exact exact_transferFrom hs

/-- Adding up an account does not wrap either. -/
theorem exact_getTotalBalance (hs : Sound s) (o : AccountId) :
    Exact (fun m => getTotalBalance m o) s := by
  refine .get ?_
  have hheld : (s.getAccount o).balance + (s.getAccount o).lockedTotal ≤ u128Max := hs.held_le o
  have hlocked : (s.getAccount o).lockedValues.sum ≤ u128Max :=
    (Nat.le_add_left _ _).trans hheld
  refine .bind (.sum hlocked _) ?_
  intro locked _ hsum
  rw [Arithmetic.sum_eq _ hlocked] at hsum
  obtain ⟨rfl, rfl⟩ := run_pure_eq_ok.mp hsum
  exact .add hheld _

/-- **What a successful call does**, as the contract is built. -/
theorem effect_of_call (hs : Sound s) {c : Call} (h : (call .wrapping c).run s = .ok () t) :
    Effect s c t := effect_of_checked ((exact_call hs c).symm.trans h)

end Exactness

end UncContracts.LockableToken
