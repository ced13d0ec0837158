import UncContracts.Social.Calls

/-!
# Who pays for the storage

An account uses bytes from its shared pool and pays for the others from its balance. Saving an
account checks this only when bytes are added, and no move breaks it otherwise: what is released is
given back to the pool first, a withdrawal takes no more than is available, and an account that
changes pools keeps its bytes.

The price of bytes is computed with a multiplication that stops at the largest amount of tokens, so
that an account with this balance is covered at any price.

## Main definitions

* `Contract.Covered`: every account pays for what it uses

## Main results

* `Move.covered`: a move keeps every account covered
* `covered_run`: every account is covered in every contract that calls lead to
-/

namespace UncContracts.Social

open Foundation

/-- Every account pays for what it uses. -/
def Contract.Covered (host : Host) (c : Contract) : Prop :=
  ∀ n a, c.accounts.lookup n = some (Account.stored a) → a.Covered host

section Moves

variable {host : Host} {env : Env} {L : String → Prop} {P : SharedStoragePool → Prop}
  {c c' : Contract} {n : NodeId}
  {a account account' : Account} {deposit : ℕ} {transfers : List Transfer}

/-- What is covered depends on the record alone. -/
theorem Account.Covered.congr (h : a.Covered host) (hbalance : a.storageBalance ≤ account.storageBalance)
    (hused : account.usedBytes = a.usedBytes) (hshared : account.sharedUsedBytes = a.sharedUsedBytes)
    (hmax : ∀ s, account.sharedStorage = some s → s.usedBytes ≤ s.maxBytes) :
    account.Covered host := by
  refine ⟨hused ▸ h.used_le_max, ?_, hmax, ?_⟩
  · rw [hshared, hused]
    exact h.shared_le_used
  · rw [hshared, hused]
    exact h.covered.trans hbalance

theorem Account.Covered.of_stored (h : a.stored = account.stored) (hcovered : a.Covered host) :
    account.Covered host := by
  simp only [Account.stored, VAccount.current.injEq, Account.mk.injEq] at h
  obtain ⟨hbalance, hused, -, -, hshared⟩ := h
  refine hcovered.congr hbalance.le hused.symm ?_ ?_
  · rw [Account.sharedUsedBytes, Account.sharedUsedBytes, hshared]
  · intro s hs
    exact hcovered.shared_le_max s (hshared.trans hs)

/-- An account that was covered before a deposit is so after it. -/
theorem Account.Covered.deposited (h : a.Covered host) (deposit : ℕ) :
    saturatingMul (a.usedBytes - a.sharedUsedBytes) host.storageByteCost ≤
      saturatingAdd a.storageBalance deposit := by
  refine le_min (h.covered.trans (Nat.le_add_right _ _)) ?_
  exact Nat.min_le_right _ _

/-- A new account uses nothing. -/
theorem Account.covered_new (host : Host) (n : NodeId) (storageBalance : ℕ)
    (shared : Option AccountSharedStorage) (t : StorageTracker)
    (hshared : ∀ s, shared = some s → s.usedBytes = 0) :
    Account.Covered host { Account.new n with
      storageBalance, sharedStorage := shared, storageTracker := t } := by
  have hzero : (shared.map AccountSharedStorage.usedBytes).getD 0 = 0 := by
    cases shared with
    | none => rfl
    | some s => exact hshared s rfl
  refine ⟨Nat.zero_le _, hzero.le, ?_, ?_⟩
  · intro s hs
    exact (hshared s hs).trans_le (Nat.zero_le _)
  · simp [Account.new, saturatingMul]

/-- Shared storage changes hands with the bytes in use. -/
theorem Shares.usedBytes {pools pools' : Map AccountId SharedStoragePool}
    {o : Option AccountSharedStorage} {s : AccountSharedStorage} (h : Shares host pools o pools' s) :
    s.usedBytes = (o.map AccountSharedStorage.usedBytes).getD 0 ∧ s.usedBytes ≤ s.maxBytes := by
  cases h with
  | first hpool => exact ⟨rfl, Nat.zero_le _⟩
  | more hpool hused hmax => exact ⟨rfl, hused⟩
  | moved hpool hne hcurrent hused => exact ⟨rfl, hused⟩

/-- Saving an account keeps the others covered. -/
theorem Saves.covered_all (h : Saves host c account c' account') (haccount : account.Covered host)
    (hcovered : ∀ m a, m ≠ account.nodeId → c.accounts.lookup m = some (Account.stored a) →
      a.Covered host) : c'.Covered host := by
  intro m a hm
  rw [h.frame] at hm
  by_cases heq : m = account.nodeId
  · subst heq
    rw [AList.lookup_insert, Option.some.injEq] at hm
    exact .of_stored hm (h.covered haccount)
  · rw [AList.lookup_insert_ne heq] at hm
    exact hcovered m a heq hm

/-- **A move keeps every account covered.** -/
theorem Move.covered (h : Move host env L P c c' deposit transfers) (hcovered : c.Covered host) :
    c'.Covered host := by
  cases h with
  | @updated n a a' _ balance c₁ _ t ha hedits hbalance htracker hsaves =>
    have haccounts : c₁.accounts = c.accounts := by rw [hedits.frame]
    have h := hcovered n a ha
    refine hsaves.covered_all ?_ ?_
    · refine ⟨h.used_le_max, h.shared_le_used, h.shared_le_max, ?_⟩
      rcases hbalance with rfl | ⟨-, rfl⟩
      · exact h.deposited deposit
      · exact h.covered
    · intro m b _ hm
      exact hcovered m b (haccounts ▸ hm)
  | created hid hnew hopens hc htracker hsaves =>
    subst hc
    refine hsaves.covered_all (Account.covered_new host _ _ _ _ ?_) ?_
    · intro s hs
      cases hopens with
      | own => cases hs
      | shared hpool =>
        cases hs
        rfl
    · intro m b hm hlookup
      simp only [Contract.opened] at hlookup
      rw [AList.lookup_insert_ne hm] at hlookup
      exact hcovered m b hlookup
  | @withdrawn n a a' amount _ ha hamount hsaves =>
    have h := hcovered n a ha
    refine hsaves.covered_all ?_ fun m b _ hm => hcovered m b hm
    refine ⟨h.used_le_max, h.shared_le_used, h.shared_le_max, ?_⟩
    exact Nat.le_sub_of_add_le (Nat.add_le_of_le_sub' h.covered hamount)
  | returned => exact hcovered
  | pooled hpool hdeposit hpool₁ hc hpool' hP =>
    subst hc
    exact hcovered
  | @shared n a a' s pools c₁ _ t ha hshares hc htracker hsaves =>
    have h := hcovered n a ha
    have hused := hshares.usedBytes
    subst hc
    refine hsaves.covered_all ?_ ?_
    · refine h.congr le_rfl rfl hused.1 ?_
      intro s' hs'
      cases hs'
      exact hused.2
    · intro m b hm hlookup
      rw [AList.lookup_insert_ne (show m ≠ n from hm)] at hlookup
      exact hcovered m b hlookup
  | changed => exact hcovered

theorem Moves.covered (h : Moves host env L P c c' deposit transfers) (hcovered : c.Covered host) :
    c'.Covered host := by
  induction h with
  | refl => exact hcovered
  | tail _ hmove ih => exact hmove.covered ih

end Moves

/-- A contract that calls lead to is sound and covered. -/
theorem sound_covered_run (host : Host) (start : Env) (calls : List Call) :
    ((system host).run (.new start) calls).Sound ∧
      ((system host).run (.new start) calls).Covered host := by
  refine Machine.run_invariant (M := system host) (I := fun c => c.Sound ∧ c.Covered host)
    (G := fun _ _ => True) ?_ (fun _ _ => trivial) ⟨Contract.sound_new start, ?_⟩
  · rintro c call c' ⟨hsound, hcovered⟩ - h
    obtain ⟨transfers, hmoves⟩ := moves_of_step (L := fun _ => True) (P := fun _ => True) hsound
      (fun _ _ => trivial) (fun _ _ => trivial) h
    exact ⟨hmoves.sound hsound, hmoves.covered hcovered⟩
  · intro n a h
    cases h

/-- An account makes a deposit. -/
def sampleDeposit (deposit : ℕ) (h : deposit ≤ u128Max) : Call where
  env := sampleEnv "alice" deposit h
  method := .storageDeposit none none

/-- **Coverage.** Let the price of `u64Max` bytes be an amount of tokens. In every contract that
calls lead to, an account has no more bytes from its pool than it uses and than it may have, and it
pays for the others. -/
theorem covered_run (host : Host) (hcost : u64Max * host.storageByteCost ≤ u128Max) (start : Env)
    (calls : List Call) (n : NodeId) (account : Account)
    (h : ((system host).run (.new start) calls).accountAt n = .ok account) :
    account.sharedUsedBytes ≤ account.usedBytes ∧
      (∀ s, account.sharedStorage = some s → s.usedBytes ≤ s.maxBytes) ∧
      (account.usedBytes - account.sharedUsedBytes) * host.storageByteCost ≤
        account.storageBalance := by
  obtain ⟨hsound, hcovered⟩ := sound_covered_run host start calls
  obtain ⟨r, a, hr, ha, rfl⟩ := accountAt_eq_ok.mp h
  obtain ⟨b, rfl⟩ := hsound.records n r hr
  cases ha
  have hcovered := hcovered n b hr
  refine ⟨hcovered.shared_le_used, hcovered.shared_le_max, ?_⟩
  have hprice : min ((b.usedBytes - b.sharedUsedBytes) * host.storageByteCost) u128Max ≤
      b.storageBalance := hcovered.covered
  -- No account uses more than `u64Max` bytes, so that the product does not stop at the largest
  -- amount of tokens.
  have hused : b.usedBytes - b.sharedUsedBytes ≤ u64Max :=
    (Nat.sub_le _ _).trans hcovered.used_le_max
  have hfits : (b.usedBytes - b.sharedUsedBytes) * host.storageByteCost ≤ u128Max :=
    (Nat.mul_le_mul_right _ hused).trans hcost
  rwa [min_eq_left hfits] at hprice

/-- An account pays 3000 of its 4000 for its records, which take three hundred bytes. -/
theorem covered_run_sampleDeposit :
    let account := { Account.new 1 with storageBalance := 4 * 10 ^ 21, usedBytes := 300 }
    account.sharedUsedBytes ≤ account.usedBytes ∧
      (∀ s, account.sharedStorage = some s → s.usedBytes ≤ s.maxBytes) ∧
      (account.usedBytes - account.sharedUsedBytes) * 10 ^ 19 ≤ account.storageBalance :=
  covered_run sampleHost (by decide) (sampleEnv "social" 0 (by decide))
    [sampleLive, sampleDeposit (4 * 10 ^ 21) (by decide)] 1 _ (by decide +kernel)

end UncContracts.Social
