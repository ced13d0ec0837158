import UncContracts.LockableToken.Ledger

/-!
# The supply of the lockable token

The tokens of all accounts are the supply, in every state that the contract reaches. So no sum of
theirs leaves the words they are stored in, and the build without overflow checks does what the one
with them does. A call that returns an error has written nothing before.

## Main results

* `atomic_call`: an error leaves the contract alone
* `sound_run`: the contract is sound after every run
* `supply_run`: the supply, the words and the errors in every state of a run
-/

namespace UncContracts.LockableToken

open Foundation

/-! ## Errors -/

section Errors

variable {σ : Type} (m : Arithmetic) (e o : AccountId) (a : Account) (n : ℕ)

theorem reads_useAllowance : Reads (useAllowance m e o a n : Method σ Account) :=
  .ite (.bind (.require _) fun _ => .bind (.sub m _ _ _) fun _ => .pure _) (.pure _)

theorem reads_returnAllowance : Reads (returnAllowance m e o a n : Method σ Account) :=
  .ite (.bind (.add m _ _ _) fun _ => .pure _) (.pure _)

theorem reads_useLocked : Reads (useLocked m e a n : Method σ (Account × ℕ)) :=
  .ite (.bind (.sub m _ _ _) fun _ => .pure _) (.bind (.sub m _ _ _) fun _ => .pure _)

theorem reads_useUnlocked : Reads (useUnlocked m e o a n : Method σ Account) :=
  .ite (.bind (.require _) fun _ => .bind (.sub m _ _ _) fun _ => reads_useAllowance m e o _ n)
    (.pure _)

/-- The account of the owner is written once, when nothing can fail any more but the sum of the new
owner, which wraps. -/
theorem atomic_transferFrom (p o r : AccountId) (x : U128) :
    Atomic (transferFrom .wrapping p o r x) := by
  apply Atomic.bind (.require _)
  intro _
  apply Atomic.bind .get
  intro ft
  apply Atomic.bind (reads_useLocked _ _ _ _)
  rintro ⟨account, remaining⟩
  apply Atomic.bind (reads_useUnlocked _ _ _ _ _)
  intro account
  apply Atomic.of_returns
  exact .bind (.write _) fun _ => .bind .get fun _ => .bind (.add _ _ _) fun _ => .write _

/-- **Errors leave the contract alone.** -/
theorem atomic_call (c : Call) : Atomic (call .wrapping c) := by
  obtain ⟨p, method⟩ := c
  cases method with
  | setAllowance e x =>
    apply Atomic.bind (.require _)
    intro _
    apply Atomic.bind .get
    intro ft
    apply Atomic.bind (.require _)
    intro _
    -- The subtraction that is left cannot fail, since it wraps.
    exact .of_returns (.bind (.pure _) fun _ => .write _)
  | lock o x =>
    apply Atomic.bind (.require _)
    intro _
    apply Atomic.bind .get
    intro ft
    apply Atomic.bind (.require _)
    intro _
    apply Atomic.bind (.sub _ _ _ _)
    intro balance
    apply Atomic.bind (reads_useAllowance _ _ _ _ _)
    intro account
    exact .of_returns (.bind (.add _ _ _) fun _ => .write _)
  | unlock o x =>
    apply Atomic.bind (.require _)
    intro _
    apply Atomic.bind .get
    intro ft
    apply Atomic.bind (.require _)
    intro _
    apply Atomic.bind (.sub _ _ _ _)
    intro rest
    apply Atomic.bind (reads_returnAllowance _ _ _ _ _)
    intro account
    exact .of_returns (.bind (.add _ _ _) fun _ => .write _)
  | transferFrom o r x => exact atomic_transferFrom p o r x
  | transfer r x => exact atomic_transferFrom p p r x

end Errors

/-! ## Runs -/

section Runs

variable {s : FunToken} {c : Call}

/-- A call has its effect, or it leaves the contract alone. -/
theorem exec_cases (hs : Sound s) (c : Call) :
    Succeeds s c ∧ Effect s c (token.exec s c) ∨ ¬ Succeeds s c ∧ token.exec s c = s := by
  have hexec : token.exec s c = stateOf ((call .wrapping c).run s) := rfl
  rw [hexec]
  cases hrun : (call .wrapping c).run s with
  | ok u t => exact .inl ⟨⟨t, hrun⟩, effect_of_call hs hrun⟩
  | error e t =>
    refine .inr ⟨?_, atomic_call c s e t hrun⟩
    rintro ⟨u, hu⟩
    rw [hrun] at hu
    cases hu

theorem Sound.exec (hs : Sound s) (c : Call) : Sound (token.exec s c) := by
  rcases exec_cases hs c with ⟨-, heffect⟩ | ⟨-, hkept⟩
  · exact hs.effect heffect
  · rw [hkept]
    exact hs

theorem Sound.run (hs : Sound s) (calls : List Call) : Sound (token.run s calls) := by
  induction calls generalizing s with
  | nil => exact hs
  | cons c calls ih => exact ih (hs.exec c)

theorem sound_new (owner : AccountId) (supply : U128) : Sound (FunToken.new owner supply) := by
  refine ⟨?_, U128.le supply, ?_, ?_⟩
  · have htotal : (FunToken.new owner supply).heldTotal + 0 = 0 + ((supply : ℕ) + 0) :=
      (⟨∅, supply⟩ : FunToken).heldTotal_insertAccount owner
        { (default : Account) with balance := supply }
    show (FunToken.new owner supply).heldTotal = supply
    omega
  · intro o
    by_cases ho : o = owner
    · rw [ho, FunToken.new, FunToken.getAccount_insertAccount]
      rfl
    · rw [FunToken.new, FunToken.getAccount_insertAccount_of_ne _ _ _ ho]
      rfl
  · intro o e
    by_cases ho : o = owner
    · rw [ho, FunToken.new, FunToken.getAccount_insertAccount]
      exact Nat.zero_le _
    · rw [FunToken.new, FunToken.getAccount_insertAccount_of_ne _ _ _ ho]
      exact Nat.zero_le _

theorem sound_run (owner : AccountId) (supply : U128) (calls : List Call) :
    Sound (token.run (FunToken.new owner supply) calls) := (sound_new owner supply).run calls

end Runs

/-- **Supply and arithmetic.** In every state that the contract reaches from its initialization, the
unlocked and locked balances of all accounts sum up to the total supply, the allowance and the locked
balance of every escrow fit in a `u128`, no call and no view wraps (each does what it does in the
build with overflow checks, where a wrap would be an error), and a call that returns an error leaves
the whole state alone. -/
theorem supply_run (owner : AccountId) (supply : U128) (calls : List Call) :
    Map.total (fun a : Account => a.balance + a.lockedTotal)
        (token.run (FunToken.new owner supply) calls).accounts =
      (token.run (FunToken.new owner supply) calls).totalSupply ∧
    (∀ o e, ((token.run (FunToken.new owner supply) calls).getAccount o).getAllowance e +
      ((token.run (FunToken.new owner supply) calls).getAccount o).getLockedBalance e ≤ u128Max) ∧
    (∀ c, (call .wrapping c).run (token.run (FunToken.new owner supply) calls) =
      (call .checked c).run (token.run (FunToken.new owner supply) calls)) ∧
    (∀ o, (getTotalBalance .wrapping o).run (token.run (FunToken.new owner supply) calls) =
      (getTotalBalance .checked o).run (token.run (FunToken.new owner supply) calls)) ∧
    ∀ c e t, (call .wrapping c).run (token.run (FunToken.new owner supply) calls) = .error e t →
      t = token.run (FunToken.new owner supply) calls := by
  have hs := sound_run owner supply calls
  refine ⟨hs.supply, hs.authority, ?_, ?_, ?_⟩
  · intro c
    exact exact_call hs c
  · intro o
    exact exact_getTotalBalance hs o
  · intro c e t h
    exact atomic_call c _ e t h

/-- Bob locks what Carol granted him, then a lock of Alice fails and leaves the state alone. -/
def sampleCalls : List Call :=
  [⟨"carol", .setAllowance "bob" 600⟩, ⟨"bob", .lock "carol" 300⟩]

theorem supply_run_sampleCalls :
    stateOf ((call .wrapping ⟨"alice", .lock "carol" 3⟩).run
        (token.run (FunToken.new "carol" 1000) sampleCalls)) =
      token.run (FunToken.new "carol" 1000) sampleCalls :=
  (supply_run "carol" 1000 sampleCalls).2.2.2.2 ⟨"alice", .lock "carol" 3⟩ "Not enough allowance"
    (stateOf ((call .wrapping ⟨"alice", .lock "carol" 3⟩).run
      (token.run (FunToken.new "carol" 1000) sampleCalls))) (by rfl)

end UncContracts.LockableToken
