import UncContracts.Social.Unreachable

/-!
# Storage in every run

With a host that charges for records, the bytes in use by the accounts and the records of the pools
are the storage that a run has taken, to the byte. What is released was in use before, so that no
call finds its accounting wrong.

## Main definitions

* `Contract.Tracked`: what is kept about the storage of a state

## Main results

* `storage_run`: the storage of every run
-/

namespace UncContracts.Social

open Foundation

/-- The storage of a state is accounted for, and enough of it to each account. -/
structure Contract.Tracked (layout : Layout) (c : Contract) : Prop where
  sound : c.Sound
  exact : c.Exact layout
  backed : c.Backed layout
  balanced : c.Balanced layout

section Tracking

variable {layout : Layout} {cost : ℕ} {env : Env} {L : String → Prop} {P : SharedStoragePool → Prop}
  {c c' : Contract} {deposit : ℕ} {transfers : List Transfer}

theorem Layout.usage_new (layout : Layout) (start : Env) : layout.usage (.new start) = layout.state := by
  simp [Layout.usage, Contract.new]

theorem tracked_new (layout : Layout) (start : Env) : (Contract.new start).Tracked layout := by
  refine ⟨Contract.sound_new start, ?_, ?_, Contract.balanced_new layout start⟩
  · rw [Contract.Exact, Layout.usage_new]
    rfl
  · rintro n r ⟨⟩

theorem Move.tracked (h : Move (layout.host cost) env L P c c' deposit transfers)
    (hc : c.Tracked layout) : c'.Tracked layout :=
  ⟨h.sound hc.sound, h.exact hc.exact hc.sound, h.backed hc.backed hc.sound,
    h.balanced hc.balanced hc.sound⟩

/-- What is tracked is enough for the accounting of every call. -/
theorem keeps_tracked (layout : Layout) (cost : ℕ) : Keeps (· = ACCOUNTING_BUG) (layout.host cost)
    (fun _ => True) (fun _ => True) (Contract.Tracked layout) := by
  refine ⟨?_, ?_, ?_, ?_⟩
  · rintro msg rfl
    decide
  · intro c h
    refine ⟨h.sound, ?_, ?_, fun _ n a s => h.balanced.shares, fun _ => h.backed.windows h.sound, ?_⟩
    · exact fun hmsg => absurd hmsg (by decide)
    · exact fun hmsg => absurd hmsg (by decide)
    · exact fun hmsg => absurd hmsg (by decide)
  · exact fun env c c' deposit transfers hmove h => hmove.tracked h
  · exact fun hmsg => absurd hmsg (by decide)

end Tracking

theorem tracked_run (layout : Layout) (cost : ℕ) (start : Env) (calls : List Call) :
    ((system (layout.host cost)).run (.new start) calls).Tracked layout := by
  refine Machine.run_invariant (M := system (layout.host cost)) (G := fun _ _ => True) ?_
    (fun _ _ => trivial) (tracked_new layout start)
  intro c call c' hc _ hstep
  obtain ⟨transfers, hmoves⟩ := moves_of_step hc.sound (fun _ _ => trivial) (fun _ _ => trivial) hstep
  exact (keeps_tracked layout cost).moves hmoves hc

/-- **Storage.** In every contract that calls lead to, the storage taken since the new contract is
what the accounts have in use and the records of the pools, for which the pools are charged. No call
finds its accounting wrong. -/
theorem storage_run (layout : Layout) (cost : ℕ) (start : Env) (calls : List Call) :
    let c := (system (layout.host cost)).run (.new start) calls
    layout.usage c = layout.usage (.new start) + c.accounts.total VAccount.usedBytes +
        c.sharedStoragePools.keyTotal layout.pool ∧
      (∀ id pool, c.sharedStoragePools.lookup id = some pool →
        pool.usedBytes = layout.pool id + c.bytesFrom AccountSharedStorage.usedBytes id) ∧
      ∀ env method, c.call (layout.host cost) env method ≠ .error ACCOUNTING_BUG := by
  intro c
  have h : c.Tracked layout := tracked_run layout cost start calls
  refine ⟨?_, ?_, ?_⟩
  · rw [Layout.usage_new]
    exact h.exact
  · intro id pool hpool
    have hused := h.balanced.used id
    rw [if_pos (mem_pools_of_lookup hpool), poolAt_of_lookup hpool] at hused
    exact hused
  · intro env method herror
    exact call_avoids (keeps_tracked layout cost) h (fun _ _ => trivial) _ herror rfl

end UncContracts.Social
