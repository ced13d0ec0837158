import UncContracts.Lockup.System

/-!
# The lockup with another contract

A contract deployed at one of the accounts that the lockup calls. What the lockup asks of that
account is answered by the contract, which other accounts call as well. Everything else may happen
to the lockup as before.

## Main definitions

* `Peer`: a contract that answers the calls of the lockup
* `Composed`, `PeerLabel`, `Peer.system`: the lockup and the contract as a machine
* `Peer.afterTaking`: the state after a receipt in flight is executed, in a run

## Main results

* `Peer.step_world`: a step of both is a step of the lockup in its environment
* `Peer.run_world`: a run of both is a run of the lockup in its environment
* `Peer.afterTaking_eq_some`: the receipt that is followed through a run is the one that is executed
-/

namespace UncContracts.Lockup

open Foundation

/-- A contract with states `σ` and calls `ι`. -/
structure Peer (σ ι : Type) where
  /-- The account at which it is deployed. -/
  accountId : AccountId
  machine : Machine σ ι String
  /-- The environment of a call. -/
  env : ι → Env
  /-- What it does when a call of the lockup is executed: its next state, the result, and the
  tokens that it sends back. -/
  answer : σ → Env → ExternalMethod → σ × PromiseResult × ℕ
  /-- The tokens that it holds for an account. -/
  holds : σ → AccountId → ℕ

/-- The lockup in its environment, and the state of the other contract. -/
structure Composed (σ : Type) where
  world : World
  peer : σ

/-- What may happen next to either of them. -/
inductive PeerLabel (ι : Type)
  | lockup (l : Label)
  /-- The execution of a call of the lockup at the other contract. -/
  | answer (i : ℕ) (env : Env)
  /-- A call of the other contract by another account. -/
  | peer (l : ι)

/-- The call at an account that a receipt in flight makes, with its deposit. -/
def World.callAt (w : World) (accountId : AccountId) (i : ℕ) : Option (ExternalMethod × ℕ) :=
  match w.receipts[i]? with
  | some (.promise (.functionCall receiverId method attachedDeposit _)) =>
    if receiverId = accountId ∧ receiverId ≠ w.accountId then some (method, attachedDeposit)
    else none
  | _ => none

/-- The label is not about what an account does. -/
def World.Leaves (w : World) (accountId : AccountId) : Label → Prop
  | .deliver i _ => w.callAt accountId i = none
  | .hold holder _ => holder ≠ accountId
  | _ => True

instance (w : World) (accountId : AccountId) : (l : Label) → Decidable (w.Leaves accountId l)
  | .deliver i _ => inferInstanceAs (Decidable (w.callAt accountId i = none))
  | .hold holder _ => inferInstanceAs (Decidable (holder ≠ accountId))
  | .call _ _ | .resume _ _ | .receive _ => .isTrue trivial

/-- The position of the receipt that is executed. -/
def Label.taken : Label → Option ℕ
  | .deliver i _ | .resume i _ => some i
  | .call _ _ | .receive _ | .hold _ _ => none

def PeerLabel.taken {ι : Type} : PeerLabel ι → Option ℕ
  | .lockup l => l.taken
  | .answer i _ => some i
  | .peer _ => none

namespace Peer

variable {σ ι : Type} (P : Peer σ ι)

/-- What the other contract does to a call of the lockup, as the lockup sees it. -/
def outcome (me : AccountId) (s : σ) (env : Env) (method : ExternalMethod) : Outcome where
  result := (P.answer s env method).2.1
  held := P.holds (P.answer s env method).1 me
  sent := (P.answer s env method).2.2

/-- The lockup and the other contract as a machine. -/
def system (sha256 : List UInt8 → Hash) : Machine (Composed σ) (PeerLabel ι) String where
  step c l :=
    match l with
    | .lockup l => do
      ensure (c.world.Leaves P.accountId l) "The receipt is for the other contract"
      let world ← (Lockup.system sha256).step c.world l
      return { c with world }
    | .answer i env => do
      let (method, attachedDeposit) ← expect (c.world.callAt P.accountId i) "No such call"
      ensure (env.currentAccountId = P.accountId ∧
        env.predecessorAccountId = c.world.accountId ∧ env.attachedDeposit = attachedDeposit)
        "The receipt is from the lockup"
      let world ← (Lockup.system sha256).step c.world
        (.deliver i (P.outcome c.world.accountId c.peer env method))
      return { world, peer := (P.answer c.peer env method).1 }
    | .peer l => do
      ensure ((P.env l).currentAccountId = P.accountId) "The receipt is for another account"
      ensure ((P.env l).predecessorAccountId ≠ c.world.accountId) "The lockup calls by its receipts"
      let peer ← P.machine.step c.peer l
      let world ← (Lockup.system sha256).step c.world
        (.hold P.accountId (P.holds peer c.world.accountId))
      return { world, peer }

/-- The state after the receipt at the position `j` is executed, if a run comes to execute it. The
receipt is followed through the steps before. -/
def afterTaking (sha256 : List UInt8 → Hash) (j : ℕ) (c : Composed σ) :
    List (PeerLabel ι) → Option (Composed σ)
  | [] => none
  | l :: ls =>
    match (P.system sha256).step c l with
    | .error _ => afterTaking sha256 j c ls
    | .ok c' =>
      match l.taken with
      | none => afterTaking sha256 j c' ls
      | some i => if i = j then some c' else afterTaking sha256 (shift i j) c' ls

variable {P} {sha256 : List UInt8 → Hash} {c c' : Composed σ}

/-- A step of both is a step of the lockup in its environment. -/
theorem step_world {l : PeerLabel ι} (h : (P.system sha256).step c l = .ok c') :
    ∃ l', (Lockup.system sha256).step c.world l' = .ok c'.world := by
  cases l with
  | lockup l =>
    simp only [system, bind_eq_ok, pure_eq_ok] at h
    obtain ⟨_, -, world, hworld, rfl⟩ := h
    exact ⟨l, hworld⟩
  | answer i env =>
    simp only [system, bind_eq_ok, pure_eq_ok] at h
    obtain ⟨⟨method, attachedDeposit⟩, -, _, -, world, hworld, rfl⟩ := h
    exact ⟨_, hworld⟩
  | peer l =>
    simp only [system, bind_eq_ok, pure_eq_ok] at h
    obtain ⟨_, -, _, -, peer, -, world, hworld, rfl⟩ := h
    exact ⟨_, hworld⟩

/-- A run of both is a run of the lockup in its environment. -/
theorem run_world (ls : List (PeerLabel ι)) :
    ∃ ls', ((P.system sha256).run c ls).world = (Lockup.system sha256).run c.world ls' := by
  induction ls generalizing c with
  | nil => exact ⟨[], rfl⟩
  | cons l ls ih =>
    obtain ⟨ls', hls⟩ := ih (c := (P.system sha256).exec c l)
    rw [Machine.run_cons, hls]
    cases h : (P.system sha256).step c l with
    | ok c' =>
      obtain ⟨l', hl⟩ := step_world h
      refine ⟨l' :: ls', ?_⟩
      rw [Machine.exec_of_ok h, Machine.run_cons, Machine.exec_of_ok hl]
    | error e => exact ⟨ls', by rw [Machine.exec_of_error h]⟩

/-- A step of the lockup that is not about the other contract. -/
theorem step_of_lockup {l : Label} {w : World} (hleaves : c.world.Leaves P.accountId l)
    (h : (Lockup.system sha256).step c.world l = .ok w) :
    (P.system sha256).step c (.lockup l) = .ok { c with world := w } := by
  simp only [system, bind_eq_ok, ensure_eq_ok, pure_eq_ok]
  exact ⟨(), hleaves, w, h, rfl⟩

/-! ## Following a receipt -/

/-- A step leaves the receipts that it does not execute, and adds others after them. -/
theorem receipts_of_moves {w w' : World} {l : Label} (h : Moves sha256 w l w') :
    ∃ rest new, w'.receipts = rest ++ new ∧
      l.taken.elim (rest = w.receipts) fun i => ∃ r, takeAt w.receipts i = some (r, rest) := by
  cases h with
  | called hhost hcall htokens => exact ⟨_, _, rfl, rfl⟩
  | resumed htake hhost hresume htokens => exact ⟨_, _, rfl, _, htake⟩
  | panicked htake hhost hself hpanic => exact ⟨_, [], (List.append_nil _).symm, _, htake⟩
  | answered htake hself => exact ⟨_, _, rfl, _, htake⟩
  | transferred htake hsuccess => exact ⟨_, _, rfl, _, htake⟩
  | bounced htake hfailure => exact ⟨_, _, rfl, _, htake⟩
  | keyAdded htake => exact ⟨_, [], (List.append_nil _).symm, _, htake⟩
  | credited htake hreceipt => exact ⟨_, [], (List.append_nil _).symm, _, htake⟩
  | received => exact ⟨_, [], (List.append_nil _).symm, rfl⟩
  | holds => exact ⟨_, [], (List.append_nil _).symm, rfl⟩

theorem receipts_of_step {l : PeerLabel ι} (h : (P.system sha256).step c l = .ok c') :
    ∃ rest new, c'.world.receipts = rest ++ new ∧
      l.taken.elim (rest = c.world.receipts) fun i =>
        ∃ r, takeAt c.world.receipts i = some (r, rest) := by
  cases l with
  | lockup l =>
    simp only [system, bind_eq_ok, pure_eq_ok] at h
    obtain ⟨_, -, world, hworld, rfl⟩ := h
    exact receipts_of_moves (moves_of_step hworld)
  | answer i env =>
    simp only [system, bind_eq_ok, pure_eq_ok] at h
    obtain ⟨⟨method, attachedDeposit⟩, -, _, -, world, hworld, rfl⟩ := h
    exact receipts_of_moves (moves_of_step hworld)
  | peer l =>
    simp only [system, bind_eq_ok, pure_eq_ok] at h
    obtain ⟨_, -, _, -, peer, -, world, hworld, rfl⟩ := h
    exact receipts_of_moves (moves_of_step hworld)

/-- **A receipt that is followed** through a run is the one that is executed at last. -/
theorem afterTaking_eq_some {j : ℕ} {r : Receipt} {ls : List (PeerLabel ι)}
    (hr : c.world.receipts[j]? = some r) (h : P.afterTaking sha256 j c ls = some c') :
    ∃ pre l i, pre ++ [l] <+: ls ∧
      (P.system sha256).step ((P.system sha256).run c pre) l = .ok c' ∧ l.taken = some i ∧
      ((P.system sha256).run c pre).world.receipts[i]? = some r := by
  induction ls generalizing j c with
  | nil => cases h
  | cons l ls ih =>
    rw [afterTaking] at h
    cases hstep : (P.system sha256).step c l with
    | error e =>
      rw [hstep] at h
      obtain ⟨pre, l', i, hpre, hrest⟩ := ih hr h
      refine ⟨l :: pre, l', i, List.cons_prefix_cons.mpr ⟨rfl, hpre⟩, ?_⟩
      rwa [Machine.run_cons, Machine.exec_of_error hstep]
    | ok c₁ =>
      rw [hstep] at h
      obtain ⟨rest, new, hreceipts, htaken⟩ := receipts_of_step hstep
      -- What is not executed by this step is at its position after it.
      have hlater : ∀ {k : ℕ}, rest[k]? = some r → P.afterTaking sha256 k c₁ ls = some c' →
          ∃ pre l' i, pre ++ [l'] <+: l :: ls ∧
            (P.system sha256).step ((P.system sha256).run c pre) l' = .ok c' ∧ l'.taken = some i ∧
            ((P.system sha256).run c pre).world.receipts[i]? = some r := by
        intro k hk h
        have hr₁ : c₁.world.receipts[k]? = some r := by
          rw [hreceipts, List.getElem?_append_left (List.getElem?_eq_some_iff.mp hk).1, hk]
        obtain ⟨pre, l', i, hpre, hrun⟩ := ih hr₁ h
        refine ⟨l :: pre, l', i, List.cons_prefix_cons.mpr ⟨rfl, hpre⟩, ?_⟩
        rwa [Machine.run_cons, Machine.exec_of_ok hstep]
      cases hl : l.taken with
      | none =>
        rw [hl] at h htaken
        exact hlater (htaken ▸ hr) h
      | some i =>
        rw [hl] at h htaken
        obtain ⟨taken, htake⟩ := htaken
        dsimp only at h
        split at h
        · next heq =>
          cases h
          exact ⟨[], l, i, ⟨ls, rfl⟩, hstep, hl, heq ▸ hr⟩
        · next hne => exact hlater ((getElem?_shift htake hne).trans hr) h

end Peer

end UncContracts.Lockup
