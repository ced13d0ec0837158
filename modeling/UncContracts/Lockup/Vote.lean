import UncContracts.Lockup.Peer
import UncContracts.Lockup.Progress
import UncContracts.Lockup.Queries
import UncContracts.Voting.Contract

/-!
# Transfers and the vote

The lockup with the voting contract deployed at its transfer poll. A check of the vote is to enable
the transfers once the poll has a result. The check asks the lockup itself, so that transfers that
are disabled at first stay so.

## Main definitions

* `votePeer`: the voting contract as the lockup calls it
* `Checked`: a check of the vote in a run, from the execution of its query to that of its callback
* `FollowsVote`: the transfers are enabled as the vote says, in a run

## Main results

* `transfers_run`: the transfers stay disabled
* `callback_of_checked`: a check ends with the callback that awaited its query
* `followsVote_iff`: the transfers follow the vote where no check is brought to its end with a result
* `not_followsVote`: a check after the vote, in vain
-/

namespace UncContracts.Lockup

open Foundation
open Voting (VotingContract Validators voting)

/-- The voting contract as the lockup calls it. It holds nothing for other accounts. -/
def votePeer (accountId : AccountId) (validators : ℕ → Validators) :
    Peer VotingContract Voting.Call where
  accountId
  machine := voting validators
  env c := c.env
  answer s env method :=
    match method with
    | .getResult => (s, .successful (.pollResult s.getResult), 0)
    | _ => (s, .failed, env.attachedDeposit)
  holds _ _ := 0

/-! ## The transfers of the lockup -/

/-- Whether transfers are enabled, and since when. -/
def World.transfers (w : World) : TransfersInformation :=
  w.contract.lockupInformation.transfersInformation

section Transfers

variable {sha256 : List UInt8 → Hash} {env : Env} {s t : LockupContract} {method : Method}
  {p : Option Promise} {callback : Callback} {result : PromiseResult} {w w' : World} {l : Label}

theorem transfers_called (hcall : Called sha256 env s method t p) :
    t.lockupInformation.transfersInformation = s.lockupInformation.transfersInformation := by
  cases hcall <;> rfl

/-- Only the callback of a check enables the transfers. -/
theorem transfers_resumed (hresume : Resumed s callback result t p)
    (hquery : callback.isQuery = false) :
    t.lockupInformation.transfersInformation = s.lockupInformation.transfersInformation := by
  cases hresume with
  | voted => cases hquery
  | _ => rfl

theorem transfers_step (h : ∀ r ∈ w.receipts, r.Unanswered w.accountId)
    (hstep : (system sha256).step w l = .ok w') : w'.transfers = w.transfers := by
  cases moves_of_step hstep with
  | called hhost hcall htokens => exact transfers_called hcall
  | resumed htake hhost hresume htokens =>
    have hunanswered := h _ ((mem_of_takeAt htake).mpr (.inl rfl))
    exact transfers_resumed hresume (resumed_unanswered hresume hunanswered).1
  | _ => rfl

/-- Transfers are never enabled by a check. -/
theorem transfers_run (env : Env) (s : LockupContract) (held : AccountId → ℕ) (ls : List Label) :
    ((system sha256).run (World.initial env s held) ls).transfers =
      s.lockupInformation.transfersInformation := by
  refine (Machine.run_invariant (M := system sha256)
    (I := fun w => w.transfers = s.lockupInformation.transfersInformation ∧
      ∀ r ∈ w.receipts, r.Unanswered w.accountId) (G := fun _ _ => True) ?_ (fun _ _ => trivial)
    ⟨rfl, by rintro r ⟨⟩⟩).1
  rintro w l w' ⟨htransfers, hunanswered⟩ - hstep
  exact ⟨(transfers_step hunanswered hstep).trans htransfers, unanswered_step hunanswered hstep⟩

end Transfers

/-! ## What the checks are for -/

/-- The receipt at a position is the query of a check. -/
def World.Asks (w : World) (i : ℕ) : Prop :=
  ∃ receiverId attachedDeposit, w.receipts[i]? = some
    (.promise (.functionCall receiverId .getResult attachedDeposit .onGetResultFromTransferPoll))

section Vote

variable (sha256 : List UInt8 → Hash) (poll : AccountId) (validators : ℕ → Validators)
  (c : Composed VotingContract) (ls : List (PeerLabel Voting.Call))

/-- The lockup and the poll after some of the labels. -/
abbrev votedRun : Composed VotingContract := ((votePeer poll validators).system sha256).run c ls

/-- A check of the vote in a run: its query is executed in `before`, and `after` is the state right
after its callback. There may be other checks at the same time. -/
def Checked (before after : Composed VotingContract) : Prop :=
  ∃ pre l post i c', pre ++ l :: post <+: ls ∧ before = votedRun sha256 poll validators c pre ∧
    before.world.Asks i ∧ l.taken = some i ∧
    ((votePeer poll validators).system sha256).step before l = .ok c' ∧
    -- The callback takes the place after the receipts that are left.
    (votePeer poll validators).afterTaking sha256 (before.world.receipts.length - 1) c' post =
      some after

/-- The transfers are enabled as the vote says: only with the result of the poll, for ever, and by
every check whose query is executed once the poll has a result. -/
structure FollowsVote : Prop where
  only : ∀ x ∈ ((votePeer poll validators).system sha256).steps c ls, ∀ pollId timestamp,
    x.before.world.transfers = .transfersDisabled pollId →
    x.after.world.transfers = .transfersEnabled timestamp →
    x.before.peer.getResult = some timestamp
  stays : ∀ x ∈ ((votePeer poll validators).system sha256).steps c ls, ∀ timestamp,
    x.before.world.transfers = .transfersEnabled timestamp →
    x.after.world.transfers = .transfersEnabled timestamp
  checked : ∀ before after, Checked sha256 poll validators c ls before after →
    ∀ timestamp, before.peer.getResult = some timestamp →
    after.world.transfers = .transfersEnabled timestamp

end Vote

section Checks

variable {sha256 : List UInt8 → Hash} {poll : AccountId} {validators : ℕ → Validators}
  {c before after : Composed VotingContract} {ls : List (PeerLabel Voting.Call)}

/-- The execution of a query leaves its callback after the receipts that are left. -/
theorem callback_of_asks {w w' : World} {l : Label} {i : ℕ} (hasks : w.Asks i)
    (htaken : l.taken = some i) (hmoves : Moves sha256 w l w') :
    ∃ result, w'.receipts[w.receipts.length - 1]? =
      some (.callback .onGetResultFromTransferPoll result) := by
  obtain ⟨receiverId, attachedDeposit, hget⟩ := hasks
  have hcall : ∀ {r : Receipt} {rest : List Receipt}, takeAt w.receipts i = some (r, rest) →
      r = .promise (.functionCall receiverId .getResult attachedDeposit
        .onGetResultFromTransferPoll) := by
    intro r rest htake
    exact Option.some.inj ((takeAt_eq_some.mp htake).1.symm.trans hget)
  cases hmoves with
  | @answered _ outcome _ _ _ _ rest htake hself =>
    cases htaken
    cases hcall htake
    have hlength : rest.length = w.receipts.length - 1 := by
      rw [(takeAt_perm htake).length_eq, List.length_cons, Nat.add_sub_cancel]
    refine ⟨outcome.result, ?_⟩
    rw [← hlength, List.getElem?_append_right le_rfl, Nat.sub_self]
    rfl
  | resumed htake | panicked htake | transferred htake | bounced htake | keyAdded htake =>
    cases htaken
    cases hcall htake
  | credited htake hreceipt =>
    cases htaken
    rcases hreceipt with rfl | ⟨callback, rfl⟩ <;> cases hcall htake
  | called | received | holds => cases htaken

theorem moves_of_peer_step {l : PeerLabel Voting.Call} {i : ℕ} (htaken : l.taken = some i)
    (h : ((votePeer poll validators).system sha256).step before l = .ok after) :
    ∃ l' : Label, l'.taken = some i ∧ Moves sha256 before.world l' after.world := by
  cases l with
  | lockup l =>
    simp only [Peer.system, bind_eq_ok, pure_eq_ok] at h
    obtain ⟨_, -, world, hworld, rfl⟩ := h
    exact ⟨l, htaken, moves_of_step hworld⟩
  | answer j env =>
    simp only [Peer.system, bind_eq_ok, pure_eq_ok] at h
    obtain ⟨⟨method, attachedDeposit⟩, -, _, -, world, hworld, rfl⟩ := h
    cases htaken
    exact ⟨_, rfl, moves_of_step hworld⟩
  | peer l => cases htaken

/-- **A check ends with its callback**: the state after it is that of a part of the run, whose last
step executes the callback of the check. -/
theorem callback_of_checked (h : Checked sha256 poll validators c ls before after) :
    ∃ pre l i result, pre ++ [l] <+: ls ∧
      ((votePeer poll validators).system sha256).step (votedRun sha256 poll validators c pre) l =
        .ok after ∧ l.taken = some i ∧
      (votedRun sha256 poll validators c pre).world.receipts[i]? =
        some (.callback .onGetResultFromTransferPoll result) := by
  obtain ⟨pre, l, post, i, c', hprefix, rfl, hasks, htaken, hstep, hafter⟩ := h
  obtain ⟨l', htaken', hmoves⟩ := moves_of_peer_step htaken hstep
  obtain ⟨result, hcallback⟩ := callback_of_asks hasks htaken' hmoves
  obtain ⟨mid, last, k, hmid, hlast, hk, hreceipt⟩ := Peer.afterTaking_eq_some hcallback hafter
  have hrun : votedRun sha256 poll validators c (pre ++ l :: mid) =
      ((votePeer poll validators).system sha256).run c' mid := by
    rw [votedRun, Machine.run_append, Machine.run_cons, Machine.exec_of_ok hstep]
  refine ⟨pre ++ l :: mid, last, k, result, ?_, hrun ▸ hlast, hk, hrun ▸ hreceipt⟩
  refine List.IsPrefix.trans ?_ hprefix
  rw [List.append_assoc, List.cons_append]
  exact List.prefix_append_right_inj pre |>.mpr (List.cons_prefix_cons.mpr ⟨rfl, hmid⟩)

end Checks

/-- **The transfers do not follow the vote.** They stay disabled in every run, so that they follow
the vote in exactly the runs in which no check whose query is executed once the poll has a result
is brought to its end. -/
theorem followsVote_iff (sha256 : List UInt8 → Hash) (env : Env) (s : LockupContract)
    (held : AccountId → ℕ) (poll : AccountId)
    (hdisabled : s.lockupInformation.transfersInformation = .transfersDisabled poll)
    (validators : ℕ → Validators) (peer : VotingContract) (ls : List (PeerLabel Voting.Call)) :
    (votedRun sha256 poll validators ⟨.initial env s held, peer⟩ ls).world.transfers =
        .transfersDisabled poll ∧
      (FollowsVote sha256 poll validators ⟨.initial env s held, peer⟩ ls ↔
        ∀ before after, Checked sha256 poll validators ⟨.initial env s held, peer⟩ ls before after →
          before.peer.getResult = none) := by
  have hrun : ∀ ls, (votedRun sha256 poll validators ⟨.initial env s held, peer⟩ ls).world.transfers =
      .transfersDisabled poll := by
    intro ls
    obtain ⟨ls', hworld⟩ : ∃ ls', (votedRun sha256 poll validators ⟨.initial env s held, peer⟩
        ls).world = (system sha256).run (.initial env s held) ls' := Peer.run_world ls
    rw [hworld, transfers_run, hdisabled]
  have hafter : ∀ pre l c', ((votePeer poll validators).system sha256).step
      (votedRun sha256 poll validators ⟨.initial env s held, peer⟩ pre) l = .ok c' →
      c'.world.transfers = .transfersDisabled poll := by
    intro pre l c' hstep
    have hafter := hrun (pre ++ [l])
    rwa [votedRun, Machine.run_append, Machine.run_cons, Machine.exec_of_ok hstep,
      Machine.run_nil] at hafter
  refine ⟨hrun ls, ?_, ?_⟩
  · intro h before after hchecked
    cases hresult : before.peer.getResult with
    | none => rfl
    | some timestamp =>
      obtain ⟨pre, l, i, result, -, hstep, -⟩ := callback_of_checked hchecked
      cases (hafter pre l after hstep).symm.trans (h.checked before after hchecked timestamp hresult)
  · intro h
    have hsteps : ∀ x ∈ ((votePeer poll validators).system sha256).steps
        ⟨.initial env s held, peer⟩ ls, x.before.world.transfers = .transfersDisabled poll ∧
          x.after.world.transfers = .transfersDisabled poll := by
      intro x hx
      obtain ⟨pre, post, -, hbefore, hstep⟩ := Machine.mem_steps_iff.mp hx
      refine ⟨hbefore ▸ hrun pre, hafter pre x.label x.after ?_⟩
      rwa [votedRun, ← hbefore]
    refine ⟨?_, ?_, ?_⟩
    · intro x hx pollId timestamp _ henabled
      cases (hsteps x hx).2.symm.trans henabled
    · intro x hx timestamp henabled
      cases (hsteps x hx).1.symm.trans henabled
    · intro before after hchecked timestamp hresult
      cases (h before after hchecked).symm.trans hresult

/-! ## Two checks at the same time -/

/-- A lockup that awaits the vote at its transfer poll. -/
def samplePolled : LockupContract :=
  { sampleLockup with lockupInformation := { sampleLockup.lockupInformation with
      transfersInformation := .transfersDisabled "poll" } }

/-- Two validators, one of which has most of the stake. -/
def samplePollValidators (_ : ℕ) : Validators where
  stake v := if v = "alice" then 70 else if v = "bob" then 30 else 0
  totalStake := 100

def samplePoll : VotingContract where
  votes := ∅
  totalVotedStake := 0
  result := none
  lastEpochHeight := 0

/-- The owner checks the vote. -/
def sampleCheck (blockTimestamp : ℕ) : PeerLabel Voting.Call :=
  .lockup (.call (sampleEnv "owner" (MIN_BALANCE_FOR_STORAGE + 4000000) blockTimestamp
    sampleBalance_le) .checkTransfersVote)

/-- The vote ends, and the owner checks it twice. -/
def sampleVoted : List (PeerLabel Voting.Call) :=
  [.peer ⟨{ sampleEnv "alice" 0 7 (Nat.zero_le _) with currentAccountId := "poll" }, .vote true⟩,
    sampleCheck 8, sampleCheck 8]

/-- The first check is executed, and so is its callback, while the second one waits. -/
def sampleChecked : List (PeerLabel Voting.Call) :=
  [.lockup (.deliver 0 ⟨.failed, 0, 0⟩),
    .lockup (.resume 1 (sampleEnv "lockup" (MIN_BALANCE_FOR_STORAGE + 4000000) 9 sampleBalance_le))]

/-- The lockup and the poll at first. -/
def samplePolling : Composed VotingContract :=
  ⟨World.initial (sampleEnv "creator" (MIN_BALANCE_FOR_STORAGE + 4000000) 0 sampleBalance_le)
    samplePolled fun _ => 0, samplePoll⟩

theorem followsVote_iff_samplePolling :
    (votedRun id "poll" samplePollValidators samplePolling (sampleVoted ++ sampleChecked)
        ).world.transfers = .transfersDisabled "poll" ∧
      (FollowsVote id "poll" samplePollValidators samplePolling (sampleVoted ++ sampleChecked) ↔
        ∀ before after, Checked id "poll" samplePollValidators samplePolling
          (sampleVoted ++ sampleChecked) before after → before.peer.getResult = none) :=
  followsVote_iff id _ samplePolled (fun _ => 0) "poll" rfl samplePollValidators samplePoll _

/-- The first check of the sample run is brought to its end. -/
theorem checked_sampleVoted :
    Checked id "poll" samplePollValidators samplePolling (sampleVoted ++ sampleChecked)
      (votedRun id "poll" samplePollValidators samplePolling sampleVoted)
      (votedRun id "poll" samplePollValidators samplePolling (sampleVoted ++ sampleChecked)) := by
  have hquery : ((votePeer "poll" samplePollValidators).system id).step
      (votedRun id "poll" samplePollValidators samplePolling sampleVoted)
      (.lockup (.deliver 0 ⟨.failed, 0, 0⟩)) = .ok _ := Machine.step_eq_exec (by decide +kernel)
  have hcallback : ((votePeer "poll" samplePollValidators).system id).step
      (((votePeer "poll" samplePollValidators).system id).exec
        (votedRun id "poll" samplePollValidators samplePolling sampleVoted)
        (.lockup (.deliver 0 ⟨.failed, 0, 0⟩)))
      (.lockup (.resume 1 (sampleEnv "lockup" (MIN_BALANCE_FOR_STORAGE + 4000000) 9
        sampleBalance_le))) = .ok _ := Machine.step_eq_exec (by decide +kernel)
  have hlength : (votedRun id "poll" samplePollValidators samplePolling sampleVoted
      ).world.receipts.length - 1 = 1 := by decide +kernel
  refine ⟨sampleVoted, _, _, 0, _, List.prefix_refl _, rfl, ⟨"lockup", 0, by decide +kernel⟩, rfl,
    hquery, ?_⟩
  rw [hlength, Peer.afterTaking, hcallback]
  simp [PeerLabel.taken, Label.taken, sampleChecked, Machine.run_append, Machine.run_cons]

/-- The poll has a result before the owner checks it. Once the first of two checks is brought to its
end, the transfers are still disabled. -/
theorem not_followsVote :
    (votedRun id "poll" samplePollValidators samplePolling sampleVoted).peer.getResult = some 7 ∧
      ¬ FollowsVote id "poll" samplePollValidators samplePolling (sampleVoted ++ sampleChecked) := by
  have hresult : (votedRun id "poll" samplePollValidators samplePolling sampleVoted
      ).peer.getResult = some 7 := by decide +kernel
  refine ⟨hresult, ?_⟩
  intro h
  refine absurd (h.checked _ _ checked_sampleVoted 7 hresult) ?_
  decide +kernel

end UncContracts.Lockup
