import UncContracts.Voting.Order

/-!
# The voting is exact

Read along a run, the recorded votes are those of the validators whose last vote was for the
unlocking and whose stake has been positive at every refresh since, and the voting ends at the
first call after which the votes hold more than two thirds of the stake.

## Main definitions

* `Supports`: the last vote call of a validator was a vote, and its stake stayed positive
* `Crosses`: the votes hold more than two thirds of the stake after a call
* `Exact`: the votes and the result, read off the calls so far

## Main results

* `exact_run`: the votes and the result are exact after every run
* `voting_exact`: and they depend on no order but that of each account's own calls
-/

namespace UncContracts.Voting

open Foundation VotingContract

section History

variable (validators : ℕ → Validators) (x : Step VotingContract Call)

/-- The validators' stakes in the epoch of a call. -/
abbrev stakesAt : Validators := validators x.label.env.epochHeight

/-- The call is the first in its epoch, where the stakes are read again. -/
def refreshes : Bool := x.label.env.epochHeight ≠ x.before.lastEpochHeight

/-- The call is a vote of a validator, or its withdrawal. -/
def Calls (v : AccountId) (isVote : Bool) : Prop :=
  x.label.method = .vote isVote ∧ x.label.env.predecessorAccountId = v

/-- The refresh of the stakes ended the voting, and the rest of the call was skipped. -/
def CutShort : Prop :=
  ∃ s, x.before.ping x.label.env (stakesAt validators x) = .ok s ∧ s.result ≠ none

/-- The call casts or withdraws the vote of a validator. -/
def Casts (v : AccountId) (isVote : Bool) : Prop := Calls x v isVote ∧ ¬ CutShort validators x

/-- The votes hold more than two thirds of the stake after the call. -/
def Crosses : Prop := (stakesAt validators x).exceeds x.after.totalVotedStake = true

end History

/-- The last vote call of a validator was a vote, and its stake has been positive at every refresh
since. Which calls count is a parameter. -/
def Supports (counts : Step VotingContract Call → AccountId → Bool → Prop)
    (validators : ℕ → Validators) (hist : List (Step VotingContract Call)) (v : AccountId) : Prop :=
  ∃ pre x post, hist = pre ++ x :: post ∧ counts x v true ∧
    (∀ y ∈ post, ∀ isVote, ¬ counts y v isVote) ∧
      ∀ y ∈ post, refreshes y = true → 0 < (stakesAt validators y).stake v

/-- The votes and the result, read off the calls so far. -/
structure Exact (validators : ℕ → Validators) (hist : List (Step VotingContract Call))
    (s : VotingContract) : Prop where
  total : s.totalVotedStake = Map.total id s.votes
  stake : ∀ x ∈ hist.getLast?, ∀ v n, s.votes.lookup v = some n →
    0 < n ∧ n = (stakesAt validators x).stake v
  recorded : ∀ v, v ∈ s.votes ↔ Supports (Casts validators) validators hist v
  ended : s.result = none ↔ ∀ x ∈ hist, ¬ Crosses validators x
  result : ∀ x ∈ hist, Crosses validators x → s.result = some x.label.env.blockTimestamp

section Steps

variable {counts : Step VotingContract Call → AccountId → Bool → Prop} {validators : ℕ → Validators}
  {hist : List (Step VotingContract Call)} {x : Step VotingContract Call} {v : AccountId}

theorem not_supports_nil : ¬ Supports counts validators [] v := by
  rintro ⟨pre, x, post, h, -⟩
  exact List.append_ne_nil_of_right_ne_nil pre (List.cons_ne_nil x post) h.symm

/-- Whom a call leaves as a supporter: who votes with it, or who supported before, does not call
and keeps a stake. -/
theorem supports_append : Supports counts validators (hist ++ [x]) v ↔
    counts x v true ∨ (∀ isVote, ¬ counts x v isVote) ∧ Supports counts validators hist v ∧
      (refreshes x = true → 0 < (stakesAt validators x).stake v) := by
  constructor
  · rintro ⟨pre, y, post, hsplit, hy, hnone, hpos⟩
    rcases List.eq_nil_or_concat post with rfl | ⟨post, z, rfl⟩
    · obtain ⟨-, hlast⟩ := List.append_inj' hsplit rfl
      cases hlast
      exact Or.inl hy
    · rw [List.concat_eq_append] at hnone hpos
      rw [List.concat_eq_append, ← List.cons_append, ← List.append_assoc] at hsplit
      obtain ⟨hinit, hlast⟩ := List.append_inj' hsplit rfl
      cases hlast
      refine Or.inr ⟨?_, ⟨pre, y, post, hinit, hy, ?_, ?_⟩, ?_⟩
      · exact hnone x (List.mem_append_right _ List.mem_cons_self)
      · exact fun z hz => hnone z (List.mem_append_left _ hz)
      · exact fun z hz => hpos z (List.mem_append_left _ hz)
      · exact hpos x (List.mem_append_right _ List.mem_cons_self)
  · rintro (hx | ⟨hx, ⟨pre, y, post, rfl, hy, hnone, hpos⟩, hstake⟩)
    · exact ⟨hist, x, [], rfl, hx, by simp, by simp⟩
    · refine ⟨pre, y, post ++ [x], by simp, hy, ?_, ?_⟩
      · intro z hz
        rcases List.mem_append.mp hz with hz | hz
        · exact hnone z hz
        · cases List.mem_singleton.mp hz
          exact hx
      · intro z hz
        rcases List.mem_append.mp hz with hz | hz
        · exact hpos z hz
        · cases List.mem_singleton.mp hz
          exact hstake

end Steps

section Calls

variable {validators : ℕ → Validators} {s t : VotingContract} {c : Call} {v : AccountId}

/-- A refresh keeps the voters that have a stake. -/
theorem mem_pinged : v ∈ (s.pinged c.env (validators c.env.epochHeight)).votes ↔
    v ∈ s.votes ∧ (refreshes ⟨s, c, t⟩ = true →
      0 < (stakesAt validators ⟨s, c, t⟩).stake v) := by
  unfold VotingContract.pinged
  by_cases hne : c.env.epochHeight ≠ s.lastEpochHeight
  · rw [if_pos hne, ← AList.lookup_isSome, lookup_refreshed]
    simp only [refreshes, hne, ne_eq, not_false_eq_true, decide_true, true_implies]
    split
    · next h => exact ⟨fun _ => h, fun _ => rfl⟩
    · next h => exact ⟨nofun, fun h' => absurd h' h⟩
  · rw [if_neg hne]
    simp only [refreshes, hne, decide_false, Bool.false_eq_true, false_implies, and_true]

/-- The voter of a call has a vote afterwards if it came with a stake. -/
theorem mem_counted {env : Env} {validators : Validators} {accountId : AccountId}
    {accountStake : ℕ} :
    v ∈ (s.counted env validators accountId accountStake).votes ↔
      if v = accountId then 0 < accountStake else v ∈ s.votes := by
  rw [← AList.lookup_isSome, lookup_counted]
  by_cases hv : v = accountId
  · rw [if_pos hv, if_pos hv]
    split
    · next hpos => exact ⟨fun _ => hpos, fun _ => rfl⟩
    · next hpos => exact ⟨nofun, fun h => absurd h hpos⟩
  · rw [if_neg hv, if_neg hv, AList.lookup_isSome]

theorem cutShort_iff (hnone : s.result = none)
    (hfits : s.Fits c.env (validators c.env.epochHeight)) :
    CutShort validators ⟨s, c, t⟩ ↔
      (s.pinged c.env (validators c.env.epochHeight)).result ≠ none := by
  constructor
  · rintro ⟨u, hu, hresult⟩
    obtain ⟨-, -, rfl⟩ := ping_eq_ok.mp hu
    exact hresult
  · intro hresult
    exact ⟨_, ping_eq_ok.mpr ⟨hnone, hfits, rfl⟩, hresult⟩

/-- A call that does not cast the vote of a validator leaves it to the refresh. -/
theorem recorded_of_not_casts {hist : List (Step VotingContract Call)}
    (hcasts : ∀ isVote, ¬ Casts validators ⟨s, c, t⟩ v isVote)
    (hs : v ∈ s.votes ↔ Supports (Casts validators) validators hist v) :
    v ∈ (s.pinged c.env (validators c.env.epochHeight)).votes ↔
      Supports (Casts validators) validators (hist ++ [⟨s, c, t⟩]) v := by
  rw [supports_append, ← hs, mem_pinged]
  constructor
  · intro h
    exact Or.inr ⟨hcasts, h⟩
  · rintro (h | ⟨-, h⟩)
    · exact absurd h (hcasts true)
    · exact h

/-- The votes after a call are those of the supporters. -/
theorem recorded_called {hist : List (Step VotingContract Call)}
    (h : Called (validators c.env.epochHeight) s c t) (hnone : s.result = none)
    (hfits : s.Fits c.env (validators c.env.epochHeight))
    (hs : v ∈ s.votes ↔ Supports (Casts validators) validators hist v) :
    v ∈ t.votes ↔ Supports (Casts validators) validators (hist ++ [⟨s, c, t⟩]) v := by
  cases h with
  | pinged hmethod =>
    refine recorded_of_not_casts ?_ hs
    rintro isVote ⟨⟨hvote, -⟩, -⟩
    cases hmethod.symm.trans hvote
  | ended hmethod hresult =>
    refine recorded_of_not_casts ?_ hs
    rintro isVote ⟨-, hcut⟩
    exact hcut ((cutShort_iff hnone hfits).mpr hresult)
  | @counted isVote hmethod hresult hpos =>
    rw [mem_counted]
    by_cases hv : v = c.env.predecessorAccountId
    · subst hv
      rw [if_pos rfl, supports_append]
      have hcut : ∀ t, ¬ CutShort validators ⟨s, c, t⟩ :=
        fun t h => (cutShort_iff hnone hfits).mp h hresult
      cases isVote with
      | true => exact ⟨fun _ => Or.inl ⟨⟨hmethod, rfl⟩, hcut _⟩, fun _ => hpos rfl⟩
      | false =>
        refine ⟨nofun, ?_⟩
        rintro (⟨⟨hvote, -⟩, -⟩ | ⟨hno, -⟩)
        · cases hmethod.symm.trans hvote
        · exact absurd ⟨⟨hmethod, rfl⟩, hcut _⟩ (hno false)
    · rw [if_neg hv]
      exact recorded_of_not_casts (fun isVote h => hv h.1.2.symm) hs

end Calls

section Run

variable {validators : ℕ → Validators} {s t : VotingContract} {c : Call}
  {hist : List (Step VotingContract Call)}

/-- Every call keeps the voting exact. -/
theorem Exact.step (hs : Exact validators hist s) (hsound : Sound validators s)
    (h : (voting validators).step s c = .ok t) : Exact validators (hist ++ [⟨s, c, t⟩]) t := by
  obtain ⟨hnone, hfits, hcalled⟩ := called_of_step h
  obtain ⟨⟨htallied, hopen⟩, hepoch⟩ := hsound.called hcalled
  rw [hepoch] at htallied hopen
  -- No earlier call crossed the threshold, or the voting would have ended before this one.
  have hearlier := hs.ended.mp hnone
  have hlast : Crosses validators ⟨s, c, t⟩ ↔ t.result ≠ none := by
    rw [Crosses, ← Bool.not_eq_false, ne_eq]
    exact not_congr hopen.symm
  refine ⟨htallied.total, ?_, ?_, ?_, ?_⟩
  · intro x hx
    rw [List.getLast?_concat] at hx
    cases hx
    exact htallied.stake
  · exact fun v => recorded_called hcalled hnone hfits (hs.recorded v)
  · constructor
    · intro hresult x hx
      rcases List.mem_append.mp hx with hx | hx
      · exact hearlier x hx
      · cases List.mem_singleton.mp hx
        exact fun hcross => hlast.mp hcross hresult
    · intro hall
      exact not_not.mp (mt hlast.mpr (hall ⟨s, c, t⟩ (List.mem_append_right _ List.mem_cons_self)))
  · intro x hx hcross
    rcases List.mem_append.mp hx with hx | hx
    · exact absurd hcross (hearlier x hx)
    · cases List.mem_singleton.mp hx
      exact (result_called hcalled hnone).resolve_left (hlast.mp hcross)

theorem exact_new {stateExists : Bool} (hnew : VotingContract.new stateExists = .ok s) :
    Exact validators [] s := by
  simp only [VotingContract.new, bind_eq_ok, ensure_eq_ok, pure_eq_ok] at hnew
  obtain ⟨_, -, rfl⟩ := hnew
  refine ⟨rfl, by simp, ?_, by simp, by simp⟩
  intro v
  exact ⟨fun h => absurd h (AList.notMem_empty v), fun h => absurd h not_supports_nil⟩

/-- The voting is exact after every run. -/
theorem exact_run {stateExists : Bool} (hnew : VotingContract.new stateExists = .ok s)
    (ls : List Call) :
    Exact validators ((voting validators).steps s ls) ((voting validators).run s ls) := by
  refine (Machine.run_induction (P := fun hist s => Exact validators hist s ∧ Sound validators s)
    ⟨exact_new hnew, sound_new hnew⟩ ?_ ls).1
  rintro hist s c t ⟨hexact, hsound⟩ h
  exact ⟨hexact.step hsound h, (hsound.called (called_of_step h).2.2).1⟩

end Run

/-- **The voting is exact.** After every run the votes are those of the validators that last cast
one and kept a stake, at the stakes of the epoch, and the result is the time of the first crossing.
No order of the hash map changes what a run leaves, nor does that of different accounts' calls
within an epoch in which the voting stays open. -/
theorem voting_exact {stateExists : Bool} {s : VotingContract} {validators : ℕ → Validators}
    (hnew : VotingContract.new stateExists = .ok s) (hbelow : ∀ e, Below (2 ^ 126) (validators e)) :
    (∀ ls, Exact validators ((voting validators).steps s ls) ((voting validators).run s ls)) ∧
      (∀ ls t, Shuffled validators s ls t → Same ((voting validators).run s ls) t) ∧
      ∀ pre ls ms e, (∀ c ∈ ls, c.env.epochHeight = e) → (∀ c ∈ ms, c.env.epochHeight = e) →
        (∀ v, callsOf v ls = callsOf v ms) →
        ((voting validators).run s (pre ++ ls)).result = none →
        ((voting validators).run s (pre ++ ms)).result = none →
        Same ((voting validators).run s (pre ++ ls)) ((voting validators).run s (pre ++ ms)) := by
  refine ⟨exact_run hnew, fun ls t h => same_of_shuffled h, ?_⟩
  intro pre ls ms e hls hms hcalls hlsOpen hmsOpen
  rw [Machine.run_append] at hlsOpen hmsOpen ⊢
  rw [Machine.run_append]
  exact run_reordered (hbelow e) ((sound_new hnew).run pre) hls hms hcalls hlsOpen hmsOpen

/-- Three validators, the last of which loses its stake to the first one in the second epoch. -/
def sampleValidators (epochHeight : ℕ) : Validators where
  stake v :=
    if v = "alice" then if epochHeight = 2 then 80 else 50
    else if v = "bob" then 20
    else if v = "carol" ∧ epochHeight ≠ 2 then 30 else 0
  totalStake := 100

def sampleVote (epochHeight : ℕ) (v : AccountId) : Call where
  env :=
    { currentAccountId := "voting", predecessorAccountId := v, signerAccountPk := "pk"
      attachedDeposit := 0, accountBalance := 0, accountLockedBalance := 0, epochHeight
      blockHeight := 0, blockTimestamp := epochHeight, attachedDeposit_le := Nat.zero_le _
      accountBalance_le := Nat.zero_le _, accountLockedBalance_le := Nat.zero_le _ }
  method := .vote true

/-- A voting in which the refresh at the second vote ends the voting. -/
def sampleVoting : VotingContract where
  votes := ∅
  totalVotedStake := 0
  result := none
  lastEpochHeight := 0

theorem below_sampleValidators (e : ℕ) : Below (2 ^ 126) (sampleValidators e) := by
  refine ⟨fun v => ?_, show 100 < 2 ^ 126 by decide⟩
  simp only [sampleValidators]
  split_ifs <;> decide

theorem voting_exact_sampleVoting : Exact sampleValidators
    ((voting sampleValidators).steps sampleVoting [sampleVote 1 "alice", sampleVote 1 "bob"])
    ((voting sampleValidators).run sampleVoting [sampleVote 1 "alice", sampleVote 1 "bob"]) :=
  (voting_exact (rfl : VotingContract.new false = .ok sampleVoting) below_sampleValidators).1 _

/-- The last vote of bob is for the unlocking, but the refresh that comes first in its call ends
the voting, and the vote is not recorded. -/
theorem not_recorded_of_cutShort :
    ¬ ∀ ls v, v ∈ ((voting sampleValidators).run sampleVoting ls).votes ↔
      Supports Calls sampleValidators ((voting sampleValidators).steps sampleVoting ls) v := by
  intro h
  have hfirst : (voting sampleValidators).step sampleVoting (sampleVote 1 "alice") = .ok _ :=
    Machine.step_eq_exec (by decide +kernel)
  have hsecond : (voting sampleValidators).step
      ((voting sampleValidators).exec sampleVoting (sampleVote 1 "alice")) (sampleVote 2 "bob") =
        .ok _ := Machine.step_eq_exec (by decide +kernel)
  have hbob := (h [sampleVote 1 "alice", sampleVote 2 "bob"] "bob").mpr
  rw [Machine.steps_cons_of_ok hfirst, Machine.steps_cons_of_ok hsecond] at hbob
  refine absurd (hbob ⟨[_], _, [], rfl, ⟨rfl, rfl⟩, by simp, by simp⟩) ?_
  decide +kernel

end UncContracts.Voting
