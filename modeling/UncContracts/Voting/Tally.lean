import UncContracts.Voting.Contract

/-!
# The tally of the votes

The total voted stake is maintained next to the votes. It is the sum of the votes, each of which is
the positive stake of its validator in the epoch of the last call, and the voting is open as long as
the votes hold at most two thirds of the total stake.

## Main definitions

* `Validators.exceeds`: a voted stake is more than two thirds of the total one
* `Tallied`: the total is that of the votes, and the votes are stakes
* `Called`: the effects of an accepted call
* `Open`: the voting is open below the threshold

## Main results

* `foldlM_recount`: the refresh of the votes, in whatever order they are enumerated
* `called_of_step`: every accepted call has one of the effects
* `Tallied.called`, `open_called`: every call keeps the tally and compares with the threshold
-/

namespace UncContracts.Voting

open Foundation VotingContract

/-- The voted stake is more than two thirds of the total stake. -/
def Validators.exceeds (validators : Validators) (votedStake : ℕ) : Bool :=
  2 * validators.totalStake < 3 * votedStake

/-- The threshold that the contract compares with, rounded down. -/
theorem exceeds_iff {validators : Validators} {votedStake : ℕ} :
    validators.exceeds votedStake = true ↔ 2 * validators.totalStake / 3 < votedStake := by
  simp only [Validators.exceeds, decide_eq_true_eq]
  omega

/-- The total voted stake is the sum of the votes, and each vote is the positive stake of its
validator. -/
structure Tallied (validators : Validators) (s : VotingContract) : Prop where
  total : s.totalVotedStake = Map.total id s.votes
  stake : ∀ v n, s.votes.lookup v = some n → 0 < n ∧ n = validators.stake v

/-! ## The refresh of the votes -/

/-- The votes of accounts at their stakes, where they have one, next to those of a map. -/
def recounted (validators : Validators) (accountIds : List AccountId) (votes : Map AccountId ℕ) :
    Map AccountId ℕ :=
  accountIds.foldl (fun votes accountId => if 0 < validators.stake accountId
    then votes.insert accountId (validators.stake accountId) else votes) votes

section Refresh

variable {validators : Validators} {accountIds : List AccountId} {s t : VotingContract} {env : Env}

/-- The stakes are added up, and no order of the accounts avoids an overflow. -/
theorem foldlM_recount (s : VotingContract) (h : s.totalVotedStake ≤ u128Max) :
    accountIds.foldlM (fun s accountId => s.recount validators accountId) s =
      if s.totalVotedStake + (accountIds.map validators.stake).sum ≤ u128Max then
        .ok { s with
          totalVotedStake := s.totalVotedStake + (accountIds.map validators.stake).sum
          votes := recounted validators accountIds s.votes }
      else .error "attempt to add with overflow" := by
  induction accountIds generalizing s with
  | nil =>
    rw [List.map_nil, List.sum_nil, Nat.add_zero, if_pos h]
    rfl
  | cons accountId accountIds ih =>
    rw [List.foldlM_cons, recount, checkedAdd, List.map_cons, List.sum_cons]
    by_cases hle : s.totalVotedStake + validators.stake accountId ≤ u128Max
    · rw [if_pos hle]
      refine (ih _ hle).trans ?_
      simp only [Nat.add_assoc]
      rfl
    · have hover : ¬ s.totalVotedStake +
          (validators.stake accountId + (accountIds.map validators.stake).sum) ≤ u128Max :=
        fun h => hle (le_trans (Nat.add_le_add_left (Nat.le_add_right _ _) _) h)
      rw [if_neg hle, if_neg hover]
      rfl

/-- An account has a vote at its stake, or the one it had. -/
theorem lookup_recounted {votes : Map AccountId ℕ} {v : AccountId} :
    (recounted validators accountIds votes).lookup v =
      if v ∈ accountIds ∧ 0 < validators.stake v then some (validators.stake v)
      else votes.lookup v := by
  induction accountIds generalizing votes with
  | nil => simp [recounted]
  | cons accountId accountIds ih =>
    refine (ih).trans ?_
    by_cases hv : v = accountId
    · subst hv
      by_cases hpos : 0 < validators.stake v
      · simp [hpos, AList.lookup_insert]
      · simp [hpos]
    · by_cases hpos : 0 < validators.stake accountId
      · simp [hpos, AList.lookup_insert_ne hv, hv]
      · simp [hpos, hv]

/-- The votes of distinct new accounts add up. -/
theorem total_recounted {votes : Map AccountId ℕ} (hnodup : accountIds.Nodup)
    (hnew : ∀ v ∈ accountIds, votes.lookup v = none) :
    Map.total id (recounted validators accountIds votes) =
      Map.total id votes + (accountIds.map validators.stake).sum := by
  induction accountIds generalizing votes with
  | nil => rfl
  | cons accountId accountIds ih =>
    obtain ⟨hnotMem, hnodup⟩ := List.nodup_cons.mp hnodup
    rw [List.map_cons, List.sum_cons, ← Nat.add_assoc]
    refine (ih hnodup ?_).trans (congrArg (· + _) ?_)
    · intro v hv
      have hne : v ≠ accountId := fun heq => hnotMem (heq ▸ hv)
      have hnone := hnew v (List.mem_cons_of_mem _ hv)
      by_cases hpos : 0 < validators.stake accountId
      · simp only [if_pos hpos]
        exact (AList.lookup_insert_ne hne).trans hnone
      · simp only [if_neg hpos]
        exact hnone
    · by_cases hpos : 0 < validators.stake accountId
      · have htotal := Map.total_insert id votes accountId (validators.stake accountId)
        rw [Map.amount_of_lookup_none (hnew _ List.mem_cons_self)] at htotal
        simp only [if_pos hpos]
        exact htotal
      · simp only [if_neg hpos]
        omega

/-- The voting ends with more than two thirds of the total stake. -/
def VotingContract.withResult (s : VotingContract) (env : Env) (validators : Validators) :
    VotingContract :=
  { s with result :=
      if validators.exceeds s.totalVotedStake then some env.blockTimestamp else none }

theorem checkResult_eq_ok : s.checkResult env validators = .ok t ↔
    s.result = none ∧ 2 * validators.totalStake ≤ u128Max ∧ s.withResult env validators = t := by
  simp only [checkResult, bind_eq_ok, ensure_eq_ok, checkedMul_eq_ok]
  constructor
  · rintro ⟨_, hnone, doubled, ⟨hle, rfl⟩, h⟩
    refine ⟨hnone, hle, ?_⟩
    unfold VotingContract.withResult
    split at h
    · next hlt =>
      rw [if_pos (exceeds_iff.mpr hlt)]
      exact pure_eq_ok.mp h
    · next hge =>
      rw [if_neg (mt exceeds_iff.mp hge), ← hnone]
      exact pure_eq_ok.mp h
  · rintro ⟨hnone, hle, rfl⟩
    refine ⟨(), hnone, _, ⟨hle, rfl⟩, ?_⟩
    unfold VotingContract.withResult
    by_cases hlt : 2 * validators.totalStake / 3 < s.totalVotedStake
    · rw [if_pos hlt, if_pos (exceeds_iff.mpr hlt)]
      rfl
    · rw [if_neg hlt, if_neg (mt exceeds_iff.mp hlt), ← hnone]
      rfl

/-- The contract after the first call in an epoch read the stakes again. -/
def VotingContract.refreshed (s : VotingContract) (env : Env) (validators : Validators) :
    VotingContract :=
  { VotingContract.withResult
      { s with
        votes := recounted validators s.votes.keys ∅
        totalVotedStake := (s.votes.keys.map validators.stake).sum } env validators with
    lastEpochHeight := env.epochHeight }

theorem refresh_eq_ok : s.refresh env validators = .ok t ↔
    s.result = none ∧ (s.votes.keys.map validators.stake).sum ≤ u128Max ∧
      2 * validators.totalStake ≤ u128Max ∧ s.refreshed env validators = t := by
  rw [refresh, foldlM_recount _ (Nat.zero_le _)]
  simp only [Nat.zero_add]
  by_cases hle : (s.votes.keys.map validators.stake).sum ≤ u128Max
  · simp only [if_pos hle, ok_bind, bind_eq_ok, checkResult_eq_ok, pure_eq_ok]
    constructor
    · rintro ⟨u, ⟨hnone, hdouble, rfl⟩, rfl⟩
      exact ⟨hnone, hle, hdouble, rfl⟩
    · rintro ⟨hnone, -, hdouble, rfl⟩
      exact ⟨_, ⟨hnone, hdouble, rfl⟩, rfl⟩
  · rw [if_neg hle]
    constructor
    · intro h
      cases h
    · rintro ⟨-, hle', -⟩
      exact absurd hle' hle

end Refresh

/-! ## The effects of the calls -/

section Calls

variable {validators : Validators} {s t : VotingContract} {env : Env} {accountId : AccountId}
  {accountStake : ℕ} {isVote : Bool}

/-- The contract with the votes at the stakes of the epoch. -/
def VotingContract.pinged (s : VotingContract) (env : Env) (validators : Validators) :
    VotingContract :=
  if env.epochHeight ≠ s.lastEpochHeight then s.refreshed env validators else s

/-- The stakes of the voters fit into a word when they are read again. -/
def VotingContract.Fits (s : VotingContract) (env : Env) (validators : Validators) : Prop :=
  env.epochHeight ≠ s.lastEpochHeight →
    (s.votes.keys.map validators.stake).sum ≤ u128Max ∧ 2 * validators.totalStake ≤ u128Max

theorem ping_eq_ok : s.ping env validators = .ok t ↔
    s.result = none ∧ s.Fits env validators ∧ s.pinged env validators = t := by
  simp only [ping, bind_eq_ok, ensure_eq_ok, VotingContract.Fits, VotingContract.pinged]
  by_cases hne : env.epochHeight ≠ s.lastEpochHeight
  · simp only [if_pos hne, refresh_eq_ok]
    constructor
    · rintro ⟨_, hnone, -, hsum, hdouble, ht⟩
      exact ⟨hnone, fun _ => ⟨hsum, hdouble⟩, ht⟩
    · rintro ⟨hnone, hfits, ht⟩
      exact ⟨(), hnone, hnone, (hfits hne).1, (hfits hne).2, ht⟩
  · simp only [if_neg hne, pure_eq_ok]
    constructor
    · rintro ⟨_, hnone, ht⟩
      exact ⟨hnone, fun h => absurd h hne, ht⟩
    · rintro ⟨hnone, -, ht⟩
      exact ⟨(), hnone, ht⟩

theorem lastEpochHeight_pinged : (s.pinged env validators).lastEpochHeight = env.epochHeight := by
  unfold VotingContract.pinged
  by_cases hne : env.epochHeight ≠ s.lastEpochHeight
  · rw [if_pos hne]
    rfl
  · rw [if_neg hne]
    exact (not_not.mp hne).symm

/-- The contract with the vote of an account replaced by one of a stake, or withdrawn. -/
def VotingContract.withVote (s : VotingContract) (accountId : AccountId) (accountStake : ℕ) :
    VotingContract :=
  { s with
    votes := if 0 < accountStake then (s.votes.erase accountId).insert accountId accountStake
      else s.votes.erase accountId
    totalVotedStake := s.totalVotedStake + accountStake - (s.votes.lookup accountId).getD 0 }

/-- The contract after a vote. A withdrawal does not compare with the threshold. -/
def VotingContract.counted (s : VotingContract) (env : Env) (validators : Validators)
    (accountId : AccountId) (accountStake : ℕ) : VotingContract :=
  if 0 < accountStake then (s.withVote accountId accountStake).withResult env validators
  else s.withVote accountId accountStake

theorem cast_eq_ok : s.cast env validators accountId accountStake = .ok t ↔
    (s.votes.lookup accountId).getD 0 ≤ s.totalVotedStake ∧
      s.totalVotedStake + accountStake ≤ u128Max ∧
      (0 < accountStake → s.result = none ∧ 2 * validators.totalStake ≤ u128Max) ∧
      s.counted env validators accountId accountStake = t := by
  simp only [VotingContract.cast, bind_eq_ok, ensure_eq_ok, checkedAdd_eq_ok, checkedSub_eq_ok,
    VotingContract.counted]
  by_cases hpos : 0 < accountStake
  · simp only [if_pos hpos, checkResult_eq_ok, VotingContract.withVote]
    constructor
    · rintro ⟨_, hle, _, ⟨hfits, rfl⟩, _, ⟨-, rfl⟩, hnone, hdouble, ht⟩
      exact ⟨hle, hfits, fun _ => ⟨hnone, hdouble⟩, ht⟩
    · rintro ⟨hle, hfits, hopen, ht⟩
      exact ⟨(), hle, _, ⟨hfits, rfl⟩, _, ⟨by omega, rfl⟩, (hopen hpos).1, (hopen hpos).2, ht⟩
  · simp only [if_neg hpos, pure_eq_ok, VotingContract.withVote]
    constructor
    · rintro ⟨_, hle, _, ⟨hfits, rfl⟩, _, ⟨-, rfl⟩, ht⟩
      exact ⟨hle, hfits, fun h => absurd h hpos, ht⟩
    · rintro ⟨hle, hfits, -, ht⟩
      exact ⟨(), hle, _, ⟨hfits, rfl⟩, _, ⟨by omega, rfl⟩, ht⟩

/-- The stake that a ballot weighs. -/
def Validators.ballot (validators : Validators) (accountId : AccountId) (isVote : Bool) : ℕ :=
  if isVote then validators.stake accountId else 0

theorem accountStake_eq_ok : VotingContract.accountStake env validators isVote = .ok accountStake ↔
    (isVote = true → 0 < validators.stake env.predecessorAccountId) ∧
      validators.ballot env.predecessorAccountId isVote = accountStake := by
  cases isVote with
  | false => simp [VotingContract.accountStake, Validators.ballot]
  | true =>
    simp only [VotingContract.accountStake, Validators.ballot, if_true, bind_eq_ok, ensure_eq_ok,
      pure_eq_ok, true_implies]
    constructor
    · rintro ⟨_, hpos, h⟩
      exact ⟨hpos, h⟩
    · rintro ⟨hpos, h⟩
      exact ⟨(), hpos, h⟩

/-- A vote of an open voting is counted. -/
def VotingContract.voted (s : VotingContract) (env : Env) (validators : Validators)
    (isVote : Bool) : VotingContract :=
  if s.result.isSome then s
  else s.counted env validators env.predecessorAccountId
    (validators.ballot env.predecessorAccountId isVote)

/-- A ballot is counted: a vote comes with a stake, and the total fits into a word. -/
structure VotingContract.Counts (s : VotingContract) (env : Env) (validators : Validators)
    (isVote : Bool) : Prop where
  positive : isVote = true → 0 < validators.stake env.predecessorAccountId
  below : (s.votes.lookup env.predecessorAccountId).getD 0 ≤ s.totalVotedStake
  fits : s.totalVotedStake + validators.ballot env.predecessorAccountId isVote ≤ u128Max
  doubled : 0 < validators.ballot env.predecessorAccountId isVote →
    2 * validators.totalStake ≤ u128Max

theorem vote_eq_ok : s.vote env validators isVote = .ok t ↔
    s.result = none ∧ s.Fits env validators ∧
      ((s.pinged env validators).result = none →
        (s.pinged env validators).Counts env validators isVote) ∧
      (s.pinged env validators).voted env validators isVote = t := by
  simp only [vote, bind_eq_ok, ping_eq_ok, VotingContract.voted]
  constructor
  · rintro ⟨_, ⟨hnone, hfits, rfl⟩, h⟩
    refine ⟨hnone, hfits, ?_⟩
    cases hresult : (s.pinged env validators).result with
    | some timestamp =>
      -- The ping ended the voting: `vote` returns early.
      simp only [hresult, Option.isSome_some, if_true, pure_eq_ok] at h ⊢
      exact ⟨fun hnone => absurd hnone (Option.some_ne_none _), h⟩
    | none =>
      simp only [hresult, Option.isSome_none, Bool.false_eq_true, if_false, bind_eq_ok,
        accountStake_eq_ok, cast_eq_ok] at h ⊢
      obtain ⟨_, ⟨hpos, rfl⟩, hle, hsum, hdouble, ht⟩ := h
      exact ⟨fun _ => ⟨hpos, hle, hsum, fun hballot => (hdouble hballot).2⟩, ht⟩
  · rintro ⟨hnone, hfits, hcounts, h⟩
    refine ⟨_, ⟨hnone, hfits, rfl⟩, ?_⟩
    cases hresult : (s.pinged env validators).result with
    | some timestamp =>
      simp only [hresult, Option.isSome_some, if_true, pure_eq_ok] at h ⊢
      exact h
    | none =>
      simp only [hresult, Option.isSome_none, Bool.false_eq_true, if_false, bind_eq_ok,
        accountStake_eq_ok, cast_eq_ok] at h ⊢
      obtain ⟨hpos, hle, hsum, hdouble⟩ := hcounts hresult
      exact ⟨_, ⟨hpos, rfl⟩, hle, hsum, fun h => ⟨trivial, hdouble h⟩, h⟩

end Calls

/-- The effects of the accepted calls on an open voting. -/
inductive Called (validators : Validators) (s : VotingContract) (c : Call) : VotingContract → Prop
  | pinged : c.method = .ping → Called validators s c (s.pinged c.env validators)
  | ended {isVote : Bool} : c.method = .vote isVote →
      (s.pinged c.env validators).result ≠ none → Called validators s c (s.pinged c.env validators)
  | counted {isVote : Bool} : c.method = .vote isVote →
      (s.pinged c.env validators).result = none →
      (isVote = true → 0 < validators.stake c.env.predecessorAccountId) →
      Called validators s c ((s.pinged c.env validators).counted c.env validators
        c.env.predecessorAccountId (validators.ballot c.env.predecessorAccountId isVote))

section Tally

variable {validators : Validators} {s t : VotingContract} {env : Env} {accountId : AccountId}
  {accountStake : ℕ}

theorem called_of_step {validators : ℕ → Validators} {c : Call}
    (h : (voting validators).step s c = .ok t) :
    s.result = none ∧ s.Fits c.env (validators c.env.epochHeight) ∧
      Called (validators c.env.epochHeight) s c t := by
  simp only [voting, bind_eq_ok] at h
  obtain ⟨_, -, h⟩ := h
  cases hmethod : c.method with
  | ping =>
    simp only [hmethod, ping_eq_ok] at h
    obtain ⟨hnone, hfits, rfl⟩ := h
    exact ⟨hnone, hfits, .pinged hmethod⟩
  | vote isVote =>
    simp only [hmethod, vote_eq_ok] at h
    obtain ⟨hnone, hfits, hcounts, rfl⟩ := h
    refine ⟨hnone, hfits, ?_⟩
    unfold VotingContract.voted
    cases hresult : (s.pinged c.env (validators c.env.epochHeight)).result with
    | some timestamp => exact .ended hmethod (by simp [hresult])
    | none => exact .counted hmethod hresult (hcounts hresult).positive

/-! ## What the calls leave of the tally -/

/-- A voter with a stake in the new epoch keeps a vote. -/
theorem lookup_refreshed {v : AccountId} : (s.refreshed env validators).votes.lookup v =
    if v ∈ s.votes ∧ 0 < validators.stake v then some (validators.stake v) else none := by
  refine lookup_recounted.trans ?_
  simp only [AList.lookup_empty, AList.mem_keys]

theorem totalVotedStake_refreshed :
    (s.refreshed env validators).totalVotedStake =
      Map.total id (s.refreshed env validators).votes := by
  have htotal : Map.total id (recounted validators s.votes.keys ∅) = _ :=
    total_recounted s.votes.keys_nodup fun v _ => AList.lookup_empty v
  rw [Map.total_empty, Nat.zero_add] at htotal
  exact htotal.symm

theorem Tallied.pinged (hs : s.lastEpochHeight = env.epochHeight → Tallied validators s) :
    Tallied validators (s.pinged env validators) := by
  unfold VotingContract.pinged
  by_cases hne : env.epochHeight ≠ s.lastEpochHeight
  · rw [if_pos hne]
    refine ⟨totalVotedStake_refreshed, ?_⟩
    intro v n h
    rw [lookup_refreshed] at h
    split at h
    · next hv =>
      cases h
      exact ⟨hv.2, rfl⟩
    · cases h
  · rw [if_neg hne]
    exact hs (not_not.mp hne).symm

theorem votes_counted : (s.counted env validators accountId accountStake).votes =
    (s.withVote accountId accountStake).votes := by
  unfold VotingContract.counted
  split
  · rfl
  · rfl

theorem totalVotedStake_counted :
    (s.counted env validators accountId accountStake).totalVotedStake =
      s.totalVotedStake + accountStake - (s.votes.lookup accountId).getD 0 := by
  unfold VotingContract.counted
  split
  · rfl
  · rfl

theorem lastEpochHeight_counted :
    (s.counted env validators accountId accountStake).lastEpochHeight = s.lastEpochHeight := by
  unfold VotingContract.counted
  split
  · rfl
  · rfl

/-- A vote replaces that of its account. -/
theorem lookup_counted {v : AccountId} :
    (s.counted env validators accountId accountStake).votes.lookup v =
      if v = accountId then if 0 < accountStake then some accountStake else none
      else s.votes.lookup v := by
  rw [votes_counted]
  simp only [VotingContract.withVote]
  by_cases hv : v = accountId
  · subst hv
    rw [if_pos rfl]
    by_cases hpos : 0 < accountStake
    · rw [if_pos hpos, if_pos hpos, AList.lookup_insert]
    · rw [if_neg hpos, if_neg hpos, AList.lookup_erase]
  · rw [if_neg hv]
    by_cases hpos : 0 < accountStake
    · rw [if_pos hpos, AList.lookup_insert_ne hv, AList.lookup_erase_ne hv]
    · rw [if_neg hpos, AList.lookup_erase_ne hv]

theorem amount_eq_getD (votes : Map AccountId ℕ) (accountId : AccountId) :
    votes.amount id accountId = (votes.lookup accountId).getD 0 := by
  rw [Map.amount]
  cases votes.lookup accountId with
  | none => rfl
  | some n => rfl

theorem Tallied.counted (hs : Tallied validators s)
    (hstake : 0 < accountStake → accountStake = validators.stake accountId) :
    Tallied validators (s.counted env validators accountId accountStake) := by
  constructor
  · have herase := Map.total_erase id s.votes accountId
    rw [totalVotedStake_counted, votes_counted, hs.total, ← herase, amount_eq_getD]
    simp only [VotingContract.withVote]
    by_cases hpos : 0 < accountStake
    · have hinsert := Map.total_insert id (s.votes.erase accountId) accountId accountStake
      rw [Map.amount_of_lookup_none (AList.lookup_erase ..)] at hinsert
      rw [if_pos hpos]
      simp only [id_eq] at hinsert
      omega
    · rw [if_neg hpos]
      omega
  · intro v n h
    rw [lookup_counted] at h
    by_cases hv : v = accountId
    · subst hv
      rw [if_pos rfl] at h
      by_cases hpos : 0 < accountStake
      · rw [if_pos hpos] at h
        cases h
        exact ⟨hpos, hstake hpos⟩
      · rw [if_neg hpos] at h
        cases h
    · rw [if_neg hv] at h
      exact hs.stake v n h

theorem Validators.ballot_eq {isVote : Bool} (h : 0 < validators.ballot accountId isVote) :
    validators.ballot accountId isVote = validators.stake accountId := by
  cases isVote with
  | false => cases h
  | true => rfl

/-- Every call keeps the tally, at the stakes of its epoch. -/
theorem Tallied.called {c : Call} (h : Called validators s c t)
    (hs : s.lastEpochHeight = c.env.epochHeight → Tallied validators s) : Tallied validators t := by
  cases h with
  | pinged => exact Tallied.pinged hs
  | ended => exact Tallied.pinged hs
  | counted => exact (Tallied.pinged hs).counted Validators.ballot_eq

theorem lastEpochHeight_called {c : Call} (h : Called validators s c t) :
    t.lastEpochHeight = c.env.epochHeight := by
  cases h with
  | pinged => exact lastEpochHeight_pinged
  | ended => exact lastEpochHeight_pinged
  | counted => exact lastEpochHeight_counted.trans lastEpochHeight_pinged

/-! ## The threshold -/

/-- The voting is open as long as the votes hold at most two thirds of the stake. -/
def Open (validators : Validators) (s : VotingContract) : Prop :=
  s.result = none ↔ validators.exceeds s.totalVotedStake = false

theorem open_withResult : Open validators (s.withResult env validators) := by
  unfold Open VotingContract.withResult
  cases hexceeds : validators.exceeds s.totalVotedStake with
  | true => simp
  | false => simp

theorem exceeds_mono {m n : ℕ} (hle : m ≤ n) (h : validators.exceeds n = false) :
    validators.exceeds m = false := by
  simp only [Validators.exceeds, decide_eq_false_iff_not] at h ⊢
  omega

theorem open_pinged (hs : s.lastEpochHeight = env.epochHeight → Open validators s) :
    Open validators (s.pinged env validators) := by
  unfold VotingContract.pinged
  by_cases hne : env.epochHeight ≠ s.lastEpochHeight
  · rw [if_pos hne]
    exact open_withResult
  · rw [if_neg hne]
    exact hs (not_not.mp hne).symm

/-- A withdrawal leaves fewer votes, so that it need not compare. -/
theorem open_counted (hnone : s.result = none) (hs : Open validators s) :
    Open validators (s.counted env validators accountId accountStake) := by
  unfold VotingContract.counted
  by_cases hpos : 0 < accountStake
  · rw [if_pos hpos]
    exact open_withResult
  · rw [if_neg hpos]
    refine ⟨fun _ => exceeds_mono ?_ (hs.mp hnone), fun _ => hnone⟩
    simp only [VotingContract.withVote]
    omega

theorem open_called {c : Call} (h : Called validators s c t)
    (hs : s.lastEpochHeight = c.env.epochHeight → Open validators s) : Open validators t := by
  cases h with
  | pinged => exact open_pinged hs
  | ended => exact open_pinged hs
  | counted _ hresult => exact open_counted hresult (open_pinged hs)

/-- A call that ends the voting records its time. -/
theorem result_called {c : Call} (h : Called validators s c t) (hnone : s.result = none) :
    t.result = none ∨ t.result = some c.env.blockTimestamp := by
  have hwith : ∀ u : VotingContract, (u.withResult c.env validators).result = none ∨
      (u.withResult c.env validators).result = some c.env.blockTimestamp := by
    intro u
    unfold VotingContract.withResult
    cases validators.exceeds u.totalVotedStake with
    | true => exact Or.inr rfl
    | false => exact Or.inl rfl
  have hpinged : (s.pinged c.env validators).result = none ∨
      (s.pinged c.env validators).result = some c.env.blockTimestamp := by
    unfold VotingContract.pinged
    split
    · exact hwith _
    · exact Or.inl hnone
  cases h with
  | pinged => exact hpinged
  | ended => exact hpinged
  | counted _ hresult =>
    unfold VotingContract.counted
    split
    · exact hwith _
    · exact Or.inl hresult

end Tally

/-- The tally is right and compared with the threshold, at the stakes of the last call's epoch. -/
structure Sound (validators : ℕ → Validators) (s : VotingContract) : Prop where
  tallied : Tallied (validators s.lastEpochHeight) s
  open_ : Open (validators s.lastEpochHeight) s

section Sound

variable {validators : ℕ → Validators} {s t : VotingContract} {c : Call}

theorem Sound.called (hs : Sound validators s)
    (h : Called (validators c.env.epochHeight) s c t) :
    Sound validators t ∧ t.lastEpochHeight = c.env.epochHeight := by
  have hepoch := lastEpochHeight_called h
  refine ⟨⟨?_, ?_⟩, hepoch⟩
  · rw [hepoch]
    exact Tallied.called h fun heq => heq ▸ hs.tallied
  · rw [hepoch]
    exact open_called h fun heq => heq ▸ hs.open_

theorem sound_new {stateExists : Bool} (hnew : VotingContract.new stateExists = .ok s) :
    Sound validators s := by
  simp only [VotingContract.new, bind_eq_ok, ensure_eq_ok, pure_eq_ok] at hnew
  obtain ⟨_, -, rfl⟩ := hnew
  refine ⟨⟨rfl, ?_⟩, ?_⟩
  · intro v n h
    cases h
  · simp [Open, Validators.exceeds]

/-- Every run keeps the tally and compares with the threshold. -/
theorem Sound.run (hs : Sound validators s) (ls : List Call) :
    Sound validators ((voting validators).run s ls) := by
  refine Machine.run_invariant (I := Sound validators) (G := fun _ _ => True) ?_ (by simp) hs
  intro s c t hs _ h
  exact (hs.called (called_of_step h).2.2).1

/-- Once the voting has ended, no call is accepted. -/
theorem run_of_ended (hs : s.result ≠ none) (ls : List Call) :
    (voting validators).run s ls = s := by
  induction ls with
  | nil => rfl
  | cons c ls ih =>
    rw [Machine.run_cons]
    cases h : (voting validators).step s c with
    | ok t => exact absurd (called_of_step h).1 hs
    | error e => rw [Machine.exec_of_error h, ih]

end Sound

end UncContracts.Voting
