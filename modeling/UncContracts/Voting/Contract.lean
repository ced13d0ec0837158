import UncContracts.Foundation.Holdings
import UncContracts.Foundation.Machine
import UncContracts.Foundation.Panic
import UncContracts.Sdk.Env

/-!
# The voting contract

Validators vote on whether to unlock transfers. A vote weighs the stake of its validator, which is
read again at the first call in an epoch. Once the votes hold more than two thirds of the total
stake, the time is recorded and the voting ends.

## Main definitions

* `VotingContract`: the contract's state
* `Validators`: the stakes that the host reports
* `VotingContract.ping`, `VotingContract.vote`: the methods
* `voting`: the contract as a machine
-/

namespace UncContracts.Voting

open Foundation

/-- The stakes of the validators, zero for any other account, and their total. -/
structure Validators where
  /-- `env::validator_stake`. -/
  stake : AccountId → ℕ
  /-- `env::validator_total_stake`. -/
  totalStake : ℕ

/-- The contract's state. -/
structure VotingContract where
  /-- How much each validator votes. The order of the entries is that of the hash map. -/
  votes : Map AccountId ℕ
  /-- Total voted balance so far. -/
  totalVotedStake : ℕ
  /-- When the voting ended, if it has. -/
  result : Option ℕ
  /-- Epoch height when the contract was touched last. -/
  lastEpochHeight : ℕ

namespace VotingContract

/-- Initializes the contract. -/
def new (stateExists : Bool) : Exec VotingContract := do
  ensure (stateExists = false) "The contract is already initialized"
  return { votes := ∅, totalVotedStake := 0, result := none, lastEpochHeight := 0 }

variable (s : VotingContract) (env : Env) (validators : Validators)

/-- Counts the vote of an account at its current stake. One with no stake is dropped. -/
def recount (accountId : AccountId) : Exec VotingContract := do
  let accountCurrentStake := validators.stake accountId
  let totalVotedStake ← checkedAdd u128Max s.totalVotedStake accountCurrentStake
  return { s with
    totalVotedStake
    votes := if 0 < accountCurrentStake then s.votes.insert accountId accountCurrentStake
      else s.votes }

/-- Check whether the voting has ended. -/
def checkResult : Exec VotingContract := do
  ensure (s.result = none) "check result is called after result is already set"
  let doubled ← checkedMul u128Max 2 validators.totalStake
  if doubled / 3 < s.totalVotedStake then
    return { s with result := some env.blockTimestamp }
  else return s

/-- The votes at the stakes of a new epoch. -/
def refresh : Exec VotingContract := do
  let s ← s.votes.keys.foldlM (fun s accountId => s.recount validators accountId)
    { s with votes := ∅, totalVotedStake := 0 }
  let s ← s.checkResult env validators
  return { s with lastEpochHeight := env.epochHeight }

/-- Ping to update the votes according to current stake of validators. -/
def ping : Exec VotingContract := do
  ensure (s.result = none) "Voting has already ended"
  if env.epochHeight ≠ s.lastEpochHeight then s.refresh env validators
  else return s

/-- The stake that a call votes with: a vote needs one, and a withdrawal of a vote has none. -/
def accountStake (isVote : Bool) : Exec ℕ :=
  if isVote then do
    let stake := validators.stake env.predecessorAccountId
    ensure (0 < stake) (env.predecessorAccountId ++ " is not a validator")
    return stake
  else return 0

/-- Replaces the vote of an account by one of a stake, or withdraws it. -/
def cast (accountId : AccountId) (accountStake : ℕ) : Exec VotingContract := do
  let votedStake := (s.votes.lookup accountId).getD 0
  let votes := s.votes.erase accountId
  ensure (votedStake ≤ s.totalVotedStake)
    s!"invariant: voted stake {votedStake} is more than total voted stake {s.totalVotedStake}"
  let sum ← checkedAdd u128Max s.totalVotedStake accountStake
  let totalVotedStake ← checkedSub sum votedStake
  let s := { s with votes, totalVotedStake }
  if 0 < accountStake then
    checkResult { s with votes := s.votes.insert accountId accountStake } env validators
  else return s

/-- Method for validators to vote or withdraw the vote. -/
def vote (isVote : Bool) : Exec VotingContract := do
  let s ← s.ping env validators
  -- Where the first call in an epoch ends the voting, it casts no vote.
  if s.result.isSome then return s
  else do
    let accountStake ← accountStake env validators isVote
    s.cast env validators env.predecessorAccountId accountStake

/-- The timestamp of when the voting ended. -/
def getResult : Option ℕ := s.result

end VotingContract

/-- The public methods that change the contract. -/
inductive Method
  | ping
  | vote (isVote : Bool)
  deriving DecidableEq, Repr

/-- A call of a public method. -/
structure Call where
  env : Env
  method : Method
  deriving DecidableEq, Repr

/-- The contract as a machine over calls, where the stakes are fixed within an epoch. No method
accepts a deposit. -/
def voting (validators : ℕ → Validators) : Machine VotingContract Call String where
  step s c := do
    ensure (c.env.attachedDeposit = 0) "Method doesn't accept deposit"
    match c.method with
    | .ping => s.ping c.env (validators c.env.epochHeight)
    | .vote isVote => s.vote c.env (validators c.env.epochHeight) isVote

end UncContracts.Voting
