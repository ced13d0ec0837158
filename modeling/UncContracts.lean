import UncContracts.Foundation.Machine
import UncContracts.Foundation.Panic
import UncContracts.Foundation.SharePool
import UncContracts.Foundation.Holdings
import UncContracts.Sdk.Env
import UncContracts.StakingPool.Contract
import UncContracts.StakingPool.Ledger
import UncContracts.StakingPool.Conservation
import UncContracts.StakingPool.Solvency
import UncContracts.StakingPool.Isolation
import UncContracts.Foundation.InFlight
import UncContracts.PoolFactory.Contract
import UncContracts.PoolFactory.Whitelisting
import UncContracts.Multisig.Contract
import UncContracts.Multisig.Threshold
import UncContracts.Foundation.LinearRelease
import UncContracts.Lockup.Getters
import UncContracts.Lockup.Methods
import UncContracts.Lockup.Effects
import UncContracts.Lockup.System
import UncContracts.Lockup.SingleFlight
import UncContracts.Lockup.Locked
import UncContracts.Lockup.Progress
import UncContracts.Lockup.Recovery
import UncContracts.Lockup.Honest
import UncContracts.Lockup.Custody
import UncContracts.Foundation.KeyedForest
import UncContracts.Foundation.UnorderedMap
import UncContracts.Sdk.Json
import UncContracts.Social.Types
import UncContracts.Airdrop.Contract
import UncContracts.Airdrop.Effects
import UncContracts.Airdrop.Ledger
import UncContracts.Social.Methods
import UncContracts.Social.Tree
import UncContracts.Social.Settling
import UncContracts.Social.Moves
import UncContracts.Social.Calls
import UncContracts.Social.Authorization
import UncContracts.Social.Coverage
import UncContracts.Social.Layout
import UncContracts.Social.Pools
import UncContracts.Social.Deposits
import UncContracts.Social.Usage
import UncContracts.Social.Unreachable
import UncContracts.Social.PoolAccounting
import UncContracts.Social.StorageAccounting
import UncContracts.Foundation.ForestReading
import UncContracts.Social.Pointwise
import UncContracts.Social.Views
import UncContracts.Social.NodeGraph
import UncContracts.Social.Patterns
import UncContracts.Social.Reading
import UncContracts.Lockup.Payouts
import UncContracts.Lockup.Selection
import UncContracts.Voting.Contract
import UncContracts.Voting.Exact
import UncContracts.Voting.Order
import UncContracts.Lockup.Peer
import UncContracts.Lockup.Asking
import UncContracts.Lockup.PoolBalance
import UncContracts.Lockup.Vote
import UncContracts.Multisig.Bookkeeping
import UncContracts.Multisig.AtMostOnce
import UncContracts.Multisig.Operable
import UncContracts.MultisigFactory.Contract
import UncContracts.MultisigFactory.Format
import UncContracts.Creators.LockupFactory
import UncContracts.Creators.System
import UncContracts.Creators.Moves
import UncContracts.Creators.Refunds
import UncContracts.Foundation.Stateful
import UncContracts.LockableToken.Contract
import UncContracts.LockableToken.Escrow
import UncContracts.StakingPool.Balance
import UncContracts.StakingPool.StakeRequest
import UncContracts.PoolFactory.Deposits
import UncContracts.Lockup.Unvested
import UncContracts.Social.Frozen
import UncContracts.WUnc.Backing
import UncContracts.Social.Migration
import UncContracts.Lockup.Melting
import UncContracts.StakingPool.Reward
import UncContracts.StakingPool.RoundTrip
import UncContracts.StakingPool.UnstakeDelay
import UncContracts.Social.Registration
import UncContracts.Social.Legacy
import UncContracts.Social.AccountStorage
import UncContracts.Social.QueryOrder
import UncContracts.Social.Heights
import UncContracts.Social.Strangers
import UncContracts.Social.PermissionView
import UncContracts.Social.KeysAgree
import UncContracts.Social.Trackers
import UncContracts.StakingPool.Claim
import UncContracts.Whitelist.History
import UncContracts.Delegation.Network
import UncContracts.Delegation.Approval
import UncContracts.Delegation.Custody
import UncContracts.Lockup.Release
import UncContracts.Creators.LockupFormat
import UncContracts.PoolFactory.Format
import UncContracts.Social.Registers
import UncContracts.Social.Store
import UncContracts.Social.GrantHistory
import UncContracts.Social.Dates
import UncContracts.Foundation.Base64
import UncContracts.StateManipulation.Contract
import UncContracts.StateManipulation.Store
import UncContracts.Social.Capabilities
import UncContracts.Multisig.Keys
import UncContracts.Lockup.Published
import UncContracts.Lockup.Private
