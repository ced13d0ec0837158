import UncContracts.Creators.LockupFactory
import UncContracts.Foundation.Base64
import UncContracts.Lockup.Effects
import UncContracts.Sdk.Arguments

/-!
# The format of a lockup's arguments

The lockup factory and the lockup each declare the data of a lockup. The factory reads the arguments
of a creation, and passes those of the initialization, which the lockup reads. Both read a hash by
its base64 text.

## Main definitions

* `VestingSchedule.toJson`, `VestingScheduleOrHash.toJson`, `TransfersInformation.toJson`: how the
  factory represents the data, and `ofJson`: how it is read
* `LockupArgs.toJson`: what the factory passes
* `NewArguments`, `LockupContract.newCall`: what the lockup reads, and its initialization from that
* `CreateArguments`, `createCall`: the arguments of a creation, and the creation from their text

## Main results

* `newArguments_toJson`: the lockup reads what the factory passes
* `created_lockup_initializes`: a lockup that the factory creates is always initialized
* `create_accepted_iff`: what a creation needs
-/

namespace UncContracts

open Foundation

/-! ## The data of a lockup -/

namespace Lockup

variable (encodeBase64 : List UInt8 → String) (decodeBase64 : String → Option (List UInt8))

/-- The JSON value of a schedule. -/
def VestingSchedule.toJson (schedule : VestingSchedule) : Json :=
  .object [("start_timestamp", .wrapped schedule.startTimestamp),
    ("cliff_timestamp", .wrapped schedule.cliffTimestamp),
    ("end_timestamp", .wrapped schedule.endTimestamp)]

def VestingSchedule.ofJson (j : Json) : Option VestingSchedule :=
  match j.decodeStruct [("start_timestamp", false), ("cliff_timestamp", false),
    ("end_timestamp", false)] with
  | some [start, cliff, end_] => do
    let startTimestamp ← start.decodeWrapped u64Max
    let cliffTimestamp ← cliff.decodeWrapped u64Max
    let endTimestamp ← end_.decodeWrapped u64Max
    return {
      startTimestamp
      cliffTimestamp
      endTimestamp }
  | _ => none

/-- The JSON value of a vesting: its tag, with the hash or the schedule. -/
def VestingScheduleOrHash.toJson : VestingScheduleOrHash → Json
  | vestingHash hash => .externallyTagged "VestingHash" (.string (encodeBase64 hash))
  | vestingSchedule schedule => .externallyTagged "VestingSchedule" schedule.toJson

def VestingScheduleOrHash.ofJson : Json → Option VestingScheduleOrHash :=
  Json.decodeTagged
    [("VestingHash", fun content => (content.decodeString decodeBase64).map .vestingHash),
      ("VestingSchedule", fun content => (VestingSchedule.ofJson content).map .vestingSchedule)]

/-- The JSON value of the information about transfers: its tag, with the field of its variant. -/
def TransfersInformation.toJson : TransfersInformation → Json
  | transfersEnabled transfersTimestamp => .externallyTagged "TransfersEnabled"
      (.object [("transfers_timestamp", .wrapped transfersTimestamp)])
  | transfersDisabled transferPollAccountId => .externallyTagged "TransfersDisabled"
      (.object [("transfer_poll_account_id", .string transferPollAccountId)])

def TransfersInformation.ofJson : Json → Option TransfersInformation :=
  Json.decodeTagged
    [("TransfersEnabled", fun content =>
        (content.decodeField "transfers_timestamp" (Json.decodeWrapped u64Max)).map
          .transfersEnabled),
      ("TransfersDisabled", fun content =>
        (content.decodeField "transfer_poll_account_id" (Json.decodeString parseAccountId)).map
          .transfersDisabled)]

/-- The arguments of the initialization, as the lockup declares them. -/
structure NewArguments where
  ownerAccountId : AccountId
  lockupDuration : ℕ
  lockupTimestamp : Option ℕ
  transfersInformation : TransfersInformation
  vestingSchedule : Option VestingScheduleOrHash
  releaseDuration : Option ℕ
  stakingPoolWhitelistAccountId : AccountId
  foundationAccountId : Option AccountId
  deriving DecidableEq, Repr

/-- Reads the arguments of the initialization. -/
def NewArguments.ofJson (j : Json) : Option NewArguments :=
  match j.decodeStruct [("owner_account_id", false), ("lockup_duration", false),
    ("lockup_timestamp", true), ("transfers_information", false), ("vesting_schedule", true),
    ("release_duration", true), ("staking_pool_whitelist_account_id", false),
    ("foundation_account_id", true)] with
  | some [owner, duration, timestamp, transfers, vesting, release, whitelist, foundation] => do
    let ownerAccountId ← owner.decodeString parseAccountId
    let lockupDuration ← duration.decodeWrapped u64Max
    let lockupTimestamp ← timestamp.decodeOption (Json.decodeWrapped u64Max)
    let transfersInformation ← TransfersInformation.ofJson transfers
    let vestingSchedule ← vesting.decodeOption (VestingScheduleOrHash.ofJson decodeBase64)
    let releaseDuration ← release.decodeOption (Json.decodeWrapped u64Max)
    let stakingPoolWhitelistAccountId ← whitelist.decodeString parseAccountId
    let foundationAccountId ← foundation.decodeOption (Json.decodeString parseAccountId)
    return {
      ownerAccountId
      lockupDuration
      lockupTimestamp
      transfersInformation
      vestingSchedule
      releaseDuration
      stakingPoolWhitelistAccountId
      foundationAccountId }
  | _ => none

/-- The initialization of a lockup, from its arguments' JSON value. -/
def LockupContract.newCall (env : Env) (arguments : Json) : Exec LockupContract := do
  let a ← expect (NewArguments.ofJson decodeBase64 arguments)
    "Failed to deserialize input from JSON."
  LockupContract.new env a.ownerAccountId a.lockupDuration a.lockupTimestamp a.transfersInformation
    a.vestingSchedule a.releaseDuration a.stakingPoolWhitelistAccountId a.foundationAccountId

/-! ### Reading back -/

variable {encodeBase64 decodeBase64}

/-- The timestamps of a schedule fit their type. -/
structure VestingSchedule.Fits (schedule : VestingSchedule) : Prop where
  start_le : schedule.startTimestamp ≤ u64Max
  cliff_le : schedule.cliffTimestamp ≤ u64Max
  end_le : schedule.endTimestamp ≤ u64Max

/-- A schedule fits its type; a hash is any bytes. -/
def VestingScheduleOrHash.Fits : VestingScheduleOrHash → Prop
  | vestingHash _ => True
  | vestingSchedule schedule => schedule.Fits

theorem VestingSchedule.ofJson_toJson {schedule : VestingSchedule} (h : schedule.Fits) :
    VestingSchedule.ofJson schedule.toJson = some schedule := by
  have hstruct : schedule.toJson.decodeStruct [("start_timestamp", false),
      ("cliff_timestamp", false), ("end_timestamp", false)] = _ :=
    Json.decodeStruct_object [.wrapped schedule.startTimestamp,
      .wrapped schedule.cliffTimestamp, .wrapped schedule.endTimestamp] rfl (by decide)
  unfold VestingSchedule.ofJson
  rw [hstruct]
  simp only [Json.decodeWrapped_wrapped.mpr h.start_le, Json.decodeWrapped_wrapped.mpr h.cliff_le,
    Json.decodeWrapped_wrapped.mpr h.end_le]
  rfl

/-- What is read as a schedule fits. -/
theorem VestingSchedule.fits_of_ofJson {j : Json} {schedule : VestingSchedule}
    (h : VestingSchedule.ofJson j = some schedule) : schedule.Fits := by
  unfold VestingSchedule.ofJson at h
  split at h
  · simp only [Option.bind_eq_bind, Option.bind_eq_some_iff, Option.pure_def,
      Option.some.injEq] at h
    obtain ⟨_, hstart, _, hcliff, _, hend, rfl⟩ := h
    exact ⟨Json.le_of_decodeWrapped hstart, Json.le_of_decodeWrapped hcliff,
      Json.le_of_decodeWrapped hend⟩
  · cases h

theorem VestingScheduleOrHash.ofJson_toJson
    (hbase64 : ∀ bytes, decodeBase64 (encodeBase64 bytes) = some bytes)
    {vesting : VestingScheduleOrHash} (h : vesting.Fits) :
    VestingScheduleOrHash.ofJson decodeBase64 (vesting.toJson encodeBase64) = some vesting := by
  cases vesting with
  | vestingHash hash =>
    refine (Json.decodeTagged_externallyTagged rfl _).trans ?_
    rw [Json.decodeString, hbase64]
    rfl
  | vestingSchedule schedule =>
    refine (Json.decodeTagged_externallyTagged rfl _).trans ?_
    rw [VestingSchedule.ofJson_toJson h]
    rfl

/-- What is read as a vesting fits. -/
theorem VestingScheduleOrHash.fits_of_ofJson {j : Json} {vesting : VestingScheduleOrHash}
    (h : VestingScheduleOrHash.ofJson decodeBase64 j = some vesting) : vesting.Fits := by
  cases vesting with
  | vestingHash hash => trivial
  | vestingSchedule schedule =>
    obtain ⟨tag, decode, content, hmem, hread⟩ := Json.exists_of_decodeTagged h
    rcases List.mem_cons.mp hmem with heq | hmem
    · cases heq
      simp at hread
    · cases List.mem_singleton.mp hmem
      obtain ⟨_, hschedule, heq⟩ := Option.map_eq_some_iff.mp hread
      cases heq
      exact VestingSchedule.fits_of_ofJson hschedule

/-- The information about transfers that is read back. -/
def TransfersInformation.Fits : TransfersInformation → Prop
  | transfersEnabled transfersTimestamp => transfersTimestamp ≤ u64Max
  | transfersDisabled transferPollAccountId => isValidAccountId transferPollAccountId

theorem TransfersInformation.ofJson_toJson {transfers : TransfersInformation}
    (h : transfers.Fits) : TransfersInformation.ofJson transfers.toJson = some transfers := by
  cases transfers with
  | transfersEnabled transfersTimestamp =>
    refine (Json.decodeTagged_externallyTagged rfl _).trans ?_
    rw [Json.decodeField_object, Json.decodeWrapped_wrapped.mpr h]
    rfl
  | transfersDisabled transferPollAccountId =>
    refine (Json.decodeTagged_externallyTagged rfl _).trans ?_
    rw [Json.decodeField_object, Json.decodeString, parseAccountId_eq_some.mpr ⟨h, rfl⟩]
    rfl

end Lockup

/-! ## What the factory passes -/

namespace Creators.LockupFactory

open Lockup

variable (encodeBase64 : List UInt8 → String) (decodeBase64 : String → Option (List UInt8))

/-- The JSON value of the arguments of the `new` call. -/
def LockupArgs.toJson (args : LockupArgs) : Json :=
  .object [("owner_account_id", .string args.ownerAccountId),
    ("lockup_duration", .wrapped args.lockupDuration),
    ("lockup_timestamp", Json.encodeOption .wrapped args.lockupTimestamp),
    ("transfers_information", args.transfersInformation.toJson),
    ("vesting_schedule",
      Json.encodeOption (VestingScheduleOrHash.toJson encodeBase64) args.vestingSchedule),
    ("release_duration", Json.encodeOption .wrapped args.releaseDuration),
    ("staking_pool_whitelist_account_id", .string args.stakingPoolWhitelistAccountId),
    ("foundation_account_id", Json.encodeOption .string args.foundationAccountId)]

/-- The arguments of a creation. -/
structure CreateArguments where
  ownerAccountId : AccountId
  lockupDuration : ℕ
  lockupTimestamp : Option ℕ
  vestingSchedule : Option VestingScheduleOrHash
  releaseDuration : Option ℕ
  whitelistAccountId : Option AccountId
  deriving DecidableEq, Repr

/-- Reads the arguments of a creation. -/
def CreateArguments.ofJson (j : Json) : Option CreateArguments :=
  match j.decodeStruct [("owner_account_id", false), ("lockup_duration", false),
    ("lockup_timestamp", true), ("vesting_schedule", true), ("release_duration", true),
    ("whitelist_account_id", true)] with
  | some [owner, duration, timestamp, vesting, release, whitelist] => do
    let ownerAccountId ← owner.decodeString parseAccountId
    let lockupDuration ← duration.decodeWrapped u64Max
    let lockupTimestamp ← timestamp.decodeOption (Json.decodeWrapped u64Max)
    let vestingSchedule ← vesting.decodeOption (VestingScheduleOrHash.ofJson decodeBase64)
    let releaseDuration ← release.decodeOption (Json.decodeWrapped u64Max)
    let whitelistAccountId ← whitelist.decodeOption (Json.decodeString parseAccountId)
    return {
      ownerAccountId
      lockupDuration
      lockupTimestamp
      vestingSchedule
      releaseDuration
      whitelistAccountId }
  | _ => none

/-- The initialization of the factory, from its arguments' JSON value. -/
def newCall (env : Env) (stateExists : Bool) (arguments : Json) : Exec LockupFactory := do
  let (whitelistAccountId, foundationAccountId) ← expect
    (arguments.decodePair "whitelist_account_id" "foundation_account_id"
      (Json.decodeString parseAccountId) (Json.decodeString parseAccountId))
    "Failed to deserialize input from JSON."
  new env stateExists whitelistAccountId foundationAccountId

/-- A creation, from its arguments' JSON value. -/
def createCall (s : LockupFactory) (sha256 : List UInt8 → Hash) (env : Env) (arguments : Json) :
    Exec (Batch LockupArgs OnLockupCreate) := do
  let a ← expect (CreateArguments.ofJson decodeBase64 arguments)
    "Failed to deserialize input from JSON."
  s.create sha256 env a.ownerAccountId a.lockupDuration a.lockupTimestamp a.vestingSchedule
    a.releaseDuration a.whitelistAccountId

variable {encodeBase64 decodeBase64}

/-- The same arguments, as the lockup declares them. -/
def LockupArgs.toNew (args : LockupArgs) : NewArguments where
  ownerAccountId := args.ownerAccountId
  lockupDuration := args.lockupDuration
  lockupTimestamp := args.lockupTimestamp
  transfersInformation := args.transfersInformation
  vestingSchedule := args.vestingSchedule
  releaseDuration := args.releaseDuration
  stakingPoolWhitelistAccountId := args.stakingPoolWhitelistAccountId
  foundationAccountId := args.foundationAccountId

/-- The values of the arguments are of their types. -/
structure LockupArgs.Fits (args : LockupArgs) : Prop where
  owner : isValidAccountId args.ownerAccountId
  duration : args.lockupDuration ≤ u64Max
  timestamp : ∀ t ∈ args.lockupTimestamp, t ≤ u64Max
  transfers : args.transfersInformation.Fits
  vesting : ∀ v ∈ args.vestingSchedule, v.Fits
  release : ∀ t ∈ args.releaseDuration, t ≤ u64Max
  whitelist : isValidAccountId args.stakingPoolWhitelistAccountId
  foundation : ∀ id ∈ args.foundationAccountId, isValidAccountId id

theorem isNull_toJson (v : VestingScheduleOrHash) : (v.toJson encodeBase64).isNull = false := by
  cases v <;> rfl

/-- The lockup reads what the factory passes. -/
theorem newArguments_toJson (hbase64 : ∀ bytes, decodeBase64 (encodeBase64 bytes) = some bytes)
    {args : LockupArgs} (h : args.Fits) :
    NewArguments.ofJson decodeBase64 (args.toJson encodeBase64) = some args.toNew := by
  have hstruct : (args.toJson encodeBase64).decodeStruct [("owner_account_id", false),
      ("lockup_duration", false), ("lockup_timestamp", true), ("transfers_information", false),
      ("vesting_schedule", true), ("release_duration", true),
      ("staking_pool_whitelist_account_id", false), ("foundation_account_id", true)] = _ :=
    Json.decodeStruct_object [.string args.ownerAccountId, .wrapped args.lockupDuration,
      Json.encodeOption .wrapped args.lockupTimestamp, args.transfersInformation.toJson,
      Json.encodeOption (VestingScheduleOrHash.toJson encodeBase64) args.vestingSchedule,
      Json.encodeOption .wrapped args.releaseDuration, .string args.stakingPoolWhitelistAccountId,
      Json.encodeOption .string args.foundationAccountId] rfl (by decide)
  have hwrapped : ∀ {o : Option ℕ}, (∀ t ∈ o, t ≤ u64Max) →
      (Json.encodeOption .wrapped o).decodeOption (Json.decodeWrapped u64Max) = some o :=
    fun ho => Json.decodeOption_encodeOption
      (fun t ht => Json.decodeWrapped_wrapped.mpr (ho t ht)) (fun _ => rfl)
  have hid : ∀ {id : AccountId}, isValidAccountId id →
      (Json.string id).decodeString parseAccountId = some id :=
    fun h => parseAccountId_eq_some.mpr ⟨h, rfl⟩
  have hvesting : (Json.encodeOption (VestingScheduleOrHash.toJson encodeBase64)
      args.vestingSchedule).decodeOption (VestingScheduleOrHash.ofJson decodeBase64) = some _ :=
    Json.decodeOption_encodeOption
      (fun v hv => VestingScheduleOrHash.ofJson_toJson hbase64 (h.vesting v hv)) isNull_toJson
  have hfoundation : (Json.encodeOption .string args.foundationAccountId).decodeOption
      (Json.decodeString parseAccountId) = some _ :=
    Json.decodeOption_encodeOption (fun id hid' => hid (h.foundation id hid')) (fun _ => rfl)
  unfold NewArguments.ofJson
  rw [hstruct]
  simp only [hid h.owner, Json.decodeWrapped_wrapped.mpr h.duration, hwrapped h.timestamp,
    TransfersInformation.ofJson_toJson h.transfers, hvesting, hwrapped h.release, hid h.whitelist,
    hfoundation]
  rfl

/-- The values of the arguments of a creation are of their types. -/
structure CreateArguments.Fits (a : CreateArguments) : Prop where
  owner : isValidAccountId a.ownerAccountId
  duration : a.lockupDuration ≤ u64Max
  timestamp : ∀ t ∈ a.lockupTimestamp, t ≤ u64Max
  vesting : ∀ v ∈ a.vestingSchedule, v.Fits
  release : ∀ t ∈ a.releaseDuration, t ≤ u64Max
  whitelist : ∀ id ∈ a.whitelistAccountId, isValidAccountId id

theorem isValid_of_decodeString {j : Json} {id : AccountId}
    (h : j.decodeString parseAccountId = some id) : isValidAccountId id := by
  cases j <;> simp only [Json.decodeString, reduceCtorEq] at h
  obtain ⟨hvalid, rfl⟩ := parseAccountId_eq_some.mp h
  exact hvalid

/-- What is read as the arguments of a creation fits. -/
theorem CreateArguments.fits_of_ofJson {j : Json} {a : CreateArguments}
    (h : CreateArguments.ofJson decodeBase64 j = some a) : a.Fits := by
  unfold CreateArguments.ofJson at h
  split at h
  · simp only [Option.bind_eq_bind, Option.bind_eq_some_iff, Option.pure_def,
      Option.some.injEq] at h
    obtain ⟨_, howner, _, hduration, _, htimestamp, _, hvesting, _, hrelease, _, hwhitelist, rfl⟩ := h
    refine ⟨isValid_of_decodeString howner, Json.le_of_decodeWrapped hduration, ?_, ?_, ?_, ?_⟩
    · intro t ht
      exact Json.le_of_decodeWrapped (Json.exists_of_decodeOption htimestamp t ht)
    · intro v hv
      exact VestingScheduleOrHash.fits_of_ofJson (Json.exists_of_decodeOption hvesting v hv)
    · intro t ht
      exact Json.le_of_decodeWrapped (Json.exists_of_decodeOption hrelease t ht)
    · intro id hid
      exact isValid_of_decodeString (Json.exists_of_decodeOption hwhitelist id hid)
  · cases h

/-! ## Creations -/

variable {sha256 : List UInt8 → Hash} {env : Env} {s : LockupFactory}

/-- The accounts of a factory are accounts. -/
structure Sound (s : LockupFactory) : Prop where
  whitelist : isValidAccountId s.whitelistAccountId
  foundation : isValidAccountId s.foundationAccountId

theorem sound_of_newCall {stateExists : Bool} {arguments : Json}
    (h : newCall env stateExists arguments = .ok s) : s.Sound := by
  simp only [newCall, new, bind_eq_ok, ensure_eq_ok, expect_eq_ok, pure_eq_ok] at h
  obtain ⟨⟨whitelist, foundation⟩, hread, _, -, _, -, rfl⟩ := h
  obtain ⟨_, _, hwhitelist, hfoundation⟩ := Json.exists_of_decodePair hread
  exact ⟨isValid_of_decodeString hwhitelist, isValid_of_decodeString hfoundation⟩

/-- What a creation asks for: a lockup of all tokens of the new account, with what was asked of the
release and of the vesting. The foundation is that of the factory, if there is a vesting. -/
def createdLockup (s : LockupFactory) (a : CreateArguments) (env : Env) : LockupContract where
  ownerAccountId := a.ownerAccountId
  lockupInformation :=
    { lockupAmount := env.accountBalance
      terminationWithdrawnTokens := 0
      lockupDuration := a.lockupDuration
      releaseDuration := a.releaseDuration
      lockupTimestamp := a.lockupTimestamp
      transfersInformation := .transfersEnabled TRANSFERS_STARTED }
  vestingInformation := match a.vestingSchedule with
    | none => .none
    | some (.vestingHash hash) => .vestingHash hash
    | some (.vestingSchedule schedule) => .vestingSchedule schedule
  stakingPoolWhitelistAccountId := a.whitelistAccountId.getD s.whitelistAccountId
  stakingInformation := none
  foundationAccountId := if a.vestingSchedule.isSome then some s.foundationAccountId else none

/-- The arguments of the `new` call of a creation. -/
def newArgs (s : LockupFactory) (a : CreateArguments) : LockupArgs where
  ownerAccountId := a.ownerAccountId
  lockupDuration := a.lockupDuration
  lockupTimestamp := a.lockupTimestamp
  transfersInformation := .transfersEnabled TRANSFERS_STARTED
  vestingSchedule := a.vestingSchedule
  releaseDuration := a.releaseDuration
  stakingPoolWhitelistAccountId := a.whitelistAccountId.getD s.whitelistAccountId
  foundationAccountId := if a.vestingSchedule.isSome then some s.foundationAccountId else none

/-- The arguments of the `new` call fit those of the creation. -/
theorem Sound.newArgs_fits (h : s.Sound) {a : CreateArguments} (ha : a.Fits) :
    (s.newArgs a).Fits := by
  refine ⟨ha.owner, ha.duration, ha.timestamp, ?_, ha.vesting, ha.release, ?_, ?_⟩
  · change TRANSFERS_STARTED ≤ u64Max
    decide
  · unfold newArgs
    cases hwhitelist : a.whitelistAccountId with
    | none => exact h.whitelist
    | some id => exact ha.whitelist id hwhitelist
  · intro id hid
    unfold newArgs at hid
    split at hid
    · cases hid
      exact h.foundation
    · cases hid

/-- The lockup accepts the arguments. -/
theorem Sound.new_newArgs (h : s.Sound) {a : CreateArguments} (ha : a.Fits) (env : Env) :
    LockupContract.new env (s.newArgs a).ownerAccountId (s.newArgs a).lockupDuration
      (s.newArgs a).lockupTimestamp (s.newArgs a).transfersInformation
      (s.newArgs a).vestingSchedule (s.newArgs a).releaseDuration
      (s.newArgs a).stakingPoolWhitelistAccountId (s.newArgs a).foundationAccountId =
        .ok (s.createdLockup a env) := by
  have hfits := h.newArgs_fits ha
  have hvesting : LockupContract.newVesting (s.newArgs a).foundationAccountId a.vestingSchedule =
      .ok (s.createdLockup a env).vestingInformation := by
    unfold newArgs createdLockup
    rcases a.vestingSchedule with _ | (hash | schedule) <;> rfl
  have hfoundation : LockupContract.assertFoundation (s.createdLockup a env).vestingInformation
      (s.newArgs a).foundationAccountId = .ok () := by
    have hvalid := h.foundation
    unfold newArgs createdLockup LockupContract.assertFoundation
    rcases a.vestingSchedule with _ | (hash | schedule)
    · rfl
    all_goals simpa [bind_eq_ok, ensure_eq_ok, expect_eq_ok] using hvalid
  simp only [LockupContract.new, bind_eq_ok, ensure_eq_ok, pure_eq_ok]
  exact ⟨(), hfits.owner, (), hfits.whitelist, (), rfl, _, hvesting, (), hfoundation, rfl⟩

/-- **Creations.** A factory that was initialized accepts a creation, and the lockup of the new
account reads the arguments of its `new` call and accepts them, whatever the environment: it is the
lockup that was asked for. -/
theorem created_lockup_initializes (sha256 : List UInt8 → Hash)
    (encodeBase64 : List UInt8 → String) (decodeBase64 : String → Option (List UInt8))
    (hbase64 : ∀ bytes, decodeBase64 (encodeBase64 bytes) = some bytes)
    (env₀ : Env) (arguments₀ : Json) (s : LockupFactory)
    (hnew : newCall env₀ false arguments₀ = .ok s) (env : Env) (arguments : Json)
    (batch : Batch LockupArgs OnLockupCreate)
    (hcreate : s.createCall decodeBase64 sha256 env arguments = .ok batch) :
    ∃ a args, CreateArguments.ofJson decodeBase64 arguments = some a ∧
      batch.receiverId = lockupAccountId sha256 env.currentAccountId a.ownerAccountId ∧
      batch.actions = [.createAccount, .deployContract CODE, .transfer env.attachedDeposit,
        .functionCall "new" args 0 LOCKUP_NEW] ∧
      ∀ env' : Env, LockupContract.newCall decodeBase64 env' (args.toJson encodeBase64) =
          .ok (s.createdLockup a env') ∧
        (s.createdLockup a env').IsNew env' a.vestingSchedule := by
  have hsound := sound_of_newCall hnew
  simp only [createCall, create, bind_eq_ok, ensure_eq_ok, expect_eq_ok, pure_eq_ok,
    parseAccountId_eq_some] at hcreate
  obtain ⟨a, hread, _, -, _, ⟨-, rfl⟩, rfl⟩ := hcreate
  have hfits := CreateArguments.fits_of_ofJson hread
  refine ⟨a, s.newArgs a, hread, rfl, rfl, ?_⟩
  intro env'
  have haccepted := hsound.new_newArgs hfits env'
  refine ⟨?_, ⟨_, _, _, _, _, _, _, haccepted⟩⟩
  unfold LockupContract.newCall
  rw [newArguments_toJson hbase64 (hsound.newArgs_fits hfits)]
  exact haccepted

theorem minAttachedBalance_le : MIN_ATTACHED_BALANCE ≤ u128Max := by decide

/-- An environment of the factory, with the minimal deposit. -/
def sampleEnv (predecessor : AccountId) : Env where
  currentAccountId := "factory"
  predecessorAccountId := predecessor
  signerAccountPk := "pk"
  attachedDeposit := MIN_ATTACHED_BALANCE
  accountBalance := 0
  accountLockedBalance := 0
  epochHeight := 1
  blockHeight := 1
  blockTimestamp := 1
  attachedDeposit_le := minAttachedBalance_le
  accountBalance_le := Nat.zero_le _
  accountLockedBalance_le := Nat.zero_le _

/-- The arguments of a creation with a private vesting, in any order of the fields. -/
def sampleCreation : Json :=
  .object [("lockup_duration", .string "63036000000000000"), ("release_duration", .null),
    ("vesting_schedule",
      .object [("VestingHash", .string "TBApaX7jWHFdOhSirdgXxLAWUUQN6Ag3H3gWWskNxYE=")]),
    ("owner_account_id", .string "owner")]

/-- The SHA-256 hash of the text `owner`, and 32 bytes for any other text. -/
def sampleSha256 (bytes : List UInt8) : Hash :=
  if bytes = [111, 119, 110, 101, 114] then
    [76, 16, 41, 105, 126, 227, 88, 113, 93, 58, 20, 162, 173, 216, 23, 196, 176, 22, 81, 68, 13,
      232, 8, 55, 31, 120, 22, 90, 201, 13, 197, 129]
  else (bytes ++ List.replicate 32 0).take 32

theorem length_sampleSha256 (bytes : List UInt8) : (sampleSha256 bytes).length = 32 := by
  unfold sampleSha256
  split
  · rfl
  · rw [List.length_take, List.length_append, List.length_replicate]
    omega

def sampleText (bytes : List UInt8) : String := .ofList (Base64.encode bytes)

def sampleBytes (text : String) : Option (List UInt8) := Base64.decode text.toList

theorem sampleBytes_sampleText (bytes : List UInt8) :
    sampleBytes (sampleText bytes) = some bytes := by
  rw [sampleBytes, sampleText, String.toList_ofList]
  exact Base64.decode_encode bytes

theorem created_lockup_initializes_sampleCreation :
    ∃ (batch : Batch LockupArgs OnLockupCreate) (a : CreateArguments) (args : LockupArgs),
      CreateArguments.ofJson sampleBytes sampleCreation = some a ∧
      batch.receiverId = lockupAccountId sampleSha256 "factory" a.ownerAccountId ∧
      batch.actions = [.createAccount, .deployContract CODE, .transfer MIN_ATTACHED_BALANCE,
        .functionCall "new" args 0 LOCKUP_NEW] ∧
      ∀ env' : Env, LockupContract.newCall sampleBytes env' (args.toJson sampleText) =
          .ok (createdLockup ⟨"whitelist", "foundation"⟩ a env') ∧
        (createdLockup ⟨"whitelist", "foundation"⟩ a env').IsNew env' a.vestingSchedule := by
  obtain ⟨batch, hcreate⟩ : ∃ batch, (⟨"whitelist", "foundation"⟩ : LockupFactory).createCall
      sampleBytes sampleSha256 (sampleEnv "caller") sampleCreation = .ok batch :=
    exists_of_isOk (by decide +kernel)
  exact ⟨batch, created_lockup_initializes sampleSha256 sampleText sampleBytes
    sampleBytes_sampleText (sampleEnv "creator") (.object
      [("whitelist_account_id", .string "whitelist"),
        ("foundation_account_id", .string "foundation")])
    ⟨"whitelist", "foundation"⟩ (by decide +kernel) _ _ batch hcreate⟩

/-! ## The account of a lockup -/

/-- Letters and digits may stand before any rest of an account id. -/
theorem accountIdChars_append {cs rest : List Char} (hne : cs ≠ [])
    (h : ∀ c ∈ cs, (c.isLower || c.isDigit) = true) (afterSeparator : Bool) :
    accountIdChars afterSeparator (cs ++ rest) = accountIdChars false rest := by
  induction cs generalizing afterSeparator with
  | nil => exact absurd rfl hne
  | cons c cs ih =>
    have hc := h c List.mem_cons_self
    rw [List.cons_append, accountIdChars, if_pos hc]
    cases cs with
    | nil => rfl
    | cons c' cs => exact ih (List.cons_ne_nil _ _) (fun d hd => h d (List.mem_cons_of_mem _ hd)) _

/-- A letter or a digit is a single byte. -/
theorem utf8Size_of_alnum {c : Char} (h : (c.isLower || c.isDigit) = true) : c.utf8Size = 1 := by
  rw [Char.utf8Size_eq_one_iff]
  rcases Bool.or_eq_true_iff.mp h with hlower | hdigit
  · have hle : c.val ≤ 'z'.val := of_decide_eq_true (Bool.and_eq_true_iff.mp hlower).2
    exact UInt32.le_trans hle (by decide)
  · have hle : c.val ≤ '9'.val := of_decide_eq_true (Bool.and_eq_true_iff.mp hdigit).2
    exact UInt32.le_trans hle (by decide)

/-- The characters of an account id are single bytes. -/
theorem utf8Size_of_accountIdChars {cs : List Char} {afterSeparator : Bool}
    (h : accountIdChars afterSeparator cs = true) : ∀ c ∈ cs, c.utf8Size = 1 := by
  induction cs generalizing afterSeparator with
  | nil =>
    intro c hc
    cases hc
  | cons c cs ih =>
    rw [accountIdChars] at h
    have hc : c.utf8Size = 1 ∧ ∃ after, accountIdChars after cs = true := by
      split_ifs at h with halnum hseparator
      · exact ⟨utf8Size_of_alnum halnum, _, h⟩
      · refine ⟨?_, _, (Bool.and_eq_true_iff.mp h).2⟩
        simp only [Bool.or_eq_true, decide_eq_true_eq] at hseparator
        rcases hseparator with (rfl | rfl) | rfl <;> decide
    intro d hd
    rcases List.mem_cons.mp hd with rfl | hd
    · exact hc.1
    · exact ih hc.2.choose_spec d hd

theorem utf8ByteSize_ofList {cs : List Char} (h : ∀ c ∈ cs, c.utf8Size = 1) :
    (String.ofList cs).utf8ByteSize = cs.length := by
  induction cs with
  | nil => rfl
  | cons c cs ih =>
    rw [String.ofList_cons, String.utf8ByteSize_append, String.utf8ByteSize_singleton,
      h c List.mem_cons_self, ih fun d hd => h d (List.mem_cons_of_mem _ hd), List.length_cons]
    omega

/-- An account id has as many bytes as characters. -/
theorem utf8ByteSize_of_isValid {id : AccountId} (h : isValidAccountId id) :
    id.utf8ByteSize = id.length := by
  simp only [isValidAccountId, Bool.and_eq_true] at h
  have hsize := utf8ByteSize_ofList (utf8Size_of_accountIdChars h.2)
  rwa [String.ofList_toList, String.length_toList] at hsize

theorem hexDigit_alnum {n : ℕ} (h : n < 16) :
    ((hexDigit n).isLower || (hexDigit n).isDigit) = true := by
  have hall : ∀ m : Fin 16, ((hexDigit m).isLower || (hexDigit m).isDigit) = true := by decide
  exact hall ⟨n, h⟩

theorem alnum_of_mem_hexEncode {bytes : List UInt8} {c : Char} (h : c ∈ (hexEncode bytes).toList) :
    (c.isLower || c.isDigit) = true := by
  rw [hexEncode, String.toList_ofList] at h
  obtain ⟨byte, -, hc⟩ := List.mem_flatMap.mp h
  have hbyte := byte.toNat_lt
  rcases List.mem_cons.mp hc with rfl | hc
  · exact hexDigit_alnum (by omega)
  · rcases List.mem_singleton.mp hc with rfl
    exact hexDigit_alnum (by omega)

theorem length_hexEncode (bytes : List UInt8) : (hexEncode bytes).length = 2 * bytes.length := by
  rw [← String.length_toList, hexEncode, String.toList_ofList, List.length_flatMap]
  simp [Nat.mul_comm]

/-- The account of a lockup is an account exactly if the account of the factory leaves room. -/
theorem isValid_lockupAccountId_iff (hsha256 : ∀ bytes, (sha256 bytes).length = 32)
    {current : AccountId} (hcurrent : isValidAccountId current) (owner : AccountId) :
    isValidAccountId (lockupAccountId sha256 current owner) ↔ current.utf8ByteSize ≤ 23 := by
  have hhash : ((sha256 owner.toUTF8.toList).take 20).length = 20 := by
    rw [List.length_take, hsha256]
    rfl
  have hlength : (lockupAccountId sha256 current owner).length = 41 + current.length := by
    simp only [lockupAccountId, String.length_append, length_hexEncode, hhash]
    rfl
  have hchars : accountIdChars true (lockupAccountId sha256 current owner).toList = true := by
    have hne : (hexEncode ((sha256 owner.toUTF8.toList).take 20)).toList ≠ [] := by
      intro hnil
      have hzero := congrArg List.length hnil
      rw [String.length_toList, length_hexEncode, hhash] at hzero
      cases hzero
    simp only [lockupAccountId, String.toList_append, List.append_assoc]
    rw [accountIdChars_append hne fun c hc => alnum_of_mem_hexEncode hc]
    simp only [isValidAccountId, Bool.and_eq_true] at hcurrent
    exact hcurrent.2
  rw [utf8ByteSize_of_isValid hcurrent, isValidAccountId, hchars, hlength]
  simp only [Bool.and_eq_true, decide_eq_true_eq, and_true]
  omega

/-- **Room for the lockups.** At a factory's account, whatever its length, the initialization is
accepted exactly if any creation with the minimal deposit is: the check of its length is what the
accounts of the lockups need. -/
theorem creations_accepted_iff (sha256 : List UInt8 → Hash)
    (hsha256 : ∀ bytes, (sha256 bytes).length = 32) (env₀ : Env)
    (hcurrent : isValidAccountId env₀.currentAccountId) (whitelist foundation : AccountId)
    (s : LockupFactory) (env : Env) (hsame : env.currentAccountId = env₀.currentAccountId)
    (hdeposit : MIN_ATTACHED_BALANCE ≤ env.attachedDeposit) (a : CreateArguments) :
    (∃ s₀, new env₀ false whitelist foundation = .ok s₀) ↔
      ∃ batch, s.create sha256 env a.ownerAccountId a.lockupDuration a.lockupTimestamp
        a.vestingSchedule a.releaseDuration a.whitelistAccountId = .ok batch := by
  have hroom := isValid_lockupAccountId_iff hsha256 hcurrent a.ownerAccountId
  rw [← hsame] at hroom
  have hnew : (∃ s₀, new env₀ false whitelist foundation = .ok s₀) ↔
      env.currentAccountId.utf8ByteSize ≤ 23 := by
    simp only [new, bind_eq_ok, ensure_eq_ok, pure_eq_ok, hsame]
    constructor
    · rintro ⟨s₀, _, -, _, hle, -⟩
      exact hle
    · intro hle
      exact ⟨_, (), trivial, (), hle, rfl⟩
  rw [hnew, ← hroom]
  simp only [create, bind_eq_ok, ensure_eq_ok, expect_eq_ok, pure_eq_ok, parseAccountId_eq_some]
  constructor
  · intro hvalid
    exact ⟨_, (), hdeposit, _, ⟨hvalid, rfl⟩, rfl⟩
  · rintro ⟨batch, _, -, _, ⟨hvalid, -⟩, -⟩
    exact hvalid

theorem creations_accepted_iff_sampleCreation :
    (∃ s₀, new (sampleEnv "creator") false "whitelist" "foundation" = .ok s₀) ↔
      ∃ batch, (⟨"whitelist", "foundation"⟩ : LockupFactory).create sampleSha256
        (sampleEnv "caller") "owner" 0 none none none none = .ok batch :=
  creations_accepted_iff sampleSha256 length_sampleSha256 (sampleEnv "creator")
    (by decide +kernel) "whitelist" "foundation" ⟨"whitelist", "foundation"⟩ (sampleEnv "caller")
    rfl (by decide) ⟨"owner", 0, none, none, none, none⟩

end Creators.LockupFactory

end UncContracts
