import UncContracts.Lockup.Published
import UncContracts.Lockup.Release

/-!
# Private vesting

A private vesting locks nothing by itself, so it is to be used only where the release shadows it:
where the release starts after the cliff of the vesting and ends after its end. Then the lockup does
in every run what the published lockup does, and what holds of a public vesting holds of it.

## Main definitions

* `LockupContract.Shadowed`: the release shadows a vesting schedule
* `Concealed`: what every step keeps, of a lockup with a private vesting
* `OnlyPresents`: nothing but the schedule is presented with the hash

## Main results

* `getLockedAmount_publish`: where the release shadows the vesting, the same is locked
* `toOption_step_publish`: a step of the private lockup is one of the published one
* `private_as_public`: a private vesting that is shadowed is as good as a public one
* `private_secured`: its tokens are covered, and what is locked never grows
-/

namespace UncContracts.Lockup

open Foundation LockupContract

/-- The release shadows the vesting: once transfers are enabled, it starts after the cliff and ends
after the vesting, at a time that fits in a `u64`. -/
def LockupContract.Shadowed (schedule : VestingSchedule) (s : LockupContract) : Prop :=
  ∀ transfersTimestamp,
    s.lockupInformation.transfersInformation = .transfersEnabled transfersTimestamp →
    schedule.cliffTimestamp ≤ s.releaseStart transfersTimestamp ∧
      schedule.endTimestamp ≤ s.releaseStart transfersTimestamp +
        s.lockupInformation.releaseDuration.getD 0 ∧
      s.releaseStart transfersTimestamp + s.lockupInformation.releaseDuration.getD 0 ≤ u64Max

/-! ## What is locked -/

section Amounts

variable {s t : LockupContract} {env : Env} {schedule : VestingSchedule}

/-- No more is unvested than is unreleased. -/
theorem unvestedAt_le_unreleasedAt (h : schedule.Valid) {lockupTimestamp time : ℕ}
    (hcliff : schedule.cliffTimestamp ≤ lockupTimestamp)
    (hend : schedule.endTimestamp ≤
      lockupTimestamp + s.lockupInformation.releaseDuration.getD 0)
    (hmax : lockupTimestamp + s.lockupInformation.releaseDuration.getD 0 ≤ u64Max)
    (htime : lockupTimestamp ≤ time) :
    s.unvestedAt schedule time ≤ s.unreleasedAt lockupTimestamp time := by
  have hstart := h.start_le
  unfold unvestedAt unreleasedAt
  cases hduration : s.lockupInformation.releaseDuration with
  | none =>
    rw [hduration, Option.getD_none] at hend
    rw [unvested_of_le (by omega), unreleased_of_le (by omega)]
  | some releaseDuration =>
    rw [hduration, Option.getD_some] at hend hmax
    have hle : unvested s.lockupInformation.lockupAmount schedule.cliffTimestamp
          schedule.endTimestamp (schedule.endTimestamp - schedule.startTimestamp) time ≤
        unreleased s.lockupInformation.lockupAmount (lockupTimestamp + releaseDuration)
          (lockupTimestamp + releaseDuration - lockupTimestamp) time :=
      unvested_le_unreleased (hstart.trans hcliff) hend (hcliff.trans htime) htime
    simpa only [Nat.min_eq_left hmax, Nat.add_sub_cancel_left] using hle

/-- **Shadows.** Where the release shadows the vesting, and before anything is withdrawn, the
published lockup locks as much. -/
theorem getLockedAmount_publish (h : schedule.Valid) (hshadowed : s.Shadowed schedule)
    {hash : Hash} (hhash : s.vestingInformation = .vestingHash hash)
    (hmax : s.lockupInformation.lockupAmount ≤ u128Max)
    (hzero : s.lockupInformation.terminationWithdrawnTokens = 0) :
    (s.publish schedule).getLockedAmount env = s.getLockedAmount env := by
  have hpublished : (s.publish schedule).vestingInformation = .vestingSchedule schedule := by
    simp only [publish, hhash, VestingInformation.publish]
  unfold getLockedAmount
  rw [lockupInformation_publish]
  cases htransfers : s.lockupInformation.transfersInformation with
  | transfersDisabled poll => rfl
  | transfersEnabled transfersTimestamp =>
    obtain ⟨hcliff, hend, hfits⟩ := hshadowed _ htransfers
    have hstart : (s.publish schedule).releaseStart transfersTimestamp =
        s.releaseStart transfersTimestamp := rfl
    simp only [hstart]
    split
    · next hreleased =>
      have hvesting : (s.publish schedule).getVestingLocked env =
          .ok (s.unvestedAt schedule env.blockTimestamp) := by
        simp only [getVestingLocked, hpublished]
        refine getUnvestedAmount_eq h ?_ (by simp [hpublished]) hmax
        rw [getTerminationStatus_publish, getTerminationStatus_eq_none, hhash]
        simp
      have hnothing : s.getVestingLocked env = .ok 0 := by
        simp only [getVestingLocked, hhash]
        rfl
      have hle := unvestedAt_le_unreleasedAt (s := s) h hcliff hend hfits hreleased
      rw [hvesting, hnothing, getUnreleasedAmount_eq hreleased hmax,
        getUnreleasedAmount_eq (s := s.publish schedule) hreleased hmax]
      -- What is unvested adds nothing to the larger one of the two.
      change Except.ok (max (s.unreleasedAt _ _ - s.lockupInformation.terminationWithdrawnTokens) _) =
        Except.ok (max (s.unreleasedAt _ _ - s.lockupInformation.terminationWithdrawnTokens) 0)
      rw [hzero, Nat.sub_zero, max_eq_left hle, max_eq_left (Nat.zero_le _)]
    · rfl

end Amounts

/-! ## What a step leaves -/

/-- Nothing but the schedule is presented with the hash. -/
def OnlyPresents (sha256 : List UInt8 → Hash) (salted : VestingScheduleWithSalt) (l : Label) :
    Prop :=
  ∀ env presented, l = .call env (.terminateVesting (some presented)) →
    presented.hash sha256 = salted.hash sha256 →
    presented.vestingSchedule = salted.vestingSchedule

/-- What every step keeps, of a lockup with a private vesting that the release shadows: no query is
answered, and the vesting is the private one, before anything was withdrawn, or has come to its
end. -/
structure Concealed (sha256 : List UInt8 → Hash) (salted : VestingScheduleWithSalt) (w : World) :
    Prop where
  unanswered : ∀ r ∈ w.receipts, r.Unanswered w.accountId
  lockup_le : w.contract.lockupInformation.lockupAmount ≤ u128Max
  vesting : w.contract.Private sha256 salted
  withdrawn_eq : w.contract.vestingInformation = .vestingHash (salted.hash sha256) →
    w.contract.lockupInformation.terminationWithdrawnTokens = 0
  shadowed : w.contract.Shadowed salted.vestingSchedule

section Steps

variable {sha256 : List UInt8 → Hash} {salted : VestingScheduleWithSalt} {env : Env}
  {s t : LockupContract} {method : Method} {p : Option Promise} {callback : Callback}
  {result : PromiseResult} {w w' : World} {l : Label}

/-- A call keeps the vesting, or has it end. -/
theorem called_ended (h : Called sha256 env s method t p) :
    t.lockupInformation = s.lockupInformation ∧
      (t.vestingInformation = s.vestingInformation ∨ t.Ended) := by
  cases h with
  | terminate => exact ⟨rfl, .inr (.inr ⟨_, rfl⟩)⟩
  | prepare => exact ⟨rfl, .inr (.inr ⟨_, rfl⟩)⟩
  | payout => exact ⟨rfl, .inr (.inr ⟨_, rfl⟩)⟩
  | _ => exact ⟨rfl, .inl rfl⟩

/-- A callback other than that of a query keeps the vesting and what was withdrawn, or has the
vesting end. -/
theorem resumed_ended (h : Resumed s callback result t p) (hquery : callback.isQuery = false) :
    (∃ withdrawn, t.lockupInformation =
        { s.lockupInformation with terminationWithdrawnTokens := withdrawn }) ∧
      (t.lockupInformation = s.lockupInformation ∧ t.vestingInformation = s.vestingInformation ∨
        t.Ended) := by
  cases h with
  | voted => cases hquery
  | nothingToMove stage => exact ⟨⟨_, rfl⟩, .inr (.inr ⟨_, rfl⟩)⟩
  | moved stage => exact ⟨⟨_, rfl⟩, .inr (.inr ⟨_, rfl⟩)⟩
  | notMoved stage => exact ⟨⟨_, rfl⟩, .inr (.inr ⟨_, rfl⟩)⟩
  | notPaid => exact ⟨⟨_, rfl⟩, .inr (.inr ⟨_, rfl⟩)⟩
  | paid hmax hvesting =>
    rcases hvesting with ⟨-, rfl⟩ | ⟨-, rfl⟩
    · exact ⟨⟨_, rfl⟩, .inr (.inr ⟨_, rfl⟩)⟩
    · exact ⟨⟨_, rfl⟩, .inr (.inl rfl)⟩
  | _ => exact ⟨⟨_, rfl⟩, .inl ⟨rfl, rfl⟩⟩

/-- What keeps the vesting and the release, up to the end of the vesting, keeps it concealed. -/
theorem Concealed.of_ended (h : Concealed sha256 salted w)
    (hunanswered : ∀ r ∈ w'.receipts, r.Unanswered w'.accountId)
    (hinformation : ∃ withdrawn, w'.contract.lockupInformation =
      { w.contract.lockupInformation with terminationWithdrawnTokens := withdrawn })
    (hvesting : w'.contract.lockupInformation = w.contract.lockupInformation ∧
        w'.contract.vestingInformation = w.contract.vestingInformation ∨ w'.contract.Ended) :
    Concealed sha256 salted w' := by
  obtain ⟨withdrawn, hwithdrawn⟩ := hinformation
  refine ⟨hunanswered, ?_, ?_, ?_, ?_⟩
  · rw [hwithdrawn]
    exact h.lockup_le
  · rcases hvesting with ⟨-, hsame⟩ | hended
    · unfold LockupContract.Private LockupContract.Ended
      rw [hsame]
      exact h.vesting
    · exact .inr hended
  · intro hhash
    rcases hvesting with ⟨hlockup, hsame⟩ | hnone | ⟨information, hterminating⟩
    · rw [hlockup]
      exact h.withdrawn_eq (hsame ▸ hhash)
    · cases hnone.symm.trans hhash
    · cases hterminating.symm.trans hhash
  · have hshadowed := h.shadowed
    unfold LockupContract.Shadowed releaseStart at hshadowed ⊢
    rw [hwithdrawn]
    exact hshadowed

theorem concealed_step (h : Concealed sha256 salted w)
    (hstep : (system sha256).step w l = .ok w') : Concealed sha256 salted w' := by
  have hunanswered := unanswered_step h.unanswered hstep
  cases moves_of_step hstep with
  | called hhost hcall htokens =>
    obtain ⟨hlockup, hvesting⟩ := called_ended hcall
    refine h.of_ended hunanswered ⟨_, hlockup⟩ ?_
    rcases hvesting with hsame | hended
    · exact .inl ⟨hlockup, hsame⟩
    · exact .inr hended
  | resumed htake hhost hresume htokens =>
    have hquery := (resumed_unanswered hresume
      (h.unanswered _ ((mem_of_takeAt htake).mpr (.inl rfl)))).1
    obtain ⟨hlockup, hvesting⟩ := resumed_ended hresume hquery
    exact h.of_ended hunanswered hlockup hvesting
  | _ => exact h.of_ended hunanswered ⟨_, rfl⟩ (.inl ⟨rfl, rfl⟩)

/-! ## The steps of the published lockup -/

/-- The published lockup locks as much. -/
theorem Concealed.getLockedAmount_eq (h : Concealed sha256 salted w)
    (hvalid : salted.vestingSchedule.Valid) (env : Env) :
    (w.contract.publish salted.vestingSchedule).getLockedAmount env =
      w.contract.getLockedAmount env := by
  rcases h.vesting with hhash | hended
  · exact getLockedAmount_publish hvalid h.shadowed hhash h.lockup_le (h.withdrawn_eq hhash)
  · rw [publish_of_ended hended]

section Publish

variable {schedule : VestingSchedule} {receipts : List Receipt}

theorem issue_publish : (w.publish schedule).issue env (s.publish schedule) receipts p =
    World.publish schedule <$> w.issue env s receipts p := by
  simp only [World.issue, map_bind]
  rfl

theorem deliver_publish {outcome : Outcome} {r : Receipt} :
    (w.publish schedule).deliver outcome receipts r =
      World.publish schedule <$> w.deliver outcome receipts r := by
  cases r with
  | promise p =>
    cases p with
    | functionCall receiverId method deposit callback =>
      simp only [World.deliver, map_bind]
      rfl
    | transfer receiverId amount callback =>
      simp only [World.deliver]
      split <;> rfl
    | addFullAccessKey receiverId publicKey => rfl
  | _ => rfl

/-- A callback runs at the published lockup, or panics there. -/
theorem resumeReceipt_publish {r : Receipt} :
    (w.publish schedule).resume env receipts r =
      World.publish schedule <$> w.resume env receipts r := by
  cases r with
  | callback callback result =>
    have hresume : (w.publish schedule).contract.resume env callback result =
        published schedule <$> w.contract.resume env callback result := resume_publish
    simp only [World.resume, hresume]
    cases w.contract.resume env callback result with
    | ok r => exact issue_publish
    | error e => rfl
  | _ => rfl

end Publish

/-- **Steps.** The published lockup accepts what the private one accepts, and does the same. -/
theorem toOption_step_publish (h : Concealed sha256 salted w)
    (hvalid : salted.vestingSchedule.Valid) (honly : OnlyPresents sha256 salted l) :
    ((system sha256).step (w.publish salted.vestingSchedule)
        (l.publish sha256 salted)).toOption =
      (((system sha256).step w l).toOption).map (World.publish salted.vestingSchedule) := by
  cases l with
  | call env method =>
    have hcall : ((w.publish salted.vestingSchedule).contract.call env sha256
          (method.publish sha256 salted)).toOption =
        ((w.contract.call env sha256 method).toOption).map (published salted.vestingSchedule) :=
      toOption_call_publish h.vesting (h.getLockedAmount_eq hvalid env)
        fun v hv => honly env v (by rw [hv])
    have hissue : ∀ r : LockupContract × Option Promise,
        ((w.publish salted.vestingSchedule).issue env (r.1.publish salted.vestingSchedule)
          w.receipts r.2).toOption =
        ((w.issue env r.1 w.receipts r.2).toOption).map (World.publish salted.vestingSchedule) := by
      intro r
      rw [issue_publish, toOption_map]
    simp only [system, Label.publish, toOption_bind, hcall, Option.map_bind, Option.bind_map,
      Function.comp_def]
    refine congrArg _ (funext fun _ => congrArg _ (funext fun _ => congrArg _ (funext fun r => ?_)))
    exact hissue r
  | deliver i outcome =>
    rw [← toOption_map]
    refine congrArg Except.toOption ?_
    simp only [system, Label.publish, map_bind]
    refine bind_congr fun taken => ?_
    cases taken with
    | mk receipt receipts => exact deliver_publish
  | resume i env =>
    rw [← toOption_map]
    refine congrArg Except.toOption ?_
    simp only [system, Label.publish, map_bind]
    refine bind_congr fun taken => ?_
    cases taken with
    | mk receipt receipts =>
      exact bind_congr fun _ => bind_congr fun _ => resumeReceipt_publish
  | receive amount => rfl
  | hold accountId held => rfl

end Steps

/-! ## Runs -/

section Runs

variable {sha256 : List UInt8 → Hash} {salted : VestingScheduleWithSalt} {env : Env}
  {s : LockupContract} {w : World}

/-- The published lockup is a new one, with a public vesting. -/
theorem isNew_publish {hash : Hash} (h : s.IsNew env (some (.vestingHash hash)))
    (schedule : VestingSchedule) :
    (s.publish schedule).IsNew env (some (.vestingSchedule schedule)) := by
  obtain ⟨owner, duration, lockupTimestamp, transfers, release, whitelist, foundation, h⟩ := h
  refine ⟨owner, duration, lockupTimestamp, transfers, release, whitelist, foundation, ?_⟩
  simp only [LockupContract.new, bind_eq_ok, pure_eq_ok] at h ⊢
  obtain ⟨_, howner, _, hwhitelist, _, hpoll, information, hvesting, _, hfoundation, rfl⟩ := h
  cases pure_eq_ok.mp hvesting
  exact ⟨(), howner, (), hwhitelist, (), hpoll, _, rfl, (), hfoundation, rfl⟩

theorem concealed_new (h : s.IsNew env (some (.vestingHash (salted.hash sha256))))
    (hshadowed : s.Shadowed salted.vestingSchedule) (held : AccountId → ℕ) :
    Concealed sha256 salted (World.initial env s held) := by
  obtain ⟨-, hvesting, hamount, hzero⟩ := new_cases h
  exact ⟨by rintro r ⟨⟩, hamount.trans_le env.accountBalance_le, .inl hvesting, fun _ => hzero,
    hshadowed⟩

theorem honest_publish (schedule : VestingSchedule) (w : World) (l : Label) :
    honest (w.publish schedule) (l.publish sha256 salted) = honest w l := by
  cases l <;> rfl

/-- Where the published lockup is covered, the private one is. -/
theorem Secured.of_publish (h : Secured (w.publish salted.vestingSchedule))
    (hconcealed : Concealed sha256 salted w) (hvalid : salted.vestingSchedule.Valid) :
    Secured w := by
  have hlocked := fun env => hconcealed.getLockedAmount_eq hvalid env
  refine ⟨?_, ?_⟩
  · intro env htime
    obtain ⟨locked, heq, hle⟩ := h.locked_le env htime
    exact ⟨locked, (hlocked env).symm.trans heq, hle⟩
  · intro env amount receiver t p hhost htransfer
    have hpublished : (w.publish salted.vestingSchedule).contract.transfer env amount receiver =
        .ok (t.publish salted.vestingSchedule, p) := by
      refine (transfer_publish (hlocked env)).trans ?_
      rw [htransfer]
      rfl
    obtain ⟨locked, heq, hle⟩ := h.transfer_le env amount receiver _ p hhost hpublished
    exact ⟨locked, (hlocked env).symm.trans heq, hle⟩

/-- **Runs.** The published lockup takes the steps of the private one. -/
theorem run_publish (h : Concealed sha256 salted w) (hvalid : salted.vestingSchedule.Valid)
    {ls : List Label} (honly : ∀ l ∈ ls, OnlyPresents sha256 salted l) :
    (system sha256).steps (w.publish salted.vestingSchedule) (ls.map (Label.publish sha256 salted)) =
        ((system sha256).steps w ls).map (Step.translate (World.publish salted.vestingSchedule)
          (Label.publish sha256 salted)) ∧
      (system sha256).run (w.publish salted.vestingSchedule)
          (ls.map (Label.publish sha256 salted)) =
        ((system sha256).run w ls).publish salted.vestingSchedule :=
  Machine.run_translate (I := Concealed sha256 salted)
    (fun l hl _ hw => toOption_step_publish hw hvalid (honly l hl))
    (fun _ _ _ hw hstep => concealed_step hw hstep) h

theorem concealed_run (h : Concealed sha256 salted w) (ls : List Label) :
    Concealed sha256 salted ((system sha256).run w ls) :=
  Machine.run_invariant (I := Concealed sha256 salted) (G := fun _ _ => True)
    (fun _ _ _ hw _ hstep => concealed_step hw hstep) (fun _ _ => trivial) h

end Runs

/-- The lockup does in a run what the published one does, which is a new lockup with a public
vesting. -/
structure AsPublic (sha256 : List UInt8 → Hash) (salted : VestingScheduleWithSalt) (env : Env)
    (s : LockupContract) (held : AccountId → ℕ) (ls : List Label) : Prop where
  isNew : (s.publish salted.vestingSchedule).IsNew env
    (some (.vestingSchedule salted.vestingSchedule))
  steps_eq : (system sha256).steps (World.initial env (s.publish salted.vestingSchedule) held)
      (ls.map (Label.publish sha256 salted)) =
    ((system sha256).steps (World.initial env s held) ls).map
      (Step.translate (World.publish salted.vestingSchedule) (Label.publish sha256 salted))
  run_eq : (system sha256).run (World.initial env (s.publish salted.vestingSchedule) held)
      (ls.map (Label.publish sha256 salted)) =
    ((system sha256).run (World.initial env s held) ls).publish salted.vestingSchedule
  locked_eq : ∀ env', ((system sha256).run (World.initial env (s.publish salted.vestingSchedule)
      held) (ls.map (Label.publish sha256 salted))).contract.getLockedAmount env' =
    ((system sha256).run (World.initial env s held) ls).contract.getLockedAmount env'

/-- **As good as public.** In every run of a new lockup with a private vesting that its release
shadows, in which nothing but the schedule is presented with the hash, the lockup accepts what the
published one accepts, with the same effects, and at all times as much is locked. -/
theorem private_as_public (sha256 : List UInt8 → Hash) (env : Env) (s : LockupContract)
    (salted : VestingScheduleWithSalt)
    (hnew : s.IsNew env (some (.vestingHash (salted.hash sha256))))
    (hvalid : salted.vestingSchedule.assertValid = .ok ())
    (hshadowed : s.Shadowed salted.vestingSchedule) (held : AccountId → ℕ) (ls : List Label)
    (honly : ∀ l ∈ ls, OnlyPresents sha256 salted l) :
    AsPublic sha256 salted env s held ls := by
  have hconcealed := concealed_new hnew hshadowed held
  obtain ⟨hsteps, hrun⟩ := run_publish hconcealed (assertValid_eq_ok.mp hvalid) honly
  refine ⟨isNew_publish hnew _, hsteps, hrun, fun env' => ?_⟩
  have hlocked := (concealed_run hconcealed ls).getLockedAmount_eq (assertValid_eq_ok.mp hvalid) env'
  exact (congrArg (fun w => w.contract.getLockedAmount env') hrun).trans hlocked

/-- A schedule with its salt. -/
def sampleSalted : VestingScheduleWithSalt := ⟨⟨10, 20, 110⟩, [7]⟩

/-- A lockup with that vesting in private, which is released between the times 100 and 150. -/
def samplePrivate : LockupContract :=
  { sampleLockup with
    lockupInformation := { sampleLockup.lockupInformation with
      lockupDuration := 100
      releaseDuration := some 50 }
    vestingInformation := .vestingHash (sampleSalted.hash id)
    foundationAccountId := some "foundation" }

theorem isNew_samplePrivate :
    samplePrivate.IsNew (sampleEnv "creator" (MIN_BALANCE_FOR_STORAGE + 4000000) 0)
      (some (.vestingHash (sampleSalted.hash id))) :=
  ⟨"owner", 100, none, .transfersEnabled 0, some 50, "whitelist", some "foundation", by rfl⟩

theorem shadowed_samplePrivate : samplePrivate.Shadowed sampleSalted.vestingSchedule := by
  rintro transfersTimestamp ⟨⟩
  decide

/-- The foundation presents nothing, then another salt, and then the schedule with its salt. -/
def sampleReveal : List Label :=
  [.call (sampleEnv "foundation" (MIN_BALANCE_FOR_STORAGE + 4000000) 15 sampleBalance_le)
      (.terminateVesting none),
    .call (sampleEnv "foundation" (MIN_BALANCE_FOR_STORAGE + 4000000) 15 sampleBalance_le)
      (.terminateVesting (some ⟨⟨10, 20, 110⟩, [8]⟩)),
    .call (sampleEnv "foundation" (MIN_BALANCE_FOR_STORAGE + 4000000) 15 sampleBalance_le)
      (.terminateVesting (some sampleSalted))]

theorem onlyPresents_sampleReveal : ∀ l ∈ sampleReveal, OnlyPresents id sampleSalted l := by
  simp only [sampleReveal, List.forall_mem_cons, List.not_mem_nil, false_imp_iff, implies_true,
    and_true]
  refine ⟨?_, ?_, ?_⟩
  · rintro env presented ⟨⟩
  · rintro env presented ⟨⟩ -
    rfl
  · rintro env presented ⟨⟩ -
    rfl

/-- The refused presentations leave the sample lockup alone, and the last one terminates its
vesting. -/
theorem private_as_public_sampleReveal :
    AsPublic id sampleSalted
      (sampleEnv "creator" (MIN_BALANCE_FOR_STORAGE + 4000000) 0 sampleBalance_le) samplePrivate
      (fun _ => 0) sampleReveal :=
  private_as_public id _ samplePrivate sampleSalted isNew_samplePrivate (by decide)
    shadowed_samplePrivate (fun _ => 0) sampleReveal onlyPresents_sampleReveal

/-- **Custody of a private vesting.** Where the release shadows the vesting, and nothing but the
schedule is presented with the hash, in every run with honest accounts the tokens cover the locked
amount and no transfer takes what is locked. -/
theorem private_secured (sha256 : List UInt8 → Hash) (env : Env) (s : LockupContract)
    (salted : VestingScheduleWithSalt)
    (hnew : s.IsNew env (some (.vestingHash (salted.hash sha256))))
    (hvalid : salted.vestingSchedule.assertValid = .ok ())
    (hshadowed : s.Shadowed salted.vestingSchedule) (held : AccountId → ℕ) (ls : List Label)
    (honly : ∀ l ∈ ls, OnlyPresents sha256 salted l)
    (hhonest : ∀ x ∈ (system sha256).steps (World.initial env s held) ls,
      honest x.before x.label = true) :
    Secured ((system sha256).run (World.initial env s held) ls) := by
  have hconcealed := concealed_new hnew hshadowed held
  have hschedule := assertValid_eq_ok.mp hvalid
  obtain ⟨hsteps, hrun⟩ := run_publish hconcealed hschedule honly
  have hpublic : ∀ x ∈ (system sha256).steps
      ((World.initial env s held).publish salted.vestingSchedule)
      (ls.map (Label.publish sha256 salted)), honest x.before x.label = true := by
    rw [hsteps]
    intro x hx
    obtain ⟨y, hy, rfl⟩ := List.mem_map.mp hx
    exact (honest_publish _ _ _).trans (hhonest y hy)
  have hcustody : Custody (((system sha256).run (World.initial env s held) ls).publish
      salted.vestingSchedule) := by
    rw [← hrun]
    refine Machine.run_invariant (I := Custody) (G := fun w l => honest w l = true)
      (fun _ _ _ h hl hstep => custody_step h hl hstep) hpublic ?_
    refine custody_new (isNew_publish hnew salted.vestingSchedule) ?_ held
    rintro v ⟨⟩
    exact ⟨_, rfl, hvalid⟩
  exact hcustody.secured.of_publish (concealed_run hconcealed ls) hschedule

theorem private_secured_sampleReveal :
    Secured ((system id).run (World.initial
      (sampleEnv "creator" (MIN_BALANCE_FOR_STORAGE + 4000000) 0 sampleBalance_le) samplePrivate
      fun _ => 0) sampleReveal) :=
  private_secured id _ samplePrivate sampleSalted isNew_samplePrivate (by decide)
    shadowed_samplePrivate (fun _ => 0) sampleReveal onlyPresents_sampleReveal (by decide +kernel)

end UncContracts.Lockup
