import UncContracts.Lockup.Melting

/-!
# The release is final

What is locked only shrinks, along every run and not only between two calls: a termination freezes
what is unvested, a payout takes its tokens off, and a vote or a pool locks nothing. So a lockup
that has released all its tokens to the owner, as it has when the owner adds a full access key,
never locks any again, and has nothing left for the foundation.

## Main definitions

* `Vested`: what every step keeps, of a lockup whose vesting is none or a valid public schedule
* `Label.env`: the environment that the lockup is called in
* `Released`: nothing is locked, and the vesting was not terminated

## Main results

* `lockedAt_called`, `lockedAt_resumed`: no call and no callback locks tokens
* `locked_never_grows`: the locked amount never grows along a run
* `released_for_good`: once the owner adds a full access key, nothing is locked ever again
-/

namespace UncContracts.Lockup

open Foundation LockupContract

/-! ## What one step locks -/

section Effects

variable {sha256 : List UInt8 → Hash} {env : Env} {s t : LockupContract} {method : Method}
  {p : Option Promise} {callback : Callback} {result : PromiseResult}

/-- The status of a termination locks no tokens. -/
theorem lockedAt_sameVesting (h : SameVesting s t)
    (hinformation : t.lockupInformation = s.lockupInformation) {time : ℕ} :
    t.lockedAt time = s.lockedAt time :=
  lockedAt_congr hinformation (h.vestingLeft (by rw [hinformation])) time

/-- No call locks tokens. -/
theorem lockedAt_called (h : WellVested s) (hcall : Called sha256 env s method t p) :
    t.lockedAt env.blockTimestamp ≤ s.lockedAt env.blockTimestamp := by
  obtain ⟨hinformation, hsame | ⟨salted, schedule, amount, status, hassert, hamount, ht⟩⟩ :=
    called_vesting hcall
  · exact (lockedAt_sameVesting hsame hinformation).le
  · have hfrozen : SameVesting (s.withTermination amount status) t := .inl ht
    rw [lockedAt_sameVesting hfrozen hinformation, (h.terminated hassert hamount).1,
      lockedAt_withTermination]

/-- Neither the pool nor the status of a termination locks tokens. -/
theorem lockedAt_withStatus {information : TerminationInformation}
    (h : s.vestingInformation = .terminating information) (status : TerminationStatus)
    (pool : Option StakingInformation) {time : ℕ} :
    ({ s with stakingInformation := pool }.withTermination information.unvestedAmount
      status).lockedAt time = s.lockedAt time := by
  refine lockedAt_sameVesting ?_ ?_
  · exact .inr ⟨_, _, _, h, rfl⟩
  · rfl

/-- No callback locks tokens. -/
theorem lockedAt_resumed (h : WellVested s) (hexpected : Expected s callback)
    (hresume : Resumed s callback result t p) (time : ℕ) : t.lockedAt time ≤ s.lockedAt time := by
  have hvested := h.resumed hexpected hresume
  cases hresume with
  | @voted timestamp hdisabled =>
    -- The vote enables the transfers, and everything was locked.
    rw [lockedAt_of_disabled hdisabled]
    exact lockedAt_le hvested time
  | nothingToMove stage hsome hvesting => exact (lockedAt_withStatus hvesting _ _).le
  | moved stage hsome hvesting => exact (lockedAt_withStatus hvesting _ _).le
  | notMoved stage hsome hvesting => exact (lockedAt_withStatus hvesting _ _).le
  | notPaid hvesting => exact (lockedAt_withStatus hvesting _ s.stakingInformation).le
  | @paid amount receiver value vesting foundation hmax hvesting =>
    obtain ⟨u, hs, hamount⟩ := hexpected.paying amount receiver rfl
    rw [getTerminatedUnvestedBalance_eq hs] at hvesting
    refine (Nat.le_add_right _ amount).trans (lockedAt_paid h hs hamount rfl ?_ time)
    intro time
    rcases hvesting with ⟨-, rfl⟩ | ⟨hle, rfl⟩
    · rfl
    · exact (Nat.sub_eq_zero_of_le hle).symm
  | _ => exact le_rfl

end Effects

/-! ## Runs -/

/-- What every step keeps: at most one operation is in flight, and the vesting is well. -/
structure Vested (w : World) : Prop where
  flight : SingleFlight w.contract w.pending
  vested : WellVested w.contract

/-- The environment of a call or of a callback. -/
def Label.env : Label → Option Env
  | .call env _ | .resume _ env => some env
  | _ => none

section Runs

variable {sha256 : List UInt8 → Hash} {env : Env} {s : LockupContract} {w w' : World} {l : Label}
  {time : ℕ}

theorem vested_step (h : Vested w) (hstep : (system sha256).step w l = .ok w') : Vested w' :=
  ⟨singleFlight_step h.flight hstep, wellVested_step h.flight h.vested hstep⟩

/-- No step goes back in time. -/
theorem now_le_of_step (hstep : (system sha256).step w l = .ok w') : w.now ≤ w'.now := by
  cases moves_of_step hstep with
  | called hhost hcall htokens => exact hhost.2.2
  | resumed htake hhost hresume htokens => exact hhost.2.2
  | panicked htake hhost hself hpanic => exact hhost.2.2
  | _ => exact le_rfl

/-- No step locks tokens, from a time on at which the step may come. -/
theorem lockedAt_step (h : Vested w) (hstep : (system sha256).step w l = .ok w')
    (hlater : ∀ env, l.env = some env → time ≤ env.blockTimestamp) :
    w'.contract.lockedAt (max w'.now time) ≤ w.contract.lockedAt (max w.now time) := by
  have hmelts : w.contract.lockedAt (max w'.now time) ≤ w.contract.lockedAt (max w.now time) :=
    lockedAt_antitone h.vested (max_le_max_right time (now_le_of_step hstep))
  cases moves_of_step hstep with
  | @called env method t p hhost hcall htokens =>
    have hnow : max env.blockTimestamp time = env.blockTimestamp := max_eq_left (hlater env rfl)
    refine le_trans ?_ hmelts
    show t.lockedAt (max env.blockTimestamp time) ≤ w.contract.lockedAt (max env.blockTimestamp time)
    rw [hnow]
    exact lockedAt_called h.vested hcall
  | resumed htake hhost hresume htokens =>
    have hexpected := h.flight.expected _ ((mem_filterMap_of_takeAt htake).mpr (.inl rfl))
    exact (lockedAt_resumed h.vested hexpected hresume _).trans hmelts
  | _ => exact hmelts

theorem vested_run (h : Vested w) (ls : List Label) : Vested ((system sha256).run w ls) :=
  Machine.run_invariant (I := Vested) (G := fun _ _ => True)
    (fun _ _ _ hw _ hstep => vested_step hw hstep) (fun _ _ => trivial) h

/-- No run locks tokens, from a time on at which its first step may come. -/
theorem lockedAt_run (h : Vested w) (ls : List Label)
    (hlater : ∀ x ∈ (system sha256).steps w ls, ∀ env, x.label.env = some env →
      time ≤ env.blockTimestamp) :
    ((system sha256).run w ls).contract.lockedAt (max ((system sha256).run w ls).now time) ≤
      w.contract.lockedAt (max w.now time) := by
  have hrun := Machine.run_invariant (M := system sha256)
    (G := fun _ l => ∀ env, l.env = some env → time ≤ env.blockTimestamp)
    (I := fun w' => Vested w' ∧
      w'.contract.lockedAt (max w'.now time) ≤ w.contract.lockedAt (max w.now time)) ?_
    hlater ⟨h, le_rfl⟩
  · exact hrun.2
  · rintro a l b ⟨hvested, hle⟩ hlater hstep
    exact ⟨vested_step hvested hstep, (lockedAt_step hvested hstep hlater).trans hle⟩

theorem vested_new {vesting : Option VestingSchedule}
    (h : s.IsNew env (vesting.map .vestingSchedule))
    (hvalid : ∀ v, vesting = some v → v.assertValid = .ok ()) (held : AccountId → ℕ) :
    Vested (World.initial env s held) := by
  refine ⟨singleFlight_new h, wellVested_new h ?_⟩
  intro v hv
  obtain ⟨v', hsome, rfl⟩ := Option.map_eq_some_iff.mp hv
  exact ⟨v', rfl, hvalid v' hsome⟩

/-! ## Released lockups -/

/-- Nothing is locked, and the vesting was not terminated. -/
structure Released (w : World) : Prop extends Vested w where
  locked_eq : w.contract.lockedAt w.now = 0
  status_eq : w.contract.getTerminationStatus = none

/-- A lockup with nothing locked has nothing unvested to terminate. -/
theorem Released.vestingLeft_eq (h : Released w) {time : ℕ} (htime : w.now ≤ time) :
    w.contract.vestingLeft time = 0 := by
  have hle := vestingLeft_le_lockedAt h.vested time
  have hmelts := lockedAt_antitone h.vested htime
  have hzero := h.locked_eq
  omega

/-- The vesting of a released lockup is not terminated. -/
theorem Released.not_terminating (h : Released w) (information : TerminationInformation) :
    w.contract.vestingInformation ≠ .terminating information :=
  getTerminationStatus_eq_none.mp h.status_eq information

/-- A released lockup refuses the calls of the foundation that take tokens. -/
theorem Released.refuses (h : Released w) {method : Method}
    (hmethod : (∃ salted, method = .terminateVesting salted) ∨
      ∃ receiver, method = .terminationWithdraw receiver) :
    ∃ e, (system sha256).step w (.call env method) = .error e := by
  cases hstep : (system sha256).step w (.call env method) with
  | error e => exact ⟨e, rfl⟩
  | ok w' =>
    cases moves_of_step hstep with
    | called hhost hcall htokens =>
      cases hcall with
      | terminate hvesting hamount hpos hstatus =>
        have hzero := h.vestingLeft_eq hhost.2.2
        rw [(h.vested.terminated hvesting hamount).1, hzero] at hpos
        exact absurd hpos (Nat.lt_irrefl 0)
      | payout hvesting hamount hpos => exact absurd hvesting (h.not_terminating _)
      | pool hsome hidle hnone hp hbalance =>
        rcases hmethod with ⟨salted, rfl⟩ | ⟨receiver, rfl⟩ <;> cases hp
      | _ => rcases hmethod with ⟨salted, heq⟩ | ⟨receiver, heq⟩ <;> cases heq

/-- No step ends the release. -/
theorem released_step (h : Released w) (hstep : (system sha256).step w l = .ok w') :
    Released w' := by
  refine ⟨vested_step h.toVested hstep, ?_, ?_⟩
  · have hle := lockedAt_step h.toVested hstep fun env _ => Nat.zero_le _
    rw [Nat.max_zero, Nat.max_zero, h.locked_eq] at hle
    exact Nat.le_zero.mp hle
  · cases moves_of_step hstep with
    | called hhost hcall htokens =>
      cases hcall with
      | @terminate salted schedule amount status hvesting hamount hpos hstatus =>
        obtain ⟨e, he⟩ := h.refuses (.inl ⟨salted, rfl⟩)
        cases he.symm.trans hstep
      | prepare stage hsome hidle hvesting => exact absurd hvesting (h.not_terminating _)
      | payout hvesting hamount hpos => exact absurd hvesting (h.not_terminating _)
      | _ => exact h.status_eq
    | @resumed i env callback result rest t p htake hhost hresume htokens =>
      have hexpected := h.flight.expected _ ((mem_filterMap_of_takeAt htake).mpr (.inl rfl))
      cases hresume with
      | nothingToMove stage hsome hvesting => exact absurd hvesting (h.not_terminating _)
      | moved stage hsome hvesting => exact absurd hvesting (h.not_terminating _)
      | notMoved stage hsome hvesting => exact absurd hvesting (h.not_terminating _)
      | notPaid hvesting => exact absurd hvesting (h.not_terminating _)
      | paid hmax hvesting =>
        obtain ⟨u, hs, -⟩ := hexpected.paying _ _ rfl
        exact absurd hs (h.not_terminating _)
      | _ => exact h.status_eq
    | _ => exact h.status_eq

/-- The owner adds a full access key to a lockup with nothing locked and no termination. -/
theorem addFullAccessKey_cases {key : PublicKey} {t : LockupContract} {p : Promise}
    (h : s.addFullAccessKey env key = .ok (t, p)) :
    t = s ∧ s.getTerminationStatus = none ∧ s.getLockedAmount env = .ok 0 := by
  simp only [addFullAccessKey, assertNoTermination, bind_eq_ok, ensure_eq_ok, pure_eq_ok] at h
  obtain ⟨_, -, _, -, _, -, _, hstatus, locked, hlocked, _, rfl, h⟩ := h
  obtain ⟨rfl, rfl⟩ := Prod.mk.inj h
  exact ⟨rfl, hstatus, hlocked⟩

/-- A lockup to which the owner adds a full access key has released everything. -/
theorem released_of_addFullAccessKey (h : Vested w) {key : PublicKey}
    (hstep : (system sha256).step w (.call env (.addFullAccessKey key)) = .ok w') :
    Released w' := by
  have hvested := vested_step h hstep
  simp only [system, call, World.issue, bind_eq_ok, ensure_eq_ok, pure_eq_ok] at hstep
  obtain ⟨_, hhost, _, hother, _, ⟨_, -, ⟨t, p⟩, hkey, rfl⟩, _, htokens, rfl⟩ := hstep
  obtain ⟨rfl, hstatus, hlocked⟩ := addFullAccessKey_cases hkey
  rw [getLockedAmount_eq h.vested] at hlocked
  exact ⟨hvested, Except.ok.inj hlocked, hstatus⟩

theorem released_run (h : Released w) (ls : List Label) : Released ((system sha256).run w ls) :=
  Machine.run_invariant (I := Released) (G := fun _ _ => True)
    (fun _ _ _ hw _ hstep => released_step hw hstep) (fun _ _ => trivial) h

end Runs

/-- **Only shrinking.** In every run of a new lockup with no vesting or a valid public schedule,
whatever the owner, the foundation, the pools and the voting do, the locked amount is computed and
is at most what it was before, at any earlier point of the run. The earlier view may come at any time
up to the next call or callback. -/
theorem locked_never_grows (sha256 : List UInt8 → Hash) (env : Env) (vesting : Option VestingSchedule)
    (s : LockupContract) (hnew : s.IsNew env (vesting.map .vestingSchedule))
    (hvalid : ∀ v, vesting = some v → v.assertValid = .ok ()) (held : AccountId → ℕ)
    (ls ls' : List Label) (env₁ env₂ : Env)
    (hlater : ∀ x ∈ (system sha256).steps ((system sha256).run (World.initial env s held) ls) ls',
      ∀ env', x.label.env = some env' → env₁.blockTimestamp ≤ env'.blockTimestamp)
    (hviews : env₁.blockTimestamp ≤ env₂.blockTimestamp)
    (hafter : ((system sha256).run (World.initial env s held) (ls ++ ls')).now ≤
      env₂.blockTimestamp) :
    ∃ locked₁ locked₂,
      ((system sha256).run (World.initial env s held) ls).contract.getLockedAmount env₁ =
        .ok locked₁ ∧
      ((system sha256).run (World.initial env s held) (ls ++ ls')).contract.getLockedAmount env₂ =
        .ok locked₂ ∧
      locked₂ ≤ locked₁ := by
  have hvested : Vested ((system sha256).run (World.initial env s held) ls) :=
    vested_run (vested_new hnew hvalid held) ls
  rw [Machine.run_append] at hafter ⊢
  have hvested' : Vested ((system sha256).run
      ((system sha256).run (World.initial env s held) ls) ls') := vested_run hvested ls'
  refine ⟨_, _, getLockedAmount_eq hvested.vested, getLockedAmount_eq hvested'.vested, ?_⟩
  calc _ ≤ _ := lockedAt_antitone hvested'.vested (max_le hafter hviews)
    _ ≤ _ := lockedAt_run hvested ls' hlater
    _ ≤ _ := lockedAt_antitone hvested.vested (le_max_right _ _)

/-- The vesting of the sample lockup is terminated before its cliff. -/
def sampleTerminateEarly : List Label :=
  [.call (sampleEnv "foundation" (MIN_BALANCE_FOR_STORAGE + 4000000) 15 sampleBalance_le)
    (.terminateVesting none)]

/-- The vesting of the sample lockup is terminated at the time 15, and its tokens are paid out from 16
on. -/
theorem locked_never_grows_samplePayouts :
    ∃ locked₁ locked₂,
      ((system id).run (World.initial
          (sampleEnv "creator" (MIN_BALANCE_FOR_STORAGE + 4000000) 0 sampleBalance_le)
          sampleVesting fun _ => 0) sampleTerminateEarly).contract.getLockedAmount
        (sampleEnv "anyone" MIN_BALANCE_FOR_STORAGE 16 sampleStorage_le) = .ok locked₁ ∧
      ((system id).run (World.initial
          (sampleEnv "creator" (MIN_BALANCE_FOR_STORAGE + 4000000) 0 sampleBalance_le)
          sampleVesting fun _ => 0) (sampleTerminateEarly ++ samplePayouts)).contract.getLockedAmount
        (sampleEnv "anyone" MIN_BALANCE_FOR_STORAGE 20 sampleStorage_le) = .ok locked₂ ∧
      locked₂ ≤ locked₁ :=
  locked_never_grows id _ (some ⟨10, 20, 110⟩) sampleVesting isNew_sampleVesting
    (by rintro v ⟨⟩; rfl) (fun _ => 0) _ _ _ _ (by decide +kernel) (by decide) (by decide +kernel)

/-- The owner of the sample lockup adds a full access key once the vesting is over. -/
def sampleReleased : World :=
  (system id).exec (World.initial
    (sampleEnv "creator" (MIN_BALANCE_FOR_STORAGE + 4000000) 0 sampleBalance_le) sampleVesting
      fun _ => 0)
    (.call (sampleEnv "owner" (MIN_BALANCE_FOR_STORAGE + 4000000) 120 sampleBalance_le)
      (.addFullAccessKey "key"))

def sampleTerminateLate : List Label :=
  [.deliver 0 ⟨.successful .other, 0, 0⟩,
    .call (sampleEnv "foundation" (MIN_BALANCE_FOR_STORAGE + 4000000) 130 sampleBalance_le)
      (.terminateVesting none)]

/-- **Release.** Once the owner adds a full access key through the contract, after any run of a new
lockup with no vesting or a valid public schedule, nothing is locked ever again, and the foundation
neither terminates the vesting nor withdraws. -/
theorem released_for_good (sha256 : List UInt8 → Hash) (env : Env) (vesting : Option VestingSchedule)
    (s : LockupContract) (hnew : s.IsNew env (vesting.map .vestingSchedule))
    (hvalid : ∀ v, vesting = some v → v.assertValid = .ok ()) (held : AccountId → ℕ)
    (ls : List Label) (env' : Env) (key : PublicKey) (w : World)
    (hadd : (system sha256).step ((system sha256).run (World.initial env s held) ls)
      (.call env' (.addFullAccessKey key)) = .ok w) (ls' : List Label) :
    (∀ env'' : Env, ((system sha256).run w ls').now ≤ env''.blockTimestamp →
      ((system sha256).run w ls').contract.getLockedAmount env'' = .ok 0) ∧
    ∀ env'' method, ((∃ salted, method = Method.terminateVesting salted) ∨
        ∃ receiver, method = Method.terminationWithdraw receiver) →
      ∃ e, (system sha256).step ((system sha256).run w ls') (.call env'' method) = .error e := by
  have hvested : Vested ((system sha256).run (World.initial env s held) ls) :=
    vested_run (vested_new hnew hvalid held) ls
  have hreleased : Released ((system sha256).run w ls') :=
    released_run (released_of_addFullAccessKey hvested hadd) ls'
  refine ⟨?_, fun env'' method hmethod => hreleased.refuses hmethod⟩
  intro env'' htime
  have hmelts := lockedAt_antitone hreleased.vested htime
  rw [getLockedAmount_eq hreleased.vested, Nat.le_zero.mp (hmelts.trans_eq hreleased.locked_eq)]

/-- The vesting of the sample lockup ends at the time 110, and the owner adds a key at 120. The
foundation comes too late. -/
theorem released_for_good_sampleVesting :
    (∀ env'' : Env, ((system id).run sampleReleased sampleTerminateLate).now ≤
        env''.blockTimestamp →
      ((system id).run sampleReleased sampleTerminateLate).contract.getLockedAmount env'' =
        .ok 0) ∧
    ∀ env'' method, ((∃ salted, method = Method.terminateVesting salted) ∨
        ∃ receiver, method = Method.terminationWithdraw receiver) →
      ∃ e, (system id).step ((system id).run sampleReleased sampleTerminateLate)
        (.call env'' method) = .error e :=
  released_for_good id _ (some ⟨10, 20, 110⟩) sampleVesting isNew_sampleVesting
    (by rintro v ⟨⟩; rfl) (fun _ => 0) [] _ "key" sampleReleased
    (Machine.step_eq_exec (by decide +kernel)) sampleTerminateLate

end UncContracts.Lockup
