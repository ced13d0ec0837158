import UncContracts.Lockup.Locked
import UncContracts.Lockup.Recovery

/-!
# The payouts of a termination

A terminated vesting leaves an unvested amount, which the foundation withdraws in one or more
payouts. A payout is decided by a call and booked by the callback of its transfer. The amount that
is booked and the amount that remains are together always what was terminated.

## Main definitions

* `paidBy`, `bookedBy`: what a step pays by a transfer that succeeds, and what it books by the
  callback of one
* `World.acknowledged`: the payouts that succeeded and are not booked yet
* `Exact`: the payouts add up

## Main results

* `booked_of_moves`: a step takes what it books off the remaining amount
* `acknowledged_of_moves`: what is paid is acknowledged until it is booked
* `payouts_exact`: the payouts add up in every run after a termination
-/

namespace UncContracts.Lockup

open Foundation LockupContract

namespace Receipt

/-- The unvested tokens that a transfer in flight pays. -/
def payout : Receipt → ℕ
  | .promise (.transfer _ amount (some (.onWithdrawUnvestedAmount _ _))) => amount
  | _ => 0

/-- The unvested tokens that were paid and that the callback in flight is to book. -/
def acknowledged : Receipt → ℕ
  | .callback (.onWithdrawUnvestedAmount amount _) (.successful _) => amount
  | _ => 0

/-- A payout transfers the amount that its callback books. -/
def PaysOut : Receipt → Prop
  | .promise p => ∀ amount receiver, p.callback = some (.onWithdrawUnvestedAmount amount receiver) →
      p = .transfer receiver amount (some (.onWithdrawUnvestedAmount amount receiver))
  | _ => True

end Receipt

/-- The payouts that succeeded and are not booked yet. -/
def World.acknowledged (w : World) : ℕ := (w.receipts.map Receipt.acknowledged).sum

/-- The unvested tokens that a step pays: those of a transfer that succeeds. -/
def paidBy (w : World) : Label → ℕ
  | .deliver i outcome =>
    if outcome.result.isSuccess then (takeAt w.receipts i).elim 0 fun x => x.1.payout else 0
  | _ => 0

/-- The unvested tokens that a step books: those of a callback whose transfer succeeded. -/
def bookedBy (w : World) : Label → ℕ
  | .resume i _ => (takeAt w.receipts i).elim 0 fun x => x.1.acknowledged
  | _ => 0

/-- The unvested tokens paid along steps. -/
def paid (hist : List (Step World Label)) : ℕ := (hist.map fun x => paidBy x.before x.label).sum

/-- The unvested tokens booked along steps. -/
def booked (hist : List (Step World Label)) : ℕ :=
  (hist.map fun x => bookedBy x.before x.label).sum

/-- The terminated amount `u` is withdrawn but for what remains, and the vesting ends with the last
token. -/
structure Settles (u : ℕ) (s : LockupContract) : Prop where
  sum : s.lockupInformation.terminationWithdrawnTokens + s.getTerminatedUnvestedBalance = u
  terminated : (∃ remaining status, s.vestingInformation = .terminating ⟨remaining, status⟩ ∧
    0 < remaining) ∨ s.vestingInformation = .none

section Steps

variable {sha256 : List UInt8 → Hash} {env : Env} {s t : LockupContract} {method : Method}
  {p : Option Promise} {callback : Callback} {result : PromiseResult} {w w' : World} {l : Label}
  {r : Receipt} {rest : List Receipt} {i u : ℕ}

theorem bookedBy_of_takeAt (h : takeAt w.receipts i = some (r, rest)) :
    bookedBy w (.resume i env) = r.acknowledged := by
  simp [bookedBy, h]

theorem paidBy_of_takeAt {outcome : Outcome} (h : takeAt w.receipts i = some (r, rest)) :
    paidBy w (.deliver i outcome) = if outcome.result.isSuccess then r.payout else 0 := by
  simp [paidBy, h]

/-! ## What is transferred is what is booked -/

theorem paysOut_joined (h : Joined sha256 w l r) : r.PaysOut := by
  cases h with
  | called hhost hcall =>
    intro amount receiver hc
    cases hcall with
    | payout hvesting hamount hpos =>
      cases hc
      rfl
    | pool hsome hidle hvesting hp hbalance =>
      obtain ⟨c, hc', hpool, -⟩ := poolPromise_callback hp
      cases hc'.symm.trans hc
      cases hpool
    | prepare stage hsome hidle hvesting => cases stage <;> cases hc
    | _ => cases hc
  | resumed htake hresume =>
    intro amount receiver hc
    cases hresume with
    | withdrawing hsome hpos => cases hc
    | moving stage hsome hpos => cases stage <;> cases hc
  | _ => trivial

theorem paysOut_step (h : ∀ r ∈ w.receipts, r.PaysOut)
    (hstep : (system sha256).step w l = .ok w') : ∀ r ∈ w'.receipts, r.PaysOut := by
  intro r hr
  rcases joined_of_moves (moves_of_step hstep) hr with hr | hjoin
  · exact h r hr
  · exact paysOut_joined hjoin

/-- Promises and tokens on their way acknowledge nothing. -/
theorem sum_acknowledged_append {receipts new : List Receipt}
    (hnew : ∀ r ∈ new, r.acknowledged = 0) :
    ((receipts ++ new).map Receipt.acknowledged).sum =
      (receipts.map Receipt.acknowledged).sum := by
  rw [List.map_append, List.sum_append, Nat.add_eq_left]
  apply List.sum_eq_zero
  intro n hn
  obtain ⟨r, hr, rfl⟩ := List.mem_map.mp hn
  exact hnew r hr

theorem acknowledged_issued {receipts : List Receipt} :
    (w.issued env t receipts p).acknowledged = (receipts.map Receipt.acknowledged).sum := by
  refine sum_acknowledged_append ?_
  intro r hr
  obtain ⟨q, -, rfl⟩ := Option.map_eq_some_iff.mp (Option.mem_toList.mp hr)
  rfl

/-- A call that fails acknowledges nothing, and a call that is no transfer pays nothing. -/
theorem acknowledged_answered (result : PromiseResult) {receiverId : AccountId}
    {m : ExternalMethod} {deposit : ℕ}
    (h : (Receipt.promise (.functionCall receiverId m deposit callback)).PaysOut) :
    (Receipt.callback callback result).acknowledged = 0 := by
  cases callback with
  | onWithdrawUnvestedAmount amount receiver => cases h amount receiver rfl
  | _ => rfl

theorem acknowledged_transferred (result : PromiseResult) {receiverId : AccountId} {amount : ℕ}
    (h : (Receipt.promise (.transfer receiverId amount (some callback))).PaysOut) :
    (Receipt.callback callback result).acknowledged = if result.isSuccess then
      (Receipt.promise (.transfer receiverId amount (some callback))).payout else 0 := by
  cases callback with
  | onWithdrawUnvestedAmount amount' receiver =>
    cases h amount' receiver rfl
    cases result <;> rfl
  | _ => cases result <;> rfl

/-- What is paid is acknowledged until it is booked. -/
theorem acknowledged_of_moves (h : Moves sha256 w l w') (hpays : ∀ r ∈ w.receipts, r.PaysOut) :
    w'.acknowledged + bookedBy w l = w.acknowledged + paidBy w l := by
  have hsum : ∀ {i : ℕ} {r : Receipt} {rest : List Receipt}, takeAt w.receipts i = some (r, rest) →
      w.acknowledged = r.acknowledged + (rest.map Receipt.acknowledged).sum :=
    fun htake => sum_of_takeAt htake Receipt.acknowledged
  cases h with
  | called hhost hcall htokens =>
    rw [acknowledged_issued]
    simp [bookedBy, paidBy, World.acknowledged]
  | resumed htake hhost hresume htokens =>
    rw [acknowledged_issued, bookedBy_of_takeAt htake, hsum htake]
    simp only [paidBy]
    omega
  | panicked htake hhost hself hpanic =>
    rw [bookedBy_of_takeAt htake, hsum htake]
    simp only [World.acknowledged, paidBy]
    omega
  | @answered i outcome receiverId m deposit callback rest htake hself =>
    have hzero := acknowledged_answered outcome.result
      (hpays _ ((mem_of_takeAt htake).mpr (.inl rfl)))
    have hnew : ∀ r ∈ Receipt.callback callback outcome.result :: World.credits outcome.sent,
        r.acknowledged = 0 := by
      intro r hr
      rcases List.mem_cons.mp hr with rfl | hr
      · exact hzero
      · obtain ⟨amount, rfl⟩ := mem_credits hr
        rfl
    rw [hsum htake, paidBy_of_takeAt htake, World.acknowledged, sum_acknowledged_append hnew]
    simp [bookedBy, Receipt.payout, Receipt.acknowledged]
  | @transferred i outcome receiverId amount callback rest htake hsuccess =>
    rw [hsum htake, paidBy_of_takeAt htake]
    cases callback with
    | none => simp [World.acknowledged, bookedBy, Receipt.payout, Receipt.acknowledged]
    | some callback =>
      have hpaid := acknowledged_transferred outcome.result
        (hpays _ ((mem_of_takeAt htake).mpr (.inl rfl)))
      have hnone :
          (Receipt.promise (.transfer receiverId amount (some callback))).acknowledged = 0 := rfl
      simp only [World.acknowledged, Option.map_some, Option.toList_some, List.map_append,
        List.sum_append, List.map_cons, List.map_nil, List.sum_cons, List.sum_nil, bookedBy, hpaid,
        hnone]
      omega
  | @bounced i outcome receiverId amount callback rest htake hfailure =>
    have hnew : ∀ r ∈ Receipt.refund callback amount ::
        (callback.map fun callback => Receipt.callback callback outcome.result).toList,
        r.acknowledged = 0 := by
      intro r hr
      rcases List.mem_cons.mp hr with rfl | hr
      · rfl
      · obtain ⟨c, -, rfl⟩ := Option.map_eq_some_iff.mp (Option.mem_toList.mp hr)
        rw [hfailure]
        cases c <;> rfl
    rw [hsum htake, paidBy_of_takeAt htake, World.acknowledged, sum_acknowledged_append hnew]
    simp [hfailure, PromiseResult.isSuccess, bookedBy, Receipt.acknowledged]
  | keyAdded htake =>
    rw [hsum htake, paidBy_of_takeAt htake]
    simp [World.acknowledged, bookedBy, Receipt.payout, Receipt.acknowledged]
  | credited htake hreceipt =>
    rw [hsum htake, paidBy_of_takeAt htake]
    rcases hreceipt with rfl | ⟨callback, rfl⟩ <;>
      simp [World.acknowledged, bookedBy, Receipt.payout, Receipt.acknowledged]
  | received => simp [World.acknowledged, bookedBy, paidBy]
  | holds => simp [World.acknowledged, bookedBy, paidBy]

/-! ## A step books what it takes off -/

theorem getTerminatedUnvestedBalance_eq {amount : ℕ} {status : TerminationStatus}
    (h : s.vestingInformation = .terminating ⟨amount, status⟩) :
    s.getTerminatedUnvestedBalance = amount := by
  simp [getTerminatedUnvestedBalance, h]

theorem getTerminatedUnvestedBalance_none (h : s.vestingInformation = .none) :
    s.getTerminatedUnvestedBalance = 0 := by
  simp [getTerminatedUnvestedBalance, h]

theorem Settles.of_sameVesting (h : Settles u s) (hsame : SameVesting s t)
    (hwithdrawn : t.lockupInformation.terminationWithdrawnTokens =
      s.lockupInformation.terminationWithdrawnTokens) :
    Settles u t ∧ t.getTerminatedUnvestedBalance = s.getTerminatedUnvestedBalance := by
  have hremaining : t.getTerminatedUnvestedBalance = s.getTerminatedUnvestedBalance := by
    rcases hsame with heq | ⟨amount, status, status', hs, ht⟩
    · simp only [getTerminatedUnvestedBalance, heq]
    · rw [getTerminatedUnvestedBalance_eq hs, getTerminatedUnvestedBalance_eq ht]
  refine ⟨⟨by rw [hwithdrawn, hremaining]; exact h.sum, ?_⟩, hremaining⟩
  rcases hsame with heq | ⟨amount, status, status', hs, ht⟩
  · rw [heq]
    exact h.terminated
  · rcases h.terminated with ⟨remaining, status'', hs', hpos⟩ | hnone
    · cases hs.symm.trans hs'
      exact .inl ⟨_, _, ht, hpos⟩
    · cases hs.symm.trans hnone

/-- No call terminates a vesting again. -/
theorem Settles.called (h : Settles u s) (hcall : Called sha256 env s method t p) :
    Settles u t ∧ t.getTerminatedUnvestedBalance = s.getTerminatedUnvestedBalance := by
  obtain ⟨hinformation, hsame | ⟨salted, schedule, amount, status, hvesting, -, -⟩⟩ :=
    called_vesting hcall
  · exact h.of_sameVesting hsame (by rw [hinformation])
  · rcases assertVesting_cases hvesting with ⟨hash, heq⟩ | heq <;>
      rcases h.terminated with ⟨remaining, status', hs, -⟩ | hs <;> cases heq.symm.trans hs

/-- A callback books the tokens that it takes off the remaining amount. -/
theorem Settles.resumed (h : Settles u s) (hexpected : Expected s callback)
    (hresume : Resumed s callback result t p) :
    Settles u t ∧ t.getTerminatedUnvestedBalance + (Receipt.callback callback result).acknowledged =
      s.getTerminatedUnvestedBalance := by
  have hsum := h.sum
  cases hresume with
  | @paid amount receiver value vesting foundation hmax hvesting =>
    obtain ⟨unvested, hs, hle⟩ := hexpected.paying amount receiver rfl
    have hunvested := getTerminatedUnvestedBalance_eq hs
    rcases hvesting with ⟨hlt, rfl⟩ | ⟨hge, rfl⟩
    · refine ⟨⟨?_, .inl ⟨_, _, rfl, by omega⟩⟩, ?_⟩
      · change s.lockupInformation.terminationWithdrawnTokens + amount +
          (s.getTerminatedUnvestedBalance - amount) = u
        omega
      · change s.getTerminatedUnvestedBalance - amount + amount = s.getTerminatedUnvestedBalance
        omega
    · refine ⟨⟨?_, .inr rfl⟩, ?_⟩
      · change s.lockupInformation.terminationWithdrawnTokens + amount + 0 = u
        omega
      · change 0 + amount = s.getTerminatedUnvestedBalance
        omega
  | @notPaid amount receiver termination hvesting =>
    exact h.of_sameVesting (.inr ⟨_, _, _, hvesting, rfl⟩) rfl
  | voted hdisabled => exact h.of_sameVesting (.inl rfl) rfl
  | notVoted => exact h.of_sameVesting (.inl rfl) rfl
  | selected hnone hvesting => exact h.of_sameVesting (.inl rfl) rfl
  | refreshed hsome => exact h.of_sameVesting (.inl rfl) rfl
  | withdrawing hsome hpos => exact h.of_sameVesting (.inl rfl) rfl
  | nothingUnstaked hsome => exact h.of_sameVesting (.inl rfl) rfl
  | settled hsome hdeposit =>
    have hzero : (Receipt.callback callback result).acknowledged = 0 := by
      cases callback <;> first | rfl | cases hdeposit
    rw [hzero]
    exact h.of_sameVesting (.inl rfl) rfl
  | moving stage hsome hpos => cases stage <;> exact h.of_sameVesting (.inl rfl) rfl
  | nothingToMove stage hsome hvesting =>
    cases stage <;> exact h.of_sameVesting (.inr ⟨_, _, _, hvesting, rfl⟩) rfl
  | moved stage hsome hvesting =>
    cases stage <;> exact h.of_sameVesting (.inr ⟨_, _, _, hvesting, rfl⟩) rfl
  | notMoved stage hsome hvesting =>
    cases stage <;> exact h.of_sameVesting (.inr ⟨_, _, _, hvesting, rfl⟩) rfl

end Steps

/-! ## Before the termination -/

/-- What holds in every run, whether the vesting was terminated or not. -/
structure Accounted (w : World) : Prop where
  flight : SingleFlight w.contract w.pending
  paysOut : ∀ r ∈ w.receipts, r.PaysOut
  lockup_le : w.contract.lockupInformation.lockupAmount ≤ u128Max
  booked : Booked u128Max w.contract

section Before

variable {sha256 : List UInt8 → Hash} {env : Env} {s : LockupContract} {w w' : World} {l : Label}

theorem accounted_step (h : Accounted w) (hstep : (system sha256).step w l = .ok w') :
    Accounted w' := by
  have hmoves := moves_of_step hstep
  suffices hcontract : w'.contract.lockupInformation.lockupAmount ≤ u128Max ∧
      Booked u128Max w'.contract from
    ⟨singleFlight_step h.flight hstep, paysOut_step h.paysOut hstep, hcontract.1, hcontract.2⟩
  cases hmoves with
  | called hhost hcall htokens =>
    refine ⟨(called_vesting hcall).1 ▸ h.lockup_le, h.booked.called hcall ?_⟩
    intro salted schedule amount hvesting hamount
    exact getUnvestedAmount_le h.lockup_le (assertVesting_status hvesting) hamount
  | resumed htake hhost hresume htokens =>
    refine ⟨(resumed_vesting hresume).1 ▸ h.lockup_le, h.booked.resumed ?_ hresume⟩
    exact h.flight.expected _ ((mem_filterMap_of_takeAt htake).mpr (.inl rfl))
  | _ => exact ⟨h.lockup_le, h.booked⟩

theorem accounted_run {vesting : Option VestingScheduleOrHash} (hnew : s.IsNew env vesting)
    (held : AccountId → ℕ) (ls : List Label) :
    Accounted ((system sha256).run (World.initial env s held) ls) := by
  obtain ⟨-, -, hamount, hwithdrawn⟩ := new_cases hnew
  have hstatus := new_getTerminationStatus hnew
  have hnew' : Accounted (World.initial env s held) := by
    refine ⟨singleFlight_new hnew, by rintro r ⟨⟩, hamount.trans_le env.accountBalance_le, ?_, ?_,
      ?_⟩
    · exact hwithdrawn.trans_le (Nat.zero_le _)
    · intro amount status hvesting
      exact absurd hvesting (getTerminationStatus_eq_none.mp hstatus _)
    · exact fun _ _ => hwithdrawn
  exact Machine.run_invariant (I := Accounted) (G := fun _ _ => True)
    (fun _ _ _ h _ hstep => accounted_step h hstep) (fun _ _ => trivial) hnew'

/-- No payout that succeeded waits to be booked unless one is in flight. -/
theorem acknowledged_of_quiet (h : ∀ c ∈ w.pending, c.isPayout = false) : w.acknowledged = 0 := by
  apply List.sum_eq_zero
  intro n hn
  obtain ⟨r, hr, rfl⟩ := List.mem_map.mp hn
  cases r with
  | callback callback result =>
    have hpayout := h callback (List.mem_filterMap.mpr ⟨_, hr, rfl⟩)
    cases callback with
    | onWithdrawUnvestedAmount amount receiver => cases hpayout
    | _ => rfl
  | _ => rfl

/-- The payouts that wait to be booked remain to be withdrawn. -/
theorem Accounted.acknowledged_le (h : Accounted w) :
    w.acknowledged ≤ w.contract.getTerminatedUnvestedBalance := by
  -- At most one payout is in flight, and it is at most what remains.
  by_cases hquiet : ∀ c ∈ w.pending, c.isPayout = false
  · rw [acknowledged_of_quiet hquiet]
    exact Nat.zero_le _
  · push Not at hquiet
    obtain ⟨c, hc, hpayout⟩ := hquiet
    obtain ⟨r, hr, hrc⟩ := List.mem_filterMap.mp hc
    obtain ⟨i, hi⟩ := List.getElem?_of_mem hr
    have htake : takeAt w.receipts i = some (r, w.receipts.eraseIdx i) := by simp [takeAt, hi]
    have hsum := sum_of_takeAt htake Receipt.acknowledged
    have hrest : ((w.receipts.eraseIdx i).map Receipt.acknowledged).sum = 0 := by
      have hflight := (h.flight.perm (pending_of_takeAt htake)).payout_le
      rw [hrc] at hflight
      exact acknowledged_of_quiet (w := { w with receipts := w.receipts.eraseIdx i }) fun c' hc' =>
        kind_eq_false hflight (by simpa using hpayout) hc'
    cases c with
    | onWithdrawUnvestedAmount amount receiver =>
      obtain ⟨u, hvesting, hle⟩ := (h.flight.expected _ hc).paying amount receiver rfl
      rw [getTerminatedUnvestedBalance_eq hvesting, World.acknowledged, hsum, hrest]
      refine Nat.le_trans ?_ hle
      cases r with
      | callback callback result =>
        cases Option.some.inj hrc
        cases result <;> simp [Receipt.acknowledged]
      | _ => exact Nat.zero_le _
    | _ => exact absurd rfl hpayout

end Before

/-! ## After the termination -/

/-- The payouts along the steps since an amount `u` was terminated, and what remains. -/
structure Paying (u : ℕ) (hist : List (Step World Label)) (w : World) : Prop where
  accounted : Accounted w
  settles : Settles u w.contract
  booked_eq : w.contract.lockupInformation.terminationWithdrawnTokens = booked hist
  paid_eq : paid hist = booked hist + w.acknowledged
  steps : ∀ x ∈ hist, x.after.contract.getTerminatedUnvestedBalance + bookedBy x.before x.label =
    x.before.contract.getTerminatedUnvestedBalance

section After

variable {sha256 : List UInt8 → Hash} {env : Env} {w w' : World} {l : Label} {u : ℕ}
  {hist : List (Step World Label)}

/-- A step books what it takes off the remaining amount; no callback of a payout panics. -/
theorem booked_of_moves (haccounted : Accounted w) (h : Settles u w.contract)
    (hmoves : Moves sha256 w l w') :
    Settles u w'.contract ∧
      w'.contract.getTerminatedUnvestedBalance + bookedBy w l =
        w.contract.getTerminatedUnvestedBalance := by
  cases hmoves with
  | called hhost hcall htokens => exact h.called hcall
  | resumed htake hhost hresume htokens =>
    rw [bookedBy_of_takeAt htake]
    refine h.resumed (haccounted.flight.expected _ ?_) hresume
    exact (mem_filterMap_of_takeAt htake).mpr (.inl rfl)
  | @panicked i env callback result e rest htake hhost hself hpanic =>
    rw [bookedBy_of_takeAt htake]
    refine ⟨h, ?_⟩
    have hexpected := haccounted.flight.expected callback
      ((mem_filterMap_of_takeAt htake).mpr (.inl rfl))
    cases callback with
    | onWithdrawUnvestedAmount amount receiver =>
      -- A payout is at most what remains, so booking it does not overflow.
      obtain ⟨unvested, hvesting, hle⟩ := hexpected.paying amount receiver rfl
      have hmax := haccounted.booked.terminated_le _ _ hvesting
      have hbooks : ∃ x, w.contract.resume env (.onWithdrawUnvestedAmount amount receiver) result =
          .ok x := resume_payout (hself.trans hhost.1.symm) hvesting
        (Nat.le_trans (Nat.add_le_add_left hle _) hmax)
      obtain ⟨x, hx⟩ := hbooks
      cases hx.symm.trans hpanic
    | _ => rfl
  | _ => exact ⟨h, rfl⟩

theorem booked_append (x : Step World Label) :
    booked (hist ++ [x]) = booked hist + bookedBy x.before x.label := by simp [booked]

theorem paid_append (x : Step World Label) :
    paid (hist ++ [x]) = paid hist + paidBy x.before x.label := by simp [paid]

theorem paying_step (h : Paying u hist w) (hstep : (system sha256).step w l = .ok w') :
    Paying u (hist ++ [⟨w, l, w'⟩]) w' := by
  have hmoves := moves_of_step hstep
  obtain ⟨hsettles, hbooked⟩ := booked_of_moves h.accounted h.settles hmoves
  have hacknowledged := acknowledged_of_moves hmoves h.accounted.paysOut
  have hbefore := h.settles.sum
  have hafter := hsettles.sum
  have hbooked_eq := h.booked_eq
  have hpaid_eq := h.paid_eq
  refine ⟨accounted_step h.accounted hstep, hsettles, ?_, ?_, ?_⟩
  · rw [booked_append]
    simp only
    omega
  · rw [booked_append, paid_append]
    simp only
    omega
  · intro x hx
    rcases List.mem_append.mp hx with hx | hx
    · exact h.steps x hx
    · cases List.mem_singleton.mp hx
      exact hbooked

/-- A termination starts with the whole amount, and nothing paid. -/
theorem paying_terminated {salted : Option VestingScheduleWithSalt} (h : Accounted w)
    (hstep : (system sha256).step w (.call env (.terminateVesting salted)) = .ok w') :
    Paying w'.contract.getTerminatedUnvestedBalance [] w' := by
  have hpays := acknowledged_of_moves (moves_of_step hstep) h.paysOut
  cases moves_of_step hstep with
  | called hhost hcall htokens =>
    cases hcall with
    | pool hsome hidle hvesting hp hbalance => cases hp
    | terminate hvesting hamount hpos hstatus =>
      have hnone := assertVesting_status hvesting
      have hzero : w.contract.lockupInformation.terminationWithdrawnTokens = 0 := by
        refine h.booked.withdrawn_eq hnone ?_
        rcases assertVesting_cases hvesting with ⟨hash, heq⟩ | heq <;> simp [heq]
      have hquiet : w.acknowledged = 0 := acknowledged_of_quiet fun c hc =>
        (h.flight.expected c hc).isPayout_eq_false (by simp [hnone])
      refine ⟨accounted_step h hstep, ⟨?_, .inl ⟨_, _, rfl, hpos⟩⟩, hzero, ?_, ?_⟩
      · exact (congrArg (· + _) hzero).trans (Nat.zero_add _)
      · simp only [bookedBy, paidBy] at hpays
        simp only [paid, booked, List.map_nil, List.sum_nil]
        omega
      · rintro x ⟨⟩

end After

/-- Of the terminated amount `u`, the payouts that were booked are withdrawn and the rest remains,
and the vesting ends with the last token. What was paid is booked, but for a payout in flight; what
a step takes off the remaining amount it books. -/
structure Exact (u : ℕ) (hist : List (Step World Label)) (w : World) : Prop where
  single : w.pending.countP Callback.isPayout ≤ 1
  sum : booked hist + w.contract.getTerminatedUnvestedBalance = u
  withdrawn : w.contract.lockupInformation.terminationWithdrawnTokens = booked hist
  none_iff : w.contract.vestingInformation = .none ↔ booked hist = u
  paid_eq : paid hist = booked hist + w.acknowledged
  paid_le : paid hist ≤ u
  quiet : (∀ c ∈ w.pending, c.isPayout = false) → paid hist = booked hist
  steps : ∀ x ∈ hist, x.after.contract.getTerminatedUnvestedBalance + bookedBy x.before x.label =
    x.before.contract.getTerminatedUnvestedBalance

theorem Paying.exact {u : ℕ} {hist : List (Step World Label)} {w : World} (h : Paying u hist w) :
    Exact u hist w := by
  have hsum := h.settles.sum
  have hbooked := h.booked_eq
  have hpaid := h.paid_eq
  have hle := h.accounted.acknowledged_le
  refine ⟨h.accounted.flight.payout_le, by omega, hbooked, ?_, hpaid, by omega, ?_, h.steps⟩
  · rcases h.settles.terminated with ⟨remaining, status, hvesting, hpos⟩ | hnone
    · rw [getTerminatedUnvestedBalance_eq hvesting] at hsum
      rw [hvesting]
      simp only [reduceCtorEq, false_iff]
      omega
    · rw [getTerminatedUnvestedBalance_none hnone] at hsum
      rw [hnone]
      simp only [true_iff]
      omega
  · intro hquiet
    rw [hpaid, acknowledged_of_quiet hquiet, Nat.add_zero]

/-- **Exact payouts.** After every accepted termination of a run, and in every run from there, the
payouts add up to the terminated amount with what remains of it. -/
theorem payouts_exact (sha256 : List UInt8 → Hash) (env : Env)
    (vesting : Option VestingScheduleOrHash) (s : LockupContract) (hnew : s.IsNew env vesting)
    (held : AccountId → ℕ) (ls : List Label) (env' : Env) (salted : Option VestingScheduleWithSalt)
    (w : World)
    (hterminate : (system sha256).step ((system sha256).run (World.initial env s held) ls)
      (.call env' (.terminateVesting salted)) = .ok w) (ls' : List Label) :
    Exact w.contract.getTerminatedUnvestedBalance ((system sha256).steps w ls')
      ((system sha256).run w ls') :=
  (Machine.run_induction (M := system sha256)
    (P := Paying w.contract.getTerminatedUnvestedBalance)
    (paying_terminated (accounted_run hnew held ls) hterminate)
    (fun _ _ _ _ h hstep => paying_step h hstep) ls').exact

theorem sampleStorage_le : MIN_BALANCE_FOR_STORAGE ≤ u128Max := by decide

/-- The vesting of the sample lockup is terminated before its cliff. -/
def sampleTerminated : World :=
  (system id).exec (World.initial
    (sampleEnv "creator" (MIN_BALANCE_FOR_STORAGE + 4000000) 0 sampleBalance_le) sampleVesting
      fun _ => 0)
    (.call (sampleEnv "foundation" (MIN_BALANCE_FOR_STORAGE + 4000000) 15 sampleBalance_le)
      (.terminateVesting none))

/-- A payout fails, and the next one succeeds. -/
def samplePayouts : List Label :=
  [.call (sampleEnv "foundation" (MIN_BALANCE_FOR_STORAGE + 4000000) 16 sampleBalance_le)
      (.terminationWithdraw "foundation"),
    .deliver 0 ⟨.failed, 0, 0⟩,
    .deliver 0 ⟨.successful .other, 0, 0⟩,
    .resume 0 (sampleEnv "lockup" (MIN_BALANCE_FOR_STORAGE + 4000000) 17 sampleBalance_le),
    .call (sampleEnv "foundation" (MIN_BALANCE_FOR_STORAGE + 4000000) 18 sampleBalance_le)
      (.terminationWithdraw "foundation"),
    .deliver 0 ⟨.successful .other, 0, 0⟩,
    .resume 0 (sampleEnv "lockup" MIN_BALANCE_FOR_STORAGE 19 sampleStorage_le)]

theorem payouts_exact_samplePayouts :
    Exact (MIN_BALANCE_FOR_STORAGE + 4000000) ((system id).steps sampleTerminated samplePayouts)
        ((system id).run sampleTerminated samplePayouts) ∧
      paid ((system id).steps sampleTerminated samplePayouts) = 4000000 :=
  ⟨payouts_exact id _ _ sampleVesting isNew_sampleVesting (fun _ => 0) [] _ none sampleTerminated
    (Machine.step_eq_exec (by decide +kernel)) samplePayouts, by decide +kernel⟩

end UncContracts.Lockup
