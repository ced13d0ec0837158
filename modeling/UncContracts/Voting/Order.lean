import UncContracts.Voting.Tally

/-!
# The order of votes

States that read the same are those that a hash map may enumerate in different orders. Every call
leaves such states alike. Within one epoch, and as long as the voting stays open, a sequence of
calls leaves what each account's own calls make of its vote, so that the order in which different
accounts call does not matter.

## Main definitions

* `Same`: states that read the same
* `Shuffled`: runs in which the votes are enumerated anew before each call
* `callsOf`: what an account calls, in order
* `Below`: stakes that cannot overflow

## Main results

* `step_same`: a call leaves states that read the same alike
* `same_of_shuffled`: no order of enumeration changes what a run leaves
* `run_reordered`: the order of calls of different accounts does not matter
-/

namespace UncContracts.Voting

open Foundation VotingContract

/-- States that differ at most in the order in which the votes are enumerated. -/
structure Same (s t : VotingContract) : Prop where
  votes : ∀ v, t.votes.lookup v = s.votes.lookup v
  totalVotedStake : t.totalVotedStake = s.totalVotedStake
  result : t.result = s.result
  lastEpochHeight : t.lastEpochHeight = s.lastEpochHeight

/-! ## The order of the hash map -/

section Same

variable {s t : VotingContract} {env : Env} {validators : Validators} {accountId : AccountId}
  {accountStake : ℕ}

theorem Same.refl (s : VotingContract) : Same s s := ⟨fun _ => rfl, rfl, rfl, rfl⟩

theorem Same.symm (h : Same s t) : Same t s :=
  ⟨fun v => (h.votes v).symm, h.totalVotedStake.symm, h.result.symm, h.lastEpochHeight.symm⟩

theorem Same.trans {u : VotingContract} (h : Same s t) (h' : Same t u) : Same s u :=
  ⟨fun v => (h'.votes v).trans (h.votes v), h'.totalVotedStake.trans h.totalVotedStake,
    h'.result.trans h.result, h'.lastEpochHeight.trans h.lastEpochHeight⟩

theorem Same.mem_iff (h : Same s t) (v : AccountId) : v ∈ t.votes ↔ v ∈ s.votes := by
  rw [← AList.lookup_isSome, h.votes, AList.lookup_isSome]

theorem Same.keys_perm (h : Same s t) : t.votes.keys.Perm s.votes.keys := by
  refine (List.perm_ext_iff_of_nodup t.votes.keys_nodup s.votes.keys_nodup).mpr ?_
  intro v
  rw [← AList.mem_keys, ← AList.mem_keys, h.mem_iff]

theorem Same.sum_keys (h : Same s t) :
    (t.votes.keys.map validators.stake).sum = (s.votes.keys.map validators.stake).sum :=
  (h.keys_perm.map _).sum_eq

theorem Same.withResult (h : Same s t) :
    Same (s.withResult env validators) (t.withResult env validators) := by
  refine ⟨h.votes, h.totalVotedStake, ?_, h.lastEpochHeight⟩
  simp only [VotingContract.withResult, h.totalVotedStake]

theorem Same.refreshed (h : Same s t) :
    Same (s.refreshed env validators) (t.refreshed env validators) := by
  refine ⟨?_, h.sum_keys, ?_, rfl⟩
  · intro v
    simp only [lookup_refreshed, h.mem_iff]
  · simp only [VotingContract.refreshed, VotingContract.withResult, h.sum_keys]

theorem Same.pinged (h : Same s t) :
    Same (s.pinged env validators) (t.pinged env validators) := by
  unfold VotingContract.pinged
  rw [h.lastEpochHeight]
  split
  · exact h.refreshed
  · exact h

theorem Same.fits (h : Same s t) : t.Fits env validators ↔ s.Fits env validators := by
  unfold VotingContract.Fits
  rw [h.lastEpochHeight, h.sum_keys]

theorem Same.withVote (h : Same s t) :
    Same (s.withVote accountId accountStake) (t.withVote accountId accountStake) := by
  refine ⟨?_, ?_, h.result, h.lastEpochHeight⟩
  · intro v
    simp only [VotingContract.withVote]
    by_cases hpos : 0 < accountStake
    · rw [if_pos hpos, if_pos hpos]
      by_cases hv : v = accountId
      · rw [hv, AList.lookup_insert, AList.lookup_insert]
      · rw [AList.lookup_insert_ne hv, AList.lookup_insert_ne hv, AList.lookup_erase_ne hv,
          AList.lookup_erase_ne hv, h.votes]
    · rw [if_neg hpos, if_neg hpos]
      by_cases hv : v = accountId
      · rw [hv, AList.lookup_erase, AList.lookup_erase]
      · rw [AList.lookup_erase_ne hv, AList.lookup_erase_ne hv, h.votes]
  · simp only [VotingContract.withVote, h.totalVotedStake, h.votes]

theorem Same.counted (h : Same s t) :
    Same (s.counted env validators accountId accountStake)
      (t.counted env validators accountId accountStake) := by
  unfold VotingContract.counted
  split
  · exact h.withVote.withResult
  · exact h.withVote

theorem Same.voted {isVote : Bool} (h : Same s t) :
    Same (s.voted env validators isVote) (t.voted env validators isVote) := by
  unfold VotingContract.voted
  rw [h.result]
  split
  · exact h
  · exact h.counted

theorem Same.counts {isVote : Bool} (h : Same s t) (hs : s.Counts env validators isVote) :
    t.Counts env validators isVote := by
  obtain ⟨hpos, hle, hfits, hdouble⟩ := hs
  refine ⟨hpos, ?_, ?_, hdouble⟩
  · rw [h.votes, h.totalVotedStake]
    exact hle
  · rw [h.totalVotedStake]
    exact hfits

end Same

/-- A call leaves states that read the same alike, and is accepted by both or by neither. -/
theorem step_same {validators : ℕ → Validators} {s t s' : VotingContract} {c : Call}
    (h : Same s t) (hs : (voting validators).step s c = .ok s') :
    ∃ t', (voting validators).step t c = .ok t' ∧ Same s' t' := by
  simp only [voting, bind_eq_ok] at hs ⊢
  obtain ⟨_, hdeposit, hs⟩ := hs
  cases hmethod : c.method with
  | ping =>
    simp only [hmethod, ping_eq_ok] at hs ⊢
    obtain ⟨hnone, hfits, rfl⟩ := hs
    exact ⟨_, ⟨(), hdeposit, h.result.trans hnone, h.fits.mpr hfits, rfl⟩, h.pinged⟩
  | vote isVote =>
    simp only [hmethod, vote_eq_ok] at hs ⊢
    obtain ⟨hnone, hfits, hcounts, rfl⟩ := hs
    refine ⟨_, ⟨(), hdeposit, h.result.trans hnone, h.fits.mpr hfits, ?_, rfl⟩, h.pinged.voted⟩
    intro hopen
    exact h.pinged.counts (hcounts (h.pinged.result.symm.trans hopen))

theorem exec_same {validators : ℕ → Validators} {s t : VotingContract} (h : Same s t) (c : Call) :
    Same ((voting validators).exec s c) ((voting validators).exec t c) := by
  cases hs : (voting validators).step s c with
  | ok s' =>
    obtain ⟨t', ht, hsame⟩ := step_same h hs
    rw [Machine.exec_of_ok hs, Machine.exec_of_ok ht]
    exact hsame
  | error e =>
    rw [Machine.exec_of_error hs]
    cases ht : (voting validators).step t c with
    | ok t' =>
      obtain ⟨s', hs', -⟩ := step_same h.symm ht
      cases hs.symm.trans hs'
    | error e' =>
      rw [Machine.exec_of_error ht]
      exact h

/-- Runs from states that read the same end in such states. -/
theorem run_same {validators : ℕ → Validators} {s t : VotingContract} (h : Same s t)
    (ls : List Call) : Same ((voting validators).run s ls) ((voting validators).run t ls) := by
  induction ls generalizing s t with
  | nil => exact h
  | cons c ls ih => exact ih (exec_same h c)

/-- Runs in which the hash map enumerates its entries anew before each call. -/
inductive Shuffled (validators : ℕ → Validators) :
    VotingContract → List Call → VotingContract → Prop
  | nil {s t : VotingContract} : Same s t → Shuffled validators s [] t
  | cons {s u t : VotingContract} {c : Call} {ls : List Call} : Same s u →
      Shuffled validators ((voting validators).exec u c) ls t → Shuffled validators s (c :: ls) t

/-- **The order of the hash map.** No order of enumeration changes what a run leaves. -/
theorem same_of_shuffled {validators : ℕ → Validators} {s t : VotingContract} {ls : List Call}
    (h : Shuffled validators s ls t) : Same ((voting validators).run s ls) t := by
  induction h with
  | nil h => exact h
  | @cons s u t c ls h _ ih => exact (run_same (exec_same h c) ls).trans ih

/-! ## The order of the calls -/

/-- Stakes whose sums with the votes of an open voting do not overflow. -/
structure Below (bound : ℕ) (validators : Validators) : Prop where
  stake : ∀ v, validators.stake v < bound
  totalStake : validators.totalStake < bound

/-- What an account calls, in order, and the deposits that it attaches. -/
def callsOf (v : AccountId) (ls : List Call) : List (Method × ℕ) :=
  (ls.filter fun c => c.env.predecessorAccountId = v).map fun c => (c.method, c.env.attachedDeposit)

section Reordered

variable (validators : Validators) (v : AccountId)

/-- A call that an open voting accepts: without a deposit, and for a vote with a stake. -/
def Admits : Method × ℕ → Bool
  | (.ping, deposit) => deposit = 0
  | (.vote isVote, deposit) => deposit = 0 ∧ (isVote = true → 0 < validators.stake v)

/-- What a call of an account makes of its vote. -/
def afterCall (vote : Option ℕ) : Method × ℕ → Option ℕ
  | (.ping, _) => vote
  | (.vote isVote, deposit) =>
    if Admits validators v (.vote isVote, deposit) then
      if 0 < validators.ballot v isVote then some (validators.ballot v isVote) else none
    else vote

/-- What the calls of an account make of its vote. -/
def afterCalls (vote : Option ℕ) (calls : List (Method × ℕ)) : Option ℕ :=
  calls.foldl (afterCall validators v) vote

end Reordered

/-- The vote of an account at the stakes of an epoch. -/
def voteAt (validators : Validators) (epochHeight : ℕ) (s : VotingContract) (v : AccountId) :
    Option ℕ :=
  if epochHeight ≠ s.lastEpochHeight then
    if v ∈ s.votes ∧ 0 < validators.stake v then some (validators.stake v) else none
  else s.votes.lookup v

section Epoch

variable {validators : ℕ → Validators} {s t : VotingContract} {c : Call} {v : AccountId} {e : ℕ}

theorem lookup_pinged {env : Env} {validators : Validators} :
    (s.pinged env validators).votes.lookup v = voteAt validators env.epochHeight s v := by
  unfold VotingContract.pinged voteAt
  by_cases hne : env.epochHeight ≠ s.lastEpochHeight
  · rw [if_pos hne, if_pos hne, lookup_refreshed]
  · rw [if_neg hne, if_neg hne]

theorem voteAt_of_eq {validators : Validators} (h : s.lastEpochHeight = e) :
    voteAt validators e s v = s.votes.lookup v := by
  rw [voteAt, if_neg (not_not.mpr h.symm)]

theorem afterCall_of_not_admits {validators : Validators} {vote : Option ℕ} {m : Method × ℕ}
    (h : Admits validators v m = false) : afterCall validators v vote m = vote := by
  obtain ⟨method, deposit⟩ := m
  cases method with
  | ping => rfl
  | vote isVote => rw [afterCall, h, if_neg Bool.false_ne_true]

/-- A call that leaves the voting open was admitted, and changes the vote of its account. -/
theorem effect_of_step (h : (voting validators).step s c = .ok t) (hopen : t.result = none) :
    Admits (validators c.env.epochHeight) c.env.predecessorAccountId
        (c.method, c.env.attachedDeposit) = true ∧
      ∀ v, t.votes.lookup v =
        if v = c.env.predecessorAccountId then
          afterCall (validators c.env.epochHeight) v
            (voteAt (validators c.env.epochHeight) c.env.epochHeight s v)
            (c.method, c.env.attachedDeposit)
        else voteAt (validators c.env.epochHeight) c.env.epochHeight s v := by
  have hdeposit : c.env.attachedDeposit = 0 := by
    simp only [voting, bind_eq_ok, ensure_eq_ok] at h
    obtain ⟨_, hdeposit, -⟩ := h
    exact hdeposit
  obtain ⟨-, -, hcalled⟩ := called_of_step h
  cases hcalled with
  | pinged hmethod =>
    rw [hmethod, hdeposit]
    refine ⟨rfl, ?_⟩
    intro v
    rw [lookup_pinged]
    split
    · rfl
    · rfl
  | ended hmethod hresult => exact absurd hopen hresult
  | @counted isVote hmethod hresult hpos =>
    have hadmits : Admits (validators c.env.epochHeight) c.env.predecessorAccountId
        (.vote isVote, 0) = true := by
      simp only [Admits, decide_eq_true_eq]
      exact ⟨trivial, hpos⟩
    rw [hmethod, hdeposit]
    refine ⟨hadmits, ?_⟩
    intro v
    rw [lookup_counted, lookup_pinged]
    by_cases hv : v = c.env.predecessorAccountId
    · subst hv
      rw [if_pos rfl, if_pos rfl, afterCall, if_pos hadmits]
    · rw [if_neg hv, if_neg hv]

/-- An open voting accepts the calls that it admits, with stakes that cannot overflow. -/
theorem step_of_admits (hs : Sound validators s) (hopen : s.result = none)
    (hfits : s.Fits c.env (validators c.env.epochHeight))
    (hbelow : Below (2 ^ 126) (validators c.env.epochHeight))
    (hadmits : Admits (validators c.env.epochHeight) c.env.predecessorAccountId
      (c.method, c.env.attachedDeposit) = true) :
    ∃ t, (voting validators).step s c = .ok t := by
  simp only [voting, bind_eq_ok, ensure_eq_ok]
  cases hmethod : c.method with
  | ping =>
    simp only [hmethod, Admits, decide_eq_true_eq] at hadmits
    simp only [ping_eq_ok]
    exact ⟨_, (), hadmits, hopen, hfits, rfl⟩
  | vote isVote =>
    simp only [hmethod, Admits, decide_eq_true_eq] at hadmits
    simp only [vote_eq_ok]
    refine ⟨_, (), hadmits.1, hopen, hfits, ?_, rfl⟩
    intro hresult
    have htallied : Tallied (validators c.env.epochHeight) (s.pinged c.env _) :=
      Tallied.pinged fun heq => heq ▸ hs.tallied
    have hexceeds := (open_pinged fun heq => heq ▸ hs.open_ :
      Open (validators c.env.epochHeight) (s.pinged c.env _)).mp hresult
    have hstake := hbelow.stake c.env.predecessorAccountId
    have htotal := hbelow.totalStake
    have hballot : (validators c.env.epochHeight).ballot c.env.predecessorAccountId isVote ≤
        (validators c.env.epochHeight).stake c.env.predecessorAccountId := by
      cases isVote with
      | false => exact Nat.zero_le _
      | true => exact le_rfl
    simp only [Validators.exceeds, decide_eq_false_iff_not] at hexceeds
    refine ⟨hadmits.2, ?_, ?_, fun _ => ?_⟩
    · rw [← amount_eq_getD, htallied.total]
      exact Map.amount_le_total ..
    · simp only [u128Max]
      omega
    · simp only [u128Max]
      omega

theorem callsOf_cons {ls : List Call} : callsOf v (c :: ls) =
    if v = c.env.predecessorAccountId then (c.method, c.env.attachedDeposit) :: callsOf v ls
    else callsOf v ls := by
  rw [callsOf, List.filter_cons]
  by_cases hv : v = c.env.predecessorAccountId
  · rw [if_pos hv, if_pos (decide_eq_true hv.symm), List.map_cons]
    rfl
  · rw [if_neg hv, if_neg (by simpa using Ne.symm hv)]
    rfl

/-- Some call of an epoch is admitted. -/
def AnyAdmitted (validators : Validators) (ls : List Call) : Prop :=
  ∃ c ∈ ls, Admits validators c.env.predecessorAccountId (c.method, c.env.attachedDeposit) = true

theorem anyAdmitted_iff {validators : Validators} {ls : List Call} :
    AnyAdmitted validators ls ↔ ∃ v, ∃ m ∈ callsOf v ls, Admits validators v m = true := by
  constructor
  · rintro ⟨c, hc, hadmits⟩
    refine ⟨c.env.predecessorAccountId, _, List.mem_map_of_mem (List.mem_filter.mpr ⟨hc, ?_⟩),
      hadmits⟩
    exact decide_eq_true rfl
  · rintro ⟨v, m, hm, hadmits⟩
    obtain ⟨c, hc, rfl⟩ := List.mem_map.mp hm
    obtain ⟨hmem, hv⟩ := List.mem_filter.mp hc
    cases of_decide_eq_true hv
    exact ⟨c, hmem, hadmits⟩

/-- What a sequence of calls within an epoch leaves of an open voting: each account's own calls
decide on its vote. -/
structure After (validators : ℕ → Validators) (e : ℕ) (s : VotingContract) (ls : List Call)
    (t : VotingContract) : Prop where
  votes : ∀ v, voteAt (validators e) e t v =
    afterCalls (validators e) v (voteAt (validators e) e s v) (callsOf v ls)
  touched : AnyAdmitted (validators e) ls → t.lastEpochHeight = e
  untouched : ¬ AnyAdmitted (validators e) ls → t = s

theorem after_run (hbelow : Below (2 ^ 126) (validators e)) {ls : List Call}
    (hs : Sound validators s) (hepoch : ∀ c ∈ ls, c.env.epochHeight = e)
    (hfits : ∀ env : Env, env.epochHeight = e → s.Fits env (validators e))
    (hopen : ((voting validators).run s ls).result = none) :
    After validators e s ls ((voting validators).run s ls) := by
  -- A call that is accepted refreshes the stakes if it is the first one of the epoch. One that is
  -- refused leaves the state, and the votes still wait for that refresh.
  induction ls generalizing s with
  | nil =>
    refine ⟨fun _ => rfl, ?_, fun _ => rfl⟩
    rintro ⟨c, hc, -⟩
    cases hc
  | cons c ls ih =>
    have he := hepoch c List.mem_cons_self
    subst he
    rw [Machine.run_cons] at hopen ⊢
    have hnone : s.result = none := by
      by_contra hended
      exact hended (by rwa [← Machine.run_cons, run_of_ended hended] at hopen)
    cases h : (voting validators).step s c with
    | ok t =>
      rw [Machine.exec_of_ok h] at hopen ⊢
      have htopen : t.result = none := by
        by_contra hended
        exact hended (by rwa [run_of_ended hended] at hopen)
      obtain ⟨hadmits, hvotes⟩ := effect_of_step h htopen
      obtain ⟨ht, htepoch⟩ := hs.called (called_of_step h).2.2
      have hrest := ih ht (fun c hc => hepoch c (List.mem_cons_of_mem _ hc))
        (fun env henv hne => absurd (henv.trans htepoch.symm) hne) hopen
      refine ⟨?_, ?_, ?_⟩
      · intro v
        rw [hrest.votes, voteAt_of_eq htepoch, hvotes, callsOf_cons]
        by_cases hv : v = c.env.predecessorAccountId
        · rw [if_pos hv, if_pos hv]
          rfl
        · rw [if_neg hv, if_neg hv]
      · intro _
        by_cases hany : AnyAdmitted (validators c.env.epochHeight) ls
        · exact hrest.touched hany
        · rw [hrest.untouched hany]
          exact htepoch
      · intro hnone
        exact absurd ⟨c, List.mem_cons_self, hadmits⟩ hnone
    | error err =>
      rw [Machine.exec_of_error h] at hopen ⊢
      have hadmits : Admits (validators c.env.epochHeight) c.env.predecessorAccountId
          (c.method, c.env.attachedDeposit) = false := by
        refine Bool.eq_false_iff.mpr ?_
        intro hadmits
        obtain ⟨t, ht⟩ := step_of_admits hs hnone (hfits c.env rfl) hbelow hadmits
        cases h.symm.trans ht
      have hrest := ih hs (fun c hc => hepoch c (List.mem_cons_of_mem _ hc)) hfits hopen
      have hany : AnyAdmitted (validators c.env.epochHeight) (c :: ls) ↔
          AnyAdmitted (validators c.env.epochHeight) ls := by
        simp [AnyAdmitted, hadmits]
      refine ⟨?_, fun h => hrest.touched (hany.mp h), fun h => hrest.untouched (mt hany.mpr h)⟩
      intro v
      rw [hrest.votes, callsOf_cons]
      by_cases hv : v = c.env.predecessorAccountId
      · subst hv
        rw [if_pos rfl, afterCalls, afterCalls, List.foldl_cons, afterCall_of_not_admits hadmits]
      · rw [if_neg hv]

/-- Where the refresh of an epoch overflows, no call is accepted. -/
theorem run_of_not_fits {ls : List Call} {env : Env} (henv : env.epochHeight = e)
    (hepoch : ∀ c ∈ ls, c.env.epochHeight = e) (hfits : ¬ s.Fits env (validators e)) :
    (voting validators).run s ls = s := by
  induction ls with
  | nil => rfl
  | cons c ls ih =>
    have he := hepoch c List.mem_cons_self
    rw [Machine.run_cons]
    cases h : (voting validators).step s c with
    | ok t =>
      have hfits' := (called_of_step h).2.1
      rw [he] at hfits'
      refine absurd ?_ hfits
      intro hne
      exact hfits' (fun heq => hne (henv.trans (he.symm.trans heq)))
    | error err =>
      rw [Machine.exec_of_error h]
      exact ih fun c hc => hepoch c (List.mem_cons_of_mem _ hc)

/-- **The order of votes.** Within an epoch in which the voting stays open, sequences of calls with
the same calls of each account leave states that read the same. -/
theorem run_reordered (hbelow : Below (2 ^ 126) (validators e)) {ls ms : List Call}
    (hs : Sound validators s) (hls : ∀ c ∈ ls, c.env.epochHeight = e)
    (hms : ∀ c ∈ ms, c.env.epochHeight = e) (hcalls : ∀ v, callsOf v ls = callsOf v ms)
    (hlsOpen : ((voting validators).run s ls).result = none)
    (hmsOpen : ((voting validators).run s ms).result = none) :
    Same ((voting validators).run s ls) ((voting validators).run s ms) := by
  by_cases hfits : ∀ env : Env, env.epochHeight = e → s.Fits env (validators e)
  · have hl := after_run hbelow hs hls hfits hlsOpen
    have hm := after_run hbelow hs hms hfits hmsOpen
    have hany : AnyAdmitted (validators e) ls ↔ AnyAdmitted (validators e) ms := by
      simp only [anyAdmitted_iff, hcalls]
    by_cases hlsAny : AnyAdmitted (validators e) ls
    · have hlsEpoch := hl.touched hlsAny
      have hmsEpoch := hm.touched (hany.mp hlsAny)
      have hvotes : ∀ v, ((voting validators).run s ms).votes.lookup v =
          ((voting validators).run s ls).votes.lookup v := by
        intro v
        rw [← voteAt_of_eq hlsEpoch, ← voteAt_of_eq hmsEpoch, hl.votes, hm.votes, hcalls]
      refine ⟨hvotes, ?_, hmsOpen.trans hlsOpen.symm, hmsEpoch.trans hlsEpoch.symm⟩
      rw [(hs.run ms).tallied.total, (hs.run ls).tallied.total]
      exact Map.total_congr id hvotes
    · rw [hl.untouched hlsAny, hm.untouched (mt hany.mpr hlsAny)]
      exact Same.refl s
  · -- Where the stakes do not fit every call fails, in any order.
    push Not at hfits
    obtain ⟨env, henv, hfits⟩ := hfits
    rw [run_of_not_fits henv hls hfits, run_of_not_fits henv hms hfits]
    exact Same.refl s

end Epoch

end UncContracts.Voting
