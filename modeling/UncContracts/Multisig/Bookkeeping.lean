import UncContracts.Multisig.Threshold

/-!
# The books of the multisig

The requests, their confirmations and the number of requests of each member are kept in three maps,
which every method updates together. A member that is deleted takes its requests along.

## Main definitions

* `Bookkeeping`: the three maps agree
* `Removes`: a call takes a request off the number of its author

## Main results

* `Bookkeeping.called`: every call keeps the books
* `bookkeeping_run`: the books agree after every run, the numbers stay below a limit that does not
  change, and none of them runs below zero
-/

namespace UncContracts.Multisig

open Foundation MultiSigContract

/-- Requests and confirmations are of the same ids, which were all given out; the authors are
members, and the numbers of requests are right. -/
structure Bookkeeping (s : MultiSigContract) : Prop where
  keys : ∀ id, id ∈ s.requests ↔ id ∈ s.confirmations
  below : ∀ id ∈ s.requests, id < s.requestNonce
  authors : ∀ id r, s.requests.lookup id = some r → r.member ∈ s.members
  numbers : ∀ m, s.numRequestsOf m = (s.requestIdsOf m).length

/-! ## Counting requests -/

/-- One for the requests of a member. -/
def isOf (m : MultisigMember) (r : MultiSigRequestWithSigner) : ℕ := if r.member = m then 1 else 0

section Counting

variable {s : MultiSigContract} {m : MultisigMember} {id : RequestId}
  {r : MultiSigRequestWithSigner} {ids : List RequestId}

theorem length_requestIdsOf (s : MultiSigContract) (m : MultisigMember) :
    (s.requestIdsOf m).length = Map.total (isOf m) s.requests := by
  rw [requestIdsOf, Map.total]
  induction s.requests.entries with
  | nil => rfl
  | cons e entries ih =>
    by_cases hm : e.2.member = m
    · simp [isOf, hm, ih, Nat.add_comm]
    · simp [isOf, hm, ih]

theorem amount_isOf (hr : s.requests.lookup id = some r) :
    s.requests.amount (isOf m) id = isOf m r := Map.amount_of_lookup hr

/-- A member without pending requests. -/
theorem length_eq_zero (h : ∀ id r, s.requests.lookup id = some r → r.member ≠ m) :
    (s.requestIdsOf m).length = 0 := by
  rw [List.length_eq_zero_iff, requestIdsOf, List.filterMap_eq_nil_iff]
  rintro ⟨id, r⟩ he
  exact if_neg (h id r (AList.mem_lookup_iff.mpr he))

/-- The author of a pending request has one. -/
theorem length_pos (hr : s.requests.lookup id = some r) :
    0 < (s.requestIdsOf r.member).length :=
  List.length_pos_of_mem (mem_requestIdsOf hr rfl)

/-! ## Dropping requests -/

/-- Dropping requests of one member leaves those of another. -/
theorem length_foldl_dropRequest {m' : MultisigMember} (hne : m' ≠ m)
    (h : ∀ id ∈ ids, ∀ r, s.requests.lookup id = some r → r.member = m) :
    ((ids.foldl dropRequest s).requestIdsOf m').length = (s.requestIdsOf m').length := by
  induction ids generalizing s with
  | nil => rfl
  | cons id ids ih =>
    refine (ih ?_).trans ?_
    · intro id' hid' r hr
      by_cases heq : id' = id
      · rw [heq] at hr
        cases hr.symm.trans (AList.lookup_erase id s.requests)
      · exact h id' (List.mem_cons_of_mem _ hid') r ((AList.lookup_erase_ne heq).symm.trans hr)
    · have herase := Map.total_erase (isOf m') s.requests id
      have hamount : s.requests.amount (isOf m') id = 0 := by
        cases hr : s.requests.lookup id with
        | none => exact Map.amount_of_lookup_none hr
        | some r =>
          rw [amount_isOf hr, isOf, h id List.mem_cons_self r hr, if_neg hne.symm]
      rw [length_requestIdsOf, length_requestIdsOf, ← herase, hamount]
      rfl

end Counting

/-! ## Every call keeps the books -/

section Steps

variable {s t u : MultiSigContract} {env : Env} {c : Call} {id : RequestId} {m m' : MultisigMember}
  {r : MultiSigRequestWithSigner}

theorem Bookkeeping.added {request : MultiSigRequest} (h : Bookkeeping s)
    (hadd : s.addRequest env request = .ok (t, id)) : Bookkeeping t := by
  obtain ⟨hmember, -, -, -, rfl, -⟩ := addRequest_eq_ok.mp hadd
  have hnew : s.requestNonce ∉ s.requests := fun hmem => absurd (h.below _ hmem) (lt_irrefl _)
  refine ⟨?_, ?_, ?_, ?_⟩
  · intro id
    simp only [MultiSigContract.added, AList.mem_insert, h.keys]
  · intro id hid
    rcases (AList.mem_insert _).mp hid with rfl | hid
    · exact Nat.lt_succ_self _
    · exact Nat.lt_succ_of_lt (h.below id hid)
  · intro id r hr
    by_cases hid : id = s.requestNonce
    · rw [hid] at hr
      cases hr.symm.trans (AList.lookup_insert s.requests)
      exact hmember
    · exact h.authors id r ((AList.lookup_insert_ne hid).symm.trans hr)
  · intro m
    have htotal := Map.total_insert (isOf m) s.requests s.requestNonce
      { request, member := caller env, addedTimestamp := env.blockTimestamp }
    rw [Map.amount_of_lookup_none (AList.lookup_eq_none.mpr hnew), ← length_requestIdsOf,
      ← h.numbers] at htotal
    rw [length_requestIdsOf]
    refine Eq.trans ?_ htotal.symm
    by_cases hm : m = caller env
    · rw [isOf, if_pos hm.symm, hm, numRequestsOf, MultiSigContract.added, AList.lookup_insert]
      rfl
    · rw [isOf, if_neg (Ne.symm hm), numRequestsOf, MultiSigContract.added,
        AList.lookup_insert_ne (toString_injective.ne hm)]
      rfl

/-- The number of requests of an author is positive: it never runs below zero. -/
theorem Bookkeeping.numRequestsOf_pos (h : Bookkeeping s) (hr : s.requests.lookup id = some r) :
    0 < s.numRequestsOf r.member := by
  rw [h.numbers]
  exact length_pos hr

theorem numRequestsOf_removed : (s.removed id m).numRequestsOf m' =
    if m' = m then s.numRequestsOf m - 1 else s.numRequestsOf m' := by
  rw [numRequestsOf, removed]
  by_cases hm : m' = m
  · rw [if_pos hm, hm, AList.lookup_insert]
    rfl
  · rw [if_neg hm, AList.lookup_insert_ne (toString_injective.ne hm)]
    rfl

theorem Bookkeeping.removed (h : Bookkeeping s) (hr : s.requests.lookup id = some r) :
    Bookkeeping (s.removed id r.member) := by
  refine ⟨?_, ?_, ?_, ?_⟩
  · intro id'
    simp only [MultiSigContract.removed, dropRequest, AList.mem_erase, h.keys]
  · intro id' hid'
    exact h.below id' (AList.mem_erase.mp hid').2
  · intro id' r' hr'
    by_cases hid : id' = id
    · rw [hid] at hr'
      cases hr'.symm.trans (AList.lookup_erase id s.requests)
    · exact h.authors id' r' ((AList.lookup_erase_ne hid).symm.trans hr')
  · intro m
    have hpos := h.numRequestsOf_pos hr
    have herase := Map.total_erase (isOf m) s.requests id
    rw [amount_isOf hr, ← length_requestIdsOf, ← h.numbers] at herase
    have hlength : ((s.removed id r.member).requestIdsOf m).length =
        Map.total (isOf m) (s.requests.erase id) := length_requestIdsOf _ _
    rw [numRequestsOf_removed, hlength]
    by_cases hm : m = r.member
    · rw [if_pos hm, ← hm]
      rw [isOf, if_pos hm.symm] at herase
      omega
    · rw [if_neg hm]
      rw [isOf, if_neg (Ne.symm hm)] at herase
      omega

theorem Bookkeeping.recorded (h : Bookkeeping s) (hr : s.requests.lookup id = some r) :
    Bookkeeping (s.recorded id m) := by
  refine ⟨?_, h.below, h.authors, h.numbers⟩
  intro id'
  have hmem : id ∈ s.confirmations := by
    rw [← h.keys, ← AList.lookup_isSome, hr]
    rfl
  simp only [MultiSigContract.recorded, AList.mem_insert, h.keys]
  constructor
  · exact .inr
  · rintro (rfl | hid')
    · exact hmem
    · exact hid'

theorem numRequestsOf_withoutMember (hm : m' ≠ m) :
    (s.withoutMember m).numRequestsOf m' = s.numRequestsOf m' := by
  rw [numRequestsOf, withoutMember_eq, AList.lookup_erase_ne (toString_injective.ne hm)]
  rfl

theorem numRequestsOf_withoutMember_self : (s.withoutMember m).numRequestsOf m = 0 := by
  rw [numRequestsOf, withoutMember_eq, AList.lookup_erase]
  rfl

/-- A member that is deleted takes its requests along. -/
theorem Bookkeeping.withoutMember (h : Bookkeeping s) : Bookkeeping (s.withoutMember m) := by
  refine ⟨?_, ?_, ?_, ?_⟩
  · intro id
    obtain ⟨hrequests, hconfirmations⟩ := lookup_withoutMember s m id
    rw [← AList.lookup_isSome, ← AList.lookup_isSome, hrequests, hconfirmations]
    split
    · exact Iff.rfl
    · rw [AList.lookup_isSome, AList.lookup_isSome, h.keys]
  · intro id hid
    obtain ⟨r, hr⟩ := Option.isSome_iff_exists.mp (AList.lookup_isSome.mpr hid)
    rw [withoutMember_eq]
    apply h.below
    rw [← AList.lookup_isSome, (lookup_withoutMember_eq_some.mp hr).1]
    rfl
  · intro id r hr
    obtain ⟨hr, hm⟩ := lookup_withoutMember_eq_some.mp hr
    rw [withoutMember_eq]
    exact Finset.mem_erase.mpr ⟨hm, h.authors id r hr⟩
  · intro m'
    by_cases hm : m' = m
    · rw [hm, numRequestsOf_withoutMember_self,
        length_eq_zero fun id r hr => (lookup_withoutMember_eq_some.mp hr).2]
    · have hof : ∀ id ∈ s.requestIdsOf m, ∀ r, s.requests.lookup id = some r → r.member = m :=
        fun id hid r hr => member_of_mem_requestIdsOf hid hr
      calc (s.withoutMember m).numRequestsOf m'
          = s.numRequestsOf m' := numRequestsOf_withoutMember hm
        _ = (s.requestIdsOf m').length := h.numbers m'
        _ = ((s.withoutMember m).requestIdsOf m').length := (length_foldl_dropRequest hm hof).symm

theorem Bookkeeping.acts {self : Prop} {action : MultiSigRequestAction} (h : Bookkeeping s)
    (hacts : Acts self s action t) : Bookkeeping t := by
  cases hacts with
  | addMember =>
    exact ⟨h.keys, h.below, fun id r hr => Finset.mem_insert_of_mem (h.authors id r hr), h.numbers⟩
  | deleteMember => exact h.withoutMember
  | promised => exact h

theorem Bookkeeping.edited {self : Prop} {actions : List MultiSigRequestAction} (h : Bookkeeping s)
    (hedited : Edited self actions s t) : Bookkeeping t := by
  induction hedited with
  | nil => exact h
  | cons hacts _ ih => exact ih (h.acts hacts)

theorem Bookkeeping.executing {request : MultiSigRequest} (h : Bookkeeping s)
    (hexecuting : Executing env request s t) : Bookkeeping t := by
  cases hexecuting with
  | edited hedited => exact h.edited hedited
  | set hself hactions hsets =>
    cases hsets with
    | confirmations => exact ⟨h.keys, h.below, h.authors, h.numbers⟩
    | limit => exact ⟨h.keys, h.below, h.authors, h.numbers⟩

/-- The books are right when a call confirms a request, also one that it adds. -/
theorem Bookkeeping.confirming (h : Bookkeeping s) (hu : confirming s c = some (u, id)) :
    Bookkeeping u := by
  rcases confirming_eq_some hu with ⟨rfl, -⟩ | ⟨request, -, hadd⟩
  · exact h
  · exact h.added hadd

/-- Every call keeps the books. -/
theorem Bookkeeping.called (h : Bookkeeping s) (hcalled : Called s c t) : Bookkeeping t := by
  cases hcalled with
  | added hmethod hadd => exact h.added hadd
  | deleted hmethod hmember hr hcooldown => exact h.removed hr
  | recorded hconfirming hmember hr hless => exact (h.confirming hconfirming).recorded hr
  | executed hreaches hmember hr hexecuting =>
    exact ((h.confirming hreaches.1).removed hr).executing hexecuting

theorem bookkeeping_new {members : List MultisigMember} {k : ℕ} {promise : Promise}
    (hnew : MultiSigContract.new env members k = .ok (s, promise)) : Bookkeeping s := by
  obtain ⟨-, rfl⟩ := new_eq_ok hnew
  refine ⟨fun id => Iff.rfl, ?_, ?_, fun m => rfl⟩
  · intro id hid
    cases hid
  · intro id r hr
    cases hr

end Steps

/-! ## The limit -/

/-- No member has more requests than the limit allows. -/
def Limited (s : MultiSigContract) : Prop := ∀ m, s.numRequestsOf m ≤ s.activeRequestsLimit

section Limit

variable {s t u : MultiSigContract} {env : Env} {c : Call} {id : RequestId} {m : MultisigMember}

theorem Limited.added {request : MultiSigRequest} (h : Limited s)
    (hadd : s.addRequest env request = .ok (t, id)) :
    Limited t ∧ t.activeRequestsLimit = s.activeRequestsLimit := by
  obtain ⟨-, -, hlimit, -, rfl, -⟩ := addRequest_eq_ok.mp hadd
  refine ⟨?_, rfl⟩
  intro m
  by_cases hm : m = caller env
  · rw [hm, numRequestsOf, MultiSigContract.added, AList.lookup_insert]
    exact hlimit
  · rw [numRequestsOf, MultiSigContract.added, AList.lookup_insert_ne (toString_injective.ne hm)]
    exact h m

theorem Limited.removed (h : Limited s) : Limited (s.removed id m) := by
  intro m'
  rw [numRequestsOf_removed]
  split
  · exact (Nat.sub_le _ _).trans (h m)
  · exact h m'

theorem Limited.withoutMember (h : Limited s) : Limited (s.withoutMember m) := by
  intro m'
  have hlimit : (s.withoutMember m).activeRequestsLimit = s.activeRequestsLimit := by
    rw [withoutMember_eq]
  rw [hlimit]
  by_cases hm : m' = m
  · rw [hm, numRequestsOf_withoutMember_self]
    exact Nat.zero_le _
  · rw [numRequestsOf_withoutMember hm]
    exact h m'

theorem Limited.edited {self : Prop} {actions : List MultiSigRequestAction} (h : Limited s)
    (hedited : Edited self actions s t) : Limited t := by
  induction hedited with
  | nil => exact h
  | cons hacts _ ih =>
    refine ih ?_
    cases hacts with
    | addMember => exact h
    | deleteMember => exact h.withoutMember
    | promised => exact h

/-- The limit when a call confirms a request is that before the call. -/
theorem Limited.confirming (h : Limited s) (hu : confirming s c = some (u, id)) :
    Limited u ∧ u.activeRequestsLimit = s.activeRequestsLimit := by
  rcases confirming_eq_some hu with ⟨rfl, -⟩ | ⟨request, -, hadd⟩
  · exact ⟨h, rfl⟩
  · exact h.added hadd

/-- A call that does not change the limit keeps the numbers below it. -/
theorem Limited.called (h : Limited s) (hcalled : Called s c t)
    (hsame : t.activeRequestsLimit = s.activeRequestsLimit) : Limited t := by
  cases hcalled with
  | added hmethod hadd => exact (h.added hadd).1
  | deleted hmethod hmember hr hcooldown => exact h.removed
  | recorded hconfirming hmember hr hless => exact (h.confirming hconfirming).1
  | @executed _ u id r hreaches hmember hr hexecuting =>
    obtain ⟨hu, hlimit⟩ := h.confirming hreaches.1
    have hremoved : Limited (u.removed id r.member) := hu.removed
    cases hexecuting with
    | edited hedited => exact hremoved.edited hedited
    | set hself hactions hsets =>
      cases hsets with
      | confirmations => exact hremoved
      | limit => exact fun m => (hremoved m).trans_eq (hlimit.trans hsame.symm)

end Limit

/-! ## The books along a run -/

/-- A call takes a request off the number of its author: it reaches the required number of
confirmations, also with a request that it adds, or deletes the request. -/
def Removes (s : MultiSigContract) (c : Call) (u : MultiSigContract) (id : RequestId) : Prop :=
  Reaches s c u id ∨ u = s ∧ c.method = .deleteRequest id

section Run

variable {s : MultiSigContract} {env : Env} {members : List MultisigMember} {k : ℕ}
  {promise : Promise}

theorem bookkeeping_of_new (hnew : MultiSigContract.new env members k = .ok (s, promise))
    (calls : List Call) : Bookkeeping (multisig.run s calls) :=
  Machine.run_invariant (I := Bookkeeping) (G := fun _ _ => True)
    (fun _ _ _ h _ hstep => h.called (called_of_step hstep)) (fun _ _ => trivial)
    (bookkeeping_new hnew)

theorem limited_new (hnew : MultiSigContract.new env members k = .ok (s, promise)) : Limited s := by
  obtain ⟨-, rfl⟩ := new_eq_ok hnew
  exact fun m => Nat.zero_le _

theorem limited_run (h : Limited s) (calls : List Call)
    (hsame : ∀ x ∈ multisig.steps s calls,
      x.after.activeRequestsLimit = x.before.activeRequestsLimit) :
    Limited (multisig.run s calls) := by
  refine Machine.run_induction (M := multisig) (P := fun hist a => (∀ x ∈ hist,
    x.after.activeRequestsLimit = x.before.activeRequestsLimit) → Limited a) (fun _ => h) ?_ calls
    hsame
  intro hist a c b ih hstep hall
  refine (ih fun x hx => hall x (List.mem_append_left _ hx)).called (called_of_step hstep) ?_
  exact hall ⟨a, c, b⟩ (List.mem_append_right _ List.mem_cons_self)

/-- **The books of the multisig.** After every run of a new multisig its maps agree; in a run that
does not change the limit no member has more pending requests than it allows; and wherever a
request is taken off the number of its author, that number is positive. -/
theorem bookkeeping_run (env : Env) (members : List MultisigMember) (k : ℕ) (s : MultiSigContract)
    (promise : Promise) (hnew : MultiSigContract.new env members k = .ok (s, promise))
    (calls : List Call) :
    Bookkeeping (multisig.run s calls) ∧
      ((∀ x ∈ multisig.steps s calls,
          x.after.activeRequestsLimit = x.before.activeRequestsLimit) →
        ∀ m, ((multisig.run s calls).requestIdsOf m).length ≤
          (multisig.run s calls).activeRequestsLimit) ∧
      ∀ c u id r, Removes (multisig.run s calls) c u id → u.requests.lookup id = some r →
        0 < u.numRequestsOf r.member := by
  have hbooks := bookkeeping_of_new hnew calls
  refine ⟨hbooks, ?_, ?_⟩
  · intro hsame m
    rw [← hbooks.numbers]
    exact limited_run (limited_new hnew) calls hsame m
  · rintro c u id r (hreaches | ⟨rfl, -⟩) hr
    · exact (hbooks.confirming hreaches.1).numRequestsOf_pos hr
    · exact hbooks.numRequestsOf_pos hr

theorem bookkeeping_run_sampleCalls :
    Bookkeeping (multisig.run sampleMultisig sampleCalls) ∧
      ((multisig.run sampleMultisig sampleCalls).requestIdsOf (.account "alice")).length ≤
        (multisig.run sampleMultisig sampleCalls).activeRequestsLimit := by
  obtain ⟨hbooks, hlimit, -⟩ := bookkeeping_run _ _ 2 sampleMultisig _ new_sampleMultisig sampleCalls
  refine ⟨hbooks, hlimit ?_ _⟩
  decide

end Run

end UncContracts.Multisig
