import UncContracts.Multisig.AtMostOnce

/-!
# Whether the multisig stays operable

Confirmations come from distinct members, so a required number above the number of members locks
the multisig. A member is only deleted if enough others remain. A new multisig, however, compares
the required number with the length of its list of members, in which a member may be repeated, and
a request may set any number.

## Main definitions

* `Operable`: there are enough members, for every pending request too
* `Attainable`: a call sets no number above that of the members

## Main results

* `enough_called`: every call keeps the multisig operable, unless it sets a number that is too
  high
* `operable_iff`: a new multisig stays operable exactly if its members are enough, without
  repetitions, and it executes no request for a number above that of the members
-/

namespace UncContracts.Multisig

open Foundation MultiSigContract

/-- Members that have not confirmed a request could complete the required number. -/
def Collectable (s : MultiSigContract) (id : RequestId) : Prop :=
  ∃ voters ⊆ s.members, (∀ v ∈ voters, v.toString ∉ s.confirmationsOf id) ∧
    s.numConfirmations ≤ (s.confirmationsOf id).card + voters.card

/-- There are as many members as confirmations required, and every pending request can collect
enough of them. -/
structure Operable (s : MultiSigContract) : Prop where
  enough : s.numConfirmations ≤ s.members.card
  collectable : ∀ id ∈ s.requests, Collectable s id

/-- The call executes no request for a required number above that of the members. -/
def Attainable (x : Step MultiSigContract Call) : Prop :=
  ∀ n, ExecutesRequest x.before x.label ⟨x.label.env.currentAccountId, [.setNumConfirmations n]⟩ →
    n ≤ x.before.members.card

/-! ## Enough members -/

section Members

variable {s t u : MultiSigContract} {c : Call} {id : RequestId} {p : PromiseOrValue}

/-- Whoever has confirmed a request, the others could complete the number of the members. -/
theorem collectable_of_enough (h : s.numConfirmations ≤ s.members.card) (id : RequestId) :
    Collectable s id := by
  let confirmed := s.members.filter fun v => v.toString ∈ s.confirmationsOf id
  let others := s.members.filter fun v => v.toString ∉ s.confirmationsOf id
  have hconfirmed : confirmed.card ≤ (s.confirmationsOf id).card := by
    apply Finset.card_le_card_of_injOn MultisigMember.toString
    · intro v hv
      exact (Finset.mem_filter.mp hv).2
    · exact toString_injective.injOn
  refine ⟨others, Finset.filter_subset _ _, fun v hv => (Finset.mem_filter.mp hv).2, ?_⟩
  calc s.numConfirmations
      ≤ s.members.card := h
    _ = confirmed.card + others.card := (Finset.card_filter_add_card_filter_not _).symm
    _ ≤ (s.confirmationsOf id).card + others.card := Nat.add_le_add_right hconfirmed _

theorem operable_iff_enough : Operable s ↔ s.numConfirmations ≤ s.members.card := by
  constructor
  · exact fun h => h.enough
  · exact fun h => ⟨h, fun id _ => collectable_of_enough h id⟩

/-- Members are added, or deleted while enough remain. -/
theorem Edited.enough {self : Prop} {actions : List MultiSigRequestAction}
    (h : Edited self actions s t) (henough : s.numConfirmations ≤ s.members.card) :
    t.numConfirmations ≤ t.members.card := by
  induction h with
  | nil => exact henough
  | @cons s _ _ _ _ hacts _ ih =>
    apply ih
    cases hacts with
    | addMember =>
      exact henough.trans (Finset.card_le_card (Finset.subset_insert _ _))
    | @deleteMember m hself hcard =>
      rw [withoutMember_eq]
      exact (Nat.le_sub_one_of_lt hcard).trans Finset.pred_card_le_card_erase
    | promised => exact henough

/-- **One call.** There are enough members after a call, unless it executes a request for a number
that is too high. -/
theorem enough_called (henough : s.numConfirmations ≤ s.members.card)
    (hcall : s.call c = .ok (t, p)) (hattainable : Attainable ⟨s, c, t⟩) :
    t.numConfirmations ≤ t.members.card := by
  cases called_of_call hcall with
  | added hmethod hadd =>
    obtain ⟨-, -, -, -, rfl, -⟩ := addRequest_eq_ok.mp hadd
    exact henough
  | deleted hmethod hmember hr hcooldown => exact henough
  | @recorded u id r hconfirming hmember hr hless =>
    obtain ⟨hmembers, hconfirmations, -⟩ := settings_of_confirming hconfirming
    change u.numConfirmations ≤ u.members.card
    rwa [hmembers, hconfirmations]
  | @executed _ u id r hreaches hmember hr hexecuting =>
    obtain ⟨hmembers, hconfirmations, -⟩ := settings_of_confirming hreaches.1
    have hu : (u.removed id r.member).numConfirmations ≤ (u.removed id r.member).members.card := by
      change u.numConfirmations ≤ u.members.card
      rwa [hmembers, hconfirmations]
    cases hexecuting with
    -- Adding members does no harm, and `delete_member` asserts that enough are left.
    | edited hedited => exact hedited.enough hu
    | set hself hactions hsets =>
      cases hsets with
      | @confirmations n =>
        have hrequest : r.request = ⟨c.env.currentAccountId, [.setNumConfirmations n]⟩ := by
          rw [← hself, ← hactions]
        have hexecutes := (executes_iff_reaches hcall).mpr hreaches
        have hle := hattainable n ⟨u, id, r, hexecutes, hr, hrequest⟩
        change n ≤ u.members.card
        rwa [hmembers]
      | limit => exact hu

/-- The number that a call sets is that of after the call, with the members of before. -/
theorem set_of_executesRequest (hcall : s.call c = .ok (t, p)) {n : ℕ}
    (h : ExecutesRequest s c ⟨c.env.currentAccountId, [.setNumConfirmations n]⟩) :
    t.numConfirmations = n ∧ t.members = s.members := by
  obtain ⟨u, id, r, hexecutes, hr, hrequest⟩ := h
  have hreaches := (executes_iff_reaches hcall).mp hexecutes
  obtain ⟨r', hr', hexecuting⟩ := (called_of_call hcall).executing hreaches
  cases hr.symm.trans hr'
  have hmembers := (settings_of_confirming hexecutes.1).1
  rw [hrequest] at hexecuting
  cases hexecuting with
  | edited hedited =>
    cases hedited with
    | cons hacts _ =>
      cases hacts with
      | promised hpromised => cases hpromised
  | set hself hactions hsets =>
    cases hactions
    cases hsets with
    | confirmations => exact ⟨rfl, hmembers⟩

end Members

/-! ## Operable multisigs -/

section Run

variable {s : MultiSigContract} {env : Env} {members : List MultisigMember} {k : ℕ}
  {promise : Promise}

theorem enough_run (hnew : MultiSigContract.new env members k = .ok (s, promise))
    (henough : k ≤ members.toFinset.card) {calls : List Call}
    (hattainable : ∀ x ∈ multisig.steps s calls, Attainable x) :
    (multisig.run s calls).numConfirmations ≤ (multisig.run s calls).members.card := by
  refine Machine.run_induction (M := multisig) (P := fun hist a =>
    (∀ x ∈ hist, Attainable x) → a.numConfirmations ≤ a.members.card) ?_ ?_ calls hattainable
  · obtain ⟨-, rfl⟩ := new_eq_ok hnew
    exact fun _ => henough
  · intro hist a c b ih hstep hall
    obtain ⟨p, hcall⟩ := call_of_multisig_step hstep
    apply enough_called (ih fun x hx => hall x (List.mem_append_left _ hx)) hcall
    exact hall ⟨a, c, b⟩ (List.mem_append_right _ List.mem_cons_self)

/-- **Operable multisigs.** A new multisig stays operable along a run exactly if the distinct
members of its list are enough, and no request is executed for a number above that of the
members. -/
theorem operable_iff (env : Env) (members : List MultisigMember) (k : ℕ) (s : MultiSigContract)
    (promise : Promise) (hnew : MultiSigContract.new env members k = .ok (s, promise))
    (calls : List Call) :
    (∀ pre, pre <+: calls → Operable (multisig.run s pre)) ↔
      k ≤ members.toFinset.card ∧ ∀ x ∈ multisig.steps s calls, Attainable x := by
  simp only [operable_iff_enough]
  constructor
  · intro h
    refine ⟨?_, ?_⟩
    · have hinitial := h [] List.nil_prefix
      obtain ⟨-, rfl⟩ := new_eq_ok hnew
      exact hinitial
    · intro x hx n hsets
      obtain ⟨pre, post, rfl, hbefore, hstep⟩ := Machine.mem_steps_iff.mp hx
      have hafter : multisig.run s (pre ++ [x.label]) = x.after := by
        rw [Machine.run_append, ← hbefore, Machine.run_cons, Machine.exec_of_ok hstep,
          Machine.run_nil]
      obtain ⟨p, hcall⟩ := call_of_multisig_step hstep
      obtain ⟨hn, hmembers⟩ := set_of_executesRequest hcall hsets
      have henough := h (pre ++ [x.label]) ⟨post, by simp⟩
      rwa [hafter, hn, hmembers] at henough
  · rintro ⟨henough, hattainable⟩ pre hpre
    exact enough_run hnew henough (Machine.guard_of_prefix hpre hattainable)

theorem operable_iff_sampleCalls : Operable (multisig.run sampleMultisig sampleCalls) := by
  refine (operable_iff _ _ 2 sampleMultisig _ new_sampleMultisig sampleCalls).mpr ⟨by decide, ?_⟩
    sampleCalls (List.prefix_refl _)
  have hnone : ∀ x ∈ multisig.steps sampleMultisig sampleCalls,
      ∀ e ∈ confirming x.before x.label, ∀ r ∈ e.1.requests.lookup e.2,
        r.request.actions.all fun action => action.isPromised || deletedMembers [action] ≠ [] := by
    decide
  rintro x hx n ⟨u, id, r, hexecutes, hr, hrequest⟩
  have hall := hnone x hx (u, id) hexecutes.1 r hr
  rw [hrequest] at hall
  cases hall

/-- One account, listed twice, with two confirmations required. -/
theorem not_operable : ¬ ∀ env members k s promise,
    MultiSigContract.new env members k = .ok (s, promise) →
      ∀ calls, Operable (multisig.run s calls) := by
  intro h
  have henough := (h (callBy "alice" (.confirm 0)).env [.account "alice", .account "alice"] 2 _ _
    rfl []).enough
  revert henough
  decide

-- The request for a third confirmation leaves two members with three confirmations required.
example : ¬ Operable (multisig.run sampleMultisig (sampleCalls ++
    [callBy "alice" (.addRequestAndConfirm ⟨"multisig", [.setNumConfirmations 3]⟩),
      callBy "carol" (.confirm 2)])) := by
  rw [operable_iff_enough]
  decide

end Run

end UncContracts.Multisig
