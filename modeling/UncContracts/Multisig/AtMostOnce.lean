import UncContracts.Multisig.Bookkeeping

/-!
# Requests run at most once

Every request gets an id of its own and is executed at most once. It stays as it was added until it
is executed, deleted after the cooldown, or goes with its author. The members and the settings
change only by the execution of a request for the multisig's own account.

## Main definitions

* `created`, `executed`: the ids that a call gives out and executes
* `Ended`: why a request is no longer pending
* `Lawful`: what a call issues, and what it may do to the requests, the members and the settings
* `Once`: the ids given out and executed along a run

## Main results

* `performed_of_call`: what a call issues is the promise for the request that it executes
* `lawful_of_step`: what a single call does
* `at_most_once`: every run gives out and executes every id at most once, by lawful calls
-/

namespace UncContracts.Multisig

open Foundation MultiSigContract

section History

/-- The call executes the request, pending or added by the call. -/
def ExecutesRequest (s : MultiSigContract) (c : Call) (request : MultiSigRequest) : Prop :=
  ∃ u id r, Executes s c u id ∧ u.requests.lookup id = some r ∧ r.request = request

variable (x : Step Issuer Call)

/-- The id that a call gives out. -/
def created : Option RequestId :=
  match x.label.method with
  | .addRequest request | .addRequestAndConfirm request =>
    (x.before.contract.addRequest x.label.env request).toOption.map Prod.snd
  | _ => none

/-- The id of the request that a call executes: the one that it confirms, if it issues promises, or
leaves no such request or other members or settings. -/
def executed : Option RequestId :=
  (confirming x.before.contract x.label).bind fun e =>
    (x.before.contract.call x.label).toOption.bind fun r =>
      if Acted x.before.contract r.1 r.2.issued e.2 then some e.2 else none

/-- A request ends with its execution, its deletion by a member after the cooldown, or the deletion
of its author. -/
inductive Ended (id : RequestId) (r : MultiSigRequestWithSigner) : Prop
  | executed (h : executed x = some id)
  | deleted (hmethod : x.label.method = .deleteRequest id)
    (hmember : caller x.label.env ∈ x.before.contract.members)
    (hcooldown : r.addedTimestamp + REQUEST_COOLDOWN < x.label.env.blockTimestamp)
  | authorDeleted {request : MultiSigRequest}
    (h : ExecutesRequest x.before.contract x.label request)
    (hauthor : r.member ∈ deletedMembers request.actions)

/-- What a call may do: what it issues, and what it does to the requests, the members and the
settings. -/
structure Lawful : Prop where
  /-- A call that executes no request issues nothing, and one that does has done what the request
  says. -/
  performed : ∃ issued, x.after.issued = x.before.issued ++ issued ∧
    (executed x = none → issued = []) ∧
    ∀ u id, Executes x.before.contract x.label u id → ∃ r, u.requests.lookup id = some r ∧
      Performed x.label.env r.request x.before.contract x.after.contract issued
  kept : ∀ id r, x.before.contract.requests.lookup id = some r →
    x.after.contract.requests.lookup id = some r ∨
      x.after.contract.requests.lookup id = none ∧ Ended x id r
  new : ∀ id r, id ∉ x.before.contract.requests → x.after.contract.requests.lookup id = some r →
    created x = some id ∧ r.member = caller x.label.env ∧
      r.addedTimestamp = x.label.env.blockTimestamp ∧
        (x.label.method = .addRequest r.request ∨ x.label.method = .addRequestAndConfirm r.request)
  members : x.after.contract.members ≠ x.before.contract.members →
    ∃ request, ExecutesRequest x.before.contract x.label request ∧
      request.receiverId = x.label.env.currentAccountId
  confirmations : x.after.contract.numConfirmations ≠ x.before.contract.numConfirmations →
    ExecutesRequest x.before.contract x.label ⟨x.label.env.currentAccountId,
      [.setNumConfirmations x.after.contract.numConfirmations]⟩
  limit : x.after.contract.activeRequestsLimit ≠ x.before.contract.activeRequestsLimit →
    ExecutesRequest x.before.contract x.label ⟨x.label.env.currentAccountId,
      [.setActiveRequestsLimit x.after.contract.activeRequestsLimit]⟩

end History

/-! ## Execution -/

section Execution

variable {s t : MultiSigContract} {env : Env} {self : Prop} {actions : List MultiSigRequestAction}
  {action : MultiSigRequestAction} {request : MultiSigRequest} {m : MultisigMember}
  {id : RequestId} {r : MultiSigRequestWithSigner}

/-- A pending request stays, unless its author is deleted. -/
theorem Edited.kept (h : Edited self actions s t) (hr : s.requests.lookup id = some r) :
    t.requests.lookup id = some r ∨
      t.requests.lookup id = none ∧ r.member ∈ deletedMembers actions := by
  induction h with
  | nil => exact .inl hr
  | @cons s t u action actions hacts hrest ih =>
    cases hacts with
    | addMember => exact ih hr
    | @deleteMember m hself hcard =>
      by_cases hm : r.member = m
      · have hnone := (lookup_withoutMember s m id).1
        rw [if_pos (mem_requestIdsOf hr hm)] at hnone
        refine .inr ⟨?_, hm ▸ List.mem_cons_self⟩
        rcases hrest.executed.keeps id with ⟨hsame, -⟩ | ⟨hgone, -⟩
        · exact hsame.trans hnone
        · exact hgone
      · refine (ih (lookup_withoutMember_eq_some.mpr ⟨hr, hm⟩)).imp_right ?_
        rintro ⟨hnone, hgone⟩
        exact ⟨hnone, List.mem_cons_of_mem _ hgone⟩
    | promised hpromised =>
      rw [deletedMembers_of_isPromised hpromised]
      exact ih hr

/-- Actions keep the settings, and edit the members only for the multisig's own account. -/
theorem Edited.settings (h : Edited self actions s t) :
    t.numConfirmations = s.numConfirmations ∧ t.activeRequestsLimit = s.activeRequestsLimit ∧
      t.requestNonce = s.requestNonce ∧ (t.members = s.members ∨ self) := by
  induction h with
  | nil => exact ⟨rfl, rfl, rfl, .inl rfl⟩
  | cons hacts _ ih =>
    obtain ⟨hconfirmations, hlimit, hnonce, hmembers⟩ := ih
    cases hacts with
    | addMember hself => exact ⟨hconfirmations, hlimit, hnonce, .inr hself⟩
    | deleteMember hself =>
      rw [withoutMember_eq] at hconfirmations hlimit hnonce
      exact ⟨hconfirmations, hlimit, hnonce, .inr hself⟩
    | promised => exact ⟨hconfirmations, hlimit, hnonce, hmembers⟩

theorem Executing.kept (h : Executing env request s t) (hr : s.requests.lookup id = some r) :
    t.requests.lookup id = some r ∨
      t.requests.lookup id = none ∧ r.member ∈ deletedMembers request.actions := by
  cases h with
  | edited hedited => exact hedited.kept hr
  | set hself hactions hsets => cases hsets <;> exact .inl hr

theorem Executing.requestNonce (h : Executing env request s t) :
    t.requestNonce = s.requestNonce := by
  cases h with
  | edited hedited => exact hedited.settings.2.2.1
  | set hself hactions hsets => cases hsets <;> rfl

/-- What an execution changes of the members and the settings. -/
theorem Executing.settings (h : Executing env request s t) :
    (t.members ≠ s.members → request.receiverId = env.currentAccountId) ∧
      (t.numConfirmations ≠ s.numConfirmations →
        request = ⟨env.currentAccountId, [.setNumConfirmations t.numConfirmations]⟩) ∧
      (t.activeRequestsLimit ≠ s.activeRequestsLimit →
        request = ⟨env.currentAccountId, [.setActiveRequestsLimit t.activeRequestsLimit]⟩) := by
  obtain ⟨receiverId, actions⟩ := request
  cases h with
  | edited hedited =>
    obtain ⟨hconfirmations, hlimit, -, hmembers⟩ := hedited.settings
    exact ⟨hmembers.resolve_left, fun hne => absurd hconfirmations hne,
      fun hne => absurd hlimit hne⟩
  | set hself hactions hsets =>
    cases hself
    cases hactions
    cases hsets with
    | confirmations => exact ⟨fun _ => rfl, fun _ => rfl, fun hne => absurd rfl hne⟩
    | limit => exact ⟨fun _ => rfl, fun hne => absurd rfl hne, fun _ => rfl⟩

end Execution

/-! ## What a call may do -/

section Calls

variable {s t u : MultiSigContract} {a b : Issuer} {c : Call} {id : RequestId}
  {request : MultiSigRequest} {p : PromiseOrValue}

theorem created_of_add (hmethod : c.method = .addRequest request ∨
      c.method = .addRequestAndConfirm request)
    (hadd : a.contract.addRequest c.env request = .ok (u, id)) (b : Issuer) :
    created ⟨a, c, b⟩ = some id := by
  rcases hmethod with hmethod | hmethod <;> simp [created, hmethod, hadd, Except.toOption]

/-- What the addition of a request leaves, and what it adds. -/
structure Adds (a : Issuer) (c : Call) (u : MultiSigContract) : Prop where
  kept : ∀ id r, a.contract.requests.lookup id = some r → u.requests.lookup id = some r
  new : ∀ id r b, id ∉ a.contract.requests → u.requests.lookup id = some r →
    created ⟨a, c, b⟩ = some id ∧ r.member = caller c.env ∧
      r.addedTimestamp = c.env.blockTimestamp ∧
        (c.method = .addRequest r.request ∨ c.method = .addRequestAndConfirm r.request)
  members : u.members = a.contract.members
  confirmations : u.numConfirmations = a.contract.numConfirmations
  limit : u.activeRequestsLimit = a.contract.activeRequestsLimit

theorem adds_of_addRequest (hbooks : Bookkeeping a.contract)
    (hmethod : c.method = .addRequest request ∨ c.method = .addRequestAndConfirm request)
    (hadd : a.contract.addRequest c.env request = .ok (u, id)) : Adds a c u := by
  have hcreated := created_of_add hmethod hadd
  obtain ⟨-, -, -, -, rfl, rfl⟩ := addRequest_eq_ok.mp hadd
  have hnew : a.contract.requestNonce ∉ a.contract.requests :=
    fun hmem => absurd (hbooks.below _ hmem) (lt_irrefl _)
  refine ⟨?_, ?_, rfl, rfl, rfl⟩
  · intro id r hr
    have hne : id ≠ a.contract.requestNonce := by
      rintro rfl
      exact hnew (mem_requests hr)
    exact (AList.lookup_insert_ne hne).trans hr
  · intro id r b hold hr
    by_cases hid : id = a.contract.requestNonce
    · subst hid
      cases hr.symm.trans (AList.lookup_insert a.contract.requests)
      exact ⟨hcreated b, rfl, rfl, hmethod⟩
    · have hr : a.contract.requests.lookup id = some r := (AList.lookup_insert_ne hid).symm.trans hr
      exact absurd (mem_requests hr) hold

/-- The state in which a call confirms a request is that before the call, or with the request
added. -/
theorem adds_of_confirming (hbooks : Bookkeeping a.contract)
    (hu : confirming a.contract c = some (u, id)) : Adds a c u := by
  rcases confirming_eq_some hu with ⟨rfl, -⟩ | ⟨request, hmethod, hadd⟩
  · refine ⟨fun _ _ hr => hr, ?_, rfl, rfl, rfl⟩
    intro id r b hold hr
    exact absurd (mem_requests hr) hold
  · exact adds_of_addRequest hbooks (.inr hmethod) hadd

theorem executed_eq_some : executed ⟨a, c, b⟩ = some id ↔ ∃ u, Executes a.contract c u id := by
  unfold executed Executes
  constructor
  · intro h
    obtain ⟨⟨u, id'⟩, hconfirming, h⟩ := Option.bind_eq_some_iff.mp h
    obtain ⟨⟨t, p⟩, hcall, h⟩ := Option.bind_eq_some_iff.mp h
    obtain ⟨hacted, h⟩ := Option.ite_none_right_eq_some.mp h
    cases h
    exact ⟨u, hconfirming, t, p, toOption_eq_some.mp hcall, hacted⟩
  · rintro ⟨u, hconfirming, t, p, hcall, hacted⟩
    rw [hconfirming, Option.bind_some, toOption_eq_some.mpr hcall, Option.bind_some, if_pos hacted]

/-- **What a call issues** is for the request that it executes, and the execution does what the
request says. -/
theorem performed_of_call (hcall : a.contract.call c = .ok (t, p)) :
    (executed ⟨a, c, b⟩ = none → p.issued = []) ∧
      ∀ u id, Executes a.contract c u id → ∃ r, u.requests.lookup id = some r ∧
        Performed c.env r.request a.contract t p.issued := by
  have hexecutes : ∀ u id, Executes a.contract c u id → ∃ r, u.requests.lookup id = some r ∧
      Performed c.env r.request a.contract t p.issued := by
    intro u id hexecutes
    have hreaches := (executes_iff_reaches hcall).mp hexecutes
    obtain ⟨r, -, hr, ⟨hless, -⟩ | ⟨-, -, hperformed⟩⟩ := called_of_some hexecutes.1 hcall
    · exact absurd hreaches.2 (Nat.not_le_of_gt hless)
    · exact ⟨r, hr, hperformed.of_members (settings_of_confirming hexecutes.1).1.symm⟩
  refine ⟨?_, hexecutes⟩
  intro hnone
  cases hconfirming : confirming a.contract c with
  | none =>
    obtain ⟨-, rfl⟩ := called_of_none hconfirming hcall
    rfl
  | some confirmed =>
    obtain ⟨r, -, hr, ⟨-, -, rfl⟩ | ⟨hreaches, -⟩⟩ := called_of_some hconfirming hcall
    · rfl
    · have hsome : executed ⟨a, c, b⟩ = some confirmed.2 :=
        executed_eq_some.mpr ⟨_, (executes_iff_reaches hcall).mpr hreaches⟩
      cases hnone.symm.trans hsome

/-- **What a call may do.** Every accepted call is lawful. -/
theorem lawful_of_step (hbooks : Bookkeeping a.contract) (hstep : issuing.step a c = .ok b) :
    Lawful ⟨a, c, b⟩ := by
  obtain ⟨p, hcall, hissued⟩ := call_of_step hstep
  have hperformed := performed_of_call (b := b) hcall
  obtain ⟨t, issued⟩ := b
  have hlawful : ∃ new, issued = a.issued ++ new ∧ (executed ⟨a, c, t, issued⟩ = none → new = []) ∧
      ∀ u id, Executes a.contract c u id → ∃ r, u.requests.lookup id = some r ∧
        Performed c.env r.request a.contract t new := ⟨p.issued, hissued, hperformed⟩
  cases called_of_call hcall with
  | added hmethod hadd =>
    have hadds := adds_of_addRequest hbooks (.inl hmethod) hadd
    exact ⟨hlawful, fun id r hr => .inl (hadds.kept id r hr),
      fun id r hold hr => hadds.new id r _ hold hr, fun hne => absurd hadds.members hne,
      fun hne => absurd hadds.confirmations hne, fun hne => absurd hadds.limit hne⟩
  | @deleted id r hmethod hmember hr hcooldown =>
    refine ⟨hlawful, ?_, ?_, fun hne => absurd rfl hne, fun hne => absurd rfl hne,
      fun hne => absurd rfl hne⟩
    · intro id' r' hr'
      by_cases hid : id' = id
      · subst hid
        cases hr.symm.trans hr'
        exact .inr ⟨AList.lookup_erase _ _, .deleted hmethod hmember hcooldown⟩
      · exact .inl ((AList.lookup_erase_ne hid).trans hr')
    · intro id' r' hold hr'
      have hmem : id' ∈ a.contract.requests.erase id := mem_requests (s := a.contract.removed id _) hr'
      exact absurd (AList.mem_erase.mp hmem).2 hold
  | recorded hconfirming hmember hr hless =>
    have hadds := adds_of_confirming hbooks hconfirming
    exact ⟨hlawful, fun id r hr => .inl (hadds.kept id r hr),
      fun id r hold hr => hadds.new id r _ hold hr, fun hne => absurd hadds.members hne,
      fun hne => absurd hadds.confirmations hne, fun hne => absurd hadds.limit hne⟩
  | @executed _ u id r hreaches hmember hr hexecuting =>
    have hexecutes := (executes_iff_reaches hcall).mpr hreaches
    have hadds := adds_of_confirming hbooks hreaches.1
    have hrequest : ExecutesRequest a.contract c r.request := ⟨u, id, r, hexecutes, hr, rfl⟩
    obtain ⟨hmembers, hconfirmations, hlimit⟩ := hexecuting.settings
    refine ⟨hlawful, ?_, ?_, ?_, ?_, ?_⟩
    · -- The request itself is removed before its actions, which may delete other authors.
      intro id' r' hr'
      by_cases hid : id' = id
      · subst hid
        exact .inr ⟨hexecuting.gone, .executed (executed_eq_some.mpr ⟨u, hexecutes⟩)⟩
      · have hstays : (u.removed id r.member).requests.lookup id' = some r' :=
          (AList.lookup_erase_ne hid).trans (hadds.kept id' r' hr')
        exact (hexecuting.kept hstays).imp_right fun hgone =>
          ⟨hgone.1, .authorDeleted hrequest hgone.2⟩
    · intro id' r' hold hr'
      refine hadds.new id' r' _ hold ?_
      rcases hexecuting.executed.keeps id' with ⟨hsame, -⟩ | ⟨hgone, -⟩
      · have hr' := hsame.symm.trans hr'
        by_cases hid : id' = id
        · subst hid
          cases hr'.symm.trans (AList.lookup_erase id' u.requests)
        · exact (AList.lookup_erase_ne hid).symm.trans hr'
      · cases hgone.symm.trans hr'
    · intro hne
      exact ⟨r.request, hrequest, hmembers (hadds.members ▸ hne)⟩
    · intro hne
      dsimp only at hne ⊢
      rw [← hconfirmations (hadds.confirmations ▸ hne)]
      exact hrequest
    · intro hne
      dsimp only at hne ⊢
      rw [← hlimit (hadds.limit ▸ hne)]
      exact hrequest

end Calls

/-! ## Ids along a run -/

/-- Along the steps so far every id was given out once and executed at most once. What is pending
was given out and not executed. -/
structure Once (hist : List (Step Issuer Call)) (s : MultiSigContract) : Prop where
  created_nodup : (hist.filterMap created).Nodup
  executed_nodup : (hist.filterMap executed).Nodup
  created_below : ∀ id ∈ hist.filterMap created, id < s.requestNonce
  pending_created : ∀ id ∈ s.requests, id ∈ hist.filterMap created
  executed_created : ∀ id ∈ hist.filterMap executed, id ∈ hist.filterMap created
  executed_gone : ∀ id ∈ hist.filterMap executed, id ∉ s.requests

section Ids

variable {s t u : MultiSigContract} {a b : Issuer} {c : Call} {id : RequestId}
  {request : MultiSigRequest} {hist : List (Step Issuer Call)} {p : PromiseOrValue}

/-- The nonce counts the ids that the calls give out. -/
def Counts (x : Step Issuer Call) (nonce : RequestId) : Prop :=
  created x = none ∧ nonce = x.before.contract.requestNonce ∨
    created x = some x.before.contract.requestNonce ∧ nonce = x.before.contract.requestNonce + 1

theorem counts_of_addRequest (hmethod : c.method = .addRequest request ∨
      c.method = .addRequestAndConfirm request)
    (hadd : a.contract.addRequest c.env request = .ok (u, id)) :
    Counts ⟨a, c, b⟩ u.requestNonce := by
  have hcreated := created_of_add hmethod hadd b
  obtain ⟨-, -, -, -, rfl, rfl⟩ := addRequest_eq_ok.mp hadd
  exact .inr ⟨hcreated, rfl⟩

theorem counts_of_confirming (hu : confirming a.contract c = some (u, id)) :
    Counts ⟨a, c, b⟩ u.requestNonce := by
  rcases confirming_eq_some hu with ⟨rfl, hmethod⟩ | ⟨request, hmethod, hadd⟩
  · refine .inl ⟨?_, rfl⟩
    rw [created, hmethod]
  · exact counts_of_addRequest (.inr hmethod) hadd

theorem counts_of_called (h : Called a.contract c t) : Counts ⟨a, c, b⟩ t.requestNonce := by
  cases h with
  | added hmethod hadd => exact counts_of_addRequest (.inl hmethod) hadd
  | deleted hmethod hmember hr hcooldown =>
    refine .inl ⟨?_, rfl⟩
    rw [created, hmethod]
  | @recorded u _ _ hconfirming hmember hr hless => exact counts_of_confirming (u := u) hconfirming
  | @executed _ u _ _ hreaches hmember hr hexecuting =>
    rw [hexecuting.requestNonce]
    exact counts_of_confirming (u := u) hreaches.1

/-- A call executes a request that is pending or that it adds, and removes it. -/
theorem gone_of_executed (hbooks : Bookkeeping a.contract) (hcall : a.contract.call c = .ok (t, p))
    (hid : executed ⟨a, c, b⟩ = some id) :
    (id ∈ a.contract.requests ∨ created ⟨a, c, b⟩ = some id) ∧ id ∉ t.requests := by
  obtain ⟨u, hexecutes⟩ := executed_eq_some.mp hid
  have hreaches := (executes_iff_reaches hcall).mp hexecutes
  obtain ⟨r, hr, hexecuting⟩ := (called_of_call hcall).executing hreaches
  refine ⟨?_, ?_⟩
  · by_cases hold : id ∈ a.contract.requests
    · exact .inl hold
    · exact .inr ((adds_of_confirming hbooks hreaches.1).new id r b hold hr).1
  · exact AList.lookup_eq_none.mp hexecuting.gone

theorem once_nil (hnone : ∀ id, id ∉ s.requests) : Once [] s :=
  ⟨List.nodup_nil, List.nodup_nil, fun _ hid => absurd hid List.not_mem_nil,
    fun id hid => absurd hid (hnone id), fun _ hid => absurd hid List.not_mem_nil,
    fun _ hid => absurd hid List.not_mem_nil⟩

theorem mem_filterMap_concat {α β : Type} {f : α → Option β} {xs : List α} {x : α} {b : β} :
    b ∈ (xs ++ [x]).filterMap f ↔ b ∈ xs.filterMap f ∨ f x = some b := by
  simp [List.mem_filterMap]

theorem nodup_filterMap_concat {α β : Type} {f : α → Option β} {xs : List α} {x : α}
    (h : (xs.filterMap f).Nodup) (hx : ∀ b, f x = some b → b ∉ xs.filterMap f) :
    ((xs ++ [x]).filterMap f).Nodup := by
  rw [List.filterMap_append, List.nodup_append]
  refine ⟨h, ?_, ?_⟩
  · cases hfx : f x <;> simp [hfx]
  · intro a ha b hb hab
    have hb : f x = some b := by simpa [List.mem_filterMap] using hb
    exact hx b hb (hab ▸ ha)

/-- A fresh id was neither given out nor executed before. -/
theorem Once.fresh (h : Once hist a.contract) (hcounts : Counts ⟨a, c, b⟩ b.contract.requestNonce)
    (hcreated : created ⟨a, c, b⟩ = some id) : id ∉ hist.filterMap created := by
  intro hid
  rcases hcounts with ⟨hnone, -⟩ | ⟨hsome, -⟩
  · cases hnone.symm.trans hcreated
  · cases hsome.symm.trans hcreated
    exact absurd (h.created_below _ hid) (lt_irrefl _)

/-- **One call.** An accepted call keeps the ids apart. -/
theorem Once.step (h : Once hist a.contract) (hbooks : Bookkeeping a.contract)
    (hstep : issuing.step a c = .ok b) : Once (hist ++ [⟨a, c, b⟩]) b.contract := by
  obtain ⟨p, hcall, -⟩ := call_of_step hstep
  have hcounts : Counts ⟨a, c, b⟩ b.contract.requestNonce := counts_of_called (called_of_call hcall)
  have hlawful := lawful_of_step hbooks hstep
  have hnonce : a.contract.requestNonce ≤ b.contract.requestNonce := by
    rcases hcounts with ⟨-, hsame⟩ | ⟨-, hnext⟩
    · exact hsame.ge
    · exact hnext.ge.trans' (Nat.le_succ _)
  have hadded : ∀ id ∈ b.contract.requests,
      id ∈ a.contract.requests ∨ created ⟨a, c, b⟩ = some id := by
    intro id hid
    by_cases hold : id ∈ a.contract.requests
    · exact .inl hold
    · obtain ⟨r, hr⟩ := Option.isSome_iff_exists.mp (AList.lookup_isSome.mpr hid)
      exact .inr (hlawful.new id r hold hr).1
  refine ⟨?_, ?_, ?_, ?_, ?_, ?_⟩
  · exact nodup_filterMap_concat h.created_nodup fun id hid => h.fresh hcounts hid
  · -- What is executed was pending, so that it was not executed before, or it is fresh.
    refine nodup_filterMap_concat h.executed_nodup fun id hid hdone => ?_
    rcases (gone_of_executed hbooks hcall hid).1 with hold | hcreated
    · exact h.executed_gone id hdone hold
    · exact h.fresh hcounts hcreated (h.executed_created id hdone)
  · intro id hid
    rcases mem_filterMap_concat.mp hid with hid | hid
    · exact (h.created_below id hid).trans_le hnonce
    · rcases hcounts with ⟨hnone, -⟩ | ⟨hsome, hnext⟩
      · cases hnone.symm.trans hid
      · cases hsome.symm.trans hid
        exact hnext ▸ Nat.lt_succ_self _
  · intro id hid
    rw [mem_filterMap_concat]
    exact (hadded id hid).imp_left (h.pending_created id)
  · intro id hid
    rw [mem_filterMap_concat]
    rcases mem_filterMap_concat.mp hid with hid | hid
    · exact .inl (h.executed_created id hid)
    · exact (gone_of_executed hbooks hcall hid).1.imp_left (h.pending_created id)
  · -- An id that was executed does not come back, since only fresh ids are added.
    intro id hid hpending
    rcases mem_filterMap_concat.mp hid with hid | hid
    · rcases hadded id hpending with hold | hcreated
      · exact h.executed_gone id hid hold
      · exact h.fresh hcounts hcreated (h.executed_created id hid)
    · exact (gone_of_executed hbooks hcall hid).2 hpending

end Ids

/-! ## Requests run at most once -/

section Run

variable {s : MultiSigContract} {env : Env} {members : List MultisigMember} {k : ℕ}
  {promise : Promise}

theorem once_run (hnew : MultiSigContract.new env members k = .ok (s, promise))
    (calls : List Call) :
    Bookkeeping (issuing.run ⟨s, [promise]⟩ calls).contract ∧
      Once (issuing.steps ⟨s, [promise]⟩ calls) (issuing.run ⟨s, [promise]⟩ calls).contract := by
  refine Machine.run_induction (M := issuing)
    (P := fun hist a => Bookkeeping a.contract ∧ Once hist a.contract) ⟨bookkeeping_new hnew, ?_⟩ ?_
    calls
  · obtain ⟨-, rfl⟩ := new_eq_ok hnew
    exact once_nil fun id hid => absurd hid (AList.notMem_empty id)
  · intro hist a c b ⟨hbooks, honce⟩ hstep
    obtain ⟨p, hcall, -⟩ := call_of_step hstep
    exact ⟨hbooks.called (called_of_call hcall), honce.step hbooks hstep⟩

/-- **Requests run at most once.** Along every run of a new multisig, every id is given out once
and executed at most once. Every accepted call is lawful: it issues nothing but the promise for the
request that it executes. A call that panics changes nothing. -/
theorem at_most_once (env : Env) (members : List MultisigMember) (k : ℕ) (s : MultiSigContract)
    (promise : Promise) (hnew : MultiSigContract.new env members k = .ok (s, promise))
    (calls : List Call) :
    Once (issuing.steps ⟨s, [promise]⟩ calls) (issuing.run ⟨s, [promise]⟩ calls).contract ∧
      (∀ x ∈ issuing.steps ⟨s, [promise]⟩ calls, Lawful x) ∧
      ∀ c e, issuing.step (issuing.run ⟨s, [promise]⟩ calls) c = .error e →
        issuing.exec (issuing.run ⟨s, [promise]⟩ calls) c = issuing.run ⟨s, [promise]⟩ calls := by
  refine ⟨(once_run hnew calls).2, ?_, fun c e => Machine.exec_of_error⟩
  intro x hx
  obtain ⟨pre, -, -, hbefore, hstep⟩ := Machine.mem_steps_iff.mp hx
  have hbooks : Bookkeeping (issuing.run ⟨s, [promise]⟩ pre).contract := by
    rw [contract_run]
    exact bookkeeping_of_new hnew pre
  exact lawful_of_step (hbefore ▸ hbooks) hstep

theorem at_most_once_sampleCalls :
    Once (issuing.steps sampleIssuer sampleCalls) (issuing.run sampleIssuer sampleCalls).contract ∧
      ∀ x ∈ issuing.steps sampleIssuer sampleCalls, Lawful x := by
  obtain ⟨honce, hlawful, -⟩ := at_most_once _ _ 2 sampleMultisig _ new_sampleMultisig sampleCalls
  exact ⟨honce, hlawful⟩

end Run

end UncContracts.Multisig
