import UncContracts.Multisig.Contract

/-!
# What the calls of the multisig do

An accepted call adds a request, deletes one, records a confirmation, or executes a request. The
execution edits the members by one action after the other, or it is of a single action that sets
the required number or the limit.

## Main definitions

* `MultiSigContract.added`, `removed`, `withoutMember`: the contract after an addition, a removal
  and the deletion of a member
* `Edited`: the contract after the actions of a request that are not settings
* `Executing`: the contract after the execution of a request
* `Called`: the effects of an accepted call
* `Executes`: a call executes the request that it confirms, by what it issues and leaves

## Main results

* `called_of_call`: every accepted call has one of the effects
* `performed_of_executeRequest`: the execution of a request does what the request says
* `contract_run`: the contract that keeps what it issues is the multisig
-/

namespace UncContracts.Multisig

open Foundation MultiSigContract

/-! ## Additions and removals -/

/-- The recorded confirmations of a request. -/
def MultiSigContract.confirmationsOf (s : MultiSigContract) (id : RequestId) : Finset String :=
  (s.confirmations.lookup id).getD ∅

namespace MultiSigContract

variable (s : MultiSigContract)

/-- The number of requests of a member, zero where there is none. -/
def numRequestsOf (member : MultisigMember) : ℕ := (s.numRequestsPk.lookup member.toString).getD 0

/-- The contract with a new request of the caller. -/
def added (env : Env) (request : MultiSigRequest) : MultiSigContract :=
  { s with
    numRequestsPk := s.numRequestsPk.insert (caller env).toString (s.numRequestsOf (caller env) + 1)
    requests := s.requests.insert s.requestNonce
      { request, member := caller env, addedTimestamp := env.blockTimestamp }
    confirmations := s.confirmations.insert s.requestNonce ∅
    requestNonce := s.requestNonce + 1 }

/-- The contract without a request of a member. -/
def removed (requestId : RequestId) (member : MultisigMember) : MultiSigContract :=
  { s.dropRequest requestId with
    numRequestsPk := s.numRequestsPk.insert member.toString (s.numRequestsOf member - 1) }

/-- The contract without a member and the requests that it added. -/
def withoutMember (member : MultisigMember) : MultiSigContract :=
  { (s.requestIdsOf member).foldl dropRequest s with
    numRequestsPk := ((s.requestIdsOf member).foldl dropRequest s).numRequestsPk.erase
      member.toString
    members := ((s.requestIdsOf member).foldl dropRequest s).members.erase member }

/-- The contract with the confirmation of a member. -/
def recorded (requestId : RequestId) (member : MultisigMember) : MultiSigContract :=
  { s with confirmations :=
      s.confirmations.insert requestId (insert member.toString (s.confirmationsOf requestId)) }

end MultiSigContract

section Dropping

variable {s t u : MultiSigContract} {m : MultisigMember} {id : RequestId}
  {r : MultiSigRequestWithSigner} {ids : List RequestId}

theorem mem_requests (hr : s.requests.lookup id = some r) : id ∈ s.requests :=
  AList.lookup_isSome.mp (Option.isSome_iff_exists.mpr ⟨r, hr⟩)

theorem mem_requestIdsOf (hr : s.requests.lookup id = some r) (hm : r.member = m) :
    id ∈ s.requestIdsOf m := by
  rw [requestIdsOf, List.mem_filterMap]
  exact ⟨⟨id, r⟩, AList.mem_lookup_iff.mp hr, if_pos hm⟩

theorem member_of_mem_requestIdsOf (hid : id ∈ s.requestIdsOf m)
    (hr : s.requests.lookup id = some r) : r.member = m := by
  obtain ⟨⟨id', r'⟩, he, hsome⟩ := List.mem_filterMap.mp hid
  split at hsome
  · next hm =>
    cases hsome
    cases hr.symm.trans (AList.mem_lookup_iff.mpr he)
    exact hm
  · cases hsome

/-- Dropping requests leaves everything but the requests and their confirmations. -/
theorem foldl_dropRequest (ids : List RequestId) (s : MultiSigContract) :
    ids.foldl dropRequest s =
      { s with
        requests := (ids.foldl dropRequest s).requests
        confirmations := (ids.foldl dropRequest s).confirmations } := by
  induction ids generalizing s with
  | nil => rfl
  | cons id ids ih => exact ih _

/-- Dropped requests are gone with their confirmations, and the others stay with theirs. -/
theorem lookup_foldl_dropRequest (ids : List RequestId) (s : MultiSigContract) (id : RequestId) :
    (ids.foldl dropRequest s).requests.lookup id =
        (if id ∈ ids then none else s.requests.lookup id) ∧
      (ids.foldl dropRequest s).confirmations.lookup id =
        if id ∈ ids then none else s.confirmations.lookup id := by
  induction ids generalizing s with
  | nil => exact ⟨rfl, rfl⟩
  | cons dropped ids ih =>
    obtain ⟨hrequests, hconfirmations⟩ := ih (s.dropRequest dropped)
    rw [List.foldl_cons, hrequests, hconfirmations]
    by_cases hids : id ∈ ids
    · simp [hids]
    · by_cases hid : id = dropped
      · subst hid
        simp [dropRequest, AList.lookup_erase]
      · simp [hids, hid, dropRequest, AList.lookup_erase_ne]

/-- The contract without a member: nothing else changes but its requests and their number. -/
theorem withoutMember_eq (s : MultiSigContract) (m : MultisigMember) :
    s.withoutMember m =
      { s with
        members := s.members.erase m
        requests := (s.withoutMember m).requests
        confirmations := (s.withoutMember m).confirmations
        numRequestsPk := s.numRequestsPk.erase m.toString } := by
  rw [withoutMember, foldl_dropRequest]

/-- A deleted member takes along its own requests only. -/
theorem lookup_withoutMember (s : MultiSigContract) (m : MultisigMember) (id : RequestId) :
    (s.withoutMember m).requests.lookup id =
        (if id ∈ s.requestIdsOf m then none else s.requests.lookup id) ∧
      (s.withoutMember m).confirmations.lookup id =
        if id ∈ s.requestIdsOf m then none else s.confirmations.lookup id :=
  lookup_foldl_dropRequest _ s id

theorem lookup_withoutMember_eq_some :
    (s.withoutMember m).requests.lookup id = some r ↔
      s.requests.lookup id = some r ∧ r.member ≠ m := by
  rw [(lookup_withoutMember s m id).1]
  split
  · next hid =>
    constructor
    · intro h
      cases h
    · rintro ⟨hr, hm⟩
      exact absurd (member_of_mem_requestIdsOf hid hr) hm
  · next hid =>
    refine ⟨fun hr => ⟨hr, fun hm => hid (mem_requestIdsOf hr hm)⟩, fun h => h.1⟩

/-- Every request of `t` is one of `s` with the same confirmations. -/
def Keeps (s t : MultiSigContract) : Prop :=
  ∀ id, (t.requests.lookup id = s.requests.lookup id ∧
      t.confirmations.lookup id = s.confirmations.lookup id) ∨
    (t.requests.lookup id = none ∧ t.confirmations.lookup id = none)

theorem Keeps.refl (s : MultiSigContract) : Keeps s s := fun _ => .inl ⟨rfl, rfl⟩

theorem Keeps.trans (h₁ : Keeps s u) (h₂ : Keeps u t) : Keeps s t := by
  intro id
  rcases h₂ id with ⟨hr, hc⟩ | hnone
  · rw [hr, hc]
    exact h₁ id
  · exact .inr hnone

theorem keeps_dropRequest (s : MultiSigContract) (id : RequestId) : Keeps s (s.dropRequest id) := by
  intro id'
  by_cases h : id' = id
  · subst h
    exact .inr ⟨AList.lookup_erase _ _, AList.lookup_erase _ _⟩
  · exact .inl ⟨AList.lookup_erase_ne h, AList.lookup_erase_ne h⟩

theorem keeps_withoutMember (s : MultiSigContract) (m : MultisigMember) :
    Keeps s (s.withoutMember m) := by
  intro id
  obtain ⟨hrequests, hconfirmations⟩ := lookup_withoutMember s m id
  rw [hrequests, hconfirmations]
  split
  · exact .inr ⟨rfl, rfl⟩
  · exact .inl ⟨rfl, rfl⟩

end Dropping

/-! ## Execution -/

/-- The action is only promised, and leaves the contract alone. -/
def MultiSigRequestAction.isPromised : MultiSigRequestAction → Bool
  | transfer _ | createAccount | deployContract _ | addKey _ _ | functionCall _ _ _ _ => true
  | _ => false

/-- The contract after an action that is no setting. One that edits the members is for the
multisig's own account. -/
inductive Acts (self : Prop) (s : MultiSigContract) :
    MultiSigRequestAction → MultiSigContract → Prop
  | addMember {member : MultisigMember} (hself : self) :
    Acts self s (.addMember member) { s with members := insert member s.members }
  | deleteMember {member : MultisigMember} (hself : self)
    (hcard : s.numConfirmations + 1 ≤ s.members.card) :
    Acts self s (.deleteMember member) (s.withoutMember member)
  | promised {action : MultiSigRequestAction} (hpromised : action.isPromised = true) :
    Acts self s action s

/-- The contract after a setting. -/
inductive Sets (s : MultiSigContract) : MultiSigRequestAction → MultiSigContract → Prop
  | confirmations {numConfirmations : ℕ} :
    Sets s (.setNumConfirmations numConfirmations) { s with numConfirmations }
  | limit {activeRequestsLimit : ℕ} :
    Sets s (.setActiveRequestsLimit activeRequestsLimit) { s with activeRequestsLimit }

/-- The contract after one action after the other. -/
inductive Edited (self : Prop) :
    List MultiSigRequestAction → MultiSigContract → MultiSigContract → Prop
  | nil {s : MultiSigContract} : Edited self [] s s
  | cons {s t u : MultiSigContract} {action : MultiSigRequestAction}
    {actions : List MultiSigRequestAction} (hacts : Acts self s action u)
    (hrest : Edited self actions u t) : Edited self (action :: actions) s t

/-- The contract after the execution of a request: of its actions, or of a single setting. -/
inductive Executing (env : Env) (request : MultiSigRequest) (s t : MultiSigContract) : Prop
  | edited (hedited : Edited (request.receiverId = env.currentAccountId) request.actions s t)
  | set {action : MultiSigRequestAction} (hself : request.receiverId = env.currentAccountId)
    (hactions : request.actions = [action]) (hsets : Sets s action t)

/-- The action of the promise for an action of a request. -/
def MultiSigRequestAction.promised (env : Env) : MultiSigRequestAction → Option PromiseAction
  | transfer amount => some (.transfer amount)
  | createAccount => some .createAccount
  | deployContract code => some (.deployContract code)
  | addMember (.accessKey publicKey) => some (.addAccessKeyAllowance publicKey
      (.ofAmount DEFAULT_ALLOWANCE) env.currentAccountId MULTISIG_METHOD_NAMES)
  | deleteMember (.accessKey publicKey) => some (.deleteKey publicKey)
  | addKey publicKey (some permission) => some (.addAccessKeyAllowance publicKey
      (.ofAmount (permission.allowance.getD DEFAULT_ALLOWANCE)) permission.receiverId
      (",".intercalate permission.methodNames))
  | addKey publicKey none => some (.addFullAccessKey publicKey)
  | functionCall methodName args deposit gas => some (.functionCall methodName args deposit gas)
  | addMember (.account _) | deleteMember (.account _) => none
  | setNumConfirmations _ | setActiveRequestsLimit _ => none

/-- The members after an action. -/
def MultiSigRequestAction.membersAfter (members : Finset MultisigMember) :
    MultiSigRequestAction → Finset MultisigMember
  | addMember member => insert member members
  | deleteMember member => members.erase member
  | _ => members

/-- The promise for a request: one action after the other, for its receiver. -/
def MultiSigRequest.promise (env : Env) (request : MultiSigRequest) : Promise where
  receiverId := request.receiverId
  actions := request.actions.filterMap (MultiSigRequestAction.promised env)

/-- What the execution of a request does: its actions are promised and the members edited, or its
only action is a setting, which is set. -/
inductive Performed (env : Env) (request : MultiSigRequest) (s t : MultiSigContract) :
    List Promise → Prop
  | promised (hmembers : t.members =
      request.actions.foldl MultiSigRequestAction.membersAfter s.members) :
    Performed env request s t [request.promise env]
  | confirmations (hactions : request.actions = [.setNumConfirmations t.numConfirmations]) :
    Performed env request s t []
  | limit (hactions : request.actions = [.setActiveRequestsLimit t.activeRequestsLimit]) :
    Performed env request s t []

section Execution

variable {s t : MultiSigContract} {env : Env} {receiverId : AccountId} {numActions : ℕ}
  {action : MultiSigRequestAction} {actions : List MultiSigRequestAction}
  {promise promise' : Promise} {p : PromiseOrValue}

theorem deleteMember_eq_ok {member : MultisigMember}
    (h : s.deleteMember promise member = .ok (t, promise')) :
    s.numConfirmations + 1 ≤ s.members.card ∧ t = s.withoutMember member := by
  simp only [MultiSigContract.deleteMember, bind_eq_ok, checkedSub_eq_ok, ensure_eq_ok,
    pure_eq_ok] at h
  obtain ⟨remaining, ⟨hone, rfl⟩, _, hle, h⟩ := h
  obtain ⟨rfl, -⟩ := Prod.mk.inj h
  exact ⟨by omega, rfl⟩

/-- The promise is continued by the action for an action of the request, if there is one. -/
def Promise.Continues (env : Env) (action : MultiSigRequestAction)
    (promise promise' : Promise) : Prop :=
  promise' = ⟨promise.receiverId, promise.actions ++ (action.promised env).toList⟩

theorem continues_addMember (s : MultiSigContract) (env : Env) (promise : Promise)
    (member : MultisigMember) :
    promise.Continues env (.addMember member) (s.addMember env promise member).2 := by
  cases member with
  | accessKey publicKey => rfl
  | account accountId =>
    simp [Promise.Continues, MultiSigRequestAction.promised, MultiSigContract.addMember]

theorem continues_deleteMember {member : MultisigMember}
    (h : s.deleteMember promise member = .ok (t, promise')) :
    promise.Continues env (.deleteMember member) promise' := by
  simp only [MultiSigContract.deleteMember, bind_eq_ok, pure_eq_ok, Prod.mk.injEq] at h
  obtain ⟨_, -, _, -, -, rfl⟩ := h
  cases member with
  | accessKey publicKey => rfl
  | account accountId => simp [Promise.Continues, MultiSigRequestAction.promised]

/-- The first action edits the members or leaves the contract alone, and is promised, or it is the
only one and a setting. -/
theorem executeActions_cons
    (h : executeActions env receiverId numActions (action :: actions) s promise = .ok (t, p)) :
    (∃ u promise', Acts (receiverId = env.currentAccountId) s action u ∧
        promise.Continues env action promise' ∧
        executeActions env receiverId numActions actions u promise' = .ok (t, p)) ∨
      receiverId = env.currentAccountId ∧ numActions = 1 ∧ Sets s action t ∧ p = .value true := by
  cases action with
  | transfer amount => exact .inl ⟨_, _, .promised rfl, rfl, h⟩
  | createAccount => exact .inl ⟨_, _, .promised rfl, rfl, h⟩
  | deployContract code => exact .inl ⟨_, _, .promised rfl, rfl, h⟩
  | functionCall methodName args deposit gas => exact .inl ⟨_, _, .promised rfl, rfl, h⟩
  | addMember member =>
    obtain ⟨_, hself, h⟩ := bind_eq_ok.mp h
    exact .inl ⟨_, _, .addMember (ensure_eq_ok.mp hself), continues_addMember s env promise member, h⟩
  | addKey publicKey permission =>
    obtain ⟨-, -, h⟩ := bind_eq_ok.mp h
    cases permission <;> exact .inl ⟨_, _, .promised rfl, rfl, h⟩
  | deleteMember member =>
    obtain ⟨_, hself, h⟩ := bind_eq_ok.mp h
    obtain ⟨⟨u, promise'⟩, hu, h⟩ := bind_eq_ok.mp h
    obtain ⟨hcard, rfl⟩ := deleteMember_eq_ok hu
    exact .inl ⟨_, promise', .deleteMember (ensure_eq_ok.mp hself) hcard, continues_deleteMember hu, h⟩
  -- The settings return at once: the actions after them are not looked at.
  | setNumConfirmations n =>
    simp only [executeActions, assertOneActionOnly, assertSelfRequest, bind_eq_ok, ensure_eq_ok,
      pure_eq_ok] at h
    obtain ⟨_, ⟨_, hself, hone⟩, h⟩ := h
    obtain ⟨rfl, rfl⟩ := Prod.mk.inj h
    exact .inr ⟨hself, hone, .confirmations, rfl⟩
  | setActiveRequestsLimit n =>
    simp only [executeActions, assertOneActionOnly, assertSelfRequest, bind_eq_ok, ensure_eq_ok,
      pure_eq_ok] at h
    obtain ⟨_, ⟨_, hself, hone⟩, h⟩ := h
    obtain ⟨rfl, rfl⟩ := Prod.mk.inj h
    exact .inr ⟨hself, hone, .limit, rfl⟩

theorem Promise.Continues.append (h : promise.Continues env action promise') :
    promise'.actions ++ actions.filterMap (MultiSigRequestAction.promised env) =
      promise.actions ++ (action :: actions).filterMap (MultiSigRequestAction.promised env) := by
  rw [h]
  cases hpromised : action.promised env with
  | none => simp [hpromised]
  | some new => simp [hpromised]

/-- No setting is among the actions after the first, so that all of them are promised. -/
theorem edited_of_executeActions (hlength : actions.length < numActions)
    (h : executeActions env receiverId numActions actions s promise = .ok (t, p)) :
    Edited (receiverId = env.currentAccountId) actions s t ∧
      p = .promise ⟨promise.receiverId,
        promise.actions ++ actions.filterMap (MultiSigRequestAction.promised env)⟩ := by
  induction actions generalizing s promise with
  | nil =>
    obtain ⟨rfl, rfl⟩ := Prod.mk.inj (pure_eq_ok.mp h)
    exact ⟨.nil, by simp⟩
  | cons action actions ih =>
    rw [List.length_cons] at hlength
    rcases executeActions_cons h with ⟨u, promise', hacts, hcontinues, hrest⟩ | ⟨-, hone, -⟩
    · obtain ⟨hedited, rfl⟩ := ih (by omega) hrest
      refine ⟨.cons hacts hedited, ?_⟩
      rw [hcontinues.append]
      rw [hcontinues]
    · omega

/-- A request has its actions promised and the members edited, or its only action is a setting. -/
theorem executeRequest_eq_ok {request : MultiSigRequest}
    (h : s.executeRequest env request = .ok (t, p)) :
    Edited (request.receiverId = env.currentAccountId) request.actions s t ∧
        p = .promise (request.promise env) ∨
      request.receiverId = env.currentAccountId ∧ p = .value true ∧
        ∃ action, request.actions = [action] ∧ Sets s action t := by
  obtain ⟨receiverId, actions⟩ := request
  rw [executeRequest] at h
  cases actions with
  | nil =>
    obtain ⟨rfl, rfl⟩ := Prod.mk.inj (pure_eq_ok.mp h)
    exact .inl ⟨.nil, rfl⟩
  | cons action actions =>
    rcases executeActions_cons h with ⟨u, promise', hacts, hcontinues, hrest⟩ | ⟨hself, hone, hsets, rfl⟩
    · obtain ⟨hedited, rfl⟩ := edited_of_executeActions (Nat.lt_succ_self _) hrest
      refine .inl ⟨.cons hacts hedited, ?_⟩
      rw [hcontinues.append]
      rw [hcontinues]
      rfl
    · cases List.length_eq_zero_iff.mp (Nat.succ.inj hone)
      exact .inr ⟨hself, rfl, action, rfl, hsets⟩

theorem executing_of_executeRequest {request : MultiSigRequest}
    (h : s.executeRequest env request = .ok (t, p)) : Executing env request s t := by
  rcases executeRequest_eq_ok h with ⟨hedited, -⟩ | ⟨hself, -, action, haction, hsets⟩
  · exact .edited hedited
  · exact .set hself haction hsets

theorem membersAfter_of_isPromised {members : Finset MultisigMember}
    (h : action.isPromised = true) : action.membersAfter members = members := by
  cases action with
  | addMember | deleteMember | setNumConfirmations | setActiveRequestsLimit => cases h
  | _ => rfl

theorem Edited.members {self : Prop} (h : Edited self actions s t) :
    t.members = actions.foldl MultiSigRequestAction.membersAfter s.members := by
  induction h with
  | nil => rfl
  | cons hacts _ ih =>
    rw [ih, List.foldl_cons]
    cases hacts with
    | addMember => rfl
    | deleteMember => rw [withoutMember_eq, MultiSigRequestAction.membersAfter]
    | promised hpromised => rw [membersAfter_of_isPromised hpromised]

theorem Performed.of_members {request : MultiSigRequest} {u : MultiSigContract}
    {issued : List Promise} (h : Performed env request u t issued) (hmembers : s.members = u.members) :
    Performed env request s t issued := by
  cases h with
  | promised hafter => exact .promised (hmembers ▸ hafter)
  | confirmations hactions => exact .confirmations hactions
  | limit hactions => exact .limit hactions

/-- **What an execution does** is what the request says. -/
theorem performed_of_executeRequest {request : MultiSigRequest}
    (h : s.executeRequest env request = .ok (t, p)) : Performed env request s t p.issued := by
  rcases executeRequest_eq_ok h with ⟨hedited, rfl⟩ | ⟨-, rfl, action, haction, hsets⟩
  · exact .promised hedited.members
  · cases hsets with
    | confirmations => exact .confirmations haction
    | limit => exact .limit haction

end Execution

/-! ## Initialization -/

section New

variable {s : MultiSigContract} {env : Env} {members : List MultisigMember} {k : ℕ}
  {promise : Promise}

theorem foldl_addMember (s : MultiSigContract) (promise : Promise) :
    (members.foldl (fun (s, promise) member => s.addMember env promise member) (s, promise)).1 =
      { s with members := s.members ∪ members.toFinset } := by
  induction members generalizing s promise with
  | nil =>
    rw [List.toFinset_nil, Finset.union_empty]
    rfl
  | cons member members ih =>
    refine (ih _ _).trans ?_
    simp only [List.toFinset_cons, Finset.union_insert, Finset.insert_union]

/-- A new multisig has the distinct members of the list, and no requests. -/
theorem new_eq_ok (h : MultiSigContract.new env members k = .ok (s, promise)) :
    k ≤ members.length ∧ s =
      { members := members.toFinset
        numConfirmations := k
        requestNonce := 0
        requests := ∅
        confirmations := ∅
        numRequestsPk := ∅
        activeRequestsLimit := ACTIVE_REQUESTS_LIMIT } := by
  simp only [MultiSigContract.new, bind_eq_ok, ensure_eq_ok, pure_eq_ok] at h
  obtain ⟨_, hle, h⟩ := h
  refine ⟨hle, (congrArg Prod.fst h).symm.trans ?_⟩
  rw [foldl_addMember, Finset.empty_union]

end New

/-! ## Calls -/

/-- The request that a call confirms, and the state in which it does. -/
def confirming (s : MultiSigContract) (c : Call) : Option (MultiSigContract × RequestId) :=
  match c.method with
  | .confirm id => some (s, id)
  | .addRequestAndConfirm request => (s.addRequest c.env request).toOption
  | _ => none

/-- The call confirms the request `id` in the state `u` and reaches the required number. -/
def Reaches (s : MultiSigContract) (c : Call) (u : MultiSigContract) (id : RequestId) : Prop :=
  confirming s c = some (u, id) ∧ u.numConfirmations ≤ (u.confirmationsOf id).card + 1

/-- A call that issued these promises has executed the request `id`, or a part of it: it issued any,
the request is gone, or the members or settings are others. -/
def Acted (s t : MultiSigContract) (issued : List Promise) (id : RequestId) : Prop :=
  issued ≠ [] ∨ id ∉ t.requests ∨ t.members ≠ s.members ∨
    t.numConfirmations ≠ s.numConfirmations ∨ t.activeRequestsLimit ≠ s.activeRequestsLimit

instance (s t : MultiSigContract) (issued : List Promise) (id : RequestId) :
    Decidable (Acted s t issued id) :=
  inferInstanceAs (Decidable (_ ∨ _))

/-- The call executes the request `id`, which it confirms in the state `u`. -/
def Executes (s : MultiSigContract) (c : Call) (u : MultiSigContract) (id : RequestId) : Prop :=
  confirming s c = some (u, id) ∧
    ∃ t result, s.call c = .ok (t, result) ∧ Acted s t result.issued id

/-- The effects of an accepted call. A confirmation may be of the request that the call adds. -/
inductive Called (s : MultiSigContract) (c : Call) : MultiSigContract → Prop
  | added {t : MultiSigContract} {id : RequestId} {request : MultiSigRequest}
    (hmethod : c.method = .addRequest request) (hadd : s.addRequest c.env request = .ok (t, id)) :
    Called s c t
  | deleted {id : RequestId} {r : MultiSigRequestWithSigner}
    (hmethod : c.method = .deleteRequest id) (hmember : caller c.env ∈ s.members)
    (hr : s.requests.lookup id = some r)
    (hcooldown : r.addedTimestamp + REQUEST_COOLDOWN < c.env.blockTimestamp) :
    Called s c (s.removed id r.member)
  | recorded {u : MultiSigContract} {id : RequestId} {r : MultiSigRequestWithSigner}
    (hconfirming : confirming s c = some (u, id)) (hmember : caller c.env ∈ u.members)
    (hr : u.requests.lookup id = some r)
    (hless : u.numConfirmations > (u.confirmationsOf id).card + 1) :
    Called s c (u.recorded id (caller c.env))
  | executed {t u : MultiSigContract} {id : RequestId} {r : MultiSigRequestWithSigner}
    (hreaches : Reaches s c u id) (hmember : caller c.env ∈ u.members)
    (hr : u.requests.lookup id = some r)
    (hexecuting : Executing c.env r.request (u.removed id r.member) t) : Called s c t

section Calls

variable {s t u : MultiSigContract} {env : Env} {id : RequestId} {c : Call} {p : PromiseOrValue}

theorem currentMember_eq_some {member : MultisigMember} :
    s.currentMember env = some member ↔ caller env ∈ s.members ∧ caller env = member := by
  unfold currentMember
  split
  · next hmem => simp [hmem]
  · next hmem => simp [hmem]

/-- A request is added by a member below the limit. -/
theorem addRequest_eq_ok {request : MultiSigRequest} :
    s.addRequest env request = .ok (t, id) ↔
      caller env ∈ s.members ∧ s.numRequestsOf (caller env) + 1 ≤ u32Max ∧
        s.numRequestsOf (caller env) + 1 ≤ s.activeRequestsLimit ∧ s.requestNonce + 1 ≤ u32Max ∧
          s.added env request = t ∧ s.requestNonce = id := by
  simp only [addRequest, bind_eq_ok, expect_eq_ok, checkedAdd_eq_ok, ensure_eq_ok, pure_eq_ok,
    currentMember_eq_some, Prod.mk.injEq]
  constructor
  · rintro ⟨_, ⟨hmem, rfl⟩, _, ⟨hmax, rfl⟩, _, hlimit, _, ⟨hnonce, rfl⟩, rfl, rfl⟩
    exact ⟨hmem, hmax, hlimit, hnonce, rfl, rfl⟩
  · rintro ⟨hmem, hmax, hlimit, hnonce, rfl, rfl⟩
    exact ⟨_, ⟨hmem, rfl⟩, _, ⟨hmax, rfl⟩, (), hlimit, _, ⟨hnonce, rfl⟩, rfl, rfl⟩

theorem removeRequest_eq_ok {request : MultiSigRequest}
    (h : s.removeRequest id = .ok (t, request)) :
    ∃ r, s.requests.lookup id = some r ∧ request = r.request ∧ t = s.removed id r.member := by
  simp only [removeRequest, bind_eq_ok, expect_eq_ok, pure_eq_ok, Prod.mk.injEq] at h
  obtain ⟨r, hr, rfl, rfl⟩ := h
  -- The check for an underrun makes no difference to a natural number.
  have hnumber : ∀ n : ℕ, (if 0 < n then n - 1 else n) = n - 1 := by
    intro n
    split
    · rfl
    · omega
  refine ⟨r, hr, rfl, ?_⟩
  simp only [hnumber]
  rfl

theorem deleteRequest_eq_ok (h : s.deleteRequest env id = .ok t) :
    ∃ r, caller env ∈ s.members ∧ s.requests.lookup id = some r ∧
      r.addedTimestamp + REQUEST_COOLDOWN < env.blockTimestamp ∧ t = s.removed id r.member := by
  simp only [deleteRequest, assertValidRequest, bind_eq_ok, ensure_eq_ok, expect_eq_ok,
    checkedAdd_eq_ok, pure_eq_ok] at h
  obtain ⟨_, ⟨_, hmember, -⟩, r, hr, _, ⟨-, rfl⟩, _, hcooldown, ⟨u, request⟩, hu, rfl⟩ := h
  obtain ⟨member, hmember⟩ := Option.isSome_iff_exists.mp hmember
  obtain ⟨r', hr', -, hremoved⟩ := removeRequest_eq_ok hu
  cases hr.symm.trans hr'
  exact ⟨r, (currentMember_eq_some.mp hmember).1, hr, hcooldown, hremoved⟩

/-- A confirmation is recorded and issues nothing, or executes its request. -/
theorem confirm_eq_ok (h : s.confirm env id = .ok (t, p)) :
    ∃ r, caller env ∈ s.members ∧ s.requests.lookup id = some r ∧
      (caller env).toString ∉ s.confirmationsOf id ∧
      (s.numConfirmations > (s.confirmationsOf id).card + 1 ∧ t = s.recorded id (caller env) ∧
          p = .value true ∨
        s.numConfirmations ≤ (s.confirmationsOf id).card + 1 ∧
          (s.removed id r.member).executeRequest env r.request = .ok (t, p)) := by
  simp only [MultiSigContract.confirm, assertValidRequest, bind_eq_ok, ensure_eq_ok, expect_eq_ok,
    checkedAdd_eq_ok, currentMember_eq_some] at h
  obtain ⟨_, ⟨_, -, _, hsome, -⟩, _, ⟨hmem, rfl⟩, confirmations, hconf, _, hnew, _, ⟨-, rfl⟩, h⟩ := h
  obtain ⟨r, hr⟩ := Option.isSome_iff_exists.mp hsome
  have hof : s.confirmationsOf id = confirmations := by
    rw [confirmationsOf, hconf, Option.getD_some]
  refine ⟨r, hmem, hr, hof ▸ hnew, ?_⟩
  by_cases hreached : s.numConfirmations ≤ confirmations.card + 1
  · simp only [if_pos hreached, bind_eq_ok] at h
    obtain ⟨⟨u, request⟩, hu, hexec⟩ := h
    obtain ⟨r', hr', rfl, rfl⟩ := removeRequest_eq_ok hu
    cases hr.symm.trans hr'
    exact .inr ⟨hof ▸ hreached, hexec⟩
  · simp only [if_neg hreached, pure_eq_ok, Prod.mk.injEq] at h
    obtain ⟨rfl, rfl⟩ := h
    refine .inl ⟨hof ▸ Nat.lt_of_not_le hreached, ?_, rfl⟩
    rw [recorded, hof]

/-- The request that a call confirms was there before, or the call adds it. -/
theorem confirming_eq_some (h : confirming s c = some (u, id)) :
    u = s ∧ c.method = .confirm id ∨
      ∃ request, c.method = .addRequestAndConfirm request ∧
        s.addRequest c.env request = .ok (u, id) := by
  unfold confirming at h
  cases hmethod : c.method with
  | confirm id' =>
    rw [hmethod] at h
    cases h
    exact .inl ⟨rfl, rfl⟩
  | addRequestAndConfirm request =>
    rw [hmethod] at h
    refine .inr ⟨request, rfl, ?_⟩
    cases hadd : s.addRequest c.env request with
    | ok a =>
      simp only [hadd, Except.toOption, Option.some.injEq] at h
      rw [h]
    | error e => simp [hadd, Except.toOption] at h
  | addRequest request => simp [hmethod] at h
  | deleteRequest id' => simp [hmethod] at h

/-- The state in which a call confirms a request has the members and settings of before. -/
theorem settings_of_confirming (h : confirming s c = some (u, id)) :
    u.members = s.members ∧ u.numConfirmations = s.numConfirmations ∧
      u.activeRequestsLimit = s.activeRequestsLimit := by
  rcases confirming_eq_some h with ⟨rfl, -⟩ | ⟨request, -, hadd⟩
  · exact ⟨rfl, rfl, rfl⟩
  · obtain ⟨-, -, -, -, rfl, -⟩ := addRequest_eq_ok.mp hadd
    exact ⟨rfl, rfl, rfl⟩

/-- A call that confirms a request does so by `confirm`, in the state in which it is pending. -/
theorem confirm_of_call (hconfirming : confirming s c = some (u, id))
    (h : s.call c = .ok (t, p)) : u.confirm c.env id = .ok (t, p) := by
  obtain ⟨env, method⟩ := c
  obtain ⟨-, -, h⟩ := bind_eq_ok.mp h
  rcases confirming_eq_some hconfirming with ⟨rfl, hmethod⟩ | ⟨request, hmethod, hadd⟩
  · cases hmethod
    exact h
  · cases hmethod
    obtain ⟨⟨v, result, id'⟩, hv, ht⟩ := bind_eq_ok.mp h
    obtain ⟨rfl, rfl⟩ := Prod.mk.inj (pure_eq_ok.mp ht)
    obtain ⟨⟨w, id''⟩, hw, hv⟩ := bind_eq_ok.mp hv
    cases hw.symm.trans hadd
    obtain ⟨⟨x, p⟩, hx, hv⟩ := bind_eq_ok.mp hv
    obtain ⟨rfl, hresult⟩ := Prod.mk.inj (pure_eq_ok.mp hv)
    obtain ⟨rfl, -⟩ := Prod.mk.inj hresult
    exact hx

/-- An accepted call that confirms no request adds one or deletes one, and issues nothing. -/
theorem called_of_none (hconfirming : confirming s c = none) (h : s.call c = .ok (t, p)) :
    Called s c t ∧ p = .value true := by
  obtain ⟨env, method⟩ := c
  obtain ⟨-, -, h⟩ := bind_eq_ok.mp h
  cases method with
  | addRequest request =>
    obtain ⟨⟨u, id⟩, hu, ht⟩ := bind_eq_ok.mp h
    obtain ⟨rfl, rfl⟩ := Prod.mk.inj (pure_eq_ok.mp ht)
    exact ⟨.added rfl hu, rfl⟩
  | addRequestAndConfirm request =>
    obtain ⟨⟨u, result, id⟩, hu, -⟩ := bind_eq_ok.mp h
    obtain ⟨⟨v, id'⟩, hv, -⟩ := bind_eq_ok.mp hu
    simp [confirming, hv, Except.toOption] at hconfirming
  | deleteRequest id =>
    obtain ⟨u, hu, ht⟩ := bind_eq_ok.mp h
    obtain ⟨rfl, rfl⟩ := Prod.mk.inj (pure_eq_ok.mp ht)
    obtain ⟨r, hmem, hr, hcooldown, rfl⟩ := deleteRequest_eq_ok hu
    exact ⟨.deleted rfl hmem hr hcooldown, rfl⟩
  | confirm id => cases hconfirming

/-- A call that confirms a request records the confirmation and issues nothing, or reaches the
required number and does what the request says. -/
theorem called_of_some (hconfirming : confirming s c = some (u, id))
    (h : s.call c = .ok (t, p)) :
    ∃ r, caller c.env ∈ u.members ∧ u.requests.lookup id = some r ∧
      (u.numConfirmations > (u.confirmationsOf id).card + 1 ∧ t = u.recorded id (caller c.env) ∧
          p = .value true ∨
        Reaches s c u id ∧ Executing c.env r.request (u.removed id r.member) t ∧
          Performed c.env r.request u t p.issued) := by
  obtain ⟨r, hmem, hr, -, hrecorded | ⟨hreached, hexecute⟩⟩ :=
    confirm_eq_ok (confirm_of_call hconfirming h)
  · exact ⟨r, hmem, hr, .inl hrecorded⟩
  · exact ⟨r, hmem, hr, .inr ⟨⟨hconfirming, hreached⟩, executing_of_executeRequest hexecute,
      (performed_of_executeRequest hexecute).of_members rfl⟩⟩

/-- Every accepted call has one of the effects. -/
theorem called_of_call (h : s.call c = .ok (t, p)) : Called s c t := by
  cases hconfirming : confirming s c with
  | none => exact (called_of_none hconfirming h).1
  | some confirmed =>
    obtain ⟨r, hmem, hr, ⟨hless, rfl, -⟩ | ⟨hreaches, hexecuting, -⟩⟩ := called_of_some hconfirming h
    · exact .recorded hconfirming hmem hr hless
    · exact .executed hreaches hmem hr hexecuting

theorem call_of_multisig_step (h : multisig.step s c = .ok t) : ∃ p, s.call c = .ok (t, p) := by
  obtain ⟨⟨t', p⟩, hcall, ht⟩ := bind_eq_ok.mp h
  cases pure_eq_ok.mp ht
  exact ⟨p, hcall⟩

theorem called_of_step (h : multisig.step s c = .ok t) : Called s c t := by
  obtain ⟨p, hcall⟩ := call_of_multisig_step h
  exact called_of_call hcall

/-- A step is a call, with what it issues. -/
theorem call_of_step {a b : Issuer} (h : issuing.step a c = .ok b) :
    ∃ p, a.contract.call c = .ok (b.contract, p) ∧ b.issued = a.issued ++ p.issued := by
  obtain ⟨⟨t, p⟩, hcall, hb⟩ := bind_eq_ok.mp h
  cases pure_eq_ok.mp hb
  exact ⟨p, hcall, rfl⟩

/-- **The contract of an issuer** is the multisig under the same calls. -/
theorem contract_run (a : Issuer) (calls : List Call) :
    (issuing.run a calls).contract = multisig.run a.contract calls := by
  refine (Machine.run_map (f := Issuer.contract) (fun a c => ?_) a calls).symm
  simp only [issuing, multisig]
  cases a.contract.call c <;> rfl

/-- A call that reaches the required number has the effect of the execution. -/
theorem Called.executing (h : Called s c t) (hreaches : Reaches s c u id) :
    ∃ r, u.requests.lookup id = some r ∧ Executing c.env r.request (u.removed id r.member) t := by
  obtain ⟨hconfirming, hreached⟩ := hreaches
  cases h with
  | added hmethod hadd =>
    rw [confirming, hmethod] at hconfirming
    cases hconfirming
  | deleted hmethod hmember hr hcooldown =>
    rw [confirming, hmethod] at hconfirming
    cases hconfirming
  | recorded hconfirming' hmember hr hless =>
    cases hconfirming.symm.trans hconfirming'
    exact absurd hreached (Nat.not_le_of_gt hless)
  | executed hreaches' hmember hr hexecuting =>
    cases hconfirming.symm.trans hreaches'.1
    exact ⟨_, hr, hexecuting⟩

end Calls

end UncContracts.Multisig
