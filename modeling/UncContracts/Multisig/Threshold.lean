import UncContracts.Multisig.Calls

/-!
# The threshold of the multisig

A request is executed by the confirmation that reaches the required number. The recorded
confirmations are those of members, each from a call of its own, until a member is deleted: its
confirmations on the requests of others stay and count. In a run that deletes no member with such
confirmations, every executed request was confirmed by the required number of members.

## Main definitions

* `Confirmed`: a member confirmed a request along a run
* `ThresholdMet`: enough members confirmed a request
* `LeavesNoVote`: the members deleted by a call leave no confirmation behind
* `Voted`: the recorded confirmations are those of members

## Main results

* `executes_iff_reaches`: a request is executed by the confirmation that reaches the required number
* `executed_threshold`: executed requests meet the threshold in runs that leave no vote behind
* `not_threshold`: a deleted member's confirmation that executes a request
-/

namespace UncContracts.Multisig

open Foundation MultiSigContract

/-! ## The texts of members -/

theorem append_between_inj (p q : String) {k l : String} (h : p ++ k ++ q = p ++ l ++ q) :
    k = l := by
  rw [← String.toList_inj] at h ⊢
  simpa using h

theorem take_toList_append {p : String} (q r : String) {n : ℕ} (h : n ≤ p.toList.length) :
    (p ++ q ++ r).toList.take n = p.toList.take n := by
  rw [String.toList_append, String.toList_append, List.append_assoc,
    List.take_append_of_le_length h]

theorem accessKey_ne_account (k : PublicKey) (a : AccountId) :
    (MultisigMember.accessKey k).toString ≠ (MultisigMember.account a).toString := by
  intro h
  -- The first six characters differ.
  have hkey : (MultisigMember.accessKey k).toString.toList.take 6 =
      "\x7b\"AccessKey\":\x7b\"public_key\":\"".toList.take 6 := take_toList_append k _ (by decide)
  have haccount : (MultisigMember.account a).toString.toList.take 6 =
      "\x7b\"Account\":\x7b\"account_id\":\"".toList.take 6 := take_toList_append a _ (by decide)
  rw [h, haccount] at hkey
  revert hkey
  decide

/-- Members have different texts. -/
theorem toString_injective : Function.Injective MultisigMember.toString := by
  intro m n h
  cases m with
  | accessKey k =>
    cases n with
    | accessKey l => rw [append_between_inj _ _ h]
    | account a => exact absurd h (accessKey_ne_account k a)
  | account a =>
    cases n with
    | accessKey l => exact absurd h.symm (accessKey_ne_account l a)
    | account b => rw [append_between_inj _ _ h]

/-! ## Confirmations along a run -/

/-- Along the steps so far, the member `v` confirmed the request `r` under the id. -/
def Confirmed (hist : List (Step Issuer Call)) (id : RequestId)
    (r : MultiSigRequestWithSigner) (v : MultisigMember) : Prop :=
  ∃ y ∈ hist, ∃ u, confirming y.before.contract y.label = some (u, id) ∧ caller y.label.env = v ∧
    u.requests.lookup id = some r

/-- Enough members, the caller among them, have confirmed the request. -/
def ThresholdMet (hist : List (Step Issuer Call)) (u : MultiSigContract) (env : Env)
    (id : RequestId) : Prop :=
  ∃ r, u.requests.lookup id = some r ∧ ∃ voters : Finset MultisigMember, voters ⊆ u.members ∧
    caller env ∈ voters ∧ u.numConfirmations ≤ voters.card ∧
    ∀ v ∈ voters, v = caller env ∨ Confirmed hist id r v

/-- The members that the execution of the actions deletes. -/
def deletedMembers : List MultiSigRequestAction → List MultisigMember
  | [] => []
  | .deleteMember m :: actions => m :: deletedMembers actions
  | .setNumConfirmations _ :: _ => []
  | .setActiveRequestsLimit _ :: _ => []
  | _ :: actions => deletedMembers actions

/-- No member deleted by the call has a confirmation on another request that stays: one whose
author is not deleted too. -/
def LeavesNoVote (s : MultiSigContract) (c : Call) : Prop :=
  ∀ u id, Executes s c u id → ∀ r, u.requests.lookup id = some r →
    ∀ m ∈ deletedMembers r.request.actions, ∀ id' r', id' ≠ id →
      u.requests.lookup id' = some r' → r'.member ∉ deletedMembers r.request.actions →
      m.toString ∉ u.confirmationsOf id'

/-- The recorded confirmations are those of members, each given along the run. -/
def Voted (hist : List (Step Issuer Call)) (s : MultiSigContract) : Prop :=
  ∀ id, ∀ text ∈ s.confirmationsOf id, ∃ r, s.requests.lookup id = some r ∧
    ∃ v ∈ s.members, v.toString = text ∧ Confirmed hist id r v

section Steps

variable {s t : MultiSigContract} {env : Env} {id : RequestId}
  {hist : List (Step Issuer Call)} {x : Step Issuer Call}

theorem Confirmed.append {r : MultiSigRequestWithSigner} {v : MultisigMember}
    (h : Confirmed hist id r v) : Confirmed (hist ++ [x]) id r v := by
  obtain ⟨y, hy, u, hu⟩ := h
  exact ⟨y, List.mem_append_left _ hy, u, hu⟩

theorem Voted.append (h : Voted hist s) : Voted (hist ++ [x]) s := by
  intro id text htext
  obtain ⟨r, hr, v, hv, hvtext, hconf⟩ := h id text htext
  exact ⟨r, hr, v, hv, hvtext, hconf.append⟩

/-! ## What the methods do -/

/-- What the execution of actions does to the requests and the members. -/
structure Executed (s t : MultiSigContract) (deleted : List MultisigMember) : Prop where
  keeps : Keeps s t
  members : ∀ v ∈ s.members, v ∉ deleted → v ∈ t.members
  authors : ∀ id r, t.requests.lookup id = some r → r.member ∉ deleted

theorem Executed.refl (s : MultiSigContract) : Executed s s [] :=
  ⟨.refl s, fun _ hv _ => hv, fun _ _ _ => List.not_mem_nil⟩

theorem deletedMembers_of_isPromised {action : MultiSigRequestAction}
    {actions : List MultiSigRequestAction} (h : action.isPromised = true) :
    deletedMembers (action :: actions) = deletedMembers actions := by
  cases action with
  | addMember | deleteMember | setNumConfirmations | setActiveRequestsLimit => cases h
  | _ => rfl

theorem Edited.executed {self : Prop} {actions : List MultiSigRequestAction}
    (h : Edited self actions s t) : Executed s t (deletedMembers actions) := by
  induction h with
  | nil => exact .refl _
  | cons hacts _ ih =>
    cases hacts with
    | addMember =>
      exact ⟨ih.keeps, fun v hv hd => ih.members v (Finset.mem_insert_of_mem hv) hd, ih.authors⟩
    | @deleteMember m hself hcard =>
      refine ⟨(keeps_withoutMember _ m).trans ih.keeps, ?_, ?_⟩
      · intro v hv hd
        obtain ⟨hne, hd⟩ := not_or.mp (mt List.mem_cons.mpr hd)
        apply ih.members v _ hd
        rw [withoutMember_eq]
        exact Finset.mem_erase_of_ne_of_mem hne hv
      · intro id r hr hd
        rcases List.mem_cons.mp hd with hm | hd
        · rcases ih.keeps id with ⟨hsame, -⟩ | ⟨hnone, -⟩
          · exact (lookup_withoutMember_eq_some.mp (hsame.symm.trans hr)).2 hm
          · cases hnone.symm.trans hr
        · exact ih.authors id r hr hd
    | promised hpromised =>
      rw [deletedMembers_of_isPromised hpromised]
      exact ih

theorem Executing.executed {request : MultiSigRequest} (h : Executing env request s t) :
    Executed s t (deletedMembers request.actions) := by
  cases h with
  | edited hedited => exact hedited.executed
  | set hself hactions hsets =>
    rw [hactions]
    cases hsets with
    | confirmations => exact ⟨.refl _, fun _ hv _ => hv, fun _ _ _ => List.not_mem_nil⟩
    | limit => exact ⟨.refl _, fun _ hv _ => hv, fun _ _ _ => List.not_mem_nil⟩

/-- A request that is removed before an execution is gone after it. -/
theorem Executing.gone {m : MultisigMember} {request : MultiSigRequest}
    (h : Executing env request (s.removed id m) t) : t.requests.lookup id = none := by
  rcases h.executed.keeps id with ⟨hsame, -⟩ | ⟨hgone, -⟩
  · exact hsame.trans (AList.lookup_erase _ _)
  · exact hgone

/-- A request is executed by the confirmation that reaches the required number, and by no other. -/
theorem executes_iff_reaches {c : Call} {p : PromiseOrValue} {u : MultiSigContract}
    (h : s.call c = .ok (t, p)) : Executes s c u id ↔ Reaches s c u id := by
  constructor
  · rintro ⟨hconfirming, t', p', hcall, hacted⟩
    obtain ⟨rfl, rfl⟩ := Prod.mk.inj (Except.ok.inj (h.symm.trans hcall))
    obtain ⟨r, -, hr, ⟨-, rfl, rfl⟩ | ⟨hreaches, -⟩⟩ := called_of_some hconfirming h
    · obtain ⟨hmembers, hconfirmations, hlimit⟩ := settings_of_confirming hconfirming
      rcases hacted with hissued | hgone | hother | hother | hother
      · exact absurd rfl hissued
      · exact absurd (mem_requests hr) hgone
      · exact absurd hmembers hother
      · exact absurd hconfirmations hother
      · exact absurd hlimit hother
    · exact hreaches
  · intro hreaches
    obtain ⟨r, -, hexecuting⟩ := (called_of_call h).executing hreaches
    exact ⟨hreaches.1, t, p, h, .inr (.inl (AList.lookup_eq_none.mp hexecuting.gone))⟩

/-! ## Votes are those of members -/

theorem Voted.of_addRequest (h : Voted hist s) {request : MultiSigRequest}
    (ht : s.addRequest env request = .ok (t, id)) : Voted hist t := by
  obtain ⟨-, -, -, -, rfl, rfl⟩ := addRequest_eq_ok.mp ht
  intro id' text htext
  rw [confirmationsOf, added] at htext
  by_cases hid : id' = s.requestNonce
  · rw [hid, AList.lookup_insert] at htext
    cases htext
  · rw [AList.lookup_insert_ne hid] at htext
    obtain ⟨r, hr, hv⟩ := h id' text htext
    exact ⟨r, (AList.lookup_insert_ne hid).trans hr, hv⟩

/-- The votes when a call confirms a request are those before the call. -/
theorem Voted.of_confirming {u : MultiSigContract} {c : Call} (h : Voted hist s)
    (hu : confirming s c = some (u, id)) : Voted hist u := by
  rcases confirming_eq_some hu with ⟨rfl, -⟩ | ⟨request, -, hadd⟩
  · exact h
  · exact h.of_addRequest hadd

theorem Keeps.confirmationsOf (h : Keeps s t) {text : String} (htext : text ∈ t.confirmationsOf id) :
    t.requests.lookup id = s.requests.lookup id ∧ text ∈ s.confirmationsOf id := by
  rcases h id with ⟨hr, hc⟩ | ⟨-, hc⟩
  · exact ⟨hr, by rwa [MultiSigContract.confirmationsOf, ← hc]⟩
  · rw [MultiSigContract.confirmationsOf, hc] at htext
    cases htext

/-- What drops requests and deletes only members without votes keeps the votes. -/
theorem Voted.of_keeps (h : Voted hist s) (hkeeps : Keeps s t)
    (hmembers : ∀ id r, ∀ v ∈ s.members, t.requests.lookup id = some r →
      v.toString ∈ t.confirmationsOf id → v ∈ t.members) : Voted hist t := by
  intro id text htext
  obtain ⟨hsame, hold⟩ := hkeeps.confirmationsOf htext
  obtain ⟨r, hr, v, hv, rfl, hconf⟩ := h id text hold
  rw [← hsame] at hr
  exact ⟨r, hr, v, hmembers id r v hv hr htext, rfl, hconf⟩

theorem Voted.removed (h : Voted hist s) (m : MultisigMember) : Voted hist (s.removed id m) :=
  h.of_keeps (t := s.removed id m) (keeps_dropRequest s id) fun _ _ _ hv _ _ => hv

/-- A confirmation adds the caller's vote. -/
theorem Voted.recorded {r : MultiSigRequestWithSigner} (h : Voted hist s)
    (hr : s.requests.lookup id = some r)
    (hvote : Confirmed hist id r (caller env)) (hmember : caller env ∈ s.members) :
    Voted hist (s.recorded id (caller env)) := by
  intro id' text htext
  rw [confirmationsOf, MultiSigContract.recorded] at htext
  by_cases hid : id' = id
  · subst hid
    rw [AList.lookup_insert, Option.getD_some] at htext
    rcases Finset.mem_insert.mp htext with rfl | hold
    · exact ⟨r, hr, caller env, hmember, rfl, hvote⟩
    · exact h id' text hold
  · rw [AList.lookup_insert_ne hid] at htext
    exact h id' text htext

/-- An execution that leaves no vote behind keeps the votes. -/
theorem Voted.executing {c : Call} {u : MultiSigContract} {r : MultiSigRequestWithSigner}
    (h : Voted hist u) (hclean : LeavesNoVote s c) (hexecutes : Executes s c u id)
    (hr : u.requests.lookup id = some r)
    (hexecuting : Executing env r.request (u.removed id r.member) t) : Voted hist t := by
  have hexecuted := hexecuting.executed
  have hkeeps : Keeps u t := (keeps_dropRequest u id).trans hexecuted.keeps
  refine h.of_keeps hkeeps ?_
  intro id' r' v hv hr' hvote
  apply hexecuted.members v hv
  intro hdeleted
  -- The vote of a deleted member would be on another request that stays.
  have hne : id' ≠ id := by
    rintro rfl
    obtain ⟨hsame, -⟩ := Keeps.confirmationsOf hexecuted.keeps hvote
    have hgone : (u.requests.erase id').lookup id' = none := AList.lookup_erase _ _
    cases (hsame.trans hgone).symm.trans hr'
  obtain ⟨hsame, hold⟩ := hkeeps.confirmationsOf hvote
  exact hclean u id hexecutes r hr v hdeleted id' r' hne (hsame ▸ hr')
    (hexecuted.authors id' r' hr') hold

end Steps

section Runs

variable {s t u : MultiSigContract} {env : Env} {id : RequestId} {c : Call}
  {hist : List (Step Issuer Call)}

theorem Voted.step {a b : Issuer} (h : Voted hist a.contract) (hclean : LeavesNoVote a.contract c)
    (hstep : issuing.step a c = .ok b) : Voted (hist ++ [⟨a, c, b⟩]) b.contract := by
  obtain ⟨p, hcall, -⟩ := call_of_step hstep
  generalize b.contract = t at hcall
  cases called_of_call hcall with
  | added hmethod hadd => exact (h.of_addRequest hadd).append
  | deleted hmethod hmember hr hcooldown => exact (h.removed _).append
  | recorded hconfirming hmember hr hless =>
    refine (h.of_confirming hconfirming).append.recorded hr ?_ hmember
    exact ⟨_, List.mem_append_right _ List.mem_cons_self, _, hconfirming, rfl, hr⟩
  | executed hreaches hmember hr hexecuting =>
    have hexecutes := (executes_iff_reaches hcall).mpr hreaches
    exact ((h.of_confirming hreaches.1).executing hclean hexecutes hr hexecuting).append

/-- The contract starts without confirmations. -/
theorem voted_new {members : List MultisigMember} {k : ℕ} {promise : Promise}
    (h : MultiSigContract.new env members k = .ok (s, promise)) : Voted [] s := by
  obtain ⟨-, rfl⟩ := new_eq_ok h
  intro id text htext
  cases htext

theorem voted_run {a : Issuer} (h : Voted [] a.contract) {calls : List Call}
    (hclean : ∀ x ∈ issuing.steps a calls, LeavesNoVote x.before.contract x.label) :
    Voted (issuing.steps a calls) (issuing.run a calls).contract := by
  refine Machine.run_induction (M := issuing)
    (P := fun hist a => (∀ x ∈ hist, LeavesNoVote x.before.contract x.label) →
      Voted hist a.contract) (fun _ => h) ?_ calls hclean
  intro hist a l b ih hstep hall
  exact (ih fun x hx => hall x (by simp [hx])).step (hall ⟨a, l, b⟩ (by simp)) hstep

/-- The confirmation that executes a request finds the votes of as many members. -/
theorem Voted.thresholdMet {p : PromiseOrValue} (h : Voted hist u)
    (ht : u.confirm env id = .ok (t, p))
    (hreached : u.numConfirmations ≤ (u.confirmationsOf id).card + 1) :
    ThresholdMet hist u env id := by
  obtain ⟨r, hmem, hr, hnew, -⟩ := confirm_eq_ok ht
  let others := u.members.filter fun v => v.toString ∈ u.confirmationsOf id
  have htexts : u.confirmationsOf id ⊆ others.image MultisigMember.toString := by
    intro text htext
    obtain ⟨-, -, v, hv, rfl, -⟩ := h id text htext
    exact Finset.mem_image_of_mem _ (Finset.mem_filter.mpr ⟨hv, htext⟩)
  have hcard : (u.confirmationsOf id).card ≤ others.card :=
    (Finset.card_le_card htexts).trans Finset.card_image_le
  have hcaller : caller env ∉ others := fun hin => hnew (Finset.mem_filter.mp hin).2
  refine ⟨r, hr, insert (caller env) others, ?_, Finset.mem_insert_self _ _, ?_, ?_⟩
  · exact Finset.insert_subset hmem (Finset.filter_subset _ _)
  · rw [Finset.card_insert_of_notMem hcaller]
    omega
  · intro v hv
    rcases Finset.mem_insert.mp hv with hcall | hin
    · exact .inl hcall
    · right
      obtain ⟨-, htext⟩ := Finset.mem_filter.mp hin
      obtain ⟨r', hr', w, -, hw, hconf⟩ := h id _ htext
      obtain rfl := toString_injective hw
      obtain rfl : r = r' := Option.some.inj (hr.symm.trans hr')
      exact hconf

end Runs

/-! ## A deleted member -/

/-- A call of the multisig's account by the given account. -/
def callBy (predecessorAccountId : AccountId) (method : Method) : Call where
  env :=
    { currentAccountId := "multisig"
      predecessorAccountId
      signerAccountPk := "pk"
      attachedDeposit := 0
      accountBalance := 0
      accountLockedBalance := 0
      epochHeight := 0
      blockHeight := 0
      blockTimestamp := 0
      attachedDeposit_le := Nat.zero_le _
      accountBalance_le := Nat.zero_le _
      accountLockedBalance_le := Nat.zero_le _ }
  method

/-- A multisig of three accounts that requires two confirmations. -/
def sampleMultisig : MultiSigContract where
  members := {.account "carol", .account "bob", .account "alice"}
  numConfirmations := 2
  requestNonce := 0
  requests := ∅
  confirmations := ∅
  numRequestsPk := ∅
  activeRequestsLimit := ACTIVE_REQUESTS_LIMIT

theorem new_sampleMultisig :
    MultiSigContract.new (callBy "alice" (.confirm 0)).env
      [.account "alice", .account "bob", .account "carol"] 2 =
      .ok (sampleMultisig, ⟨"multisig", []⟩) := by rfl

/-- Bob confirms a transfer that Alice requests; then Alice and Carol delete him. -/
def sampleCalls : List Call :=
  [callBy "alice" (.addRequest ⟨"dave", [.transfer 100]⟩),
    callBy "bob" (.confirm 0),
    callBy "alice" (.addRequestAndConfirm ⟨"multisig", [.deleteMember (.account "bob")]⟩),
    callBy "carol" (.confirm 1)]

/-! ## The threshold -/

/-- In a run whose calls leave no vote of a deleted member behind, every executed request was
confirmed by the required number of members. -/
theorem executed_threshold (env : Env) (members : List MultisigMember) (k : ℕ)
    (s : MultiSigContract) (promise : Promise)
    (hnew : MultiSigContract.new env members k = .ok (s, promise)) (calls : List Call)
    (hclean : ∀ x ∈ issuing.steps ⟨s, [promise]⟩ calls, LeavesNoVote x.before.contract x.label)
    (pre : List Call) (c : Call) (hpre : pre ++ [c] <+: calls) (u : MultiSigContract)
    (id : RequestId) (hexec : Executes (issuing.run ⟨s, [promise]⟩ pre).contract c u id) :
    ThresholdMet (issuing.steps ⟨s, [promise]⟩ pre) u c.env id := by
  have hvoted : Voted (issuing.steps ⟨s, [promise]⟩ pre) (issuing.run ⟨s, [promise]⟩ pre).contract :=
    voted_run (voted_new hnew)
      (Machine.guard_of_prefix ((List.prefix_append pre [c]).trans hpre) hclean)
  obtain ⟨t, p, hcall, -⟩ := hexec.2
  obtain ⟨hconfirming, hreached⟩ := (executes_iff_reaches hcall).mp hexec
  exact (hvoted.of_confirming hconfirming).thresholdMet (confirm_of_call hconfirming hcall) hreached

/-- A new multisig of three accounts, with what it issued. -/
def sampleIssuer : Issuer := ⟨sampleMultisig, [⟨"multisig", []⟩]⟩

theorem executed_threshold_transfer :
    ThresholdMet (issuing.steps sampleIssuer (sampleCalls.take 2))
      (issuing.run sampleIssuer (sampleCalls.take 2)).contract (callBy "carol" (.confirm 0)).env 0 := by
  refine executed_threshold (callBy "alice" (.confirm 0)).env _ 2 sampleMultisig _
    new_sampleMultisig (sampleCalls.take 2 ++ [callBy "carol" (.confirm 0)]) ?_ (sampleCalls.take 2)
    (callBy "carol" (.confirm 0)) (List.prefix_refl _) _ 0 ⟨rfl, _, _, rfl, by decide⟩
  have hnone : ∀ x ∈ issuing.steps sampleIssuer
      (sampleCalls.take 2 ++ [callBy "carol" (.confirm 0)]),
      ∀ e ∈ confirming x.before.contract x.label, ∀ r ∈ e.1.requests.lookup e.2,
        deletedMembers r.request.actions = [] := by decide
  intro x hx u id hexec r hr m hm
  rw [hnone x hx (u, id) hexec.1 r hr] at hm
  cases hm

/-- Carol's confirmation executes the transfer with the vote of Bob, who is no member then. -/
theorem not_threshold :
    ¬ ∀ env members k s promise, MultiSigContract.new env members k = .ok (s, promise) →
      ∀ pre c u id, Executes (issuing.run ⟨s, [promise]⟩ pre).contract c u id →
      ThresholdMet (issuing.steps ⟨s, [promise]⟩ pre) u c.env id := by
  intro h
  obtain ⟨r, -, voters, hvoters, hcarol, hcard, hvotes⟩ :=
    h _ _ _ _ _ new_sampleMultisig sampleCalls (callBy "carol" (.confirm 0))
      (issuing.run sampleIssuer sampleCalls).contract 0 ⟨rfl, _, _, rfl, by decide⟩
  -- Alice is the only other member, and she never confirmed the transfer.
  have halice : MultisigMember.account "alice" ∉ voters := by
    intro hin
    rcases hvotes _ hin with heq | ⟨y, hy, v, hv, hcaller, -⟩
    · revert heq
      decide
    · have hnone : ∀ y ∈ issuing.steps sampleIssuer sampleCalls,
          ∀ e ∈ confirming y.before.contract y.label, e.2 = 0 →
            caller y.label.env ≠ .account "alice" := by decide
      exact hnone y hy (v, 0) hv rfl hcaller
  have hsub : voters ⊆ ({.account "carol"} : Finset MultisigMember) := by
    intro v hv
    have hmem : v ∈ ({.account "carol", .account "alice"} : Finset MultisigMember) := hvoters hv
    simp only [Finset.mem_insert, Finset.mem_singleton] at hmem ⊢
    rcases hmem with rfl | rfl
    · rfl
    · exact absurd hv halice
  have hone := (hcard.trans (Finset.card_le_card hsub))
  revert hone
  decide

end UncContracts.Multisig
