import UncContracts.Social.GrantHistory

/-!
# Writing by permission

Whoever writes for another account does so by a permission, and a permission is a grant in the history
of the contract. Every value of data that is accepted lies, for an account other than the caller's, at
or below a path that this account has granted before, to the caller or to the signer's key. The other
way round, data without empty objects is accepted as if it were the account's own once each of its
values lies there.

## Main definitions

* `Covered`: a grant in a history covers a path for a caller

## Main results

* `through_of_recursiveSet`: a write that is accepted goes through granted nodes
* `covered_iff_covers`: grants in the history and in the contract
* `set_by_permission`: `set` for other accounts against the history
-/

namespace UncContracts.Social

open Foundation HasTarget

/-- A call of a history lets the caller, or the signer's key, write at a path or at a part from its
start. -/
def Covered (history : List (Step Contract Call)) (env : Env) (path : List String) : Prop :=
  ∃ x ∈ history, path.head? = some x.label.env.predecessorAccountId ∧ ∃ key init,
    (key = .accountId env.predecessorAccountId ∨ key = .signerPublicKey env.signerAccountPk) ∧
    init <+: path ∧ x.label.method.GrantsAt key init

/-! ## Data that is accepted -/

section Data

variable {env : Env} {W : Finset NodeId} {S : NodeId → Prop}

mutual

/-- **A write that is accepted** goes through granted nodes with each of its values. -/
theorem through_of_recursiveSet (value : Json) {c c' : Contract} {node : Node} {n : NodeId}
    {path : List String} (hungr : Ungranted W S c) (hn : S n ∨ n ∈ W)
    (hnode : c.internalUnwrapNode n = .ok node)
    (h : Contract.recursiveSet env c node value false W = .ok c') (hpath : LeafPath value path) :
    Through c.forest W n path := by
  have hid := nodeId_of_internalUnwrapNode hnode
  rcases hn with hn | hn
  rotate_left
  · exact through_of_mem hn path
  have hdenied : (false || decide (node.nodeId ∈ W)) = false := by
    rw [hid, Bool.false_or]
    exact decide_eq_false (hungr.not_mem n hn)
  match value, h, hpath with
  | .object obj, h, .field hmem hpath =>
    obtain ⟨c₁, node₁, hfields, rfl⟩ := recursiveSet_object h
    have hentries : c.forest.entry n = node.children.get :=
      funext (Contract.holds_of_internalUnwrapNode (hungr.pos n hn) hnode)
    rw [hdenied] at hfields
    exact through_of_setFields obj hungr hn hentries hfields hmem hpath
  | .string s, h, _ | .null, h, _ =>
    obtain ⟨hok, -⟩ := recursiveSet_leaf rfl h
    cases hdenied.symm.trans hok
  | .bool _, h, _ | .number _ _, h, _ | .array _, h, _ => cases h

theorem through_of_setFields (obj : List (String × Json)) {c c' : Contract} {node node' : Node}
    {n : NodeId} {key : String} {value : Json} {path : List String} (hungr : Ungranted W S c)
    (hn : S n) (hentries : c.forest.entry n = node.children.get)
    (h : Contract.setFields env c node obj false W = .ok (c', node')) (hmem : (key, value) ∈ obj)
    (hpath : LeafPath value path) : Through c.forest W n (key :: path) := by
  match obj, h, hmem with
  | (key', value') :: obj, h, hmem =>
    obtain ⟨-, c₁, node₁, hfield, h⟩ := setFields_cons h
    cases hfield with
    | leaf hok hv hfree => cases hok
    | fresh hok hleaf hkey hcount hchild hset => cases hok
    | @into t child c₁ hentry hchild hset =>
      have hedge : c.forest.entry n key' = some (.node t) := by rw [hentries, hentry]
      have hchild' := hungr.child n key' t hn hedge
      rcases List.mem_cons.mp hmem with heq | hmem
      · cases heq
        exact .inr ⟨t, hedge, through_of_recursiveSet value hungr hchild' hchild hset hpath⟩
      · have hkeeps := keepsEntries_of_recursiveSet value' hungr hchild' hchild hset
        refine (hungr.through_iff hkeeps (.inl hn)).mp ?_
        exact through_of_setFields obj (hungr.keeps hkeeps) hn ((hkeeps.entry n hn).trans hentries) h
          hmem hpath

end

end Data

/-! ## Accounts of the data -/

section Accounts

variable {host : Host} {env : Env} {c c' : Contract} {a : AccountId} {transfers : List Transfer}
  {value : Json} {deposit : ℕ} {path : List String}

/-- The contract lets the caller, or the signer's key, write at a path or at a part from its start. -/
def Contract.Covers (c : Contract) (env : Env) (path : List String) : Prop :=
  ∃ key init, (key = .accountId env.predecessorAccountId ∨
    key = .signerPublicKey env.signerAccountPk) ∧ init <+: path ∧ c.GrantsAt key init

theorem Contract.Covers.congr (h : ∀ key path, c'.GrantsAt key path ↔ c.GrantsAt key path) :
    c'.Covers env path ↔ c.Covers env path := by
  simp only [Contract.Covers, h]

/-- What is written for another account is covered. -/
theorem covers_of_setAccount (hsound : c.Sound) (hother : a ≠ env.predecessorAccountId)
    (h : c.setAccount host env a value deposit = .ok (c', transfers)) (hpath : LeafPath value path) :
    c.Covers env (a :: path) := by
  simp only [Contract.setAccount, bind_eq_ok, pure_eq_ok, Prod.mk.injEq, hother, decide_false,
    Bool.false_eq_true, if_false] at h
  obtain ⟨⟨c₁, transfers₁, account⟩, hcreate, node, hnode, t₁, -, c₂, hset, -⟩ := h
  obtain ⟨-, _, _, n, record, balance, hmoves, -, hn, ha, -, rfl⟩ :=
    moves_of_internalUnwrapAccountOrCreate (fun _ => True) (fun _ => True) hsound hcreate
  have hsound₁ := hmoves.sound hsound
  have hthrough : Through c₁.forest (c₁.internalGetWriteableNodeIds env
      { record.loaded n with storageBalance := balance }) n path := by
    refine through_of_recursiveSet value (hsound₁.ungranted hn) ?_ hnode hset hpath
    refine or_iff_not_imp_right.mpr fun hnot => ⟨.refl _ n, fun w hw hwn => ?_⟩
    obtain ⟨key, nodeIds, -, hget, hmem⟩ := granted_of_writeable hw
    have hnw := hsound₁.permissions n key nodeIds hget w hmem
    have heq := (hsound₁.grown.le_of_below hnw).antisymm (hsound₁.grown.le_of_below hwn)
    exact hnot (heq ▸ hw)
  obtain ⟨init, hinit, m, hm, hleads⟩ := through_iff_leads.mp hthrough
  obtain ⟨key, nodeIds, hkey, hget, hmem⟩ := granted_of_writeable hm
  have hentry : c₁.forest.entry 0 a = some (.node n) := hn
  have hgrants : c₁.GrantsAt key (a :: init) :=
    ⟨n, m, ⟨nodeIds, hget, hmem⟩, .step hentry rfl hleads⟩
  refine ⟨key, a :: init, hkey, List.cons_prefix_cons.mpr ⟨rfl, hinit⟩, ?_⟩
  exact ((registers_of_internalUnwrapAccountOrCreate hsound hcreate).grantsAt hsound hsound₁).mp hgrants

/-- **Accepted data** is covered for every account other than the caller's. -/
theorem covers_of_setAccounts {options : SetOptions} {data : List (String × Json)} {rest : ℕ}
    (hsound : c.Sound)
    (h : Contract.setAccounts host env options c data deposit = .ok (c', transfers, rest))
    (hother : a ≠ env.predecessorAccountId) (hmem : (a, value) ∈ data) (hpath : LeafPath value path) :
    c.Covers env (a :: path) := by
  induction data generalizing c deposit transfers with
  | nil => cases hmem
  | cons entry data ih =>
    obtain ⟨key, value'⟩ := entry
    obtain ⟨c₁, created, c₂, refunded, transfers₃, hset, hrefund, hrest, -⟩ := setAccounts_cons h
    rcases List.mem_cons.mp hmem with heq | hmem
    · cases heq
      exact covers_of_setAccount hsound hother hset hpath
    · have hsound₁ := sound_of_setAccount hsound hset
      have hsound₂ := sound_of_refundUnused hsound₁ hrefund
      have hset' := authorized_of_setAccount hsound hset
      have hrefund' := authorized_of_refundUnused hrefund
      refine (Contract.Covers.congr fun key path => ?_).mp (ih hsound₂ hrest hmem)
      exact (grantsAt_of_kept hsound₁ hsound₂ hrefund'.kept hrefund'.permissions).trans
        (grantsAt_of_kept hsound hsound₁ hset'.kept hset'.permissions)

/-- The path of a key that is granted starts with the id of the account. -/
theorem head_of_grantKeys {id : AccountId} {account account' : Account} {keys : List String}
    {nodeIds nodeIds' : Finset NodeId}
    (h : Contract.grantKeys host env id c account keys nodeIds = .ok (c', account', nodeIds')) :
    ∀ key ∈ keys, (splitPath key).head? = some id := by
  induction keys generalizing c account nodeIds with
  | nil => exact fun key hkey => absurd hkey List.not_mem_nil
  | cons key keys ih =>
    simp only [Contract.grantKeys, bind_eq_ok] at h
    obtain ⟨⟨c₁, account₁, i⟩, hkey, h⟩ := h
    simp only [Contract.grantKey, bind_eq_ok, ensure_eq_ok] at hkey
    obtain ⟨_, -, _, -, _, hhead, -⟩ := hkey
    exact List.forall_mem_cons.mpr ⟨hhead, ih h⟩

/-- A step grants paths of its caller only. -/
theorem head_of_step {call : Call} {key : PermissionKey}
    (h : (system host).step c call = .ok c') (hgrants : call.method.GrantsAt key path) :
    path.head? = some call.env.predecessorAccountId := by
  obtain ⟨env, method⟩ := call
  obtain ⟨transfers, hcall⟩ := step_eq_ok.mp h
  cases method with
  | grantWritePermission predecessorId publicKey keys =>
    obtain ⟨-, k, hk, rfl⟩ := hgrants
    simp only [Contract.call, bind_eq_ok, Contract.grantWritePermission] at hcall
    obtain ⟨_, -, _, -, _, -, _, -, key', -, ⟨c₁, transfers₁, account⟩, -, ⟨c₂, account₂, nodeIds⟩,
      hgrant, -⟩ := hcall
    exact head_of_grantKeys hgrant k hk
  | _ => exact hgrants.elim

/-- The view for the caller and the signer's key tells what is covered. -/
theorem viewGrants_iff_covers (hsound : c.Sound) (hsplit : splitPath (joinPath path) = path) :
    c.ViewGrants env path ↔ c.Covers env path := by
  rw [Contract.ViewGrants, isWritePermissionGranted_iff_grantsAt hsound rfl,
    isWritePermissionGranted_iff_grantsAt hsound rfl, hsplit]
  constructor
  · rintro (⟨init, hinit, hgrants⟩ | ⟨init, hinit, hgrants⟩)
    · exact ⟨_, init, .inl rfl, hinit, hgrants⟩
    · exact ⟨_, init, .inr rfl, hinit, hgrants⟩
  · rintro ⟨key, init, rfl | rfl, hinit, hgrants⟩
    · exact .inl ⟨init, hinit, hgrants⟩
    · exact .inr ⟨init, hinit, hgrants⟩

/-- **With permission** the data of another account is written as if it were the caller's own. -/
theorem set_eq_iff_covers {options : Option SetOptions} {r : Contract × List Transfer}
    (hsound : c.Sound) (hother : a ≠ env.predecessorAccountId) (hvalid : ValidData value)
    (h : c.setApproved host env a value options = .ok r) :
    c.set host env (.object [(a, value)]) options = .ok r ↔
      ∀ path, LeafPath value path → c.Covers env (a :: path) := by
  have hguards : Guards ERR_PERMISSION_DENIED _ (c.set host env (.object [(a, value)]) options)
      (c.setApproved host env a value options) := guards_of_set hsound hother hvalid options
  have ha : isValidAccountId a = true := by
    simp only [Contract.setApproved, Contract.setAccountApproved, bind_eq_ok] at h
    obtain ⟨_, -, _, ⟨⟨c₁, transfers₁, account⟩, hcreate, -⟩, -⟩ := h
    exact (moves_of_internalUnwrapAccountOrCreate (fun _ => True) (fun _ => True) hsound hcreate).1
  refine (hguards.iff_of_ok h).1.trans (forall₂_congr fun path hpath => ?_)
  refine viewGrants_iff_covers hsound (splitPath_joinPath (List.cons_ne_nil a path) ?_)
  rw [List.forall_mem_cons]
  exact ⟨separator_not_mem_of_isValidAccountId ha,
    fun key hkey => separator_not_mem_of_isKeyValid (hpath.isKeyValid hvalid key hkey)⟩

end Accounts

/-! ## Histories -/

section Histories

variable {host : Host} {start env : Env} {calls : List Call} {a : AccountId} {path : List String}

/-- **Grants in the history** are those that the contract knows. -/
theorem covered_iff_covers : Covered ((system host).steps (.new start) calls) env path ↔
    ((system host).run (.new start) calls).Covers env path := by
  simp only [Contract.Covers, grantsAt_run]
  constructor
  · rintro ⟨x, hx, -, key, init, hkey, hinit, hgrants⟩
    exact ⟨key, init, hkey, hinit, x, hx, hgrants⟩
  · rintro ⟨key, init, hkey, hinit, x, hx, hgrants⟩
    refine ⟨x, hx, ?_, key, init, hkey, hinit, hgrants⟩
    have hhead := head_of_step (Machine.step_of_mem hx) hgrants
    obtain ⟨rest, rfl⟩ := List.head?_eq_some_iff.mp hhead
    obtain ⟨rest', rfl⟩ := hinit
    rfl

end Histories

/-- **Writing by permission.** After every run, what a `set` that is accepted writes for accounts other
than the caller's is covered by the history: for each of its values, the account has granted the path
or a part of it before, to the caller or to the signer's key. And where data without empty objects can
be written for an account at all, `set` writes it exactly if the history covers each of its values. -/
theorem set_by_permission (host : Host) (start : Env) (calls : List Call) (env : Env) :
    (∀ fields options r, ((system host).run (.new start) calls).call host env
        (.set (.object fields) options) = .ok r →
      ∀ a value path, (a, value) ∈ fields → a ≠ env.predecessorAccountId → LeafPath value path →
        Covered ((system host).steps (.new start) calls) env (a :: path)) ∧
    ∀ a value options r, a ≠ env.predecessorAccountId → ValidData value →
      ((system host).run (.new start) calls).setApproved host env a value options = .ok r →
      (((system host).run (.new start) calls).set host env (.object [(a, value)]) options = .ok r ↔
        ∀ path, LeafPath value path →
          Covered ((system host).steps (.new start) calls) env (a :: path)) := by
  have hsound := sound_run host start calls
  simp only [covered_iff_covers]
  constructor
  · intro fields options r h a value path hmem hother hpath
    simp only [Contract.call, bind_eq_ok, ensure_eq_ok, Contract.set, expect_eq_ok] at h
    obtain ⟨_, -, _, -, _, -, obj, hobj, ⟨c₂, transfers₂, rest⟩, hset, -⟩ := h
    cases hobj
    exact covers_of_setAccounts hsound hset hother hmem hpath
  · intro a value options r hother hvalid h
    exact set_eq_iff_covers hsound hother hvalid h

/-- The write below a node that the account has granted is covered by the grant. -/
theorem set_by_permission_sampleSet :
    Covered ((system sampleHost).steps (.new (sampleEnv "social" 0 (Nat.zero_le _))) sampleCalls)
      sampleSet.env ["alice", "app", "x"] := by
  have hok : (((system sampleHost).run (.new (sampleEnv "social" 0 (Nat.zero_le _)))
      sampleCalls).call sampleHost sampleSet.env
        (.set (.object [("alice", sampleData)]) none)).isOk = true := by decide +kernel
  obtain ⟨r, hr⟩ := exists_of_isOk hok
  refine (set_by_permission sampleHost (sampleEnv "social" 0 (Nat.zero_le _)) sampleCalls
    sampleSet.env).1 _ none r hr "alice" sampleData ["app", "x"] List.mem_cons_self (by decide) ?_
  exact .field List.mem_cons_self (.field List.mem_cons_self (.leaf rfl))

end UncContracts.Social
