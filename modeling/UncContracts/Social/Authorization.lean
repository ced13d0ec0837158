import UncContracts.Social.Calls

/-!
# Who may write

What a `set` changes in the tree of an account lies where its caller may write: anywhere in the own
tree of the caller, and otherwise at or below a node that the account has granted to the caller or
to the key that the call is signed with. The trees of other accounts stay.

## Main definitions

* `Granted`: an account has granted a node to the caller or to the signer's key
* `Authorized`: the changes between two contracts lie where the caller may write

## Main results

* `authorized_of_setAccounts`: the changes of each account of the data
* `set_authorized`: the changes of a `set`
-/

namespace UncContracts.Social

open Foundation HasTarget

/-- The account of a node has granted another one to the caller or to the signer's key. -/
def Granted (env : Env) (c : Contract) (r m : NodeId) : Prop :=
  ∃ key nodeIds, (key = .accountId env.predecessorAccountId ∨
    key = .signerPublicKey env.signerAccountPk) ∧
    (c.permissionsOf r).get key = some (.granted nodeIds) ∧ m ∈ nodeIds

/-- The changes lie in the trees of some accounts, where the caller may write. -/
structure Authorized (env : Env) (ids : List AccountId) (c c' : Contract) : Prop where
  kept : ∀ m k v t, c.forest.entry m k = some v → target v = some t → c'.forest.entry m k = some v
  count_le : c.nodeCount ≤ c'.nodeCount
  permissions : c'.permissions = c.permissions
  root : ∀ id, id ∉ ids → c'.rootNode.children.get id = c.rootNode.children.get id
  named : ∀ id r n k, c'.rootNode.children.get id = some (.node r) → c'.forest.Below r n →
    c'.forest.entry n k ≠ c.forest.entry n k → id ∈ ids
  allowed : ∀ id r n k, c'.rootNode.children.get id = some (.node r) → c'.forest.Below r n →
    c'.forest.entry n k ≠ c.forest.entry n k → id = env.predecessorAccountId ∨
      ∃ m, Granted env c r m ∧ c'.forest.Below r m ∧ c'.forest.Below m n

section Trees

variable {host : Host} {env : Env} {ids ids' : List AccountId} {c c' c'' : Contract} {n r r' : NodeId}
  {id : AccountId}

theorem Authorized.refl (env : Env) (ids : List AccountId) (c : Contract) :
    Authorized env ids c c :=
  ⟨fun _ _ _ _ h _ => h, le_rfl, rfl, fun _ _ => rfl, fun _ _ _ _ _ _ h => absurd rfl h,
    fun _ _ _ _ _ _ h => absurd rfl h⟩

/-- A change of the first of two parts is one in the tree of an account that it knew. -/
theorem Authorized.before (h : Authorized env ids c c') (h' : Authorized env ids' c' c'')
    (hsound : c.Sound) (hsound' : c'.Sound) (hsound'' : c''.Sound) {k : String}
    (hid : c''.rootNode.children.get id = some (.node r)) (hr : c''.forest.Below r n)
    (hne : c'.forest.entry n k ≠ c.forest.entry n k) :
    c'.rootNode.children.get id = some (.node r) ∧ c'.forest.Below r n := by
  have hn : n < c'.nodeCount := by
    by_contra hge
    have hge := Nat.le_of_not_lt hge
    exact hne ((hsound'.grown.fresh n k hge).trans
      (hsound.grown.fresh n k (h.count_le.trans hge)).symm)
  have hpos : 0 < n := by
    have hroot := hsound''.grown.lt_target 0 id _ r hid rfl
    exact hroot.trans_le (hsound''.grown.le_of_below hr)
  obtain ⟨id', r', hid', hr'⟩ := hsound'.exists_account hn hpos
  have hkept : c''.rootNode.children.get id' = some (.node r') := h'.kept 0 id' _ r' hid' rfl
  obtain ⟨rfl, rfl⟩ := hsound''.account_unique hid hkept hr (hr'.mono h'.kept)
  exact ⟨hid', hr'⟩

/-- A change in the tree of one of some accounts is in the tree of one of more. -/
theorem Authorized.mono (h : Authorized env ids c c') (hids : ∀ id ∈ ids, id ∈ ids') :
    Authorized env ids' c c' := by
  refine ⟨h.kept, h.count_le, h.permissions, ?_, ?_, h.allowed⟩
  · intro id hid
    exact h.root id fun hmem => hid (hids id hmem)
  · intro id r n k hid hr hne
    exact hids id (h.named id r n k hid hr hne)

theorem Authorized.trans (h : Authorized env ids c c') (h' : Authorized env ids' c' c'')
    (hsound : c.Sound) (hsound' : c'.Sound) (hsound'' : c''.Sound) :
    Authorized env (ids ++ ids') c c'' := by
  refine ⟨?_, h.count_le.trans h'.count_le, h'.permissions.trans h.permissions, ?_, ?_, ?_⟩
  · intro m k v t hentry htarget
    exact h'.kept m k v t (h.kept m k v t hentry htarget) htarget
  · intro id hid
    rw [List.mem_append, not_or] at hid
    rw [h'.root id hid.2, h.root id hid.1]
  · intro id r n k hid hr hne
    by_cases hlast : c''.forest.entry n k = c'.forest.entry n k
    · rw [hlast] at hne
      obtain ⟨hid', hr'⟩ := h.before h' hsound hsound' hsound'' hid hr hne
      exact List.mem_append_left _ (h.named id r n k hid' hr' hne)
    · exact List.mem_append_right _ (h'.named id r n k hid hr hlast)
  · intro id r n k hid hr hne
    by_cases hlast : c''.forest.entry n k = c'.forest.entry n k
    · rw [hlast] at hne
      obtain ⟨hid', hr'⟩ := h.before h' hsound hsound' hsound'' hid hr hne
      rcases h.allowed id r n k hid' hr' hne with hown | ⟨m, hm, hrm, hmn⟩
      · exact .inl hown
      · exact .inr ⟨m, hm, hrm.mono h'.kept, hmn.mono h'.kept⟩
    · rcases h'.allowed id r n k hid hr hlast with hown | ⟨m, hm, hrm, hmn⟩
      · exact .inl hown
      · refine .inr ⟨m, ?_, hrm, hmn⟩
        simpa only [Granted, Contract.permissionsOf, h.permissions] using hm

/-- Saving an account leaves the nodes and the permissions. -/
theorem Authorized.saved {account account' : Account} (h : Authorized env ids c c')
    (hsaves : Saves host c' account c'' account') : Authorized env ids c c'' := by
  have hroot : c''.rootNode = c'.rootNode := by rw [hsaves.frame]
  have hcount : c''.nodeCount = c'.nodeCount := by rw [hsaves.frame]
  have hpermissions : c''.permissions = c'.permissions := by rw [hsaves.frame]
  have hforest := hsaves.forest_eq
  obtain ⟨hkept, hle, hsame, hroots, hnamed, hallowed⟩ := h
  rw [← hforest] at hkept hnamed hallowed
  rw [← hroot] at hroots hnamed hallowed
  exact ⟨hkept, hcount.symm ▸ hle, hpermissions.trans hsame, hroots, hnamed, hallowed⟩

end Trees

section Calls

variable {host : Host} {env : Env} {c c' : Contract} {id : AccountId} {account : Account}
  {transfers : List Transfer}

/-- A new account changes nothing in the trees that there are. -/
theorem Authorized.of_opened {shared : Option AccountSharedStorage}
    {pools : Map AccountId SharedStoragePool} (hsound : c.Sound)
    (hnew : c.rootNode.children.get id = none) :
    Authorized env [id] c
      (({ c with nodeCount := c.nodeCount + 1, sharedStoragePools := pools } : Contract).opened env id
        { Account.new c.nodeCount with sharedStorage := shared }) := by
  have hforest := Contract.forest_opened env id shared pools hsound.count_pos
  have hfree : c.forest.Free 0 id := by
    intro v hv
    simp [Contract.forest, hnew] at hv
  have hsame : ∀ n k, n ≠ 0 → (c.forest.link 0 id (.node c.nodeCount) fun _ => none).entry n k =
      c.forest.entry n k := by
    intro n k hn
    by_cases hcount : n = c.forest.count
    · simp [Forest.link, hcount, hsound.grown.fresh c.forest.count k le_rfl]
    · simp [Forest.link, hcount, hn]
  have hnone : ∀ id' r n k,
      (({ c with nodeCount := c.nodeCount + 1, sharedStoragePools := pools } : Contract).opened env id
        { Account.new c.nodeCount with sharedStorage := shared }).rootNode.children.get id' =
          some (.node r) →
      (c.forest.link 0 id (.node c.nodeCount) fun _ => none).Below r n →
      (c.forest.link 0 id (.node c.nodeCount) fun _ => none).entry n k ≠ c.forest.entry n k →
      False := by
    intro id' r n k hid hr hne
    have hgrown : (c.forest.link 0 id (.node c.nodeCount) fun _ => none).Grown :=
      hsound.grown.link hsound.count_pos hfree rfl (by rintro j u ⟨⟩)
    have hroot : (c.forest.link 0 id (.node c.nodeCount) fun _ => none).entry 0 id' =
        some (.node r) := by
      rw [← hforest]
      exact hid
    have hpos := (hgrown.lt_target 0 id' _ r hroot rfl).trans_le (hgrown.le_of_below hr)
    exact hne (hsame n k hpos.ne')
  refine ⟨?_, Nat.le_succ _, rfl, ?_, ?_, ?_⟩
  · intro m k v t hentry htarget
    rw [hforest]
    exact hsound.grown.link_entry_of_target hfree m k v t hentry htarget
  · intro id' hid'
    exact UnorderedMap.get_insert_of_ne (by simpa using hid')
  · intro id' r n k hid hr hne
    rw [hforest] at hr hne
    exact (hnone id' r n k hid hr hne).elim
  · intro id' r n k hid hr hne
    rw [hforest] at hr hne
    exact (hnone id' r n k hid hr hne).elim

theorem authorized_of_internalUnwrapAccountOrCreate {deposit : ℕ} (hsound : c.Sound)
    (h : c.internalUnwrapAccountOrCreate host env id deposit = .ok (c', transfers, account)) :
    Authorized env [id] c c' := by
  rcases internalUnwrapAccountOrCreate_cases h with ⟨rfl, -⟩ | ⟨hnew, _, _, hsaves⟩
  · exact .refl env _ c'
  · exact (Authorized.of_opened hsound hnew).saved hsaves

/-- The nodes that the caller may write below are granted. -/
theorem granted_of_writeable {n : NodeId} {account : Account}
    (h : n ∈ c.internalGetWriteableNodeIds env account) : Granted env c account.nodeId n := by
  simp only [Contract.internalGetWriteableNodeIds, Finset.mem_union] at h
  rcases h with h | h
  · split at h
    · next nodeIds hget => exact ⟨_, nodeIds, .inl rfl, hget, h⟩
    · exact absurd h (Finset.notMem_empty n)
  · split at h
    · next nodeIds hget => exact ⟨_, nodeIds, .inr rfl, hget, h⟩
    · exact absurd h (Finset.notMem_empty n)

/-- What is written for an account of the data lies where the caller may write. -/
theorem authorized_of_setAccount {value : Json} {deposit : ℕ} (hsound : c.Sound)
    (h : c.setAccount host env id value deposit = .ok (c', transfers)) :
    Authorized env [id] c c' := by
  simp only [Contract.setAccount, bind_eq_ok, pure_eq_ok, Prod.mk.injEq] at h
  obtain ⟨⟨c₁, transfers₁, account⟩, hcreate, node, hnode, t₁, hstart, c₂, hset, t₂, hstop,
    ⟨c₃, existed⟩, hsave, rfl, rfl⟩ := h
  have hcreated := authorized_of_internalUnwrapAccountOrCreate hsound hcreate
  obtain ⟨-, credited, rest, n, a, balance, hmoves, -, hn, ha, -, rfl⟩ :=
    moves_of_internalUnwrapAccountOrCreate (fun _ => True) (fun _ => True) hsound hcreate
  have hsound₁ := hmoves.sound hsound
  have hmem : n ∈ c₁.accounts := mem_accounts_of_lookup ha
  have hpos := (hsound₁.account_lt_count hmem).1
  obtain ⟨hid, hreads, -⟩ := hsound₁.reads hpos hnode
  have hwrote := wroteValue_of_recursiveSet (L := fun _ => True) hsound₁ hpos hnode
    (fun _ _ => trivial) hset
  have hsound₂ := (edits_of_recursiveSet (L := fun _ => True) hsound₁ hmem hnode
    (fun _ _ => trivial) hset).sound hsound₁ hmem
  obtain ⟨-, -, a', hsaves⟩ := internalSetAccount_saves hsave
  have hroot : c₂.rootNode = c₁.rootNode := by rw [hwrote.grows.frame]
  have hpermissions : c₂.permissions = c₁.permissions := by rw [hwrote.grows.frame]
  have hn₂ : c₂.rootNode.children.get id = some (.node n) := by
    rw [hroot]
    exact hn
  have hlt : node.nodeId < c₁.forest.count := hreads.lt_count
  have hchanged : ∀ id' r m k, c₂.rootNode.children.get id' = some (.node r) →
      c₂.forest.Below r m → c₂.forest.entry m k ≠ c₁.forest.entry m k →
      id' = id ∧ r = n ∧ c₂.forest.Allowed n (decide (id = env.predecessorAccountId) = true)
        (· ∈ if decide (id = env.predecessorAccountId) then ∅ else
          c₁.internalGetWriteableNodeIds env { a.loaded n with storageBalance := balance }) m := by
    intro id' r m k hid' hr hne
    have hallowed := hwrote.writes.allowed hsound₁.grown hlt hne
    rw [hid] at hallowed
    obtain ⟨rfl, rfl⟩ := hsound₂.account_unique hid' hn₂ hr hallowed.1
    exact ⟨rfl, rfl, hallowed⟩
  have hwritten : Authorized env [id] c₁ c₂ := by
    refine ⟨hwrote.writes.entry_of_target hsound₁.grown hlt, hwrote.grows.count_le, hpermissions,
      fun id' _ => by rw [hroot], ?_, ?_⟩
    · intro id' r m k hid' hr hne
      exact List.mem_singleton.mpr (hchanged id' r m k hid' hr hne).1
    · intro id' r m k hid' hr hne
      obtain ⟨rfl, rfl, -, hok⟩ := hchanged id' r m k hid' hr hne
      by_cases hown : id' = env.predecessorAccountId
      · exact .inl hown
      · rcases hok with hok | ⟨j, hj, hrj, hjm⟩
        · exact .inl (of_decide_eq_true hok)
        · refine .inr ⟨j, ?_, hrj, hjm⟩
          simp only [hown, decide_false, Bool.false_eq_true, if_false] at hj
          exact granted_of_writeable hj
  refine Authorized.mono ((hcreated.trans hwritten hsound hsound₁ hsound₂).saved hsaves) ?_
  intro id' hmem
  simpa using hmem

/-- A refund leaves the trees. -/
theorem authorized_of_refundUnused {options : SetOptions} {deposit : ℕ}
    (h : c.refundUnused host env options id deposit = .ok (c', transfers)) :
    Authorized env [] c c' := by
  have hframe := frame_of_refundUnused h
  have hforest : c'.forest = c.forest := by
    rw [hframe]
    rfl
  refine ⟨?_, ?_, ?_, ?_, ?_, ?_⟩
  · intro m k v t hentry _
    rw [hforest, hentry]
  · rw [hframe]
  · rw [hframe]
  · intro id _
    rw [hframe]
  · intro id r n k _ _ hne
    exact absurd (by rw [hforest]) hne
  · intro id r n k _ _ hne
    exact absurd (by rw [hforest]) hne

/-- What is written for the data lies where the caller may write, in the trees of its accounts. -/
theorem authorized_of_setAccounts {options : SetOptions} {data : List (String × Json)}
    {deposit rest : ℕ} (hsound : c.Sound)
    (h : Contract.setAccounts host env options c data deposit = .ok (c', transfers, rest)) :
    Authorized env (data.map Prod.fst) c c' := by
  induction data generalizing c deposit transfers with
  | nil =>
    cases h
    exact .refl env [] _
  | cons entry data ih =>
    obtain ⟨key, value⟩ := entry
    obtain ⟨c₁, created, c₂, refunded, transfers₃, hset, hrefund, hrest, -⟩ := setAccounts_cons h
    have hsound₁ := sound_of_setAccount hsound hset
    have hsound₂ := sound_of_refundUnused hsound₁ hrefund
    have hsound₃ := sound_of_setAccounts hsound₂ hrest
    have hfirst := (authorized_of_setAccount hsound hset).trans (authorized_of_refundUnused hrefund)
      hsound hsound₁ hsound₂
    exact hfirst.trans (ih hsound₂ hrest) hsound hsound₂ hsound₃

end Calls

/-- **Authorization of writes.** In every contract that calls lead to, what a `set` changes in the
tree of an account lies in the own tree of the caller, or at or below a node that the account has
granted before. The trees of the accounts that the data does not name stay. -/
theorem set_authorized (host : Host) (start env : Env) (calls : List Call)
    (fields : List (String × Json)) (options : Option SetOptions) (c c' : Contract)
    (hc : c = (system host).run (.new start) calls)
    (h : (system host).step c ⟨env, .set (.object fields) options⟩ = .ok c') (id : AccountId) :
    (∀ r n k, c'.rootNode.children.get id = some (.node r) → c'.forest.Below r n →
      c'.forest.entry n k ≠ c.forest.entry n k → id = env.predecessorAccountId ∨
        ∃ m, Granted env c r m ∧ c'.forest.Below r m ∧ c'.forest.Below m n) ∧
    (id ∉ fields.map Prod.fst →
      c'.rootNode.children.get id = c.rootNode.children.get id ∧
      ∀ r n k, c'.rootNode.children.get id = some (.node r) → c'.forest.Below r n →
        c'.forest.entry n k = c.forest.entry n k) := by
  have hsound : c.Sound := hc ▸ sound_run host start calls
  simp only [system, bind_eq_ok, pure_eq_ok] at h
  obtain ⟨⟨c₁, transfers⟩, hcall, rfl⟩ := h
  simp only [Contract.call, bind_eq_ok, ensure_eq_ok, Contract.set, expect_eq_ok, pure_eq_ok,
    Prod.mk.injEq] at hcall
  obtain ⟨_, -, _, -, _, -, obj, hobj, ⟨c₂, transfers₂, rest⟩, hset, _, -, rfl, rfl⟩ := hcall
  cases hobj
  have hauthorized := authorized_of_setAccounts hsound hset
  refine ⟨fun r n k hid hr hne => hauthorized.allowed id r n k hid hr hne, ?_⟩
  intro hnot
  refine ⟨hauthorized.root id hnot, ?_⟩
  intro r n k hid hr
  by_contra hne
  exact hnot (hauthorized.named id r n k hid hr hne)

/-! ## A call with a permission -/

/-- The contract goes live, and an account grants one of its nodes to another account. -/
def sampleCalls : List Call :=
  [⟨sampleEnv "social" 0 (Nat.zero_le _), .setStatus .live⟩,
    ⟨sampleEnv "alice" (10 ^ 23) sampleDeposit_le, .grantWritePermission (some "bob") none ["alice/app"]⟩]

/-- The other account writes below the node. -/
def sampleSet : Call where
  env := sampleEnv "bob" 0 (Nat.zero_le _)
  method := .set (.object [("alice", .object [("app", .object [("x", .string "y")])])]) none

theorem set_authorized_sampleCalls :
    let c := (system sampleHost).run (.new (sampleEnv "social" 0 (by decide))) sampleCalls
    let c' := (system sampleHost).exec c sampleSet
    ∀ r n k, c'.rootNode.children.get "alice" = some (.node r) → c'.forest.Below r n →
      c'.forest.entry n k ≠ c.forest.entry n k → "alice" = "bob" ∨
        ∃ m, Granted sampleSet.env c r m ∧ c'.forest.Below r m ∧ c'.forest.Below m n :=
  (set_authorized sampleHost (sampleEnv "social" 0 (by decide)) sampleSet.env sampleCalls _
    none _ _ rfl (Machine.step_eq_exec (by decide +kernel)) "alice").1

end UncContracts.Social
