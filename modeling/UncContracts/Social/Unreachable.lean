import UncContracts.Social.Pools
import UncContracts.Social.Usage

/-!
# Errors that no call runs into

Some panics of the contract say that its own data is not as it should be: a node or an entry is
missing or of another kind, a count of bytes would fall below zero. Each of them is avoided as long
as something is kept by the moves of the contract. What is kept is a parameter here, so that a panic
can be excluded from as little as it needs.

## Main definitions

* `internalErrors`: the messages of these panics
* `Upholds`: what a contract needs to avoid some of them

## Main results

* `recursiveSet_avoids`, `walk_avoids`: writing data and walking down a path
* `internalSetAccount_avoids`: saving an account
* `call_avoids`: every call
-/

namespace UncContracts.Social

open Foundation HasTarget

def SUBTRACT_OVERFLOW : String := "attempt to subtract with overflow"

def NODE_MISSING : String := "Node is missing"

def UNEXPECTED_KEY : String := "Unexpected account key. The value is not a node."

def REPLACED_NODE : String := "Internal error, the replaced value was a node"

def ACCOUNTING_BUG : String := "Internal storage accounting bug"

/-- The messages of panics that say that the data of the contract is not as it should be. -/
def internalErrors : List String :=
  [SUBTRACT_OVERFLOW, NODE_MISSING, UNEXPECTED_KEY, REPLACED_NODE, ACCOUNTING_BUG]

/-- What a contract needs to avoid some internal errors. -/
structure Upholds (bad : String → Prop) (host : Host) (c : Contract) : Prop where
  sound : c.Sound
  covered : bad SUBTRACT_OVERFLOW → c.Covered host
  available : bad SUBTRACT_OVERFLOW → c.Available host
  shares : bad SUBTRACT_OVERFLOW ∨ bad ACCOUNTING_BUG → ∀ n a s,
    c.accounts.lookup n = some (Account.stored a) → a.sharedStorage = some s →
      s.usedBytes ≤ (poolAt c.sharedStoragePools s.poolId).usedBytes ∧
        s.maxBytes ≤ (poolAt c.sharedStoragePools s.poolId).sharedBytes
  windows : bad ACCOUNTING_BUG → Windows host c
  free : bad REPLACED_NODE → ∀ n, c.forest.Free n EMPTY_KEY

/-- The bad messages are among the internal errors. -/
def Internal (bad : String → Prop) : Prop := ∀ msg, bad msg → msg ∈ internalErrors

section Writes

variable {bad : String → Prop} {env : Env} {c c' : Contract} {node child : Node} {n : NodeId}
  {F : Forest String NodeValue} {W : Finset NodeId} {key : String} {path : List String}

/-- A message that is no internal error is not bad. -/
theorem Internal.not_bad {msg : String} (hbad : Internal bad) (h : msg ∉ internalErrors) :
    ¬ bad msg := fun hmsg => h (hbad msg hmsg)

theorem Internal.elim {msg : String} (hbad : Internal bad) (h : msg ∉ internalErrors) {p : Prop}
    (hmsg : bad msg) : p := absurd hmsg (hbad.not_bad h)

theorem internalUnwrapNode_avoids (h : n ∈ c.nodes) : Avoids bad (c.internalUnwrapNode n) := by
  refine .expect fun _ => ?_
  rw [Contract.internalGetNode, Option.isSome_map]
  exact AList.lookup_isSome.mpr h

theorem createNodeId_avoids (hbad : Internal bad) : Avoids bad c.createNodeId :=
  .bind (.checkedAdd (hbad.not_bad (by decide))) fun _ _ => .pure _

theorem Node.new_avoids (hbad : Internal bad) (value : Option NodeValue) :
    Avoids bad (Node.new env n value) := by
  rcases value with _ | _ | _ | _
  · exact .pure _
  · exact .pure _
  · exact .error (hbad.not_bad (by decide))
  · exact .pure _

theorem Node.entryOf_avoids (hbad : Internal bad) (value : Json) :
    Avoids bad (Node.entryOf env value) := by
  cases value with
  | string s => exact .pure _
  | null => exact .pure _
  | _ => exact .error (hbad.not_bad (by decide))

/-- A value is put where no node is. -/
theorem Node.set_avoids (hbad : Internal bad) (value : Json)
    (h : bad REPLACED_NODE → ∀ u, node.children.get key = some u → target u = none) :
    Avoids bad (node.set env key value) := by
  refine .bind (Node.entryOf_avoids hbad value) fun v _ => ?_
  split
  · next id hid =>
    refine .error fun hmsg => ?_
    cases h hmsg _ hid
  · exact .pure _

theorem setFields_cons_eq (env : Env) (c : Contract) (node : Node) (key : String) (value : Json)
    (obj : List (String × Json)) (ok : Bool) (W : Finset NodeId) :
    Contract.setFields env c node ((key, value) :: obj) ok W =
      Contract.setFields env c node [(key, value)] ok W >>= fun x =>
        Contract.setFields env x.1 x.2 obj ok W := by
  simp only [Contract.setFields, bind_assoc, pure_bind]

theorem recursiveSet_avoids_of_not_object (hbad : Internal bad) {value : Json} {ok : Bool}
    (hleaf : (value.isString || value.isNull) = false) (hobject : value.isObject ≠ true) :
    Avoids bad (Contract.recursiveSet env c node value ok W) := by
  cases value with
  | object obj => exact absurd rfl hobject
  | string s => cases hleaf
  | null => cases hleaf
  | _ => exact .error (hbad.not_bad (by decide))

mutual

/-- Writing a value avoids internal errors, if no node is under the empty key. -/
theorem recursiveSet_avoids (hbad : Internal bad) (value : Json) {ok : Bool} {c : Contract}
    {node : Node} {F : Forest String NodeValue}
    (hL : bad REPLACED_NODE → EMPTY_KEY ∉ value.objectKeys) (hF : Reads F c node)
    (hfree : bad REPLACED_NODE → ∀ n, F.Free n EMPTY_KEY) :
    Avoids bad (Contract.recursiveSet env c node value ok W) := by
  have hown : bad REPLACED_NODE → ∀ u, node.children.get EMPTY_KEY = some u → target u = none := by
    intro hmsg u hu
    exact hfree hmsg node.nodeId u (hF.entry ▸ hu)
  match value, hL with
  | .object obj, hL =>
    simp only [Contract.recursiveSet]
    exact .bind (setFields_avoids hbad obj hL hF hfree) fun _ _ => .pure _
  | .string s, hL =>
    simp only [Contract.recursiveSet]
    refine .bind (.ensure (hbad.elim (by decide))) fun _ _ => ?_
    exact .bind (Node.set_avoids hbad _ hown) fun _ _ => .pure _
  | .null, hL =>
    simp only [Contract.recursiveSet]
    refine .bind (.ensure (hbad.elim (by decide))) fun _ _ => ?_
    exact .bind (Node.set_avoids hbad _ hown) fun _ _ => .pure _
  | .bool _, _ | .number _ _, _ | .array _, _ => exact .error (hbad.not_bad (by decide))

theorem setFields_avoids (hbad : Internal bad) (obj : List (String × Json)) {ok : Bool} {c : Contract}
    {node : Node} {F : Forest String NodeValue}
    (hL : bad REPLACED_NODE → EMPTY_KEY ∉ Json.objectKeysOf obj) (hF : Reads F c node)
    (hfree : bad REPLACED_NODE → ∀ n, F.Free n EMPTY_KEY) :
    Avoids bad (Contract.setFields env c node obj ok W) := by
  match obj, hL with
  | [], hL => exact .pure _
  | (key, value) :: obj, hL =>
    simp only [Json.objectKeysOf, List.mem_append, not_or] at hL
    have hvalue : bad REPLACED_NODE → EMPTY_KEY ∉ value.objectKeys := fun hmsg => (hL hmsg).2.1
    have hfirst : bad REPLACED_NODE → EMPTY_KEY ∉ Json.objectKeysOf [(key, value)] := by
      intro hmsg
      simp only [Json.objectKeysOf, List.append_nil, List.mem_append, not_or]
      exact ⟨(hL hmsg).1, (hL hmsg).2.1⟩
    have hnew : ∀ child, (value.isString || value.isNull) = false →
        Node.new env c.nodeCount (node.children.get key) = .ok child →
        Avoids bad (Contract.recursiveSet env { c with nodeCount := c.nodeCount + 1 } child value ok
          W) := by
      intro child hleaf hchild
      by_cases hobject : value.isObject = true
      · refine recursiveSet_avoids hbad value hvalue (hF.of_new hchild).2 ?_
        intro hmsg n u hu
        have hne : EMPTY_KEY ≠ key := by
          have hkey := (hL hmsg).1
          simpa [hobject] using hkey
        simp only [Forest.link, hne, and_false, if_false] at hu
        split at hu
        · exact (Node.target_of_new hchild _ u hu).2
        · exact hfree hmsg n u hu
      · exact recursiveSet_avoids_of_not_object hbad hleaf hobject
    rw [setFields_cons_eq]
    refine .bind ?_ fun x hx => ?_
    · simp only [Contract.setFields, assertKeyValid]
      refine .bind (.ensure (hbad.elim (by decide))) fun _ _ => .bind ?_ fun _ _ => .pure _
      split
      · next hnone =>
        refine .bind (.ensure (hbad.elim (by decide))) fun _ _ => ?_
        split
        · refine .bind (Node.set_avoids hbad value ?_) fun _ _ => .pure _
          intro _ u hu
          cases hnone.symm.trans hu
        · next hleaf =>
          refine .bind (createNodeId_avoids hbad) ?_
          rintro ⟨c₁, id⟩ hid
          obtain ⟨-, rfl, rfl⟩ := createNodeId_eq_ok.mp hid
          refine .bind (Node.new_avoids hbad none) fun child hchild => ?_
          refine .bind (hnew child (Bool.eq_false_of_not_eq_true hleaf) (hnone ▸ hchild)) ?_
          exact fun _ _ => .pure _
      · next id hentry =>
        have hmem : id ∈ c.nodes := hF.present _ key id le_rfl (hF.entry ▸ hentry)
        refine .bind (internalUnwrapNode_avoids hmem) fun child hchild => ?_
        refine .bind ?_ fun _ _ => .pure _
        exact recursiveSet_avoids hbad value hvalue (hF.of_stored hentry hchild).2.2 hfree
      · next old hold hentry =>
        refine .bind (.ensure (hbad.elim (by decide))) fun _ _ => ?_
        split
        · refine .bind (Node.set_avoids hbad value ?_) fun _ _ => .pure _
          intro _ u hu
          cases hentry.symm.trans hu
          exact target_eq_none.mpr fun id hid => hold id hid
        · next hleaf =>
          refine .bind (.ensure (hbad.elim (by decide))) fun _ _ => ?_
          refine .bind (createNodeId_avoids hbad) ?_
          rintro ⟨c₁, id⟩ hid
          obtain ⟨-, rfl, rfl⟩ := createNodeId_eq_ok.mp hid
          refine .bind (Node.new_avoids hbad (some old)) fun child hchild => ?_
          refine .bind (hnew child (Bool.eq_false_of_not_eq_true hleaf) (hentry ▸ hchild)) ?_
          exact fun _ _ => .pure _
    · obtain ⟨G, hG⟩ := setFields_writes (L := fun k => bad REPLACED_NODE → k ≠ EMPTY_KEY)
        [(key, value)] (fun k hk hmsg heq => hfirst hmsg (heq ▸ hk)) hF hx
      refine setFields_avoids hbad obj (fun hmsg => (hL hmsg).2.2) hG.reads ?_
      intro hmsg
      exact hG.writes.free (fun h => h hmsg rfl) (hfree hmsg)

end

/-- Walking down a path finds the nodes that it leads to. -/
theorem walk_avoids (hbad : Internal bad) (hF : InMemory F c node) :
    Avoids bad (Contract.walk env c node path) := by
  induction path generalizing c node F with
  | nil => exact .pure _
  | cons key path ih =>
    simp only [Contract.walk, assertKeyValid]
    refine .bind (.ensure (hbad.elim (by decide))) fun _ _ => ?_
    split
    · next hnone =>
      refine .bind (createNodeId_avoids hbad) ?_
      rintro ⟨c₁, id⟩ hid
      obtain ⟨-, rfl, rfl⟩ := createNodeId_eq_ok.mp hid
      refine .bind (Node.new_avoids hbad none) fun child hchild => ?_
      exact ih (hF.of_new (hnone ▸ hchild)).2
    · next id hentry =>
      have hentry' : F.entry node.nodeId key = some (.node id) := hF.entry ▸ hentry
      have hlt : node.nodeId < id := hF.grown.lt_target _ _ _ _ hentry' rfl
      have hmem : id ∈ c.nodes := (hF.present _ key id hentry').resolve_right hlt.ne'
      refine .bind (internalUnwrapNode_avoids hmem) fun child hchild => ?_
      exact ih (hF.of_stored env hentry hchild).2.2
    · next old hold hentry =>
      refine .bind (.ensure (hbad.elim (by decide))) fun _ _ => ?_
      refine .bind (createNodeId_avoids hbad) ?_
      rintro ⟨c₁, id⟩ hid
      obtain ⟨-, rfl, rfl⟩ := createNodeId_eq_ok.mp hid
      refine .bind (Node.new_avoids hbad (some old)) fun child hchild => ?_
      exact ih (hF.of_new (hentry ▸ hchild)).2

end Writes

/-! ## Saving an account -/

/-- What it needs to save an account in memory. -/
structure Settles (bad : String → Prop) (host : Host) (c : Contract) (account : Account) : Prop where
  shared_le_used : bad SUBTRACT_OVERFLOW → account.sharedUsedBytes ≤ account.usedBytes
  shared_le_max : bad SUBTRACT_OVERFLOW → ∀ s, account.sharedStorage = some s →
    s.usedBytes ≤ s.maxBytes
  available : bad SUBTRACT_OVERFLOW → c.Available host
  shared_le_pool : bad ACCOUNTING_BUG → ∀ s, account.sharedStorage = some s →
    s.usedBytes ≤ (poolAt c.sharedStoragePools s.poolId).usedBytes
  released_le : bad ACCOUNTING_BUG → account.storageTracker.bytesReleased ≤
    account.usedBytes + account.storageTracker.bytesAdded

section Saving

variable {bad : String → Prop} {host : Host} {env : Env} {c c' : Contract} {account account' : Account}
  {pool : SharedStoragePool} {s : AccountSharedStorage} {t : StorageTracker} {m u : ℕ}

theorem start_avoids (hbad : Internal bad) : Avoids bad (t.start u) :=
  .bind (.ensure (hbad.elim (by decide))) fun _ _ => .pure _

theorem stop_avoids (hbad : Internal bad) : Avoids bad (t.stop u) := by
  refine .bind (.expect (hbad.elim (by decide))) fun _ _ => ?_
  split
  · exact .bind (.checkedAdd (hbad.not_bad (by decide))) fun _ _ => .pure _
  · exact .bind (.checkedAdd (hbad.not_bad (by decide))) fun _ _ => .pure _

theorem unwrapPool_avoids (hbad : Internal bad) (id : AccountId) :
    Avoids bad (c.internalUnwrapSharedStoragePool id) := .expect (hbad.elim (by decide))

theorem availableBytes_avoids (h : bad SUBTRACT_OVERFLOW →
    pool.usedBytes ≤ pool.storageBalance / host.storageByteCost % 2 ^ 64) :
    Avoids bad (pool.availableBytes host) := .checkedSub h

theorem sharedAvailableBytes_avoids (hmax : bad SUBTRACT_OVERFLOW → s.usedBytes ≤ s.maxBytes)
    (h : bad SUBTRACT_OVERFLOW →
      pool.usedBytes ≤ pool.storageBalance / host.storageByteCost % 2 ^ 64) :
    Avoids bad (s.availableBytes host pool) :=
  .bind (.checkedSub hmax) fun _ _ => .bind (availableBytes_avoids h) fun _ _ => .pure _

/-- A pool that is read has available what it uses. -/
theorem Contract.Available.of_lookup {id : AccountId} (h : c.Available host)
    (hpool : c.internalUnwrapSharedStoragePool id = .ok pool) :
    pool.usedBytes ≤ pool.storageBalance / host.storageByteCost % 2 ^ 64 := by
  simp only [Contract.internalUnwrapSharedStoragePool, expect_eq_ok] at hpool
  rw [← poolAt_of_lookup hpool]
  exact h id

theorem chargePool_avoids (hbad : Internal bad) (h : Settles bad host c account) :
    Avoids bad (c.chargePool host account m) := by
  unfold Contract.chargePool
  split
  · exact .pure _
  · next s hs =>
    refine .bind (unwrapPool_avoids hbad _) fun pool hpool => ?_
    refine .bind (sharedAvailableBytes_avoids (fun hmsg => h.shared_le_max hmsg s hs)
      fun hmsg => (h.available hmsg).of_lookup hpool) fun available _ => ?_
    dsimp only
    split
    · refine .bind (.checkedAdd (hbad.not_bad (by decide))) fun _ _ => ?_
      exact .bind (.checkedAdd (hbad.not_bad (by decide))) fun _ _ => .pure _
    · exact .pure _

/-- Charging the pool of an account takes no more bytes than the account has added. -/
theorem shared_le_of_chargePool (h : c.chargePool host account m = .ok (c', account')) :
    account'.sharedUsedBytes ≤ account.sharedUsedBytes + m := by
  unfold Contract.chargePool at h
  split at h
  · next hnone =>
    cases h
    exact Nat.le_add_right _ _
  · next s hs =>
    simp only [bind_eq_ok] at h
    obtain ⟨pool, -, available, -, h⟩ := h
    split at h
    · simp only [bind_eq_ok, checkedAdd_eq_ok, pure_eq_ok, Prod.mk.injEq] at h
      obtain ⟨_, -, _, ⟨-, rfl⟩, -, rfl⟩ := h
      simp only [Account.sharedUsedBytes, hs, Option.map_some, Option.getD_some]
      omega
    · cases h
      exact Nat.le_add_right _ _

theorem assertStorageCovered_avoids (hbad : Internal bad)
    (h : bad SUBTRACT_OVERFLOW → account.sharedUsedBytes ≤ account.usedBytes) :
    Avoids bad (account.assertStorageCovered host) :=
  .bind (.checkedSub h) fun _ _ => .ensure (hbad.elim (by decide))

theorem releasePool_avoids (hbad : Internal bad) (h : Settles bad host c account) :
    Avoids bad (c.releasePool account m) := by
  unfold Contract.releasePool
  split
  · exact .pure _
  · next s hs =>
    dsimp only
    split
    · refine .bind (unwrapPool_avoids hbad _) fun pool hpool => ?_
      refine .bind (.ensure fun hmsg => ?_) fun _ _ => .pure _
      have hle := h.shared_le_pool hmsg s hs
      simp only [Contract.internalUnwrapSharedStoragePool, expect_eq_ok] at hpool
      rw [poolAt_of_lookup hpool] at hle
      exact (Nat.min_le_left _ _).trans hle
    · exact .pure _

/-- **Saving an account** avoids internal errors. -/
theorem internalSetAccount_avoids (hbad : Internal bad) (h : Settles bad host c account) :
    Avoids bad (c.internalSetAccount host account) := by
  refine .bind ?_ fun _ _ => .bind (.ensure (hbad.elim (by decide))) fun _ _ => .pure _
  unfold Contract.settle
  dsimp only
  split
  · refine .bind (.checkedAdd (hbad.not_bad (by decide))) fun usedBytes hused => ?_
    simp only [checkedAdd_eq_ok] at hused
    have hle : account.usedBytes ≤ usedBytes := hused.2 ▸ Nat.le_add_right _ _
    have hcharges : Settles bad host c { account with usedBytes } :=
      ⟨fun hmsg => (h.shared_le_used hmsg).trans hle, h.shared_le_max, h.available,
        h.shared_le_pool, fun hmsg => (h.released_le hmsg).trans (Nat.add_le_add_right hle _)⟩
    refine .bind (chargePool_avoids hbad hcharges) ?_
    rintro ⟨c₁, account₁⟩ hcharge
    refine .bind (assertStorageCovered_avoids hbad fun hmsg => ?_) fun _ _ => .pure _
    have hshared := shared_le_of_chargePool hcharge
    obtain ⟨-, haccount, -, -⟩ := chargePool_settled hcharge
    have husedBytes : account₁.usedBytes = usedBytes := by rw [haccount]
    have hbefore : account.sharedUsedBytes ≤ account.usedBytes := h.shared_le_used hmsg
    show account₁.sharedUsedBytes ≤ account₁.usedBytes
    rw [husedBytes, ← hused.2]
    exact hshared.trans (Nat.add_le_add_right hbefore _)
  · split
    · refine .bind (.ensure fun hmsg => ?_) fun _ _ => ?_
      · have hreleased := h.released_le hmsg
        omega
      · exact .bind (releasePool_avoids hbad h) fun _ _ => .pure _
    · exact .pure _

end Saving

/-! ## Reading an account -/

/-- Something that moves keep, and that is enough to avoid some internal errors. New nodes are made
under some keys, and the deposits to pools lead to some pools. -/
structure Keeps (bad : String → Prop) (host : Host) (L : String → Prop)
    (P : SharedStoragePool → Prop) (I : Contract → Prop) : Prop where
  internal : Internal bad
  upholds : ∀ c, I c → Upholds bad host c
  move : ∀ env c c' deposit transfers, Move host env L P c c' deposit transfers → I c → I c'
  empty : bad REPLACED_NODE → ¬ L EMPTY_KEY

section Accounts

variable {bad : String → Prop} {host : Host} {env : Env} {L : String → Prop}
  {P : SharedStoragePool → Prop} {I : Contract → Prop} {c c' : Contract} {n : NodeId}
  {id : AccountId} {a account : Account} {deposit : ℕ} {transfers : List Transfer}

theorem Keeps.moves (hI : Keeps bad host L P I) (h : Moves host env L P c c' deposit transfers)
    (hc : I c) : I c' := by
  induction h with
  | refl => exact hc
  | tail _ hmove ih => exact hI.move _ _ _ _ _ hmove ih

theorem internalGetAccount_avoids (hbad : Internal bad) (hsound : c.Sound) :
    Avoids bad (c.internalGetAccount id) := by
  unfold Contract.internalGetAccount
  split
  · exact .pure _
  · refine .bind (.bind (.expect (hbad.elim (by decide))) fun r _ => .bind ?_ fun _ _ => .pure _)
      fun _ _ => .pure _
    cases r with
    | v0 v => exact .bind (.checkedAdd (hbad.not_bad (by decide))) fun _ _ => .pure _
    | current a => exact .pure _
  · next v hnode hv =>
    obtain ⟨-, n, rfl, -⟩ := hsound.root id v hv
    exact absurd rfl (hnode n)

theorem internalUnwrapAccount_avoids (hbad : Internal bad) (hsound : c.Sound) :
    Avoids bad (c.internalUnwrapAccount id) :=
  .bind (internalGetAccount_avoids hbad hsound) fun _ _ => .expect (hbad.elim (by decide))

/-- The node of an account is stored. -/
theorem Contract.Sound.mem_nodes_of_account (h : c.Sound) (hn : n ∈ c.accounts) : n ∈ c.nodes :=
  (h.mem_nodes n).mpr (h.account_lt_count hn)

theorem internalStorageBalanceOf_avoids (hbad : Internal bad) (h : Upholds bad host c) :
    Avoids bad (c.internalStorageBalanceOf host id) := by
  refine .bind (internalGetAccount_avoids hbad h.sound) fun o hget => ?_
  cases o with
  | none => exact .pure _
  | some account =>
    obtain ⟨n, a, hn, ha, rfl⟩ := h.sound.loaded hget
    refine .bind (.checkedSub fun hmsg => ?_) fun _ _ => .pure _
    exact (h.covered hmsg n a ha).shared_le_used

/-- A stored account settles with a tracker that has seen no more than it has. -/
theorem Upholds.settles (h : Upholds bad host c) (ha : c.accounts.lookup n = some a.stored)
    (storageBalance : ℕ) (t : StorageTracker)
    (ht : bad ACCOUNTING_BUG → t.bytesReleased ≤ a.usedBytes + t.bytesAdded) :
    Settles bad host c { a.loaded n with storageBalance, storageTracker := t } :=
  ⟨fun hmsg => (h.covered hmsg n a ha).shared_le_used,
    fun hmsg => (h.covered hmsg n a ha).shared_le_max, h.available,
    fun hmsg s hs => (h.shares (.inr hmsg) n a s ha hs).1, ht⟩

/-- An account settles in a contract with the same pools. -/
theorem Settles.congr (h : Settles bad host c account)
    (hpools : c'.sharedStoragePools = c.sharedStoragePools) : Settles bad host c' account := by
  refine ⟨h.shared_le_used, h.shared_le_max, ?_, ?_, h.released_le⟩
  · intro hmsg id
    rw [hpools]
    exact h.available hmsg id
  · rw [hpools]
    exact h.shared_le_pool

/-! ## New accounts -/

theorem internalInitialSetAccount_avoids (hbad : Internal bad) (htracker : account.storageTracker = {})
    (hshared : ∀ s, account.sharedStorage = some s → s.usedBytes = 0)
    (havailable : bad SUBTRACT_OVERFLOW → c.Available host)
    (hwindow : bad ACCOUNTING_BUG →
      host.storageUsage c ≤ host.storageUsage (c.opened env id account)) :
    Avoids bad (c.internalInitialSetAccount host env id account) := by
  refine .bind (start_avoids hbad) fun t₁ hstart => ?_
  refine .bind (Node.new_avoids hbad none) fun node hnode => ?_
  cases hnode
  dsimp only
  -- The record is written inside the window, where the tracker is idle.
  rw [internalSetAccount_idle rfl]
  refine .bind (.ok _) ?_
  rintro ⟨c₂, existed⟩ hidle
  obtain ⟨rfl, rfl⟩ := Prod.mk.inj (Except.ok.inj hidle)
  refine .bind (.ensure (hbad.elim (by decide))) fun _ _ => ?_
  refine .bind (stop_avoids hbad) fun t₂ hstop => ?_
  have htracker₂ := (StorageTracker.window hstart hstop).2
  have hzero : account.sharedUsedBytes = 0 := by
    cases hs : account.sharedStorage with
    | none => simp [Account.sharedUsedBytes, hs]
    | some s => simp [Account.sharedUsedBytes, hs, hshared s hs]
  refine .bind (internalSetAccount_avoids hbad ⟨?_, ?_, havailable, ?_, ?_⟩) fun _ _ => .pure _
  · intro _
    exact hzero.trans_le (Nat.zero_le _)
  · intro _ s hs
    exact (hshared s hs).trans_le (Nat.zero_le _)
  · intro _ s hs
    exact (hshared s hs).trans_le (Nat.zero_le _)
  · intro hmsg
    have hle : host.storageUsage c ≤ _ := hwindow hmsg
    have hreleased : t₂.bytesReleased = 0 := by
      rw [htracker₂, htracker]
      exact (Nat.zero_add _).trans (Nat.sub_eq_zero_of_le hle)
    exact hreleased.trans_le (Nat.zero_le _)

theorem internalCreateAccount_avoids (hbad : Internal bad) (h : Upholds bad host c)
    {registrationOnly : Bool} (hnew : c.rootNode.children.get id = none) :
    Avoids bad (c.internalCreateAccount host env id deposit registrationOnly) := by
  refine .bind (.ensure (hbad.elim (by decide))) fun _ _ => ?_
  refine .bind (createNodeId_avoids hbad) ?_
  rintro ⟨c₁, n⟩ hid
  obtain ⟨-, rfl, rfl⟩ := createNodeId_eq_ok.mp hid
  refine .bind (internalInitialSetAccount_avoids hbad rfl (by rintro s ⟨⟩) h.available ?_)
    fun _ _ => .pure _
  intro hmsg
  exact (h.windows hmsg).opened env id c.sharedStoragePools none hnew

theorem internalUnwrapAccountOrCreate_avoids (hI : Keeps bad host L P I) (hc : I c) :
    Avoids bad (c.internalUnwrapAccountOrCreate host env id deposit) := by
  have hbad := hI.internal
  have h := hI.upholds c hc
  refine .bind (.ensure (hbad.elim (by decide))) fun _ hid => ?_
  refine .bind (internalGetAccount_avoids hbad h.sound) fun o hget => ?_
  cases o with
  | some account => exact .pure _
  | none =>
    have hnew := internalGetAccount_eq_none.mp hget
    refine .bind (internalCreateAccount_avoids hbad h hnew) ?_
    rintro ⟨c₁, transfers⟩ hcreate
    have hmoves : Moves host env L P c c₁ deposit transfers :=
      (moves_of_internalCreateAccount (ensure_eq_ok.mp hid) hnew hcreate).1
    exact .bind (internalUnwrapAccount_avoids hbad (hmoves.sound h.sound)) fun _ _ => .pure _

end Accounts

/-! ## The methods -/

section Methods

variable {bad : String → Prop} {host : Host} {env : Env} {L : String → Prop}
  {P : SharedStoragePool → Prop} {I : Contract → Prop} {c c' : Contract} {n : NodeId}
  {id : AccountId} {a account account' : Account} {deposit : ℕ} {transfers : List Transfer}

/-- A message that begins like no internal error is not bad. -/
theorem Internal.not_bad_append {msg : String} {rest : String} (hbad : Internal bad)
    (hne : msg ≠ "") (h : ∀ e ∈ internalErrors, e.toList.head? ≠ msg.toList.head?) :
    ¬ bad (msg ++ rest) := by
  intro hmsg
  refine h _ (hbad _ hmsg) ?_
  rw [String.toList_append]
  cases hlist : msg.toList with
  | nil => exact absurd (String.toList_inj.mp (hlist.trans rfl)) hne
  | cons ch chs => rfl

theorem internalStorageWithdraw_avoids (hI : Keeps bad host L P I) (hc : I c) {amount : Option ℕ} :
    Avoids bad (c.internalStorageWithdraw host env id amount) := by
  have hbad := hI.internal
  have h := hI.upholds c hc
  refine .bind (internalStorageBalanceOf_avoids hbad h) fun o hbalance => ?_
  cases o with
  | none =>
    refine .error ?_
    rw [String.append_assoc]
    exact hbad.not_bad_append (by decide) (by decide)
  | some before =>
    refine .bind (.ensure (hbad.elim (by decide))) fun _ hamount => ?_
    split
    · refine .bind (internalUnwrapAccount_avoids hbad h.sound) fun account hget => ?_
      obtain ⟨n, a, hn, ha, rfl⟩ := h.sound.loaded (internalUnwrapAccount_eq_ok.mp hget)
      refine .bind (internalSetAccount_avoids hbad (h.settles ha _ {} fun _ => Nat.zero_le _)) ?_
      rintro ⟨c₁, existed⟩ hsave
      have hmove : Move host env L P c c₁ 0 _ :=
        move_of_withdraw h.sound hbalance (ensure_eq_ok.mp hamount) hget hsave
      refine .bind (internalStorageBalanceOf_avoids hbad (hI.upholds _ (hI.move _ _ _ _ _ hmove hc)))
        fun _ _ => ?_
      exact .bind (.expect (hbad.elim (by decide))) fun _ _ => .pure _
    · refine .bind (internalStorageBalanceOf_avoids hbad h) fun _ _ => ?_
      exact .bind (.expect (hbad.elim (by decide))) fun _ _ => .pure _

theorem setAccount_avoids (hI : Keeps bad host L P I) (hc : I c) {value : Json}
    (hL : ∀ k ∈ value.objectKeys, L k) :
    Avoids bad (c.setAccount host env id value deposit) := by
  have hbad := hI.internal
  have hsound := (hI.upholds c hc).sound
  refine .bind (internalUnwrapAccountOrCreate_avoids hI hc) ?_
  rintro ⟨c₁, transfers, account⟩ hcreate
  obtain ⟨-, credited, rest, n, a, balance, hmoves, -, hn, ha, -, rfl⟩ :=
    moves_of_internalUnwrapAccountOrCreate L P hsound hcreate
  have h₁ := hI.upholds c₁ (hI.moves hmoves hc)
  have hmem := mem_accounts_of_lookup ha
  refine .bind (internalUnwrapNode_avoids (h₁.sound.mem_nodes_of_account hmem)) fun node hnode => ?_
  obtain ⟨-, hreads, -⟩ := h₁.sound.reads (h₁.sound.account_lt_count hmem).1 hnode
  refine .bind (start_avoids hbad) fun t₁ hstart => ?_
  refine .bind (recursiveSet_avoids hbad value (fun hmsg hk => hI.empty hmsg (hL _ hk)) hreads
    h₁.free) fun c₂ hset => ?_
  refine .bind (stop_avoids hbad) fun t₂ hstop => ?_
  have hedits := edits_of_recursiveSet h₁.sound hmem hnode hL hset
  have hwindow := (StorageTracker.window hstart hstop).2
  refine .bind (internalSetAccount_avoids hbad ((h₁.settles ha balance t₂ ?_).congr ?_))
    fun _ _ => .pure _
  · intro hmsg
    have hle := (h₁.windows hmsg).edited L n a c₂ ha hedits
    simp only [Account.loaded] at hwindow
    rw [hwindow]
    dsimp only
    omega
  · rw [hedits.frame]

theorem refundUnused_avoids (hI : Keeps bad host L P I) (hc : I c) {options : SetOptions} :
    Avoids bad (c.refundUnused host env options id deposit) := by
  have hbad := hI.internal
  unfold Contract.refundUnused
  split
  · refine .bind (.expect (hbad.elim (by decide))) fun accountId _ => ?_
    refine .bind (internalStorageBalanceOf_avoids hbad (hI.upholds c hc)) fun o _ => ?_
    cases o with
    | none => exact .pure _
    | some balance => exact .bind (internalStorageWithdraw_avoids hI hc) fun _ _ => .pure _
  · exact .pure _

theorem setAccounts_avoids (hI : Keeps bad host L P I) (hc : I c) {options : SetOptions}
    {data : List (String × Json)} (hL : ∀ k ∈ Json.objectKeysOf data, L k) :
    Avoids bad (Contract.setAccounts host env options c data deposit) := by
  induction data generalizing c deposit with
  | nil => exact .pure _
  | cons entry data ih =>
    obtain ⟨key, value⟩ := entry
    simp only [Json.objectKeysOf, List.mem_append] at hL
    have hvalue : ∀ k ∈ value.objectKeys, L k := fun k hk => hL k (.inr (.inl hk))
    refine .bind (setAccount_avoids hI hc hvalue) ?_
    rintro ⟨c₁, created⟩ hset
    have hmoves : Moves host env L P c c₁ deposit created :=
      moves_of_setAccount (hI.upholds c hc).sound hvalue hset
    have hc₁ := hI.moves hmoves hc
    refine .bind (refundUnused_avoids hI hc₁) ?_
    rintro ⟨c₂, refunded⟩ hrefund
    have hmoves₂ : Moves host env L P c₁ c₂ 0 refunded :=
      moves_of_refundUnused (hI.upholds c₁ hc₁).sound hrefund
    refine .bind (ih (hI.moves hmoves₂ hc₁) fun k hk => hL k (.inr (.inr hk))) fun _ _ => .pure _

theorem set_avoids (hI : Keeps bad host L P I) (hc : I c) {data : Json} {options : Option SetOptions}
    (hL : ∀ k ∈ data.objectKeys, L k) : Avoids bad (c.set host env data options) := by
  have hbad := hI.internal
  refine .bind (.ensure (hbad.elim (by decide))) fun _ _ => ?_
  refine .bind (.expect (hbad.elim (by decide))) fun fields hfields => ?_
  have hfields : ∀ k ∈ Json.objectKeysOf fields, L k := by
    cases data with
    | object obj =>
      cases hfields
      exact hL
    | _ => cases hfields
  refine .bind (setAccounts_avoids hI hc hfields) fun _ _ => ?_
  exact .bind (.ensure (hbad.elim (by decide))) fun _ _ => .pure _

/-! ### Permissions -/

theorem grantKey_avoids (hbad : Internal bad) (hsound : c.Sound) (hn : account.nodeId ∈ c.accounts)
    {key : String} : Avoids bad (c.grantKey host env id account key) := by
  refine .bind (start_avoids hbad) fun _ _ => ?_
  refine .bind (.ensure (hbad.elim (by decide))) fun _ _ => ?_
  refine .bind (.ensure (hbad.elim (by decide))) fun _ _ => ?_
  refine .bind (internalUnwrapNode_avoids (hsound.mem_nodes_of_account hn)) fun node hnode => ?_
  obtain ⟨-, -, hmemory⟩ := hsound.reads (hsound.account_lt_count hn).1 hnode
  refine .bind (walk_avoids hbad hmemory) fun _ _ => ?_
  exact .bind (stop_avoids hbad) fun _ _ => .pure _

theorem grantKeys_avoids (hbad : Internal bad) (hsound : c.Sound) (hn : account.nodeId ∈ c.accounts)
    {keys : List String} {nodeIds : Finset NodeId} :
    Avoids bad (Contract.grantKeys host env id c account keys nodeIds) := by
  induction keys generalizing c account nodeIds with
  | nil => exact .pure _
  | cons key keys ih =>
    refine .bind (grantKey_avoids hbad hsound hn) ?_
    rintro ⟨c₁, account₁, i⟩ hkey
    obtain ⟨hedits, -, t, rfl, -⟩ := edits_of_grantKey (L := fun _ => True) hsound hn
      (fun _ _ => trivial) hkey
    have haccounts : c₁.accounts = c.accounts := by rw [hedits.frame]
    exact ih (hedits.sound hsound hn) (haccounts ▸ hn)

/-- What the permission of an account has granted is below its node. -/
theorem Contract.Sound.granted_below (h : c.Sound) (key : PermissionKey) :
    ∀ i ∈ (((c.permissionsOf n).get key).getD (.granted ∅)).1, c.forest.Below n i := by
  intro i hi
  cases hget : (c.permissionsOf n).get key with
  | none =>
    rw [hget] at hi
    exact absurd hi (Finset.notMem_empty i)
  | some permission =>
    rw [hget] at hi
    exact h.permissions n key _ hget i hi

theorem permissionKeyOf_avoids (hbad : Internal bad) {predecessorId : Option AccountId}
    {publicKey : Option PublicKey} :
    Avoids bad (Contract.permissionKeyOf predecessorId publicKey) := by
  unfold Contract.permissionKeyOf
  split
  · exact .error (hbad.not_bad (by decide))
  · exact .pure _
  · exact .pure _
  · exact .error (hbad.not_bad (by decide))

theorem grantWritePermission_avoids (hI : Keeps bad host L P I) (hc : I c)
    {predecessorId : Option AccountId} {publicKey : Option PublicKey} {keys : List String}
    (hL : ∀ key ∈ keys, ∀ k ∈ (splitPath key).tail, L k) :
    Avoids bad (c.grantWritePermission host env predecessorId publicKey keys) := by
  have hbad := hI.internal
  have hsound := (hI.upholds c hc).sound
  refine .bind (.ensure (hbad.elim (by decide))) fun _ _ => ?_
  refine .bind (.ensure (hbad.elim (by decide))) fun _ _ => ?_
  refine .bind (permissionKeyOf_avoids hbad) fun key _ => ?_
  refine .bind (internalUnwrapAccountOrCreate_avoids hI hc) ?_
  rintro ⟨c₁, transfers, account⟩ hcreate
  obtain ⟨-, credited, rest, n, a, balance, hmoves, -, hn, ha, -, rfl⟩ :=
    moves_of_internalUnwrapAccountOrCreate L P hsound hcreate
  have h₁ := hI.upholds c₁ (hI.moves hmoves hc)
  have hmem : n ∈ c₁.accounts := mem_accounts_of_lookup ha
  dsimp only
  refine .bind (grantKeys_avoids hbad h₁.sound hmem) ?_
  rintro ⟨c₂, account₂, nodeIds⟩ hkeys
  obtain ⟨hedits, hnodeIds, t, rfl, ht⟩ :=
    edits_of_grantKeys h₁.sound hmem hL (h₁.sound.granted_below key) hkeys
  refine .bind (.bind (start_avoids hbad) fun _ _ => .bind (stop_avoids hbad) fun _ _ => .pure _) ?_
  rintro ⟨c₃, account₃⟩ hpermission
  obtain ⟨hedits', t', rfl, ht'⟩ := edits_of_internalSetPermission (hedits.sound h₁.sound hmem)
    (by exact hnodeIds) hpermission
  have hall := hedits.trans hedits'
  refine .bind (internalSetAccount_avoids hbad ((h₁.settles ha balance t' ?_).congr ?_))
    fun _ _ => .pure _
  · intro hmsg
    have hle := (h₁.windows hmsg).edited L n a c₃ ha hall
    simp only [Account.loaded] at ht ht'
    omega
  · rw [hall.frame]

/-! ### Deposits -/

theorem storageDeposit_avoids (hI : Keeps bad host L P I) (hc : I c) {accountId : Option AccountId}
    {registrationOnly : Option Bool}
    (hid : isValidAccountId (accountId.getD env.predecessorAccountId) = true) :
    Avoids bad (c.storageDeposit host env accountId registrationOnly) := by
  have hbad := hI.internal
  have h := hI.upholds c hc
  refine .bind (.ensure (hbad.elim (by decide))) fun _ _ => ?_
  refine .bind (internalGetAccount_avoids hbad h.sound) fun o hget => ?_
  refine .bind ?_ ?_
  · cases o with
    | none => exact internalCreateAccount_avoids hbad h (internalGetAccount_eq_none.mp hget)
    | some account =>
      obtain ⟨n, a, hn, ha, rfl⟩ := h.sound.loaded hget
      dsimp only
      split
      · exact .pure _
      · exact .bind (internalSetAccount_avoids hbad (h.settles ha _ {} fun _ => Nat.zero_le _))
          fun _ _ => .pure _
  · rintro ⟨c₁, transfers⟩ hdeposit
    have hmoves : Moves host env L P c c₁ env.attachedDeposit transfers :=
      moves_of_deposit h.sound hid hdeposit hget
    refine .bind (internalStorageBalanceOf_avoids hbad (hI.upholds _ (hI.moves hmoves hc)))
      fun _ _ => ?_
    exact .bind (.expect (hbad.elim (by decide))) fun _ _ => .pure _

theorem sharedStoragePoolDeposit_avoids (hbad : Internal bad) {ownerId : Option AccountId} :
    Avoids bad (c.sharedStoragePoolDeposit host env ownerId) := by
  refine .bind (.ensure (hbad.elim (by decide))) fun _ _ => ?_
  refine .bind (start_avoids hbad) fun _ _ => ?_
  refine .bind (stop_avoids hbad) fun _ _ => ?_
  refine .bind ?_ fun _ _ => ?_
  · split
    · refine .bind (unwrapPool_avoids hbad _) fun _ _ => ?_
      exact .bind (.checkedAdd (hbad.not_bad (by decide))) fun _ _ => .pure _
    · exact .pure _
  · refine .bind (.bind (.ensure (hbad.elim (by decide))) fun _ _ => .pure _) fun _ _ => ?_
    exact .bind (.ensure (hbad.elim (by decide))) fun _ _ => .pure _

/-! ### Shared storage -/

theorem shareMore_avoids (hbad : Internal bad) (h : Upholds bad host c) {poolId : AccountId}
    {pool : SharedStoragePool} {current : AccountSharedStorage} {maxBytes : ℕ}
    (ha : c.accounts.lookup n = some a.stored) (hcurrent : a.sharedStorage = some current)
    (hpool : c.sharedStoragePools.lookup poolId = some pool) :
    Avoids bad (c.shareMore host poolId pool current maxBytes) := by
  refine .bind (.ensure (hbad.elim (by decide))) fun _ _ => ?_
  split
  · refine .bind (.ensure (hbad.elim (by decide))) fun _ hmax => ?_
    refine .bind (.checkedSub fun _ => (ensure_eq_ok.mp hmax).le) fun _ _ => ?_
    exact .bind (.checkedAdd (hbad.not_bad (by decide))) fun _ _ => .pure _
  · have hpoolAvailable : bad SUBTRACT_OVERFLOW →
        pool.usedBytes ≤ pool.storageBalance / host.storageByteCost % 2 ^ 64 := by
      intro hmsg
      rw [← poolAt_of_lookup hpool]
      exact h.available hmsg poolId
    refine .bind (unwrapPool_avoids hbad _) fun currentPool hcurrentPool => ?_
    have hshares : bad SUBTRACT_OVERFLOW → current.usedBytes ≤ currentPool.usedBytes ∧
        current.maxBytes ≤ currentPool.sharedBytes := by
      intro hmsg
      have hle := h.shares (.inl hmsg) n a current ha hcurrent
      simp only [Contract.internalUnwrapSharedStoragePool, expect_eq_ok] at hcurrentPool
      rwa [poolAt_of_lookup hcurrentPool] at hle
    refine .bind (sharedAvailableBytes_avoids
      (fun hmsg => (h.covered hmsg n a ha).shared_le_max current hcurrent)
      fun hmsg => (h.available hmsg).of_lookup hcurrentPool) fun _ _ => ?_
    refine .bind (sharedAvailableBytes_avoids (fun _ => Nat.zero_le _) hpoolAvailable) fun _ _ => ?_
    refine .bind (.checkedAdd (hbad.not_bad (by decide))) fun _ _ => ?_
    refine .bind (.checkedAdd (hbad.not_bad (by decide))) fun _ _ => ?_
    refine .bind (.ensure (hbad.elim (by decide))) fun _ _ => ?_
    refine .bind (.checkedSub fun hmsg => (hshares hmsg).1) fun _ _ => ?_
    refine .bind (.checkedSub fun hmsg => (hshares hmsg).2) fun _ _ => ?_
    refine .bind (.checkedAdd (hbad.not_bad (by decide))) fun _ _ => ?_
    exact .bind (.checkedAdd (hbad.not_bad (by decide))) fun _ _ => .pure _

/-- An account that storage is shared with settles in the contract with its new record. -/
theorem Upholds.settles_shared (h : Upholds bad host c) {s : AccountSharedStorage}
    {pools : Map AccountId SharedStoragePool} (ha : c.accounts.lookup n = some a.stored)
    (hshares : Shares host c.sharedStoragePools a.sharedStorage pools s) (t : StorageTracker)
    (ht : t.bytesReleased = host.storageUsage { c with sharedStoragePools := pools } -
      host.storageUsage { c with
        sharedStoragePools := pools
        accounts := c.accounts.insert n { a with sharedStorage := some s }.stored }) :
    Settles bad host { c with
      sharedStoragePools := pools
      accounts := c.accounts.insert n { a with sharedStorage := some s }.stored }
      { ({ a with sharedStorage := some s } : Account).loaded n with storageTracker := t } := by
  obtain ⟨hused, hmax⟩ := hshares.usedBytes
  have htally := hshares.tally
  refine ⟨?_, ?_, ?_, ?_, ?_⟩
  · intro hmsg
    show s.usedBytes ≤ a.usedBytes
    rw [hused]
    exact (h.covered hmsg n a ha).shared_le_used
  · intro _ s' hs'
    cases hs'
    exact hmax
  · intro hmsg
    exact htally.all_available (h.available hmsg)
  · intro hmsg s' hs'
    cases hs'
    have hpool := htally.used s.poolId
    rw [bytesIn_self] at hpool
    show s.usedBytes ≤ (poolAt pools s.poolId).usedBytes
    by_cases hold : ∃ current, a.sharedStorage = some current ∧ current.poolId = s.poolId
    · obtain ⟨current, hcurrent, hid⟩ := hold
      have hle := (h.shares (.inr hmsg) n a current ha hcurrent).1
      have hbytes : bytesIn AccountSharedStorage.usedBytes s.poolId a.sharedStorage =
          current.usedBytes := by rw [hcurrent, ← hid, bytesIn_self]
      rw [hid] at hle
      omega
    · have hbytes : bytesIn AccountSharedStorage.usedBytes s.poolId a.sharedStorage = 0 := by
        cases hshared : a.sharedStorage with
        | none => rfl
        | some current => exact if_neg fun hid => hold ⟨current, hshared, hid⟩
      omega
  · intro hmsg
    have hle := (h.windows hmsg).shared n a s pools ha
    show t.bytesReleased ≤ a.usedBytes + t.bytesAdded
    omega

/-- An account that is made with shared storage. -/
theorem shareWithNew_avoids (hbad : Internal bad) (h : Upholds bad host c) {poolId : AccountId}
    {pool : SharedStoragePool} {maxBytes : ℕ} (hnew : c.rootNode.children.get id = none)
    (hpool : c.sharedStoragePools.lookup poolId = some pool) :
    Avoids bad (do
      let sharedBytes ← checkedAdd u64Max pool.sharedBytes maxBytes
      let c := c.internalSetSharedStoragePool poolId { pool with sharedBytes }
      c.internalCreateAccountFromSharedStorage host env id maxBytes poolId) := by
  have hopens : Opens c.sharedStoragePools (c.sharedStoragePools.insert poolId
      { pool with sharedBytes := pool.sharedBytes + maxBytes })
      (some { maxBytes, usedBytes := 0, poolId }) := .shared hpool
  have havailable : bad SUBTRACT_OVERFLOW → Contract.Available host (c.internalSetSharedStoragePool
      poolId { pool with sharedBytes := pool.sharedBytes + maxBytes }) :=
    fun hmsg => hopens.tally.all_available (h.available hmsg)
  refine .bind (.checkedAdd (hbad.not_bad (by decide))) fun sharedBytes hsum => ?_
  obtain ⟨-, rfl⟩ := checkedAdd_eq_ok.mp hsum
  refine .bind (.ensure (hbad.elim (by decide))) fun _ _ => ?_
  refine .bind (unwrapPool_avoids hbad _) fun pool' hpool' => ?_
  refine .bind (sharedAvailableBytes_avoids (fun _ => Nat.zero_le _)
    fun hmsg => (havailable hmsg).of_lookup hpool') fun _ _ => ?_
  refine .bind (.ensure (hbad.elim (by decide))) fun _ _ => ?_
  refine .bind (createNodeId_avoids hbad) ?_
  rintro ⟨c₁, n⟩ hid
  obtain ⟨-, rfl, rfl⟩ := createNodeId_eq_ok.mp hid
  refine internalInitialSetAccount_avoids hbad rfl ?_ havailable ?_
  · intro s hs
    cases hs
    rfl
  · intro hmsg
    exact (h.windows hmsg).opened env id _ (some { maxBytes, usedBytes := 0, poolId }) hnew

theorem shareStorage_avoids (hI : Keeps bad host L P I) (hc : I c) {maxBytes : ℕ} :
    Avoids bad (c.shareStorage host env id maxBytes) := by
  have hbad := hI.internal
  have h := hI.upholds c hc
  refine .bind (.ensure (hbad.elim (by decide))) fun _ _ => ?_
  refine .bind (internalGetAccount_avoids hbad h.sound) fun o hget => ?_
  refine .bind (unwrapPool_avoids hbad _) fun pool hpool => ?_
  refine .bind (availableBytes_avoids fun hmsg => (h.available hmsg).of_lookup hpool) fun _ _ => ?_
  refine .bind (.ensure (hbad.elim (by decide))) fun _ _ => ?_
  simp only [Contract.internalUnwrapSharedStoragePool, expect_eq_ok] at hpool
  cases o with
  | none =>
    exact shareWithNew_avoids hbad h (internalGetAccount_eq_none.mp hget) hpool
  | some account =>
    obtain ⟨n, a, hn, ha, rfl⟩ := h.sound.loaded hget
    refine .bind ?_ ?_
    · split
      · next current hcurrent => exact shareMore_avoids hbad h ha hcurrent hpool
      · exact .bind (.checkedAdd (hbad.not_bad (by decide))) fun _ _ => .pure _
    rintro ⟨c₁, shared⟩ hshare
    obtain ⟨pools, rfl, hshares⟩ := shares_of_share hpool hshare
    refine .bind (start_avoids hbad) fun t₁ hstart => ?_
    dsimp only
    -- The record is saved inside the window of the tracker, which counts nothing of the pool.
    rw [internalSetAccount_idle rfl]
    have hshared : ({ c with
        sharedStoragePools := pools
        accounts := c.accounts.insert n { a with sharedStorage := some shared }.stored } :
        Contract).Sound := h.sound.sharing (mem_accounts_of_lookup ha) _ pools
    refine .bind (.ok _) ?_
    rintro ⟨c₂, existed⟩ hidle
    obtain ⟨rfl, -⟩ := Prod.mk.inj (Except.ok.inj hidle)
    refine .bind (stop_avoids hbad) fun t₂ hstop => ?_
    refine .bind (internalUnwrapAccount_avoids hbad hshared) fun account₂ hget₂ => ?_
    obtain rfl := loaded_of_shared hn hget₂
    refine .bind (.bind (.checkedAdd (hbad.not_bad (by decide))) fun _ _ =>
      .bind (.ensure (hbad.elim (by decide))) fun _ _ => .pure _) ?_
    rintro ⟨t₃, t₄⟩ hconsume
    obtain ⟨-, ⟨⟩⟩ := StorageTracker.consume_spec hconsume
    refine .bind (internalSetAccount_avoids hbad (h.settles_shared ha hshares _ ?_)) fun _ _ => ?_
    · rw [(StorageTracker.window hstart hstop).2]
      exact Nat.zero_add _
    · exact .bind (.ensure (hbad.elim (by decide))) fun _ _ => .pure _

/-! ### Every call -/

/-- **Every call** avoids internal errors. -/
theorem call_avoids (hI : Keeps bad host L P I) (hc : I c) {method : Method}
    (hL : ∀ k ∈ method.nodeKeys, L k) : Avoids bad (c.call host env method) := by
  have hbad := hI.internal
  refine .bind (.ensure (hbad.elim (by decide))) fun _ hids => ?_
  refine .bind (.ensure (hbad.elim (by decide))) fun _ _ => ?_
  have hids := ensure_eq_ok.mp hids
  cases method with
  | set data options => exact set_avoids hI hc hL
  | grantWritePermission predecessorId publicKey keys =>
    refine grantWritePermission_avoids hI hc ?_
    intro key hkey k hk
    exact hL k (List.mem_flatMap.mpr ⟨key, hkey, hk⟩)
  | storageDeposit accountId registrationOnly =>
    refine .bind (storageDeposit_avoids hI hc ?_) fun _ _ => .pure _
    cases accountId with
    | none => exact hids _ (List.mem_cons_self ..)
    | some id => exact hids id (by simp [Method.accountIds])
  | storageWithdraw amount =>
    refine .bind ?_ fun _ _ => .pure _
    refine .bind (.ensure (hbad.elim (by decide))) fun _ _ => ?_
    refine .bind (.ensure (hbad.elim (by decide))) fun _ _ => ?_
    exact internalStorageWithdraw_avoids hI hc
  | storageUnregister force =>
    refine .bind ?_ fun _ _ => .pure _
    exact .bind (.ensure (hbad.elim (by decide))) fun _ _ => .error (hbad.not_bad (by decide))
  | sharedStoragePoolDeposit ownerId =>
    exact .bind (sharedStoragePoolDeposit_avoids hbad) fun _ _ => .pure _
  | shareStorage accountId maxBytes => exact .bind (shareStorage_avoids hI hc) fun _ _ => .pure _
  | setStatus status =>
    refine .bind ?_ fun _ _ => .pure _
    refine .bind (.ensure (hbad.elim (by decide))) fun _ _ => ?_
    exact .bind (.ensure (hbad.elim (by decide))) fun _ _ => .pure _

end Methods

end UncContracts.Social
