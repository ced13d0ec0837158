import UncContracts.Social.Heights

/-!
# The permission view

Writing for an account checks a permission at every place where it would change a node, and is approved
from a granted node on. The view walks down one path, and looks for a granted node on it. Both tell the
same about every value of the data, in the contract before the call.

## Main definitions

* `LeafPath`: a path of keys leads to a value of the data
* `ValidData`: data with valid keys, in which no object is empty
* `Through`: a path goes through one of some nodes
* `Ungranted`: some nodes lie below no granted one
* `Contract.setApproved`: writing for an account without permission checks
* `Contract.writeApproved`: the same up to the place where the last check would be

## Main results

* `guards_of_recursiveSet`: the checks of a write pass if its paths meet granted nodes
* `viewGrants_iff`: the view tells whether a path meets a granted node
* `set_agrees_with_view`: the view agrees with the checks of `set`
-/

namespace UncContracts.Social

open Foundation HasTarget

/-- A path of keys leads to a value that is no object. -/
inductive LeafPath : Json → List String → Prop
  | leaf {value : Json} (h : value.isObject = false) : LeafPath value []
  | field {obj : List (String × Json)} {key : String} {value : Json} {path : List String}
    (hmem : (key, value) ∈ obj) (h : LeafPath value path) : LeafPath (.object obj) (key :: path)

/-- Data with valid keys, in which no object is empty. -/
inductive ValidData : Json → Prop
  | leaf {value : Json} (h : value.isObject = false) : ValidData value
  | object {obj : List (String × Json)} (hne : obj ≠ [])
    (hkey : ∀ key value, (key, value) ∈ obj → isKeyValid key = true)
    (hfield : ∀ key value, (key, value) ∈ obj → ValidData value) : ValidData (.object obj)

/-- A path below a node goes through one of some nodes. -/
def Through (F : Forest String NodeValue) (W : Finset NodeId) : NodeId → List String → Prop
  | n, [] => n ∈ W
  | n, key :: path => n ∈ W ∨ ∃ m, F.entry n key = some (.node m) ∧ Through F W m path

namespace Contract

variable (host : Host) (env : Env) (c : Contract)

/-- `setAccount` without permission checks: writing is approved from the start. -/
def setAccountApproved (key : String) (value : Json) (attachedBalance : ℕ) :
    Exec (Contract × List Transfer) := do
  let (c, transfers, account) ← c.internalUnwrapAccountOrCreate host env key attachedBalance
  let node ← c.internalUnwrapNode account.nodeId
  let storageTracker ← account.storageTracker.start (host.storageUsage c)
  let c ← recursiveSet env c node value true ∅
  let storageTracker ← storageTracker.stop (host.storageUsage c)
  let (c, _) ← c.internalSetAccount host { account with storageTracker }
  return (c, transfers)

/-- `set` for one account without permission checks. -/
def setApproved (key : String) (value : Json) (options : Option SetOptions) :
    Exec (Contract × List Transfer) := do
  c.assertLive
  let (c, created) ← c.setAccountApproved host env key value env.attachedDeposit
  let (c, refunded) ← c.refundUnused host env (options.getD { refundUnusedDeposit := none }) key
    env.attachedDeposit
  return (c, created ++ refunded)

/-- The part of `setApproved` that `set` does with permission checks: it ends when the data is written,
before the storage is settled. -/
def writeApproved (key : String) (value : Json) : Exec Contract := do
  c.assertLive
  let (c, _, account) ← c.internalUnwrapAccountOrCreate host env key env.attachedDeposit
  let node ← c.internalUnwrapNode account.nodeId
  let _ ← account.storageTracker.start (host.storageUsage c)
  recursiveSet env c node value true ∅

/-- The view tells that the caller, or the signer's key, may write at a path. -/
def ViewGrants (path : List String) : Prop :=
  c.isWritePermissionGranted (some env.predecessorAccountId) none (joinPath path) = .ok true ∨
    c.isWritePermissionGranted none (some env.signerAccountPk) (joinPath path) = .ok true

end Contract

/-! ## Paths that meet nodes -/

section Paths

variable {F G : Forest String NodeValue} {W W' : Finset NodeId} {n : NodeId} {key : String}
  {path : List String} {value : Json} {obj : List (String × Json)}

theorem through_of_mem (h : n ∈ W) : ∀ path, Through F W n path
  | [] => h
  | _ :: _ => .inl h

theorem through_cons_iff (h : n ∉ W) : Through F W n (key :: path) ↔
    ∃ m, F.entry n key = some (.node m) ∧ Through F W m path :=
  or_iff_right h

theorem through_union_iff : Through F (W ∪ W') n path ↔ Through F W n path ∨ Through F W' n path := by
  induction path generalizing n with
  | nil => exact Finset.mem_union
  | cons key path ih =>
    simp only [Through, Finset.mem_union, ih]
    constructor
    · rintro ((h | h) | ⟨m, hentry, h | h⟩)
      · exact .inl (.inl h)
      · exact .inr (.inl h)
      · exact .inl (.inr ⟨m, hentry, h⟩)
      · exact .inr (.inr ⟨m, hentry, h⟩)
    · rintro ((h | ⟨m, hentry, h⟩) | (h | ⟨m, hentry, h⟩))
      · exact .inl (.inl h)
      · exact .inr ⟨m, hentry, .inl h⟩
      · exact .inl (.inr h)
      · exact .inr ⟨m, hentry, .inr h⟩

theorem not_through_empty : ¬ Through F ∅ n path := by
  induction path generalizing n with
  | nil => exact Finset.notMem_empty n
  | cons key path ih =>
    rintro (h | ⟨m, -, h⟩)
    · exact Finset.notMem_empty n h
    · exact ih h

/-- Data in which no object is empty has a value. -/
theorem ValidData.exists_leafPath (h : ValidData value) : ∃ path, LeafPath value path := by
  induction h with
  | leaf hleaf => exact ⟨[], .leaf hleaf⟩
  | @object obj hne hkey hfield ih =>
    obtain ⟨⟨key, value⟩, hmem⟩ := List.exists_mem_of_ne_nil obj hne
    obtain ⟨path, hpath⟩ := ih key value hmem
    exact ⟨key :: path, .field hmem hpath⟩

theorem LeafPath.isKeyValid (h : LeafPath value path) (hvalid : ValidData value) :
    ∀ key ∈ path, isKeyValid key = true := by
  induction h with
  | leaf => exact fun key hkey => absurd hkey List.not_mem_nil
  | field hmem h ih =>
    cases hvalid with
    | leaf hleaf => cases hleaf
    | object hne hkey hfield =>
      rw [List.forall_mem_cons]
      exact ⟨hkey _ _ hmem, ih (hfield _ _ hmem)⟩

end Paths

/-! ## Nodes where nothing is approved -/

/-- Some nodes lie below no granted one: from outside of them no node leads to them, and a node of them
leads to another one of them or to a granted node. -/
structure Ungranted (W : Finset NodeId) (S : NodeId → Prop) (c : Contract) : Prop where
  apart : Apart S c
  pos : ∀ m, S m → m ≠ 0
  not_mem : ∀ m, S m → m ∉ W
  child : ∀ m k t, S m → c.forest.entry m k = some (.node t) → S t ∨ t ∈ W

/-- The entries of some nodes stay. -/
structure KeepsEntries (S : NodeId → Prop) (c c' : Contract) : Prop where
  apart : Apart S c'
  entry : ∀ m, S m → c'.forest.entry m = c.forest.entry m

section Ungranted

variable {env : Env} {W : Finset NodeId} {S : NodeId → Prop} {c c' c'' : Contract} {node node' : Node}
  {n : NodeId} {path : List String}

theorem KeepsEntries.trans (h : KeepsEntries S c c') (h' : KeepsEntries S c' c'') :
    KeepsEntries S c c'' :=
  ⟨h'.apart, fun m hm => (h'.entry m hm).trans (h.entry m hm)⟩

theorem Ungranted.keeps (h : Ungranted W S c) (hkeeps : KeepsEntries S c c') : Ungranted W S c' := by
  refine ⟨hkeeps.apart, h.pos, h.not_mem, fun m k t hm hentry => ?_⟩
  rw [hkeeps.entry m hm] at hentry
  exact h.child m k t hm hentry

theorem Keeping.keepsEntries (h : Keeping S c c') (hpos : ∀ m, S m → m ≠ 0) : KeepsEntries S c c' :=
  ⟨h.apart, fun m hm => forest_entry_of_kept (hpos m hm) (h.kept m hm)⟩

/-- What a path meets depends on the entries of the nodes below no granted one. -/
theorem Ungranted.through_iff (h : Ungranted W S c) (hkeeps : KeepsEntries S c c')
    (hn : S n ∨ n ∈ W) : Through c'.forest W n path ↔ Through c.forest W n path := by
  induction path generalizing n with
  | nil => exact Iff.rfl
  | cons key path ih =>
    rcases hn with hn | hn
    · rw [through_cons_iff (h.not_mem n hn), through_cons_iff (h.not_mem n hn), hkeeps.entry n hn]
      exact exists_congr fun m => and_congr_right fun hentry => ih (h.child n key m hn hentry)
    · exact iff_of_true (through_of_mem hn _) (through_of_mem hn _)

/-- The nodes of an account, as far as they lie below no granted one. -/
theorem Contract.Sound.ungranted (h : c.Sound) {a : AccountId}
    (ha : c.rootNode.children.get a = some (.node n)) :
    Ungranted W (fun m => c.forest.Below n m ∧ ∀ w ∈ W, ¬ c.forest.Below w m) c := by
  have hapart := h.apart ha
  refine ⟨⟨fun m hm => hapart.lt_count m hm.1, fun m node hm hget => ⟨?_, fun k t hchild ht => ?_⟩⟩,
    fun m hm => ?_, fun m hm hmem => hm.2 m hmem (.refl _ m), fun m k t hm hentry => ?_⟩
  · rw [(h.entry_of_stored hget).2.1]
    exact hm
  · have hentry : c.forest.entry m k = some (.node t) := ((h.entry_of_stored hget).2.2 k).trans hchild
    have hbelow : c.forest.Below n m := by
      by_contra hnot
      exact (hapart.closed m _ hnot hget).children k t hchild ht.1
    exact hm ⟨hbelow, fun w hw hwm => ht.2 w hw (hwm.tail ⟨k, _, hentry, rfl⟩)⟩
  · have hpos : 0 < n := h.grown.lt_target 0 a _ n ha rfl
    exact (hpos.trans_le (h.grown.le_of_below hm.1)).ne'
  · refine or_iff_not_imp_right.mpr fun ht => ⟨hm.1.tail ⟨k, _, hentry, rfl⟩, fun w hw hwt => ?_⟩
    rcases Relation.ReflTransGen.cases_tail hwt with rfl | ⟨m', hm', k', v, hentry', htarget⟩
    · exact ht hw
    · obtain ⟨rfl, -⟩ := h.grown.unique m k _ m' k' _ t hentry rfl hentry' htarget
      exact hm.2 w hw hm'

/-! ## Writing with checks -/

/-- With an approval it does not matter what is granted. -/
theorem recursiveSet_of_approved {ok : Bool} (value : Json)
    (hok : (ok || decide (node.nodeId ∈ W)) = true) :
    Contract.recursiveSet env c node value ok W = Contract.recursiveSet env c node value true W := by
  cases value <;> simp only [Contract.recursiveSet, hok, Bool.true_or]

mutual

/-- A write that is not approved from the start keeps the entries of the nodes below no granted one. -/
theorem keepsEntries_of_recursiveSet (value : Json) {c c' : Contract} {node : Node} {n : NodeId}
    (hungr : Ungranted W S c) (hn : S n ∨ n ∈ W) (hnode : c.internalUnwrapNode n = .ok node)
    (h : Contract.recursiveSet env c node value false W = .ok c') : KeepsEntries S c c' := by
  have hid := nodeId_of_internalUnwrapNode hnode
  rcases hn with hn | hn
  rotate_left
  · have hapart := hungr.apart.closed n node (fun hS => hungr.not_mem n hS hn)
      (internalUnwrapNode_eq_ok_iff.mp hnode)
    exact (kept_of_recursiveSet value hungr.apart hapart h).keepsEntries hungr.pos
  have hdenied : (false || decide (node.nodeId ∈ W)) = false := by
    rw [hid, Bool.false_or]
    exact decide_eq_false (hungr.not_mem n hn)
  match value, h with
  | .object obj, h =>
    obtain ⟨c₁, node₁, hfields, rfl⟩ := recursiveSet_object h
    have hentries : c.forest.entry n = node.children.get :=
      funext (Contract.holds_of_internalUnwrapNode (hungr.pos n hn) hnode)
    rw [hdenied] at hfields
    obtain ⟨rfl, hkeeps⟩ := keepsEntries_of_setFields obj hungr hn hentries hfields
    refine ⟨⟨hkeeps.apart.lt_count, fun m node' hm hget => ?_⟩, fun m hm => ?_⟩
    · rw [internalGetNode_internalSetNode, if_neg] at hget
      · exact hkeeps.apart.closed m node' hm hget
      · rintro rfl
        exact hm (hid ▸ hn)
    · by_cases heq : m = node₁.nodeId
      · subst heq
        rw [Contract.forest_internalSetNode_self (hungr.pos _ hm), hid, hentries]
      · rw [Contract.forest_internalSetNode_of_ne heq, hkeeps.entry m hm]
  | .string s, h | .null, h =>
    obtain ⟨hok, -⟩ := recursiveSet_leaf rfl h
    cases hdenied.symm.trans hok
  | .bool _, h | .number _ _, h | .array _, h => cases h

theorem keepsEntries_of_setFields (obj : List (String × Json)) {c c' : Contract} {node node' : Node}
    {n : NodeId} (hungr : Ungranted W S c) (hn : S n) (hentries : c.forest.entry n = node.children.get)
    (h : Contract.setFields env c node obj false W = .ok (c', node')) :
    node' = node ∧ KeepsEntries S c c' := by
  match obj, h with
  | [], h =>
    cases h
    exact ⟨rfl, hungr.apart, fun _ _ => rfl⟩
  | (key, value) :: obj, h =>
    obtain ⟨-, c₁, node₁, hfield, h⟩ := setFields_cons h
    cases hfield with
    | leaf hok hv hfree => cases hok
    | fresh hok hleaf hkey hcount hchild hset => cases hok
    | @into t child c₁ hentry hchild hset =>
      have hfirst := keepsEntries_of_recursiveSet value hungr
        (hungr.child n key t hn (by rw [hentries, hentry])) hchild hset
      have hrest := keepsEntries_of_setFields obj (hungr.keeps hfirst) hn
        ((hfirst.entry n hn).trans hentries) h
      exact ⟨hrest.1, hfirst.trans hrest.2⟩

end

mutual

/-- A write that is approved from the start does not look at what is granted. -/
theorem recursiveSet_approved (value : Json) (c : Contract) (node : Node) :
    Contract.recursiveSet env c node value true W = Contract.recursiveSet env c node value true ∅ := by
  match value with
  | .object obj => simp only [Contract.recursiveSet, Bool.true_or, setFields_approved obj c node]
  | .string _ | .null | .bool _ | .number _ _ | .array _ =>
    simp only [Contract.recursiveSet, Bool.true_or]

theorem setFields_approved (obj : List (String × Json)) (c : Contract) (node : Node) :
    Contract.setFields env c node obj true W = Contract.setFields env c node obj true ∅ := by
  match obj with
  | [] => simp only [Contract.setFields]
  | (key, value) :: obj =>
    have hvalue := fun c node => recursiveSet_approved value c node
    have hrest := fun c node => setFields_approved obj c node
    simp only [Contract.setFields, hvalue, hrest]

end

mutual

/-- **The checks of a write** pass if each path of the data meets a granted node. -/
theorem guards_of_recursiveSet (value : Json) {c : Contract} {node : Node} {n : NodeId}
    (hvalid : ValidData value) (hungr : Ungranted W S c) (hn : S n ∨ n ∈ W)
    (hnode : c.internalUnwrapNode n = .ok node) :
    Guards ERR_PERMISSION_DENIED (∀ path, LeafPath value path → Through c.forest W n path)
      (Contract.recursiveSet env c node value false W)
      (Contract.recursiveSet env c node value true ∅) := by
  have hid := nodeId_of_internalUnwrapNode hnode
  rcases hn with hn | hn
  -- Below a granted node every check passes, as with the permission from the start.
  rotate_left
  · refine .of_eq (fun path _ => through_of_mem hn path) ?_
    rw [recursiveSet_of_approved value (by rw [hid, decide_eq_true hn, Bool.or_true]),
      recursiveSet_approved]
  have hdenied : (false || decide (node.nodeId ∈ W)) = false := by
    rw [hid, Bool.false_or]
    exact decide_eq_false (hungr.not_mem n hn)
  have hnot : value.isObject = false → ¬ ∀ path, LeafPath value path → Through c.forest W n path :=
    fun hleaf hmeets => hungr.not_mem n hn (hmeets [] (.leaf hleaf))
  match value, hvalid, hnot with
  | .object obj, .object hne hkey hfield, _ =>
    have hentries : c.forest.entry n = node.children.get :=
      funext (Contract.holds_of_internalUnwrapNode (hungr.pos n hn) hnode)
    have hfields := guards_of_setFields obj (fun field => hfield field.1 field.2) hungr hn hentries
    simp only [Contract.recursiveSet, hdenied, Bool.true_or]
    refine (hfields.last _).congr ⟨fun hmeets path hpath => ?_, ?_⟩
    · cases hpath with
      | leaf hleaf => cases hleaf
      | field hmem hpath => exact hmeets _ hmem _ hpath
    · exact fun hmeets field hmem path hpath => hmeets _ (.field hmem hpath)
  | .string s, _, hnot | .null, _, hnot =>
    simp only [Contract.recursiveSet, hdenied]
    exact .of_denied (hnot rfl) _
  | .bool _, _, _ | .number _ _, _, _ | .array _, _, _ =>
    simp only [Contract.recursiveSet]
    exact .error

theorem guards_of_setFields (obj : List (String × Json)) {c : Contract} {node : Node} {n : NodeId}
    (hvalid : ∀ field ∈ obj, ValidData field.2) (hungr : Ungranted W S c) (hn : S n)
    (hentries : c.forest.entry n = node.children.get) :
    Guards ERR_PERMISSION_DENIED
      (∀ field ∈ obj, ∀ path, LeafPath field.2 path → Through c.forest W n (field.1 :: path))
      (Contract.setFields env c node obj false W) (Contract.setFields env c node obj true ∅) := by
  match obj, hvalid with
  | [], _ =>
    simp only [Contract.setFields]
    exact .of_eq (fun _ hmem => absurd hmem List.not_mem_nil) rfl
  | (key, value) :: obj, hvalid =>
    rw [List.forall_mem_cons] at hvalid
    have hmissing : (∀ t, node.children.get key ≠ some (.node t)) →
        ¬ ∀ path, LeafPath value path → Through c.forest W n (key :: path) := by
      intro hfree hmeets
      obtain ⟨path, hpath⟩ := hvalid.1.exists_leafPath
      obtain ⟨t, ht, -⟩ := (through_cons_iff (hungr.not_mem n hn)).mp (hmeets path hpath)
      rw [hentries] at ht
      exact hfree t ht
    rw [List.forall_mem_cons]
    simp only [Contract.setFields]
    refine .step _ fun _ _ => ?_
    cases hget : node.children.get key with
    | none =>
      refine .bind ?_ fun _ h => ?_
      · exact .of_denied (hmissing (by simp [hget])) _
      · cases h
    | some nodeValue =>
      cases nodeValue with
      | value v | deletedEntry blockHeight =>
        refine .bind ?_ fun _ h => ?_
        · exact .of_denied (hmissing (by simp [hget])) _
        · cases h
      | node t =>
        have hentry : c.forest.entry n key = some (.node t) := by rw [hentries, hget]
        have hchild' := hungr.child n key t hn hentry
        have hmeets : ∀ path, Through c.forest W n (key :: path) ↔ Through c.forest W t path := by
          intro path
          rw [through_cons_iff (hungr.not_mem n hn)]
          refine ⟨fun ⟨t', hentry', h⟩ => ?_, fun h => ⟨t, hentry, h⟩⟩
          cases hentry.symm.trans hentry'
          exact h
        simp only [hmeets]
        refine .bind (.step _ fun child hchild => .last ?_ _) fun r hr => ?_
        · exact guards_of_recursiveSet value hvalid.1 hungr hchild' hchild
        · simp only [bind_eq_ok, pure_eq_ok] at hr
          obtain ⟨child, hchild, c₁, hset, rfl⟩ := hr
          have hkeeps := keepsEntries_of_recursiveSet value hungr hchild' hchild hset
          -- What was written before does not change what the other paths meet.
          refine (guards_of_setFields obj hvalid.2 (hungr.keeps hkeeps) hn
            ((hkeeps.entry n hn).trans hentries)).congr ?_
          simp only [hungr.through_iff hkeeps (.inl hn)]

end

end Ungranted

/-! ## What the view tells -/

section View

variable {env : Env} {c : Contract} {a : AccountId} {n : NodeId} {node : Node} {path : List String}
  {nodeIds : Finset NodeId} {account : Account}

/-- The account of a key of the root. -/
theorem Contract.Sound.exists_internalGetAccount (h : c.Sound)
    (ha : c.rootNode.children.get a = some (.node n)) :
    ∃ account, c.internalGetAccount a = .ok (some account) ∧ account.nodeId = n := by
  obtain ⟨-, n', hn', hmem⟩ := h.root a _ ha
  cases hn'
  obtain ⟨r, hr⟩ := Option.isSome_iff_exists.mp (AList.lookup_isSome.mpr hmem)
  obtain ⟨b, rfl⟩ := h.records n r hr
  exact ⟨_, internalGetAccount_eq_some.mpr ⟨n, ha, accountAt_of_stored hr⟩, rfl⟩

/-- The walk of the view looks for a granted node below the one where it starts. -/
theorem meetsGranted_iff (hsound : c.Sound) (hnode : c.Holds n node) :
    n ∈ nodeIds ∨ c.meetsGranted nodeIds node path = .ok true ↔ Through c.forest nodeIds n path := by
  induction path generalizing n node with
  | nil =>
    have hend : ¬ c.meetsGranted nodeIds node [] = .ok true := by
      rw [Contract.meetsGranted]
      exact fun h => by cases h
    exact or_iff_left hend
  | cons key path ih =>
    refine or_congr_right ?_
    rw [hnode key, Contract.meetsGranted]
    cases hget : node.children.get key with
    | none =>
      refine iff_of_false (fun h => by cases h) ?_
      rintro ⟨m, hm, -⟩
      cases hm
    | some nodeValue =>
      cases nodeValue with
      | value v | deletedEntry blockHeight =>
        refine iff_of_false (fun h => by cases h) ?_
        rintro ⟨m, hm, -⟩
        cases hm
      | node m =>
        obtain ⟨child, hchild, hholds, -, -⟩ := hsound.exists_child hnode hget
        have hrec : (∃ t, some (NodeValue.node m) = some (.node t) ∧ Through c.forest nodeIds t path) ↔
            Through c.forest nodeIds m path := by
          constructor
          · rintro ⟨t, ht, hmeets⟩
            cases ht
            exact hmeets
          · exact fun hmeets => ⟨m, rfl, hmeets⟩
        rw [hrec, ← ih hholds]
        dsimp only
        split
        · next hm => exact iff_of_true rfl (.inl hm)
        · next hm => rw [hchild, ok_bind, or_iff_right hm]

/-- **The view** for one permission key tells whether the path meets a node that is granted to it. -/
theorem isWritePermissionGranted_iff (hsound : c.Sound)
    (ha : c.rootNode.children.get a = some (.node n)) {predecessorId : Option AccountId}
    {publicKey : Option PublicKey} {permissionKey : PermissionKey}
    (hkey : Contract.permissionKeyOf predecessorId publicKey = .ok permissionKey) {key : String}
    (hpath : splitPath key = a :: path) :
    c.isWritePermissionGranted predecessorId publicKey key = .ok true ↔
      ∃ nodeIds, (c.permissionsOf n).get permissionKey = some (.granted nodeIds) ∧
        Through c.forest nodeIds n path := by
  obtain ⟨account, haccount, rfl⟩ := hsound.exists_internalGetAccount ha
  obtain ⟨node, hnode, hholds, -, -⟩ := hsound.exists_child c.holds_rootNode ha
  simp only [Contract.isWritePermissionGranted, hkey, ok_bind, hpath, haccount]
  cases hget : (c.permissionsOf account.nodeId).get permissionKey with
  | none =>
    refine iff_of_false (fun h => by cases h) ?_
    rintro ⟨nodeIds, hsome, -⟩
    cases hsome
  | some permission =>
    obtain ⟨nodeIds⟩ := permission
    have hrec : (∃ ids, some (Permission.granted nodeIds) = some (.granted ids) ∧
        Through c.forest ids account.nodeId path) ↔ Through c.forest nodeIds account.nodeId path := by
      constructor
      · rintro ⟨ids, hids, hmeets⟩
        cases hids
        exact hmeets
      · exact fun hmeets => ⟨nodeIds, rfl, hmeets⟩
    rw [hrec, ← meetsGranted_iff hsound hholds]
    dsimp only
    split
    · next hmem => exact iff_of_true rfl (.inl hmem)
    · next hmem => rw [hnode, ok_bind, or_iff_right hmem]

/-- The view for the caller and the signer's key tells whether the path meets a node that the account
lets the call write below. -/
theorem viewGrants_iff (hsound : c.Sound) (ha : c.rootNode.children.get a = some (.node account.nodeId))
    (hpath : ∀ key ∈ path, isKeyValid key = true) : c.ViewGrants env (a :: path) ↔
      Through c.forest (c.internalGetWriteableNodeIds env account) account.nodeId path := by
  have hsplit : splitPath (joinPath (a :: path)) = a :: path := by
    refine splitPath_joinPath (List.cons_ne_nil a path) ?_
    rw [List.forall_mem_cons]
    exact ⟨separator_not_mem_of_isValidAccountId (hsound.root a _ ha).1,
      fun key hkey => separator_not_mem_of_isKeyValid (hpath key hkey)⟩
  rw [Contract.ViewGrants, isWritePermissionGranted_iff hsound ha rfl hsplit,
    isWritePermissionGranted_iff hsound ha rfl hsplit, Contract.internalGetWriteableNodeIds,
    through_union_iff]
  refine or_congr ?_ ?_
  all_goals
    dsimp only
    split
    · next nodeIds hget => simp [hget]
    · next hget => simp [hget, not_through_empty]

/-- The view tells nothing about an account that does not exist. -/
theorem not_viewGrants (ha : c.rootNode.children.get a = none)
    (hsplit : splitPath (joinPath (a :: path)) = a :: path) : ¬ c.ViewGrants env (a :: path) := by
  have hget := internalGetAccount_eq_none.mpr ha
  rintro (h | h)
  all_goals
    simp only [Contract.isWritePermissionGranted, Contract.permissionKeyOf, bind_eq_ok, hsplit, hget,
      ok_bind] at h
    obtain ⟨_, -, h⟩ := h
    cases h

end View

/-! ## The data of an account -/

section Accounts

variable {host : Host} {env : Env} {c c' : Contract} {a : AccountId} {transfers : List Transfer}
  {account : Account} {deposit : ℕ} {value : Json}

/-- The account of the data is there, or is opened without permissions. -/
theorem unwrapped_or_opened (h : c.internalUnwrapAccountOrCreate host env a deposit =
    .ok (c', transfers, account)) :
    (c' = c ∧ ∃ n, c.rootNode.children.get a = some (.node n)) ∨
      c.rootNode.children.get a = none ∧ c'.permissions = c.permissions ∧
        c'.rootNode.children.get a = some (.node c.nodeCount) := by
  rcases internalUnwrapAccountOrCreate_cases h with hkept | ⟨hnew, _, _, hsaves⟩
  · exact .inl hkept
  · refine .inr ⟨hnew, ?_, ?_⟩
    · rw [hsaves.frame]
      rfl
    · rw [hsaves.frame]
      exact UnorderedMap.get_insert_self ..

/-- A path of the data meets a node that the account lets the call write below, once it is opened, if
the view tells so before. -/
theorem through_iff_viewGrants (hsound : c.Sound) (hsound' : c'.Sound)
    (h : c.internalUnwrapAccountOrCreate host env a deposit = .ok (c', transfers, account))
    (ha : c'.rootNode.children.get a = some (.node account.nodeId)) {path : List String}
    (hpath : ∀ key ∈ path, isKeyValid key = true) :
    Through c'.forest (c'.internalGetWriteableNodeIds env account) account.nodeId path ↔
      c.ViewGrants env (a :: path) := by
  rcases unwrapped_or_opened h with ⟨rfl, -⟩ | ⟨hnone, hpermissions, hopened⟩
  · exact (viewGrants_iff hsound ha hpath).symm
  · have hwriteable : c'.internalGetWriteableNodeIds env account = ∅ := by
      refine Finset.eq_empty_of_forall_notMem fun m hm => ?_
      obtain ⟨key, nodeIds, -, hget, -⟩ := granted_of_writeable hm
      have hid : account.nodeId = c.nodeCount := by
        have heq := ha.symm.trans hopened
        injection heq with heq
        injection heq
      have hnew : c.permissions.lookup c.nodeCount = none := AList.lookup_eq_none.mpr fun hmem =>
        Nat.lt_irrefl _ (hsound.account_lt_count (hsound.granters _ hmem)).2
      rw [Contract.permissionsOf, hpermissions, hid, hnew] at hget
      cases hget
    rw [hwriteable]
    refine iff_of_false not_through_empty (not_viewGrants hnone ?_)
    refine splitPath_joinPath (List.cons_ne_nil a path) ?_
    rw [List.forall_mem_cons]
    exact ⟨separator_not_mem_of_isValidAccountId (hsound'.root a _ ha).1,
      fun key hkey => separator_not_mem_of_isKeyValid (hpath key hkey)⟩

/-- The checks of writing below the node of an account, once it is opened. -/
theorem guards_of_write {c₁ : Contract} {node : Node} (hsound : c.Sound) (hvalid : ValidData value)
    (hcreate : c.internalUnwrapAccountOrCreate host env a deposit = .ok (c₁, transfers, account))
    (hnode : c₁.internalUnwrapNode account.nodeId = .ok node) : Guards ERR_PERMISSION_DENIED
      (∀ path, LeafPath value path → c.ViewGrants env (a :: path))
      (Contract.recursiveSet env c₁ node value false (c₁.internalGetWriteableNodeIds env account))
      (Contract.recursiveSet env c₁ node value true ∅) := by
  obtain ⟨-, credited, rest, n, record, balance, hmoves, -, ha, -, -, rfl⟩ :=
    moves_of_internalUnwrapAccountOrCreate (fun _ => True) (fun _ => True) hsound hcreate
  have hsound₁ := hmoves.sound hsound
  have hn : (c₁.forest.Below n n ∧ ∀ w ∈ c₁.internalGetWriteableNodeIds env
      { record.loaded n with storageBalance := balance }, ¬ c₁.forest.Below w n) ∨
        n ∈ c₁.internalGetWriteableNodeIds env { record.loaded n with storageBalance := balance } := by
    refine or_iff_not_imp_right.mpr fun hnot => ⟨.refl _ n, fun w hw hwn => ?_⟩
    obtain ⟨key, nodeIds, -, hget, hmem⟩ := granted_of_writeable hw
    have hnw := hsound₁.permissions n key nodeIds hget w hmem
    have heq := (hsound₁.grown.le_of_below hnw).antisymm (hsound₁.grown.le_of_below hwn)
    exact hnot (heq ▸ hw)
  refine (guards_of_recursiveSet value hvalid (hsound₁.ungranted ha) hn hnode).congr ?_
  refine forall₂_congr fun path hpath => ?_
  exact through_iff_viewGrants hsound hsound₁ hcreate ha (hpath.isKeyValid hvalid)

/-- The checks of writing the data of an account. -/
theorem guards_of_setAccount (hsound : c.Sound) (hother : a ≠ env.predecessorAccountId)
    (hvalid : ValidData value) : Guards ERR_PERMISSION_DENIED
      (∀ path, LeafPath value path → c.ViewGrants env (a :: path))
      (c.setAccount host env a value deposit) (c.setAccountApproved host env a value deposit) := by
  simp only [Contract.setAccount, Contract.setAccountApproved, hother, decide_false, Bool.false_eq_true,
    if_false]
  refine .step _ fun created hcreate => ?_
  refine .step _ fun node hnode => .step _ fun tracker _ => .last ?_ _
  exact guards_of_write hsound hvalid hcreate hnode

/-- `set` with the data of one account. -/
theorem set_singleton (options : Option SetOptions) : c.set host env (.object [(a, value)]) options =
    c.assertLive >>= fun _ => c.setAccount host env a value env.attachedDeposit >>= fun r =>
      r.1.refundUnused host env (options.getD { refundUnusedDeposit := none }) a env.attachedDeposit >>=
        fun r' => pure (r'.1, r.2 ++ r'.2) := by
  have hzero : ∀ (msg : String) [Decidable True], ensure True msg = .ok () :=
    fun _ _ => ensure_of trivial
  simp only [Contract.set, Json.asObject, expect, ok_bind, Contract.setAccounts, bind_assoc, pure_bind,
    hzero, List.append_nil]

/-- The checks of `set` with the data of one account. -/
theorem guards_of_set (hsound : c.Sound) (hother : a ≠ env.predecessorAccountId)
    (hvalid : ValidData value) (options : Option SetOptions) : Guards ERR_PERMISSION_DENIED
      (∀ path, LeafPath value path → c.ViewGrants env (a :: path))
      (c.set host env (.object [(a, value)]) options) (c.setApproved host env a value options) := by
  rw [set_singleton, Contract.setApproved]
  refine .step _ fun _ _ => ?_
  exact (guards_of_setAccount hsound hother hvalid).last _

/-- Data that is not granted is denied where it is written, whatever would become of it later. -/
theorem set_eq_denied (hsound : c.Sound) (hother : a ≠ env.predecessorAccountId)
    (hvalid : ValidData value) (options : Option SetOptions)
    (hwrite : c.writeApproved host env a value = .ok c')
    (hnot : ¬ ∀ path, LeafPath value path → c.ViewGrants env (a :: path)) :
    c.set host env (.object [(a, value)]) options = .error ERR_PERMISSION_DENIED := by
  simp only [Contract.writeApproved, bind_eq_ok] at hwrite
  obtain ⟨_, hlive, ⟨c₁, transfers, account⟩, hcreate, node, hnode, tracker, hstart, hwrite⟩ := hwrite
  have hdenied : Contract.recursiveSet env c₁ node value false
      (c₁.internalGetWriteableNodeIds env account) = .error ERR_PERMISSION_DENIED :=
    ((guards_of_write hsound hvalid hcreate hnode).iff_of_ok hwrite).2.mpr hnot
  rw [set_singleton, hlive, ok_bind]
  simp only [Contract.setAccount, hother, decide_false, Bool.false_eq_true, if_false, hcreate, hnode,
    hstart, ok_bind, hdenied]
  rfl

/-- **The view agrees with the checks.** In every contract that calls lead to, with data for an account
other than the caller's: if the view grants each path of the data to the caller or to the signer's key,
`set` is the write without permission checks, and otherwise it is denied, as soon as the data could be
written. Where the write without checks returns, `set` thus returns the same or is denied, and where it
panics, `set` panics in the same way, or is denied and some path is not granted. -/
theorem set_agrees_with_view (host : Host) (start env : Env) (calls : List Call) (c : Contract)
    (hc : c = (system host).run (.new start) calls) (a : AccountId) (value : Json)
    (options : Option SetOptions) (hother : a ≠ env.predecessorAccountId) (hvalid : ValidData value) :
    ((∀ path, LeafPath value path → c.ViewGrants env (a :: path)) →
      c.set host env (.object [(a, value)]) options = c.setApproved host env a value options) ∧
    (∀ c', c.writeApproved host env a value = .ok c' →
      (¬ ∀ path, LeafPath value path → c.ViewGrants env (a :: path)) →
        c.set host env (.object [(a, value)]) options = .error ERR_PERMISSION_DENIED) ∧
    (∀ r, c.setApproved host env a value options = .ok r →
      (c.set host env (.object [(a, value)]) options = .ok r ↔
        ∀ path, LeafPath value path → c.ViewGrants env (a :: path)) ∧
      (c.set host env (.object [(a, value)]) options = .error ERR_PERMISSION_DENIED ↔
        ¬ ∀ path, LeafPath value path → c.ViewGrants env (a :: path))) ∧
    ∀ msg, c.setApproved host env a value options = .error msg →
      c.set host env (.object [(a, value)]) options = .error msg ∨
        c.set host env (.object [(a, value)]) options = .error ERR_PERMISSION_DENIED ∧
          ¬ ∀ path, LeafPath value path → c.ViewGrants env (a :: path) := by
  have hsound : c.Sound := hc ▸ sound_run host start calls
  have hguards : Guards ERR_PERMISSION_DENIED _ (c.set host env (.object [(a, value)]) options)
      (c.setApproved host env a value options) := guards_of_set hsound hother hvalid options
  refine ⟨hguards.passed, ?_, ?_, ?_⟩
  · intro c' hwrite hnot
    exact set_eq_denied hsound hother hvalid options hwrite hnot
  · intro r hr
    exact hguards.iff_of_ok hr
  · intro msg hmsg
    exact hguards.of_error hmsg

end Accounts

/-! ## Data below a granted node -/

/-- Data for the account that has granted a node. -/
def sampleData : Json := .object [("app", .object [("x", .string "y")])]

theorem valid_sampleData : ValidData sampleData := by
  have hinner : ValidData (.object [("x", .string "y")]) := by
    refine .object (List.cons_ne_nil _ _) (fun key value hmem => ?_) fun key value hmem => ?_
    · cases List.mem_singleton.mp hmem
      rfl
    · cases List.mem_singleton.mp hmem
      exact .leaf rfl
  refine .object (List.cons_ne_nil _ _) (fun key value hmem => ?_) fun key value hmem => ?_
  · cases List.mem_singleton.mp hmem
    rfl
  · cases List.mem_singleton.mp hmem
    exact hinner

theorem set_agrees_with_view_sampleData :
    let c := (system sampleHost).run (.new (sampleEnv "social" 0 (Nat.zero_le _))) sampleCalls
    ∃ r, c.setApproved sampleHost sampleSet.env "alice" sampleData none = .ok r ∧
      (c.set sampleHost sampleSet.env (.object [("alice", sampleData)]) none = .ok r ↔
        ∀ path, LeafPath sampleData path → c.ViewGrants sampleSet.env ("alice" :: path)) ∧
      (c.set sampleHost sampleSet.env (.object [("alice", sampleData)]) none =
          .error ERR_PERMISSION_DENIED ↔
        ¬ ∀ path, LeafPath sampleData path → c.ViewGrants sampleSet.env ("alice" :: path)) := by
  intro c
  obtain ⟨r, hr⟩ : ∃ r, c.setApproved sampleHost sampleSet.env "alice" sampleData none = .ok r :=
    exists_of_isOk (by decide +kernel)
  exact ⟨r, hr, (set_agrees_with_view sampleHost (sampleEnv "social" 0 (Nat.zero_le _)) sampleSet.env
    sampleCalls _ rfl "alice" sampleData none (by decide) valid_sampleData).2.2.1 r hr⟩

end UncContracts.Social
