import UncContracts.Foundation.ForestReading
import UncContracts.Social.EmptyKeys

/-!
# Writing data is a pointwise update

A store is read as a map from paths to values. The value of a node is kept under the empty key, so
that a path names the same value with the empty key after it. A `set` puts the leaves of its data at
their paths and leaves all other values, also those that were leaves and become nodes.

## Main definitions

* `valueAt`: the value of a store at a path
* `leafAt`: the leaf of a JSON value at a path

## Main results

* `recursiveSet_updates`: writing a JSON value updates what is read below a node
* `set_updates`: a `set` is a pointwise update
-/

namespace UncContracts.Social

open Foundation HasTarget

/-- The text of an entry that is a value. -/
def NodeValue.text : NodeValue → Option String
  | .value v => some v.value
  | _ => none

/-- The value of a store at a path from a node. -/
def valueAt (F : Forest String NodeValue) (n : NodeId) (path : List String) : Option String :=
  (F.read EMPTY_KEY n path).bind NodeValue.text

mutual

/-- The leaf of a JSON value at a path: a string, or `null` for no value. -/
def leafAt : Json → List String → Option (Option String)
  | .string s, path => if ∀ k ∈ path, k = EMPTY_KEY then some (some s) else none
  | .null, path => if ∀ k ∈ path, k = EMPTY_KEY then some none else none
  | .object fields, path => leafAtFields fields path
  | _, _ => none

/-- The leaf of the fields of an object at a path. The keys of an object are distinct. -/
def leafAtFields : List (String × Json) → List String → Option (Option String)
  | [], _ => none
  | (key, value) :: fields, path =>
    (leafAtFields fields path).or
      (match path with
      | [] => if key = EMPTY_KEY then leafAt value [] else none
      | k :: rest => if k = key then leafAt value rest else none)

end

/-- The leaf of a single field at a path. -/
def fieldLeafAt (key : String) (value : Json) (path : List String) : Option (Option String) :=
  leafAtFields [(key, value)] path

section Reading

variable {F G : Forest String NodeValue} {n : NodeId} {key k : String} {value : Json}
  {path : List String} {fields : List (String × Json)}

theorem leafAtFields_cons : leafAtFields ((key, value) :: fields) path =
    (leafAtFields fields path).or (fieldLeafAt key value path) := by
  simp only [fieldLeafAt, leafAtFields, Option.none_or]

theorem fieldLeafAt_cons_self : fieldLeafAt key value (key :: path) = leafAt value path := by
  simp [fieldLeafAt, leafAtFields]

theorem fieldLeafAt_of_ne (hpath : path.head? ≠ some key) (hkey : path = [] → key ≠ EMPTY_KEY) :
    fieldLeafAt key value path = none := by
  cases path with
  | nil => simp [fieldLeafAt, leafAtFields, hkey rfl]
  | cons k path =>
    have hne : k ≠ key := fun h => hpath (congrArg some h)
    simp [fieldLeafAt, leafAtFields, hne]

theorem valueAt_of_read (h : G.read EMPTY_KEY n path = F.read EMPTY_KEY n path) :
    valueAt G n path = valueAt F n path := congrArg (·.bind NodeValue.text) h

/-- An update with two fields is the update with the second one after the first. -/
theorem getD_leafAtFields_cons (o : Option String) :
    (leafAtFields ((key, value) :: fields) path).getD o =
      (leafAtFields fields path).getD ((fieldLeafAt key value path).getD o) := by
  rw [leafAtFields_cons]
  cases leafAtFields fields path <;> rfl

end Reading

/-! ## Writing a field -/

section Writes

variable {env : Env} {ok : Bool} {W : Finset NodeId} {L : String → Prop} {c c' : Contract}
  {node node' child : Node} {F G : Forest String NodeValue} {key : String} {value : Json}

/-- The entry that a leaf makes has its text. -/
theorem leafAt_of_entryOf {v : NodeValue} (h : Node.entryOf env value = .ok v) (path : List String) :
    leafAt value path = if ∀ k ∈ path, k = EMPTY_KEY then some v.text else none := by
  cases value with
  | string s =>
    cases h
    simp only [leafAt, NodeValue.text]
  | null =>
    cases h
    simp only [leafAt, NodeValue.text]
  | bool _ | number _ _ | array _ | object _ => cases h

/-- Putting a value updates what is read under its key. -/
theorem Reads.put_updates (h : Reads F c node) {v : NodeValue} (hv : Node.entryOf env value = .ok v)
    (hfree : ∀ u, node.children.get key = some u → target u = none) (path : List String) :
    valueAt (F.put node.nodeId key v) node.nodeId path =
      (fieldLeafAt key value path).getD (valueAt F node.nodeId path) := by
  have htarget := Node.target_of_entryOf hv
  have hother : ∀ k, k ≠ key → (F.put node.nodeId key v).entry node.nodeId k =
      F.entry node.nodeId k := by
    intro k hk
    simp [Forest.put, hk]
  have hself : (F.put node.nodeId key v).entry node.nodeId key = some v := by simp [Forest.put]
  by_cases hhead : path.head? = some key
  · obtain ⟨rest, rfl⟩ := List.head?_eq_some_iff.mp hhead
    rw [fieldLeafAt_cons_self, leafAt_of_entryOf hv, valueAt, Forest.read_cons_of_value hself htarget]
    split
    · rfl
    · next hall =>
      rw [Option.getD_none, valueAt]
      cases hentry : F.entry node.nodeId key with
      | none =>
        rw [Forest.read_cons_of_none hentry]
      | some u =>
        rw [Forest.read_cons_of_value hentry (hfree u (h.entry ▸ hentry)), if_neg hall]
  · cases path with
    | nil =>
      by_cases hkey : key = EMPTY_KEY
      · subst hkey
        rw [valueAt, Forest.read_nil, hself, fieldLeafAt, leafAtFields]
        simp [leafAtFields, leafAt_of_entryOf hv]
      · rw [fieldLeafAt_of_ne hhead fun _ => hkey, Option.getD_none]
        exact valueAt_of_read (hother EMPTY_KEY (Ne.symm hkey))
    | cons k rest =>
      have hne : k ≠ key := fun heq => hhead (congrArg some heq)
      rw [fieldLeafAt_of_ne hhead (by simp), Option.getD_none]
      refine valueAt_of_read (Forest.read_cons_congr (hother k hne) ?_)
      intro u t hentry ht
      refine Forest.read_congr ?_ rest
      intro m hm j
      have hlt := (h.grown.lt_target _ k u t hentry ht).trans_le (h.grown.le_of_below hm)
      simp [Forest.put, hlt.ne']

/-- Writing below a child updates what is read under its key. -/
theorem updates_of_child {n r : NodeId} {ok : Prop} {W : ℕ → Prop} {K : String → Prop}
    {v : NodeValue} (h : F.Writes r ok W K L G) (hF : F.Grown) (hr : r < F.count)
    (hentry : F.entry n key = some v) (hv : target v = some r) (hkey : key ≠ EMPTY_KEY)
    (hupdates : ∀ path, valueAt G r path = (leafAt value path).getD (valueAt F r path))
    (path : List String) :
    valueAt G n path = (fieldLeafAt key value path).getD (valueAt F n path) := by
  obtain ⟨hbelow, hother⟩ := h.read_of_child (e := EMPTY_KEY) hF hr hentry hv
  by_cases hhead : path.head? = some key
  · obtain ⟨rest, rfl⟩ := List.head?_eq_some_iff.mp hhead
    have hold : valueAt F n (key :: rest) = valueAt F r rest := by
      rw [valueAt, Forest.read_cons_of_target hentry hv, valueAt]
    have hnew : valueAt G n (key :: rest) = valueAt G r rest := by rw [valueAt, hbelow, valueAt]
    rw [fieldLeafAt_cons_self, hold, hnew, hupdates]
  · rw [fieldLeafAt_of_ne hhead fun _ => hkey, Option.getD_none]
    exact valueAt_of_read (hother path hhead)

/-- A leaf under the empty key is a leaf of the node itself. -/
theorem fieldLeafAt_empty {v : NodeValue} (h : Node.entryOf env value = .ok v) (path : List String) :
    fieldLeafAt EMPTY_KEY value path = leafAt value path := by
  cases path with
  | nil => simp [fieldLeafAt, leafAtFields]
  | cons k rest =>
    rw [fieldLeafAt, leafAtFields, leafAt_of_entryOf h]
    simp only [leafAtFields, Option.none_or, leafAt_of_entryOf h, List.mem_cons, forall_eq_or_imp]
    by_cases hk : k = EMPTY_KEY
    · simp [hk]
    · simp [hk]

/-- What is written updates what is read from a node, and makes no node under the empty key. -/
structure Updates (F : Forest String NodeValue) (n : NodeId)
    (leaf : List String → Option (Option String)) (G : Forest String NodeValue) : Prop where
  value : ∀ path, valueAt G n path = (leaf path).getD (valueAt F n path)
  free : ∀ n, G.Free n EMPTY_KEY

/-- Writing a leaf updates the own value of its node. -/
theorem recursiveSet_updates_leaf (hfree : ∀ n, F.Free n EMPTY_KEY) (hF : Reads F c node)
    (hleaf : (value.isString || value.isNull) = true)
    (h : Contract.recursiveSet env c node value ok W = .ok c') :
    ∃ G, WroteValue F c node ok W (· ≠ EMPTY_KEY) c' G ∧ Updates F node.nodeId (leafAt value) G := by
  obtain ⟨hok, v, hv, hold, rfl⟩ := recursiveSet_leaf hleaf h
  have hG := WroteFields.of_leaf hF hok plainKey_empty (Node.target_of_entryOf hv) hold (W := W)
    (L := (· ≠ EMPTY_KEY))
  refine ⟨_, hG.saved hF (by simp), ?_, hG.writes.free (fun hne => hne rfl) hfree⟩
  intro path
  rw [← fieldLeafAt_empty hv]
  exact hF.put_updates hv hold path

/-- A new node leaves no node under the empty key. -/
theorem free_of_new (hfree : ∀ n, F.Free n EMPTY_KEY)
    (hkey : key ≠ EMPTY_KEY)
    (hchild : Node.new env c.nodeCount (node.children.get key) = .ok child) (n : NodeId) :
    (F.link node.nodeId key (.node c.nodeCount) child.children.get).Free n EMPTY_KEY := by
  intro u hu
  simp only [Forest.link, Ne.symm hkey, and_false, if_false] at hu
  split at hu
  · exact (Node.target_of_new hchild _ u hu).2
  · exact hfree n u hu

/-- Writing below a new node updates what is read under its key. -/
theorem setFields_updates_fresh (hF : Reads F c node) (hok : ok = true) (hkey : PlainKey key ∧ key ≠ EMPTY_KEY)
    (hchild : Node.new env c.nodeCount (node.children.get key) = .ok child)
    (h : ∃ G, WroteValue (F.link node.nodeId key (.node c.nodeCount) child.children.get)
      { c with nodeCount := c.nodeCount + 1 } child ok W (· ≠ EMPTY_KEY) c' G ∧
        Updates (F.link node.nodeId key (.node c.nodeCount) child.children.get) child.nodeId
          (leafAt value) G) :
    ∃ G, WroteFields F c node ok W (· ≠ EMPTY_KEY) c' (node.insertChild key (.node c.nodeCount)) G ∧
      Updates F node.nodeId (fieldLeafAt key value) G := by
  obtain ⟨G, hG, hupdates⟩ := h
  obtain ⟨hid, hreads⟩ := hF.of_new hchild
  have hlt : node.nodeId < F.count := hF.count ▸ hF.lt_count
  have hold : F.Free node.nodeId key := fun u hu =>
    (Node.new_eq_ok.mp hchild).1 u (hF.entry ▸ hu)
  have hentry : (F.link node.nodeId key (.node c.nodeCount) child.children.get).entry node.nodeId
      key = some (.node child.nodeId) := by
    rw [hid]
    simp [Forest.link, hlt.ne]
  refine ⟨G, .of_fresh hF hok hkey hchild hG, ?_, hupdates.free⟩
  intro path
  have hread := hF.grown.read_link (e := EMPTY_KEY) hlt hkey.2 hold
    (v := .node c.nodeCount) (by rw [hF.count]; rfl) child.children.get ?_ hlt path
  · rw [← valueAt_of_read hread]
    exact updates_of_child hG.writes hreads.grown (hreads.count ▸ hreads.lt_count) hentry rfl hkey.2
      hupdates.value path
  · intro j
    rw [Node.get_of_new hchild, hF.entry]

mutual

/-- **Writing a value** updates what is read from its node, if no node is under the empty key and
none is made there. -/
theorem recursiveSet_updates (value : Json) {ok : Bool} {c c' : Contract} {node : Node}
    {F : Forest String NodeValue} (hL : EMPTY_KEY ∉ value.objectKeys)
    (hfree : ∀ n, F.Free n EMPTY_KEY) (hF : Reads F c node)
    (h : Contract.recursiveSet env c node value ok W = .ok c') :
    ∃ G, WroteValue F c node ok W (· ≠ EMPTY_KEY) c' G ∧ Updates F node.nodeId (leafAt value) G := by
  match value, hL, h with
  | .object obj, hL, h =>
    obtain ⟨c₁, node₁, hfields, rfl⟩ := recursiveSet_object h
    obtain ⟨G, hG, hupdates⟩ := setFields_updates obj hL hfree hF hfields
    exact ⟨G, hG.saved hF (by simp), hupdates⟩
  | .string s, hL, h => exact recursiveSet_updates_leaf hfree hF rfl h
  | .null, hL, h => exact recursiveSet_updates_leaf hfree hF rfl h
  | .bool _, _, h | .number _ _, _, h | .array _, _, h => cases h

theorem setFields_updates (obj : List (String × Json)) {ok : Bool} {c c' : Contract}
    {node node' : Node} {F : Forest String NodeValue} (hL : EMPTY_KEY ∉ Json.objectKeysOf obj)
    (hfree : ∀ n, F.Free n EMPTY_KEY) (hF : Reads F c node)
    (h : Contract.setFields env c node obj ok W = .ok (c', node')) :
    ∃ G, WroteFields F c node ok W (· ≠ EMPTY_KEY) c' node' G ∧
      Updates F node.nodeId (leafAtFields obj) G := by
  match obj, hL, h with
  | [], hL, h =>
    cases h
    refine ⟨F, ⟨.refl, .refl _ c, rfl, hF, fun t => ⟨.inl, ?_⟩⟩, ?_, hfree⟩
    · rintro (ht | ⟨hle, hlt⟩)
      · exact ht
      · exact absurd hlt (Nat.not_lt.mpr hle)
    · intro path
      rfl
  | (key, value) :: obj, hL, h =>
    obtain ⟨hvalid, c₁, node₁, hfield, h⟩ := setFields_cons h
    have hplain : PlainKey key := isSpecialKey_of_isKeyValid hvalid
    simp only [Json.objectKeysOf, List.mem_append, not_or] at hL
    have hfirst : ∃ G, WroteFields F c node ok W (· ≠ EMPTY_KEY) c₁ node₁ G ∧
        Updates F node.nodeId (fieldLeafAt key value) G := by
      cases hfield with
      | leaf hok hv hold =>
        have hG := WroteFields.of_leaf hF hok hplain (Node.target_of_entryOf hv) hold (W := W)
          (L := (· ≠ EMPTY_KEY))
        exact ⟨_, hG, hF.put_updates hv hold, hG.writes.free (fun hne => hne rfl) hfree⟩
      | @into id child _ hentry hchild hset =>
        obtain ⟨hid, -, hreads⟩ := hF.of_stored hentry hchild
        have hentry' : F.entry node.nodeId key = some (.node child.nodeId) := by
          rw [hF.entry, hid]
          exact hentry
        obtain ⟨G, hG, hupdates⟩ := recursiveSet_updates value hL.2.1 hfree hreads hset
        refine ⟨G, .of_into hF hentry hchild hG, ?_, hupdates.free⟩
        refine updates_of_child hG.writes hF.grown (hF.count ▸ hreads.lt_count) hentry' rfl ?_
          hupdates.value
        -- An object under the empty key would need a node there, and there is none.
        rintro rfl
        cases hfree node.nodeId _ hentry'
      | @fresh child _ hok hleaf hkey hcount hchild hset =>
        have hobject := isObject_of_recursiveSet hset hleaf
        have hne : key ≠ EMPTY_KEY := by
          have hkeys := hL.1
          simp only [hobject, if_true, List.mem_singleton] at hkeys
          exact Ne.symm hkeys
        exact setFields_updates_fresh hF hok ⟨hplain, hne⟩ hchild
          (recursiveSet_updates value hL.2.1 (free_of_new hfree hne hchild) (hF.of_new hchild).2 hset)
    obtain ⟨G, hG, hupdates⟩ := hfirst
    obtain ⟨H, hH, hrest⟩ := setFields_updates obj hL.2.2 hupdates.free hG.reads h
    refine ⟨H, hG.trans hH, ?_, hrest.free⟩
    intro path
    rw [getD_leafAtFields_cons, ← hupdates.value, ← hG.nodeId]
    exact hrest.value path

end

end Writes

/-! ## The data of a call -/

section Calls

variable {host : Host} {env : Env} {c c' : Contract} {id : AccountId} {account : Account}
  {transfers : List Transfer}

/-- A new account has no values. -/
theorem updates_of_opened {shared : Option AccountSharedStorage}
    {pools : Map AccountId SharedStoragePool} (hsound : c.Sound) (hfree : ∀ n, c.forest.Free n EMPTY_KEY)
    (hid : isValidAccountId id = true) (hnew : c.rootNode.children.get id = none) :
    Updates c.forest 0 (fun _ => none)
      (({ c with nodeCount := c.nodeCount + 1, sharedStoragePools := pools } : Contract).opened env id
        { Account.new c.nodeCount with sharedStorage := shared }).forest := by
  rw [Contract.forest_opened env id shared pools hsound.count_pos]
  have hentry : c.forest.entry 0 id = none := hnew
  have hkey := ne_empty_of_isValidAccountId hid
  refine ⟨?_, ?_⟩
  · intro path
    refine valueAt_of_read (hsound.grown.read_link hsound.count_pos hkey ?_ rfl _ ?_ hsound.count_pos path)
    · intro v hv
      cases hentry.symm.trans hv
    · intro j
      rw [hentry, ite_self]
  · rw [← Contract.forest_opened env id shared pools hsound.count_pos]
    exact free_of_opened hsound hfree hid

theorem updates_of_internalUnwrapAccountOrCreate {deposit : ℕ} (hsound : c.Sound)
    (hfree : ∀ n, c.forest.Free n EMPTY_KEY)
    (h : c.internalUnwrapAccountOrCreate host env id deposit = .ok (c', transfers, account)) :
    Updates c.forest 0 (fun _ => none) c'.forest := by
  have hvalid := (moves_of_internalUnwrapAccountOrCreate (fun _ => True) (fun _ => True) hsound h).1
  rcases internalUnwrapAccountOrCreate_cases h with ⟨rfl, -⟩ | ⟨hnew, _, _, hsaves⟩
  · exact ⟨fun _ => rfl, hfree⟩
  · rw [hsaves.forest_eq]
    exact updates_of_opened hsound hfree hvalid hnew

/-- The data of an account updates the values under its id. -/
theorem updates_of_setAccount {value : Json} {deposit : ℕ} (hsound : c.Sound)
    (hfree : ∀ n, c.forest.Free n EMPTY_KEY) (hL : EMPTY_KEY ∉ value.objectKeys)
    (h : c.setAccount host env id value deposit = .ok (c', transfers)) :
    Updates c.forest 0 (fieldLeafAt id value) c'.forest := by
  simp only [Contract.setAccount, bind_eq_ok, pure_eq_ok, Prod.mk.injEq] at h
  obtain ⟨⟨c₁, transfers₁, account⟩, hcreate, node, hnode, t₁, hstart, c₂, hset, t₂, hstop,
    ⟨c₃, existed⟩, hsave, rfl, rfl⟩ := h
  obtain ⟨hvalue, hfree₁⟩ := updates_of_internalUnwrapAccountOrCreate hsound hfree hcreate
  obtain ⟨hvalid, credited, rest, n, a, balance, hmoves, -, hn, ha, -, rfl⟩ :=
    moves_of_internalUnwrapAccountOrCreate (fun _ => True) (fun _ => True) hsound hcreate
  have hsound₁ := hmoves.sound hsound
  obtain ⟨hpos, hlt⟩ := hsound₁.account_lt_count (mem_accounts_of_lookup ha)
  obtain ⟨hid, hreads, -⟩ := hsound₁.reads hpos hnode
  obtain ⟨G, hG, hupdates⟩ := recursiveSet_updates value hL hfree₁ hreads hset
  have hentry : c₁.forest.entry 0 id = some (.node node.nodeId) := by
    rw [hid]
    exact hn
  obtain ⟨-, -, a', hsaves⟩ := internalSetAccount_saves hsave
  rw [hsaves.forest_eq, ← hG.forest_eq hreads]
  refine ⟨?_, hupdates.free⟩
  intro path
  rw [updates_of_child hG.writes hsound₁.grown hreads.lt_count hentry rfl
    (ne_empty_of_isValidAccountId hvalid) hupdates.value path, hvalue, Option.getD_none]

theorem forest_eq_of_refundUnused {options : SetOptions} {deposit : ℕ}
    (h : c.refundUnused host env options id deposit = .ok (c', transfers)) :
    c'.forest = c.forest := by
  rw [frame_of_refundUnused h]
  rfl

/-- The data of all accounts updates the values under their ids. -/
theorem updates_of_setAccounts {options : SetOptions} {data : List (String × Json)}
    {deposit rest : ℕ} (hsound : c.Sound) (hfree : ∀ n, c.forest.Free n EMPTY_KEY)
    (hL : EMPTY_KEY ∉ Json.objectKeysOf data)
    (h : Contract.setAccounts host env options c data deposit = .ok (c', transfers, rest)) :
    Updates c.forest 0 (leafAtFields data) c'.forest := by
  induction data generalizing c deposit transfers with
  | nil =>
    cases h
    exact ⟨fun _ => rfl, hfree⟩
  | cons entry data ih =>
    obtain ⟨key, value⟩ := entry
    simp only [Json.objectKeysOf, List.mem_append, not_or] at hL
    obtain ⟨c₁, created, c₂, refunded, transfers₃, hset, hrefund, hrest, -⟩ := setAccounts_cons h
    have hsound₁ := sound_of_setAccount hsound hset
    have hsound₂ := sound_of_refundUnused hsound₁ hrefund
    have hfirst := updates_of_setAccount hsound hfree hL.2.1 hset
    rw [← forest_eq_of_refundUnused hrefund] at hfirst
    have hothers := ih hsound₂ hfirst.free hL.2.2 hrest
    refine ⟨?_, hothers.free⟩
    intro path
    rw [hothers.value, hfirst.value, getD_leafAtFields_cons]

end Calls

/-- **Pointwise update.** In every contract that calls lead to and that has no node under an empty
key, a `set` whose data has no object under an empty key gives the leaves of the data to their paths,
and leaves what is read at all other paths. -/
theorem set_updates (host : Host) (start env : Env) (calls : List Call) (data : Json)
    (options : Option SetOptions) (c c' : Contract)
    (hc : c = (system host).run (.new start) calls) (hfree : ∀ n, c.forest.Free n EMPTY_KEY)
    (hdata : EMPTY_KEY ∉ data.objectKeys)
    (h : (system host).step c ⟨env, .set data options⟩ = .ok c') (path : List String) :
    valueAt c'.forest 0 path = (leafAt data path).getD (valueAt c.forest 0 path) := by
  have hsound : c.Sound := hc ▸ sound_run host start calls
  obtain ⟨transfers, hcall⟩ := step_eq_ok.mp h
  simp only [Contract.call, bind_eq_ok, ensure_eq_ok, Contract.set, expect_eq_ok, pure_eq_ok,
    Prod.mk.injEq] at hcall
  obtain ⟨_, -, _, -, _, -, obj, hobj, ⟨c₂, transfers₂, rest⟩, hset, _, -, rfl, rfl⟩ := hcall
  obtain rfl := Json.asObject_eq_some.mp hobj
  exact (updates_of_setAccounts hsound hfree hdata hset).value path

/-- An account has a name, and later something under it. -/
def sampleName : Call where
  env := sampleEnv "alice" (10 ^ 23) sampleDeposit_le
  method := .set (.object [("alice", .object [("name", .string "Alex")])]) none

def sampleUnderName : Json := .object [("alice", .object [("name", .object [("foo", .string "bar")])])]

theorem set_updates_sampleName :
    let c := (system sampleHost).run (.new (sampleEnv "social" 0 (by decide)))
      [sampleLive, sampleName]
    let c' := (system sampleHost).exec c ⟨sampleEnv "alice" 0 (by decide), .set sampleUnderName none⟩
    ∀ path, valueAt c'.forest 0 path = (leafAt sampleUnderName path).getD (valueAt c.forest 0 path) :=
  set_updates sampleHost (sampleEnv "social" 0 (by decide)) (sampleEnv "alice" 0 (by decide))
    [sampleLive, sampleName] sampleUnderName none _ _ rfl
    (free_run _ _ _ (by decide +kernel)) (by decide) (Machine.step_eq_exec (by decide +kernel))

end UncContracts.Social
