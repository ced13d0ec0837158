import UncContracts.Social.Unreachable
import UncContracts.Social.Views

/-!
# The graph of the nodes

In every run the nodes form a forest that is rooted in the accounts, and their numbers grow from
parents to children. A walk down the nodes therefore finds each node that it is led to, and makes
fewer steps than there are nodes.

## Main definitions

* `Contract.Holds`: a node in memory has the entries that are stored

## Main results

* `recursiveGet_steps`: reading below a node needs no more steps than there are nodes
* `recursiveGet_avoids`, `recursiveKeys_avoids`, `isWritePermissionGranted_avoids`: what views avoid
* `nodeGraph_run`: the nodes form a forest in every run, and no call or view misses one
-/

namespace UncContracts.Social

open Foundation HasTarget

/-- A node in memory has the entries that are stored under a number. -/
def Contract.Holds (c : Contract) (n : NodeId) (node : Node) : Prop :=
  ∀ k, c.forest.entry n k = node.children.get k

section Held

variable {c : Contract} {node child : Node} {n m : NodeId} {key : String} {all : Bool}
  {entry : String × NodeValue}

theorem Contract.holds_rootNode (c : Contract) : c.Holds 0 c.rootNode := fun _ => rfl

theorem Contract.holds_of_internalUnwrapNode (hn : n ≠ 0) (h : c.internalUnwrapNode n = .ok node) :
    c.Holds n node := by
  obtain ⟨stored, hlookup, rfl⟩ := internalUnwrapNode_eq_ok.mp h
  intro k
  rw [Contract.forest_entry_of_lookup hn hlookup]

theorem internalUnwrapNode_of_mem (h : n ∈ c.nodes) :
    ∃ node, c.internalUnwrapNode n = .ok node := by
  obtain ⟨stored, hstored⟩ := Option.isSome_iff_exists.mp (AList.lookup_isSome.mpr h)
  exact ⟨_, internalUnwrapNode_eq_ok.mpr ⟨stored, hstored, rfl⟩⟩

/-- An entry that leads to a node leads to a stored one, with a larger number. -/
theorem Contract.Sound.exists_child (h : c.Sound) (hnode : c.Holds n node)
    (hentry : node.children.get key = some (.node m)) :
    ∃ child, c.internalUnwrapNode m = .ok child ∧ c.Holds m child ∧ n < m ∧ m < c.nodeCount := by
  have hforest : c.forest.entry n key = some (.node m) := (hnode key).trans hentry
  have hlt : n < m := h.grown.lt_target n key _ m hforest rfl
  obtain ⟨child, hchild⟩ := internalUnwrapNode_of_mem (h.mem_of_entry hforest)
  have hpos : m ≠ 0 := (Nat.zero_le n).trans_lt hlt |>.ne'
  refine ⟨child, hchild, Contract.holds_of_internalUnwrapNode hpos hchild, hlt, ?_⟩
  exact h.grown.target_lt n key _ m hforest rfl

theorem mem_matchedEntries (h : entry ∈ node.matchedEntries key all) :
    node.children.get entry.1 = some entry.2 := by
  unfold Node.matchedEntries at h
  split at h
  · exact UnorderedMap.get_eq_some.mpr h
  · split at h
    · next value hvalue =>
      obtain rfl := List.mem_singleton.mp h
      exact hvalue
    · cases h

end Held

/-! ## Reading values -/

section Get

variable {bad : String → Prop} {c : Contract} {node : Node} {n : NodeId} {options : GetOptions}
  {key : String} {keys path : List String} {steps steps' : ℕ} {entry : String × NodeValue}

theorem newValue_avoids (options : GetOptions) (nodeValue : NodeValue) :
    Avoids bad (options.newValue nodeValue) := by
  unfold GetOptions.newValue
  cases nodeValue with
  | node nodeId => exact .pure _
  | value v =>
    dsimp only
    split
    · exact .bind (.expect fun _ => rfl) fun _ _ => .pure _
    · exact .pure _
  | deletedEntry blockHeight =>
    dsimp only
    split
    · exact .pure _
    · split
      · exact .bind (.expect fun _ => rfl) fun _ _ => .pure _
      · exact .pure _

mutual

theorem jsonMapSetKey_avoids (options : GetOptions) (res : JsonMap) (key : String)
    (nodeValue : NodeValue) : Avoids bad (jsonMapSetKey options res key nodeValue) := by
  match res with
  | [] =>
    rw [jsonMapSetKey]
    exact .bind (newValue_avoids options nodeValue) fun _ _ => .pure _
  | (k, value) :: res =>
    rw [jsonMapSetKey]
    split
    · exact .bind (jsonSetOwnKey_avoids options value nodeValue) fun _ _ => .pure _
    · exact .bind (jsonMapSetKey_avoids options res key nodeValue) fun _ _ => .pure _

theorem jsonSetOwnKey_avoids (options : GetOptions) (value : Json) (nodeValue : NodeValue) :
    Avoids bad (jsonSetOwnKey options value nodeValue) := by
  match value with
  | .object o =>
    rw [jsonSetOwnKey]
    exact .bind (jsonMapSetKey_avoids options o EMPTY_KEY nodeValue) fun _ _ => .pure _
  | .null | .bool _ | .number _ _ | .string _ | .array _ => exact .pure _

end

/-- Reading an entry avoids what reading below it does. -/
theorem getEntry_avoids (h : c.Sound) (hnode : c.Holds n node)
    (hentry : node.children.get entry.1 = some entry.2)
    {recursiveGet : JsonMap → Node → List String → Exec JsonMap}
    (hrec : ∀ m child, n < m → m < c.nodeCount → c.Holds m child → ∀ res path, path ≠ [] →
      path = keys ∨ path = key :: keys → Avoids bad (recursiveGet res child path)) (res : JsonMap) :
    Avoids bad (c.getEntry options key keys recursiveGet res entry) := by
  obtain ⟨k, v⟩ := entry
  cases v with
  | node m =>
    obtain ⟨child, hchild, hholds, hlt, hcount⟩ := h.exists_child hnode hentry
    have hrec := hrec m child hlt hcount hholds
    have hall : ∀ innerMap, Avoids bad (if decide (key = RECURSIVE_STAR) = true then do
          let innerMap ← recursiveGet innerMap child (key :: keys)
          return UnorderedMap.write k (.object innerMap) res
        else return UnorderedMap.write k (.object innerMap) res) := by
      intro innerMap
      split
      · exact .bind (hrec _ (key :: keys) (List.cons_ne_nil _ _) (.inr rfl)) fun _ _ => .pure _
      · exact .pure _
    simp only [Contract.getEntry, hchild, ok_bind]
    split
    · split
      · next hkeys => exact .bind (hrec _ keys hkeys (.inl rfl)) fun innerMap _ => hall innerMap
      · exact hall _
    · split
      · exact jsonMapSetKey_avoids options _ k _
      · exact .pure _
  | value v | deletedEntry blockHeight =>
    simp only [Contract.getEntry]
    split
    · exact jsonMapSetKey_avoids options res k _
    · exact .pure _

/-- A step down to a larger number leaves steps enough. -/
theorem steps_of_lt {count steps n m : ℕ} (h : count ≤ steps + 1 + n) (hlt : n < m) :
    count ≤ steps + m := by omega

/-- **Reading below a node** avoids every panic, apart from the one of a pattern that goes on after
`**`. -/
theorem recursiveGet_avoids (h : c.Sound) (hnode : c.Holds n node)
    (hpath : bad INDEX_OUT_OF_BOUNDS → path ≠ []) (hsteps : c.nodeCount ≤ steps + n) (hn : n < c.nodeCount)
    (hsuffix : bad SUFFIX_ONLY → RECURSIVE_STAR ∉ path.dropLast) (res : JsonMap) :
    Avoids bad (c.recursiveGet options steps res node path) := by
  induction steps generalizing n node path res with
  | zero => exact absurd hn (Nat.not_lt.mpr (by simpa using hsteps))
  | succ steps ih =>
    cases path with
    | nil => exact .error fun hmsg => hpath hmsg rfl
    | cons key keys =>
      rw [Contract.recursiveGet]
      refine .bind (.ensure ?_) fun _ hstar => .foldlM ?_ _
      · intro hmsg hkey
        by_contra hkeys
        refine hsuffix hmsg ?_
        rw [List.dropLast_cons_of_ne_nil hkeys]
        exact List.mem_cons.mpr (.inl (of_decide_eq_true hkey).symm)
      · intro res entry hentry
        refine getEntry_avoids h hnode (mem_matchedEntries hentry) ?_ res
        intro m child hlt hcount hchild res path hne hpath
        refine ih hchild (fun _ => hne) (steps_of_lt hsteps hlt) hcount ?_ res
        intro hmsg hmem
        rcases hpath with rfl | rfl
        · refine hsuffix hmsg ?_
          rw [List.dropLast_cons_of_ne_nil hne]
          exact List.mem_cons_of_mem _ hmem
        · exact hsuffix hmsg hmem

/-- An entry is read with whatever reads the same below it. -/
theorem getEntry_congr (h : c.Sound) (hnode : c.Holds n node)
    (hentry : node.children.get entry.1 = some entry.2)
    {recursiveGet recursiveGet' : JsonMap → Node → List String → Exec JsonMap}
    (hrec : ∀ m child, n < m → m < c.nodeCount → c.Holds m child → ∀ res path,
      recursiveGet res child path = recursiveGet' res child path) (res : JsonMap) :
    c.getEntry options key keys recursiveGet res entry =
      c.getEntry options key keys recursiveGet' res entry := by
  obtain ⟨k, v⟩ := entry
  cases v with
  | node m =>
    obtain ⟨child, hchild, hholds, hlt, hcount⟩ := h.exists_child hnode hentry
    simp only [Contract.getEntry, hchild, ok_bind, hrec m child hlt hcount hholds]
  | value v => rfl
  | deletedEntry blockHeight => rfl

/-- **Reading below a node** is the same with any number of steps that reaches all nodes. -/
theorem recursiveGet_steps (h : c.Sound) (hnode : c.Holds n node) (hn : n < c.nodeCount)
    (hsteps : c.nodeCount ≤ steps + n) (hsteps' : c.nodeCount ≤ steps' + n) (res : JsonMap) :
    c.recursiveGet options steps res node path = c.recursiveGet options steps' res node path := by
  induction steps generalizing n node path res steps' with
  | zero => exact absurd hn (Nat.not_lt.mpr (by simpa using hsteps))
  | succ steps ih =>
    cases steps' with
    | zero => exact absurd hn (Nat.not_lt.mpr (by simpa using hsteps'))
    | succ steps' =>
    cases path with
    | nil => rfl
    | cons key keys =>
      rw [Contract.recursiveGet, Contract.recursiveGet]
      refine bind_congr fun _ => foldlM_congr ?_ _
      intro res entry hentry
      refine getEntry_congr h hnode (mem_matchedEntries hentry) ?_ res
      intro m child hlt hcount hchild res path
      exact ih hchild hcount (steps_of_lt hsteps hlt) (steps_of_lt hsteps' hlt) res

theorem patternPath_ne_nil {pattern : String} (h : patternPath pattern = some path) : path ≠ [] := by
  unfold patternPath at h
  simp only at h
  split at h
  · split at h
    · cases h
    · next hne =>
      cases h
      exact fun hnil => hne (.inr hnil)
  · split at h
    · cases h
    · next hne =>
      cases h
      exact hne

/-- **`get`** avoids every panic, apart from the one of a pattern that goes on after `**`. -/
theorem get_avoids (h : c.Sound) {patterns : List String} {options : Option GetOptions}
    (hsuffix : bad SUFFIX_ONLY → ∀ pattern ∈ patterns, ∀ path, patternPath pattern = some path →
      RECURSIVE_STAR ∉ path.dropLast) : Avoids bad (c.get patterns options) := by
  refine .bind (.foldlM ?_ _) fun _ _ => .pure _
  intro res pattern hpattern
  unfold Contract.getKey
  split
  · next path hpath =>
    exact recursiveGet_avoids h c.holds_rootNode (fun _ => patternPath_ne_nil hpath) le_rfl h.count_pos
      (fun hmsg => hsuffix hmsg pattern hpattern path hpath) res
  · exact .pure _

end Get

/-! ## Reading keys -/

section Keys

variable {bad : String → Prop} {c : Contract} {node : Node} {n : NodeId} {options : KeysOptions}
  {path : List String}

theorem keysNodeValue_avoids (h : c.Sound) {m : NodeId} (hpos : 0 < m) (hm : m < c.nodeCount)
    (hfree : bad UNWRAP_NONE → options.valuesOnly.getD false = true → ∀ n, c.forest.Free n EMPTY_KEY) :
    Avoids bad (c.keysNodeValue options m) := by
  have hmem : m ∈ c.nodes := (h.mem_nodes m).mpr ⟨hpos, hm⟩
  unfold Contract.keysNodeValue
  dsimp only
  split
  · next hvalues =>
    refine .bind (internalUnwrapNode_avoids hmem) fun child hchild => ?_
    have hholds := Contract.holds_of_internalUnwrapNode hpos.ne' hchild
    split
    · exact .pure _
    · next nodeValue hvalue =>
      have hheight : bad UNWRAP_NONE → nodeValue.getBlockHeight.isSome = true := by
        intro hmsg
        have htarget := hfree hmsg hvalues m nodeValue ((hholds EMPTY_KEY).trans hvalue)
        cases nodeValue with
        | node id => cases htarget
        | value v => rfl
        | deletedEntry blockHeight => rfl
      refine .ite ?_ (.pure _)
      split
      · exact .pure _
      · exact .bind (.expect hheight) fun _ _ => .pure _
      · exact .pure _
  · split
    · exact .pure _
    · exact .bind (internalUnwrapNode_avoids hmem) fun _ _ => .pure _
    · exact .pure _

/-- **Reading keys below a node** avoids every panic, if nodes are shown without values or none of them
is under an empty key. -/
theorem recursiveKeys_avoids (h : c.Sound) (hnode : c.Holds n node) (hpath : path ≠ [])
    (hfree : bad UNWRAP_NONE → options.valuesOnly.getD false = true → ∀ n, c.forest.Free n EMPTY_KEY)
    (res : JsonMap) :
    Avoids bad (c.recursiveKeys options path res node) := by
  induction path generalizing n node res with
  | nil => exact absurd rfl hpath
  | cons key keys ih =>
    rw [Contract.recursiveKeys]
    refine .foldlM ?_ res
    rintro res ⟨k, v⟩ hentry
    have hget := mem_matchedEntries hentry
    cases v with
    | node m =>
      obtain ⟨child, hchild, hholds, hlt, hcount⟩ := h.exists_child hnode hget
      simp only [Contract.keysEntry]
      split
      · exact .bind (keysNodeValue_avoids h ((Nat.zero_le n).trans_lt hlt) hcount hfree)
          fun _ _ => .pure _
      · next hkeys =>
        rw [hchild, ok_bind]
        exact .bind (ih hholds hkeys _) fun _ _ => .pure _
    | value v =>
      simp only [Contract.keysEntry]
      split <;> exact .pure _
    | deletedEntry blockHeight =>
      simp only [Contract.keysEntry]
      split <;> exact .pure _

/-- **`keys`** avoids every panic, if nodes are shown without values or none of them is under an empty
key. -/
theorem keys_avoids (h : c.Sound) {patterns : List String} {options : Option KeysOptions}
    (hfree : bad UNWRAP_NONE → (options.getD {}).valuesOnly.getD false = true →
      ∀ n, c.forest.Free n EMPTY_KEY) :
    Avoids bad (c.keys patterns options) := by
  refine .bind (.foldlM ?_ _) fun _ _ => .pure _
  intro res pattern hpattern
  unfold Contract.keysKey
  split
  · next path hpath =>
    exact recursiveKeys_avoids h c.holds_rootNode (patternPath_ne_nil hpath) hfree res
  · exact .pure _

end Keys

/-! ## Permissions -/

section Permissions

variable {bad : String → Prop} {c : Contract} {node : Node} {n : NodeId} {nodeIds : Finset NodeId}
  {path : List String}

theorem meetsGranted_avoids (h : c.Sound) (hnode : c.Holds n node) :
    Avoids bad (c.meetsGranted nodeIds node path) := by
  induction path generalizing n node with
  | nil => exact .pure _
  | cons key path ih =>
    rw [Contract.meetsGranted]
    split
    · next m hentry =>
      obtain ⟨child, hchild, hholds, -, -⟩ := h.exists_child hnode hentry
      split
      · exact .pure _
      · rw [hchild, ok_bind]
        exact ih hholds
    · exact .pure _

/-- **`is_write_permission_granted`** avoids internal errors. -/
theorem isWritePermissionGranted_avoids (hbad : Internal bad) (h : c.Sound)
    {predecessorId : Option AccountId} {publicKey : Option PublicKey} {key : String} :
    Avoids bad (c.isWritePermissionGranted predecessorId publicKey key) := by
  refine .bind (permissionKeyOf_avoids hbad) fun permissionKey _ => ?_
  split
  · exact .error (hbad.not_bad (by decide))
  · next accountId path hpath =>
    refine .bind (internalGetAccount_avoids hbad h) fun o hget => ?_
    cases o with
    | none => exact .pure _
    | some account =>
      obtain ⟨n, a, hn, ha, rfl⟩ := h.loaded hget
      have hmem := mem_accounts_of_lookup ha
      dsimp only
      split
      · exact .pure _
      · split
        · exact .pure _
        · refine .bind (internalUnwrapNode_avoids (h.mem_nodes_of_account hmem)) fun node hnode => ?_
          have hpos := (h.account_lt_count hmem).1
          exact meetsGranted_avoids h (Contract.holds_of_internalUnwrapNode hpos.ne' hnode)

end Permissions

/-! ## Every run -/

section Runs

variable {c : Contract} {n : NodeId}

/-- A stored node is led to by one entry. -/
theorem Contract.Sound.existsUnique_entry (h : c.Sound) (hn : n ∈ c.nodes) :
    ∃! e : NodeId × String, c.forest.entry e.1 e.2 = some (.node n) := by
  obtain ⟨hpos, hlt⟩ := (h.mem_nodes n).mp hn
  rcases Relation.ReflTransGen.cases_tail (h.rooted n hlt) with rfl | ⟨m, -, k, v, hentry, hv⟩
  · exact absurd hpos (Nat.lt_irrefl 0)
  · rw [target_eq_some.mp hv] at hentry
    refine ⟨(m, k), hentry, ?_⟩
    rintro ⟨m', k'⟩ hentry'
    obtain ⟨rfl, rfl⟩ := h.grown.unique _ _ _ _ _ _ n hentry' rfl hentry rfl
    rfl

/-- An account grants to write below nodes of its own tree. -/
theorem Contract.Sound.granted_in_tree (h : c.Sound) {key : PermissionKey} {nodeIds : Finset NodeId}
    (hgranted : (c.permissionsOf n).get key = some (.granted nodeIds)) :
    n ∈ c.accounts ∧ ∀ i ∈ nodeIds, c.forest.Below n i := by
  refine ⟨h.granters n ?_, h.permissions n key nodeIds hgranted⟩
  rw [← AList.lookup_isSome]
  cases hlookup : c.permissions.lookup n with
  | some permissions => rfl
  | none =>
    rw [Contract.permissionsOf, hlookup, Option.getD_none, UnorderedMap.get_empty] at hgranted
    cases hgranted

/-- The messages of a walk that is led to a node that is not there. -/
def strayErrors : List String := [NODE_MISSING, UNEXPECTED_KEY]

theorem keeps_sound (host : Host) : Keeps (· ∈ strayErrors) host (fun _ => True) (fun _ => True)
    Contract.Sound := by
  refine ⟨?_, ?_, ?_, ?_⟩
  · intro msg hmsg
    rcases List.mem_pair.mp hmsg with rfl | rfl <;> decide
  · intro c h
    refine ⟨h, ?_, ?_, ?_, ?_, ?_⟩
    · exact fun hmsg => absurd hmsg (by decide)
    · exact fun hmsg => absurd hmsg (by decide)
    · exact fun hmsg => absurd hmsg (by decide)
    · exact fun hmsg => absurd hmsg (by decide)
    · exact fun hmsg => absurd hmsg (by decide)
  · exact fun env c c' deposit transfers hmove h => hmove.sound h
  · exact fun hmsg => absurd hmsg (by decide)

end Runs

/-- **The graph of the nodes.** In every contract that calls lead to, an entry that leads to a node
leads to a stored one with a larger number, each node is led to by one entry, the entries of the root
are the accounts, and what is granted lies in the tree of who granted it. No call and no view misses
a node, and reading below a node ends within as many steps as there are nodes. -/
theorem nodeGraph_run (host : Host) (start : Env) (calls : List Call) :
    let c := (system host).run (.new start) calls
    (∀ m k n, c.forest.entry m k = some (.node n) → n ∈ c.nodes ∧ n < c.nodeCount ∧ m < n) ∧
      (∀ n ∈ c.nodes, ∃! e : NodeId × String, c.forest.entry e.1 e.2 = some (.node n)) ∧
      (∀ id v, c.rootNode.children.get id = some v → ∃ n, v = .node n ∧ n ∈ c.accounts) ∧
      (∀ n key nodeIds, (c.permissionsOf n).get key = some (.granted nodeIds) →
        n ∈ c.accounts ∧ ∀ i ∈ nodeIds, c.forest.Below n i) ∧
      (∀ msg ∈ strayErrors,
        (∀ env method, c.call host env method ≠ .error msg) ∧
        (∀ patterns options, c.get patterns options ≠ .error msg) ∧
        (∀ patterns options, c.keys patterns options ≠ .error msg) ∧
        (∀ predecessorId publicKey key,
          c.isWritePermissionGranted predecessorId publicKey key ≠ .error msg) ∧
        ∀ accountId, c.internalGetAccount accountId ≠ .error msg) ∧
      ∀ options res node path, node = c.rootNode ∨ (∃ n ∈ c.nodes, c.internalUnwrapNode n = .ok node) →
        c.recursiveGet options c.nodeCount res node path ≠ .error OUT_OF_STEPS ∧
          ∀ steps, c.nodeCount ≤ steps → c.recursiveGet options steps res node path =
            c.recursiveGet options c.nodeCount res node path := by
  intro c
  have h : c.Sound := sound_run host start calls
  have hkeeps := keeps_sound host
  have hbad := hkeeps.internal
  refine ⟨?_, fun n => h.existsUnique_entry, fun id v hv => (h.root id v hv).2,
    fun n key nodeIds => h.granted_in_tree, ?_, ?_⟩
  · intro m k n hentry
    exact ⟨h.mem_of_entry hentry, h.grown.target_lt m k _ n hentry rfl,
      h.grown.lt_target m k _ n hentry rfl⟩
  · intro msg hmsg
    refine ⟨?_, ?_, ?_, ?_, ?_⟩
    · intro env method herror
      exact call_avoids hkeeps h (fun _ _ => trivial) msg herror hmsg
    · intro patterns options herror
      exact get_avoids h (fun hsuffix => absurd hsuffix (by decide)) msg herror hmsg
    · intro patterns options herror
      exact keys_avoids h (fun hunwrap => absurd hunwrap (by decide)) msg herror hmsg
    · intro predecessorId publicKey key herror
      exact isWritePermissionGranted_avoids hbad h msg herror hmsg
    · intro accountId herror
      exact internalGetAccount_avoids hbad h msg herror hmsg
  · intro options res node path hnode
    -- The node is held under some number, and the numbers grow on the way down.
    obtain ⟨n, hholds, hlt⟩ : ∃ n, c.Holds n node ∧ n < c.nodeCount := by
      rcases hnode with rfl | ⟨n, hmem, hnode⟩
      · exact ⟨0, c.holds_rootNode, h.count_pos⟩
      · obtain ⟨hpos, hlt⟩ := (h.mem_nodes n).mp hmem
        exact ⟨n, Contract.holds_of_internalUnwrapNode hpos.ne' hnode, hlt⟩
    refine ⟨fun herror => ?_, fun steps hsteps => ?_⟩
    · have havoids : Avoids (· = OUT_OF_STEPS) (c.recursiveGet options c.nodeCount res node path) :=
        recursiveGet_avoids h hholds (fun hmsg => absurd hmsg (by decide)) (Nat.le_add_right _ _) hlt
          (fun hmsg => absurd hmsg (by decide)) res
      exact havoids _ herror rfl
    · exact recursiveGet_steps h hholds hlt (hsteps.trans (Nat.le_add_right _ _))
        (Nat.le_add_right _ _) res

end UncContracts.Social
