import UncContracts.Social.Pointwise
import UncContracts.Social.Reading
import UncContracts.Social.Registers

/-!
# The contract as a store

Over whole runs the contract is a map from paths to values in which the last write wins. A `set`
writes the leaves of its data, and no other call changes a value: not a key that is granted, although
nodes are made for it, and no deposit, withdrawal or sharing of storage. `get` returns, for a path
without stars, what was written there last.

## Main definitions

* `Method.written`: what a call writes at a path
* `lastWritten`: what the calls of a run wrote last at a path
* `single`: the JSON value with one leaf

## Main results

* `walk_keeps`: the nodes that are made for a key that is granted keep all values
* `value_of_step`: what a step does to the value at a path
* `value_run`: after a run the value at a path is what was written there last
* `get_of_value`: reading a path
* `get_last_written`: after a run, `get` returns what was written last
-/

namespace UncContracts.Social

open Foundation HasTarget

/-- What a call writes at a path, where `none` inside is for the removal of a value. -/
def Method.written : Method → List String → Option (Option String)
  | .set data _, path => leafAt data path
  | _, _ => none

/-- What some steps wrote last at a path. -/
def lastWritten (steps : List (Step Contract Call)) (path : List String) : Option String :=
  ((steps.filterMap fun x => x.label.method.written path).getLast?).getD none

/-- The JSON value whose only leaf is at a path. -/
def single : List String → String → Json
  | [], s => .string s
  | key :: path, s => .object [(key, single path s)]

/-! ## Keys that are granted -/

/-- The nodes from before have the same values, and no node is under an empty key. -/
structure SameValues (F G : Forest String NodeValue) : Prop where
  value : ∀ n, n < F.count → ∀ path, valueAt G n path = valueAt F n path
  count_le : F.count ≤ G.count
  free : ∀ n, G.Free n EMPTY_KEY

section Walks

variable {host : Host} {env : Env} {c c' : Contract} {node node' child : Node} {id : AccountId}
  {account account' : Account} {F G H : Forest String NodeValue} {key : String} {path : List String}

theorem SameValues.refl (hfree : ∀ n, F.Free n EMPTY_KEY) : SameValues F F :=
  ⟨fun _ _ _ => rfl, le_rfl, hfree⟩

theorem SameValues.trans (h : SameValues F G) (h' : SameValues G H) : SameValues F H := by
  refine ⟨?_, h.count_le.trans h'.count_le, h'.free⟩
  intro n hn path
  rw [h'.value n (hn.trans_le h.count_le), h.value n hn]

/-- A node that is made for a missing entry or for a value keeps all values. -/
theorem sameValues_of_new (hfree : ∀ n, F.Free n EMPTY_KEY) (hF : InMemory F c node)
    (hkey : key ≠ EMPTY_KEY)
    (hchild : Node.new env c.nodeCount (node.children.get key) = .ok child) :
    SameValues F (F.link node.nodeId key (.node c.nodeCount) child.children.get) := by
  have hlt : node.nodeId < F.count := hF.count ▸ hF.lt_count
  have hold : F.Free node.nodeId key := fun u hu => (Node.new_eq_ok.mp hchild).1 u (hF.entry ▸ hu)
  refine ⟨?_, Nat.le_succ _, free_of_new hfree hkey hchild⟩
  intro n hn path
  refine valueAt_of_read (hF.grown.read_link hlt hkey hold (by rw [hF.count]; rfl) _ ?_ hn path)
  intro j
  rw [Node.get_of_new hchild, hF.entry]

/-- **Walking down a path keeps all values.** -/
theorem walk_keeps (hpath : EMPTY_KEY ∉ path) (hfree : ∀ n, F.Free n EMPTY_KEY)
    (hF : InMemory F c node) (h : Contract.walk env c node path = .ok (c', node')) :
    ∃ G, InMemory G c' node' ∧ SameValues F G := by
  induction path generalizing c node F with
  | nil =>
    cases h
    exact ⟨F, hF, .refl hfree⟩
  | cons key path ih =>
    rw [List.mem_cons, not_or] at hpath
    obtain ⟨hkey, hpath⟩ := hpath
    simp only [Contract.walk, assertKeyValid, bind_eq_ok, ensure_eq_ok] at h
    obtain ⟨_, -, h⟩ := h
    split at h
    · next hnone =>
      simp only [bind_eq_ok] at h
      obtain ⟨⟨c₁, id⟩, hid, child, hchild, h⟩ := h
      obtain ⟨-, rfl, rfl⟩ := createNodeId_eq_ok.mp hid
      rw [← hnone] at hchild
      have hnew := sameValues_of_new hfree hF (Ne.symm hkey) hchild
      obtain ⟨G, hG, hsame⟩ := ih hpath hnew.free (hF.of_new hchild).2 h
      exact ⟨G, hG, hnew.trans hsame⟩
    · next id hentry =>
      simp only [bind_eq_ok] at h
      obtain ⟨child, hchild, h⟩ := h
      exact ih hpath hfree (hF.of_stored env hentry hchild).2.2 h
    · next old _ hentry =>
      simp only [bind_eq_ok, ensure_eq_ok] at h
      obtain ⟨_, -, ⟨c₁, id⟩, hid, child, hchild, h⟩ := h
      obtain ⟨-, rfl, rfl⟩ := createNodeId_eq_ok.mp hid
      rw [← hentry] at hchild
      have hnew := sameValues_of_new hfree hF (Ne.symm hkey) hchild
      obtain ⟨G, hG, hsame⟩ := ih hpath hnew.free (hF.of_new hchild).2 h
      exact ⟨G, hG, hnew.trans hsame⟩

theorem sameValues_of_grantKey {i : NodeId} (hsound : c.Sound)
    (hfree : ∀ n, c.forest.Free n EMPTY_KEY) (hn : account.nodeId ∈ c.accounts)
    (hkey : EMPTY_KEY ∉ (splitPath key).tail)
    (h : c.grantKey host env id account key = .ok (c', account', i)) :
    SameValues c.forest c'.forest := by
  simp only [Contract.grantKey, bind_eq_ok, ensure_eq_ok, pure_eq_ok, Prod.mk.injEq] at h
  obtain ⟨t₁, -, _, -, _, -, node, hnode, ⟨c₁, node₁⟩, hwalk, t₂, -, rfl, -⟩ := h
  obtain ⟨-, -, hmemory⟩ := hsound.reads (hsound.account_lt_count hn).1 hnode
  obtain ⟨G, hG, hsame⟩ := walk_keeps hkey hfree hmemory hwalk
  rwa [hG.saved]

theorem sameValues_of_grantKeys {keys : List String} {nodeIds nodeIds' : Finset NodeId}
    (hsound : c.Sound) (hfree : ∀ n, c.forest.Free n EMPTY_KEY) (hn : account.nodeId ∈ c.accounts)
    (hkeys : ∀ key ∈ keys, EMPTY_KEY ∉ (splitPath key).tail)
    (h : Contract.grantKeys host env id c account keys nodeIds = .ok (c', account', nodeIds')) :
    SameValues c.forest c'.forest := by
  induction keys generalizing c account nodeIds with
  | nil =>
    cases h
    exact .refl hfree
  | cons key keys ih =>
    rw [List.forall_mem_cons] at hkeys
    simp only [Contract.grantKeys, bind_eq_ok] at h
    obtain ⟨⟨c₁, account₁, i⟩, hkey, h⟩ := h
    obtain ⟨hedits, -, t, haccount, -⟩ :=
      edits_of_grantKey (L := fun _ => True) hsound hn (fun _ _ => trivial) hkey
    have hn₁ : account₁.nodeId ∈ c₁.accounts := by
      rw [hedits.frame, haccount]
      exact hn
    have hfirst := sameValues_of_grantKey hsound hfree hn hkeys.1 hkey
    exact hfirst.trans (ih (hedits.sound hsound hn) hfirst.free hn₁ hkeys.2 h)

end Walks

/-! ## Steps -/

section Steps

variable {host : Host} {env : Env} {c c' : Contract} {transfers : List Transfer} {path : List String}

/-- An account that is registered has no values, and the others keep theirs. -/
theorem Registers.value (h : Registers env c c') (hsound : c.Sound)
    (hfree : ∀ n, c.forest.Free n EMPTY_KEY) : valueAt c'.forest 0 path = valueAt c.forest 0 path := by
  cases h with
  | same _ hforest => rw [hforest]
  | opened hid hnew _ hforest =>
    rw [hforest]
    exact (updates_of_opened hsound hfree hid hnew).value path

/-- Granting a permission keeps all values. -/
theorem value_of_grantWritePermission {predecessorId : Option AccountId}
    {publicKey : Option PublicKey} {keys : List String} (hsound : c.Sound)
    (hfree : ∀ n, c.forest.Free n EMPTY_KEY)
    (hkeys : ∀ key ∈ keys, EMPTY_KEY ∉ (splitPath key).tail)
    (h : c.grantWritePermission host env predecessorId publicKey keys = .ok (c', transfers)) :
    valueAt c'.forest 0 path = valueAt c.forest 0 path := by
  simp only [Contract.grantWritePermission, bind_eq_ok, ensure_eq_ok, pure_eq_ok,
    Prod.mk.injEq] at h
  obtain ⟨_, -, _, -, key, -, ⟨c₁, transfers₁, account⟩, hcreate, ⟨c₂, account₂, nodeIds⟩, hgrant,
    ⟨c₃, account₃⟩, hpermission, ⟨c₄, existed⟩, hsave, rfl, -⟩ := h
  have hcreated := updates_of_internalUnwrapAccountOrCreate hsound hfree hcreate
  obtain ⟨-, _, _, n, a, balance, hmoves, -, -, ha, -, rfl⟩ :=
    moves_of_internalUnwrapAccountOrCreate (fun _ => True) (fun _ => True) hsound hcreate
  have hsound₁ := hmoves.sound hsound
  have hsame := sameValues_of_grantKeys hsound₁ hcreated.free (mem_accounts_of_lookup ha) hkeys hgrant
  obtain ⟨-, -, a', hsaves⟩ := internalSetAccount_saves hsave
  rw [hsaves.forest_eq, forest_eq_of_internalSetPermission hpermission,
    hsame.value 0 hsound₁.count_pos, hcreated.value, Option.getD_none]

/-- **What a step does to the value at a path**: a `set` writes the leaf of its data there, if it has
one, and other calls do nothing. -/
theorem value_of_step {call : Call} (hsound : c.Sound) (hfree : ∀ n, c.forest.Free n EMPTY_KEY)
    (hkeeps : call.method.KeepsEmpty) (h : (system host).step c call = .ok c') (path : List String) :
    valueAt c'.forest 0 path = (call.method.written path).getD (valueAt c.forest 0 path) := by
  obtain ⟨env, method⟩ := call
  obtain ⟨transfers, hcall⟩ := step_eq_ok.mp h
  by_cases hstorage : method.IsStorage
  · have hvalue : valueAt c'.forest 0 path = valueAt c.forest 0 path :=
      (registers_of_call hstorage hcall).value hsound hfree
    cases method <;> first | exact hvalue | exact hstorage.elim
  · simp only [Contract.call, bind_eq_ok, ensure_eq_ok] at hcall
    obtain ⟨_, -, _, -, hcall⟩ := hcall
    cases method with
    | set data options =>
      simp only [Contract.set, bind_eq_ok, ensure_eq_ok, expect_eq_ok, pure_eq_ok,
        Prod.mk.injEq] at hcall
      obtain ⟨_, -, obj, hobj, ⟨c₂, transfers₂, rest⟩, hset, _, -, rfl, -⟩ := hcall
      obtain rfl := Json.asObject_eq_some.mp hobj
      exact (updates_of_setAccounts hsound hfree hkeeps hset).value path
    | grantWritePermission predecessorId publicKey keys =>
      refine value_of_grantWritePermission hsound hfree ?_ hcall
      intro key hkey hempty
      exact hkeeps (List.mem_flatMap.mpr ⟨key, hkey, hempty⟩)
    | _ => exact absurd trivial hstorage

/-- **The last write wins.** After calls that make no node under an empty key, the value at a path is
what was written there last. -/
theorem value_run (host : Host) (start : Env) (calls : List Call)
    (h : ∀ x ∈ (system host).steps (.new start) calls, x.label.method.KeepsEmpty)
    (path : List String) :
    valueAt ((system host).run (.new start) calls).forest 0 path =
      lastWritten ((system host).steps (.new start) calls) path := by
  have hentry : ∀ n k, (Contract.new start).forest.entry n k = none := by
    intro n k
    simp [Contract.forest, Contract.new]
  have hnew : valueAt (Contract.new start).forest 0 path = none := by
    cases path with
    | nil => exact congrArg (·.bind NodeValue.text) (hentry 0 EMPTY_KEY)
    | cons k path => exact congrArg (·.bind NodeValue.text) (Forest.read_cons_of_none (hentry 0 k))
  have hlast : ∀ x ∈ (system host).steps (.new start) calls, valueAt x.after.forest 0 path =
      (x.label.method.written path).getD (valueAt x.before.forest 0 path) := by
    intro x hx
    obtain ⟨pre, post, hcalls, hbefore, hstep⟩ := Machine.mem_steps_iff.mp hx
    refine value_of_step (hbefore ▸ sound_run host start pre) ?_ (h x hx) hstep path
    rw [hbefore]
    exact free_run host start pre (Machine.guard_of_prefix ⟨_, hcalls.symm⟩ h)
  rw [Machine.register_eq (f := fun c : Contract => valueAt c.forest 0 path) hlast, hnew, lastWritten]

end Steps

/-! ## Reading a path -/

/-- The fields of an object with the leaf of a path, or without any. -/
def shownFields : List String → Option String → JsonMap
  | key :: path, some s => [(key, single path s)]
  | _, _ => []

section Reads

variable {c : Contract} {node : Node} {n steps : ℕ} {key s : String} {keys path : List String}

/-- A key of a path that names one place: no empty key, no star and nothing that the views add. -/
theorem ne_star_of_isKeyValid (h : isKeyValid key = true) : key ≠ STAR ∧ key ≠ RECURSIVE_STAR := by
  constructor
  · rintro rfl
    exact absurd h (by decide)
  · rintro rfl
    exact absurd h (by decide)

theorem matchedEntries_of_isKeyValid (h : isKeyValid key = true) :
    node.matchedEntries key (decide (key = STAR) || decide (key = RECURSIVE_STAR)) =
      (node.children.get key).toList.map fun v => (key, v) := by
  obtain ⟨hstar, hrecursive⟩ := ne_star_of_isKeyValid h
  simp only [Node.matchedEntries, hstar, hrecursive, decide_false, Bool.or_self,
    Bool.false_eq_true, if_false]
  cases node.children.get key <;> rfl

/-- Where nothing is yet, the value of an entry without a node is put under a key. -/
theorem jsonMapSetKey_nil {v : NodeValue} (hv : target v = none) :
    ∃ res, jsonMapSetKey {} [] key v = .ok res ∧
      jsonMapRecursiveCleanup res = shownFields [key] v.text := by
  cases v with
  | value v =>
    refine ⟨[(key, .string v.value)], rfl, ?_⟩
    simp only [jsonMapRecursiveCleanup, jsonCleanup, ite_self, NodeValue.text, shownFields, single]
  | node m => cases hv
  | deletedEntry blockHeight => exact ⟨[], rfl, rfl⟩

/-- What is shown below a node is shown under its key. -/
theorem cleanup_inner {inner : JsonMap} {o : Option String} (hkey : isKeyValid key = true)
    (hkeys : ∀ k ∈ keys, isKeyValid k = true) (hne : keys ≠ [])
    (hinner : jsonMapRecursiveCleanup inner = shownFields keys o) :
    jsonMapRecursiveCleanup [(key, .object inner)] = shownFields (key :: keys) o := by
  have hspecial := isSpecialKey_of_isKeyValid hkey
  cases keys with
  | nil => exact absurd rfl hne
  | cons k keys =>
    have hspecial' := isSpecialKey_of_isKeyValid (hkeys k (List.mem_cons_self ..))
    cases o with
    | none => simp [jsonMapRecursiveCleanup, jsonCleanup, hinner, hspecial, shownFields]
    | some s =>
      simp [jsonMapRecursiveCleanup, jsonCleanup, hinner, hspecial, hspecial', shownFields, single]

/-- **Reading below a node** by a path without stars shows the value at the path alone. -/
theorem recursiveGet_of_value (hsound : c.Sound) (hfree : ∀ n, c.forest.Free n EMPTY_KEY)
    (hnode : c.Holds n node) (hne : path ≠ [])
    (hpath : ∀ k ∈ path, isKeyValid k = true ∧ k ≠ EMPTY_KEY) (hn : n < c.nodeCount)
    (hsteps : c.nodeCount ≤ steps + n) :
    ∃ res, c.recursiveGet {} steps [] node path = .ok res ∧
      jsonMapRecursiveCleanup res = shownFields path (valueAt c.forest n path) := by
  induction path generalizing n node steps with
  | nil => exact absurd rfl hne
  | cons key keys ih =>
    rw [List.forall_mem_cons] at hpath
    obtain ⟨⟨hkey, hempty⟩, hkeys⟩ := hpath
    obtain ⟨steps, rfl⟩ : ∃ m, steps = m + 1 := by
      refine Nat.exists_eq_succ_of_ne_zero ?_
      rintro rfl
      exact absurd hn (Nat.not_lt.mpr (hsteps.trans_eq (Nat.zero_add n)))
    have hrecursive := (ne_star_of_isKeyValid hkey).2
    simp only [Contract.recursiveGet, hrecursive, decide_false, Bool.false_eq_true, false_imp_iff,
      reduceCtorEq, if_false]
    have hmatched : node.matchedEntries key (decide (key = STAR) || false) =
        (node.children.get key).toList.map fun v => (key, v) := by
      rw [← matchedEntries_of_isKeyValid hkey, decide_eq_false hrecursive]
    rw [hmatched]
    cases hentry : node.children.get key with
    | none =>
      refine ⟨[], rfl, ?_⟩
      rw [valueAt, Forest.read_cons_of_none ((hnode key).trans hentry)]
      rfl
    | some v =>
      have hforest : c.forest.entry n key = some v := (hnode key).trans hentry
      simp only [Option.toList_some, List.map_cons, List.map_nil, List.foldlM_cons, List.foldlM_nil,
        bind_pure]
      by_cases htarget : ∃ m, v = .node m
      · obtain ⟨m, rfl⟩ := htarget
        obtain ⟨child, hchild, hholds, hlt, hcount⟩ := hsound.exists_child hnode hentry
        rw [valueAt, Forest.read_cons_of_target hforest rfl, ← valueAt]
        simp only [Contract.getEntry, hchild, ok_bind, hrecursive, decide_false, Bool.false_eq_true,
          or_false, if_false, pure_bind]
        by_cases hnil : keys = []
        · subst hnil
          rw [if_neg (by simp), valueAt, Forest.read_nil, hholds EMPTY_KEY]
          cases hown : child.children.get EMPTY_KEY with
          | none => exact ⟨[], rfl, rfl⟩
          | some own =>
            exact jsonMapSetKey_nil (hfree m own ((hholds EMPTY_KEY).trans hown))
        · obtain ⟨inner, hinner, hclean⟩ := ih hholds hnil hkeys hcount (steps_of_lt hsteps hlt)
          rw [if_pos hnil, if_pos hnil]
          refine ⟨[(key, .object inner)], ?_, ?_⟩
          · show (do
              let innerMap ← c.recursiveGet {} steps [] child keys
              pure [(key, Json.object innerMap)] : Exec JsonMap) = _
            rw [hinner]
            rfl
          · exact cleanup_inner hkey (fun k hk => (hkeys k hk).1) hnil hclean
      · have hvalue : target v = none := target_eq_none.mpr fun m hm => htarget ⟨m, hm⟩
        have hget : c.getEntry {} key keys (c.recursiveGet {} steps) [] (key, v) =
            if keys = [] then jsonMapSetKey {} [] key v else pure [] := by
          cases v with
          | node m => cases hvalue
          | value v => rfl
          | deletedEntry blockHeight => rfl
        rw [hget, valueAt, Forest.read_cons_of_value hforest hvalue]
        by_cases hnil : keys = []
        · subst hnil
          rw [if_pos rfl, if_pos (by simp)]
          exact jsonMapSetKey_nil hvalue
        · have hall : ¬ ∀ k ∈ keys, k = EMPTY_KEY := by
            intro hall
            obtain ⟨k, hk⟩ := List.exists_mem_of_ne_nil keys hnil
            exact (hkeys k hk).2 (hall k hk)
          rw [if_neg hnil, if_neg hall]
          exact ⟨[], rfl, rfl⟩

/-- The pattern of a path without stars is the path. -/
theorem patternPath_joinPath (hne : path ≠ [])
    (hpath : ∀ k ∈ path, isKeyValid k = true ∧ k ≠ EMPTY_KEY) :
    patternPath (joinPath path) = some path := by
  have hlast : path.getLast? ≠ some EMPTY_KEY := by
    intro hlast
    exact (hpath _ (List.mem_of_getLast? hlast)).2 rfl
  have hsplit : splitPath (joinPath path) = path :=
    splitPath_joinPath hne fun k hk => separator_not_mem_of_isKeyValid (hpath k hk).1
  have hparts : path = patternParts (joinPath path) := by
    rw [patternParts, hsplit, stem, if_neg hlast]
  exact patternPath_eq_some.mpr ⟨hparts, hne, hlast⟩

/-- **Reading a path** without stars shows the value at the path. -/
theorem get_of_value (hsound : c.Sound) (hfree : ∀ n, c.forest.Free n EMPTY_KEY) (hne : path ≠ [])
    (hpath : ∀ k ∈ path, isKeyValid k = true ∧ k ≠ EMPTY_KEY) :
    c.get [joinPath path] none = .ok (.object (shownFields path (valueAt c.forest 0 path))) := by
  obtain ⟨res, hres, hclean⟩ := recursiveGet_of_value hsound hfree c.holds_rootNode hne hpath
    hsound.count_pos (Nat.le_add_right c.nodeCount 0)
  simp only [Contract.get, List.foldlM_cons, List.foldlM_nil, bind_pure, Contract.getKey,
    patternPath_joinPath hne hpath, Option.getD_none, hres, ok_bind, hclean]
  rfl

end Reads

/-- **Reading what was written.** In every run whose calls make no node under an empty key, `get`
with a path without stars returns exactly the value that the accepted calls wrote there last: the
object with that one leaf, or an object without fields. -/
theorem get_last_written (host : Host) (start : Env) (calls : List Call)
    (h : ∀ x ∈ (system host).steps (.new start) calls, x.label.method.KeepsEmpty)
    (path : List String) (hne : path ≠ [])
    (hpath : ∀ k ∈ path, isKeyValid k = true ∧ k ≠ EMPTY_KEY) :
    ((system host).run (.new start) calls).get [joinPath path] none =
      .ok (.object (shownFields path
        (lastWritten ((system host).steps (.new start) calls) path))) := by
  rw [get_of_value (sound_run host start calls) (free_run host start calls h) hne hpath,
    value_run host start calls h path]

/-- An account writes a name, and writes another one over it. -/
def sampleRename : Call where
  env := sampleEnv "alice" (10 ^ 23) sampleDeposit_le
  method := .set (.object [("alice", .object [("name", .string "Alexa")])]) none

theorem get_last_written_sampleRename :
    ((system sampleHost).run (.new (sampleEnv "social" 0 (Nat.zero_le _)))
      [sampleLive, sampleName, sampleRename, sampleValue]).get [joinPath ["alice", "name"]] none =
        .ok (.object (shownFields ["alice", "name"] (lastWritten
          ((system sampleHost).steps (.new (sampleEnv "social" 0 (Nat.zero_le _)))
            [sampleLive, sampleName, sampleRename, sampleValue]) ["alice", "name"]))) :=
  get_last_written sampleHost (sampleEnv "social" 0 (Nat.zero_le _))
    [sampleLive, sampleName, sampleRename, sampleValue] (by decide +kernel) ["alice", "name"]
    (by decide) (by decide)

end UncContracts.Social
