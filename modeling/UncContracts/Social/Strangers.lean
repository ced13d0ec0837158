import UncContracts.Social.Heights
import UncContracts.Social.Rendering

/-!
# What strangers change

Reading below an account depends on the nodes of the account, and on the height of the root. The data
of a caller to whom the account has granted nothing changes no entry there, but it saves every node that
it visits at the height of the block, and reading shows the heights of nodes.

## Main definitions

* `Contract.ReadsSame`: reading with heights below an account is the same
* `Contract.UpToDate`: the nodes that data visits have the height of the block
* `Reaches`: a path of keys leads to a node
* `depthPattern`: the pattern for the paths of some length below an account

## Main results

* `readsSame_of_below`: reading depends on the nodes of the account
* `lookup_of_recursiveKeys`: reading keys shows the height of a node
* `strangers_iff`: what strangers change
-/

namespace UncContracts.Social

open Foundation HasTarget UnorderedMap

/-- A pattern is for paths under an account. -/
def IsUnder (a : AccountId) (pattern : String) : Prop := (splitPath pattern).head? = some a

/-- Reading values and keys with heights is the same under an account. -/
structure Contract.ReadsSame (a : AccountId) (c c' : Contract) : Prop where
  get : ∀ patterns options, (∀ pattern ∈ patterns, IsUnder a pattern) →
    options.withBlockHeight = some true → c'.get patterns (some options) = c.get patterns (some options)
  keys : ∀ patterns options, (∀ pattern ∈ patterns, IsUnder a pattern) →
    options.returnType = some .blockHeight →
      c'.keys patterns (some options) = c.keys patterns (some options)

/-- The nodes that the data of an account visits have the height of the block, as the root has if an
account is opened. -/
structure Contract.UpToDate (env : Env) (a : AccountId) (n : NodeId) (data : List (String × Json))
    (c : Contract) : Prop where
  visited : ∀ value m node, (a, value) ∈ data → Visits c.forest n value m →
    c.internalGetNode m = some node → node.blockHeight = env.blockHeight
  opened : (∃ id ∈ data.map Prod.fst, c.rootNode.children.get id = none) →
    c.rootNode.blockHeight = env.blockHeight

/-! ## Reading the same nodes -/

section Same

variable {c c' : Contract} {node child : Node} {n : NodeId} {a : AccountId} {key : String}
  {keys path : List String} {steps : ℕ}

theorem internalUnwrapNode_congr (h : c'.internalGetNode n = c.internalGetNode n) :
    c'.internalUnwrapNode n = c.internalUnwrapNode n := by
  rw [Contract.internalUnwrapNode, Contract.internalUnwrapNode, h]

/-- The nodes below a child of a node are below the node. -/
theorem below_of_child {m t : NodeId} (hnode : c.Holds n node)
    (hentry : node.children.get key = some (.node m)) (h : c.forest.Below m t) : c.forest.Below n t :=
  Relation.ReflTransGen.head ⟨key, _, (hnode key).trans hentry, rfl⟩ h

/-- Reading below a node depends on the nodes there. -/
theorem recursiveGet_of_below {options : GetOptions} (hsound : c.Sound) (hnode : c.Holds n node)
    (hsame : ∀ m, c.forest.Below n m → c'.internalGetNode m = c.internalGetNode m) (res : JsonMap) :
    c'.recursiveGet options steps res node path = c.recursiveGet options steps res node path := by
  induction steps generalizing n node path res with
  | zero => rfl
  | succ steps ih =>
    cases path with
    | nil => rfl
    | cons key keys =>
      rw [Contract.recursiveGet, Contract.recursiveGet]
      refine bind_congr fun _ => foldlM_congr ?_ _
      rintro res ⟨k, v⟩ hentry
      cases v with
      | value v | deletedEntry blockHeight => rfl
      | node m =>
        have hget := mem_matchedEntries hentry
        obtain ⟨child, hchild, hholds, -, -⟩ := hsound.exists_child hnode hget
        have hunwrap := internalUnwrapNode_congr (hsame m (below_of_child hnode hget (.refl _ m)))
        have hrec : ∀ res path, c'.recursiveGet options steps res child path =
            c.recursiveGet options steps res child path := fun res path =>
          ih hholds (fun t ht => hsame t (below_of_child hnode hget ht)) res
        simp only [Contract.getEntry, hunwrap, hchild, ok_bind, hrec]

/-- Reading keys below a node depends on the nodes there. -/
theorem recursiveKeys_of_below {options : KeysOptions} (hsound : c.Sound) (hnode : c.Holds n node)
    (hsame : ∀ m, c.forest.Below n m → c'.internalGetNode m = c.internalGetNode m) (res : JsonMap) :
    c'.recursiveKeys options path res node = c.recursiveKeys options path res node := by
  induction path generalizing n node res with
  | nil => rfl
  | cons key keys ih =>
    rw [Contract.recursiveKeys, Contract.recursiveKeys]
    refine foldlM_congr ?_ res
    rintro res ⟨k, v⟩ hentry
    cases v with
    | value v | deletedEntry blockHeight => rfl
    | node m =>
      have hget := mem_matchedEntries hentry
      obtain ⟨child, hchild, hholds, -, -⟩ := hsound.exists_child hnode hget
      have hunwrap := internalUnwrapNode_congr (hsame m (below_of_child hnode hget (.refl _ m)))
      have hrec : ∀ res, c'.recursiveKeys options keys res child =
          c.recursiveKeys options keys res child := fun res =>
        ih hholds (fun t ht => hsame t (below_of_child hnode hget ht)) res
      simp only [Contract.keysEntry, Contract.keysNodeValue, hunwrap, hchild, ok_bind, hrec]

theorem exists_path_of_isUnder {pattern : String} (h : IsUnder a pattern)
    (hpath : patternPath pattern = some path) : ∃ keys, path = a :: keys := by
  obtain ⟨rfl, hne, -⟩ := patternPath_eq_some.mp hpath
  unfold IsUnder at h
  obtain ⟨tail, htail⟩ := List.head?_eq_some_iff.mp h
  unfold patternParts stem at hne ⊢
  rw [htail] at hne ⊢
  split
  · next hlast =>
    rw [if_pos hlast] at hne
    cases tail with
    | nil => exact absurd rfl hne
    | cons k tail => exact ⟨_, List.dropLast_cons_of_ne_nil (List.cons_ne_nil k tail)⟩
  · exact ⟨tail, rfl⟩

theorem not_star_of_isValidAccountId (h : isValidAccountId a = true) :
    a ≠ STAR ∧ a ≠ RECURSIVE_STAR := by
  constructor
  · rintro rfl
    exact absurd h (by decide)
  · rintro rfl
    exact absurd h (by decide)

/-- An account is read through one entry of the root. -/
theorem matchedEntries_account (hvalid : isValidAccountId a = true)
    (ha : node.children.get a = some (.node n)) :
    node.matchedEntries a (decide (a = STAR) || decide (a = RECURSIVE_STAR)) = [(a, .node n)] := by
  obtain ⟨hstar, hstar'⟩ := not_star_of_isValidAccountId hvalid
  simp [Node.matchedEntries, hstar, hstar', ha]

section Account

variable (hsound : c.Sound) (hsound' : c'.Sound) (ha : c.rootNode.children.get a = some (.node n))
  (hid : c'.rootNode.nodeId = c.rootNode.nodeId)
  (hchild : c'.rootNode.children.get a = c.rootNode.children.get a)
  (hheight : c'.rootNode.blockHeight = c.rootNode.blockHeight)
  (hsame : ∀ m, c.forest.Below n m → c'.internalGetNode m = c.internalGetNode m)

include hsound hsound' ha hid hchild hheight hsame in
theorem recursiveGet_account {options : GetOptions} (res : JsonMap) :
    c'.recursiveGet options c'.nodeCount res c'.rootNode (a :: keys) =
      c.recursiveGet options c.nodeCount res c.rootNode (a :: keys) := by
  have hvalid := (hsound.root a _ ha).1
  have ha' : c'.rootNode.children.get a = some (.node n) := hchild.trans ha
  obtain ⟨child, hunwrap, hholds, hpos, hlt⟩ := hsound.exists_child c.holds_rootNode ha
  obtain ⟨child', hunwrap', hholds', -, hlt'⟩ := hsound'.exists_child c'.holds_rootNode ha'
  have heq := internalUnwrapNode_congr (hsame n (.refl _ n))
  rw [hunwrap, hunwrap'] at heq
  cases heq
  obtain ⟨steps, hsteps⟩ := Nat.exists_eq_succ_of_ne_zero hsound.count_pos.ne'
  obtain ⟨steps', hsteps'⟩ := Nat.exists_eq_succ_of_ne_zero hsound'.count_pos.ne'
  have hle : c.nodeCount ≤ steps + n := hsteps ▸ Nat.add_le_add_left hpos steps
  have hle' : c'.nodeCount ≤ steps' + n := hsteps' ▸ Nat.add_le_add_left hpos steps'
  have hboth : c.nodeCount ≤ steps + steps' + n := by
    rw [Nat.add_right_comm]
    exact hle.trans (Nat.le_add_right _ _)
  have hboth' : c'.nodeCount ≤ steps + steps' + n := by
    rw [Nat.add_assoc]
    exact hle'.trans (Nat.le_add_left _ _)
  -- The numbers of steps differ, but each of them is enough.
  have hrec : ∀ res path, c'.recursiveGet options steps' res child path =
      c.recursiveGet options steps res child path := by
    intro res path
    calc c'.recursiveGet options steps' res child path
        = c'.recursiveGet options (steps + steps') res child path :=
          recursiveGet_steps hsound' hholds' hlt' hle' hboth' res
      _ = c.recursiveGet options (steps + steps') res child path :=
          recursiveGet_of_below hsound hholds hsame res
      _ = c.recursiveGet options steps res child path :=
          recursiveGet_steps hsound hholds hlt hboth hle res
  rw [hsteps, hsteps', Contract.recursiveGet, Contract.recursiveGet, hid, hheight]
  refine bind_congr fun _ => ?_
  simp only [matchedEntries_account hvalid ha, matchedEntries_account hvalid ha', List.foldlM_cons,
    List.foldlM_nil, Contract.getEntry, hunwrap, hunwrap', ok_bind, hrec]

include hsound ha hchild hsame in
theorem recursiveKeys_account {options : KeysOptions} (res : JsonMap) :
    c'.recursiveKeys options (a :: keys) res c'.rootNode =
      c.recursiveKeys options (a :: keys) res c.rootNode := by
  have hvalid := (hsound.root a _ ha).1
  have ha' : c'.rootNode.children.get a = some (.node n) := hchild.trans ha
  obtain ⟨child, hunwrap, hholds, -, -⟩ := hsound.exists_child c.holds_rootNode ha
  have hunwrap' := (internalUnwrapNode_congr (hsame n (.refl _ n))).trans hunwrap
  have hrec : ∀ res, c'.recursiveKeys options keys res child = c.recursiveKeys options keys res child :=
    fun res => recursiveKeys_of_below hsound hholds hsame res
  have hstar := (not_star_of_isValidAccountId hvalid).1
  simp only [Contract.recursiveKeys, Node.matchedEntries, hstar, decide_false, Bool.false_eq_true,
    if_false, ha, ha', List.foldlM_cons, List.foldlM_nil, Contract.keysEntry, Contract.keysNodeValue,
    hunwrap, hunwrap', ok_bind, hrec]

include hsound hsound' ha hid hchild hheight hsame in
/-- **Reading under an account** depends on its nodes, and on the height of the root. -/
theorem readsSame_of_below : c.ReadsSame a c' := by
  refine ⟨fun patterns options hunder _ => ?_, fun patterns options hunder _ => ?_⟩
  · unfold Contract.get
    refine congrArg (· >>= _) (foldlM_congr (fun res pattern hpattern => ?_) _)
    unfold Contract.getKey
    cases hpath : patternPath pattern with
    | none => rfl
    | some path =>
      obtain ⟨keys, rfl⟩ := exists_path_of_isUnder (hunder pattern hpattern) hpath
      exact recursiveGet_account hsound hsound' ha hid hchild hheight hsame res
  · unfold Contract.keys
    refine congrArg (· >>= _) (foldlM_congr (fun res pattern hpattern => ?_) _)
    unfold Contract.keysKey
    cases hpath : patternPath pattern with
    | none => rfl
    | some path =>
      obtain ⟨keys, rfl⟩ := exists_path_of_isUnder (hunder pattern hpattern) hpath
      exact recursiveKeys_account hsound ha hchild hsame res

end Account

end Same

/-! ## The height of a node -/

/-- A path of keys leads to a node. -/
inductive Reaches (F : Forest String NodeValue) : NodeId → List String → NodeId → Prop
  | refl {n : NodeId} : Reaches F n [] n
  | step {n t m : NodeId} {key : String} {path : List String} (hentry : F.entry n key = some (.node t))
    (h : Reaches F t path m) : Reaches F n (key :: path) m

/-- The heights of nodes are shown. -/
def heightOptions : KeysOptions := { returnType := some .blockHeight }

section Keys

variable {c c' : Contract} {node target : Node} {n m : NodeId} {key : String} {keys path : List String}
  {res res' : JsonMap} {fields : String → JsonView} {F G : Forest String NodeValue}

theorem reaches_of_visits {value : Json} (h : Visits F n value m) : ∃ path, Reaches F n path m := by
  induction h with
  | here => exact ⟨[], .refl⟩
  | step _ hentry _ ih =>
    obtain ⟨path, hpath⟩ := ih
    exact ⟨_, .step hentry hpath⟩

theorem Reaches.congr (h : Reaches F n path m) (hentry : ∀ m, F.Below n m → G.entry m = F.entry m) :
    Reaches G n path m := by
  induction h with
  | refl => exact .refl
  | @step n t m key path hentry' h ih =>
    refine .step ?_ (ih fun m hm => hentry m (Relation.ReflTransGen.head ⟨_, _, hentry', rfl⟩ hm))
    rw [hentry n (.refl F n), hentry']

/-- An object takes a value under the empty key, and other values stay. -/
theorem setValue_isView (h : Json.IsView (.object res) (.object fields)) (key : String) (n : ℕ) :
    ∃ view, Json.IsView (.object (jsonMapSetValue res key (jsonNumber n)))
      (.object (Function.update fields key view)) ∧
      (fields key = .absent → view = .leaf (jsonNumber n)) := by
  cases hfind : find key res with
  | none =>
    simp only [jsonMapSetValue, hfind]
    exact ⟨_, h.write (.leaf rfl), fun _ => rfl⟩
  | some value =>
    have hvalue := h.field hfind
    have hne : fields key ≠ .absent := by
      intro habsent
      rw [habsent] at hvalue
      exact hvalue.not_absent
    rcases value.exists_object_or_leaf with ⟨o, rfl⟩ | hleaf
    · obtain ⟨inner, hinner⟩ := hvalue.exists_fields
      rw [hinner] at hvalue
      simp only [jsonMapSetValue, hfind]
      exact ⟨_, h.write (hvalue.write (.leaf rfl)), fun habsent => absurd habsent hne⟩
    · refine ⟨fields key, ?_, fun habsent => absurd habsent hne⟩
      rw [jsonMapSetValue_of_leaf hfind hleaf, Function.update_eq_self]
      exact h

/-- A step changes one field of an object. -/
def ChangesField (key : String) (res res' : JsonMap) : Prop :=
  ∀ fields, Json.IsView (.object res) (.object fields) →
    ∃ view, Json.IsView (.object res') (.object (Function.update fields key view))

/-- An entry that is matched changes the field of its key. -/
theorem keysEntry_changesField {recursiveKeys : JsonMap → Node → Exec JsonMap}
    (hrec : ∀ res fields child res', Json.IsView (.object res) (.object fields) →
      recursiveKeys res child = .ok res' → ∃ fields', Json.IsView (.object res') (.object fields'))
    {entry : String × NodeValue}
    (h : c.keysEntry heightOptions keys recursiveKeys res entry = .ok res') :
    ChangesField entry.1 res res' := by
  intro fields hview
  have hsame : ∃ view, Json.IsView (.object res) (.object (Function.update fields entry.1 view)) :=
    ⟨fields entry.1, by rw [Function.update_eq_self]; exact hview⟩
  have hset : ∀ n, ∃ view, Json.IsView (.object (jsonMapSetValue res entry.1 (jsonNumber n)))
      (.object (Function.update fields entry.1 view)) := fun n =>
    (setValue_isView hview entry.1 n).imp fun _ hset => hset.1
  obtain ⟨k, v⟩ := entry
  cases v with
  | value v =>
    simp only [Contract.keysEntry] at h
    split at h
    · cases h
      exact hset v.blockHeight
    · cases h
      exact hsame
  | deletedEntry blockHeight =>
    simp only [Contract.keysEntry] at h
    split at h
    · cases h
      exact hset blockHeight
    · cases h
      exact hsame
  | node m =>
    simp only [Contract.keysEntry] at h
    split at h
    · simp only [Contract.keysNodeValue, heightOptions, Option.getD_none, Bool.false_eq_true, if_false,
        Option.getD_some, bind_eq_ok, pure_eq_ok] at h
      obtain ⟨_, ⟨child, -, rfl⟩, rfl⟩ := h
      exact hset child.blockHeight
    · simp only [bind_eq_ok, pure_eq_ok] at h
      obtain ⟨child, -, inner, hinner, rfl⟩ := h
      obtain ⟨fields', hfields'⟩ := hrec _ _ child inner (innerObject_isView hview k) hinner
      exact ⟨_, hview.write hfields'⟩

/-- A fold over entries changes the fields of their keys. -/
theorem foldlM_changesField {step : JsonMap → String × NodeValue → Exec JsonMap}
    {l : List (String × NodeValue)} (hstep : ∀ res res' entry, step res entry = .ok res' →
      ChangesField entry.1 res res') (hview : Json.IsView (.object res) (.object fields))
    (h : l.foldlM step res = .ok res') :
    ∃ fields', Json.IsView (.object res') (.object fields') ∧
      ∀ k, k ∉ l.map Prod.fst → fields' k = fields k := by
  induction l generalizing res fields with
  | nil =>
    cases h
    exact ⟨fields, hview, fun _ _ => rfl⟩
  | cons entry l ih =>
    rw [List.foldlM_cons, bind_eq_ok] at h
    obtain ⟨res₁, hfirst, hrest⟩ := h
    obtain ⟨view, hview₁⟩ := hstep res res₁ entry hfirst fields hview
    obtain ⟨fields', hview', hkept⟩ := ih hview₁ hrest
    refine ⟨fields', hview', fun k hk => ?_⟩
    rw [List.map_cons, List.mem_cons, not_or] at hk
    rw [hkept k hk.2, Function.update_of_ne hk.1]

/-- Keys are read into an object that repeats no field. -/
theorem recursiveKeys_isView (hview : Json.IsView (.object res) (.object fields))
    (h : c.recursiveKeys heightOptions path res node = .ok res') :
    ∃ fields', Json.IsView (.object res') (.object fields') := by
  induction path generalizing res fields node res' with
  | nil => cases h
  | cons key keys ih =>
    obtain ⟨fields', hview', -⟩ := foldlM_changesField (fun res res' entry hentry =>
      keysEntry_changesField (fun _ _ _ _ hview hrec => ih hview hrec) hentry) hview h
    exact ⟨fields', hview'⟩

/-- The last key of a pattern shows the height of its node, if nothing is under the key. -/
theorem height_of_keysEntry {recursiveKeys : JsonMap → Node → Exec JsonMap}
    (hview : Json.IsView (.object res) (.object fields)) (habsent : fields key = .absent)
    (htarget : c.internalGetNode m = some target)
    (h : c.keysEntry heightOptions [] recursiveKeys res (key, .node m) = .ok res') :
    ∃ fields', Json.IsView (.object res') (.object fields') ∧
      fields' key = .leaf (jsonNumber target.blockHeight) := by
  have hunwrap := internalUnwrapNode_eq_ok_iff.mpr htarget
  simp only [Contract.keysEntry, if_true, Contract.keysNodeValue, heightOptions, Option.getD_none,
    Bool.false_eq_true, if_false, Option.getD_some, hunwrap, ok_bind, pure_bind, Option.elim_some,
    pure_eq_ok] at h
  subst h
  obtain ⟨view, hview', hleaf⟩ := setValue_isView hview key target.blockHeight
  refine ⟨_, hview', ?_⟩
  rw [Function.update_self, hleaf habsent]

/-- **Reading keys shows the height of a node** at the end of a path that the pattern matches. -/
theorem lookup_of_recursiveKeys (hsound : c.Sound) (hnode : c.Holds n node)
    (hreaches : Reaches c.forest n path m) (hne : path ≠ [])
    (htarget : c.internalGetNode m = some target)
    (hmatches : List.Forall₂ PartMatches keys path)
    (hview : Json.IsView (.object res) (.object fields))
    (habsent : ∀ k ∈ path.head?, fields k = .absent)
    (h : c.recursiveKeys heightOptions keys res node = .ok res') :
    ∃ fields', Json.IsView (.object res') (.object fields') ∧
      (JsonView.object fields').lookup path = .leaf (jsonNumber target.blockHeight) := by
  induction hreaches generalizing keys node res fields res' with
  | refl => exact absurd rfl hne
  | @step n t m k path hentry hreaches ih =>
    cases hmatches with
    | @cons key _ keys _ hpart hmatches =>
    have hget : node.children.get k = some (.node t) := (hnode k).symm.trans hentry
    obtain ⟨child, hchild, hholds, -, -⟩ := hsound.exists_child hnode hget
    have hmem : (k, NodeValue.node t) ∈ node.matchedEntries key (decide (key = STAR)) := by
      rw [mem_matchedEntries_iff, decide_eq_true_eq]
      exact ⟨hget, hpart⟩
    rw [Contract.recursiveKeys] at h
    have hnodup := nodup_matchedEntries node key (decide (key = STAR))
    obtain ⟨before, after, hsplit⟩ := List.append_of_mem hmem
    rw [hsplit] at h hnodup
    rw [List.map_append, List.map_cons, List.nodup_middle, List.nodup_cons, List.mem_append,
      not_or] at hnodup
    rw [List.foldlM_append, bind_eq_ok] at h
    obtain ⟨res₁, hbefore, h⟩ := h
    rw [List.foldlM_cons, bind_eq_ok] at h
    obtain ⟨res₂, hread, hafter⟩ := h
    have hstep : ∀ res res' entry, c.keysEntry heightOptions keys (c.recursiveKeys heightOptions keys)
        res entry = .ok res' → ChangesField entry.1 res res' := fun res res' entry hentry =>
      keysEntry_changesField (fun _ _ _ _ hview hrec => recursiveKeys_isView hview hrec) hentry
    obtain ⟨fields₁, hview₁, hkept₁⟩ := foldlM_changesField hstep hview hbefore
    have habsent₁ : fields₁ k = .absent := (hkept₁ k hnodup.1.1).trans (habsent k rfl)
    have hentry₂ : ∃ fields₂, Json.IsView (.object res₂) (.object fields₂) ∧
        (JsonView.object fields₂).lookup (k :: path) = .leaf (jsonNumber target.blockHeight) := by
      cases hmatches with
      | nil =>
        cases hreaches
        obtain ⟨fields₂, hview₂, hleaf⟩ := height_of_keysEntry hview₁ habsent₁ htarget hread
        exact ⟨fields₂, hview₂, by rw [JsonView.lookup_object, hleaf, JsonView.lookup_nil]⟩
      | @cons key' k' keys path hpart' hmatches =>
        simp only [Contract.keysEntry, reduceCtorEq, if_false, hchild, ok_bind, bind_eq_ok,
          pure_eq_ok] at hread
        obtain ⟨inner, hinner, rfl⟩ := hread
        have hempty := innerObject_isView hview₁ k
        rw [habsent₁] at hempty
        obtain ⟨fields₂, hview₂, hlookup⟩ := ih hholds (List.cons_ne_nil k' path) htarget
          (.cons hpart' hmatches) hempty (fun _ _ => rfl) hinner
        refine ⟨_, hview₁.write hview₂, ?_⟩
        rw [JsonView.lookup_object, Function.update_self, hlookup]
    obtain ⟨fields₂, hview₂, hlookup⟩ := hentry₂
    obtain ⟨fields', hview', hkept'⟩ := foldlM_changesField hstep hview₂ hafter
    refine ⟨fields', hview', ?_⟩
    rw [JsonView.lookup_object, hkept' k hnodup.1.2, ← JsonView.lookup_object, hlookup]

theorem Reaches.plain (hsound : c.Sound) (h : Reaches c.forest n path m) : ∀ k ∈ path, PlainKey k := by
  induction h with
  | refl =>
    intro k hk
    cases hk
  | step hentry _ ih =>
    rw [List.forall_mem_cons]
    exact ⟨hsound.keys _ _ _ hentry, ih⟩

/-- A view of keys returns, and shows the height of a node. -/
theorem lookup_of_keys (hsound : c.Sound) {pattern : String} (hpath : patternPath pattern = some keys)
    (hreaches : Reaches c.forest 0 path m) (hne : path ≠ [])
    (htarget : c.internalGetNode m = some target)
    (hmatches : List.Forall₂ PartMatches keys path) :
    ∃ res fields, c.keys [pattern] (some heightOptions) = .ok res ∧ res.IsView (.object fields) ∧
      (JsonView.object fields).lookup path = .leaf (jsonNumber target.blockHeight) := by
  have havoids : Avoids (fun _ => True) (c.keys [pattern] (some heightOptions)) :=
    keys_avoids hsound fun _ hvalues => absurd hvalues (by decide)
  obtain ⟨res, hres⟩ := havoids.exists_eq_ok
  have hread := hres
  simp only [Contract.keys, Option.getD_some, List.foldlM_cons, List.foldlM_nil, Contract.keysKey,
    hpath, bind_eq_ok, pure_eq_ok] at hread
  obtain ⟨_, ⟨fields, hfields, rfl⟩, rfl⟩ := hread
  obtain ⟨view, hview, hlookup⟩ := lookup_of_recursiveKeys hsound c.holds_rootNode hreaches hne htarget
    hmatches .noFields (fun _ _ => rfl) hfields
  refine ⟨_, cleanedFields view, hres, cleanup_isView hview, ?_⟩
  have hplain := hreaches.plain hsound
  cases path with
  | nil => exact absurd rfl hne
  | cons k path =>
    rw [List.forall_mem_cons] at hplain
    rw [JsonView.lookup_object] at hlookup ⊢
    rw [cleanedFields_of_plain hplain.1, lookup_cleanedView hplain.2, hlookup, cleanedView]

end Keys

/-! ## Patterns of stars -/

section Patterns

variable {a : AccountId}

/-- The pattern for all paths of some length below an account. -/
def depthPattern (a : AccountId) (depth : ℕ) : String := joinPath (a :: List.replicate depth STAR)

theorem splitPath_depthPattern (h : isValidAccountId a = true) (depth : ℕ) :
    splitPath (depthPattern a depth) = a :: List.replicate depth STAR := by
  refine splitPath_joinPath (List.cons_ne_nil a _) fun part hpart => ?_
  rcases List.mem_cons.mp hpart with rfl | hstar
  · exact separator_not_mem_of_isValidAccountId h
  · rw [List.eq_of_mem_replicate hstar]
    decide

theorem patternPath_depthPattern (h : isValidAccountId a = true) (depth : ℕ) :
    patternPath (depthPattern a depth) = some (a :: List.replicate depth STAR) := by
  have hlast : (a :: List.replicate depth STAR).getLast? ≠ some EMPTY_KEY := by
    intro hlast
    rcases List.mem_cons.mp (List.mem_of_getLast? hlast) with heq | hmem
    · exact ne_empty_of_isValidAccountId h heq.symm
    · exact absurd (List.eq_of_mem_replicate hmem) (by decide)
  rw [patternPath_eq_some, patternParts, stem, splitPath_depthPattern h, if_neg hlast]
  exact ⟨rfl, List.cons_ne_nil a _, hlast⟩

theorem isUnder_depthPattern (h : isValidAccountId a = true) (depth : ℕ) :
    ∀ pattern ∈ [depthPattern a depth], IsUnder a pattern := by
  rw [List.forall_mem_singleton, IsUnder, splitPath_depthPattern h]
  rfl

end Patterns

/-! ## What strangers change -/

section Root

variable {c : Contract} {a : AccountId} {n : NodeId}

/-- Reading an account with heights shows the height of the root. -/
theorem rootHeight_of_get (hsound : c.Sound) (ha : c.rootNode.children.get a = some (.node n)) :
    ∃ res fields, c.get [depthPattern a 0] (some { withBlockHeight := some true }) = .ok res ∧
      res.IsView (.object fields) ∧
        fields KEY_BLOCK_HEIGHT = .leaf (jsonNumber c.rootNode.blockHeight) := by
  have hvalid := (hsound.root a _ ha).1
  have hpath : patternPath (depthPattern a 0) = some [a] := patternPath_depthPattern hvalid 0
  have havoids : Avoids (fun _ => True)
      (c.get [depthPattern a 0] (some { withBlockHeight := some true })) := by
    refine get_avoids hsound fun _ pattern hpattern path hpath' => ?_
    rw [List.mem_singleton] at hpattern
    subst hpattern
    cases hpath.symm.trans hpath'
    exact List.not_mem_nil
  obtain ⟨res, hres⟩ := havoids.exists_eq_ok
  obtain ⟨res', hres', hview⟩ := get_of_draws (draws_of_get hsound hres)
  cases hres.symm.trans hres'
  refine ⟨res, _, hres, hview, ?_⟩
  obtain ⟨steps, hsteps⟩ := Nat.exists_eq_succ_of_ne_zero hsound.count_pos.ne'
  have hspecial : isSpecialKey KEY_BLOCK_HEIGHT = true := rfl
  have hnone : c.rootNode.children.get KEY_BLOCK_HEIGHT = none := by
    by_contra hsome
    obtain ⟨v, hv⟩ := Option.ne_none_iff_exists'.mp hsome
    have hplain := hsound.keys 0 KEY_BLOCK_HEIGHT v ((c.holds_rootNode KEY_BLOCK_HEIGHT).trans hv)
    cases hspecial.symm.trans hplain
  have hnot : ¬ (a = RECURSIVE_STAR ∧ ([] : List String) ≠ []) := fun h => h.2 rfl
  have hnumber : KEY_BLOCK_HEIGHT ≠ KEY_NODE_ID := by decide
  rw [cleanedFields, if_pos hspecial, Contract.patternsRead, List.foldl_cons, List.foldl_nil,
    patternRead_of_some hpath]
  simp only [hsteps, Contract.fieldRead, if_neg hnot, hnone, GetOptions.nodeView, Option.getD_some,
    hnumber, and_false, if_false, and_true, if_true]

end Root

section Changes

variable {env : Env} {c c' : Contract} {a : AccountId} {n : NodeId} {data : List (String × Json)}

theorem jsonNumber_injective : Function.Injective jsonNumber := by
  intro m n h
  injection h with hm
  exact Int.ofNat_inj.mp hm

/-- The path from the root to a node of an account. -/
theorem reaches_of_account {path : List String} {m : NodeId}
    (ha : c.rootNode.children.get a = some (.node n)) (h : Reaches c.forest n path m) :
    Reaches c.forest 0 (a :: path) m :=
  .step ((c.holds_rootNode a).trans ha) h

theorem partMatches_stars (path : List String) :
    List.Forall₂ PartMatches (List.replicate path.length STAR) path := by
  induction path with
  | nil => exact .nil
  | cons key path ih => exact .cons (.inl rfl) ih

/-- Nodes that are shown with the same height have the same height. -/
theorem blockHeight_eq_of_keys (hsound : c.Sound) (hsound' : c'.Sound) {path : List String} {m : NodeId}
    {node node' : Node} (hvalid : isValidAccountId a = true)
    (hreaches : Reaches c.forest 0 (a :: path) m) (hreaches' : Reaches c'.forest 0 (a :: path) m)
    (hnode : c.internalGetNode m = some node) (hnode' : c'.internalGetNode m = some node')
    (hsame : c.ReadsSame a c') : node'.blockHeight = node.blockHeight := by
  have hpath := patternPath_depthPattern hvalid path.length
  have hmatches : List.Forall₂ PartMatches (a :: List.replicate path.length STAR) (a :: path) :=
    .cons (.inr rfl) (partMatches_stars path)
  have hne : a :: path ≠ [] := List.cons_ne_nil a path
  obtain ⟨res, fields, hkeys, hview, hleaf⟩ := lookup_of_keys hsound hpath hreaches hne hnode hmatches
  obtain ⟨res', fields', hkeys', hview', hleaf'⟩ :=
    lookup_of_keys hsound' hpath hreaches' hne hnode' hmatches
  have hread := hsame.keys [depthPattern a path.length] heightOptions
    (isUnder_depthPattern hvalid path.length) rfl
  rw [hkeys, hkeys'] at hread
  cases hread
  rw [hview'.unique hview, hleaf] at hleaf'
  injection hleaf' with hnumber
  exact (jsonNumber_injective hnumber).symm

/-- **What the reader of an account sees** of the data of a stranger. -/
theorem readsSame_iff_of_touched (hsound : c.Sound) (hsound' : c'.Sound)
    (ha : c.rootNode.children.get a = some (.node n))
    (h : Touched env a n (fun m => ∃ value, (a, value) ∈ data ∧ Visits c.forest n value m)
      (∃ id ∈ data.map Prod.fst, c.rootNode.children.get id = none) c c') :
    c.ReadsSame a c' ↔ c.UpToDate env a n data := by
  have hvalid := (hsound.root a _ ha).1
  obtain ⟨-, -, -, hpos, -⟩ := hsound.exists_child c.holds_rootNode ha
  have hentry : ∀ m, c.forest.Below n m → c'.forest.entry m = c.forest.entry m :=
    fun m hm => h.entry_eq hsound.grown hpos m hm
  have ha' : c'.rootNode.children.get a = some (.node n) := h.child.trans ha
  constructor
  · intro hsame
    refine ⟨fun value m node hvalue hvisits hnode => ?_, fun hopened => ?_⟩
    · obtain ⟨path, hreaches⟩ := reaches_of_visits hvisits
      have hvisited := h.visited m (below_of_visits hvisits) ⟨value, hvalue, hvisits⟩
      rw [hnode] at hvisited
      exact (blockHeight_eq_of_keys hsound hsound' hvalid (reaches_of_account ha hreaches)
        (reaches_of_account ha' (hreaches.congr hentry)) hnode hvisited hsame).symm
    · obtain ⟨res, fields, hget, hview, hleaf⟩ := rootHeight_of_get hsound ha
      obtain ⟨res', fields', hget', hview', hleaf'⟩ := rootHeight_of_get hsound' ha'
      have hread := hsame.get [depthPattern a 0] { withBlockHeight := some true }
        (isUnder_depthPattern hvalid 0) rfl
      rw [hget, hget'] at hread
      cases hread
      cases hview.unique hview'
      rw [hleaf] at hleaf'
      injection hleaf' with hnumber
      exact (jsonNumber_injective hnumber).trans (h.opened hopened)
  · intro hdate
    have hheight : c'.rootNode.blockHeight = c.rootNode.blockHeight := by
      by_cases hopened : ∃ id ∈ data.map Prod.fst, c.rootNode.children.get id = none
      · rw [h.opened hopened, hdate.opened hopened]
      · exact h.notOpened hopened
    refine readsSame_of_below hsound hsound' ha h.rootId h.child hheight fun m hm => ?_
    by_cases hvisited : ∃ value, (a, value) ∈ data ∧ Visits c.forest n value m
    · rw [h.visited m hm hvisited]
      cases hnode : c.internalGetNode m with
      | none => rfl
      | some node =>
        obtain ⟨value, hvalue, hvisits⟩ := hvisited
        have hstamped : node.stamped env = node := by
          rw [Node.stamped, ← hdate.visited value m node hvalue hvisits hnode]
        rw [Option.map_some, hstamped]
    · exact h.kept m hm hvisited

end Changes

/-- **What strangers change.** In every contract that calls lead to, a `set` of a caller to whom an
account has granted nothing leaves everything that is read with heights under the account as it is if
and only if the nodes of the account that the data visits have the height of the block already, as the
root has if the data opens an account. -/
theorem strangers_iff (host : Host) (start env : Env) (calls : List Call)
    (fields : List (String × Json)) (options : Option SetOptions) (c c' : Contract)
    (hc : c = (system host).run (.new start) calls) (a : AccountId) (n : NodeId)
    (ha : c.rootNode.children.get a = some (.node n)) (hother : a ≠ env.predecessorAccountId)
    (hgranted : ∀ m, ¬ Granted env c n m)
    (h : (system host).step c ⟨env, .set (.object fields) options⟩ = .ok c') :
    c.ReadsSame a c' ↔ c.UpToDate env a n fields := by
  have hsound : c.Sound := hc ▸ sound_run host start calls
  have hsound' := sound_step hsound h
  simp only [system, bind_eq_ok, pure_eq_ok] at h
  obtain ⟨⟨c₁, transfers⟩, hcall, rfl⟩ := h
  simp only [Contract.call, bind_eq_ok, ensure_eq_ok, Contract.set, expect_eq_ok, pure_eq_ok,
    Prod.mk.injEq] at hcall
  obtain ⟨_, -, _, -, _, -, obj, hobj, ⟨c₂, transfers₂, rest⟩, hset, _, -, rfl, rfl⟩ := hcall
  cases hobj
  have htouched := touched_of_setAccounts hsound ha hother hgranted hset
  exact readsSame_iff_of_touched hsound hsound' ha htouched

/-! ## An empty object from a stranger -/

/-- Another account sends no data for an account. -/
def sampleStranger (blockHeight : ℕ) : Call where
  env := { sampleEnv "bob" 0 (Nat.zero_le _) with blockHeight }
  method := .set (.object [("alice", .object [])]) none

theorem not_granted_sampleOwned (env : Env) (m : NodeId) : ¬ Granted env sampleOwned 1 m := by
  have hempty : (sampleOwned.permissionsOf 1).entries = [] := by decide +kernel
  rintro ⟨key, nodeIds, -, hget, -⟩
  rw [UnorderedMap.get, hempty] at hget
  cases hget

theorem strangers_iff_sampleOwned :
    sampleOwned.ReadsSame "alice" ((system sampleHost).exec sampleOwned (sampleStranger 0)) ↔
      sampleOwned.UpToDate (sampleStranger 0).env "alice" 1 [("alice", .object [])] :=
  strangers_iff sampleHost (sampleEnv "social" 0 (Nat.zero_le _)) (sampleStranger 0).env
    [sampleLive, sampleOwnValue] [("alice", .object [])] none sampleOwned _ rfl "alice" 1
    (by decide +kernel) (by decide) (not_granted_sampleOwned _)
    (Machine.step_eq_exec (by decide +kernel))

/-- The node of the account takes the height of the block. -/
theorem not_strangers :
    ¬ ∀ (host : Host) (start env : Env) (calls : List Call) (fields : List (String × Json))
      (options : Option SetOptions) (c c' : Contract), c = (system host).run (.new start) calls →
      ∀ (a : AccountId) (n : NodeId), c.rootNode.children.get a = some (.node n) →
      a ≠ env.predecessorAccountId → (∀ m, ¬ Granted env c n m) →
      (system host).step c ⟨env, .set (.object fields) options⟩ = .ok c' → c.ReadsSame a c' := by
  intro h
  have hstep : (system sampleHost).step sampleOwned (sampleStranger 5) =
      .ok ((system sampleHost).exec sampleOwned (sampleStranger 5)) :=
    Machine.step_eq_exec (by decide +kernel)
  have ha : sampleOwned.rootNode.children.get "alice" = some (.node 1) := by decide +kernel
  have hsame := h sampleHost (sampleEnv "social" 0 (Nat.zero_le _)) (sampleStranger 5).env
    [sampleLive, sampleOwnValue] [("alice", .object [])] none sampleOwned _ rfl "alice" 1 ha
    (by decide) (not_granted_sampleOwned _) hstep
  have hsound : sampleOwned.Sound := sound_run _ _ _
  have ha' : ((system sampleHost).exec sampleOwned (sampleStranger 5)).rootNode.children.get
      "alice" = some (.node 1) := by decide +kernel
  obtain ⟨node, hnode, hheight⟩ := Option.map_eq_some_iff.mp
    (show (sampleOwned.internalGetNode 1).map (·.blockHeight) = some 0 by decide +kernel)
  obtain ⟨node', hnode', hheight'⟩ := Option.map_eq_some_iff.mp
    (show (((system sampleHost).exec sampleOwned (sampleStranger 5)).internalGetNode 1).map
      (·.blockHeight) = some 5 by decide +kernel)
  have heq := blockHeight_eq_of_keys hsound (sound_step hsound hstep) (hsound.root _ _ ha).1
    (reaches_of_account ha .refl) (reaches_of_account ha' .refl) hnode hnode' hsame
  rw [hheight, hheight'] at heq
  cases heq

end UncContracts.Social
