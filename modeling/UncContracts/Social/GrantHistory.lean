import UncContracts.Social.PermissionView
import UncContracts.Social.Registers

/-!
# The history of permissions

A permission is never taken back. Nodes stay where they are, whatever is written above or below them,
and each grant adds to what an account has granted before. Whether a permission is granted for a key
can be told from the grants of a run alone: one of them was for the key or for a part of its path.

## Main definitions

* `Contract.Lets`: an account lets a permission key write below a node
* `Contract.GrantsAt`, `Method.GrantsAt`: a path is granted by a contract, and by a call

## Main results

* `walk_leads`: the path of a key that is granted leads to its node
* `grantsAt_of_step`: a step grants the paths that it names, and takes none back
* `grantsAt_run`: after a run the paths are granted that its steps have granted
* `isWritePermissionGranted_run`: the view of a permission tells what was granted
-/

namespace UncContracts.Social

open Foundation HasTarget

/-- The account of a node lets a permission key write below another node. -/
def Contract.Lets (c : Contract) (n : NodeId) (key : PermissionKey) (m : NodeId) : Prop :=
  ∃ nodeIds, (c.permissionsOf n).get key = some (.granted nodeIds) ∧ m ∈ nodeIds

/-- A path leads to a node that is granted to a permission key. -/
def Contract.GrantsAt (c : Contract) (key : PermissionKey) (path : List String) : Prop :=
  ∃ n m, c.Lets n key m ∧ c.forest.Leads 0 path m

/-- A call grants a path to a permission key. -/
def Method.GrantsAt : Method → PermissionKey → List String → Prop
  | .grantWritePermission predecessorId publicKey keys, key, path =>
    Contract.permissionKeyOf predecessorId publicKey = .ok key ∧ ∃ k ∈ keys, splitPath k = path
  | _, _, _ => False

/-! ## Walking down a key -/

section Walks

variable {host : Host} {env : Env} {c c' : Contract} {node node' : Node} {id : AccountId}
  {account account' : Account} {F : Forest String NodeValue} {key : String} {path : List String}

/-- **A path that is walked leads to the last node.** -/
theorem walk_leads (hF : InMemory F c node)
    (h : Contract.walk env c node path = .ok (c', node')) :
    ∃ G, Walked F c node (fun _ => True) c' node' G ∧ G.Leads node.nodeId path node'.nodeId := by
  induction path generalizing c node F with
  | nil =>
    cases h
    exact ⟨F, .refl hF, .refl _⟩
  | cons key path ih =>
    simp only [Contract.walk, assertKeyValid, bind_eq_ok, ensure_eq_ok] at h
    obtain ⟨_, hvalid, h⟩ := h
    have hfresh : ∀ child, Node.new env c.nodeCount (node.children.get key) = .ok child →
        Contract.walk env (({ c with nodeCount := c.nodeCount + 1 } : Contract).internalSetNode env
          (node.insertChild key (.node c.nodeCount))) child path = .ok (c', node') →
        ∃ G, Walked F c node (fun _ => True) c' node' G ∧
          G.Leads node.nodeId (key :: path) node'.nodeId := by
      intro child hchild h
      obtain ⟨hid, hmemory⟩ := hF.of_new hchild
      obtain ⟨G, hG, hleads⟩ := ih hmemory h
      refine ⟨G, .of_new hF hvalid trivial hchild hG, .step (v := .node c.nodeCount) ?_ ?_ hleads⟩
      · refine hG.writes.entry_of_target hmemory.grown (hmemory.count ▸ hmemory.lt_count) _ _ _
          c.nodeCount ?_ rfl
        have hlt : node.nodeId < F.count := hF.count ▸ hF.lt_count
        simp [Forest.link, hlt.ne]
      · rw [hid]
        rfl
    split at h
    · next hnone =>
      simp only [bind_eq_ok] at h
      obtain ⟨⟨c₁, i⟩, hcreate, child, hchild, h⟩ := h
      obtain ⟨-, rfl, rfl⟩ := createNodeId_eq_ok.mp hcreate
      exact hfresh child (hnone ▸ hchild) h
    · next i hentry =>
      simp only [bind_eq_ok] at h
      obtain ⟨child, hchild, h⟩ := h
      obtain ⟨hid, -, hmemory⟩ := hF.of_stored env hentry hchild
      obtain ⟨G, hG, hleads⟩ := ih hmemory h
      refine ⟨G, .of_stored hF hentry hchild hG, .step (v := .node i) ?_ (hid ▸ rfl) hleads⟩
      refine hG.writes.entry_of_target hmemory.grown (hmemory.count ▸ hmemory.lt_count) _ _ _ i ?_ rfl
      rw [hF.entry]
      exact hentry
    · next old _ hentry =>
      simp only [bind_eq_ok, ensure_eq_ok] at h
      obtain ⟨_, -, ⟨c₁, i⟩, hcreate, child, hchild, h⟩ := h
      obtain ⟨-, rfl, rfl⟩ := createNodeId_eq_ok.mp hcreate
      exact hfresh child (hentry ▸ hchild) h

/-- A key that is granted leads from the root to its node. -/
theorem leads_of_grantKey {i : NodeId} (hsound : c.Sound)
    (hid : c.rootNode.children.get id = some (.node account.nodeId))
    (h : c.grantKey host env id account key = .ok (c', account', i)) :
    c'.permissions = c.permissions ∧ c'.forest.Leads 0 (splitPath key) i := by
  simp only [Contract.grantKey, bind_eq_ok, ensure_eq_ok, pure_eq_ok, Prod.mk.injEq] at h
  obtain ⟨t₁, -, _, -, _, hhead, node, hnode, ⟨c₁, node₁⟩, hwalk, t₂, -, rfl, -, rfl⟩ := h
  obtain ⟨hnodeId, -, hmemory⟩ := hsound.reads (hsound.lt_count hid).1 hnode
  obtain ⟨G, hG, hleads⟩ := walk_leads hmemory hwalk
  refine ⟨?_, ?_⟩
  · show c₁.permissions = c.permissions
    rw [hG.frame]
  · obtain ⟨rest, hrest⟩ := List.head?_eq_some_iff.mp hhead
    rw [hG.inMemory.saved, hrest]
    rw [hrest, hnodeId] at hleads
    refine .step (v := .node account.nodeId) ?_ rfl hleads
    exact hG.writes.entry_of_target hsound.grown hmemory.lt_count 0 id _ _ hid rfl

/-- Keys are granted beside some nodes: each leads to one of the nodes after it, and what is neither
from before nor led to is not among them. -/
structure GrantsKeys (c : Contract) (keys : List String) (nodeIds : Finset NodeId) (c' : Contract)
    (nodeIds' : Finset NodeId) : Prop where
  permissions : c'.permissions = c.permissions
  kept : ∀ m k v t, c.forest.entry m k = some v → target v = some t → c'.forest.entry m k = some v
  leads : ∀ key ∈ keys, ∃ i ∈ nodeIds', c'.forest.Leads 0 (splitPath key) i
  subset : nodeIds ⊆ nodeIds'
  mem : ∀ i ∈ nodeIds', i ∈ nodeIds ∨ ∃ key ∈ keys, c'.forest.Leads 0 (splitPath key) i

/-- **The nodes of the keys that are granted** are those that the keys lead to, beside those from
before. -/
theorem grantsKeys_of_grantKeys {keys : List String} {nodeIds nodeIds' : Finset NodeId}
    (hsound : c.Sound) (hid : c.rootNode.children.get id = some (.node account.nodeId))
    (hn : account.nodeId ∈ c.accounts)
    (h : Contract.grantKeys host env id c account keys nodeIds = .ok (c', account', nodeIds')) :
    account'.nodeId = account.nodeId ∧ GrantsKeys c keys nodeIds c' nodeIds' := by
  induction keys generalizing c account nodeIds with
  | nil =>
    cases h
    exact ⟨rfl, rfl, fun _ _ _ _ hentry _ => hentry, fun _ hkey => absurd hkey List.not_mem_nil,
      Finset.Subset.refl _, fun _ => .inl⟩
  | cons key keys ih =>
    simp only [Contract.grantKeys, bind_eq_ok] at h
    obtain ⟨⟨c₁, account₁, i⟩, hkey, h⟩ := h
    obtain ⟨hedits, -, t, haccount, -⟩ :=
      edits_of_grantKey (L := fun _ => True) hsound hn (fun _ _ => trivial) hkey
    obtain ⟨hpermissions, hleads⟩ := leads_of_grantKey hsound hid hkey
    have hkept := hedits.writes.entry_of_target hsound.grown (hsound.account_lt_count hn).2
    have hnodeId : account₁.nodeId = account.nodeId := by rw [haccount]
    have hid₁ : c₁.rootNode.children.get id = some (.node account₁.nodeId) := by
      rw [hedits.frame, hnodeId]
      exact hid
    have hn₁ : account₁.nodeId ∈ c₁.accounts := by
      rw [hedits.frame, hnodeId]
      exact hn
    obtain ⟨hlast, hrest⟩ := ih (hedits.sound hsound hn) hid₁ hn₁ h
    have hfirst : c'.forest.Leads 0 (splitPath key) i := hleads.mono hrest.kept
    refine ⟨hlast.trans hnodeId, hrest.permissions.trans hpermissions, ?_, ?_, ?_, ?_⟩
    · intro m k v t hentry htarget
      exact hrest.kept m k v t (hkept m k v t hentry htarget) htarget
    · rw [List.forall_mem_cons]
      exact ⟨⟨i, hrest.subset (Finset.mem_insert_self i nodeIds), hfirst⟩, hrest.leads⟩
    · exact (Finset.subset_insert i nodeIds).trans hrest.subset
    · intro j hj
      rcases hrest.mem j hj with hj | ⟨key', hkey', hj⟩
      · rcases Finset.mem_insert.mp hj with rfl | hj
        · exact .inr ⟨key, List.mem_cons_self .., hfirst⟩
        · exact .inl hj
      · exact .inr ⟨key', List.mem_cons_of_mem _ hkey', hj⟩

end Walks

/-! ## Steps -/

section Steps

variable {host : Host} {env : Env} {c c' : Contract} {n m : NodeId} {id : AccountId}
  {account account' : Account} {key key' : PermissionKey} {path : List String}
  {transfers : List Transfer}

/-- What an account lets a permission key write below is in its tree. -/
theorem Contract.Lets.below (h : c.Lets n key m) (hsound : c.Sound) :
    n ∈ c.accounts ∧ c.forest.Below n m := by
  obtain ⟨nodeIds, hget, hm⟩ := h
  refine ⟨?_, hsound.permissions n key nodeIds hget m hm⟩
  refine hsound.granters n (AList.lookup_isSome.mp ?_)
  cases hlookup : c.permissions.lookup n with
  | none =>
    rw [Contract.permissionsOf, hlookup] at hget
    cases hget
  | some permissions => rfl

theorem Contract.Lets.lt_count (h : c.Lets n key m) (hsound : c.Sound) : m < c.forest.count :=
  hsound.grown.lt_count_of_below (h.below hsound).2 (hsound.account_lt_count (h.below hsound).1).2

theorem lets_congr (h : c'.permissions = c.permissions) : c'.Lets n key m ↔ c.Lets n key m := by
  simp only [Contract.Lets, Contract.permissionsOf, h]

/-- With the same permissions the same paths are granted, if nodes stay where they are. -/
theorem grantsAt_of_kept (hsound : c.Sound) (hsound' : c'.Sound)
    (hkept : ∀ m k v t, c.forest.entry m k = some v → target v = some t →
      c'.forest.entry m k = some v)
    (hpermissions : c'.permissions = c.permissions) : c'.GrantsAt key path ↔ c.GrantsAt key path := by
  constructor
  · rintro ⟨n, m, h, hleads⟩
    rw [lets_congr hpermissions] at h
    exact ⟨n, m, h, hsound.rooted.leads_of_kept hsound'.grown hkept hleads (h.lt_count hsound)⟩
  · rintro ⟨n, m, h, hleads⟩
    exact ⟨n, m, (lets_congr hpermissions).mpr h, hleads.mono hkept⟩

/-- An account that is registered has granted nothing. -/
theorem Registers.grantsAt (h : Registers env c c') (hsound : c.Sound) (hsound' : c'.Sound) :
    c'.GrantsAt key path ↔ c.GrantsAt key path := by
  cases h with
  | same _ hforest hpermissions =>
    refine grantsAt_of_kept hsound hsound' (fun m k v t hentry _ => ?_) hpermissions
    rw [hforest, hentry]
  | opened hid hnew _ hforest hpermissions =>
    refine grantsAt_of_kept hsound hsound' ?_ hpermissions
    rw [hforest, Contract.forest_opened env _ _ _ hsound.count_pos]
    refine hsound.grown.link_entry_of_target ?_
    intro v hv
    cases hnew.symm.trans hv

/-- Setting a permission replaces what one account lets one permission key write below. -/
theorem lets_of_internalSetPermission {nodeIds : Finset NodeId}
    (h : c.internalSetPermission host account key (.granted nodeIds) = .ok (c', account')) :
    c'.Lets n key' m ↔ if n = account.nodeId ∧ key' = key then m ∈ nodeIds else c.Lets n key' m := by
  simp only [Contract.internalSetPermission, bind_eq_ok, pure_eq_ok, Prod.mk.injEq] at h
  obtain ⟨_, -, _, -, rfl, -⟩ := h
  by_cases hn : n = account.nodeId
  · subst hn
    simp only [Contract.Lets, Contract.permissionsOf, AList.lookup_insert, Option.getD_some, true_and]
    by_cases hempty : Permission.isEmpty (.granted nodeIds) = true
    · have hnil : nodeIds = ∅ := of_decide_eq_true hempty
      simp only [if_pos hempty, UnorderedMap.get_remove_eq_some]
      by_cases hkey : key' = key
      · simp [hkey, hnil]
      · simp [hkey]
    · simp only [if_neg hempty]
      by_cases hkey : key' = key
      · simp [hkey]
      · simp [hkey, UnorderedMap.get_insert_of_ne hkey]
  · simp only [Contract.Lets, Contract.permissionsOf, AList.lookup_insert_ne hn, hn, false_and,
      if_false]

/-- **A grant** adds the paths of its keys to those that are granted. -/
theorem grantsAt_of_grantWritePermission {predecessorId : Option AccountId}
    {publicKey : Option PublicKey} {keys : List String} (hsound : c.Sound) (hsound' : c'.Sound)
    (h : c.grantWritePermission host env predecessorId publicKey keys = .ok (c', transfers)) :
    c'.GrantsAt key path ↔ c.GrantsAt key path ∨
      Contract.permissionKeyOf predecessorId publicKey = .ok key ∧ ∃ k ∈ keys, splitPath k = path := by
  simp only [Contract.grantWritePermission, bind_eq_ok, ensure_eq_ok, pure_eq_ok,
    Prod.mk.injEq] at h
  obtain ⟨_, -, _, -, key₀, hkey₀, ⟨c₁, transfers₁, account⟩, hcreate, ⟨c₂, account₂, nodeIds⟩, hgrant,
    ⟨c₃, account₃⟩, hpermission, ⟨c₄, existed⟩, hsave, rfl, -⟩ := h
  obtain ⟨-, _, _, n, a, balance, hmoves, -, hn, ha, -, rfl⟩ :=
    moves_of_internalUnwrapAccountOrCreate (fun _ => True) (fun _ => True) hsound hcreate
  have hsound₁ := hmoves.sound hsound
  dsimp only at hgrant hpermission hsave
  obtain ⟨hnodeId, hkeys⟩ := grantsKeys_of_grantKeys hsound₁ hn (mem_accounts_of_lookup ha) hgrant
  obtain ⟨-, -, a', hsaves⟩ := internalSetAccount_saves hsave
  have hforest : c₄.forest = c₂.forest :=
    hsaves.forest_eq.trans (forest_eq_of_internalSetPermission hpermission)
  have hgrown : c₂.forest.Grown := hforest ▸ hsound'.grown
  have hregisters : c₁.GrantsAt key path ↔ c.GrantsAt key path :=
    (registers_of_internalUnwrapAccountOrCreate hsound hcreate).grantsAt hsound hsound₁
  have hold : ∀ i, i ∈ (((c₁.permissionsOf n).get key₀).getD (.granted ∅)).1 ↔ c₁.Lets n key₀ i := by
    intro i
    cases hget : (c₁.permissionsOf n).get key₀ with
    | none => simp [Contract.Lets, hget]
    | some permission =>
      obtain ⟨nodeIds₀⟩ := permission
      simp [Contract.Lets, hget]
  have hlets : ∀ n' m, c₄.Lets n' key m ↔
      if n' = n ∧ key = key₀ then m ∈ nodeIds else c₁.Lets n' key m := by
    intro n' m
    rw [lets_congr hsaves.permissions_eq, lets_of_internalSetPermission hpermission,
      lets_congr hkeys.permissions, hnodeId]
    rfl
  constructor
  · rintro ⟨n', m, h, hleads⟩
    rw [hforest] at hleads
    have hbefore : c₁.Lets n' key m → c.GrantsAt key path := fun h =>
      hregisters.mp ⟨n', m, h, hsound₁.rooted.leads_of_kept hgrown hkeys.kept hleads (h.lt_count hsound₁)⟩
    rw [hlets] at h
    split at h
    · next heq =>
      obtain ⟨rfl, rfl⟩ := heq
      rcases hkeys.mem m h with hm | ⟨k, hk, hleads'⟩
      · exact .inl (hbefore ((hold m).mp hm))
      · exact .inr ⟨hkey₀, k, hk, hgrown.path_unique hleads' hleads⟩
    · exact .inl (hbefore h)
  · rintro (hgrants | ⟨hkey, k, hk, rfl⟩)
    · obtain ⟨n', m, h, hleads⟩ := hregisters.mpr hgrants
      refine ⟨n', m, (hlets n' m).mpr ?_, hforest ▸ hleads.mono hkeys.kept⟩
      split
      · next heq =>
        obtain ⟨rfl, rfl⟩ := heq
        exact hkeys.subset ((hold m).mpr h)
      · exact h
    · obtain rfl : key = key₀ := Except.ok.inj (hkey.symm.trans hkey₀)
      obtain ⟨i, hi, hleads⟩ := hkeys.leads k hk
      refine ⟨n, i, (hlets n i).mpr ?_, hforest ▸ hleads⟩
      rw [if_pos ⟨rfl, rfl⟩]
      exact hi

/-- **A step grants** the paths that it names, and takes none back. -/
theorem grantsAt_of_step {call : Call} (hsound : c.Sound) (h : (system host).step c call = .ok c') :
    c'.GrantsAt key path ↔ c.GrantsAt key path ∨ call.method.GrantsAt key path := by
  have hsound' := sound_step hsound h
  obtain ⟨env, method⟩ := call
  obtain ⟨transfers, hcall⟩ := step_eq_ok.mp h
  by_cases hstorage : method.IsStorage
  · have hgrants : c'.GrantsAt key path ↔ c.GrantsAt key path :=
      (registers_of_call hstorage hcall).grantsAt hsound hsound'
    cases method <;> first | exact hstorage.elim | exact hgrants.trans (or_iff_left id).symm
  · simp only [Contract.call, bind_eq_ok, ensure_eq_ok] at hcall
    obtain ⟨_, -, _, -, hcall⟩ := hcall
    cases method with
    | set data options =>
      simp only [Contract.set, bind_eq_ok, ensure_eq_ok, pure_eq_ok, Prod.mk.injEq] at hcall
      obtain ⟨_, -, obj, -, ⟨c₂, transfers₂, rest⟩, hset, _, -, rfl, -⟩ := hcall
      have hauthorized := authorized_of_setAccounts hsound hset
      exact (grantsAt_of_kept hsound hsound' hauthorized.kept hauthorized.permissions).trans
        (or_iff_left id).symm
    | grantWritePermission predecessorId publicKey keys =>
      exact grantsAt_of_grantWritePermission hsound hsound' hcall
    | _ => exact absurd trivial hstorage

/-- **After a run** the paths are granted that its steps have granted. -/
theorem grantsAt_run (host : Host) (start : Env) (calls : List Call) (key : PermissionKey)
    (path : List String) : ((system host).run (.new start) calls).GrantsAt key path ↔
      ∃ x ∈ (system host).steps (.new start) calls, x.label.method.GrantsAt key path := by
  have hnew : ¬ (Contract.new start).GrantsAt key path := by
    rintro ⟨n, m, ⟨nodeIds, hget, -⟩, -⟩
    cases hget
  refine (Machine.mark_iff (P := fun c : Contract => c.GrantsAt key path) ?_).trans
    (or_iff_right hnew)
  intro x hx
  obtain ⟨pre, -, -, hbefore, hstep⟩ := Machine.mem_steps_iff.mp hx
  exact grantsAt_of_step (hbefore ▸ sound_run host start pre) hstep

end Steps

/-! ## The view -/

section View

variable {c : Contract} {F : Forest String NodeValue} {W : Finset NodeId} {n m : NodeId}
  {a key : String} {path : List String} {permissionKey : PermissionKey}

/-- A path goes through a node if a part of it leads there. -/
theorem through_iff_leads :
    Through F W n path ↔ ∃ init, init <+: path ∧ ∃ m ∈ W, F.Leads n init m := by
  induction path generalizing n with
  | nil =>
    constructor
    · exact fun h => ⟨[], List.nil_prefix, n, h, .refl n⟩
    · rintro ⟨init, hinit, m, hm, hleads⟩
      rw [List.prefix_nil] at hinit
      subst hinit
      cases hleads
      exact hm
  | cons key path ih =>
    constructor
    · rintro (h | ⟨t, hentry, h⟩)
      · exact ⟨[], List.nil_prefix, n, h, .refl n⟩
      · obtain ⟨init, hinit, m, hm, hleads⟩ := ih.mp h
        exact ⟨key :: init, List.cons_prefix_cons.mpr ⟨rfl, hinit⟩, m, hm, .step hentry rfl hleads⟩
    · rintro ⟨init, hinit, m, hm, hleads⟩
      cases hleads with
      | refl => exact .inl hm
      | step hentry hv hleads =>
        obtain ⟨rfl, hrest⟩ := List.cons_prefix_cons.mp hinit
        rw [target_eq_some.mp hv] at hentry
        exact .inr ⟨_, hentry, ih.mpr ⟨_, hrest, m, hm, hleads⟩⟩

/-- A path that is granted starts with the id of the account that lets write there. -/
theorem Contract.Lets.exists_cons (h : c.Lets n permissionKey m) (hsound : c.Sound)
    (hleads : c.forest.Leads 0 path m) : ∃ id rest, path = id :: rest ∧
      c.rootNode.children.get id = some (.node n) ∧ c.forest.Leads n rest m := by
  obtain ⟨hn, hbelow⟩ := h.below hsound
  cases hleads with
  | refl =>
    have hpos := (hsound.account_lt_count hn).1
    exact absurd (hsound.grown.le_of_below hbelow) (Nat.not_le.mpr hpos)
  | @step _ _ t id v rest hentry hv hleads =>
    rw [target_eq_some.mp hv] at hentry
    obtain ⟨-, t', ht', hmem⟩ := hsound.root id _ hentry
    cases ht'
    obtain rfl := hsound.eq_of_below hmem hn (Forest.below_of_leads hleads) hbelow
    exact ⟨id, rest, rfl, hentry, hleads⟩

/-- **The view** tells whether a part of the path is granted. -/
theorem isWritePermissionGranted_iff_grantsAt (hsound : c.Sound) {predecessorId : Option AccountId}
    {publicKey : Option PublicKey}
    (hkey : Contract.permissionKeyOf predecessorId publicKey = .ok permissionKey) (key : String) :
    c.isWritePermissionGranted predecessorId publicKey key = .ok true ↔
      ∃ path, path <+: splitPath key ∧ c.GrantsAt permissionKey path := by
  cases hsplit : splitPath key with
  | nil =>
    refine iff_of_false ?_ ?_
    · simp [Contract.isWritePermissionGranted, hkey, hsplit]
    · rintro ⟨path, hpath, n, m, hlets, hleads⟩
      obtain ⟨id, rest, rfl, -, -⟩ := hlets.exists_cons hsound hleads
      exact absurd (List.prefix_nil.mp hpath) (List.cons_ne_nil id rest)
  | cons a rest =>
    cases ha : c.rootNode.children.get a with
    | none =>
      refine iff_of_false ?_ ?_
      · simp [Contract.isWritePermissionGranted, hkey, hsplit, internalGetAccount_eq_none.mpr ha]
      · rintro ⟨path, hpath, n, m, hlets, hleads⟩
        obtain ⟨id, init, rfl, hid, -⟩ := hlets.exists_cons hsound hleads
        obtain ⟨rfl, -⟩ := List.cons_prefix_cons.mp hpath
        cases ha.symm.trans hid
    | some v =>
      obtain ⟨-, n, rfl, -⟩ := hsound.root a v ha
      rw [isWritePermissionGranted_iff hsound ha hkey hsplit]
      simp only [through_iff_leads]
      constructor
      · rintro ⟨nodeIds, hget, init, hinit, m, hm, hleads⟩
        have hentry : c.forest.entry 0 a = some (.node n) := ha
        exact ⟨a :: init, List.cons_prefix_cons.mpr ⟨rfl, hinit⟩, n, m, ⟨nodeIds, hget, hm⟩,
          .step hentry rfl hleads⟩
      · rintro ⟨path, hpath, n', m, hlets, hleads⟩
        obtain ⟨id, init, rfl, hid, hinit⟩ := hlets.exists_cons hsound hleads
        obtain ⟨rfl, hprefix⟩ := List.cons_prefix_cons.mp hpath
        cases ha.symm.trans hid
        obtain ⟨nodeIds, hget, hm⟩ := hlets
        exact ⟨nodeIds, hget, init, hprefix, m, hm, hinit⟩

end View

/-- **The history of permissions.** In every run, `is_write_permission_granted` answers `true` for a
key exactly if some accepted `grant_write_permission` of the run, made for the same account or public
key, was for that key or for a part of its path. No later call takes the permission back. -/
theorem isWritePermissionGranted_run (host : Host) (start : Env) (calls : List Call)
    (predecessorId : Option AccountId) (publicKey : Option PublicKey) (key : String) :
    ((system host).run (.new start) calls).isWritePermissionGranted predecessorId publicKey key =
        .ok true ↔
      ∃ x ∈ (system host).steps (.new start) calls, ∃ permissionKey path,
        Contract.permissionKeyOf predecessorId publicKey = .ok permissionKey ∧
        path <+: splitPath key ∧ x.label.method.GrantsAt permissionKey path := by
  cases hkey : Contract.permissionKeyOf predecessorId publicKey with
  | error msg =>
    refine iff_of_false ?_ ?_
    · simp [Contract.isWritePermissionGranted, hkey]
    · rintro ⟨x, -, permissionKey, path, ⟨⟩, -⟩
  | ok permissionKey =>
    rw [isWritePermissionGranted_iff_grantsAt (sound_run host start calls) hkey]
    simp only [grantsAt_run]
    constructor
    · rintro ⟨path, hpath, x, hx, hgrants⟩
      exact ⟨x, hx, permissionKey, path, rfl, hpath, hgrants⟩
    · rintro ⟨x, hx, _, path, ⟨⟩, hpath, hgrants⟩
      exact ⟨path, hpath, x, hx, hgrants⟩

end UncContracts.Social
