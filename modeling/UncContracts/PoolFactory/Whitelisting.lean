import UncContracts.PoolFactory.Contract

/-!
# Whitelisting of the created pools

Once all receipts are executed, the factory's list holds the pools whose creation succeeded: a
failed creation is undone by its callback. The whitelist does not follow. The callback calls
`add_staking_pool` at the factory itself, which has no such method, so only others ever whitelist a
pool.

## Main definitions

* `Requested`, `Created`, `AddedByOthers`: what happened to a pool's id along a run
* `Tracked`: the factory's list against the receipts in flight
* `Agrees`: the whitelist and the factory's list agree on an id

## Main results

* `agrees_iff`: they agree on the requested ids exactly when others whitelisted the pools whose
  creation succeeded
* `not_agrees`: a creation that succeeds and is not whitelisted
-/

namespace UncContracts.PoolFactory

open Foundation Whitelist StakingPoolFactory

/-! ## What happened along a run -/

/-- The pool id that a label requests. -/
def Label.requested : Label → Option AccountId
  | .create env stakingPoolId _ _ _ => some (poolAccountId env.currentAccountId stakingPoolId)
  | _ => none

/-- The pool id whose creation succeeds in a step. -/
def creates (x : Step World Label) : Option AccountId :=
  match x.label with
  | .deliver i true =>
    match x.before.receipts[i]? with
    | some (.createPool id _ _ _) => some id
    | _ => none
  | _ => none

/-- The pool was requested from the factory. -/
def Requested (hist : List (Step World Label)) (id : AccountId) : Prop :=
  ∃ x ∈ hist, x.label.requested = some id

/-- The creation of the pool succeeded. -/
def Created (hist : List (Step World Label)) (id : AccountId) : Prop :=
  ∃ x ∈ hist, creates x = some id

/-- The pool is whitelisted without the factory: at the start, or by a call of another account. -/
def AddedByOthers (w₀ : World) (hist : List (Step World Label)) (id : AccountId) : Prop :=
  id ∈ w₀.whitelist.whitelist ∨
    ∃ x ∈ hist, ∃ p, x.label = .whitelist p (.addStakingPool id)

/-- The label removes no pool from the whitelist. -/
def KeepsPools (l : Label) : Prop := ∀ p id, l ≠ .whitelist p (.removeStakingPool id)

/-- The factory starts with no pools, its account is on the whitelist of factories, and nothing is
in flight. -/
structure Initial (w : World) : Prop where
  accounts_ne : w.factoryAccountId ≠ w.factory.stakingPoolWhitelistAccountId
  factory : ∃ stateExists, StakingPoolFactory.new stateExists
    w.factory.stakingPoolWhitelistAccountId = .ok w.factory
  whitelisted : w.factoryAccountId ∈ w.whitelist.factoryWhitelist
  receipts : w.receipts = []

/-- The whitelist and the factory's list agree on an id. -/
def Agrees (w : World) (id : AccountId) : Prop :=
  id ∈ w.whitelist.whitelist ↔ id ∈ w.factory.stakingPoolAccountIds

/-! ## The factory's list -/

/-- The pool whose creation a receipt carries on. -/
def Receipt.pending : Receipt → Option AccountId
  | .createPool id _ _ _ => some id
  | .onStakingPoolCreate id _ _ _ => some id
  | _ => none

/-- The factory's list holds the pools that are being created and those that were. -/
structure Tracked (hist : List (Step World Label)) (w : World) : Prop where
  /-- A pool is in creation at most once. -/
  nodup : (w.receipts.filterMap Receipt.pending).Nodup
  mem_ids : ∀ id, id ∈ w.factory.stakingPoolAccountIds ↔
    id ∈ w.receipts.filterMap Receipt.pending ∨ Created hist id
  /-- An account yet to be created was not created before. -/
  fresh : ∀ id args deposit p, .createPool id args deposit p ∈ w.receipts → ¬ Created hist id
  /-- A callback knows whether the account was created. -/
  outcome : ∀ id deposit p created, .onStakingPoolCreate id deposit p created ∈ w.receipts →
    (created = true ↔ Created hist id)

section Tracked

variable {w w' : World} {hist : List (Step World Label)} {x : Step World Label} {l : Label}

theorem created_append {id : AccountId} :
    Created (hist ++ [x]) id ↔ Created hist id ∨ creates x = some id := by
  simp only [Created, List.mem_append, List.mem_singleton]
  constructor
  · rintro ⟨y, hy | rfl, hid⟩
    · exact .inl ⟨y, hy, hid⟩
    · exact .inr hid
  · rintro (⟨y, hy, hid⟩ | hid)
    · exact ⟨y, .inl hy, hid⟩
    · exact ⟨x, .inr rfl, hid⟩

theorem created_append_of_none (h : creates x = none) {id : AccountId} :
    Created (hist ++ [x]) id ↔ Created hist id := by
  simp [created_append, h]

/-- A step that leaves the creations in flight and the list alone. -/
theorem Tracked.of_same (h : Tracked hist w) (hcreates : creates x = none)
    (hids : w'.factory.stakingPoolAccountIds = w.factory.stakingPoolAccountIds)
    (hreceipts : w'.receipts = w.receipts) : Tracked (hist ++ [x]) w' := by
  refine ⟨?_, ?_, ?_, ?_⟩
  · rw [hreceipts]
    exact h.nodup
  · intro id
    rw [hids, hreceipts, created_append_of_none hcreates]
    exact h.mem_ids id
  · intro id args deposit p hmem
    rw [created_append_of_none hcreates]
    exact h.fresh id args deposit p (hreceipts ▸ hmem)
  · intro id deposit p created hmem
    rw [created_append_of_none hcreates]
    exact h.outcome id deposit p created (hreceipts ▸ hmem)

/-- A receipt that carries on no creation leaves the queue, and others that carry on none join. -/
theorem Tracked.of_idle {i : ℕ} {r : Receipt} {rest : List Receipt} (h : Tracked hist w)
    (new : List Receipt) (htake : takeAt w.receipts i = some (r, rest)) (hcreates : creates x = none)
    (hr : r.pending = none) (hnew : ∀ n ∈ new, n.pending = none)
    (hids : w'.factory.stakingPoolAccountIds = w.factory.stakingPoolAccountIds)
    (hreceipts : w'.receipts = rest ++ new) : Tracked (hist ++ [x]) w' := by
  have hnone : new.filterMap Receipt.pending = [] := List.filterMap_eq_nil_iff.mpr hnew
  refine ⟨?_, ?_, ?_, ?_⟩
  · rw [hreceipts, List.filterMap_append, hnone, List.append_nil]
    exact (nodup_of_takeAt htake h.nodup).1
  · intro id
    rw [hids, hreceipts, List.filterMap_append, hnone, List.append_nil,
      created_append_of_none hcreates, h.mem_ids id, mem_filterMap_of_takeAt htake, hr]
    simp
  · intro id args deposit p hmem
    rw [created_append_of_none hcreates]
    rcases List.mem_append.mp (hreceipts ▸ hmem) with hmem | hmem
    · exact h.fresh id args deposit p ((mem_of_takeAt htake).mpr (.inr hmem))
    · cases hnew _ hmem
  · intro id deposit p created hmem
    rw [created_append_of_none hcreates]
    rcases List.mem_append.mp (hreceipts ▸ hmem) with hmem | hmem
    · exact h.outcome id deposit p created ((mem_of_takeAt htake).mpr (.inr hmem))
    · cases hnew _ hmem

/-- A request puts a new id on the list and its creation in flight. -/
theorem Tracked.of_requested {id : AccountId} {args : StakingPoolArgs} {deposit : ℕ}
    {p : AccountId} (h : Tracked hist w) (hcreates : creates x = none)
    (hnew : id ∉ w.factory.stakingPoolAccountIds)
    (hids : w'.factory.stakingPoolAccountIds = insert id w.factory.stakingPoolAccountIds)
    (hreceipts : w'.receipts = w.receipts ++ [.createPool id args deposit p]) :
    Tracked (hist ++ [x]) w' := by
  obtain ⟨hidle, huncreated⟩ := not_or.mp (mt (h.mem_ids id).mpr hnew)
  have hpending : w'.receipts.filterMap Receipt.pending =
      w.receipts.filterMap Receipt.pending ++ [id] := by
    rw [hreceipts, List.filterMap_append]
    rfl
  refine ⟨?_, ?_, ?_, ?_⟩
  · rw [hpending]
    exact h.nodup.append (List.nodup_singleton id) (by simpa using hidle)
  · intro id'
    rw [hids, hpending, Finset.mem_insert, h.mem_ids id', created_append_of_none hcreates,
      List.mem_append, List.mem_singleton]
    tauto
  · intro id' args' deposit' p' hmem
    rw [created_append_of_none hcreates]
    rcases List.mem_append.mp (hreceipts ▸ hmem) with hmem | hmem
    · exact h.fresh id' args' deposit' p' hmem
    · obtain ⟨rfl, -⟩ := Receipt.createPool.inj (List.mem_singleton.mp hmem)
      exact huncreated
  · intro id' deposit' p' created hmem
    rw [created_append_of_none hcreates]
    rcases List.mem_append.mp (hreceipts ▸ hmem) with hmem | hmem
    · exact h.outcome id' deposit' p' created hmem
    · cases List.mem_singleton.mp hmem

/-- The account of a pool is created or not, and the callback is told. -/
theorem Tracked.of_createPool {i : ℕ} {rest : List Receipt} {id : AccountId}
    {args : StakingPoolArgs} {deposit : ℕ} {p : AccountId} (h : Tracked hist w) (created : Bool)
    (htake : takeAt w.receipts i = some (.createPool id args deposit p, rest))
    (hcreates : ∀ id', creates x = some id' ↔ created = true ∧ id' = id)
    (hids : w'.factory.stakingPoolAccountIds = w.factory.stakingPoolAccountIds)
    (hreceipts : w'.receipts = rest ++ [.onStakingPoolCreate id deposit p created]) :
    Tracked (hist ++ [x]) w' := by
  have huncreated := h.fresh id args deposit p ((mem_of_takeAt htake).mpr (.inl rfl))
  obtain ⟨hnodup, hleft⟩ := nodup_of_takeAt htake h.nodup
  have hidle : id ∉ rest.filterMap Receipt.pending := hleft id rfl
  have hpending : w'.receipts.filterMap Receipt.pending =
      rest.filterMap Receipt.pending ++ [id] := by
    rw [hreceipts, List.filterMap_append]
    rfl
  have hother : ∀ r ∈ rest, ∀ id', r.pending = some id' → id' ≠ id := by
    rintro r hr id' hid' rfl
    exact hidle (List.mem_filterMap.mpr ⟨r, hr, hid'⟩)
  refine ⟨?_, ?_, ?_, ?_⟩
  · rw [hpending]
    exact hnodup.append (List.nodup_singleton id) (by simpa using hidle)
  · intro id'
    rw [hids, hpending, h.mem_ids id', created_append, hcreates, mem_filterMap_of_takeAt htake,
      List.mem_append, List.mem_singleton]
    simp only [Receipt.pending, Option.some.injEq]
    tauto
  · intro id' args' deposit' p' hmem
    rw [created_append, hcreates]
    rcases List.mem_append.mp (hreceipts ▸ hmem) with hmem | hmem
    · have hne := hother _ hmem id' rfl
      have hfresh := h.fresh id' args' deposit' p' ((mem_of_takeAt htake).mpr (.inr hmem))
      tauto
    · cases List.mem_singleton.mp hmem
  · intro id' deposit' p' created' hmem
    rw [created_append, hcreates]
    rcases List.mem_append.mp (hreceipts ▸ hmem) with hmem | hmem
    · have hne := hother _ hmem id' rfl
      have hout := h.outcome id' deposit' p' created' ((mem_of_takeAt htake).mpr (.inr hmem))
      tauto
    · obtain ⟨rfl, -, -, rfl⟩ := Receipt.onStakingPoolCreate.inj (List.mem_singleton.mp hmem)
      tauto

/-- The callback keeps the id of a created pool and takes the other off the list. -/
theorem Tracked.of_callback {i : ℕ} {rest : List Receipt} {id : AccountId} {deposit : ℕ}
    {p : AccountId} {created : Bool} {r : Receipt} (h : Tracked hist w)
    (htake : takeAt w.receipts i = some (.onStakingPoolCreate id deposit p created, rest))
    (hcreates : creates x = none) (hr : r.pending = none)
    (hids : w'.factory.stakingPoolAccountIds =
      if created then w.factory.stakingPoolAccountIds else w.factory.stakingPoolAccountIds.erase id)
    (hreceipts : w'.receipts = rest ++ [r]) : Tracked (hist ++ [x]) w' := by
  have hout := h.outcome id deposit p created ((mem_of_takeAt htake).mpr (.inl rfl))
  obtain ⟨hnodup, hleft⟩ := nodup_of_takeAt htake h.nodup
  have hidle : id ∉ rest.filterMap Receipt.pending := hleft id rfl
  have hpending : w'.receipts.filterMap Receipt.pending = rest.filterMap Receipt.pending := by
    rw [hreceipts, List.filterMap_append, List.filterMap_cons_none hr, List.filterMap_nil,
      List.append_nil]
  refine ⟨?_, ?_, ?_, ?_⟩
  · rw [hpending]
    exact hnodup
  · -- A creation that failed gives its id back, and no other receipt pends for it.
    intro id'
    have hmem := h.mem_ids id'
    rw [mem_filterMap_of_takeAt htake] at hmem
    simp only [Receipt.pending, Option.some.injEq] at hmem
    rw [hids, hpending, created_append_of_none hcreates]
    cases created with
    | true =>
      simp only [if_true]
      by_cases heq : id = id'
      · subst heq
        tauto
      · tauto
    | false =>
      simp only [Bool.false_eq_true, if_false, Finset.mem_erase]
      by_cases heq : id' = id
      · subst heq
        tauto
      · have hne : id ≠ id' := fun h => heq h.symm
        tauto
  · intro id' args' deposit' p' hmem
    rw [created_append_of_none hcreates]
    rcases List.mem_append.mp (hreceipts ▸ hmem) with hmem | hmem
    · exact h.fresh id' args' deposit' p' ((mem_of_takeAt htake).mpr (.inr hmem))
    · rw [← List.mem_singleton.mp hmem] at hr
      cases hr
  · intro id' deposit' p' created' hmem
    rw [created_append_of_none hcreates]
    rcases List.mem_append.mp (hreceipts ▸ hmem) with hmem | hmem
    · exact h.outcome id' deposit' p' created' ((mem_of_takeAt htake).mpr (.inr hmem))
    · rw [← List.mem_singleton.mp hmem] at hr
      cases hr

theorem creates_deliver {r : Receipt} {i : ℕ} {ok : Bool} (h : w.receipts[i]? = some r)
    {id : AccountId} : creates ⟨w, .deliver i ok, w'⟩ = some id ↔
      ok = true ∧ ∃ args deposit p, r = .createPool id args deposit p := by
  cases ok with
  | false => simp [creates]
  | true => cases r <;> simp [creates, h]

theorem creates_deliver_eq_none {r : Receipt} {i : ℕ} {ok : Bool} (h : w.receipts[i]? = some r)
    (hr : ∀ id args deposit p, r ≠ .createPool id args deposit p) :
    creates ⟨w, .deliver i ok, w'⟩ = none := by
  rw [Option.eq_none_iff_forall_ne_some]
  intro id hid
  obtain ⟨-, args, deposit, p, hcreate⟩ := (creates_deliver h).mp hid
  exact hr id args deposit p hcreate

theorem addStakingPool_factory (w : World) (receiver id : AccountId) :
    (w.addStakingPool receiver id).factory = w.factory ∧
      (w.addStakingPool receiver id).receipts = w.receipts ∧
      (w.addStakingPool receiver id).factoryAccountId = w.factoryAccountId := by
  unfold World.addStakingPool
  split
  · split <;> exact ⟨rfl, rfl, rfl⟩
  · exact ⟨rfl, rfl, rfl⟩

/-- Every step keeps track of the creations. -/
theorem Tracked.step (h : Tracked hist w) (hstep : system.step w l = .ok w') :
    Tracked (hist ++ [⟨w, l, w'⟩]) w' := by
  cases l with
  | create env stakingPoolId ownerId key fee =>
    simp only [system, bind_eq_ok, ensure_eq_ok, pure_eq_ok] at hstep
    obtain ⟨-, -, ⟨factory, receipt⟩, hcreate, rfl⟩ := hstep
    obtain ⟨hnew, rfl, rfl⟩ := createStakingPool_cases rfl hcreate
    exact h.of_requested rfl hnew rfl rfl
  | whitelist p method =>
    simp only [system, bind_eq_ok, ensure_eq_ok, pure_eq_ok] at hstep
    obtain ⟨-, -, ⟨whitelist, added⟩, -, rfl⟩ := hstep
    exact h.of_same rfl rfl rfl
  | deliver i ok =>
    simp only [system, bind_eq_ok, expect_eq_ok, pure_eq_ok] at hstep
    obtain ⟨⟨r, rest⟩, htake, rfl⟩ := hstep
    have hget := (takeAt_eq_some.mp htake).1
    cases r with
    | createPool id args deposit p =>
      refine h.of_createPool ok htake ?_ rfl rfl
      intro id'
      rw [creates_deliver hget]
      simp [eq_comm]
    | onStakingPoolCreate id deposit p created =>
      have hnone : ∀ w', creates ⟨w, .deliver i ok, w'⟩ = none :=
        fun w' => creates_deliver_eq_none hget (by simp)
      cases created with
      | true =>
        refine h.of_callback htake (hnone _) (r := .addStakingPool w.factoryAccountId id) rfl ?_ ?_
        · simp [World.execute, onStakingPoolCreate_self]
        · simp [World.execute, onStakingPoolCreate_self]
      | false =>
        refine h.of_callback htake (hnone _) (r := .transfer p deposit) rfl ?_ ?_
        · simp [World.execute, onStakingPoolCreate_self]
        · simp [World.execute, onStakingPoolCreate_self]
    | addStakingPool receiver id =>
      obtain ⟨hfactory, hreceipts, -⟩ :=
        addStakingPool_factory { w with receipts := rest } receiver id
      refine h.of_idle [] htake (creates_deliver_eq_none hget (by simp)) rfl (by simp)
        ?_ ?_
      · exact congrArg _ hfactory
      · simpa [World.execute] using hreceipts
    | transfer receiver amount =>
      exact h.of_idle [] htake (creates_deliver_eq_none hget (by simp)) rfl (by simp) rfl
        (by simp [World.execute])

/-- A factory that was just initialized, with nothing in flight. -/
theorem tracked_of_new {stateExists : Bool} {whitelistAccountId : AccountId}
    (hfactory : StakingPoolFactory.new stateExists whitelistAccountId = .ok w.factory)
    (hreceipts : w.receipts = []) : Tracked [] w := by
  simp only [StakingPoolFactory.new, bind_eq_ok, ensure_eq_ok, pure_eq_ok] at hfactory
  obtain ⟨-, -, -, -, hfactory⟩ := hfactory
  have hids : w.factory.stakingPoolAccountIds = ∅ := by rw [← hfactory]
  refine ⟨?_, ?_, ?_, ?_⟩
  · simp [hreceipts]
  · simp [hids, hreceipts, Created]
  · simp [hreceipts]
  · simp [hreceipts]

theorem Initial.tracked (h : Initial w) : Tracked [] w := by
  obtain ⟨stateExists, hnew⟩ := h.factory
  exact tracked_of_new hnew h.receipts

end Tracked

/-! ## The whitelist -/

/-- The whitelist holds what others added: the factory's own calls go to the factory. -/
structure Listed (w₀ : World) (hist : List (Step World Label)) (w : World) : Prop where
  mem_whitelist : ∀ id, id ∈ w.whitelist.whitelist ↔ AddedByOthers w₀ hist id
  misdirected : ∀ receiver id, .addStakingPool receiver id ∈ w.receipts →
    receiver = w.factoryAccountId
  accounts_ne : w.factoryAccountId ≠ w.factory.stakingPoolWhitelistAccountId

section Listed

variable {w₀ w w' : World} {hist : List (Step World Label)} {x : Step World Label} {l : Label}

theorem addedByOthers_append {id : AccountId} :
    AddedByOthers w₀ (hist ++ [x]) id ↔
      AddedByOthers w₀ hist id ∨ ∃ p, x.label = .whitelist p (.addStakingPool id) := by
  simp only [AddedByOthers, List.mem_append, List.mem_singleton]
  constructor
  · rintro (hmem | ⟨y, hy | rfl, hlabel⟩)
    · exact .inl (.inl hmem)
    · exact .inl (.inr ⟨y, hy, hlabel⟩)
    · exact .inr hlabel
  · rintro ((hmem | ⟨y, hy, hlabel⟩) | hlabel)
    · exact .inl hmem
    · exact .inr ⟨y, .inl hy, hlabel⟩
    · exact .inr ⟨x, .inr rfl, hlabel⟩

/-- A step that leaves the whitelist alone and issues no call to another account. -/
theorem Listed.of_same (h : Listed w₀ hist w)
    (hothers : ∀ p id, x.label ≠ .whitelist p (.addStakingPool id))
    (hwhitelist : w'.whitelist = w.whitelist)
    (haccount : w'.factoryAccountId = w.factoryAccountId)
    (hstored : w'.factory.stakingPoolWhitelistAccountId = w.factory.stakingPoolWhitelistAccountId)
    (hreceipts : ∀ receiver id, .addStakingPool receiver id ∈ w'.receipts →
      .addStakingPool receiver id ∈ w.receipts ∨ receiver = w.factoryAccountId) :
    Listed w₀ (hist ++ [x]) w' := by
  refine ⟨?_, ?_, ?_⟩
  · intro id
    rw [hwhitelist, h.mem_whitelist, addedByOthers_append]
    simp [hothers]
  · intro receiver id hmem
    rw [haccount]
    exact (hreceipts receiver id hmem).elim (h.misdirected receiver id) (fun he => he)
  · rw [haccount, hstored]
    exact h.accounts_ne

theorem Listed.step (h : Listed w₀ hist w) (hkeep : KeepsPools l)
    (hstep : system.step w l = .ok w') : Listed w₀ (hist ++ [⟨w, l, w'⟩]) w' := by
  cases l with
  | create env stakingPoolId ownerId key fee =>
    simp only [system, bind_eq_ok, ensure_eq_ok, pure_eq_ok] at hstep
    obtain ⟨-, -, ⟨factory, receipt⟩, hcreate, rfl⟩ := hstep
    obtain ⟨-, rfl, rfl⟩ := createStakingPool_cases rfl hcreate
    refine h.of_same (by simp) rfl rfl rfl ?_
    intro receiver id hmem
    rcases List.mem_append.mp hmem with hmem | hmem
    · exact .inl hmem
    · cases List.mem_singleton.mp hmem
  | whitelist p method =>
    simp only [system, bind_eq_ok, ensure_eq_ok, pure_eq_ok] at hstep
    obtain ⟨-, -, ⟨whitelist, added⟩, hcall, rfl⟩ := hstep
    refine ⟨?_, h.misdirected, h.accounts_ne⟩
    intro id
    have hmem := mem_whitelist_of_call hcall id fun pool he => hkeep p pool (by rw [he])
    show id ∈ whitelist.whitelist ↔ _
    rw [hmem, h.mem_whitelist, addedByOthers_append]
    simp
  | deliver i ok =>
    simp only [system, bind_eq_ok, expect_eq_ok, pure_eq_ok] at hstep
    obtain ⟨⟨r, rest⟩, htake, rfl⟩ := hstep
    have hrest : ∀ {r'}, r' ∈ rest → r' ∈ w.receipts := fun hr' => (mem_of_takeAt htake).mpr (.inr hr')
    cases r with
    | createPool id args deposit p =>
      refine h.of_same (by simp) rfl rfl rfl ?_
      intro receiver id' hmem
      rcases List.mem_append.mp hmem with hmem | hmem
      · exact .inl (hrest hmem)
      · cases List.mem_singleton.mp hmem
    | onStakingPoolCreate id deposit p created =>
      simp only [World.execute, onStakingPoolCreate_self]
      refine h.of_same (by simp) rfl rfl (by cases created <;> rfl) ?_
      intro receiver id' hmem
      rcases List.mem_append.mp hmem with hmem | hmem
      · exact .inl (hrest hmem)
      · cases created with
        | true =>
          obtain ⟨rfl, -⟩ := Receipt.addStakingPool.inj (List.mem_singleton.mp hmem)
          exact .inr rfl
        | false => cases List.mem_singleton.mp hmem
    | addStakingPool receiver id =>
      -- The call is addressed to the factory, so the whitelist does not see it.
      have hreceiver := h.misdirected receiver id ((mem_of_takeAt htake).mpr (.inl rfl))
      have hne : receiver ≠ w.factory.stakingPoolWhitelistAccountId := hreceiver ▸ h.accounts_ne
      simp only [World.execute, World.addStakingPool, if_neg hne]
      exact h.of_same (by simp) rfl rfl rfl fun receiver' id' hmem => .inl (hrest hmem)
    | transfer receiver amount =>
      exact h.of_same (by simp) rfl rfl rfl fun receiver' id' hmem => .inl (hrest hmem)

theorem Initial.listed (h : Initial w) : Listed w [] w := by
  refine ⟨?_, ?_, h.accounts_ne⟩
  · simp [AddedByOthers]
  · simp [h.receipts]

end Listed

/-! ## Agreement -/

theorem tracked_run {w : World} (h : Initial w) (labels : List Label) :
    Tracked (system.steps w labels) (system.run w labels) :=
  Machine.run_induction h.tracked (fun _ _ _ _ htracked hstep => htracked.step hstep) labels

theorem listed_run {w : World} (h : Initial w) {labels : List Label}
    (hkeep : ∀ x ∈ system.steps w labels, KeepsPools x.label) :
    Listed w (system.steps w labels) (system.run w labels) := by
  refine Machine.run_induction (M := system) (s := w)
    (P := fun hist a => (∀ x ∈ hist, KeepsPools x.label) → Listed w hist a)
    (fun _ => h.listed) ?_ labels hkeep
  intro hist a l b ih hstep hall
  exact (ih fun x hx => hall x (by simp [hx])).step (hall ⟨a, l, b⟩ (by simp)) hstep

/-- A factory whose account is whitelisted. -/
def sampleWorld : World where
  factoryAccountId := "factory"
  factory := ⟨"whitelist", ∅⟩
  whitelist := ⟨"foundation", ∅, {"factory"}⟩
  receipts := []

theorem initial_sampleWorld : Initial sampleWorld :=
  ⟨by decide, ⟨false, by rfl⟩, by decide, rfl⟩

/-- The environment of a request with the tokens it needs. -/
def sampleEnv : Env where
  currentAccountId := "factory"
  predecessorAccountId := "alice"
  signerAccountPk := "pk"
  attachedDeposit := MIN_ATTACHED_BALANCE
  accountBalance := MIN_ATTACHED_BALANCE
  accountLockedBalance := 0
  epochHeight := 1
  blockHeight := 1
  blockTimestamp := 1
  accountLockedBalance_le := Nat.zero_le _

/-- A pool is requested, created, reported and, at the factory, whitelisted. -/
def sampleRun : List Label :=
  [.create sampleEnv "pool" "alice" "key" ⟨1, 10⟩, .deliver 0 true, .deliver 0 true,
    .deliver 0 true]

/-- When nothing is in flight, the whitelist and the factory's list agree on the requested ids if
and only if others whitelisted exactly the pools whose creation succeeded. -/
theorem agrees_iff (w : World) (h : Initial w) (labels : List Label)
    (hkeep : ∀ x ∈ system.steps w labels, KeepsPools x.label)
    (hquiet : (system.run w labels).receipts = []) :
    (∀ id, Requested (system.steps w labels) id → Agrees (system.run w labels) id) ↔
      ∀ id, Requested (system.steps w labels) id →
        (AddedByOthers w (system.steps w labels) id ↔ Created (system.steps w labels) id) := by
  have htracked := tracked_run h labels
  have hlisted := listed_run h hkeep
  have hids : ∀ id, id ∈ (system.run w labels).factory.stakingPoolAccountIds ↔
      Created (system.steps w labels) id := by
    intro id
    rw [htracked.mem_ids, hquiet]
    simp
  simp only [Agrees, hlisted.mem_whitelist, hids]

theorem agrees_iff_sampleRun :
    (∀ id, Requested (system.steps sampleWorld sampleRun) id →
        Agrees (system.run sampleWorld sampleRun) id) ↔
      ∀ id, Requested (system.steps sampleWorld sampleRun) id →
        (AddedByOthers sampleWorld (system.steps sampleWorld sampleRun) id ↔
          Created (system.steps sampleWorld sampleRun) id) := by
  refine agrees_iff sampleWorld initial_sampleWorld sampleRun ?_ (by decide)
  have hlabels : ∀ x ∈ system.steps sampleWorld sampleRun, x.label ∈ sampleRun := by decide
  rintro x hx p id hremove
  have hlabel := hlabels x hx
  rw [hremove] at hlabel
  simp [sampleRun] at hlabel

/-- No pool is removed and the factory stays on the list of factories, all receipts are executed,
and the created pool is not whitelisted. -/
theorem not_agrees :
    ¬ ∀ w, Initial w → ∀ labels,
      (∀ x ∈ system.steps w labels, KeepsPools x.label ∧
        x.after.factoryAccountId ∈ x.after.whitelist.factoryWhitelist) →
      (system.run w labels).receipts = [] →
      ∀ id, Requested (system.steps w labels) id → Agrees (system.run w labels) id := by
  intro h
  have hsteps : ∀ x ∈ system.steps sampleWorld sampleRun, KeepsPools x.label ∧
      x.after.factoryAccountId ∈ x.after.whitelist.factoryWhitelist := by
    have hlabels : ∀ x ∈ system.steps sampleWorld sampleRun, x.label ∈ sampleRun ∧
        x.after.factoryAccountId ∈ x.after.whitelist.factoryWhitelist := by decide
    intro x hx
    obtain ⟨hlabel, hfactory⟩ := hlabels x hx
    refine ⟨?_, hfactory⟩
    rintro p id hremove
    rw [hremove] at hlabel
    simp [sampleRun] at hlabel
  have hagrees := h sampleWorld initial_sampleWorld sampleRun hsteps (by decide) "pool.factory"
    ⟨⟨sampleWorld, sampleRun.head (by decide), system.exec sampleWorld (sampleRun.head (by decide))⟩,
      .head _, rfl⟩
  revert hagrees
  unfold Agrees
  decide

end UncContracts.PoolFactory
