import UncContracts.Foundation.Machine
import UncContracts.Whitelist.Contract

/-!
# The whitelist and its history

Whether a pool or a factory is whitelisted is what the last accepted call about it said. The
foundation never changes, and whether a call is accepted depends on the calls before it alone: the
foundation may do everything, and a factory may add pools while the last call about it was one of
the foundation that added it.

## Main definitions

* `registry`: the contract as a machine over calls
* `lastListing`, `lastFactoryListing`: what the last accepted call about a pool, or a factory, said

## Main results

* `whitelist_run_iff`, `factoryWhitelist_run_iff`: what is whitelisted after a run
* `registry_follows_history`: the lists and the accepted calls of a run, by its history
-/

namespace UncContracts.Whitelist

open Foundation

/-- The contract as a machine over calls, each with its predecessor. -/
def registry : Machine WhitelistContract (AccountId × Method) String where
  step s c := do
    let (t, _) ← s.call c.1 c.2
    return t

/-- What a call says about a pool. -/
def Method.lists (id : AccountId) : Method → Option Bool
  | .addStakingPool pool => if pool = id then some true else none
  | .removeStakingPool pool => if pool = id then some false else none
  | _ => none

/-- What a call says about a factory. -/
def Method.listsFactory (id : AccountId) : Method → Option Bool
  | .addFactory factory => if factory = id then some true else none
  | .removeFactory factory => if factory = id then some false else none
  | _ => none

/-- A call that lists a pool adds it. -/
theorem eq_of_lists_true {id : AccountId} {m : Method} (h : m.lists id = some true) :
    m = .addStakingPool id := by
  cases m <;> simp_all [Method.lists]

/-- The account that a call is about. -/
def Method.accountId : Method → AccountId
  | .addStakingPool id | .removeStakingPool id | .addFactory id | .removeFactory id => id

/-- The call adds a pool. -/
def Method.addsPool : Method → Bool
  | .addStakingPool _ => true
  | _ => false

/-- What the last of the steps about a pool said. -/
def lastListing (id : AccountId) (hist : List (Step WhitelistContract (AccountId × Method))) :
    Option Bool :=
  (hist.filterMap fun x => x.label.2.lists id).getLast?

/-- What the last of the steps about a factory said. -/
def lastFactoryListing (id : AccountId)
    (hist : List (Step WhitelistContract (AccountId × Method))) : Option Bool :=
  (hist.filterMap fun x => x.label.2.listsFactory id).getLast?

/-! ## What a call does -/

section Calls

variable {s t : WhitelistContract} {p id : AccountId} {m : Method} {b : Bool}

/-- Who may make a call. -/
def WhitelistContract.Authorizes (s : WhitelistContract) (p : AccountId) (m : Method) : Prop :=
  p = s.foundationAccountId ∨ m.addsPool = true ∧ p ∈ s.factoryWhitelist

/-- The lists after a call. -/
structure Lists (s t : WhitelistContract) (m : Method) : Prop where
  foundation : t.foundationAccountId = s.foundationAccountId
  pool : ∀ id, id ∈ t.whitelist ↔ (m.lists id).elim (id ∈ s.whitelist) (· = true)
  factory : ∀ id,
    id ∈ t.factoryWhitelist ↔ (m.listsFactory id).elim (id ∈ s.factoryWhitelist) (· = true)

/-- An accepted call is an authorized one about a valid account, and changes one entry. -/
theorem lists_of_call (h : s.call p m = .ok (t, b)) :
    isValidAccountId m.accountId ∧ s.Authorizes p m ∧ Lists s t m := by
  have hinsert : ∀ (l : Finset AccountId) (listed id : AccountId), id ∈ insert listed l ↔
      (if listed = id then some true else none).elim (id ∈ l) (· = true) := by
    intro l listed id
    split
    · next heq => simp [heq]
    · next hne => simp [Ne.symm hne]
  have herase : ∀ (l : Finset AccountId) (removed id : AccountId), id ∈ l.erase removed ↔
      (if removed = id then some false else none).elim (id ∈ l) (· = true) := by
    intro l removed id
    split
    · next heq => simp [heq]
    · next hne => simp [Ne.symm hne]
  cases m with
  | addStakingPool pool =>
    obtain ⟨_, hvalid, h⟩ := bind_eq_ok.mp h
    split at h
    · obtain ⟨_, hfoundation, h⟩ := bind_eq_ok.mp h
      obtain ⟨rfl, -⟩ := Prod.mk.inj (pure_eq_ok.mp h)
      exact ⟨ensure_eq_ok.mp hvalid, .inl (ensure_eq_ok.mp hfoundation), rfl,
        hinsert _ pool, fun _ => Iff.rfl⟩
    · next hfactory =>
      obtain ⟨rfl, -⟩ := Prod.mk.inj (pure_eq_ok.mp h)
      exact ⟨ensure_eq_ok.mp hvalid, .inr ⟨rfl, not_not.mp hfactory⟩, rfl, hinsert _ pool,
        fun _ => Iff.rfl⟩
  | removeStakingPool pool =>
    obtain ⟨_, hfoundation, h⟩ := bind_eq_ok.mp h
    obtain ⟨_, hvalid, h⟩ := bind_eq_ok.mp h
    obtain ⟨rfl, -⟩ := Prod.mk.inj (pure_eq_ok.mp h)
    exact ⟨ensure_eq_ok.mp hvalid, .inl (ensure_eq_ok.mp hfoundation), rfl, herase _ pool,
      fun _ => Iff.rfl⟩
  | addFactory factory =>
    obtain ⟨_, hvalid, h⟩ := bind_eq_ok.mp h
    obtain ⟨_, hfoundation, h⟩ := bind_eq_ok.mp h
    obtain ⟨rfl, -⟩ := Prod.mk.inj (pure_eq_ok.mp h)
    exact ⟨ensure_eq_ok.mp hvalid, .inl (ensure_eq_ok.mp hfoundation), rfl, fun _ => Iff.rfl,
      hinsert _ factory⟩
  | removeFactory factory =>
    obtain ⟨_, hfoundation, h⟩ := bind_eq_ok.mp h
    obtain ⟨_, hvalid, h⟩ := bind_eq_ok.mp h
    obtain ⟨rfl, -⟩ := Prod.mk.inj (pure_eq_ok.mp h)
    exact ⟨ensure_eq_ok.mp hvalid, .inl (ensure_eq_ok.mp hfoundation), rfl, fun _ => Iff.rfl,
      herase _ factory⟩

/-- An authorized call about a valid account is accepted. -/
theorem call_returns (hvalid : isValidAccountId m.accountId) (h : s.Authorizes p m) :
    ∃ t b, s.call p m = .ok (t, b) := by
  have hfoundation : m.addsPool = false → s.assertCalledByFoundation p = .ok () := by
    intro hm
    rcases h with h | ⟨hadds, -⟩
    · exact ensure_of h
    · cases hm.symm.trans hadds
  cases m with
  | addStakingPool pool =>
    replace hvalid : isValidAccountId pool := hvalid
    simp only [WhitelistContract.call, WhitelistContract.addStakingPool, ensure_of hvalid, ok_bind]
    split
    · next hnone =>
      have hp : s.assertCalledByFoundation p = .ok () :=
        ensure_of (h.resolve_right fun hfactory => hnone hfactory.2)
      rw [hp]
      exact ⟨_, _, rfl⟩
    · exact ⟨_, _, rfl⟩
  | removeStakingPool pool =>
    replace hvalid : isValidAccountId pool := hvalid
    simp only [WhitelistContract.call, WhitelistContract.removeStakingPool, hfoundation rfl,
      ensure_of hvalid, ok_bind]
    exact ⟨_, _, rfl⟩
  | addFactory factory =>
    replace hvalid : isValidAccountId factory := hvalid
    simp only [WhitelistContract.call, WhitelistContract.addFactory, hfoundation rfl,
      ensure_of hvalid, ok_bind]
    exact ⟨_, _, rfl⟩
  | removeFactory factory =>
    replace hvalid : isValidAccountId factory := hvalid
    simp only [WhitelistContract.call, WhitelistContract.removeFactory, hfoundation rfl,
      ensure_of hvalid, ok_bind]
    exact ⟨_, _, rfl⟩

theorem lists_of_step {c : AccountId × Method} (h : registry.step s c = .ok t) :
    isValidAccountId c.2.accountId ∧ s.Authorizes c.1 c.2 ∧ Lists s t c.2 := by
  obtain ⟨⟨u, b⟩, hcall, hu⟩ := bind_eq_ok.mp h
  obtain rfl := pure_eq_ok.mp hu
  exact lists_of_call hcall

/-- A call is accepted exactly when it is authorized and about a valid account. -/
theorem step_returns_iff {c : AccountId × Method} :
    (∃ t, registry.step s c = .ok t) ↔ isValidAccountId c.2.accountId ∧ s.Authorizes c.1 c.2 := by
  constructor
  · rintro ⟨t, h⟩
    exact ⟨(lists_of_step h).1, (lists_of_step h).2.1⟩
  · rintro ⟨hvalid, h⟩
    obtain ⟨t, b, hcall⟩ := call_returns hvalid h
    exact ⟨t, bind_eq_ok.mpr ⟨(t, b), hcall, rfl⟩⟩

end Calls

/-! ## Runs -/

section Runs

variable (s : WhitelistContract) (calls : List (AccountId × Method))

theorem foundationAccountId_run :
    (registry.run s calls).foundationAccountId = s.foundationAccountId :=
  Machine.run_invariant (I := fun t => t.foundationAccountId = s.foundationAccountId)
    (G := fun _ _ => True) (fun _ _ _ h _ hstep => (lists_of_step hstep).2.2.foundation.trans h)
    (fun _ _ => trivial) rfl

/-- A pool is whitelisted as the last call about it said. -/
theorem whitelist_run_iff (id : AccountId) : id ∈ (registry.run s calls).whitelist ↔
    (lastListing id (registry.steps s calls)).elim (id ∈ s.whitelist) (· = true) :=
  Machine.switch_iff (P := fun t => id ∈ t.whitelist)
    (fun _ hstep => (lists_of_step hstep).2.2.pool id) s calls

/-- A factory is whitelisted as the last call about it said. -/
theorem factoryWhitelist_run_iff (id : AccountId) : id ∈ (registry.run s calls).factoryWhitelist ↔
    (lastFactoryListing id (registry.steps s calls)).elim (id ∈ s.factoryWhitelist) (· = true) :=
  Machine.switch_iff (P := fun t => id ∈ t.factoryWhitelist)
    (fun _ hstep => (lists_of_step hstep).2.2.factory id) s calls

end Runs

/-- **The whitelist is its history.** From a new contract on, a pool or a factory is whitelisted
exactly when the last accepted call about it added it, and a call is accepted exactly when it is
about a valid account and made by the foundation, or adds a pool and is made by an account that the
last accepted call about it as a factory added. -/
theorem registry_follows_history (stateExists : Bool) (foundation : AccountId)
    (s : WhitelistContract) (hnew : WhitelistContract.new stateExists foundation = .ok s)
    (calls : List (AccountId × Method)) :
    (∀ id, id ∈ (registry.run s calls).whitelist ↔
      lastListing id (registry.steps s calls) = some true) ∧
    (∀ id, id ∈ (registry.run s calls).factoryWhitelist ↔
      lastFactoryListing id (registry.steps s calls) = some true) ∧
    ∀ p m, (∃ t, registry.step (registry.run s calls) (p, m) = .ok t) ↔
      isValidAccountId m.accountId ∧ (p = foundation ∨
        m.addsPool = true ∧ lastFactoryListing p (registry.steps s calls) = some true) := by
  obtain ⟨hfoundation, hpools, hfactories⟩ : s.foundationAccountId = foundation ∧
      s.whitelist = ∅ ∧ s.factoryWhitelist = ∅ := by
    simp only [WhitelistContract.new, bind_eq_ok, pure_eq_ok] at hnew
    obtain ⟨-, -, -, -, rfl⟩ := hnew
    exact ⟨rfl, rfl, rfl⟩
  have hnone : ∀ last : Option Bool, last.elim False (· = true) ↔ last = some true := by
    intro last
    cases last <;> simp
  have hfactory : ∀ id, id ∈ (registry.run s calls).factoryWhitelist ↔
      lastFactoryListing id (registry.steps s calls) = some true := by
    intro id
    rw [factoryWhitelist_run_iff, hfactories, ← hnone]
    simp
  refine ⟨?_, hfactory, ?_⟩
  · intro id
    rw [whitelist_run_iff, hpools, ← hnone]
    simp
  · intro p m
    rw [step_returns_iff, WhitelistContract.Authorizes, foundationAccountId_run, hfoundation,
      hfactory]

/-- The foundation lets a factory add a pool and removes the factory again. -/
def sampleListing : List (AccountId × Method) :=
  [("foundation", .addFactory "factory"), ("factory", .addStakingPool "pool"),
    ("foundation", .removeFactory "factory"), ("factory", .addStakingPool "other")]

theorem registry_follows_history_sampleListing :
    "pool" ∈ (registry.run ⟨"foundation", ∅, ∅⟩ sampleListing).whitelist ∧
      "other" ∉ (registry.run ⟨"foundation", ∅, ∅⟩ sampleListing).whitelist ∧
      ¬ ∃ t, registry.step (registry.run ⟨"foundation", ∅, ∅⟩ sampleListing)
        ("factory", .addStakingPool "other") = .ok t := by
  obtain ⟨hpools, -, haccepted⟩ := registry_follows_history false "foundation"
    ⟨"foundation", ∅, ∅⟩ (by rfl) sampleListing
  refine ⟨(hpools "pool").mpr (by decide +kernel), ?_, ?_⟩
  · intro hmem
    exact absurd ((hpools "other").mp hmem) (by decide +kernel)
  · intro hcall
    exact absurd ((haccepted "factory" (.addStakingPool "other")).mp hcall).2 (by decide +kernel)

end UncContracts.Whitelist
