import UncContracts.Social.NodeGraph

/-!
# Empty keys

The empty key of a node is for its own value. As long as no call makes a node under it, by an object
in the data of a `set` or by an empty part of a key that is granted, there is none.

## Main definitions

* `Method.KeepsEmpty`: a call makes no node under an empty key

## Main results

* `Move.free`: a move leaves the empty keys free
* `free_run`: no node is under an empty key
* `emptyKeys_run`: writes and views that rely on this do not panic
-/

namespace UncContracts.Social

open Foundation HasTarget

/-- No object in the data of the call is under an empty key, and no part of a key that it grants is
empty after the account. -/
def Method.KeepsEmpty (method : Method) : Prop := EMPTY_KEY ∉ method.nodeKeys

instance (method : Method) : Decidable method.KeepsEmpty :=
  inferInstanceAs (Decidable (EMPTY_KEY ∉ method.nodeKeys))

section Free

variable {host : Host} {env : Env} {L : String → Prop} {P : SharedStoragePool → Prop}
  {c c' : Contract} {id : AccountId} {deposit : ℕ} {transfers : List Transfer}

/-- An account id is no empty key. -/
theorem ne_empty_of_isValidAccountId (h : isValidAccountId id = true) : id ≠ EMPTY_KEY := by
  rintro rfl
  exact absurd h (by decide)

theorem free_new (env : Env) : ∀ n, (Contract.new env).forest.Free n EMPTY_KEY := by
  intro n v hv
  simp [Contract.forest, Contract.new] at hv

/-- A new account makes no node under an empty key. -/
theorem free_of_opened {shared : Option AccountSharedStorage}
    {pools : Map AccountId SharedStoragePool} (hsound : c.Sound)
    (hfree : ∀ n, c.forest.Free n EMPTY_KEY) (hid : isValidAccountId id = true) (n : NodeId) :
    (({ c with nodeCount := c.nodeCount + 1, sharedStoragePools := pools } : Contract).opened env id
      { Account.new c.nodeCount with sharedStorage := shared }).forest.Free n EMPTY_KEY := by
  rw [Contract.forest_opened env id shared pools hsound.count_pos]
  intro v hv
  simp only [Forest.link, Ne.symm (ne_empty_of_isValidAccountId hid), and_false, if_false] at hv
  split at hv
  · cases hv
  · exact hfree n v hv

/-- **A move leaves the empty keys free**, if it makes no node under them. -/
theorem Move.free (h : Move host env L P c c' deposit transfers) (hL : ¬ L EMPTY_KEY)
    (hsound : c.Sound) (hfree : ∀ n, c.forest.Free n EMPTY_KEY) :
    ∀ n, c'.forest.Free n EMPTY_KEY := by
  cases h with
  | updated ha hedits hbalance htracker hsaves =>
    rw [hsaves.forest_eq]
    exact hedits.writes.free hL hfree
  | created hid hnew hopens hc htracker hsaves =>
    subst hc
    rw [hsaves.forest_eq]
    exact free_of_opened hsound hfree hid
  | withdrawn ha hamount hsaves =>
    rw [hsaves.forest_eq]
    exact hfree
  | returned => exact hfree
  | pooled hpool hdeposit hpool₁ hc =>
    subst hc
    exact hfree
  | shared ha hshares hc htracker hsaves =>
    subst hc
    rw [hsaves.forest_eq]
    exact hfree
  | changed => exact hfree

theorem Moves.free (h : Moves host env L P c c' deposit transfers) (hL : ¬ L EMPTY_KEY)
    (hsound : c.Sound) (hfree : ∀ n, c.forest.Free n EMPTY_KEY) :
    ∀ n, c'.forest.Free n EMPTY_KEY := by
  induction h with
  | refl => exact hfree
  | tail h hmove ih => exact hmove.free hL (h.sound hsound) ih

/-- **No node is under an empty key** after calls that make none there. -/
theorem free_run (host : Host) (start : Env) (calls : List Call)
    (h : ∀ x ∈ (system host).steps (.new start) calls, x.label.method.KeepsEmpty) :
    ∀ n, ((system host).run (.new start) calls).forest.Free n EMPTY_KEY := by
  refine (Machine.run_invariant (M := system host)
    (I := fun c => c.Sound ∧ ∀ n, c.forest.Free n EMPTY_KEY)
    (G := fun _ call => call.method.KeepsEmpty) ?_ h
    ⟨Contract.sound_new start, free_new start⟩).2
  rintro c call c' ⟨hsound, hfree⟩ hkeeps hstep
  obtain ⟨transfers, hmoves⟩ := moves_of_step (L := (· ≠ EMPTY_KEY)) (P := fun _ => True) hsound
    (fun k hk heq => hkeeps (heq ▸ hk)) (fun _ _ => trivial) hstep
  exact ⟨hmoves.sound hsound, hmoves.free (fun hne => hne rfl) hsound hfree⟩

/-- What is enough for a write to put no value over a node. -/
theorem keeps_free (host : Host) : Keeps (· = REPLACED_NODE) host (· ≠ EMPTY_KEY) (fun _ => True)
    fun c => c.Sound ∧ ∀ n, c.forest.Free n EMPTY_KEY := by
  refine ⟨?_, ?_, ?_, fun _ hne => hne rfl⟩
  · rintro msg rfl
    decide
  · rintro c ⟨hsound, hfree⟩
    refine ⟨hsound, ?_, ?_, ?_, ?_, fun _ => hfree⟩
    · exact fun hmsg => absurd hmsg (by decide)
    · exact fun hmsg => absurd hmsg (by decide)
    · exact fun hmsg => absurd hmsg (by decide)
    · exact fun hmsg => absurd hmsg (by decide)
  · rintro env c c' deposit transfers hmove ⟨hsound, hfree⟩
    exact ⟨hmove.sound hsound, hmove.free (fun hne => hne rfl) hsound hfree⟩

end Free

/-- **Empty keys.** After calls that make no node under an empty key there is none. Then no such call
finds a node where it puts a value, and `keys` has a height for everything that it shows. -/
theorem emptyKeys_run (host : Host) (start : Env) (calls : List Call)
    (h : ∀ x ∈ (system host).steps (.new start) calls, x.label.method.KeepsEmpty) :
    let c := (system host).run (.new start) calls
    (∀ n, c.forest.Free n EMPTY_KEY) ∧
      (∀ env method, method.KeepsEmpty → c.call host env method ≠ .error REPLACED_NODE) ∧
      ∀ patterns options, c.keys patterns options ≠ .error UNWRAP_NONE := by
  intro c
  have hsound : c.Sound := sound_run host start calls
  have hfree : ∀ n, c.forest.Free n EMPTY_KEY := free_run host start calls h
  refine ⟨hfree, ?_, ?_⟩
  · intro env method hkeeps herror
    have havoids : Avoids (· = REPLACED_NODE) (c.call host env method) :=
      call_avoids (keeps_free host) ⟨hsound, hfree⟩ fun k hk heq => hkeeps (heq ▸ hk)
    exact havoids _ herror rfl
  · intro patterns options herror
    have havoids : Avoids (fun _ => True) (c.keys patterns options) :=
      keys_avoids hsound fun _ _ => hfree
    exact havoids _ herror trivial

/-- An account puts an object under its empty key. -/
def sampleEmptyObject : Call where
  env := sampleEnv "alice" (10 ^ 23) sampleDeposit_le
  method := .set (.object [("alice", .object [("", .object [("a", .string "x")])])]) none

/-- An account has a value under a key of its own. -/
def sampleValue : Call where
  env := sampleEnv "alice" (10 ^ 23) sampleDeposit_le
  method := .set (.object [("alice", .object [("a", .string "x")])]) none

theorem emptyKeys_run_sampleValue :
    let c := (system sampleHost).run (.new (sampleEnv "social" 0 (by decide)))
      [sampleLive, sampleValue]
    (∀ n, c.forest.Free n EMPTY_KEY) ∧
      (∀ env method, method.KeepsEmpty → c.call sampleHost env method ≠ .error REPLACED_NODE) ∧
      ∀ patterns options, c.keys patterns options ≠ .error UNWRAP_NONE :=
  emptyKeys_run sampleHost (sampleEnv "social" 0 (by decide)) [sampleLive, sampleValue]
    (by decide +kernel)

/-- After an object under an empty key, a value for the account and a view of its height panic. -/
theorem not_emptyKeys_run :
    let c := (system sampleHost).run (.new (sampleEnv "social" 0 (by decide)))
      [sampleLive, sampleEmptyObject]
    (¬ ∀ n, c.forest.Free n EMPTY_KEY) ∧
      c.call sampleHost (sampleEnv "alice" 0 (by decide))
        (.set (.object [("alice", .string "x")]) none) = .error REPLACED_NODE ∧
      c.keys ["alice"] (some { returnType := some .blockHeight, valuesOnly := some true }) =
        .error UNWRAP_NONE := by
  intro c
  refine ⟨?_, ?_, ?_⟩
  · intro hfree
    have hentry : c.forest.entry 1 EMPTY_KEY = some (.node 2) := by decide +kernel
    cases hfree 1 _ hentry
  · decide +kernel
  · decide +kernel

end UncContracts.Social
