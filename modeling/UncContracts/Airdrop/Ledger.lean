import UncContracts.Airdrop.Effects

/-!
# The ledger of the airdrop

What is sent to a key is recorded, in flight or paid out. Nothing is ever paid twice. Tokens are
lost on three ways, and keys on one: a claim to an account that fails is awaited by nobody, the
amount of a failed creation is put back in place of what was sent meanwhile, an addition stops at
the largest amount, and a claim deletes a key to which something was sent meanwhile.

## Main definitions

* `sent`, `paid`: what a step sends to a key, and what it pays out through it
* `safe`: a step goes none of these ways
* `Lossless`: what was sent to a key is covered, and the key is there to claim it

## Main results

* `never_overpaid`: no more is recorded, in flight and paid out than was sent
* `lossless_of_safe`: in a run of safe steps nothing is lost
* `not_lossless`: what was sent during a claim that fails is lost
-/

namespace UncContracts.Airdrop

open Foundation

/-- What a step sends to a key. -/
def sent (key : PublicKey) (x : Step World Label) : ℕ :=
  match x.label with
  | .call env (.send publicKey) =>
    if publicKey = key then env.attachedDeposit - ACCESS_KEY_ALLOWANCE else 0
  | _ => 0

/-- What a step pays out through a key. -/
def paid (key : PublicKey) (x : Step World Label) : ℕ :=
  match x.label with
  | .deliver i success =>
    match x.before.receipts[i]? with
    | some (.promise p signerAccountPk origin) =>
      if (x.before.outcome p success).1 then
        (Receipt.promise p signerAccountPk origin).claimed key
      else 0
    | _ => 0
  | _ => 0

/-- A step does not saturate a balance, every transfer of a claim succeeds, the amount of a failed
creation is put back where nothing is recorded and the key is there, and a key with a balance is
deleted only if it is about to be added again. -/
def safe (w : World) : Label → Bool
  | .call env (.send key) => w.contract.balanceOf key + env.attachedDeposit ≤ u128Max
  | .deliver i success =>
    match w.receipts[i]? with
    | some (.promise p _ origin) =>
      (match origin with
        | .claim _ => (w.outcome p success).1 || p.transferred = 0
        | _ => true) &&
      (p.receiverId ≠ w.accountId || p.deletes.all fun key =>
        w.contract.balanceOf key = 0 || w.receipts.any (Receipt.adds w.accountId key))
    | _ => true
  | .resume i _ =>
    match w.receipts[i]? with
    | some (.callback (.onAccountCreatedAndClaimed _) false key) =>
      w.contract.balanceOf key = 0 ∧
        (key ∈ w.keys ∨ w.receipts.any (Receipt.adds w.accountId key) = true)
    | _ => true
  | _ => true

section Steps

variable {w w' : World} {l : Label} {key : PublicKey}

theorem balanceOf_insert {m : Map PublicKey ℕ} {k : PublicKey} {v : ℕ} :
    (AirDrop.mk (m.insert k v)).balanceOf key = if key = k then v else (AirDrop.mk m).balanceOf key := by
  unfold AirDrop.balanceOf
  by_cases h : key = k
  · subst h
    simp
  · simp [AList.lookup_insert_ne h, h]

theorem balanceOf_erase {m : Map PublicKey ℕ} {k : PublicKey} :
    (AirDrop.mk (m.erase k)).balanceOf key = if key = k then 0 else (AirDrop.mk m).balanceOf key := by
  unfold AirDrop.balanceOf
  by_cases h : key = k
  · subst h
    simp
  · simp [AList.lookup_erase_ne h, h]

theorem inFlight_issued {env : Env} {origin : Method} {contract : AirDrop} {receipts : List Receipt}
    {promises : List Promise} :
    (w.issued env origin contract receipts promises).inFlight key =
      (receipts.map (Receipt.claimed key)).sum + (promises.map fun p =>
        (Receipt.promise p env.signerAccountPk origin).claimed key).sum := by
  simp only [World.inFlight, World.issued, List.map_append, List.sum_append, List.map_map]
  rfl

theorem inFlight_delivered {p : Promise} {signer : PublicKey} {receipts : List Receipt}
    {success : Bool} :
    (w.delivered p signer receipts success).inFlight key =
      (receipts.map (Receipt.claimed key)).sum + (p.callback.toList.map fun c =>
        (Receipt.callback c (w.outcome p success).1 signer).claimed key).sum := by
  simp only [World.inFlight, World.delivered, List.map_append, List.sum_append, List.map_map]
  rfl

/-- What a batch of a claim carries is paid out, or put back by its callback, or lost where no
callback awaits it. -/
theorem claimed_delivered (key : PublicKey) (success : Bool) {p : Promise} {signer : PublicKey}
    {origin : Method} (hshaped : (Receipt.promise p signer origin).Shaped) :
    ∃ lost, (p.callback.toList.map fun c =>
        (Receipt.callback c success signer).claimed key).sum +
        (if success then (Receipt.promise p signer origin).claimed key else 0) + lost =
        (Receipt.promise p signer origin).claimed key ∧
      ((∀ accountId, origin = .claim accountId → success = true ∨ p.transferred = 0) →
        lost = 0) := by
  by_cases hclaim : origin.isClaim = true ∧ signer = key
  · cases origin with
    | claim accountId =>
      simp only [Receipt.Shaped] at hshaped
      refine ⟨if success then 0 else p.transferred, ?_, ?_⟩
      · rw [hshaped]
        cases success <;> simp [Receipt.claimed, hclaim]
      · intro hsafe
        rcases hsafe accountId rfl with rfl | hzero
        · rfl
        · simp [hzero]
    | createAccountAndClaim newAccountId newPublicKey =>
      simp only [Receipt.Shaped] at hshaped
      refine ⟨0, ?_, fun _ => rfl⟩
      rw [hshaped]
      cases success <;> simp [Receipt.claimed, hclaim]
    | send _ | createAccount _ _ | createAccountAdvanced _ _ | callback _ =>
      exact absurd hclaim.1 Bool.false_ne_true
  · refine ⟨0, ?_, fun _ => rfl⟩
    have hcallback : (p.callback.toList.map fun c =>
        (Receipt.callback c success signer).claimed key).sum = 0 := by
      refine List.sum_eq_zero ?_
      intro n hn
      obtain ⟨c, hc, rfl⟩ := List.mem_map.mp hn
      rw [Option.mem_toList] at hc
      cases c with
      | onAccountCreated predecessor amount => rfl
      | onAccountCreatedAndClaimed amount =>
        have hother : signer ≠ key := by
          intro heq
          refine hclaim ⟨?_, heq⟩
          cases origin with
          | claim _ | createAccountAndClaim _ _ => rfl
          | send _ | createAccount _ _ | createAccountAdvanced _ _ | callback _ =>
            exact absurd hc (hshaped amount)
        cases success <;> simp [Receipt.claimed, hother]
    rw [hcallback]
    simp [Receipt.claimed, hclaim]

/-- What the promises of a claim carry is in flight for its key. -/
theorem claimed_promises {promises : List Promise} {signer : PublicKey} {origin : Method}
    (hclaim : origin.isClaim = true) :
    (promises.map fun p => (Receipt.promise p signer origin).claimed key).sum =
      if signer = key then (promises.map Promise.transferred).sum else 0 := by
  by_cases heq : signer = key
  · simp [Receipt.claimed, hclaim, heq]
  · simp [Receipt.claimed, heq]

/-- A claim takes a balance off the record and sends it. -/
theorem balance_moves_in_flight {env : Env} (origin : Method) {promises : List Promise} {amount : ℕ}
    (hclaim : origin.isClaim = true)
    (hlookup : w.contract.accounts.lookup env.signerAccountPk = some amount)
    (hpromises : (promises.map Promise.transferred).sum = amount) :
    (w.issued env origin ⟨w.contract.accounts.erase env.signerAccountPk⟩ w.receipts
        promises).contract.balanceOf key +
      (w.issued env origin ⟨w.contract.accounts.erase env.signerAccountPk⟩ w.receipts
        promises).inFlight key = w.contract.balanceOf key + w.inFlight key := by
  have hinFlight : w.inFlight key = (w.receipts.map (Receipt.claimed key)).sum := rfl
  rw [inFlight_issued, claimed_promises hclaim, hpromises, hinFlight]
  simp only [World.issued, balanceOf_erase]
  by_cases heq : key = env.signerAccountPk
  · have hbalance : w.contract.balanceOf env.signerAccountPk = amount := by
      simp [AirDrop.balanceOf, hlookup]
    rw [if_pos heq, if_pos heq.symm, heq, hbalance]
    omega
  · rw [if_neg heq, if_neg (Ne.symm heq), Nat.add_zero]

/-- **The ledger of a step.** What a step loses is lost on one of the ways that are not safe. -/
theorem ledger_step (key : PublicKey) (hshaped : ∀ r ∈ w.receipts, r.Shaped) (h : Moves w l w') :
    ∃ lost, w'.contract.balanceOf key + w'.inFlight key + paid key ⟨w, l, w'⟩ + lost =
        w.contract.balanceOf key + w.inFlight key + sent key ⟨w, l, w'⟩ ∧
      (safe w l = true → lost = 0) := by
  have hinFlight : w.inFlight key = (w.receipts.map (Receipt.claimed key)).sum := rfl
  cases h with
  | @sent env publicKey hself hdeposit =>
    have hsaturated := saturatingAdd_le_add (w.contract.balanceOf publicKey) env.attachedDeposit
    -- What is over the maximum of the balance is lost.
    refine ⟨if publicKey = key then w.contract.balanceOf publicKey + env.attachedDeposit -
      saturatingAdd (w.contract.balanceOf publicKey) env.attachedDeposit else 0, ?_, ?_⟩
    · have hmax := env.attachedDeposit_le
      have hle : env.attachedDeposit ≤
          saturatingAdd (w.contract.balanceOf publicKey) env.attachedDeposit := by
        unfold saturatingAdd
        omega
      rw [inFlight_issued, hinFlight]
      simp only [World.issued, balanceOf_insert, paid, sent, addKey, Receipt.claimed,
        Method.isClaim, List.map_cons, List.map_nil, List.sum_cons, List.sum_nil]
      by_cases heq : publicKey = key
      · subst heq
        simp only [if_true]
        simp
        omega
      · simp [heq, Ne.symm heq]
    · intro hsafe
      simp only [safe, decide_eq_true_eq] at hsafe
      rw [saturatingAdd_of_le hsafe]
      simp
  | @claimed env accountId amount hlookup =>
    refine ⟨0, ?_, fun _ => rfl⟩
    have hcarried : ([removeKey w.accountId env.signerAccountPk,
        { receiverId := accountId, actions := [.transfer amount] }].map Promise.transferred).sum =
          amount := by
      simp [removeKey, Promise.transferred, Action.amount]
    simpa [paid, sent] using balance_moves_in_flight (.claim accountId) rfl hlookup hcarried
  | @claimedNew env newAccountId newPublicKey amount hlookup =>
    refine ⟨0, ?_, fun _ => rfl⟩
    have hcarried : ([AirDrop.creation newAccountId newPublicKey amount
        (.onAccountCreatedAndClaimed amount)].map Promise.transferred).sum = amount := by
      simp [AirDrop.creation, Promise.transferred, Action.amount]
    simpa [paid, sent] using balance_moves_in_flight
      (.createAccountAndClaim newAccountId newPublicKey) rfl hlookup hcarried
  | @created env method p predecessor amount hclaim hsend hp =>
    refine ⟨0, ?_, fun _ => rfl⟩
    have hsent : sent key ⟨w, .call env method, w.issued env method w.contract w.receipts [p]⟩ =
        0 := by
      cases method <;> first | rfl | exact absurd rfl (hsend _)
    rw [inFlight_issued, hinFlight, hsent]
    simp [World.issued, paid, Receipt.claimed, hclaim]
  | @delivered i success p signer origin rest htake =>
    have hsum := sum_of_takeAt htake (Receipt.claimed key)
    have hget := (takeAt_eq_some.mp htake).1
    -- A claim that fails loses what it carried, unless a callback awaits it.
    obtain ⟨lost, hlost, hsafe⟩ := claimed_delivered key (w.outcome p success).1
      (hshaped _ ((mem_of_takeAt htake).mpr (.inl rfl)))
    refine ⟨lost, ?_, ?_⟩
    · rw [inFlight_delivered, hinFlight, hsum]
      simp only [paid, hget, sent]
      simp only [World.delivered]
      omega
    · intro h
      refine hsafe ?_
      rintro accountId rfl
      simp only [safe, hget, Bool.and_eq_true, Bool.or_eq_true, decide_eq_true_eq] at h
      exact h.1
  | @finished i env amount signer rest htake =>
    refine ⟨0, ?_, fun _ => rfl⟩
    have hsum := sum_of_takeAt htake (Receipt.claimed key)
    rw [inFlight_issued, hinFlight, hsum]
    simp [World.issued, paid, sent, Receipt.claimed, Method.isClaim]
  | @restored i env amount rest htake =>
    have hsum := sum_of_takeAt htake (Receipt.claimed key)
    -- The amount that is put back takes the place of what was sent meanwhile.
    refine ⟨if env.signerAccountPk = key then w.contract.balanceOf key else 0, ?_, ?_⟩
    · rw [inFlight_issued, hinFlight, hsum]
      simp only [World.issued, balanceOf_insert, paid, sent, Receipt.claimed]
      by_cases heq : env.signerAccountPk = key
      · subst heq
        simp
        omega
      · simp [heq, Ne.symm heq]
    · intro hsafe
      simp only [safe, (takeAt_eq_some.mp htake).1, decide_eq_true_eq] at hsafe
      by_cases heq : env.signerAccountPk = key
      · subst heq
        simp [hsafe.1]
      · simp [heq]
  | @refunded i env predecessor amount success signer promises rest htake hp =>
    refine ⟨0, ?_, fun _ => rfl⟩
    have hsum := sum_of_takeAt htake (Receipt.claimed key)
    have hnew : (promises.map fun p => (Receipt.promise p env.signerAccountPk
        (.callback (.onAccountCreated predecessor amount))).claimed key).sum = 0 := by
      refine List.sum_eq_zero ?_
      intro n hn
      obtain ⟨p, -, rfl⟩ := List.mem_map.mp hn
      simp [Receipt.claimed, Method.isClaim]
    rw [inFlight_issued, hinFlight, hsum, hnew]
    simp [World.issued, paid, sent, Receipt.claimed]

/-! ## What is kept -/

theorem shaped_issued {env : Env} {origin : Method} {contract : AirDrop} {receipts : List Receipt}
    {promises : List Promise} (hreceipts : ∀ r ∈ receipts, r.Shaped)
    (hpromises : ∀ p ∈ promises, (Receipt.promise p env.signerAccountPk origin).Shaped) :
    ∀ r ∈ (w.issued env origin contract receipts promises).receipts, r.Shaped := by
  intro r hr
  rcases List.mem_append.mp hr with hr | hr
  · exact hreceipts r hr
  · obtain ⟨p, hp, rfl⟩ := List.mem_map.mp hr
    exact hpromises p hp

theorem shaped_step (hshaped : ∀ r ∈ w.receipts, r.Shaped) (h : Moves w l w') :
    ∀ r ∈ w'.receipts, r.Shaped := by
  have hrest : ∀ {i r rest}, takeAt w.receipts i = some (r, rest) → ∀ r ∈ rest, r.Shaped := by
    intro i r rest htake r' hr'
    exact hshaped r' ((mem_of_takeAt htake).mpr (.inr hr'))
  cases h with
  | sent hself hdeposit =>
    refine shaped_issued hshaped ?_
    intro p hp
    cases List.mem_singleton.mp hp
    rintro amount ⟨⟩
  | claimed hlookup =>
    refine shaped_issued hshaped ?_
    intro p hp
    rcases List.mem_pair.mp hp with rfl | rfl
    · rfl
    · rfl
  | claimedNew hlookup =>
    refine shaped_issued hshaped ?_
    intro p hp
    cases List.mem_singleton.mp hp
    simp [Receipt.Shaped, AirDrop.creation, Promise.transferred, Action.amount]
  | @created env method p predecessor amount hclaim hsend hp =>
    refine shaped_issued hshaped ?_
    intro p' hp'
    cases List.mem_singleton.mp hp'
    have hother : ∀ amount, p.callback ≠ some (.onAccountCreatedAndClaimed amount) := by
      rw [hp]
      rintro amount ⟨⟩
    cases method with
    | claim _ | createAccountAndClaim _ _ => cases hclaim
    | send _ | createAccount _ _ | createAccountAdvanced _ _ | callback _ => exact hother
  | delivered htake =>
    intro r hr
    rcases List.mem_append.mp hr with hr | hr
    · exact hrest htake r hr
    · obtain ⟨c, -, rfl⟩ := List.mem_map.mp hr
      trivial
  | finished htake =>
    refine shaped_issued (hrest htake) ?_
    intro p hp
    cases List.mem_singleton.mp hp
    rintro amount ⟨⟩
  | restored htake => exact shaped_issued (hrest htake) (by rintro p ⟨⟩)
  | refunded htake hp =>
    refine shaped_issued (hrest htake) ?_
    intro p hp'
    simp [Receipt.Shaped, hp p hp']

/-- What adds a key stays in flight, or has just added it. -/
theorem hasKey_of_adds (hself : w'.accountId = w.accountId)
    (hreceipts : ∀ r ∈ w.receipts, r.adds w.accountId key = true → r ∈ w'.receipts ∨ key ∈ w'.keys)
    (h : ∃ r ∈ w.receipts, r.adds w.accountId key = true) : w'.HasKey key := by
  obtain ⟨r, hr, hadds⟩ := h
  rcases hreceipts r hr hadds with hr' | hkey
  · exact .inr ⟨r, hr', hself ▸ hadds⟩
  · exact .inl hkey

theorem hasKey_issued {env : Env} {origin : Method} {contract : AirDrop} {receipts : List Receipt}
    {promises : List Promise}
    (hreceipts : ∀ r ∈ w.receipts, r.adds w.accountId key = true → r ∈ receipts)
    (h : w.HasKey key) : (w.issued env origin contract receipts promises).HasKey key := by
  rcases h with hkey | hadds
  · exact .inl hkey
  · refine hasKey_of_adds (w := w) rfl ?_ hadds
    intro r hr hadds
    exact .inl (List.mem_append_left _ (hreceipts r hr hadds))

theorem balanceOf_pos_of_erase {k : PublicKey}
    (h : 0 < (AirDrop.mk (w.contract.accounts.erase k)).balanceOf key) :
    0 < w.contract.balanceOf key := by
  rw [balanceOf_erase] at h
  split at h
  · cases h
  · exact h

/-- A callback that is taken adds no key. -/
theorem mem_rest_of_adds {i : ℕ} {c : Callback} {success : Bool} {signer : PublicKey}
    {rest : List Receipt} (htake : takeAt w.receipts i = some (.callback c success signer, rest)) :
    ∀ r ∈ w.receipts, r.adds w.accountId key = true → r ∈ rest := by
  intro r hr hadds
  rcases (mem_of_takeAt htake).mp hr with rfl | hr
  · cases hadds
  · exact hr

/-- **A safe step keeps the key of a balance.** -/
theorem hasKey_step (hkeyed : 0 < w.contract.balanceOf key → w.HasKey key)
    (hsafe : safe w l = true) (h : Moves w l w') :
    0 < w'.contract.balanceOf key → w'.HasKey key := by
  intro hpos
  cases h with
  | @sent env publicKey hself hdeposit =>
    by_cases heq : key = publicKey
    · subst heq
      refine .inr ⟨.promise (addKey w.accountId key) env.signerAccountPk (.send key), ?_, ?_⟩
      · exact List.mem_append_right _ (List.mem_singleton.mpr rfl)
      · simp [Receipt.adds, addKey, World.issued]
    · refine hasKey_issued (fun r hr _ => hr) (hkeyed ?_)
      simpa [World.issued, balanceOf_insert, heq] using hpos
  | @claimed env accountId amount hlookup =>
    exact hasKey_issued (fun r hr _ => hr) (hkeyed (balanceOf_pos_of_erase hpos))
  | @claimedNew env newAccountId newPublicKey amount hlookup =>
    exact hasKey_issued (fun r hr _ => hr) (hkeyed (balanceOf_pos_of_erase hpos))
  | created hclaim hsend hp => exact hasKey_issued (fun r hr _ => hr) (hkeyed hpos)
  | @delivered i success p signer origin rest htake =>
    have hget := (takeAt_eq_some.mp htake).1
    have hadded : ∀ r ∈ w.receipts, r.adds w.accountId key = true →
        r ∈ (w.delivered p signer rest success).receipts ∨
          key ∈ (w.delivered p signer rest success).keys := by
      intro r hr hadds
      rcases (mem_of_takeAt htake).mp hr with rfl | hr
      · exact .inr (mem_outcome_of_adds hadds)
      · exact .inl (List.mem_append_left _ hr)
    rcases hkeyed hpos with hkey | hadds
    · by_cases hdeletes : p.receiverId = w.accountId ∧ key ∈ p.deletes
      · simp only [safe, hget, Bool.and_eq_true, Bool.or_eq_true, decide_eq_true_eq,
          List.all_eq_true, List.any_eq_true] at hsafe
        obtain ⟨r, hr, hadds⟩ := (hsafe.2.resolve_left (not_not_intro hdeletes.1) key
          hdeletes.2).resolve_left hpos.ne'
        exact hasKey_of_adds (w := w) rfl hadded ⟨r, hr, hadds⟩
      · exact .inl (mem_outcome hkey fun hself hmem => hdeletes ⟨hself, hmem⟩)
    · exact hasKey_of_adds (w := w) rfl hadded hadds
  | finished htake => exact hasKey_issued (mem_rest_of_adds htake) (hkeyed hpos)
  | @restored i env amount rest htake =>
    refine hasKey_issued (mem_rest_of_adds htake) ?_
    by_cases heq : key = env.signerAccountPk
    · subst heq
      simp only [safe, (takeAt_eq_some.mp htake).1, decide_eq_true_eq, List.any_eq_true] at hsafe
      exact hsafe.2
    · refine hkeyed ?_
      simpa [World.issued, balanceOf_insert, heq] using hpos
  | refunded htake hp => exact hasKey_issued (mem_rest_of_adds htake) (hkeyed hpos)

end Steps

/-! ## Runs -/

/-- What was sent to a key is recorded, in flight or paid out, and its access key is there for what
is recorded while it is not being claimed. -/
structure Lossless (steps : List (Step World Label)) (w : World) (key : PublicKey) : Prop where
  covered : (steps.map (sent key)).sum ≤
    w.contract.balanceOf key + w.inFlight key + (steps.map (paid key)).sum
  claimable : 0 < w.contract.balanceOf key → (∀ r ∈ w.receipts, r.isClaimOf key = false) →
    w.HasKey key

section Runs

variable (accountId : AccountId) (keys : Finset PublicKey) (ls : List Label)

/-- **The ledger of a run.** What a run of safe steps loses is nothing. -/
theorem ledger_run (key : PublicKey) :
    ∃ lost, (system.run (World.initial accountId keys) ls).contract.balanceOf key +
        (system.run (World.initial accountId keys) ls).inFlight key +
        ((system.steps (World.initial accountId keys) ls).map (paid key)).sum + lost =
        ((system.steps (World.initial accountId keys) ls).map (sent key)).sum ∧
      ((∀ x ∈ system.steps (World.initial accountId keys) ls, safe x.before x.label = true) →
        lost = 0) := by
  have hrun := Machine.run_induction (M := system) (s := World.initial accountId keys)
    (P := fun hist w => (∀ r ∈ w.receipts, r.Shaped) ∧
      ∃ lost, w.contract.balanceOf key + w.inFlight key + (hist.map (paid key)).sum + lost =
        (hist.map (sent key)).sum ∧
      ((∀ x ∈ hist, safe x.before x.label = true) → lost = 0))
    ⟨by rintro r ⟨⟩, 0, rfl, fun _ => rfl⟩ ?_ ls
  · exact hrun.2
  · rintro hist w l w' ⟨hshaped, lost, hlost, hsafe⟩ h
    have hmoves := moves_of_step h
    refine ⟨shaped_step hshaped hmoves, ?_⟩
    obtain ⟨lost', hlost', hsafe'⟩ := ledger_step key hshaped hmoves
    refine ⟨lost + lost', ?_, ?_⟩
    · simp only [List.map_append, List.map_cons, List.map_nil, List.sum_append, List.sum_cons,
        List.sum_nil]
      omega
    · intro hall
      rw [hsafe fun x hx => hall x (List.mem_append_left _ hx),
        hsafe' (hall ⟨w, l, w'⟩ (List.mem_append_right _ (List.mem_singleton.mpr rfl)))]

/-- **Nothing is paid twice.** What is recorded, in flight and paid out was sent. -/
theorem never_overpaid (key : PublicKey) :
    (system.run (World.initial accountId keys) ls).contract.balanceOf key +
      (system.run (World.initial accountId keys) ls).inFlight key +
      ((system.steps (World.initial accountId keys) ls).map (paid key)).sum ≤
    ((system.steps (World.initial accountId keys) ls).map (sent key)).sum := by
  obtain ⟨lost, hlost, -⟩ := ledger_run accountId keys ls key
  omega

/-- **Safe runs lose nothing.** -/
theorem lossless_of_safe
    (hsafe : ∀ x ∈ system.steps (World.initial accountId keys) ls, safe x.before x.label = true)
    (key : PublicKey) :
    Lossless (system.steps (World.initial accountId keys) ls)
      (system.run (World.initial accountId keys) ls) key where
  covered := by
    obtain ⟨lost, hlost, hnone⟩ := ledger_run accountId keys ls key
    have := hnone hsafe
    omega
  claimable := by
    intro hpos _
    refine Machine.run_invariant (M := system)
      (I := fun w => 0 < w.contract.balanceOf key → w.HasKey key)
      (G := fun w l => safe w l = true) ?_ hsafe (fun h => absurd h (Nat.lt_irrefl 0)) hpos
    intro w l w' hkeyed hstep h
    exact hasKey_step hkeyed hstep (moves_of_step h)

end Runs

/-! ## A claim that fails -/

/-- The environment of a call at the airdrop, signed by the key of the tokens. -/
def sampleEnv (predecessorAccountId : AccountId) (attachedDeposit : ℕ)
    (h : attachedDeposit ≤ u128Max) : Env where
  currentAccountId := "drop"
  predecessorAccountId
  signerAccountPk := "key"
  attachedDeposit
  accountBalance := 0
  accountLockedBalance := 0
  epochHeight := 0
  blockHeight := 0
  blockTimestamp := 0
  attachedDeposit_le := h
  accountBalance_le := Nat.zero_le _
  accountLockedBalance_le := Nat.zero_le _

/-- A key is sent three tokens and claimed for a new account, which is created. -/
def sampleRun : List Label :=
  [.call (sampleEnv "giver" (ACCESS_KEY_ALLOWANCE + 3) (by decide)) (.send "key"),
    .deliver 0 true,
    .call (sampleEnv "drop" 0 (by decide)) (.createAccountAndClaim "alice" "new"),
    .deliver 0 true, .resume 0 (sampleEnv "drop" 0 (by decide)), .deliver 0 true]

theorem lossless_of_safe_sampleRun :
    Lossless (system.steps (World.initial "drop" ∅) sampleRun)
      (system.run (World.initial "drop" ∅) sampleRun) "key" :=
  lossless_of_safe "drop" ∅ sampleRun (by decide) "key"

/-- While the claim for an account that is taken is in flight, five more tokens are sent. -/
def sampleTopUp : List Label :=
  sampleRun.take 3 ++
    [.call (sampleEnv "giver" (ACCESS_KEY_ALLOWANCE + 5) (by decide)) (.send "key"),
      .deliver 0 false, .resume 1 (sampleEnv "drop" 0 (by decide))]

/-- The claim is put back in place of what was sent meanwhile. -/
theorem not_lossless :
    ¬ Lossless (system.steps (World.initial "drop" ∅) sampleTopUp)
      (system.run (World.initial "drop" ∅) sampleTopUp) "key" := by
  intro h
  exact absurd h.covered (by decide)

end UncContracts.Airdrop
