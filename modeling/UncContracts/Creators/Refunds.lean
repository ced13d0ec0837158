import UncContracts.Creators.Moves

/-!
# The deposits of failed creations

A deposit is with the batch that creates its account, then with the account. If the batch fails it
is with the contract that was called, until the callback transfers it back to the caller. A deposit
that fails at the multisig factory, which has no callback, stays there.

## Main definitions

* `Receipt.carries`, `Payment.isFor`: whether a receipt carries a deposit, and a payment is of it
* `stranded`: a deposit that stays with the multisig factory
* `Tracked`: where the deposits are, along a run
* `Returned`, `Settled`: the deposits are on their way or arrived, all of them arrived

## Main results

* `Tracked.step`: every step keeps track of the deposits
* `drains`: whatever is in flight can be delivered
* `returned_iff`: no deposit stays with a contract exactly if no creation with a deposit fails at
  the multisig factory
-/

namespace UncContracts.Creators

open Foundation

/-- One for the receipt that carries a deposit: a batch, or the callback after one that failed. -/
def Receipt.carries (id : ℕ) : Receipt → ℕ
  | .batch id' _ _ => if id' = id then 1 else 0
  | .callback id' _ _ false => if id' = id then 1 else 0
  | .callback _ _ _ true => 0

/-- One for a payment of a deposit. -/
def Payment.isFor (id : ℕ) (p : Payment) : ℕ := if p.depositId = id then 1 else 0

/-- How often a deposit is in flight. -/
def World.inFlight (w : World) (id : ℕ) : ℕ := (w.receipts.map (Receipt.carries id)).sum

/-- How often a deposit was paid. -/
def World.paid (w : World) (id : ℕ) : ℕ := (w.payments.map (Payment.isFor id)).sum

/-- The deposit of a creation that fails at the multisig factory, with its amount. -/
def stranded (x : Step World Label) : Option (ℕ × ℕ) :=
  match x.label with
  | .deliver i false =>
    match takeAt x.before.receipts i with
    | some (.batch id .multisigFactory sent, _) => some (id, sent.amount)
    | _ => none
  | _ => none

/-- The step fails the creation for a deposit of the multisig factory. -/
def Strands (x : Step World Label) : Prop := ∃ e, stranded x = some e ∧ 0 < e.2

instance (x : Step World Label) : Decidable (Strands x) :=
  match h : stranded x with
  | some e => decidable_of_iff (0 < e.2) (by simp [Strands, h])
  | none => isFalse (by simp [Strands, h])

/-- One for a step that leaves a deposit with the multisig factory. -/
def strandings (id : ℕ) (x : Step World Label) : ℕ :=
  (stranded x).elim 0 fun e => if e.1 = id then 1 else 0

/-- The tokens that a step leaves with a contract. -/
def strandedAt (creator : Creator) (x : Step World Label) : ℕ :=
  (stranded x).elim 0 fun e => if creator = .multisigFactory then e.2 else 0

/-- A payment is of the whole deposit, to the new account or back to the caller. -/
def Arrives (deposits : List Deposit) (p : Payment) : Prop :=
  ∃ d, deposits[p.depositId]? = some d ∧ p.amount = d.amount ∧
    (p.receiverId = d.newAccountId ∨ p.receiverId = d.callerId)

/-- Every deposit is in flight once or was paid once, to the right account, and the contracts hold
what they held before and what their callbacks in flight are to pay. -/
structure Returned (balance : Creator → ℕ) (w : World) : Prop where
  once : ∀ id d, w.deposits[id]? = some d → 0 < d.amount → w.inFlight id + w.paid id = 1
  arrives : ∀ p ∈ w.payments, Arrives w.deposits p
  held : ∀ creator, w.balance creator = balance creator + w.held creator

/-- Every deposit was paid once, to the right account, and the contracts hold what they held
before. -/
structure Settled (balance : Creator → ℕ) (w : World) : Prop where
  once : ∀ id d, w.deposits[id]? = some d → 0 < d.amount → w.paid id = 1
  arrives : ∀ p ∈ w.payments, Arrives w.deposits p
  held : w.balance = balance

/-- Along the steps so far, where every deposit is: in flight, paid, or left with the multisig
factory. -/
structure Tracked (balance : Creator → ℕ) (hist : List (Step World Label)) (w : World) : Prop where
  sound : ∀ r ∈ w.receipts, Sound w.deposits r
  arrives : ∀ p ∈ w.payments, Arrives w.deposits p
  places : ∀ id, w.inFlight id + w.paid id + (hist.map (strandings id)).sum =
    if id < w.deposits.length then 1 else 0
  held : ∀ creator, w.balance creator =
    balance creator + w.held creator + (hist.map (strandedAt creator)).sum
  amounts : ∀ x ∈ hist, ∀ e, stranded x = some e →
    ∃ d, w.deposits[e.1]? = some d ∧ d.amount = e.2

/-- The contracts before any call. -/
def World.initial (accountId : Creator → AccountId) (lockupFactory : LockupFactory)
    (airdrop : Airdrop.AirDrop) (balance : Creator → ℕ) : World where
  accountId
  lockupFactory
  airdrop
  balance
  deposits := []
  receipts := []
  payments := []

section Steps

variable {sha256 : List UInt8 → Lockup.Hash} {balance : Creator → ℕ}
  {hist : List (Step World Label)} {w w' : World} {l : Label} {d : Deposit}
  {deposits : List Deposit} {r : Receipt} {p : Payment} {id : ℕ}

/-! ## Further deposits -/

theorem getElem?_concat (h : deposits[id]? = some d) (d' : Deposit) :
    (deposits ++ [d'])[id]? = some d := by
  rw [List.getElem?_append_left (List.getElem?_eq_some_iff.mp h).1, h]

theorem Sound.concat (h : Sound deposits r) (d' : Deposit) : Sound (deposits ++ [d']) r := by
  cases h with
  | creation hd hcreation => exact .creation (getElem?_concat hd d') hcreation
  | refund hd hcreator => exact .refund (getElem?_concat hd d') hcreator
  | callback hd hrefunds => exact .callback (getElem?_concat hd d') hrefunds

theorem Arrives.concat (h : Arrives deposits p) (d' : Deposit) : Arrives (deposits ++ [d']) p := by
  obtain ⟨d, hd, hamount, hreceiver⟩ := h
  exact ⟨d, getElem?_concat hd d', hamount, hreceiver⟩

/-! ## Keeping track -/

theorem Tracked.held_le (h : Tracked balance hist w) (creator : Creator) :
    w.held creator ≤ w.balance creator := by
  rw [h.held creator]
  omega

theorem tracked_initial (accountId : Creator → AccountId) (lockupFactory : LockupFactory)
    (airdrop : Airdrop.AirDrop) (balance : Creator → ℕ) :
    Tracked balance [] (World.initial accountId lockupFactory airdrop balance) := by
  refine ⟨fun r hr => absurd hr List.not_mem_nil, fun p hp => absurd hp List.not_mem_nil, ?_, ?_,
    fun x hx => absurd hx List.not_mem_nil⟩
  · intro id
    rfl
  · intro creator
    rfl

/-! ## What a step leaves with a contract -/

theorem stranded_of_takeAt (w' : World) {i : ℕ} {creator : Creator} {sent : Sent}
    {rest : List Receipt}
    (htake : takeAt w.receipts i = some (.batch id creator sent, rest)) :
    stranded ⟨w, .deliver i false, w'⟩ =
      if creator = .multisigFactory then some (id, sent.amount) else none := by
  cases creator <;> simp [stranded, htake]

/-- A creation that fails leaves its deposit with the multisig factory, or is awaited. -/
theorem stranded_failed (w' : World) {i : ℕ} {creator : Creator} {sent : Sent} {rest : List Receipt}
    (hsound : Sound w.deposits (.batch id creator sent))
    (htake : takeAt w.receipts i = some (.batch id creator sent, rest))
    (hcreates : sent.createsAccount = true) :
    ∃ d, w.deposits[id]? = some d ∧ creator = d.creator ∧ sent.amount = d.amount ∧
      (stranded ⟨w, .deliver i false, w'⟩ = some (id, d.amount) ∧ sent.callback = none ∧
          d.creator = .multisigFactory ∨
        stranded ⟨w, .deliver i false, w'⟩ = none ∧
          ∃ callback, sent.callback = some callback ∧ Refunds d callback) := by
  rw [stranded_of_takeAt _ htake]
  cases hsound with
  | refund hd hcreator => cases hcreates
  | @creation _ d _ hd hcreation =>
    refine ⟨d, hd, rfl, hcreation.amount, ?_⟩
    have hawaited := hcreation.awaited
    revert hawaited
    cases hcallback : sent.callback with
    | none =>
      rintro (hcreator | _)
      rw [if_pos hcreator, hcreation.amount]
      exact .inl ⟨rfl, rfl, hcreator⟩
    | some callback =>
      rintro (_ | hrefunds)
      exact .inr ⟨if_neg hrefunds.creator_ne, callback, rfl, hrefunds⟩

/-! ## One step -/

theorem sound_callbacks {creator : Creator} {sent : Sent}
    (h : Sound deposits (.batch id creator sent)) (success : Bool) :
    ∀ r ∈ sent.callback.toList.map fun callback => .callback id creator callback success,
      Sound deposits r := by
  intro r hr
  obtain ⟨callback, hcallback, rfl⟩ := List.mem_map.mp hr
  have hcallback : sent.callback = some callback := Option.mem_toList.mp hcallback
  cases h with
  | refund hd hcreator => cases hcallback
  | creation hd hcreation =>
    have hawaited := hcreation.awaited
    rw [hcallback] at hawaited
    cases hawaited with
    | some hrefunds => exact .callback hd hrefunds

/-- What was in flight stays sound, also what is left of it. -/
theorem sound_of_moves (hsound : ∀ r ∈ w.receipts, Sound w.deposits r)
    (hmoves : Moves sha256 w l w') : ∀ r ∈ w'.receipts, Sound w'.deposits r := by
  cases hmoves with
  | called hd hcreation =>
    intro r hr
    rcases List.mem_append.mp hr with hr | hr
    · exact (hsound r hr).concat _
    · cases List.mem_singleton.mp hr
      exact .creation List.getElem?_concat_length hcreation
  | paid htake =>
    intro r hr
    rcases List.mem_append.mp hr with hr | hr
    · exact hsound r ((mem_of_takeAt htake).mpr (.inr hr))
    · exact sound_callbacks (hsound _ ((mem_of_takeAt htake).mpr (.inl rfl))) true r hr
  | failed htake hcreates =>
    intro r hr
    rcases List.mem_append.mp hr with hr | hr
    · exact hsound r ((mem_of_takeAt htake).mpr (.inr hr))
    · exact sound_callbacks (hsound _ ((mem_of_takeAt htake).mpr (.inl rfl))) false r hr
  | done htake => exact fun r hr => hsound r ((mem_of_takeAt htake).mpr (.inr hr))
  | refunded htake hd hrefunds hbalance =>
    intro r hr
    rcases List.mem_append.mp hr with hr | hr
    · exact hsound r ((mem_of_takeAt htake).mpr (.inr hr))
    · cases List.mem_singleton.mp hr
      exact .refund hd hrefunds.creator_ne

theorem arrives_of_moves (hsound : ∀ r ∈ w.receipts, Sound w.deposits r)
    (harrives : ∀ p ∈ w.payments, Arrives w.deposits p) (hmoves : Moves sha256 w l w') :
    ∀ p ∈ w'.payments, Arrives w'.deposits p := by
  cases hmoves with
  | called hd hcreation => exact fun p hp => (harrives p hp).concat _
  | @paid i id creator sent rest htake =>
    intro p hp
    rcases List.mem_append.mp hp with hp | hp
    · exact harrives p hp
    · cases List.mem_singleton.mp hp
      cases hsound _ ((mem_of_takeAt htake).mpr (.inl rfl)) with
      | creation hd hcreation =>
        exact ⟨_, hd, hcreation.amount, .inl hcreation.receiver⟩
      | refund hd hcreator => exact ⟨_, hd, rfl, .inr rfl⟩
  | failed htake hcreates => exact harrives
  | done htake => exact harrives
  | refunded htake hd hrefunds hbalance => exact harrives

section Delivered

variable (w : World) (id' : ℕ) (creator' : Creator) (sent : Sent)

/-- After a batch that succeeded, nothing carries its deposit, and no contract holds it. -/
theorem delivered_true (id : ℕ) (creator : Creator) :
    (w.delivered id' creator' sent true).inFlight id = w.inFlight id ∧
      (w.delivered id' creator' sent true).held creator = w.held creator := by
  cases hcallback : sent.callback <;>
    simp [World.delivered, World.inFlight, World.held, hcallback, Receipt.carries, Receipt.heldBy]

/-- After a batch that succeeded, its deposit is paid. -/
theorem paid_delivered_true (id : ℕ) : (w.delivered id' creator' sent true).paid id =
    w.paid id + if id' = id then 1 else 0 := by
  simp [World.delivered, World.paid, Payment.isFor]

/-- After a batch that failed, the callback that awaits it carries its deposit. -/
theorem delivered_false_of_some {callback : Callback} (hcallback : sent.callback = some callback)
    (id : ℕ) (creator : Creator) :
    (w.delivered id' creator' sent false).inFlight id =
        w.inFlight id + (if id' = id then 1 else 0) ∧
      (w.delivered id' creator' sent false).held creator =
        w.held creator + if creator' = creator then callback.amount else 0 := by
  simp [World.delivered, World.inFlight, World.held, hcallback, Receipt.carries, Receipt.heldBy]

/-- After a batch that failed and that nothing awaits, nothing carries its deposit. -/
theorem delivered_false_of_none (hcallback : sent.callback = none) (id : ℕ) (creator : Creator) :
    (w.delivered id' creator' sent false).inFlight id = w.inFlight id ∧
      (w.delivered id' creator' sent false).held creator = w.held creator := by
  simp [World.delivered, World.inFlight, World.held, hcallback]

theorem balance_delivered_false (creator : Creator) :
    (w.delivered id' creator' sent false).balance creator =
      w.balance creator + if creator' = creator then sent.amount else 0 := by
  by_cases hcreator : creator' = creator
  · subst hcreator
    simp [World.delivered]
  · simp [World.delivered, Function.update_of_ne (Ne.symm hcreator), hcreator]

end Delivered

/-- A deposit moves from one place to the next. -/
theorem places_of_moves {n : ℕ} (hsound : ∀ r ∈ w.receipts, Sound w.deposits r)
    (hmoves : Moves sha256 w l w')
    (hplaces : w.inFlight id + w.paid id + n = if id < w.deposits.length then 1 else 0) :
    w'.inFlight id + w'.paid id + (n + strandings id ⟨w, l, w'⟩) =
      if id < w'.deposits.length then 1 else 0 := by
  cases hmoves with
  | @called env creation d sent hd hcreation =>
    have hnone : ∀ w', strandings id ⟨w, .call env creation, w'⟩ = 0 := fun _ => rfl
    rw [hnone]
    simp only [World.inFlight, World.paid, List.map_append, List.sum_append, List.map_cons,
      List.map_nil, List.sum_cons, List.sum_nil, Receipt.carries, List.length_append,
      List.length_cons, List.length_nil] at hplaces ⊢
    split_ifs at hplaces ⊢ <;> omega
  | @paid i id' creator sent rest htake =>
    have hnone : ∀ w', stranded ⟨w, .deliver i true, w'⟩ = none := fun _ => rfl
    have htaken : w.inFlight id = (if id' = id then 1 else 0) +
        { w with receipts := rest }.inFlight id := sum_of_takeAt htake (Receipt.carries id)
    rw [strandings, hnone, (delivered_true _ _ _ _ id creator).1, paid_delivered_true]
    change _ + (w.paid id + _) + (n + 0) = if id < w.deposits.length then 1 else 0
    omega
  | @failed i id' creator sent rest htake hcreates =>
    have htaken : w.inFlight id = (if id' = id then 1 else 0) +
        { w with receipts := rest }.inFlight id := sum_of_takeAt htake (Receipt.carries id)
    obtain ⟨d, -, -, -, ⟨hstranded, hcallback, -⟩ | ⟨hnone, callback, hcallback, -⟩⟩ :=
      stranded_failed ({ w with receipts := rest }.delivered id' creator sent false)
        (hsound _ ((mem_of_takeAt htake).mpr (.inl rfl))) htake hcreates
    · rw [strandings, hstranded, (delivered_false_of_none _ _ _ _ hcallback id creator).1]
      change _ + w.paid id + (n + if id' = id then 1 else 0) =
        if id < w.deposits.length then 1 else 0
      omega
    · rw [strandings, hnone, (delivered_false_of_some _ _ _ _ hcallback id creator).1]
      change _ + _ + w.paid id + (n + 0) = if id < w.deposits.length then 1 else 0
      omega
  | @done i id' env creator callback rest htake =>
    have htaken : w.inFlight id = 0 + { w with receipts := rest }.inFlight id :=
      sum_of_takeAt htake (Receipt.carries id)
    change { w with receipts := rest }.inFlight id + w.paid id + (n + 0) =
      if id < w.deposits.length then 1 else 0
    omega
  | @refunded i id' env d callback rest htake hd hrefunds hbalance =>
    have htaken : w.inFlight id = (if id' = id then 1 else 0) +
        { w with receipts := rest }.inFlight id := sum_of_takeAt htake (Receipt.carries id)
    have hconcat : ((rest ++ [Receipt.batch id' d.creator (refund d)]).map
        (Receipt.carries id)).sum =
        { w with receipts := rest }.inFlight id + if id' = id then 1 else 0 := by
      simp [World.inFlight, Receipt.carries]
    change ((rest ++ [Receipt.batch id' d.creator (refund d)]).map (Receipt.carries id)).sum +
      w.paid id + (n + 0) = if id < w.deposits.length then 1 else 0
    omega

/-- What the contracts hold follows the deposits. -/
theorem held_of_moves {n k : ℕ} {creator : Creator} (hsound : ∀ r ∈ w.receipts, Sound w.deposits r)
    (hmoves : Moves sha256 w l w') (hheld : w.balance creator = k + w.held creator + n) :
    w'.balance creator = k + w'.held creator + (n + strandedAt creator ⟨w, l, w'⟩) := by
  cases hmoves with
  | @called env creation d sent hd hcreation =>
    have hnone : ∀ w', strandedAt creator ⟨w, .call env creation, w'⟩ = 0 := fun _ => rfl
    rw [hnone]
    simpa [World.held, Receipt.heldBy] using hheld
  | @paid i id' creator' sent rest htake =>
    have hnone : ∀ w', stranded ⟨w, .deliver i true, w'⟩ = none := fun _ => rfl
    have htaken : w.held creator = 0 + { w with receipts := rest }.held creator :=
      sum_of_takeAt htake (Receipt.heldBy creator)
    rw [strandedAt, hnone, (delivered_true _ _ _ _ id' creator).2]
    change w.balance creator = k + _ + (n + 0)
    omega
  | @failed i id' creator' sent rest htake hcreates =>
    have htaken : w.held creator = 0 + { w with receipts := rest }.held creator :=
      sum_of_takeAt htake (Receipt.heldBy creator)
    obtain ⟨d, -, rfl, hamount, ⟨hstranded, hcallback, hcreator⟩ |
        ⟨hnone, callback, hcallback, hrefunds⟩⟩ :=
      stranded_failed ({ w with receipts := rest }.delivered id' creator' sent false)
        (hsound _ ((mem_of_takeAt htake).mpr (.inl rfl))) htake hcreates
    · -- The balance grows by the deposit, which nothing will pay out.
      rw [strandedAt, hstranded, (delivered_false_of_none _ _ _ _ hcallback id' creator).2,
        balance_delivered_false, hamount, hcreator]
      simp only [Option.elim_some, eq_comm (a := creator)]
      change w.balance creator + _ = k + _ + _
      omega
    · rw [strandedAt, hnone, (delivered_false_of_some _ _ _ _ hcallback id' creator).2,
        balance_delivered_false, hamount, hrefunds.amount]
      change w.balance creator + _ = k + (_ + _) + (n + 0)
      omega
  | @done i id' env creator' callback rest htake =>
    have htaken : w.held creator = 0 + { w with receipts := rest }.held creator :=
      sum_of_takeAt htake (Receipt.heldBy creator)
    change w.balance creator = k + { w with receipts := rest }.held creator + (n + 0)
    omega
  | @refunded i id' env d callback rest htake hd hrefunds hbalance =>
    have htaken : w.held creator = (if d.creator = creator then callback.amount else 0) +
        { w with receipts := rest }.held creator := sum_of_takeAt htake (Receipt.heldBy creator)
    have hconcat : ((rest ++ [Receipt.batch id' d.creator (refund d)]).map
        (Receipt.heldBy creator)).sum = { w with receipts := rest }.held creator := by
      simp [World.held, Receipt.heldBy]
    rw [hrefunds.amount] at htaken
    change Function.update w.balance d.creator (w.balance d.creator - d.amount) creator =
      k + ((rest ++ [Receipt.batch id' d.creator (refund d)]).map (Receipt.heldBy creator)).sum +
        (n + 0)
    rw [hconcat]
    by_cases hcreator : d.creator = creator
    · subst hcreator
      rw [Function.update_self]
      rw [if_pos rfl] at htaken
      omega
    · rw [Function.update_of_ne (Ne.symm hcreator)]
      rw [if_neg hcreator] at htaken
      omega

/-- The deposits before a step are the first ones after it. -/
theorem deposits_of_moves (hmoves : Moves sha256 w l w') (hd : w.deposits[id]? = some d) :
    w'.deposits[id]? = some d := by
  cases hmoves with
  | called _ hcreation => exact getElem?_concat hd _
  | paid htake => exact hd
  | failed htake hcreates => exact hd
  | done htake => exact hd
  | refunded htake hd' hrefunds hbalance => exact hd

/-- What a step strands is a deposit of a call. -/
theorem amount_of_stranded (hsound : ∀ r ∈ w.receipts, Sound w.deposits r)
    (hmoves : Moves sha256 w l w') {e : ℕ × ℕ} (he : stranded ⟨w, l, w'⟩ = some e) :
    ∃ d, w.deposits[e.1]? = some d ∧ d.amount = e.2 := by
  cases hmoves with
  | called hd hcreation => cases he
  | paid htake => cases he
  | @failed i id' creator sent rest htake hcreates =>
    obtain ⟨d, hd, -, -, ⟨hstranded, -⟩ | ⟨hnone, -⟩⟩ :=
      stranded_failed ({ w with receipts := rest }.delivered id' creator sent false)
        (hsound _ ((mem_of_takeAt htake).mpr (.inl rfl))) htake hcreates
    · cases hstranded.symm.trans he
      exact ⟨d, hd, rfl⟩
    · cases hnone.symm.trans he
  | done htake => cases he
  | refunded htake hd hrefunds hbalance => cases he

/-- **One step.** Every step keeps track of the deposits, unless a transfer back to a caller fails. -/
theorem Tracked.step (h : Tracked balance hist w) (hstep : (system sha256).step w l = .ok w')
    (harrives : bounces ⟨w, l, w'⟩ = false) : Tracked balance (hist ++ [⟨w, l, w'⟩]) w' := by
  have hmoves := moves_of_step h.sound h.held_le hstep harrives
  refine ⟨sound_of_moves h.sound hmoves, arrives_of_moves h.sound h.arrives hmoves, ?_, ?_, ?_⟩
  · intro id
    rw [List.map_append, List.sum_append]
    exact places_of_moves h.sound hmoves (h.places id)
  · intro creator
    rw [List.map_append, List.sum_append]
    exact held_of_moves h.sound hmoves (h.held creator)
  · intro x hx e he
    rcases List.mem_append.mp hx with hx | hx
    · obtain ⟨d, hd, hamount⟩ := h.amounts x hx e he
      exact ⟨d, deposits_of_moves hmoves hd, hamount⟩
    · cases List.mem_singleton.mp hx
      obtain ⟨d, hd, hamount⟩ := amount_of_stranded h.sound hmoves he
      exact ⟨d, deposits_of_moves hmoves hd, hamount⟩

theorem tracked_run (h : Tracked balance [] w) (ls : List Label)
    (harrives : ∀ x ∈ (system sha256).steps w ls, bounces x = false) :
    Tracked balance ((system sha256).steps w ls) ((system sha256).run w ls) := by
  refine Machine.run_induction (M := system sha256)
    (P := fun hist w => (∀ x ∈ hist, bounces x = false) → Tracked balance hist w) (fun _ => h) ?_ ls
    harrives
  intro hist a l c ih hstep hall
  exact (ih fun x hx => hall x (by simp [hx])).step hstep (hall ⟨a, l, c⟩ (by simp))

/-! ## Nothing is left behind -/

/-- What nothing strands is nowhere left. -/
theorem Tracked.sum_strandings_eq_zero (h : Tracked balance hist w)
    (hnone : ∀ x ∈ hist, ¬ Strands x) (hd : w.deposits[id]? = some d) (hpos : 0 < d.amount) :
    (hist.map (strandings id)).sum = 0 := by
  apply List.sum_eq_zero
  intro n hn
  obtain ⟨x, hx, rfl⟩ := List.mem_map.mp hn
  cases he : stranded x with
  | none => rw [strandings, he, Option.elim_none]
  | some e =>
    rw [strandings, he, Option.elim_some]
    refine if_neg ?_
    rintro rfl
    obtain ⟨d', hd', hamount⟩ := h.amounts x hx e he
    cases hd.symm.trans hd'
    exact hnone x hx ⟨e, he, hamount ▸ hpos⟩

theorem sum_strandedAt_eq_zero (hnone : ∀ x ∈ hist, ¬ Strands x) (creator : Creator) :
    (hist.map (strandedAt creator)).sum = 0 := by
  apply List.sum_eq_zero
  intro n hn
  obtain ⟨x, hx, rfl⟩ := List.mem_map.mp hn
  cases he : stranded x with
  | none => rw [strandedAt, he, Option.elim_none]
  | some e =>
    have hamount : e.2 = 0 := Nat.eq_zero_of_not_pos fun hpos => hnone x hx ⟨e, he, hpos⟩
    rw [strandedAt, he, Option.elim_some, hamount, ite_self]

/-- A deposit is left with a contract exactly if a creation with a deposit failed at the multisig
factory. -/
theorem Tracked.returned (h : Tracked balance hist w) :
    Returned balance w ↔ ∀ x ∈ hist, ¬ Strands x := by
  constructor
  · rintro hreturned x hx ⟨e, he, hpos⟩
    obtain ⟨d, hd, hamount⟩ := h.amounts x hx e he
    have honce := hreturned.once e.1 d hd (hamount ▸ hpos)
    have hplaces := h.places e.1
    rw [if_pos (List.getElem?_eq_some_iff.mp hd).1] at hplaces
    have hsum : (hist.map (strandings e.1)).sum = 0 := by omega
    have hzero := List.sum_eq_zero_iff_forall_eq_nat.mp hsum _ (List.mem_map_of_mem hx)
    rw [strandings, he, Option.elim_some, if_pos rfl] at hzero
    cases hzero
  · intro hnone
    refine ⟨?_, h.arrives, ?_⟩
    · intro id d hd hpos
      have hplaces := h.places id
      rw [if_pos (List.getElem?_eq_some_iff.mp hd).1, h.sum_strandings_eq_zero hnone hd hpos]
        at hplaces
      exact hplaces
    · intro creator
      rw [h.held creator, sum_strandedAt_eq_zero hnone, Nat.add_zero]

/-- With nothing in flight, the deposits that are on their way are none. -/
theorem settled_iff_returned (hreceipts : w.receipts = []) :
    Settled balance w ↔ Returned balance w := by
  have hinFlight : ∀ id, w.inFlight id = 0 := fun id => by rw [World.inFlight, hreceipts]; rfl
  have hheld : ∀ creator, w.held creator = 0 := fun creator => by rw [World.held, hreceipts]; rfl
  constructor
  · intro h
    refine ⟨?_, h.arrives, fun creator => by rw [h.held, hheld, Nat.add_zero]⟩
    intro id d hd hpos
    rw [hinFlight, h.once id d hd hpos]
  · intro h
    refine ⟨?_, h.arrives, funext fun creator => by rw [h.held, hheld, Nat.add_zero]⟩
    intro id d hd hpos
    have honce := h.once id d hd hpos
    rwa [hinFlight, Nat.zero_add] at honce

/-! ## Everything can be delivered -/

/-- How many steps a receipt may still take, with what follows from it. -/
def Receipt.weight : Receipt → ℕ
  | .batch _ _ sent => if sent.createsAccount then 3 else 1
  | .callback _ _ _ _ => 2

/-- How many steps what is in flight may still take. -/
def World.weight (w : World) : ℕ := (w.receipts.map Receipt.weight).sum

/-- The step executes what is in flight. -/
def Label.isDelivery : Label → Bool
  | call _ _ => false
  | deliver _ _ | resume _ _ => true

/-- A batch with a callback creates an account. -/
theorem weight_callbacks {creator : Creator} {sent : Sent} (success : Bool)
    (h : Sound deposits (.batch id creator sent)) :
    ((sent.callback.toList.map fun callback =>
      Receipt.callback id creator callback success).map Receipt.weight).sum <
        (Receipt.batch id creator sent).weight := by
  cases h with
  | creation hd hcreation =>
    rw [Receipt.weight, if_pos hcreation.creates]
    cases sent.callback <;> simp [Receipt.weight]
  | refund hd hcreator => exact Nat.zero_lt_one

/-- Every delivery leaves less to do. -/
theorem weight_of_moves (hsound : ∀ r ∈ w.receipts, Sound w.deposits r)
    (hmoves : Moves sha256 w l w') (hdelivery : l.isDelivery = true) : w'.weight < w.weight := by
  cases hmoves with
  | called hd hcreation => cases hdelivery
  | paid htake =>
    have hless := weight_callbacks true (hsound _ ((mem_of_takeAt htake).mpr (.inl rfl)))
    have htaken := sum_of_takeAt htake Receipt.weight
    simp only [World.weight, World.delivered, if_true, List.map_append, List.sum_append]
    omega
  | failed htake hcreates =>
    have hless := weight_callbacks false (hsound _ ((mem_of_takeAt htake).mpr (.inl rfl)))
    have htaken := sum_of_takeAt htake Receipt.weight
    simp only [World.weight, World.delivered, Bool.false_eq_true, if_false, List.map_append,
      List.sum_append]
    omega
  | done htake =>
    have htaken := sum_of_takeAt htake Receipt.weight
    simp only [World.weight, Receipt.weight] at htaken ⊢
    omega
  | refunded htake hd hrefunds hbalance =>
    have htaken := sum_of_takeAt htake Receipt.weight
    simp [World.weight, Receipt.weight, refund] at htaken ⊢
    omega

/-- The environment of a callback at an account. -/
def callbackEnv (accountId : AccountId) : Env where
  currentAccountId := accountId
  predecessorAccountId := accountId
  signerAccountPk := ""
  attachedDeposit := 0
  accountBalance := 0
  accountLockedBalance := 0
  epochHeight := 0
  blockHeight := 0
  blockTimestamp := 0
  attachedDeposit_le := Nat.zero_le _
  accountBalance_le := Nat.zero_le _
  accountLockedBalance_le := Nat.zero_le _

/-- The first receipt in flight can be executed. -/
theorem exists_delivery (sha256 : List UInt8 → Lockup.Hash) {receipts : List Receipt}
    (hreceipts : w.receipts = r :: receipts) :
    ∃ l w', l.isDelivery = true ∧ (system sha256).step w l = .ok w' ∧
      bounces ⟨w, l, w'⟩ = false := by
  have htake : takeAt w.receipts 0 = some (r, receipts) := by
    rw [hreceipts]
    rfl
  cases r with
  | batch id creator sent =>
    exact ⟨.deliver 0 true, _, rfl, bind_eq_ok.mpr ⟨_, expect_eq_ok.mpr htake, rfl⟩, rfl⟩
  | callback id creator callback success =>
    have hexecutes : ∃ w', (system sha256).step w
        (.resume 0 (callbackEnv (w.accountId creator))) = .ok w' := by
      refine exists_bind_eq_ok.mpr ⟨_, expect_eq_ok.mpr htake, ?_⟩
      refine exists_bind_eq_ok.mpr ⟨(), ensure_eq_ok.mpr rfl, ?_⟩
      refine exists_bind_eq_ok.mpr ⟨(), ensure_eq_ok.mpr rfl, ?_⟩
      refine exists_bind_eq_ok.mpr ⟨(), ensure_eq_ok.mpr rfl, ?_⟩
      split
      · exact ⟨_, rfl⟩
      · exact ⟨_, rfl⟩
    obtain ⟨w', hw'⟩ := hexecutes
    exact ⟨.resume 0 (callbackEnv (w.accountId creator)), w', rfl, hw', rfl⟩

/-- **Everything can be delivered.** From every tracked world some deliveries, with transfers that
succeed, leave nothing in flight. -/
theorem drains (sha256 : List UInt8 → Lockup.Hash) (h : Tracked balance hist w) :
    ∃ ls : List Label, (∀ l ∈ ls, l.isDelivery = true) ∧
      (∀ x ∈ (system sha256).steps w ls, bounces x = false) ∧
      ((system sha256).run w ls).receipts = [] := by
  induction hn : w.weight using Nat.strongRecOn generalizing hist w with
  | _ n ih =>
    cases hreceipts : w.receipts with
    | nil =>
      exact ⟨[], fun l hl => absurd hl List.not_mem_nil, fun x hx => absurd hx List.not_mem_nil,
        hreceipts⟩
    | cons r receipts =>
      obtain ⟨l, w', hdelivery, hstep, harrives⟩ := exists_delivery sha256 hreceipts
      have hmoves := moves_of_step h.sound h.held_le hstep harrives
      have hless := weight_of_moves h.sound hmoves hdelivery
      obtain ⟨ls, hls, hall, hdrained⟩ := ih w'.weight (hn ▸ hless) (h.step hstep harrives) rfl
      refine ⟨l :: ls, List.forall_mem_cons.mpr ⟨hdelivery, hls⟩, ?_, ?_⟩
      · rw [Machine.steps_cons_of_ok hstep]
        exact List.forall_mem_cons.mpr ⟨harrives, hall⟩
      · rw [Machine.run_cons, Machine.exec_of_ok hstep]
        exact hdrained

end Steps

/-! ## The deposits of failed creations -/

section Run

variable (sha256 : List UInt8 → Lockup.Hash) (accountId : Creator → AccountId)
  (lockupFactory : LockupFactory) (airdrop : Airdrop.AirDrop) (balance : Creator → ℕ)

/-- **Creators return failed deposits.** In every interleaving of calls and outcomes, every deposit
is in flight or arrived, once, at the new account or with the caller, and no contract keeps any,
exactly if no creation with a deposit fails at the multisig factory. What is in flight can always
be delivered, and then every deposit has arrived. The transfers back to the callers are to accounts
that called, and succeed. -/
theorem returned_iff (ls : List Label)
    (harrives : ∀ x ∈ (system sha256).steps
      (World.initial accountId lockupFactory airdrop balance) ls, bounces x = false) :
    let w := World.initial accountId lockupFactory airdrop balance
    (Returned balance ((system sha256).run w ls) ↔
        ∀ x ∈ (system sha256).steps w ls, ¬ Strands x) ∧
      (((system sha256).run w ls).receipts = [] →
        (Settled balance ((system sha256).run w ls) ↔
          ∀ x ∈ (system sha256).steps w ls, ¬ Strands x)) ∧
      ∃ ms : List Label, (∀ l ∈ ms, l.isDelivery = true) ∧
        (∀ x ∈ (system sha256).steps ((system sha256).run w ls) ms, bounces x = false) ∧
        ((system sha256).run w (ls ++ ms)).receipts = [] := by
  intro w
  have htracked : Tracked balance ((system sha256).steps w ls) ((system sha256).run w ls) :=
    tracked_run (tracked_initial accountId lockupFactory airdrop balance) ls harrives
  refine ⟨htracked.returned, ?_, ?_⟩
  · intro hreceipts
    rw [settled_iff_returned hreceipts]
    exact htracked.returned
  · obtain ⟨ms, hms, hall, hdrained⟩ := drains sha256 htracked
    exact ⟨ms, hms, hall, by rwa [Machine.run_append]⟩

theorem sampleDeposit_le : 50 ≤ u128Max := by decide

/-- Alice attaches a deposit of 50. -/
def sampleCall (currentAccountId : AccountId) : Env where
  currentAccountId
  predecessorAccountId := "alice"
  signerAccountPk := "pk"
  attachedDeposit := 50
  accountBalance := 50
  accountLockedBalance := 0
  epochHeight := 0
  blockHeight := 0
  blockTimestamp := 0
  attachedDeposit_le := sampleDeposit_le
  accountBalance_le := sampleDeposit_le
  accountLockedBalance_le := Nat.zero_le _

/-- Alice creates an account by the airdrop, the creation fails, and her deposit goes back. -/
def returnedCreation : List Label :=
  [.call (sampleCall "airdrop") (.account "test.airdrop" "key"), .deliver 0 false,
    .resume 0 (callbackEnv "airdrop"), .deliver 0 true]

def sampleAccountId : Creator → AccountId
  | .multisigFactory => "multisig-factory"
  | .lockupFactory => "lockup-factory"
  | .airdrop => "airdrop"

theorem returned_iff_returnedCreation :
    Settled (fun _ => 0) ((system id).run
      (World.initial sampleAccountId ⟨"whitelist", "foundation"⟩ .new fun _ => 0)
      returnedCreation) :=
  ((returned_iff id sampleAccountId ⟨"whitelist", "foundation"⟩ .new (fun _ => 0) returnedCreation
    (by decide +kernel)).2.1 (by decide +kernel)).mpr (by decide +kernel)

/-- Alice creates a multisig with a deposit, and the creation fails. -/
def failedCreation : List Label :=
  [.call (sampleCall "multisig-factory") (.multisig 100000000000000 "test" [.account "wick"] 1),
    .deliver 0 false]

/-- The deposit is in flight nowhere, and it was not paid. -/
theorem not_returned : ¬ ∀ sha256 accountId lockupFactory airdrop balance ls,
    (∀ x ∈ (system sha256).steps (World.initial accountId lockupFactory airdrop balance) ls,
      bounces x = false) →
    Returned balance
      ((system sha256).run (World.initial accountId lockupFactory airdrop balance) ls) := by
  intro h
  have hreturned := h id sampleAccountId ⟨"whitelist", "foundation"⟩ .new (fun _ => 0)
    failedCreation (by decide +kernel)
  have honce := hreturned.once 0 ⟨.multisigFactory, "alice", 50, "test.multisig-factory"⟩
    (by decide +kernel) (by decide)
  revert honce
  decide +kernel

end Run

end UncContracts.Creators
