import UncContracts.PoolFactory.Whitelisting

/-!
# The deposits of the pool factory

Each accepted request comes with a deposit, which goes with the creation of the pool. If the
creation fails, the batch returns its tokens to the factory, and the callback sends them back to the
caller. Here the system keeps books on the deposits: which receipt is for which of them, what the
factory holds and what arrived where. The books follow the system and never change what it does.

## Main definitions

* `Deposit`, `Payment`, `Books`: the system with the deposits and payments so far
* `ledger`: the books as a machine
* `bounces`: a transfer back to a caller fails
* `Booked`: every deposit is in flight once or was paid once
* `Books.opened`: a factory that was just initialized

## Main results

* `world_run`: a run of the books is a run of the system
* `Booked.step`: every step keeps the books
* `creation_atomic`: pools are created atomically, and their deposits arrive once
-/

namespace UncContracts.PoolFactory

open Foundation Whitelist StakingPoolFactory

/-- A deposit attached to an accepted request. -/
structure Deposit where
  callerId : AccountId
  amount : ℕ
  poolId : AccountId
  deriving DecidableEq, Repr

/-- Tokens of a deposit that arrived at an account. -/
structure Payment where
  depositId : ℕ
  receiverId : AccountId
  amount : ℕ
  deriving DecidableEq, Repr

/-- The tokens that a receipt carries. -/
def Receipt.tokens : Receipt → ℕ
  | .createPool _ _ attachedDeposit _ => attachedDeposit
  | .transfer _ amount => amount
  | _ => 0

/-- The system with the deposits so far, the receipts marked with the deposit they are for, the
tokens that the factory holds and the payments so far. -/
structure Books where
  factoryAccountId : AccountId
  factory : StakingPoolFactory
  whitelist : WhitelistContract
  receipts : List (ℕ × Receipt)
  balance : ℕ
  deposits : List Deposit
  payments : List Payment

namespace Books

variable (b : Books)

/-- The system without its books. -/
def world : World where
  factoryAccountId := b.factoryAccountId
  factory := b.factory
  whitelist := b.whitelist
  receipts := b.receipts.map Prod.snd

/-- A receipt is issued for a deposit; its tokens leave the factory. -/
def issue (k : ℕ) (r : Receipt) : Books :=
  { b with receipts := b.receipts ++ [(k, r)], balance := b.balance - r.tokens }

/-- The tokens of a receipt arrive. -/
def pay (k : ℕ) (receiver : AccountId) (amount : ℕ) : Books :=
  { b with payments := b.payments ++ [⟨k, receiver, amount⟩] }

/-- The execution of a receipt that has left the queue. A batch that fails returns its tokens to
the factory. -/
def execute (k : ℕ) (succeeded : Bool) : Receipt → Books
  | .createPool id _ attachedDeposit predecessorAccountId =>
    let b := if succeeded then b.pay k id attachedDeposit
      else { b with balance := b.balance + attachedDeposit }
    b.issue k (.onStakingPoolCreate id attachedDeposit predecessorAccountId succeeded)
  | .onStakingPoolCreate id attachedDeposit predecessorAccountId created =>
    match b.factory.onStakingPoolCreate b.factoryAccountId b.factoryAccountId id attachedDeposit
      predecessorAccountId created with
    | .ok (factory, receipt) => { b with factory }.issue k receipt
    | .error _ => b
  | .addStakingPool receiver id =>
    { b with whitelist := (b.world.addStakingPool receiver id).whitelist }
  | .transfer receiver amount =>
    if succeeded then b.pay k receiver amount else { b with balance := b.balance + amount }

end Books

/-- The books as a machine. -/
def ledger : Machine Books Label String where
  step b l :=
    match l with
    | .create env stakingPoolId ownerId stakePublicKey rewardFeeFraction => do
      ensure (env.currentAccountId = b.factoryAccountId) "The receipt is for another account"
      let (factory, receipt) ← b.factory.createStakingPool env stakingPoolId ownerId
        stakePublicKey rewardFeeFraction
      let deposit : Deposit :=
        { callerId := env.predecessorAccountId
          amount := env.attachedDeposit
          poolId := poolAccountId env.currentAccountId stakingPoolId }
      return { b with
        factory
        balance := b.balance + env.attachedDeposit
        deposits := b.deposits ++ [deposit] }.issue b.deposits.length receipt
    | .deliver i succeeded => do
      let ((k, receipt), receipts) ← expect (takeAt b.receipts i) "No such receipt"
      return { b with receipts }.execute k succeeded receipt
    | .whitelist predecessorAccountId method => do
      ensure (predecessorAccountId ≠ b.factoryAccountId) "The factory calls by its receipts"
      let (whitelist, _) ← b.whitelist.call predecessorAccountId method
      return { b with whitelist }

/-- The step fails a transfer back to a caller. -/
def bounces (x : Step Books Label) : Bool :=
  match x.label with
  | .deliver i false =>
    match x.before.receipts[i]? with
    | some (_, .transfer _ _) => true
    | _ => false
  | _ => false

/-! ## The books follow the system -/

section Projection

variable (b : Books)

theorem takeAt_map {α β : Type} (f : α → β) (l : List α) (i : ℕ) :
    takeAt (l.map f) i = (takeAt l i).map fun x => (f x.1, x.2.map f) := by
  simp only [takeAt, List.getElem?_map, Option.map_map, List.eraseIdx_map]
  rfl

@[simp] theorem world_issue (k : ℕ) (r : Receipt) :
    (b.issue k r).world = { b.world with receipts := b.world.receipts ++ [r] } := by
  simp [Books.issue, Books.world]

@[simp] theorem world_pay (k : ℕ) (receiver : AccountId) (amount : ℕ) :
    (b.pay k receiver amount).world = b.world := rfl

/-- Whatever is executed, the system does the same. -/
theorem world_execute (k : ℕ) (succeeded : Bool) (r : Receipt) :
    (b.execute k succeeded r).world = b.world.execute succeeded r := by
  cases r with
  | createPool id args deposit p =>
    cases succeeded <;> simp [Books.execute, World.execute, Books.world, Books.issue, Books.pay]
  | onStakingPoolCreate id deposit p created =>
    have hcallback := onStakingPoolCreate_self b.factory b.factoryAccountId id deposit p created
    have hworld : b.world.factory.onStakingPoolCreate b.world.factoryAccountId
        b.world.factoryAccountId id deposit p created = _ := hcallback
    simp only [Books.execute, World.execute, hcallback, hworld, world_issue]
    rfl
  | addStakingPool receiver id =>
    show ({ b with whitelist := (b.world.addStakingPool receiver id).whitelist } : Books).world =
      b.world.addStakingPool receiver id
    unfold World.addStakingPool
    split
    · split <;> rfl
    · rfl
  | transfer receiver amount => cases succeeded <;> rfl

theorem map_bind_eq {α β γ : Type} (f : β → γ) (x : Exec α) (g : α → Exec β) :
    (x >>= g).map f = x >>= fun a => (g a).map f := by
  cases x <;> rfl

/-- **The books follow the system**, label by label. -/
theorem world_step (b : Books) (l : Label) :
    (ledger.step b l).map Books.world = system.step b.world l := by
  cases l with
  | create env stakingPoolId ownerId key fee =>
    simp only [ledger, system, map_bind_eq]
    refine bind_congr fun _ => bind_congr fun created => ?_
    exact congrArg Except.ok (world_issue ..)
  | deliver i succeeded =>
    simp only [ledger, system, map_bind_eq]
    have htake : takeAt b.world.receipts i = _ := takeAt_map Prod.snd b.receipts i
    rw [htake]
    cases takeAt b.receipts i with
    | none => rfl
    | some taken => exact congrArg Except.ok (world_execute _ taken.1.1 succeeded taken.1.2)
  | whitelist p method =>
    simp only [ledger, system, map_bind_eq]
    rfl

theorem world_run (b : Books) (labels : List Label) :
    (ledger.run b labels).world = system.run b.world labels :=
  (Machine.run_map world_step b labels).symm

end Projection

/-! ## Where the deposits are -/

/-- One for the receipt that carries a deposit, or that is to send it back. -/
def carries (k : ℕ) (e : ℕ × Receipt) : ℕ :=
  match e.2 with
  | .createPool .. => if e.1 = k then 1 else 0
  | .onStakingPoolCreate _ _ _ false => if e.1 = k then 1 else 0
  | .onStakingPoolCreate _ _ _ true => 0
  | .addStakingPool .. => 0
  | .transfer .. => if e.1 = k then 1 else 0

/-- One for a payment of a deposit. -/
def Payment.isFor (k : ℕ) (p : Payment) : ℕ := if p.depositId = k then 1 else 0

/-- The tokens that a callback is to send back. -/
def awaited (e : ℕ × Receipt) : ℕ :=
  match e.2 with
  | .onStakingPoolCreate _ deposit _ false => deposit
  | _ => 0

namespace Books

variable (b : Books)

/-- How often a deposit is in flight. -/
def inFlight (k : ℕ) : ℕ := (b.receipts.map (carries k)).sum

/-- How often a deposit was paid. -/
def paid (k : ℕ) : ℕ := (b.payments.map (Payment.isFor k)).sum

/-- The returned tokens that the factory is to send back. -/
def held : ℕ := (b.receipts.map awaited).sum

end Books

/-- A receipt is for a deposit: it knows its caller, its amount and its pool. -/
def IsFor (deposits : List Deposit) (e : ℕ × Receipt) : Prop :=
  match e.2 with
  | .createPool id _ amount p => deposits[e.1]? = some ⟨p, amount, id⟩
  | .onStakingPoolCreate id amount p _ => deposits[e.1]? = some ⟨p, amount, id⟩
  | .addStakingPool .. => True
  | .transfer receiver amount => ∃ id, deposits[e.1]? = some ⟨receiver, amount, id⟩

/-- A payment is of the whole deposit, to the pool's account or back to the caller. -/
def Arrives (deposits : List Deposit) (p : Payment) : Prop :=
  ∃ d, deposits[p.depositId]? = some d ∧ p.amount = d.amount ∧
    (p.receiverId = d.poolId ∨ p.receiverId = d.callerId)

/-- Every deposit is in flight once or was paid once, and the factory holds what it held before and
what its callbacks are to send back. -/
structure Booked (balance : ℕ) (b : Books) : Prop where
  isFor : ∀ e ∈ b.receipts, IsFor b.deposits e
  arrives : ∀ p ∈ b.payments, Arrives b.deposits p
  places : ∀ k, b.inFlight k + b.paid k = if k < b.deposits.length then 1 else 0
  held : b.balance = balance + b.held

section Steps

variable {balance : ℕ} {b b' : Books} {l : Label} {k : ℕ} {d : Deposit} {deposits : List Deposit}
  {e : ℕ × Receipt} {p : Payment} {i : ℕ} {rest : List (ℕ × Receipt)}

theorem getElem?_concat (h : deposits[k]? = some d) (d' : Deposit) :
    (deposits ++ [d'])[k]? = some d := by
  rw [List.getElem?_append_left (List.getElem?_eq_some_iff.mp h).1, h]

theorem IsFor.concat (h : IsFor deposits e) (d' : Deposit) : IsFor (deposits ++ [d']) e := by
  obtain ⟨k, r⟩ := e
  cases r with
  | createPool id args amount p => exact getElem?_concat h d'
  | onStakingPoolCreate id amount p created => exact getElem?_concat h d'
  | addStakingPool receiver id => trivial
  | transfer receiver amount =>
    obtain ⟨id, h⟩ := h
    exact ⟨id, getElem?_concat h d'⟩

theorem Arrives.concat (h : Arrives deposits p) (d' : Deposit) : Arrives (deposits ++ [d']) p := by
  obtain ⟨d, hd, hamount, hreceiver⟩ := h
  exact ⟨d, getElem?_concat hd d', hamount, hreceiver⟩

/-- A receipt leaves the queue, others join it and payments are made. The deposit moves on: it is
carried or paid as often as it was, and what awaits its callback is in the balance. -/
theorem Booked.of_moves (h : Booked balance b) (htake : takeAt b.receipts i = some (e, rest))
    (new : List (ℕ × Receipt)) (pays : List Payment)
    (hreceipts : b'.receipts = rest ++ new) (hpayments : b'.payments = b.payments ++ pays)
    (hdeposits : b'.deposits = b.deposits) (hnew : ∀ e' ∈ new, IsFor b.deposits e')
    (hpays : ∀ p ∈ pays, Arrives b.deposits p)
    (hplaces : ∀ k, (new.map (carries k)).sum + (pays.map (Payment.isFor k)).sum = carries k e)
    (hbalance : b'.balance + awaited e = b.balance + (new.map awaited).sum) :
    Booked balance b' := by
  refine ⟨?_, ?_, ?_, ?_⟩
  · intro e' he'
    rw [hdeposits]
    rw [hreceipts] at he'
    rcases List.mem_append.mp he' with he' | he'
    · exact h.isFor e' ((mem_of_takeAt htake).mpr (.inr he'))
    · exact hnew e' he'
  · intro p hp
    rw [hdeposits]
    rw [hpayments] at hp
    exact (List.mem_append.mp hp).elim (h.arrives p) (hpays p)
  · -- The place of a deposit moves from the receipt to what the step puts out.
    intro k
    have hbefore := h.places k
    have htaken := sum_of_takeAt htake (carries k)
    have hmoved := hplaces k
    unfold Books.inFlight Books.paid at hbefore ⊢
    rw [hreceipts, hpayments, hdeposits, List.map_append, List.sum_append, List.map_append,
      List.sum_append]
    omega
  · have hbefore := h.held
    have htaken := sum_of_takeAt htake awaited
    unfold Books.held at hbefore ⊢
    rw [hreceipts, List.map_append, List.sum_append]
    omega

/-- An accepted request brings its deposit, which goes with the creation. -/
theorem Booked.of_requested (h : Booked balance b) {args : StakingPoolArgs} {id : AccountId}
    {amount : ℕ} {p : AccountId}
    (hreceipts : b'.receipts = b.receipts ++ [(b.deposits.length, .createPool id args amount p)])
    (hpayments : b'.payments = b.payments) (hdeposits : b'.deposits = b.deposits ++ [⟨p, amount, id⟩])
    (hbalance : b'.balance = b.balance) : Booked balance b' := by
  refine ⟨?_, ?_, ?_, ?_⟩
  · intro e' he'
    rw [hdeposits]
    rw [hreceipts] at he'
    rcases List.mem_append.mp he' with he' | he'
    · exact (h.isFor e' he').concat _
    · rw [List.mem_singleton.mp he']
      exact List.getElem?_concat_length
  · intro p' hp'
    rw [hdeposits]
    exact (h.arrives p' (hpayments ▸ hp')).concat _
  · intro k
    have hbefore := h.places k
    unfold Books.inFlight Books.paid at hbefore ⊢
    rw [hreceipts, hpayments, hdeposits]
    simp only [List.map_append, List.sum_append, List.map_cons, List.map_nil, List.sum_cons,
      List.sum_nil, carries, List.length_append, List.length_cons, List.length_nil]
    split_ifs at hbefore ⊢ <;> omega
  · have hbefore := h.held
    unfold Books.held at hbefore ⊢
    rw [hreceipts, hbalance, List.map_append, List.sum_append]
    exact hbefore

/-- The execution of a receipt keeps the books, but for a transfer that fails. -/
theorem Booked.execute (h : Booked balance b) (succeeded : Bool) {r : Receipt}
    (htake : takeAt b.receipts i = some ((k, r), rest))
    (harrives : ∀ receiver amount, r = .transfer receiver amount → succeeded = true) :
    Booked balance ({ b with receipts := rest }.execute k succeeded r) := by
  have hfor := h.isFor _ ((mem_of_takeAt htake).mpr (.inl rfl))
  cases r with
  | createPool id args amount p =>
    have hdeposit : b.deposits[k]? = some ⟨p, amount, id⟩ := hfor
    cases succeeded with
    | true =>
      refine h.of_moves htake [(k, .onStakingPoolCreate id amount p true)] [⟨k, id, amount⟩]
        rfl rfl rfl ?_ ?_ ?_ rfl
      · simpa [IsFor] using hdeposit
      · simpa using ⟨_, hdeposit, rfl, .inl rfl⟩
      · intro k'
        simp [carries, Payment.isFor]
    | false =>
      refine h.of_moves htake [(k, .onStakingPoolCreate id amount p false)] []
        rfl (List.append_nil _).symm rfl ?_ (by simp) ?_ rfl
      · simpa [IsFor] using hdeposit
      · intro k'
        simp [carries]
  | onStakingPoolCreate id amount p created =>
    have hdeposit : b.deposits[k]? = some ⟨p, amount, id⟩ := hfor
    simp only [Books.execute, onStakingPoolCreate_self]
    cases created with
    | true =>
      refine h.of_moves htake [(k, .addStakingPool b.factoryAccountId id)] []
        rfl (List.append_nil _).symm rfl (by simp [IsFor]) (by simp) ?_ rfl
      intro k'
      simp [carries]
    | false =>
      refine h.of_moves htake [(k, .transfer p amount)] []
        rfl (List.append_nil _).symm rfl ?_ (by simp) ?_ ?_
      · simpa [IsFor] using ⟨id, hdeposit⟩
      · intro k'
        simp [carries]
      · have hheld := h.held
        have htaken := sum_of_takeAt htake awaited
        have hawaited : awaited (k, .onStakingPoolCreate id amount p false) = amount := rfl
        unfold Books.held at hheld
        show b.balance - amount + amount = b.balance + 0
        omega
  | addStakingPool receiver id =>
    refine h.of_moves htake [] [] (List.append_nil _).symm (List.append_nil _).symm rfl
      (by simp) (by simp) ?_ rfl
    intro k'
    rfl
  | transfer receiver amount =>
    obtain ⟨id, hdeposit⟩ : ∃ id, b.deposits[k]? = some ⟨receiver, amount, id⟩ := hfor
    obtain rfl := harrives receiver amount rfl
    refine h.of_moves htake [] [⟨k, receiver, amount⟩] (List.append_nil _).symm rfl rfl
      (by simp) ?_ ?_ rfl
    · simpa using ⟨_, hdeposit, rfl, .inr rfl⟩
    · intro k'
      simp [carries, Payment.isFor]

/-- **Every step keeps the books**, where the transfers back to the callers succeed. -/
theorem Booked.step (h : Booked balance b) (hstep : ledger.step b l = .ok b')
    (harrives : bounces ⟨b, l, b'⟩ = false) : Booked balance b' := by
  cases l with
  | create env stakingPoolId ownerId key fee =>
    simp only [ledger, bind_eq_ok, ensure_eq_ok, pure_eq_ok] at hstep
    obtain ⟨-, -, ⟨factory, receipt⟩, hcreate, rfl⟩ := hstep
    obtain ⟨-, rfl, rfl⟩ := createStakingPool_cases rfl hcreate
    exact h.of_requested rfl rfl rfl (Nat.add_sub_cancel _ _)
  | deliver i succeeded =>
    simp only [ledger, bind_eq_ok, expect_eq_ok, pure_eq_ok] at hstep
    obtain ⟨⟨⟨k, r⟩, rest⟩, htake, rfl⟩ := hstep
    refine h.execute succeeded htake ?_
    rintro receiver amount rfl
    cases succeeded with
    | true => rfl
    | false => simp [bounces, (takeAt_eq_some.mp htake).1] at harrives
  | whitelist p method =>
    simp only [ledger, bind_eq_ok, ensure_eq_ok, pure_eq_ok] at hstep
    obtain ⟨-, -, ⟨whitelist, added⟩, -, rfl⟩ := hstep
    exact ⟨h.isFor, h.arrives, h.places, h.held⟩

theorem booked_run (h : Booked balance b) (labels : List Label)
    (harrives : ∀ x ∈ ledger.steps b labels, bounces x = false) :
    Booked balance (ledger.run b labels) := by
  refine Machine.run_induction (M := ledger)
    (P := fun hist b => (∀ x ∈ hist, bounces x = false) → Booked balance b) (fun _ => h) ?_ labels
    harrives
  intro hist a l c ih hstep hall
  exact (ih fun x hx => hall x (by simp [hx])).step hstep (hall ⟨a, l, c⟩ (by simp))

end Steps

/-! ## Everything arrives -/

/-- How many executions a receipt still leads to. -/
def Receipt.depth : Receipt → ℕ
  | .createPool .. => 3
  | .onStakingPoolCreate .. => 2
  | _ => 1

/-- How many executions what is in flight still leads to. -/
def Books.depth (b : Books) : ℕ := (b.receipts.map fun e => e.2.depth).sum

theorem depth_issue (b : Books) (k : ℕ) (r : Receipt) :
    (b.issue k r).depth = b.depth + r.depth := by
  simp [Books.depth, Books.issue]

/-- An execution leads to fewer ones. -/
theorem depth_execute (b : Books) (k : ℕ) (succeeded : Bool) (r : Receipt) :
    (b.execute k succeeded r).depth + 1 = b.depth + r.depth := by
  cases r with
  | createPool id args amount p =>
    cases succeeded with
    | true => exact congrArg (· + 1) (depth_issue (b.pay k id amount) k _)
    | false => exact congrArg (· + 1) (depth_issue { b with balance := b.balance + amount } k _)
  | onStakingPoolCreate id amount p created =>
    simp only [Books.execute, onStakingPoolCreate_self]
    cases created with
    | true => exact congrArg (· + 1) (depth_issue b k _)
    | false => exact congrArg (· + 1) (depth_issue _ k (.transfer p amount))
  | addStakingPool receiver id => rfl
  | transfer receiver amount => cases succeeded <;> rfl

/-- Whatever is in flight can be executed until nothing is. -/
theorem drains (b : Books) :
    ∃ n, (ledger.run b (List.replicate n (.deliver 0 true))).receipts = [] := by
  -- The first receipt is executed, whatever it leads to is not as deep.
  induction hdepth : b.depth using Nat.strong_induction_on generalizing b with
  | _ depth ih =>
    cases hreceipts : b.receipts with
    | nil => exact ⟨0, hreceipts⟩
    | cons e rest =>
      obtain ⟨k, r⟩ := e
      have htake : takeAt b.receipts 0 = some ((k, r), rest) := by
        rw [hreceipts]
        rfl
      have hstep : ledger.step b (.deliver 0 true) =
          .ok ({ b with receipts := rest }.execute k true r) := by
        simp only [ledger, htake, expect]
        rfl
      have hbefore : b.depth = r.depth + Books.depth { b with receipts := rest } := by
        unfold Books.depth
        rw [hreceipts, List.map_cons, List.sum_cons]
      have hafter := depth_execute { b with receipts := rest } k true r
      obtain ⟨n, hn⟩ :=
        ih ({ b with receipts := rest }.execute k true r).depth (by omega) _ rfl
      refine ⟨n + 1, ?_⟩
      rw [List.replicate_succ, Machine.run_cons, Machine.exec_of_ok hstep]
      exact hn

/-! ## Atomicity -/

/-- A factory that was just initialized, with the tokens it holds. -/
def Books.opened (factoryAccountId : AccountId) (factory : StakingPoolFactory)
    (whitelist : WhitelistContract) (balance : ℕ) : Books where
  factoryAccountId
  factory
  whitelist
  receipts := []
  balance
  deposits := []
  payments := []

/-- Pools are created atomically: after the steps `hist` of the system, with the books at `b`. -/
structure Atomically (balance : ℕ) (hist : List (Step World Label)) (b : Books) : Prop where
  /-- No two creations of one account are in flight. -/
  once : (b.world.receipts.filterMap Receipt.pending).Nodup
  /-- The list holds the pools that were created and those that are being created. -/
  listed : ∀ id, id ∈ b.factory.stakingPoolAccountIds ↔
    Created hist id ∨ id ∈ b.world.receipts.filterMap Receipt.pending
  /-- Every deposit is in flight once or arrived once. -/
  deposited : ∀ k, k < b.deposits.length → b.inFlight k + b.paid k = 1
  /-- When nothing is in flight, every deposit arrived once. -/
  settled : b.receipts = [] → ∀ k, k < b.deposits.length → b.paid k = 1
  /-- Everything in flight can be executed until nothing is. -/
  drains : ∃ n, (ledger.run b (List.replicate n (.deliver 0 true))).receipts = []
  /-- A deposit arrives in full, at the pool's account or back at the caller. -/
  arrives : ∀ p ∈ b.payments, Arrives b.deposits p
  /-- The factory holds what it held before, and what it is to send back. -/
  held : b.balance = balance + b.held
  /-- The callback of a failed creation makes its id available again. The id is of no pool that
  exists, and no other id leaves the list. -/
  released : ∀ i k id amount p rest,
    takeAt b.receipts i = some ((k, .onStakingPoolCreate id amount p false), rest) →
    ¬ Created hist id ∧ ∀ succeeded id',
      id' ∈ (ledger.exec b (.deliver i succeeded)).factory.stakingPoolAccountIds ↔
        id' ∈ b.factory.stakingPoolAccountIds ∧ id' ≠ id

theorem atomically_of_booked {balance : ℕ} {hist : List (Step World Label)} {b : Books}
    (htracked : Tracked hist b.world) (hbooked : Booked balance b) : Atomically balance hist b := by
  refine ⟨htracked.nodup, ?_, ?_, ?_, drains b, hbooked.arrives, hbooked.held, ?_⟩
  · intro id
    exact (htracked.mem_ids id).trans or_comm
  · intro k hk
    rw [hbooked.places k, if_pos hk]
  · intro hempty k hk
    have hplaces := hbooked.places k
    rw [if_pos hk, Books.inFlight, hempty] at hplaces
    simpa using hplaces
  · intro i k id amount p rest htake
    have hmem : .onStakingPoolCreate id amount p false ∈ b.world.receipts :=
      List.mem_map_of_mem ((mem_of_takeAt htake).mpr (.inl rfl))
    refine ⟨fun hcreated => ?_, ?_⟩
    · cases (htracked.outcome id amount p false hmem).mpr hcreated
    · intro succeeded id'
      have hstep : ledger.step b (.deliver i succeeded) = .ok
          ({ b with receipts := rest }.execute k succeeded
            (.onStakingPoolCreate id amount p false)) := by
        simp only [ledger, htake, expect]
        rfl
      rw [Machine.exec_of_ok hstep]
      simp only [Books.execute, onStakingPoolCreate_self]
      exact Finset.mem_erase.trans and_comm

/-- **Pool creation is atomic.** However requests and their callbacks interleave, and whatever
becomes of the creations, no two creations of one account are in flight, the list holds the pools
that were created or are in flight, every accepted deposit arrives exactly once, in the pool's
account or in full back at its caller, and a failed creation releases its own id only. The transfers
back to the callers are to accounts that called, and succeed. -/
theorem creation_atomic {stateExists : Bool} {whitelistAccountId factoryAccountId : AccountId}
    {factory : StakingPoolFactory}
    (hnew : StakingPoolFactory.new stateExists whitelistAccountId = .ok factory)
    (whitelist : WhitelistContract) (balance : ℕ) (labels : List Label)
    (harrives : ∀ x ∈ ledger.steps (Books.opened factoryAccountId factory whitelist balance) labels,
      bounces x = false) :
    Atomically balance
      (system.steps (Books.opened factoryAccountId factory whitelist balance).world labels)
      (ledger.run (.opened factoryAccountId factory whitelist balance) labels) := by
  have htracked : Tracked [] (Books.opened factoryAccountId factory whitelist balance).world :=
    tracked_of_new hnew rfl
  have hrun := Machine.run_induction htracked
    (fun _ _ _ _ htracked hstep => htracked.step hstep) labels
  rw [← world_run] at hrun
  apply atomically_of_booked hrun
  refine booked_run ?_ labels harrives
  refine ⟨?_, ?_, fun k => rfl, rfl⟩
  · intro e he
    cases he
  · intro p hp
    cases hp

/-- Alice and Bob request the same pool: his request comes too late, and hers fails. -/
def sampleRequests : List Label :=
  [.create sampleEnv "pool" "alice" "key" ⟨1, 10⟩,
    .create { sampleEnv with predecessorAccountId := "bob" } "pool" "bob" "key" ⟨1, 10⟩,
    .deliver 0 false, .deliver 0 true, .deliver 0 true]

theorem creation_atomic_sampleRequests :
    Atomically 7 (system.steps (Books.opened "factory" ⟨"whitelist", ∅⟩ ⟨"foundation", ∅, ∅⟩ 7).world
        sampleRequests)
      (ledger.run (.opened "factory" ⟨"whitelist", ∅⟩ ⟨"foundation", ∅, ∅⟩ 7) sampleRequests) :=
  creation_atomic
    (show StakingPoolFactory.new false "whitelist" = .ok ⟨"whitelist", ∅⟩ from rfl)
    ⟨"foundation", ∅, ∅⟩ 7 sampleRequests (by decide +kernel)

end UncContracts.PoolFactory
