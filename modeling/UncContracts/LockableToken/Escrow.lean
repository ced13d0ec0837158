import UncContracts.LockableToken.Supply

/-!
# Escrows and locks

What an escrow may do with the tokens of an owner is the allowance it has left and what it has
locked. Locking and unlocking move tokens between the two, a transfer uses them up, and nobody else
touches them but the owner, who sets the allowance anew. What is locked, by an escrow or by the
owner itself, only the locker moves: a transfer of locked tokens succeeds whatever others did.

## Main definitions

* `authority`: what an escrow may still move out of an account
* `movedBy`: what left an account in a step of an escrow

## Main results

* `authority_exec`: what one call does to an escrow's authority
* `authority_run`: the authority is the grant less what was moved
* `locked_exec`: a call by another account leaves a lock alone
* `locked_run`: a lock is exclusive, and its tokens can be transferred
-/

namespace UncContracts.LockableToken

open Foundation

/-- What `e` may still move out of the account of `o`: its allowance and what it has locked. -/
def authority (s : FunToken) (o e : AccountId) : ℕ :=
  (s.getAccount o).getAllowance e + (s.getAccount o).getLockedBalance e

instance (s : FunToken) (c : Call) : Decidable (Succeeds s c) :=
  match h : (call .wrapping c).run s with
  | .ok u t => isTrue ⟨t, h⟩
  | .error e t => isFalse fun ⟨u, hu⟩ => by
    rw [h] at hu
    cases hu

/-- What a transfer of the owner's tokens to the owner itself credits in a step. -/
def returnedTo (o : AccountId) (x : Step FunToken Call) : ℕ :=
  match x.label.method with
  | .transferFrom owner newOwner amount =>
    if owner = o ∧ newOwner = o ∧ Succeeds x.before x.label then amount else 0
  | _ => 0

/-- The tokens that left the account of `o`, unlocked or locked ones, in a step of `e`. Tokens that
are transferred to `o` itself have left it before they are credited. -/
def movedBy (o e : AccountId) (x : Step FunToken Call) : ℕ :=
  if x.label.predecessorId = e then
    (x.before.getAccount o).held + returnedTo o x - (x.after.getAccount o).held
  else 0

/-- The owner `o` sets the allowance of `e` in this step. -/
def SetsAllowance (o e : AccountId) (s : FunToken) (c : Call) : Prop :=
  Succeeds s c ∧ c.predecessorId = o ∧ ∃ allowance, c.method = .setAllowance e allowance

section Authority

variable {s t : FunToken} {o e : AccountId} {c : Call}

/-- Rewriting other entries keeps the authority. -/
theorem authority_of_keeps {p q : AccountId} {b : Account} {balance allowance locked : ℕ}
    (h : Rewrites (s.getAccount p) b q balance allowance locked) (hne : ¬ (o = p ∧ e = q)) :
    authority (s.insertAccount p b) o e = authority s o e := by
  obtain ⟨hallowance, hlocked⟩ := h.keeps hne
  rw [authority, authority, hallowance, hlocked]

theorem authority_of_rewrites {b : Account} {balance allowance locked : ℕ}
    (h : Rewrites (s.getAccount o) b e balance allowance locked) :
    authority (s.insertAccount o b) o e = allowance + locked := by
  rw [authority, FunToken.getAccount_insertAccount, h.allowance_eq, h.locked_eq]

theorem authority_credit {r : AccountId} {x : ℕ} :
    authority (s.credit r x) o e = authority s o e := by
  rw [authority, authority, credit_getAllowance, credit_getLockedBalance]

theorem returnedTo_of_method (h : ∀ r x, c.method ≠ .transferFrom o r x) :
    returnedTo o ⟨s, c, t⟩ = 0 := by
  obtain ⟨p, method⟩ := c
  unfold returnedTo
  split
  · next owner r x hmethod =>
    rw [if_neg]
    rintro ⟨rfl, -, -⟩
    exact h r x hmethod
  · rfl

theorem returnedTo_of_fails (h : ¬ Succeeds s c) : returnedTo o ⟨s, c, t⟩ = 0 := by
  unfold returnedTo
  split
  · rw [if_neg]
    rintro ⟨-, -, hsucceeds⟩
    exact h hsucceeds
  · rfl

/-- A transfer of a caller that is not the owner credits the new owner. -/
theorem returnedTo_of_transfers {r : AccountId} {x : U128} (hmethod : Transfers c o r x)
    (hne : c.predecessorId ≠ o) (hsucceeds : Succeeds s c) :
    returnedTo o ⟨s, c, t⟩ = if o = r then (x : ℕ) else 0 := by
  rcases hmethod with hmethod | ⟨-, rfl⟩
  · simp only [returnedTo, hmethod]
    by_cases hr : o = r
    · rw [if_pos hr, if_pos ⟨trivial, hr.symm, hsucceeds⟩]
    · rw [if_neg hr, if_neg fun h => hr h.2.1.symm]
  · exact absurd rfl hne

/-- Nothing leaves an account whose tokens are all there afterwards. -/
theorem movedBy_of_held (hreturned : returnedTo o ⟨s, c, t⟩ = 0)
    (hheld : (s.getAccount o).held ≤ (t.getAccount o).held) : movedBy o e ⟨s, c, t⟩ = 0 := by
  unfold movedBy
  split
  · rw [hreturned]
    exact Nat.sub_eq_zero_of_le hheld
  · rfl

theorem movedBy_of_other (h : c.predecessorId ≠ e) : movedBy o e ⟨s, c, t⟩ = 0 := if_neg h

/-- Rewriting an account whose tokens are kept. -/
theorem held_of_rewrites {p q : AccountId} {b : Account} {balance allowance locked : ℕ}
    (h : Rewrites (s.getAccount p) b q balance allowance locked)
    (hheld : balance + locked = (s.getAccount p).balance + (s.getAccount p).getLockedBalance q) :
    ((s.insertAccount p b).getAccount o).held = (s.getAccount o).held := by
  by_cases ho : o = p
  · have hkept := h.held
    rw [ho, FunToken.getAccount_insertAccount]
    omega
  · rw [FunToken.getAccount_insertAccount_of_ne _ _ _ ho]

/-- A call that credits nobody and keeps the tokens of the account it rewrites moves nothing. -/
theorem movedBy_of_rewrites {p q : AccountId} {b : Account} {balance allowance locked : ℕ}
    (hmethod : ∀ r x, c.method ≠ .transferFrom o r x)
    (h : Rewrites (s.getAccount p) b q balance allowance locked)
    (hheld : balance + locked = (s.getAccount p).balance + (s.getAccount p).getLockedBalance q) :
    movedBy o e ⟨s, c, s.insertAccount p b⟩ = 0 :=
  movedBy_of_held (returnedTo_of_method hmethod) (held_of_rewrites h hheld).ge

/-- A transfer of a caller that is not the owner moves the amount out of the account. -/
theorem movedBy_of_transfers {r : AccountId} {b : Account} {x : U128}
    {balance allowance locked : ℕ} (hmethod : Transfers c o r x) (hne : c.predecessorId ≠ o)
    (hsucceeds : Succeeds s c)
    (h : Rewrites (s.getAccount o) b c.predecessorId balance allowance locked)
    (hheld : balance + locked + x =
      (s.getAccount o).balance + (s.getAccount o).getLockedBalance c.predecessorId) :
    movedBy o c.predecessorId ⟨s, c, (s.insertAccount o b).credit r x⟩ = x := by
  have hkept := h.held
  have hafter : (((s.insertAccount o b).credit r x).getAccount o).held =
      b.held + if o = r then (x : ℕ) else 0 := by
    rw [held_credit, FunToken.getAccount_insertAccount]
  have hmoved : movedBy o c.predecessorId ⟨s, c, (s.insertAccount o b).credit r x⟩ =
      (s.getAccount o).held + returnedTo o ⟨s, c, (s.insertAccount o b).credit r x⟩ -
        (((s.insertAccount o b).credit r x).getAccount o).held := if_pos rfl
  -- What is credited to the owner itself is on both sides.
  rw [hmoved, hafter, returnedTo_of_transfers hmethod hne hsucceeds]
  omega

/-- A transfer out of another account, or of another caller, moves nothing. -/
theorem movedBy_of_transfers_of_ne {p r : AccountId} {b : Account} {x : U128}
    (hmethod : Transfers c p r x) (hne : ¬ (o = p ∧ e = c.predecessorId)) :
    movedBy o e ⟨s, c, (s.insertAccount p b).credit r x⟩ = 0 := by
  by_cases hcaller : c.predecessorId = e
  · have ho : o ≠ p := fun ho => hne ⟨ho, hcaller.symm⟩
    apply movedBy_of_held
    · apply returnedTo_of_method
      intro r' y hy
      rcases hmethod with hmethod | ⟨hmethod, -⟩
      · rw [hmethod] at hy
        cases hy
        exact ho rfl
      · rw [hmethod] at hy
        cases hy
    · rw [held_credit, FunToken.getAccount_insertAccount_of_ne _ _ _ ho]
      exact Nat.le_add_right _ _
  · exact movedBy_of_other hcaller

/-- **One call.** A call other than a new grant takes off the authority what it moves. -/
theorem authority_exec (hs : Sound s) (hne : e ≠ o) (hno : ¬ SetsAllowance o e s c) :
    authority (token.exec s c) o e + movedBy o e ⟨s, c, token.exec s c⟩ = authority s o e := by
  rcases exec_cases hs c with ⟨hsucceeds, heffect⟩ | ⟨hfails, hkept⟩
  · generalize token.exec s c = t at heffect ⊢
    cases heffect with
    | allowed e' x b hmethod _ _ h ht =>
      rw [ht, movedBy_of_rewrites (by simp [hmethod]) h rfl, Nat.add_zero]
      apply authority_of_keeps h
      rintro ⟨rfl, rfl⟩
      exact hno ⟨hsucceeds, rfl, x, hmethod⟩
    | locked o' x b hmethod _ hle hcharge h ht =>
      rw [ht, movedBy_of_rewrites (by simp [hmethod]) h (by omega), Nat.add_zero]
      by_cases hentry : o = o' ∧ e = c.predecessorId
      · obtain ⟨rfl, rfl⟩ := hentry
        have hpaid : charge c.predecessorId o x = x := if_pos hne
        rw [authority_of_rewrites h, authority]
        omega
      · exact authority_of_keeps h hentry
    | unlocked o' x b hmethod _ hle h ht =>
      rw [ht, movedBy_of_rewrites (by simp [hmethod]) h (by omega), Nat.add_zero]
      by_cases hentry : o = o' ∧ e = c.predecessorId
      · obtain ⟨rfl, rfl⟩ := hentry
        have hpaid : charge c.predecessorId o x = x := if_pos hne
        rw [authority_of_rewrites h, authority]
        omega
      · exact authority_of_keeps h hentry
    | transferred o' r x remaining b x' hx hmethod _ hremaining hle hcharge h ht =>
      subst hx
      rw [ht, authority_credit]
      by_cases hentry : o = o' ∧ e = c.predecessorId
      · obtain ⟨rfl, rfl⟩ := hentry
        have hpaid : charge c.predecessorId o remaining = remaining := if_pos hne
        rw [movedBy_of_transfers hmethod hne hsucceeds h (by omega), authority_of_rewrites h,
          authority]
        omega
      · rw [authority_of_keeps h hentry, movedBy_of_transfers_of_ne hmethod hentry, Nat.add_zero]
  · rw [hkept, movedBy_of_held (returnedTo_of_fails hfails) le_rfl, Nat.add_zero]

/-- A new grant is all the authority there is. -/
theorem authority_of_setAllowance (hs : Sound s) {allowance : U128}
    (h : Succeeds s ⟨o, .setAllowance e allowance⟩) :
    e ≠ o ∧ authority (token.exec s ⟨o, .setAllowance e allowance⟩) o e = allowance := by
  rcases exec_cases hs ⟨o, .setAllowance e allowance⟩ with ⟨-, heffect⟩ | ⟨hfails, -⟩
  · generalize token.exec s ⟨o, .setAllowance e allowance⟩ = t at heffect ⊢
    cases heffect with
    | allowed e' x b hmethod hne hle h ht =>
      cases hmethod
      refine ⟨hne, ?_⟩
      rw [ht, authority_of_rewrites h]
      exact Nat.sub_add_cancel hle
    | locked _ _ _ hmethod => cases hmethod
    | unlocked _ _ _ hmethod => cases hmethod
    | transferred _ _ _ _ _ _ _ hmethod =>
      rcases hmethod with hmethod | ⟨hmethod, -⟩
      all_goals cases hmethod
  · exact absurd h hfails

end Authority

/-! ## What an escrow may spend -/

/-- Along a run without a new grant the authority is used up by what is moved. -/
theorem authority_run {s : FunToken} {o e : AccountId} (hs : Sound s) (hne : e ≠ o)
    (calls : List Call)
    (hno : ∀ x ∈ token.steps s calls, ¬ SetsAllowance o e x.before x.label) :
    authority (token.run s calls) o e + ((token.steps s calls).map (movedBy o e)).sum =
      authority s o e := by
  induction calls generalizing s with
  | nil => rfl
  | cons c calls ih =>
    have hsteps : token.steps s (c :: calls) =
        ⟨s, c, token.exec s c⟩ :: token.steps (token.exec s c) calls := rfl
    rw [hsteps] at hno ⊢
    have hfirst := authority_exec hs hne (hno ⟨s, c, token.exec s c⟩ (List.mem_cons_self ..))
    dsimp only at hfirst
    have hrest := ih (hs.exec c) fun x hx => hno x (List.mem_cons_of_mem _ hx)
    rw [Machine.run_cons, List.map_cons, List.sum_cons]
    omega

/-- **Escrow authority.** After an owner granted an allowance of `A` to an escrow, and until it
grants another one, what the escrow has left and what it has locked are `A` less the tokens that
left the owner's account in its calls. -/
theorem granted_run (owner : AccountId) (supply : U128) (pre : List Call) (o e : AccountId)
    (A : U128)
    (hset : Succeeds (token.run (FunToken.new owner supply) pre) ⟨o, .setAllowance e A⟩)
    (calls : List Call)
    (hno : ∀ x ∈ token.steps (token.run (FunToken.new owner supply)
        (pre ++ [⟨o, .setAllowance e A⟩])) calls,
      ¬ (Succeeds x.before x.label ∧ x.label.predecessorId = o ∧
        ∃ B, x.label.method = .setAllowance e B)) :
    ((token.run (FunToken.new owner supply)
        (pre ++ [⟨o, .setAllowance e A⟩] ++ calls)).getAccount o).getAllowance e +
      ((token.run (FunToken.new owner supply)
        (pre ++ [⟨o, .setAllowance e A⟩] ++ calls)).getAccount o).getLockedBalance e +
      ((token.steps (token.run (FunToken.new owner supply)
        (pre ++ [⟨o, .setAllowance e A⟩])) calls).map (movedBy o e)).sum = A := by
  obtain ⟨hne, hgrant⟩ := authority_of_setAllowance (sound_run owner supply pre) hset
  have hs := sound_run owner supply (pre ++ [⟨o, .setAllowance e A⟩])
  have hrun := authority_run hs hne calls hno
  rw [Machine.run_append _ (pre ++ _)]
  rw [Machine.run_append _ pre] at hrun ⊢
  exact hrun.trans hgrant

/-- Bob may move 600 tokens of Carol: he locks 300 and moves 400. -/
theorem granted_run_sampleCalls :
    ((token.run (FunToken.new "carol" 1000)
        ([] ++ [⟨"carol", .setAllowance "bob" 600⟩] ++
          [⟨"bob", .lock "carol" 300⟩, ⟨"bob", .transferFrom "carol" "dave" 400⟩])).getAccount
            "carol").getAllowance "bob" +
      ((token.run (FunToken.new "carol" 1000)
        ([] ++ [⟨"carol", .setAllowance "bob" 600⟩] ++
          [⟨"bob", .lock "carol" 300⟩, ⟨"bob", .transferFrom "carol" "dave" 400⟩])).getAccount
            "carol").getLockedBalance "bob" +
      ((token.steps (token.run (FunToken.new "carol" 1000)
        ([] ++ [⟨"carol", .setAllowance "bob" 600⟩]))
          [⟨"bob", .lock "carol" 300⟩, ⟨"bob", .transferFrom "carol" "dave" 400⟩]).map
            (movedBy "carol" "bob")).sum = 600 :=
  granted_run "carol" 1000 [] "carol" "bob" 600 ⟨_, rfl⟩
    [⟨"bob", .lock "carol" 300⟩, ⟨"bob", .transferFrom "carol" "dave" 400⟩] (by
      rintro x hx ⟨-, hcaller, -⟩
      revert hcaller
      revert x
      decide)

/-! ## Locks -/

section Locks

variable {s t : FunToken} {o e r : AccountId} {c : Call} {x : U128}

/-- Rewriting other entries, or the owner's grant, leaves a lock alone. -/
theorem locked_of_keeps {p q : AccountId} {b : Account} {balance allowance locked : ℕ}
    (h : Rewrites (s.getAccount p) b q balance allowance locked) (hne : ¬ (o = p ∧ e = q)) :
    ((s.insertAccount p b).getAccount o).getLockedBalance e = (s.getAccount o).getLockedBalance e :=
  (h.keeps hne).2

/-- **A lock is the locker's.** A call by another account, the owner included, leaves it alone. -/
theorem locked_exec (hs : Sound s) (hne : c.predecessorId ≠ e) :
    ((token.exec s c).getAccount o).getLockedBalance e = (s.getAccount o).getLockedBalance e := by
  rcases exec_cases hs c with ⟨-, heffect⟩ | ⟨-, hkept⟩
  · generalize token.exec s c = t at heffect ⊢
    have hother : ∀ p, ¬ (o = p ∧ e = c.predecessorId) := fun _ hentry => hne hentry.2.symm
    cases heffect with
    | allowed e' x b _ _ _ h ht =>
      rw [ht]
      by_cases hentry : o = c.predecessorId ∧ e = e'
      · obtain ⟨rfl, rfl⟩ := hentry
        rw [FunToken.getAccount_insertAccount, h.locked_eq]
      · exact locked_of_keeps h hentry
    | locked o' x b _ _ _ _ h ht =>
      rw [ht]
      exact locked_of_keeps h (hother o')
    | unlocked o' x b _ _ _ h ht =>
      rw [ht]
      exact locked_of_keeps h (hother o')
    | transferred o' r x _ b _ _ _ _ _ _ _ h ht =>
      rw [ht, credit_getLockedBalance]
      exact locked_of_keeps h (hother o')
  · rw [hkept]

theorem locked_of_others (hs : Sound s) {calls : List Call}
    (hne : ∀ c ∈ calls, c.predecessorId ≠ e) :
    ((token.run s calls).getAccount o).getLockedBalance e =
      (s.getAccount o).getLockedBalance e := by
  induction calls generalizing s with
  | nil => rfl
  | cons c calls ih =>
    rw [Machine.run_cons, ih (hs.exec c) fun c' hc' => hne c' (List.mem_cons_of_mem _ hc')]
    exact locked_exec hs (hne c (List.mem_cons_self ..))

/-- A transfer of locked tokens needs nothing else. -/
theorem succeeds_of_locked (hpos : 0 < (x : ℕ)) (hle : x ≤ (s.getAccount o).getLockedBalance e) :
    Succeeds s ⟨e, .transferFrom o r x⟩ := by
  have hrequire : (require ((x : ℕ) ≠ 0) "Can't transfer 0 tokens" : Method FunToken Unit) =
      pure () := if_pos (Nat.ne_of_gt hpos)
  have hlocked : (useLocked .wrapping e (s.getAccount o) x : Method FunToken (Account × ℕ)) =
      pure ((s.getAccount o).setLockedBalance e
        (((s.getAccount o).getLockedBalance e + (u128Max + 1) - x) % (u128Max + 1)), 0) :=
    if_pos hle
  have hunlocked : ∀ a, (useUnlocked .wrapping e o a 0 : Method FunToken Account) = pure a :=
    fun a => if_neg (Nat.lt_irrefl 0)
  refine ⟨stateOf ((transferFrom .wrapping e o r x).run s), ?_⟩
  show (transferFrom .wrapping e o r x).run s = _
  simp only [transferFrom, hrequire, EStateM.run_bind, EStateM.run_pure, EStateM.run_get, hlocked,
    hunlocked, EStateM.run_modify, Arithmetic.add, stateOf]

/-- A transfer of locked tokens takes them off the lock, and credits the new owner. -/
theorem spends_locked (hs : Sound s) (hpos : 0 < (x : ℕ))
    (hle : x ≤ (s.getAccount o).getLockedBalance e) :
    ∃ b t, (call .wrapping ⟨e, .transferFrom o r x⟩).run s = .ok () t ∧
      Rewrites (s.getAccount o) b e (s.getAccount o).balance ((s.getAccount o).getAllowance e)
        ((s.getAccount o).getLockedBalance e - x) ∧
      t = (s.insertAccount o b).credit r x := by
  obtain ⟨t, ht⟩ := succeeds_of_locked (r := r) hpos hle
  cases effect_of_call hs ht with
  | allowed _ _ _ hmethod => cases hmethod
  | locked _ _ _ hmethod => cases hmethod
  | unlocked _ _ _ hmethod => cases hmethod
  | transferred o' r' y remaining b y' hy hmethod _ hremaining _ _ h ht' =>
    rcases hmethod with hmethod | ⟨hmethod, -⟩
    · cases hmethod
      subst hy
      obtain rfl : remaining = 0 := by
        rw [hremaining]
        exact Nat.sub_eq_zero_of_le hle
      have hfree : charge e o 0 = 0 := Nat.le_zero.mp (charge_le e o 0)
      dsimp only at h
      rw [hfree] at h
      exact ⟨b, t, ht, h, ht'⟩
    · cases hmethod

/-- From `s` to `t` the locker `e` spent `x` tokens of `o`, all of them locked, on `r`. -/
structure SpendsLocked (s t : FunToken) (o e r : AccountId) (x : ℕ) : Prop where
  lock : (t.getAccount o).getLockedBalance e + x = (s.getAccount o).getLockedBalance e
  held : (t.getAccount o).held + x = (s.getAccount o).held + if o = r then x else 0
  balance : (t.getAccount o).balance = (s.getAccount o).balance + if o = r then x else 0
  allowances : ∀ q, (t.getAccount o).getAllowance q = (s.getAccount o).getAllowance q
  locks : ∀ q, q ≠ e → (t.getAccount o).getLockedBalance q = (s.getAccount o).getLockedBalance q

theorem spendsLocked_of_rewrites {b : Account} {x : ℕ}
    (hle : x ≤ (s.getAccount o).getLockedBalance e)
    (h : Rewrites (s.getAccount o) b e (s.getAccount o).balance ((s.getAccount o).getAllowance e)
      ((s.getAccount o).getLockedBalance e - x)) :
    SpendsLocked s ((s.insertAccount o b).credit r x) o e r x := by
  have haccount : ((s.insertAccount o b).credit r x).getAccount o =
      { b with balance := b.balance + if o = r then x else 0 } := by
    rw [getAccount_credit, FunToken.getAccount_insertAccount]
  refine ⟨?_, ?_, ?_, ?_, ?_⟩
  · rw [credit_getLockedBalance, FunToken.getAccount_insertAccount, h.locked_eq]
    exact Nat.sub_add_cancel hle
  · have hheld := h.held
    rw [held_credit, FunToken.getAccount_insertAccount]
    omega
  · rw [haccount, h.balance_eq]
  · intro q
    rw [credit_getAllowance, FunToken.getAccount_insertAccount]
    by_cases hq : q = e
    · rw [hq, h.allowance_eq]
    · exact h.allowance_other q hq
  · intro q hq
    rw [credit_getLockedBalance, FunToken.getAccount_insertAccount]
    exact h.locked_other q hq

/-- **Locks are exclusive.** In every state that the contract reaches, no call by others than the
locker changes a lock. After any calls by others the locker can transfer what it has locked, up to
all of it, to anyone: the owner is debited by exactly that, out of the lock, and its unlocked
balance (unless it is the new owner), its allowances and the other locks are left alone. -/
theorem locked_run (owner : AccountId) (supply : U128) (pre : List Call) (o e : AccountId) :
    (∀ c : Call, c.predecessorId ≠ e →
      ((token.exec (token.run (FunToken.new owner supply) pre) c).getAccount o).getLockedBalance e =
        ((token.run (FunToken.new owner supply) pre).getAccount o).getLockedBalance e) ∧
    ∀ calls : List Call, (∀ c ∈ calls, c.predecessorId ≠ e) → ∀ (r : AccountId) (x : U128),
      0 < (x : ℕ) →
      x ≤ ((token.run (FunToken.new owner supply) pre).getAccount o).getLockedBalance e →
      ∃ t, (call .wrapping ⟨e, .transferFrom o r x⟩).run
          (token.run (FunToken.new owner supply) (pre ++ calls)) = .ok () t ∧
        SpendsLocked (token.run (FunToken.new owner supply) (pre ++ calls)) t o e r x := by
  have hs := sound_run owner supply pre
  constructor
  · intro c hne
    exact locked_exec hs hne
  · intro calls hne r x hpos hle
    rw [← locked_of_others hs hne, ← Machine.run_append] at hle
    obtain ⟨b, t, ht, hb, rfl⟩ :=
      spends_locked (r := r) (sound_run owner supply (pre ++ calls)) hpos hle
    exact ⟨_, ht, spendsLocked_of_rewrites hle hb⟩

/-- Bob has locked 300 tokens of Carol. She fails to unlock them, locks what is left and fails to
revoke the grant; he transfers his 300. -/
theorem locked_run_sampleCalls :
    ((token.exec (token.run (FunToken.new "carol" 1000) sampleCalls)
        ⟨"carol", .unlock "carol" 300⟩).getAccount "carol").getLockedBalance "bob" =
      ((token.run (FunToken.new "carol" 1000) sampleCalls).getAccount
        "carol").getLockedBalance "bob" ∧
    ∃ t, (call .wrapping ⟨"bob", .transferFrom "carol" "dave" 300⟩).run
        (token.run (FunToken.new "carol" 1000)
          (sampleCalls ++ [⟨"carol", .lock "carol" 700⟩, ⟨"carol", .setAllowance "bob" 0⟩])) =
        .ok () t ∧
      SpendsLocked (token.run (FunToken.new "carol" 1000)
        (sampleCalls ++ [⟨"carol", .lock "carol" 700⟩, ⟨"carol", .setAllowance "bob" 0⟩]))
        t "carol" "bob" "dave" 300 :=
  ⟨(locked_run "carol" 1000 sampleCalls "carol" "bob").1 ⟨"carol", .unlock "carol" 300⟩
      (by decide),
    (locked_run "carol" 1000 sampleCalls "carol" "bob").2
      [⟨"carol", .lock "carol" 700⟩, ⟨"carol", .setAllowance "bob" 0⟩] (by decide) "dave" 300
      (by decide) (by decide)⟩

end Locks

end UncContracts.LockableToken
