import Mathlib.Algebra.Order.Ring.Nat

/-!
# Methods that return errors

A method that panics is rolled back. A method that returns an error is not: what it wrote before
the error stays. Such methods are computations that pass a state along and keep it when they fail.
Their arithmetic is that of the build: without overflow checks a sum or a difference wraps, with
them it panics. Where both builds do the same, nothing wraps.

## Main definitions

* `Method`: computations over a state that may return an error
* `require`: an error unless a condition holds
* `Arithmetic`: whether the build checks for overflows
* `Reads`, `Returns`, `Atomic`: computations that write nothing, that always return a value, and
  whose errors leave the state alone
* `Exact`: computations that do the same in both builds

## Main results

* `run_bind_eq_ok`: a successful computation, read off from its parts
* `Atomic.bind`, `Exact.bind`: the rules for sequences
-/

namespace Foundation

/-- A computation over a state of `σ`, which returns a value or an error in a new state. -/
abbrev Method (σ α : Type) := EStateM String σ α

section Computations

variable {σ α β : Type}

/-- Return the error `msg` unless `c` holds. -/
def require (c : Prop) [Decidable c] (msg : String) : Method σ Unit :=
  if c then pure () else throw msg

theorem run_bind_eq_ok {x : Method σ α} {f : α → Method σ β} {s t : σ} {b : β} :
    (x >>= f).run s = .ok b t ↔ ∃ a u, x.run s = .ok a u ∧ (f a).run u = .ok b t := by
  rw [EStateM.run_bind]
  constructor
  · intro h
    cases hx : x.run s with
    | ok a u =>
      rw [hx] at h
      exact ⟨a, u, rfl, h⟩
    | error e u =>
      rw [hx] at h
      cases h
  · rintro ⟨a, u, hx, h⟩
    rw [hx]
    exact h

theorem run_pure_eq_ok {a b : α} {s t : σ} :
    (pure a : Method σ α).run s = .ok b t ↔ a = b ∧ s = t := by
  rw [EStateM.run_pure]
  simp

theorem run_get_eq_ok {s t u : σ} : (get : Method σ σ).run s = .ok u t ↔ s = u ∧ s = t := by
  rw [EStateM.run_get]
  simp

theorem run_modify_eq_ok {f : σ → σ} {s t : σ} {u : Unit} :
    (modify f : Method σ Unit).run s = .ok u t ↔ f s = t := by
  rw [EStateM.run_modify]
  simp

theorem run_require_eq_ok {c : Prop} [Decidable c] {msg : String} {s t : σ} {u : Unit} :
    (require c msg : Method σ Unit).run s = .ok u t ↔ c ∧ s = t := by
  unfold require
  split
  · simp [*]
  · constructor
    · intro h
      cases h
    · rintro ⟨hc, -⟩
      contradiction

end Computations

/-! ## Arithmetic -/

/-- Whether the build checks for overflows. -/
inductive Arithmetic
  | wrapping
  | checked
  deriving DecidableEq, Repr

namespace Arithmetic

variable {σ : Type} (m : Arithmetic) (max a b : ℕ)

/-- Addition in a word of maximum `max`. -/
def add : Method σ ℕ :=
  match m with
  | .wrapping => pure ((a + b) % (max + 1))
  | .checked => if a + b ≤ max then pure (a + b) else throw "attempt to add with overflow"

/-- Subtraction in a word of maximum `max`. -/
def sub : Method σ ℕ :=
  match m with
  | .wrapping => pure ((a + (max + 1) - b) % (max + 1))
  | .checked => if b ≤ a then pure (a - b) else throw "attempt to subtract with overflow"

/-- The sum of some words of maximum `max`, from the left. -/
def sum : List ℕ → Method σ ℕ := List.foldlM (add m max) 0

variable {max a b}

theorem add_eq (h : a + b ≤ max) : (m.add max a b : Method σ ℕ) = pure (a + b) := by
  cases m with
  | wrapping => exact congrArg pure (Nat.mod_eq_of_lt (Nat.lt_succ_of_le h))
  | checked => exact if_pos h

theorem sub_eq (h : b ≤ a) (ha : a ≤ max) : (m.sub max a b : Method σ ℕ) = pure (a - b) := by
  cases m with
  | wrapping =>
    have hword : a + (max + 1) - b = a - b + (max + 1) := by omega
    show pure ((a + (max + 1) - b) % (max + 1)) = pure (a - b)
    rw [hword, Nat.add_mod_right, Nat.mod_eq_of_lt (by omega)]
  | checked => exact if_pos h

theorem run_add_eq_ok {s t : σ} {c : ℕ} :
    (checked.add max a b : Method σ ℕ).run s = .ok c t ↔ a + b ≤ max ∧ a + b = c ∧ s = t := by
  unfold add
  dsimp only
  split
  · simp [*]
  · constructor
    · intro h
      cases h
    · rintro ⟨hle, -⟩
      contradiction

theorem run_sub_eq_ok {s t : σ} {c : ℕ} :
    (checked.sub max a b : Method σ ℕ).run s = .ok c t ↔ b ≤ a ∧ a - b = c ∧ s = t := by
  unfold sub
  dsimp only
  split
  · simp [*]
  · constructor
    · intro h
      cases h
    · rintro ⟨hle, -⟩
      contradiction

/-- A sum that fits in a word is the sum. -/
theorem foldlM_add_eq (l : List ℕ) (a : ℕ) (h : a + l.sum ≤ max) :
    (l.foldlM (m.add max) a : Method σ ℕ) = pure (a + l.sum) := by
  induction l generalizing a with
  | nil => rfl
  | cons b l ih =>
    rw [List.sum_cons] at h ⊢
    rw [List.foldlM_cons, add_eq m (by omega), pure_bind, ih (a + b) (by omega), Nat.add_assoc]

theorem sum_eq {l : List ℕ} (h : l.sum ≤ max) : (m.sum max l : Method σ ℕ) = pure l.sum := by
  rw [sum, foldlM_add_eq m l 0 (by omega), Nat.zero_add]

end Arithmetic

/-! ## What a computation writes -/

section Writing

variable {σ α β : Type}

/-- The computation writes nothing. -/
def Reads (x : Method σ α) : Prop :=
  ∀ s, (∃ a, x.run s = .ok a s) ∨ ∃ e, x.run s = .error e s

/-- The computation always returns a value. -/
def Returns (x : Method σ α) : Prop := ∀ s, ∃ a t, x.run s = .ok a t

/-- An error leaves the state alone. -/
def Atomic (x : Method σ α) : Prop := ∀ s e t, x.run s = .error e t → t = s

namespace Reads

variable {c : Prop} [Decidable c] {x y : Method σ α} {f : α → Method σ β}

theorem pure (a : α) : Reads (Pure.pure a : Method σ α) := fun _ => .inl ⟨a, rfl⟩

theorem get : Reads (MonadState.get : Method σ σ) := fun s => .inl ⟨s, rfl⟩

theorem throw (e : String) : Reads (throw e : Method σ α) := fun _ => .inr ⟨e, rfl⟩

theorem ite (hx : Reads x) (hy : Reads y) : Reads (if c then x else y) := by
  split
  · exact hx
  · exact hy

theorem require (msg : String) : Reads (Foundation.require c msg : Method σ Unit) :=
  ite (pure ()) (throw msg)

theorem bind (hx : Reads x) (hf : ∀ a, Reads (f a)) : Reads (x >>= f) := by
  intro s
  rcases hx s with ⟨a, ha⟩ | ⟨e, he⟩
  · rw [EStateM.run_bind, ha]
    exact hf a s
  · exact .inr ⟨e, by rw [EStateM.run_bind, he]⟩

theorem add (m : Arithmetic) (max a b : ℕ) : Reads (m.add max a b : Method σ ℕ) := by
  cases m with
  | wrapping => exact pure _
  | checked => exact ite (pure _) (throw _)

theorem sub (m : Arithmetic) (max a b : ℕ) : Reads (m.sub max a b : Method σ ℕ) := by
  cases m with
  | wrapping => exact pure _
  | checked => exact ite (pure _) (throw _)

end Reads

namespace Returns

variable {x : Method σ α} {f : α → Method σ β}

theorem pure (a : α) : Returns (Pure.pure a : Method σ α) := fun s => ⟨a, s, rfl⟩

theorem get : Returns (MonadState.get : Method σ σ) := fun s => ⟨s, s, rfl⟩

theorem write (g : σ → σ) : Returns (modify g : Method σ Unit) := fun s => ⟨(), g s, rfl⟩

theorem bind (hx : Returns x) (hf : ∀ a, Returns (f a)) : Returns (x >>= f) := by
  intro s
  obtain ⟨a, t, ha⟩ := hx s
  rw [EStateM.run_bind, ha]
  exact hf a t

/-- Wrapping arithmetic never fails. -/
theorem add (max a b : ℕ) : Returns (Arithmetic.wrapping.add max a b : Method σ ℕ) := pure _

end Returns

namespace Atomic

variable {x : Method σ α} {f : α → Method σ β}

theorem of_returns (h : Returns x) : Atomic x := by
  intro s e t he
  obtain ⟨a, u, ha⟩ := h s
  rw [ha] at he
  cases he

/-- First only read, then do what leaves the state alone when it fails. -/
theorem bind (hx : Reads x) (hf : ∀ a, Atomic (f a)) : Atomic (x >>= f) := by
  intro s e t h
  rw [EStateM.run_bind] at h
  rcases hx s with ⟨a, ha⟩ | ⟨e', he'⟩
  · rw [ha] at h
    exact hf a s e t h
  · rw [he'] at h
    cases h
    rfl

end Atomic

end Writing

/-! ## Computations that do not wrap -/

section Exactness

variable {σ α β : Type}

/-- In the state `s` the computation does the same in both builds. -/
def Exact (f : Arithmetic → Method σ α) (s : σ) : Prop :=
  (f .wrapping).run s = (f .checked).run s

namespace Exact

variable {f g : Arithmetic → Method σ α} {s : σ} {max a b : ℕ} {c : Prop} [Decidable c]

theorem const (x : Method σ α) (s : σ) : Exact (fun _ => x) s := rfl

/-- The second part has to do the same after each success of the first. -/
theorem bind {h : Arithmetic → α → Method σ β} (hf : Exact f s)
    (hh : ∀ a t, (f .checked).run s = .ok a t → Exact (fun m => h m a) t) :
    Exact (fun m => f m >>= h m) s := by
  unfold Exact at hf ⊢
  rw [EStateM.run_bind, EStateM.run_bind, hf]
  cases hx : (f .checked).run s with
  | ok a t => exact hh a t hx
  | error e t => rfl

/-- After a requirement the rest has to do the same where the condition holds. -/
theorem require {g : Arithmetic → Method σ β} {msg : String} (hg : c → Exact g s) :
    Exact (fun m => Foundation.require c msg >>= fun _ => g m) s := by
  refine .bind (.const _ _) ?_
  intro _ _ hrequire
  obtain ⟨hc, rfl⟩ := run_require_eq_ok.mp hrequire
  exact hg hc

theorem get {h : Arithmetic → σ → Method σ β} (hh : Exact (fun m => h m s) s) :
    Exact (fun m => MonadState.get >>= h m) s := by
  refine .bind (.const _ _) ?_
  intro _ _ hget
  obtain ⟨rfl, rfl⟩ := run_get_eq_ok.mp hget
  exact hh

theorem ite (hf : c → Exact f s) (hg : ¬ c → Exact g s) :
    Exact (fun m => if c then f m else g m) s := by
  by_cases hc : c
  · simpa only [Exact, if_pos hc] using hf hc
  · simpa only [Exact, if_neg hc] using hg hc

theorem add (h : a + b ≤ max) (s : σ) : Exact (fun m => (m.add max a b : Method σ ℕ)) s := by
  dsimp only [Exact]
  rw [Arithmetic.add_eq _ h, Arithmetic.add_eq _ h]

theorem sub (h : b ≤ a) (ha : a ≤ max) (s : σ) :
    Exact (fun m => (m.sub max a b : Method σ ℕ)) s := by
  dsimp only [Exact]
  rw [Arithmetic.sub_eq _ h ha, Arithmetic.sub_eq _ h ha]

theorem sum {l : List ℕ} (h : l.sum ≤ max) (s : σ) :
    Exact (fun m => (m.sum max l : Method σ ℕ)) s := by
  dsimp only [Exact]
  rw [Arithmetic.sum_eq _ h, Arithmetic.sum_eq _ h]

end Exact

end Exactness

end Foundation
