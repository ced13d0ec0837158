import Mathlib.Algebra.Order.Ring.Nat

/-!
# Computations that panic

A contract call either returns or panics with a message; a panic rolls the call back. Calls are
modelled in `Except String`, and the lemmas here read a successful computation off from its
parts: what was asserted held, what was unwrapped was there, and every step of it succeeded.

## Main definitions

* `Exec`: computations that may panic
* `ensure`, `expect`: an assertion and the unwrapping of an option
* `checkedAdd`, `checkedSub`, `checkedMul`, `checkedDiv`: arithmetic with overflow checks
* `Avoids`: computations that do not panic with some messages
* `Guards`: a computation with checks, against the one without them
* `Simulates`: a computation that returns where another one does, with a related value

## Main results

* `foldlM_part`, `foldlM_part_of_nodup`: what a fold over a part of a list does
* `Avoids.bind`: a computation avoids what all of its steps avoid
* `Guards.bind`: the checks of a computation are those of all of its steps
* `Simulates.bind`, `Simulates.foldlM`: simulations go step by step
-/

namespace Foundation

/-- A computation that returns a value or panics with a message. -/
abbrev Exec (α : Type) := Except String α

/-- Panic with `msg` unless `c` holds. -/
def ensure (c : Prop) [Decidable c] (msg : String) : Exec Unit :=
  if c then .ok () else .error msg

/-- The value of an option, or a panic with `msg`. -/
def expect {α : Type} (o : Option α) (msg : String) : Exec α :=
  match o with
  | some a => .ok a
  | none => .error msg

/-- Addition in a word of maximum `max`, with overflow checks. -/
def checkedAdd (max a b : ℕ) : Exec ℕ :=
  if a + b ≤ max then .ok (a + b) else .error "attempt to add with overflow"

/-- Subtraction of naturals, with overflow checks. -/
def checkedSub (a b : ℕ) : Exec ℕ :=
  if b ≤ a then .ok (a - b) else .error "attempt to subtract with overflow"

/-- Multiplication in a word of maximum `max`, with overflow checks. -/
def checkedMul (max a b : ℕ) : Exec ℕ :=
  if a * b ≤ max then .ok (a * b) else .error "attempt to multiply with overflow"

/-- Division of naturals, which panics on a zero divisor. -/
def checkedDiv (a b : ℕ) : Exec ℕ :=
  if b = 0 then .error "division by zero" else .ok (a / b)

variable {α β σ : Type}

@[simp] theorem bind_eq_ok {x : Exec α} {f : α → Exec β} {b : β} :
    (x >>= f) = .ok b ↔ ∃ a, x = .ok a ∧ f a = .ok b := by
  constructor
  · intro h
    cases x with
    | ok a => exact ⟨a, rfl, h⟩
    | error e => cases h
  · rintro ⟨a, rfl, h⟩
    exact h

theorem ok_bind (a : α) (f : α → Exec β) : (Except.ok a >>= f) = f a := rfl

theorem exists_of_isOk {x : Exec α} (h : x.isOk = true) : ∃ a, x = .ok a := by
  cases x with
  | ok a => exact ⟨a, rfl⟩
  | error e => cases h

theorem toOption_eq_some {x : Exec α} {a : α} : x.toOption = some a ↔ x = .ok a := by
  cases x <;> simp [Except.toOption]

theorem toOption_eq_none {x : Exec α} : x.toOption = none ↔ ∃ e, x = .error e := by
  cases x <;> simp [Except.toOption]

theorem toOption_bind {x : Exec α} {f : α → Exec β} :
    (x >>= f).toOption = x.toOption.bind fun a => (f a).toOption := by
  cases x <;> rfl

theorem toOption_map {x : Exec α} {f : α → β} : (f <$> x).toOption = x.toOption.map f := by
  cases x <;> rfl

/-- A computation returns if its first step does, and the rest does. -/
theorem exists_bind_eq_ok {x : Exec α} {f : α → Exec β} :
    (∃ b, (x >>= f) = .ok b) ↔ ∃ a, x = .ok a ∧ ∃ b, f a = .ok b := by
  simp only [bind_eq_ok]
  constructor
  · rintro ⟨b, a, hx, hf⟩
    exact ⟨a, hx, b, hf⟩
  · rintro ⟨a, hx, b, hf⟩
    exact ⟨b, a, hx, hf⟩

@[simp] theorem pure_eq_ok {a b : α} : (pure a : Exec α) = .ok b ↔ a = b :=
  ⟨fun h => by cases h; rfl, fun h => h ▸ rfl⟩

@[simp] theorem ensure_eq_ok {c : Prop} [Decidable c] {msg : String} {u : Unit} :
    ensure c msg = .ok u ↔ c := by
  unfold ensure
  split <;> simp [*]

theorem ensure_of {c : Prop} [Decidable c] {msg : String} (h : c) : ensure c msg = .ok () := if_pos h

@[simp] theorem expect_eq_ok {o : Option α} {msg : String} {a : α} :
    expect o msg = .ok a ↔ o = some a := by
  cases o <;> simp [expect]

@[simp] theorem checkedAdd_eq_ok {max a b c : ℕ} :
    checkedAdd max a b = .ok c ↔ a + b ≤ max ∧ a + b = c := by
  unfold checkedAdd
  split <;> simp [*]

@[simp] theorem checkedSub_eq_ok {a b c : ℕ} :
    checkedSub a b = .ok c ↔ b ≤ a ∧ a - b = c := by
  unfold checkedSub
  split <;> simp [*]

@[simp] theorem checkedMul_eq_ok {max a b c : ℕ} :
    checkedMul max a b = .ok c ↔ a * b ≤ max ∧ a * b = c := by
  unfold checkedMul
  split <;> simp [*]

@[simp] theorem checkedDiv_eq_ok {a b c : ℕ} :
    checkedDiv a b = .ok c ↔ b ≠ 0 ∧ a / b = c := by
  unfold checkedDiv
  split <;> simp [*]

instance {x : Exec α} {msg : String} : Decidable (x = .error msg) :=
  match x with
  | .ok _ => isFalse fun h => by cases h
  | .error e => decidable_of_iff (e = msg) ⟨fun h => h ▸ rfl, fun h => by cases h; rfl⟩

/-- Folds with steps that agree on the elements of a list. -/
theorem foldlM_congr {f g : β → α → Exec β} {l : List α} (h : ∀ b, ∀ a ∈ l, f b a = g b a) (b : β) :
    l.foldlM f b = l.foldlM g b := by
  induction l generalizing b with
  | nil => rfl
  | cons a l ih =>
    rw [List.foldlM_cons, List.foldlM_cons, h b a (List.mem_cons_self ..)]
    exact bind_congr fun b' => ih (fun b a ha => h b a (List.mem_cons_of_mem _ ha)) b'

/-- A list of computations that return. -/
theorem mapM_eq_ok {f : α → Exec β} {g : α → β} {l : List α} (h : ∀ a ∈ l, f a = .ok (g a)) :
    l.mapM f = .ok (l.map g) := by
  induction l with
  | nil => rfl
  | cons a l ih =>
    simp only [List.forall_mem_cons] at h
    rw [List.mapM_cons, h.1, ih h.2]
    rfl

/-- A fold that takes in a part of a list, with what is known of the part before it. -/
theorem foldlM_part {f : σ → α → Exec σ} {all : List α} {R : List α → σ → Prop}
    (h : ∀ done a rest s, done ++ a :: rest = all → R done s → ∃ t, f s a = .ok t ∧ R (done ++ [a]) t)
    {done l rest : List α} (hall : done ++ l ++ rest = all) {s : σ} (hs : R done s) :
    ∃ t, l.foldlM f s = .ok t ∧ R (done ++ l) t := by
  induction l generalizing done s with
  | nil => exact ⟨s, rfl, by rwa [List.append_nil]⟩
  | cons a l ih =>
    obtain ⟨t, hf, ht⟩ := h done a (l ++ rest) s (by simpa using hall) hs
    obtain ⟨t', hl, ht'⟩ := ih (by simpa using hall) ht
    refine ⟨t', ?_, by simpa using ht'⟩
    rw [List.foldlM_cons, hf]
    exact hl

/-- A fold that takes in a part of a list with distinct keys. The key of an element is new to what is
before it. -/
theorem foldlM_part_of_nodup {κ : Type} {key : α → κ} {f : σ → α → Exec σ} {all : List α}
    {R : List α → σ → Prop} (hkeys : (all.map key).Nodup)
    (h : ∀ done a s, a ∈ all → (∀ d ∈ done, key d ≠ key a) → R done s →
      ∃ t, f s a = .ok t ∧ R (done ++ [a]) t)
    {done l rest : List α} (hall : done ++ l ++ rest = all) {s : σ} (hs : R done s) :
    ∃ t, l.foldlM f s = .ok t ∧ R (done ++ l) t := by
  refine foldlM_part ?_ hall hs
  intro done a rest s hsplit hs
  refine h done a s ?_ ?_ hs
  · rw [← hsplit]
    exact List.mem_append_right _ (List.mem_cons_self ..)
  · intro d hd heq
    rw [← hsplit, List.map_append, List.map_cons, List.nodup_append] at hkeys
    exact hkeys.2.2 (key d) (List.mem_map_of_mem hd) (key a) (List.mem_cons_self ..) heq

/-! ## Panics that do not happen -/

/-- A computation does not panic with a bad message. -/
def Avoids (bad : String → Prop) (x : Exec α) : Prop := ∀ e, x = .error e → ¬ bad e

namespace Avoids

variable {bad : String → Prop} {msg : String} {c : Prop} [Decidable c] {x : Exec α} {f : α → Exec β}
  {max a b : ℕ}

theorem ok (a : α) : Avoids bad (.ok a : Exec α) := fun _ h => by cases h

theorem pure (a : α) : Avoids bad (Pure.pure a : Exec α) := ok a

theorem error (h : ¬ bad msg) : Avoids bad (.error msg : Exec α) := fun _ h' => by cases h'; exact h

/-- A computation that avoids every panic returns. -/
theorem exists_eq_ok (h : Avoids (fun _ => True) x) : ∃ a, x = .ok a := by
  cases x with
  | ok a => exact ⟨a, rfl⟩
  | error msg => exact absurd trivial (h msg rfl)

/-- A computation avoids what its first step and the rest avoid. -/
theorem bind (hx : Avoids bad x) (hf : ∀ a, x = .ok a → Avoids bad (f a)) : Avoids bad (x >>= f) := by
  intro e h
  cases x with
  | ok a => exact hf a rfl e h
  | error e' =>
    cases h
    exact hx _ rfl

theorem ite {x y : Exec α} (hx : Avoids bad x) (hy : Avoids bad y) :
    Avoids bad (if c then x else y) := by
  split
  · exact hx
  · exact hy

/-- A fold avoids what each of its steps avoids. -/
theorem foldlM {f : β → α → Exec β} {l : List α} (h : ∀ b, ∀ a ∈ l, Avoids bad (f b a)) (b : β) :
    Avoids bad (l.foldlM f b) := by
  induction l generalizing b with
  | nil => exact pure b
  | cons a l ih =>
    rw [List.foldlM_cons]
    refine bind (h b a (List.mem_cons_self ..)) fun b' _ => ?_
    exact ih (fun b a ha => h b a (List.mem_cons_of_mem _ ha)) b'

theorem ensure (h : bad msg → c) : Avoids bad (Foundation.ensure c msg) := by
  intro e he hbad
  unfold Foundation.ensure at he
  split at he
  · cases he
  · next hc =>
    cases he
    exact hc (h hbad)

theorem expect {o : Option α} (h : bad msg → o.isSome = true) :
    Avoids bad (Foundation.expect o msg) := by
  intro e he hbad
  cases o with
  | some a => cases he
  | none =>
    cases he
    cases h hbad

theorem checkedAdd (h : ¬ bad "attempt to add with overflow") :
    Avoids bad (Foundation.checkedAdd max a b) := by
  unfold Foundation.checkedAdd
  split
  · exact ok _
  · exact error h

theorem checkedSub (h : bad "attempt to subtract with overflow" → b ≤ a) :
    Avoids bad (Foundation.checkedSub a b) := by
  intro e he hbad
  unfold Foundation.checkedSub at he
  split at he
  · cases he
  · next hlt =>
    cases he
    exact hlt (h hbad)

end Avoids

/-! ## Computations with checks -/

/-- A computation with checks, against the one without them. It is the same if the checks pass.
Otherwise it panics with the message of the checks, unless both panic before with the same message. -/
structure Guards (denied : String) (P : Prop) (x y : Exec α) : Prop where
  passed : P → x = y
  stopped : ¬ P → x = .error denied ∨ ∃ msg, x = .error msg ∧ y = .error msg

namespace Guards

variable {denied msg : String} {P Q : Prop} {x y : Exec α} {f g : α → Exec β} {a : α}

theorem of_eq (hP : P) (h : x = y) : Guards denied P x y := ⟨fun _ => h, fun hnot => absurd hP hnot⟩

theorem error : Guards denied P (.error msg : Exec α) (.error msg) :=
  ⟨fun _ => rfl, fun _ => .inr ⟨msg, rfl, rfl⟩⟩

theorem of_denied (hP : ¬ P) (y : Exec α) : Guards denied P (.error denied) y :=
  ⟨fun h => absurd h hP, fun _ => .inl rfl⟩

theorem congr (h : Guards denied P x y) (hiff : P ↔ Q) : Guards denied Q x y :=
  ⟨fun hQ => h.passed (hiff.mpr hQ), fun hQ => h.stopped fun hP => hQ (hiff.mp hP)⟩

/-- The checks of a computation are those of its first step and of the rest. -/
theorem bind (h : Guards denied P x y) (hf : ∀ a, x = .ok a → Guards denied Q (f a) (g a)) :
    Guards denied (P ∧ Q) (x >>= f) (y >>= g) := by
  by_cases hP : P
  · rw [← h.passed hP]
    cases x with
    | error msg => exact error
    | ok a => exact (hf a rfl).congr (and_iff_right hP).symm
  · rcases h.stopped hP with hx | ⟨msg, hx, hy⟩
    · rw [hx]
      exact of_denied (fun hboth => hP hboth.1) _
    · rw [hx, hy]
      exact error

/-- A first step without checks. -/
theorem step (x : Exec α) (hf : ∀ a, x = .ok a → Guards denied Q (f a) (g a)) :
    Guards denied Q (x >>= f) (x >>= g) :=
  ((of_eq trivial rfl).bind hf).congr (iff_of_eq (true_and Q))

/-- A last step without checks. -/
theorem last (h : Guards denied P x y) (f : α → Exec β) : Guards denied P (x >>= f) (y >>= f) :=
  (h.bind fun _ _ => of_eq trivial rfl).congr (iff_of_eq (and_true P))

/-- Where the computation without checks returns, the one with them returns the same or is denied. -/
theorem iff_of_ok (h : Guards denied P x y) (hy : y = .ok a) :
    (x = .ok a ↔ P) ∧ (x = .error denied ↔ ¬ P) := by
  by_cases hP : P
  · rw [h.passed hP, hy]
    simp [hP]
  · rcases h.stopped hP with hx | ⟨msg, -, hmsg⟩
    · rw [hx]
      simp [hP]
    · cases hmsg.symm.trans hy

/-- Where the computation without checks panics, the one with them panics with the same message or is
denied. -/
theorem of_error (h : Guards denied P x y) (hy : y = .error msg) :
    x = .error msg ∨ x = .error denied ∧ ¬ P := by
  by_cases hP : P
  · exact .inl ((h.passed hP).trans hy)
  · rcases h.stopped hP with hx | ⟨msg', hx, hmsg⟩
    · exact .inr ⟨hx, hP⟩
    · cases hmsg.symm.trans hy
      exact .inl hx

end Guards

/-! ## Simulations -/

/-- A computation returns where another one does, and the values are related. -/
def Simulates {α' : Type} (R : α → α' → Prop) (x : Exec α) (y : Exec α') : Prop :=
  ∀ a, x = .ok a → ∃ b, y = .ok b ∧ R a b

namespace Simulates

variable {α' β' : Type} {R : α → α' → Prop} {S : β → β' → Prop} {x : Exec α} {y : Exec α'} {a : α}
  {b : α'}

theorem pure (h : R a b) : Simulates R (Pure.pure a) (Pure.pure b) := by
  rintro _ ⟨⟩
  exact ⟨b, rfl, h⟩

theorem error (msg : String) (y : Exec α') : Simulates R (.error msg) y := by
  rintro a ⟨⟩

/-- Simulations go step by step. -/
theorem bind {f : α → Exec β} {g : α' → Exec β'} (h : Simulates R x y)
    (hf : ∀ a b, R a b → Simulates S (f a) (g b)) : Simulates S (x >>= f) (y >>= g) := by
  intro c hc
  obtain ⟨a, hx, hfa⟩ := bind_eq_ok.mp hc
  obtain ⟨b, hy, hab⟩ := h a hx
  obtain ⟨d, hgb, hcd⟩ := hf a b hab c hfa
  refine ⟨d, ?_, hcd⟩
  rw [hy, ok_bind, hgb]

/-- A fold simulates a fold if each step simulates the one at the same element. -/
theorem foldlM {γ : Type} {f : α → γ → Exec α} {g : α' → γ → Exec α'} {l : List γ}
    (h : ∀ e ∈ l, ∀ a b, R a b → Simulates R (f a e) (g b e)) (hab : R a b) :
    Simulates R (l.foldlM f a) (l.foldlM g b) := by
  induction l generalizing a b with
  | nil => exact pure hab
  | cons e l ih =>
    rw [List.forall_mem_cons] at h
    rw [List.foldlM_cons, List.foldlM_cons]
    exact (h.1 a b hab).bind fun a b hab => ih h.2 hab

end Simulates

end Foundation
