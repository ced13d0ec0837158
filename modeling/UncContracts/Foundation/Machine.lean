import Mathlib.Algebra.Order.Ring.Nat
import Mathlib.Data.List.Basic

/-!
# Machines and their runs

A machine is a partial transition function: a label either takes a state to the next one or is
refused, and a refused label leaves the state alone. A run is any sequence of labels; its steps
are the labels that were accepted, with the states around them.

## Main definitions

* `Machine`: a transition function that may refuse a label
* `Machine.run`: the state after a sequence of labels
* `Machine.steps`: the accepted labels of a sequence, with the states around them

## Main results

* `Machine.run_induction`: induction over the steps of a run, with the history at hand
* `Machine.run_invariant`: an invariant of every step that meets a guard holds after every run
  whose steps meet it
* `Machine.mem_steps_iff`: a step of a run is an accepted label after a prefix of the run
* `Machine.run_map`: a run of a machine is one of the machine it projects on
* `Machine.run_translate`: a machine takes the steps of another one whose labels it translates
* `Machine.run_batches`: a list that a run takes in batch by batch
* `Machine.potential_le`, `Machine.potential_eq`, `Machine.le_potential`: a potential that every step
  pays for, accounts for, or is owed to
* `Machine.switch_iff`: what steps turn on and off is as the last of them left it
* `Machine.mark_iff`: what no step takes back holds if some step set it
* `Machine.register_eq`: what steps set has the value that the last of them set
-/

namespace Foundation

/-- A transition function on states `σ` that accepts a label of `ι` or refuses it with an error. -/
structure Machine (σ ι ε : Type) where
  step : σ → ι → Except ε σ

/-- An accepted label and the states around it. -/
structure Step (σ ι : Type) where
  before : σ
  label : ι
  after : σ

/-- The step of another machine whose states and labels are those of this one, translated. -/
def Step.translate {σ ι τ κ : Type} (f : σ → τ) (g : ι → κ) (x : Step σ ι) : Step τ κ :=
  ⟨f x.before, g x.label, f x.after⟩

namespace Machine

variable {σ ι ε : Type} (M : Machine σ ι ε)

/-- The state after one label: a refused label changes nothing. -/
def exec (s : σ) (l : ι) : σ :=
  match M.step s l with
  | .ok t => t
  | .error _ => s

/-- The state after a sequence of labels. -/
def run (s : σ) : List ι → σ
  | [] => s
  | l :: ls => run (M.exec s l) ls

/-- The steps of a sequence of labels: those that were accepted, in order. -/
def steps (s : σ) : List ι → List (Step σ ι)
  | [] => []
  | l :: ls =>
    match M.step s l with
    | .ok t => ⟨s, l, t⟩ :: steps t ls
    | .error _ => steps s ls

@[simp] theorem run_nil (s : σ) : M.run s [] = s := rfl

@[simp] theorem steps_nil (s : σ) : M.steps s [] = [] := rfl

theorem run_cons (s : σ) (l : ι) (ls : List ι) : M.run s (l :: ls) = M.run (M.exec s l) ls := rfl

variable {M}

theorem exec_of_ok {s t : σ} {l : ι} (h : M.step s l = .ok t) : M.exec s l = t := by
  simp [exec, h]

theorem exec_of_error {s : σ} {l : ι} {e : ε} (h : M.step s l = .error e) : M.exec s l = s := by
  simp [exec, h]

theorem step_eq_exec {s : σ} {l : ι} (h : (M.step s l).isOk = true) :
    M.step s l = .ok (M.exec s l) := by
  cases hstep : M.step s l with
  | ok t => rw [exec_of_ok hstep]
  | error e => simp [hstep, Except.isOk, Except.toBool] at h

theorem steps_cons_of_ok {s t : σ} {l : ι} {ls : List ι} (h : M.step s l = .ok t) :
    M.steps s (l :: ls) = ⟨s, l, t⟩ :: M.steps t ls := by
  simp [steps, h]

theorem steps_cons_of_error {s : σ} {l : ι} {ls : List ι} {e : ε} (h : M.step s l = .error e) :
    M.steps s (l :: ls) = M.steps s ls := by
  simp [steps, h]

theorem run_append (s : σ) (ls ms : List ι) :
    M.run s (ls ++ ms) = M.run (M.run s ls) ms := by
  induction ls generalizing s with
  | nil => rfl
  | cons l ls ih => exact ih _

theorem steps_append (s : σ) (ls ms : List ι) :
    M.steps s (ls ++ ms) = M.steps s ls ++ M.steps (M.run s ls) ms := by
  induction ls generalizing s with
  | nil => rfl
  | cons l ls ih =>
    cases h : M.step s l with
    | ok t => simp [steps, run, exec, h, ih]
    | error e => simp [steps, run, exec, h, ih]

/-- Every step of a run is a transition of the machine. -/
theorem step_of_mem {s : σ} {ls : List ι} {x : Step σ ι} (hx : x ∈ M.steps s ls) :
    M.step x.before x.label = .ok x.after := by
  induction ls generalizing s with
  | nil => cases hx
  | cons l ls ih =>
    cases h : M.step s l with
    | ok t =>
      rw [steps_cons_of_ok h] at hx
      rcases List.mem_cons.mp hx with rfl | hx
      · exact h
      · exact ih hx
    | error e =>
      rw [steps_cons_of_error h] at hx
      exact ih hx

/-- Labels that are accepted in every state are all steps. -/
theorem map_label_steps {ls : List ι} (h : ∀ l ∈ ls, ∀ s, ∃ t, M.step s l = .ok t) (s : σ) :
    ((M.steps s ls).map fun x => x.label) = ls := by
  induction ls generalizing s with
  | nil => rfl
  | cons l ls ih =>
    rw [List.forall_mem_cons] at h
    obtain ⟨t, ht⟩ := h.1 s
    rw [steps_cons_of_ok ht, List.map_cons, ih h.2]

/-- A step of a run is an accepted label after a prefix of the run. -/
theorem mem_steps_iff {s : σ} {ls : List ι} {x : Step σ ι} :
    x ∈ M.steps s ls ↔ ∃ pre post, ls = pre ++ x.label :: post ∧ x.before = M.run s pre ∧
      M.step x.before x.label = .ok x.after := by
  constructor
  · intro hx
    induction ls generalizing s with
    | nil => cases hx
    | cons l ls ih =>
      cases h : M.step s l with
      | ok t =>
        rw [steps_cons_of_ok h] at hx
        rcases List.mem_cons.mp hx with rfl | hx
        · exact ⟨[], ls, rfl, rfl, h⟩
        · obtain ⟨pre, post, rfl, hb, hs⟩ := ih hx
          exact ⟨l :: pre, post, rfl, by rw [hb, run_cons, exec_of_ok h], hs⟩
      | error e =>
        rw [steps_cons_of_error h] at hx
        obtain ⟨pre, post, rfl, hb, hs⟩ := ih hx
        exact ⟨l :: pre, post, rfl, by rw [hb, run_cons, exec_of_error h], hs⟩
  · rintro ⟨pre, post, rfl, hb, hs⟩
    rw [steps_append, ← hb, steps_cons_of_ok hs]
    simp

/-- **Induction over the steps of a run.** The property may speak of the steps so far. -/
theorem run_induction {P : List (Step σ ι) → σ → Prop} {s : σ} (h₀ : P [] s)
    (hstep : ∀ hist a l b, P hist a → M.step a l = .ok b → P (hist ++ [⟨a, l, b⟩]) b)
    (ls : List ι) : P (M.steps s ls) (M.run s ls) := by
  suffices H : ∀ (ls : List ι) (hist : List (Step σ ι)) (s : σ), P hist s →
      P (hist ++ M.steps s ls) (M.run s ls) by
    simpa using H ls [] s h₀
  intro ls
  induction ls with
  | nil => intro hist s hs; simpa using hs
  | cons l ls ih =>
    intro hist s hs
    cases h : M.step s l with
    | ok t =>
      rw [steps_cons_of_ok h, run_cons, exec_of_ok h]
      have hrest := ih (hist ++ [⟨s, l, t⟩]) t (hstep hist s l t hs h)
      rwa [List.append_assoc, List.singleton_append] at hrest
    | error e =>
      rw [steps_cons_of_error h, run_cons, exec_of_error h]
      exact ih hist s hs

/-- **Guarded invariants.** What every step meeting the guard preserves holds after every run
whose steps meet the guard. -/
theorem run_invariant {I : σ → Prop} {G : σ → ι → Prop}
    (hstep : ∀ a l b, I a → G a l → M.step a l = .ok b → I b) {s : σ} {ls : List ι}
    (hG : ∀ x ∈ M.steps s ls, G x.before x.label) (h₀ : I s) : I (M.run s ls) := by
  refine run_induction (M := M)
    (P := fun hist t => (∀ x ∈ hist, G x.before x.label) → I t) (fun _ => h₀) ?_ ls hG
  intro hist a l b ih hs hall
  refine hstep a l b (ih fun x hx => hall x (by simp [hx])) ?_ hs
  exact hall ⟨a, l, b⟩ (by simp)

/-- The guard of a run is the guard of its prefixes. -/
theorem guard_of_prefix {G : Step σ ι → Prop} {s : σ} {ls ms : List ι} (h : ls <+: ms)
    (hG : ∀ x ∈ M.steps s ms, G x) : ∀ x ∈ M.steps s ls, G x := by
  obtain ⟨rest, rfl⟩ := h
  intro x hx
  exact hG x (by rw [steps_append]; exact List.mem_append_left _ hx)

/-- **Potentials.** What every step raises a potential by, with what it gives away, is within what
it takes in. Then the same holds of a run. -/
theorem potential_le {P : σ → ℕ} {taken given : Step σ ι → ℕ}
    (h : ∀ x : Step σ ι, M.step x.before x.label = .ok x.after →
      P x.after + given x ≤ P x.before + taken x) (s : σ) (ls : List ι) :
    P (M.run s ls) + ((M.steps s ls).map given).sum ≤ P s + ((M.steps s ls).map taken).sum := by
  refine run_induction (M := M)
    (P := fun hist t => P t + (hist.map given).sum ≤ P s + (hist.map taken).sum) ?_ ?_ ls
  · exact le_rfl
  · intro hist a l b ih hstep
    have hlast : P b + given ⟨a, l, b⟩ ≤ P a + taken ⟨a, l, b⟩ := h ⟨a, l, b⟩ hstep
    simp only [List.map_append, List.sum_append, List.map_cons, List.map_nil, List.sum_cons,
      List.sum_nil]
    omega

/-- **Accounts.** What every step adds to a potential, with what it gives away, is what it takes in.
Then the same holds of a run. -/
theorem potential_eq (P : σ → ℕ) (taken given : Step σ ι → ℕ)
    (h : ∀ x : Step σ ι, M.step x.before x.label = .ok x.after →
      P x.after + given x = P x.before + taken x) (s : σ) (ls : List ι) :
    P (M.run s ls) + ((M.steps s ls).map given).sum = P s + ((M.steps s ls).map taken).sum := by
  refine run_induction (M := M)
    (P := fun hist t => P t + (hist.map given).sum = P s + (hist.map taken).sum) ?_ ?_ ls
  · rfl
  · intro hist a l b ih hstep
    have hlast : P b + given ⟨a, l, b⟩ = P a + taken ⟨a, l, b⟩ := h ⟨a, l, b⟩ hstep
    simp only [List.map_append, List.sum_append, List.map_cons, List.map_nil, List.sum_cons,
      List.sum_nil]
    omega

/-- **Dues.** What every step of a run takes in is left in a potential, or given away. Then the same
holds of the run. -/
theorem le_potential {P : σ → ℕ} {taken given : Step σ ι → ℕ} {s : σ} {ls : List ι}
    (h : ∀ x ∈ M.steps s ls, P x.before + taken x ≤ P x.after + given x) :
    P s + ((M.steps s ls).map taken).sum ≤ P (M.run s ls) + ((M.steps s ls).map given).sum := by
  refine run_induction (M := M)
    (P := fun hist t => (∀ x ∈ hist, P x.before + taken x ≤ P x.after + given x) →
      P s + (hist.map taken).sum ≤ P t + (hist.map given).sum) ?_ ?_ ls h
  · exact fun _ => le_rfl
  · intro hist a l b ih _ hall
    have hlast : P a + taken ⟨a, l, b⟩ ≤ P b + given ⟨a, l, b⟩ := hall ⟨a, l, b⟩ (by simp)
    have hbefore := ih fun x hx => hall x (by simp [hx])
    simp only [List.map_append, List.sum_append, List.map_cons, List.map_nil, List.sum_cons,
      List.sum_nil]
    omega

/-- **Switches.** What some steps turn on, some turn off and the others keep is as the last of these
steps left it. -/
theorem switch_iff {P : σ → Prop} {sets : Step σ ι → Option Bool}
    (h : ∀ x : Step σ ι, M.step x.before x.label = .ok x.after →
      (P x.after ↔ (sets x).elim (P x.before) (· = true))) (s : σ) (ls : List ι) :
    P (M.run s ls) ↔ (((M.steps s ls).filterMap sets).getLast?).elim (P s) (· = true) := by
  refine run_induction (M := M)
    (P := fun hist t => P t ↔ ((hist.filterMap sets).getLast?).elim (P s) (· = true)) Iff.rfl ?_ ls
  intro hist a l b ih hstep
  have hlast := h ⟨a, l, b⟩ hstep
  rw [List.filterMap_append, List.getLast?_append]
  cases hsets : sets ⟨a, l, b⟩ with
  | none => simpa [hsets, ih] using hlast
  | some value => simpa [hsets] using hlast

/-- **Marks.** What some steps set and none takes back holds after a run if one of its steps set it. -/
theorem mark_iff {P : σ → Prop} {sets : Step σ ι → Prop} {s : σ} {ls : List ι}
    (h : ∀ x ∈ M.steps s ls, (P x.after ↔ P x.before ∨ sets x)) :
    P (M.run s ls) ↔ P s ∨ ∃ x ∈ M.steps s ls, sets x := by
  refine run_induction (M := M)
    (P := fun hist t => (∀ x ∈ hist, (P x.after ↔ P x.before ∨ sets x)) →
      (P t ↔ P s ∨ ∃ x ∈ hist, sets x)) ?_ ?_ ls h
  · simp
  · intro hist a l b ih _ hall
    have hlast : P b ↔ P a ∨ sets ⟨a, l, b⟩ := hall ⟨a, l, b⟩ (by simp)
    rw [hlast, ih fun x hx => hall x (by simp [hx]), or_assoc]
    refine or_congr_right ?_
    simp only [List.mem_append, List.mem_singleton, or_and_right, exists_or, exists_eq_left]

/-- **Registers.** What a step sets to a value or leaves is, after a run, the value that the last of
these steps set it to. -/
theorem register_eq {α : Type} {f : σ → α} {sets : Step σ ι → Option α} {s : σ} {ls : List ι}
    (h : ∀ x ∈ M.steps s ls, f x.after = (sets x).getD (f x.before)) :
    f (M.run s ls) = (((M.steps s ls).filterMap sets).getLast?).getD (f s) := by
  refine run_induction (M := M)
    (P := fun hist t => (∀ x ∈ hist, f x.after = (sets x).getD (f x.before)) →
      f t = ((hist.filterMap sets).getLast?).getD (f s)) (fun _ => rfl) ?_ ls h
  intro hist a l b ih _ hall
  have hlast : f b = (sets ⟨a, l, b⟩).getD (f a) := hall ⟨a, l, b⟩ (by simp)
  have hbefore := ih fun x hx => hall x (by simp [hx])
  rw [List.filterMap_append, List.getLast?_append]
  cases hsets : sets ⟨a, l, b⟩ with
  | none => simpa [hsets, hbefore] using hlast
  | some value => simpa [hsets] using hlast

/-! ## Batches -/

section Batches

variable {α β : Type}

/-- **Batches.** A list that is cut into batches is taken in by one label for each of them, with what
is known of the part before. -/
theorem run_batches {label : β → ι} {items : β → List α} {R : List α → σ → Prop} {bs : List β}
    (h : ∀ b ∈ bs, ∀ done rest s, done ++ items b ++ rest = bs.flatMap items → R done s →
      ∃ t, M.step s (label b) = .ok t ∧ R (done ++ items b) t) {s : σ} (hs : R [] s) :
    R (bs.flatMap items) (M.run s (bs.map label)) := by
  generalize hall : bs.flatMap items = all at h
  suffices H : ∀ (cs : List β) (done : List α) (s : σ), (∀ b ∈ cs, b ∈ bs) →
      done ++ cs.flatMap items = all → R done s → R all (M.run s (cs.map label)) from
    H bs [] s (fun _ hb => hb) hall hs
  intro cs
  induction cs with
  | nil =>
    intro done s _ hdone hs
    rw [List.flatMap_nil, List.append_nil] at hdone
    rwa [← hdone]
  | cons b cs ih =>
    intro done s hcs hdone hs
    rw [List.forall_mem_cons] at hcs
    rw [List.flatMap_cons, ← List.append_assoc] at hdone
    obtain ⟨t, hstep, ht⟩ := h b hcs.1 done _ s hdone hs
    rw [List.map_cons, run_cons, exec_of_ok hstep]
    exact ih _ t hcs.2 hdone ht

end Batches

/-! ## Projections -/

section Projection

variable {τ : Type} {N : Machine τ ι ε} {f : σ → τ}

/-- The projection of a machine on another one, label by label. -/
theorem run_map (h : ∀ s l, (M.step s l).map f = N.step (f s) l) (s : σ) (ls : List ι) :
    N.run (f s) ls = f (M.run s ls) := by
  induction ls generalizing s with
  | nil => rfl
  | cons l ls ih =>
    have hstep := h s l
    cases hl : M.step s l with
    | ok t =>
      rw [hl] at hstep
      rw [run_cons, run_cons, exec_of_ok hl, exec_of_ok hstep.symm, ih]
    | error e =>
      rw [hl] at hstep
      rw [run_cons, run_cons, exec_of_error hl, exec_of_error hstep.symm, ih]

section Translation

variable {κ δ : Type} {N : Machine τ κ δ} {g : ι → κ} {I : σ → Prop} {s : σ} {ls : List ι}

/-- **Translations.** A machine that accepts the translations of the labels that this one accepts,
and refuses those of the others, takes the same steps, as long as an invariant is kept. -/
theorem run_translate
    (h : ∀ l ∈ ls, ∀ s, I s → (N.step (f s) (g l)).toOption = ((M.step s l).toOption).map f)
    (hI : ∀ s l t, I s → M.step s l = .ok t → I t) (hs : I s) :
    N.steps (f s) (ls.map g) = (M.steps s ls).map (Step.translate f g) ∧
      N.run (f s) (ls.map g) = f (M.run s ls) := by
  induction ls generalizing s with
  | nil => exact ⟨rfl, rfl⟩
  | cons l ls ih =>
    rw [List.forall_mem_cons] at h
    have hstep := h.1 s hs
    rw [List.map_cons, run_cons, run_cons]
    cases hl : M.step s l with
    | ok t =>
      cases hn : N.step (f s) (g l) with
      | ok t' =>
        rw [hl, hn] at hstep
        cases hstep
        obtain ⟨hsteps, hrun⟩ := ih h.2 (hI s l t hs hl)
        rw [steps_cons_of_ok hl, steps_cons_of_ok hn, exec_of_ok hl, exec_of_ok hn, hsteps]
        exact ⟨rfl, hrun⟩
      | error e =>
        rw [hl, hn] at hstep
        cases hstep
    | error e =>
      cases hn : N.step (f s) (g l) with
      | ok t' =>
        rw [hl, hn] at hstep
        cases hstep
      | error e' =>
        rw [steps_cons_of_error hl, steps_cons_of_error hn, exec_of_error hl, exec_of_error hn]
        exact ih h.2 hs

end Translation

end Projection

end Machine

end Foundation
