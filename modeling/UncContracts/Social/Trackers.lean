import UncContracts.Foundation.Holdings
import UncContracts.Social.Settling

/-!
# Storage trackers

Any number of trackers that start, stop and consume each other, whatever the storage usage is when they
do. What a tracker measures in a window, from a start to the next stop, is an increase or a decrease. A
tracker that consumes another one takes over what that one has added and released. But what it has
released itself is replaced, and is in no tracker after.

## Main definitions

* `Trackers.machine`: the trackers under their operations
* `Trackers.measured`: the readings around the windows of a run
* `Trackers.LosesNothing`: the trackers have what was measured
* `Trackers.lost`: the released bytes that a run replaces

## Main results

* `Trackers.added_run`: the added bytes are the increases
* `Trackers.released_run`: the released bytes are the decreases, less what is lost
* `Trackers.losesNothing_iff`: when nothing is lost
-/

namespace UncContracts.Social

open Foundation

/-- The storage trackers by their ids. A tracker is new when it is first used. -/
abbrev Trackers (ι : Type) := Map ι StorageTracker

namespace Trackers

/-- An operation on trackers, with the storage usage that it reads. -/
inductive Operation (ι : Type)
  | start (id : ι) (storageUsage : ℕ)
  | stop (id : ι) (storageUsage : ℕ)
  /-- Both trackers are borrowed to change them, so that they are different ones. -/
  | consume (receiver other : ι) (hne : receiver ≠ other)

variable {ι : Type} [DecidableEq ι]

def tracker (s : Trackers ι) (id : ι) : StorageTracker := (s.lookup id).getD {}

def step (s : Trackers ι) : Operation ι → Exec (Trackers ι)
  | .start id storageUsage => do
    let tracker ← (s.tracker id).start storageUsage
    return s.insert id tracker
  | .stop id storageUsage => do
    let tracker ← (s.tracker id).stop storageUsage
    return s.insert id tracker
  | .consume receiver other _ => do
    let consumed ← (s.tracker receiver).consume (s.tracker other)
    return (s.insert receiver consumed.1).insert other consumed.2

/-- The trackers under their operations. An operation that panics changes nothing. -/
def machine (ι : Type) [DecidableEq ι] : Machine (Trackers ι) (Operation ι) String := ⟨step⟩

/-! ## What is measured -/

/-- The readings around each window, where some windows are open at first. -/
def windows (opened : ι → Option ℕ) : List (Operation ι) → List (ℕ × ℕ)
  | [] => []
  | .start id storageUsage :: ops =>
    windows (Function.update opened id (some storageUsage)) ops
  | .stop id storageUsage :: ops =>
    ((opened id).map fun initial => (initial, storageUsage)).toList ++
      windows (Function.update opened id none) ops
  | .consume _ _ _ :: ops => windows opened ops

/-- The readings around the windows of new trackers, for the operations that do not panic. -/
def measured (ops : List (Operation ι)) : List (ℕ × ℕ) :=
  windows (fun _ => none) (((machine ι).steps ∅ ops).map Step.label)

def increase (window : ℕ × ℕ) : ℕ := window.2 - window.1

def decrease (window : ℕ × ℕ) : ℕ := window.1 - window.2

/-- After operations on new trackers, the trackers have what was measured. A tracker that consumes
another one gets all bytes of that one in addition to its own. -/
structure LosesNothing (ops : List (Operation ι)) : Prop where
  added : ((machine ι).run ∅ ops).total StorageTracker.bytesAdded = ((measured ops).map increase).sum
  released : ((machine ι).run ∅ ops).total StorageTracker.bytesReleased =
    ((measured ops).map decrease).sum
  moves : ∀ x ∈ (machine ι).steps ∅ ops, ∀ receiver other hne, x.label = .consume receiver other hne →
    (x.after.tracker receiver).bytesAdded =
        (x.before.tracker receiver).bytesAdded + (x.before.tracker other).bytesAdded ∧
      (x.after.tracker receiver).bytesReleased =
        (x.before.tracker receiver).bytesReleased + (x.before.tracker other).bytesReleased ∧
      (x.after.tracker other).bytesAdded = 0 ∧ (x.after.tracker other).bytesReleased = 0

/-- The window that an operation closes. -/
def Operation.closed (s : Trackers ι) : Operation ι → List (ℕ × ℕ)
  | .stop id storageUsage =>
    ((s.tracker id).initialStorageUsage.map fun initial => (initial, storageUsage)).toList
  | _ => []

/-- The released bytes that an operation replaces. -/
def Operation.replaced (s : Trackers ι) : Operation ι → ℕ
  | .consume receiver _ _ => (s.tracker receiver).bytesReleased
  | _ => 0

/-- The released bytes that a run replaces. -/
def lost (ops : List (Operation ι)) : ℕ :=
  (((machine ι).steps ∅ ops).map fun x => x.label.replaced x.before).sum

/-! ## Operations -/

variable {s s' : Trackers ι} {id : ι} {t : StorageTracker} {op : Operation ι} {ops : List (Operation ι)}

@[simp] theorem tracker_insert_self (s : Trackers ι) (id : ι) (t : StorageTracker) :
    tracker (s.insert id t) id = t := by
  rw [tracker, AList.lookup_insert, Option.getD_some]

theorem tracker_insert_of_ne {id' : ι} (h : id' ≠ id) (s : Trackers ι) (t : StorageTracker) :
    tracker (s.insert id t) id' = s.tracker id' := by
  rw [tracker, AList.lookup_insert_ne h, tracker]

/-- What one tracker changes of a total. -/
theorem total_insert_add {f : StorageTracker → ℕ} (hf : f {} = 0) (s : Trackers ι) (id : ι)
    (t : StorageTracker) :
    Map.total f (s.insert id t) + f (s.tracker id) = Map.total f s + f t := by
  have hamount : Map.amount f s id = f (s.tracker id) := by
    unfold Map.amount tracker
    cases s.lookup id with
    | none => exact hf.symm
    | some t => rfl
  rw [← hamount]
  exact Map.total_insert f s id t

/-- What two trackers change of a total. -/
theorem total_insert_insert {f : StorageTracker → ℕ} (hf : f {} = 0) {receiver other : ι}
    (hne : receiver ≠ other) (s : Trackers ι) (t u : StorageTracker) :
    Map.total f ((s.insert receiver t).insert other u) + f (s.tracker receiver) + f (s.tracker other) =
      Map.total f s + f t + f u := by
  have hreceiver := total_insert_add hf s receiver t
  have hother := total_insert_add hf (s.insert receiver t) other u
  rw [tracker_insert_of_ne (Ne.symm hne)] at hother
  omega

/-- What an operation does. -/
theorem step_cases (h : (machine ι).step s op = .ok s') :
    (∃ id usage, op = .start id usage ∧ (s.tracker id).initialStorageUsage = none ∧
      s' = s.insert id { s.tracker id with initialStorageUsage := some usage }) ∨
    (∃ id usage initial, op = .stop id usage ∧ (s.tracker id).initialStorageUsage = some initial ∧
      s' = s.insert id { bytesAdded := (s.tracker id).bytesAdded + (usage - initial)
                         bytesReleased := (s.tracker id).bytesReleased + (initial - usage) }) ∨
    ∃ receiver other hne, op = .consume receiver other hne ∧
      (s.tracker other).initialStorageUsage = none ∧
      s' = (s.insert receiver { s.tracker receiver with
          bytesAdded := (s.tracker receiver).bytesAdded + (s.tracker other).bytesAdded
          bytesReleased := (s.tracker other).bytesReleased }).insert other {} := by
  have h : step s op = .ok s' := h
  cases op with
  | start id usage =>
    obtain ⟨t, hstart, hs⟩ := bind_eq_ok.mp h
    obtain ⟨hnone, rfl⟩ := StorageTracker.start_spec hstart
    exact .inl ⟨id, usage, rfl, hnone, (pure_eq_ok.mp hs).symm⟩
  | stop id usage =>
    obtain ⟨t, hstop, hs⟩ := bind_eq_ok.mp h
    obtain ⟨initial, hinitial, rfl⟩ := StorageTracker.stop_spec hstop
    exact .inr (.inl ⟨id, usage, initial, rfl, hinitial, (pure_eq_ok.mp hs).symm⟩)
  | consume receiver other hne =>
    obtain ⟨p, hconsume, hs⟩ := bind_eq_ok.mp h
    obtain ⟨hnone, rfl⟩ := StorageTracker.consume_spec hconsume
    exact .inr (.inr ⟨receiver, other, hne, rfl, hnone, (pure_eq_ok.mp hs).symm⟩)

/-- What the trackers have after one of them consumes another one. -/
theorem tracker_of_consume {receiver other : ι} {hne : receiver ≠ other}
    (h : (machine ι).step s (.consume receiver other hne) = .ok s') :
    s'.tracker receiver = { s.tracker receiver with
        bytesAdded := (s.tracker receiver).bytesAdded + (s.tracker other).bytesAdded
        bytesReleased := (s.tracker other).bytesReleased } ∧
      s'.tracker other = {} := by
  rcases step_cases h with ⟨_, _, ⟨⟩, -⟩ | ⟨_, _, _, ⟨⟩, -⟩ | ⟨_, _, _, ⟨⟩, -, rfl⟩
  rw [tracker_insert_of_ne hne, tracker_insert_self, tracker_insert_self]
  exact ⟨rfl, rfl⟩

/-- An operation adds the increase of the window that it closes, and releases the decrease. What it
replaces is gone. -/
theorem total_step (h : (machine ι).step s op = .ok s') :
    s'.total StorageTracker.bytesAdded =
        s.total StorageTracker.bytesAdded + ((op.closed s).map increase).sum ∧
      s'.total StorageTracker.bytesReleased + op.replaced s =
        s.total StorageTracker.bytesReleased + ((op.closed s).map decrease).sum := by
  rcases step_cases h with ⟨id, usage, rfl, -, rfl⟩ | ⟨id, usage, initial, rfl, hinitial, rfl⟩ |
    ⟨receiver, other, hne, rfl, -, rfl⟩
  · simp only [Operation.closed, Operation.replaced, List.map_nil, List.sum_nil]
    have hadded := total_insert_add (f := StorageTracker.bytesAdded) rfl s id
      { s.tracker id with initialStorageUsage := some usage }
    have hreleased := total_insert_add (f := StorageTracker.bytesReleased) rfl s id
      { s.tracker id with initialStorageUsage := some usage }
    exact ⟨Nat.add_right_cancel hadded, Nat.add_right_cancel hreleased⟩
  · simp only [Operation.closed, Operation.replaced, hinitial, Option.map_some, Option.toList_some,
      List.map_cons, List.map_nil, List.sum_cons, List.sum_nil, increase, decrease]
    have hadded := total_insert_add (f := StorageTracker.bytesAdded) rfl s id
      { bytesAdded := (s.tracker id).bytesAdded + (usage - initial)
        bytesReleased := (s.tracker id).bytesReleased + (initial - usage) }
    have hreleased := total_insert_add (f := StorageTracker.bytesReleased) rfl s id
      { bytesAdded := (s.tracker id).bytesAdded + (usage - initial)
        bytesReleased := (s.tracker id).bytesReleased + (initial - usage) }
    dsimp only at hadded hreleased
    omega
  · simp only [Operation.closed, Operation.replaced, List.map_nil, List.sum_nil]
    -- Both totals lose what the other tracker had, and gain it at the receiver.
    have hadded := total_insert_insert (f := StorageTracker.bytesAdded) rfl hne s
      { s.tracker receiver with
        bytesAdded := (s.tracker receiver).bytesAdded + (s.tracker other).bytesAdded
        bytesReleased := (s.tracker other).bytesReleased } {}
    have hreleased := total_insert_insert (f := StorageTracker.bytesReleased) rfl hne s
      { s.tracker receiver with
        bytesAdded := (s.tracker receiver).bytesAdded + (s.tracker other).bytesAdded
        bytesReleased := (s.tracker other).bytesReleased } {}
    dsimp only at hadded hreleased
    omega

/-! ## Windows -/

/-- A window is open where a tracker is tracking. -/
def OpenedIn (opened : ι → Option ℕ) (s : Trackers ι) : Prop :=
  ∀ id, opened id = (s.tracker id).initialStorageUsage

theorem openedIn_insert {opened : ι → Option ℕ} (h : OpenedIn opened s) (id : ι) (t : StorageTracker) :
    OpenedIn (Function.update opened id t.initialStorageUsage) (s.insert id t) := by
  intro id'
  rcases eq_or_ne id' id with rfl | hne
  · rw [Function.update_self, tracker_insert_self]
  · rw [Function.update_of_ne hne, tracker_insert_of_ne hne, h id']

/-- An operation that does not panic closes the window that is open. -/
theorem windows_cons {opened : ι → Option ℕ} (hopens : OpenedIn opened s)
    (h : (machine ι).step s op = .ok s') : ∃ opened', OpenedIn opened' s' ∧
      ∀ ops, windows opened (op :: ops) = op.closed s ++ windows opened' ops := by
  rcases step_cases h with ⟨id, usage, rfl, -, rfl⟩ | ⟨id, usage, initial, rfl, hinitial, rfl⟩ |
    ⟨receiver, other, hne, rfl, hnone, rfl⟩
  · exact ⟨_, openedIn_insert hopens id _, fun ops => rfl⟩
  · refine ⟨_, openedIn_insert hopens id _, fun ops => ?_⟩
    rw [windows, hopens id, Operation.closed]
  · refine ⟨_, openedIn_insert (openedIn_insert hopens receiver _) other _, fun ops => ?_⟩
    have hreceiver : Function.update opened receiver (s.tracker receiver).initialStorageUsage =
        opened := by
      rw [← hopens receiver, Function.update_eq_self]
    have hother : Function.update opened other none = opened := by
      rw [← hnone, ← hopens other, Function.update_eq_self]
    simp only [windows, Operation.closed, List.nil_append, hreceiver, hother]

/-- The windows of a run are those that its steps close. -/
theorem windows_steps {opened : ι → Option ℕ} (hopens : OpenedIn opened s) (ops : List (Operation ι)) :
    windows opened (((machine ι).steps s ops).map Step.label) =
      ((machine ι).steps s ops).flatMap fun x => x.label.closed x.before := by
  induction ops generalizing s opened with
  | nil => rfl
  | cons op ops ih =>
    cases hstep : (machine ι).step s op with
    | error msg =>
      rw [Machine.steps_cons_of_error hstep]
      exact ih hopens
    | ok s' =>
      obtain ⟨opened', hopens', hwindows⟩ := windows_cons hopens hstep
      rw [Machine.steps_cons_of_ok hstep, List.map_cons, hwindows, ih hopens', List.flatMap_cons]

theorem sum_measured (measure : ℕ × ℕ → ℕ) (ops : List (Operation ι)) :
    ((measured ops).map measure).sum =
      (((machine ι).steps ∅ ops).map fun x => ((x.label.closed x.before).map measure).sum).sum := by
  have hopens : OpenedIn (fun _ => none) (∅ : Trackers ι) := fun _ => rfl
  rw [measured, windows_steps hopens, List.map_flatMap, List.flatMap_def, List.sum_flatten,
    List.map_map]
  rfl

/-! ## Runs -/

/-- **The added bytes** in the trackers are the increases that were measured. -/
theorem added_run (ops : List (Operation ι)) :
    ((machine ι).run ∅ ops).total StorageTracker.bytesAdded = ((measured ops).map increase).sum := by
  have hrun := Machine.potential_eq (M := machine ι) (Map.total StorageTracker.bytesAdded)
    (fun x => ((x.label.closed x.before).map increase).sum) (fun _ => 0)
    (fun x hx => (total_step hx).1) ∅ ops
  rw [sum_measured]
  simpa using hrun

/-- **The released bytes** in the trackers are the decreases that were measured, less what is lost. -/
theorem released_run (ops : List (Operation ι)) :
    ((machine ι).run ∅ ops).total StorageTracker.bytesReleased + lost ops =
      ((measured ops).map decrease).sum := by
  have hrun := Machine.potential_eq (M := machine ι) (Map.total StorageTracker.bytesReleased)
    (fun x => ((x.label.closed x.before).map decrease).sum) (fun x => x.label.replaced x.before)
    (fun x hx => (total_step hx).2) ∅ ops
  rw [sum_measured]
  simpa [lost] using hrun

theorem lost_eq_zero : lost ops = 0 ↔ ∀ x ∈ (machine ι).steps ∅ ops, ∀ receiver other hne,
    x.label = .consume receiver other hne → (x.before.tracker receiver).bytesReleased = 0 := by
  rw [lost, List.sum_eq_zero_iff_forall_eq_nat, List.forall_mem_map]
  refine forall₂_congr fun x hx => ⟨?_, fun h => ?_⟩
  · intro hzero receiver other hne hlabel
    rw [hlabel] at hzero
    exact hzero
  · cases hlabel : x.label with
    | start id usage => rfl
    | stop id usage => rfl
    | consume receiver other hne => exact h receiver other hne hlabel

/-- **When trackers lose nothing.** All bytes that were measured are in the trackers if and only if each
tracker that consumes another one has released nothing itself. -/
theorem losesNothing_iff (ops : List (Operation ι)) :
    LosesNothing ops ↔ ∀ x ∈ (machine ι).steps ∅ ops, ∀ receiver other hne,
      x.label = .consume receiver other hne → (x.before.tracker receiver).bytesReleased = 0 := by
  rw [← lost_eq_zero]
  constructor
  · intro h
    have hreleased := released_run ops
    rw [h.released] at hreleased
    omega
  · intro hlost
    refine ⟨added_run ops, ?_, ?_⟩
    · have hreleased := released_run ops
      rw [hlost] at hreleased
      exact hreleased
    · intro x hx receiver other hne hlabel
      have hzero : (x.before.tracker receiver).bytesReleased = 0 :=
        lost_eq_zero.mp hlost x hx receiver other hne hlabel
      obtain ⟨hreceiver, hother⟩ := tracker_of_consume (hlabel ▸ Machine.step_of_mem hx)
      rw [hreceiver, hother, hzero, Nat.zero_add]
      exact ⟨rfl, rfl, rfl, rfl⟩

/-- A tracker has released bytes when it consumes another one, which has none. -/
def sampleMerge : List (Operation ℕ) :=
  [.start 0 10, .stop 0 4, .start 1 5, .stop 1 5, .consume 0 1 Nat.zero_ne_one]

/-- Six bytes were released, and no tracker has them in the end. -/
theorem not_losesNothing : ¬ ∀ ops : List (Operation ℕ), LosesNothing ops := by
  intro h
  have hreleased := (h sampleMerge).released
  revert hreleased
  decide +kernel

end Trackers

end UncContracts.Social
