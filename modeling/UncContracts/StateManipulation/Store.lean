import UncContracts.StateManipulation.Contract

/-!
# What the state becomes

Over whole runs each key of the state has the value that was written there last. So a state can be
exchanged for another one in batches, however large they are: its keys are cleaned, and the entries of
the other one are put in their place.

## Main definitions

* `lastValue`: the value that some entries give to a key
* `Call.written`: what a call writes at a key

## Main results

* `lookup_of_step`: what a step does to a key
* `last_write_counts`: after a run each key has the value that was written last
* `state_exchanged`: a state is exchanged for another one in batches
-/

namespace UncContracts.StateManipulation

open Foundation

/-- The value that some entries give to a key: the last one counts. -/
def lastValue (entries : List (Bytes × Bytes)) (key : Bytes) : Option Bytes :=
  ((entries.filter fun entry => entry.1 = key).getLast?).map Prod.snd

/-- The entries that are given in base64. -/
def readEntries (texts : List (String × String)) : Option (List (Bytes × Bytes)) :=
  texts.mapM fun text => (decodeBase64 text.1).bind fun key =>
    (decodeBase64 text.2).map fun value => (key, value)

/-- What a call writes at a key, where `none` inside is for a removal. -/
def Call.written : Call → Bytes → Option (Option Bytes)
  | .replace input, key => ((input.bind decodeReplaceInput).bind readEntries).bind fun entries =>
    (lastValue entries key).map some
  | .clean input, key => ((input.bind decodeCleanInput).bind (·.mapM decodeBase64)).bind fun keys =>
    if key ∈ keys then some none else none

section Steps

variable {s t : Storage} {call : Call} {key : Bytes}

theorem readEntries_encode (entries : List (Bytes × Bytes)) :
    readEntries (entries.map encodeEntry) = some entries := by
  induction entries with
  | nil => rfl
  | cons entry entries ih =>
    have hkey : decodeBase64 (encodeBase64 entry.1) = some entry.1 := decodeBase64_eq_some.mpr rfl
    have hvalue : decodeBase64 (encodeBase64 entry.2) = some entry.2 := decodeBase64_eq_some.mpr rfl
    rw [readEntries, List.map_cons, List.mapM_cons, ← readEntries, ih, encodeEntry, hkey, hvalue]
    rfl

theorem mapM_decodeBase64 (keys : List Bytes) :
    (keys.map encodeBase64).mapM decodeBase64 = some keys := by
  induction keys with
  | nil => rfl
  | cons key keys ih =>
    have hkey : decodeBase64 (encodeBase64 key) = some key := decodeBase64_eq_some.mpr rfl
    rw [List.map_cons, List.mapM_cons, ih, hkey]
    rfl

theorem lookup_writes (entries : List (Bytes × Bytes)) :
    (s.writes entries).lookup key = (lastValue entries key).or (s.lookup key) := by
  induction entries generalizing s with
  | nil => rfl
  | cons entry entries ih =>
    have hlast : lastValue (entry :: entries) key =
        (lastValue entries key).or (if entry.1 = key then some entry.2 else none) := by
      by_cases hkey : entry.1 = key
      · simp [lastValue, hkey, List.getLast?_cons]
      · simp [lastValue, hkey]
    rw [Storage.writes, List.foldl_cons, ← Storage.writes, ih, hlast, Option.or_assoc, storageWrite]
    congr 1
    by_cases hkey : entry.1 = key
    · rw [if_pos hkey, ← hkey, AList.lookup_insert, Option.some_or]
    · rw [if_neg hkey, AList.lookup_insert_ne (Ne.symm hkey), Option.none_or]

theorem lookup_removes (keys : List Bytes) :
    (s.removes keys).lookup key = if key ∈ keys then none else s.lookup key := by
  induction keys generalizing s with
  | nil => rfl
  | cons key' keys ih =>
    rw [Storage.removes, List.foldl_cons, ← Storage.removes, ih, storageRemove]
    by_cases hkey : key = key'
    · subst hkey
      rw [AList.lookup_erase, ite_self, if_pos List.mem_cons_self]
    · rw [AList.lookup_erase_ne hkey]
      simp only [List.mem_cons, hkey, false_or]

/-- **A step** writes what its call gives to a key, and leaves the other keys. -/
theorem lookup_of_step (h : stateManipulation.step s call = .ok t) :
    t.lookup key = (call.written key).getD (s.lookup key) := by
  cases call with
  | replace input =>
    obtain ⟨entries, hinput, rfl⟩ := replace_eq_ok.mp h
    rw [lookup_writes, Call.written, hinput, Option.bind_some, readEntries_encode, Option.bind_some]
    cases lastValue entries key <;> rfl
  | clean input =>
    obtain ⟨keys, hinput, rfl⟩ := clean_eq_ok.mp h
    rw [lookup_removes, Call.written, hinput, Option.bind_some, mapM_decodeBase64, Option.bind_some]
    split <;> rfl

end Steps

/-- **The last write counts.** After every run a key of the state has the value that the accepted
calls wrote there last, and the value from the start if none of them wrote there. -/
theorem last_write_counts (s : Storage) (calls : List Call) (key : Bytes) :
    (stateManipulation.run s calls).lookup key =
      (((stateManipulation.steps s calls).filterMap fun x => x.label.written key).getLast?).getD
        (s.lookup key) :=
  Machine.register_eq (f := fun s : Storage => s.lookup key)
    fun _ hx => lookup_of_step (Machine.step_of_mem hx)

/-! ## Exchanging a state -/

/-- The call that writes some entries. -/
def replaceCall (entries : List (Bytes × Bytes)) : Call := .replace (some (encodeReplaceInput entries))

/-- The call that removes some keys. -/
def cleanCall (keys : List Bytes) : Call := .clean (some (encodeCleanInput keys))

section Batches

variable {s : Storage} {key value : Bytes}

theorem step_replaceCall (s : Storage) (entries : List (Bytes × Bytes)) :
    stateManipulation.step s (replaceCall entries) = .ok (s.writes entries) :=
  replace_eq_ok.mpr ⟨entries, decodeReplaceInput_encode entries, rfl⟩

theorem step_cleanCall (s : Storage) (keys : List Bytes) :
    stateManipulation.step s (cleanCall keys) = .ok (s.removes keys) :=
  clean_eq_ok.mpr ⟨keys, decodeCleanInput_encode keys, rfl⟩

/-- Entries are written batch by batch. -/
theorem run_replaceCalls (s : Storage) (batches : List (List (Bytes × Bytes))) :
    stateManipulation.run s (batches.map replaceCall) = s.writes batches.flatten := by
  induction batches generalizing s with
  | nil => rfl
  | cons batch batches ih =>
    rw [List.map_cons, Machine.run_cons, Machine.exec_of_ok (step_replaceCall s batch), ih,
      List.flatten_cons, Storage.writes, Storage.writes, Storage.writes, List.foldl_append]

/-- Keys are removed batch by batch. -/
theorem run_cleanCalls (s : Storage) (batches : List (List Bytes)) :
    stateManipulation.run s (batches.map cleanCall) = s.removes batches.flatten := by
  induction batches generalizing s with
  | nil => rfl
  | cons batch batches ih =>
    rw [List.map_cons, Machine.run_cons, Machine.exec_of_ok (step_cleanCall s batch), ih,
      List.flatten_cons, Storage.removes, Storage.removes, Storage.removes, List.foldl_append]

/-- With different keys the entries are what is written. -/
theorem lastValue_eq_some {entries : List (Bytes × Bytes)} (h : (entries.map Prod.fst).Nodup) :
    lastValue entries key = some value ↔ (key, value) ∈ entries := by
  induction entries with
  | nil => simp [lastValue]
  | cons entry entries ih =>
    rw [List.map_cons, List.nodup_cons] at h
    by_cases hkey : entry.1 = key
    · have hfilter : (entries.filter fun e => e.1 = key) = [] := by
        refine List.filter_eq_nil_iff.mpr ?_
        intro e he heq
        exact h.1 (List.mem_map.mpr ⟨e, he, (of_decide_eq_true heq).trans hkey.symm⟩)
      have hmem : (key, value) ∉ entries := fun hmem =>
        h.1 (List.mem_map.mpr ⟨_, hmem, hkey.symm⟩)
      obtain ⟨k, v⟩ := entry
      obtain rfl : k = key := hkey
      have hlast : lastValue ((k, v) :: entries) k = some v := by
        simp only [lastValue, List.filter_cons, decide_true, if_true, hfilter]
        rfl
      rw [hlast, List.mem_cons, or_iff_left hmem, Option.some.injEq, Prod.mk.injEq, eq_comm]
      exact (and_iff_right rfl).symm
    · have hne : (key, value) ≠ entry := by
        rintro rfl
        exact hkey rfl
      rw [List.mem_cons, or_iff_right hne, ← ih h.2]
      simp [lastValue, hkey]

theorem lookup_exchanged (batches : List (List Bytes)) (batches' : List (List (Bytes × Bytes)))
    (h : ∀ key ∈ s, key ∈ batches.flatten) :
    (stateManipulation.run s (batches.map cleanCall ++ batches'.map replaceCall)).lookup key =
      lastValue batches'.flatten key := by
  rw [Machine.run_append, run_cleanCalls, run_replaceCalls, lookup_writes, lookup_removes]
  have hnone : (if key ∈ batches.flatten then none else s.lookup key) = none := by
    split
    · rfl
    · next hkey => exact AList.lookup_eq_none.mpr fun hmem => hkey (h key hmem)
  rw [hnone, Option.or_none]

end Batches

/-- **Exchanging a state.** From every state, cleaning its keys in any batches and then replacing the
entries of another state in any batches, all of which is accepted, leaves exactly that other state.
Cleaning its keys leaves nothing. -/
theorem state_exchanged (s : Storage) (batches : List (List Bytes))
    (batches' : List (List (Bytes × Bytes))) (h : ∀ key ∈ s, key ∈ batches.flatten)
    (h' : (batches'.flatten.map Prod.fst).Nodup) :
    let calls := batches.map cleanCall ++ batches'.map replaceCall
    let calls' := batches'.map fun batch => cleanCall (batch.map Prod.fst)
    ((stateManipulation.steps s (calls ++ calls')).map fun x => x.label) = calls ++ calls' ∧
      (∀ key value, (stateManipulation.run s calls).lookup key = some value ↔
        (key, value) ∈ batches'.flatten) ∧
      ∀ key, key ∉ stateManipulation.run s (calls ++ calls') := by
  intro calls calls'
  have hclean : calls' = (batches'.map fun batch => batch.map Prod.fst).map cleanCall := by
    rw [List.map_map]
    rfl
  refine ⟨Machine.map_label_steps ?_ s, fun key value => ?_, fun key hkey => ?_⟩
  · -- No call depends on the state.
    intro call hcall u
    rw [hclean, List.mem_append, List.mem_append] at hcall
    rcases hcall with (hcall | hcall) | hcall
    · obtain ⟨batch, -, rfl⟩ := List.mem_map.mp hcall
      exact ⟨_, step_cleanCall u batch⟩
    · obtain ⟨batch, -, rfl⟩ := List.mem_map.mp hcall
      exact ⟨_, step_replaceCall u batch⟩
    · obtain ⟨batch, -, rfl⟩ := List.mem_map.mp hcall
      exact ⟨_, step_cleanCall u batch⟩
  · rw [lookup_exchanged batches batches' h, lastValue_eq_some h']
  · obtain ⟨value, hvalue⟩ := Option.isSome_iff_exists.mp (AList.lookup_isSome.mpr hkey)
    rw [Machine.run_append, hclean, run_cleanCalls, lookup_removes,
      lookup_exchanged batches batches' h, ← List.map_flatten] at hvalue
    split at hvalue
    · cases hvalue
    · next hnot => exact hnot (List.mem_map_of_mem (f := Prod.fst) ((lastValue_eq_some h').mp hvalue))

/-! ## The state item -/

/-- The bytes of `STATE`. -/
def sampleKey : Bytes := [83, 84, 65, 84, 69]

/-- The bytes of `test`. -/
def sampleBytes : Bytes := [116, 101, 115, 116]

example : encodeEntry (sampleKey, sampleBytes) = ("U1RBVEU=", "dGVzdA==") := by decide +kernel

/-- The state of a contract with one item is exchanged for another one, and cleaned. -/
theorem state_exchanged_sampleKey :
    let s : Storage := AList.singleton sampleKey [1, 2, 3]
    let calls := [[sampleKey]].map cleanCall ++ [[(sampleKey, sampleBytes)]].map replaceCall
    let calls' := [[(sampleKey, sampleBytes)]].map fun batch => cleanCall (batch.map Prod.fst)
    ((stateManipulation.steps s (calls ++ calls')).map fun x => x.label) = calls ++ calls' ∧
      (∀ key value, (stateManipulation.run s calls).lookup key = some value ↔
        (key, value) ∈ [[(sampleKey, sampleBytes)]].flatten) ∧
      ∀ key, key ∉ stateManipulation.run s (calls ++ calls') :=
  state_exchanged _ _ _ (by decide) (by decide)

end UncContracts.StateManipulation
