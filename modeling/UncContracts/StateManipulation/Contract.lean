import UncContracts.Foundation.Base64
import UncContracts.Foundation.Holdings
import UncContracts.Foundation.Machine
import UncContracts.Foundation.Panic
import UncContracts.Sdk.JsonText

/-!
# The state manipulation contract

Deployed to an account that has the state of another contract, it writes and removes entries of that
state. Keys and values are bytes, which the calls give in base64, in strings that are borrowed from the
text of the input. A call whose input is not understood panics, and with it nothing is written.

## Main definitions

* `Storage`: the state of an account
* `replace`, `clean`: the methods
* `stateManipulation`: the contract as a machine over calls

## Main results

* `replace_eq_ok`, `clean_eq_ok`: which calls are accepted, and what they do
* `replace_of_escaped`, `clean_of_escaped`: a string with an escape is not understood
* `decodeReplaceInput_encode`, `decodeCleanInput_encode`: what is encoded is read back
-/

namespace UncContracts.StateManipulation

open Foundation

abbrev Bytes := List UInt8

/-- The state of an account. -/
abbrev Storage := Map Bytes Bytes

/-- The panic handler of the contract has no message. -/
def UNREACHABLE : String := "unreachable"

/-! ## Inputs -/

/-- `base64::decode`. -/
def decodeBase64 (s : String) : Option Bytes := Base64.decode s.toList

/-- `base64::encode`. -/
def encodeBase64 (bytes : Bytes) : String := String.ofList (Base64.encode bytes)

/-- A tuple of two strings. -/
def decodeEntry : JsonText → Option (String × String)
  | .array [key, value] =>
    (JsonText.decodeStr key).bind fun key => (JsonText.decodeStr value).map fun value => (key, value)
  | _ => none

/-- `ReplaceInput`. -/
def decodeReplaceInput : JsonText → Option (List (String × String)) :=
  JsonText.decodeField "entries" (JsonText.decodeList decodeEntry)

/-- `CleanInput`. -/
def decodeCleanInput : JsonText → Option (List String) :=
  JsonText.decodeField "keys" (JsonText.decodeList JsonText.decodeStr)

/-! ## Methods -/

/-- Writes a key and a value into storage. -/
def storageWrite (s : Storage) (key value : Bytes) : Storage := s.insert key value

/-- Removes storage at a given key. -/
def storageRemove (s : Storage) (key : Bytes) : Storage := s.erase key

/-- Writes entries, one after the other. There is no input where the text is not JSON. -/
def replace (s : Storage) (input : Option JsonText) : Exec Storage := do
  let input ← expect input UNREACHABLE
  let entries ← expect (decodeReplaceInput input) UNREACHABLE
  entries.foldlM (fun s entry => do
    let key ← expect (decodeBase64 entry.1) UNREACHABLE
    let value ← expect (decodeBase64 entry.2) UNREACHABLE
    return storageWrite s key value) s

/-- Removes keys, one after the other. -/
def clean (s : Storage) (input : Option JsonText) : Exec Storage := do
  let input ← expect input UNREACHABLE
  let keys ← expect (decodeCleanInput input) UNREACHABLE
  keys.foldlM (fun s key => do
    let key ← expect (decodeBase64 key) UNREACHABLE
    return storageRemove s key) s

/-- A call of a method, with its input. -/
inductive Call
  | replace (input : Option JsonText)
  | clean (input : Option JsonText)
  deriving Repr

/-- The contract, built with both of its features, as a machine over calls. -/
def stateManipulation : Machine Storage Call String where
  step s
    | .replace input => replace s input
    | .clean input => clean s input

/-! ## What is accepted -/

/-- An entry in base64. -/
def encodeEntry (entry : Bytes × Bytes) : String × String :=
  (encodeBase64 entry.1, encodeBase64 entry.2)

/-- The storage after some entries are written. -/
def Storage.writes (s : Storage) (entries : List (Bytes × Bytes)) : Storage :=
  entries.foldl (fun s entry => storageWrite s entry.1 entry.2) s

/-- The storage after some keys are removed. -/
def Storage.removes (s : Storage) (keys : List Bytes) : Storage := keys.foldl storageRemove s

section Specs

variable {s t : Storage} {input : Option JsonText} {text : String} {bytes : Bytes}

/-- Bytes have one text. -/
theorem decodeBase64_eq_some : decodeBase64 text = some bytes ↔ encodeBase64 bytes = text := by
  constructor
  · intro h
    rw [encodeBase64, Base64.encode_of_decode h, String.ofList_toList]
  · rintro rfl
    rw [decodeBase64, encodeBase64, String.toList_ofList, Base64.decode_encode]

/-- Entries are written if they are in base64. -/
theorem foldlM_write_eq_ok {entries : List (String × String)} :
    entries.foldlM (fun s entry => do
      let key ← expect (decodeBase64 entry.1) UNREACHABLE
      let value ← expect (decodeBase64 entry.2) UNREACHABLE
      return storageWrite s key value) s = .ok t ↔
      ∃ es, entries = es.map encodeEntry ∧ t = Storage.writes s es := by
  induction entries generalizing s with
  | nil =>
    rw [List.foldlM_nil, pure_eq_ok]
    constructor
    · rintro rfl
      exact ⟨[], rfl, rfl⟩
    · rintro ⟨es, hes, rfl⟩
      obtain rfl := List.map_eq_nil_iff.mp hes.symm
      rfl
  | cons entry entries ih =>
    simp only [List.foldlM_cons, bind_eq_ok, expect_eq_ok, pure_eq_ok, decodeBase64_eq_some, ih]
    constructor
    · rintro ⟨_, ⟨key, hkey, value, hvalue, rfl⟩, es, rfl, rfl⟩
      refine ⟨(key, value) :: es, ?_, rfl⟩
      rw [List.map_cons, encodeEntry, hkey, hvalue]
    · rintro ⟨es, hes, rfl⟩
      obtain ⟨e, es, rfl, rfl, rfl⟩ := List.map_eq_cons_iff.mp hes.symm
      exact ⟨_, ⟨e.1, rfl, e.2, rfl, rfl⟩, es, rfl, rfl⟩

/-- Keys are removed if they are in base64. -/
theorem foldlM_remove_eq_ok {keys : List String} :
    keys.foldlM (fun s key => do
      let key ← expect (decodeBase64 key) UNREACHABLE
      return storageRemove s key) s = .ok t ↔
      ∃ ks, keys = ks.map encodeBase64 ∧ t = Storage.removes s ks := by
  induction keys generalizing s with
  | nil =>
    rw [List.foldlM_nil, pure_eq_ok]
    constructor
    · rintro rfl
      exact ⟨[], rfl, rfl⟩
    · rintro ⟨ks, hks, rfl⟩
      obtain rfl := List.map_eq_nil_iff.mp hks.symm
      rfl
  | cons key keys ih =>
    simp only [List.foldlM_cons, bind_eq_ok, expect_eq_ok, pure_eq_ok, decodeBase64_eq_some, ih]
    constructor
    · rintro ⟨_, ⟨k, hk, rfl⟩, ks, rfl, rfl⟩
      exact ⟨k :: ks, by rw [List.map_cons, hk], rfl⟩
    · rintro ⟨ks, hks, rfl⟩
      obtain ⟨k, ks, rfl, rfl, rfl⟩ := List.map_eq_cons_iff.mp hks.symm
      exact ⟨_, ⟨k, rfl, rfl⟩, ks, rfl, rfl⟩

/-- **Replacing** is accepted for entries in base64, and writes them in their order. -/
theorem replace_eq_ok : replace s input = .ok t ↔
    ∃ es, input.bind decodeReplaceInput = some (es.map encodeEntry) ∧ t = Storage.writes s es := by
  simp only [replace, bind_eq_ok, expect_eq_ok, foldlM_write_eq_ok, Option.bind_eq_some_iff]
  constructor
  · rintro ⟨j, hj, _, hentries, es, rfl, rfl⟩
    exact ⟨es, ⟨j, hj, hentries⟩, rfl⟩
  · rintro ⟨es, ⟨j, hj, hentries⟩, rfl⟩
    exact ⟨j, hj, _, hentries, es, rfl, rfl⟩

/-- **Cleaning** is accepted for keys in base64, and removes them. -/
theorem clean_eq_ok : clean s input = .ok t ↔
    ∃ ks, input.bind decodeCleanInput = some (ks.map encodeBase64) ∧ t = Storage.removes s ks := by
  simp only [clean, bind_eq_ok, expect_eq_ok, foldlM_remove_eq_ok, Option.bind_eq_some_iff]
  constructor
  · rintro ⟨j, hj, _, hkeys, ks, rfl, rfl⟩
    exact ⟨ks, ⟨j, hj, hkeys⟩, rfl⟩
  · rintro ⟨ks, ⟨j, hj, hkeys⟩, rfl⟩
    exact ⟨j, hj, _, hkeys, ks, rfl, rfl⟩

end Specs

/-! ## Inputs with escapes -/

section Escapes

variable {s : Storage} {letters letters' : List Letter} {letter : Letter}

theorem decodeEntry_of_escaped (h : letter ∈ letters ++ letters') (hescaped : letter.escaped = true) :
    decodeEntry (.array [.string letters, .string letters']) = none := by
  rw [decodeEntry, JsonText.decodeStr, JsonText.decodeStr]
  rcases List.mem_append.mp h with h | h
  · rw [JsonText.borrow_eq_none h hescaped, Option.bind_none]
  · rw [JsonText.borrow_eq_none h hescaped]
    cases JsonText.borrow letters <;> rfl

/-- **Replacing with an escape** in a key or in a value panics. -/
theorem replace_of_escaped {entries : List JsonText}
    (hentry : .array [.string letters, .string letters'] ∈ entries)
    (h : letter ∈ letters ++ letters') (hescaped : letter.escaped = true) :
    replace s (some (.object [(JsonText.spell "entries", .array entries)])) = .error UNREACHABLE := by
  have hnone := JsonText.decodeList_eq_none hentry (decodeEntry_of_escaped h hescaped)
  rw [replace, decodeReplaceInput, expect, ok_bind, JsonText.decodeField_object, hnone]
  rfl

/-- **Cleaning with an escape** in a key panics. -/
theorem clean_of_escaped {keys : List JsonText} (hkey : .string letters ∈ keys)
    (h : letter ∈ letters) (hescaped : letter.escaped = true) :
    clean s (some (.object [(JsonText.spell "keys", .array keys)])) = .error UNREACHABLE := by
  have hstring : JsonText.decodeStr (.string letters) = none := JsonText.borrow_eq_none h hescaped
  have hnone := JsonText.decodeList_eq_none hkey hstring
  rw [clean, decodeCleanInput, expect, ok_bind, JsonText.decodeField_object, hnone]
  rfl

end Escapes

/-! ## Inputs that are encoded -/

/-- A string with bytes in base64. -/
def encodeStr (bytes : Bytes) : JsonText := .string (JsonText.spell (encodeBase64 bytes))

/-- The input with some entries. -/
def encodeReplaceInput (entries : List (Bytes × Bytes)) : JsonText :=
  .object [(JsonText.spell "entries", .array (entries.map fun entry =>
    .array [encodeStr entry.1, encodeStr entry.2]))]

/-- The input with some keys. -/
def encodeCleanInput (keys : List Bytes) : JsonText :=
  .object [(JsonText.spell "keys", .array (keys.map encodeStr))]

/-- No character of base64 is escaped. -/
theorem decodeStr_encodeStr (bytes : Bytes) :
    JsonText.decodeStr (encodeStr bytes) = some (encodeBase64 bytes) := by
  refine JsonText.borrow_spell fun c hc => ?_
  have hdigits : ∀ n < 64, StandsForItself (Base64.digit n) := by decide +kernel
  rw [encodeBase64, String.toList_ofList] at hc
  rcases Base64.digit_or_pad_of_mem_encode hc with rfl | ⟨n, hn, rfl⟩
  · decide
  · exact hdigits n hn

theorem decodeReplaceInput_encode (entries : List (Bytes × Bytes)) :
    decodeReplaceInput (encodeReplaceInput entries) = some (entries.map encodeEntry) := by
  rw [decodeReplaceInput, encodeReplaceInput, JsonText.decodeField_object]
  refine JsonText.decodeList_map fun entry _ => ?_
  rw [decodeEntry, decodeStr_encodeStr, decodeStr_encodeStr]
  rfl

theorem decodeCleanInput_encode (keys : List Bytes) :
    decodeCleanInput (encodeCleanInput keys) = some (keys.map encodeBase64) := by
  rw [decodeCleanInput, encodeCleanInput, JsonText.decodeField_object]
  exact JsonText.decodeList_map fun key _ => decodeStr_encodeStr key

end UncContracts.StateManipulation
