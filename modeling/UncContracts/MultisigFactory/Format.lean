import UncContracts.Multisig.Contract
import UncContracts.MultisigFactory.Contract

/-!
# The format of the members

The multisig factory and the multisig each declare the members of a multisig. The factory
represents a member by the fields of its variant, and the multisig reads members by the tags of
their variants.

## Main definitions

* `Multisig.MultisigMember.toJson`, `Multisig.MultisigMember.ofJson`: the multisig's own
  representation of a member, and how it reads one
* `Multisig.newArguments`: how the multisig reads the arguments of its `new`

## Main results

* `Multisig.ofJson_toJson`: the multisig reads its own representation
* `newArguments_createArguments`: what the factory passes is read exactly if it has no members
-/

namespace UncContracts

open Foundation

/-! ## The multisig's own format -/

namespace Multisig

variable (parsePublicKey : String → Option PublicKey)

/-- The JSON value of a member: its tag, with the fields of its variant. -/
def MultisigMember.toJson : MultisigMember → Json
  | accessKey publicKey =>
    .externallyTagged "AccessKey" (.object [("public_key", .string publicKey)])
  | account accountId => .externallyTagged "Account" (.object [("account_id", .string accountId)])

/-- The variants of a member by their tags, with the readers of their fields. -/
def memberVariants : List (String × (Json → Option MultisigMember)) :=
  [("AccessKey", fun content =>
      (content.decodeField "public_key" (Json.decodeString parsePublicKey)).map .accessKey),
    ("Account", fun content =>
      (content.decodeField "account_id" (Json.decodeString parseAccountId)).map .account)]

/-- Reads a member by the tag of its variant. -/
def MultisigMember.ofJson : Json → Option MultisigMember :=
  Json.decodeTagged (memberVariants parsePublicKey)

/-- The arguments of `new`, read from their JSON value. -/
def newArguments : Json → Option (List MultisigMember × ℕ) :=
  Json.decodePair "members" "num_confirmations"
    (Json.decodeList (MultisigMember.ofJson parsePublicKey)) (Json.decodeNat u32Max)

variable {parsePublicKey}

/-- The key or account id of a member is the text of one. -/
def MultisigMember.IsParsed (parsePublicKey : String → Option PublicKey) : MultisigMember → Prop
  | accessKey publicKey => parsePublicKey publicKey = some publicKey
  | account accountId => parseAccountId accountId = some accountId

/-- The multisig reads a member that it represents. -/
theorem ofJson_toJson {member : MultisigMember} (h : member.IsParsed parsePublicKey) :
    MultisigMember.ofJson parsePublicKey member.toJson = some member := by
  cases member with
  | accessKey publicKey =>
    refine (Json.decodeTagged_externallyTagged rfl _).trans ?_
    rw [Json.decodeField_object, Json.decodeString, h]
    rfl
  | account accountId =>
    refine (Json.decodeTagged_externallyTagged rfl _).trans ?_
    rw [Json.decodeField_object, Json.decodeString, h]
    rfl

/-- The multisig reads the arguments of `new` with members that it represents itself. -/
theorem newArguments_toJson {members : List MultisigMember} {k : ℕ}
    (h : ∀ member ∈ members, member.IsParsed parsePublicKey) (hk : k ≤ u32Max) :
    newArguments parsePublicKey (.object [("members", .array (members.map MultisigMember.toJson)),
      ("num_confirmations", .number k 0)]) = some (members, k) := by
  rw [newArguments, Json.decodePair_object (by decide),
    Json.decodeList_map fun member hmem => ofJson_toJson (h member hmem),
    Json.decodeNat_ofNat.mpr hk]
  rfl

end Multisig

/-! ## What the factory passes -/

namespace MultisigFactory

variable {parsePublicKey : String → Option PublicKey}

/-- The same member, as the multisig declares it. -/
def MultisigMember.toMultisig : MultisigMember → Multisig.MultisigMember
  | accessKey publicKey => .accessKey publicKey
  | account accountId => .account accountId

/-- The multisig reads no member of the factory: the only key of its object is no tag. -/
theorem ofJson_toJson_eq_none (member : MultisigMember) :
    Multisig.MultisigMember.ofJson parsePublicKey member.toJson = none := by
  have hkey : ∃ key content, member.toJson = .object [(key, content)] ∧
      key ≠ "AccessKey" ∧ key ≠ "Account" := by
    cases member with
    | accessKey publicKey => exact ⟨_, _, rfl, by decide, by decide⟩
    | account accountId => exact ⟨_, _, rfl, by decide, by decide⟩
  obtain ⟨key, content, hjson, haccessKey, haccount⟩ := hkey
  rw [hjson]
  apply Json.decodeTagged_of_notMem
  intro v hv
  rcases List.mem_cons.mp hv with rfl | hv
  · exact haccessKey.symm
  · rcases List.mem_singleton.mp hv with rfl
    exact haccount.symm

/-- **The formats differ.** The multisig reads the arguments that the factory passes, with the same
members and the same number, exactly if there are no members, for a number that fits. -/
theorem newArguments_createArguments (parsePublicKey : String → Option PublicKey)
    (members : List MultisigMember) (k : ℕ) :
    Multisig.newArguments parsePublicKey (createArguments members k) =
        some (members.map MultisigMember.toMultisig, k) ↔ members = [] ∧ k ≤ u32Max := by
  rw [createArguments, Multisig.newArguments, Json.decodePair_object (by decide)]
  cases members with
  | nil =>
    rw [List.map_nil, Json.decodeList_nil]
    constructor
    · intro h
      obtain ⟨n, hn, hpair⟩ := Option.map_eq_some_iff.mp h
      obtain ⟨-, rfl⟩ := Prod.mk.inj hpair
      exact ⟨rfl, Json.decodeNat_ofNat.mp hn⟩
    · rintro ⟨-, hk⟩
      rw [Json.decodeNat_ofNat.mpr hk]
      rfl
  | cons member members =>
    rw [List.map_cons, Json.decodeList_cons_of_none (ofJson_toJson_eq_none member)]
    constructor
    · intro h
      cases h
    · rintro ⟨h, -⟩
      cases h

/-- A single account, with one confirmation required. -/
theorem not_newArguments_createArguments : ¬ ∀ parsePublicKey members k, k ≤ u32Max →
    Multisig.newArguments parsePublicKey (createArguments members k) =
      some (members.map MultisigMember.toMultisig, k) := by
  intro h
  have hread := h some [.account "wick"] 1 (by decide)
  cases hread

end MultisigFactory

end UncContracts
