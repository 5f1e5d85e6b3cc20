import SafeCast.Keying.Ratchet

/-! # Identities and keys of an MLS group

In one epoch every member holds the same members and the same exporter. An identity is
`label:role`; the SSRC of a sender is a hash of its identity, and its SRTP key is exported
with the SSRC as context.
-/

namespace SafeCast

def asciiBytes (s : String) : Bytes := s.toList.map fun ch => UInt8.ofNat ch.toNat

def colon : UInt8 := 0x3A

/-- A leaf of the group tree: the serialized content of the credential and the signature key. -/
structure Member where
  credential : Bytes
  signatureKey : Bytes
  deriving DecidableEq, Repr

/-- What the client uses of an MLS group in one epoch. -/
structure MlsGroup where
  members : List Member
  /-- The MLS exporter: label, context and length. -/
  exportSecret : Bytes → Bytes → (n : ℕ) → ByteArr n

def srtpMasterKeyLabel : Bytes := asciiBytes "SRTP master key"

def srtpMasterSaltLabel : Bytes := asciiBytes "SRTP master salt"

def aes128GcmSaltLen : ℕ := 12

/-- The hash of the standard library's default hasher, cut to 32 bits. -/
def ssrcFromIdentity (hash : Bytes → UInt64) (identity : Bytes) : UInt32 := (hash identity).toUInt32

/-- The label and the role, split at the last colon; the code aborts if there is none. -/
def parseCredentialIdentity (identity : Bytes) : Option (Bytes × Bytes) :=
  match identity.reverse.dropWhile (· != colon) with
  | [] => none
  | _ :: label => some (label.reverse, (identity.reverse.takeWhile (· != colon)).reverse)

def buildExporterContext (ssrc : UInt32) : Bytes := Bytes.toBe 4 ssrc.toNat

namespace MlsGroup

variable (group : MlsGroup)

/-- The master key and salt for the SRTP stream of an SSRC. -/
def exportSrtpKeys (ssrc : UInt32) : KeySalt :=
  let context := buildExporterContext ssrc
  let masterKey := group.exportSecret srtpMasterKeyLabel context aes128GcmKeyLen
  let masterSalt := group.exportSecret srtpMasterSaltLabel context aes128GcmSaltLen
  ⟨masterKey.val ++ masterSalt.val, by
    rw [List.length_append, masterKey.length_val, masterSalt.length_val]
    rfl⟩

end MlsGroup

end SafeCast
