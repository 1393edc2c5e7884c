import Majutsu.Lib.Loops
import Majutsu.Repo.Basic

/-!
# The stored form of an object

An object is stored as it is, in an envelope of this program (a magic, a nonce
and a ciphertext under the master key), or as an age file. The reader does not
look at the configuration: it tells the three forms apart by their first bytes.

The ciphers are a parameter. They carry what is assumed of them: each opens what
it has sealed, opens nothing else, and makes its input longer; an age file opens
for the identities of its recipients only.
-/

namespace Majutsu.Repo

open Loops

def encMagic : Bytes := asciiBytes "MJENC1\n"

def ageMagic : Bytes := asciiBytes "age-encryption.org/v1"

inductive EncryptionMode where
  | none
  | age
  | chaCha20Poly1305
  deriving DecidableEq

namespace EncryptionMode

def parse (value : String) : Except String EncryptionMode :=
  if value = "" ∨ value = "none" then .ok .none
  else if value = "age" then .ok .age
  else if value = "chacha20poly1305" then .ok .chaCha20Poly1305
  else .error "security encryption must be none, age, or chacha20poly1305"

def enabled (mode : EncryptionMode) : Bool := mode ≠ .none

end EncryptionMode

structure Ciphers where
  Recipient : Type
  Identity : Type
  parseRecipient : String → Except String Recipient
  parseIdentity : String → Except String Identity
  toPublic : Identity → Recipient
  /-- Key, nonce and plaintext. -/
  encrypt : Bytes → Bytes → Bytes → Bytes
  decrypt : Bytes → Bytes → Bytes → Option Bytes
  /-- Recipients, randomness and plaintext. -/
  ageEncrypt : List Recipient → Bytes → Bytes → Bytes
  ageDecrypt : List Identity → Bytes → Except String Bytes
  decrypt_encrypt : ∀ key nonce bytes, decrypt key nonce (encrypt key nonce bytes) = some bytes
  authentic : ∀ {key nonce cipher bytes}, decrypt key nonce cipher = some bytes →
    cipher = encrypt key nonce bytes
  length_encrypt : ∀ key nonce bytes, (encrypt key nonce bytes).length = bytes.length + 16
  ageDecrypt_ageEncrypt : ∀ {recipients identities} seed bytes,
    (∃ identity ∈ identities, toPublic identity ∈ recipients) →
    ageDecrypt identities (ageEncrypt recipients seed bytes) = .ok bytes
  ageDecrypt_stranger : ∀ {recipients identities} seed bytes,
    recipients ≠ [] → (∀ identity ∈ identities, toPublic identity ∉ recipients) →
    ∃ err, ageDecrypt identities (ageEncrypt recipients seed bytes) = .error err
  ageMagic_ageEncrypt : ∀ recipients seed bytes, ageMagic <+: ageEncrypt recipients seed bytes
  ageDecrypt_shorter : ∀ {identities cipher bytes}, ageDecrypt identities cipher = .ok bytes →
    bytes.length < cipher.length

structure AgeKeyring where
  recipients : List String
  identities : List String

/-- What the codec reads under the home directory and from the environment. -/
structure Home where
  /-- `security.encryption`, when there is a configuration file. -/
  encryption : Option String
  /-- The variable `MAJUTSU_MASTER_KEY`. -/
  masterKeyVar : Option Text
  masterKeyPath : String
  masterKey : Option Text
  /-- The files that a key rotation leaves while it runs and after it. -/
  pendingKey : Option Text
  previousKey : Option Text
  /-- `keys/recipients.toml`, or an empty keyring when there is no such file. -/
  keyring : AgeKeyring

/-- What is drawn at random for one encryption. -/
structure Randomness where
  nonce : Bytes
  length_nonce : nonce.length = 12
  seed : Bytes

def validateKeyHex (hexKey : Text) : Except String Unit := do
  let bytes ← hexDecode (trim hexKey)
  if bytes.length ≠ 32 then .error "master key must be 32 bytes encoded as 64 hex characters"
  else .ok ()

def readMasterKeyFile (path : String) (file : Option Text) : Except String Text :=
  match file with
  | none => .error s!"missing master key: {path}"
  | some key => do
    validateKeyHex (trim key)
    .ok (trim key)

def readMasterKey (home : Home) : Except String Text :=
  match home.masterKeyVar with
  | some key => do
    validateKeyHex key
    .ok key
  | none => readMasterKeyFile home.masterKeyPath home.masterKey

namespace Ciphers

variable (C : Ciphers)

def readAgeRecipients (keyring : AgeKeyring) : Except String (List C.Recipient) :=
  keyring.recipients.mapM fun recipient =>
    (C.parseRecipient recipient).mapError fun err => s!"invalid age recipient {recipient}: {err}"

def readAgeIdentities (keyring : AgeKeyring) : Except String (List C.Identity) :=
  keyring.identities.mapM fun identity =>
    (C.parseIdentity identity).mapError fun err => s!"invalid age identity: {err}"

def encodeLegacyEnvelopeWithKeyHex (random : Randomness) (bytes : Bytes) (keyHex : Text) :
    Except String Bytes := do
  let key ← hexDecode (trim keyHex)
  .ok (encMagic ++ random.nonce ++ C.encrypt key random.nonce bytes)

def decodeLegacyEnvelopeWithKeyHex (bytes : Bytes) (keyHex : Text) : Except String Bytes :=
  if bytes.length < encMagic.length + 12 then .error "encrypted object is truncated"
  else do
    let nonce := (bytes.drop encMagic.length).take 12
    let ciphertext := bytes.drop (encMagic.length + 12)
    let key ← hexDecode (trim keyHex)
    match C.decrypt key nonce ciphertext with
    | some plaintext => .ok plaintext
    | none => .error "object decryption failed"

def encodeLegacyEnvelope (home : Home) (random : Randomness) (bytes : Bytes) :
    Except String Bytes := do
  C.encodeLegacyEnvelopeWithKeyHex random bytes (← readMasterKey home)

def decodeLegacyEnvelope (home : Home) (bytes : Bytes) : Except String Bytes := do
  C.decodeLegacyEnvelopeWithKeyHex bytes (← readMasterKey home)

def ageEncryptObject (home : Home) (random : Randomness) (bytes : Bytes) :
    Except String (Option Bytes) := do
  let recipients ← C.readAgeRecipients home.keyring
  if recipients.isEmpty then .ok none
  else .ok (some (C.ageEncrypt recipients random.seed bytes))

def ageDecryptObject (home : Home) (bytes : Bytes) : Except String Bytes := do
  let identities ← C.readAgeIdentities home.keyring
  if identities.isEmpty then
    .error "age encrypted object requires an identity in keys/recipients.toml"
  else C.ageDecrypt identities bytes

/-- `majutsu_crypto::encode_object`. -/
def encodeWith (home : Home) (random : Randomness) (bytes : Bytes) :
    EncryptionMode → Except String Bytes
  | .none => .ok bytes
  | .age => do
    match ← C.ageEncryptObject home random bytes with
    | some ciphertext => .ok ciphertext
    | none => C.encodeLegacyEnvelope home random bytes
  | .chaCha20Poly1305 => C.encodeLegacyEnvelope home random bytes

/-- `majutsu_crypto::decode_object`. -/
def decodeWith (home : Home) (bytes : Bytes) : Except String Bytes :=
  if ageMagic.isPrefixOf bytes then C.ageDecryptObject home bytes
  else if !encMagic.isPrefixOf bytes then .ok bytes
  else C.decodeLegacyEnvelope home bytes

/-- `majutsu_crypto::decode_object_with_master_key_hex`. -/
def decodeWithKeyHex (home : Home) (bytes : Bytes) (keyHex : Text) : Except String Bytes := do
  validateKeyHex keyHex
  if ageMagic.isPrefixOf bytes then C.ageDecryptObject home bytes
  else if !encMagic.isPrefixOf bytes then .ok bytes
  else C.decodeLegacyEnvelopeWithKeyHex bytes keyHex

def encodeObject (home : Home) (random : Randomness) (bytes : Bytes) : Except String Bytes :=
  match home.encryption with
  | none => .ok bytes
  | some encryption => do
    let mode ← EncryptionMode.parse encryption
    if mode.enabled then C.encodeWith home random bytes mode else .ok bytes

/-- One of the key files of a rotation; what cannot be read or does not open the object is passed over. -/
def decodeFallback (home : Home) (bytes : Bytes) (file : Option Text) : Option Bytes :=
  match readMasterKeyFile home.masterKeyPath file with
  | .error _ => none
  | .ok keyHex => (C.decodeWithKeyHex home bytes keyHex).toOption

def decodeObject (home : Home) (bytes : Bytes) : Except String Bytes :=
  match C.decodeWith home bytes with
  | .ok decoded => .ok decoded
  | .error first =>
    match C.decodeFallback home bytes home.pendingKey with
    | some decoded => .ok decoded
    | none =>
      match C.decodeFallback home bytes home.previousKey with
      | some decoded => .ok decoded
      | none => .error first

end Ciphers

def Home.mode (home : Home) : Except String EncryptionMode :=
  match home.encryption with
  | none => .ok .none
  | some encryption => EncryptionMode.parse encryption

/-- A home whose configuration, master key and keyring can all be read. -/
structure Security (C : Ciphers) (home : Home) where
  mode : EncryptionMode
  keyHex : Text
  recipients : List C.Recipient
  identities : List C.Identity
  mode_eq : home.mode = .ok mode
  key_eq : readMasterKey home = .ok keyHex
  recipients_eq : C.readAgeRecipients home.keyring = .ok recipients
  identities_eq : C.readAgeIdentities home.keyring = .ok identities

namespace Security

variable {C : Ciphers} {home : Home} (S : Security C home)

/-- Without encryption an object must not look like a sealed one, and an age file
needs an identity that it was made for. -/
def Recoverable (bytes : Bytes) : Prop :=
  match S.mode with
  | .none => ¬ encMagic <+: bytes ∧ ¬ ageMagic <+: bytes
  | .age => S.recipients = [] ∨ ∃ identity ∈ S.identities, C.toPublic identity ∈ S.recipients
  | .chaCha20Poly1305 => True

end Security

section Decoding

variable {C : Ciphers} {home : Home} {bytes plain : Bytes}

theorem hexDecode_of_validateKeyHex {keyHex : Text} (h : validateKeyHex keyHex = .ok ()) :
    ∃ key, hexDecode (trim keyHex) = .ok key := by
  cases hex : hexDecode (trim keyHex) with
  | ok key => exact ⟨key, rfl⟩
  | error err => simp [validateKeyHex, hex, bind, Except.bind] at h

theorem hexDecode_of_readMasterKey {keyHex : Text} (h : readMasterKey home = .ok keyHex) :
    ∃ key, hexDecode (trim keyHex) = .ok key := by
  unfold readMasterKey at h
  split at h
  · obtain ⟨_, valid, result⟩ := of_bind h
    cases result
    exact hexDecode_of_validateKeyHex valid
  · unfold readMasterKeyFile at h
    split at h
    · cases h
    · obtain ⟨_, valid, result⟩ := of_bind h
      cases result
      exact hexDecode_of_validateKeyHex valid

theorem not_ageMagic_of_encMagic (h : encMagic <+: bytes) : ¬ ageMagic <+: bytes := by
  intro age
  obtain ⟨rest, rfl⟩ := h
  obtain ⟨rest', eq⟩ := age
  have heads := congrArg List.head? eq
  simp [ageMagic, encMagic, asciiBytes] at heads

theorem decodeWith_of_plain (enc : ¬ encMagic <+: bytes) (age : ¬ ageMagic <+: bytes) :
    C.decodeWith home bytes = .ok bytes := by
  simp [Ciphers.decodeWith, enc, age]

theorem decodeWith_of_encMagic (enc : encMagic <+: bytes) :
    C.decodeWith home bytes = C.decodeLegacyEnvelope home bytes := by
  have found := List.isPrefixOf_iff_prefix.mpr enc
  simp [Ciphers.decodeWith, found, not_ageMagic_of_encMagic enc]

theorem decodeWith_of_ageMagic (age : ageMagic <+: bytes) :
    C.decodeWith home bytes = C.ageDecryptObject home bytes := by
  simp [Ciphers.decodeWith, age]

theorem decodeObject_of_decodeWith (h : C.decodeWith home bytes = .ok plain) :
    C.decodeObject home bytes = .ok plain := by
  simp [Ciphers.decodeObject, h]

end Decoding

/-- Ciphers that only pad: they show that the assumptions on ciphers can be met. -/
def padding : Ciphers where
  Recipient := Unit
  Identity := Unit
  parseRecipient _ := .ok ()
  parseIdentity _ := .ok ()
  toPublic := id
  encrypt _ _ bytes := bytes ++ List.replicate 16 0
  decrypt _ _ cipher :=
    if cipher = cipher.take (cipher.length - 16) ++ List.replicate 16 0 then
      some (cipher.take (cipher.length - 16))
    else none
  ageEncrypt _ _ bytes := ageMagic ++ bytes
  ageDecrypt identities cipher :=
    if ageMagic.isPrefixOf cipher ∧ identities ≠ [] then .ok (cipher.drop ageMagic.length)
    else .error "no age file"
  decrypt_encrypt _ _ bytes := by simp
  authentic h := by
    split at h
    · next eq => rw [← Option.some.inj h, ← eq]
    · cases h
  length_encrypt _ _ bytes := by simp
  ageDecrypt_ageEncrypt seed bytes own := by
    obtain ⟨identity, mem, -⟩ := own
    simp [List.ne_nil_of_mem mem]
  ageDecrypt_stranger seed bytes some strange := by
    refine ⟨_, if_neg (fun open_ => ?_)⟩
    obtain ⟨identity, mem⟩ := List.exists_mem_of_ne_nil _ open_.2
    obtain ⟨recipient, mem'⟩ := List.exists_mem_of_ne_nil _ some
    exact strange identity mem mem'
  ageMagic_ageEncrypt _ _ bytes := List.prefix_append _ _
  ageDecrypt_shorter h := by
    split at h
    · next age =>
      have length := (List.isPrefixOf_iff_prefix.mp age.1).length_le
      have positive : 0 < ageMagic.length := by decide
      rw [← Except.ok.inj h, List.length_drop]
      omega
    · cases h

/-- A home with a master key of zeros. -/
def zeroHome (encryption : String) : Home where
  encryption := some encryption
  masterKeyVar := none
  masterKeyPath := "keys/master.key"
  masterKey := some (List.replicate 64 '0' ++ ['\n'])
  pendingKey := none
  previousKey := none
  keyring := ⟨[], []⟩

def zeroRandomness : Randomness := ⟨List.replicate 12 0, rfl, []⟩

def zeroSecurity (encryption : String) (mode : EncryptionMode)
    (h : EncryptionMode.parse encryption = .ok mode) : Security padding (zeroHome encryption) where
  mode := mode
  keyHex := List.replicate 64 '0'
  recipients := []
  identities := []
  mode_eq := h
  key_eq := rfl
  recipients_eq := rfl
  identities_eq := rfl

section RoundTrip

variable {C : Ciphers} {home : Home} {bytes plain : Bytes} (random : Randomness)

theorem decodeLegacyEnvelopeWithKeyHex_append {keyHex : Text} {key : Bytes}
    (hex : hexDecode (trim keyHex) = .ok key) :
    C.decodeLegacyEnvelopeWithKeyHex
      (encMagic ++ random.nonce ++ C.encrypt key random.nonce bytes) keyHex = .ok bytes := by
  have nonce := random.length_nonce
  have long : ¬ (encMagic ++ random.nonce ++ C.encrypt key random.nonce bytes).length <
      encMagic.length + 12 := by
    simp only [List.length_append, nonce]
    omega
  have cipher : (encMagic ++ random.nonce ++ C.encrypt key random.nonce bytes).drop
      (encMagic.length + 12) = C.encrypt key random.nonce bytes := by
    apply List.drop_left'
    rw [List.length_append, nonce]
  have nonce_eq : ((encMagic ++ random.nonce ++ C.encrypt key random.nonce bytes).drop
      encMagic.length).take 12 = random.nonce := by
    rw [List.append_assoc, List.drop_left, List.take_left' nonce]
  simp only [Ciphers.decodeLegacyEnvelopeWithKeyHex, if_neg long, hex, bind, Except.bind, nonce_eq,
    cipher, C.decrypt_encrypt]

theorem decodeObject_of_legacy {keyHex : Text} (key_eq : readMasterKey home = .ok keyHex) :
    ∃ stored, C.encodeLegacyEnvelope home random bytes = .ok stored ∧
      C.decodeObject home stored = .ok bytes := by
  obtain ⟨key, hex⟩ := hexDecode_of_readMasterKey key_eq
  refine ⟨encMagic ++ random.nonce ++ C.encrypt key random.nonce bytes, ?_, ?_⟩
  · simp [Ciphers.encodeLegacyEnvelope, Ciphers.encodeLegacyEnvelopeWithKeyHex, key_eq, hex, bind,
      Except.bind]
  · apply decodeObject_of_decodeWith
    rw [decodeWith_of_encMagic ⟨_, (List.append_assoc ..).symm⟩]
    simp only [Ciphers.decodeLegacyEnvelope, key_eq, bind, Except.bind]
    exact decodeLegacyEnvelopeWithKeyHex_append random hex

theorem decodeObject_of_age (S : Security C home)
    (own : ∃ identity ∈ S.identities, C.toPublic identity ∈ S.recipients) :
    C.decodeObject home (C.ageEncrypt S.recipients random.seed bytes) = .ok bytes := by
  apply decodeObject_of_decodeWith
  rw [decodeWith_of_ageMagic (C.ageMagic_ageEncrypt ..)]
  have some_identity : S.identities.isEmpty = false := by
    obtain ⟨identity, member, -⟩ := own
    cases ids : S.identities with
    | nil => simp [ids] at member
    | cons head tail => rfl
  simp [Ciphers.ageDecryptObject, S.identities_eq, bind, Except.bind, some_identity,
    C.ageDecrypt_ageEncrypt _ _ own]

theorem encodeObject_eq (S : Security C home) :
    C.encodeObject home random bytes = C.encodeWith home random bytes S.mode := by
  have mode := S.mode_eq
  unfold Home.mode at mode
  unfold Ciphers.encodeObject
  cases config : home.encryption with
  | none =>
    simp only [config, Except.ok.injEq] at mode
    simp [← mode, Ciphers.encodeWith]
  | some encryption =>
    simp only [config] at mode
    simp only [mode, bind, Except.bind]
    cases S.mode with
    | none => simp [EncryptionMode.enabled, Ciphers.encodeWith]
    | age => simp [EncryptionMode.enabled]
    | chaCha20Poly1305 => simp [EncryptionMode.enabled]

theorem decodeLegacyEnvelopeWithKeyHex_shorter {keyHex : Text}
    (h : C.decodeLegacyEnvelopeWithKeyHex bytes keyHex = .ok plain) :
    plain.length < bytes.length := by
  unfold Ciphers.decodeLegacyEnvelopeWithKeyHex at h
  by_cases short : bytes.length < encMagic.length + 12
  · simp [short] at h
  · rw [if_neg short] at h
    obtain ⟨key, -, h⟩ := of_bind h
    split at h
    · next text opened =>
      have length := congrArg List.length (C.authentic opened)
      rw [C.length_encrypt, List.length_drop, Except.ok.inj h] at length
      omega
    · cases h

theorem ageDecryptObject_shorter (h : C.ageDecryptObject home bytes = .ok plain) :
    plain.length < bytes.length := by
  obtain ⟨identities, -, h⟩ := of_bind h
  split at h
  · cases h
  · exact C.ageDecrypt_shorter h

theorem decodeWith_shorter (sealed : encMagic <+: bytes ∨ ageMagic <+: bytes)
    (h : C.decodeWith home bytes = .ok plain) : plain.length < bytes.length := by
  rcases sealed with enc | age
  · rw [decodeWith_of_encMagic enc] at h
    obtain ⟨keyHex, -, h⟩ := of_bind h
    exact decodeLegacyEnvelopeWithKeyHex_shorter h
  · rw [decodeWith_of_ageMagic age] at h
    exact ageDecryptObject_shorter h

theorem decodeWithKeyHex_shorter {keyHex : Text} (sealed : encMagic <+: bytes ∨ ageMagic <+: bytes)
    (h : C.decodeWithKeyHex home bytes keyHex = .ok plain) : plain.length < bytes.length := by
  obtain ⟨_, -, h⟩ := of_bind h
  by_cases age : ageMagic.isPrefixOf bytes = true
  · rw [if_pos age] at h
    exact ageDecryptObject_shorter h
  · have enc : encMagic <+: bytes :=
      sealed.resolve_right (fun found => age (List.isPrefixOf_iff_prefix.mpr found))
    simp only [if_neg age, List.isPrefixOf_iff_prefix.mpr enc, Bool.not_true] at h
    exact decodeLegacyEnvelopeWithKeyHex_shorter h

theorem decodeFallback_shorter {file : Option Text}
    (sealed : encMagic <+: bytes ∨ ageMagic <+: bytes)
    (h : C.decodeFallback home bytes file = some plain) : plain.length < bytes.length := by
  unfold Ciphers.decodeFallback at h
  cases key : readMasterKeyFile home.masterKeyPath file with
  | error err => simp [key] at h
  | ok keyHex =>
    cases decoded : C.decodeWithKeyHex home bytes keyHex with
    | error err => simp [key, decoded, Except.toOption] at h
    | ok text =>
      have same : text = plain := by simpa [key, decoded, Except.toOption] using h
      exact same ▸ decodeWithKeyHex_shorter sealed decoded

/-- Whatever the keys, an object with a magic is read as something shorter, or not at all. -/
theorem decodeObject_shorter (sealed : encMagic <+: bytes ∨ ageMagic <+: bytes)
    (h : C.decodeObject home bytes = .ok plain) : plain.length < bytes.length := by
  unfold Ciphers.decodeObject at h
  cases first : C.decodeWith home bytes with
  | ok text =>
    have same : text = plain := by simpa [first] using h
    exact same ▸ decodeWith_shorter sealed first
  | error err =>
    cases pending : C.decodeFallback home bytes home.pendingKey with
    | some text =>
      have same : text = plain := by simpa [first, pending] using h
      exact same ▸ decodeFallback_shorter sealed pending
    | none =>
      cases previous : C.decodeFallback home bytes home.previousKey with
      | some text =>
        have same : text = plain := by simpa [first, pending, previous] using h
        exact same ▸ decodeFallback_shorter sealed previous
      | none => simp [first, pending, previous] at h

theorem ageDecryptObject_stranger (bytes : Bytes) (S : Security C home) (some : S.recipients ≠ [])
    (strange : ∀ identity ∈ S.identities, C.toPublic identity ∉ S.recipients) :
    ∃ err, C.ageDecryptObject home (C.ageEncrypt S.recipients random.seed bytes) = .error err := by
  unfold Ciphers.ageDecryptObject
  simp only [S.identities_eq, bind, Except.bind]
  split
  · exact ⟨_, rfl⟩
  · exact C.ageDecrypt_stranger _ _ some strange

theorem decodeFallback_of_age {err : String} (age : ageMagic <+: bytes) (file : Option Text)
    (fails : C.ageDecryptObject home bytes = .error err) :
    C.decodeFallback home bytes file = none := by
  unfold Ciphers.decodeFallback
  cases readMasterKeyFile home.masterKeyPath file with
  | error _ => rfl
  | ok keyHex =>
    cases valid : validateKeyHex keyHex with
    | error _ => simp [Ciphers.decodeWithKeyHex, valid, bind, Except.bind, Except.toOption]
    | ok _ =>
      simp [Ciphers.decodeWithKeyHex, valid, bind, Except.bind, age, fails, Except.toOption]

theorem decodeObject_stranger (S : Security C home) (some : S.recipients ≠ [])
    (strange : ∀ identity ∈ S.identities, C.toPublic identity ∉ S.recipients) :
    C.decodeObject home (C.ageEncrypt S.recipients random.seed bytes) ≠ .ok plain := by
  have age := C.ageMagic_ageEncrypt S.recipients random.seed bytes
  obtain ⟨err, fails⟩ := ageDecryptObject_stranger random bytes S some strange
  have first := (decodeWith_of_ageMagic age).trans fails
  simp [Ciphers.decodeObject, first, decodeFallback_of_age age _ fails]

/-- What is stored is read back exactly when it is recoverable. -/
theorem decodeObject_encodeObject_iff (S : Security C home) :
    (∃ stored, C.encodeObject home random bytes = .ok stored ∧
      C.decodeObject home stored = .ok bytes) ↔ S.Recoverable bytes := by
  rw [encodeObject_eq random S, Security.Recoverable]
  cases mode : S.mode with
  | none =>
    simp only [Ciphers.encodeWith, Except.ok.injEq, exists_eq_left']
    constructor
    · intro decoded
      constructor
      · intro enc
        exact absurd (decodeObject_shorter (Or.inl enc) decoded) (Nat.lt_irrefl _)
      · intro age
        exact absurd (decodeObject_shorter (Or.inr age) decoded) (Nat.lt_irrefl _)
    · rintro ⟨enc, age⟩
      exact decodeObject_of_decodeWith (decodeWith_of_plain enc age)
  | chaCha20Poly1305 => exact iff_of_true (decodeObject_of_legacy random S.key_eq) trivial
  | age =>
    by_cases empty : S.recipients = []
    · -- an empty keyring falls back to the envelope
      have encoded : C.encodeWith home random bytes .age = C.encodeLegacyEnvelope home random bytes := by
        simp [Ciphers.encodeWith, Ciphers.ageEncryptObject, S.recipients_eq, empty, bind, Except.bind]
      rw [encoded]
      exact iff_of_true (decodeObject_of_legacy random S.key_eq) (Or.inl empty)
    · have encoded : C.encodeWith home random bytes .age =
          .ok (C.ageEncrypt S.recipients random.seed bytes) := by
        simp [Ciphers.encodeWith, Ciphers.ageEncryptObject, S.recipients_eq, empty, bind, Except.bind]
      simp only [encoded, Except.ok.injEq, exists_eq_left', empty, false_or]
      constructor
      · intro decoded
        by_contra strange
        push Not at strange
        exact decodeObject_stranger random S empty strange decoded
      · exact decodeObject_of_age random S

end RoundTrip

theorem decodeObject_encodeObject_lookalike :
    encMagic <+: encMagic ∧
    ∃ stored,
      padding.encodeObject (zeroHome "chacha20poly1305") zeroRandomness encMagic = .ok stored ∧
      padding.decodeObject (zeroHome "chacha20poly1305") stored = .ok encMagic :=
  ⟨List.prefix_rfl, (decodeObject_encodeObject_iff zeroRandomness
    (zeroSecurity "chacha20poly1305" .chaCha20Poly1305 rfl)).mpr trivial⟩

theorem decodeObject_encodeObject_unsealed :
    padding.encodeObject (zeroHome "none") zeroRandomness encMagic = .ok encMagic ∧
    padding.decodeObject (zeroHome "none") encMagic = .error "encrypted object is truncated" := by
  exact ⟨rfl, rfl⟩

end Majutsu.Repo
