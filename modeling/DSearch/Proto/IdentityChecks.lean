import DSearch.Proto.Identity

/-! # What `load_or_generate_identity` keeps and what it returns

The key of a directory with all three files is loaded; with one of them missing it is replaced, also
after an import, which brings only two. What is loaded is consistent, apart from the certificate: the
stored one is returned as it is if the TLS key is the one that belongs to the signing key. -/

namespace DSearch
set_option autoImplicit false
open Files

namespace Cert
variable (lib : CertLib)

/-- A new identity can be made and saved. -/
def SavesNew (env : IdentityEnv) : Prop :=
  Writable env ∧ ∃ identity, generateIdentity lib env.generated = .ok identity

theorem generateIdentity_eq_ok {generated : SigningKey} {identity : Identity}
    (h : generateIdentity lib generated = .ok identity) :
    identity.signingKey = generated ∧
      identity.nodeId = nodeIdFromPubkey lib (lib.verifyingKey generated) ∧
      makeCertAndKey lib generated (nodeIdFromPubkey lib (lib.verifyingKey generated)) =
        .ok (identity.cert, identity.tlsKey) := by
  unfold generateIdentity at h
  dsimp only at h
  split at h
  · cases h
  · next hmake =>
    obtain rfl := Except.ok.inj h
    exact ⟨rfl, rfl, hmake⟩

/-- With a file missing the call fails, or returns a new identity and has written it. -/
theorem loadOrGenerateIdentity_incomplete {env : IdentityEnv} {files : IdentityFiles}
    (hmissing : ¬ (files.key.exists && files.crt.exists && files.tls.exists) = true) :
    (¬ SavesNew lib env ∧ ∃ left e, loadOrGenerateIdentity lib env files = (left, .error e)) ∨
    (SavesNew lib env ∧ ∃ identity, generateIdentity lib env.generated = .ok identity ∧
      loadOrGenerateIdentity lib env files = (⟨.bytes env.generated.toList, .bytes identity.cert,
        .bytes identity.tlsKey⟩, .ok identity)) := by
  unfold loadOrGenerateIdentity SavesNew
  rw [if_neg hmissing]
  cases hnew : generateIdentity lib env.generated with
  | error e => exact .inl ⟨by simp, _, _, rfl⟩
  | ok identity =>
    obtain ⟨hkey, -, -⟩ := generateIdentity_eq_ok lib hnew
    obtain ⟨hwritable, hsave⟩ | ⟨hfails, left, e, hsave⟩ :=
      saveIdentity_cases env files identity.signingKey identity.cert identity.tlsKey
    · rw [hkey] at hsave
      refine .inr ⟨⟨hwritable, identity, rfl⟩, identity, rfl, ?_⟩
      dsimp only
      rw [hkey, hsave]
    · refine .inl ⟨fun h => hfails h.1, left, e, ?_⟩
      dsimp only
      rw [hsave]

/-! ## The stored key -/

/-- A call that succeeds returns the stored key and leaves its file as it is. -/
def KeepsKey (files : IdentityFiles) (stored : SigningKey)
    (out : IdentityFiles × Except CertError Identity) : Prop :=
  ∀ identity, out.2 = .ok identity → identity.signingKey = stored ∧ out.1.key = files.key

theorem toList_injective {k k' : SigningKey} (h : k.toList = k'.toList) : k = k' :=
  Vector.toList_inj.mp h

theorem keepsKey_loadIdentity {env : IdentityEnv} {files : IdentityFiles} {stored : SigningKey}
    (hkey : files.key = .bytes stored.toList) : KeepsKey files stored (loadIdentity lib env files) := by
  intro identity hidentity
  obtain ⟨left, e, hrun⟩ | ⟨found, cert, tls, made, rfl, hmake, hrun⟩ |
    ⟨found, made, newKey, left, hfound, hmake, hleft, hrun⟩ := loadIdentity_cases lib env files
  · rw [hrun] at hidentity
    cases hidentity
  · rw [hrun] at hidentity ⊢
    obtain rfl := Except.ok.inj hidentity
    exact ⟨toList_injective (StoredFile.bytes.inj hkey), rfl⟩
  · rw [hrun] at hidentity ⊢
    obtain rfl := Except.ok.inj hidentity
    exact ⟨toList_injective (StoredFile.bytes.inj (hfound.symm.trans hkey)), hleft⟩

/-- A stored key of 32 bytes is kept exactly if the other two files exist as well, or no new identity
can be saved, or the new key is the stored one. -/
theorem load_keeps_key_iff (env : IdentityEnv) (files : IdentityFiles) (stored : SigningKey)
    (hkey : files.key = .bytes stored.toList) :
    KeepsKey files stored (loadOrGenerateIdentity lib env files) ↔
      (files.crt.exists = true ∧ files.tls.exists = true) ∨ ¬ SavesNew lib env ∨
        env.generated = stored := by
  have hexists : files.key.exists = true := by rw [hkey]; rfl
  by_cases hall : (files.key.exists && files.crt.exists && files.tls.exists) = true
  · have hload : loadOrGenerateIdentity lib env files = loadIdentity lib env files := if_pos hall
    rw [hload, hexists, Bool.true_and, Bool.and_eq_true] at *
    exact ⟨fun _ => .inl hall, fun _ => keepsKey_loadIdentity lib hkey⟩
  · have hincomplete : ¬ (files.crt.exists = true ∧ files.tls.exists = true) := by
      rintro ⟨hcrt, htls⟩
      rw [hexists, hcrt, htls] at hall
      exact hall rfl
    rw [or_iff_right hincomplete]
    obtain ⟨hfails, left, e, hrun⟩ | ⟨hsaves, identity, hnew, hrun⟩ :=
      loadOrGenerateIdentity_incomplete lib hall
    · rw [hrun]
      refine ⟨fun _ => .inl hfails, fun _ identity hidentity => ?_⟩
      cases hidentity
    · rw [hrun, or_iff_right (not_not.mpr hsaves)]
      obtain ⟨hgenerated, -, -⟩ := generateIdentity_eq_ok lib hnew
      constructor
      · intro hkeeps
        obtain ⟨hsame, -⟩ := hkeeps identity rfl
        rw [← hgenerated, hsame]
      · rintro rfl found hfound
        obtain rfl := Except.ok.inj hfound
        exact ⟨hgenerated, hkey.symm⟩

/-! ## The returned parts -/

/-- The Ed25519 key that a certificate carries. -/
def certPubkey (certDer : Bytes) : Option (Vector UInt8 32) :=
  match lib.fromDer certDer with
  | .error _ => none
  | .ok cert => extractEd25519Pubkey cert

/-- The certificate is one for the key and its node id, and the TLS key is the key. -/
structure Consistent (identity : Identity) : Prop where
  nodeId : identity.nodeId = nodeIdFromPubkey lib (lib.verifyingKey identity.signingKey)
  pubkey : certPubkey lib identity.cert = some (lib.verifyingKey identity.signingKey)
  verified : verifyDsearchCert lib identity.cert = .ok ()
  tlsKey : lib.toPkcs8Der identity.signingKey = .ok identity.tlsKey

/-- What is assumed of `rcgen`: the certificates that it makes pass the check and carry the key, and a
key pair is given out as the text it was read from. -/
structure Lawful : Prop where
  made_verified : ∀ (key : SigningKey) (cert tls : Bytes),
    makeCertAndKey lib key (nodeIdFromPubkey lib (lib.verifyingKey key)) = .ok (cert, tls) →
      verifyDsearchCert lib cert = .ok ()
  made_pubkey : ∀ (key : SigningKey) (cert tls : Bytes),
    makeCertAndKey lib key (nodeIdFromPubkey lib (lib.verifyingKey key)) = .ok (cert, tls) →
      certPubkey lib cert = some (lib.verifyingKey key)
  serializeDer_fromPkcs8Der : ∀ (der : Bytes) (keyPair : lib.KeyPair),
    lib.fromPkcs8Der der = .ok keyPair → lib.serializeDer keyPair = der

variable {lib}

theorem Lawful.made_tlsKey (h : Lawful lib) {key : SigningKey} {nodeId : String} {cert tls : Bytes}
    (hmake : makeCertAndKey lib key nodeId = .ok (cert, tls)) : lib.toPkcs8Der key = .ok tls := by
  unfold makeCertAndKey at hmake
  cases hpkcs8 : lib.toPkcs8Der key with
  | error e => simp [hpkcs8] at hmake
  | ok der =>
    cases hpair : lib.fromPkcs8Der der with
    | error e => simp [hpkcs8, hpair] at hmake
    | ok keyPair =>
      cases huri : lib.ia5String nodeId with
      | error e => simp [hpkcs8, hpair, huri] at hmake
      | ok uri =>
        cases hself : lib.selfSigned ⟨"dsearch", uri⟩ keyPair with
        | error e => simp [hpkcs8, hpair, huri, hself] at hmake
        | ok cert' =>
          simp only [hpkcs8, hpair, huri, hself, Except.ok.injEq, Prod.mk.injEq] at hmake
          rw [← hmake.2, h.serializeDer_fromPkcs8Der der keyPair hpair]

theorem Lawful.consistent_made (h : Lawful lib) {key : SigningKey} {cert tls : Bytes}
    (hmake : makeCertAndKey lib key (nodeIdFromPubkey lib (lib.verifyingKey key)) = .ok (cert, tls)) :
    Consistent lib ⟨key, nodeIdFromPubkey lib (lib.verifyingKey key), cert, tls⟩ :=
  ⟨rfl, h.made_pubkey key cert tls hmake, h.made_verified key cert tls hmake, h.made_tlsKey hmake⟩

variable (lib)

/-- The stored certificate is returned: the TLS key is the one that belongs to the stored key. -/
def ReturnsStored (files : IdentityFiles) (stored : SigningKey) (cert : Bytes) : Prop :=
  ∃ tls made, files = ⟨.bytes stored.toList, .bytes cert, .bytes tls⟩ ∧
    makeCertAndKey lib stored (nodeIdFromPubkey lib (lib.verifyingKey stored)) = .ok (made, tls)

/-- What is returned is consistent exactly if the stored certificate is made anew or is one that the
check accepts, for the stored key. -/
theorem load_consistent_iff (hlib : Lawful lib) (env : IdentityEnv) (files : IdentityFiles) :
    (∀ identity, (loadOrGenerateIdentity lib env files).2 = .ok identity → Consistent lib identity) ↔
      ∀ stored cert, ReturnsStored lib files stored cert →
        certPubkey lib cert = some (lib.verifyingKey stored) ∧ verifyDsearchCert lib cert = .ok () := by
  constructor
  · rintro hall stored cert ⟨tls, made, rfl, hmake⟩
    have hrun := loadIdentity_stored lib env cert hmake
    obtain ⟨-, hpubkey, hverified, -⟩ := hall
      ⟨stored, nodeIdFromPubkey lib (lib.verifyingKey stored), cert, tls⟩ (congrArg Prod.snd hrun)
    exact ⟨hpubkey, hverified⟩
  · intro hstored identity hidentity
    by_cases hall : (files.key.exists && files.crt.exists && files.tls.exists) = true
    · have hload : loadOrGenerateIdentity lib env files = loadIdentity lib env files := if_pos hall
      rw [hload] at hidentity
      obtain ⟨left, e, hrun⟩ | ⟨found, cert, tls, made, heq, hmake, hrun⟩ |
        ⟨found, made, newKey, left, -, hmake, -, hrun⟩ := loadIdentity_cases lib env files
      · rw [hrun] at hidentity
        cases hidentity
      · rw [hrun] at hidentity
        obtain rfl := Except.ok.inj hidentity
        obtain ⟨hpubkey, hverified⟩ := hstored found cert ⟨tls, made, heq, hmake⟩
        exact ⟨rfl, hpubkey, hverified, hlib.made_tlsKey hmake⟩
      · rw [hrun] at hidentity
        obtain rfl := Except.ok.inj hidentity
        exact hlib.consistent_made hmake
    · obtain ⟨-, left, e, hrun⟩ | ⟨-, new, hnew, hrun⟩ := loadOrGenerateIdentity_incomplete lib hall
      · rw [hrun] at hidentity
        cases hidentity
      · rw [hrun] at hidentity
        obtain rfl := Except.ok.inj hidentity
        obtain ⟨hkey, hid, hmake⟩ := generateIdentity_eq_ok lib hnew
        have hmade := hlib.consistent_made hmake
        rw [← hkey] at hmade hid
        rwa [← hid] at hmade

/-! ## Runs on plain certificates -/

/-- A stand-in for concrete runs: a certificate is the public key, which is the key, and every node
has the same id. -/
def plainCerts : CertLib where
  blake3 _ := "id"
  verifyingKey key := key
  toPkcs8Der key := .ok key.toList
  KeyPair := Bytes
  fromPkcs8Der der := .ok der
  serializeDer keyPair := keyPair
  ia5String text := .ok text
  selfSigned _ keyPair := .ok keyPair
  fromDer der := .ok ⟨[], [], some [⟨"2.5.29.17", []⟩], "1.3.101.112", der, .ok der, List.replicate 64 0⟩
  generalNames _ := some [.uniformResourceIdentifier "id"]
  VerifyingKey := Unit
  fromBytes _ := some ()
  verify _ _ _ := true

theorem plainCerts_made {key : SigningKey} {nodeId : String} {cert tls : Bytes}
    (hmake : makeCertAndKey plainCerts key nodeId = .ok (cert, tls)) : cert = key.toList := by
  simp only [makeCertAndKey, plainCerts, Except.ok.injEq, Prod.mk.injEq] at hmake
  exact hmake.1.symm

theorem plainCerts_lawful : Lawful plainCerts where
  made_verified := by
    intro key cert tls hmake
    rw [plainCerts_made hmake]
    simp [verifyDsearchCert, plainCerts, extractSanUri, sanUriOf, extractEd25519Pubkey,
      verifyCertSignature, nodeIdFromPubkey]
  made_pubkey := by
    intro key cert tls hmake
    rw [plainCerts_made hmake]
    simp only [certPubkey, plainCerts, extractEd25519Pubkey, ne_eq, not_true_eq_false, if_false,
      Vector.length_toList, dite_true]
    rfl
  serializeDer_fromPkcs8Der := by
    intro der keyPair hpair
    exact (Except.ok.inj hpair).symm

def zeroKey : SigningKey := Vector.replicate 32 0

def oneKey : SigningKey := Vector.replicate 32 1

/-- A directory where everything can be written, and the next random key is `oneKey`. -/
def writableEnv : IdentityEnv := ⟨oneKey, none, .written, .written, .written⟩

/-- What an import of an exported identity leaves in an empty directory. -/
def imported : IdentityFiles :=
  copyIdentity ⟨.bytes zeroKey.toList, .bytes zeroKey.toList, .bytes zeroKey.toList⟩
    ⟨.missing, .missing, .missing⟩

theorem load_keeps_key_iff_imported :
    KeepsKey imported zeroKey (loadOrGenerateIdentity plainCerts writableEnv imported) ↔
      (imported.crt.exists = true ∧ imported.tls.exists = true) ∨ ¬ SavesNew plainCerts writableEnv ∨
        writableEnv.generated = zeroKey :=
  load_keeps_key_iff plainCerts writableEnv imported zeroKey rfl

/-- The imported key is overwritten by a new one. -/
theorem imported_key_replaced :
    ¬ ∀ (lib : CertLib) (env : IdentityEnv) (files : IdentityFiles) (stored : SigningKey),
      files.key = .bytes stored.toList →
        KeepsKey files stored (loadOrGenerateIdentity lib env files) := by
  intro hclaim
  have hkeeps := hclaim plainCerts writableEnv imported zeroKey rfl
  obtain ⟨hsame, -⟩ := hkeeps
    ⟨oneKey, "id", oneKey.toList, oneKey.toList⟩ rfl
  revert hsame
  decide

/-- All three files, with a certificate that was cut off. -/
def cutOff : IdentityFiles := ⟨.bytes zeroKey.toList, .bytes [], .bytes zeroKey.toList⟩

theorem load_consistent_iff_cutOff :
    (∀ identity, (loadOrGenerateIdentity plainCerts writableEnv cutOff).2 = .ok identity →
      Consistent plainCerts identity) ↔
    ∀ stored cert, ReturnsStored plainCerts cutOff stored cert →
      certPubkey plainCerts cert = some (plainCerts.verifyingKey stored) ∧
        verifyDsearchCert plainCerts cert = .ok () :=
  load_consistent_iff plainCerts plainCerts_lawful writableEnv cutOff

/-- The cut-off certificate is returned although the check refuses it. -/
theorem stored_cert_unchecked :
    ¬ ∀ (lib : CertLib), Lawful lib → ∀ (env : IdentityEnv) (files : IdentityFiles) (identity : Identity),
      (loadOrGenerateIdentity lib env files).2 = .ok identity → Consistent lib identity := by
  intro hclaim
  have hconsistent := hclaim plainCerts plainCerts_lawful writableEnv cutOff
    ⟨zeroKey, "id", [], zeroKey.toList⟩ rfl
  have hpubkey := hconsistent.pubkey
  simp [certPubkey, plainCerts, extractEd25519Pubkey] at hpubkey

end Cert

end DSearch
