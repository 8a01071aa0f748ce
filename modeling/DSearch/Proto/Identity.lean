import DSearch.Foundations.Files
import DSearch.Model.Record

/-! # The node identity of `proto/cert.rs`

Three files hold it: the signing key, the certificate made with it and the TLS private key. What
reads and writes certificates (`x509_cert`, `rcgen`), the signature scheme (`ed25519_dalek`) and
Blake3 are not part of the repository: `CertLib`. A signing key is its 32 secret bytes. -/

namespace DSearch
set_option autoImplicit false
open Files

abbrev SigningKey := Vector UInt8 32

inductive CertError where
  | generation (reason : String)
  | tls (reason : String)
  | keyFormat (reason : String)
  | io (reason : String)
  deriving DecidableEq, Repr

inductive GeneralName where
  | uniformResourceIdentifier (uri : String)
  | other
  deriving DecidableEq, Repr

structure Extension where
  extnId : String
  extnValue : Bytes
  deriving DecidableEq, Repr

/-- The parts of a parsed certificate that the checks read; names as their encodings. -/
structure Certificate where
  issuer : Bytes
  subject : Bytes
  extensions : Option (List Extension)
  algorithm : String
  subjectPublicKey : Bytes
  tbsDer : Except String Bytes
  signature : Bytes

/-- What `make_cert_and_key` asks of a certificate; the rest is `CertificateParams::default`. -/
structure CertificateParams where
  commonName : String
  subjectAltName : String
  deriving DecidableEq, Repr

structure CertLib where
  blake3 : Bytes → String
  verifyingKey : SigningKey → Vector UInt8 32
  toPkcs8Der : SigningKey → Except String Bytes
  KeyPair : Type
  fromPkcs8Der : Bytes → Except String KeyPair
  serializeDer : KeyPair → Bytes
  ia5String : String → Except String String
  selfSigned : CertificateParams → KeyPair → Except String Bytes
  fromDer : Bytes → Except String Certificate
  generalNames : Bytes → Option (List GeneralName)
  VerifyingKey : Type
  fromBytes : Vector UInt8 32 → Option VerifyingKey
  verify : VerifyingKey → Bytes → Vector UInt8 64 → Bool

namespace Cert
variable (lib : CertLib)

def nodeIdFromPubkey (pubkey : Vector UInt8 32) : String := lib.blake3 pubkey.toList

/-- A self-signed certificate and the PKCS#8 text of the key, as `(cert, key)`. -/
def makeCertAndKey (signingKey : SigningKey) (nodeId : String) : Except CertError (Bytes × Bytes) :=
  match lib.toPkcs8Der signingKey with
  | .error e => .error (.generation ("PKCS#8 encode: " ++ e))
  | .ok pkcs8 =>
    match lib.fromPkcs8Der pkcs8 with
    | .error e => .error (.generation ("rcgen KeyPair from PKCS#8: " ++ e))
    | .ok keyPair =>
      match lib.ia5String nodeId with
      | .error e => .error (.generation ("invalid SAN URI: " ++ e))
      | .ok uri =>
        match lib.selfSigned ⟨"dsearch", uri⟩ keyPair with
        | .error e => .error (.generation e)
        | .ok cert => .ok (cert, lib.serializeDer keyPair)

structure Identity where
  signingKey : SigningKey
  nodeId : String
  cert : Bytes
  tlsKey : Bytes
  deriving DecidableEq

/-- `generate_identity`, with the key that the random number generator gives. -/
def generateIdentity (generated : SigningKey) : Except CertError Identity :=
  let nodeId := nodeIdFromPubkey lib (lib.verifyingKey generated)
  match makeCertAndKey lib generated nodeId with
  | .error e => .error e
  | .ok (cert, key) => .ok ⟨generated, nodeId, cert, key⟩

/-! ## The checks of a certificate -/

/-- The loop over the extensions: the first URI, unless an alternative name cannot be decoded. -/
def sanUriOf : List Extension → Option String
  | [] => none
  | ext :: rest =>
    if ext.extnId = "2.5.29.17" then
      match lib.generalNames ext.extnValue with
      | none => none
      | some names =>
        match names.findSome? fun
          | .uniformResourceIdentifier uri => some uri
          | .other => none with
        | some uri => some uri
        | none => sanUriOf rest
    else sanUriOf rest

def extractSanUri (cert : Certificate) : Option String :=
  match cert.extensions with
  | none => none
  | some extensions => sanUriOf lib extensions

def extractEd25519Pubkey (cert : Certificate) : Option (Vector UInt8 32) :=
  if cert.algorithm ≠ "1.3.101.112" then none
  else if h : cert.subjectPublicKey.length = 32 then
    some ⟨cert.subjectPublicKey.toArray, by simpa using h⟩
  else none

def verifyCertSignature (cert : Certificate) (pubkey : Vector UInt8 32) : Except String Unit :=
  match lib.fromBytes pubkey with
  | none => .error "invalid Ed25519 public key"
  | some verifyingKey =>
    match cert.tbsDer with
    | .error e => .error ("TBS encode: " ++ e)
    | .ok tbs =>
      if h : cert.signature.length = 64 then
        if lib.verify verifyingKey tbs ⟨cert.signature.toArray, by simpa using h⟩ then .ok ()
        else .error "cert signature verification failed"
      else .error "invalid signature bit string"

def verifyDsearchCert (certDer : Bytes) : Except String Unit :=
  match lib.fromDer certDer with
  | .error e => .error ("cert parse: " ++ e)
  | .ok cert =>
    if cert.issuer ≠ cert.subject then .error "cert not self-signed: issuer != subject"
    else
      match extractSanUri lib cert with
      | none => .error "no SAN URI found in cert"
      | some nodeId =>
        match extractEd25519Pubkey cert with
        | none => .error "no Ed25519 public key in cert"
        | some pubkey =>
          let expected := nodeIdFromPubkey lib pubkey
          if nodeId ≠ expected then
            .error ("node_id mismatch: SAN claims " ++ nodeId ++ " but pubkey hashes to " ++ expected)
          else verifyCertSignature lib cert pubkey

/-! ## The three files -/

/-- A path of the data directory; `unreadable` is a file that exists and cannot be read. -/
inductive StoredFile where
  | missing
  | bytes (content : Bytes)
  | unreadable (reason : String)
  deriving DecidableEq, Repr

def StoredFile.exists : StoredFile → Bool
  | .missing => false
  | _ => true

def StoredFile.read : StoredFile → Except CertError Bytes
  | .missing => .error (.io "No such file or directory (os error 2)")
  | .bytes content => .ok content
  | .unreadable reason => .error (.io reason)

/-- `identity.key`, `node.crt` and `identity.tls`. -/
structure IdentityFiles where
  key : StoredFile
  crt : StoredFile
  tls : StoredFile
  deriving DecidableEq, Repr

/-- What comes from outside: a fresh key, and how the directory and the three files can be written. -/
structure IdentityEnv where
  generated : SigningKey
  createDir : Option String
  writeKey : FileWrite StoredFile
  writeCert : FileWrite StoredFile
  writeTls : FileWrite StoredFile

/-- `std::fs::write`: the file afterwards, and the error. -/
def writeFile (w : FileWrite StoredFile) (content : Bytes) : StoredFile × Option CertError :=
  match w with
  | .written => (.bytes content, none)
  | .failed reason left => (left, some (.io reason))

/-- The certificate, then the TLS key: the last two writes of `save_identity`, and those of a repair. -/
def writeCertAndTls (env : IdentityEnv) (files : IdentityFiles) (cert key : Bytes) :
    IdentityFiles × Option CertError :=
  match writeFile env.writeCert cert with
  | (crt, some e) => ({ files with crt := crt }, some e)
  | (crt, none) =>
    let out := writeFile env.writeTls key
    ({ files with crt := crt, tls := out.1 }, out.2)

def saveIdentity (env : IdentityEnv) (files : IdentityFiles) (signingKey : SigningKey)
    (cert key : Bytes) : IdentityFiles × Option CertError :=
  match env.createDir with
  | some reason => (files, some (.io reason))
  | none =>
    match writeFile env.writeKey signingKey.toList with
    | (keyFile, some e) => ({ files with key := keyFile }, some e)
    | (keyFile, none) => writeCertAndTls env { files with key := keyFile } cert key

def loadIdentity (env : IdentityEnv) (files : IdentityFiles) :
    IdentityFiles × Except CertError Identity :=
  match files.key.read with
  | .error e => (files, .error e)
  | .ok keyBytes =>
    match files.crt.read with
    | .error e => (files, .error e)
    | .ok cert =>
      match files.tls.read with
      | .error e => (files, .error e)
      | .ok tlsKey =>
        if h : keyBytes.length = 32 then
          let signingKey : SigningKey := ⟨keyBytes.toArray, by simpa using h⟩
          let nodeId := nodeIdFromPubkey lib (lib.verifyingKey signingKey)
          -- a repair makes the two again, which gives the same
          match makeCertAndKey lib signingKey nodeId with
          | .error e => (files, .error e)
          | .ok (newCert, newKey) =>
            if tlsKey ≠ newKey then
              match writeCertAndTls env files newCert newKey with
              | (files, some e) => (files, .error e)
              | (files, none) => (files, .ok ⟨signingKey, nodeId, newCert, newKey⟩)
            else (files, .ok ⟨signingKey, nodeId, cert, tlsKey⟩)
        else (files, .error (.keyFormat "identity.key must be 32 bytes"))

def loadOrGenerateIdentity (env : IdentityEnv) (files : IdentityFiles) :
    IdentityFiles × Except CertError Identity :=
  if files.key.exists && files.crt.exists && files.tls.exists then loadIdentity lib env files
  else
    match generateIdentity lib env.generated with
    | .error e => (files, .error e)
    | .ok identity =>
      match saveIdentity env files identity.signingKey identity.cert identity.tlsKey with
      | (files, some e) => (files, .error e)
      | (files, none) => (files, .ok identity)

/-- `dsearch identity export` and `import`, where every copy succeeds: two of the three files. -/
def copyIdentity (source dest : IdentityFiles) : IdentityFiles :=
  if source.key.exists && source.crt.exists then { dest with key := source.key, crt := source.crt }
  else dest

/-! ## What the writes and the two branches do -/

/-- The directory can be made and each of the three files written. -/
def Writable (env : IdentityEnv) : Prop :=
  env.createDir = none ∧ env.writeKey = .written ∧ env.writeCert = .written ∧ env.writeTls = .written

theorem writeCertAndTls_key (env : IdentityEnv) (files : IdentityFiles) (cert key : Bytes) :
    (writeCertAndTls env files cert key).1.key = files.key := by
  unfold writeCertAndTls
  cases env.writeCert <;> rfl

theorem saveIdentity_cases (env : IdentityEnv) (files : IdentityFiles) (signingKey : SigningKey)
    (cert key : Bytes) :
    (Writable env ∧ saveIdentity env files signingKey cert key =
      (⟨.bytes signingKey.toList, .bytes cert, .bytes key⟩, none)) ∨
    (¬ Writable env ∧ ∃ left e, saveIdentity env files signingKey cert key = (left, some e)) := by
  unfold saveIdentity writeCertAndTls Writable
  cases env.createDir with
  | some reason => exact .inr ⟨by simp, _, _, rfl⟩
  | none =>
    cases env.writeKey with
    | failed reason left => exact .inr ⟨by simp, _, _, rfl⟩
    | written =>
      cases env.writeCert with
      | failed reason left => exact .inr ⟨by simp, _, _, rfl⟩
      | written =>
        cases env.writeTls with
        | failed reason left => exact .inr ⟨by simp, _, _, rfl⟩
        | written => exact .inl ⟨⟨rfl, rfl, rfl, rfl⟩, rfl⟩

/-- The ends of a load: an error, the identity as it is stored, or one with its certificate and TLS
key made anew. -/
theorem loadIdentity_cases (env : IdentityEnv) (files : IdentityFiles) :
    (∃ left e, loadIdentity lib env files = (left, .error e)) ∨
    (∃ stored cert tls made, files = ⟨.bytes stored.toList, .bytes cert, .bytes tls⟩ ∧
      makeCertAndKey lib stored (nodeIdFromPubkey lib (lib.verifyingKey stored)) = .ok (made, tls) ∧
      loadIdentity lib env files =
        (files, .ok ⟨stored, nodeIdFromPubkey lib (lib.verifyingKey stored), cert, tls⟩)) ∨
    (∃ stored made newKey left, files.key = .bytes stored.toList ∧
      makeCertAndKey lib stored (nodeIdFromPubkey lib (lib.verifyingKey stored)) = .ok (made, newKey) ∧
      left.key = files.key ∧ loadIdentity lib env files =
        (left, .ok ⟨stored, nodeIdFromPubkey lib (lib.verifyingKey stored), made, newKey⟩)) := by
  obtain ⟨key, crt, tls⟩ := files
  unfold loadIdentity
  cases key with
  | missing => exact .inl ⟨_, _, rfl⟩
  | unreadable reason => exact .inl ⟨_, _, rfl⟩
  | bytes keyBytes =>
    cases crt with
    | missing => exact .inl ⟨_, _, rfl⟩
    | unreadable reason => exact .inl ⟨_, _, rfl⟩
    | bytes cert =>
      cases tls with
      | missing => exact .inl ⟨_, _, rfl⟩
      | unreadable reason => exact .inl ⟨_, _, rfl⟩
      | bytes tlsKey =>
        dsimp only [StoredFile.read]
        by_cases hlength : keyBytes.length = 32
        · rw [dif_pos hlength]
          have hstored : keyBytes = (⟨keyBytes.toArray, by simpa using hlength⟩ : SigningKey).toList := rfl
          generalize (⟨keyBytes.toArray, by simpa using hlength⟩ : SigningKey) = stored at hstored ⊢
          subst hstored
          cases hmake : makeCertAndKey lib stored (nodeIdFromPubkey lib (lib.verifyingKey stored)) with
          | error e => exact .inl ⟨_, _, rfl⟩
          | ok made =>
            obtain ⟨newCert, newKey⟩ := made
            dsimp only
            by_cases hsame : tlsKey = newKey
            · subst hsame
              rw [if_neg (by simp)]
              exact .inr (.inl ⟨stored, cert, tlsKey, newCert, rfl, hmake, rfl⟩)
            · rw [if_pos hsame]
              have hkey := writeCertAndTls_key env
                ⟨.bytes stored.toList, .bytes cert, .bytes tlsKey⟩ newCert newKey
              generalize writeCertAndTls env ⟨.bytes stored.toList, .bytes cert, .bytes tlsKey⟩ newCert
                newKey = out at hkey ⊢
              obtain ⟨left, error⟩ := out
              cases error with
              | some e => exact .inl ⟨_, _, rfl⟩
              | none => exact .inr (.inr ⟨stored, newCert, newKey, left, rfl, hmake, hkey, rfl⟩)
        · rw [dif_neg hlength]
          exact .inl ⟨_, _, rfl⟩

theorem loadIdentity_stored (env : IdentityEnv) {stored : SigningKey} (cert : Bytes) {tls made : Bytes}
    (hmake : makeCertAndKey lib stored (nodeIdFromPubkey lib (lib.verifyingKey stored)) =
      .ok (made, tls)) :
    loadIdentity lib env ⟨.bytes stored.toList, .bytes cert, .bytes tls⟩ =
      (⟨.bytes stored.toList, .bytes cert, .bytes tls⟩,
        .ok ⟨stored, nodeIdFromPubkey lib (lib.verifyingKey stored), cert, tls⟩) := by
  unfold loadIdentity
  dsimp only [StoredFile.read]
  rw [dif_pos (by simp)]
  have hstored : (⟨stored.toList.toArray, by simp⟩ : SigningKey) = stored := rfl
  rw [hstored, hmake]
  dsimp only
  rw [if_neg (by simp)]

end Cert

end DSearch
