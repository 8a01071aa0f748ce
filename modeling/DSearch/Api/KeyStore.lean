import DSearch.Api.GatewayKeys
import DSearch.Foundations.Files
import DSearch.Foundations.RustText

/-! # The key file: `create_key` and `revoke_key` of `api/gateway_keys.rs`

Each call reads the whole file and writes it back. The secret that `create_key` draws and the time it
does so are arguments here.

In a sequential run the file lists the keys that are live: `mem_keysAfter_iff`. -/

namespace DSearch
set_option autoImplicit false
open Files

/-- A file in the data directory. -/
abbrev ConfigFile := KeyFile

/-- `read_to_string(..).unwrap_or_default()`, and a fallback for what does not parse. -/
def ConfigFile.loadOr {ν : Type} (parse : String → Except String ν) (fallback : ν) : ConfigFile → ν
  | .missing => fallback
  | .unreadable _ => (parse "").toOption.getD fallback
  | .text contents => (parse contents).toOption.getD fallback

structure KeyStoreCodec extends KeyCodec where
  hexEncode : Bytes → String
  toStringPretty : List GatewayKeyInfo → Except String String

/-- What is serialized is read back. -/
def KeyStoreCodec.RoundTrips (codec : KeyStoreCodec) : Prop :=
  ∀ keys, ∃ text, codec.toStringPretty keys = .ok text ∧ codec.keysFromStr text = .ok keys

/-- The 256 bits of a key. -/
structure Secret where
  bytes : Bytes
  length_eq : bytes.length = 32

namespace KeyStore
variable (codec : KeyStoreCodec)

def keyInfo (nickname : String) (secret : Secret) (now : ℕ) : GatewayKeyInfo where
  nickname := nickname
  keyHash := codec.blake3 secret.bytes
  createdAt := now
  lastUsed := 0
  requestCount := 0

/-- The list that `create_key` begins with. -/
def loadKeys (file : KeyFile) : List GatewayKeyInfo := ConfigFile.loadOr codec.keysFromStr [] file

def serializeKeys {α : Type} (keys : List GatewayKeyInfo) : Except (Except String α) KeyFile :=
  match codec.toStringPretty keys with
  | .ok json => .ok (.text json)
  | .error e => .error (.error ("serialize gateway keys: " ++ e))

def createKey (nickname : String) (secret : Secret) (now : ℕ) :
    Update KeyFile (List GatewayKeyInfo) (Except String (String × GatewayKeyInfo)) where
  load file := .ok (loadKeys codec file)
  ends keys :=
    if keys.any fun k => k.nickname = nickname then
      some (.error ("key with nickname '" ++ nickname ++ "' already exists"))
    else none
  change keys := keys ++ [keyInfo codec nickname secret now]
  serialize := serializeKeys codec
  written := .ok (codec.hexEncode secret.bytes, keyInfo codec nickname secret now)
  notWritten e := .error ("write gateway_keys.json: " ++ e)

def revokeKey (nickname : String) : Update KeyFile (List GatewayKeyInfo) (Except String Bool) where
  load file :=
    match GatewayKeys.listKeys codec.toKeyCodec file with
    | .ok keys => .ok keys
    | .error e => .error (.error e)
  ends keys :=
    if (keys.filter fun k => k.nickname ≠ nickname).length = keys.length then some (.ok false) else none
  change keys := keys.filter fun k => k.nickname ≠ nickname
  serialize := serializeKeys codec
  written := .ok true
  notWritten e := .error ("write gateway_keys.json: " ++ e)

/-! ## Sequential runs -/

inductive KeyOp where
  | create (nickname : String) (secret : Secret) (now : ℕ)
  | revoke (nickname : String)

/-- The file after a call that can write. -/
def KeyOp.exec : KeyOp → KeyFile → KeyFile
  | .create nickname secret now, file => ((createKey codec nickname secret now).run .written file).1
  | .revoke nickname, file => ((revokeKey codec nickname).run .written file).1

def after (ops : List KeyOp) : KeyFile := ops.foldl (fun file op => op.exec codec file) .missing

/-- The keys that the calls leave. -/
def KeyOp.onKeys : KeyOp → List GatewayKeyInfo → List GatewayKeyInfo
  | .create nickname secret now, keys =>
    if keys.any fun k => k.nickname = nickname then keys
    else keys ++ [keyInfo codec nickname secret now]
  | .revoke nickname, keys => keys.filter fun k => k.nickname ≠ nickname

def keysAfter (ops : List KeyOp) : List GatewayKeyInfo :=
  ops.foldl (fun keys op => op.onKeys codec keys) []

/-- The file lists these keys, for every way in which it is read. -/
structure Lists (file : KeyFile) (keys : List GatewayKeyInfo) : Prop where
  listed : GatewayKeys.listKeys codec.toKeyCodec file = .ok keys
  loaded : loadKeys codec file = keys

variable {codec}

theorem lists_missing : Lists codec .missing [] := ⟨rfl, rfl⟩

theorem lists_text {keys : List GatewayKeyInfo} {text : String}
    (h : codec.keysFromStr text = .ok keys) : Lists codec (.text text) keys where
  listed := by rw [GatewayKeys.listKeys, h]
  loaded := by rw [loadKeys, ConfigFile.loadOr, h]; rfl

theorem serializeKeys_ok {α : Type} (hserde : codec.RoundTrips) (keys : List GatewayKeyInfo) :
    ∃ file, serializeKeys (α := α) codec keys = .ok file ∧ Lists codec file keys := by
  obtain ⟨text, htext, hparsed⟩ := hserde keys
  exact ⟨.text text, by rw [serializeKeys, htext], lists_text hparsed⟩

theorem createKey_read (nickname : String) (secret : Secret) (now : ℕ) {file : KeyFile}
    {keys : List GatewayKeyInfo} (h : Lists codec file keys) :
    (createKey codec nickname secret now).read file =
      if keys.any fun k => k.nickname = nickname then
        .error (.error ("key with nickname '" ++ nickname ++ "' already exists"))
      else .ok keys := by
  unfold Update.read createKey
  dsimp only
  rw [h.loaded]
  by_cases hdup : (keys.any fun k => k.nickname = nickname) = true
  · simp only [hdup, if_true]
  · simp only [hdup, if_false, Bool.false_eq_true]

theorem revokeKey_read (nickname : String) {file : KeyFile} {keys : List GatewayKeyInfo}
    (h : Lists codec file keys) :
    (revokeKey codec nickname).read file =
      if (keys.filter fun k => k.nickname ≠ nickname).length = keys.length then .error (.ok false)
      else .ok keys := by
  unfold Update.read revokeKey
  dsimp only
  rw [h.listed]
  by_cases hsame : (keys.filter fun k => k.nickname ≠ nickname).length = keys.length
  · simp only [hsame, if_true]
  · simp only [hsame, if_false]

theorem lists_write {α : Type} (hserde : codec.RoundTrips)
    {u : Update KeyFile (List GatewayKeyInfo) (Except String α)}
    (hu : u.serialize = serializeKeys codec) (keys : List GatewayKeyInfo) (file : KeyFile) :
    Lists codec (u.write .written keys file).1 (u.change keys) ∧
      (u.write .written keys file).2 = u.written := by
  obtain ⟨text, htext, hlists⟩ := serializeKeys_ok (α := α) hserde (u.change keys)
  rw [Update.write_written (by rw [hu]; exact htext)]
  exact ⟨hlists, rfl⟩

/-- The step: a call takes the file from the keys before it to the keys after it. -/
theorem lists_exec (hserde : codec.RoundTrips) {file : KeyFile} {keys : List GatewayKeyInfo}
    (h : Lists codec file keys) (op : KeyOp) :
    Lists codec (op.exec codec file) (op.onKeys codec keys) := by
  cases op with
  | create nickname secret now =>
    have hread := createKey_read nickname secret now h
    unfold KeyOp.exec KeyOp.onKeys
    dsimp only
    split at hread
    next hdup =>
      rw [Update.run_of_read_error hread, if_pos hdup]
      exact h
    next hnew =>
      rw [Update.run_of_read_ok hread, if_neg hnew]
      exact (lists_write (u := createKey codec nickname secret now) hserde rfl keys file).1
  | revoke nickname =>
    have hread := revokeKey_read nickname h
    unfold KeyOp.exec KeyOp.onKeys
    dsimp only
    split at hread
    next hsame =>
      rw [Update.run_of_read_error hread, List.filter_sublist.eq_of_length hsame]
      exact h
    next hfound =>
      rw [Update.run_of_read_ok hread]
      exact (lists_write (u := revokeKey codec nickname) hserde rfl keys file).1

theorem after_append (ops : List KeyOp) (op : KeyOp) :
    after codec (ops ++ [op]) = op.exec codec (after codec ops) := by
  rw [after, List.foldl_append]
  rfl

theorem keysAfter_append (ops : List KeyOp) (op : KeyOp) :
    keysAfter codec (ops ++ [op]) = op.onKeys codec (keysAfter codec ops) := by
  rw [keysAfter, List.foldl_append]
  rfl

theorem lists_after (hserde : codec.RoundTrips) (ops : List KeyOp) :
    Lists codec (after codec ops) (keysAfter codec ops) := by
  induction ops using List.reverseRecOn with
  | nil => exact lists_missing
  | append_singleton ops op ih =>
    rw [after_append, keysAfter_append]
    exact lists_exec hserde ih op

theorem nodup_onKeys {keys : List GatewayKeyInfo} (h : (keys.map GatewayKeyInfo.nickname).Nodup)
    (op : KeyOp) : ((op.onKeys codec keys).map GatewayKeyInfo.nickname).Nodup := by
  cases op with
  | create nickname secret now =>
    unfold KeyOp.onKeys
    dsimp only
    split
    next => exact h
    next hnew =>
      rw [List.map_append, List.map_singleton]
      refine List.nodup_append.mpr ⟨h, List.nodup_singleton _, ?_⟩
      rintro _ hmem _ hnick rfl
      obtain ⟨k, hk, hkn⟩ := List.mem_map.mp hmem
      refine hnew (List.any_eq_true.mpr ⟨k, hk, decide_eq_true ?_⟩)
      rw [hkn, List.mem_singleton.mp hnick]
      rfl
  | revoke nickname => exact h.sublist (List.filter_sublist.map GatewayKeyInfo.nickname)

theorem nodup_keysAfter (ops : List KeyOp) :
    ((keysAfter codec ops).map GatewayKeyInfo.nickname).Nodup := by
  induction ops using List.reverseRecOn with
  | nil => exact List.nodup_nil
  | append_singleton ops op ih =>
    rw [keysAfter_append]
    exact nodup_onKeys ih op

/-- The call creates a key: it does not fail. -/
def Created (codec : KeyStoreCodec) (file : KeyFile) (nickname : String) (secret : Secret) (now : ℕ) :
    Prop :=
  ((createKey codec nickname secret now).run .written file).2 =
    .ok (codec.hexEncode secret.bytes, keyInfo codec nickname secret now)

theorem created_iff (hserde : codec.RoundTrips) {file : KeyFile} {keys : List GatewayKeyInfo}
    (h : Lists codec file keys) (nickname : String) (secret : Secret) (now : ℕ) :
    Created codec file nickname secret now ↔ ¬ (keys.any fun k => k.nickname = nickname) = true := by
  have hread := createKey_read nickname secret now h
  unfold Created
  split at hread
  next hdup =>
    rw [Update.run_of_read_error hread]
    simp [hdup]
  next hnew =>
    rw [Update.run_of_read_ok hread,
      (lists_write (u := createKey codec nickname secret now) hserde rfl keys file).2]
    exact ⟨fun _ => hnew, fun _ => rfl⟩

/-- A call of the run created the key, and no later one revoked its nickname. -/
def Live (codec : KeyStoreCodec) (ops : List KeyOp) (nickname : String) (secret : Secret) (now : ℕ) :
    Prop :=
  ∃ before later, ops = before ++ .create nickname secret now :: later ∧
    Created codec (after codec before) nickname secret now ∧ .revoke nickname ∉ later

theorem live_append {ops : List KeyOp} {op : KeyOp} {nickname : String} {secret : Secret} {now : ℕ} :
    Live codec (ops ++ [op]) nickname secret now ↔
      (op = .create nickname secret now ∧ Created codec (after codec ops) nickname secret now) ∨
        (Live codec ops nickname secret now ∧ op ≠ .revoke nickname) := by
  constructor
  · rintro ⟨before, later, hops, hcreated, hlater⟩
    rcases List.eq_nil_or_concat later with rfl | ⟨later, last, rfl⟩
    · obtain ⟨rfl, hop⟩ := List.append_inj' hops rfl
      exact .inl ⟨List.singleton_inj.mp hop, hcreated⟩
    · rw [List.concat_eq_append, ← List.cons_append, ← List.append_assoc] at hops
      obtain ⟨rfl, hop⟩ := List.append_inj' hops rfl
      obtain rfl := List.singleton_inj.mp hop
      rw [List.concat_eq_append, List.mem_append, not_or] at hlater
      exact .inr ⟨⟨before, later, rfl, hcreated, hlater.1⟩,
        fun h => hlater.2 (List.mem_singleton.mpr h.symm)⟩
  · rintro (⟨rfl, hcreated⟩ | ⟨⟨before, later, rfl, hcreated, hlater⟩, hop⟩)
    · exact ⟨ops, [], rfl, hcreated, List.not_mem_nil⟩
    · refine ⟨before, later ++ [op], by simp, hcreated, ?_⟩
      rw [List.mem_append, not_or]
      exact ⟨hlater, fun h => hop (List.mem_singleton.mp h).symm⟩

theorem mem_keysAfter_iff (hserde : codec.RoundTrips) (ops : List KeyOp) (info : GatewayKeyInfo) :
    info ∈ keysAfter codec ops ↔ ∃ nickname secret now,
      Live codec ops nickname secret now ∧ info = keyInfo codec nickname secret now := by
  induction ops using List.reverseRecOn with
  | nil =>
    constructor
    · intro h
      exact absurd h List.not_mem_nil
    · rintro ⟨_, _, _, ⟨before, later, hops, -⟩, -⟩
      simp at hops
  | append_singleton ops op ih =>
    rw [keysAfter_append]
    simp only [live_append]
    have hcreated := created_iff hserde (lists_after hserde ops)
    cases op with
    | create nickname secret now =>
      unfold KeyOp.onKeys
      dsimp only
      split
      next hdup =>
        rw [ih]
        constructor
        · rintro ⟨n, s, t, hlive, rfl⟩
          exact ⟨n, s, t, .inr ⟨hlive, by simp⟩, rfl⟩
        · rintro ⟨n, s, t, ⟨hop, hc⟩ | ⟨hlive, -⟩, rfl⟩
          · obtain ⟨rfl, rfl, rfl⟩ := KeyOp.create.inj hop
            exact absurd hdup ((hcreated _ _ _).mp hc)
          · exact ⟨n, s, t, hlive, rfl⟩
      next hnew =>
        rw [List.mem_append, ih, List.mem_singleton]
        constructor
        · rintro (⟨n, s, t, hlive, rfl⟩ | rfl)
          · exact ⟨n, s, t, .inr ⟨hlive, by simp⟩, rfl⟩
          · exact ⟨nickname, secret, now, .inl ⟨rfl, (hcreated _ _ _).mpr hnew⟩, rfl⟩
        · rintro ⟨n, s, t, ⟨hop, hc⟩ | ⟨hlive, -⟩, rfl⟩
          · obtain ⟨rfl, rfl, rfl⟩ := KeyOp.create.inj hop
            exact .inr rfl
          · exact .inl ⟨n, s, t, hlive, rfl⟩
    | revoke nickname =>
      unfold KeyOp.onKeys
      dsimp only
      rw [List.mem_filter, ih]
      constructor
      · rintro ⟨⟨n, s, t, hlive, rfl⟩, hne⟩
        refine ⟨n, s, t, .inr ⟨hlive, ?_⟩, rfl⟩
        intro hop
        exact of_decide_eq_true hne (KeyOp.revoke.inj hop).symm
      · rintro ⟨n, s, t, ⟨hop, -⟩ | ⟨hlive, hne⟩, rfl⟩
        · cases hop
        · refine ⟨⟨n, s, t, hlive, rfl⟩, decide_eq_true ?_⟩
          intro hop
          exact hne (congrArg KeyOp.revoke hop.symm)

/-- The life of keys, over every sequential run from a missing file. -/
theorem key_lifecycle (codec : KeyStoreCodec) (hdigest : Function.Injective codec.blake3)
    (hserde : codec.RoundTrips) (ops : List KeyOp) :
    (∀ rawKey, GatewayKeys.validateKey codec.toKeyCodec (after codec ops) rawKey = true ↔
      ∃ nickname secret now, codec.hexDecode rawKey = .ok secret.bytes ∧
        Live codec ops nickname secret now) ∧
    (∃ keys, GatewayKeys.listKeys codec.toKeyCodec (after codec ops) = .ok keys ∧
      (keys.map GatewayKeyInfo.nickname).Nodup) ∧
    ∀ nickname secret now e,
      ((createKey codec nickname secret now).run .written (after codec ops)).2 = .error e →
        ((createKey codec nickname secret now).run .written (after codec ops)).1 = after codec ops := by
  have hlists := lists_after hserde ops
  refine ⟨fun rawKey => ?_, ⟨_, hlists.listed, nodup_keysAfter ops⟩, fun nickname secret now e h => ?_⟩
  · rw [GatewayKeys.validateKey_iff, GatewayKeys.Listed]
    constructor
    · rintro ⟨bytes, keys, hdecode, hlength, hlisted, k, hk, hhash⟩
      obtain rfl := Except.ok.inj (hlists.listed.symm.trans hlisted)
      obtain ⟨nickname, secret, now, hlive, rfl⟩ := (mem_keysAfter_iff hserde ops k).mp hk
      exact ⟨nickname, secret, now, by rw [hdecode, hdigest hhash], hlive⟩
    · rintro ⟨nickname, secret, now, hdecode, hlive⟩
      exact ⟨secret.bytes, _, hdecode, secret.length_eq, hlists.listed,
        keyInfo codec nickname secret now,
        (mem_keysAfter_iff hserde ops _).mpr ⟨nickname, secret, now, hlive, rfl⟩, rfl⟩
  · have hread := createKey_read nickname secret now hlists
    split at hread
    next => rw [Update.run_of_read_error hread]
    next =>
      rw [Update.run_of_read_ok hread,
        (lists_write (u := createKey codec nickname secret now) hserde rfl _ _).2] at h
      cases h

/-! ## A codec that writes values as numbers -/

section
variable {α γ : Type} [Encodable γ]

def numberText (code : α → γ) (a : α) : Except String String :=
  .ok (toString (Encodable.encode (code a)))

def parseNumber (uncode : γ → α) (text : String) : Except String α :=
  match (RustText.parseDigits text.toList).bind Encodable.decode with
  | some c => .ok (uncode c)
  | none => .error "no number of a value"

theorem parseNumber_numberText {code : α → γ} {uncode : γ → α} (h : ∀ a, uncode (code a) = a) (a : α) :
    ∃ text, numberText code a = .ok text ∧ parseNumber uncode text = .ok a := by
  refine ⟨_, rfl, ?_⟩
  unfold parseNumber
  rw [RustText.parseDigits_toString, Option.bind_some, Encodable.encodek]
  dsimp only
  rw [h]

theorem parseNumber_error {uncode : γ → α} {text : String}
    (h : RustText.parseDigits text.toList = none) :
    parseNumber uncode text = .error "no number of a value" := by
  rw [parseNumber, h]
  rfl

end

def textCode (s : String) : List ℕ := s.toList.map Char.toNat

def ofTextCode (code : List ℕ) : String := String.ofList (code.map Char.ofNat)

@[simp] theorem ofTextCode_textCode (s : String) : ofTextCode (textCode s) = s := by
  have hid : Char.ofNat ∘ Char.toNat = id := funext Char.ofNat_toNat
  rw [ofTextCode, textCode, List.map_map, hid, List.map_id, String.ofList_toList]

/-- A list is coded item by item. -/
theorem map_uncode {α γ : Type} {code : α → γ} {uncode : γ → α} (h : ∀ a, uncode (code a) = a)
    (list : List α) : (list.map code).map uncode = list := by
  have hid : uncode ∘ code = id := funext h
  rw [List.map_map, hid, List.map_id]

def keyCode (k : GatewayKeyInfo) : List ℕ × List ℕ × ℕ × ℕ × ℕ :=
  (textCode k.nickname, textCode k.keyHash, k.createdAt, k.lastUsed, k.requestCount)

def ofKeyCode (code : List ℕ × List ℕ × ℕ × ℕ × ℕ) : GatewayKeyInfo where
  nickname := ofTextCode code.1
  keyHash := ofTextCode code.2.1
  createdAt := code.2.2.1
  lastUsed := code.2.2.2.1
  requestCount := code.2.2.2.2

def numberCodec : KeyStoreCodec where
  hexDecode text := GatewayKeys.hexPairs (asBytes text)
  hexEncode := Sign.toHex
  blake3 := Sign.toHex
  keysFromStr := parseNumber (List.map ofKeyCode)
  toStringPretty := numberText (List.map keyCode)

theorem numberCodec_roundTrips : numberCodec.RoundTrips :=
  parseNumber_numberText (map_uncode fun k => by simp [ofKeyCode, keyCode])

def abSecret : Secret := ⟨List.replicate 32 0xab, by decide⟩

theorem abKey_decodes :
    numberCodec.hexDecode (Sign.toHex abSecret.bytes) = .ok abSecret.bytes := by decide +kernel

theorem key_lifecycle_created :
    GatewayKeys.validateKey numberCodec.toKeyCodec
      (after numberCodec [.create "a" abSecret 0, .revoke "b"]) (Sign.toHex abSecret.bytes) = true := by
  have hlive : Live numberCodec [.create "a" abSecret 0, .revoke "b"] "a" abSecret 0 :=
    ⟨[], [.revoke "b"], rfl, (created_iff numberCodec_roundTrips lists_missing _ _ _).mpr (by decide),
      by simp⟩
  exact ((key_lifecycle numberCodec Sign.toHex_injective numberCodec_roundTrips _).1 _).mpr
    ⟨"a", abSecret, 0, abKey_decodes, hlive⟩

end KeyStore

end DSearch
