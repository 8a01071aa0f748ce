import DSearch.Api.KeyStore
import DSearch.Foundations.Tasks

/-! # Calls on the key file at the same time

A call of `create_key` or `revoke_key` reads the file in one step and writes it in another, with any
steps of other calls between the two. The state keeps, beside the file, the digests of the keys that
calls of `revoke_key` have removed and answered `Ok(true)` for. -/

namespace DSearch.KeyStore
open Files Tasks
set_option autoImplicit false

structure KeyDir where
  file : KeyFile
  revoked : List String

/-- A call before its first step, between its two steps, and when it has returned. -/
inductive KeyCall where
  | start (op : KeyOp)
  | creating (nickname : String) (secret : Secret) (now : ℕ) (keys : List GatewayKeyInfo)
  | revoking (nickname : String) (keys : List GatewayKeyInfo)
  | created (result : Except String (String × GatewayKeyInfo))
  | revoked (result : Except String Bool)

section
variable (codec : KeyStoreCodec)

/-- The digests of the keys that are removed. -/
def removedHashes (nickname : String) (keys : List GatewayKeyInfo) : List String :=
  (keys.filter fun k => k.nickname = nickname).map GatewayKeyInfo.keyHash

def callStep (_ : Unit) (dir : KeyDir) : KeyCall → Option (Acted KeyDir KeyCall)
  | .start (.create nickname secret now) =>
    match (createKey codec nickname secret now).read dir.file with
    | .error result => some ⟨dir, .created result, []⟩
    | .ok keys => some ⟨dir, .creating nickname secret now keys, []⟩
  | .start (.revoke nickname) =>
    match (revokeKey codec nickname).read dir.file with
    | .error result => some ⟨dir, .revoked result, []⟩
    | .ok keys => some ⟨dir, .revoking nickname keys, []⟩
  | .creating nickname secret now keys =>
    let wrote := (createKey codec nickname secret now).write .written keys dir.file
    some ⟨{ dir with file := wrote.1 }, .created wrote.2, []⟩
  | .revoking nickname keys =>
    let wrote := (revokeKey codec nickname).write .written keys dir.file
    let removed := match wrote.2 with
      | .ok true => removedHashes nickname keys
      | _ => []
    some ⟨⟨wrote.1, removed ++ dir.revoked⟩, .revoked wrote.2, []⟩
  | .created _ => none
  | .revoked _ => none

/-- Of the keys that a call has read and is about to write back, none has been revoked; and a digest
belongs to one key. -/
def KeptLive (dir : KeyDir) : KeyCall → Prop
  | .creating nickname secret now keys =>
    ∀ k ∈ keys ++ [keyInfo codec nickname secret now], k.keyHash ∉ dir.revoked
  | .revoking nickname keys =>
    ∀ k ∈ keys, k.nickname ≠ nickname → k.keyHash ∉ dir.revoked ∧
      k.keyHash ∉ removedHashes nickname keys
  | _ => True

def WritesLive (sys : System KeyDir KeyCall) (pick : ℕ × Unit) : Prop :=
  ∀ call, sys.tasks[pick.1]? = some call → KeptLive codec sys.shared call

/-- No listed key is a revoked one. -/
def NoneRevoked (dir : KeyDir) : Prop :=
  ∀ keys, GatewayKeys.listKeys codec.toKeyCodec dir.file = .ok keys →
    ∀ k ∈ keys, k.keyHash ∉ dir.revoked

variable {codec}

/-- A call that starts reads the file and leaves it as it is. -/
theorem callStep_start {dir : KeyDir} {op : KeyOp} {done : Acted KeyDir KeyCall}
    (h : callStep codec () dir (.start op) = some done) : done.shared = dir := by
  cases op with
  | create nickname secret now =>
    unfold callStep at h
    dsimp only at h
    split at h <;> exact Option.some.inj h ▸ rfl
  | revoke nickname =>
    unfold callStep at h
    dsimp only at h
    split at h <;> exact Option.some.inj h ▸ rfl

/-- The step: what one call does, from a state without revoked keys in the file. -/
theorem noneRevoked_callStep (hserde : codec.RoundTrips) {dir : KeyDir} {call : KeyCall}
    {done : Acted KeyDir KeyCall} (hdir : NoneRevoked codec dir) (hlive : KeptLive codec dir call)
    (h : callStep codec () dir call = some done) : NoneRevoked codec done.shared := by
  cases call with
  | start op =>
    rw [callStep_start h]
    exact hdir
  | creating nickname secret now keys =>
    obtain rfl := Option.some.inj h
    intro listed hlisted k hk
    have hwrite := (lists_write (u := createKey codec nickname secret now) hserde rfl keys dir.file).1
    obtain rfl := Except.ok.inj (hwrite.listed.symm.trans hlisted)
    exact hlive k hk
  | revoking nickname keys =>
    obtain rfl := Option.some.inj h
    intro listed hlisted k hk
    obtain ⟨hwrite, hresult⟩ :=
      lists_write (u := revokeKey codec nickname) hserde rfl keys dir.file
    obtain rfl := Except.ok.inj (hwrite.listed.symm.trans hlisted)
    obtain ⟨hmem, hne⟩ := List.mem_filter.mp hk
    obtain ⟨hbefore, hremoved⟩ := hlive k hmem (of_decide_eq_true hne)
    dsimp only
    rw [hresult]
    exact fun h => (List.mem_append.mp h).elim hremoved hbefore
  | created result => cases h
  | revoked result => cases h

theorem noneRevoked_run (hserde : codec.RoundTrips) (sys : System KeyDir KeyCall)
    (hsys : NoneRevoked codec sys.shared) {schedule : List (ℕ × Unit)}
    (hmeets : Meets (callStep codec) (WritesLive codec) sys schedule) :
    NoneRevoked codec (run (callStep codec) sys schedule).shared := by
  refine invariant_of_meets (I := fun sys => NoneRevoked codec sys.shared) ?_ hsys hmeets
  intro sys pick hinv hlive
  rcases acts (callStep codec) sys pick with hsame | ⟨before, t, after, done, hpicked, hact, hstep⟩
  · rw [hsame]
    exact hinv
  · rw [hstep]
    exact noneRevoked_callStep hserde hinv (hlive t hpicked.at_task) hact

end

/-- From any file and for any calls, in any order of their steps: the secret of a key that has been
revoked does not validate, if every write keeps only keys that have not been revoked since they were
read. -/
theorem revoked_never_validates (codec : KeyStoreCodec) (hserde : codec.RoundTrips) (file : KeyFile)
    (ops : List KeyOp) (schedule : List (ℕ × Unit))
    (hmeets : Meets (callStep codec) (WritesLive codec) ⟨⟨file, []⟩, ops.map .start⟩ schedule)
    (rawKey : String) (secretBytes : Bytes) (hdecode : codec.hexDecode rawKey = .ok secretBytes)
    (hrevoked : codec.blake3 secretBytes ∈
      (run (callStep codec) ⟨⟨file, []⟩, ops.map .start⟩ schedule).shared.revoked) :
    GatewayKeys.validateKey codec.toKeyCodec
      (run (callStep codec) ⟨⟨file, []⟩, ops.map .start⟩ schedule).shared.file rawKey = false := by
  rw [← Bool.not_eq_true, GatewayKeys.validateKey_iff]
  rintro ⟨bytes, keys, hbytes, -, hlisted, k, hk, hhash⟩
  obtain rfl := Except.ok.inj (hdecode.symm.trans hbytes)
  have hnone := noneRevoked_run hserde ⟨⟨file, []⟩, ops.map .start⟩
    (fun _ _ _ _ => List.not_mem_nil) hmeets
  refine hnone keys hlisted k hk ?_
  rw [hhash]
  exact hrevoked

/-! ## A key that is revoked while another is created -/

/-- The file that lists these keys. -/
def keyFileOf (codec : KeyStoreCodec) (keys : List GatewayKeyInfo) : KeyFile :=
  .text ((codec.toStringPretty keys).toOption.getD "")

theorem serializeKeys_keyFileOf {α : Type} {codec : KeyStoreCodec} (hserde : codec.RoundTrips)
    (keys : List GatewayKeyInfo) :
    serializeKeys (α := α) codec keys = .ok (keyFileOf codec keys) ∧
      Lists codec (keyFileOf codec keys) keys := by
  obtain ⟨text, htext, hparsed⟩ := hserde keys
  unfold serializeKeys keyFileOf
  rw [htext]
  exact ⟨rfl, lists_text hparsed⟩

section
variable (codec : KeyStoreCodec)

def cdSecret : Secret := ⟨List.replicate 32 0xcd, by decide⟩

def keyA : GatewayKeyInfo := keyInfo codec "a" abSecret 0

def onlyRevoke : System KeyDir KeyCall :=
  ⟨⟨keyFileOf codec [keyA codec], []⟩, [.revoke "a"].map .start⟩

/-- The key `b` is about to be created, and `a` to be revoked. -/
def createAndRevoke : System KeyDir KeyCall :=
  ⟨⟨keyFileOf codec [keyA codec], []⟩, [.create "b" cdSecret 1, .revoke "a"].map .start⟩

variable {codec}

theorem revoke_reads (hserde : codec.RoundTrips) :
    (revokeKey codec "a").read (keyFileOf codec [keyA codec]) = .ok [keyA codec] := by
  rw [revokeKey_read _ (serializeKeys_keyFileOf (α := Bool) hserde _).2]
  rfl

theorem revoke_writes (hserde : codec.RoundTrips) (file : KeyFile) :
    (revokeKey codec "a").write .written [keyA codec] file = (keyFileOf codec [], .ok true) :=
  Update.write_written (serializeKeys_keyFileOf hserde []).1 file

theorem onlyRevoke_steps (hserde : codec.RoundTrips) :
    Meets (callStep codec) (WritesLive codec) (onlyRevoke codec) [(0, ()), (0, ())] ∧
      (run (callStep codec) (onlyRevoke codec) [(0, ()), (0, ())]).shared =
        ⟨keyFileOf codec [], [codec.blake3 abSecret.bytes]⟩ := by
  have hread : step (callStep codec) (onlyRevoke codec) (0, ()) =
      ⟨⟨keyFileOf codec [keyA codec], []⟩, [.revoking "a" [keyA codec]]⟩ := by
    simp [step, callStep, onlyRevoke, revoke_reads hserde]
  refine ⟨⟨?_, ?_, trivial⟩, ?_⟩
  · intro call hcall
    obtain rfl := Option.some.inj hcall
    trivial
  · rw [hread]
    intro call hcall
    obtain rfl := Option.some.inj hcall
    intro k hk hne
    obtain rfl := List.mem_singleton.mp hk
    exact absurd rfl hne
  · rw [run_cons, run_cons, run_nil, hread]
    simp only [step, List.getElem?_cons_zero, callStep, revoke_writes hserde]
    rfl

/-- The new key is written with the list that was read before the revocation. -/
theorem createAndRevoke_steps (hserde : codec.RoundTrips) :
    (run (callStep codec) (createAndRevoke codec) [(0, ()), (1, ()), (1, ()), (0, ())]).shared =
      ⟨keyFileOf codec [keyA codec, keyInfo codec "b" cdSecret 1], [codec.blake3 abSecret.bytes]⟩ := by
  have hcreate : (createKey codec "b" cdSecret 1).read (keyFileOf codec [keyA codec]) =
      .ok [keyA codec] := by
    rw [createKey_read _ _ _ (serializeKeys_keyFileOf (α := Bool) hserde _).2]
    rfl
  have hwrite : ∀ file, (createKey codec "b" cdSecret 1).write .written [keyA codec] file =
      (keyFileOf codec [keyA codec, keyInfo codec "b" cdSecret 1],
        (createKey codec "b" cdSecret 1).written) :=
    Update.write_written (serializeKeys_keyFileOf hserde [keyA codec, keyInfo codec "b" cdSecret 1]).1
  have hfirst : step (callStep codec) (createAndRevoke codec) (0, ()) =
      ⟨⟨keyFileOf codec [keyA codec], []⟩,
        [.creating "b" cdSecret 1 [keyA codec], .start (.revoke "a")]⟩ := by
    simp [step, callStep, createAndRevoke, hcreate]
  have hsecond : step (callStep codec) ⟨⟨keyFileOf codec [keyA codec], []⟩,
        [.creating "b" cdSecret 1 [keyA codec], .start (.revoke "a")]⟩ (1, ()) =
      ⟨⟨keyFileOf codec [keyA codec], []⟩,
        [.creating "b" cdSecret 1 [keyA codec], .revoking "a" [keyA codec]]⟩ := by
    simp [step, callStep, revoke_reads hserde]
  have hthird : step (callStep codec) ⟨⟨keyFileOf codec [keyA codec], []⟩,
        [.creating "b" cdSecret 1 [keyA codec], .revoking "a" [keyA codec]]⟩ (1, ()) =
      ⟨⟨keyFileOf codec [], [codec.blake3 abSecret.bytes]⟩,
        [.creating "b" cdSecret 1 [keyA codec], .revoked (.ok true)]⟩ := by
    simp only [step, List.getElem?_cons_succ, List.getElem?_cons_zero, callStep,
      revoke_writes hserde]
    rfl
  rw [run_cons, run_cons, run_cons, run_cons, run_nil, hfirst, hsecond, hthird]
  simp only [step, List.getElem?_cons_zero, callStep, hwrite]

end

theorem revoked_never_validates_alone :
    GatewayKeys.validateKey numberCodec.toKeyCodec (run (callStep numberCodec)
      (onlyRevoke numberCodec) [(0, ()), (0, ())]).shared.file (Sign.toHex abSecret.bytes) = false := by
  obtain ⟨hmeets, hshared⟩ := onlyRevoke_steps numberCodec_roundTrips
  have hrevoked : numberCodec.blake3 abSecret.bytes ∈ (run (callStep numberCodec)
      (onlyRevoke numberCodec) [(0, ()), (0, ())]).shared.revoked := by
    rw [hshared]
    exact List.mem_singleton_self _
  unfold onlyRevoke at hmeets hrevoked ⊢
  exact revoked_never_validates numberCodec numberCodec_roundTrips _
    [.revoke "a"] [(0, ()), (0, ())] hmeets (Sign.toHex abSecret.bytes) abSecret.bytes
    abKey_decodes hrevoked

/-- A key is created between the reading and the writing of another: the key that was revoked in the
meantime validates again. -/
theorem revoked_key_comes_back :
    ¬ ∀ (codec : KeyStoreCodec), codec.RoundTrips → ∀ (file : KeyFile) (ops : List KeyOp)
      (schedule : List (ℕ × Unit)) (rawKey : String) (secretBytes : Bytes),
      codec.hexDecode rawKey = .ok secretBytes →
      codec.blake3 secretBytes ∈
        (run (callStep codec) ⟨⟨file, []⟩, ops.map .start⟩ schedule).shared.revoked →
      GatewayKeys.validateKey codec.toKeyCodec
        (run (callStep codec) ⟨⟨file, []⟩, ops.map .start⟩ schedule).shared.file rawKey = false := by
  intro h
  have hshared := createAndRevoke_steps numberCodec_roundTrips
  unfold createAndRevoke at hshared
  have hinvalid := h numberCodec numberCodec_roundTrips _ [.create "b" cdSecret 1, .revoke "a"]
    [(0, ()), (1, ()), (1, ()), (0, ())] (Sign.toHex abSecret.bytes) abSecret.bytes abKey_decodes
    (by rw [hshared]; exact List.mem_singleton_self _)
  have hlisted : GatewayKeys.Listed numberCodec.toKeyCodec (keyFileOf numberCodec
      [keyA numberCodec, keyInfo numberCodec "b" cdSecret 1]) (Sign.toHex abSecret.bytes) :=
    ⟨abSecret.bytes, _, abKey_decodes, abSecret.length_eq,
      (serializeKeys_keyFileOf (α := Bool) numberCodec_roundTrips _).2.listed,
      keyA numberCodec, by simp, rfl⟩
  rw [hshared, (GatewayKeys.validateKey_iff numberCodec.toKeyCodec _ _).mpr hlisted] at hinvalid
  cases hinvalid

end DSearch.KeyStore
