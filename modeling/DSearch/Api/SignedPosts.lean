import DSearch.Api.InsertAtomic
import DSearch.Node.Announcements
import DSearch.Trust.SignedFields

/-! # Posting a signed record

`handle_insert_record` sanitizes a record before it stores it, and the store signs only what has no
signature. So a signature that was made for the record as it was posted is kept, and it goes on
verifying only if sanitizing has left every field as it was. -/

namespace DSearch
set_option autoImplicit false
open Transaction Records Sanitize Sign

namespace LocalApi
variable {ed : Ed25519} (api : LocalApi ed)

/-- The insert of a record that was received is neither refused, by the gate of the quota or by the
store, nor skipped. -/
def Takes (record : ContentRecord) (s : NodeState) : Prop :=
  let kept := removeRows (Quota.evicted api.store.config record.body.utf8ByteSize s.db) s.db
  Quota.Passes api.store.config record.body.utf8ByteSize s.db ∧ ¬ api.store.Refuses kept record ∧
    ¬ Store.Skips kept record

/-- The answer is an error, or that an older record was skipped. -/
def Declines (out : Outcome HttpResponse) : Prop :=
  ∃ resp, out = .ok resp ∧ (resp.status ≠ 200 ∨ ∃ id, resp = api.insertReply id .skippedOlder)

/-- The record that is stored under `id` verifies under `key`. -/
def VerifiesAt (key : ed.VerifyingKey) (s : NodeState) (id : String) : Prop :=
  ∃ stored, s.db.records[id]? = some stored ∧ Store.verifyRecord stored key = .ok .ok

theorem declines_error (e : String) : api.Declines (.ok (.internalError e)) :=
  ⟨_, rfl, .inl (by decide : (500 : ℕ) ≠ 200)⟩

theorem not_declines_stored {id : String} {result : InsertResult} (hresult : result ≠ .skippedOlder) :
    ¬ api.Declines (.ok (api.insertReply id result)) := by
  rintro ⟨resp, hresp, hstatus | ⟨id', hskipped⟩⟩
  · obtain rfl := Outcome.ok.inj hresp
    exact hstatus rfl
  · obtain rfl := Outcome.ok.inj hresp
    refine api.not_reportsStored_skipped id' ⟨id, result, hresult, ?_⟩
    rw [hskipped]

theorem not_declines_panic : ¬ api.Declines .panic := by
  rintro ⟨resp, hresp, -⟩
  cases hresp

/-- What a post of a received record comes to: it is declined, or the record is stored. -/
theorem handleInsertRecord_ends {req : HttpRequest} {record : ContentRecord}
    (hreceived : api.receivedRecord req = .ok record) (s : NodeState) :
    (¬ api.Takes record s ∧ api.Declines ((api.handleInsertRecord req).run s).2) ∨
    (api.Takes record s ∧ ¬ api.Declines ((api.handleInsertRecord req).run s).2 ∧
      ((api.handleInsertRecord req).run s).1.db.records[record.id]? =
        some (api.store.signed record)) := by
  unfold Takes
  dsimp only
  rcases api.handleInsertRecord_run hreceived s with ⟨hpasses, e, hrun⟩ | ⟨hpasses, hrun⟩
  · rw [hrun]
    exact .inl ⟨fun htakes => hpasses htakes.1, api.declines_error e⟩
  · rw [hrun, onStore_run]
    dsimp only
    generalize removeRows (Quota.evicted api.store.config record.body.utf8ByteSize s.db) s.db = kept
    rcases api.store.insertRecord_ends record kept with
      ⟨hrefuses, e, hend⟩ | ⟨-, hskips, hend⟩ | ⟨hrefuses, hskips, hstored, hend⟩
    · rw [hend]
      exact .inl ⟨fun htakes => htakes.2.1 hrefuses, api.declines_error e⟩
    · rw [hend]
      exact .inl ⟨fun htakes => htakes.2.2 hskips, _, rfl, .inr ⟨record.id, rfl⟩⟩
    · refine .inr ⟨⟨hpasses, hrefuses, hskips⟩, ?_, ?_⟩
      · rcases hend with ⟨-, hout⟩ | ⟨-, result, hresult, hout⟩
        · rw [hout]
          exact api.not_declines_panic
        · rw [hout]
          exact api.not_declines_stored hresult
      · rw [hstored.records, OrderedTable.get_insert, if_pos rfl]

/-- A signature that verifies for one message only verifies for the sanitized record if that is the
record itself. -/
theorem verifyRecord_sanitized_iff {key : ed.VerifyingKey} {record clean : ContentRecord}
    (hverifies : Store.verifyRecord record key = .ok .ok) (hideal : VerifiesOne ed key record.sig)
    (hclean : sanitizeRecord record = .ok clean) :
    Store.verifyRecord clean key = .ok .ok ↔ clean = record := by
  have hsig : clean.sig = record.sig := by
    obtain ⟨-, tags, -, rfl⟩ := sanitizeRecord_eq_ok.mp hclean
    rfl
  constructor
  · intro hagain
    obtain ⟨sigBytes, hparsed, hcheck⟩ := verifySigText_ok hverifies
    obtain ⟨sigBytes', hparsed', hcheck'⟩ := verifySigText_ok hagain
    rw [hsig, hparsed] at hparsed'
    obtain rfl := Vector.toList_inj.mp (Option.some.inj hparsed')
    exact (encode_sanitized_iff hclean).mp (hideal sigBytes hparsed _ _ hcheck hcheck')
  · rintro rfl
    exact hverifies

/-- Posting a signed record is declined or leaves a record that verifies, if and only if sanitizing
leaves the record as it is wherever the post is taken. -/
theorem posted_signature_kept_iff {req : HttpRequest} {record : ContentRecord} {key : ed.VerifyingKey}
    (hparsed : api.recordFromStr req.body = .ok record) (hsigned : record.sig ≠ "")
    (hverifies : Store.verifyRecord record key = .ok .ok) (hideal : VerifiesOne ed key record.sig)
    (s : NodeState) :
    (api.Declines ((api.handleInsertRecord req).run s).2 ∨
        VerifiesAt key ((api.handleInsertRecord req).run s).1 (sanitizeString record.id)) ↔
      ∀ clean, sanitizeRecord record = .ok clean → api.Takes clean s → clean = record := by
  cases hclean : sanitizeRecord record with
  | error e =>
    have hdeclined : api.Declines ((api.handleInsertRecord req).run s).2 := by
      rw [handleInsertRecord, receivedRecord, hparsed]
      dsimp only
      rw [hclean]
      exact ⟨_, rfl, .inl (by decide : (400 : ℕ) ≠ 200)⟩
    exact iff_of_true (.inl hdeclined) fun clean heq => by cases heq
  | ok clean =>
    have hreceived : api.receivedRecord req = .ok clean := by
      rw [receivedRecord, hparsed]
      dsimp only
      rw [hclean]
    have hid : clean.id = sanitizeString record.id ∧ clean.sig = record.sig := by
      obtain ⟨-, tags, -, rfl⟩ := sanitizeRecord_eq_ok.mp hclean
      exact ⟨rfl, rfl⟩
    simp only [Except.ok.injEq, forall_eq']
    rcases api.handleInsertRecord_ends hreceived s with ⟨htakes, hdeclined⟩ |
      ⟨htakes, hdeclined, hstored⟩
    · exact iff_of_true (.inl hdeclined) fun h => absurd h htakes
    · rw [hid.1, api.store.signed_of_sig (by rw [hid.2]; exact hsigned)] at hstored
      have hstays := verifyRecord_sanitized_iff hverifies hideal hclean
      simp only [hdeclined, false_or, htakes, forall_const, VerifiesAt, hstored, Option.some.injEq,
        exists_eq_left', hstays]

/-- An empty store without a quota takes every record that is not too large. -/
theorem takes_empty {record : ContentRecord} (hquota : api.store.config.quotaMb = 0)
    (hsize : (api.store.signed record).validateSize = .ok ()) : api.Takes record (.new .empty) := by
  have hroom : ¬ Quota.Over api.store.config record.body.utf8ByteSize Db.empty := by
    rintro ⟨hpositive, -⟩
    omega
  have hevicted : Quota.evicted api.store.config record.body.utf8ByteSize Db.empty = [] :=
    if_neg fun h => hroom h.1
  have hnone : Records.dedupResult Db.empty record = none := by simp [dedupResult, Db.empty]
  have hdb : (NodeState.new Db.empty).db = Db.empty := rfl
  unfold Takes
  dsimp only
  rw [hdb, hevicted, removeRows_nil]
  refine ⟨.inl hroom, ?_, ?_⟩
  · rintro (hlong | ⟨-, hover⟩)
    · exact hlong hsize
    · simp [overQuota, hquota] at hover
  · rintro ⟨id, hskip⟩
    rw [hnone] at hskip
    cases hskip

end LocalApi

/-- The local API over an empty store, where the body of a request is this record. -/
def postApi (ed : Ed25519) (record : ContentRecord) : LocalApi ed where
  store := ⟨⟨0, ""⟩, none⟩
  nodeId := "n"
  settings := ⟨"full", 1, 100, [], 3600, "ephemeral"⟩
  files := ⟨[], .ok [], false, []⟩
  env := ⟨0, 0, .sorted, id⟩
  openapiJson _ := []
  blake3 _ := ""
  zeroKey := none
  recordFromStr body := if body = jsonText record then .ok record else .error "expected value"
  recordsFromStr _ := .error "expected value"
  bodyField _ _ := .ok none
  readToString _ := .error "No such file or directory"
  otherPost _ := LocalApi.respond (.notFound "unknown route")

theorem postApi_reads (ed : Ed25519) (record : ContentRecord) :
    (postApi ed record).recordFromStr (insertRequest record).body = .ok record := if_pos rfl

theorem postApi_receivedRecord (ed : Ed25519) {record clean : ContentRecord}
    (hclean : sanitizeRecord record = .ok clean) :
    (postApi ed record).receivedRecord (insertRequest record) = .ok clean := by
  rw [LocalApi.receivedRecord, postApi_reads]
  dsimp only
  rw [hclean]

def posted (ed : Ed25519) (record : ContentRecord) : NodeState × Outcome HttpResponse :=
  ((postApi ed record).handleInsertRecord (insertRequest record)).run (.new .empty)

/-- A record with a control character in its body, signed as it is. -/
def signedDirty : ContentRecord :=
  signingStore.signed { makeRecord "r1" "src" 1 0 with body := "a\x00b" }

def signedCleaned : ContentRecord := { signedDirty with body := "ab" }

/-- The record is stored without the character and with the signature that was made with it. -/
theorem posted_signature_broken :
    signedDirty.sig ≠ "" ∧
      Store.verifyRecord signedDirty (Ed25519.checksum.verifyingKey (7 : UInt8)) = .ok .ok ∧
      ¬ ((postApi .checksum signedDirty).Declines (posted .checksum signedDirty).2 ∨
        LocalApi.VerifiesAt (Ed25519.checksum.verifyingKey (7 : UInt8)) (posted .checksum signedDirty).1
          "r1") := by
  have hfails : Store.verifyRecord signedCleaned (Ed25519.checksum.verifyingKey (7 : UInt8)) ≠
      .ok .ok := by
    decide +kernel
  have hclean : sanitizeRecord signedDirty = .ok signedCleaned := by decide +kernel
  have hreceived := postApi_receivedRecord .checksum hclean
  have htaken : (postApi .checksum signedDirty).Takes signedCleaned (.new .empty) :=
    LocalApi.takes_empty _ rfl (by decide +kernel)
  refine ⟨by decide +kernel, by decide +kernel, ?_⟩
  rcases (postApi .checksum signedDirty).handleInsertRecord_ends hreceived (.new .empty) with
    ⟨htakes, -⟩ | ⟨-, hdeclined, hstored⟩
  · exact absurd htaken htakes
  · have hid : signedCleaned.id = "r1" := by decide +kernel
    have hsigned : (postApi .checksum signedDirty).store.signed signedCleaned = signedCleaned := rfl
    rw [hid, hsigned] at hstored
    rintro (hdeclines | ⟨stored, hget, hverifies⟩)
    · exact hdeclined hdeclines
    · rw [posted, hstored] at hget
      obtain rfl := Option.some.inj hget
      exact hfails hverifies

theorem posted_signature_kept_iff_signedOnce :
    ((postApi oneRecord signedOnce).Declines (posted oneRecord signedOnce).2 ∨
        @LocalApi.VerifiesAt oneRecord () (posted oneRecord signedOnce).1
          (sanitizeString "r1")) ↔
      ∀ clean, sanitizeRecord signedOnce = .ok clean →
        (postApi oneRecord signedOnce).Takes clean (.new .empty) → clean = signedOnce :=
  @LocalApi.posted_signature_kept_iff oneRecord (postApi oneRecord signedOnce)
    (insertRequest signedOnce) signedOnce () (postApi_reads _ _) (by decide +kernel)
    (by decide +kernel) verifiesOne_signedOnce (.new .empty)

end DSearch
