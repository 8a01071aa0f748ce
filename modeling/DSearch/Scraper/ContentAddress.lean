import DSearch.Api.Handlers
import DSearch.Scraper.Permanence
import DSearch.Storage.InsertEnds
import DSearch.Trust.RecordIds

/-! # Whether scraped records are named by their content

The runners hash a record without its tags, attach the tags, sanitize, and store. The id that
`Store::verify_record_id` computes from what is stored is another one, unless there are no tags and
sanitizing changed nothing: never for a url or a feed job, which tag their records. -/

namespace DSearch
set_option autoImplicit false
open Transaction Scraper Sign Sanitize

theorem LocalApi.verifyRecordId_valid {ed : Ed25519} (api : LocalApi ed) (record : ContentRecord) :
    (api.verifyRecordId record).valid = true ↔ IdMatches api.blake3 record := by
  unfold LocalApi.verifyRecordId
  dsimp only
  split
  · next hmatches => exact iff_of_true rfl hmatches
  · next hmatches => exact iff_of_false (by decide) hmatches

/-! ## The records of the three runners -/

section
variable (env : ScrapeEnv)

theorem hashedUntagged_urlRecord (name target lifecycle : String) (ttlSecs : ℕ) (body : String)
    (now : ℕ) : HashedUntagged env.blake3 (urlRecord env name target lifecycle ttlSecs body now) :=
  ⟨rfl, _, rfl⟩

theorem hashedUntagged_feedRecord (name : String) (ttlSecs : ℕ) (entry : FeedEntry) (now : ℕ) :
    HashedUntagged env.blake3 (feedRecord env name ttlSecs entry now) :=
  ⟨rfl, _, rfl⟩

theorem hashedUntagged_apiRecord (ttlSecs : ℕ) (item : ApiItem) (now : ℕ) :
    HashedUntagged env.blake3 (apiRecord env ttlSecs item now) :=
  ⟨rfl, _, rfl⟩

/-- A tag with a letter that is kept leaves text in the tags. -/
theorem not_sanitizesToHashed_of_tag {made : ContentRecord} {tag : String}
    (htags : made.tags = [tag]) (ch : Char) (hch : ch ∈ tag.toList) (hkept : isKept ch = true) :
    ¬ SanitizesToHashed made := by
  rintro ⟨-, -, hempty, -⟩
  rw [htags, List.map_singleton, String.intercalate_singleton] at hempty
  have hmem : ch ∈ (sanitizeString tag).toList := by
    rw [toList_sanitizeString]
    exact List.mem_filter.mpr ⟨hch, hkept⟩
  rw [hempty] at hmem
  cases hmem

theorem not_sanitizesToHashed_urlRecord (name target lifecycle : String) (ttlSecs : ℕ) (body : String)
    (now : ℕ) : ¬ SanitizesToHashed (urlRecord env name target lifecycle ttlSecs body now) := by
  refine not_sanitizesToHashed_of_tag rfl 's' ?_ (by decide)
  rw [String.toList_append]
  exact List.mem_append_left _ (by decide)

theorem not_sanitizesToHashed_feedRecord (name : String) (ttlSecs : ℕ) (entry : FeedEntry) (now : ℕ) :
    ¬ SanitizesToHashed (feedRecord env name ttlSecs entry now) := by
  refine not_sanitizesToHashed_of_tag rfl 'f' ?_ (by decide)
  rw [String.toList_append]
  exact List.mem_append_left _ (by decide)

/-- The record is what a runner stores of the one that it made. -/
def StoredFrom (made record : ContentRecord) : Prop :=
  ∃ (clean : ContentRecord) (sig : String),
    sanitizeRecord made = .ok clean ∧ record = { clean with sig := sig }

/-- In whatever state their transactions run, url and feed jobs store only records whose id is not the
digest of their content, and api jobs store records whose id is so exactly if sanitizing leaves the
fields that were hashed. -/
theorem scraped_ids_match_iff {ed : Ed25519} (store : Store ed) (hideal : IdealDigest env.blake3) :
    (∀ name target lifecycle ttlSecs now,
      (runUrlJob store env name target lifecycle ttlSecs now).Guarantees
        (AddsOnly fun record => ¬ IdMatches env.blake3 record)) ∧
    (∀ name target ttlSecs, (runFeedJob store env name target ttlSecs).Guarantees
      (AddsOnly fun record => ¬ IdMatches env.blake3 record)) ∧
    ∀ name target ttlSecs items, env.apiItems target = .ok items →
      (runApiJob store env name target ttlSecs).Guarantees (AddsOnly fun record =>
        ∃ item ∈ items, ∃ now, StoredFrom (apiRecord env ttlSecs item now) record ∧
          (IdMatches env.blake3 record ↔ SanitizesToHashed (apiRecord env ttlSecs item now))) := by
  refine ⟨fun name target lifecycle ttlSecs now => ?_, fun name target ttlSecs => ?_,
    fun name target ttlSecs items hitems => ?_⟩
  · refine runUrlJob_within fun body => Yields.inserts store fun record hsanitized sig => ?_
    rw [idMatches_sanitized_iff hideal (hashedUntagged_urlRecord env _ _ _ _ _ _) hsanitized]
    exact not_sanitizesToHashed_urlRecord env _ _ _ _ _ _
  · refine runFeedJob_within fun entry now => Yields.inserts store fun record hsanitized sig => ?_
    rw [idMatches_sanitized_iff hideal (hashedUntagged_feedRecord env _ _ _ _) hsanitized]
    exact not_sanitizesToHashed_feedRecord env _ _ _ _
  · refine runApiJob_within fun items' hitems' item hitem now => ?_
    refine Yields.inserts store fun record hsanitized sig => ?_
    obtain rfl := Except.ok.inj (hitems.symm.trans hitems')
    exact ⟨item, hitem, now, ⟨record, sig, hsanitized, rfl⟩,
      idMatches_sanitized_iff hideal (hashedUntagged_apiRecord env _ _ _) hsanitized sig⟩

end

/-! ## A page -/

/-- A stand-in for a digest: the input itself, in hexadecimal. -/
def hexDigest (bytes : Bytes) : String := toHex (1 :: bytes)

theorem idealDigest_hexDigest : IdealDigest hexDigest where
  injective := fun bytes bytes' h => (List.cons.inj (toHex_injective h)).2
  nonempty bytes h := by
    have hchars := congrArg String.toList h
    rw [hexDigest, toHex, String.toList_ofList] at hchars
    cases hchars
  hexadecimal bytes := toHex_hexadecimal (1 :: bytes)

def untaggedItem : ApiItem := ⟨"https://h/a", "generic/kv", [], "text"⟩

def hexEnv : ScrapeEnv := { stillEnv with blake3 := hexDigest, apiItems := fun _ => .ok [untaggedItem] }

theorem scraped_ids_match_iff_hex :
    (runUrlJob plainStore hexEnv "news" "https://h/a" "ephemeral" 500 1000).Guarantees
        (AddsOnly fun record => ¬ IdMatches hexDigest record) ∧
      (runFeedJob plainStore hexEnv "news" "https://h/a" 500).Guarantees
        (AddsOnly fun record => ¬ IdMatches hexDigest record) ∧
      (runApiJob plainStore hexEnv "news" "https://h/a" 500).Guarantees (AddsOnly fun record =>
        ∃ item ∈ [untaggedItem], ∃ now, StoredFrom (apiRecord hexEnv 500 item now) record ∧
          (IdMatches hexDigest record ↔ SanitizesToHashed (apiRecord hexEnv 500 item now))) :=
  have hmatch := scraped_ids_match_iff hexEnv plainStore idealDigest_hexDigest
  ⟨hmatch.1 _ _ _ _ _, hmatch.2.1 _ _ _, hmatch.2.2 _ _ _ _ rfl⟩

def pageRecord : ContentRecord := urlRecord hexEnv "news" "https://h/a" "ephemeral" 500 "page" 1000

theorem pageRecord_unchanged : Unchanged pageRecord where
  id := sanitizeString_eq_self_iff.mpr (idealDigest_hexDigest.kept _)
  sourceUrl := sanitizeString_ascii (by decide)
  sourceHash := sanitizeString_eq_self_iff.mpr (idealDigest_hexDigest.kept _)
  schema := sanitizeString_ascii (by decide)
  tags := mapM_sanitizeTag_literals rfl (by decide)
  body := sanitizeString_ascii (by decide)
  bodySize := JsonText.utf8ByteSize_literal_le (by decide)

theorem sourceHash_pageRecord : pageRecord.sourceHash.utf8ByteSize ≤ 400 := by
  have hnormal : normalizeSourceUrl id "https://h/a" = "https://h/a" := by decide +kernel
  have hdigest : pageRecord.sourceHash = toHex (1 :: asBytes "https://h/a") :=
    congrArg hexDigest (congrArg asBytes hnormal)
  have hurl : "https://h/a".utf8ByteSize ≤ 44 := JsonText.utf8ByteSize_literal_le (by decide)
  have hsize := utf8ByteSize_toHex_le (1 :: asBytes "https://h/a")
  rw [List.length_cons, length_asBytes] at hsize
  rw [hdigest]
  omega

theorem id_pageRecord : pageRecord.id.utf8ByteSize ≤ 8000 := by
  have hprefix : ∀ n, (lengthPrefix n).length = 4 := fun n => rfl
  have hurl : "https://h/a".utf8ByteSize ≤ 44 := JsonText.utf8ByteSize_literal_le (by decide)
  have hhash : (computeSourceHash hexEnv.blake3 hexEnv.toLowercase "https://h/a").utf8ByteSize ≤ 400 :=
    sourceHash_pageRecord
  have hschema : "generic/kv".utf8ByteSize ≤ 40 := JsonText.utf8ByteSize_literal_le (by decide)
  have hbody : "page".utf8ByteSize ≤ 16 := JsonText.utf8ByteSize_literal_le (by decide)
  have htime : (asBytes (toString 1000)).length = 4 := by decide
  refine (utf8ByteSize_toHex_le _).trans ?_
  simp only [canonicalEncodeFields, List.flatMap_cons, List.flatMap_nil, List.length_cons,
    List.length_append, List.length_nil, hprefix, length_asBytes] at htime ⊢
  omega

theorem pageRecord_short : pageRecord.Short where
  id := id_pageRecord
  sourceUrl := JsonText.utf8ByteSize_literal_le (by decide)
  sourceHash := sourceHash_pageRecord.trans (by decide)
  schema := JsonText.utf8ByteSize_literal_le (by decide)
  tags := (JsonText.length_ofArray_singleton_le (JsonText.utf8ByteSize_literals_le le_rfl)).trans
    (by decide)
  body := JsonText.utf8ByteSize_literal_le (by decide)
  createdAt := by decide
  expiresAt := by decide
  sig := by decide

/-- A page without any control character is stored under an id that is not the digest of the record. -/
theorem scraped_id_mismatch :
    IdealDigest hexDigest ∧
      ((runUrlJob plainStore hexEnv "news" "https://h/a" "ephemeral" 500 1000).run Db.empty).1.records[
        pageRecord.id]? = some pageRecord ∧
      ¬ IdMatches hexDigest pageRecord := by
  refine ⟨idealDigest_hexDigest, ?_, ?_⟩
  · have htaken : ¬ plainStore.Refuses Db.empty pageRecord :=
      plainStore.not_refuses rfl pageRecord_short.validateSize Db.empty
    rw [runUrlJob_db plainStore rfl pageRecord_unchanged.sanitizeRecord]
    exact plainStore.insertRecord_stores htaken
  · rw [idMatches_sanitized_iff idealDigest_hexDigest (hashedUntagged_urlRecord hexEnv _ _ _ _ _ _)
      pageRecord_unchanged.sanitizeRecord pageRecord.sig]
    exact not_sanitizesToHashed_urlRecord hexEnv _ _ _ _ _ _

end DSearch
