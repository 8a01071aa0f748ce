import DSearch.Storage.AnnouncementKeys
import DSearch.Trust.RecordIds

/-! # What a canonical encoding tells apart

Two lists of fields have the same encoding if they are equal, or if the length of a field passes
`2^32`: the prefix is the length modulo `2^32`, and the bytes that it does not count may be those of the
fields that follow. Records and announcements come into their encodings with the tags joined by commas,
and a comma may stand in a tag. A record and its sanitized form are told apart whatever their length. -/

namespace DSearch
set_option autoImplicit false
open Utf8Text Sign

namespace Sign

/-! ## Lists of fields -/

/-- At the first field where they differ, `fields'` goes on by a multiple of `2^32` bytes, and these are
the encoding of what comes next in `fields`. -/
def LengthWraps (fields fields' : List Bytes) : Prop :=
  ∃ before field extra rest rest', fields = before ++ field :: rest ∧
    fields' = before ++ (field ++ extra) :: rest' ∧ extra ≠ [] ∧ 2 ^ 32 ∣ extra.length ∧
      canonicalEncodeFields rest = extra ++ canonicalEncodeFields rest'

theorem LengthWraps.cons {fields fields' : List Bytes} (field : Bytes)
    (h : LengthWraps fields fields') : LengthWraps (field :: fields) (field :: fields') := by
  obtain ⟨before, first, extra, rest, rest', rfl, rfl, hextra⟩ := h
  exact ⟨field :: before, first, extra, rest, rest', rfl, rfl, hextra⟩

theorem LengthWraps.encode_eq {fields fields' : List Bytes} (h : LengthWraps fields fields') :
    canonicalEncodeFields fields = canonicalEncodeFields fields' := by
  obtain ⟨before, field, extra, rest, rest', rfl, rfl, -, hdvd, hrest⟩ := h
  induction before with
  | nil =>
    have hlength : lengthPrefix (field ++ extra).length = lengthPrefix field.length := by
      rw [lengthPrefix_eq_iff, List.length_append]
      omega
    rw [List.nil_append, List.nil_append, canonicalEncodeFields_cons, canonicalEncodeFields_cons,
      hlength, hrest, List.append_assoc]
  | cons first before ih =>
    rw [List.cons_append, List.cons_append]
    exact (canonicalEncodeFields_cons_inj first).mpr ih

/-- Two fields of the same length modulo `2^32`, each before some encoded fields: the same, or the
longer one goes on into the fields after the other. -/
theorem lengthWraps_of_shorter {field field' : Bytes} {fields fields' : List Bytes}
    (hlength : field.length % 2 ^ 32 = field'.length % 2 ^ 32) (hle : field.length ≤ field'.length)
    (hne : field ≠ field')
    (h : field ++ canonicalEncodeFields fields = field' ++ canonicalEncodeFields fields') :
    LengthWraps (field :: fields) (field' :: fields') := by
  obtain ⟨extra, rfl⟩ := List.prefix_of_prefix_length_le (h ▸ List.prefix_append field _)
    (List.prefix_append field' _) hle
  refine ⟨[], field, extra, fields, fields', rfl, rfl, ?_, ?_, ?_⟩
  · rintro rfl
    exact hne (List.append_nil field).symm
  · rw [List.length_append] at hlength
    omega
  · rw [List.append_assoc] at h
    exact List.append_cancel_left h

theorem canonicalEncodeFields_eq_iff (fields fields' : List Bytes) :
    canonicalEncodeFields fields = canonicalEncodeFields fields' ↔
      fields = fields' ∨ LengthWraps fields fields' ∨ LengthWraps fields' fields := by
  constructor
  · intro h
    induction fields generalizing fields' with
    | nil =>
      cases fields' with
      | nil => exact .inl rfl
      | cons field' fields' => cases h
    | cons field fields ih =>
      cases fields' with
      | nil => cases h
      | cons field' fields' =>
        by_cases hfield : field = field'
        · subst hfield
          rcases ih fields' ((canonicalEncodeFields_cons_inj field).mp h) with heq | hwraps | hwraps
          · exact .inl (congrArg (field :: ·) heq)
          · exact .inr (.inl (hwraps.cons field))
          · exact .inr (.inr (hwraps.cons field))
        · rw [canonicalEncodeFields_cons, canonicalEncodeFields_cons] at h
          obtain ⟨hstart, hbytes⟩ := List.append_inj h rfl
          have hlength := lengthPrefix_eq_iff.mp hstart
          rcases Nat.le_total field.length field'.length with hle | hle
          · exact .inr (.inl (lengthWraps_of_shorter hlength hle hfield hbytes))
          · exact .inr (.inr (lengthWraps_of_shorter hlength.symm hle (Ne.symm hfield) hbytes.symm))
  · rintro (rfl | hwraps | hwraps)
    · rfl
    · exact hwraps.encode_eq
    · exact hwraps.encode_eq.symm

def Short (fields : List Bytes) : Prop := ∀ field ∈ fields, field.length < 2 ^ 32

instance (fields : List Bytes) : Decidable (Short fields) := by
  unfold Short
  infer_instance

theorem Short.not_wraps {fields fields' : List Bytes} (h : Short fields') :
    ¬ LengthWraps fields fields' := by
  rintro ⟨before, field, extra, rest, rest', -, rfl, hextra, hdvd, -⟩
  have hlength := h (field ++ extra) (by simp)
  have hpositive := List.length_pos_of_ne_nil hextra
  have hle := Nat.le_of_dvd hpositive hdvd
  rw [List.length_append] at hlength
  omega

theorem Short.inj {fields fields' : List Bytes} (h : Short fields) (h' : Short fields')
    (heq : canonicalEncodeFields fields = canonicalEncodeFields fields') : fields = fields' := by
  obtain hsame | hwraps | hwraps := (canonicalEncodeFields_eq_iff fields fields').mp heq
  · exact hsame
  · exact absurd hwraps h'.not_wraps
  · exact absurd hwraps h.not_wraps

/-! ## The three formats -/

def RecordFields.toList (fields : RecordFields) : List Bytes :=
  [fields.id, fields.sourceUrl, fields.sourceHash, fields.schema, fields.tags, fields.body,
    fields.createdAt, fields.expiresAt, fields.scrapeSource, fields.refreshPolicy]

def AnnouncementFields.toList (fields : AnnouncementFields) : List Bytes :=
  [fields.recordId, fields.sourceHash, fields.schema, fields.tags, fields.holderAddr,
    fields.expiresAt]

/-- The fields that `compute_record_id` hashes. -/
def hashedFields (sourceUrl sourceHash schema tags body createdAt : Bytes) : List Bytes :=
  [sourceUrl, sourceHash, schema, tags, body, createdAt]

theorem computeRecordId_eq (blake3 : Bytes → String)
    (sourceUrl sourceHash schema tags body createdAt : Bytes) :
    computeRecordId blake3 sourceUrl sourceHash schema tags body createdAt =
      blake3 (canonicalEncodeFields
        (hashedFields sourceUrl sourceHash schema tags body createdAt)) := rfl

/-- Fields below `2^32` bytes are read back from their encoding, so a record, which has ten, is never
encoded as an announcement or as what is hashed for an id. -/
theorem canonicalEncodeFields_injective :
    (∀ fields fields' : List Bytes, Short fields → Short fields' →
      canonicalEncodeFields fields = canonicalEncodeFields fields' → fields = fields') ∧
    (∀ (record : RecordFields) (ann : AnnouncementFields), Short record.toList → Short ann.toList →
      record.encode ≠ ann.encode) ∧
    (∀ (record : RecordFields) (sourceUrl sourceHash schema tags body createdAt : Bytes),
      Short record.toList → Short (hashedFields sourceUrl sourceHash schema tags body createdAt) →
        record.encode ≠ canonicalEncodeFields
          (hashedFields sourceUrl sourceHash schema tags body createdAt)) := by
  refine ⟨fun fields fields' => Short.inj, ?_, ?_⟩
  · intro record ann hrecord hann heq
    have hfields := congrArg List.length (Short.inj hrecord hann heq)
    simp [RecordFields.toList, AnnouncementFields.toList] at hfields
  · intro record sourceUrl sourceHash schema tags body createdAt hrecord hhashed heq
    have hfields := congrArg List.length (Short.inj hrecord hhashed heq)
    simp [RecordFields.toList, hashedFields] at hfields

theorem canonicalEncodeFields_injective_pair :
    canonicalEncodeFields [[1], [2]] ≠ canonicalEncodeFields [[1, 2], []] ∧
      (recordFields (makeRecord "r1" "src" 1 0)).encode ≠
        (announcementFields (announcementOf "r1" "h:1")).encode := by
  refine ⟨fun h => ?_, canonicalEncodeFields_injective.2.1 _ _ (by decide +kernel) (by decide +kernel)⟩
  have hsame := canonicalEncodeFields_injective.1 _ _ (by decide) (by decide) h
  exact absurd hsame (by decide)

end Sign

/-! ## What a signature covers -/

theorem toString_nat_inj {m n : ℕ} : toString m = toString n ↔ m = n := by
  constructor
  · intro h
    have hdigits := congrArg (fun s : String => Nat.ofDigitChars 10 s.toList 0) h
    simpa [Nat.toString_eq_repr, Nat.toList_repr, Nat.ofDigitChars_ten_toDigits] using hdigits
  · exact congrArg toString

theorem ScrapeSource.asStr_inj {s t : ScrapeSource} : s.asStr = t.asStr ↔ s = t := by
  cases s <;> cases t <;> decide

theorem RefreshPolicy.asStr_inj {s t : RefreshPolicy} : s.asStr = t.asStr ↔ s = t := by
  cases s <;> cases t <;> decide

/-- The records have the same signed values: all fields but `sig`, and of the tags their join. -/
structure SameSigned (r r' : ContentRecord) : Prop where
  id : r.id = r'.id
  sourceUrl : r.sourceUrl = r'.sourceUrl
  sourceHash : r.sourceHash = r'.sourceHash
  schema : r.schema = r'.schema
  joinedTags : String.intercalate "," r.tags = String.intercalate "," r'.tags
  body : r.body = r'.body
  createdAt : r.createdAt = r'.createdAt
  expiresAt : r.expiresAt = r'.expiresAt
  scrapeSource : r.scrapeSource = r'.scrapeSource
  refreshPolicy : r.refreshPolicy = r'.refreshPolicy

theorem recordFields_eq_iff (r r' : ContentRecord) :
    (recordFields r).toList = (recordFields r').toList ↔ SameSigned r r' := by
  simp only [RecordFields.toList, recordFields, joinedTags, List.cons.injEq, asBytes_inj,
    toString_nat_inj, ScrapeSource.asStr_inj, RefreshPolicy.asStr_inj, and_true]
  constructor
  · rintro ⟨hid, hurl, hhash, hschema, htags, hbody, hcreated, hexpires, hsource, hpolicy⟩
    exact ⟨hid, hurl, hhash, hschema, htags, hbody, hcreated, hexpires, hsource, hpolicy⟩
  · rintro ⟨hid, hurl, hhash, hschema, htags, hbody, hcreated, hexpires, hsource, hpolicy⟩
    exact ⟨hid, hurl, hhash, hschema, htags, hbody, hcreated, hexpires, hsource, hpolicy⟩

structure SameSignedAnnouncement (a a' : Announcement) : Prop where
  recordId : a.recordId = a'.recordId
  sourceHash : a.sourceHash = a'.sourceHash
  schema : a.schema = a'.schema
  joinedTags : String.intercalate "," a.tags = String.intercalate "," a'.tags
  holderAddr : a.holderAddr = a'.holderAddr
  expiresAt : a.expiresAt = a'.expiresAt

theorem announcementFields_eq_iff (a a' : Announcement) :
    (announcementFields a).toList = (announcementFields a').toList ↔ SameSignedAnnouncement a a' := by
  simp only [AnnouncementFields.toList, announcementFields, joinedTags, List.cons.injEq, asBytes_inj,
    toString_nat_inj, and_true]
  constructor
  · rintro ⟨hid, hhash, hschema, htags, haddr, hexpires⟩
    exact ⟨hid, hhash, hschema, htags, haddr, hexpires⟩
  · rintro ⟨hid, hhash, hschema, htags, haddr, hexpires⟩
    exact ⟨hid, hhash, hschema, htags, haddr, hexpires⟩

/-- The length of a field wraps, in the one list or in the other. -/
def FieldsWrap (fields fields' : List Bytes) : Prop :=
  LengthWraps fields fields' ∨ LengthWraps fields' fields

/-- The bytes that are signed differ unless the signed values agree or the length of a field wraps. -/
theorem signed_bytes_differ_iff (r r' : ContentRecord) (a a' : Announcement) :
    ((recordFields r).encode ≠ (recordFields r').encode ↔
      ¬ SameSigned r r' ∧ ¬ FieldsWrap (recordFields r).toList (recordFields r').toList) ∧
    ((announcementFields a).encode ≠ (announcementFields a').encode ↔
      ¬ SameSignedAnnouncement a a' ∧
        ¬ FieldsWrap (announcementFields a).toList (announcementFields a').toList) := by
  constructor
  · rw [← not_or, ← recordFields_eq_iff]
    exact not_congr (canonicalEncodeFields_eq_iff (recordFields r).toList (recordFields r').toList)
  · rw [← not_or, ← announcementFields_eq_iff]
    exact not_congr
      (canonicalEncodeFields_eq_iff (announcementFields a).toList (announcementFields a').toList)

def taggedRecord (tags : List String) : ContentRecord :=
  { makeRecord "r1" "src" 1 0 with tags := tags }

def taggedAnnouncement (tags : List String) : Announcement :=
  { announcementOf "r1" "h:1" with tags := tags }

/-- A signature for the tags `a` and `b` is one for the tag `a,b`, and one for no tags is one for the
empty tag. -/
theorem tags_not_told_apart :
    (taggedRecord ["a", "b"] ≠ taggedRecord ["a,b"] ∧
      (recordFields (taggedRecord ["a", "b"])).encode =
        (recordFields (taggedRecord ["a,b"])).encode) ∧
    taggedAnnouncement [] ≠ taggedAnnouncement [""] ∧
      (announcementFields (taggedAnnouncement [])).encode =
        (announcementFields (taggedAnnouncement [""])).encode := by
  decide +kernel

/-! ## Sanitized records -/

namespace Sanitize

theorem sanitizeString_append (s t : String) :
    sanitizeString (s ++ t) = sanitizeString s ++ sanitizeString t := by
  rw [← String.toList_inj, toList_sanitizeString, String.toList_append, String.toList_append,
    List.filter_append, toList_sanitizeString, toList_sanitizeString]

/-- Tags are sanitized one by one, and a comma stays: the join of what is left is the sanitized join. -/
theorem intercalate_sanitizeString (tags : List String) :
    String.intercalate "," (tags.map sanitizeString) = sanitizeString (String.intercalate "," tags) := by
  have hcomma : sanitizeString "," = "," := by decide +kernel
  induction tags with
  | nil => rfl
  | cons tag tags ih =>
    cases tags with
    | nil => rfl
    | cons next tags =>
      rw [List.map_cons] at ih
      rw [List.map_cons, List.map_cons, String.intercalate_cons_cons, String.intercalate_cons_cons, ih,
        sanitizeString_append, sanitizeString_append, hcomma]

theorem mem_intercalate {tags : List String} {tag : String} {ch : Char} (htag : tag ∈ tags)
    (hch : ch ∈ tag.toList) : ch ∈ (String.intercalate "," tags).toList := by
  induction tags with
  | nil => cases htag
  | cons first tags ih =>
    cases tags with
    | nil =>
      rw [List.mem_singleton] at htag
      subst htag
      exact hch
    | cons next tags =>
      rw [String.intercalate_cons_cons, String.toList_append, String.toList_append]
      rcases List.mem_cons.mp htag with rfl | hrest
      · exact List.mem_append_left _ (List.mem_append_left _ hch)
      · exact List.mem_append_right _ (ih hrest)

theorem sanitizeString_intercalate_eq_iff {tags : List String} :
    sanitizeString (String.intercalate "," tags) = String.intercalate "," tags ↔
      tags.map sanitizeString = tags := by
  constructor
  · intro h
    rw [sanitizeString_eq_self_iff] at h
    have hclean : ∀ tag ∈ tags, sanitizeString tag = tag := fun tag htag =>
      sanitizeString_eq_self_iff.mpr fun ch hch => h ch (mem_intercalate htag hch)
    exact (List.map_congr_left hclean).trans (List.map_id tags)
  · intro h
    rw [← intercalate_sanitizeString, h]

end Sanitize

open Sanitize

/-- Removed characters do not reach the first character that is kept in the fields after them. -/
theorem length_removed_lt_of_fields {removed : List Char} {texts : List String}
    {before rest : Bytes} (hremoved : ∀ c ∈ removed, isKept c = false)
    (hkept : ∀ text ∈ texts, sanitizeString text = text) (htext : ∃ text ∈ texts, text ≠ "")
    (h : encode removed ++ rest = before ++ canonicalEncodeFields (texts.map asBytes)) :
    (encode removed).length < before.length + 4 * texts.length + 4 := by
  induction texts generalizing before with
  | nil =>
    obtain ⟨text, hmem, -⟩ := htext
    cases hmem
  | cons first texts ih =>
    rw [List.map_cons, canonicalEncodeFields_cons] at h
    by_cases hfirst : first = ""
    · -- an empty field is its prefix only
      subst hfirst
      have hrest : ∃ text ∈ texts, text ≠ "" := by
        obtain ⟨text, hmem, hne⟩ := htext
        exact ⟨text, (List.mem_cons.mp hmem).resolve_left hne, hne⟩
      rw [← List.append_assoc] at h
      have hshort := ih (fun text hmem => hkept text (List.mem_cons_of_mem _ hmem)) hrest h
      rw [List.length_append, length_lengthPrefix] at hshort
      rw [List.length_cons]
      omega
    · obtain ⟨ch, hch, after, hbytes⟩ := exists_first hfirst
      have hkeptFirst := sanitizeString_eq_self_iff.mp (hkept first List.mem_cons_self) ch hch
      rw [hbytes, List.append_assoc (String.utf8EncodeChar ch), ← List.append_assoc before] at h
      have hshort := length_removed_lt hremoved hkeptFirst h
      rw [List.length_append, length_lengthPrefix] at hshort
      rw [List.length_cons]
      omega

/-- Texts before others that are clean and not all empty: their encoding shows whether sanitizing has
changed one, however long they are. -/
theorem encoded_sanitized_iff {texts tail : List String}
    (hkept : ∀ text ∈ tail, sanitizeString text = text) (htail : ∃ text ∈ tail, text ≠ "")
    (hfew : texts.length + tail.length < 2 ^ 28) :
    canonicalEncodeFields ((texts ++ tail).map asBytes) =
        canonicalEncodeFields ((texts.map sanitizeString ++ tail).map asBytes) ↔
      texts.map sanitizeString = texts := by
  constructor
  · intro h
    induction texts with
    | nil => rfl
    | cons text texts ih =>
      rw [List.length_cons] at hfew
      rw [List.cons_append, List.map_cons, List.map_cons, List.cons_append, List.map_cons] at h
      obtain ⟨hsame, hrest⟩ | ⟨removed, hremoved, hlong, hbytes⟩ := sanitized_field h
      · rw [List.map_cons, hsame, ih (by omega) hrest]
      · have hclean : ∀ later ∈ texts.map sanitizeString ++ tail, sanitizeString later = later := by
          intro later hlater
          rcases List.mem_append.mp hlater with hmap | hmem
          · obtain ⟨original, -, rfl⟩ := List.mem_map.mp hmap
            exact sanitizeString_idem original
          · exact hkept later hmem
        obtain ⟨later, hlater, hne⟩ := htail
        have hshort := length_removed_lt_of_fields hremoved hclean
          ⟨later, List.mem_append_right _ hlater, hne⟩ (hbytes.trans (List.nil_append _).symm)
        simp only [List.length_append, List.length_map, List.length_nil] at hshort
        omega
  · intro h
    rw [h]

theorem sanitizeString_toString (n : ℕ) : sanitizeString (toString n) = toString n := by
  refine sanitizeString_eq_self_iff.mpr fun ch hch => ?_
  obtain ⟨hlow, hhigh⟩ := JsonText.digit_of_mem_toString hch
  exact isKept_ascii (by omega) (by omega)

/-- The bytes that are signed show whether sanitizing has changed the record. -/
theorem encode_sanitized_iff {record clean : ContentRecord}
    (h : sanitizeRecord record = .ok clean) :
    (recordFields record).encode = (recordFields clean).encode ↔ clean = record := by
  obtain ⟨-, tags, htags, rfl⟩ := sanitizeRecord_eq_ok.mp h
  obtain ⟨rfl, -⟩ := mapM_sanitizeTag_eq_ok htags
  have hkept : ∀ text ∈ [toString record.createdAt, toString record.expiresAt,
      record.scrapeSource.asStr, record.refreshPolicy.asStr], sanitizeString text = text := by
    intro text hmem
    simp only [List.mem_cons, List.not_mem_nil, or_false] at hmem
    rcases hmem with rfl | rfl | rfl | rfl
    · exact sanitizeString_toString _
    · exact sanitizeString_toString _
    · cases record.scrapeSource <;> decide +kernel
    · cases record.refreshPolicy <;> decide +kernel
  have hpolicy : record.refreshPolicy.asStr ≠ "" := by cases record.refreshPolicy <;> decide
  have hencoded := @encoded_sanitized_iff
    [record.id, record.sourceUrl, record.sourceHash, record.schema,
      String.intercalate "," record.tags, record.body] _
    hkept ⟨_, by simp, hpolicy⟩ (by simp)
  simp only [List.map_cons, List.map_nil, ← intercalate_sanitizeString] at hencoded
  refine Iff.trans hencoded ?_
  rw [intercalate_sanitizeString]
  simp only [List.cons.injEq, sanitizeString_intercalate_eq_iff, and_true]
  constructor
  · rintro ⟨hid, hurl, hhash, hschema, htags, hbody⟩
    rw [hid, hurl, hhash, hschema, htags, hbody]
  · intro heq
    have hfields := (ContentRecord.mk.injEq ..).mp heq
    obtain ⟨hid, hurl, hhash, hschema, htags, hbody, -⟩ := hfields
    exact ⟨hid, hurl, hhash, hschema, htags, hbody⟩

end DSearch
