import DSearch.Foundations.SeparatedText
import DSearch.Storage.Store

/-! # The keys of the announcements table

`insert_announcement` writes its row under the record id and the holder's address, joined by a colon.
Peers choose both texts, and colons may stand in both: an id that goes on with the first part of an
address names the row of another pair. -/

namespace DSearch
set_option autoImplicit false
open Transaction SeparatedText

def announcementKey (ann : Announcement) : String := ann.recordId ++ ":" ++ ann.holderAddr

/-- The pair of the one announcement reads as the pair of the other. -/
def KeysOverlap (a b : Announcement) : Prop :=
  Shifts ':' a.recordId a.holderAddr b.recordId b.holderAddr ∨
    Shifts ':' b.recordId b.holderAddr a.recordId a.holderAddr

theorem KeysOverlap.symm {a b : Announcement} (h : KeysOverlap a b) : KeysOverlap b a := Or.symm h

theorem announcementKey_eq_iff (a b : Announcement) : announcementKey a = announcementKey b ↔
    (a.recordId, a.holderAddr) = (b.recordId, b.holderAddr) ∨ KeysOverlap a b :=
  append_sep_eq_iff ':' _ _ _ _

namespace Store
variable {ed : Ed25519} (store : Store ed)

def Accepts (ann : Announcement) : Prop := (store.signedAnnouncement ann).validateSize = .ok ()

instance (ann : Announcement) : Decidable (store.Accepts ann) :=
  inferInstanceAs (Decidable (_ = _))

/-- The row of the announcement is its own, signed if it came unsigned. -/
def Announced (db : Db) (ann : Announcement) : Prop :=
  db.announcements[announcementKey ann]? = some (store.signedAnnouncement ann)

/-- The database after both announcements, one after the other. -/
def announceBoth (first second : Announcement) (db : Db) : Db :=
  ((store.insertAnnouncement second).run ((store.insertAnnouncement first).run db).1).1

theorem insertAnnouncement_accepted {ann : Announcement} (h : store.Accepts ann) (db : Db) :
    ((store.insertAnnouncement ann).run db).1.announcements =
      db.announcements.insert (announcementKey ann) (store.signedAnnouncement ann) := by
  rw [insertAnnouncement_run, h]
  rfl

/-- Signing leaves an announcement its pair. -/
theorem signedAnnouncement_pair (ann : Announcement) :
    ((store.signedAnnouncement ann).recordId, (store.signedAnnouncement ann).holderAddr) =
      (ann.recordId, ann.holderAddr) := by
  obtain ⟨sig, hsigned⟩ := store.signedAnnouncement_eq ann
  rw [hsigned]

theorem announceBoth_iff {first second : Announcement}
    (hpairs : (first.recordId, first.holderAddr) ≠ (second.recordId, second.holderAddr))
    (hfirst : store.Accepts first) (hsecond : store.Accepts second) (db : Db) :
    store.Announced (store.announceBoth first second db) first ∧
      store.Announced (store.announceBoth first second db) second ↔
        announcementKey first ≠ announcementKey second := by
  have htable : (store.announceBoth first second db).announcements =
      (db.announcements.insert (announcementKey first) (store.signedAnnouncement first)).insert
        (announcementKey second) (store.signedAnnouncement second) := by
    rw [announceBoth, store.insertAnnouncement_accepted hsecond,
      store.insertAnnouncement_accepted hfirst]
  unfold Announced
  rw [htable]
  simp only [OrderedTable.get_insert]
  by_cases hkey : announcementKey second = announcementKey first
  · -- the second row is where the first one was
    have hvalues : store.signedAnnouncement second ≠ store.signedAnnouncement first := by
      intro hsame
      have hfirstPair := store.signedAnnouncement_pair first
      rw [← hsame, store.signedAnnouncement_pair second] at hfirstPair
      exact hpairs hfirstPair.symm
    simp [hkey, hvalues]
  · simp [hkey, Ne.symm hkey]

/-- Two accepted announcements of different pairs are both stored, in either order, exactly where
their pairs do not overlap. -/
theorem announcements_both_stored_iff (a b : Announcement)
    (hpairs : (a.recordId, a.holderAddr) ≠ (b.recordId, b.holderAddr))
    (ha : store.Accepts a) (hb : store.Accepts b) (db : Db) :
    (store.Announced (store.announceBoth a b db) a ∧ store.Announced (store.announceBoth a b db) b ↔
      ¬ KeysOverlap a b) ∧
    (store.Announced (store.announceBoth b a db) a ∧ store.Announced (store.announceBoth b a db) b ↔
      ¬ KeysOverlap a b) ∧
    (announcementKey a ≠ announcementKey b ↔ ¬ KeysOverlap a b) := by
  have hkeys : announcementKey a ≠ announcementKey b ↔ ¬ KeysOverlap a b := by
    rw [Ne, announcementKey_eq_iff]
    simp [hpairs]
  refine ⟨(store.announceBoth_iff hpairs ha hb db).trans hkeys, ?_, hkeys⟩
  rw [and_comm, store.announceBoth_iff (Ne.symm hpairs) hb ha db, ne_comm]
  exact hkeys

end Store

def announcementOf (recordId holderAddr : String) : Announcement where
  recordId := recordId
  sourceHash := "src"
  schema := "wiki"
  tags := []
  holderAddr := holderAddr
  expiresAt := 99
  sig := ""

/-- The announcement of `r1` by one address is gone when another node announces `r1:10.0.0.1`. -/
theorem announcement_overwritten :
    ("r1", "10.0.0.1:7744") ≠ ("r1:10.0.0.1", "7744") ∧
    plainStore.Accepts (announcementOf "r1" "10.0.0.1:7744") ∧
      plainStore.Accepts (announcementOf "r1:10.0.0.1" "7744") ∧
      (plainStore.announceBoth (announcementOf "r1" "10.0.0.1:7744")
        (announcementOf "r1:10.0.0.1" "7744") .empty).announcements.toList.map Prod.snd =
          [announcementOf "r1:10.0.0.1" "7744"] := by
  decide +kernel

theorem announcements_both_stored_iff_ports :
    announcementKey (announcementOf "r1" "10.0.0.1:7744") ≠
        announcementKey (announcementOf "r1" "10.0.0.1:7745") ↔
      ¬ KeysOverlap (announcementOf "r1" "10.0.0.1:7744") (announcementOf "r1" "10.0.0.1:7745") :=
  (plainStore.announcements_both_stored_iff (announcementOf "r1" "10.0.0.1:7744")
    (announcementOf "r1" "10.0.0.1:7745") (by decide) (by decide +kernel) (by decide +kernel)
    .empty).2.2

end DSearch
