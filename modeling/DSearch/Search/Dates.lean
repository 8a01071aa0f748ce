import DSearch.Foundations.Calendar
import DSearch.Foundations.SeparatedText
import DSearch.Search.Query

/-! # The dates of `since:` and `before:`

`days_from_civil` counts whole eras of 400 years and the days of a year from March on. It is compared
with a calendar that goes from day to day, and with the same computation in `i32` and `i64`. -/

namespace DSearch.Query
set_option autoImplicit false
open RustText Calendar

/-! ## The count of days -/

theorem era_eq (y : ℤ) : (if y ≥ 0 then y / 400 else (y - 399).tdiv 400) = y / 400 := by
  split
  · rfl
  · next hneg =>
    have hdiv : (y - 399).tdiv 400 = -((399 - y) / 400) := by
      rw [← Int.tdiv_eq_ediv_of_nonneg (by omega), ← Int.neg_tdiv]
      congr 1
      omega
    rw [hdiv]
    omega

/-- The year in which a month is counted: January and February belong to the year before. -/
def countedYear (y m : ℤ) : ℤ := if m ≤ 2 then y - 1 else y

theorem daysFromCivil_eq (y m d : ℤ) : daysFromCivil y m d =
    365 * countedYear y m + countedYear y m / 4 - countedYear y m / 100 + countedYear y m / 400 +
      ((153 * (m + if m > 2 then -3 else 9) + 2) / 5 + d - 1) - 719468 := by
  unfold daysFromCivil countedYear
  dsimp only
  rw [era_eq]
  generalize (if m ≤ 2 then y - 1 else y) = c
  omega

def dayCount (date : Date) : ℤ := daysFromCivil date.year date.month date.day

theorem dayCount_next (date : Date) (h : date.Valid) : dayCount date.next = dayCount date + 1 := by
  obtain ⟨year, month, day⟩ := date
  obtain ⟨hm, hm', hd, hd'⟩ := h
  unfold dayCount Date.next
  dsimp only at hm hm' hd hd' ⊢
  split
  · rw [daysFromCivil_eq, daysFromCivil_eq]
    push_cast
    omega
  · next hlast =>
    have hend : day = daysInMonth year month := by omega
    subst hend
    rw [daysFromCivil_eq]
    split
    · rw [daysFromCivil_eq]
      by_cases hfebruary : month = 2
      · -- a year ends here, and it has a leap day or not
        subst hfebruary
        by_cases hleap : IsLeap year
        · have hdays : daysInMonth year 2 = 29 := by rw [daysInMonth, if_pos rfl, if_pos hleap]
          unfold IsLeap at hleap
          norm_num [hdays, countedYear]
          omega
        · have hdays : daysInMonth year 2 = 28 := by rw [daysInMonth, if_pos rfl, if_neg hleap]
          unfold IsLeap at hleap
          norm_num [hdays, countedYear]
          omega
      · interval_cases month <;> first | omega | (norm_num [daysInMonth, countedYear]; omega)
    · have hdecember : month = 12 := by omega
      subst hdecember
      rw [daysFromCivil_eq]
      norm_num [daysInMonth, countedYear]
      omega

/-! ## In integers of 32 and 64 bits -/

/-- A result, if it is in the range of its type. -/
def inI32 (n : ℤ) : Option ℤ := if -2 ^ 31 ≤ n ∧ n < 2 ^ 31 then some n else none

def inI64 (n : ℤ) : Option ℤ := if -2 ^ 63 ≤ n ∧ n < 2 ^ 63 then some n else none

def inU64 (n : ℤ) : Option ℤ := if 0 ≤ n ∧ n < 2 ^ 64 then some n else none

/-- `days_from_civil` with each operation in its type; `none` is an overflow. -/
def daysFromCivilChecked (y m d : ℤ) : Option ℤ := do
  let y ← (if m ≤ 2 then inI32 (y - 1) else some y)
  let era ← (if y ≥ 0 then inI32 (y.tdiv 400)
    else (inI32 (y - 399)).bind fun y => inI32 (y.tdiv 400))
  let eraYears ← inI64 (era * 400)
  let yoe ← inI64 (y - eraYears)
  let month ← inI64 (m + if m > 2 then -3 else 9)
  let scaled ← inI64 (153 * month)
  let rounded ← inI64 (scaled + 2)
  let day ← inI64 (rounded.tdiv 5 + d)
  let doy ← inI64 (day - 1)
  let yearDays ← inI64 (yoe * 365)
  let withLeap ← inI64 (yearDays + yoe.tdiv 4)
  let withCentury ← inI64 (withLeap - yoe.tdiv 100)
  let doe ← inI64 (withCentury + doy)
  let eraDays ← inI64 (era * 146097)
  let days ← inI64 (eraDays + doe)
  inI64 (days - 719468)

/-- `parse_date_value` with its arithmetic in `i64` and `u64`; the outer `none` is an overflow. -/
def parseDateValueChecked (value : String) : Option (Option ℕ) :=
  match parseUnsigned (2 ^ 64) value.toList with
  | some ts => some (some ts)
  | none =>
    match value.toList.splitOn '-' with
    | [year, month, day] =>
      match parseI32 year, parseUnsigned (2 ^ 32) month, parseUnsigned (2 ^ 32) day with
      | some y, some m, some d =>
        if ¬ (1 ≤ m ∧ m ≤ 12) then some none
        else if ¬ (1 ≤ d ∧ d ≤ 31) then some none
        else do
          let days ← daysFromCivilChecked y m d
          let epochDays ← daysFromCivilChecked 1970 1 1
          let diffDays ← inI64 (days - epochDays)
          if diffDays < 0 then some none
          else
            let seconds ← inU64 (diffDays * 86400)
            some (some seconds.toNat)
      | _, _, _ => some none
    | _ => some none

theorem inI32_eq {n : ℤ} (h : -2 ^ 31 ≤ n ∧ n < 2 ^ 31) : inI32 n = some n := if_pos h

theorem inI64_eq {n : ℤ} (h : -2 ^ 63 ≤ n ∧ n < 2 ^ 63) : inI64 n = some n := if_pos h

theorem bind_inI64 {n : ℤ} (h : -2 ^ 63 ≤ n ∧ n < 2 ^ 63) {α : Type} (f : ℤ → Option α) :
    (inI64 n >>= f) = f n := by
  rw [inI64_eq h]
  rfl

theorem bind_of_eq_some {α β : Type} {x : Option α} {a : α} (h : x = some a) (f : α → Option β) :
    (x >>= f) = f a := by
  rw [h]
  rfl

theorem era_checked {y : ℤ} (h : -1 ≤ y ∧ y < 2 ^ 31) :
    (if y ≥ 0 then inI32 (y.tdiv 400) else (inI32 (y - 399)).bind fun y => inI32 (y.tdiv 400)) =
      some (y / 400) := by
  split
  · next hpos =>
    rw [Int.tdiv_eq_ediv_of_nonneg hpos]
    exact inI32_eq ⟨by omega, by omega⟩
  · obtain rfl : y = -1 := by omega
    decide

theorem countedYear_range {y m : ℤ} (hy : 0 ≤ y ∧ y < 2 ^ 31) :
    -1 ≤ countedYear y m ∧ countedYear y m < 2 ^ 31 := by
  unfold countedYear
  split <;> omega

/-- Months counted from March. -/
theorem countedMonth_range {m : ℤ} (hm : 1 ≤ m ∧ m ≤ 12) :
    0 ≤ (m + if m > 2 then -3 else 9) ∧ (m + if m > 2 then -3 else 9) ≤ 11 := by
  split <;> omega

/-- For the dates that the parser lets through nothing overflows. -/
theorem daysFromCivilChecked_eq {y m d : ℤ} (hy : 0 ≤ y ∧ y < 2 ^ 31) (hm : 1 ≤ m ∧ m ≤ 12)
    (hd : 1 ≤ d ∧ d ≤ 31) : daysFromCivilChecked y m d = some (daysFromCivil y m d) := by
  have hcounted : (if m ≤ 2 then inI32 (y - 1) else some y) = some (countedYear y m) := by
    unfold countedYear
    split
    · exact inI32_eq ⟨by omega, by omega⟩
    · rfl
  have hyear := countedYear_range hy (m := m)
  have hmonth := countedMonth_range hm
  rw [daysFromCivil_eq]
  unfold daysFromCivilChecked
  rw [bind_of_eq_some hcounted]
  generalize countedYear y m = c at hyear ⊢
  rw [bind_of_eq_some (era_checked hyear)]
  have hera : -1 ≤ c / 400 ∧ c / 400 < 2 ^ 31 := by omega
  have hyoe : 0 ≤ c - c / 400 * 400 ∧ c - c / 400 * 400 ≤ 399 := by omega
  have hdays : 365 * c + c / 4 - c / 100 + c / 400 = c / 400 * 146097 +
      ((c - c / 400 * 400) * 365 + (c - c / 400 * 400) / 4 - (c - c / 400 * 400) / 100) := by omega
  rw [hdays]
  generalize c / 400 = e at hera hyoe ⊢
  rw [bind_inI64 (n := e * 400) (by omega)]
  generalize c - e * 400 = k at hyoe ⊢
  generalize (m + if m > 2 then -3 else 9) = mp at hmonth ⊢
  have hdiv : k.tdiv 4 = k / 4 ∧ k.tdiv 100 = k / 100 :=
    ⟨Int.tdiv_eq_ediv_of_nonneg hyoe.1, Int.tdiv_eq_ediv_of_nonneg hyoe.1⟩
  have hday : (153 * mp + 2).tdiv 5 = (153 * mp + 2) / 5 := Int.tdiv_eq_ediv_of_nonneg (by omega)
  rw [bind_inI64 (n := k) (by omega), bind_inI64 (n := mp) (by omega),
    bind_inI64 (n := 153 * mp) (by omega), bind_inI64 (n := 153 * mp + 2) (by omega),
    hday, hdiv.1, hdiv.2]
  have hmp : 0 ≤ (153 * mp + 2) / 5 ∧ (153 * mp + 2) / 5 ≤ 337 := by omega
  generalize (153 * mp + 2) / 5 = doy at hmp ⊢
  rw [bind_inI64 (n := doy + d) (by omega), bind_inI64 (n := doy + d - 1) (by omega),
    bind_inI64 (n := k * 365) (by omega), bind_inI64 (n := k * 365 + k / 4) (by omega),
    bind_inI64 (n := k * 365 + k / 4 - k / 100) (by omega),
    bind_inI64 (n := k * 365 + k / 4 - k / 100 + (doy + d - 1)) (by omega),
    bind_inI64 (n := e * 146097) (by omega),
    bind_inI64 (n := e * 146097 + (k * 365 + k / 4 - k / 100 + (doy + d - 1))) (by omega),
    inI64_eq (by omega)]
  congr 1
  omega

theorem parseI32_range {cs : List Char} (hdash : '-' ∉ cs) {y : ℤ} (h : parseI32 cs = some y) :
    0 ≤ y ∧ y < 2 ^ 31 := by
  have hparsed : ∃ n, parseUnsigned (2 ^ 31) cs = some n ∧ (n : ℤ) = y := by
    rw [parseI32, if_neg fun hhead => hdash (List.mem_of_head? hhead)] at h
    simpa [Option.bind_eq_some_iff] using h
  obtain ⟨n, hn, rfl⟩ := hparsed
  have hlt : n < 2 ^ 31 := by
    rw [parseUnsigned, Option.filter_eq_some_iff] at hn
    exact of_decide_eq_true hn.2
  omega

theorem daysFromCivil_range {y m d : ℤ} (hy : 0 ≤ y ∧ y < 2 ^ 31) (hm : 1 ≤ m ∧ m ≤ 12)
    (hd : 1 ≤ d ∧ d ≤ 31) : -2 ^ 20 ≤ daysFromCivil y m d ∧ daysFromCivil y m d < 2 ^ 40 := by
  have hyear := countedYear_range hy (m := m)
  have hmonth := countedMonth_range hm
  rw [daysFromCivil_eq]
  generalize countedYear y m = c at hyear ⊢
  generalize (m + if m > 2 then -3 else 9) = mp at hmonth ⊢
  omega

/-- The seconds of a date do not overflow. -/
theorem secondsChecked_eq {y : ℤ} (hrange : 0 ≤ y ∧ y < 2 ^ 31) {m d : ℤ} (hm : 1 ≤ m ∧ m ≤ 12)
    (hd : 1 ≤ d ∧ d ≤ 31) : (do
      let days ← daysFromCivilChecked y m d
      let epochDays ← daysFromCivilChecked 1970 1 1
      let diffDays ← inI64 (days - epochDays)
      if diffDays < 0 then some none
      else
        let seconds ← inU64 (diffDays * 86400)
        some (some seconds.toNat)) =
      some (if daysFromCivil y m d - daysFromCivil 1970 1 1 < 0 then none
        else some ((daysFromCivil y m d - daysFromCivil 1970 1 1).toNat * 86400)) := by
  have hdate := daysFromCivilChecked_eq hrange hm hd
  have hbounds := daysFromCivil_range hrange hm hd
  have hepoch : daysFromCivilChecked 1970 1 1 = some (daysFromCivil 1970 1 1) := by decide
  have hzero : daysFromCivil 1970 1 1 = 0 := by decide
  simp only [Option.bind_eq_bind, hdate, hepoch, Option.bind_some, hzero, sub_zero]
  generalize daysFromCivil y m d = days at hbounds ⊢
  rw [inI64_eq (by omega), Option.bind_some]
  split
  · rfl
  · have hseconds : inU64 (days * 86400) = some (days * 86400) := if_pos (by omega)
    rw [hseconds, Option.bind_some]
    congr 2
    omega

/-- No text makes the arithmetic overflow. -/
theorem parseDateValueChecked_eq (value : String) :
    parseDateValueChecked value = some (parseDateValue value) := by
  unfold parseDateValueChecked parseDateValue
  cases parseUnsigned (2 ^ 64) value.toList with
  | some ts => rfl
  | none =>
    dsimp only
    rcases hparts : value.toList.splitOn '-' with _ | ⟨year, _ | ⟨month, _ | ⟨day, _ | ⟨more, rest⟩⟩⟩⟩
    · rfl
    · rfl
    · rfl
    · dsimp only
      cases hy : parseI32 year with
      | none => rfl
      | some y =>
        cases parseUnsigned (2 ^ 32) month with
        | none => rfl
        | some m =>
          cases parseUnsigned (2 ^ 32) day with
          | none => rfl
          | some d =>
            dsimp only
            have hrange : 0 ≤ y ∧ y < 2 ^ 31 := by
              have hyear : year ∈ value.toList.splitOn '-' := by simp [hparts]
              exact parseI32_range (SeparatedText.not_mem_of_mem_splitOn hyear) hy
            by_cases hmonth : 1 ≤ m ∧ m ≤ 12
            · rw [if_neg (not_not.mpr hmonth), if_neg (not_not.mpr hmonth)]
              by_cases hday : 1 ≤ d ∧ d ≤ 31
              · rw [if_neg (not_not.mpr hday), if_neg (not_not.mpr hday)]
                exact secondsChecked_eq hrange (by omega) (by omega)
              · rw [if_pos hday, if_pos hday]
            · rw [if_pos hmonth, if_pos hmonth]
    · rfl

/-! ## Dates as text -/

def twoDigits (n : ℕ) : String := if n < 10 then "0" ++ toString n else toString n

/-- `YYYY-MM-DD`, for years of four digits or more. -/
def isoDate (date : Date) : String :=
  toString date.year ++ "-" ++ twoDigits date.month ++ "-" ++ twoDigits date.day

theorem foldlM_none {cs : List Char} {c : Char} (hc : c ∈ cs) (hdigit : digitValue c = none) (n : ℕ) :
    cs.foldlM (fun n c => (digitValue c).map fun d => 10 * n + d) n = none := by
  induction cs generalizing n with
  | nil => cases hc
  | cons first cs ih =>
    rw [List.foldlM_cons]
    cases hfirst : digitValue first with
    | none => rfl
    | some d =>
      have hmem : c ∈ cs := by
        refine (List.mem_cons.mp hc).resolve_left ?_
        rintro rfl
        rw [hdigit] at hfirst
        cases hfirst
      exact ih hmem _

/-- A text with a dash in it is no number of an unsigned type. -/
theorem parseUnsigned_dash {cs : List Char} (h : '-' ∈ cs) (bound : ℕ) :
    parseUnsigned bound cs = none := by
  have hdigits : '-' ∈ if cs.head? = some '+' then cs.tail else cs := by
    split
    · next hplus =>
      obtain ⟨rest, rfl⟩ := List.head?_eq_some_iff.mp hplus
      exact (List.mem_cons.mp h).resolve_left (by decide)
    · exact h
  rw [parseUnsigned, parseDigits, if_neg (List.ne_nil_of_mem hdigits),
    foldlM_none hdigits (by decide)]
  rfl

theorem dash_not_mem_toString (n : ℕ) : '-' ∉ (toString n).toList := by
  intro hdash
  rw [Nat.toString_eq_repr, Nat.toList_repr] at hdash
  exact absurd (isDigit_of_mem_toDigits hdash) (by decide)

theorem twoDigits_read {n : ℕ} (h : n < 100) :
    '-' ∉ (twoDigits n).toList ∧ parseUnsigned (2 ^ 32) (twoDigits n).toList = some n := by
  unfold twoDigits
  split
  · interval_cases n <;> decide
  · exact ⟨dash_not_mem_toString n, parseUnsigned_toString (by omega)⟩

theorem parseI32_toString {n : ℕ} (h : n < 2 ^ 31) : parseI32 (toString n).toList = some (n : ℤ) := by
  rw [parseI32, if_neg fun hhead => dash_not_mem_toString n (List.mem_of_head? hhead),
    parseUnsigned_toString h]
  rfl

theorem parseDateValue_isoDate {date : Date} (h : date.Valid) (hyear : date.year < 2 ^ 31)
    (hfrom : 0 ≤ dayCount date) :
    parseDateValue (isoDate date) = some ((dayCount date).toNat * 86400) := by
  have hday := h.day_le.trans (daysInMonth_le _ _)
  obtain ⟨hmonthDash, hmonth⟩ := twoDigits_read (n := date.month) (by have := h.month_le; omega)
  obtain ⟨hdayDash, hdayRead⟩ := twoDigits_read (n := date.day) (by omega)
  have hchars : (isoDate date).toList = (toString date.year).toList ++ '-' ::
      ((twoDigits date.month).toList ++ '-' :: (twoDigits date.day).toList) := by
    simp [isoDate]
  have hdash : '-' ∈ (isoDate date).toList := by
    rw [hchars]
    simp
  have hparts : (isoDate date).toList.splitOn '-' = [(toString date.year).toList,
      (twoDigits date.month).toList, (twoDigits date.day).toList] := by
    rw [hchars, List.splitOn_append_cons_self, List.splitOn_append_cons_self,
      List.splitOn_eq_singleton (dash_not_mem_toString _), List.splitOn_eq_singleton hmonthDash,
      List.splitOn_eq_singleton hdayDash]
    rfl
  have hzero : daysFromCivil 1970 1 1 = 0 := by decide
  unfold parseDateValue
  rw [parseUnsigned_dash hdash, hparts]
  dsimp only
  rw [parseI32_toString hyear, hmonth, hdayRead]
  dsimp only
  rw [if_neg (not_not.mpr ⟨h.month_pos, h.month_le⟩), if_neg (not_not.mpr ⟨h.day_pos, hday⟩), hzero,
    sub_zero]
  exact if_neg (not_lt.mpr hfrom)

/-- A date from 1970 on is read as the seconds of the days that the calendar counts up to it, and no
text at all makes the arithmetic overflow. -/
theorem parseDateValue_counts_days :
    (∀ date : Date, date.Valid → 1970 ≤ date.year → date.year < 2 ^ 31 →
      ∃ n, (∀ k, Date.next^[k] ⟨1970, 1, 1⟩ = date ↔ k = n) ∧
        parseDateValueChecked (isoDate date) = some (some (n * 86400))) ∧
    ∀ value, parseDateValueChecked value = some (parseDateValue value) := by
  refine ⟨fun date h hfrom hto => ?_, parseDateValueChecked_eq⟩
  have hepoch : (⟨1970, 1, 1⟩ : Date).Valid := ⟨by decide, by decide, by decide, by decide⟩
  have hzero : dayCount ⟨1970, 1, 1⟩ = 0 := by decide
  have hcount : ∀ k, dayCount (Date.next^[k] ⟨1970, 1, 1⟩) = k := by
    intro k
    rw [(Date.count_iterate dayCount_next hepoch k).2, hzero, zero_add]
  obtain ⟨n, hn⟩ := Date.reaches_of_year_le h hfrom
  have hdays : dayCount date = n := by rw [← hn, hcount]
  refine ⟨n, fun k => ⟨fun hk => ?_, fun hk => hk ▸ hn⟩, ?_⟩
  · have heq := hcount k
    rw [hk, hdays] at heq
    exact_mod_cast heq.symm
  · rw [parseDateValueChecked_eq, parseDateValue_isoDate h hto (by omega), hdays, Int.toNat_natCast]

theorem parseDateValue_counts_days_leap : ∃ n,
    (∀ k, Date.next^[k] ⟨1970, 1, 1⟩ = ⟨2024, 2, 29⟩ ↔ k = n) ∧
      parseDateValueChecked (isoDate ⟨2024, 2, 29⟩) = some (some (n * 86400)) :=
  parseDateValue_counts_days.1 ⟨2024, 2, 29⟩ ⟨by decide, by decide, by decide, by decide⟩ (by decide)
    (by decide)

end DSearch.Query
