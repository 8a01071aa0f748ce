import DSearch.Api.GatewayLimits
import DSearch.Foundations.Checked

/-! # The arithmetic of the limiter

`check_rate_limit` subtracts the start of a window from the time of day, which may have been set back,
and adds one to a count of 32 bits. With checked arithmetic it panics where these overflow. The count of
an entry bounds from above how many calls have passed since the window began. -/

namespace DSearch.GatewayKeys
set_option autoImplicit false
open Runs Checked

/-- `check_rate_limit` with overflow checks; `none` is a panic. -/
def checkRateLimitChecked (limits : Table RateLimitEntry) (identifier : String)
    (limitPerMin now : ℕ) : Option (Table RateLimitEntry × Bool) :=
  let found := limits[identifier]?.getD ⟨0, now⟩
  (sub now found.windowStart).bind fun elapsed =>
    let entry : RateLimitEntry := if elapsed ≥ 60 then ⟨0, now⟩ else found
    (add (2 ^ 32) entry.count 1).map fun count =>
      (limits.insert identifier { entry with count := count }, count ≤ limitPerMin)

structure RateCall where
  identifier : String
  now : ℕ

variable {limit : ℕ}

def check (limit : ℕ) (call : RateCall) (limits : Table RateLimitEntry) :
    Table RateLimitEntry × Bool :=
  checkRateLimit limits call.identifier limit call.now

def checkChecked (limit : ℕ) (call : RateCall) (limits : Table RateLimitEntry) :
    Option (Table RateLimitEntry × Bool) :=
  checkRateLimitChecked limits call.identifier limit call.now

/-- The clock is not before the start of the window, and the count of a window that goes on has room. -/
def Safe (limits : Table RateLimitEntry) (call : RateCall) : Prop :=
  ∀ entry, limits[call.identifier]? = some entry → entry.windowStart ≤ call.now ∧
    (call.now < entry.windowStart + 60 → entry.count + 1 < 2 ^ 32)

theorem checkRateLimitChecked_eq {limits : Table RateLimitEntry} {identifier : String} {now : ℕ}
    (hstart : ∀ entry, limits[identifier]? = some entry → entry.windowStart ≤ now)
    (limitPerMin : ℕ) :
    checkRateLimitChecked limits identifier limitPerMin now =
      (add (2 ^ 32) (current limits identifier now).count 1).map fun count =>
        (limits.insert identifier { current limits identifier now with count := count },
          decide (count ≤ limitPerMin)) := by
  unfold checkRateLimitChecked current
  dsimp only
  cases hentry : limits[identifier]? with
  | none =>
    rw [Option.getD_none, sub_of_le (le_refl _), Nat.sub_self]
    rfl
  | some entry =>
    have hle : entry.windowStart ≤ now := hstart entry hentry
    have helapsed : now - entry.windowStart ≥ 60 ↔ entry.windowStart + 60 ≤ now := by omega
    rw [Option.getD_some, sub_of_le hle, Option.bind_some]
    simp only [helapsed]

theorem Safe.start {limits : Table RateLimitEntry} {call : RateCall} (h : Safe limits call) :
    ∀ entry, limits[call.identifier]? = some entry → entry.windowStart ≤ call.now :=
  fun entry hentry => (h entry hentry).1

theorem Safe.room {limits : Table RateLimitEntry} {call : RateCall} (h : Safe limits call) :
    (current limits call.identifier call.now).count + 1 < 2 ^ 32 := by
  rcases Counted.current_cases limits call.identifier call.now with
    ⟨entry, hentry, hopen, hcurrent⟩ | ⟨-, hcurrent⟩
  · rw [hcurrent]
    exact (h entry hentry).2 hopen
  · rw [hcurrent]
    exact Nat.lt_of_lt_of_le Nat.one_lt_two (by decide)

theorem Safe.counted {limits : Table RateLimitEntry} {call : RateCall} (h : Safe limits call) :
    counted (current limits call.identifier call.now) =
      { current limits call.identifier call.now with
        count := (current limits call.identifier call.now).count + 1 } := by
  rw [GatewayKeys.counted, Nat.mod_eq_of_lt h.room]

theorem checks (limit : ℕ) : Checks (checkChecked limit) (check limit) Safe where
  safe call limits hsafe := by
    rw [checkChecked, checkRateLimitChecked_eq hsafe.start, add_of_lt hsafe.room, Option.map_some,
      check, checkRateLimit_eq hsafe.start, hsafe.counted]
  stops call limits hunsafe := by
    unfold Safe at hunsafe
    push Not at hunsafe
    obtain ⟨entry, hentry, hunsafe⟩ := hunsafe
    rw [checkChecked]
    by_cases hle : entry.windowStart ≤ call.now
    · obtain ⟨hopen, hfull⟩ := hunsafe hle
      have hstart : ∀ found, limits[call.identifier]? = some found → found.windowStart ≤ call.now :=
        fun found hfound => Option.some.inj (hentry.symm.trans hfound) ▸ hle
      have hcurrent : current limits call.identifier call.now = entry := by
        rw [current, hentry]
        exact if_neg (by omega)
      rw [checkRateLimitChecked_eq hstart, hcurrent, add_eq_none (by omega), Option.map_none]
    · rw [checkRateLimitChecked, hentry, Option.getD_some, sub_eq_none hle, Option.bind_none]

/-! ## The calls of a window -/

/-- The calls of an identifier that return true. -/
def passed (limit : ℕ) (identifier : String) : List RateCall → Table RateLimitEntry → ℕ
  | [], _ => 0
  | call :: calls, limits =>
    (if call.identifier = identifier ∧ (check limit call limits).2 = true then 1 else 0) +
      passed limit identifier calls (check limit call limits).1

/-- The call begins a window of the identifier. -/
def Resets (identifier : String) (limits : Table RateLimitEntry) (call : RateCall) : Prop :=
  call.identifier = identifier ∧
    ∀ entry, limits[identifier]? = some entry → entry.windowStart + 60 ≤ call.now

def countOf (identifier : String) (limits : Table RateLimitEntry) : ℕ :=
  (limits[identifier]?.map RateLimitEntry.count).getD 0

theorem countOf_check_ne {identifier : String} {limits : Table RateLimitEntry} {call : RateCall}
    (h : call.identifier ≠ identifier) :
    countOf identifier (check limit call limits).1 = countOf identifier limits := by
  rw [countOf, check, checkRateLimit_ne limits h, ← countOf]

theorem countOf_check {limits : Table RateLimitEntry} {call : RateCall} (hsafe : Safe limits call) :
    countOf call.identifier (check limit call limits).1 =
      (current limits call.identifier call.now).count + 1 := by
  rw [check, checkRateLimit_eq hsafe.start, hsafe.counted, countOf,
    Std.ExtTreeMap.getElem?_insert_self]
  rfl

/-- A call returns true if the count that it writes is at most the limit. -/
theorem check_iff {limits : Table RateLimitEntry} {call : RateCall} (hsafe : Safe limits call) :
    (check limit call limits).2 = true ↔
      (current limits call.identifier call.now).count + 1 ≤ limit := by
  rw [check, checkRateLimit_eq hsafe.start, hsafe.counted, decide_eq_true_iff]

theorem current_of_not_resets {limits : Table RateLimitEntry} {call : RateCall}
    (h : ¬ Resets call.identifier limits call) :
    (current limits call.identifier call.now).count = countOf call.identifier limits := by
  rcases Counted.current_cases limits call.identifier call.now with
    ⟨entry, hentry, -, hcurrent⟩ | ⟨hclosed, -⟩
  · rw [hcurrent, countOf, hentry]
    rfl
  · exact absurd ⟨rfl, hclosed⟩ h

/-- Of the calls that begin no window, as many pass as the count leaves room for. -/
theorem passed_le {identifier : String} {calls : List RateCall} {limits : Table RateLimitEntry}
    (hsafe : Along (check limit) Safe calls limits)
    (hstays : Along (check limit) (fun s call => ¬ Resets identifier s call) calls limits) :
    passed limit identifier calls limits ≤ limit - countOf identifier limits := by
  induction calls generalizing limits with
  | nil => exact Nat.zero_le _
  | cons call calls ih =>
    have hrest := ih hsafe.2 hstays.2
    rw [passed]
    by_cases hself : call.identifier = identifier
    · subst hself
      rw [countOf_check hsafe.1, current_of_not_resets hstays.1] at hrest
      split
      · next hpass =>
        have hcount := (check_iff hsafe.1).mp hpass.2
        rw [current_of_not_resets hstays.1] at hcount
        omega
      · omega
    · rw [if_neg fun h => hself h.1, Nat.zero_add, ← countOf_check_ne hself]
      exact hrest

/-- So it is if the first of the calls begins one. -/
theorem passed_cons_le {identifier : String} {call : RateCall} {calls : List RateCall}
    {limits : Table RateLimitEntry} (hsafe : Along (check limit) Safe (call :: calls) limits)
    (hstays : Along (check limit) (fun s call => ¬ Resets identifier s call) calls
      (check limit call limits).1) :
    passed limit identifier (call :: calls) limits ≤ limit := by
  have hrest := passed_le hsafe.2 hstays
  rw [passed]
  by_cases hself : call.identifier = identifier
  · subst hself
    rw [countOf_check hsafe.1] at hrest
    split
    · next hpass =>
      have hcount := (check_iff hsafe.1).mp hpass.2
      omega
    · omega
  · rw [if_neg fun h => hself h.1]
    omega

/-- In no window of an identifier do more calls of it return true than the limit: a window begins with
one call, and no call after it begins another one. -/
def WindowsBounded (limit : ℕ) (calls : List RateCall) (limits : Table RateLimitEntry) : Prop :=
  ∀ (identifier : String) (before window after : List RateCall) (first : RateCall),
    calls = before ++ first :: window ++ after →
    Along (check limit) (fun s call => ¬ Resets identifier s call) window
      (runAll (check limit) (before ++ [first]) limits).1 →
    passed limit identifier (first :: window) (runAll (check limit) before limits).1 ≤ limit

theorem check_run_iff (limit : ℕ) (calls : List RateCall) (limits : Table RateLimitEntry) :
    (runChecked (checkChecked limit) calls limits = some (runAll (check limit) calls limits) ∧
      WindowsBounded limit calls limits) ↔ Along (check limit) Safe calls limits := by
  rw [(checks limit).runChecked_iff, and_iff_left_iff_imp]
  rintro hsafe identifier before window after first rfl hstays
  rw [runAll_append] at hstays
  rw [List.append_assoc, along_append, along_append] at hsafe
  exact passed_cons_le hsafe.2.1 hstays

/-- The clock is set back by a minute between two calls. -/
theorem clock_set_back :
    runChecked (checkChecked 60) [⟨"k", 1_700_000_100⟩, ⟨"k", 1_700_000_040⟩] ∅ = none := by
  decide +kernel

end DSearch.GatewayKeys
