import DSearch.Foundations.Windows
import DSearch.Node.Limits

/-! # How many announcements the limiter allows in an interval

The limiter counts in the groups that its windows make of the calls of an address, so an interval that
straddles the end of a window can hold allowed calls of two groups. -/

namespace DSearch.Tier2Limiter
open Windows
set_option autoImplicit false

/-- The calls come one after the other; what is kept are the times at which `ip` was allowed. -/
def allowedTimes (limiter : Tier2Limiter) (ip : String) : List (String × ℕ) → List ℕ
  | [] => []
  | call :: calls =>
    let after := limiter.allow call.1 call.2
    if call.1 = ip ∧ after.2 = true then call.2 :: after.1.allowedTimes ip calls
    else after.1.allowedTimes ip calls

def timesOf (ip : String) (calls : List (String × ℕ)) : List ℕ :=
  (calls.filter fun call => call.1 = ip).map Prod.snd

/-- The bucket of `ip`, one that has run out when there is none. -/
def bucket (limiter : Tier2Limiter) (ip : String) : TokenBucket :=
  limiter.buckets[ip]?.getD ⟨0, 0⟩

def renewed (limiter : Tier2Limiter) (ip : String) (now : ℕ) : TokenBucket :=
  if now ≥ (limiter.bucket ip).resetAt then ⟨0, now + limiter.window⟩ else limiter.bucket ip

/-- The bucket of `ip` after a call. -/
def charged (limiter : Tier2Limiter) (ip : String) (now : ℕ) : TokenBucket :=
  let bucket := limiter.renewed ip now
  if bucket.count < limiter.maxRequests then { bucket with count := bucket.count + 1 } else bucket

theorem allow_eq (limiter : Tier2Limiter) (ip : String) (now : ℕ) :
    limiter.allow ip now =
      ({ limiter with buckets := limiter.buckets.insert ip (limiter.charged ip now) },
        decide ((limiter.renewed ip now).count < limiter.maxRequests)) := by
  have hbucket : (let bucket := limiter.buckets[ip]?.getD ⟨0, now + limiter.window⟩
      if now ≥ bucket.resetAt then ⟨0, now + limiter.window⟩ else bucket) =
      limiter.renewed ip now := by
    unfold renewed bucket
    cases limiter.buckets[ip]? with
    | none => simp
    | some found => rfl
  unfold allow charged
  dsimp only at hbucket ⊢
  rw [hbucket]
  split
  next h => rw [decide_eq_true h]
  next h => rw [decide_eq_false h]

@[simp] theorem allow_maxRequests (limiter : Tier2Limiter) (ip : String) (now : ℕ) :
    (limiter.allow ip now).1.maxRequests = limiter.maxRequests := by
  rw [allow_eq]

@[simp] theorem allow_window (limiter : Tier2Limiter) (ip : String) (now : ℕ) :
    (limiter.allow ip now).1.window = limiter.window := by
  rw [allow_eq]

theorem bucket_allow_self (limiter : Tier2Limiter) (ip : String) (now : ℕ) :
    (limiter.allow ip now).1.bucket ip = limiter.charged ip now := by
  rw [allow_eq, bucket, Std.ExtTreeMap.getElem?_insert_self]
  rfl

theorem bucket_allow_ne (limiter : Tier2Limiter) {ip peer : String} (h : peer ≠ ip) (now : ℕ) :
    (limiter.allow peer now).1.bucket ip = limiter.bucket ip := by
  rw [allow_eq, bucket, Std.ExtTreeMap.getElem?_insert]
  simp [bucket, h]

/-- What a bucket lets through, from the times at which its address calls. -/
def admitted (maxRequests window : ℕ) (bucket : TokenBucket) (times : List ℕ) : List ℕ :=
  (times.takeWhile (· < bucket.resetAt)).take (maxRequests - bucket.count) ++
    (groups window (times.dropWhile (· < bucket.resetAt))).flatMap (List.take maxRequests)

theorem admitted_nil (maxRequests window : ℕ) (bucket : TokenBucket) :
    admitted maxRequests window bucket [] = [] := by
  simp [admitted, groups_nil]

/-- One call, at the head of the times: the step of the run below. -/
theorem admitted_cons (limiter : Tier2Limiter) (ip : String) (now : ℕ) (times : List ℕ) :
    admitted limiter.maxRequests limiter.window (limiter.bucket ip) (now :: times) =
      (if (limiter.renewed ip now).count < limiter.maxRequests then [now] else []) ++
        admitted limiter.maxRequests limiter.window (limiter.charged ip now) times := by
  by_cases hrun : now ≥ (limiter.bucket ip).resetAt
  · -- The window is over: the call begins a group.
    have hrenewed : limiter.renewed ip now = ⟨0, now + limiter.window⟩ := if_pos hrun
    unfold admitted charged
    rw [hrenewed]
    dsimp only
    rw [List.takeWhile_cons_of_neg (by simpa using hrun),
      List.dropWhile_cons_of_neg (by simpa using hrun), groups_cons, List.flatMap_cons]
    by_cases hmax : 0 < limiter.maxRequests
    · obtain ⟨m, hm⟩ : ∃ m, limiter.maxRequests = m + 1 := ⟨limiter.maxRequests - 1, by omega⟩
      simp [hm]
    · have hm : limiter.maxRequests = 0 := by omega
      simp [hm]
  · have hrenewed : limiter.renewed ip now = limiter.bucket ip := if_neg hrun
    have hbefore : now < (limiter.bucket ip).resetAt := by omega
    unfold admitted charged
    rw [hrenewed, List.takeWhile_cons_of_pos (by simpa using hbefore),
      List.dropWhile_cons_of_pos (by simpa using hbefore)]
    dsimp only
    split
    next hcount =>
      obtain ⟨m, hm⟩ : ∃ m, limiter.maxRequests - (limiter.bucket ip).count = m + 1 :=
        ⟨limiter.maxRequests - (limiter.bucket ip).count - 1, by omega⟩
      have hm' : limiter.maxRequests - ((limiter.bucket ip).count + 1) = m := by omega
      rw [hm, hm', List.take_succ_cons]
      rfl
    next hcount =>
      have hm : limiter.maxRequests - (limiter.bucket ip).count = 0 := by omega
      rw [hm, List.take_zero, List.take_zero]
      rfl

theorem timesOf_cons_self {ip : String} {call : String × ℕ} (h : call.1 = ip)
    (calls : List (String × ℕ)) : timesOf ip (call :: calls) = call.2 :: timesOf ip calls := by
  simp [timesOf, h]

theorem timesOf_cons_ne {ip : String} {call : String × ℕ} (h : call.1 ≠ ip)
    (calls : List (String × ℕ)) : timesOf ip (call :: calls) = timesOf ip calls := by
  simp [timesOf, h]

theorem allowedTimes_eq (limiter : Tier2Limiter) (ip : String) (calls : List (String × ℕ)) :
    limiter.allowedTimes ip calls =
      admitted limiter.maxRequests limiter.window (limiter.bucket ip) (timesOf ip calls) := by
  induction calls generalizing limiter with
  | nil => rw [allowedTimes, timesOf, List.filter_nil, List.map_nil, admitted_nil]
  | cons call calls ih =>
    rw [allowedTimes, ih, allow_maxRequests, allow_window]
    by_cases hip : call.1 = ip
    · rw [timesOf_cons_self hip, admitted_cons]
      subst hip
      rw [bucket_allow_self, allow_eq]
      by_cases hcount : (limiter.renewed call.1 call.2).count < limiter.maxRequests
      · simp [hcount]
      · simp [hcount]
    · rw [timesOf_cons_ne hip, bucket_allow_ne limiter hip, if_neg (fun h => hip h.1)]

theorem allowedTimes_new (maxRequests window : ℕ) (ip : String) (calls : List (String × ℕ)) :
    (new maxRequests window).allowedTimes ip calls =
      (groups window (timesOf ip calls)).flatMap (List.take maxRequests) := by
  have hbucket : (new maxRequests window).bucket ip = ⟨0, 0⟩ := by
    rw [bucket, new, Std.ExtTreeMap.getElem?_empty]
    rfl
  rw [allowedTimes_eq, hbucket, admitted]
  -- No time is before the end of the bucket that has run out.
  cases timesOf ip calls with
  | nil => simp [new]
  | cons t times => simp [new]

/-- The calls of one address are allowed at most `maxRequests` times in every interval exactly when,
of the first `maxRequests` calls of two adjacent groups, each is a window before the
`maxRequests`-th after it. -/
theorem rolling_window_iff (maxRequests window : ℕ) (calls : List (String × ℕ)) (ip : String)
    (hsorted : (calls.map Prod.snd).Pairwise (· ≤ ·)) :
    AtMost maxRequests window ((new maxRequests window).allowedTimes ip calls) ↔
      ∀ p ∈ adjacent window (timesOf ip calls),
        Spaced maxRequests window (p.1.take maxRequests ++ p.2.take maxRequests) := by
  rw [allowedTimes_new]
  exact atMost_groups_iff_spaced (hsorted.sublist (List.filter_sublist.map Prod.snd))

theorem rolling_window_iff_straddled :
    AtMost 2 10 ((new 2 10).allowedTimes "1.2.3.4"
        [("1.2.3.4", 0), ("1.2.3.4", 9), ("5.6.7.8", 9), ("1.2.3.4", 10)]) ↔
      ∀ p ∈ adjacent 10 (timesOf "1.2.3.4"
          [("1.2.3.4", 0), ("1.2.3.4", 9), ("5.6.7.8", 9), ("1.2.3.4", 10)]),
        Spaced 2 10 (p.1.take 2 ++ p.2.take 2) :=
  rolling_window_iff 2 10 _ "1.2.3.4" (by decide)

/-- Two calls at the end of a window and two at the beginning of the next are all allowed. -/
theorem straddling_interval_over_limit :
    ¬ ∀ (maxRequests window : ℕ) (calls : List (String × ℕ)) (ip : String),
      (calls.map Prod.snd).Pairwise (· ≤ ·) →
        AtMost maxRequests window ((new maxRequests window).allowedTimes ip calls) := by
  intro h
  have hcount := h 2 10 [("1.2.3.4", 0), ("1.2.3.4", 9), ("1.2.3.4", 10), ("1.2.3.4", 11)] "1.2.3.4"
    (by decide) 9
  rw [allowedTimes_new] at hcount
  simp [timesOf, groups_cons, groups_nil, within, List.takeWhile, List.dropWhile] at hcount

end DSearch.Tier2Limiter
