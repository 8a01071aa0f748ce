import DSearch.Foundations.Expiring
import DSearch.Node.RollingWindow

/-! # The limiters keep their users apart

What a limiter answers to one address or peer depends on the calls of that one only. The clock is the
monotonic one, so the calls come in the order of their times. -/

namespace DSearch
set_option autoImplicit false
open Runs Isolation Expiring

/-- What a call of a limiter answers. -/
inductive LimiterAnswer
  | allowed (answer : Bool)
  | left (count : ℕ)
  | done
  deriving DecidableEq, Repr

/-- An entry that has run out at a time is not there at a later one. -/
theorem live_filter_table {σ β : Type} {ends : β → ℕ} (table : σ → Table β) {s s' : σ} {now : ℕ}
    (h : table s' = (table s).filter fun _ b => now < ends b) (key : String) :
    live (fun s => (table s)[key]?) ends s' now = live (fun s => (table s)[key]?) ends s now := by
  rw [live, live, h, Std.ExtTreeMap.getElem?_filter', Option.filter_filter]
  simp only [Bool.and_self]

namespace Tier2Limiter

inductive Call
  | allow (ip : String) (now : ℕ)
  | remaining (ip : String) (now : ℕ)
  | pruneExpired (now : ℕ)

def Call.time : Call → ℕ
  | allow _ now => now
  | remaining _ now => now
  | pruneExpired now => now

/-- The call is about the address. -/
def Call.of (ip : String) : Call → Bool
  | allow other _ => other = ip
  | remaining other _ => other = ip
  | pruneExpired _ => false

def step : Call → Tier2Limiter → Tier2Limiter × LimiterAnswer
  | .allow ip now, limiter => ((limiter.allow ip now).1, .allowed (limiter.allow ip now).2)
  | .remaining ip now, limiter => (limiter, .left (limiter.remaining ip now))
  | .pruneExpired now, limiter => (limiter.pruneExpired now, .done)

def liveBucket (ip : String) : Tier2Limiter → ℕ → Option TokenBucket :=
  live (fun limiter => limiter.buckets[ip]?) TokenBucket.resetAt

theorem renewed_eq (limiter : Tier2Limiter) (ip : String) (now : ℕ) :
    limiter.renewed ip now = (limiter.liveBucket ip now).getD ⟨0, now + limiter.window⟩ :=
  live_getD (fun limiter : Tier2Limiter => limiter.buckets[ip]?) TokenBucket.resetAt limiter now
    (.inr (Nat.zero_le now))

theorem remaining_eq (limiter : Tier2Limiter) (ip : String) (now : ℕ) :
    limiter.remaining ip now =
      ((limiter.liveBucket ip now).map fun bucket => limiter.maxRequests - bucket.count).getD
        limiter.maxRequests := by
  rw [liveBucket, live_elim]
  unfold remaining
  cases limiter.buckets[ip]? with
  | none => rfl
  | some found => rfl

theorem apart (ip : String) : Apart step Call.time (Call.of ip)
    (fun limiter => (limiter.maxRequests, limiter.window)) (fun limiter => limiter.buckets[ip]?)
    TokenBucket.resetAt where
  keeps call limiter := by
    cases call with
    | allow other now => simp [step]
    | remaining other now => rfl
    | pruneExpired now => rfl
  own_step call limiter limiter' hown hfixed hlive := by
    obtain ⟨hmax, hwindow⟩ := Prod.mk.inj hfixed
    cases call with
    | allow other now =>
      obtain rfl : other = ip := of_decide_eq_true hown
      have hrenewed : limiter.renewed other now = limiter'.renewed other now := by
        rw [renewed_eq, renewed_eq, hwindow]
        exact congrArg (Option.getD · _) hlive
      have hcharged : limiter.charged other now = limiter'.charged other now := by
        rw [charged, charged, hrenewed, hmax]
      simp only [step, allow_eq, hrenewed, hcharged, hmax]
      refine ⟨trivial, live_congr ?_ now⟩
      rw [Std.ExtTreeMap.getElem?_insert_self, Std.ExtTreeMap.getElem?_insert_self]
    | remaining other now =>
      obtain rfl : other = ip := of_decide_eq_true hown
      refine ⟨?_, hlive⟩
      have hsame : limiter.liveBucket other now = limiter'.liveBucket other now := hlive
      simp only [step, remaining_eq, hsame, hmax]
    | pruneExpired now => cases hown
  other_step call limiter hother := by
    cases call with
    | allow other now =>
      have hne : other ≠ ip := of_decide_eq_false hother
      simp only [step, allow_eq, live, Std.ExtTreeMap.getElem?_insert]
      simp [hne]
    | remaining other now => rfl
    | pruneExpired now => exact live_filter_table Tier2Limiter.buckets rfl ip

end Tier2Limiter

namespace RelayBandwidthAccount

inductive Call
  | allow (peerId : String) (bytes now : ℕ)
  | record (peerId : String) (bytes now : ℕ)
  | remaining (peerId : String) (now : ℕ)
  | pruneExpired (now : ℕ)

def Call.time : Call → ℕ
  | allow _ _ now => now
  | record _ _ now => now
  | remaining _ now => now
  | pruneExpired now => now

/-- The call is about the peer. -/
def Call.of (peerId : String) : Call → Bool
  | allow other _ _ => other = peerId
  | record other _ _ => other = peerId
  | remaining other _ => other = peerId
  | pruneExpired _ => false

def step : Call → RelayBandwidthAccount → RelayBandwidthAccount × LimiterAnswer
  | .allow peerId bytes now, relay =>
    ((relay.allow peerId bytes now).1, .allowed (relay.allow peerId bytes now).2)
  | .record peerId bytes now, relay => (relay.record peerId bytes now, .done)
  | .remaining peerId now, relay => (relay, .left (relay.remaining peerId now))
  | .pruneExpired now, relay => (relay.pruneExpired now, .done)

def liveAccount (peerId : String) : RelayBandwidthAccount → ℕ → Option BandwidthAccount :=
  live (fun relay => relay.accounts[peerId]?) BandwidthAccount.resetAt

theorem account_eq (relay : RelayBandwidthAccount) (peerId : String) (now : ℕ) :
    relay.account peerId now = (relay.liveAccount peerId now).getD ⟨0, now + relay.window⟩ :=
  live_getD (fun relay : RelayBandwidthAccount => relay.accounts[peerId]?) BandwidthAccount.resetAt
    relay now (.inl rfl)

theorem remaining_eq (relay : RelayBandwidthAccount) (peerId : String) (now : ℕ) :
    relay.remaining peerId now =
      ((relay.liveAccount peerId now).map fun account =>
        relay.limitBytesPerWindow - account.bytesUsed).getD relay.limitBytesPerWindow := by
  rw [liveAccount, live_elim]
  unfold remaining
  cases relay.accounts[peerId]? with
  | none => rfl
  | some found => rfl

theorem allow_limit (relay : RelayBandwidthAccount) (peerId : String) (bytes now : ℕ) :
    (relay.allow peerId bytes now).1.limitBytesPerWindow = relay.limitBytesPerWindow ∧
      (relay.allow peerId bytes now).1.window = relay.window := by
  unfold allow
  dsimp only
  split
  · exact ⟨rfl, rfl⟩
  · exact ⟨rfl, rfl⟩

/-- The account that a call of `allow` leaves, charged or not. -/
theorem allow_account (relay : RelayBandwidthAccount) (peerId : String) (bytes now : ℕ) :
    ∃ account, (relay.allow peerId bytes now).1.accounts = relay.accounts.insert peerId account := by
  unfold allow
  dsimp only
  split
  · exact ⟨_, rfl⟩
  · exact ⟨_, rfl⟩

theorem allow_congr {relay relay' : RelayBandwidthAccount} {peerId : String} {now : ℕ}
    (haccount : relay.account peerId now = relay'.account peerId now)
    (hlimit : relay.limitBytesPerWindow = relay'.limitBytesPerWindow) (bytes : ℕ) :
    (relay.allow peerId bytes now).2 = (relay'.allow peerId bytes now).2 ∧
      ∃ account, (relay.allow peerId bytes now).1.accounts[peerId]? = some account ∧
        (relay'.allow peerId bytes now).1.accounts[peerId]? = some account := by
  unfold allow
  rw [haccount, hlimit]
  dsimp only
  split
  · exact ⟨rfl, _, Std.ExtTreeMap.getElem?_insert_self, Std.ExtTreeMap.getElem?_insert_self⟩
  · exact ⟨rfl, _, Std.ExtTreeMap.getElem?_insert_self, Std.ExtTreeMap.getElem?_insert_self⟩

theorem apart (peerId : String) : Apart step Call.time (Call.of peerId)
    (fun relay => (relay.limitBytesPerWindow, relay.window)) (fun relay => relay.accounts[peerId]?)
    BandwidthAccount.resetAt where
  keeps call relay := by
    cases call with
    | allow other bytes now =>
      obtain ⟨hlimit, hwindow⟩ := relay.allow_limit other bytes now
      exact Prod.ext hlimit hwindow
    | record other bytes now => rfl
    | remaining other now => rfl
    | pruneExpired now => rfl
  own_step call relay relay' hown hfixed hlive := by
    obtain ⟨hlimit, hwindow⟩ := Prod.mk.inj hfixed
    have haccount : ∀ now, relay.liveAccount peerId now = relay'.liveAccount peerId now →
        relay.account peerId now = relay'.account peerId now := by
      intro now hsame
      rw [account_eq, account_eq, hsame, hwindow]
    cases call with
    | allow other bytes now =>
      obtain rfl : other = peerId := of_decide_eq_true hown
      obtain ⟨hanswer, account, hafter, hafter'⟩ := allow_congr (haccount now hlive) hlimit bytes
      refine ⟨congrArg LimiterAnswer.allowed hanswer, live_congr ?_ now⟩
      exact hafter.trans hafter'.symm
    | record other bytes now =>
      obtain rfl : other = peerId := of_decide_eq_true hown
      refine ⟨rfl, live_congr ?_ now⟩
      simp only [step, record]
      rw [haccount now hlive, Std.ExtTreeMap.getElem?_insert_self, Std.ExtTreeMap.getElem?_insert_self]
    | remaining other now =>
      obtain rfl : other = peerId := of_decide_eq_true hown
      have hsame : relay.liveAccount other now = relay'.liveAccount other now := hlive
      refine ⟨?_, hlive⟩
      simp only [step, remaining_eq, hsame, hlimit]
    | pruneExpired now => cases hown
  other_step call relay hother := by
    cases call with
    | allow other bytes now =>
      have hne : other ≠ peerId := of_decide_eq_false hother
      obtain ⟨account, haccounts⟩ := relay.allow_account other bytes now
      simp only [step, live, haccounts, Std.ExtTreeMap.getElem?_insert]
      simp [hne]
    | record other bytes now =>
      have hne : other ≠ peerId := of_decide_eq_false hother
      simp only [step, record, live, Std.ExtTreeMap.getElem?_insert]
      simp [hne]
    | remaining other now => rfl
    | pruneExpired now => exact live_filter_table RelayBandwidthAccount.accounts rfl peerId

end RelayBandwidthAccount

theorem limiters_keep_apart :
    (∀ ip, KeepsApart Tier2Limiter.step Tier2Limiter.Call.time (Tier2Limiter.Call.of ip)) ∧
    (∀ peerId, KeepsApart RelayBandwidthAccount.step RelayBandwidthAccount.Call.time
      (RelayBandwidthAccount.Call.of peerId)) :=
  ⟨fun ip => (Tier2Limiter.apart ip).keepsApart,
    fun peerId => (RelayBandwidthAccount.apart peerId).keepsApart⟩

end DSearch
