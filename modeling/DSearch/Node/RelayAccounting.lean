import DSearch.Foundations.Checked
import DSearch.Node.LimiterIsolation

/-! # What a peer has relayed in a window

The account of a peer is a number of 64 bits, and the tally beside it has no bound. `allow` tests the
limit before it adds, but `record` adds whatever it is given, so an account may come close to `2^64`. -/

namespace DSearch.RelayBandwidthAccount
set_option autoImplicit false
open Runs Checked Expiring

/-- `allow` with overflow checks; `none` is a panic. -/
def allowChecked (relay : RelayBandwidthAccount) (peerId : String) (bytes now : ℕ) :
    Option (RelayBandwidthAccount × Bool) :=
  let account := relay.account peerId now
  (add (2 ^ 64) account.bytesUsed bytes).map fun used =>
    if used ≤ relay.limitBytesPerWindow then
      ({ relay with accounts := relay.accounts.insert peerId { account with bytesUsed := used } }, true)
    else ({ relay with accounts := relay.accounts.insert peerId account }, false)

/-- `record` with overflow checks. -/
def recordChecked (relay : RelayBandwidthAccount) (peerId : String) (bytes now : ℕ) :
    Option RelayBandwidthAccount :=
  let account := relay.account peerId now
  (add (2 ^ 64) account.bytesUsed bytes).map fun used =>
    { relay with accounts := relay.accounts.insert peerId { account with bytesUsed := used } }

/-- A call that adds to the account of one peer. -/
inductive Charge
  | allow (bytes now : ℕ)
  | record (bytes now : ℕ)

namespace Charge

def bytes : Charge → ℕ
  | allow bytes _ => bytes
  | record bytes _ => bytes

def now : Charge → ℕ
  | allow _ now => now
  | record _ now => now

end Charge

def charge (peerId : String) : Charge → RelayBandwidthAccount → RelayBandwidthAccount × Option Bool
  | .allow bytes now, relay => ((relay.allow peerId bytes now).1, some (relay.allow peerId bytes now).2)
  | .record bytes now, relay => (relay.record peerId bytes now, none)

def chargeChecked (peerId : String) :
    Charge → RelayBandwidthAccount → Option (RelayBandwidthAccount × Option Bool)
  | .allow bytes now, relay =>
    (relay.allowChecked peerId bytes now).map fun after => (after.1, some after.2)
  | .record bytes now, relay =>
    (relay.recordChecked peerId bytes now).map fun after => (after, none)

/-- The true total: what `allow` has let through and what was recorded. -/
def tally (limit : ℕ) : Charge → ℕ → ℕ × Option Bool
  | .allow bytes _, total =>
    if total + bytes ≤ limit then (total + bytes, some true) else (total, some false)
  | .record bytes _, total => (total + bytes, none)

def Fits (total : ℕ) (call : Charge) : Prop := total + call.bytes < 2 ^ 64

def AccountFits (peerId : String) (relay : RelayBandwidthAccount) (call : Charge) : Prop :=
  Fits (relay.account peerId call.now).bytesUsed call

theorem wrappingAdd_of_fits {a b : ℕ} (h : a + b < 2 ^ 64) : wrappingAdd a b = a + b :=
  Nat.mod_eq_of_lt h

theorem charge_checks (peerId : String) :
    Checks (chargeChecked peerId) (charge peerId) (AccountFits peerId) where
  safe call relay hfits := by
    cases call with
    | allow bytes now =>
      have hsum : (relay.account peerId now).bytesUsed + bytes < 2 ^ 64 := hfits
      simp only [chargeChecked, allowChecked, add_of_lt hsum, charge, allow, wrappingAdd_of_fits hsum,
        Option.map_some]
    | record bytes now =>
      have hsum : (relay.account peerId now).bytesUsed + bytes < 2 ^ 64 := hfits
      simp only [chargeChecked, recordChecked, add_of_lt hsum, charge, record, wrappingAdd_of_fits hsum,
        Option.map_some]
  stops call relay hfull := by
    cases call with
    | allow bytes now =>
      have hsum : ¬ (relay.account peerId now).bytesUsed + bytes < 2 ^ 64 := hfull
      simp only [chargeChecked, allowChecked, add_eq_none hsum, Option.map_none]
    | record bytes now =>
      have hsum : ¬ (relay.account peerId now).bytesUsed + bytes < 2 ^ 64 := hfull
      simp only [chargeChecked, recordChecked, add_eq_none hsum, Option.map_none]

/-! ## One window -/

/-- Up to the end of the window that begins at `start`, the account of the peer is the tally. -/
structure Tallies (peerId : String) (start limit window : ℕ) (relay : RelayBandwidthAccount)
    (total : ℕ) : Prop where
  limit_eq : relay.limitBytesPerWindow = limit
  window_eq : relay.window = window
  used : ∀ now, start ≤ now → now < start + window →
    (relay.account peerId now).bytesUsed = total ∧ start + window ≤ (relay.account peerId now).resetAt

theorem account_of_insert {relay : RelayBandwidthAccount} {accounts : Table BandwidthAccount}
    {peerId : String} {account : BandwidthAccount} {now : ℕ}
    (h : relay.accounts = accounts.insert peerId account) (hnow : now < account.resetAt) :
    relay.account peerId now = account := by
  rw [RelayBandwidthAccount.account, h, Std.ExtTreeMap.getElem?_insert_self, Option.getD_some]
  exact if_neg (Nat.not_le.mpr hnow)

theorem Tallies.first {relay : RelayBandwidthAccount} {peerId : String} {start : ℕ}
    (hnew : relay.liveAccount peerId start = none) :
    Tallies peerId start relay.limitBytesPerWindow relay.window relay 0 where
  limit_eq := rfl
  window_eq := rfl
  used now hstart _ := by
    have hgone : relay.liveAccount peerId now = none := by
      rw [liveAccount, ← live_filter relay hstart]
      exact congrArg (Option.filter _) hnew
    rw [account_eq, hgone, Option.getD_none]
    exact ⟨rfl, Nat.add_le_add_right hstart _⟩

/-- The account of the peer with another number of bytes. -/
def charged (relay : RelayBandwidthAccount) (peerId : String) (now used : ℕ) :
    RelayBandwidthAccount :=
  let account := { relay.account peerId now with bytesUsed := used }
  { relay with accounts := relay.accounts.insert peerId account }

theorem allow_eq (relay : RelayBandwidthAccount) (peerId : String) {bytes now : ℕ}
    (hfits : (relay.account peerId now).bytesUsed + bytes < 2 ^ 64) :
    relay.allow peerId bytes now =
      if (relay.account peerId now).bytesUsed + bytes ≤ relay.limitBytesPerWindow then
        (relay.charged peerId now ((relay.account peerId now).bytesUsed + bytes), true)
      else (relay.charged peerId now (relay.account peerId now).bytesUsed, false) := by
  rw [allow, wrappingAdd_of_fits hfits]
  rfl

theorem record_eq (relay : RelayBandwidthAccount) (peerId : String) {bytes now : ℕ}
    (hfits : (relay.account peerId now).bytesUsed + bytes < 2 ^ 64) :
    relay.record peerId bytes now =
      relay.charged peerId now ((relay.account peerId now).bytesUsed + bytes) := by
  rw [record, wrappingAdd_of_fits hfits]
  rfl

theorem Tallies.charged {peerId : String} {start limit window total now : ℕ}
    {relay : RelayBandwidthAccount} (h : Tallies peerId start limit window relay total)
    (hstart : start ≤ now) (hnow : now < start + window) (used : ℕ) :
    Tallies peerId start limit window (relay.charged peerId now used) used where
  limit_eq := h.limit_eq
  window_eq := h.window_eq
  used later hlater hend := by
    obtain ⟨-, hreset⟩ := h.used now hstart hnow
    have haccount : (relay.charged peerId now used).account peerId later =
        { relay.account peerId now with bytesUsed := used } :=
      account_of_insert rfl (Nat.lt_of_lt_of_le hend hreset)
    rw [haccount]
    exact ⟨rfl, hreset⟩

/-- The step: a call adds to the account what it adds to the tally, if the sum fits. -/
theorem Tallies.charge {peerId : String} {start limit window total : ℕ}
    {relay : RelayBandwidthAccount} {call : Charge}
    (h : Tallies peerId start limit window relay total) (hstart : start ≤ call.now)
    (hnow : call.now < start + window) :
    (AccountFits peerId relay call ↔ Fits total call) ∧
      (AccountFits peerId relay call →
        Tallies peerId start limit window (charge peerId call relay).1 (tally limit call total).1 ∧
          (RelayBandwidthAccount.charge peerId call relay).2 = (tally limit call total).2) := by
  obtain ⟨hused, -⟩ := h.used call.now hstart hnow
  refine ⟨by rw [AccountFits, hused], fun hfits => ?_⟩
  cases call with
  | allow bytes now =>
    have hsum : (relay.account peerId now).bytesUsed + bytes < 2 ^ 64 := hfits
    obtain rfl : (relay.account peerId now).bytesUsed = total := hused
    rw [RelayBandwidthAccount.charge, tally, allow_eq relay peerId hsum, h.limit_eq]
    by_cases hlimit : (relay.account peerId now).bytesUsed + bytes ≤ limit
    · rw [if_pos hlimit, if_pos hlimit]
      exact ⟨h.charged hstart hnow _, rfl⟩
    · rw [if_neg hlimit, if_neg hlimit]
      exact ⟨h.charged hstart hnow _, rfl⟩
  | record bytes now =>
    have hsum : (relay.account peerId now).bytesUsed + bytes < 2 ^ 64 := hfits
    obtain rfl : (relay.account peerId now).bytesUsed = total := hused
    rw [RelayBandwidthAccount.charge, tally, record_eq relay peerId hsum]
    exact ⟨h.charged hstart hnow _, rfl⟩

theorem relay_accounting_iff {relay : RelayBandwidthAccount} {peerId : String} {start : ℕ}
    (hnew : relay.liveAccount peerId start = none) {calls : List Charge}
    (hwindow : ∀ call ∈ calls, start ≤ call.now ∧ call.now < start + relay.window) :
    (runChecked (chargeChecked peerId) calls relay = some (runAll (charge peerId) calls relay) ∧
      (runAll (charge peerId) calls relay).2 =
        (runAll (tally relay.limitBytesPerWindow) calls 0).2) ↔
      Along (tally relay.limitBytesPerWindow) Fits calls 0 := by
  have hstep : ∀ call ∈ calls, ∀ relay' total,
      Tallies peerId start relay.limitBytesPerWindow relay.window relay' total → _ :=
    fun call hcall relay' total h => h.charge (hwindow call hcall).1 (hwindow call hcall).2
  obtain ⟨hiff, hanswers⟩ := along_iff_of_simulates hstep (Tallies.first hnew)
  rw [(charge_checks peerId).runChecked_iff, hiff, and_iff_left_iff_imp]
  exact fun h => hanswers (hiff.mpr h)

theorem relay_accounting_iff_full :
    (runChecked (chargeChecked "p") [.allow 600 5, .record 500 6] (new 1000 10) =
        some (runAll (charge "p") [.allow 600 5, .record 500 6] (new 1000 10)) ∧
      (runAll (charge "p") [.allow 600 5, .record 500 6] (new 1000 10)).2 =
        (runAll (tally 1000) [.allow 600 5, .record 500 6] 0).2) ↔
      Along (tally 1000) Fits [.allow 600 5, .record 500 6] 0 := by
  have hnew : (new 1000 10).liveAccount "p" 5 = none := by
    rw [liveAccount, live, new, Std.ExtTreeMap.getElem?_empty, Option.filter_none]
  have hwindow : ∀ call ∈ [Charge.allow 600 5, .record 500 6],
      5 ≤ call.now ∧ call.now < 5 + (new 1000 10).window := by decide
  exact relay_accounting_iff hnew hwindow

/-- The recorded bytes leave no room for one more, and the sum is zero. -/
theorem record_overflows :
    runChecked (chargeChecked "p") [.record (2 ^ 64 - 1) 5, .allow 1 5] (new 1000 10) = none ∧
    (runAll (charge "p") [.record (2 ^ 64 - 1) 5, .allow 1 5] (new 1000 10)).2 = [none, some true] ∧
    (runAll (tally 1000) [.record (2 ^ 64 - 1) 5, .allow 1 5] 0).2 = [none, some false] := by
  refine ⟨?_, ?_, ?_⟩
  · decide +kernel
  · decide +kernel
  · decide

end DSearch.RelayBandwidthAccount
