import Mathlib

/-! # Loops over a byte string

A parser reads bytes by index and goes round in loops. A read outside the string and a loop that takes
more turns than it is given are faults of their own, apart from the errors that the parser returns.

`Shrinks` is what a loop needs to end: no turn faults, and a measure gets smaller with every turn. -/

namespace DSearch.Datagrams
set_option autoImplicit false

/-- How a parser stops before its result: with an error text, or with a fault. -/
inductive Stop
  | err (text : String)
  | outOfBounds
  | outOfTurns
  deriving DecidableEq

abbrev Run := Except Stop

def byteAt (data : List UInt8) (i : ℕ) : Run UInt8 :=
  match data[i]? with
  | some b => .ok b
  | none => .error .outOfBounds

/-- `u16::from_be_bytes` of two bytes of the string. -/
def u16At (data : List UInt8) (i : ℕ) : Run ℕ := do
  let high ← byteAt data i
  let low ← byteAt data (i + 1)
  return 256 * high.toNat + low.toNat

def slice (data : List UInt8) (first last : ℕ) : Run (List UInt8) :=
  if first ≤ last ∧ last ≤ data.length then .ok ((data.take last).drop first)
  else .error .outOfBounds

/-- What a turn of a loop comes to. -/
inductive Turn (σ α : Type)
  | again (s : σ)
  | done (a : α)

variable {σ α β : Type}

/-- A loop with so many turns at most. -/
def loop (body : σ → Run (Turn σ α)) : ℕ → σ → Run α
  | 0, _ => .error .outOfTurns
  | turns + 1, s =>
    match body s with
    | .ok (.again s') => loop body turns s'
    | .ok (.done a) => .ok a
    | .error stop => .error stop

/-! ## Reads inside the string -/

theorem byteAt_eq {data : List UInt8} {i : ℕ} (h : i < data.length) : byteAt data i = .ok data[i] := by
  rw [byteAt, List.getElem?_eq_getElem h]

theorem exists_u16At {data : List UInt8} {i : ℕ} (h : i + 1 < data.length) :
    ∃ n, u16At data i = .ok n := by
  rw [u16At, byteAt_eq (by omega), byteAt_eq h]
  exact ⟨_, rfl⟩

theorem byteAt_append (before : List UInt8) (b : UInt8) (after : List UInt8) :
    byteAt (before ++ b :: after) before.length = .ok b := by
  rw [byteAt_eq (by simp), List.getElem_append_right (le_refl _)]
  simp

theorem slice_append (before part after : List UInt8) :
    slice (before ++ part ++ after) before.length (before.length + part.length) = .ok part := by
  rw [slice, if_pos (by simp), ← List.length_append, List.take_left, List.drop_left]

def be16 (n : ℕ) : List UInt8 := [UInt8.ofNat (n / 256), UInt8.ofNat n]

theorem u16At_be16 (before : List UInt8) {n : ℕ} (h : n < 2 ^ 16) (after : List UInt8) :
    u16At (before ++ be16 n ++ after) before.length = .ok n := by
  have hhigh : byteAt (before ++ be16 n ++ after) before.length = .ok (UInt8.ofNat (n / 256)) := by
    rw [List.append_assoc]
    exact byteAt_append before _ _
  have hlow : byteAt (before ++ be16 n ++ after) (before.length + 1) = .ok (UInt8.ofNat n) := by
    have hshape : before ++ be16 n ++ after =
        (before ++ [UInt8.ofNat (n / 256)]) ++ UInt8.ofNat n :: after := by simp [be16]
    have hlength : before.length + 1 = (before ++ [UInt8.ofNat (n / 256)]).length := by simp
    rw [hshape, hlength]
    exact byteAt_append _ _ _
  rw [u16At, hhigh, hlow]
  refine congrArg Except.ok ?_
  rw [UInt8.toNat_ofNat', UInt8.toNat_ofNat']
  omega

/-! ## What stands at an offset -/

/-- The part stands in the string at the offset. -/
def Holds (data : List UInt8) (offset : ℕ) (part : List UInt8) : Prop :=
  ∃ before after, data = before ++ part ++ after ∧ before.length = offset

namespace Holds
variable {data part more : List UInt8} {offset : ℕ}

theorem front (h : Holds data offset (part ++ more)) : Holds data offset part := by
  obtain ⟨before, after, rfl, rfl⟩ := h
  exact ⟨before, more ++ after, by simp only [List.append_assoc], rfl⟩

theorem back (h : Holds data offset (part ++ more)) : Holds data (offset + part.length) more := by
  obtain ⟨before, after, rfl, rfl⟩ := h
  exact ⟨before ++ part, after, by simp only [List.append_assoc], List.length_append⟩

theorem length_le (h : Holds data offset part) : offset + part.length ≤ data.length := by
  obtain ⟨before, after, rfl, rfl⟩ := h
  rw [List.length_append, List.length_append]
  exact Nat.le_add_right _ _

theorem byteAt {b : UInt8} (h : Holds data offset (b :: part)) : byteAt data offset = .ok b := by
  obtain ⟨before, after, rfl, rfl⟩ := h
  rw [List.append_assoc]
  exact byteAt_append before b _

theorem slice (h : Holds data offset part) :
    slice data offset (offset + part.length) = .ok part := by
  obtain ⟨before, after, rfl, rfl⟩ := h
  exact slice_append before part after

theorem u16At {n : ℕ} (hn : n < 2 ^ 16) (h : Holds data offset (be16 n)) :
    u16At data offset = .ok n := by
  obtain ⟨before, after, rfl, rfl⟩ := h
  exact u16At_be16 before hn after

end Holds

/-! ## Runs without a fault -/

/-- The result or the error that a parser returns. -/
def returned : Except String α → Run α
  | .ok a => .ok a
  | .error text => .error (.err text)

/-- The run ends in what a parser returns. -/
def Returns (r : Run α) : Prop := ∃ answer : Except String α, r = returned answer

theorem Returns.ok (a : α) : Returns (.ok a : Run α) := ⟨.ok a, rfl⟩

theorem Returns.err (text : String) : Returns (.error (.err text) : Run α) := ⟨.error text, rfl⟩

theorem Returns.bind {r : Run α} {next : α → Run β} (hr : Returns r)
    (hnext : ∀ a, Returns (next a)) : Returns (r >>= next) := by
  obtain ⟨answer, rfl⟩ := hr
  cases answer with
  | ok a => exact hnext a
  | error text => exact Returns.err text

theorem returns_byteAt {data : List UInt8} {i : ℕ} (h : i < data.length) : Returns (byteAt data i) := by
  rw [byteAt_eq h]
  exact Returns.ok _

theorem returns_u16At {data : List UInt8} {i : ℕ} (h : i + 1 < data.length) :
    Returns (u16At data i) := by
  obtain ⟨n, hn⟩ := exists_u16At h
  exact ⟨.ok n, hn⟩

theorem returns_slice {data : List UInt8} {first last : ℕ} (h : first ≤ last)
    (h' : last ≤ data.length) : Returns (slice data first last) := by
  rw [slice, if_pos ⟨h, h'⟩]
  exact Returns.ok _

/-! ## Loops that end -/

/-- A turn returns, or goes on with a smaller measure. -/
inductive Goes (measure : σ → ℕ) (s : σ) : Run (Turn σ α) → Prop
  | err (text : String) : Goes measure s (.error (.err text))
  | done (a : α) : Goes measure s (.ok (.done a))
  | again {s' : σ} (hsmaller : measure s' < measure s) : Goes measure s (.ok (.again s'))

theorem Goes.bind {measure : σ → ℕ} {s : σ} {r : Run β} {next : β → Run (Turn σ α)} (hr : Returns r)
    (hnext : ∀ b, Goes measure s (next b)) : Goes measure s (r >>= next) := by
  obtain ⟨answer, rfl⟩ := hr
  cases answer with
  | ok b => exact hnext b
  | error text => exact Goes.err text

def Shrinks (body : σ → Run (Turn σ α)) (measure : σ → ℕ) : Prop := ∀ s, Goes measure s (body s)

/-- With more turns than the measure, the loop comes to `r`. -/
def Comes (body : σ → Run (Turn σ α)) (measure : σ → ℕ) (s : σ) (r : Run α) : Prop :=
  ∀ turns, measure s < turns → loop body turns s = r

variable {body : σ → Run (Turn σ α)} {measure : σ → ℕ}

theorem Comes.done {s : σ} {a : α} (h : body s = .ok (.done a)) : Comes body measure s (.ok a) := by
  intro turns hturns
  obtain ⟨n, rfl⟩ := Nat.exists_eq_add_of_lt hturns
  rw [loop, h]

theorem Comes.stop {s : σ} {stop : Stop} (h : body s = .error stop) :
    Comes body measure s (.error stop) := by
  intro turns hturns
  obtain ⟨n, rfl⟩ := Nat.exists_eq_add_of_lt hturns
  rw [loop, h]

theorem Comes.again (hshrinks : Shrinks body measure) {s s' : σ} {r : Run α}
    (h : body s = .ok (.again s')) (hnext : Comes body measure s' r) : Comes body measure s r := by
  intro turns hturns
  have hgoes := hshrinks s
  rw [h] at hgoes
  cases hgoes with
  | again hsmaller =>
    obtain ⟨n, rfl⟩ := Nat.exists_eq_add_of_lt hturns
    rw [loop, h]
    exact hnext _ (by omega)

/-- The loop ends, whatever it begins with. -/
theorem Shrinks.comes (hshrinks : Shrinks body measure) (s : σ) :
    ∃ answer : Except String α, Comes body measure s (returned answer) := by
  induction hsize : measure s using Nat.strong_induction_on generalizing s with
  | h n ih =>
    generalize hbody : body s = r
    have hgoes := hshrinks s
    rw [hbody] at hgoes
    cases hgoes with
    | err text => exact ⟨.error text, Comes.stop hbody⟩
    | done a => exact ⟨.ok a, Comes.done hbody⟩
    | again hsmaller =>
      obtain ⟨answer, hnext⟩ := ih _ (hsize ▸ hsmaller) _ rfl
      exact ⟨answer, Comes.again hshrinks hbody hnext⟩

/-! ## Parsers with loops -/

/-- With as many turns as the bound or more, the parser returns, and always the same. -/
def Settles (bound : ℕ) (parser : ℕ → Run α) : Prop :=
  ∃ answer : Except String α, ∀ turns, bound ≤ turns → parser turns = returned answer

variable {bound : ℕ}

theorem Settles.of_returns {r : Run α} (h : Returns r) : Settles bound fun _ => r := by
  obtain ⟨answer, rfl⟩ := h
  exact ⟨answer, fun _ _ => rfl⟩

theorem Settles.of_shrinks (h : Shrinks body measure) {s : σ} (hbound : measure s < bound) :
    Settles bound fun turns => loop body turns s := by
  obtain ⟨answer, hcomes⟩ := h.comes s
  exact ⟨answer, fun turns hturns => hcomes turns (by omega)⟩

theorem Settles.bind {parser : ℕ → Run α} {next : ℕ → α → Run β} (h : Settles bound parser)
    (hnext : ∀ a, Settles bound fun turns => next turns a) :
    Settles bound fun turns => parser turns >>= next turns := by
  obtain ⟨answer, hparser⟩ := h
  cases answer with
  | error text =>
    refine ⟨.error text, fun turns hturns => ?_⟩
    show parser turns >>= next turns = _
    rw [hparser turns hturns]
    rfl
  | ok a =>
    obtain ⟨answer, hafter⟩ := hnext a
    refine ⟨answer, fun turns hturns => ?_⟩
    show parser turns >>= next turns = _
    rw [hparser turns hturns, ← hafter turns hturns]
    rfl

end DSearch.Datagrams
