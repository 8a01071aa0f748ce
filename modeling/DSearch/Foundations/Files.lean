import Mathlib

/-! # Calls that rewrite a file

A call loads a value from a file, may end there, and else changes the value and writes it back. The
reading and the writing are two steps: other calls may run between them.

`Keeps` is what such a call owes to the file, over what a file holds. -/

namespace DSearch.Files
set_option autoImplicit false

variable {φ ν ρ ι : Type}

/-- How the writing of a file ends. A failed write can leave anything behind. -/
inductive FileWrite (φ : Type) where
  | written
  | failed (reason : String) (left : φ)
  deriving DecidableEq, Repr

/-- `ends` are the answers that are given after the loading, with nothing written. -/
structure Update (φ ν ρ : Type) where
  load : φ → Except ρ ν
  ends : ν → Option ρ
  change : ν → ν
  serialize : ν → Except ρ φ
  written : ρ
  notWritten : String → ρ

namespace Update
variable (u : Update φ ν ρ)

/-- The first step: an answer, or the value that the call goes on with. -/
def read (file : φ) : Except ρ ν :=
  match u.load file with
  | .error answer => .error answer
  | .ok v =>
    match u.ends v with
    | some answer => .error answer
    | none => .ok v

/-- The second step, with the value that was read. -/
def write (w : FileWrite φ) (v : ν) (file : φ) : φ × ρ :=
  match u.serialize (u.change v) with
  | .error answer => (file, answer)
  | .ok text =>
    match w with
    | .written => (text, u.written)
    | .failed reason left => (left, u.notWritten reason)

/-- The whole call, with nothing between its steps. -/
def run (w : FileWrite φ) (file : φ) : φ × ρ :=
  match u.read file with
  | .error answer => (file, answer)
  | .ok v => u.write w v file

variable {u}

theorem run_of_read_error {w : FileWrite φ} {file : φ} {answer : ρ}
    (h : u.read file = .error answer) : u.run w file = (file, answer) := by
  rw [run, h]

theorem run_of_read_ok {w : FileWrite φ} {file : φ} {v : ν} (h : u.read file = .ok v) :
    u.run w file = u.write w v file := by
  rw [run, h]

theorem read_eq_ok_iff {file : φ} {v : ν} :
    u.read file = .ok v ↔ u.load file = .ok v ∧ u.ends v = none := by
  unfold read
  cases u.load file with
  | error answer => simp
  | ok v' =>
    dsimp only
    cases hends : u.ends v' with
    | some answer =>
      simp only [reduceCtorEq, Except.ok.injEq, false_iff, not_and]
      rintro rfl
      simp [hends]
    | none =>
      simp only [Except.ok.injEq]
      exact ⟨fun h => ⟨h, h ▸ hends⟩, And.left⟩

theorem write_written {v : ν} {text : φ} (h : u.serialize (u.change v) = .ok text) (file : φ) :
    u.write .written v file = (text, u.written) := by
  rw [write, h]

end Update

/-! ## What a file holds -/

/-- The call fails and leaves the file alone, or the file then holds what it held and what was added. -/
def Keeps (held : φ → Set ι) (added : Set ι) (fails : ρ → Prop) (before : φ) (after : φ × ρ) : Prop :=
  (fails after.2 ∧ after.1 = before) ∨ (held before ⊆ held after.1 ∧ added ⊆ held after.1)

/-- What a call does to what the file holds: a value that is serialized is held, the change adds
`extra`, and what was asked for is in it. -/
structure Holds (u : Update φ ν ρ) (held : φ → Set ι) (items : ν → Set ι) (added extra : Set ι) :
    Prop where
  serialized : ∀ v text, u.serialize v = .ok text → held text = items v
  change : ∀ v, items (u.change v) = items v ∪ extra
  added : added ⊆ extra

variable {u : Update φ ν ρ} {held : φ → Set ι} {items : ν → Set ι} {added extra : Set ι}
  {fails : ρ → Prop}

/-- A call that ends before it writes. -/
theorem keeps_of_read_error {w : FileWrite φ} {file : φ} {answer : ρ}
    (h : u.read file = .error answer) :
    Keeps held added fails file (u.run w file) ↔ fails answer ∨ added ⊆ held file := by
  rw [Update.run_of_read_error h]
  simp [Keeps]

/-- Where a call goes on with `loaded`: nothing else was in the file but what is added, or the write
fails and leaves the file alone, or leaves everything in it. -/
def Retains (held : φ → Set ι) (added extra loaded : Set ι) (reported : Prop) (w : FileWrite φ)
    (file : φ) : Prop :=
  match w with
  | .written => held file ⊆ loaded ∪ extra
  | .failed _ left => (reported ∧ left = file) ∨ (held file ⊆ held left ∧ added ⊆ held left)

/-- A call that writes. -/
theorem keeps_of_read_ok (hholds : Holds u held items added extra) (hdone : ¬ fails u.written)
    {reported : Prop} (hreported : ∀ reason, fails (u.notWritten reason) ↔ reported) {w : FileWrite φ}
    {file : φ} {v : ν} {text : φ} (h : u.read file = .ok v)
    (htext : u.serialize (u.change v) = .ok text) :
    Keeps held added fails file (u.run w file) ↔
      Retains held added extra (items v) reported w file := by
  rw [Update.run_of_read_ok h, Update.write, htext]
  cases w with
  | written =>
    have hnew : added ⊆ items v ∪ extra := hholds.added.trans Set.subset_union_right
    unfold Keeps Retains
    dsimp only
    rw [hholds.serialized _ _ htext, hholds.change]
    simp [hdone, hnew]
  | failed reason left =>
    unfold Keeps Retains
    dsimp only
    rw [hreported]

/-- A call that loads `v`. -/
theorem keeps_of_load (hholds : Holds u held items added extra) (hdone : ¬ fails u.written)
    {reported : Prop} (hreported : ∀ reason, fails (u.notWritten reason) ↔ reported)
    (hserialize : ∀ v, ∃ text, u.serialize v = .ok text) (w : FileWrite φ) {file : φ} {v : ν}
    (hload : u.load file = .ok v) :
    Keeps held added fails file (u.run w file) ↔
      match u.ends v with
      | some answer => fails answer ∨ added ⊆ held file
      | none => Retains held added extra (items v) reported w file := by
  cases hends : u.ends v with
  | some answer =>
    have hread : u.read file = .error answer := by
      rw [Update.read, hload]
      dsimp only
      rw [hends]
    exact keeps_of_read_error hread
  | none =>
    obtain ⟨text, htext⟩ := hserialize (u.change v)
    exact keeps_of_read_ok hholds hdone hreported (Update.read_eq_ok_iff.mpr ⟨hload, hends⟩) htext

end DSearch.Files
