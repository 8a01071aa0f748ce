import DSearch.Foundations.Runs

/-! # A worker between two queues

Requests wait in one queue, one worker takes them in order and answers them, and the answers wait in a
second queue until they are collected. In no interleaving of those who ask, work and collect is a request
lost, answered twice or overtaken, and what is under way comes to an end in a known number of steps. -/

namespace DSearch.Errands
set_option autoImplicit false
open Runs

variable {ρ α : Type*}

/-- `hand` is what the worker has taken, with its answer once there is one. -/
structure Line (ρ α : Type*) where
  waiting : List ρ
  hand : Option (ρ × Option α)
  ready : List (ρ × α)
  deriving DecidableEq, Repr

inductive Act (ρ α : Type*) where
  | ask (r : ρ)
  | take
  | answer (a : α)
  | give
  | collect
  deriving DecidableEq, Repr

/-- What a step is to those outside. -/
inductive Note (ρ α : Type*) where
  | asked (r : ρ)
  | answered (r : ρ) (a : α)
  | collected (r : ρ) (a : α)
  deriving DecidableEq, Repr

namespace Note

def asks : Note ρ α → Option ρ
  | asked r => some r
  | _ => none

def answers : Note ρ α → Option (ρ × α)
  | answered r a => some (r, a)
  | _ => none

def collects : Note ρ α → Option (ρ × α)
  | collected r a => some (r, a)
  | _ => none

end Note

namespace Line

def empty : Line ρ α := ⟨[], none, []⟩

/-- A step that is not possible does nothing. -/
@[local simp] def step : Act ρ α → Line ρ α → Line ρ α × Option (Note ρ α)
  | .ask r, l => ({ l with waiting := l.waiting ++ [r] }, some (.asked r))
  | .take, ⟨r :: waiting, none, ready⟩ => (⟨waiting, some (r, none), ready⟩, none)
  | .answer a, ⟨waiting, some (r, none), ready⟩ =>
    (⟨waiting, some (r, some a), ready⟩, some (.answered r a))
  | .give, ⟨waiting, some (r, some a), ready⟩ => (⟨waiting, none, ready ++ [(r, a)]⟩, none)
  | .collect, ⟨waiting, hand, (r, a) :: ready⟩ => (⟨waiting, hand, ready⟩, some (.collected r a))
  | _, l => (l, none)

/-- What has been asked for and not collected, in order. -/
def underWay (l : Line ρ α) : List ρ :=
  l.ready.map Prod.fst ++ (l.hand.toList.map Prod.fst ++ l.waiting)

/-- The answer that the worker holds. -/
def held (l : Line ρ α) : List (ρ × α) :=
  l.hand.toList.filterMap fun taken => taken.2.map fun a => (taken.1, a)

/-- What has been answered and not collected, in order. -/
def answered (l : Line ρ α) : List (ρ × α) := l.ready ++ l.held

/-- The steps that are left if nothing more is asked. -/
def load (l : Line ρ α) : ℕ :=
  4 * l.waiting.length + (l.hand.elim 0 fun taken => taken.2.elim 3 fun _ => 2) + l.ready.length

/-- The step can be made, and asks for nothing. -/
def Works (l : Line ρ α) : Act ρ α → Prop
  | .ask _ => False
  | .take => l.waiting ≠ [] ∧ l.hand = none
  | .answer _ => ∃ r, l.hand = some (r, none)
  | .give => ∃ r a, l.hand = some (r, some a)
  | .collect => l.ready ≠ []

theorem underWay_take (l : Line ρ α) : (step .take l).1.underWay = l.underWay := by
  obtain ⟨waiting, hand, ready⟩ := l
  cases waiting <;> cases hand <;> simp [underWay]

theorem underWay_answer (a : α) (l : Line ρ α) : (step (.answer a) l).1.underWay = l.underWay := by
  obtain ⟨waiting, hand, ready⟩ := l
  rcases hand with _ | ⟨r, _ | b⟩ <;> simp [underWay]

theorem underWay_give (l : Line ρ α) : (step .give l).1.underWay = l.underWay := by
  obtain ⟨waiting, hand, ready⟩ := l
  rcases hand with _ | ⟨r, _ | b⟩ <;> simp [underWay]

theorem underWay_step (act : Act ρ α) (l : Line ρ α) :
    ((step act l).2.bind Note.collects).toList.map Prod.fst ++ (step act l).1.underWay =
      l.underWay ++ ((step act l).2.bind Note.asks).toList := by
  obtain ⟨waiting, hand, ready⟩ := l
  cases act with
  | ask r => simp [underWay, Note.asks, Note.collects]
  | take =>
    cases waiting <;> cases hand <;> simp [underWay]
  | answer a =>
    rcases hand with _ | ⟨r, _ | b⟩ <;> simp [underWay, Note.asks, Note.collects]
  | give =>
    rcases hand with _ | ⟨r, _ | b⟩ <;> simp [underWay]
  | collect =>
    cases ready <;> simp [underWay, Note.asks, Note.collects]

theorem answered_step (act : Act ρ α) (l : Line ρ α) :
    ((step act l).2.bind Note.collects).toList ++ (step act l).1.answered =
      l.answered ++ ((step act l).2.bind Note.answers).toList := by
  obtain ⟨waiting, hand, ready⟩ := l
  cases act with
  | ask r => simp [answered, held, Note.answers, Note.collects]
  | take =>
    cases waiting <;> cases hand <;> simp [answered, held]
  | answer a =>
    rcases hand with _ | ⟨r, _ | b⟩ <;> simp [answered, held, Note.answers, Note.collects]
  | give =>
    rcases hand with _ | ⟨r, _ | b⟩ <;> simp [answered, held]
  | collect =>
    cases ready <;> simp [answered, held, Note.answers, Note.collects]

/-- A step that is no asking takes one off the load. -/
theorem load_step {act : Act ρ α} {l : Line ρ α} (h : l.Works act) :
    (step act l).1.load + 1 = l.load := by
  obtain ⟨waiting, hand, ready⟩ := l
  cases act with
  | ask r => exact h.elim
  | take =>
    obtain ⟨hwaiting, rfl⟩ := h
    obtain ⟨r, waiting, rfl⟩ := List.exists_cons_of_ne_nil hwaiting
    simp [load]
    omega
  | answer a =>
    obtain ⟨r, rfl⟩ := h
    simp [load]
    omega
  | give =>
    obtain ⟨r, a, rfl⟩ := h
    simp [load]
    omega
  | collect =>
    obtain ⟨⟨r, a⟩, ready, rfl⟩ := List.exists_cons_of_ne_nil h
    simp [load]
    omega

/-- What no step can be made of has nothing under way. -/
theorem underWay_eq_nil_of_still {l : Line ρ α} (a : α) (h : ∀ act, ¬ l.Works act) :
    l.underWay = [] := by
  obtain ⟨waiting, hand, ready⟩ := l
  have hready : ready = [] := by
    by_contra hne
    exact h .collect hne
  rcases hand with _ | ⟨r, _ | b⟩
  · have hwaiting : waiting = [] := by
      by_contra hne
      exact h .take ⟨hne, rfl⟩
    rw [hready, hwaiting]
    rfl
  · exact absurd ⟨r, rfl⟩ (h (.answer a))
  · exact absurd ⟨r, b, rfl⟩ (h .give)

/-! ## Runs -/

/-- The notes of a run that say something of one kind. -/
def log {β : Type*} (kind : Note ρ α → Option β) (acts : List (Act ρ α)) (l : Line ρ α) : List β :=
  (runAll step acts l).2.filterMap fun note => note.bind kind

theorem log_cons {β : Type*} (kind : Note ρ α → Option β) (act : Act ρ α) (acts : List (Act ρ α))
    (l : Line ρ α) :
    log kind (act :: acts) l =
      ((step act l).2.bind kind).toList ++ log kind acts (step act l).1 := by
  unfold log
  rw [runAll_cons, List.filterMap_cons]
  cases (step act l).2.bind kind <;> rfl

theorem log_append {β : Type*} (kind : Note ρ α → Option β) (first second : List (Act ρ α))
    (l : Line ρ α) : log kind (first ++ second) l =
      log kind first l ++ log kind second (runAll step first l).1 := by
  induction first generalizing l with
  | nil => rfl
  | cons act first ih =>
    rw [List.cons_append, log_cons, log_cons, ih, List.append_assoc]
    rfl

/-- What is collected and what is under way, in that order, is what was asked for. -/
theorem underWay_run (acts : List (Act ρ α)) (l : Line ρ α) :
    (log Note.collects acts l).map Prod.fst ++ (runAll step acts l).1.underWay =
      l.underWay ++ log Note.asks acts l := by
  induction acts generalizing l with
  | nil => exact (List.append_nil _).symm
  | cons act acts ih =>
    rw [log_cons, log_cons, runAll_cons, List.map_append, List.append_assoc, ih, ← List.append_assoc,
      underWay_step, List.append_assoc]

/-- What is collected is the beginning of what was answered. -/
theorem answered_run (acts : List (Act ρ α)) (l : Line ρ α) :
    log Note.collects acts l ++ (runAll step acts l).1.answered =
      l.answered ++ log Note.answers acts l := by
  induction acts generalizing l with
  | nil => exact (List.append_nil _).symm
  | cons act acts ih =>
    rw [log_cons, log_cons, runAll_cons, List.append_assoc, ih, ← List.append_assoc, answered_step,
      List.append_assoc]

end Line

end DSearch.Errands
