import Mathlib

/-! # Tasks over shared state

A program of tasks that share a state: tasks run one atomic action at a time, in any order, and an
action may spawn further tasks. `act` is the program: what a task does with a label, if it can, namely
the new shared state, what is left of the task and the tasks that it has spawned. A schedule picks the
task of every step and gives it its label; a pick that is not possible changes nothing.

`Meets` is a condition on every step of a schedule, on the state before it. `invariant_of_meets` is the
invariant rule for the runs that meet it, `acts` the one case distinction about a step. -/

namespace DSearch.Tasks
set_option autoImplicit false

structure System (σ τ : Type) where
  shared : σ
  tasks : List τ
  deriving DecidableEq, Repr

variable {σ τ ℓ : Type}

/-- What an action makes of its task. -/
structure Acted (σ τ : Type) where
  shared : σ
  task : τ
  spawned : List τ
  deriving DecidableEq, Repr

variable (act : ℓ → σ → τ → Option (Acted σ τ))

def step (sys : System σ τ) (pick : ℕ × ℓ) : System σ τ :=
  match sys.tasks[pick.1]? with
  | none => sys
  | some t =>
    match act pick.2 sys.shared t with
    | none => sys
    | some done => ⟨done.shared, sys.tasks.set pick.1 done.task ++ done.spawned⟩

def run (sys : System σ τ) (schedule : List (ℕ × ℓ)) : System σ τ := schedule.foldl (step act) sys

/-- Every step of the schedule is taken in a state that meets `C`. -/
def Meets (C : System σ τ → ℕ × ℓ → Prop) : System σ τ → List (ℕ × ℓ) → Prop
  | _, [] => True
  | sys, pick :: schedule => C sys pick ∧ Meets C (step act sys pick) schedule

instance instDecidableMeets (C : System σ τ → ℕ × ℓ → Prop) [∀ sys pick, Decidable (C sys pick)] :
    ∀ (sys : System σ τ) (schedule : List (ℕ × ℓ)), Decidable (Meets act C sys schedule)
  | _, [] => inferInstanceAs (Decidable True)
  | sys, pick :: schedule =>
    have := instDecidableMeets C (step act sys pick) schedule
    inferInstanceAs (Decidable (C sys pick ∧ Meets act C (step act sys pick) schedule))

@[simp] theorem run_nil (sys : System σ τ) : run act sys [] = sys := rfl

@[simp] theorem run_cons (sys : System σ τ) (pick : ℕ × ℓ) (schedule : List (ℕ × ℓ)) :
    run act sys (pick :: schedule) = run act (step act sys pick) schedule := rfl

/-- The task that a pick runs, between the others. -/
structure Picked (sys : System σ τ) (pick : ℕ × ℓ) (before : List τ) (t : τ) (after : List τ) :
    Prop where
  tasks : sys.tasks = before ++ t :: after
  at_task : sys.tasks[pick.1]? = some t
  set : ∀ t', sys.tasks.set pick.1 t' = before ++ t' :: after

theorem exists_picked {sys : System σ τ} {pick : ℕ × ℓ} {t : τ}
    (h : sys.tasks[pick.1]? = some t) : ∃ before after, Picked sys pick before t after := by
  obtain ⟨hlt, rfl⟩ := List.getElem?_eq_some_iff.mp h
  refine ⟨sys.tasks.take pick.1, sys.tasks.drop (pick.1 + 1), ?_, h, fun t' => ?_⟩
  · rw [List.getElem_cons_drop, List.take_append_drop]
  · exact List.set_eq_take_append_cons_drop ▸ if_pos hlt

/-- A step changes nothing, or is the action of one task. -/
theorem acts (sys : System σ τ) (pick : ℕ × ℓ) :
    step act sys pick = sys ∨
    ∃ before t after done, Picked sys pick before t after ∧
      act pick.2 sys.shared t = some done ∧
      step act sys pick = ⟨done.shared, before ++ done.task :: after ++ done.spawned⟩ := by
  cases htask : sys.tasks[pick.1]? with
  | none => exact .inl (by simp only [step, htask])
  | some t =>
    cases hact : act pick.2 sys.shared t with
    | none => exact .inl (by simp only [step, htask, hact])
    | some done =>
      obtain ⟨before, after, hpicked⟩ := exists_picked htask
      refine .inr ⟨before, t, after, done, hpicked, hact, ?_⟩
      simp only [step, htask, hact, hpicked.set]

variable {act}

/-- A task after a step was there before, or is what the step makes of the picked one, or is new. -/
theorem step_getElem?_cases {sys : System σ τ} {pick : ℕ × ℓ} {i : ℕ} {u : τ}
    (h : (step act sys pick).tasks[i]? = some u) :
    sys.tasks[i]? = some u ∨
    ∃ t done, sys.tasks[pick.1]? = some t ∧ act pick.2 sys.shared t = some done ∧
      ((i = pick.1 ∧ u = done.task) ∨ u ∈ done.spawned) := by
  rcases acts act sys pick with hsame | ⟨before, t, after, done, hpicked, hact, hstep⟩
  · rw [hsame] at h
    exact .inl h
  · rw [hstep, ← hpicked.set done.task] at h
    dsimp only at h
    rw [List.getElem?_append] at h
    split at h
    · rw [List.getElem?_set] at h
      split at h
      next hi =>
        split at h
        · exact .inr ⟨t, done, hpicked.at_task, hact, .inl ⟨hi.symm, (Option.some.inj h).symm⟩⟩
        · cases h
      next => exact .inl h
    · exact .inr ⟨t, done, hpicked.at_task, hact, .inr (List.mem_of_getElem? h)⟩

/-- The invariant rule for runs whose steps meet a condition. -/
theorem invariant_of_meets {C : System σ τ → ℕ × ℓ → Prop} {I : System σ τ → Prop}
    (hstep : ∀ sys pick, I sys → C sys pick → I (step act sys pick)) {sys : System σ τ}
    (hsys : I sys) {schedule : List (ℕ × ℓ)} (hmeets : Meets act C sys schedule) :
    I (run act sys schedule) := by
  induction schedule generalizing sys with
  | nil => exact hsys
  | cons pick schedule ih => exact ih (hstep sys pick hsys hmeets.1) hmeets.2

theorem meets_of_forall {C : ℕ × ℓ → Prop} {schedule : List (ℕ × ℓ)} (h : ∀ pick ∈ schedule, C pick)
    (sys : System σ τ) : Meets act (fun _ pick => C pick) sys schedule := by
  induction schedule generalizing sys with
  | nil => trivial
  | cons pick schedule ih =>
    exact ⟨h pick List.mem_cons_self, ih (fun p hp => h p (List.mem_cons_of_mem pick hp)) _⟩

/-- What a step keeps exactly when it meets the condition, a run keeps exactly when its steps meet it. -/
theorem forall_take_iff_meets (act : ℓ → σ → τ → Option (Acted σ τ))
    {C : System σ τ → ℕ × ℓ → Prop} {I P : System σ τ → Prop}
    (hinv : ∀ sys pick, I sys → P sys → I (step act sys pick))
    (hstep : ∀ sys pick, I sys → P sys → (P (step act sys pick) ↔ C sys pick))
    {sys : System σ τ} (hsys : I sys) (hkept : P sys) (schedule : List (ℕ × ℓ)) :
    (∀ k, P (run act sys (schedule.take k))) ↔ Meets act C sys schedule := by
  induction schedule generalizing sys with
  | nil =>
    simp only [List.take_nil, run_nil]
    exact ⟨fun _ => trivial, fun _ _ => hkept⟩
  | cons pick schedule ih =>
    have hnext := hinv sys pick hsys hkept
    constructor
    · intro h
      have hpick : P (step act sys pick) := h 1
      exact ⟨(hstep sys pick hsys hkept).mp hpick, (ih hnext hpick).mp fun k => h (k + 1)⟩
    · rintro ⟨hpick, hrest⟩ k
      have hpick' := (hstep sys pick hsys hkept).mpr hpick
      cases k with
      | zero => exact hkept
      | succ k => exact (ih hnext hpick').mpr hrest k

/-! ## Counting and collecting tasks -/

section Count
variable {p : τ → Bool} {sys : System σ τ} {pick : ℕ × ℓ} {before after : List τ} {t : τ}

theorem Picked.countP (h : Picked sys pick before t after) (t' : τ) (spawned : List τ) :
    (before ++ t' :: after ++ spawned).countP p + (if p t then 1 else 0) =
      sys.tasks.countP p + (if p t' then 1 else 0) + spawned.countP p := by
  rw [h.tasks]
  simp only [List.countP_append, List.countP_cons]
  omega

theorem Picked.countP_congr (h : Picked sys pick before t after) {t' : τ} (hp : p t' = p t) :
    (before ++ t' :: after ++ []).countP p = sys.tasks.countP p := by
  have hsum := h.countP (p := p) t' []
  rw [hp, List.countP_nil] at hsum
  omega

/-- What all tasks are, all tasks but the one that acts still are. -/
theorem Picked.forall_mem {P : τ → Prop} (h : Picked sys pick before t after)
    (htasks : ∀ u ∈ sys.tasks, P u) {t' : τ} (ht' : P t') {spawned : List τ}
    (hspawned : ∀ u ∈ spawned, P u) : ∀ u ∈ before ++ t' :: after ++ spawned, P u := by
  intro u hu
  rw [h.tasks] at htasks
  rcases List.mem_append.mp hu with hu | hu
  · rcases List.mem_append.mp hu with hu | hu
    · exact htasks u (List.mem_append_left _ hu)
    · rcases List.mem_cons.mp hu with rfl | hu
      · exact ht'
      · exact htasks u (List.mem_append_right _ (List.mem_cons_of_mem t hu))
  · exact hspawned u hu

theorem Picked.mem_other (h : Picked sys pick before t after) {u : τ} (hu : u ∈ sys.tasks)
    (hne : u ≠ t) (t' : τ) (spawned : List τ) : u ∈ before ++ t' :: after ++ spawned := by
  rw [h.tasks] at hu
  refine List.mem_append_left spawned ?_
  rcases List.mem_append.mp hu with hu | hu
  · exact List.mem_append_left _ hu
  · rcases List.mem_cons.mp hu with rfl | hu
    · exact absurd rfl hne
    · exact List.mem_append_right _ (List.mem_cons_of_mem t' hu)

theorem Picked.mem_new (before after spawned : List τ) (t' : τ) :
    t' ∈ before ++ t' :: after ++ spawned :=
  List.mem_append_left spawned (List.mem_append_right before List.mem_cons_self)

theorem Picked.mem (h : Picked sys pick before t after) : t ∈ sys.tasks := by
  rw [h.tasks]
  exact List.mem_append_right before List.mem_cons_self

end Count

end DSearch.Tasks
