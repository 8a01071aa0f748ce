import Mathlib

/-! # Clients of a transactional store

A store of type `σ` is shared by clients that touch it only through transactions. A transaction
runs alone and is all or nothing; between two transactions of one client any other client may
run. Everything here is generic in the store:

* `Outcome`: what a call of the program ends in (a value, an error value, or a panic).
* `Client σ α`: the tree of transactions a call may make, each with its effect on the store and
  with what the call does next, given the state that the transaction saw.
* `Client.run`: a client running alone. `interleave`: clients taking turns in the order of a
  schedule, one transaction a turn.
* `Client.onPart`: a client of one part of a larger store.
* `Client.Within I R`: from every state in `I`, every transaction of the client moves the store
  along `R`. `Keeps` and `Guarantees` are its two uses; `Keeps.interleave` is the invariant rule
  for every schedule, `Guarantees.run` the frame rule for one client.
* `Client.Ends I P`: as long as its transactions see states in `I`, the client ends in a result of
  `P`; `Ends.interleave` carries this through every schedule.
-/

namespace DSearch.Transaction
set_option autoImplicit false

/-- How a call ends. `panic` is an unwinding panic: no value, and no later code of the call. -/
inductive Outcome (α : Type) where
  | ok (value : α)
  | err (reason : String)
  | panic
  deriving DecidableEq, Repr

def Outcome.map {α β : Type} (f : α → β) : Outcome α → Outcome β
  | .ok value => .ok (f value)
  | .err reason => .err reason
  | .panic => .panic

theorem Outcome.map_eq_err {α β : Type} {f : α → β} {out : Outcome α} {reason : String} :
    out.map f = .err reason ↔ out = .err reason := by
  cases out <;> simp [Outcome.map]

/-- A finite tree of transactions. `commit` is the effect of a transaction, `resume` the rest of
the client; both are given the state the transaction saw. -/
inductive Client (σ α : Type) where
  | done (result : α)
  | transact (commit : σ → σ) (resume : σ → Client σ α)

namespace Client
variable {σ α β γ : Type}

/-- A read transaction: a snapshot, no effect. -/
def read (resume : σ → Client σ α) : Client σ α := .transact id resume

def write (commit : σ → σ) (next : Client σ α) : Client σ α := .transact commit fun _ => next

def atomically (tx : σ → σ × β) (next : β → Client σ α) : Client σ α :=
  .transact (fun s => (tx s).1) fun s => next (tx s).2

def bind : Client σ α → (α → Client σ β) → Client σ β
  | .done a, next => next a
  | .transact commit resume, next => .transact commit fun s => (resume s).bind next

/-- Sequencing of calls that may fail: the first failure ends the whole call. -/
def andThen (c : Client σ (Outcome α)) (next : α → Client σ (Outcome β)) : Client σ (Outcome β) :=
  c.bind fun
    | .ok a => next a
    | .err e => .done (.err e)
    | .panic => .done .panic

def run : Client σ α → σ → σ × α
  | .done a, s => (s, a)
  | .transact commit resume, s => (resume s).run (commit s)

@[simp] theorem run_done (a : α) (s : σ) : (Client.done a).run s = (s, a) := rfl

@[simp] theorem run_read (resume : σ → Client σ α) (s : σ) :
    (read resume).run s = (resume s).run s := rfl

@[simp] theorem run_write (commit : σ → σ) (next : Client σ α) (s : σ) :
    (write commit next).run s = next.run (commit s) := rfl

@[simp] theorem run_atomically (tx : σ → σ × β) (next : β → Client σ α) (s : σ) :
    (atomically tx next).run s = (next (tx s).2).run (tx s).1 := rfl

@[simp] theorem run_bind (c : Client σ α) (next : α → Client σ β) (s : σ) :
    (c.bind next).run s = (next (c.run s).2).run (c.run s).1 := by
  induction c generalizing s with
  | done a => rfl
  | transact commit resume ih => exact ih s (commit s)

theorem run_eq {c : Client σ α} {s : σ} {a : α} (h : (c.run s).2 = a) :
    c.run s = ((c.run s).1, a) :=
  Prod.ext rfl h

theorem run_andThen (c : Client σ (Outcome α)) (next : α → Client σ (Outcome β)) (s : σ) :
    (c.andThen next).run s = match c.run s with
      | (s', .ok a) => (next a).run s'
      | (s', .err e) => (s', .err e)
      | (s', .panic) => (s', .panic) := by
  unfold andThen
  rw [run_bind]
  obtain ⟨s', out⟩ := c.run s
  cases out <;> rfl

theorem run_andThen_done (c : Client σ (Outcome α)) (f : α → β) (s : σ) :
    (c.andThen fun a => .done (.ok (f a))).run s = ((c.run s).1, (c.run s).2.map f) := by
  rw [run_andThen]
  obtain ⟨s', out⟩ := c.run s
  cases out <;> rfl

/-! ## Invariants and frames of a client -/

/-- From every state in `I`, every transaction of the client moves the store along `R`. -/
inductive Within (I : σ → Prop) (R : σ → σ → Prop) : Client σ α → Prop
  | done (a : α) : Within I R (.done a)
  | transact {commit : σ → σ} {resume : σ → Client σ α} (hcommit : ∀ s, I s → R s (commit s))
      (hresume : ∀ s, I s → Within I R (resume s)) : Within I R (.transact commit resume)

/-- Every transaction of the client keeps `I`, whatever ran between two of them. -/
def Keeps (I : σ → Prop) (c : Client σ α) : Prop := c.Within I fun _ s' => I s'

def Guarantees (R : σ → σ → Prop) (c : Client σ α) : Prop := c.Within (fun _ => True) R

variable {I : σ → Prop} {R : σ → σ → Prop}

theorem Within.bind {c : Client σ α} {next : α → Client σ β} (hc : c.Within I R)
    (hnext : ∀ a, (next a).Within I R) : (c.bind next).Within I R := by
  induction hc with
  | done a => exact hnext a
  | transact hcommit _ ih => exact .transact hcommit ih

theorem Within.andThen {c : Client σ (Outcome α)} {next : α → Client σ (Outcome β)}
    (hc : c.Within I R) (hnext : ∀ a, (next a).Within I R) : (c.andThen next).Within I R := by
  refine Within.bind hc fun out => ?_
  cases out with
  | ok a => exact hnext a
  | err e => exact .done _
  | panic => exact .done _

theorem Within.read {resume : σ → Client σ α} (hR : ∀ s, I s → R s s)
    (h : ∀ s, I s → (resume s).Within I R) : (read resume).Within I R :=
  .transact hR h

theorem Within.write {commit : σ → σ} {next : Client σ α} (hcommit : ∀ s, I s → R s (commit s))
    (h : next.Within I R) : (write commit next).Within I R :=
  .transact hcommit fun _ _ => h

theorem Within.atomically {tx : σ → σ × β} {next : β → Client σ α}
    (htx : ∀ s, I s → R s (tx s).1) (h : ∀ b, (next b).Within I R) :
    (atomically tx next).Within I R :=
  .transact htx fun _ _ => h _

/-- The frame rule: a reflexive and transitive guarantee holds of the whole run. -/
theorem Guarantees.run {c : Client σ α} (h : c.Guarantees R) (hrefl : ∀ s, R s s)
    (htrans : ∀ s t u, R s t → R t u → R s u) (s : σ) : R s (c.run s).1 := by
  induction h generalizing s with
  | done a => exact hrefl s
  | transact hcommit _ ih => exact htrans _ _ _ (hcommit s trivial) (ih s trivial _)

theorem Guarantees.within {R' : σ → σ → Prop} {c : Client σ α} (h : c.Guarantees R)
    (himplies : ∀ s s', I s → R s s' → R' s s') : c.Within I R' := by
  induction h with
  | done a => exact .done a
  | transact hcommit _ ih =>
    exact .transact (fun s hs => himplies _ _ hs (hcommit s trivial)) fun s _ => ih s trivial

/-- A guarantee that preserves `I` makes the client keep it. -/
theorem Guarantees.keeps {c : Client σ α} (h : c.Guarantees R)
    (hpreserves : ∀ s s', I s → R s s' → I s') : c.Keeps I :=
  h.within hpreserves

theorem Keeps.run {c : Client σ α} (h : c.Keeps I) {s : σ} (hs : I s) : I (c.run s).1 := by
  induction h generalizing s with
  | done a => exact hs
  | transact hcommit _ ih => exact ih s hs (hcommit s hs)

/-- Whatever states of `I` its transactions see, the client ends in a result of `P`. -/
inductive Ends (I : σ → Prop) (P : α → Prop) : Client σ α → Prop
  | done {a : α} (h : P a) : Ends I P (.done a)
  | transact {commit : σ → σ} {resume : σ → Client σ α} (h : ∀ s, I s → Ends I P (resume s)) :
      Ends I P (.transact commit resume)

variable {P : α → Prop}

theorem Ends.bind {Q : β → Prop} {c : Client σ α} {next : α → Client σ β} (hc : c.Ends I P)
    (hnext : ∀ a, P a → (next a).Ends I Q) : (c.bind next).Ends I Q := by
  induction hc with
  | done h => exact hnext _ h
  | transact _ ih => exact .transact ih

theorem Ends.andThen {P : Outcome α → Prop} {Q : Outcome β → Prop} {c : Client σ (Outcome α)}
    {next : α → Client σ (Outcome β)} (hc : c.Ends I P) (hok : ∀ a, P (.ok a) → (next a).Ends I Q)
    (herr : ∀ e, P (.err e) → Q (.err e)) (hpanic : P .panic → Q .panic) :
    (c.andThen next).Ends I Q := by
  refine Ends.bind hc fun out hout => ?_
  cases out with
  | ok a => exact hok a hout
  | err e => exact .done (herr e hout)
  | panic => exact .done (hpanic hout)

end Client

/-! ## Clients of a part of the store -/

/-- A part of a larger store: what is put is what is got, and nothing else changes. -/
structure Part (τ σ : Type) where
  get : τ → σ
  put : σ → τ → τ
  get_put : ∀ s t, get (put s t) = s
  put_put : ∀ s s' t, put s' (put s t) = put s' t
  put_get : ∀ t, put (get t) t = t

section Part
variable {τ σ α : Type} (part : Part τ σ)

/-- A client of a part, as a client of the whole. -/
def Client.onPart : Client σ α → Client τ α
  | .done a => .done a
  | .transact commit resume =>
    .transact (fun t => part.put (commit (part.get t)) t) fun t => (resume (part.get t)).onPart

theorem Client.run_onPart (c : Client σ α) (t : τ) :
    (c.onPart part).run t = (part.put (c.run (part.get t)).1 t, (c.run (part.get t)).2) := by
  induction c generalizing t with
  | done a => rw [onPart, run, run, part.put_get]
  | transact commit resume ih =>
    have hnext := ih (part.get t) (part.put (commit (part.get t)) t)
    rw [part.get_put, part.put_put] at hnext
    exact hnext

theorem Client.Keeps.onPart {I : σ → Prop} {c : Client σ α} (h : c.Keeps I) :
    (c.onPart part).Keeps fun t => I (part.get t) := by
  induction h with
  | done a => exact .done a
  | @transact commit _ hcommit _ ih =>
    refine .transact (fun t ht => ?_) fun t ht => ih (part.get t) ht
    have hkept := hcommit (part.get t) ht
    rwa [← part.get_put (commit (part.get t)) t] at hkept

end Part

/-! ## Clients taking turns -/

section Interleave
variable {σ α ι : Type} [DecidableEq ι]

/-- One turn of a client: its next transaction, if it still has one. -/
def Client.turn : Client σ α → σ → σ × Client σ α
  | .done a, s => (s, .done a)
  | .transact commit resume, s => (commit s, resume s)

def Client.result? : Client σ α → Option α
  | .done a => some a
  | .transact _ _ => none

def turn (sys : σ × (ι → Client σ α)) (i : ι) : σ × (ι → Client σ α) :=
  (((sys.2 i).turn sys.1).1, Function.update sys.2 i ((sys.2 i).turn sys.1).2)

def interleave (sys : σ × (ι → Client σ α)) (schedule : List ι) : σ × (ι → Client σ α) :=
  schedule.foldl turn sys

@[simp] theorem interleave_nil (sys : σ × (ι → Client σ α)) : interleave sys [] = sys := rfl

@[simp] theorem interleave_cons (sys : σ × (ι → Client σ α)) (i : ι) (schedule : List ι) :
    interleave sys (i :: schedule) = interleave (turn sys i) schedule := rfl

theorem interleave_append (sys : σ × (ι → Client σ α)) (s₁ s₂ : List ι) :
    interleave sys (s₁ ++ s₂) = interleave (interleave sys s₁) s₂ := List.foldl_append

theorem turn_client_self (sys : σ × (ι → Client σ α)) (i : ι) :
    (turn sys i).2 i = ((sys.2 i).turn sys.1).2 := Function.update_self _ _ _

theorem turn_client_ne (sys : σ × (ι → Client σ α)) {i j : ι} (h : j ≠ i) :
    (turn sys i).2 j = sys.2 j := Function.update_of_ne h _ _

theorem interleave_client_of_not_mem (sys : σ × (ι → Client σ α)) {i : ι} {schedule : List ι}
    (h : i ∉ schedule) : (interleave sys schedule).2 i = sys.2 i := by
  induction schedule generalizing sys with
  | nil => rfl
  | cons j schedule ih =>
    obtain ⟨hij, hrest⟩ := not_or.mp (mt List.mem_cons.mpr h)
    rw [interleave_cons, ih _ hrest, turn_client_ne sys hij]

/-- A client that takes every turn until it is done. -/
theorem exists_schedule_run (sys : σ × (ι → Client σ α)) (i : ι) :
    ∃ n, (interleave sys (List.replicate n i)).1 = ((sys.2 i).run sys.1).1 := by
  generalize hclient : sys.2 i = c
  induction c generalizing sys with
  | done a => exact ⟨0, rfl⟩
  | transact commit resume ih =>
    have hturn : (turn sys i).2 i = resume sys.1 := by
      rw [turn_client_self, hclient]
      rfl
    obtain ⟨n, hrest⟩ := ih sys.1 (turn sys i) hturn
    refine ⟨n + 1, ?_⟩
    rw [List.replicate_succ, interleave_cons, hrest, turn, hclient]
    rfl

theorem Client.Keeps.turn {I : σ → Prop} {c : Client σ α} (h : c.Keeps I) {s : σ} (hs : I s) :
    I (c.turn s).1 ∧ (c.turn s).2.Keeps I := by
  cases h with
  | done a => exact ⟨hs, .done a⟩
  | transact hcommit hresume => exact ⟨hcommit s hs, hresume s hs⟩

/-- The invariant rule: what every client keeps holds after every schedule. -/
theorem Client.Keeps.interleave {I : σ → Prop} {sys : σ × (ι → Client σ α)}
    (hclients : ∀ i, (sys.2 i).Keeps I) (hs : I sys.1) (schedule : List ι) :
    I (interleave sys schedule).1 := by
  induction schedule generalizing sys with
  | nil => exact hs
  | cons i schedule ih =>
    obtain ⟨hI, hnext⟩ := (hclients i).turn hs
    refine ih (fun j => ?_) hI
    by_cases hj : j = i
    · subst hj
      rw [turn_client_self]
      exact hnext
    · rw [turn_client_ne sys hj]
      exact hclients j

theorem Client.Ends.turn {I : σ → Prop} {P : α → Prop} {c : Client σ α} (h : c.Ends I P) {s : σ}
    (hs : I s) : (c.turn s).2.Ends I P := by
  cases h with
  | done h => exact .done h
  | transact h => exact h s hs

/-- A client among others that keep `I` ends as it does in the states of `I`. -/
theorem Client.Ends.interleave {I : σ → Prop} {P : α → Prop} {sys : σ × (ι → Client σ α)}
    (hclients : ∀ i, (sys.2 i).Keeps I) (hs : I sys.1) {i : ι} (hends : (sys.2 i).Ends I P)
    (schedule : List ι) : ((interleave sys schedule).2 i).Ends I P := by
  induction schedule generalizing sys with
  | nil => exact hends
  | cons j schedule ih =>
    have hturn : ∀ k, ((Transaction.turn sys j).2 k).Keeps I := by
      intro k
      by_cases hk : k = j
      · subst hk
        rw [turn_client_self]
        exact ((hclients k).turn hs).2
      · rw [turn_client_ne sys hk]
        exact hclients k
    refine ih hturn ((hclients j).turn hs).1 ?_
    by_cases hi : i = j
    · subst hi
      rw [turn_client_self]
      exact hends.turn hs
    · rw [turn_client_ne sys hi]
      exact hends

theorem Client.Ends.result {I : σ → Prop} {P : α → Prop} {c : Client σ α} (h : c.Ends I P) {a : α}
    (hresult : c.result? = some a) : P a := by
  cases h with
  | done h => exact Option.some.inj hresult ▸ h
  | transact _ => cases hresult

end Interleave

end DSearch.Transaction
