import DSearch.Foundations.Replicas

/-! # Traffic between replicas

What is in flight, weighed. `Draining weight`: what a packet leads to weighs less than the packet, so
once no node is called the traffic ends. `Conserving kind`: a packet of the kind leads to one packet of
the kind and any other to none, so their number stays while nothing is lost. -/

namespace DSearch.Replicas
set_option autoImplicit false

variable {ι σ μ ο : Type*} (p : Protocol ι σ μ ο) (M : μ → Prop)

/-- What is sent for a packet in `M` weighs less than it. -/
structure Draining (weight : μ → ℕ) : Prop where
  receive : ∀ m s, M m → ((p.receive m s).2.map weight).sum < weight m

/-- For each packet of the kind that is received one is sent, and none for any other. -/
structure Conserving (kind : μ → Prop) [DecidablePred kind] : Prop where
  call : ∀ i op s, ∀ m ∈ (p.call i op s).2, ¬ kind m
  receive : ∀ m s, M m → (p.receive m s).2.countP (fun m' => decide (kind m')) = if kind m then 1 else 0

def Net.load (weight : μ → ℕ) (net : Net ι σ μ) : ℕ := (net.flight.map weight).sum

def Net.number (kind : μ → Prop) [DecidablePred kind] (net : Net ι σ μ) : ℕ :=
  net.flight.countP fun m => kind m

theorem sum_eraseIdx {l : List μ} {n : ℕ} {m : μ} (h : l[n]? = some m) (weight : μ → ℕ) :
    (l.map weight).sum = weight m + ((l.eraseIdx n).map weight).sum := by
  obtain ⟨hlt, rfl⟩ := List.getElem?_eq_some_iff.mp h
  rw [← ((List.getElem_cons_eraseIdx_perm hlt).map weight).sum_eq, List.map_cons, List.sum_cons]

theorem countP_eraseIdx {l : List μ} {n : ℕ} {m : μ} (h : l[n]? = some m) (kind : μ → Prop)
    [DecidablePred kind] : l.countP (fun m => decide (kind m)) =
      (l.eraseIdx n).countP (fun m => decide (kind m)) + if kind m then 1 else 0 := by
  obtain ⟨hlt, rfl⟩ := List.getElem?_eq_some_iff.mp h
  rw [← (List.getElem_cons_eraseIdx_perm hlt).countP_eq, List.countP_cons]
  simp

/-- Whether a step takes a packet off the flight to receive it. -/
def taken (net : Net ι σ μ) : Step ι ο → ℕ
  | .deliver n => if n < net.flight.length then 1 else 0
  | _ => 0

variable [DecidableEq ι]

/-- How many packets are received in a run. -/
def deliveries : Net ι σ μ → List (Step ι ο) → ℕ
  | _, [] => 0
  | net, s :: steps => taken net s + deliveries (step p net s) steps

variable {p M} {allowed : ι → ο → Prop} {I : ι → σ → Prop}

/-- One step without a call: the load falls with every packet that is received. -/
theorem Draining.step {weight : μ → ℕ} (h : Draining p M weight) {net : Net ι σ μ}
    (hnet : ∀ m ∈ net.flight, M m) {s : Step ι ο} (hs : Calls (fun _ _ => False) [s]) :
    (step p net s).load weight + taken net s ≤ net.load weight := by
  cases s with
  | call i op => exact (hs i op (List.mem_singleton.mpr rfl)).elim
  | lose n =>
    have hle : ((net.flight.eraseIdx n).map weight).sum ≤ (net.flight.map weight).sum :=
      ((List.eraseIdx_sublist net.flight n).map weight).sum_le_sum fun _ _ => Nat.zero_le _
    exact hle
  | deliver n =>
    cases hm : net.flight[n]? with
    | none =>
      have hlarge := List.getElem?_eq_none_iff.mp hm
      have hsame : Replicas.step p net (.deliver n) = net := by simp only [Replicas.step, hm]
      rw [hsame, taken, if_neg (Nat.not_lt.mpr hlarge)]
      exact le_rfl
    | some m =>
      obtain ⟨hlt, -⟩ := List.getElem?_eq_some_iff.mp hm
      have hless := h.receive m (net.node (p.dst m)) (hnet m (List.mem_of_getElem? hm))
      have hstep : Replicas.step p net (.deliver n) =
          net.moved (p.dst m) (net.flight.eraseIdx n) (p.receive m (net.node (p.dst m))) := by
        simp only [Replicas.step, hm]
      rw [hstep, taken, if_pos hlt, Net.load, Net.load, sum_eraseIdx hm weight]
      unfold Net.moved
      dsimp only
      rw [List.map_append, List.sum_append]
      omega

/-- The run rule: a run without calls receives no more packets than its start weighs. -/
theorem Draining.run {weight : μ → ℕ} (h : Draining p M weight)
    (hI : Inductive p (fun _ _ => False) I M) {net : Net ι σ μ} (hnet : net.Within I M)
    {steps : List (Step ι ο)} (hsteps : Calls (fun _ _ => False) steps) :
    (run p net steps).load weight + deliveries p net steps ≤ net.load weight := by
  induction steps generalizing net with
  | nil => exact le_rfl
  | cons s steps ih =>
    obtain ⟨hs, hrest⟩ := hsteps.of_cons
    have hone := h.step hnet.flight hs
    have hmore := ih (hI.step hnet hs) hrest
    rw [run_cons, deliveries]
    omega

/-- Packet by packet the flight empties. -/
theorem Draining.empties {weight : μ → ℕ} (h : Draining p M weight)
    (hI : Inductive p (fun _ _ => False) I M) {net : Net ι σ μ} (hnet : net.Within I M) {n : ℕ}
    (hn : net.load weight ≤ n) : (Replicas.run p net (List.replicate n (.deliver 0))).flight = [] := by
  have hs : Calls (fun _ _ => False) [(.deliver 0 : Step ι ο)] := by
    intro i op hop
    simp at hop
  induction n generalizing net with
  | zero =>
    cases hflight : net.flight with
    | nil => exact hflight
    | cons m flight =>
      have hpos := h.receive m (net.node (p.dst m)) (hnet.flight m (hflight ▸ List.mem_cons_self))
      rw [Net.load, hflight, List.map_cons, List.sum_cons] at hn
      omega
  | succ n ih =>
    have hone := h.step hnet.flight hs
    have hnext := hI.step hnet hs
    rw [List.replicate_succ, run_cons]
    refine ih hnext ?_
    cases hflight : net.flight with
    | nil =>
      have hsame : Replicas.step p net (.deliver 0) = net := by
        simp only [Replicas.step, hflight, List.getElem?_nil]
      rw [hsame, Net.load, hflight]
      exact Nat.zero_le n
    | cons m flight =>
      have htaken : taken net (.deliver 0 : Step ι ο) = 1 := by
        rw [taken, hflight, if_pos (List.length_pos_of_mem List.mem_cons_self)]
      omega

theorem Conserving.step {kind : μ → Prop} [DecidablePred kind] (h : Conserving p M kind)
    {net : Net ι σ μ} (hnet : ∀ m ∈ net.flight, M m) {s : Step ι ο} (hs : Lossless [s]) :
    (step p net s).number kind = net.number kind := by
  cases s with
  | call i op =>
    have hnone : (p.call i op (net.node i)).2.countP (fun m => decide (kind m)) = 0 :=
      List.countP_eq_zero.mpr fun m hm => by simpa using h.call i op _ m hm
    change (net.flight ++ (p.call i op (net.node i)).2).countP _ = _
    rw [List.countP_append, hnone, Nat.add_zero]
    rfl
  | lose n => exact absurd (List.mem_singleton.mpr rfl) (hs n)
  | deliver n =>
    cases hm : net.flight[n]? with
    | none => simp only [Replicas.step, hm]
    | some m =>
      have hone := h.receive m (net.node (p.dst m)) (hnet m (List.mem_of_getElem? hm))
      have hstep : Replicas.step p net (.deliver n) =
          net.moved (p.dst m) (net.flight.eraseIdx n) (p.receive m (net.node (p.dst m))) := by
        simp only [Replicas.step, hm]
      rw [hstep, Net.number, Net.number, countP_eraseIdx hm kind]
      unfold Net.moved
      dsimp only
      rw [List.countP_append, hone]

/-- The run rule: while nothing is lost, as many packets of the kind are in flight as at the start. -/
theorem Conserving.run {kind : μ → Prop} [DecidablePred kind] (h : Conserving p M kind)
    (hI : Inductive p allowed I M) {net : Net ι σ μ} (hnet : net.Within I M)
    {steps : List (Step ι ο)} (hsteps : Calls allowed steps) (hlossless : Lossless steps) :
    (run p net steps).number kind = net.number kind := by
  induction steps generalizing net with
  | nil => rfl
  | cons s steps ih =>
    obtain ⟨hs, hrest⟩ := hsteps.of_cons
    obtain ⟨hl, hlrest⟩ := hlossless.of_cons
    rw [run_cons, ih (hI.step hnet hs) hrest hlrest, h.step hnet.flight hl]

end DSearch.Replicas
