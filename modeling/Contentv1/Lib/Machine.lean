import Mathlib.Algebra.GroupWithZero.Nat
import Mathlib.Algebra.BigOperators.Group.Finset.Basic
import Mathlib.Data.List.Perm.Basic
import Mathlib.Order.Notation
import Mathlib.Tactic.TypeStar

/-!
# Machines given by a partial step function

A machine is a function `step : σ → α → Option σ`; a label that is not enabled in a state gives
`none`.  All nondeterminism (a clock reading, the order in which a container is walked, the answer
of a peer) sits in the label, so a run is a list of labels and can be evaluated.

* `run step s l` is the state after the labels of `l`.
* `Along step P s l`: the predicate `P` holds in `s` and in every later state of the run.
* `Meets step ok s l`: every step of the run is taken from a state where `ok` holds of the label.
* `Passes step P s l`: the predicate `P` holds somewhere on the run.

`run_induction` packages the induction for an invariant, `along_of_meets` the one for an invariant
that only the steps meeting a condition preserve, and `along_iff_meets` turns a per-step equivalence
into one about whole runs.  `run_history` is the induction for what a state has to do with the run
behind it, and `run_outputs` the one for a machine that follows what another one puts out
(`outputs`).  `Along` and `Meets` of what is decidable are decidable, and so is what
holds where a run ends.

Where a list of the state serves as a bag (a queue of several threads, messages in flight, calls
going on), a label takes an element by its place; `perm_cons_eraseIdx` says what that leaves.  Where
it has a family of components of which one takes a step, `sum_range_update` says what a sum over
them makes of it and `perm_flatMap_range_update` what they then hold together.
-/

namespace Machine

variable {σ α : Type*} (step : σ → α → Option σ)

/-- The state after the labels of `l`, or `none` if one of them is not enabled. -/
def run : σ → List α → Option σ
  | s, [] => some s
  | s, a :: l => (step s a).bind fun t => run t l

/-- `P` holds in `s` and in every state the labels of `l` lead to. -/
def Along (P : σ → Prop) : σ → List α → Prop
  | s, [] => P s
  | s, a :: l => P s ∧ ∀ t, step s a = some t → Along P t l

/-- Every label of `l` is taken in a state in which `ok` holds of it. -/
def Meets (ok : σ → α → Prop) : σ → List α → Prop
  | _, [] => True
  | s, a :: l => ok s a ∧ ∀ t, step s a = some t → Meets ok t l

/-- `P` holds in `s` or in one of the states the labels of `l` lead to. -/
def Passes (P : σ → Prop) : σ → List α → Prop
  | s, [] => P s
  | s, a :: l => P s ∨ ∃ t, step s a = some t ∧ Passes P t l

/-- What the steps of a run put out, in their order. -/
def outputs {ω : Type*} (out : σ → α → List ω) : σ → List α → List ω
  | _, [] => []
  | s, a :: l => out s a ++ (step s a).elim [] fun t => outputs out t l

variable {step} {P : σ → Prop} {ok : σ → α → Prop} {s t : σ} {a : α} {l : List α}

theorem run_cons_eq_some :
    run step s (a :: l) = some t ↔ ∃ u, step s a = some u ∧ run step u l = some t := by
  simp only [run, Option.bind_eq_some_iff]

theorem meets_cons_of_step (h : step s a = some t) :
    Meets step ok s (a :: l) ↔ ok s a ∧ Meets step ok t l := by
  simp [Meets, h]

theorem meets_append_of_run {l₁ l₂ : List α} (h : run step s l₁ = some t) :
    Meets step ok s (l₁ ++ l₂) ↔ Meets step ok s l₁ ∧ Meets step ok t l₂ := by
  induction l₁ generalizing s with
  | nil =>
    obtain rfl := Option.some.inj h
    exact ⟨fun hl₂ => ⟨trivial, hl₂⟩, And.right⟩
  | cons a l₁ ih =>
    obtain ⟨u, hu, hrest⟩ := run_cons_eq_some.mp h
    rw [List.cons_append, meets_cons_of_step hu, meets_cons_of_step hu, ih hrest, and_assoc]

/-- A condition that can be decided at every step can be decided for a run. -/
instance decidableMeets [∀ s a, Decidable (ok s a)] : ∀ s l, Decidable (Meets step ok s l)
  | _, [] => isTrue trivial
  | s, a :: l =>
    match h : step s a with
    | none => decidable_of_iff (ok s a) (by simp [Meets, h])
    | some t =>
      have := decidableMeets t l
      decidable_of_iff (ok s a ∧ Meets step ok t l) (meets_cons_of_step h).symm

theorem along_cons_of_step (h : step s a = some t) :
    Along step P s (a :: l) ↔ P s ∧ Along step P t l := by
  simp [Along, h]

/-- What can be decided in every state can be decided along a run. -/
instance decidableAlong [DecidablePred P] : ∀ s l, Decidable (Along step P s l)
  | s, [] => inferInstanceAs (Decidable (P s))
  | s, a :: l =>
    match h : step s a with
    | none => decidable_of_iff (P s) (by simp [Along, h])
    | some t =>
      have := decidableAlong t l
      decidable_of_iff (P s ∧ Along step P t l) (along_cons_of_step h).symm

/-- Where a run ends can be evaluated, and a decidable property there decided. -/
instance decidableRun (p : σ → Prop) [DecidablePred p] (s : σ) (l : List α) :
    Decidable (∃ t, run step s l = some t ∧ p t) :=
  decidable_of_iff ((run step s l).any fun t => decide (p t)) (by simp [Option.any_eq_true])

theorem Meets.and_of_forall_mem {q : α → Prop} (h : Meets step ok s l) (hq : ∀ a ∈ l, q a) :
    Meets step (fun s a => ok s a ∧ q a) s l := by
  induction l generalizing s with
  | nil => trivial
  | cons a l ih =>
    refine ⟨⟨h.1, hq a List.mem_cons_self⟩, fun t ht => ?_⟩
    exact ih (h.2 t ht) fun b hb => hq b (List.mem_cons_of_mem a hb)

theorem Along.head (h : Along step P s l) : P s := by
  cases l with
  | nil => exact h
  | cons a l => exact h.1

theorem Along.mono {Q : σ → Prop} (hPQ : ∀ s, P s → Q s) (h : Along step P s l) :
    Along step Q s l := by
  induction l generalizing s with
  | nil => exact hPQ s h
  | cons a l ih => exact ⟨hPQ s h.1, fun t ht => ih (h.2 t ht)⟩

/-- Predicates that say the same wherever an invariant holds. -/
theorem along_congr {Q I : σ → Prop} (hI : ∀ s a t, step s a = some t → I s → I t)
    (hPQ : ∀ s, I s → (P s ↔ Q s)) (hs : I s) : Along step P s l ↔ Along step Q s l := by
  induction l generalizing s with
  | nil => exact hPQ s hs
  | cons a l ih =>
    unfold Along
    rw [hPQ s hs]
    refine and_congr_right fun _ => forall_congr' fun t => imp_congr_right fun ht => ?_
    exact ih (hI s a t ht hs)

/-- What holds along a run holds at its end. -/
theorem Along.last (h : Along step P s l) (hrun : run step s l = some t) : P t := by
  induction l generalizing s with
  | nil =>
    obtain rfl := Option.some.inj hrun
    exact h
  | cons a l ih =>
    obtain ⟨u, hu, hrest⟩ := run_cons_eq_some.mp hrun
    exact ih (h.2 u hu) hrest

/-- **Invariant rule.**  What every step preserves holds at the end of every run. -/
theorem run_induction (hstep : ∀ s a t, step s a = some t → P s → P t)
    (hrun : run step s l = some t) (hs : P s) : P t := by
  induction l generalizing s with
  | nil =>
    obtain rfl := Option.some.inj hrun
    exact hs
  | cons a l ih =>
    obtain ⟨u, hu, hrest⟩ := run_cons_eq_some.mp hrun
    exact ih hrest (hstep s a u hu hs)

/-- An invariant that the steps meeting `ok` preserve holds in every state of such a run. -/
theorem along_of_meets (hstep : ∀ s a t, step s a = some t → ok s a → P s → P t)
    (hmeets : Meets step ok s l) (hs : P s) : Along step P s l := by
  induction l generalizing s with
  | nil => exact hs
  | cons a l ih =>
    exact ⟨hs, fun t ht => ih (hmeets.2 t ht) (hstep s a t ht hmeets.1 hs)⟩

/-- What holds of a step between two states where `P` holds, for all steps of a run along which it
does. -/
theorem Along.meets (hok : ∀ s a, P s → (∀ t, step s a = some t → P t) → ok s a)
    (h : Along step P s l) : Meets step ok s l := by
  induction l generalizing s with
  | nil => trivial
  | cons a l ih =>
    exact ⟨hok s a h.1 fun t ht => (h.2 t ht).head, fun t ht => ih (h.2 t ht)⟩

/-- Conditions that say the same wherever an invariant holds. -/
theorem meets_congr {ok' : σ → α → Prop} {I : σ → Prop}
    (hI : ∀ s a t, step s a = some t → I s → I t) (hok : ∀ s a, I s → (ok s a ↔ ok' s a))
    (hs : I s) : Meets step ok s l ↔ Meets step ok' s l := by
  induction l generalizing s with
  | nil => exact Iff.rfl
  | cons a l ih =>
    unfold Meets
    rw [hok s a hs]
    refine and_congr_right fun _ => forall_congr' fun t => imp_congr_right fun ht => ?_
    exact ih (hI s a t ht hs)

/-- Conditions that say the same of every step of a run that meets a third one. -/
theorem meets_congr_of_meets {pre ok' : σ → α → Prop} {I : σ → Prop}
    (hI : ∀ s a t, step s a = some t → I s → I t)
    (hok : ∀ s a t, step s a = some t → I s → pre s a → (ok s a ↔ ok' s a))
    (hpre : Meets step pre s l) (hrun : run step s l = some t) (hs : I s) :
    Meets step ok s l ↔ Meets step ok' s l := by
  induction l generalizing s with
  | nil => exact Iff.rfl
  | cons a l ih =>
    obtain ⟨u, hu, hrest⟩ := run_cons_eq_some.mp hrun
    rw [meets_cons_of_step hu, meets_cons_of_step hu, hok s a u hu hs hpre.1,
      ih (hpre.2 u hu) hrest (hI s a u hu hs)]

/-- **Exactness.**  If from a `P`-state a step leads to a `P`-state exactly when it meets `ok`,
then a run all of whose steps are enabled stays in `P` exactly when all its steps meet `ok`.  The
invariant `I` carries what the equivalence of one step needs to know about the state. -/
theorem along_iff_meets {I : σ → Prop} (hI : ∀ s a t, step s a = some t → I s → I t)
    (hstep : ∀ s a t, step s a = some t → I s → P s → (P t ↔ ok s a))
    (hrun : run step s l = some t) (hIs : I s) (hs : P s) :
    Along step P s l ↔ Meets step ok s l := by
  induction l generalizing s with
  | nil => exact iff_of_true hs trivial
  | cons a l ih =>
    obtain ⟨u, hu, hrest⟩ := run_cons_eq_some.mp hrun
    rw [along_cons_of_step hu, meets_cons_of_step hu, ← hstep s a u hu hIs hs]
    constructor
    · rintro ⟨-, hal⟩
      exact ⟨hal.head, (ih hrest (hI s a u hu hIs) hal.head).mp hal⟩
    · rintro ⟨hu', hme⟩
      exact ⟨hs, (ih hrest (hI s a u hu hIs) hu').mpr hme⟩

theorem run_append_eq_some {l₁ l₂ : List α} :
    run step s (l₁ ++ l₂) = some t ↔ ∃ u, run step s l₁ = some u ∧ run step u l₂ = some t := by
  induction l₁ generalizing s with
  | nil => exact ⟨fun h => ⟨s, rfl, h⟩, by rintro ⟨u, ⟨⟩, h⟩; exact h⟩
  | cons a l₁ ih =>
    simp only [List.cons_append, run_cons_eq_some, ih]
    constructor
    · rintro ⟨v, hv, u, hvu, hut⟩
      exact ⟨u, ⟨v, hv, hvu⟩, hut⟩
    · rintro ⟨u, ⟨v, hv, hvu⟩, hut⟩
      exact ⟨v, hv, u, hvu, hut⟩

/-- **Simulation rule.**  A machine that can follow every step with what the step puts out can
follow every run. -/
theorem run_outputs {τ ω : Type*} {step' : τ → ω → Option τ} {out : σ → α → List ω}
    {R : σ → τ → Prop}
    (hsim : ∀ s a t u, step s a = some t → R s u → ∃ v, run step' u (out s a) = some v ∧ R t v)
    (hrun : run step s l = some t) {u : τ} (hs : R s u) :
    ∃ v, run step' u (outputs step out s l) = some v ∧ R t v := by
  induction l generalizing s u with
  | nil =>
    obtain rfl := Option.some.inj hrun
    exact ⟨u, rfl, hs⟩
  | cons a l ih =>
    obtain ⟨w, hw, hrest⟩ := run_cons_eq_some.mp hrun
    obtain ⟨x, hx, hR⟩ := hsim s a w u hw hs
    obtain ⟨v, hv, hRv⟩ := ih hrest hR
    refine ⟨v, ?_, hRv⟩
    rw [outputs, hw, Option.elim_some]
    exact run_append_eq_some.mpr ⟨x, hx, hv⟩

/-- **Measure rule.**  Where every step with a label of `p` lowers a measure, a run of such labels
is no longer than the measure says. -/
theorem length_add_le_of_run {p : α → Prop} {I : σ → Prop} {μ : σ → ℕ}
    (hI : ∀ s a t, step s a = some t → I s → I t)
    (hμ : ∀ s a t, step s a = some t → I s → p a → μ t < μ s) (hrun : run step s l = some t)
    (hs : I s) (hl : ∀ a ∈ l, p a) : l.length + μ t ≤ μ s := by
  induction l generalizing s with
  | nil =>
    obtain rfl := Option.some.inj hrun
    exact Nat.le_of_eq (Nat.zero_add _)
  | cons a l ih =>
    obtain ⟨u, hu, hrest⟩ := run_cons_eq_some.mp hrun
    have hless := hμ s a u hu hs (hl a List.mem_cons_self)
    have hlength := ih hrest (hI s a u hu hs) fun b hb => hl b (List.mem_cons_of_mem a hb)
    rw [List.length_cons]
    omega

/-! ### The run behind a state -/

theorem run_append_singleton :
    run step s (l ++ [a]) = some t ↔ ∃ u, run step s l = some u ∧ step u a = some t := by
  rw [run_append_eq_some]
  refine exists_congr fun u => and_congr_right fun _ => ?_
  rw [run_cons_eq_some]
  exact ⟨by rintro ⟨v, hv, ⟨⟩⟩; exact hv, fun h => ⟨t, h, rfl⟩⟩

/-- **History rule.**  What relates a state to the run behind it, step by step. -/
theorem run_history {P : List α → σ → Prop} (hinit : P [] s)
    (hstep : ∀ l a u t, run step s l = some u → P l u → step u a = some t → P (l ++ [a]) t)
    (hrun : run step s l = some t) : P l t := by
  induction l using List.reverseRecOn generalizing t with
  | nil =>
    obtain rfl := Option.some.inj hrun
    exact hinit
  | append_singleton l a ih =>
    obtain ⟨u, hu, hut⟩ := run_append_singleton.mp hrun
    exact hstep l a u t hu (ih hu) hut

/-- The history rule where something is known of every state on the way. -/
theorem Along.history {Q : List α → σ → Prop}
    (hstep : ∀ l a u t, P u → Q l u → step u a = some t → Q (l ++ [a]) t)
    (hal : Along step P s l) (hrun : run step s l = some t) (hinit : Q [] s) : Q l t := by
  suffices hpast : ∀ past, Q past s → Q (past ++ l) t from hpast [] hinit
  clear hinit
  induction l generalizing s with
  | nil =>
    obtain rfl := Option.some.inj hrun
    exact fun past hs => (List.append_nil past).symm ▸ hs
  | cons a l ih =>
    intro past hs
    obtain ⟨u, hu, hrest⟩ := run_cons_eq_some.mp hrun
    have hlast := ih (hal.2 u hu) hrest (past ++ [a]) (hstep past a s u hal.1 hs hu)
    rwa [List.append_assoc] at hlast

/-- A run that goes on has passed what it has passed. -/
theorem Passes.append_singleton (h : Passes step P s l) : Passes step P s (l ++ [a]) := by
  induction l generalizing s with
  | nil => exact Or.inl h
  | cons b l ih => exact h.imp_right fun ⟨u, hu, hpasses⟩ => ⟨u, hu, ih hpasses⟩

/-- A run passes the state that it ends in. -/
theorem passes_of_run (hrun : run step s l = some t) (ht : P t) : Passes step P s l := by
  induction l generalizing s with
  | nil =>
    obtain rfl := Option.some.inj hrun
    exact ht
  | cons a l ih =>
    obtain ⟨u, hu, hrest⟩ := run_cons_eq_some.mp hrun
    exact Or.inr ⟨u, hu, ih hrest⟩

/-! ### Bags -/

/-- Taking out the element at a place. -/
theorem perm_cons_eraseIdx {l : List α} {i : ℕ} {a : α} (h : l[i]? = some a) :
    l.Perm (a :: l.eraseIdx i) := by
  obtain ⟨hi, rfl⟩ := List.getElem?_eq_some_iff.mp h
  exact (List.getElem_cons_eraseIdx_perm hi).symm

theorem countP_eraseIdx (p : α → Bool) {l : List α} {i : ℕ} {a : α} (h : l[i]? = some a) :
    l.countP p = (if p a then 1 else 0) + (l.eraseIdx i).countP p := by
  rw [(perm_cons_eraseIdx h).countP_eq p, List.countP_cons, Nat.add_comm]

/-- The elements put down for one another weigh the same to `f`. -/
theorem map_set_of_eq {β : Type*} (f : α → β) {l : List α} {i : ℕ} {a b : α} (h : l[i]? = some a)
    (hab : f b = f a) : (l.set i b).map f = l.map f := by
  obtain ⟨hi, rfl⟩ := List.getElem?_eq_some_iff.mp h
  rw [List.map_set, hab]
  have hi' : i < (l.map f).length := by rwa [List.length_map]
  have hget : f l[i] = (l.map f)[i] := (List.getElem_map f).symm
  rw [hget, List.set_getElem_self]

/-- What all elements hold together, with one put down for another. -/
theorem perm_flatMap_set {β : Type*} (f : α → List β) {l : List α} {i : ℕ} {a : α}
    (h : l[i]? = some a) (b : α) :
    (f b ++ l.flatMap f).Perm (f a ++ (l.set i b).flatMap f) := by
  obtain ⟨hi, -⟩ := List.getElem?_eq_some_iff.mp h
  have hold : (l.flatMap f).Perm (f a ++ (l.eraseIdx i).flatMap f) :=
    (perm_cons_eraseIdx h).flatMap_right f
  have hnew : ((l.set i b).flatMap f).Perm (f b ++ (l.eraseIdx i).flatMap f) :=
    (List.set_perm_cons_eraseIdx hi b).flatMap_right f
  have hswap : (f b ++ (f a ++ (l.eraseIdx i).flatMap f)).Perm
      (f a ++ (f b ++ (l.eraseIdx i).flatMap f)) :=
    List.perm_append_comm_assoc (f b) (f a) _
  exact (hold.append_left (f b)).trans (hswap.trans (hnew.symm.append_left (f a)))

theorem sum_map_eraseIdx (f : α → ℕ) {l : List α} {i : ℕ} {a : α} (h : l[i]? = some a) :
    (l.map f).sum = f a + ((l.eraseIdx i).map f).sum := by
  rw [((perm_cons_eraseIdx h).map f).sum_nat]
  rfl

theorem sum_map_set (f : α → ℕ) {l : List α} {i : ℕ} {a : α} (h : l[i]? = some a) (b : α) :
    ((l.set i b).map f).sum = f b + ((l.eraseIdx i).map f).sum := by
  obtain ⟨hi, -⟩ := List.getElem?_eq_some_iff.mp h
  rw [((List.set_perm_cons_eraseIdx hi b).map f).sum_nat]
  rfl

/-- Where nothing is in the bag twice, taking out an element leaves the others. -/
theorem mem_eraseIdx_iff {l : List α} {i : ℕ} {a b : α} (hnodup : l.Nodup) (h : l[i]? = some a) :
    b ∈ l.eraseIdx i ↔ b ∈ l ∧ b ≠ a := by
  have hperm := perm_cons_eraseIdx h
  have hnot : a ∉ l.eraseIdx i := (List.nodup_cons.mp (hperm.nodup_iff.mp hnodup)).1
  rw [hperm.mem_iff, List.mem_cons]
  constructor
  · intro hb
    exact ⟨Or.inr hb, fun heq => hnot (heq ▸ hb)⟩
  · rintro ⟨hb, hne⟩
    exact hb.resolve_left hne

/-! ### Components -/

/-- Where one of `n` components changes, a sum over all of them changes by its share. -/
theorem sum_range_update {n i : ℕ} (g : σ → ℕ) (f : ℕ → σ) (hi : i < n) (b : σ) :
    ∑ j ∈ Finset.range n, g (Function.update f i b j) + g (f i)
      = ∑ j ∈ Finset.range n, g (f j) + g b := by
  have hmem : i ∈ Finset.range n := Finset.mem_range.mpr hi
  rw [← Finset.add_sum_erase _ _ hmem, ← Finset.add_sum_erase _ (fun j => g (f j)) hmem,
    Function.update_self]
  have hrest : ∑ j ∈ (Finset.range n).erase i, g (Function.update f i b j)
      = ∑ j ∈ (Finset.range n).erase i, g (f j) := by
    refine Finset.sum_congr rfl fun j hj => ?_
    rw [Function.update_of_ne (Finset.ne_of_mem_erase hj)]
  omega

/-- What one of `n` components holds in place of what it held. -/
theorem perm_flatMap_range_update {β : Type*} {n i : ℕ} (g : σ → List β) (f : ℕ → σ) (hi : i < n)
    (b : σ) :
    ((List.range n).flatMap (fun j => g (Function.update f i b j)) ++ g (f i)).Perm
      ((List.range n).flatMap (fun j => g (f j)) ++ g b) := by
  have hswap : ∀ u v w : List β, (u ++ v ++ w).Perm (u ++ w ++ v) := by
    intro u v w
    rw [List.append_assoc, List.append_assoc]
    exact List.perm_append_comm.append_left u
  induction n with
  | zero => exact absurd hi (Nat.not_lt_zero i)
  | succ n ih =>
    rw [List.range_succ, List.flatMap_append, List.flatMap_append, List.flatMap_singleton,
      List.flatMap_singleton]
    rcases Nat.lt_succ_iff_lt_or_eq.mp hi with hlt | rfl
    · rw [Function.update_of_ne (Nat.ne_of_gt hlt)]
      exact (hswap _ _ _).trans (((ih hlt).append_right _).trans (hswap _ _ _))
    · have hrest : (List.range i).flatMap (fun j => g (Function.update f i b j))
          = (List.range i).flatMap fun j => g (f j) := by
        refine List.flatMap_congr fun j hj => ?_
        rw [Function.update_of_ne (Nat.ne_of_lt (List.mem_range.mp hj))]
      rw [Function.update_self, hrest]
      exact hswap _ _ _

end Machine
