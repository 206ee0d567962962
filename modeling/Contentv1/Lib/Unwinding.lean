import Mathlib.Data.List.Basic
import Mathlib.Tactic.TypeStar

/-!
# Two runs with the same events of one kind

`step` is a total machine, `low` the events of the kind and `view` the part of the state that they
see.  If the other events leave `view` as it is, two runs whose events of the kind are the same, in
the same order, can differ in what is put out only through what else an event reads: `reads` lists
that, and `outputs_eq_iff` is the exact condition.
-/

namespace Unwinding

variable {σ ε ω ρ ν : Type*} (step : σ → ε → σ) (low : ε → Bool)

/-- What the events of the kind put out, in their order. -/
def outputs (out : σ → ε → List ω) : σ → List ε → List ω
  | _, [] => []
  | s, e :: es =>
    if low e then out s e ++ outputs out (step s e) es else outputs out (step s e) es

variable {step low} {out : σ → ε → List ω}

theorem outputs_cons_of_low {s : σ} {e : ε} {es : List ε} (he : low e = true) :
    outputs step low out s (e :: es) = out s e ++ outputs step low out (step s e) es := by
  rw [outputs, if_pos he]

theorem outputs_cons_of_not_low {s : σ} {e : ε} {es : List ε} (he : ¬ low e = true) :
    outputs step low out s (e :: es) = outputs step low out (step s e) es := by
  rw [outputs, if_neg he]

theorem outputs_append (s : σ) (es es' : List ε) :
    outputs step low out s (es ++ es')
      = outputs step low out s es ++ outputs step low out (es.foldl step s) es' := by
  induction es generalizing s with
  | nil => rfl
  | cons e es ih =>
    rw [List.cons_append, List.foldl_cons]
    by_cases he : low e = true
    · rw [outputs_cons_of_low he, outputs_cons_of_low he, ih, List.append_assoc]
    · rw [outputs_cons_of_not_low he, outputs_cons_of_not_low he, ih]

/-- Events of the other kinds put nothing out. -/
theorem outputs_of_filter_eq_nil {es : List ε} (h : es.filter low = []) (s : σ) :
    outputs step low out s es = [] := by
  induction es generalizing s with
  | nil => rfl
  | cons e es ih =>
    have he : ¬ low e = true := List.filter_eq_nil_iff.mp h e List.mem_cons_self
    rw [outputs_cons_of_not_low he]
    exact ih (by rwa [List.filter_cons_of_neg he] at h) _

/-- Events of the other kinds leave the view as it is. -/
theorem view_foldl {view : σ → ν} (hskip : ∀ s e, ¬ low e = true → view (step s e) = view s)
    {es : List ε} (h : es.filter low = []) (s : σ) : view (es.foldl step s) = view s := by
  induction es generalizing s with
  | nil => rfl
  | cons e es ih =>
    have he : ¬ low e = true := List.filter_eq_nil_iff.mp h e List.mem_cons_self
    rw [List.foldl_cons, ih (by rwa [List.filter_cons_of_neg he] at h), hskip s e he]

theorem append_eq_append_iff_of_length {a b c d : List ω} (h : a.length = c.length) :
    a ++ b = c ++ d ↔ a = c ∧ b = d := by
  constructor
  · exact fun heq => List.append_inj heq h
  · rintro ⟨rfl, rfl⟩
    rfl

/-- **Unwinding.**  Two runs with the same events of the kind, started in states with the same view,
put out the same exactly when their events of the kind read the same. -/
theorem outputs_eq_iff {reads : σ → ε → List ρ} {view : σ → ν}
    (hskip : ∀ s e, ¬ low e = true → view (step s e) = view s)
    (hlength : ∀ s t e, (out s e).length = (out t e).length)
    (hlength' : ∀ s t e, (reads s e).length = (reads t e).length)
    (hiff : ∀ s t e, low e = true → view s = view t → (out s e = out t e ↔ reads s e = reads t e))
    (hstep : ∀ s t e, low e = true → view s = view t → reads s e = reads t e →
      view (step s e) = view (step t e))
    {es es' : List ε} (hes : es.filter low = es'.filter low) {s t : σ} (hview : view s = view t) :
    outputs step low out s es = outputs step low out t es' ↔
      outputs step low reads s es = outputs step low reads t es' := by
  induction es generalizing s t es' with
  | nil =>
    rw [outputs_of_filter_eq_nil hes.symm, outputs_of_filter_eq_nil hes.symm]
    exact iff_of_true rfl rfl
  | cons e es ih =>
    by_cases he : low e = true
    · -- the other run comes to the same event after some of the other kinds
      rw [List.filter_cons_of_pos he] at hes
      obtain ⟨pre, post, rfl, hpre, -, hpost⟩ := List.filter_eq_cons_iff.mp hes.symm
      have hpre : pre.filter low = [] := List.filter_eq_nil_iff.mpr hpre
      have hview' : view s = view (pre.foldl step t) := hview.trans (view_foldl hskip hpre t).symm
      rw [outputs_append, outputs_append, outputs_of_filter_eq_nil hpre,
        outputs_of_filter_eq_nil hpre, List.nil_append, List.nil_append, outputs_cons_of_low he,
        outputs_cons_of_low he, outputs_cons_of_low he, outputs_cons_of_low he,
        append_eq_append_iff_of_length (hlength s _ e),
        append_eq_append_iff_of_length (hlength' s _ e), hiff s _ e he hview']
      exact and_congr_right fun hreads => ih hpost.symm (hstep s _ e he hview' hreads)
    · rw [List.filter_cons_of_neg he] at hes
      rw [outputs_cons_of_not_low he, outputs_cons_of_not_low he]
      exact ih hes ((hskip s e he).trans hview)

end Unwinding
