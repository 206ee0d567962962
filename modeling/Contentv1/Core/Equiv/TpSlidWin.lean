import Contentv1.Core.HostFreq
import Contentv1.Lib.SlidingWindow
import Mathlib.Data.List.Induction

/-!
# A window counts exactly

Both `size` and `inc` drop the expired events at the front of the queue.  `size_runCalls`: under a
clock that does not go back `size` gives the number of the events that are no older than the window.
-/

namespace Contentv1

open SlidingWindow

theorem persistent_tpExpired (width : ℤ) : Persistent (tpExpired width) :=
  fun _ _ tp hle h => tpExpired_mono hle (le_refl tp) h

namespace TpSlidWin

section

variable {w : TpSlidWin} {now : ℤ}

@[simp] theorem window_inc : (w.inc now).window = w.window := rfl

@[simp] theorem window_size : (w.size now).2.window = w.window := rfl

theorem q_inc : (w.inc now).q = clean (tpExpired w.window) now (w.q ++ [now]) := rfl

theorem q_size : (w.size now).2.q = clean (tpExpired w.window) now w.q := rfl

end

/-- A call of `size` or `inc`, with the time it is given. -/
inductive Call
  | size (now : ℤ)
  | inc (now : ℤ)
  deriving DecidableEq, Repr

namespace Call

def now : Call → ℤ
  | size now | inc now => now

/-- The window after a call. -/
def run (w : TpSlidWin) : Call → TpSlidWin
  | size now => (w.size now).2
  | inc now => w.inc now

/-- The time of an event, if the call brings one. -/
def event : Call → Option ℤ
  | size _ => none
  | inc now => some now

theorem event_eq_some {c : Call} {tp : ℤ} (h : c.event = some tp) : c.now = tp := by
  cases c with
  | size now => cases h
  | inc now => exact Option.some.inj h

end Call

/-- The window after some calls on a new one. -/
def runCalls (window : ℤ) (calls : List Call) : TpSlidWin := calls.foldl Call.run ⟨[], window⟩

theorem runCalls_append (window : ℤ) (calls : List Call) (c : Call) :
    runCalls window (calls ++ [c]) = c.run (runCalls window calls) := by
  unfold runCalls
  rw [List.foldl_append]
  rfl

@[simp] theorem window_runCalls (window : ℤ) (calls : List Call) :
    (runCalls window calls).window = window := by
  induction calls using List.reverseRecOn with
  | nil => rfl
  | append_singleton calls c ih =>
    rw [runCalls_append]
    cases c <;> exact ih

/-- The queue after a call. -/
theorem tracks_run {w : TpSlidWin} {now : ℤ} {hist : List ℤ} (c : Call)
    (h : Tracks (tpExpired w.window) now hist w.q) (hle : now ≤ c.now) :
    Tracks (tpExpired w.window) c.now (hist ++ c.event.toList) (c.run w).q := by
  cases c with
  | size now' =>
    rw [Call.run, q_size]
    exact (List.append_nil hist).symm ▸ h.clean (persistent_tpExpired _) hle
  | inc now' =>
    rw [Call.run, q_inc]
    exact h.push.clean (persistent_tpExpired _) hle

/-- The queue holds the events from some time on, and those before have expired. -/
theorem tracks_runCalls (window : ℤ) {calls : List Call} {now : ℤ}
    (h : (calls.map Call.now).Pairwise (· ≤ ·))
    (hle : ∀ c ∈ calls, c.now ≤ now) :
    Tracks (tpExpired window) now (calls.filterMap Call.event) (runCalls window calls).q := by
  induction calls using List.reverseRecOn generalizing now with
  | nil => exact Tracks.nil
  | append_singleton calls c ih =>
    rw [List.map_append, List.pairwise_append] at h
    have hbefore : ∀ c' ∈ calls, c'.now ≤ c.now := fun c' hc' =>
      h.2.2 _ (List.mem_map_of_mem hc') _ (List.mem_singleton_self _)
    have htracks : Tracks (tpExpired (runCalls window calls).window) c.now
        (calls.filterMap Call.event) (runCalls window calls).q := by
      rw [window_runCalls]
      exact ih h.1 hbefore
    have hevents : (calls ++ [c]).filterMap Call.event
        = calls.filterMap Call.event ++ c.event.toList := by
      rw [List.filterMap_append]
      cases c <;> rfl
    have hrun := tracks_run c htracks le_rfl
    rw [window_runCalls] at hrun
    have hlast : c.now ≤ now := hle c (List.mem_append_right _ (List.mem_singleton_self _))
    rw [hevents, runCalls_append]
    exact hrun.mono (persistent_tpExpired window) hlast

/-- **A window counts exactly.**  After calls of `size` and `inc` whose times do not go back, `size`
gives the number of the events whose age, in whole seconds, is at most the window. -/
theorem size_runCalls (window : ℤ) {calls : List Call} {now : ℤ}
    (h : (calls.map Call.now ++ [now]).Pairwise (· ≤ ·)) :
    ((runCalls window calls).size now).1
      = ((calls.filterMap Call.event).countP fun tp =>
          decide (durationCastSecs (now - tp) ≤ window) : ℕ) := by
  obtain ⟨hcalls, -, hnow⟩ := List.pairwise_append.mp h
  have hle : ∀ c ∈ calls, c.now ≤ now := fun c hc =>
    hnow _ (List.mem_map_of_mem hc) _ (List.mem_singleton_self _)
  -- the events came in the order of their times, so they expire in it
  have hord : (calls.filterMap Call.event).Pairwise fun a b =>
      tpExpired window now b = true → tpExpired window now a = true := by
    rw [List.pairwise_filterMap]
    refine (List.pairwise_map.mp hcalls).imp fun {c c'} hcc tp htp tp' htp' => ?_
    rw [Call.event_eq_some htp, Call.event_eq_some htp'] at hcc
    exact tpExpired_mono le_rfl hcc
  have hq : clean (tpExpired window) now (runCalls window calls).q = _ :=
    (tracks_runCalls window hcalls hle).eq_filter hord
  have hsize : ((runCalls window calls).size now).1
      = ((clean (tpExpired window) now (runCalls window calls).q).length : ℤ) := by
    show (((runCalls window calls).size now).2.q.length : ℤ) = _
    rw [q_size, window_runCalls]
  rw [hsize, hq, ← List.countP_eq_length_filter]
  congr 2
  funext tp
  unfold tpExpired
  rw [← decide_not, decide_eq_decide, not_lt]

/-- An event counts until the window and one more second have passed. -/
theorem size_runCalls_atBoundary :
    ((runCalls 60 [.inc 0, .size 5, .inc (seconds 1)]).size (seconds 61)).1 = 1 ∧
      ((runCalls 60 [.inc 0, .size 5, .inc (seconds 1)]).size (seconds 61 - 1)).1 = 2 := by
  rw [size_runCalls 60 (by decide), size_runCalls 60 (by decide)]
  decide

end TpSlidWin

end Contentv1
