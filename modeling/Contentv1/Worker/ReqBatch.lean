import Contentv1.Core.FetchResult
import Mathlib.Tactic.SplitIfs

/-!
# A batch of requests (`worker/ReqBatch.cpp`)
-/

namespace Contentv1

structure ReqBatch where
  reqs : List GFQRecord
  deriving DecidableEq, Repr

namespace ReqBatch

instance : Inhabited ReqBatch := ⟨⟨[]⟩⟩

def acc (batch : ReqBatch) (req : GFQRecord) : ReqBatch := ⟨batch.reqs ++ [req]⟩

def merge (batch a : ReqBatch) : ReqBatch := ⟨batch.reqs ++ a.reqs⟩

def size (batch : ReqBatch) : ℕ := batch.reqs.length

def empty (batch : ReqBatch) : Bool := batch.reqs.isEmpty

/-- The number of the records it pushes, and the records. -/
def getReqs (batch : ReqBatch) (maxUrlsInBatch : ℕ) : ℕ × List GFQRecord :=
  let reqs := batch.reqs.take (min maxUrlsInBatch batch.reqs.length)
  (reqs.length, reqs)

/-- The records from `sliceCount` on; `none` stands for the exception. -/
def slice (batch : ReqBatch) (sliceCount : ℕ) : Option ReqBatch :=
  if sliceCount = batch.reqs.length then some default
  else if batch.reqs.length < sliceCount then none
  else some ⟨batch.reqs.drop sliceCount⟩

/-- A cut and what it leaves. -/
theorem slice_getReqs (batch : ReqBatch) (maxUrlsInBatch : ℕ) :
    batch.slice (batch.getReqs maxUrlsInBatch).1 = some ⟨batch.reqs.drop maxUrlsInBatch⟩ := by
  have hlen : (batch.getReqs maxUrlsInBatch).1 = min maxUrlsInBatch batch.reqs.length := by
    show (batch.reqs.take (min maxUrlsInBatch batch.reqs.length)).length = _
    rw [List.length_take]
    omega
  unfold slice
  rw [hlen]
  split_ifs with hall hover
  · have hmax : batch.reqs.length ≤ maxUrlsInBatch := by omega
    rw [List.drop_eq_nil_of_le hmax]
    rfl
  · omega
  · have hmax : min maxUrlsInBatch batch.reqs.length = maxUrlsInBatch := by omega
    rw [hmax]

theorem getReqs_append_drop (batch : ReqBatch) (maxUrlsInBatch : ℕ) :
    (batch.getReqs maxUrlsInBatch).2 ++ batch.reqs.drop maxUrlsInBatch = batch.reqs := by
  show batch.reqs.take (min maxUrlsInBatch batch.reqs.length) ++ _ = _
  rw [← List.take_eq_take_min]
  exact List.take_append_drop maxUrlsInBatch batch.reqs

end ReqBatch

end Contentv1
