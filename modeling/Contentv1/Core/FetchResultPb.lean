import Contentv1.Core.FetchResult
import Contentv1.Core.Pb

/-!
# Records and results as messages (`proto/GFQRecord.proto`, `proto/FetchResult.proto`)

All fields are `optional`; reading one that is not set gives the default of its type.
-/

namespace Contentv1

structure GFQRecordPb where
  url : Option Str
  attemptTs : Option ℤ
  deriving DecidableEq

/-- An attempt's status that is not set reads as the enumeration's first. -/
instance : Inhabited AttemptStatus := ⟨.enqueued⟩

namespace GFQRecord

def toPb (gfq : GFQRecord) : GFQRecordPb := ⟨some gfq.url, some gfq.attemptTs⟩

def fromPb (pb : GFQRecordPb) : GFQRecord := ⟨pb.url.getD default, pb.attemptTs.getD 0⟩

@[simp] theorem fromPb_toPb (gfq : GFQRecord) : fromPb gfq.toPb = gfq := rfl

end GFQRecord

def GFQRecordPb.strings (pb : GFQRecordPb) : List Str := pb.url.toList

/-- Records as messages, as they are written to Kafka. -/
abbrev GFQRecordDumps := Proto3 GFQRecordPb GFQRecordPb.strings

namespace GFQRecord

def dump (pb : GFQRecordDumps) (gfq : GFQRecord) : pb.Dump := pb.serialize gfq.toPb

/-- The constructor from a dump. -/
def ofDump (pb : GFQRecordDumps) (dump : pb.Dump) : Except Str GFQRecord :=
  match pb.parse dump with
  | none => .error (Str.ofString "GFQRecord::GFQRecord parsing")
  | some gfqPb => .ok (fromPb gfqPb)

theorem ofDump_dump (pb : GFQRecordDumps) (gfq : GFQRecord) :
    ofDump pb (gfq.dump pb)
      = if gfq.url.IsValidUTF8 then .ok gfq
        else .error (Str.ofString "GFQRecord::GFQRecord parsing") := by
  have hstrings : (∀ s ∈ GFQRecordPb.strings gfq.toPb, s.IsValidUTF8) ↔ gfq.url.IsValidUTF8 :=
    List.forall_mem_singleton
  unfold ofDump dump
  rw [pb.parse_serialize, if_congr hstrings rfl rfl]
  split_ifs <;> rfl

/-- What is read from a dump is the record that was dumped. -/
theorem eq_of_ofDump_dump {pb : GFQRecordDumps} {gfq gfq' : GFQRecord}
    (h : ofDump pb (gfq.dump pb) = .ok gfq') : gfq' = gfq := by
  rw [ofDump_dump] at h
  split_ifs at h
  exact (Except.ok.inj h).symm

end GFQRecord

structure FetchResultPb where
  gfq : Option GFQRecordPb
  status : Option AttemptStatus
  errorStr : Option Str
  content : Option Str
  deriving DecidableEq

namespace FetchResult

def toPb (r : FetchResult) : FetchResultPb :=
  ⟨some r.gfq.toPb, some r.status, some r.errorStr, some r.content⟩

def fromPb (pb : FetchResultPb) : FetchResult where
  gfq := GFQRecord.fromPb (pb.gfq.getD ⟨none, none⟩)
  status := pb.status.getD default
  errorStr := pb.errorStr.getD default
  content := pb.content.getD default

@[simp] theorem fromPb_toPb (r : FetchResult) : fromPb r.toPb = r := rfl

end FetchResult

def FetchResultPb.strings (pb : FetchResultPb) : List Str :=
  pb.gfq.toList.flatMap GFQRecordPb.strings ++ pb.errorStr.toList ++ pb.content.toList

end Contentv1
