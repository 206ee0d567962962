import Contentv1.Core.Types

/-!
# Protocol buffers

Messages are written to LevelDB and sent over the network as protocol buffers (proto3), a library
outside the repository.  A string is written whatever its bytes are, but where one is not UTF-8,
parsing fails as a whole.
-/

namespace Contentv1

namespace Str

def toByteArray (s : Str) : ByteArray := ⟨(s.bytes.map UInt8.ofFin).toArray⟩

def IsValidUTF8 (s : Str) : Prop := s.toByteArray.IsValidUTF8

instance : DecidablePred IsValidUTF8 := fun s =>
  inferInstanceAs (Decidable s.toByteArray.IsValidUTF8)

end Str

/-- Reading and writing a type of messages with these `string` fields. -/
structure Proto3 (μ : Type) (strings : μ → List Str) where
  Dump : Type
  serialize : μ → Dump
  parse : Dump → Option μ
  parse_serialize : ∀ m : μ,
    parse (serialize m) = if ∀ s ∈ strings m, s.IsValidUTF8 then some m else none

namespace Proto3

variable {μ : Type} {strings : μ → List Str}

/-- Messages written as they are, which is all that runs on fixed inputs look at. -/
def plain (strings : μ → List Str) : Proto3 μ strings where
  Dump := μ
  serialize m := m
  parse m := if ∀ s ∈ strings m, s.IsValidUTF8 then some m else none
  parse_serialize _ := rfl

variable (pb : Proto3 μ strings) {m : μ}

theorem parse_serialize_of_valid (h : ∀ s ∈ strings m, s.IsValidUTF8) :
    pb.parse (pb.serialize m) = some m := by
  rw [pb.parse_serialize, if_pos h]

end Proto3

end Contentv1
