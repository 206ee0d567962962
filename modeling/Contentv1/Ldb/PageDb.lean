import Contentv1.Core.Types
import Contentv1.Lib.OrdMap

/-!
# The page store (`db/IPageDb.h`, `ldb/PageDb.cpp`)

`IPageDb` is the interface that `PageDb`, over LevelDB, and `PageDbScylla` implement.  LevelDB is a
map; its iterator walks the keys in their order.
-/

namespace Contentv1

/-- The virtual methods of a page store with states in `σ`. -/
structure IPageDb (σ : Type) where
  /-- An exception leaves with its text. -/
  save : σ → Url → Str → Except Str σ
  /-- The last argument is what `_content` held before; it comes back as the call leaves it. -/
  load : σ → Url → Str → Bool × Str
  /-- The calls of the callback. -/
  scanFull : σ → List (Url × Str)

structure PageDb where
  db : OrdMap Url Str

namespace PageDb

instance : Inhabited PageDb := ⟨⟨∅⟩⟩

def save (pageDb : PageDb) (url : Url) (content : Str) : PageDb := ⟨pageDb.db.insert url content⟩

def load (pageDb : PageDb) (url : Url) (content : Str) : Bool × Str :=
  match pageDb.db[url]? with
  | some stored => (true, stored)
  | none => (false, content)

def scanFull (pageDb : PageDb) : List (Url × Str) := pageDb.db.toList

def iface : IPageDb PageDb where
  save pageDb url content := .ok (pageDb.save url content)
  load := load
  scanFull := scanFull

end PageDb

end Contentv1
