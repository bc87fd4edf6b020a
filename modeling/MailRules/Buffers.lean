import MailRules.Assoc
import MailRules.Text.Basic

/-! Lines waiting to be written, path by path. -/
namespace MailRules

/-- The lines of each path that was asked for, in the order in which they came. -/
structure Buffers (α : Type) where
  lines : Assoc String (List α) := ∅

namespace Buffers

variable {α : Type}

/-- Adds lines at a path; the path is known from then on, even without lines. -/
def append (b : Buffers α) (path : String) (more : List α) : Buffers α :=
  ⟨b.lines.update path [] (· ++ more)⟩

def get? (b : Buffers α) (path : String) : Option (List α) := b.lines.get? path

def contains (b : Buffers α) (path : String) : Bool := b.lines.contains path

def size (b : Buffers α) : Nat := b.lines.size

/-- Every known path, in load order. -/
def paths (b : Buffers α) : List String := Text.sorted b.lines.keys

/-- The whole text at a path, each line written by `render`. -/
def text (render : α → String) (b : Buffers α) (path : String) : String :=
  String.join (((b.get? path).getD []).map render)

/-- The paths with something to write, in load order. -/
def nonEmpty (b : Buffers α) : List String :=
  b.paths.filter fun path => !((b.get? path).getD []).isEmpty

end Buffers

end MailRules
