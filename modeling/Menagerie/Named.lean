import Menagerie.Document.Basic
import Menagerie.Text.Blank

/-!
# Named members

A closed set of members, each with a name that stands for it in documents and messages. A name is
looked up as it is written, or without regard to the case of its letters where a set allows that.
-/

namespace Menagerie

/-- A closed set of named members. -/
class Named (α : Type) where
  /-- The members, in the order in which they are searched. -/
  all : List α
  name : α → String

namespace Named

variable {α : Type} [Named α]

/-- The member with a name. -/
def ofName? (s : String) : Option α := all.find? fun a => name a == s

/-- The member with a name, in any letter case. -/
def ofAnyCase? (s : String) : Option α :=
  all.find? fun a => Text.lower (name a).toList == Text.lower s.toList

end Named

end Menagerie
