/-!
# Locations inside content

A `Location` is the dotted way from a template or file name down to one node of its content, such
as `mareep.activities[1].tasks[0].task`. Every complaint about content carries the location of the
node it is about.
-/

namespace Menagerie

/-- The way to a node of a content file, as it is written. -/
structure Location where
  text : String
  deriving DecidableEq, Repr

namespace Location

/-- The nameless location that every way starts from. -/
def origin : Location := ⟨""⟩

instance : Inhabited Location := ⟨origin⟩

/-- The location of a whole template or file. -/
def root (name : String) : Location := ⟨name⟩

/-- The field `name` of the node. -/
def field (l : Location) (name : String) : Location :=
  if l.text = "" then ⟨name⟩ else ⟨l.text ++ "." ++ name⟩

/-- The entry of the node at a position, counted from zero. -/
def index (l : Location) (i : Nat) : Location := ⟨l.text ++ "[" ++ toString i ++ "]"⟩

/-- How a location appears in a message. -/
def describe (l : Location) : String := if l.text = "" then "<root>" else l.text

end Location

end Menagerie
