import Menagerie.Template.Reader

/-!
# Libraries of templates

A `Library` takes in one document after another. Each of them becomes a template, or is left out
because it is switched off, or is disabled for a reason that is kept; none of them affects another,
except that a name that is taken stays taken.
-/

namespace Menagerie

/-- A document that became no template, and why. -/
structure DisabledTemplate where
  /-- The name the document gives itself, or else its origin. -/
  name : String
  origin : String
  cause : ContentError

/-- The templates that were taken in, and the documents that were disabled. -/
structure Library where
  templates : SortedMap String Template := .empty
  disabled : List DisabledTemplate := []

namespace Library

instance : Inhabited Library := ⟨{}⟩

def get? (l : Library) (name : String) : Option Template := l.templates.get? name

def isDisabled (l : Library) (name : String) : Bool := l.disabled.any fun d => d.name == name

def disable (l : Library) (name origin : String) (cause : ContentError) : Library :=
  { l with disabled := l.disabled ++ [⟨name, origin, cause⟩] }

/-- Reads and validates a template. -/
def readValid (r : Registry) (origin : String) (d : Document) : Except ContentError Template := do
  let t ← Template.ofDocument r origin d
  let _ ← t.validate
  return t

/-- Takes in a document. -/
def ingest (l : Library) (r : Registry) (origin : String) (d : Document) : Library :=
  match readValid r origin d with
  | .ok t =>
    if !t.enabled then l
    else if l.templates.contains t.name then
      l.disable t.name origin (.malformed t.place (.repeatedTemplate t.name))
    else { l with templates := l.templates.insert t.name t }
  | .error cause =>
    let name := ((d.field? "name").bind Document.text?).getD origin
    l.disable name origin cause

/-- Takes in documents in order, each with its origin. -/
def ingestAll (l : Library) (r : Registry) (documents : List (String × Document)) : Library :=
  documents.foldl (fun l (origin, d) => l.ingest r origin d) l

end Library

end Menagerie
