import Menagerie.Document.Shape

/-!
# Identifiers

Agents and items carry 32-bit numbers. The two kinds of number are different types, each with the
order of its numbers.
-/

namespace Menagerie

open Std

/-- The number of an agent. -/
structure AgentId where
  number : UInt32
  deriving DecidableEq, Repr, Inhabited

namespace AgentId

instance : Ord AgentId := ⟨fun a b => compare a.number b.number⟩

instance : TransOrd AgentId := transOrd_of_rank number fun _ _ => rfl

instance : LawfulEqOrd AgentId :=
  lawfulEqOrd_of_rank number (fun _ _ => rfl) fun ⟨_⟩ ⟨_⟩ h => congrArg AgentId.mk h

def describe (id : AgentId) : String := s!"#{id.number}"

def read? {δ : Type} [Shaped δ] (d : δ) : Option AgentId := (Shaped.uint32? d).map mk

def toDocument (id : AgentId) : Document := Document.ofUInt32 id.number

end AgentId

/-- The number of an item. -/
structure ItemId where
  number : UInt32
  deriving DecidableEq, Repr, Inhabited

namespace ItemId

instance : Ord ItemId := ⟨fun a b => compare a.number b.number⟩

instance : TransOrd ItemId := transOrd_of_rank number fun _ _ => rfl

instance : LawfulEqOrd ItemId :=
  lawfulEqOrd_of_rank number (fun _ _ => rfl) fun ⟨_⟩ ⟨_⟩ h => congrArg ItemId.mk h

def read? {δ : Type} [Shaped δ] (d : δ) : Option ItemId := (Shaped.uint32? d).map mk

def toDocument (id : ItemId) : Document := Document.ofUInt32 id.number

end ItemId

end Menagerie
