import Menagerie.Agent.View

/-!
# Herd profiles

A profile says whom an agent is willing to follow and how many may follow it. The first entry that
fits a candidate decides.
-/

namespace Menagerie

/-- A species that an agent is willing to follow. -/
structure ToleratedLeader where
  species : String
  /-- Whether an agent of a lower level may lead. -/
  allowLowerLevel : Bool
  deriving DecidableEq, Repr

namespace ToleratedLeader

def read? {δ : Type} [Shaped δ] (d : δ) : Option ToleratedLeader := do
  let fields ← Shaped.record? "ToleratedLeader" ["species", "allow_lower_level"] d
  return ⟨← fields.required "species" Shaped.text?,
    ← fields.orElse "allow_lower_level" false Shaped.bool?⟩

def toDocument (t : ToleratedLeader) : Document :=
  .object [("species", .text t.species), ("allow_lower_level", .bool t.allowLowerLevel)]

end ToleratedLeader

/-- Whom an agent may follow and how many may follow it. -/
structure HerdProfile where
  toleratedLeaders : List ToleratedLeader := []
  /-- The number of followers from which on no other is taken. -/
  maxSize : UInt32 := 6
  deriving DecidableEq, Repr

namespace HerdProfile

instance : Inhabited HerdProfile := ⟨{}⟩

/-- The entry under which `follower` would follow `candidate`. -/
def matchLeader? (p : HerdProfile) (follower candidate : AgentView) : Option ToleratedLeader :=
  p.toleratedLeaders.find? fun t =>
    t.species == candidate.species && (t.allowLowerLevel || candidate.level ≥ follower.level)

/-- Whether a species is tolerated at all. -/
def tolerates (p : HerdProfile) (species : String) : Bool :=
  p.toleratedLeaders.any fun t => t.species == species

def read? {δ : Type} [Shaped δ] (d : δ) : Option HerdProfile := do
  let fields ← Shaped.record? "HerdProfile" ["tolerated_leaders", "max_size"] d
  let missing : HerdProfile := {}
  return ⟨← fields.orElse "tolerated_leaders" missing.toleratedLeaders
      (Shaped.listOf? ToleratedLeader.read?),
    ← fields.orElse "max_size" missing.maxSize Shaped.uint32?⟩

def toDocument (p : HerdProfile) : Document :=
  .object [("tolerated_leaders", Document.ofList ToleratedLeader.toDocument p.toleratedLeaders),
    ("max_size", Document.ofUInt32 p.maxSize)]

end HerdProfile

end Menagerie
