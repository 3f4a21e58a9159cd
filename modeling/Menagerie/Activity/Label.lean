import Menagerie.Document.Shape

/-!
# Activities

An activity is a coarse label for a set of behaviours. The core activity is always on.
-/

namespace Menagerie

open Std

inductive Activity where
  | core
  | idle
  | panic
  | fight
  | rest
  | herd
  | pollinate
  | chat
  deriving DecidableEq, Repr

namespace Activity

instance : Named Activity where
  all := [.core, .idle, .panic, .fight, .rest, .herd, .pollinate, .chat]
  name
    | .core => "core"
    | .idle => "idle"
    | .panic => "panic"
    | .fight => "fight"
    | .rest => "rest"
    | .herd => "herd"
    | .pollinate => "pollinate"
    | .chat => "chat"

instance : Ord Activity := ⟨fun a b => compare a.ctorIdx b.ctorIdx⟩

instance : TransOrd Activity := transOrd_of_rank Activity.ctorIdx fun _ _ => rfl

instance : LawfulEqOrd Activity :=
  lawfulEqOrd_of_rank Activity.ctorIdx (fun _ _ => rfl) fun a b h => by
    rw [← Activity.ofNat_ctorIdx a, h, Activity.ofNat_ctorIdx]

end Activity

end Menagerie
