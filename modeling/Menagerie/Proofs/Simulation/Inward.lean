import Menagerie.Proofs.Simulation.Course
import Menagerie.Proofs.World.Inward

/-!
# When bodies change inwardly

As the clock advances, and while agents sense, bodies get other memories and stay as they are otherwise.
-/

namespace Menagerie

section

variable {rel : Body → Body → Prop}

theorem World.each_advance (hmemory : ∀ b memory, rel b { b with memory }) (w : World) :
    w.Each rel w.advance := by
  intro id
  rw [body?_advance]
  cases w.body? id with
  | none => exact .none
  | some b => exact .some (hmemory b _)

namespace Simulation

theorem each_senseKind (hrefl : ∀ b, rel b b) (htrans : ∀ {b b' b''}, rel b b' → rel b' b'' → rel b b'')
    (hmemory : ∀ b memory, rel b { b with memory }) (e : Engine) (id : AgentId) (w : World)
    (kind : SensorKind) : w.Each rel (senseKind e id w kind) := by
  unfold senseKind
  split
  · exact .refl hrefl w
  · next sensor _ =>
    split
    · exact w.each_updateMemories hrefl htrans hmemory id _
    · exact .refl hrefl w

theorem each_senseFor (hrefl : ∀ b, rel b b) (htrans : ∀ {b b' b''}, rel b b' → rel b' b'' → rel b b'')
    (hmemory : ∀ b memory, rel b { b with memory }) (e : Engine) (entry : AgentId × Brain) (w : World) :
    w.Each rel (senseFor e w entry) := by
  unfold senseFor
  split
  · exact .foldl hrefl htrans _ (fun kind _ w => each_senseKind hrefl htrans hmemory e entry.1 w kind) w
  · exact .refl hrefl w

theorem each_sense (hrefl : ∀ b, rel b b) (htrans : ∀ {b b' b''}, rel b b' → rel b' b'' → rel b b'')
    (hmemory : ∀ b memory, rel b { b with memory }) (s : Simulation) :
    s.whenSensing.world.Each rel s.whenThinking.world :=
  .foldl hrefl htrans _
    (fun entry _ w => each_senseFor hrefl htrans hmemory s.whenSensing.engine entry w) _

end Simulation

end

theorem World.inward_advance (w : World) : w.Each Body.Inward w.advance :=
  w.each_advance fun _ _ => rfl

namespace Simulation

theorem inward_senseKind (e : Engine) (id : AgentId) (w : World) (kind : SensorKind) :
    w.Each Body.Inward (senseKind e id w kind) :=
  each_senseKind Body.Inward.refl Body.Inward.trans (fun _ _ => rfl) e id w kind

theorem inward_whenThinking (s : Simulation) :
    s.whenSensing.world.Each Body.Inward s.whenThinking.world :=
  s.each_sense Body.Inward.refl Body.Inward.trans fun _ _ => rfl

end Simulation

end Menagerie
