import Menagerie.Proofs.Behavior.Tree
import Menagerie.Proofs.Task.Conduct

/-!
# What behaviors do

A leaf runs where its requirements hold: what they ask to be present is what its task requires
(`Leaf.proper_act`). So wherever an agent has the memories of all leaves of a behavior, a tick of the
behavior does sound deeds of that agent, and it faults only because of what value a parameter has
(`Behavior.keeps_tick`).
-/

namespace Menagerie

theorem World.Able.mono {w : World} {me : AgentId} {keys keys' : List MemoryKey}
    (h : w.Able me keys) (hkeys : ∀ key ∈ keys', key ∈ keys) : w.Able me keys' := by
  obtain ⟨b, hb, hkinds, hregistered⟩ := h.body
  exact ⟨h.indexed, b, hb, hkinds, fun key hkey => hregistered key (hkeys key hkey)⟩

/-- What a requirement asks to be present is remembered. -/
theorem World.recalls_of_satisfiesAll {w : World} {me : AgentId} {b : Body}
    {requirements : List Requirement} {key : MemoryKey} (hb : w.body? me = some b)
    (hkinds : b.memory.WellKinded) (h : b.memory.satisfiesAll requirements)
    (hkey : .present key ∈ requirements) : w.Recalls me key := by
  have hpresent : b.memory.hasValue key := List.all_eq_true.mp h _ hkey
  rw [← Blackboard.isSome_get?] at hpresent
  obtain ⟨value, hvalue⟩ := Option.isSome_iff_exists.mp hpresent
  refine ⟨value, ?_, hkinds.kind hvalue⟩
  unfold remembered? memory?
  rw [hb]
  exact hvalue

namespace Leaf

open Act

variable {env : ActEnv} {s : Stage} {l : Leaf}

/-- What a leaf does once its requirements hold. -/
theorem proper_act (able : s.world.Able env.agent l.needs.memories)
    (h : ∀ key, .present key ∈ l.needs.requirements → s.world.Recalls env.agent key) :
    Proper l.act env s := by
  cases l with
  | doNothing => exact .pure
  | wander => exact Task.conducts_wander env s able
  | fleeAttacker => exact Task.proper_fleeAttacker able (h _ List.mem_cons_self)
  | switchToPanicWhenHurt => exact Task.conducts_switchToPanicWhenHurt env s able
  | calmDown => exact Task.conducts_calmDown env s able
  | retaliate => exact Task.proper_retaliate able (h _ List.mem_cons_self)
  | meleeAttack => exact Task.proper_meleeAttack able (h _ List.mem_cons_self)
  | findRestingPlace => exact Task.conducts_findRestingPlace env s able
  | goToSleep => exact Task.conducts_goToSleep env s able
  | wakeUp => exact Task.conducts_wakeUp env s able
  | moveIntoFluid => exact Task.conducts_moveIntoFluid env s able
  | moveToItem => exact Task.proper_moveToItem able (h _ List.mem_cons_self)
  | pathToFlower => exact Task.proper_pathToFlower able (h _ List.mem_cons_self)
  | pollinateFlower => exact .pure
  | findHerdLeader => exact Task.proper_findHerdLeader able (h _ List.mem_cons_self)
  | maintainHerdLeader => exact Task.proper_maintainHerdLeader able (h _ List.mem_cons_self)
  | countFollowers => exact Task.proper_countFollowers able (h _ List.mem_cons_self)
  | followHerdLeader => exact Task.proper_followHerdLeader able (h _ List.mem_cons_self)
  | switchToHerd => exact Task.conducts_switchToHerd env s able
  | switchFromHerd => exact Task.conducts_switchFromHerd env s able

/-- What a tick of a leaf leaves behind: a leaf with the same needs, and a world that the agent gets
to by sound deeds. -/
abbrev Conducted (env : ActEnv) (w : World) (l : Leaf) (t : Ticked TaskFault Leaf Stage) : Prop :=
  t.Keeps (fun l' => l'.needs = l.needs) (fun s => Does env.agent w s.world)
    fun fault => fault.cause.OfValue

theorem conducted_of_proper {act : Act Bool} {l' : Leaf} (h : Proper act env s)
    (hneeds : l'.needs = l.needs) :
    Conducted env s.world l
      ⟨(act.runOn env s).1.map Status.ofBool, l', (act.runOn env s).2⟩ := by
  obtain ⟨hdoes, hfault⟩ := h.runOn
  refine ⟨hneeds, hdoes, ?_⟩
  intro fault heq
  cases hrun : (act.runOn env s).1 with
  | ok ran =>
    rw [hrun] at heq
    cases heq
  | error fault' =>
    rw [hrun] at heq
    cases heq
    exact hfault fault hrun

theorem conducted_pollinateFlower {required cooldown : UInt64} {stay : FlowerStay}
    (able : s.world.Able env.agent [.hasNectar, .pollinateCooldown])
    (h : s.world.Recalls env.agent .nearbyFlower) :
    Conducted env s.world (pollinateFlower required cooldown stay)
      ((pollinateFlower required cooldown stay).turn env s) := by
  have hlook := Task.proper_lookAtFlower able h
  unfold Proper Meets at hlook
  unfold turn Task.pollinateFlower runOn
  split at hlook
  · next place s' heq =>
    obtain ⟨flower, near⟩ := place
    rw [heq]
    dsimp only
    obtain ⟨stay', arrived, visit⟩ := stay.visit required near flower
    refine (conducted_of_proper (Task.conducts_attendFlower visit env s' (able.of_kept hlook.kept))
      rfl).imp (fun _ h => h) ?_
    exact fun _ hdoes => hlook.trans hdoes
  · next fault s' heq =>
    rw [heq]
    refine ⟨rfl, hlook.1, ?_⟩
    rintro _ ⟨⟩
    exact hlook.2

theorem conducted_turn (able : s.world.Able env.agent l.needs.memories)
    (h : ∀ key, .present key ∈ l.needs.requirements → s.world.Recalls env.agent key) :
    Conducted env s.world l (l.turn env s) := by
  cases l with
  | pollinateFlower => exact conducted_pollinateFlower able (h _ List.mem_cons_self)
  | _ => exact conducted_of_proper (proper_act able h) rfl

theorem conducted_run (able : s.world.Able env.agent l.needs.memories) :
    Conducted env s.world l (l.run env s) := by
  obtain ⟨b, hb, hkinds, _⟩ := able.body
  have hmemory : s.world.memory? env.agent = some b.memory := congrArg (Option.map Body.memory) hb
  rw [run_eq, hmemory]
  split
  · next hall =>
    exact conducted_turn able fun key hkey => World.recalls_of_satisfiesAll hb hkinds hall hkey
  · exact ⟨rfl, .refl _ _, fun e he => nomatch he⟩

end Leaf

namespace Behavior

/-- Whether a behavior makes do with the given keys. -/
def Manned (keys : List MemoryKey) (b : Behavior) : Prop :=
  b.Every fun l => ∀ key ∈ l.needs.memories, key ∈ keys

/-- What an agent that started from a world keeps. -/
theorem keeps_actor {env : ActEnv} {w : World} {keys : List MemoryKey} (able : w.Able env.agent keys) :
    env.actor.Keeps (fun l => ∀ key ∈ l.needs.memories, key ∈ keys)
      (fun s => Does env.agent w s.world) fun fault => fault.cause.OfValue where
  run l s hkeys hdoes := by
    refine (Leaf.conducted_run ((able.of_kept hdoes.kept).mono hkeys)).imp ?_ ?_
    · intro l' hneeds
      rw [hneeds]
      exact hkeys
    · exact fun s' hdoes' => hdoes.trans hdoes'
  check guard s hdoes := by
    obtain ⟨hdoes', hfault⟩ :=
      (Act.conducts_evaluate env s (able.of_kept hdoes.kept) : Act.Proper (Act.bool guard) env s).runOn
    exact ⟨hdoes.trans hdoes', hfault⟩
  draw s hdoes := hdoes

/-- A tick of a behavior. -/
theorem keeps_tick {env : ActEnv} {w : World} {keys : List MemoryKey} {b : Behavior} {s : Stage}
    (able : w.Able env.agent keys) (hb : b.Manned keys) (hs : Does env.agent w s.world) :
    (b.tick env s).Keeps (Manned keys) (fun s => Does env.agent w s.world)
      fun fault => fault.cause.OfValue :=
  Tree.Every.tick (keeps_actor able) hb hs

end Behavior

end Menagerie
