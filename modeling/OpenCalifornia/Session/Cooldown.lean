import OpenCalifornia.Session.Runs

/-! # The unit's cooldown

A reconnect waits for the cooldown after every loss of an encrypted link. A probe, the boot and the
way out of mode off connect at once. -/

namespace OpenCalifornia.Session
open Lib Lib.Bits Lib.Machine

variable {s : State}

/-- No connect of the step comes inside the cooldown of a link lost before. -/
def Waits (older : List Step) (r : Step) : Prop :=
  ∀ t resting probing, Act.connect t resting probing ∈ r.out →
    ∀ r' ∈ r :: older, ∀ u, Act.linkDown u ∈ r'.out → u + unitCooldownMs ≤ t

/-- Whoever ended the link: a connect that the operation does not ask for at once waits. -/
theorem cooldown_kept {newer older : List Step} {r : Step}
    (h : Run step {} (newer ++ r :: older) s) (hop : ¬ r.inp.1.atOnce r.pre) : Waits older r := by
  obtain ⟨p, asks, beats, hsound⟩ := run_sound h
  intro t resting probing hm r' hr' u hu
  obtain ⟨rfl, -, hne⟩ := hsound.connect hm
  have hcool := (hsound.made.cool hne).resolve_left hop
  have hlost : r.post.wasUp = true ∧ u ≤ r.post.downAt := by
    obtain hp | hc := hsound.known r' hr' u hu
    · exact hsound.ok.losses u hp
    · exact hsound.ok.lost u hc
  exact (Nat.add_le_add_right hlost.2 _).trans (hcool hlost.1)

/-- The unit ends the link at 0 ms, and the reconnect timer connects 7 s later. -/
theorem cooldown_kept_tick : ∃ (r : Step) (older : List Step),
    .connect 7000 false false ∈ r.out ∧ Waits older r := by
  have hrun : Run step {} ([] ++ _ :: _) _ :=
    .cons (i := (.tick, .refusing)) (.cons (i := (.clock 7000, .refusing))
      (.cons (i := (.event (.disconnected 8), .refusing))
        (.cons (i := (.event .encOk, .refusing)) (.cons (i := (.event .connected, .refusing))
          (.cons (i := (.boot, .refusing)) .nil rfl) rfl) rfl) rfl) rfl) rfl
  exact ⟨_, _, by decide, cooldown_kept hrun id⟩

/-- Mode off drops the link, and mode hold asks for it again in the same millisecond. -/
theorem connect_inside_cooldown : ¬ ∀ (newer older : List Step) (r : Step) (s : State),
    Run step {} (newer ++ r :: older) s → Waits older r := by
  intro hall
  have hrun : Run step {} ([] ++ _ :: _) _ :=
    .cons (i := (.setMode .hold, .refusing)) (.cons (i := (.setMode .off, .refusing))
      (.cons (i := (.event .encOk, .refusing)) (.cons (i := (.event .connected, .refusing))
        (.cons (i := (.boot, .refusing)) .nil rfl) rfl) rfl) rfl) rfl
  have hwaits := hall _ _ _ _ hrun 0 false false (by decide) _
    (List.mem_cons_of_mem _ List.mem_cons_self) 0 (by decide)
  exact absurd hwaits (by decide)

end OpenCalifornia.Session
