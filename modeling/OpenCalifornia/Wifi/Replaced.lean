import OpenCalifornia.Wifi.Core

/-! # New credentials are the ones in use

Nothing that `cali_wifi_run_set_creds` starts clears or restores credentials. -/

namespace OpenCalifornia.Wifi

/-- An action that touches no credentials. -/
def keepsCreds (a : Action) : Prop := a ≠ .clearCreds ∧ a ≠ .restorePrev

variable {k : Core} {e : Env} {c : Creds}

theorem run_stores {a : Action} (ha : keepsCreds a) (h : k.Stores c) :
    (k.run e a).Stores c := by
  obtain ⟨hcreds, hssid, hpsk⟩ := h
  cases a with
  | staStart =>
    unfold Core.run Core.staStart
    rw [hcreds]
    exact ⟨rfl, hssid, hpsk⟩
  | clearCreds => exact absurd rfl ha.1
  | restorePrev => exact absurd rfl ha.2
  | _ => exact ⟨hcreds, hssid, hpsk⟩

theorem actions_stores {acts : List Action} (hacts : ∀ a ∈ acts, keepsCreds a)
    (h : k.Stores c) : (acts.foldl (Core.run e) k).Stores c := by
  induction acts generalizing k with
  | nil => exact h
  | cons a acts ih =>
    obtain ⟨ha, hacts⟩ := List.forall_mem_cons.mp hacts
    exact ih hacts (run_stores ha h)

theorem credsSet_acts (s : Sm) : ∀ a ∈ (s.step .credsSet).2, keepsCreds a := by
  intro a ha
  unfold Sm.step at ha
  cases hst : s.st <;> simp [hst] at ha <;> subst ha <;> exact ⟨by decide, by decide⟩

theorem credsReplace_acts (s : Sm) : ∀ a ∈ (s.step .credsReplace).2, keepsCreds a := by
  intro a ha
  unfold Sm.step at ha
  dsimp only at ha
  split_ifs at ha
  · simp only [List.mem_cons, List.not_mem_nil, or_false] at ha
    obtain rfl | rfl | rfl := ha <;> exact ⟨by decide, by decide⟩
  · simp at ha

theorem feed_stores {ev : Ev} (hacts : ∀ a ∈ (k.sm.step ev).2, keepsCreds a)
    (h : k.Stores c) : (k.feed e ev).Stores c :=
  actions_stores (fun a ha => hacts a (List.mem_of_mem_filter ha)) h

theorem join_stores (h : k.Stores c) : (k.join e).Stores c := by
  unfold Core.join
  split_ifs
  · exact feed_stores (credsSet_acts _) h
  · exact feed_stores (credsReplace_acts _) h
  · refine feed_stores (credsSet_acts _) ?_
    refine actions_stores ?_ h
    intro a ha
    have ha : a = .staStop ∨ a = .apStart := by
      simpa [Sm.step] using ha
    obtain rfl | rfl := ha <;> exact ⟨by decide, by decide⟩
  · exact h

theorem setCreds_stores (w : State) :
    (Op.apply (.setCreds c) e w).core.Stores c := by
  rw [setCreds_core]
  split_ifs with hkeep
  · obtain ⟨-, hany⟩ := hkeep
    obtain ⟨c', hc', heq⟩ := (Option.any_eq_true ..).mp hany
    have hsame : c' = c := by
      obtain ⟨hssid, hpsk⟩ := of_decide_eq_true heq
      cases c'
      cases c
      simp_all
    exact ⟨hsame ▸ hc', rfl, rfl⟩
  · exact join_stores ⟨rfl, rfl, rfl⟩

end OpenCalifornia.Wifi
