import OpenCalifornia.Wifi.Core

/-! # The phases of the WiFi runtime

The phase of the machine says which credentials are in place, and which are stashed. Every function
of the runtime keeps this. -/

namespace OpenCalifornia.Wifi
open Lib Lib.Bits Lib.Machine

/-- A state of a station whose credentials joined. -/
inductive St.Station : St → Prop
  | connecting : Station .connecting
  | online : Station .online
  | retrying : Station .retrying
  | setupApRetrying : Station .setupApRetrying

/-- Where the machine stands, with the current credentials and the stash. The network that joined
last is `last`. -/
inductive Phase (last : Option Creds) : St → Joined → Option Creds → Option Creds → Prop
  | off (c : Option Creds) : Phase last .unprovisioned .no c none
  | setup (c : Option Creds) : Phase last .setupAp .no c none
  | typed (c : Creds) : Phase last .connecting .no (some c) none
  | joined {st : St} (hst : st.Station) (c : Creds) (hlast : last = some c) :
      Phase last st .yes (some c) none
  | replacing (c p : Creds) (hlast : last = some p) :
      Phase last .connecting .replacing (some c) (some p)

abbrev Core.At (k : Core) (last : Option Creds) : Prop :=
  Phase last k.sm.st k.sm.joinedOnce k.creds k.prev

/-- A restore puts back the last network. -/
def Restores (last : Option Creds) (calls calls' : List Call) : Prop :=
  ∀ c p, .restored c p ∈ calls' → .restored c p ∈ calls ∨ ∃ n, p = some n ∧ last = some n

/-- What a step leaves. -/
structure Keeps (last : Option Creds) (k k' : Core) : Prop where
  phase : k'.At last
  joined : k.sm.joinedOnce ≠ .no → k'.sm.joinedOnce ≠ .no
  restores : Restores last k.calls k'.calls

variable {last : Option Creds} {k k' : Core} {e : Env}

theorem Phase.stash {st : St} {j : Joined} {creds prev : Option Creds}
    (h : Phase last st j creds prev) {n : Creds} (hn : prev = some n) : last = some n := by
  cases h with
  | off | setup | typed | joined => cases hn
  | replacing c p hlast => exact hlast.trans hn

theorem Phase.current {st : St} {j : Joined} {creds prev : Option Creds}
    (h : Phase last st j creds prev) (hj : j = .yes) : creds = last := by
  cases h with
  | off | setup | typed | replacing => cases hj
  | joined hst c hlast => exact hlast.symm

theorem Phase.kept {st : St} {j : Joined} {creds prev : Option Creds}
    (h : Phase last st j creds prev) (hj : j ≠ .no) {n : Creds} (hn : last = some n) :
    creds = some n ∨ prev = some n := by
  cases h with
  | off | setup | typed => exact absurd rfl hj
  | joined hst c hlast => exact .inl (hlast.symm.trans hn)
  | replacing c p hlast => exact .inr (hlast.symm.trans hn)

theorem Phase.replaces {st : St} {j : Joined} {creds prev : Option Creds}
    (h : Phase last st j creds prev) (hj : j = .replacing) : prev.isSome = true := by
  cases h with
  | off | setup | typed | joined => cases hj
  | replacing => rfl

theorem Restores.refl {calls : List Call} : Restores last calls calls := fun _ _ h => .inl h

theorem Restores.cons {calls : List Call} {a : Call} (h : ∀ c p, a = .restored c p →
    ∃ n, p = some n ∧ last = some n) : Restores last calls (a :: calls) := by
  intro c p hm
  cases List.mem_cons.mp hm with
  | inl he => exact .inr (h c p he.symm)
  | inr hm => exact .inl hm

theorem Keeps.trans {k'' : Core} (h : Keeps last k k') (h' : Keeps last k' k'') :
    Keeps last k k'' where
  phase := h'.phase
  joined hj := h'.joined (h.joined hj)
  restores c p hm := (h'.restores c p hm).elim (h.restores c p) .inr

theorem Keeps.refl (h : k.At last) : Keeps last k k := ⟨h, id, .refl⟩

theorem Keeps.staStart (h : k.At last) : Keeps last k (k.staStart e) := by
  unfold Core.staStart
  split
  · exact ⟨h, id, .refl⟩
  · exact ⟨h, id, .cons (by rintro _ _ ⟨⟩)⟩

theorem Core.At.failed (h : k.At last) (reason : Reason) :
    Keeps last k (k.feed e (.failed reason)) := by
  obtain ⟨⟨st, apUp, joinedOnce, retryMs, sinceMs, nextTryMs⟩, creds, prev, _, _, _, _, calls⟩ := k
  cases h with
  | off => exact ⟨.off creds, id, .refl⟩
  | setup => exact ⟨.setup creds, id, .refl⟩
  | typed c => exact ⟨.setup none, fun hj => absurd rfl hj, .cons (by rintro _ _ ⟨⟩)⟩
  | replacing c p hlast =>
    refine ⟨.joined .retrying p hlast, (by rintro _ ⟨⟩), .cons fun c' p' he => ?_⟩
    cases he
    exact ⟨p, rfl, hlast⟩
  | joined hst c hlast =>
    cases hst with
    | connecting => exact ⟨.joined .retrying c hlast, (by rintro _ ⟨⟩), .refl⟩
    | online => exact .refl (.joined .online c hlast)
    | retrying => exact .refl (.joined .retrying c hlast)
    | setupApRetrying => exact .refl (.joined .setupApRetrying c hlast)

theorem Core.At.lost (h : k.At last) : Keeps last k (k.feed e .lost) := by
  obtain ⟨⟨st, apUp, joinedOnce, retryMs, sinceMs, nextTryMs⟩, creds, prev, _, _, _, _, calls⟩ := k
  cases h with
  | off => exact .refl (.off creds)
  | setup => exact .refl (.setup creds)
  | typed c => exact .refl (.typed c)
  | replacing c p hlast => exact .refl (.replacing c p hlast)
  | joined hst c hlast =>
    cases hst with
    | connecting => exact .refl (.joined .connecting c hlast)
    | online => exact ⟨.joined .retrying c hlast, (by rintro _ ⟨⟩), .refl⟩
    | retrying => exact .refl (.joined .retrying c hlast)
    | setupApRetrying => exact .refl (.joined .setupApRetrying c hlast)

theorem Sm.tickRetrying_cases (s : Sm) (now : ℕ) :
    (s.tickRetrying now).1.joinedOnce = s.joinedOnce ∧
      ((s.tickRetrying now).1.st = s.st ∨
        s.st = .retrying ∧ (s.tickRetrying now).1.st = .setupApRetrying) ∧
      (s.tickRetrying now).2 ∈
        [[], [.staStart], [.apStart], [.staStart, .apStart]] := by
  unfold tickRetrying
  split_ifs with hzero hdue
  · exact ⟨rfl, .inl rfl, by simp⟩
  · dsimp only
    split_ifs with hlate
    · exact ⟨rfl, .inr ⟨hlate.1, rfl⟩, by simp⟩
    · exact ⟨rfl, .inl rfl, by simp⟩
  · dsimp only
    split_ifs with hlate
    · exact ⟨rfl, .inr ⟨hlate.1, rfl⟩, by simp⟩
    · exact ⟨rfl, .inl rfl, by simp⟩

theorem Sm.step_tick_retrying {m : Sm} (hst : m.st = .retrying ∨ m.st = .setupApRetrying)
    (now : ℕ) : m.step (.tick now) = m.tickRetrying now := by
  obtain ⟨st, _, _, _, _, _⟩ := m
  rcases hst with rfl | rfl <;> rfl

theorem Core.feed_tick (hst : k.sm.st = .retrying ∨ k.sm.st = .setupApRetrying) (now : ℕ) :
    k.feed e (.tick now) = { k with sm := (k.sm.tickRetrying now).1 } ∨
      k.feed e (.tick now) =
        ({ k with sm := (k.sm.tickRetrying now).1 } : Core).staStart e := by
  have hstep := Sm.step_tick_retrying hst now
  have hacts := (k.sm.tickRetrying_cases now).2.2
  unfold Core.feed Core.feedSkip
  rw [hstep]
  generalize (k.sm.tickRetrying now).2 = acts at hacts ⊢
  simp only [List.mem_cons, List.not_mem_nil, or_false] at hacts
  rcases hacts with rfl | rfl | rfl | rfl
  · exact .inl rfl
  · exact .inr rfl
  · exact .inl rfl
  · exact .inr rfl

theorem Core.feed_tick_idle (hst : k.sm.st ≠ .retrying ∧ k.sm.st ≠ .setupApRetrying) (now : ℕ) :
    ∃ sm : Sm, k.feed e (.tick now) = { k with sm } ∧ sm.st = k.sm.st ∧
      sm.joinedOnce = k.sm.joinedOnce := by
  obtain ⟨⟨st, apUp, joinedOnce, retryMs, sinceMs, nextTryMs⟩, creds, prev, _, _, _, _, calls⟩ := k
  unfold Core.feed Core.feedSkip Sm.step
  cases st with
  | unprovisioned => exact ⟨_, rfl, rfl, rfl⟩
  | setupAp => exact ⟨_, rfl, rfl, rfl⟩
  | connecting => exact ⟨_, rfl, rfl, rfl⟩
  | retrying => exact absurd rfl hst.1
  | setupApRetrying => exact absurd rfl hst.2
  | online =>
    dsimp only
    split_ifs
    · exact ⟨_, rfl, rfl, rfl⟩
    · exact ⟨_, rfl, rfl, rfl⟩
    · exact ⟨_, rfl, rfl, rfl⟩

theorem Core.At.tick (h : k.At last) (now : ℕ) : Keeps last k (k.feed e (.tick now)) := by
  by_cases hst : k.sm.st = .retrying ∨ k.sm.st = .setupApRetrying
  · obtain ⟨hjoined, hmove, -⟩ := k.sm.tickRetrying_cases now
    have hat : ({ k with sm := (k.sm.tickRetrying now).1 } : Core).At last := by
      show Phase last (k.sm.tickRetrying now).1.st
          (k.sm.tickRetrying now).1.joinedOnce k.creds k.prev
      rw [hjoined]
      obtain ⟨⟨st, apUp, joinedOnce, retryMs, sinceMs, nextTryMs⟩, creds, prev, _, _, _, _, _⟩ := k
      cases h with
      | off => rcases hst with h | h <;> cases h
      | setup => rcases hst with h | h <;> cases h
      | typed => rcases hst with h | h <;> cases h
      | replacing => rcases hst with h | h <;> cases h
      | joined hstation c hlast =>
        obtain hsame | ⟨-, hlate⟩ := hmove
        · rw [hsame]
          exact .joined hstation c hlast
        · rw [hlate]
          exact .joined .setupApRetrying c hlast
    have hkeep : Keeps last k { k with sm := (k.sm.tickRetrying now).1 } :=
      ⟨hat, fun hj => hjoined.symm ▸ hj, .refl⟩
    obtain hfeed | hfeed := k.feed_tick (e := e) hst now
    · rw [hfeed]
      exact hkeep
    · rw [hfeed]
      exact hkeep.trans (.staStart hat)
  · obtain ⟨sm, hfeed, hsame, hjoined⟩ := k.feed_tick_idle (e := e) (not_or.mp hst) now
    have hat : ({ k with sm } : Core).At last := by
      show Phase last sm.st sm.joinedOnce k.creds k.prev
      rw [hsame, hjoined]
      exact h
    rw [hfeed]
    exact ⟨hat, fun hj => hjoined.symm ▸ hj, .refl⟩

theorem Core.At.gotIp (h : k.At last) :
    (k.feed e .gotIp = k ∧ k.sm.st ≠ .online) ∨
      ∃ c, (k.feed e .gotIp).sm.st = .online ∧ (k.feed e .gotIp).sm.joinedOnce = .yes ∧
        (k.feed e .gotIp).creds = some c ∧ (k.feed e .gotIp).calls = k.calls := by
  obtain ⟨⟨st, apUp, joinedOnce, retryMs, sinceMs, nextTryMs⟩, creds, prev, _, _, _, _, calls⟩ := k
  cases h with
  | off => exact .inl ⟨rfl, (by rintro ⟨⟩)⟩
  | setup => exact .inl ⟨rfl, (by rintro ⟨⟩)⟩
  | typed c => exact .inr ⟨c, rfl, rfl, rfl, rfl⟩
  | replacing c p hlast => exact .inr ⟨c, rfl, rfl, rfl, rfl⟩
  | joined hst c hlast =>
    cases hst with
    | connecting => exact .inr ⟨c, rfl, rfl, rfl, rfl⟩
    | online => exact .inr ⟨c, rfl, rfl, rfl, rfl⟩
    | retrying => exact .inr ⟨c, rfl, rfl, rfl, rfl⟩
    | setupApRetrying => exact .inr ⟨c, rfl, rfl, rfl, rfl⟩

theorem Core.forgotten (last : Option Creds) (k : Core) (e : Env) :
    (({ k with prev := none } : Core).feed e .credsForget).At last ∧
      Restores last k.calls (({ k with prev := none } : Core).feed e .credsForget).calls :=
  ⟨.setup none, .cons (by rintro _ _ ⟨⟩)⟩

def Core.stash (k : Core) : Option Creds :=
  if k.creds.isSome ∧ k.sm.joinedOnce = .yes ∧
      (k.sm.st = .connecting ∨ k.sm.st = .online ∨ k.sm.st = .retrying) then k.creds
  else k.prev

/-- New credentials in place of the current ones. -/
def Core.replaced (k : Core) (c : Creds) : Core :=
  { k with ssid := some c.ssid, psk := some c.psk, prev := k.stash, creds := some c }

theorem Core.At.newCreds (h : k.At last) (c : Creds) :
    ((k.replaced c).join e).At last ∧
      (k.sm.joinedOnce ≠ .no → k.sm.st ≠ .setupApRetrying →
        ((k.replaced c).join e).sm.joinedOnce ≠ .no) ∧
      Restores last k.calls ((k.replaced c).join e).calls := by
  obtain ⟨⟨st, apUp, joinedOnce, retryMs, sinceMs, nextTryMs⟩, creds, prev, _, _, _, _, calls⟩ := k
  cases h with
  | off =>
    cases creds with
    | none => exact ⟨.off (some c), fun hj => absurd rfl hj, .refl⟩
    | some c₀ => exact ⟨.off (some c), fun hj => absurd rfl hj, .refl⟩
  | setup => exact ⟨.typed c, fun hj => absurd rfl hj, .cons (by rintro _ _ ⟨⟩)⟩
  | typed => exact ⟨.typed c, fun hj => absurd rfl hj, .cons (by rintro _ _ ⟨⟩)⟩
  | replacing c₀ p hlast =>
    exact ⟨.replacing c p hlast, (by rintro _ _ ⟨⟩), .cons (by rintro _ _ ⟨⟩)⟩
  | joined hst c₀ hlast =>
    cases hst with
    | connecting => exact ⟨.replacing c c₀ hlast, (by rintro _ _ ⟨⟩), .cons (by rintro _ _ ⟨⟩)⟩
    | online => exact ⟨.replacing c c₀ hlast, (by rintro _ _ ⟨⟩), .cons (by rintro _ _ ⟨⟩)⟩
    | retrying => exact ⟨.replacing c c₀ hlast, (by rintro _ _ ⟨⟩), .cons (by rintro _ _ ⟨⟩)⟩
    | setupApRetrying => exact ⟨.typed c, fun _ hst => absurd rfl hst, .cons (by rintro _ _ ⟨⟩)⟩

theorem Core.At.newCreds_untrusted (h : k.At last) (c : Creds) :
    ((k.replaced c).join e).sm.joinedOnce ≠ .yes := by
  obtain ⟨⟨st, apUp, joinedOnce, retryMs, sinceMs, nextTryMs⟩, creds, prev, _, _, _, _, calls⟩ := k
  cases h with
  | off => cases creds <;> rintro ⟨⟩
  | setup => rintro ⟨⟩
  | typed => rintro ⟨⟩
  | replacing c₀ p hlast => rintro ⟨⟩
  | joined hst c₀ hlast => cases hst <;> rintro ⟨⟩

theorem boot_at (kv : Kv) (e : Env) :
    (∀ last, Restores last [] (State.boot kv e).core.calls) ∧
    (((State.boot kv e).sm.joinedOnce = .no ∧ ∀ last, (State.boot kv e).core.At last) ∨
      ∃ c, (State.boot kv e).sm.joinedOnce = .yes ∧ (State.boot kv e).creds = some c ∧
        (State.boot kv e).core.At (some c)) := by
  have hcore := boot_core (e := e) kv
  have hjoined : (State.boot kv e).sm.joinedOnce = (State.boot kv e).core.sm.joinedOnce := rfl
  have hcreds : (State.boot kv e).creds = (State.boot kv e).core.creds := rfl
  rw [hjoined, hcreds, hcore]
  cases kv.load e with
  | none => exact ⟨fun _ => .refl, .inl ⟨rfl, fun _ => .setup none⟩⟩
  | some c =>
    cases kv.joined e with
    | false => exact ⟨fun _ => .cons (by rintro _ _ ⟨⟩), .inl ⟨rfl, fun _ => .typed c⟩⟩
    | true =>
      exact ⟨fun _ => .cons (by rintro _ _ ⟨⟩), .inr ⟨c, rfl, rfl, .joined .connecting c rfl⟩⟩

variable {w : State}

theorem gotIp_at (h : w.core.At last) (ip : ℕ) :
    ((w.onNet e (.gotIp ip)).sm.st ≠ .online ∧ Keeps last w.core (w.onNet e (.gotIp ip)).core) ∨
      ∃ c, (w.onNet e (.gotIp ip)).sm.st = .online ∧
        (w.onNet e (.gotIp ip)).sm.joinedOnce = .yes ∧
        (w.onNet e (.gotIp ip)).creds = some c ∧ (w.onNet e (.gotIp ip)).core.At (some c) ∧
        (w.onNet e (.gotIp ip)).core.calls = w.core.calls := by
  have hcore := gotIp_core (w := w) (e := e) ip
  have hat : ({ w.core with joining := none } : Core).At last := h
  obtain ⟨hsame, hst⟩ | ⟨c, hst, hjoined, hcreds, hcalls⟩ := hat.gotIp (e := e)
  · dsimp only at hcore
    rw [hsame, if_neg hst] at hcore
    refine .inl ⟨fun h => hst ((congrArg (·.sm.st) hcore).symm.trans h), ?_⟩
    rw [hcore]
    exact ⟨h, id, .refl⟩
  · dsimp only at hcore
    rw [if_pos hst] at hcore
    refine .inr ⟨c, (congrArg (·.sm.st) hcore).trans hst,
      (congrArg (·.sm.joinedOnce) hcore).trans hjoined, (congrArg (·.creds) hcore).trans hcreds, ?_,
      (congrArg (·.calls) hcore).trans hcalls⟩
    rw [hcore]
    show Phase (some c) _ _ _ _
    dsimp only
    rw [hst, hjoined, hcreds]
    exact .joined .online c rfl

theorem tickFailed_at (h : w.core.At last) : Keeps last w.core (w.tickFailed e).core := by
  rw [tickFailed_core]
  split_ifs
  · have hat : ({ w.core with joinFailed := false } : Core).At last := h
    exact ⟨(hat.failed .other).phase, (hat.failed .other).joined, (hat.failed .other).restores⟩
  · exact .refl h

theorem tick_at (h : w.core.At last) (now : ℕ) : Keeps last w.core (w.tick e now).core := by
  have hat : ({ w with now } : State).core.At last := h
  have hfailed := tickFailed_at (e := e) hat
  rw [tick_core]
  exact Keeps.trans hfailed (hfailed.phase.tick now)

theorem setCreds_at (h : w.core.At last) (c : Creds) :
    (Op.apply (.setCreds c) e w).core.At last ∧
      (w.sm.joinedOnce ≠ .no → w.sm.st ≠ .setupApRetrying →
        (Op.apply (.setCreds c) e w).sm.joinedOnce ≠ .no) ∧
      Restores last w.core.calls (Op.apply (.setCreds c) e w).core.calls := by
  have hcore := setCreds_core (w := w) (e := e) c
  by_cases hkeep : w.keepsJoin c.ssid c.psk
  · rw [if_pos hkeep] at hcore
    refine ⟨?_, fun hj _ hno => hj ((congrArg (·.sm.joinedOnce) hcore).symm.trans hno), ?_⟩
    · rw [hcore]
      exact h
    · rw [hcore]
      exact .refl
  · rw [if_neg hkeep] at hcore
    obtain ⟨hat, hjoined, hrestores⟩ := h.newCreds (e := e) c
    refine ⟨?_, fun hj hst hno => hjoined hj hst
      ((congrArg (·.sm.joinedOnce) hcore).symm.trans hno), ?_⟩
    · rw [hcore]
      exact hat
    · rw [hcore]
      exact hrestores

theorem forget_at (w : State) (e : Env) (last : Option Creds) :
    (w.forget e).core.At last ∧ Restores last w.core.calls (w.forget e).core.calls := by
  rw [forget_core]
  exact Core.forgotten last w.core e

theorem net_at (h : w.core.At last) {ev : NetEv} (hev : ∀ ip, ev ≠ .gotIp ip) :
    Keeps last w.core (w.onNet e ev).core := by
  cases ev with
  | gotIp ip => exact absurd rfl (hev ip)
  | lost =>
    rw [lost_core]
    exact h.lost
  | failed reason =>
    have hat : ({ w.core with joining := none } : Core).At last := h
    rw [failed_core]
    exact ⟨(hat.failed reason).phase, (hat.failed reason).joined, (hat.failed reason).restores⟩
  | apStarted => exact .refl h
  | scanDone list => cases list <;> exact .refl h
  | apStopped => exact .refl h

end OpenCalifornia.Wifi
