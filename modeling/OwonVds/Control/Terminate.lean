import OwonVds.Control.Listener

/-!
# Terminating the server thread

One call of `terminateServer` against the thread, step by step. Run alone, the steps of the call are the call
(`caller_alone`).

Two steps can come too early. Where the call gets to `server.socket()` before the thread has opened its channel, it
dereferences null. Where the thread tests `isExit` after the call has passed the wakeup, with none pending, and before
the call sets `isExit`, the thread may wait for ever: it goes on to `select`, and nothing wakes it. A run without
either (`Timely`) never goes wrong, and from every state in which one of them is taken there is a run that does
(`terminate_not_missed`).
-/

namespace OwonVds.Control

open OwonVds.Trans

/-- Where the call of `terminateServer` stands. -/
inductive Caller
  /-- `if (selector != null)` -/
  | check
  | wakeup
  /-- `isExit = true` -/
  | setExit
  /-- `server.socket()` -/
  | socket
  | close
  | done
  | nullPointer
  deriving DecidableEq, Repr

/-- The thread and one call. -/
structure Race where
  thread : Server
  caller : Caller
  deriving DecidableEq, Repr

inductive RaceEvent
  | listener (io : Io)
  | terminate
  deriving DecidableEq, Repr

/-- The thread has just been started. -/
def Race.started (port : Int) : Race := ⟨.started port, .check⟩

def callerStep (r : Race) : Option Race :=
  match r.caller with
  | .check => some { r with caller := if r.thread.selector then .wakeup else .setExit }
  | .wakeup => some { thread := { r.thread with wakeup := true }, caller := .setExit }
  | .setExit => some { thread := { r.thread with isExit := true }, caller := .socket }
  | .socket => some { r with caller := if r.thread.server.isSome then .close else .nullPointer }
  | .close => some { thread := { r.thread with server := some .closed }, caller := .done }
  | .done | .nullPointer => none

def raceStep (r : Race) : RaceEvent → Option Race
  | .listener io => (listenerStep r.thread io).map fun s => { r with thread := s }
  | .terminate => callerStep r

/-- The steps of the call, with none of the thread between them, are `terminateServer`. -/
theorem caller_alone (s : Server) : ∃ n, run raceStep ⟨s, .check⟩ (List.replicate n .terminate) =
    match terminateServer s with
    | .ok _ t => some ⟨t, .done⟩
    | .error _ t => some ⟨t, .nullPointer⟩ := by
  obtain ⟨port, pc, server, selector, wakeup, isExit⟩ := s
  cases selector
  · cases server
    · exact ⟨3, rfl⟩
    · exact ⟨4, rfl⟩
  · cases server
    · exact ⟨4, rfl⟩
    · exact ⟨5, rfl⟩

/-! ## The property, and the steps that break it -/

/-- The call has not thrown, and if it is over the thread does not wait for a wakeup that never comes. -/
def Race.Good (r : Race) : Prop :=
  r.caller ≠ .nullPointer ∧
    ¬ (r.caller = .done ∧ r.thread.pc = .blocked ∧ r.thread.wakeup = false)

/-- The step does not come too early. -/
def Timely (r : Race) : RaceEvent → Prop
  | .terminate => r.caller = .socket → r.thread.server.isSome = true
  | .listener _ => ¬ (r.thread.pc = .test ∧ r.caller = .setExit ∧ r.thread.wakeup = false)

/-- The call has passed the wakeup. -/
def Caller.passed : Caller → Bool
  | .check | .wakeup => false
  | _ => true

/-- The call has set `isExit`. -/
def Caller.told : Caller → Bool
  | .check | .wakeup | .setExit => false
  | _ => true

theorem Caller.eq_setExit {c : Caller} (hp : c.passed = true) (ht : c.told = false) : c = .setExit := by
  cases c with
  | setExit => rfl
  | check | wakeup => cases hp
  | socket | close | done | nullPointer => cases ht

/-! ## What holds in every run -/

structure Race.Inv (r : Race) : Prop where
  told : r.thread.isExit = r.caller.told
  selector : r.thread.pc.listens = true → r.thread.selector = true
  channel : r.thread.pc.listens = true ∨ (r.thread.pc.starts = true ∧ r.thread.pc ≠ .openChannel) →
    r.thread.server.isSome = true

theorem started_inv (port : Int) : (Race.started port).Inv := by
  refine ⟨rfl, nofun, ?_⟩
  rintro (h | ⟨-, h⟩)
  · cases h
  · exact absurd rfl h

theorem moves_inv {s t : Server} {c : Caller} (hr : (⟨s, c⟩ : Race).Inv) (h : Moves s t) : (⟨t, c⟩ : Race).Inv := by
  obtain ⟨htold, hsel, hch⟩ := hr
  dsimp only at htold hsel hch
  -- a thread that stays in `listen` keeps its selector and its channel
  have hstay : ∀ u : Server, s.pc.listens = true → u.isExit = s.isExit → u.selector = s.selector →
      u.server = s.server → (⟨u, c⟩ : Race).Inv := by
    intro u hl he hs hc
    exact ⟨he.trans htold, fun _ => hs.trans (hsel hl), fun _ => hc ▸ hch (.inl hl)⟩
  cases h with
  | ends hne => exact ⟨htold, nofun, by rintro (h | ⟨h, -⟩) <;> cases h⟩
  | opens hpc => exact ⟨htold, nofun, fun _ => rfl⟩
  | @prepares pc c hst hne hpc hc =>
    refine ⟨htold, fun hl => ?_, fun _ => hc (hch (.inr ⟨hst, hne⟩))⟩
    cases pc <;> cases hpc <;> cases hl
  | assigns hpc =>
    refine ⟨htold, fun _ => rfl, fun _ => hch (.inr ?_)⟩
    rw [hpc]
    exact ⟨rfl, nofun⟩
  | enters hpc he => exact hstay _ (by rw [hpc]; rfl) rfl rfl rfl
  | blocks hpc hw => exact hstay _ (by rw [hpc]; rfl) rfl rfl rfl
  | returns hpc => exact hstay _ (by rcases hpc with hpc | hpc <;> rw [hpc] <;> rfl) rfl rfl rfl
  | drains hpc hto => exact hstay _ (by rw [hpc]; rfl) rfl rfl rfl

theorem callerStep_inv {r r' : Race} (hr : r.Inv) (h : callerStep r = some r') : r'.Inv := by
  obtain ⟨s, c⟩ := r
  obtain ⟨htold, hsel, hch⟩ := hr
  dsimp only at htold hsel hch
  cases c with
  | check =>
    cases h
    refine ⟨htold.trans ?_, hsel, hch⟩
    dsimp only
    split <;> rfl
  | wakeup =>
    cases h
    exact ⟨htold, hsel, hch⟩
  | setExit =>
    cases h
    exact ⟨rfl, hsel, hch⟩
  | socket =>
    cases h
    refine ⟨htold.trans ?_, hsel, hch⟩
    dsimp only
    split <;> rfl
  | close =>
    cases h
    exact ⟨htold, hsel, fun _ => rfl⟩
  | done => cases h
  | nullPointer => cases h

theorem raceStep_inv (r : Race) (e : RaceEvent) (r' : Race) (hr : r.Inv) (h : raceStep r e = some r') : r'.Inv := by
  cases e with
  | listener io =>
    obtain ⟨t, ht, rfl⟩ := Option.map_eq_some_iff.1 h
    exact moves_inv hr (listenerStep_moves ht)
  | terminate => exact callerStep_inv hr h

/-! ## Runs in which no step comes too early -/

/-- Once the call has passed the wakeup, a thread at its `select` has a wakeup pending. -/
structure Race.Woken (r : Race) : Prop where
  pending : r.caller.passed = true → r.thread.pc = .select ∨ r.thread.pc = .blocked → r.thread.wakeup = true
  noThrow : r.caller ≠ .nullPointer

theorem Race.Woken.good {r : Race} (h : r.Woken) : r.Good := by
  refine ⟨h.noThrow, ?_⟩
  rintro ⟨hdone, hpc, hw⟩
  rw [h.pending (by rw [hdone]; rfl) (.inr hpc)] at hw
  cases hw

theorem listener_woken {s t : Server} {c : Caller} {io : Io} (hr : (⟨s, c⟩ : Race).Inv) (hw : (⟨s, c⟩ : Race).Woken)
    (htimely : Timely ⟨s, c⟩ (.listener io)) (h : listenerStep s io = some t) : (⟨t, c⟩ : Race).Woken := by
  refine ⟨fun hp hpc => ?_, hw.noThrow⟩
  have hpend := hw.pending hp
  dsimp only at hp hpc hpend ⊢
  cases listenerStep_moves h with
  | ends | opens | assigns | returns => rcases hpc with hpc | hpc <;> cases hpc
  | prepares hst hne hto hc => rcases hpc with rfl | rfl <;> cases hto
  | enters hat he =>
    -- the call is between the wakeup and the exit flag
    have hset : c = .setExit := Caller.eq_setExit hp (hr.told.symm.trans he)
    exact Bool.of_not_eq_false fun hf => htimely ⟨hat, hset, hf⟩
  | blocks hat hno =>
    rw [hpend (.inl hat)] at hno
    cases hno
  | drains hat hto => rcases hto with rfl | rfl <;> rcases hpc with hpc | hpc <;> cases hpc

theorem caller_woken {r r' : Race} (hr : r.Inv) (hw : r.Woken) (htimely : Timely r .terminate)
    (h : callerStep r = some r') : r'.Woken := by
  obtain ⟨s, c⟩ := r
  have hpend := hw.pending
  have hsel := hr.selector
  unfold Timely at htimely
  dsimp only at hpend hsel htimely
  cases c with
  | check =>
    cases h
    cases hs : s.selector with
    | true => exact ⟨nofun, nofun⟩
    | false =>
      -- without a selector the thread is not in `listen`
      refine ⟨fun _ hpc => ?_, nofun⟩
      have hl : s.pc.listens = true := by rcases hpc with hpc | hpc <;> (dsimp only at hpc; rw [hpc]; rfl)
      rw [hsel hl] at hs
      cases hs
  | wakeup =>
    cases h
    exact ⟨fun _ _ => rfl, nofun⟩
  | setExit =>
    cases h
    exact ⟨fun _ => hpend rfl, nofun⟩
  | socket =>
    cases h
    rw [if_pos (htimely rfl)]
    exact ⟨fun _ => hpend rfl, nofun⟩
  | close =>
    cases h
    exact ⟨fun _ => hpend rfl, nofun⟩
  | done => cases h
  | nullPointer => cases h

theorem raceStep_woken (r : Race) (e : RaceEvent) (r' : Race) (hr : r.Inv ∧ r.Woken) (ht : Timely r e)
    (h : raceStep r e = some r') : r'.Inv ∧ r'.Woken := by
  refine ⟨raceStep_inv r e r' hr.1 h, ?_⟩
  cases e with
  | listener io =>
    obtain ⟨t, ht', rfl⟩ := Option.map_eq_some_iff.1 h
    exact listener_woken hr.1 hr.2 ht ht'
  | terminate => exact caller_woken hr.1 hr.2 ht h

/-! ## Steps that come too early -/

/-- From a state in which a step would come too early, a run that begins with it goes wrong. -/
theorem not_timely_bad {r : Race} {e : RaceEvent} (hr : r.Inv) (h : ¬ Timely r e) :
    ∃ es r', run raceStep r (e :: es) = some r' ∧ ¬ r'.Good := by
  obtain ⟨s, c⟩ := r
  cases e with
  | terminate =>
    unfold Timely at h
    rw [Classical.not_imp] at h
    obtain ⟨rfl, hno⟩ := h
    refine ⟨[], ⟨s, .nullPointer⟩, run_singleton.2 ?_, fun hg => hg.1 rfl⟩
    show some _ = some _
    rw [if_neg hno]
  | listener io =>
    obtain ⟨hpc, rfl, hw⟩ := Classical.not_not.1 h
    -- the thread enters `select`, finds no key ready, and the call goes on to its end
    have hexit : s.isExit = false := hr.told
    have hch : s.server.isSome = true := hr.channel (.inl (by dsimp only at hpc; rw [hpc]; rfl))
    obtain ⟨port, pc, server, selector, wakeup, isExit⟩ := s
    cases hpc
    cases hw
    cases hexit
    obtain ⟨ch, rfl⟩ := Option.isSome_iff_exists.1 hch
    refine ⟨[.listener .more, .terminate, .terminate, .terminate], _, rfl, fun hg => ?_⟩
    exact hg.2 ⟨rfl, rfl, rfl⟩

/-- **When termination is not missed**: a run in which no step comes too early stays good, and after any run a step that
comes too early may lead to one that goes wrong. -/
theorem terminate_not_missed (port : Int) {es : List RaceEvent} {r : Race}
    (h : run raceStep (.started port) es = some r) :
    (Along Timely raceStep (.started port) es → Always Race.Good raceStep (.started port) es) ∧
      ∀ e, ¬ Timely r e → ∃ fs r', run raceStep r (e :: fs) = some r' ∧ ¬ r'.Good := by
  constructor
  · intro ht
    exact always_of_along raceStep_woken (fun _ hr => hr.2.good) ht ⟨started_inv port, nofun, nofun⟩
  · intro e he
    exact not_timely_bad (run_inv raceStep_inv h (started_inv port)) he

/-- The thread starts up, and with its drain makes use of the wakeup before it is told to exit. -/
def lostWakeup : List RaceEvent :=
  List.replicate 6 (RaceEvent.listener .done) ++
    [.terminate, .terminate,
      .listener .done, .listener .more, .listener .done, .listener .done, .listener .more,
      .terminate, .terminate, .terminate]

/-- The call is over and the thread waits for ever; and a call right after `start` finds no channel. -/
theorem termination_missed :
    (∃ r, run raceStep (.started 5188) lostWakeup = some r ∧ r.caller = .done ∧ r.thread.pc = .blocked ∧
      r.thread.wakeup = false ∧ ¬ r.Good) ∧
    ∃ r, run raceStep (.started 5188) [.terminate, .terminate, .terminate] = some r ∧ r.caller = .nullPointer ∧
      ¬ r.Good :=
  ⟨⟨_, rfl, rfl, rfl, rfl, fun h => h.2 ⟨rfl, rfl, rfl⟩⟩, ⟨_, rfl, rfl, fun h => h.1 rfl⟩⟩

theorem terminate_not_missed_early : ∃ r, run raceStep (.started 5188) [.terminate, .terminate] = some r ∧
    (Along Timely raceStep (.started 5188) [.terminate, .terminate] →
      Always Race.Good raceStep (.started 5188) [.terminate, .terminate]) ∧
    ∀ e, ¬ Timely r e → ∃ fs r', run raceStep r (e :: fs) = some r' ∧ ¬ r'.Good :=
  ⟨_, rfl, terminate_not_missed 5188 (show run raceStep (.started 5188) [.terminate, .terminate] = some _ from rfl)⟩

end OwonVds.Control
