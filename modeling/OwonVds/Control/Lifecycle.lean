import OwonVds.Control.ServerControl

/-!
# The server over its lifetime

One `ServerControl` and the threads it has started: calls in any order, and between two calls any steps of any of the
threads (`lifeStep`). A call is one event here; within `terminateServer` a step of the thread decides nothing that it
would not decide before the call.

Three calls can make the fields disagree. A `startServer` on a usable port drops the reference to a server that runs; a
`startServer(int)` does not set `mPort`; and `setPort` and `getPort` use a reference that is null as long as no port was
usable. `Allowed` says of each call when it does none of this, and a run keeps the fields in agreement exactly if all of
its calls are allowed (`lifecycle_iff`).
-/

namespace OwonVds.Control

open OwonVds.Exec OwonVds.Java OwonVds.Trans
open EStateM (Result)

variable {P : Type}

inductive Call
  | startServer | startServerOn (port : Int) | setPort (port : Int) | getPort | destroyServer | persist
  deriving DecidableEq, Repr

def Call.usesPort : Call → Bool
  | .setPort _ | .getPort => true
  | _ => false

/-- A call that was made, and whether it threw. -/
structure Made where
  call : Call
  threw : Bool
  deriving DecidableEq, Repr

structure Life (P : Type) where
  ctr : ServerControl
  pref : P
  made : List Made

inductive LifeEvent
  | call (c : Call)
  /-- A step of the thread of the server referred to. -/
  | thread (io : Io)
  | abandoned (i : Nat) (io : Io)
  deriving DecidableEq, Repr

def Life.opened (store : PrefStore P) (p : P) : Life P := ⟨load store p, p, []⟩

def threw {ε σ α : Type} : Result ε σ α → Bool
  | .ok _ _ => false
  | .error _ _ => true

def Life.after {α : Type} (s : Life P) (c : Call) (r : Result Exception ServerControl α) : Life P :=
  { s with ctr := final r, made := s.made ++ [⟨c, threw r⟩] }

def perform (store : PrefStore P) (s : Life P) : Call → Life P
  | .startServer => s.after .startServer (startServer s.ctr)
  | .startServerOn port => s.after (.startServerOn port) (startServerOn port s.ctr)
  | .setPort port => s.after (.setPort port) (setPort port s.ctr)
  | .getPort => s.after .getPort (getPort s.ctr)
  | .destroyServer => s.after .destroyServer (destroyServer s.ctr)
  | .persist => { s with pref := persist store s.ctr s.pref, made := s.made ++ [⟨.persist, false⟩] }

def lifeStep (store : PrefStore P) (s : Life P) : LifeEvent → Option (Life P)
  | .call c => some (perform store s c)
  | .thread io => s.ctr.socketServer.bind fun server => (listenerStep server io).map fun t =>
      { s with ctr := { s.ctr with socketServer := some t } }
  | .abandoned i io => s.ctr.abandoned[i]?.bind fun server => (listenerStep server io).map fun t =>
      { s with ctr := { s.ctr with abandoned := s.ctr.abandoned.set i t } }

/-! ## The fields in agreement -/

/-- After a `startServer()`, a `setPort` or `getPort` has not thrown. -/
def NoNull (pre : List Made) (o : Made) : Prop :=
  (∃ m ∈ pre, m.call = .startServer) → o.call.usesPort = true → o.threw = false

structure Life.Good (store : PrefStore P) (s : Life P) : Prop where
  /-- No server runs but the one referred to. -/
  one : ∀ server ∈ s.ctr.abandoned, ¬ server.Running
  /-- What `getPort` returns is the server's port and the port that `persist` writes. -/
  port : ∀ server, s.ctr.socketServer = some server → getPort s.ctr = .ok server.mPort s.ctr ∧
    store.loadInt (persist store s.ctr s.pref) "ScpiPort" = server.mPort
  noNull : EachAfter NoNull s.made

/-- No server but the one referred to runs, and that one was started on `mPort`. -/
structure ServerControl.Agrees (c : ServerControl) : Prop where
  one : ∀ server ∈ c.abandoned, ¬ server.Running
  port : ∀ server, c.socketServer = some server → server.mPort = c.mPort

theorem good_iff {store : PrefStore P} {s : Life P} : s.Good store ↔ s.ctr.Agrees ∧ EachAfter NoNull s.made := by
  constructor
  · rintro ⟨hone, hport, hnull⟩
    refine ⟨⟨hone, fun server h => ?_⟩, hnull⟩
    rw [← (hport server h).2]
    exact store.loadInt_persistInt _ _ _
  · rintro ⟨⟨hone, hport⟩, hnull⟩
    refine ⟨hone, fun server h => ⟨getPort_some h, ?_⟩, hnull⟩
    rw [hport server h]
    exact store.loadInt_persistInt _ _ _

/-! ## When a call keeps the agreement -/

/-- The server referred to, if there is one, is not running. -/
def ServerControl.Idle (c : ServerControl) : Prop := ∀ server, c.socketServer = some server → ¬ server.Running

def Life.Started (s : Life P) : Prop := ∃ m ∈ s.made, m.call = .startServer

def Allowed (s : Life P) : LifeEvent → Prop
  | .call .startServer => usable s.ctr.mPort = true → s.ctr.Idle
  | .call (.startServerOn port) => usable port = true → port = s.ctr.mPort ∧ s.ctr.Idle
  | .call (.setPort port) => s.Started → ∃ server, s.ctr.socketServer = some server ∧
      (port = server.mPort ∨ usable port = false ∨ server.server.isSome = true)
  | .call .getPort => s.Started → s.ctr.socketServer.isSome = true
  | _ => True

variable {c : ServerControl} {server : Server} {port : Int}

theorem agrees_refer (hc : c.Agrees) : (c.refer (some (.started port))).Agrees ↔ port = c.mPort ∧ c.Idle := by
  constructor
  · rintro ⟨hone, hport⟩
    refine ⟨hport _ rfl, fun server h => hone server ?_⟩
    exact List.mem_append_right _ (by simp [h])
  · rintro ⟨rfl, hidle⟩
    refine ⟨fun server h => ?_, fun server h => ?_⟩
    · rcases List.mem_append.1 h with h | h
      · exact hc.one server h
      · exact hidle server (Option.mem_toList.1 h)
    · cases h
      rfl

theorem agrees_startServerOn (hc : c.Agrees) (port : Int) :
    (final (startServerOn port c)).Agrees ↔ (usable port = true → port = c.mPort ∧ c.Idle) := by
  rw [startServerOn_run]
  show (if usable port then c.refer (some (.started port)) else c).Agrees ↔ _
  split
  · rename_i hu
    rw [agrees_refer hc]
    exact ⟨fun h _ => h, fun h => h hu⟩
  · rename_i hu
    exact iff_of_true hc fun h => absurd h hu

theorem agrees_startServer (hc : c.Agrees) :
    (final (startServer c)).Agrees ↔ (usable c.mPort = true → c.Idle) := by
  show (final (startServerOn c.mPort c)).Agrees ↔ _
  rw [agrees_startServerOn hc]
  simp

/-- Telling the server to exit changes no port. -/
theorem agrees_terminated (hc : c.Agrees) (h : c.socketServer = some server) :
    ({ c with socketServer := some server.terminated } : ServerControl).Agrees := by
  refine ⟨hc.one, fun s hs => ?_⟩
  cases hs
  exact hc.port server h

theorem agrees_destroyServer (hc : c.Agrees) : (final (destroyServer c)).Agrees := by
  cases h : c.socketServer with
  | none =>
    rw [destroyServer_none h]
    exact hc
  | some server =>
    rw [destroyServer_some h]
    split <;> exact agrees_terminated hc h

theorem agrees_getPort (hc : c.Agrees) : (final (getPort c)).Agrees := by
  cases h : c.socketServer with
  | none =>
    rw [getPort_none h]
    exact hc
  | some server =>
    rw [getPort_some h]
    exact hc

theorem threw_getPort (c : ServerControl) : threw (getPort c) = false ↔ c.socketServer.isSome = true := by
  cases h : c.socketServer with
  | none => simp [getPort_none h, threw]
  | some server => simp [getPort_some h, threw]

/-- `setPort` leaves the fields in agreement, and throws without a server or, if it has to stop one, before its thread
has opened the channel. -/
theorem setPort_spec (hc : c.Agrees) (port : Int) : (final (setPort port c)).Agrees ∧
    (threw (setPort port c) = false ↔ ∃ server, c.socketServer = some server ∧
      (port = server.mPort ∨ usable port = false ∨ server.server.isSome = true)) := by
  cases h : c.socketServer with
  | none =>
    rw [setPort_none h]
    exact ⟨hc, iff_of_false (by simp [threw]) (by simp)⟩
  | some server =>
    by_cases hp : port = server.mPort ∨ usable port = false
    · rw [setPort_refused h hp]
      exact ⟨hc, iff_of_true rfl ⟨server, rfl, or_assoc.1 (.inl hp)⟩⟩
    · rw [not_or, Bool.not_eq_false] at hp
      obtain ⟨hne, hu⟩ := hp
      cases hch : server.server with
      | none =>
        rw [setPort_throws h hne hu hch]
        refine ⟨agrees_terminated hc h, iff_of_false (by simp [threw]) ?_⟩
        rintro ⟨s, hs, hp⟩
        cases hs
        rw [hu, hch] at hp
        simp [hne] at hp
      | some channel =>
        have hch' : server.server.isSome = true := by rw [hch]; rfl
        rw [setPort_done h hne hu hch']
        refine ⟨⟨fun s hs => ?_, fun s hs => ?_⟩, iff_of_true rfl ⟨server, rfl, .inr (.inr hch')⟩⟩
        · rcases List.mem_append.1 hs with hs | hs
          · exact hc.one s hs
          · rw [List.mem_singleton.1 hs]
            exact server.not_running_terminated
        · cases hs
          rfl

/-! ## Runs -/

variable {store : PrefStore P} {s : Life P}

theorem good_after {α : Type} {k : Call} {r : Result Exception ServerControl α} (hs : s.Good store) :
    (s.after k r).Good store ↔ (final r).Agrees ∧ NoNull s.made ⟨k, threw r⟩ := by
  rw [good_iff]
  show (final r).Agrees ∧ EachAfter NoNull (s.made ++ [_]) ↔ _
  rw [eachAfter_concat]
  exact and_congr_right fun _ => and_iff_right hs.noNull

/-- A call that uses no port leaves the history good. -/
theorem good_after_other {α : Type} {k : Call} {r : Result Exception ServerControl α} (hs : s.Good store)
    (hk : k.usesPort = false) : (s.after k r).Good store ↔ (final r).Agrees := by
  rw [good_after hs]
  refine and_iff_left fun _ hu => ?_
  rw [hk] at hu
  cases hu

theorem good_perform (hs : s.Good store) (k : Call) : (perform store s k).Good store ↔ Allowed s (.call k) := by
  have hc : s.ctr.Agrees := (good_iff.1 hs).1
  cases k with
  | startServer => exact (good_after_other hs rfl).trans (agrees_startServer hc)
  | startServerOn port => exact (good_after_other hs rfl).trans (agrees_startServerOn hc port)
  | setPort port =>
    obtain ⟨hagrees, hthrew⟩ := setPort_spec hc port
    refine (good_after hs).trans ((and_iff_right hagrees).trans ?_)
    exact ⟨fun h hst => hthrew.1 (h hst rfl), fun h hst _ => hthrew.2 (h hst)⟩
  | getPort =>
    refine (good_after hs).trans ((and_iff_right (agrees_getPort hc)).trans ?_)
    exact ⟨fun h hst => (threw_getPort s.ctr).1 (h hst rfl), fun h hst _ => (threw_getPort s.ctr).2 (h hst)⟩
  | destroyServer => exact iff_of_true ((good_after_other hs rfl).2 (agrees_destroyServer hc)) trivial
  | persist => exact iff_of_true (good_iff.2 ⟨hc, eachAfter_concat.2 ⟨hs.noNull, nofun⟩⟩) trivial

theorem lifeStep_good {s' : Life P} {e : LifeEvent} (hs : s.Good store) (h : lifeStep store s e = some s') :
    s'.Good store ↔ Allowed s e := by
  obtain ⟨hc, hnull⟩ := good_iff.1 hs
  cases e with
  | call k =>
    cases h
    exact good_perform hs k
  | thread io =>
    obtain ⟨server, hserver, h⟩ := Option.bind_eq_some_iff.1 h
    obtain ⟨t, ht, rfl⟩ := Option.map_eq_some_iff.1 h
    refine iff_of_true (good_iff.2 ⟨⟨hc.one, fun u hu => ?_⟩, hnull⟩) trivial
    cases hu
    exact (listenerStep_keeps ht).1.trans (hc.port server hserver)
  | abandoned i io =>
    obtain ⟨server, hserver, h⟩ := Option.bind_eq_some_iff.1 h
    obtain ⟨t, ht, rfl⟩ := Option.map_eq_some_iff.1 h
    refine iff_of_true (good_iff.2 ⟨⟨fun u hu => ?_, hc.port⟩, hnull⟩) trivial
    rcases List.mem_or_eq_of_mem_set hu with hu | rfl
    · exact hc.one u hu
    · exact fun hrun => hc.one server (List.mem_of_getElem? hserver) (listenerStep_running ht hrun)

theorem opened_good (store : PrefStore P) (p : P) : (Life.opened store p).Good store := by
  refine good_iff.2 ⟨⟨fun server h => ?_, fun server h => ?_⟩, eachAfter_nil _⟩
  · cases h
  · cases h

/-- **Exactly when the fields stay in agreement**: when each call of the run is allowed in the state it is made in. -/
theorem lifecycle_iff (store : PrefStore P) (p : P) {es : List LifeEvent} {s : Life P}
    (h : run (lifeStep store) (.opened store p) es = some s) :
    Always (Life.Good store) (lifeStep store) (.opened store p) es ↔
      Along Allowed (lifeStep store) (.opened store p) es :=
  always_iff_along (fun _ _ _ => lifeStep_good) h (opened_good store p)

/-- A store in which `ScpiPort` is the port. -/
def stored (port : Int) : Properties := ⟨fun _ => port, fun _ => false, fun _ => ""⟩

def startTwice : List LifeEvent := [.call .startServer, .call .startServer]

/-- A second server beside one that runs; a null reference after a start on port 0; and a port that is not saved. -/
theorem lifecycle_broken :
    (∃ s, run (lifeStep properties) (.opened properties (stored 5188)) startTwice = some s ∧
      s.ctr.abandoned = [.started 5188] ∧ ¬ s.Good properties) ∧
    (∃ s, run (lifeStep properties) (.opened properties (stored 0)) [.call .startServer, .call .getPort] = some s ∧
      s.made = [⟨.startServer, false⟩, ⟨.getPort, true⟩] ∧ ¬ s.Good properties) ∧
    ∃ s, run (lifeStep properties) (.opened properties (stored 5188)) [.call (.startServerOn 6000)] = some s ∧
      getPort s.ctr = .ok 6000 s.ctr ∧ properties.loadInt (persist properties s.ctr s.pref) "ScpiPort" = 5188 ∧
      ¬ s.Good properties := by
  refine ⟨⟨_, rfl, rfl, fun h => ?_⟩, ⟨_, rfl, rfl, fun h => ?_⟩, ⟨_, rfl, rfl, rfl, fun h => ?_⟩⟩
  · exact h.one (.started 5188) List.mem_cons_self ⟨nofun, rfl⟩
  · have hthrew := h.noNull [⟨.startServer, false⟩] ⟨.getPort, true⟩ [] rfl ⟨_, List.mem_cons_self, rfl⟩ rfl
    cases hthrew
  · have hport := (h.port (.started 6000) rfl).2
    exact absurd hport (by decide)

/-- The server is started, moved to another port once its channel is open, and stopped. -/
def startMoveStop : List LifeEvent :=
  [.call .startServer, .thread .done, .call (.setPort 6000), .call .getPort, .call .persist, .call .destroyServer]

theorem startMoveStop_allowed :
    Along Allowed (lifeStep properties) (.opened properties (stored 5188)) startMoveStop := by
  have hidle : (load properties (stored 5188)).Idle := nofun
  refine ⟨fun _ => hidle, fun s₁ h₁ => ⟨trivial, fun s₂ h₂ => ?_⟩⟩
  cases h₁
  cases h₂
  refine ⟨fun _ => ⟨_, rfl, .inr (.inr rfl)⟩, fun s₃ h₃ => ?_⟩
  cases h₃
  exact ⟨fun _ => rfl, fun _ _ => ⟨trivial, fun _ _ => ⟨trivial, fun _ _ => trivial⟩⟩⟩

theorem lifecycle_iff_moved :
    ∃ s, run (lifeStep properties) (.opened properties (stored 5188)) startMoveStop = some s ∧
      Always (Life.Good properties) (lifeStep properties) (.opened properties (stored 5188)) startMoveStop := by
  have h : ∃ s, run (lifeStep properties) (.opened properties (stored 5188)) startMoveStop = some s := ⟨_, rfl⟩
  obtain ⟨s, h⟩ := h
  exact ⟨s, h, (lifecycle_iff properties (stored 5188) h).2 startMoveStop_allowed⟩

end OwonVds.Control
