import Mathlib.Tactic.SplitIfs
import OwonVds.Lib.Exec

/-!
# A channel of the oscilloscope

`ChannelInfo` holds the settings of one channel, and submits every change to the device. An `int` is an integer, and
arithmetic that can overflow wraps (`wrap`). What is not part of the repository is a parameter (`Env`): the voltage
provider, and whether the data house is there. `WaveFormManager.setZeroYLoc` comes back to the channel's own `c_setZero`
some number of times, which is an argument of the operation.

`submitted` and `displacements` are not fields of the source: they record what was submitted for the channel, and what
the trigger code was told about its zero position.
-/

namespace OwonVds.Wf

/-- The value of an `int` after an overflow. -/
def wrap (n : Int) : Int := n.bmod (0x100000000)

/-- The values of an `int`. -/
def IsInt (n : Int) : Prop := -0x80000000 ≤ n ∧ n < 0x80000000

theorem wrap_of_isInt {n : Int} (h : IsInt n) : wrap n = n := by
  obtain ⟨h1, h2⟩ := h
  unfold wrap
  rw [Int.bmod_eq_of_le] <;> omega

/-- The voltage provider: the scales, the probe factors, and the half range of the zero position at a voltage. -/
structure VoltageProvider where
  voltageNumber : Nat
  probeMulties : List Int
  getVoltage : Nat → Nat → Int
  getPos0HalfRange : Int → Int
  multies_int : probeMulties.length < 0x80000000
  halfRange_int : ∀ v, IsInt (getPos0HalfRange v)

/-- A provider with three scales and four probe factors. -/
def threeScales : VoltageProvider where
  voltageNumber := 3
  probeMulties := [1, 10, 100, 1000]
  getVoltage _ i := [5, 10, 20].getD i 0
  getPos0HalfRange v := if v = 5 then 250 else 500
  multies_int := by decide
  halfRange_int v := by unfold IsInt; split <;> decide

structure Env where
  vp : VoltageProvider
  /-- `Platform.getDataHouse()` is not `null`. -/
  dataHouse : Bool

/-- The preference store. -/
structure Pref where
  loadInt : String → Int
  loadBoolean : String → Bool

inductive PChannel
  | onOff | coupling | vb | pos0 | bandLimit
  deriving DecidableEq, Repr

inductive JavaExn
  | arrayIndexOutOfBounds | arithmetic | nullPointer
  deriving DecidableEq, Repr

structure ChannelInfo where
  name : String
  on : Bool
  isMeasureCurrentOn : Bool
  probeMultiIdx : Int
  probeLabel : Option String
  couplingIdx : Int
  vbIdx : Int
  pos0 : Int
  pos0HalfRange : Int
  bandlimit : Bool
  inverse : Bool
  amperePerVolt : Int
  /-- The values submitted for this channel, in the order of the calls. -/
  submitted : List (PChannel × Int)
  /-- The displacements passed on, each with its `commit`. -/
  displacements : List (Int × Bool)
  deriving DecidableEq, Repr

/-- A new channel. -/
def ChannelInfo.new (number : Nat) : ChannelInfo where
  name := "CH" ++ toString (number + 1)
  on := false
  isMeasureCurrentOn := false
  probeMultiIdx := 0
  probeLabel := none
  couplingIdx := 0
  vbIdx := 0
  pos0 := 0
  pos0HalfRange := 0
  bandlimit := false
  inverse := false
  amperePerVolt := 0
  submitted := []
  displacements := []

abbrev Exec (α : Type) := EStateM JavaExn ChannelInfo α

/-! ## Accessors -/

def shouldForcebandlimit (vbIdx : Int) : Bool := vbIdx == 0

def ChannelInfo.isForcebandlimit (s : ChannelInfo) : Bool := shouldForcebandlimit s.vbIdx

def ChannelInfo.isBandlimit (s : ChannelInfo) : Bool := if s.isForcebandlimit then true else s.bandlimit

def COUPLING : List String := ["M.Channel.Coupling.DC", "M.Channel.Coupling.AC", "M.Channel.Coupling.Ground"]

/-- An access to an array of that length. -/
def index (length : Nat) (i : Int) : Option Nat := if 0 ≤ i ∧ i < length then some i.toNat else none

def getValidVotageChangeIndex (vp : VoltageProvider) (idx : Int) : Int :=
  if idx ≥ vp.voltageNumber then vp.voltageNumber - 1
  else if idx < 0 then 0
  else idx

def bit (b : Bool) : Int := if b then 1 else 0

/-! ## Operations -/

variable (env : Env)

/-- `sbm.c_chl(p, getNumber(), v)`, and what `d_chl_vb` and `d_chl_pos0` submit. -/
def submit (p : PChannel) (v : Int) : Exec Unit := modify fun s => { s with submitted := s.submitted ++ [(p, v)] }

def getProbeLabel (vp : VoltageProvider) (probeMultiIdx : Int) : Exec String :=
  match (index vp.probeMulties.length probeMultiIdx).bind fun i => vp.probeMulties[i]? with
  | some m => pure ("x" ++ toString m)
  | none => throw .arrayIndexOutOfBounds

def setProbeMultiIdx (probeMultiIdx : Int) : Exec Unit := do
  modify fun s => { s with probeMultiIdx := probeMultiIdx }
  let label ← getProbeLabel env.vp probeMultiIdx
  modify fun s => { s with probeLabel := some label }

def setNextProbeMultiIdx : Exec Unit := do
  let s ← get
  if env.vp.probeMulties.length = 0 then throw .arithmetic
  else setProbeMultiIdx env ((wrap (s.probeMultiIdx + 1)).tmod env.vp.probeMulties.length)

/-- The clamping of `c_setZero`. -/
def clampZero (hpr zero : Int) : Int := if zero < wrap (-hpr) then wrap (-hpr) else if zero > hpr then hpr else zero

def cSetZero (zero : Int) (commit : Bool) : Exec Unit := do
  let s ← get
  let zero := clampZero s.pos0HalfRange zero
  let dp := wrap (zero - s.pos0)
  modify fun s => { s with pos0 := zero, displacements := s.displacements ++ [(dp, commit)] }
  if commit then submit .pos0 zero else pure ()

/-- `wfm.setZeroYLoc(wf, z, true)`, which calls `c_setZero(z, true)` that many times. -/
def setZeroYLoc (z : Int) : Nat → Exec Unit
  | 0 => pure ()
  | n + 1 => do
    cSetZero z true
    setZeroYLoc z n

/-- `setVoltbaseIndex`; where it restricts the zero position, `setZeroYLoc` makes `calls` calls. -/
def setVoltbaseIndex (calls : Nat) (vbIdx : Int) (restricePos0 isfirstload : Bool) : Exec Unit := do
  modify fun s => { s with vbIdx := vbIdx }
  match index env.vp.voltageNumber vbIdx with
  | none => throw .arrayIndexOutOfBounds
  | some i => do
    modify fun s => { s with pos0HalfRange := env.vp.getPos0HalfRange (env.vp.getVoltage 0 i) }
    let s ← get
    if !restricePos0 || !env.dataHouse || isfirstload then pure () else setZeroYLoc s.pos0 calls

def cForceBandLimit (bw : Bool) : Exec Unit := submit .bandLimit (bit bw)

def cSetBandLimit (bl : Bool) : Exec Unit := do
  modify fun s => { s with bandlimit := bl }
  cForceBandLimit (← get).isBandlimit

/-- What `c_setVoltage` submits of the band limit. -/
def forceOnChange (vb0 vbidx : Int) : Exec Unit := do
  let s ← get
  if shouldForcebandlimit vbidx then cForceBandLimit true
  else if shouldForcebandlimit vb0 then cForceBandLimit s.isBandlimit
  else pure ()

/-- `c_setVoltage`, from the valid index on. -/
def changeVoltage (calls : Nat) (change : Int) : Exec Unit := do
  let vb0 := (← get).vbIdx
  setVoltbaseIndex env calls change true false
  forceOnChange vb0 change
  submit .vb (← get).vbIdx

def cSetVoltage (calls : Nat) (idx : Int) : Exec Unit :=
  let change := getValidVotageChangeIndex env.vp idx
  if change < 0 then pure () else changeVoltage env calls change

def cSetCoupling (coupling : Int) : Exec Unit := do
  modify fun s => { s with couplingIdx := coupling }
  submit .coupling (← get).couplingIdx

def cSetNextCoupling : Exec Unit := do
  let s ← get
  cSetCoupling ((wrap (s.couplingIdx + 1)).tmod COUPLING.length)

/-- What a channel that is on submits. -/
def syncOn (s : ChannelInfo) : Exec Unit := do
  submit .onOff 1
  submit .coupling s.couplingIdx
  submit .vb s.vbIdx
  submit .pos0 s.pos0
  submit .bandLimit (bit s.isBandlimit)

def cSyncChannel : Exec Unit := do
  let s ← get
  if s.on then syncOn s else submit .onOff 0

def cSetOn (on : Bool) : Exec Unit :=
  if env.dataHouse then do
    modify fun s => { s with on := on }
    cSyncChannel
  else throw .nullPointer

/-- The scale of the preferences, repaired. -/
def repairedVb (vp : VoltageProvider) (vb : Int) : Int := if vb < 0 ∨ vb ≥ vp.voltageNumber then 0 else vb

/-- `amperePerVolt` of the preferences, repaired. -/
def repairedAmpere (a : Int) : Int := if a = 0 then 10000 else a

def load (p : Pref) : Exec Unit := do
  let name := (← get).name
  let vb := repairedVb env.vp (p.loadInt (name ++ ".vbIdx"))
  modify fun s => { s with pos0 := p.loadInt (name ++ ".pos0") }
  setVoltbaseIndex env 0 vb true true
  modify fun s => { s with
    on := p.loadBoolean (name ++ ".on")
    isMeasureCurrentOn := p.loadBoolean (name ++ ".measureCurrentOn") }
  setProbeMultiIdx env (p.loadInt (name ++ ".probeMultiIdx"))
  modify fun s => { s with
    couplingIdx := p.loadInt (name ++ ".couplingIdx")
    bandlimit := p.loadBoolean (name ++ ".bandlimit")
    inverse := p.loadBoolean (name ++ ".inverse")
    amperePerVolt := repairedAmpere (p.loadInt (name ++ ".amperePerVolt")) }

/-! ## Sequences of operations -/

inductive Op
  | setOn (on : Bool)
  /-- `c_setVoltage`, in which `setZeroYLoc` makes `calls` calls of `c_setZero`. -/
  | setVoltage (idx : Int) (calls : Nat)
  | setBandLimit (bl : Bool)
  | setCoupling (coupling : Int)
  | setNextCoupling
  | setZero (zero : Int) (commit : Bool)
  | setNextProbeMultiIdx
  deriving DecidableEq, Repr

def perform : Op → Exec Unit
  | .setOn on => cSetOn env on
  | .setVoltage idx calls => cSetVoltage env calls idx
  | .setBandLimit bl => cSetBandLimit bl
  | .setCoupling coupling => cSetCoupling coupling
  | .setNextCoupling => cSetNextCoupling
  | .setZero zero commit => cSetZero zero commit
  | .setNextProbeMultiIdx => setNextProbeMultiIdx env

def performAll : List Op → Exec Unit
  | [] => pure ()
  | op :: ops => do
    perform env op
    performAll ops

end OwonVds.Wf
