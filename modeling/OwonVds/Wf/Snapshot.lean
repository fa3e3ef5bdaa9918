import OwonVds.Wf.Persist

/-!
# The deep-memory snapshot of a channel

`snapShot2ChannelDataInfo` assigns `pos0`, `vbIdx` and `probeMultiIdx` without naming an object, so it is the live
channel whose zero position becomes the one the waveform was loaded at (`snapShot_channel`); only the frequency goes to
the `DMDataInfo`. Three things depend on the zero position, and each shows the change: what `persist` writes
(`persist_snapShot_iff`), the level of an inverted channel (`level_snapShot_iff`), and the displacement that the next
`c_setZero` reports (`displacement_snapShot_iff`).
-/

namespace OwonVds.Wf

open OwonVds.Exec OwonVds.Java

variable {F : Type}

/-- A channel with its measured frequency, a number of type `F`. -/
structure LiveChannel (F : Type) extends ChannelInfo where
  freq : F

structure DMDataInfo (F : Type) where
  freq : F

structure WaveForm where
  getFirstLoadPos0 : Int

def snapShot2ChannelDataInfo (s : LiveChannel F) (cd : DMDataInfo F) (wf : WaveForm) : LiveChannel F × DMDataInfo F :=
  let s := { s with pos0 := wf.getFirstLoadPos0 }
  let s := { s with vbIdx := s.vbIdx }
  let s := { s with probeMultiIdx := s.probeMultiIdx }
  (s, { cd with freq := s.freq })

def getLevelFromPos0 (v pos0 : Int) : Int := wrap (pos0 - wrap (v - pos0))

def ChannelInfo.getLevelOnScreen (s : ChannelInfo) (v : Int) : Int :=
  if s.inverse then getLevelFromPos0 v s.pos0 else v

def ChannelInfo.getInverseValue (s : ChannelInfo) (v : Int) : Int :=
  if s.inverse then getLevelFromPos0 v s.pos0 else v

/-- The displacements that the trigger code is told of, up to a `c_setZero`. -/
def ChannelInfo.displacementsAfter (s : ChannelInfo) (zero : Int) (commit : Bool) : List (Int × Bool) :=
  (final (cSetZero zero commit s)).displacements

/-! ## What the snapshot does -/

variable (s : LiveChannel F) (cd : DMDataInfo F) (wf : WaveForm)

@[simp] theorem snapShot_channel :
    (snapShot2ChannelDataInfo s cd wf).1 =
      { s with toChannelInfo := { s.toChannelInfo with pos0 := wf.getFirstLoadPos0 } } := rfl

/-- A number that an `int` holds is the only one of its residue. -/
theorem wrap_eq_wrap_iff {m n : Int} : wrap m = wrap n ↔ (0x100000000 : Int) ∣ m - n := by
  unfold wrap
  simp only [Int.bmod_def]
  omega

theorem getLevelFromPos0_eq (v pos0 : Int) : getLevelFromPos0 v pos0 = wrap (2 * pos0 - v) := by
  unfold getLevelFromPos0
  rw [wrap_eq_wrap_iff]
  unfold wrap
  simp only [Int.bmod_def]
  omega

/-- The inversion at two zero positions is the same where they differ by a multiple of half the range of an `int`. -/
theorem getLevelFromPos0_eq_iff {v p q : Int} :
    getLevelFromPos0 v p = getLevelFromPos0 v q ↔ (0x80000000 : Int) ∣ p - q := by
  rw [getLevelFromPos0_eq, getLevelFromPos0_eq, wrap_eq_wrap_iff]
  omega

theorem displacementsAfter_eq (c : ChannelInfo) (zero : Int) (commit : Bool) :
    c.displacementsAfter zero commit =
      c.displacements ++ [(wrap (clampZero c.pos0HalfRange zero - c.pos0), commit)] := by
  unfold ChannelInfo.displacementsAfter
  rw [cSetZero_run]
  cases commit <;> rfl

/-! ## Where it shows -/

/-- What is persisted after the snapshot is the waveform's position and otherwise the channel. -/
theorem persist_snapShot_iff {P : Type} (store : PrefStore P) (rgb : String) (p : P) :
    (snapShot2ChannelDataInfo s cd wf).1.persist store rgb p = s.persist store rgb p ↔
      wf.getFirstLoadPos0 = s.pos0 := by
  constructor
  · intro h
    have hafter := (persist_stores store rgb (snapShot2ChannelDataInfo s cd wf).1.toChannelInfo p).pos0
    have hbefore := (persist_stores store rgb s.toChannelInfo p).pos0
    rw [h] at hafter
    exact hafter.symm.trans hbefore
  · intro h
    rw [snapShot_channel, h]

theorem inverse_snapShot_iff (v : Int) :
    (snapShot2ChannelDataInfo s cd wf).1.getInverseValue v = s.getInverseValue v ↔
      s.inverse = true → (0x80000000 : Int) ∣ wf.getFirstLoadPos0 - s.pos0 := by
  rw [snapShot_channel]
  unfold ChannelInfo.getInverseValue
  cases hi : s.inverse with
  | true => simp [getLevelFromPos0_eq_iff]
  | false => simp

theorem level_snapShot_iff (v : Int) :
    (snapShot2ChannelDataInfo s cd wf).1.getLevelOnScreen v = s.getLevelOnScreen v ↔
      s.inverse = true → (0x80000000 : Int) ∣ wf.getFirstLoadPos0 - s.pos0 :=
  inverse_snapShot_iff s cd wf v

/-- The next displacement starts from the waveform's position. -/
theorem displacement_snapShot_iff (zero : Int) (commit : Bool) :
    (snapShot2ChannelDataInfo s cd wf).1.displacementsAfter zero commit = s.displacementsAfter zero commit ↔
      (0x100000000 : Int) ∣ wf.getFirstLoadPos0 - s.pos0 := by
  rw [displacementsAfter_eq, displacementsAfter_eq]
  simp only [snapShot_channel, List.append_cancel_left_eq, List.cons.injEq, Prod.mk.injEq, and_true, wrap_eq_wrap_iff]
  omega

/-- The snapshot leaves the channel and what can be seen of it as it was. -/
structure Undisturbed (s t : LiveChannel F) : Prop where
  fields : t = s
  persist : ∀ {P : Type} (store : PrefStore P) (rgb : String) (p : P), t.persist store rgb p = s.persist store rgb p
  levelOnScreen : ∀ v, t.getLevelOnScreen v = s.getLevelOnScreen v
  inverseValue : ∀ v, t.getInverseValue v = s.getInverseValue v
  displacement : ∀ zero commit, t.displacementsAfter zero commit = s.displacementsAfter zero commit

/-- **When the snapshot leaves the channel alone**: when the waveform was loaded at the channel's zero position. -/
theorem snapShot_undisturbed_iff :
    Undisturbed s (snapShot2ChannelDataInfo s cd wf).1 ↔ wf.getFirstLoadPos0 = s.pos0 := by
  constructor
  · intro h
    exact (persist_snapShot_iff s cd wf properties "" ⟨fun _ => 0, fun _ => false, fun _ => ""⟩).1
      (h.persist properties "" _)
  · intro h
    have hfields : (snapShot2ChannelDataInfo s cd wf).1 = s := by
      rw [snapShot_channel, h]
    constructor
    · exact hfields
    · intro P store rgb p
      exact (persist_snapShot_iff s cd wf store rgb p).2 h
    · intro v
      exact (level_snapShot_iff s cd wf v).2 fun _ => by omega
    · intro v
      exact (inverse_snapShot_iff s cd wf v).2 fun _ => by omega
    · intro zero commit
      exact (displacement_snapShot_iff s cd wf zero commit).2 (by omega)

/-- Each of the three, at an inverted channel that was moved since the waveform was loaded. -/
theorem snapShot_disturbs :
    ¬ Undisturbed (F := Nat) ⟨{ ChannelInfo.new 0 with pos0 := 100, pos0HalfRange := 250, inverse := true }, 1000⟩
      (snapShot2ChannelDataInfo ⟨{ ChannelInfo.new 0 with pos0 := 100, pos0HalfRange := 250, inverse := true }, 1000⟩
        ⟨0⟩ ⟨-50⟩).1 := by
  intro h
  have hlevel := h.levelOnScreen 0
  revert hlevel
  decide

end OwonVds.Wf
