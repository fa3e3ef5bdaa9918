import Mathlib.Data.List.Basic
import Mathlib.Tactic.SplitIfs
import OwonVds.Lib.Trans
import OwonVds.Wf.Channel

/-!
# The bulletin of the mark values

`MarkValueBulletin` is a small window that shows itself at the next update of its values. When it is turned off, the
mark cursor is turned off with it, and that causes updates; `muteUpdate` makes the window ignore two of them.

`MarkCursorControl` is not part of the repository: what the call of `turnOnMarkCursor` fires is a parameter. Whatever it
fires, a window that is turned off stays hidden as long as the updates from then on, those of the call and those after
it, are two at most, and the third shows it again (`turnedOff_visible_iff`).
-/

namespace OwonVds.Ui.Bulletin

open OwonVds.Trans
open OwonVds.Wf (wrap wrap_of_isInt)

/-- A notification, other than `TURN_ON_MARKBULLETIN`. -/
inductive Property
  | updateMarkbulletin | updateMarkbulletinBound | other
  deriving DecidableEq, Repr

/-- The mark cursor: whether it is on, and what turning it on or off makes of it and fires on the way. -/
structure MarkCursorControl (M : Type) where
  ison : M → Bool
  turnOnMarkCursor : Bool → M → M × List Property

structure MarkValueBulletin (M : Type) where
  muteUpdate : Int
  visible : Bool
  mcc : M
  deriving DecidableEq, Repr

variable {M : Type}

def MarkValueBulletin.new (m : M) : MarkValueBulletin M := ⟨0, true, m⟩

inductive Event
  | fired (p : Property)
  /-- `TURN_ON_MARKBULLETIN`. -/
  | turnOn (on : Bool)
  | mouseClicked (x y : Int)
  /-- The window is closed by the user, and disposed of. -/
  | closed
  deriving DecidableEq, Repr

def width : Int := 420

def height : Int := 55

/-- The branch of `propertyChange` for the property; `setBound` and `repaint` change nothing that is seen here. -/
def propertyChange (b : MarkValueBulletin M) : Property → MarkValueBulletin M
  | .updateMarkbulletin =>
    if b.visible then b
    else if b.muteUpdate = 0 then { b with visible := true }
    else { b with muteUpdate := wrap (b.muteUpdate - 1) }
  | .updateMarkbulletinBound | .other => b

variable (mc : MarkCursorControl M)

/-- The branch for `TURN_ON_MARKBULLETIN`. -/
def turnOn (b : MarkValueBulletin M) (on : Bool) : MarkValueBulletin M :=
  let r := mc.turnOnMarkCursor on b.mcc
  r.2.foldl propertyChange ⟨2, on, r.1⟩

/-- The click is on one of the two corners that turn the window off. -/
def onCorner (x y : Int) : Bool := (x > width - 18 && y < 15) || (x < 25 && y > height - 25)

def step (b : MarkValueBulletin M) : Event → MarkValueBulletin M
  | .fired p => propertyChange b p
  | .turnOn on => turnOn mc b on
  | .mouseClicked x y => if onCorner x y && mc.ison b.mcc then turnOn mc b false else b
  | .closed => { b with visible := false }

/-! ## Updates -/

/-- How many updates there are. -/
def updates (ps : List Property) : Nat := ps.count .updateMarkbulletin

/-- The count of updates to be ignored is 0, 1 or 2. -/
def InRange (b : MarkValueBulletin M) : Prop := 0 ≤ b.muteUpdate ∧ b.muteUpdate ≤ 2

variable {b : MarkValueBulletin M}

theorem inRange_two (on : Bool) (m : M) : InRange ⟨2, on, m⟩ := ⟨by show (0 : Int) ≤ 2; omega, Int.le_refl 2⟩

theorem inRange_propertyChange (hb : InRange b) (p : Property) : InRange (propertyChange b p) := by
  obtain ⟨h0, h2⟩ := hb
  cases p with
  | updateMarkbulletin =>
    unfold propertyChange
    split_ifs with hv hm
    · exact ⟨h0, h2⟩
    · exact ⟨h0, h2⟩
    · have hw : wrap (b.muteUpdate - 1) = b.muteUpdate - 1 := wrap_of_isInt ⟨by omega, by omega⟩
      exact ⟨by show 0 ≤ wrap _; omega, by show wrap _ ≤ 2; omega⟩
  | updateMarkbulletinBound => exact ⟨h0, h2⟩
  | other => exact ⟨h0, h2⟩

/-- **Updates**: the window is visible afterwards when it was, or when there were more of them than it ignores. -/
theorem foldl_propertyChange (hb : InRange b) (ps : List Property) :
    InRange (ps.foldl propertyChange b) ∧
      ((ps.foldl propertyChange b).visible = true ↔ b.visible = true ∨ b.muteUpdate < updates ps) := by
  induction ps generalizing b with
  | nil =>
    refine ⟨hb, ?_⟩
    have h0 := hb.1
    simp only [List.foldl_nil, updates, List.count_nil]
    constructor
    · exact .inl
    · rintro (h | h)
      · exact h
      · omega
  | cons p ps ih =>
    obtain ⟨hr, hv⟩ := ih (inRange_propertyChange hb p)
    refine ⟨hr, ?_⟩
    rw [List.foldl_cons, hv]
    have h0 := hb.1
    have h2 := hb.2
    cases p with
    | updateMarkbulletin =>
      have hc : updates (.updateMarkbulletin :: ps) = updates ps + 1 := List.count_cons_self
      rw [hc]
      unfold propertyChange
      split_ifs with hvis hm
      · simp [hvis]
      · simp only [true_or, true_iff]
        right
        omega
      · have hw : wrap (b.muteUpdate - 1) = b.muteUpdate - 1 := wrap_of_isInt ⟨by omega, by omega⟩
        simp only [hvis, Bool.false_eq_true, false_or, hw]
        omega
    | updateMarkbulletinBound =>
      have hc : updates (.updateMarkbulletinBound :: ps) = updates ps := List.count_cons_of_ne (by decide)
      rw [hc]
      exact Iff.rfl
    | other =>
      have hc : updates (.other :: ps) = updates ps := List.count_cons_of_ne (by decide)
      rw [hc]
      exact Iff.rfl

/-! ## Runs -/

/-- The event turns the window off. -/
def TurnsOff (b : MarkValueBulletin M) : Event → Prop
  | .turnOn on => on = false
  | .mouseClicked x y => onCorner x y = true ∧ mc.ison b.mcc = true
  | _ => False

theorem step_turnsOff {e : Event} (he : TurnsOff mc b e) : step mc b e = turnOn mc b false := by
  cases e with
  | fired p => exact he.elim
  | turnOn on => exact congrArg (turnOn mc b) he
  | mouseClicked x y =>
    show (if onCorner x y && mc.ison b.mcc then turnOn mc b false else b) = turnOn mc b false
    rw [he.1, he.2]
    rfl
  | closed => exact he.elim

/-- The properties that are fired. -/
def firedOf (es : List Event) : List Property :=
  es.filterMap fun
    | .fired p => some p
    | _ => none

/-- The event turns nothing on or off, and does not close the window. -/
def Quiet (b : MarkValueBulletin M) : Event → Prop
  | .fired _ => True
  | .mouseClicked x y => ¬ (onCorner x y = true ∧ mc.ison b.mcc = true)
  | _ => False

/-- Every event is a step. -/
def always (b : MarkValueBulletin M) (e : Event) : Option (MarkValueBulletin M) := some (step mc b e)

theorem foldl_quiet {es : List Event} {b : MarkValueBulletin M} (hes : Along (Quiet mc) (always mc) b es) :
    es.foldl (step mc) b = (firedOf es).foldl propertyChange b := by
  induction es generalizing b with
  | nil => rfl
  | cons e es ih =>
    obtain ⟨he, hrest⟩ := hes
    rw [List.foldl_cons, ih (hrest _ rfl)]
    cases e with
    | fired p => rfl
    | turnOn on => exact he.elim
    | mouseClicked x y =>
      have hno : ¬ (onCorner x y = true ∧ mc.ison b.mcc = true) := he
      have hstep : step mc b (.mouseClicked x y) = b := by
        show (if onCorner x y && mc.ison b.mcc then turnOn mc b false else b) = b
        rw [if_neg (by simpa using hno)]
      rw [hstep]
      rfl
    | closed => exact he.elim

/-- **A window that is turned off**, by the notification or by a click, at any time of any run: after later events that
turn nothing on or off, each in the state it comes in, and without a closing, it is visible if and only if the updates
that the call for the mark cursor has fired and those that came later are more than two. -/
theorem turnedOff_visible_iff (m : M) (es later : List Event) {off : Event}
    (hoff : TurnsOff mc (es.foldl (step mc) (.new m)) off)
    (hlater : Along (Quiet mc) (always mc) (step mc (es.foldl (step mc) (.new m)) off) later) :
    ((es ++ off :: later).foldl (step mc) (.new m)).visible = true ↔
      2 < updates (mc.turnOnMarkCursor false (es.foldl (step mc) (.new m)).mcc).2 + updates (firedOf later) := by
  rw [List.foldl_append, List.foldl_cons, foldl_quiet mc hlater, step_turnsOff mc hoff]
  unfold turnOn
  rw [← List.foldl_append, (foldl_propertyChange (inRange_two false _) _).2]
  simp only [Bool.false_eq_true, false_or, updates, List.count_append]
  omega

/-- A mark cursor that fires two updates when it is turned off. -/
def twoUpdates : MarkCursorControl Bool where
  ison := id
  turnOnMarkCursor on _ := (on, if on then [] else [.updateMarkbulletin, .updateMarkbulletinBound, .updateMarkbulletin])

/-- A click on the corner of the window that was turned off does nothing; the next update shows the window again. -/
theorem turnedOff_visible_iff_two :
    (([.turnOn true] ++ .mouseClicked 410 5 :: [.mouseClicked 410 5] : List Event).foldl (step twoUpdates)
      (.new false)).visible = false ∧
    (([.turnOn true] ++ .mouseClicked 410 5 :: [.mouseClicked 410 5, .fired .updateMarkbulletin] : List Event).foldl
      (step twoUpdates) (.new false)).visible = true := by
  have hoff : TurnsOff twoUpdates (([.turnOn true] : List Event).foldl (step twoUpdates) (.new false))
      (.mouseClicked 410 5) :=
    ⟨by decide, by decide⟩
  -- the cursor is off, so that the corner turns nothing off
  have hclick : Quiet twoUpdates
      (step twoUpdates (([.turnOn true] : List Event).foldl (step twoUpdates) (.new false)) (.mouseClicked 410 5))
        (.mouseClicked 410 5) := by
    show ¬ (_ ∧ _)
    decide
  have hnone := turnedOff_visible_iff twoUpdates false [.turnOn true] [.mouseClicked 410 5] hoff
    ⟨hclick, fun _ _ => trivial⟩
  have hone := turnedOff_visible_iff twoUpdates false [.turnOn true] [.mouseClicked 410 5, .fired .updateMarkbulletin]
    hoff ⟨hclick, fun _ _ => ⟨trivial, fun _ _ => trivial⟩⟩
  refine ⟨?_, hone.2 (by decide)⟩
  rw [Bool.eq_false_iff]
  exact fun h => absurd (hnone.1 h) (by decide)

end OwonVds.Ui.Bulletin
