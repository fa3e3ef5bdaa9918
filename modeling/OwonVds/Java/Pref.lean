import Mathlib.Logic.Basic

/-!
# The preference store

`Pref` is not part of the repository. All that is used of it is that a value persisted under a key is the one loaded
under it, and that the other keys keep theirs.
-/

namespace OwonVds.Java

/-- A preference store with contents `P`; a colour is its six hexadecimal digits. -/
structure PrefStore (P : Type) where
  loadInt : P → String → Int
  loadBoolean : P → String → Bool
  persistInt : P → String → Int → P
  persistBoolean : P → String → Bool → P
  persistRGB : P → String → String → P
  loadInt_persistInt : ∀ p k v, loadInt (persistInt p k v) k = v
  loadInt_persistInt_ne : ∀ p k v k', k' ≠ k → loadInt (persistInt p k v) k' = loadInt p k'
  loadBoolean_persistInt : ∀ p k v k', k' ≠ k → loadBoolean (persistInt p k v) k' = loadBoolean p k'
  loadBoolean_persistBoolean : ∀ p k b, loadBoolean (persistBoolean p k b) k = b
  loadBoolean_persistBoolean_ne : ∀ p k b k', k' ≠ k → loadBoolean (persistBoolean p k b) k' = loadBoolean p k'
  loadInt_persistBoolean : ∀ p k b k', k' ≠ k → loadInt (persistBoolean p k b) k' = loadInt p k'
  loadInt_persistRGB : ∀ p k c k', k' ≠ k → loadInt (persistRGB p k c) k' = loadInt p k'
  loadBoolean_persistRGB : ∀ p k c k', k' ≠ k → loadBoolean (persistRGB p k c) k' = loadBoolean p k'

attribute [simp] PrefStore.loadInt_persistInt PrefStore.loadInt_persistInt_ne PrefStore.loadBoolean_persistInt
  PrefStore.loadBoolean_persistBoolean PrefStore.loadBoolean_persistBoolean_ne PrefStore.loadInt_persistBoolean
  PrefStore.loadInt_persistRGB PrefStore.loadBoolean_persistRGB

/-- The contents of a store of maps: the numbers, the switches and the colours. -/
structure Properties where
  ints : String → Int
  booleans : String → Bool
  rgbs : String → String

def properties : PrefStore Properties where
  loadInt p := p.ints
  loadBoolean p := p.booleans
  persistInt p k v := { p with ints := fun k' => if k' = k then v else p.ints k' }
  persistBoolean p k b := { p with booleans := fun k' => if k' = k then b else p.booleans k' }
  persistRGB p k c := { p with rgbs := fun k' => if k' = k then c else p.rgbs k' }
  loadInt_persistInt _ _ _ := if_pos rfl
  loadInt_persistInt_ne _ _ _ _ h := if_neg h
  loadBoolean_persistInt _ _ _ _ _ := rfl
  loadBoolean_persistBoolean _ _ _ := if_pos rfl
  loadBoolean_persistBoolean_ne _ _ _ _ h := if_neg h
  loadInt_persistBoolean _ _ _ _ _ := rfl
  loadInt_persistRGB _ _ _ _ _ := rfl
  loadBoolean_persistRGB _ _ _ _ _ := rfl

end OwonVds.Java
