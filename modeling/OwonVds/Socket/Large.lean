import OwonVds.Socket.Batch

/-!
# Large-data answers among several clients

`onlargeTransmit` is a flag of the whole server, raised by a client's query and lowered by the next write step. It is up
only while some client has an answer pending (`LargePending`), so that a client that is alone with its request finds it
down (`large_of_run`). Events that neither bring a request nor answer one leave the flags and the pending answers as
they are (`quiet_run`).
-/

namespace OwonVds.Socket

open Java

variable {κ δ : Type} {E : Env κ δ}

/-- `onlargeTransmit` is raised only while an answer is pending. -/
def LargePending (s : Server δ) : Prop := s.flags.onlargeTransmit = true → ∃ c a, s.keys c = some ⟨.opWrite, a⟩

/-- Of two clients, one has an answer pending and the other has not. -/
theorem ne_of_pending {s : Server δ} {c c' : Nat} {a : Option JString} (hk : s.keys c = some ⟨.opWrite, a⟩)
    (hc : ∀ a, s.keys c' ≠ some ⟨.opWrite, a⟩) : c ≠ c' := by
  rintro rfl
  exact hc a hk

/-- A change of the key of a client with nothing pending leaves the answer that is pending. -/
theorem pending_update {s : Server δ} {c c' : Nat} {a : Option JString} (hk : s.keys c = some ⟨.opWrite, a⟩)
    (hc : ∀ a, s.keys c' ≠ some ⟨.opWrite, a⟩) (k : Option Key) :
    Function.update s.keys c' k c = some ⟨.opWrite, a⟩ :=
  (Function.update_of_ne (ne_of_pending hk hc) ..).trans hk

/-- A change of the key of a client with nothing pending. -/
theorem LargePending.other {s : Server δ} (hs : LargePending s) (hl : s.flags.onlargeTransmit = true) {c : Nat}
    (hc : ∀ a, s.keys c ≠ some ⟨.opWrite, a⟩) {keys : Nat → Option Key} (hk : ∀ c' ≠ c, keys c' = s.keys c') :
    ∃ c a, keys c = some ⟨.opWrite, a⟩ := by
  obtain ⟨c', a, hc'⟩ := hs hl
  exact ⟨c', a, (hk c' (ne_of_pending hc' hc)).trans hc'⟩

theorem Moves.largePending {s s' : Server δ} {r : Ready} (h : Moves E s r s') (hs : LargePending s) :
    LargePending s' := by
  cases h with
  | accept hk =>
    intro hl
    exact hs.other hl (by simp [hk]) fun c' hne => Function.update_of_ne hne ..
  | @chunk c chunk a f hk hne hl =>
    intro hlarge
    rw [afterChunk_flags, foldl_mark_large] at hlarge
    rcases hlarge with hlarge | hlarge
    · refine hs.other hlarge (not_writable hk) fun c' hne => ?_
      dsimp only [Server.afterChunk]
      split
      · exact Function.update_of_ne hne ..
      · rfl
    -- a binary line has a reply, so that the answer is pending
    · obtain ⟨line, hm, hkind⟩ := List.mem_map.1 hlarge
      have hr : (chunkTranslation E s chunk).1 ≠ [] := by
        rw [chunkTranslation_reply]
        exact reply_ne_nil hm (by rw [hkind]; decide) _
      exact ⟨c, some (chunkTranslation E s chunk).1, by simp [Server.afterChunk, hr]⟩
  | close hk hr =>
    intro hl
    exact hs.other hl (not_writable hk) fun c' hne => Function.update_of_ne hne ..
  | answer hk d sent hw =>
    intro hl
    rw [Server.afterAnswer, reset_large] at hl
    cases hl

theorem Fails.largePending {s s' : Server δ} {r : Ready} {e : Exn} (h : Fails E s r e s') (hs : LargePending s) :
    LargePending s' := by
  cases h with
  | accept hr => exact hs
  | close hk hr =>
    intro hl
    exact hs.other hl (not_writable hk) fun c' hne => Function.update_of_ne hne ..
  | write hk d hw => exact hs

theorem largePending_step {l l' : Listen δ} {e : Event} (hl : l.server.Wf ∧ LargePending l.server)
    (h : listenStep E l e = some l') : l'.server.Wf ∧ LargePending l'.server := by
  refine ⟨wf_step hl.1 h, ?_⟩
  obtain ⟨-, ⟨-, rfl⟩ | ⟨-, rfl⟩ | ⟨r, rfl, hm, -⟩ | ⟨r, x, rfl, hf, -⟩⟩ := listenStep_cases hl.1.buffer h
  · exact hl.2
  · split
    · exact hl.2
    · exact hl.2
  · exact hm.largePending hl.2
  · exact hf.largePending hl.2

/-- With nothing pending, a reachable server is not in the middle of a large-data answer. -/
theorem large_of_run {es : List Event} {d : δ} {l : Listen δ} (h : Trans.run (listenStep E) (.fresh d) es = some l)
    (hidle : ∀ c a, l.server.keys c ≠ some ⟨.opWrite, a⟩) :
    l.server.Wf ∧ l.server.flags.onlargeTransmit = false := by
  obtain ⟨hw, hl⟩ := Trans.run_inv (I := fun l => l.server.Wf ∧ LargePending l.server)
    (fun _ _ _ hl h => largePending_step hl h) h ⟨fresh_wf d, fun hl => by cases hl⟩
  refine ⟨hw, ?_⟩
  by_contra hne
  obtain ⟨c, a, hc⟩ := hl (by simpa using hne)
  exact hidle c a hc

/-- An event that neither brings a request nor answers one. -/
def Quiet : Event → Prop
  | .ready (.readable _ (.bytes _) _) => False
  | .ready (.writable _ _) => False
  | _ => True

/-- A quiet step changes neither the flags nor a pending answer. -/
theorem quiet_step {l l' : Listen δ} {e : Event} {c : Nat} {a : Option JString} (hw : l.server.Wf) (he : Quiet e)
    (hk : l.server.keys c = some ⟨.opWrite, a⟩) (h : listenStep E l e = some l') :
    l'.server.flags = l.server.flags ∧ l'.server.keys c = some ⟨.opWrite, a⟩ := by
  obtain ⟨-, ⟨-, rfl⟩ | ⟨-, rfl⟩ | ⟨r, rfl, hm, -⟩ | ⟨r, x, rfl, hf, -⟩⟩ := listenStep_cases hw.buffer h
  · exact ⟨rfl, hk⟩
  · split
    · exact ⟨rfl, hk⟩
    · exact ⟨rfl, hk⟩
  · generalize l'.server = s' at hm
    cases hm with
    | accept hk' => exact ⟨rfl, pending_update hk (by simp [hk']) _⟩
    | chunk hk' hne hl => exact he.elim
    | close hk' hr => exact ⟨rfl, pending_update hk (not_writable hk') _⟩
    | answer hk' d sent hstep => exact he.elim
  · generalize l'.server = s' at hf
    cases hf with
    | accept hr => exact ⟨rfl, hk⟩
    | close hk' hr => exact ⟨rfl, pending_update hk (not_writable hk') _⟩
    | write hk' d hstep => exact he.elim

theorem quiet_run {l l' : Listen δ} {es : List Event} {c : Nat} {a : Option JString} (hw : l.server.Wf)
    (hes : ∀ e ∈ es, Quiet e) (hk : l.server.keys c = some ⟨.opWrite, a⟩)
    (h : Trans.run (listenStep E) l es = some l') :
    l'.server.Wf ∧ l'.server.flags = l.server.flags ∧ l'.server.keys c = some ⟨.opWrite, a⟩ := by
  refine Trans.run_inv_along (I := fun m => m.server.Wf ∧ m.server.flags = l.server.flags ∧
    m.server.keys c = some ⟨.opWrite, a⟩) ?_ (Trans.along_of_forall l hes) h ⟨hw, rfl, hk⟩
  rintro m e m' ⟨hmw, hmf, hmk⟩ he hm
  obtain ⟨hf, hk'⟩ := quiet_step hmw he hmk hm
  exact ⟨wf_step hmw hm, hf.trans hmf, hk'⟩

end OwonVds.Socket
