import OwonVds.Socket.Steps

/-!
# Pending replies

A reply waits in the attachment of its client's key from the read step that made it to the write step that dispatches
it. The invariant `Paired` says for one client, whatever the others do: what was dispatched, then what is pending, is
what was made of the chunks read, and the pending reply is the one made last.
-/

namespace OwonVds.Socket

open Java

variable {κ δ : Type} {E : Env κ δ}

/-- The chunks read from a client, each with its translation. -/
def chunksOf (c : Nat) (h : List Obs) : List (Bytes × JString) :=
  h.filterMap fun
    | .chunk c' buf reply => if c' = c then some (buf, reply) else none
    | .answer .. => none

/-- The attachments dispatched by the write steps of a client. -/
def dispatchedTo (c : Nat) (h : List Obs) : List JString :=
  h.filterMap fun
    | .chunk .. => none
    | .answer c' cmd _ _ _ => if c' = c then some cmd else none

/-- The attachment of a client's key, if there is one. -/
def pendingOf (s : Server δ) (c : Nat) : List JString := ((s.keys c).bind Key.attachment).toList

/-- The translations that are not empty. -/
def nonEmpty (cs : List (Bytes × JString)) : List JString := (cs.map Prod.snd).filter (· ≠ [])

@[simp] theorem chunksOf_append (c : Nat) (h h' : List Obs) : chunksOf c (h ++ h') = chunksOf c h ++ chunksOf c h' := by
  simp [chunksOf]

@[simp] theorem dispatchedTo_append (c : Nat) (h h' : List Obs) :
    dispatchedTo c (h ++ h') = dispatchedTo c h ++ dispatchedTo c h' := by
  simp [dispatchedTo]

@[simp] theorem nonEmpty_append (cs cs' : List (Bytes × JString)) :
    nonEmpty (cs ++ cs') = nonEmpty cs ++ nonEmpty cs' := by
  simp [nonEmpty]

theorem pendingOf_some {s : Server δ} {c : Nat} {op : Op} {a : Option JString} (hk : s.keys c = some ⟨op, a⟩) :
    pendingOf s c = a.toList := by
  simp [pendingOf, hk]

theorem pendingOf_none {s : Server δ} {c : Nat} (hk : s.keys c = none) : pendingOf s c = [] := by
  simp [pendingOf, hk]

/-- The pairing of replies and chunks of one client. -/
structure Paired (c : Nat) (s : Server δ) : Prop where
  flow : dispatchedTo c s.history ++ pendingOf s c = nonEmpty (chunksOf c s.history)
  latest : ∀ reply, s.keys c = some ⟨.opWrite, some reply⟩ → ∃ buf, (chunksOf c s.history).getLast? = some (buf, reply)

/-- What changes neither the client's key nor what was read from it or sent to it keeps the pairing. -/
theorem Paired.frame {c : Nat} {s s' : Server δ} (hs : Paired c s) (hk : s'.keys c = s.keys c)
    (hc : chunksOf c s'.history = chunksOf c s.history) (hd : dispatchedTo c s'.history = dispatchedTo c s.history) :
    Paired c s' := by
  constructor
  · have hp : pendingOf s' c = pendingOf s c := by unfold pendingOf; rw [hk]
    rw [hd, hc, hp]
    exact hs.flow
  · intro reply h
    rw [hk] at h
    rw [hc]
    exact hs.latest reply h

/-- A change of a key that had nothing pending and has nothing pending. -/
theorem Paired.drop {c : Nat} {s s' : Server δ} (hs : Paired c s) (hp : pendingOf s c = []) (hp' : pendingOf s' c = [])
    (hh : s'.history = s.history) : Paired c s' := by
  constructor
  · rw [hp', hh, ← hp]
    exact hs.flow
  · intro reply h
    rw [pendingOf_some h] at hp'
    cases hp'

/-- A chunk of the client: its reply, if there is one, becomes pending. -/
theorem Paired.chunk {c : Nat} {s : Server δ} (hs : Paired c s) (hk : s.keys c = some ⟨.opRead, none⟩) (chunk : Bytes) :
    Paired c (s.afterChunk E c chunk) := by
  have hf := hs.flow
  rw [pendingOf_some hk, Option.toList_none, List.append_nil] at hf
  generalize hr : (chunkTranslation E s chunk).1 = reply
  have hd : dispatchedTo c (s.afterChunk E c chunk).history = dispatchedTo c s.history := by
    show dispatchedTo c (s.history ++ _) = _
    rw [dispatchedTo_append]
    exact List.append_nil _
  have hc : chunksOf c (s.afterChunk E c chunk).history = chunksOf c s.history ++ [(chunk, reply)] := by
    simp [Server.afterChunk, hr, chunksOf]
  by_cases hne : reply ≠ []
  · have hk' : (s.afterChunk E c chunk).keys c = some ⟨.opWrite, some reply⟩ := by
      simp [Server.afterChunk, hr, hne]
    constructor
    · rw [hd, hc, nonEmpty_append, pendingOf_some hk', hf]
      simp [nonEmpty, hne]
    · intro reply' h
      rw [hk'] at h
      cases h
      exact ⟨chunk, by rw [hc, List.getLast?_concat]⟩
  · have hk' : (s.afterChunk E c chunk).keys c = some ⟨.opRead, none⟩ := by
      simp [Server.afterChunk, hr, hne, hk]
    constructor
    · rw [hd, hc, nonEmpty_append, pendingOf_some hk', hf]
      simp [nonEmpty, hne]
    · intro reply' h
      rw [hk'] at h
      cases h

/-- An answer to the client: its pending reply is dispatched. -/
theorem Paired.answer {c : Nat} {s : Server δ} {reply : JString} (hs : Paired c s)
    (hk : s.keys c = some ⟨.opWrite, some reply⟩) (d : δ) (sent : Bytes) :
    Paired c (s.afterAnswer c (some reply) d sent) := by
  have hf := hs.flow
  rw [pendingOf_some hk] at hf
  have hk' : (s.afterAnswer c (some reply) d sent).keys c = some ⟨.opRead, none⟩ := by simp [Server.afterAnswer]
  have hd : dispatchedTo c (s.afterAnswer c (some reply) d sent).history = dispatchedTo c s.history ++ [reply] := by
    simp [Server.afterAnswer, dispatchedTo]
  have hc : chunksOf c (s.afterAnswer c (some reply) d sent).history = chunksOf c s.history := by
    simp [Server.afterAnswer, chunksOf]
  constructor
  · rw [hd, hc, pendingOf_some hk', ← hf]
    exact List.append_nil _
  · intro reply' h
    rw [hk'] at h
    cases h

theorem Moves.paired {c : Nat} {s s' : Server δ} {r : Ready} (h : Moves E s r s') (hw : s.Wf) (hs : Paired c s) :
    Paired c s' := by
  cases h with
  | @accept c₀ hk =>
    by_cases hc : c = c₀
    · subst hc
      exact hs.drop (pendingOf_none hk) (pendingOf_some (a := none) (Function.update_self ..)) rfl
    · exact hs.frame (Function.update_of_ne hc ..) rfl rfl
  | @chunk c₀ chunk a f hk hne hl =>
    by_cases hc : c = c₀
    · subst hc
      rw [hw.idle hk] at hk
      exact hs.chunk hk chunk
    · refine hs.frame ?_ ?_ ?_
      · dsimp only [Server.afterChunk]
        split
        · exact Function.update_of_ne hc ..
        · rfl
      · simp [Server.afterChunk, chunksOf, Ne.symm hc]
      · simp [Server.afterChunk, dispatchedTo]
  | @close c₀ r a hk hr =>
    by_cases hc : c = c₀
    · subst hc
      rw [hw.idle hk] at hk
      exact hs.drop (pendingOf_some hk) (pendingOf_none (Function.update_self ..)) rfl
    · exact hs.frame (Function.update_of_ne hc ..) rfl rfl
  | @answer c₀ schedule a hk d sent hstep =>
    by_cases hc : c = c₀
    · subst hc
      obtain ⟨reply, -, rfl⟩ := hw.pending hk
      exact hs.answer hk d sent
    · refine hs.frame (Function.update_of_ne hc ..) ?_ ?_
      · simp [Server.afterAnswer, chunksOf]
      · simp [Server.afterAnswer, dispatchedTo, Ne.symm hc]

theorem Fails.paired {c : Nat} {s s' : Server δ} {r : Ready} {e : Exn} (h : Fails E s r e s') (hw : s.Wf)
    (hs : Paired c s) : Paired c s' := by
  cases h with
  | accept hr => exact hs
  | @close c₀ r a hk hr =>
    by_cases hc : c = c₀
    · subst hc
      rw [hw.idle hk] at hk
      exact hs.drop (pendingOf_some hk) (pendingOf_none (Function.update_self ..)) rfl
    · exact hs.frame (Function.update_of_ne hc ..) rfl rfl
  | write hk d hstep => exact hs.frame rfl rfl rfl

theorem paired_step {c : Nat} {l l' : Listen δ} {e : Event} (hl : l.server.Wf ∧ Paired c l.server)
    (h : listenStep E l e = some l') : l'.server.Wf ∧ Paired c l'.server := by
  refine ⟨wf_step hl.1 h, ?_⟩
  obtain ⟨-, ⟨-, rfl⟩ | ⟨-, rfl⟩ | ⟨r, -, hm, -⟩ | ⟨r, x, -, hf, -⟩⟩ := listenStep_cases hl.1.buffer h
  · exact hl.2.frame rfl rfl rfl
  · split
    · exact hl.2.frame rfl rfl rfl
    · exact hl.2
  · exact hm.paired hl.1 hl.2
  · exact hf.paired hl.1 hl.2

/-! ## What the clients sent -/

/-- The chunk a step reads from the client, with its translation in the state of the step. -/
def readFrom (E : Env κ δ) (c : Nat) (l : Listen δ) : Event → List (Bytes × JString)
  | .ready (.readable c' (.bytes (b :: bs)) _) =>
    if c' = c then [(b :: bs, (translation E.factory (commandOf E.charset (b :: bs) (b :: bs).length)
      l.server.flags l.server.dev).1)] else []
  | _ => []

/-- The record of the chunks grows by what a step reads. -/
theorem chunksOf_step {c : Nat} {l l' : Listen δ} {e : Event} (hw : l.server.Wf) (h : listenStep E l e = some l') :
    chunksOf c l'.server.history = chunksOf c l.server.history ++ readFrom E c l e := by
  obtain ⟨-, ⟨rfl, rfl⟩ | ⟨rfl, rfl⟩ | ⟨r, rfl, hm, -⟩ | ⟨r, x, rfl, hf, -⟩⟩ := listenStep_cases hw.buffer h
  · simp [readFrom]
  · split <;> simp [readFrom]
  · generalize l'.server = s' at hm
    cases hm with
    | accept hk => simp [readFrom, Server.afterAccept]
    | @chunk c₀ chunk a f hk hne hl =>
      obtain ⟨b, bs, rfl⟩ := List.exists_cons_of_ne_nil hne
      simp only [Server.afterChunk, readFrom, chunksOf_append, chunkTranslation, commandOf, List.take_length]
      by_cases hc : c₀ = c
      · simp [hc, chunksOf]
      · simp [hc, chunksOf]
    | close hk hr =>
      rename_i r a
      cases r with
      | failed => simp [readFrom, Server.afterClose]
      | eof => simp [readFrom, Server.afterClose]
      | bytes chunk => simp [readFrom, Server.afterClose, hr chunk rfl]
    | answer hk d sent hstep => simp [readFrom, Server.afterAnswer, chunksOf]
  · generalize l'.server = s' at hf
    cases hf with
    | accept hr => simp [readFrom]
    | close hk hr =>
      rename_i r a
      cases r with
      | failed => simp [readFrom, Server.afterClose]
      | eof => simp [readFrom, Server.afterClose]
      | bytes chunk => simp [readFrom, Server.afterClose, hr chunk rfl]
    | write hk d hstep => simp [readFrom]

/-- **No pending reply is lost, duplicated or crossed.** After any run a client's key has interest in reading and no
attachment, or interest in writing and as attachment the translation, not empty, of the chunk read last from that
client; what was dispatched to it, then what is pending, is what its chunks were translated to. -/
theorem replies_in_order (E : Env κ δ) (d : δ) (es : List Event) (l : Listen δ) (c : Nat)
    (h : Trans.run (listenStep E) (.fresh d) es = some l) :
    (l.server.keys c = none ∨ l.server.keys c = some ⟨.opRead, none⟩ ∨
      ∃ buf reply, reply ≠ [] ∧ l.server.keys c = some ⟨.opWrite, some reply⟩ ∧
        (Trans.trace (readFrom E c) (listenStep E) (.fresh d) es).getLast? = some (buf, reply)) ∧
    dispatchedTo c l.server.history ++ pendingOf l.server c =
      nonEmpty (Trans.trace (readFrom E c) (listenStep E) (.fresh d) es) := by
  have hstart : (Server.fresh d).Wf ∧ Paired c (Server.fresh d) :=
    ⟨fresh_wf d, rfl, fun reply h => by cases h⟩
  obtain ⟨hw, hp⟩ := Trans.run_inv (I := fun l : Listen δ => l.server.Wf ∧ Paired c l.server)
    (fun _ _ _ hl h => paired_step hl h) h hstart
  have hread : chunksOf c l.server.history = Trans.trace (readFrom E c) (listenStep E) (.fresh d) es :=
    Trans.run_trace (I := fun l : Listen δ => l.server.Wf) (r := fun l => chunksOf c l.server.history)
      (fun _ _ _ hl h => wf_step hl h) (fun _ _ _ hl h => chunksOf_step hl h) h (fresh_wf d)
  rw [← hread]
  refine ⟨?_, hp.flow⟩
  cases hk : l.server.keys c with
  | none => exact .inl rfl
  | some k =>
    obtain rfl | ⟨reply, hr, rfl⟩ := hw.keys c k hk
    · exact .inr (.inl rfl)
    · obtain ⟨buf, hb⟩ := hp.latest reply hk
      exact .inr (.inr ⟨buf, reply, hr, rfl, hb⟩)

/-- Two clients. -/
def twoClients : List Event :=
  [.ready (.acceptable (.client 1 false)), .ready (.acceptable (.client 2 false)),
    .ready (.readable 1 (.bytes [0x41]) false), .ready (.readable 2 (.bytes [0x42]) false),
    .ready (.writable 2 [some 100])]

/-- The reply to client 2 was dispatched, the reply to client 1 is pending. -/
theorem replies_in_order_two : ∃ l, Trans.run (listenStep (bench true none [])) (.fresh ()) twoClients = some l ∧
    dispatchedTo 1 l.server.history ++ pendingOf l.server 1 = [lit "CAN NOT ANALYSE THE ORDER"] ∧
    dispatchedTo 2 l.server.history ++ pendingOf l.server 2 = [lit "CAN NOT ANALYSE THE ORDER"] := by
  obtain ⟨l, h⟩ := Option.isSome_iff_exists.1
    (by decide +kernel : (Trans.run (listenStep (bench true none [])) (.fresh ()) twoClients).isSome = true)
  refine ⟨l, h, ?_, ?_⟩
  · rw [(replies_in_order _ _ _ l 1 h).2]
    decide +kernel
  · rw [(replies_in_order _ _ _ l 2 h).2]
    decide +kernel

end OwonVds.Socket
