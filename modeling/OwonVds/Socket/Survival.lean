import OwonVds.Socket.Steps

/-!
# What ends the loop

Only `client.read` is guarded in `process`, and the writes of a remote transfer in `remoteDmTransmit`; any other
failure of a client's channel ends the loop for every client. So do two requests: a deep-memory transfer to the
instrument's own disk dispatched with fewer characters than `*LDM?` has, and a remote one of a file whose length is
negative as an `int` (`refuses`).

`Honest` programs throw when a write throws, and only then. The steps after which the loop goes on are the `Benign`
ones, so the loop survives until `terminateServer` if and only if every step is benign (`survives_iff`).
-/

namespace OwonVds.Socket

open Java

variable {κ δ : Type} {E : Env κ δ}

/-! ## Honest programs -/

/-- A program that throws when one of its writes does, at once, and for no other reason. -/
structure Honest {α : Type} (m : Exec (Sending δ) α) : Prop where
  ok : ∀ {s a t}, m s = .ok a t → ∃ used, s.channel.schedule = used ++ t.channel.schedule ∧ none ∉ used
  thrown : ∀ {s e t}, m s = .error (.thrown e) t →
    e = .ioException ∧ ∃ used, s.channel.schedule = used ++ none :: t.channel.schedule ∧ none ∉ used

theorem honest_write (block : Bytes) : Honest (write block : Exec (Sending δ) Nat) where
  ok h := by
    obtain ⟨k, hs, -⟩ := write_ok h
    exact ⟨[some k], hs, by simp⟩
  thrown h := by
    obtain ⟨he, hs⟩ := write_error h
    exact ⟨he, [], hs, by simp⟩

theorem honest_pure {α : Type} (a : α) : Honest (pure a : Exec (Sending δ) α) where
  ok h := by
    cases h
    exact ⟨[], rfl, by simp⟩
  thrown h := by cases h

theorem honest_get : Honest (get : Exec (Sending δ) (Sending δ)) where
  ok h := by
    cases h
    exact ⟨[], rfl, by simp⟩
  thrown h := by cases h

theorem honest_device {α : Type} (f : δ → α × δ) : Honest (device f) where
  ok h := by
    cases h
    exact ⟨[], rfl, by simp⟩
  thrown h := by cases h

theorem honest_act (a : Act) : Honest (act a : Exec (Sending δ) Unit) where
  ok h := by
    cases h
    exact ⟨[], rfl, by simp⟩
  thrown h := by cases h

theorem honest_blocked {α : Type} : Honest (throw .blocked : Exec (Sending δ) α) where
  ok h := by cases h
  thrown h := by cases h

theorem honest_bind {α β : Type} {m : Exec (Sending δ) α} {k : α → Exec (Sending δ) β} (hm : Honest m)
    (hk : ∀ a, Honest (k a)) : Honest (m >>= k) where
  ok h := by
    obtain ⟨a, u, h1, h2⟩ := Exec.ok_bind.1 h
    obtain ⟨used, hs, hn⟩ := hm.ok h1
    obtain ⟨used', hs', hn'⟩ := (hk a).ok h2
    refine ⟨used ++ used', by rw [hs, hs', List.append_assoc], ?_⟩
    simp [hn, hn']
  thrown h := by
    rcases Exec.error_bind.1 h with h1 | ⟨a, u, h1, h2⟩
    · exact hm.thrown h1
    · obtain ⟨used, hs, hn⟩ := hm.ok h1
      obtain ⟨he, used', hs', hn'⟩ := (hk a).thrown h2
      refine ⟨he, used ++ used', by rw [hs, hs', List.append_assoc], ?_⟩
      simp [hn, hn']

theorem honest_payloadLoop (buf : Bytes) : ∀ n p bl : Nat, Honest (payloadLoop buf n p bl : Exec (Sending δ) Unit) := by
  intro n
  induction n with
  | zero => intro p bl; exact honest_blocked
  | succ n ih =>
    intro p bl
    unfold payloadLoop
    split
    · rename_i hp
      dsimp only
      rw [wrap_clamped buf p bl hp]
      exact honest_bind (honest_write _) fun wn => ih _ _
    · exact honest_pure _

theorem honest_remainLoop : ∀ (n : Nat) (buf : Bytes), Honest (remainLoop n buf : Exec (Sending δ) Unit) := by
  intro n
  induction n with
  | zero => intro buf; exact honest_blocked
  | succ n ih =>
    intro buf
    unfold remainLoop
    split
    · exact honest_bind (honest_write _) fun wn => ih _
    · exact honest_pure _

theorem honest_writeLargeData (cmd : JString) : Honest (writeLargeData E cmd) := by
  unfold writeLargeData
  refine honest_bind (honest_act _) fun _ => honest_bind (honest_device _) fun data =>
    honest_bind (honest_write _) fun _ => ?_
  cases data with
  | none => exact honest_bind (honest_write _) fun _ => honest_pure _
  | some buf => exact honest_bind (honest_write _) fun _ => honest_bind (honest_write _) fun _ =>
      honest_bind honest_get fun _ => honest_payloadLoop _ _ _ _

theorem honest_writeEach (ps : List JString) : Honest (writeEach E ps) := by
  induction ps with
  | nil => exact honest_pure _
  | cons p ps ih =>
    unfold writeEach
    exact honest_bind (honest_writeLargeData p) fun _ => ih

theorem honest_sendFrame (buf : Bytes) : Honest (sendFrame E buf) := by
  unfold sendFrame
  exact honest_bind (honest_write _) fun _ => honest_bind (honest_write _) fun _ =>
    honest_bind (honest_write _) fun _ => honest_bind honest_get fun _ =>
    honest_bind (honest_remainLoop _ _) fun _ => honest_pure _

/-- The schedule of an honest program that used all of it. -/
theorem Honest.last {α : Type} {m : Exec (Sending δ) α} (hm : Honest m) {s : Sending δ} :
    (∀ {a t}, m s = .ok a t → t.channel.schedule = [] → s.channel.schedule.getLast? ≠ some none) ∧
      ∀ {e t}, m s = .error (.thrown e) t → t.channel.schedule = [] → s.channel.schedule.getLast? = some none := by
  constructor
  · intro a t h ht hl
    obtain ⟨used, hs, hn⟩ := hm.ok h
    rw [hs, ht, List.append_nil] at hl
    exact hn (List.mem_of_getLast? hl)
  · intro e t h ht
    obtain ⟨-, used, hs, -⟩ := hm.thrown h
    rw [hs, ht, List.getLast?_concat]

/-! ## Deep memory -/

/-- The transfer itself throws: the attachment is too short, or the length of the file is negative. -/
def dmThrows (P : Platform δ) (remote : Bool) (cmd : Option JString) (d : δ) : Bool :=
  if remote then
    (P.copyToTemp d).1 && P.tempExists (P.copyToTemp d).2 &&
      decide (((P.tempContent (P.copyToTemp d).2).length : Int).bmod (0x100000000) < 0)
  else (cmd.map fun cmd => decide ((removeSemicolons cmd).length < (lit "*LDM?").length)).getD true

theorem localDmTransmit_ok {cmd : Option JString} {s t : Sending δ} {r : JString}
    (h : localDmTransmit E cmd s = .ok r t) : dmThrows E.platform false cmd s.dev = false ∧
      t.channel.schedule = s.channel.schedule := by
  unfold localDmTransmit at h
  cases cmd with
  | none => cases h
  | some cmd =>
    dsimp only at h
    cases hrest : substring (removeSemicolons cmd) (lit "*LDM?").length with
    | none =>
      rw [hrest] at h
      cases h
    | some rest =>
      rw [hrest] at h
      have hle : ¬ (removeSemicolons cmd).length < (lit "*LDM?").length := by
        rw [← substring_eq_none, hrest]
        simp
      dsimp only at h
      rw [Exec.get_bind, Exec.get_bind] at h
      refine ⟨by simpa [dmThrows] using hle, ?_⟩
      split at h
      · rw [device_bind] at h
        cases h
        rfl
      · cases h
        rfl

theorem localDmTransmit_thrown {cmd : Option JString} {s t : Sending δ} {e : Exn}
    (h : localDmTransmit E cmd s = .error (.thrown e) t) : dmThrows E.platform false cmd s.dev = true := by
  unfold localDmTransmit at h
  cases cmd with
  | none => rfl
  | some cmd =>
    dsimp only at h
    cases hrest : substring (removeSemicolons cmd) (lit "*LDM?").length with
    | none => simpa [dmThrows] using substring_eq_none.1 hrest
    | some rest =>
      rw [hrest] at h
      dsimp only at h
      rw [Exec.get_bind, Exec.get_bind] at h
      split at h
      · rw [device_bind] at h
        cases h
      · cases h

/-- A remote transfer survives the failures of its writes. -/
theorem remoteDmTransmit_ok {cmd : Option JString} {s t : Sending δ} {r : JString}
    (h : remoteDmTransmit E s = .ok r t) : dmThrows E.platform true cmd s.dev = false ∧
      ∃ used, s.channel.schedule = used ++ t.channel.schedule := by
  unfold remoteDmTransmit at h
  rw [device_bind] at h
  split at h
  · rename_i hb
    rw [Exec.get_bind] at h
    split at h
    · rename_i he
      dsimp only at h
      split at h
      · cases h
      · rename_i hn
        refine ⟨by simpa [dmThrows, hb, he] using hn, ?_⟩
        rw [Exec.tryCatch_run] at h
        split at h
        · rename_i a u hf
          cases h
          obtain ⟨used, hs, -⟩ := (honest_sendFrame _).ok hf
          exact ⟨used, hs⟩
        · rename_i x u hf
          split at h
          · cases h
            obtain ⟨-, used, hs, -⟩ := (honest_sendFrame _).thrown hf
            exact ⟨used ++ [none], by simpa using hs⟩
          · cases h
    · rename_i he
      cases h
      exact ⟨by simp [dmThrows, he], [], rfl⟩
  · rename_i hb
    cases h
    exact ⟨by simp [dmThrows, hb], [], rfl⟩

theorem remoteDmTransmit_thrown {cmd : Option JString} {s t : Sending δ} {e : Exn}
    (h : remoteDmTransmit E s = .error (.thrown e) t) : dmThrows E.platform true cmd s.dev = true := by
  unfold remoteDmTransmit at h
  rw [device_bind] at h
  split at h
  · rename_i hb
    rw [Exec.get_bind] at h
    split at h
    · rename_i he
      dsimp only at h
      split at h
      · rename_i hn
        simpa [dmThrows, hb, he] using hn
      · rw [Exec.tryCatch_run] at h
        split at h
        · cases h
        · rename_i x u hf
          split at h
          · cases h
          · rename_i hx
            cases h
            obtain ⟨rfl, -⟩ := (honest_sendFrame _).thrown hf
            exact absurd rfl hx
    · cases h
  · cases h

/-- The instrument when the transfer begins, if it is online. -/
def transferDev (P : Platform δ) (d : δ) : Option δ :=
  let d := if P.isRuntime d then P.statusStop d else d
  if P.isRTWhenLoad d && P.isConnected d then some (P.persistDmData d) else none

theorem dmResponse_ok {remote : Bool} {cmd : Option JString} {s t : Sending δ} {r : JString}
    (h : dmResponse E remote cmd s = .ok r t) : dmThrows E.platform remote cmd s.dev = false ∧
      ∃ used, s.channel.schedule = used ++ t.channel.schedule := by
  unfold dmResponse at h
  cases remote with
  | true => exact remoteDmTransmit_ok h
  | false =>
    obtain ⟨h1, h2⟩ := localDmTransmit_ok h
    exact ⟨h1, [], h2.symm⟩

theorem dmResponse_thrown {remote : Bool} {cmd : Option JString} {s t : Sending δ} {e : Exn}
    (h : dmResponse E remote cmd s = .error (.thrown e) t) : dmThrows E.platform remote cmd s.dev = true := by
  unfold dmResponse at h
  cases remote with
  | true => exact remoteDmTransmit_thrown h
  | false => exact localDmTransmit_thrown h

/-- `writeDMData` throws for its transfer. -/
def refusesDm (P : Platform δ) (remote : Bool) (cmd : Option JString) (d : δ) : Bool :=
  (transferDev P d).any (dmThrows P remote cmd)

/-- A file shorter than `2^31` bytes can be sent. -/
theorem dmThrows_remote {P : Platform δ} {cmd : Option JString}
    (hfile : ∀ d, (P.tempContent d).length < 0x80000000) (d : δ) : dmThrows P true cmd d = false := by
  have hlen := hfile (P.copyToTemp d).2
  have hpos : ¬ ((P.tempContent (P.copyToTemp d).2).length : Int).bmod (0x100000000) < 0 := by
    rw [Int.bmod_eq_of_le (by omega) (by omega)]
    omega
  simp only [dmThrows, if_true, hpos, decide_false, Bool.and_false]

/-- A command with the characters of `*LDM?` has a path. -/
theorem dmThrows_local {P : Platform δ} {cmd : JString}
    (hc : (lit "*LDM?").length ≤ (removeSemicolons cmd).length) (d : δ) : dmThrows P false (some cmd) d = false := by
  simpa [dmThrows] using hc

theorem refusesDm_of {P : Platform δ} {remote : Bool} {cmd : Option JString} (h : ∀ d, dmThrows P remote cmd d = false)
    (d : δ) : refusesDm P remote cmd d = false := by
  unfold refusesDm
  cases transferDev P d with
  | none => rfl
  | some d => exact h d

/-- A last write that ends the schedule, after programs that used a part of it, took what it took. -/
theorem lastWrite_ok {block : Bytes} {s u t : Sending δ}
    (h : (do let _ ← write block : Exec (Sending δ) Unit) u = .ok () t)
    (hused : ∃ used, s.channel.schedule = used ++ u.channel.schedule) (ht : t.channel.schedule = []) :
    s.channel.schedule.getLast? ≠ some none := by
  obtain ⟨used, hs⟩ := hused
  obtain ⟨n, v, hw, h⟩ := Exec.ok_bind.1 h
  cases h
  obtain ⟨k, hk, -⟩ := write_ok hw
  rw [hs, hk, ht, List.getLast?_concat]
  simp

theorem lastWrite_thrown {block : Bytes} {s u t : Sending δ} {e : Exn}
    (h : (do let _ ← write block : Exec (Sending δ) Unit) u = .error (.thrown e) t)
    (hused : ∃ used, s.channel.schedule = used ++ u.channel.schedule) (ht : t.channel.schedule = []) :
    s.channel.schedule.getLast? = some none := by
  obtain ⟨used, hs⟩ := hused
  rcases Exec.error_bind.1 h with hw | ⟨n, v, -, h⟩
  · obtain ⟨-, hk⟩ := write_error hw
    rw [hs, hk, ht, List.getLast?_concat]
  · cases h

theorem writeDmData_last {remote : Bool} {cmd : Option JString} {s : Sending δ} :
    (∀ {t}, writeDmData E remote cmd s = .ok () t → t.channel.schedule = [] →
      s.channel.schedule.getLast? ≠ some none ∧ refusesDm E.platform remote cmd s.dev = false) ∧
    ∀ {e t}, writeDmData E remote cmd s = .error (.thrown e) t → t.channel.schedule = [] →
      s.channel.schedule.getLast? = some none ∨ refusesDm E.platform remote cmd s.dev = true := by
  constructor
  · intro t h ht
    unfold writeDmData at h
    rw [act_bind] at h
    obtain ⟨_, u, hd, h⟩ := Exec.ok_bind.1 h
    cases hd
    rw [Exec.get_bind] at h
    split at h
    · rename_i hon
      rw [device_bind] at h
      obtain ⟨rsp, u, hr, h⟩ := Exec.ok_bind.1 h
      obtain ⟨hno, hused⟩ := dmResponse_ok hr
      refine ⟨lastWrite_ok h hused ht, ?_⟩
      unfold refusesDm transferDev
      dsimp only at hon hno ⊢
      rw [if_pos hon]
      exact hno
    · rename_i hoff
      refine ⟨lastWrite_ok h ⟨[], rfl⟩ ht, ?_⟩
      unfold refusesDm transferDev
      dsimp only at hoff ⊢
      rw [if_neg hoff]
      rfl
  · intro e t h ht
    unfold writeDmData at h
    rw [act_bind] at h
    rcases Exec.error_bind.1 h with h | ⟨_, u, hd, h⟩
    · cases h
    cases hd
    rw [Exec.get_bind] at h
    split at h
    · rename_i hon
      rw [device_bind] at h
      rcases Exec.error_bind.1 h with h | ⟨rsp, u, hr, h⟩
      · refine .inr ?_
        have hno := dmResponse_thrown h
        unfold refusesDm transferDev
        dsimp only at hon hno ⊢
        rw [if_pos hon]
        exact hno
      · exact .inl (lastWrite_thrown h (dmResponse_ok hr).2 ht)
    · exact .inl (lastWrite_thrown h ⟨[], rfl⟩ ht)

/-! ## Write steps -/

/-- The answer to the client's attachment is a deep-memory transfer that throws. -/
def refuses (E : Env κ δ) (s : Server δ) (c : Nat) : Bool :=
  !s.flags.onlargeTransmit && s.flags.onDmTransmit &&
    refusesDm E.platform s.flags.isRemoteTransmit ((s.keys c).bind Key.attachment) s.dev

/-- A write step that ends has used its schedule: what is known of the program at the end of its schedule is known of
the last entry. -/
theorem sending_last {m : Exec (Sending δ) Unit} {refused : Bool} (schedule : List (Option Nat)) (s : Server δ)
    (hok : ∀ {t}, m ⟨⟨schedule, []⟩, s.dev, []⟩ = .ok () t → t.channel.schedule = [] →
      schedule.getLast? ≠ some none ∧ refused = false)
    (hthrown : ∀ {e t}, m ⟨⟨schedule, []⟩, s.dev, []⟩ = .error (.thrown e) t → t.channel.schedule = [] →
      schedule.getLast? = some none ∨ refused = true) :
    (∀ {out s'}, sending schedule m s = .ok out s' → schedule.getLast? ≠ some none ∧ refused = false) ∧
      ∀ {e s'}, sending schedule m s = .error (.thrown e) s' → schedule.getLast? = some none ∨ refused = true := by
  constructor
  · intro out s' h
    obtain ⟨t, hm, ht, -⟩ := sending_ok h
    exact hok hm ht
  · intro e s' h
    obtain ⟨t, hm, ht, -⟩ := sending_thrown h
    exact hthrown hm ht

/-- Of an honest program the last entry decides. -/
theorem Honest.sending_last {m : Exec (Sending δ) Unit} (hm : Honest m) (schedule : List (Option Nat)) (s : Server δ) :
    (∀ {out s'}, sending schedule m s = .ok out s' → schedule.getLast? ≠ some none ∧ false = false) ∧
      ∀ {e s'}, sending schedule m s = .error (.thrown e) s' → schedule.getLast? = some none ∨ false = true :=
  Socket.sending_last schedule s (fun h ht => ⟨hm.last.1 h ht, rfl⟩) fun h ht => .inl (hm.last.2 h ht)

theorem honest_text (line : JString) : Honest (do act (.text line); let _ ← write (E.charset.encode line) :
    Exec (Sending δ) Unit) :=
  honest_bind (honest_act _) fun _ => honest_bind (honest_write _) fun _ => honest_pure _

/-- After the program nothing throws. -/
theorem thrown_of_bind {m : Exec (Server δ) (List Act × Bytes)} {α : Type} {k : List Act × Bytes → Exec (Server δ) α}
    (hk : ∀ out u e t, k out u ≠ .error e t) {s s' : Server δ} {e : Halt} (h : (m >>= k) s = .error e s') :
    m s = .error e s' := by
  rcases Exec.error_bind.1 h with h | ⟨out, u, -, h⟩
  · exact h
  · exact absurd h (hk out u e s')

theorem dispatch_last {cmd : JString} {schedule : List (Option Nat)} {s : Server δ} :
    (∀ {out s'}, dispatch E (some cmd) schedule s = .ok out s' → schedule.getLast? ≠ some none ∧
      (!s.flags.onlargeTransmit && s.flags.onDmTransmit &&
        refusesDm E.platform s.flags.isRemoteTransmit (some cmd) s.dev) = false) ∧
    ∀ {e s'}, dispatch E (some cmd) schedule s = .error (.thrown e) s' → schedule.getLast? = some none ∨
      (!s.flags.onlargeTransmit && s.flags.onDmTransmit &&
        refusesDm E.platform s.flags.isRemoteTransmit (some cmd) s.dev) = true := by
  unfold dispatch
  simp only [Exec.get_bind]
  cases hl : s.flags.onlargeTransmit with
  | true =>
    have hlast := (honest_writeEach (E := E) (split semicolon (trim cmd))).sending_last schedule s
    constructor
    · intro out s' h
      obtain ⟨_, u, hs, -⟩ := Exec.ok_bind.1 h
      exact hlast.1 hs
    · intro e s' h
      exact hlast.2 (thrown_of_bind (fun _ _ _ _ h => by cases h) h)
  | false =>
    cases hd : s.flags.onDmTransmit with
    | true =>
      have hdm := @writeDmData_last κ δ E s.flags.isRemoteTransmit (some cmd) ⟨⟨schedule, []⟩, s.dev, []⟩
      have hlast := sending_last schedule s hdm.1 hdm.2
      constructor
      · intro out s' h
        obtain ⟨_, u, hs, -⟩ := Exec.ok_bind.1 h
        exact hlast.1 hs
      · intro e s' h
        exact hlast.2 (thrown_of_bind (fun _ _ _ _ h => by cases h) h)
    | false =>
      have hlast := (honest_text (E := E) (cmd ++ lit "\n")).sending_last schedule s
      constructor
      · intro out s' h
        obtain ⟨_, u, hs, -⟩ := Exec.ok_bind.1 h
        exact hlast.1 hs
      · intro e s' h
        exact hlast.2 (thrown_of_bind (fun _ _ _ _ h => by cases h) h)

/-- **A write step throws iff its last write does, or the transfer throws.** -/
theorem writeStep_last {c : Nat} {op : Op} {cmd : JString} {schedule : List (Option Nat)} {s : Server δ}
    (hk : s.keys c = some ⟨op, some cmd⟩) :
    (∀ {s'}, writeStep E c schedule s = .ok () s' → schedule.getLast? ≠ some none ∧ refuses E s c = false) ∧
      ∀ {e s'}, writeStep E c schedule s = .error (.thrown e) s' →
        schedule.getLast? = some none ∨ refuses E s c = true := by
  have hr : (s.keys c).bind Key.attachment = some cmd := by rw [hk]; rfl
  constructor
  · intro s' h
    unfold writeStep at h
    rw [Exec.get_bind] at h
    obtain ⟨_, u, hd, -⟩ := Exec.ok_bind.1 h
    rw [hr] at hd
    unfold refuses
    rw [hr]
    exact dispatch_last.1 hd
  · intro e s' h
    unfold writeStep at h
    rw [Exec.get_bind] at h
    rcases Exec.error_bind.1 h with hd | ⟨_, u, -, h⟩
    · rw [hr] at hd
      unfold refuses
      rw [hr]
      exact dispatch_last.2 hd
    · cases h

/-! ## Runs -/

/-- A step after which the loop goes on: a client is accepted and made non-blocking; bytes are read, or the connection
closes without a failure; the last write of an answer does not fail, and the answer is not a transfer that throws. -/
def Benign (E : Env κ δ) (s : Server δ) : Ready → Prop
  | .acceptable r => ∃ c, r = .client c false
  | .readable _ r closeFails => closeFails = false ∨ ∃ b bs, r = .bytes (b :: bs)
  | .writable c schedule => schedule.getLast? ≠ some none ∧ refuses E s c = false

theorem Moves.benign {s s' : Server δ} {r : Ready} (h : Moves E s r s') (hs : s.Wf) : Benign E s r := by
  cases h with
  | accept hk => exact ⟨_, rfl⟩
  | chunk hk hne hl =>
    obtain ⟨b, bs, rfl⟩ := List.exists_cons_of_ne_nil hne
    exact .inr ⟨b, bs, rfl⟩
  | close hk hr => exact .inl rfl
  | answer hk d sent hw =>
    obtain ⟨reply, -, rfl⟩ := hs.pending hk
    exact (writeStep_last hk).1 hw

theorem Fails.not_benign {s s' : Server δ} {r : Ready} {e : Exn} (h : Fails E s r e s') (hs : s.Wf) :
    ¬ Benign E s r := by
  cases h with
  | accept hr =>
    rintro ⟨c, rfl⟩
    exact hr c rfl
  | close hk hr =>
    rintro (h | ⟨b, bs, rfl⟩)
    · cases h
    · cases hr _ rfl
  | write hk d hw =>
    obtain ⟨reply, -, rfl⟩ := hs.pending hk
    rintro ⟨h1, h2⟩
    rcases (writeStep_last hk).2 hw with h | h
    · exact h1 h
    · rw [h2] at h
      cases h

/-- The ready keys of an event are served benignly. -/
def BenignEvent (E : Env κ δ) (l : Listen δ) (e : Event) : Prop := ∀ r, e = .ready r → Benign E l.server r

/-- A loop that is not running takes no step. -/
theorem running_of_step {l l' : Listen δ} {e : Event} (h : listenStep E l e = some l') : l.status = .running := by
  unfold listenStep at h
  split at h
  · assumption
  · cases h

/-- A step that ends in a running loop is benign. -/
theorem benign_of_running {l l' : Listen δ} {e : Event} (hl : l.server.Wf) (h : listenStep E l e = some l')
    (hr : l'.status = .running) : BenignEvent E l e := by
  obtain ⟨-, ⟨rfl, -⟩ | ⟨rfl, -⟩ | ⟨r, rfl, hm, -⟩ | ⟨r, x, rfl, -, hd⟩⟩ := listenStep_cases hl.buffer h
  · intro r h
    cases h
  · intro r h
    cases h
  · intro r' h
    cases h
    exact hm.benign hl
  · rw [hr] at hd
    cases hd

/-- A run that ends in a running loop is benign throughout. -/
theorem along_benign {l l' : Listen δ} {es : List Event} (hl : l.server.Wf)
    (h : Trans.run (listenStep E) l es = some l') (hr : l'.status = .running) :
    Trans.Along (BenignEvent E) (listenStep E) l es := by
  induction es generalizing l with
  | nil => trivial
  | cons e es ih =>
    obtain ⟨m, hm, hrest⟩ := Trans.run_cons_eq.1 h
    have hrun : m.status = .running := by
      cases es with
      | nil =>
        cases hrest
        exact hr
      | cons e' es =>
        obtain ⟨n, hn, -⟩ := Trans.run_cons_eq.1 hrest
        exact running_of_step hn
    refine ⟨benign_of_running hl hm hrun, fun m' hm' => ?_⟩
    rw [hm] at hm'
    cases hm'
    exact ih (wf_step hl hm) hrest

/-- A benign step before the termination leaves the loop running. -/
theorem running_step {l l' : Listen δ} {e : Event}
    (hl : l.server.Wf ∧ l.status = .running ∧ l.server.isExit = false) (hb : BenignEvent E l e ∧ e ≠ .terminateServer)
    (h : listenStep E l e = some l') : l'.server.Wf ∧ l'.status = .running ∧ l'.server.isExit = false := by
  obtain ⟨hw, hr, hx⟩ := hl
  refine ⟨wf_step hw h, ?_⟩
  obtain ⟨-, ⟨rfl, -⟩ | ⟨-, rfl⟩ | ⟨r, -, hm, hr'⟩ | ⟨r, x, rfl, hf, -⟩⟩ := listenStep_cases hw.buffer h
  · exact absurd rfl hb.2
  · simp [hx, hr]
  · refine ⟨hr', ?_⟩
    generalize l'.server = s' at hm
    cases hm with
    | accept hk => exact hx
    | chunk hk hne hl => exact hx
    | close hk hr => exact hx
    | answer hk d sent hw => exact hx
  · exact absurd (hb.1 r rfl) (hf.not_benign hw)

/-- **Survival, exactly**: the loop does not end before `terminateServer` is called if and only if it is called, or
every step is benign. -/
theorem survives_iff (E : Env κ δ) (d : δ) (es : List Event) (l : Listen δ)
    (h : Trans.run (listenStep E) (.fresh d) es = some l) :
    (l.status ≠ .running → .terminateServer ∈ es) ↔
      .terminateServer ∈ es ∨ Trans.Along (BenignEvent E) (listenStep E) (.fresh d) es := by
  constructor
  · intro hs
    by_cases ht : .terminateServer ∈ es
    · exact .inl ht
    · have hr : l.status = .running := by
        by_contra hr
        exact ht (hs hr)
      exact .inr (along_benign (fresh_wf d) h hr)
  · intro hs hr
    by_contra ht
    rcases hs with hs | hs
    · exact ht hs
    · have hne : ∀ e ∈ es, e ≠ .terminateServer := by
        rintro e he rfl
        exact ht he
      have := Trans.run_inv_along
        (I := fun l : Listen δ => l.server.Wf ∧ l.status = .running ∧ l.server.isExit = false)
        (fun _ _ _ hl hb h => running_step hl hb h) (hs.and (Trans.along_of_forall (Listen.fresh d) hne)) h
        ⟨fresh_wf d, rfl, rfl⟩
      exact hr this.2.1

/-- A client whose first write fails. -/
def hangUp : List Event :=
  [.ready (.acceptable (.client 1 false)), .ready (.readable 1 (.bytes [0x41]) false), .ready (.writable 1 [none])]

/-- The failure of one write ends the loop, and nobody has called `terminateServer`. -/
theorem hangUp_ends : ∃ l, Trans.run (listenStep (bench true none [])) (.fresh ()) hangUp = some l ∧
    l.status = .died .ioException ∧ .terminateServer ∉ hangUp := by
  obtain ⟨l, h, hs⟩ := Option.map_eq_some_iff.1 (by decide +kernel : (Trans.run (listenStep (bench true none []))
    (.fresh ()) hangUp).map Listen.status = some (.died .ioException))
  exact ⟨l, h, hs, by decide⟩

theorem survives_iff_hangUp : ∃ l, Trans.run (listenStep (bench true none [])) (.fresh ()) hangUp = some l ∧
    ((l.status ≠ .running → .terminateServer ∈ hangUp) ↔ .terminateServer ∈ hangUp ∨
      Trans.Along (BenignEvent (bench true none [])) (listenStep (bench true none [])) (.fresh ()) hangUp) := by
  obtain ⟨l, h⟩ := Option.isSome_iff_exists.1 (by decide +kernel : (Trans.run (listenStep (bench true none []))
    (.fresh ()) hangUp).isSome = true)
  exact ⟨l, h, survives_iff (bench true none []) () hangUp l h⟩

end OwonVds.Socket
