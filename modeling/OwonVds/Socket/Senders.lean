import OwonVds.Socket.Short

/-!
# The two senders of a payload

`writeLargeData` and `remoteDmTransmit` send the same frame by two loops: the one wraps a block of its buffer by index
for each write, the other leaves the position to the buffer. On a schedule that takes something again and again both
come to their end, and what they put on the channel does not depend on the schedule (`senders_agree`).

The index arithmetic of `writeLargeData` is looked at write by write: `wrapArgs` are the positions and lengths that it
wraps, and its loop is nothing but these writes (`payloadLoop_writes`). The length only shrinks, and never to 0, since a
write that leaves nothing is the last one (`wrapArgs_range`).
-/

namespace OwonVds.Socket

open Java Parts

variable {κ δ : Type} {E : Env κ δ}

/-! ## Schedules -/

/-- What the writes of a frame accept: those of the header all that they are offered, those of the payload whatever they
do, but not 0 for ever. -/
structure Accepted where
  hash : Nat
  length : Nat
  lf : Nat
  payload : Nat → Nat
  hash_whole : 1 ≤ hash
  length_whole : 4 ≤ length
  lf_whole : 1 ≤ lf
  fair : Fair payload

/-- The writes of the header, and the first ones of the payload. -/
def Accepted.first (x : Accepted) (n : Nat) : List Nat := x.hash :: x.length :: x.lf :: firstWrites x.payload n

/-- Where the payload loop has ended, the frame has been sent. -/
theorem send_frame {x : Accepted} {bound n : Nat} {buf : Bytes} {rest : List Nat}
    (h : sendLoop bound buf (firstWrites x.payload n) = some (buf, rest)) :
    send (headerParts buf.length ++ [.loop bound buf]) (x.first n) = some (frame buf, rest) := by
  have hhash : ([0x23] : Bytes).take x.hash = [0x23] := List.take_of_length_le x.hash_whole
  have hlength : (putInt buf.length).take x.length = putInt buf.length := List.take_of_length_le x.length_whole
  have hlf : ([0x0A] : Bytes).take x.lf = [0x0A] := List.take_of_length_le x.lf_whole
  simp [headerParts, Accepted.first, send, sendPart, hhash, hlength, hlf, h, frame]

/-- A program that sends the frame, on a schedule that is long enough. -/
theorem frame_sent {α : Type} {m : Exec (Sending δ) α} {d d' : δ} {a : α} {bound : Nat} {buf : Bytes} (x : Accepted)
    (hb : 0 < bound ∨ buf = []) (hm : Emits m d (headerParts buf.length ++ [.loop bound buf]) a d') :
    ∃ N, ∀ n, N ≤ n → ∀ taken acts, ∃ t, m ⟨⟨(x.first n).map some, taken⟩, d, acts⟩ = .ok a t ∧
      t.channel.taken = taken ++ frame buf := by
  obtain ⟨N, hN⟩ : ∃ N, ∀ n, N ≤ n → ∃ rest, sendLoop bound buf (firstWrites x.payload n) = some (buf, rest) := by
    rcases hb with hb | rfl
    · exact sendLoop_fair hb x.fair buf
    · exact ⟨0, fun n _ => ⟨_, sendLoop_nil _ _⟩⟩
  refine ⟨N, fun n hn taken acts => ?_⟩
  obtain ⟨rest, hr⟩ := hN n hn
  obtain ⟨acts', hu⟩ := (hm (x.first n)).ok (send_frame hr) taken acts
  exact ⟨_, hu, rfl⟩

/-! ## The writes of `writeLargeData` -/

/-- The arguments `p` and `bl` of `ByteBuffer.wrap` in the loop, for writes that accept these counts. -/
def wrapArgs (dataLen : Nat) : List Nat → Nat → Nat → List (Nat × Nat)
  | [], _, _ => []
  | k :: ks, p, bl =>
    if p < dataLen then
      let bl := if bl > dataLen - p then dataLen - p else bl
      (p, bl) :: wrapArgs dataLen ks (p + min k bl) bl
    else []

/-- The writes of these blocks, one after the other. -/
def writeBlocks (buf : Bytes) : List (Nat × Nat) → Exec (Sending δ) Unit
  | [] => pure ()
  | (p, bl) :: rest =>
    match wrap buf p bl with
    | none => throw (.thrown .indexOutOfBoundsException)
    | some block => do
      let _ ← write block
      writeBlocks buf rest

/-- **Every block is in the buffer**: the position has not passed the end, and the length is positive and at most both
2048 and what is left. -/
theorem wrapArgs_range (dataLen : Nat) (ks : List Nat) : ∀ p bl, p ≤ dataLen → 0 < bl → bl ≤ 2048 →
    ∀ q ∈ wrapArgs dataLen ks p bl, q.1 ≤ dataLen ∧ 0 < q.2 ∧ q.2 ≤ min 2048 (dataLen - q.1) := by
  induction ks with
  | nil => intro p bl _ _ _ q hq; cases hq
  | cons k ks ih =>
    intro p bl hp h0 hbl q hq
    unfold wrapArgs at hq
    split at hq
    · rename_i hlt
      dsimp only at hq
      generalize hb : (if bl > dataLen - p then dataLen - p else bl) = b at hq
      have hb0 : 0 < b ∧ b ≤ 2048 ∧ b ≤ dataLen - p := by
        rw [← hb]
        split <;> omega
      rcases List.mem_cons.1 hq with rfl | hq
      · dsimp only
        omega
      · exact ih (p + min k b) b (by omega) hb0.1 hb0.2.1 q hq
    · cases hq

/-- **The loop is these writes**: it ends after them, or waits for the next one. -/
theorem payloadLoop_writes (buf : Bytes) (d : δ) (acts : List Act) (ks : List Nat) : ∀ n p bl taken, ks.length < n →
    ∃ t : Sending δ, writeBlocks buf (wrapArgs buf.length ks p bl) ⟨⟨ks.map some, taken⟩, d, acts⟩ = .ok () t ∧
      (payloadLoop buf n p bl ⟨⟨ks.map some, taken⟩, d, acts⟩ = .ok () t ∨
        payloadLoop buf n p bl ⟨⟨ks.map some, taken⟩, d, acts⟩ = .error .blocked t ∧ t.channel.schedule = []) := by
  induction ks with
  | nil =>
    intro n p bl taken hn
    obtain ⟨n, rfl⟩ : ∃ m, n = m + 1 := ⟨n - 1, by omega⟩
    refine ⟨_, rfl, ?_⟩
    by_cases hlt : p < buf.length
    · rw [payloadLoop_succ hlt]
      exact .inr ⟨Exec.bind_of_error rfl, rfl⟩
    · unfold payloadLoop
      rw [if_neg hlt]
      exact .inl rfl
  | cons k ks ih =>
    intro n p bl taken hn
    obtain ⟨n, rfl⟩ : ∃ m, n = m + 1 := ⟨n - 1, by omega⟩
    rw [List.length_cons] at hn
    unfold wrapArgs payloadLoop
    by_cases hlt : p < buf.length
    · rw [if_pos hlt, if_pos hlt]
      dsimp only
      unfold writeBlocks
      rw [wrap_clamped buf p bl hlt]
      dsimp only
      generalize hb : (if bl > buf.length - p then buf.length - p else bl) = b
      have hlen : ((buf.drop p).take b).length = b := by
        have : b ≤ buf.length - p := by
          rw [← hb]
          split <;> omega
        simp
        omega
      have hw : write ((buf.drop p).take b) (⟨⟨(k :: ks).map some, taken⟩, d, acts⟩ : Sending δ) =
          .ok (min k ((buf.drop p).take b).length)
            ⟨⟨ks.map some, taken ++ ((buf.drop p).take b).take k⟩, d, acts⟩ := rfl
      rw [hlen] at hw
      obtain ⟨t, ht, hloop⟩ := ih n (p + min k b) b (taken ++ ((buf.drop p).take b).take k) (by omega)
      refine ⟨t, (Exec.bind_of_ok hw).trans ht, ?_⟩
      rw [Exec.bind_of_ok hw]
      exact hloop
    · rw [if_neg hlt, if_neg hlt]
      exact ⟨_, rfl, .inl rfl⟩

/-! ## Both senders -/

/-- **The two senders agree, and are exact under partial writes**: whatever their payload writes accept, both come to
their end and put the frame of the buffer on the channel; and `writeLargeData` wraps only blocks that are in it. -/
theorem senders_agree {cmd : JString} {buf : ByteArr} {d₁ d₂ : δ} (hdata : (E.factory.getData cmd d₁).1 = some buf)
    (hcopy : (E.platform.copyToTemp d₂).1 = true)
    (hexists : E.platform.tempExists (E.platform.copyToTemp d₂).2 = true)
    (hcontent : E.platform.tempContent (E.platform.copyToTemp d₂).2 = buf.1) (x₁ x₂ : Accepted) :
    (∃ N, ∀ n, N ≤ n → ∀ taken acts,
      (∃ t, writeLargeData E cmd ⟨⟨(x₁.first n).map some, taken⟩, d₁, acts⟩ = .ok () t ∧
        t.channel.taken = taken ++ frame buf.1) ∧
      ∃ t, remoteDmTransmit E ⟨⟨(x₂.first n).map some, taken⟩, d₂, acts⟩ = .ok [] t ∧
        t.channel.taken = taken ++ frame buf.1) ∧
    ∀ n, (∀ q ∈ wrapArgs buf.1.length (firstWrites x₁.payload n) 0 2048,
        q.1 ≤ buf.1.length ∧ 0 < q.2 ∧ q.2 ≤ min 2048 (buf.1.length - q.1) ∧ (wrap buf.1 q.1 q.2).isSome) ∧
      ∀ (d : δ) taken acts, ∃ t : Sending δ,
        writeBlocks buf.1 (wrapArgs buf.1.length (firstWrites x₁.payload n) 0 2048)
          ⟨⟨(firstWrites x₁.payload n).map some, taken⟩, d, acts⟩ = .ok () t ∧
        (payloadLoop buf.1 (n + 1) 0 2048 ⟨⟨(firstWrites x₁.payload n).map some, taken⟩, d, acts⟩ = .ok () t ∨
          payloadLoop buf.1 (n + 1) 0 2048 ⟨⟨(firstWrites x₁.payload n).map some, taken⟩, d, acts⟩ =
            .error .blocked t ∧ t.channel.schedule = []) := by
  have hlarge := writeLargeData_emits (E := E) cmd d₁
  rw [hdata] at hlarge
  have hlen : ((E.platform.tempContent (E.platform.copyToTemp d₂).2).length : Int).bmod (0x100000000) =
      buf.1.length := by
    have := buf.2
    rw [hcontent, Int.bmod_eq_of_le] <;> omega
  have hremote := remoteFrame_emits hcopy hexists hlen (Int.not_lt.2 (Int.natCast_nonneg _))
    (by rw [hcontent, Int.toNat_natCast, List.take_length])
  have hbound : 0 < buf.1.length ∨ buf.1 = [] := by
    rcases Nat.eq_zero_or_pos buf.1.length with h | h
    · exact .inr (List.length_eq_zero_iff.1 h)
    · exact .inl h
  constructor
  · obtain ⟨N₁, h₁⟩ := frame_sent x₁ (.inl (by decide)) hlarge
    obtain ⟨N₂, h₂⟩ := frame_sent x₂ hbound hremote
    refine ⟨max N₁ N₂, fun n hn taken acts => ⟨h₁ n (by omega) taken acts, h₂ n (by omega) taken acts⟩⟩
  · intro n
    constructor
    · intro q hq
      obtain ⟨hp, h0, hbl⟩ := wrapArgs_range _ _ 0 2048 (Nat.zero_le _) (by decide) (Nat.le_refl _) q hq
      refine ⟨hp, h0, hbl, ?_⟩
      unfold wrap
      rw [if_pos (by omega)]
      rfl
    · intro d taken acts
      exact payloadLoop_writes buf.1 d acts _ (n + 1) 0 2048 taken (by simp [firstWrites])

/-- A channel that takes one byte of every second write. -/
def everySecond : Accepted where
  hash := 1
  length := 4
  lf := 1
  payload n := n % 2
  hash_whole := Nat.le_refl 1
  length_whole := Nat.le_refl 4
  lf_whole := Nat.le_refl 1
  fair n := ⟨2 * n + 1, by omega, by simp [Nat.add_mod]⟩

/-- A channel that takes all that it is offered. -/
def everything : Accepted where
  hash := 1
  length := 4
  lf := 1
  payload _ := 0x80000000
  hash_whole := Nat.le_refl 1
  length_whole := Nat.le_refl 4
  lf_whole := Nat.le_refl 1
  fair n := ⟨n, Nat.le_refl n, by simp⟩

def threeBytes : ByteArr := ⟨[0x0A, 0x23, 0xFF], by decide⟩

theorem senders_agree_three : ∃ N, ∀ n, N ≤ n →
    (∃ t, writeLargeData (bench true (some threeBytes) threeBytes.1) (lit "*ADC?")
        ⟨⟨(everySecond.first n).map some, []⟩, (), []⟩ = .ok () t ∧ t.channel.taken = frame threeBytes.1) ∧
      ∃ t, remoteDmTransmit (bench true (some threeBytes) threeBytes.1)
        ⟨⟨(everything.first n).map some, []⟩, (), []⟩ = .ok [] t ∧ t.channel.taken = frame threeBytes.1 := by
  obtain ⟨⟨N, hN⟩, -⟩ := @senders_agree _ _ (bench true (some threeBytes) threeBytes.1) (lit "*ADC?") threeBytes () ()
    rfl rfl rfl rfl everySecond everything
  exact ⟨N, fun n hn => hN n hn [] []⟩

end OwonVds.Socket
