import FalconLink.Foundation.Framing
import FalconLink.Model.Buffer
import FalconLink.Model.Connection

/-! # What a buffer keeps -/

namespace FalconLink

open Search Framing

namespace Buffer

variable {target : Bytes}

/-! ## One call -/

theorem findAndPopTill_of_some {buffer : Buffer} {frame rest : Bytes}
    (h : popFrame target buffer.buf = some (frame, rest)) :
    buffer.findAndPopTill target = (some frame, ⟨rest⟩) := by
  obtain ⟨pos, hpos, heq⟩ := Option.map_eq_some_iff.mp h
  obtain ⟨rfl, rfl⟩ := Prod.mk.inj heq
  simp only [findAndPopTill, hpos]

theorem findAndPopTill_of_none {buffer : Buffer} (h : popFrame target buffer.buf = none) :
    buffer.findAndPopTill target = (none, buffer) := by
  simp only [findAndPopTill, Option.map_eq_none_iff.mp h]

/-- `std::nullopt` means that the target is nowhere in the buffer, which is as it was. -/
theorem findAndPopTill_eq_none {buffer : Buffer} (h : (buffer.findAndPopTill target).1 = none) :
    (buffer.findAndPopTill target).2 = buffer ∧ ¬target <:+: buffer.buf := by
  cases hpop : popFrame target buffer.buf with
  | none =>
      rw [findAndPopTill_of_none hpop]
      exact ⟨rfl, popFrame_eq_none_iff.mp hpop⟩
  | some pair => simp [findAndPopTill_of_some hpop] at h

/-- A connection pops from its read buffer. -/
theorem connection_findAndPopTill (conn : Connection) (target : Bytes) :
    (conn.findAndPopTill target).map (fun popped => (popped.1, popped.2.readBuf)) =
      ((Buffer.mk conn.readBuf).findAndPopTill target).1.map
        (·, ((Buffer.mk conn.readBuf).findAndPopTill target).2.buf) := by
  cases hpop : popFrame target conn.readBuf with
  | none =>
      have hcall : (Buffer.mk conn.readBuf).findAndPopTill target = _ :=
        findAndPopTill_of_none hpop
      rw [hcall]
      simp [Connection.findAndPopTill, hpop]
  | some pair =>
      have hcall : (Buffer.mk conn.readBuf).findAndPopTill target = _ :=
        findAndPopTill_of_some hpop
      rw [hcall]
      simp [Connection.findAndPopTill, hpop]

/-! ## Draining -/

theorem popAll_eq (htarget : target ≠ []) (content : Bytes) :
    ∀ rounds, content.length ≤ rounds → popAll target rounds ⟨content⟩ =
      ((Framing.drain target content).1, ⟨(Framing.drain target content).2⟩) := by
  induction content using drain_induction htarget with
  | incomplete content h =>
      intro rounds hrounds
      have hcall : (Buffer.mk content).findAndPopTill target = _ := findAndPopTill_of_none h
      rw [drain_of_none h]
      cases rounds with
      | zero => rfl
      | succ rounds => simp only [popAll, hcall]
  | frame content frame rest h ih =>
      intro rounds hrounds
      have hcall : (Buffer.mk content).findAndPopTill target = _ := findAndPopTill_of_some h
      have hlt := popFrame_rest_length htarget h
      obtain ⟨n, rfl⟩ : ∃ n, rounds = n + 1 := ⟨rounds - 1, by omega⟩
      rw [drain_of_some htarget h]
      simp only [popAll, hcall, ih n (by omega)]

theorem drain_eq (htarget : target ≠ []) (buffer : Buffer) :
    drain target buffer =
      ((Framing.drain target buffer.buf).1, ⟨(Framing.drain target buffer.buf).2⟩) :=
  popAll_eq htarget buffer.buf buffer.size (Nat.le_refl _)

theorem drain_ends (htarget : target ≠ []) (buffer : Buffer) :
    ((drain target buffer).2.findAndPopTill target).1 = none := by
  rw [drain_eq htarget, findAndPopTill_of_none (drain_rest htarget buffer.buf)]

theorem foldl_append (arrivals : List Bytes) (buffer : Buffer) :
    arrivals.foldl append buffer = ⟨buffer.buf ++ arrivals.flatten⟩ := by
  induction arrivals generalizing buffer with
  | nil => simp
  | cons newData later ih =>
      rw [List.foldl_cons, ih]
      simp [append]

/-- Frames that are complete early are the frames of the whole. -/
theorem drainEach_eq (htarget : target ≠ []) (arrivals : List Bytes) :
    ∀ {buffer : Buffer}, popFrame target buffer.buf = none →
      drainEach target buffer arrivals = drain target (arrivals.foldl append buffer) := by
  induction arrivals with
  | nil =>
      intro buffer h
      rw [List.foldl_nil, drain_eq htarget, drain_of_none h]
      rfl
  | cons newData later ih =>
      intro buffer h
      have hlater : drainEach target ⟨(Framing.drain target (buffer.buf ++ newData)).2⟩ later = _ :=
        ih (drain_rest htarget (buffer.buf ++ newData))
      have hdrained := drain_eq htarget (buffer.append newData)
      rw [append] at hdrained
      rw [drainEach, append, hdrained]
      simp only [hlater, List.foldl_cons, foldl_append, append]
      rw [drain_eq htarget, drain_eq htarget, drain_append htarget (buffer.buf ++ newData)]

/-! ## Sequences of calls -/

/-- A popped string ends with the target and does not contain it before. -/
structure IsFrame (target frame : Bytes) : Prop where
  ends : target <:+ frame
  first : ∀ pos, pos + target.length < frame.length → ¬target <+: frame.drop pos

theorem isFrame_of_popFrame {content frame rest : Bytes} (htarget : target ≠ [])
    (h : popFrame target content = some (frame, rest)) : IsFrame target frame := by
  have hframe := popFrame_frame h
  obtain ⟨pos, -, hlen, -⟩ := popFrame_eq_some hframe
  refine ⟨?_, fun before hbefore hocc => ?_⟩
  · have hocc := (popFrame_occurs_iff htarget hframe pos).mpr hlen.symm
    have hwhole := hocc.eq_of_length (by rw [List.length_drop]; omega)
    exact hwhole ▸ List.drop_suffix pos frame
  · have hend := (popFrame_occurs_iff htarget hframe before).mp hocc
    omega

/-- Nothing is lost, popped strings are frames, and to go on popping gives what popping once at
the end gives. -/
structure Conserves (target : Bytes) (s : State) : Prop where
  content : s.popped.flatten ++ s.buffer.buf = s.appended
  frames : ∀ frame ∈ s.popped, IsFrame target frame
  drained : (s.popped ++ (drain target s.buffer).1, (drain target s.buffer).2) =
    drain target ⟨s.appended⟩

theorem Conserves.append {s : State} (htarget : target ≠ []) (h : Conserves target s)
    (newData : Bytes) : Conserves target (step target s (.append newData)) := by
  refine ⟨?_, h.frames, ?_⟩
  · rw [step, Buffer.append, ← h.content, List.append_assoc]
  · have hdrained := h.drained
    rw [drain_eq htarget, drain_eq htarget] at hdrained
    obtain ⟨hframes, hrest⟩ := Prod.mk.inj hdrained
    have hleft := Buffer.mk.inj hrest
    dsimp only at hframes hleft
    rw [step, Buffer.append, drain_eq htarget, drain_eq htarget]
    dsimp only
    rw [drain_append htarget s.buffer.buf, drain_append htarget s.appended, hleft, ← hframes,
      List.append_assoc]

theorem Conserves.findAndPopTill {s : State} (htarget : target ≠ []) (h : Conserves target s) :
    Conserves target (step target s .findAndPopTill) := by
  cases hpop : popFrame target s.buffer.buf with
  | none =>
      rw [step, findAndPopTill_of_none hpop]
      exact h
  | some pair =>
      obtain ⟨frame, rest⟩ := pair
      rw [step, findAndPopTill_of_some hpop]
      obtain ⟨pos, -, -, hcontent⟩ := popFrame_eq_some hpop
      refine ⟨?_, ?_, ?_⟩
      · rw [← h.content, ← hcontent]
        simp
      · intro other hother
        cases List.mem_append.mp hother with
        | inl hold => exact h.frames other hold
        | inr hnew => exact List.mem_singleton.mp hnew ▸ isFrame_of_popFrame htarget hpop
      · rw [← h.drained, drain_eq htarget s.buffer, drain_of_some htarget hpop,
          drain_eq htarget]
        simp

theorem exec_conserves {s : State} (htarget : target ≠ []) (h : Conserves target s)
    (calls : List Call) : Conserves target (exec target s calls) := by
  unfold exec
  induction calls generalizing s with
  | nil => exact h
  | cons call calls ih =>
      apply ih
      cases call with
      | append newData => exact h.append htarget newData
      | findAndPopTill => exact h.findAndPopTill htarget

theorem conserves_initial (target : Bytes) : Conserves target initial :=
  ⟨rfl, by simp [initial], rfl⟩

/-- Whatever the target, overlapping with itself or not, and whatever the order of the calls, a
buffer keeps the bytes and cuts them at the first occurrences of the target. -/
theorem framing_conserves (htarget : target ≠ []) (calls : List Call) (arrivals : List Bytes) :
    Conserves target (exec target initial calls) ∧
      (∀ buffer : Buffer, (buffer.findAndPopTill target).1 = none →
        (buffer.findAndPopTill target).2 = buffer ∧ ¬target <:+: buffer.buf) ∧
      (∀ buffer, ((drain target buffer).2.findAndPopTill target).1 = none) ∧
      drainEach target empty arrivals = drain target (arrivals.foldl append empty) := by
  have hempty : popFrame target empty.buf = none := by
    rw [popFrame_eq_none_iff]
    simpa [empty] using htarget
  exact ⟨exec_conserves htarget (conserves_initial target) calls,
    fun buffer => findAndPopTill_eq_none, drain_ends htarget, drainEach_eq htarget arrivals hempty⟩

theorem framing_conserves_crlfcrlf :
    (drain (ascii "\r\n\r\n") ([ascii "a\r\n\r", ascii "\n\r\n\r\nb"].foldl append empty)).1 =
      [ascii "a\r\n\r\n", ascii "\r\n\r\n"] := by
  have h := @framing_conserves (ascii "\r\n\r\n") (by decide) []
    [ascii "a\r\n\r", ascii "\n\r\n\r\nb"]
  rw [← h.2.2.2]
  decide

end Buffer

end FalconLink
