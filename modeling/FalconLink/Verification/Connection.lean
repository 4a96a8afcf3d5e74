import FalconLink.Model.Connection
import Mathlib.Data.Stream.Init

/-! # Receiving and sending -/

namespace FalconLink

/-! ## Receiving -/

/-- The bytes of the chunks before the result that ends a `recv`. -/
def received : List RecvResult → Bytes
  | .chunk data :: results => data.bytes ++ received results
  | .interrupted :: results => received results
  | _ => []

/-- Whether the result that ends a `recv` reports an exit, when there is such a result. -/
def ending : List RecvResult → Option Bool
  | [] => none
  | .chunk _ :: results => ending results
  | .interrupted :: results => ending results
  | .again :: _ => some false
  | .closed :: _ => some true
  | .failed :: _ => some true

namespace RecvResult

/-- The bytes that a result brings. -/
def bytes : RecvResult → Bytes
  | chunk data => data.bytes
  | _ => []

def isInterrupted : RecvResult → Bool
  | interrupted => true
  | _ => false

/-- The loop of `recv` goes on after the result. -/
def Continues : RecvResult → Prop
  | chunk _ | interrupted => True
  | again | closed | failed => False

/-- The result ends a `recv`, which then reports an exit or not. -/
def Stops : RecvResult → Bool → Prop
  | again, exit => exit = false
  | closed, exit | failed, exit => exit = true
  | chunk _, _ | interrupted, _ => False

theorem Stops.exit_iff {last : RecvResult} {exit : Bool} (h : last.Stops exit) :
    exit = true ↔ last = closed ∨ last = failed := by
  cases last <;> simp_all [Stops]

end RecvResult

namespace Connection

theorem recv_eq (results : List RecvResult) :
    ∀ (conn : Connection) (read : ℕ), conn.recv read results = (ending results).map fun exit =>
      ⟨read + (received results).length, exit, conn.writeToReadBuffer (received results)⟩ := by
  induction results with
  | nil => intro conn read; rfl
  | cons result results ih =>
      intro conn read
      cases result with
      | chunk data =>
          simp only [recv, ih, ending, received]
          simp [writeToReadBuffer, Nat.add_assoc]
      | interrupted => simp only [recv, ih, ending, received]
      | again => simp [recv, ending, received, writeToReadBuffer]
      | closed => simp [recv, ending, received, writeToReadBuffer]
      | failed => simp [recv, ending, received, writeToReadBuffer]

/-- The results after which the loop goes on have brought their chunks. -/
theorem recv_append {before : List RecvResult} (hbefore : ∀ result ∈ before, result.Continues)
    (results : List RecvResult) :
    ∀ (conn : Connection) (read : ℕ), conn.recv read (before ++ results) =
      (conn.writeToReadBuffer (before.flatMap RecvResult.bytes)).recv
        (read + (before.flatMap RecvResult.bytes).length) results := by
  induction before with
  | nil =>
      intro conn read
      simp [writeToReadBuffer]
  | cons result before ih =>
      intro conn read
      obtain ⟨hresult, hrest⟩ := List.forall_mem_cons.mp hbefore
      cases result with
      | chunk data =>
          rw [List.cons_append, recv, ih hrest]
          simp [writeToReadBuffer, RecvResult.bytes, Nat.add_assoc]
      | interrupted =>
          rw [List.cons_append, recv, ih hrest]
          simp [RecvResult.bytes]
      | again => exact hresult.elim
      | closed => exact hresult.elim
      | failed => exact hresult.elim

theorem recv_stops {last : RecvResult} {exit : Bool} (h : last.Stops exit) (conn : Connection)
    (read : ℕ) (after : List RecvResult) :
    conn.recv read (last :: after) = some ⟨read, exit, conn⟩ := by
  cases last with
  | again => simp only [recv, show exit = false from h]
  | closed => simp only [recv, show exit = true from h]
  | failed => simp only [recv, show exit = true from h]
  | chunk data => exact h.elim
  | interrupted => exact h.elim

/-- A `recv` that returns has found the result that ends it. -/
theorem exists_stops {results : List RecvResult} {received : Received} :
    ∀ {conn : Connection} {read : ℕ}, conn.recv read results = some received →
      ∃ before last after exit, results = before ++ last :: after ∧
        (∀ result ∈ before, result.Continues) ∧ last.Stops exit := by
  induction results with
  | nil =>
      intro conn read h
      cases h
  | cons result results ih =>
      intro conn read h
      cases result with
      | chunk data =>
          obtain ⟨before, last, after, exit, rfl, hbefore, hlast⟩ := ih h
          exact ⟨.chunk data :: before, last, after, exit, rfl,
            List.forall_mem_cons.mpr ⟨trivial, hbefore⟩, hlast⟩
      | interrupted =>
          obtain ⟨before, last, after, exit, rfl, hbefore, hlast⟩ := ih h
          exact ⟨.interrupted :: before, last, after, exit, rfl,
            List.forall_mem_cons.mpr ⟨trivial, hbefore⟩, hlast⟩
      | again => exact ⟨[], .again, results, false, rfl, by simp, rfl⟩
      | closed => exact ⟨[], .closed, results, true, rfl, by simp, rfl⟩
      | failed => exact ⟨[], .failed, results, true, rfl, by simp, rfl⟩

theorem recv_filter (results : List RecvResult) :
    ∀ (conn : Connection) (read : ℕ),
      conn.recv read (results.filter (!·.isInterrupted)) = conn.recv read results := by
  induction results with
  | nil => intro conn read; rfl
  | cons result results ih =>
      intro conn read
      cases result with
      | chunk data => exact ih _ _
      | interrupted => exact ih _ _
      | again => rfl
      | closed => rfl
      | failed => rfl

/-- `recv` stops at the first result that is neither a chunk nor an interrupt. It has then read
all chunks before it, whatever follows, and interrupts make no difference. -/
theorem recv_drains {conn : Connection} {results : List RecvResult} {received : Received}
    (h : conn.recv 0 results = some received) :
    (∃ before last after, results = before ++ last :: after ∧
      (∀ result ∈ before, result.Continues) ∧ ¬last.Continues ∧
      received.conn.readBuf = conn.readBuf ++ before.flatMap RecvResult.bytes ∧
      received.conn.writeBuf = conn.writeBuf ∧
      received.read = (before.flatMap RecvResult.bytes).length ∧
      (received.exit = true ↔ last = .closed ∨ last = .failed) ∧
      ∀ after', conn.recv 0 (before ++ last :: after') = some received) ∧
    ∀ results', results'.filter (!·.isInterrupted) = results.filter (!·.isInterrupted) →
      conn.recv 0 results' = some received := by
  refine ⟨?_, ?_⟩
  · obtain ⟨before, last, after, exit, rfl, hbefore, hlast⟩ := exists_stops h
    have hreturns : ∀ after', conn.recv 0 (before ++ last :: after') =
        some ⟨0 + (before.flatMap RecvResult.bytes).length, exit,
          conn.writeToReadBuffer (before.flatMap RecvResult.bytes)⟩ := by
      intro after'
      rw [recv_append hbefore, recv_stops hlast]
    have hstops : ¬last.Continues := by
      cases last <;> simp_all [RecvResult.Stops, RecvResult.Continues]
    obtain rfl := Option.some.inj ((hreturns after).symm.trans h)
    exact ⟨before, last, after, rfl, hbefore, hstops, rfl, rfl, Nat.zero_add _, hlast.exit_iff,
      hreturns⟩
  · intro results' hfilter
    rw [← recv_filter, hfilter, recv_filter, h]

/-- A chunk, an interrupt, a chunk, and the end of the data. -/
theorem recv_drains_chunks :
    ∃ received, (Connection.mk (ascii "a") []).recv 0 [.chunk ⟨ascii "b", by decide, by decide⟩,
        .interrupted, .chunk ⟨ascii "cd", by decide, by decide⟩, .again, .closed] =
          some received ∧ received.conn.readBuf = ascii "abcd" ∧
        (Connection.mk (ascii "a") []).recv 0 [.chunk ⟨ascii "b", by decide, by decide⟩,
          .chunk ⟨ascii "cd", by decide, by decide⟩, .again, .closed] = some received :=
  ⟨_, rfl, by decide, (recv_drains rfl).2 _ rfl⟩

/-! ## Sending -/

theorem sendLoop_nil (results : List SendResult) : sendLoop [] results = ([], true, results) := by
  cases results <;> rfl

theorem sendLoop_blocked {rest : Bytes} (h : rest ≠ []) : sendLoop rest [] = ([], false, []) := by
  cases rest with
  | nil => exact absurd rfl h
  | cons b rest => rfl

theorem sendLoop_accepted {rest : Bytes} (h : rest ≠ []) (more : ℕ) (results : List SendResult) :
    sendLoop rest (.accepted more :: results) =
      (rest.take (more + 1) ++ (sendLoop (rest.drop (more + 1)) results).1,
        (sendLoop (rest.drop (more + 1)) results).2) := by
  cases rest with
  | nil => exact absurd rfl h
  | cons b rest => rfl

theorem sendLoop_retry {rest : Bytes} (h : rest ≠ []) (results : List SendResult) :
    sendLoop rest (.retry :: results) = sendLoop rest results := by
  cases rest with
  | nil => exact absurd rfl h
  | cons b rest => rfl

theorem sendLoop_failed {rest : Bytes} (h : rest ≠ []) (results : List SendResult) :
    sendLoop rest (.failed :: results) = ([], true, results) := by
  cases rest with
  | nil => exact absurd rfl h
  | cons b rest => rfl

/-- Again and again a `::send` accepts something or fails for good. -/
def Progresses (results : Stream' SendResult) : Prop :=
  ∀ n, ∃ m, n ≤ m ∧ results.get m ≠ .retry

theorem Progresses.drop {results : Stream' SendResult} (h : Progresses results) (k : ℕ) :
    Progresses (results.drop k) := by
  intro n
  rcases h (k + n) with ⟨m, hle, hm⟩
  refine ⟨m - k, by omega, ?_⟩
  rwa [Stream'.get_drop, show k + (m - k) = m by omega]

theorem Progresses.tail {results : Stream' SendResult} (h : Progresses results) :
    Progresses results.tail :=
  h.drop 1

/-- A result of `::send` with which the kernel takes bytes. -/
def takesBytes : SendResult → Bool
  | .accepted _ => true
  | _ => false

/-- How a `send` of `rest` can go, when it uses the results `used`. -/
inductive SendOutcome (rest accepted : Bytes) (returned : Bool) (used left : List SendResult) :
    Prop where
  /-- Everything is written. -/
  | complete (hreturned : returned = true) (hall : accepted = rest) (hused : .failed ∉ used)
  /-- The last result is an error, and what is left of the buffer is dropped. -/
  | dropped (hreturned : returned = true) (hpart : accepted <+: rest) (hne : accepted ≠ rest)
      (before : List SendResult) (hused : used = before ++ [.failed]) (hbefore : .failed ∉ before)
  /-- There is no further result. -/
  | blocked (hreturned : returned = false) (hpart : accepted <+: rest) (hne : accepted ≠ rest)
      (hused : .failed ∉ used) (hleft : left = [])

structure SendSpec (rest accepted : Bytes) (returned : Bool) (used left : List SendResult) :
    Prop where
  outcome : SendOutcome rest accepted returned used left
  silent : accepted = [] ↔ ∀ r ∈ used, takesBytes r = false
  count : used.countP takesBytes ≤ accepted.length

theorem SendSpec.nothing (results : List SendResult) : SendSpec [] [] true [] results :=
  ⟨.complete rfl rfl (by simp), by simp, by simp⟩

theorem SendSpec.retry {rest accepted : Bytes} {returned : Bool} {used left : List SendResult}
    (h : SendSpec rest accepted returned used left) :
    SendSpec rest accepted returned (.retry :: used) left := by
  refine ⟨?_, by simpa [takesBytes] using h.silent, by simpa [takesBytes] using h.count⟩
  cases h.outcome with
  | complete hreturned hall hused => exact .complete hreturned hall (by simpa using hused)
  | dropped hreturned hpart hne before hused hbefore =>
      exact .dropped hreturned hpart hne (.retry :: before) (by rw [hused]; rfl)
        (by simpa using hbefore)
  | blocked hreturned hpart hne hused hleft =>
      exact .blocked hreturned hpart hne (by simpa using hused) hleft

/-- The kernel takes a part of the buffer, and the loop goes on with the rest. -/
theorem SendSpec.accepted {part rest accepted : Bytes} {returned : Bool}
    {used left : List SendResult} (hpart : part ≠ []) (more : ℕ)
    (h : SendSpec rest accepted returned used left) :
    SendSpec (part ++ rest) (part ++ accepted) returned (.accepted more :: used) left := by
  have hpre : accepted <+: rest → part ++ accepted <+: part ++ rest :=
    (List.prefix_append_right_inj part).mpr
  have hne : accepted ≠ rest → part ++ accepted ≠ part ++ rest :=
    fun hne heq => hne (List.append_cancel_left heq)
  refine ⟨?_, by simp [hpart, takesBytes], ?_⟩
  · cases h.outcome with
    | complete hreturned hall hused =>
        exact .complete hreturned (by rw [hall]) (by simpa using hused)
    | dropped hreturned hpart' hne' before hused hbefore =>
        exact .dropped hreturned (hpre hpart') (hne hne') (.accepted more :: before)
          (by rw [hused]; rfl) (by simpa using hbefore)
    | blocked hreturned hpart' hne' hused hleft =>
        exact .blocked hreturned (hpre hpart') (hne hne') (by simpa using hused) hleft
  · have hpos : 0 < part.length := List.length_pos_iff.mpr hpart
    have hcount := h.count
    simp only [List.countP_cons, takesBytes, if_true, List.length_append]
    omega

/-- Each result of `::send` is used once, in order. -/
theorem sendLoop_spec (results : List SendResult) :
    ∀ rest, ∃ used, results = used ++ (sendLoop rest results).2.2 ∧
      SendSpec rest (sendLoop rest results).1 (sendLoop rest results).2.1 used
        (sendLoop rest results).2.2 := by
  induction results with
  | nil =>
      intro rest
      by_cases hrest : rest = []
      · subst hrest
        exact ⟨[], rfl, .nothing []⟩
      · rw [sendLoop_blocked hrest]
        exact ⟨[], rfl, .blocked rfl List.nil_prefix (Ne.symm hrest) (by simp) rfl, by simp, by simp⟩
  | cons result results ih =>
      intro rest
      by_cases hrest : rest = []
      · subst hrest
        exact ⟨[], rfl, .nothing _⟩
      · cases result with
        | failed =>
            rw [sendLoop_failed hrest]
            exact ⟨[.failed], rfl, .dropped rfl List.nil_prefix (Ne.symm hrest) [] rfl (by simp),
              by simp [takesBytes], by simp [takesBytes]⟩
        | retry =>
            rw [sendLoop_retry hrest]
            rcases ih rest with ⟨used, hsplit, hspec⟩
            exact ⟨.retry :: used, by rw [List.cons_append, ← hsplit], hspec.retry⟩
        | accepted more =>
            rw [sendLoop_accepted hrest]
            rcases ih (rest.drop (more + 1)) with ⟨used, hsplit, hspec⟩
            have hpart : rest.take (more + 1) ≠ [] := by
              cases rest with
              | nil => exact absurd rfl hrest
              | cons b rest => simp
            have hwhole := hspec.accepted hpart more
            rw [List.take_append_drop] at hwhole
            exact ⟨.accepted more :: used, by rw [List.cons_append, ← hsplit], hwhole⟩

/-- Without an error, a `send` that returns has handed on the whole buffer. -/
theorem send_complete {conn : Connection} {results : List SendResult}
    (h : (conn.send results).returned = true) (hresults : .failed ∉ results) :
    (conn.send results).accepted = conn.writeBuf ∧
      (conn.send results).conn = { conn with writeBuf := [] } := by
  obtain ⟨used, hsplit, hspec⟩ := sendLoop_spec results conn.writeBuf
  have hused : .failed ∉ used := fun hmem => hresults (hsplit ▸ List.mem_append_left _ hmem)
  refine ⟨?_, ?_⟩
  · cases hspec.outcome with
    | complete hreturned hall => exact hall
    | dropped _ _ _ before hlast => exact absurd (by simp [hlast]) hused
    | blocked hreturned => exact absurd (h.symm.trans hreturned) (by decide)
  · simp only [send] at h ⊢
    rw [if_pos h]
    rfl

/-! ## The calls of `::send` -/

/-- The bytes that a call has handed on. -/
def SendCall.bytes (buf : Bytes) (call : SendCall) : Bytes :=
  (buf.drop call.offset).take call.write

theorem sendCalls_inside (toWrite : ℕ) (results : List SendResult) :
    ∀ currWrite, ∀ call ∈ sendCalls toWrite currWrite results,
      0 < call.length ∧ call.offset + call.length = toWrite := by
  induction results with
  | nil => simp [sendCalls]
  | cons result results ih =>
      intro currWrite call hcall
      by_cases hmore : currWrite < toWrite
      · rw [sendCalls, if_pos hmore] at hcall
        cases List.mem_cons.mp hcall with
        | inl heq =>
            subst heq
            dsimp only
            omega
        | inr hlater =>
            split at hlater
            · simp at hlater
            · exact ih _ call hlater
      · simp [sendCalls, hmore] at hcall

/-- The calls transfer what the loop over the rest of the buffer hands on, and use its results. -/
theorem sendLoop_eq_calls (buf : Bytes) (results : List SendResult) :
    ∀ currWrite,
      (sendLoop (buf.drop currWrite) results).1 =
          (sendCalls buf.length currWrite results).flatMap (SendCall.bytes buf) ∧
        results = (sendCalls buf.length currWrite results).map SendCall.result ++
          (sendLoop (buf.drop currWrite) results).2.2 := by
  induction results with
  | nil =>
      intro currWrite
      cases buf.drop currWrite <;> simp [sendLoop, sendCalls]
  | cons result results ih =>
      intro currWrite
      by_cases hmore : currWrite < buf.length
      · have hrest : buf.drop currWrite ≠ [] := by
          rw [ne_eq, List.drop_eq_nil_iff]
          omega
        cases result with
        | accepted more =>
            have hdrop : (buf.drop currWrite).drop (more + 1) =
                buf.drop (currWrite + min (more + 1) (buf.length - currWrite)) := by
              rw [List.drop_drop]
              by_cases hall : more + 1 ≤ buf.length - currWrite
              · rw [Nat.min_eq_left hall]
              · rw [Nat.min_eq_right (by omega), List.drop_eq_nil_of_le (by omega),
                  List.drop_eq_nil_of_le (by omega)]
            have htake : (buf.drop currWrite).take (more + 1) =
                (buf.drop currWrite).take (min (more + 1) (buf.length - currWrite)) := by
              rw [← List.length_drop, ← List.take_take, List.take_length]
            rw [sendLoop_accepted hrest, hdrop, htake, sendCalls, if_pos hmore]
            obtain ⟨haccepted, hused⟩ :=
              ih (currWrite + min (more + 1) (buf.length - currWrite))
            simp only [reduceCtorEq, if_false, SendCall.write, List.flatMap_cons, List.map_cons,
              List.cons_append]
            exact ⟨by rw [haccepted]; rfl, congrArg _ hused⟩
        | retry =>
            obtain ⟨haccepted, hused⟩ := ih currWrite
            rw [sendLoop_retry hrest, sendCalls, if_pos hmore]
            simp only [reduceCtorEq, if_false, SendCall.write, List.flatMap_cons, List.map_cons,
              List.cons_append, Nat.add_zero]
            exact ⟨by rw [haccepted]; simp [SendCall.bytes, SendCall.write], congrArg _ hused⟩
        | failed =>
            rw [sendLoop_failed hrest, sendCalls, if_pos hmore]
            simp [SendCall.bytes, SendCall.write]
      · have hnone : buf.drop currWrite = [] := List.drop_eq_nil_of_le (by omega)
        rw [hnone, sendLoop_nil, sendCalls, if_neg hmore]
        simp

/-- What `send` hands on is the beginning of the buffer, byte after byte, and all of it unless an
error ends the loop. Every call stays inside the buffer, which is empty on return. -/
theorem send_once {conn : Connection} {results : List SendResult}
    (h : (conn.send results).returned = true) :
    (conn.send results).accepted <+: conn.writeBuf ∧
      (conn.send results).accepted = (sendCalls conn.writeBuf.length 0 results).flatMap
        (SendCall.bytes conn.writeBuf) ∧
      ((conn.send results).accepted = conn.writeBuf ↔
        ∀ call ∈ sendCalls conn.writeBuf.length 0 results, call.result ≠ .failed) ∧
      (∀ call ∈ sendCalls conn.writeBuf.length 0 results,
        0 < call.length ∧ call.offset + call.length ≤ conn.writeBuf.length) ∧
      (conn.send results).conn = { conn with writeBuf := [] } := by
  obtain ⟨used, hsplit, hspec⟩ := sendLoop_spec results conn.writeBuf
  obtain ⟨haccepted, hcalls⟩ := sendLoop_eq_calls conn.writeBuf results 0
  rw [List.drop_zero] at haccepted hcalls
  have hused : used = (sendCalls conn.writeBuf.length 0 results).map SendCall.result :=
    List.append_cancel_right (hsplit.symm.trans hcalls)
  have hfailed : (∀ call ∈ sendCalls conn.writeBuf.length 0 results, call.result ≠ .failed) ↔
      .failed ∉ used := by
    rw [hused]
    simp
  have hinside : ∀ call ∈ sendCalls conn.writeBuf.length 0 results,
      0 < call.length ∧ call.offset + call.length ≤ conn.writeBuf.length := by
    intro call hcall
    obtain ⟨hpos, hend⟩ := sendCalls_inside conn.writeBuf.length results 0 call hcall
    exact ⟨hpos, hend.le⟩
  have hconn : (conn.send results).conn = { conn with writeBuf := [] } := by
    simp only [send] at h ⊢
    rw [if_pos h]
    rfl
  rw [hfailed]
  cases hspec.outcome with
  | complete hreturned hall hnone =>
      refine ⟨?_, haccepted, iff_of_true hall hnone, hinside, hconn⟩
      exact hall ▸ List.prefix_rfl
  | dropped hreturned hpart hne before hlast hbefore =>
      refine ⟨hpart, haccepted, iff_of_false hne (not_not.mpr ?_), hinside, hconn⟩
      rw [hlast]
      simp
  | blocked hreturned hpart hne hnone hleft =>
      exact absurd (h.symm.trans hreturned) (by decide)

theorem send_once_parts :
    (Connection.send ⟨[], ascii "abc"⟩ [.accepted 0, .retry, .accepted 5]).accepted =
      ascii "abc" := by
  have hreturned : (Connection.send ⟨[], ascii "abc"⟩
      [.accepted 0, .retry, .accepted 5]).returned = true := by decide
  exact (send_once hreturned).2.2.1.mpr (by decide)

end Connection

end FalconLink
