import FalconLink.Verification.Connection
import FalconLink.Model.Http.HttpServer

/-! # Calls of the handler and frames of the stream

However a stream is cut into batches, the handler serves the frames of the stream.
-/

namespace FalconLink.Http

open Framing Connection

namespace Session

/-- Serve frames while the connection is kept. -/
def serveFrames (env : Env) : List Bytes → Session → Session
  | [], s => s
  | frame :: frames, s =>
      let s := serveFrame env s frame
      if s.status = .kept then serveFrames env frames s else s

/-- The same session with other unread bytes. -/
def withReadBuf (s : Session) (readBuf : Bytes) : Session :=
  { s with conn := { s.conn with readBuf := readBuf } }

/-! ## Unread bytes do not matter for serving -/

section

variable {env : Env}

@[simp] theorem withReadBuf_withReadBuf (s : Session) (b b' : Bytes) :
    (s.withReadBuf b).withReadBuf b' = s.withReadBuf b' := rfl

@[simp] theorem withReadBuf_status (s : Session) (b : Bytes) :
    (s.withReadBuf b).status = s.status := rfl

@[simp] theorem withReadBuf_readBuf (s : Session) (b : Bytes) :
    (s.withReadBuf b).conn.readBuf = b := rfl

theorem deliver_withReadBuf (s : Session) (b : Bytes) (reply : Reply) :
    (s.withReadBuf b).deliver reply = (s.deliver reply).withReadBuf b := by
  simp only [deliver, withReadBuf, send, writeToWriteBuffer]
  by_cases hret : (sendLoop (s.conn.writeBuf ++ reply.bytes) s.sends).2.1 = true
  · simp only [hret, if_true]
    rfl
  · simp only [hret]
    rfl

theorem serveFrame_withReadBuf (s : Session) (b frame : Bytes) :
    serveFrame env (s.withReadBuf b) frame = (serveFrame env s frame).withReadBuf b := by
  simp only [serveFrame]
  rw [show (s.withReadBuf b).cache = s.cache from rfl]
  split
  · rename_i reply cache hrun
    exact deliver_withReadBuf { s with cache } b reply
  · rfl

theorem serveFrames_cons_kept {s : Session} {frame : Bytes}
    (h : (serveFrame env s frame).status = .kept) (frames : List Bytes) :
    serveFrames env (frame :: frames) s = serveFrames env frames (serveFrame env s frame) := by
  simp only [serveFrames, h, if_true]

theorem serveFrames_cons_stopped {s : Session} {frame : Bytes}
    (h : (serveFrame env s frame).status ≠ .kept) (frames : List Bytes) :
    serveFrames env (frame :: frames) s = serveFrame env s frame := by
  simp only [serveFrames, h, if_false]

theorem serveFrames_withReadBuf (frames : List Bytes) :
    ∀ (s : Session) (b : Bytes),
      serveFrames env frames (s.withReadBuf b) = (serveFrames env frames s).withReadBuf b := by
  induction frames with
  | nil => intro s b; rfl
  | cons frame frames ih =>
      intro s b
      have hframe := @serveFrame_withReadBuf env s b frame
      by_cases hkept : (serveFrame env s frame).status = .kept
      · rw [serveFrames_cons_kept (by rw [hframe]; exact hkept), hframe, ih,
          serveFrames_cons_kept hkept]
      · rw [serveFrames_cons_stopped (by rw [hframe]; exact hkept), hframe,
          serveFrames_cons_stopped hkept]

theorem serveFrames_append (frames frames' : List Bytes) :
    ∀ s : Session, s.status = .kept → serveFrames env (frames ++ frames') s =
      if (serveFrames env frames s).status = .kept then
        serveFrames env frames' (serveFrames env frames s)
      else serveFrames env frames s := by
  induction frames with
  | nil =>
      intro s hs
      simp [serveFrames, hs]
  | cons frame frames ih =>
      intro s hs
      rw [List.cons_append]
      by_cases hkept : (serveFrame env s frame).status = .kept
      · rw [serveFrames_cons_kept hkept, serveFrames_cons_kept hkept, ih _ hkept]
      · rw [serveFrames_cons_stopped hkept, serveFrames_cons_stopped hkept, if_neg hkept]

end

/-! ## The loop -/

section

variable {env : Env}

theorem crlfcrlf_ne_nil : crlfcrlf ≠ [] := by
  decide

theorem serveLoop_incomplete {s : Session} (rounds : ℕ)
    (hpop : popFrame crlfcrlf s.conn.readBuf = none) : serveLoop env rounds s = s := by
  cases rounds with
  | zero => rfl
  | succ rounds => simp [serveLoop, findAndPopTill, hpop]

theorem serveLoop_frame {s : Session} {frame rest : Bytes} (rounds : ℕ)
    (hpop : popFrame crlfcrlf s.conn.readBuf = some (frame, rest)) :
    serveLoop env (rounds + 1) s =
      if (serveFrame env (s.withReadBuf rest) frame).status = .kept then
        serveLoop env rounds (serveFrame env (s.withReadBuf rest) frame)
      else serveFrame env (s.withReadBuf rest) frame := by
  simp only [serveLoop, findAndPopTill, hpop, Option.map_some]
  rfl

/-- The loop serves the complete frames of the read buffer. What it leaves there when the
connection is kept is the incomplete rest. -/
theorem serveLoop_eq (b : Bytes) :
    ∀ (rounds : ℕ) (s : Session), b.length ≤ rounds → s.status = .kept →
      ∃ left, serveLoop env rounds (s.withReadBuf b) =
          (serveFrames env (drain crlfcrlf b).1 s).withReadBuf left ∧
        ((serveFrames env (drain crlfcrlf b).1 s).status = .kept → left = (drain crlfcrlf b).2) := by
  induction b using drain_induction crlfcrlf_ne_nil with
  | incomplete b hpop =>
      intro rounds s _ _
      refine ⟨b, ?_, fun _ => by rw [drain_of_none hpop]⟩
      rw [drain_of_none hpop, serveLoop_incomplete rounds hpop]
      rfl
  | frame b frame rest hpop ih =>
      intro rounds s hrounds hs
      have hshorter := popFrame_rest_length crlfcrlf_ne_nil hpop
      obtain ⟨rounds, rfl⟩ : ∃ n, rounds = n + 1 := ⟨rounds - 1, by omega⟩
      have hround : serveLoop env (rounds + 1) (s.withReadBuf b) =
          if (serveFrame env s frame).status = .kept then
            serveLoop env rounds ((serveFrame env s frame).withReadBuf rest)
          else (serveFrame env s frame).withReadBuf rest := by
        rw [serveLoop_frame rounds hpop]
        rw [show (s.withReadBuf b).withReadBuf rest = s.withReadBuf rest from rfl,
          serveFrame_withReadBuf]
        rfl
      rw [hround, drain_of_some crlfcrlf_ne_nil hpop]
      simp only [serveFrames]
      by_cases hkept : (serveFrame env s frame).status = .kept
      · simp only [hkept, if_true]
        exact ih rounds _ (by omega) hkept
      · simp only [hkept, if_false]
        exact ⟨rest, rfl, fun h => h.elim⟩

end

/-! ## All calls -/

/-- The bytes that arrive before the first `recv` that reports an exit or does not return. -/
def stream : List (List RecvResult) → Bytes
  | [] => []
  | results :: batches =>
      if ending results = some false then received results ++ stream batches else []

/-- The status that the connection has after that `recv`. -/
def finish : List (List RecvResult) → Status
  | [] => .kept
  | results :: batches =>
      match ending results with
      | some false => finish batches
      | some true => .deleted
      | none => .blocked

/-- The session after the last `recv`, when serving the frames before it led to `s`. -/
def finishWith (s : Session) (status : Status) : Session :=
  if s.status = .kept then { s with status } else s

theorem finishWith_withReadBuf (s : Session) (b : Bytes) (status : Status) :
    (s.withReadBuf b).finishWith status = (s.finishWith status).withReadBuf b := by
  by_cases h : s.status = .kept
  · simp only [finishWith, withReadBuf_status, h, if_true]
    rfl
  · simp only [finishWith, withReadBuf_status, h, if_false]

theorem processHttpRequest_eq {env : Env} (s : Session) (results : List RecvResult) :
    processHttpRequest env s results =
      match ending results with
      | none => { s with status := .blocked }
      | some true => { s.withReadBuf (s.conn.readBuf ++ received results) with status := .deleted }
      | some false => serveLoop env (s.conn.readBuf ++ received results).length
          (s.withReadBuf (s.conn.readBuf ++ received results)) := by
  simp only [processHttpRequest, recv_eq]
  cases ending results with
  | none => rfl
  | some exit => cases exit <;> rfl

theorem processAll_of_not_kept {env : Env} {s : Session} (h : s.status ≠ .kept)
    (batches : List (List RecvResult)) : processAll env s batches = s := by
  cases batches with
  | nil => rfl
  | cons results batches => simp only [processAll, h, if_false]

/-- Whatever the batches are, the calls serve the frames of the stream. -/
theorem processAll_eq {env : Env} (batches : List (List RecvResult)) :
    ∀ s : Session, s.status = .kept → popFrame crlfcrlf s.conn.readBuf = none →
      ∃ left, processAll env s batches =
        (finishWith (serveFrames env (drain crlfcrlf (s.conn.readBuf ++ stream batches)).1 s)
          (finish batches)).withReadBuf left := by
  induction batches with
  | nil =>
      intro s hs hpop
      refine ⟨s.conn.readBuf, ?_⟩
      simp only [processAll, stream, List.append_nil, drain_of_none hpop, serveFrames, finishWith,
        hs, if_true, finish]
      rw [← hs]
      rfl
  | cons results batches ih =>
      intro s hs hpop
      simp only [processAll, hs, if_true, processHttpRequest_eq, stream, finish]
      cases hending : ending results with
      | none =>
          refine ⟨s.conn.readBuf, ?_⟩
          rw [processAll_of_not_kept (by simp)]
          simp [drain_of_none hpop, serveFrames, finishWith, hs, withReadBuf]
      | some exit =>
          cases exit with
          | true =>
              refine ⟨s.conn.readBuf ++ received results, ?_⟩
              rw [processAll_of_not_kept (by simp)]
              simp [drain_of_none hpop, serveFrames, finishWith, hs, withReadBuf]
          | false =>
              rcases @serveLoop_eq env (s.conn.readBuf ++ received results) _ s le_rfl hs with
                ⟨left, hloop, hleft⟩
              simp only [hloop, if_true]
              rw [← List.append_assoc, drain_append crlfcrlf_ne_nil (s.conn.readBuf ++ received results)]
              simp only
              rw [serveFrames_append _ _ s hs]
              generalize hserved :
                serveFrames env (drain crlfcrlf (s.conn.readBuf ++ received results)).1 s = served
              rw [hserved] at hleft
              by_cases hkept : served.status = .kept
              · rw [if_pos hkept]
                rcases ih (served.withReadBuf left) hkept
                  (by rw [withReadBuf_readBuf, hleft hkept]; exact drain_rest crlfcrlf_ne_nil _) with
                  ⟨left', hrest⟩
                refine ⟨left', ?_⟩
                rw [hrest, withReadBuf_readBuf, hleft hkept, serveFrames_withReadBuf,
                  finishWith_withReadBuf, withReadBuf_withReadBuf]
              · have hstopped : (served.withReadBuf left).status ≠ .kept := hkept
                rw [if_neg hkept, processAll_of_not_kept hstopped, finishWith, if_neg hkept]
                exact ⟨left, rfl⟩

/-- The complete frames that arrive. -/
def frames (batches : List (List RecvResult)) : List Bytes :=
  (drain crlfcrlf (stream batches)).1

section

variable (env : Env) (cache : Cache) (sends : List SendResult) (batches : List (List RecvResult))

theorem processAll_start : ∃ left, processAll env (start cache sends) batches =
    ((serveFrames env (frames batches) (start cache sends)).finishWith
      (finish batches)).withReadBuf left :=
  processAll_eq batches (start cache sends) rfl (show popFrame crlfcrlf [] = none by decide)

theorem finishWith_log (s : Session) (status : Status) :
    (s.finishWith status).deliveries = s.deliveries ∧ (s.finishWith status).sends = s.sends := by
  rw [finishWith]
  split <;> exact ⟨rfl, rfl⟩

theorem processAll_deliveries : (processAll env (start cache sends) batches).deliveries =
    (serveFrames env (frames batches) (start cache sends)).deliveries := by
  rcases processAll_start env cache sends batches with ⟨left, h⟩
  rw [h]
  exact (finishWith_log _ _).1

theorem processAll_sends : (processAll env (start cache sends) batches).sends =
    (serveFrames env (frames batches) (start cache sends)).sends := by
  rcases processAll_start env cache sends batches with ⟨left, h⟩
  rw [h]
  exact (finishWith_log _ _).2

theorem processAll_status : (processAll env (start cache sends) batches).status =
    if (serveFrames env (frames batches) (start cache sends)).status = .kept then finish batches
    else (serveFrames env (frames batches) (start cache sends)).status := by
  rcases processAll_start env cache sends batches with ⟨left, h⟩
  rw [h, withReadBuf_status, finishWith]
  split <;> rfl

end

end Session

end FalconLink.Http
