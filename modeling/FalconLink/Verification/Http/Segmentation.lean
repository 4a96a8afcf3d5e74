import FalconLink.Verification.Http.Answers

/-! # Segmentation of the client's stream -/

namespace FalconLink.Http

open Framing Connection Session

section

variable {env : Env} {cache : Cache} {sends : List SendResult} {batches : List (List RecvResult)}

/-- The responses are those of the server without a cache. All are written unless a `send` does
not return. -/
theorem processAll_answers (hcache : Faithful env cache) : ∃ answered,
    answered <+: answers env (frames batches) ∧
    responseBytes (processAll env (start cache sends) batches).deliveries =
      answered.flatMap Reply.bytes ∧
    ((serveFrames env (frames batches) (start cache sends)).status ≠ .blocked →
      (serveFrames env (frames batches) (start cache sends)).status =
        verdict env (frames batches) ∧
      answered = answers env (frames batches)) := by
  rcases serveFrames_answers (answersWith_faithful env) (frames batches) (start cache sends)
    (ready_start cache sends) hcache with ⟨ds, answered, hds, hinitial, hrel, hall⟩
  refine ⟨answered, hinitial, ?_, hall⟩
  rw [processAll_deliveries, hds]
  change responseBytes ds = _
  clear hds hinitial hall
  induction hrel with
  | nil => rfl
  | cons hfirst _ ih =>
      rcases hfirst with ⟨reply', rfl, hresponse⟩
      simp only [responseBytes, List.flatMap_cons] at ih ⊢
      rw [hresponse, ih]

/-- When no `::send` fails, what is accepted is a prefix of the answers, and all of them once
every `send` has returned. -/
theorem processAll_accepted (hcache : Faithful env cache) (hsends : .failed ∉ sends) :
    acceptedBytes (processAll env (start cache sends) batches).deliveries <+:
      (answers env (frames batches)).flatMap Reply.bytes ∧
    ((serveFrames env (frames batches) (start cache sends)).status ≠ .blocked →
      acceptedBytes (processAll env (start cache sends) batches).deliveries =
        (answers env (frames batches)).flatMap Reply.bytes) ∧
    (((answers env (frames batches)).flatMap Reply.bytes).length ≤ sends.countP takesBytes →
      (serveFrames env (frames batches) (start cache sends)).status ≠ .blocked) := by
  rcases @processAll_logged env cache sends batches with
    ⟨used, returned, hsplit, hlog, hblocked, hleft⟩
  rcases @processAll_answers env cache sends batches hcache with
    ⟨answered, hinitial, hresponses, hall⟩
  have hused : .failed ∉ used := fun hmem => hsends (hsplit ▸ List.mem_append_left _ hmem)
  have hpart : answered.flatMap Reply.bytes <+: (answers env (frames batches)).flatMap Reply.bytes := by
    rcases hinitial with ⟨others, hothers⟩
    rw [← hothers, List.flatMap_append]
    exact List.prefix_append _ _
  refine ⟨?_, fun hreturned => ?_, fun henough hstuck => ?_⟩
  · have hordered := (hlog.untorn_iff.mpr (permanent_of_no_failure hused)).ordered
    rw [hresponses] at hordered
    exact hordered.trans hpart
  · have htrue : returned = true := by
      cases returned with
      | true => rfl
      | false => exact absurd (hblocked.mpr rfl) hreturned
    rw [hlog.complete hused htrue, hresponses, (hall hreturned).2]
  · have hfalse := hblocked.mp hstuck
    have hshort := hlog.short hused hfalse
    rw [hleft hfalse, List.append_nil] at hsplit
    rw [hresponses, ← hsplit] at hshort
    have hle := hpart.length_le
    omega

end

/-- Each `recv` of these batches ends because no more data is there for now. -/
def Data (batches : List (List RecvResult)) : Prop :=
  ∀ results ∈ batches, ending results = some false

theorem Data.stream_eq {batches : List (List RecvResult)} (h : Data batches) :
    stream batches = (batches.map received).flatten := by
  induction batches with
  | nil => rfl
  | cons results batches ih =>
      rw [stream, if_pos (h results List.mem_cons_self),
        ih fun r hr => h r (List.mem_cons_of_mem results hr)]
      rfl

theorem Data.finish_eq {batches : List (List RecvResult)} (h : Data batches) :
    finish batches = .kept := by
  induction batches with
  | nil => rfl
  | cons results batches ih =>
      rw [finish, h results List.mem_cons_self]
      exact ih fun r hr => h r (List.mem_cons_of_mem results hr)

theorem verdict_eq {env : Env} {frames : List Bytes}
    (h : ∀ frame ∈ upToClosing env frames, servable env frame = true) :
    verdict env frames =
      if (answers env frames).any Reply.noMoreParse then .deleted else .kept := by
  induction frames with
  | nil => rfl
  | cons frame frames ih =>
      simp only [upToClosing] at h
      rcases (servable_iff env frame).mp (h frame (by split <;> simp)) with ⟨reply, hreply⟩
      have hsame := noMoreParse_eq hreply
      simp only [verdict, answers, hreply]
      cases hclose : closes env frame with
      | true => simp [hsame, hclose]
      | false =>
          simp only [hclose, Bool.false_eq_true, if_false] at h
          simpa [hsame, hclose] using ih fun f hf => h f (List.mem_cons_of_mem frame hf)

/-- However the stream is cut, the bytes sent and the status are those of one batch. They are the
answers to the frames of the stream, up to the first one that closes, and the connection is
deleted if there is such an answer. Nothing keeps them back as long as the kernel accepts bytes. -/
theorem segmentation_independence (env : Env) (cache : Cache) (sends : List SendResult)
    (batches : List (List RecvResult)) (whole : List RecvResult)
    (hcache : Faithful env cache) (hsends : .failed ∉ sends) (hbatches : Data batches)
    (hwhole : Data [whole]) (hsame : received whole = (batches.map received).flatten)
    (hservable : ∀ frame ∈ (drain crlfcrlf (received whole)).1, servable env frame = true) :
    let s := processAll env (start cache sends) batches
    let t := processAll env (start cache sends) [whole]
    let replies := answers env (drain crlfcrlf (received whole)).1
    acceptedBytes s.deliveries = acceptedBytes t.deliveries ∧ s.status = t.status ∧
      acceptedBytes s.deliveries <+: replies.flatMap Reply.bytes ∧
      (s.status ≠ .blocked → acceptedBytes s.deliveries = replies.flatMap Reply.bytes ∧
        s.status = if replies.any Reply.noMoreParse then .deleted else .kept) ∧
      ((replies.flatMap Reply.bytes).length ≤ sends.countP takesBytes → s.status ≠ .blocked) := by
  intro s t replies
  have hframes : frames batches = (drain crlfcrlf (received whole)).1 := by
    rw [frames, hbatches.stream_eq, hsame]
  have hframes' : frames [whole] = (drain crlfcrlf (received whole)).1 := by
    rw [frames, hwhole.stream_eq]
    simp
  have hstatus : s.status =
      (serveFrames env (drain crlfcrlf (received whole)).1 (start cache sends)).status := by
    rw [processAll_status, hframes, hbatches.finish_eq]
    split <;> simp_all
  have hstatus' : t.status =
      (serveFrames env (drain crlfcrlf (received whole)).1 (start cache sends)).status := by
    rw [processAll_status, hframes', hwhole.finish_eq]
    split <;> simp_all
  have hdeliveries : s.deliveries = t.deliveries := by
    rw [processAll_deliveries, processAll_deliveries, hframes, hframes']
  rcases @processAll_accepted env cache sends batches hcache hsends with ⟨hinitial, hall, henough⟩
  rw [hframes, ← hstatus] at hall henough
  rw [hframes] at hinitial
  refine ⟨by rw [hdeliveries], by rw [hstatus, hstatus'], hinitial, fun hreturned => ?_, henough⟩
  refine ⟨hall hreturned, ?_⟩
  rcases @processAll_answers env cache sends batches hcache with ⟨answered, -, -, hverdict⟩
  rw [hframes, ← hstatus] at hverdict
  rw [(hverdict hreturned).1,
    verdict_eq fun frame hframe => hservable frame (mem_of_mem_upToClosing hframe)]

theorem segmentation_independence_serving :
    acceptedBytes (processAll (serving (ascii "/a") (ascii "x"))
      (start (Cache.new 10 id) [.accepted 20, .retry, .accepted 1000, .accepted 1000])
      [arrival (getAndKeep.take 40), arrival (getAndKeep.drop 40 ++ getAndClose.take 7),
        arrival (getAndClose.drop 7)]).deliveries =
    acceptedBytes (processAll (serving (ascii "/a") (ascii "x"))
      (start (Cache.new 10 id) [.accepted 20, .retry, .accepted 1000, .accepted 1000])
      [arrival (getAndKeep ++ getAndClose)]).deliveries :=
  (segmentation_independence _ _ _ _ _ (holding_new _ 10 id) (by decide) (by unfold Data; decide)
    (by unfold Data; decide) (by decide) (by decide)).1

/-! ## The end of the stream -/

theorem answers_append {env : Env} {front : List Bytes} (back : List Bytes)
    (h : ∀ frame ∈ upToClosing env front, servable env frame = true) :
    answers env (front ++ back) =
      if front.any (closes env) then answers env front
      else answers env front ++ answers env back := by
  induction front with
  | nil => rfl
  | cons frame front ih =>
      simp only [upToClosing] at h
      rcases (servable_iff env frame).mp (h frame (by split <;> simp)) with ⟨reply, hreply⟩
      have hsame := noMoreParse_eq hreply
      cases hclose : closes env frame with
      | true => simp [answers, hreply, hsame, hclose]
      | false =>
          simp only [hclose, Bool.false_eq_true, if_false] at h
          have hrest := ih fun f hf => h f (List.mem_cons_of_mem frame hf)
          simp only [List.cons_append, answers, hreply, hsame, hclose, hrest, List.any_cons,
            Bool.false_or, Bool.false_eq_true, if_false]
          split <;> rfl

section

variable {batches : List (List RecvResult)} {last : List RecvResult}

theorem stream_append_last (hbatches : Data batches) (hlast : ending last = some true) :
    stream (batches ++ [last]) = stream batches := by
  induction batches with
  | nil => simp [stream, hlast]
  | cons results batches ih =>
      rw [List.cons_append, stream, stream, ih fun r hr => hbatches r (List.mem_cons_of_mem _ hr)]

end

end FalconLink.Http
