import FalconLink.Verification.Http.Session

/-! # What the kernel accepts of the responses -/

namespace FalconLink.Http

open Connection Framing

/-! ## Deliveries and the results they use -/

/-- The deliveries `ds`, one after the other, use the results `used` of `::send`. `returned` says
whether the last of them has returned; all the others have. -/
inductive Logged : List SendResult → List Delivery → Bool → Prop where
  | nil : Logged [] [] true
  | cons {part used : List SendResult} {d : Delivery} {ds : List Delivery} {returned : Bool}
      (left : List SendResult) (hspec : SendSpec d.response d.accepted true part left)
      (hrest : Logged used ds returned) : Logged (part ++ used) (d :: ds) returned
  | last {part : List SendResult} {d : Delivery}
      (hspec : SendSpec d.response d.accepted false part []) : Logged part [d] false

namespace Session

variable {env : Env}

/-- A connection between two deliveries: the write buffer is empty. -/
structure Ready (s : Session) : Prop where
  kept : s.status = .kept
  written : s.conn.writeBuf = []

theorem ready_start (cache : Cache) (sends : List SendResult) : Ready (start cache sends) :=
  ⟨rfl, rfl⟩

/-- One delivery. -/
theorem deliver_spec {s : Session} (hs : Ready s) (reply : Reply) :
    ∃ used accepted returned,
      s.sends = used ++ (s.deliver reply).sends ∧
      (s.deliver reply).deliveries = s.deliveries ++ [⟨reply.bytes, accepted⟩] ∧
      SendSpec reply.bytes accepted returned used (s.deliver reply).sends ∧
      (s.deliver reply).cache = s.cache ∧
      (s.deliver reply).status =
        (if returned then if reply.noMoreParse then .deleted else .kept else .blocked) ∧
      (returned = true → (s.deliver reply).conn.writeBuf = []) := by
  rcases sendLoop_spec s.sends reply.bytes with ⟨used, hsplit, hspec⟩
  have hbuf : s.conn.writeBuf ++ reply.bytes = reply.bytes := by rw [hs.written]; rfl
  refine ⟨used, (sendLoop reply.bytes s.sends).1, (sendLoop reply.bytes s.sends).2.1, ?_⟩
  simp only [deliver, send, writeToWriteBuffer, hbuf]
  refine ⟨hsplit, trivial, hspec, trivial, ?_, ?_⟩
  · cases (sendLoop reply.bytes s.sends).2.1 <;> rfl
  · intro hreturned
    rw [if_pos hreturned]
    rfl

theorem serveFrame_ok {s : Session} {frame : Bytes} {reply : Reply} {cache : Cache}
    (hrun : (respond env.httpResourceDir frame).run (exec env) s.cache = .ok (reply, cache)) :
    serveFrame env s frame = ({ s with cache } : Session).deliver reply := by
  simp only [serveFrame, hrun]

theorem serveFrame_error {s : Session} {frame : Bytes} {fault : Fault}
    (hrun : (respond env.httpResourceDir frame).run (exec env) s.cache = .error fault) :
    serveFrame env s frame = { s with status := .faulted fault } := by
  simp only [serveFrame, hrun]

/-- Serving frames logs their deliveries. It is blocked by a `send` that has no result left. -/
theorem serveFrames_logged (frames : List Bytes) :
    ∀ s : Session, Ready s → ∃ used ds returned,
      s.sends = used ++ (serveFrames env frames s).sends ∧
      (serveFrames env frames s).deliveries = s.deliveries ++ ds ∧ Logged used ds returned ∧
      ((serveFrames env frames s).status = .blocked ↔ returned = false) ∧
      (returned = false → (serveFrames env frames s).sends = []) := by
  induction frames with
  | nil =>
      intro s hs
      exact ⟨[], [], true, rfl, (List.append_nil _).symm, .nil, by simp [serveFrames, hs.kept],
        by simp⟩
  | cons frame frames ih =>
      intro s hs
      cases hrun : (respond env.httpResourceDir frame).run (exec env) s.cache with
      | error fault =>
          have hserved := serveFrame_error hrun
          rw [serveFrames_cons_stopped (by rw [hserved]; simp), hserved]
          exact ⟨[], [], true, rfl, (List.append_nil _).symm, .nil, by simp, by simp⟩
      | ok answer =>
          rcases answer with ⟨reply, cache⟩
          have hserved := serveFrame_ok hrun
          rcases @deliver_spec { s with cache } ⟨hs.kept, hs.written⟩ reply with
            ⟨used, accepted, returned, hsends, hds, hspec, -, hstatus, hbuf⟩
          rw [← hserved] at hsends hds hspec hstatus hbuf
          by_cases hkept : (serveFrame env s frame).status = .kept
          · rw [serveFrames_cons_kept hkept]
            have hreturned : returned = true := by
              cases returned with
              | true => rfl
              | false => simp [hstatus] at hkept
            subst hreturned
            rcases ih _ ⟨hkept, hbuf rfl⟩ with
              ⟨used', ds, returned', hsends', hds', hlog, hblocked⟩
            refine ⟨used ++ used', ⟨reply.bytes, accepted⟩ :: ds, returned', ?_, ?_, ?_, hblocked⟩
            · rw [List.append_assoc, ← hsends']
              exact hsends
            · rw [hds', hds, List.append_assoc]
              rfl
            · exact .cons _ hspec hlog
          · rw [serveFrames_cons_stopped hkept]
            have hleft : returned = false → (serveFrame env s frame).sends = [] := by
              intro hreturned
              cases hspec.outcome with
              | complete hno => simp [hreturned] at hno
              | dropped hno => simp [hreturned] at hno
              | blocked _ _ _ _ hleft => exact hleft
            refine ⟨used, [⟨reply.bytes, accepted⟩], returned, hsends, hds, ?_, ?_, hleft⟩
            · cases returned with
              | true => simpa using Logged.cons _ hspec .nil
              | false => exact .last (hleft rfl ▸ hspec)
            · rw [hstatus]
              cases returned <;> cases reply.noMoreParse <;> simp

/-- The same for all calls of the handler on a new connection. -/
theorem processAll_logged (cache : Cache) (sends : List SendResult)
    (batches : List (List RecvResult)) : ∃ used returned,
      sends = used ++ (processAll env (start cache sends) batches).sends ∧
      Logged used (processAll env (start cache sends) batches).deliveries returned ∧
      ((serveFrames env (frames batches) (start cache sends)).status = .blocked ↔
        returned = false) ∧
      (returned = false → (processAll env (start cache sends) batches).sends = []) := by
  rcases @serveFrames_logged env (frames batches) (start cache sends) (ready_start cache sends) with
    ⟨used, ds, returned, hsends, hds, hlog, hblocked, hleft⟩
  refine ⟨used, returned, ?_, ?_, hblocked, fun hreturned => ?_⟩
  · rw [processAll_sends]
    exact hsends
  · rw [processAll_deliveries]
    exact (show _ = ds from hds) ▸ hlog
  · rw [processAll_sends]
    exact hleft hreturned

end Session

/-! ## Torn streams -/

/-- The bytes the kernel has accepted. -/
def acceptedBytes (ds : List Delivery) : Bytes :=
  ds.flatMap Delivery.accepted

/-- The complete responses. -/
def responseBytes (ds : List Delivery) : Bytes :=
  ds.flatMap Delivery.response

/-- The accepted bytes are a prefix of the responses, and after a response of which a part is
missing nothing of a later one has been accepted. -/
structure Untorn (ds : List Delivery) : Prop where
  ordered : acceptedBytes ds <+: responseBytes ds
  silent : ds.Pairwise fun d d' => d.accepted ≠ d.response → d'.accepted = []

/-- After an error that is not a retry, `::send` accepts nothing any more. -/
def Permanent (results : List SendResult) : Prop :=
  results.Pairwise fun r r' => r = .failed → takesBytes r' = false

theorem permanent_of_no_failure {results : List SendResult} (h : .failed ∉ results) :
    Permanent results :=
  List.pairwise_of_forall_mem_list fun _ hr _ _ hfailed => absurd (hfailed ▸ hr) h

namespace Logged

variable {used : List SendResult} {ds : List Delivery} {returned : Bool}

theorem silent_iff (h : Logged used ds returned) :
    (∀ d ∈ ds, d.accepted = []) ↔ ∀ r ∈ used, takesBytes r = false := by
  induction h with
  | nil => simp
  | cons left hspec _ ih => simp [hspec.silent, ih, or_imp, forall_and]
  | last hspec => simp [hspec.silent]

/-- Later responses stay silent after a dropped one exactly when errors are permanent. -/
theorem silent_iff_permanent (h : Logged used ds returned) :
    (ds.Pairwise fun d d' => d.accepted ≠ d.response → d'.accepted = []) ↔ Permanent used := by
  induction h with
  | nil => simp [Permanent]
  | @cons part used d ds returned left hspec hrest ih =>
      rw [List.pairwise_cons, Permanent, List.pairwise_append, ih]
      cases hspec.outcome with
      | complete _ hall hused =>
          have hcross : ∀ r ∈ part, ∀ r' ∈ used, r = .failed → takesBytes r' = false :=
            fun r hr _ _ hfailed => absurd (hfailed ▸ hr) hused
          simp only [hall, ne_eq, not_true_eq_false, false_imp_iff, implies_true, true_and]
          exact ⟨fun h => ⟨permanent_of_no_failure hused, h, hcross⟩, fun h => h.2.1⟩
      | dropped _ hpart hne before hused hbefore =>
          have hfirst : Permanent part := by
            rw [hused, Permanent, List.pairwise_append]
            refine ⟨permanent_of_no_failure hbefore, by simp, ?_⟩
            exact fun r hr _ _ hfailed => absurd (hfailed ▸ hr) hbefore
          have hcross : (∀ r ∈ part, ∀ r' ∈ used, r = .failed → takesBytes r' = false) ↔
              ∀ r' ∈ used, takesBytes r' = false := by
            constructor
            · exact fun h r' hr' => h .failed (by simp [hused]) r' hr' rfl
            · exact fun h r _ r' hr' _ => h r' hr'
          rw [hcross, ← hrest.silent_iff]
          simp only [hne, ne_eq, not_false_eq_true, true_imp_iff]
          exact ⟨fun h => ⟨hfirst, h.2, h.1⟩, fun h => ⟨h.2.2, h.2.1⟩⟩
      | blocked hreturned => cases hreturned
  | last hspec =>
      cases hspec.outcome with
      | complete hreturned => cases hreturned
      | dropped hreturned => cases hreturned
      | blocked _ _ _ hused _ => simpa using permanent_of_no_failure hused

theorem accepted_initial {rest accepted : Bytes} {returned : Bool} {used left : List SendResult}
    (h : SendSpec rest accepted returned used left) : accepted <+: rest := by
  cases h.outcome with
  | complete _ hall => exact hall ▸ List.prefix_rfl
  | dropped _ hpart => exact hpart
  | blocked _ hpart => exact hpart

theorem ordered (h : Logged used ds returned)
    (hsilent : ds.Pairwise fun d d' => d.accepted ≠ d.response → d'.accepted = []) :
    acceptedBytes ds <+: responseBytes ds := by
  induction h with
  | nil => exact List.prefix_rfl
  | @cons part used d ds returned left hspec hrest ih =>
      rw [List.pairwise_cons] at hsilent
      simp only [acceptedBytes, responseBytes, List.flatMap_cons]
      by_cases hall : d.accepted = d.response
      · rw [hall]
        exact (List.prefix_append_right_inj _).mpr (ih hsilent.2)
      · have hnothing : ds.flatMap Delivery.accepted = [] := by
          rw [List.flatMap_eq_nil_iff]
          exact fun d' hd' => hsilent.1 d' hd' hall
        rw [hnothing, List.append_nil]
        exact (accepted_initial hspec).trans (List.prefix_append _ _)
  | last hspec => simpa [acceptedBytes, responseBytes] using accepted_initial hspec

/-- A `send` that does not return leaves a part of its response. The bytes accepted are at least as
many as the results that accept some. -/
theorem short (h : Logged used ds returned) (hused : .failed ∉ used) (hreturned : returned = false) :
    used.countP takesBytes < (responseBytes ds).length := by
  induction h with
  | nil => cases hreturned
  | cons left hspec hrest ih =>
      rw [List.mem_append, not_or] at hused
      have hlater := ih hused.2 hreturned
      have hfirst := (accepted_initial hspec).length_le
      have hcount := hspec.count
      simp only [responseBytes, List.flatMap_cons, List.length_append, List.countP_append] at hlater ⊢
      omega
  | @last part d hspec =>
      have hcount := hspec.count
      cases hspec.outcome with
      | complete hno => cases hno
      | dropped hno => cases hno
      | blocked _ hpart hne =>
          have hle := hpart.length_le
          have hlt : d.accepted.length ≠ d.response.length :=
            fun hlen => hne (hpart.eq_of_length hlen)
          simp only [responseBytes, List.flatMap_cons, List.flatMap_nil, List.append_nil]
          omega

/-- Without an error every delivery that returns is complete. -/
theorem complete (h : Logged used ds returned) (hused : .failed ∉ used) (hreturned : returned = true) :
    acceptedBytes ds = responseBytes ds := by
  induction h with
  | nil => rfl
  | cons left hspec hrest ih =>
      rw [List.mem_append, not_or] at hused
      simp only [acceptedBytes, responseBytes, List.flatMap_cons]
      cases hspec.outcome with
      | complete _ hall => exact congr (congrArg _ hall) (ih hused.2 hreturned)
      | dropped _ _ _ before hpart => exact absurd (by simp [hpart]) hused.1
      | blocked hno => cases hno
  | last => cases hreturned

theorem untorn_iff (h : Logged used ds returned) : Untorn ds ↔ Permanent used := by
  rw [← h.silent_iff_permanent]
  exact ⟨fun hds => hds.silent, fun hds => ⟨h.ordered hds, hds⟩⟩

end Logged

theorem Permanent.of_prefix {results front : List SendResult} (h : Permanent results)
    (hfront : front <+: results) : Permanent front :=
  h.sublist hfront.sublist

/-- When `sends` are the results of the calls of `::send` that are made, the stream is untorn
after each of these calls exactly when errors are permanent. -/
theorem untorn_iff_permanent (env : Env) (cache : Cache) (batches : List (List RecvResult))
    (sends : List SendResult)
    (hmade : (Session.processAll env (.start cache sends) batches).sends = []) :
    (∀ n, Untorn (Session.processAll env (.start cache (sends.take n)) batches).deliveries) ↔
      Permanent sends := by
  constructor
  · intro huntorn
    rcases @Session.processAll_logged env cache sends batches with
      ⟨used, returned, hsplit, hlog, -⟩
    rw [hmade, List.append_nil] at hsplit
    have hlast := huntorn sends.length
    rw [List.take_length] at hlast
    exact hsplit ▸ hlog.untorn_iff.mp hlast
  · intro hpermanent n
    rcases @Session.processAll_logged env cache (sends.take n) batches with
      ⟨used, returned, hsplit, hlog, -⟩
    refine hlog.untorn_iff.mpr (hpermanent.of_prefix ?_)
    have hused : used <+: sends.take n := ⟨_, hsplit.symm⟩
    exact hused.trans (List.take_prefix n sends)

/-- A server of one file. -/
def serving (path contents : Bytes) : Env :=
  ⟨[], fun p => if p = path then .regular contents else .absent, fun _ _ => .ok []⟩

/-- What `::recv` gives when the bytes are there at once and no more come for now. -/
def arrival (bytes : Bytes) : List RecvResult :=
  if h : bytes ≠ [] ∧ bytes.length ≤ tempBufSize then [.chunk ⟨bytes, h.1, h.2⟩, .again]
  else [.again]

/-- A request for the file `/a` on a connection that is to be kept. -/
def getAndKeep : Bytes :=
  ascii "GET /a HTTP/1.1\r\nConnection: Keep-Alive\r\n\r\n"

/-- A request for the file `/a` and nothing more. -/
def getAndClose : Bytes :=
  ascii "GET /a HTTP/1.1\r\n\r\n"

theorem untorn_iff_permanent_serving :
    Untorn (Session.processAll (serving (ascii "/a") (ascii "x"))
      (.start (Cache.new 10 id) (([.accepted 4, .retry, .failed, .failed] : List SendResult).take 4))
      [arrival getAndKeep, arrival getAndClose]).deliveries :=
  (untorn_iff_permanent _ _ _ _ (by decide)).mpr (by unfold Permanent; decide) 4

/-- The part of a response that an error drops is missing before the next response. -/
theorem serving_torn :
    (Session.processAll (serving (ascii "/a") (ascii "x"))
      (.start (Cache.new 10 id) [.accepted 4, .failed, .accepted 1000])
      [arrival (getAndKeep ++ getAndClose)]).sends = [] ∧
    ¬Untorn (Session.processAll (serving (ascii "/a") (ascii "x"))
      (.start (Cache.new 10 id) [.accepted 4, .failed, .accepted 1000])
      [arrival (getAndKeep ++ getAndClose)]).deliveries :=
  ⟨by decide, fun h => absurd h.ordered (by decide)⟩

end FalconLink.Http
