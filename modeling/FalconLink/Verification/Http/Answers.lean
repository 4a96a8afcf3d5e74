import FalconLink.Verification.Http.Delivery
import FalconLink.Verification.Http.Transparency

/-! # The answers to a stream of requests -/

namespace FalconLink.Http

open Framing Connection Session

/-- The answers to successive frames, up to the first one that closes the connection. They end
where a frame is answered by an exception. -/
def answers (env : Env) : List Bytes → List Reply
  | [] => []
  | frame :: frames =>
      match uncached env frame with
      | .ok reply => if reply.noMoreParse then [reply] else reply :: answers env frames
      | .error _ => []

/-- How a connection stands when successive frames have been served. -/
def verdict (env : Env) : List Bytes → Status
  | [] => .kept
  | frame :: frames =>
      match uncached env frame with
      | .ok reply => if reply.noMoreParse then .deleted else verdict env frames
      | .error fault => .faulted fault

/-- When the entries of the cache satisfy `P`, the answers of the handler relate by `R` to those of
the server without a cache. -/
structure AnswersWith (env : Env) (P : Bytes → Bytes → Prop) (R : Reply → Reply → Prop) : Prop where
  ensures : ∀ frame reply, uncached env frame = .ok reply →
    Ensures env P (R reply) (respond env.httpResourceDir frame)
  closes : ∀ reply reply', R reply reply' → reply'.noMoreParse = reply.noMoreParse

/-- With a cache of what is in the files the answers are equal. -/
theorem answersWith_faithful (env : Env) :
    AnswersWith env (fun path data => env.fs path = .regular data) fun reply reply' =>
      reply' = reply where
  ensures _ _ h := ensures_uncached h
  closes _ _ h := h ▸ rfl

section

variable {env : Env} {P : Bytes → Bytes → Prop} {R : Reply → Reply → Prop}

/-- A frame that the server without a cache answers. -/
theorem serveFrame_answered (hR : AnswersWith env P R) {s : Session} {frame : Bytes} {reply : Reply}
    (hs : Ready s) (hcache : Holding P s.cache) (h : uncached env frame = .ok reply) :
    ∃ reply' accepted, R reply reply' ∧ Holding P (serveFrame env s frame).cache ∧
      (serveFrame env s frame).deliveries = s.deliveries ++ [⟨reply'.bytes, accepted⟩] ∧
      ((serveFrame env s frame).status = .blocked ∨
        (serveFrame env s frame).status = (if reply.noMoreParse then .deleted else .kept) ∧
          (serveFrame env s frame).conn.writeBuf = []) := by
  rcases (hR.ensures frame reply h).run hcache with ⟨reply', cache, hrun, hcache', hreply⟩
  rw [serveFrame_ok hrun]
  rcases @deliver_spec { s with cache } ⟨hs.kept, hs.written⟩ reply' with
    ⟨used, accepted, returned, -, hds, -, hsame, hstatus, hbuf⟩
  refine ⟨reply', accepted, hreply, hsame ▸ hcache', hds, ?_⟩
  cases returned with
  | false => exact Or.inl hstatus
  | true =>
      rw [hR.closes reply reply' hreply] at hstatus
      exact Or.inr ⟨hstatus, hbuf rfl⟩

/-- Serving frames delivers the answers, and all of them unless a `send` does not return. -/
theorem serveFrames_answers (hR : AnswersWith env P R) (frames : List Bytes) :
    ∀ s : Session, Ready s → Holding P s.cache → ∃ ds answered,
      (serveFrames env frames s).deliveries = s.deliveries ++ ds ∧
      answered <+: answers env frames ∧
      List.Forall₂ (fun d reply => ∃ reply', R reply reply' ∧ d.response = reply'.bytes) ds
        answered ∧
      ((serveFrames env frames s).status ≠ .blocked →
        (serveFrames env frames s).status = verdict env frames ∧
        answered = answers env frames) := by
  induction frames with
  | nil =>
      intro s hs _
      exact ⟨[], [], (List.append_nil _).symm, List.prefix_rfl, .nil, fun _ => ⟨hs.kept, rfl⟩⟩
  | cons frame frames ih =>
      intro s hs hcache
      cases hanswer : uncached env frame with
      | error fault =>
          have hserved := serveFrame_error (run_respond_error hanswer s.cache)
          rw [serveFrames_cons_stopped (by rw [hserved]; simp), hserved]
          simp only [answers, verdict, hanswer]
          exact ⟨[], [], (List.append_nil _).symm, List.prefix_rfl, .nil, fun _ => by simp⟩
      | ok reply =>
          rcases serveFrame_answered hR hs hcache hanswer with
            ⟨reply', accepted, hreply, hcache', hds, hstatus⟩
          by_cases hkept : (serveFrame env s frame).status = .kept
          · rcases hstatus with hblocked | ⟨hstatus, hbuf⟩
            · rw [hblocked] at hkept
              cases hkept
            · have hopen : reply.noMoreParse = false := by
                cases hclose : reply.noMoreParse with
                | false => rfl
                | true => simp [hstatus, hclose] at hkept
              rw [serveFrames_cons_kept hkept]
              simp only [answers, verdict, hanswer, hopen, Bool.false_eq_true, if_false]
              rcases ih _ ⟨hkept, hbuf⟩ hcache' with ⟨ds, answered, hds', hfront, hrel, hall⟩
              refine ⟨⟨reply'.bytes, accepted⟩ :: ds, reply :: answered, ?_, ?_, ?_,
                fun hreturned => ?_⟩
              · rw [hds', hds, List.append_assoc]
                rfl
              · exact (List.prefix_cons_inj reply).mpr hfront
              · exact .cons ⟨reply', hreply, rfl⟩ hrel
              · rcases hall hreturned with ⟨hverdict, rfl⟩
                exact ⟨hverdict, rfl⟩
          · rw [serveFrames_cons_stopped hkept]
            refine ⟨[⟨reply'.bytes, accepted⟩], [reply], hds, ?_, .cons ⟨reply', hreply, rfl⟩ .nil,
              fun hreturned => ?_⟩
            · simp only [answers, hanswer]
              split <;> simp
            · rcases hstatus with hblocked | ⟨hstatus, -⟩
              · exact absurd hblocked hreturned
              · have hclose : reply.noMoreParse = true := by
                  cases hopen : reply.noMoreParse with
                  | true => rfl
                  | false => simp [hstatus, hopen] at hkept
                simp only [answers, verdict, hanswer, hclose, if_true]
                exact ⟨by simpa [hclose] using hstatus, trivial⟩

end

/-! ## Frames that are answered -/

def FileState.isRegular : FileState → Bool
  | .regular _ => true
  | _ => false

/-- The requested file is absent or regular. For a CGI program it is enough that its status can
be read and that its run returns. -/
def servable (env : Env) (frame : Bytes) : Bool :=
  match target env.httpResourceDir frame with
  | .malformed => true
  | .dynamic program arguments _ => env.fs program = .absent ||
      (env.fs program ≠ .statError && (env.run program arguments).isOk)
  | .static path _ _ => env.fs path = .absent || (env.fs path).isRegular

/-- The answer closes the connection. -/
def closes (env : Env) (frame : Bytes) : Bool :=
  match target env.httpResourceDir frame with
  | .malformed => true
  | .dynamic program _ shouldClose => env.fs program = .absent || shouldClose
  | .static path _ shouldClose => env.fs path = .absent || shouldClose

theorem servable_iff (env : Env) (frame : Bytes) :
    servable env frame = true ↔ ∃ reply, uncached env frame = .ok reply := by
  rw [uncached_eq, servable]
  cases target env.httpResourceDir frame with
  | malformed => simp [outcome]
  | dynamic program arguments shouldClose =>
      cases hfs : env.fs program <;> cases hrun : env.run program arguments <;>
        simp [outcome, hfs, hrun, Except.map, Except.isOk, Except.toBool]
  | static path method shouldClose =>
      cases hfs : env.fs path <;> simp [outcome, hfs, FileState.isRegular]

theorem noMoreParse_eq {env : Env} {frame : Bytes} {reply : Reply}
    (h : uncached env frame = .ok reply) : reply.noMoreParse = closes env frame := by
  rw [uncached_eq] at h
  rw [closes]
  cases htarget : target env.httpResourceDir frame with
  | malformed =>
      rw [htarget] at h
      exact (Except.ok.inj h) ▸ rfl
  | dynamic program arguments shouldClose =>
      rw [htarget] at h
      cases hfs : env.fs program <;> cases hrun : env.run program arguments <;>
        simp [outcome, hfs, hrun, Except.map] at h <;> simp [← h, hfs]
  | static path method shouldClose =>
      rw [htarget] at h
      cases hfs : env.fs path <;> simp [outcome, hfs] at h <;> simp [← h, hfs]

/-- The frames up to the first one whose answer closes the connection. -/
def upToClosing (env : Env) : List Bytes → List Bytes
  | [] => []
  | frame :: frames => if closes env frame then [frame] else frame :: upToClosing env frames

theorem mem_of_mem_upToClosing {env : Env} {frames : List Bytes} {frame : Bytes}
    (h : frame ∈ upToClosing env frames) : frame ∈ frames := by
  induction frames with
  | nil => exact h
  | cons first frames ih =>
      rw [upToClosing] at h
      split at h
      · rw [List.mem_singleton.mp h]
        exact List.mem_cons_self
      · rcases List.mem_cons.mp h with rfl | h
        · exact List.mem_cons_self
        · exact List.mem_cons_of_mem first (ih h)

end FalconLink.Http
