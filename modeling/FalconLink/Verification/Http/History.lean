import FalconLink.Model.Http.History
import FalconLink.Verification.Http.Delivery
import FalconLink.Verification.Http.Transparency

/-! # Declared and sent lengths -/

namespace FalconLink.Http.History

open Cache

/-! ## The declared length -/

/-- The number in the first Content-Length header. -/
def declaredLength (response : Response) : Option ℕ :=
  (response.headers.find? fun header => header.key = headerContentLength).map fun header =>
    ofDecimal header.value

theorem declaredLength_ofFile (url : Bytes) (shouldClose : Bool) (size : ℕ) :
    declaredLength (Response.ofFile url shouldClose size) = some size := by
  have hserver : headerServer ≠ headerContentLength := by decide
  have hconnection : headerConnection ≠ headerContentLength := by decide
  simp [declaredLength, Response.ofFile, Header.make, hserver, hconnection, ofDecimal_toDecimal]

theorem declaredLength_ofOutput (shouldClose : Bool) (output : Bytes) :
    declaredLength (Response.ofOutput shouldClose output) = some output.length := by
  have hserver : headerServer ≠ headerContentLength := by decide
  have hconnection : headerConnection ≠ headerContentLength := by decide
  simp [declaredLength, Response.ofOutput, Response.plain, Response.changeHeader,
    Response.changeHeader.go, Header.make, Header.setValue, hserver, hconnection,
    ofDecimal_toDecimal]

def isOk (response : Response) : Prop :=
  response.statusLine = httpVersion ++ space ++ responseOk

instance (response : Response) : Decidable (isOk response) :=
  inferInstanceAs (Decidable (_ = _))

/-- A 200 response to a GET request is followed by as many bytes as it declares. -/
def Honest (x : Exchange) : Prop :=
  isOk x.reply.response → (Request.parse x.requestOp).method = .get →
    declaredLength x.reply.response = some x.reply.body.length

instance (x : Exchange) : Decidable (Honest x) :=
  inferInstanceAs (Decidable (_ → _ → _))

/-! ## The steps of a history -/

/-- A GET request for a regular file finds an entry of another size than the file has now. -/
def outdated (s : State) (requestOp : Bytes) : Bool :=
  match target s.env.httpResourceDir requestOp with
  | .static path .get _ =>
      match s.env.fs path, cachedData s.cache path with
      | .regular contents, some data => data.length != contents.length
      | _, _ => false
  | _ => false

def Current (s : State) : Event → Prop
  | .request requestOp => outdated s requestOp = false
  | .change _ _ => True

instance decidableCurrent (s : State) : (event : Event) → Decidable (Current s event)
  | .request requestOp => inferInstanceAs (Decidable (outdated s requestOp = false))
  | .change _ _ => isTrue trivial

/-- The body of a static answer is the cached data, when there is some. -/
theorem run_fetch {env : Env} {c : Cache} {path contents : Bytes}
    (hfs : env.fs path = .regular contents) (hc : Holding (fun _ _ => True) c) :
    ∃ c', (fetch path).run (exec env) c = .ok ((cachedData c path).getD contents, c') ∧
      Holding (fun _ _ => True) c' := by
  have hload : exec env (.loadFile path []) c = .ok (contents, c) := by
    simp [exec, execWith, loadFile_regular hfs, Except.map]
  rcases hc.tryLoad path [] with ⟨hnone, hmiss⟩ | ⟨data, c', hsome, -, hc', hhit⟩
  · rcases @Holding.tryInsert (fun _ _ => True) c path hc contents trivial with
      ⟨inserted, c', hinsert, hc'⟩
    refine ⟨c', ?_, hc'⟩
    rw [fetch, Prog.run_call_ok (r := (false, [])) (t := c) hmiss]
    simp only [Bool.false_eq_true, if_false]
    rw [Prog.run_call_ok hload, Prog.run_call_ok (r := inserted) (t := c') hinsert, hnone]
    rfl
  · refine ⟨c', ?_, hc'⟩
    rw [fetch, Prog.run_call_ok (r := (true, [] ++ data)) (t := c') hhit, hsome]
    rfl

theorem run_get {env : Env} {c : Cache} {path contents : Bytes} (shouldClose : Bool)
    (hfs : env.fs path = .regular contents) (hc : Holding (fun _ _ => True) c) :
    ∃ c', (answer (.static path .get shouldClose)).run (exec env) c =
      .ok (⟨Response.ofFile path shouldClose contents.length, (cachedData c path).getD contents,
        shouldClose⟩, c') := by
  rcases run_fetch hfs hc with ⟨c', hfetch, -⟩
  have hthere : exec env (.isFileExists path) c = .ok (true, c) := by
    simp [exec, execWith, isFileExists, hfs, Except.map]
  have hsize : exec env (.getFileSize path) c = .ok (contents.length, c) := by
    simp [exec, execWith, getFileSize_regular hfs, Except.map]
  refine ⟨c', ?_⟩
  simp only [answer]
  rw [Prog.run_call_ok hthere]
  simp only [if_true]
  rw [Response.make_some, Prog.call_bind, Prog.run_call_ok hthere]
  simp only [if_true]
  rw [Prog.call_bind, Prog.run_call_ok hsize, Prog.ret_bind, Prog.run_bind_ok hfetch]
  rfl

theorem target_static {httpResourceDir requestOp path : Bytes} {method : Method}
    {shouldClose : Bool} (h : target httpResourceDir requestOp = .static path method shouldClose) :
    (Request.parse requestOp).method = method := by
  simp only [target] at h
  split at h
  · cases h
  · split at h
    · cases h
    · exact (Target.static.inj h).2.1

theorem not_isOk_plain {statusCode : Bytes} (h : statusCode ≠ responseOk) (shouldClose : Bool) :
    ¬isOk (Response.plain statusCode shouldClose) := by
  simpa [isOk, Response.plain] using h

theorem honest_plain {requestOp statusCode : Bytes} {shouldClose : Bool} (body : Bytes)
    (noMoreParse : Bool) (h : statusCode ≠ responseOk) :
    Honest ⟨requestOp, Response.plain statusCode shouldClose, body, noMoreParse⟩ :=
  fun hok _ => absurd hok (not_isOk_plain h shouldClose)

/-- The server without a cache sends what it declares. -/
theorem honest_uncached {env : Env} {requestOp : Bytes} {reply : Reply}
    (h : uncached env requestOp = .ok reply) : Honest ⟨requestOp, reply⟩ := by
  rw [uncached_eq] at h
  have hbad : responseBadRequest ≠ responseOk := by decide
  have hmissing : responseNotFound ≠ responseOk := by decide
  cases htarget : target env.httpResourceDir requestOp with
  | malformed =>
      rw [htarget] at h
      obtain rfl := Except.ok.inj h
      exact honest_plain [] true hbad
  | dynamic program arguments shouldClose =>
      rw [htarget] at h
      have houtput : ∀ output, Honest ⟨requestOp, Response.ofOutput shouldClose output, output,
          shouldClose⟩ := fun output _ _ => declaredLength_ofOutput shouldClose output
      cases hfs : env.fs program <;> cases hrun : env.run program arguments <;>
        simp only [outcome, hfs, hrun, Except.map, Except.ok.injEq, reduceCtorEq] at h <;>
        rw [← h]
      · exact honest_plain [] true hmissing
      · exact honest_plain [] true hmissing
      · exact houtput _
      · exact houtput _
  | static path method shouldClose =>
      rw [htarget] at h
      cases hfs : env.fs path with
      | absent =>
          simp only [outcome, hfs, Except.ok.injEq] at h
          exact h ▸ honest_plain [] true hmissing
      | regular contents =>
          simp only [outcome, hfs, Except.ok.injEq] at h
          rw [← h]
          intro _ hget
          rw [target_static htarget] at hget
          simp only [hget, if_true]
          exact declaredLength_ofFile path shouldClose contents.length
      | directory => simp [outcome, hfs] at h
      | statError => simp [outcome, hfs] at h

/-- A reply is honest exactly when the cache had no entry of another size for it. -/
theorem honest_iff_current {s : State} {requestOp : Bytes} {reply : Reply} {cache : Cache}
    (hc : Holding (fun _ _ => True) s.cache)
    (h : (respond s.env.httpResourceDir requestOp).run (exec s.env) s.cache = .ok (reply, cache)) :
    Holding (fun _ _ => True) cache ∧
      (Honest ⟨requestOp, reply⟩ ↔ Current s (.request requestOp)) := by
  cases hanswer : uncached s.env requestOp with
  | error fault =>
      have hthrow : (respond s.env.httpResourceDir requestOp).run (exec s.env) s.cache =
          .error fault := run_respond_error hanswer s.cache
      rw [hthrow] at h
      cases h
  | ok direct =>
      rcases (ensures_respond (P := fun _ _ => True) (fun _ _ _ => trivial) hanswer).run hc with
        ⟨reply', cache', hrun, hcache', hvariant⟩
      rw [hrun] at h
      cases h
      refine ⟨hcache', ?_⟩
      -- The cache plays a part only for a GET request of a regular file.
      by_cases hget : ∃ path shouldClose contents,
          target s.env.httpResourceDir requestOp = .static path .get shouldClose ∧
            s.env.fs path = .regular contents
      · rcases hget with ⟨path, shouldClose, contents, htarget, hfs⟩
        rcases run_get shouldClose hfs hc with ⟨cache'', hrun'⟩
        rw [respond_eq, htarget, hrun'] at hrun
        cases hrun
        have hok : isOk (Response.ofFile path shouldClose contents.length) := rfl
        simp only [Honest, hok, target_static htarget, declaredLength_ofFile, Current, outdated,
          htarget, hfs, true_imp_iff, Option.some.injEq]
        cases cachedData s.cache path with
        | none => simp
        | some data => simpa using eq_comm
      · have hcurrent : Current s (.request requestOp) := by
          simp only [Current, outdated]
          split
          · rename_i path shouldClose htarget
            split
            · rename_i contents data hfs _
              exact absurd ⟨path, shouldClose, contents, htarget, hfs⟩ hget
            · rfl
          · rfl
        have hsame : reply = direct := by
          rcases hvariant with heq | ⟨path, shouldClose, contents, _, htarget, hfs, -, -⟩
          · exact heq
          · exact absurd ⟨path, shouldClose, contents, htarget, hfs⟩ hget
        rw [hsame]
        exact ⟨fun _ => hcurrent, fun _ => honest_uncached hanswer⟩

/-- A handler that throws has not come to a regular file. -/
theorem current_of_error {s : State} {requestOp : Bytes} {fault : Fault}
    (hc : Holding (fun _ _ => True) s.cache)
    (h : (respond s.env.httpResourceDir requestOp).run (exec s.env) s.cache = .error fault) :
    Current s (.request requestOp) := by
  simp only [Current, outdated]
  split
  · rename_i path shouldClose htarget
    split
    · rename_i contents data hfs _
      rcases run_get shouldClose hfs hc with ⟨c', hrun⟩
      rw [respond_eq, htarget, hrun] at h
      cases h
    · rfl
  · rfl

/-! ## Runs -/

/-- In a history of requests and of changes to the files, every 200 response to a GET request is
followed by as many bytes as it declares exactly when no GET request for a regular file finds
a cache entry of another size than the file has by then. -/
theorem honest_iff_always_current (env : Env) (capacity : UInt64) (clock : ℕ → ℕ)
    {events : List Event} {s : State}
    (hrun : Run.run next (initial env capacity clock) events = some s) :
    (∀ x ∈ s.exchanges, Honest x) ↔ Run.Along next Current (initial env capacity clock) events := by
  have hstep : ∀ (s : State) (event : Event) (t : State), Holding (fun _ _ => True) s.cache →
      next s event = some t → Holding (fun _ _ => True) t.cache ∧
        ((∀ x ∈ t.exchanges, Honest x) ↔ (∀ x ∈ s.exchanges, Honest x) ∧ Current s event) := by
    intro s event t hc h
    cases event with
    | request requestOp =>
        simp only [next] at h
        split at h
        · rename_i reply cache hreply
          obtain rfl := Option.some.inj h
          rcases honest_iff_current hc hreply with ⟨hcache, hiff⟩
          refine ⟨hcache, ?_⟩
          rw [List.forall_mem_append, List.forall_mem_singleton, hiff]
        · rename_i fault hthrow
          obtain rfl := Option.some.inj h
          exact ⟨hc, by simp [current_of_error hc hthrow]⟩
    | change fs run =>
        obtain rfl := Option.some.inj h
        exact ⟨hc, by simp [Current]⟩
  have hiff := Run.along_iff hstep (holding_new _ capacity clock) hrun
  simpa [initial] using hiff

/-- The file `/a` is overwritten between two requests for it. -/
def overwritten (contents : Bytes) : List Event :=
  [.request getAndKeep, .change (serving (ascii "/a") contents).fs fun _ _ => .ok [],
    .request getAndKeep]

theorem honest_iff_always_current_overwritten :
    ∃ s, Run.run next (initial (serving (ascii "/a") (ascii "old")) 10 id)
        (overwritten (ascii "new")) = some s ∧ s.exchanges.length = 2 ∧
      ∀ x ∈ s.exchanges, Honest x := by
  have hsome : (Run.run next (initial (serving (ascii "/a") (ascii "old")) 10 id)
    (overwritten (ascii "new"))).isSome := by decide
  exact ⟨_, (Option.some_get hsome).symm, by rfl,
    (honest_iff_always_current _ 10 id (Option.some_get hsome).symm).mpr (by decide +kernel)⟩

/-- With a longer file the second response declares more than the cached bytes that follow it. -/
theorem overwritten_declares_more :
    ∃ s, Run.run next (initial (serving (ascii "/a") (ascii "old")) 10 id)
        (overwritten (ascii "newer")) = some s ∧
      (s.exchanges.map fun x => (declaredLength x.reply.response, x.reply.body)) =
        [(some 3, ascii "old"), (some 5, ascii "old")] ∧
      ∃ x ∈ s.exchanges, ¬Honest x := by
  have hsome : (Run.run next (initial (serving (ascii "/a") (ascii "old")) 10 id)
    (overwritten (ascii "newer"))).isSome := by decide
  have hseen : ((Run.run next (initial (serving (ascii "/a") (ascii "old")) 10 id)
      (overwritten (ascii "newer"))).map fun s => s.exchanges).map (fun xs =>
        (xs.map (fun x => (declaredLength x.reply.response, x.reply.body)),
          decide (∃ x ∈ xs, ¬Honest x))) =
        some ([(some 3, ascii "old"), (some 5, ascii "old")], true) := by decide
  rw [← Option.some_get hsome, Option.map_some, Option.map_some, Option.some.injEq,
    Prod.mk.injEq, decide_eq_true_eq] at hseen
  exact ⟨_, (Option.some_get hsome).symm, hseen⟩

end FalconLink.Http.History
