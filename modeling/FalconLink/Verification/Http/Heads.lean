import FalconLink.Verification.Http.Handler
import FalconLink.Verification.Http.Headers

/-! # The heads of responses -/

namespace FalconLink.Http

open Framing Splitting

/-! ## The replies to a target -/

/-- The replies that a target can get, whatever its accesses are answered. `gone` is a file that
is removed between the two checks that it exists. -/
inductive Possible : Target → Reply → Prop where
  | malformed : Possible .malformed ⟨.plain responseBadRequest true, [], true⟩
  | noProgram (program : Bytes) (arguments : List Bytes) (shouldClose : Bool) :
      Possible (.dynamic program arguments shouldClose) ⟨.plain responseNotFound true, [], true⟩
  | output (program : Bytes) (arguments : List Bytes) (shouldClose : Bool) (output : Bytes) :
      Possible (.dynamic program arguments shouldClose)
        ⟨.ofOutput shouldClose output, output, shouldClose⟩
  | noFile (path : Bytes) (method : Method) (shouldClose : Bool) :
      Possible (.static path method shouldClose) ⟨.plain responseNotFound true, [], true⟩
  | file (path : Bytes) (method : Method) (shouldClose : Bool) (size : ℕ) (body : Bytes)
      (hbody : method ≠ .get → body = []) :
      Possible (.static path method shouldClose) ⟨.ofFile path shouldClose size, body, shouldClose⟩
  | gone (path : Bytes) (method : Method) (shouldClose : Bool) (body : Bytes)
      (hbody : method ≠ .get → body = []) :
      Possible (.static path method shouldClose) ⟨.plain responseOk shouldClose, body, shouldClose⟩

theorem returns_fetch {response : Response} {path : Bytes} {shouldClose : Bool} {reply : Reply}
    (h : (fetch path >>= fun body => .ret ⟨response, body, shouldClose⟩ : Code Reply).Returns reply) :
    ∃ body, reply = ⟨response, body, shouldClose⟩ := by
  simp only [fetch, Prog.call_bind, Prog.returns_call] at h
  obtain ⟨loaded, h⟩ := h
  split at h
  · exact ⟨_, Prog.returns_ret.mp h⟩
  · simp only [Prog.call_bind, Prog.returns_call, Prog.ret_bind, Prog.returns_ret] at h
    obtain ⟨cacheBuf, -, h⟩ := h
    exact ⟨cacheBuf, h⟩

theorem possible_of_returns {t : Target} {reply : Reply} (h : (answer t).Returns reply) :
    Possible t reply := by
  cases t with
  | malformed => exact Prog.returns_ret.mp h ▸ .malformed
  | dynamic program arguments shouldClose =>
      simp only [answer, Prog.returns_call] at h
      obtain ⟨there, h⟩ := h
      cases there with
      | false => exact Prog.returns_ret.mp h ▸ .noProgram program arguments shouldClose
      | true =>
          obtain ⟨output, h⟩ := Prog.returns_call.mp h
          exact Prog.returns_ret.mp h ▸ .output program arguments shouldClose output
  | static path method shouldClose =>
      simp only [answer, Prog.returns_call] at h
      obtain ⟨there, h⟩ := h
      cases there with
      | false => exact Prog.returns_ret.mp h ▸ .noFile path method shouldClose
      | true =>
          simp only [if_true, Response.make_some, Prog.call_bind, Prog.returns_call] at h
          obtain ⟨still, h⟩ := h
          by_cases hget : method = .get
          · simp only [hget, if_true] at h
            cases still with
            | true =>
                obtain ⟨size, h⟩ := Prog.returns_call.mp h
                obtain ⟨body, rfl⟩ := returns_fetch h
                exact .file path method shouldClose size body fun hnot => absurd hget hnot
            | false =>
                obtain ⟨body, rfl⟩ := returns_fetch h
                exact .gone path method shouldClose body fun hnot => absurd hget hnot
          · simp only [hget, if_false] at h
            cases still with
            | true =>
                obtain ⟨size, h⟩ := Prog.returns_call.mp h
                exact Prog.returns_ret.mp h ▸ .file path method shouldClose size [] fun _ => rfl
            | false => exact Prog.returns_ret.mp h ▸ .gone path method shouldClose [] fun _ => rfl

/-! ## The lines of a head -/

/-- The lines of a head with a status, an announcement for the connection, a length and a type. -/
def headLines (statusCode : Bytes) (shouldClose : Bool) (contentLength : Bytes)
    (contentType : Option Bytes) : List Bytes :=
  [httpVersion ++ space ++ statusCode,
    headerServer ++ colon ++ serverFalconlink,
    headerConnection ++ colon ++ (if shouldClose then connectionClose else connectionKeepAlive),
    headerContentLength ++ colon ++ contentLength] ++
  (contentType.map fun mime => headerContentType ++ colon ++ mime).toList

/-- The head with these lines. -/
def headOf (statusCode : Bytes) (shouldClose : Bool) (contentLength : Bytes)
    (contentType : Option Bytes) : Bytes :=
  terminated crlf (headLines statusCode shouldClose contentLength contentType) ++ crlf

def statusCodes : List Bytes :=
  [responseOk, responseBadRequest, responseNotFound, responseServiceUnavailable]

theorem serialize_plain (statusCode : Bytes) (shouldClose : Bool) :
    (Response.plain statusCode shouldClose).serialize [] =
      headOf statusCode shouldClose contentLengthZero none := by
  simp [Response.serialize, Response.plain, headOf, headLines, Header.serialize, Header.make]

theorem serialize_ofOutput (shouldClose : Bool) (output : Bytes) :
    (Response.ofOutput shouldClose output).serialize [] =
      headOf responseOk shouldClose (toDecimal output.length) none := by
  have hheaders : (Response.ofOutput shouldClose output).headers =
      [Header.make headerServer serverFalconlink,
        Header.make headerConnection (if shouldClose then connectionClose else connectionKeepAlive),
        Header.make headerContentLength (toDecimal output.length)] := rfl
  have hstatus : (Response.ofOutput shouldClose output).statusLine =
      httpVersion ++ space ++ responseOk := rfl
  simp [Response.serialize, hheaders, hstatus, headOf, headLines, Header.serialize, Header.make]

/-- The type that is announced for a path. -/
def contentTypeOf (path : Bytes) : Option Bytes :=
  (Response.afterLastDot path).map fun extension => extensionToMime (toExtension extension)

theorem serialize_ofFile (path : Bytes) (shouldClose : Bool) (size : ℕ) :
    (Response.ofFile path shouldClose size).serialize [] =
      headOf responseOk shouldClose (toDecimal size) (contentTypeOf path) := by
  cases hdot : Response.afterLastDot path <;>
    simp [Response.serialize, Response.ofFile, hdot, contentTypeOf, headOf, headLines,
      Header.serialize, Header.make]

theorem notMem_toDecimal {c : UInt8} (hc : (Char.ofNat c.toNat).isDigit = false) (n : ℕ) :
    c ∉ toDecimal n := by
  intro h
  have hchar : Char.ofNat c.toNat ∈ Nat.toDigits 10 n := by
    rw [← toDecimal_map_char]
    exact List.mem_map_of_mem h
  have hdigit := Nat.isDigit_of_mem_toDigits (by decide) (by decide) hchar
  rw [hc] at hdigit
  cases hdigit

/-- The types that are announced. -/
def mimeTypes : List Bytes :=
  [mimeHtml, mimeCss, mimePng, mimeJpg, mimeJpeg, mimeGif, mimeOctet]

theorem contentTypeOf_mem {path mime : Bytes} (h : contentTypeOf path = some mime) :
    mime ∈ mimeTypes := by
  obtain ⟨extension, -, rfl⟩ := Option.map_eq_some_iff.mp h
  cases toExtension extension <;> simp [extensionToMime, mimeTypes]

/-- `head` is a head of the server, with this announcement for the connection. -/
def IsHead (shouldClose : Bool) (head : Bytes) : Prop :=
  ∃ statusCode length contentType, statusCode ∈ statusCodes ∧
    (∀ mime, contentType = some mime → mime ∈ mimeTypes) ∧
    head = headOf statusCode shouldClose (toDecimal length) contentType

theorem Possible.isHead {t : Target} {reply : Reply} (h : Possible t reply) :
    IsHead reply.noMoreParse (reply.response.serialize []) := by
  have hzero : contentLengthZero = toDecimal 0 := by decide
  cases h with
  | malformed =>
      exact ⟨responseBadRequest, 0, none, by decide, by simp, hzero ▸ serialize_plain _ _⟩
  | noProgram => exact ⟨responseNotFound, 0, none, by decide, by simp, hzero ▸ serialize_plain _ _⟩
  | output program arguments shouldClose output =>
      exact ⟨responseOk, _, none, by decide, by simp, serialize_ofOutput shouldClose output⟩
  | noFile => exact ⟨responseNotFound, 0, none, by decide, by simp, hzero ▸ serialize_plain _ _⟩
  | file path method shouldClose size =>
      exact ⟨responseOk, size, _, by decide, fun _ => contentTypeOf_mem,
        serialize_ofFile path shouldClose size⟩
  | gone => exact ⟨responseOk, 0, none, by decide, by simp, hzero ▸ serialize_plain _ _⟩

/-- No line of a head is empty or holds a line end. -/
theorem headLines_filled {statusCode : Bytes} {length : ℕ} {contentType : Option Bytes}
    (hcode : statusCode ∈ statusCodes) (htype : ∀ mime, contentType = some mime → mime ∈ mimeTypes)
    (shouldClose : Bool) :
    ∀ line ∈ headLines statusCode shouldClose (toDecimal length) contentType,
      line ≠ [] ∧ ¬crlf <:+: line := by
  have hfree : ∀ line : Bytes, 13 ∉ line → ¬crlf <:+: line :=
    fun line hline hcrlf => hline (hcrlf.subset (by decide))
  have hstatus : ∀ code ∈ statusCodes, 13 ∉ httpVersion ++ space ++ code := by decide
  have hmime : ∀ mime ∈ mimeTypes, 13 ∉ headerContentType ++ colon ++ mime := by decide
  have hconnection : ∀ close : Bool, 13 ∉
      headerConnection ++ colon ++ (if close then connectionClose else connectionKeepAlive) := by
    decide
  intro line hline
  simp only [headLines, List.mem_append, List.mem_cons, List.not_mem_nil, or_false,
    Option.mem_toList, Option.map_eq_some_iff] at hline
  rcases hline with (rfl | rfl | rfl | rfl) | ⟨mime, hsome, rfl⟩
  · exact ⟨by simp [httpVersion, ascii], hfree _ (hstatus statusCode hcode)⟩
  · exact ⟨by decide, by decide⟩
  · exact ⟨by simp [headerConnection, ascii], hfree _ (hconnection shouldClose)⟩
  · refine ⟨by simp [headerContentLength, ascii], hfree _ ?_⟩
    rw [List.mem_append, not_or]
    exact ⟨by decide, notMem_toDecimal rfl length⟩
  · exact ⟨by simp [headerContentType, ascii], hfree _ (hmime mime (htype mime hsome))⟩

/-- The lines are read back from the head, with an empty one at its end. -/
theorem split_headOf {statusCode : Bytes} {length : ℕ} {contentType : Option Bytes}
    (hcode : statusCode ∈ statusCodes) (htype : ∀ mime, contentType = some mime → mime ∈ mimeTypes)
    (shouldClose : Bool) : split (headOf statusCode shouldClose (toDecimal length) contentType) crlf =
      headLines statusCode shouldClose (toDecimal length) contentType ++ [[]] := by
  have hfilled := @headLines_filled statusCode length contentType hcode htype shouldClose
  rw [split_eq_iff (by decide) (by decide)]
  refine ⟨fun line hline => ?_, .inl (by simp [headOf])⟩
  cases List.mem_append.mp hline with
  | inl hmem => exact (hfilled line hmem).2
  | inr hmem => exact List.mem_singleton.mp hmem ▸ by decide

section

variable {shouldClose : Bool} {head : Bytes}

/-- The head ends at the first empty line, whatever follows. -/
theorem IsHead.popFrame (h : IsHead shouldClose head) (body : Bytes) :
    popFrame crlfcrlf (head ++ body) = some (head, body) := by
  obtain ⟨statusCode, length, contentType, hcode, htype, rfl⟩ := h
  have hfilled := @headLines_filled statusCode length contentType hcode htype shouldClose
  have hlines : headLines statusCode shouldClose (toDecimal length) contentType =
      (httpVersion ++ space ++ statusCode) ::
        (headLines statusCode shouldClose (toDecimal length) contentType).tail := rfl
  rw [hlines, List.forall_mem_cons] at hfilled
  rw [headOf, hlines]
  exact popFrame_double (by decide) (by decide) hfilled.1.2 hfilled.2 body

/-- The line for the connection says what is announced, and no other line does. -/
theorem IsHead.connection_iff (h : IsHead shouldClose head) (value : Bytes) :
    headerConnection ++ colon ++ value ∈ split head crlf ↔
      value = if shouldClose then connectionClose else connectionKeepAlive := by
  obtain ⟨statusCode, length, contentType, hcode, htype, rfl⟩ := h
  rw [split_headOf hcode htype, headLines, List.append_assoc, List.mem_append]
  constructor
  · rintro (hmem | hmem)
    · simp only [List.mem_cons, List.not_mem_nil, or_false] at hmem
      rcases hmem with hline | hline | hline | hline
      · simp [headerConnection, httpVersion, ascii] at hline
      · simp [headerConnection, headerServer, ascii] at hline
      · exact List.append_cancel_left hline
      · simp [headerConnection, headerContentLength, ascii] at hline
    · cases contentType <;> simp [headerConnection, headerContentType, ascii] at hmem
  · rintro rfl
    exact .inl (by simp)

end

end FalconLink.Http
