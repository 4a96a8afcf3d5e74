import FalconLink.Model.Http.Indexing
import FalconLink.Verification.Http.Headers

/-! # The grammar of requests -/

namespace FalconLink.Http

open Splitting

theorem unbordered_crlf : Unbordered crlf := by decide

theorem space_free_iff {str : Bytes} : ¬space <:+: str ↔ 32 ∉ str := by
  have hspace : space = [32] := rfl
  rw [hspace, List.singleton_infix_iff]

/-! ## Methods and versions -/

theorem trim_of_free {str : Bytes} (h : ¬space <:+: str) : trim str space = str := by
  rw [space_free_iff] at h
  have hkeep : ∀ xs : Bytes, 32 ∉ xs → xs.dropWhile (space.contains ·) = xs := by
    intro xs hxs
    cases xs with
    | nil => rfl
    | cons x xs =>
        have hx : space.contains x = false := by
          simp only [List.mem_cons, not_or] at hxs
          simpa [space, ascii] using fun heq => hxs.1 heq.symm
        rw [List.dropWhile_cons, hx]
        rfl
  rw [trim, hkeep str.reverse (by simpa using h), List.reverse_reverse, hkeep str h]

theorem toMethod_of_free {str : Bytes} (h : ¬space <:+: str) :
    toMethod str =
      if toUpper str = ascii "GET" then .get
      else if toUpper str = ascii "HEAD" then .head else .unsupported := by
  simp [toMethod, format, trim_of_free h, Method.toBytes]

theorem toVersion_of_free {str : Bytes} (h : ¬space <:+: str) :
    toVersion str = if toUpper str = ascii "HTTP/1.1" then .http1_1 else .unsupported := by
  simp [toVersion, format, trim_of_free h, Version.toBytes]

/-! ## The request line -/

/-- `m SP u SP v`, with at most one more space. -/
structure IsRequestLine (m u v line : Bytes) : Prop where
  text : line = m ++ space ++ u ++ space ++ v ∨ line = m ++ space ++ u ++ space ++ v ++ space
  method_free : ¬space <:+: m
  url_free : ¬space <:+: u
  version_free : ¬space <:+: v
  method : toUpper m = ascii "GET" ∨ toUpper m = ascii "HEAD"
  version : toUpper v = ascii "HTTP/1.1"

namespace Request

theorem parseRequestLine_complete {m u v line : Bytes} (h : IsRequestLine m u v line)
    (request : Request) :
    parseRequestLine request line =
      (true, { request with
        method := if toUpper m = ascii "GET" then .get else .head
        version := .http1_1
        resourceUrl :=
          if u.isEmpty || u.getLast? = some 47 then u ++ defaultRoute else u }) := by
  have hv : v ≠ [] := by
    rintro rfl
    exact absurd h.version (by decide)
  have hsplit : split line space = [m, u, v] := by
    rw [split_eq_iff (unbordered_of_length rfl) (by decide)]
    refine ⟨by simpa using ⟨h.method_free, h.url_free, h.version_free⟩, ?_⟩
    cases h.text with
    | inl htext => exact .inr ⟨[m, u], v, rfl, hv, by simp [htext]⟩
    | inr htext => exact .inl (by simp [htext])
  have hmethod : toMethod m = if toUpper m = ascii "GET" then .get else .head := by
    rw [toMethod_of_free h.method_free]
    cases h.method with
    | inl hget => simp [hget]
    | inr hhead => simp [hhead]
  have hversion : toVersion v = .http1_1 := by
    rw [toVersion_of_free h.version_free, if_pos h.version]
  have hsupported : toMethod m ≠ .unsupported := by
    rw [hmethod]
    split <;> simp
  simp [parseRequestLine, hsplit, hsupported, hversion, ← hmethod]

theorem parseRequestLine_sound {request : Request} {line : Bytes}
    (h : (parseRequestLine request line).1 = true) : ∃ m u v, IsRequestLine m u v line := by
  unfold parseRequestLine at h
  split at h
  next m u v hsplit =>
    obtain ⟨hfree, htext⟩ := (split_eq_iff (unbordered_of_length rfl) (by decide)).mp hsplit
    simp only [List.forall_mem_cons] at hfree
    obtain ⟨hm, hu, hv, -⟩ := hfree
    rw [toMethod_of_free hm, toVersion_of_free hv] at h
    refine ⟨m, u, v, ?_, hm, hu, hv, ?_, ?_⟩
    · rcases htext with htext | ⟨front, last, htokens, -, htext⟩
      · exact .inr (by simpa using htext)
      · obtain ⟨rfl, rfl⟩ : front = [m, u] ∧ last = v := by
          have happ : [m, u] ++ [v] = front ++ [last] := htokens
          simpa [eq_comm] using List.append_inj' happ rfl
        exact .inl (by simpa using htext)
    · by_contra hnot
      rw [not_or] at hnot
      simp [hnot.1, hnot.2] at h
    · by_contra hnot
      rw [if_neg hnot] at h
      grind
  next => simp at h

theorem parseRequestLine_isValid (request : Request) (line : Bytes) :
    (parseRequestLine request line).2.isValid = request.isValid := by
  unfold parseRequestLine
  split
  · dsimp only
    split
    · rfl
    · split <;> rfl
  · rfl

/-! ## The header lines -/

theorem scanHeader_eq (request : Request) (header : Header) :
    request.scanHeader header =
      { request with shouldClose := (request.scanHeader header).shouldClose } := by
  unfold scanHeader
  split
  · split <;> rfl
  · rfl

theorem parseHeaders_complete {lines : List Bytes}
    (h : ∀ line ∈ lines, (Header.parse line).valid = true) (request : Request) :
    ∃ close, request.parseHeaders lines =
      { request with
        shouldClose := close
        headers := request.headers ++ lines.map Header.parse
        isValid := true } := by
  induction lines generalizing request with
  | nil => exact ⟨request.shouldClose, by simp [parseHeaders]⟩
  | cons line lines ih =>
      rw [List.forall_mem_cons] at h
      rw [parseHeaders, scanHeader_eq]
      obtain ⟨close, heq⟩ := ih h.2
        { request with
          shouldClose := (request.scanHeader (Header.parse line)).shouldClose
          headers := request.headers ++ [Header.parse line] }
      simp only [h.1, if_true]
      rw [heq]
      exact ⟨close, by simp⟩

theorem parseHeaders_sound {lines : List Bytes} {request : Request}
    (hfresh : request.isValid = false) (h : (request.parseHeaders lines).isValid = true) :
    ∀ line ∈ lines, (Header.parse line).valid = true := by
  induction lines generalizing request with
  | nil => simp
  | cons line lines ih =>
      rw [parseHeaders] at h
      by_cases hvalid : (Header.parse line).valid = true
      · rw [List.forall_mem_cons]
        refine ⟨hvalid, ih ?_ (by simpa [hvalid] using h)⟩
        rw [scanHeader_eq]
        exact hfresh
      · simp [hvalid, hfresh] at h

end Request

/-! ## Requests -/

/-- `L CRLF H1 CRLF … Hn CRLF CRLF`, where `L` is a request line and each `Hi` a header line. -/
structure IsRequest (m u v : Bytes) (headers : List Bytes) (request : Bytes) : Prop where
  lines : ∃ line, IsRequestLine m u v line ∧ ¬crlf <:+: line ∧
    request = terminated crlf (line :: headers) ++ crlf
  headers_free : ∀ header ∈ headers, ¬crlf <:+: header
  headers_valid : ∀ header ∈ headers, (Header.parse header).valid = true

namespace Request

theorem split_request {line : Bytes} {headers : List Bytes} (hline : ¬crlf <:+: line)
    (hheaders : ∀ header ∈ headers, ¬crlf <:+: header) :
    split (terminated crlf (line :: headers) ++ crlf) crlf = line :: headers ++ [[]] := by
  rw [split_eq_iff unbordered_crlf (by decide)]
  refine ⟨?_, .inl (by simp)⟩
  simp only [List.cons_append, List.forall_mem_cons, List.forall_mem_append]
  exact ⟨hline, hheaders, by decide, by simp⟩

/-- What is read from a request that follows the grammar. -/
theorem parse_complete {m u v r : Bytes} {headers : List Bytes} (h : IsRequest m u v headers r) :
    ∃ close, parse r =
      { method := if toUpper m = ascii "GET" then .get else .head
        version := .http1_1
        resourceUrl := if u.isEmpty || u.getLast? = some 47 then u ++ defaultRoute else u
        headers := headers.map Header.parse
        shouldClose := close
        isValid := true
        invalidReason := [] } := by
  obtain ⟨line, hline, hfree, rfl⟩ := h.lines
  have hlast : (line :: headers ++ [[]]).getLast? = some [] := List.getLast?_concat
  have hfront : (line :: headers ++ [[]]).dropLast = line :: headers := List.dropLast_concat
  obtain ⟨close, heq⟩ := parseHeaders_complete h.headers_valid
    { method := if toUpper m = ascii "GET" then .get else .head
      version := .http1_1
      resourceUrl := if u.isEmpty || u.getLast? = some 47 then u ++ defaultRoute else u }
  refine ⟨close, ?_⟩
  have hlen : ¬(line :: headers ++ [[]]).length < 2 := by
    simp only [List.cons_append, List.length_cons, List.length_append]
    omega
  rw [parse, split_request hfree h.headers_free, hlast, hfront]
  simp only [parseRequestLine_complete hline, hlen]
  simpa using heq

theorem parse_sound {r : Bytes} (h : (parse r).isValid = true) :
    ∃ m u v headers, IsRequest m u v headers r := by
  simp only [parse] at h
  by_cases hformat : ((split r crlf).length < 2 || (split r crlf).getLast? ≠ some []) = true
  · rw [if_pos hformat] at h
    cases h
  · rw [if_neg hformat] at h
    rw [Bool.or_eq_true, decide_eq_true_eq, decide_eq_true_eq, not_or, not_not] at hformat
    rw [if_neg (not_not.mpr hformat.2)] at h
    cases hfront : (split r crlf).dropLast with
    | nil =>
        rw [hfront] at h
        cases h
    | cons line headers =>
        have hsplit : split r crlf = line :: headers ++ [[]] := by
          rw [← hfront, List.dropLast_append_getLast? [] hformat.2]
        obtain ⟨hfree, htext⟩ := (split_eq_iff unbordered_crlf (by decide)).mp hsplit
        simp only [List.cons_append, List.forall_mem_cons, List.forall_mem_append] at hfree
        simp only [hfront] at h
        have hfresh := parseRequestLine_isValid {} line
        cases hread : parseRequestLine {} line with
        | mk success request =>
            rw [hread] at hfresh
            cases success with
            | false =>
                simp only [hread] at h
                exact absurd (hfresh.symm.trans h) (by decide)
            | true =>
                obtain ⟨m, u, v, hline⟩ := parseRequestLine_sound (congrArg Prod.fst hread)
                simp [hread] at h
                refine ⟨m, u, v, headers, ⟨line, hline, hfree.1, ?_⟩, hfree.2.1,
                  parseHeaders_sound hfresh h⟩
                rcases htext with htext | ⟨front, last, htokens, hlast, -⟩
                · simpa using htext
                · have hnil := (List.append_inj' htokens rfl).2
                  exact absurd (by simpa using hnil.symm) hlast

/-! ## The vector accesses -/

theorem joinLoop_eq (tokens : List Bytes) (delim : Bytes) (count : ℕ) (h : count ≤ tokens.length) :
    joinLoop tokens delim count = some (terminated delim (tokens.take count)) := by
  induction count with
  | zero => rfl
  | succ i ih =>
      have hi : i < tokens.length := by omega
      rw [joinLoop, ih (by omega), List.getElem?_eq_getElem hi, List.take_succ_eq_append_getElem hi,
        terminated_append]
      simp

theorem joinAt_eq (tokens : List Bytes) (delim : Bytes) :
    joinAt tokens delim = some (join tokens delim) := by
  unfold joinAt
  rcases List.eq_nil_or_concat tokens with rfl | ⟨front, last, rfl⟩
  · rfl
  · rw [List.concat_eq_append]
    cases front with
    | nil => simp [join]
    | cons token front =>
        have hjoin : join (token :: front ++ [last]) delim =
            terminated delim (token :: front) ++ last := intercalate_concat delim _ last
        rw [hjoin, joinLoop_eq _ _ _ (by omega)]
        simp

theorem Header.parseAt_eq (line : Bytes) : Header.parseAt line = some (Header.parse line) := by
  unfold Header.parseAt Header.parse
  cases split line colon with
  | nil => rfl
  | cons key tokens =>
      cases tokens with
      | nil => rfl
      | cons value tokens =>
          have hlen : ¬(key :: value :: tokens).length < 2 := by
            simp only [List.length_cons]
            omega
          simp only [hlen, if_false]
          cases tokens <;> simp [eraseFront, joinAt_eq]

theorem parseRequestLineAt_eq (request : Request) (line : Bytes) :
    parseRequestLineAt request line = some (parseRequestLine request line) := by
  unfold parseRequestLineAt parseRequestLine
  split
  next m u v hsplit =>
    simp only [hsplit]
    by_cases hm : toMethod m = .unsupported
    · simp [hm]
    · by_cases hv : toVersion v = .unsupported <;> simp [hm, hv]
  next hother =>
    have hlen : (split line space).length ≠ 3 := by
      intro h
      obtain ⟨m, u, v, htokens⟩ := List.length_eq_three.mp h
      exact hother m u v htokens
    simp [hlen]

theorem parseHeadersAt_eq (request : Request) (lines : List Bytes) :
    parseHeadersAt request lines = some (parseHeaders request lines) := by
  induction lines generalizing request with
  | nil => rfl
  | cons line lines ih =>
      simp only [parseHeadersAt, parseHeaders, Header.parseAt_eq]
      by_cases hvalid : (Header.parse line).valid = true <;> simp [hvalid, ih]

/-- No access of the constructor is out of range. -/
theorem parseAt_eq (r : Bytes) : parseAt r = some (parse r) := by
  unfold parseAt parse
  by_cases hshort : (split r crlf).length < 2
  · simp [hshort]
  · rcases List.eq_nil_or_concat (split r crlf) with hnil | ⟨front, last, hsplit⟩
    · simp [hnil] at hshort
    · cases front with
      | nil => simp [hsplit] at hshort
      | cons line headers =>
          rw [List.concat_eq_append] at hsplit
          have hback : (line :: headers ++ [last]).getLast? = some last := List.getLast?_concat
          have hpop : popBack (line :: headers ++ [last]) = some (line :: headers) := by
            rw [popBack, List.dropLast_concat]
            rfl
          rw [hsplit] at hshort ⊢
          simp only [hshort, hback, hpop, List.dropLast_concat]
          cases last with
          | nil =>
              cases hread : parseRequestLine {} line with
              | mk success request =>
                  cases success <;>
                    simp [parseRequestLineAt_eq, hread, eraseFront, parseHeadersAt_eq]
          | cons => simp

/-- A text is a valid request exactly when it follows the grammar, and its parts are read
off. The parser stays within its vectors on every text. -/
theorem parse_grammar (r : Bytes) :
    ((parse r).isValid = true ↔ ∃ m u v headers, IsRequest m u v headers r) ∧
      (∀ m u v headers, IsRequest m u v headers r →
        (parse r).method = (if toUpper m = ascii "GET" then .get else .head) ∧
          (parse r).version = .http1_1 ∧
          (parse r).headers = headers.map Header.parse ∧
          (parse r).getResourceUrl =
            urlDecode (if u = [] ∨ u.getLast? = some 47 then u ++ defaultRoute else u)) ∧
      parseAt r = some (parse r) := by
  refine ⟨⟨parse_sound, ?_⟩, ?_, parseAt_eq r⟩
  · rintro ⟨m, u, v, headers, h⟩
    obtain ⟨close, heq⟩ := parse_complete h
    rw [heq]
  · intro m u v headers h
    obtain ⟨close, heq⟩ := parse_complete h
    rw [heq]
    simp [getResourceUrl]

theorem isRequest_index :
    IsRequest (ascii "get") (ascii "/") (ascii "http/1.1") [ascii "Host:a"]
      (ascii "get / http/1.1 \r\nHost:a\r\n\r\n") where
  lines := ⟨ascii "get / http/1.1 ",
    ⟨.inr (by decide), by decide, by decide, by decide, .inl (by decide), by decide⟩,
    by decide, by decide⟩
  headers_free := by decide
  headers_valid := by decide

theorem parse_grammar_index :
    (parse (ascii "get / http/1.1 \r\nHost:a\r\n\r\n")).method = .get ∧
      (parse (ascii "get / http/1.1 \r\nHost:a\r\n\r\n")).getResourceUrl =
        ascii "/index.html" := by
  have h := (parse_grammar _).2.1 _ _ _ _ isRequest_index
  exact ⟨h.1, h.2.2.2⟩

end Request

end FalconLink.Http
