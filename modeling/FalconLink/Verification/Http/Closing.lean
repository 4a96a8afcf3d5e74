import FalconLink.Verification.Http.Requests

/-! # Requests that ask to close the connection

The flag is a fold over the headers that starts at true and is cleared by every
`Connection: Keep-Alive`. No header sets it again, also not a `Connection: Close`.
-/

namespace FalconLink.Http

open Splitting

/-- A `Connection` header with this value, whatever the letter case and the spaces around. -/
def Header.SaysConnection (value : Bytes) (header : Header) : Prop :=
  format header.key = format headerConnection ∧ format header.value = format value

instance (value : Bytes) (header : Header) : Decidable (header.SaysConnection value) :=
  inferInstanceAs (Decidable (_ ∧ _))

/-- What stands between the request line and the empty line at the end. -/
def headerLines (r : Bytes) : List Bytes :=
  (split r crlf).dropLast.tail

/-- The texts have the same request line, and the same header lines in another order. -/
def PermutedHeaders (r r' : Bytes) : Prop :=
  ∃ line headers headers', (∀ l ∈ line :: headers, ¬crlf <:+: l) ∧ headers.Perm headers' ∧
    r = terminated crlf (line :: headers) ++ crlf ∧
    r' = terminated crlf (line :: headers') ++ crlf

namespace Request

/-! ## The scan of the headers -/

/-- The flag, as the headers that have been read determine it. -/
def Scanned (request : Request) : Prop :=
  request.shouldClose = false ↔
    ∃ header ∈ request.headers, header.SaysConnection connectionKeepAlive

theorem scanHeader_shouldClose (request : Request) (header : Header) :
    (request.scanHeader header).shouldClose = false ↔
      request.shouldClose = false ∨ header.SaysConnection connectionKeepAlive := by
  unfold scanHeader Header.SaysConnection
  by_cases hkey : format header.key = format headerConnection
  · by_cases hvalue : format header.value = format connectionKeepAlive <;> simp [hkey, hvalue]
  · simp [hkey]

theorem Scanned.scanHeader {request : Request} (h : request.Scanned) (header : Header) :
    Scanned { request.scanHeader header with headers := request.headers ++ [header] } := by
  have hscan := scanHeader_shouldClose request header
  rw [show request.shouldClose = false ↔ _ from h] at hscan
  simp only [Scanned, hscan, List.mem_append, List.mem_singleton]
  constructor
  · rintro (⟨other, hmem, hsays⟩ | hsays)
    · exact ⟨other, .inl hmem, hsays⟩
    · exact ⟨header, .inr rfl, hsays⟩
  · rintro ⟨other, hmem | rfl, hsays⟩
    · exact .inl ⟨other, hmem, hsays⟩
    · exact .inr hsays

theorem Scanned.parseHeaders {request : Request} (h : request.Scanned) (lines : List Bytes) :
    (request.parseHeaders lines).Scanned := by
  induction lines generalizing request with
  | nil => exact h
  | cons line lines ih =>
      rw [Request.parseHeaders]
      by_cases hvalid : (Header.parse line).valid = true
      · have hheaders : (request.scanHeader (Header.parse line)).headers = request.headers := by
          rw [scanHeader_eq]
        simp only [hvalid, if_true, hheaders]
        exact ih (h.scanHeader (Header.parse line))
      · rw [if_neg hvalid]
        exact h

theorem Scanned.parseRequestLine {request : Request} (h : request.Scanned) (line : Bytes) :
    (request.parseRequestLine line).2.Scanned := by
  unfold Request.parseRequestLine
  split
  · dsimp only
    split
    · exact h
    · split <;> exact h
  · exact h

/-- What was scanned stays scanned, also when the request turns out not to be valid. -/
theorem parse_scanned (r : Bytes) : (parse r).Scanned := by
  have hfresh : Scanned {} := by simp [Scanned]
  unfold parse
  dsimp only
  split
  · exact hfresh
  · split
    · exact hfresh
    · split
      · exact hfresh
      next line lines hlines =>
        have hline := hfresh.parseRequestLine line
        split <;> rename_i request hread <;> rw [hread] at hline
        · exact hline.parseHeaders lines
        · exact hline

/-! ## Requests with permuted headers -/

theorem lines_of_request {m u v r line : Bytes} {lines headers : List Bytes}
    (h : IsRequest m u v lines r) (hfree : ∀ l ∈ line :: headers, ¬crlf <:+: l)
    (hr : r = terminated crlf (line :: headers) ++ crlf) :
    IsRequestLine m u v line ∧ headers = lines := by
  obtain ⟨first, hfirst, hfirstFree, hr'⟩ := h.lines
  rw [List.forall_mem_cons] at hfree
  have hsplit := split_request hfree.1 hfree.2
  rw [← hr, hr', split_request hfirstFree h.headers_free] at hsplit
  obtain ⟨rfl, rfl⟩ := List.cons_eq_cons.mp (List.append_cancel_right hsplit)
  exact ⟨hfirst, rfl⟩

theorem headerLines_of_request {m u v r : Bytes} {lines : List Bytes}
    (h : IsRequest m u v lines r) : headerLines r = lines := by
  obtain ⟨line, -, hfree, rfl⟩ := h.lines
  rw [headerLines, split_request hfree h.headers_free, List.dropLast_concat, List.tail_cons]

theorem parse_headers {m u v r : Bytes} {lines : List Bytes} (h : IsRequest m u v lines r) :
    (parse r).headers = lines.map Header.parse := by
  obtain ⟨close, heq⟩ := parse_complete h
  rw [heq]

theorem parse_shouldClose {m u v r : Bytes} {lines : List Bytes} (h : IsRequest m u v lines r) :
    (parse r).shouldClose = false ↔
      ∃ line ∈ lines, (Header.parse line).SaysConnection connectionKeepAlive := by
  rw [show (parse r).shouldClose = false ↔ _ from parse_scanned r, parse_headers h]
  simp

theorem permuted_isRequest {m u v r r' : Bytes} {lines : List Bytes} (h : IsRequest m u v lines r)
    (hr : PermutedHeaders r r') : ∃ lines', lines.Perm lines' ∧ IsRequest m u v lines' r' := by
  obtain ⟨line, headers, headers', hfree, hperm, hr, hr'⟩ := hr
  obtain ⟨hline, rfl⟩ := lines_of_request h hfree hr
  refine ⟨headers', hperm, ⟨line, hline, hfree line (by simp), hr'⟩, ?_, ?_⟩
  · exact fun header hmem => h.headers_free header (hperm.mem_iff.mpr hmem)
  · exact fun header hmem => h.headers_valid header (hperm.mem_iff.mpr hmem)

/-! ## The wish to close -/

/-- A `Connection: Close` is obeyed, only `Connection: Keep-Alive` keeps the connection open, and
the order of the headers does not matter. -/
structure ClosingHonoured (r : Bytes) : Prop where
  close : (∃ header ∈ (parse r).headers, header.SaysConnection connectionClose) →
    (parse r).shouldClose = true
  keepAlive : (parse r).shouldClose = false →
    ∃ header ∈ (parse r).headers, header.SaysConnection connectionKeepAlive
  permuted : ∀ r', PermutedHeaders r r' →
    (parse r').isValid = true ∧ (parse r').shouldClose = (parse r).shouldClose

theorem parse_permuted {m u v r r' : Bytes} {lines : List Bytes} (h : IsRequest m u v lines r)
    (hr : PermutedHeaders r r') :
    (parse r').isValid = true ∧ (parse r').shouldClose = (parse r).shouldClose := by
  obtain ⟨lines', hperm, h'⟩ := permuted_isRequest h hr
  obtain ⟨close, heq⟩ := parse_complete h'
  refine ⟨by rw [heq], ?_⟩
  have hflag : (parse r').shouldClose = false ↔ (parse r).shouldClose = false := by
    rw [parse_shouldClose h, parse_shouldClose h']
    simp only [hperm.mem_iff]
  exact Bool.eq_iff_iff.mpr (by simpa using not_congr hflag)

/-- A wish to close is honoured in exactly the requests without a wish to the contrary. -/
theorem closingHonoured_iff {r : Bytes} (h : (parse r).isValid = true) :
    ClosingHonoured r ↔
      ¬((∃ line ∈ headerLines r, (Header.parse line).SaysConnection connectionClose) ∧
        ∃ line ∈ headerLines r, (Header.parse line).SaysConnection connectionKeepAlive) := by
  obtain ⟨m, u, v, lines, hr⟩ := parse_sound h
  have hclose : (∃ header ∈ (parse r).headers, header.SaysConnection connectionClose) ↔
      ∃ line ∈ lines, (Header.parse line).SaysConnection connectionClose := by
    simp [parse_headers hr]
  rw [headerLines_of_request hr]
  constructor
  · rintro honoured ⟨hwish, hcontrary⟩
    have htrue := honoured.close (hclose.mpr hwish)
    rw [(parse_shouldClose hr).mpr hcontrary] at htrue
    cases htrue
  · intro hnot
    refine ⟨fun hwish => ?_, (parse_scanned r).mp, fun r' => parse_permuted hr⟩
    rw [← Bool.not_eq_false, parse_shouldClose hr]
    exact fun hcontrary => hnot ⟨hclose.mp hwish, hcontrary⟩

theorem closingHonoured_closing :
    ClosingHonoured (ascii "GET / HTTP/1.1\r\nHost:a\r\nconnection: CLOSE \r\n\r\n") :=
  (closingHonoured_iff (by decide)).mpr (by decide)

theorem not_closingHonoured_both :
    ¬∀ r : Bytes, (parse r).isValid = true → ClosingHonoured r := by
  intro h
  have hboth := h
    (ascii "GET / HTTP/1.1\r\nConnection: close\r\nConnection: Keep-Alive\r\n\r\n")
    (by decide)
  exact absurd (hboth.close (by decide)) (by decide)

end Request

end FalconLink.Http
