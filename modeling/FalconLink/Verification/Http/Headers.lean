import FalconLink.Foundation.Splitting
import FalconLink.Model.Http.Request

/-! # Header lines

`split` keeps every token that a delimiter ends, and a last token that none ends only when
it is not empty. A header line loses its last colon to this, and is refused when nothing
follows its only colon.
-/

namespace FalconLink.Http

open Search Splitting

/-! ## The tokens of a text -/

theorem splitAux_nil {delim : Bytes} (hne : delim ≠ []) (rounds : ℕ) :
    splitAux delim rounds [] = [] := by
  cases rounds <;> simp [splitAux, firstMatch_nil hne]

theorem splitAux_piece {delim piece : Bytes} (hd : Unbordered delim) (hne : delim ≠ [])
    (hpiece : ¬delim <:+: piece) (rounds : ℕ) (more : Bytes) :
    splitAux delim (rounds + 1) (piece ++ delim ++ more) =
      piece :: splitAux delim rounds more := by
  have hdrop : (piece ++ delim ++ more).drop (piece.length + delim.length) = more := by
    rw [← List.length_append, List.drop_left]
  simp only [splitAux, firstMatch_piece hd hne hpiece more, hdrop]
  rw [List.append_assoc, List.take_left]

theorem splitAux_terminated {delim : Bytes} (hd : Unbordered delim) (hne : delim ≠ [])
    {pieces : List Bytes} {rest : Bytes} (hpieces : ∀ piece ∈ pieces, ¬delim <:+: piece)
    (hrest : ¬delim <:+: rest) :
    ∀ rounds, pieces.length + rest.length ≤ rounds →
      splitAux delim rounds (terminated delim pieces ++ rest) =
        pieces ++ if rest.isEmpty then [] else [rest] := by
  induction pieces with
  | nil =>
      intro rounds hrounds
      cases rest with
      | nil => simpa using splitAux_nil hne rounds
      | cons x rest =>
          cases rounds with
          | zero => simp at hrounds
          | succ rounds => simp [splitAux, firstMatch_eq_none_iff.mpr hrest]
  | cons piece pieces ih =>
      intro rounds hrounds
      cases rounds with
      | zero => simp at hrounds
      | succ rounds =>
          rw [terminated_cons, List.append_assoc,
            splitAux_piece hd hne (hpieces piece (by simp)),
            ih (fun p hp => hpieces p (by simp [hp])) rounds
              (by simp only [List.length_cons] at hrounds; omega),
            List.cons_append]

/-- What `split` returns, from the pieces that the text consists of. -/
theorem split_terminated {delim : Bytes} (hd : Unbordered delim) (hne : delim ≠ [])
    {pieces : List Bytes} {rest : Bytes} (hpieces : ∀ piece ∈ pieces, ¬delim <:+: piece)
    (hrest : ¬delim <:+: rest) :
    split (terminated delim pieces ++ rest) delim =
      pieces ++ if rest.isEmpty then [] else [rest] := by
  apply splitAux_terminated hd hne hpieces hrest
  have hle := length_le_terminated hne pieces
  rw [List.length_append]
  omega

theorem split_piece {delim piece : Bytes} (hd : Unbordered delim) (hne : delim ≠ [])
    (hpiece : ¬delim <:+: piece) (more : Bytes) :
    split (piece ++ delim ++ more) delim = piece :: split more delim := by
  obtain ⟨pieces, rest, rfl, hpieces, hrest⟩ := exists_terminated hne more
  have hcons : split (terminated delim (piece :: pieces) ++ rest) delim = _ :=
    split_terminated hd hne (by simpa using ⟨hpiece, hpieces⟩) hrest
  rw [split_terminated hd hne hpieces hrest, ← List.cons_append, ← hcons, terminated_cons]
  simp only [List.append_assoc]

theorem split_whole {delim str : Bytes} (hd : Unbordered delim) (hne : delim ≠ [])
    (hstr : ¬delim <:+: str) : split str delim = if str.isEmpty then [] else [str] := by
  have hsplit : split (terminated delim [] ++ str) delim = _ :=
    split_terminated hd hne (by simp) hstr
  simpa using hsplit

/-- The texts that `split` turns into given tokens. -/
theorem split_eq_iff {delim str : Bytes} (hd : Unbordered delim) (hne : delim ≠ [])
    {tokens : List Bytes} :
    split str delim = tokens ↔
      (∀ token ∈ tokens, ¬delim <:+: token) ∧
        (str = terminated delim tokens ∨
          ∃ front last, tokens = front ++ [last] ∧ last ≠ [] ∧
            str = terminated delim front ++ last) := by
  constructor
  · obtain ⟨pieces, rest, rfl, hpieces, hrest⟩ := exists_terminated hne str
    rw [split_terminated hd hne hpieces hrest]
    rintro rfl
    cases rest with
    | nil => exact ⟨by simpa using hpieces, .inl (by simp)⟩
    | cons x rest =>
        simp only [List.isEmpty_cons, Bool.false_eq_true, if_false]
        refine ⟨?_, .inr ⟨pieces, x :: rest, rfl, by simp, rfl⟩⟩
        intro token htoken
        cases List.mem_append.mp htoken with
        | inl hmem => exact hpieces token hmem
        | inr hmem => exact List.mem_singleton.mp hmem ▸ hrest
  · rintro ⟨hfree, rfl | ⟨front, last, rfl, hlast, rfl⟩⟩
    · have hsplit : split (terminated delim tokens ++ []) delim = _ :=
        split_terminated hd hne hfree (by simpa using hne)
      simpa using hsplit
    · rw [split_terminated hd hne (fun p hp => hfree p (by simp [hp])) (hfree last (by simp))]
      simp [hlast]

theorem split_ne_nil {delim str : Bytes} (hd : Unbordered delim) (hne : delim ≠ [])
    (hstr : str ≠ []) : split str delim ≠ [] := by
  intro h
  obtain ⟨-, rfl | ⟨front, last, hnil, -⟩⟩ := (split_eq_iff hd hne).mp h
  · exact hstr rfl
  · simp at hnil

/-- Joining the tokens again gives the text back, except for a delimiter at its end. -/
theorem join_split {delim : Bytes} (hd : Unbordered delim) (hne : delim ≠ []) (str : Bytes) :
    (¬delim <:+ str → join (split str delim) delim = str) ∧
      (delim <:+ str → join (split str delim) delim ++ delim = str) := by
  obtain ⟨pieces, rest, rfl, hpieces, hrest⟩ := exists_terminated hne str
  rw [split_terminated hd hne hpieces hrest]
  cases rest with
  | nil =>
      cases pieces with
      | nil => simp [join, hne]
      | cons piece pieces =>
          have hjoin : join (piece :: pieces) delim ++ delim = terminated delim (piece :: pieces) :=
            intercalate_append_delim delim piece pieces
          have hends : delim <:+ terminated delim (piece :: pieces) :=
            hjoin ▸ List.suffix_append _ _
          simp only [List.isEmpty_nil, if_true, List.append_nil]
          exact ⟨fun h => absurd hends h, fun _ => hjoin⟩
  | cons x rest =>
      have hjoin : join (pieces ++ [x :: rest]) delim = terminated delim pieces ++ x :: rest :=
        intercalate_concat delim pieces (x :: rest)
      have hends := not_suffix_of_rest hd (by simp) hrest pieces
      simp only [List.isEmpty_cons, Bool.false_eq_true, if_false]
      exact ⟨fun _ => hjoin, fun h => absurd h hends⟩

/-- Tokens are read back when the last one is not empty. -/
theorem split_concat {delim : Bytes} (hd : Unbordered delim) (hne : delim ≠ [])
    {front : List Bytes} {last : Bytes} (hfree : ∀ token ∈ front ++ [last], ¬delim <:+: token)
    (hlast : last ≠ []) : split (join (front ++ [last]) delim) delim = front ++ [last] := by
  rw [split_eq_iff hd hne]
  exact ⟨hfree, .inr ⟨front, last, rfl, hlast, intercalate_concat delim front last⟩⟩

/-! ## The loop of `split` -/

/-- Every round but the last passes a delimiter. -/
theorem splitLoop_eq {delim : Bytes} (hne : delim ≠ []) (str : Bytes) (rounds : ℕ) :
    ∀ tokens curr, curr ≤ str.length → str.length - curr ≤ rounds →
      splitLoop str delim tokens curr (rounds + 1) =
        some (tokens ++ splitAux delim rounds (str.drop curr)) := by
  have hpos : 0 < delim.length := List.length_pos_iff.mpr hne
  induction rounds with
  | zero =>
      intro tokens curr hcurr hrounds
      obtain rfl : curr = str.length := by omega
      simp [splitLoop, splitAux, firstMatch_nil hne]
  | succ rounds ih =>
      intro tokens curr hcurr hrounds
      cases hfind : firstMatch delim (str.drop curr) with
      | none =>
          rw [splitLoop]
          simp only [hfind, Option.map_none, splitAux]
          by_cases hend : curr = str.length
          · simp [hend]
          · have hmore : (str.drop curr).isEmpty = false := by
              simp only [List.isEmpty_eq_false_iff, ne_eq, List.drop_eq_nil_iff]
              omega
            simp [hend, hmore]
      | some next =>
          have hbound := (firstMatch_spec hfind).2.1
          rw [List.length_drop] at hbound
          rw [splitLoop]
          simp only [hfind, Option.map_some, splitAux, Nat.add_sub_cancel_left]
          rw [ih _ _ (by omega) (by omega), List.drop_drop, Nat.add_assoc, List.append_assoc]
          rfl

theorem splitWithin_eq {delim : Bytes} (hne : delim ≠ []) (str : Bytes) :
    splitWithin str delim (str.length + 1) = some (split str delim) := by
  cases str with
  | nil => rfl
  | cons c str =>
      have hloop := splitLoop_eq hne (c :: str) (c :: str).length [] 0 (by simp) (by simp)
      simpa [splitWithin, split] using hloop

/-- `split` ends and gives the text back through `join`, up to a delimiter at its end, and
`join` gives the tokens back through `split`, unless the last one is empty. -/
theorem split_join_inverse {delim : Bytes} (hd : Unbordered delim) (hne : delim ≠ [])
    (str : Bytes) :
    (∃ rounds, splitWithin str delim rounds = some (split str delim)) ∧
      (∀ token ∈ split str delim, ¬delim <:+: token) ∧
      (join (split str delim) delim = str ↔ ¬delim <:+ str) ∧
      (delim <:+ str → join (split str delim) delim ++ delim = str) ∧
      ∀ tokens last, (∀ token ∈ tokens ++ [last], ¬delim <:+: token) → last ≠ [] →
        split (join (tokens ++ [last]) delim) delim = tokens ++ [last] := by
  obtain ⟨hinner, hends⟩ := join_split hd hne str
  refine ⟨⟨_, splitWithin_eq hne str⟩, ((split_eq_iff hd hne).mp rfl).1, ⟨?_, hinner⟩, hends, ?_⟩
  · intro hjoin hsuffix
    have hlong := hends hsuffix
    rw [hjoin] at hlong
    exact hne (List.append_right_eq_self.mp hlong)
  · exact fun tokens last hfree hlast => split_concat hd hne hfree hlast

theorem split_join_inverse_crlf :
    join (split (ascii "a\r\n\r\nb\r\n") crlf) crlf = ascii "a\r\n\r\nb" := by
  have h := @split_join_inverse crlf (by decide) (by decide) (ascii "a\r\n\r\nb\r\n")
  exact List.append_cancel_right ((h.2.2.2.1 (by decide)).trans (by decide))

/-! ## Header lines -/

theorem Header.parse_keyless {line : Bytes} (hline : ¬colon <:+: line) :
    (Header.parse line).valid = false := by
  have hsplit := split_whole (unbordered_of_length rfl) (by decide) hline
  cases line with
  | nil => rfl
  | cons c line => simp [Header.parse, hsplit]

/-- The key is what stands before the first colon; the rest goes through `split` and `join`. -/
theorem Header.parse_keyed {key value : Bytes} (hkey : ¬colon <:+: key) (hvalue : value ≠ []) :
    Header.parse (key ++ colon ++ value) = Header.make key (join (split value colon) colon) := by
  have hsplit := split_piece (unbordered_of_length rfl) (by decide) hkey value
  have htokens : split value colon ≠ [] :=
    split_ne_nil (unbordered_of_length rfl) (by decide) hvalue
  obtain ⟨token, tokens, htokens⟩ := List.exists_cons_of_ne_nil htokens
  rw [htokens] at hsplit ⊢
  rw [Header.parse, hsplit]
  cases tokens <;> simp [join]

/-- An empty value leaves no second token. -/
theorem Header.parse_empty_value {key : Bytes} (hkey : ¬colon <:+: key) :
    (Header.parse (key ++ colon)).valid = false := by
  have hsplit := split_piece (unbordered_of_length rfl) (by decide) hkey []
  rw [List.append_nil, show split [] colon = [] from rfl] at hsplit
  rw [Header.parse, hsplit]

/-- A line is read back to its key and value, and written out again as it was, exactly when
something other than a colon ends it. A line without a colon is refused. -/
theorem Header.parse_line (key value line : Bytes) (hkey : ¬colon <:+: key)
    (hline : ¬colon <:+: line) :
    (((Header.parse (key ++ colon ++ value)).valid = true ∧
        (Header.parse (key ++ colon ++ value)).key = key ∧
        (Header.parse (key ++ colon ++ value)).value = value ∧
        (Header.parse (key ++ colon ++ value)).serialize = key ++ colon ++ value ++ crlf) ↔
      value ≠ [] ∧ ¬colon <:+ value) ∧
    (Header.parse line).valid = false := by
  refine ⟨?_, Header.parse_keyless hline⟩
  by_cases hvalue : value = []
  · subst hvalue
    simp [Header.parse_empty_value hkey]
  · obtain ⟨hinner, hends⟩ := @join_split colon (unbordered_of_length rfl) (by decide) value
    rw [Header.parse_keyed hkey hvalue]
    constructor
    · rintro ⟨-, -, hread, -⟩
      refine ⟨hvalue, fun hcolon => ?_⟩
      have hlost := congrArg List.length (hends hcolon)
      simp only [Header.make] at hread
      rw [hread, List.length_append] at hlost
      simp [colon, ascii] at hlost
    · rintro ⟨-, hcolon⟩
      simp [Header.make, Header.serialize, hinner hcolon]

theorem Header.parse_line_host :
    (Header.parse (ascii "Host" ++ colon ++ ascii "FalconLink")).valid = true ∧
      (Header.parse (ascii "Host" ++ colon ++ ascii "FalconLink")).serialize =
        ascii "Host:FalconLink\r\n" ∧
      (Header.parse (ascii "FalconLink")).valid = false :=
  have h := Header.parse_line (ascii "Host") (ascii "FalconLink") (ascii "FalconLink") (by decide)
    (by decide)
  have hread := h.1.mpr (by decide)
  ⟨hread.1, hread.2.2.2, h.2⟩

/-- The line `Host:` has a colon and is refused. -/
theorem Header.parse_line_bare :
    ¬∀ key value : Bytes, ¬colon <:+: key → ¬crlf <:+: key → ¬crlf <:+: value →
      (Header.parse (key ++ colon ++ value)).valid = true ∧
        (Header.parse (key ++ colon ++ value)).key = key ∧
        (Header.parse (key ++ colon ++ value)).value = value ∧
        (Header.parse (key ++ colon ++ value)).serialize = key ++ colon ++ value ++ crlf := by
  intro h
  have hbare := (h (ascii "Host") [] (by decide) (by decide) (by decide)).1
  exact absurd hbare (by decide)

end FalconLink.Http
