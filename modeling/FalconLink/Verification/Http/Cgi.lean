import FalconLink.Model.Http.Cgi
import FalconLink.Verification.Http.Headers

/-! # CGI programs

A url names a program and its arguments, and a run of the program returns what it has written.
-/

namespace FalconLink.Http.Cgier

open Search Splitting

/-! ## The url -/

/-- `p & a1 & … & an`. -/
def cgiUrl (path : Bytes) (arguments : List Bytes) : Bytes :=
  path ++ arguments.flatMap (parameterSeparator ++ ·)

/-- No `&` stands behind the beginning of the first `cgi-bin`. -/
def IsProgramPath (path : Bytes) : Prop :=
  ∃ pos, firstMatch cgiBin path = some pos ∧ ¬parameterSeparator <:+: path.drop pos

def IsArgument (argument : Bytes) : Prop :=
  argument ≠ [] ∧ ¬parameterSeparator <:+: argument

instance (argument : Bytes) : Decidable (IsArgument argument) :=
  inferInstanceAs (Decidable (_ ∧ _))

theorem IsProgramPath.ne_nil {path : Bytes} (h : IsProgramPath path) : path ≠ [] := by
  rintro rfl
  obtain ⟨pos, hpos, -⟩ := h
  cases hpos

theorem cgiUrl_cons (path argument : Bytes) (arguments : List Bytes) :
    cgiUrl path (argument :: arguments) =
      path ++ parameterSeparator ++ join (argument :: arguments) parameterSeparator := by
  have htail : ∀ first, (first :: arguments).flatMap (parameterSeparator ++ ·) =
      parameterSeparator ++ join (first :: arguments) parameterSeparator := by
    induction arguments with
    | nil => simp [join]
    | cons next arguments ih =>
        intro first
        rw [List.flatMap_cons, ih]
        simp only [join, List.intercalate_cons_cons, List.append_assoc]
  rw [cgiUrl, htail, List.append_assoc]

/-- With an argument, the first `&` that is searched for is the one behind the program. -/
theorem parseCgier_cons {path argument : Bytes} {arguments : List Bytes}
    (hpath : IsProgramPath path) (harguments : ∀ a ∈ argument :: arguments, IsArgument a) :
    parseCgier (cgiUrl path (argument :: arguments)) = ⟨path, argument :: arguments, true⟩ := by
  have hone : Unbordered parameterSeparator := unbordered_of_length rfl
  have hne : parameterSeparator ≠ [] := by decide
  obtain ⟨pos, hpos, hfree⟩ := hpath
  obtain ⟨front, last, hlast⟩ :
      ∃ front last, argument :: arguments = front ++ [last] :=
    ⟨_, _, (List.dropLast_concat_getLast (List.cons_ne_nil argument arguments)).symm⟩
  have hsplit : split (join (argument :: arguments) parameterSeparator) parameterSeparator =
      argument :: arguments := by
    rw [hlast] at harguments ⊢
    exact split_concat hone hne (fun a ha => (harguments a ha).2) (harguments last (by simp)).1
  rw [cgiUrl_cons]
  generalize hmore : join (argument :: arguments) parameterSeparator = more at hsplit
  have hle := (firstMatch_spec hpos).2.1
  have hcgi : firstMatch cgiBin (path ++ parameterSeparator ++ more) = some pos := by
    rw [List.append_assoc]
    exact firstMatch_append _ hpos
  have hseparator : (firstMatch parameterSeparator
      ((path ++ parameterSeparator ++ more).drop pos)).map (pos + ·) = some path.length := by
    rw [List.append_assoc, List.drop_append_of_le_length (by omega), ← List.append_assoc,
      firstMatch_piece hone hne hfree, Option.map_some, List.length_drop]
    congr 1
    omega
  have hdrop : (path ++ parameterSeparator ++ more).drop (path.length + 1) = more := by
    rw [show path.length + 1 = (path ++ parameterSeparator).length by
      rw [List.length_append]; rfl, List.drop_left]
  have hnonempty : (path ++ parameterSeparator ++ more).isEmpty = false := by
    simp [parameterSeparator, ascii]
  simp only [parseCgier, isCgiRequest, hcgi, hnonempty, hseparator, hdrop, hsplit,
    Option.isSome_some, Option.getD_some]
  rw [List.append_assoc, List.take_left]
  rfl

/-- Without one, nothing is found and the url is cut from its beginning. -/
theorem parseCgier_bare {path : Bytes} (hpath : IsProgramPath path) :
    parseCgier path = ⟨path, split path parameterSeparator, true⟩ := by
  have hne := hpath.ne_nil
  obtain ⟨pos, hpos, hfree⟩ := hpath
  simp [parseCgier, isCgiRequest, hpos, hne, firstMatch_eq_none_iff.mpr hfree]

/-! ## The argument list -/

theorem copyOf_eq (str : Bytes) : copyOf str = str ++ [0] := by
  simp [copyOf, memcpy, calloc]

/-- The loop fills the null pointers that follow what is stored already. -/
theorem storeArguments_eq (arguments : List Bytes) (left : ℕ) :
    ∀ stored i, stored.length = i + 1 →
      storeArguments (stored ++ List.replicate (arguments.length + left) none) i arguments =
        stored ++ arguments.map (fun a => some (a ++ [0])) ++ List.replicate left none := by
  induction arguments with
  | nil =>
      intro stored i hi
      simp [storeArguments]
  | cons argument arguments ih =>
      intro stored i hi
      have hset : (stored ++ List.replicate ((argument :: arguments).length + left) none).set
          (i + 1) (some (copyOf argument)) = (stored ++ [some (argument ++ [0])]) ++
            List.replicate (arguments.length + left) none := by
        rw [← hi, List.set_append_right _ _ (Nat.le_refl _), Nat.sub_self, List.length_cons,
          Nat.add_right_comm, List.replicate_succ, List.set_cons_zero, copyOf_eq]
        simp
      rw [storeArguments, hset, ih _ _ (by simp [hi])]
      simp

theorem buildArgumentList_eq {cgier : Cgier} (h : cgier.cgiProgramPath ≠ []) :
    buildArgumentList cgier =
      .ok ((cgier.cgiProgramPath :: cgier.cgiArguments).map (fun s => some (s ++ [0])) ++
        [none]) := by
  have hloop := storeArguments_eq cgier.cgiArguments 1 [some (cgier.cgiProgramPath ++ [0])] 0 rfl
  have hset : (List.replicate (cgier.cgiArguments.length + 2) none).set 0
      (some (copyOf cgier.cgiProgramPath)) = [some (cgier.cgiProgramPath ++ [0])] ++
        List.replicate (cgier.cgiArguments.length + 1) none := by
    rw [List.replicate_succ, List.set_cons_zero, copyOf_eq]
    rfl
  simp only [buildArgumentList, List.isEmpty_iff, h, if_false, hset, hloop]
  rw [List.set_append_right _ _ (by simp)]
  simp

/-- The program and its arguments are read from the url and passed on. -/
structure Decodes (path : Bytes) (arguments : List Bytes) : Prop where
  parsed : parseCgier (cgiUrl path arguments) = ⟨path, arguments, true⟩
  passed : buildArgumentList (parseCgier (cgiUrl path arguments)) =
    .ok ((path :: arguments).map (fun s => some (s ++ [0])) ++ [none])

/-- A program without arguments is passed its url as an argument. -/
theorem decodes_iff {path : Bytes} {arguments : List Bytes} (hpath : IsProgramPath path)
    (harguments : ∀ a ∈ arguments, IsArgument a) :
    Decodes path arguments ↔ arguments ≠ [] := by
  cases arguments with
  | nil =>
      have hurl : cgiUrl path [] = path := List.append_nil path
      refine iff_of_false (fun h => ?_) (by simp)
      have hparsed := h.parsed
      rw [hurl, parseCgier_bare hpath] at hparsed
      exact split_ne_nil (unbordered_of_length rfl) (by decide) hpath.ne_nil
        (congrArg Cgier.cgiArguments hparsed)
  | cons argument arguments =>
      have hparsed := parseCgier_cons hpath harguments
      refine iff_of_true ⟨hparsed, ?_⟩ (List.cons_ne_nil _ _)
      rw [hparsed, buildArgumentList_eq hpath.ne_nil]

theorem isProgramPath_add : IsProgramPath (ascii "/a&b/cgi-bin/add") :=
  ⟨5, by decide, by decide⟩

theorem decodes_add : Decodes (ascii "/a&b/cgi-bin/add") [ascii "1", ascii "2"] :=
  (decodes_iff isProgramPath_add (by decide)).mpr (by decide)

/-- The url of the program is its own argument. -/
theorem not_decodes_bare :
    ¬∀ path arguments, IsProgramPath path → (∀ a ∈ arguments, IsArgument a) →
      Decodes path arguments := by
  intro h
  have hadd := h (ascii "/cgi-bin/add") [] ⟨1, by decide, by decide⟩ (by decide)
  exact absurd (congrArg Cgier.cgiArguments hadd.parsed) (by decide)

/-! ## One run -/

variable {threadId : Bytes}

theorem createFile_shared {fs : FileSystem} {filePath : Bytes} (h : fs filePath = .absent) :
    createFile fs filePath filePath = .regular [] := by
  rw [createFile, h]
  exact Function.update_self filePath _ fs

theorem writeShared_regular {fs : FileSystem} {filePath contents : Bytes}
    (h : fs filePath = .regular contents) (writes : List Write) :
    writeShared fs filePath writes filePath =
      .regular (contents ++ writes.flatMap Write.bytes) := by
  unfold writeShared
  induction writes generalizing fs contents with
  | nil => simpa using h
  | cons write writes ih =>
      have happend : appendFile fs filePath write.bytes filePath =
          .regular (contents ++ write.bytes) := by
        rw [appendFile, h]
        exact Function.update_self filePath _ fs
      rw [List.foldl_cons, ih happend, List.flatMap_cons, List.append_assoc]

theorem childWrote_eq {outcome : Outcome} (h : ∀ write ∈ outcome.writes, write.isOwn = true) :
    outcome.childWrote = outcome.writes.flatMap Write.bytes := by
  rw [Outcome.childWrote, List.filter_eq_self.mpr h]

theorem loadFile_regular {fs : FileSystem} {filePath contents : Bytes}
    (h : fs filePath = .regular contents) : loadFile fs filePath [] = .ok contents := by
  simp only [loadFile, getFileSize, isFileExists, fileSize, h]
  exact congrArg Except.ok List.take_length

/-- The runs leave no descriptor open and no file behind, and those whose system calls all succeed
have returned what their child has written. -/
structure Isolated (threadId : Bytes) (s : State) : Prop where
  closed : s.descriptors = []
  deleted : s.fs (sharedFileName threadId) = .absent
  own : ∀ report ∈ s.reports, report.outcome.succeeds = true →
    report.result = report.outcome.childWrote

/-- `fork` and `waitpid` succeed where they are called. -/
def Event.Harvests : Event → Prop
  | .run _ outcome => outcome.opened.isSome = true →
      outcome.forked = true ∧ outcome.harvested = true
  | .late _ => True

instance : (event : Event) → Decidable event.Harvests
  | .run _ outcome => inferInstanceAs (Decidable (outcome.opened.isSome = true →
      outcome.forked = true ∧ outcome.harvested = true))
  | .late _ => isTrue trivial

variable {s t : State}

/-- What a run comes to that is not disturbed by earlier ones. -/
inductive Ran (threadId : Bytes) (outcome : Outcome) (s : State) (result : Bytes) (t : State) :
    Prop where
  | unopened (hopened : outcome.opened = none) (ht : t = s)
  | unforked (hopened : outcome.opened.isSome = true) (hforked : outcome.forked = false)
      (hleak : t.descriptors ≠ [])
  | unharvested (hopened : outcome.opened.isSome = true) (hharvested : outcome.harvested = false)
      (hleft : t.fs (sharedFileName threadId) ≠ .absent)
  | completed (hforked : outcome.forked = true) (hharvested : outcome.harvested = true)
      (hdeleted : t.fs (sharedFileName threadId) = .absent) (ht : t = { s with fs := t.fs })
      (hresult : result = outcome.childWrote)

theorem Ran.of_run {cgier : Cgier} {outcome : Outcome} {result : Bytes}
    (h : Isolated threadId s) (hnone : s.stragglers = 0)
    (hpossible : Possible cgier threadId s outcome)
    (hrun : run cgier threadId outcome s = .ok (result, t)) :
    Ran threadId outcome s result t := by
  have hfile := writeShared_regular (createFile_shared h.deleted) outcome.writes
  unfold run at hrun
  by_cases hvalid : cgier.valid = true
  · simp only [hvalid, Bool.not_true, Bool.false_eq_true, if_false] at hrun
    cases hopened : outcome.opened with
    | none =>
        simp only [hopened] at hrun
        obtain ⟨-, rfl⟩ := Prod.mk.inj (Except.ok.inj hrun)
        exact .unopened hopened rfl
    | some fd =>
        have hsome : outcome.opened.isSome = true := by simp [hopened]
        simp only [hopened] at hrun
        cases hforked : outcome.forked with
        | false =>
            simp only [hforked, Bool.not_false, if_true] at hrun
            obtain ⟨-, rfl⟩ := Prod.mk.inj (Except.ok.inj hrun)
            exact .unforked hsome hforked (List.cons_ne_nil _ _)
        | true =>
            simp only [hforked, Bool.not_true, Bool.false_eq_true, if_false,
              List.erase_cons_head] at hrun
            cases hharvested : outcome.harvested with
            | false =>
                simp only [hharvested, Bool.not_false, if_true] at hrun
                obtain ⟨-, rfl⟩ := Prod.mk.inj (Except.ok.inj hrun)
                exact .unharvested hsome hharvested (by simp [hfile])
            | true =>
                simp only [hharvested, Bool.not_true, Bool.false_eq_true, if_false,
                  loadFile_regular hfile, deleteFile, hfile] at hrun
                obtain ⟨rfl, rfl⟩ := Prod.mk.inj (Except.ok.inj hrun)
                refine .completed hforked hharvested (Function.update_self _ _ _) ?_ ?_
                · simp [hnone]
                · rw [childWrote_eq (hpossible.2.2 hnone), List.nil_append]
  · simp [hvalid] at hrun

/-! ## Sequences of runs -/

/-- An undisturbed thread has no child left that it has not waited for. -/
structure Undisturbed (threadId : Bytes) (s : State) : Prop where
  isolated : Isolated threadId s
  stragglers : s.stragglers = 0

theorem undisturbed_initial {fs : FileSystem} (h : fs (sharedFileName threadId) = .absent) :
    Undisturbed threadId (initial fs) :=
  ⟨⟨rfl, h, by simp [initial]⟩, rfl⟩

theorem next_run {cgier : Cgier} {outcome : Outcome}
    (h : next threadId s (.run cgier outcome) = some t) :
    ∃ result u, Possible cgier threadId s outcome ∧
      run cgier threadId outcome s = .ok (result, u) ∧
      t = { u with reports := ⟨outcome, result⟩ :: u.reports } := by
  obtain ⟨hpossible, h⟩ := Option.ite_none_right_eq_some.mp h
  split at h
  next result u hrun => exact ⟨result, u, hpossible, hrun, (Option.some.inj h).symm⟩
  next => cases h

theorem Undisturbed.not_late (h : Undisturbed threadId s) (bytes : Bytes) :
    next threadId s (.late bytes) = none := by
  simp [next, h.stragglers]

theorem Undisturbed.step {event : Event} (h : Undisturbed threadId s) (hevent : event.Harvests)
    (hnext : next threadId s event = some t) : Undisturbed threadId t := by
  cases event with
  | late bytes => simp [h.not_late bytes] at hnext
  | run cgier outcome =>
      obtain ⟨result, u, hpossible, hrun, rfl⟩ := next_run hnext
      obtain ⟨⟨hclosed, hdeleted, hown⟩, hnone⟩ := h
      cases Ran.of_run ⟨hclosed, hdeleted, hown⟩ hnone hpossible hrun with
      | unopened hopened ht =>
          subst ht
          refine ⟨⟨hclosed, hdeleted, List.forall_mem_cons.mpr ⟨?_, hown⟩⟩, hnone⟩
          simp [Outcome.succeeds, hopened]
      | unforked hopened hforked hleak =>
          rw [(hevent hopened).1] at hforked
          cases hforked
      | unharvested hopened hharvested hleft =>
          rw [(hevent hopened).2] at hharvested
          cases hharvested
      | completed hforked hharvested hdeleted' ht hresult =>
          rw [ht]
          exact ⟨⟨hclosed, hdeleted', List.forall_mem_cons.mpr ⟨fun _ => hresult, hown⟩⟩, hnone⟩

/-- Each of the early returns leaves something behind. -/
theorem Undisturbed.harvests_of_isolated {event : Event} (h : Undisturbed threadId s)
    (hnext : next threadId s event = some t) (ht : Isolated threadId t) : event.Harvests := by
  cases event with
  | late bytes => trivial
  | run cgier outcome =>
      obtain ⟨result, u, hpossible, hrun, rfl⟩ := next_run hnext
      intro hopened
      cases Ran.of_run h.isolated h.stragglers hpossible hrun with
      | unopened hopened' ht' => simp [hopened'] at hopened
      | unforked hopened' hforked hleak => exact absurd ht.closed hleak
      | unharvested hopened' hharvested hleft => exact absurd ht.deleted hleft
      | completed hforked hharvested hdeleted ht' hresult => exact ⟨hforked, hharvested⟩

/-- The runs of a thread are isolated from each other, after each of them, exactly when every
`fork` and every `waitpid` succeeds. What `open` and `execve` return does not matter. -/
theorem isolated_iff {fs : FileSystem} (h : fs (sharedFileName threadId) = .absent)
    {events : List Event} (hrun : Run.run (next threadId) (initial fs) events = some s) :
    Run.Always (next threadId) (Isolated threadId) (initial fs) events ↔
      ∀ event ∈ events, event.Harvests := by
  rw [← Run.along_forall hrun]
  exact Run.always_iff (fun _ hs => hs.isolated) (fun _ _ _ hs hP hnext => hs.step hP hnext)
    (fun _ _ _ hs hnext => hs.harvests_of_isolated hnext) (undisturbed_initial h) hrun

def addRun (outcome : Outcome) : Event :=
  .run ⟨ascii "/cgi-bin/add", [ascii "1", ascii "2"], true⟩ outcome

/-- The second program cannot be executed, and for the third one there is no descriptor. -/
def harvestedRuns : List Event :=
  [addRun ⟨some 3, true, true, [.own (ascii "3"), .own (ascii "\n")], true⟩,
    addRun ⟨some 3, true, false, [], true⟩, addRun ⟨none, true, true, [], true⟩]

theorem isolated_harvestedRuns :
    Run.Always (next (ascii "7")) (Isolated (ascii "7")) (initial fun _ => .absent)
      harvestedRuns := by
  have hsome : (Run.run (next (ascii "7")) (initial fun _ => .absent) harvestedRuns).isSome := by
    decide
  exact (isolated_iff rfl (Option.some_get hsome).symm).mpr (by decide)

/-- The first child has written when `waitpid` fails, and its output is part of the next result. -/
def leakingRuns : List Event :=
  [addRun ⟨some 3, true, true, [.own (ascii "secret")], false⟩,
    addRun ⟨some 3, true, true, [.own (ascii "3")], true⟩]

theorem not_isolated_leakingRuns :
    ¬∀ threadId fs events s, fs (sharedFileName threadId) = .absent →
      Run.run (next threadId) (initial fs) events = some s →
        Run.Always (next threadId) (Isolated threadId) (initial fs) events := by
  intro h
  have hsome : (Run.run (next (ascii "7")) (initial fun _ => .absent) leakingRuns).isSome := by
    decide
  have hrun := (Option.some_get hsome).symm
  have hlast := (h (ascii "7") (fun _ => .absent) leakingRuns _ rfl hrun).last hrun
  have hreports : ((Run.run (next (ascii "7")) (initial fun _ => .absent) leakingRuns).get
      hsome).reports.head? =
        some ⟨⟨some 3, true, true, [.own (ascii "3")], true⟩, ascii "secret3"⟩ := by rfl
  exact absurd (hlast.own _ (List.mem_of_mem_head? hreports) rfl) (by decide)

end FalconLink.Http.Cgier
