import FalconLink.Model.Http.Processes

/-! # Programs of several threads are isolated

The file of a thread is written by its own child only, whatever the programs of other threads do at
the same time.
-/

namespace FalconLink.Http.Processes

open Cgier (sharedFileName)

variable {T : Type}

/-! ## The steps of a child -/

/-- A step of a child that does not write. -/
inductive ChildStep (child : Child T) : Child T → Prop where
  | dup2 {fd} (hphase : child.phase = .forked fd) :
      ChildStep child { child with
        phase := .redirected fd
        descriptors := Function.update child.descriptors STDOUT_FILENO (child.descriptors fd) }
  | close {fd} (hphase : child.phase = .redirected fd) :
      ChildStep child { child with
        phase := .closed
        descriptors := Function.update child.descriptors fd none }
  | execve (succeeds : Bool) (hphase : child.phase = .closed) :
      ChildStep child { child with phase := if succeeds then .executing else .exiting }
  | exit (hphase : child.phase ≠ .exited) : ChildStep child { child with phase := .exited }

theorem childStep_dup2 (child child' : Child T) (h : dup2 child = some child') :
    ChildStep child child' := by
  unfold dup2 at h
  split at h
  next fd hphase => exact Option.some.inj h ▸ .dup2 hphase
  next => cases h

theorem childStep_close (child child' : Child T) (h : closeInChild child = some child') :
    ChildStep child child' := by
  unfold closeInChild at h
  split at h
  next fd hphase => exact Option.some.inj h ▸ .close hphase
  next => cases h

theorem childStep_execve (succeeds : Bool) (child child' : Child T)
    (h : execve succeeds child = some child') : ChildStep child child' := by
  unfold execve at h
  split at h
  next hphase => exact Option.some.inj h ▸ .execve succeeds hphase
  next => cases h

theorem childStep_exit (child child' : Child T) (h : exit child = some child') :
    ChildStep child child' := by
  unfold exit at h
  split at h
  next => cases h
  next hphase => exact Option.some.inj h ▸ .exit hphase

/-! ## Who owns a file -/

/-- The descriptor of the shared file that a run has not closed. -/
def Phase.fd : Phase → Option ℕ
  | .opened fd | .forked fd _ => some fd
  | _ => none

/-- The child that a run has started and not waited for. -/
def Phase.pid : Phase → Option ℕ
  | .forked _ pid | .waiting pid => some pid
  | _ => none

/-- The standard output of a child is, or is going to be, this file. -/
def Child.WritesTo (child : Child T) (inode : Inode) : Prop :=
  match child.phase with
  | .forked fd => fd ≠ STDOUT_FILENO ∧ child.descriptors fd = some (.file inode)
  | .redirected fd =>
      fd ≠ STDOUT_FILENO ∧ child.descriptors STDOUT_FILENO = some (.file inode)
  | .closed | .executing | .exiting =>
      child.descriptors STDOUT_FILENO = some (.file inode)
  | .exited => True

theorem ChildStep.writesTo {child child' : Child T} (hstep : ChildStep child child')
    {inode : Inode} (h : child.WritesTo inode) : child'.WritesTo inode := by
  cases hstep with
  | dup2 hphase =>
      rw [Child.WritesTo, hphase] at h
      simpa [Child.WritesTo] using h
  | close hphase =>
      rw [Child.WritesTo, hphase] at h
      simpa [Child.WritesTo, h.1.symm] using h.2
  | execve succeeds hphase =>
      rw [Child.WritesTo, hphase] at h
      cases succeeds <;> exact h
  | exit hphase => trivial

theorem ChildStep.same {child child' : Child T} (hstep : ChildStep child child') :
    child'.thread = child.thread ∧ child'.wrote = child.wrote ∧ child.phase ≠ .exited := by
  cases hstep with
  | dup2 hphase | close hphase | execve _ hphase => exact ⟨rfl, rfl, by simp [hphase]⟩
  | exit hphase => exact ⟨rfl, rfl, hphase⟩

/-- Every shared file, with all that refers to it, belongs to one thread. -/
structure Owned (id : T → Bytes) (s : State T) : Prop where
  names : ∀ t i, s.names (sharedFileName (id t)) = some i → s.creator i = some t
  fresh : ∀ i, s.nextInode ≤ i → s.creator i = none
  files : ∀ fd i, s.descriptors fd = some (.file i) → s.creator i ≠ none
  opened : ∀ t fd, (s.threads t).fd = some fd →
    ∃ i, s.descriptors fd = some (.file i) ∧ s.creator i = some t
  standard : s.descriptors STDOUT_FILENO = some .standard
  pids : ∀ pid, s.nextPid ≤ pid → s.children pid = none
  children : ∀ pid child, s.children pid = some child →
    ∃ i, child.WritesTo i ∧ s.creator i = some child.thread

theorem owned_initial (id : T → Bytes) : Owned id (initial T) where
  names _ _ h := by cases h
  fresh _ _ := rfl
  files fd i h := by
    by_cases hfd : fd < 3 <;> simp [initial, hfd] at h
  opened _ _ h := by cases h
  standard := rfl
  pids _ _ := rfl
  children _ _ h := by cases h

theorem sharedFileName_injective {id : T → Bytes} (hid : Function.Injective id) {t u : T}
    (h : sharedFileName (id t) = sharedFileName (id u)) : t = u := by
  apply hid
  simpa [sharedFileName] using h

section Ownership

variable {id : T → Bytes} {s s' : State T}

theorem Owned.setChild (h : Owned id s) {pid : ℕ} {child child' : Child T}
    (hchild : s.children pid = some child) (hthread : child'.thread = child.thread)
    (hwrites : ∀ i, child.WritesTo i → child'.WritesTo i) : Owned id (setChild s pid child') := by
  refine ⟨h.names, h.fresh, h.files, h.opened, h.standard, fun pid' hle => ?_,
    fun pid' other hother => ?_⟩
  · have hne : pid' ≠ pid := by
      rintro rfl
      rw [h.pids pid' hle] at hchild
      cases hchild
    simpa [Processes.setChild, hne] using h.pids pid' hle
  · by_cases heq : pid' = pid
    · subst heq
      obtain rfl : child' = other := by simpa [Processes.setChild] using hother
      rcases h.children pid' child hchild with ⟨i, hi, hcreator⟩
      exact ⟨i, hwrites i hi, hthread ▸ hcreator⟩
    · exact h.children pid' other (by simpa [Processes.setChild, heq] using hother)

/-- Descriptors that no run has open come and go. -/
theorem Owned.setDescriptor (h : Owned id s) {fd : ℕ} {object : Option Object}
    (hobject : ∀ i, object = some (.file i) → s.creator i ≠ none)
    (hfd : ∀ t, (s.threads t).fd ≠ some fd) (hstandard : fd ≠ STDOUT_FILENO) :
    Owned id { s with descriptors := Function.update s.descriptors fd object } := by
  refine ⟨h.names, h.fresh, fun fd' i hi => ?_, fun t fd' hfd' => ?_, ?_, h.pids, h.children⟩
  · by_cases heq : fd' = fd
    · subst heq
      exact hobject i (by simpa using hi)
    · exact h.files fd' i (by simpa [heq] using hi)
  · have hne : fd' ≠ fd := by
      rintro rfl
      exact hfd t hfd'
    rcases h.opened t fd' hfd' with ⟨i, hi, hcreator⟩
    exact ⟨i, (Function.update_of_ne hne _ _).trans hi, hcreator⟩
  · exact (Function.update_of_ne hstandard.symm _ _).trans h.standard

/-- A descriptor that is free or a socket is not the one of a run. -/
theorem Owned.not_opened (h : Owned id s) {fd : ℕ} (hfd : ∀ i, s.descriptors fd ≠ some (.file i))
    (t : T) : (s.threads t).fd ≠ some fd := by
  intro hopened
  rcases h.opened t fd hopened with ⟨i, hi, -⟩
  exact hfd i hi

theorem Owned.ne_nextInode (h : Owned id s) {i : Inode} (hi : s.creator i ≠ none) :
    i ≠ s.nextInode := by
  rintro rfl
  exact hi (h.fresh s.nextInode le_rfl)

/-- The file of a thread is its own, and it is a new one when there was none. -/
theorem Owned.create (h : Owned id s) (hid : Function.Injective id) (t : T) :
    Owned id (create s t (sharedFileName (id t))).2 ∧
      (create s t (sharedFileName (id t))).2.creator (create s t (sharedFileName (id t))).1 =
        some t := by
  unfold Processes.create
  cases hname : s.names (sharedFileName (id t)) with
  | some inode => exact ⟨h, h.names t inode hname⟩
  | none =>
      have hkeep : ∀ {i : Inode} {u : T}, s.creator i = some u →
          Function.update s.creator s.nextInode (some t) i = some u := by
        intro i u hcreator
        have hne := h.ne_nextInode (i := i) (by simp [hcreator])
        exact (Function.update_of_ne hne _ _).trans hcreator
      refine ⟨⟨fun u i hi => ?_, fun i hi => ?_, fun fd i hi => ?_, fun u fd hfd => ?_,
        h.standard, h.pids, fun pid child hchild => ?_⟩, Function.update_self _ _ _⟩
      · by_cases hut : u = t
        · subst hut
          obtain rfl : s.nextInode = i := by simpa using hi
          exact Function.update_self _ _ _
        · have hpath : sharedFileName (id u) ≠ sharedFileName (id t) :=
            fun heq => hut (sharedFileName_injective hid heq)
          exact hkeep (h.names u i (by simpa [hpath] using hi))
      · have hlt : s.nextInode < i := Nat.lt_of_succ_le hi
        exact (Function.update_of_ne hlt.ne' _ _).trans (h.fresh i hlt.le)
      · rcases Option.ne_none_iff_exists'.mp (h.files fd i hi) with ⟨u, hcreator⟩
        exact Option.ne_none_iff_exists'.mpr ⟨u, hkeep hcreator⟩
      · rcases h.opened u fd hfd with ⟨i, hi, hcreator⟩
        exact ⟨i, hi, hkeep hcreator⟩
      · rcases h.children pid child hchild with ⟨i, hi, hcreator⟩
        exact ⟨i, hi, hkeep hcreator⟩

theorem create_threads (s : State T) (t : T) (filePath : Bytes) :
    (create s t filePath).2.threads = s.threads := by
  unfold create
  split <;> rfl

theorem create_descriptors (s : State T) (t : T) (filePath : Bytes) :
    (create s t filePath).2.descriptors = s.descriptors := by
  unfold create
  split <;> rfl

theorem Owned.ne_stdout (h : Owned id s) {fd : ℕ} (hfd : s.descriptors fd ≠ some .standard) :
    fd ≠ STDOUT_FILENO := by
  rintro rfl
  exact hfd h.standard

/-- The descriptor of a run is no other run's. -/
theorem Owned.exclusive (h : Owned id s) {t u : T} {fd : ℕ} (ht : (s.threads t).fd = some fd)
    (hu : (s.threads u).fd = some fd) : t = u := by
  rcases h.opened t fd ht with ⟨i, hi, hcreator⟩
  rcases h.opened u fd hu with ⟨j, hj, hcreator'⟩
  obtain rfl : i = j := by simpa [hi] using hj
  exact Option.some.inj (hcreator.symm.trans hcreator')

theorem Owned.write (h : Owned id s) {pid : ℕ} {child : Child T}
    (hchild : s.children pid = some child) (fd : ℕ) (bytes : Bytes) :
    Owned id (write s pid child fd bytes) := by
  simp only [Processes.write]
  generalize (if fd = STDOUT_FILENO then child.wrote ++ bytes else child.wrote) = wrote
  have hset : Owned id (Processes.setChild s pid { child with wrote }) :=
    h.setChild hchild rfl fun _ hi => hi
  split
  · exact ⟨hset.names, hset.fresh, hset.files, hset.opened, hset.standard, hset.pids,
      hset.children⟩
  · exact hset

end Ownership

/-! ## What a thread sees -/

/-- What the steps of other threads and of their children leave as it is, besides the phase. -/
structure Frame (id : T → Bytes) (t : T) (s s' : State T) : Prop where
  name : s'.names (sharedFileName (id t)) = s.names (sharedFileName (id t))
  creator : ∀ i, s'.creator i = some t ↔ s.creator i = some t
  contents : ∀ i, s.creator i = some t → s'.contents i = s.contents i
  descriptors : ∀ fd i, s.creator i = some t →
    (s'.descriptors fd = some (.file i) ↔ s.descriptors fd = some (.file i))
  children : ∀ pid child, child.thread = t →
    (s'.children pid = some child ↔ s.children pid = some child)
  reports : ∀ report ∈ s'.reports, report.thread = t → report ∈ s.reports

/-- What the child has written is what is in the file of its thread. -/
structure Output (id : T → Bytes) (t : T) (s : State T) (pid : ℕ) (child : Child T) (i : Inode) :
    Prop where
  name : s.names (sharedFileName (id t)) = some i
  started : s.children pid = some child
  thread : child.thread = t
  writes : child.WritesTo i
  contents : s.contents i = child.wrote

/-- What is there of a run in each of its phases. -/
def Settled (id : T → Bytes) (t : T) (s : State T) : Phase → Prop
  | .idle => s.names (sharedFileName (id t)) = none
  | .opened fd => ∃ i, s.names (sharedFileName (id t)) = some i ∧
      s.descriptors fd = some (.file i) ∧ s.contents i = []
  | .forked _ pid | .waiting pid => ∃ child i, Output id t s pid child i
  | .harvested pid => ∃ child i, Output id t s pid child i ∧ child.phase = .exited
  | .loading pid size => ∃ child i, Output id t s pid child i ∧ child.phase = .exited ∧
      size = child.wrote.length
  | .loaded pid cgiResult => ∃ child i, Output id t s pid child i ∧ child.phase = .exited ∧
      cgiResult = child.wrote
  | .failed => False

/-- The runs of the thread have left nothing behind, and all have returned what was written. -/
structure Clean (id : T → Bytes) (t : T) (s : State T) : Prop where
  reports : ∀ report ∈ s.reports, report.thread = t → report.result = report.wrote
  descriptors : ∀ fd i, s.descriptors fd = some (.file i) → s.creator i = some t →
    (s.threads t).fd = some fd
  children : ∀ pid child, s.children pid = some child → child.thread = t →
    child.phase ≠ .exited → (s.threads t).pid = some pid
  settled : Settled id t s (s.threads t)

theorem Clean.settledAt {id : T → Bytes} {t : T} {s : State T} {phase : Phase}
    (h : Clean id t s) (hphase : s.threads t = phase) : Settled id t s phase :=
  hphase ▸ h.settled

theorem clean_initial (id : T → Bytes) (t : T) : Clean id t (initial T) where
  reports _ h := by cases h
  descriptors _ _ _ h := by cases h
  children _ _ h := by cases h
  settled := rfl

section Frames

variable {id : T → Bytes} {t : T} {s s' s'' : State T}

theorem Frame.trans (h : Frame id t s s') (h' : Frame id t s' s'') : Frame id t s s'' where
  name := h'.name.trans h.name
  creator i := (h'.creator i).trans (h.creator i)
  contents i hi := (h'.contents i ((h.creator i).mpr hi)).trans (h.contents i hi)
  descriptors fd i hi := (h'.descriptors fd i ((h.creator i).mpr hi)).trans (h.descriptors fd i hi)
  children pid child hthread := (h'.children pid child hthread).trans (h.children pid child hthread)
  reports report hmem hthread := h.reports report (h'.reports report hmem hthread) hthread

theorem Output.frame {pid : ℕ} {child : Child T} {i : Inode} (h : Output id t s pid child i)
    (howned : Owned id s) (hframe : Frame id t s s') : Output id t s' pid child i where
  name := hframe.name.trans h.name
  started := (hframe.children pid child h.thread).mpr h.started
  thread := h.thread
  writes := h.writes
  contents := (hframe.contents i (howned.names t i h.name)).trans h.contents

theorem Settled.frame {phase : Phase} (h : Settled id t s phase) (howned : Owned id s)
    (hframe : Frame id t s s') : Settled id t s' phase := by
  cases phase with
  | idle => exact hframe.name.trans h
  | opened fd =>
      rcases h with ⟨i, hname, hfile, hempty⟩
      have hcreator := howned.names t i hname
      exact ⟨i, hframe.name.trans hname, (hframe.descriptors fd i hcreator).mpr hfile,
        (hframe.contents i hcreator).trans hempty⟩
  | forked fd pid | waiting pid =>
      rcases h with ⟨child, i, houtput⟩
      exact ⟨child, i, houtput.frame howned hframe⟩
  | harvested pid | loading pid size | loaded pid cgiResult =>
      rcases h with ⟨child, i, houtput, hrest⟩
      exact ⟨child, i, houtput.frame howned hframe, hrest⟩
  | failed => exact h

theorem Clean.frame (h : Clean id t s) (howned : Owned id s) (hframe : Frame id t s s')
    (hthread : s'.threads t = s.threads t) : Clean id t s' where
  reports report hmem hown := h.reports report (hframe.reports report hmem hown) hown
  descriptors fd i hfile hcreator := by
    have hcreator' := (hframe.creator i).mp hcreator
    rw [hthread]
    exact h.descriptors fd i ((hframe.descriptors fd i hcreator').mp hfile) hcreator'
  children pid child hchild hown hactive := by
    rw [hthread]
    exact h.children pid child ((hframe.children pid child hown).mp hchild) hown hactive
  settled := by
    rw [hthread]
    exact h.settled.frame howned hframe

/-! ## Steps of others -/

theorem frame_setDescriptor (fd : ℕ) (object : Option Object)
    (hold : ∀ i, s.descriptors fd = some (.file i) → s.creator i ≠ some t)
    (hnew : ∀ i, object = some (.file i) → s.creator i ≠ some t) :
    Frame id t s { s with descriptors := Function.update s.descriptors fd object } where
  name := rfl
  creator _ := Iff.rfl
  contents _ _ := rfl
  descriptors fd' i hcreator := by
    by_cases heq : fd' = fd
    · subst heq
      refine iff_of_false (fun h => hnew i (by simpa using h) hcreator) fun h => hold i h hcreator
    · simp [heq]
  children _ _ _ := Iff.rfl
  reports _ hmem _ := hmem

theorem frame_setChild {pid : ℕ} {child : Child T} (hchild : s.children pid = some child)
    (hother : child.thread ≠ t) (child' : Child T) (hthread : child'.thread = child.thread) :
    Frame id t s (setChild s pid child') where
  name := rfl
  creator _ := Iff.rfl
  contents _ _ := rfl
  descriptors _ _ _ := Iff.rfl
  children pid' own hown := by
    by_cases heq : pid' = pid
    · subst heq
      refine iff_of_false (fun h => ?_) fun h => ?_
      · obtain rfl : child' = own := by simpa [setChild] using h
        exact hother (hthread.symm.trans hown)
      · obtain rfl : child = own := Option.some.inj (hchild.symm.trans h)
        exact hother hown
    · simp [setChild, heq]
  reports _ hmem _ := hmem

theorem frame_setContents {i : Inode} (hcreator : s.creator i ≠ some t) (bytes : Bytes) :
    Frame id t s { s with contents := Function.update s.contents i bytes } where
  name := rfl
  creator _ := Iff.rfl
  contents j hj := by
    have hne : j ≠ i := by
      rintro rfl
      exact hcreator hj
    exact Function.update_of_ne hne _ _
  descriptors _ _ _ := Iff.rfl
  children _ _ _ := Iff.rfl
  reports _ hmem _ := hmem

theorem frame_create (howned : Owned id s) (hid : Function.Injective id) {u : T} (hut : u ≠ t) :
    Frame id t s (create s u (sharedFileName (id u))).2 := by
  unfold create
  split
  next => exact ⟨rfl, fun _ => Iff.rfl, fun _ _ => rfl, fun _ _ _ => Iff.rfl,
    fun _ _ _ => Iff.rfl, fun _ hmem _ => hmem⟩
  next =>
    have hpath : sharedFileName (id t) ≠ sharedFileName (id u) :=
      fun heq => hut (sharedFileName_injective hid heq).symm
    refine ⟨Function.update_of_ne hpath _ _, fun i => ?_, fun i hi => ?_,
      fun _ _ _ => Iff.rfl, fun _ _ _ => Iff.rfl, fun _ hmem _ => hmem⟩
    · by_cases heq : i = s.nextInode
      · subst heq
        simp [hut, howned.fresh s.nextInode le_rfl]
      · simp [heq]
    · have hne := howned.ne_nextInode (i := i) (by simp [hi])
      exact Function.update_of_ne hne _ _

theorem frame_deleteFile (hid : Function.Injective id) {u : T} (hut : u ≠ t)
    (report : Bytes × Bytes) :
    Frame id t s { s with
      names := Function.update s.names (sharedFileName (id u)) none
      reports := s.reports ++ [⟨u, report.1, report.2⟩] } where
  name := by
    have hpath : sharedFileName (id t) ≠ sharedFileName (id u) :=
      fun heq => hut (sharedFileName_injective hid heq).symm
    exact Function.update_of_ne hpath _ _
  creator _ := Iff.rfl
  contents _ _ := rfl
  descriptors _ _ _ := Iff.rfl
  children _ _ _ := Iff.rfl
  reports report hmem hthread := by
    rcases List.mem_append.mp hmem with hmem | hmem
    · exact hmem
    · rw [List.mem_singleton.mp hmem] at hthread
      exact absurd hthread hut

end Frames

/-! ## The steps -/

variable [DecidableEq T]

inductive Step (id : T → Bytes) (s : State T) : Event T → State T → Prop where
  | unopened (t) (hidle : s.threads t = .idle) : Step id s (.openShared t none) s
  | openShared (t) {fd} (hidle : s.threads t = .idle) (hfree : s.descriptors fd = none) :
      Step id s (.openShared t (some fd)) (openShared s t (sharedFileName (id t)) fd)
  | fork (t) {fd} (hopened : s.threads t = .opened fd) : Step id s (.fork t true) (fork s t fd)
  | forkFails (t) {fd} (hopened : s.threads t = .opened fd) :
      Step id s (.fork t false) (setThread s t .idle)
  | close (t) {fd pid} (hforked : s.threads t = .forked fd pid) :
      Step id s (.close t) (setThread
        { s with descriptors := Function.update s.descriptors fd none } t (.waiting pid))
  | harvest (t) {pid} (hwaiting : s.threads t = .waiting pid) (hexited : hasExited s pid) :
      Step id s (.waitpid t true) (setThread s t (.harvested pid))
  | waitFails (t) {pid} (hwaiting : s.threads t = .waiting pid) :
      Step id s (.waitpid t false) (setThread s t .idle)
  | getFileSize (t) {pid inode} (hharvested : s.threads t = .harvested pid)
      (hname : s.names (sharedFileName (id t)) = some inode) :
      Step id s (.getFileSize t) (setThread s t (.loading pid (s.contents inode).length))
  | sizeFails (t) {pid} (hharvested : s.threads t = .harvested pid)
      (hname : s.names (sharedFileName (id t)) = none) :
      Step id s (.getFileSize t) (setThread s t .failed)
  | read (t) {pid size inode} (hloading : s.threads t = .loading pid size)
      (hname : s.names (sharedFileName (id t)) = some inode) :
      Step id s (.read t) (setThread s t (.loaded pid ((s.contents inode).take size)))
  | readFails (t) {pid size} (hloading : s.threads t = .loading pid size)
      (hname : s.names (sharedFileName (id t)) = none) :
      Step id s (.read t) (setThread s t .failed)
  | deleteFile (t) {pid cgiResult} (hloaded : s.threads t = .loaded pid cgiResult) :
      Step id s (.deleteFile t) (setThread { s with
        names := Function.update s.names (sharedFileName (id t)) none
        reports := s.reports ++ [⟨t, wrote s pid, cgiResult⟩] } t .idle)
  | child {event} (pid) {child child'} (hchild : s.children pid = some child)
      (hstep : ChildStep child child') : Step id s event (setChild s pid child')
  | write (pid) {child fd bytes} (hchild : s.children pid = some child)
      (hphase : child.phase = .executing ∨ child.phase = .exiting) :
      Step id s (.write pid fd bytes) (write s pid child fd bytes)
  | openSocket {fd} (hfree : s.descriptors fd = none) :
      Step id s (.openSocket fd)
        { s with descriptors := Function.update s.descriptors fd (some .socket) }
  | closeSocket {fd} (hsocket : s.descriptors fd = some .socket) :
      Step id s (.closeSocket fd)
        { s with descriptors := Function.update s.descriptors fd none }

section Steps

variable {id : T → Bytes} {t : T} {s s' : State T}

theorem Step.of_childStep {event : Event T} {pid : ℕ} {step : Child T → Option (Child T)}
    (hstep : ∀ child child', step child = some child' → ChildStep child child')
    (h : childStep s pid step = some s') : Step id s event s' := by
  obtain ⟨child', hbind, rfl⟩ := Option.map_eq_some_iff.mp h
  obtain ⟨child, hchild, hsome⟩ := Option.bind_eq_some_iff.mp hbind
  exact .child pid hchild (hstep child child' hsome)

theorem Step.of_next {event : Event T} (h : next id s event = some s') : Step id s event s' := by
  cases event with
  | openShared t result =>
      simp only [next] at h
      split at h
      next fd hidle =>
        obtain ⟨hfree, rfl⟩ := Run.of_guard h
        exact .openShared t hidle hfree
      next hidle => exact Option.some.inj h ▸ .unopened t hidle
      next => cases h
  | fork t succeeds =>
      simp only [next] at h
      split at h
      next fd hopened =>
        cases succeeds with
        | true => exact Option.some.inj h ▸ .fork t hopened
        | false => exact Option.some.inj h ▸ .forkFails t hopened
      next => cases h
  | close t =>
      simp only [next] at h
      split at h
      next fd pid hforked => exact Option.some.inj h ▸ .close t hforked
      next => cases h
  | waitpid t succeeds =>
      simp only [next] at h
      split at h
      next pid hwaiting =>
        cases succeeds with
        | true =>
            obtain ⟨hexited, rfl⟩ := Run.of_guard h
            exact .harvest t hwaiting hexited
        | false => exact Option.some.inj h ▸ .waitFails t hwaiting
      next => cases h
  | getFileSize t =>
      simp only [next] at h
      split at h
      next pid hharvested =>
        split at h
        next inode hname => exact Option.some.inj h ▸ .getFileSize t hharvested hname
        next hname => exact Option.some.inj h ▸ .sizeFails t hharvested hname
      next => cases h
  | read t =>
      simp only [next] at h
      split at h
      next pid size hloading =>
        split at h
        next inode hname => exact Option.some.inj h ▸ .read t hloading hname
        next hname => exact Option.some.inj h ▸ .readFails t hloading hname
      next => cases h
  | deleteFile t =>
      simp only [next] at h
      split at h
      next pid cgiResult hloaded => exact Option.some.inj h ▸ .deleteFile t hloaded
      next => cases h
  | dup2 pid => exact .of_childStep childStep_dup2 h
  | closeInChild pid => exact .of_childStep childStep_close h
  | execve pid succeeds => exact .of_childStep (childStep_execve succeeds) h
  | exit pid => exact .of_childStep childStep_exit h
  | write pid fd bytes =>
      obtain ⟨child, hchild, hwrite⟩ := Option.bind_eq_some_iff.mp h
      obtain ⟨hphase, rfl⟩ := Run.of_guard hwrite
      exact .write pid hchild hphase
  | openSocket fd =>
      obtain ⟨hfree, rfl⟩ := Run.of_guard h
      exact .openSocket hfree
  | closeSocket fd =>
      obtain ⟨hsocket, rfl⟩ := Run.of_guard h
      exact .closeSocket hsocket

theorem Owned.setThread (h : Owned id s) (t : T) {phase : Phase}
    (hphase : ∀ fd, phase.fd = some fd →
      ∃ i, s.descriptors fd = some (.file i) ∧ s.creator i = some t) :
    Owned id (setThread s t phase) := by
  refine ⟨h.names, h.fresh, h.files, fun u fd hfd => ?_, h.standard, h.pids, h.children⟩
  by_cases hut : u = t
  · subst hut
    exact hphase fd (by simpa [Processes.setThread] using hfd)
  · exact h.opened u fd (by simpa [Processes.setThread, hut] using hfd)

theorem Owned.openShared (h : Owned id s) (hid : Function.Injective id) (t : T) {fd : ℕ}
    (hfree : s.descriptors fd = none) :
    Owned id (openShared s t (sharedFileName (id t)) fd) := by
  rcases h.create hid t with ⟨hcreate, hcreator⟩
  have hfree' : (Processes.create s t (sharedFileName (id t))).2.descriptors fd = none := by
    rw [create_descriptors, hfree]
  have hnot := hcreate.not_opened (fun i => by simp [hfree'] : ∀ i,
    (Processes.create s t (sharedFileName (id t))).2.descriptors fd ≠ some (.file i))
  have hne : fd ≠ STDOUT_FILENO := hcreate.ne_stdout (by simp [hfree'])
  have hobject : ∀ i, some (.file (Processes.create s t (sharedFileName (id t))).1) =
      some (Object.file i) →
        (Processes.create s t (sharedFileName (id t))).2.creator i ≠ none := by
    rintro i heq
    obtain rfl : (Processes.create s t (sharedFileName (id t))).1 = i := by simpa using heq
    simp [hcreator]
  refine (hcreate.setDescriptor hobject hnot hne).setThread t fun fd' hfd' => ?_
  obtain rfl : fd = fd' := Option.some.inj hfd'
  exact ⟨_, Function.update_self _ _ _, hcreator⟩

theorem Owned.fork (h : Owned id s) {t : T} {fd : ℕ} (hopened : s.threads t = .opened fd) :
    Owned id (fork s t fd) := by
  rcases h.opened t fd (by rw [hopened]; rfl) with ⟨i, hi, hcreator⟩
  have hadd : Owned id { s with
      children := Function.update s.children s.nextPid (some ⟨t, .forked fd, s.descriptors, []⟩)
      nextPid := s.nextPid + 1 } := by
    refine ⟨h.names, h.fresh, h.files, h.opened, h.standard, fun pid hle => ?_,
      fun pid child hchild => ?_⟩
    · have hlt : s.nextPid < pid := Nat.lt_of_succ_le hle
      exact (Function.update_of_ne hlt.ne' _ _).trans (h.pids pid hlt.le)
    · by_cases heq : pid = s.nextPid
      · subst heq
        obtain rfl : (⟨t, .forked fd, s.descriptors, []⟩ : Child T) = child := by
          simpa using hchild
        exact ⟨i, ⟨h.ne_stdout (by simp [hi]), hi⟩, hcreator⟩
      · exact h.children pid child (by simpa [heq] using hchild)
  refine hadd.setThread t fun fd' hfd' => ?_
  obtain rfl : fd = fd' := Option.some.inj hfd'
  exact ⟨i, hi, hcreator⟩

theorem Owned.close (h : Owned id s) {t : T} {fd pid : ℕ} (hforked : s.threads t = .forked fd pid) :
    Owned id (Processes.setThread
      { s with descriptors := Function.update s.descriptors fd none } t (.waiting pid)) := by
  have hfd : (s.threads t).fd = some fd := by rw [hforked]; rfl
  rcases h.opened t fd hfd with ⟨i, hi, -⟩
  have hwaiting : Owned id (Processes.setThread s t (.waiting pid)) := h.setThread t nofun
  refine hwaiting.setDescriptor nofun (fun u hu => ?_) (h.ne_stdout (by simp [hi]))
  by_cases hut : u = t
  · subst hut
    simp [Processes.setThread, Phase.fd] at hu
  · exact hut (h.exclusive (by simpa [Processes.setThread, hut] using hu) hfd)

theorem Owned.step {event : Event T} (h : Owned id s) (hid : Function.Injective id)
    (hstep : Step id s event s') : Owned id s' := by
  cases hstep with
  | unopened t hidle => exact h
  | openShared t hidle hfree => exact h.openShared hid t hfree
  | fork t hopened => exact h.fork hopened
  | close t hforked => exact h.close hforked
  | forkFails t | harvest t | waitFails t | getFileSize t | sizeFails t | read t | readFails t =>
      exact h.setThread t nofun
  | deleteFile t hloaded =>
      have hdeleted : Owned id (Processes.setThread s t .idle) := h.setThread t nofun
      refine ⟨fun u i hi => ?_, hdeleted.fresh, hdeleted.files, hdeleted.opened,
        hdeleted.standard, hdeleted.pids, hdeleted.children⟩
      by_cases hpath : sharedFileName (id u) = sharedFileName (id t)
      · simp [Processes.setThread, hpath] at hi
      · exact h.names u i (by simpa [Processes.setThread, hpath] using hi)
  | child pid hchild hstep =>
      exact h.setChild hchild hstep.same.1 fun _ hi => hstep.writesTo hi
  | write pid hchild hphase => exact h.write hchild _ _
  | openSocket hfree =>
      exact h.setDescriptor nofun (h.not_opened (by simp [hfree])) (h.ne_stdout (by simp [hfree]))
  | closeSocket hsocket =>
      exact h.setDescriptor nofun (h.not_opened (by simp [hsocket]))
        (h.ne_stdout (by simp [hsocket]))

/-! ## Steps of the thread itself -/

omit [DecidableEq T] in
theorem Settled.output {pid : ℕ} {phase : Phase} (h : Settled id t s phase)
    (hpid : phase.pid = some pid) : ∃ child i, Output id t s pid child i := by
  cases phase with
  | forked fd pid' | waiting pid' =>
      obtain rfl : pid' = pid := Option.some.inj hpid
      exact h
  | idle | opened | harvested | loading | loaded | failed => cases hpid

omit [DecidableEq T] in
theorem Settled.of_output {pid : ℕ} {phase : Phase} (hpid : phase.pid = some pid) {child : Child T}
    {i : Inode} (houtput : Output id t s pid child i) : Settled id t s phase := by
  cases phase with
  | forked fd pid' | waiting pid' =>
      obtain rfl : pid' = pid := Option.some.inj hpid
      exact ⟨child, i, houtput⟩
  | idle | opened | harvested | loading | loaded | failed => cases hpid

@[simp] theorem setThread_self (s : State T) (t : T) (phase : Phase) :
    (setThread s t phase).threads t = phase := by
  simp [setThread]

theorem setThread_of_ne (s : State T) {t u : T} (phase : Phase) (hut : u ≠ t) :
    (setThread s u phase).threads t = s.threads t := by
  simp [setThread, hut.symm]

theorem frame_setThread (u : T) (phase : Phase) : Frame id t s (setThread s u phase) where
  name := rfl
  creator _ := Iff.rfl
  contents _ _ := rfl
  descriptors _ _ _ := Iff.rfl
  children _ _ _ := Iff.rfl
  reports _ hmem _ := hmem

/-- Steps without a descriptor and without a running child. -/
theorem Clean.advance (h : Clean id t s) (howned : Owned id s) {phase : Phase}
    (hfd : (s.threads t).fd = none)
    (hexited : ∀ pid child, s.children pid = some child → child.thread = t →
      child.phase = .exited)
    (hsettled : Settled id t s phase) : Clean id t (setThread s t phase) where
  reports := h.reports
  descriptors fd i hfile hcreator := by
    have hopened := h.descriptors fd i hfile hcreator
    rw [hfd] at hopened
    cases hopened
  children pid child hchild hthread hactive :=
    absurd (hexited pid child hchild hthread) hactive
  settled := by
    rw [setThread_self]
    exact hsettled.frame howned (frame_setThread t phase)

omit [DecidableEq T] in
theorem Clean.exited (h : Clean id t s) (hpid : (s.threads t).pid = none) (pid : ℕ)
    (child : Child T) (hchild : s.children pid = some child) (hthread : child.thread = t) :
    child.phase = .exited := by
  by_contra hactive
  have hsome := h.children pid child hchild hthread hactive
  rw [hpid] at hsome
  cases hsome

theorem Clean.openShared (h : Clean id t s) (howned : Owned id s) (hidle : s.threads t = .idle)
    (fd : ℕ) : Clean id t (openShared s t (sharedFileName (id t)) fd) := by
  have hname : s.names (sharedFileName (id t)) = none := h.settledAt hidle
  simp only [Processes.openShared, create, hname]
  refine ⟨h.reports, fun fd' i hfile hcreator => ?_, fun pid child hchild hthread hactive => ?_, ?_⟩
  · by_cases heq : fd' = fd
    · simp [Processes.setThread, Phase.fd, heq]
    · have hfile' : s.descriptors fd' = some (.file i) := by
        simpa [Processes.setThread, heq] using hfile
      have hne := howned.ne_nextInode (howned.files fd' i hfile')
      have hopened := h.descriptors fd' i hfile'
        (by simpa [Processes.setThread, hne] using hcreator)
      rw [hidle] at hopened
      cases hopened
  · exact absurd (h.exited (by rw [hidle]; rfl) pid child hchild hthread) hactive
  · rw [setThread_self]
    exact ⟨s.nextInode, Function.update_self _ _ _, Function.update_self _ _ _,
      Function.update_self _ _ _⟩

theorem Clean.fork (h : Clean id t s) (howned : Owned id s) {fd : ℕ}
    (hopened : s.threads t = .opened fd) : Clean id t (fork s t fd) := by
  rcases h.settledAt hopened with ⟨i, hname, hfile, hempty⟩
  refine ⟨h.reports, fun fd' j hfile' hcreator => ?_,
    fun pid child hchild hthread hactive => ?_, ?_⟩
  · have hfd := h.descriptors fd' j hfile' hcreator
    rw [hopened] at hfd
    simpa [Processes.fork, Processes.setThread, Phase.fd] using hfd
  · by_cases heq : pid = s.nextPid
    · simp [Processes.fork, Processes.setThread, Phase.pid, heq]
    · have hchild' : s.children pid = some child := by
        simpa [Processes.fork, Processes.setThread, heq] using hchild
      exact absurd (h.exited (by rw [hopened]; rfl) pid child hchild' hthread) hactive
  · rw [Processes.fork, setThread_self]
    have hstdout : fd ≠ STDOUT_FILENO := howned.ne_stdout (by simp [hfile])
    exact ⟨⟨t, .forked fd, s.descriptors, []⟩, i, hname, Function.update_self _ _ _, rfl,
      ⟨hstdout, hfile⟩, hempty⟩

theorem Clean.close (h : Clean id t s) {fd pid : ℕ} (hforked : s.threads t = .forked fd pid) :
    Clean id t (Processes.setThread
      { s with descriptors := Function.update s.descriptors fd none } t (.waiting pid)) := by
  have hpid : (s.threads t).pid = some pid := by rw [hforked]; rfl
  rcases h.settled.output hpid with ⟨child, i, houtput⟩
  refine ⟨h.reports, fun fd' j hfile hcreator => ?_,
    fun pid' other hother hthread hactive => ?_, ?_⟩
  · by_cases heq : fd' = fd
    · simp [Processes.setThread, heq] at hfile
    · have hfd := h.descriptors fd' j (by simpa [Processes.setThread, heq] using hfile) hcreator
      rw [hforked] at hfd
      exact absurd (Option.some.inj hfd).symm heq
  · have hpid := h.children pid' other hother hthread hactive
    rw [hforked] at hpid
    simpa [Processes.setThread, Phase.pid] using hpid
  · rw [setThread_self]
    exact ⟨child, i, houtput.name, houtput.started, houtput.thread, houtput.writes,
      houtput.contents⟩

omit [DecidableEq T] in
/-- A child of the thread takes a step, or its file and what it has written grow. -/
theorem Clean.setChild (h : Clean id t s) {pid : ℕ} {child child' : Child T}
    (contents : Inode → Bytes)
    (hchild : s.children pid = some child) (hthread : child'.thread = child.thread)
    (hactive : child.phase ≠ .exited) (hown : child.thread = t)
    (hwrites : ∀ i, child.WritesTo i → child'.WritesTo i)
    (hcontents : ∀ i, child.WritesTo i → s.contents i = child.wrote → contents i = child'.wrote) :
    Clean id t { setChild s pid child' with contents } := by
  have hpid := h.children pid child hchild hown hactive
  rcases h.settled.output hpid with ⟨started, i, houtput⟩
  obtain rfl : child = started := Option.some.inj (hchild.symm.trans houtput.started)
  have houtput' : Output id t { Processes.setChild s pid child' with contents } pid child' i :=
    ⟨houtput.name, Function.update_self _ _ _, hthread.trans hown, hwrites i houtput.writes,
      hcontents i houtput.writes houtput.contents⟩
  refine ⟨h.reports, h.descriptors, fun pid' other hother hthread' hactive' => ?_,
    .of_output hpid houtput'⟩
  by_cases heq : pid' = pid
  · rw [heq]
    exact hpid
  · exact h.children pid' other (by simpa [Processes.setChild, heq] using hother) hthread' hactive'

/-- Programs write to their standard output, and `fork` and `waitpid` do not fail in `t`. -/
def Permitted (t : T) (_ : State T) : Event T → Prop
  | .fork u succeeds | .waitpid u succeeds => succeeds = false → u ≠ t
  | .write _ fd _ => fd = STDOUT_FILENO
  | _ => True

instance (t : T) (s : State T) : (event : Event T) → Decidable (Permitted t s event)
  | .fork _ _ | .waitpid _ _ => inferInstanceAs (Decidable (_ = _ → _ ≠ _))
  | .write _ _ _ => inferInstanceAs (Decidable (_ = _))
  | .openShared _ _ | .close _ | .getFileSize _ | .read _ | .deleteFile _ | .dup2 _
  | .closeInChild _ | .execve _ _ | .exit _ | .openSocket _ | .closeSocket _ => isTrue trivial

omit [DecidableEq T] in
theorem Output.wrote {pid : ℕ} {child : Child T} {i : Inode} (h : Output id t s pid child i) :
    wrote s pid = child.wrote := by
  rw [Processes.wrote, h.started]
  rfl

theorem Clean.setThread (h : Clean id t s) (howned : Owned id s) (u : T) {phase : Phase}
    (hown : u = t → Clean id t (setThread s t phase)) : Clean id t (setThread s u phase) := by
  by_cases hut : u = t
  · rw [hut]
    exact hown hut
  · exact h.frame howned (frame_setThread u phase) (setThread_of_ne s phase hut)

theorem Clean.deleteFile (h : Clean id t s) {pid : ℕ} {cgiResult : Bytes}
    (hloaded : s.threads t = .loaded pid cgiResult) :
    Clean id t (Processes.setThread { s with
      names := Function.update s.names (sharedFileName (id t)) none
      reports := s.reports ++ [⟨t, Processes.wrote s pid, cgiResult⟩] } t .idle) := by
  rcases h.settledAt hloaded with ⟨child, i, houtput, -, rfl⟩
  refine ⟨fun report hmem hthread => ?_, fun fd j hfile hcreator => ?_,
    fun pid' other hother hthread hactive => ?_, ?_⟩
  · rcases List.mem_append.mp hmem with hmem | hmem
    · exact h.reports report hmem hthread
    · rw [List.mem_singleton.mp hmem]
      exact houtput.wrote.symm
  · have hfd := h.descriptors fd j hfile hcreator
    rw [hloaded] at hfd
    cases hfd
  · exact absurd (h.exited (by rw [hloaded]; rfl) pid' other hother hthread) hactive
  · rw [setThread_self]
    exact Function.update_self _ _ _

theorem frame_openShared (howned : Owned id s) (hid : Function.Injective id) {u : T} (hut : u ≠ t)
    {fd : ℕ} (hfree : s.descriptors fd = none) :
    Frame id t s (openShared s u (sharedFileName (id u)) fd) := by
  rcases howned.create hid u with ⟨-, hcreator⟩
  have hold : (create s u (sharedFileName (id u))).2.descriptors fd = none := by
    rw [create_descriptors, hfree]
  have hnew : ∀ i, some (.file (create s u (sharedFileName (id u))).1) = some (Object.file i) →
      (create s u (sharedFileName (id u))).2.creator i ≠ some t := by
    rintro i heq
    obtain rfl : (create s u (sharedFileName (id u))).1 = i := by simpa using heq
    simpa [hcreator] using hut
  have hset : Frame id t (create s u (sharedFileName (id u))).2 _ :=
    frame_setDescriptor fd _ (fun i hi => by simp [hold] at hi) hnew
  exact ((frame_create howned hid hut).trans hset).trans (frame_setThread u _)

theorem frame_fork (howned : Owned id s) {u : T} (hut : u ≠ t) (fd : ℕ) :
    Frame id t s (fork s u fd) where
  name := rfl
  creator _ := Iff.rfl
  contents _ _ := rfl
  descriptors _ _ _ := Iff.rfl
  children pid child hthread := by
    by_cases heq : pid = s.nextPid
    · subst heq
      have hnone := howned.pids s.nextPid le_rfl
      refine iff_of_false (fun h => ?_) (by simp [hnone])
      obtain rfl : (⟨u, .forked fd, s.descriptors, []⟩ : Child T) = child := by
        simpa [Processes.fork, Processes.setThread] using h
      exact hut hthread
    · simp [Processes.fork, Processes.setThread, heq]
  reports _ hmem _ := hmem

theorem Clean.write (h : Clean id t s) (howned : Owned id s) {pid : ℕ} {child : Child T}
    (hchild : s.children pid = some child)
    (hphase : child.phase = .executing ∨ child.phase = .exiting) (bytes : Bytes) :
    Clean id t (write s pid child STDOUT_FILENO bytes) := by
  rcases howned.children pid child hchild with ⟨i, hwrites, hcreator⟩
  have houtput : ∀ {j : Inode}, child.WritesTo j ↔
      child.descriptors STDOUT_FILENO = some (.file j) := by
    intro j
    rcases hphase with hphase | hphase <;> rw [Child.WritesTo, hphase]
  have hactive : child.phase ≠ .exited := by
    rcases hphase with hphase | hphase <;> simp [hphase]
  simp only [Processes.write, houtput.mp hwrites, if_true]
  by_cases hown : child.thread = t
  · refine h.setChild _ hchild rfl hactive hown (fun j hj => hj) fun j hj hcontents => ?_
    obtain rfl : i = j := by simpa [houtput.mp hwrites] using houtput.mp hj
    simp [hcontents, Processes.setChild]
  · have hset : Frame id t s _ := frame_setChild hchild hown
      { child with wrote := child.wrote ++ bytes } rfl
    refine h.frame howned (hset.trans (frame_setContents ?_ _)) rfl
    rw [show (Processes.setChild s pid _).creator = s.creator from rfl, hcreator]
    simpa using hown

theorem Clean.step {event : Event T} (h : Clean id t s) (howned : Owned id s)
    (hid : Function.Injective id) (hpermitted : Permitted t s event)
    (hstep : Step id s event s') : Clean id t s' := by
  cases hstep with
  | unopened u hidle => exact h
  | openShared u hidle hfree =>
      by_cases hut : u = t
      · subst hut
        exact h.openShared howned hidle _
      · refine h.frame howned (frame_openShared howned hid hut hfree) ?_
        exact (setThread_of_ne _ _ hut).trans (congrFun (create_threads s u _) t)
  | fork u hopened =>
      by_cases hut : u = t
      · subst hut
        exact h.fork howned hopened
      · exact h.frame howned (frame_fork howned hut _) (setThread_of_ne _ _ hut)
  | forkFails u hopened =>
      have hut : u ≠ t := hpermitted rfl
      exact h.frame howned (frame_setThread u _) (setThread_of_ne s _ hut)
  | @close u fd pid hforked =>
      by_cases hut : u = t
      · subst hut
        exact h.close hforked
      · rcases howned.opened u fd (by rw [hforked]; rfl) with ⟨i, hi, hcreator⟩
        have hother : ∀ j, s.descriptors fd = some (.file j) → s.creator j ≠ some t := by
          intro j hj
          obtain rfl : i = j := by simpa [hi] using hj
          simpa [hcreator] using hut
        have hset : Frame id t s _ := frame_setDescriptor fd none hother nofun
        exact h.frame howned (hset.trans (frame_setThread u _)) (setThread_of_ne _ _ hut)
  | harvest u hwaiting hexited =>
      refine h.setThread howned u fun hut => ?_
      subst hut
      rcases h.settled.output (by rw [hwaiting]; rfl) with ⟨child, i, houtput⟩
      have hphase : child.phase = .exited := by
        simpa [hasExited, houtput.started] using hexited
      refine h.advance howned (by rw [hwaiting]; rfl) (fun pid other hother hown => ?_)
        ⟨child, i, houtput, hphase⟩
      by_contra hactive
      have hpid := h.children pid other hother hown hactive
      rw [hwaiting] at hpid
      obtain rfl : child = other := by
        simpa [← Option.some.inj hpid, houtput.started] using hother
      exact hactive hphase
  | waitFails u hwaiting =>
      have hut : u ≠ t := hpermitted rfl
      exact h.frame howned (frame_setThread u _) (setThread_of_ne s _ hut)
  | getFileSize u hharvested hname =>
      refine h.setThread howned u fun hut => ?_
      subst hut
      rcases h.settledAt hharvested with ⟨child, i, houtput, hphase⟩
      obtain rfl := Option.some.inj (houtput.name.symm.trans hname)
      exact h.advance howned (by rw [hharvested]; rfl) (h.exited (by rw [hharvested]; rfl))
        ⟨child, i, houtput, hphase, congrArg List.length houtput.contents⟩
  | sizeFails u hharvested hname =>
      refine h.setThread howned u fun hut => ?_
      subst hut
      rcases h.settledAt hharvested with ⟨child, i, houtput, -⟩
      cases houtput.name.symm.trans hname
  | read u hloading hname =>
      refine h.setThread howned u fun hut => ?_
      subst hut
      rcases h.settledAt hloading with ⟨child, i, houtput, hphase, rfl⟩
      obtain rfl := Option.some.inj (houtput.name.symm.trans hname)
      refine h.advance howned (by rw [hloading]; rfl) (h.exited (by rw [hloading]; rfl))
        ⟨child, i, houtput, hphase, ?_⟩
      rw [houtput.contents, List.take_length]
  | readFails u hloading hname =>
      refine h.setThread howned u fun hut => ?_
      subst hut
      rcases h.settledAt hloading with ⟨child, i, houtput, -⟩
      cases houtput.name.symm.trans hname
  | deleteFile u hloaded =>
      by_cases hut : u = t
      · subst hut
        exact h.deleteFile hloaded
      · exact h.frame howned
          ((frame_deleteFile hid hut (wrote s _, _)).trans (frame_setThread u _))
          (setThread_of_ne _ _ hut)
  | @child event pid child child' hchild hstep =>
      rcases hstep.same with ⟨hthread, hwrote, hactive⟩
      by_cases hown : child.thread = t
      · exact h.setChild s.contents hchild hthread hactive hown
          (fun i hi => hstep.writesTo hi) fun i hi hcontents => hcontents.trans hwrote.symm
      · exact h.frame howned (frame_setChild hchild hown child' hthread) rfl
  | write pid hchild hphase =>
      obtain rfl := hpermitted
      exact h.write howned hchild hphase _
  | openSocket hfree =>
      exact h.frame howned (frame_setDescriptor _ _ (fun i hi => by simp [hfree] at hi) nofun) rfl
  | closeSocket hsocket =>
      exact h.frame howned (frame_setDescriptor _ _ (fun i hi => by simp [hsocket] at hi) nofun) rfl

end Steps

/-! ## Runs -/

/-- All runs of the thread have returned what their child has written. When none is going on,
their file is gone, their descriptors are closed, and their children have exited. -/
structure Undisturbed (id : T → Bytes) (t : T) (s : State T) : Prop where
  results : ∀ report ∈ s.reports, report.thread = t → report.result = report.wrote
  survives : s.threads t ≠ .failed
  file : s.threads t = .idle → s.names (sharedFileName (id t)) = none
  descriptors : s.threads t = .idle → ∀ fd i, s.descriptors fd = some (.file i) →
    s.creator i ≠ some t
  children : s.threads t = .idle → ∀ pid child, s.children pid = some child →
    child.thread = t → child.phase = .exited

omit [DecidableEq T] in
theorem Clean.undisturbed {id : T → Bytes} {t : T} {s : State T} (h : Clean id t s) :
    Undisturbed id t s where
  results := h.reports
  survives hfailed := h.settledAt hfailed
  file hidle := h.settledAt hidle
  descriptors hidle fd i hfile hcreator := by
    have hfd := h.descriptors fd i hfile hcreator
    rw [hidle] at hfd
    cases hfd
  children hidle := h.exited (by rw [hidle]; rfl)

/-- The runs of a thread are undisturbed, as long as all programs write to their standard output
only and the thread's own calls of `fork` and `waitpid` succeed. -/
theorem undisturbed_of_permitted {id : T → Bytes} (hid : Function.Injective id) (t : T)
    {events : List (Event T)} {s : State T}
    (hpermitted : Run.Along (next id) (Permitted t) (initial T) events)
    (hrun : Run.run (next id) (initial T) events = some s) : Undisturbed id t s := by
  have hinv : Owned id s ∧ Clean id t s := by
    refine Run.invariant (I := fun s => Owned id s ∧ Clean id t s)
      (fun s event s' hs hevent hnext => ?_) ⟨owned_initial id, clean_initial id t⟩ hpermitted hrun
    have hstep := Step.of_next hnext
    exact ⟨hs.1.step hid hstep, hs.2.step hs.1 hid hevent hstep⟩
  exact hinv.2.undisturbed

def threadName (t : Bool) : Bytes :=
  if t then ascii "1" else ascii "2"

/-- The second thread opens its file and starts its program while the first one has its own file
open, and the two programs write in turn. `fd` is where the second one writes. -/
def overlapping (fd : ℕ) : List (Event Bool) :=
  [.openShared true (some 3), .openShared false (some 4), .fork true true, .fork false true,
    .close true, .close false, .dup2 1, .dup2 2, .closeInChild 1, .closeInChild 2,
    .execve 1 true, .execve 2 true, .write 1 1 (ascii "a"), .write 2 fd (ascii "b"),
    .write 1 1 (ascii "c"), .exit 1, .exit 2, .waitpid true true, .getFileSize true, .read true,
    .deleteFile true]

theorem undisturbed_of_permitted_overlapping :
    ∃ s, Run.run (next threadName) (initial Bool) (overlapping 1) = some s ∧
      s.reports = [⟨true, ascii "ac", ascii "ac"⟩] ∧ Undisturbed threadName true s := by
  have hid : Function.Injective threadName := by
    unfold Function.Injective
    decide
  have hreports : (Run.run (next threadName) (initial Bool) (overlapping 1)).map State.reports =
      some [⟨true, ascii "ac", ascii "ac"⟩] := by decide
  rcases Option.map_eq_some_iff.mp hreports with ⟨s, hrun, hs⟩
  exact ⟨s, hrun, hs, undisturbed_of_permitted hid true (by decide) hrun⟩

/-- The second child has inherited the descriptor of the first thread's file. -/
example : (Run.run (next threadName) (initial Bool) (overlapping 3)).map State.reports =
    some [⟨true, ascii "ac", ascii "abc"⟩] := by
  decide

end FalconLink.Http.Processes
