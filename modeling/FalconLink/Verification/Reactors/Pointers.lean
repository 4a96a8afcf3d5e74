import FalconLink.Verification.Reactors.Erasing

/-! # Pointers to connections over whole runs -/

namespace FalconLink.Reactors

open Descriptors

variable {R : Type} [DecidableEq R]

/-! ## Steps -/

section

variable {s t : State R}

/-- A callback is told its loop by its connection. -/
theorem Inv.still_callDelete (hs : Inv s) {r : R} {conn : Ptr} {fromFd : Fd} {c : Connection R}
    (hcallback : (s.loops r).callback = .handling conn fromFd) (hconn : s.conns conn = some c) :
    Still s (setCallback s r (.deleting conn fromFd c.ownerLooper)) := by
  refine still_setCallback (fun use huse => ?_) (fun looper hlooper => ?_)
  · rw [hcallback]
    exact huse
  · have hused := ((hs.loops r).used conn fromFd (by rw [hcallback]; rfl)).1
    rw [hconn] at hused
    obtain rfl := Option.some.inj hlooper
    exact Or.inl (congrArg Connection.ownerLooper (Option.some.inj hused))

theorem Inv.erase (hs : Inv s) {r looper : R} {conn : Ptr} {fromFd : Fd}
    (hcallback : (s.loops r).callback = .erasing conn fromFd looper)
    (hclean : (((s.loops looper).connections fromFd).isSome && heldByChild s fromFd) = false) :
    Inv (Reactors.eraseConnection (setCallback s r (.unlocking looper)) looper fromFd) := by
  rcases hs.erased hcallback with ⟨rfl, hconn, -, hnot, hother⟩
  have hstill : Still s (setCallback s looper (.unlocking looper)) :=
    still_setCallback (fun _ h => by cases h) (fun _ h => Or.inl (Option.some.inj h).symm)
  have hloop : (setCallback s looper (.unlocking looper)).loops looper =
      { s.loops looper with callback := .unlocking looper } := setLoop_self s looper _
  cases hmap : (s.loops looper).connections fromFd with
  | none =>
      rw [Reactors.eraseConnection, hloop, hmap]
      exact hs.still hstill
  | some other =>
      obtain rfl := hother other hmap
      refine (hs.still hstill).eraseConnection (by rw [hloop]; exact hmap) (by rw [hloop]; exact hnot)
        (by rw [hloop]; rfl) ?_
      rwa [hmap, Option.isSome_some, Bool.true_and] at hclean

/-- What an event does, and when it can happen. -/
inductive Step (s : State R) : Event R → State R → Prop where
  | accept (acceptFd looper) {t} (hidle : s.acceptor = .idle)
      (h : accept s acceptFd looper = some t) : Step s (.accept acceptFd looper) t
  | lockAdd {conn looper t} (hlocking : s.acceptor = .locking conn looper)
      (h : lock (setAcceptor s (.registering conn looper)) looper .main = some t) :
      Step s .lockAdd t
  | register (succeeds) {conn looper t} (hregistering : s.acceptor = .registering conn looper)
      (h : pollerAddConnection (setAcceptor s (.inserting conn looper)) looper conn succeeds =
        some t) : Step s (.register succeeds) t
  | insert {conn looper t} (hinserting : s.acceptor = .inserting conn looper)
      (h : insertConnection (setAcceptor s (.unlocking looper)) looper conn = some t) :
      Step s .insert t
  | unlockAdd {looper} (hunlocking : s.acceptor = .unlocking looper) :
      Step s .unlockAdd (unlock (setAcceptor s .idle) looper)
  | poll (r ready) (hidle : (s.loops r).callback = .idle) (hnodup : ready.Nodup)
      (hready : ∀ reg ∈ ready, reg ∈ (s.loops r).poller) :
      Step s (.poll r ready)
        (setLoop s r { s.loops r with readyConns := ready.map Registration.data })
  | invoke (r) {conn readyConns c} (hready : (s.loops r).readyConns = conn :: readyConns)
      (hconn : s.conns conn = some c) :
      Step s (.invoke r)
        (setLoop s r { s.loops r with readyConns, callback := .handling conn c.fd })
  | fork (r pid) {conn fromFd} (hcallback : (s.loops r).callback = .handling conn fromFd) :
      Step s (.fork r pid) (setCallback { s with children := ⟨pid, s.table, false⟩ :: s.children } r
        (.waiting conn fromFd pid))
  | wait (r) {conn fromFd pid} (hcallback : (s.loops r).callback = .waiting conn fromFd pid) :
      Step s (.wait r) (setCallback { s with
        children := s.children.filter fun child => child.pid ≠ pid } r (.handling conn fromFd))
  | waitFails (r) {conn fromFd pid} (hcallback : (s.loops r).callback = .waiting conn fromFd pid) :
      Step s (.waitFails r) (setCallback s r (.handling conn fromFd))
  | callDelete (r) {conn fromFd c} (hcallback : (s.loops r).callback = .handling conn fromFd)
      (hconn : s.conns conn = some c) :
      Step s (.callDelete r) (setCallback s r (.deleting conn fromFd c.ownerLooper))
  | lockDelete (r) {conn fromFd looper t}
      (hcallback : (s.loops r).callback = .deleting conn fromFd looper)
      (h : lock (setCallback s r (.erasing conn fromFd looper)) looper (.sub r) = some t) :
      Step s (.lockDelete r) t
  | erase (r) {conn fromFd looper}
      (hcallback : (s.loops r).callback = .erasing conn fromFd looper) :
      Step s (.erase r)
        (Reactors.eraseConnection (setCallback s r (.unlocking looper)) looper fromFd)
  | unlockDelete (r) {looper} (hcallback : (s.loops r).callback = .unlocking looper) :
      Step s (.unlockDelete r) (unlock (setCallback s r .idle) looper)
  | finish (r) {conn fromFd} (hcallback : (s.loops r).callback = .handling conn fromFd) :
      Step s (.finish r) (setCallback s r .idle)
  | exec (pid) {children} : Step s (.exec pid) (dropClosed { s with children })
  | exit (pid) {children} : Step s (.exit pid) (dropClosed { s with children })

theorem Step.of_next {event : Event R} (h : next s event = some t) : Step s event t := by
  cases event with
  | accept acceptFd looper =>
      simp only [next] at h
      split at h
      next hidle => exact .accept acceptFd looper hidle h
      next => cases h
  | lockAdd =>
      simp only [next] at h
      split at h
      next hlocking => exact .lockAdd hlocking h
      next => cases h
  | register succeeds =>
      simp only [next] at h
      split at h
      next hregistering => exact .register succeeds hregistering h
      next => cases h
  | insert =>
      simp only [next] at h
      split at h
      next hinserting => exact .insert hinserting h
      next => cases h
  | unlockAdd =>
      simp only [next] at h
      split at h
      next hunlocking => exact Option.some.inj h ▸ .unlockAdd hunlocking
      next => cases h
  | poll r ready =>
      simp only [next] at h
      split at h
      next hidle _ =>
        obtain ⟨⟨hnodup, hready⟩, rfl⟩ := Run.of_guard h
        exact .poll r ready hidle hnodup hready
      next => cases h
  | invoke r =>
      simp only [next] at h
      split at h
      next conn readyConns _ hready =>
        obtain ⟨c, hconn, rfl⟩ := Option.map_eq_some_iff.mp h
        exact .invoke r hready hconn
      next => cases h
  | fork r pid =>
      simp only [next] at h
      split at h
      next hcallback =>
        obtain ⟨-, h⟩ := Option.ite_none_left_eq_some.mp h
        exact Option.some.inj h ▸ .fork r pid hcallback
      next => cases h
  | wait r =>
      simp only [next] at h
      split at h
      next hcallback =>
        obtain ⟨-, rfl⟩ := Run.of_guard h
        exact .wait r hcallback
      next => cases h
  | waitFails r =>
      simp only [next] at h
      split at h
      next hcallback => exact Option.some.inj h ▸ .waitFails r hcallback
      next => cases h
  | callDelete r =>
      simp only [next] at h
      split at h
      next hcallback =>
        obtain ⟨c, hconn, rfl⟩ := Option.map_eq_some_iff.mp h
        exact .callDelete r hcallback hconn
      next => cases h
  | lockDelete r =>
      simp only [next] at h
      split at h
      next hcallback => exact .lockDelete r hcallback h
      next => cases h
  | erase r =>
      simp only [next] at h
      split at h
      next hcallback => exact Option.some.inj h ▸ .erase r hcallback
      next => cases h
  | unlockDelete r =>
      simp only [next] at h
      split at h
      next hcallback => exact Option.some.inj h ▸ .unlockDelete r hcallback
      next => cases h
  | finish r =>
      simp only [next] at h
      split at h
      next hcallback => exact Option.some.inj h ▸ .finish r hcallback
      next => cases h
  | exec pid => exact Option.some.inj h ▸ .exec pid
  | exit pid => exact Option.some.inj h ▸ .exit pid

theorem Inv.step {event : Event R} (hs : Inv s) (hclean : erasesHeld s event = false)
    (hstep : Step s event t) : Inv t := by
  cases hstep with
  | accept acceptFd looper hidle h => exact hs.accept (by rw [hidle]; rfl) h
  | lockAdd hlocking h =>
      exact hs.still ((still_setAcceptor (by rw [hlocking]; rfl)).trans (still_lock h))
  | register succeeds hregistering h =>
      exact (hs.still (still_setAcceptor (by rw [hregistering]; rfl))).pollerAddConnection rfl h
  | insert hinserting h => exact hs.insertConnection (by rw [hinserting]; rfl) rfl h
  | unlockAdd hunlocking =>
      exact hs.still ((still_setAcceptor (by rw [hunlocking]; rfl)).trans (still_unlock _ _))
  | poll r ready hidle hnodup hready => exact hs.poll hnodup hready hidle
  | invoke r hready hconn => exact hs.invoke hready hconn
  | fork r pid hcallback | wait r hcallback =>
      exact hs.still ((still_children s _).trans (still_advance hcallback rfl nofun))
  | waitFails r hcallback => exact hs.still (still_advance hcallback rfl nofun)
  | callDelete r hcallback hconn => exact hs.still (hs.still_callDelete hcallback hconn)
  | lockDelete r hcallback h =>
      refine hs.still (Still.trans (still_advance hcallback ?_ ?_) (still_lock h))
      · rfl
      · exact fun _ hlooper => hlooper
  | erase r hcallback =>
      simp only [erasesHeld, hcallback] at hclean
      exact hs.erase hcallback hclean
  | unlockDelete r hcallback =>
      exact hs.still ((still_idle s r).trans (still_unlock _ _))
  | finish r hcallback => exact hs.still (still_idle s r)
  | exec pid | exit pid => exact hs.still (hs.still_dropClosed _)

/-- The registration of a connection that is erased too early outlives it. -/
theorem Inv.not_held_of_safe (hs : Inv s) {r looper : R} {conn : Ptr} {fromFd : Fd}
    (hcallback : (s.loops r).callback = .erasing conn fromFd looper)
    (ht : Safe (Reactors.eraseConnection (setCallback s r (.unlocking looper)) looper fromFd)) :
    (((s.loops looper).connections fromFd).isSome && heldByChild s fromFd) = false := by
  rcases hs.erased hcallback with ⟨rfl, hconn, hin, -, hother⟩
  have hloop : (setCallback s looper (.unlocking looper)).loops looper =
      { s.loops looper with callback := .unlocking looper } := setLoop_self s looper _
  cases hmap : (s.loops looper).connections fromFd with
  | none => rfl
  | some other =>
      obtain rfl := hother other hmap
      have hmap' : ((setCallback s looper (.unlocking looper)).loops looper).connections fromFd =
          some other := by
        rw [hloop]
        exact hmap
      rw [Option.isSome_some, Bool.true_and, ← Bool.not_eq_true]
      intro hheld
      rcases List.mem_map.mp hin with ⟨reg, hreg, hdata⟩
      rcases (hs.loops looper).registered reg hreg with ⟨hregConn, d, hd, hfd, hdesc⟩
      rw [hdata, hconn] at hregConn
      obtain rfl := (Connection.mk.inj (Option.some.inj hregConn)).1
      rw [heldByChild, ← hfd, hs.table.lookup_eq hd] at hheld
      have hstale : Owned _ looper reg.data := ht.registered looper reg (by
        rw [loops_eraseConnection hmap' hconn, hloop]
        exact List.mem_filter.mpr ⟨hreg, Bool.or_eq_true_iff.mpr (Or.inr (hdesc ▸ hheld))⟩)
      apply hstale.1
      rw [conns_eraseConnection hmap' hconn, hdata]
      exact Function.update_self other none s.conns

theorem clean_of_safe {event : Event R} (hs : Inv s) (h : next s event = some t) (ht : Safe t) :
    erasesHeld s event = false := by
  cases Step.of_next h with
  | erase r hcallback =>
      simpa only [erasesHeld, hcallback] using hs.not_held_of_safe hcallback ht
  | _ => rfl

end

/-! ## Runs -/

/-- In every run of the server, each registration and each entry of a batch stays with a live
connection of its loop, and no connection is lost, exactly when no connection is erased while a
child process still holds its descriptor. -/
theorem safe_iff_none_held {events : List (Event R)} {s : State R}
    (hrun : Run.run next (initial R) events = some s) :
    Run.Always next Safe (initial R) events ↔
      Run.Along next (fun s event => erasesHeld s event = false) (initial R) events :=
  Run.always_iff (fun _ hs => hs.safe) (fun _ _ _ hs hclean h => Inv.step hs hclean (.of_next h))
    (fun _ _ _ hs h ht => clean_of_safe hs h ht) (inv_initial R) hrun

/-- The main reactor hands a client to a loop. -/
def addClient (acceptFd : Fd) (looper : Bool) : List (Event Bool) :=
  [.accept acceptFd looper, .lockAdd, .register true, .insert, .unlockAdd]

/-- A callback deletes its connection. -/
def delete (r : Bool) : List (Event Bool) :=
  [.callDelete r, .lockDelete r, .erase r, .unlockDelete r]

/-- Each of two loops has a client, and one of them runs a CGI program for its client. -/
def whileProgramRuns : List (Event Bool) :=
  addClient 7 false ++ addClient 8 true ++
    [.poll true [⟨8, 1, 1⟩], .invoke true, .fork true 100, .exec 100,
      .poll false [⟨7, 0, 0⟩], .invoke false]

theorem safe_iff_none_held_afterwards :
    Run.Always next Safe (initial Bool)
      (whileProgramRuns ++ [.exit 100] ++ delete false ++ [.wait true] ++ delete true) := by
  have hsome : (Run.run next (initial Bool)
    (whileProgramRuns ++ [.exit 100] ++ delete false ++ [.wait true] ++ delete true)).isSome := by
    decide
  exact (safe_iff_none_held (Option.some_get hsome).symm).mpr (by decide +kernel)

/-- A client is deleted by its loop while the program that the other loop runs still holds its
descriptor. The loop then polls a pointer to the destroyed connection. -/
theorem stale_pointer_polled :
    ∃ s, Run.run next (initial Bool) (whileProgramRuns ++ delete false ++
        [.poll false [⟨7, 0, 0⟩]]) = some s ∧
      (s.loops false).readyConns = [0] ∧ s.conns 0 = none ∧ ¬Safe s := by
  have hsome : (Run.run next (initial Bool) (whileProgramRuns ++ delete false ++
    [.poll false [⟨7, 0, 0⟩]])).isSome := by decide
  have hseen : (Run.run next (initial Bool) (whileProgramRuns ++ delete false ++
      [.poll false [⟨7, 0, 0⟩]])).map (fun s => ((s.loops false).readyConns, s.conns 0)) =
        some ([0], none) := by decide
  rw [← Option.some_get hsome, Option.map_some, Option.some.injEq, Prod.mk.injEq] at hseen
  rcases hseen with ⟨hready, hconn⟩
  refine ⟨_, (Option.some_get hsome).symm, hready, hconn, fun hsafe => ?_⟩
  exact (hsafe.ready false 0 (by rw [hready]; simp)).1 hconn

end FalconLink.Reactors
