import FalconLink.Verification.Reactors.Invariant
import Mathlib.Data.List.Nodup

/-! # Adding and polling connections -/

namespace FalconLink.Reactors

open Descriptors

variable {R : Type}

/-! ## Accepting -/

theorem update_some_iff {α β : Type} [DecidableEq α] {f : α → Option β} {a x : α} {b y : β} :
    Function.update f a (some b) x = some y ↔ (x = a ∧ y = b) ∨ (x ≠ a ∧ f x = some y) := by
  by_cases h : x = a
  · subst h
    simp [eq_comm]
  · simp [h]

theorem update_none_iff {α β : Type} [DecidableEq α] {f : α → Option β} {a x : α} {y : β} :
    Function.update f a none x = some y ↔ x ≠ a ∧ f x = some y := by
  by_cases h : x = a
  · subst h
    simp
  · simp [h]

theorem Inv.accept {s t : State R} (hs : Inv s) (hidle : s.acceptor.adds = none) {acceptFd : Fd} {looper : R}
    (h : accept s acceptFd looper = some t) : Inv t := by
  rw [Reactors.accept] at h
  split at h
  · rename_i hunused
    obtain rfl := Option.some.inj h
    have hfd : ∀ d ∈ s.table, d.fd ≠ acceptFd := by
      intro d hd
      simpa using List.find?_eq_none.mp hunused d hd
    have hold : ∀ conn c, s.conns conn = some c → conn ≠ s.freshConn :=
      fun conn c hconn => Nat.ne_of_lt (hs.older conn c hconn)
    have hother : ∀ conn c, s.conns conn = some c → c.fd ≠ acceptFd := by
      intro conn c hconn heq
      rcases hs.hasFd conn c hconn with ⟨d, hd, hdfd⟩
      exact hfd d hd (hdfd.trans heq)
    have hmore : ∀ conn c, s.conns conn = some c →
        Function.update s.conns s.freshConn (some ⟨acceptFd, looper⟩) conn = some c :=
      fun conn c hconn => update_some_iff.mpr (Or.inr ⟨hold conn c hconn, hconn⟩)
    constructor
    · exact fun r => (hs.loops r).mono hmore (List.subset_cons_self _ _)
    · exact hs.table.cons hfd false
    · intro conn c hconn
      rcases update_some_iff.mp hconn with ⟨-, rfl⟩ | ⟨-, hconn⟩
      · exact ⟨_, List.mem_cons_self, rfl⟩
      · rcases hs.hasFd conn c hconn with ⟨d, hd, hdfd⟩
        exact ⟨d, List.mem_cons_of_mem _ hd, hdfd⟩
    · intro conn conn' c c' hconn hconn' heq
      rcases update_some_iff.mp hconn with ⟨rfl, rfl⟩ | ⟨-, hconn⟩
      · rcases update_some_iff.mp hconn' with ⟨rfl, -⟩ | ⟨-, hconn'⟩
        · rfl
        · exact absurd heq.symm (hother conn' c' hconn')
      · rcases update_some_iff.mp hconn' with ⟨rfl, rfl⟩ | ⟨-, hconn'⟩
        · exact absurd heq (hother conn c hconn)
        · exact hs.ownFd conn conn' c c' hconn hconn' heq
    · intro conn c hconn
      rcases update_some_iff.mp hconn with ⟨rfl, -⟩ | ⟨-, hconn⟩
      · exact Nat.lt_succ_self _
      · exact Nat.lt_succ_of_lt (hs.older conn c hconn)
    · intro conn c hconn
      rcases update_some_iff.mp hconn with ⟨rfl, rfl⟩ | ⟨-, hconn⟩
      · exact Or.inr rfl
      · rcases hs.owned conn c hconn with hmap | hadds
        · exact Or.inl hmap
        · rw [hidle] at hadds
          cases hadds
    · intro conn r hadds
      obtain ⟨rfl, rfl⟩ := Prod.mk.inj (Option.some.inj hadds)
      refine ⟨acceptFd, update_some_iff.mpr (Or.inl ⟨rfl, rfl⟩), fun hmap => ?_⟩
      exact hold _ _ ((hs.loops looper).mapped acceptFd _ hmap) rfl
    · exact hs.lost
  · cases h

variable [DecidableEq R]

/-! ## Adding -/

section

variable {s t : State R}

/-- A loop is replaced by one with the same map. -/
theorem Inv.setLoop (hs : Inv s) {r : R} {loop : EventLoop R}
    (hloop : LoopInv s.conns s.table r loop)
    (hsame : loop.connections = (s.loops r).connections) : Inv (setLoop s r loop) := by
  have hmaps : ∀ r', ((Reactors.setLoop s r loop).loops r').connections =
      (s.loops r').connections := by
    intro r'
    by_cases heq : r' = r
    · subst heq
      rw [setLoop_self, hsame]
    · rw [setLoop_of_ne s loop heq]
  constructor
  · intro r'
    by_cases heq : r' = r
    · subst heq
      rw [setLoop_self]
      exact hloop
    · rw [setLoop_of_ne s loop heq]
      exact hs.loops r'
  · exact hs.table
  · exact hs.hasFd
  · exact hs.ownFd
  · exact hs.older
  · intro conn c hconn
    rw [hmaps]
    exact hs.owned conn c hconn
  · intro conn r' hadds
    rw [hmaps]
    exact hs.added conn r' hadds
  · exact hs.lost

theorem Inv.pollerAddConnection (hs : Inv s) {conn : Ptr} {looper : R} {succeeds : Bool}
    (hadds : s.acceptor.adds = some (conn, looper))
    (h : pollerAddConnection s looper conn succeeds = some t) : Inv t := by
  rcases hs.added conn looper hadds with ⟨fd, hconn, -⟩
  simp only [Reactors.pollerAddConnection, hconn, Option.bind_eq_bind, Option.bind_some] at h
  cases hlookup : s.table.lookup fd with
  | none =>
      rw [hlookup] at h
      exact Option.some.inj h ▸ hs
  | some d =>
      rw [hlookup] at h
      cases succeeds with
      | false => exact Option.some.inj h ▸ hs
      | true =>
          obtain rfl := Option.some.inj h
          have hloop := hs.loops looper
          have hmore : ∀ q, q ∈ (s.loops looper).poller.map Registration.data →
              q ∈ (epollCtlAdd (s.loops looper).poller ⟨fd, d.description, conn⟩).map
                Registration.data :=
            fun q hq => List.map_subset _ (epollCtlAdd_subset _ _) hq
          refine hs.setLoop ⟨fun reg hreg => ?_, hloop.mapped, fun q hq => hmore q (hloop.ready q hq),
            hloop.readyOnce, fun q fd' huses => ?_, hloop.home⟩ rfl
          · rcases mem_of_mem_epollCtlAdd hreg with rfl | hreg
            · exact ⟨hconn, d, (Table.mem_of_lookup hlookup).1, (Table.mem_of_lookup hlookup).2, rfl⟩
            · exact hloop.registered reg hreg
          · rcases hloop.used q fd' huses with ⟨hq, hin, hnot⟩
            exact ⟨hq, hmore q hin, hnot⟩

/-- The key of a new connection is not in the map, so the connection is not lost. -/
theorem Inv.insertConnection (hs : Inv s) {conn : Ptr} {looper : R} {acceptor : Acceptor R}
    (hadds : s.acceptor.adds = some (conn, looper)) (hdone : acceptor.adds = none)
    (h : insertConnection (setAcceptor s acceptor) looper conn = some t) : Inv t := by
  rcases hs.added conn looper hadds with ⟨fd, hconn, hnot⟩
  have hfree : (s.loops looper).connections fd = none := by
    cases hmap : (s.loops looper).connections fd with
    | none => rfl
    | some other =>
        have hother := (hs.loops looper).mapped fd other hmap
        rw [hs.ownFd other conn _ _ hother hconn rfl] at hmap
        exact absurd hmap hnot
  simp only [Reactors.insertConnection, setAcceptor, hconn, hfree, Option.bind_eq_bind,
    Option.bind_some, Option.some.injEq] at h
  subst h
  have hloop := hs.loops looper
  constructor
  · intro r
    by_cases heq : r = looper
    · subst heq
      rw [setLoop_self]
      refine ⟨hloop.registered, fun fd' q hmap => ?_, hloop.ready, hloop.readyOnce, hloop.used,
        hloop.home⟩
      rcases update_some_iff.mp hmap with ⟨rfl, rfl⟩ | ⟨-, hmap⟩
      · exact hconn
      · exact hloop.mapped fd' q hmap
    · rw [setLoop_of_ne _ _ heq]
      exact hs.loops r
  · exact hs.table
  · exact hs.hasFd
  · exact hs.ownFd
  · exact hs.older
  · intro q c hq
    refine Or.inl ?_
    by_cases heq : c.ownerLooper = looper
    · rw [heq, setLoop_self]
      refine update_some_iff.mpr ?_
      by_cases hfd : c.fd = fd
      · exact Or.inl ⟨hfd, hs.ownFd q conn c _ hq hconn hfd⟩
      · rcases hs.owned q c hq with hmap | hadds'
        · exact Or.inr ⟨hfd, heq ▸ hmap⟩
        · rw [hadds] at hadds'
          obtain ⟨rfl, -⟩ := Prod.mk.inj (Option.some.inj hadds')
          exact absurd (congrArg Connection.fd (Option.some.inj (hq.symm.trans hconn))) hfd
    · rw [setLoop_of_ne _ _ heq]
      rcases hs.owned q c hq with hmap | hadds'
      · exact hmap
      · rw [hadds] at hadds'
        exact absurd (Prod.mk.inj (Option.some.inj hadds')).2.symm heq
  · intro q r hadds'
    rw [show (Reactors.setLoop _ looper _).acceptor.adds = acceptor.adds from rfl, hdone] at hadds'
    cases hadds'
  · exact hs.lost

/-! ## Polling and invoking -/

theorem Inv.poll (hs : Inv s) {r : R} {ready : List (Registration Ptr)} (hnodup : ready.Nodup)
    (hready : ∀ reg ∈ ready, reg ∈ (s.loops r).poller)
    (hidle : (s.loops r).callback = .idle) :
    Inv (Reactors.setLoop s r { s.loops r with readyConns := ready.map Registration.data }) := by
  have hloop := hs.loops r
  refine hs.setLoop ⟨hloop.registered, hloop.mapped, fun conn hconn => ?_, ?_, fun conn fd huses => ?_,
    hloop.home⟩ rfl
  · exact List.map_subset _ hready hconn
  · exact List.Nodup.map_on (fun reg hreg reg' hreg' heq =>
      hloop.registration_inj hs.table (hready reg hreg) (hready reg' hreg') heq) hnodup
  · rw [hidle] at huses
    cases huses

theorem Inv.invoke (hs : Inv s) {r : R} {conn : Ptr} {readyConns : List Ptr}
    {c : Connection R} (hready : (s.loops r).readyConns = conn :: readyConns)
    (hconn : s.conns conn = some c) :
    Inv (Reactors.setLoop s r { s.loops r with
      readyConns, callback := .handling conn c.fd }) := by
  have hloop := hs.loops r
  have honce := hloop.readyOnce
  have hin := hloop.ready
  rw [hready] at honce hin
  refine hs.setLoop ⟨hloop.registered, hloop.mapped, fun q hq => hin q (List.mem_cons_of_mem conn hq),
    (List.nodup_cons.mp honce).2, fun q fd huses => ?_, fun looper hlooper => ?_⟩ rfl
  · obtain ⟨rfl, rfl⟩ := Prod.mk.inj (Option.some.inj huses)
    rcases List.mem_map.mp (hin conn List.mem_cons_self) with ⟨reg, hreg, rfl⟩
    have hreg' := (hloop.registered reg hreg).1
    rw [hconn] at hreg'
    obtain rfl := Option.some.inj hreg'
    exact ⟨hconn, List.mem_map_of_mem hreg, (List.nodup_cons.mp honce).1⟩
  · cases hlooper

end

end FalconLink.Reactors
