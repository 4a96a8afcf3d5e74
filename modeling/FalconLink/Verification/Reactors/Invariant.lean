import FalconLink.Model.Reactors

/-! # What the reactors keep -/

namespace FalconLink.Reactors

open Descriptors

variable {R : Type}

/-- The connection that the main reactor is handing to a loop. -/
def Acceptor.adds : Acceptor R → Option (Ptr × R)
  | .locking conn looper => some (conn, looper)
  | .registering conn looper => some (conn, looper)
  | .inserting conn looper => some (conn, looper)
  | _ => none

/-- The connection is alive, and it is in the map of the loop or in the `addConnection` call that
inserts it there. -/
def Owned (s : State R) (r : R) (conn : Ptr) : Prop :=
  s.conns conn ≠ none ∧
    ((∃ fd, (s.loops r).connections fd = some conn) ∨ s.acceptor.adds = some (conn, r))

/-- No registration and no entry of a batch is stale, and no connection was lost. -/
structure Safe (s : State R) : Prop where
  registered : ∀ r, ∀ reg ∈ (s.loops r).poller, Owned s r reg.data
  ready : ∀ r, ∀ conn ∈ (s.loops r).readyConns, Owned s r conn
  lost : s.lost = []

/-- A child process holds the description that a descriptor of the server refers to. -/
def heldByChild (s : State R) (fd : Fd) : Bool :=
  match s.table.lookup fd with
  | some d => s.children.any fun child => child.table.refersTo d.description
  | none => false

/-- The step erases a connection that a child process still holds. -/
def erasesHeld (s : State R) : Event R → Bool
  | .erase r =>
      match (s.loops r).callback with
      | .erasing _ fromFd looper =>
          ((s.loops looper).connections fromFd).isSome && heldByChild s fromFd
      | _ => false
  | _ => false

/-! ## The invariant -/

/-- The connection that a callback is about, with its descriptor, until it is erased. -/
def Callback.uses : Callback R → Option (Ptr × Fd)
  | .handling conn fromFd => some (conn, fromFd)
  | .waiting conn fromFd _ => some (conn, fromFd)
  | .deleting conn fromFd _ => some (conn, fromFd)
  | .erasing conn fromFd _ => some (conn, fromFd)
  | _ => none

/-- The loop whose `deleteConnection` a callback is in. -/
def Callback.looper : Callback R → Option R
  | .deleting _ _ looper => some looper
  | .erasing _ _ looper => some looper
  | .unlocking looper => some looper
  | _ => none

/-- What holds of a loop, in terms of the live connections and the descriptors of the server. -/
structure LoopInv (conns : Ptr → Option (Connection R)) (table : Table) (r : R)
    (loop : EventLoop R) : Prop where
  registered : ∀ reg ∈ loop.poller, conns reg.data = some ⟨reg.fd, r⟩ ∧
    ∃ d ∈ table, d.fd = reg.fd ∧ d.description = reg.description
  mapped : ∀ fd conn, loop.connections fd = some conn → conns conn = some ⟨fd, r⟩
  ready : ∀ conn ∈ loop.readyConns, conn ∈ loop.poller.map Registration.data
  readyOnce : loop.readyConns.Nodup
  used : ∀ conn fd, loop.callback.uses = some (conn, fd) → conns conn = some ⟨fd, r⟩ ∧
    conn ∈ loop.poller.map Registration.data ∧ conn ∉ loop.readyConns
  home : ∀ looper, loop.callback.looper = some looper → looper = r

structure Inv (s : State R) : Prop where
  loops : ∀ r, LoopInv s.conns s.table r (s.loops r)
  table : s.table.Wf s.freshDescription
  hasFd : ∀ conn c, s.conns conn = some c → ∃ d ∈ s.table, d.fd = c.fd
  ownFd : ∀ conn conn' c c', s.conns conn = some c → s.conns conn' = some c' → c.fd = c'.fd →
    conn = conn'
  older : ∀ conn c, s.conns conn = some c → conn < s.freshConn
  owned : ∀ conn c, s.conns conn = some c →
    (s.loops c.ownerLooper).connections c.fd = some conn ∨
      s.acceptor.adds = some (conn, c.ownerLooper)
  added : ∀ conn r, s.acceptor.adds = some (conn, r) →
    ∃ fd, s.conns conn = some ⟨fd, r⟩ ∧ (s.loops r).connections fd ≠ some conn
  lost : s.lost = []

theorem inv_initial (R : Type) : Inv (initial R) where
  loops r := by
    constructor <;> simp [initial, Callback.uses, Callback.looper]
  table := Table.wf_nil
  hasFd _ _ h := by cases h
  ownFd _ _ _ _ h := by cases h
  older _ _ h := by cases h
  owned _ _ h := by cases h
  added _ _ h := by cases h
  lost := rfl

/-- No two connections have the same descriptor. -/
theorem Inv.fd_ne {s : State R} (h : Inv s) {fd : Fd} {conn q : Ptr} {r : R} {c : Connection R}
    (hconn : s.conns conn = some ⟨fd, r⟩) (hq : s.conns q = some c) (hne : q ≠ conn) : c.fd ≠ fd :=
  fun hfd => hne (h.ownFd q conn c _ hq hconn hfd)

theorem Inv.owned_of {s : State R} (h : Inv s) {conn : Ptr} {fd : Fd} {r : R}
    (hconn : s.conns conn = some ⟨fd, r⟩) : Owned s r conn := by
  refine ⟨by rw [hconn]; simp, ?_⟩
  rcases h.owned conn _ hconn with hmap | hadds
  · exact Or.inl ⟨fd, hmap⟩
  · exact Or.inr hadds

theorem Inv.safe {s : State R} (h : Inv s) : Safe s where
  registered r reg hreg := h.owned_of ((h.loops r).registered reg hreg).1
  ready r conn hconn := by
    rcases List.mem_map.mp ((h.loops r).ready conn hconn) with ⟨reg, hreg, rfl⟩
    exact h.owned_of ((h.loops r).registered reg hreg).1
  lost := h.lost

/-! ## Loops -/

/-- A loop whose thread has moved on within a callback. -/
structure Moved (r : R) (loop loop' : EventLoop R) : Prop where
  poller : loop'.poller = loop.poller
  connections : loop'.connections = loop.connections
  readyConns : loop'.readyConns = loop.readyConns
  uses : ∀ use, loop'.callback.uses = some use → loop.callback.uses = some use
  home : ∀ looper, loop'.callback.looper = some looper →
    looper = r ∨ loop.callback.looper = some looper

theorem moved_refl (r : R) (loop : EventLoop R) : Moved r loop loop :=
  ⟨rfl, rfl, rfl, fun _ h => h, fun _ h => Or.inr h⟩

theorem Moved.trans {r : R} {loop loop' loop'' : EventLoop R} (h : Moved r loop loop')
    (h' : Moved r loop' loop'') : Moved r loop loop'' where
  poller := h'.poller.trans h.poller
  connections := h'.connections.trans h.connections
  readyConns := h'.readyConns.trans h.readyConns
  uses use huse := h.uses use (h'.uses use huse)
  home looper hlooper := by
    rcases h'.home looper hlooper with heq | hold
    · exact Or.inl heq
    · exact h.home looper hold

section

variable {conns conns' : Ptr → Option (Connection R)} {table table' : Table} {r : R}
  {loop loop' : EventLoop R}

theorem LoopInv.moved (h : LoopInv conns table r loop) (hmoved : Moved r loop loop') :
    LoopInv conns table r loop' where
  registered := hmoved.poller ▸ h.registered
  mapped := hmoved.connections ▸ h.mapped
  ready := by
    rw [hmoved.poller, hmoved.readyConns]
    exact h.ready
  readyOnce := hmoved.readyConns ▸ h.readyOnce
  used conn fd huses := by
    rw [hmoved.poller, hmoved.readyConns]
    exact h.used conn fd (hmoved.uses _ huses)
  home looper hlooper := by
    rcases hmoved.home looper hlooper with heq | hold
    · exact heq
    · exact h.home looper hold

/-- Live connections and descriptors of the server can become more. -/
theorem LoopInv.mono (h : LoopInv conns table r loop)
    (hconns : ∀ conn c, conns conn = some c → conns' conn = some c) (htable : table ⊆ table') :
    LoopInv conns' table' r loop where
  registered reg hreg := by
    rcases h.registered reg hreg with ⟨hconn, d, hd, hfd⟩
    exact ⟨hconns _ _ hconn, d, htable hd, hfd⟩
  mapped fd conn hmap := hconns _ _ (h.mapped fd conn hmap)
  ready := h.ready
  readyOnce := h.readyOnce
  used conn fd huses := by
    rcases h.used conn fd huses with ⟨hconn, hrest⟩
    exact ⟨hconns _ _ hconn, hrest⟩
  home := h.home

/-- A registration is determined by its connection. -/
theorem LoopInv.registration_inj (h : LoopInv conns table r loop) {fresh : Description}
    (htable : table.Wf fresh) {reg reg' : Registration Ptr} (hreg : reg ∈ loop.poller)
    (hreg' : reg' ∈ loop.poller) (heq : reg.data = reg'.data) : reg = reg' := by
  rcases h.registered reg hreg with ⟨hconn, d, hd, hfd, hdesc⟩
  rcases h.registered reg' hreg' with ⟨hconn', d', hd', hfd', hdesc'⟩
  have hsame : reg.fd = reg'.fd := by
    rw [heq, hconn'] at hconn
    exact (Connection.mk.inj (Option.some.inj hconn)).1.symm
  have htwice := htable.fds d hd d' hd' (by rw [hfd, hfd', hsame])
  cases reg
  cases reg'
  simp_all

end

/-! ## Steps that leave connections, maps and registrations alone -/

structure Still (s t : State R) : Prop where
  conns : t.conns = s.conns
  freshConn : t.freshConn = s.freshConn
  table : t.table = s.table
  freshDescription : t.freshDescription = s.freshDescription
  lost : t.lost = s.lost
  adds : t.acceptor.adds = s.acceptor.adds
  loops : ∀ r, Moved r (s.loops r) (t.loops r)

theorem Still.trans {s t u : State R} (h : Still s t) (h' : Still t u) : Still s u where
  conns := h'.conns.trans h.conns
  freshConn := h'.freshConn.trans h.freshConn
  table := h'.table.trans h.table
  freshDescription := h'.freshDescription.trans h.freshDescription
  lost := h'.lost.trans h.lost
  adds := h'.adds.trans h.adds
  loops r := (h.loops r).trans (h'.loops r)

theorem Inv.still {s t : State R} (h : Inv s) (hstill : Still s t) : Inv t where
  loops r := by
    rw [hstill.conns, hstill.table]
    exact (h.loops r).moved (hstill.loops r)
  table := by
    rw [hstill.table, hstill.freshDescription]
    exact h.table
  hasFd := by
    rw [hstill.conns, hstill.table]
    exact h.hasFd
  ownFd := hstill.conns ▸ h.ownFd
  older := by
    rw [hstill.conns, hstill.freshConn]
    exact h.older
  owned conn c hconn := by
    rw [(hstill.loops _).connections, hstill.adds]
    exact h.owned conn c (hstill.conns ▸ hconn)
  added conn r hadds := by
    rw [(hstill.loops r).connections, hstill.conns]
    exact h.added conn r (hstill.adds ▸ hadds)
  lost := hstill.lost.trans h.lost

theorem still_setAcceptor {s : State R} {acceptor : Acceptor R}
    (h : acceptor.adds = s.acceptor.adds) : Still s (setAcceptor s acceptor) :=
  ⟨rfl, rfl, rfl, rfl, rfl, h, fun r => moved_refl r _⟩

theorem still_children (s : State R) (children : List Child) : Still s { s with children } :=
  ⟨rfl, rfl, rfl, rfl, rfl, rfl, fun r => moved_refl r _⟩

/-- Every registration refers to a descriptor of the server, so none is dropped. -/
theorem Inv.still_dropClosed {s : State R} (h : Inv s) (children : List Child) :
    Still s (dropClosed { s with children }) where
  conns := rfl
  freshConn := rfl
  table := rfl
  freshDescription := rfl
  lost := rfl
  adds := rfl
  loops r := by
    refine ⟨List.filter_eq_self.mpr fun reg hreg => ?_, rfl, rfl, fun _ hu => hu,
      fun _ hl => Or.inr hl⟩
    rcases ((h.loops r).registered reg hreg).2 with ⟨d, hd, -, hdesc⟩
    rw [isOpen, Table.refersTo_iff.mpr ⟨d, hd, hdesc⟩]
    rfl

/-! ## Replacing a loop -/

variable [DecidableEq R]

@[simp] theorem setLoop_self (s : State R) (r : R) (loop : EventLoop R) :
    (setLoop s r loop).loops r = loop := by
  simp [setLoop]

theorem setLoop_of_ne (s : State R) {r r' : R} (loop : EventLoop R) (h : r' ≠ r) :
    (setLoop s r loop).loops r' = s.loops r' := by
  simp [setLoop, Function.update_of_ne h]

theorem still_setLoop {s : State R} {r : R} {loop : EventLoop R} (h : Moved r (s.loops r) loop) :
    Still s (setLoop s r loop) where
  conns := rfl
  freshConn := rfl
  table := rfl
  freshDescription := rfl
  lost := rfl
  adds := rfl
  loops r' := by
    by_cases heq : r' = r
    · subst heq
      rw [setLoop_self]
      exact h
    · rw [setLoop_of_ne s loop heq]
      exact moved_refl r' _

theorem still_setCallback {s : State R} {r : R} {callback : Callback R}
    (huses : ∀ use, callback.uses = some use → (s.loops r).callback.uses = some use)
    (hhome : ∀ looper, callback.looper = some looper →
      looper = r ∨ (s.loops r).callback.looper = some looper) :
    Still s (setCallback s r callback) :=
  still_setLoop ⟨rfl, rfl, rfl, huses, hhome⟩

/-- A callback goes on with the same connection. -/
theorem still_advance {s : State R} {r : R} {callback callback' : Callback R}
    (hcallback : (s.loops r).callback = callback) (huses : callback'.uses = callback.uses)
    (hlooper : ∀ looper, callback'.looper = some looper → callback.looper = some looper) :
    Still s (setCallback s r callback') := by
  refine still_setCallback (fun use huse => ?_) (fun looper hhome => Or.inr ?_)
  · rw [hcallback, ← huses, huse]
  · rw [hcallback, hlooper looper hhome]

theorem still_idle (s : State R) (r : R) : Still s (setCallback s r .idle) :=
  still_setCallback (fun _ huse => by cases huse) (fun _ hlooper => by cases hlooper)

theorem still_unlock (s : State R) (looper : R) : Still s (unlock s looper) :=
  still_setLoop ⟨rfl, rfl, rfl, fun _ h => h, fun _ h => Or.inr h⟩

theorem still_lock {s t : State R} {looper : R} {thread : Thread R}
    (h : lock s looper thread = some t) : Still s t := by
  rw [lock] at h
  split at h
  · obtain rfl := Option.some.inj h
    exact still_setLoop ⟨rfl, rfl, rfl, fun _ h => h, fun _ h => Or.inr h⟩
  · cases h

end FalconLink.Reactors
