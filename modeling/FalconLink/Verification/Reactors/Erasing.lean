import FalconLink.Verification.Reactors.Adding

/-! # Erasing connections -/

namespace FalconLink.Reactors

open Descriptors

variable {R : Type}

/-! ## Closing -/

/-- A clean erasing drops the registrations of the connection and no others. -/
theorem Inv.open_iff {s : State R} (hs : Inv s) {r r' : R} {fd : Fd} {conn : Ptr}
    (hconn : s.conns conn = some ⟨fd, r⟩) (hclean : heldByChild s fd = false)
    {reg : Registration Ptr} (hreg : reg ∈ (s.loops r').poller) :
    ((s.table.close fd).refersTo reg.description ||
      s.children.any fun child => child.table.refersTo reg.description) = true ↔
        reg.data ≠ conn := by
  rcases (hs.loops r').registered reg hreg with ⟨hdata, d, hd, hfd, hdesc⟩
  constructor
  · intro hopen heq
    rw [heq, hconn] at hdata
    obtain rfl := (Connection.mk.inj (Option.some.inj hdata)).1
    rw [heldByChild, ← hfd, hs.table.lookup_eq hd] at hclean
    rw [← hdesc, ← hfd, hs.table.not_refersTo_close hd, Bool.false_or] at hopen
    exact Bool.false_ne_true (hclean.symm.trans hopen)
  · intro hne
    rw [Bool.or_eq_true, Table.refersTo_iff]
    refine Or.inl ⟨d, Table.mem_close.mpr ⟨hd, fun heq => hne ?_⟩, hdesc⟩
    exact hs.ownFd _ _ _ _ hdata hconn (hfd.symm.trans heq)

/-- What a reactor erases is the connection that its callback is about. -/
theorem Inv.erased {s : State R} (hs : Inv s) {r looper : R} {conn : Ptr} {fromFd : Fd}
    (hcallback : (s.loops r).callback = .erasing conn fromFd looper) :
    looper = r ∧ s.conns conn = some ⟨fromFd, r⟩ ∧
      conn ∈ (s.loops r).poller.map Registration.data ∧ conn ∉ (s.loops r).readyConns ∧
      ∀ other, (s.loops r).connections fromFd = some other → other = conn := by
  rcases (hs.loops r).used conn fromFd (by rw [hcallback]; rfl) with ⟨hconn, hin, hnot⟩
  refine ⟨(hs.loops r).home looper (by rw [hcallback]; rfl), hconn, hin, hnot,
    fun other hother => ?_⟩
  exact hs.ownFd other conn _ _ ((hs.loops r).mapped fromFd other hother) hconn rfl

/-! ## Erasing -/

variable [DecidableEq R]

section

variable {s t : State R}

theorem eraseConnection_eq {r : R} {fd : Fd} {conn : Ptr} {c : Connection R}
    (hmap : (s.loops r).connections fd = some conn) (hconn : s.conns conn = some c) :
    eraseConnection s r fd = dropClosed { Reactors.setLoop s r { s.loops r with
      connections := Function.update (s.loops r).connections fd none } with
        conns := Function.update s.conns conn none
        table := s.table.close c.fd } := by
  simp only [eraseConnection, hmap, destroy]
  rw [show (Reactors.setLoop s r _).conns conn = some c from hconn]
  rfl

/-- What is left of a loop when a connection is erased from the map of loop `r`. -/
theorem loops_eraseConnection {r : R} {fd : Fd} {conn : Ptr} {c : Connection R}
    (hmap : (s.loops r).connections fd = some conn) (hconn : s.conns conn = some c) (r' : R) :
    (eraseConnection s r fd).loops r' = { s.loops r' with
      poller := (s.loops r').poller.filter fun reg =>
        (s.table.close c.fd).refersTo reg.description ||
          s.children.any fun child => child.table.refersTo reg.description
      connections := if r' = r then Function.update (s.loops r).connections fd none
        else (s.loops r').connections } := by
  rw [eraseConnection_eq hmap hconn]
  by_cases heq : r' = r
  · subst heq
    simp [dropClosed, isOpen, Reactors.setLoop]
  · simp [dropClosed, isOpen, Reactors.setLoop, heq]

theorem conns_eraseConnection {r : R} {fd : Fd} {conn : Ptr} {c : Connection R}
    (hmap : (s.loops r).connections fd = some conn) (hconn : s.conns conn = some c) :
    (eraseConnection s r fd).conns = Function.update s.conns conn none := by
  rw [eraseConnection_eq hmap hconn]
  rfl

/-- The other connections keep their places in the maps. -/
theorem Inv.connections_eraseConnection (hs : Inv s) {r r' : R} {fd fd' : Fd} {conn q : Ptr}
    (hmap : (s.loops r).connections fd = some conn) :
    ((Reactors.eraseConnection s r fd).loops r').connections fd' = some q ↔
      q ≠ conn ∧ (s.loops r').connections fd' = some q := by
  have hconn := (hs.loops r).mapped fd conn hmap
  have hplace : (s.loops r').connections fd' = some conn → fd' = fd ∧ r' = r := by
    intro hsame
    have hq := (hs.loops r').mapped fd' conn hsame
    rw [hconn] at hq
    obtain ⟨rfl, rfl⟩ := Connection.mk.inj (Option.some.inj hq)
    exact ⟨rfl, rfl⟩
  rw [loops_eraseConnection hmap hconn]
  by_cases heq : r' = r
  · subst heq
    simp only [if_true, update_none_iff]
    constructor
    · rintro ⟨hne, hq⟩
      exact ⟨fun hsame => hne (hplace (hsame ▸ hq)).1, hq⟩
    · rintro ⟨hne, hq⟩
      refine ⟨fun hsame => hne ?_, hq⟩
      rw [hsame, hmap] at hq
      exact (Option.some.inj hq).symm
  · simp only [if_neg heq]
    exact ⟨fun hq => ⟨fun hsame => heq (hplace (hsame ▸ hq)).2, hq⟩, fun hq => hq.2⟩

/-- The other connections keep their registrations. -/
theorem Inv.mem_poller_eraseConnection (hs : Inv s) {r r' : R} {fd : Fd} {conn : Ptr}
    (hmap : (s.loops r).connections fd = some conn) (hclean : heldByChild s fd = false)
    {reg : Registration Ptr} : reg ∈ ((Reactors.eraseConnection s r fd).loops r').poller ↔
      reg ∈ (s.loops r').poller ∧ reg.data ≠ conn := by
  have hconn := (hs.loops r).mapped fd conn hmap
  rw [loops_eraseConnection hmap hconn, List.mem_filter]
  exact and_congr_right fun hreg => hs.open_iff hconn hclean hreg

theorem table_eraseConnection {r : R} {fd : Fd} {conn : Ptr} {looper : R}
    (hmap : (s.loops r).connections fd = some conn) (hconn : s.conns conn = some ⟨fd, looper⟩) :
    (eraseConnection s r fd).table = s.table.close fd := by
  rw [eraseConnection_eq hmap hconn]
  rfl

/-- The loops keep what they know about the other connections. -/
theorem Inv.loopInv_eraseConnection (hs : Inv s) {r : R} {fd : Fd} {conn : Ptr}
    (hmap : (s.loops r).connections fd = some conn) (hbatch : conn ∉ (s.loops r).readyConns)
    (hunused : (s.loops r).callback.uses = none) (hclean : heldByChild s fd = false) (r' : R) :
    LoopInv (Reactors.eraseConnection s r fd).conns (Reactors.eraseConnection s r fd).table r'
      ((Reactors.eraseConnection s r fd).loops r') := by
  have hconn := (hs.loops r).mapped fd conn hmap
  have hloops := loops_eraseConnection hmap hconn
  have hloop := hs.loops r'
  -- The connections of other loops are others.
  have hforeign : ∀ q fd', r' ≠ r → s.conns q = some ⟨fd', r'⟩ → q ≠ conn := by
    intro q fd' hne hq heq
    rw [heq, hconn] at hq
    exact hne (Connection.mk.inj (Option.some.inj hq)).2.symm
  have hstays : ∀ q, q ≠ conn → q ∈ (s.loops r').poller.map Registration.data →
      q ∈ ((Reactors.eraseConnection s r fd).loops r').poller.map Registration.data := by
    intro q hne hq
    rcases List.mem_map.mp hq with ⟨reg, hreg, rfl⟩
    exact List.mem_map_of_mem ((hs.mem_poller_eraseConnection hmap hclean).mpr ⟨hreg, hne⟩)
  have hready : ((Reactors.eraseConnection s r fd).loops r').readyConns =
      (s.loops r').readyConns := by rw [hloops]
  have hcallback : ((Reactors.eraseConnection s r fd).loops r').callback =
      (s.loops r').callback := by rw [hloops]
  rw [conns_eraseConnection hmap hconn, table_eraseConnection hmap hconn]
  refine ⟨fun reg hreg => ?_, fun fd' q hq => ?_, fun q hq => ?_, ?_, fun q fd' huses => ?_, ?_⟩
  · rcases (hs.mem_poller_eraseConnection hmap hclean).mp hreg with ⟨hreg, hne⟩
    rcases hloop.registered reg hreg with ⟨hdata, d, hd, hfd, hdesc⟩
    exact ⟨update_none_iff.mpr ⟨hne, hdata⟩, d,
      Table.mem_close.mpr ⟨hd, hfd ▸ hs.fd_ne hconn hdata hne⟩, hfd, hdesc⟩
  · rcases (hs.connections_eraseConnection hmap).mp hq with ⟨hne, hq⟩
    exact update_none_iff.mpr ⟨hne, hloop.mapped fd' q hq⟩
  · rw [hready] at hq
    refine hstays q (fun heq => ?_) (hloop.ready q hq)
    by_cases hsame : r' = r
    · exact hbatch (hsame ▸ heq ▸ hq)
    · rcases List.mem_map.mp (hloop.ready q hq) with ⟨reg, hreg, rfl⟩
      exact hforeign _ _ hsame (hloop.registered reg hreg).1 heq
  · rw [hready]
    exact hloop.readyOnce
  · rw [hcallback] at huses
    have hne : q ≠ conn := by
      by_cases hsame : r' = r
      · rw [hsame, hunused] at huses
        cases huses
      · exact hforeign q fd' hsame (hloop.used q fd' huses).1
    rcases hloop.used q fd' huses with ⟨hq, hin, hnot⟩
    exact ⟨update_none_iff.mpr ⟨hne, hq⟩, hstays q hne hin, hready ▸ hnot⟩
  · rw [hcallback]
    exact hloop.home

theorem Inv.eraseConnection (hs : Inv s) {r : R} {fd : Fd} {conn : Ptr}
    (hmap : (s.loops r).connections fd = some conn) (hbatch : conn ∉ (s.loops r).readyConns)
    (hunused : (s.loops r).callback.uses = none) (hclean : heldByChild s fd = false) :
    Inv (eraseConnection s r fd) := by
  have hconn := (hs.loops r).mapped fd conn hmap
  have hconns := conns_eraseConnection hmap hconn
  have htable := table_eraseConnection hmap hconn
  have hrest : (Reactors.eraseConnection s r fd).freshConn = s.freshConn ∧
      (Reactors.eraseConnection s r fd).freshDescription = s.freshDescription ∧
      (Reactors.eraseConnection s r fd).acceptor = s.acceptor ∧
      (Reactors.eraseConnection s r fd).lost = s.lost := by
    rw [eraseConnection_eq hmap hconn]
    exact ⟨rfl, rfl, rfl, rfl⟩
  rcases hrest with ⟨hfresh, hdescription, hacceptor, hlost⟩
  constructor
  · exact hs.loopInv_eraseConnection hmap hbatch hunused hclean
  · rw [htable, hdescription]
    exact hs.table.close fd
  · intro q c hq
    rw [hconns] at hq
    rcases update_none_iff.mp hq with ⟨hne, hq⟩
    rcases hs.hasFd q c hq with ⟨d, hd, hfd⟩
    rw [htable]
    exact ⟨d, Table.mem_close.mpr ⟨hd, hfd ▸ hs.fd_ne hconn hq hne⟩, hfd⟩
  · intro q q' c c' hq hq'
    rw [hconns] at hq hq'
    exact hs.ownFd q q' c c' (update_none_iff.mp hq).2 (update_none_iff.mp hq').2
  · intro q c hq
    rw [hconns] at hq
    exact hfresh ▸ hs.older q c (update_none_iff.mp hq).2
  · intro q c hq
    rw [hconns] at hq
    rcases update_none_iff.mp hq with ⟨hne, hq⟩
    rcases hs.owned q c hq with hmap' | hadds
    · exact Or.inl ((hs.connections_eraseConnection hmap).mpr ⟨hne, hmap'⟩)
    · exact Or.inr (hacceptor ▸ hadds)
  · intro q r' hadds
    rw [hacceptor] at hadds
    rcases hs.added q r' hadds with ⟨fd', hq, hnot⟩
    rw [hconns]
    refine ⟨fd', update_none_iff.mpr ⟨fun heq => ?_, hq⟩, fun hmap' =>
      hnot ((hs.connections_eraseConnection hmap).mp hmap').2⟩
    rw [heq, hconn] at hq
    obtain ⟨rfl, rfl⟩ := Connection.mk.inj (Option.some.inj hq)
    exact hnot (heq ▸ hmap)
  · exact hlost.trans hs.lost

end

end FalconLink.Reactors
