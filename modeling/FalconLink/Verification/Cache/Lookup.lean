import FalconLink.Verification.Cache.Representation

/-! # Taking nodes out of the list and looking keys up -/

namespace FalconLink.Cache

/-! ## Neighbours of a node -/

/-- A node of the list has a cell on either side. -/
theorem route_split (front back : List Entry) (e : Entry) :
    ∃ pre p q post, route (front ++ e :: back) = pre ++ p :: e.addr :: q :: post ∧
      route (front ++ back) = pre ++ p :: q :: post := by
  obtain ⟨pre, p, hpre⟩ :=
    (List.eq_nil_or_concat (header :: front.map Entry.addr)).resolve_left (by simp)
  obtain ⟨q, post, hpost⟩ : ∃ q post, back.map Entry.addr ++ [tailer] = q :: post := by
    cases back <;> simp
  refine ⟨pre, p, q, post, ?_, ?_⟩
  · calc route (front ++ e :: back) =
          (header :: front.map Entry.addr) ++ e.addr :: (back.map Entry.addr ++ [tailer]) := by
            simp [route]
      _ = _ := by rw [hpost, hpre]; simp
  · calc route (front ++ back) =
          (header :: front.map Entry.addr) ++ (back.map Entry.addr ++ [tailer]) := by
            simp [route]
      _ = _ := by rw [hpost, hpre]; simp

/-- `tailer` has a cell before it. -/
theorem route_last (es : List Entry) (e : Entry) :
    ∃ pre r, route es = pre ++ [r, tailer] ∧ route (es ++ [e]) = pre ++ [r, e.addr, tailer] := by
  obtain ⟨pre, r, hpre⟩ :=
    (List.eq_nil_or_concat (header :: es.map Entry.addr)).resolve_left (by simp)
  refine ⟨pre, r, ?_, ?_⟩
  · calc route es = (header :: es.map Entry.addr) ++ [tailer] := by simp [route]
      _ = _ := by rw [hpre]; simp
  · calc route (es ++ [e]) = (header :: es.map Entry.addr) ++ [e.addr, tailer] := by simp [route]
      _ = _ := by rw [hpre]; simp

/-- Taking one entry out leaves a route without its address. -/
theorem route_remove (front : List Entry) {back : List Entry} {e : Entry}
    (h : (route (front ++ e :: back)).Nodup) :
    (route (front ++ back)).Nodup ∧ e.addr ∉ route (front ++ back) ∧
      route (front ++ back) ⊆ route (front ++ e :: back) := by
  obtain ⟨pre, p, q, post, hroute, hroute'⟩ := route_split front back e
  rw [hroute] at h ⊢
  rw [hroute']
  have hperm : (pre ++ p :: e.addr :: q :: post).Perm (e.addr :: (pre ++ p :: q :: post)) := by
    simpa using @List.perm_middle _ e.addr (pre ++ [p]) (q :: post)
  obtain ⟨hnotMem, hnodup⟩ := List.nodup_cons.mp (hperm.nodup_iff.mp h)
  exact ⟨hnodup, hnotMem, fun a ha => hperm.mem_iff.mpr (List.mem_cons_of_mem _ ha)⟩

section

variable {c : Cache}

/-- `removeFromList` on an entry leaves a chain through the others. -/
theorem removeFromList_spec (front : List Entry) {back : List Entry} {e : Entry}
    (h : Represents c (front ++ e :: back)) :
    ∃ L, (∀ {β : Type} (k : Unit → Code β),
        Relinks c.Allocated (removeFromList e.addr >>= k) c.links (k ()) L) ∧
      L.Chain (route (front ++ back)) := by
  obtain ⟨pre, p, q, post, hroute, hroute'⟩ := route_split front back e
  have hmem : ∀ a ∈ [p, e.addr, q], c.Allocated a := by
    intro a ha
    refine h.allocated (hroute ▸ ?_)
    simp only [List.mem_cons, List.not_mem_nil, or_false] at ha
    rcases ha with rfl | rfl | rfl <;> simp
  have hchain : c.links.Chain (pre ++ p :: e.addr :: q :: post) := hroute ▸ h.chain
  have hnodup : (pre ++ p :: e.addr :: q :: post).Nodup := hroute ▸ h.nodup
  obtain ⟨-, hpn, htail⟩ := List.isChain_append_cons_cons.mp hchain
  have hnq := (List.isChain_cons_cons.mp htail).1
  refine ⟨c.links.unlink p q, ?_, hroute' ▸ hchain.unlink hnodup⟩
  exact relinks_removeFromList (hmem p (by simp)) (hmem e.addr (by simp)) (hmem q (by simp)) hpn hnq

/-- `appendToTail` extends a chain by one allocated node that is not on it. -/
theorem appendToTail_spec {es : List Entry} {e : Entry} {L : Links Addr}
    (hL : L.Chain (route es)) (hnodup : (route es).Nodup) (halloc : ∀ a ∈ route es, c.Allocated a)
    (he : c.Allocated e.addr) (hfresh : e.addr ∉ route es) :
    ∃ L', (∀ {β : Type} (k : Unit → Code β),
        Relinks c.Allocated (appendToTail e.addr >>= k) L (k ()) L') ∧
      L'.Chain (route (es ++ [e])) := by
  obtain ⟨pre, r, hroute, hroute'⟩ := route_last es e
  rw [hroute] at hL hnodup halloc hfresh
  have hrt := (List.isChain_append_cons_cons.mp hL).2.1
  refine ⟨L.relink r e.addr tailer, ?_, hroute' ▸ hL.relink hnodup hfresh⟩
  exact relinks_appendToTail (halloc r (by simp)) he (halloc tailer (by simp)) hrt.2

/-- Moving an entry to the most recently used end. -/
theorem relinks_toTail {front back : List Entry} {e : Entry}
    (h : Represents c (front ++ e :: back)) :
    ∃ L, (∀ {β : Type} (k : Unit → Code β),
        Relinks c.Allocated (removeFromList e.addr >>= fun _ => appendToTail e.addr >>= k)
          c.links (k ()) L) ∧
      L.Chain (route (front ++ back ++ [e])) := by
  obtain ⟨L, hremove, hL⟩ := removeFromList_spec front h
  obtain ⟨hnodup, hnotMem, hsub⟩ := route_remove front h.nodup
  obtain ⟨L', happend, hL'⟩ := appendToTail_spec hL hnodup (fun a ha => h.allocated (hsub ha))
    (h.allocated (by simp [route])) hnotMem
  exact ⟨L', fun k => (hremove _).trans (happend k), hL'⟩

/-! ## Lookups -/

theorem serialize_spec {es : List Entry} {e : Entry} (h : Represents c es) (he : e ∈ es)
    (destination : Bytes) :
    (serialize e.addr destination).run exec c = .ok (destination ++ e.data, c) := by
  rcases h.node he with ⟨n, hn, -, hdata, -⟩
  simp only [serialize, access, Prog.op_bind]
  rw [Prog.run_call_ok (r := e.data) (t := c) (by simp [exec, deref, hn, hdata, Except.map])]
  rfl

/-- The end of a lookup that finds its key: the node becomes the most recently used. -/
def refresh (node : Addr) (destination : Bytes) : Code (Bool × Bytes) := do
  removeFromList node
  appendToTail node
  updateTimestamp node
  return (true, destination)

/-- A lookup that finds its key, from the moment the map has answered: the data is appended
to the destination before the node is moved. -/
def loadHit (node : Addr) (destination : Bytes) : Code (Bool × Bytes) := do
  let destination ← serialize node destination
  refresh node destination

theorem move_perm (front back : List Entry) (e : Entry) :
    (front ++ back ++ [e]).Perm (front ++ e :: back) := by
  simpa using (List.perm_append_singleton e back).append_left front

theorem loadHit_spec {front back : List Entry} {e : Entry}
    (h : Represents c (front ++ e :: back)) (destination : Bytes) :
    ∃ c', (loadHit e.addr destination).run exec c = .ok ((true, destination ++ e.data), c') ∧
      Represents c' (front ++ back ++ [{ e with time := c.clock 0 }]) ∧
      c'.capacity = c.capacity ∧ c'.mapping = c.mapping ∧
      c'.payload header = c.payload header ∧ c'.clock = fun n => c.clock (n + 1) := by
  obtain ⟨L, hmove, hL⟩ := relinks_toTail h
  have hmoved := h.withLinks (move_perm front back e) hL
  have hstamp := run_updateTimestamp (hmoved.allocated (a := e.addr) (by simp [route]))
  have hheader : header ≠ e.addr :=
    ne_of_mem_of_not_mem (b := e.addr) (by simp [route]) (route_remove front h.nodup).2.1
  refine ⟨_, ?_, (hmoved.stamp (c.clock 0)).tick fun n => c.clock (n + 1), rfl, rfl,
    (payload_stamp_of_ne (c.clock 0) hheader).trans (payload_withLinks c L header), rfl⟩
  have hrun := (hmove fun _ => updateTimestamp e.addr >>= fun _ =>
    Prog.ret (true, destination ++ e.data)).run_eq
  rw [withLinks_links] at hrun
  rw [loadHit, Prog.run_bind_ok (serialize_spec h (by simp) destination)]
  refine hrun.trans ?_
  rw [Prog.run_bind_ok hstamp]
  rfl

theorem tryLoad_eq (resourceUrl destination : Bytes) :
    tryLoad resourceUrl destination =
      .call (.find resourceUrl) fun node =>
        match (node : Option Addr) with
        | some node => loadHit node destination
        | none => .ret (false, destination) := rfl

/-- A lookup of a present key. -/
theorem tryLoad_hit {front back : List Entry} {e : Entry}
    (h : Represents c (front ++ e :: back)) (destination : Bytes) :
    ∃ c', (tryLoad e.key destination).run exec c = .ok ((true, destination ++ e.data), c') ∧
      Represents c' (front ++ back ++ [{ e with time := c.clock 0 }]) ∧
      c'.capacity = c.capacity ∧ c'.mapping = c.mapping ∧
      c'.payload header = c.payload header ∧ c'.clock = fun n => c.clock (n + 1) := by
  obtain ⟨c', hrun, hrest⟩ := loadHit_spec h destination
  have hfind : c.mapping.lookup e.key = some e.addr :=
    (h.mapped e.key e.addr).mpr ⟨e, by simp, rfl, rfl⟩
  refine ⟨c', ?_, hrest⟩
  rw [tryLoad_eq, Prog.run_call_ok (r := some e.addr) (t := c) (by simp [exec, hfind])]
  exact hrun

/-- A lookup of an absent key changes nothing. -/
theorem tryLoad_miss {key : Bytes} (hkey : c.mapping.lookup key = none) (destination : Bytes) :
    (tryLoad key destination).run exec c = .ok ((false, destination), c) := by
  rw [tryLoad_eq, Prog.run_call_ok (r := none) (t := c) (by simp [exec, hkey])]
  rfl

end

end FalconLink.Cache
