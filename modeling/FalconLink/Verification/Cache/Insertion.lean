import FalconLink.Verification.Cache.Eviction

/-! # Insertions and clearing -/

namespace FalconLink.Cache

section

variable {c : Cache}

theorem bounded_notMem {es : List Entry} (h : Represents c es) : c.fresh ∉ route es :=
  fun hmem => absurd (h.bounded _ (h.allocated hmem)) (lt_irrefl _)

/-- A new node, linked in at the tail, counted and mapped. -/
theorem Represents.adopt {es : List Entry} (h : Represents c es) {key source : Bytes} (t : ℕ)
    (clock : ℕ → ℕ) (hkey : c.mapping.lookup key = none)
    (hroom : c.occupancy.toNat + source.length ≤ c.capacity.toNat) {L : Links Addr}
    (hL : L.Chain (route (es ++ [⟨c.fresh, key, source, t⟩]))) :
    Represents { (c.setNode c.fresh (some ⟨key, source, t, none, none⟩)).withLinks L with
      fresh := c.fresh + 1
      clock := clock
      occupancy := c.occupancy + UInt64.ofNat source.length
      mapping := c.mapping.insert key c.fresh } (es ++ [⟨c.fresh, key, source, t⟩]) := by
  have hfresh := bounded_notMem h
  have halloc : ∀ a ∈ route (es ++ [⟨c.fresh, key, source, t⟩]),
      (c.setNode c.fresh (some ⟨key, source, t, none, none⟩)).Allocated a := by
    intro a ha
    by_cases hne : a = c.fresh
    · subst hne
      simp [Allocated, setNode]
    · rw [allocated_setNode_of_ne _ hne]
      apply h.allocated
      simp only [route, List.map_append, List.map_cons, List.map_nil, List.mem_append,
        List.mem_cons] at ha ⊢
      tauto
  have hsize : (UInt64.ofNat source.length).toNat = source.length :=
    UInt64.toNat_ofNat_of_lt' (by have := c.capacity.toNat_lt; simp only [UInt64.size]; omega)
  have hocc : (c.occupancy + UInt64.ofNat source.length).toNat =
      c.occupancy.toNat + source.length := by
    rw [UInt64.toNat_add, hsize, Nat.mod_eq_of_lt]
    have := c.capacity.toNat_lt
    omega
  refine ⟨chain_withLinks hL halloc, ?_, ?_, ?_, ?_, ?_, ?_, ?_⟩
  · obtain ⟨pre, r, hroute, hroute'⟩ := route_last es ⟨c.fresh, key, source, t⟩
    have hperm : (pre ++ [r, c.fresh, tailer]).Perm (c.fresh :: (pre ++ [r, tailer])) := by
      simpa using @List.perm_middle _ c.fresh (pre ++ [r]) [tailer]
    rw [hroute', hperm.nodup_iff]
    exact List.nodup_cons.mpr ⟨hroute ▸ hfresh, hroute ▸ h.nodup⟩
  · exact ⟨(allocated_withLinks ..).mpr (halloc header (by simp [route])),
      (allocated_withLinks ..).mpr (halloc tailer (by simp [route]))⟩
  · intro e he
    refine (payload_withLinks _ L _).trans ?_
    rcases List.mem_append.mp he with he | he
    · have hmem : e.addr ∈ route es := addr_mem_route he
      rw [payload_setNode_of_ne _ (ne_of_mem_of_not_mem hmem hfresh)]
      exact h.stored e he
    · obtain rfl := List.mem_singleton.mp he
      simp [payload, setNode]
  · intro key' a
    by_cases hk : key' = key
    · subst hk
      have hno := h.lookup_eq_none.mp hkey
      simp only [AList.lookup_insert, Option.some.injEq, List.mem_append, List.mem_singleton]
      constructor
      · intro ha
        exact ⟨_, Or.inr rfl, rfl, ha⟩
      · rintro ⟨e, he | rfl, hkey', haddr⟩
        · exact absurd hkey' (hno e he)
        · exact haddr
    · simp only [AList.lookup_insert_ne hk, h.mapped key' a, List.mem_append, List.mem_singleton]
      constructor
      · rintro ⟨e, he, hrest⟩
        exact ⟨e, Or.inl he, hrest⟩
      · rintro ⟨e, he | rfl, hkey', haddr⟩
        · exact ⟨e, he, hkey', haddr⟩
        · exact absurd hkey'.symm hk
  · show (c.occupancy + UInt64.ofNat source.length).toNat = _
    rw [hocc, h.occupied]
    simp
  · show (c.occupancy + UInt64.ofNat source.length).toNat ≤ c.capacity.toNat
    rw [hocc]
    exact hroom
  · intro a ha
    show a < c.fresh + 1
    by_cases hne : a = c.fresh
    · exact hne ▸ Nat.lt_succ_self a
    · have hold : c.Allocated a := by
        rw [← allocated_setNode_of_ne (some ⟨key, source, t, none, none⟩) hne,
          ← allocated_withLinks _ L]
        exact ha
      exact Nat.lt_succ_of_lt (h.bounded a hold)

theorem exec_emplace {key : Bytes} {node : Addr} (h : c.mapping.lookup key = none) :
    exec (.emplace key node) c = .ok ((), { c with mapping := c.mapping.insert key node }) := by
  simp [exec, h]

/-- The end of an insertion, once there is room: the node is made and linked in. -/
def insertNode (resourceUrl source : Bytes) : Code Bool := do
  let time ← access .getTimeUTC
  let node ← access (.makeNode resourceUrl source time)
  appendToTail node
  let occupancy ← access .getOccupancy
  access (.setOccupancy (occupancy + UInt64.ofNat source.length))
  access (.emplace resourceUrl node)
  return true

theorem insertNode_spec {es : List Entry} (h : Represents c es) {key source : Bytes}
    (hkey : c.mapping.lookup key = none)
    (hroom : c.occupancy.toNat + source.length ≤ c.capacity.toNat) :
    ∃ c', (insertNode key source).run exec c = .ok (true, c') ∧
      Represents c' (es ++ [⟨c.fresh, key, source, c.clock 0⟩]) ∧
      c'.capacity = c.capacity ∧ c'.payload header = c.payload header ∧
      c'.clock = fun n => c.clock (n + 1) := by
  have hfresh := bounded_notMem h
  let made : Cache := { c.setNode c.fresh (some ⟨key, source, c.clock 0, none, none⟩) with
    fresh := c.fresh + 1, clock := fun n => c.clock (n + 1) }
  have hchain : made.links.Chain (route es) := chain_setNode h.chain hfresh
  have halloc : ∀ a ∈ route es, made.Allocated a := fun a ha =>
    (allocated_setNode_of_ne _ (ne_of_mem_of_not_mem ha hfresh)).mpr (h.allocated ha)
  obtain ⟨L, happend, hL⟩ := appendToTail_spec (e := ⟨c.fresh, key, source, c.clock 0⟩) hchain
    h.nodup halloc (by simp [Allocated, made, setNode]) hfresh
  have hheader : header ≠ c.fresh := ne_of_mem_of_not_mem (b := c.fresh) (by simp [route]) hfresh
  refine ⟨_, ?_, h.adopt (c.clock 0) (fun n => c.clock (n + 1)) hkey hroom hL, rfl,
    (payload_withLinks made L header).trans (payload_setNode_of_ne _ hheader), rfl⟩
  simp only [insertNode, access, Prog.op_bind]
  rw [Prog.run_call_ok (r := c.clock 0) rfl, Prog.run_call_ok (r := c.fresh) (t := made) rfl]
  have hrun := (happend fun _ => .call .getOccupancy fun occupancy =>
    .call (.setOccupancy (occupancy + UInt64.ofNat source.length)) fun _ =>
      .call (.emplace key c.fresh) fun _ => .ret true).run_eq
  rw [withLinks_links] at hrun
  refine hrun.trans ?_
  rw [Prog.run_call_ok (r := c.occupancy) rfl, Prog.run_call_ok (r := ()) rfl,
    Prog.run_call_ok (r := ()) (exec_emplace (c := { made.withLinks L with
      occupancy := c.occupancy + UInt64.ofNat source.length }) hkey)]
  rfl

theorem Represents.length_le_count {es : List Entry} (h : Represents c es) :
    es.length ≤ c.mapping.entries.length := by
  have hnodup : (es.map Entry.key).Nodup := by
    exact List.Nodup.map_on (fun e he e' he' hkey => h.key_injective he he' hkey)
      (List.Nodup.of_map _ h.addr_nodup)
  have hsub : es.map Entry.key ⊆ c.mapping.keys := by
    intro key hkey
    rcases List.mem_map.mp hkey with ⟨e, he, rfl⟩
    rw [← AList.mem_keys, ← AList.lookup_isSome, (h.mapped e.key e.addr).mpr ⟨e, he, rfl, rfl⟩]
    rfl
  have hlength := (List.subperm_of_subset hnodup hsub).length_le
  simpa [AList.keys, List.keys] using hlength

theorem tryInsert_eq (resourceUrl source : Bytes) :
    tryInsert resourceUrl source =
      .call (.find resourceUrl) fun node =>
        match (node : Option Addr) with
        | some _ => .ret false
        | none =>
            .call .getCapacity fun capacity =>
              if UInt64.toNat capacity < source.length then .ret false
              else .call .count fun rounds =>
                evictWhile source.length rounds >>= fun _ => insertNode resourceUrl source := rfl

/-- A present key is not inserted again. -/
theorem tryInsert_present {key : Bytes} {a : Addr} (source : Bytes)
    (hkey : c.mapping.lookup key = some a) :
    (tryInsert key source).run exec c = .ok (false, c) := by
  rw [tryInsert_eq, Prog.run_call_ok (r := some a) (t := c) (by simp [exec, hkey])]
  rfl

/-- Data that exceeds the whole capacity is refused. -/
theorem tryInsert_large {key source : Bytes} (hkey : c.mapping.lookup key = none)
    (hlarge : c.capacity.toNat < source.length) :
    (tryInsert key source).run exec c = .ok (false, c) := by
  rw [tryInsert_eq, Prog.run_call_ok (r := none) (t := c) (by simp [exec, hkey])]
  simp only
  rw [Prog.run_call_ok (r := c.capacity) (t := c) rfl, if_pos hlarge]
  rfl

/-- Any other insertion evicts what it must and puts the new entry at the most recent end. -/
theorem tryInsert_new {es : List Entry} (h : Represents c es) {key source : Bytes}
    (hkey : c.mapping.lookup key = none) (hfits : source.length ≤ c.capacity.toNat) :
    ∃ c' es' a, (tryInsert key source).run exec c = .ok (true, c') ∧
      Represents c' (es' ++ [⟨a, key, source, c.clock 0⟩]) ∧ es' <:+ es ∧
      es'.map Entry.item =
        Recency.makeRoom List.length c.capacity.toNat source.length (es.map Entry.item) ∧
      c'.capacity = c.capacity ∧ c'.payload header = c.payload header ∧
      c'.clock = fun n => c.clock (n + 1) := by
  rcases evictWhile_spec source.length h h.length_le_count with
    ⟨c₁, es', hevict, h₁, hsuf, hroom, hcap, hheader, hclock⟩
  have hkey₁ : c₁.mapping.lookup key = none :=
    h₁.lookup_eq_none.mpr fun e he => h.lookup_eq_none.mp hkey e (hsuf.subset he)
  have hspace : c₁.occupancy.toNat + source.length ≤ c₁.capacity.toNat := by
    rcases Recency.makeRoom_shortest List.length c.capacity.toNat source.length hfits
      (es.map Entry.item) with ⟨n, hn, htotal, -⟩
    rw [← hn, ← hroom] at htotal
    rw [h₁.occupied, hcap]
    simpa [Recency.total, Entry.item, Function.comp_def] using htotal
  rcases insertNode_spec h₁ hkey₁ hspace with ⟨c₂, hinsert, h₂, hcap₂, hheader₂, hclock₂⟩
  refine ⟨c₂, es', c₁.fresh, ?_, hclock ▸ h₂, hsuf, hroom, hcap₂.trans hcap,
    hheader₂.trans hheader, hclock ▸ hclock₂⟩
  rw [tryInsert_eq, Prog.run_call_ok (r := none) (t := c) (by simp [exec, hkey])]
  simp only
  rw [Prog.run_call_ok (r := c.capacity) (t := c) rfl, if_neg (by omega),
    Prog.run_call_ok (r := c.mapping.entries.length) (t := c) rfl, Prog.run_bind_ok hevict, hinsert]

/-- `clear` empties list, map and counter together. -/
theorem clear_spec {es : List Entry} (h : Represents c es) :
    ∃ c', clear.run exec c = .ok ((), c') ∧ Represents c' [] ∧
      c'.capacity = c.capacity ∧ c'.payload header = c.payload header ∧ c'.clock = c.clock := by
  let L := (c.links.setNext header (some tailer)).setPrev tailer (some header)
  have hne : ∀ a ∈ route [], ¬∃ s ∈ c.mapping.entries, s.2 = a := by
    rintro a ha ⟨⟨key, a'⟩, hs, rfl⟩
    have hlookup : c.mapping.lookup key = some a' := (AList.mem_lookup_iff).mpr hs
    rcases (h.mapped key a').mp hlookup with ⟨e, he, -, haddr⟩
    have hroute := h.nodup
    simp only [route, List.map_nil, List.cons_append, List.nil_append, List.mem_cons,
      List.not_mem_nil, or_false, List.nodup_cons, List.nodup_append, List.mem_append,
      List.mem_map, not_or, not_exists, not_and] at ha hroute
    rcases ha with ha | ha
    · exact hroute.1.1 e he (haddr.trans ha)
    · exact hroute.2.2.2 _ ⟨e, he, rfl⟩ _ rfl (haddr.trans ha)
  let freed : Cache := { c.withLinks L with
    mapping := ∅
    nodes := fun a => if c.mapping.entries.any (·.2 = a) then none else (c.withLinks L).nodes a
    occupancy := 0 }
  have hnodes : ∀ a ∈ route [], freed.nodes a = (c.withLinks L).nodes a := by
    intro a ha
    have hfalse : c.mapping.entries.any (·.2 = a) = false := by
      rw [List.any_eq_false]
      intro s hs hsa
      exact hne a ha ⟨s, hs, by simpa using hsa⟩
    simp [freed, hfalse]
  have hL : L.Chain (route []) := by
    simp [L, Links.Chain, route, Links.Adj, Links.setNext, Links.setPrev]
  have hsub : ∀ a ∈ route [], c.Allocated a := by
    intro a ha
    refine h.allocated ?_
    simp only [route, List.map_nil, List.cons_append, List.nil_append, List.mem_cons,
      List.not_mem_nil, or_false] at ha
    rcases ha with rfl | rfl <;> simp [route]
  have hchain : freed.links.Chain (route []) := by
    refine (chain_withLinks hL hsub).congr (fun a ha => ?_) (fun a ha => ?_)
    · simp [links, hnodes a (List.dropLast_subset _ ha)]
    · simp [links, hnodes a (List.mem_of_mem_tail ha)]
  have halloc : ∀ a ∈ route [], freed.Allocated a := by
    intro a ha
    rw [Allocated, hnodes a ha]
    exact (allocated_withLinks c L a).mpr (hsub a ha)
  refine ⟨freed, ?_, ⟨hchain, by decide, ⟨halloc header (by simp [route]),
    halloc tailer (by simp [route])⟩, by simp, by simp [freed], by simp [freed],
    by simp [freed], ?_⟩, rfl, ?_, rfl⟩
  · have h₁ := exec_writeNext (L := c.links) h.sentinels.1 (some tailer)
    rw [withLinks_links] at h₁
    simp only [clear, access, Prog.op_bind]
    rw [Prog.run_call_ok h₁, Prog.run_call_ok (exec_writePrev h.sentinels.2 _),
      Prog.run_call_ok (r := ()) rfl]
    rfl
  · intro a ha
    have hold : c.Allocated a := by
      rw [← allocated_withLinks c L]
      simp only [Allocated, freed] at ha ⊢
      split at ha
      · simp at ha
      · exact ha
    exact h.bounded a hold
  · rw [payload, hnodes header (by simp [route])]
    exact payload_withLinks c L header

end

end FalconLink.Cache
