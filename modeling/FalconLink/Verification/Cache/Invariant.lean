import FalconLink.Verification.Cache.Lru

/-! # The representation invariant of the cache -/

namespace FalconLink.Cache

/-- List, hash map and byte counter agree: following `next` from `header` meets the nodes
`nodes` and then `tailer`, `prev` is the inverse of `next` on the way, the map stores exactly
these nodes, each under its own identifier, and the counter is the sum of their sizes. -/
structure WellFormed (c : Cache) (nodes : List Addr) : Prop where
  chain : c.links.Chain (header :: nodes ++ [tailer])
  nodup : (header :: nodes ++ [tailer]).Nodup
  mapped : ∀ a, a ∈ nodes ↔ ∃ key, c.mapping.lookup key = some a
  identified : ∀ key a, c.mapping.lookup key = some a →
    ∃ n, c.nodes a = some n ∧ n.identifier = key
  occupied : c.occupancy.toNat =
    (nodes.map fun a => ((c.nodes a).map fun n => n.data.length).getD 0).sum
  within : c.occupancy.toNat ≤ c.capacity.toNat

theorem Represents.wellFormed {c : Cache} {es : List Entry} (h : Represents c es) :
    WellFormed c (es.map Entry.addr) where
  chain := h.chain
  nodup := h.nodup
  mapped a := by
    simp only [List.mem_map, h.mapped]
    constructor
    · rintro ⟨e, he, rfl⟩
      exact ⟨e.key, e, he, rfl, rfl⟩
    · rintro ⟨key, e, he, -, rfl⟩
      exact ⟨e, he, rfl⟩
  identified key a hlookup := by
    rcases (h.mapped key a).mp hlookup with ⟨e, he, rfl, rfl⟩
    rcases h.node he with ⟨n, hn, hid, -, -⟩
    exact ⟨n, hn, hid⟩
  occupied := by
    rw [h.occupied, List.map_map]
    congr 1
    apply List.map_congr_left
    intro e he
    rcases h.node he with ⟨n, hn, -, hdata, -⟩
    simp [hn, hdata]
  within := h.within

/-- The state of the eviction loop at one evaluation of its condition. -/
structure LoopState (need : ℕ) (c : Cache) : Prop where
  /-- The invariant holds, so the list is as the map says. -/
  wellFormed : ∃ nodes, WellFormed c nodes
  /-- The subtraction of the condition does not wrap. -/
  room : (c.capacity - c.occupancy).toNat = c.capacity.toNat - c.occupancy.toNat
  /-- When the condition holds the victim is not the sentinel `tailer`, and `evictOne` returns:
  its `assert` does not fail. -/
  evicts : (needsEviction need).run exec c = .ok (true, c) →
    c.links.next header ≠ some tailer ∧ ∃ c', evictOne.run exec c = .ok ((), c')

theorem Represents.loopState {c : Cache} {es : List Entry} (h : Represents c es) (need : ℕ) :
    LoopState need c where
  wellFormed := ⟨_, h.wellFormed⟩
  room := UInt64.toNat_sub_of_le _ _ (UInt64.le_iff_toNat_le.mpr h.within)
  evicts hcond := by
    cases es with
    | nil => simp [needsEviction_spec h need] at hcond
    | cons e rest =>
        rcases evictOne_spec h with ⟨c', hrun, -⟩
        have hnext : c.links.next header = some e.addr := (List.isChain_cons_cons.mp h.chain).1.1
        have hne : e.addr ≠ tailer := by
          have hnodup := h.nodup
          rw [route, List.nodup_append] at hnodup
          exact hnodup.2.2 _ (by simp) _ (by simp)
        refine ⟨?_, c', hrun⟩
        rw [hnext]
        exact fun heq => hne (Option.some.inj heq)

/-- After every sequence of calls on a fresh cache, none of which ends in a fault, the
representation invariant holds. It also holds at every evaluation of the condition of an
eviction loop started there, whatever room it looks for, and that loop ends. -/
theorem cache_wellFormed (capacity : UInt64) (clock : ℕ → ℕ) (ops : List Op) :
    ∃ seen c nodes, runOps ops (new capacity clock) = .ok (seen, c) ∧ WellFormed c nodes ∧
      ∀ need,
        (∀ c', Relation.ReflTransGen (Round need) c c' → LoopState need c') ∧
        ∃ c', Relation.ReflTransGen (Round need) c c' ∧
          (needsEviction need).run exec c' = .ok (false, c') ∧
          (evictWhile need c.mapping.entries.length).run exec c = .ok ((), c') := by
  rcases runOps_simulates ops (represents_new capacity clock) with ⟨c, es, hrun, hrep, -⟩
  refine ⟨_, c, _, hrun, hrep.wellFormed, fun need => ⟨fun c' hrounds => ?_, ?_⟩⟩
  · rcases hrep.rounds hrounds with ⟨es', hevicted⟩
    exact hevicted.represents.loopState need
  · exact evictWhile_ends need hrep hrep.length_le_count

end FalconLink.Cache
