import FalconLink.Verification.Cache.Insertion
import Mathlib.Order.Monotone.Defs

/-! # The cache refines a least-recently-used list -/

namespace FalconLink.Cache

/-! ## The reference -/

namespace Reference

/-- The answer to a call and the list after it, on keyed data ordered by last use. -/
def step (capacity : ℕ) :
    Op → List (Bytes × Bytes) → (Option Bool × Bytes) × List (Bytes × Bytes)
  | .tryLoad resourceUrl destination, l =>
      match Recency.load resourceUrl l with
      | (some data, l') => ((some true, destination ++ data), l')
      | (none, l') => ((some false, destination), l')
  | .tryInsert resourceUrl source, l =>
      ((some (Recency.insert List.length capacity resourceUrl source l).1, []),
        (Recency.insert List.length capacity resourceUrl source l).2)
  | .clear, _ => ((none, []), [])

def runOps (capacity : ℕ) : List Op → List (Bytes × Bytes) → List Seen × List (Bytes × Bytes)
  | [], l => ([], l)
  | op :: ops, l =>
      let answer := (step capacity op l).1
      let l' := (step capacity op l).2
      (⟨answer.1, answer.2, Recency.total List.length l'⟩ :: (runOps capacity ops l').1,
        (runOps capacity ops l').2)

end Reference

/-! ## One call -/

/-- The time stamps along the list, oldest first, none of them in the future. -/
structure Stamped (c : Cache) (es : List Entry) : Prop where
  sorted : (es.map Entry.time).Pairwise (· ≤ ·)
  past : ∀ e ∈ es, e.time ≤ c.clock 0
  first : ∀ e ∈ es, ∀ n, c.nodes header = some n → n.lastAccess ≤ e.time
  started : ∀ n, c.nodes header = some n → n.lastAccess ≤ c.clock 0

theorem lastAccess_of_payload {c c' : Cache} (h : c'.payload header = c.payload header)
    {n' : CacheNode} (hn' : c'.nodes header = some n') :
    ∃ n, c.nodes header = some n ∧ n.lastAccess = n'.lastAccess := by
  simp only [payload, hn', Option.map_some] at h
  rcases Option.map_eq_some_iff.mp h.symm with ⟨n, hn, heq⟩
  exact ⟨n, hn, (Prod.mk.inj (Prod.mk.inj heq).2).2⟩

/-- Dropping entries and stamping one with the present time keeps the list stamped. -/
theorem Stamped.use {c c' : Cache} {es es' : List Entry} {e : Entry} (h : Stamped c es)
    (hclock : Monotone c.clock) (hsub : es'.Sublist es)
    (hheader : c'.payload header = c.payload header) (hnext : c'.clock = fun n => c.clock (n + 1))
    (htime : e.time = c.clock 0) : Stamped c' (es' ++ [e]) := by
  have hstep : c.clock 0 ≤ c'.clock 0 := hnext ▸ hclock (Nat.zero_le _)
  refine ⟨?_, ?_, ?_, ?_⟩
  · rw [List.map_append, List.pairwise_append]
    refine ⟨h.sorted.sublist (hsub.map _), by simp, ?_⟩
    intro t ht t' ht'
    rcases List.mem_map.mp ht with ⟨a, ha, rfl⟩
    simp only [List.map_cons, List.map_nil, List.mem_singleton] at ht'
    rw [ht', htime]
    exact h.past a (hsub.subset ha)
  · intro a ha
    rcases List.mem_append.mp ha with ha | ha
    · exact (h.past a (hsub.subset ha)).trans hstep
    · rw [List.mem_singleton.mp ha, htime]
      exact hstep
  · intro a ha n' hn'
    rcases lastAccess_of_payload hheader hn' with ⟨n, hn, heq⟩
    rw [← heq]
    rcases List.mem_append.mp ha with ha | ha
    · exact h.first a (hsub.subset ha) n hn
    · rw [List.mem_singleton.mp ha, htime]
      exact h.started n hn
  · intro n' hn'
    rcases lastAccess_of_payload hheader hn' with ⟨n, hn, heq⟩
    rw [← heq]
    exact (h.started n hn).trans hstep

theorem Stamped.empty {c c' : Cache} {es : List Entry} (h : Stamped c es)
    (hheader : c'.payload header = c.payload header) (hclock : c'.clock = c.clock) :
    Stamped c' [] := by
  refine ⟨by simp, by simp, by simp, ?_⟩
  intro n' hn'
  rcases lastAccess_of_payload hheader hn' with ⟨n, hn, heq⟩
  rw [← heq, hclock]
  exact h.started n hn

theorem load_item_of_mem {front back : List Entry} {e : Entry}
    (hfront : ∀ e' ∈ front, e'.key ≠ e.key) :
    Recency.load e.key ((front ++ e :: back).map Entry.item) =
      (some e.data, (front ++ back ++ [e]).map Entry.item) := by
  have hitems : ∀ p ∈ front.map Entry.item, p.1 ≠ e.key := by
    intro p hp
    rcases List.mem_map.mp hp with ⟨e', he', rfl⟩
    exact hfront e' he'
  rw [List.map_append, List.map_cons, Entry.item, Recency.load_append_cons hitems]
  simp [Entry.item]

theorem load_item_of_notMem {es : List Entry} {key : Bytes} (h : ∀ e ∈ es, e.key ≠ key) :
    Recency.load key (es.map Entry.item) = (none, es.map Entry.item) := by
  apply Recency.load_of_notMem
  intro p hp
  rcases List.mem_map.mp hp with ⟨e, he, rfl⟩
  exact h e he

/-- A call of the cache does what the reference does with the represented list. -/
structure Simulates (op : Op) (c : Cache) (es : List Entry) (answer : Option Bool × Bytes)
    (c' : Cache) (es' : List Entry) : Prop where
  run_eq : op.code.run exec c = .ok (answer, c')
  represents : Represents c' es'
  answer_eq : answer = (Reference.step c.capacity.toNat op (es.map Entry.item)).1
  items_eq : es'.map Entry.item = (Reference.step c.capacity.toNat op (es.map Entry.item)).2
  capacity_eq : c'.capacity = c.capacity
  stamped : Monotone c.clock → Stamped c es → Monotone c'.clock ∧ Stamped c' es'

theorem tryLoad_simulates {c : Cache} {es : List Entry} (h : Represents c es)
    (resourceUrl destination : Bytes) :
    ∃ answer c' es', Simulates (.tryLoad resourceUrl destination) c es answer c' es' := by
  by_cases hmem : ∃ e ∈ es, e.key = resourceUrl
  · rcases hmem with ⟨e, he, rfl⟩
    rcases List.append_of_mem he with ⟨front, back, rfl⟩
    have hfront : ∀ e' ∈ front, e'.key ≠ e.key := by
      intro e' he' hkey
      have heq := h.key_injective (List.mem_append_left _ he') he hkey
      have hnodup := h.addr_nodup
      rw [List.map_append, List.nodup_append] at hnodup
      exact hnodup.2.2 _ (List.mem_map_of_mem he') _ (by simp) (congrArg Entry.addr heq)
    rcases tryLoad_hit h destination with ⟨c', hrun, hrep, hcap, -, hheader, hclock⟩
    refine ⟨(some true, destination ++ e.data), c', _, ?_, hrep, ?_, ?_, hcap, ?_⟩
    · rw [Op.code, Prog.run_bind_ok hrun]
      rfl
    · rw [Reference.step, load_item_of_mem hfront]
    · rw [Reference.step, load_item_of_mem hfront]
      simp [Entry.item]
    · intro hmono hst
      refine ⟨hclock ▸ fun m n hmn => hmono (Nat.succ_le_succ hmn), ?_⟩
      exact hst.use hmono ((List.Sublist.refl front).append (List.sublist_cons_self e back))
        hheader hclock rfl
  · have hno : ∀ e ∈ es, e.key ≠ resourceUrl := fun e he hkey => hmem ⟨e, he, hkey⟩
    refine ⟨(some false, destination), c, es, ?_, h, ?_, ?_, rfl, fun hmono hst => ⟨hmono, hst⟩⟩
    · rw [Op.code, Prog.run_bind_ok (tryLoad_miss (h.lookup_eq_none.mpr hno) destination)]
      rfl
    · simp [Reference.step, load_item_of_notMem hno]
    · simp [Reference.step, load_item_of_notMem hno]

theorem tryInsert_simulates {c : Cache} {es : List Entry} (h : Represents c es)
    (resourceUrl source : Bytes) :
    ∃ answer c' es', Simulates (.tryInsert resourceUrl source) c es answer c' es' := by
  have hkeys : resourceUrl ∈ (es.map Entry.item).map Prod.fst ↔ ∃ e ∈ es, e.key = resourceUrl := by
    simp [Entry.item]
  cases hlookup : c.mapping.lookup resourceUrl with
  | some a =>
      rcases (h.mapped resourceUrl a).mp hlookup with ⟨e, he, hkey, -⟩
      have href : Recency.insert List.length c.capacity.toNat resourceUrl source
          (es.map Entry.item) = (false, es.map Entry.item) := by
        rw [Recency.insert, if_pos (Or.inl (hkeys.mpr ⟨e, he, hkey⟩))]
      refine ⟨(some false, []), c, es, ?_, h, ?_, ?_, rfl, fun hmono hst => ⟨hmono, hst⟩⟩
      · rw [Op.code, Prog.run_bind_ok (tryInsert_present source hlookup)]
        rfl
      · simp [Reference.step, href]
      · simp [Reference.step, href]
  | none =>
      have hno : ¬resourceUrl ∈ (es.map Entry.item).map Prod.fst := by
        rw [hkeys]
        rintro ⟨e, he, hkey⟩
        exact h.lookup_eq_none.mp hlookup e he hkey
      by_cases hlarge : c.capacity.toNat < source.length
      · have href : Recency.insert List.length c.capacity.toNat resourceUrl source
            (es.map Entry.item) = (false, es.map Entry.item) := by
          rw [Recency.insert, if_pos (Or.inr hlarge)]
        refine ⟨(some false, []), c, es, ?_, h, ?_, ?_, rfl, fun hmono hst => ⟨hmono, hst⟩⟩
        · rw [Op.code, Prog.run_bind_ok (tryInsert_large hlookup hlarge)]
          rfl
        · simp [Reference.step, href]
        · simp [Reference.step, href]
      · rcases tryInsert_new h hlookup (Nat.le_of_not_lt hlarge) with
          ⟨c', es', a, hrun, hrep, hsuf, hroom, hcap, hheader, hclock⟩
        have href : Recency.insert List.length c.capacity.toNat resourceUrl source
            (es.map Entry.item) =
              (true, es'.map Entry.item ++ [(resourceUrl, source)]) := by
          rw [Recency.insert, if_neg (not_or.mpr ⟨hno, hlarge⟩), hroom]
        refine ⟨(some true, []), c', _, ?_, hrep, ?_, ?_, hcap, ?_⟩
        · rw [Op.code, Prog.run_bind_ok hrun]
          rfl
        · simp [Reference.step, href]
        · simp [Reference.step, href, Entry.item]
        · intro hmono hst
          exact ⟨hclock ▸ fun m n hmn => hmono (Nat.succ_le_succ hmn),
            hst.use hmono hsuf.sublist hheader hclock rfl⟩

theorem clear_simulates {c : Cache} {es : List Entry} (h : Represents c es) :
    ∃ answer c' es', Simulates .clear c es answer c' es' := by
  rcases clear_spec h with ⟨c', hrun, hrep, hcap, hheader, hclock⟩
  refine ⟨(none, []), c', [], ?_, hrep, rfl, rfl, hcap, fun hmono hst =>
    ⟨hclock ▸ hmono, hst.empty hheader hclock⟩⟩
  rw [Op.code, Prog.run_bind_ok hrun]
  rfl

theorem op_simulates {c : Cache} {es : List Entry} (h : Represents c es) (op : Op) :
    ∃ answer c' es', Simulates op c es answer c' es' := by
  cases op with
  | tryLoad resourceUrl destination => exact tryLoad_simulates h resourceUrl destination
  | tryInsert resourceUrl source => exact tryInsert_simulates h resourceUrl source
  | clear => exact clear_simulates h

/-! ## Runs -/

/-- Every sequence of calls runs to its end and simulates the reference. -/
theorem runOps_simulates (ops : List Op) :
    ∀ {c : Cache} {es : List Entry}, Represents c es →
      ∃ c' es', runOps ops c =
          .ok ((Reference.runOps c.capacity.toNat ops (es.map Entry.item)).1, c') ∧
        Represents c' es' ∧
        es'.map Entry.item = (Reference.runOps c.capacity.toNat ops (es.map Entry.item)).2 ∧
        (Monotone c.clock → Stamped c es → Stamped c' es') := by
  induction ops with
  | nil =>
      intro c es h
      exact ⟨c, es, rfl, h, rfl, fun _ hst => hst⟩
  | cons op ops ih =>
      intro c es h
      rcases op_simulates h op with ⟨answer, c₁, es₁, hsim⟩
      rcases ih hsim.represents with ⟨c₂, es₂, hrun, hrep, hitems, hstamped⟩
      rw [hsim.items_eq, hsim.capacity_eq] at hrun hitems
      refine ⟨c₂, es₂, ?_, hrep, hitems, fun hmono hst => ?_⟩
      · have htotal := hsim.represents.total_eq
        rw [hsim.items_eq] at htotal
        simp only [runOps, hsim.run_eq, bind, Except.bind, hrun, pure, Except.pure,
          Reference.runOps, ← hsim.answer_eq, htotal]
      · rcases hsim.stamped hmono hst with ⟨hmono₁, hst₁⟩
        exact hstamped hmono₁ hst₁

/-- The keyed data met on the way from `header` to `tailer`, node by node. -/
def Holds (c : Cache) (nodes : List Addr) (items : List (Bytes × Bytes)) : Prop :=
  c.links.Chain (header :: nodes ++ [tailer]) ∧ (header :: nodes ++ [tailer]).Nodup ∧
    nodes.map (fun a => (c.nodes a).map fun n => (n.identifier, n.data)) = items.map some

theorem Represents.holds {c : Cache} {es : List Entry} (h : Represents c es) :
    c.Holds (es.map Entry.addr) (es.map Entry.item) := by
  refine ⟨h.chain, h.nodup, ?_⟩
  rw [List.map_map, List.map_map]
  apply List.map_congr_left
  intro e he
  rcases h.node he with ⟨n, hn, hid, hdata, -⟩
  simp [hn, hid, hdata, Entry.item]

/-- From a fresh cache, every sequence of calls returns, answers and occupancies are those of
the reference list, and the nodes between the sentinels hold that list. Under a clock that
never goes back the time stamps do not decrease from `header` on. -/
theorem cache_refines_lru (capacity : UInt64) (clock : ℕ → ℕ) (ops : List Op) :
    ∃ c nodes,
      runOps ops (new capacity clock) =
        .ok ((Reference.runOps capacity.toNat ops []).1, c) ∧
      c.Holds nodes (Reference.runOps capacity.toNat ops []).2 ∧
      (Monotone clock →
        ((header :: nodes).map fun a => (c.nodes a).map CacheNode.lastAccess).Pairwise
          fun s t => ∃ m n, s = some m ∧ t = some n ∧ m ≤ n) := by
  rcases runOps_simulates ops (represents_new capacity clock) with
    ⟨c, es, hrun, hrep, hitems, hstamped⟩
  refine ⟨c, es.map Entry.addr, hrun, ?_, ?_⟩
  · have hholds := hrep.holds
    rw [hitems] at hholds
    exact hholds
  · intro hmono
    have hst : Stamped (new capacity clock) [] := by
      refine ⟨by simp, by simp, by simp, ?_⟩
      intro n hn
      simp only [new, ite_true, Option.some.injEq] at hn
      subst hn
      exact hmono (Nat.zero_le _)
    have hst' := hstamped (fun m n hmn => hmono (Nat.add_le_add_right hmn 2)) hst
    have htimes : (es.map Entry.addr).map (fun a => (c.nodes a).map CacheNode.lastAccess) =
        es.map fun e => some e.time := by
      rw [List.map_map]
      apply List.map_congr_left
      intro e he
      rcases hrep.node he with ⟨n, hn, -, -, htime⟩
      simp [hn, htime]
    rcases Option.isSome_iff_exists.mp hrep.sentinels.1 with ⟨n, hn⟩
    rw [List.map_cons, htimes, List.pairwise_cons]
    constructor
    · intro t ht
      rcases List.mem_map.mp ht with ⟨e, he, rfl⟩
      exact ⟨n.lastAccess, e.time, by simp [hn], rfl, hst'.first e he n hn⟩
    · rw [List.pairwise_map]
      exact (List.pairwise_map.mp hst'.sorted).imp fun hle => ⟨_, _, rfl, rfl, hle⟩

end FalconLink.Cache
