import Sql602.ExtIndex.NodeAllocation

namespace Sql602.ExtIndex

open Run

/-! Runs of allocations, releases and openings of the file. -/

section Releasing

variable {inUse freed : List Nat} {index : IndexFile} {number : Nat} {failed : Option Pool}

/-- A release does not have to read a pool. -/
def IndexFile.HasRoom (index : IndexFile) : Prop :=
  index.nodeCache.length ≠ CB_NODE_CACHE_SIZE ∨
    ∃ number ∈ index.nodeCache, index.loadedPool = some (number / poolNodes)

/-- The pools of the nodes in the cache are in the file. -/
def IndexFile.CacheIn (index : IndexFile) : Prop :=
  ∀ number ∈ index.nodeCache, index.file.containsPool (number / poolNodes) = true

/-- Saving moves nodes from the cache, and the file keeps its size. -/
structure SavedFrom (index next : IndexFile) : Prop where
  blockCount : next.blockCount = index.blockCount
  blocks : next.file.blocks = index.file.blocks
  cache : ∀ number ∈ next.nodeCache, number ∈ index.nodeCache

theorem SavedFrom.refl (index : IndexFile) : SavedFrom index index := ⟨rfl, rfl, fun _ h => h⟩

theorem SavedTo.from {next : IndexFile} {poolNumber : Nat}
    (hsaved : SavedTo index next poolNumber) : SavedFrom index next :=
  ⟨hsaved.blockCount, hsaved.blocks, fun number hmem => ((hsaved.cache number).mp hmem).1⟩

theorem SavedFrom.cacheIn {next : IndexFile} (hsaved : SavedFrom index next)
    (hin : index.CacheIn) : next.CacheIn := by
  intro number hmem
  rw [PoolFile.containsPool, hsaved.blocks]
  exact hin number (hsaved.cache number hmem)

theorem SavedFrom.trans {next last : IndexFile} (hnext : SavedFrom index next)
    (hlast : SavedFrom next last) : SavedFrom index last :=
  ⟨hlast.blockCount.trans hnext.blockCount, hlast.blocks.trans hnext.blocks,
    fun number hmem => hnext.cache number (hlast.cache number hmem)⟩

theorem firstPool_mem (hcache : index.nodeCache ≠ []) :
    ∃ number ∈ index.nodeCache, number / poolNodes = index.firstPool := by
  refine ⟨index.nodeCache.getLast hcache, List.getLast_mem hcache, ?_⟩
  rw [IndexFile.firstPool, List.getLastD_eq_getLast?, List.getLast?_eq_some_getLast hcache,
    Option.getD_some]

/-- The first node of the cache goes to its pool, with the others of the pool. -/
theorem saveFirst_spec (hsound : Sound inUse freed index) (hin : index.CacheIn)
    (hcache : index.nodeCache ≠ []) :
    index.file.containsPool index.firstPool = true ∧
      Sound inUse freed (index.readPool index.firstPool).saveToCurrentPool ∧
      SavedTo index (index.readPool index.firstPool).saveToCurrentPool index.firstPool := by
  obtain ⟨first, hmem, hpool⟩ := firstPool_mem hcache
  have hcontained := hin first hmem
  rw [hpool] at hcontained
  have hsaved : SavedTo (index.readPool index.firstPool)
      (index.readPool index.firstPool).saveToCurrentPool index.firstPool :=
    saveToCurrentPool_spec rfl hcontained rfl
  exact ⟨hcontained, (hsound.read hcontained).save hcontained hsaved,
    ⟨hsaved.loaded, hsaved.blockCount, hsaved.blocks, hsaved.cache, hsaved.sublist, hsaved.pool,
      hsaved.others, hsaved.bits⟩⟩

theorem saveLoaded_spec (hsound : Sound inUse freed index) :
    ∃ saved, (if index.loadedPool.isSome then index.saveToCurrentPool else index) = saved ∧
      Sound inUse freed saved ∧ SavedFrom index saved ∧
      (saved.nodeCache.length = index.nodeCache.length →
        ∀ number ∈ index.nodeCache, index.loadedPool ≠ some (number / poolNodes)) := by
  cases hloaded : index.loadedPool with
  | none => exact ⟨index, rfl, hsound, SavedFrom.refl index, fun _ _ _ hsome => by cases hsome⟩
  | some poolNumber =>
      obtain ⟨hin, hpool⟩ := hsound.loaded poolNumber hloaded
      have hsaved := saveToCurrentPool_spec hloaded hin hpool
      refine ⟨index.saveToCurrentPool, rfl, hsound.save hin hsaved, hsaved.from, ?_⟩
      intro hlength number hmem hsame
      have hall := hsaved.sublist.eq_of_length hlength
      rw [← hall] at hmem
      exact ((hsaved.cache number).mp hmem).2 (Option.some.inj hsame).symm

theorem freeCbnode_spec (hsound : Sound inUse freed index) (hnodup : inUse.Nodup)
    (hnode : IsNode number) (hmem : number ∈ inUse) (hinside : number + 1 < index.blockCount)
    (hin : index.CacheIn) (hread : failed ≠ none → index.HasRoom) :
    ∃ next, index.freeCbnode number failed = next.push number ∧ SavedFrom index next ∧
      Sound (inUse.erase number) (number :: freed) (next.push number) := by
  have hpushed : ∀ next, SavedFrom index next → Sound inUse freed next →
      next.push number = next.push number ∧ SavedFrom index next ∧
        Sound (inUse.erase number) (number :: freed) (next.push number) :=
    fun next hfrom hnext => ⟨rfl, hfrom, hnext.push hnodup hnode hmem⟩
  obtain ⟨saved, heq, hsaved, hfrom, hkept⟩ := saveLoaded_spec hsound
  simp only [IndexFile.freeCbnode, if_neg (Nat.not_le.mpr hinside), heq]
  split
  case isFalse => exact ⟨index, hpushed index (SavedFrom.refl index) hsound⟩
  case isTrue hfull =>
    split
    case isFalse => exact ⟨saved, hpushed saved hfrom hsaved⟩
    case isTrue hstill =>
      have hcache : saved.nodeCache ≠ [] := by
        intro hnil
        rw [hnil] at hstill
        cases hstill
      obtain ⟨hcontained, hfirst, hsavedFirst⟩ :=
        saveFirst_spec hsaved (hfrom.cacheIn hin) hcache
      have hnone : failed.isNone = true := by
        cases failed with
        | none => rfl
        | some other =>
            have hroom := hread (Option.some_ne_none other)
            cases hroom with
            | inl hlength => exact absurd hfull hlength
            | inr hmine =>
                obtain ⟨mine, hmine, hloaded⟩ := hmine
                exact absurd hloaded (hkept (hstill.trans hfull.symm) mine hmine)
      simp only [hnone, hcontained, Bool.and_self, if_true]
      exact ⟨_, hpushed _ (hfrom.trans hsavedFirst.from) hfirst⟩

theorem emptyCache_spec {fuel : Nat} (hsound : Sound inUse freed index) (hin : index.CacheIn)
    (hfuel : index.nodeCache.length ≤ fuel) :
    Sound inUse freed (index.emptyCache fuel) ∧ SavedFrom index (index.emptyCache fuel) ∧
      (index.emptyCache fuel).nodeCache = [] := by
  induction fuel generalizing index with
  | zero => exact ⟨hsound, SavedFrom.refl index, List.length_eq_zero_iff.mp (Nat.le_zero.mp hfuel)⟩
  | succ fuel ih =>
      simp only [IndexFile.emptyCache]
      split
      case isTrue hempty =>
        exact ⟨hsound, SavedFrom.refl index, List.isEmpty_iff.mp hempty⟩
      case isFalse hcache =>
        rw [List.isEmpty_iff] at hcache
        obtain ⟨hcontained, hfirst, hsaved⟩ := saveFirst_spec hsound hin hcache
        simp only [hcontained, if_true]
        have hless : (index.readPool index.firstPool).saveToCurrentPool.nodeCache.length ≤ fuel := by
          apply Nat.le_of_lt_succ
          apply Nat.lt_of_lt_of_le _ hfuel
          apply Nat.lt_of_le_of_ne hsaved.sublist.length_le
          intro hsame
          obtain ⟨first, hmem, hpool⟩ := firstPool_mem hcache
          rw [← hsaved.sublist.eq_of_length hsame] at hmem
          exact ((hsaved.cache first).mp hmem).2 hpool
        obtain ⟨hrest, hfrom, hnil⟩ := ih hfirst (hsaved.from.cacheIn hin) hless
        exact ⟨hrest, hsaved.from.trans hfrom, hnil⟩

theorem reopen_spec (hsound : Sound inUse freed index) (hin : index.CacheIn) :
    Sound inUse freed index.reopen ∧ index.reopen.nodeCache = [] ∧
      index.reopen.loadedPool = none ∧ index.reopen.file.blocks = index.file.blocks ∧
      index.reopen.blockCount = index.reopen.file.blocks := by
  obtain ⟨hclosed, hfrom, hempty⟩ := emptyCache_spec hsound hin (Nat.le_refl _)
  refine ⟨?_, rfl, rfl, hfrom.blocks, rfl⟩
  constructor
  case loaded => exact fun _ hsome => by cases hsome
  case bits =>
    intro poolNumber bit hbit hfree
    obtain ⟨hnode, huse, -⟩ := hclosed.bits poolNumber bit hbit hfree
    exact ⟨hnode, huse, List.not_mem_nil⟩
  case nodup => exact List.nodup_nil
  case cached => exact fun _ hmem => by cases hmem
  case kept =>
    intro other hfreed
    cases hclosed.kept other hfreed with
    | inl hcached =>
        rw [hempty] at hcached
        cases hcached
    | inr hfree => exact Or.inr hfree

end Releasing

section Creation

theorem Sound.mono {inUse freed used kept : List Nat} {index : IndexFile}
    (hsound : Sound inUse freed index) (hused : ∀ number ∈ used, number ∈ inUse)
    (hkept : ∀ number ∈ kept, number ∈ freed) : Sound used kept index where
  loaded := hsound.loaded
  bits := by
    intro poolNumber bit hbit hfree
    obtain ⟨hnode, huse, hcached⟩ := hsound.bits poolNumber bit hbit hfree
    exact ⟨hnode, fun hmem => huse (hused _ hmem), hcached⟩
  nodup := hsound.nodup
  cached := by
    intro number hmem
    obtain ⟨hnode, huse⟩ := hsound.cached number hmem
    exact ⟨hnode, fun hmem => huse (hused number hmem)⟩
  kept := fun number hmem => hsound.kept number (hkept number hmem)

/-- The node that was allocated for the creation of the first pool may be lost. -/
theorem freeFirst_spec {index : IndexFile} {number : Nat} (hsound : Sound [number] [] index)
    (hnode : IsNode number) (hin : index.CacheIn)
    (hfirst : index.file.containsPool (number / poolNodes) = true) :
    Sound [] [] (index.freeCbnode number none) ∧ (index.freeCbnode number none).CacheIn ∧
      (index.freeCbnode number none).file.blocks = index.file.blocks := by
  rcases Nat.lt_or_ge (number + 1) index.blockCount with hinside | hbehind
  · obtain ⟨next, heq, hfrom, hpushed⟩ := freeCbnode_spec hsound (List.nodup_singleton number) hnode
      List.mem_cons_self hinside hin (fun hsome => absurd rfl hsome)
    rw [heq]
    refine ⟨hpushed.mono (by simp) (by simp), ?_, hfrom.blocks⟩
    intro other hother
    have hblocks : (next.push number).file.blocks = index.file.blocks := hfrom.blocks
    rw [PoolFile.containsPool, hblocks]
    cases List.mem_cons.mp hother with
    | inl hsame =>
        rw [hsame]
        exact hfirst
    | inr hcached => exact hin other (hfrom.cache other hcached)
  · rw [IndexFile.freeCbnode, if_pos hbehind]
    exact ⟨hsound.mono (by simp) (by simp), hin, rfl⟩

theorem initExtFtIndex_spec {index : IndexFile} (hsound : Sound [] [] index)
    (hempty : index.nodeCache = []) :
    Sound [] [] index.initExtFtIndex ∧ index.initExtFtIndex.CacheIn := by
  have husable : Usable (fun _ => false) [] index.file :=
    ⟨fun _ hmem => (by cases hmem), fun _ hfalse => (by cases hfalse)⟩
  obtain ⟨number, next, halloc, hallocated⟩ := allocCbnode_spec hsound husable
  have hcontained := hallocated.contained fun other hother => by
    rw [hempty] at hother
    cases hother
  obtain ⟨hfreed, hin, -⟩ := freeFirst_spec hallocated.sound hallocated.node
    (fun other hother => hcontained other (List.mem_cons_of_mem number hother))
    (hcontained number List.mem_cons_self)
  simp only [IndexFile.initExtFtIndex, halloc]
  constructor
  · apply hfreed.resize
    intro poolNumber hloaded
    have hpool := (hfreed.loaded poolNumber hloaded).1
    exact Nat.le_trans (of_decide_eq_true hpool) (Nat.le_max_left ..)
  · intro other hother
    have hpool := hin other hother
    exact decide_eq_true (Nat.le_trans (of_decide_eq_true hpool) (Nat.le_max_left ..))

theorem initExtFtIndex_reopen {index : IndexFile} (hsound : Sound [] [] index)
    (hempty : index.nodeCache = []) :
    Sound [] [] index.initExtFtIndex.reopen ∧ index.initExtFtIndex.reopen.nodeCache = [] ∧
      index.initExtFtIndex.reopen.blockCount = index.initExtFtIndex.reopen.file.blocks := by
  obtain ⟨hinit, hin⟩ := initExtFtIndex_spec hsound hempty
  obtain ⟨hopened, hcache, -, -, hcount⟩ := reopen_spec hinit hin
  exact ⟨hopened, hcache, hcount⟩

theorem create_spec (blockCount : Nat) :
    Sound [] [] (IndexFile.create blockCount) ∧ (IndexFile.create blockCount).nodeCache = [] ∧
      (IndexFile.create blockCount).blockCount = (IndexFile.create blockCount).file.blocks := by
  have hnew : Sound [] [] ⟨⟨0, fun _ _ => false⟩, blockCount, fun _ => false, none, 0, []⟩ :=
    ⟨fun _ hnone => (by cases hnone), fun _ _ _ hclear => (by cases hclear), List.nodup_nil,
      fun _ hmem => (by cases hmem), fun _ hmem => (by cases hmem)⟩
  unfold IndexFile.create
  exact initExtFtIndex_reopen hnew rfl

end Creation

section Runs

/-- No read of a pool with a node in use fails in an allocation, and none fails in a
release; and an allocation with an empty cache that goes behind all the free nodes from
the loaded pool on leaves none in the pools before it. -/
def NodesReadable (state : NodeState) : NodeOp → Prop
  | .alloc fails =>
      (∀ poolNumber, fails poolNumber = true →
        ∀ number ∈ state.inUse, number / poolNodes ≠ poolNumber) ∧
      (state.index.nodeCache = [] → ∀ first, state.index.loadedPool = some first →
        ∀ poolNumber < first, state.index.file.HasFree poolNumber →
          ∃ other, first ≤ other ∧ state.index.file.containsPool other = true ∧
            (state.index.file.HasFree other ∨ first < other ∧ fails other = true))
  | .free _ failed => failed ≠ none → state.index.HasRoom
  | .reopen => True

/-- No node is in use twice, none of them is a pool, a root or the counter, and the file
has not been extended by a pool while a freed node was not returned. -/
structure NodesRight (state : NodeState) : Prop where
  once : state.inUse.Nodup
  nodes : ∀ number ∈ state.inUse, IsNode number
  passed : state.passed = []

structure NodeInv (state : NodeState) : Prop where
  sound : Sound state.inUse state.freed state.index
  count : state.index.blockCount = state.index.file.blocks
  inUse : ∀ number ∈ state.inUse, IsNode number ∧ number + 1 < state.index.file.blocks
  cache : ∀ number ∈ state.index.nodeCache, number + 1 < state.index.file.blocks
  freed : ∀ number ∈ state.freed, IsNode number ∧ number + 1 < state.index.file.blocks
  right : NodesRight state

variable {state : NodeState}

theorem NodeInv.start (blockCount : Nat) : NodeInv (NodeState.start blockCount) := by
  obtain ⟨hsound, hcache, hcount⟩ := create_spec blockCount
  constructor
  case sound => exact hsound
  case count => exact hcount
  case inUse => simp [NodeState.start]
  case cache =>
    intro number hmem
    simp only [NodeState.start] at hmem
    rw [hcache] at hmem
    cases hmem
  case freed => simp [NodeState.start]
  case right => exact ⟨List.nodup_nil, by simp [NodeState.start], rfl⟩

theorem NodeInv.cacheIn (hinv : NodeInv state) : state.index.CacheIn :=
  fun number hmem => containsPool_of_number (hinv.sound.cached number hmem).1 (hinv.cache number hmem)

/-- A new pool is the last resort. -/
theorem NodeInv.freed_of_extended {fails : Nat → Bool} {next : IndexFile} {number : Nat}
    (hinv : NodeInv state) (hreadable : NodesReadable state (.alloc fails))
    (hallocated : Allocated fails state.inUse state.freed state.index next number)
    (hextended : extendedBy state.index next = true) : state.freed = [] := by
  obtain ⟨hempty, hloadedFull, hscanned⟩ := hallocated.extended hextended
  apply List.eq_nil_iff_forall_not_mem.mpr
  intro node hmem
  obtain ⟨hnode, hin⟩ := hinv.freed node hmem
  have hcontained := containsPool_of_number hnode hin
  have hfree : state.index.file.HasFree (node / poolNodes) := by
    cases hinv.sound.kept node hmem with
    | inl hcached =>
        rw [hempty] at hcached
        cases hcached
    | inr hbit => exact ⟨node % poolNodes, mod_lt_poolNodes node, hbit⟩
  cases hloaded : state.index.loadedPool with
  | none =>
      have hfirst : state.index.nextPool = 0 := by rw [IndexFile.nextPool, hloaded]
      exact (hscanned _ (by rw [hfirst]; exact Nat.zero_le _) hcontained).2 hfree
  | some first =>
      have hnext : state.index.nextPool = first + 1 := by rw [IndexFile.nextPool, hloaded]
      rw [hnext] at hscanned
      rcases Nat.lt_trichotomy (node / poolNodes) first with hbefore | hsame | hbehind
      · obtain ⟨other, hother, hotherIn, hcause⟩ :=
          hreadable.2 hempty first hloaded _ hbefore hfree
        cases hcause with
        | inr hfailed =>
            have hread := (hscanned other hfailed.1 hotherIn).1
            rw [hfailed.2] at hread
            cases hread
        | inl hotherFree =>
            obtain rfl | hlater := Nat.eq_or_lt_of_le hother
            · exact hloadedFull first hloaded hotherFree
            · exact (hscanned other hlater hotherIn).2 hotherFree
      · rw [hsame] at hfree
        exact hloadedFull first hloaded hfree
      · exact (hscanned _ hbehind hcontained).2 hfree

theorem NodeInv.alloc {fails : Nat → Bool} (hinv : NodeInv state)
    (hreadable : NodesReadable state (.alloc fails)) :
    NodeInv (nodeStep state (.alloc fails)) := by
  obtain ⟨number, next, halloc, hallocated⟩ :=
    allocCbnode_spec hinv.sound ⟨hinv.inUse, hreadable.1⟩
  obtain ⟨hcount, hgrown, hin⟩ := hallocated.blocks hinv.count hinv.cache
  simp only [nodeStep, halloc]
  have hwider : ∀ {node}, node + 1 < state.index.file.blocks → node + 1 < next.file.blocks :=
    fun hnode => Nat.lt_of_lt_of_le hnode hgrown
  constructor
  case sound => exact hallocated.sound
  case count => exact hcount
  case inUse =>
    intro node hmem
    cases List.mem_cons.mp hmem with
    | inl hsame =>
        rw [hsame]
        exact ⟨hallocated.node, hin number List.mem_cons_self⟩
    | inr hold =>
        obtain ⟨hnode, hinside⟩ := hinv.inUse node hold
        exact ⟨hnode, hwider hinside⟩
  case cache => exact fun node hmem => hin node (List.mem_cons_of_mem number hmem)
  case freed =>
    intro node hmem
    obtain ⟨hnode, hinside⟩ := hinv.freed node (List.mem_filter.mp hmem).1
    exact ⟨hnode, hwider hinside⟩
  case right =>
    constructor
    case once => exact List.nodup_cons.mpr ⟨hallocated.unused, hinv.right.once⟩
    case nodes =>
      intro node hmem
      cases List.mem_cons.mp hmem with
      | inl hsame =>
          rw [hsame]
          exact hallocated.node
      | inr hold => exact hinv.right.nodes node hold
    case passed =>
      dsimp only
      split
      case isFalse => exact hinv.right.passed
      case isTrue hextended =>
        rw [hinv.freed_of_extended hreadable hallocated hextended, hinv.right.passed]
        rfl

theorem NodeInv.free {number : Nat} {failed : Option Pool} (hinv : NodeInv state)
    (hreadable : NodesReadable state (.free number failed)) :
    NodeInv (nodeStep state (.free number failed)) := by
  simp only [nodeStep]
  split
  case isFalse => exact hinv
  case isTrue hmem =>
    obtain ⟨hnode, hinside⟩ := hinv.inUse number hmem
    have hinside' : number + 1 < state.index.blockCount := by
      rw [hinv.count]
      exact hinside
    obtain ⟨next, heq, hfrom, hsound⟩ := freeCbnode_spec hinv.sound hinv.right.once hnode hmem
      hinside' hinv.cacheIn hreadable
    rw [heq]
    have hblocks : (next.push number).file.blocks = state.index.file.blocks := hfrom.blocks
    have hleft : ∀ node ∈ state.inUse.erase number, node ∈ state.inUse :=
      fun node hmem => List.mem_of_mem_erase hmem
    constructor
    case sound => exact hsound
    case count => exact hfrom.blockCount.trans (hinv.count.trans hfrom.blocks.symm)
    case inUse =>
      intro node hnode
      dsimp only
      rw [hblocks]
      exact hinv.inUse node (hleft node hnode)
    case cache =>
      intro node hcached
      dsimp only
      rw [hblocks]
      cases List.mem_cons.mp hcached with
      | inl hsame =>
          rw [hsame]
          exact hinside
      | inr hold => exact hinv.cache node (hfrom.cache node hold)
    case freed =>
      intro node hfreed
      dsimp only
      rw [hblocks]
      cases List.mem_cons.mp hfreed with
      | inl hsame =>
          rw [hsame]
          exact ⟨hnode, hinside⟩
      | inr hold => exact hinv.freed node hold
    case right =>
      exact ⟨hinv.right.once.erase number,
        fun node hnode => hinv.right.nodes node (hleft node hnode), hinv.right.passed⟩

theorem NodeInv.reopen (hinv : NodeInv state) : NodeInv (nodeStep state .reopen) := by
  obtain ⟨hsound, hcache, -, hblocks, hcount⟩ := reopen_spec hinv.sound hinv.cacheIn
  constructor
  case sound => exact hsound
  case count => exact hcount
  case inUse =>
    simp only [nodeStep]
    rw [hblocks]
    exact hinv.inUse
  case cache =>
    simp only [nodeStep]
    rw [hcache]
    intro node hmem
    cases hmem
  case freed =>
    simp only [nodeStep]
    rw [hblocks]
    exact hinv.freed
  case right => exact ⟨hinv.right.once, hinv.right.nodes, hinv.right.passed⟩

theorem nodes_right (blockCount : Nat) (ops : List NodeOp)
    (hreadable : Meets nodeStep NodesReadable (NodeState.start blockCount) ops) :
    Always nodeStep NodesRight (NodeState.start blockCount) ops := by
  refine always_of_invariant NodeInv (fun _ hinv => hinv.right) ?_ (NodeInv.start blockCount)
    hreadable
  intro state op hinv hop
  cases op with
  | alloc fails => exact hinv.alloc hop
  | free number failed => exact hinv.free hop
  | reopen => exact hinv.reopen

/-- A node is allocated, freed and allocated again after an opening of the file. -/
theorem nodes_right_reopened :
    Always nodeStep NodesRight (NodeState.start 0)
      [.alloc fun _ => false, .free 39 none, .reopen, .alloc fun _ => false] := by
  have hloaded : (run nodeStep (NodeState.start 0)
      [.alloc fun _ => false, .free 39 none, .reopen]).index.loadedPool = none := by
    decide +kernel
  have hstart : (NodeState.start 0).index.loadedPool = none := by decide +kernel
  refine nodes_right 0 _ ⟨⟨?_, ?_⟩, ?_, trivial, ⟨?_, ?_⟩, trivial⟩
  · intro _ hfalse
    cases hfalse
  · intro _ first hfirst
    rw [hstart] at hfirst
    cases hfirst
  · intro hsome
    exact absurd rfl hsome
  · intro _ hfalse
    cases hfalse
  · intro _ first hfirst
    exact absurd (hfirst.symm.trans hloaded) (Option.some_ne_none first)

/-- A failed read of the first pool makes all its nodes free. -/
theorem not_always_nodes_right :
    ¬ ∀ blockCount ops, Always nodeStep NodesRight (NodeState.start blockCount) ops := by
  intro hall
  have hright := (hall 0 [.alloc fun _ => false, .reopen, .alloc fun _ => true]).last
  have hinUse : (run nodeStep (NodeState.start 0)
      [.alloc fun _ => false, .reopen, .alloc fun _ => true]).inUse = [39, 39] := by
    decide +kernel
  have honce := hright.once
  rw [hinUse] at honce
  exact absurd honce (by decide)

end Runs

end Sql602.ExtIndex
