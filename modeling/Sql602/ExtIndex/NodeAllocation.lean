import Mathlib.Data.List.Nodup
import Sql602.ExtIndex.NodePools

namespace Sql602.ExtIndex

open Run

/-! Nodes move between the users, the cache and the free bits of the pools. -/

theorem poolWords_eq : poolWords = 1024 := rfl

theorem poolNodes_eq : poolNodes = 32768 := rfl

section Filling

variable {base word bit start fuel : Nat} {filling next last : Filling} {taken more : List Nat}

/-- The bits that have been taken from the pool to the cache, the last one first. -/
structure Taken (base : Nat) (filling next : Filling) (taken : List Nat) : Prop where
  cache : next.nodeCache = taken.map (base + ·) ++ filling.nodeCache
  nodup : taken.Nodup
  free : ∀ bit ∈ taken, bit < poolNodes ∧ filling.pool bit = true
  pool : ∀ bit, next.pool bit = (filling.pool bit && !decide (bit ∈ taken))
  grown : filling.maxAlloc ≤ next.maxAlloc
  top : ∀ bit ∈ taken, base + bit ≤ next.maxAlloc
  any : next.anyAllocation = (filling.anyAllocation || !taken.isEmpty)

theorem Taken.refl (filling : Filling) : Taken base filling filling [] where
  cache := rfl
  nodup := List.nodup_nil
  free := fun _ hmem => by cases hmem
  pool := by simp
  grown := Nat.le_refl _
  top := fun _ hmem => by cases hmem
  any := by simp

theorem Taken.trans (hnext : Taken base filling next taken) (hlast : Taken base next last more) :
    Taken base filling last (more ++ taken) where
  cache := by rw [hlast.cache, hnext.cache, List.map_append, List.append_assoc]
  nodup := by
    apply List.Nodup.append hlast.nodup hnext.nodup
    intro bit hmore htaken
    have hfree := (hlast.free bit hmore).2
    rw [hnext.pool, decide_eq_true htaken, Bool.not_true, Bool.and_false] at hfree
    cases hfree
  free := by
    intro bit hmem
    cases List.mem_append.mp hmem with
    | inl hmore =>
        obtain ⟨hlt, hfree⟩ := hlast.free bit hmore
        rw [hnext.pool, Bool.and_eq_true] at hfree
        exact ⟨hlt, hfree.1⟩
    | inr htaken => exact hnext.free bit htaken
  pool := by
    intro bit
    rw [hlast.pool, hnext.pool, Bool.and_assoc]
    congr 1
    simp only [List.mem_append, Bool.decide_or, Bool.not_or]
    rw [Bool.and_comm]
  grown := Nat.le_trans hnext.grown hlast.grown
  top := by
    intro bit hmem
    cases List.mem_append.mp hmem with
    | inl hmore => exact hlast.top bit hmore
    | inr htaken => exact Nat.le_trans (hnext.top bit htaken) hlast.grown
  any := by
    rw [hlast.any, hnext.any, Bool.or_assoc]
    cases more <;> cases taken <;> rfl

theorem takeBit_taken (hbit : bit < poolNodes) (hfree : filling.pool bit = true) :
    Taken base filling (takeBit base bit filling) [bit] := by
  simp only [takeBit, hfree, if_true]
  constructor
  case cache => rfl
  case nodup => exact List.nodup_singleton bit
  case free =>
    intro other hmem
    rw [List.mem_singleton.mp hmem]
    exact ⟨hbit, hfree⟩
  case pool =>
    intro other
    simp only [Function.update_apply, List.mem_singleton]
    cases decEq other bit with
    | isTrue hsame => simp [hsame]
    | isFalse hne => simp [hne]
  case grown =>
    dsimp only
    split <;> omega
  case top =>
    intro other hmem
    rw [List.mem_singleton.mp hmem]
    dsimp only
    split <;> omega
  case any => simp

theorem takeBit_of_used (hused : filling.pool bit = false) : takeBit base bit filling = filling := by
  simp only [takeBit, hused, Bool.false_eq_true, if_false]

/-- The nodes of a word go to the cache as long as there is room. -/
theorem fillWord_taken (hword : word < poolWords) (hfuel : bit + fuel ≤ 32) :
    ∃ taken, Taken base filling (fillWord base word fuel bit filling) taken ∧
      (taken = [] → filling.nodeCache.length < CB_NODE_CACHE_SIZE - 5 →
        ∀ other, bit ≤ other → other < bit + fuel →
          filling.pool (32 * word + other) = false) := by
  induction fuel generalizing bit filling with
  | zero =>
      refine ⟨[], Taken.refl filling, ?_⟩
      intro _ _ other hlow hhigh
      omega
  | succ fuel ih =>
      simp only [fillWord]
      split
      case isFalse hfull =>
        refine ⟨[], Taken.refl filling, ?_⟩
        intro _ hroom
        exact absurd hroom hfull
      case isTrue =>
        cases hfree : filling.pool (32 * word + bit) with
        | false =>
            rw [takeBit_of_used hfree]
            obtain ⟨taken, htaken, hclear⟩ := @ih (bit + 1) filling (by omega)
            refine ⟨taken, htaken, ?_⟩
            intro hnone hroom other hlow hhigh
            obtain rfl | hlow := Nat.eq_or_lt_of_le hlow
            · exact hfree
            · exact hclear hnone hroom other hlow (by omega)
        | true =>
            have hlt : 32 * word + bit < poolNodes := by
              rw [poolWords_eq] at hword
              rw [poolNodes_eq]
              omega
            obtain ⟨taken, htaken, -⟩ :=
              @ih (bit + 1) (takeBit base (32 * word + bit) filling) (by omega)
            refine ⟨taken ++ [32 * word + bit], (takeBit_taken hlt hfree).trans htaken, ?_⟩
            intro hnone
            simp at hnone

theorem nextWord_eq (hword : word < poolWords) : nextWord word = (word + 1) % poolWords := by
  simp only [nextWord]
  split
  case isTrue hlast =>
    have hend : word + 1 = poolWords := Nat.le_antisymm hword hlast
    rw [hend, Nat.mod_self]
  case isFalse hlast => rw [Nat.mod_eq_of_lt (Nat.lt_of_not_le hlast)]

theorem wordFree_false (hused : wordFree filling.pool word = false) (hbit : bit < 32) :
    filling.pool (32 * word + bit) = false := by
  simp only [wordFree, List.any_eq_false, List.mem_range] at hused
  exact Bool.eq_false_iff.mpr (hused bit hbit)

/-- The cycle visits all the words, unless the cache is full before. -/
theorem fillPool_taken (hfuel : fuel ≤ poolWords) (hword : word < poolWords)
    (hstart : (word + fuel) % poolWords = start) :
    ∃ taken, Taken base filling (fillPool base start fuel word filling).2 taken ∧
      (taken = [] → filling.nodeCache.length < CB_NODE_CACHE_SIZE - 5 →
        ∀ j < fuel, ∀ bit < 32, filling.pool (32 * ((word + j) % poolWords) + bit) = false) := by
  induction fuel generalizing word filling with
  | zero =>
      refine ⟨[], Taken.refl filling, ?_⟩
      intro _ _ j hj
      exact absurd hj (Nat.not_lt_zero j)
  | succ fuel ih =>
      have hfirst : ∃ taken, Taken base filling
          (if wordFree filling.pool word then fillWord base word 32 0 filling else filling) taken ∧
          (taken = [] → filling.nodeCache.length < CB_NODE_CACHE_SIZE - 5 →
            ∀ bit < 32, filling.pool (32 * word + bit) = false) := by
        split
        case isTrue =>
          obtain ⟨taken, htaken, hclear⟩ :=
            @fillWord_taken base word 0 32 filling hword (by omega)
          exact ⟨taken, htaken, fun hnone hroom bit hbit =>
            hclear hnone hroom bit (Nat.zero_le bit) (by omega)⟩
        case isFalse hused =>
          exact ⟨[], Taken.refl filling, fun _ _ bit hbit =>
            wordFree_false (Bool.eq_false_iff.mpr hused) hbit⟩
      obtain ⟨taken, htaken, hclear⟩ := hfirst
      have hmod : word % poolWords = word := Nat.mod_eq_of_lt hword
      simp only [fillPool]
      generalize (if wordFree filling.pool word then fillWord base word 32 0 filling
        else filling) = filled at htaken
      split
      case isTrue hfull =>
        refine ⟨taken, htaken, ?_⟩
        intro hnone hroom
        simp only [Bool.and_eq_true, decide_eq_true_eq] at hfull
        have hlength := congrArg List.length htaken.cache
        rw [hnone, List.map_nil, List.nil_append] at hlength
        omega
      case isFalse =>
        split
        case isTrue hend =>
          refine ⟨taken, htaken, ?_⟩
          intro hnone hroom j hj bit hbit
          have hzero : j = 0 := by
            rw [nextWord_eq hword, ← hstart] at hend
            rw [poolWords_eq] at hend hfuel
            omega
          rw [hzero, Nat.add_zero, hmod]
          exact hclear hnone hroom bit hbit
        case isFalse =>
          have hnext : nextWord word < poolWords := by
            rw [nextWord_eq hword]
            exact Nat.mod_lt _ (by decide)
          have hsame : (nextWord word + fuel) % poolWords = start := by
            rw [nextWord_eq hword, Nat.mod_add_mod, ← hstart]
            congr 1
            omega
          obtain ⟨more, hmore, hrest⟩ := @ih (nextWord word) filled (by omega) hnext hsame
          refine ⟨more ++ taken, htaken.trans hmore, ?_⟩
          intro hnone hroom j hj bit hbit
          obtain ⟨hmoreNil, htakenNil⟩ := List.append_eq_nil_iff.mp hnone
          cases j with
          | zero =>
              rw [Nat.add_zero, hmod]
              exact hclear htakenNil hroom bit hbit
          | succ j =>
              have hlength : filled.nodeCache.length = filling.nodeCache.length := by
                rw [htaken.cache, htakenNil, List.map_nil, List.nil_append]
              have hpool := htaken.pool
              rw [htakenNil] at hpool
              have hword' : (word + (j + 1)) % poolWords = (nextWord word + j) % poolWords := by
                rw [nextWord_eq hword, Nat.mod_add_mod]
                congr 1
                omega
              rw [hword']
              have hused := hrest hmoreNil (by omega) j (by omega) bit hbit
              simpa using (hpool _).symm.trans hused

/-- A cycle through the whole pool takes a node if there is a free one. -/
theorem fillPool_whole (hstart : start < poolWords) (hempty : filling.nodeCache = []) :
    ∃ taken, Taken base filling (fillPool base start poolWords start filling).2 taken ∧
      (taken = [] → ∀ bit < poolNodes, filling.pool bit = false) := by
  have hcycle : (start + poolWords) % poolWords = start := by
    rw [Nat.add_mod_right, Nat.mod_eq_of_lt hstart]
  obtain ⟨taken, htaken, hclear⟩ :=
    @fillPool_taken base start start poolWords filling (Nat.le_refl _) hstart hcycle
  refine ⟨taken, htaken, ?_⟩
  intro hnone bit hbit
  have hroom : filling.nodeCache.length < CB_NODE_CACHE_SIZE - 5 := by
    rw [hempty]
    decide
  rw [poolNodes_eq] at hbit
  rw [poolWords_eq] at hstart hclear
  have hused := hclear hnone hroom ((bit / 32 + 1024 - start) % 1024) (by omega) (bit % 32)
    (by omega)
  have hword : (start + (bit / 32 + 1024 - start) % 1024) % 1024 = bit / 32 := by omega
  rw [hword] at hused
  have hbit' : 32 * (bit / 32) + bit % 32 = bit := Nat.div_add_mod bit 32
  rw [← hbit']
  exact hused

end Filling

/-- Not a pool block, not a root and not the counter. -/
def IsNode (number : Nat) : Prop := number % poolNodes ≠ 0 ∧ COUNTER_NODE_NUM < number

section Numbers

variable {poolNumber other bit number : Nat}

theorem pool_of_number (hbit : bit < poolNodes) :
    (poolNumber * poolNodes + bit) / poolNodes = poolNumber ∧
      (poolNumber * poolNodes + bit) % poolNodes = bit := by
  rw [poolNodes_eq] at hbit ⊢
  omega

theorem number_of_pool (number : Nat) :
    number / poolNodes * poolNodes + number % poolNodes = number :=
  Nat.div_add_mod' number poolNodes

theorem mod_lt_poolNodes (number : Nat) : number % poolNodes < poolNodes :=
  Nat.mod_lt number (by decide)

theorem freshPool_isNode (hbit : bit < poolNodes) :
    freshPool poolNumber bit = true ↔ IsNode (poolNumber * poolNodes + bit) := by
  obtain ⟨-, hmod⟩ := @pool_of_number poolNumber bit hbit
  simp only [IsNode, hmod, freshPool]
  rw [poolNodes_eq]
  cases poolNumber with
  | zero =>
      rw [if_pos rfl, decide_eq_true_eq]
      simp only [COUNTER_NODE_NUM]
      omega
  | succ poolNumber =>
      rw [if_neg (Nat.succ_ne_zero poolNumber), decide_eq_true_eq]
      simp only [COUNTER_NODE_NUM]
      omega

end Numbers

/-- The loaded pool is as in the file; the cache and the free bits are nodes that are not
in use, each of them once; and a freed node is in one of them. -/
structure Sound (inUse freed : List Nat) (index : IndexFile) : Prop where
  loaded : ∀ poolNumber, index.loadedPool = some poolNumber →
    index.file.containsPool poolNumber = true ∧ index.pool = index.file.pools poolNumber
  bits : ∀ poolNumber bit, bit < poolNodes → index.file.pools poolNumber bit = true →
    IsNode (poolNumber * poolNodes + bit) ∧ poolNumber * poolNodes + bit ∉ inUse ∧
      poolNumber * poolNodes + bit ∉ index.nodeCache
  nodup : index.nodeCache.Nodup
  cached : ∀ number ∈ index.nodeCache, IsNode number ∧ number ∉ inUse
  kept : ∀ number ∈ freed, number ∈ index.nodeCache ∨
    index.file.pools (number / poolNodes) (number % poolNodes) = true

section Loading

variable {inUse freed : List Nat} {index : IndexFile} {fails : Nat → Bool} {poolNumber : Nat}

/-- What the loading of the next pool leaves: its pool as it was, if it could be read, and
a fresh one otherwise. -/
structure LoadedNext (fails : Nat → Bool) (index next : IndexFile) (poolNumber : Nat) :
    Prop where
  loaded : next.loadedPool = some poolNumber
  cache : next.nodeCache = index.nodeCache
  blockCount : next.blockCount = index.blockCount
  position : next.searchPosition = 0
  blocks : next.file.blocks = max index.file.blocks (poolNumber * poolNodes + 2)
  pool : next.pool = next.file.pools poolNumber
  others : ∀ other, other ≠ poolNumber → next.file.pools other = index.file.pools other
  contents : index.file.containsPool poolNumber = true ∧ fails poolNumber = false ∧
      next.file.pools poolNumber = index.file.pools poolNumber ∨
    (index.file.containsPool poolNumber = false ∨ fails poolNumber = true) ∧
      next.file.pools poolNumber = freshPool poolNumber

theorem loadNextPool_spec (index : IndexFile) (fails : Nat → Bool) :
    LoadedNext fails index (index.loadNextPool fails) index.nextPool := by
  simp only [IndexFile.loadNextPool]
  split
  case isTrue hread =>
    rw [Bool.and_eq_true, Bool.not_eq_true'] at hread
    have hin : index.nextPool * poolNodes + 2 ≤ index.file.blocks := of_decide_eq_true hread.1
    exact ⟨rfl, rfl, rfl, rfl, (Nat.max_eq_left hin).symm, rfl, fun _ _ => rfl,
      Or.inl ⟨hread.1, hread.2, rfl⟩⟩
  case isFalse hfailed =>
    have hcause : index.file.containsPool index.nextPool = false ∨
        fails index.nextPool = true := by
      cases hin : index.file.containsPool index.nextPool with
      | false => exact Or.inl rfl
      | true => simpa [hin] using hfailed
    refine ⟨rfl, rfl, rfl, rfl, rfl, ?_, ?_, Or.inr ⟨hcause, Function.update_self ..⟩⟩
    · simp only [IndexFile.writePool, Function.update_self]
    · intro other hother
      exact Function.update_of_ne hother ..

theorem Sound.loadNext {next : IndexFile} (hsound : Sound inUse freed index)
    (hempty : index.nodeCache = []) (hload : LoadedNext fails index next poolNumber)
    (hfailed : index.file.containsPool poolNumber = false ∨ fails poolNumber = true →
      ∀ number ∈ inUse, number / poolNodes ≠ poolNumber) :
    Sound inUse freed next := by
  have hnoCache : next.nodeCache = [] := hload.cache.trans hempty
  have hbits : ∀ other bit, bit < poolNodes → next.file.pools other bit = true →
      IsNode (other * poolNodes + bit) ∧ other * poolNodes + bit ∉ inUse := by
    intro other bit hbit hfree
    cases decEq other poolNumber with
    | isFalse hother =>
        rw [hload.others other hother] at hfree
        obtain ⟨hnode, huse, -⟩ := hsound.bits other bit hbit hfree
        exact ⟨hnode, huse⟩
    | isTrue hsame =>
        subst hsame
        obtain ⟨-, -, hpool⟩ | ⟨hcause, hpool⟩ := hload.contents
        · rw [hpool] at hfree
          obtain ⟨hnode, huse, -⟩ := hsound.bits other bit hbit hfree
          exact ⟨hnode, huse⟩
        · rw [hpool] at hfree
          refine ⟨(freshPool_isNode hbit).mp hfree, ?_⟩
          intro huse
          exact hfailed hcause _ huse (pool_of_number hbit).1
  constructor
  case loaded =>
    intro other hother
    rw [hload.loaded] at hother
    obtain rfl := Option.some.inj hother
    refine ⟨?_, hload.pool⟩
    rw [PoolFile.containsPool, decide_eq_true_eq, hload.blocks]
    exact Nat.le_max_right ..
  case bits =>
    intro other bit hbit hfree
    obtain ⟨hnode, huse⟩ := hbits other bit hbit hfree
    refine ⟨hnode, huse, ?_⟩
    rw [hnoCache]
    exact List.not_mem_nil
  case nodup =>
    rw [hnoCache]
    exact List.nodup_nil
  case cached =>
    rw [hnoCache]
    intro number hmem
    cases hmem
  case kept =>
    intro number hmem
    right
    have hfree : index.file.pools (number / poolNodes) (number % poolNodes) = true := by
      cases hsound.kept number hmem with
      | inl hcached =>
          rw [hempty] at hcached
          cases hcached
      | inr hfree => exact hfree
    cases decEq (number / poolNodes) poolNumber with
    | isFalse hother =>
        rw [hload.others _ hother]
        exact hfree
    | isTrue hsame =>
        rw [hsame] at hfree ⊢
        obtain ⟨-, -, hpool⟩ | ⟨-, hpool⟩ := hload.contents
        · rw [hpool]
          exact hfree
        · rw [hpool]
          have hmod := mod_lt_poolNodes number
          exact (freshPool_isNode hmod).mpr (hsound.bits poolNumber _ hmod hfree).1

/-- The cache has been filled from the loaded pool, unless the pool has no free node. -/
structure Filled (index next : IndexFile) (poolNumber maxAlloc : Nat) : Prop where
  loaded : next.loadedPool = some poolNumber
  blockCount : next.blockCount = index.blockCount
  blocks : next.file.blocks = index.file.blocks
  cache : ∀ number ∈ next.nodeCache, number / poolNodes = poolNumber ∧ number ≤ maxAlloc
  full : next.nodeCache = [] → next.file.pools = index.file.pools ∧
    ∀ bit < poolNodes, index.file.pools poolNumber bit = false

theorem fillFromPool_eq (hsound : Sound inUse freed index)
    (hloaded : index.loadedPool = some poolNumber) (maxAlloc : Nat) :
    ∃ filling word, filling = (fillPool (poolNumber * poolNodes) index.searchPosition poolWords
        index.searchPosition ⟨index.pool, index.nodeCache, maxAlloc, false⟩).2 ∧
      index.fillFromPool maxAlloc =
        ({ index with
            file := if filling.anyAllocation then
                { index.file with
                  pools := Function.update index.file.pools poolNumber filling.pool }
              else index.file
            pool := filling.pool, nodeCache := filling.nodeCache, searchPosition := word },
          filling.maxAlloc) := by
  have hin : poolNumber * poolNodes + 2 ≤ index.file.blocks :=
    of_decide_eq_true (hsound.loaded poolNumber hloaded).1
  refine ⟨_, (fillPool (poolNumber * poolNodes) index.searchPosition poolWords
    index.searchPosition ⟨index.pool, index.nodeCache, maxAlloc, false⟩).1, rfl, ?_⟩
  simp only [IndexFile.fillFromPool, hloaded, Option.getD_some]
  split
  · simp only [IndexFile.writePool, Nat.max_eq_left hin]
  · rfl

theorem Sound.fill (hsound : Sound inUse freed index) (hempty : index.nodeCache = [])
    (hloaded : index.loadedPool = some poolNumber) (hposition : index.searchPosition < poolWords)
    (maxAlloc : Nat) :
    Sound inUse freed (index.fillFromPool maxAlloc).1 ∧
      Filled index (index.fillFromPool maxAlloc).1 poolNumber (index.fillFromPool maxAlloc).2 := by
  obtain ⟨hin, hpool⟩ := hsound.loaded poolNumber hloaded
  obtain ⟨filling, word, hfilling, heq⟩ := fillFromPool_eq hsound hloaded maxAlloc
  obtain ⟨taken, htaken, hwhole⟩ := @fillPool_whole (poolNumber * poolNodes)
    index.searchPosition ⟨index.pool, index.nodeCache, maxAlloc, false⟩ hposition hempty
  rw [← hfilling] at htaken
  have hcache : filling.nodeCache = taken.map (poolNumber * poolNodes + ·) := by
    rw [htaken.cache, hempty, List.append_nil]
  have hbits : ∀ bit, filling.pool bit =
      (index.file.pools poolNumber bit && !decide (bit ∈ taken)) := by
    intro bit
    rw [htaken.pool, hpool]
  -- whether the pool has been written or not, it is the one in the memory
  have hpools : (if filling.anyAllocation then
      { index.file with pools := Function.update index.file.pools poolNumber filling.pool }
      else index.file) =
        { index.file with pools := Function.update index.file.pools poolNumber filling.pool } := by
    split
    case isTrue => rfl
    case isFalse hnone =>
      have hnil : taken = [] := by
        rw [htaken.any, Bool.false_or] at hnone
        cases taken with
        | nil => rfl
        | cons bit rest => exact absurd rfl hnone
      have hsame : filling.pool = index.file.pools poolNumber := by
        funext bit
        rw [hbits, hnil]
        simp
      rw [hsame, Function.update_eq_self]
  rw [heq, hpools]
  have hmem : ∀ number ∈ filling.nodeCache, number / poolNodes = poolNumber ∧
      number % poolNodes ∈ taken := by
    intro number hnumber
    rw [hcache] at hnumber
    obtain ⟨bit, hbit, rfl⟩ := List.mem_map.mp hnumber
    obtain ⟨hdiv, hmod⟩ := @pool_of_number poolNumber bit (htaken.free bit hbit).1
    exact ⟨hdiv, by rw [hmod]; exact hbit⟩
  have hold : ∀ other bit, Function.update index.file.pools poolNumber filling.pool other bit =
      true → index.file.pools other bit = true ∧ (other = poolNumber → bit ∉ taken) := by
    intro other bit hfree
    cases decEq other poolNumber with
    | isFalse hother =>
        rw [Function.update_of_ne hother] at hfree
        exact ⟨hfree, fun hsame => absurd hsame hother⟩
    | isTrue hsame =>
        subst hsame
        rw [Function.update_self, hbits, Bool.and_eq_true, Bool.not_eq_true',
          decide_eq_false_iff_not] at hfree
        exact ⟨hfree.1, fun _ => hfree.2⟩
  refine ⟨?_, ?_⟩
  · constructor
    case loaded =>
      intro other hother
      obtain rfl : poolNumber = other := Option.some.inj (hloaded.symm.trans hother)
      refine ⟨hin, ?_⟩
      simp only [Function.update_self]
    case bits =>
      intro other bit hbit hfree
      obtain ⟨hfree, hleft⟩ := hold other bit hfree
      obtain ⟨hnode, huse, -⟩ := hsound.bits other bit hbit hfree
      refine ⟨hnode, huse, ?_⟩
      intro hnumber
      obtain ⟨hdiv, htake⟩ := hmem _ hnumber
      obtain ⟨hdiv', hmod⟩ := @pool_of_number other bit hbit
      rw [hdiv'] at hdiv
      rw [hmod] at htake
      exact hleft hdiv htake
    case nodup =>
      rw [hcache]
      exact htaken.nodup.map fun bit other hsame => Nat.add_left_cancel hsame
    case cached =>
      intro number hnumber
      rw [hcache] at hnumber
      obtain ⟨bit, hbit, rfl⟩ := List.mem_map.mp hnumber
      obtain ⟨hlt, hfree⟩ := htaken.free bit hbit
      have hfree' : index.file.pools poolNumber bit = true := by
        rw [← hpool]
        exact hfree
      obtain ⟨hnode, huse, -⟩ := hsound.bits poolNumber bit hlt hfree'
      exact ⟨hnode, huse⟩
    case kept =>
      intro number hfreed
      have hfree : index.file.pools (number / poolNodes) (number % poolNodes) = true := by
        cases hsound.kept number hfreed with
        | inl hcached =>
            rw [hempty] at hcached
            cases hcached
        | inr hfree => exact hfree
      cases decEq (number / poolNodes) poolNumber with
      | isFalse hother =>
          right
          simp only [Function.update_of_ne hother]
          exact hfree
      | isTrue hsame =>
          cases List.instDecidableMemOfLawfulBEq (number % poolNodes) taken with
          | isTrue htake =>
              left
              simp only [hcache]
              refine List.mem_map.mpr ⟨number % poolNodes, htake, ?_⟩
              rw [← hsame]
              exact number_of_pool number
          | isFalse hleft =>
              right
              rw [hsame] at hfree
              simp only [hsame, Function.update_self, hbits, hfree, decide_eq_false hleft]
              rfl
  · constructor
    case loaded => exact hloaded
    case blockCount => rfl
    case blocks => rfl
    case cache =>
      intro number hnumber
      obtain ⟨hdiv, htake⟩ := hmem number hnumber
      refine ⟨hdiv, ?_⟩
      have htop := htaken.top _ htake
      rw [← hdiv, number_of_pool] at htop
      exact htop
    case full =>
      intro hnil
      have hnone : taken = [] := by
        have hmap : taken.map (poolNumber * poolNodes + ·) = [] := hcache.symm.trans hnil
        exact List.map_eq_nil_iff.mp hmap
      have hsame : filling.pool = index.file.pools poolNumber := by
        funext bit
        rw [hbits, hnone]
        simp
      refine ⟨?_, ?_⟩
      · simp only [hsame, Function.update_eq_self]
      · intro bit hbit
        rw [← hpool]
        exact hwhole hnone bit hbit

def PoolFile.HasFree (file : PoolFile) (poolNumber : Nat) : Prop :=
  ∃ bit < poolNodes, file.pools poolNumber bit = true

/-- The cache has been filled from some pool. If the pool is a new one, there is no free
node in the pools from a first one on. -/
structure Refilled (fails : Nat → Bool) (inUse freed : List Nat) (first : Nat)
    (index next : IndexFile) (maxAlloc : Nat) : Prop where
  sound : Sound inUse freed next
  nonempty : next.nodeCache ≠ []
  blockCount : next.blockCount = index.blockCount
  pool : ∃ poolNumber, next.loadedPool = some poolNumber ∧
    (∀ number ∈ next.nodeCache, number / poolNodes = poolNumber ∧ number ≤ maxAlloc) ∧
    next.file.blocks = max index.file.blocks (poolNumber * poolNodes + 2) ∧
    (index.file.containsPool poolNumber = false → ∀ other, first ≤ other →
      index.file.containsPool other = true →
        fails other = false ∧ ¬ index.file.HasFree other)

/-- The nodes in use are in the file, and no read of their pools fails. -/
structure Usable (fails : Nat → Bool) (inUse : List Nat) (file : PoolFile) : Prop where
  inFile : ∀ number ∈ inUse, IsNode number ∧ number + 1 < file.blocks
  readable : ∀ poolNumber, fails poolNumber = true →
    ∀ number ∈ inUse, number / poolNodes ≠ poolNumber

theorem containsPool_of_number {file : PoolFile} {number : Nat} (hnode : IsNode number)
    (hin : number + 1 < file.blocks) : file.containsPool (number / poolNodes) = true := by
  have hmod := hnode.1
  rw [PoolFile.containsPool, decide_eq_true_eq]
  have hnumber := number_of_pool number
  omega

theorem Usable.not_failed {file : PoolFile} (husable : Usable fails inUse file)
    (hcause : file.containsPool poolNumber = false ∨ fails poolNumber = true) :
    ∀ number ∈ inUse, number / poolNodes ≠ poolNumber := by
  cases hcause with
  | inr hfails => exact husable.readable poolNumber hfails
  | inl hout =>
      intro number hmem hsame
      obtain ⟨hnode, hin⟩ := husable.inFile number hmem
      rw [← hsame, containsPool_of_number hnode hin] at hout
      cases hout

theorem Sound.refill_next {fuel first : Nat} {goToNextPool : Bool}
    (hsound : Sound inUse freed index) (hempty : index.nodeCache = [])
    (husable : Usable fails inUse index.file) (hfirst : index.nextPool = first)
    (hgo : (index.loadedPool.isNone || goToNextPool) = true) (hpositive : 0 < fuel)
    (hfuel : index.file.blocks < fuel + first) (maxAlloc : Nat) :
    Refilled fails inUse freed first index (index.refill fails fuel goToNextPool maxAlloc).1
      (index.refill fails fuel goToNextPool maxAlloc).2 := by
  induction fuel generalizing index first goToNextPool maxAlloc with
  | zero => exact absurd hpositive (Nat.lt_irrefl 0)
  | succ fuel ih =>
      have hload := loadNextPool_spec index fails
      rw [hfirst] at hload
      have hloadSound := hsound.loadNext hempty hload husable.not_failed
      have hloadEmpty := hload.cache.trans hempty
      have hposition : (index.loadNextPool fails).searchPosition < poolWords := by
        rw [hload.position]
        decide
      obtain ⟨hfillSound, hfill⟩ :=
        hloadSound.fill hloadEmpty hload.loaded hposition maxAlloc
      simp only [IndexFile.refill, hgo, if_true]
      split
      case isFalse hcache =>
        rw [List.isEmpty_iff] at hcache
        refine ⟨hfillSound, hcache, hfill.blockCount.trans hload.blockCount, first, hfill.loaded,
          hfill.cache, hfill.blocks.trans hload.blocks, ?_⟩
        intro hnew other hother hin
        rw [PoolFile.containsPool, decide_eq_true_eq] at hin
        rw [PoolFile.containsPool, decide_eq_false_iff_not] at hnew
        have hmul := Nat.mul_le_mul_right poolNodes hother
        omega
      case isTrue hcache =>
        rw [List.isEmpty_iff] at hcache
        obtain ⟨hpools, hnoFree⟩ := hfill.full hcache
        -- a fresh pool has free nodes, so the pool was read
        obtain ⟨hin, hread, hsame⟩ | ⟨-, hfresh⟩ := hload.contents
        · have hin' : first * poolNodes + 2 ≤ index.file.blocks := of_decide_eq_true hin
          have hbefore : first < index.file.blocks := by
            rw [poolNodes_eq] at hin'
            omega
          have hfile : ((index.loadNextPool fails).fillFromPool maxAlloc).1.file = index.file := by
            have hblocks := hfill.blocks.trans hload.blocks
            rw [Nat.max_eq_left hin'] at hblocks
            have hsamePools : (index.loadNextPool fails).file.pools = index.file.pools := by
              funext other
              cases decEq other first with
              | isFalse hother => exact hload.others other hother
              | isTrue heq =>
                  rw [heq]
                  exact hsame
            rw [hsamePools] at hpools
            cases hfile : ((index.loadNextPool fails).fillFromPool maxAlloc).1.file with
            | mk blocks pools =>
                rw [hfile] at hblocks hpools
                cases hblocks
                cases hpools
                rfl
          have hnext : ((index.loadNextPool fails).fillFromPool maxAlloc).1.nextPool =
              first + 1 := by
            rw [IndexFile.nextPool, hfill.loaded]
          have hrest := ih hfillSound hcache (by rw [hfile]; exact husable) hnext
            (Bool.or_true _) (by omega) (by rw [hfile]; omega)
            ((index.loadNextPool fails).fillFromPool maxAlloc).2
          obtain ⟨poolNumber, hloaded, hnumbers, hblocks, hscanned⟩ := hrest.pool
          rw [hfile] at hblocks hscanned
          refine ⟨hrest.sound, hrest.nonempty,
            hrest.blockCount.trans (hfill.blockCount.trans hload.blockCount), poolNumber, hloaded,
            hnumbers, hblocks, ?_⟩
          intro hnew other hother hcontained
          obtain rfl | hlater := Nat.eq_or_lt_of_le hother
          · refine ⟨hread, ?_⟩
            rintro ⟨bit, hbit, hfree⟩
            rw [← hsame, hnoFree bit hbit] at hfree
            cases hfree
          · exact hscanned hnew other hlater hcontained
        · have hbit : (5 : Nat) < poolNodes := by decide
          have hclear := hnoFree 5 hbit
          rw [hfresh] at hclear
          simp only [freshPool] at hclear
          split at hclear <;> cases hclear

theorem Sound.setPosition (hsound : Sound inUse freed index) (position : Nat) :
    Sound inUse freed { index with searchPosition := position } :=
  ⟨hsound.loaded, hsound.bits, hsound.nodup, hsound.cached, hsound.kept⟩

/-- A refill starts with the loaded pool. -/
theorem Sound.refill (hsound : Sound inUse freed index) (hempty : index.nodeCache = [])
    (husable : Usable fails inUse index.file) :
    Refilled fails inUse freed index.nextPool index
        (index.refill fails (index.file.blocks + 2) false 0).1
        (index.refill fails (index.file.blocks + 2) false 0).2 ∧
      (extendedBy index (index.refill fails (index.file.blocks + 2) false 0).1 = true →
        ∀ poolNumber, index.loadedPool = some poolNumber → ¬ index.file.HasFree poolNumber) := by
  cases hloaded : index.loadedPool with
  | none =>
      refine ⟨?_, fun _ _ hsome => by cases hsome⟩
      exact hsound.refill_next hempty husable rfl (by rw [hloaded]; rfl) (by omega) (by omega) 0
  | some first =>
      obtain ⟨hin, hpool⟩ := hsound.loaded first hloaded
      have hin' : first * poolNodes + 2 ≤ index.file.blocks := of_decide_eq_true hin
      have hnextPool : index.nextPool = first + 1 := by rw [IndexFile.nextPool, hloaded]
      have hstay : (index.loadedPool.isNone || false) = false := by rw [hloaded]; rfl
      simp only [IndexFile.refill, hstay, Bool.false_eq_true, if_false]
      obtain ⟨position, hposition, heq⟩ : ∃ position, position < poolWords ∧
          (if index.searchPosition ≥ poolWords then { index with searchPosition := 0 }
            else index) = { index with searchPosition := position } := by
        split
        case isTrue => exact ⟨0, by decide, rfl⟩
        case isFalse hlt => exact ⟨index.searchPosition, Nat.lt_of_not_le hlt, rfl⟩
      rw [heq]
      obtain ⟨hfillSound, hfill⟩ := (hsound.setPosition position).fill hempty hloaded hposition 0
      split
      case isFalse hcache =>
        rw [List.isEmpty_iff] at hcache
        have hold : index.file.containsPool first = false → False := by
          intro hnew
          rw [hin] at hnew
          cases hnew
        refine ⟨⟨hfillSound, hcache, hfill.blockCount, first, hfill.loaded, hfill.cache, ?_, ?_⟩, ?_⟩
        · rw [hfill.blocks, Nat.max_eq_left hin']
        · intro hnew
          exact (hold hnew).elim
        · intro hextended
          simp only [extendedBy, hfill.loaded, Option.any_some, Bool.not_eq_true'] at hextended
          exact (hold hextended).elim
      case isTrue hcache =>
        rw [List.isEmpty_iff] at hcache
        obtain ⟨hpools, hnoFree⟩ := hfill.full hcache
        have hfile : ({ index with searchPosition := position }.fillFromPool 0).1.file =
            index.file := by
          have hblocks := hfill.blocks
          cases hfile : ({ index with searchPosition := position }.fillFromPool 0).1.file with
          | mk blocks pools =>
              rw [hfile] at hblocks hpools
              cases hblocks
              cases hpools
              rfl
        have hnext : ({ index with searchPosition := position }.fillFromPool 0).1.nextPool =
            first + 1 := by
          rw [IndexFile.nextPool, hfill.loaded]
        have hbefore : first < index.file.blocks := by
          rw [poolNodes_eq] at hin'
          omega
        have hrest := hfillSound.refill_next hcache (by rw [hfile]; exact husable) hnext
          (Bool.or_true _) (Nat.succ_pos index.file.blocks) (by rw [hfile]; omega)
          ({ index with searchPosition := position }.fillFromPool 0).2
        obtain ⟨poolNumber, hpoolNumber, hnumbers, hblocks, hscanned⟩ := hrest.pool
        rw [hfile] at hblocks hscanned
        refine ⟨⟨hrest.sound, hrest.nonempty, hrest.blockCount.trans hfill.blockCount, poolNumber,
          hpoolNumber, hnumbers, hblocks, ?_⟩, ?_⟩
        · rw [hnextPool]
          exact hscanned
        · intro _ other hother
          obtain rfl := Option.some.inj hother
          rintro ⟨bit, hbit, hfree⟩
          exact absurd (hnoFree bit hbit) (by rw [hfree]; exact Bool.noConfusion)

/-- The file covers the numbers up to the greatest one that has been allocated. -/
theorem containBlock_spec (index : IndexFile) (number : Nat) :
    ∃ blockCount blocks, index.containBlock number =
        { index with blockCount, file := { index.file with blocks } } ∧
      number + 1 < blockCount ∧ index.blockCount ≤ blockCount ∧
      (blockCount = blocks ∨ blockCount = index.blockCount ∧ blocks = index.file.blocks) := by
  simp only [IndexFile.containBlock]
  split
  case isTrue hbehind =>
    refine ⟨20 * ((number + 2) / 20 + 1), 20 * ((number + 2) / 20 + 1), rfl, by omega, by omega,
      Or.inl rfl⟩
  case isFalse hinside =>
    exact ⟨index.blockCount, index.file.blocks, rfl, by omega, Nat.le_refl _, Or.inr ⟨rfl, rfl⟩⟩

theorem Sound.resize (hsound : Sound inUse freed index) (blockCount blocks : Nat)
    (hloaded : ∀ poolNumber, index.loadedPool = some poolNumber →
      poolNumber * poolNodes + 2 ≤ blocks) :
    Sound inUse freed { index with blockCount, file := { index.file with blocks } } where
  loaded := fun poolNumber hpoolNumber =>
    ⟨decide_eq_true (hloaded poolNumber hpoolNumber), (hsound.loaded poolNumber hpoolNumber).2⟩
  bits := hsound.bits
  nodup := hsound.nodup
  cached := hsound.cached
  kept := hsound.kept

/-- The cache after a refill and the extension of the file. -/
structure Supplied (inUse freed : List Nat) (index next : IndexFile) : Prop where
  sound : Sound inUse freed next
  nonempty : next.nodeCache ≠ []
  contained : ∀ number ∈ next.nodeCache, next.file.containsPool (number / poolNodes) = true
  blocks : index.blockCount = index.file.blocks → next.blockCount = next.file.blocks ∧
    index.file.blocks ≤ next.file.blocks ∧
    ∀ number ∈ next.nodeCache, number + 1 < next.file.blocks

theorem Refilled.supplied {first maxAlloc : Nat} {next : IndexFile}
    (hrefilled : Refilled fails inUse freed first index next maxAlloc) :
    Supplied inUse freed index (next.containBlock maxAlloc) := by
  obtain ⟨poolNumber, hloaded, hnumbers, hblocks, -⟩ := hrefilled.pool
  obtain ⟨blockCount, blocks, heq, htop, hgrown, hsize⟩ := containBlock_spec next maxAlloc
  rw [heq]
  have hmax : poolNumber * poolNodes + 1 ≤ maxAlloc := by
    obtain ⟨number, rest, hcache⟩ := List.exists_cons_of_ne_nil hrefilled.nonempty
    have hmem : number ∈ next.nodeCache := by
      rw [hcache]
      exact List.mem_cons_self
    obtain ⟨hpool, hle⟩ := hnumbers number hmem
    have hnode := (hrefilled.sound.cached number hmem).1.1
    have hnumber := number_of_pool number
    rw [hpool] at hnumber
    omega
  have hin : poolNumber * poolNodes + 2 ≤ blocks := by
    cases hsize with
    | inl hsame => omega
    | inr hkept => omega
  constructor
  case sound =>
    apply hrefilled.sound.resize
    intro other hother
    obtain rfl : poolNumber = other := Option.some.inj (hloaded.symm.trans hother)
    exact hin
  case nonempty => exact hrefilled.nonempty
  case contained =>
    intro number hmem
    rw [(hnumbers number hmem).1]
    exact decide_eq_true hin
  case blocks =>
    intro hcount
    have hnextCount := hrefilled.blockCount
    have hsame : blockCount = blocks := by
      cases hsize with
      | inl hsame => exact hsame
      | inr hkept => omega
    refine ⟨hsame, ?_, ?_⟩
    · change index.file.blocks ≤ blocks
      omega
    · intro number hmem
      have hle := (hnumbers number hmem).2
      change number + 1 < blocks
      omega

/-- The node that has been returned leaves the cache. -/
theorem Sound.take {number : Nat} {rest : List Nat} (hsound : Sound inUse freed index)
    (hcache : index.nodeCache = number :: rest) :
    Sound (number :: inUse) (freed.filter (· != number)) { index with nodeCache := rest } := by
  have hnodup := hsound.nodup
  rw [hcache] at hnodup
  obtain ⟨hnotin, hrest⟩ := List.nodup_cons.mp hnodup
  constructor
  case loaded => exact hsound.loaded
  case bits =>
    intro poolNumber bit hbit hfree
    obtain ⟨hnode, huse, hcached⟩ := hsound.bits poolNumber bit hbit hfree
    rw [hcache, List.mem_cons, not_or] at hcached
    refine ⟨hnode, ?_, hcached.2⟩
    rw [List.mem_cons, not_or]
    exact ⟨hcached.1, huse⟩
  case nodup => exact hrest
  case cached =>
    intro other hother
    obtain ⟨hnode, huse⟩ := hsound.cached other (by
      rw [hcache]
      exact List.mem_cons_of_mem number hother)
    refine ⟨hnode, ?_⟩
    rw [List.mem_cons, not_or]
    refine ⟨?_, huse⟩
    rintro rfl
    exact hnotin hother
  case kept =>
    intro other hother
    obtain ⟨hfreed, hne⟩ := List.mem_filter.mp hother
    cases hsound.kept other hfreed with
    | inr hfree => exact Or.inr hfree
    | inl hcached =>
        rw [hcache, List.mem_cons] at hcached
        exact hcached.elim (fun hsame => absurd hsame (bne_iff_ne.mp hne)) Or.inl

/-- What `alloc_cbnode` returns and leaves. -/
structure Allocated (fails : Nat → Bool) (inUse freed : List Nat) (index next : IndexFile)
    (number : Nat) : Prop where
  node : IsNode number
  unused : number ∉ inUse
  sound : Sound (number :: inUse) (freed.filter (· != number)) next
  contained : (∀ other ∈ index.nodeCache, index.file.containsPool (other / poolNodes) = true) →
    ∀ other ∈ number :: next.nodeCache, next.file.containsPool (other / poolNodes) = true
  blocks : index.blockCount = index.file.blocks →
    (∀ other ∈ index.nodeCache, other + 1 < index.file.blocks) →
      next.blockCount = next.file.blocks ∧ index.file.blocks ≤ next.file.blocks ∧
        ∀ other ∈ number :: next.nodeCache, other + 1 < next.file.blocks
  extended : extendedBy index next = true → index.nodeCache = [] ∧
    (∀ poolNumber, index.loadedPool = some poolNumber → ¬ index.file.HasFree poolNumber) ∧
    ∀ poolNumber, index.nextPool ≤ poolNumber → index.file.containsPool poolNumber = true →
      fails poolNumber = false ∧ ¬ index.file.HasFree poolNumber

theorem allocCbnode_spec (hsound : Sound inUse freed index)
    (husable : Usable fails inUse index.file) :
    ∃ number next, index.allocCbnode fails = (some number, next) ∧
      Allocated fails inUse freed index next number := by
  cases hcache : index.nodeCache with
  | cons number rest =>
      refine ⟨number, { index with nodeCache := rest }, ?_, ?_⟩
      · simp only [IndexFile.allocCbnode, hcache, List.isEmpty_cons, Bool.false_eq_true, if_false]
      · have hmem : number ∈ index.nodeCache := by
          rw [hcache]
          exact List.mem_cons_self
        obtain ⟨hnode, huse⟩ := hsound.cached number hmem
        constructor
        case node => exact hnode
        case unused => exact huse
        case sound => exact hsound.take hcache
        case contained =>
          intro hcontained
          rw [hcache] at hcontained
          exact hcontained
        case blocks =>
          intro hcount hin
          rw [hcache] at hin
          exact ⟨hcount, Nat.le_refl _, hin⟩
        case extended =>
          intro hextended
          simp only [extendedBy, Option.any_eq_true, Bool.not_eq_true'] at hextended
          obtain ⟨poolNumber, hloaded, hout⟩ := hextended
          rw [(hsound.loaded poolNumber hloaded).1] at hout
          cases hout
  | nil =>
      obtain ⟨hrefilled, hloadedFull⟩ := hsound.refill hcache husable
      have hsupplied := hrefilled.supplied
      obtain ⟨number, rest, hrest⟩ := List.exists_cons_of_ne_nil hsupplied.nonempty
      have hloaded : ((index.refill fails (index.file.blocks + 2) false 0).1.containBlock
          (index.refill fails (index.file.blocks + 2) false 0).2).loadedPool =
            (index.refill fails (index.file.blocks + 2) false 0).1.loadedPool := by
        obtain ⟨blockCount, blocks, heq, -⟩ := containBlock_spec
          (index.refill fails (index.file.blocks + 2) false 0).1
          (index.refill fails (index.file.blocks + 2) false 0).2
        rw [heq]
      refine ⟨number, { (index.refill fails (index.file.blocks + 2) false 0).1.containBlock
          (index.refill fails (index.file.blocks + 2) false 0).2 with nodeCache := rest }, ?_, ?_⟩
      · simp only [IndexFile.allocCbnode, hcache, List.isEmpty_nil, if_true, hrest]
      · have hmem : ∀ other ∈ number :: rest, other ∈
            ((index.refill fails (index.file.blocks + 2) false 0).1.containBlock
              (index.refill fails (index.file.blocks + 2) false 0).2).nodeCache := by
          intro other hother
          rw [hrest]
          exact hother
        obtain ⟨hnode, huse⟩ := hsupplied.sound.cached number (hmem number List.mem_cons_self)
        constructor
        case node => exact hnode
        case unused => exact huse
        case sound => exact hsupplied.sound.take hrest
        case contained => exact fun _ other hother => hsupplied.contained other (hmem other hother)
        case blocks =>
          intro hcount _
          obtain ⟨hnext, hgrown, hin⟩ := hsupplied.blocks hcount
          exact ⟨hnext, hgrown, fun other hother => hin other (hmem other hother)⟩
        case extended =>
          intro hextended
          have hextended' : extendedBy index
              (index.refill fails (index.file.blocks + 2) false 0).1 = true := by
            rw [extendedBy, ← hloaded]
            exact hextended
          refine ⟨hcache, hloadedFull hextended', ?_⟩
          obtain ⟨poolNumber, hpoolNumber, -, -, hscanned⟩ := hrefilled.pool
          rw [extendedBy, hpoolNumber, Option.any_some, Bool.not_eq_true'] at hextended'
          exact hscanned hextended'

end Loading

section Saving

variable {inUse freed : List Nat} {index : IndexFile} {number poolNumber : Nat}

theorem foldr_free (numbers : List Nat) (pool : Pool) (bit : Nat) :
    numbers.foldr (fun number pool => Function.update pool (number % poolNodes) true) pool bit =
      true ↔ pool bit = true ∨ ∃ number ∈ numbers, number % poolNodes = bit := by
  induction numbers with
  | nil => simp
  | cons number rest ih =>
      rw [List.foldr_cons, Function.update_apply, List.exists_mem_cons_iff]
      split
      case isTrue hsame => simp [hsame]
      case isFalse hne =>
        rw [ih]
        have hne' : number % poolNodes ≠ bit := fun hsame => hne hsame.symm
        simp [hne']

/-- What the saving to the loaded pool leaves: a node of the pool goes from the cache to
the pool. -/
structure SavedTo (index next : IndexFile) (poolNumber : Nat) : Prop where
  loaded : next.loadedPool = some poolNumber
  blockCount : next.blockCount = index.blockCount
  blocks : next.file.blocks = index.file.blocks
  cache : ∀ number, number ∈ next.nodeCache ↔
    number ∈ index.nodeCache ∧ number / poolNodes ≠ poolNumber
  sublist : next.nodeCache.Sublist index.nodeCache
  pool : next.pool = next.file.pools poolNumber
  others : ∀ other, other ≠ poolNumber → next.file.pools other = index.file.pools other
  bits : ∀ bit, next.file.pools poolNumber bit = true ↔ index.file.pools poolNumber bit = true ∨
    ∃ number ∈ index.nodeCache, number / poolNodes = poolNumber ∧ number % poolNodes = bit

theorem saveToCurrentPool_spec (hloaded : index.loadedPool = some poolNumber)
    (hin : index.file.containsPool poolNumber = true)
    (hpool : index.pool = index.file.pools poolNumber) :
    SavedTo index index.saveToCurrentPool poolNumber := by
  have hin' : poolNumber * poolNodes + 2 ≤ index.file.blocks := of_decide_eq_true hin
  constructor
  case loaded => simp only [IndexFile.saveToCurrentPool, IndexFile.writePool, hloaded]
  case blockCount => simp only [IndexFile.saveToCurrentPool, IndexFile.writePool, hloaded]
  case blocks =>
    simp only [IndexFile.saveToCurrentPool, IndexFile.writePool, hloaded, Nat.max_eq_left hin']
  case cache =>
    intro other
    simp only [IndexFile.saveToCurrentPool, IndexFile.writePool, hloaded, List.mem_filter,
      bne_iff_ne, ne_eq, Option.some.injEq]
    exact and_congr_right fun _ => not_congr eq_comm
  case sublist =>
    simp only [IndexFile.saveToCurrentPool, IndexFile.writePool, hloaded]
    exact List.filter_sublist
  case pool =>
    simp only [IndexFile.saveToCurrentPool, IndexFile.writePool, hloaded, Function.update_self]
  case others =>
    intro other hother
    simp only [IndexFile.saveToCurrentPool, IndexFile.writePool, hloaded]
    exact Function.update_of_ne hother ..
  case bits =>
    intro bit
    simp only [IndexFile.saveToCurrentPool, IndexFile.writePool, hloaded, Function.update_self]
    rw [foldr_free, hpool]
    simp only [List.mem_filter, beq_iff_eq, Option.some.injEq]
    apply or_congr_right
    constructor
    · rintro ⟨other, ⟨hmem, hsame⟩, hmod⟩
      exact ⟨other, hmem, hsame.symm, hmod⟩
    · rintro ⟨other, hmem, hsame, hmod⟩
      exact ⟨other, ⟨hmem, hsame.symm⟩, hmod⟩

theorem Sound.save {next : IndexFile} (hsound : Sound inUse freed index)
    (hin : index.file.containsPool poolNumber = true) (hsaved : SavedTo index next poolNumber) :
    Sound inUse freed next := by
  constructor
  case loaded =>
    intro other hother
    obtain rfl : poolNumber = other := Option.some.inj (hsaved.loaded.symm.trans hother)
    refine ⟨?_, hsaved.pool⟩
    rw [PoolFile.containsPool, hsaved.blocks]
    exact hin
  case bits =>
    intro other bit hbit hfree
    have hleft : other * poolNodes + bit ∈ next.nodeCache →
        other * poolNodes + bit ∈ index.nodeCache ∧ other ≠ poolNumber := by
      intro hmem
      obtain ⟨hcached, hother⟩ := (hsaved.cache _).mp hmem
      rw [(pool_of_number hbit).1] at hother
      exact ⟨hcached, hother⟩
    cases decEq other poolNumber with
    | isFalse hother =>
        rw [hsaved.others other hother] at hfree
        obtain ⟨hnode, huse, hcached⟩ := hsound.bits other bit hbit hfree
        exact ⟨hnode, huse, fun hmem => hcached (hleft hmem).1⟩
    | isTrue hsame =>
        rw [hsame] at hfree ⊢
        rw [hsame] at hleft
        cases (hsaved.bits bit).mp hfree with
        | inl hfree =>
            obtain ⟨hnode, huse, hcached⟩ := hsound.bits poolNumber bit hbit hfree
            exact ⟨hnode, huse, fun hmem => hcached (hleft hmem).1⟩
        | inr hmine =>
            obtain ⟨number, hmem, hdiv, hmod⟩ := hmine
            have hnumber := number_of_pool number
            rw [hdiv, hmod] at hnumber
            rw [hnumber] at hleft ⊢
            obtain ⟨hnode, huse⟩ := hsound.cached number hmem
            exact ⟨hnode, huse, fun hmem => (hleft hmem).2 rfl⟩
  case nodup => exact hsaved.sublist.nodup hsound.nodup
  case cached =>
    intro number hmem
    exact hsound.cached number ((hsaved.cache number).mp hmem).1
  case kept =>
    intro number hfreed
    cases decEq (number / poolNodes) poolNumber with
    | isTrue hsame =>
        right
        rw [hsame, hsaved.bits]
        cases hsound.kept number hfreed with
        | inl hcached => exact Or.inr ⟨number, hcached, hsame, rfl⟩
        | inr hfree =>
            rw [hsame] at hfree
            exact Or.inl hfree
    | isFalse hother =>
        rw [hsaved.others _ hother]
        cases hsound.kept number hfreed with
        | inl hcached => exact Or.inl ((hsaved.cache number).mpr ⟨hcached, hother⟩)
        | inr hfree => exact Or.inr hfree

theorem Sound.read (hsound : Sound inUse freed index)
    (hin : index.file.containsPool poolNumber = true) :
    Sound inUse freed (index.readPool poolNumber) where
  loaded := by
    intro other hother
    obtain rfl := Option.some.inj hother
    exact ⟨hin, rfl⟩
  bits := hsound.bits
  nodup := hsound.nodup
  cached := hsound.cached
  kept := hsound.kept

theorem Sound.push (hsound : Sound inUse freed index) (hnodup : inUse.Nodup)
    (hnode : IsNode number) (hmem : number ∈ inUse) :
    Sound (inUse.erase number) (number :: freed) (index.push number) where
  loaded := hsound.loaded
  bits := by
    intro other bit hbit hfree
    obtain ⟨hbitNode, huse, hcached⟩ := hsound.bits other bit hbit hfree
    refine ⟨hbitNode, fun herase => huse (List.mem_of_mem_erase herase), ?_⟩
    rw [IndexFile.push, List.mem_cons, not_or]
    refine ⟨?_, hcached⟩
    rintro rfl
    exact huse hmem
  nodup := List.nodup_cons.mpr ⟨fun hcached => (hsound.cached number hcached).2 hmem, hsound.nodup⟩
  cached := by
    intro other hother
    cases List.mem_cons.mp hother with
    | inl hsame =>
        rw [hsame]
        exact ⟨hnode, hnodup.not_mem_erase⟩
    | inr hcached =>
        obtain ⟨hother, huse⟩ := hsound.cached other hcached
        exact ⟨hother, fun herase => huse (List.mem_of_mem_erase herase)⟩
  kept := by
    intro other hother
    cases List.mem_cons.mp hother with
    | inl hsame =>
        left
        rw [hsame]
        exact List.mem_cons_self
    | inr hfreed =>
        cases hsound.kept other hfreed with
        | inl hcached => exact Or.inl (List.mem_cons_of_mem number hcached)
        | inr hfree => exact Or.inr hfree

end Saving

end Sql602.ExtIndex
