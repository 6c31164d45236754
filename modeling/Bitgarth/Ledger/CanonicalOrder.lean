import Bitgarth.Foundation.LeastOrder
import Bitgarth.Ledger.BitcoinOrder

/-! # The dependency order is canonical

`Orderable` says when the confirmed entries have a dependency order, and
`CanonicalOrder` what the order is: the least topological order of each block, lower
blocks first. Neither mentions the list order of the entries.
-/

namespace Bitgarth.Ledger

open KahnOrder (TopologicalOrder Acyclic Closed)

/-- What the confirmed entries need for a dependency order. -/
structure Orderable (entries : List LedgerBuildEntry) : Prop where
  heights : ∀ entry ∈ entries, entry.status = .confirmed → entry.blockHeight ≠ none
  parents : ∀ child ∈ entries, child.status = .confirmed →
    ∀ parentHash ∈ child.sameBlockParentHashes, ∃ parent ∈ entries,
      parent.status = .confirmed ∧ parent.blockHeight = child.blockHeight ∧
        parent.txHash = parentHash
  acyclic : ∀ height, Acyclic (dependencyTable (blockEntries entries height))

/-- The hashes of the ordered entries of one block. -/
def hashesAt (ordered : List IndexedEntry) (height : ℤ) : List String :=
  (atHeight ordered height).map fun indexed => indexed.1.txHash

/-- `ordered` lists the confirmed entries by ascending blocks, each block in the least
topological order of its dependencies. -/
structure CanonicalOrder (entries : List LedgerBuildEntry) (ordered : List IndexedEntry) :
    Prop where
  once : (ordered.map Prod.snd).Nodup
  confirmed : ∀ entry index, (entry, index) ∈ ordered ↔
    entries[index]? = some entry ∧ entry.status = .confirmed
  ascending : ordered.Pairwise fun earlier later => ∃ low high,
    earlier.1.blockHeight = some low ∧ later.1.blockHeight = some high ∧ low ≤ high
  parents_first : ∀ front child back, ordered = front ++ child :: back →
    ∀ parentHash ∈ child.1.sameBlockParentHashes, ∃ parent ∈ front,
      parent.1.txHash = parentHash ∧ parent.1.blockHeight = child.1.blockHeight
  topological : ∀ height,
    TopologicalOrder (dependencyTable (blockEntries entries height)) (hashesAt ordered height)
  least : ∀ height other,
    TopologicalOrder (dependencyTable (blockEntries entries height)) other →
      hashesAt ordered height ≤ other

/-! ## One block -/

section Block

variable {indices : List IndexedEntry} {height : ℤ}

theorem dependsOn_dependencyTable {block : List LedgerBuildEntry} {child parent : String} :
    KahnOrder.DependsOn (dependencyTable block) child parent ↔
      ∃ entry ∈ block, entry.txHash = child ∧ parent ∈ entry.sameBlockParentHashes := by
  unfold KahnOrder.DependsOn dependencyTable
  constructor
  · rintro ⟨parents, row, member⟩
    obtain ⟨entry, inBlock, same⟩ := List.mem_map.mp row
    rw [Prod.mk.injEq] at same
    exact ⟨entry, inBlock, same.1, same.2 ▸ member⟩
  · rintro ⟨entry, inBlock, named, member⟩
    refine ⟨entry.sameBlockParentHashes, List.mem_map.mpr ⟨entry, inBlock, ?_⟩, member⟩
    rw [named]

theorem unresolvedParent_eq_none_iff :
    unresolvedParent indices = none ↔ Closed (dependencyTable (indices.map Prod.fst)) := by
  unfold unresolvedParent
  simp only [List.findSome?_eq_none_iff, Option.map_eq_none_iff, List.find?_eq_none,
    decide_eq_true_eq, not_not, (List.perm_insertionSort _ _).mem_iff, List.mem_dedup]
  constructor
  · intro resolved child parent depends
    obtain ⟨entry, inBlock, _, member⟩ := dependsOn_dependencyTable.mp depends
    obtain ⟨indexed, listed, rfl⟩ := List.mem_map.mp inBlock
    exact resolved indexed listed parent member
  · intro closed indexed listed parent member
    exact closed indexed.1.txHash parent
      (dependsOn_dependencyTable.mpr ⟨indexed.1, List.mem_map_of_mem listed, rfl, member⟩)

theorem exists_lookupAll {hashes : List String}
    (filed : ∀ hash ∈ hashes, ∃ indexed ∈ indices, indexed.1.txHash = hash) :
    ∃ ordered, lookupAll indices hashes = .ok ordered := by
  induction hashes with
  | nil => exact ⟨[], rfl⟩
  | cons hash rest ih =>
    obtain ⟨later, looked⟩ := ih fun other member => filed other (List.mem_cons_of_mem _ member)
    obtain ⟨indexed, listed, named⟩ := filed hash List.mem_cons_self
    cases found : byHash indices hash with
    | none =>
      have missing := List.find?_eq_none.mp found indexed (List.mem_reverse.mpr listed)
      simp [named] at missing
    | some indexed =>
      refine ⟨indexed :: later, ?_⟩
      rw [lookupAll, found]
      simp only [looked]
      rfl

theorem orderHeight_ok_iff (distinct : (indices.map fun indexed => indexed.1.txHash).Nodup) :
    (∃ ordered, orderHeight height indices = .ok ordered) ↔
      Closed (dependencyTable (indices.map Prod.fst)) ∧
        Acyclic (dependencyTable (indices.map Prod.fst)) := by
  have keysNodup : (dependencyTable (indices.map Prod.fst)).keys.Nodup := by
    rw [dependencyTable_map_fst_keys]
    exact distinct
  have rows : (dependencyTable (indices.map Prod.fst)).length = indices.length := by
    simp [dependencyTable]
  constructor
  · rintro ⟨ordered, computed⟩
    obtain ⟨unresolved, sameLength, _⟩ := orderHeight_inv computed
    refine ⟨unresolvedParent_eq_none_iff.mp unresolved, ?_⟩
    have settles := orderHeight_settles distinct computed
    refine (settles.topologicalOrder ?_).acyclic
    rw [List.length_map, rows, sameLength]
  · rintro ⟨closed, acyclic⟩
    obtain ⟨hashes, ran, settles, complete⟩ := KahnOrder.order_complete_iff keysNodup closed
    have filed : ∀ hash ∈ hashes, ∃ indexed ∈ indices, indexed.1.txHash = hash := by
      intro hash member
      have listed := (settles.mem_keys hash member).1
      rw [dependencyTable_map_fst_keys] at listed
      exact List.mem_map.mp listed
    obtain ⟨ordered, looked⟩ := exists_lookupAll filed
    have sameLength : ordered.length = indices.length := by
      rw [← rows, ← complete.mpr acyclic, ← (lookupAll_spec looked).1, List.length_map]
    refine ⟨ordered, ?_⟩
    simp only [orderHeight, unresolvedParent_eq_none_iff.mpr closed, ran, looked]
    refine Fallible.bind_eq_ok.mpr ⟨ordered, rfl, ?_⟩
    rw [if_neg (not_not.mpr sameLength)]
    rfl

end Block

/-! ## All blocks -/

section Blocks

variable {entries : List LedgerBuildEntry}

theorem orderHeights_ok_iff {confirmed : List IndexedEntry} {heights : List ℤ} :
    (∃ ordered, orderHeights confirmed heights = .ok ordered) ↔
      ∀ height ∈ heights, ∃ block, orderHeight height (atHeight confirmed height) = .ok block := by
  induction heights with
  | nil => simp [orderHeights]
  | cons height heights ih =>
    rw [List.forall_mem_cons, ← ih]
    constructor
    · rintro ⟨ordered, computed⟩
      obtain ⟨block, here, computed⟩ := Fallible.bind_eq_ok.mp computed
      obtain ⟨later, there, _⟩ := Fallible.bind_eq_ok.mp computed
      exact ⟨⟨block, here⟩, later, there⟩
    · rintro ⟨⟨block, here⟩, later, there⟩
      exact ⟨block ++ later, Fallible.bind_eq_ok.mpr ⟨block, here,
        Fallible.bind_eq_ok.mpr ⟨later, there, rfl⟩⟩⟩

theorem mem_blockEntries {height : ℤ} {entry : LedgerBuildEntry} :
    entry ∈ blockEntries entries height ↔
      entry ∈ entries ∧ entry.status = .confirmed ∧ entry.blockHeight = some height := by
  simp [blockEntries]

theorem mem_confirmedEntries {indexed : IndexedEntry} :
    indexed ∈ confirmedEntries entries ↔
      entries[indexed.2]? = some indexed.1 ∧ indexed.1.status = .confirmed := by
  obtain ⟨entry, index⟩ := indexed
  simp only [confirmedEntries, List.mem_filter, List.mem_zipIdx_iff_getElem?, decide_eq_true_eq]

theorem blockEntries_txHash_nodup (distinct : (entries.map (·.txHash)).Nodup) (height : ℤ) :
    ((blockEntries entries height).map (·.txHash)).Nodup :=
  distinct.sublist (List.filter_sublist.map _)

theorem parents_iff_closed
    (heights : ∀ entry ∈ entries, entry.status = .confirmed → entry.blockHeight ≠ none) :
    (∀ child ∈ entries, child.status = .confirmed →
      ∀ parentHash ∈ child.sameBlockParentHashes, ∃ parent ∈ entries,
        parent.status = .confirmed ∧ parent.blockHeight = child.blockHeight ∧
          parent.txHash = parentHash) ↔
      ∀ height, Closed (dependencyTable (blockEntries entries height)) := by
  constructor
  · intro parents height childHash parentHash depends
    obtain ⟨child, inBlock, _, member⟩ := dependsOn_dependencyTable.mp depends
    obtain ⟨listed, confirmed, atHeight⟩ := mem_blockEntries.mp inBlock
    obtain ⟨parent, parentListed, parentConfirmed, sameHeight, named⟩ :=
      parents child listed confirmed parentHash member
    rw [dependencyTable_keys, ← named]
    exact List.mem_map_of_mem
      (mem_blockEntries.mpr ⟨parentListed, parentConfirmed, sameHeight.trans atHeight⟩)
  · intro closed child listed confirmed parentHash member
    obtain ⟨height, atHeight⟩ := Option.ne_none_iff_exists'.mp (heights child listed confirmed)
    have inBlock := mem_blockEntries.mpr ⟨listed, confirmed, atHeight⟩
    have depends := dependsOn_dependencyTable.mpr ⟨child, inBlock, rfl, member⟩
    have found := closed height child.txHash parentHash depends
    rw [dependencyTable_keys] at found
    obtain ⟨parent, parentInBlock, named⟩ := List.mem_map.mp found
    obtain ⟨parentListed, parentConfirmed, parentHeight⟩ := mem_blockEntries.mp parentInBlock
    exact ⟨parent, parentListed, parentConfirmed, parentHeight.trans atHeight.symm, named⟩

theorem find?_heightless_eq_none_iff :
    (confirmedEntries entries).find? (fun indexed => indexed.1.blockHeight = none) = none ↔
      ∀ entry ∈ entries, entry.status = .confirmed → entry.blockHeight ≠ none := by
  simp only [List.find?_eq_none, decide_eq_true_eq]
  constructor
  · intro absent entry listed confirmed
    obtain ⟨index, placed⟩ := exists_position listed
    exact absent (entry, index) (List.mem_filter.mpr ⟨placed, decide_eq_true confirmed⟩)
  · intro heights indexed member
    obtain ⟨placed, confirmed⟩ := List.mem_filter.mp member
    exact heights indexed.1 (mem_entries_of_mem_zipIdx placed) (of_decide_eq_true confirmed)

theorem orderConfirmedBitcoinEntries_ok_iff (distinct : (entries.map (·.txHash)).Nodup) :
    (∃ ordered, orderConfirmedBitcoinEntries entries = .ok ordered) ↔ Orderable entries := by
  have confirmedDistinct := confirmedEntries_map_txHash_nodup distinct
  -- A block is ordered when its table is closed and acyclic; other heights have empty tables.
  have blocks : (∃ ordered, orderHeights (confirmedEntries entries)
      (blockHeights (confirmedEntries entries)) = .ok ordered) ↔
      ∀ height, Closed (dependencyTable (blockEntries entries height)) ∧
        Acyclic (dependencyTable (blockEntries entries height)) := by
    rw [orderHeights_ok_iff]
    constructor
    · intro ordered height
      by_cases used : height ∈ blockHeights (confirmedEntries entries)
      · have placed := (orderHeight_ok_iff (atHeight_map_txHash_nodup confirmedDistinct height)).mp
          (ordered height used)
        rwa [atHeight_map_fst] at placed
      · have empty : blockEntries entries height = [] := by
          rw [← atHeight_map_fst, List.map_eq_nil_iff, List.eq_nil_iff_forall_not_mem]
          intro indexed member
          obtain ⟨listed, placed⟩ := mem_atHeight.mp member
          exact used (mem_blockHeights.mpr ⟨indexed, listed, placed⟩)
        rw [empty]
        have isolated : ∀ child parent,
            ¬ KahnOrder.DependsOn (dependencyTable []) child parent := by
          rintro child parent ⟨parents, row, _⟩
          exact absurd row List.not_mem_nil
        refine ⟨fun child parent depends => absurd depends (isolated child parent), ?_⟩
        intro hash cycle
        obtain ⟨parent, depends, _⟩ := Relation.TransGen.head'_iff.mp cycle
        exact isolated hash parent depends
    · intro orderable height _
      refine (orderHeight_ok_iff (atHeight_map_txHash_nodup confirmedDistinct height)).mpr ?_
      rw [atHeight_map_fst]
      exact orderable height
  unfold orderConfirmedBitcoinEntries
  cases missing : (confirmedEntries entries).find?
      (fun indexed => indexed.1.blockHeight = none) with
  | some indexed =>
    simp only [reduceCtorEq, exists_false, false_iff]
    intro orderable
    rw [find?_heightless_eq_none_iff.mpr orderable.heights] at missing
    simp at missing
  | none =>
    have heights := find?_heightless_eq_none_iff.mp missing
    simp only [blocks]
    constructor
    · intro both
      exact ⟨heights, (parents_iff_closed heights).mpr fun height => (both height).1,
        fun height => (both height).2⟩
    · intro orderable height
      exact ⟨(parents_iff_closed heights).mp orderable.parents height, orderable.acyclic height⟩

theorem atHeight_orderHeights
    (distinct : ((confirmedEntries entries).map fun indexed => indexed.1.txHash).Nodup)
    {heights : List ℤ} (nodup : heights.Nodup) {ordered : List IndexedEntry}
    (computed : orderHeights (confirmedEntries entries) heights = .ok ordered) :
    (∀ height ∈ heights, orderHeight height (atHeight (confirmedEntries entries) height) =
      .ok (atHeight ordered height)) ∧ ∀ height ∉ heights, atHeight ordered height = [] := by
  induction heights generalizing ordered with
  | nil =>
    simp only [orderHeights, Except.ok.injEq] at computed
    subst computed
    simp [atHeight]
  | cons lowest heights ih =>
    obtain ⟨fresh, nodup⟩ := List.nodup_cons.mp nodup
    obtain ⟨block, here, computed⟩ := Fallible.bind_eq_ok.mp computed
    obtain ⟨later, there, computed⟩ := Fallible.bind_eq_ok.mp computed
    rw [Fallible.pure_eq_ok] at computed
    subst computed
    obtain ⟨inside, outside⟩ := ih nodup there
    have perm := (orderHeight_spec (atHeight_map_txHash_nodup distinct lowest) here).1
    have blockHeight : ∀ indexed ∈ block, indexed.1.blockHeight = some lowest :=
      fun indexed member => (mem_atHeight.mp (perm.mem_iff.mp member)).2
    have kept : atHeight block lowest = block := by
      refine List.filter_eq_self.mpr ?_
      exact fun indexed member => decide_eq_true (blockHeight indexed member)
    have dropped : ∀ height, height ≠ lowest → atHeight block height = [] := by
      intro height differs
      refine List.filter_eq_nil_iff.mpr ?_
      intro indexed member
      rw [blockHeight indexed member]
      simpa using Ne.symm differs
    have split : ∀ height,
        atHeight (block ++ later) height = atHeight block height ++ atHeight later height :=
      fun height => List.filter_append block later
    refine ⟨?_, ?_⟩
    · intro height member
      rcases List.mem_cons.mp member with rfl | above
      · rw [split, kept, outside height fresh, List.append_nil]
        exact here
      · have differs : height ≠ lowest := fun same => fresh (same ▸ above)
        rw [split, dropped height differs, List.nil_append]
        exact inside height above
    · intro height absent
      rw [List.mem_cons, not_or] at absent
      rw [split, dropped height absent.1, outside height absent.2, List.nil_append]

theorem hashesAt_settles (distinct : (entries.map (·.txHash)).Nodup)
    {ordered : List IndexedEntry} (computed : orderConfirmedBitcoinEntries entries = .ok ordered)
    (height : ℤ) :
    KahnOrder.Settles (dependencyTable (blockEntries entries height)) ∅ (hashesAt ordered height) ∧
      (hashesAt ordered height).length =
        (dependencyTable (blockEntries entries height)).length := by
  have confirmedDistinct := confirmedEntries_map_txHash_nodup distinct
  have blockDistinct := atHeight_map_txHash_nodup confirmedDistinct height
  unfold orderConfirmedBitcoinEntries at computed
  cases missing : (confirmedEntries entries).find?
      (fun indexed => indexed.1.blockHeight = none) with
  | some indexed => simp [missing] at computed
  | none =>
    simp only [missing] at computed
    obtain ⟨inside, outside⟩ := atHeight_orderHeights confirmedDistinct
      ((blockHeights_ascending _).imp fun less => ne_of_lt less) computed
    by_cases used : height ∈ blockHeights (confirmedEntries entries)
    · have settles := orderHeight_settles blockDistinct (inside height used)
      rw [atHeight_map_fst] at settles
      refine ⟨settles, ?_⟩
      rw [hashesAt, List.length_map, (orderHeight_inv (inside height used)).2.1,
        dependencyTable, List.length_map, ← atHeight_map_fst, List.length_map]
    · have empty : atHeight (confirmedEntries entries) height = [] := by
        rw [List.eq_nil_iff_forall_not_mem]
        intro indexed member
        obtain ⟨listed, placed⟩ := mem_atHeight.mp member
        exact used (mem_blockHeights.mpr ⟨indexed, listed, placed⟩)
      rw [hashesAt, outside height used, ← atHeight_map_fst, empty]
      exact ⟨.nil ∅, rfl⟩

theorem pairwise_settlesBefore (distinct : (entries.map (·.txHash)).Nodup)
    {ordered : List IndexedEntry}
    (computed : orderConfirmedBitcoinEntries entries = .ok ordered) :
    (ordered.map Prod.fst).Pairwise (SettlesBefore entries) := by
  obtain ⟨_, _, precedes⟩ := orderConfirmedBitcoinEntries_spec distinct computed
  rw [List.pairwise_map]
  refine RowSelection.pairwise_of_forall_split ?_
  intro front later back whole earlier member
  have listed : earlier ∈ ordered := whole ▸ List.mem_append_left _ member
  exact (precedes front later back whole earlier listed).mp member

theorem not_settlesBefore_both (distinct : (entries.map (·.txHash)).Nodup)
    {ordered : List IndexedEntry} (computed : orderConfirmedBitcoinEntries entries = .ok ordered)
    {one two : IndexedEntry} (oneListed : one ∈ ordered) (twoListed : two ∈ ordered)
    (before : SettlesBefore entries one.1 two.1) (after : SettlesBefore entries two.1 one.1) :
    False := by
  obtain ⟨perm, _, precedes⟩ := orderConfirmedBitcoinEntries_spec distinct computed
  have nodup : ordered.Nodup :=
    perm.nodup_iff.mpr ((confirmedEntries_map_txHash_nodup distinct).of_map _)
  obtain ⟨front, back, rfl⟩ := List.append_of_mem twoListed
  have oneInFront := (precedes front two back rfl one oneListed).mpr before
  obtain ⟨first, second, rfl⟩ := List.append_of_mem oneInFront
  have whole : first ++ one :: second ++ two :: back = first ++ one :: (second ++ two :: back) := by
    simp
  have twoInFirst := (precedes first one _ whole two twoListed).mpr after
  rw [whole] at nodup
  exact (List.nodup_append.mp nodup).2.2 two twoInFirst two (by simp) rfl

theorem canonicalOrder (distinct : (entries.map (·.txHash)).Nodup) {ordered : List IndexedEntry}
    (computed : orderConfirmedBitcoinEntries entries = .ok ordered) :
    CanonicalOrder entries ordered := by
  obtain ⟨perm, heights, precedes⟩ := orderConfirmedBitcoinEntries_spec distinct computed
  have orderable := (orderConfirmedBitcoinEntries_ok_iff distinct).mp ⟨ordered, computed⟩
  have keysNodup : ∀ height, (dependencyTable (blockEntries entries height)).keys.Nodup := by
    intro height
    rw [dependencyTable_keys]
    exact blockEntries_txHash_nodup distinct height
  constructor
  case once =>
    refine (perm.map Prod.snd).nodup_iff.mpr ?_
    exact (zipIdx_map_snd_nodup entries).sublist (List.filter_sublist.map _)
  case confirmed =>
    intro entry index
    rw [perm.mem_iff, mem_confirmedEntries]
  case ascending =>
    refine (List.pairwise_map.mp (pairwise_settlesBefore distinct computed)).imp ?_
    rintro earlier later ⟨low, high, earlierHeight, laterHeight, order⟩
    refine ⟨low, high, earlierHeight, laterHeight, ?_⟩
    rcases order with less | ⟨same, _⟩
    · exact less.le
    · exact same.le
  case parents_first =>
    intro front child back whole parentHash member
    have childListed : child ∈ ordered := by rw [whole]; simp
    obtain ⟨height, atHeight⟩ := heights child childListed
    obtain ⟨placed, confirmed⟩ := List.mem_filter.mp (perm.mem_iff.mp childListed)
    obtain ⟨parent, parentListed, parentConfirmed, sameHeight, named⟩ := orderable.parents child.1
      (mem_entries_of_mem_zipIdx placed) (of_decide_eq_true confirmed) parentHash member
    obtain ⟨index, parentPlaced⟩ := exists_position parentListed
    have parentOrdered : (parent, index) ∈ ordered :=
      perm.mem_iff.mpr (List.mem_filter.mpr ⟨parentPlaced, decide_eq_true parentConfirmed⟩)
    have inBlock : child.1 ∈ blockEntries entries height := mem_blockEntries.mpr
      ⟨mem_entries_of_mem_zipIdx placed, of_decide_eq_true confirmed, atHeight⟩
    have depends : KahnOrder.DependsOn (dependencyTable (blockEntries entries height))
        child.1.txHash parent.txHash :=
      dependsOn_dependencyTable.mpr ⟨child.1, inBlock, rfl, named ▸ member⟩
    have before := (settlesBefore_iff_of_same_height (sameHeight.trans atHeight) atHeight).mpr
      (.parent depends)
    exact ⟨(parent, index), (precedes front child back whole _ parentOrdered).mpr before,
      named, sameHeight⟩
  case topological =>
    intro height
    obtain ⟨settles, complete⟩ := hashesAt_settles distinct computed height
    exact settles.topologicalOrder complete
  case least =>
    intro height other topological
    exact (hashesAt_settles distinct computed height).1.le_of_topologicalOrder
      (keysNodup height) topological

end Blocks

/-! ## Permuted entries -/

section Permuted

variable {entries permuted : List LedgerBuildEntry}

theorem mem_dependencyTable_of_perm (perm : permuted.Perm entries) (height : ℤ) (row) :
    row ∈ dependencyTable (blockEntries permuted height) ↔
      row ∈ dependencyTable (blockEntries entries height) :=
  ((perm.filter _).map _).mem_iff

theorem Orderable.of_perm (orderable : Orderable entries) (perm : permuted.Perm entries) :
    Orderable permuted where
  heights entry listed := orderable.heights entry (perm.mem_iff.mp listed)
  parents child listed confirmed parentHash member := by
    obtain ⟨parent, parentListed, found⟩ :=
      orderable.parents child (perm.mem_iff.mp listed) confirmed parentHash member
    exact ⟨parent, perm.mem_iff.mpr parentListed, found⟩
  acyclic height := (KahnOrder.acyclic_iff_of_mem_iff
    (mem_dependencyTable_of_perm perm height)).mpr (orderable.acyclic height)

theorem SettlesBefore.of_perm (perm : permuted.Perm entries) {earlier later : LedgerBuildEntry}
    (before : SettlesBefore permuted earlier later) : SettlesBefore entries earlier later := by
  obtain ⟨low, high, earlierHeight, laterHeight, order⟩ := before
  refine ⟨low, high, earlierHeight, laterHeight, order.imp id ?_⟩
  rintro ⟨same, settles⟩
  exact ⟨same, settles.of_mem_iff (mem_dependencyTable_of_perm perm high)⟩

theorem map_fst_eq_of_perm (distinct : (entries.map (·.txHash)).Nodup)
    (perm : permuted.Perm entries) {ordered other : List IndexedEntry}
    (computed : orderConfirmedBitcoinEntries entries = .ok ordered)
    (recomputed : orderConfirmedBitcoinEntries permuted = .ok other) :
    other.map Prod.fst = ordered.map Prod.fst := by
  have permutedDistinct : (permuted.map (·.txHash)).Nodup :=
    (perm.map _).nodup_iff.mpr distinct
  have orderedPerm := (orderConfirmedBitcoinEntries_spec distinct computed).1.map Prod.fst
  have otherPerm := (orderConfirmedBitcoinEntries_spec permutedDistinct recomputed).1.map Prod.fst
  rw [confirmedEntries_map_fst] at orderedPerm otherPerm
  have same : (other.map Prod.fst).Perm (ordered.map Prod.fst) :=
    (otherPerm.trans (perm.filter _)).trans orderedPerm.symm
  refine List.Perm.eq_of_pairwise ?_
    ((pairwise_settlesBefore permutedDistinct recomputed).imp fun before => before.of_perm perm)
    (pairwise_settlesBefore distinct computed) same
  intro one two oneListed twoListed before after
  obtain ⟨oneIndexed, oneOrdered, rfl⟩ := List.mem_map.mp (same.mem_iff.mp oneListed)
  obtain ⟨twoIndexed, twoOrdered, rfl⟩ := List.mem_map.mp twoListed
  exact absurd after fun after => not_settlesBefore_both distinct computed oneOrdered twoOrdered
    before after

end Permuted

/-- **A correct and canonical dependency order.** It exists exactly when the confirmed
entries are orderable, it is the canonical order, and permuting the entries leaves the
sequence of hashes unchanged. -/
theorem orderConfirmedBitcoinEntries_canonical (entries : List LedgerBuildEntry)
    (distinct : (entries.map (·.txHash)).Nodup) :
    ((∃ ordered, orderConfirmedBitcoinEntries entries = .ok ordered) ↔ Orderable entries) ∧
      ∀ ordered, orderConfirmedBitcoinEntries entries = .ok ordered →
        CanonicalOrder entries ordered ∧
          ∀ permuted, permuted.Perm entries → ∃ other,
            orderConfirmedBitcoinEntries permuted = .ok other ∧
              other.map (fun indexed => indexed.1.txHash) =
                ordered.map (fun indexed => indexed.1.txHash) := by
  refine ⟨orderConfirmedBitcoinEntries_ok_iff distinct, ?_⟩
  intro ordered computed
  refine ⟨canonicalOrder distinct computed, ?_⟩
  intro permuted perm
  have permutedDistinct : (permuted.map (·.txHash)).Nodup :=
    (perm.map _).nodup_iff.mpr distinct
  have orderable := (orderConfirmedBitcoinEntries_ok_iff distinct).mp ⟨ordered, computed⟩
  obtain ⟨other, recomputed⟩ :=
    (orderConfirmedBitcoinEntries_ok_iff permutedDistinct).mpr (orderable.of_perm perm)
  have same := map_fst_eq_of_perm distinct perm computed recomputed
  refine ⟨other, recomputed, ?_⟩
  have hashes := congrArg (List.map LedgerBuildEntry.txHash) same
  simpa only [List.map_map, Function.comp_def] using hashes

/-- A child listed before its parent, both in block 100. -/
def childBeforeParent : List LedgerBuildEntry :=
  [.confirmedRow "a-child" 100 0 (-4) ["z-parent"], .confirmedRow "z-parent" 100 60 10 []]

theorem orderConfirmedBitcoinEntries_canonical_childBeforeParent :
    (childBeforeParent.map (·.txHash)).Nodup ∧
      ∃ ordered, orderConfirmedBitcoinEntries childBeforeParent = .ok ordered ∧
        ordered.map Prod.snd = [1, 0] ∧ CanonicalOrder childBeforeParent ordered := by
  have distinct : (childBeforeParent.map (·.txHash)).Nodup := by decide
  have computed : orderConfirmedBitcoinEntries childBeforeParent =
      .ok [(.confirmedRow "z-parent" 100 60 10 [], 1),
        (.confirmedRow "a-child" 100 0 (-4) ["z-parent"], 0)] := by decide +kernel
  exact ⟨distinct, _, computed, rfl,
    ((orderConfirmedBitcoinEntries_canonical childBeforeParent distinct).2 _ computed).1⟩

end Bitgarth.Ledger
