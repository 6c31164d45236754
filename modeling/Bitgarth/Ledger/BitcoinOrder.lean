import Bitgarth.Foundation.KahnOrder
import Bitgarth.Foundation.RowSelection
import Bitgarth.Ledger.Entry

/-! # Dependency order of confirmed Bitcoin entries

Confirmed entries settle by block height; inside a block an entry settles after the
same-block parents it spends from, smallest hash first. `mem_front_iff_settlesBefore`
states which entries precede a given one in the computed order.
-/

namespace Bitgarth.Ledger

open Amounts

/-- The dependency table of one block: each hash with its same-block parents. -/
def dependencyTable (block : List LedgerBuildEntry) : KahnOrder.Table String :=
  block.map fun entry => (entry.txHash, entry.sameBlockParentHashes)

/-- The last position filed under a hash, as a map collected from pairs keeps it. -/
def byHash (indices : List IndexedEntry) (hash : String) : Option IndexedEntry :=
  indices.reverse.find? (fun indexed => indexed.1.txHash = hash)

/-- The first entry with a parent outside the block, and its smallest such parent. -/
def unresolvedParent (indices : List IndexedEntry) : Option (String × String) :=
  indices.findSome? fun indexed =>
    ((indexed.1.sameBlockParentHashes.dedup.insertionSort (· ≤ ·)).find?
      (fun parent => parent ∉ (dependencyTable (indices.map Prod.fst)).keys)).map
      fun parent => (parent, indexed.1.txHash)

/-- Positions of the settled hashes. -/
def lookupAll (indices : List IndexedEntry) : List String → Except DbError (List IndexedEntry)
  | [] => .ok []
  | hash :: rest =>
    match byHash indices hash with
    | none => .error ⟨"Missing ready Bitcoin transaction"⟩
    | some indexed => do
        let later ← lookupAll indices rest
        return indexed :: later

/-- The order of the entries of one block. -/
def orderHeight (height : ℤ) (indices : List IndexedEntry) : Except DbError (List IndexedEntry) :=
  match unresolvedParent indices with
  | some (parentHash, txHash) =>
    .error ⟨"Unresolved same-block Bitcoin dependency " ++ parentHash ++ " for " ++ txHash ++
      " at height " ++ toString height⟩
  | none =>
    match KahnOrder.order (dependencyTable (indices.map Prod.fst)) with
    | none => .error ⟨"Invalid Bitcoin dependency count"⟩
    | some hashes => do
        let ordered ← lookupAll indices hashes
        if ordered.length ≠ indices.length then
          .error ⟨"Cycle in same-block Bitcoin dependencies at height " ++ toString height⟩
        else
          return ordered

/-- The entries at one height, in list order. -/
def atHeight (confirmed : List IndexedEntry) (height : ℤ) : List IndexedEntry :=
  confirmed.filter fun indexed => indexed.1.blockHeight = some height

/-- Order each block in turn. -/
def orderHeights (confirmed : List IndexedEntry) : List ℤ → Except DbError (List IndexedEntry)
  | [] => .ok []
  | height :: rest => do
      let block ← orderHeight height (atHeight confirmed height)
      let later ← orderHeights confirmed rest
      return block ++ later

/-- The confirmed entries with their positions. -/
def confirmedEntries (entries : List LedgerBuildEntry) : List IndexedEntry :=
  entries.zipIdx.filter fun indexed => indexed.1.status = .confirmed

/-- The distinct block heights of the given entries, ascending. -/
def blockHeights (confirmed : List IndexedEntry) : List ℤ :=
  (confirmed.filterMap fun indexed => indexed.1.blockHeight).dedup.insertionSort (· ≤ ·)

/-- `order_confirmed_bitcoin_entries`. -/
def orderConfirmedBitcoinEntries (entries : List LedgerBuildEntry) :
    Except DbError (List IndexedEntry) :=
  match (confirmedEntries entries).find? (fun indexed => indexed.1.blockHeight = none) with
  | some (entry, _) =>
    .error ⟨"Confirmed Bitcoin transaction " ++ entry.txHash ++ " has no block height"⟩
  | none => orderHeights (confirmedEntries entries) (blockHeights (confirmedEntries entries))

/-! ## The computed order, without the loop -/

/-- The confirmed entries at one height. -/
def blockEntries (entries : List LedgerBuildEntry) (height : ℤ) : List LedgerBuildEntry :=
  entries.filter fun entry => entry.status = .confirmed ∧ entry.blockHeight = some height

/-- `earlier` lies in a lower block, or must settle before `later` inside its block. -/
def SettlesBefore (entries : List LedgerBuildEntry) (earlier later : LedgerBuildEntry) : Prop :=
  ∃ earlierHeight laterHeight, earlier.blockHeight = some earlierHeight ∧
    later.blockHeight = some laterHeight ∧
    (earlierHeight < laterHeight ∨ earlierHeight = laterHeight ∧
      KahnOrder.SettlesBefore (dependencyTable (blockEntries entries laterHeight))
        earlier.txHash later.txHash)

theorem atHeight_map_fst (entries : List LedgerBuildEntry) (height : ℤ) :
    (atHeight (confirmedEntries entries) height).map Prod.fst = blockEntries entries height := by
  unfold atHeight confirmedEntries blockEntries
  rw [List.filter_filter]
  conv_rhs => rw [← List.zipIdx_map_fst 0 entries, List.filter_map]
  congr 1
  refine List.filter_congr fun indexed _ => ?_
  simp [Bool.and_comm]

theorem confirmedEntries_map_fst (entries : List LedgerBuildEntry) :
    (confirmedEntries entries).map Prod.fst =
      entries.filter fun entry => entry.status = .confirmed := by
  conv_rhs => rw [← List.zipIdx_map_fst 0 entries, List.filter_map]
  rfl

theorem dependencyTable_keys (block : List LedgerBuildEntry) :
    (dependencyTable block).keys = block.map LedgerBuildEntry.txHash := by
  simp [dependencyTable, KahnOrder.Table.keys]

theorem lookupAll_spec {indices ordered : List IndexedEntry} {hashes : List String}
    (found : lookupAll indices hashes = .ok ordered) :
    ordered.map (fun indexed => indexed.1.txHash) = hashes ∧
      ∀ indexed ∈ ordered, indexed ∈ indices := by
  induction hashes generalizing ordered with
  | nil =>
    simp only [lookupAll, Except.ok.injEq] at found
    subst found
    simp
  | cons hash rest ih =>
    unfold lookupAll at found
    cases position : byHash indices hash with
    | none => simp [position] at found
    | some indexed =>
      simp only [position] at found
      obtain ⟨later, tail, found⟩ := Fallible.bind_eq_ok.mp found
      rw [Fallible.pure_eq_ok] at found
      subst found
      obtain ⟨hashesEq, contained⟩ := ih tail
      have filed := List.find?_some position
      have member := List.mem_of_find?_eq_some position
      refine ⟨by simpa [hashesEq] using filed, ?_⟩
      intro other present
      rcases List.mem_cons.mp present with rfl | inLater
      · exact List.mem_reverse.mp member
      · exact contained other inLater

theorem orderHeight_inv {height : ℤ} {indices ordered : List IndexedEntry}
    (computed : orderHeight height indices = .ok ordered) :
    unresolvedParent indices = none ∧ ordered.length = indices.length ∧
      ∃ hashes, KahnOrder.order (dependencyTable (indices.map Prod.fst)) = some hashes ∧
        lookupAll indices hashes = .ok ordered := by
  unfold orderHeight at computed
  cases unresolved : unresolvedParent indices with
  | some pair => simp [unresolved] at computed
  | none =>
    cases ran : KahnOrder.order (dependencyTable (indices.map Prod.fst)) with
    | none => simp [unresolved, ran] at computed
    | some hashes =>
      simp only [unresolved, ran] at computed
      obtain ⟨found, looked, computed⟩ := Fallible.bind_eq_ok.mp computed
      split at computed
      · simp at computed
      rename_i sameLength
      rw [Fallible.pure_eq_ok] at computed
      subst computed
      exact ⟨rfl, not_not.mp sameLength, hashes, rfl, looked⟩

theorem dependencyTable_map_fst_keys (indices : List IndexedEntry) :
    (dependencyTable (indices.map Prod.fst)).keys =
      indices.map fun indexed => indexed.1.txHash := by
  rw [dependencyTable_keys, List.map_map]
  rfl

theorem orderHeight_settles {height : ℤ} {indices ordered : List IndexedEntry}
    (distinct : (indices.map fun indexed => indexed.1.txHash).Nodup)
    (computed : orderHeight height indices = .ok ordered) :
    KahnOrder.Settles (dependencyTable (indices.map Prod.fst)) ∅
      (ordered.map fun indexed => indexed.1.txHash) := by
  obtain ⟨_, _, hashes, ran, looked⟩ := orderHeight_inv computed
  obtain ⟨settled, settledRan, settles⟩ := @KahnOrder.order_settles String _
    (dependencyTable (indices.map Prod.fst)) (dependencyTable_map_fst_keys indices ▸ distinct)
  rw [ran, Option.some.injEq] at settledRan
  rw [(lookupAll_spec looked).1, settledRan]
  exact settles

/-- The order of a block lists its entries and respects `KahnOrder.SettlesBefore`. -/
theorem orderHeight_spec {height : ℤ} {indices ordered : List IndexedEntry}
    (distinct : (indices.map fun indexed => indexed.1.txHash).Nodup)
    (computed : orderHeight height indices = .ok ordered) :
    ordered.Perm indices ∧ ∀ front later back, ordered = front ++ later :: back →
      ∀ earlier ∈ indices, earlier ∈ front ↔
        KahnOrder.SettlesBefore (dependencyTable (indices.map Prod.fst))
          earlier.1.txHash later.1.txHash := by
  have settles := orderHeight_settles distinct computed
  obtain ⟨_, sameLength, hashes, _, looked⟩ := orderHeight_inv computed
  have contained := (lookupAll_spec looked).2
  have perm : ordered.Perm indices :=
    ((settles.nodup.of_map _).subperm contained).perm_of_length_le (by rw [sameLength])
  refine ⟨perm, ?_⟩
  rintro front later back rfl earlier member
  rw [List.map_append, List.map_cons] at settles
  have complete : ∀ hash ∈ (dependencyTable (indices.map Prod.fst)).keys,
      hash ∈ front.map (fun indexed => indexed.1.txHash) ++ later.1.txHash ::
        back.map fun indexed => indexed.1.txHash := by
    intro hash listed
    rw [dependencyTable_map_fst_keys] at listed
    have permuted := (perm.map fun indexed => indexed.1.txHash).mem_iff.mpr listed
    simpa using permuted
  rw [← KahnOrder.mem_prefix_iff_settlesBefore settles complete]
  constructor
  · exact fun inside => List.mem_map.mpr ⟨earlier, inside, rfl⟩
  · intro inside
    obtain ⟨other, otherMember, same⟩ := List.mem_map.mp inside
    have otherIndexed := contained other (List.mem_append_left _ otherMember)
    rwa [← List.inj_on_of_nodup_map distinct otherIndexed member same]

section Heights

variable {entries : List LedgerBuildEntry}

theorem mem_atHeight {confirmed : List IndexedEntry} {height : ℤ} {indexed : IndexedEntry} :
    indexed ∈ atHeight confirmed height ↔
      indexed ∈ confirmed ∧ indexed.1.blockHeight = some height := by
  simp [atHeight]

theorem atHeight_map_txHash_nodup {confirmed : List IndexedEntry}
    (distinct : (confirmed.map fun indexed => indexed.1.txHash).Nodup) (height : ℤ) :
    ((atHeight confirmed height).map fun indexed => indexed.1.txHash).Nodup :=
  distinct.sublist (List.filter_sublist.map _)

theorem settlesBefore_iff_of_same_height {earlier later : LedgerBuildEntry} {height : ℤ}
    (earlierHeight : earlier.blockHeight = some height)
    (laterHeight : later.blockHeight = some height) :
    SettlesBefore entries earlier later ↔
      KahnOrder.SettlesBefore (dependencyTable (blockEntries entries height))
        earlier.txHash later.txHash := by
  constructor
  · rintro ⟨left, right, leftHeight, rightHeight, less | ⟨_, before⟩⟩
    · rw [earlierHeight] at leftHeight
      rw [laterHeight] at rightHeight
      simp only [Option.some.injEq] at leftHeight rightHeight
      omega
    · rw [laterHeight] at rightHeight
      simp only [Option.some.injEq] at rightHeight
      subst rightHeight
      exact before
  · exact fun before => ⟨height, height, earlierHeight, laterHeight, .inr ⟨rfl, before⟩⟩

theorem settlesBefore_iff_of_ne_height {earlier later : LedgerBuildEntry}
    {earlierHeight laterHeight : ℤ} (earlierEq : earlier.blockHeight = some earlierHeight)
    (laterEq : later.blockHeight = some laterHeight) (differ : earlierHeight ≠ laterHeight) :
    SettlesBefore entries earlier later ↔ earlierHeight < laterHeight := by
  constructor
  · rintro ⟨left, right, leftHeight, rightHeight, less | ⟨same, _⟩⟩ <;>
      rw [earlierEq] at leftHeight <;> rw [laterEq] at rightHeight <;>
      simp only [Option.some.injEq] at leftHeight rightHeight <;> omega
  · exact fun less => ⟨earlierHeight, laterHeight, earlierEq, laterEq, .inl less⟩

/-- The order over ascending heights lists the entries at these heights and respects
`SettlesBefore`. -/
theorem orderHeights_spec
    (distinct : ((confirmedEntries entries).map fun indexed => indexed.1.txHash).Nodup)
    {heights : List ℤ} (ascending : heights.Pairwise (· < ·)) {ordered : List IndexedEntry}
    (computed : orderHeights (confirmedEntries entries) heights = .ok ordered) :
    ordered.Nodup ∧
      (∀ indexed, indexed ∈ ordered ↔ indexed ∈ confirmedEntries entries ∧
        ∃ height ∈ heights, indexed.1.blockHeight = some height) ∧
      ∀ front later back, ordered = front ++ later :: back →
        ∀ earlier ∈ ordered, earlier ∈ front ↔ SettlesBefore entries earlier.1 later.1 := by
  induction heights generalizing ordered with
  | nil =>
    simp only [orderHeights, Except.ok.injEq] at computed
    subst computed
    simp
  | cons height heights ih =>
    obtain ⟨lowest, ascending⟩ := List.pairwise_cons.mp ascending
    unfold orderHeights at computed
    obtain ⟨block, here, computed⟩ := Fallible.bind_eq_ok.mp computed
    obtain ⟨rest, there, computed⟩ := Fallible.bind_eq_ok.mp computed
    rw [Fallible.pure_eq_ok] at computed
    subst computed
    have blockDistinct := atHeight_map_txHash_nodup distinct height
    obtain ⟨perm, blockOrder⟩ := orderHeight_spec blockDistinct here
    obtain ⟨restNodup, restMem, restOrder⟩ := ih ascending there
    rw [atHeight_map_fst] at blockOrder
    have blockMem : ∀ indexed, indexed ∈ block ↔
        indexed ∈ confirmedEntries entries ∧ indexed.1.blockHeight = some height :=
      fun indexed => perm.mem_iff.trans mem_atHeight
    have higher : ∀ indexed ∈ rest, ∃ above, indexed.1.blockHeight = some above ∧
        height < above := by
      intro indexed member
      obtain ⟨above, listed, eq⟩ := ((restMem indexed).mp member).2
      exact ⟨above, eq, lowest above listed⟩
    have disjoint : ∀ indexed ∈ block, indexed ∉ rest := by
      intro indexed inBlock inRest
      obtain ⟨above, eq, less⟩ := higher indexed inRest
      rw [((blockMem indexed).mp inBlock).2] at eq
      simp only [Option.some.injEq] at eq
      omega
    refine ⟨?_, ?_, ?_⟩
    · refine List.nodup_append'.mpr ⟨?_, restNodup, disjoint⟩
      exact perm.nodup_iff.mpr (blockDistinct.of_map _)
    · intro indexed
      rw [List.mem_append, blockMem, restMem]
      simp only [List.mem_cons, exists_eq_or_imp]
      tauto
    · -- `later` lies in the lowest block or in a higher one.
      intro front later back whole earlier member
      have place : (∃ tail, block = front ++ later :: tail) ∨
          ∃ init, front = block ++ init ∧ rest = init ++ later :: back := by
        rcases List.append_eq_append_iff.mp whole with
          ⟨init, frontEq, restEq⟩ | ⟨tail, blockEq, restEq⟩
        · exact .inr ⟨init, frontEq, restEq⟩
        · cases tail with
          | nil => exact .inr ⟨[], by simpa using blockEq.symm, by simpa using restEq.symm⟩
          | cons first tail =>
            simp only [List.cons_append, List.cons.injEq] at restEq
            exact .inl ⟨tail, by rw [blockEq, restEq.1]⟩
      rcases place with ⟨tail, blockEq⟩ | ⟨init, rfl, restEq⟩
      · have laterHeight := ((blockMem later).mp (by simp [blockEq])).2
        rcases List.mem_append.mp member with inBlock | inRest
        · have earlierHeight := ((blockMem earlier).mp inBlock).2
          rw [settlesBefore_iff_of_same_height earlierHeight laterHeight]
          exact blockOrder front later tail blockEq earlier (perm.mem_iff.mp inBlock)
        · obtain ⟨above, earlierHeight, less⟩ := higher earlier inRest
          rw [settlesBefore_iff_of_ne_height earlierHeight laterHeight (by omega)]
          have absent : earlier ∉ front := fun inFront =>
            disjoint earlier (by simp [blockEq, inFront]) inRest
          simp only [absent, false_iff, not_lt]
          omega
      · obtain ⟨above, laterHeight, less⟩ := higher later (by simp [restEq])
        rcases List.mem_append.mp member with inBlock | inRest
        · have earlierHeight := ((blockMem earlier).mp inBlock).2
          rw [settlesBefore_iff_of_ne_height earlierHeight laterHeight (by omega)]
          simp only [List.mem_append, inBlock, true_or, less]
        · have absent : earlier ∉ block := fun inBlock =>
            disjoint earlier inBlock inRest
          rw [List.mem_append, or_iff_right absent]
          exact restOrder init later back restEq earlier inRest

theorem blockHeights_ascending (confirmed : List IndexedEntry) :
    (blockHeights confirmed).Pairwise (· < ·) := by
  unfold blockHeights
  have sorted := List.pairwise_insertionSort (· ≤ ·)
    (confirmed.filterMap fun indexed => indexed.1.blockHeight).dedup
  have nodup := (List.perm_insertionSort (· ≤ ·)
    (confirmed.filterMap fun indexed => indexed.1.blockHeight).dedup).nodup_iff.mpr
      (List.nodup_dedup _)
  exact (sorted.and nodup).imp fun both => lt_of_le_of_ne both.1 both.2

theorem mem_blockHeights {confirmed : List IndexedEntry} {height : ℤ} :
    height ∈ blockHeights confirmed ↔
      ∃ indexed ∈ confirmed, indexed.1.blockHeight = some height := by
  unfold blockHeights
  rw [(List.perm_insertionSort _ _).mem_iff, List.mem_dedup, List.mem_filterMap]

theorem confirmedEntries_map_txHash_nodup (distinct : (entries.map (·.txHash)).Nodup) :
    ((confirmedEntries entries).map fun indexed => indexed.1.txHash).Nodup :=
  (zipIdx_map_txHash_nodup distinct).sublist (List.filter_sublist.map _)

/-- **The computed dependency order.** It lists the confirmed entries, all of which have
a height, and the entries in front of one are exactly those that settle before it. -/
theorem orderConfirmedBitcoinEntries_spec (distinct : (entries.map (·.txHash)).Nodup)
    {ordered : List IndexedEntry} (computed : orderConfirmedBitcoinEntries entries = .ok ordered) :
    ordered.Perm (confirmedEntries entries) ∧
      (∀ indexed ∈ ordered, ∃ height, indexed.1.blockHeight = some height) ∧
      ∀ front later back, ordered = front ++ later :: back →
        ∀ earlier ∈ ordered, earlier ∈ front ↔ SettlesBefore entries earlier.1 later.1 := by
  have confirmedDistinct := confirmedEntries_map_txHash_nodup distinct
  unfold orderConfirmedBitcoinEntries at computed
  cases missing : (confirmedEntries entries).find?
      (fun indexed => indexed.1.blockHeight = none) with
  | some indexed => simp [missing] at computed
  | none =>
    simp only [missing] at computed
    obtain ⟨nodup, members, order⟩ := orderHeights_spec confirmedDistinct
      (blockHeights_ascending _) computed
    have heights : ∀ indexed ∈ confirmedEntries entries,
        ∃ height, indexed.1.blockHeight = some height := by
      intro indexed member
      have present := List.find?_eq_none.mp missing indexed member
      simp only [decide_eq_true_eq] at present
      exact Option.ne_none_iff_exists'.mp present
    refine ⟨?_, ?_, order⟩
    · refine (List.perm_ext_iff_of_nodup nodup (confirmedDistinct.of_map _)).mpr ?_
      intro indexed
      rw [members]
      refine ⟨And.left, fun member => ⟨member, ?_⟩⟩
      obtain ⟨height, eq⟩ := heights indexed member
      exact ⟨height, mem_blockHeights.mpr ⟨indexed, member, eq⟩, eq⟩
    · exact fun indexed member => heights indexed ((members indexed).mp member).1

end Heights

end Bitgarth.Ledger
