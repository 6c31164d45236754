import Mathlib.Data.List.Forall2
import Bitgarth.Store.EtherscanRecords

/-! # Mapping does not depend on the order of provider rows

Records come out by hash, so permuting the rows of either endpoint changes a record in nothing
but the order of the keys it excludes. A record keeps its transfers at distinct indices.
-/

namespace Bitgarth.Store

open Amounts Ledger KeyedTable Text Fallible

/-! ## Display indices -/

theorem isNormal_iff {key : ProviderTransferKey} : key.isNormal = true ↔ key = .normal := by
  unfold ProviderTransferKey.isNormal
  rw [decide_eq_true_eq]
  exact ⟨fun text => ProviderTransferKey.eq_of_text text, fun same => by rw [same]; rfl⟩

theorem index_of_mem_numberTransfers {nextInternalIndex : ℤ}
    {transfers : List SyncAccountTransferRecord} {transfer : SyncAccountTransferRecord}
    (bounded : nextInternalIndex ≤ i64Max)
    (member : transfer ∈ numberTransfers nextInternalIndex transfers) :
    if transfer.providerTransferKey.isNormal then transfer.transferIndex = 0
    else nextInternalIndex ≤ transfer.transferIndex := by
  induction transfers generalizing nextInternalIndex with
  | nil => exact absurd member List.not_mem_nil
  | cons first rest ih =>
    rw [numberTransfers] at member
    split at member <;> rename_i normal <;> rcases List.mem_cons.mp member with rfl | inRest
    · rw [if_pos normal]
    · exact ih bounded inRest
    · rw [if_neg normal]
    · have found := ih (min_le_right _ _) inRest
      split at found <;> rename_i kind
      · rwa [if_pos kind]
      · rw [if_neg kind]
        exact (le_min (by omega) bounded).trans found

theorem nodup_index_numberTransfers {nextInternalIndex : ℤ}
    {transfers : List SyncAccountTransferRecord} (positive : 1 ≤ nextInternalIndex)
    (bounded : nextInternalIndex ≤ i64Max)
    (enough : nextInternalIndex + transfers.length ≤ i64Max + 1)
    (keyed : Keyed SyncAccountTransferRecord.providerTransferKey transfers) :
    ((numberTransfers nextInternalIndex transfers).map
      SyncAccountTransferRecord.transferIndex).Nodup := by
  induction transfers generalizing nextInternalIndex with
  | nil => exact List.nodup_nil
  | cons first rest ih =>
    obtain ⟨fresh, restKeyed⟩ := List.nodup_cons.mp keyed
    rw [List.length_cons, Nat.cast_add, Nat.cast_one] at enough
    rw [numberTransfers]
    split <;> rename_i normal <;> refine List.nodup_cons.mpr ⟨?_, ?_⟩
    · intro again
      obtain ⟨transfer, member, zero⟩ := List.mem_map.mp again
      have found := index_of_mem_numberTransfers bounded member
      split at found <;> rename_i kind
      · have sameKey := (isNormal_iff.mp kind).trans (isNormal_iff.mp normal).symm
        have listed := @List.mem_map_of_mem _ _ _ _
          SyncAccountTransferRecord.providerTransferKey member
        rw [map_key_numberTransfers, sameKey] at listed
        exact fresh listed
      · simp only at zero
        omega
    · exact ih positive bounded (by omega) restKeyed
    · intro again
      obtain ⟨transfer, member, same⟩ := List.mem_map.mp again
      have found := index_of_mem_numberTransfers (min_le_right _ _) member
      simp only at same
      split at found
      · omega
      · have notLast : rest ≠ [] := by
          rintro rfl
          exact absurd member List.not_mem_nil
        have positiveLength := List.length_pos_iff.mpr notLast
        rw [min_eq_left (by omega)] at found
        omega
    · by_cases last : rest = []
      · subst last
        exact List.nodup_nil
      · have positiveLength := List.length_pos_iff.mpr last
        rw [min_eq_left (by omega)]
        exact ih (by omega) (by omega) (by omega) restKeyed

theorem nodup_index_toRecord {aggregated : EtherscanAggregatedTx}
    (keyed : Keyed aggregatedKey aggregated.transfers)
    (enough : (aggregated.transfers.length : ℤ) ≤ i64Max) :
    (aggregated.toRecord.transfers.map SyncAccountTransferRecord.transferIndex).Nodup := by
  have sorted := List.mergeSort_perm
    ((aggregated.transfers.filter fun entry => ¬ aggregated.excludes entry).map Prod.fst) displayLe
  refine nodup_index_numberTransfers le_rfl (by decide) ?_ ?_
  · have shorter := List.length_filter_le (fun entry => ! aggregated.excludes entry)
      aggregated.transfers
    rw [List.length_mergeSort, List.length_map]
    simp only [Bool.not_eq_true, Bool.decide_eq_false]
    omega
  · unfold Keyed
    rw [(sorted.map _).nodup_iff, List.map_map]
    exact keyed.sublist (List.filter_sublist.map aggregatedKey)

/-! ## Permuted rows -/

theorem forall₂_of_map_eq {α κ : Type*} {related : α → α → Prop} {key : α → κ}
    {left right : List α} (sameKeys : left.map key = right.map key)
    (relate : ∀ one ∈ left, ∀ two ∈ right, key one = key two → related one two) :
    List.Forall₂ related left right := by
  induction left generalizing right with
  | nil =>
    rw [List.map_nil, eq_comm, List.map_eq_nil_iff] at sameKeys
    subst sameKeys
    exact .nil
  | cons first rest ih =>
    cases right with
    | nil => simp at sameKeys
    | cons other others =>
      rw [List.map_cons, List.map_cons, List.cons.injEq] at sameKeys
      refine .cons (relate _ List.mem_cons_self _ List.mem_cons_self sameKeys.1) ?_
      refine ih sameKeys.2 ?_
      exact fun one member two member' => relate one (List.mem_cons_of_mem _ member) two
        (List.mem_cons_of_mem _ member')

section Permuted

variable {parseEthAddress : String → Except ParseError String}
  {normals normals' : List EtherscanNormalTx} {internals internals' : List EtherscanInternalTx}
  {records records' : List SyncAccountTransactionRecord}

theorem pairwise_records
    (mapped : mapEtherscanTransactions parseEthAddress normals internals = .ok records) :
    (records.map SyncAccountTransactionRecord.txHash).Pairwise (· ≤ ·) := by
  obtain ⟨normalRows, _, mapped⟩ := bind_eq_ok.mp mapped
  obtain ⟨internalRows, _, mapped⟩ := bind_eq_ok.mp mapped
  rw [pure_eq_ok] at mapped
  subst mapped
  rw [List.map_map, List.pairwise_map]
  have sorted := @List.pairwise_mergeSort EtherscanAggregatedTx
    (fun left right => left.txHash ≤ right.txHash)
    (fun _ _ _ first second => by
      rw [decide_eq_true_eq] at first second ⊢
      exact first.trans second)
    (fun left right => by simpa using le_total left.txHash right.txHash)
    (gatherAll normalRows internalRows)
  exact sorted.imp fun le => of_decide_eq_true le

theorem map_txHash_records
    (mapped : mapEtherscanTransactions parseEthAddress normals internals = .ok records)
    (mapped' : mapEtherscanTransactions parseEthAddress normals' internals' = .ok records')
    (same : ∀ hash, SameRowsOf hash normals normals' internals internals') :
    records.map SyncAccountTransactionRecord.txHash =
      records'.map SyncAccountTransactionRecord.txHash := by
  have sameHashes : ∀ hash, hash ∈ records.map SyncAccountTransactionRecord.txHash ↔
      hash ∈ records'.map SyncAccountTransactionRecord.txHash := by
    intro hash
    rw [List.mem_map, List.mem_map, exists_record_iff mapped, exists_record_iff mapped']
    refine or_congr (exists_congr fun raw => ?_) (exists_congr fun raw => ?_)
    · exact and_congr_left fun isHash => (same hash).normal raw isHash
    · exact and_congr_left fun isHash => (same hash).internal raw isHash
  have perm := (List.perm_ext_iff_of_nodup (keyed_records mapped) (keyed_records mapped')).mpr
    sameHashes
  refine perm.eq_of_pairwise ?_ (pairwise_records mapped) (pairwise_records mapped')
  exact fun one two _ _ le ge => le_antisymm le ge

theorem SameRowsOf.of_perm (normalPerm : normals.Perm normals')
    (internalPerm : internals.Perm internals') (hash : String) :
    SameRowsOf hash normals normals' internals internals' where
  normal _ _ := normalPerm.mem_iff
  internal _ _ := internalPerm.mem_iff

theorem nodup_index_record
    (mapped : mapEtherscanTransactions parseEthAddress normals internals = .ok records)
    (one : ∀ hash, OneRowEach hash normals internals)
    (fits : ((normals.length + internals.length : ℕ) : ℤ) ≤ i64Max)
    {record : SyncAccountTransactionRecord} (member : record ∈ records) :
    (record.transfers.map SyncAccountTransferRecord.transferIndex).Nodup := by
  obtain ⟨normalRows, internalRows, normalParsed, internalParsed, isRecord⟩ :=
    mapEtherscanTransactions_eq_ok mapped
  obtain ⟨aggregated, gathered, rfl⟩ := (isRecord record).mp member
  have gathers := gathers_of_mem_records
    ((one aggregated.txHash).oneOfEach normalParsed internalParsed) gathered rfl
  refine nodup_index_toRecord gathers.keyed ?_
  have contained := gathers.keyed.of_map.subperm fun entry inside =>
    (gathers.transfers entry).mp inside
  have shorter := contained.length_le
  rw [List.length_append, List.length_map, List.length_map] at shorter
  have normalCount := length_of_mapM_eq_ok normalParsed
  have internalCount := length_of_mapM_eq_ok internalParsed
  have normalKept := List.length_filter_le
    (fun row : EtherscanNormalRow => row.txHash = aggregated.txHash) normalRows
  have internalKept := List.length_filter_le
    (fun row : EtherscanRow => row.txHash = aggregated.txHash) internalRows
  omega

end Permuted

/-- **Provider row order does not matter.** Let no two normal rows of one hash differ, and no two
internal rows of one hash and trace. Permuting either list changes neither whether the mapping
succeeds nor the records, but for the order of excluded keys. There is a record for each hash of a
row; it retains or excludes each key of these rows, never both, and its transfers have distinct
indices. A vector is never longer than the largest index. -/
theorem mapEtherscanTransactions_perm (parseEthAddress : String → Except ParseError String)
    (normals normals' : List EtherscanNormalTx) (internals internals' : List EtherscanInternalTx)
    (one : ∀ hash, OneRowEach hash normals internals) (normalPerm : normals.Perm normals')
    (internalPerm : internals.Perm internals') :
    ((∃ records, mapEtherscanTransactions parseEthAddress normals internals = .ok records) ↔
        ∃ records, mapEtherscanTransactions parseEthAddress normals' internals' = .ok records) ∧
      ∀ records, mapEtherscanTransactions parseEthAddress normals internals = .ok records →
        (∀ records', mapEtherscanTransactions parseEthAddress normals' internals' = .ok records' →
          List.Forall₂ SyncAccountTransactionRecord.Agrees records records') ∧
        (∀ hash, (∃ record ∈ records, record.txHash = hash) ↔
          (∃ raw ∈ normals, parseEtherscanTxHash raw.hash = .ok hash) ∨
            ∃ raw ∈ internals, parseEtherscanTxHash raw.hash = .ok hash) ∧
        ∀ record ∈ records,
          (record.transfers.map SyncAccountTransferRecord.providerTransferKey).Disjoint
              record.excludedTransferKeys ∧
            (∀ key,
              key ∈ record.transfers.map SyncAccountTransferRecord.providerTransferKey ∨
                  key ∈ record.excludedTransferKeys ↔
                NamesTransfer record.txHash normals internals key) ∧
            (((normals.length + internals.length : ℕ) : ℤ) ≤ i64Max →
              (record.transfers.map SyncAccountTransferRecord.transferIndex).Nodup) := by
  refine ⟨?_, ?_⟩
  · rw [exists_mapEtherscanTransactions, exists_mapEtherscanTransactions]
    simp only [normalPerm.mem_iff, internalPerm.mem_iff]
  · intro records mapped
    refine ⟨?_, fun hash => exists_record_iff mapped, ?_⟩
    · intro records' mapped'
      have same := SameRowsOf.of_perm normalPerm internalPerm
      refine forall₂_of_map_eq (map_txHash_records mapped mapped' same) ?_
      intro record member record' member' sameHash
      exact mapEtherscanTransactions_agrees mapped mapped' (one record.txHash)
        (same record.txHash) member member' rfl sameHash.symm
    · intro record member
      obtain ⟨nodup, names⟩ := record_keys mapped (one record.txHash) member rfl
      refine ⟨List.disjoint_of_nodup_append nodup, ?_, ?_⟩
      · intro key
        rw [← names, List.mem_append]
      · exact fun fits => nodup_index_record mapped one fits member

/-- An internal call of one transaction, at a trace, failed or not. -/
def internalCall (traceId isError : String) : EtherscanInternalTx where
  hash := "0xaaaaaaaaaaaaaaaaaaaaaaaaaaaaaaaaaaaaaaaaaaaaaaaaaaaaaaaaaaaaaaaa"
  blockNumber := "10"
  timeStamp := "1700000000"
  fromAddress := ""
  toAddress := ""
  value := "7"
  isError := isError
  callType := "call"
  traceId := traceId

private theorem oneRowEach_internalCalls (hash : String) :
    OneRowEach hash [] [internalCall "2" "1", internalCall "3" "0"] where
  normal _ member := absurd member List.not_mem_nil
  internal left leftMember right rightMember _ _ sameTrace := by
    have differ : trim "2" ≠ trim "3" := by decide +kernel
    simp only [List.mem_cons, List.not_mem_nil, or_false] at leftMember rightMember
    rcases leftMember with rfl | rfl <;> rcases rightMember with rfl | rfl
    · rfl
    · exact absurd sameTrace differ
    · exact absurd sameTrace.symm differ
    · rfl

theorem mapEtherscanTransactions_perm_internalCalls :
    ∃ records records',
      mapEtherscanTransactions .ok [] [internalCall "2" "1", internalCall "3" "0"] = .ok records ∧
      mapEtherscanTransactions .ok [] [internalCall "3" "0", internalCall "2" "1"] =
        .ok records' ∧
      List.Forall₂ SyncAccountTransactionRecord.Agrees records records' ∧ records ≠ [] := by
  have succeeds : ∃ records,
      (mapEtherscanTransactions .ok [] [internalCall "2" "1", internalCall "3" "0"]).toOption =
        some records ∧ records ≠ [] := by
    have one : ((mapEtherscanTransactions .ok []
        [internalCall "2" "1", internalCall "3" "0"]).toOption.map List.length) = some 1 := by
      decide +kernel
    obtain ⟨records, found, length⟩ := Option.map_eq_some_iff.mp one
    refine ⟨records, found, ?_⟩
    intro empty
    rw [empty] at length
    cases length
  obtain ⟨records, found, nonempty⟩ := succeeds
  have mapped := toOption_eq_some.mp found
  obtain ⟨succeeds, agree⟩ := mapEtherscanTransactions_perm .ok [] []
    [internalCall "2" "1", internalCall "3" "0"] [internalCall "3" "0", internalCall "2" "1"]
    oneRowEach_internalCalls (.refl _) (.swap _ _ _)
  obtain ⟨records', mapped'⟩ := succeeds.mp ⟨records, mapped⟩
  exact ⟨records, records', mapped, mapped', (agree records mapped).1 records' mapped', nonempty⟩

end Bitgarth.Store
