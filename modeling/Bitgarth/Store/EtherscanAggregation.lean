import Bitgarth.Foundation.MergeFold
import Bitgarth.Store.EtherscanMapper

/-! # Gathered Etherscan transactions do not depend on the order of rows

When a transaction has at most one normal row, and at most one internal row of each trace, what
is gathered of it depends only on which rows come in: on neither their order nor how often each
is repeated.
-/

namespace Bitgarth.Store

open Amounts Ledger KeyedTable Text Fallible MergeFold

/-! ## Merges -/

theorem mergeInternalStatus_comm (left right : ChainTransactionStatus) :
    mergeInternalStatus left right = mergeInternalStatus right left := by
  cases left <;> cases right <;> rfl

theorem mergeInternalStatus_assoc (first second third : ChainTransactionStatus) :
    mergeInternalStatus (mergeInternalStatus first second) third =
      mergeInternalStatus first (mergeInternalStatus second third) := by
  cases first <;> cases second <;> cases third <;> rfl

@[simp]
theorem mergeInternalStatus_self (status : ChainTransactionStatus) :
    mergeInternalStatus status status = status := by
  cases status <;> rfl

theorem maxOptional_comm (left right : Option ℤ) :
    maxOptional left right = maxOptional right left := by
  cases left <;> cases right <;> simp [maxOptional, max_comm]

theorem maxOptional_assoc (first second third : Option ℤ) :
    maxOptional (maxOptional first second) third =
      maxOptional first (maxOptional second third) := by
  cases first <;> cases second <;> cases third <;> simp [maxOptional, max_assoc]

@[simp]
theorem maxOptional_self (value : Option ℤ) : maxOptional value value = value := by
  cases value <;> simp [maxOptional]

/-! ## One transaction -/

/-- The transfer of a row, with the status of the row. -/
def EtherscanRow.entry (row : EtherscanRow) : SyncAccountTransferRecord × ChainTransactionStatus :=
  (row.transfer, row.status)

def gatherNormal (gathered : Option EtherscanAggregatedTx) (row : EtherscanNormalRow) :
    Option EtherscanAggregatedTx :=
  some ((gathered.getD (.ofNormal row)).addNormal row)

def gatherInternal (gathered : Option EtherscanAggregatedTx) (row : EtherscanRow) :
    Option EtherscanAggregatedTx :=
  some ((gathered.getD (.ofInternal row)).addInternal row)

/-- What the rows of one transaction gather. -/
def gather (normals : List EtherscanNormalRow) (internals : List EtherscanRow) :
    Option EtherscanAggregatedTx :=
  internals.foldl gatherInternal (normals.foldl gatherNormal none)

/-- The transactions the two loops gather. -/
def gatherAll (normalRows : List EtherscanNormalRow) (internalRows : List EtherscanRow) :
    List EtherscanAggregatedTx :=
  internalRows.foldl aggregateInternal (normalRows.foldl aggregateNormal [])

/-- Adding a row to the transaction of its hash gathers it there, and nowhere else. -/
theorem find_upsert_gathered {Row : Type*} {txHash : Row → String}
    (add : EtherscanAggregatedTx → Row → EtherscanAggregatedTx)
    (start : Row → EtherscanAggregatedTx)
    (keeps : ∀ tx row, (add tx row).txHash = tx.txHash)
    (starts : ∀ row, (start row).txHash = txHash row) (byHash : List EtherscanAggregatedTx)
    (row : Row) (hash : String) :
    find EtherscanAggregatedTx.txHash (upsert EtherscanAggregatedTx.txHash
        (fun old _ => add old row) (add (start row) row) byHash) hash =
      if txHash row = hash then
        some (add ((find EtherscanAggregatedTx.txHash byHash hash).getD (start row)) row)
      else find EtherscanAggregatedTx.txHash byHash hash := by
  have isHash : (add (start row) row).txHash = txHash row := (keeps _ _).trans (starts row)
  split <;> rename_i same
  · subst same
    rw [← isHash, find_upsert_self fun old isKey => (keeps old row).trans isKey]
    cases find EtherscanAggregatedTx.txHash byHash _ <;> rfl
  · exact find_upsert_of_ne (fun old isKey => (keeps old row).trans isKey) (isHash ▸ same)

theorem find_aggregateNormal (byHash : List EtherscanAggregatedTx) (row : EtherscanNormalRow)
    (hash : String) :
    find EtherscanAggregatedTx.txHash (aggregateNormal byHash row) hash =
      if row.txHash = hash then gatherNormal (find EtherscanAggregatedTx.txHash byHash hash) row
      else find EtherscanAggregatedTx.txHash byHash hash :=
  find_upsert_gathered .addNormal .ofNormal (fun _ _ => rfl) (fun _ => rfl) byHash row hash

theorem find_aggregateInternal (byHash : List EtherscanAggregatedTx) (row : EtherscanRow)
    (hash : String) :
    find EtherscanAggregatedTx.txHash (aggregateInternal byHash row) hash =
      if row.txHash = hash then gatherInternal (find EtherscanAggregatedTx.txHash byHash hash) row
      else find EtherscanAggregatedTx.txHash byHash hash :=
  find_upsert_gathered .addInternal .ofInternal (fun _ _ => rfl) (fun _ => rfl) byHash row hash

theorem find_gatherAll (normalRows : List EtherscanNormalRow) (internalRows : List EtherscanRow)
    (hash : String) :
    find EtherscanAggregatedTx.txHash (gatherAll normalRows internalRows) hash =
      gather (normalRows.filter fun row => row.txHash = hash)
        (internalRows.filter fun row => row.txHash = hash) := by
  unfold gatherAll gather
  rw [find_foldl (fun hash gathered row =>
      if row.txHash = hash then gatherInternal gathered row else gathered)
      fun table row hash => find_aggregateInternal table row hash,
    find_foldl (fun hash gathered row =>
      if row.txHash = hash then gatherNormal gathered row else gathered)
      fun table row hash => find_aggregateNormal table row hash,
    List.foldl_filter, List.foldl_filter, find_nil]
  simp only [decide_eq_true_eq]

theorem keyed_gatherAll (normalRows : List EtherscanNormalRow)
    (internalRows : List EtherscanRow) :
    Keyed EtherscanAggregatedTx.txHash (gatherAll normalRows internalRows) :=
  Keyed.foldl (fun _ _ before => before.upsert fun _ isKey => isKey) internalRows
    (Keyed.foldl (fun _ _ before => before.upsert fun _ isKey => isKey) normalRows List.nodup_nil)

/-- The rows of one transaction: no two of one identity differ. -/
structure OneOfEach (normals : List EtherscanNormalRow) (internals : List EtherscanRow) :
    Prop where
  oneNormal : ∀ left ∈ normals, ∀ right ∈ normals, left = right
  oneInternal : ∀ left ∈ internals, ∀ right ∈ internals,
    left.transfer.providerTransferKey = right.transfer.providerTransferKey → left = right
  normalKey : ∀ row ∈ normals, row.transfer.providerTransferKey = .normal
  internalKey : ∀ row ∈ internals, row.transfer.providerTransferKey ≠ .normal

/-- What is gathered, in terms of which rows come in. -/
structure Gathers (normals : List EtherscanNormalRow) (internals : List EtherscanRow)
    (aggregated : EtherscanAggregatedTx) : Prop where
  normalStatus : ∀ row ∈ normals, aggregated.status = row.status
  internalStatus : normals = [] →
    mergeAll mergeInternalStatus (internals.map EtherscanRow.status) = some aggregated.status
  blockHeight : mergeAll maxOptional (normals.map (fun row => row.blockHeight) ++
    internals.map EtherscanRow.blockHeight) = some aggregated.blockHeight
  blockTime : mergeAll maxOptional (normals.map (fun row => row.blockTime) ++
    internals.map EtherscanRow.blockTime) = some aggregated.blockTime
  feeAmount : aggregated.feeAmount = normals.head?.map EtherscanNormalRow.feeAmount
  nonce : aggregated.nonce = normals.head?.bind EtherscanNormalRow.nonce
  transfers : ∀ entry, entry ∈ aggregated.transfers ↔
    entry ∈ normals.map (fun row => row.toEtherscanRow.entry) ++ internals.map EtherscanRow.entry
  keyed : Keyed aggregatedKey aggregated.transfers

theorem foldl_gatherInternal (start : EtherscanAggregatedTx) (rows : List EtherscanRow) :
    rows.foldl gatherInternal (some start) = some { start with
      status := if start.hasNormal then start.status
        else (rows.map EtherscanRow.status).foldl mergeInternalStatus start.status
      blockHeight := (rows.map EtherscanRow.blockHeight).foldl maxOptional start.blockHeight
      blockTime := (rows.map EtherscanRow.blockTime).foldl maxOptional start.blockTime
      transfers :=
        (rows.map EtherscanRow.entry).foldl upsertAggregatedTransfer start.transfers } := by
  induction rows generalizing start with
  | nil => simp
  | cons first rest ih =>
    rw [List.foldl_cons, gatherInternal, Option.getD_some, ih]
    simp only [EtherscanAggregatedTx.addInternal, List.map_cons, List.foldl_cons,
      EtherscanRow.entry]
    split <;> rfl

theorem addNormal_ofNormal (row : EtherscanNormalRow) :
    (EtherscanAggregatedTx.ofNormal row).addNormal row =
      { EtherscanAggregatedTx.ofNormal row with transfers := [row.entry] } := by
  simp only [EtherscanAggregatedTx.addNormal, EtherscanAggregatedTx.ofNormal, maxOptional_self,
    Option.or_self]
  rfl

theorem foldl_gatherNormal {first : EtherscanNormalRow} {rest : List EtherscanNormalRow}
    (same : ∀ row ∈ rest, row = first) :
    (first :: rest).foldl gatherNormal none =
      some { EtherscanAggregatedTx.ofNormal first with transfers := [first.entry] } := by
  have again : gatherNormal
      (some { EtherscanAggregatedTx.ofNormal first with transfers := [first.entry] }) first =
        some { EtherscanAggregatedTx.ofNormal first with transfers := [first.entry] } := by
    rw [← addNormal_ofNormal, gatherNormal, Option.getD_some]
    simp only [EtherscanAggregatedTx.addNormal, EtherscanAggregatedTx.ofNormal, maxOptional_self,
      Option.or_self, Option.some.injEq, EtherscanAggregatedTx.mk.injEq, true_and]
    simp [upsertAggregatedTransfer, upsert]
  rw [List.foldl_cons, gatherNormal, Option.getD_none, addNormal_ofNormal]
  induction rest with
  | nil => rfl
  | cons second rest ih =>
    obtain ⟨isFirst, others⟩ := List.forall_mem_cons.mp same
    rw [List.foldl_cons, isFirst, again]
    exact ih others

theorem mergeAll_first {α : Type*} {merge : α → α → α}
    (comm : ∀ left right, merge left right = merge right left)
    (assoc : ∀ first second third,
      merge (merge first second) third = merge first (merge second third))
    (idem : ∀ value, merge value value = value) {first : α} {same others : List α}
    (isFirst : ∀ value ∈ same, value = first) :
    mergeAll merge (first :: same ++ others) = some (others.foldl merge first) := by
  change _ = mergeAll merge (first :: others)
  apply mergeAll_congr comm assoc idem
  intro value
  rw [List.mem_append, List.mem_cons, List.mem_cons]
  exact or_congr_left ⟨fun member => member.elim id (isFirst value), .inl⟩

section Gather

variable {normals : List EtherscanNormalRow} {internals : List EtherscanRow}
  {aggregated : EtherscanAggregatedTx}

theorem OneOfEach.entries_agree (rows : OneOfEach normals internals) :
    ∀ left ∈ normals.map (fun row => row.toEtherscanRow.entry) ++ internals.map EtherscanRow.entry,
      ∀ right ∈ normals.map (fun row => row.toEtherscanRow.entry) ++
          internals.map EtherscanRow.entry,
        aggregatedKey left = aggregatedKey right → left = right := by
  intro left leftMember right rightMember sameKey
  rw [List.mem_append, List.mem_map, List.mem_map] at leftMember rightMember
  rcases leftMember with ⟨first, member, rfl⟩ | ⟨first, member, rfl⟩ <;>
    rcases rightMember with ⟨second, other, rfl⟩ | ⟨second, other, rfl⟩
  · rw [rows.oneNormal first member second other]
  · exact absurd (sameKey.symm.trans (rows.normalKey first member)) (rows.internalKey second other)
  · exact absurd (sameKey.trans (rows.normalKey second other)) (rows.internalKey first member)
  · rw [rows.oneInternal first member second other sameKey]

theorem gathers_of_gather (rows : OneOfEach normals internals)
    (isGathered : gather normals internals = some aggregated) :
    Gathers normals internals aggregated := by
  have entries := @mem_foldl_upsert_iff _ _ _ aggregatedKey _ rows.entries_agree
  have keyed : Keyed aggregatedKey
      ((normals.map (fun row => row.toEtherscanRow.entry) ++
        internals.map EtherscanRow.entry).foldl upsertAggregatedTransfer []) :=
    Keyed.foldl (fun _ _ before => before.upsert fun _ _ => rfl) _ List.nodup_nil
  unfold gather at isGathered
  cases normals with
  | nil =>
    cases internals with
    | nil => cases isGathered
    | cons first rest =>
      have started : (first :: rest).foldl gatherInternal none =
          (first :: rest).foldl gatherInternal (some (.ofInternal first)) := rfl
      rw [List.foldl_nil, started, foldl_gatherInternal, Option.some.injEq] at isGathered
      subst isGathered
      refine ⟨fun _ member => absurd member List.not_mem_nil, fun _ => ?_, ?_, ?_, rfl, rfl,
        fun entry => entries, keyed⟩
      · exact congrArg some (foldl_cons_self mergeInternalStatus_self _ _).symm
      · exact congrArg some (foldl_cons_self maxOptional_self _ _).symm
      · exact congrArg some (foldl_cons_self maxOptional_self _ _).symm
  | cons first rest =>
    have same : ∀ row ∈ rest, row = first := fun row member =>
      rows.oneNormal row (List.mem_cons_of_mem _ member) first List.mem_cons_self
    have onlyFirst : (first :: rest).foldl gatherNormal none =
        some { EtherscanAggregatedTx.ofNormal first with transfers := [first.entry] } :=
      foldl_gatherNormal same
    have sameEntries : ∀ entry, entry ∈ (first.entry :: internals.map EtherscanRow.entry) ↔
        entry ∈ (first :: rest).map (fun row => row.toEtherscanRow.entry) ++
          internals.map EtherscanRow.entry := by
      intro entry
      rw [List.map_cons, List.cons_append, List.mem_cons, List.mem_cons, List.mem_append]
      constructor
      · exact fun member => member.imp_right .inr
      · rintro (isFirst | inRest | member)
        · exact .inl isFirst
        · obtain ⟨row, member, rfl⟩ := List.mem_map.mp inRest
          exact .inl (by rw [same row member])
        · exact .inr member
    have agree := rows.entries_agree
    simp only [← sameEntries] at agree
    rw [onlyFirst, foldl_gatherInternal, Option.some.injEq] at isGathered
    subst isGathered
    refine ⟨?_, fun isNil => absurd isNil (List.cons_ne_nil _ _), ?_, ?_, rfl, rfl, ?_, ?_⟩
    · intro row member
      rw [rows.oneNormal row member first List.mem_cons_self]
      rfl
    · exact mergeAll_first maxOptional_comm maxOptional_assoc maxOptional_self
        (by simpa using fun row member => by rw [same row member])
    · exact mergeAll_first maxOptional_comm maxOptional_assoc maxOptional_self
        (by simpa using fun row member => by rw [same row member])
    · intro entry
      exact (@mem_foldl_upsert_iff _ _ _ aggregatedKey _ agree entry).trans (sameEntries entry)
    · exact Keyed.foldl (fun _ _ before => before.upsert fun _ _ => rfl) _
        (List.nodup_singleton _)

end Gather

/-! ## Records -/

theorem displayLe_iff {left right : SyncAccountTransferRecord} :
    displayLe left right = true ↔
      left.providerTransferKey.isNormal = true ∧ right.providerTransferKey.isNormal = false ∨
        left.providerTransferKey.isNormal = right.providerTransferKey.isNormal ∧
          left.providerTransferKey.text ≤ right.providerTransferKey.text := by
  unfold displayLe
  cases left.providerTransferKey.isNormal <;> cases right.providerTransferKey.isNormal <;> simp

theorem displayLe_trans (first second third : SyncAccountTransferRecord)
    (firstLe : displayLe first second = true) (secondLe : displayLe second third = true) :
    displayLe first third = true := by
  rw [displayLe_iff] at firstLe secondLe ⊢
  rcases firstLe with ⟨normal, other⟩ | ⟨same, le⟩ <;>
    rcases secondLe with ⟨normal', other'⟩ | ⟨same', le'⟩
  · exact .inl ⟨normal, other'⟩
  · exact .inl ⟨normal, same' ▸ other⟩
  · exact .inl ⟨same ▸ normal', other'⟩
  · exact .inr ⟨same.trans same', le.trans le'⟩

theorem displayLe_total (left right : SyncAccountTransferRecord) :
    (displayLe left right || displayLe right left) = true := by
  rw [Bool.or_eq_true, displayLe_iff, displayLe_iff]
  rcases le_total left.providerTransferKey.text right.providerTransferKey.text with le | le <;>
    cases left.providerTransferKey.isNormal <;> cases right.providerTransferKey.isNormal <;>
    simp [le]

theorem ProviderTransferKey.eq_of_text {left right : ProviderTransferKey}
    (same : left.text = right.text) : left = right := by
  cases left
  cases right
  cases same
  rfl

theorem key_eq_of_displayLe {left right : SyncAccountTransferRecord}
    (le : displayLe left right = true) (ge : displayLe right left = true) :
    left.providerTransferKey = right.providerTransferKey := by
  rw [displayLe_iff] at le ge
  have sameText : left.providerTransferKey.text = right.providerTransferKey.text := by
    rcases le with ⟨normal, other⟩ | ⟨same, le⟩ <;> rcases ge with ⟨normal', other'⟩ | ⟨same', ge⟩
    · rw [normal] at other'
      cases other'
    · rw [normal, other] at same'
      cases same'
    · rw [normal', other'] at same
      cases same
    · exact le_antisymm le ge
  exact ProviderTransferKey.eq_of_text sameText

theorem assignTransferDisplayIndices_perm {left right : List SyncAccountTransferRecord}
    (keyed : Keyed SyncAccountTransferRecord.providerTransferKey left) (perm : left.Perm right) :
    assignTransferDisplayIndices left = assignTransferDisplayIndices right := by
  unfold assignTransferDisplayIndices
  have sorted : (left.mergeSort displayLe) = right.mergeSort displayLe := by
    apply List.Perm.eq_of_pairwise _
      (List.pairwise_mergeSort displayLe_trans displayLe_total left)
      (List.pairwise_mergeSort displayLe_trans displayLe_total right)
      ((List.mergeSort_perm left _).trans (perm.trans (List.mergeSort_perm right _).symm))
    intro first second member other le ge
    exact List.inj_on_of_nodup_map keyed (List.mem_mergeSort.mp member)
      (perm.mem_iff.mpr (List.mem_mergeSort.mp other)) (key_eq_of_displayLe le ge)
  rw [sorted]

/-- Two records agree but for the order of the keys they exclude. -/
def SyncAccountTransactionRecord.Agrees (left right : SyncAccountTransactionRecord) : Prop :=
  { left with excludedTransferKeys := right.excludedTransferKeys } = right ∧
    left.excludedTransferKeys.Perm right.excludedTransferKeys

@[simp]
theorem map_key_numberTransfers (nextInternalIndex : ℤ)
    (transfers : List SyncAccountTransferRecord) :
    (numberTransfers nextInternalIndex transfers).map
        SyncAccountTransferRecord.providerTransferKey =
      transfers.map SyncAccountTransferRecord.providerTransferKey := by
  induction transfers generalizing nextInternalIndex with
  | nil => rfl
  | cons first rest ih =>
    rw [numberTransfers]
    split
    all_goals rw [List.map_cons, List.map_cons, ih]

theorem EtherscanAggregatedTx.toRecord_keys (aggregated : EtherscanAggregatedTx) :
    (aggregated.toRecord.transfers.map SyncAccountTransferRecord.providerTransferKey ++
      aggregated.toRecord.excludedTransferKeys).Perm (aggregated.transfers.map aggregatedKey) := by
  have retained : (aggregated.toRecord.transfers.map
      SyncAccountTransferRecord.providerTransferKey).Perm
      ((aggregated.transfers.filter fun entry => ¬ aggregated.excludes entry).map
        aggregatedKey) := by
    change ((numberTransfers 1 _).map _).Perm _
    rw [map_key_numberTransfers]
    refine ((List.mergeSort_perm _ displayLe).map _).trans ?_
    rw [List.map_map]
    rfl
  refine (retained.append_right _).trans ?_
  refine List.perm_append_comm.trans ?_
  change (List.map _ _ ++ _).Perm _
  rw [← List.map_append]
  apply List.Perm.map
  simpa only [Bool.decide_eq_true, Bool.not_eq_true, Bool.decide_eq_false] using
    List.filter_append_perm aggregated.excludes aggregated.transfers

section Congr

variable {normals normals' : List EtherscanNormalRow} {internals internals' : List EtherscanRow}
  {left right : EtherscanAggregatedTx}

theorem Gathers.toRecord_agrees (rows : OneOfEach normals internals)
    (gathersLeft : Gathers normals internals left)
    (gathersRight : Gathers normals' internals' right) (sameHash : left.txHash = right.txHash)
    (sameNormals : ∀ row, row ∈ normals ↔ row ∈ normals')
    (sameInternals : ∀ row, row ∈ internals ↔ row ∈ internals') :
    left.toRecord.Agrees right.toRecord := by
  have sameHead : normals.head? = normals'.head? := by
    cases normals with
    | nil =>
      cases normals' with
      | nil => rfl
      | cons first rest =>
        exact absurd ((sameNormals first).mpr List.mem_cons_self) List.not_mem_nil
    | cons first rest =>
      cases normals' with
      | nil => exact absurd ((sameNormals first).mp List.mem_cons_self) List.not_mem_nil
      | cons second others =>
        exact congrArg some (rows.oneNormal first List.mem_cons_self second
          ((sameNormals second).mpr List.mem_cons_self))
  have sameStatus : left.status = right.status := by
    cases normals with
    | nil =>
      have isNil : normals' = [] :=
        List.eq_nil_iff_forall_not_mem.mpr fun row member =>
          absurd ((sameNormals row).mpr member) List.not_mem_nil
      apply Option.some.inj
      rw [← gathersLeft.internalStatus rfl, ← gathersRight.internalStatus isNil]
      apply mergeAll_congr mergeInternalStatus_comm mergeInternalStatus_assoc
        mergeInternalStatus_self
      intro status
      simp only [List.mem_map, sameInternals]
    | cons first rest =>
      rw [gathersLeft.normalStatus first List.mem_cons_self,
        gathersRight.normalStatus first ((sameNormals first).mp List.mem_cons_self)]
  have sameHeight : left.blockHeight = right.blockHeight := by
    apply Option.some.inj
    rw [← gathersLeft.blockHeight, ← gathersRight.blockHeight]
    apply mergeAll_congr maxOptional_comm maxOptional_assoc maxOptional_self
    intro height
    simp only [List.mem_append, List.mem_map, sameNormals, sameInternals]
  have sameTime : left.blockTime = right.blockTime := by
    apply Option.some.inj
    rw [← gathersLeft.blockTime, ← gathersRight.blockTime]
    apply mergeAll_congr maxOptional_comm maxOptional_assoc maxOptional_self
    intro time
    simp only [List.mem_append, List.mem_map, sameNormals, sameInternals]
  have sameFee : left.feeAmount = right.feeAmount := by
    rw [gathersLeft.feeAmount, gathersRight.feeAmount, sameHead]
  have sameNonce : left.nonce = right.nonce := by
    rw [gathersLeft.nonce, gathersRight.nonce, sameHead]
  have perm : left.transfers.Perm right.transfers := by
    apply (List.perm_ext_iff_of_nodup gathersLeft.keyed.of_map gathersRight.keyed.of_map).mpr
    intro entry
    rw [gathersLeft.transfers, gathersRight.transfers]
    simp only [List.mem_append, List.mem_map, sameNormals, sameInternals]
  have sameExcludes : left.excludes = right.excludes := by
    funext entry
    unfold EtherscanAggregatedTx.excludes
    rw [sameStatus]
  refine ⟨?_, ?_⟩
  · unfold EtherscanAggregatedTx.toRecord
    simp only [SyncAccountTransactionRecord.mk.injEq, sameHash, sameStatus, sameHeight, sameTime,
      sameFee, sameNonce, sameExcludes, true_and, and_true]
    apply assignTransferDisplayIndices_perm _ ((perm.filter _).map _)
    unfold Keyed
    rw [List.map_map]
    exact gathersLeft.keyed.sublist (List.filter_sublist.map aggregatedKey)
  · unfold EtherscanAggregatedTx.toRecord
    rw [sameExcludes]
    exact (perm.filter _).map _

end Congr

end Bitgarth.Store
