import Bitgarth.Accounts.AccountModes
import Bitgarth.Accounts.AdmissionOrder

/-! # Admissions over a user's history

Accounts are created, imported, deleted and, in an older database, repaired. While the stamps
stay in the years of four digits every operation filters the line of accounts and appends to it,
so that no account's mode or activation gets worse. `admissions_stable` says so for every
state that is reached; `not_chronological_yearTenThousand` is a clock beyond these years.
-/

namespace Bitgarth.Accounts

open Amounts Calendar Fallible RowSelection

/-- The accounts of a user: native ones with what their provider supports, and manual ones. -/
structure AdmissionTables where
  native : List (AdmissionRow AccountCapabilities)
  manual : List (AdmissionRow Unit)
deriving DecidableEq, Repr

/-- An account of an import file: matched to a row, or created with its timestamp in the file. -/
inductive ImportedAccount where
  | matched
  | native (row : AdmissionRow AccountCapabilities) (selectedAt : Option ℤ)
  | manual (row : AdmissionRow Unit) (admittedAt : Option ℤ)
deriving DecidableEq, Repr

def ImportedAccount.createdNative : ImportedAccount × ℕ →
    Option (CreatedAccount AccountCapabilities)
  | (native row selectedAt, index) => some ⟨row, selectedAt, index⟩
  | _ => none

def ImportedAccount.createdManual : ImportedAccount × ℕ → Option (CreatedAccount Unit)
  | (manual row admittedAt, index) => some ⟨row, admittedAt, index⟩
  | _ => none

inductive AdmissionOperation where
  | createNative (row : AdmissionRow AccountCapabilities)
  | createManual (row : AdmissionRow Unit)
  | importWalletData (file : List ImportedAccount)
  | delete (ids : List String)
  | backfill
deriving DecidableEq, Repr

def createdNatives (file : List ImportedAccount) : List (CreatedAccount AccountCapabilities) :=
  file.zipIdx.filterMap ImportedAccount.createdNative

def createdManuals (file : List ImportedAccount) : List (CreatedAccount Unit) :=
  file.zipIdx.filterMap ImportedAccount.createdManual

/-- Whether an account outlasts an operation. -/
def AdmissionOperation.keeps : AdmissionOperation → String → Bool
  | delete ids, id => decide (id ∉ ids)
  | _, _ => true

section Operations

variable (parse : String → Option ℤ)

/-- An operation at a reading of the clock; a failing one is rolled back. -/
def perform (now : ℤ) : AdmissionOperation → AdmissionTables → Except DbError AdmissionTables
  | .createNative row, tables => do
      let native ← admitAccount parse now tables.native row
      .ok { tables with native := native }
  | .createManual row, tables => do
      let manual ← admitAccount parse now tables.manual row
      .ok { tables with manual := manual }
  | .importWalletData file, tables => do
      let native ← importAdmissions parse now (createdNatives file) tables.native
      let manual ← importAdmissions parse now (createdManuals file) tables.manual
      .ok ⟨native, manual⟩
  | .delete ids, tables =>
    .ok ⟨tables.native.filter fun row => row.accountId ∉ ids,
      tables.manual.filter fun row => row.accountId ∉ ids⟩
  | .backfill, tables => do
      let native ← backfillAccountAdmission parse now tables.native
      let manual ← backfillAccountAdmission parse now tables.manual
      .ok ⟨native, manual⟩

/-- The native accounts that an operation adds to the line, in their order. -/
def AdmissionOperation.addedNatives (tables : AdmissionTables) :
    AdmissionOperation → List (String × AccountCapabilities)
  | createNative row => [row.name]
  | importWalletData file =>
    ((createdNatives file).insertionSort fun left right =>
      left.admission.key ≤ right.admission.key).map fun account => account.row.name
  | backfill => unstampedOrder parse tables.native
  | _ => []

def AdmissionOperation.addedManuals (tables : AdmissionTables) :
    AdmissionOperation → List (String × Unit)
  | createManual row => [row.name]
  | importWalletData file =>
    ((createdManuals file).insertionSort fun left right =>
      left.admission.key ≤ right.admission.key).map fun account => account.row.name
  | backfill => unstampedOrder parse tables.manual
  | _ => []

end Operations

/-! ## Modes and activation -/

inductive SupportedAccountKind where
  | native
  | manualAsset
deriving DecidableEq, Repr

inductive AccountActivationState where
  | active
  | inactive
deriving DecidableEq, Repr

structure ClassifiedAccount where
  accountId : String
  kind : SupportedAccountKind
  state : AccountActivationState
deriving DecidableEq, Repr

/-- Entitlements with independent account allowances. -/
structure FeatureEntitlements where
  allowances : AccountAllowances
  balanceSyncEnabled : Bool
  transactionHistorySyncEnabled : Bool
deriving DecidableEq, Repr

/-- A mode without what the entitlements switch off. -/
def NativeAccountMode.limited (entitlements : FeatureEntitlements) (mode : NativeAccountMode) :
    NativeAccountMode :=
  if entitlements.balanceSyncEnabled = false then
    .inactive
  else if entitlements.transactionHistorySyncEnabled = false ∧ mode = .transactions then
    .balanceOnly
  else
    mode

/-- Accounts in their order, the first ones active. -/
def activationFrom (limit : ℕ) : ℕ → List String → List (String × AccountActivationState)
  | _, [] => []
  | index, id :: rest =>
    (id, if index < limit then .active else .inactive) :: activationFrom limit (index + 1) rest

section Classification

variable (parse : String → Option ℤ)

def modeRecord (row : AdmissionRow AccountCapabilities) :
    Except DbError NativeAccountModeRecord :=
  match row.admittedAt with
  | none => .error ⟨"Missing native account admission"⟩
  | some raw =>
    match parse raw with
    | none => .error ⟨"Invalid native admitted_at"⟩
    | some admittedAt => .ok { row.details with accountId := row.accountId, admittedAt }

def queryNativeAccountModes (rows : List (AdmissionRow AccountCapabilities))
    (entitlements : FeatureEntitlements) : Except DbError (List (String × NativeAccountMode)) := do
  let records ← rows.mapM (modeRecord parse)
  .ok ((classifyNativeAccountModes records entitlements.allowances).map fun entry =>
    (entry.1, entry.2.limited entitlements))

/-- Manual accounts by the text of their admission and then by id. -/
def queryManualStates (rows : List (AdmissionRow Unit)) (entitlements : FeatureEntitlements) :
    Except DbError (List (String × AccountActivationState)) := do
  let ids ← (rows.insertionSort fun left right =>
    toLex ((left.admittedAt : WithBot String), left.accountId) ≤
      toLex ((right.admittedAt : WithBot String), right.accountId)).mapM fun row =>
        match row.admittedAt with
        | none => .error ⟨"Failed to read manual admission"⟩
        | some _ => .ok row.accountId
  .ok (activationFrom entitlements.allowances.manual 0 ids)

def classifyAccounts (tables : AdmissionTables) (entitlements : FeatureEntitlements) :
    Except DbError (List ClassifiedAccount) := do
  let modes ← queryNativeAccountModes parse tables.native entitlements
  let manual ← queryManualStates tables.manual entitlements
  .ok ((modes.map fun entry =>
      ⟨entry.1, .native, if entry.2 = .inactive then .inactive else .active⟩) ++
    manual.map fun entry => ⟨entry.1, .manualAsset, entry.2⟩)

end Classification

section Classification

variable {parse : String → Option ℤ} {entitlements : FeatureEntitlements}
  {rows : List (AdmissionRow AccountCapabilities)}

/-- The record of a row whose stamp can be read. -/
def readRecord (parse : String → Option ℤ) (row : AdmissionRow AccountCapabilities) :
    NativeAccountModeRecord :=
  { row.details with
    accountId := row.accountId
    admittedAt := (row.instant parse).getD 0 }

theorem modeRecord_eq_ok {row : AdmissionRow AccountCapabilities} :
    (∃ record, modeRecord parse row = .ok record) ↔ (row.instant parse).isSome := by
  unfold modeRecord AdmissionRow.instant
  cases row.admittedAt with
  | none => simp
  | some raw => cases found : parse raw <;> simp [found]

theorem modeRecord_of_isSome {row : AdmissionRow AccountCapabilities}
    (readable : (row.instant parse).isSome) :
    modeRecord parse row = .ok (readRecord parse row) := by
  unfold readRecord
  unfold modeRecord AdmissionRow.instant at *
  cases present : row.admittedAt with
  | none =>
    rw [present] at readable
    cases readable
  | some raw =>
    rw [present, Option.bind_some] at readable
    obtain ⟨instant, found⟩ := Option.isSome_iff_exists.mp readable
    simp only [found, Option.bind_some, Option.getD_some]

theorem queryNativeAccountModes_eq_ok {modes : List (String × NativeAccountMode)} :
    queryNativeAccountModes parse rows entitlements = .ok modes ↔
      (∀ row ∈ rows, (row.instant parse).isSome) ∧
        (modesFrom entitlements.allowances 0 0 (admissionOrder parse rows)).map
          (fun entry => (entry.1, entry.2.limited entitlements)) = modes := by
  have classified : (∀ row ∈ rows, (row.instant parse).isSome) →
      classifyNativeAccountModes (rows.map (readRecord parse)) entitlements.allowances =
        modesFrom entitlements.allowances 0 0 (admissionOrder parse rows) := by
    intro readable
    have sorted : (rows.map (readRecord parse)).insertionSort
        (fun left right => left.key ≤ right.key) =
          (rows.insertionSort fun left right => left.key parse ≤ right.key parse).map
            (readRecord parse) :=
      (List.map_insertionSort
        (fun left right : AdmissionRow AccountCapabilities => left.key parse ≤ right.key parse)
        (fun left right : NativeAccountModeRecord => left.key ≤ right.key)
        (readRecord parse) rows fun _ _ _ _ => Iff.rfl).symm
    unfold classifyNativeAccountModes admissionOrder
    rw [sorted, List.map_map, List.filter_eq_self.mpr readable]
    rfl
  unfold queryNativeAccountModes
  rw [bind_eq_ok]
  constructor
  · rintro ⟨records, read, done⟩
    have readable : ∀ row ∈ rows, (row.instant parse).isSome := by
      intro row member
      obtain ⟨record, -, found⟩ := (mem_of_mapM_eq_ok read).1 row member
      exact modeRecord_eq_ok.mp ⟨record, found⟩
    have listed := read.symm.trans
      (mapM_eq_ok_map fun row member => modeRecord_of_isSome (readable row member))
    obtain rfl := Except.ok.inj listed
    rw [classified readable] at done
    exact ⟨readable, Except.ok.inj done⟩
  · rintro ⟨readable, same⟩
    refine ⟨_, mapM_eq_ok_map fun row member => modeRecord_of_isSome (readable row member), ?_⟩
    rw [classified readable, same]

theorem rank_limited_mono {mode better : NativeAccountMode} (atMost : mode.rank ≤ better.rank) :
    (mode.limited entitlements).rank ≤ (better.limited entitlements).rank := by
  unfold NativeAccountMode.limited
  revert atMost
  cases entitlements.balanceSyncEnabled <;> cases entitlements.transactionHistorySyncEnabled <;>
    cases mode <;> cases better <;> decide

theorem activationFrom_append (limit index : ℕ) (ids later : List String) :
    activationFrom limit index ids <+: activationFrom limit index (ids ++ later) := by
  induction ids generalizing index with
  | nil => exact List.nil_prefix
  | cons id ids ih =>
    rw [List.cons_append, activationFrom, activationFrom]
    exact (List.prefix_cons_inj _).mpr (ih (index + 1))

theorem fst_mem_of_mem_activationFrom {limit index : ℕ} {ids : List String}
    {entry : String × AccountActivationState} (member : entry ∈ activationFrom limit index ids) :
    entry.1 ∈ ids := by
  induction ids generalizing index with
  | nil => exact absurd member List.not_mem_nil
  | cons id ids ih =>
    rw [activationFrom] at member
    rcases List.mem_cons.mp member with rfl | later
    · exact List.mem_cons_self
    · exact List.mem_cons_of_mem _ (ih later)

theorem activationFrom_sublist {limit index fewerIndex : ℕ} {ids fewer : List String}
    (sublist : fewer.Sublist ids) (le : fewerIndex ≤ index) (distinct : ids.Nodup) {id : String}
    (member : (id, .active) ∈ activationFrom limit index ids) (kept : id ∈ fewer) :
    (id, .active) ∈ activationFrom limit fewerIndex fewer := by
  induction sublist generalizing index fewerIndex with
  | slnil => exact absurd kept List.not_mem_nil
  | @cons fewer ids other sublist ih =>
    rw [List.nodup_cons] at distinct
    rw [activationFrom] at member
    rcases List.mem_cons.mp member with here | later
    · have same : id = other := congrArg Prod.fst here
      exact absurd (sublist.subset kept) (same ▸ distinct.1)
    · exact ih (le_trans le (Nat.le_succ index)) distinct.2 later kept
  | @cons_cons fewer ids other sublist ih =>
    rw [List.nodup_cons] at distinct
    rw [activationFrom] at member ⊢
    rcases List.mem_cons.mp member with here | later
    · obtain ⟨same, active⟩ := Prod.mk.inj here
      have early : index < limit := by
        by_contra late
        rw [if_neg late] at active
        cases active
      rw [same, if_pos (lt_of_le_of_lt le early)]
      exact List.mem_cons_self
    · have among : id ∈ ids := fst_mem_of_mem_activationFrom later
      rcases List.mem_cons.mp kept with same | rest
      · exact absurd among (same ▸ distinct.1)
      · exact List.mem_cons_of_mem _ (ih (Nat.succ_le_succ le) distinct.2 later rest)

theorem activationFrom_within (limit index : ℕ) (ids : List String) :
    ((activationFrom limit index ids).filter fun entry => entry.2 = .active).length ≤
      limit - index := by
  induction ids generalizing index with
  | nil => exact Nat.zero_le _
  | cons id ids ih =>
    have rest := ih (index + 1)
    rw [activationFrom]
    by_cases early : index < limit
    · rw [if_pos early, List.filter_cons_of_pos rfl, List.length_cons]
      omega
    · rw [if_neg early, List.filter_cons_of_neg (by simp)]
      omega

theorem Queued.queryManualStates {count : ℕ} {queue : List (AdmissionRow Unit × ℤ)}
    {manual : List (AdmissionRow Unit)} (reads : ReadsStamps parse)
    (queued : Queued count queue manual) :
    queryManualStates manual entitlements =
      .ok (activationFrom entitlements.allowances.manual 0
        ((Accounts.admissionOrder parse manual).map Prod.fst)) := by
  have sorted : (manual.insertionSort fun left right =>
      toLex ((left.admittedAt : WithBot String), left.accountId) ≤
        toLex ((right.admittedAt : WithBot String), right.accountId)) = queue.map stamp := by
    have ascending : (queue.map stamp).Pairwise fun left right =>
        toLex ((left.admittedAt : WithBot String), left.accountId) <
          toLex ((right.admittedAt : WithBot String), right.accountId) := by
      refine List.pairwise_map.mpr (queued.texts_ascending.imp fun less => ?_)
      exact Prod.Lex.left _ _ (WithBot.coe_lt_coe.mpr less)
    exact insertionSort_eq queued.perm.symm ascending
  unfold Accounts.queryManualStates
  rw [sorted, @mapM_eq_ok_map _ _ _ _ AdmissionRow.accountId, queued.admissionOrder reads,
    List.map_map, List.map_map]
  · rfl
  · intro row member
    obtain ⟨entry, -, rfl⟩ := List.mem_map.mp member
    rfl

end Classification

/-! ## What holds over a history -/

section Laws

variable (parse : String → Option ℤ)

/-- The stamps of a table are distinct, and their texts compare the way their instants do. -/
structure Chronological {δ : Type} (rows : List (AdmissionRow δ)) : Prop where
  distinct : (rows.map AdmissionRow.admittedAt).Nodup
  ordered : ∀ left ∈ rows, ∀ right ∈ rows, ∃ leftText rightText leftInstant rightInstant,
    left.admittedAt = some leftText ∧ right.admittedAt = some rightText ∧
      parse leftText = some leftInstant ∧ parse rightText = some rightInstant ∧
        (leftText < rightText ↔ leftInstant < rightInstant)

/-- No more accounts get a mode, or are active, than the allowance for it. -/
structure WithinAllowances (tables : AdmissionTables) (entitlements : FeatureEntitlements) :
    Prop where
  modes : ∀ modes, queryNativeAccountModes parse tables.native entitlements = .ok modes →
    (modes.filter fun entry => entry.2 = .transactions).length ≤
        entitlements.allowances.transactionHistorySync ∧
      (modes.filter fun entry => entry.2 ≠ .inactive).length ≤
        entitlements.allowances.balanceSync
  manual : ∀ accounts, classifyAccounts parse tables entitlements = .ok accounts →
    (accounts.filter fun account => account.kind = .manualAsset ∧ account.state = .active).length ≤
      entitlements.allowances.manual

structure Lawful (tables : AdmissionTables) : Prop where
  native : Chronological parse tables.native
  manual : Chronological parse tables.manual
  within : ∀ entitlements, WithinAllowances parse tables entitlements

/-- What an operation leaves of the line of accounts, and of their modes and activation. -/
structure StepLaw (operation : AdmissionOperation) (before after : AdmissionTables) : Prop where
  native : admissionOrder parse after.native =
    ((admissionOrder parse before.native).filter fun account => operation.keeps account.1) ++
      operation.addedNatives parse before
  manual : admissionOrder parse after.manual =
    ((admissionOrder parse before.manual).filter fun account => operation.keeps account.1) ++
      operation.addedManuals parse before
  modes : ∀ entitlements modes,
    queryNativeAccountModes parse before.native entitlements = .ok modes →
      ∃ later, queryNativeAccountModes parse after.native entitlements = .ok later ∧
        ∀ id mode, (id, mode) ∈ modes → operation.keeps id →
          ∃ better, (id, better) ∈ later ∧ mode.rank ≤ better.rank
  states : ∀ entitlements accounts,
    classifyAccounts parse before entitlements = .ok accounts →
      ∃ later, classifyAccounts parse after entitlements = .ok later ∧
        ∀ account ∈ accounts, operation.keeps account.accountId → account.state = .active →
          account ∈ later

/-- The clock and the stamps of a table have room for `count` more stamps. -/
def RoomFor {δ : Type} (count : ℕ) (now : ℤ) (rows : List (AdmissionRow δ)) : Prop :=
  Room count now ∧ ∀ row ∈ rows, ∀ instant ∈ row.instant parse, Room count instant

/-- The clock and the stamps are in the years of four digits, with a microsecond for each
account that the operation stamps. -/
def HasRoom (now : ℤ) (tables : AdmissionTables) : AdmissionOperation → Prop
  | .createNative _ => RoomFor parse 1 now tables.native
  | .createManual _ => RoomFor parse 1 now tables.manual
  | .importWalletData file => RoomFor parse (createdNatives file).length now tables.native ∧
      RoomFor parse (createdManuals file).length now tables.manual
  | .delete _ => True
  | .backfill => RoomFor parse tables.native.length now tables.native ∧
      RoomFor parse tables.manual.length now tables.manual

/-- A database from before the order of admission: any stamps on native accounts and none on
manual ones. -/
structure Legacy (tables : AdmissionTables) : Prop where
  native : (tables.native.map AdmissionRow.accountId).Nodup
  manual : (tables.manual.map AdmissionRow.accountId).Nodup
  unstamped : ∀ row ∈ tables.manual, row.admittedAt = none

/-- The states of a new user or of a repaired older database, and those after more operations. -/
inductive Reached : AdmissionTables → Prop
  | newUser : Reached ⟨[], []⟩
  | repaired {before after : AdmissionTables} {now : ℤ} (legacy : Legacy before)
      (room : HasRoom parse now before .backfill)
      (done : perform parse now .backfill before = .ok after) : Reached after
  | step {before after : AdmissionTables} {now : ℤ} {operation : AdmissionOperation}
      (reached : Reached before) (room : HasRoom parse now before operation)
      (done : perform parse now operation before = .ok after) : Reached after

end Laws

section Laws

variable {parse : String → Option ℤ} {δ : Type} {count : ℕ} {now : ℤ}
  {queue : List (AdmissionRow δ × ℤ)} {rows : List (AdmissionRow δ)}

theorem Queued.chronological (reads : ReadsStamps parse) (queued : Queued count queue rows) :
    Chronological parse rows where
  distinct := by
    refine queued.admittedAt_perm.nodup_iff.mpr (List.pairwise_map.mpr ?_)
    exact queued.texts_ascending.imp fun less same => absurd (Option.some.inj same) less.ne
  ordered := by
    intro left leftIn right rightIn
    obtain ⟨leftEntry, leftAmong, rfl⟩ := List.mem_map.mp (queued.perm.mem_iff.mp leftIn)
    obtain ⟨rightEntry, rightAmong, rfl⟩ := List.mem_map.mp (queued.perm.mem_iff.mp rightIn)
    exact ⟨_, _, _, _, rfl, rfl, parse_stamp reads queued leftAmong,
      parse_stamp reads queued rightAmong,
      formatAdmissionTimestamp_lt_iff (queued.room _ leftAmong).inFourDigitYears
        (queued.room _ rightAmong).inFourDigitYears (queued.whole _ leftAmong)
        (queued.whole _ rightAmong)⟩

theorem Queued.withRoom {more : ℕ} (reads : ReadsStamps parse) (queued : Queued count queue rows)
    (room : RoomFor parse more now rows) : Queued more queue rows :=
  { queued with
    room := fun entry member => room.2 _
      (queued.perm.mem_iff.mpr (List.mem_map.mpr ⟨entry, member, rfl⟩)) _
      (queued.instant_stamp reads member) }

theorem Queued.readable (reads : ReadsStamps parse) (queued : Queued count queue rows) :
    ∀ row ∈ rows, (row.instant parse).isSome := by
  intro row member
  obtain ⟨entry, among, rfl⟩ := List.mem_map.mp (queued.perm.mem_iff.mp member)
  rw [queued.instant_stamp reads among, Option.isSome_some]

theorem admissionOrder_nodup (distinct : (rows.map AdmissionRow.accountId).Nodup) :
    ((admissionOrder parse rows).map Prod.fst).Nodup := by
  unfold admissionOrder
  rw [List.map_map]
  have sorted := List.perm_insertionSort
    (fun left right : AdmissionRow δ => left.key parse ≤ right.key parse)
    (rows.filter fun row => (row.instant parse).isSome)
  refine (sorted.map _).nodup_iff.mpr ?_
  exact distinct.sublist (List.filter_sublist.map _)

theorem Queued.rows_nodup (queued : Queued count queue rows) :
    (rows.map AdmissionRow.accountId).Nodup :=
  queued.accountId_perm.nodup_iff.mpr queued.ids_nodup

theorem Queued.nil : Queued 0 [] ([] : List (AdmissionRow δ)) where
  perm := List.Perm.refl _
  ids_nodup := List.nodup_nil
  ascending := List.Pairwise.nil
  whole _ member := absurd member List.not_mem_nil
  room _ member := absurd member List.not_mem_nil

theorem modes_kept {native later : List (AdmissionRow AccountCapabilities)} {keep : String → Bool}
    {added : List (String × AccountCapabilities)} {entitlements : FeatureEntitlements}
    {modes : List (String × NativeAccountMode)}
    (distinct : (native.map AdmissionRow.accountId).Nodup)
    (order : admissionOrder parse later =
      ((admissionOrder parse native).filter fun account => keep account.1) ++ added)
    (readable : ∀ row ∈ later, (row.instant parse).isSome)
    (done : queryNativeAccountModes parse native entitlements = .ok modes) :
    ∃ after, queryNativeAccountModes parse later entitlements = .ok after ∧
      ∀ id mode, (id, mode) ∈ modes → keep id →
        ∃ better, (id, better) ∈ after ∧ mode.rank ≤ better.rank := by
  obtain ⟨-, rfl⟩ := queryNativeAccountModes_eq_ok.mp done
  refine ⟨_, queryNativeAccountModes_eq_ok.mpr ⟨readable, rfl⟩, ?_⟩
  intro id mode member kept
  obtain ⟨⟨accountId, unlimited⟩, among, same⟩ := List.mem_map.mp member
  obtain ⟨rfl, rfl⟩ := Prod.mk.inj same
  have listed : accountId ∈ (admissionOrder parse native).map Prod.fst := by
    rw [← @map_fst_modesFrom entitlements.allowances]
    exact List.mem_map_of_mem among
  obtain ⟨account, inOrder, rfl⟩ := List.mem_map.mp listed
  obtain ⟨better, found, atLeast⟩ := modesFrom_sublist
    (List.filter_sublist (p := fun account : String × AccountCapabilities => keep account.1))
    (.inr le_rfl) (admissionOrder_nodup distinct) among
    (List.mem_map_of_mem (List.mem_filter.mpr ⟨inOrder, kept⟩))
  refine ⟨better.limited entitlements, ?_, rank_limited_mono atLeast⟩
  rw [order]
  exact List.mem_map.mpr ⟨_, (modesFrom_append added).subset found, rfl⟩

theorem activation_kept {limit : ℕ} {keep : String → Bool} {order added : List (String × δ)}
    (distinct : (order.map Prod.fst).Nodup) {id : String} (kept : keep id)
    (member : (id, .active) ∈ activationFrom limit 0 (order.map Prod.fst)) :
    (id, .active) ∈ activationFrom limit 0
      (((order.filter fun account => keep account.1) ++ added).map Prod.fst) := by
  rw [List.map_append]
  obtain ⟨account, inOrder, rfl⟩ := List.mem_map.mp (fst_mem_of_mem_activationFrom member)
  refine (activationFrom_append limit 0 _ _).subset (activationFrom_sublist
    (List.filter_sublist.map Prod.fst) le_rfl distinct member ?_)
  exact List.mem_map_of_mem (List.mem_filter.mpr ⟨inOrder, kept⟩)

theorem length_filter_le_sum {α : Type} (chosen : α → Bool) (weight : α → ℕ)
    (counts : ∀ item, chosen item → 1 ≤ weight item) (items : List α) :
    (items.filter chosen).length ≤ (items.map weight).sum := by
  induction items with
  | nil => exact le_rfl
  | cons item rest ih =>
    rw [List.map_cons, List.sum_cons]
    by_cases counted : chosen item = true
    · have one := counts item counted
      rw [List.filter_cons_of_pos counted, List.length_cons]
      omega
    · rw [List.filter_cons_of_neg counted]
      omega

theorem histories_of_limited {entitlements : FeatureEntitlements} {mode : NativeAccountMode}
    (transactions : mode.limited entitlements = .transactions) : 1 ≤ mode.histories := by
  revert transactions
  unfold NativeAccountMode.limited
  cases entitlements.balanceSyncEnabled <;> cases entitlements.transactionHistorySyncEnabled <;>
    cases mode <;> decide

theorem balances_of_limited {entitlements : FeatureEntitlements} {mode : NativeAccountMode}
    (syncing : mode.limited entitlements ≠ .inactive) : 1 ≤ mode.balances := by
  revert syncing
  unfold NativeAccountMode.limited
  cases entitlements.balanceSyncEnabled <;> cases entitlements.transactionHistorySyncEnabled <;>
    cases mode <;> decide

theorem withinAllowances {tables : AdmissionTables} {entitlements : FeatureEntitlements}
    (manual : queryManualStates tables.manual entitlements =
      .ok (activationFrom entitlements.allowances.manual 0
        ((admissionOrder parse tables.manual).map Prod.fst))) :
    WithinAllowances parse tables entitlements where
  modes modes done := by
    obtain ⟨-, rfl⟩ := queryNativeAccountModes_eq_ok.mp done
    have bounds := @modesFrom_within entitlements.allowances 0 0
      (admissionOrder parse tables.native) (Nat.zero_le _) (Nat.zero_le _)
    rw [Nat.zero_add, Nat.zero_add] at bounds
    rw [List.filter_map, List.filter_map, List.length_map, List.length_map]
    refine ⟨le_trans (length_filter_le_sum _ _ ?_ _) bounds.2,
      le_trans (length_filter_le_sum _ _ ?_ _) bounds.1⟩
    · intro entry chosen
      exact histories_of_limited (of_decide_eq_true chosen)
    · intro entry chosen
      exact balances_of_limited (of_decide_eq_true chosen)
  manual accounts done := by
    unfold classifyAccounts at done
    rw [manual] at done
    obtain ⟨modes, -, done⟩ := bind_eq_ok.mp done
    obtain rfl := Except.ok.inj done
    have natives : (modes.map fun entry => (⟨entry.1, .native,
        if entry.2 = .inactive then .inactive else .active⟩ : ClassifiedAccount)).filter
          (fun account => account.kind = .manualAsset ∧ account.state = .active) = [] := by
      refine List.filter_eq_nil_iff.mpr ?_
      intro account member
      obtain ⟨entry, -, rfl⟩ := List.mem_map.mp member
      simp
    rw [List.filter_append, natives, List.nil_append, List.filter_map, List.length_map]
    refine le_trans (le_of_eq ?_) (activationFrom_within entitlements.allowances.manual 0
      ((admissionOrder parse tables.manual).map Prod.fst))
    refine congrArg List.length (List.filter_congr ?_)
    intro entry member
    simp

theorem states_kept {before after : AdmissionTables} {keep : String → Bool}
    {added : List (String × Unit)} {entitlements : FeatureEntitlements}
    {accounts : List ClassifiedAccount}
    (modes : ∀ modes, queryNativeAccountModes parse before.native entitlements = .ok modes →
      ∃ later, queryNativeAccountModes parse after.native entitlements = .ok later ∧
        ∀ id mode, (id, mode) ∈ modes → keep id →
          ∃ better, (id, better) ∈ later ∧ mode.rank ≤ better.rank)
    (distinct : (before.manual.map AdmissionRow.accountId).Nodup)
    (order : admissionOrder parse after.manual =
      ((admissionOrder parse before.manual).filter fun account => keep account.1) ++ added)
    (ranked : ∀ states, queryManualStates before.manual entitlements = .ok states →
      states = activationFrom entitlements.allowances.manual 0
        ((admissionOrder parse before.manual).map Prod.fst))
    (rankedAfter : queryManualStates after.manual entitlements =
      .ok (activationFrom entitlements.allowances.manual 0
        ((admissionOrder parse after.manual).map Prod.fst)))
    (done : classifyAccounts parse before entitlements = .ok accounts) :
    ∃ later, classifyAccounts parse after entitlements = .ok later ∧
      ∀ account ∈ accounts, keep account.accountId → account.state = .active →
        account ∈ later := by
  unfold classifyAccounts at done ⊢
  obtain ⟨earlier, found, done⟩ := bind_eq_ok.mp done
  obtain ⟨states, listed, done⟩ := bind_eq_ok.mp done
  obtain rfl := Except.ok.inj done
  obtain rfl := ranked states listed
  obtain ⟨later, foundLater, better⟩ := modes earlier found
  rw [foundLater, rankedAfter, order]
  refine ⟨_, rfl, ?_⟩
  intro account member kept active
  rcases List.mem_append.mp member with native | manual
  · obtain ⟨⟨id, mode⟩, among, rfl⟩ := List.mem_map.mp native
    obtain ⟨improved, there, atLeast⟩ := better id mode among kept
    have syncing : mode ≠ .inactive := by
      rintro rfl
      simp at active
    have stillSyncing : improved ≠ .inactive := by
      rintro rfl
      revert atLeast syncing
      cases mode <;> decide
    refine List.mem_append_left _ (List.mem_map.mpr ⟨_, there, ?_⟩)
    simp only [if_neg syncing, if_neg stillSyncing]
  · obtain ⟨⟨id, state⟩, among, rfl⟩ := List.mem_map.mp manual
    obtain rfl : state = .active := active
    exact List.mem_append_right _ (List.mem_map.mpr
      ⟨_, activation_kept (admissionOrder_nodup distinct) kept among, rfl⟩)

theorem admitAccount_order {row : AdmissionRow δ} {after : List (AdmissionRow δ)}
    (reads : ReadsStamps parse) (queued : Queued count queue rows) (room : RoomFor parse 1 now rows)
    (done : admitAccount parse now rows row = .ok after) :
    (∃ line, Queued 0 line after) ∧
      admissionOrder parse after = admissionOrder parse rows ++ [row.name] := by
  obtain ⟨instant, joined⟩ := admitAccount_spec reads (queued.withRoom reads room) room.1 done
  refine ⟨⟨_, joined⟩, ?_⟩
  rw [joined.admissionOrder reads, queued.admissionOrder reads, List.map_append]
  rfl

theorem importAdmissions_order {created : List (CreatedAccount δ)}
    {after : List (AdmissionRow δ)} (reads : ReadsStamps parse)
    (queued : Queued count queue rows) (room : RoomFor parse created.length now rows)
    (done : importAdmissions parse now created rows = .ok after) :
    (∃ line, Queued 0 line after) ∧
      admissionOrder parse after = admissionOrder parse rows ++
        (created.insertionSort fun left right => left.admission.key ≤ right.admission.key).map
          fun account => account.row.name := by
  obtain ⟨added, joined, names⟩ :=
    importAdmissions_spec reads (queued.withRoom reads room) room.1 done
  refine ⟨⟨_, joined⟩, ?_⟩
  rw [joined.admissionOrder reads, queued.admissionOrder reads, List.map_append, names]

theorem backfillAccountAdmission_order {after : List (AdmissionRow δ)} (reads : ReadsStamps parse)
    (ids : (rows.map AdmissionRow.accountId).Nodup) (room : RoomFor parse rows.length now rows)
    (done : backfillAccountAdmission parse now rows = .ok after) :
    (∃ line, Queued 0 line after) ∧
      admissionOrder parse after = admissionOrder parse rows ++ unstampedOrder parse rows := by
  obtain ⟨line, restamped, names⟩ := backfillAccountAdmission_spec ids room.1 room.2 done
  exact ⟨⟨line, restamped⟩, (restamped.admissionOrder reads).trans names⟩

theorem delete_order (ids : List String) (reads : ReadsStamps parse)
    (queued : Queued 0 queue rows) :
    (∃ line, Queued 0 line (rows.filter fun row => row.accountId ∉ ids)) ∧
      admissionOrder parse (rows.filter fun row => row.accountId ∉ ids) =
        (admissionOrder parse rows).filter fun account => account.1 ∉ ids := by
  have left := queued.filter (fun row => row.accountId ∉ ids) fun _ => rfl
  refine ⟨⟨_, left⟩, ?_⟩
  rw [left.admissionOrder reads, queued.admissionOrder reads, List.filter_map]
  rfl

end Laws

section Histories

variable {parse : String → Option ℤ} {now : ℤ} {before after : AdmissionTables}
  {operation : AdmissionOperation}

/-- Both tables of a user stand in line. -/
def InLine (tables : AdmissionTables) : Prop :=
  (∃ line, Queued 0 line tables.native) ∧ ∃ line, Queued 0 line tables.manual

/-- Both lines keep who stays and are joined at the end. -/
def OrderLaw (parse : String → Option ℤ) (operation : AdmissionOperation)
    (before after : AdmissionTables) : Prop :=
  admissionOrder parse after.native =
      ((admissionOrder parse before.native).filter fun account => operation.keeps account.1) ++
        operation.addedNatives parse before ∧
    admissionOrder parse after.manual =
      ((admissionOrder parse before.manual).filter fun account => operation.keeps account.1) ++
        operation.addedManuals parse before

theorem filter_keeps {δ : Type} {order : List (String × δ)}
    (all : ∀ id, operation.keeps id = true) :
    order.filter (fun account => operation.keeps account.1) = order :=
  List.filter_eq_self.mpr fun account _ => all account.1

theorem perform_backfill (reads : ReadsStamps parse)
    (native : (before.native.map AdmissionRow.accountId).Nodup)
    (manual : (before.manual.map AdmissionRow.accountId).Nodup)
    (room : HasRoom parse now before .backfill)
    (done : perform parse now .backfill before = .ok after) :
    InLine after ∧ OrderLaw parse .backfill before after := by
  obtain ⟨natives, nativeDone, done⟩ := bind_eq_ok.mp done
  obtain ⟨manuals, manualDone, done⟩ := bind_eq_ok.mp done
  obtain rfl := Except.ok.inj done
  obtain ⟨nativeLine, nativeOrder⟩ := backfillAccountAdmission_order reads native room.1 nativeDone
  obtain ⟨manualLine, manualOrder⟩ := backfillAccountAdmission_order reads manual room.2 manualDone
  unfold OrderLaw
  rw [filter_keeps fun _ => rfl, filter_keeps fun _ => rfl]
  exact ⟨⟨nativeLine, manualLine⟩, nativeOrder, manualOrder⟩

theorem perform_order (reads : ReadsStamps parse) (inLine : InLine before)
    (room : HasRoom parse now before operation)
    (done : perform parse now operation before = .ok after) :
    InLine after ∧ OrderLaw parse operation before after := by
  obtain ⟨⟨nativeLine, native⟩, ⟨manualLine, manual⟩⟩ := inLine
  cases operation with
  | createNative row =>
    obtain ⟨natives, nativeDone, done⟩ := bind_eq_ok.mp done
    obtain rfl := Except.ok.inj done
    obtain ⟨line, order⟩ := admitAccount_order reads native room nativeDone
    unfold OrderLaw
    rw [filter_keeps fun _ => rfl, filter_keeps fun _ => rfl]
    exact ⟨⟨line, manualLine, manual⟩, order, (List.append_nil _).symm⟩
  | createManual row =>
    obtain ⟨manuals, manualDone, done⟩ := bind_eq_ok.mp done
    obtain rfl := Except.ok.inj done
    obtain ⟨line, order⟩ := admitAccount_order reads manual room manualDone
    unfold OrderLaw
    rw [filter_keeps fun _ => rfl, filter_keeps fun _ => rfl]
    exact ⟨⟨⟨nativeLine, native⟩, line⟩, (List.append_nil _).symm, order⟩
  | importWalletData file =>
    obtain ⟨natives, nativeDone, done⟩ := bind_eq_ok.mp done
    obtain ⟨manuals, manualDone, done⟩ := bind_eq_ok.mp done
    obtain rfl := Except.ok.inj done
    obtain ⟨nativeJoined, nativeOrder⟩ := importAdmissions_order reads native room.1 nativeDone
    obtain ⟨manualJoined, manualOrder⟩ := importAdmissions_order reads manual room.2 manualDone
    unfold OrderLaw
    rw [filter_keeps fun _ => rfl, filter_keeps fun _ => rfl]
    exact ⟨⟨nativeJoined, manualJoined⟩, nativeOrder, manualOrder⟩
  | delete ids =>
    obtain rfl := Except.ok.inj done
    obtain ⟨nativeLeft, nativeOrder⟩ := delete_order ids reads native
    obtain ⟨manualLeft, manualOrder⟩ := delete_order ids reads manual
    refine ⟨⟨nativeLeft, manualLeft⟩, ?_, ?_⟩
    · exact nativeOrder.trans (List.append_nil _).symm
    · exact manualOrder.trans (List.append_nil _).symm
  | backfill => exact perform_backfill reads native.rows_nodup manual.rows_nodup room done

theorem Reached.inLine {tables : AdmissionTables} (reads : ReadsStamps parse)
    (reached : Reached parse tables) : InLine tables := by
  induction reached with
  | newUser => exact ⟨⟨[], Queued.nil⟩, ⟨[], Queued.nil⟩⟩
  | repaired legacy room done =>
    exact (perform_backfill reads legacy.native legacy.manual room done).1
  | step _ room done ih => exact (perform_order reads ih room done).1

theorem Legacy.unranked {entitlements : FeatureEntitlements} (legacy : Legacy before)
    {states : List (String × AccountActivationState)}
    (done : queryManualStates before.manual entitlements = .ok states) :
    states = activationFrom entitlements.allowances.manual 0
      ((admissionOrder parse before.manual).map Prod.fst) := by
  obtain ⟨ids, listed, done⟩ := bind_eq_ok.mp done
  have none : before.manual = [] := by
    refine List.eq_nil_iff_forall_not_mem.mpr ?_
    intro row member
    obtain ⟨id, -, found⟩ := (mem_of_mapM_eq_ok listed).1 row
      ((List.mem_insertionSort _).mpr member)
    rw [legacy.unstamped row member] at found
    cases found
  rw [none] at listed ⊢
  obtain rfl := Except.ok.inj listed
  exact (Except.ok.inj done).symm

theorem lawful_of_inLine {tables : AdmissionTables} (reads : ReadsStamps parse)
    (inLine : InLine tables) : Lawful parse tables := by
  obtain ⟨⟨nativeLine, native⟩, ⟨manualLine, manual⟩⟩ := inLine
  exact ⟨native.chronological reads, manual.chronological reads,
    fun entitlements => withinAllowances (manual.queryManualStates reads)⟩

theorem stepLaw_of_orderLaw (reads : ReadsStamps parse) (inLine : InLine after)
    (order : OrderLaw parse operation before after)
    (native : (before.native.map AdmissionRow.accountId).Nodup)
    (manual : (before.manual.map AdmissionRow.accountId).Nodup)
    (ranked : ∀ entitlements states, queryManualStates before.manual entitlements = .ok states →
      states = activationFrom entitlements.allowances.manual 0
        ((admissionOrder parse before.manual).map Prod.fst)) :
    StepLaw parse operation before after := by
  obtain ⟨⟨nativeLine, nativeAfter⟩, ⟨manualLine, manualAfter⟩⟩ := inLine
  have modes := fun entitlements modes => @modes_kept parse before.native after.native
    operation.keeps (operation.addedNatives parse before) entitlements modes native order.1
      (nativeAfter.readable reads)
  refine ⟨order.1, order.2, modes, ?_⟩
  intro entitlements accounts done
  exact states_kept (modes entitlements) manual order.2 (ranked entitlements)
    (manualAfter.queryManualStates reads) done

/-- Whatever a user did, the stamps are distinct and in order, no allowance is exceeded, and
every operation with room for its stamps keeps the line and what its accounts have. -/
theorem admissions_stable (reads : ReadsStamps parse) :
    (∀ tables, Reached parse tables → Lawful parse tables) ∧
      ∀ before now operation after,
        Reached parse before ∨ Legacy before ∧ operation = .backfill →
        HasRoom parse now before operation →
        perform parse now operation before = .ok after →
        StepLaw parse operation before after := by
  refine ⟨fun tables reached => lawful_of_inLine reads (reached.inLine reads), ?_⟩
  intro before now operation after start room done
  rcases start with reached | ⟨legacy, rfl⟩
  · have inLine := reached.inLine reads
    obtain ⟨later, order⟩ := perform_order reads inLine room done
    obtain ⟨⟨nativeLine, native⟩, ⟨manualLine, manual⟩⟩ := inLine
    refine stepLaw_of_orderLaw reads later order native.rows_nodup manual.rows_nodup ?_
    intro entitlements states found
    exact (Except.ok.inj ((manual.queryManualStates reads).symm.trans found)).symm
  · obtain ⟨later, order⟩ := perform_backfill reads legacy.native legacy.manual room done
    exact stepLaw_of_orderLaw reads later order legacy.native legacy.manual
      fun entitlements states found => legacy.unranked found

end Histories

/-! ## An import under a clock set back, and a clock beyond the years of four digits -/

/-- An account to be created, of an asset with transactions. -/
def newAccount (id : String) : AdmissionRow AccountCapabilities :=
  ⟨id, "2026-04-01T00:00:00+00:00", none, ⟨true, true⟩⟩

def stampedAccount (id admittedAt : String) : AdmissionRow AccountCapabilities :=
  { newAccount id with admittedAt := some admittedAt }

/-- 1 April 2026. -/
def springDay : ℤ := 1775001600000000000

def firstAccount : AdmissionTables := ⟨[stampedAccount "a" "2026-04-01T00:00:00.000000Z"], []⟩

/-- Two accounts, the second of which has a timestamp in the file. -/
def importedPair : List ImportedAccount :=
  [.native (newAccount "b") none, .native (newAccount "c") (some 0)]

def afterImport : AdmissionTables :=
  ⟨[stampedAccount "a" "2026-04-01T00:00:00.000000Z",
    stampedAccount "b" "2026-04-01T00:00:00.000002Z",
    stampedAccount "c" "2026-04-01T00:00:00.000001Z"], []⟩

theorem reached_firstAccount : Reached readAdmissionTimestamp firstAccount :=
  @Reached.step _ _ _ springDay (.createNative (newAccount "a")) .newUser
    ⟨by decide +kernel, fun _ member => absurd member List.not_mem_nil⟩ (by decide +kernel)

theorem hasRoom_importedPair :
    HasRoom readAdmissionTimestamp (springDay - nanosecondsPerDay) firstAccount
      (.importWalletData importedPair) := by
  refine ⟨⟨by decide +kernel, ?_⟩, by decide +kernel,
    fun _ member => absurd member List.not_mem_nil⟩
  intro row member instant found
  rw [List.mem_singleton.mp member] at found
  have read : (stampedAccount "a" "2026-04-01T00:00:00.000000Z").instant readAdmissionTimestamp =
      some springDay := by decide +kernel
  rw [read] at found
  obtain rfl := Option.mem_some_iff.mp found
  decide +kernel

theorem admissions_stable_importedPair :
    perform readAdmissionTimestamp (springDay - nanosecondsPerDay)
        (.importWalletData importedPair) firstAccount = .ok afterImport ∧
      Lawful readAdmissionTimestamp afterImport ∧
      StepLaw readAdmissionTimestamp (.importWalletData importedPair) firstAccount afterImport := by
  have done : perform readAdmissionTimestamp (springDay - nanosecondsPerDay)
      (.importWalletData importedPair) firstAccount = .ok afterImport := by decide +kernel
  obtain ⟨lawful, stepLaw⟩ := @admissions_stable readAdmissionTimestamp
    fun _ inYears whole => readAdmissionTimestamp_format inYears whole
  exact ⟨done, lawful _ (reached_firstAccount.step hasRoom_importedPair done),
    stepLaw _ _ _ _ (.inl reached_firstAccount) hasRoom_importedPair done⟩

/-- 1 January 10000. -/
def yearTenThousand : ℤ := 253402300800000000000

def secondAccount : AdmissionTables :=
  ⟨[stampedAccount "a" "2026-04-01T00:00:00.000000Z",
    stampedAccount "b" "+10000-01-01T00:00:00.000000Z"], []⟩

def thirdAccount : AdmissionTables :=
  ⟨[stampedAccount "a" "2026-04-01T00:00:00.000000Z",
    stampedAccount "b" "+10000-01-01T00:00:00.000000Z",
    stampedAccount "c" "2026-04-01T00:00:00.000001Z"], []⟩

/-- An account admitted by a clock in the year 10000 has the lesser text, and the account
admitted after it comes before it. -/
theorem not_chronological_yearTenThousand :
    Reached readAdmissionTimestamp firstAccount ∧
      perform readAdmissionTimestamp yearTenThousand (.createNative (newAccount "b"))
        firstAccount = .ok secondAccount ∧
      ¬ Chronological readAdmissionTimestamp secondAccount.native ∧
      perform readAdmissionTimestamp springDay (.createNative (newAccount "c"))
        secondAccount = .ok thirdAccount ∧
      ¬ StepLaw readAdmissionTimestamp (.createNative (newAccount "c"))
        secondAccount thirdAccount := by
  refine ⟨reached_firstAccount, by decide +kernel, ?_, by decide +kernel, ?_⟩
  · intro chronological
    obtain ⟨_, _, leftInstant, rightInstant, leftText, rightText, left, right, same⟩ :=
      chronological.ordered (stampedAccount "b" "+10000-01-01T00:00:00.000000Z")
        (List.mem_cons_of_mem _ List.mem_cons_self)
        (stampedAccount "a" "2026-04-01T00:00:00.000000Z") List.mem_cons_self
    obtain rfl := Option.some.inj leftText
    obtain rfl := Option.some.inj rightText
    have leftRead : readAdmissionTimestamp "+10000-01-01T00:00:00.000000Z" =
        some yearTenThousand := by decide +kernel
    have rightRead : readAdmissionTimestamp "2026-04-01T00:00:00.000000Z" =
        some springDay := by decide +kernel
    obtain rfl := Option.some.inj (leftRead.symm.trans left)
    obtain rfl := Option.some.inj (rightRead.symm.trans right)
    exact absurd (same.mp (by decide +kernel)) (by decide)
  · intro law
    exact absurd law.native (by decide +kernel)

end Bitgarth.Accounts
