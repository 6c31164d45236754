import Bitgarth.Accounts.AdmissionRuns
import Bitgarth.Foundation.KeyedTable
import Bitgarth.Payments.Capabilities

/-! # The gate of manual balance assertions

Assertions can be written to active accounts only. The gate ranks the one account that it is asked
about, and the classification ranks all of them; where the classification succeeds, the two agree
(`gate_accepts_iff_active`).
-/

namespace Bitgarth.Accounts

open Amounts Fallible KeyedTable RowSelection Payments

structure SupportedAccountLimitRecord where
  accountId : String
  kind : SupportedAccountKind
  createdAt : ℤ
deriving DecidableEq, Repr

/-- By the instant of creation, then by id. -/
def SupportedAccountLimitRecord.key (record : SupportedAccountLimitRecord) : ℤ ×ₗ String :=
  toLex (record.createdAt, record.accountId)

def classifySupportedAccounts (accounts : List SupportedAccountLimitRecord) (activeLimit : ℕ) :
    List ClassifiedAccount :=
  (accounts.insertionSort fun left right => left.key ≤ right.key).zipIdx.map
    fun (account, index) =>
      { accountId := account.accountId
        kind := account.kind
        state := if index < activeLimit then .active else .inactive }

def accountStateFor (classified : List ClassifiedAccount) (accountId : String) :
    AccountActivationState :=
  ((find ClassifiedAccount.accountId classified accountId).map
    ClassifiedAccount.state).getD .inactive

inductive ManualAssetAssertionDbError where
  | database (error : DbError)
  | inactiveAccountReadOnly
deriving DecidableEq, Repr

section Operations

variable (parse parseFromRfc3339 : String → Option ℤ)

/-- A row of the scan of all accounts; `invalid` says what cannot be read. -/
def limitRecord (invalid : String) (kind : SupportedAccountKind) {δ : Type}
    (row : AdmissionRow δ) : Except DbError SupportedAccountLimitRecord :=
  match parseFromRfc3339 row.createdAt with
  | none => .error ⟨invalid⟩
  | some createdAt => .ok ⟨row.accountId, kind, createdAt⟩

/-- The scan of all accounts, which the gate and the classification each make. -/
def supportedAccountLimitRecords (invalid : String) (tables : AdmissionTables) :
    Except DbError (List SupportedAccountLimitRecord) := do
  let native ← tables.native.mapM (limitRecord parseFromRfc3339 invalid .native)
  let manual ← tables.manual.mapM (limitRecord parseFromRfc3339 invalid .manualAsset)
  .ok (native ++ manual)

def querySupportedAccountLimitRecords (tables : AdmissionTables) :
    Except DbError (List SupportedAccountLimitRecord) :=
  supportedAccountLimitRecords parseFromRfc3339 "Invalid supported account created_at" tables

/-- The mode of an account under a shared total. -/
def legacyMode (entitlements : Payments.FeatureEntitlements)
    (classified : List ClassifiedAccount) (record : NativeAccountModeRecord) : NativeAccountMode :=
  let active := accountStateFor classified record.accountId = .active ∧
    record.supportsBalanceSync = true
  if ¬active ∨ entitlements.balanceSyncEnabled = false then .inactive
  else if record.supportsTransactionSync = true ∧
      entitlements.transactionHistorySyncEnabled = true then .transactions
  else .balanceOnly

/-- `query_native_account_modes` under a shared total. -/
def queryLegacyAccountModes (tables : AdmissionTables)
    (entitlements : Payments.FeatureEntitlements) :
    Except DbError (List (String × NativeAccountMode)) := do
  let records ← tables.native.mapM (modeRecord parse)
  let limits ← querySupportedAccountLimitRecords parseFromRfc3339 tables
  let classified := classifySupportedAccounts limits entitlements.syncAccountSlotsLimit
  .ok (records.map fun record => (record.accountId, legacyMode entitlements classified record))

/-- Allowances of their own, as the classification of admissions takes them. -/
def independently (entitlements : Payments.FeatureEntitlements) (allowances : AccountAllowances) :
    FeatureEntitlements where
  allowances := allowances
  balanceSyncEnabled := entitlements.balanceSyncEnabled
  transactionHistorySyncEnabled := entitlements.transactionHistorySyncEnabled

def classifySupportedAccountsForEntitlements (tables : AdmissionTables)
    (entitlements : Payments.FeatureEntitlements) : Except DbError (List ClassifiedAccount) :=
  match entitlements.accountAllowancePolicy with
  | .independent allowances =>
    classifyAccounts parse tables (independently entitlements allowances)
  | .legacyCombined _ => do
      -- the modes are read first, and not used
      let _ ← queryLegacyAccountModes parse parseFromRfc3339 tables entitlements
      let records ← querySupportedAccountLimitRecords parseFromRfc3339 tables
      .ok (classifySupportedAccounts records entitlements.syncAccountSlotsLimit)

/-- `admitted_at < ?1 OR (admitted_at = ?1 AND id <= ?2)`, which holds of no missing stamp. -/
def notAfter (admittedAt accountId : String) (row : AdmissionRow Unit) : Bool :=
  match row.admittedAt with
  | none => false
  | some other => other < admittedAt ∨ other = admittedAt ∧ row.accountId ≤ accountId

def ensureManualAccountAssertionsWritableInTx (tables : AdmissionTables) (accountId : String) :
    AccountAllowancePolicy → Except ManualAssetAssertionDbError Unit
  | .independent allowances =>
    match (find AdmissionRow.accountId tables.manual accountId).bind AdmissionRow.admittedAt with
    | none => .error (.database ⟨"Failed to load manual account admission"⟩)
    | some admittedAt =>
      if tables.manual.countP (notAfter admittedAt accountId) ≤ allowances.manual then .ok ()
      else .error .inactiveAccountReadOnly
  | .legacyCombined total => do
      let records ← (supportedAccountLimitRecords parseFromRfc3339
        "Invalid supported account created_at for assertion write" tables).mapError .database
      if accountStateFor (classifySupportedAccounts records total) accountId = .inactive then
        .error .inactiveAccountReadOnly
      else .ok ()

end Operations

/-! ## Ranks -/

section Ranks

variable {limit index : ℕ} {ids front back : List String} {id : String}

theorem activationFrom_append_cons :
    activationFrom limit index (front ++ id :: back) =
      activationFrom limit index front ++
        (id, if index + front.length < limit then .active else .inactive) ::
          activationFrom limit (index + front.length + 1) back := by
  induction front generalizing index with
  | nil => rfl
  | cons first rest ih =>
    rw [List.cons_append, activationFrom, ih, activationFrom, List.length_cons,
      List.cons_append, Nat.add_right_comm index 1, Nat.add_assoc index]

theorem mem_activationFrom_active_iff (distinct : (front ++ id :: back).Nodup) :
    (id, .active) ∈ activationFrom limit 0 (front ++ id :: back) ↔ front.length < limit := by
  have apart := List.nodup_middle.mp distinct
  rw [List.nodup_cons, List.mem_append, not_or] at apart
  rw [activationFrom_append_cons, List.mem_append, List.mem_cons, Nat.zero_add]
  constructor
  · intro member
    rcases member with before | here | after
    · exact absurd (fst_mem_of_mem_activationFrom before) apart.1.1
    · by_contra late
      rw [if_neg late] at here
      cases here
    · exact absurd (fst_mem_of_mem_activationFrom after) apart.1.2
  · intro early
    rw [if_pos early]
    exact .inr (.inl rfl)

theorem countP_le_eq {α κ : Type*} [LinearOrder κ] {key : α → κ} {before after : List α} {row : α}
    (ascending : (before ++ row :: after).Pairwise fun left right => key left < key right) :
    (before ++ row :: after).countP (fun other => key other ≤ key row) = before.length + 1 := by
  obtain ⟨-, later, earlier⟩ := List.pairwise_append.mp ascending
  have below : before.countP (fun other => key other ≤ key row) = before.length :=
    List.countP_eq_length.mpr fun other member =>
      decide_eq_true (earlier other member row List.mem_cons_self).le
  have above : after.countP (fun other => key other ≤ key row) = 0 :=
    List.countP_eq_zero.mpr fun other member =>
      by simpa using (List.pairwise_cons.mp later).1 other member
  have own : decide (key row ≤ key row) = true := decide_eq_true le_rfl
  rw [List.countP_append, List.countP_cons, own, below, above]
  rfl

end Ranks

/-! ## Allowances of their own -/

section Independent

variable {entitlements : FeatureEntitlements} {manual : List (AdmissionRow Unit)}
  {row : AdmissionRow Unit} {states : List (String × AccountActivationState)}

/-- By the text of the admission, then by id. -/
def AdmissionRow.textKey (row : AdmissionRow Unit) : WithBot String ×ₗ String :=
  toLex ((row.admittedAt : WithBot String), row.accountId)

theorem notAfter_eq {admittedAt : String} (stamped : row.admittedAt = some admittedAt)
    {other : AdmissionRow Unit} (otherStamped : other.admittedAt.isSome) :
    notAfter admittedAt row.accountId other = decide (other.textKey ≤ row.textKey) := by
  obtain ⟨text, isText⟩ := Option.isSome_iff_exists.mp otherStamped
  have below : other.textKey ≤ row.textKey ↔
      (text : WithBot String) < (admittedAt : WithBot String) ∨
        (text : WithBot String) = (admittedAt : WithBot String) ∧
          other.accountId ≤ row.accountId := by
    rw [AdmissionRow.textKey, AdmissionRow.textKey, isText, stamped]
    exact Prod.Lex.toLex_le_toLex
  rw [WithBot.coe_lt_coe, WithBot.coe_inj] at below
  rw [notAfter, isText]
  exact decide_eq_decide.mpr below.symm

theorem mem_queryManualStates_iff (distinct : (manual.map AdmissionRow.accountId).Nodup)
    (ranked : queryManualStates manual entitlements = .ok states) (member : row ∈ manual) :
    ∃ admittedAt, row.admittedAt = some admittedAt ∧
      ((row.accountId, .active) ∈ states ↔
        manual.countP (notAfter admittedAt row.accountId) ≤ entitlements.allowances.manual) := by
  obtain ⟨ids, read, isStates⟩ := bind_eq_ok.mp ranked
  obtain rfl := Except.ok.inj isStates
  have perm := List.perm_insertionSort
    (fun left right : AdmissionRow Unit => left.textKey ≤ right.textKey) manual
  have stamped : ∀ other ∈ manual, other.admittedAt.isSome := by
    intro other isOther
    obtain ⟨id, -, found⟩ := (mem_of_mapM_eq_ok read).1 other (perm.mem_iff.mpr isOther)
    cases present : other.admittedAt with
    | none =>
      rw [present] at found
      cases found
    | some text => rfl
  have isIds : ids = (manual.insertionSort fun left right => left.textKey ≤ right.textKey).map
      AdmissionRow.accountId := by
    refine Except.ok.inj (read.symm.trans (mapM_eq_ok_map fun other isOther => ?_))
    obtain ⟨text, isText⟩ :=
      Option.isSome_iff_exists.mp (stamped other (perm.mem_iff.mp isOther))
    rw [isText]
  have ascending : (manual.insertionSort fun left right => left.textKey ≤ right.textKey).Pairwise
      fun left right => left.textKey < right.textKey := by
    refine insertionSort_ascending (List.Nodup.of_map (fun key => (ofLex key).2) ?_)
    rw [List.map_map]
    exact distinct
  obtain ⟨admittedAt, isAdmittedAt⟩ := Option.isSome_iff_exists.mp (stamped row member)
  refine ⟨admittedAt, isAdmittedAt, ?_⟩
  have counted : manual.countP (notAfter admittedAt row.accountId) =
      (manual.insertionSort fun left right => left.textKey ≤ right.textKey).countP
        fun other => other.textKey ≤ row.textKey := by
    rw [perm.countP_eq]
    refine List.countP_congr fun other isOther => ?_
    rw [notAfter_eq isAdmittedAt (stamped other isOther)]
  have distinctIds : ids.Nodup := by
    rw [isIds]
    exact (perm.map AdmissionRow.accountId).nodup_iff.mpr distinct
  obtain ⟨before, after, split⟩ := List.append_of_mem (perm.mem_iff.mpr member)
  rw [split] at counted ascending isIds
  rw [counted, countP_le_eq ascending]
  rw [List.map_append, List.map_cons] at isIds
  subst isIds
  rw [mem_activationFrom_active_iff distinctIds, List.length_map]
  exact Nat.lt_iff_add_one_le

end Independent

/-! ## A shared total -/

section Shared

variable {parse parseFromRfc3339 : String → Option ℤ} {tables : AdmissionTables}
  {records : List SupportedAccountLimitRecord} {limit : ℕ} {account : ClassifiedAccount}
  {accountId invalid otherText : String}

theorem ids_classifySupportedAccounts :
    ((classifySupportedAccounts records limit).map ClassifiedAccount.accountId).Perm
      (records.map SupportedAccountLimitRecord.accountId) := by
  have perm := List.perm_insertionSort
    (fun left right : SupportedAccountLimitRecord => left.key ≤ right.key) records
  refine List.Perm.trans (List.Perm.of_eq ?_)
    (perm.map SupportedAccountLimitRecord.accountId)
  rw [classifySupportedAccounts, List.map_map]
  rw [← List.zipIdx_map_fst 0 (records.insertionSort fun left right => left.key ≤ right.key),
    List.map_map]
  simp only [List.zipIdx_map_fst]
  rfl

theorem exists_record_of_mem (member : account ∈ classifySupportedAccounts records limit) :
    ∃ record ∈ records, record.accountId = account.accountId ∧ record.kind = account.kind := by
  obtain ⟨⟨record, index⟩, isRecord, rfl⟩ := List.mem_map.mp member
  have perm := List.perm_insertionSort
    (fun left right : SupportedAccountLimitRecord => left.key ≤ right.key) records
  exact ⟨record, perm.mem_iff.mp (List.fst_mem_of_mem_zipIdx isRecord), rfl, rfl⟩

theorem limitRecord_eq_ok {kind : SupportedAccountKind} {δ : Type} {row : AdmissionRow δ}
    {record : SupportedAccountLimitRecord} :
    limitRecord parseFromRfc3339 invalid kind row = .ok record ↔
      ∃ createdAt, parseFromRfc3339 row.createdAt = some createdAt ∧
        record = ⟨row.accountId, kind, createdAt⟩ := by
  unfold limitRecord
  cases parseFromRfc3339 row.createdAt with
  | none => exact iff_of_false nofun fun ⟨_, unread, _⟩ => nomatch unread
  | some createdAt => simp [eq_comm]

theorem supportedAccountLimitRecords_eq_ok
    (scanned : supportedAccountLimitRecords parseFromRfc3339 invalid tables = .ok records) :
    supportedAccountLimitRecords parseFromRfc3339 otherText tables = .ok records := by
  obtain ⟨native, isNative, rest⟩ := bind_eq_ok.mp scanned
  obtain ⟨manual, isManual, all⟩ := bind_eq_ok.mp rest
  have same {kind : SupportedAccountKind} {δ : Type} {rows : List (AdmissionRow δ)}
      {read : List SupportedAccountLimitRecord}
      (isRead : rows.mapM (limitRecord parseFromRfc3339 invalid kind) = .ok read) :
      rows.mapM (limitRecord parseFromRfc3339 otherText kind) = .ok read := by
    rw [mapM_eq_ok_iff_forall₂] at *
    exact isRead.imp fun row record read => limitRecord_eq_ok.mpr (limitRecord_eq_ok.mp read)
  rw [supportedAccountLimitRecords, same isNative, same isManual]
  exact all

theorem ids_of_supportedAccountLimitRecords
    (scanned : supportedAccountLimitRecords parseFromRfc3339 invalid tables = .ok records) :
    records.map SupportedAccountLimitRecord.accountId =
      tables.native.map AdmissionRow.accountId ++ tables.manual.map AdmissionRow.accountId := by
  obtain ⟨native, isNative, rest⟩ := bind_eq_ok.mp scanned
  obtain ⟨manual, isManual, all⟩ := bind_eq_ok.mp rest
  obtain rfl := Except.ok.inj all
  rw [List.map_append]
  refine congrArg₂ (· ++ ·) ?_ ?_
  · refine map_eq_of_mapM_eq_ok isNative fun row record read => ?_
    obtain ⟨_, -, rfl⟩ := limitRecord_eq_ok.mp read
    rfl
  · refine map_eq_of_mapM_eq_ok isManual fun row record read => ?_
    obtain ⟨_, -, rfl⟩ := limitRecord_eq_ok.mp read
    rfl

theorem kind_of_supportedAccountLimitRecords
    (scanned : supportedAccountLimitRecords parseFromRfc3339 invalid tables = .ok records)
    (distinct : (tables.native.map AdmissionRow.accountId ++
      tables.manual.map AdmissionRow.accountId).Nodup)
    {row : AdmissionRow Unit} (member : row ∈ tables.manual)
    {record : SupportedAccountLimitRecord} (isRecord : record ∈ records)
    (sameId : record.accountId = row.accountId) : record.kind = .manualAsset := by
  obtain ⟨native, isNative, rest⟩ := bind_eq_ok.mp scanned
  obtain ⟨manual, isManual, all⟩ := bind_eq_ok.mp rest
  obtain rfl := Except.ok.inj all
  rcases List.mem_append.mp isRecord with inNative | inManual
  · obtain ⟨other, isOther, read⟩ := (mem_of_mapM_eq_ok isNative).2 record inNative
    obtain ⟨_, -, rfl⟩ := limitRecord_eq_ok.mp read
    have apart := (List.nodup_append.mp distinct).2.2 _
      (List.mem_map_of_mem isOther) _ (List.mem_map_of_mem member)
    exact absurd sameId apart
  · obtain ⟨other, -, read⟩ := (mem_of_mapM_eq_ok isManual).2 record inManual
    obtain ⟨_, -, rfl⟩ := limitRecord_eq_ok.mp read
    rfl

theorem accountStateFor_eq_active_iff
    (scanned : supportedAccountLimitRecords parseFromRfc3339 invalid tables = .ok records)
    (distinct : (tables.native.map AdmissionRow.accountId ++
      tables.manual.map AdmissionRow.accountId).Nodup)
    {row : AdmissionRow Unit} (member : row ∈ tables.manual) :
    accountStateFor (classifySupportedAccounts records limit) row.accountId = .active ↔
      (⟨row.accountId, .manualAsset, .active⟩ : ClassifiedAccount) ∈
        classifySupportedAccounts records limit := by
  have keyed : Keyed ClassifiedAccount.accountId (classifySupportedAccounts records limit) := by
    rw [Keyed, ids_classifySupportedAccounts.nodup_iff,
      ids_of_supportedAccountLimitRecords scanned]
    exact distinct
  constructor
  · intro active
    unfold accountStateFor at active
    cases found : find ClassifiedAccount.accountId
        (classifySupportedAccounts records limit) row.accountId with
    | none =>
      rw [found] at active
      cases active
    | some account =>
      rw [found] at active
      obtain ⟨isAccount, sameId⟩ := (find_eq_some_iff keyed).mp found
      obtain ⟨record, isRecord, id, kind⟩ := exists_record_of_mem isAccount
      have manual := kind_of_supportedAccountLimitRecords scanned distinct member isRecord
        (id.trans sameId)
      have same : account = ⟨row.accountId, .manualAsset, .active⟩ := by
        cases account
        exact ClassifiedAccount.mk.injEq .. ▸ ⟨sameId, kind.symm.trans manual, active⟩
      exact same ▸ isAccount
  · intro isAccount
    rw [accountStateFor, (find_eq_some_iff keyed).mpr ⟨isAccount, rfl⟩]
    rfl

end Shared

/-! ## The gate -/

section Gate

variable {parse parseFromRfc3339 : String → Option ℤ} {tables : AdmissionTables}
  {classified : List ClassifiedAccount} {row : AdmissionRow Unit}

theorem gate_independent_iff {entitlements : FeatureEntitlements}
    (classifies : classifyAccounts parse tables entitlements = .ok classified)
    (distinct : (tables.manual.map AdmissionRow.accountId).Nodup) (member : row ∈ tables.manual) :
    ensureManualAccountAssertionsWritableInTx parseFromRfc3339 tables row.accountId
        (.independent entitlements.allowances) = .ok () ↔
      ⟨row.accountId, .manualAsset, .active⟩ ∈ classified := by
  obtain ⟨modes, -, rest⟩ := bind_eq_ok.mp classifies
  obtain ⟨states, ranked, all⟩ := bind_eq_ok.mp rest
  obtain rfl := Except.ok.inj all
  obtain ⟨admittedAt, stamped, counts⟩ := mem_queryManualStates_iff distinct ranked member
  have found := (find_eq_some_iff distinct).mpr ⟨member, rfl⟩
  have listed : (⟨row.accountId, .manualAsset, .active⟩ : ClassifiedAccount) ∈
      (modes.map fun entry =>
        ⟨entry.1, .native, if entry.2 = .inactive then .inactive else .active⟩) ++
        states.map (fun entry => ⟨entry.1, .manualAsset, entry.2⟩) ↔
      (row.accountId, .active) ∈ states := by
    rw [List.mem_append, List.mem_map, List.mem_map]
    constructor
    · intro either
      rcases either with ⟨_, _, native⟩ | ⟨entry, isEntry, manual⟩
      · have kinds := (ClassifiedAccount.mk.inj native).2.1
        cases kinds
      · obtain ⟨sameId, -, sameState⟩ := ClassifiedAccount.mk.inj manual
        have same : entry = (row.accountId, .active) := Prod.ext sameId sameState
        exact same ▸ isEntry
    · exact fun isEntry => .inr ⟨_, isEntry, rfl⟩
  rw [listed, counts, ensureManualAccountAssertionsWritableInTx, found, Option.bind_some, stamped]
  simp only
  split
  · next fits => exact iff_of_true rfl fits
  · next over' => exact iff_of_false nofun over'

theorem gate_legacyCombined_iff {invalid : String} {records : List SupportedAccountLimitRecord}
    {total : ℕ}
    (scanned : supportedAccountLimitRecords parseFromRfc3339 invalid tables = .ok records)
    (distinct : (tables.native.map AdmissionRow.accountId ++
      tables.manual.map AdmissionRow.accountId).Nodup) (member : row ∈ tables.manual) :
    ensureManualAccountAssertionsWritableInTx parseFromRfc3339 tables row.accountId
        (.legacyCombined total) = .ok () ↔
      ⟨row.accountId, .manualAsset, .active⟩ ∈ classifySupportedAccounts records total := by
  rw [← accountStateFor_eq_active_iff scanned distinct member,
    ensureManualAccountAssertionsWritableInTx, supportedAccountLimitRecords_eq_ok scanned]
  change (if accountStateFor (classifySupportedAccounts records total) row.accountId = .inactive
    then _ else _) = _ ↔ _
  cases accountStateFor (classifySupportedAccounts records total) row.accountId with
  | active => exact iff_of_true rfl rfl
  | inactive => exact iff_of_false nofun nofun

/-- **The gate agrees with the classification.** For all capabilities, and where the
classification succeeds, the gate lets a manual account pass exactly if it is classified as
active. -/
theorem gate_accepts_iff_active (version : ℕ) (granted : EntitlementCapabilities)
    (distinct : (tables.native.map AdmissionRow.accountId ++
      tables.manual.map AdmissionRow.accountId).Nodup)
    (classifies : classifySupportedAccountsForEntitlements parse parseFromRfc3339 tables
      (.fromCapabilities version granted) = .ok classified) (member : row ∈ tables.manual) :
    ensureManualAccountAssertionsWritableInTx parseFromRfc3339 tables row.accountId
        (Payments.FeatureEntitlements.fromCapabilities version granted).accountAllowancePolicy =
          .ok () ↔
      ⟨row.accountId, .manualAsset, .active⟩ ∈ classified := by
  unfold classifySupportedAccountsForEntitlements at classifies
  cases policy : (Payments.FeatureEntitlements.fromCapabilities version
      granted).accountAllowancePolicy with
  | independent allowances =>
    rw [policy] at classifies
    exact gate_independent_iff classifies (List.nodup_append.mp distinct).2.1 member
  | legacyCombined total =>
    rw [policy] at classifies
    obtain ⟨_, -, rest⟩ := bind_eq_ok.mp classifies
    obtain ⟨records, scanned, all⟩ := bind_eq_ok.mp rest
    obtain rfl := Except.ok.inj all
    rw [← total_eq_syncAccountSlotsLimit policy]
    exact gate_legacyCombined_iff scanned distinct member

end Gate

/-! ## Two accounts -/

/-- A native account, and a manual one that was created later. -/
def twoAccounts (nativeStamp : Option String) : AdmissionTables where
  native := [⟨"bitcoin", "1", nativeStamp, ⟨true, true⟩⟩]
  manual := [⟨"gold", "2", some "2", ()⟩]

/-- Stamps of one digit. -/
def readStamp (raw : String) : Option ℤ :=
  if raw = "1" then some 1 else if raw = "2" then some 2 else none

/-- Room for one account of each kind. -/
def oneOfEach : EntitlementCapabilities where
  limits := ⟨some (.independent 1 1 1), freeSyncedAccounts⟩
  features := ⟨false, true, true⟩

theorem gate_accepts_iff_active_gold :
    ensureManualAccountAssertionsWritableInTx readStamp (twoAccounts (some "1")) "gold"
        (Payments.FeatureEntitlements.fromCapabilities 4 oneOfEach).accountAllowancePolicy =
          .ok () ↔
      ⟨"gold", .manualAsset, .active⟩ ∈
        [ClassifiedAccount.mk "bitcoin" .native .active, ⟨"gold", .manualAsset, .active⟩] :=
  @gate_accepts_iff_active readStamp readStamp (twoAccounts (some "1"))
    [⟨"bitcoin", .native, .active⟩, ⟨"gold", .manualAsset, .active⟩] ⟨"gold", "2", some "2", ()⟩
    4 oneOfEach (by decide) rfl (List.mem_singleton_self _)

/-- A native account without a stamp fails the classification, and the gate does not ask for it. -/
theorem not_gate_accepts_iff_active :
    ¬∀ (parse parseFromRfc3339 : String → Option ℤ) (tables : AdmissionTables) (version : ℕ)
        (granted : EntitlementCapabilities),
      (tables.native.map AdmissionRow.accountId ++
        tables.manual.map AdmissionRow.accountId).Nodup →
      ∀ row ∈ tables.manual,
        (ensureManualAccountAssertionsWritableInTx parseFromRfc3339 tables row.accountId
            (Payments.FeatureEntitlements.fromCapabilities version granted).accountAllowancePolicy =
              .ok () ↔
          ∃ classified, classifySupportedAccountsForEntitlements parse parseFromRfc3339 tables
              (.fromCapabilities version granted) = .ok classified ∧
            ⟨row.accountId, .manualAsset, .active⟩ ∈ classified) := by
  intro agrees
  obtain ⟨classified, classifies, -⟩ := (agrees readStamp readStamp (twoAccounts none) 4 oneOfEach
    (by decide) ⟨"gold", "2", some "2", ()⟩ (List.mem_singleton_self _)).mp (by decide)
  cases classifies

end Bitgarth.Accounts
