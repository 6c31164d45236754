import Mathlib.Data.List.Forall2
import Mathlib.Data.List.Sort
import Mathlib.Data.Prod.Lex
import Mathlib.Data.String.Basic
import Mathlib.Logic.Relation
import Bitgarth.Accounts.Labels

/-! # Moving an account to another wallet

An account moves with the accounts that share a normalized extended public key with it; labels
that are taken in the target wallet are changed. `movesFamily_iff` says when that keeps accounts
of shared keys in one wallet and the labels of a wallet distinct.
-/

namespace Bitgarth.Accounts

open Fallible

inductive WalletAccountStorageKind where
  | native
  | manual
deriving DecidableEq, Repr

structure WalletRow where
  id : String
  label : String
  labelKey : String
  createdAt : String
  updatedAt : String
deriving DecidableEq, Repr

/-- A row of `digital_asset_accounts` or `manual_asset_accounts`; `details` are the columns that
moving an account does not touch. -/
structure WalletAccountRow (δ : Type) where
  id : String
  kind : WalletAccountStorageKind
  walletId : String
  label : String
  labelKey : String
  createdAt : String
  updatedAt : String
  details : δ
deriving DecidableEq, Repr

structure HdKeyRow where
  id : String
  accountId : String
  normalizedExtendedPubkey : String
  addressScheme : String
deriving DecidableEq, Repr

/-- The tables of wallets; `others` are those that moving an account does not touch. -/
structure WalletTables (δ τ : Type) where
  wallets : List WalletRow
  accounts : List (WalletAccountRow δ)
  hdKeys : List HdKeyRow
  others : τ
deriving DecidableEq, Repr

inductive WalletDbConflict where
  | walletLabel
  | accountLabelInWallet
deriving DecidableEq, Repr

inductive MoveAccountDbError where
  | accountNotFound
  | targetWalletNotFound
  | alreadyInTargetWallet
  | conflict (conflict : WalletDbConflict)
  | internal (message : String)
deriving DecidableEq, Repr

structure WalletAccountContext where
  kind : WalletAccountStorageKind
  currentWalletId : String
  accountLabel : Label
  sourceWalletLabel : Label
deriving DecidableEq, Repr

section Moves

variable {δ τ : Type}

def parseStoredLabel (name raw : String) (maxLen : ℕ) : Except MoveAccountDbError Label :=
  (Label.parseWithLimit raw maxLen).mapError fun error =>
    .internal ("Invalid " ++ name ++ " label in db: " ++ error.message)

def loadWalletAccountContext (tables : WalletTables δ τ) (accountId : String) :
    Except MoveAccountDbError WalletAccountContext := do
  let found := (tables.accounts.find? (·.id = accountId)).bind fun account =>
    (tables.wallets.find? (·.id = account.walletId)).map (account, ·)
  match found with
  | none => .error .accountNotFound
  | some (account, wallet) =>
    let accountLabel ← parseStoredLabel "account" account.label accountLabelMaxLength
    let sourceWalletLabel ← parseStoredLabel "source wallet" wallet.label walletLabelMaxLength
    return { kind := account.kind, currentWalletId := account.walletId, accountLabel,
             sourceWalletLabel }

def ensureWalletExists (tables : WalletTables δ τ) (walletId : String) :
    Except MoveAccountDbError Unit :=
  if tables.wallets.any (·.id = walletId) then .ok () else .error .targetWalletNotFound

/-- Two accounts have a key each with the same normalized extended public key. -/
def sharesKey (hdKeys : List HdKeyRow) (left right : String) : Bool :=
  hdKeys.any fun own => own.accountId = left && hdKeys.any fun other =>
    other.accountId = right && other.normalizedExtendedPubkey = own.normalizedExtendedPubkey

def loadWalletAccountMoveFamily (tables : WalletTables δ τ) (accountId : String) : List String :=
  let siblings := tables.accounts.filter fun account =>
    account.kind = .native && sharesKey tables.hdKeys accountId account.id
  let family := (siblings.insertionSort fun left right =>
    toLex (left.createdAt, left.id) ≤ toLex (right.createdAt, right.id)).map (·.id)
  if family = [] then [accountId] else family

/-- `query_wallet_account_label_keys_in_tx`. -/
def walletAccountLabelKeys (tables : WalletTables δ τ) (walletId : String) : List String :=
  (tables.accounts.filter (·.walletId = walletId)).map (·.labelKey)

/-- Write the wallet and the label of an account; each table has distinct keys in a wallet. -/
def updateAccountWallet (tables : WalletTables δ τ) (accountId walletId label labelKey : String)
    (kind : WalletAccountStorageKind) (timestamp : String) :
    Except MoveAccountDbError (WalletTables δ τ) :=
  if tables.accounts.any fun other => other.id ≠ accountId && other.kind = kind &&
      other.walletId = walletId && other.labelKey = labelKey then
    .error (.conflict .accountLabelInWallet)
  else
    .ok { tables with accounts := tables.accounts.map fun account =>
      if account.id = accountId then
        { account with walletId, label, labelKey, updatedAt := timestamp }
      else account }

variable (lower : String → String)

/-- The loop of `move_wallet_account_family_to_wallet_in_tx`. -/
def moveWalletAccountFamily (targetWalletId timestamp : String) :
    List String → List String → WalletTables δ τ → Except MoveAccountDbError (WalletTables δ τ)
  | [], _, tables => .ok tables
  | accountId :: rest, existingTargetKeys, tables => do
      let context ← loadWalletAccountContext tables accountId
      if context.currentWalletId = targetWalletId then
        moveWalletAccountFamily targetWalletId timestamp rest existingTargetKeys tables
      else
        let targetLabel ← (generateMoveAccountLabel lower context.accountLabel
          context.sourceWalletLabel existingTargetKeys).mapError fun error =>
            .internal ("Failed to generate moved account label: " ++ error.message)
        let moved ← updateAccountWallet tables accountId targetWalletId targetLabel.text
          (targetLabel.key lower) context.kind timestamp
        moveWalletAccountFamily targetWalletId timestamp rest
          (existingTargetKeys ++ [targetLabel.key lower]) moved

/-- `move_wallet_account_family_to_wallet_in_tx`. -/
def moveFamilyToWallet (tables : WalletTables δ τ) (accountIds : List String)
    (targetWalletId timestamp : String) : Except MoveAccountDbError (WalletTables δ τ) :=
  moveWalletAccountFamily lower targetWalletId timestamp accountIds
    (walletAccountLabelKeys tables targetWalletId) tables

def moveAccountToWallet (tables : WalletTables δ τ) (accountId targetWalletId timestamp : String) :
    Except MoveAccountDbError (WalletTables δ τ) := do
  let moveContext ← loadWalletAccountContext tables accountId
  ensureWalletExists tables targetWalletId
  if moveContext.currentWalletId = targetWalletId then
    .error .alreadyInTargetWallet
  else
    moveFamilyToWallet lower tables (loadWalletAccountMoveFamily tables accountId) targetWalletId
      timestamp

/-- Insert a wallet; ids and label keys are distinct. -/
def insertWallet (tables : WalletTables δ τ) (walletId : String) (label : Label)
    (timestamp : String) : Except MoveAccountDbError (WalletTables δ τ) :=
  if tables.wallets.any (·.id = walletId) then
    .error (.internal "Failed to insert wallet")
  else if tables.wallets.any (·.labelKey = label.key lower) then
    .error (.conflict .walletLabel)
  else
    .ok { tables with wallets := tables.wallets ++ [{
      id := walletId
      label := label.text
      labelKey := label.key lower
      createdAt := timestamp
      updatedAt := timestamp }] }

/-- `create_wallet_and_move_account`, with the id of the created wallet. -/
def createWalletAndMoveAccount (tables : WalletTables δ τ) (accountId : String) (label : Label)
    (createdWalletId timestamp : String) : Except MoveAccountDbError (WalletTables δ τ) := do
  let family := loadWalletAccountMoveFamily tables accountId
  let inserted ← insertWallet lower tables createdWalletId label timestamp
  moveFamilyToWallet lower inserted family createdWalletId timestamp

/-- Where an account is moved to. -/
inductive MoveTarget where
  | wallet (targetWalletId : String)
  | newWallet (label : Label) (createdWalletId : String)
deriving DecidableEq, Repr

def MoveTarget.walletId : MoveTarget → String
  | .wallet targetWalletId => targetWalletId
  | .newWallet _ createdWalletId => createdWalletId

def MoveTarget.move (target : MoveTarget) (tables : WalletTables δ τ)
    (accountId timestamp : String) : Except MoveAccountDbError (WalletTables δ τ) :=
  match target with
  | .wallet targetWalletId =>
    moveAccountToWallet lower tables accountId targetWalletId timestamp
  | .newWallet label createdWalletId =>
    createWalletAndMoveAccount lower tables accountId label createdWalletId timestamp

/-- The call in its transaction, which an error rolls back. -/
def MoveTarget.call (target : MoveTarget) (accountId timestamp : String)
    (tables : WalletTables δ τ) : Except MoveAccountDbError Unit × WalletTables δ τ :=
  match target.move lower tables accountId timestamp with
  | .ok moved => (.ok (), moved)
  | .error error => (.error error, tables)

end Moves

/-! ## Families -/

section Families

variable {δ τ : Type} {tables : WalletTables δ τ} {accountId : String}

/-- The labels of a wallet's accounts have distinct keys. -/
def LabelsDistinct (tables : WalletTables δ τ) : Prop :=
  ∀ left ∈ tables.accounts, ∀ right ∈ tables.accounts, left.walletId = right.walletId →
    left.labelKey = right.labelKey → left.id = right.id

/-- Accounts that share a normalized key are in one wallet. -/
def KeysTogether (tables : WalletTables δ τ) : Prop :=
  ∀ left ∈ tables.accounts, ∀ right ∈ tables.accounts,
    sharesKey tables.hdKeys left.id right.id = true → left.walletId = right.walletId

/-- What the database keeps of the tables. -/
structure WalletTables.Valid (tables : WalletTables δ τ) : Prop where
  ids : (tables.accounts.map (·.id)).Nodup
  wallets : ∀ account ∈ tables.accounts, ∃ wallet ∈ tables.wallets, wallet.id = account.walletId
  keys : ∀ key ∈ tables.hdKeys, ∃ account ∈ tables.accounts,
    account.id = key.accountId ∧ account.kind = .native
  labels : LabelsDistinct tables

theorem sharesKey_iff {hdKeys : List HdKeyRow} {left right : String} :
    sharesKey hdKeys left right = true ↔ ∃ own ∈ hdKeys, own.accountId = left ∧
      ∃ other ∈ hdKeys, other.accountId = right ∧
        other.normalizedExtendedPubkey = own.normalizedExtendedPubkey := by
  simp [sharesKey, List.any_eq_true]

theorem sharesKey_symm {hdKeys : List HdKeyRow} {left right : String}
    (shares : sharesKey hdKeys left right = true) : sharesKey hdKeys right left = true := by
  obtain ⟨own, ownMem, isLeft, other, otherMem, isRight, same⟩ := sharesKey_iff.mp shares
  exact sharesKey_iff.mpr ⟨other, otherMem, isRight, own, ownMem, isLeft, same.symm⟩

theorem sharesKey_self {hdKeys : List HdKeyRow} {left right : String}
    (shares : sharesKey hdKeys left right = true) : sharesKey hdKeys left left = true := by
  obtain ⟨own, ownMem, isLeft, _⟩ := sharesKey_iff.mp shares
  exact sharesKey_iff.mpr ⟨own, ownMem, isLeft, own, ownMem, isLeft, rfl⟩

theorem WalletTables.Valid.exists_native (valid : tables.Valid) {left right : String}
    (shares : sharesKey tables.hdKeys left right = true) :
    ∃ account ∈ tables.accounts, account.id = right ∧ account.kind = .native := by
  obtain ⟨_, _, _, other, otherMem, rfl, _⟩ := sharesKey_iff.mp shares
  exact valid.keys other otherMem

theorem WalletTables.Valid.eq_of_id (valid : tables.Valid) {left right : WalletAccountRow δ}
    (leftMem : left ∈ tables.accounts) (rightMem : right ∈ tables.accounts)
    (same : left.id = right.id) : left = right :=
  List.inj_on_of_nodup_map valid.ids leftMem rightMem same

theorem mem_loadWalletAccountMoveFamily (valid : tables.Valid) {other : String} :
    other ∈ loadWalletAccountMoveFamily tables accountId ↔
      other = accountId ∨ sharesKey tables.hdKeys accountId other = true := by
  have siblings : ∀ {id : String}, id ∈ ((tables.accounts.filter fun account =>
      account.kind = .native && sharesKey tables.hdKeys accountId account.id).insertionSort
        fun left right => toLex (left.createdAt, left.id) ≤ toLex (right.createdAt, right.id)).map
          (·.id) ↔ sharesKey tables.hdKeys accountId id = true := by
    intro id
    rw [List.mem_map]
    refine ⟨fun ⟨account, among, isId⟩ => ?_, fun shares => ?_⟩
    · obtain ⟨_, isSibling⟩ := List.mem_filter.mp ((List.mem_insertionSort _).mp among)
      exact isId ▸ (Bool.and_eq_true_iff.mp isSibling).2
    · obtain ⟨account, among, rfl, isNative⟩ := valid.exists_native shares
      refine ⟨account, (List.mem_insertionSort _).mpr (List.mem_filter.mpr ⟨among, ?_⟩), rfl⟩
      rw [isNative, shares]
      rfl
  unfold loadWalletAccountMoveFamily
  dsimp only
  split
  · rename_i none
    rw [List.mem_singleton]
    refine ⟨.inl, fun member => member.resolve_right fun shares => ?_⟩
    have among := siblings.mpr shares
    rw [none] at among
    exact List.not_mem_nil among
  · rename_i some
    refine siblings.trans ⟨.inr, fun member => member.elim (fun isAccount => ?_) id⟩
    obtain ⟨first, among⟩ := List.exists_mem_of_ne_nil _ some
    rw [isAccount]
    exact sharesKey_self (siblings.mp among)

theorem nodup_loadWalletAccountMoveFamily (valid : tables.Valid) :
    (loadWalletAccountMoveFamily tables accountId).Nodup := by
  unfold loadWalletAccountMoveFamily
  dsimp only
  split
  · exact List.nodup_singleton _
  · refine ((List.perm_insertionSort _ _).map _).nodup_iff.mpr ?_
    exact valid.ids.sublist (List.filter_sublist.map _)

/-- Accounts connected through shared keys. -/
def Connected (tables : WalletTables δ τ) : String → String → Prop :=
  Relation.ReflTransGen fun left right => sharesKey tables.hdKeys left right = true

/-- Whatever shares a key with one that shares a key with the account shares one with it. -/
def FamilyClosed (tables : WalletTables δ τ) (accountId : String) : Prop :=
  ∀ left right, sharesKey tables.hdKeys accountId left = true →
    sharesKey tables.hdKeys left right = true → sharesKey tables.hdKeys accountId right = true

theorem connected_iff (closed : FamilyClosed tables accountId) {other : String} :
    Connected tables accountId other ↔
      other = accountId ∨ sharesKey tables.hdKeys accountId other = true := by
  refine ⟨fun connected => ?_, ?_⟩
  · induction connected with
    | refl => exact .inl rfl
    | tail _ shares ih =>
      rcases ih with rfl | earlier
      · exact .inr shares
      · exact .inr (closed _ _ earlier shares)
  · rintro (rfl | shares)
    · exact .refl
    · exact .single shares

end Families

/-! ## The loop over a family -/

section Loop

variable {δ τ : Type} {lower : String → String} {tables after : WalletTables δ τ}
  {targetWalletId timestamp : String}

/-- A row that was moved. -/
structure MovedTo (targetWalletId : String) (row moved : WalletAccountRow δ) : Prop where
  id : moved.id = row.id
  kind : moved.kind = row.kind
  walletId : moved.walletId = targetWalletId
  createdAt : moved.createdAt = row.createdAt
  details : moved.details = row.details

/-- A row after the given accounts were moved. -/
def RowAfterMove (targetWalletId : String) (accountIds : List String)
    (row moved : WalletAccountRow δ) : Prop :=
  if row.id ∈ accountIds then MovedTo targetWalletId row moved else moved = row

theorem RowAfterMove.id_eq {accountIds : List String} {row moved : WalletAccountRow δ}
    (rowAfter : RowAfterMove targetWalletId accountIds row moved) : moved.id = row.id := by
  unfold RowAfterMove at rowAfter
  split at rowAfter
  · exact rowAfter.id
  · rw [rowAfter]

/-- The given accounts are moved and everything else stays. -/
structure FamilyMoved (targetWalletId : String) (accountIds : List String)
    (tables after : WalletTables δ τ) : Prop where
  accounts : List.Forall₂ (RowAfterMove targetWalletId accountIds) tables.accounts after.accounts
  wallets : after.wallets = tables.wallets
  hdKeys : after.hdKeys = tables.hdKeys
  others : after.others = tables.others

theorem loadWalletAccountContext_eq_ok {accountId : String} {context : WalletAccountContext}
    (loaded : loadWalletAccountContext tables accountId = .ok context) :
    ∃ account ∈ tables.accounts, account.id = accountId ∧
      context.currentWalletId = account.walletId ∧ context.kind = account.kind := by
  unfold loadWalletAccountContext at loaded
  dsimp only at loaded
  split at loaded
  · cases loaded
  · rename_i account wallet found
    obtain ⟨row, isRow, isWallet⟩ := Option.bind_eq_some_iff.mp found
    obtain ⟨_, _, same⟩ := Option.map_eq_some_iff.mp isWallet
    obtain ⟨rfl, rfl⟩ := Prod.mk.inj same
    obtain ⟨accountLabel, _, loaded⟩ := bind_eq_ok.mp loaded
    obtain ⟨sourceWalletLabel, _, loaded⟩ := bind_eq_ok.mp loaded
    rw [← pure_eq_ok.mp loaded]
    exact ⟨row, List.mem_of_find?_eq_some isRow, by simpa using List.find?_some isRow, rfl, rfl⟩

theorem updateAccountWallet_eq_ok {accountId label labelKey : String}
    {kind : WalletAccountStorageKind}
    (updated : updateAccountWallet tables accountId targetWalletId label labelKey kind timestamp =
      .ok after) :
    after = { tables with accounts := tables.accounts.map fun account =>
      if account.id = accountId then
        { account with walletId := targetWalletId, label, labelKey, updatedAt := timestamp }
      else account } := by
  unfold updateAccountWallet at updated
  split at updated
  · cases updated
  · exact (Except.ok.inj updated).symm

theorem loadWalletAccountContext_update {accountId other label labelKey : String}
    {kind : WalletAccountStorageKind} (different : other ≠ accountId)
    (updated : updateAccountWallet tables accountId targetWalletId label labelKey kind timestamp =
      .ok after) :
    loadWalletAccountContext after other = loadWalletAccountContext tables other := by
  rw [updateAccountWallet_eq_ok updated]
  unfold loadWalletAccountContext
  dsimp only
  have same : (tables.accounts.map fun account =>
      if account.id = accountId then
        { account with walletId := targetWalletId, label, labelKey, updatedAt := timestamp }
      else account).find? (·.id = other) = tables.accounts.find? (·.id = other) := by
    induction tables.accounts with
    | nil => rfl
    | cons account rest ih =>
      rw [List.map_cons, List.find?_cons, List.find?_cons, ih]
      by_cases isAccount : account.id = accountId
      · rw [if_pos isAccount]
        simp [isAccount, different.symm]
      · rw [if_neg isAccount]
  rw [same]

/-- The labels of the accounts are free where the loop comes to them. -/
def FreeLabels (lower : String → String) (tables : WalletTables δ τ) :
    List String → List String → Prop
  | [], _ => True
  | accountId :: rest, existingTargetKeys => ∀ context label,
      loadWalletAccountContext tables accountId = .ok context →
      generateMoveAccountLabel lower context.accountLabel context.sourceWalletLabel
        existingTargetKeys = .ok label →
      SomeLabelFree lower context.accountLabel context.sourceWalletLabel existingTargetKeys ∧
        FreeLabels lower tables rest (existingTargetKeys ++ [label.key lower])

theorem FamilyMoved.cons {accountId label labelKey : String} {rest : List String}
    {kind : WalletAccountStorageKind} {moved : WalletTables δ τ} (distinct : accountId ∉ rest)
    (updated : updateAccountWallet tables accountId targetWalletId label labelKey kind timestamp =
      .ok moved)
    (later : FamilyMoved targetWalletId rest moved after) :
    FamilyMoved targetWalletId (accountId :: rest) tables after := by
  obtain rfl := updateAccountWallet_eq_ok updated
  refine ⟨?_, later.wallets, later.hdKeys, later.others⟩
  have rows := List.forall₂_map_left_iff.mp later.accounts
  refine rows.imp fun row movedRow rowAfter => ?_
  unfold RowAfterMove at rowAfter ⊢
  by_cases isAccount : row.id = accountId
  · rw [if_pos isAccount] at rowAfter
    rw [if_neg (by exact isAccount ▸ distinct)] at rowAfter
    rw [if_pos (by rw [isAccount]; exact List.mem_cons_self), rowAfter]
    exact ⟨rfl, rfl, rfl, rfl, rfl⟩
  · rw [if_neg isAccount] at rowAfter
    by_cases among : row.id ∈ rest
    · rw [if_pos among] at rowAfter
      rw [if_pos (List.mem_cons_of_mem _ among)]
      exact rowAfter
    · rw [if_neg among] at rowAfter
      rw [if_neg (by simp [isAccount, among])]
      exact rowAfter

theorem familyMoved_nil : FamilyMoved targetWalletId [] tables tables where
  accounts := List.forall₂_same.mpr fun row _ => by
    unfold RowAfterMove
    rw [if_neg List.not_mem_nil]
  wallets := rfl
  hdKeys := rfl
  others := rfl

theorem exists_right_of_forall₂ {α β : Type} {rel : α → β → Prop} {lefts : List α}
    {rights : List β} (related : List.Forall₂ rel lefts rights) :
    ∀ left ∈ lefts, ∃ right ∈ rights, rel left right := by
  induction related with
  | nil => exact fun _ among => absurd among List.not_mem_nil
  | cons head _ ih =>
    refine List.forall_mem_cons.mpr ⟨⟨_, List.mem_cons_self, head⟩, fun left among => ?_⟩
    obtain ⟨right, rightMem, rel⟩ := ih left among
    exact ⟨right, List.mem_cons_of_mem _ rightMem, rel⟩

theorem exists_left_of_forall₂ {α β : Type} {rel : α → β → Prop} {lefts : List α}
    {rights : List β} (related : List.Forall₂ rel lefts rights) :
    ∀ right ∈ rights, ∃ left ∈ lefts, rel left right :=
  exists_right_of_forall₂ (List.Forall₂.flip related)

theorem FamilyMoved.mem_of_notMem {accountIds : List String}
    (moved : FamilyMoved targetWalletId accountIds tables after) {row : WalletAccountRow δ}
    (rowMem : row ∈ tables.accounts) (stays : row.id ∉ accountIds) : row ∈ after.accounts := by
  obtain ⟨movedRow, among, rowAfter⟩ := exists_right_of_forall₂ moved.accounts row rowMem
  unfold RowAfterMove at rowAfter
  rw [if_neg stays] at rowAfter
  exact rowAfter ▸ among

/-- Where the loop is: none of the accounts left is in the target wallet, whose keys are known,
and their contexts are those from before the loop. -/
structure LoopInvariant (targetWalletId : String) (before tables : WalletTables δ τ)
    (accountIds existingTargetKeys : List String) : Prop where
  nodup : accountIds.Nodup
  elsewhere : ∀ account ∈ tables.accounts, account.id ∈ accountIds →
    account.walletId ≠ targetWalletId
  keys : ∀ key, key ∈ existingTargetKeys ↔
    ∃ account ∈ tables.accounts, account.walletId = targetWalletId ∧ account.labelKey = key
  contexts : ∀ accountId ∈ accountIds,
    loadWalletAccountContext tables accountId = loadWalletAccountContext before accountId

/-- The loop moves one account and takes its keys into the target. -/
theorem LoopInvariant.step {before moved : WalletTables δ τ} {accountId label labelKey : String}
    {rest existingTargetKeys : List String} {kind : WalletAccountStorageKind}
    (invariant : LoopInvariant targetWalletId before tables (accountId :: rest) existingTargetKeys)
    (exists_ : ∃ account ∈ tables.accounts, account.id = accountId)
    (updated : updateAccountWallet tables accountId targetWalletId label labelKey kind timestamp =
      .ok moved) :
    LoopInvariant targetWalletId before moved rest (existingTargetKeys ++ [labelKey]) := by
  obtain ⟨notRest, nodup⟩ := List.nodup_cons.mp invariant.nodup
  have contexts : ∀ other ∈ rest,
      loadWalletAccountContext moved other = loadWalletAccountContext before other := by
    intro other among
    have different : other ≠ accountId := fun same => notRest (same ▸ among)
    rw [loadWalletAccountContext_update different updated]
    exact invariant.contexts other (List.mem_cons_of_mem _ among)
  obtain rfl := updateAccountWallet_eq_ok updated
  refine ⟨nodup, ?_, fun key => ?_, contexts⟩
  · intro account accountMem among
    obtain ⟨row, rowMem, rfl⟩ := List.mem_map.mp accountMem
    split at among
    · rename_i isAccount
      exact absurd (isAccount ▸ among) notRest
    · rename_i notAccount
      rw [if_neg notAccount]
      exact invariant.elsewhere row rowMem (List.mem_cons_of_mem _ among)
  · rw [List.mem_append, List.mem_singleton, invariant.keys]
    refine ⟨?_, ?_⟩
    · rintro (⟨row, rowMem, isTarget, isKey⟩ | rfl)
      · have notAccount : row.id ≠ accountId := fun isAccount =>
          invariant.elsewhere row rowMem (isAccount ▸ List.mem_cons_self) isTarget
        exact ⟨row, List.mem_map.mpr ⟨row, rowMem, if_neg notAccount⟩, isTarget, isKey⟩
      · obtain ⟨row, rowMem, isAccount⟩ := exists_
        exact ⟨_, List.mem_map.mpr ⟨row, rowMem, if_pos isAccount⟩, rfl, rfl⟩
    · rintro ⟨account, accountMem, isTarget, isKey⟩
      obtain ⟨row, rowMem, rfl⟩ := List.mem_map.mp accountMem
      split at isTarget
      · rename_i isAccount
        rw [if_pos isAccount] at isKey
        exact .inr isKey.symm
      · rename_i notAccount
        rw [if_neg notAccount] at isKey
        exact .inl ⟨row, rowMem, isTarget, isKey⟩

theorem moveWalletAccountFamily_cons {accountId : String} {rest existingTargetKeys : List String}
    {before : WalletTables δ τ}
    (invariant : LoopInvariant targetWalletId before tables (accountId :: rest) existingTargetKeys)
    (done : moveWalletAccountFamily lower targetWalletId timestamp (accountId :: rest)
      existingTargetKeys tables = .ok after) :
    ∃ context label moved, loadWalletAccountContext tables accountId = .ok context ∧
      generateMoveAccountLabel lower context.accountLabel context.sourceWalletLabel
        existingTargetKeys = .ok label ∧
      updateAccountWallet tables accountId targetWalletId label.text (label.key lower)
        context.kind timestamp = .ok moved ∧
      moveWalletAccountFamily lower targetWalletId timestamp rest
        (existingTargetKeys ++ [label.key lower]) moved = .ok after := by
  unfold moveWalletAccountFamily at done
  obtain ⟨context, loaded, done⟩ := bind_eq_ok.mp done
  obtain ⟨account, accountMem, isAccount, isWallet, _⟩ := loadWalletAccountContext_eq_ok loaded
  have elsewhere := invariant.elsewhere account accountMem (isAccount ▸ List.mem_cons_self)
  rw [if_neg (by rw [isWallet]; exact elsewhere)] at done
  obtain ⟨label, generated, done⟩ := bind_eq_ok.mp done
  obtain ⟨moved, updated, done⟩ := bind_eq_ok.mp done
  exact ⟨context, label, moved, loaded, mapError_eq_ok.mp generated, updated, done⟩

theorem familyMoved_of_loop {accountIds existingTargetKeys : List String}
    {before : WalletTables δ τ}
    (invariant : LoopInvariant targetWalletId before tables accountIds existingTargetKeys)
    (done : moveWalletAccountFamily lower targetWalletId timestamp accountIds existingTargetKeys
      tables = .ok after) :
    FamilyMoved targetWalletId accountIds tables after := by
  induction accountIds generalizing existingTargetKeys tables with
  | nil => exact Except.ok.inj done ▸ familyMoved_nil
  | cons accountId rest ih =>
    obtain ⟨context, label, moved, loaded, _, updated, done⟩ :=
      moveWalletAccountFamily_cons invariant done
    obtain ⟨account, accountMem, isAccount, _⟩ := loadWalletAccountContext_eq_ok loaded
    have stepped := invariant.step ⟨account, accountMem, isAccount⟩ updated
    exact (ih stepped done).cons (List.nodup_cons.mp invariant.nodup).1 updated

theorem labelsDistinct_update {accountId label labelKey : String}
    {kind : WalletAccountStorageKind} {moved : WalletTables δ τ} (labels : LabelsDistinct tables)
    (free : ¬ ∃ account ∈ tables.accounts,
      account.walletId = targetWalletId ∧ account.labelKey = labelKey)
    (updated : updateAccountWallet tables accountId targetWalletId label labelKey kind timestamp =
      .ok moved) : LabelsDistinct moved := by
  obtain rfl := updateAccountWallet_eq_ok updated
  intro left leftMem right rightMem sameWallet sameKey
  obtain ⟨leftRow, leftRowMem, rfl⟩ := List.mem_map.mp leftMem
  obtain ⟨rightRow, rightRowMem, rfl⟩ := List.mem_map.mp rightMem
  by_cases isLeft : leftRow.id = accountId <;> by_cases isRight : rightRow.id = accountId
  · simp only [if_pos isLeft, if_pos isRight]
    exact isLeft.trans isRight.symm
  · simp only [if_pos isLeft, if_neg isRight] at sameWallet sameKey
    exact absurd ⟨rightRow, rightRowMem, sameWallet.symm, sameKey.symm⟩ free
  · simp only [if_neg isLeft, if_pos isRight] at sameWallet sameKey
    exact absurd ⟨leftRow, leftRowMem, sameWallet, sameKey⟩ free
  · simp only [if_neg isLeft, if_neg isRight] at sameWallet sameKey ⊢
    exact labels leftRow leftRowMem rightRow rightRowMem sameWallet sameKey

theorem not_labelsDistinct_of_taken {accountId label labelKey : String} {rest : List String}
    {kind : WalletAccountStorageKind} {moved : WalletTables δ τ}
    (exists_ : ∃ account ∈ tables.accounts, account.id = accountId)
    (elsewhere : ∀ account ∈ tables.accounts, account.id ∈ accountId :: rest →
      account.walletId ≠ targetWalletId)
    (notRest : accountId ∉ rest)
    (taken : ∃ account ∈ tables.accounts,
      account.walletId = targetWalletId ∧ account.labelKey = labelKey)
    (updated : updateAccountWallet tables accountId targetWalletId label labelKey kind timestamp =
      .ok moved)
    (later : FamilyMoved targetWalletId rest moved after) : ¬ LabelsDistinct after := by
  obtain ⟨other, otherMem, isTarget, isKey⟩ := taken
  obtain ⟨row, rowMem, isAccount⟩ := exists_
  have otherStays : other.id ∉ accountId :: rest := fun among =>
    elsewhere other otherMem among isTarget
  obtain rfl := updateAccountWallet_eq_ok updated
  have otherAfter : other ∈ after.accounts := by
    refine later.mem_of_notMem (List.mem_map.mpr ⟨other, otherMem, if_neg fun same => ?_⟩)
      fun among => otherStays (List.mem_cons_of_mem _ among)
    exact otherStays (same ▸ List.mem_cons_self)
  have rowAfter : { row with walletId := targetWalletId, label, labelKey, updatedAt := timestamp } ∈
      after.accounts := by
    refine later.mem_of_notMem (List.mem_map.mpr ⟨row, rowMem, if_pos isAccount⟩) ?_
    exact fun among => notRest (isAccount ▸ among)
  intro labels
  have same := labels other otherAfter _ rowAfter isTarget isKey
  exact otherStays (same.trans isAccount ▸ List.mem_cons_self)

theorem labelsDistinct_iff_freeLabels {accountIds existingTargetKeys : List String}
    {before : WalletTables δ τ}
    (invariant : LoopInvariant targetWalletId before tables accountIds existingTargetKeys)
    (labels : LabelsDistinct tables)
    (done : moveWalletAccountFamily lower targetWalletId timestamp accountIds existingTargetKeys
      tables = .ok after) :
    LabelsDistinct after ↔ FreeLabels lower before accountIds existingTargetKeys := by
  induction accountIds generalizing existingTargetKeys tables with
  | nil => exact iff_of_true (Except.ok.inj done ▸ labels) trivial
  | cons accountId rest ih =>
    obtain ⟨context, label, moved, loaded, generated, updated, done⟩ :=
      moveWalletAccountFamily_cons invariant done
    obtain ⟨account, accountMem, isAccount, _⟩ := loadWalletAccountContext_eq_ok loaded
    have stepped := invariant.step ⟨account, accountMem, isAccount⟩ updated
    have isBefore := loaded
    rw [invariant.contexts accountId List.mem_cons_self] at isBefore
    have step : FreeLabels lower before (accountId :: rest) existingTargetKeys ↔
        SomeLabelFree lower context.accountLabel context.sourceWalletLabel existingTargetKeys ∧
          FreeLabels lower before rest (existingTargetKeys ++ [label.key lower]) := by
      refine ⟨fun free => free context label isBefore generated, fun free => ?_⟩
      intro other otherLabel otherLoaded otherGenerated
      obtain rfl := Except.ok.inj (isBefore.symm.trans otherLoaded)
      obtain rfl := Except.ok.inj (generated.symm.trans otherGenerated)
      exact free
    rw [step, ← key_generateMoveAccountLabel_notMem generated, invariant.keys]
    by_cases taken : ∃ account ∈ tables.accounts,
        account.walletId = targetWalletId ∧ account.labelKey = label.key lower
    · refine iff_of_false ?_ fun free => free.1 taken
      exact not_labelsDistinct_of_taken ⟨account, accountMem, isAccount⟩ invariant.elsewhere
        (List.nodup_cons.mp invariant.nodup).1 taken updated (familyMoved_of_loop stepped done)
    · rw [ih stepped (labelsDistinct_update labels taken updated) done]
      exact (and_iff_right taken).symm

end Loop

/-! ## Moves of families -/

section Families

variable {δ τ : Type} {lower : String → String} {tables after : WalletTables δ τ}
  {accountId timestamp : String}

/-- The account and those connected to it are in the target wallet, everything else is as it was,
and accounts of shared keys and labels are as they must be. -/
structure MovesFamily (tables after : WalletTables δ τ) (accountId targetWalletId : String) :
    Prop where
  together : KeysTogether after
  accounts : List.Forall₂ (fun row moved =>
    (Connected tables accountId row.id → MovedTo targetWalletId row moved) ∧
      (¬ Connected tables accountId row.id → moved = row)) tables.accounts after.accounts
  labels : LabelsDistinct after
  wallets : tables.wallets <+: after.wallets
  hdKeys : after.hdKeys = tables.hdKeys
  others : after.others = tables.others

theorem mem_family_of_sharesKey (valid : tables.Valid) (closed : FamilyClosed tables accountId)
    {left right : String} (among : left ∈ loadWalletAccountMoveFamily tables accountId)
    (shares : sharesKey tables.hdKeys left right = true) :
    right ∈ loadWalletAccountMoveFamily tables accountId := by
  rw [mem_loadWalletAccountMoveFamily valid] at among ⊢
  rcases among with rfl | first
  · exact .inr shares
  · exact .inr (closed left right first shares)

theorem movesFamily_iff_of_familyMoved {targetWalletId : String} {wallets : List WalletRow}
    (valid : tables.Valid) (together : KeysTogether tables)
    (elsewhere : ∀ account ∈ tables.accounts,
      account.id ∈ loadWalletAccountMoveFamily tables accountId →
        account.walletId ≠ targetWalletId)
    (kept : tables.wallets <+: wallets)
    (moved : FamilyMoved targetWalletId (loadWalletAccountMoveFamily tables accountId)
      { tables with wallets } after) :
    MovesFamily tables after accountId targetWalletId ↔
      FamilyClosed tables accountId ∧ LabelsDistinct after := by
  have family : ∀ {id}, id ∈ loadWalletAccountMoveFamily tables accountId ↔
      id = accountId ∨ sharesKey tables.hdKeys accountId id = true :=
    mem_loadWalletAccountMoveFamily valid
  refine ⟨fun moves => ⟨?_, moves.labels⟩, fun ⟨closed, labels⟩ => ?_⟩
  · intro left right first second
    obtain ⟨leftRow, leftMem, rfl, _⟩ := valid.exists_native first
    obtain ⟨rightRow, rightMem, rfl, _⟩ := valid.exists_native second
    have inFamily : rightRow.id ∈ loadWalletAccountMoveFamily tables accountId := by
      by_contra notFamily
      obtain ⟨rightMoved, movedMem, isMoved, _⟩ :=
        exists_right_of_forall₂ moves.accounts rightRow rightMem
      have movedTo := isMoved (.tail (.single first) second)
      obtain ⟨row, rowMem, rowAfter⟩ := exists_left_of_forall₂ moved.accounts rightMoved movedMem
      obtain rfl := valid.eq_of_id rowMem rightMem (rowAfter.id_eq.symm.trans movedTo.id)
      unfold RowAfterMove at rowAfter
      rw [if_neg notFamily] at rowAfter
      have leftElsewhere := elsewhere leftRow leftMem (family.mpr (.inr first))
      rw [together leftRow leftMem row rightMem second, ← rowAfter] at leftElsewhere
      exact leftElsewhere movedTo.walletId
    rcases family.mp inFamily with isAccount | shares
    · rw [isAccount]
      exact sharesKey_self first
    · exact shares
  · refine ⟨?_, ?_, labels, moved.wallets.symm ▸ kept, moved.hdKeys, moved.others⟩
    · intro left leftMem right rightMem shares
      rw [moved.hdKeys] at shares
      obtain ⟨leftRow, leftRowMem, leftAfter⟩ := exists_left_of_forall₂ moved.accounts left leftMem
      obtain ⟨rightRow, rightRowMem, rightAfter⟩ :=
        exists_left_of_forall₂ moved.accounts right rightMem
      rw [leftAfter.id_eq, rightAfter.id_eq] at shares
      have both : leftRow.id ∈ loadWalletAccountMoveFamily tables accountId ↔
          rightRow.id ∈ loadWalletAccountMoveFamily tables accountId :=
        ⟨fun among => mem_family_of_sharesKey valid closed among shares,
          fun among => mem_family_of_sharesKey valid closed among (sharesKey_symm shares)⟩
      unfold RowAfterMove at leftAfter rightAfter
      by_cases among : leftRow.id ∈ loadWalletAccountMoveFamily tables accountId
      · rw [if_pos among] at leftAfter
        rw [if_pos (both.mp among)] at rightAfter
        exact leftAfter.walletId.trans rightAfter.walletId.symm
      · rw [if_neg among] at leftAfter
        rw [if_neg (among ∘ both.mpr)] at rightAfter
        rw [leftAfter, rightAfter]
        exact together leftRow leftRowMem rightRow rightRowMem shares
    · refine moved.accounts.imp fun row movedRow rowAfter => ?_
      unfold RowAfterMove at rowAfter
      rw [connected_iff closed, ← family]
      split at rowAfter
      · rename_i among
        exact ⟨fun _ => rowAfter, fun notAmong => absurd among notAmong⟩
      · rename_i notAmong
        exact ⟨fun among => absurd among notAmong, fun _ => rowAfter⟩

theorem loopInvariant_start {targetWalletId : String} {wallets : List WalletRow}
    (valid : tables.Valid) (kept : tables.wallets <+: wallets)
    (elsewhere : ∀ account ∈ tables.accounts,
      account.id ∈ loadWalletAccountMoveFamily tables accountId →
        account.walletId ≠ targetWalletId) :
    LoopInvariant targetWalletId tables { tables with wallets }
      (loadWalletAccountMoveFamily tables accountId)
      (walletAccountLabelKeys tables targetWalletId) where
  nodup := nodup_loadWalletAccountMoveFamily valid
  elsewhere := elsewhere
  keys key := by
    unfold walletAccountLabelKeys
    simp [List.mem_map, List.mem_filter, and_assoc]
  contexts id _ := by
    obtain ⟨added, rfl⟩ := kept
    unfold loadWalletAccountContext
    dsimp only
    have same : ((tables.accounts.find? (·.id = id)).bind fun account =>
        ((tables.wallets ++ added).find? (·.id = account.walletId)).map (account, ·)) =
        (tables.accounts.find? (·.id = id)).bind fun account =>
          (tables.wallets.find? (·.id = account.walletId)).map (account, ·) := by
      cases found : tables.accounts.find? (·.id = id) with
      | none => rfl
      | some account =>
        obtain ⟨wallet, walletMem, isWallet⟩ :=
          valid.wallets account (List.mem_of_find?_eq_some found)
        have isSome : (tables.wallets.find? (·.id = account.walletId)).isSome = true :=
          List.find?_isSome.mpr ⟨wallet, walletMem, by simpa using isWallet⟩
        obtain ⟨first, isFirst⟩ := Option.isSome_iff_exists.mp isSome
        rw [Option.bind_some, Option.bind_some, List.find?_append, isFirst, Option.some_or]
    rw [same]

theorem movesFamily_iff_of_loop {targetWalletId : String} {wallets : List WalletRow}
    (valid : tables.Valid) (together : KeysTogether tables) (kept : tables.wallets <+: wallets)
    (elsewhere : ∀ account ∈ tables.accounts,
      account.id ∈ loadWalletAccountMoveFamily tables accountId →
        account.walletId ≠ targetWalletId)
    (done : moveFamilyToWallet lower { tables with wallets }
      (loadWalletAccountMoveFamily tables accountId) targetWalletId timestamp = .ok after) :
    MovesFamily tables after accountId targetWalletId ↔
      FamilyClosed tables accountId ∧
        FreeLabels lower tables (loadWalletAccountMoveFamily tables accountId)
          (walletAccountLabelKeys tables targetWalletId) := by
  have start := loopInvariant_start valid kept elsewhere
  rw [movesFamily_iff_of_familyMoved valid together elsewhere kept
    (familyMoved_of_loop start done), labelsDistinct_iff_freeLabels start valid.labels done]

theorem walletId_of_mem_family (valid : tables.Valid) (together : KeysTogether tables)
    {own other : WalletAccountRow δ} (ownMem : own ∈ tables.accounts)
    (otherMem : other ∈ tables.accounts) (isOwn : own.id = accountId)
    (among : other.id ∈ loadWalletAccountMoveFamily tables accountId) :
    other.walletId = own.walletId := by
  rcases (mem_loadWalletAccountMoveFamily valid).mp among with isAccount | shares
  · rw [valid.eq_of_id otherMem ownMem (isAccount.trans isOwn.symm)]
  · exact (together own ownMem other otherMem (isOwn ▸ shares)).symm

theorem movesFamily_iff_of_move {target : MoveTarget} (valid : tables.Valid)
    (together : KeysTogether tables)
    (moved : target.move lower tables accountId timestamp = .ok after) :
    MovesFamily tables after accountId target.walletId ↔
      FamilyClosed tables accountId ∧
        FreeLabels lower tables (loadWalletAccountMoveFamily tables accountId)
          (walletAccountLabelKeys tables target.walletId) := by
  cases target with
  | wallet targetWalletId =>
    unfold MoveTarget.move moveAccountToWallet at moved
    obtain ⟨context, loaded, moved⟩ := bind_eq_ok.mp moved
    obtain ⟨_, _, moved⟩ := bind_eq_ok.mp moved
    obtain ⟨own, ownMem, isOwn, isWallet, _⟩ := loadWalletAccountContext_eq_ok loaded
    split at moved
    · cases moved
    rename_i different
    refine movesFamily_iff_of_loop valid together (List.prefix_refl tables.wallets) ?_ moved
    intro other otherMem among
    rw [walletId_of_mem_family valid together ownMem otherMem isOwn among, ← isWallet]
    exact different
  | newWallet label createdWalletId =>
    unfold MoveTarget.move createWalletAndMoveAccount at moved
    obtain ⟨inserted, isInserted, moved⟩ := bind_eq_ok.mp moved
    unfold insertWallet at isInserted
    split at isInserted
    · cases isInserted
    rename_i fresh
    split at isInserted
    · cases isInserted
    obtain rfl := Except.ok.inj isInserted
    refine movesFamily_iff_of_loop valid together (List.prefix_append _ _) ?_ moved
    intro other otherMem _ isCreated
    obtain ⟨wallet, walletMem, isWallet⟩ := valid.wallets other otherMem
    exact fresh (List.any_eq_true.mpr
      ⟨wallet, walletMem, decide_eq_true (isWallet.trans isCreated)⟩)

/-- A call that fails changes nothing. A call that succeeds moves the family, with accounts of
shared keys in one wallet and distinct labels, exactly where the family is closed and its labels
are free. -/
theorem movesFamily_iff (lower : String → String) (target : MoveTarget)
    (tables : WalletTables δ τ) (accountId timestamp : String) (valid : tables.Valid)
    (together : KeysTogether tables) :
    (∀ error, (target.call lower accountId timestamp tables).1 = .error error →
      (target.call lower accountId timestamp tables).2 = tables) ∧
    ((target.call lower accountId timestamp tables).1 = .ok () →
      (MovesFamily tables (target.call lower accountId timestamp tables).2 accountId
          target.walletId ↔
        FamilyClosed tables accountId ∧
          FreeLabels lower tables (loadWalletAccountMoveFamily tables accountId)
            (walletAccountLabelKeys tables target.walletId))) := by
  unfold MoveTarget.call
  cases moved : target.move lower tables accountId timestamp with
  | error error => exact ⟨fun _ _ => rfl, nofun⟩
  | ok after => exact ⟨nofun, fun _ => movesFamily_iff_of_move valid together moved⟩

end Families

/-! ## A family of three -/

def familyWallet (id label labelKey : String) : WalletRow :=
  ⟨id, label, labelKey, "2026-01-01T00:00:00+00:00", "2026-01-01T00:00:00+00:00"⟩

def familyAccount (id label labelKey : String) : WalletAccountRow Unit :=
  ⟨id, .native, "wallet-1", label, labelKey, "2026-01-01T00:00:00+00:00",
    "2026-01-01T00:00:00+00:00", ()⟩

/-- The first account shares a key with the second one, and another one with the third. -/
def familyOfThree : WalletTables Unit Unit where
  wallets := [familyWallet "wallet-1" "Main" "main", familyWallet "wallet-2" "Cold" "cold"]
  accounts := [familyAccount "account-1" "Both" "both", familyAccount "account-2" "Left" "left",
    familyAccount "account-3" "Right" "right"]
  hdKeys := [⟨"key-1", "account-1", "xpub-1", "native_segwit"⟩,
    ⟨"key-2", "account-1", "xpub-2", "native_segwit"⟩,
    ⟨"key-3", "account-2", "xpub-2", "nested_segwit"⟩,
    ⟨"key-4", "account-3", "xpub-1", "nested_segwit"⟩]
  others := ()

theorem valid_familyOfThree : familyOfThree.Valid where
  ids := by decide
  wallets := by decide
  keys := by decide
  labels := by unfold LabelsDistinct; decide

theorem keysTogether_familyOfThree : KeysTogether familyOfThree := by
  unfold KeysTogether
  decide

/-- The account with both keys, moved to the other wallet. -/
theorem movesFamily_iff_familyOfThree :
    ((MoveTarget.wallet "wallet-2").call Text.toAsciiLowercase "account-1" "now"
        familyOfThree).1 = .ok () ∧
      (MovesFamily familyOfThree ((MoveTarget.wallet "wallet-2").call Text.toAsciiLowercase
          "account-1" "now" familyOfThree).2 "account-1" "wallet-2" ↔
        FamilyClosed familyOfThree "account-1" ∧
          FreeLabels Text.toAsciiLowercase familyOfThree
            (loadWalletAccountMoveFamily familyOfThree "account-1")
            (walletAccountLabelKeys familyOfThree "wallet-2")) := by
  have done : ((MoveTarget.wallet "wallet-2").call Text.toAsciiLowercase "account-1" "now"
      familyOfThree).1 = .ok () := by
    decide +kernel
  exact ⟨done, (movesFamily_iff Text.toAsciiLowercase (.wallet "wallet-2") familyOfThree
    "account-1" "now" valid_familyOfThree keysTogether_familyOfThree).2 done⟩

/-- The third account, moved to the other wallet, takes the first one along and leaves the second
one, which shares a key with the first. -/
theorem not_keysTogether_familyOfThree :
    familyOfThree.Valid ∧ KeysTogether familyOfThree ∧
      ((MoveTarget.wallet "wallet-2").call Text.toAsciiLowercase "account-3" "now"
        familyOfThree).1 = .ok () ∧
      ¬ KeysTogether ((MoveTarget.wallet "wallet-2").call Text.toAsciiLowercase "account-3" "now"
        familyOfThree).2 := by
  refine ⟨valid_familyOfThree, keysTogether_familyOfThree, by decide +kernel, ?_⟩
  unfold KeysTogether
  decide +kernel

end Bitgarth.Accounts
