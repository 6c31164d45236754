import Bitgarth.Accounts.EthAddress
import Bitgarth.Foundation.Fallible
import Bitgarth.Store.Tables

/-! # Tracked addresses

Single addresses, imports and the derivation of HD addresses write rows of one table, whose
normalized key is unique for an asset and network. All but derivation key a Bitcoin address by its
text; derivation puts the text in lower case, which for a Base58 text is another text.
`oneRowPerAddress_iff` says exactly which histories leave one row for each address.
-/

namespace Bitgarth.Accounts

open Amounts Fallible Store Text

open Sync (AddressScheme SyncedAssetId)

/-- What the Bitcoin library reads, writes and derives. What it writes it reads back, and
witness addresses are written in lower case. -/
structure BitcoinLibrary (Key Address : Type) where
  parse : Network → String → Option Address
  text : Network → Address → String
  scheme : Address → Option AddressScheme
  childKey : String → ℕ → ℕ → Except DbError Key
  p2pkh : Network → Key → Address
  p2shwpkh : Network → Key → Address
  p2wpkh : Network → Key → Address
  parse_text : ∀ network address, parse network (text network address) = some address
  lower_text : ∀ network key,
    toAsciiLowercase (text network (p2wpkh network key)) = text network (p2wpkh network key)

inductive AddressSourceType where
  | derived
  | userProvided
  | imported
deriving DecidableEq, Repr

/-- A row of `digital_asset_addresses`. -/
structure TrackedAddressRow extends AddressRow where
  addressScheme : AddressScheme
  derivationChange : Option ℕ
  derivationIndex : Option ℕ
  sourceType : AddressSourceType
deriving DecidableEq, Repr

/-- What `idx_addresses_unique` keeps distinct. -/
def TrackedAddressRow.key (row : TrackedAddressRow) : SyncedAssetId × Network × String :=
  (row.assetId, row.network, row.addressNormalized)

/-- An address of either asset, apart from how it is written. -/
inductive PhysicalAddress (Address : Type) where
  | bitcoin (address : Address)
  | ethereum (address : EthAddress)
deriving DecidableEq

/-- An insert that `idx_addresses_unique` accepts. -/
def insertAddress (failure : String) (row : TrackedAddressRow) (rows : List TrackedAddressRow) :
    Except DbError (List TrackedAddressRow) :=
  if row.key ∈ rows.map TrackedAddressRow.key then .error ⟨failure⟩ else .ok (rows ++ [row])

/-- An address in an import file, with the id its row gets. -/
structure ImportedAddress where
  id : String
  address : String
  addressScheme : AddressScheme
deriving DecidableEq, Repr

structure ImportedAccountAddresses where
  accountId : String
  assetId : SyncedAssetId
  network : Network
  addresses : List ImportedAddress
deriving DecidableEq, Repr

/-- A chain of an HD account and the ids of the rows to derive, one for each. -/
structure DerivationRequest where
  accountId : String
  assetId : SyncedAssetId
  network : Network
  addressScheme : AddressScheme
  extendedPubkey : String
  derivationChange : ℕ
  ids : List String
deriving DecidableEq, Repr

inductive AddressWrite where
  | addBitcoinAddress (id accountId : String) (network : Network) (raw : String)
  | addEthereumAddress (id accountId : String) (network : Network) (raw : String)
  | importAccounts (accounts : List ImportedAccountAddresses)
  | bootstrap (external internal : DerivationRequest)
  | deriveNext (request : DerivationRequest)
deriving DecidableEq, Repr

section Writers

variable {Key Address : Type} (library : BitcoinLibrary Key Address)
  (hashNibble : List Char → ℕ → ℕ)

/-- `BtcAddress::parse`, with the scheme. -/
def parseBtcAddress (network : Network) (raw : String) : Option (Address × AddressScheme) := do
  let address ← if isBlank raw then none else library.parse network (trim raw)
  let scheme ← library.scheme address
  some (address, scheme)

def bitcoinRow (id accountId : String) (network : Network) (address : Address)
    (scheme : AddressScheme) (sourceType : AddressSourceType) : TrackedAddressRow where
  id := id
  accountId := some accountId
  assetId := .bitcoin
  network := network
  address := library.text network address
  addressNormalized := library.text network address
  addressScheme := scheme
  derivationChange := none
  derivationIndex := none
  sourceType := sourceType

def ethereumRow (id accountId : String) (network : Network) (address : EthAddress)
    (sourceType : AddressSourceType) : TrackedAddressRow where
  id := id
  accountId := some accountId
  assetId := .ethereum
  network := network
  address := address.checksummed hashNibble
  addressNormalized := address.normalized
  addressScheme := .standard
  derivationChange := none
  derivationIndex := none
  sourceType := sourceType

/-- The row of an address in a file. -/
def parseImportedAddress (account : ImportedAccountAddresses) (imported : ImportedAddress) :
    Except DbError TrackedAddressRow :=
  match account.assetId with
  | .bitcoin =>
    match parseBtcAddress library account.network imported.address with
    | none => .error ⟨"Invalid Bitcoin address"⟩
    | some (address, scheme) =>
      if scheme ≠ imported.addressScheme then
        .error ⟨"Bitcoin address has another scheme than declared"⟩
      else
        .ok (bitcoinRow library imported.id account.accountId account.network address scheme
          .imported)
  | .ethereum =>
    match EthAddress.parse hashNibble imported.address with
    | .error _ => .error ⟨"Invalid Ethereum address"⟩
    | .ok address =>
      if imported.addressScheme ≠ .standard then
        .error ⟨"Ethereum address must use address_scheme=standard"⟩
      else
        .ok (ethereumRow hashNibble imported.id account.accountId account.network address
          .imported)

/-- An imported address whose key is tracked already is skipped. -/
def mergeAddress (rows : List TrackedAddressRow) (row : TrackedAddressRow) :
    Except DbError (List TrackedAddressRow) :=
  if row.key ∈ rows.map TrackedAddressRow.key then
    .ok rows
  else
    insertAddress "Failed to insert address during import" row rows

/-- `derive_address_from_extended_pubkey`. -/
def deriveAddress (request : DerivationRequest) (derivationIndex : ℕ) :
    Except DbError Address := do
  if request.assetId ≠ .bitcoin then
    .error ⟨"Address derivation only supports bitcoin accounts"⟩
  else
    let key ← library.childKey request.extendedPubkey request.derivationChange derivationIndex
    match request.addressScheme with
    | .legacy => .ok (library.p2pkh request.network key)
    | .nestedSegwit => .ok (library.p2shwpkh request.network key)
    | .nativeSegwit => .ok (library.p2wpkh request.network key)
    | .taproot => .error ⟨"Address derivation for taproot accounts is not supported"⟩
    | .standard =>
      .error ⟨"Address derivation is not applicable to standard (account-based) address scheme"⟩

def derivedRow (request : DerivationRequest) (id : String) (derivationIndex : ℕ)
    (address : Address) : TrackedAddressRow where
  id := id
  accountId := some request.accountId
  assetId := request.assetId
  network := request.network
  address := library.text request.network address
  addressNormalized := toAsciiLowercase (library.text request.network address)
  addressScheme := request.addressScheme
  derivationChange := some request.derivationChange
  derivationIndex := some derivationIndex
  sourceType := .derived

/-- `generate_derived_addresses_for_hd_key`, one index after the other. -/
def generateDerivedAddresses (request : DerivationRequest) :
    ℕ → List String → List TrackedAddressRow → Except DbError (List TrackedAddressRow)
  | _, [], rows => .ok rows
  | derivationIndex, id :: ids, rows =>
    if 2 ^ 32 ≤ derivationIndex then
      .error ⟨"Derivation index overflow"⟩
    else do
      let address ← deriveAddress library request derivationIndex
      let inserted ← insertAddress "Failed to insert derived address"
        (derivedRow library request id derivationIndex address) rows
      generateDerivedAddresses request (derivationIndex + 1) ids inserted

/-- The derived indices of a chain of an account. -/
def derivedIndices (accountId : String) (derivationChange : ℕ) (rows : List TrackedAddressRow) :
    List ℕ :=
  rows.filterMap fun row =>
    if row.accountId = some accountId ∧ row.sourceType = .derived ∧
        row.derivationChange = some derivationChange then
      row.derivationIndex
    else
      none

def nextDerivationIndex (accountId : String) (derivationChange : ℕ)
    (rows : List TrackedAddressRow) : Except DbError ℕ :=
  match (derivedIndices accountId derivationChange rows).max? with
  | none => .ok 0
  | some greatest =>
    if 2 ^ 32 ≤ greatest then
      .error ⟨"Derivation index out of u32 range"⟩
    else if 2 ^ 32 ≤ greatest + 1 then
      .error ⟨"Derivation index overflow"⟩
    else
      .ok (greatest + 1)

/-- `derive_next_derived_addresses_for_account`, in a transaction. -/
def deriveNextDerivedAddresses (request : DerivationRequest) (rows : List TrackedAddressRow) :
    Except DbError (List TrackedAddressRow) :=
  if request.ids = [] then
    .ok rows
  else do
    let startIndex ← nextDerivationIndex request.accountId request.derivationChange rows
    generateDerivedAddresses library request startIndex request.ids rows

/-- A write that commits; one that fails is rolled back. -/
def AddressWrite.run (rows : List TrackedAddressRow) :
    AddressWrite → Except DbError (List TrackedAddressRow)
  | addBitcoinAddress id accountId network raw =>
    match parseBtcAddress library network raw with
    | none => .error ⟨"Invalid Bitcoin address"⟩
    | some (address, scheme) =>
      insertAddress "Failed to insert bitcoin address"
        (bitcoinRow library id accountId network address scheme .userProvided) rows
  | addEthereumAddress id accountId network raw =>
    match EthAddress.parse hashNibble raw with
    | .error _ => .error ⟨"Invalid Ethereum address"⟩
    | .ok address =>
      insertAddress "Failed to insert ethereum address"
        (ethereumRow hashNibble id accountId network address .userProvided) rows
  | importAccounts accounts => do
      let parsed ← accounts.mapM fun account =>
        account.addresses.mapM (parseImportedAddress library hashNibble account)
      parsed.flatten.foldlM mergeAddress rows
  | bootstrap external internal => do
      let rows ← generateDerivedAddresses library external 0 external.ids rows
      generateDerivedAddresses library internal 0 internal.ids rows
  | deriveNext request => deriveNextDerivedAddresses library request rows

end Writers

/-! ## One row for each address -/

section OneRow

variable {Key Address : Type} (library : BitcoinLibrary Key Address)
  (hashNibble : List Char → ℕ → ℕ)

/-- The address that a row holds. -/
def TrackedAddressRow.physical (row : TrackedAddressRow) : Option (PhysicalAddress Address) :=
  match row.assetId with
  | .bitcoin => (library.parse row.network row.address).map .bitcoin
  | .ethereum => (EthAddress.parse hashNibble row.address).toOption.map .ethereum

/-- The function by which addresses are keyed. -/
def PhysicalAddress.key (network : Network) : PhysicalAddress Address → String
  | bitcoin address => library.text network address
  | ethereum address => address.normalized

/-- Every row is keyed by one injective function of its address, and no two rows of one asset
and network hold the same address. -/
structure OneRowPerAddress (rows : List TrackedAddressRow) : Prop where
  keyed : ∀ row ∈ rows, ∃ address, row.physical library hashNibble = some address ∧
    row.addressNormalized = address.key library row.network
  injective : ∀ left ∈ rows, ∀ right ∈ rows, left.key = right.key →
    left.physical library hashNibble = right.physical library hashNibble
  single : rows.Pairwise fun left right =>
    left.assetId = right.assetId → left.network = right.network →
      left.physical library hashNibble ≠ right.physical library hashNibble

/-- Every address derived at `count` indices from `start` on has a text without capitals. -/
def DerivesLowerCase (request : DerivationRequest) (start count : ℕ) : Prop :=
  ∀ offset < count, ∀ address, deriveAddress library request (start + offset) = .ok address →
    toAsciiLowercase (library.text request.network address) = library.text request.network address

/-- The addresses that a write derives have texts without capitals. -/
def AddressWrite.KeepsCase (rows : List TrackedAddressRow) : AddressWrite → Prop
  | bootstrap external internal => DerivesLowerCase library external 0 external.ids.length ∧
      DerivesLowerCase library internal 0 internal.ids.length
  | deriveNext request => ∀ start,
      nextDerivationIndex request.accountId request.derivationChange rows = .ok start →
        DerivesLowerCase library request start request.ids.length
  | _ => True

/-- `KeepsCase` for each write of a history, at the rows it meets. -/
def KeepsCase : List TrackedAddressRow → List AddressWrite → Prop
  | _, [] => True
  | rows, write :: writes => write.KeepsCase library rows ∧
      ∀ next, write.run library hashNibble rows = .ok next → KeepsCase next writes

end OneRow

section Histories

variable {Key Address : Type} {library : BitcoinLibrary Key Address}
  {hashNibble : List Char → ℕ → ℕ} {rows next : List TrackedAddressRow}

/-- A row keyed by the canonical text of its address. -/
def Keyed (library : BitcoinLibrary Key Address) (hashNibble : List Char → ℕ → ℕ)
    (row : TrackedAddressRow) : Prop :=
  ∃ address, row.physical library hashNibble = some address ∧
    row.addressNormalized = address.key library row.network

theorem physical_bitcoin {row : TrackedAddressRow} {address : Address}
    (asset : row.assetId = .bitcoin) (text : row.address = library.text row.network address) :
    row.physical library hashNibble = some (.bitcoin address) := by
  unfold TrackedAddressRow.physical
  rw [asset, text]
  simp only [library.parse_text, Option.map_some]

theorem keyed_ethereumRow {id accountId : String} {network : Network} {address : EthAddress}
    {sourceType : AddressSourceType} :
    Keyed library hashNibble
      (ethereumRow hashNibble id accountId network address sourceType) := by
  refine ⟨.ethereum address, ?_, rfl⟩
  unfold TrackedAddressRow.physical ethereumRow
  simp only [EthAddress.parse_checksummed, Except.toOption, Option.map_some]

theorem keyed_bitcoinRow {id accountId : String} {network : Network} {address : Address}
    {scheme : AddressScheme} {sourceType : AddressSourceType} :
    Keyed library hashNibble
      (bitcoinRow library id accountId network address scheme sourceType) :=
  ⟨.bitcoin address, physical_bitcoin rfl rfl, rfl⟩

theorem keyed_derivedRow {request : DerivationRequest} {id : String} {index : ℕ}
    {address : Address} (bitcoin : request.assetId = .bitcoin) :
    Keyed library hashNibble (derivedRow library request id index address) ↔
      toAsciiLowercase (library.text request.network address) =
        library.text request.network address := by
  have held : (derivedRow library request id index address).physical library hashNibble =
      some (.bitcoin address) := physical_bitcoin bitcoin rfl
  constructor
  · rintro ⟨other, same, keyed⟩
    obtain rfl := Option.some.inj (held.symm.trans same)
    exact keyed
  · intro lower
    exact ⟨_, held, lower⟩

theorem Keyed.normalized_eq_iff {left right : TrackedAddressRow}
    (leftKeyed : Keyed library hashNibble left) (rightKeyed : Keyed library hashNibble right)
    (asset : left.assetId = right.assetId) (network : left.network = right.network) :
    left.addressNormalized = right.addressNormalized ↔
      left.physical library hashNibble = right.physical library hashNibble := by
  obtain ⟨leftAddress, leftHeld, leftKey⟩ := leftKeyed
  obtain ⟨rightAddress, rightHeld, rightKey⟩ := rightKeyed
  rw [leftHeld, rightHeld, leftKey, rightKey, network, Option.some.injEq]
  refine ⟨?_, fun same => congrArg _ same⟩
  intro same
  unfold TrackedAddressRow.physical at leftHeld rightHeld
  rw [asset] at leftHeld
  cases held : right.assetId with
  | bitcoin =>
    rw [held] at leftHeld rightHeld
    obtain ⟨leftBitcoin, -, rfl⟩ := Option.map_eq_some_iff.mp leftHeld
    obtain ⟨rightBitcoin, -, rfl⟩ := Option.map_eq_some_iff.mp rightHeld
    have read := congrArg (library.parse right.network) same
    simp only [PhysicalAddress.key, library.parse_text] at read
    exact congrArg PhysicalAddress.bitcoin (Option.some.inj read)
  | ethereum =>
    rw [held] at leftHeld rightHeld
    obtain ⟨leftEthereum, -, rfl⟩ := Option.map_eq_some_iff.mp leftHeld
    obtain ⟨rightEthereum, -, rfl⟩ := Option.map_eq_some_iff.mp rightHeld
    exact congrArg PhysicalAddress.ethereum (EthAddress.normalized_injective same)

theorem oneRowPerAddress_iff_keyed (unique : (rows.map TrackedAddressRow.key).Nodup) :
    OneRowPerAddress library hashNibble rows ↔
      ∀ row ∈ rows, Keyed library hashNibble row := by
  refine ⟨fun oneRow => oneRow.keyed, ?_⟩
  intro keyed
  refine ⟨keyed, ?_, ?_⟩
  · intro left leftIn right rightIn same
    obtain ⟨asset, network, normalized⟩ := by
      simpa only [TrackedAddressRow.key, Prod.mk.injEq] using same
    exact ((keyed left leftIn).normalized_eq_iff (keyed right rightIn) asset network).mp normalized
  · refine (List.pairwise_map.mp unique).imp_of_mem ?_
    intro left right leftIn rightIn apart asset network same
    have normalized :=
      ((keyed left leftIn).normalized_eq_iff (keyed right rightIn) asset network).mpr same
    exact apart (by unfold TrackedAddressRow.key; rw [asset, network, normalized])

theorem insertAddress_ok {failure : String} {row : TrackedAddressRow}
    (done : insertAddress failure row rows = .ok next) :
    row.key ∉ rows.map TrackedAddressRow.key ∧ next = rows ++ [row] := by
  unfold insertAddress at done
  split at done
  · cases done
  · rename_i fresh
    exact ⟨fresh, (Except.ok.inj done).symm⟩

/-- What a write does to the rows: keys stay unique, and all rows are keyed by their addresses
exactly when those before were and a condition holds. -/
def Writes (library : BitcoinLibrary Key Address) (hashNibble : List Char → ℕ → ℕ)
    (condition : Prop) (rows next : List TrackedAddressRow) : Prop :=
  ((rows.map TrackedAddressRow.key).Nodup → (next.map TrackedAddressRow.key).Nodup) ∧
    ((∀ row ∈ next, Keyed library hashNibble row) ↔
      (∀ row ∈ rows, Keyed library hashNibble row) ∧ condition)

theorem Writes.refl : Writes library hashNibble True rows rows :=
  ⟨fun unique => unique, (and_iff_left trivial).symm⟩

theorem Writes.trans {first second : Prop} {middle : List TrackedAddressRow}
    (before : Writes library hashNibble first rows middle)
    (after : Writes library hashNibble second middle next) :
    Writes library hashNibble (first ∧ second) rows next :=
  ⟨fun unique => after.1 (before.1 unique), by rw [after.2, before.2, and_assoc]⟩

theorem Writes.congr {condition other : Prop}
    (writes : Writes library hashNibble condition rows next) (same : condition ↔ other) :
    Writes library hashNibble other rows next :=
  ⟨writes.1, by rw [writes.2, same]⟩

theorem writes_insert {failure : String} {row : TrackedAddressRow}
    (done : insertAddress failure row rows = .ok next) :
    Writes library hashNibble (Keyed library hashNibble row) rows next := by
  obtain ⟨fresh, rfl⟩ := insertAddress_ok done
  refine ⟨?_, ?_⟩
  · intro unique
    rw [List.map_append, List.map_singleton, List.nodup_append]
    refine ⟨unique, List.nodup_singleton _, ?_⟩
    intro key among other here same
    rw [List.mem_singleton] at here
    exact fresh (here ▸ same ▸ among)
  · rw [List.forall_mem_append, List.forall_mem_singleton]

theorem writes_generate {request : DerivationRequest} {start : ℕ} {ids : List String}
    (done : generateDerivedAddresses library request start ids rows = .ok next) :
    Writes library hashNibble (DerivesLowerCase library request start ids.length) rows next := by
  induction ids generalizing start rows with
  | nil =>
    obtain rfl := Except.ok.inj done
    refine Writes.refl.congr ⟨fun _ offset none => absurd none (Nat.not_lt_zero offset), ?_⟩
    exact fun _ => trivial
  | cons id ids ih =>
    rw [generateDerivedAddresses] at done
    split at done
    · cases done
    · obtain ⟨address, derived, done⟩ := bind_eq_ok.mp done
      obtain ⟨inserted, insertion, done⟩ := bind_eq_ok.mp done
      have bitcoin : request.assetId = .bitcoin := by
        by_contra other
        rw [deriveAddress, if_pos other] at derived
        cases derived
      refine ((writes_insert insertion).trans (ih done)).congr ?_
      rw [keyed_derivedRow bitcoin]
      unfold DerivesLowerCase
      constructor
      · rintro ⟨here, later⟩ offset within found same
        cases offset with
        | zero =>
          obtain rfl := Except.ok.inj (derived.symm.trans same)
          exact here
        | succ offset =>
          refine later offset (Nat.lt_of_succ_lt_succ within) found ?_
          rwa [Nat.add_assoc, Nat.add_comm 1 offset]
      · intro every
        refine ⟨every 0 (Nat.succ_pos _) address derived, ?_⟩
        intro offset within found same
        refine every (offset + 1) (Nat.succ_lt_succ within) found ?_
        rwa [Nat.add_assoc, Nat.add_comm 1 offset] at same

theorem keyed_parseImportedAddress {account : ImportedAccountAddresses}
    {imported : ImportedAddress} {row : TrackedAddressRow}
    (done : parseImportedAddress library hashNibble account imported = .ok row) :
    Keyed library hashNibble row := by
  unfold parseImportedAddress at done
  split at done
  · split at done
    · cases done
    · split at done
      · cases done
      · obtain rfl := Except.ok.inj done
        exact keyed_bitcoinRow
  · split at done
    · cases done
    · split at done
      · cases done
      · obtain rfl := Except.ok.inj done
        exact keyed_ethereumRow

theorem writes_merge {imported : List TrackedAddressRow}
    (keyed : ∀ row ∈ imported, Keyed library hashNibble row)
    (done : imported.foldlM mergeAddress rows = .ok next) :
    Writes library hashNibble True rows next := by
  induction imported generalizing rows with
  | nil =>
    obtain rfl := Except.ok.inj done
    exact Writes.refl
  | cons row imported ih =>
    rw [List.foldlM_cons] at done
    obtain ⟨merged, first, later⟩ := bind_eq_ok.mp done
    have rest := ih (fun other member => keyed other (List.mem_cons_of_mem _ member)) later
    have here := keyed row List.mem_cons_self
    unfold mergeAddress at first
    split at first
    · obtain rfl := Except.ok.inj first
      exact rest
    · exact ((writes_insert first).trans rest).congr (and_iff_left trivial |>.trans
        (iff_true_intro here))

theorem writes_run {write : AddressWrite} (done : write.run library hashNibble rows = .ok next) :
    Writes library hashNibble (write.KeepsCase library rows) rows next := by
  cases write with
  | addBitcoinAddress id accountId network raw =>
    simp only [AddressWrite.run] at done
    split at done
    · cases done
    · exact (writes_insert done).congr (iff_true_intro keyed_bitcoinRow)
  | addEthereumAddress id accountId network raw =>
    simp only [AddressWrite.run] at done
    split at done
    · cases done
    · exact (writes_insert done).congr (iff_true_intro keyed_ethereumRow)
  | importAccounts accounts =>
    obtain ⟨parsed, read, done⟩ := bind_eq_ok.mp done
    refine writes_merge ?_ done
    intro row member
    obtain ⟨ofAccount, among, member⟩ := List.mem_flatten.mp member
    obtain ⟨account, -, accountRead⟩ := (mem_of_mapM_eq_ok read).2 ofAccount among
    obtain ⟨imported, -, rowRead⟩ := (mem_of_mapM_eq_ok accountRead).2 row member
    exact keyed_parseImportedAddress rowRead
  | bootstrap external internal =>
    obtain ⟨middle, first, second⟩ := bind_eq_ok.mp done
    exact (writes_generate first).trans (writes_generate second)
  | deriveNext request =>
    simp only [AddressWrite.run, deriveNextDerivedAddresses] at done
    split at done
    · rename_i empty
      obtain rfl := Except.ok.inj done
      refine Writes.refl.congr (iff_of_true trivial ?_)
      intro start _ offset within
      rw [empty] at within
      exact absurd within (Nat.not_lt_zero offset)
    · obtain ⟨start, found, done⟩ := bind_eq_ok.mp done
      refine (writes_generate done).congr ⟨?_, fun every => every start found⟩
      intro lower other same
      obtain rfl := Except.ok.inj (found.symm.trans same)
      exact lower

theorem derivesLowerCase_of_nativeSegwit {request : DerivationRequest} {start count : ℕ}
    (native : request.addressScheme = .nativeSegwit) :
    DerivesLowerCase library request start count := by
  intro offset _ address derived
  unfold deriveAddress at derived
  rw [native] at derived
  split at derived
  · cases derived
  · obtain ⟨key, -, derived⟩ := bind_eq_ok.mp derived
    obtain rfl := Except.ok.inj derived
    exact library.lower_text _ _

theorem writes_history {writes : List AddressWrite}
    (done : writes.foldlM (AddressWrite.run library hashNibble) rows = .ok next) :
    Writes library hashNibble (KeepsCase library hashNibble rows writes) rows next := by
  induction writes generalizing rows with
  | nil =>
    obtain rfl := Except.ok.inj done
    exact Writes.refl
  | cons write writes ih =>
    rw [List.foldlM_cons] at done
    obtain ⟨middle, first, later⟩ := bind_eq_ok.mp done
    refine ((writes_run first).trans (ih later)).congr ?_
    rw [KeepsCase]
    refine and_congr_right fun _ => ⟨?_, fun every => every middle first⟩
    intro kept other same
    obtain rfl := Except.ok.inj (first.symm.trans same)
    exact kept

/-- After any history of writes there is one row for each address, keyed by one injective
function, exactly when every address that was derived has a text without capitals. -/
theorem oneRowPerAddress_iff {writes : List AddressWrite}
    (done : writes.foldlM (AddressWrite.run library hashNibble) [] = .ok rows) :
    OneRowPerAddress library hashNibble rows ↔ KeepsCase library hashNibble [] writes := by
  obtain ⟨unique, keyed⟩ := writes_history done
  rw [oneRowPerAddress_iff_keyed (unique List.nodup_nil), keyed]
  exact and_iff_right fun _ none => absurd none List.not_mem_nil

end Histories

/-! ## An address tracked twice -/

/-- The first addresses of two accounts of one seed, and the second of one. -/
inductive SampleAddress where
  | legacy
  | nativeSegwit
  | nextNativeSegwit
deriving DecidableEq, Repr

def sampleText : SampleAddress → String
  | .legacy => "1LqBGSKuX5yYUonjxT5qGfpUsXKYYWeabA"
  | .nativeSegwit => "bc1qcr8te4kr609gcawutmrza0j4xv80jy8z306fyu"
  | .nextNativeSegwit => "bc1qnjg0jd8228aq7egyzacy8cys3knf9xvrerkf9g"

def sampleXpub : String :=
  "xpub6BosfCnifzxcFwrSzQiqu2DBVTshkCXacvNsWGYJVVhhawA7d4R5WSWGFNbi8Aw6ZRc1brxMyWMzG3DSSSSoekkud"
    ++ "hUd9yLb6qx39T9nMdj"

def sampleZpub : String :=
  "zpub6rFR7y4Q2AijBEqTUquhVz398htDFrtymD9xYYfG1m4wAcvPhXNfE3EfH1r1ADqtfSdVCToUG868RvUUkgDKf31mG"
    ++ "DtKsAYz2oz2AGutZYs"

def sampleLibrary : BitcoinLibrary ℕ SampleAddress where
  parse _ raw :=
    if raw = sampleText .legacy then some .legacy
    else if toAsciiLowercase raw = sampleText .nativeSegwit then some .nativeSegwit
    else if toAsciiLowercase raw = sampleText .nextNativeSegwit then some .nextNativeSegwit
    else none
  text _ := sampleText
  scheme
    | .legacy => some .legacy
    | .nativeSegwit | .nextNativeSegwit => some .nativeSegwit
  childKey extendedPubkey change index :=
    if (extendedPubkey = sampleXpub ∧ index = 0 ∨ extendedPubkey = sampleZpub ∧ index < 2) ∧
        change = 0 then
      .ok index
    else
      .error ⟨"Failed to derive child key"⟩
  p2pkh _ _ := .legacy
  p2shwpkh _ _ := .legacy
  p2wpkh _ index := if index = 0 then .nativeSegwit else .nextNativeSegwit
  parse_text _ address := by cases address <;> decide +kernel
  lower_text _ index := by split <;> decide +kernel

/-- The first address of an account. -/
def firstOfAccount (addressScheme : AddressScheme) (extendedPubkey : String) :
    DerivationRequest where
  accountId := "hd"
  assetId := .bitcoin
  network := .mainnet
  addressScheme := addressScheme
  extendedPubkey := extendedPubkey
  derivationChange := 0
  ids := ["2"]

def singleAndNative : List AddressWrite :=
  [.addBitcoinAddress "1" "single" .mainnet (sampleText .legacy),
    .deriveNext (firstOfAccount .nativeSegwit sampleZpub)]

def singleRow (address : SampleAddress) : TrackedAddressRow :=
  bitcoinRow sampleLibrary "1" "single" .mainnet address .legacy .userProvided

theorem oneRowPerAddress_iff_singleAndNative :
    OneRowPerAddress sampleLibrary (fun _ _ => 0)
      [singleRow .legacy,
        derivedRow sampleLibrary (firstOfAccount .nativeSegwit sampleZpub) "2" 0 .nativeSegwit] :=
  (@oneRowPerAddress_iff _ _ _ _ _ singleAndNative (by decide +kernel)).mpr
    ⟨trivial, fun _ _ => ⟨fun _ _ => derivesLowerCase_of_nativeSegwit rfl, fun _ _ => trivial⟩⟩

/-- The first legacy address tracked as a single address and derived. -/
theorem not_oneRowPerAddress_legacy :
    [AddressWrite.addBitcoinAddress "1" "single" .mainnet (sampleText .legacy),
        .deriveNext (firstOfAccount .legacy sampleXpub)].foldlM
          (AddressWrite.run sampleLibrary fun _ _ => 0) [] =
        .ok [singleRow .legacy,
          derivedRow sampleLibrary (firstOfAccount .legacy sampleXpub) "2" 0 .legacy] ∧
      ¬ OneRowPerAddress sampleLibrary (fun _ _ => 0)
        [singleRow .legacy,
          derivedRow sampleLibrary (firstOfAccount .legacy sampleXpub) "2" 0 .legacy] := by
  refine ⟨by decide +kernel, ?_⟩
  intro oneRow
  have apart := (List.pairwise_cons.mp oneRow.single).1 _ (List.mem_singleton_self _) rfl rfl
  exact apart (by decide +kernel)

end Bitgarth.Accounts
