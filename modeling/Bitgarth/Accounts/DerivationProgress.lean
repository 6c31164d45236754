import Bitgarth.Accounts.TrackedAddresses

/-! # Progress of address derivation

A call derives the next addresses of a chain or fails as a whole, and an address that is tracked
already fails it. Since later calls start at the same index, none of them gets past that address.
`progresses_iff` says when a call, or later ones, get on.
-/

namespace Bitgarth.Accounts

open Amounts Fallible Store Text

open Sync (AddressScheme SyncedAssetId)

section Progress

variable {Key Address : Type} (library : BitcoinLibrary Key Address)

/-- The key under which derivation inserts an address. -/
def DerivationRequest.keyOf (request : DerivationRequest) (address : Address) :
    SyncedAssetId × Network × String :=
  (request.assetId, request.network,
    toAsciiLowercase (library.text request.network address))

/-- `count` addresses from an index on can be derived, and their keys are free and apart. -/
structure Unblocked (request : DerivationRequest) (start count : ℕ)
    (rows : List TrackedAddressRow) : Prop where
  derives : ∀ offset < count, ∃ address,
    deriveAddress library request (start + offset) = .ok address
  free : ∀ offset < count, ∀ address,
    deriveAddress library request (start + offset) = .ok address →
      request.keyOf library address ∉ rows.map TrackedAddressRow.key
  apart : ∀ first second firstAddress secondAddress, first < second → second < count →
    deriveAddress library request (start + first) = .ok firstAddress →
      deriveAddress library request (start + second) = .ok secondAddress →
        request.keyOf library firstAddress ≠ request.keyOf library secondAddress

/-- The rows after a call that derived addresses at consecutive indices from `start` on. -/
def DerivedFrom (request : DerivationRequest) (start : ℕ) (rows next : List TrackedAddressRow) :
    Prop :=
  ∃ added, next = rows ++ added ∧ added.map (fun row => row.id) = request.ids ∧
    derivedIndices request.accountId request.derivationChange added =
      (List.range request.ids.length).map (start + ·) ∧
    ∀ row ∈ added, row.accountId = some request.accountId ∧ row.sourceType = .derived ∧
      row.derivationChange = some request.derivationChange

/-- A request for the same chain with other ids. -/
def DerivationRequest.withIds (request : DerivationRequest) (ids : List String) :
    DerivationRequest :=
  { request with ids := ids }

/-- Later calls for the chain that store the last of the indices that were asked for. -/
def GetsPast (request : DerivationRequest) (start : ℕ) (rows : List TrackedAddressRow) : Prop :=
  ∃ (calls : List (List String)) (final : List TrackedAddressRow),
    calls.foldlM (fun rows ids => deriveNextDerivedAddresses library (request.withIds ids) rows)
      rows = .ok final ∧
    start + request.ids.length - 1 ∈
      derivedIndices request.accountId request.derivationChange final

/-- The call derives what was asked for, or it fails and later calls get past it. -/
def Progresses (request : DerivationRequest) (start : ℕ) (rows : List TrackedAddressRow) : Prop :=
  (∃ next, deriveNextDerivedAddresses library request rows = .ok next ∧
      DerivedFrom request start rows next) ∨
    ((∀ next, deriveNextDerivedAddresses library request rows ≠ .ok next) ∧
      GetsPast library request start rows)

end Progress

section Progress

variable {Key Address : Type} {library : BitcoinLibrary Key Address}
  {request : DerivationRequest} {start : ℕ} {rows next : List TrackedAddressRow}

theorem unblocked_succ {count : ℕ} {id : String} :
    Unblocked library request start (count + 1) rows ↔
      ∃ address, deriveAddress library request start = .ok address ∧
        request.keyOf library address ∉ rows.map TrackedAddressRow.key ∧
        Unblocked library request (start + 1) count
          (rows ++ [derivedRow library request id start address]) := by
  have shift : ∀ offset, start + 1 + offset = start + (offset + 1) := by
    intro offset
    omega
  constructor
  · intro unblocked
    obtain ⟨address, derived⟩ := unblocked.derives 0 (Nat.succ_pos count)
    refine ⟨address, derived, unblocked.free 0 (Nat.succ_pos count) address derived, ?_, ?_, ?_⟩
    · intro offset within
      rw [shift]
      exact unblocked.derives (offset + 1) (Nat.succ_lt_succ within)
    · intro offset within other found
      rw [shift] at found
      rw [List.map_append, List.map_singleton, List.mem_append, List.mem_singleton]
      rintro (tracked | same)
      · exact unblocked.free (offset + 1) (Nat.succ_lt_succ within) other found tracked
      · exact unblocked.apart 0 (offset + 1) address other (Nat.succ_pos offset)
          (Nat.succ_lt_succ within) derived found same.symm
    · intro first second firstAddress secondAddress before within firstFound secondFound
      rw [shift] at firstFound secondFound
      exact unblocked.apart (first + 1) (second + 1) _ _ (Nat.succ_lt_succ before)
        (Nat.succ_lt_succ within) firstFound secondFound
  · rintro ⟨address, derived, fresh, rest⟩
    have later : ∀ offset < count, ∀ other,
        deriveAddress library request (start + (offset + 1)) = .ok other →
          request.keyOf library other ∉ rows.map TrackedAddressRow.key ∧
            request.keyOf library other ≠ request.keyOf library address := by
      intro offset within other found
      rw [← shift] at found
      have absent := rest.free offset within other found
      rw [List.map_append, List.map_singleton, List.mem_append, List.mem_singleton,
        not_or] at absent
      exact absent
    refine ⟨?_, ?_, ?_⟩
    · intro offset within
      cases offset with
      | zero => exact ⟨address, derived⟩
      | succ offset =>
        rw [← shift]
        exact rest.derives offset (Nat.lt_of_succ_lt_succ within)
    · intro offset within other found
      cases offset with
      | zero =>
        obtain rfl := Except.ok.inj (derived.symm.trans found)
        exact fresh
      | succ offset => exact (later offset (Nat.lt_of_succ_lt_succ within) other found).1
    · intro first second firstAddress secondAddress before within firstFound secondFound
      cases second with
      | zero => exact absurd before (Nat.not_lt_zero first)
      | succ second =>
        have secondWithin := Nat.lt_of_succ_lt_succ within
        cases first with
        | zero =>
          obtain rfl := Except.ok.inj (derived.symm.trans firstFound)
          exact (later second secondWithin secondAddress secondFound).2.symm
        | succ first =>
          rw [← shift] at firstFound secondFound
          exact rest.apart first second _ _ (Nat.lt_of_succ_lt_succ before) secondWithin
            firstFound secondFound

theorem generate_ok_iff {ids : List String} (remain : start + ids.length ≤ 2 ^ 32) :
    (∃ next, generateDerivedAddresses library request start ids rows = .ok next) ↔
      Unblocked library request start ids.length rows := by
  induction ids generalizing start rows with
  | nil =>
    refine iff_of_true ⟨rows, rfl⟩ ⟨?_, ?_, ?_⟩
    · exact fun offset none => absurd none (Nat.not_lt_zero offset)
    · exact fun offset none => absurd none (Nat.not_lt_zero offset)
    · exact fun _ second _ _ _ none => absurd none (Nat.not_lt_zero second)
  | cons id ids ih =>
    rw [List.length_cons] at remain ⊢
    rw [@unblocked_succ _ _ library request start rows ids.length id, generateDerivedAddresses,
      if_neg (by omega), exists_bind_eq_ok]
    refine exists_congr fun address => and_congr_right fun _ => ?_
    rw [exists_bind_eq_ok]
    have insertion : ∀ inserted, insertAddress "Failed to insert derived address"
        (derivedRow library request id start address) rows = .ok inserted ↔
          request.keyOf library address ∉ rows.map TrackedAddressRow.key ∧
            inserted = rows ++ [derivedRow library request id start address] := by
      intro inserted
      refine ⟨insertAddress_ok, ?_⟩
      rintro ⟨fresh, same⟩
      rw [same]
      exact if_neg fresh
    simp only [insertion]
    constructor
    · rintro ⟨inserted, ⟨fresh, rfl⟩, done⟩
      exact ⟨fresh, (ih (by omega)).mp done⟩
    · rintro ⟨fresh, rest⟩
      exact ⟨_, ⟨fresh, rfl⟩, (ih (by omega)).mpr rest⟩

theorem generate_added {ids : List String}
    (done : generateDerivedAddresses library request start ids rows = .ok next) :
    ∃ added, next = rows ++ added ∧ added.map (fun row => row.id) = ids ∧
      derivedIndices request.accountId request.derivationChange added =
        (List.range ids.length).map (start + ·) ∧
      ∀ row ∈ added, row.accountId = some request.accountId ∧ row.sourceType = .derived ∧
        row.derivationChange = some request.derivationChange := by
  induction ids generalizing start rows with
  | nil =>
    obtain rfl := Except.ok.inj done
    exact ⟨[], (List.append_nil _).symm, rfl, rfl, fun _ none => absurd none List.not_mem_nil⟩
  | cons id ids ih =>
    rw [generateDerivedAddresses] at done
    split at done
    · cases done
    · obtain ⟨address, -, done⟩ := bind_eq_ok.mp done
      obtain ⟨inserted, insertion, done⟩ := bind_eq_ok.mp done
      obtain ⟨-, rfl⟩ := insertAddress_ok insertion
      obtain ⟨added, same, sameIds, indices, chain⟩ := ih done
      refine ⟨derivedRow library request id start address :: added, ?_, ?_, ?_, ?_⟩
      · rw [same, List.append_assoc]
        rfl
      · rw [List.map_cons, sameIds]
        rfl
      · have first : derivedIndices request.accountId request.derivationChange
            (derivedRow library request id start address :: added) =
              start :: derivedIndices request.accountId request.derivationChange added := by
          refine List.filterMap_cons_some ?_
          exact if_pos ⟨rfl, rfl, rfl⟩
        rw [first, indices, List.length_cons, List.range_succ_eq_map, List.map_cons,
          List.map_map, Nat.add_zero]
        refine congrArg _ (List.map_congr_left fun offset _ => ?_)
        simp only [Function.comp_apply]
        omega
      · exact List.forall_mem_cons.mpr ⟨⟨rfl, rfl, rfl⟩, chain⟩

theorem generate_append {ids more : List String} :
    generateDerivedAddresses library request start (ids ++ more) rows = (do
      let middle ← generateDerivedAddresses library request start ids rows
      generateDerivedAddresses library request (start + ids.length) more middle) := by
  induction ids generalizing start rows with
  | nil => rfl
  | cons id ids ih =>
    rw [List.cons_append, generateDerivedAddresses, generateDerivedAddresses]
    split
    · rfl
    · rw [bind_assoc]
      refine congrArg _ (funext fun address => ?_)
      rw [bind_assoc]
      refine congrArg _ (funext fun inserted => ?_)
      rw [ih, List.length_cons, Nat.add_assoc, Nat.add_comm 1]

theorem generate_withIds {other ids : List String} :
    generateDerivedAddresses library (request.withIds other) start ids rows =
      generateDerivedAddresses library request start ids rows := by
  induction ids generalizing start rows with
  | nil => rfl
  | cons id ids ih =>
    rw [generateDerivedAddresses, generateDerivedAddresses]
    split
    · rfl
    · refine congrArg _ (funext fun address => ?_)
      exact congrArg _ (funext fun inserted => ih)

theorem nextDerivationIndex_spec {accountId : String} {change : ℕ}
    (found : nextDerivationIndex accountId change rows = .ok start) :
    (∀ index ∈ derivedIndices accountId change rows, index < start) ∧
      (start = 0 ∨ start - 1 ∈ derivedIndices accountId change rows) := by
  unfold nextDerivationIndex at found
  cases greatest : (derivedIndices accountId change rows).max? with
  | none =>
    rw [greatest] at found
    obtain rfl := Except.ok.inj found
    rw [List.max?_eq_none_iff] at greatest
    rw [greatest]
    exact ⟨fun _ none => absurd none List.not_mem_nil, .inl rfl⟩
  | some index =>
    rw [greatest] at found
    obtain ⟨member, bound⟩ := List.max?_eq_some_iff.mp greatest
    simp only at found
    split at found
    · cases found
    · split at found
      · cases found
      · obtain rfl := Except.ok.inj found
        exact ⟨fun other among => Nat.lt_succ_of_le (bound other among), .inr member⟩

theorem derivedIndices_append {accountId : String} {change : ℕ}
    {added : List TrackedAddressRow} :
    derivedIndices accountId change (rows ++ added) =
      derivedIndices accountId change rows ++ derivedIndices accountId change added :=
  List.filterMap_append

theorem nextDerivationIndex_generate {ids : List String} {later : ℕ} (nonempty : ids ≠ [])
    (found : nextDerivationIndex request.accountId request.derivationChange rows = .ok start)
    (done : generateDerivedAddresses library request start ids rows = .ok next)
    (foundLater :
      nextDerivationIndex request.accountId request.derivationChange next = .ok later) :
    later = start + ids.length := by
  obtain ⟨added, rfl, -, indices, -⟩ := generate_added done
  obtain ⟨below, -⟩ := nextDerivationIndex_spec found
  obtain ⟨belowLater, last⟩ := nextDerivationIndex_spec foundLater
  have count : 0 < ids.length := List.length_pos_iff.mpr nonempty
  rw [derivedIndices_append, indices] at belowLater last
  have reached : start + (ids.length - 1) < later := by
    refine belowLater _ (List.mem_append_right _ (List.mem_map.mpr ⟨ids.length - 1, ?_, rfl⟩))
    exact List.mem_range.mpr (by omega)
  rcases last with zero | member
  · omega
  · rcases List.mem_append.mp member with old | new
    · have before := below _ old
      omega
    · obtain ⟨offset, within, same⟩ := List.mem_map.mp new
      have bound := List.mem_range.mp within
      omega

theorem calls_of_noNextIndex {calls : List (List String)} {err : DbError}
    (noIndex :
      nextDerivationIndex request.accountId request.derivationChange rows = .error err)
    (done : calls.foldlM
      (fun rows ids => deriveNextDerivedAddresses library (request.withIds ids) rows) rows =
        .ok next) :
    calls.flatten = [] ∧ next = rows := by
  induction calls with
  | nil => exact ⟨rfl, (Except.ok.inj done).symm⟩
  | cons ids calls ih =>
    rw [List.foldlM_cons] at done
    obtain ⟨middle, first, later⟩ := bind_eq_ok.mp done
    unfold deriveNextDerivedAddresses at first
    split at first
    · rename_i empty
      obtain rfl := Except.ok.inj first
      have none : ids = [] := empty
      rw [List.flatten_cons, none, List.nil_append]
      exact ih later
    · obtain ⟨index, found, -⟩ := bind_eq_ok.mp first
      cases noIndex.symm.trans found

theorem calls_eq_generate {calls : List (List String)}
    (found : nextDerivationIndex request.accountId request.derivationChange rows = .ok start)
    (done : calls.foldlM
      (fun rows ids => deriveNextDerivedAddresses library (request.withIds ids) rows) rows =
        .ok next) :
    generateDerivedAddresses library request start calls.flatten rows = .ok next := by
  induction calls generalizing start rows with
  | nil => exact done
  | cons ids calls ih =>
    rw [List.foldlM_cons] at done
    obtain ⟨middle, first, later⟩ := bind_eq_ok.mp done
    rw [List.flatten_cons]
    unfold deriveNextDerivedAddresses at first
    split at first
    · rename_i empty
      obtain rfl := Except.ok.inj first
      have none : ids = [] := empty
      rw [none, List.nil_append]
      exact ih found later
    · rename_i nonempty
      obtain ⟨other, same, first⟩ := bind_eq_ok.mp first
      obtain rfl := Except.ok.inj (found.symm.trans same)
      rw [generate_withIds] at first
      rw [generate_append]
      refine bind_eq_ok.mpr ⟨middle, first, ?_⟩
      cases foundLater :
          nextDerivationIndex request.accountId request.derivationChange middle with
      | ok start' =>
        obtain rfl := nextDerivationIndex_generate nonempty found first foundLater
        exact ih foundLater later
      | error err =>
        obtain ⟨none, rfl⟩ := calls_of_noNextIndex foundLater later
        rw [none]
        rfl

/-- A call that reaches its last index meets no tracked address. -/
theorem unblocked_of_reached {ids : List String} {count : ℕ} (positive : 0 < count)
    (found : nextDerivationIndex request.accountId request.derivationChange rows = .ok start)
    (done : generateDerivedAddresses library request start ids rows = .ok next)
    (reached : start + count - 1 ∈
      derivedIndices request.accountId request.derivationChange next)
    (remain : start + count ≤ 2 ^ 32) :
    Unblocked library request start count rows := by
  have enough : count ≤ ids.length := by
    obtain ⟨added, rfl, -, indices, -⟩ := generate_added done
    rw [derivedIndices_append, indices] at reached
    rcases List.mem_append.mp reached with old | new
    · have before := (nextDerivationIndex_spec found).1 _ old
      omega
    · obtain ⟨offset, within, same⟩ := List.mem_map.mp new
      have bound := List.mem_range.mp within
      omega
  have length : (ids.take count).length = count := List.length_take_of_le enough
  rw [← List.take_append_drop count ids, generate_append] at done
  obtain ⟨middle, first, -⟩ := bind_eq_ok.mp done
  have unblocked := (generate_ok_iff (by omega)).mp ⟨middle, first⟩
  rwa [length] at unblocked

/-- A call derives what it was asked for, at the indices after the highest one that is stored,
or later calls get past what stops it, exactly when nothing blocks the indices. -/
theorem progresses_iff (nonempty : request.ids ≠ [])
    (found : nextDerivationIndex request.accountId request.derivationChange rows = .ok start)
    (remain : start + request.ids.length ≤ 2 ^ 32) :
    Progresses library request start rows ↔
      Unblocked library request start request.ids.length rows := by
  have call : deriveNextDerivedAddresses library request rows =
      generateDerivedAddresses library request start request.ids rows := by
    rw [deriveNextDerivedAddresses, if_neg nonempty, found]
    rfl
  rw [← generate_ok_iff remain]
  constructor
  · rintro (⟨next, done, -⟩ | ⟨-, calls, final, done, reached⟩)
    · exact ⟨next, call.symm.trans done⟩
    · -- later calls start at the same index, so they meet what stopped this one
      have unblocked := unblocked_of_reached (List.length_pos_iff.mpr nonempty) found
        (calls_eq_generate found done) reached remain
      exact (generate_ok_iff remain).mpr unblocked
  · rintro ⟨next, done⟩
    exact .inl ⟨next, call.trans done, generate_added done⟩

end Progress

/-! ## A chain that is stopped for ever -/

def firstNative : DerivationRequest :=
  firstOfAccount .nativeSegwit sampleZpub

/-- Two addresses of the account, beside an address of another account. -/
theorem progresses_iff_twoIndices :
    Progresses sampleLibrary { firstNative with ids := ["2", "3"] } 0 [singleRow .legacy] := by
  have derives : (generateDerivedAddresses sampleLibrary { firstNative with ids := ["2", "3"] } 0
      ["2", "3"] [singleRow .legacy]).toOption.isSome := by
    decide +kernel
  obtain ⟨next, done⟩ := Option.isSome_iff_exists.mp derives
  exact (progresses_iff (by decide) (by decide +kernel) (by decide)).mpr
    ((generate_ok_iff (by decide)).mp ⟨next, toOption_eq_some.mp done⟩)

/-- The first address of the account is tracked as a single address, and the account derives
no address any more. -/
theorem not_progresses_singleAddress :
    AddressWrite.run sampleLibrary (fun _ _ => 0) []
        (.addBitcoinAddress "1" "single" .mainnet (sampleText .nativeSegwit)) =
      .ok [bitcoinRow sampleLibrary "1" "single" .mainnet .nativeSegwit .nativeSegwit
        .userProvided] ∧
    ¬ Progresses sampleLibrary firstNative 0
      [bitcoinRow sampleLibrary "1" "single" .mainnet .nativeSegwit .nativeSegwit
        .userProvided] := by
  refine ⟨by decide +kernel, ?_⟩
  intro progresses
  have unblocked := (progresses_iff (by decide) (by decide +kernel) (by decide)).mp progresses
  exact unblocked.free 0 (by decide) .nativeSegwit (by decide +kernel) (by decide +kernel)

end Bitgarth.Accounts
