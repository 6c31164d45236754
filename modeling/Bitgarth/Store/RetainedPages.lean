import Mathlib.Data.List.Induction
import Bitgarth.Store.RawHeads

/-! # What ingesting a page retains

The rows of a page are retained under the hash the mapping reads from them, so each row a page
brings has a head afterwards, and only hashes of the page get new heads.
-/

namespace Bitgarth.Store

open Amounts Ledger KeyedTable Text Fallible

/-! ## Hashes -/

theorem parseTxHash_congr {context context' raw raw' hash : String} (same : trim raw = trim raw')
    (parsed : parseTxHash context raw = .ok hash) : parseTxHash context' raw' = .ok hash := by
  unfold parseTxHash at parsed ⊢
  dsimp only at parsed ⊢
  rw [← same]
  split at parsed <;> rename_i length
  · cases parsed
  · split at parsed <;> rename_i digits
    · rw [if_neg length, if_pos digits]
      exact parsed
    · cases parsed

theorem digits_of_parseTxHash {context raw hash : String}
    (parsed : parseTxHash context raw = .ok hash) :
    ∀ character ∈ (trim raw).toList, isAsciiHexDigit character = true := by
  unfold parseTxHash at parsed
  dsimp only at parsed
  split at parsed
  · cases parsed
  · split at parsed <;> rename_i digits
    · exact List.all_eq_true.mp digits
    · cases parsed

theorem parseEtherscanTxHash_of_retained {raw hash : String}
    (retained : parseRetainedTxHash raw = .ok hash) : parseEtherscanTxHash raw = .ok hash := by
  unfold parseRetainedTxHash at retained
  unfold parseEtherscanTxHash
  split at retained <;> rename_i characters
  · rename_i digits
    have trimmed : (trim raw).toList = '0' :: 'x' :: digits.rdropWhile isWhiteSpace := by
      rw [toList_trim, characters, List.dropWhile_cons_of_neg (by decide),
        rdropWhile_cons_of_neg (by decide), rdropWhile_cons_of_neg (by decide)]
    have stripped : stripHexPrefix (trim raw) =
        String.ofList (digits.rdropWhile isWhiteSpace) := by
      unfold stripHexPrefix
      rw [trimmed]
      rfl
    rw [stripped]
    exact parseTxHash_congr (trim_rdropWhile digits).symm retained
  · have digits := digits_of_parseTxHash retained
    have stripped : stripHexPrefix (trim raw) = trim raw := by
      unfold stripHexPrefix
      split <;> rename_i rest trimmed
      · rw [trimmed] at digits
        exact absurd (digits 'x' (by simp)) (by decide)
      · rw [trimmed] at digits
        exact absurd (digits 'X' (by simp)) (by decide)
      · rfl
    rw [stripped]
    exact parseTxHash_congr (trim_trim raw).symm retained

theorem mem_trim_of_mem {text : String} {character : Char} (member : character ∈ text.toList)
    (kept : isWhiteSpace character = false) : character ∈ (trim text).toList := by
  have fromDrop : ∀ items : List Char, character ∈ items →
      character ∈ items.dropWhile isWhiteSpace := by
    intro items
    induction items with
    | nil => exact fun member => member
    | cons first rest ih =>
      intro member
      cases blank : isWhiteSpace first with
      | false => rwa [List.dropWhile_cons_of_neg (by simp [blank])]
      | true =>
        rw [List.dropWhile_cons_of_pos blank]
        refine ih ((List.mem_cons.mp member).resolve_left ?_)
        rintro rfl
        rw [blank] at kept
        cases kept
  rw [toList_trim, List.rdropWhile, List.mem_reverse]
  exact fromDrop _ (List.mem_reverse.mpr (fromDrop _ member))

theorem colon_not_mem_of_retained {raw hash : String}
    (retained : parseRetainedTxHash raw = .ok hash) : ':' ∉ raw.toList := by
  have notDigit : ∀ text context : String, parseTxHash context text = .ok hash →
      ':' ∉ text.toList := by
    intro text context parsed member
    have digit := digits_of_parseTxHash parsed ':' (mem_trim_of_mem member (by decide))
    exact absurd digit (by decide)
  unfold parseRetainedTxHash at retained
  split at retained <;> rename_i characters
  · have without := notDigit _ _ retained
    rw [String.toList_ofList] at without
    rw [characters]
    simpa using without
  · exact notDigit raw _ retained

/-! ## Endpoints -/

section Endpoint

variable {Row Identity : Type} [DecidableEq Identity]

/-- What ingestion and the mapping know of a row agrees with its identity. -/
structure EtherscanEndpoint.Lawful (endpoint : EtherscanEndpoint Row Identity) : Prop where
  parsePersisted_eq_ok : ∀ rawVersionId identity payloadBytes row,
    endpoint.parsePersisted rawVersionId identity payloadBytes = .ok row ↔
      endpoint.decode payloadBytes = .ok row ∧ endpoint.identify row = .ok identity
  hash_of_identify : ∀ row identity, endpoint.identify row = .ok identity →
    parseEtherscanTxHash (endpoint.hash row) = .ok (endpoint.txHash identity)
  hash_of_dedupKey : ∀ row other identity identity', endpoint.identify row = .ok identity →
    endpoint.identify other = .ok identity' → endpoint.dedupKey row = endpoint.dedupKey other →
      endpoint.hash row = endpoint.hash other

end Endpoint

theorem normalEndpoint_lawful (decode : String → Except String EtherscanNormalTx) :
    (normalEndpoint decode).Lawful := by
  refine ⟨?_, ?_, fun _ _ _ _ _ _ same => same⟩
  · intro rawVersionId identity payloadBytes row
    change parsePersistedRawEtherscanNormalTransaction decode rawVersionId identity payloadBytes =
      .ok row ↔ decode payloadBytes = .ok row ∧ identifyNormal row = .ok identity
    unfold parsePersistedRawEtherscanNormalTransaction identifyNormal
    rw [mapError_eq_ok]
    cases decode payloadBytes with
    | error err => simp
    | ok transaction =>
      simp only [Except.ok.injEq]
      cases parsed : parseRetainedTxHash transaction.hash with
      | error err =>
        simp only [reduceCtorEq, false_iff, not_and]
        rintro rfl
        simp [parsed]
      | ok parsedTxHash =>
        by_cases same : parsedTxHash = identity
        · simp only [same, ne_eq, not_true_eq_false, if_false, Except.ok.injEq]
          refine ⟨fun isRow => ⟨isRow, ?_⟩, And.left⟩
          rw [← isRow, parsed, same]
        · simp only [ne_eq, same, not_false_eq_true, if_true, reduceCtorEq, false_iff, not_and]
          rintro rfl
          simpa [parsed] using same
  · intro row identity identified
    exact parseEtherscanTxHash_of_retained (mapError_eq_ok.mp identified)

theorem identifyInternal_eq_ok {row : EtherscanInternalTx} {identity : String × String} :
    identifyInternal row = .ok identity ↔
      parseRetainedTxHash row.hash = .ok identity.1 ∧
        parseTraceId row.traceId = .ok identity.2 := by
  unfold identifyInternal
  simp only [bind_eq_ok, mapError_eq_ok, pure_eq_ok]
  constructor
  · rintro ⟨txHash, hashParsed, traceId, traceParsed, rfl⟩
    exact ⟨hashParsed, traceParsed⟩
  · rintro ⟨hashParsed, traceParsed⟩
    exact ⟨_, hashParsed, _, traceParsed, rfl⟩

theorem parseTraceId_eq_ok {raw traceId : String} :
    parseTraceId raw = .ok traceId ↔ trim raw ≠ "" ∧ trim raw = traceId := by
  unfold parseTraceId
  split <;> rename_i blank
  · simp [blank]
  · simp [blank]

theorem internalEndpoint_lawful (decode : String → Except String EtherscanInternalTx) :
    (internalEndpoint decode).Lawful := by
  refine ⟨?_, ?_, ?_⟩
  · intro rawVersionId identity payloadBytes row
    change parsePersistedRawEtherscanInternalTransaction decode rawVersionId identity payloadBytes =
      .ok row ↔ decode payloadBytes = .ok row ∧ identifyInternal row = .ok identity
    unfold parsePersistedRawEtherscanInternalTransaction
    rw [identifyInternal_eq_ok]
    cases decode payloadBytes with
    | error err => simp
    | ok transaction =>
      simp only [Except.ok.injEq]
      constructor
      · intro accepted
        cases hashParsed : parseRetainedTxHash transaction.hash with
        | error err => simp [hashParsed] at accepted
        | ok parsedTxHash =>
          simp only [hashParsed] at accepted
          split at accepted <;> rename_i sameHash
          · cases accepted
          · cases traceParsed : parseTraceId transaction.traceId with
            | error err => simp [traceParsed] at accepted
            | ok parsedTraceId =>
              simp only [traceParsed] at accepted
              split at accepted <;> rename_i sameTrace
              · cases accepted
              · obtain rfl := Except.ok.inj accepted
                rw [ne_eq, Decidable.not_not] at sameHash sameTrace
                exact ⟨rfl, by rw [hashParsed, sameHash], by rw [traceParsed, sameTrace]⟩
      · rintro ⟨rfl, hashParsed, traceParsed⟩
        simp [hashParsed, traceParsed]
  · intro row identity identified
    exact parseEtherscanTxHash_of_retained (identifyInternal_eq_ok.mp identified).1
  · intro row other identity identity' identified identified' same
    have noColon := colon_not_mem_of_retained (identifyInternal_eq_ok.mp identified).1
    have noColon' := colon_not_mem_of_retained (identifyInternal_eq_ok.mp identified').1
    have firstPart : ∀ hash traceId : String, ':' ∉ hash.toList →
        (hash ++ ":" ++ traceId).toList.takeWhile (· ≠ ':') = hash.toList := by
      intro hash traceId without
      rw [String.toList_append, String.toList_append, List.append_assoc,
        List.takeWhile_append_of_pos]
      · simp
      · intro character member
        rw [decide_eq_true_eq]
        rintro rfl
        exact without member
    have parts := congrArg (fun text : String => text.toList.takeWhile (· ≠ ':')) same
    change (row.hash ++ ":" ++ row.traceId).toList.takeWhile (· ≠ ':') =
      (other.hash ++ ":" ++ other.traceId).toList.takeWhile (· ≠ ':') at parts
    rw [firstPart _ _ noColon, firstPart _ _ noColon'] at parts
    exact String.toList_inj.mp parts

/-! ## Ingestion -/

section Ingestion

variable {Row Identity : Type} [DecidableEq Identity] (endpoint : EtherscanEndpoint Row Identity)

/-- The rows a list of items decodes to. -/
def decodedRows (items : List (EtherscanFetchedItem Row)) : List Row :=
  items.filterMap fun item => (endpoint.decode item.rawJsonBytes).toOption

/-- The versions of a hash are those of some rows, and each of the rows has a head. -/
structure RetainedFor (request : EtherscanPageIngestionRequest) (hash : String) (rows : List Row)
    (versions : List (RawVersion Identity)) : Prop where
  own : ∀ version ∈ versions, endpoint.txHash version.identity = hash →
    version.sourceConnectionId = request.sourceConnectionId ∧ version.network = request.network ∧
      ∃ row ∈ rows, endpoint.decode version.payloadBytes = .ok row ∧
        endpoint.identify row = .ok version.identity
  headed : ∀ row ∈ rows, ∀ identity, endpoint.identify row = .ok identity →
    endpoint.txHash identity = hash →
      ∃ head ∈ loadAllCurrentRawHeads versions, head.identity = identity

variable {endpoint} {request : EtherscanPageIngestionRequest}
  {state next : List (RawVersion Identity) × List Row} {item : EtherscanFetchedItem Row × ℕ}

theorem ingestItem_spec (lawful : endpoint.Lawful)
    (done : ingestItem endpoint request state item = .ok next) :
    ∃ row identity, endpoint.decode item.1.rawJsonBytes = .ok row ∧
      endpoint.identify row = .ok identity ∧ next.2 = state.2 ++ [row] ∧
      insertRawVersion state.1 {
        rawVersionId := item.1.candidateRawVersionId
        sourceConnectionId := request.sourceConnectionId
        network := request.network
        identity
        payloadBytes := item.1.rawJsonBytes
        createdAt := request.observedAt
        supersedesRawVersionId := none } = .ok next.1 := by
  obtain ⟨identity, _, done⟩ := bind_eq_ok.mp done
  split at done
  · cases done
  · cases parsed : endpoint.parsePersisted item.1.candidateRawVersionId identity
      item.1.rawJsonBytes with
    | error errorMessage =>
      rw [parsed] at done
      cases done
    | ok row =>
      rw [parsed] at done
      obtain ⟨versions, inserted, done⟩ := bind_eq_ok.mp done
      rw [pure_eq_ok] at done
      subst done
      obtain ⟨decoded, identified⟩ := (lawful.parsePersisted_eq_ok _ _ _ _).mp parsed
      exact ⟨row, identity, decoded, identified, rfl, mapError_eq_ok.mp inserted⟩

theorem RetainedFor.insert {hash : String} {rows : List Row}
    {versions after : List (RawVersion Identity)} {version : RawVersion Identity} {row : Row}
    (retained : RetainedFor endpoint request hash rows versions) (valid : ValidVersions versions)
    (ofConnection : version.sourceConnectionId = request.sourceConnectionId)
    (ofNetwork : version.network = request.network)
    (decoded : endpoint.decode version.payloadBytes = .ok row)
    (identified : endpoint.identify row = .ok version.identity)
    (done : insertRawVersion versions version = .ok after) :
    RetainedFor endpoint request hash (rows ++ [row]) after := by
  refine ⟨?_, ?_⟩
  · intro kept member ofHash
    rcases insertRawVersion_cases done with ⟨rfl, _⟩ | ⟨_, inserted, rfl, isRequest, _⟩
    · obtain ⟨connection, network, other, inRows, rest⟩ := retained.own kept member ofHash
      exact ⟨connection, network, other, List.mem_append_left _ inRows, rest⟩
    · rcases List.mem_append.mp member with before | isNew
      · obtain ⟨connection, network, other, inRows, rest⟩ := retained.own kept before ofHash
        exact ⟨connection, network, other, List.mem_append_left _ inRows, rest⟩
      · obtain rfl := List.mem_singleton.mp isNew
        rw [← isRequest] at ofConnection ofNetwork decoded identified
        exact ⟨ofConnection, ofNetwork, row, List.mem_append_right _ (List.mem_singleton.mpr rfl),
          decoded, identified⟩
  · intro kept member identity isIdentity ofHash
    rcases List.mem_append.mp member with before | isNew
    · exact exists_head_insert valid done (retained.headed kept before identity isIdentity ofHash)
    · obtain rfl := List.mem_singleton.mp isNew
      obtain rfl := Except.ok.inj (identified.symm.trans isIdentity)
      exact exists_head_of_insert valid done

variable (endpoint request) in
/-- What ingesting items has done to the versions. -/
structure IngestedFrom (versions : List (RawVersion Identity))
    (items : List (EtherscanFetchedItem Row)) (after : List (RawVersion Identity))
    (rows : List Row) : Prop where
  isRows : rows = decodedRows endpoint items
  identified : ∀ row ∈ rows, ∃ identity, endpoint.identify row = .ok identity
  valid : ValidVersions after
  retains : ∀ hash before, RetainedFor endpoint request hash before versions →
    RetainedFor endpoint request hash (before ++ rows) after
  moves : ∀ keep : RawVersion Identity → Bool,
    (∀ row ∈ rows, ∀ version, endpoint.identify row = .ok version.identity →
      keep version = false) →
      (loadAllCurrentRawHeads after).filter keep = (loadAllCurrentRawHeads versions).filter keep

theorem ingestEtherscanPage_spec (lawful : endpoint.Lawful)
    {items : List (EtherscanFetchedItem Row)} {versions after : List (RawVersion Identity)}
    {rows : List Row} (valid : ValidVersions versions)
    (done : ingestEtherscanPage endpoint request items versions = .ok (after, rows)) :
    IngestedFrom endpoint request versions items after rows := by
  have ingested := foldlM_invariant
    (fun handled (state : List (RawVersion Identity) × List Row) =>
      IngestedFrom endpoint request versions (handled.map Prod.fst) state.1 state.2)
    ?_ done ⟨rfl, fun _ member => absurd member List.not_mem_nil, valid,
      fun _ _ retained => by rwa [List.append_nil], fun _ _ => rfl⟩
  · rw [List.zipIdx_map_fst] at ingested
    exact ingested
  · intro handled item state next before ingested
    obtain ⟨row, identity, decoded, isIdentity, isNext, inserted⟩ := ingestItem_spec lawful ingested
    refine ⟨?_, ?_, before.valid.insert inserted, ?_, ?_⟩
    · rw [isNext, before.isRows]
      unfold decodedRows
      rw [List.map_append, List.filterMap_append, List.map_singleton, List.filterMap_cons,
        decoded]
      rfl
    · intro other member
      rw [isNext] at member
      rcases List.mem_append.mp member with earlier | isNew
      · exact before.identified other earlier
      · exact List.mem_singleton.mp isNew ▸ ⟨identity, isIdentity⟩
    · intro hash rows retained
      rw [isNext, ← List.append_assoc]
      exact (before.retains hash rows retained).insert before.valid rfl rfl decoded isIdentity
        inserted
    · intro keep dropped
      rw [isNext] at dropped
      rw [← before.moves keep fun other member =>
        dropped other (List.mem_append_left _ member)]
      apply filter_heads_insert before.valid inserted
      intro version same
      apply dropped row (List.mem_append_right _ (List.mem_singleton.mpr rfl))
      rw [isIdentity, same]

omit [DecidableEq Identity] in
theorem mem_dedupEtherscanTxs (items : List Row) :
    (∀ row ∈ dedupEtherscanTxs endpoint items, row ∈ items) ∧
      ∀ row ∈ items, ∃ kept ∈ dedupEtherscanTxs endpoint items,
        endpoint.dedupKey kept = endpoint.dedupKey row := by
  unfold dedupEtherscanTxs
  induction items using List.reverseRecOn with
  | nil => exact ⟨fun _ member => member, fun _ member => absurd member List.not_mem_nil⟩
  | append_singleton earlier last ih =>
    rw [List.foldl_append, List.foldl_cons, List.foldl_nil]
    split <;> rename_i seen
    · refine ⟨fun row member => List.mem_append_left _ (ih.1 row member), fun row member => ?_⟩
      rcases List.mem_append.mp member with before | isLast
      · exact ih.2 row before
      · obtain ⟨kept, inKept, sameKey⟩ := List.mem_map.mp seen
        exact ⟨kept, inKept, sameKey.trans (List.mem_singleton.mp isLast ▸ rfl)⟩
    · refine ⟨fun row member => ?_, fun row member => ?_⟩
      · rcases List.mem_append.mp member with before | isLast
        · exact List.mem_append_left _ (ih.1 row before)
        · exact List.mem_append_right _ isLast
      · rcases List.mem_append.mp member with before | isLast
        · obtain ⟨kept, inKept, sameKey⟩ := ih.2 row before
          exact ⟨kept, List.mem_append_left _ inKept, sameKey⟩
        · exact ⟨row, List.mem_append_right _ isLast, rfl⟩

end Ingestion

end Bitgarth.Store
