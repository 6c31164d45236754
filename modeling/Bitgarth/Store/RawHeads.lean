import Bitgarth.Store.RawVersions

/-! # Heads of retained rows

Retaining a row of one identity moves the head of that identity alone, and every identity that
came in keeps a head. The newest heads of some identities are found among their own heads.
-/

namespace Bitgarth.Store

open Amounts Ledger KeyedTable Text Fallible

section Versions

variable {Identity : Type} [DecidableEq Identity] {versions after : List (RawVersion Identity)}
  {request version : RawVersion Identity}

/-- The constraints of the version tables: ids are primary keys, and a superseded id exists. -/
structure ValidVersions (versions : List (RawVersion Identity)) : Prop where
  unique : Keyed RawVersion.rawVersionId versions
  refers : ∀ version ∈ versions, ∀ superseded ∈ version.supersedesRawVersionId,
    superseded ∈ versions.map RawVersion.rawVersionId

omit [DecidableEq Identity] in
theorem isHead_iff : isHead versions version = true ↔
    ∀ newer ∈ versions, newer.supersedesRawVersionId ≠ some version.rawVersionId := by
  simp [isHead]

theorem loadCurrentRawHead_spec {sourceConnectionId : String} {identity : Identity}
    {head : RawVersion Identity}
    (isLoaded : loadCurrentRawHead versions sourceConnectionId identity = some head) :
    head ∈ loadAllCurrentRawHeads versions ∧ head.sourceConnectionId = sourceConnectionId ∧
      head.identity = identity := by
  have found : head.sourceConnectionId = sourceConnectionId ∧ head.identity = identity ∧
      isHead versions head = true := of_decide_eq_true (List.find?_some isLoaded :)
  exact ⟨List.mem_filter.mpr ⟨List.mem_of_find?_eq_some isLoaded, found.2.2⟩, found.1, found.2.1⟩

/-- An insertion keeps the head of equal bytes, or appends a version that supersedes the head. -/
theorem insertRawVersion_cases (done : insertRawVersion versions request = .ok after) :
    (after = versions ∧ ∃ head ∈ loadAllCurrentRawHeads versions,
        head.sourceConnectionId = request.sourceConnectionId ∧
        head.identity = request.identity ∧ head.payloadBytes = request.payloadBytes) ∨
      request.rawVersionId ∉ versions.map RawVersion.rawVersionId ∧
        ∃ inserted, after = versions ++ [inserted] ∧
          { inserted with supersedesRawVersionId := request.supersedesRawVersionId } = request ∧
          inserted.supersedesRawVersionId = (loadCurrentRawHead versions
            request.sourceConnectionId request.identity).map RawVersion.rawVersionId := by
  unfold insertRawVersion at done
  dsimp only at done
  split at done <;> rename_i reused
  · obtain ⟨head, isLoaded, sameBytes⟩ := reused
    obtain ⟨isHead, ofConnection, ofIdentity⟩ := loadCurrentRawHead_spec isLoaded
    exact .inl ⟨(Except.ok.inj done).symm, head, isHead, ofConnection, ofIdentity, sameBytes⟩
  · split at done <;> rename_i fresh
    · cases done
    · exact .inr ⟨fresh, _, (Except.ok.inj done).symm, rfl, rfl⟩

/-- An insertion keeps the constraints. -/
theorem ValidVersions.insert (valid : ValidVersions versions)
    (done : insertRawVersion versions request = .ok after) : ValidVersions after := by
  rcases insertRawVersion_cases done with ⟨rfl, _⟩ | ⟨fresh, inserted, rfl, isRequest, isHead⟩
  · exact valid
  · have isId := congrArg RawVersion.rawVersionId isRequest
    refine ⟨?_, ?_⟩
    · unfold Keyed
      rw [List.map_append, List.map_singleton, List.nodup_append]
      refine ⟨valid.unique, List.nodup_singleton _, fun id member other isNew => ?_⟩
      rw [List.mem_singleton.mp isNew]
      intro same
      exact fresh (isId ▸ same ▸ member)
    · intro version member superseded refers
      rw [List.map_append, List.mem_append]
      rcases List.mem_append.mp member with before | isNew
      · exact .inl (valid.refers version before superseded refers)
      · rw [List.mem_singleton.mp isNew, isHead] at refers
        obtain ⟨head, isLoaded, isId⟩ := Option.map_eq_some_iff.mp refers
        have inVersions := (List.mem_filter.mp (loadCurrentRawHead_spec isLoaded).1).1
        exact .inl (isId ▸ List.mem_map_of_mem inVersions)

/-- The heads of other identities stay, in their order. -/
theorem filter_heads_insert (valid : ValidVersions versions)
    (done : insertRawVersion versions request = .ok after) {keep : RawVersion Identity → Bool}
    (others : ∀ version, version.identity = request.identity → keep version = false) :
    (loadAllCurrentRawHeads after).filter keep = (loadAllCurrentRawHeads versions).filter keep := by
  rcases insertRawVersion_cases done with ⟨rfl, _⟩ | ⟨_, inserted, rfl, isRequest, isHead⟩
  · rfl
  · have ofIdentity : inserted.identity = request.identity :=
      (congrArg RawVersion.identity isRequest :)
    have dropped := others inserted ofIdentity
    unfold loadAllCurrentRawHeads
    rw [List.filter_filter, List.filter_filter, List.filter_append,
      List.filter_cons_of_neg (by rw [dropped]; exact Bool.false_ne_true), List.filter_nil,
      List.append_nil]
    apply List.filter_congr
    intro version member
    cases kept : keep version with
    | false => rfl
    | true =>
      rw [Bool.true_and, Bool.true_and, Bool.eq_iff_iff, isHead_iff, isHead_iff]
      constructor
      · exact fun heads newer before => heads newer (List.mem_append_left _ before)
      · intro heads newer among
        rcases List.mem_append.mp among with before | isNew
        · exact heads newer before
        · rw [List.mem_singleton.mp isNew, isHead]
          intro supersedes
          obtain ⟨head, isLoaded, isId⟩ := Option.map_eq_some_iff.mp supersedes
          obtain ⟨inHeads, _, ofIdentity⟩ := loadCurrentRawHead_spec isLoaded
          obtain rfl := List.inj_on_of_nodup_map valid.unique (List.mem_filter.mp inHeads).1
            member isId
          rw [others _ ofIdentity] at kept
          cases kept

theorem exists_head_of_insert (valid : ValidVersions versions)
    (done : insertRawVersion versions request = .ok after) :
    ∃ head ∈ loadAllCurrentRawHeads after, head.identity = request.identity := by
  rcases insertRawVersion_cases done with ⟨rfl, head, isHead, _, ofIdentity, _⟩ |
    ⟨fresh, inserted, rfl, isRequest, isHead⟩
  · exact ⟨head, isHead, ofIdentity⟩
  · have ofIdentity : inserted.identity = request.identity :=
      (congrArg RawVersion.identity isRequest :)
    have isId : inserted.rawVersionId = request.rawVersionId :=
      (congrArg RawVersion.rawVersionId isRequest :)
    refine ⟨inserted, List.mem_filter.mpr ⟨List.mem_append_right _ (List.mem_singleton.mpr rfl),
      isHead_iff.mpr fun newer among => ?_⟩, ofIdentity⟩
    rw [isId]
    intro supersedes
    apply fresh
    rcases List.mem_append.mp among with before | isNew
    · exact valid.refers newer before _ supersedes
    · rw [List.mem_singleton.mp isNew, isHead] at supersedes
      obtain ⟨head, isLoaded, isId⟩ := Option.map_eq_some_iff.mp supersedes
      exact isId ▸ List.mem_map_of_mem
        (List.mem_filter.mp (loadCurrentRawHead_spec isLoaded).1).1

/-- What has a head keeps one. -/
theorem exists_head_insert (valid : ValidVersions versions)
    (done : insertRawVersion versions request = .ok after) {identity : Identity}
    (headed : ∃ head ∈ loadAllCurrentRawHeads versions, head.identity = identity) :
    ∃ head ∈ loadAllCurrentRawHeads after, head.identity = identity := by
  by_cases own : identity = request.identity
  · rw [own]
    exact exists_head_of_insert valid done
  · obtain ⟨head, isHead, ofIdentity⟩ := headed
    have others : ∀ version : RawVersion Identity, version.identity = request.identity →
        decide (version.identity = identity) = false := by
      intro version isOwn
      rw [decide_eq_false_iff_not, isOwn]
      exact Ne.symm own
    have kept := filter_heads_insert valid done others
    have member : head ∈ (loadAllCurrentRawHeads versions).filter
        fun version => decide (version.identity = identity) :=
      List.mem_filter.mpr ⟨isHead, decide_eq_true ofIdentity⟩
    rw [← kept] at member
    exact ⟨head, (List.mem_filter.mp member).1, ofIdentity⟩

/-! ## The newest heads -/

variable {le : Identity → Identity → Bool} {heads : List (RawVersion Identity)}

omit [DecidableEq Identity] in
theorem keepNewer_identity (head old : RawVersion Identity) (same : old.identity = head.identity) :
    (keepNewer old head).identity = head.identity := by
  unfold keepNewer
  split
  · rfl
  · exact same

theorem mem_newestHeads : version ∈ newestHeads le heads ↔ version ∈ heads.foldl
    (fun newest head => upsert RawVersion.identity keepNewer head newest) [] :=
  List.mem_mergeSort

/-- An identity has one newest head. -/
theorem keyed_newestHeads : Keyed RawVersion.identity (newestHeads le heads) := by
  have folded : Keyed RawVersion.identity (heads.foldl
      (fun newest head => upsert RawVersion.identity keepNewer head newest) []) :=
    Keyed.foldl
      (fun _ head before => before.upsert fun old same => keepNewer_identity head old same)
      heads List.nodup_nil
  exact (((List.mergeSort_perm _ _).map RawVersion.identity).nodup_iff).mpr folded

theorem newestHeads_subset (member : version ∈ newestHeads le heads) : version ∈ heads := by
  rw [mem_newestHeads] at member
  have fromItems : ∀ (heads newest : List (RawVersion Identity)),
      version ∈ heads.foldl
        (fun newest head => upsert RawVersion.identity keepNewer head newest) newest →
      version ∈ newest ∨ version ∈ heads := by
    intro heads
    induction heads with
    | nil => exact fun newest before => .inl before
    | cons first rest ih =>
      intro newest after
      rcases ih _ after with before | later
      · rcases mem_of_mem_upsert before with inNewest | rfl | ⟨old, inNewest, _, rfl⟩
        · exact .inl inNewest
        · exact .inr List.mem_cons_self
        · unfold keepNewer
          split
          · exact .inr List.mem_cons_self
          · exact .inl inNewest
      · exact .inr (List.mem_cons_of_mem _ later)
  exact (fromItems heads [] member).resolve_left List.not_mem_nil

theorem exists_newestHead (member : version ∈ heads) :
    ∃ newest ∈ newestHeads le heads, newest.identity = version.identity := by
  have isKey := (mem_keys_foldl_upsert (k := version.identity) keepNewer_identity heads []).mpr
    (.inr (List.mem_map_of_mem member))
  obtain ⟨newest, inNewest, ofIdentity⟩ := List.mem_map.mp isKey
  exact ⟨newest, mem_newestHeads.mpr inNewest, ofIdentity⟩

theorem mem_newestHeads_filter (keep : Identity → Bool) :
    version ∈ newestHeads le (heads.filter fun head => keep head.identity) ↔
      version ∈ newestHeads le heads ∧ keep version.identity = true := by
  have filtered := filter_key_foldl_upsert keepNewer_identity keep heads []
  rw [List.filter_nil] at filtered
  rw [mem_newestHeads, mem_newestHeads, ← filtered, List.mem_filter]

end Versions

end Bitgarth.Store
