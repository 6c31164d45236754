import Mathlib.Data.List.Chain
import Bitgarth.Mempool.StrictScan

/-! # What an exact scan is

`ScanChain` says when the recorded pages of a scan form one chain of cursors, without following
them. The loop over the links ends within one round for each page, and accepts exactly such
chains.
-/

namespace Bitgarth.Mempool

open Store KeyedTable Fallible

/-! ## Chains of pages -/

/-- A page counts what it holds, and returned its last confirmed transaction as cursor. -/
structure PageObservation.Consistent (page : PageObservation) : Prop where
  returned : page.returnedCursor = page.confirmedTxids.getLast?
  itemCount : page.metadata.itemCount = page.membershipCount
  confirmed : page.confirmedTxids.length ≤ page.membershipCount

/-- `later` was requested with the last confirmed transaction of `earlier` as cursor. -/
def PageObservation.Continues (earlier later : PageObservation) : Prop :=
  later.metadata.pageKind = .paginatedAfterConfirmed ∧
    ∃ cursor, earlier.confirmedTxids.getLast? = some cursor ∧ later.requestedCursor = some cursor

/-- The one transaction of the page is the cursor it was requested with. -/
def PageObservation.RepeatsCursor (page : PageObservation) : Prop :=
  page.membershipCount = 1 ∧
    ∃ cursor, page.requestedCursor = some cursor ∧ page.confirmedTxids = [cursor]

/-- The pages form one chain: from the only first page each continues the one before, no cursor
is used twice, and the last page is empty or, where allowed, repeats its cursor. -/
structure ScanChain (allowSingletonDuplicateTerminal : Bool) (pages chain : List PageObservation) :
    Prop where
  perm : chain.Perm pages
  first : ∃ first rest, chain = first :: rest ∧ isFirstPage first ∧
    ∀ page ∈ rest, ¬ isFirstPage page
  follows : chain.IsChain PageObservation.Continues
  cursors : (chain.filterMap PageObservation.requestedCursor).Nodup
  ends : ∀ last ∈ chain.getLast?, last.membershipCount = 0 ∨
    allowSingletonDuplicateTerminal ∧ last.RepeatsCursor

/-! ## Lists in chain -/

section Lists

variable {α : Type*} {related : α → α → Prop} {first page : α} {rest : List α}

theorem exists_related_of_isChain (chain : (first :: rest).IsChain related) (member : page ∈ rest) :
    ∃ front earlier back, first :: rest = front ++ earlier :: page :: back ∧
      related earlier page := by
  induction rest generalizing first with
  | nil => exact absurd member List.not_mem_nil
  | cons next rest ih =>
    obtain ⟨joins, chain⟩ := List.isChain_cons_cons.mp chain
    rcases List.mem_cons.mp member with rfl | later
    · exact ⟨[], first, rest, rfl, joins⟩
    · obtain ⟨front, earlier, back, whole, relates⟩ := ih chain later
      exact ⟨first :: front, earlier, back, by rw [whole]; rfl, relates⟩

theorem isChain_and {other : α → α → Prop} {values : List α} (left : values.IsChain related)
    (right : values.IsChain other) :
    values.IsChain fun one two => related one two ∧ other one two := by
  induction left with
  | nil => exact .nil
  | singleton value => exact .singleton value
  | cons_cons relates _ ih =>
    obtain ⟨relates', right⟩ := List.isChain_cons_cons.mp right
    exact .cons_cons ⟨relates, relates'⟩ (ih right)

theorem perm_filter_id_ne {first : PageObservation} {rest pages : List PageObservation}
    (perm : (first :: rest).Perm pages)
    (nodup : ((first :: rest).map PageObservation.rawObservationSetId).Nodup) :
    rest.Perm
      (pages.filter fun page => page.rawObservationSetId ≠ first.rawObservationSetId) := by
  have kept := perm.filter fun page => page.rawObservationSetId ≠ first.rawObservationSetId
  rwa [List.filter_cons_of_neg (by simp), List.filter_eq_self.mpr ?_] at kept
  intro page member
  refine decide_eq_true fun same => ?_
  exact (List.nodup_cons.mp nodup).1 (same ▸ List.mem_map_of_mem member)

end Lists

/-! ## Links -/

section Links

variable {successors more : List (String × PageObservation)} {pages : List PageObservation}

theorem linkSuccessor_eq_ok_iff {page : PageObservation} :
    linkSuccessor successors page = .ok more ↔
      page.metadata.pageKind = .paginatedAfterConfirmed ∧ ∃ cursor,
        page.requestedCursor = some cursor ∧ cursor ∉ successors.map Prod.fst ∧
          successors ++ [(cursor, page)] = more := by
  unfold linkSuccessor
  by_cases paginated : page.metadata.pageKind = .paginatedAfterConfirmed
  · cases requested : page.requestedCursor with
    | none => simp [paginated]
    | some cursor =>
      simp only [paginated, ne_eq, not_true_eq_false, if_false, true_and, Option.some.injEq,
        exists_eq_left']
      by_cases taken : cursor ∈ successors.map Prod.fst
      · simp only [taken, if_true, reduceCtorEq, not_true_eq_false, false_and]
      · simp only [taken, if_false, Except.ok.injEq, not_false_eq_true, true_and]
  · simp [paginated]

theorem linkSuccessors_ok_iff :
    (∃ more, pages.foldlM linkSuccessor successors = .ok more) ↔
      (∀ page ∈ pages, page.metadata.pageKind = .paginatedAfterConfirmed ∧
        page.requestedCursor.isSome) ∧
      (pages.filterMap PageObservation.requestedCursor).Nodup ∧
      ∀ cursor ∈ pages.filterMap PageObservation.requestedCursor,
        cursor ∉ successors.map Prod.fst := by
  induction pages generalizing successors with
  | nil => simp [pure_eq_ok]
  | cons page rest ih =>
    rw [List.foldlM_cons, exists_bind_eq_ok, List.forall_mem_cons]
    simp only [linkSuccessor_eq_ok_iff, ih]
    constructor
    · rintro ⟨next, ⟨paginated, cursor, requested, isNew, isNext⟩, kinds, nodup, fresh⟩
      subst isNext
      simp only [List.map_append, List.map_cons, List.map_nil, List.mem_append,
        List.mem_singleton, not_or] at fresh
      rw [List.filterMap_cons_some requested, List.nodup_cons, List.forall_mem_cons]
      refine ⟨⟨⟨paginated, by rw [requested]; rfl⟩, kinds⟩, ⟨?_, nodup⟩, isNew, ?_⟩
      · exact fun again => (fresh cursor again).2 rfl
      · exact fun other member => (fresh other member).1
    · rintro ⟨⟨⟨paginated, isSome⟩, kinds⟩, nodup, fresh⟩
      obtain ⟨cursor, requested⟩ := Option.isSome_iff_exists.mp isSome
      rw [List.filterMap_cons_some requested] at nodup fresh
      obtain ⟨absent, nodup⟩ := List.nodup_cons.mp nodup
      obtain ⟨isNew, fresh⟩ := List.forall_mem_cons.mp fresh
      refine ⟨_, ⟨paginated, cursor, requested, isNew, rfl⟩, kinds, nodup, ?_⟩
      intro other member
      rw [List.map_append, List.mem_append, not_or]
      refine ⟨fresh other member, ?_⟩
      rw [List.map_cons, List.map_nil, List.mem_singleton]
      rintro rfl
      exact absent member

end Links

/-! ## The loop -/

section Loop

variable {allow : Bool} {successors : List (String × PageObservation)}
  {pages : List PageObservation} {rounds : ℕ} {visited observed : List String}
  {page : PageObservation}

theorem followPages_rounds {more : ℕ}
    (linked : ∀ cursor pair, find Prod.fst successors cursor = some pair → pair.2 ∈ pages)
    (member : page ∈ pages) (nodup : visited.Nodup)
    (contained : ∀ id ∈ visited, id ∈ pages.map PageObservation.rawObservationSetId)
    (enough : pages.length + 1 ≤ rounds + visited.length) (grows : rounds ≤ more) :
    followPages successors allow more visited observed page =
      followPages successors allow rounds visited observed page := by
  induction rounds generalizing more visited observed page with
  | zero =>
    have shorter := (nodup.subperm contained).length_le
    rw [List.length_map] at shorter
    omega
  | succ rounds ih =>
    obtain ⟨more, rfl⟩ := Nat.exists_eq_add_one_of_ne_zero
      (Nat.ne_of_gt (Nat.lt_of_lt_of_le (Nat.succ_pos rounds) grows))
    unfold followPages
    by_cases again : page.rawObservationSetId ∈ visited
    · rw [if_pos again, if_pos again]
    · rw [if_neg again, if_neg again]
      cases page.returnedCursor with
      | none => rfl
      | some cursor =>
        dsimp only
        cases next : find Prod.fst successors cursor with
        | none => rfl
        | some pair =>
          dsimp only
          rw [ih (linked cursor pair next) (List.nodup_cons.mpr ⟨again, nodup⟩) ?_ ?_
            (Nat.le_of_succ_le_succ grows)]
          · intro id inVisited
            rcases List.mem_cons.mp inVisited with rfl | before
            · exact List.mem_map_of_mem member
            · exact contained id before
          · rw [List.length_cons]
            omega

/-- What the loop returns when it ends: the ids and transactions of the pages of a chain, linked
by the successors up to a page that may be last. -/
structure Followed (allow : Bool) (successors : List (String × PageObservation))
    (visited observed : List String) (chain : List PageObservation)
    (result : List String × List String) : Prop where
  ids : result.1 = (chain.map PageObservation.rawObservationSetId).reverse ++ visited
  txids : result.2 = observed ++ chain.flatMap PageObservation.confirmedTxids
  fresh : ∀ page ∈ chain, page.rawObservationSetId ∉ visited
  nodup : (chain.map PageObservation.rawObservationSetId).Nodup
  linked : chain.IsChain fun earlier later => ∃ cursor, earlier.returnedCursor = some cursor ∧
    find Prod.fst successors cursor = some (cursor, later)
  ends : ∀ last ∈ chain.getLast?, last.returnedCursor = none ∧ last.membershipCount = 0 ∨
    allow = true ∧ last.membershipCount = 1 ∧ ∃ cursor, last.requestedCursor = some cursor ∧
      last.confirmedTxids.head? = some cursor

theorem followed_of_followPages {result : List String × List String}
    (keys : ∀ cursor pair, find Prod.fst successors cursor = some pair → pair.1 = cursor)
    (done : followPages successors allow rounds visited observed page = .ok result) :
    ∃ rest, Followed allow successors visited observed (page :: rest) result := by
  induction rounds generalizing visited observed page with
  | zero => cases done
  | succ rounds ih =>
    unfold followPages at done
    by_cases again : page.rawObservationSetId ∈ visited
    · rw [if_pos again] at done
      cases done
    rw [if_neg again] at done
    cases returned : page.returnedCursor with
    | none =>
      simp only [returned] at done
      split at done
      · cases done
      · rename_i empty
        rw [not_or, not_not, not_not] at empty
        cases done
        refine ⟨[], rfl, by simp, by simpa using again, List.nodup_singleton _, .singleton _, ?_⟩
        intro last isLast
        cases isLast
        exact .inl ⟨returned, empty.2⟩
    | some cursor =>
      simp only [returned] at done
      split at done
      · rename_i repeated
        split at done
        · rename_i terminal
          cases done
          obtain ⟨allowed, single, _, other, isCursor, isHead, _⟩ := of_decide_eq_true terminal
          refine ⟨[], rfl, by simp, by simpa using again, List.nodup_singleton _,
            .singleton _, ?_⟩
          intro last isLast
          cases isLast
          exact .inr ⟨allowed, single, other, isCursor, isHead⟩
        · cases done
      · cases isNext : find Prod.fst successors cursor with
        | none => simp [isNext] at done
        | some pair =>
          simp only [isNext] at done
          obtain ⟨rest, followed⟩ := ih done
          have isPair : pair = (cursor, pair.2) := Prod.ext (keys cursor pair isNext) rfl
          refine ⟨pair.2 :: rest, ?_, ?_, ?_, ?_, ?_, followed.ends⟩
          · rw [followed.ids]
            simp
          · rw [followed.txids]
            simp
          · intro other member
            rcases List.mem_cons.mp member with rfl | later
            · exact again
            · exact fun before => followed.fresh other later (List.mem_cons_of_mem _ before)
          · refine List.nodup_cons.mpr ⟨?_, followed.nodup⟩
            intro inRest
            obtain ⟨other, member, same⟩ := List.mem_map.mp inRest
            exact followed.fresh other member (same ▸ List.mem_cons_self)
          · refine .cons_cons ⟨cursor, returned, ?_⟩ followed.linked
            rw [isNext, ← isPair]

theorem followPages_of_chain {rest : List PageObservation}
    (fresh : ∀ other ∈ page :: rest, other.rawObservationSetId ∉ visited)
    (nodup : ((page :: rest).map PageObservation.rawObservationSetId).Nodup)
    (linked : (page :: rest).IsChain fun earlier later => ∃ cursor,
      earlier.returnedCursor = some cursor ∧ earlier.requestedCursor ≠ some cursor ∧
        find Prod.fst successors cursor = some (cursor, later))
    (ends : ∀ front last, page :: rest = front ++ [last] →
      last.returnedCursor = none ∧ last.metadata.itemCount = 0 ∧ last.membershipCount = 0 ∨
      isSingletonDuplicateTerminal allow last
          (observed ++ front.flatMap PageObservation.confirmedTxids) = true ∧
        ∃ cursor, last.returnedCursor = some cursor ∧ last.requestedCursor = some cursor)
    (enough : rest.length + 1 ≤ rounds) :
    followPages successors allow rounds visited observed page =
      .ok (((page :: rest).map PageObservation.rawObservationSetId).reverse ++ visited,
        observed ++ (page :: rest).flatMap PageObservation.confirmedTxids) := by
  induction rest generalizing rounds visited observed page with
  | nil =>
    obtain ⟨rounds, rfl⟩ := Nat.exists_eq_add_one_of_ne_zero (Nat.ne_of_gt enough)
    unfold followPages
    rw [if_neg (fresh page List.mem_cons_self)]
    rcases ends [] page rfl with
      ⟨returned, noItems, noMembers⟩ | ⟨terminal, cursor, returned, requested⟩
    · simp [returned, noItems, noMembers]
    · rw [List.flatMap_nil, List.append_nil] at terminal
      simp [returned, requested, terminal]
  | cons next rest ih =>
    obtain ⟨rounds, rfl⟩ := Nat.exists_eq_add_one_of_ne_zero
      (Nat.ne_of_gt (Nat.lt_of_lt_of_le (Nat.succ_pos _) enough))
    obtain ⟨⟨cursor, returned, advances, isNext⟩, linked⟩ := List.isChain_cons_cons.mp linked
    obtain ⟨absent, restNodup⟩ := List.nodup_cons.mp nodup
    unfold followPages
    rw [if_neg (fresh page List.mem_cons_self)]
    simp only [returned, advances, if_false, isNext]
    rw [ih ?_ restNodup linked ?_ (Nat.le_of_succ_le_succ enough)]
    · simp
    · intro other member before
      rcases List.mem_cons.mp before with same | earlier
      · exact absent (same ▸ List.mem_map_of_mem member)
      · exact fresh other (List.mem_cons_of_mem _ member) earlier
    · intro front last whole
      have placed := ends (page :: front) last (by rw [whole]; rfl)
      rwa [List.flatMap_cons, ← List.append_assoc] at placed

end Loop

/-! ## Chains and the loop -/

section Chains

variable {allow : Bool} {pages chain : List PageObservation} {expectation : ScanExpectation}

theorem scanChain_of_followed (consistent : ∀ page ∈ pages, page.Consistent)
    {first : PageObservation} {successors : List (String × PageObservation)}
    {result : List String × List String}
    (isFirst : pages.filter isFirstPage = [first])
    (linked : (pages.filter fun page => page.rawObservationSetId ≠ first.rawObservationSetId).foldlM
      linkSuccessor [] = .ok successors)
    {rest : List PageObservation}
    (followed : Followed allow successors [] [] (first :: rest) result)
    (all : result.1.length = pages.length) : ScanChain allow pages (first :: rest) := by
  have firstMember : first ∈ pages ∧ isFirstPage first = true :=
    List.mem_filter.mp (isFirst ▸ List.mem_singleton_self first)
  have successorMember : ∀ cursor pair, find Prod.fst successors cursor = some pair →
      pair.2 ∈ pages ∧ pair.2.rawObservationSetId ≠ first.rawObservationSetId ∧
        pair.2.requestedCursor = some cursor := by
    intro cursor pair isNext
    obtain ⟨member, requested, _⟩ := (find_successor_iff linked).mp isNext
    obtain ⟨inPages, other⟩ := List.mem_filter.mp member
    exact ⟨inPages, of_decide_eq_true other, requested⟩
  have restMember : ∀ page ∈ rest, page ∈ pages ∧
      page.rawObservationSetId ≠ first.rawObservationSetId := by
    intro page member
    obtain ⟨_, _, _, _, cursor, _, isNext⟩ := exists_related_of_isChain followed.linked member
    obtain ⟨inPages, other, _⟩ := successorMember cursor _ isNext
    exact ⟨inPages, other⟩
  have contained : ∀ page ∈ first :: rest, page ∈ pages := by
    intro page member
    rcases List.mem_cons.mp member with rfl | inRest
    · exact firstMember.1
    · exact (restMember page inRest).1
  have perm : (first :: rest).Perm pages := by
    refine (followed.nodup.of_map.subperm contained).perm_of_length_le ?_
    rw [followed.ids] at all
    simpa using all.ge
  have links := linkSuccessors_ok_iff.mp ⟨successors, linked⟩
  constructor
  case perm => exact perm
  case first =>
    refine ⟨first, rest, rfl, firstMember.2, ?_⟩
    intro page member isFirstKind
    have only : page ∈ pages.filter isFirstPage :=
      List.mem_filter.mpr ⟨(restMember page member).1, isFirstKind⟩
    rw [isFirst, List.mem_singleton] at only
    exact (restMember page member).2 (congrArg _ only)
  case follows =>
    refine List.IsChain.imp_of_mem_imp ?_ followed.linked
    rintro earlier later earlierMember laterMember ⟨cursor, returned, isNext⟩
    obtain ⟨inPages, other, requested⟩ := successorMember cursor _ isNext
    refine ⟨(links.1 later (List.mem_filter.mpr ⟨inPages, decide_eq_true other⟩)).1, cursor, ?_,
      requested⟩
    rw [← (consistent earlier (contained earlier earlierMember)).returned]
    exact returned
  case cursors =>
    have firstNone : first.requestedCursor = none := (of_decide_eq_true firstMember.2).2
    rw [List.filterMap_cons_none firstNone]
    have restPerm := perm_filter_id_ne perm followed.nodup
    exact ((restPerm.filterMap _).nodup_iff).mpr links.2.1
  case ends =>
    intro last isLast
    rcases followed.ends last isLast with ⟨_, empty⟩ | ⟨allowed, single, cursor, requested, isHead⟩
    · exact .inl empty
    · refine .inr ⟨allowed, single, cursor, requested, ?_⟩
      have short := (consistent last (contained last (List.mem_of_mem_getLast? isLast))).confirmed
      rw [single] at short
      cases txids : last.confirmedTxids with
      | nil => simp [txids] at isHead
      | cons txid others =>
        rw [txids, List.length_cons] at short
        rw [txids, List.head?_cons, Option.some.injEq] at isHead
        have noOthers : others = [] := List.eq_nil_of_length_eq_zero (by omega)
        rw [noOthers, isHead]

theorem ScanChain.followPages (isChain : ScanChain allow pages chain)
    (unique : (pages.map PageObservation.rawObservationSetId).Nodup)
    (consistent : ∀ page ∈ pages, page.Consistent) :
    ∃ first successors, pages.filter isFirstPage = [first] ∧
      (pages.filter fun page => page.rawObservationSetId ≠ first.rawObservationSetId).foldlM
        linkSuccessor [] = .ok successors ∧
      followPages successors allow (pages.length + 1) [] [] first =
        .ok ((chain.map PageObservation.rawObservationSetId).reverse,
          chain.flatMap PageObservation.confirmedTxids) := by
  obtain ⟨first, rest, rfl, isFirst, others⟩ := isChain.first
  have inPages : ∀ page ∈ first :: rest, page ∈ pages := fun page => isChain.perm.mem_iff.mp
  have nodup : ((first :: rest).map PageObservation.rawObservationSetId).Nodup :=
    (isChain.perm.map _).nodup_iff.mpr unique
  have firstNone : first.requestedCursor = none := (of_decide_eq_true isFirst).2
  have onlyFirst : pages.filter isFirstPage = [first] := by
    have kept := isChain.perm.filter isFirstPage
    rw [List.filter_cons_of_pos isFirst, List.filter_eq_nil_iff.mpr others] at kept
    exact List.perm_singleton.mp kept.symm
  have restPerm := perm_filter_id_ne isChain.perm nodup
  have advances := (List.pairwise_filterMap.mp isChain.cursors).isChain
  have cursors := isChain.cursors
  rw [List.filterMap_cons_none firstNone] at cursors
  have links : (∀ page ∈ pages.filter fun page =>
        page.rawObservationSetId ≠ first.rawObservationSetId,
        page.metadata.pageKind = .paginatedAfterConfirmed ∧ page.requestedCursor.isSome) ∧
      ((pages.filter fun page => page.rawObservationSetId ≠ first.rawObservationSetId).filterMap
        PageObservation.requestedCursor).Nodup := by
    refine ⟨?_, ((restPerm.filterMap _).nodup_iff).mp cursors⟩
    intro page member
    obtain ⟨_, _, _, _, paginated, cursor, _, requested⟩ :=
      exists_related_of_isChain isChain.follows (restPerm.mem_iff.mpr member)
    exact ⟨paginated, by rw [requested]; rfl⟩
  obtain ⟨successors, linked⟩ := (@linkSuccessors_ok_iff [] _).mpr
    ⟨links.1, links.2, fun _ _ => List.not_mem_nil⟩
  refine ⟨first, successors, onlyFirst, linked, ?_⟩
  have followed := @followPages_of_chain allow successors (pages.length + 1) [] [] first rest
    (fun _ _ => List.not_mem_nil) nodup ?_ ?_ ?_
  · rwa [List.append_nil, List.nil_append] at followed
  · -- The page after a cursor is the next one, and no page returns the cursor it was given.
    refine (isChain_and isChain.follows advances).imp_of_mem_tail_imp ?_
    rintro earlier later earlierMember laterMember ⟨⟨_, cursor, isLast, requested⟩, differ⟩
    refine ⟨cursor, ?_, ?_, ?_⟩
    · rw [(consistent earlier (inPages earlier earlierMember)).returned]
      exact isLast
    · exact fun same => differ cursor same cursor requested rfl
    · exact (find_successor_iff linked).mpr ⟨restPerm.mem_iff.mp laterMember, requested, rfl⟩
  · intro front last whole
    have isLast : last ∈ (first :: rest).getLast? := by rw [whole]; simp
    have lastConsistent := consistent last (inPages last (by rw [whole]; simp))
    rcases isChain.ends last isLast with empty | ⟨allowed, single, cursor, requested, txids⟩
    · have noTxids : last.confirmedTxids = [] := by
        have short := lastConsistent.confirmed
        rw [empty] at short
        exact List.eq_nil_of_length_eq_zero (Nat.le_zero.mp short)
      refine .inl ⟨?_, lastConsistent.itemCount.trans empty, empty⟩
      rw [lastConsistent.returned, noTxids]
      rfl
    · have returned : last.returnedCursor = some cursor := by
        rw [lastConsistent.returned, txids]
        rfl
      refine .inr ⟨?_, cursor, returned, requested⟩
      refine decide_eq_true ⟨allowed, single, requested.trans returned.symm, cursor, requested, ?_,
        ?_⟩
      · rw [txids]
        rfl
      · -- The repeated cursor is the last transaction of the page before.
        have notFirst : last ∈ rest := by
          have member : last ∈ first :: rest := by rw [whole]; simp
          rcases List.mem_cons.mp member with same | inRest
          · rw [same, firstNone] at requested
            cases requested
          · exact inRest
        obtain ⟨before, earlier, after, placed, _, other, isOther, requestedOther⟩ :=
          exists_related_of_isChain isChain.follows notFirst
        obtain rfl := Option.some.inj (requested.symm.trans requestedOther)
        have distinct : earlier ≠ last := by
          have chainNodup : (first :: rest).Nodup := nodup.of_map
          rw [placed] at chainNodup
          have tailNodup := (List.nodup_append.mp chainNodup).2.1
          exact fun same => (List.nodup_cons.mp tailNodup).1 (same ▸ List.mem_cons_self)
        have inFront : earlier ∈ front := by
          have member : earlier ∈ front ++ [last] := by rw [← whole, placed]; simp
          rcases List.mem_append.mp member with inside | atEnd
          · exact inside
          · exact absurd (List.mem_singleton.mp atEnd) distinct
        rw [List.nil_append]
        exact List.mem_flatMap.mpr ⟨earlier, inFront, List.mem_of_mem_getLast? isOther⟩
  · rw [← isChain.perm.length_eq, List.length_cons]
    exact Nat.le_succ _

theorem checkPages_ok_iff (unique : (pages.map PageObservation.rawObservationSetId).Nodup)
    (consistent : ∀ page ∈ pages, page.Consistent) :
    checkPages expectation pages = .ok () ↔ ∃ chain,
      ScanChain expectation.allowSingletonDuplicateTerminal pages chain ∧
      (chain.flatMap PageObservation.confirmedTxids).dedup.length =
        expectation.expectedConfirmedCount ∧
      ∀ txid, txid ∈ chain.flatMap PageObservation.confirmedTxids ↔
        txid ∈ expectation.canonicalTxids := by
  constructor
  · intro exact
    obtain ⟨first, successors, visited, observed, isFirst, linked, followed, all⟩ :=
      checkPages_spec exact
    obtain ⟨rest, chain⟩ := followed_of_followPages
      (fun cursor pair isNext => ((find_successor_iff linked).mp isNext).2.2) followed
    refine ⟨first :: rest, scanChain_of_followed consistent isFirst linked chain all, ?_⟩
    have observedEq : observed = (first :: rest).flatMap PageObservation.confirmedTxids :=
      chain.txids
    unfold checkPages at exact
    simp only [isFirst] at exact
    obtain ⟨_, again, exact⟩ := bind_eq_ok.mp exact
    obtain rfl := Except.ok.inj (linked.symm.trans again)
    obtain ⟨_, again, exact⟩ := bind_eq_ok.mp exact
    obtain rfl := Except.ok.inj (followed.symm.trans again)
    rw [← observedEq]
    dsimp only at exact
    rw [if_neg (not_not_intro all)] at exact
    by_cases counted : observed.dedup.length = expectation.expectedConfirmedCount
    · rw [if_neg (not_not_intro counted)] at exact
      by_cases same : (∀ txid ∈ observed, txid ∈ expectation.canonicalTxids) ∧
          ∀ txid ∈ expectation.canonicalTxids, txid ∈ observed
      · exact ⟨counted, fun txid => ⟨same.1 txid, same.2 txid⟩⟩
      · rw [if_pos same] at exact
        cases exact
    · rw [if_pos counted] at exact
      cases exact
  · rintro ⟨chain, isChain, counted, same⟩
    obtain ⟨first, successors, isFirst, linked, followed⟩ := isChain.followPages unique consistent
    have all : (chain.map PageObservation.rawObservationSetId).reverse.length = pages.length := by
      rw [List.length_reverse, List.length_map, isChain.perm.length_eq]
    unfold checkPages
    simp only [isFirst]
    refine bind_eq_ok.mpr ⟨successors, linked, bind_eq_ok.mpr ⟨_, followed, ?_⟩⟩
    simp [all, counted, same]

end Chains

/-! ## Reading recorded pages -/

section Recorded

variable (decode : String → Option MempoolAddressTransaction)

/-- The version behind a membership shows a transaction, confirmed or not. -/
def Shows (row : RawMempoolTransactionObservation × RawVersion String) (shown : String × Bool) :
    Prop :=
  parseTxHash "txid" row.2.identity = .ok shown.1 ∧ ∃ transaction,
    decode row.2.payloadBytes = some transaction ∧
      parseTxHash "txid" transaction.txid = .ok shown.1 ∧ transaction.status.confirmed = shown.2

/-- The confirmed transactions among those shown. -/
def confirmedOf (shown : List (String × Bool)) : List String :=
  (shown.filter fun pair => pair.2).map Prod.fst

/-- `page` is what the rows of a recorded page of the scan say. -/
structure Records (tables : RawTables) (addressId startRunId : String) (set : RawObservationSet)
    (page : PageObservation) : Prop where
  ofScan : set.metadata.addressId = addressId ∧ set.metadata.scanStartRunId = some startRunId
  row : page.rawObservationSetId = set.rawObservationSetId ∧ page.metadata = set.metadata
  requested : parseCursor set.metadata.requestedCursor = .ok page.requestedCursor
  returned : parseCursor set.metadata.returnedLastConfirmedCursor = .ok page.returnedCursor
  contiguous : (memberships tables set.rawObservationSetId).map (fun row => row.1.pageItemIndex) =
    List.range (memberships tables set.rawObservationSetId).length
  shows : ∃ shown, List.Forall₂ (Shows decode) (memberships tables set.rawObservationSetId) shown ∧
    page.confirmedTxids = confirmedOf shown
  counts : page.membershipCount = (memberships tables set.rawObservationSetId).length ∧
    set.metadata.itemCount = (memberships tables set.rawObservationSetId).length
  last : page.returnedCursor = page.confirmedTxids.getLast?

variable {decode} {tables : RawTables} {addressId startRunId : String} {set : RawObservationSet}
  {page : PageObservation}

theorem readMembership_eq_ok_iff {before next : ℕ × List String}
    {row : RawMempoolTransactionObservation × RawVersion String} :
    readMembership decode before row = .ok next ↔ row.1.pageItemIndex = before.1 ∧
      ∃ shown, Shows decode row shown ∧ (before.1 + 1, before.2 ++ confirmedOf [shown]) = next := by
  unfold readMembership Shows
  by_cases inPlace : row.1.pageItemIndex = before.1
  · simp only [inPlace, ne_eq, not_true_eq_false, if_false, true_and]
    cases parseTxHash "txid" row.2.identity with
    | error err => simp
    | ok txid =>
      cases decode row.2.payloadBytes with
      | none => simp
      | some transaction =>
        simp only [Except.ok.injEq, Option.some.injEq, exists_eq_left']
        cases parseTxHash "txid" transaction.txid with
        | error err => simp
        | ok payloadTxid =>
          by_cases sameTxid : payloadTxid = txid
          · subst sameTxid
            simp only [not_true_eq_false, if_false, Except.ok.injEq]
            constructor
            · rintro rfl
              refine ⟨(payloadTxid, transaction.status.confirmed), ⟨rfl, rfl, rfl⟩, ?_⟩
              cases transaction.status.confirmed <;> simp [confirmedOf]
            · rintro ⟨⟨_, _⟩, ⟨rfl, _, rfl⟩, rfl⟩
              cases transaction.status.confirmed <;> simp [confirmedOf]
          · simp only [sameTxid, not_false_eq_true, if_true, reduceCtorEq, false_iff,
              Except.ok.injEq]
            rintro ⟨_, ⟨isTxid, isPayload, _⟩, _⟩
            exact sameTxid (isPayload.trans isTxid.symm)
  · simp [inPlace]

theorem confirmedOf_cons (first : String × Bool) (others : List (String × Bool)) :
    confirmedOf (first :: others) = confirmedOf [first] ++ confirmedOf others := by
  rw [confirmedOf, ← List.singleton_append, List.filter_append, List.map_append]
  rfl

theorem readMemberships_eq_ok_iff {before result : ℕ × List String}
    {rows : List (RawMempoolTransactionObservation × RawVersion String)} :
    rows.foldlM (readMembership decode) before = .ok result ↔
      rows.map (fun row => row.1.pageItemIndex) = List.range' before.1 rows.length ∧
      ∃ shown, List.Forall₂ (Shows decode) rows shown ∧
        (before.1 + rows.length, before.2 ++ confirmedOf shown) = result := by
  induction rows generalizing before with
  | nil => simp [pure_eq_ok, confirmedOf]
  | cons row rest ih =>
    rw [List.foldlM_cons, bind_eq_ok]
    simp only [readMembership_eq_ok_iff, ih, List.map_cons, List.length_cons,
      List.range'_succ, List.cons.injEq]
    constructor
    · rintro ⟨_, ⟨inPlace, shown, isShown, rfl⟩, indices, others, areShown, rfl⟩
      refine ⟨⟨inPlace, indices⟩, shown :: others, .cons isShown areShown, ?_⟩
      rw [confirmedOf_cons shown others, List.append_assoc, Nat.add_right_comm, Nat.add_assoc]
    · rintro ⟨⟨inPlace, indices⟩, shown, areShown, isResult⟩
      obtain ⟨first, others, isShown, othersShown, rfl⟩ := List.forall₂_cons_left_iff.mp areShown
      refine ⟨_, ⟨inPlace, first, isShown, rfl⟩, indices, others, othersShown, ?_⟩
      rw [← isResult, confirmedOf_cons first others, List.append_assoc, Nat.add_right_comm,
        Nat.add_assoc]

theorem loadPageObservation_eq_ok_iff :
    loadPageObservation decode tables addressId startRunId set = .ok page ↔
      Records decode tables addressId startRunId set page := by
  have readAll : ∀ result, (memberships tables set.rawObservationSetId).foldlM
      (readMembership decode) (0, []) = .ok result ↔ _ :=
    fun _ => readMemberships_eq_ok_iff
  constructor
  · intro loaded
    unfold loadPageObservation at loaded
    by_cases ofScan : set.metadata.addressId ≠ addressId ∨
        set.metadata.scanStartRunId ≠ some startRunId
    · rw [if_pos ofScan] at loaded
      cases loaded
    rw [if_neg ofScan] at loaded
    obtain ⟨requestedCursor, requested, loaded⟩ := bind_eq_ok.mp loaded
    obtain ⟨returnedCursor, returned, loaded⟩ := bind_eq_ok.mp loaded
    obtain ⟨⟨membershipCount, confirmedTxids⟩, read, loaded⟩ := bind_eq_ok.mp loaded
    dsimp only at loaded
    by_cases counted : set.metadata.itemCount = membershipCount
    · rw [if_neg (not_not_intro counted)] at loaded
      by_cases last : returnedCursor = confirmedTxids.getLast?
      · rw [if_neg (not_not_intro last)] at loaded
        rw [pure_eq_ok] at loaded
        subst loaded
        obtain ⟨indices, shown, areShown, isResult⟩ := (readAll _).mp read
        rw [Prod.mk.injEq, Nat.zero_add, List.nil_append] at isResult
        rw [not_or, not_not, not_not] at ofScan
        exact ⟨ofScan, ⟨rfl, rfl⟩, requested, returned,
          by rw [indices, List.range_eq_range'], ⟨shown, areShown, isResult.2.symm⟩,
          ⟨isResult.1.symm, counted.trans isResult.1.symm⟩, last⟩
      · rw [if_pos last] at loaded
        cases loaded
    · rw [if_pos counted] at loaded
      cases loaded
  · intro records
    obtain ⟨shown, areShown, txids⟩ := records.shows
    have read := (readAll (page.membershipCount, page.confirmedTxids)).mpr
      ⟨by rw [records.contiguous, List.range_eq_range'], shown, areShown,
        by rw [records.counts.1, txids, Nat.zero_add, List.nil_append]⟩
    have ofScan : ¬ (set.metadata.addressId ≠ addressId ∨
        set.metadata.scanStartRunId ≠ some startRunId) := by
      rw [not_or, not_not, not_not]
      exact records.ofScan
    unfold loadPageObservation
    rw [if_neg ofScan]
    refine bind_eq_ok.mpr ⟨_, records.requested, bind_eq_ok.mpr ⟨_, records.returned,
      bind_eq_ok.mpr ⟨_, read, ?_⟩⟩⟩
    dsimp only
    rw [if_neg (not_not_intro (records.counts.2.trans records.counts.1.symm)),
      if_neg (not_not_intro records.last), pure_eq_ok, ← records.row.1, ← records.row.2]

theorem Records.consistent (records : Records decode tables addressId startRunId set page) :
    page.Consistent where
  returned := records.last
  itemCount := by rw [records.row.2, records.counts.1, records.counts.2]
  confirmed := by
    obtain ⟨shown, areShown, txids⟩ := records.shows
    rw [txids, confirmedOf, List.length_map, records.counts.1, areShown.length_eq]
    exact List.length_filter_le _ _

end Recorded

/-! ## The stored history -/

/-- The confirmed Bitcoin transactions with an output or an input at an address. -/
def confirmedBitcoinRows (db : TransactionTables) (addressId : String) :
    List ChainTransactionRow :=
  db.chainTransactions.filter fun row =>
    row.key.assetId = .bitcoin ∧ row.status = .confirmed ∧
      ((∃ output ∈ db.transactionOutputs, output.txKey = row.key ∧ output.addressId = addressId) ∨
        ∃ input ∈ db.transactionInputs, input.txKey = row.key ∧ input.addressId = addressId)

/-- A stored hash; what `parseTxHash` puts before the reason is not part of this error. -/
def parseStoredTxHash (raw : String) : Except Amounts.DbError String :=
  (parseTxHash "" raw).mapError fun err =>
    ⟨"Invalid bitcoin tx hash in DB: " ++
      String.ofList (err.message.toList.drop " parse error: ".length)⟩

/-- `load_confirmed_bitcoin_tx_hashes_for_address_conn`. -/
def loadConfirmedBitcoinTxHashes (db : TransactionTables) (addressId : String) :
    Except Amounts.DbError (List String) :=
  (confirmedBitcoinRows db addressId).mapM fun row => parseStoredTxHash row.key.txHash

/-- `validate_strict_mempool_history_scan`, over the tables it reads. -/
def validateStrictMempoolHistoryScanConn (decode : String → Option MempoolAddressTransaction)
    (tables : RawTables) (db : TransactionTables) (addressId startRunId : String)
    (expectedConfirmedCount : ℕ) (allowSingletonDuplicateTerminal : Bool) :
    Except Amounts.DbError StrictMempoolScanValidation :=
  match loadConfirmedBitcoinTxHashes db addressId with
  | .ok canonicalTxids =>
    .ok (validateStrictMempoolHistoryScan decode tables addressId startRunId
      ⟨expectedConfirmedCount, canonicalTxids, allowSingletonDuplicateTerminal⟩)
  | .error err =>
    -- The stored history is read last: an earlier reason to restart is returned first.
    match checkScan decode tables addressId startRunId
        ⟨expectedConfirmedCount, [], allowSingletonDuplicateTerminal⟩ with
    | .ok () => .error err
    | .error reason =>
      if reason = "Mempool scan transactions do not exactly match canonical history" then
        .error err
      else
        .ok (.restart reason)

/-- The row is a confirmed Bitcoin transaction with an output or an input at the address. -/
def StoredAt (db : TransactionTables) (addressId : String) (row : ChainTransactionRow) : Prop :=
  row ∈ db.chainTransactions ∧ row.key.assetId = .bitcoin ∧ row.status = .confirmed ∧
    ((∃ output ∈ db.transactionOutputs,
        output.txKey = row.key ∧ output.addressId = addressId) ∨
      ∃ input ∈ db.transactionInputs, input.txKey = row.key ∧ input.addressId = addressId)

/-- The pages recorded since the start run form one chain with the stored transactions. -/
structure ExactScan (decode : String → Option MempoolAddressTransaction) (tables : RawTables)
    (db : TransactionTables) (addressId startRunId : String) (expectedConfirmedCount : ℕ)
    (allowSingletonDuplicateTerminal : Bool) : Prop where
  started : startRunId ∈ tables.runs.map SyncRun.syncRunId
  readable : ∀ row, StoredAt db addressId row →
    ∃ txid, parseStoredTxHash row.key.txHash = .ok txid
  chained : ∃ pages chain,
    List.Forall₂ (Records decode tables addressId startRunId)
      (scanSets tables addressId startRunId) pages ∧
    ScanChain allowSingletonDuplicateTerminal pages chain ∧
    (chain.flatMap PageObservation.confirmedTxids).dedup.length = expectedConfirmedCount ∧
    ∀ txid, txid ∈ chain.flatMap PageObservation.confirmedTxids ↔
      ∃ row, StoredAt db addressId row ∧ parseStoredTxHash row.key.txHash = .ok txid

section Exact

variable {decode : String → Option MempoolAddressTransaction} {tables : RawTables}
  {db : TransactionTables} {addressId startRunId : String} {expectation : ScanExpectation}

theorem mem_confirmedBitcoinRows {row : ChainTransactionRow} :
    row ∈ confirmedBitcoinRows db addressId ↔ StoredAt db addressId row := by
  unfold confirmedBitcoinRows StoredAt
  rw [List.mem_filter, decide_eq_true_iff]

/-- The transactions read for an address are those of the rows stored there. -/
theorem mem_of_loadConfirmedBitcoinTxHashes {stored : List String}
    (loaded : loadConfirmedBitcoinTxHashes db addressId = .ok stored) (txid : String) :
    txid ∈ stored ↔
      ∃ row, StoredAt db addressId row ∧ parseStoredTxHash row.key.txHash = .ok txid := by
  obtain ⟨each, only⟩ := mem_of_mapM_eq_ok loaded
  constructor
  · intro member
    obtain ⟨row, listed, read⟩ := only txid member
    exact ⟨row, mem_confirmedBitcoinRows.mp listed, read⟩
  · rintro ⟨row, isStored, read⟩
    obtain ⟨other, member, readOther⟩ := each row (mem_confirmedBitcoinRows.mpr isStored)
    obtain rfl := Except.ok.inj (read.symm.trans readOther)
    exact member

theorem scanSets_ids_nodup
    (unique : (tables.sets.map RawObservationSet.rawObservationSetId).Nodup) :
    ((scanSets tables addressId startRunId).map RawObservationSet.rawObservationSetId).Nodup :=
  (((List.perm_insertionSort _ _).map _).nodup_iff).mpr
    (unique.sublist (List.filter_sublist.map _))

theorem map_id_of_records {sets : List RawObservationSet} {pages : List PageObservation}
    (records : List.Forall₂ (Records decode tables addressId startRunId) sets pages) :
    pages.map PageObservation.rawObservationSetId =
      sets.map RawObservationSet.rawObservationSetId := by
  induction records with
  | nil => rfl
  | cons record _ ih => rw [List.map_cons, List.map_cons, record.row.1, ih]

theorem consistent_of_records {sets : List RawObservationSet} {pages : List PageObservation}
    (records : List.Forall₂ (Records decode tables addressId startRunId) sets pages) :
    ∀ page ∈ pages, page.Consistent := by
  induction records with
  | nil => exact fun page member => absurd member List.not_mem_nil
  | cons record _ ih => exact List.forall_mem_cons.mpr ⟨record.consistent, ih⟩

theorem mapM_load_eq_ok_iff {pages : List PageObservation} :
    (scanSets tables addressId startRunId).mapM
        (loadPageObservation decode tables addressId startRunId) = .ok pages ↔
      List.Forall₂ (Records decode tables addressId startRunId)
        (scanSets tables addressId startRunId) pages := by
  rw [mapM_eq_ok_iff_forall₂]
  simp only [loadPageObservation_eq_ok_iff]

theorem checkScan_ok_iff (unique : (tables.sets.map RawObservationSet.rawObservationSetId).Nodup) :
    checkScan decode tables addressId startRunId expectation = .ok () ↔
      startRunId ∈ tables.runs.map SyncRun.syncRunId ∧ ∃ pages chain,
        List.Forall₂ (Records decode tables addressId startRunId)
          (scanSets tables addressId startRunId) pages ∧
        ScanChain expectation.allowSingletonDuplicateTerminal pages chain ∧
        (chain.flatMap PageObservation.confirmedTxids).dedup.length =
          expectation.expectedConfirmedCount ∧
        ∀ txid, txid ∈ chain.flatMap PageObservation.confirmedTxids ↔
          txid ∈ expectation.canonicalTxids := by
  have pagesUnique : ∀ pages, List.Forall₂ (Records decode tables addressId startRunId)
      (scanSets tables addressId startRunId) pages →
      (pages.map PageObservation.rawObservationSetId).Nodup := by
    intro pages records
    rw [map_id_of_records records]
    exact scanSets_ids_nodup unique
  constructor
  · intro exact
    obtain ⟨started, pages, loaded, _, checked⟩ := checkScan_spec exact
    have records := mapM_load_eq_ok_iff.mp loaded
    obtain ⟨chain, isChain⟩ := (checkPages_ok_iff (pagesUnique pages records)
      (consistent_of_records records)).mp checked
    exact ⟨started, pages, chain, records, isChain⟩
  · rintro ⟨started, pages, chain, records, isChain⟩
    unfold checkScan
    rw [if_neg (not_not_intro started)]
    exact bind_eq_ok.mpr ⟨pages, mapM_load_eq_ok_iff.mpr records,
      (checkPages_ok_iff (pagesUnique pages records) (consistent_of_records records)).mpr
        ⟨chain, isChain⟩⟩

end Exact

/-- **A strict scan is validated exactly.** With page rows told apart by their ids, the result is
`exact` if and only if the recorded pages form one chain with the stored transactions; otherwise
it is a reason to restart or an error. The loop over the links ends within one round more than
there are pages, whatever the bound on its rounds. -/
theorem validateStrictMempoolHistoryScan_exact
    (decode : String → Option MempoolAddressTransaction) (tables : RawTables)
    (unique : (tables.sets.map RawObservationSet.rawObservationSetId).Nodup)
    (db : TransactionTables) (addressId startRunId : String) (expectedConfirmedCount : ℕ)
    (allowSingletonDuplicateTerminal : Bool) :
    (validateStrictMempoolHistoryScanConn decode tables db addressId startRunId
          expectedConfirmedCount allowSingletonDuplicateTerminal = .ok .exact ↔
        ExactScan decode tables db addressId startRunId expectedConfirmedCount
          allowSingletonDuplicateTerminal) ∧
      (¬ ExactScan decode tables db addressId startRunId expectedConfirmedCount
          allowSingletonDuplicateTerminal →
        (∃ reason, validateStrictMempoolHistoryScanConn decode tables db addressId startRunId
            expectedConfirmedCount allowSingletonDuplicateTerminal = .ok (.restart reason)) ∨
          ∃ err, validateStrictMempoolHistoryScanConn decode tables db addressId startRunId
            expectedConfirmedCount allowSingletonDuplicateTerminal = .error err) ∧
      ∀ pages first successors,
        (scanSets tables addressId startRunId).mapM
          (loadPageObservation decode tables addressId startRunId) = .ok pages →
        pages.filter isFirstPage = [first] →
        (pages.filter fun page =>
          page.rawObservationSetId ≠ first.rawObservationSetId).foldlM linkSuccessor [] =
            .ok successors →
        ∀ rounds, pages.length + 1 ≤ rounds →
          followPages successors allowSingletonDuplicateTerminal rounds [] [] first =
            followPages successors allowSingletonDuplicateTerminal (pages.length + 1) [] []
              first := by
  have exactIff : validateStrictMempoolHistoryScanConn decode tables db addressId startRunId
      expectedConfirmedCount allowSingletonDuplicateTerminal = .ok .exact ↔
      ExactScan decode tables db addressId startRunId expectedConfirmedCount
        allowSingletonDuplicateTerminal := by
    unfold validateStrictMempoolHistoryScanConn
    cases loaded : loadConfirmedBitcoinTxHashes db addressId with
    | ok stored =>
      have isStored := mem_of_loadConfirmedBitcoinTxHashes loaded
      have reads : ∀ row, StoredAt db addressId row →
          ∃ txid, parseStoredTxHash row.key.txHash = .ok txid := fun row isRow =>
        exists_mapM_eq_ok.mp ⟨stored, loaded⟩ row (mem_confirmedBitcoinRows.mpr isRow)
      rw [Except.ok.injEq, validate_eq_exact_iff, checkScan_ok_iff unique]
      simp only [isStored]
      exact ⟨fun ⟨started, chained⟩ => ⟨started, reads, chained⟩,
        fun ⟨started, _, chained⟩ => ⟨started, chained⟩⟩
    | error err =>
      refine iff_of_false ?_ ?_
      · dsimp only
        split
        · exact fun exact => nomatch exact
        · split
          · exact fun exact => nomatch exact
          · exact fun exact => nomatch exact
      · rintro ⟨_, reads, _⟩
        obtain ⟨stored, found⟩ := exists_mapM_eq_ok.mpr fun row listed =>
          reads row (mem_confirmedBitcoinRows.mp listed)
        cases loaded.symm.trans found
  refine ⟨exactIff, ?_, ?_⟩
  · intro inexact
    cases result : validateStrictMempoolHistoryScanConn decode tables db addressId startRunId
        expectedConfirmedCount allowSingletonDuplicateTerminal with
    | error err => exact .inr ⟨err, rfl⟩
    | ok validation =>
      cases validation with
      | exact => exact absurd (exactIff.mp result) inexact
      | restart reason => exact .inl ⟨reason, rfl⟩
  · intro pages first successors _ isFirst linked rounds enough
    have firstMember : first ∈ pages :=
      (List.mem_filter.mp (isFirst ▸ List.mem_singleton_self first)).1
    refine followPages_rounds ?_ firstMember List.nodup_nil
      (fun id inVisited => absurd inVisited List.not_mem_nil) le_rfl enough
    intro cursor pair isNext
    exact (List.mem_filter.mp ((find_successor_iff linked).mp isNext).1).1

/-- A first page with one confirmed transaction, and the empty page after it. -/
def twoPages (txid : String) : RawTables where
  runs := [⟨"run", "mempool", .started, 0⟩]
  versions := [⟨"version", "mempool", .mainnet, txid, "payload", 1, none⟩]
  sets := [⟨"first", "run", ⟨"address", some "run", .firstPage, none, some txid, 1⟩, 1⟩,
    ⟨"last", "run", ⟨"address", some "run", .paginatedAfterConfirmed, some txid, none, 0⟩, 2⟩]
  observations := [⟨"observation", "run", "mempool", "first", "version", 0, 1⟩]

/-- One confirmed transaction with an output at the address. -/
def oneStored (txid : String) : TransactionTables where
  chainTransactions :=
    [⟨⟨.bitcoin, .mainnet, txid⟩, .confirmed, some 100, none, none, none, none, none⟩]
  transactionInputs := []
  transactionOutputs := [⟨⟨.bitcoin, .mainnet, txid⟩, 0, "address", none, "", 0, 7⟩]
  utxos := []
  accountTransfers := []

theorem validateStrictMempoolHistoryScan_exact_twoPages : ∃ txid,
    ExactScan (fun _ => some ⟨txid, [], [], none, ⟨true, none, none, none⟩⟩) (twoPages txid)
      (oneStored txid) "address" "run" 1 false := by
  refine ⟨"aaaaaaaaaaaaaaaaaaaaaaaaaaaaaaaaaaaaaaaaaaaaaaaaaaaaaaaaaaaaaaaa", ?_⟩
  exact (validateStrictMempoolHistoryScan_exact _ (twoPages _) (by decide) (oneStored _) "address"
    "run" 1 false).1.mp (by decide +kernel)

end Bitgarth.Mempool
