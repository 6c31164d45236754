import Mathlib.Data.List.Dedup
import Mathlib.Data.List.SplitBy
import Mathlib.Data.Int.ConditionallyCompleteOrder
import Mathlib.Order.ConditionallyCompleteLattice.Basic
import Mathlib.Order.WithBot
import Bitgarth.Foundation.EulerTrail
import Bitgarth.Foundation.RowSelection
import Bitgarth.Export.Chain

/-! # Ordering exported Bitcoin rows

The export does not store the dependency order of a block. It recovers one from the
balances: within a height each row is an arc from its opening to its closing balance,
and the rows are put along a trail that continues the previous height. The start of the
first height is guessed from the degrees of its balances. `orderNatives_spec` shows
that a right guess restores a chain.
-/

namespace Bitgarth.Export

open Amounts

/-- An absent height sorts before every height. -/
def heightRank : Option ℤ → WithBot ℤ
  | none => ⊥
  | some height => (height : WithBot ℤ)

/-- Order of Bitcoin rows before balances are considered. -/
def AggregatedAccountTransaction.blockKey (row : AggregatedAccountTransaction) :
    WithBot ℤ ×ₗ ℤ ×ₗ String :=
  toLex (heightRank row.blockHeight, toLex (row.occurredAt, row.txHash))

/-- A row as an arc from its opening to its closing balance. -/
structure BalanceEdge where
  row : AggregatedAccountTransaction
  opening : ℤ
  closing : ℤ
deriving DecidableEq

/-- The order a hash map yields its keys in, which is not specified. -/
structure HashOrder where
  iterate : List ℤ → List ℤ
  perm : ∀ keys, (iterate keys).Perm keys

/-- The keys as they were listed. -/
def HashOrder.asListed : HashOrder := ⟨id, fun _ => .refl _⟩

/-- The arc of a row. -/
def balanceEdge (accountId : String) (row : AggregatedAccountTransaction) :
    Except ExportEngineError BalanceEdge :=
  match row.closingBalance.bind UnsignedAmount.trySigned with
  | none =>
    .error (.invariant
      ("Bitcoin ledger row lacks a representable closing balance for account " ++ accountId))
  | some closing =>
    match checkedSub closing row.balanceDelta with
    | none =>
      .error (.invariant ("Bitcoin ledger opening balance overflow for account " ++ accountId))
    | some opening => .ok { row, opening, closing }

/-- Departures minus arrivals, the `degree` map of a height. -/
def degree (edges : List BalanceEdge) (balance : ℤ) : ℤ :=
  EulerTrail.surplus BalanceEdge.opening BalanceEdge.closing edges balance

/-- The balances of a height, the keys of its `degree` map. -/
def balanceKeys (edges : List BalanceEdge) : List ℤ :=
  (edges.flatMap fun edge => [edge.opening, edge.closing]).dedup

/-- Where the trail of a height starts: the previous closing balance, or else a balance
of degree one, or else the opening balance of the first row. -/
def initialBalance (hashOrder : HashOrder) (previousBalance : Option ℤ)
    (edges : List BalanceEdge) : ℤ :=
  match previousBalance with
  | some balance => balance
  | none =>
    match (hashOrder.iterate (balanceKeys edges)).find? fun balance =>
        degree edges balance = 1 with
    | some balance => balance
    | none => (edges.map BalanceEdge.opening).headD 0

/-- Order the rows of one height along a trail. -/
def orderGroup (hashOrder : HashOrder) (accountId : String) (previousBalance : Option ℤ)
    (group : List AggregatedAccountTransaction) : Except ExportEngineError (List BalanceEdge) := do
  let edges ← group.mapM (balanceEdge accountId)
  let ordered := EulerTrail.hierholzer BalanceEdge.opening BalanceEdge.closing edges
    (initialBalance hashOrder previousBalance edges)
  if ordered.length ≠ group.length then
    .error (.invariant ("Bitcoin ledger chain cannot be ordered for account " ++ accountId))
  else
    return ordered

/-- Order each height in turn, continuing from the previous closing balance. -/
def orderGroups (hashOrder : HashOrder) (accountId : String) :
    Option ℤ → List (List AggregatedAccountTransaction) →
      Except ExportEngineError (List AggregatedAccountTransaction)
  | _, [] => .ok []
  | previousBalance, group :: rest => do
      let ordered ← orderGroup hashOrder accountId previousBalance group
      let later ← orderGroups hashOrder accountId (ordered.getLast?.map BalanceEdge.closing) rest
      return ordered.map BalanceEdge.row ++ later

/-- Maximal runs of rows of one height. -/
def heightGroups (rows : List AggregatedAccountTransaction) :
    List (List AggregatedAccountTransaction) :=
  rows.splitBy fun left right => left.blockHeight == right.blockHeight

/-- Ledger rows by height, time and hash. -/
def sortByBlock (rows : List AggregatedAccountTransaction) : List AggregatedAccountTransaction :=
  rows.insertionSort fun left right => left.blockKey ≤ right.blockKey

def isNative : ExportAccountTransaction → Bool
  | .native _ => true
  | .manualAssertion _ => false

/-- `order_bitcoin_native_transactions`; it orders the leading ledger rows. -/
def orderBitcoinNativeTransactions (hashOrder : HashOrder) (accountId : String)
    (transactions : List ExportAccountTransaction) :
    Except ExportEngineError (List ExportAccountTransaction) := do
  let ordered ← orderGroups hashOrder accountId none
    (heightGroups (sortByBlock (natives (transactions.takeWhile isNative))))
  return ordered.map .native ++ transactions.dropWhile isNative

/-! ## Rows as arcs -/

/-- The closing balance of a row, zero when it has none. -/
def closingValue (row : AggregatedAccountTransaction) : ℤ :=
  (row.closingBalance.map fun closing => (closing.value : ℤ)).getD 0

/-- The arc a row has when its balances are representable. -/
def edgeOf (row : AggregatedAccountTransaction) : BalanceEdge where
  row := row
  opening := closingValue row - row.balanceDelta
  closing := closingValue row

/-- Closing and opening balances exist and fit the signed range. -/
def HasEdge (row : AggregatedAccountTransaction) : Prop :=
  ∃ closing, row.closingBalance = some closing ∧ (closing.value : ℤ) ≤ i128Max ∧
    i128Min ≤ closing.value - row.balanceDelta ∧ closing.value - row.balanceDelta ≤ i128Max

section Edges

variable {accountId : String} {rows group : List AggregatedAccountTransaction} {start final : ℤ}

theorem balanceEdge_eq_ok {row : AggregatedAccountTransaction} (has : HasEdge row) :
    balanceEdge accountId row = .ok (edgeOf row) := by
  obtain ⟨closing, balance, fits, lower, upper⟩ := has
  have signed : closing.trySigned = some closing.value :=
    UnsignedAmount.trySigned_eq_some.mpr ⟨rfl, fits⟩
  have subtracted : checkedSub closing.value row.balanceDelta =
      some (closing.value - row.balanceDelta) := checkedSub_eq_some.mpr ⟨rfl, lower, upper⟩
  simp [balanceEdge, edgeOf, closingValue, balance, signed, subtracted]

theorem Chained.isTrail (chained : Chained start rows) :
    EulerTrail.IsTrail BalanceEdge.opening BalanceEdge.closing start (rows.map edgeOf)
      (finalBalance start rows) := by
  induction rows generalizing start with
  | nil => simp [EulerTrail.IsTrail]
  | cons row rest ih =>
    obtain ⟨⟨closing, balance, value⟩, tail⟩ := chained
    have closes : closingValue row = start + row.balanceDelta := by
      simp [closingValue, balance, value]
    rw [finalBalance_cons]
    refine ⟨?_, ?_⟩
    · simp only [edgeOf, closes]
      omega
    · simp only [edgeOf, closes]
      exact ih tail

theorem chained_of_isTrail (closes : ∀ row ∈ rows, row.closingBalance.isSome)
    (trail : EulerTrail.IsTrail BalanceEdge.opening BalanceEdge.closing start
      (rows.map edgeOf) final) : Chained start rows := by
  induction rows generalizing start with
  | nil => trivial
  | cons row rest ih =>
    obtain ⟨opens, tail⟩ := trail
    obtain ⟨closing, balance⟩ := Option.isSome_iff_exists.mp (closes row List.mem_cons_self)
    have value : closingValue row = closing.value := by simp [closingValue, balance]
    simp only [edgeOf] at opens tail
    have next : closingValue row = start + row.balanceDelta := by omega
    refine ⟨⟨closing, balance, by omega⟩, ?_⟩
    rw [next] at tail
    exact ih (fun other later => closes other (List.mem_cons_of_mem _ later)) tail

theorem initialBalance_none_of_net (hashOrder : HashOrder)
    {settled : List AggregatedAccountTransaction}
    (perm : settled.Perm group) (chained : Chained start settled)
    (net : finalBalance start group ≠ start) :
    initialBalance hashOrder none (group.map edgeOf) = start := by
  have degrees : ∀ balance, degree (group.map edgeOf) balance =
      (if start = balance then 1 else 0) - if finalBalance start group = balance then 1 else 0 := by
    intro balance
    unfold degree
    rw [← EulerTrail.surplus_perm (perm.map edgeOf), EulerTrail.surplus_of_isTrail chained.isTrail,
      finalBalance_perm perm]
  have only : ∀ balance, degree (group.map edgeOf) balance = 1 → balance = start := by
    intro balance one
    rw [degrees] at one
    by_contra differs
    rw [if_neg (Ne.symm differs)] at one
    split at one <;> omega
  have listed : start ∈ balanceKeys (group.map edgeOf) := by
    cases settled with
    | nil =>
      rw [List.nil_perm.mp perm] at net
      exact absurd (finalBalance_nil start) net
    | cons row rest =>
      have opens := chained.isTrail.1
      have member : row ∈ group := perm.mem_iff.mp List.mem_cons_self
      refine List.mem_dedup.mpr (List.mem_flatMap.mpr ⟨edgeOf row, List.mem_map_of_mem member, ?_⟩)
      rw [opens]
      exact List.mem_cons_self
  have one : degree (group.map edgeOf) start = 1 := by
    rw [degrees, if_pos rfl, if_neg net]
    rfl
  unfold initialBalance
  cases found : (hashOrder.iterate (balanceKeys (group.map edgeOf))).find? fun balance =>
      degree (group.map edgeOf) balance = 1 with
  | some balance => exact only balance (by simpa using List.find?_some found)
  | none =>
    have present := (hashOrder.perm _).mem_iff.mpr listed
    exact absurd (decide_eq_true one) (List.find?_eq_none.mp found start present)

theorem initialBalance_none_of_no_net (hashOrder : HashOrder)
    {settled : List AggregatedAccountTransaction} (perm : settled.Perm group)
    (chained : Chained start settled) (net : finalBalance start group = start)
    {first : AggregatedAccountTransaction} {rest : List AggregatedAccountTransaction}
    (shape : group = first :: rest) :
    initialBalance hashOrder none (group.map edgeOf) = (edgeOf first).opening := by
  have no_start : ∀ balance, degree (group.map edgeOf) balance = 0 := by
    intro balance
    unfold degree
    rw [← EulerTrail.surplus_perm (perm.map edgeOf), EulerTrail.surplus_of_isTrail chained.isTrail,
      finalBalance_perm perm, net, sub_self]
  unfold initialBalance
  have missing : ((hashOrder.iterate (balanceKeys (group.map edgeOf))).find? fun balance =>
      degree (group.map edgeOf) balance = 1) = none := by
    rw [List.find?_eq_none]
    intro balance _
    simp [no_start balance]
  rw [missing, shape]
  rfl

theorem exists_rows_of_edges {edges : List BalanceEdge} (perm : edges.Perm (group.map edgeOf)) :
    ∃ ordered : List AggregatedAccountTransaction,
      ordered.Perm group ∧ ordered.map edgeOf = edges := by
  refine ⟨edges.map BalanceEdge.row, ?_, ?_⟩
  · have rows := perm.map BalanceEdge.row
    rwa [List.map_map, show BalanceEdge.row ∘ edgeOf = id from rfl, List.map_id] at rows
  · rw [List.map_map]
    refine (List.map_congr_left fun edge member => ?_).trans (List.map_id _)
    obtain ⟨row, _, rfl⟩ := List.mem_map.mp (perm.mem_iff.mp member)
    rfl

theorem HasEdge.isSome {row : AggregatedAccountTransaction} (has : HasEdge row) :
    row.closingBalance.isSome := by
  obtain ⟨closing, balance, _⟩ := has
  rw [balance]
  rfl

theorem exists_chained_from_opening {settled : List AggregatedAccountTransaction}
    (has : ∀ row ∈ group, HasEdge row) (perm : settled.Perm group)
    (chained : Chained start settled) (net : finalBalance start group = start)
    {first : AggregatedAccountTransaction} (member : first ∈ group) :
    ∃ rotated : List AggregatedAccountTransaction,
      rotated.Perm group ∧ Chained (edgeOf first).opening rotated := by
  have closed := chained.isTrail
  rw [finalBalance_perm perm, net] at closed
  obtain ⟨edges, edgesPerm, trail⟩ := EulerTrail.exists_rotation closed
    (List.mem_map_of_mem (perm.mem_iff.mpr member))
  obtain ⟨rotated, rotatedPerm, rfl⟩ := exists_rows_of_edges edgesPerm
  refine ⟨rotated, rotatedPerm.trans perm, chained_of_isTrail (fun row inRotated => ?_) trail⟩
  exact (has row ((rotatedPerm.trans perm).mem_iff.mp inRotated)).isSome

theorem exists_chained_from_initial (hashOrder : HashOrder)
    {settled : List AggregatedAccountTransaction} (has : ∀ row ∈ group, HasEdge row)
    (perm : settled.Perm group) (chained : Chained start settled) (nonempty : group ≠ []) :
    ∃ rotated : List AggregatedAccountTransaction, rotated.Perm group ∧
      Chained (initialBalance hashOrder none (group.map edgeOf)) rotated := by
  by_cases net : finalBalance start group = start
  · obtain ⟨first, rest, shape⟩ := List.exists_cons_of_ne_nil nonempty
    rw [initialBalance_none_of_no_net hashOrder perm chained net shape]
    exact exists_chained_from_opening has perm chained net (by simp [shape])
  · rw [initialBalance_none_of_net hashOrder perm chained net]
    exact ⟨settled, perm, chained⟩

variable (accountId) in
theorem orderGroup_spec {hashOrder : HashOrder} {previousBalance : Option ℤ}
    {settled : List AggregatedAccountTransaction} (has : ∀ row ∈ group, HasEdge row)
    (perm : settled.Perm group) (chained : Chained start settled)
    (starts : initialBalance hashOrder previousBalance (group.map edgeOf) = start) :
    ∃ ordered : List AggregatedAccountTransaction,
      orderGroup hashOrder accountId previousBalance group = .ok (ordered.map edgeOf) ∧
        ordered.Perm group ∧ Chained start ordered := by
  obtain ⟨edgesPerm, trail⟩ :=
    EulerTrail.hierholzer_isTrail (perm.map edgeOf) chained.isTrail
  obtain ⟨ordered, orderedPerm, shape⟩ := exists_rows_of_edges edgesPerm
  refine ⟨ordered, ?_, orderedPerm, ?_⟩
  · unfold orderGroup
    rw [Fallible.mapM_eq_ok_map fun row member => balanceEdge_eq_ok (has row member)]
    refine Fallible.bind_eq_ok.mpr ⟨group.map edgeOf, rfl, ?_⟩
    simp only [starts, ← shape, List.length_map, orderedPerm.length_eq, ne_eq, not_true_eq_false,
      if_false]
    rfl
  · refine chained_of_isTrail (fun row member => ?_) (shape ▸ trail)
    exact (has row (orderedPerm.mem_iff.mp member)).isSome

end Edges

/-! ## Heights in turn -/

/-- Groups of one height each, in strictly ascending order of height. -/
def Ascending : List (List AggregatedAccountTransaction) → Prop
  | [] => True
  | group :: rest => group ≠ [] ∧ (∃ height, (∀ row ∈ group, row.blockHeight = height) ∧
      ∀ row ∈ rest.flatten, heightRank height < heightRank row.blockHeight) ∧ Ascending rest

/-- Block heights never decrease. -/
def ByHeight (rows : List AggregatedAccountTransaction) : Prop :=
  rows.Pairwise fun left right => heightRank left.blockHeight ≤ heightRank right.blockHeight

section Groups

variable {accountId : String} {rows settled : List AggregatedAccountTransaction} {start : ℤ}
  {groups : List (List AggregatedAccountTransaction)}

theorem heightRank_injective : Function.Injective heightRank := by
  intro left right same
  cases left <;> cases right <;> simp_all [heightRank]

theorem heightGroups_flatten (rows : List AggregatedAccountTransaction) :
    (heightGroups rows).flatten = rows :=
  List.flatten_splitBy _ _

theorem blockHeight_eq_getLast {group : List AggregatedAccountTransaction}
    (run : group.IsChain fun left right => left.blockHeight == right.blockHeight)
    (nonempty : group ≠ []) {row : AggregatedAccountTransaction} (member : row ∈ group) :
    row.blockHeight = (group.getLast nonempty).blockHeight := by
  have transitive : IsTrans AggregatedAccountTransaction fun left right =>
      (left.blockHeight == right.blockHeight) = true :=
    ⟨fun _ _ _ first second => by simp_all⟩
  have same := List.isChain_iff_pairwise.mp run
  rw [← List.dropLast_append_getLast nonempty] at same member
  rcases List.mem_append.mp member with before | isLast
  · have equal := (List.pairwise_append.mp same).2.2 row before _ (List.mem_singleton.mpr rfl)
    simpa using equal
  · rw [List.mem_singleton.mp isLast]

theorem ascending_of_runs (sorted : ByHeight groups.flatten)
    (nonempty : ∀ group ∈ groups, group ≠ [])
    (runs : ∀ group ∈ groups, group.IsChain fun left right =>
      left.blockHeight == right.blockHeight)
    (breaks : groups.IsChain fun left right => ∃ (leftNonempty : left ≠ [])
      (rightNonempty : right ≠ []), ((left.getLast leftNonempty).blockHeight ==
        (right.head rightNonempty).blockHeight) = false) : Ascending groups := by
  induction groups with
  | nil => trivial
  | cons group rest ih =>
    unfold ByHeight at sorted
    rw [List.flatten_cons] at sorted
    obtain ⟨_, restSorted, apart⟩ := List.pairwise_append.mp sorted
    have groupNonempty := nonempty group List.mem_cons_self
    refine ⟨groupNonempty, ⟨(group.getLast groupNonempty).blockHeight, ?_, ?_⟩,
      ih restSorted (fun other member => nonempty other (List.mem_cons_of_mem _ member))
      (fun other member => runs other (List.mem_cons_of_mem _ member)) breaks.tail⟩
    · exact fun row member =>
        blockHeight_eq_getLast (runs group List.mem_cons_self) groupNonempty member
    · intro row member
      cases rest with
      | nil => exact absurd member List.not_mem_nil
      | cons next others =>
        obtain ⟨_, nextNonempty, differ⟩ := (List.isChain_cons_cons.mp breaks).1
        obtain ⟨first, tail, rfl⟩ := List.exists_cons_of_ne_nil nextNonempty
        have lower : heightRank (group.getLast groupNonempty).blockHeight ≤
            heightRank first.blockHeight :=
          apart _ (List.getLast_mem groupNonempty) first (by simp)
        have strict : heightRank (group.getLast groupNonempty).blockHeight <
            heightRank first.blockHeight := by
          refine lt_of_le_of_ne lower fun same => ?_
          simp [heightRank_injective same] at differ
        refine lt_of_lt_of_le strict ?_
        rw [List.flatten_cons, List.cons_append] at member restSorted
        rcases List.mem_cons.mp member with rfl | later
        · exact le_rfl
        · exact (List.pairwise_cons.mp restSorted).1 row later

theorem heightGroups_ascending (sorted : ByHeight rows) : Ascending (heightGroups rows) := by
  apply ascending_of_runs
  · rwa [heightGroups_flatten]
  · exact fun group member => List.ne_nil_of_mem_splitBy member
  · exact fun group member => List.isChain_of_mem_splitBy member
  · exact List.isChain_getLast_head_splitBy
      (fun left right : AggregatedAccountTransaction => left.blockHeight == right.blockHeight) rows

theorem filter_append_filter_of_byHeight {height : Option ℤ} (sorted : ByHeight rows)
    (lowest : ∀ row ∈ rows, heightRank height ≤ heightRank row.blockHeight) :
    rows = rows.filter (fun row => row.blockHeight = height) ++
      rows.filter (fun row => row.blockHeight ≠ height) := by
  induction rows with
  | nil => rfl
  | cons row rest ih =>
    obtain ⟨least, restSorted⟩ := List.pairwise_cons.mp sorted
    have tail := ih restSorted fun other member => lowest other (List.mem_cons_of_mem _ member)
    by_cases same : row.blockHeight = height
    · simpa [same] using tail
    · have above : heightRank height < heightRank row.blockHeight :=
        lt_of_le_of_ne (lowest row List.mem_cons_self)
          fun equal => same (heightRank_injective equal).symm
      have none_there : rest.filter (fun other => other.blockHeight = height) = [] := by
        rw [List.filter_eq_nil_iff]
        intro other member equal
        have upper := least other member
        rw [of_decide_eq_true equal] at upper
        exact absurd above (not_lt.mpr upper)
      rw [none_there, List.nil_append] at tail
      rw [List.filter_cons_of_neg (by simpa using same),
        List.filter_cons_of_pos (by simpa using same), none_there, List.nil_append, ← tail]

theorem filter_flatten_eq_first {group : List AggregatedAccountTransaction}
    {rest : List (List AggregatedAccountTransaction)} (ascending : Ascending (group :: rest))
    {first : AggregatedAccountTransaction} (member : first ∈ group) :
    (group ++ rest.flatten).filter (fun row => row.blockHeight = first.blockHeight) = group ∧
      (group ++ rest.flatten).filter (fun row => row.blockHeight ≠ first.blockHeight) =
        rest.flatten := by
  obtain ⟨_, ⟨height, same, above⟩, _⟩ := ascending
  rw [same first member]
  have differs : ∀ row ∈ rest.flatten, row.blockHeight ≠ height := by
    intro row inRest equal
    have strict := above row inRest
    rw [equal] at strict
    exact lt_irrefl _ strict
  rw [List.filter_append, List.filter_append]
  constructor
  · rw [List.filter_eq_self.mpr fun row inGroup => decide_eq_true (same row inGroup),
      List.filter_eq_nil_iff.mpr fun row inRest => by simpa using differs row inRest,
      List.append_nil]
  · rw [List.filter_eq_nil_iff.mpr fun row inGroup => by simpa using same row inGroup,
      List.filter_eq_self.mpr fun row inRest => decide_eq_true (differs row inRest),
      List.nil_append]

theorem split_settled {group : List AggregatedAccountTransaction}
    {rest : List (List AggregatedAccountTransaction)} (ascending : Ascending (group :: rest))
    (sorted : ByHeight settled) (perm : settled.Perm (group :: rest).flatten) :
    ∃ first later, settled = first ++ later ∧ first.Perm group ∧ later.Perm rest.flatten ∧
      ByHeight later := by
  obtain ⟨leader, inGroup⟩ := List.exists_mem_of_ne_nil group ascending.1
  obtain ⟨ofGroup, ofRest⟩ := filter_flatten_eq_first ascending inGroup
  obtain ⟨_, ⟨height, same, above⟩, _⟩ := ascending
  rw [List.flatten_cons] at perm
  have lowest : ∀ row ∈ settled, heightRank leader.blockHeight ≤ heightRank row.blockHeight := by
    intro row member
    rw [same leader inGroup]
    rcases List.mem_append.mp (perm.mem_iff.mp member) with here | later
    · rw [same row here]
    · exact (above row later).le
  have here := perm.filter fun row => row.blockHeight = leader.blockHeight
  have there := perm.filter fun row => row.blockHeight ≠ leader.blockHeight
  rw [ofGroup] at here
  rw [ofRest] at there
  exact ⟨_, _, filter_append_filter_of_byHeight sorted lowest, here, there, sorted.filter _⟩

theorem getLast_closing (chained : Chained start rows) (nonempty : rows ≠ []) :
    (rows.map edgeOf).getLast?.map BalanceEdge.closing = some (finalBalance start rows) := by
  induction rows generalizing start with
  | nil => exact absurd rfl nonempty
  | cons row rest ih =>
    obtain ⟨⟨closing, balance, value⟩, tail⟩ := chained
    rw [finalBalance_cons]
    cases rest with
    | nil => simp [edgeOf, closingValue, balance, value]
    | cons next later =>
      rw [List.map_cons, List.map_cons, List.getLast?_cons_cons]
      exact ih tail (List.cons_ne_nil _ _)

theorem byHeight_append {group : List AggregatedAccountTransaction}
    {rest : List (List AggregatedAccountTransaction)} (ascending : Ascending (group :: rest))
    {ordered later : List AggregatedAccountTransaction} (orderedPerm : ordered.Perm group)
    (laterPerm : later.Perm rest.flatten) (laterSorted : ByHeight later) :
    ByHeight (ordered ++ later) := by
  obtain ⟨_, ⟨height, same, above⟩, _⟩ := ascending
  have heightOf : ∀ row ∈ ordered, row.blockHeight = height :=
    fun row member => same row (orderedPerm.mem_iff.mp member)
  refine List.pairwise_append.mpr ⟨?_, laterSorted, ?_⟩
  · apply List.pairwise_of_forall_mem_list
    intro left leftMember right rightMember
    rw [heightOf left leftMember, heightOf right rightMember]
  · intro left leftMember right rightMember
    rw [heightOf left leftMember]
    exact (above right (laterPerm.mem_iff.mp rightMember)).le

variable (accountId) in
/-- **A right start restores a chain.** When rows of ascending groups can be chained by
height, and the first group is started where that chain starts, the groups are put into a
chain. -/
theorem orderGroups_spec {hashOrder : HashOrder} {previousBalance : Option ℤ}
    (ascending : Ascending groups) (sorted : ByHeight settled)
    (perm : settled.Perm groups.flatten) (chained : Chained start settled)
    (has : ∀ row ∈ groups.flatten, HasEdge row)
    (starts : ∀ group ∈ groups.head?,
      initialBalance hashOrder previousBalance (group.map edgeOf) = start) :
    ∃ ordered, orderGroups hashOrder accountId previousBalance groups = .ok ordered ∧
      ordered.Perm groups.flatten ∧ Chained start ordered ∧ ByHeight ordered := by
  induction groups generalizing start settled previousBalance with
  | nil => exact ⟨[], rfl, .nil, trivial, .nil⟩
  | cons group rest ih =>
    obtain ⟨first, later, rfl, firstPerm, laterPerm, laterSorted⟩ :=
      split_settled ascending sorted perm
    obtain ⟨firstChained, laterChained⟩ := chained_append.mp chained
    rw [List.flatten_cons] at has
    obtain ⟨ordered, orderedEq, orderedPerm, orderedChained⟩ :=
      orderGroup_spec accountId
        (fun row member => has row (List.mem_append_left _ member)) firstPerm firstChained
        (starts group rfl)
    have nonempty : ordered ≠ [] := by
      intro empty
      rw [empty] at orderedPerm
      exact ascending.1 (List.nil_perm.mp orderedPerm)
    have next := getLast_closing orderedChained nonempty
    have same : finalBalance start ordered = finalBalance start first :=
      finalBalance_perm (orderedPerm.trans firstPerm.symm) start
    obtain ⟨others, othersEq, othersPerm, othersChained, othersSorted⟩ :=
      @ih _ _ (some (finalBalance start ordered)) ascending.2.2 laterSorted laterPerm laterChained
        (fun row member => has row (List.mem_append_right _ member))
        (fun _ _ => same)
    refine ⟨ordered ++ others, ?_, ?_, ?_, ?_⟩
    · unfold orderGroups
      refine Fallible.bind_eq_ok.mpr ⟨ordered.map edgeOf, orderedEq, ?_⟩
      refine Fallible.bind_eq_ok.mpr ⟨others, by rw [next]; exact othersEq, ?_⟩
      rw [Fallible.pure_eq_ok, List.map_map]
      exact congrArg (· ++ others) (List.map_id _)
    · rw [List.flatten_cons]
      exact orderedPerm.append othersPerm
    · exact chained_append.mpr ⟨orderedChained, same ▸ othersChained⟩
    · exact byHeight_append ascending orderedPerm othersPerm othersSorted

theorem balanceEdge_row {row : AggregatedAccountTransaction} {edge : BalanceEdge}
    (done : balanceEdge accountId row = .ok edge) : edge.row = row := by
  unfold balanceEdge at done
  split at done
  · simp at done
  · split at done
    · simp at done
    · simp only [Except.ok.injEq] at done
      rw [← done]

theorem orderGroup_perm {hashOrder : HashOrder} {previousBalance : Option ℤ}
    {group : List AggregatedAccountTransaction} {ordered : List BalanceEdge}
    (done : orderGroup hashOrder accountId previousBalance group = .ok ordered) :
    (ordered.map BalanceEdge.row).Perm group := by
  unfold orderGroup at done
  obtain ⟨edges, edgesEq, done⟩ := Fallible.bind_eq_ok.mp done
  have rowsEq := Fallible.map_of_mapM_eq_ok edgesEq fun row edge => balanceEdge_row
  by_cases complete : (EulerTrail.hierholzer BalanceEdge.opening BalanceEdge.closing edges
      (initialBalance hashOrder previousBalance edges)).length = group.length
  · rw [if_neg (not_not.mpr complete), Fallible.pure_eq_ok] at done
    have lengths : edges.length = group.length := by rw [← rowsEq, List.length_map]
    have perm : ordered.Perm edges := by
      rw [← done]
      apply (EulerTrail.hierholzer_subperm _ _ _ _).perm_of_length_le
      omega
    exact rowsEq ▸ perm.map BalanceEdge.row
  · rw [if_pos complete] at done
    exact absurd done (by simp)

theorem orderGroups_perm {hashOrder : HashOrder} {previousBalance : Option ℤ}
    {ordered : List AggregatedAccountTransaction}
    (done : orderGroups hashOrder accountId previousBalance groups = .ok ordered)
    (ascending : Ascending groups) : ordered.Perm groups.flatten ∧ ByHeight ordered := by
  induction groups generalizing previousBalance ordered with
  | nil =>
    simp only [orderGroups, Except.ok.injEq] at done
    subst done
    exact ⟨.nil, .nil⟩
  | cons group rest ih =>
    unfold orderGroups at done
    obtain ⟨edges, first, done⟩ := Fallible.bind_eq_ok.mp done
    obtain ⟨later, others, done⟩ := Fallible.bind_eq_ok.mp done
    rw [Fallible.pure_eq_ok] at done
    subst done
    obtain ⟨laterPerm, laterSorted⟩ := ih others ascending.2.2
    have firstPerm := orderGroup_perm first
    rw [List.flatten_cons]
    exact ⟨firstPerm.append laterPerm,
      byHeight_append ascending firstPerm laterPerm laterSorted⟩

theorem orderGroups_cons_chained {hashOrder : HashOrder} {previousBalance : Option ℤ}
    {group : List AggregatedAccountTransaction}
    {rest : List (List AggregatedAccountTransaction)} {first : List AggregatedAccountTransaction}
    (has : ∀ row ∈ group, HasEdge row) (perm : first.Perm group) (chained : Chained start first)
    (starts : initialBalance hashOrder previousBalance (group.map edgeOf) = start)
    {ordered : List AggregatedAccountTransaction}
    (computed : orderGroups hashOrder accountId previousBalance (group :: rest) = .ok ordered) :
    ∃ leading others, ordered = leading ++ others ∧ leading.Perm group ∧ Chained start leading := by
  obtain ⟨leading, leadingEq, leadingPerm, leadingChained⟩ :=
    orderGroup_spec accountId has perm chained starts
  unfold orderGroups at computed
  obtain ⟨edges, edgesEq, computed⟩ := Fallible.bind_eq_ok.mp computed
  obtain ⟨others, _, computed⟩ := Fallible.bind_eq_ok.mp computed
  rw [leadingEq, Except.ok.injEq] at edgesEq
  rw [Fallible.pure_eq_ok, ← edgesEq, List.map_map] at computed
  refine ⟨leading, others, ?_, leadingPerm, leadingChained⟩
  rw [← computed]
  exact congrArg (· ++ others) (List.map_id _)

end Groups

/-! ## The whole account -/

section Account

variable {accountId : String} {hashOrder : HashOrder} {rows : List AggregatedAccountTransaction}

theorem sortByBlock_perm (rows : List AggregatedAccountTransaction) :
    (sortByBlock rows).Perm rows :=
  List.perm_insertionSort _ rows

theorem sortByBlock_ascending (rows : List AggregatedAccountTransaction) :
    (sortByBlock rows).Pairwise fun left right => left.blockKey ≤ right.blockKey :=
  RowSelection.insertionSort_sorted AggregatedAccountTransaction.blockKey rows

theorem sortByBlock_byHeight (rows : List AggregatedAccountTransaction) :
    ByHeight (sortByBlock rows) :=
  (sortByBlock_ascending rows).imp fun le => (Prod.Lex.le_iff'.mp le).1

theorem takeWhile_isNative (rows : List AggregatedAccountTransaction)
    (rest : List CustomBalanceAssertionRenderRow) :
    (assemble rows rest).takeWhile isNative = rows.map .native := by
  unfold assemble
  induction rows with
  | nil => cases rest <;> simp [isNative]
  | cons row rows ih => simpa [List.takeWhile_cons, isNative] using ih

theorem dropWhile_isNative (rows : List AggregatedAccountTransaction)
    (rest : List CustomBalanceAssertionRenderRow) :
    (assemble rows rest).dropWhile isNative = rest.map .manualAssertion := by
  unfold assemble
  induction rows with
  | nil => cases rest <;> simp [isNative]
  | cons row rows ih => simpa [List.dropWhile_cons, isNative] using ih

theorem orderBitcoinNativeTransactions_assemble (rest : List CustomBalanceAssertionRenderRow) :
    orderBitcoinNativeTransactions hashOrder accountId (assemble rows rest) =
      (orderGroups hashOrder accountId none (heightGroups (sortByBlock rows))).map
        (assemble · rest) := by
  have listed : natives (rows.map .native) = rows := by simp [natives, List.filterMap_map]
  unfold orderBitcoinNativeTransactions
  rw [takeWhile_isNative, dropWhile_isNative, listed]
  cases orderGroups hashOrder accountId none (heightGroups (sortByBlock rows)) <;> rfl

end Account

end Bitgarth.Export
