import Mathlib.Data.List.Induction
import Mathlib.Data.List.Nodup
import Mathlib.Tactic.Common

/-! # Tables with a unique key

A table is the list of its rows in the order they were first inserted. `upsert` merges a row
into the one of its key, or appends it; what a table holds is what `find` reads by key.
-/

namespace KeyedTable

variable {Row Key : Type*} [DecidableEq Key] (key : Row → Key)

/-- The row of a key. -/
def find (table : List Row) (k : Key) : Option Row :=
  table.find? fun row => key row = k

/-- `INSERT … ON CONFLICT (key) DO UPDATE`. -/
def upsert (merge : Row → Row → Row) (row : Row) : List Row → List Row
  | [] => [row]
  | old :: rest =>
    if key old = key row then merge old row :: rest else old :: upsert merge row rest

/-- No two rows have one key. -/
def Keyed (table : List Row) : Prop :=
  (table.map key).Nodup

variable {key} {table : List Row} {merge : Row → Row → Row} {row : Row} {k : Key}

@[simp]
theorem find_nil : find key [] k = none := rfl

theorem find_cons (first : Row) (rest : List Row) :
    find key (first :: rest) k = if key first = k then some first else find key rest k := by
  unfold find
  rw [List.find?_cons]
  split <;> rename_i isKey
  · rw [if_pos (of_decide_eq_true isKey)]
  · rw [if_neg (of_decide_eq_false isKey)]

theorem find_eq_some_key {found : Row} (isFound : find key table k = some found) :
    key found = k :=
  of_decide_eq_true (List.find?_some isFound :)

theorem mem_of_find {found : Row} (isFound : find key table k = some found) : found ∈ table :=
  List.mem_of_find?_eq_some isFound

theorem find_eq_none_iff : find key table k = none ↔ ∀ row ∈ table, key row ≠ k := by
  simp [find]

/-- In a keyed table a row is found by its key. -/
theorem find_eq_some_iff (keyed : Keyed key table) {found : Row} :
    find key table k = some found ↔ found ∈ table ∧ key found = k := by
  refine ⟨fun isFound => ⟨mem_of_find isFound, find_eq_some_key isFound⟩, ?_⟩
  rintro ⟨member, isKey⟩
  induction table with
  | nil => exact absurd member List.not_mem_nil
  | cons first rest ih =>
    obtain ⟨fresh, restKeyed⟩ := List.nodup_cons.mp keyed
    rw [find_cons]
    rcases List.mem_cons.mp member with rfl | later
    · rw [if_pos isKey]
    · have other : key first ≠ k := by
        intro same
        exact fresh (List.mem_map.mpr ⟨found, later, isKey.trans same.symm⟩)
      rw [if_neg other, ih restKeyed later]

theorem find_key_eq_some_iff (keyed : Keyed key table) :
    find key table (key row) = some row ↔ row ∈ table := by
  rw [find_eq_some_iff keyed, and_iff_left rfl]

/-! ## Upserts -/

theorem find_upsert_self (keeps : ∀ old, key old = key row → key (merge old row) = key row) :
    find key (upsert key merge row table) (key row) =
      some ((find key table (key row)).elim row fun old => merge old row) := by
  induction table with
  | nil => rw [upsert, find_cons, if_pos rfl]; rfl
  | cons first rest ih =>
    rw [upsert]
    by_cases same : key first = key row
    · rw [if_pos same, find_cons, if_pos (keeps first same), find_cons, if_pos same]
      rfl
    · rw [if_neg same, find_cons, if_neg same, ih, find_cons, if_neg same]

theorem find_upsert_of_ne (keeps : ∀ old, key old = key row → key (merge old row) = key row)
    (other : key row ≠ k) : find key (upsert key merge row table) k = find key table k := by
  induction table with
  | nil => rw [upsert, find_cons, if_neg other]
  | cons first rest ih =>
    rw [upsert]
    by_cases same : key first = key row
    · rw [if_pos same, find_cons, if_neg (by rw [keeps first same]; exact other), find_cons,
        if_neg (by rw [same]; exact other)]
    · rw [if_neg same, find_cons, ih, find_cons]

theorem map_key_upsert (keeps : ∀ old, key old = key row → key (merge old row) = key row) :
    (upsert key merge row table).map key =
      if key row ∈ table.map key then table.map key else table.map key ++ [key row] := by
  induction table with
  | nil => simp [upsert]
  | cons first rest ih =>
    rw [upsert]
    by_cases same : key first = key row
    · rw [if_pos same, List.map_cons, keeps first same, List.map_cons, same,
        if_pos List.mem_cons_self]
    · rw [if_neg same, List.map_cons, ih, List.map_cons]
      by_cases later : key row ∈ rest.map key
      · rw [if_pos later, if_pos (List.mem_cons_of_mem _ later)]
      · rw [if_neg later, if_neg]
        · rfl
        · intro member
          rcases List.mem_cons.mp member with isFirst | isLater
          · exact same isFirst.symm
          · exact later isLater

/-- A row of a new key is appended. -/
theorem upsert_of_find_eq_none (absent : find key table (key row) = none) :
    upsert key merge row table = table ++ [row] := by
  induction table with
  | nil => rfl
  | cons first rest ih =>
    rw [find_cons] at absent
    split at absent
    · cases absent
    · rename_i other
      rw [upsert, if_neg other, ih absent, List.cons_append]

/-- A row that is found stands for itself. -/
theorem upsert_of_find_eq_some (found : find key table k = some row) :
    upsert key (fun _ incoming => incoming) row table = table := by
  have isKey : key row = k := of_decide_eq_true (List.find?_some found :)
  induction table with
  | nil => cases found
  | cons first rest ih =>
    rw [find_cons] at found
    split at found
    · rename_i same
      rw [Option.some.inj found, upsert, if_pos rfl]
    · rename_i other
      rw [upsert, if_neg (isKey ▸ other), ih found]

theorem Keyed.upsert (keyed : Keyed key table)
    (keeps : ∀ old, key old = key row → key (merge old row) = key row) :
    Keyed key (upsert key merge row table) := by
  unfold Keyed
  rw [map_key_upsert keeps]
  split
  · exact keyed
  · rename_i fresh
    rw [List.nodup_append]
    refine ⟨keyed, List.nodup_singleton _, fun other member last isLast same => fresh ?_⟩
    rw [List.mem_singleton.mp isLast] at same
    exact same ▸ member

/-- Rows of other keys stay where they are. -/
theorem filter_upsert_of_neg {keep : Row → Bool} (dropped : keep row = false)
    (mergedDropped : ∀ old, key old = key row → keep old = false ∧ keep (merge old row) = false) :
    (upsert key merge row table).filter keep = table.filter keep := by
  induction table with
  | nil => rw [upsert, List.filter_cons_of_neg (by simp [dropped])]
  | cons first rest ih =>
    rw [upsert]
    by_cases same : key first = key row
    · obtain ⟨was, becomes⟩ := mergedDropped first same
      rw [if_pos same, List.filter_cons_of_neg (by simp [becomes]),
        List.filter_cons_of_neg (by simp [was])]
    · rw [if_neg same, List.filter_cons, List.filter_cons, ih]

/-! ## Deletes and updates -/

omit [DecidableEq Key] in
theorem Keyed.filter (keyed : Keyed key table) (keep : Row → Bool) :
    Keyed key (table.filter keep) :=
  keyed.sublist (List.filter_sublist.map key)

theorem find_filter (keyed : Keyed key table) (keep : Row → Bool) :
    find key (table.filter keep) k = (find key table k).filter keep := by
  apply Option.ext
  intro found
  rw [find_eq_some_iff (keyed.filter keep), Option.filter_eq_some_iff, find_eq_some_iff keyed,
    List.mem_filter]
  exact and_right_comm

/-- Deleting rows by their key alone needs no uniqueness. -/
theorem find_filter_key (keep : Key → Bool) :
    find key (table.filter fun row => keep (key row)) k =
      if keep k = true then find key table k else none := by
  induction table with
  | nil => simp
  | cons first rest ih =>
    by_cases kept : keep (key first) = true
    · rw [List.filter_cons, if_pos kept, find_cons, ih, find_cons]
      by_cases same : key first = k
      · subst same
        rw [if_pos rfl, if_pos kept, if_pos rfl]
      · rw [if_neg same, if_neg same]
    · rw [List.filter_cons, if_neg kept, ih, find_cons]
      by_cases same : key first = k
      · subst same
        rw [if_neg kept, if_neg kept]
      · rw [if_neg same]

theorem find_map {update : Row → Row} (keeps : ∀ row, key (update row) = key row) :
    find key (table.map update) k = (find key table k).map update := by
  induction table with
  | nil => rfl
  | cons first rest ih =>
    rw [List.map_cons, find_cons, find_cons, keeps, ih]
    split <;> rfl

omit [DecidableEq Key] in
theorem Keyed.map {update : Row → Row} (keyed : Keyed key table)
    (keeps : ∀ row, key (update row) = key row) : Keyed key (table.map update) := by
  unfold Keyed
  rw [List.map_map, show key ∘ update = key from funext keeps]
  exact keyed

/-! ## Writing one key -/

variable (key) in
/-- Set the row of a key, or delete it. -/
def assign (k : Key) : Option Row → List Row → List Row
  | none, table => table.filter fun row => key row ≠ k
  | some row, table => upsert key (fun _ incoming => incoming) row table

theorem find_assign {value : Option Row} (matched : ∀ row ∈ value, key row = k) (k' : Key) :
    find key (assign key k value table) k' = if k = k' then value else find key table k' := by
  cases value with
  | none =>
    have kept := @find_filter_key _ _ _ key table k' fun k' => k' ≠ k
    simp only [decide_not, Bool.not_eq_eq_eq_not, Bool.not_true, decide_eq_false_iff_not] at kept
    rw [assign]
    by_cases same : k = k'
    · subst same
      rw [if_pos rfl]
      simpa using kept
    · rw [if_neg same]
      simpa [Ne.symm same] using kept
  | some row =>
    obtain rfl := matched row rfl
    rw [assign]
    by_cases same : key row = k'
    · subst same
      rw [if_pos rfl, find_upsert_self fun _ _ => rfl]
      cases find key table (key row) <;> rfl
    · rw [if_neg same, find_upsert_of_ne (fun _ _ => rfl) same]

theorem Keyed.assign (keyed : Keyed key table) (value : Option Row) :
    Keyed key (assign key k value table) := by
  cases value with
  | none => exact keyed.filter _
  | some row => exact keyed.upsert fun _ _ => rfl

theorem mem_of_mem_upsert {merged : Row} (member : merged ∈ upsert key merge row table) :
    merged ∈ table ∨ merged = row ∨ ∃ old ∈ table, key old = key row ∧ merged = merge old row := by
  induction table with
  | nil => exact .inr (.inl (List.mem_singleton.mp member))
  | cons first rest ih =>
    rw [upsert] at member
    by_cases same : key first = key row
    · rw [if_pos same] at member
      rcases List.mem_cons.mp member with rfl | later
      · exact .inr (.inr ⟨first, List.mem_cons_self, same, rfl⟩)
      · exact .inl (List.mem_cons_of_mem _ later)
    · rw [if_neg same] at member
      rcases List.mem_cons.mp member with rfl | later
      · exact .inl List.mem_cons_self
      · rcases ih later with inRest | isRow | ⟨old, inRest, isOld⟩
        · exact .inl (List.mem_cons_of_mem _ inRest)
        · exact .inr (.inl isRow)
        · exact .inr (.inr ⟨old, List.mem_cons_of_mem _ inRest, isOld⟩)

theorem mem_of_mem_assign {value : Option Row} {written : Row}
    (member : written ∈ assign key k value table) : written ∈ value ∨ written ∈ table := by
  cases value with
  | none => exact .inr (List.mem_filter.mp member).1
  | some row =>
    rcases mem_of_mem_upsert member with inTable | isRow | ⟨_, _, _, isRow⟩
    · exact .inr inTable
    · exact .inl (isRow ▸ rfl)
    · exact .inl (isRow ▸ rfl)

/-- Rows of other keys stay where they are. -/
theorem filter_assign {value : Option Row} {keep : Row → Bool}
    (matched : ∀ row ∈ value, key row = k) (dropped : ∀ row, key row = k → keep row = false) :
    (assign key k value table).filter keep = table.filter keep := by
  cases value with
  | none =>
    rw [assign, List.filter_filter]
    apply List.filter_congr
    intro row _
    by_cases same : key row = k
    · simp [dropped row same]
    · simp [same]
  | some row =>
    have isKey := matched row rfl
    exact filter_upsert_of_neg (dropped row isKey) fun old same =>
      ⟨dropped old (same.trans isKey), dropped row isKey⟩

/-! ## Runs of writes -/

/-- A run of writes acts on each key by itself. -/
theorem find_foldl {Item : Type*} {step : List Row → Item → List Row}
    (act : Key → Option Row → Item → Option Row)
    (acts : ∀ table item k, find key (step table item) k = act k (find key table k) item)
    (items : List Item) (table : List Row) (k : Key) :
    find key (items.foldl step table) k = items.foldl (act k) (find key table k) := by
  induction items generalizing table with
  | nil => rfl
  | cons item rest ih => rw [List.foldl_cons, List.foldl_cons, ih, acts]

/-- What is written last stays. -/
theorem foldl_ite_eq_last {Item Value : Type*} (applies : Item → Prop) [DecidablePred applies]
    (value : Item → Value) (start : Value) (items : List Item) :
    items.foldl (fun current item => if applies item then value item else current) start =
      (items.reverse.find? fun item => applies item).elim start value := by
  induction items using List.reverseRecOn with
  | nil => rfl
  | append_singleton earlier last ih =>
    rw [List.foldl_append, List.foldl_cons, List.foldl_nil, ih, List.reverse_append,
      List.reverse_singleton, List.singleton_append, List.find?_cons]
    by_cases isLast : applies last
    · simp [isLast]
    · simp [isLast]

theorem filter_foldl {Item : Type*} {step : List Row → Item → List Row} {keep : Row → Bool}
    {items : List Item} (keeps : ∀ table, ∀ item ∈ items,
      (step table item).filter keep = table.filter keep) (table : List Row) :
    (items.foldl step table).filter keep = table.filter keep := by
  induction items generalizing table with
  | nil => rfl
  | cons item rest ih =>
    rw [List.foldl_cons, ih fun table other later =>
      keeps table other (List.mem_cons_of_mem _ later), keeps table item List.mem_cons_self]

omit [DecidableEq Key] in
theorem Keyed.foldl {Item : Type*} {step : List Row → Item → List Row}
    (preserves : ∀ table item, Keyed key table → Keyed key (step table item))
    (items : List Item) (keyed : Keyed key table) : Keyed key (items.foldl step table) := by
  induction items generalizing table with
  | nil => exact keyed
  | cons item rest ih => exact ih (preserves table item keyed)

theorem filter_key_upsert (keeps : ∀ old, key old = key row → key (merge old row) = key row)
    (keep : Key → Bool) :
    (upsert key merge row table).filter (fun row => keep (key row)) =
      if keep (key row) = true then
        upsert key merge row (table.filter fun row => keep (key row))
      else table.filter fun row => keep (key row) := by
  split <;> rename_i kept
  · induction table with
    | nil => rw [upsert, List.filter_cons_of_pos (by exact kept), List.filter_nil, upsert]
    | cons first rest ih =>
      rw [upsert]
      by_cases same : key first = key row
      · rw [if_pos same, List.filter_cons_of_pos (by rw [keeps first same]; exact kept),
          List.filter_cons_of_pos (by rw [same]; exact kept), upsert, if_pos same]
      · rw [if_neg same, List.filter_cons, List.filter_cons, ih]
        split
        · rw [upsert, if_neg same]
        · rfl
  · exact filter_upsert_of_neg (Bool.eq_false_iff.mpr kept) fun old same => by
      rw [keeps old same, same]
      exact ⟨Bool.eq_false_iff.mpr kept, Bool.eq_false_iff.mpr kept⟩

theorem filter_key_foldl_upsert
    (keeps : ∀ row old, key old = key row → key (merge old row) = key row) (keep : Key → Bool)
    (items table : List Row) :
    (items.foldl (fun table row => upsert key merge row table) table).filter
        (fun row => keep (key row)) =
      (items.filter fun row => keep (key row)).foldl (fun table row => upsert key merge row table)
        (table.filter fun row => keep (key row)) := by
  induction items generalizing table with
  | nil => rfl
  | cons first rest ih =>
    rw [List.foldl_cons, ih, filter_key_upsert (keeps first), List.filter_cons]
    split <;> rfl

theorem mem_keys_foldl_upsert
    (keeps : ∀ row old, key old = key row → key (merge old row) = key row)
    (items table : List Row) :
    k ∈ (items.foldl (fun table row => upsert key merge row table) table).map key ↔
      k ∈ table.map key ∨ k ∈ items.map key := by
  induction items generalizing table with
  | nil => simp
  | cons first rest ih =>
    rw [List.foldl_cons, ih, map_key_upsert (keeps first), List.map_cons, List.mem_cons]
    split <;> rename_i known
    · constructor
      · exact fun member => member.imp_right .inr
      · rintro (before | isFirst | later)
        · exact .inl before
        · exact .inl (isFirst ▸ known)
        · exact .inr later
    · rw [List.mem_append, List.mem_singleton, or_assoc]

/-- Replacing the row of a key keeps the rows of the other keys. -/
theorem mem_upsert_incoming_iff (keyed : Keyed key table) {written : Row} :
    written ∈ upsert key (fun _ incoming => incoming) row table ↔
      written = row ∨ written ∈ table ∧ key written ≠ key row := by
  have assigned := @find_assign _ _ _ key table (key row) (some row)
    (fun _ isRow => Option.mem_some.mp isRow ▸ rfl) (key written)
  change find key (upsert key (fun _ incoming => incoming) row table) (key written) = _ at assigned
  rw [← find_key_eq_some_iff (keyed.upsert fun _ _ => rfl), assigned]
  split <;> rename_i same
  · rw [Option.some.injEq, or_iff_left fun elsewhere => elsewhere.2 same.symm]
    exact eq_comm
  · rw [find_key_eq_some_iff keyed, or_iff_right, and_iff_left]
    · exact Ne.symm same
    · exact fun isRow => same (congrArg key isRow).symm

/-- Items that agree on each key are collected. -/
theorem mem_foldl_upsert_iff {items : List Row}
    (agree : ∀ left ∈ items, ∀ right ∈ items, key left = key right → left = right)
    {written : Row} :
    written ∈ items.foldl
        (fun table item => upsert key (fun _ incoming => incoming) item table) [] ↔
      written ∈ items := by
  induction items using List.reverseRecOn with
  | nil => exact Iff.rfl
  | append_singleton earlier last ih =>
    have keyed : Keyed key (earlier.foldl
        (fun table item => upsert key (fun _ incoming => incoming) item table) []) :=
      Keyed.foldl (fun _ _ before => before.upsert fun _ _ => rfl) earlier List.nodup_nil
    have before := ih fun left leftMember right rightMember =>
      agree left (List.mem_append_left _ leftMember) right (List.mem_append_left _ rightMember)
    rw [List.foldl_append, List.foldl_cons, List.foldl_nil, mem_upsert_incoming_iff keyed, before,
      List.mem_append, List.mem_singleton]
    constructor
    · intro stands
      exact stands.symm.imp_left And.left
    · intro comesIn
      by_cases isLast : key written = key last
      · exact .inl (agree _ (List.mem_append.mpr (comesIn.imp_right List.mem_singleton.mpr)) _
          (List.mem_append_right _ (List.mem_singleton.mpr rfl)) isLast)
      · exact .inr ⟨comesIn.resolve_right fun same => isLast (congrArg key same), isLast⟩

/-! ## Replacing a group of rows -/

section Group

variable {Group Index Item : Type*} [DecidableEq Group] [DecidableEq Index]
  {key : Row → Group × Index} {group : Group} {index : Item → Index} {value : Item → Option Row}

variable (key group index value) in
/-- Delete the rows of a group whose index does not come in, then write each item. -/
def replaceGroup (items : List Item) (table : List Row) : List Row :=
  items.foldl (fun table item => assign key (group, index item) (value item) table)
    (table.filter fun row => (key row).1 ≠ group ∨ (key row).2 ∈ items.map index)

/-- A replaced group holds the last item of each index. -/
theorem find_replaceGroup
    (matched : ∀ item, ∀ row ∈ value item, key row = (group, index item)) (items : List Item)
    (table : List Row) (g : Group) (i : Index) :
    find key (replaceGroup key group index value items table) (g, i) =
      if g = group then (items.reverse.find? fun item => index item = i).bind value
      else find key table (g, i) := by
  have pruned := @find_filter_key _ _ _ key table (g, i)
    fun k => k.1 ≠ group ∨ k.2 ∈ items.map index
  rw [replaceGroup, find_foldl
    (fun k current item => if (group, index item) = k then value item else current)
    (fun table item k => find_assign (matched item) k), pruned]
  rw [foldl_ite_eq_last (fun item => (group, index item) = (g, i))]
  by_cases inGroup : g = group
  · subst inGroup
    simp only [Prod.mk.injEq, true_and, ne_eq, not_true_eq_false, false_or, ↓reduceIte,
      decide_eq_true_eq]
    cases last : items.reverse.find? fun item => decide (index item = i) with
    | some item => rfl
    | none =>
      have absent : i ∉ items.map index := by
        intro member
        obtain ⟨item, inItems, isIndex⟩ := List.mem_map.mp member
        rw [List.find?_eq_none] at last
        exact last item (List.mem_reverse.mpr inItems) (decide_eq_true isIndex)
      rw [if_neg absent]
      rfl
  · have outside : (items.reverse.find? fun item => (group, index item) = (g, i)) = none := by
      apply List.find?_eq_none.mpr
      intro item _ same
      exact inGroup (congrArg Prod.fst (of_decide_eq_true same)).symm
    rw [outside, if_neg inGroup, if_pos (decide_eq_true (.inl inGroup))]
    rfl

theorem Keyed.replaceGroup {table : List Row} (keyed : Keyed key table) (items : List Item) :
    Keyed key (replaceGroup key group index value items table) :=
  Keyed.foldl (fun _ _ before => before.assign _) items (keyed.filter _)

/-- Rows of other groups stay where they are. -/
theorem filter_replaceGroup {table : List Row}
    (matched : ∀ item, ∀ row ∈ value item, key row = (group, index item)) {keep : Row → Bool}
    (dropped : ∀ row, (key row).1 = group → keep row = false) (items : List Item) :
    (KeyedTable.replaceGroup key group index value items table).filter keep =
      table.filter keep := by
  rw [KeyedTable.replaceGroup, filter_foldl fun table item _ => filter_assign (matched item)
    fun row isKey => dropped row (congrArg Prod.fst isKey), List.filter_filter]
  apply List.filter_congr
  intro row _
  by_cases inGroup : (key row).1 = group
  · simp [dropped row inGroup]
  · simp [inGroup]

/-! ### The order of a replaced group -/

variable (key group index value) in
/-- What an item run leaves of a row: outside the group the row, and in it the last item of its
index, in the place of the row unless an item deleted it meanwhile. -/
def placed (items : List Item) (row : Row) : Option Row :=
  if (key row).1 = group ∧ (key row).2 ∈ items.map index then
    if ∀ item ∈ items, index item = (key row).2 → (value item).isSome then
      (items.reverse.find? fun item => index item = (key row).2).bind value
    else none
  else some row

theorem key_of_placed (matched : ∀ item, ∀ row ∈ value item, key row = (group, index item))
    {items : List Item} {row left : Row}
    (isLeft : placed key group index value items row = some left) :
    key left = key row := by
  unfold placed at isLeft
  split at isLeft <;> rename_i inside
  · split at isLeft
    · obtain ⟨item, last, isValue⟩ := Option.bind_eq_some_iff.mp isLeft
      have isIndex : index item = (key row).2 := of_decide_eq_true (List.find?_some last :)
      rw [matched item left isValue, isIndex, ← inside.1]
    · cases isLeft
  · rw [Option.some.inj isLeft]

theorem placed_append_of_ne {items : List Item} {last : Item} {row : Row}
    (other : key row ≠ (group, index last)) :
    placed key group index value (items ++ [last]) row =
      placed key group index value items row := by
  unfold placed
  by_cases inGroup : (key row).1 = group
  · have differs : index last ≠ (key row).2 := by
      intro same
      exact other (Prod.ext inGroup same.symm)
    simp [inGroup, differs, Ne.symm differs, or_imp, forall_and]
  · simp [inGroup]

/-- A row of the group stays while no item deletes it. -/
theorem placed_isSome {items : List Item} {row : Row} (inGroup : (key row).1 = group) :
    (placed key group index value items row).isSome ↔
      ∀ item ∈ items, index item = (key row).2 → (value item).isSome := by
  unfold placed
  by_cases named : (key row).2 ∈ items.map index
  · rw [if_pos ⟨inGroup, named⟩]
    obtain ⟨item, member, isIndex⟩ := List.mem_map.mp named
    split <;> rename_i stored
    · refine iff_of_true ?_ stored
      cases last : items.reverse.find? fun item => index item = (key row).2 with
      | none =>
        rw [List.find?_eq_none] at last
        exact absurd (decide_eq_true isIndex) (last item (List.mem_reverse.mpr member))
      | some item =>
        exact stored item (List.mem_reverse.mp (List.mem_of_find?_eq_some last))
          (of_decide_eq_true (List.find?_some last :))
    · exact iff_of_false Bool.false_ne_true stored
  · rw [if_neg fun both => named both.2]
    refine iff_of_true rfl fun item member isIndex => ?_
    exact absurd (List.mem_map.mpr ⟨item, member, isIndex⟩) named

theorem placed_append_self {items : List Item} {last : Item} {row : Row}
    (isKey : key row = (group, index last)) :
    placed key group index value (items ++ [last]) row =
      (placed key group index value items row).bind fun _ => value last := by
  have inGroup : (key row).1 = group := congrArg Prod.fst isKey
  have isIndex : index last = (key row).2 := (congrArg Prod.snd isKey).symm
  have before := @placed_isSome _ _ _ _ _ _ key group index value items row inGroup
  have named : (key row).2 ∈ (items ++ [last]).map index := by
    rw [List.map_append, List.mem_append]
    exact .inr (List.mem_singleton.mpr isIndex.symm)
  have isLast : (items ++ [last]).reverse.find? (fun item => index item = (key row).2) =
      some last := by
    rw [List.reverse_append, List.reverse_singleton, List.singleton_append, List.find?_cons,
      decide_eq_true isIndex]
  have whole : placed key group index value (items ++ [last]) row =
      if ∀ item ∈ items ++ [last], index item = (key row).2 → (value item).isSome then value last
      else none := by
    unfold placed
    rw [if_pos ⟨inGroup, named⟩, isLast, Option.bind_some]
  rw [whole]
  cases isPlaced : placed key group index value items row with
  | none =>
    rw [isPlaced] at before
    rw [if_neg, Option.bind_none]
    intro stored
    exact Bool.false_ne_true (before.mpr fun item member =>
      stored item (List.mem_append_left _ member))
  | some left =>
    rw [isPlaced] at before
    rw [Option.bind_some]
    cases isValue : value last with
    | none =>
      exact if_neg fun stored => by
        have isSome := stored last (List.mem_append_right _ List.mem_cons_self) isIndex
        rw [isValue] at isSome
        cases isSome
    | some written =>
      rw [if_pos]
      intro item member
      rcases List.mem_append.mp member with earlier | isLast
      · exact before.mp rfl item earlier
      · rw [List.mem_singleton.mp isLast, isValue]
        exact fun _ => rfl

theorem upsert_append {first second : List Row} (keyed : Keyed key first) (row : Row) :
    upsert key (fun _ incoming => incoming) row (first ++ second) =
      first.map (fun old => if key old = key row then row else old) ++
        if ∃ old ∈ first, key old = key row then second
        else upsert key (fun _ incoming => incoming) row second := by
  induction first with
  | nil => simp
  | cons old rest ih =>
    obtain ⟨fresh, restKeyed⟩ := List.nodup_cons.mp keyed
    rw [List.cons_append, upsert, List.map_cons]
    by_cases same : key old = key row
    · have untouched : rest.map (fun old => if key old = key row then row else old) = rest := by
        apply (List.map_congr_left _).trans (List.map_id rest)
        intro other member
        apply if_neg
        intro isKey
        exact fresh (List.mem_map.mpr ⟨other, member, isKey.trans same.symm⟩)
      simp [same, untouched]
    · simp [same, ih restKeyed]

/-- A run of writes keeps the rows of a table in place and appends to them. -/
theorem foldl_assign_eq (matched : ∀ item, ∀ row ∈ value item, key row = (group, index item))
    (items : List Item) {table : List Row} (keyed : Keyed key table) :
    ∃ appended, items.foldl (fun table item => assign key (group, index item) (value item) table)
        table = table.filterMap (placed key group index value items) ++ appended ∧
      ∀ row ∈ appended, (key row).1 = group := by
  induction items using List.reverseRecOn with
  | nil =>
    refine ⟨[], ?_, fun _ member => absurd member List.not_mem_nil⟩
    have unplaced : placed key group index value [] = some := by
      funext row
      simp [placed]
    simp [unplaced]
  | append_singleton earlier last ih =>
    obtain ⟨appended, isTable, inGroup⟩ := ih
    rw [List.foldl_append, List.foldl_cons, List.foldl_nil]
    have before : Keyed key (table.filterMap (placed key group index value earlier)) := by
      have whole : Keyed key (earlier.foldl
          (fun table item => assign key (group, index item) (value item) table) table) :=
        Keyed.foldl (fun _ _ before => before.assign _) earlier keyed
      rw [isTable] at whole
      exact List.Nodup.sublist (List.Sublist.map key (List.sublist_append_left _ _)) whole
    rw [isTable]
    have inPlace : ∀ row : Row, placed key group index value (earlier ++ [last]) row =
        if key row = (group, index last) then
          (placed key group index value earlier row).bind fun _ => value last
        else placed key group index value earlier row := by
      intro row
      split <;> rename_i isKey
      · exact placed_append_self isKey
      · exact placed_append_of_ne isKey
    cases isValue : value last with
    | none =>
      refine ⟨appended.filter fun row => key row ≠ (group, index last), ?_, ?_⟩
      · rw [assign, List.filter_append, List.filter_filterMap]
        congr 1
        apply List.filterMap_congr
        intro row _
        rw [inPlace, isValue]
        cases isPlaced : placed key group index value earlier row with
        | none => simp
        | some left =>
          have sameKey := key_of_placed matched isPlaced
          by_cases isKey : key row = (group, index last)
          · simp [sameKey, isKey]
          · simp [sameKey, isKey]
      · intro row member
        exact inGroup row (List.mem_filter.mp member).1
    | some written =>
      have isWritten : key written = (group, index last) := matched last written isValue
      refine ⟨if ∃ old ∈ table.filterMap (placed key group index value earlier),
          key old = key written then appended
        else upsert key (fun _ incoming => incoming) written appended, ?_, ?_⟩
      · rw [assign, upsert_append before, List.map_filterMap]
        congr 1
        apply List.filterMap_congr
        intro row _
        rw [inPlace, isValue]
        cases isPlaced : placed key group index value earlier row with
        | none => simp
        | some left =>
          have sameKey := key_of_placed matched isPlaced
          by_cases isKey : key row = (group, index last)
          · simp [sameKey, isKey, isWritten]
          · simp [sameKey, isKey, isWritten]
      · intro row member
        split at member
        · exact inGroup row member
        · rcases mem_of_mem_upsert member with inTable | isRow | ⟨_, _, _, isRow⟩
          · exact inGroup row inTable
          · rw [isRow, isWritten]
          · rw [isRow, isWritten]

/-- Replacing a group keeps the other rows in place, and the rows of the group unless they are
deleted meanwhile; what is new is appended. -/
theorem replaceGroup_eq (matched : ∀ item, ∀ row ∈ value item, key row = (group, index item))
    (items : List Item) {table : List Row} (keyed : Keyed key table) :
    ∃ appended, replaceGroup key group index value items table =
        table.filterMap (fun row => if (key row).1 = group then
          if ∀ item ∈ items, index item = (key row).2 → (value item).isSome then
            (items.reverse.find? fun item => index item = (key row).2).bind value
          else none
        else some row) ++ appended ∧
      ∀ row ∈ appended, (key row).1 = group := by
  obtain ⟨appended, isTable, inGroup⟩ := foldl_assign_eq matched items
    (keyed.filter fun row => (key row).1 ≠ group ∨ (key row).2 ∈ items.map index)
  refine ⟨appended, ?_, inGroup⟩
  rw [replaceGroup, isTable, List.filterMap_filter]
  congr 1
  apply List.filterMap_congr
  intro row _
  unfold placed
  by_cases isGroup : (key row).1 = group
  · by_cases named : (key row).2 ∈ items.map index
    · simp [isGroup, named]
    · have absent : (items.reverse.find? fun item => index item = (key row).2) = none := by
        rw [List.find?_eq_none]
        intro item member isIndex
        exact named (List.mem_map.mpr ⟨item, List.mem_reverse.mp member, of_decide_eq_true isIndex⟩)
      simp [isGroup, named, absent]
  · simp [isGroup]

end Group

end KeyedTable
