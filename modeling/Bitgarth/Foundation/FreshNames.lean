import Mathlib.Data.Finset.Card
import Mathlib.Order.Interval.Finset.Nat

/-! # Fresh names

A name whose key is taken is replaced by the first of a row of attempts whose key is free.
Attempts with pairwise different keys outnumber the taken keys after a while, so the search
ends (`exists_firstFree`). `chooseAll` goes through a list of items that keep their name or
get a fresh one; the keys it leaves are pairwise different (`chooseAll_nodup`).
-/

namespace FreshNames

section Search

variable {Name Key : Type*} [DecidableEq Key] (candidate : ℕ → Option Name) (key : Name → Key)
  (taken : List Key)

/-- The first attempt, from the given one on, whose key is free. -/
def firstFree : ℕ → ℕ → Option Name
  | 0, _ => none
  | fuel + 1, attempt => do
      let name ← candidate attempt
      if key name ∈ taken then firstFree fuel (attempt + 1) else some name

variable {candidate key taken} {fuel attempt : ℕ} {name : Name}

theorem firstFree_succ (given : candidate attempt = some name) :
    firstFree candidate key taken (fuel + 1) attempt =
      if key name ∈ taken then firstFree candidate key taken fuel (attempt + 1)
      else some name := by
  rw [firstFree, given]
  rfl

/-- The name found is one of the attempts, and free. -/
theorem firstFree_spec (found : firstFree candidate key taken fuel attempt = some name) :
    key name ∉ taken ∧
      ∃ tried, attempt ≤ tried ∧ tried < attempt + fuel ∧ candidate tried = some name := by
  induction fuel generalizing attempt with
  | zero => cases found
  | succ fuel ih =>
    obtain ⟨first, given, found⟩ := Option.bind_eq_some_iff.mp found
    split at found
    · obtain ⟨free, tried, after, before, isTried⟩ := ih found
      exact ⟨free, tried, by omega, by omega, isTried⟩
    · next free =>
        cases found
        exact ⟨free, attempt, le_rfl, by omega, given⟩

/-- More attempts find the same name. -/
theorem firstFree_mono {more : ℕ} (found : firstFree candidate key taken fuel attempt = some name)
    (atLeast : fuel ≤ more) : firstFree candidate key taken more attempt = some name := by
  induction fuel generalizing attempt more with
  | zero => cases found
  | succ fuel ih =>
    obtain ⟨more, rfl⟩ := Nat.exists_eq_add_of_lt atLeast
    obtain ⟨first, given, found⟩ := Option.bind_eq_some_iff.mp found
    rw [firstFree_succ given]
    split at found
    · next used => rw [if_pos used, ih found (Nat.le_add_right fuel more)]
    · next free => rw [if_neg free, found]

theorem exists_firstFree_of_free {names : ℕ → Name} {free : ℕ}
    (given : ∀ tried, attempt ≤ tried → tried < attempt + fuel →
      candidate tried = some (names tried))
    (after : attempt ≤ free) (before : free < attempt + fuel) (isFree : key (names free) ∉ taken) :
    ∃ name, firstFree candidate key taken fuel attempt = some name := by
  induction fuel generalizing attempt with
  | zero => omega
  | succ fuel ih =>
    rw [firstFree_succ (given attempt le_rfl (by omega))]
    split
    · next used =>
        have later : attempt ≠ free := fun same => isFree (same ▸ used)
        refine ih ?_ (by omega) (by omega)
        intro tried least most
        exact given tried (by omega) (by omega)
    · exact ⟨_, rfl⟩

/-- **More attempts with pairwise different keys than keys are taken** include a free one. -/
theorem exists_firstFree {names : ℕ → Name}
    (given : ∀ tried, attempt ≤ tried → tried < attempt + fuel →
      candidate tried = some (names tried))
    (different : Set.InjOn (fun tried => key (names tried)) (Set.Ico attempt (attempt + fuel)))
    (few : taken.length < fuel) :
    ∃ name, firstFree candidate key taken fuel attempt = some name := by
  by_contra stuck
  have allTaken : Set.MapsTo (fun tried => key (names tried))
      (Finset.Ico attempt (attempt + fuel)) (taken.toFinset : Set Key) := by
    intro tried within
    rw [Finset.coe_Ico, Set.mem_Ico] at within
    by_contra isFree
    rw [SetLike.mem_coe, List.mem_toFinset] at isFree
    exact stuck (exists_firstFree_of_free given within.1 within.2 isFree)
  have counted := Finset.card_le_card_of_injOn _ allTaken (by rwa [Finset.coe_Ico])
  rw [Nat.card_Ico] at counted
  have distinct := taken.toFinset_card_le
  omega

end Search

section List

variable {Item Key : Type*} (key : Item → Key) (choose : List Key → Item → Option Item)

/-- Every item chosen anew, in order, given the keys used before it. -/
def chooseAll : List Key → List Item → Option (List Item)
  | _, [] => some []
  | used, item :: rest => do
      let chosen ← choose used item
      let others ← chooseAll (key chosen :: used) rest
      return chosen :: others

/-- The choice for an item: its own name where no other item has the key, else a name whose
key neither an item has nor a choice before. -/
def KeptOrFresh [DecidableEq Key] (originals used : List Key) (item chosen : Item) : Prop :=
  originals.count (key item) ≤ 1 ∧ chosen = item ∨ key chosen ∉ originals ∧ key chosen ∉ used

variable {key choose} {used : List Key} {items chosen : List Item}

theorem chooseAll_cons_eq_some {item : Item} {rest : List Item} :
    chooseAll key choose used (item :: rest) = some chosen ↔
      ∃ first others, choose used item = some first ∧
        chooseAll key choose (key first :: used) rest = some others ∧
        chosen = first :: others := by
  rw [chooseAll]
  constructor
  · intro all
    obtain ⟨first, here, all⟩ := Option.bind_eq_some_iff.mp all
    obtain ⟨others, later, done⟩ := Option.bind_eq_some_iff.mp all
    exact ⟨first, others, here, later, (Option.some.inj done).symm⟩
  · rintro ⟨first, others, here, later, done⟩
    rw [here, Option.bind_eq_bind, Option.bind_some, later, done]
    rfl

/-- What every choice gives of its item, it gives along the list. -/
theorem forall₂_of_chooseAll {relation : Item → Item → Prop}
    (each : ∀ used item first, item ∈ items → choose used item = some first →
      relation item first)
    (all : chooseAll key choose used items = some chosen) :
    List.Forall₂ relation items chosen := by
  induction items generalizing used chosen with
  | nil =>
    cases all
    exact .nil
  | cons item rest ih =>
    obtain ⟨first, others, here, later, rfl⟩ := chooseAll_cons_eq_some.mp all
    refine .cons (each used item first List.mem_cons_self here) (ih ?_ later)
    intro used item first member
    exact each used item first (List.mem_cons_of_mem _ member)

/-- A list is done when every choice succeeds with few keys used. -/
theorem exists_chooseAll
    {bound : ℕ} (each : ∀ used item, item ∈ items → used.length < bound →
      ∃ first, choose used item = some first)
    (few : used.length + items.length ≤ bound) :
    ∃ chosen, chooseAll key choose used items = some chosen := by
  induction items generalizing used with
  | nil => exact ⟨[], rfl⟩
  | cons item rest ih =>
    rw [List.length_cons] at few
    obtain ⟨first, here⟩ := each used item List.mem_cons_self (by omega)
    have fewer : (key first :: used).length + rest.length ≤ bound := by
      rw [List.length_cons]
      omega
    obtain ⟨others, later⟩ := ih
      (fun used item member => each used item (List.mem_cons_of_mem _ member)) fewer
    exact ⟨first :: others, chooseAll_cons_eq_some.mpr ⟨first, others, here, later, rfl⟩⟩

/-- A choice that agrees with another where that one succeeds does so along the list. -/
theorem chooseAll_mono {better : List Key → Item → Option Item}
    (agrees : ∀ used item first, choose used item = some first → better used item = some first)
    (all : chooseAll key choose used items = some chosen) :
    chooseAll key better used items = some chosen := by
  induction items generalizing used chosen with
  | nil => exact all
  | cons item rest ih =>
    obtain ⟨first, others, here, later, rfl⟩ := chooseAll_cons_eq_some.mp all
    exact chooseAll_cons_eq_some.mpr
      ⟨first, others, agrees _ _ _ here, ih later, rfl⟩

/-- **The keys a list is left with are pairwise different**, whatever its own keys were. -/
theorem chooseAll_nodup [DecidableEq Key] {originals before : List Key}
    (fits : ∀ used item first, choose used item = some first →
      KeptOrFresh key originals used item first)
    (split : originals = before ++ items.map key)
    (earlier : ∀ k ∈ used, k ∈ originals → k ∈ before)
    (all : chooseAll key choose used items = some chosen) :
    (chosen.map key).Nodup ∧ ∀ k ∈ chosen.map key, k ∉ used := by
  induction items generalizing used chosen before with
  | nil =>
    cases all
    exact ⟨List.nodup_nil, fun k member => absurd member List.not_mem_nil⟩
  | cons item rest ih =>
    obtain ⟨first, others, here, later, rfl⟩ := chooseAll_cons_eq_some.mp all
    rw [List.map_cons] at split
    have unused : key first ∉ used := by
      rcases fits _ _ _ here with ⟨unique, rfl⟩ | ⟨_, fresh⟩
      · intro isUsed
        have member : key first ∈ before := earlier _ isUsed (by simp [split])
        rw [split, List.count_append, List.count_cons_self] at unique
        have counted := List.count_pos_iff.mpr member
        omega
      · exact fresh
    have earlier' : ∀ k ∈ key first :: used, k ∈ originals → k ∈ before ++ [key item] := by
      intro k isUsed original
      rcases List.mem_cons.mp isUsed with rfl | isUsed
      · rcases fits _ _ _ here with ⟨_, rfl⟩ | ⟨fresh, _⟩
        · exact List.mem_append_right _ List.mem_cons_self
        · exact absurd original fresh
      · exact List.mem_append_left _ (earlier k isUsed original)
    obtain ⟨nodup, apart⟩ := ih (by rw [split, List.append_cons]) earlier' later
    rw [List.map_cons]
    refine ⟨List.nodup_cons.mpr ⟨?_, nodup⟩, ?_⟩
    · exact fun again => apart _ again List.mem_cons_self
    · intro k member
      rcases List.mem_cons.mp member with rfl | member
      · exact unused
      · exact fun isUsed => apart k member (List.mem_cons_of_mem _ isUsed)

end List

end FreshNames
