import Bitgarth.Accounts.Admission

/-! # What the operations do to the line of accounts

Each operation is described by what it does to the accounts in their order of admission: a
creation appends, a deletion filters, the repair appends the accounts that had no stamp, and
the accounts of an import are appended in the order of their source.
-/

namespace Bitgarth.Accounts

open Amounts Calendar Fallible RowSelection

variable {δ : Type}

/-- A reader of timestamps that reads back what was written. -/
def ReadsStamps (parse : String → Option ℤ) : Prop :=
  ∀ instant, InFourDigitYears instant → microsecond ∣ instant →
    parse (formatAdmissionTimestamp instant) = some instant

/-- An instant in the years of four digits with that many microseconds to go in them. -/
def Room (count : ℕ) (instant : ℤ) : Prop :=
  yearStart 0 * nanosecondsPerDay ≤ instant ∧
    instant + count * microsecond < yearStart 10000 * nanosecondsPerDay

instance (count : ℕ) : DecidablePred (Room count) := fun _ => inferInstanceAs (Decidable (_ ∧ _))

theorem Room.inFourDigitYears {count : ℕ} {instant : ℤ} (room : Room count instant) :
    InFourDigitYears instant := by
  obtain ⟨starts, ends⟩ := room
  unfold microsecond at ends
  refine ⟨starts, ?_⟩
  omega

theorem Room.mono {count fewer : ℕ} {instant : ℤ} (room : Room count instant)
    (le : fewer ≤ count) : Room fewer instant := by
  obtain ⟨starts, ends⟩ := room
  unfold microsecond at ends
  refine ⟨starts, ?_⟩
  unfold microsecond
  omega

/-- The row of an account with its stamp. -/
def stamp (entry : AdmissionRow δ × ℤ) : AdmissionRow δ :=
  { entry.1 with admittedAt := some (formatAdmissionTimestamp entry.2) }

/-- The rows of a table are the accounts of the line with their stamps, which ascend and have
room for `count` more. -/
structure Queued (count : ℕ) (queue : List (AdmissionRow δ × ℤ)) (rows : List (AdmissionRow δ)) :
    Prop where
  perm : rows.Perm (queue.map stamp)
  ids_nodup : (queue.map fun entry => entry.1.accountId).Nodup
  ascending : queue.Pairwise fun left right => left.2 < right.2
  whole : ∀ entry ∈ queue, microsecond ∣ entry.2
  room : ∀ entry ∈ queue, Room count entry.2

theorem nextAdmissionTimestamp_spec {count : ℕ} {now : ℤ} {previous : Option ℤ}
    (nowRoom : Room (count + 1) now) (previousRoom : ∀ instant ∈ previous, Room (count + 1) instant)
    (whole : ∀ instant ∈ previous, microsecond ∣ instant) :
    ∃ next, nextAdmissionTimestamp now previous = .ok next ∧ microsecond ∣ next ∧
      Room count next ∧ ∀ instant ∈ previous, instant < next := by
  obtain ⟨nowStarts, nowEnds⟩ := nowRoom
  have century : yearStart 0 * nanosecondsPerDay = microsecond * -62167219200000000 := by decide
  have late : yearStart 10000 * nanosecondsPerDay ≤ latestInstant := by decide
  have truncated : truncate now ≤ now ∧ yearStart 0 * nanosecondsPerDay ≤ truncate now := by
    rw [century] at nowStarts ⊢
    unfold truncate microsecond at *
    refine ⟨?_, ?_⟩ <;> omega
  have nowWhole : microsecond ∣ truncate now := Dvd.intro_left _ rfl
  cases previous with
  | none =>
    refine ⟨truncate now, rfl, nowWhole, ⟨truncated.2, ?_⟩, fun _ none => nomatch none⟩
    unfold microsecond at nowEnds ⊢
    omega
  | some previous =>
    obtain ⟨starts, ends⟩ := previousRoom previous rfl
    have divides := whole previous rfl
    have same : truncate previous = previous := Int.ediv_mul_cancel divides
    have early : ¬ latestInstant < previous + microsecond := by
      unfold microsecond at ends ⊢
      omega
    refine ⟨max (truncate now) (previous + microsecond), ?_, ?_, ⟨?_, ?_⟩, ?_⟩
    · rw [nextAdmissionTimestamp, same]
      exact if_neg early
    · rcases max_choice (truncate now) (previous + microsecond) with chosen | chosen
      · rw [chosen]
        exact nowWhole
      · rw [chosen]
        exact Int.dvd_add divides (dvd_refl _)
    · exact le_trans truncated.2 (le_max_left _ _)
    · have bound := truncated.1
      unfold microsecond at *
      omega
    · intro instant found
      obtain rfl := Option.mem_some_iff.mp found
      exact lt_of_lt_of_le (lt_add_of_pos_right _ (by decide)) (le_max_right _ _)

section Queue

variable {count : ℕ} {queue : List (AdmissionRow δ × ℤ)} {rows : List (AdmissionRow δ)}

theorem Queued.mono {fewer : ℕ} (queued : Queued count queue rows) (le : fewer ≤ count) :
    Queued fewer queue rows :=
  { queued with room := fun entry member => (queued.room entry member).mono le }

theorem Queued.admittedAt_perm (queued : Queued count queue rows) :
    (rows.map AdmissionRow.admittedAt).Perm
      (queue.map fun entry => some (formatAdmissionTimestamp entry.2)) := by
  have mapped := queued.perm.map AdmissionRow.admittedAt
  rwa [List.map_map] at mapped

theorem Queued.accountId_perm (queued : Queued count queue rows) :
    (rows.map AdmissionRow.accountId).Perm (queue.map fun entry => entry.1.accountId) := by
  have mapped := queued.perm.map AdmissionRow.accountId
  rwa [List.map_map] at mapped

theorem Queued.texts_ascending (queued : Queued count queue rows) :
    queue.Pairwise fun left right =>
      formatAdmissionTimestamp left.2 < formatAdmissionTimestamp right.2 := by
  refine queued.ascending.imp_of_mem ?_
  intro left right leftIn rightIn less
  exact (formatAdmissionTimestamp_lt_iff (queued.room left leftIn).inFourDigitYears
    (queued.room right rightIn).inFourDigitYears (queued.whole left leftIn)
    (queued.whole right rightIn)).mpr less

/-- Those left after a deletion stay in line. -/
theorem Queued.filter (queued : Queued count queue rows) (keep : AdmissionRow δ → Bool)
    (keeps : ∀ entry, keep (stamp entry) = keep entry.1) :
    Queued count (queue.filter fun entry => keep entry.1) (rows.filter keep) where
  perm := by
    have filtered := queued.perm.filter keep
    rw [List.filter_map] at filtered
    rwa [show (keep ∘ stamp) = fun entry => keep entry.1 from funext keeps] at filtered
  ids_nodup := queued.ids_nodup.sublist (List.filter_sublist.map _)
  ascending := queued.ascending.sublist List.filter_sublist
  whole entry member := queued.whole entry (List.mem_of_mem_filter member)
  room entry member := queued.room entry (List.mem_of_mem_filter member)

variable {parse : String → Option ℤ}

theorem parse_stamp (reads : ReadsStamps parse) (queued : Queued count queue rows)
    {entry : AdmissionRow δ × ℤ} (member : entry ∈ queue) :
    parse (formatAdmissionTimestamp entry.2) = some entry.2 :=
  reads _ (queued.room entry member).inFourDigitYears (queued.whole entry member)

theorem Queued.lastAdmissionTimestamp (reads : ReadsStamps parse)
    (queued : Queued count queue rows) :
    lastAdmissionTimestamp parse rows = .ok (queue.getLast?.map Prod.snd) := by
  have texts : (rows.filterMap AdmissionRow.admittedAt).Perm
      (queue.map fun entry => formatAdmissionTimestamp entry.2) := by
    have mapped := queued.perm.filterMap AdmissionRow.admittedAt
    rw [List.filterMap_map] at mapped
    rwa [show AdmissionRow.admittedAt ∘ stamp = fun entry : AdmissionRow δ × ℤ =>
      some (formatAdmissionTimestamp entry.2) from rfl, List.filterMap_eq_map'] at mapped
  unfold Accounts.lastAdmissionTimestamp
  rcases List.eq_nil_or_concat' queue with rfl | ⟨front, last, rfl⟩
  · rw [List.perm_nil.mp texts]
    rfl
  · have newest : (rows.filterMap AdmissionRow.admittedAt).max? =
        some (formatAdmissionTimestamp last.2) := by
      refine List.max?_eq_some_iff.mpr ⟨texts.mem_iff.mpr (by simp), ?_⟩
      intro text among
      obtain ⟨entry, member, rfl⟩ := List.mem_map.mp (texts.mem_iff.mp among)
      rcases List.mem_append.mp member with before | here
      · have ascending := queued.texts_ascending
        exact ((List.pairwise_append.mp ascending).2.2 entry before last
          List.mem_cons_self).le
      · rw [List.mem_singleton.mp here]
    have final : last ∈ front ++ [last] := by simp
    have read := parse_stamp reads queued final
    rw [newest]
    simp only [parseAdmissionTimestamp, read, Except.map, List.getLast?_append,
      List.getLast?_singleton, Option.some_or, Option.map_some]

theorem Queued.snoc {next : ℤ} {row : AdmissionRow δ} (queued : Queued (count + 1) queue rows)
    (fresh : row.accountId ∉ rows.map AdmissionRow.accountId) (whole : microsecond ∣ next)
    (room : Room count next) (later : ∀ instant ∈ queue.getLast?.map Prod.snd, instant < next) :
    Queued count (queue ++ [(row, next)])
      (rows ++ [{ row with admittedAt := some (formatAdmissionTimestamp next) }]) where
  perm := by
    rw [List.map_append]
    exact queued.perm.append_right _
  ids_nodup := by
    rw [List.map_append, List.nodup_append]
    refine ⟨queued.ids_nodup, List.nodup_singleton _, ?_⟩
    intro id among other here same
    rw [List.map_singleton, List.mem_singleton] at here
    exact fresh (queued.accountId_perm.mem_iff.mpr (here ▸ same ▸ among))
  ascending := by
    rw [List.pairwise_append]
    refine ⟨queued.ascending, List.pairwise_singleton _ _, ?_⟩
    intro entry among other here
    rw [List.mem_singleton.mp here]
    rcases List.eq_nil_or_concat' queue with rfl | ⟨front, last, rfl⟩
    · exact absurd among List.not_mem_nil
    · have beyond : last.2 < next := later last.2 (by simp)
      rcases List.mem_append.mp among with before | final
      · exact lt_trans ((List.pairwise_append.mp queued.ascending).2.2 entry before last
          List.mem_cons_self) beyond
      · rw [List.mem_singleton.mp final]
        exact beyond
  whole entry member := by
    rcases List.mem_append.mp member with before | here
    · exact queued.whole entry before
    · rw [List.mem_singleton.mp here]
      exact whole
  room entry member := by
    rcases List.mem_append.mp member with before | here
    · exact (queued.room entry before).mono (Nat.le_succ count)
    · rw [List.mem_singleton.mp here]
      exact room

theorem admitAccount_spec {now : ℤ} {row : AdmissionRow δ} {after : List (AdmissionRow δ)}
    (reads : ReadsStamps parse) (queued : Queued (count + 1) queue rows)
    (nowRoom : Room (count + 1) now) (done : admitAccount parse now rows row = .ok after) :
    ∃ instant, Queued count (queue ++ [(row, instant)]) after := by
  unfold admitAccount at done
  split at done
  · cases done
  · rename_i fresh
    rw [queued.lastAdmissionTimestamp reads] at done
    have roomy : ∀ instant ∈ queue.getLast?.map Prod.snd, Room (count + 1) instant := by
      intro instant found
      obtain ⟨entry, last, rfl⟩ := Option.map_eq_some_iff.mp found
      exact queued.room entry (List.mem_of_getLast? last)
    have whole : ∀ instant ∈ queue.getLast?.map Prod.snd, microsecond ∣ instant := by
      intro instant found
      obtain ⟨entry, last, rfl⟩ := Option.map_eq_some_iff.mp found
      exact queued.whole entry (List.mem_of_getLast? last)
    obtain ⟨next, stamped, divides, room, later⟩ := nextAdmissionTimestamp_spec nowRoom roomy whole
    obtain ⟨previous, same, done⟩ := bind_eq_ok.mp done
    obtain rfl := Except.ok.inj same
    rw [stamped] at done
    obtain ⟨admittedAt, same, done⟩ := bind_eq_ok.mp done
    obtain rfl := Except.ok.inj same
    obtain rfl := Except.ok.inj done
    exact ⟨next, queued.snoc fresh divides room later⟩

theorem foldlM_admitAccount_spec {now : ℤ} {created after : List (AdmissionRow δ)}
    (reads : ReadsStamps parse) (queued : Queued (created.length + count) queue rows)
    (nowRoom : Room (created.length + count) now)
    (done : created.foldlM (admitAccount parse now) rows = .ok after) :
    ∃ added, added.map Prod.fst = created ∧ Queued count (queue ++ added) after := by
  induction created generalizing queue rows with
  | nil =>
    rw [List.foldlM_nil, pure_eq_ok] at done
    rw [← done]
    refine ⟨[], rfl, ?_⟩
    rw [List.append_nil]
    exact queued.mono (Nat.le_add_left _ _)
  | cons row rest ih =>
    have step : (row :: rest).length + count = rest.length + count + 1 := by
      rw [List.length_cons]
      omega
    rw [step] at queued nowRoom
    rw [List.foldlM_cons] at done
    obtain ⟨middle, first, later⟩ := bind_eq_ok.mp done
    obtain ⟨instant, queued⟩ := admitAccount_spec reads queued nowRoom first
    obtain ⟨added, sameRows, queued⟩ := ih queued (nowRoom.mono (Nat.le_succ _)) later
    refine ⟨(row, instant) :: added, by rw [List.map_cons, sameRows], ?_⟩
    rwa [List.append_assoc] at queued

end Queue

/-! ## The order of the accounts -/

section Order

variable (parse : String → Option ℤ)

/-- The instant of an account's admission. -/
def AdmissionRow.instant (row : AdmissionRow δ) : Option ℤ := row.admittedAt.bind parse

/-- The order in which accounts are ranked: by instant, and then by id. -/
def AdmissionRow.key (row : AdmissionRow δ) : ℤ ×ₗ String :=
  toLex ((row.instant parse).getD 0, row.accountId)

/-- What an account is known by in the line. -/
def AdmissionRow.name (row : AdmissionRow δ) : String × δ := (row.accountId, row.details)

/-- The accounts with a stamp, in the order of their admission. -/
def admissionOrder (rows : List (AdmissionRow δ)) : List (String × δ) :=
  ((rows.filter fun row => (row.instant parse).isSome).insertionSort
    fun left right => left.key parse ≤ right.key parse).map AdmissionRow.name

/-- The accounts without a stamp, by the instant of their creation and then by id. -/
def unstampedOrder (rows : List (AdmissionRow δ)) : List (String × δ) :=
  ((rows.filter fun row => row.admittedAt.isNone).insertionSort fun left right =>
    toLex ((parse left.createdAt).getD 0, left.accountId) ≤
      toLex ((parse right.createdAt).getD 0, right.accountId)).map AdmissionRow.name

end Order

section Queue

variable {count : ℕ} {queue : List (AdmissionRow δ × ℤ)} {rows : List (AdmissionRow δ)}
  {parse : String → Option ℤ}

theorem Queued.instant_stamp (reads : ReadsStamps parse) (queued : Queued count queue rows)
    {entry : AdmissionRow δ × ℤ} (member : entry ∈ queue) :
    (stamp entry).instant parse = some entry.2 :=
  parse_stamp reads queued member

theorem Queued.admissionOrder (reads : ReadsStamps parse) (queued : Queued count queue rows) :
    admissionOrder parse rows = queue.map fun entry => entry.1.name := by
  have every : (rows.filter fun row => (row.instant parse).isSome) = rows := by
    refine List.filter_eq_self.mpr ?_
    intro row member
    obtain ⟨entry, among, rfl⟩ := List.mem_map.mp (queued.perm.mem_iff.mp member)
    rw [queued.instant_stamp reads among, Option.isSome_some]
  have ascending : (queue.map stamp).Pairwise fun left right =>
      left.key parse < right.key parse := by
    refine List.pairwise_map.mpr (queued.ascending.imp_of_mem ?_)
    intro left right leftIn rightIn less
    unfold AdmissionRow.key
    rw [queued.instant_stamp reads leftIn, queued.instant_stamp reads rightIn]
    exact Prod.Lex.left _ _ less
  unfold Accounts.admissionOrder
  rw [every, insertionSort_eq queued.perm.symm ascending, List.map_map]
  rfl

end Queue

/-! ## Accounts stamped again -/

section Restamped

variable {parse : String → Option ℤ}

/-- The stamps of a line as updates by id. -/
def stamps (queue : List (AdmissionRow δ × ℤ)) : List (String × String) :=
  queue.map fun entry => (entry.1.accountId, formatAdmissionTimestamp entry.2)

theorem readmit_of_mem {queue : List (AdmissionRow δ × ℤ)}
    (distinct : (queue.map fun entry => entry.1.accountId).Nodup) {entry : AdmissionRow δ × ℤ}
    (member : entry ∈ queue) {row : AdmissionRow δ} (same : row.accountId = entry.1.accountId) :
    row.readmit (stamps queue) =
      { row with admittedAt := some (formatAdmissionTimestamp entry.2) } := by
  have keys : ((stamps queue).map Prod.fst).Nodup := by
    rwa [stamps, List.map_map]
  have found : (stamps queue).lookup row.accountId = some (formatAdmissionTimestamp entry.2) :=
    lookup_eq_some_of_mem keys (same ▸ List.mem_map.mpr ⟨entry, member, rfl⟩)
  unfold AdmissionRow.readmit
  rw [found]

theorem readmit_of_notMem {queue : List (AdmissionRow δ × ℤ)} {row : AdmissionRow δ}
    (absent : row.accountId ∉ queue.map fun entry => entry.1.accountId) :
    row.readmit (stamps queue) = row := by
  have missing : (stamps queue).lookup row.accountId = none := by
    refine List.lookup_eq_none_iff.mpr ?_
    intro pair member
    obtain ⟨entry, among, rfl⟩ := List.mem_map.mp member
    refine bne_iff_ne.mpr ?_
    intro same
    exact absent (same ▸ List.mem_map.mpr ⟨entry, among, rfl⟩)
  unfold AdmissionRow.readmit
  rw [missing]

theorem assignAdmissions_append (previous : Option ℤ) (first second : List (String × ℤ)) :
    assignAdmissions previous (first ++ second) = (do
      let (kept, last) ← assignAdmissions previous first
      let (added, newest) ← assignAdmissions last second
      .ok (kept ++ added, newest)) := by
  induction first generalizing previous with
  | nil =>
    simp only [List.nil_append, assignAdmissions, bind, Except.bind]
    cases assignAdmissions previous second <;> rfl
  | cons request first ih =>
    rw [List.cons_append, assignAdmissions, assignAdmissions]
    cases nextAdmissionTimestamp request.2 previous with
    | error err => rfl
    | ok admittedAt =>
      simp only [ih, bind, Except.bind]
      cases assignAdmissions (some admittedAt) first with
      | error err => rfl
      | ok assigned =>
        simp only
        cases assignAdmissions assigned.2 second <;> rfl

theorem assignAdmissions_spec {count : ℕ} {requests : List (AdmissionRow δ × ℤ)}
    {previous : Option ℤ} (room : ∀ request ∈ requests, Room (requests.length + count) request.2)
    (previousRoom : ∀ instant ∈ previous, Room (requests.length + count) instant)
    (whole : ∀ instant ∈ previous, microsecond ∣ instant) :
    ∃ queue last, queue.map Prod.fst = requests.map Prod.fst ∧
      assignAdmissions previous (requests.map fun request => (request.1.accountId, request.2)) =
        .ok (stamps queue, last) ∧
      (∀ instant ∈ previous, ∀ entry ∈ queue, instant < entry.2) ∧
      queue.Pairwise (fun left right => left.2 < right.2) ∧
      ∀ entry ∈ queue, microsecond ∣ entry.2 ∧ Room count entry.2 := by
  induction requests generalizing previous with
  | nil =>
    refine ⟨[], previous, rfl, rfl, ?_, List.Pairwise.nil, ?_⟩
    · exact fun _ _ _ none => absurd none List.not_mem_nil
    · exact fun _ none => absurd none List.not_mem_nil
  | cons request rest ih =>
    have step : (request :: rest).length + count = rest.length + count + 1 := by
      rw [List.length_cons]
      omega
    rw [step] at room previousRoom
    obtain ⟨next, stamped, divides, nextRoom, later⟩ :=
      nextAdmissionTimestamp_spec (room request List.mem_cons_self) previousRoom whole
    obtain ⟨queue, last, rows, assigned, beyond, ascending, canonical⟩ := @ih (some next)
      (fun other member => (room other (List.mem_cons_of_mem _ member)).mono (Nat.le_succ _))
      (fun instant found => Option.mem_some_iff.mp found ▸ nextRoom)
      (fun instant found => Option.mem_some_iff.mp found ▸ divides)
    refine ⟨(request.1, next) :: queue, last, ?_, ?_, ?_, ?_, ?_⟩
    · rw [List.map_cons, List.map_cons, rows]
    · rw [List.map_cons, assignAdmissions, stamped]
      simp only [bind, Except.bind, assigned]
      rfl
    · intro instant found entry member
      have before := later instant found
      rcases List.mem_cons.mp member with rfl | among
      · exact before
      · exact lt_trans before (beyond next rfl entry among)
    · exact List.pairwise_cons.mpr ⟨fun entry among => beyond next rfl entry among, ascending⟩
    · intro entry member
      rcases List.mem_cons.mp member with rfl | among
      · exact ⟨divides, nextRoom.mono (Nat.le_add_left _ _)⟩
      · exact canonical entry among

theorem orderedRows_eq {rows : List (AdmissionRow δ)} {text : AdmissionRow δ → String}
    {result : List (String × ℤ)}
    (done : orderedRows parse (rows.map fun row => (row.accountId, text row)) = .ok result) :
    (∀ row ∈ rows, (parse (text row)).isSome) ∧
      result = (rows.insertionSort fun left right =>
        toLex ((parse (text left)).getD 0, left.accountId) ≤
          toLex ((parse (text right)).getD 0, right.accountId)).map
        fun row => (row.accountId, (parse (text row)).getD 0) := by
  unfold orderedRows at done
  obtain ⟨read, each, done⟩ := bind_eq_ok.mp done
  obtain rfl := Except.ok.inj done
  have readable : ∀ row ∈ rows, (parse (text row)).isSome := by
    intro row member
    obtain ⟨pair, -, parsed⟩ := (mem_of_mapM_eq_ok each).1 _ (List.mem_map.mpr ⟨row, member, rfl⟩)
    obtain ⟨instant, parsed, -⟩ := bind_eq_ok.mp parsed
    unfold parseAdmissionTimestamp at parsed
    cases found : parse (text row) with
    | none =>
      rw [found] at parsed
      cases parsed
    | some value => rfl
  refine ⟨readable, ?_⟩
  have listed : read = rows.map fun row => (row.accountId, (parse (text row)).getD 0) := by
    rw [List.mapM_map] at each
    refine (Except.ok.inj (each.symm.trans (mapM_eq_ok_map ?_)))
    intro row member
    obtain ⟨instant, found⟩ := Option.isSome_iff_exists.mp (readable row member)
    simp only [Function.comp_apply, parseAdmissionTimestamp, found, Option.getD_some]
    rfl
  rw [listed]
  exact (List.map_insertionSort
    (fun left right : AdmissionRow δ => toLex ((parse (text left)).getD 0, left.accountId) ≤
      toLex ((parse (text right)).getD 0, right.accountId))
    (fun left right : String × ℤ => toLex (left.2, left.1) ≤ toLex (right.2, right.1))
    (fun row => (row.accountId, (parse (text row)).getD 0)) rows
    fun left _ right _ => Iff.rfl).symm

theorem readmit_queued {count : ℕ} {queue : List (AdmissionRow δ × ℤ)}
    {rows : List (AdmissionRow δ)} (perm : (queue.map Prod.fst).Perm rows)
    (ids : (rows.map AdmissionRow.accountId).Nodup)
    (ascending : queue.Pairwise fun left right => left.2 < right.2)
    (canonical : ∀ entry ∈ queue, microsecond ∣ entry.2 ∧ Room count entry.2) :
    Queued count queue (rows.map (AdmissionRow.readmit (stamps queue))) := by
  have distinct : (queue.map fun entry => entry.1.accountId).Nodup := by
    have mapped := (perm.map AdmissionRow.accountId).nodup_iff.mpr ids
    rwa [List.map_map] at mapped
  refine ⟨?_, distinct, ascending, fun entry member => (canonical entry member).1,
    fun entry member => (canonical entry member).2⟩
  have restamped : (queue.map Prod.fst).map (AdmissionRow.readmit (stamps queue)) =
      queue.map stamp := by
    rw [List.map_map]
    exact List.map_congr_left fun entry member => readmit_of_mem distinct member rfl
  exact restamped ▸ (perm.symm.map _)

theorem filterMap_admittedAt (rows : List (AdmissionRow δ)) :
    (rows.filterMap fun row => row.admittedAt.map fun admittedAt => (row.accountId, admittedAt)) =
      (rows.filter fun row => row.admittedAt.isSome).map
        fun row => (row.accountId, row.admittedAt.getD "") := by
  induction rows with
  | nil => rfl
  | cons row rest ih =>
    cases present : row.admittedAt with
    | none =>
      rw [List.filterMap_cons_none (by rw [present]; rfl), ih,
        List.filter_cons_of_neg (by rw [present]; decide)]
    | some text =>
      rw [List.filterMap_cons_some (by rw [present]; rfl), ih,
        List.filter_cons_of_pos (by rw [present]; rfl), List.map_cons, present,
        Option.getD_some]

theorem admissionOrder_eq_of_readable {rows : List (AdmissionRow δ)}
    (readable : ∀ row ∈ rows.filter fun row => row.admittedAt.isSome,
      (parse (row.admittedAt.getD "")).isSome) :
    admissionOrder parse rows = (((rows.filter fun row => row.admittedAt.isSome).insertionSort
      fun left right => toLex ((parse (left.admittedAt.getD "")).getD 0, left.accountId) ≤
        toLex ((parse (right.admittedAt.getD "")).getD 0, right.accountId)).map
          AdmissionRow.name) := by
  have instants : ∀ row : AdmissionRow δ, row.admittedAt.isSome →
      row.instant parse = parse (row.admittedAt.getD "") := by
    intro row present
    obtain ⟨text, found⟩ := Option.isSome_iff_exists.mp present
    unfold AdmissionRow.instant
    rw [found, Option.bind_some, Option.getD_some]
  have same : (rows.filter fun row => (row.instant parse).isSome) =
      rows.filter fun row => row.admittedAt.isSome := by
    refine List.filter_congr ?_
    intro row member
    cases present : row.admittedAt.isSome with
    | false =>
      unfold AdmissionRow.instant
      rw [Option.isSome_eq_false_iff, Option.isNone_iff_eq_none] at present
      rw [present]
      rfl
    | true =>
      rw [instants row present]
      exact readable row (List.mem_filter.mpr ⟨member, present⟩)
  unfold admissionOrder
  rw [same]
  refine congrArg (List.map AdmissionRow.name) (insertionSort_congr ?_)
  intro left leftIn right rightIn
  unfold AdmissionRow.key
  rw [instants left (List.mem_filter.mp leftIn).2, instants right (List.mem_filter.mp rightIn).2]

theorem backfillAccountAdmission_spec {now : ℤ} {rows after : List (AdmissionRow δ)}
    (ids : (rows.map AdmissionRow.accountId).Nodup) (nowRoom : Room rows.length now)
    (room : ∀ row ∈ rows, ∀ instant ∈ row.instant parse, Room rows.length instant)
    (done : backfillAccountAdmission parse now rows = .ok after) :
    ∃ queue, Queued 0 queue after ∧
      queue.map (fun entry => entry.1.name) =
        admissionOrder parse rows ++ unstampedOrder parse rows := by
  unfold backfillAccountAdmission at done
  rw [filterMap_admittedAt] at done
  obtain ⟨existing, existingRead, done⟩ := bind_eq_ok.mp done
  obtain ⟨missing, missingRead, done⟩ := bind_eq_ok.mp done
  obtain ⟨⟨kept, previous⟩, keptOk, done⟩ := bind_eq_ok.mp done
  obtain ⟨⟨added, newest⟩, addedOk, done⟩ := bind_eq_ok.mp done
  obtain rfl := Except.ok.inj done
  obtain ⟨readable, rfl⟩ := orderedRows_eq existingRead
  obtain ⟨-, rfl⟩ := orderedRows_eq missingRead
  have order := admissionOrder_eq_of_readable readable
  have partition : ((rows.filter fun row => row.admittedAt.isSome) ++
      rows.filter fun row => row.admittedAt.isNone).Perm rows := by
    have split := List.filter_append_perm (fun row => row.admittedAt.isSome) rows
    simpa only [Option.not_isSome] using split
  unfold unstampedOrder
  rw [order]
  generalize sortedExisting : ((rows.filter fun row => row.admittedAt.isSome).insertionSort
      fun left right => toLex ((parse (left.admittedAt.getD "")).getD 0, left.accountId) ≤
        toLex ((parse (right.admittedAt.getD "")).getD 0, right.accountId)) = first at *
  generalize sortedMissing : ((rows.filter fun row => row.admittedAt.isNone).insertionSort
      fun left right => toLex ((parse left.createdAt).getD 0, left.accountId) ≤
        toLex ((parse right.createdAt).getD 0, right.accountId)) = second at *
  have firstPerm : first.Perm (rows.filter fun row => row.admittedAt.isSome) :=
    sortedExisting ▸ List.perm_insertionSort _ _
  have secondPerm : second.Perm (rows.filter fun row => row.admittedAt.isNone) :=
    sortedMissing ▸ List.perm_insertionSort _ _
  have arranged : (first ++ second).Perm rows := (firstPerm.append secondPerm).trans partition
  -- the accounts in their order, each with the stamp that is asked for it
  let requests : List (AdmissionRow δ × ℤ) :=
    (first.map fun row => (row, (parse (row.admittedAt.getD "")).getD 0)) ++
      second.map fun row => (row, now)
  have requestRows : requests.map Prod.fst = first ++ second := by
    simp only [requests, List.map_append, List.map_map, Function.comp_def, List.map_id']
  have length : requests.length = rows.length := by
    rw [← arranged.length_eq, ← requestRows, List.length_map]
  have roomy : ∀ request ∈ requests, Room (requests.length + 0) request.2 := by
    rw [Nat.add_zero, length]
    intro request member
    rcases List.mem_append.mp member with old | new
    · obtain ⟨row, among, rfl⟩ := List.mem_map.mp old
      have kept := firstPerm.mem_iff.mp among
      obtain ⟨instant, parsed⟩ := Option.isSome_iff_exists.mp (readable row kept)
      obtain ⟨text, found⟩ := Option.isSome_iff_exists.mp (List.mem_filter.mp kept).2
      rw [found, Option.getD_some] at parsed
      simp only [found, Option.getD_some, parsed]
      refine room row (List.mem_of_mem_filter kept) instant ?_
      unfold AdmissionRow.instant
      rw [found, Option.bind_some]
      exact parsed
    · obtain ⟨row, among, rfl⟩ := List.mem_map.mp new
      exact nowRoom
  obtain ⟨queue, last, sameRows, assigned, -, ascending, canonical⟩ :=
    @assignAdmissions_spec _ _ _ none roomy (fun _ none => nomatch none)
      (fun _ none => nomatch none)
  have together : kept ++ added = stamps queue := by
    have joined := assignAdmissions_append none
      (first.map fun row => (row.accountId, (parse (row.admittedAt.getD "")).getD 0))
      (second.map fun row => (row.accountId, now))
    have requested : requests.map (fun request => (request.1.accountId, request.2)) =
        (first.map fun row => (row.accountId, (parse (row.admittedAt.getD "")).getD 0)) ++
          second.map fun row => (row.accountId, now) := by
      simp only [requests, List.map_append, List.map_map]
      rfl
    have addedOk' : assignAdmissions previous (second.map fun row => (row.accountId, now)) =
        .ok (added, newest) := by
      rw [← addedOk, List.map_map]
      rfl
    rw [← requested, assigned, keptOk] at joined
    simp only [bind, Except.bind, addedOk'] at joined
    exact (congrArg Prod.fst (Except.ok.inj joined)).symm
  rw [together]
  refine ⟨queue, readmit_queued ?_ ids ascending canonical, ?_⟩
  · rw [sameRows, requestRows]
    exact arranged
  · rw [← List.map_append, ← requestRows, ← sameRows, List.map_map]
    rfl

theorem Queued.newest {count : ℕ} {queue added : List (AdmissionRow δ × ℤ)}
    {rows : List (AdmissionRow δ)} (queued : Queued count (queue ++ added) rows) :
    ((rows.map fun row => (row.admittedAt : WithBot String)).insertionSort
      fun left right => right ≤ left).take added.length =
        (added.map fun entry =>
          ((formatAdmissionTimestamp entry.2 : String) : WithBot String)).reverse := by
  have perm : (rows.map fun row => (row.admittedAt : WithBot String)).Perm
      ((queue ++ added).map fun entry =>
        ((formatAdmissionTimestamp entry.2 : String) : WithBot String)) :=
    queued.admittedAt_perm
  have total : Std.Total fun left right : WithBot String => right ≤ left :=
    ⟨fun left right => le_total _ _⟩
  have transitive : IsTrans (WithBot String) fun left right => right ≤ left :=
    ⟨fun _ _ _ first second => le_trans second first⟩
  have descending : (((queue ++ added).map fun entry =>
      ((formatAdmissionTimestamp entry.2 : String) : WithBot String)).reverse).Pairwise
        fun left right => right ≤ left := by
    rw [List.pairwise_reverse, List.pairwise_map]
    exact queued.texts_ascending.imp fun less => WithBot.coe_le_coe.mpr less.le
  have sorted : ((rows.map fun row => (row.admittedAt : WithBot String)).insertionSort
      fun left right => right ≤ left) = ((queue ++ added).map fun entry =>
        ((formatAdmissionTimestamp entry.2 : String) : WithBot String)).reverse := by
    refine @List.Perm.eq_of_pairwise _ (fun left right => right ≤ left) _ _
      (fun _ _ _ _ atMost atLeast => le_antisymm atLeast atMost)
      (List.pairwise_insertionSort _ _) descending ?_
    exact (List.perm_insertionSort _ _).trans (perm.trans (List.reverse_perm _).symm)
  rw [sorted, List.map_append, List.reverse_append]
  exact List.take_left' (by rw [List.length_reverse, List.length_map])

theorem Queued.reassign {count : ℕ} {queue added : List (AdmissionRow δ × ℤ)}
    {rows sorted : List (AdmissionRow δ)} (queued : Queued count (queue ++ added) rows)
    (perm : sorted.Perm (added.map Prod.fst)) :
    Queued count (queue ++ sorted.zip (added.map Prod.snd))
      (rows.map (AdmissionRow.readmit (stamps (sorted.zip (added.map Prod.snd))))) := by
  have length : sorted.length = (added.map Prod.snd).length := by
    rw [perm.length_eq, List.length_map, List.length_map]
  have firsts : (sorted.zip (added.map Prod.snd)).map Prod.fst = sorted :=
    List.map_fst_zip length.le
  have seconds : (sorted.zip (added.map Prod.snd)).map Prod.snd = added.map Prod.snd :=
    List.map_snd_zip length.ge
  generalize sorted.zip (added.map Prod.snd) = restamped at firsts seconds
  have idsPerm : (restamped.map fun entry => entry.1.accountId).Perm
      (added.map fun entry => entry.1.accountId) := by
    have mapped := (firsts ▸ perm).map AdmissionRow.accountId
    rwa [List.map_map, List.map_map] at mapped
  have ids := queued.ids_nodup
  rw [List.map_append, List.nodup_append] at ids
  have distinct := idsPerm.nodup_iff.mpr ids.2.1
  have found : ∀ entry ∈ added, ∃ other ∈ restamped, entry.1.accountId = other.1.accountId := by
    intro entry member
    obtain ⟨other, among, same⟩ := List.mem_map.mp
      (idsPerm.mem_iff.mpr (List.mem_map.mpr ⟨entry, member, rfl⟩))
    exact ⟨other, among, same.symm⟩
  have times : (queue ++ restamped).map Prod.snd = (queue ++ added).map Prod.snd := by
    rw [List.map_append, List.map_append, seconds]
  have times_mem : ∀ entry ∈ queue ++ restamped, ∃ other ∈ queue ++ added, other.2 = entry.2 := by
    intro entry member
    exact List.mem_map.mp (times ▸ List.mem_map.mpr ⟨entry, member, rfl⟩)
  refine ⟨?_, ?_, ?_, ?_, ?_⟩
  · have kept : (queue.map stamp).map (AdmissionRow.readmit (stamps restamped)) =
        queue.map stamp := by
      rw [List.map_map]
      refine List.map_congr_left ?_
      intro entry member
      refine @readmit_of_notMem _ _ (stamp entry) ?_
      intro among
      exact ids.2.2 _ (List.mem_map.mpr ⟨entry, member, rfl⟩) _ (idsPerm.mem_iff.mp among) rfl
    have moved : (added.map stamp).map (AdmissionRow.readmit (stamps restamped)) =
        (added.map Prod.fst).map (AdmissionRow.readmit (stamps restamped)) := by
      rw [List.map_map, List.map_map]
      refine List.map_congr_left ?_
      intro entry member
      obtain ⟨other, among, same⟩ := found entry member
      rw [Function.comp_apply, Function.comp_apply, readmit_of_mem distinct among same,
        @readmit_of_mem _ _ distinct _ among (stamp entry) same]
      rfl
    have restampedRows : (restamped.map Prod.fst).map (AdmissionRow.readmit (stamps restamped)) =
        restamped.map stamp := by
      rw [List.map_map]
      exact List.map_congr_left fun entry member => readmit_of_mem distinct member rfl
    have mapped := queued.perm.map (AdmissionRow.readmit (stamps restamped))
    rw [List.map_append, List.map_append, kept, moved] at mapped
    rw [List.map_append, ← restampedRows, firsts]
    exact mapped.trans ((perm.symm.map _).append_left _)
  · rw [List.map_append, List.nodup_append]
    refine ⟨ids.1, distinct, ?_⟩
    intro id before other after
    exact ids.2.2 id before other (idsPerm.mem_iff.mp after)
  · have ascending := List.pairwise_map.mpr queued.ascending
    rw [← times] at ascending
    exact List.pairwise_map.mp ascending
  · intro entry member
    obtain ⟨other, among, same⟩ := times_mem entry member
    exact same ▸ queued.whole other among
  · intro entry member
    obtain ⟨other, among, same⟩ := times_mem entry member
    exact same ▸ queued.room other among

theorem reorderNewAdmissions_spec {created : List (CreatedAccount δ)}
    {queue added : List (AdmissionRow δ × ℤ)} {rows after : List (AdmissionRow δ)}
    (queued : Queued 0 (queue ++ added) rows)
    (addedRows : added.map Prod.fst = created.map CreatedAccount.row)
    (done : reorderNewAdmissions (created.map CreatedAccount.admission) rows = .ok after) :
    ∃ sorted, Queued 0 (queue ++ sorted) after ∧
      sorted.map (fun entry => entry.1.name) =
        (created.insertionSort fun left right => left.admission.key ≤ right.admission.key).map
          fun account => account.row.name := by
  have addedNames : added.map (fun entry => entry.1.name) =
      created.map fun account => account.row.name := by
    have names := congrArg (List.map AdmissionRow.name) addedRows
    rwa [List.map_map, List.map_map] at names
  have arranged : sortedAdmissions (created.map CreatedAccount.admission) =
      (created.insertionSort fun left right =>
        left.admission.key ≤ right.admission.key).map CreatedAccount.admission := by
    unfold sortedAdmissions
    exact (List.map_insertionSort
      (fun left right : CreatedAccount δ => left.admission.key ≤ right.admission.key)
      (fun left right : NewAdmission => left.key ≤ right.key) CreatedAccount.admission created
      fun _ _ _ _ => Iff.rfl).symm
  have sortedPerm := List.perm_insertionSort
    (fun left right : CreatedAccount δ => left.admission.key ≤ right.admission.key) created
  have createdIds : (created.map fun account => account.row.accountId).Nodup := by
    have ids := queued.ids_nodup
    rw [List.map_append, List.nodup_append] at ids
    have same := congrArg (List.map AdmissionRow.accountId) addedRows
    rw [List.map_map, List.map_map] at same
    exact same ▸ ids.2.1
  unfold reorderNewAdmissions at done
  rw [arranged] at done
  generalize (created.insertionSort fun left right =>
    left.admission.key ≤ right.admission.key) = sorted at *
  have count : added.length = created.length := by
    rw [← List.length_map Prod.fst, addedRows, List.length_map]
  split at done
  · rename_i short
    obtain rfl := Except.ok.inj done
    refine ⟨added, queued, ?_⟩
    rw [List.length_map] at short
    have same : sorted = created := by
      match created, short, sortedPerm with
      | [], _, perm => exact List.perm_nil.mp perm
      | [_], _, perm => exact List.perm_singleton.mp perm
    rw [same, addedNames]
  · split at done
    · rename_i unchanged
      obtain rfl := Except.ok.inj done
      rw [List.map_map, List.map_map] at unchanged
      refine ⟨added, queued, ?_⟩
      rw [eq_of_map_eq_map createdIds sortedPerm unchanged, addedNames]
    · rw [List.length_map, ← count, queued.newest] at done
      dsimp only at done
      rw [@mapM_eq_ok_map _ _ _ _ (fun admittedAt => WithBot.unbotD "" admittedAt)] at done
      swap
      · intro text member
        obtain ⟨entry, -, rfl⟩ := List.mem_map.mp (List.mem_reverse.mp member)
        rfl
      obtain ⟨timestamps, read, done⟩ := bind_eq_ok.mp done
      obtain rfl := Except.ok.inj read
      rw [if_neg (by simp)] at done
      obtain rfl := Except.ok.inj done
      have sortedRows : (sorted.map CreatedAccount.row).Perm (added.map Prod.fst) :=
        addedRows ▸ sortedPerm.map CreatedAccount.row
      have handed : (((sorted.map CreatedAccount.admission).map NewAdmission.accountId).zip
          ((added.map fun entry =>
            ((formatAdmissionTimestamp entry.2 : String) : WithBot String)).reverse.map
              fun admittedAt => WithBot.unbotD "" admittedAt).reverse) =
          stamps ((sorted.map CreatedAccount.row).zip (added.map Prod.snd)) := by
        have zipped := @List.zip_map _ _ _ _ AdmissionRow.accountId formatAdmissionTimestamp
          (sorted.map CreatedAccount.row) (added.map Prod.snd)
        rw [List.map_map, List.map_map] at zipped
        rw [← List.map_reverse, List.reverse_reverse, List.map_map, List.map_map]
        exact zipped
      rw [handed]
      refine ⟨_, queued.reassign sortedRows, ?_⟩
      have firsts : ((sorted.map CreatedAccount.row).zip (added.map Prod.snd)).map Prod.fst =
          sorted.map CreatedAccount.row := by
        refine List.map_fst_zip ?_
        rw [sortedRows.length_eq, List.length_map, List.length_map]
      have names := congrArg (List.map AdmissionRow.name) firsts
      rwa [List.map_map, List.map_map] at names

theorem importAdmissions_spec {now : ℤ} {created : List (CreatedAccount δ)}
    {queue : List (AdmissionRow δ × ℤ)} {rows after : List (AdmissionRow δ)}
    (reads : ReadsStamps parse) (queued : Queued created.length queue rows)
    (nowRoom : Room created.length now)
    (done : importAdmissions parse now created rows = .ok after) :
    ∃ added, Queued 0 (queue ++ added) after ∧
      added.map (fun entry => entry.1.name) =
        (created.insertionSort fun left right => left.admission.key ≤ right.admission.key).map
          fun account => account.row.name := by
  have size : (created.map CreatedAccount.row).length + 0 = created.length := by
    rw [List.length_map, Nat.add_zero]
  obtain ⟨admitted, first, later⟩ := bind_eq_ok.mp done
  rw [← size] at queued nowRoom
  obtain ⟨added, addedRows, queued⟩ := foldlM_admitAccount_spec reads queued nowRoom first
  exact reorderNewAdmissions_spec queued addedRows later

end Restamped

end Bitgarth.Accounts
