import YogSothoth.Persistence.SignalFeed

namespace YogSothoth.Signals

/-- The `signals` table: its ids are unique. -/
structure SignalsTable where
  records : List SignalRecord
  unique : (records.map SignalRecord.id).Nodup

namespace SignalsTable

variable (texts : Texts) (table : SignalsTable) (filter : SignalFilter) (limit : Int)

/-- One read of the feed over this table. -/
def page (q : Query) : Except RepositoryError (Page SignalRecord) :=
  list texts (tableOf texts table.records) filter q.cursor q.direction q.position limit

/-- The pages a reader comes to by the cursors of the pages read before, in any order. -/
inductive Reached : Page SignalRecord → Prop
  | first {p : Page SignalRecord} (hp : table.page texts filter limit ⟨none, .next, none⟩ = .ok p) :
      Reached p
  | last {p : Page SignalRecord}
      (hp : table.page texts filter limit ⟨none, .next, some .last⟩ = .ok p) : Reached p
  | next {p p' : Page SignalRecord} {q : Query} (h : Reached p)
      (hq : Query.follow .next p.nextCursor = some q)
      (hp : table.page texts filter limit q = .ok p') : Reached p'
  | prev {p p' : Page SignalRecord} {q : Query} (h : Reached p)
      (hq : Query.follow .prev p.prevCursor = some q)
      (hp : table.page texts filter limit q = .ok p') : Reached p'

/-- A page as a stretch of the feed, empty only when the feed is. -/
def Stretch (p : Page SignalRecord) : Prop :=
  ∃ before items after, feed table.records filter = before ++ items ++ after ∧
    (items = [] → feed table.records filter = []) ∧ p = segmentPage makeCursor before items after

variable {texts table filter limit}

theorem stretch_of_take {A B : List SignalRecord} {n : Nat} (hn : 0 < n)
    (h : feed table.records filter = A ++ B) (hB : B = [] → feed table.records filter = []) :
    table.Stretch filter (segmentPage makeCursor A (B.take n) (B.drop n)) := by
  refine ⟨A, B.take n, B.drop n, ?_, ?_, rfl⟩
  · rw [h, List.append_assoc, List.take_append_drop]
  · intro hnil
    apply hB
    exact (List.take_eq_nil_iff.mp hnil).resolve_left hn.ne'

theorem stretch_of_drop {A B : List SignalRecord} {n : Nat} (hn : 0 < n)
    (h : feed table.records filter = A ++ B) (hA : A = [] → feed table.records filter = []) :
    table.Stretch filter
      (segmentPage makeCursor (A.take (A.length - n)) (A.drop (A.length - n)) B) := by
  refine ⟨A.take (A.length - n), A.drop (A.length - n), B, ?_, ?_, rfl⟩
  · rw [h, List.take_append_drop]
  · intro hnil
    apply hA
    rw [List.drop_eq_nil_iff] at hnil
    rw [← List.length_eq_zero_iff]
    omega

theorem follow_makeCursor (d : PageDirection) (a : SignalRecord) :
    Query.follow d (some (makeCursor a)) = some ⟨some (cursorOf a), d, none⟩ := rfl

theorem Stretch.next {p p' : Page SignalRecord} {q : Query} (h : table.Stretch filter p)
    (hq : Query.follow .next p.nextCursor = some q)
    (hp : table.page texts filter limit q = .ok p') : table.Stretch filter p' := by
  obtain ⟨before, items, after, hfeed, hempty, rfl⟩ := h
  rcases List.eq_nil_or_concat' items with hnil | ⟨M, a, rfl⟩
  · simp [segmentPage, hnil, Query.follow] at hq
  · by_cases hafter : after = []
    · simp [segmentPage, hafter, Query.follow] at hq
    · have hsplit : feed table.records filter = (before ++ M) ++ a :: after := by
        rw [hfeed]
        simp
      have hcursor : (segmentPage makeCursor before (M ++ [a]) after).nextCursor =
          some (makeCursor a) := by simp [segmentPage, hafter]
      rw [hcursor, follow_makeCursor, Option.some.injEq] at hq
      subst hq
      rw [page, list_next texts table.unique limit hsplit, Except.ok.injEq] at hp
      subst hp
      apply stretch_of_take (effectiveLimit_pos limit)
      · rw [hsplit]
        simp
      · exact fun hnil => absurd hnil hafter

theorem Stretch.prev {p p' : Page SignalRecord} {q : Query} (h : table.Stretch filter p)
    (hq : Query.follow .prev p.prevCursor = some q)
    (hp : table.page texts filter limit q = .ok p') : table.Stretch filter p' := by
  obtain ⟨before, items, after, hfeed, hempty, rfl⟩ := h
  cases items with
  | nil => simp [segmentPage, Query.follow] at hq
  | cons a M =>
    by_cases hbefore : before = []
    · simp [segmentPage, hbefore, Query.follow] at hq
    · have hsplit : feed table.records filter = before ++ a :: (M ++ after) := by
        rw [hfeed]
        simp
      have hcursor : (segmentPage makeCursor before (a :: M) after).prevCursor =
          some (makeCursor a) := by simp [segmentPage, hbefore]
      rw [hcursor, follow_makeCursor, Option.some.injEq] at hq
      subst hq
      rw [page, list_prev texts table.unique limit hsplit, Except.ok.injEq] at hp
      subst hp
      exact stretch_of_drop (effectiveLimit_pos limit) hsplit (fun hnil => absurd hnil hbefore)

theorem Reached.stretch {p : Page SignalRecord} (h : table.Reached texts filter limit p) :
    table.Stretch filter p := by
  induction h with
  | first hp =>
    rw [page, list_first texts table.unique limit ⟨none, .next, none⟩ (.inr ⟨rfl, rfl⟩),
      Except.ok.injEq] at hp
    subst hp
    exact stretch_of_take (effectiveLimit_pos limit) rfl id
  | last hp =>
    rw [page, list_last texts table.unique limit, Except.ok.injEq] at hp
    subst hp
    exact stretch_of_drop (effectiveLimit_pos limit) (List.append_nil _).symm id
  | next _ hq hp ih => exact ih.next hq hp
  | prev _ hq hp ih => exact ih.prev hq hp

/-- A page links back exactly when a record comes before it, and on when one follows. -/
theorem Stretch.cursors {p : Page SignalRecord} (h : table.Stretch filter p) :
    (p.prevCursor.isSome = true ↔ ∃ r ∈ feed table.records filter, ∀ x ∈ p.items, x.key < r.key) ∧
    (p.nextCursor.isSome = true ↔ ∃ r ∈ feed table.records filter, ∀ x ∈ p.items, r.key < x.key) := by
  obtain ⟨before, items, after, hfeed, hempty, rfl⟩ := h
  have hsorted := feed_sorted table.unique filter
  by_cases hitems : items = []
  · simp [segmentPage, hitems, hempty hitems]
  · rw [hfeed] at hsorted ⊢
    have hhead : items.head?.isSome = true := by simpa using hitems
    have hlast : items.getLast?.isSome = true := by simpa using hitems
    constructor
    · refine Iff.trans ?_ (hsorted.exists_before hitems)
      by_cases hbefore : before = [] <;> simp [segmentPage, hbefore, hitems]
    · refine Iff.trans ?_ (hsorted.exists_after hitems)
      by_cases hafter : after = [] <;> simp [segmentPage, hafter, hitems]

theorem follows_next (texts : Texts) (table : SignalsTable) (filter : SignalFilter) (limit : Int) :
    Follows (table.page texts filter limit) (fun p => Query.follow .next p.nextCursor)
      ⟨none, .next, none⟩ ((List.range (chunkCount (effectiveLimit limit)
        (feed table.records filter))).map
          (forwardPage makeCursor (feed table.records filter) (effectiveLimit limit))) := by
  apply follows_forward id _ (fun _ => rfl) (effectiveLimit_pos limit) rfl (follow_makeCursor .next)
  · exact list_first texts table.unique limit ⟨none, .next, none⟩ (.inr ⟨rfl, rfl⟩)
  · intro A a B h
    exact list_next texts table.unique limit h

theorem follows_prev (texts : Texts) (table : SignalsTable) (filter : SignalFilter) (limit : Int) :
    Follows (table.page texts filter limit) (fun p => Query.follow .prev p.prevCursor)
      ⟨none, .next, some .last⟩ ((List.range (chunkCount (effectiveLimit limit)
        (feed table.records filter))).map
          (backwardPage makeCursor (feed table.records filter) (effectiveLimit limit))) := by
  apply follows_backward _ (effectiveLimit_pos limit) rfl (follow_makeCursor .prev)
  · exact list_last texts table.unique limit none .next
  · intro A a B h
    exact list_prev texts table.unique limit h

/-- Back from a page read forward, the page before it, whole. -/
theorem page_back (texts : Texts) (table : SignalsTable) (filter : SignalFilter) (limit : Int)
    {i : Nat} (hi : i + 1 < chunkCount (effectiveLimit limit) (feed table.records filter)) :
    ∃ q, Query.follow .prev (forwardPage makeCursor (feed table.records filter)
        (effectiveLimit limit) (i + 1)).prevCursor = some q ∧
      table.page texts filter limit q =
        .ok (forwardPage makeCursor (feed table.records filter) (effectiveLimit limit) i) := by
  have hn := effectiveLimit_pos limit
  have hlt := (lt_chunkCount hn _ i).mp hi
  have hmul : (i + 1) * effectiveLimit limit = i * effectiveLimit limit + effectiveLimit limit :=
    Nat.succ_mul i _
  obtain ⟨a, B, hB⟩ : ∃ a B,
      (feed table.records filter).drop ((i + 1) * effectiveLimit limit) = a :: B := by
    rw [← List.ne_nil_iff_exists_cons, ne_eq, List.drop_eq_nil_iff]
    omega
  have hsplit : feed table.records filter =
      (feed table.records filter).take ((i + 1) * effectiveLimit limit) ++ a :: B := by
    rw [← hB, List.take_append_drop]
  have hbefore : ((feed table.records filter).take ((i + 1) * effectiveLimit limit)).isEmpty =
      false := by
    rw [List.isEmpty_eq_false_iff, ← List.length_pos_iff, List.length_take]
    omega
  have hlen : ((feed table.records filter).take ((i + 1) * effectiveLimit limit)).length -
      effectiveLimit limit = i * effectiveLimit limit := by
    rw [List.length_take]
    omega
  have hmin : min (i * effectiveLimit limit) ((i + 1) * effectiveLimit limit) =
      i * effectiveLimit limit := by omega
  have hcut : (i + 1) * effectiveLimit limit - i * effectiveLimit limit = effectiveLimit limit := by
    omega
  refine ⟨⟨some (cursorOf a), .prev, none⟩, ?_, ?_⟩
  · have hhead : (chunk (effectiveLimit limit) (feed table.records filter) (i + 1)).head? = some a := by
      rw [chunk, List.head?_take, if_neg hn.ne', hB]
      rfl
    simp only [forwardPage, segmentPage, hbefore, hhead, Option.map_some, Bool.false_eq_true, if_false]
    rfl
  · have hpage := list_prev texts table.unique limit hsplit
    rw [hlen, List.take_take, hmin, List.drop_take, hcut] at hpage
    rw [page, hpage, forwardPage, hB]
    rfl

end SignalsTable

/-- Forward by the next cursors the feed is read whole, once and newest first; backward from its
end by the previous ones, whole again. Only the ends are flagged, going back from a page gives the
page before it, and a page links exactly to what stands around it. -/
theorem feed_read_whole (texts : Texts) (table : SignalsTable) (filter : SignalFilter) (limit : Int) :
    (feed table.records filter).Pairwise (fun a b => b.key < a.key) ∧
    (∀ r, r ∈ feed table.records filter ↔ r ∈ table.records ∧ r.matched filter = true) ∧
    ∃ forward backward : List (Page SignalRecord),
      (∀ ps, Follows (table.page texts filter limit) (fun p => Query.follow .next p.nextCursor)
        ⟨none, .next, none⟩ ps ↔ ps = forward) ∧
      (∀ ps, Follows (table.page texts filter limit) (fun p => Query.follow .prev p.prevCursor)
        ⟨none, .next, some .last⟩ ps ↔ ps = backward) ∧
      (forward.map Page.items).flatten = feed table.records filter ∧
      (∀ i p, forward[i]? = some p → (p.isLast = true ↔ i + 1 = forward.length)) ∧
      (backward.reverse.map Page.items).flatten = feed table.records filter ∧
      (∀ i p, backward[i]? = some p → (p.isFirst = true ↔ i + 1 = backward.length)) ∧
      (∀ i p s, forward[i]? = some p → forward[i + 1]? = some s →
        ∃ q, Query.follow .prev s.prevCursor = some q ∧ table.page texts filter limit q = .ok p) ∧
      (∀ p ∈ forward ++ backward, table.Reached texts filter limit p) ∧
      ∀ p, table.Reached texts filter limit p →
        (p.prevCursor.isSome = true ↔
          ∃ r ∈ feed table.records filter, ∀ x ∈ p.items, x.key < r.key) ∧
        (p.nextCursor.isSome = true ↔
          ∃ r ∈ feed table.records filter, ∀ x ∈ p.items, r.key < x.key) := by
  have hn := effectiveLimit_pos limit
  have hnext := table.follows_next texts filter limit
  have hprev := table.follows_prev texts filter limit
  refine ⟨feed_sorted table.unique filter, ?_, _, _, fun ps => hnext.iff_eq,
    fun ps => hprev.iff_eq, ?_, ?_, ?_, ?_, ?_, ?_, fun p hp => hp.stretch.cursors⟩
  · intro r
    rw [feed, mem_orderBy, List.mem_filter]
  · rw [List.map_map]
    exact flatten_chunks hn _
  · intro i p hp
    rw [List.getElem?_map, Option.map_eq_some_iff] at hp
    obtain ⟨j, hj, rfl⟩ := hp
    obtain ⟨hlt, rfl⟩ := List.getElem?_eq_some_iff.mp hj
    rw [List.getElem_range, isLast_forwardPage makeCursor _ hn, List.length_map, List.length_range]
    rw [List.length_range] at hlt
    omega
  · have h := congrArg List.reverse (flatten_chunks hn (feed table.records filter).reverse)
    rw [List.reverse_reverse, List.reverse_flatten, List.map_map, ← List.map_reverse,
      chunkCount_reverse] at h
    rw [← List.map_reverse, List.map_map]
    exact h
  · intro i p hp
    rw [List.getElem?_map, Option.map_eq_some_iff] at hp
    obtain ⟨j, hj, rfl⟩ := hp
    obtain ⟨hlt, rfl⟩ := List.getElem?_eq_some_iff.mp hj
    rw [List.getElem_range, isFirst_backwardPage makeCursor _ hn, List.length_map,
      List.length_range]
    rw [List.length_range] at hlt
    omega
  · intro i p s hp hs
    rw [List.getElem?_map, Option.map_eq_some_iff] at hp hs
    obtain ⟨j, hj, rfl⟩ := hp
    obtain ⟨k, hk, rfl⟩ := hs
    obtain ⟨_, rfl⟩ := List.getElem?_eq_some_iff.mp hj
    obtain ⟨hlt, rfl⟩ := List.getElem?_eq_some_iff.mp hk
    rw [List.length_range] at hlt
    rw [List.getElem_range, List.getElem_range]
    exact table.page_back texts filter limit hlt
  · intro p hp
    rcases List.mem_append.mp hp with hp | hp
    · exact hnext.forall (fun _ h => .first h) (fun _ _ _ h hq hp => .next h hq hp) p hp
    · exact hprev.forall (fun _ h => .last h) (fun _ _ _ h hq hp => .prev h hq hp) p hp

theorem noValue_bits : (0 : Int).natAbs < 2 ^ 96 := by decide

/-- A record of a pool, at a whole second. -/
def signalAt (id : Int64) (second : Int) : SignalRecord :=
  ⟨id, ⟨"tvl_drain", .meteoraDammV2, zeroPubkey, .warning, ⟨0, 0, noValue_bits,
    wholeDigits⟩, none, none, second * 10 ^ 9⟩⟩

/-- Three records of one moment, kept in no order, and an older one of a later id. -/
def tiedSignals : SignalsTable where
  records := [signalAt 2 1767225600, signalAt 4 1767225540, signalAt 3 1767225600,
    signalAt 1 1767225600]
  unique := by decide

/-- The records of one moment fall on both sides of a page's end, from either end of the feed. -/
theorem feed_read_whole_tied : ∃ forward backward : List (Page SignalRecord),
    (∀ ps, Follows (tiedSignals.page Texts.plain ⟨none, none, none⟩ 2)
      (fun p => Query.follow .next p.nextCursor) ⟨none, .next, none⟩ ps ↔ ps = forward) ∧
    (∀ ps, Follows (tiedSignals.page Texts.plain ⟨none, none, none⟩ 2)
      (fun p => Query.follow .prev p.prevCursor) ⟨none, .next, some .last⟩ ps ↔ ps = backward) ∧
    forward.map (fun p => p.items.map SignalRecord.id) = [[3, 2], [1, 4]] ∧
    backward.map (fun p => p.items.map SignalRecord.id) = [[1, 4], [3, 2]] := by
  obtain ⟨-, -, forward, backward, hforward, hbackward, -⟩ :=
    feed_read_whole Texts.plain tiedSignals ⟨none, none, none⟩ 2
  refine ⟨forward, backward, hforward, hbackward, ?_, ?_⟩
  · rw [← (hforward _).mp (tiedSignals.follows_next Texts.plain ⟨none, none, none⟩ 2)]
    decide +kernel
  · rw [← (hbackward _).mp (tiedSignals.follows_prev Texts.plain ⟨none, none, none⟩ 2)]
    decide +kernel

end YogSothoth.Signals
