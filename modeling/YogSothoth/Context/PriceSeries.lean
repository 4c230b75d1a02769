import YogSothoth.Context.PriceWorker

namespace YogSothoth.Context

def KeptPrice.row (mint : Pubkey) (self : KeptPrice) : TokenPriceRow :=
  ⟨mint, self.priceUsd, self.priceProvider, columnInstant self.fetchedAt⟩

def KeptPrice.lastRow (self : KeptPrice) : LastPriceRow :=
  ⟨self.priceUsd, columnInstant self.fetchedAt⟩

def KeptPrice.of (price : TokenPrice) : KeptPrice :=
  ⟨atStorageScale price.priceUsd, price.priceProvider, price.fetchedAt⟩

/-- What a batch has to be for one tick to insert it whole: one observation of each mint, all of
one instant. -/
structure Batch (now : Instant) (prices : List TokenPrice) : Prop where
  observed : ∀ p ∈ prices, p.fetchedAt = now
  mints : (prices.map (·.mint)).Nodup

namespace Batch

variable {now : Instant} {prices : List TokenPrice}

theorem keys (h : Batch now prices) :
    (prices.map (fun p => (TokenPriceRow.of p).key)).Nodup := by
  have hfst : (prices.map (fun p => (TokenPriceRow.of p).key)).map Prod.fst =
      prices.map (·.mint) := by
    rw [List.map_map]
    rfl
  exact List.Nodup.of_map Prod.fst (hfst ▸ h.mints)

theorem filter (h : Batch now prices) (p : TokenPrice → Bool) : Batch now (prices.filter p) where
  observed q hq := h.observed q (List.mem_filter.mp hq).1
  mints := h.mints.sublist (List.filter_sublist.map _)

theorem eq_of_mint (h : Batch now prices) {p q : TokenPrice} (hp : p ∈ prices) (hq : q ∈ prices)
    (hmint : p.mint = q.mint) : p = q :=
  List.inj_on_of_nodup_map h.mints hp hq hmint

/-- The rows of a mint in a batch that prices it. -/
theorem filter_of_mem (h : Batch now prices) {p : TokenPrice} (hp : p ∈ prices) :
    (prices.map TokenPriceRow.of).filter (fun r => r.mint = p.mint) = [TokenPriceRow.of p] := by
  rw [filter_map_eq (q := fun q => decide (q.mint = p.mint)) (fun _ _ => rfl),
    filter_key_eq h.mints hp, List.map_singleton]

theorem filter_of_not_mem {mint : Pubkey} (h : ∀ p ∈ prices, p.mint ≠ mint) :
    (prices.map TokenPriceRow.of).filter (fun r => r.mint = mint) = [] := by
  rw [List.filter_eq_nil_iff]
  intro r hr
  obtain ⟨p, hp, rfl⟩ := List.mem_map.mp hr
  rw [decide_eq_true_iff]
  exact h p hp

end Batch

namespace KeptPrices

theorem record_last_of_not_mem (kept : KeptPrices) {prices : List TokenPrice} {mint : Pubkey}
    (h : ∀ p ∈ prices, p.mint ≠ mint) : (kept.record prices).last mint = kept.last mint := by
  induction prices generalizing kept with
  | nil => rfl
  | cons p prices ih =>
    change ((kept.recordOne p).record prices).last mint = _
    rw [ih _ (fun q hq => h q (List.mem_cons_of_mem _ hq))]
    exact if_neg (fun hmint => h p List.mem_cons_self hmint.symm)

theorem record_last_of_mem (kept : KeptPrices) {prices : List TokenPrice} {p : TokenPrice}
    (hmints : (prices.map (·.mint)).Nodup) (hp : p ∈ prices) :
    (kept.record prices).last p.mint = some (KeptPrice.of p) := by
  induction prices generalizing kept with
  | nil => cases hp
  | cons q prices ih =>
    obtain ⟨hfresh, hmints⟩ := List.nodup_cons.mp hmints
    change ((kept.recordOne q).record prices).last p.mint = _
    cases List.mem_cons.mp hp with
    | inl hpq =>
      have hrest : ∀ r ∈ prices, r.mint ≠ p.mint := by
        intro r hr hmint
        apply hfresh
        change q.mint ∈ _
        rw [← hpq, ← hmint]
        exact List.mem_map_of_mem hr
      rw [record_last_of_not_mem _ hrest, hpq]
      exact if_pos rfl
    | inr hp => exact ih _ hmints hp

/-- An observation that earns no row repeats the last one kept, near enough. -/
theorem not_worthKeeping {kept : KeptPrices} {p : TokenPrice} (h : kept.worthKeeping p = false) :
    ∃ entry, kept.last p.mint = some entry ∧ entry.priceUsd = atStorageScale p.priceUsd ∧
      entry.priceProvider = p.priceProvider ∧ p.fetchedAt - entry.fetchedAt ≤ kept.maxGap := by
  unfold worthKeeping at h
  cases hlast : kept.last p.mint with
  | none =>
    rw [hlast] at h
    cases h
  | some entry =>
    simp only [hlast, Bool.or_eq_false_iff, decide_eq_false_iff_not, not_not, not_lt, gt_iff_lt]
      at h
    exact ⟨entry, rfl, h.1.1, h.1.2, h.2⟩

theorem record_maxGap (kept : KeptPrices) (prices : List TokenPrice) :
    (kept.record prices).maxGap = kept.maxGap := by
  induction prices generalizing kept with
  | nil => rfl
  | cons p prices ih => exact ih (kept.recordOne p)

end KeptPrices

namespace PriceTables

/-- A batch without a conflict is inserted and returned whole. -/
theorem foldl_insertRow (prices : List TokenPrice) (state : PriceTables × List TokenPriceRow)
    (hfresh : ∀ p ∈ prices, (TokenPriceRow.of p).key ∉ state.1.rows.map TokenPriceRow.key)
    (hkeys : (prices.map (fun p => (TokenPriceRow.of p).key)).Nodup) :
    (prices.foldl insertRow state).1.rows = state.1.rows ++ prices.map TokenPriceRow.of ∧
      (prices.foldl insertRow state).2 = state.2 ++ prices.map TokenPriceRow.of := by
  induction prices generalizing state with
  | nil => simp
  | cons p prices ih =>
    obtain ⟨hp, hkeys⟩ := List.nodup_cons.mp hkeys
    have hstep : (insertRow state p).1.rows = state.1.rows ++ [TokenPriceRow.of p] ∧
        (insertRow state p).2 = state.2 ++ [TokenPriceRow.of p] := by
      unfold insertRow
      rw [dif_neg (hfresh p List.mem_cons_self)]
      exact ⟨rfl, rfl⟩
    have hrest : ∀ q ∈ prices,
        (TokenPriceRow.of q).key ∉ (insertRow state p).1.rows.map TokenPriceRow.key := by
      intro q hq hmem
      rw [hstep.1, List.map_append, List.mem_append] at hmem
      cases hmem with
      | inl hmem => exact hfresh q (List.mem_cons_of_mem _ hq) hmem
      | inr hmem =>
        rw [List.map_singleton, List.mem_singleton] at hmem
        apply hp
        change (TokenPriceRow.of p).key ∈ _
        rw [← hmem]
        exact List.mem_map_of_mem (f := fun p => (TokenPriceRow.of p).key) hq
    have hfold := ih (insertRow state p) hrest hkeys
    rw [List.foldl_cons, hfold.1, hfold.2, hstep.1, hstep.2]
    simp

variable {tables inserted : PriceTables} {now : Instant} {prices : List TokenPrice}

theorem fresh_of_older (hbatch : Batch now prices)
    (holder : ∀ row ∈ tables.rows, row.fetchedAt < columnInstant now) :
    ∀ p ∈ prices, (TokenPriceRow.of p).key ∉ tables.rows.map TokenPriceRow.key := by
  intro p hp hmem
  obtain ⟨row, hrow, hkey⟩ := List.mem_map.mp hmem
  have hat : row.fetchedAt = columnInstant now := by
    have hsnd := congrArg Prod.snd hkey
    change row.fetchedAt = columnInstant p.fetchedAt at hsnd
    rw [hsnd, hbatch.observed p hp]
  exact absurd (holder row hrow) (hat ▸ lt_irrefl _)

/-- What an insert that went through leaves behind. -/
theorem insertBatch_ok (hbatch : Batch now prices) (hprices : prices ≠ [])
    (holder : ∀ row ∈ tables.rows, row.fetchedAt < columnInstant now)
    {refused : Option RepositoryError} (h : tables.insertBatch prices refused = .ok inserted) :
    inserted.rows = tables.rows ++ prices.map TokenPriceRow.of ∧
      inserted.lastPrice = upsertLast tables.lastPrice (prices.map TokenPriceRow.of) := by
  have hfold := foldl_insertRow prices (tables, []) (fresh_of_older hbatch holder) hbatch.keys
  unfold insertBatch at h
  rw [if_neg (by simpa using hprices)] at h
  cases refused with
  | some e => cases h
  | none =>
    cases h
    exact ⟨hfold.1, by rw [hfold.2, List.nil_append]⟩

theorem findLatestByMint_of_mem (hbatch : Batch now prices)
    (holder : ∀ row ∈ tables.rows, row.fetchedAt < columnInstant now)
    (hrows : inserted.rows = tables.rows ++ prices.map TokenPriceRow.of) {p : TokenPrice}
    (hp : p ∈ prices) :
    inserted.findLatestByMint p.mint = some (TokenPriceRow.of p) := by
  unfold findLatestByMint
  rw [hrows, List.filter_append, hbatch.filter_of_mem hp]
  apply head?_orderBy
  · exact List.mem_append_right _ (List.mem_singleton_self _)
  · intro row hrow hne
    cases List.mem_append.mp hrow with
    | inl hrow =>
      have hlt := holder row (List.mem_filter.mp hrow).1
      change row.fetchedAt < columnInstant p.fetchedAt
      rwa [hbatch.observed p hp]
    | inr hrow => exact absurd (List.mem_singleton.mp hrow) hne

theorem findLatestByMint_of_not_mem
    (hrows : inserted.rows = tables.rows ++ prices.map TokenPriceRow.of) {mint : Pubkey}
    (h : ∀ p ∈ prices, p.mint ≠ mint) :
    inserted.findLatestByMint mint = tables.findLatestByMint mint := by
  unfold findLatestByMint
  rw [hrows, List.filter_append, Batch.filter_of_not_mem h, List.append_nil]

theorem newestOf_of_mem (hbatch : Batch now prices) {p : TokenPrice} (hp : p ∈ prices) :
    newestOf (prices.map TokenPriceRow.of) p.mint = some (TokenPriceRow.of p) := by
  unfold newestOf
  rw [hbatch.filter_of_mem hp]
  rfl

theorem newestOf_of_not_mem {mint : Pubkey} (h : ∀ p ∈ prices, p.mint ≠ mint) :
    newestOf (prices.map TokenPriceRow.of) mint = none := by
  unfold newestOf
  rw [Batch.filter_of_not_mem h]
  rfl

end PriceTables

/-- The memory of the worker and the two tables say the same of every mint. -/
structure Mirrors (kept : KeptPrices) (tables : PriceTables) : Prop where
  latest : ∀ mint, tables.findLatestByMint mint = (kept.last mint).map (·.row mint)
  last : ∀ mint, tables.lastPrice mint = (kept.last mint).map (·.lastRow)

theorem Mirrors.empty (interval : Nat) : Mirrors (KeptPrices.new interval) PriceTables.empty where
  latest _ := rfl
  last _ := rfl

theorem mem_of_findLatestByMint {tables : PriceTables} {mint : Pubkey} {row : TokenPriceRow}
    (h : tables.findLatestByMint mint = some row) : row ∈ tables.rows ∧ row.mint = mint := by
  have hmem : row ∈ orderBy (fun r => OrderDual.toDual r.fetchedAt)
      (tables.rows.filter (fun r => r.mint = mint)) := List.mem_of_head? h
  have hrow := List.mem_filter.mp (mem_orderBy.mp hmem)
  exact ⟨hrow.1, of_decide_eq_true hrow.2⟩

/-- The last price of a mint is as old as its newest row. -/
theorem Mirrors.lastPrice_lt {kept : KeptPrices} {tables : PriceTables} (h : Mirrors kept tables)
    {bound : Instant} (holder : ∀ row ∈ tables.rows, row.fetchedAt < bound) {mint : Pubkey}
    {last : LastPriceRow} (hlast : tables.lastPrice mint = some last) : last.fetchedAt < bound := by
  rw [h.last, Option.map_eq_some_iff] at hlast
  obtain ⟨entry, hentry, rfl⟩ := hlast
  have hlatest : tables.findLatestByMint mint = some (entry.row mint) := by
    rw [h.latest, hentry]
    rfl
  exact holder _ (mem_of_findLatestByMint hlatest).1

/-- A batch inserted and then remembered keeps them together. -/
theorem Mirrors.record {kept : KeptPrices} {tables inserted : PriceTables} {now : Instant}
    {prices : List TokenPrice} (h : Mirrors kept tables) (hbatch : Batch now prices)
    (hprices : prices ≠ [])
    (holder : ∀ row ∈ tables.rows, row.fetchedAt < columnInstant now)
    {refused : Option RepositoryError}
    (hinsert : tables.insertBatch prices refused = .ok inserted) :
    Mirrors (kept.record prices) inserted := by
  have ⟨hrows, hlast⟩ := PriceTables.insertBatch_ok hbatch hprices holder hinsert
  constructor
  · intro mint
    by_cases hmint : ∃ p ∈ prices, p.mint = mint
    · obtain ⟨p, hp, rfl⟩ := hmint
      rw [PriceTables.findLatestByMint_of_mem hbatch holder hrows hp,
        kept.record_last_of_mem hbatch.mints hp]
      rfl
    · have hnone : ∀ p ∈ prices, p.mint ≠ mint := fun p hp hpm => hmint ⟨p, hp, hpm⟩
      rw [PriceTables.findLatestByMint_of_not_mem hrows hnone,
        kept.record_last_of_not_mem hnone, h.latest]
  · intro mint
    rw [hlast]
    unfold PriceTables.upsertLast
    by_cases hmint : ∃ p ∈ prices, p.mint = mint
    · obtain ⟨p, hp, rfl⟩ := hmint
      rw [PriceTables.newestOf_of_mem hbatch hp, kept.record_last_of_mem hbatch.mints hp]
      cases htable : tables.lastPrice p.mint with
      | none => rfl
      | some last =>
        have hlt := h.lastPrice_lt holder htable
        rw [← hbatch.observed p hp] at hlt
        exact if_pos hlt
    · have hnone : ∀ p ∈ prices, p.mint ≠ mint := fun p hp hpm => hmint ⟨p, hp, hpm⟩
      rw [PriceTables.newestOf_of_not_mem hnone, kept.record_last_of_not_mem hnone, h.last]

end YogSothoth.Context
