import YogSothoth.Projection.PoolCurrentState

namespace YogSothoth.Projection

/-- The three values the statement stores as `BIGINT` fit one. -/
def Storable (u : PoolCurrentStateUpsert) : Prop :=
  u.reserveA.toNat < 2^63 ∧ u.reserveB.toNat < 2^63 ∧ u.eventPosition.slot.toNat < 2^63

instance : DecidablePred Storable := fun _ => inferInstanceAs (Decidable (_ ∧ _ ∧ _))

/-- The row an event alone leaves. -/
def rowOf (u : PoolCurrentStateUpsert) : PoolCurrentStateRow where
  protocol := u.protocol
  lastEventAt := u.eventPosition.timestamp
  lastEventKind := u.eventKind
  lastSignature := u.eventPosition.signature
  reserveA := u.reserveA.toNat
  reserveB := u.reserveB.toNat
  lastSqrtPrice := u.sqrtPrice.map BitVec.toNat
  lastSwapAt := match u.eventKind with
    | .swap => some u.eventPosition.timestamp
    | _ => none
  lastSlot := u.eventPosition.slot.toNat
  lastEventIndex := u.eventPosition.eventIndex.toNat
  lastTransactionIndex := u.eventPosition.transactionIndex.map (fun i => (i.toNat : Int))

@[simp] theorem rowOf_position (u : PoolCurrentStateUpsert) : (rowOf u).position = u.position := rfl

theorem excluded_storable {u : PoolCurrentStateUpsert} (h : Storable u) :
    excluded u = .ok (rowOf u) := by
  obtain ⟨ha, hb, hs⟩ := h
  simp only [excluded, convertU64ToI64, ha, hb, hs, if_true]
  rfl

theorem excluded_not_storable {u : PoolCurrentStateUpsert} (h : ¬Storable u) :
    ∃ e, excluded u = .error e := by
  by_cases ha : u.reserveA.toNat < 2^63
  · by_cases hb : u.reserveB.toNat < 2^63
    · have hs : ¬u.eventPosition.slot.toNat < 2^63 := fun hs => h ⟨ha, hb, hs⟩
      exact ⟨_, by simp only [excluded, convertU64ToI64, ha, hb, hs, if_true, if_false]; rfl⟩
    · exact ⟨_, by simp only [excluded, convertU64ToI64, ha, hb, if_true, if_false]; rfl⟩
  · exact ⟨_, by simp only [excluded, convertU64ToI64, ha, if_false]; rfl⟩

/-- One `upsert`, seen from the row of its pool. -/
def applyRow (row : Option PoolCurrentStateRow) (u : PoolCurrentStateUpsert) :
    Option PoolCurrentStateRow :=
  if Storable u then some (upserted row (rowOf u)).1 else row

theorem upsert_row (table : PoolCurrentStates) (u : PoolCurrentStateUpsert) :
    (upsert table u).2 u.poolAddress = applyRow (table u.poolAddress) u := by
  by_cases h : Storable u
  · simp [upsert, applyRow, h, excluded_storable h]
  · obtain ⟨e, he⟩ := excluded_not_storable h
    simp [upsert, applyRow, h, he]

theorem project_row (us : List PoolCurrentStateUpsert) (pool : Pubkey)
    (hpool : ∀ u ∈ us, u.poolAddress = pool) :
    project us pool = us.foldl applyRow none := by
  suffices h : ∀ table : PoolCurrentStates,
      us.foldl (fun table u => (upsert table u).2) table pool = us.foldl applyRow (table pool) from
    h (fun _ => none)
  induction us with
  | nil => intro table; rfl
  | cons u us ih =>
    intro table
    have hu : u.poolAddress = pool := hpool u (by simp)
    rw [List.foldl_cons, List.foldl_cons, ih (fun w hw => hpool w (by simp [hw]))]
    subst hu
    rw [upsert_row]

/-- `g` has the greatest position of `us`. -/
def Greatest (us : List PoolCurrentStateUpsert) (g : PoolCurrentStateUpsert) : Prop :=
  g ∈ us ∧ ∀ u ∈ us, u.position ≤ g.position

theorem exists_greatest (us : List PoolCurrentStateUpsert) (h : us ≠ []) :
    ∃ g, Greatest us g := by
  obtain ⟨u, hu⟩ := List.exists_mem_of_ne_nil us h
  obtain ⟨g, hg, hmax⟩ := us.toFinset.exists_max_image (fun u => u.position) ⟨u, by simpa using hu⟩
  exact ⟨g, by simpa using hg, fun w hw => hmax w (by simpa using hw)⟩

theorem not_swap_row {u : PoolCurrentStateUpsert} (h : u.isSwap = false) :
    (rowOf u).lastSqrtPrice = none ∧ (rowOf u).lastSwapAt = none := by
  have hk : u.eventKind ≠ .swap := by simpa [PoolCurrentStateUpsert.isSwap] using h
  have hp : u.sqrtPrice = none := by
    have := u.priced
    simpa [hk] using this
  constructor
  · simp [rowOf, hp]
  · cases hkind : u.eventKind <;> simp_all [rowOf]

theorem swap_row {u : PoolCurrentStateUpsert} (h : u.isSwap = true) :
    (∃ p, (rowOf u).lastSqrtPrice = some p) ∧
      (rowOf u).lastSwapAt = some u.eventPosition.timestamp := by
  have hk : u.eventKind = .swap := by simpa [PoolCurrentStateUpsert.isSwap] using h
  have hp : u.sqrtPrice.isSome = true := by
    have := u.priced
    simpa [hk] using this
  obtain ⟨p, hp⟩ := Option.isSome_iff_exists.mp hp
  exact ⟨⟨p.toNat, by simp [rowOf, hp]⟩, by simp [rowOf, hk]⟩

/-- `r` carries the columns of `u`'s event, its price and swap time aside. -/
def OfEvent (r : PoolCurrentStateRow) (u : PoolCurrentStateUpsert) : Prop :=
  r = { rowOf u with lastSqrtPrice := r.lastSqrtPrice, lastSwapAt := r.lastSwapAt }

theorem OfEvent.position {r : PoolCurrentStateRow} {u : PoolCurrentStateUpsert} (h : OfEvent r u) :
    r.position = u.position := by
  rw [h]
  rfl

/-- `r` carries the price and the swap time of the swap `u`. -/
def OfSwap (r : PoolCurrentStateRow) (u : PoolCurrentStateUpsert) : Prop :=
  u.isSwap = true ∧ r.lastSqrtPrice = u.sqrtPrice.map BitVec.toNat ∧
    r.lastSwapAt = some u.eventPosition.timestamp

theorem ofSwap_rowOf {u : PoolCurrentStateUpsert} (h : u.isSwap = true) : OfSwap (rowOf u) u :=
  ⟨h, rfl, (swap_row h).2⟩

/-- What a sequence of upserts leaves, whatever its order: the columns of the storable event
with the greatest position, its price when it is a swap, one swap's or none when it is not. -/
structure Left (us : List PoolCurrentStateUpsert) (u : PoolCurrentStateUpsert)
    (r : PoolCurrentStateRow) : Prop where
  mem : u ∈ us
  storable : Storable u
  greatest : ∀ w ∈ us, Storable w → w.position ≤ u.position
  event : OfEvent r u
  swap : u.isSwap = true →
    r.lastSqrtPrice = (rowOf u).lastSqrtPrice ∧ r.lastSwapAt = (rowOf u).lastSwapAt
  unpriced : (∀ w ∈ us, w.isSwap = false) → r.lastSqrtPrice = none ∧ r.lastSwapAt = none
  priced : (r.lastSqrtPrice = none ∧ r.lastSwapAt = none) ∨ ∃ w ∈ us, OfSwap r w

theorem Left.snoc {us : List PoolCurrentStateUpsert} {u : PoolCurrentStateUpsert}
    {r : PoolCurrentStateRow} (h : Left us u r) (w : PoolCurrentStateUpsert) (hw : Storable w) :
    ∃ u' r', upserted (some r) (rowOf w) = r' ∧ Left (us ++ [w]) u' r'.1 := by
  refine ⟨if r.position < w.position then w else u, _, rfl, ?_⟩
  have hpos := h.event.position
  by_cases hlt : r.position < w.position
  · simp only [upserted, rowOf_position, hlt, if_true]
    refine ⟨by simp, hw, ?_, rfl, ?_, ?_, ?_⟩
    · intro x hx hs
      rcases List.mem_append.mp hx with hx | hx
      · exact (h.greatest x hx hs).trans (hpos ▸ hlt.le)
      · rw [List.mem_singleton.mp hx]
    · intro hswap
      obtain ⟨⟨p, hp⟩, ha⟩ := swap_row hswap
      simp [hp, ha]
    · intro hnone
      obtain ⟨hp, ha⟩ := not_swap_row (hnone w (by simp))
      obtain ⟨hrp, hra⟩ := h.unpriced (fun x hx => hnone x (by simp [hx]))
      simp [hp, ha, hrp, hra]
    · cases hswap : w.isSwap with
      | true =>
        obtain ⟨⟨p, hp⟩, ha⟩ := swap_row hswap
        obtain ⟨-, hprice, -⟩ := ofSwap_rowOf hswap
        rw [hp] at hprice
        exact Or.inr ⟨w, by simp, hswap, by simp [hp, ← hprice], by simp [ha]⟩
      | false =>
        -- the event leaves the price and the swap time the row had
        obtain ⟨hp, ha⟩ := not_swap_row hswap
        simp only [hp, ha, Option.none_or]
        refine h.priced.imp_right ?_
        rintro ⟨x, hx, hof⟩
        exact ⟨x, List.mem_append_left _ hx, hof⟩
  · simp only [upserted, rowOf_position, hlt, if_false]
    refine ⟨by simp [h.mem], h.storable, ?_, h.event, h.swap, ?_, ?_⟩
    · intro x hx hs
      rcases List.mem_append.mp hx with hx | hx
      · exact h.greatest x hx hs
      · rw [List.mem_singleton.mp hx, ← hpos]
        exact not_lt.mp hlt
    · intro hnone
      exact h.unpriced (fun x hx => hnone x (by simp [hx]))
    · refine h.priced.imp_right ?_
      rintro ⟨x, hx, hof⟩
      exact ⟨x, List.mem_append_left _ hx, hof⟩

theorem left_alone {w : PoolCurrentStateUpsert} (us : List PoolCurrentStateUpsert)
    (hus : ∀ u ∈ us, ¬Storable u) (hw : Storable w) : Left (us ++ [w]) w (rowOf w) := by
  refine ⟨by simp, hw, ?_, rfl, fun _ => ⟨rfl, rfl⟩, fun h => not_swap_row (h w (by simp)), ?_⟩
  · intro x hx hs
    rcases List.mem_append.mp hx with hx | hx
    · exact absurd hs (hus x hx)
    · rw [List.mem_singleton.mp hx]
  · cases hswap : w.isSwap with
    | true => exact Or.inr ⟨w, by simp, ofSwap_rowOf hswap⟩
    | false => exact Or.inl (not_swap_row hswap)

theorem foldl_left (us : List PoolCurrentStateUpsert) :
    (us.foldl applyRow none = none ∧ ∀ u ∈ us, ¬Storable u) ∨
      ∃ u r, us.foldl applyRow none = some r ∧ Left us u r := by
  induction us using List.reverseRecOn with
  | nil => exact .inl ⟨rfl, by simp⟩
  | append_singleton us w ih =>
    rw [List.foldl_append, List.foldl_cons, List.foldl_nil]
    by_cases hw : Storable w
    · right
      rcases ih with ⟨hnone, hus⟩ | ⟨u, r, hr, hleft⟩
      · exact ⟨w, rowOf w, by simp [hnone, applyRow, hw, upserted], left_alone us hus hw⟩
      · obtain ⟨u', r', hr', hleft'⟩ := hleft.snoc w hw
        exact ⟨u', r'.1, by simp [hr, applyRow, hw, hr'], hleft'⟩
    · have hstep (row) : applyRow row w = row := by simp [applyRow, hw]
      rw [hstep]
      rcases ih with ⟨hnone, hus⟩ | ⟨u, r, hr, hleft⟩
      · refine .inl ⟨hnone, ?_⟩
        intro x hx
        rcases List.mem_append.mp hx with hx | hx
        · exact hus x hx
        · rwa [List.mem_singleton.mp hx]
      · refine .inr ⟨u, r, hr, by simp [hleft.mem], hleft.storable, ?_, hleft.event, hleft.swap,
          ?_, ?_⟩
        · intro x hx hs
          rcases List.mem_append.mp hx with hx | hx
          · exact hleft.greatest x hx hs
          · exact absurd (List.mem_singleton.mp hx ▸ hs) hw
        · intro hn
          exact hleft.unpriced (fun x hx => hn x (by simp [hx]))
        · refine hleft.priced.imp_right ?_
          rintro ⟨x, hx, hof⟩
          exact ⟨x, List.mem_append_left _ hx, hof⟩

/-- The row the projection owes `us`: the event columns of its greatest position, the price and
the swap time of its greatest swap. -/
structure Projects (us : List PoolCurrentStateUpsert) (row : Option PoolCurrentStateRow) : Prop where
  absent : us = [] → row = none
  event : ∀ g, Greatest us g → ∃ r, row = some r ∧ OfEvent r g
  price : ∀ s, Greatest (us.filter (·.isSwap)) s → ∃ r, row = some r ∧
    r.lastSqrtPrice = s.sqrtPrice.map BitVec.toNat ∧ r.lastSwapAt = some s.eventPosition.timestamp
  unpriced : us.filter (·.isSwap) = [] → ∀ r, row = some r →
    r.lastSqrtPrice = none ∧ r.lastSwapAt = none

theorem eq_of_position {us : List PoolCurrentStateUpsert}
    (hkeys : us.Pairwise (fun a b => a.position ≠ b.position)) {u w : PoolCurrentStateUpsert}
    (hu : u ∈ us) (hw : w ∈ us) (h : u.position = w.position) : u = w := by
  induction us with
  | nil => simp at hu
  | cons x xs ih =>
    obtain ⟨hhead, htail⟩ := List.pairwise_cons.mp hkeys
    rcases List.mem_cons.mp hu with rfl | hu' <;> rcases List.mem_cons.mp hw with rfl | hw'
    · rfl
    · exact absurd h (hhead w hw')
    · exact absurd h.symm (hhead u hu')
    · exact ih htail hu' hw'

/-- Sufficiency: a storable greatest event that is a swap, or the lack of any swap, leaves
the projected row in every order. -/
theorem projects_of_greatest {us us' : List PoolCurrentStateUpsert} {pool : Pubkey}
    (hpool : ∀ u ∈ us, u.poolAddress = pool)
    (hkeys : us.Pairwise (fun a b => a.position ≠ b.position))
    (hg : ∀ g, Greatest us g → Storable g ∧ (g.isSwap = true ∨ ∀ u ∈ us, u.isSwap = false))
    (hp : us'.Perm us) : Projects us (project us' pool) := by
  rw [project_row us' pool (fun u hu => hpool u (hp.mem_iff.mp hu))]
  by_cases hne : us = []
  · subst hne
    rw [List.Perm.eq_nil hp]
    exact ⟨fun _ => rfl, fun g h => by simp [Greatest] at h, fun s h => by simp [Greatest] at h,
      fun _ r h => by simp at h⟩
  obtain ⟨g, hgreat⟩ := exists_greatest us hne
  obtain ⟨hstore, hkind⟩ := hg g hgreat
  rcases foldl_left us' with ⟨-, hnone⟩ | ⟨u, r, hr, hleft⟩
  · exact absurd hstore (hnone g (hp.mem_iff.mpr hgreat.1))
  have hug : u = g := by
    have hmem := hp.mem_iff.mp hleft.mem
    have hge := hleft.greatest g (hp.mem_iff.mpr hgreat.1) hstore
    exact eq_of_position hkeys hmem hgreat.1 ((hgreat.2 u hmem).antisymm hge)
  subst hug
  rw [hr]
  refine ⟨fun h => absurd h hne, ?_, ?_, ?_⟩
  · intro g' hg'
    have h := eq_of_position hkeys hg'.1 hgreat.1 ((hgreat.2 g' hg'.1).antisymm (hg'.2 u hgreat.1))
    exact ⟨r, rfl, h ▸ hleft.event⟩
  · intro s hs
    obtain ⟨hsmem, hsswap⟩ := List.mem_filter.mp hs.1
    have hswap : u.isSwap = true := by
      rcases hkind with h | h
      · exact h
      · simp [h s hsmem] at hsswap
    have hsu := hs.2 u (List.mem_filter.mpr ⟨hgreat.1, hswap⟩)
    have h := eq_of_position hkeys hsmem hgreat.1 ((hgreat.2 s hsmem).antisymm hsu)
    subst h
    obtain ⟨hprice, hat⟩ := hleft.swap hswap
    exact ⟨r, rfl, hprice, hat.trans (swap_row hswap).2⟩
  · intro hnone r' hr'
    rw [← Option.some.inj hr']
    apply hleft.unpriced
    intro w hw
    have h := List.filter_eq_nil_iff.mp hnone w (hp.mem_iff.mp hw)
    simpa using h

/-- Delivered first, the greatest event shuts every other one out. -/
theorem foldl_greatest_first {g : PoolCurrentStateUpsert}
    (us : List PoolCurrentStateUpsert) (hus : ∀ u ∈ us, u.position ≤ g.position) :
    us.foldl applyRow (some (rowOf g)) = some (rowOf g) := by
  induction us with
  | nil => rfl
  | cons u us ih =>
    have hstep : applyRow (some (rowOf g)) u = some (rowOf g) := by
      have h : ¬g.position < u.position := not_lt.mpr (hus u (by simp))
      simp [applyRow, upserted, h]
    rw [List.foldl_cons, hstep]
    exact ih (fun w hw => hus w (by simp [hw]))

theorem greatest_of_projects {us : List PoolCurrentStateUpsert} {pool : Pubkey}
    (hpool : ∀ u ∈ us, u.poolAddress = pool)
    (hkeys : us.Pairwise (fun a b => a.position ≠ b.position))
    (h : ∀ us', us'.Perm us → Projects us (project us' pool)) (g : PoolCurrentStateUpsert)
    (hg : Greatest us g) : Storable g ∧ (g.isSwap = true ∨ ∀ u ∈ us, u.isSwap = false) := by
  have hstore : Storable g := by
    obtain ⟨r, hr, hevent⟩ := (h us (List.Perm.refl us)).event g hg
    rw [project_row us pool hpool] at hr
    rcases foldl_left us with ⟨hnone, -⟩ | ⟨u, r', hr', hleft⟩
    · simp [hnone] at hr
    · rw [hr', Option.some.injEq] at hr
      subst hr
      have hpos : u.position = g.position := hleft.event.position.symm.trans hevent.position
      exact eq_of_position hkeys hleft.mem hg.1 hpos ▸ hleft.storable
  refine ⟨hstore, ?_⟩
  by_contra hno
  simp only [not_or, Bool.not_eq_true, not_forall, Bool.not_eq_false] at hno
  obtain ⟨hswap, w, hw, hwswap⟩ := hno
  have hne : us.filter (·.isSwap) ≠ [] := List.ne_nil_of_mem (List.mem_filter.mpr ⟨hw, hwswap⟩)
  obtain ⟨s, hs⟩ := exists_greatest _ hne
  have hperm : (g :: us.erase g).Perm us := (List.perm_cons_erase hg.1).symm
  obtain ⟨r, hr, -, hat⟩ := (h _ hperm).price s hs
  rw [project_row _ pool (fun u hu => hpool u (hperm.mem_iff.mp hu)), List.foldl_cons] at hr
  have hfirst : applyRow none g = some (rowOf g) := by simp [applyRow, hstore, upserted]
  rw [hfirst, foldl_greatest_first _ (fun u hu => hg.2 u (List.mem_of_mem_erase hu)),
    Option.some.injEq] at hr
  rw [← hr, (not_swap_row hswap).2] at hat
  simp at hat

/-- The projection is order-independent exactly when the event with the greatest position can be
stored and is a swap, or there is no swap: a liquidity event that lands before an older swap
shuts the swap's price out for good. -/
theorem project_order_independent_iff (us : List PoolCurrentStateUpsert) (pool : Pubkey)
    (hpool : ∀ u ∈ us, u.poolAddress = pool)
    (hkeys : us.Pairwise (fun a b => a.position ≠ b.position)) :
    (∀ us', us'.Perm us → Projects us (project us' pool)) ↔
      ∀ g, Greatest us g → Storable g ∧ (g.isSwap = true ∨ ∀ u ∈ us, u.isSwap = false) :=
  ⟨fun h => greatest_of_projects hpool hkeys h, fun hg _ hp => projects_of_greatest hpool hkeys hg hp⟩

def samplePool : Pubkey := ⟨List.replicate 32 1, List.length_replicate⟩

def samplePosition (eventIndex : UInt16) : EventPosition :=
  ⟨⟨List.replicate 64 1, List.length_replicate⟩, 1700000000, 300, none, eventIndex⟩

def sampleSwap (eventIndex : UInt16) : PoolCurrentStateUpsert :=
  .fromSwap samplePool .meteoraDammV2 (samplePosition eventIndex) 100 200 1111

def sampleLiquidity (eventIndex : UInt16) : PoolCurrentStateUpsert :=
  .fromLiquidity samplePool .meteoraDammV2 (samplePosition eventIndex) .add 42 200

theorem project_order_independent_sample :
    (∀ us', us'.Perm [sampleLiquidity 0, sampleSwap 1] →
      Projects [sampleLiquidity 0, sampleSwap 1] (project us' samplePool)) ↔
      ∀ g, Greatest [sampleLiquidity 0, sampleSwap 1] g →
        Storable g ∧ (g.isSwap = true ∨ ∀ u ∈ [sampleLiquidity 0, sampleSwap 1], u.isSwap = false) :=
  project_order_independent_iff [sampleLiquidity 0, sampleSwap 1] samplePool (by decide) (by decide)

/-- The swap of event 0 delivered after the liquidity event 1 of its transaction: its price and
its time are lost, though it is the last swap. -/
theorem project_loses_swap :
    (∀ u ∈ [sampleSwap 0, sampleLiquidity 1], u.poolAddress = samplePool) ∧
    [sampleSwap 0, sampleLiquidity 1].Pairwise (fun a b => a.position ≠ b.position) ∧
    [sampleLiquidity 1, sampleSwap 0].Perm [sampleSwap 0, sampleLiquidity 1] ∧
    ¬Projects [sampleSwap 0, sampleLiquidity 1]
      (project [sampleLiquidity 1, sampleSwap 0] samplePool) := by
  refine ⟨by decide, by decide, List.Perm.swap _ _ _, ?_⟩
  intro h
  have hfilter : [sampleSwap 0, sampleLiquidity 1].filter (·.isSwap) = [sampleSwap 0] := rfl
  have hs : Greatest [sampleSwap 0] (sampleSwap 0) :=
    ⟨by simp, fun u hu => by rw [List.mem_singleton.mp hu]⟩
  obtain ⟨r, hr, hprice, -⟩ := h.price _ (hfilter ▸ hs)
  have hlost : (project [sampleLiquidity 1, sampleSwap 0] samplePool).map (·.lastSqrtPrice) =
      some none := by decide
  rw [hr, Option.map_some, hprice] at hlost
  exact absurd hlost (by decide)

end YogSothoth.Projection
