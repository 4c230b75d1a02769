import YogSothoth.Persistence.PositionChanges

namespace YogSothoth.PositionChanges

section Merge

variable {S : Type} [LinearOrder S] {Columns Fields : Type} {texts : Texts}
  {convert : PositionKind → Columns → Except RepositoryError Fields}

/-- A row of one of the tables with the event it was written from: its texts are the printed
forms, its instant that of a `TIMESTAMPTZ`, and it reads back. -/
structure Stored (texts : Texts)
    (convert : PositionKind → Columns → Except RepositoryError Fields) where
  kind : PositionKind
  row : PositionRow Columns
  change : PositionChange Fields
  reads : PositionChange.tryFrom texts convert kind row = .ok change
  poolAddress : row.poolAddress = texts.pubkey.print change.poolAddress
  signature : row.signature = texts.signature.print change.signature
  timestamp : columnInstant row.timestamp = row.timestamp

/-- The five tables: `(signature, event_index)` is unique across them, `(table, id)` names a row. -/
structure PositionTables (texts : Texts)
    (convert : PositionKind → Columns → Except RepositoryError Fields) where
  stored : List (Stored texts convert)
  unique_event : (stored.map (fun s => (s.row.signature, s.row.eventIndex))).Nodup
  unique_id : (stored.map (fun s => (s.kind, s.row.id))).Nodup

def PositionTables.table (db : PositionTables texts convert) (kind : PositionKind) :
    List (PositionRow Columns) :=
  (db.stored.filter (fun s => s.kind = kind)).map Stored.row

def Stored.keyRow (s : Stored texts convert) : KeyRow := s.row.keyRow s.kind

def Stored.key (collate : String → S) (s : Stored texts convert) : Int ×ₗ (S ×ₗ Int) :=
  s.keyRow.key collate

def Stored.mergedKey (s : Stored texts convert) : MergedEventKey := ⟨s.kind, s.row.id, s.row.timestamp⟩

theorem kinds_perm (l : List (Stored texts convert)) :
    (PositionKind.all.flatMap (fun k => l.filter (fun s => s.kind = k))).Perm l := by
  apply flatMap_classes_perm (by decide)
  intro s _
  cases s.kind <;> decide

omit [LinearOrder S] in
theorem PositionTables.keys_nodup (db : PositionTables texts convert) {collate : String → S}
    (hcollate : Function.Injective collate) : (db.stored.map (Stored.key collate)).Nodup := by
  have h := db.unique_event
  rw [List.Nodup, List.pairwise_map] at h ⊢
  apply h.imp
  intro a b hne hkey
  have hsig : collate a.row.signature = collate b.row.signature :=
    congrArg (fun k => (ofLex (ofLex k).2).1) hkey
  have hidx : a.row.eventIndex = b.row.eventIndex := congrArg (fun k => (ofLex (ofLex k).2).2) hkey
  exact hne (Prod.ext (hcollate hsig) hidx)

/-- The merge of the five cut tables is the cut of the five tables merged. -/
theorem merged_eq (db : PositionTables texts convert) {collate : String → S}
    (hcollate : Function.Injective collate) (wanted : PositionRow Columns → Bool) (from_ : Instant)
    (key : EventKey) (n : Nat) :
    merged collate db.table wanted from_ key n =
      ((orderBy (fun s => OrderDual.toDual (Stored.key collate s)) (db.stored.filter
        (fun s => wanted s.row &&
          (columnInstant from_ ≤ s.row.timestamp && afterKey collate key s.row)))).take
          n).map Stored.mergedKey := by
  let p : Stored texts convert → Bool :=
    fun s => wanted s.row && (columnInstant from_ ≤ s.row.timestamp && afterKey collate key s.row)
  let rows : PositionKind → List KeyRow :=
    fun k => ((db.stored.filter p).filter (fun s => s.kind = k)).map Stored.keyRow
  have hsub : ∀ k, subquery collate k (db.table k) wanted from_ key n =
      (orderBy (fun r => OrderDual.toDual (r.key collate)) (rows k)).take n := by
    intro k
    have hwhere : (db.table k).filter
        (fun r => wanted r && (columnInstant from_ ≤ r.timestamp && afterKey collate key r)) =
        ((db.stored.filter p).filter (fun s => s.kind = k)).map Stored.row := by
      rw [PositionTables.table, List.filter_map, List.filter_filter, List.filter_filter]
      congr 1
      apply List.filter_congr
      intro s _
      exact Bool.and_comm _ _
    have hkind : (((db.stored.filter p).filter (fun s => s.kind = k)).map Stored.row).map
        (PositionRow.keyRow k) = rows k := by
      rw [List.map_map]
      apply List.map_congr_left
      intro s hs
      have hk : s.kind = k := by simpa using (List.mem_filter.mp hs).2
      simp [Stored.keyRow, hk]
    rw [subquery, hwhere, hkind]
  have hperm : (PositionKind.all.flatMap rows).Perm ((db.stored.filter p).map Stored.keyRow) := by
    have h := (kinds_perm (db.stored.filter p)).map Stored.keyRow
    rw [List.map_flatMap] at h
    exact h
  have hnodup : ((PositionKind.all.flatMap rows).map
      (fun r => OrderDual.toDual (r.key collate))).Nodup := by
    rw [(hperm.map _).nodup_iff, List.map_map]
    exact nodup_map_filter (db.keys_nodup hcollate) p
  have hmerge := take_orderBy_flatMap n hnodup
  simp only [merged, hsub]
  rw [hmerge, orderBy_eq_of_perm hperm hnodup, orderBy_map, ← List.map_take, List.map_map]
  rfl

end Merge

section Fetch

variable {Columns Fields : Type} {texts : Texts}
  {convert : PositionKind → Columns → Except RepositoryError Fields}

theorem convertI32ToU16_toNat {v : Int} {field : String} {w : UInt16}
    (h : convertI32ToU16 v field = .ok w) : (w.toNat : Int) = v := by
  unfold convertI32ToU16 at h
  split_ifs at h with hv
  have hw := Except.ok.inj h
  rw [← hw, UInt16.toNat_ofNat']
  omega

theorem Stored.change_of_reads (s : Stored texts convert) :
    s.change.kind = s.kind ∧ s.change.timestamp = s.row.timestamp ∧
      (s.change.eventIndex.toNat : Int) = s.row.eventIndex := by
  obtain ⟨pool, _, h⟩ := bind_eq_ok s.reads
  obtain ⟨signature, _, h⟩ := bind_eq_ok h
  obtain ⟨slot, _, h⟩ := bind_eq_ok h
  obtain ⟨transactionIndex, _, h⟩ := bind_eq_ok h
  obtain ⟨eventIndex, hindex, h⟩ := bind_eq_ok h
  obtain ⟨own, _, h⟩ := bind_eq_ok h
  have hchange := Except.ok.inj h
  have hval : (eventIndex.toNat : Int) = s.row.eventIndex := convertI32ToU16_toNat hindex
  exact ⟨by rw [← hchange], by rw [← hchange], by rw [← hchange]; exact hval⟩

/-- Rows of one table read into the map: each stands under its id, the other tables' rows stay. -/
theorem insertRows_ok {kind : PositionKind} {l : List (Stored texts convert)}
    (hkind : ∀ s ∈ l, s.kind = kind) (hid : (l.map (fun s => s.row.id)).Nodup)
    (m : Changes (PositionChange Fields)) :
    ∃ m', insertRows texts convert kind (l.map Stored.row) m = .ok m' ∧
      (∀ s ∈ l, m' (kind, s.row.id) = some s.change) ∧
      ∀ k, (∀ s ∈ l, k ≠ (kind, s.row.id)) → m' k = m k := by
  induction l generalizing m with
  | nil => exact ⟨m, rfl, by simp, fun _ _ => rfl⟩
  | cons s l ih =>
    rw [List.map_cons, List.nodup_cons] at hid
    obtain ⟨m', hm', hin, hout⟩ := ih (fun x hx => hkind x (List.mem_cons_of_mem _ hx)) hid.2
      (m.insert (kind, s.row.id) s.change)
    have hread : PositionChange.tryFrom texts convert kind s.row = .ok s.change := by
      rw [← hkind s List.mem_cons_self]
      exact s.reads
    have hfresh : ∀ x ∈ l, (kind, s.row.id) ≠ (kind, x.row.id) := by
      intro x hx he
      exact hid.1 (List.mem_map.mpr ⟨x, hx, (congrArg Prod.snd he).symm⟩)
    refine ⟨m', ?_, ?_, ?_⟩
    · rw [List.map_cons, insertRows, List.foldlM_cons, hread]
      exact hm'
    · intro x hx
      rcases List.mem_cons.mp hx with rfl | hx
      · rw [hout _ hfresh, Changes.insert, if_pos rfl]
      · exact hin x hx
    · intro k hk
      rw [hout k (fun x hx => hk x (List.mem_cons_of_mem _ hx)), Changes.insert,
        if_neg (hk s List.mem_cons_self)]

theorem insertKinds_ok (kinds : List PositionKind) (hkinds : kinds.Nodup)
    {l : PositionKind → List (Stored texts convert)} (hkind : ∀ k, ∀ s ∈ l k, s.kind = k)
    (hid : ∀ k, ((l k).map (fun s => s.row.id)).Nodup) (m : Changes (PositionChange Fields)) :
    ∃ m', kinds.foldlM (fun m k => insertRows texts convert k ((l k).map Stored.row) m) m = .ok m' ∧
      (∀ k ∈ kinds, ∀ s ∈ l k, m' (k, s.row.id) = some s.change) ∧
      ∀ k, k.1 ∉ kinds → m' k = m k := by
  induction kinds generalizing m with
  | nil => exact ⟨m, rfl, by simp, fun _ _ => rfl⟩
  | cons k kinds ih =>
    obtain ⟨hk, hnodup⟩ := List.nodup_cons.mp hkinds
    obtain ⟨m₁, hm₁, hin₁, hout₁⟩ := insertRows_ok (hkind k) (hid k) m
    obtain ⟨m', hm', hin, hout⟩ := ih hnodup m₁
    refine ⟨m', ?_, ?_, ?_⟩
    · rw [List.foldlM_cons, hm₁]
      exact hm'
    · intro k' hk' s hs
      rcases List.mem_cons.mp hk' with rfl | hk'
      · rw [hout _ hk, hin₁ s hs]
      · exact hin k' hk' s hs
    · intro k' hk'
      rw [List.mem_cons, not_or] at hk'
      rw [hout k' hk'.2, hout₁ k']
      rintro s hs rfl
      exact hk'.1 rfl

theorem inKeyOrder_ok {l : List (Stored texts convert)}
    (hid : (l.map (fun s => (s.kind, s.row.id))).Nodup) {m : Changes (PositionChange Fields)}
    (hm : ∀ s ∈ l, m (s.kind, s.row.id) = some s.change) :
    inKeyOrder (l.map Stored.mergedKey) m = .ok (l.map Stored.change) := by
  induction l generalizing m with
  | nil => rfl
  | cons s l ih =>
    rw [List.map_cons, List.nodup_cons] at hid
    have hrest := ih (m := m.remove (s.kind, s.row.id)) hid.2 (by
      intro x hx
      have hne : (x.kind, x.row.id) ≠ (s.kind, s.row.id) :=
        fun he => hid.1 (List.mem_map.mpr ⟨x, hx, he⟩)
      rw [Changes.remove, if_neg hne]
      exact hm x (List.mem_cons_of_mem _ hx))
    have hhead : m (s.mergedKey.kind, s.mergedKey.id) = some s.change := hm s List.mem_cons_self
    rw [List.map_cons, inKeyOrder, hhead]
    change (do
      let rest ← inKeyOrder (l.map Stored.mergedKey) (m.remove (s.kind, s.row.id))
      pure (s.change :: rest)) = _
    rw [hrest]
    rfl

theorem instantsOf_bounds {keys : List MergedEventKey} {span : Int × Int}
    (h : instantsOf keys = some span) :
    ∀ k ∈ keys, span.1 ≤ k.timestamp ∧ k.timestamp ≤ span.2 := by
  intro k hk
  have hmem : k.timestamp ∈ keys.map MergedEventKey.timestamp := List.mem_map_of_mem hk
  obtain ⟨first, hfirst, h⟩ := Option.bind_eq_some_iff.mp h
  obtain ⟨last, hlast, h⟩ := Option.bind_eq_some_iff.mp h
  obtain rfl := Option.some.inj h
  exact ⟨(List.le_min?_iff hfirst).mp (Int.le_refl _) _ hmem,
    (List.max?_le_iff hlast).mp (Int.le_refl _) _ hmem⟩

theorem instantsOf_eq_none {keys : List MergedEventKey} (h : instantsOf keys = none) : keys = [] := by
  cases keys with
  | nil => rfl
  | cons k ks => simp [instantsOf] at h

/-- The page's rows, found again by table and id within the page's instants. -/
theorem fetch_ok (db : PositionTables texts convert) {l : List (Stored texts convert)}
    (hmem : ∀ s ∈ l, s ∈ db.stored) (hid : (l.map (fun s => (s.kind, s.row.id))).Nodup) :
    fetchMeteoraDammV2 texts convert db.table (l.map Stored.mergedKey) =
      .ok (l.map Stored.change) := by
  unfold fetchMeteoraDammV2
  cases hspan : instantsOf (l.map Stored.mergedKey) with
  | none =>
    have hnil : l = [] := List.map_eq_nil_iff.mp (instantsOf_eq_none hspan)
    rw [hnil]
    rfl
  | some span =>
    let wanted : PositionKind → Stored texts convert → Bool := fun k s =>
      decide (s.row.id ∈ idsOf (l.map Stored.mergedKey) k) &&
        (columnInstant span.1 ≤ s.row.timestamp && s.row.timestamp ≤ columnInstant span.2)
    let fetched : PositionKind → List (Stored texts convert) := fun k =>
      (db.stored.filter (fun s => s.kind = k)).filter (wanted k)
    have hfetch : ∀ k, fetchKind (db.table k) (idsOf (l.map Stored.mergedKey) k) span =
        (fetched k).map Stored.row := by
      intro k
      have hfilter : (db.table k).filter (fun r =>
          decide (r.id ∈ idsOf (l.map Stored.mergedKey) k) &&
            (columnInstant span.1 ≤ r.timestamp && r.timestamp ≤ columnInstant span.2)) =
          (fetched k).map Stored.row :=
        filter_map_eq (fun s _ => rfl)
      by_cases hnil : idsOf (l.map Stored.mergedKey) k = []
      · have hnone : fetched k = [] := by
          rw [List.filter_eq_nil_iff]
          intro s _
          simp [wanted, hnil]
        simp [fetchKind, hnil, hnone]
      · rw [fetchKind, if_neg (by simpa using hnil)]
        exact hfilter
    have hkind : ∀ k, ∀ s ∈ fetched k, s.kind = k := by
      intro k s hs
      simpa using (List.mem_filter.mp (List.mem_filter.mp hs).1).2
    have hids : ∀ k, ((fetched k).map (fun s => s.row.id)).Nodup := by
      intro k
      have hsub : (fetched k).Sublist db.stored :=
        List.filter_sublist.trans List.filter_sublist
      have hpairs : ((fetched k).map (fun s => (s.kind, s.row.id))).Nodup :=
        db.unique_id.sublist (hsub.map _)
      rw [List.Nodup, List.pairwise_map] at hpairs ⊢
      apply hpairs.imp_of_mem
      intro a b ha hb hne he
      exact hne (Prod.ext ((hkind k a ha).trans (hkind k b hb).symm) he)
    obtain ⟨m, hm, hin, -⟩ := insertKinds_ok PositionKind.all (by decide) hkind hids
      (fun _ => none)
    have hrows : ∀ s ∈ l, m (s.kind, s.row.id) = some s.change := by
      intro s hs
      have hkey : s.mergedKey ∈ l.map Stored.mergedKey := List.mem_map_of_mem hs
      have hall : s.kind ∈ PositionKind.all := by cases s.kind <;> decide
      have hbounds := instantsOf_bounds hspan _ hkey
      have hlower := columnInstant_mono hbounds.1
      have hupper := columnInstant_mono hbounds.2
      change _ ≤ columnInstant s.row.timestamp at hlower
      change columnInstant s.row.timestamp ≤ _ at hupper
      rw [s.timestamp] at hlower hupper
      have hidmem : s.row.id ∈ idsOf (l.map Stored.mergedKey) s.kind :=
        List.mem_map.mpr ⟨s.mergedKey, List.mem_filter.mpr ⟨hkey, by simp [Stored.mergedKey]⟩, rfl⟩
      apply hin s.kind hall
      refine List.mem_filter.mpr ⟨List.mem_filter.mpr ⟨hmem s hs, by simp⟩, ?_⟩
      simp only [wanted, hidmem, decide_true, Bool.true_and, Bool.and_eq_true, decide_eq_true_eq]
      exact ⟨hlower, hupper⟩
    have hfold : PositionKind.all.foldlM (fun m k => insertRows texts convert k
        (fetchKind (db.table k) (idsOf (l.map Stored.mergedKey) k) span) m) (fun _ => none) = .ok m := by
      simp only [hfetch]
      exact hm
    change (PositionKind.all.foldlM _ _ >>= _) = _
    rw [hfold]
    exact inKeyOrder_ok hid hrows

end Fetch

end YogSothoth.PositionChanges
