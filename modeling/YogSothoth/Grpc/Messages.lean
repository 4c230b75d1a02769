import YogSothoth.Grpc.Bounds

namespace YogSothoth.Grpc

variable {T : Type*}

namespace Call

/-- The known slots with the call's fact in, before the oldest are trimmed. -/
def noted (k : KnownSlots) : Call T → KnownSlots
  | .payload _ _ _ => k
  | .blockTime slot bank instant => k.edit slot (KnownSlots.resolveFacts bank instant)
  | .slotUnresolvable slot bank => k.edit slot (KnownSlots.giveUpFacts bank)
  | .finalized slot bank => k.edit slot (KnownSlots.keepFacts bank)

/-- The call exceeds no bound: no payload evicted by one, no known slot trimmed. -/
structure Quiet (b : SlotTimestampBuffer T) (c : Call T) : Prop where
  evictions : (c.apply b).2.boundEvictions = b.boundEvictions
  known : (c.noted b.known).facts.size ≤ b.known.maxKnownSlots

instance (b : SlotTimestampBuffer T) (c : Call T) : Decidable (c.Quiet b) :=
  decidable_of_iff ((c.apply b).2.boundEvictions = b.boundEvictions ∧
    (c.noted b.known).facts.size ≤ b.known.maxKnownSlots) ⟨fun h => ⟨h.1, h.2⟩, fun h => ⟨h.1, h.2⟩⟩

end Call

/-- No call of the run exceeds a bound. -/
def WithinBounds : BufferRun T → List (Call T) → Prop
  | _, [] => True
  | r, c :: calls => c.Quiet r.buffer ∧ WithinBounds (r.step c) calls

instance WithinBounds.decidable : (r : BufferRun T) → (calls : List (Call T)) →
    Decidable (WithinBounds r calls)
  | _, [] => isTrue trivial
  | r, c :: calls =>
    have := WithinBounds.decidable (r.step c) calls
    inferInstanceAs (Decidable (_ ∧ _))

theorem withinBounds_concat {r : BufferRun T} {calls : List (Call T)} {c : Call T}
    (h : WithinBounds r (calls ++ [c])) :
    WithinBounds r calls ∧ c.Quiet (calls.foldl BufferRun.step r).buffer := by
  induction calls generalizing r with
  | nil => exact ⟨trivial, h.1⟩
  | cons d calls ih =>
    obtain ⟨hcalls, hc⟩ := ih h.2
    exact ⟨⟨h.1, hcalls⟩, hc⟩

/-- A message of the stream that names its bank. -/
inductive Message (T : Type*) where
  | payload (slot bank : Nat) (value : T)
  | blockMeta (slot bank : Nat) (instant : Instant)
  | finalized (slot bank : Nat)
  deriving DecidableEq

namespace Message

def call : Message T → Call T
  | .payload slot bank value => .payload slot (.id bank) value
  | .blockMeta slot bank instant => .blockTime slot (.id bank) instant
  | .finalized slot bank => .finalized slot (.id bank)

def slot : Message T → Nat
  | .payload slot _ _ | .blockMeta slot _ _ | .finalized slot _ => slot

/-- The bank the message finalizes in slot `s`. -/
def keeps (s : Nat) : Message T → Option Nat
  | .finalized slot bank => if slot = s then some bank else none
  | _ => none

/-- The instant the message gives to bank `b` of slot `s`. -/
def times (s b : Nat) : Message T → Option Instant
  | .blockMeta slot bank instant => if slot = s ∧ bank = b then some instant else none
  | _ => none

/-- The payload the message brings to slot `s`. -/
def held (s : Nat) : Message T → Option (Held T)
  | .payload slot bank value => if slot = s then some ⟨.id bank, value⟩ else none
  | _ => none

end Message

/-- Each slot is finalized under one bank, and each bank of a slot has one instant. -/
structure Consistent (ms : List (Message T)) : Prop where
  finalized : ∀ {slot b b'}, .finalized slot b ∈ ms → .finalized slot b' ∈ ms → b = b'
  instant : ∀ {slot bank i i'}, .blockMeta slot bank i ∈ ms → .blockMeta slot bank i' ∈ ms → i = i'

def keptBank (ms : List (Message T)) (s : Nat) : Option Nat := ms.findSome? (Message.keeps s)

def instantOf (ms : List (Message T)) (s b : Nat) : Option Instant := ms.findSome? (Message.times s b)

/-- What the payload message is returned as, given all the messages. -/
def paired (ms : List (Message T)) : Message T → Option (Nat × Resolved T)
  | .payload slot bank value =>
    if keptBank ms slot = some bank then
      (instantOf ms slot bank).map (fun instant => (slot, ⟨value, instant⟩))
    else none
  | _ => none

theorem Message.keeps_eq_some {s b : Nat} {m : Message T} :
    m.keeps s = some b ↔ m = .finalized s b := by
  cases m <;> simp [keeps]

theorem Message.times_eq_some {s b : Nat} {i : Instant} {m : Message T} :
    m.times s b = some i ↔ m = .blockMeta s b i := by
  cases m <;> simp [times, and_assoc]

theorem keptBank_mem {ms : List (Message T)} {s b : Nat} (h : keptBank ms s = some b) :
    .finalized s b ∈ ms := by
  obtain ⟨m, hm, hk⟩ := List.exists_of_findSome?_eq_some h
  rwa [← Message.keeps_eq_some.mp hk]

theorem instantOf_mem {ms : List (Message T)} {s b : Nat} {i : Instant}
    (h : instantOf ms s b = some i) : .blockMeta s b i ∈ ms := by
  obtain ⟨m, hm, hk⟩ := List.exists_of_findSome?_eq_some h
  rwa [← Message.times_eq_some.mp hk]

theorem Consistent.keptBank_eq_some {ms : List (Message T)} (hc : Consistent ms) {s b : Nat} :
    keptBank ms s = some b ↔ .finalized s b ∈ ms := by
  refine ⟨keptBank_mem, fun hm => ?_⟩
  cases h : keptBank ms s with
  | none =>
    have hnone := List.findSome?_eq_none_iff.mp h _ hm
    simp [Message.keeps] at hnone
  | some b' => rw [hc.finalized hm (keptBank_mem h)]

theorem Consistent.instantOf_eq_some {ms : List (Message T)} (hc : Consistent ms) {s b : Nat}
    {i : Instant} : instantOf ms s b = some i ↔ .blockMeta s b i ∈ ms := by
  refine ⟨instantOf_mem, fun hm => ?_⟩
  cases h : instantOf ms s b with
  | none =>
    have hnone := List.findSome?_eq_none_iff.mp h _ hm
    simp [Message.times] at hnone
  | some i' => rw [hc.instant hm (instantOf_mem h)]

theorem Consistent.of_subset {ms ms' : List (Message T)} (hc : Consistent ms) (h : ms' ⊆ ms) :
    Consistent ms' :=
  ⟨fun hb hb' => hc.finalized (h hb) (h hb'), fun hi hi' => hc.instant (h hi) (h hi')⟩

/-- The pairing depends on which messages there are, not on their order. -/
theorem Consistent.paired_eq {ms ms' : List (Message T)} (hc : Consistent ms) (h : ms'.Perm ms) :
    paired ms' = paired ms := by
  have hc' : Consistent ms' := hc.of_subset h.subset
  have hkept (s : Nat) : keptBank ms' s = keptBank ms s := by
    apply Option.ext
    intro b
    rw [hc'.keptBank_eq_some, hc.keptBank_eq_some, h.mem_iff]
  have htime (s b : Nat) : instantOf ms' s b = instantOf ms s b := by
    apply Option.ext
    intro i
    rw [hc'.instantOf_eq_some, hc.instantOf_eq_some, h.mem_iff]
  funext m
  cases m <;> simp [paired, hkept, htime]

theorem keptBank_concat (ms : List (Message T)) (m : Message T) (s : Nat) :
    keptBank (ms ++ [m]) s = (keptBank ms s).or (m.keeps s) := by
  simp [keptBank, List.findSome?_append]

theorem instantOf_concat (ms : List (Message T)) (m : Message T) (s b : Nat) :
    instantOf (ms ++ [m]) s b = (instantOf ms s b).or (m.times s b) := by
  simp [instantOf, List.findSome?_append]

theorem resolveTimes_subset {bank : Bank} {i : Instant} {times : List (Bank × SlotOutcome)}
    {e : Bank × SlotOutcome} (h : e ∈ resolveTimes bank i times) : e ∈ times ∨ e = (bank, .at i) := by
  induction times with
  | nil => exact Or.inr (by simpa [resolveTimes] using h)
  | cons t times ih =>
    obtain ⟨known, outcome⟩ := t
    unfold resolveTimes at h
    split_ifs at h with hk
    · subst hk
      rcases List.mem_cons.mp h with rfl | h
      · exact Or.inr rfl
      · exact Or.inl (List.mem_cons_of_mem _ h)
    · rcases List.mem_cons.mp h with rfl | h
      · exact Or.inl (List.mem_cons_self)
      · exact (ih h).imp_left (List.mem_cons_of_mem _)

theorem mem_resolveTimes (bank : Bank) (i : Instant) (times : List (Bank × SlotOutcome)) :
    (bank, .at i) ∈ resolveTimes bank i times := by
  induction times with
  | nil => simp [resolveTimes]
  | cons t times ih =>
    unfold resolveTimes
    split_ifs with hk
    · simp [hk]
    · exact List.mem_cons_of_mem _ ih

theorem resolveTimes_keeps {bank : Bank} {i : Instant} {times : List (Bank × SlotOutcome)}
    {e : Bank × SlotOutcome} (h : e ∈ times) (hne : e.1 ≠ bank) : e ∈ resolveTimes bank i times := by
  induction times with
  | nil => simp at h
  | cons t times ih =>
    unfold resolveTimes
    split_ifs with hk
    · rcases List.mem_cons.mp h with rfl | h
      · exact absurd hk hne
      · exact List.mem_cons_of_mem _ h
    · rcases List.mem_cons.mp h with rfl | h
      · exact List.mem_cons_self
      · exact List.mem_cons_of_mem _ (ih h)

/-- One slot's facts are those of the messages. -/
structure Facts.Fit (f : Facts) (ms : List (Message T)) (s : Nat) : Prop where
  kept : f.kept = (keptBank ms s).map Bank.id
  sound : ∀ e ∈ f.times, ∃ b i, e = (.id b, .at i) ∧ .blockMeta s b i ∈ ms
  complete : ∀ {b i}, .blockMeta s b i ∈ ms → (Bank.id b, .at i) ∈ f.times

/-- A bank's time is the instant its block-metas carry. -/
theorem Facts.Fit.time {f : Facts} {ms : List (Message T)} {s : Nat} (hf : f.Fit ms s)
    (hc : Consistent ms) (b : Nat) : f.time (.id b) = (instantOf ms s b).map .at := by
  have hmem : ∀ o ∈ f.admitted (.id b), ∃ i, o = .at i ∧ .blockMeta s b i ∈ ms := by
    intro o ho
    obtain ⟨e, he, rfl⟩ := List.mem_map.mp ho
    obtain ⟨he, hb⟩ := List.mem_filter.mp he
    obtain ⟨b', i, rfl, hm⟩ := hf.sound e he
    have hb : b = b' := by simpa using hb
    exact ⟨i, rfl, hb ▸ hm⟩
  cases hi : instantOf ms s b with
  | none =>
    have hnil : f.admitted (.id b) = [] := by
      rw [List.eq_nil_iff_forall_not_mem]
      intro o ho
      obtain ⟨i, -, hm⟩ := hmem o ho
      rw [hc.instantOf_eq_some.mpr hm] at hi
      simp at hi
    simp [Facts.time, hnil]
  | some i =>
    have hin : SlotOutcome.at i ∈ f.admitted (.id b) :=
      List.mem_map.mpr ⟨_, List.mem_filter.mpr ⟨hf.complete (instantOf_mem hi), by simp⟩, rfl⟩
    cases ha : f.admitted (.id b) with
    | nil => simp [ha] at hin
    | cons o rest =>
      obtain ⟨i', rfl, hm⟩ := hmem o (by simp [ha])
      rw [Facts.time, ha, hc.instant hm (instantOf_mem hi)]
      rfl

namespace KnownSlots

theorem trim_of_le {k : KnownSlots} (h : k.facts.size ≤ k.maxKnownSlots) : k.trim = k := by
  have hz : k.facts.size - k.maxKnownSlots = 0 := by omega
  rw [trim, hz]
  rfl

/-- What is known of a slot, nothing when it has no entry. -/
def factsOf (k : KnownSlots) (s : Nat) : Facts := k.facts.getD s .default

theorem kept_eq (k : KnownSlots) (s : Nat) : k.kept s = (k.factsOf s).kept := by
  simp only [kept, factsOf, OrdMap.getD]
  cases k.facts.get? s <;> rfl

theorem time_eq (k : KnownSlots) (s : Nat) :
    k.time s = (k.factsOf s).kept.bind (k.factsOf s).time := by
  simp only [time, factsOf, OrdMap.getD]
  cases k.facts.get? s <;> rfl

theorem settlement_eq (k : KnownSlots) (s : Nat) (bank : Bank) :
    k.settlement s bank = (k.factsOf s).kept.elim .pending (fun kept =>
      if kept.admits bank then ((k.factsOf s).time kept).elim .pending .settled else .losing) := by
  simp only [settlement, factsOf, OrdMap.getD]
  cases hg : k.facts.get? s with
  | none => rfl
  | some facts => cases hk : facts.kept <;> simp [hk]

theorem factsOf_edit (k : KnownSlots) (slot : Nat) (f : Facts → Facts) (s : Nat) :
    (k.edit slot f).factsOf s = if s = slot then f (k.factsOf slot) else k.factsOf s := by
  simp only [factsOf, edit, OrdMap.getD, OrdMap.get?_insert]
  split_ifs <;> rfl

/-- Every slot's facts are those of the messages. -/
def Fit (k : KnownSlots) (ms : List (Message T)) : Prop := ∀ s, (k.factsOf s).Fit ms s

variable {k : KnownSlots} {ms : List (Message T)}

theorem Fit.kept (hk : k.Fit ms) (s : Nat) : k.kept s = (keptBank ms s).map .id := by
  rw [kept_eq, (hk s).kept]

theorem Fit.time (hk : k.Fit ms) (hc : Consistent ms) (s : Nat) :
    k.time s = (keptBank ms s).bind (fun b => (instantOf ms s b).map .at) := by
  rw [time_eq, (hk s).kept]
  cases keptBank ms s with
  | none => rfl
  | some b => exact (hk s).time hc b

theorem Fit.settlement (hk : k.Fit ms) (hc : Consistent ms) (s b : Nat) :
    k.settlement s (.id b) = (keptBank ms s).elim .pending (fun kept =>
      if kept = b then (instantOf ms s kept).elim .pending (fun i => .settled (.at i))
      else .losing) := by
  rw [settlement_eq, (hk s).kept]
  cases keptBank ms s with
  | none => rfl
  | some kept =>
    simp only [Option.map_some, Option.elim_some, (hk s).time hc, Bank.admits_id, decide_eq_true_eq]
    cases instantOf ms s kept <;> rfl

end KnownSlots

/-- A message about another slot leaves the facts of `s` as they were. -/
theorem Facts.Fit.concat_of_ne {f : Facts} {ms : List (Message T)} {s : Nat} (hf : f.Fit ms s)
    {m : Message T} (hm : m.slot ≠ s) : f.Fit (ms ++ [m]) s := by
  refine ⟨?_, ?_, ?_⟩
  · have hkeeps : m.keeps s = none := by cases m <;> simp_all [Message.keeps, Message.slot]
    rw [keptBank_concat, hkeeps, Option.or_none, hf.kept]
  · intro e he
    obtain ⟨b, i, rfl, hb⟩ := hf.sound e he
    exact ⟨b, i, rfl, List.mem_append_left _ hb⟩
  · intro b i hb
    rcases List.mem_append.mp hb with hb | hb
    · exact hf.complete hb
    · simp only [List.mem_singleton] at hb
      exact absurd (by simp [← hb, Message.slot]) hm

theorem Facts.Fit.payload {f : Facts} {ms : List (Message T)} {s b : Nat} {value : T}
    (hf : f.Fit ms s) : f.Fit (ms ++ [.payload s b value]) s := by
  refine ⟨?_, ?_, ?_⟩
  · rw [keptBank_concat, hf.kept]
    simp [Message.keeps]
  · intro e he
    obtain ⟨b, i, rfl, hb⟩ := hf.sound e he
    exact ⟨b, i, rfl, List.mem_append_left _ hb⟩
  · intro b i hb
    exact hf.complete (by simpa using hb)

theorem Facts.Fit.finalized {f : Facts} {ms : List (Message T)} {s b : Nat} (hf : f.Fit ms s) :
    (KnownSlots.keepFacts (.id b) f).Fit (ms ++ [.finalized s b]) s := by
  refine ⟨?_, ?_, ?_⟩
  · rw [keptBank_concat]
    simp only [KnownSlots.keepFacts, Message.keeps, if_true, hf.kept]
    cases keptBank ms s <;> rfl
  · intro e he
    obtain ⟨b, i, rfl, hb⟩ := hf.sound e he
    exact ⟨b, i, rfl, List.mem_append_left _ hb⟩
  · intro b i hb
    exact hf.complete (by simpa using hb)

theorem Facts.Fit.blockMeta {f : Facts} {ms : List (Message T)} {s b : Nat} {i : Instant}
    (hf : f.Fit ms s) (hc : Consistent (ms ++ [.blockMeta s b i])) :
    (KnownSlots.resolveFacts (.id b) i f).Fit (ms ++ [.blockMeta s b i]) s := by
  have hlast : Message.blockMeta s b i ∈ ms ++ [.blockMeta s b i] := by simp
  refine ⟨?_, ?_, ?_⟩
  · rw [keptBank_concat]
    simp [KnownSlots.resolveFacts, Message.keeps, hf.kept]
  · intro e he
    rcases resolveTimes_subset he with he | rfl
    · obtain ⟨b', i', rfl, hb⟩ := hf.sound e he
      exact ⟨b', i', rfl, List.mem_append_left _ hb⟩
    · exact ⟨b, i, rfl, hlast⟩
  · intro b' i' hb
    by_cases hbb : b' = b
    · subst hbb
      rw [hc.instant hb hlast]
      exact mem_resolveTimes _ _ _
    · have hold : Message.blockMeta s b' i' ∈ ms := by simpa [hbb] using hb
      exact resolveTimes_keeps (hf.complete hold) (by simpa using hbb)

theorem KnownSlots.Fit.noted {k : KnownSlots} {ms : List (Message T)} (hk : k.Fit ms) (m : Message T)
    (hc : Consistent (ms ++ [m])) : (m.call.noted k).Fit (ms ++ [m]) := by
  intro s
  by_cases hs : m.slot = s
  · subst hs
    cases m with
    | payload slot bank value => exact (hk _).payload
    | blockMeta slot bank instant =>
      simp only [Message.call, Call.noted, factsOf_edit, Message.slot, if_true]
      exact (hk _).blockMeta hc
    | finalized slot bank =>
      simp only [Message.call, Call.noted, factsOf_edit, Message.slot, if_true]
      exact (hk _).finalized
  · have hfacts : (m.call.noted k).factsOf s = k.factsOf s := by
      cases m <;> simp_all [Message.call, Call.noted, factsOf_edit, Message.slot, eq_comm]
    rw [hfacts]
    exact (hk s).concat_of_ne hs

end YogSothoth.Grpc
