import YogSothoth.Analytic.FrozenHours

namespace YogSothoth.Analytic

open Hourly

variable {P : Type*} [LinearOrder P] {W : Type*}

omit [LinearOrder P] in
theorem sum_column (group : List (PoolFact P)) (column : UsdColumn) :
    (group.map (fun f => f.usd.getD 0)).sum column =
      (group.map (fun f => f.usd.getD 0 column)).sum := by
  induction group with
  | nil => rfl
  | cons f group ih => simp only [List.map_cons, List.sum_cons, Pi.add_apply, ih]

/-- A worker plans and executes at once. -/
theorem AnalyticReachable.cycle [DecidableEq W] {s : AnalyticState W P} (hs : AnalyticReachable s)
    (w : W) (now : Int) (contents : Int → TrancheContents P) {db : Analytics P}
    {written : CycleWrite} (first : s.executed = [] ∨ s.db.tables.progress.firstHour.isSome)
    (commit : s.db.writeCycle contents (.plan now s.db.tables.progress) = .ok (db, written)) :
    ∃ planned, AnalyticReachable (⟨db, planned, s.executed ++ [⟨s.db.tables, written⟩]⟩ :
      AnalyticState W P) := by
  have hplan := hs.tail (AnalyticStep.plan s w now)
  exact ⟨_, hplan.tail (AnalyticStep.execute _ w _ contents db written (Function.update_self ..)
    first commit)⟩

/-- One pool, traded in the tranche of 10:00. -/
def oneTrade (b : Int) : TrancheContents Nat :=
  if b = minutes 600 then ⟨[⟨0, 3, some (fun _ => 1), some 2⟩], []⟩ else ⟨[], []⟩

/-- The tables after a cycle at `now`. -/
def tradedAt (db : Analytics Nat) (now : Int) : Analytics Nat :=
  ((db.writeCycle oneTrade (.plan now db.tables.progress)).toOption.map Prod.fst).getD .empty

end YogSothoth.Analytic
