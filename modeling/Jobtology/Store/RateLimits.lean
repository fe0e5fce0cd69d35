import Jobtology.Base.FixedWindow
import Jobtology.Relational.Runs
import Jobtology.Store.Worker

/-!
# Account budgets

The chat quota of `rate_limit.py` and the reservations of `compute_budget.py`, over every order in
which workers and requests make them, each with the bucket of its own clock. A row lock on the
counter puts the reservations of one counter in an order, so one reservation is one step.
-/

namespace Jobtology.Store

open Jobtology.Base Jobtology.Relational
open Jobtology.Relational.Transaction

/-- `reserve_request`. `src/jobtology_be/infrastructure/persistence/compute_budget.py:69–72`. -/
def reserveRequest (userId : Uuid) (policy : AnalysisBudgetPolicy) (now : Int) : Txn Unit :=
  reserveBudget userId "analysis_request_hour" policy.requestsPerHour (3600 * second) now

/-- `PostgresAccountRateLimiter`.
`src/jobtology_be/infrastructure/persistence/rate_limit.py:27–28,31–81`. -/
structure AccountRateLimiter where
  limitPerMinute : Nat := 20
  bounded : 1 ≤ limitPerMinute ∧ limitPerMinute < 2147483647 := by decide

/-- `RateLimitDecision`. `src/jobtology_be/infrastructure/persistence/rate_limit.py:18–20`. -/
structure RateLimitDecision where
  allowed : Bool
  retryAfterSeconds : Int
  deriving DecidableEq

/-- The row of `consume`: the count saturates one above the limit. -/
def AccountRateLimiter.row (limiter : AccountRateLimiter) (userId : Uuid) (now : Int) :
    Option RateLimitRow → RateLimitRow
  | none => ⟨userId, "chat", now - now % (60 * second), 1⟩
  | some l => { l with
      windowStartedAt := max l.windowStartedAt (now - now % (60 * second))
      requestCount := if l.windowStartedAt < now - now % (60 * second) then 1
        else min l.requestCount limiter.limitPerMinute + 1 }

/-- `consume`. The decision is made with a second reading of the clock.
`src/jobtology_be/infrastructure/persistence/rate_limit.py:46–81`. -/
def consume (limiter : AccountRateLimiter) (userId : Uuid) (now checkedAt : Int) :
    Txn RateLimitDecision := do
  let counter ← query fun db ↦ db.rateLimits.find? fun l ↦ l.userId = userId ∧ l.scope = "chat"
  let row := limiter.row userId now counter
  match counter with
  | none => statement fun db ↦ { db with rateLimits := db.rateLimits ++ [row] }
  | some _ => statement fun db ↦ { db with
      rateLimits := update (fun l ↦ l.userId = userId ∧ l.scope = "chat") (fun _ ↦ row)
        db.rateLimits }
  return ⟨row.requestCount ≤ limiter.limitPerMinute,
    retryAfter (row.windowStartedAt + 60 * second) checkedAt⟩

/-- The counters of an account. -/
inductive BudgetScope
  | requestHour
  | computeHour
  | computeMinute
  | chat
  deriving DecidableEq

/-- The scope column of a counter. -/
def BudgetScope.name : BudgetScope → String
  | requestHour => "analysis_request_hour"
  | computeHour => "analysis_compute_hour"
  | computeMinute => "analysis_compute_minute"
  | chat => "chat"

/-- What `date_trunc` cuts a clock of the counter down to. -/
def BudgetScope.unit : BudgetScope → Int
  | requestHour | computeHour => 3600 * second
  | computeMinute | chat => 60 * second

/-- The bucket of a reservation, from its own clock. -/
def BudgetScope.bucket (scope : BudgetScope) (now : Int) : Int := now - now % scope.unit

private theorem BudgetScope.name_inj {a b : BudgetScope} (h : a.name = b.name) : a = b := by
  cases a <;> cases b <;> first | rfl | exact absurd h (by decide)

/-- The window that a counter stores. -/
def Db.window (db : Db) (userId : Uuid) (scope : String) : Option (Window Int) :=
  (db.rateLimits.find? fun l ↦ l.userId = userId ∧ l.scope = scope).map fun l ↦
    ⟨l.windowStartedAt, l.requestCount⟩

/-! ### One reservation -/

section Counters

variable {db t : Db} {userId : Uuid} {scope : String}

private theorem window_eq_none :
    db.rateLimits.find? (fun l ↦ l.userId = userId ∧ l.scope = scope) = none ↔
      db.window userId scope = none := by
  unfold Db.window
  rw [Option.map_eq_none_iff]

/-- A new counter. -/
theorem window_append (row : RateLimitRow) (hnone : db.window userId scope = none)
    (hrow : row.userId = userId ∧ row.scope = scope)
    (ht : t.rateLimits = db.rateLimits ++ [row]) (user : Uuid) (s : String) :
    t.window user s = if user = userId ∧ s = scope then
      some ⟨row.windowStartedAt, row.requestCount⟩ else db.window user s := by
  unfold Db.window
  rw [ht, List.find?_append]
  by_cases hkey : user = userId ∧ s = scope
  · obtain ⟨rfl, rfl⟩ := hkey
    rw [window_eq_none.mpr hnone, if_pos ⟨rfl, rfl⟩]
    simp [hrow]
  · rw [if_neg hkey]
    have hother : ¬ (row.userId = user ∧ row.scope = s) := by
      rw [hrow.1, hrow.2]
      exact fun h ↦ hkey ⟨h.1.symm, h.2.symm⟩
    simp [hother]

/-- A counter that is written. -/
theorem window_update (f : RateLimitRow → RateLimitRow)
    (hkeeps : ∀ l, l.userId = userId ∧ l.scope = scope →
      (f l).userId = userId ∧ (f l).scope = scope)
    (ht : t.rateLimits =
      update (fun l ↦ l.userId = userId ∧ l.scope = scope) f db.rateLimits)
    (user : Uuid) (s : String) :
    t.window user s = if user = userId ∧ s = scope then
      (db.rateLimits.find? fun l ↦ l.userId = userId ∧ l.scope = scope).map fun l ↦
        ⟨(f l).windowStartedAt, (f l).requestCount⟩
      else db.window user s := by
  unfold Db.window
  rw [ht]
  unfold update
  rw [List.find?_map]
  have hsame : ((fun l : RateLimitRow ↦ decide (l.userId = user ∧ l.scope = s)) ∘
      fun l ↦ if l.userId = userId ∧ l.scope = scope then f l else l) =
      fun l ↦ decide (l.userId = user ∧ l.scope = s) := by
    funext l
    by_cases hl : l.userId = userId ∧ l.scope = scope
    · rw [Function.comp_apply, if_pos hl, (hkeeps l hl).1, (hkeeps l hl).2, hl.1, hl.2]
    · rw [Function.comp_apply, if_neg hl]
  rw [hsame, Option.map_map]
  by_cases hkey : user = userId ∧ s = scope
  · obtain ⟨rfl, rfl⟩ := hkey
    rw [if_pos ⟨rfl, rfl⟩]
    cases hfind : db.rateLimits.find? (fun l ↦ l.userId = user ∧ l.scope = s) with
    | none => rfl
    | some l =>
      have hl : l.userId = user ∧ l.scope = s := by simpa using List.find?_some hfind
      simp [hl]
  · rw [if_neg hkey]
    cases hfind : db.rateLimits.find? (fun l ↦ l.userId = user ∧ l.scope = s) with
    | none => rfl
    | some l =>
      have hl : l.userId = user ∧ l.scope = s := by simpa using List.find?_some hfind
      have hother : ¬ (l.userId = userId ∧ l.scope = scope) := by
        rw [hl.1, hl.2]
        exact hkey
      simp [hother]

end Counters

/-- A reservation touches one counter, which accepts units with these buckets. -/
structure OnCounter (limit : Nat) (userId : Uuid) (scope : String) (buckets : List Int)
    (db t : Db) : Prop where
  step : Window.Step limit (db.window userId scope) buckets (t.window userId scope)
  others : ∀ user s, ¬ (user = userId ∧ s = scope) → t.window user s = db.window user s

/-- A reservation counts in its window. -/
theorem reserveBudget_onCounter {userId : Uuid} {scope : String} {limit : Nat} {unit now : Int}
    {s t : Database} {u : Unit} (h : Yields (reserveBudget userId scope limit unit now) s u t) :
    OnCounter limit userId scope [now - now % unit] s.1 t.1 := by
  unfold reserveBudget at h
  rw [yields_query_bind] at h
  cases hfind : s.1.rateLimits.find? fun l ↦ l.userId = userId ∧ l.scope = scope with
  | none =>
    simp only [hfind, yields_statement] at h
    have hnone := window_eq_none.mp hfind
    have hwritten : t.1.rateLimits =
        s.1.rateLimits ++ [⟨userId, scope, now - now % unit, 1⟩] := by rw [← h]
    have hwindow := window_append _ hnone ⟨rfl, rfl⟩ hwritten
    refine ⟨?_, fun user s hother ↦ ?_⟩
    · rw [hnone, hwindow, if_pos ⟨rfl, rfl⟩]
      exact .first _
    · rw [hwindow, if_neg hother]
  | some l =>
    simp only [hfind, ↓yields_require_bind, yields_statement] at h
    obtain ⟨hroom, ht⟩ := h
    have hstored : s.1.window userId scope = some ⟨l.windowStartedAt, l.requestCount⟩ := by
      unfold Db.window
      rw [hfind]
      rfl
    let counted (l : RateLimitRow) : RateLimitRow := { l with
      windowStartedAt := max l.windowStartedAt (now - now % unit)
      requestCount := if l.windowStartedAt < now - now % unit then 1 else l.requestCount + 1 }
    have hwritten : t.1.rateLimits =
        update (fun l ↦ l.userId = userId ∧ l.scope = scope) counted s.1.rateLimits := by rw [← ht]
    have hwindow := window_update counted (fun _ hl ↦ hl) hwritten
    simp only [hfind, Option.map_some] at hwindow
    refine ⟨?_, fun user s hother ↦ ?_⟩
    · rw [hstored, hwindow, if_pos ⟨rfl, rfl⟩]
      by_cases hlater : l.windowStartedAt < now - now % unit
      · simp only [counted, if_pos hlater, max_eq_right hlater.le]
        exact .opened _ _ hlater
      · simp only [counted, if_neg hlater, max_eq_left (not_lt.mp hlater)]
        exact .counted ⟨l.windowStartedAt, l.requestCount⟩ _ (not_lt.mp hlater)
          (hroom.resolve_left hlater)
    · rw [hwindow, if_neg hother]

private theorem consume_onCounter {limiter : AccountRateLimiter} {userId : Uuid}
    {now checkedAt : Int}
    {s t : Database} {d : RateLimitDecision}
    (h : Yields (consume limiter userId now checkedAt) s d t) :
    OnCounter limiter.limitPerMinute userId "chat"
      (if d.allowed then [BudgetScope.chat.bucket now] else []) s.1 t.1 := by
  have hlimit := limiter.bounded.1
  unfold consume at h
  rw [yields_query_bind] at h
  cases hfind : s.1.rateLimits.find? fun l ↦ l.userId = userId ∧ l.scope = "chat" with
  | none =>
    simp only [hfind, yields_seq, yields_statement, yields_pure] at h
    obtain ⟨v, hv, rfl, rfl⟩ := h
    have hnone := window_eq_none.mp hfind
    have hwritten : v.1.rateLimits = s.1.rateLimits ++ [limiter.row userId now none] := by
      rw [← hv]
    have hwindow := window_append _ hnone ⟨rfl, rfl⟩ hwritten
    refine ⟨?_, fun user s hother ↦ ?_⟩
    · have hallowed : (limiter.row userId now none).requestCount ≤ limiter.limitPerMinute := hlimit
      rw [hnone, if_pos (decide_eq_true hallowed), hwindow, if_pos ⟨rfl, rfl⟩]
      exact .first _
    · rw [hwindow, if_neg hother]
  | some l =>
    simp only [hfind, yields_seq, yields_statement, yields_pure] at h
    obtain ⟨v, hv, rfl, rfl⟩ := h
    have hl : l.userId = userId ∧ l.scope = "chat" := by simpa using List.find?_some hfind
    have hstored : s.1.window userId "chat" = some ⟨l.windowStartedAt, l.requestCount⟩ := by
      unfold Db.window
      rw [hfind]
      rfl
    have hwritten : v.1.rateLimits = update (fun l ↦ l.userId = userId ∧ l.scope = "chat")
        (fun _ ↦ limiter.row userId now (some l)) s.1.rateLimits := by rw [← hv]
    have hwindow := window_update (fun _ ↦ limiter.row userId now (some l)) (fun _ _ ↦ hl) hwritten
    simp only [hfind, Option.map_some] at hwindow
    have hnow := (hwindow userId "chat").trans (if_pos ⟨rfl, rfl⟩)
    refine ⟨?_, fun user s hother ↦ ?_⟩
    · rw [hstored, hnow]
      simp only [AccountRateLimiter.row]
      by_cases hlater : l.windowStartedAt < now - now % (60 * second)
      · simp only [if_pos hlater, max_eq_right hlater.le, hlimit, decide_true, if_true]
        exact .opened _ _ hlater
      · simp only [if_neg hlater, max_eq_left (not_lt.mp hlater)]
        by_cases hroom : l.requestCount < limiter.limitPerMinute
        · rw [min_eq_left hroom.le, if_pos (decide_eq_true (Nat.succ_le_of_lt hroom))]
          exact .counted ⟨l.windowStartedAt, l.requestCount⟩ _ (not_lt.mp hlater) hroom
        · have hfull : limiter.limitPerMinute ≤ l.requestCount := not_lt.mp hroom
          rw [min_eq_right hfull, if_neg (by simp)]
          exact .refused ⟨l.windowStartedAt, l.requestCount⟩ hfull
    · rw [hwindow, if_neg hother]

/-- Both counters of an execution. -/
theorem reserveExecution_onCounters {userId : Uuid} {policy : AnalysisBudgetPolicy} {now : Int}
    {s t : Database} {u : Unit} (h : Yields (reserveExecution userId policy now) s u t) :
    ∃ v : Database,
      OnCounter policy.executionsPerHour userId BudgetScope.computeHour.name
        [BudgetScope.computeHour.bucket now] s.1 v.1 ∧
      OnCounter policy.executionsPerMinute userId BudgetScope.computeMinute.name
        [BudgetScope.computeMinute.bucket now] v.1 t.1 := by
  unfold reserveExecution at h
  obtain ⟨v, hhour, hminute⟩ := yields_seq.mp h
  exact ⟨v, reserveBudget_onCounter hhour, reserveBudget_onCounter hminute⟩

/-- A rejected reservation of an execution leaves everything as it was. -/
theorem reserveExecution_rejected {userId : Uuid} {policy : AnalysisBudgetPolicy} {now : Int}
    {s t : Database} {seconds : Int}
    (h : Yields (attempt retryAfterOf (reserveExecution userId policy now)) s (.error seconds) t) :
    t = s := by
  rcases yields_attempt.mp h with ⟨a, ha, -⟩ | ⟨-, -, -, -, -, rfl⟩
  · cases ha
  · rfl

/-- The window of a budget is read from the counters alone. -/
theorem window_congr {db t : Db} (h : t.rateLimits = db.rateLimits) (userId : Uuid)
    (scope : String) : t.window userId scope = db.window userId scope := by
  unfold Db.window
  rw [h]

/-- Work that is not claimed takes nothing from a counter, work that is claimed a unit of both. -/
theorem claimWork_onCounters {policy : AnalysisBudgetPolicy} {now : Int} {token : Uuid}
    {w : JobRow × RequestRow} {s t : Database} {item : Option RecomputeWorkItem}
    (h : Yields (claimWork policy now token w) s item t) :
    (item = none ∧ t.1.rateLimits = s.1.rateLimits) ∨
      ∃ claimed, item = some claimed ∧ ∃ v : Database,
        OnCounter policy.executionsPerHour claimed.userId BudgetScope.computeHour.name
          [BudgetScope.computeHour.bucket now] s.1 v.1 ∧
        OnCounter policy.executionsPerMinute claimed.userId BudgetScope.computeMinute.name
          [BudgetScope.computeMinute.bucket now] v.1 t.1 := by
  unfold claimWork at h
  rw [yields_query_bind, yields_ite] at h
  rcases h with ⟨-, h⟩ | ⟨-, h⟩
  · simp only [yields_seq, yields_pure] at h
    obtain ⟨v, hdefer, rfl, rfl⟩ := h
    left
    rw [← yields_statement.mp hdefer]
    exact ⟨rfl, rfl⟩
  · obtain ⟨reserved, v, hattempt, hrest⟩ := yields_bind.mp h
    cases reserved with
    | error seconds =>
      obtain rfl := reserveExecution_rejected hattempt
      obtain ⟨u, hdefer, hdone⟩ := yields_seq.mp hrest
      obtain ⟨rfl, rfl⟩ := yields_pure.mp hdone
      left
      rw [← yields_statement.mp hdefer]
      exact ⟨rfl, rfl⟩
    | ok u =>
      right
      obtain ⟨claimed, t', hlease, hdone⟩ := yields_bind.mp hrest
      obtain ⟨rfl, rfl⟩ := yields_pure.mp hdone
      obtain ⟨rfl, -, -, ht⟩ := leaseWork_spec hlease
      rcases yields_attempt.mp hattempt with ⟨_, -, hreserve⟩ | ⟨_, _, -, -, herror, -⟩
      · obtain ⟨x, hhour, hminute⟩ := reserveExecution_onCounters hreserve
        have hsame : t'.1.rateLimits = v.1.rateLimits := by rw [ht, Db.leased]
        refine ⟨_, rfl, x, hhour, ⟨?_, fun user s hother ↦ ?_⟩⟩
        · rw [window_congr hsame]
          exact hminute.step
        · rw [window_congr hsame]
          exact hminute.others user s hother
      · cases herror

/-! ### Every order of reservations -/

/-- A reservation that was accepted, with the bucket of its clock. -/
structure Charge where
  userId : Uuid
  scope : BudgetScope
  bucket : Int
  deriving DecidableEq

/-- The store, and the reservations accepted so far. -/
structure Budgets where
  db : Database
  charges : List Charge

/-- What happens next to the counters of accounts. -/
inductive BudgetAction
  | request (userId : Uuid) (now : Int)
  /-- One piece of work of a claim. -/
  | claim (now : Int) (token : Uuid) (w : JobRow × RequestRow)
  | consume (userId : Uuid) (now checkedAt : Int)
  /-- Any other transaction. It does not write counters. -/
  | outside (db : Database)

/-- The most units one window of a counter takes. -/
def BudgetScope.limit (policy : AnalysisBudgetPolicy) (limiter : AccountRateLimiter) :
    BudgetScope → Nat
  | requestHour => policy.requestsPerHour
  | computeHour => policy.executionsPerHour
  | computeMinute => policy.executionsPerMinute
  | chat => limiter.limitPerMinute

namespace Budgets

/-- Before the first row. -/
def start : Budgets := ⟨.empty, []⟩

/-- The reservations that one clock makes for a user. They are noted whatever the store does. -/
def charged (userId : Uuid) (now : Int) (scopes : List BudgetScope) : List Charge :=
  scopes.map fun scope ↦ ⟨userId, scope, scope.bucket now⟩

variable (policy : AnalysisBudgetPolicy) (limiter : AccountRateLimiter)

/-- One action. A failed transaction leaves nothing. -/
def apply (s : Budgets) : BudgetAction → Budgets
  | .request userId now =>
    match (reserveRequest userId policy now).run s.db with
    | .ok (_, t) => ⟨t, s.charges ++ charged userId now [.requestHour]⟩
    | .error _ => s
  | .claim now token w =>
    match (claimWork policy now token w).run s.db with
    | .ok (some item, t) => ⟨t, s.charges ++ charged item.userId now [.computeHour, .computeMinute]⟩
    | .ok (none, t) => { s with db := t }
    | .error _ => s
  | .consume userId now checkedAt =>
    match (Store.consume limiter userId now checkedAt).run s.db with
    | .ok (decision, t) =>
      ⟨t, s.charges ++ if decision.allowed then charged userId now [.chat] else []⟩
    | .error _ => s
  | .outside db => if db.1.rateLimits = s.db.1.rateLimits then { s with db } else s

/-- The buckets of the reservations that a counter accepted. -/
def taken (charges : List Charge) (userId : Uuid) (scope : BudgetScope) : List Int :=
  (charges.filter fun c ↦ c.userId = userId ∧ c.scope = scope).map (·.bucket)

/-- Every counter accounts for its units. -/
def Accounted (s : Budgets) : Prop :=
  ∀ userId scope, Window.Counted (scope.limit policy limiter) (taken s.charges userId scope)
    (s.db.1.window userId scope.name)

variable {policy : AnalysisBudgetPolicy} {limiter : AccountRateLimiter}

private theorem limit_pos (scope : BudgetScope) : 1 ≤ scope.limit policy limiter := by
  cases scope with
  | requestHour => exact (policy.bounded policy.requestsPerHour (by simp)).1
  | computeHour => exact (policy.bounded policy.executionsPerHour (by simp)).1
  | computeMinute => exact (policy.bounded policy.executionsPerMinute (by simp)).1
  | chat => exact limiter.bounded.1

private theorem limit_lt (scope : BudgetScope) : scope.limit policy limiter < 2147483647 := by
  cases scope with
  | requestHour => exact (policy.bounded policy.requestsPerHour (by simp)).2
  | computeHour => exact (policy.bounded policy.executionsPerHour (by simp)).2
  | computeMinute => exact (policy.bounded policy.executionsPerMinute (by simp)).2
  | chat => exact limiter.bounded.2

/-- What one action does to every counter. -/
def Stepped (policy : AnalysisBudgetPolicy) (limiter : AccountRateLimiter) (s t : Budgets) : Prop :=
  ∃ new, t.charges = s.charges ++ new ∧ ∀ userId scope,
    Window.Step (scope.limit policy limiter) (s.db.1.window userId scope.name)
      (taken new userId scope) (t.db.1.window userId scope.name)

private theorem taken_append (first last : List Charge) (userId : Uuid) (scope : BudgetScope) :
    taken (first ++ last) userId scope = taken first userId scope ++ taken last userId scope := by
  unfold taken
  rw [List.filter_append, List.map_append]

private theorem taken_singleton (c : Charge) (userId : Uuid) (scope : BudgetScope) :
    taken [c] userId scope = if userId = c.userId ∧ scope = c.scope then [c.bucket] else [] := by
  unfold taken
  by_cases h : userId = c.userId ∧ scope = c.scope
  · obtain ⟨rfl, rfl⟩ := h
    simp
  · have hother : ¬ (c.userId = userId ∧ c.scope = scope) := fun hc ↦ h ⟨hc.1.symm, hc.2.symm⟩
    simp [h, hother]

private theorem Stepped.accounted {s t : Budgets} (h : Stepped policy limiter s t)
    (hs : Accounted policy limiter s) : Accounted policy limiter t := by
  obtain ⟨new, hcharges, hstep⟩ := h
  intro userId scope
  have hnext := (hs userId scope).step (limit_pos scope) (hstep userId scope)
  rw [hcharges]
  rw [taken_append]
  exact hnext

/-- A transaction that writes no counter. -/
theorem stepped_kept {s : Budgets} {t : Database} (h : t.1.rateLimits = s.db.1.rateLimits) :
    Stepped policy limiter s { s with db := t } := by
  refine ⟨[], (List.append_nil _).symm, fun user scope ↦ ?_⟩
  show Window.Step _ _ [] (t.1.window user scope.name)
  rw [window_congr h]
  exact .kept _

/-- A reservation on one counter, noted if it is accepted. -/
theorem stepped_onCounter {s : Budgets} {t : Database} {userId : Uuid} {scope : BudgetScope}
    {accepted : Bool} {now : Int} (h : OnCounter (scope.limit policy limiter) userId scope.name
      (if accepted then [scope.bucket now] else []) s.db.1 t.1) :
    Stepped policy limiter s
      ⟨t, s.charges ++ if accepted then charged userId now [scope] else []⟩ := by
  refine ⟨_, rfl, fun user sc ↦ ?_⟩
  show Window.Step _ _ _ (t.1.window user sc.name)
  by_cases hkey : user = userId ∧ sc = scope
  · obtain ⟨rfl, rfl⟩ := hkey
    cases accepted with
    | true => simpa [charged, taken_singleton] using h.step
    | false => simpa [taken] using h.step
  · have hname : ¬ (user = userId ∧ sc.name = scope.name) := fun hn ↦
      hkey ⟨hn.1, BudgetScope.name_inj hn.2⟩
    have hnone : taken (if accepted then charged userId now [scope] else []) user sc = [] := by
      cases accepted with
      | true => simp [charged, taken_singleton, hkey]
      | false => rfl
    rw [h.others user sc.name hname, hnone]
    exact .kept _

/-- Both counters of an execution take a unit, one after the other. -/
theorem stepped_execution {s : Budgets} {v t : Database} {userId : Uuid} {now : Int}
    (hhour : OnCounter policy.executionsPerHour userId BudgetScope.computeHour.name
      [BudgetScope.computeHour.bucket now] s.db.1 v.1)
    (hminute : OnCounter policy.executionsPerMinute userId BudgetScope.computeMinute.name
      [BudgetScope.computeMinute.bucket now] v.1 t.1) :
    ∃ mid, Stepped policy limiter s mid ∧ Stepped policy limiter mid
      ⟨t, s.charges ++ charged userId now [.computeHour, .computeMinute]⟩ := by
  have hfirst := @stepped_onCounter policy limiter s v userId .computeHour true now hhour
  have hsecond := @stepped_onCounter policy limiter
    ⟨v, s.charges ++ charged userId now [.computeHour]⟩ t userId .computeMinute true now hminute
  rw [if_pos rfl, List.append_assoc] at hsecond
  exact ⟨_, hfirst, hsecond⟩

private theorem stepped_refl (s : Budgets) : Stepped policy limiter s s :=
  ⟨[], (List.append_nil _).symm, fun _ _ ↦ .kept _⟩

/-- Every action takes at most one unit of each counter. -/
theorem apply_stepped (s : Budgets) (action : BudgetAction) :
    ∃ mid, Stepped policy limiter s mid ∧
      Stepped policy limiter mid (apply policy limiter s action) := by
  cases action with
  | request userId now =>
    refine ⟨s, stepped_refl s, ?_⟩
    simp only [apply]
    split
    · next t hrun =>
      exact @stepped_onCounter policy limiter s t userId .requestHour true now
        (reserveBudget_onCounter hrun)
    · exact stepped_refl s
  | claim now token w =>
    simp only [apply]
    split
    · next claimed t hrun =>
      rcases claimWork_onCounters hrun with ⟨hnone, -⟩ | ⟨_, hclaimed, v, hhour, hminute⟩
      · cases hnone
      · cases hclaimed
        exact stepped_execution hhour hminute
    · next t hrun =>
      rcases claimWork_onCounters hrun with ⟨-, hkept⟩ | ⟨_, hclaimed, -⟩
      · exact ⟨s, stepped_refl s, stepped_kept hkept⟩
      · cases hclaimed
    · exact ⟨s, stepped_refl s, stepped_refl s⟩
  | consume userId now checkedAt =>
    refine ⟨s, stepped_refl s, ?_⟩
    simp only [apply]
    split
    · next decision t hrun =>
      exact @stepped_onCounter policy limiter s t userId .chat decision.allowed now
        (consume_onCounter hrun)
    · exact stepped_refl s
  | outside db =>
    refine ⟨s, stepped_refl s, ?_⟩
    simp only [apply]
    by_cases hkept : db.1.rateLimits = s.db.1.rateLimits
    · rw [if_pos hkept]
      exact stepped_kept hkept
    · rw [if_neg hkept]
      exact stepped_refl s

private theorem accounted_start : Accounted policy limiter start :=
  fun _ _ ↦ Window.counted_start

/-- No window moves back. -/
theorem Stepped.window {s t : Budgets} (h : Stepped policy limiter s t) {userId : Uuid}
    {scope : BudgetScope} {w : Window Int} (hw : s.db.1.window userId scope.name = some w) :
    ∃ w', t.db.1.window userId scope.name = some w' ∧ w.startedAt ≤ w'.startedAt := by
  obtain ⟨new, -, hstep⟩ := h
  exact (hstep userId scope).startedAt_le hw

/-- The reservations of the work that a claim hands out. -/
def executions (now : Int) (items : List RecomputeWorkItem) : List Charge :=
  items.flatMap fun item ↦ charged item.userId now [.computeHour, .computeMinute]

/-- One piece of work after the other. -/
theorem claimWork_run {policy : AnalysisBudgetPolicy} {token : Nat → Uuid} {now : Int}
    (rows : List ((JobRow × RequestRow) × Nat)) {claimed items : List RecomputeWorkItem}
    {s : Budgets} {t : Database}
    (h : Yields (rows.foldlM (fun items w ↦ do
      let item ← claimWork policy now (token w.2) w.1
      return items ++ item.toList) claimed) s.db items t) :
    ∃ actions new, items = claimed ++ new ∧
      run (apply policy limiter) s actions = ⟨t, s.charges ++ executions now new⟩ := by
  induction rows generalizing claimed s with
  | nil =>
    obtain ⟨rfl, rfl⟩ := yields_pure.mp h
    exact ⟨[], [], (List.append_nil _).symm, by simp [executions]⟩
  | cons w rest ih =>
    rw [List.foldlM_cons] at h
    simp only [yields_bind, yields_pure] at h
    obtain ⟨_, _, ⟨item, u, hclaim, rfl, rfl⟩, hrest⟩ := h
    have hrun : (claimWork policy now (token w.2) w.1).run s.db = .ok (item, u) := hclaim
    have hnext : apply policy limiter s (.claim now (token w.2) w.1) =
        ⟨u, s.charges ++ executions now item.toList⟩ := by
      cases item <;> simp [apply, hrun, executions]
    obtain ⟨actions, new, rfl, hactions⟩ :=
      @ih (claimed ++ item.toList) ⟨u, s.charges ++ executions now item.toList⟩ hrest
    refine ⟨.claim now (token w.2) w.1 :: actions, item.toList ++ new,
      List.append_assoc _ _ _, ?_⟩
    rw [run_cons, hnext, hactions]
    simp [executions, List.append_assoc]

/-- A claim is a run of these actions: each piece of work that it hands out takes an hourly and a
minute unit, and no other work does. -/
theorem claimRecomputeWork_run {options : ClaimOptions} {token : Nat → Uuid} {now : Int}
    {s : Budgets} {items : List RecomputeWorkItem} {t : Database}
    (h : Yields (claimRecomputeWork options token now) s.db items t) :
    ∃ actions, run (apply options.policy limiter) s actions =
      ⟨t, s.charges ++ executions now items⟩ := by
  unfold claimRecomputeWork at h
  simp only [yields_seq, yields_query_bind] at h
  obtain ⟨u, hretire, hrows⟩ := h
  have hkept : u.1.rateLimits = s.db.1.rateLimits := by rw [retireStale_spec hretire, Db.retire]
  obtain ⟨actions, new, hitems, hactions⟩ :=
    @claimWork_run limiter options.policy token now _ _ _ { s with db := u } _ hrows
  rw [List.nil_append] at hitems
  refine ⟨.outside u :: actions, ?_⟩
  rw [run_cons, hitems, ← hactions]
  simp only [apply, if_pos hkept]

/-- After every order of reservations, with the clocks in any order: no window of a counter has
accepted more reservations than its limit, a reservation being in the latest bucket accepted up to
it; a counter stores the latest bucket it accepted, with a count in range, and whatever comes next
it does not move back; a claim of any number of pieces of work is such an order, with an hourly and
a minute unit for each; and an execution that is rejected leaves the hourly and the minute counter,
and all else, as they were. `src/jobtology_be/infrastructure/persistence/compute_budget.py:37–80`,
`src/jobtology_be/infrastructure/persistence/rate_limit.py:46–81`,
`src/jobtology_be/infrastructure/persistence/outbox.py:164–330`. -/
theorem budgets_respected (policy : AnalysisBudgetPolicy) (limiter : AccountRateLimiter)
    (past : List BudgetAction) :
    let s := run (apply policy limiter) start past
    (∀ userId scope window,
      (windowsOf (taken s.charges userId scope)).count window ≤ scope.limit policy limiter) ∧
    (∀ userId (scope : BudgetScope),
      (s.db.1.window userId scope.name).map (·.startedAt) = (taken s.charges userId scope).max?) ∧
    (∀ userId (scope : BudgetScope) w, s.db.1.window userId scope.name = some w →
      w.count ≤ scope.limit policy limiter + 1 ∧ w.count < 2 ^ 31 ∧
      ∀ action, ∃ w',
        (apply policy limiter s action).db.1.window userId scope.name = some w' ∧
          w.startedAt ≤ w'.startedAt) ∧
    (∀ (options : ClaimOptions) token now items t,
      Yields (claimRecomputeWork { options with policy } token now) s.db items t →
        ∃ actions, run (apply policy limiter) s actions =
          ⟨t, s.charges ++ executions now items⟩) ∧
    (∀ userId now seconds t,
      Yields (attempt retryAfterOf (reserveExecution userId policy now)) s.db (.error seconds) t →
        t = s.db) ∧
    ∀ now token w t, Yields (claimWork policy now token w) s.db none t →
      t.1.rateLimits = s.db.1.rateLimits := by
  intro s
  have haccounted : Accounted policy limiter s :=
    run_induction (fun s action hs ↦ by
      obtain ⟨mid, hfirst, hsecond⟩ := apply_stepped s action
      exact hsecond.accounted (hfirst.accounted hs)) accounted_start past
  refine ⟨fun userId scope ↦ (haccounted userId scope).bounded,
    fun userId scope ↦ (haccounted userId scope).latest,
    fun userId scope w hw ↦ ⟨?_, ?_, fun action ↦ ?_⟩,
    fun options token now items t ↦ claimRecomputeWork_run,
    fun _ _ _ _ ↦ reserveExecution_rejected, fun now token w t hyields ↦ ?_⟩
  · exact (haccounted userId scope).saturated w hw
  · have hsaturated := (haccounted userId scope).saturated w hw
    have hlimit := @limit_lt policy limiter scope
    omega
  · obtain ⟨mid, hfirst, hsecond⟩ := @apply_stepped policy limiter s action
    obtain ⟨w₁, hw₁, hle₁⟩ := hfirst.window hw
    obtain ⟨w₂, hw₂, hle₂⟩ := hsecond.window hw₁
    exact ⟨w₂, hw₂, hle₁.trans hle₂⟩
  · rcases claimWork_onCounters hyields with ⟨-, hkept⟩ | ⟨_, hclaimed, -⟩
    · exact hkept
    · cases hclaimed

end Budgets

end Jobtology.Store
