import Mathlib.Tactic.Linarith
import BridgeMcp.Lib.Text

/-!
The rate limiter: one token bucket for each host, read over exact rationals. Times are seconds of
the monotonic clock.
-/
namespace BridgeMcp.Security
open TextLib List

/-- Its `max_tokens` and its `refill_rate` are both `rate`. -/
structure TokenBucket (rate : ℕ) where
  tokens : ℚ
  lastUpdate : ℚ
  low : 0 ≤ tokens
  high : tokens ≤ rate

namespace TokenBucket
variable {rate : ℕ}

def new (tokensPerSecond : ℕ) (now : ℚ) : TokenBucket tokensPerSecond :=
  ⟨tokensPerSecond, now, Nat.cast_nonneg _, le_rfl⟩

/-- `duration_since` of a later instant is zero. -/
def refill (bucket : TokenBucket rate) (now : ℚ) : TokenBucket rate where
  tokens := min (max (now - bucket.lastUpdate) 0 * rate + bucket.tokens) rate
  lastUpdate := now
  low := le_min (add_nonneg (mul_nonneg (le_max_right _ _) (Nat.cast_nonneg _)) bucket.low)
    (Nat.cast_nonneg _)
  high := min_le_right _ _

def tryConsume (bucket : TokenBucket rate) (now : ℚ) : Bool × TokenBucket rate :=
  let bucket := bucket.refill now
  if h : 1 ≤ bucket.tokens then
    (true, ⟨bucket.tokens - 1, now, sub_nonneg.mpr h, by linarith [bucket.high]⟩)
  else (false, bucket)

variable (bucket : TokenBucket rate)

theorem tryConsume_spec (now : ℚ) :
    (bucket.tryConsume now).2.lastUpdate = now ∧
      (bucket.tryConsume now).2.tokens + (if (bucket.tryConsume now).1 then 1 else 0) =
        (bucket.refill now).tokens := by
  unfold tryConsume
  dsimp only
  split
  · exact ⟨rfl, sub_add_cancel _ _⟩
  · exact ⟨rfl, add_zero _⟩

/-- What may still be accepted between `start` and `stop`. -/
def budget (start stop : ℚ) (bucket : TokenBucket rate) : ℚ :=
  if stop < bucket.lastUpdate then 0
  else if bucket.lastUpdate < start then rate + rate * (stop - start)
  else bucket.tokens + rate * (stop - bucket.lastUpdate)

theorem budget_nonneg {start stop : ℚ} (hspan : start ≤ stop) :
    0 ≤ bucket.budget start stop := by
  have hflow : ∀ {a b : ℚ}, a ≤ b → 0 ≤ (rate : ℚ) * (b - a) :=
    fun h => mul_nonneg (Nat.cast_nonneg _) (sub_nonneg.mpr h)
  unfold budget
  split_ifs with hlate hearly
  · exact le_rfl
  · exact add_nonneg (Nat.cast_nonneg _) (hflow hspan)
  · exact add_nonneg bucket.low (hflow (not_lt.mp hlate))

theorem budget_spent {start stop now : ℚ} (hspan : start ≤ stop) (hnow : bucket.lastUpdate ≤ now) :
    (bucket.tryConsume now).2.budget start stop +
      (if (bucket.tryConsume now).1 ∧ start ≤ now ∧ now ≤ stop then 1 else 0) ≤
        bucket.budget start stop := by
  obtain ⟨htime, htokens⟩ := bucket.tryConsume_spec now
  have hfull := (bucket.refill now).high
  have hflow : (bucket.refill now).tokens ≤ bucket.tokens + rate * (now - bucket.lastUpdate) := by
    refine (min_le_left _ _).trans ?_
    rw [max_eq_left (sub_nonneg.mpr hnow)]
    linarith
  have hlast : now ≤ stop → ¬ stop < bucket.lastUpdate := fun h => not_lt.mpr (hnow.trans h)
  rcases lt_or_ge stop now with hlate | hstop
  · rw [budget, htime, if_pos hlate, if_neg (fun h => hlate.not_ge h.2.2), add_zero]
    exact bucket.budget_nonneg hspan
  · rw [budget, htime, if_neg hstop.not_gt, budget, if_neg (hlast hstop)]
    rcases lt_or_ge now start with hearly | hstart
    · rw [if_pos hearly, if_pos (hnow.trans_lt hearly), if_neg (fun h => hearly.not_ge h.2.1),
        add_zero]
    · have hless : (rate : ℚ) * (stop - now) ≤ rate * (stop - start) :=
        mul_le_mul_of_nonneg_left (sub_le_sub_left hstart stop) (Nat.cast_nonneg _)
      simp only [if_neg hstart.not_gt, hstart, hstop, and_true]
      rw [add_right_comm, htokens]
      split <;> linarith

end TokenBucket

structure RateLimiter where
  tokensPerSecond : ℕ
  buckets : Text → Option (TokenBucket tokensPerSecond)

/-- A call of `check`, with the clock as `TokenBucket::new` and then `try_consume` read it. -/
structure Check where
  host : Text
  opened : ℚ
  now : ℚ
  ordered : opened ≤ now

namespace RateLimiter

def new (tokensPerSecond : ℕ) : RateLimiter := ⟨tokensPerSecond, fun _ => none⟩

def check (limiter : RateLimiter) (call : Check) : Bool × RateLimiter :=
  if limiter.tokensPerSecond = 0 then (true, limiter)
  else
    let bucket := (limiter.buckets call.host).getD (.new _ call.opened)
    let out := bucket.tryConsume call.now
    (out.1, { limiter with buckets := Function.update limiter.buckets call.host (some out.2) })

def answers (limiter : RateLimiter) : List Check → List (Check × Bool)
  | [] => []
  | call :: calls => (call, (limiter.check call).1) :: answers (limiter.check call).2 calls

variable {rate : ℕ} {bucket : Option (TokenBucket rate)} {host : Text} {calls : List Check}

/-- The answers of one bucket, opened at the first call if there is none. -/
def serve (bucket : Option (TokenBucket rate)) : List Check → List (Check × Bool)
  | [] => []
  | call :: calls =>
    let out := (bucket.getD (.new rate call.opened)).tryConsume call.now
    (call, out.1) :: serve (some out.2) calls

theorem answers_host (host : Text) (hrate : rate ≠ 0)
    (buckets : Text → Option (TokenBucket rate)) (calls : List Check) :
    (answers ⟨rate, buckets⟩ calls).filter (·.1.host = host) =
      serve (buckets host) (calls.filter (·.host = host)) := by
  induction calls generalizing buckets with
  | nil => rfl
  | cons call calls ih =>
    have hcheck : check ⟨rate, buckets⟩ call = _ := if_neg hrate
    rw [answers, hcheck]
    by_cases hhost : call.host = host
    · rw [filter_cons_of_pos (by simpa using hhost),
        filter_cons_of_pos (by simpa using hhost), ih, ← hhost, Function.update_self]
      rfl
    · rw [filter_cons_of_neg (by simpa using hhost),
        filter_cons_of_neg (by simpa using hhost), ih,
        Function.update_of_ne (Ne.symm hhost)]

theorem map_answers (limiter : RateLimiter) (calls : List Check) :
    (limiter.answers calls).map Prod.fst = calls := by
  induction calls generalizing limiter with
  | nil => rfl
  | cons call calls ih => rw [answers, map_cons, ih]

def within (start stop : ℚ) (e : Check × Bool) : Bool :=
  decide (e.2 ∧ start ≤ e.1.now ∧ e.1.now ≤ stop)

def InOrder (calls : List Check) : Prop := calls.Pairwise fun c d => c.now ≤ d.now

theorem count_le_budget {start stop : ℚ} (hspan : start ≤ stop) (horder : InOrder calls)
    (bucket : TokenBucket rate) (hlater : ∀ c ∈ calls, bucket.lastUpdate ≤ c.now) :
    ((serve (some bucket) calls).countP (within start stop) : ℚ) ≤ bucket.budget start stop := by
  induction calls generalizing bucket with
  | nil => exact bucket.budget_nonneg hspan
  | cons call calls ih =>
    obtain ⟨hafter, hrest⟩ := pairwise_cons.mp horder
    have htime := (bucket.tryConsume_spec call.now).1
    have hcount := ih hrest (bucket.tryConsume call.now).2 fun c hc => htime.trans_le (hafter c hc)
    have hspent := bucket.budget_spent hspan (hlater call mem_cons_self)
    rw [serve, countP_cons]
    simp only [within, decide_eq_true_eq, Option.getD_some, Nat.cast_add, Nat.cast_ite, Nat.cast_one,
      Nat.cast_zero]
    exact (add_le_add_left hcount _).trans hspent

theorem count_window {start span : ℚ} (hspan : 0 ≤ span) (horder : InOrder calls) :
    ((serve (none : Option (TokenBucket rate)) calls).countP (within start (start + span)) : ℚ) ≤
      rate + rate * span := by
  have hstop : start ≤ start + span := le_add_of_nonneg_right hspan
  have hrate : (0 : ℚ) ≤ rate := Nat.cast_nonneg rate
  cases calls with
  | nil => exact add_nonneg hrate (mul_nonneg hrate hspan)
  | cons call calls =>
    refine (count_le_budget hstop horder (.new rate call.opened) ?_).trans ?_
    · exact forall_mem_cons.mpr ⟨call.ordered,
        fun c hc => call.ordered.trans ((pairwise_cons.mp horder).1 c hc)⟩
    · rw [TokenBucket.budget, add_sub_cancel_left]
      split_ifs with hlate hearly
      · exact add_nonneg hrate (mul_nonneg hrate hspan)
      · exact le_rfl
      · refine add_le_add_right (mul_le_mul_of_nonneg_left ?_ hrate) _
        exact sub_le_iff_le_add'.mpr (add_le_add_left (not_lt.mp hearly) span)

theorem burst_accepted {now : ℚ} {n : ℕ} {bucket : TokenBucket rate}
    (hn : (n : ℚ) ≤ (bucket.refill now).tokens) (hnow : ∀ c ∈ calls, c.now = now) :
    ∀ e ∈ (serve (some bucket) calls).take n, e.2 = true := by
  induction calls generalizing bucket n with
  | nil => simp [serve]
  | cons call calls ih =>
    obtain ⟨rfl, hcalls⟩ := forall_mem_cons.mp hnow
    cases n with
    | zero => simp
    | succ n =>
      push_cast at hn
      have hone : 1 ≤ (bucket.refill call.now).tokens :=
        le_trans (le_add_of_nonneg_left (Nat.cast_nonneg n)) hn
      have htake : (bucket.tryConsume call.now).1 = true := by
        rw [TokenBucket.tryConsume, dif_pos hone]
      obtain ⟨htime, htokens⟩ := bucket.tryConsume_spec call.now
      rw [htake, if_pos rfl] at htokens
      refine forall_mem_cons.mpr ⟨htake, ih (le_min ?_ ?_) hcalls⟩
      · rw [Option.getD_some, htime, sub_self, max_self, zero_mul, zero_add]
        linarith
      · linarith [(bucket.refill call.now).high]

theorem idle_burst {before burst : List Check} {now : ℚ}
    (hbucket : ∀ b ∈ bucket, b.lastUpdate + 1 ≤ now) (hidle : ∀ c ∈ before, c.now + 1 ≤ now)
    (hburst : ∀ c ∈ burst, c.now = now) :
    ∀ e ∈ ((serve bucket (before ++ burst)).drop before.length).take rate, e.2 = true := by
  induction before generalizing bucket with
  | nil =>
    cases bucket with
    | none =>
      cases burst with
      | nil => simp [serve]
      | cons call burst =>
        have hfull : (rate : ℚ) ≤ ((TokenBucket.new rate call.opened).refill now).tokens :=
          le_min (le_add_of_nonneg_left (mul_nonneg (le_max_right _ _) (Nat.cast_nonneg rate))) le_rfl
        exact burst_accepted hfull hburst
    | some bucket =>
      have hsecond : (1 : ℚ) ≤ max (now - bucket.lastUpdate) 0 :=
        le_max_of_le_left (le_sub_iff_add_le'.mpr (hbucket bucket rfl))
      have hflow := mul_le_mul_of_nonneg_right hsecond (Nat.cast_nonneg (α := ℚ) rate)
      exact burst_accepted (le_min (by linarith [bucket.low]) le_rfl) hburst
  | cons call before ih =>
    obtain ⟨hcall, hbefore⟩ := forall_mem_cons.mp hidle
    refine ih (fun b hb => ?_) hbefore
    obtain rfl := Option.some.inj hb
    rw [(TokenBucket.tryConsume_spec _ _).1]
    exact hcall

/-- Every sequence of checks on a clock that does not go back. Of one host, at most `rate` and what
flows in during the window are accepted; its answers are those of its own calls alone; and after a
second without a call the next `rate` checks at one time are accepted. -/
theorem rate_bounded (rate : ℕ) (hrate : 1 ≤ rate) (calls : List Check) (hclock : InOrder calls)
    (host : Text) :
    let own := ((new rate).answers calls).filter (·.1.host = host)
    (∀ start span : ℚ, 0 ≤ span →
      (own.countP (within start (start + span)) : ℚ) ≤ rate + rate * span) ∧
    own = (new rate).answers (calls.filter (·.host = host)) ∧
    ∀ before burst now, calls.filter (·.host = host) = before ++ burst →
      (∀ c ∈ before, c.now + 1 ≤ now) → (∀ c ∈ burst, c.now = now) →
      ∀ e ∈ (own.drop before.length).take rate, e.2 = true := by
  have hserve := answers_host host (Nat.one_le_iff_ne_zero.mp hrate) fun _ => none
  intro own
  have hown : own = serve none (calls.filter (·.host = host)) := hserve calls
  refine ⟨fun start span hspan => ?_, ?_, fun before burst now hsplit hidle hburst => ?_⟩
  · rw [hown]
    exact count_window hspan (hclock.filter _)
  · have halone := hserve (calls.filter (·.host = host))
    rw [filter_filter] at halone
    simp only [Bool.and_self] at halone
    rw [hown, ← halone]
    refine filter_eq_self.mpr fun e he => ?_
    have hmem : e.1 ∈ calls.filter (·.host = host) :=
      map_answers (new rate) (calls.filter _) ▸ mem_map_of_mem he
    simpa using (mem_filter.mp hmem).2
  · rw [hown, hsplit]
    exact idle_burst nofun hidle hburst

theorem rate_bounded_two_hosts :
    let calls : List Check := [⟨['a'], 0, 0, le_rfl⟩, ⟨['b'], 1, 1, le_rfl⟩, ⟨['a'], 2, 2, le_rfl⟩]
    InOrder calls ∧ ((new 1).answers calls).filter (·.1.host = ['a']) =
      (new 1).answers (calls.filter (·.host = ['a'])) := by
  intro calls
  have hclock : InOrder calls := by
    simp [InOrder, calls]
  exact ⟨hclock, (rate_bounded 1 le_rfl calls hclock ['a']).2.1⟩

end RateLimiter

end BridgeMcp.Security
