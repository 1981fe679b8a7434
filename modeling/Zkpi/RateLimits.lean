import Zkpi.ByteText
import Zkpi.KeyedTables
import Zkpi.RecordedRuns

/-!
# Limits on what one legal entity asks for

A venue counts requests and probed lots by scope nullifier and epoch. Both counters are unsigned
64-bit integers whose sums wrap. As long as no sum can wrap, the counters are the exact numbers
of accepted requests and lots, and the caps hold after every sequence of requests.
-/

namespace Zkpi.RateLimits

open ByteText KeyedTables RecordedRuns List

structure EntityLimits where
  maxRequests : UInt64
  maxProbeLots : UInt64

/-- A nullifier in its compressed encoding, and an epoch. -/
abbrev Key := Digest32 × UInt64

structure EntityRateLimiter where
  limits : EntityLimits
  requests : Table Key UInt64
  lots : Table Key UInt64

inductive Refused where
  | requestCap
  | probeVolumeCap
  | privacyBudget

structure Request where
  key : Key
  lots : UInt64

def EntityRateLimiter.new (limits : EntityLimits) : EntityRateLimiter := ⟨limits, ∅, ∅⟩

def counted (table : Table Key UInt64) (key : Key) : UInt64 := (table.lookup key).getD 0

def allowRequest (limiter : EntityRateLimiter) (request : Request) :
    Except Refused Unit × EntityRateLimiter :=
  let requests := counted limiter.requests request.key + 1
  let lots := counted limiter.lots request.key + request.lots
  if requests > limiter.limits.maxRequests then (.error .requestCap, limiter)
  else if lots > limiter.limits.maxProbeLots then (.error .probeVolumeCap, limiter)
  else (.ok (), { limiter with
    requests := limiter.requests.insert request.key requests
    lots := limiter.lots.insert request.key lots })

/-- The lots of the accepted requests of one nullifier and epoch, oldest first. -/
def acceptedLots (events : List (Request × Except Refused Unit)) (key : Key) : List ℕ :=
  (events.filter fun event => event.2.isOk && event.1.key = key).map (·.1.lots.toNat)

def WithinCaps (limits : EntityLimits) (lots : List ℕ) : Prop :=
  lots.length ≤ limits.maxRequests.toNat ∧ lots.sum ≤ limits.maxProbeLots.toNat

/-- The request cap can be exceeded by one, and the volume cap by these lots, without wrapping. -/
def Request.Fits (limits : EntityLimits) (request : Request) : Prop :=
  limits.maxRequests.toNat + 1 < 2 ^ 64 ∧
    limits.maxProbeLots.toNat + request.lots.toNat < 2 ^ 64

section Counting

variable {limits : EntityLimits} {events : List (Request × Except Refused Unit)}
  {limiter : EntityRateLimiter} {request : Request}

/-- The counters of a key are the exact numbers, and these are within the caps. -/
structure Tallies (limiter : EntityRateLimiter) (key : Key) (taken : List ℕ) : Prop where
  requests : (counted limiter.requests key).toNat = taken.length
  lots : (counted limiter.lots key).toNat = taken.sum
  within : WithinCaps limiter.limits taken

def Counts (limits : EntityLimits) (events : List (Request × Except Refused Unit))
    (limiter : EntityRateLimiter) : Prop :=
  limiter.limits = limits ∧ ∀ key, Tallies limiter key (acceptedLots events key)

theorem counted_insert :
    counted (table.insert key value) key' = if key' = key then value else counted table key' := by
  rw [counted, lookup_insert_ite]
  split <;> rfl

theorem acceptedLots_concat :
    acceptedLots (events ++ [(request, result)]) key = acceptedLots events key ++
      if result.isOk ∧ key = request.key then [request.lots.toNat] else [] := by
  simp only [acceptedLots, filter_append, map_append, filter_singleton, eq_comm (a := key)]
  cases result.isOk <;> by_cases hkey : request.key = key <;> simp [hkey]

/-- A refused request changes neither the counters nor the numbers they stand for. -/
theorem Counts.refused (h : Counts limits events limiter) (why : Refused) :
    Counts limits (events ++ [(request, .error why)]) limiter := by
  refine ⟨h.1, fun key => ?_⟩
  rw [acceptedLots_concat, if_neg fun hok => Bool.false_ne_true hok.1, append_nil]
  exact h.2 key

theorem Counts.step (hfits : request.Fits limits) (h : Counts limits events limiter) :
    Counts limits (events ++ [(request, (allowRequest limiter request).1)])
      (allowRequest limiter request).2 := by
  obtain ⟨hmax, hroom⟩ := hfits
  obtain ⟨hrequests, hlots, hcount, hsum⟩ := h.2 request.key
  rw [h.1] at hcount hsum
  unfold allowRequest
  simp only
  split
  · exact h.refused _
  split
  · exact h.refused _
  rename_i hcap hprobe
  rw [gt_iff_lt, UInt64.lt_iff_toNat_lt, not_lt] at hcap hprobe
  refine ⟨h.1, fun key => ?_⟩
  by_cases hkey : key = request.key
  · -- below the caps, neither sum wraps
    have hnext : (counted limiter.requests request.key + 1).toNat =
        (acceptedLots events request.key).length + 1 := by
      rw [UInt64.toNat_add, hrequests, UInt64.toNat_one, Nat.mod_eq_of_lt (by omega)]
    have hvolume : (counted limiter.lots request.key + request.lots).toNat =
        (acceptedLots events request.key).sum + request.lots.toNat := by
      rw [UInt64.toNat_add, hlots, Nat.mod_eq_of_lt (by omega)]
    rw [hnext] at hcap
    rw [hvolume] at hprobe
    rw [hkey, acceptedLots_concat, if_pos ⟨rfl, rfl⟩]
    exact ⟨by simpa [counted_insert], by simpa [counted_insert], by simpa, by simpa⟩
  · obtain ⟨_, _, _⟩ := h.2 key
    rw [acceptedLots_concat, if_neg fun hok => hkey hok.2, append_nil]
    constructor <;> simpa [counted_insert, hkey]

end Counting

/-- If no sum can wrap, no sequence of requests gets past the caps of an epoch. -/
theorem accepted_within_caps (limits : EntityLimits) (requests : List Request)
    (hfits : ∀ request ∈ requests, request.Fits limits) (key : Key) :
    WithinCaps limits
      (acceptedLots (run allowRequest (.new limits) requests).events key) := by
  have hstart : Counts limits [] (.new limits) :=
    ⟨rfl, fun _ => ⟨rfl, rfl, Nat.zero_le _, Nat.zero_le _⟩⟩
  have hcounts : Counts limits (run allowRequest (.new limits) requests).events
      (run allowRequest (.new limits) requests).state := by
    induction requests using reverseRecOn with
    | nil => exact hstart
    | append_singleton requests request ih =>
      rw [run_concat]
      refine (ih fun r hr => hfits r ?_).step (hfits request ?_) <;> simp [*]
  have hwithin := (hcounts.2 key).within
  rwa [hcounts.1] at hwithin

def sampleKey : Key := (zeroDigest, 7)

theorem accepted_within_caps_pair : WithinCaps ⟨60, 2000⟩
    (acceptedLots (run allowRequest (.new ⟨60, 2000⟩)
      [⟨sampleKey, 1500⟩, ⟨sampleKey, 600⟩]).events sampleKey) := by
  refine accepted_within_caps _ _ (fun request hrequest => ?_) _
  simp only [mem_cons, not_mem_nil, or_false] at hrequest
  rcases hrequest with rfl | rfl <;> exact ⟨by decide, by decide⟩

/-- One lot and then all but one of the lots that 64 bits can count: the volume wraps to zero, and
both requests are accepted under a cap of two thousand lots. -/
theorem wrapped_volume_accepted : ¬ WithinCaps ⟨60, 2000⟩
    (acceptedLots (run allowRequest (.new ⟨60, 2000⟩)
      [⟨sampleKey, 1⟩, ⟨sampleKey, 18446744073709551615⟩]).events sampleKey) := by
  have hlots : acceptedLots (run allowRequest (.new ⟨60, 2000⟩)
      [⟨sampleKey, 1⟩, ⟨sampleKey, 18446744073709551615⟩]).events sampleKey =
        [1, 18446744073709551615] := by
    decide +kernel
  rw [hlots]
  exact fun h => absurd h.2 (by decide)

end Zkpi.RateLimits
