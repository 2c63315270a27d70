import Mathlib.Order.Bounds.Basic
import Leasehold.Proofs.Sweeping

/-!
# Proofs.SafeSettings — what the numbers of a configuration lead to

A server computes three things from its settings: the time between two sweeps, the
number of stripes for its locks, and the end of the lease of each new client. Each is
what it should be as long as it fits in its word, and a configuration is accepted
without a look at that.

* `Stripes.forWorkers?_eq_some_iff` — the stripes are the least power of two that is
  enough, if that is a word;
* `Client.isLeaseValid_new_iff` — the lease of a new client lasts for its whole
  milliseconds;
* `Config.validated_safe_iff` — the accepted configurations that are safe, and those
  that are accepted all the same.
-/

namespace Leasehold

/-! ## Stripes -/

namespace Stripes

variable {n workers : Nat}

/-- The power of two between a number and its double is the least that is enough. -/
theorem isLeast_leastPower (hn : 0 < n) : IsLeast {p | p.isPowerOfTwo ∧ n ≤ p} (leastPower n) := by
  have hne : 2 * n - 1 ≠ 0 := by omega
  have hle : leastPower n ≤ 2 * n - 1 := Nat.log2_self_le hne
  have hlt : 2 * n - 1 < 2 * leastPower n := by
    rw [Nat.mul_comm 2 (leastPower n)]
    exact Nat.lt_log2_self
  refine ⟨⟨⟨_, rfl⟩, by omega⟩, ?_⟩
  rintro _ ⟨⟨k, rfl⟩, henough⟩
  -- a power that is enough is more than half of the one that was taken
  have hexp : (2 * n - 1).log2 < k + 1 := by
    rw [Nat.log2_lt hne, Nat.pow_succ]
    omega
  exact Nat.pow_le_pow_right (by decide) (Nat.le_of_lt_succ hexp)

/-- A power of two is found as long as sixty-four bits hold one. -/
theorem leastPower_lt_size_iff (hn : 0 < n) :
    leastPower n < UInt64.size ↔ n ≤ 0x8000_0000_0000_0000 := by
  constructor
  · intro hlt
    have hexp : (2 * n - 1).log2 < 64 := (Nat.pow_lt_pow_iff_right (by decide)).1 hlt
    have henough := (isLeast_leastPower hn).1.2
    exact henough.trans (Nat.pow_le_pow_right (by decide) (Nat.le_of_lt_succ hexp))
  · intro hle
    exact Nat.lt_of_le_of_lt ((isLeast_leastPower hn).2 ⟨⟨63, rfl⟩, hle⟩) (by decide)

theorem word?_eq_some_iff {m : Nat} : word? m = some n ↔ m < UInt64.size ∧ m = n := by
  unfold word?
  split
  · rename_i hlt
    simp [hlt]
  · rename_i hge
    simp [hge]

/-- Both the product and the power of two have to be words, and the power is no less. -/
theorem forWorkers?_eq_some_iff : forWorkers? workers = some n ↔
    n < UInt64.size ∧ IsLeast {p | p.isPowerOfTwo ∧ 4 * max 1 workers ≤ p} n := by
  have hwanted : 0 < 4 * max 1 workers := by omega
  have hleast := isLeast_leastPower hwanted
  have hmax : max (4 * max 1 workers) 1 = 4 * max 1 workers := by omega
  unfold forWorkers? count?
  rw [Nat.max_comm workers 1]
  constructor
  · intro h
    obtain ⟨wanted, hword, hcount⟩ := Option.bind_eq_some_iff.1 h
    -- neither the product nor the power may leave the word
    obtain ⟨-, rfl⟩ := word?_eq_some_iff.1 hword
    rw [hmax] at hcount
    obtain ⟨hlt, rfl⟩ := word?_eq_some_iff.1 hcount
    exact ⟨hlt, hleast⟩
  · rintro ⟨hlt, hn⟩
    have hsame : leastPower (4 * max 1 workers) = n := hleast.unique hn
    have hproduct : 4 * max 1 workers < UInt64.size := Nat.lt_of_le_of_lt hn.1.2 hlt
    refine Option.bind_eq_some_iff.2 ⟨_, word?_eq_some_iff.2 ⟨hproduct, rfl⟩, ?_⟩
    rw [hmax]
    exact word?_eq_some_iff.2 ⟨hsame ▸ hlt, hsame⟩

/-- There are that many stripes for up to 2^61 workers. -/
theorem exists_forWorkers?_iff :
    (∃ n, forWorkers? workers = some n) ↔ workers ≤ 0x2000_0000_0000_0000 := by
  have hwanted : 0 < 4 * max 1 workers := by omega
  have hbound := leastPower_lt_size_iff hwanted
  constructor
  · rintro ⟨n, hn⟩
    obtain ⟨hlt, hleast⟩ := forWorkers?_eq_some_iff.1 hn
    rw [hleast.unique (isLeast_leastPower hwanted)] at hlt
    have hle := hbound.1 hlt
    omega
  · intro hle
    exact ⟨_, forWorkers?_eq_some_iff.2 ⟨hbound.2 (by omega), isLeast_leastPower hwanted⟩⟩

end Stripes

/-! ## Sweeps -/

theorem Duration.times?_eq_some_iff {d product : Duration} {k : Nat} :
    d.times? k = some product ↔ product.nanos = k * d.nanos := by
  rw [times?, ofNanos?_eq_some_iff, Nat.mul_comm]

/-- Four times a span is a span if the span is less than 2^62 seconds. -/
theorem Duration.exists_times?_four_iff {d : Duration} :
    (∃ product, d.times? 4 = some product) ↔ d.wholeSeconds < 0x4000_0000_0000_0000 := by
  unfold wholeSeconds
  constructor
  · rintro ⟨product, h⟩
    have hlt := product.nanos_lt
    rw [times?_eq_some_iff.1 h] at hlt
    unfold limit UInt64.size at hlt
    omega
  · intro h
    refine ⟨⟨4 * d.nanos, ?_⟩, times?_eq_some_iff.2 rfl⟩
    unfold limit UInt64.size
    omega

/-! ## Leases -/

/-- The lease of a new client lasts for the whole milliseconds of the lease time, if they can be
counted. -/
theorem Client.isLeaseValid_new_iff (id : ClientId) (r : Registration) {leaseTime : Duration}
    (needReclaim : Bool) {now later : Nat} (wall : WallTime)
    (hspan : leaseTime.wholeMillis < UInt64.size) (hle : now ≤ later)
    (hlater : (later - now) / 1_000_000 < UInt64.size) :
    (Client.new id r leaseTime needReclaim now wall).isLeaseValid later = true ↔
      later < now + leaseTime.wholeMillis * 1_000_000 := by
  have hstart : (Lease.new leaseTime now).start = now := rfl
  have hexpiry : (Lease.new leaseTime now).expiry.toNat = leaseTime.wholeMillis :=
    (Lease.toNat_expiry_new leaseTime now).trans (UInt64.toNat_ofNat_of_lt' hspan)
  show (Lease.new leaseTime now).isValid later = true ↔ _
  rw [Lease.isValid_iff, hexpiry, hstart, Nat.mod_eq_of_lt hlater]
  omega

/-! ## Configurations -/

namespace Config

variable {c : Config}

/-- The numbers of the configuration lead to what they are meant for: the sweeps are four lease
times apart, there are four stripes for each worker and as many more as make a power of two, and if
the milliseconds of the lease time can be counted, a client that is made at any reading of the clock
has a lease that is valid for exactly these milliseconds, as long as they are counted. -/
structure Safe (c : Config) : Prop where
  sweeps : ∃ interval, c.sweepInterval? = some interval ∧ interval.nanos = 4 * c.leaseTime.nanos
  stripes : ∃ n, c.lockStripes? = some n ∧
    IsLeast {p | p.isPowerOfTwo ∧ 4 * max 1 c.workerThreads.toNat ≤ p} n
  lease : c.leaseTime.wholeMillis < UInt64.size → ∀ id r needReclaim wall now,
    let client := Client.new id r c.leaseTime needReclaim now wall
    client.isLeaseValid now = true ∧
      ∀ later, now ≤ later → (later - now) / 1_000_000 < UInt64.size →
        (client.isLeaseValid later = true ↔
          later < now + c.leaseTime.wholeMillis * 1_000_000)

/-- Four lease times are a span of time unless their seconds are too many. -/
theorem exists_sweepInterval?_iff :
    (∃ interval, c.sweepInterval? = some interval ∧ interval.nanos = 4 * c.leaseTime.nanos) ↔
      c.leaseTime.wholeSeconds < 0x4000_0000_0000_0000 := by
  rw [← Duration.exists_times?_four_iff]
  refine exists_congr fun interval => and_iff_left_of_imp fun h => ?_
  exact Duration.times?_eq_some_iff.1 h

/-- There are stripes enough unless there are too many workers. -/
theorem exists_lockStripes?_iff : (∃ n, c.lockStripes? = some n ∧
    IsLeast {p | p.isPowerOfTwo ∧ 4 * max 1 c.workerThreads.toNat ≤ p} n) ↔
      c.workerThreads.toNat ≤ 0x2000_0000_0000_0000 := by
  rw [← Stripes.exists_forWorkers?_iff]
  refine exists_congr fun n => and_iff_left_of_imp fun h => ?_
  exact (Stripes.forWorkers?_eq_some_iff.1 h).2

/-- A configuration is safe within three bounds. -/
theorem safe_iff : c.Safe ↔ 1 ≤ c.leaseTime.wholeMillis ∧
    c.leaseTime.wholeSeconds < 0x4000_0000_0000_0000 ∧
    c.workerThreads.toNat ≤ 0x2000_0000_0000_0000 := by
  constructor
  · intro hsafe
    refine ⟨Nat.pos_of_ne_zero fun hzero => ?_, exists_sweepInterval?_iff.1 hsafe.sweeps,
      exists_lockStripes?_iff.1 hsafe.stripes⟩
    -- a lease of no whole millisecond has ended when it begins
    have hspan : c.leaseTime.wholeMillis < UInt64.size := by
      rw [hzero]
      decide
    have hvalid := (hsafe.lease hspan default default false default 0).1
    rw [Client.isLeaseValid_new_iff _ _ _ _ hspan (Nat.le_refl 0) (by decide), hzero] at hvalid
    exact Nat.lt_irrefl _ hvalid
  · rintro ⟨hmillis, hseconds, hworkers⟩
    refine ⟨exists_sweepInterval?_iff.2 hseconds, exists_lockStripes?_iff.2 hworkers,
      fun hspan id r needReclaim wall now => ?_⟩
    have hlasts {later : Nat} (hle : now ≤ later)
        (hlater : (later - now) / 1_000_000 < UInt64.size) :=
      Client.isLeaseValid_new_iff id r needReclaim wall hspan hle hlater
    have hstarts : (now - now) / 1_000_000 < UInt64.size := by
      rw [Nat.sub_self, Nat.zero_div]
      decide
    exact ⟨(hlasts (Nat.le_refl now) hstarts).2 (by omega), fun later => hlasts⟩

/-- A check that does not fail leaves the matter to those behind it. -/
theorem check_eq_ok_iff {p : Prop} [Decidable p] {fault : ConfigFault}
    {rest : Except ConfigFault Unit} :
    (if p then .error fault else rest) = .ok () ↔ ¬ p ∧ rest = .ok () := by
  split
  · rename_i hp
    exact ⟨nofun, fun h => absurd hp h.1⟩
  · rename_i hp
    exact ⟨fun h => ⟨hp, h⟩, And.right⟩

/-- What is looked at before a configuration is accepted. -/
theorem validate_eq_ok_iff : c.validate = .ok () ↔ 0 < c.leaseTime.nanos ∧
    c.leaseTime.nanos ≤ c.grace.nanos ∧ c.maxSlots ≠ 0 ∧ 2 ≤ c.maxOperations ∧
    c.recovery ≠ .database "" := by
  have hpositive : 0 < c.leaseTime.nanos ↔ ¬ c.leaseTime.isZero = true := by
    rw [Duration.isZero, beq_iff_eq, Nat.pos_iff_ne_zero]
  unfold validate
  simp only [check_eq_ok_iff, hpositive, Nat.not_lt, UInt32.not_lt, and_true]

/-- Of the configurations that are accepted, those are safe whose lease time is a millisecond or
longer and less than 2^62 seconds, and that have at most 2^61 workers. The others are accepted as
well: no number of workers makes a configuration be refused, and no lease time but zero. -/
theorem validated_safe_iff (h : c.validate = .ok ()) :
    (c.Safe ↔ 1 ≤ c.leaseTime.wholeMillis ∧
      c.leaseTime.wholeSeconds < 0x4000_0000_0000_0000 ∧
      c.workerThreads.toNat ≤ 0x2000_0000_0000_0000) ∧
    (∀ workerThreads, ({ c with workerThreads } : Config).validate = .ok ()) ∧
    ∀ leaseTime, 0 < leaseTime.nanos →
      ({ c with leaseTime, gracePeriod := none } : Config).validate = .ok () := by
  obtain ⟨hlease, hgrace, hslots, hoperations, hrecovery⟩ := validate_eq_ok_iff.1 h
  refine ⟨safe_iff, fun workerThreads => ?_, fun leaseTime hpositive => ?_⟩
  · exact validate_eq_ok_iff.2 ⟨hlease, hgrace, hslots, hoperations, hrecovery⟩
  · exact validate_eq_ok_iff.2 ⟨hpositive, Nat.le_refl _, hslots, hoperations, hrecovery⟩

/-- At the bounds: a lease time of one millisecond, and as many workers as there are stripes for. -/
theorem validated_safe_at_bounds :
    let c : Config := { leaseTime := .ofMillis 1, workerThreads := 0x2000_0000_0000_0000 }
    c.validate = .ok () ∧ c.Safe ∧ c.lockStripes? = some 0x8000_0000_0000_0000 := by
  intro c
  have hvalid : c.validate = .ok () := by decide
  exact ⟨hvalid, (validated_safe_iff hvalid).1.2 (by decide +kernel), by decide +kernel⟩

/-- Configurations that are accepted: with a lease time of a nanosecond no client ever has a valid
lease, with one of 2^62 seconds there is no time between two sweeps, and with one worker more than
2^61 there is no number of stripes. -/
theorem accepted_out_of_bounds :
    let short : Config := { leaseTime := ⟨1, by decide⟩ }
    let long : Config := { leaseTime := .ofSeconds 0x4000_0000_0000_0000 }
    let crowded : Config := { workerThreads := 0x2000_0000_0000_0001 }
    (short.validate = .ok () ∧
      (Client.new ⟨1⟩ (.ofOwner [1]) short.leaseTime false 0 ⟨0⟩).isLeaseValid 0 = false) ∧
    (long.validate = .ok () ∧ long.sweepInterval? = none) ∧
    (crowded.validate = .ok () ∧ crowded.lockStripes? = none) := by
  decide +kernel

end Config

end Leasehold
