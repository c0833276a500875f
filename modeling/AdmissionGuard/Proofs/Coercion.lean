import AdmissionGuard.Settings.Limits

/-! Coercion. Whatever the options, the limits made of them lie within their bounds. A number within
its bounds is kept and any other goes to the nearest bound, so nothing is left to coerce a second
time, and no limit falls when options rise. -/
namespace AdmissionGuard

namespace Limits

structure Coerced (limits : Limits) : Prop where
  perMinute_ge : 30 ≤ limits.perClientPerMinute.toNat
  burst_ge : 1 ≤ limits.perClientBurst.toNat
  globalPerMinute_ge : limits.perClientPerMinute.toNat ≤ limits.globalPerMinute.toNat
  globalBurst_ge : limits.perClientBurst.toNat ≤ limits.globalBurst.toNat
  strikeThreshold_ge : 1 ≤ limits.strikeThreshold.toNat
  blockSeconds_ge : 30 ≤ limits.blockSeconds.toNat
  blockSeconds_le : limits.blockSeconds.toNat ≤ 0xffffffff

theorem le_clamp (low n : Int) : low ≤ clamp low n := Int.le_max_left ..

theorem clamp_le {low : Int} (h : low ≤ greatest) (n : Int) : clamp low n ≤ greatest :=
  Int.max_le.2 ⟨h, Int.min_le_right ..⟩

theorem clamp_of_mem {low n : Int} (hlow : low ≤ n) (hn : n ≤ greatest) : clamp low n = n := by
  rw [clamp, Int.min_eq_left hn, Int.max_eq_right hlow]

theorem clamp_mono {low low' n n' : Int} (hlow : low ≤ low') (hn : n ≤ n') :
    clamp low n ≤ clamp low' n' := by
  simp only [clamp]
  omega

/-- Every other number of the range is farther away. -/
theorem clamp_nearest {low n v : Int} (hlow : low ≤ v) (hv : v ≤ greatest)
    (hne : v ≠ clamp low n) : (clamp low n - n).natAbs < (v - n).natAbs := by
  simp only [clamp] at hne ⊢
  omega

theorem toNat_toUInt32 {n : Int} (h : n ≤ greatest) : n.toNat.toUInt32.toNat = n.toNat := by
  have hlt : n.toNat < 2 ^ 32 := by
    simp only [greatest] at h
    omega
  exact UInt32.toNat_ofNat_of_lt' hlt

theorem toNat_toUInt64 {n : Int} (h : n ≤ greatest) : n.toNat.toUInt64.toNat = n.toNat := by
  have hlt : n.toNat < 2 ^ 64 := by
    simp only [greatest] at h
    omega
  exact UInt64.toNat_ofNat_of_lt' hlt

end Limits

inductive NumericOption where
  | perClientPerMinute
  | perClientBurst
  | globalPerMinute
  | globalBurst
  | strikeThreshold
  | blockSeconds

namespace GuardOptions

def value (o : GuardOptions) : NumericOption → Int
  | .perClientPerMinute => o.perClientPerMinute
  | .perClientBurst => o.perClientBurst
  | .globalPerMinute => o.globalPerMinute
  | .globalBurst => o.globalBurst
  | .strikeThreshold => o.strikeThreshold
  | .blockSeconds => o.blockSeconds

def least (o : GuardOptions) : NumericOption → Int
  | .perClientPerMinute => 30
  | .perClientBurst => 1
  | .globalPerMinute => o.perClientPerMinute
  | .globalBurst => o.perClientBurst
  | .strikeThreshold => 1
  | .blockSeconds => 30

def InRange (o : GuardOptions) : Prop := ∀ k, o.least k ≤ o.value k ∧ o.value k ≤ 0xffffffff

theorem ext_value {o o' : GuardOptions} (henabled : o.enabled = o'.enabled)
    (hallowlist : o.allowlist = o'.allowlist) (hvalue : ∀ k, o.value k = o'.value k) : o = o' := by
  have hrate := hvalue .perClientPerMinute
  have hburst := hvalue .perClientBurst
  have hglobalRate := hvalue .globalPerMinute
  have hglobalBurst := hvalue .globalBurst
  have hstrikes := hvalue .strikeThreshold
  have hblock := hvalue .blockSeconds
  cases o
  cases o'
  simp_all only [value]

variable {o o' : GuardOptions} (k : NumericOption)

/-- The least numbers depend on the options for a single client alone. -/
theorem least_mono (hrate : o.perClientPerMinute ≤ o'.perClientPerMinute)
    (hburst : o.perClientBurst ≤ o'.perClientBurst) : o.least k ≤ o'.least k := by
  cases k with
  | globalPerMinute => exact hrate
  | globalBurst => exact hburst
  | perClientPerMinute | perClientBurst | strikeThreshold | blockSeconds => exact Int.le_refl _

theorem least_le (hrate : o.perClientPerMinute ≤ 0xffffffff)
    (hburst : o.perClientBurst ≤ 0xffffffff) : o.least k ≤ 0xffffffff := by
  cases k with
  | globalPerMinute => exact hrate
  | globalBurst => exact hburst
  | perClientPerMinute | perClientBurst | strikeThreshold | blockSeconds => simp [least]

end GuardOptions

namespace Limits

def options (l : Limits) : GuardOptions where
  enabled := l.enabled
  perClientPerMinute := l.perClientPerMinute.toNat
  perClientBurst := l.perClientBurst.toNat
  globalPerMinute := l.globalPerMinute.toNat
  globalBurst := l.globalBurst.toNat
  strikeThreshold := l.strikeThreshold.toNat
  blockSeconds := l.blockSeconds.toNat
  allowlist := l.allowlist

theorem options_injective {l l' : Limits} (h : l.options = l'.options) : l = l' := by
  cases l
  cases l'
  simpa [options, Int.natCast_inj, UInt32.toNat_inj, UInt64.toNat_inj] using h

section
variable {low : Int}

theorem clamp_nonneg (hpos : 0 ≤ low) (n : Int) : 0 ≤ clamp low n :=
  Int.le_trans hpos (le_clamp low n)

/-- A clamped number keeps its value as a word of 32 bits. -/
theorem toNat_clamp (hpos : 0 ≤ low) (hle : low ≤ greatest) (n : Int) :
    ((clamp low n).toNat.toUInt32.toNat : Int) = clamp low n := by
  rw [toNat_toUInt32 (clamp_le hle n), Int.toNat_of_nonneg (clamp_nonneg hpos n)]

theorem toNat_clamp64 (hpos : 0 ≤ low) (hle : low ≤ greatest) (n : Int) :
    ((clamp low n).toNat.toUInt64.toNat : Int) = clamp low n := by
  rw [toNat_toUInt64 (clamp_le hle n), Int.toNat_of_nonneg (clamp_nonneg hpos n)]

end

section
variable (o : GuardOptions)

theorem perClientPerMinute_ofOptions :
    (ofOptions o).options.perClientPerMinute = clamp leastPerMinute o.perClientPerMinute :=
  toNat_clamp (by decide) (by decide) _

theorem perClientBurst_ofOptions :
    (ofOptions o).options.perClientBurst = clamp leastBurst o.perClientBurst :=
  toNat_clamp (by decide) (by decide) _

/-- A limit is its option clamped to the range that the other limits leave. -/
theorem value_ofOptions (k : NumericOption) :
    (ofOptions o).options.value k = clamp ((ofOptions o).options.least k) (o.value k) := by
  cases k with
  | perClientPerMinute => exact perClientPerMinute_ofOptions o
  | perClientBurst => exact perClientBurst_ofOptions o
  | globalPerMinute =>
    rw [GuardOptions.least, perClientPerMinute_ofOptions]
    exact toNat_clamp (clamp_nonneg (by decide) _) (clamp_le (by decide) _) _
  | globalBurst =>
    rw [GuardOptions.least, perClientBurst_ofOptions]
    exact toNat_clamp (clamp_nonneg (by decide) _) (clamp_le (by decide) _) _
  | strikeThreshold => exact toNat_clamp (by decide) (by decide) _
  | blockSeconds => exact toNat_clamp64 (by decide) (by decide) _

theorem inRange_ofOptions : (ofOptions o).options.InRange := by
  intro k
  have hrate : (ofOptions o).options.perClientPerMinute ≤ greatest := by
    rw [perClientPerMinute_ofOptions]
    exact clamp_le (by decide) _
  have hburst : (ofOptions o).options.perClientBurst ≤ greatest := by
    rw [perClientBurst_ofOptions]
    exact clamp_le (by decide) _
  rw [value_ofOptions]
  exact ⟨le_clamp _ _, clamp_le (GuardOptions.least_le k hrate hburst) _⟩

theorem ofOptions_coerced : (ofOptions o).Coerced := by
  have h := inRange_ofOptions o
  exact ⟨Int.ofNat_le.1 (h .perClientPerMinute).1, Int.ofNat_le.1 (h .perClientBurst).1,
    Int.ofNat_le.1 (h .globalPerMinute).1, Int.ofNat_le.1 (h .globalBurst).1,
    Int.ofNat_le.1 (h .strikeThreshold).1, Int.ofNat_le.1 (h .blockSeconds).1,
    Int.ofNat_le.1 (h .blockSeconds).2⟩

variable {o}

/-- Options in range are left as they are. -/
theorem ofOptions_of_inRange (h : o.InRange) : (ofOptions o).options = o := by
  have hkept : ∀ k, (ofOptions o).options.least k = o.least k →
      (ofOptions o).options.value k = o.value k := fun k hleast => by
    rw [value_ofOptions, hleast]
    exact clamp_of_mem (h k).1 (h k).2
  -- The options for a single client come first: they bound the others.
  have hrate := hkept .perClientPerMinute rfl
  have hburst := hkept .perClientBurst rfl
  refine GuardOptions.ext_value rfl rfl fun k => hkept k (Int.le_antisymm ?_ ?_)
  · exact GuardOptions.least_mono k (Int.le_of_eq hrate) (Int.le_of_eq hburst)
  · exact GuardOptions.least_mono k (Int.le_of_eq hrate.symm) (Int.le_of_eq hburst.symm)

theorem ofOptions_mono {o' : GuardOptions} (h : ∀ k, o.value k ≤ o'.value k)
    (k : NumericOption) : (ofOptions o).options.value k ≤ (ofOptions o').options.value k := by
  have hclamp : ∀ k, (ofOptions o).options.least k ≤ (ofOptions o').options.least k →
      (ofOptions o).options.value k ≤ (ofOptions o').options.value k := fun k hleast => by
    rw [value_ofOptions, value_ofOptions]
    exact clamp_mono hleast (h k)
  have hrate := hclamp .perClientPerMinute (Int.le_refl _)
  have hburst := hclamp .perClientBurst (Int.le_refl _)
  exact hclamp k (GuardOptions.least_mono k hrate hburst)

end

/-- Coercion moves each number to the nearest one in its range, where the ranges of the global
limits start at the coerced limits of a single client. So it leaves options in range alone, does no
more the second time, and keeps the order of options. -/
theorem coercion_is_closure (o : GuardOptions) :
    let c := (ofOptions o).options
    c.InRange ∧ c.enabled = o.enabled ∧ c.allowlist = o.allowlist ∧
      (o.InRange → c = o) ∧ ofOptions c = ofOptions o ∧
      (∀ o', (∀ k, o.value k ≤ o'.value k) →
        ∀ k, c.value k ≤ (ofOptions o').options.value k) ∧
      ∀ k v, c.least k ≤ v → v ≤ 0xffffffff → v ≠ c.value k →
        (c.value k - o.value k).natAbs < (v - o.value k).natAbs := by
  intro c
  have hrange := inRange_ofOptions o
  refine ⟨hrange, rfl, rfl, ofOptions_of_inRange, options_injective (ofOptions_of_inRange hrange),
    fun o' => ofOptions_mono, fun k v hlow hhigh hne => ?_⟩
  have hvalue : c.value k = clamp (c.least k) (o.value k) := value_ofOptions o k
  rw [hvalue] at hne ⊢
  exact clamp_nearest hlow hhigh hne

/-- A rate of 25 for all clients is raised to that of a single client, which is itself raised from
20 to 30. It rises with the latter, and 31 is farther away. The defaults stay. -/
theorem global_rate_follows_client_rate :
    let o : GuardOptions := { perClientPerMinute := 20, globalPerMinute := 25 }
    let raised : GuardOptions := { perClientPerMinute := 50, globalPerMinute := 25 }
    let c := (ofOptions o).options
    c.globalPerMinute = 30 ∧ (ofOptions raised).options.globalPerMinute = 50 ∧
      c.globalPerMinute ≤ (ofOptions raised).options.globalPerMinute ∧
      (c.globalPerMinute - 25).natAbs < (31 - 25 : Int).natAbs ∧
      (ofOptions {}).options = {} := by
  intro o raised c
  obtain ⟨-, -, -, -, -, hmono, hnearest⟩ := coercion_is_closure o
  obtain ⟨-, -, -, hkept, -⟩ := coercion_is_closure {}
  have hraised : ∀ k, o.value k ≤ raised.value k := fun k => by cases k <;> decide
  have hdefault : GuardOptions.InRange {} := fun k => by cases k <;> decide
  exact ⟨by decide, by decide, hmono raised hraised .globalPerMinute,
    hnearest .globalPerMinute 31 (by decide) (by decide) (by decide), hkept hdefault⟩

end Limits

end AdmissionGuard
